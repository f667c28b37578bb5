import Invisibool.Tokenizer.SessionLive

/-!
# What a map with room for everything holds

When the real values and the fakes of a run of calls belong to each other one to one, and there
is room for all the values, a fresh map evicts nothing and holds exactly the pairs of the calls.
-/

namespace Invisibool
open Text

/-- Equal real values have equal fakes, and different ones different fakes. -/
def OneToOne (calls : List (Str × Str)) : Prop :=
  ∀ c ∈ calls, ∀ c' ∈ calls, c.1 = c'.1 ↔ c.2 = c'.2

instance (calls : List (Str × Str)) : Decidable (OneToOne calls) :=
  inferInstanceAs (Decidable (∀ c ∈ calls, ∀ c' ∈ calls, _))

lemma OneToOne.mono {calls calls' : List (Str × Str)} (h : OneToOne calls)
    (hsub : calls' ⊆ calls) : OneToOne calls' :=
  fun c hc c' hc' => h c (hsub hc) c' (hsub hc')

namespace SessionMap

/-- The map has the pairs of the calls, in both directions, all touched at one time. -/
structure Holds (m : SessionMap) (now : Nat) (calls : List (Str × Str)) : Prop where
  byFake : ∀ fake entry, m.byFake.lookup fake = some entry ↔
    entry.lastTouched = now ∧ (entry.real, fake) ∈ calls
  byReal : ∀ real fake, m.byReal.lookup real = some fake ↔ (real, fake) ∈ calls

variable {m : SessionMap} {now : Nat} {calls : List (Str × Str)}

lemma holds_new (maxEntries ttl now : Nat) : (SessionMap.new maxEntries ttl).Holds now [] where
  byFake fake entry := by simp [SessionMap.new]
  byReal real fake := by simp [SessionMap.new]

lemma Holds.prune_eq (h : m.Holds now calls) : m.prune now = m := by
  have hnone : m.expiredFakes now = [] := by
    apply List.eq_nil_iff_forall_not_mem.mpr
    intro fake hfake
    obtain ⟨entry, hlook, hexp⟩ := mem_expiredFakes.mp hfake
    rw [Expired, ((h.byFake fake entry).mp hlook).1, Nat.sub_self] at hexp
    omega
  unfold prune
  rw [hnone]
  rfl

/-- The map has at most as many entries as there are other values than a new one. -/
lemma Holds.len_lt (h : m.Holds now calls) (hone : OneToOne calls) {all : List Str}
    (hall : ∀ c ∈ calls, c.1 ∈ all) {real : Str} (hreal : real ∈ all)
    (hnew : m.byReal.lookup real = none) : m.len < all.length := by
  have hentry : ∀ e ∈ m.byFake.entries, (e.2.real, e.1) ∈ calls := fun e he =>
    ((h.byFake e.1 e.2).mp (AList.mem_lookup_iff.mpr he)).2
  have hnodup : (m.byFake.entries.map fun e => e.2.real).Nodup := by
    apply List.Nodup.map_on _ (List.NodupKeys.nodup m.byFake.nodupKeys)
    intro e he e' he' heq
    have hkey : e.1 = e'.1 := (hone _ (hentry e he) _ (hentry e' he')).mp heq
    exact List.NodupKeys.eq_of_fst_eq m.byFake.nodupKeys he he' hkey
  have hfresh : real ∉ m.byFake.entries.map fun e => e.2.real := by
    intro hmem
    obtain ⟨e, he, rfl⟩ := List.mem_map.mp hmem
    rw [(h.byReal _ _).mpr (hentry e he)] at hnew
    cases hnew
  have hsub : (real :: m.byFake.entries.map fun e => e.2.real) ⊆ all := by
    intro r hr
    rcases List.mem_cons.mp hr with rfl | hr
    · exact hreal
    · obtain ⟨e, he, rfl⟩ := List.mem_map.mp hr
      exact hall _ (hentry e he)
  have hle := (List.subperm_of_subset (List.nodup_cons.mpr ⟨hfresh, hnodup⟩) hsub).length_le
  rw [List.length_cons, List.length_map] at hle
  exact hle

lemma Holds.getOrInsert (ord : HashOrder) (h : m.Holds now calls) {real fake : Str}
    (hone : OneToOne (calls ++ [(real, fake)])) {all : List Str}
    (hall : ∀ c ∈ calls, c.1 ∈ all) (hreal : real ∈ all) (hroom : all.length ≤ m.maxEntries) :
    (m.getOrInsert ord real now fake).1.Holds now (calls ++ [(real, fake)]) ∧
      (m.getOrInsert ord real now fake).1.maxEntries = m.maxEntries ∧
      (m.getOrInsert ord real now fake).1.ttl = m.ttl := by
  have hpair : ∀ c ∈ calls, c.1 = real ↔ c.2 = fake := fun c hc =>
    hone c (by simp [hc]) (real, fake) (by simp)
  unfold SessionMap.getOrInsert
  rw [h.prune_eq]
  dsimp only
  split
  · rename_i g hg
    -- the pair is already there
    have hmem := (h.byReal _ _).mp hg
    obtain rfl : g = fake := (hpair _ hmem).mp rfl
    have hcalls : ∀ c, c ∈ calls ++ [(real, g)] ↔ c ∈ calls := by
      intro c
      rw [List.mem_append, List.mem_singleton]
      exact ⟨fun hc => hc.elim id fun hc => hc ▸ hmem, .inl⟩
    have hlook := (h.byFake g ⟨real, now⟩).mpr ⟨rfl, hmem⟩
    unfold touch
    rw [hlook]
    refine ⟨⟨fun f entry => ?_, fun r f => ?_⟩, rfl, rfl⟩
    · rw [hcalls]
      by_cases hf : f = g
      · subst hf
        rw [AList.lookup_insert, ← hlook]
        exact h.byFake _ _
      · rw [AList.lookup_insert_ne hf]
        exact h.byFake _ _
    · rw [hcalls]
      exact h.byReal _ _
  · rename_i hnone
    have hlen := h.len_lt (hone.mono (by simp)) hall hreal hnone
    rw [if_neg (by omega)]
    have hfree : ∀ entry, m.byFake.lookup fake ≠ some entry := by
      intro entry hentry
      have hmem := ((h.byFake _ _).mp hentry).2
      rw [← (hpair _ hmem).mpr rfl, (h.byReal _ _).mpr hmem] at hnone
      cases hnone
    have hbyFake : m.byFake.lookup fake = none := Option.eq_none_iff_forall_ne_some.mpr hfree
    unfold insertPair
    rw [hbyFake]
    refine ⟨⟨fun f entry => ?_, fun r f => ?_⟩, rfl, rfl⟩
    · by_cases hf : f = fake
      · subst hf
        rw [AList.lookup_insert, List.mem_append, List.mem_singleton]
        constructor
        · intro heq
          obtain rfl := Option.some.inj heq
          exact ⟨rfl, .inr rfl⟩
        · rintro ⟨hnow, hmem | hmem⟩
          · exact absurd ((h.byFake f entry).mpr ⟨hnow, hmem⟩) (hfree entry)
          · obtain rfl : entry.real = real := congrArg Prod.fst hmem
            rw [← hnow]
      · rw [AList.lookup_insert_ne hf, h.byFake]
        simp [hf]
    · by_cases hr : r = real
      · subst hr
        have hno : (r, f) ∉ calls := fun hmem => by
          rw [(h.byReal _ _).mpr hmem] at hnone
          cases hnone
        rw [AList.lookup_insert]
        simp [hno, eq_comm]
      · rw [AList.lookup_insert_ne hr, h.byReal]
        simp [hr]

theorem Holds.insertAll (ord : HashOrder) (h : m.Holds now calls) {calls' : List (Str × Str)}
    (hone : OneToOne (calls ++ calls')) {all : List Str}
    (hall : ∀ c ∈ calls ++ calls', c.1 ∈ all) (hroom : all.length ≤ m.maxEntries) :
    (m.insertAll ord now calls').Holds now (calls ++ calls') ∧
      (m.insertAll ord now calls').ttl = m.ttl := by
  induction calls' generalizing m calls with
  | nil =>
    rw [List.append_nil]
    exact ⟨h, rfl⟩
  | cons c calls' ih =>
    rw [List.append_cons] at hone hall ⊢
    have hone' : OneToOne (calls ++ [(c.1, c.2)]) := hone.mono (by simp)
    obtain ⟨h1, h2, h3⟩ := h.getOrInsert ord hone' (fun c hc => hall c (by simp [hc]))
      (hall c (by simp)) hroom
    have hrun := ih h1 hone hall (h2.symm ▸ hroom)
    exact ⟨hrun.1, hrun.2.trans h3⟩

lemma Holds.insertPair (h : m.Holds now calls) {real fake : Str}
    (hone : OneToOne (calls ++ [(real, fake)])) :
    (m.insertPair fake real now).Holds now (calls ++ [(real, fake)]) := by
  have hpair : ∀ c ∈ calls, c.1 = real ↔ c.2 = fake := fun c hc =>
    hone c (by simp [hc]) (real, fake) (by simp)
  have hbyReal : ∀ r f, r ≠ real →
      ((m.insertPair fake real now).byReal.lookup r = some f ↔ (r, f) ∈ calls) := by
    intro r f hr
    rw [← h.byReal]
    unfold SessionMap.insertPair
    refine Iff.of_eq (congrArg (· = some f) ((AList.lookup_insert_ne hr).trans ?_))
    split
    · rename_i old hold
      -- the fake can only have stood for the same value
      have hsame : old.real = real := (hpair _ ((h.byFake _ _).mp hold).2).mpr rfl
      exact AList.lookup_erase_ne (hsame ▸ hr)
    · rfl
  refine ⟨fun f entry => ?_, fun r f => ?_⟩
  · rw [insertPair_byFake, List.mem_append, List.mem_singleton]
    by_cases hf : f = fake
    · subst hf
      rw [AList.lookup_insert]
      constructor
      · intro heq
        obtain rfl := Option.some.inj heq
        exact ⟨rfl, .inr rfl⟩
      · rintro ⟨hnow, hmem | hmem⟩
        · rw [← hnow, ← (hpair _ hmem).mpr rfl]
        · rw [← hnow, ← (Prod.mk.inj hmem).1]
    · rw [AList.lookup_insert_ne hf, h.byFake]
      simp [hf]
  · by_cases hr : r = real
    · subst hr
      have hlook : (m.insertPair fake r now).byReal.lookup r = some fake := AList.lookup_insert _
      rw [hlook, List.mem_append, List.mem_singleton]
      constructor
      · intro heq
        obtain rfl := Option.some.inj heq
        exact .inr rfl
      · rintro (hmem | hmem)
        · exact congrArg some ((hpair _ hmem).mp rfl).symm
        · exact congrArg some (Prod.mk.inj hmem).2.symm
    · rw [hbyReal r f hr]
      simp [hr]

/-- A bulk load of pairs that belong to each other one to one. -/
theorem Holds.importPairs (h : m.Holds now calls) {pairs : List (Str × Str)}
    (hone : OneToOne (calls ++ pairs.map Prod.swap)) :
    (m.importPairs pairs now).Holds now (calls ++ pairs.map Prod.swap) := by
  induction pairs generalizing m calls with
  | nil =>
    rw [List.map_nil, List.append_nil]
    exact h
  | cons p pairs ih =>
    rw [List.map_cons, List.append_cons] at hone ⊢
    have hone' : OneToOne (calls ++ [(p.2, p.1)]) := hone.mono (List.subset_append_left _ _)
    exact ih (h.insertPair hone') hone

lemma Holds.mem_entries (h : m.Holds now calls) (ord : HashOrder) {fake real : Str} :
    (fake, real) ∈ m.entries ord ↔ (real, fake) ∈ calls := by
  unfold SessionMap.entries
  rw [List.mem_map]
  constructor
  · rintro ⟨e, he, heq⟩
    obtain ⟨rfl, rfl⟩ := Prod.mk.inj heq
    have hlook := AList.mem_lookup_iff.mpr ((ord.perm _).mem_iff.mp he)
    exact ((h.byFake _ _).mp hlook).2
  · intro hcall
    have hlook := (h.byFake fake ⟨real, now⟩).mpr ⟨rfl, hcall⟩
    exact ⟨⟨fake, real, now⟩, (ord.perm _).mem_iff.mpr (AList.mem_lookup_iff.mp hlook), rfl⟩

lemma Holds.realOf (h : m.Holds now calls) {fake real : Str} (hcall : (real, fake) ∈ calls) :
    m.realOf now fake = some real := by
  refine realOf_eq_some.mpr ⟨⟨real, now⟩, (h.byFake _ _).mpr ⟨rfl, hcall⟩, rfl, ?_⟩
  simp [Expired]

end SessionMap

end Invisibool
