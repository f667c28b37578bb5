import Invisibool.Tokenizer.Session

/-!
# Live pairs

Which pairs a session map can restore, and what one call of `get_or_insert` does to them. A call
that finds the real value held changes no pair. Any other call stores its own pair, and loses
the pairs with the same fake and the one it evicts to make room.
-/

namespace Invisibool
open Text

namespace SessionMap

/-- The fake is in the map, has not expired, and stands for the real value. -/
def Live (m : SessionMap) (now : Nat) (fake real : Str) : Prop :=
  ∃ entry, m.byFake.lookup fake = some entry ∧ entry.real = real ∧ ¬ m.Expired now entry

/-- `get_or_insert` finds no fake for the real value, and stores its own. -/
def Stores (m : SessionMap) (now : Nat) (real : Str) : Prop :=
  (m.prune now).byReal.lookup real = none

/-- A call that stores, and loses the pair of a fake: by storing another pair under it, or by
evicting it from a full map. -/
def Drops (ord : HashOrder) (m : SessionMap) (now : Nat) (real makeFake fake : Str) : Prop :=
  m.Stores now real ∧ (makeFake = fake ∨
    ((m.prune now).maxEntries ≤ (m.prune now).len ∧ (m.prune now).lruFake ord = some fake))

instance (m : SessionMap) (now : Nat) (real : Str) : Decidable (m.Stores now real) :=
  inferInstanceAs (Decidable (_ = _))

instance (ord : HashOrder) (m : SessionMap) (now : Nat) (real makeFake fake : Str) :
    Decidable (m.Drops ord now real makeFake fake) := inferInstanceAs (Decidable (_ ∧ _))

variable {ord : HashOrder} {m : SessionMap} {now : Nat} {fake real : Str}

@[simp] lemma removeFake_ttl (g : Str) : (m.removeFake g).ttl = m.ttl := by
  unfold removeFake
  split <;> rfl

@[simp] lemma removeFake_maxEntries (g : Str) : (m.removeFake g).maxEntries = m.maxEntries := by
  unfold removeFake
  split <;> rfl

lemma lookup_removeFake (g : Str) :
    (m.removeFake g).byFake.lookup fake = if fake = g then none else m.byFake.lookup fake := by
  unfold removeFake
  split
  · split
    · rename_i h
      subst h
      exact AList.lookup_erase _ _
    · rename_i h
      exact AList.lookup_erase_ne h
  · rename_i hnone
    split
    · rename_i h
      subst h
      exact hnone
    · rfl

lemma foldl_removeFake (fake : Str) (gs : List Str) :
    (gs.foldl removeFake m).ttl = m.ttl ∧ (gs.foldl removeFake m).maxEntries = m.maxEntries ∧
      (gs.foldl removeFake m).byFake.lookup fake =
        if fake ∈ gs then none else m.byFake.lookup fake := by
  induction gs generalizing m with
  | nil => simp
  | cons g gs ih =>
    obtain ⟨h1, h2, h3⟩ := ih (m := m.removeFake g)
    rw [List.foldl_cons, h1, h2, h3, lookup_removeFake]
    refine ⟨by simp, by simp, ?_⟩
    by_cases hg : fake = g
    · simp [hg]
    · simp [hg]

@[simp] lemma prune_ttl : (m.prune now).ttl = m.ttl := (foldl_removeFake [] _).1

@[simp] lemma prune_maxEntries : (m.prune now).maxEntries = m.maxEntries :=
  (foldl_removeFake [] _).2.1

lemma mem_expiredFakes :
    fake ∈ m.expiredFakes now ↔ ∃ entry, m.byFake.lookup fake = some entry ∧
      m.Expired now entry := by
  unfold expiredFakes
  simp only [List.mem_map, List.mem_filter, decide_eq_true_eq]
  constructor
  · rintro ⟨⟨k, entry⟩, ⟨hmem, hexp⟩, rfl⟩
    exact ⟨entry, AList.mem_lookup_iff.mpr hmem, hexp⟩
  · rintro ⟨entry, hlook, hexp⟩
    exact ⟨⟨fake, entry⟩, ⟨AList.mem_lookup_iff.mp hlook, hexp⟩, rfl⟩

lemma lookup_prune {entry : Entry} :
    (m.prune now).byFake.lookup fake = some entry ↔
      m.byFake.lookup fake = some entry ∧ ¬ m.Expired now entry := by
  unfold prune
  rw [(foldl_removeFake _ _).2.2]
  split
  · rename_i hmem
    obtain ⟨entry', hlook, hexp⟩ := mem_expiredFakes.mp hmem
    simp only [reduceCtorEq, false_iff, not_and, not_not]
    intro h
    obtain rfl := Option.some.inj (hlook.symm.trans h)
    exact hexp
  · rename_i hmem
    refine ⟨fun h => ⟨h, fun hexp => hmem (mem_expiredFakes.mpr ⟨entry, h, hexp⟩)⟩, And.left⟩

lemma live_prune : (m.prune now).Live now fake real ↔ m.Live now fake real := by
  unfold Live
  simp only [lookup_prune, Expired, prune_ttl]
  constructor
  · rintro ⟨entry, ⟨h1, h2⟩, h3, -⟩
    exact ⟨entry, h1, h3, h2⟩
  · rintro ⟨entry, h1, h2, h3⟩
    exact ⟨entry, ⟨h1, h3⟩, h2, h3⟩

@[simp] lemma touch_ttl (g : Str) : (m.touch g now).ttl = m.ttl := by
  unfold touch
  split <;> rfl

lemma live_touch (g : Str) (h : m.Live now fake real) : (m.touch g now).Live now fake real := by
  obtain ⟨entry, hlook, hreal, hexp⟩ := h
  unfold Live
  simp only [Expired, touch_ttl]
  unfold touch
  split
  · rename_i entry' hlook'
    by_cases hg : fake = g
    · subst hg
      obtain rfl := Option.some.inj (hlook.symm.trans hlook')
      exact ⟨_, AList.lookup_insert _, hreal, by simp⟩
    · exact ⟨entry, (AList.lookup_insert_ne hg).trans hlook, hreal, hexp⟩
  · exact ⟨entry, hlook, hreal, hexp⟩

lemma real_of_live_touch {g : Str} (h : (m.touch g now).Live now fake real)
    (hpruned : ∀ entry, m.byFake.lookup fake = some entry → ¬ m.Expired now entry) :
    m.Live now fake real := by
  obtain ⟨entry, hlook, hreal, -⟩ := h
  unfold touch at hlook
  split at hlook
  · rename_i entry' hlook'
    by_cases hg : fake = g
    · subst hg
      rw [AList.lookup_insert] at hlook
      obtain rfl := Option.some.inj hlook
      exact ⟨entry', hlook', hreal, hpruned _ hlook'⟩
    · rw [AList.lookup_insert_ne hg] at hlook
      exact ⟨entry, hlook, hreal, hpruned _ hlook⟩
  · exact ⟨entry, hlook, hreal, hpruned _ hlook⟩

lemma lookup_evictLru :
    (m.evictLru ord).byFake.lookup fake =
      if m.lruFake ord = some fake then none else m.byFake.lookup fake := by
  unfold evictLru
  split
  · rename_i g hg
    rw [lookup_removeFake, hg]
    simp only [Option.some.injEq, eq_comm]
  · rename_i hnone
    simp [hnone]

@[simp] lemma evictLru_ttl : (m.evictLru ord).ttl = m.ttl := by
  unfold evictLru
  split
  · exact removeFake_ttl _
  · rfl

lemma live_evictLru :
    (m.evictLru ord).Live now fake real ↔
      m.Live now fake real ∧ m.lruFake ord ≠ some fake := by
  unfold Live
  simp only [Expired, evictLru_ttl, lookup_evictLru]
  by_cases hlru : m.lruFake ord = some fake
  · simp [hlru]
  · simp [hlru]

lemma insertPair_byFake (g r : Str) :
    (m.insertPair g r now).byFake = m.byFake.insert g ⟨r, now⟩ := rfl

lemma live_insertPair_self (g r : Str) :
    (m.insertPair g r now).Live now g real ↔ r = real := by
  unfold Live
  rw [insertPair_byFake, AList.lookup_insert]
  constructor
  · rintro ⟨entry, hentry, hreal, -⟩
    obtain rfl := Option.some.inj hentry
    exact hreal
  · rintro rfl
    exact ⟨_, rfl, rfl, by simp [Expired]⟩

lemma live_insertPair_of_ne {g : Str} (hg : fake ≠ g) (r : Str) :
    (m.insertPair g r now).Live now fake real ↔ m.Live now fake real := by
  unfold Live
  rw [insertPair_byFake, AList.lookup_insert_ne hg]
  rfl

/-- The real value that the map has for a fake, if its entry has not expired. -/
def realOf (m : SessionMap) (now : Nat) (fake : Str) : Option Str :=
  match m.byFake.lookup fake with
  | some entry => if m.Expired now entry then none else some entry.real
  | none => none

lemma realOf_eq_some : m.realOf now fake = some real ↔ m.Live now fake real := by
  unfold realOf Live
  cases m.byFake.lookup fake with
  | none => simp
  | some entry =>
    by_cases hexp : m.Expired now entry
    · simp [hexp]
    · simp [hexp]

lemma live_restore (g : Str) :
    (m.restore g now).1.Live now fake real ↔ m.Live now fake real := by
  unfold restore
  dsimp only
  split
  · refine ⟨fun h => live_prune.mp (real_of_live_touch h fun entry hlook => ?_),
      fun h => live_touch g (live_prune.mpr h)⟩
    simpa [Expired] using (lookup_prune.mp hlook).2
  · exact live_prune

lemma restore_snd : (m.restore fake now).2 = m.realOf now fake := by
  apply Option.ext
  intro r
  rw [realOf_eq_some, ← live_prune]
  have hlive : ∀ entry, (m.prune now).byFake.lookup fake = some entry →
      ¬ (m.prune now).Expired now entry := fun entry h => by
    simpa [Expired] using (lookup_prune.mp h).2
  unfold restore Live
  dsimp only
  split
  · rename_i entry hlook
    simp only [hlook, Option.some.injEq]
    constructor
    · intro h
      exact ⟨entry, rfl, h, hlive entry hlook⟩
    · rintro ⟨_, rfl, h, -⟩
      exact h
  · rename_i hlook
    simp [hlook]

lemma realOf_restore (g : Str) : (m.restore g now).1.realOf now = m.realOf now := by
  funext fake
  apply Option.ext
  intro r
  rw [realOf_eq_some, realOf_eq_some, live_restore]

/-- The pairs that are live after a call: those that were and are not dropped, and the pair of
the call itself if it stores. -/
theorem live_getOrInsert (r g : Str) :
    (m.getOrInsert ord r now g).1.Live now fake real ↔
      (m.Stores now r ∧ g = fake ∧ r = real) ∨
        (m.Live now fake real ∧ ¬ m.Drops ord now r g fake) := by
  have hpruned : ∀ entry, (m.prune now).byFake.lookup fake = some entry →
      ¬ (m.prune now).Expired now entry := fun entry h => by
    simpa [Expired] using (lookup_prune.mp h).2
  unfold getOrInsert Drops Stores
  dsimp only
  split
  · rename_i h hheld
    simp only [hheld, reduceCtorEq, false_and, not_false_eq_true, and_true, false_or]
    exact ⟨fun hl => live_prune.mp (real_of_live_touch hl hpruned),
      fun hl => live_touch _ (live_prune.mpr hl)⟩
  · rename_i hfree
    simp only [hfree, true_and, not_or, not_and]
    by_cases hg : g = fake
    · subst hg
      simp only [true_and, not_true_eq_false, false_and, and_false, or_false]
      exact live_insertPair_self g r
    · simp only [hg, false_and, not_false_eq_true, true_and, false_or]
      rw [live_insertPair_of_ne (Ne.symm hg)]
      split
      · rename_i hfull
        rw [live_evictLru, live_prune]
        exact and_congr_right fun _ => ⟨fun h _ => h, fun h => h hfull⟩
      · rename_i hroom
        rw [live_prune]
        exact ⟨fun h => ⟨h, fun hfull => absurd hfull hroom⟩, And.left⟩

/-- The map after the calls, each a real value and the fake made for it. -/
def insertAll (ord : HashOrder) (m : SessionMap) (now : Nat) (calls : List (Str × Str)) :
    SessionMap :=
  calls.foldl (fun m c => (m.getOrInsert ord c.1 now c.2).1) m

/-- No call drops the fake, each looked at in the state before it. -/
def NoneDrops (ord : HashOrder) (now : Nat) (fake : Str) : SessionMap → List (Str × Str) → Prop
  | _, [] => True
  | m, c :: calls => ¬ m.Drops ord now c.1 c.2 fake ∧
      NoneDrops ord now fake (m.getOrInsert ord c.1 now c.2).1 calls

/-- Some call stores the pair, and no later one drops it. -/
def Lands (ord : HashOrder) (now : Nat) (fake real : Str) :
    SessionMap → List (Str × Str) → Prop
  | _, [] => False
  | m, c :: calls =>
    (c = (real, fake) ∧ m.Stores now real ∧
        NoneDrops ord now fake (m.getOrInsert ord c.1 now c.2).1 calls) ∨
      Lands ord now fake real (m.getOrInsert ord c.1 now c.2).1 calls

instance decidableNoneDrops (ord : HashOrder) (now : Nat) (fake : Str) (m : SessionMap)
    (calls : List (Str × Str)) : Decidable (NoneDrops ord now fake m calls) :=
  match calls with
  | [] => isTrue trivial
  | c :: calls =>
    have := decidableNoneDrops ord now fake (m.getOrInsert ord c.1 now c.2).1 calls
    inferInstanceAs (Decidable (_ ∧ _))

instance decidableLands (ord : HashOrder) (now : Nat) (fake real : Str) (m : SessionMap)
    (calls : List (Str × Str)) : Decidable (Lands ord now fake real m calls) :=
  match calls with
  | [] => isFalse id
  | c :: calls =>
    have := decidableLands ord now fake real (m.getOrInsert ord c.1 now c.2).1 calls
    inferInstanceAs (Decidable (_ ∨ _))

/-- After a run a pair is live if it was and no call drops it, or if a call stores it for good. -/
theorem live_insertAll (calls : List (Str × Str)) :
    (m.insertAll ord now calls).Live now fake real ↔
      (m.Live now fake real ∧ NoneDrops ord now fake m calls) ∨
        Lands ord now fake real m calls := by
  induction calls generalizing m with
  | nil => simp [insertAll, NoneDrops, Lands]
  | cons c calls ih =>
    have hstep : (m.getOrInsert ord c.1 now c.2).1.Live now fake real ↔
        (m.Stores now c.1 ∧ c.2 = fake ∧ c.1 = real) ∨
          (m.Live now fake real ∧ ¬ m.Drops ord now c.1 c.2 fake) := live_getOrInsert c.1 c.2
    have hpair : c = (real, fake) ↔ c.2 = fake ∧ c.1 = real := by
      rw [Prod.ext_iff]
      exact and_comm
    change (insertAll ord (m.getOrInsert ord c.1 now c.2).1 now calls).Live now fake real ↔ _
    rw [ih, hstep, NoneDrops, Lands, hpair]
    constructor
    · rintro (⟨⟨hstores, hfake, hreal⟩ | ⟨hlive, hdrop⟩, hnone⟩ | hlands)
      · exact .inr (.inl ⟨⟨hfake, hreal⟩, hreal ▸ hstores, hnone⟩)
      · exact .inl ⟨hlive, hdrop, hnone⟩
      · exact .inr (.inr hlands)
    · rintro (⟨hlive, hdrop, hnone⟩ | ⟨⟨hfake, hreal⟩, hstores, hnone⟩ | hlands)
      · exact .inl ⟨.inr ⟨hlive, hdrop⟩, hnone⟩
      · exact .inl ⟨.inl ⟨hreal ▸ hstores, hfake, hreal⟩, hnone⟩
      · exact .inr hlands

end SessionMap

end Invisibool
