import Invisibool.Tokenizer.SessionRun

/-!
# Bulk loads of a session map

A bulk load stores each pair over what is there. It repairs the pointer of a value whose fake is
taken over, but not the entry of a value that gets a second fake.
-/

namespace Invisibool
open Text

namespace SessionMap

/-- The real value that a fake stands for once the pairs are loaded: that of its last pair, or
else the one the map has for it. -/
def heldWith (m : SessionMap) (pairs : List (Str × Str)) (fake : Str) : Option Str :=
  pairs.foldl (fun held p => if fake = p.1 then some p.2 else held) (m.heldReal fake)

/-- Whenever two fakes stand for one value, the rest of the pairs sets both of them anew. -/
def Untangled (m : SessionMap) (pairs : List (Str × Str)) : Prop :=
  ∀ before after, pairs = before ++ after → ∀ f g real, f ≠ g →
    m.heldWith before f = some real → m.heldWith before g = some real →
    f ∈ after.map Prod.fst ∧ g ∈ after.map Prod.fst

variable {m : SessionMap} {now : Nat} {fake real : Str} {pairs : List (Str × Str)}

lemma heldWith_concat (p : Str × Str) :
    m.heldWith (pairs ++ [p]) fake = if fake = p.1 then some p.2 else m.heldWith pairs fake := by
  simp [heldWith]

lemma heldWith_append_of_notMem {after : List (Str × Str)} (h : fake ∉ after.map Prod.fst) :
    m.heldWith (pairs ++ after) fake = m.heldWith pairs fake := by
  induction after generalizing pairs with
  | nil => rw [List.append_nil]
  | cons p after ih =>
    rw [List.map_cons, List.mem_cons, not_or] at h
    rw [List.append_cons, ih h.2, heldWith_concat, if_neg h.1]

lemma importPairs_concat (p : Str × Str) :
    m.importPairs (pairs ++ [p]) now = (m.importPairs pairs now).insertPair p.1 p.2 now := by
  simp [importPairs]

lemma heldReal_importPairs :
    (m.importPairs pairs now).heldReal fake = m.heldWith pairs fake := by
  induction pairs using List.reverseRecOn with
  | nil => rfl
  | append_singleton pairs p ih =>
    rw [importPairs_concat, heldReal_insertPair, heldWith_concat, ih]

/-- No pointer goes astray: the fake that a value points at stands for that value. -/
def PointersHold (m : SessionMap) : Prop :=
  ∀ fake real, m.byReal.lookup real = some fake → m.heldReal fake = some real

lemma Inverse.pointersHold (h : m.Inverse) : m.PointersHold :=
  fun fake real => (h fake real).mpr

lemma PointersHold.insertPair (h : m.PointersHold) (g r : Str) (now : Nat) :
    (m.insertPair g r now).PointersHold := by
  intro fake real
  rw [lookup_byReal_insertPair, heldReal_insertPair]
  split
  · rename_i hreal
    rintro ⟨⟩
    simp [hreal]
  split
  · rintro ⟨⟩
  · rename_i hheld
    intro hlook
    split
    · rename_i hfake
      exact absurd (hfake ▸ h fake real hlook) hheld
    · exact h fake real hlook

lemma PointersHold.importPairs (h : m.PointersHold) (pairs : List (Str × Str)) (now : Nat) :
    (m.importPairs pairs now).PointersHold := by
  induction pairs using List.reverseRecOn with
  | nil => exact h
  | append_singleton pairs p ih =>
    rw [importPairs_concat]
    exact ih.insertPair p.1 p.2 now

/-- The value of a fake points back at it, unless a pair behind the last one of the fake has the
same value, or is stored over a fake with the same value. -/
lemma byReal_importPairs (h : m.Inverse) (hheld : m.heldWith pairs fake = some real) :
    (m.importPairs pairs now).byReal.lookup real = some fake ↔
      ∀ before p after, pairs = before ++ p :: after → fake ∉ (p :: after).map Prod.fst →
        p.2 ≠ real ∧ m.heldWith before p.1 ≠ some real := by
  induction pairs using List.reverseRecOn with
  | nil =>
    have hlook := (h fake real).mp hheld
    refine iff_of_true hlook fun before p after hsplit => ?_
    simp at hsplit
  | append_singleton pairs q ih =>
    rw [importPairs_concat, lookup_byReal_insertPair, heldReal_importPairs]
    rw [heldWith_concat] at hheld
    by_cases hfake : fake = q.1
    · -- the last pair is the one of the fake
      subst hfake
      rw [if_pos rfl] at hheld
      obtain rfl := Option.some.inj hheld
      rw [if_pos rfl]
      refine iff_of_true rfl fun before p after hsplit hnot => ?_
      refine absurd ?_ hnot
      have hlast : q ∈ p :: after := by
        have hne : p :: after ≠ [] := by simp
        have := congrArg List.getLast? hsplit
        rw [List.getLast?_concat, List.getLast?_append_of_ne_nil _ hne] at this
        exact List.mem_of_getLast? this.symm
      exact List.mem_map_of_mem hlast
    · rw [if_neg hfake] at hheld
      have hrest := ih hheld
      constructor
      · intro hlook before p after hsplit hnot
        rcases List.eq_nil_or_concat' after with rfl | ⟨after, q', rfl⟩
        · obtain ⟨rfl, rfl⟩ : pairs = before ∧ q = p := by simpa using hsplit
          constructor
          · rintro rfl
            rw [if_pos rfl] at hlook
            exact hfake (Option.some.inj hlook).symm
          · intro hover
            by_cases hr : real = q.2
            · rw [if_pos hr] at hlook
              exact hfake (Option.some.inj hlook).symm
            · simp [hr, hover] at hlook
        · rw [← List.cons_append, ← List.append_assoc] at hsplit
          obtain ⟨rfl, hlast⟩ := List.append_inj' hsplit rfl
          obtain rfl := List.singleton_inj.mp hlast
          refine hrest.mp ?_ before p after rfl fun hmem => hnot ?_
          · by_cases hr : real = q.2
            · rw [if_pos hr] at hlook
              exact absurd (Option.some.inj hlook).symm hfake
            · rw [if_neg hr] at hlook
              split at hlook
              · cases hlook
              · exact hlook
          · rw [← List.cons_append, List.map_append]
            exact List.mem_append_left _ hmem
      · intro hall
        obtain ⟨hr, hover⟩ := hall pairs q [] rfl (by simpa using hfake)
        rw [if_neg (Ne.symm hr), if_neg hover]
        refine hrest.mpr fun before p after hsplit hnot => ?_
        refine hall before p (after ++ [q]) (by simp [hsplit]) ?_
        rw [← List.cons_append, List.map_append, List.mem_append, not_or]
        exact ⟨hnot, by simpa using hfake⟩

/-- The pair of a fake that the list does not come back to is in the way of none behind it. -/
lemma Untangled.clear (h : m.Untangled pairs) {before after : List (Str × Str)} {p : Str × Str}
    (hsplit : pairs = before ++ p :: after) (hnot : fake ∉ (p :: after).map Prod.fst)
    (hheld : m.heldWith before fake = some real) :
    p.2 ≠ real ∧ m.heldWith before p.1 ≠ some real := by
  rw [List.map_cons, List.mem_cons, not_or] at hnot
  constructor
  · intro hreal
    have hafter : m.heldWith (before ++ [p]) fake = some real := by
      rw [heldWith_concat, if_neg hnot.1, hheld]
    have hp : m.heldWith (before ++ [p]) p.1 = some real := by
      rw [heldWith_concat, if_pos rfl, hreal]
    exact hnot.2 (h (before ++ [p]) after (by simp [hsplit]) _ _ _ hnot.1 hafter hp).1
  · intro hp
    have hmem := (h before (p :: after) hsplit _ _ _ hnot.1 hheld hp).1
    rw [List.map_cons, List.mem_cons] at hmem
    exact hmem.elim hnot.1 hnot.2

lemma exists_first_pair (hmem : fake ∈ pairs.map Prod.fst) :
    ∃ before value after, pairs = before ++ (fake, value) :: after ∧
      fake ∉ before.map Prod.fst := by
  induction pairs with
  | nil => cases hmem
  | cons q pairs ih =>
    by_cases hq : q.1 = fake
    · subst hq
      exact ⟨[], q.2, pairs, rfl, by simp⟩
    · rw [List.map_cons, List.mem_cons] at hmem
      obtain ⟨before, value, after, rfl, hfirst⟩ := ih (hmem.resolve_left (Ne.symm hq))
      exact ⟨q :: before, value, after, rfl, by simp [hfirst, Ne.symm hq]⟩

lemma inverse_importPairs_iff (h : m.Inverse) (pairs : List (Str × Str)) (now : Nat) :
    (m.importPairs pairs now).Inverse ↔ m.Untangled pairs := by
  constructor
  · intro hinv before after hsplit f g real hne hf hg
    -- both fakes are set again: by symmetry it is enough to see it for one
    have key : ∀ f g, f ≠ g → m.heldWith before f = some real →
        m.heldWith before g = some real → f ∈ after.map Prod.fst := by
      intro f g hne hf hg
      by_contra hnot
      have hfend : m.heldWith pairs f = some real := by
        rw [hsplit, heldWith_append_of_notMem hnot, hf]
      have hfpoint := (hinv f real).mp (heldReal_importPairs.trans hfend)
      by_cases hgmem : g ∈ after.map Prod.fst
      · -- the next pair of the other fake takes the pointer away
        obtain ⟨a, value, b, hab, hfirst⟩ := exists_first_pair hgmem
        have hsplit' : pairs = before ++ a ++ (g, value) :: b := by
          rw [hsplit, hab, List.append_assoc]
        have hfnot : f ∉ ((g, value) :: b).map Prod.fst := by
          intro hmem
          apply hnot
          rw [hab, List.map_append]
          exact List.mem_append_right _ hmem
        have hclear := (byReal_importPairs h hfend).mp hfpoint _ _ _ hsplit' hfnot
        exact hclear.2 ((heldWith_append_of_notMem hfirst).trans hg)
      · have hgend : m.heldWith pairs g = some real := by
          rw [hsplit, heldWith_append_of_notMem hgmem, hg]
        have hgpoint := (hinv g real).mp (heldReal_importPairs.trans hgend)
        exact hne (Option.some.inj (hfpoint.symm.trans hgpoint))
    exact ⟨key f g hne hf hg, key g f hne.symm hg hf⟩
  · intro huntangled fake real
    constructor
    · intro hheld
      rw [heldReal_importPairs] at hheld
      refine (byReal_importPairs h hheld).mpr fun before p after hsplit hnot => ?_
      have hbefore : m.heldWith before fake = some real := by
        rw [← hheld, hsplit, heldWith_append_of_notMem hnot]
      exact huntangled.clear hsplit hnot hbefore
    · exact h.pointersHold.importPairs pairs now fake real

/-- From a consistent map, a bulk load and whatever other operations follow keep the maps inverse
to each other exactly when no two fakes are left standing for one value. -/
theorem import_consistent_iff (h : m.Inverse) (pairs : List (Str × Str)) (now : Nat) :
    (∀ ops : List SessionOp, (∀ op ∈ ops, op.isImport = false) →
      ((m.importPairs pairs now).run ops).Inverse) ↔ m.Untangled pairs := by
  rw [← inverse_importPairs_iff h pairs now]
  constructor
  · intro hall
    exact hall [] (by simp)
  · intro hinv ops hops
    exact hinv.run hops

/-- The theorem on one pair, loaded into a map that has another one. -/
theorem import_consistent_iff_two :
    let m := (SessionMap.new 4 10).run [.getOrInsert .stored "a".toList 0 "f".toList]
    (∀ ops : List SessionOp, (∀ op ∈ ops, op.isImport = false) →
      ((m.importPairs [("g".toList, "b".toList)] 0).run ops).Inverse) ↔
    m.Untangled [("g".toList, "b".toList)] :=
  import_consistent_iff ((inverse_new 4 10).run (by simp [SessionOp.isImport])) _ 0

/-- Two fakes for one value: both stay in the map, and the value points at the second one only. -/
theorem import_breaks_inverse :
    (SessionMap.new 4 10).Inverse ∧
      ¬ ((SessionMap.new 4 10).importPairs
        [("f".toList, "a".toList), ("g".toList, "a".toList)] 0).Inverse := by
  constructor
  · exact inverse_new 4 10
  · intro h
    have := (h "f".toList "a".toList).mp (by decide)
    revert this
    decide

end SessionMap

end Invisibool
