import Invisibool.Tokenizer.SessionBound

/-!
# Which pairs a call of `get_or_insert` takes away

The call prunes, looks the value up, makes room, and only then makes the fake. What is left
after it is told pair by pair.
-/

namespace Invisibool
open Text

namespace SessionMap

/-- The map has the pair, in both directions. -/
def Has (m : SessionMap) (fake real : Str) : Prop :=
  m.heldReal fake = some real ∧ m.byReal.lookup real = some fake

/-- The pair of the fake was touched last more than the time to live ago. -/
def TooOld (m : SessionMap) (now : Nat) (fake : Str) : Prop :=
  ∃ entry, m.byFake.lookup fake = some entry ∧ m.Expired now entry

/-- The call takes the pair of the fake away, although it is not too old and its fake is not the
one that is stored. -/
def Evicts (ord : HashOrder) (m : SessionMap) (real : Str) (now : Nat) (makeFake fake : Str) : Prop :=
  (∃ r, m.Has fake r ∧ ¬(m.getOrInsert ord real now makeFake).1.Has fake r) ∧
    ¬m.TooOld now fake ∧ ¬(m.Stores now real ∧ makeFake = fake)

/-- The call stores, and what is left after the expiry would be too many with the new pair, of
which a pair under the same fake would make way. -/
def Overfull (m : SessionMap) (real : Str) (now : Nat) (makeFake : Str) : Prop :=
  m.Stores now real ∧ m.maxEntries < (insert makeFake (m.prune now).fakes).card

/-- None of the pairs that are left after the expiry was touched less recently. -/
def Oldest (m : SessionMap) (now : Nat) (fake : Str) : Prop :=
  ∃ entry, (m.prune now).byFake.lookup fake = some entry ∧ ∀ fake' entry',
    (m.prune now).byFake.lookup fake' = some entry' → entry.lastTouched ≤ entry'.lastTouched

/-- The call removes no pair needlessly. -/
structure Frugal (ord : HashOrder) (m : SessionMap) (real : Str) (now : Nat) (makeFake : Str) :
    Prop where
  needed : ∀ fake, m.Evicts ord real now makeFake fake →
    m.Overfull real now makeFake ∧ m.Oldest now fake
  atMostOne : ∀ fake fake', m.Evicts ord real now makeFake fake →
    m.Evicts ord real now makeFake fake' → fake = fake'

/-- The map is just full, the new pair would take the place of another one, and yet the call
evicts a third. -/
def Hasty (ord : HashOrder) (m : SessionMap) (real : Str) (now : Nat) (makeFake : Str) : Prop :=
  m.Stores now real ∧ makeFake ∈ (m.prune now).fakes ∧ (m.prune now).len = m.maxEntries ∧
    (m.prune now).lruFake ord ≠ some makeFake

instance (ord : HashOrder) (m : SessionMap) (real : Str) (now : Nat) (makeFake : Str) :
    Decidable (Hasty ord m real now makeFake) := inferInstanceAs (Decidable (_ ∧ _))

variable {ord : HashOrder} {m : SessionMap} {now : Nat} {real fake makeFake : Str}

lemma heldReal_evictLru : (m.evictLru ord).heldReal fake =
    if m.lruFake ord = some fake then none else m.heldReal fake := by
  unfold heldReal
  rw [lookup_evictLru]
  split <;> rfl

lemma heldReal_getOrInsert_of_not_stores (h : ¬m.Stores now real) :
    (m.getOrInsert ord real now makeFake).1.heldReal fake = (m.prune now).heldReal fake := by
  unfold getOrInsert
  dsimp only
  split
  · exact heldReal_touch _
  · rename_i hnone
    exact absurd hnone h

lemma heldReal_getOrInsert_of_stores (h : m.Stores now real) (hfake : fake ≠ makeFake) :
    (m.getOrInsert ord real now makeFake).1.heldReal fake =
      if m.maxEntries ≤ (m.prune now).len ∧ (m.prune now).lruFake ord = some fake then none
      else (m.prune now).heldReal fake := by
  unfold Stores at h
  unfold getOrInsert
  dsimp only
  split
  · rename_i g hheld
    rw [h] at hheld
    cases hheld
  · rw [heldReal_insertPair, if_neg hfake, prune_maxEntries]
    by_cases hfull : m.maxEntries ≤ (m.prune now).len
    · simp only [hfull, ↓reduceIte, true_and]
      exact heldReal_evictLru
    · simp only [hfull, ↓reduceIte, false_and]

/-- In a map whose directions agree, the first one tells which pairs there are. -/
lemma Inverse.has_iff (h : m.Inverse) : m.Has fake real ↔ m.heldReal fake = some real :=
  ⟨And.left, fun hheld => ⟨hheld, (h fake real).mp hheld⟩⟩

lemma heldReal_prune_of_not_tooOld (hheld : m.heldReal fake = some real)
    (hold : ¬m.TooOld now fake) : (m.prune now).heldReal fake = some real := by
  rw [heldReal_prune]
  unfold heldReal at hheld
  rw [Option.map_eq_some_iff] at hheld
  obtain ⟨entry, hlook, hreal⟩ := hheld
  exact ⟨entry, hlook, hreal, fun hexp => hold ⟨entry, hlook, hexp⟩⟩

/-- A pair that outlives the expiry was there before, and is not too old. -/
lemma not_tooOld_of_mem_fakes_prune (h : fake ∈ (m.prune now).fakes) :
    ¬m.TooOld now fake ∧ ∃ r, m.heldReal fake = some r := by
  rw [mem_fakes, ← AList.lookup_isSome, Option.isSome_iff_exists] at h
  obtain ⟨entry, hlook⟩ := h
  obtain ⟨hlook, hexp⟩ := lookup_prune.mp hlook
  constructor
  · rintro ⟨entry', hlook', hexp'⟩
    rw [hlook, Option.some.injEq] at hlook'
    exact hexp (hlook' ▸ hexp')
  · exact ⟨entry.real, by rw [heldReal, hlook]; rfl⟩

/-- The call evicts the first least recently touched pair of a map without room, unless it stores
its own pair in that place. -/
lemma evicts_iff (h : m.Inverse) : m.Evicts ord real now makeFake fake ↔
    m.Stores now real ∧ m.maxEntries ≤ (m.prune now).len ∧
      (m.prune now).lruFake ord = some fake ∧ makeFake ≠ fake := by
  have hafter := h.getOrInsert ord real now makeFake
  unfold Evicts
  simp only [h.has_iff, hafter.has_iff]
  constructor
  · rintro ⟨⟨r, hbefore, hgone⟩, hold, hother⟩
    have hpruned := heldReal_prune_of_not_tooOld hbefore hold
    by_cases hstores : m.Stores now real
    · have hne : makeFake ≠ fake := fun heq => hother ⟨hstores, heq⟩
      rw [heldReal_getOrInsert_of_stores hstores hne.symm] at hgone
      split at hgone
      · rename_i hlru
        exact ⟨hstores, hlru.1, hlru.2, hne⟩
      · exact absurd hpruned hgone
    · rw [heldReal_getOrInsert_of_not_stores hstores] at hgone
      exact absurd hpruned hgone
  · rintro ⟨hstores, hfull, hlru, hne⟩
    obtain ⟨hold, r, hheld⟩ := not_tooOld_of_mem_fakes_prune (lruFake_mem hlru)
    refine ⟨⟨r, hheld, ?_⟩, hold, fun hsame => hne hsame.2⟩
    rw [heldReal_getOrInsert_of_stores hstores hne.symm, if_pos ⟨hfull, hlru⟩]
    simp

lemma oldest_of_lruFake (h : (m.prune now).lruFake ord = some fake) : m.Oldest now fake := by
  unfold lruFake at h
  rw [Option.map_eq_some_iff] at h
  obtain ⟨⟨g, entry⟩, hmin, rfl⟩ := h
  have hmem := (ord.perm _).mem_iff.mp (List.argmin_mem hmin)
  refine ⟨entry, AList.mem_lookup_iff.mpr hmem, fun fake' entry' hlook => ?_⟩
  have hmem' := (ord.perm _).mem_iff.mpr (AList.mem_lookup_iff.mp hlook)
  exact List.le_of_mem_argmin (f := fun e => e.2.lastTouched) hmem' hmin

lemma card_insert_fakes : (insert makeFake m.fakes).card =
    if makeFake ∈ m.fakes then m.len else m.len + 1 := by
  rw [len_eq_card]
  split
  · rename_i hmem
    rw [Finset.insert_eq_of_mem hmem]
  · rename_i hmem
    rw [Finset.card_insert_of_notMem hmem]

/-- `get_or_insert` removes no pair needlessly exactly when it does not make room for a pair that
takes the place of another one. -/
theorem frugal_iff (ord : HashOrder) (h : m.Inverse) (real : Str) (now : Nat) (makeFake : Str) :
    Frugal ord m real now makeFake ↔ ¬Hasty ord m real now makeFake := by
  constructor
  · rintro hfrugal ⟨hstores, hmem, hlen, hlru⟩
    cases hlook : (m.prune now).lruFake ord with
    | none =>
      have hpos := Finset.card_pos.mpr ⟨makeFake, hmem⟩
      rw [← len_eq_card, lruFake_eq_none hlook] at hpos
      exact absurd hpos (lt_irrefl 0)
    | some fake =>
      have hne : makeFake ≠ fake := fun heq => hlru (heq ▸ hlook)
      have hevicts := (evicts_iff h).mpr ⟨hstores, hlen.ge, hlook, hne⟩
      have hover := (hfrugal.needed fake hevicts).1.2
      rw [card_insert_fakes, if_pos hmem, hlen] at hover
      exact absurd hover (lt_irrefl _)
  · intro hcalm
    constructor
    · intro fake hevicts
      obtain ⟨hstores, hfull, hlru, hne⟩ := (evicts_iff h).mp hevicts
      refine ⟨⟨hstores, ?_⟩, oldest_of_lruFake hlru⟩
      rw [card_insert_fakes]
      split
      · rename_i hmem
        have hlen : (m.prune now).len ≠ m.maxEntries := by
          intro hlen
          apply hcalm
          refine ⟨hstores, hmem, hlen, fun heq => hne ?_⟩
          rw [hlru, Option.some.injEq] at heq
          exact heq.symm
        omega
      · omega
    · intro fake fake' hevicts hevicts'
      have hlru := ((evicts_iff h).mp hevicts).2.2.1
      rw [((evicts_iff h).mp hevicts').2.2.1, Option.some.injEq] at hlru
      exact hlru.symm

/-- Room for two, and two pairs held. -/
def fullPair : SessionMap :=
  (SessionMap.new 2 10).run [.getOrInsert .stored "a".toList 0 "f".toList,
    .getOrInsert .stored "b".toList 1 "g".toList]

lemma inverse_fullPair : fullPair.Inverse :=
  (inverse_new 2 10).run (by simp [SessionOp.isImport])

/-- A third value that gets a fake of its own makes the first pair go. -/
theorem frugal_fullPair : Frugal .stored fullPair "c".toList 2 "h".toList :=
  (frugal_iff .stored inverse_fullPair "c".toList 2 "h".toList).mpr (by decide)

/-- A third value under the fake of the second one: the first pair goes all the same, and one
pair is left where two have room. -/
theorem frugal_fullPair_collision :
    fullPair.Inverse ∧ ¬Frugal .stored fullPair "c".toList 2 "g".toList ∧
      (fullPair.getOrInsert .stored "c".toList 2 "g".toList).1.len = 1 := by
  refine ⟨inverse_fullPair, fun hfrugal => ?_, by decide⟩
  have hevicts : fullPair.Evicts .stored "c".toList 2 "g".toList "f".toList :=
    (evicts_iff inverse_fullPair).mpr (by decide)
  have hover : fullPair.maxEntries < (insert "g".toList (fullPair.prune 2).fakes).card :=
    (hfrugal.needed _ hevicts).1.2
  exact absurd hover (by decide)

end SessionMap

end Invisibool
