import Mathlib.Algebra.Order.Ring.Nat
import Mathlib.Data.List.Basic
import Mathlib.Data.List.MinMax
import Mathlib.Tactic.Common

/-!
# Leftmost-longest matching

What an automaton that searches for several patterns reports: from left to right, at each
point the leftmost match, and among the leftmost ones a longest. A match that is empty is not
reported where the previous match ended. The patterns and the text are lists over any type.
-/

namespace Matching

variable {α : Type}

def At (hay pat : List α) (i : Nat) : Prop := ∃ u v, hay = u ++ pat ++ v ∧ u.length = i

lemma At.le {hay pat : List α} {i : Nat} (h : At hay pat i) : i + pat.length ≤ hay.length := by
  obtain ⟨u, v, rfl, rfl⟩ := h
  simp

lemma at_iff_drop {hay pat : List α} {i : Nat} :
    At hay pat i ↔ i ≤ hay.length ∧ pat <+: hay.drop i := by
  constructor
  · rintro ⟨u, v, rfl, rfl⟩
    simp
  · rintro ⟨hi, v, hv⟩
    refine ⟨hay.take i, v, ?_, by rw [List.length_take]; omega⟩
    rw [List.append_assoc, hv, List.take_append_drop]

instance [DecidableEq α] (hay pat : List α) (i : Nat) : Decidable (At hay pat i) :=
  decidable_of_iff _ at_iff_drop.symm

lemma at_nil_iff {hay : List α} {i : Nat} : At hay [] i ↔ i ≤ hay.length := by
  simp [at_iff_drop]

/-- One reported match: the index of the pattern and the half-open span it covers. -/
structure Found where
  pattern : Nat
  start : Nat
  stop : Nat
  deriving DecidableEq, Repr

/-- The match is a real one: its span holds its pattern. -/
def IsMatch (pats : List (List α)) (hay : List α) (m : Found) : Prop :=
  ∃ p, pats[m.pattern]? = some p ∧ At hay p m.start ∧ m.stop = m.start + p.length

instance [DecidableEq α] (pats : List (List α)) (hay : List α) (m : Found) :
    Decidable (IsMatch pats hay m) :=
  match h : pats[m.pattern]? with
  | some p => decidable_of_iff (At hay p m.start ∧ m.stop = m.start + p.length) (by
      simp [IsMatch, h])
  | none => isFalse (by simp [IsMatch, h])

lemma IsMatch.start_le_stop {pats : List (List α)} {hay : List α} {m : Found}
    (h : IsMatch pats hay m) : m.start ≤ m.stop := by
  obtain ⟨p, -, -, hs⟩ := h
  omega

lemma IsMatch.stop_le {pats : List (List α)} {hay : List α} {m : Found}
    (h : IsMatch pats hay m) : m.stop ≤ hay.length := by
  obtain ⟨p, -, hat, hs⟩ := h
  have := hat.le
  omega

/-- A match that may still be reported from offset `from_`, the last one having ended at `last`. -/
def Open (from_ : Nat) (last : Option Nat) (m : Found) : Prop :=
  from_ ≤ m.start ∧ (m.start = m.stop → last ≠ some m.stop)

instance (from_ : Nat) (last : Option Nat) (m : Found) : Decidable (Open from_ last m) := by
  unfold Open
  infer_instance

/-- The match is to be preferred: it starts further left, or there and is no shorter. -/
def Beats (m m' : Found) : Prop :=
  m.start < m'.start ∨ (m.start = m'.start ∧ m'.stop ≤ m.stop)

/-- The list is a run of leftmost-longest non-overlapping matches from offset `from_`. -/
inductive LeftmostLongest (pats : List (List α)) (hay : List α) :
    Nat → Option Nat → List Found → Prop
  | nil {from_ last} : (∀ m, IsMatch pats hay m → ¬ Open from_ last m) →
      LeftmostLongest pats hay from_ last []
  | cons {from_ last m ms} : IsMatch pats hay m → Open from_ last m →
      (∀ m', IsMatch pats hay m' → Open from_ last m' → Beats m m') →
      LeftmostLongest pats hay m.stop (some m.stop) ms →
      LeftmostLongest pats hay from_ last (m :: ms)

namespace LeftmostLongest

variable {pats : List (List α)} {hay : List α} {from_ : Nat} {last : Option Nat} {ms : List Found}

theorem isMatch (h : LeftmostLongest pats hay from_ last ms) : ∀ m ∈ ms, IsMatch pats hay m := by
  induction h with
  | nil => simp
  | cons hm _ _ _ ih =>
    intro m hmem
    rcases List.mem_cons.mp hmem with rfl | hmem
    · exact hm
    · exact ih m hmem

theorem from_le (h : LeftmostLongest pats hay from_ last ms) : ∀ m ∈ ms, from_ ≤ m.start := by
  induction h with
  | nil => simp
  | cons hm hopen _ _ ih =>
    intro m hmem
    rcases List.mem_cons.mp hmem with rfl | hmem
    · exact hopen.1
    · exact hopen.1.trans (hm.start_le_stop.trans (ih m hmem))

theorem pairwise (h : LeftmostLongest pats hay from_ last ms) :
    ms.Pairwise (fun m m' => m.stop ≤ m'.start) := by
  induction h with
  | nil => simp
  | cons _ _ _ hrest ih => exact List.pairwise_cons.mpr ⟨hrest.from_le, ih⟩

theorem covers (h : LeftmostLongest pats hay from_ last ms) {m' : Found}
    (hm' : IsMatch pats hay m') (hne : m'.start < m'.stop) (hfrom : from_ ≤ m'.start) :
    ∃ m ∈ ms, m.start < m'.stop ∧ m'.start < m.stop := by
  induction h with
  | nil hnone => exact absurd ⟨hfrom, fun h => absurd h (by omega)⟩ (hnone m' hm')
  | @cons from_ last m ms hm _ hbest _ ih =>
    have hb := hbest m' hm' ⟨hfrom, fun h => absurd h (by omega)⟩
    by_cases hlt : m'.start < m.stop
    · refine ⟨m, by simp, ?_, hlt⟩
      rcases hb with h1 | ⟨h1, h2⟩ <;> omega
    · obtain ⟨m₂, hmem, h2⟩ := ih (by omega)
      exact ⟨m₂, by simp [hmem], h2⟩

theorem touches_every_offset (h : LeftmostLongest pats hay from_ last ms) {k i : Nat}
    (hk : pats[k]? = some []) (hi : i ≤ hay.length) (hfrom : from_ ≤ i) (hlast : last ≠ some i) :
    ∃ m ∈ ms, m.start ≤ i ∧ i ≤ m.stop := by
  have hempty : IsMatch pats hay ⟨k, i, i⟩ := ⟨[], hk, at_nil_iff.mpr hi, by simp⟩
  induction h with
  | nil hnone => exact absurd ⟨hfrom, fun _ => hlast⟩ (hnone _ hempty)
  | @cons from_ last m ms hm _ hbest _ ih =>
    have hb := hbest _ hempty ⟨hfrom, fun _ => hlast⟩
    have hstart : m.start ≤ i := by
      rcases hb with h1 | ⟨h1, -⟩
      · exact h1.le
      · exact h1.le
    by_cases hle : i ≤ m.stop
    · exact ⟨m, by simp, hstart, hle⟩
    · obtain ⟨m₂, hmem, h2⟩ := ih (by omega) (by simp; omega)
      exact ⟨m₂, by simp [hmem], h2⟩

end LeftmostLongest

section Reference

variable [DecidableEq α] (pats : List (List α)) (hay : List α)

def openAt (last : Option Nat) (i : Nat) : List Found :=
  ((List.range pats.length).map fun k => ⟨k, i, i + (pats.getD k []).length⟩).filter
    fun m => decide (IsMatch pats hay m ∧ Open i last m)

/-- The longest open match at one offset, of the first pattern among equals. -/
def longestAt (last : Option Nat) (i : Nat) : Option Found :=
  (openAt pats hay last i).argmax Found.stop

def findFrom (from_ : Nat) (last : Option Nat) : Option Found :=
  (List.range' from_ (hay.length + 1 - from_)).findSome? (longestAt pats hay last)

/-- All matches, each search starting where the last match ended. -/
def findIter : Nat → Nat → Option Nat → List Found
  | 0, _, _ => []
  | fuel + 1, from_, last =>
    match findFrom pats hay from_ last with
    | none => []
    | some m => m :: findIter fuel m.stop (some m.stop)

/-- The reference matcher; an empty match leaves the offset, so the text is passed twice at most. -/
def findAll : List Found := findIter pats hay (2 * hay.length + 2) 0 none

variable {pats hay}

lemma mem_openAt {last : Option Nat} {i : Nat} {m : Found} :
    m ∈ openAt pats hay last i ↔ m.start = i ∧ IsMatch pats hay m ∧ Open i last m := by
  simp only [openAt, List.mem_filter, List.mem_map, List.mem_range, decide_eq_true_eq]
  constructor
  · rintro ⟨⟨k, -, rfl⟩, hm⟩
    exact ⟨rfl, hm⟩
  · rintro ⟨rfl, hm, hopen⟩
    obtain ⟨p, hp, hat, hs⟩ := hm
    obtain ⟨hk, rfl⟩ := List.getElem?_eq_some_iff.mp hp
    refine ⟨⟨m.pattern, hk, ?_⟩, ⟨_, hp, hat, hs⟩, hopen⟩
    cases m with
    | mk k start stop => simp_all [List.getD_eq_getElem?_getD]

lemma longestAt_eq_some {last : Option Nat} {i : Nat} {m : Found}
    (h : longestAt pats hay last i = some m) :
    m.start = i ∧ IsMatch pats hay m ∧ Open i last m ∧
      ∀ m', m'.start = i → IsMatch pats hay m' → Open i last m' → m'.stop ≤ m.stop := by
  obtain ⟨hi, hm, hopen⟩ := mem_openAt.mp (List.argmax_mem h)
  refine ⟨hi, hm, hopen, fun m' hi' hm' hopen' => ?_⟩
  exact List.le_of_mem_argmax (mem_openAt.mpr ⟨hi', hm', hopen'⟩) h

lemma longestAt_eq_none {last : Option Nat} {i : Nat} (h : longestAt pats hay last i = none)
    (m : Found) (hi : m.start = i) (hm : IsMatch pats hay m) : ¬ Open i last m := by
  intro hopen
  have hmem := mem_openAt.mpr ⟨hi, hm, hopen⟩
  rw [List.argmax_eq_none.mp h] at hmem
  cases hmem

lemma Open.of_le {from_ i : Nat} {last : Option Nat} {m : Found} (h : Open i last m)
    (hle : from_ ≤ i) : Open from_ last m := ⟨hle.trans h.1, h.2⟩

lemma Open.at_start {from_ : Nat} {last : Option Nat} {m : Found} (h : Open from_ last m) :
    Open m.start last m := ⟨le_rfl, h.2⟩

theorem findFrom_eq_some {from_ : Nat} {last : Option Nat} {m : Found}
    (h : findFrom pats hay from_ last = some m) :
    IsMatch pats hay m ∧ Open from_ last m ∧
      ∀ m', IsMatch pats hay m' → Open from_ last m' → Beats m m' := by
  obtain ⟨l₁, i, l₂, hl, hi, hnone⟩ := List.findSome?_eq_some_iff.mp h
  obtain ⟨rfl, hm, hopen, hbest⟩ := longestAt_eq_some hi
  have hmem : m.start ∈ List.range' from_ (hay.length + 1 - from_) := by rw [hl]; simp
  have hfrom := (List.mem_range'_1.mp hmem).1
  refine ⟨hm, hopen.of_le hfrom, fun m' hm' hopen' => ?_⟩
  rcases lt_trichotomy m.start m'.start with hlt | heq | hgt
  · exact .inl hlt
  · exact .inr ⟨heq, hbest m' heq.symm hm' (heq ▸ hopen'.at_start)⟩
  · -- an earlier offset lies in the part of the range where nothing was found
    have hmem' : m'.start ∈ List.range' from_ (hay.length + 1 - from_) := by
      have := hm'.start_le_stop
      have := hm'.stop_le
      have := hopen'.1
      exact List.mem_range'_1.mpr (by omega)
    have hsorted := List.pairwise_lt_range' (s := from_) (n := hay.length + 1 - from_)
    rw [hl] at hmem' hsorted
    rcases List.mem_append.mp hmem' with h1 | h1
    · exact absurd hopen'.at_start (longestAt_eq_none (hnone _ h1) m' rfl hm')
    · have hge : m.start ≤ m'.start := by
        rcases List.mem_cons.mp h1 with h2 | h2
        · exact h2.ge
        · have h3 := (List.pairwise_append.mp hsorted).2.1
          exact ((List.pairwise_cons.mp h3).1 _ h2).le
      omega

theorem findFrom_eq_none {from_ : Nat} {last : Option Nat}
    (h : findFrom pats hay from_ last = none) (m : Found) (hm : IsMatch pats hay m) :
    ¬ Open from_ last m := by
  intro hopen
  have hmem : m.start ∈ List.range' from_ (hay.length + 1 - from_) := by
    have := hm.start_le_stop
    have := hm.stop_le
    have := hopen.1
    exact List.mem_range'_1.mpr (by omega)
  exact longestAt_eq_none (List.findSome?_eq_none_iff.mp h _ hmem) m rfl hm hopen.at_start

lemma findIter_leftmostLongest (fuel from_ : Nat) (last : Option Nat)
    (hfuel : 2 * (hay.length - from_) + (if last = some from_ then 0 else 1) < fuel) :
    LeftmostLongest pats hay from_ last (findIter pats hay fuel from_ last) := by
  induction fuel generalizing from_ last with
  | zero => omega
  | succ fuel ih =>
    rw [findIter]
    cases hf : findFrom pats hay from_ last with
    | none => exact .nil (findFrom_eq_none hf)
    | some m =>
      obtain ⟨hm, hopen, hbest⟩ := findFrom_eq_some hf
      apply LeftmostLongest.cons hm hopen hbest
      apply ih m.stop (some m.stop)
      have h1 := hm.start_le_stop
      have h2 := hm.stop_le
      have h3 := hopen.1
      rw [if_pos rfl]
      by_cases hlast : last = some from_
      · rw [if_pos hlast] at hfuel
        have hne : m.start = m.stop → from_ ≠ m.stop := fun he h => hopen.2 he (h ▸ hlast)
        omega
      · rw [if_neg hlast] at hfuel
        omega

theorem findAll_leftmostLongest : LeftmostLongest pats hay 0 none (findAll pats hay) :=
  findIter_leftmostLongest _ 0 none (by simp)

end Reference

end Matching
