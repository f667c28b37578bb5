import Invisibool.Detection.Exact
import Invisibool.Matching.Greedy
import Mathlib.Order.Compare
import Mathlib.Order.Basic

/-!
# Detection

Exact matches and matches of configured rules, out of which the overlaps are resolved: the longest
match wins, then the one with the highest confidence, then the leftmost.
-/

namespace Invisibool
open Text Matching

/-- The confidence that a detector has in a match. -/
inductive Confidence
  | high
  | certain
  deriving DecidableEq, Repr

/-- In the order in which they are declared. -/
instance : LinearOrder Confidence :=
  LinearOrder.lift' Confidence.ctorIdx fun a b h => by cases a <;> cases b <;> first | rfl | cases h

def MatchKind.confidence : MatchKind → Confidence
  | exact _ => .certain
  | pattern _ => .high

/-- A compiled regular expression, as its matches in an input. -/
structure Regex where
  findIter : Str → List (Nat × Nat)

/-- The compiled rules, with the set that tells which of them match. It is `None` when no rule is
configured. -/
structure PatternMatcher where
  rules : List Regex
  set : Option (Str → List (Fin rules.length))

/-- All matches of the rules, in source order. -/
def PatternMatcher.scan (m : PatternMatcher) (input : Str) : List Match :=
  match m.set with
  | none => []
  | some set =>
    let result := (set input).flatMap fun ruleId =>
      (m.rules[ruleId].findIter input).map fun (start, stop) => ⟨start, stop, .pattern ruleId⟩
    result.mergeSort fun a b => a.start ≤ b.start

namespace Match

def len (m : Match) : Nat := m.stop - m.start

def isEmpty (m : Match) : Bool := m.start = m.stop

/-- The order in which `scan` considers its candidates. -/
def compareDesirable (a b : Match) : Ordering :=
  (compare b.len a.len).then
    ((compare b.kind.confidence a.kind.confidence).then (compare a.start b.start))

def overlaps (a b : Match) : Bool := a.start < b.stop && b.start < a.stop

end Match

structure Detector where
  exact : ExactMatcher
  pattern : PatternMatcher

namespace Detector

def candidates (d : Detector) (input : Str) : List Match :=
  d.exact.scan input ++ d.pattern.scan input

def scan (d : Detector) (input : Str) : List Match :=
  let all := (d.candidates input).mergeSort fun a b => (a.compareDesirable b).isLE
  (greedy Match.overlaps [] all).mergeSort fun a b => a.start ≤ b.start

end Detector

namespace Match

variable {a b c : Match}

/-- Longer, or of the same length and of a higher confidence, or alike in both and not further
right. -/
def AsDesirable (a b : Match) : Prop :=
  b.len < a.len ∨ a.len = b.len ∧
    (b.kind.confidence < a.kind.confidence ∨
      a.kind.confidence = b.kind.confidence ∧ a.start ≤ b.start)

lemma compareDesirable_isLE : (a.compareDesirable b).isLE = true ↔ a.AsDesirable b := by
  unfold compareDesirable AsDesirable
  rcases lt_trichotomy b.len a.len with h | h | h
  · simp [compare_lt_iff_lt.mpr h, h]
  · rcases lt_trichotomy b.kind.confidence a.kind.confidence with hc | hc | hc
    · simp [compare_lt_iff_lt.mpr hc, h, hc]
    · simp [h, hc, Nat.isLE_compare]
    · simp [compare_gt_iff_gt.mpr hc, h, hc.le, hc.ne]
  · simp [compare_gt_iff_gt.mpr h, h.le, h.ne]

lemma AsDesirable.trans (hab : a.AsDesirable b) (hbc : b.AsDesirable c) : a.AsDesirable c := by
  unfold AsDesirable at *
  grind

lemma asDesirable_total (a b : Match) : a.AsDesirable b ∨ b.AsDesirable a := by
  unfold AsDesirable
  grind

lemma overlaps_comm (a b : Match) : a.overlaps b = b.overlaps a := Bool.and_comm _ _

/-- The overlap test leaves two spans that coincide apart only if they are empty. -/
lemma isEmpty_of_coincide (hvalid : a.start ≤ a.stop) (hoverlaps : a.overlaps b = false)
    (hstart : a.start = b.start) (hstop : a.stop = b.stop) : a.isEmpty = true := by
  unfold overlaps at hoverlaps
  unfold isEmpty
  rw [← hstart, ← hstop, Bool.and_self, decide_eq_false_iff_not] at hoverlaps
  rw [decide_eq_true_eq]
  omega

end Match

/-- What is left of some candidates once their overlaps are resolved. -/
structure Resolved (candidates kept : List Match) : Prop where
  sorted : kept.Pairwise fun a b => a.start ≤ b.start
  disjoint : kept.Pairwise fun a b => a.overlaps b = false
  distinct : kept.Pairwise fun a b => a.start = b.start → a.stop = b.stop → a.isEmpty = true
  maximal : ∃ left, (kept ++ left).Perm candidates ∧
    ∀ c ∈ left, ∃ k ∈ kept, c.overlaps k = true ∧ k.AsDesirable c

namespace Detector

variable {d : Detector} {input : Str}

/-- Whatever the matchers find, `scan` resolves the overlaps, where spans that coincide count as
overlapping unless they are empty. -/
theorem scan_resolved (hvalid : ∀ m ∈ d.candidates input, m.start ≤ m.stop) :
    Resolved (d.candidates input) (d.scan input) := by
  let all := (d.candidates input).mergeSort fun a b => (a.compareDesirable b).isLE
  have hsorted : all.Pairwise Match.AsDesirable := by
    apply List.Pairwise.imp Match.compareDesirable_isLE.mp
    apply List.pairwise_mergeSort
    · intro a b c hab hbc
      rw [Match.compareDesirable_isLE] at *
      exact hab.trans hbc
    · intro a b
      rw [Bool.or_eq_true, Match.compareDesirable_isLE, Match.compareDesirable_isLE]
      exact Match.asDesirable_total a b
  obtain ⟨left, hperm, hleft⟩ : ∃ left, (greedy Match.overlaps [] all ++ left).Perm ([] ++ all) ∧
      ∀ c ∈ left, ∃ k ∈ greedy Match.overlaps [] all, c.overlaps k = true ∧ k.AsDesirable c :=
    greedy_maximal nofun hsorted
  have hscan : (d.scan input).Perm (greedy Match.overlaps [] all) := List.mergeSort_perm _ _
  have hall : (d.scan input ++ left).Perm (d.candidates input) :=
    (hscan.append_right left).trans (hperm.trans (List.mergeSort_perm _ _))
  have hdisjoint : (d.scan input).Pairwise fun a b => a.overlaps b = false := by
    apply hscan.symm.pairwise (greedy_pairwise Match.overlaps_comm .nil)
    intro a b h
    rwa [Match.overlaps_comm]
  refine ⟨?_, hdisjoint, ?_, left, hall, ?_⟩
  · apply List.Pairwise.imp of_decide_eq_true
    apply List.pairwise_mergeSort
    · intro a b c hab hbc
      rw [decide_eq_true_eq] at *
      exact hab.trans hbc
    · intro a b
      rw [Bool.or_eq_true, decide_eq_true_eq, decide_eq_true_eq]
      exact Nat.le_total _ _
  · apply hdisjoint.imp_of_mem
    intro a b ha _ hoverlaps
    exact Match.isEmpty_of_coincide (hvalid a (hall.mem_iff.mp (List.mem_append_left _ ha))) hoverlaps
  · intro c hc
    obtain ⟨k, hk, hk'⟩ := hleft c hc
    exact ⟨k, hscan.mem_iff.mpr hk, hk'⟩

/-- A value stands at the beginning of what a rule matches. -/
def nested : Detector where
  exact := ⟨some fun _ => [⟨0, 0, 4⟩]⟩
  pattern := ⟨[⟨fun _ => [(0, 20)]⟩], some fun _ => [0]⟩

def nestedText : Str := "AAAA-1111-2222-33334".toList

theorem scan_resolved_nested :
    Resolved (nested.candidates nestedText) (nested.scan nestedText) :=
  scan_resolved (by decide +kernel)

/-- Two rules match nothing, at the same place. -/
def twoEmpty : Detector where
  exact := ⟨none⟩
  pattern := ⟨[⟨fun _ => [(0, 0)]⟩, ⟨fun _ => [(0, 0)]⟩], some fun _ => [0, 1]⟩

theorem scan_twoEmpty :
    ¬(twoEmpty.scan []).Pairwise fun a b => ¬(a.start = b.start ∧ a.stop = b.stop) := by
  let found : List Match := [⟨0, 0, .pattern 0⟩, ⟨0, 0, .pattern 1⟩]
  have hcandidates : twoEmpty.candidates [] = found := List.mergeSort_of_pairwise (by decide)
  have hall : (found.mergeSort fun a b => (a.compareDesirable b).isLE) = found :=
    List.mergeSort_of_pairwise (by decide)
  have hscan : twoEmpty.scan [] = found := by
    unfold scan
    rw [hcandidates, hall]
    exact List.mergeSort_of_pairwise (by decide)
  rw [hscan]
  decide

end Detector

end Invisibool
