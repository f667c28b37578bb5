import Invisibool.Crates
import Invisibool.Text.Utf8

/-!
# Exact-match detection

One automaton over the registered values, scanned over the bytes of the input.
-/

namespace Invisibool
open Text Matching

inductive MatchKind
  | exact (valueId : Nat)
  | pattern (ruleId : Nat)
  deriving DecidableEq, Repr

/-- A located match: byte offsets, half-open. -/
structure Match where
  start : Nat
  stop : Nat
  kind : MatchKind
  deriving DecidableEq, Repr

/-- `None` when no value is registered. -/
structure ExactMatcher where
  automaton : Option (List UInt8 → List Found)

inductive BuildError
  | exactMatcher
  deriving DecidableEq, Repr

lemma at_of_occursAt {s p : Str} {i : Nat} (h : OccursAt s p i) : At (utf8 s) (utf8 p) i := by
  obtain ⟨u, v, rfl, rfl⟩ := h
  exact ⟨utf8 u, utf8 v, by simp, by simp⟩

lemma occursAt_of_at {s p : Str} {i : Nat} (hb : IsCharBoundary s i)
    (h : At (utf8 s) (utf8 p) i) : OccursAt s p i := by
  obtain ⟨u, w, rfl, rfl⟩ := hb
  obtain ⟨a, b, hab, hlen⟩ := h
  rw [utf8_append, List.append_assoc] at hab
  obtain ⟨-, hw⟩ := List.append_inj hab (by simp [hlen])
  obtain ⟨v, rfl⟩ := prefix_of_utf8_prefix ⟨b, hw.symm⟩
  exact ⟨u, v, by simp, rfl⟩

/-- A byte match of a text that is not empty stands at a character boundary. -/
lemma isCharBoundary_of_at {s p : Str} {i : Nat} (hp : p ≠ []) (h : At (utf8 s) (utf8 p) i) :
    IsCharBoundary s i := by
  obtain ⟨a, b, hab, rfl⟩ := h
  obtain ⟨u, v, rfl, rfl⟩ := utf8_split hp hab
  exact ⟨u, p ++ v, by simp, by simp⟩

namespace ExactMatcher

def build (X : Crates) (values : List Str) : Except BuildError ExactMatcher :=
  let patterns := values.map utf8
  if patterns.isEmpty then .ok ⟨none⟩
  else match X.ahoCorasick patterns with
    | some ac => .ok ⟨some ac⟩
    | none => .error .exactMatcher

def found (m : ExactMatcher) (input : Str) : List Found :=
  match m.automaton with
  | none => []
  | some ac => ac (utf8 input)

def scan (m : ExactMatcher) (input : Str) : List Match :=
  (m.found input).map fun f => ⟨f.start, f.stop, .exact f.pattern⟩

theorem found_leftmostLongest {X : Crates} (hX : X.MatcherLawful) {values : List Str}
    {m : ExactMatcher} (h : build X values = .ok m) (input : Str) :
    LeftmostLongest (values.map utf8) (utf8 input) 0 none (m.found input) := by
  unfold build at h
  dsimp only at h
  split at h
  · rename_i hempty
    obtain rfl := Except.ok.inj h
    refine .nil fun f hf => ?_
    obtain ⟨p, hp, -⟩ := hf
    rw [List.isEmpty_iff.mp hempty] at hp
    cases hp
  · split at h
    · rename_i ac hac
      obtain rfl := Except.ok.inj h
      exact hX.leftmostLongest _ _ hac _
    · cases h

end ExactMatcher

end Invisibool
