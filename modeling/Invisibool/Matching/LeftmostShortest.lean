import Mathlib.Data.List.Destutter
import Mathlib.Data.List.Sort
import Mathlib.Tactic.Common

/-!
# Leftmost-shortest windows

A walk over a sorted list of windows that takes each one starting at or behind the end of the
last one taken. What it takes depends on the set of windows only: from left to right the
leftmost, and of these the shortest.
-/

namespace Matching

def spanLe (a b : Nat × Nat) : Prop := a.1 < b.1 ∨ (a.1 = b.1 ∧ a.2 ≤ b.2)

instance : DecidableRel spanLe := fun _ _ => inferInstanceAs (Decidable (_ ∨ _))

instance : Std.Total spanLe where
  total a b := by
    unfold spanLe
    omega

instance : IsTrans (Nat × Nat) spanLe where
  trans a b c := by
    unfold spanLe
    omega

instance : Std.Antisymm spanLe where
  antisymm a b := by
    unfold spanLe
    intro h1 h2
    exact Prod.ext (by omega) (by omega)

def sortDedup (windows : List (Nat × Nat)) : List (Nat × Nat) :=
  (windows.insertionSort spanLe).destutter (· ≠ ·)

lemma sortDedup_eq (windows : List (Nat × Nat)) :
    sortDedup windows = (windows.insertionSort spanLe).dedup :=
  (List.pairwise_insertionSort spanLe windows).destutter_eq_dedup

@[simp] lemma mem_sortDedup {windows : List (Nat × Nat)} {w : Nat × Nat} :
    w ∈ sortDedup windows ↔ w ∈ windows := by
  rw [sortDedup_eq, List.mem_dedup, List.mem_insertionSort]

lemma pairwise_sortDedup (windows : List (Nat × Nat)) :
    (sortDedup windows).Pairwise spanLe := by
  rw [sortDedup_eq]
  exact (List.pairwise_insertionSort spanLe windows).sublist (List.dedup_sublist _)

/-- The windows the walk takes from an offset on. -/
def keep : Nat → List (Nat × Nat) → List (Nat × Nat)
  | _, [] => []
  | from_, w :: ws => if w.1 < from_ then keep from_ ws else w :: keep w.2 ws

/-- From an offset on, each window taken is the leftmost and then the shortest one. -/
inductive LeftmostShortest (IsWindow : Nat × Nat → Prop) : Nat → List (Nat × Nat) → Prop
  | nil {from_} : (∀ w, IsWindow w → w.1 < from_) → LeftmostShortest IsWindow from_ []
  | cons {from_ w ws} : IsWindow w → from_ ≤ w.1 →
      (∀ w', IsWindow w' → from_ ≤ w'.1 → spanLe w w') →
      LeftmostShortest IsWindow w.2 ws → LeftmostShortest IsWindow from_ (w :: ws)

variable {IsWindow : Nat × Nat → Prop} {from_ : Nat} {ws : List (Nat × Nat)}

theorem keep_leftmostShortest (hpos : ∀ w, IsWindow w → w.1 < w.2) (hsorted : ws.Pairwise spanLe)
    (hwin : ∀ w ∈ ws, IsWindow w) (hall : ∀ w, IsWindow w → from_ ≤ w.1 → w ∈ ws) :
    LeftmostShortest IsWindow from_ (keep from_ ws) := by
  induction ws generalizing from_ with
  | nil => exact .nil fun w hw => Nat.lt_of_not_le fun hle => by simpa using hall w hw hle
  | cons w ws ih =>
    obtain ⟨hhead, htail⟩ := List.pairwise_cons.mp hsorted
    have hwin' : ∀ w' ∈ ws, IsWindow w' := fun w' hw' => hwin w' (by simp [hw'])
    rw [keep]
    split
    · rename_i hlt
      apply ih htail hwin'
      intro w' hw' hle
      rcases List.mem_cons.mp (hall w' hw' hle) with rfl | hmem
      · omega
      · exact hmem
    · rename_i hge
      apply LeftmostShortest.cons (hwin w (by simp)) (by omega)
      · intro w' hw' hle
        rcases List.mem_cons.mp (hall w' hw' hle) with rfl | hmem
        · exact .inr ⟨rfl, Nat.le_refl _⟩
        · exact hhead w' hmem
      · apply ih htail hwin'
        intro w' hw' hle
        have := hpos w (hwin w (by simp))
        rcases List.mem_cons.mp (hall w' hw' (by omega)) with rfl | hmem
        · omega
        · exact hmem

namespace LeftmostShortest

/-- The set of windows determines the list. -/
theorem unique (h : LeftmostShortest IsWindow from_ ws) {ws' : List (Nat × Nat)}
    (h' : LeftmostShortest IsWindow from_ ws') : ws = ws' := by
  induction h generalizing ws' with
  | nil hnone =>
    cases h' with
    | nil => rfl
    | cons hw hle _ _ =>
      have := hnone _ hw
      omega
  | cons hw hle hbest _ ih =>
    cases h' with
    | nil hnone =>
      have := hnone _ hw
      omega
    | cons hw' hle' hbest' hrest' =>
      obtain rfl := Std.Antisymm.antisymm _ _ (hbest _ hw' hle') (hbest' _ hw hle)
      rw [ih hrest']

end LeftmostShortest

end Matching
