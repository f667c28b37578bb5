import Mathlib.Data.List.Perm.Subperm

/-!
# Folds that do not depend on the order

A fold gives the same result on every permutation of a list, if any two of its steps may be
swapped in every state that the fold can be in when they are due. Unlike in
`List.Perm.foldl_eq'`, nothing is asked of the other states.
-/

namespace Folding
open List

variable {α σ : Type} {step : σ → α → σ}

/-- Whatever part of the list has been folded, any two of the other elements may come next in
either order. -/
def Swappable (step : σ → α → σ) (st : σ) (xs : List α) : Prop :=
  ∀ done a b, done ++ [a, b] <+~ xs →
    step (step (done.foldl step st) a) b = step (step (done.foldl step st) b) a

lemma Swappable.tail {st : σ} {x : α} {xs : List α} (h : Swappable step st (x :: xs)) :
    Swappable step (step st x) xs := by
  intro done a b hsub
  exact h (x :: done) a b ((subperm_cons x).mpr hsub)

lemma Swappable.perm {st : σ} {xs ys : List α} (h : Swappable step st xs) (hp : xs.Perm ys) :
    Swappable step st ys := by
  intro done a b hsub
  exact h done a b (hp.subperm_left.mpr hsub)

theorem foldl_eq_of_perm {st : σ} {xs ys : List α} (h : Swappable step st xs)
    (hp : xs.Perm ys) : xs.foldl step st = ys.foldl step st := by
  induction hp generalizing st with
  | nil => rfl
  | cons x _ ih => exact ih h.tail
  | swap x y xs =>
    have hswap := h [] y x ((Sublist.append_left (nil_sublist xs) [y, x]).subperm)
    exact congrArg (xs.foldl step) hswap
  | trans hp₁ _ ih₁ ih₂ => exact (ih₁ h).trans (ih₂ (h.perm hp₁))

end Folding
