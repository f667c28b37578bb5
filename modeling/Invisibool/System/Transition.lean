import Mathlib.Data.List.Induction
import Mathlib.Data.Prod.Lex
import Mathlib.Logic.Relation
import Mathlib.Tactic.Common

/-!
# Transition systems

Steps that can be taken in some states only, the runs that take them one after the other, and the
rules by which a run keeps an invariant and comes to its end.
-/

namespace Transition
open Relation

structure System (σ α : Type) where
  Enabled : σ → α → Prop
  next : σ → α → σ

namespace System

variable {σ α : Type} (S : System σ α)

/-- A step that is among the allowed ones. -/
def Step (allowed : σ → α → Prop) (s s' : σ) : Prop :=
  ∃ a, S.Enabled s a ∧ allowed s a ∧ s' = S.next s a

/-- The steps can be taken one after the other, and are allowed. -/
def Runs (allowed : σ → α → Prop) : σ → List α → Prop
  | _, [] => True
  | s, a :: acts => S.Enabled s a ∧ allowed s a ∧ Runs allowed (S.next s a) acts

/-- The state behind the steps. -/
def after (s : σ) (acts : List α) : σ := acts.foldl S.next s

instance instDecidableRuns {allowed : σ → α → Prop} [∀ s a, Decidable (S.Enabled s a)]
    [∀ s a, Decidable (allowed s a)] : ∀ (s : σ) (acts : List α), Decidable (S.Runs allowed s acts)
  | _, [] => isTrue trivial
  | s, a :: acts =>
    have : Decidable (S.Runs allowed (S.next s a) acts) := instDecidableRuns (S.next s a) acts
    inferInstanceAs (Decidable (_ ∧ _ ∧ _))

variable {S} {allowed : σ → α → Prop} {s : σ} {acts : List α}

theorem Runs.reaches (h : S.Runs allowed s acts) :
    ReflTransGen (S.Step allowed) s (S.after s acts) := by
  induction acts generalizing s with
  | nil => exact .refl
  | cons a acts ih => exact .head ⟨a, h.1, h.2.1, rfl⟩ (ih h.2.2)

theorem Runs.mono {allowed' : σ → α → Prop} (h : S.Runs allowed s acts)
    (hle : ∀ s a, allowed s a → allowed' s a) : S.Runs allowed' s acts := by
  induction acts generalizing s with
  | nil => trivial
  | cons a acts ih => exact ⟨h.1, hle s a h.2.1, ih h.2.2⟩

@[simp] lemma after_nil : S.after s [] = s := rfl

@[simp] lemma after_append (later : List α) :
    S.after s (acts ++ later) = S.after (S.after s acts) later := List.foldl_append

lemma after_concat (a : α) : S.after s (acts ++ [a]) = S.next (S.after s acts) a :=
  after_append [a]

@[simp] lemma after_cons (a : α) : S.after s (a :: acts) = S.after (S.next s a) acts := rfl

theorem runs_append {later : List α} : S.Runs allowed s (acts ++ later) ↔
    S.Runs allowed s acts ∧ S.Runs allowed (S.after s acts) later := by
  induction acts generalizing s with
  | nil => exact (and_iff_right trivial).symm
  | cons a acts ih =>
    change _ ∧ _ ∧ S.Runs allowed (S.next s a) (acts ++ later) ↔ (_ ∧ _ ∧ _) ∧ _
    rw [ih, after_cons, and_assoc, and_assoc]

/-- The last step of a run is one that can be taken behind the others. -/
theorem Runs.split {a : α} {later : List α} (h : S.Runs allowed s (acts ++ a :: later)) :
    S.Runs allowed s acts ∧ S.Enabled (S.after s acts) a ∧ allowed (S.after s acts) a :=
  have hrest := runs_append.mp h
  ⟨hrest.1, hrest.2.1, hrest.2.2.1⟩

/-- What is known of the steps taken so far, if every step preserves it. -/
theorem Runs.history {motive : List α → Prop} (h : S.Runs allowed s acts)
    (hs : motive [])
    (hstep : ∀ acts a, S.Runs allowed s acts → motive acts → S.Enabled (S.after s acts) a →
      allowed (S.after s acts) a → motive (acts ++ [a])) : motive acts := by
  induction acts using List.reverseRecOn with
  | nil => exact hs
  | append_singleton acts a ih =>
    obtain ⟨hbefore, he, ha⟩ := h.split
    exact hstep acts a hbefore (ih hbefore) he ha

end System

variable {σ : Type} {step : σ → σ → Prop} {Inv : σ → Prop} {s s' : σ}

/-- What every step preserves holds all along a run. -/
theorem invariant_of_step (hstep : ∀ s s', Inv s → step s s' → Inv s') (hs : Inv s)
    (hrun : ReflTransGen step s s') : Inv s' := by
  induction hrun with
  | refl => exact hs
  | tail _ h ih => exact hstep _ _ ih h

/-- No run goes on for ever if every step makes something smaller: a stage, or at the same stage
a weight. -/
theorem acc_of_decreases (stage weight : σ → Nat) (hstep : ∀ s s', Inv s → step s s' → Inv s')
    (hdecreases : ∀ s s', Inv s → step s s' →
      stage s' < stage s ∨ stage s' = stage s ∧ weight s' < weight s) (hs : Inv s) :
    Acc (fun s' s => step s s') s := by
  have hwf : WellFounded (Prod.Lex (· < ·) (· < ·) : Nat × Nat → Nat × Nat → Prop) :=
    WellFounded.prod_lex wellFounded_lt wellFounded_lt
  have hinduct : ∀ m : Nat × Nat, ∀ s, Inv s → (stage s, weight s) = m →
      Acc (fun s' s => step s s') s := by
    intro m
    induction m using hwf.induction with
    | h m ih =>
      rintro s hs rfl
      constructor
      intro s' h
      refine ih (stage s', weight s') ?_ s' (hstep s s' hs h) rfl
      rw [Prod.lex_def]
      exact hdecreases s s' hs h
  exact hinduct _ s hs rfl

/-- Where no run goes on for ever, some run comes to rest. -/
theorem exists_rest (h : Acc (fun s' s => step s s') s) :
    ∃ s', ReflTransGen step s s' ∧ ∀ s'', ¬step s' s'' := by
  induction h with
  | intro s _ ih =>
    by_cases hnext : ∃ s', step s s'
    · obtain ⟨s', hstep⟩ := hnext
      obtain ⟨s'', hrun, hrest⟩ := ih s' hstep
      exact ⟨s'', .head hstep hrun, hrest⟩
    · exact ⟨s, .refl, fun s' hstep => hnext ⟨s', hstep⟩⟩

end Transition
