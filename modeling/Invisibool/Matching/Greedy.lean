import Mathlib.Tactic.Lemma

/-!
# Greedy selection

Walk a list and keep every element that has no conflict with what has been kept. In a list that is
sorted by preference, whatever is passed over conflicts with something that is preferred to it.
-/

namespace Matching

variable {α : Type} (conflict : α → α → Bool)

/-- Keep the elements of a list that have no conflict with what is kept before them. -/
def greedy (kept : List α) : List α → List α
  | [] => kept
  | cand :: cands =>
    if kept.any (conflict cand) then greedy kept cands else greedy (kept ++ [cand]) cands

variable {conflict}

lemma mem_greedy_of_mem {kept cands : List α} {k : α} (hk : k ∈ kept) :
    k ∈ greedy conflict kept cands := by
  induction cands generalizing kept with
  | nil => exact hk
  | cons cand cands ih =>
    rw [greedy]
    split
    · exact ih hk
    · apply ih
      exact List.mem_append_left _ hk

/-- No two elements that are kept conflict. -/
theorem greedy_pairwise (hsymm : ∀ a b, conflict a b = conflict b a) {kept cands : List α}
    (hkept : kept.Pairwise fun a b => conflict a b = false) :
    (greedy conflict kept cands).Pairwise fun a b => conflict a b = false := by
  induction cands generalizing kept with
  | nil => exact hkept
  | cons cand cands ih =>
    rw [greedy]
    split
    · exact ih hkept
    · rename_i hany
      apply ih
      rw [List.pairwise_append]
      refine ⟨hkept, List.pairwise_singleton _ _, fun k hk c hc => ?_⟩
      obtain rfl := List.mem_singleton.mp hc
      rw [hsymm, ← Bool.not_eq_true]
      exact fun h => hany (List.any_eq_true.mpr ⟨k, hk, h⟩)

/-- In a sorted list, everything that is left out conflicts with something kept before it. -/
theorem greedy_maximal {prefers : α → α → Prop} {kept cands : List α}
    (hkept : ∀ k ∈ kept, ∀ c ∈ cands, prefers k c) (hcands : cands.Pairwise prefers) :
    ∃ left, (greedy conflict kept cands ++ left).Perm (kept ++ cands) ∧
      ∀ c ∈ left, ∃ k ∈ greedy conflict kept cands, conflict c k = true ∧ prefers k c := by
  induction cands generalizing kept with
  | nil => exact ⟨[], .refl _, nofun⟩
  | cons cand cands ih =>
    rw [List.pairwise_cons] at hcands
    rw [greedy]
    split
    · rename_i hany
      obtain ⟨k, hk, hconflict⟩ := List.any_eq_true.mp hany
      obtain ⟨left, hperm, hleft⟩ :=
        ih (fun k hk c hc => hkept k hk c (List.mem_cons_of_mem _ hc)) hcands.2
      refine ⟨cand :: left, ?_, ?_⟩
      · exact List.perm_middle.trans ((hperm.cons cand).trans List.perm_middle.symm)
      · intro c hc
        rcases List.mem_cons.mp hc with rfl | hc
        · exact ⟨k, mem_greedy_of_mem hk, hconflict, hkept k hk c List.mem_cons_self⟩
        · exact hleft c hc
    · have hnext : ∀ k ∈ kept ++ [cand], ∀ c ∈ cands, prefers k c := by
        intro k hk c hc
        rcases List.mem_append.mp hk with hk | hk
        · exact hkept k hk c (List.mem_cons_of_mem _ hc)
        · obtain rfl := List.mem_singleton.mp hk
          exact hcands.1 c hc
      obtain ⟨left, hperm, hleft⟩ := ih hnext hcands.2
      refine ⟨left, ?_, hleft⟩
      rwa [List.append_assoc, List.singleton_append] at hperm

end Matching
