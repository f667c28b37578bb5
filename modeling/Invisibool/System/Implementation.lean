import Invisibool.System.Process

/-!
# Implementations

An operation may be carried out by a program of finer operations. If one of them does all at once
what the operation does, and the others change nothing that is seen of the state, then any
interleaving of the finer programs is one of the programs that they carry out.
-/

namespace Process

variable {Op Op' : Type} {Ans : Op → Type} {Ans' : Op' → Type} {σ σ' α β : Type}

/-- The program with each of its operations carried out by another program. -/
def Prog.implement (impl : (op : Op) → Prog Op' Ans' (Ans op)) : Prog Op Ans α → Prog Op' Ans' α
  | .ret a => .ret a
  | .call op next => (impl op).bind fun ans => (next ans).implement impl

section Simulation

variable (W' : World Op' Ans' σ') (W : World Op Ans σ) (view : σ' → σ)

/-- The program changes nothing that is seen, and returns the value. -/
def Settles (a : α) : Prog Op' Ans' α → Prop
  | .ret b => b = a
  | .call op next => ∀ s ans s', W' op s ans s' → view s' = view s ∧ Settles a (next ans)

/-- One call of the program does what the operation does, with the answer that the program
returns; nothing else is seen of it. -/
def CarriesOut (op : Op) : Prog Op' Ans' (Ans op) → Prop
  | .ret _ => False
  | .call op' next => ∀ s ans s', W' op' s ans s' →
      view s' = view s ∧ CarriesOut op (next ans) ∨
        ∃ a, W op (view s) a (view s') ∧ Settles W' view a (next ans)

variable (impl : (op : Op) → Prog Op' Ans' (Ans op))

/-- How far a program has got, and how far the one that carries it out. -/
inductive Behind : Prog Op Ans α → Prog Op' Ans' α → Prop
  | ret (a : α) : Behind (.ret a) (.ret a)
  | before {op : Op} {next : Ans op → Prog Op Ans α} {r} : CarriesOut W' W view op r →
      Behind (.call op next) (r.bind fun ans => (next ans).implement impl)
  | after {op : Op} {ans : Ans op} {next : Ans op → Prog Op Ans α} {r} : Settles W' view ans r →
      Behind (next ans) (r.bind fun a => (next a).implement impl)

variable {W' W view impl} {s s' : σ'} {p : Prog Op Ans α}

lemma Behind.implement (himpl : ∀ op, CarriesOut W' W view op (impl op)) (p : Prog Op Ans α) :
    Behind W' W view impl p (p.implement impl) := by
  cases p with
  | ret a => exact .ret a
  | call op next => exact .before (himpl op)

/-- A call of the one that carries it out is not seen, or is the next operation of the program. -/
lemma Behind.step (himpl : ∀ op, CarriesOut W' W view op (impl op)) {op' : Op'}
    {next' : Ans' op' → Prog Op' Ans' α} {ans : Ans' op'}
    (h : Behind W' W view impl p (.call op' next')) (hstep : W' op' s ans s') :
    view s' = view s ∧ Behind W' W view impl p (next' ans) ∨
      ∃ op next a, p = .call op next ∧ W op (view s) a (view s') ∧
        Behind W' W view impl (next a) (next' ans) := by
  have hbefore : ∀ {op : Op} {next : Ans op → Prog Op Ans α} {r : Prog Op' Ans' (Ans op)},
      CarriesOut W' W view op r →
      (Prog.call op' next' = r.bind fun ans => (next ans).implement impl) →
      view s' = view s ∧ Behind W' W view impl (.call op next) (next' ans) ∨
        ∃ a, W op (view s) a (view s') ∧ Behind W' W view impl (next a) (next' ans) := by
    intro op next r hcarries heq
    cases r with
    | ret b => exact hcarries.elim
    | call op'' next'' =>
      cases heq
      rcases hcarries s ans s' hstep with ⟨hview, hrest⟩ | ⟨a, hop, hrest⟩
      · exact .inl ⟨hview, .before hrest⟩
      · exact .inr ⟨a, hop, .after hrest⟩
  generalize hq : Prog.call op' next' = q at h
  cases h with
  | ret b => cases hq
  | @before op next r hcarries =>
    rcases hbefore hcarries hq with hquiet | ⟨a, hop, hrest⟩
    · exact .inl hquiet
    · exact .inr ⟨op, next, a, rfl, hop, hrest⟩
  | @after op a next r hsettles =>
    cases r with
    | call op'' next'' =>
      cases hq
      obtain ⟨hview, hrest⟩ := hsettles s ans s' hstep
      exact .inl ⟨hview, .after hrest⟩
    | ret b =>
      obtain rfl : b = a := hsettles
      -- the operation is over, and the call belongs to the next one
      change Prog.call op' next' = (next b).implement impl at hq
      cases hp : next b with
      | ret c =>
        rw [hp] at hq
        cases hq
      | call op₂ next₂ =>
        rw [hp] at hq
        rcases hbefore (himpl op₂) hq with hquiet | ⟨a, hop, hrest⟩
        · exact .inl hquiet
        · exact .inr ⟨op₂, next₂, a, rfl, hop, hrest⟩

end Simulation

section Pool

variable {ι : Type} [DecidableEq ι] {τ : ι → Type} {W' : ι → World Op' Ans' σ'}
  {W : ι → World Op Ans σ} {view : σ' → σ} {impl : ι → (op : Op) → Prog Op' Ans' (Ans op)}
  {ps : (i : ι) → Prog Op Ans (τ i)} {qs : (i : ι) → Prog Op' Ans' (τ i)} {s s' : σ'}

end Pool

end Process
