import Mathlib.Logic.Function.Basic
import Mathlib.Logic.Relation
import Mathlib.Tactic.Common

/-!
# Processes

A program is a tree of calls to a shared state. What a call does is a relation, so that it may
fail, and other processes may act between two calls. A program is specified by what it relies on
from the others, what each of its own calls guarantees, and what holds when it returns.
-/

namespace Process

/-- A program over operations, each with its own type of answers. -/
inductive Prog (Op : Type) (Ans : Op → Type) (α : Type) : Type
  | ret (a : α)
  | call (op : Op) (next : Ans op → Prog Op Ans α)

/-- What the operations may answer in a state, and the state that they leave. -/
abbrev World (Op : Type) (Ans : Op → Type) (σ : Type) := (op : Op) → σ → Ans op → σ → Prop

variable {Op : Type} {Ans : Op → Type} {σ α β ε ε' : Type}

namespace Prog

def bind : Prog Op Ans α → (α → Prog Op Ans β) → Prog Op Ans β
  | ret a, f => f a
  | call op next, f => call op fun ans => (next ans).bind f

instance : Monad (Prog Op Ans) where
  pure := ret
  bind := bind

/-- The operation itself. -/
def perform (op : Op) : Prog Op Ans (Ans op) := call op ret

/-- Go on with the value, or return the error. -/
def andThen (p : Prog Op Ans (Except ε α)) (f : α → Prog Op Ans (Except ε β)) :
    Prog Op Ans (Except ε β) :=
  p.bind fun
    | .error e => ret (.error e)
    | .ok a => f a

def mapError (f : ε → ε') (p : Prog Op Ans (Except ε α)) : Prog Op Ans (Except ε' α) :=
  p.bind fun
    | .error e => ret (.error (f e))
    | .ok a => ret (.ok a)

/-- The run of a program that is alone, when each call has one outcome. -/
def run (exec : (op : Op) → σ → Ans op × σ) : Prog Op Ans α → σ → α × σ
  | ret a, s => (a, s)
  | call op next, s => (next (exec op s).1).run exec (exec op s).2

/-- Every call of the program is one of these, whatever is answered. -/
def Only (P : Op → Prop) : Prog Op Ans α → Prop
  | ret _ => True
  | call op next => P op ∧ ∀ ans, (next ans).Only P

/-- What a program that is alone may have come to, stopped anywhere. -/
inductive Reaches (W : World Op Ans σ) : Prog Op Ans α → σ → Prog Op Ans α → σ → Prop
  | refl {p s} : Reaches W p s p s
  | step {op next s ans s' p s''} : W op s ans s' → Reaches W (next ans) s' p s'' →
      Reaches W (.call op next) s p s''

lemma bind_assoc {γ : Type} (p : Prog Op Ans α) (f : α → Prog Op Ans β) (g : β → Prog Op Ans γ) :
    (p.bind f).bind g = p.bind fun a => (f a).bind g := by
  induction p with
  | ret a => rfl
  | call op next ih => exact congrArg (call op) (funext ih)

lemma andThen_assoc {γ : Type} (p : Prog Op Ans (Except ε α)) (f : α → Prog Op Ans (Except ε β))
    (g : β → Prog Op Ans (Except ε γ)) :
    (p.andThen f).andThen g = p.andThen fun a => (f a).andThen g := by
  unfold andThen
  rw [bind_assoc]
  congr 1
  funext r
  cases r <;> rfl

lemma run_bind (exec : (op : Op) → σ → Ans op × σ) (p : Prog Op Ans α) (f : α → Prog Op Ans β)
    (s : σ) : (p.bind f).run exec s = (f (p.run exec s).1).run exec (p.run exec s).2 := by
  induction p generalizing s with
  | ret a => rfl
  | call op next ih => exact ih _ _

section Calls

variable {P Q : Op → Prop}

lemma Only.mono {p : Prog Op Ans α} (h : p.Only P) (hPQ : ∀ op, P op → Q op) : p.Only Q := by
  induction p with
  | ret a => trivial
  | call op next ih => exact ⟨hPQ op h.1, fun ans => ih ans (h.2 ans)⟩

lemma Only.bind {p : Prog Op Ans α} {f : α → Prog Op Ans β} (h : p.Only P)
    (hf : ∀ a, (f a).Only P) : (p.bind f).Only P := by
  induction p with
  | ret a => exact hf a
  | call op next ih => exact ⟨h.1, fun ans => ih ans (h.2 ans)⟩

lemma Only.andThen {p : Prog Op Ans (Except ε α)} {f : α → Prog Op Ans (Except ε β)}
    (h : p.Only P) (hf : ∀ a, (f a).Only P) : (p.andThen f).Only P := by
  apply h.bind
  intro r
  cases r with
  | error e => trivial
  | ok a => exact hf a

lemma Only.mapError {p : Prog Op Ans (Except ε α)} {g : ε → ε'} (h : p.Only P) :
    (p.mapError g).Only P := by
  apply h.bind
  intro r
  cases r <;> trivial

/-- A program runs the same wherever the calls that it makes do. -/
theorem Only.run_eq {exec exec' : (op : Op) → σ → Ans op × σ} {p : Prog Op Ans α} (h : p.Only P)
    (hexec : ∀ op s, P op → exec op s = exec' op s) (s : σ) : p.run exec s = p.run exec' s := by
  induction p generalizing s with
  | ret a => rfl
  | call op next ih =>
    change (next (exec op s).1).run exec (exec op s).2 = _
    rw [hexec op s h.1]
    exact ih _ (h.2 _) _

end Calls

lemma andThen_ne_ok {p : Prog Op Ans (Except ε α)} {f : α → Prog Op Ans (Except ε β)}
    (h : ∀ a, p ≠ ret (.ok a)) (b : β) : p.andThen f ≠ ret (.ok b) := by
  cases p with
  | ret r =>
    cases r with
    | error e => exact fun heq => by cases heq
    | ok a => exact absurd rfl (h a)
  | call op next => exact fun heq => by cases heq

lemma Reaches.bind {W : World Op Ans σ} {p p' : Prog Op Ans α} {s s' : σ}
    (h : p.Reaches W s p' s') (f : α → Prog Op Ans β) :
    (p.bind f).Reaches W s (p'.bind f) s' := by
  induction h with
  | refl => exact .refl
  | step hstep _ ih => exact .step hstep ih

/-- A run of two programs is still in the first, or has come to the second. -/
lemma Reaches.of_bind {W : World Op Ans σ} {p : Prog Op Ans α} {f : α → Prog Op Ans β}
    {q : Prog Op Ans β} {s s' : σ} (h : (p.bind f).Reaches W s q s') :
    (∃ p', p.Reaches W s p' s' ∧ (∀ a, p' ≠ ret a) ∧ q = p'.bind f) ∨
      ∃ a s₁, p.Reaches W s (ret a) s₁ ∧ (f a).Reaches W s₁ q s' := by
  induction p generalizing s with
  | ret a => exact .inr ⟨a, s, .refl, h⟩
  | call op next ih =>
    cases h with
    | refl => exact .inl ⟨call op next, .refl, (fun a ha => by cases ha), rfl⟩
    | step hstep hrest =>
      rcases ih _ hrest with ⟨p', hp', hne, rfl⟩ | ⟨a, s₁, hp, hf⟩
      · exact .inl ⟨p', .step hstep hp', hne, rfl⟩
      · exact .inr ⟨a, s₁, .step hstep hp, hf⟩

/-- A run is still in the first program, which may have failed, or has come to the second. -/
lemma Reaches.of_andThen {W : World Op Ans σ} {p : Prog Op Ans (Except ε α)}
    {f : α → Prog Op Ans (Except ε β)} {q : Prog Op Ans (Except ε β)} {s s' : σ}
    (h : (p.andThen f).Reaches W s q s') :
    (∃ p', p.Reaches W s p' s' ∧ (∀ a, p' ≠ ret (.ok a)) ∧ q = p'.andThen f) ∨
      ∃ a s₁, p.Reaches W s (ret (.ok a)) s₁ ∧ (f a).Reaches W s₁ q s' := by
  rcases h.of_bind with ⟨p', hp, hne, rfl⟩ | ⟨r, s₁, hp, hf⟩
  · exact .inl ⟨p', hp, fun a => hne _, rfl⟩
  · cases r with
    | ok a => exact .inr ⟨a, s₁, hp, hf⟩
    | error e =>
      cases hf with
      | refl => exact .inl ⟨ret (.error e), hp, (fun a ha => by cases ha), rfl⟩

end Prog

/-- An answered call. -/
abbrev Event (Op : Type) (Ans : Op → Type) := (op : Op) × Ans op

namespace World

/-- The world in which every call has its one outcome. -/
def ofExec (exec : (op : Op) → σ → Ans op × σ) : World Op Ans σ :=
  fun op s ans s' => exec op s = (ans, s')

/-- The world that keeps the history of the answered calls. -/
def logged (W : World Op Ans σ) : World Op Ans (σ × List (Event Op Ans)) :=
  fun op x ans y => W op x.1 ans y.1 ∧ y.2 = x.2 ++ [⟨op, ans⟩]

/-- The world as long as it stays within a set of states. -/
def within (W : World Op Ans σ) (P : σ → Prop) : World Op Ans σ :=
  fun op s ans s' => W op s ans s' ∧ P s'

end World

/-- A run can be taken with its history. -/
lemma Prog.Reaches.logged {W : World Op Ans σ} {p p' : Prog Op Ans α} {s s' : σ}
    (h : p.Reaches W s p' s') (history : List (Event Op Ans)) :
    ∃ history', p.Reaches W.logged (s, history) p' (s', history') := by
  induction h generalizing history with
  | refl => exact ⟨history, .refl⟩
  | @step op _ _ ans _ _ _ hstep _ ih =>
    obtain ⟨history', hreach⟩ := ih (history ++ [⟨op, ans⟩])
    exact ⟨history', .step ⟨hstep, rfl⟩ hreach⟩

/-- The program, which also returns its own calls and what was answered to them. -/
def Prog.recorded : Prog Op Ans α → Prog Op Ans (α × List (Event Op Ans))
  | ret a => ret (a, [])
  | call op next => call op fun ans =>
      (next ans).recorded.bind fun r => ret (r.1, ⟨op, ans⟩ :: r.2)

lemma Prog.recorded_bind (p : Prog Op Ans α) (f : α → Prog Op Ans β) :
    (p.bind f).recorded = p.recorded.bind fun r =>
      (f r.1).recorded.bind fun r' => ret (r'.1, r.2 ++ r'.2) := by
  induction p with
  | ret a =>
    change (f a).recorded = (f a).recorded.bind fun r' => ret r'
    induction (f a).recorded with
    | ret r => rfl
    | call op next ih => exact congrArg (call op) (funext ih)
  | call op next ih =>
    refine congrArg (call op) (funext fun ans => ?_)
    rw [show ((next ans).bind f).recorded = _ from ih ans, bind_assoc, bind_assoc]
    congr 1
    funext r
    rw [bind_assoc]
    rfl

/-- As long as the others do nothing but what the program relies on, each of its calls keeps the
guarantee, and what it returns satisfies the postcondition. -/
def Holds (W : World Op Ans σ) (rely guar : σ → σ → Prop) (post : α → σ → Prop) :
    Prog Op Ans α → σ → Prop
  | .ret a, s => ∀ s', rely s s' → post a s'
  | .call op next, s => ∀ s', rely s s' → ∀ ans s'', W op s' ans s'' →
      guar s' s'' ∧ Holds W rely guar post (next ans) s''

section Rules

variable {W : World Op Ans σ} {rely guar guar' : σ → σ → Prop} {post : α → σ → Prop}
  {p : Prog Op Ans α} {s s' : σ}

lemma Holds.any : Holds W rely (fun _ _ => True) (fun _ _ => True) p s := by
  induction p generalizing s with
  | ret a => exact fun _ _ => trivial
  | call op next ih => exact fun _ _ ans _ _ => ⟨trivial, ih ans⟩

/-- What each of its calls guarantees, a program guarantees. -/
lemma Holds.of_only {P : Op → Prop} (h : p.Only P)
    (hstep : ∀ op s ans s', P op → W op s ans s' → guar s s') :
    Holds W rely guar (fun _ _ => True) p s := by
  induction p generalizing s with
  | ret a => exact fun _ _ => trivial
  | call op next ih =>
    exact fun s' _ ans s'' hcall => ⟨hstep op s' ans s'' h.1 hcall, ih ans (h.2 ans)⟩

/-- A specification can be had with the guarantee that the calls of the program give. -/
lemma Holds.guaranteed {P : Op → Prop} (h : Holds W rely guar post p s) (honly : p.Only P)
    (hstep : ∀ op s ans s', P op → W op s ans s' → guar' s s') :
    Holds W rely guar' post p s := by
  induction p generalizing s with
  | ret a => exact h
  | call op next ih =>
    intro s' hs' ans s'' hcall
    exact ⟨hstep op s' ans s'' honly.1 hcall, ih ans (h s' hs' ans s'' hcall).2 (honly.2 ans)⟩

lemma Holds.mono {post' : α → σ → Prop} (h : Holds W rely guar post p s)
    (hguar : ∀ s s', guar s s' → guar' s s') (hpost : ∀ a s, post a s → post' a s) :
    Holds W rely guar' post' p s := by
  induction p generalizing s with
  | ret a => exact fun s' hs' => hpost a s' (h s' hs')
  | call op next ih =>
    intro s' hs' ans s'' hstep
    obtain ⟨hg, hnext⟩ := h s' hs' ans s'' hstep
    exact ⟨hguar s' s'' hg, ih ans hnext⟩

/-- A specification is kept in a world where less can happen. -/
lemma Holds.of_world {W' : World Op Ans σ} (hW : ∀ op s ans s', W' op s ans s' → W op s ans s')
    (h : Holds W rely guar post p s) : Holds W' rely guar post p s := by
  induction p generalizing s with
  | ret a => exact h
  | call op next ih =>
    intro s' hs' ans s'' hstep
    obtain ⟨hg, hnext⟩ := h s' hs' ans s'' (hW op s' ans s'' hstep)
    exact ⟨hg, ih ans hnext⟩

/-- What a program relies on cannot break its specification. -/
lemma Holds.stable (htrans : ∀ s s' s'', rely s s' → rely s' s'' → rely s s'')
    (h : Holds W rely guar post p s) (hs : rely s s') : Holds W rely guar post p s' := by
  cases p with
  | ret a => exact fun s'' hs'' => h s'' (htrans s s' s'' hs hs'')
  | call op next => exact fun s'' hs'' => h s'' (htrans s s' s'' hs hs'')

lemma Holds.bind (hrefl : ∀ s, rely s s) {f : α → Prog Op Ans β} {post : β → σ → Prop}
    (h : Holds W rely guar (fun a s => Holds W rely guar post (f a) s) p s) :
    Holds W rely guar post (p.bind f) s := by
  induction p generalizing s with
  | ret a => exact h s (hrefl s)
  | call op next ih =>
    intro s' hs' ans s'' hstep
    obtain ⟨hg, hnext⟩ := h s' hs' ans s'' hstep
    exact ⟨hg, ih ans hnext⟩

/-- A program that changes only what another one returns. -/
lemma Holds.map {f : α → β} {post' : β → σ → Prop} (h : Holds W rely guar post p s)
    (hpost : ∀ a s, post a s → post' (f a) s) :
    Holds W rely guar post' (p.bind fun a => .ret (f a)) s := by
  induction p generalizing s with
  | ret a => exact fun s' hs' => hpost a s' (h s' hs')
  | call op next ih =>
    intro s' hs' ans s'' hstep
    obtain ⟨hg, hnext⟩ := h s' hs' ans s'' hstep
    exact ⟨hg, ih ans hnext⟩

lemma Holds.andThen (hrefl : ∀ s, rely s s) {p : Prog Op Ans (Except ε α)}
    {f : α → Prog Op Ans (Except ε β)} {post : Except ε β → σ → Prop}
    (h : Holds W rely guar (fun r s => match r with
      | .error e => Holds W rely guar post (.ret (.error e)) s
      | .ok a => Holds W rely guar post (f a) s) p s) :
    Holds W rely guar post (p.andThen f) s := by
  refine Holds.bind hrefl (h.mono (fun _ _ hg => hg) fun r s hr => ?_)
  cases r <;> exact hr

lemma Holds.mapError (hrefl : ∀ s, rely s s) {g : ε → ε'} {p : Prog Op Ans (Except ε α)}
    {post : Except ε' α → σ → Prop}
    (h : Holds W rely guar (fun r s => Holds W rely guar post (.ret (r.mapError g)) s) p s) :
    Holds W rely guar post (p.mapError g) s := by
  refine Holds.bind hrefl (h.mono (fun _ _ hg => hg) fun r s hr => ?_)
  cases r <;> exact hr

/-- One operation, between assertions that what the program relies on cannot break. -/
lemma Holds.perform {op : Op} {P : σ → Prop} {post : Ans op → σ → Prop} (hP : P s)
    (hstable : ∀ s s', P s → rely s s' → P s')
    (hstep : ∀ s ans s', P s → W op s ans s' → guar s s' ∧ post ans s')
    (hpost : ∀ ans s s', post ans s → rely s s' → post ans s') :
    Holds W rely guar post (.perform op) s := by
  intro s' hs' ans s'' hop
  obtain ⟨hg, hans⟩ := hstep s' ans s'' (hstable s s' hP hs') hop
  exact ⟨hg, fun s''' => hpost ans s'' s''' hans⟩

/-- One program after another, with the calls of both. -/
lemma Holds.recorded_bind (hrefl : ∀ s, rely s s) {f : α → Prog Op Ans β}
    {post : β × List (Event Op Ans) → σ → Prop}
    (h : Holds W rely guar (fun r s => Holds W rely guar
      (fun r' s => post (r'.1, r.2 ++ r'.2) s) (f r.1).recorded s) p.recorded s) :
    Holds W rely guar post (p.bind f).recorded s := by
  rw [Prog.recorded_bind]
  exact Holds.bind hrefl (h.mono (fun _ _ hg => hg) fun r s hr => hr.map fun _ _ hpost => hpost)

/-- The calls of a program are among those that it can make. -/
lemma Holds.recorded {P : Op → Prop} (h : Holds W rely guar post p s) (honly : p.Only P) :
    Holds W rely guar (fun r s => post r.1 s ∧ ∀ event ∈ r.2, P event.1) p.recorded s := by
  induction p generalizing s with
  | ret a => exact fun s' hs' => ⟨h s' hs', fun event hevent => (List.not_mem_nil hevent).elim⟩
  | call op next ih =>
    intro s' hs' ans s'' hstep
    obtain ⟨hg, hnext⟩ := h s' hs' ans s'' hstep
    refine ⟨hg, ?_⟩
    refine ((ih ans hnext (honly.2 ans)).map fun r s hr => ?_)
    exact ⟨hr.1, List.forall_mem_cons.mpr ⟨honly.1, hr.2⟩⟩

/-- What neither the others nor the program itself can break still holds where it returns. -/
lemma Holds.frame {P : σ → Prop} (h : Holds W rely guar post p s) (hP : P s)
    (hrely : ∀ s s', P s → rely s s' → P s') (hguar : ∀ s s', P s → guar s s' → P s') :
    Holds W rely guar (fun a s => post a s ∧ P s) p s := by
  induction p generalizing s with
  | ret a => exact fun s' hs' => ⟨h s' hs', hrely s s' hP hs'⟩
  | call op next ih =>
    intro s' hs' ans s'' hstep
    obtain ⟨hg, hnext⟩ := h s' hs' ans s'' hstep
    exact ⟨hg, ih ans hnext (hguar s' s'' (hrely s s' hP hs') hg)⟩

/-! ### One process -/

lemma holds_ret {post : α → σ → Prop} {a : α} :
    Holds W Eq guar post (.ret a) s ↔ post a s := by
  simp [Holds]

lemma holds_call {op : Op} {next : Ans op → Prog Op Ans α} :
    Holds W Eq guar post (.call op next) s ↔
      ∀ ans s', W op s ans s' → guar s s' ∧ Holds W Eq guar post (next ans) s' := by
  simp [Holds]

lemma holds_perform {op : Op} {post : Ans op → σ → Prop} :
    Holds W Eq guar post (.perform op) s ↔
      ∀ ans s', W op s ans s' → guar s s' ∧ post ans s' := by
  simp [Prog.perform, Holds]

lemma Holds.and {post' : α → σ → Prop} (h : Holds W Eq guar post p s)
    (h' : Holds W Eq guar' post' p s) :
    Holds W Eq (fun s s' => guar s s' ∧ guar' s s') (fun a s => post a s ∧ post' a s) p s := by
  induction p generalizing s with
  | ret a => exact holds_ret.mpr ⟨holds_ret.mp h, holds_ret.mp h'⟩
  | call op next ih =>
    refine holds_call.mpr fun ans s' hstep => ?_
    obtain ⟨hg, hnext⟩ := holds_call.mp h ans s' hstep
    obtain ⟨hg', hnext'⟩ := holds_call.mp h' ans s' hstep
    exact ⟨⟨hg, hg'⟩, ih ans hnext hnext'⟩

lemma Holds.within {P : σ → Prop} (h : Holds W Eq guar post p s) :
    Holds (W.within P) Eq (fun s s' => guar s s' ∧ P s') post p s := by
  induction p generalizing s with
  | ret a => exact h
  | call op next ih =>
    refine holds_call.mpr fun ans s' hstep => ?_
    obtain ⟨hg, hnext⟩ := holds_call.mp h ans s' hstep.1
    exact ⟨⟨hg, hstep.2⟩, ih ans hnext⟩

/-- Where a program returns, all that has happened since its start is what a preorder allows. -/
lemma Holds.since (hrefl : ∀ s, guar s s)
    (htrans : ∀ s s' s'', guar s s' → guar s' s'' → guar s s'')
    (h : Holds W Eq guar post p s) :
    Holds W Eq guar (fun a s' => guar s s' ∧ post a s') p s := by
  induction p generalizing s with
  | ret a => exact holds_ret.mpr ⟨hrefl s, holds_ret.mp h⟩
  | call op next ih =>
    refine holds_call.mpr fun ans s' hstep => ?_
    obtain ⟨hg, hnext⟩ := holds_call.mp h ans s' hstep
    exact ⟨hg, (ih ans hnext).mono (fun _ _ h => h)
      fun a s'' hs'' => ⟨htrans s s' s'' hg hs''.1, hs''.2⟩⟩

/-- What the guarantee preserves holds before and after every call. -/
lemma Holds.keeping {I : σ → Prop} (hI : I s) (hstep : ∀ s s', I s → guar s s' → I s')
    (h : Holds W Eq guar post p s) :
    Holds W Eq (fun s s' => I s ∧ guar s s' ∧ I s') (fun a s' => post a s' ∧ I s') p s := by
  induction p generalizing s with
  | ret a => exact holds_ret.mpr ⟨holds_ret.mp h, hI⟩
  | call op next ih =>
    refine holds_call.mpr fun ans s' hcall => ?_
    obtain ⟨hg, hnext⟩ := holds_call.mp h ans s' hcall
    have hI' := hstep s s' hI hg
    exact ⟨⟨hI, hg, hI'⟩, ih ans hI' hnext⟩

/-- Wherever a program is stopped, its calls have kept the guarantee, and what is left of it
still satisfies its specification. -/
theorem Holds.reaches {p' : Prog Op Ans α} (h : Holds W Eq guar post p s)
    (hreach : p.Reaches W s p' s') :
    Relation.ReflTransGen guar s s' ∧ Holds W Eq guar post p' s' := by
  induction hreach with
  | refl => exact ⟨.refl, h⟩
  | step hstep _ ih =>
    obtain ⟨hg, hnext⟩ := holds_call.mp h _ _ hstep
    obtain ⟨hgs, hrest⟩ := ih hnext
    exact ⟨.head hg hgs, hrest⟩

/-- The same, when the guarantee is a preorder. -/
lemma Holds.guar_of_reaches {p' : Prog Op Ans α} (h : Holds W Eq guar post p s)
    (hrefl : ∀ s, guar s s) (htrans : ∀ s s' s'', guar s s' → guar s' s'' → guar s s'')
    (hreach : p.Reaches W s p' s') : guar s s' := by
  have hsteps := (h.reaches hreach).1
  clear hreach
  induction hsteps with
  | refl => exact hrefl s
  | tail _ hstep ih => exact htrans _ _ _ ih hstep

theorem run_reaches (exec : (op : Op) → σ → Ans op × σ)
    (hW : ∀ op s, W op s (exec op s).1 (exec op s).2) (p : Prog Op Ans α) (s : σ)
    (history : List (Event Op Ans)) : ∃ history', p.Reaches W.logged (s, history)
      (.ret (p.run exec s).1) ((p.run exec s).2, history') := by
  induction p generalizing s history with
  | ret a => exact ⟨history, .refl⟩
  | call op next ih =>
    obtain ⟨history', hreach⟩ := ih (exec op s).1 (exec op s).2 (history ++ [⟨op, (exec op s).1⟩])
    exact ⟨history', .step ⟨hW op s, rfl⟩ hreach⟩

end Rules

/-! ### Many processes -/

section Pool

variable {ι : Type} [DecidableEq ι] {τ : ι → Type}

/-- The runs of many processes, which take their steps in any order. -/
inductive Interleaves (W : ι → World Op Ans σ) :
    ((i : ι) → Prog Op Ans (τ i)) → σ → ((i : ι) → Prog Op Ans (τ i)) → σ → Prop
  | refl {ps s} : Interleaves W ps s ps s
  | step {ps s ps' s' i op next ans s''} : Interleaves W ps s ps' s' → ps' i = .call op next →
      W i op s' ans s'' → Interleaves W ps s (Function.update ps' i (next ans)) s''

variable {W : ι → World Op Ans σ} {rely guar : ι → σ → σ → Prop}
  {post : (i : ι) → τ i → σ → Prop} {ps ps' : (i : ι) → Prog Op Ans (τ i)} {s s' : σ}

/-- If every process relies on no more than the others guarantee, all of them keep their
specifications in any interleaving. -/
theorem Interleaves.holds (hrefl : ∀ i s, rely i s s)
    (htrans : ∀ i s s' s'', rely i s s' → rely i s' s'' → rely i s s'')
    (hothers : ∀ i j s s', i ≠ j → guar j s s' → rely i s s')
    (hall : ∀ i, Holds (W i) (rely i) (guar i) (post i) (ps i) s)
    (hrun : Interleaves W ps s ps' s') :
    ∀ i, Holds (W i) (rely i) (guar i) (post i) (ps' i) s' := by
  induction hrun with
  | refl => exact hall
  | @step ps' s' j op next ans s'' _ hj hstep ih =>
    have hcall := ih j
    rw [hj] at hcall
    obtain ⟨hg, hnext⟩ := hcall s' (hrefl j s') ans s'' hstep
    intro i
    by_cases hi : i = j
    · subst hi
      rw [Function.update_self]
      exact hnext
    · rw [Function.update_of_ne hi]
      exact (ih i).stable (htrans i) (hothers i j s' s'' hi hg)

/-- What no step that keeps its guarantee can break holds throughout an interleaving. -/
theorem Interleaves.invariant {I : σ → Prop} (hrefl : ∀ i s, rely i s s)
    (htrans : ∀ i s s' s'', rely i s s' → rely i s' s'' → rely i s s'')
    (hothers : ∀ i j s s', i ≠ j → guar j s s' → rely i s s')
    (hall : ∀ i, Holds (W i) (rely i) (guar i) (post i) (ps i) s)
    (hkeeps : ∀ i s s', I s → guar i s s' → I s') (hI : I s)
    (hrun : Interleaves W ps s ps' s') : I s' := by
  induction hrun with
  | refl => exact hI
  | @step ps' s' j op next ans s'' hrun hj hstep ih =>
    have hcall := hrun.holds hrefl htrans hothers hall j
    rw [hj] at hcall
    exact hkeeps j s' s'' ih (hcall s' (hrefl j s') ans s'' hstep).1

/-! ### A schedule -/

variable (exec : (op : Op) → σ → Ans op × σ) (allowed : Op → σ → Bool)

/-- The process takes its next step, if it has one that is allowed. -/
def advance (x : ((i : ι) → Prog Op Ans (τ i)) × σ) (i : ι) :
    ((i : ι) → Prog Op Ans (τ i)) × σ :=
  match x.1 i with
  | .ret _ => x
  | .call op next =>
    if allowed op x.2 then
      (Function.update x.1 i (next (exec op x.2).1), (exec op x.2).2)
    else x

variable {exec allowed}

lemma Interleaves.advance {x : ((i : ι) → Prog Op Ans (τ i)) × σ}
    (hW : ∀ i op s, allowed op s = true → W i op s (exec op s).1 (exec op s).2)
    (hrun : Interleaves W ps s x.1 x.2) (i : ι) :
    Interleaves W ps s (advance exec allowed x i).1 (advance exec allowed x i).2 := by
  unfold Process.advance
  split
  · exact hrun
  · rename_i op next hi
    split
    · rename_i hallowed
      exact .step hrun hi (hW i op x.2 hallowed)
    · exact hrun

theorem interleaves_schedule (exec : (op : Op) → σ → Ans op × σ) (allowed : Op → σ → Bool)
    (hW : ∀ i op s, allowed op s = true → W i op s (exec op s).1 (exec op s).2) (order : List ι) :
    Interleaves W ps s (order.foldl (advance exec allowed) (ps, s)).1
      (order.foldl (advance exec allowed) (ps, s)).2 := by
  have hfold : ∀ x : ((i : ι) → Prog Op Ans (τ i)) × σ, Interleaves W ps s x.1 x.2 →
      Interleaves W ps s (order.foldl (Process.advance exec allowed) x).1
        (order.foldl (Process.advance exec allowed) x).2 := by
    induction order with
    | nil => exact fun x h => h
    | cons i order ih => exact fun x h => ih _ (h.advance hW i)
  exact hfold (ps, s) .refl

end Pool

end Process
