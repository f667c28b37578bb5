import Invisibool.Clipboard.ReadPhases

/-!
# Replies to other reads

Nothing on the way from an owner to a read says which read it is for: the answers all come in the
same property, and the event thread gives a `SelectionNotify` to the read that has the entry then.
This is right as long as one read is over, and everything about it has been handled, before the
next one begins, and no owner is late with an answer to it.
-/

namespace Invisibool.Clipboard
open Text Relation

namespace Reads

variable {ρ : Type}

section

variable (s : Reads ρ)

/-- The read has an entry of its own, and has not returned. -/
def Running (r : ρ) : Prop := (s.calls r).running = true

/-- The event thread has taken the entry of the read. -/
def TakenUp (r : ρ) : Prop := s.states r ≠ .awaiting ∨ s.handling.pending = some r

/-- Nothing is left of the reads before but news of the property. -/
structure Clear : Prop where
  events : ∀ event ∈ s.events, event = .newValue
  handling : s.handling = .idle
  requests : s.requests = []
  reply : s.reply = none
  incrReceives : s.incrReceives = none

/-- The read that a step of an owner answers. -/
def Act.answers : Act ρ → Option ρ
  | .refuse r => some r
  | .write r _ => some r
  | .notifyWritten r _ => some r
  | .mark r _ _ => some r
  | .notifyMarked r _ _ => some r
  | .sendChunk r _ _ => some r
  | .sendEnd r => some r
  | _ => none

/-- The call that a step is one of. -/
def Act.caller : Act ρ → Option ρ
  | .begin r => some r
  | .convert r => some r
  | .timeOut r => some r
  | .extract r _ => some r
  | .finish r _ => some r
  | _ => none

/-- A read begins while the others that run still have their entries, or when nothing is left of
them, and an owner does not answer one read while another one runs. -/
def Careful : Act ρ → Prop
  | .begin _ => (∀ r, s.Running r → ¬s.TakenUp r) ∧ ((∀ r, ¬s.Running r) → s.Clear)
  | a => ∀ r, a.answers = some r → s.Running r ∨ ∀ r', ¬s.Running r'

/-- If the result is a text, it is the one that was supplied in answer to the read. -/
def Good (r : ρ) (result : ReadResult) : Prop :=
  ∀ text, result = .ok (some text) →
    ∃ answer, s.supplied r = some answer ∧ answer.content = some (utf8 text)

/-- Nobody reads, or the only read is at a phase, or is over. -/
inductive Situation : Prop
  | quiet : (∀ r, ¬s.Running r) → s.pendingReads = none → Situation
  | reading (r : ρ) (p : Phase) (news : Nat) : s.At r p news → (∀ r', s.Running r' → r' = r) →
      Situation
  | finished (r : ρ) (result : ReadResult) : s.Over r result → s.Good r result →
      (∀ r', s.Running r' → r' = r) → Situation

/-- A read that is to be answered has not been answered. -/
structure Unanswered : Prop where
  unasked : ∀ r, s.calls r = .notStarted ∨ s.calls r = .inserted → s.conversions r = .unasked
  asked : ∀ r, s.conversions r = .unasked ∨ s.conversions r = .asked → s.supplied r = none

end

variable {s s' : Reads ρ} {r : ρ}

/-! ### Reads that run -/

lemma running_congr (h : s'.calls = s.calls) : s'.Running r ↔ s.Running r := by
  unfold Running
  rw [h]

lemma Completed.good {answer : Answer} {result : ReadResult} (h : s.Completed r answer result) :
    s.Good r result := by
  rintro text rfl
  refine ⟨answer, h.supplied, ?_⟩
  cases h.right with
  | inl hexact =>
    unfold Answer.Exact at hexact
    cases hcontent : answer.content with
    | none =>
      rw [hcontent] at hexact
      cases hexact
    | some content =>
      rw [hcontent] at hexact
      cases hexact with
      | inl hok =>
        obtain ⟨text', hutf8, _, hresult⟩ := hok
        obtain rfl := Option.some.inj (Except.ok.inj hresult)
        rw [hutf8]
      | inr herror =>
        obtain ⟨_, message, hresult⟩ := herror
        cases hresult
  | inr hwrong =>
    obtain ⟨_, message, hresult⟩ := hwrong
    cases hresult

lemma At.running {p : Phase} {news : Nat} (h : s.At r p news) : s.Running r := by
  unfold Running
  rw [h.call]
  cases p <;> rfl

lemma Phase.state_ne {p : Phase} (h : p.received.isSome = true) : p.state ≠ .awaiting := by
  unfold state
  rw [if_pos h]
  nofun

/-- A read that has no entry any more has been taken up. -/
lemma At.takenUp {p : Phase} {news : Nat} (h : s.At r p news) (hearly : p.early = false) :
    s.TakenUp r := by
  unfold TakenUp
  rw [h.state, h.handling]
  cases p <;> first | exact .inr rfl | exact .inl (Phase.state_ne rfl) | cases hearly

lemma Over.takenUp {result : ReadResult} (h : s.Over r result) : s.TakenUp r := by
  left
  cases h.result with
  | inl h => rw [h.2]; nofun
  | inr h => rw [h.2]; nofun

namespace Over

variable {result : ReadResult}

lemma running (h : s.Over r result) : s.Running r := by
  unfold Running
  cases h.result with
  | inl h => rw [h.1]; rfl
  | inr h => rw [h.1]; rfl

end Over

/-! ### What the steps leave alone -/

/-- The event thread does not touch the calls and the owners, and gives nobody an entry. -/
structure Handled (s s' : Reads ρ) : Prop where
  calls : s'.calls = s.calls
  conversions : s'.conversions = s.conversions
  supplied : s'.supplied = s.supplied
  pendingReads : s.pendingReads = none → s'.pendingReads = none

lemma handled_handleNewValue : Handled s s.handleNewValue := by
  unfold handleNewValue
  split_ifs <;> exact ⟨rfl, rfl, rfl, id⟩

lemma handled_handleSelectionNotify {property : Bool} :
    Handled s (s.handleSelectionNotify property) := by
  unfold handleSelectionNotify
  split
  · exact ⟨rfl, rfl, rfl, id⟩
  · split_ifs <;> exact ⟨rfl, rfl, rfl, fun _ => rfl⟩

variable [DecidableEq ρ]

lemma handled_completePlainRead {buf : List UInt8} : Handled s (s.completePlainRead r buf) := by
  unfold completePlainRead
  split <;> exact ⟨rfl, rfl, rfl, id⟩

lemma handled_plainLoop {accumulated : List UInt8} {after : Nat} :
    Handled s (s.plainLoop r accumulated after) := by
  unfold plainLoop
  split_ifs
  · exact handled_completePlainRead
  · exact ⟨rfl, rfl, rfl, id⟩
  · exact ⟨rfl, rfl, rfl, id⟩

lemma handled_failReceive {error : ClipboardError} : Handled s (s.failReceive error) := by
  unfold failReceive
  split <;> exact ⟨rfl, rfl, rfl, id⟩

lemma handled_handlePeek {reply : Option PropertyReply} : Handled s (s.handlePeek r reply) := by
  cases reply with
  | none => exact ⟨rfl, rfl, rfl, id⟩
  | some peek =>
    unfold handlePeek
    dsimp only
    split_ifs
    · exact ⟨rfl, rfl, rfl, id⟩
    · exact ⟨rfl, rfl, rfl, id⟩
    · exact handled_plainLoop

lemma handled_handleNext {accumulated : List UInt8} {reply : Option PropertyReply} :
    Handled s (s.handleNext r accumulated reply) := by
  cases reply with
  | none => exact ⟨rfl, rfl, rfl, id⟩
  | some next => exact handled_plainLoop

lemma handled_handleChunk {reply : Option PropertyReply} : Handled s (s.handleChunk reply) := by
  cases reply with
  | none => exact handled_failReceive
  | some chunk =>
    unfold handleChunk
    dsimp only
    split
    · exact ⟨rfl, rfl, rfl, id⟩
    · split_ifs
      · exact { handled_completePlainRead with }
      · exact handled_failReceive
      · exact ⟨rfl, rfl, rfl, id⟩

lemma handled_handleReply {reply : Option PropertyReply} : Handled s (s.handleReply reply) := by
  unfold handleReply
  split
  · exact ⟨rfl, rfl, rfl, id⟩
  · exact ⟨rfl, rfl, rfl, id⟩
  · exact { handled_handlePeek with }
  · exact { handled_handleNext with }
  · exact { handled_handleChunk with }

/-- The steps that are neither of a call nor of an owner nor of the server are those of the event
thread and the watchdog. -/
lemma handled_next {a : Act ρ} (hcaller : a.caller = none) (hanswers : a.answers = none)
    (hserve : ∀ request, a ≠ .serve request) : Handled s (s.next a) := by
  cases a with
  | selectionNotify r property => exact { handled_handleSelectionNotify with }
  | completeRefused r => exact ⟨rfl, rfl, rfl, id⟩
  | newValue => exact { handled_handleNewValue with }
  | reply reply => exact { handled_handleReply with }
  | findOverdue => exact ⟨rfl, rfl, rfl, id⟩
  | failOverdue => exact { handled_failReceive with }
  | serve request => exact absurd rfl (hserve request)
  | begin r => cases hcaller
  | convert r => cases hcaller
  | timeOut r => cases hcaller
  | extract r result => cases hcaller
  | finish r result => cases hcaller
  | _ => cases hanswers

/-- The server and the owners leave the reads to the event thread. -/
structure Outside (s s' : Reads ρ) : Prop where
  calls : s'.calls = s.calls
  states : s'.states = s.states
  pendingReads : s'.pendingReads = s.pendingReads
  incrReceives : s'.incrReceives = s.incrReceives
  handling : s'.handling = s.handling

omit [DecidableEq ρ] in
lemma outside_serverDelete : Outside s s.serverDelete := by
  unfold serverDelete
  split_ifs <;> exact ⟨rfl, rfl, rfl, rfl, rfl⟩

lemma outside_serve {request : PropertyRequest} : Outside s (s.next (.serve request)) := by
  rw [next_serve]
  cases request with
  | deleteProperty => exact { outside_serverDelete with }
  | getProperty delete longOffset longLength =>
    unfold serve
    dsimp only
    split_ifs
    · exact { outside_serverDelete with }
    · exact ⟨rfl, rfl, rfl, rfl, rfl⟩

/-- The owners are told of a deletion, and of nothing else. -/
structure Told (s s' : Reads ρ) : Prop where
  supplied : s'.supplied = s.supplied
  conversions : ∀ r, s'.conversions r = s.conversions r ∨
    s'.conversions r = (s.conversions r).propertyDeleted

omit [DecidableEq ρ] in
lemma told_serverDelete : Told s s.serverDelete := by
  unfold serverDelete
  split_ifs
  · exact ⟨rfl, fun _ => .inr rfl⟩
  · exact ⟨rfl, fun _ => .inl rfl⟩

lemma told_serve {request : PropertyRequest} : Told s (s.next (.serve request)) := by
  rw [next_serve]
  cases request with
  | deleteProperty => exact { told_serverDelete with }
  | getProperty delete longOffset longLength =>
    unfold serve
    dsimp only
    split_ifs
    · exact { told_serverDelete with }
    · exact ⟨rfl, fun _ => .inl rfl⟩

lemma outside_owner {a : Act ρ} (h : a.answers ≠ none) : Outside s (s.next a) := by
  cases a <;> first | exact absurd rfl h | exact ⟨rfl, rfl, rfl, rfl, rfl⟩

/-- A step that is not of a call changes no call, and gives nobody an entry. -/
lemma aside_next {a : Act ρ} (hcaller : a.caller = none) :
    (s.next a).calls = s.calls ∧ (s.pendingReads = none → (s.next a).pendingReads = none) := by
  by_cases hanswers : a.answers = none
  · by_cases hserve : ∃ request, a = .serve request
    · obtain ⟨request, rfl⟩ := hserve
      have h : Outside s (s.next (.serve request)) := outside_serve
      exact ⟨h.calls, h.pendingReads.trans⟩
    · have h : Handled s (s.next a) :=
        handled_next hcaller hanswers fun request ha => hserve ⟨request, ha⟩
      exact ⟨h.calls, h.pendingReads⟩
  · have h : Outside s (s.next a) := outside_owner hanswers
    exact ⟨h.calls, h.pendingReads.trans⟩

/-! ### What has been supplied -/

lemma propertyDeleted_eq_unasked {c : Conversion} (h : c.propertyDeleted = .unasked) :
    c = .unasked := by
  cases c <;> first | rfl | cases h

lemma propertyDeleted_eq_asked {c : Conversion} (h : c.propertyDeleted = .asked) : c = .asked := by
  cases c <;> first | rfl | cases h

namespace Unanswered

/-- What a read has been answered with does not change. -/
lemma supplied_next (hs : s.Unanswered) {a : Act ρ} (he : s.Enabled a) {answer : Answer}
    (h : s.supplied r = some answer) : (s.next a).supplied r = some answer := by
  have hne : ∀ r', s.conversions r' = .asked → r ≠ r' := by
    rintro r' hasked rfl
    rw [hs.asked r (.inr hasked)] at h
    cases h
  cases a with
  | refuse r' => exact (Function.update_of_ne (hne r' he) ..).trans h
  | write r' content => exact (Function.update_of_ne (hne r' he) ..).trans h
  | mark r' chunks size => exact (Function.update_of_ne (hne r' he.1) ..).trans h
  | serve request => exact (congrFun told_serve.supplied r).trans h
  | begin r' =>
    unfold next
    dsimp only
    split_ifs <;> exact h
  | selectionNotify r' property =>
    have hhandled : Handled s (s.next (.selectionNotify r' property)) := handled_next rfl rfl nofun
    exact (congrFun hhandled.supplied r).trans h
  | newValue =>
    have hhandled : Handled s (s.next (.newValue)) := handled_next rfl rfl nofun
    exact (congrFun hhandled.supplied r).trans h
  | reply reply =>
    have hhandled : Handled s (s.next (.reply reply)) := handled_next rfl rfl nofun
    exact (congrFun hhandled.supplied r).trans h
  | failOverdue =>
    have hhandled : Handled s (s.next (.failOverdue)) := handled_next rfl rfl nofun
    exact (congrFun hhandled.supplied r).trans h
  | _ => exact h

lemma good_next (hs : s.Unanswered) {a : Act ρ} (he : s.Enabled a) {result : ReadResult}
    (h : s.Good r result) : (s.next a).Good r result := by
  intro text htext
  obtain ⟨answer, hsupplied, hcontent⟩ := h text htext
  exact ⟨answer, hs.supplied_next he hsupplied, hcontent⟩

omit [DecidableEq ρ] in
lemma of_handled (hs : s.Unanswered) (h : Handled s s') : s'.Unanswered where
  unasked r hr := by
    rw [h.conversions]
    rw [h.calls] at hr
    exact hs.unasked r hr
  asked r hr := by
    rw [h.supplied]
    rw [h.conversions] at hr
    exact hs.asked r hr

/-- A step of one read, which does not come back to its beginning. -/
lemma of_update (hs : s.Unanswered) {calls : ReadCall} {conversion : Conversion}
    {supplied : Option Answer} (hcalls : s'.calls = Function.update s.calls r calls)
    (hconversions : s'.conversions = Function.update s.conversions r conversion)
    (hsupplied : s'.supplied = Function.update s.supplied r supplied)
    (hunasked : calls = .notStarted ∨ calls = .inserted → conversion = .unasked)
    (hasked : conversion = .unasked ∨ conversion = .asked → supplied = none) : s'.Unanswered where
  unasked r' hr := by
    rw [hconversions]
    rw [hcalls] at hr
    by_cases hne : r' = r
    · subst hne
      rw [Function.update_self] at hr ⊢
      exact hunasked hr
    · rw [Function.update_of_ne hne] at hr ⊢
      exact hs.unasked r' hr
  asked r' hr := by
    rw [hsupplied]
    rw [hconversions] at hr
    by_cases hne : r' = r
    · subst hne
      rw [Function.update_self] at hr ⊢
      exact hasked hr
    · rw [Function.update_of_ne hne] at hr ⊢
      exact hs.asked r' hr

/-- An owner answers a read, which has been asked for. -/
lemma of_owner (hs : s.Unanswered) {c conversion : Conversion} {supplied : Option Answer}
    (hc : s.conversions r = c) (hne : c ≠ .unasked) (hcalls : s'.calls = s.calls)
    (hconversions : s'.conversions = Function.update s.conversions r conversion)
    (hsupplied : s'.supplied = Function.update s.supplied r supplied)
    (hanswered : conversion ≠ .unasked ∧ conversion ≠ .asked) : s'.Unanswered := by
  refine hs.of_update (hcalls.trans (Function.update_eq_self r s.calls).symm) hconversions
    hsupplied ?_ ?_
  · exact fun hr => absurd (hc.symm.trans (hs.unasked r hr)) hne
  · exact fun hr => (hr.elim hanswered.1 hanswered.2).elim

lemma next (hs : s.Unanswered) {a : Act ρ} (he : s.Enabled a) : (s.next a).Unanswered := by
  have hsame : ∀ {α : Type} (f : ρ → α) (r : ρ), f = Function.update f r (f r) :=
    fun f r => (Function.update_eq_self r f).symm
  cases a with
  | begin r =>
    have hunasked : s.conversions r = .unasked := hs.unasked r (.inl he)
    have hnone : s.supplied r = none := hs.asked r (.inl hunasked)
    unfold Reads.next
    dsimp only
    split_ifs
    · exact hs.of_update rfl (hsame ..) (hsame ..) (fun _ => hunasked) fun _ => hnone
    · exact hs.of_update rfl (hsame ..) (hsame ..) (fun _ => hunasked) fun _ => hnone
  | convert r =>
    have hunasked : s.conversions r = .unasked := hs.unasked r (.inr he)
    have hnone : s.supplied r = none := hs.asked r (.inl hunasked)
    exact hs.of_update rfl rfl (hsame ..) nofun fun _ => hnone
  | timeOut r =>
    exact hs.of_update rfl (hsame ..) (hsame ..) nofun (hs.asked r)
  | extract r result =>
    exact hs.of_update rfl (hsame ..) (hsame ..) nofun (hs.asked r)
  | finish r result =>
    exact hs.of_update rfl (hsame ..) (hsame ..) nofun (hs.asked r)
  | serve request =>
    have hcalls : (s.next (.serve request)).calls = s.calls := outside_serve.calls
    have htold : Told s (s.next (.serve request)) := told_serve
    refine ⟨fun r hr => ?_, fun r hr => ?_⟩
    · rw [hcalls] at hr
      have hunasked := hs.unasked r hr
      cases htold.conversions r with
      | inl h => exact h.trans hunasked
      | inr h => rw [h, hunasked]; rfl
    · rw [htold.supplied]
      cases htold.conversions r with
      | inl h => exact hs.asked r (h ▸ hr)
      | inr h =>
        rw [h] at hr
        exact hs.asked r (hr.imp propertyDeleted_eq_unasked propertyDeleted_eq_asked)
  | refuse r => exact hs.of_owner he nofun rfl rfl rfl ⟨nofun, nofun⟩
  | write r content => exact hs.of_owner he nofun rfl rfl rfl ⟨nofun, nofun⟩
  | notifyWritten r content => exact hs.of_owner he nofun rfl rfl (hsame ..) ⟨nofun, nofun⟩
  | mark r chunks size => exact hs.of_owner he.1 nofun rfl rfl rfl ⟨nofun, nofun⟩
  | notifyMarked r chunks mayWrite =>
    exact hs.of_owner he nofun rfl rfl (hsame ..) ⟨nofun, nofun⟩
  | sendChunk r chunk chunks => exact hs.of_owner he nofun rfl rfl (hsame ..) ⟨nofun, nofun⟩
  | sendEnd r => exact hs.of_owner he nofun rfl rfl (hsame ..) ⟨nofun, nofun⟩
  | selectionNotify r' property => exact hs.of_handled (handled_next rfl rfl nofun)
  | completeRefused r' => exact hs.of_handled (handled_next rfl rfl nofun)
  | newValue => exact hs.of_handled (handled_next rfl rfl nofun)
  | reply reply => exact hs.of_handled (handled_next rfl rfl nofun)
  | findOverdue => exact hs.of_handled (handled_next rfl rfl nofun)
  | failOverdue => exact hs.of_handled (handled_next rfl rfl nofun)

end Unanswered

namespace Over

variable {result : ReadResult}

omit [DecidableEq ρ] in
lemma of_outside (h : s.Over r result) (ho : Outside s s') : s'.Over r result where
  pendingReads := ho.pendingReads.trans h.pendingReads
  incrReceives := ho.incrReceives.trans h.incrReceives
  handling := by rw [ho.handling]; exact h.handling
  result := by rw [ho.calls, ho.states]; exact h.result

/-- Nothing that the event thread still has to do is about a read. -/
lemma handled (h : s.Over r result) {a : Act ρ} (he : s.Enabled a) (hcaller : a.caller = none)
    (hanswers : a.answers = none) (hserve : ∀ request, a ≠ .serve request) :
    (s.next a).Over r result := by
  cases a with
  | selectionNotify r' property =>
    have hnext : s.next (.selectionNotify r' property) = { s with events := s.events.tail } := by
      unfold next handleSelectionNotify
      dsimp only
      rw [h.pendingReads]
    rw [hnext]
    exact { h with }
  | completeRefused r' =>
    have hrefusing : s.handling = .refusing r' := he
    cases h.handling with
    | inl hidle => cases hidle.symm.trans hrefusing
    | inr hreceiving => cases hreceiving.symm.trans hrefusing
  | newValue =>
    have hnext : s.next .newValue = { s with events := s.events.tail } := by
      unfold next handleNewValue
      dsimp only
      rw [h.incrReceives]
      rfl
    rw [hnext]
    exact { h with }
  | reply reply =>
    cases h.handling with
    | inl hidle =>
      have hnext : s.next (.reply reply) = { s with reply := none } := by
        unfold next handleReply
        dsimp only
        rw [hidle]
      rw [hnext]
      exact { h with }
    | inr hreceiving =>
      have hnext : s.next (.reply reply) = { s with reply := none, handling := .idle } := by
        unfold next handleReply
        dsimp only
        rw [hreceiving]
        unfold handleChunk failReceive
        dsimp only
        rw [h.incrReceives]
        cases reply <;> rfl
      rw [hnext]
      exact { h with handling := .inl rfl }
  | findOverdue => exact absurd h.incrReceives he
  | failOverdue =>
    have hnext : s.next .failOverdue = { s with overdue := false } := by
      unfold next failReceive
      dsimp only
      rw [h.incrReceives]
    rw [hnext]
    exact { h with }
  | serve request => exact absurd rfl (hserve request)
  | begin r => cases hcaller
  | convert r => cases hcaller
  | timeOut r => cases hcaller
  | extract r result => cases hcaller
  | finish r result => cases hcaller
  | _ => cases hanswers

end Over

lemma At.failOverdue {p : Phase} {news : Nat} (h : s.At r p news) :
    (s.next .failOverdue).At r p news ∨
      (s.next .failOverdue).Over r (.error noNextChunk) := by
  cases hreceived : p.received with
  | none =>
    have hnext : s.next .failOverdue = { s with overdue := false } := by
      unfold next failReceive
      dsimp only
      rw [h.incrReceives, hreceived]
      rfl
    rw [hnext]
    exact .inl { h with }
  | some accumulated =>
    have hnext : s.next .failOverdue =
        { s with overdue := false, incrReceives := none }.complete r (.error noNextChunk) := by
      unfold next failReceive
      dsimp only
      rw [h.incrReceives, hreceived]
      rfl
    have hpending : s.pendingReads = none := by
      rw [h.pendingReads]
      cases p <;> first | rfl | cases hreceived
    have hhandling : s.handling = .idle ∨ s.handling = .receiving := by
      rw [h.handling]
      cases p <;> first | exact .inl rfl | exact .inr rfl | cases hreceived
    have hcall : s.calls r = .waiting := by
      rw [h.call]
      cases p <;> first | rfl | cases hreceived
    rw [hnext]
    exact .inr ⟨hpending, rfl, hhandling, .inl ⟨hcall, Function.update_self ..⟩⟩

/-! ### Situations -/

omit [DecidableEq ρ] in
lemma only_congr (h : s'.calls = s.calls) (honly : ∀ r', s.Running r' → r' = r) :
    ∀ r', s'.Running r' → r' = r := fun r' hr => honly r' ((running_congr h).mp hr)

/-- The only call that runs returns. -/
lemma quiet_of_returned {result : ReadResult} (honly : ∀ r', s.Running r' → r' = r)
    (h : s'.calls = Function.update s.calls r (.returned result)) : ∀ r', ¬s'.Running r' := by
  intro r' hr
  unfold Running at hr
  rw [h] at hr
  by_cases hne : r' = r
  · rw [hne, Function.update_self] at hr
    cases hr
  · rw [Function.update_of_ne hne] at hr
    exact hne (honly r' hr)

/-- Another call, if there was any, has returned at once. -/
lemma only_of_update {r' : ρ} {call : ReadCall} (honly : ∀ r'', s.Running r'' → r'' = r)
    (h : s'.calls = Function.update s.calls r' call) (hcall : call.running = true → r' = r) :
    ∀ r'', s'.Running r'' → r'' = r := by
  intro r'' hr
  unfold Running at hr
  rw [h] at hr
  by_cases hne : r'' = r'
  · rw [hne, Function.update_self] at hr
    exact hne.trans (hcall hr)
  · rw [Function.update_of_ne hne] at hr
    exact honly r'' hr

namespace Situation

lemma next_quiet (hu : s.Unanswered) (hquiet : ∀ r, ¬s.Running r)
    (hpending : s.pendingReads = none) {a : Act ρ} (he : s.Enabled a) (hcareful : s.Careful a) :
    (s.next a).Situation := by
  by_cases hcaller : a.caller = none
  · obtain ⟨hcalls, hkept⟩ := aside_next (s := s) hcaller
    exact .quiet (fun r hr => hquiet r ((running_congr hcalls).mp hr)) (hkept hpending)
  · cases a with
    | begin r =>
      have hclear : s.Clear := hcareful.2 hquiet
      have hnext : s.next (.begin r) = { s with
          pendingReads := some r
          states := Function.update s.states r .awaiting
          calls := Function.update s.calls r .inserted } := by
        unfold next
        dsimp only
        rw [hpending]
        rfl
      rw [hnext]
      have hunasked : s.conversions r = .unasked := hu.unasked r (.inl he)
      refine .reading r .inserted s.events.length ?_ ?_
      · exact {
          call := Function.update_self ..
          state := Function.update_self ..
          pendingReads := rfl
          incrReceives := hclear.incrReceives
          handling := hclear.handling
          requests := hclear.requests
          reply := hclear.reply
          property := nofun
          deleted := nofun
          events := (List.eq_replicate_iff.mpr ⟨rfl, hclear.events⟩).trans (List.append_nil _).symm
          conversion := hunasked
          supplied := hu.asked r (.inl hunasked)
          valid := nofun
          fits := trivial
          early := .inr rfl }
      · exact only_of_update (s := s) (fun r' hr => absurd hr (hquiet r')) rfl fun _ => rfl
    | convert r => exact absurd (congrArg ReadCall.running he) (hquiet r)
    | timeOut r => exact absurd (congrArg ReadCall.running he.1) (hquiet r)
    | extract r result => exact absurd (congrArg ReadCall.running he.1) (hquiet r)
    | finish r result => exact absurd (congrArg ReadCall.running he) (hquiet r)
    | _ => exact absurd rfl hcaller

/-- Another read is refused while the one that runs has its entry. -/
lemma next_refused {p : Phase} {news : Nat} {r' : ρ} (h : s.At r p news)
    (honly : ∀ r', s.Running r' → r' = r) (he : s.Enabled (.begin r'))
    (hcareful : s.Careful (.begin r')) : (s.next (.begin r')).Situation := by
  have hearly : p.early = true := by
    by_contra hlate
    exact hcareful.1 r h.running (h.takenUp (Bool.eq_false_iff.mpr hlate))
  have hne : r ≠ r' := by
    rintro rfl
    have hnot : s.calls r = .notStarted := he
    have hrunning := h.running
    unfold Running at hrunning
    rw [hnot] at hrunning
    cases hrunning
  have hnext : s.next (.begin r') = s.setCall r' (.returned (.error alreadyInProgress)) := by
    unfold next
    dsimp only
    rw [h.pendingReads, hearly]
    rfl
  rw [hnext]
  refine .reading r p news ?_ (only_of_update honly rfl nofun)
  exact { h with call := (Function.update_of_ne hne ..).trans h.call }

/-- The owner goes on with its answer to the read. -/
lemma next_answering {p : Phase} {news : Nat} (h : s.At r p news) {a : Act ρ} (he : s.Enabled a)
    (hanswers : a.answers = some r) : ∃ p' news', (s.next a).At r p' news' := by
  cases a with
  | refuse r' =>
    obtain rfl := Option.some.inj hanswers
    obtain rfl : p = .waiting := Phase.of_conversion (h.conversion.symm.trans he)
    exact ⟨_, news, h.refuse⟩
  | write r' content =>
    obtain rfl := Option.some.inj hanswers
    obtain rfl : p = .waiting := Phase.of_conversion (h.conversion.symm.trans he)
    exact ⟨_, news + 1, h.setAnswer (.whole content) rfl trivial⟩
  | notifyWritten r' content =>
    obtain rfl := Option.some.inj hanswers
    obtain rfl : p = .set (.whole content) := Phase.of_conversion (h.conversion.symm.trans he)
    exact ⟨_, news, h.notify⟩
  | mark r' chunks size =>
    obtain rfl := Option.some.inj hanswers
    obtain rfl : p = .waiting := Phase.of_conversion (h.conversion.symm.trans he.1)
    exact ⟨_, news + 1, h.setAnswer (.increments chunks size) rfl he.2⟩
  | notifyMarked r' chunks mayWrite =>
    obtain rfl := Option.some.inj hanswers
    obtain ⟨rfl, size, rfl⟩ := Phase.of_conversion (h.conversion.symm.trans he)
    exact ⟨_, news, h.notify⟩
  | sendChunk r' chunk chunks =>
    obtain rfl := Option.some.inj hanswers
    obtain ⟨p', hat⟩ := h.increment (h.conversion.symm.trans he)
    exact ⟨p', 0, hat⟩
  | sendEnd r' =>
    obtain rfl := Option.some.inj hanswers
    obtain ⟨p', hat⟩ := h.increment (h.conversion.symm.trans he)
    exact ⟨p', 0, hat⟩
  | _ => cases hanswers

lemma next_reading {p : Phase} {news : Nat} (h : s.At r p news)
    (honly : ∀ r', s.Running r' → r' = r) {a : Act ρ} (he : s.Enabled a) (hcareful : s.Careful a) :
    (s.next a).Situation := by
  have howner : ∀ r', a.answers = some r' → r' = r := by
    intro r' hanswers
    have hrunning : s.Running r' ∨ ∀ r', ¬s.Running r' := by
      cases a with
      | begin r => cases hanswers
      | _ => exact hcareful r' hanswers
    cases hrunning with
    | inl hr => exact honly r' hr
    | inr hquiet => exact absurd h.running (hquiet r)
  have haside : ∀ p' news', (s.next a).At r p' news' → a.caller = none → (s.next a).Situation :=
    fun p' news' hat hcaller =>
      .reading r p' news' hat (only_congr (aside_next hcaller).1 honly)
  have hcompleted : ∀ answer result, (s.next a).Completed r answer result → a.caller = none →
      (s.next a).Situation := fun answer result hc hcaller =>
    .finished r result hc.finished hc.good (only_congr (aside_next hcaller).1 honly)
  cases a with
  | begin r' => exact next_refused h honly he hcareful
  | convert r' =>
    obtain rfl := honly r' (congrArg ReadCall.running he)
    exact .reading r' .waiting news (h.convert he) (only_of_update honly rfl fun _ => rfl)
  | timeOut r' =>
    obtain rfl := honly r' (congrArg ReadCall.running he.1)
    exact .quiet (quiet_of_returned honly rfl) rfl
  | extract r' result =>
    obtain rfl := honly r' (congrArg ReadCall.running he.1)
    have hdone := h.state.symm.trans he.2
    unfold Phase.state at hdone
    split_ifs at hdone
  | finish r' result =>
    obtain rfl := honly r' (congrArg ReadCall.running he)
    have hextracted := h.call.symm.trans he
    cases p <;> cases hextracted
  | selectionNotify r' property =>
    obtain ⟨_, p', hat⟩ := h.selectionNotify he
    exact haside p' 0 hat rfl
  | completeRefused r' => exact hcompleted _ _ (h.completeRefused he) rfl
  | newValue =>
    obtain ⟨p', news', hat⟩ := h.newValue he
    exact haside p' news' hat rfl
  | reply reply =>
    cases h.handleReply he with
    | inl hfollows =>
      obtain ⟨p', hat⟩ := hfollows
      exact haside p' news hat rfl
    | inr hfollows =>
      obtain ⟨answer, result, hc⟩ := hfollows
      exact hcompleted answer result hc rfl
  | findOverdue => exact haside p news { h with } rfl
  | failOverdue =>
    cases h.failOverdue with
    | inl hat => exact haside p news hat rfl
    | inr hover => exact .finished r _ hover nofun (only_congr (aside_next rfl).1 honly)
  | serve request =>
    obtain ⟨p', hat⟩ := h.serve he
    exact haside p' news hat rfl
  | refuse r' | write r' _ | notifyWritten r' _ | mark r' _ _ | notifyMarked r' _ _
  | sendChunk r' _ _ | sendEnd r' =>
    obtain rfl := howner r' rfl
    obtain ⟨p', news', hat⟩ := next_answering h he rfl
    exact haside p' news' hat rfl

lemma next_over {result : ReadResult} (hu : s.Unanswered) (h : s.Over r result)
    (hgood : s.Good r result) (honly : ∀ r', s.Running r' → r' = r) {a : Act ρ} (he : s.Enabled a)
    (hcareful : s.Careful a) : (s.next a).Situation := by
  have hgood' : (s.next a).Good r result := hu.good_next he hgood
  by_cases hcaller : a.caller = none
  · have honly' := only_congr (aside_next (s := s) hcaller).1 honly
    by_cases hanswers : a.answers = none
    · by_cases hserve : ∃ request, a = .serve request
      · obtain ⟨request, rfl⟩ := hserve
        exact .finished r result (h.of_outside outside_serve) hgood' honly'
      · have hhandled := h.handled he hcaller hanswers fun request ha => hserve ⟨request, ha⟩
        exact .finished r result hhandled hgood' honly'
    · exact .finished r result (h.of_outside (outside_owner hanswers)) hgood' honly'
  · cases a with
    | begin r' => exact absurd h.takenUp (hcareful.1 r h.running)
    | convert r' =>
      obtain rfl := honly r' (congrArg ReadCall.running he)
      have hinserted : s.calls r' = .inserted := he
      cases h.result with
      | inl hdone => cases hdone.1.symm.trans hinserted
      | inr hextracted => cases hextracted.1.symm.trans hinserted
    | timeOut r' =>
      obtain rfl := honly r' (congrArg ReadCall.running he.1)
      exact .quiet (quiet_of_returned honly rfl) rfl
    | extract r' result' =>
      obtain rfl := honly r' (congrArg ReadCall.running he.1)
      cases h.result with
      | inl hdone =>
        cases hdone.2.symm.trans he.2
        refine .finished r' result ⟨h.pendingReads, h.incrReceives, h.handling, .inr ?_⟩ hgood' ?_
        · exact ⟨Function.update_self .., Function.update_self ..⟩
        · exact only_of_update honly rfl fun _ => rfl
      | inr hextracted => cases hextracted.1.symm.trans he.1
    | finish r' result' =>
      obtain rfl := honly r' (congrArg ReadCall.running he)
      exact .quiet (quiet_of_returned honly rfl) rfl
    | _ => exact absurd rfl hcaller

/-- One careful step. -/
lemma next (hs : s.Situation) (hu : s.Unanswered) {a : Act ρ} (he : s.Enabled a)
    (hcareful : s.Careful a) : (s.next a).Situation := by
  cases hs with
  | quiet hquiet hpending => exact next_quiet hu hquiet hpending he hcareful
  | reading r p news h honly => exact next_reading h honly he hcareful
  | finished r result h hgood honly => exact next_over hu h hgood honly he hcareful

end Situation

/-! ### Runs -/

omit [DecidableEq ρ] in
/-- The result of an only read that has been taken out is the one that it came to. -/
lemma Situation.good (hs : s.Situation) {result : ReadResult} (h : s.calls r = .extracted result) :
    s.Good r result := by
  have hrunning : s.Running r := congrArg ReadCall.running h
  cases hs with
  | quiet hquiet _ => exact absurd hrunning (hquiet r)
  | reading r' p news hat honly =>
    obtain rfl := honly r hrunning
    have hp := hat.call.symm.trans h
    cases p <;> cases hp
  | finished r' result' hover hgood honly =>
    obtain rfl := honly r hrunning
    cases hover.result with
    | inl hdone => cases hdone.1.symm.trans h
    | inr hextracted =>
      obtain rfl := ReadCall.extracted.inj (hextracted.1.symm.trans h)
      exact hgood

/-- What is known in every state that careful steps lead to. -/
structure Known (s : Reads ρ) : Prop where
  unanswered : s.Unanswered
  situation : s.Situation
  returned : ∀ r result, s.calls r = .returned result → s.Good r result

namespace Known

lemma next (hs : s.Known) {a : Act ρ} (he : s.Enabled a) (hcareful : s.Careful a) :
    (s.next a).Known := by
  refine ⟨hs.unanswered.next he, hs.situation.next hs.unanswered he hcareful, ?_⟩
  intro r result hr
  apply hs.unanswered.good_next he
  have hold : ∀ {r' call}, (s.next a).calls = Function.update s.calls r' call →
      (call = .returned result → s.Good r' result) → s.Good r result := by
    intro r' call hcalls hcall
    rw [hcalls] at hr
    by_cases hne : r = r'
    · subst hne
      rw [Function.update_self] at hr
      exact hcall hr
    · rw [Function.update_of_ne hne] at hr
      exact hs.returned r result hr
  cases a with
  | begin r' =>
    unfold Reads.next at hold
    dsimp only at hold
    split_ifs at hold
    · exact hold rfl fun h => by cases h; nofun
    · exact hold rfl nofun
  | convert r' => exact hold rfl nofun
  | timeOut r' => exact hold rfl fun h => by cases h; nofun
  | extract r' result' => exact hold rfl nofun
  | finish r' result' =>
    exact hold rfl fun h => by
      cases h
      exact hs.situation.good he
  | _ =>
    rw [(aside_next rfl).1] at hr
    exact hs.returned r result hr

end Known

omit [DecidableEq ρ] in
lemma Initial.known (h : s.Initial) : s.Known where
  unanswered := ⟨fun r _ => h.conversions r, fun r _ => h.supplied r⟩
  situation := .quiet (fun r hr => by
    unfold Running at hr
    rw [h.calls r] at hr
    cases hr) h.pendingReads
  returned r result hr := by
    rw [h.calls r] at hr
    cases hr

/-- The step by which a call ends. -/
def Act.ends : Act ρ → Option ρ
  | .timeOut r => some r
  | .finish r _ => some r
  | _ => none

/-- No read has the text of another one, and no other one's entry is taken. -/
structure Uncrossed (s : Reads ρ) : Prop where
  text : ∀ r text, s.calls r = .returned (.ok (some text)) →
    ∃ answer, s.supplied r = some answer ∧ answer.content = some (utf8 text)
  refused : ∀ r r', s.Running r → s.Enabled (.begin r') → s.Careful (.begin r') →
    (s.next (.begin r')).calls r' = .returned (.error alreadyInProgress)
  kept : ∀ a r r', a.ends = some r → s.Enabled a → r' ≠ r → s.pendingReads = some r' →
    (s.next a).pendingReads = some r'
  answered : ∀ r r' property, s.Enabled (.selectionNotify r property) →
    s.pendingReads = some r' → r' = r

omit [DecidableEq ρ] in
/-- The entry is that of the only read. -/
lemma Situation.running_of_entry (hs : s.Situation) (h : s.pendingReads = some r) :
    s.Running r ∧ ∀ r', s.Running r' → r' = r := by
  cases hs with
  | quiet _ hpending => cases hpending.symm.trans h
  | reading r' p news hat honly =>
    have hpending := hat.pendingReads.symm.trans h
    split_ifs at hpending
    obtain rfl := Option.some.inj hpending
    exact ⟨hat.running, honly⟩
  | finished r' result hover _ _ => cases hover.pendingReads.symm.trans h

lemma Known.uncrossed (hs : s.Known) : s.Uncrossed where
  text r text hr := hs.returned r _ hr text rfl
  refused r r' hr he hcareful := by
    cases hs.situation with
    | quiet hquiet _ => exact absurd hr (hquiet r)
    | reading r'' p news hat honly =>
      obtain rfl := honly r hr
      have hearly : p.early = true := by
        by_contra hlate
        exact hcareful.1 r hr (hat.takenUp (Bool.eq_false_iff.mpr hlate))
      unfold Reads.next
      dsimp only
      rw [hat.pendingReads, hearly]
      exact Function.update_self ..
    | finished r'' result hover _ honly =>
      obtain rfl := honly r hr
      exact absurd hover.takenUp (hcareful.1 r hr)
  kept a r r' hends he hne hpending := by
    have honly := (hs.situation.running_of_entry hpending).2
    cases a with
    | timeOut r'' =>
      obtain rfl := Option.some.inj hends
      exact absurd (honly r'' (congrArg ReadCall.running he.1)).symm hne
    | finish r'' result =>
      obtain rfl := Option.some.inj hends
      exact absurd (honly r'' (congrArg ReadCall.running he)).symm hne
    | _ => cases hends
  answered r r' property he hpending := by
    cases hs.situation with
    | quiet _ hnone => cases hnone.symm.trans hpending
    | reading r'' p news hat honly =>
      obtain rfl := honly r' (hs.situation.running_of_entry hpending).1
      exact (hat.selectionNotify he).1.symm
    | finished r'' result hover _ _ => cases hover.pendingReads.symm.trans hpending

/-- In every run of careful steps no reads cross. -/
theorem reads_uncrossed {s₀ : Reads ρ} (h₀ : s₀.Initial)
    (hrun : ReflTransGen (Step Careful) s₀ s) : s.Uncrossed := by
  have hs : s.Known := by
    induction hrun with
    | refl => exact h₀.known
    | tail _ hstep ih =>
      obtain ⟨a, he, hcareful, rfl⟩ := hstep
      exact ih.next he hcareful
  exact hs.uncrossed

instance (s : Reads Bool) (r : Bool) : Decidable (s.Running r) := by
  unfold Running
  infer_instance

instance (s : Reads Bool) (r : Bool) : Decidable (s.TakenUp r) := by
  unfold TakenUp
  infer_instance

instance (s : Reads Bool) : Decidable s.Clear :=
  decidable_of_iff ((∀ event ∈ s.events, event = .newValue) ∧ s.handling = .idle ∧
      s.requests = [] ∧ s.reply = none ∧ s.incrReceives = none)
    ⟨fun h => ⟨h.1, h.2.1, h.2.2.1, h.2.2.2.1, h.2.2.2.2⟩, fun h => ⟨h.1, h.2, h.3, h.4, h.5⟩⟩

instance (s : Reads Bool) (a : Act Bool) : Decidable (s.Careful a) := by
  unfold Careful
  split <;> infer_instance

/-- Two reads that have not begun. -/
def unread : Reads Bool where
  calls _ := .notStarted
  states _ := .awaiting
  pendingReads := none
  incrReceives := none
  overdue := false
  handling := .idle
  requests := []
  reply := none
  property := none
  events := []
  conversions _ := .unasked
  supplied _ := none

lemma initial_unread : unread.Initial :=
  ⟨fun _ => rfl, rfl, rfl, rfl, rfl, rfl, rfl, rfl, fun _ => rfl, fun _ => rfl⟩

/-- An owner answers with one letter, and the answer is handled. -/
def answering (r : Bool) : List (Act Bool) :=
  [.write r [97], .notifyWritten r [97], .newValue, .selectionNotify r true,
    .serve (.getProperty false 0 8), .reply (some ⟨false, [97], 0⟩)]

def returning (r : Bool) : List (Act Bool) :=
  [.extract r (.ok (some "a".toList)), .finish r (.ok (some "a".toList))]

def readOnce : List (Act Bool) := [.begin true, .convert true] ++ answering true ++ returning true

def readUnanswered : List (Act Bool) := [.begin false, .convert false]

/-- A second read is refused while the first one waits; when that has timed out, the second one
begins, and returns its own answer. -/
theorem reads_uncrossed_next :
    let waiting := readUnanswered.foldl (fun s a => s.next a) unread
    let s := (readUnanswered ++ .timeOut false :: readOnce).foldl (fun s a => s.next a) unread
    (waiting.next (.begin true)).calls true = .returned (.error alreadyInProgress) ∧
      s.calls false = .returned (.error noResponse) ∧
      ∃ answer, s.supplied true = some answer ∧ answer.content = some (utf8 "a".toList) := by
  intro waiting s
  have hfirst : unread.Runs Careful readUnanswered := by decide +kernel
  have hboth : unread.Runs Careful (readUnanswered ++ .timeOut false :: readOnce) := by
    decide +kernel
  refine ⟨?_, by decide +kernel, ?_⟩
  · exact (reads_uncrossed initial_unread hfirst.reaches).refused false true (by decide +kernel)
      (by decide +kernel) (by decide +kernel)
  · have hreturned : s.calls true = .returned (.ok (some "a".toList)) := by decide +kernel
    exact (reads_uncrossed initial_unread hboth.reaches).text true _ hreturned

/-- The owner answers the first read when it has timed out, and the second one waits. -/
def readLate : List (Act Bool) :=
  [.begin false, .convert false, .timeOut false, .begin true, .convert true] ++
    answering false ++ returning true

/-- The first read is promoted, the second one begins, and the first one times out. -/
def readPromoted : List (Act Bool) :=
  [.begin false, .convert false, .mark false [[97]] [], .notifyMarked false [[97]] false,
    .newValue, .selectionNotify false true, .serve (.getProperty false 0 8),
    .reply (some ⟨true, [], 0⟩), .begin true]

/-- A read returns what another one was answered with, and a read that waits for increments does not
keep another one from beginning, whose entry it takes when it times out. -/
theorem reads_cross :
    (∃ s₀ s : Reads Bool, s₀.Initial ∧ ReflTransGen (Step fun _ _ => True) s₀ s ∧
      s.calls true = .returned (.ok (some "a".toList)) ∧ s.supplied true = none) ∧
    ∃ s₀ s : Reads Bool, s₀.Initial ∧ ReflTransGen (Step fun _ _ => True) s₀ s ∧
      s.Running false ∧ s.Running true ∧ s.Enabled (.timeOut false) ∧
      s.pendingReads = some true ∧ (s.next (.timeOut false)).pendingReads = none := by
  have hlate : unread.Runs (fun _ _ => True) readLate := by decide +kernel
  have hpromoted : unread.Runs (fun _ _ => True) readPromoted := by decide +kernel
  constructor
  · exact ⟨unread, _, initial_unread, hlate.reaches, by decide +kernel, by decide +kernel⟩
  · exact ⟨unread, _, initial_unread, hpromoted.reaches, by decide +kernel, by decide +kernel,
      by decide +kernel, by decide +kernel, by decide +kernel⟩

end Reads

end Invisibool.Clipboard
