import Invisibool.Clipboard.Crossing
import Invisibool.System.Transition

/-!
# A read on its own

One call of `read_text`, with an owner that answers it in its own time, and no timeout. The read
comes to its end, and what it returns is the answer or an error, unless the first increment alone
is too long: such an increment is looked at and not deleted, and the owner waits for that.
-/

namespace Invisibool.Clipboard
open Text Relation

/-- Increments that the event thread does not refuse when they are announced, and of which the
first one is too long. -/
def Answer.Oversized : Answer → Prop
  | increments chunks size => Reads.tooLargeHint size = false ∧
      ∃ chunk ∈ chunks.head?, maxClipboardBytes < chunk.length
  | _ => False

def PropertyRequest.longLength : PropertyRequest → Nat
  | deleteProperty => 0
  | getProperty _ _ longLength => longLength

def ReadCall.weight : ReadCall → Nat
  | notStarted => 4
  | inserted => 3
  | waiting => 2
  | extracted _ => 1
  | returned _ => 0

def ReadEvent.weight {ρ : Type} : ReadEvent ρ → Nat
  | selectionNotify _ _ => 6
  | newValue => 3

/-- How far an owner is from having decided what to answer with. -/
def Conversion.stage : Conversion → Nat
  | unasked => 2
  | asked => 1
  | _ => 0

def Conversion.weight : Conversion → Nat
  | written _ => 7
  | marked chunks _ => 11 + 4 * chunks.length
  | sending chunks _ => 4 + 4 * chunks.length
  | _ => 0

/-- What is still to be done about an answer whose first look is on its way, or that is refused. -/
def Handling.weight {ρ : Type} : Handling ρ → Nat
  | refusing _ => 1
  | peeking _ => 3
  | _ => 0

namespace Reads

variable {ρ : Type}

section

variable (r : ρ) (s : Reads ρ)

/-- No other read is made, and nothing times out. -/
def Alone (_ : Reads ρ) : Act ρ → Prop
  | .begin r' => r' = r
  | .timeOut _ => False
  | .findOverdue => False
  | .failOverdue => False
  | _ => True

/-- The read has its result, which it may have returned, and owners can only send increments that
nobody waits for. -/
structure Ended (answer : Answer) (result : ReadResult) : Prop where
  call : s.calls r = .waiting ∧ s.states r = .done result ∨
    s.calls r = .extracted result ∨ s.calls r = .returned result
  pendingReads : s.pendingReads = none
  incrReceives : s.incrReceives = none
  supplied : s.supplied r = some answer
  conversion : s.conversions r = .closed ∨ ∃ chunks mayWrite,
    s.conversions r = .sending chunks mayWrite
  right : answer.Exact result ∨ ¬answer.Honest ∧ ∃ message, result = .error (.readFailed message)
  residue : s.Residue r answer
  short : ¬answer.Oversized

/-- The read has not begun, is at a phase, or has ended. -/
inductive Course : Prop
  | fresh : s.Initial → Course
  | reading (p : Phase) (news : Nat) : s.At r p news → Course
  | ended (answer : Answer) (result : ReadResult) : s.Ended r answer result → Course

/-- No request asks for more than the limit, and no reply has more. -/
structure Bounded : Prop where
  requests : ∀ request ∈ s.requests, request.longLength ≤ maxClipboardBytes / 4
  reply : ∀ reply, s.reply = some (some reply) → reply.value.length ≤ maxClipboardBytes

/-- What is known all along a run in which there is one read. -/
structure Lone : Prop where
  unanswered : s.Unanswered
  others : ∀ r', r' ≠ r → s.calls r' = .notStarted
  bounded : s.Bounded
  course : Course r s

end

/-! ### The first increment -/

/-- If something has been received, or what comes next is not too long, the first increment is not
too long. -/
lemma Transfer.not_oversized {t : Transfer}
    (h : t.received ≠ [] ∨ t.value.length ≤ maxClipboardBytes) : ¬t.answer.Oversized := by
  rintro ⟨_, chunk, hchunk, hlong⟩
  have hfits := t.fits
  cases hreceived : t.received with
  | nil =>
    have hvalue := h.resolve_left (not_not_intro hreceived)
    rw [hreceived, List.nil_append] at hchunk
    obtain ⟨later, hchunks⟩ := List.head?_eq_some_iff.mp hchunk
    rw [Transfer.value_cons hchunks] at hvalue
    exact absurd hlong (not_lt.mpr hvalue)
  | cons first received =>
    rw [hreceived] at hchunk hfits
    obtain rfl := Option.some.inj hchunk
    rw [List.flatten_cons, List.length_append] at hfits
    omega

variable [DecidableEq ρ] {s s' : Reads ρ} {r : ρ}

/-! ### The work of the event thread -/

/-- A handler sends one request at most, which does not ask for too much. -/
structure Worked (s s' : Reads ρ) : Prop where
  events : s'.events = s.events
  reply : s'.reply = s.reply
  requests : s'.requests = s.requests ∨ ∃ request, s'.requests = s.requests ++ [request] ∧
    request.longLength ≤ maxClipboardBytes / 4
  handling : s'.handling.weight ≤ s.handling.weight

namespace Worked

omit [DecidableEq ρ] in
lemma of_eq (hevents : s'.events = s.events) (hreply : s'.reply = s.reply)
    (hrequests : s'.requests = s.requests) (hhandling : s'.handling = s.handling) : Worked s s' :=
  ⟨hevents, hreply, .inl hrequests, hhandling ▸ le_rfl⟩

omit [DecidableEq ρ] in
lemma ask {handling : Handling ρ} {delete : Bool} {longOffset longLength : Nat}
    (hlength : longLength ≤ maxClipboardBytes / 4) (hhandling : handling.weight = 0) :
    Worked s (s.ask handling delete longOffset longLength) where
  events := rfl
  reply := rfl
  requests := .inr ⟨.getProperty delete longOffset longLength, rfl, hlength⟩
  handling := by
    change handling.weight ≤ _
    rw [hhandling]
    exact Nat.zero_le _

lemma completePlainRead {buf : List UInt8} : Worked s (s.completePlainRead r buf) := by
  unfold Reads.completePlainRead
  split <;> exact of_eq rfl rfl rfl rfl

lemma plainLoop {accumulated : List UInt8} {after : Nat} :
    Worked s (s.plainLoop r accumulated after) := by
  unfold Reads.plainLoop
  split_ifs
  · exact completePlainRead
  · exact of_eq rfl rfl rfl rfl
  · exact ask (Nat.le_refl (maxClipboardBytes / 4)) rfl

lemma failReceive {error : ClipboardError} : Worked s (s.failReceive error) := by
  unfold Reads.failReceive
  split <;> exact of_eq rfl rfl rfl rfl

lemma handlePeek {reply : Option PropertyReply} : Worked s (s.handlePeek r reply) := by
  cases reply with
  | none => exact of_eq rfl rfl rfl rfl
  | some peek =>
    unfold Reads.handlePeek
    dsimp only
    split_ifs
    · exact of_eq rfl rfl rfl rfl
    · exact ⟨rfl, rfl, .inr ⟨.deleteProperty, rfl, Nat.zero_le _⟩, Nat.le_refl _⟩
    · exact plainLoop

lemma handleChunk {reply : Option PropertyReply} : Worked s (s.handleChunk reply) := by
  cases reply with
  | none => exact failReceive
  | some chunk =>
    unfold Reads.handleChunk
    dsimp only
    split
    · exact of_eq rfl rfl rfl rfl
    · split_ifs
      · exact { completePlainRead with }
      · exact failReceive
      · exact of_eq rfl rfl rfl rfl

omit [DecidableEq ρ] in
lemma handleNewValue : Worked s s.handleNewValue := by
  unfold Reads.handleNewValue
  split_ifs
  · exact ask (Nat.le_refl (maxClipboardBytes / 4)) rfl
  · exact of_eq rfl rfl rfl rfl

/-- Once the first look has been had at, nothing but requests is left of it. -/
lemma handleReply {reply : Option PropertyReply} (hrefusing : ∀ r, s.handling ≠ .refusing r) :
    Worked { s with handling := .idle } (s.handleReply reply) := by
  unfold Reads.handleReply
  split
  · rename_i hidle
    exact of_eq rfl rfl rfl hidle
  · rename_i hr
    exact absurd hr (hrefusing _)
  · exact handlePeek
  · cases reply with
    | none => exact of_eq rfl rfl rfl rfl
    | some next => exact plainLoop
  · exact handleChunk

end Worked

/-! ### Bounds of the replies -/

namespace Bounded

omit [DecidableEq ρ] in
lemma of_worked (hs : s.Bounded) (h : Worked s s') : s'.Bounded where
  requests request hrequest := by
    cases h.requests with
    | inl hsame => exact hs.requests request (hsame ▸ hrequest)
    | inr hmore =>
      obtain ⟨request', hmore, hshort⟩ := hmore
      rw [hmore] at hrequest
      rcases List.mem_append.mp hrequest with hrequest | hrequest
      · exact hs.requests request hrequest
      · obtain rfl := List.mem_singleton.mp hrequest
        exact hshort
  reply reply hreply := hs.reply reply (h.reply ▸ hreply)

omit [DecidableEq ρ] in
lemma of_eq (hs : s.Bounded) (hrequests : s'.requests = s.requests) (hreply : s'.reply = s.reply) :
    s'.Bounded where
  requests := by rw [hrequests]; exact hs.requests
  reply := by rw [hreply]; exact hs.reply

lemma getProperty_length {property : Option Property} {longOffset longLength : Nat}
    {reply : PropertyReply} (h : Clipboard.getProperty property longOffset longLength = some reply)
    (hlength : longLength ≤ maxClipboardBytes / 4) : reply.value.length ≤ maxClipboardBytes := by
  have hmax : 4 * longLength ≤ maxClipboardBytes := by
    unfold maxClipboardBytes at *
    omega
  unfold Clipboard.getProperty at h
  split at h
  · obtain rfl := Option.some.inj h
    exact Nat.zero_le _
  · split_ifs at h
    obtain rfl := Option.some.inj h
    exact (List.length_take_le ..).trans hmax

lemma serve (hs : s.Bounded) {request : PropertyRequest} (he : s.Enabled (.serve request)) :
    (s.next (.serve request)).Bounded := by
  have hmem : request ∈ s.requests := List.mem_of_mem_head? he
  have hrequests : ∀ request ∈ s.requests.tail, request.longLength ≤ maxClipboardBytes / 4 :=
    fun request hrequest => hs.requests request (List.mem_of_mem_tail hrequest)
  rw [next_serve]
  cases request with
  | deleteProperty =>
    unfold Reads.serve serverDelete
    dsimp only
    split_ifs <;> exact ⟨hrequests, hs.reply⟩
  | getProperty delete longOffset longLength =>
    have hreply : ∀ reply, some (Clipboard.getProperty s.property longOffset longLength) =
        some (some reply) → reply.value.length ≤ maxClipboardBytes :=
      fun reply h => getProperty_length (Option.some.inj h) (hs.requests _ hmem)
    unfold Reads.serve serverDelete
    dsimp only
    split_ifs <;> exact ⟨hrequests, hreply⟩

end Bounded

/-! ### Coming to the result -/

namespace At

variable {p : Phase} {news : Nat} {answer : Answer} {result : ReadResult}

/-- A first increment that is too long does not complete the read. -/
lemma short_of_completed (h : s.At r p news) (hs : s.Bounded) {reply : Option PropertyReply}
    (he : s.Enabled (.reply reply)) (hc : (s.next (.reply reply)).Completed r answer result) :
    ¬answer.Oversized := by
  have hreply : p.reply.map some = some reply := h.reply.symm.trans he
  have hhandled : Handled s (s.next (.reply reply)) := handled_next rfl rfl nofun
  have hanswer : p.answer = some answer := by
    rw [← h.supplied, ← hhandled.supplied]
    exact hc.supplied
  have hnone : (s.next (.reply reply)).incrReceives = none := hc.finished.incrReceives
  cases p with
  | peekReplied answer' =>
    obtain rfl := Option.some.inj hanswer
    cases answer' with
    | refused => exact id
    | whole content => exact id
    | increments chunks size =>
      rintro ⟨hhint, _⟩
      obtain rfl := Option.some.inj hreply
      have hhint' : tooLargeHint (size.take 32) = false := by
        unfold tooLargeHint at *
        rwa [incrHint_take]
      unfold next Reads.handleReply at hnone
      dsimp only at hnone
      rw [h.handling] at hnone
      unfold Phase.handling handlePeek at hnone
      dsimp only at hnone
      rw [if_pos rfl, hhint', if_neg nofun] at hnone
      cases hnone
  | readReplied content =>
    obtain rfl := Option.some.inj hanswer
    exact id
  | replied t =>
    obtain rfl := Option.some.inj hanswer
    exact Transfer.not_oversized (.inr (hs.reply _ h.reply))
  | ahead t =>
    obtain rfl := Option.some.inj hanswer
    exact Transfer.not_oversized (.inr (hs.reply _ h.reply))
  | tooLong t =>
    obtain rfl := Option.some.inj hanswer
    obtain rfl := Option.some.inj hreply
    apply Transfer.not_oversized
    left
    intro hnil
    have hlen : (t.value.take maxClipboardBytes).length = maxClipboardBytes :=
      List.length_take_of_le h.fits.le
    have hne : t.value.take maxClipboardBytes ≠ [] := by
      intro hvalue
      rw [hvalue] at hlen
      cases hlen
    rw [next_chunk hne h.handling h.incrReceives, hlen, hnil, if_neg (by simp)] at hnone
    cases hnone
  | _ => cases hreply

end At

/-- An owner that has notified us is done, or sends increments. -/
lemma Phase.conversion_of_reply {p : Phase} (h : p.reply ≠ none) :
    p.conversion = .closed ∨ ∃ chunks mayWrite, p.conversion = .sending chunks mayWrite := by
  have hsent : ∀ mayWrite chunks, Transfer.sent mayWrite chunks = .closed ∨
      ∃ chunks' mayWrite', Transfer.sent mayWrite chunks = .sending chunks' mayWrite' := by
    rintro mayWrite (_ | ⟨_, chunks⟩)
    · exact .inl rfl
    · exact .inr ⟨_, _, rfl⟩
  cases p with
  | peekReplied answer =>
    cases answer with
    | increments chunks size => exact .inr ⟨_, _, rfl⟩
    | _ => exact .inl rfl
  | readReplied content => exact .inl rfl
  | replied t => exact hsent _ _
  | ahead t => exact hsent _ _
  | tooLong t => exact hsent _ _
  | _ => exact absurd rfl h

omit [DecidableEq ρ] in
lemma Completed.ended {answer : Answer} {result : ReadResult} (h : s.Completed r answer result)
    (hconversion : s.conversions r = .closed ∨
      ∃ chunks mayWrite, s.conversions r = .sending chunks mayWrite)
    (hshort : ¬answer.Oversized) : s.Ended r answer result where
  call := by
    cases h.finished.result with
    | inl hdone => exact .inl hdone
    | inr hextracted => exact .inr (.inl hextracted.1)
  pendingReads := h.finished.pendingReads
  incrReceives := h.finished.incrReceives
  supplied := h.supplied
  conversion := hconversion
  right := h.right
  residue := h.residue
  short := hshort

/-! ### Who takes the steps -/

omit [DecidableEq ρ] in
/-- An owner answers what has been asked for. -/
lemma asked_of_answers {a : Act ρ} (he : s.Enabled a) (h : a.answers = some r) :
    s.conversions r ≠ .unasked := by
  intro hunasked
  cases a with
  | refuse r' => cases h; cases hunasked.symm.trans he
  | write r' content => cases h; cases hunasked.symm.trans he
  | notifyWritten r' content => cases h; cases hunasked.symm.trans he
  | mark r' chunks size => cases h; cases hunasked.symm.trans he.1
  | notifyMarked r' chunks mayWrite => cases h; cases hunasked.symm.trans he
  | sendChunk r' chunk chunks => cases h; cases hunasked.symm.trans he
  | sendEnd r' => cases h; cases hunasked.symm.trans he
  | _ => cases h

omit [DecidableEq ρ] in
/-- Every call that goes on has begun. -/
lemma begun_of_caller {a : Act ρ} (he : s.Enabled a) (ha : Alone r s a) {r' : ρ}
    (h : a.caller = some r') : r' = r ∨ s.calls r' ≠ .notStarted := by
  cases a with
  | begin r'' => cases h; exact .inl ha
  | convert r'' => cases h; exact .inr fun hnot => by cases hnot.symm.trans he
  | timeOut r'' => exact absurd ha id
  | extract r'' result => cases h; exact .inr fun hnot => by cases hnot.symm.trans he.1
  | finish r'' result => cases h; exact .inr fun hnot => by cases hnot.symm.trans he
  | _ => cases h

namespace Ended

variable {answer : Answer} {result : ReadResult}

omit [DecidableEq ρ] in
lemma started (h : s.Ended r answer result) : s.calls r ≠ .notStarted ∧ s.calls r ≠ .inserted := by
  rcases h.call with hcall | hcall | hcall
  · rw [hcall.1]; exact ⟨nofun, nofun⟩
  · rw [hcall]; exact ⟨nofun, nofun⟩
  · rw [hcall]; exact ⟨nofun, nofun⟩

omit [DecidableEq ρ] in
lemma answered (h : s.Ended r answer result) {c : Conversion} (hc : s.conversions r = c) :
    c = .closed ∨ ∃ chunks mayWrite, c = .sending chunks mayWrite := hc ▸ h.conversion

/-- An increment that nobody waits for. -/
lemma increment (h : s.Ended r answer result) {chunks : List (List UInt8)} {property : Property}
    {conversion : Conversion} (hc : s.conversions r = .sending chunks true)
    (hconversion : conversion = .closed ∨ ∃ chunks mayWrite, conversion = .sending chunks mayWrite) :
    (s.setProperty r property conversion).Ended r answer result := by
  have herased : ¬answer.Erased := by
    intro herased
    cases hc.symm.trans (h.residue.erased herased).2
  exact { h with
    conversion := by
      rcases hconversion with rfl | ⟨chunks, mayWrite, rfl⟩
      · exact .inl (Function.update_self ..)
      · exact .inr ⟨_, _, Function.update_self ..⟩
    residue := { h.residue with
      erased := fun h => absurd h herased
      left := fun _ _ => .inl nofun } }

/-- Nothing that is still done touches the result or deletes the property. -/
lemma next (h : s.Ended r answer result) {a : Act ρ} (he : s.Enabled a) (ha : Alone r s a)
    (hcaller : ∀ r', a.caller = some r' → r' = r) (howner : ∀ r', a.answers = some r' → r' = r) :
    (s.next a).Ended r answer result := by
  have hidle := h.residue.handling
  cases a with
  | begin r' =>
    obtain rfl := hcaller r' rfl
    exact absurd he h.started.1
  | convert r' =>
    obtain rfl := hcaller r' rfl
    exact absurd he h.started.2
  | timeOut r' => exact absurd ha id
  | extract r' result' =>
    obtain rfl := hcaller r' rfl
    have hresult : result' = result := by
      rcases h.call with hcall | hcall | hcall
      · exact PendingReadState.done.inj (he.2.symm.trans hcall.2)
      · cases hcall.symm.trans he.1
      · cases hcall.symm.trans he.1
    subst hresult
    exact { h with
      call := .inr (.inl (Function.update_self ..))
      residue := { h.residue with } }
  | finish r' result' =>
    obtain rfl := hcaller r' rfl
    have hresult : result' = result := by
      rcases h.call with hcall | hcall | hcall
      · cases hcall.1.symm.trans he
      · exact ReadCall.extracted.inj ((Eq.symm he).trans hcall)
      · cases hcall.symm.trans he
    subst hresult
    exact { h with
      call := .inr (.inr (Function.update_self ..))
      pendingReads := rfl
      residue := { h.residue with } }
  | selectionNotify r' property =>
    have hnext : s.next (.selectionNotify r' property) = { s with events := s.events.tail } := by
      unfold Reads.next handleSelectionNotify
      dsimp only
      rw [h.pendingReads]
    rw [hnext]
    exact { h with residue := { h.residue with } }
  | completeRefused r' => cases hidle.symm.trans he
  | newValue =>
    have hnext : s.next .newValue = { s with events := s.events.tail } := by
      unfold Reads.next handleNewValue
      dsimp only
      rw [h.incrReceives]
      rfl
    rw [hnext]
    exact { h with residue := { h.residue with } }
  | reply reply =>
    have hnext : s.next (.reply reply) = { s with reply := none } := by
      unfold Reads.next Reads.handleReply
      dsimp only
      rw [hidle]
    rw [hnext]
    exact { h with residue := { h.residue with } }
  | findOverdue => exact absurd ha id
  | failOverdue => exact absurd ha id
  | serve request =>
    have hempty : s.requests.head? = some request := he
    rw [h.residue.requests] at hempty
    cases hempty
  | refuse r' =>
    obtain rfl := howner r' rfl
    rcases h.answered he with hc | ⟨_, _, hc⟩ <;> cases hc
  | write r' content =>
    obtain rfl := howner r' rfl
    rcases h.answered he with hc | ⟨_, _, hc⟩ <;> cases hc
  | notifyWritten r' content =>
    obtain rfl := howner r' rfl
    rcases h.answered he with hc | ⟨_, _, hc⟩ <;> cases hc
  | mark r' chunks size =>
    obtain rfl := howner r' rfl
    rcases h.answered he.1 with hc | ⟨_, _, hc⟩ <;> cases hc
  | notifyMarked r' chunks mayWrite =>
    obtain rfl := howner r' rfl
    rcases h.answered he with hc | ⟨_, _, hc⟩ <;> cases hc
  | sendChunk r' chunk chunks =>
    obtain rfl := howner r' rfl
    exact h.increment he (.inr ⟨_, _, rfl⟩)
  | sendEnd r' =>
    obtain rfl := howner r' rfl
    exact h.increment he (.inl rfl)

end Ended

/-! ### The course of the read -/

namespace Course

lemma next_fresh (h : s.Initial) {a : Act ρ} (he : s.Enabled a) (ha : Alone r s a) :
    Course r (s.next a) := by
  have howner : ∀ {r'}, a.answers = some r' → False := fun hanswers =>
    asked_of_answers he hanswers (h.conversions _)
  cases a with
  | begin r' =>
    obtain rfl : r' = r := ha
    have hnext : s.next (.begin r') = { s with
        pendingReads := some r'
        states := Function.update s.states r' .awaiting
        calls := Function.update s.calls r' .inserted } := by
      unfold next
      dsimp only
      rw [h.pendingReads]
      rfl
    rw [hnext]
    exact .reading .inserted 0 {
      call := Function.update_self ..
      state := Function.update_self ..
      pendingReads := rfl
      incrReceives := h.incrReceives
      handling := h.handling
      requests := h.requests
      reply := h.reply
      property := nofun
      deleted := nofun
      events := h.events
      conversion := h.conversions r'
      supplied := h.supplied r'
      valid := nofun
      fits := trivial
      early := .inl rfl }
  | convert r' => cases (h.calls r').symm.trans he
  | timeOut r' => exact absurd ha id
  | extract r' result => cases (h.calls r').symm.trans he.1
  | finish r' result => cases (h.calls r').symm.trans he
  | selectionNotify r' property =>
    have hhead := he.2
    rw [h.events] at hhead
    cases hhead
  | completeRefused r' => cases h.handling.symm.trans he
  | newValue =>
    have hhead := he.2
    rw [h.events] at hhead
    cases hhead
  | reply reply => cases h.reply.symm.trans he
  | findOverdue => exact absurd ha id
  | failOverdue => exact absurd ha id
  | serve request =>
    have hhead : s.requests.head? = some request := he
    rw [h.requests] at hhead
    cases hhead
  | _ => exact (howner rfl).elim

lemma next_reading {p : Phase} {news : Nat} (h : s.At r p news) (hs : s.Bounded) {a : Act ρ}
    (he : s.Enabled a) (ha : Alone r s a) (hcaller : ∀ r', a.caller = some r' → r' = r)
    (howner : ∀ r', a.answers = some r' → r' = r) : Course r (s.next a) := by
  cases a with
  | begin r' =>
    obtain rfl := hcaller r' rfl
    have hp := h.call.symm.trans he
    cases p <;> cases hp
  | convert r' =>
    obtain rfl := hcaller r' rfl
    exact .reading .waiting news (h.convert he)
  | timeOut r' => exact absurd ha id
  | extract r' result =>
    obtain rfl := hcaller r' rfl
    have hdone := h.state.symm.trans he.2
    unfold Phase.state at hdone
    split_ifs at hdone
  | finish r' result =>
    obtain rfl := hcaller r' rfl
    have hextracted := h.call.symm.trans he
    cases p <;> cases hextracted
  | selectionNotify r' property =>
    obtain ⟨_, p', hat⟩ := h.selectionNotify he
    exact .reading p' 0 hat
  | completeRefused r' =>
    have hhandling : p.handling r = .refusing r' := h.handling.symm.trans he
    cases p with
    | refusing =>
      exact .ended _ _ ((h.completeRefused he).ended (.inl h.conversion) id)
    | _ => cases hhandling
  | newValue =>
    obtain ⟨p', news', hat⟩ := h.newValue he
    exact .reading p' news' hat
  | reply reply =>
    have hreply : p.reply ≠ none := by
      intro hnone
      have hsome := h.reply.symm.trans he
      rw [hnone] at hsome
      cases hsome
    cases h.handleReply he with
    | inl hfollows =>
      obtain ⟨p', hat⟩ := hfollows
      exact .reading p' news hat
    | inr hfollows =>
      obtain ⟨answer, result, hc⟩ := hfollows
      have hhandled : Handled s (s.next (.reply reply)) := handled_next rfl rfl nofun
      refine .ended answer result (hc.ended ?_ (h.short_of_completed hs he hc))
      rw [hhandled.conversions, h.conversion]
      exact Phase.conversion_of_reply hreply
  | findOverdue => exact absurd ha id
  | failOverdue => exact absurd ha id
  | serve request =>
    obtain ⟨p', hat⟩ := h.serve he
    exact .reading p' news hat
  | refuse r' =>
    obtain rfl := howner r' rfl
    obtain rfl : p = .waiting := Phase.of_conversion (h.conversion.symm.trans he)
    exact .reading _ news h.refuse
  | write r' content =>
    obtain rfl := howner r' rfl
    obtain rfl : p = .waiting := Phase.of_conversion (h.conversion.symm.trans he)
    exact .reading _ (news + 1) (h.setAnswer (.whole content) rfl trivial)
  | notifyWritten r' content =>
    obtain rfl := howner r' rfl
    obtain rfl : p = .set (.whole content) := Phase.of_conversion (h.conversion.symm.trans he)
    exact .reading _ news h.notify
  | mark r' chunks size =>
    obtain rfl := howner r' rfl
    obtain rfl : p = .waiting := Phase.of_conversion (h.conversion.symm.trans he.1)
    exact .reading _ (news + 1) (h.setAnswer (.increments chunks size) rfl he.2)
  | notifyMarked r' chunks mayWrite =>
    obtain rfl := howner r' rfl
    obtain ⟨rfl, size, rfl⟩ := Phase.of_conversion (h.conversion.symm.trans he)
    exact .reading _ news h.notify
  | sendChunk r' chunk chunks =>
    obtain rfl := howner r' rfl
    obtain ⟨p', hat⟩ := h.increment (h.conversion.symm.trans he)
    exact .reading p' 0 hat
  | sendEnd r' =>
    obtain rfl := howner r' rfl
    obtain ⟨p', hat⟩ := h.increment (h.conversion.symm.trans he)
    exact .reading p' 0 hat

end Course

omit [DecidableEq ρ] in
lemma Course.refusing (h : Course r s) {reply : Option PropertyReply} (he : s.Enabled (.reply reply))
    (r' : ρ) : s.handling ≠ .refusing r' := by
  intro hrefusing
  cases h with
  | fresh h => cases h.reply.symm.trans he
  | reading p news h =>
    have hhandling := h.handling.symm.trans hrefusing
    have hreply := h.reply.symm.trans he
    cases p with
    | refusing => cases hreply
    | _ => cases hhandling
  | ended answer result h => cases h.residue.handling.symm.trans hrefusing

namespace Lone

lemma caller (hs : Lone r s) {a : Act ρ} (he : s.Enabled a) (ha : Alone r s a) (r' : ρ)
    (h : a.caller = some r') : r' = r := by
  by_contra hne
  exact ((begun_of_caller he ha h).resolve_left hne) (hs.others r' hne)

lemma owner (hs : Lone r s) {a : Act ρ} (he : s.Enabled a) (r' : ρ) (h : a.answers = some r') :
    r' = r := by
  by_contra hne
  exact asked_of_answers he h (hs.unanswered.unasked r' (.inl (hs.others r' hne)))

lemma bounded_next (hs : Lone r s) {a : Act ρ} (he : s.Enabled a) : (s.next a).Bounded := by
  cases a with
  | begin r' =>
    unfold Reads.next
    dsimp only
    split_ifs <;> exact hs.bounded.of_eq rfl rfl
  | selectionNotify r' property =>
    unfold Reads.next handleSelectionNotify
    dsimp only
    split
    · exact hs.bounded.of_eq rfl rfl
    · split_ifs
      · refine ⟨fun request hrequest => ?_, hs.bounded.reply⟩
        rcases List.mem_append.mp hrequest with hrequest | hrequest
        · exact hs.bounded.requests request hrequest
        · obtain rfl := List.mem_singleton.mp hrequest
          decide
      · exact hs.bounded.of_eq rfl rfl
  | newValue =>
    have hbounded : Bounded { s with events := s.events.tail } := hs.bounded.of_eq rfl rfl
    exact hbounded.of_worked Worked.handleNewValue
  | reply reply =>
    have hbounded : Bounded { s with reply := none, handling := .idle } :=
      ⟨hs.bounded.requests, nofun⟩
    exact hbounded.of_worked
      (Worked.handleReply (s := { s with reply := none }) (hs.course.refusing he))
  | failOverdue =>
    have hbounded : Bounded { s with overdue := false } := hs.bounded.of_eq rfl rfl
    exact hbounded.of_worked Worked.failReceive
  | serve request => exact hs.bounded.serve he
  | _ => exact hs.bounded.of_eq rfl rfl

lemma others_next (hs : Lone r s) {a : Act ρ} (he : s.Enabled a) (ha : Alone r s a) (r' : ρ)
    (hne : r' ≠ r) : (s.next a).calls r' = .notStarted := by
  have hkept : ∀ call, Function.update s.calls r call r' = .notStarted := fun call =>
    (Function.update_of_ne hne ..).trans (hs.others r' hne)
  cases a with
  | begin r'' =>
    obtain rfl := hs.caller he ha r'' rfl
    unfold Reads.next
    dsimp only
    split_ifs <;> exact hkept _
  | convert r'' =>
    obtain rfl := hs.caller he ha r'' rfl
    exact hkept _
  | timeOut r'' => exact absurd ha id
  | extract r'' result =>
    obtain rfl := hs.caller he ha r'' rfl
    exact hkept _
  | finish r'' result =>
    obtain rfl := hs.caller he ha r'' rfl
    exact hkept _
  | _ =>
    rw [(aside_next rfl).1]
    exact hs.others r' hne

lemma next (hs : Lone r s) {a : Act ρ} (he : s.Enabled a) (ha : Alone r s a) :
    Lone r (s.next a) where
  unanswered := hs.unanswered.next he
  others := hs.others_next he ha
  bounded := hs.bounded_next he
  course := by
    cases hs.course with
    | fresh h => exact .next_fresh h he ha
    | reading p news h =>
      exact .next_reading h hs.bounded he ha (hs.caller he ha) (hs.owner he)
    | ended answer result h =>
      exact .ended answer result (h.next he ha (hs.caller he ha) (hs.owner he))

lemma step (hs : Lone r s) (h : Step (Alone r) s s') : Lone r s' := by
  obtain ⟨a, he, ha, rfl⟩ := h
  exact hs.next he ha

end Lone

omit [DecidableEq ρ] in
lemma Initial.lone (h : s.Initial) : Lone r s where
  unanswered := h.known.unanswered
  others r' _ := h.calls r'
  bounded := by
    refine ⟨fun request hrequest => ?_, fun reply hreply => ?_⟩
    · rw [h.requests] at hrequest
      cases hrequest
    · cases h.reply.symm.trans hreply
  course := .fresh h

/-! ### The end of every run -/

/-- What is still to be done, once the owner has decided. -/
def weight (r : ρ) (s : Reads ρ) : Nat :=
  (s.calls r).weight + s.handling.weight + 2 * s.requests.length + s.reply.toList.length +
    (s.events.map ReadEvent.weight).sum + (s.conversions r).weight

omit [DecidableEq ρ] in
lemma Worked.weight_le (h : Worked s s') (hcalls : s'.calls = s.calls)
    (hconversions : s'.conversions = s.conversions) : s'.weight r ≤ s.weight r + 2 := by
  have hhandling := h.handling
  have hrequests : s'.requests.length ≤ s.requests.length + 1 := by
    cases h.requests with
    | inl hsame => rw [hsame]; omega
    | inr hmore =>
      obtain ⟨request, hmore, _⟩ := hmore
      rw [hmore, List.length_append, List.length_singleton]
  unfold weight
  rw [hcalls, hconversions, h.events, h.reply]
  omega

lemma Conversion.stage_propertyDeleted (c : Conversion) : c.propertyDeleted.stage = c.stage := by
  cases c <;> rfl

lemma Conversion.weight_propertyDeleted (c : Conversion) : c.propertyDeleted.weight = c.weight := by
  cases c <;> rfl

omit [DecidableEq ρ] in
/-- An event has been taken. -/
lemma weight_events {event : ReadEvent ρ} (h : s.events.head? = some event) :
    weight r { s with events := s.events.tail } + event.weight = s.weight r := by
  obtain ⟨events, hevents⟩ := List.head?_eq_some_iff.mp h
  unfold weight
  dsimp only
  rw [hevents, List.tail_cons, List.map_cons, List.sum_cons]
  omega

omit [DecidableEq ρ] in
/-- A deletion changes neither the stage of a conversion nor what is still to be done. -/
lemma serverDelete_spec : s.serverDelete.weight r = s.weight r ∧
    (s.serverDelete.conversions r).stage = (s.conversions r).stage := by
  unfold serverDelete
  split_ifs
  · refine ⟨?_, Conversion.stage_propertyDeleted _⟩
    unfold weight
    dsimp only
    rw [Conversion.weight_propertyDeleted]
  · exact ⟨rfl, rfl⟩

lemma weight_serve {request : PropertyRequest} (he : s.Enabled (.serve request)) :
    ((s.next (.serve request)).conversions r).stage = (s.conversions r).stage ∧
      (s.next (.serve request)).weight r < s.weight r := by
  obtain ⟨requests, hrequests⟩ := List.head?_eq_some_iff.mp he
  have hpopped : weight r { s with requests := s.requests.tail } + 2 = s.weight r := by
    unfold weight
    dsimp only
    rw [hrequests, List.tail_cons, List.length_cons]
    omega
  -- at most one reply more is then on its way
  have hreplied : ∀ (s : Reads ρ) reply,
      weight r { s with reply := some reply } ≤ s.weight r + 1 := by
    intro s reply
    unfold weight
    dsimp only
    rw [Option.toList_some, List.length_singleton]
    omega
  obtain ⟨hdeleted, hstage⟩ :=
    serverDelete_spec (r := r) (s := { s with requests := s.requests.tail })
  rw [next_serve]
  cases request with
  | deleteProperty =>
    refine ⟨hstage, ?_⟩
    unfold serve
    rw [hdeleted]
    omega
  | getProperty delete longOffset longLength =>
    unfold serve
    dsimp only
    split_ifs
    · refine ⟨hstage, (hreplied _ _).trans_lt ?_⟩
      rw [hdeleted]
      omega
    · refine ⟨rfl, (hreplied { s with requests := s.requests.tail } _).trans_lt ?_⟩
      omega

lemma weight_completePlainRead {r' : ρ} {buf : List UInt8} :
    (s.completePlainRead r' buf).weight r = s.weight r := by
  unfold completePlainRead
  split <;> rfl

lemma weight_handleChunk {reply : Option PropertyReply} :
    (s.handleChunk reply).weight r = s.weight r := by
  have hfail : ∀ error, (s.failReceive error).weight r = s.weight r := by
    intro error
    unfold failReceive
    split <;> rfl
  cases reply with
  | none => exact hfail _
  | some chunk =>
    unfold handleChunk
    dsimp only
    split
    · rfl
    · split_ifs
      · exact weight_completePlainRead
      · exact hfail _
      · rfl

/-- The end of a round trip. -/
lemma Lone.weight_reply (hs : Lone r s) {reply : Option PropertyReply}
    (he : s.Enabled (.reply reply)) : (s.next (.reply reply)).weight r < s.weight r := by
  have hsome : s.reply = some reply := he
  have hidle : weight r { s with reply := none, handling := .idle } + s.handling.weight + 1 =
      s.weight r := by
    unfold weight
    dsimp only
    rw [hsome, Option.toList_some, Option.toList_none, List.length_singleton, List.length_nil]
    change _ + 0 + _ + _ + _ + _ + _ + _ = _
    omega
  cases hs.course with
  | fresh h => cases h.reply.symm.trans he
  | ended answer result h =>
    have hnext : s.next (.reply reply) = { s with reply := none, handling := .idle } := by
      unfold Reads.next handleReply
      dsimp only
      rw [h.residue.handling]
    rw [hnext]
    omega
  | reading p news h =>
    have hreply : p.reply.map some = some reply := h.reply.symm.trans he
    have hreceiving : p.handling r = .receiving → s.next (.reply reply) =
        { s with reply := none, handling := .idle }.handleChunk reply := by
      intro hhandling
      unfold Reads.next handleReply
      dsimp only
      rw [h.handling, hhandling]
    cases p with
    | peekReplied answer =>
      have hnext : s.next (.reply reply) =
          { s with reply := none, handling := .idle }.handlePeek r reply := by
        unfold Reads.next handleReply
        dsimp only
        rw [h.handling]
        rfl
      have hweight : s.handling.weight = 3 := by
        rw [h.handling]
        rfl
      have hworked : Worked { s with reply := none, handling := .idle }
          (handlePeek { s with reply := none, handling := .idle } r reply) := Worked.handlePeek
      have hweight' := hworked.weight_le (r := r) handled_handlePeek.calls
        handled_handlePeek.conversions
      rw [hnext]
      omega
    | readReplied content =>
      obtain rfl := Option.some.inj hreply
      have hnext : s.next (.reply (some ⟨false, content.drop 32, 0⟩)) =
          { s with reply := none, handling := .idle }.completePlainRead r
            (content.take 32 ++ content.drop 32) := by
        unfold Reads.next handleReply
        dsimp only
        rw [h.handling]
        rfl
      rw [hnext, weight_completePlainRead]
      omega
    | replied t =>
      rw [hreceiving rfl, weight_handleChunk]
      omega
    | ahead t =>
      rw [hreceiving rfl, weight_handleChunk]
      omega
    | tooLong t =>
      rw [hreceiving rfl, weight_handleChunk]
      omega
    | _ => cases hreply

lemma weight_setProperty (property : Property) (conversion : Conversion) :
    (s.setProperty r property conversion).weight r + (s.conversions r).weight =
      s.weight r + conversion.weight + 3 := by
  unfold weight setProperty
  dsimp only
  rw [Function.update_self, List.map_append, List.sum_append]
  change _ + (_ + 3) + _ + _ = _
  omega

lemma weight_notify (property : Bool) (conversion : Conversion) :
    (s.notify r property conversion).weight r + (s.conversions r).weight =
      s.weight r + conversion.weight + 6 := by
  unfold weight notify
  dsimp only
  rw [Function.update_self, List.map_append, List.sum_append]
  change _ + (_ + 6) + _ + _ = _
  omega

lemma weight_setCall (call : ReadCall) :
    (s.setCall r call).weight r + (s.calls r).weight = s.weight r + call.weight := by
  unfold weight setCall
  dsimp only
  rw [Function.update_self]
  omega

/-- The read is nearer to its end. -/
def Nearer (r : ρ) (s s' : Reads ρ) : Prop :=
  (s'.conversions r).stage < (s.conversions r).stage ∨
    (s'.conversions r).stage = (s.conversions r).stage ∧ s'.weight r < s.weight r

lemma nearer_begin (he : s.calls r = .notStarted) : Nearer r s (s.next (.begin r)) := by
  right
  unfold Reads.next
  dsimp only
  split_ifs
  · have hweight := weight_setCall (s := s) (r := r) (.returned (.error alreadyInProgress))
    rw [he] at hweight
    exact ⟨rfl, by change _ + 4 = _ + 0 at hweight; omega⟩
  · have hweight := weight_setCall (r := r) .inserted (s := { s with
      pendingReads := some r, states := Function.update s.states r .awaiting })
    rw [he] at hweight
    exact ⟨rfl, by change _ + 4 = s.weight r + 3 at hweight; omega⟩

lemma nearer_extract {result : ReadResult} (he : s.calls r = .waiting) :
    Nearer r s (s.next (.extract r result)) := by
  have hweight := weight_setCall (s := s.complete r (.error consumed)) (r := r) (.extracted result)
  change _ + (s.calls r).weight = s.weight r + 1 at hweight
  rw [he] at hweight
  change _ + 2 = _ at hweight
  refine .inr ⟨rfl, ?_⟩
  change weight r (setCall _ r _) < _
  omega

lemma nearer_finish {result : ReadResult} (he : s.calls r = .extracted result) :
    Nearer r s (s.next (.finish r result)) := by
  have hweight := weight_setCall (s := { s with pendingReads := none }) (r := r) (.returned result)
  change _ + (s.calls r).weight = s.weight r + 0 at hweight
  rw [he] at hweight
  change _ + 1 = _ at hweight
  refine .inr ⟨rfl, ?_⟩
  change weight r (setCall _ r _) < _
  omega

lemma nearer_selectionNotify {r' : ρ} {property : Bool}
    (he : s.Enabled (.selectionNotify r' property)) :
    Nearer r s (s.next (.selectionNotify r' property)) := by
  have hweight := weight_events (r := r) he.2
  have hidle : s.handling.weight = 0 := by
    rw [he.1]
    rfl
  change _ + 6 = _ at hweight
  refine .inr ⟨congrArg Conversion.stage (congrFun
    (handled_next (s := s) (a := .selectionNotify r' property) rfl rfl nofun).conversions r), ?_⟩
  unfold Reads.next handleSelectionNotify
  dsimp only
  split
  · omega
  · split_ifs
    · unfold ask
      unfold weight at *
      dsimp only at *
      rw [List.length_append, List.length_singleton]
      change _ + 3 + _ + _ + _ + _ < _
      omega
    · unfold weight at *
      dsimp only at *
      change _ + 1 + _ + _ + _ + _ < _
      omega

lemma nearer_completeRefused {r' : ρ} (he : s.handling = .refusing r') :
    Nearer r s (s.next (.completeRefused r')) := by
  have hrefusing : s.handling.weight = 1 := by
    rw [he]
    rfl
  refine .inr ⟨rfl, ?_⟩
  unfold weight
  rw [hrefusing]
  change (s.calls r).weight + 0 + 2 * s.requests.length + s.reply.toList.length +
    (s.events.map ReadEvent.weight).sum + (s.conversions r).weight < _
  omega

lemma nearer_newValue (he : s.Enabled .newValue) : Nearer r s (s.next .newValue) := by
  have hweight := weight_events (r := r) he.2
  have hworked : Worked { s with events := s.events.tail } (s.next .newValue) :=
    Worked.handleNewValue
  have hle := hworked.weight_le (r := r) handled_handleNewValue.calls
    handled_handleNewValue.conversions
  change _ + 3 = _ at hweight
  exact .inr ⟨congrArg Conversion.stage (congrFun handled_handleNewValue.conversions r), by omega⟩

/-- The conversion comes to another stage. -/
lemma nearer_stage {s' : Reads ρ} {conversion : Conversion}
    (hconversions : s'.conversions = Function.update s.conversions r conversion)
    (hstage : conversion.stage < (s.conversions r).stage) : Nearer r s s' := by
  left
  rwa [hconversions, Function.update_self]

/-- The owner notifies us, which takes it further. -/
lemma nearer_notify {property : Bool} {conversion : Conversion}
    (hstage : conversion.stage = (s.conversions r).stage)
    (hless : conversion.weight + 6 < (s.conversions r).weight) :
    Nearer r s (s.notify r property conversion) := by
  have hweight := weight_notify (s := s) (r := r) property conversion
  refine .inr ⟨?_, by omega⟩
  rw [← hstage]
  exact congrArg Conversion.stage (Function.update_self _ _ _)

/-- The owner sets the property, which takes it further. -/
lemma nearer_setProperty {property : Property} {conversion : Conversion}
    (hstage : conversion.stage = (s.conversions r).stage)
    (hless : conversion.weight + 3 < (s.conversions r).weight) :
    Nearer r s (s.setProperty r property conversion) := by
  have hweight := weight_setProperty (s := s) (r := r) property conversion
  refine .inr ⟨?_, by omega⟩
  rw [← hstage]
  exact congrArg Conversion.stage (Function.update_self _ _ _)

/-- Every step brings the read nearer to its end. -/
lemma Lone.decreases (hs : Lone r s) {a : Act ρ} (he : s.Enabled a) (ha : Alone r s a) :
    Nearer r s (s.next a) := by
  cases a with
  | begin r' =>
    obtain rfl := hs.caller he ha r' rfl
    exact nearer_begin he
  | convert r' =>
    obtain rfl := hs.caller he ha r' rfl
    have hunasked : s.conversions r' = .unasked := hs.unanswered.unasked r' (.inr he)
    exact nearer_stage rfl (by rw [hunasked]; decide)
  | timeOut r' => exact absurd ha id
  | extract r' result =>
    obtain rfl := hs.caller he ha r' rfl
    exact nearer_extract he.1
  | finish r' result =>
    obtain rfl := hs.caller he ha r' rfl
    exact nearer_finish he
  | selectionNotify r' property => exact nearer_selectionNotify he
  | completeRefused r' => exact nearer_completeRefused he
  | newValue => exact nearer_newValue he
  | reply reply =>
    have hhandled : Handled s (s.next (.reply reply)) := handled_next rfl rfl nofun
    exact .inr ⟨congrArg Conversion.stage (congrFun hhandled.conversions r), hs.weight_reply he⟩
  | findOverdue => exact absurd ha id
  | failOverdue => exact absurd ha id
  | serve request => exact .inr (weight_serve he)
  | refuse r' =>
    obtain rfl := hs.owner he r' rfl
    have hasked : s.conversions r' = .asked := he
    exact nearer_stage rfl (by rw [hasked]; decide)
  | write r' content =>
    obtain rfl := hs.owner he r' rfl
    have hasked : s.conversions r' = .asked := he
    exact nearer_stage rfl (by rw [hasked]; exact Nat.zero_lt_one)
  | mark r' chunks size =>
    obtain rfl := hs.owner he r' rfl
    exact nearer_stage rfl (by rw [he.1]; exact Nat.zero_lt_one)
  | notifyWritten r' content =>
    obtain rfl := hs.owner he r' rfl
    have hwritten : s.conversions r' = .written content := he
    exact nearer_notify (by rw [hwritten]; rfl) (by rw [hwritten]; exact Nat.lt_succ_self 6)
  | notifyMarked r' chunks mayWrite =>
    obtain rfl := hs.owner he r' rfl
    have hmarked : s.conversions r' = .marked chunks mayWrite := he
    refine nearer_notify (by rw [hmarked]; rfl) ?_
    rw [hmarked]
    change (4 + 4 * chunks.length) + 6 < 11 + 4 * chunks.length
    omega
  | sendChunk r' chunk chunks =>
    obtain rfl := hs.owner he r' rfl
    have hsending : s.conversions r' = .sending (chunk :: chunks) true := he
    refine nearer_setProperty (by rw [hsending]; rfl) ?_
    rw [hsending]
    change (4 + 4 * chunks.length) + 3 < 4 + 4 * (chunks.length + 1)
    omega
  | sendEnd r' =>
    obtain rfl := hs.owner he r' rfl
    have hsending : s.conversions r' = .sending [] true := he
    exact nearer_setProperty (by rw [hsending]; rfl) (by rw [hsending]; decide)

/-- No run of the steps goes on for ever. -/
theorem Lone.acc (hs : Lone r s) : Acc (fun s' s => Step (Alone r) s s') s := by
  have hdecreases : ∀ s s', Lone r s → Step (Alone r) s s' →
      (s'.conversions r).stage < (s.conversions r).stage ∨
        (s'.conversions r).stage = (s.conversions r).stage ∧ s'.weight r < s.weight r := by
    rintro s s' hs ⟨a, he, ha, rfl⟩
    exact hs.decreases he ha
  exact Transition.acc_of_decreases (fun s => (s.conversions r).stage) (weight r)
    (fun _ _ => Lone.step) hdecreases hs

/-! ### What remains at the end -/

/-- No step can be taken any more. -/
def Still (r : ρ) (s : Reads ρ) : Prop := ∀ a, Alone r s a → ¬s.Enabled a

omit [DecidableEq ρ] in
/-- A read that has begun waits for somebody who can go on, unless the first increment is left where
it is. -/
lemma At.stuck_of_still {p : Phase} {news : Nat} (h : s.At r p news) (hstill : s.Still r) :
    ∃ t, p = .stuck t := by
  have hrequest : ∀ {request}, p.requests.head? = some request → False := fun hhead =>
    hstill (.serve _) trivial ((congrArg List.head? h.requests).trans hhead)
  have hreply : ∀ {reply}, p.reply.map some = some reply → False := fun hsome =>
    hstill (.reply _) trivial (h.reply.trans hsome)
  cases p with
  | inserted => exact (hstill (.convert r) trivial h.call).elim
  | waiting => exact (hstill (.refuse r) trivial h.conversion).elim
  | set answer =>
    cases answer with
    | refused => exact absurd rfl h.fits
    | whole content => exact (hstill (.notifyWritten r content) trivial h.conversion).elim
    | increments chunks size =>
      exact (hstill (.notifyMarked r chunks false) trivial h.conversion).elim
  | notified answer =>
    cases news with
    | zero => exact (hstill (.selectionNotify r _) trivial ⟨h.handling, by rw [h.events]; rfl⟩).elim
    | succ news => exact (hstill .newValue trivial ⟨h.handling, by rw [h.events]; rfl⟩).elim
  | refusing => exact (hstill (.completeRefused r) trivial h.handling).elim
  | peekSent answer => exact (hrequest rfl).elim
  | peekReplied answer =>
    cases answer with
    | refused => exact absurd rfl h.fits
    | whole content => exact (hreply rfl).elim
    | increments chunks size => exact (hreply rfl).elim
  | readSent content => exact (hrequest rfl).elim
  | readReplied content => exact (hreply rfl).elim
  | deleting t => exact (hrequest rfl).elim
  | ready t =>
    cases hchunks : t.chunks with
    | nil =>
      refine (hstill (.sendEnd r) trivial (h.conversion.trans ?_)).elim
      exact congrArg (Conversion.sending · true) hchunks
    | cons chunk chunks =>
      refine (hstill (.sendChunk r chunk chunks) trivial (h.conversion.trans ?_)).elim
      exact congrArg (Conversion.sending · true) hchunks
  | arrived t =>
    obtain rfl : news = 0 := h.early.resolve_right nofun
    exact (hstill .newValue trivial ⟨h.handling, by rw [h.events]; rfl⟩).elim
  | asked t => exact (hrequest rfl).elim
  | replied t => exact (hreply rfl).elim
  | ahead t => exact (hreply rfl).elim
  | tooLong t => exact (hreply rfl).elim
  | stuck t => exact ⟨t, rfl⟩

omit [DecidableEq ρ] in
lemma Ended.returned_of_still {answer : Answer} {result : ReadResult}
    (h : s.Ended r answer result) (hstill : s.Still r) : s.calls r = .returned result := by
  rcases h.call with hcall | hcall | hcall
  · exact (hstill (.extract r result) trivial hcall).elim
  · exact (hstill (.finish r result) trivial hcall).elim
  · exact hcall

omit [DecidableEq ρ] in
lemma oversized_of_stuck {t : Transfer} {news : Nat} (h : s.At r (.stuck t) news) :
    t.answer.Oversized := by
  have hlong : maxClipboardBytes < t.value.length := h.fits.2
  cases hchunks : t.chunks with
  | nil =>
    unfold Transfer.value at hlong
    rw [hchunks] at hlong
    exact absurd hlong (Nat.not_lt_zero _)
  | cons chunk chunks =>
    rw [Transfer.value_cons hchunks] at hlong
    refine ⟨t.hint, chunk, ?_, hlong⟩
    rw [h.fits.1, hchunks]
    rfl

omit [DecidableEq ρ] in
/-- At rest a read has returned what the answer comes to, unless the first increment alone is too
long. -/
lemma Lone.exact_iff (hs : Lone r s) (hstill : s.Still r) {answer : Answer}
    (hsupplied : s.supplied r = some answer) (hhonest : answer.Honest) :
    (∃ result, s.calls r = .returned result ∧ answer.Exact result) ↔ ¬answer.Oversized := by
  cases hs.course with
  | fresh h => cases (h.supplied r).symm.trans hsupplied
  | reading p news h =>
    obtain ⟨t, rfl⟩ := h.stuck_of_still hstill
    obtain rfl := Option.some.inj (h.supplied.symm.trans hsupplied)
    constructor
    · rintro ⟨result, hreturned, _⟩
      cases h.call.symm.trans hreturned
    · exact fun hshort => absurd (oversized_of_stuck h) hshort
  | ended answer' result h =>
    obtain rfl := Option.some.inj (h.supplied.symm.trans hsupplied)
    have hright : answer'.Exact result := h.right.resolve_right fun hwrong => hwrong.1 hhonest
    exact ⟨fun _ => h.short, fun _ => ⟨result, h.returned_of_still hstill, hright⟩⟩

/-- Every run comes to rest, and then the read has returned what the answer comes to, unless the
first increment alone is too long. -/
theorem read_exact_iff {s₀ : Reads ρ} {answer : Answer} (h₀ : s₀.Initial)
    (hrun : ReflTransGen (Step (Alone r)) s₀ s) (hstill : s.Still r)
    (hsupplied : s.supplied r = some answer) (hhonest : answer.Honest) :
    Acc (fun s' s => Step (Alone r) s s') s₀ ∧
      ((∃ result, s.calls r = .returned result ∧ answer.Exact result) ↔ ¬answer.Oversized) := by
  have hs : Lone r s := Transition.invariant_of_step (fun _ _ => Lone.step) h₀.lone hrun
  exact ⟨h₀.lone.acc, hs.exact_iff hstill hsupplied hhonest⟩

instance instDecidableAlone (s : Reads Unit) : (a : Act Unit) → Decidable (Alone () s a)
  | .begin r => decEq r ()
  | .timeOut _ | .findOverdue | .failOverdue => instDecidableFalse
  | .convert .. | .extract .. | .finish .. | .selectionNotify .. | .completeRefused .. | .newValue
  | .reply .. | .serve .. | .refuse .. | .write .. | .notifyWritten .. | .mark .. | .notifyMarked ..
  | .sendChunk .. | .sendEnd .. => instDecidableTrue

/-- A read that has not begun. -/
def oneRead : Reads Unit where
  calls _ := .notStarted
  states _ := .awaiting
  pendingReads := none
  incrReceives := none
  overdue := false
  handling := .idle
  requests := []
  reply := none
  property := none
  events := []
  conversions _ := .unasked
  supplied _ := none

lemma initial_oneRead : oneRead.Initial :=
  ⟨fun _ => rfl, rfl, rfl, rfl, rfl, rfl, rfl, rfl, fun _ => rfl, fun _ => rfl⟩

/-- The owner announces two bytes, and sends them in two increments. -/
def incrementsAnswer : Answer := .increments [[97], [98]] [2, 0, 0, 0]

/-- An increment is set, or the empty one at the end, and the event thread takes it. -/
def takeIncrement (sent : Act Unit) (increment : List UInt8) : List (Act Unit) :=
  [sent, .newValue, .serve (.getProperty true 0 (maxClipboardBytes / 4)),
    .reply (some ⟨false, increment, 0⟩)]

def incrementsRead : List (Act Unit) :=
  [.begin (), .convert (), .mark () [[97], [98]] [2, 0, 0, 0],
    .notifyMarked () [[97], [98]] false, .newValue, .selectionNotify () true,
    .serve (.getProperty false 0 8), .reply (some ⟨true, [2, 0, 0, 0], 0⟩),
    .serve .deleteProperty] ++
  takeIncrement (.sendChunk () [97] [[98]]) [97] ++ takeIncrement (.sendChunk () [98] []) [98] ++
  takeIncrement (.sendEnd ()) [] ++
  [.extract () (.ok (some "ab".toList)), .finish () (.ok (some "ab".toList))]

def incrementsReadState : Reads Unit := incrementsRead.foldl (fun s a => s.next a) oneRead

lemma runs_incrementsRead : oneRead.Runs (Alone ()) incrementsRead := by decide +kernel

lemma supplied_incrementsReadState :
    incrementsReadState.supplied () = some incrementsAnswer := by decide +kernel

lemma still_incrementsReadState : incrementsReadState.Still () := by
  have hcall : incrementsReadState.calls () = .returned (.ok (some "ab".toList)) := by
    decide +kernel
  have hconversion : incrementsReadState.conversions () = .closed := by decide +kernel
  have hevents : incrementsReadState.events = [] := by decide +kernel
  have hrequests : incrementsReadState.requests = [] := by decide +kernel
  have hreply : incrementsReadState.reply = none := by decide +kernel
  have hhandling : incrementsReadState.handling = .idle := by decide +kernel
  intro a ha he
  cases a with
  | begin r => cases hcall.symm.trans he
  | convert r => cases hcall.symm.trans he
  | timeOut r => exact ha
  | extract r result => cases hcall.symm.trans he.1
  | finish r result => cases hcall.symm.trans he
  | selectionNotify r property => cases (congrArg List.head? hevents).symm.trans he.2
  | completeRefused r => cases hhandling.symm.trans he
  | newValue => cases (congrArg List.head? hevents).symm.trans he.2
  | reply reply => cases hreply.symm.trans he
  | findOverdue => exact ha
  | failOverdue => exact ha
  | serve request => cases (congrArg List.head? hrequests).symm.trans he
  | mark r chunks size => cases hconversion.symm.trans he.1
  | _ => cases hconversion.symm.trans he

theorem read_exact_iff_increments : ∃ result,
    incrementsReadState.calls () = .returned result ∧ incrementsAnswer.Exact result := by
  have hhonest : incrementsAnswer.Honest := by
    rintro _ ⟨⟩
    decide
  have hiff := (read_exact_iff initial_oneRead runs_incrementsRead.reaches
    still_incrementsReadState supplied_incrementsReadState hhonest).2
  refine hiff.mpr ?_
  rintro ⟨-, chunk, hchunk, hlong⟩
  obtain rfl := Option.some.inj hchunk
  exact absurd hlong (by decide)

/-- The length of the answer is announced as not known, and the first increment is longer than what
a read takes. -/
def longAnswer : Answer := .increments [List.replicate (maxClipboardBytes + 1) 97] []

lemma oversized_longAnswer : longAnswer.Oversized := by
  refine ⟨rfl, _, rfl, ?_⟩
  rw [List.length_replicate]
  exact Nat.lt_succ_self _

/-- The read is never told that the answer is too long. -/
theorem read_never_returns : ∃ s₀ s : Reads Unit, s₀.Initial ∧
    ReflTransGen (Step (Alone ())) s₀ s ∧ s.Still () ∧ s.supplied () = some longAnswer ∧
    longAnswer.Honest ∧ ¬∃ result, s.calls () = .returned result ∧ longAnswer.Exact result := by
  let asked : Reads Unit := (oneRead.next (.begin ())).next (.convert ())
  let marked : Reads Unit :=
    asked.next (.mark () [List.replicate (maxClipboardBytes + 1) 97] [])
  have hasked : ReflTransGen (Step (Alone ())) oneRead asked :=
    .tail (.single ⟨.begin (), rfl, rfl, rfl⟩) ⟨.convert (), by decide +kernel, trivial, rfl⟩
  have hchunks : ∀ chunk ∈ [List.replicate (maxClipboardBytes + 1) (97 : UInt8)], chunk ≠ [] := by
    rintro chunk hchunk rfl
    have hlen := congrArg List.length (List.mem_singleton.mp hchunk)
    rw [List.length_replicate] at hlen
    cases hlen
  have hmarked : ReflTransGen (Step (Alone ())) oneRead marked :=
    .tail hasked ⟨.mark () _ [], ⟨by decide +kernel, hchunks⟩, trivial, rfl⟩
  have hlone : Lone () marked :=
    Transition.invariant_of_step (fun _ _ => Lone.step) initial_oneRead.lone hmarked
  obtain ⟨s, hrest, hstill⟩ := Transition.exists_rest hlone.acc
  have hstep : ∀ s s' : Reads Unit, Lone () s ∧ s.supplied () = some longAnswer →
      Step (Alone ()) s s' → Lone () s' ∧ s'.supplied () = some longAnswer := by
    rintro s s' ⟨hs, hsupplied⟩ ⟨a, he, ha, rfl⟩
    exact ⟨hs.next he ha, hs.unanswered.supplied_next he hsupplied⟩
  have hkept := Transition.invariant_of_step hstep ⟨hlone, rfl⟩ hrest
  have hstill' : s.Still () := fun a ha he => hstill _ ⟨a, he, ha, rfl⟩
  have hhonest : longAnswer.Honest := nofun
  refine ⟨oneRead, s, initial_oneRead, hmarked.trans hrest, hstill', hkept.2, hhonest, ?_⟩
  rw [hkept.1.exact_iff hstill' hkept.2 hhonest]
  exact not_not_intro oversized_longAnswer

/-! ### What is left of the answer -/

/-- Once the read has its result, the property is not there any more, and does not come back,
exactly if the answer came in increments and nothing about it was too large. -/
theorem erased_iff {s₀ : Reads ρ} {answer : Answer} {result : ReadResult} (h₀ : s₀.Initial)
    (hrun : ReflTransGen (Step (Alone r)) s₀ s) (hdone : s.states r = .done result)
    (hsupplied : s.supplied r = some answer) (hcontent : answer ≠ .refused) :
    (∀ s', ReflTransGen (Step (Alone r)) s s' → s'.property = none) ↔ answer.Erased := by
  have hs : Lone r s := Transition.invariant_of_step (fun _ _ => Lone.step) h₀.lone hrun
  have hended : ∃ result, s.Ended r answer result := by
    cases hs.course with
    | fresh h => cases (h.supplied r).symm.trans hsupplied
    | reading p news h =>
      have hstate := h.state.symm.trans hdone
      unfold Phase.state at hstate
      split_ifs at hstate
    | ended answer' result' h =>
      obtain rfl := Option.some.inj (h.supplied.symm.trans hsupplied)
      exact ⟨result', h⟩
  obtain ⟨result', hended⟩ := hended
  constructor
  · intro hgone
    by_contra hleft
    cases hended.residue.left hcontent hleft with
    | inl hthere => exact hthere (hgone s .refl)
    | inr hsending =>
      -- the owner sets what it still has to send
      obtain ⟨chunks, hsending⟩ := hsending
      cases chunks with
      | nil => cases hgone _ (.single ⟨.sendEnd r, hsending, trivial, rfl⟩)
      | cons chunk chunks =>
        cases hgone _ (.single ⟨.sendChunk r chunk chunks, hsending, trivial, rfl⟩)
  · intro herased s' hrun'
    have hstep : ∀ s s' : Reads ρ, Lone r s ∧ s.Ended r answer result' →
        Step (Alone r) s s' → Lone r s' ∧ s'.Ended r answer result' := by
      rintro s s' ⟨hs, hended⟩ ⟨a, he, ha, rfl⟩
      exact ⟨hs.next he ha, hended.next he ha (hs.caller he ha) (hs.owner he)⟩
    have hkept := Transition.invariant_of_step hstep ⟨hs, hended⟩ hrun'
    exact (hkept.2.residue.erased herased).1

theorem erased_iff_increments : incrementsReadState.states () = .done (.error consumed) ∧
    ∀ s', ReflTransGen (Step (Alone ())) incrementsReadState s' → s'.property = none := by
  have hdone : incrementsReadState.states () = .done (.error consumed) := by decide +kernel
  exact ⟨hdone, (erased_iff initial_oneRead runs_incrementsRead.reaches hdone
    supplied_incrementsReadState nofun).mpr ⟨by decide, by decide⟩⟩

/-- The owner answers with one letter. -/
def letterRead : List (Act Unit) :=
  [.begin (), .convert (), .write () [97], .notifyWritten () [97], .newValue,
    .selectionNotify () true, .serve (.getProperty false 0 8), .reply (some ⟨false, [97], 0⟩),
    .extract () (.ok (some "a".toList)), .finish () (.ok (some "a".toList))]

def letterReadState : Reads Unit := letterRead.foldl (fun s a => s.next a) oneRead

/-- The letter is still there when the read has returned it. -/
theorem property_left : ∃ s₀ s : Reads Unit, s₀.Initial ∧ ReflTransGen (Step (Alone ())) s₀ s ∧
    s.calls () = .returned (.ok (some "a".toList)) ∧ s.property = some ⟨false, [97]⟩ := by
  have hrun : oneRead.Runs (Alone ()) letterRead := by decide +kernel
  exact ⟨oneRead, letterReadState, initial_oneRead, hrun.reaches, by decide +kernel,
    by decide +kernel⟩

end Reads

end Invisibool.Clipboard
