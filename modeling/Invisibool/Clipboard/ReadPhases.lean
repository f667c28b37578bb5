import Invisibool.Clipboard.Reads

/-!
# One read and the answer to it

How far a read of the selection can get, from its entry to its result, together with the owner that
answers it, when nothing else is under way on our window.
-/

namespace Invisibool.Clipboard
open Text Relation

namespace Answer

/-- What the owner sets the property to before it notifies us. -/
def property : Answer → Option Property
  | refused => none
  | whole content => some ⟨false, content⟩
  | increments _ size => some ⟨true, size⟩

/-- The owner has set the property. -/
def set : Answer → Conversion
  | refused => .closed
  | whole content => .written content
  | increments chunks _ => .marked chunks false

/-- The owner has notified us. -/
def told : Answer → Conversion
  | increments chunks _ => .sending chunks false
  | _ => .closed

/-- No increment is empty, as the one behind the last is. -/
def Valid : Answer → Prop
  | increments chunks _ => ∀ chunk ∈ chunks, chunk ≠ []
  | _ => True

/-- The size that is announced is a lower bound. -/
def Honest : Answer → Prop
  | increments chunks size => ∀ n ∈ Reads.incrHint size, n ≤ chunks.flatten.length
  | _ => True

/-- The property is deleted once the read has come to its end. -/
def Erased : Answer → Prop
  | increments chunks size =>
      Reads.tooLargeHint size = false ∧ chunks.flatten.length ≤ maxClipboardBytes
  | _ => False

/-- The result that the answer is to have. -/
def Exact (answer : Answer) (result : ReadResult) : Prop :=
  match answer.content with
  | none => result = .ok none
  | some content =>
    (∃ text, utf8 text = content ∧ content.length ≤ maxClipboardBytes ∧ result = .ok (some text)) ∨
    (maxClipboardBytes < content.length ∨ ∀ text, utf8 text ≠ content) ∧
      ∃ message, result = .error (.readFailed message)

end Answer

namespace Reads

variable {ρ : Type}

/-- Increments on the way: those that have been received, and those that have not. -/
structure Transfer where
  received : List (List UInt8)
  chunks : List (List UInt8)
  size : List UInt8
  ne : ∀ chunk ∈ received ++ chunks, chunk ≠ []
  fits : received.flatten.length ≤ maxClipboardBytes
  hint : tooLargeHint size = false

namespace Transfer

variable (t : Transfer)

def answer : Answer := .increments (t.received ++ t.chunks) t.size

/-- What comes next, which is nothing behind the last increment. -/
def value : List UInt8 := t.chunks.headD []

/-- The owner has set the next increment. -/
def sent (mayWrite : Bool) : List (List UInt8) → Conversion
  | [] => .closed
  | _ :: later => .sending later mayWrite

lemma propertyDeleted_sent (chunks : List (List UInt8)) :
    (sent false chunks).propertyDeleted = sent true chunks := by
  cases chunks <;> rfl

/-- The next increment has been received. -/
def receive (chunk : List UInt8) (later : List (List UInt8)) (h : t.chunks = chunk :: later)
    (hfits : t.received.flatten.length + chunk.length ≤ maxClipboardBytes) : Transfer where
  received := t.received ++ [chunk]
  chunks := later
  size := t.size
  ne := by
    have hne := t.ne
    rw [h] at hne
    rwa [List.append_assoc]
  fits := by
    rwa [List.flatten_append, List.length_append, List.flatten_singleton]
  hint := t.hint

variable {t}

lemma value_cons {chunk : List UInt8} {later : List (List UInt8)} (h : t.chunks = chunk :: later) :
    t.value = chunk := by
  unfold value
  rw [h]
  rfl

lemma chunk_ne {chunk : List UInt8} {later : List (List UInt8)} (h : t.chunks = chunk :: later) :
    chunk ≠ [] := by
  apply t.ne
  rw [h]
  exact List.mem_append_right _ List.mem_cons_self

lemma answer_receive {chunk : List UInt8} {later : List (List UInt8)} (h : t.chunks = chunk :: later)
    (hfits : t.received.flatten.length + chunk.length ≤ maxClipboardBytes) :
    (t.receive chunk later h hfits).answer = t.answer := by
  unfold answer receive
  dsimp only
  rw [h, List.append_assoc]
  rfl

end Transfer

/-- How far a read, with the answer to it, has got. -/
inductive Phase
  | inserted
  | waiting
  | set (answer : Answer)
  | notified (answer : Answer)
  | refusing
  | peekSent (answer : Answer)
  | peekReplied (answer : Answer)
  | readSent (content : List UInt8)
  | readReplied (content : List UInt8)
  | deleting (t : Transfer)
  | ready (t : Transfer)
  | arrived (t : Transfer)
  | asked (t : Transfer)
  | replied (t : Transfer)
  | ahead (t : Transfer)
  | tooLong (t : Transfer)
  | stuck (t : Transfer)

namespace Phase

def call : Phase → ReadCall
  | inserted => .inserted
  | _ => .waiting

/-- What has been received in increments. -/
def received : Phase → Option (List UInt8)
  | deleting t => some t.received.flatten
  | ready t => some t.received.flatten
  | arrived t => some t.received.flatten
  | asked t => some t.received.flatten
  | replied t => some t.received.flatten
  | ahead t => some t.received.flatten
  | tooLong t => some t.received.flatten
  | stuck t => some (t.value.take maxClipboardBytes)
  | _ => none

def state (p : Phase) : PendingReadState := if p.received.isSome then .incrInProgress else .awaiting

/-- The read still has its entry. -/
def early : Phase → Bool
  | inserted => true
  | waiting => true
  | set _ => true
  | notified _ => true
  | _ => false

def handling (r : ρ) : Phase → Handling ρ
  | refusing => .refusing r
  | peekSent _ => .peeking r
  | peekReplied _ => .peeking r
  | readSent content => .reading r (content.take 32)
  | readReplied content => .reading r (content.take 32)
  | asked _ => .receiving
  | replied _ => .receiving
  | ahead _ => .receiving
  | tooLong _ => .receiving
  | _ => .idle

def requests : Phase → List PropertyRequest
  | peekSent _ => [.getProperty false 0 8]
  | readSent content => [.getProperty false ((content.take 32).length / 4) (maxClipboardBytes / 4)]
  | deleting _ => [.deleteProperty]
  | asked _ => [.getProperty true 0 (maxClipboardBytes / 4)]
  | _ => []

def reply : Phase → Option PropertyReply
  | peekReplied answer => answer.property.map fun property =>
      ⟨property.incr, property.value.take 32, property.value.length - 32⟩
  | readReplied content => some ⟨false, content.drop 32, 0⟩
  | replied t => some ⟨false, t.value, 0⟩
  | ahead t => some ⟨false, t.value, 0⟩
  | tooLong t => some ⟨false, t.value.take maxClipboardBytes, t.value.length - maxClipboardBytes⟩
  | _ => none

/-- The property, where it is there. -/
def property : Phase → Option Property
  | set answer => answer.property
  | notified answer => answer.property
  | peekSent answer => answer.property
  | peekReplied answer => answer.property
  | readSent content => some ⟨false, content⟩
  | readReplied content => some ⟨false, content⟩
  | deleting t => some ⟨true, t.size⟩
  | arrived t => some ⟨false, t.value⟩
  | asked t => some ⟨false, t.value⟩
  | ahead t => some ⟨false, t.chunks.tail.headD []⟩
  | tooLong t => some ⟨false, t.value⟩
  | stuck t => some ⟨false, t.value⟩
  | _ => none

/-- The property is not there. -/
def deleted : Phase → Bool
  | ready _ => true
  | replied _ => true
  | _ => false

def events (r : ρ) : Phase → List (ReadEvent ρ)
  | notified answer => [.selectionNotify r answer.property.isSome]
  | arrived _ => [.newValue]
  | ahead _ => [.newValue]
  | _ => []

def conversion : Phase → Conversion
  | inserted => .unasked
  | waiting => .asked
  | set answer => answer.set
  | notified answer => answer.told
  | peekSent answer => answer.told
  | peekReplied answer => answer.told
  | deleting t => .sending t.chunks false
  | ready t => .sending t.chunks true
  | arrived t => Transfer.sent false t.chunks
  | asked t => Transfer.sent false t.chunks
  | replied t => Transfer.sent true t.chunks
  | ahead t => Transfer.sent false t.chunks.tail
  | tooLong t => Transfer.sent false t.chunks
  | stuck t => Transfer.sent false t.chunks
  | _ => .closed

/-- What the owner answers with. -/
def answer : Phase → Option Answer
  | inserted => none
  | waiting => none
  | set answer => some answer
  | notified answer => some answer
  | refusing => some .refused
  | peekSent answer => some answer
  | peekReplied answer => some answer
  | readSent content => some (.whole content)
  | readReplied content => some (.whole content)
  | deleting t => some t.answer
  | ready t => some t.answer
  | arrived t => some t.answer
  | asked t => some t.answer
  | replied t => some t.answer
  | ahead t => some t.answer
  | tooLong t => some t.answer
  | stuck t => some t.answer

def Fits : Phase → Prop
  | set answer => answer ≠ .refused
  | peekSent answer => answer ≠ .refused
  | peekReplied answer => answer ≠ .refused
  | readSent content => 32 < content.length ∧ content.length ≤ maxClipboardBytes
  | readReplied content => 32 < content.length ∧ content.length ≤ maxClipboardBytes
  | deleting t => t.received = []
  | ahead t => t.chunks ≠ []
  | tooLong t => maxClipboardBytes < t.value.length
  | stuck t => t.received = [] ∧ maxClipboardBytes < t.value.length
  | _ => True

end Phase

/-- The read is at a phase. There may be some news of the property that nobody waits for before what
is about the read. -/
structure At (s : Reads ρ) (r : ρ) (p : Phase) (news : Nat) : Prop where
  call : s.calls r = p.call
  state : s.states r = p.state
  pendingReads : s.pendingReads = if p.early then some r else none
  incrReceives : s.incrReceives = p.received.map (r, ·)
  handling : s.handling = p.handling r
  requests : s.requests = p.requests
  reply : s.reply = p.reply.map some
  property : ∀ property ∈ p.property, s.property = some property
  deleted : p.deleted = true → s.property = none
  events : s.events = List.replicate news .newValue ++ p.events r
  conversion : s.conversions r = p.conversion
  supplied : s.supplied r = p.answer
  valid : ∀ answer ∈ p.answer, answer.Valid
  fits : p.Fits
  early : news = 0 ∨ p.early = true

/-- The read has its result, and does not wait for anything any more. -/
structure Over (s : Reads ρ) (r : ρ) (result : ReadResult) : Prop where
  pendingReads : s.pendingReads = none
  incrReceives : s.incrReceives = none
  handling : s.handling = .idle ∨ s.handling = .receiving
  result : s.calls r = .waiting ∧ s.states r = .done result ∨
    s.calls r = .extracted result ∧ s.states r = .done (.error consumed)

/-- Whether the answer is still there, or about to come. -/
structure Residue (s : Reads ρ) (r : ρ) (answer : Answer) : Prop where
  requests : s.requests = []
  handling : s.handling = .idle
  erased : answer.Erased → s.property = none ∧ s.conversions r = .closed
  left : answer ≠ .refused → ¬answer.Erased →
    s.property ≠ none ∨ ∃ chunks, s.conversions r = .sending chunks true

/-- The result is the right one, unless the announced size was not. -/
structure Completed (s : Reads ρ) (r : ρ) (answer : Answer) (result : ReadResult) : Prop where
  finished : s.Over r result
  supplied : s.supplied r = some answer
  right : answer.Exact result ∨ ¬answer.Honest ∧ ∃ message, result = .error (.readFailed message)
  residue : s.Residue r answer

/-! ### The property -/

private lemma four_mul_div : 4 * (maxClipboardBytes / 4) = maxClipboardBytes := rfl

lemma getProperty_peek (property : Property) : getProperty (some property) 0 8 =
    some ⟨property.incr, property.value.take 32, property.value.length - 32⟩ := by
  have hlen : property.value.length - (4 * 0 + (property.value.take 32).length) =
      property.value.length - 32 := by
    rw [List.length_take]
    omega
  unfold getProperty
  dsimp only
  rw [if_neg (by omega), ← hlen]
  rfl

lemma getProperty_rest {content : List UInt8} (h : 32 < content.length)
    (hmax : content.length ≤ maxClipboardBytes) :
    getProperty (some ⟨false, content⟩) ((content.take 32).length / 4) (maxClipboardBytes / 4) =
      some ⟨false, content.drop 32, 0⟩ := by
  have htake : (content.take 32).length = 32 := by
    rw [List.length_take]
    omega
  have hall : (content.drop 32).take maxClipboardBytes = content.drop 32 := by
    apply List.take_of_length_le
    rw [List.length_drop]
    omega
  unfold getProperty
  dsimp only
  rw [htake, four_mul_div, if_neg (by omega), hall, List.length_drop]
  have hafter : content.length - (4 * (32 / 4) + (content.length - 32)) = 0 := by omega
  rw [hafter]

lemma getProperty_increment (value : List UInt8) :
    getProperty (some ⟨false, value⟩) 0 (maxClipboardBytes / 4) =
      some ⟨false, value.take maxClipboardBytes, value.length - maxClipboardBytes⟩ := by
  have hlen : value.length - (4 * 0 + (value.take maxClipboardBytes).length) =
      value.length - maxClipboardBytes := by
    rw [List.length_take]
    omega
  unfold getProperty
  dsimp only
  rw [if_neg (by omega), four_mul_div, ← hlen]
  rfl

section

variable {s : Reads ρ} {longOffset longLength : Nat} {reply : PropertyReply}

lemma serve_of_after
    (hreply : Clipboard.getProperty s.property longOffset longLength = some reply)
    (hafter : reply.bytesAfter ≠ 0) :
    s.serve (.getProperty true longOffset longLength) = { s with reply := some (some reply) } := by
  unfold Reads.serve
  dsimp only
  rw [hreply, if_neg]
  simp only [Option.any_some, decide_eq_true_eq]
  exact fun h => hafter h.2

lemma serve_of_all {property : Property} (hproperty : s.property = some property)
    (hreply : Clipboard.getProperty s.property longOffset longLength = some reply)
    (hafter : reply.bytesAfter = 0) :
    s.serve (.getProperty true longOffset longLength) = { s with
      reply := some (some reply)
      property := none
      conversions := fun r => (s.conversions r).propertyDeleted } := by
  unfold Reads.serve serverDelete
  dsimp only
  rw [hreply, if_pos ⟨rfl, by simp [hafter]⟩, hproperty]
  rfl

end

/-! ### Steps of the call and of the owner -/

/-- What the owner is about to do tells how far the read is. -/
lemma Phase.of_conversion {p : Phase} {conversion : Conversion} (h : p.conversion = conversion) :
    match conversion with
    | .asked => p = .waiting
    | .written content => p = .set (.whole content)
    | .marked chunks mayWrite => mayWrite = false ∧ ∃ size, p = .set (.increments chunks size)
    | .sending chunks true => (∃ t, p = .ready t ∧ t.chunks = chunks) ∨
        ∃ t chunk, p = .replied t ∧ t.chunks = chunk :: chunks
    | _ => True := by
  subst h
  cases p with
  | waiting => rfl
  | set answer =>
    cases answer with
    | refused => trivial
    | whole content => rfl
    | increments chunks size => exact ⟨rfl, size, rfl⟩
  | ready t => exact .inl ⟨t, rfl, rfl⟩
  | replied t =>
    obtain ⟨received, chunks, size, _, _, _⟩ := t
    cases chunks with
    | nil => trivial
    | cons chunk chunks => exact .inr ⟨_, chunk, rfl, rfl⟩
  | notified answer => cases answer <;> trivial
  | peekSent answer => cases answer <;> trivial
  | peekReplied answer => cases answer <;> trivial
  | arrived t => obtain ⟨_, _ | _, _, _, _, _⟩ := t <;> trivial
  | asked t => obtain ⟨_, _ | _, _, _, _, _⟩ := t <;> trivial
  | ahead t => obtain ⟨_, _ | ⟨_, _ | _⟩, _, _, _, _⟩ := t <;> trivial
  | tooLong t => obtain ⟨_, _ | _, _, _, _, _⟩ := t <;> trivial
  | stuck t => obtain ⟨_, _ | _, _, _, _, _⟩ := t <;> trivial
  | _ => trivial

variable [DecidableEq ρ] {s : Reads ρ} {r : ρ} {p : Phase} {news : Nat}

lemma next_serve (request : PropertyRequest) : s.next (.serve request) =
    { s with requests := s.requests.tail }.serve request := rfl

namespace At

lemma convert (h : s.At r p news) (he : s.Enabled (.convert r)) :
    (s.next (.convert r)).At r .waiting news := by
  have hp : p.call = .inserted := h.call.symm.trans he
  cases p with
  | inserted =>
    exact { h with call := Function.update_self .., conversion := Function.update_self .. }
  | _ => cases hp

lemma refuse (h : s.At r .waiting news) :
    (s.next (.refuse r)).At r (.notified .refused) news where
  __ := h
  conversion := Function.update_self ..
  supplied := Function.update_self ..
  valid := by
    rintro answer ⟨⟩
    trivial
  events := by
    change s.events ++ _ = _
    rw [h.events]
    exact List.append_assoc ..

lemma setAnswer (h : s.At r .waiting news) (answer : Answer) {property : Property}
    (hproperty : answer.property = some property) (hvalid : answer.Valid) :
    ((s.setProperty r property answer.set).supply r answer).At r (.set answer) (news + 1) where
  __ := h
  property := fun property' hproperty' => hproperty.symm.trans hproperty'
  deleted := nofun
  conversion := Function.update_self ..
  supplied := Function.update_self ..
  events := by
    change s.events ++ _ = _
    rw [h.events, List.replicate_succ']
    simp only [Phase.events, List.append_nil]
  valid := by
    rintro answer' ⟨⟩
    exact hvalid
  fits := by
    rintro rfl
    cases hproperty
  early := .inr rfl

lemma notify {answer : Answer} (h : s.At r (.set answer) news) :
    (s.notify r true answer.told).At r (.notified answer) news where
  __ := h
  conversion := Function.update_self ..
  events := by
    have hsome : answer.property.isSome = true := by
      cases answer with
      | refused => exact absurd rfl h.fits
      | _ => rfl
    change s.events ++ [.selectionNotify r true] = _ ++ [.selectionNotify r answer.property.isSome]
    rw [h.events, hsome]
    exact List.append_assoc ..
  fits := trivial

/-- The owner sends the next increment, or the empty one. -/
lemma increment {chunks : List (List UInt8)} (h : s.At r p news)
    (hp : p.conversion = .sending chunks true) : ∃ p',
      (s.setProperty r ⟨false, chunks.headD []⟩ (Transfer.sent false chunks)).At r p' 0 := by
  cases Phase.of_conversion hp with
  | inl hready =>
    obtain ⟨t, rfl, rfl⟩ := hready
    obtain rfl : news = 0 := h.early.resolve_right nofun
    refine ⟨.arrived t, ?_⟩
    exact { h with
      property := fun property hproperty => hproperty
      deleted := nofun
      conversion := Function.update_self ..
      events := by
        change s.events ++ _ = _
        rw [h.events]
        rfl }
  | inr hreplied =>
    obtain ⟨t, chunk, rfl, hchunks⟩ := hreplied
    obtain rfl : news = 0 := h.early.resolve_right nofun
    refine ⟨.ahead t, ?_⟩
    have htail : t.chunks.tail = chunks := by
      rw [hchunks]
      rfl
    exact { h with
      property := by
        rw [← htail]
        exact fun property hproperty => hproperty
      deleted := nofun
      conversion := by
        rw [← htail]
        exact Function.update_self ..
      events := by
        change s.events ++ _ = _
        rw [h.events]
        rfl
      fits := by
        intro hnil
        rw [hnil] at hchunks
        cases hchunks }

/-! ### Steps of the event thread and of the server -/

/-- The answer that is taken up is the one to the read itself. -/
lemma selectionNotify {r' : ρ} {property : Bool} (h : s.At r p news)
    (he : s.Enabled (.selectionNotify r' property)) :
    r' = r ∧ ∃ p', (s.next (.selectionNotify r' property)).At r p' 0 := by
  have hhead := he.2
  rw [h.events] at hhead
  cases news with
  | succ news => cases hhead
  | zero =>
    cases p with
    | notified answer =>
      cases hhead
      refine ⟨rfl, ?_⟩
      by_cases hrefused : answer = .refused
      · subst hrefused
        have hnext : s.next (.selectionNotify r false) =
            { s with events := s.events.tail, pendingReads := none, handling := .refusing r } := by
          unfold next handleSelectionNotify
          dsimp only
          rw [h.pendingReads]
          rfl
        change ∃ p', (s.next (.selectionNotify r false)).At r p' 0
        rw [hnext]
        refine ⟨.refusing, ?_⟩
        exact { h with
          pendingReads := rfl
          handling := rfl
          events := congrArg List.tail h.events
          early := .inl rfl }
      · have hsome : answer.property.isSome = true := by
          cases answer with
          | refused => exact absurd rfl hrefused
          | _ => rfl
        have hnext : s.next (.selectionNotify r true) =
            { s with events := s.events.tail, pendingReads := none, handling := .peeking r,
                     requests := s.requests ++ [.getProperty false 0 8] } := by
          unfold next handleSelectionNotify
          dsimp only
          rw [h.pendingReads]
          rfl
        rw [hsome, hnext]
        refine ⟨.peekSent answer, ?_⟩
        exact { h with
          pendingReads := rfl
          handling := rfl
          requests := congrArg (· ++ [_]) h.requests
          events := congrArg List.tail h.events
          fits := hrefused
          early := .inl rfl }
    | _ => cases hhead

lemma newValue (h : s.At r p news) (he : s.Enabled .newValue) :
    ∃ p' news', (s.next .newValue).At r p' news' := by
  cases news with
  | succ news =>
    -- nobody waits for it
    have hearly : p.early = true := h.early.resolve_left nofun
    have hreceived : p.received = none := by
      cases p with
      | _ => first | rfl | cases hearly
    have hnext : s.next .newValue = { s with events := s.events.tail } := by
      unfold next handleNewValue
      dsimp only
      rw [h.incrReceives, hreceived]
      rfl
    rw [hnext]
    refine ⟨p, news, ?_⟩
    exact { h with events := congrArg List.tail h.events, early := .inr hearly }
  | zero =>
    have hhead := he.2
    rw [h.events] at hhead
    cases p with
    | arrived t =>
      have hnext : s.next .newValue = { s with
          events := s.events.tail
          handling := .receiving
          requests := s.requests ++ [.getProperty true 0 (maxClipboardBytes / 4)] } := by
        unfold next handleNewValue
        dsimp only
        rw [h.incrReceives]
        rfl
      rw [hnext]
      refine ⟨.asked t, 0, ?_⟩
      exact { h with
        handling := rfl
        requests := congrArg (· ++ [_]) h.requests
        events := congrArg List.tail h.events }
    | ahead t => cases h.handling.symm.trans he.1
    | _ => cases hhead

lemma serve {request : PropertyRequest} (h : s.At r p news) (he : s.Enabled (.serve request)) :
    ∃ p', (s.next (.serve request)).At r p' news := by
  have hhead : p.requests.head? = some request := h.requests ▸ he
  cases p with
  | peekSent answer =>
    cases hhead
    refine ⟨.peekReplied answer, ?_⟩
    exact { h with
      requests := congrArg List.tail h.requests
      reply := by
        change some (Clipboard.getProperty s.property 0 8) = _
        cases hproperty : answer.property with
        | none =>
          cases answer with
          | refused => exact absurd rfl h.fits
          | _ => cases hproperty
        | some property =>
          rw [h.property property hproperty, getProperty_peek, Phase.reply, hproperty]
          rfl }
  | readSent content =>
    cases hhead
    refine ⟨.readReplied content, ?_⟩
    exact { h with
      requests := congrArg List.tail h.requests
      reply := by
        change some (Clipboard.getProperty s.property _ _) = _
        rw [h.property _ rfl, getProperty_rest h.fits.1 h.fits.2]
        rfl }
  | deleting t =>
    cases hhead
    have hnext : s.next (.serve .deleteProperty) = { s with
        requests := s.requests.tail
        property := none
        conversions := fun r => (s.conversions r).propertyDeleted } := by
      unfold next Reads.serve serverDelete
      dsimp only
      rw [h.property _ rfl]
      rfl
    rw [hnext]
    refine ⟨.ready t, ?_⟩
    exact { h with
      requests := congrArg List.tail h.requests
      property := nofun
      deleted := fun _ => rfl
      conversion := congrArg Conversion.propertyDeleted h.conversion
      fits := trivial }
  | asked t =>
    cases hhead
    have hreply : Clipboard.getProperty s.property 0 (maxClipboardBytes / 4) =
        some ⟨false, t.value.take maxClipboardBytes, t.value.length - maxClipboardBytes⟩ := by
      rw [h.property _ rfl, getProperty_increment]
    by_cases hlong : maxClipboardBytes < t.value.length
    · refine ⟨.tooLong t, ?_⟩
      rw [next_serve, serve_of_after (s := { s with requests := s.requests.tail }) hreply
        (Nat.sub_ne_zero_of_lt hlong)]
      exact { h with
        requests := congrArg List.tail h.requests
        reply := rfl
        fits := hlong }
    · have hafter : t.value.length - maxClipboardBytes = 0 := Nat.sub_eq_zero_of_le (not_lt.mp hlong)
      rw [List.take_of_length_le (not_lt.mp hlong), hafter] at hreply
      refine ⟨.replied t, ?_⟩
      rw [next_serve, serve_of_all (s := { s with requests := s.requests.tail }) (h.property _ rfl)
        hreply rfl]
      exact { h with
        requests := congrArg List.tail h.requests
        reply := rfl
        property := nofun
        deleted := fun _ => rfl
        conversion := (congrArg Conversion.propertyDeleted h.conversion).trans
          (Transfer.propertyDeleted_sent _) }
  | _ => cases hhead

end At

/-- The event thread is about to complete the read. -/
structure Due (s : Reads ρ) (r : ρ) (answer : Answer) : Prop where
  call : s.calls r = .waiting
  pendingReads : s.pendingReads = none
  incrReceives : s.incrReceives = none
  supplied : s.supplied r = some answer
  residue : s.Residue r answer

namespace Due

variable {answer : Answer} {content : List UInt8}

lemma complete {result : ReadResult} (h : s.Due r answer)
    (hright : answer.Exact result ∨ ¬answer.Honest ∧ ∃ message, result = .error (.readFailed message)) :
    (s.complete r result).Completed r answer result where
  finished := ⟨h.pendingReads, h.incrReceives, .inl h.residue.handling,
    .inl ⟨h.call, Function.update_self ..⟩⟩
  supplied := h.supplied
  right := hright
  residue := { h.residue with }

lemma exceeds (h : s.Due r answer) (hcontent : answer.content = some content)
    (hlong : maxClipboardBytes < content.length) :
    (s.complete r (.error exceedsLimit)).Completed r answer (.error exceedsLimit) := by
  apply h.complete
  left
  unfold Answer.Exact
  rw [hcontent]
  exact .inr ⟨.inl hlong, _, rfl⟩

lemma completePlainRead (h : s.Due r answer) (hcontent : answer.content = some content)
    (hfits : content.length ≤ maxClipboardBytes) :
    ∃ result, (s.completePlainRead r content).Completed r answer result := by
  unfold Reads.completePlainRead
  cases htext : fromUtf8 content with
  | some text =>
    refine ⟨.ok (some text), h.complete (.inl ?_)⟩
    unfold Answer.Exact
    rw [hcontent]
    exact .inl ⟨text, fromUtf8_eq_some.mp htext, hfits, rfl⟩
  | none =>
    refine ⟨.error notValidUtf8, h.complete (.inl ?_)⟩
    unfold Answer.Exact
    rw [hcontent]
    refine .inr ⟨.inr fun text hutf8 => ?_, _, rfl⟩
    rw [fromUtf8_eq_some.mpr hutf8] at htext
    cases htext

end Due

namespace At

/-- The read goes on, or is completed. -/
def Follows (s' : Reads ρ) (r : ρ) (news : Nat) : Prop :=
  (∃ p', s'.At r p' news) ∨ ∃ answer result, s'.Completed r answer result

lemma completeRefused {r' : ρ} (h : s.At r p news) (he : s.Enabled (.completeRefused r')) :
    (s.next (.completeRefused r')).Completed r .refused (.ok none) := by
  have hhandling : p.handling r = .refusing r' := h.handling.symm.trans he
  cases p with
  | refusing =>
    cases hhandling
    have hdue : Due { s with handling := .idle } r .refused :=
      ⟨h.call, h.pendingReads, h.incrReceives, h.supplied,
        ⟨h.requests, rfl, nofun, fun hne => absurd rfl hne⟩⟩
    exact hdue.complete (.inl rfl)
  | _ => cases hhandling

lemma peekReplied_whole {content : List UInt8} (h : s.At r (.peekReplied (.whole content)) 0) :
    Follows (s.next (.reply (some ⟨false, content.take 32, content.length - 32⟩))) r 0 := by
  have hnext : s.next (.reply (some ⟨false, content.take 32, content.length - 32⟩)) =
      { s with reply := none, handling := .idle }.plainLoop r (content.take 32)
        (content.length - 32) := by
    unfold next handleReply
    dsimp only
    rw [h.handling]
    rfl
  have hdue : Due { s with reply := none, handling := .idle } r (.whole content) :=
    ⟨h.call, h.pendingReads, h.incrReceives, h.supplied, ⟨h.requests, rfl, nofun,
      fun _ _ => .inl fun hnone => by cases (h.property _ rfl).symm.trans hnone⟩⟩
  have htake : (content.take 32).length = min 32 content.length := List.length_take
  rw [hnext]
  unfold plainLoop
  by_cases hafter : content.length - 32 = 0
  · rw [if_pos hafter, List.take_of_length_le (by omega)]
    have hfits : content.length ≤ maxClipboardBytes := by
      unfold maxClipboardBytes
      omega
    obtain ⟨result, hresult⟩ := hdue.completePlainRead rfl hfits
    exact .inr ⟨_, result, hresult⟩
  · rw [if_neg hafter]
    by_cases hlong : maxClipboardBytes < (content.take 32).length + (content.length - 32)
    · rw [if_pos hlong]
      have hexceeds : maxClipboardBytes < content.length := by omega
      exact .inr ⟨_, _, hdue.exceeds rfl hexceeds⟩
    · rw [if_neg hlong]
      refine .inl ⟨.readSent content, ?_⟩
      exact { h with
        handling := rfl
        requests := congrArg (· ++ [_]) h.requests
        reply := rfl
        fits := ⟨by omega, by omega⟩ }

lemma incrHint_take (size : List UInt8) : incrHint (size.take 32) = incrHint size := by
  rcases size with _ | ⟨a, _ | ⟨b, _ | ⟨c, _ | ⟨d, size⟩⟩⟩⟩ <;> rfl

lemma exists_hint {size : List UInt8} (h : tooLargeHint size = true) :
    ∃ n ∈ incrHint size, maxClipboardBytes < n := by
  unfold tooLargeHint at h
  cases hhint : incrHint size with
  | none =>
    rw [hhint] at h
    cases h
  | some n =>
    rw [hhint] at h
    exact ⟨n, rfl, of_decide_eq_true h⟩

lemma peekReplied_increments {chunks : List (List UInt8)} {size : List UInt8}
    (h : s.At r (.peekReplied (.increments chunks size)) 0) :
    Follows (s.next (.reply (some ⟨true, size.take 32, size.length - 32⟩))) r 0 := by
  have hnext : s.next (.reply (some ⟨true, size.take 32, size.length - 32⟩)) =
      { s with reply := none, handling := .idle }.handlePeek r
        (some ⟨true, size.take 32, size.length - 32⟩) := by
    unfold next handleReply
    dsimp only
    rw [h.handling]
    rfl
  have hhint : tooLargeHint (size.take 32) = tooLargeHint size := by
    unfold tooLargeHint
    rw [incrHint_take]
  rw [hnext]
  unfold handlePeek
  dsimp only
  rw [if_pos rfl, hhint]
  by_cases hlarge : tooLargeHint size = true
  · rw [if_pos hlarge]
    have hdue : Due { s with reply := none, handling := .idle } r (.increments chunks size) :=
      ⟨h.call, h.pendingReads, h.incrReceives, h.supplied, ⟨h.requests, rfl,
        fun herased => Bool.noConfusion (hlarge.symm.trans herased.1),
        fun _ _ => .inl fun hnone => by cases (h.property _ rfl).symm.trans hnone⟩⟩
    by_cases hhonest : (Answer.increments chunks size).Honest
    · obtain ⟨n, hn, hlong⟩ := exists_hint hlarge
      have hexceeds : maxClipboardBytes < chunks.flatten.length := hlong.trans_le (hhonest n hn)
      exact .inr ⟨_, _, hdue.exceeds rfl hexceeds⟩
    · exact .inr ⟨_, _, hdue.complete (.inr ⟨hhonest, _, rfl⟩)⟩
  · rw [if_neg hlarge]
    have hfits : ([] : List (List UInt8)).flatten.length ≤ maxClipboardBytes := Nat.zero_le _
    refine .inl ⟨.deleting ⟨[], chunks, size, h.valid _ rfl, hfits, by simpa using hlarge⟩, ?_⟩
    exact { h with
      state := Function.update_self ..
      incrReceives := rfl
      handling := rfl
      requests := congrArg (· ++ [_]) h.requests
      reply := rfl
      fits := rfl }

lemma readReplied {content : List UInt8} (h : s.At r (.readReplied content) 0) :
    Follows (s.next (.reply (some ⟨false, content.drop 32, 0⟩))) r 0 := by
  have hnext : s.next (.reply (some ⟨false, content.drop 32, 0⟩)) =
      { s with reply := none, handling := .idle }.completePlainRead r content := by
    unfold next handleReply
    dsimp only
    rw [h.handling]
    change plainLoop _ r (content.take 32 ++ content.drop 32) 0 = _
    rw [List.take_append_drop]
    rfl
  have hdue : Due { s with reply := none, handling := .idle } r (.whole content) :=
    ⟨h.call, h.pendingReads, h.incrReceives, h.supplied, ⟨h.requests, rfl, nofun,
      fun _ _ => .inl fun hnone => by cases (h.property _ rfl).symm.trans hnone⟩⟩
  rw [hnext]
  obtain ⟨result, hresult⟩ := hdue.completePlainRead rfl h.fits.2
  exact .inr ⟨_, result, hresult⟩

/-- Whatever is given as the next increment is added, or is too much. -/
lemma next_chunk {accumulated value : List UInt8} {after : Nat} (hne : value ≠ [])
    (hhandling : s.handling = .receiving) (hincr : s.incrReceives = some (r, accumulated)) :
    s.next (.reply (some ⟨false, value, after⟩)) =
      if maxClipboardBytes < accumulated.length + value.length then
        { s with reply := none, handling := .idle, incrReceives := none }.complete r
          (.error exceedsLimit)
      else { s with reply := none, handling := .idle,
                    incrReceives := some (r, accumulated ++ value) } := by
  unfold next handleReply
  dsimp only
  rw [hhandling]
  unfold handleChunk failReceive
  dsimp only
  rw [hincr]
  dsimp only
  rw [if_neg hne]

lemma answer_content {t : Transfer} {chunk : List UInt8} {later : List (List UInt8)}
    (h : t.chunks = chunk :: later) : ∃ content, t.answer.content = some content ∧
      t.received.flatten.length + chunk.length ≤ content.length := by
  refine ⟨_, rfl, ?_⟩
  rw [h, List.flatten_append, List.length_append, List.flatten_cons, List.length_append]
  omega

lemma replied {t : Transfer} (h : s.At r (.replied t) 0) :
    Follows (s.next (.reply (some ⟨false, t.value, 0⟩))) r 0 := by
  cases hchunks : t.chunks with
  | nil =>
    have hvalue : t.value = [] := by
      unfold Transfer.value
      rw [hchunks]
      rfl
    have hnext : s.next (.reply (some ⟨false, t.value, 0⟩)) =
        { s with reply := none, handling := .idle, incrReceives := none }.completePlainRead r
          t.received.flatten := by
      rw [hvalue]
      unfold next handleReply
      dsimp only
      rw [h.handling]
      unfold Phase.handling handleChunk
      dsimp only
      rw [h.incrReceives]
      rfl
    have hanswer : t.answer = .increments t.received t.size := by
      unfold Transfer.answer
      rw [hchunks, List.append_nil]
    have hclosed : s.conversions r = .closed := by
      rw [h.conversion, Phase.conversion, hchunks]
      rfl
    have hdue : Due { s with reply := none, handling := .idle, incrReceives := none } r t.answer := by
      refine ⟨h.call, h.pendingReads, rfl, h.supplied, ⟨h.requests, rfl, ?_, ?_⟩⟩
      · exact fun _ => ⟨h.deleted rfl, hclosed⟩
      · intro _ hnot
        rw [hanswer] at hnot
        exact absurd ⟨t.hint, t.fits⟩ hnot
    rw [hnext]
    obtain ⟨result, hresult⟩ := hdue.completePlainRead (by rw [hanswer]; rfl) t.fits
    exact .inr ⟨_, result, hresult⟩
  | cons chunk later =>
    have hconversion : s.conversions r = .sending later true := by
      rw [h.conversion, Phase.conversion, hchunks]
      rfl
    rw [Transfer.value_cons hchunks, next_chunk (Transfer.chunk_ne hchunks) h.handling h.incrReceives]
    split_ifs with hlong
    · obtain ⟨content, hcontent, hlen⟩ := answer_content hchunks
      have hdue : Due { s with reply := none, handling := .idle, incrReceives := none } r t.answer := by
        refine ⟨h.call, h.pendingReads, rfl, h.supplied, ⟨h.requests, rfl, ?_, ?_⟩⟩
        · intro herased
          obtain rfl := Option.some.inj hcontent
          exact absurd (herased.2.trans_lt (hlong.trans_le hlen)) (lt_irrefl _)
        · exact fun _ _ => .inr ⟨later, hconversion⟩
      exact .inr ⟨_, _, hdue.exceeds hcontent (hlong.trans_le hlen)⟩
    · refine .inl ⟨.ready (t.receive chunk later hchunks (not_lt.mp hlong)), ?_⟩
      exact { h with
        incrReceives := by
          change some (r, t.received.flatten ++ chunk) = some (r, (t.received ++ [chunk]).flatten)
          rw [List.flatten_append, List.flatten_singleton]
        handling := rfl
        reply := rfl
        conversion := hconversion
        supplied := h.supplied.trans (congrArg some (Transfer.answer_receive hchunks _).symm)
        valid := by
          rintro answer ⟨⟩
          exact (t.receive chunk later hchunks _).ne }

lemma ahead {t : Transfer} (h : s.At r (.ahead t) 0) :
    Follows (s.next (.reply (some ⟨false, t.value, 0⟩))) r 0 := by
  obtain ⟨chunk, later, hchunks⟩ := List.exists_cons_of_ne_nil h.fits
  have hproperty : s.property = some ⟨false, later.headD []⟩ := by
    have htail := h.property _ rfl
    rwa [hchunks] at htail
  have hconversion : s.conversions r = Transfer.sent false later := by
    rw [h.conversion, Phase.conversion, hchunks]
    rfl
  rw [Transfer.value_cons hchunks, next_chunk (Transfer.chunk_ne hchunks) h.handling h.incrReceives]
  split_ifs with hlong
  · obtain ⟨content, hcontent, hlen⟩ := answer_content hchunks
    have hdue : Due { s with reply := none, handling := .idle, incrReceives := none } r t.answer := by
      refine ⟨h.call, h.pendingReads, rfl, h.supplied, ⟨h.requests, rfl, ?_, ?_⟩⟩
      · intro herased
        obtain rfl := Option.some.inj hcontent
        exact absurd (herased.2.trans_lt (hlong.trans_le hlen)) (lt_irrefl _)
      · exact fun _ _ => .inl fun hnone => by cases hproperty.symm.trans hnone
    exact .inr ⟨_, _, hdue.exceeds hcontent (hlong.trans_le hlen)⟩
  · refine .inl ⟨.arrived (t.receive chunk later hchunks (not_lt.mp hlong)), ?_⟩
    exact { h with
      incrReceives := by
        change some (r, t.received.flatten ++ chunk) = some (r, (t.received ++ [chunk]).flatten)
        rw [List.flatten_append, List.flatten_singleton]
      handling := rfl
      reply := rfl
      property := fun property hp => hproperty.trans hp
      conversion := hconversion
      supplied := h.supplied.trans (congrArg some (Transfer.answer_receive hchunks _).symm)
      valid := by
        rintro answer ⟨⟩
        exact (t.receive chunk later hchunks _).ne
      fits := trivial }

lemma tooLong {t : Transfer} (h : s.At r (.tooLong t) 0) :
    Follows (s.next (.reply (some ⟨false, t.value.take maxClipboardBytes,
      t.value.length - maxClipboardBytes⟩))) r 0 := by
  have hlen : (t.value.take maxClipboardBytes).length = maxClipboardBytes :=
    List.length_take_of_le h.fits.le
  have hne : t.value.take maxClipboardBytes ≠ [] := by
    intro hnil
    rw [hnil] at hlen
    cases hlen
  rw [next_chunk hne h.handling h.incrReceives, hlen]
  split_ifs with hlong
  · cases hchunks : t.chunks with
    | nil =>
      unfold Transfer.value at hne
      rw [hchunks] at hne
      exact absurd List.take_nil hne
    | cons chunk later =>
      obtain ⟨content, hcontent, hle⟩ := answer_content hchunks
      have hexceeds : maxClipboardBytes < content.length := by
        have hfits : maxClipboardBytes < t.value.length := h.fits
        rw [Transfer.value_cons hchunks] at hfits
        omega
      have hdue : Due { s with reply := none, handling := .idle, incrReceives := none } r
          t.answer := by
        refine ⟨h.call, h.pendingReads, rfl, h.supplied, ⟨h.requests, rfl, ?_, ?_⟩⟩
        · intro herased
          obtain rfl := Option.some.inj hcontent
          exact absurd (herased.2.trans_lt hexceeds) (lt_irrefl _)
        · exact fun _ _ => .inl fun hnone => by cases (h.property _ rfl).symm.trans hnone
      exact .inr ⟨_, _, hdue.exceeds hcontent hexceeds⟩
  · -- nothing has been received before, as no increment is empty
    have hflatten : t.received.flatten = [] := by
      apply List.eq_nil_of_length_eq_zero
      omega
    have hnil : t.received = [] := by
      cases hreceived : t.received with
      | nil => rfl
      | cons chunk received =>
        rw [hreceived, List.flatten_cons] at hflatten
        have hchunk := t.ne chunk (by rw [hreceived]; exact List.mem_cons_self)
        exact absurd (List.append_eq_nil_iff.mp hflatten).1 hchunk
    refine .inl ⟨.stuck t, ?_⟩
    exact { h with
      incrReceives := by
        rw [hflatten]
        rfl
      handling := rfl
      reply := rfl
      fits := ⟨hnil, h.fits⟩ }

/-- A reply is the end of a round trip of the read. -/
lemma handleReply {reply : Option PropertyReply} (h : s.At r p news) (he : s.Enabled (.reply reply)) :
    Follows (s.next (.reply reply)) r news := by
  have hreply : p.reply.map some = some reply := h.reply.symm.trans he
  cases p with
  | peekReplied answer =>
    obtain rfl : news = 0 := h.early.resolve_right nofun
    cases answer with
    | refused => exact absurd rfl h.fits
    | whole content =>
      obtain rfl := Option.some.inj hreply
      exact h.peekReplied_whole
    | increments chunks size =>
      obtain rfl := Option.some.inj hreply
      exact h.peekReplied_increments
  | readReplied content =>
    obtain rfl : news = 0 := h.early.resolve_right nofun
    obtain rfl := Option.some.inj hreply
    exact h.readReplied
  | replied t =>
    obtain rfl : news = 0 := h.early.resolve_right nofun
    obtain rfl := Option.some.inj hreply
    exact h.replied
  | ahead t =>
    obtain rfl : news = 0 := h.early.resolve_right nofun
    obtain rfl := Option.some.inj hreply
    exact h.ahead
  | tooLong t =>
    obtain rfl : news = 0 := h.early.resolve_right nofun
    obtain rfl := Option.some.inj hreply
    exact h.tooLong
  | _ => cases hreply

end At

end Reads

end Invisibool.Clipboard
