import Invisibool.Clipboard.Event
import Invisibool.Text.Utf8
import Mathlib.Data.Fintype.Basic
import Mathlib.Logic.Function.Basic
import Mathlib.Logic.Relation

/-!
# Reading the X11 selection

`read_text` as the steps that its callers take, the event thread with its round trips to the
server, the watchdog, and the owners of the selection, who answer in their own time. All reads have
their answers in one property of our window, `INVISIBOOL_DEST`.
-/

namespace Invisibool.Clipboard
open Text Relation

abbrev ReadResult := Except ClipboardError (Option Str)

inductive PendingReadState
  | awaiting
  | incrInProgress
  | done (result : ReadResult)
  deriving DecidableEq

/-- How far a call of `read_text` has got. -/
inductive ReadCall
  | notStarted
  | inserted
  | waiting
  | extracted (result : ReadResult)
  | returned (result : ReadResult)
  deriving DecidableEq

/-- The call has an entry of its own, and has not returned. -/
def ReadCall.running : ReadCall → Bool
  | inserted => true
  | waiting => true
  | extracted _ => true
  | _ => false

/-- The value of a property, and whether its type is `INCR`. -/
structure Property where
  incr : Bool
  value : List UInt8
  deriving DecidableEq

structure PropertyReply where
  incr : Bool
  value : List UInt8
  bytesAfter : Nat
  deriving DecidableEq

/-- `GetProperty`, with an offset and a length in units of four bytes. An offset behind the end is
an error, and a property that is not there is empty. -/
def getProperty (property : Option Property) (longOffset longLength : Nat) :
    Option PropertyReply :=
  match property with
  | none => some ⟨false, [], 0⟩
  | some property =>
    if property.value.length < 4 * longOffset then none
    else
      let value := (property.value.drop (4 * longOffset)).take (4 * longLength)
      some ⟨property.incr, value, property.value.length - (4 * longOffset + value.length)⟩

/-- The requests of the event thread about the property. -/
inductive PropertyRequest
  | deleteProperty
  | getProperty (delete : Bool) (longOffset longLength : Nat)
  deriving DecidableEq

/-- What an owner answers a read with. `size` is the value with which increments are announced. -/
inductive Answer
  | refused
  | whole (content : List UInt8)
  | increments (chunks : List (List UInt8)) (size : List UInt8)
  deriving DecidableEq

def Answer.content : Answer → Option (List UInt8)
  | refused => none
  | whole content => some content
  | increments chunks _ => some chunks.flatten

/-- How far the answer to one `ConvertSelection` has got. An owner that sends in increments may set
the next one when the property has been deleted. -/
inductive Conversion
  | unasked
  | asked
  | written (content : List UInt8)
  | marked (chunks : List (List UInt8)) (mayWrite : Bool)
  | sending (chunks : List (List UInt8)) (mayWrite : Bool)
  | closed
  deriving DecidableEq

/-- The owner is told that the property has been deleted. -/
def Conversion.propertyDeleted : Conversion → Conversion
  | marked chunks _ => marked chunks true
  | sending chunks _ => sending chunks true
  | conversion => conversion

/-- The events on our window that are about reads. `answers` is the read whose conversion is
answered; no handler looks at it. -/
inductive ReadEvent (ρ : Type)
  | selectionNotify (answers : ρ) (property : Bool)
  | newValue
  deriving DecidableEq

/-- What the event thread is in the middle of: it has taken the entry of a read that is refused, or
waits for the reply to a `GetProperty`, which is the first look at an answer, the rest of it, or an
increment. -/
inductive Handling (ρ : Type)
  | idle
  | refusing (pending : ρ)
  | peeking (pending : ρ)
  | reading (pending : ρ) (accumulated : List UInt8)
  | receiving
  deriving DecidableEq

/-- The read whose entry the event thread has taken, until it is completed or promoted. -/
def Handling.pending {ρ : Type} : Handling ρ → Option ρ
  | refusing pending => some pending
  | peeking pending => some pending
  | reading pending _ => some pending
  | _ => none

/-- The reads with the two registries, which have one key each, the event thread, the server, and
the owners. `overdue` is what the watchdog has found, and `supplied` what each read has been answered
with. -/
structure Reads (ρ : Type) where
  calls : ρ → ReadCall
  states : ρ → PendingReadState
  pendingReads : Option ρ
  incrReceives : Option (ρ × List UInt8)
  overdue : Bool
  handling : Handling ρ
  requests : List PropertyRequest
  reply : Option (Option PropertyReply)
  property : Option Property
  events : List (ReadEvent ρ)
  conversions : ρ → Conversion
  supplied : ρ → Option Answer

namespace Reads

def alreadyInProgress : ClipboardError :=
  .readFailed "another read is already in progress on this backend".toList

def noResponse : ClipboardError :=
  .readFailed "clipboard owner did not respond within the timeout".toList

def exceedsLimit : ClipboardError :=
  .readFailed "clipboard content exceeds the 8 MiB limit; not scrubbed".toList

def notValidUtf8 : ClipboardError :=
  .readFailed "clipboard content was not valid UTF-8".toList

def noNextChunk : ClipboardError :=
  .readFailed "clipboard owner did not send the next chunk within the timeout".toList

def consumed : ClipboardError := .readFailed "consumed".toList

/-- Behind the colon stands the text of the error. -/
def getPropertyReply : ClipboardError := .readFailed "get_property reply: ".toList

variable {ρ : Type} [DecidableEq ρ] (s : Reads ρ)

/-- `PendingRead::complete`. -/
def complete (r : ρ) (result : ReadResult) : Reads ρ :=
  { s with states := Function.update s.states r (.done result) }

def completePlainRead (r : ρ) (buf : List UInt8) : Reads ρ :=
  match fromUtf8 buf with
  | some text => s.complete r (.ok (some text))
  | none => s.complete r (.error notValidUtf8)

/-- Send a `GetProperty` and wait for its reply. -/
def ask (handling : Handling ρ) (delete : Bool) (longOffset longLength : Nat) : Reads ρ :=
  { s with requests := s.requests ++ [.getProperty delete longOffset longLength]
           handling := handling }

/-- The head of the loop over the offsets. -/
def plainLoop (r : ρ) (accumulated : List UInt8) (bytesAfter : Nat) : Reads ρ :=
  if bytesAfter = 0 then s.completePlainRead r accumulated
  else if maxClipboardBytes < accumulated.length + bytesAfter then
    s.complete r (.error exceedsLimit)
  else s.ask (.reading r accumulated) false (accumulated.length / 4) (maxClipboardBytes / 4)

/-- `handle_selection_notify` up to its first round trip, or up to the completion of a read that is
refused. -/
def handleSelectionNotify (property : Bool) : Reads ρ :=
  match s.pendingReads with
  | none => s
  | some r =>
    if property then { s with pendingReads := none }.ask (.peeking r) false 0 8
    else { s with pendingReads := none, handling := .refusing r }

/-- `u32::from_ne_bytes` of the first four bytes, if there are as many. -/
def incrHint : List UInt8 → Option Nat
  | a :: b :: c :: d :: _ =>
      some (a.toNat + 2 ^ 8 * b.toNat + 2 ^ 16 * c.toNat + 2 ^ 24 * d.toNat)
  | _ => none

def tooLargeHint (value : List UInt8) : Bool := (incrHint value).any fun n => maxClipboardBytes < n

/-- The first look at the answer: increments are announced, or the value begins. -/
def handlePeek (r : ρ) : Option PropertyReply → Reads ρ
  | none => s.complete r (.error getPropertyReply)
  | some peek =>
    if peek.incr then
      if tooLargeHint peek.value then s.complete r (.error exceedsLimit)
      else
        { s with states := Function.update s.states r .incrInProgress
                 incrReceives := some (r, [])
                 requests := s.requests ++ [.deleteProperty] }
    else s.plainLoop r peek.value peek.bytesAfter

/-- More of the value. -/
def handleNext (r : ρ) (accumulated : List UInt8) : Option PropertyReply → Reads ρ
  | none => s.complete r (.error getPropertyReply)
  | some next => s.plainLoop r (accumulated ++ next.value) next.bytesAfter

/-- `handle_incr_receive_chunk` up to its round trip. -/
def handleNewValue : Reads ρ :=
  if s.incrReceives.isSome then s.ask .receiving true 0 (maxClipboardBytes / 4) else s

/-- Take the receive out of its registry and fail its read. -/
def failReceive (error : ClipboardError) : Reads ρ :=
  match s.incrReceives with
  | none => s
  | some (r, _) => { s with incrReceives := none }.complete r (.error error)

/-- An increment, or the empty one at the end. -/
def handleChunk : Option PropertyReply → Reads ρ
  | none => s.failReceive getPropertyReply
  | some chunk =>
    match s.incrReceives with
    | none => s
    | some (r, accumulated) =>
      if chunk.value = [] then { s with incrReceives := none }.completePlainRead r accumulated
      else if maxClipboardBytes < accumulated.length + chunk.value.length then
        s.failReceive exceedsLimit
      else { s with incrReceives := some (r, accumulated ++ chunk.value) }

/-- The event thread goes on with a reply. -/
def handleReply (reply : Option PropertyReply) : Reads ρ :=
  match s.handling with
  | .idle => s
  | .refusing _ => s
  | .peeking r => { s with handling := .idle }.handlePeek r reply
  | .reading r accumulated => { s with handling := .idle }.handleNext r accumulated reply
  | .receiving => { s with handling := .idle }.handleChunk reply

def serverDelete : Reads ρ :=
  if s.property.isSome then
    { s with property := none
             conversions := fun r => (s.conversions r).propertyDeleted }
  else s

/-- `GetProperty` deletes the property if it is asked to and has returned all that is left. -/
def serve : PropertyRequest → Reads ρ
  | .deleteProperty => s.serverDelete
  | .getProperty delete longOffset longLength =>
    let reply := Clipboard.getProperty s.property longOffset longLength
    if delete = true ∧ reply.any (fun r => r.bytesAfter = 0) = true then
      { s.serverDelete with reply := some reply }
    else { s with reply := some reply }

/-- An owner has decided what to answer with. -/
def supply (r : ρ) (answer : Answer) : Reads ρ :=
  { s with supplied := Function.update s.supplied r (some answer) }

/-- An owner sets the property, and is at some place with its answer then. -/
def setProperty (r : ρ) (property : Property) (conversion : Conversion) : Reads ρ :=
  { s with property := some property
           events := s.events ++ [.newValue]
           conversions := Function.update s.conversions r conversion }

/-- An owner, or the server when there is none, notifies us. -/
def notify (r : ρ) (property : Bool) (conversion : Conversion) : Reads ρ :=
  { s with events := s.events ++ [.selectionNotify r property]
           conversions := Function.update s.conversions r conversion }

def setCall (r : ρ) (call : ReadCall) : Reads ρ :=
  { s with calls := Function.update s.calls r call }

/-- One step: of a call of `read_text`, of the event thread, of the watchdog, of the server, or of
an owner in answer to a read. -/
inductive Act (ρ : Type)
  | begin (r : ρ)
  | convert (r : ρ)
  | timeOut (r : ρ)
  | extract (r : ρ) (result : ReadResult)
  | finish (r : ρ) (result : ReadResult)
  | selectionNotify (r : ρ) (property : Bool)
  | completeRefused (r : ρ)
  | newValue
  | reply (reply : Option PropertyReply)
  | findOverdue
  | failOverdue
  | serve (request : PropertyRequest)
  | refuse (r : ρ)
  | write (r : ρ) (content : List UInt8)
  | notifyWritten (r : ρ) (content : List UInt8)
  | mark (r : ρ) (chunks : List (List UInt8)) (size : List UInt8)
  | notifyMarked (r : ρ) (chunks : List (List UInt8)) (mayWrite : Bool)
  | sendChunk (r : ρ) (chunk : List UInt8) (chunks : List (List UInt8))
  | sendEnd (r : ρ)

/-- When a step can be taken. The watchdog and the timeouts may come at any time. -/
def Enabled : Act ρ → Prop
  | .begin r => s.calls r = .notStarted
  | .convert r => s.calls r = .inserted
  | .timeOut r => s.calls r = .waiting ∧ (s.states r = .awaiting ∨ s.states r = .incrInProgress)
  | .extract r result => s.calls r = .waiting ∧ s.states r = .done result
  | .finish r result => s.calls r = .extracted result
  | .selectionNotify r property => s.handling = .idle ∧
      s.events.head? = some (.selectionNotify r property)
  | .completeRefused r => s.handling = .refusing r
  | .newValue => s.handling = .idle ∧ s.events.head? = some .newValue
  | .reply reply => s.reply = some reply
  | .findOverdue => s.incrReceives ≠ none
  | .failOverdue => s.overdue = true
  | .serve request => s.requests.head? = some request
  | .refuse r => s.conversions r = .asked
  | .write r _ => s.conversions r = .asked
  | .notifyWritten r content => s.conversions r = .written content
  | .mark r chunks _ => s.conversions r = .asked ∧ ∀ chunk ∈ chunks, chunk ≠ []
  | .notifyMarked r chunks mayWrite => s.conversions r = .marked chunks mayWrite
  | .sendChunk r chunk chunks => s.conversions r = .sending (chunk :: chunks) true
  | .sendEnd r => s.conversions r = .sending [] true

instance (a : Act ρ) : Decidable (s.Enabled a) := by
  cases a <;> unfold Enabled <;> infer_instance

/-- What a step does, when it can be taken. -/
def next : Act ρ → Reads ρ
  | .begin r =>
    if s.pendingReads.isSome then s.setCall r (.returned (.error alreadyInProgress))
    else { s with pendingReads := some r
                  states := Function.update s.states r .awaiting }.setCall r .inserted
  | .convert r =>
      { s with conversions := Function.update s.conversions r .asked }.setCall r .waiting
  | .timeOut r => { s with pendingReads := none }.setCall r (.returned (.error noResponse))
  | .extract r result =>
      (s.complete r (.error consumed)).setCall r (.extracted result)
  | .finish r result => { s with pendingReads := none }.setCall r (.returned result)
  | .selectionNotify _ property =>
      { s with events := s.events.tail }.handleSelectionNotify property
  | .completeRefused r => { s with handling := .idle }.complete r (.ok none)
  | .newValue => { s with events := s.events.tail }.handleNewValue
  | .reply reply => { s with reply := none }.handleReply reply
  | .findOverdue => { s with overdue := true }
  | .failOverdue => { s with overdue := false }.failReceive noNextChunk
  | .serve request => { s with requests := s.requests.tail }.serve request
  | .refuse r => (s.notify r false .closed).supply r .refused
  | .write r content =>
      (s.setProperty r ⟨false, content⟩ (.written content)).supply r (.whole content)
  | .notifyWritten r _ => s.notify r true .closed
  | .mark r chunks size =>
      (s.setProperty r ⟨true, size⟩ (.marked chunks false)).supply r (.increments chunks size)
  | .notifyMarked r chunks mayWrite => s.notify r true (.sending chunks mayWrite)
  | .sendChunk r chunk chunks => s.setProperty r ⟨false, chunk⟩ (.sending chunks false)
  | .sendEnd r => s.setProperty r ⟨false, []⟩ .closed

/-- A step of a run whose steps are all among the allowed ones. -/
def Step (allowed : Reads ρ → Act ρ → Prop) (s s' : Reads ρ) : Prop :=
  ∃ a, s.Enabled a ∧ allowed s a ∧ s' = s.next a

/-- The steps can be taken one after the other, and are allowed. -/
def Runs (allowed : Reads ρ → Act ρ → Prop) : Reads ρ → List (Act ρ) → Prop
  | _, [] => True
  | s, a :: acts => s.Enabled a ∧ allowed s a ∧ Runs allowed (s.next a) acts

instance instDecidableRuns {allowed : Reads ρ → Act ρ → Prop} [∀ s a, Decidable (allowed s a)] :
    ∀ (s : Reads ρ) (acts : List (Act ρ)), Decidable (s.Runs allowed acts)
  | _, [] => isTrue trivial
  | s, a :: acts =>
    have : Decidable (Runs allowed (s.next a) acts) := instDecidableRuns (s.next a) acts
    inferInstanceAs (Decidable (_ ∧ _ ∧ _))

/-- No read has been made, on any server. -/
structure Initial (s : Reads ρ) : Prop where
  calls : ∀ r, s.calls r = .notStarted
  pendingReads : s.pendingReads = none
  incrReceives : s.incrReceives = none
  overdue : s.overdue = false
  handling : s.handling = .idle
  requests : s.requests = []
  reply : s.reply = none
  events : s.events = []
  conversions : ∀ r, s.conversions r = .unasked
  supplied : ∀ r, s.supplied r = none

variable {s}

theorem Runs.reaches {allowed : Reads ρ → Act ρ → Prop} {acts : List (Act ρ)}
    (h : s.Runs allowed acts) : ReflTransGen (Step allowed) s (acts.foldl (fun s a => s.next a) s) := by
  induction acts generalizing s with
  | nil => exact .refl
  | cons a acts ih => exact .head ⟨a, h.1, h.2.1, rfl⟩ (ih h.2.2)

end Reads

end Invisibool.Clipboard
