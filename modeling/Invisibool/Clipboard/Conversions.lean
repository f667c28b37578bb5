import Invisibool.Clipboard.Sends
import Invisibool.Clipboard.X11
import Invisibool.System.Process

/-!
# Converting the selection

The owner's side of the event thread: what it answers to the requests of other clients for any
target, and how it sends a large text in increments. Writers change the owned content, and the
watchdog gives up transfers, between any two of its calls.
-/

namespace Invisibool.Clipboard.Conversions
open Text Process

/-- The atoms that the owner's side uses. -/
structure AtomTable where
  clipboard : Nat
  utf8String : Nat
  string : Nat
  targets : Nat
  timestamp : Nat
  incr : Nat
  invisiboolTimestampFetch : Nat

/-- `x11rb::NONE` -/
def xNone : Nat := 0

/-- `AtomEnum::ATOM` -/
def atomEnumAtom : Nat := 4

/-- `AtomEnum::INTEGER` -/
def atomEnumInteger : Nat := 19

structure SelectionRequest where
  time : Nat
  requestor : Nat
  selection : Nat
  target : Nat
  property : Nat
  deriving DecidableEq

structure SelectionNotify where
  time : Nat
  requestor : Nat
  selection : Nat
  target : Nat
  property : Nat
  deriving DecidableEq

/-- An event, as far as the owner's side looks at it. -/
inductive Notice
  | selectionRequest (ev : SelectionRequest)
  | propertyDeleted (window atom : Nat)
  | selectionClear (selection : Nat)
  | other
  deriving DecidableEq

/-- The requests that the event thread sends to the server; a change replaces the property. -/
inductive ServerRequest
  | changeProperty32 (window property type : Nat) (data : List Nat)
  | changeProperty8 (window property type : Nat) (data : List UInt8)
  | selectPropertyChanges (window : Nat)
  | sendEvent (notify : SelectionNotify)
  deriving DecidableEq

/-- A requestor's window, and the property of it that the answer goes to. -/
abbrev Key := Nat × Nat

/-- The `IncrSend` of a transfer, with where it goes. -/
structure PendingSend extends IncrSend where
  timestamp : Nat
  targetProperty : Nat
  requestor : Nat
  target : Nat
  startedAt : Nat
  deriving DecidableEq

/-- What is shared: the owned content, the transfers, and the clock. -/
structure State where
  owned : Option OwnedContent
  sends : Key → Option PendingSend
  now : Nat

/-- The calls of the threads: the connection, the clock, and one for each section under a lock. -/
inductive Call
  | loadShutdown
  | waitForEvent
  | request (req : ServerRequest)
  | readOwned
  | setOwned (content : Option OwnedContent)
  | instantNow
  | containsSend (key : Key)
  | insertSend (key : Key) (entry : PendingSend)
  | advanceSend (key : Key)
  | removeSend (key : Key)
  | sweepSends (now : Nat)

/-- `wait_for_event` gives no event when the connection is gone, and a request says whether it
could be sent. -/
def Call.Ans : Call → Type
  | loadShutdown => Bool
  | waitForEvent => Option Notice
  | request _ => Bool
  | readOwned => Option OwnedContent
  | instantNow => Nat
  | containsSend _ => Bool
  | advanceSend _ => Option PendingSend
  | _ => Unit

abbrev Program (α : Type) := Prog Call Call.Ans α

def request (req : ServerRequest) : Program Bool := .perform (Call.request req)

def readOwned : Program (Option OwnedContent) := .perform Call.readOwned

def setOwned (content : Option OwnedContent) : Program Unit := .perform (Call.setOwned content)

def SelectionRequest.notify (ev : SelectionRequest) (property : Nat) : SelectionNotify :=
  ⟨ev.time, ev.requestor, ev.selection, ev.target, property⟩

def sendSelectionNotify (ev : SelectionRequest) (property : Nat) : Program Unit :=
  (request (.sendEvent (ev.notify property))).bind fun _ => .ret ()

/-- The property is changed, and the requestor is told whether it is. -/
def changeAndNotify (ev : SelectionRequest) (req : ServerRequest) : Program Unit :=
  (request req).bind fun ok => sendSelectionNotify ev (if ok then ev.property else xNone)

section

variable (atoms : AtomTable)

/-- The transfer is entered with the text that is owned by now. -/
def registerSend (ev : SelectionRequest) : Program Unit :=
  readOwned.bind fun
    | none => .ret ()
    | some content => (Prog.perform Call.instantNow).bind fun (startedAt : Nat) =>
        .perform (Call.insertSend (ev.requestor, ev.property)
          ⟨⟨content.text, 0⟩, ev.time, ev.property, ev.requestor, atoms.utf8String, startedAt⟩)

def serveText (ev : SelectionRequest) (text : Str) : Program Unit :=
  if byteLen text ≤ ownerSingleShotCap then
    changeAndNotify ev (.changeProperty8 ev.requestor ev.property atoms.utf8String (utf8 text))
  else
    (request (.selectPropertyChanges ev.requestor)).bind fun _ =>
    (request (.changeProperty32 ev.requestor ev.property atoms.incr [byteLen text % 2 ^ 32])).bind
      fun ok =>
        if ok then (registerSend atoms ev).bind fun () => sendSelectionNotify ev ev.property
        else sendSelectionNotify ev xNone

def handleSelectionRequest (ev : SelectionRequest) : Program Unit :=
  if ev.target = atoms.targets then
    changeAndNotify ev (.changeProperty32 ev.requestor ev.property atomEnumAtom
      [atoms.utf8String, atoms.string, atoms.targets, atoms.timestamp])
  else if ev.target = atoms.timestamp then
    readOwned.bind fun
      | none => sendSelectionNotify ev xNone
      | some content => changeAndNotify ev
          (.changeProperty32 ev.requestor ev.property atomEnumInteger [content.acquiredAt])
  else if ev.target = atoms.utf8String ∨ ev.target = atoms.string then
    readOwned.bind fun
      | none => sendSelectionNotify ev xNone
      | some content => serveText atoms ev content.text
  else sendSelectionNotify ev xNone

/-- `serve_next_incr_chunk`: under its lock, the offset of a transfer that is not at its end is
advanced. -/
def serveNextIncrChunk (key : Key) : Program Unit :=
  (Prog.perform (Call.advanceSend key)).bind fun
    | none => .ret ()
    | some (entry : PendingSend) =>
      match entry.serveNext.2 with
      | none =>
        (request (.changeProperty8 entry.requestor entry.targetProperty entry.target [])).bind
          fun _ => .perform (Call.removeSend key)
      | some _ => (request (.changeProperty8 key.1 key.2 atoms.utf8String entry.serveNext.1)).bind
          fun _ => .ret ()

/-- `handle_event` -/
def handleEvent (ourWindow : Nat) : Notice → Program Unit
  | .selectionRequest ev => handleSelectionRequest atoms ev
  | .propertyDeleted window atom =>
    if window = ourWindow ∧ atom = atoms.invisiboolTimestampFetch then .ret ()
    else (Prog.perform (Call.containsSend (window, atom))).bind fun (hasSend : Bool) =>
      if hasSend then serveNextIncrChunk atoms (window, atom) else .ret ()
  | .selectionClear selection =>
    if selection = atoms.clipboard then setOwned none else .ret ()
  | .other => .ret ()

/-- The event thread, for so many events. -/
def run (ourWindow : Nat) : Nat → Program Unit
  | 0 => .ret ()
  | n + 1 => (Prog.perform Call.loadShutdown).bind fun (shutdown : Bool) =>
      if shutdown then .ret ()
      else (Prog.perform Call.waitForEvent).bind fun (found : Option Notice) =>
        match found with
        | none => .ret ()
        | some ev => (handleEvent atoms ourWindow ev).bind fun () => run ourWindow n

end

/-- The watchdog, for so many sweeps. -/
def watchdog : Nat → Program Unit
  | 0 => .ret ()
  | n + 1 => (Prog.perform Call.loadShutdown).bind fun (shutdown : Bool) =>
      if shutdown then .ret ()
      else (Prog.perform Call.instantNow).bind fun (now : Nat) =>
        (Prog.perform (Call.sweepSends now)).bind fun () => watchdog n

/-- A thread that writes and clears. -/
def writer : List (Option OwnedContent) → Program Unit
  | [] => .ret ()
  | content :: contents => (setOwned content).bind fun () => writer contents

/-- Ten seconds, in nanoseconds. -/
def incrSendTimeout : Nat := 10 * 10 ^ 9

/-- The offset is advanced when a chunk has been taken. -/
def PendingSend.advance (entry : PendingSend) : PendingSend :=
  match entry.serveNext.2 with
  | none => entry
  | some rest => { entry with toIncrSend := rest }

/-- `retain` -/
def sweep (now : Nat) (sends : Key → Option PendingSend) : Key → Option PendingSend :=
  fun key => (sends key).filter fun entry => now - entry.startedAt < incrSendTimeout

/-- Any event may come at any time, and any request may fail. -/
def world : World Call Call.Ans State
  | .loadShutdown, s, _, s' => s' = s
  | .waitForEvent, s, _, s' => s' = s
  | .request _, s, _, s' => s' = s
  | .readOwned, s, ans, s' => ans = s.owned ∧ s' = s
  | .setOwned content, s, _, s' => s' = { s with owned := content }
  | .instantNow, s, ans, s' => s.now ≤ ans ∧ s' = { s with now := ans }
  | .containsSend key, s, ans, s' => ans = (s.sends key).isSome ∧ s' = s
  | .insertSend key entry, s, _, s' =>
      s' = { s with sends := Function.update s.sends key (some entry) }
  | .advanceSend key, s, ans, s' => ans = s.sends key ∧
      s' = { s with sends := Function.update s.sends key ((s.sends key).map PendingSend.advance) }
  | .removeSend key, s, _, s' => s' = { s with sends := Function.update s.sends key none }
  | .sweepSends now, s, _, s' => s' = { s with sends := sweep now s.sends }

/-- The threads of a process, which may have any number of writers. -/
inductive Thread (κ : Type)
  | events
  | watchdog
  | writer (k : κ)
  deriving DecidableEq

def threads {κ : Type} (atoms : AtomTable) (ourWindow events sweeps : Nat)
    (contents : κ → List (Option OwnedContent)) : Thread κ → Program Unit
  | .events => run atoms ourWindow events
  | .watchdog => watchdog sweeps
  | .writer k => writer (contents k)

abbrev Answered := Process.Event Call Call.Ans

/-- What there is to be known of a history: the request that is to be answered, the contents that
have been owned since it was taken and the last request to the server since then, the transfer that
a chunk is being taken from, and what each key has been sent since its transfer was entered. -/
structure Watch where
  asked : Option SelectionRequest
  owned : Option OwnedContent
  since : List (Option OwnedContent)
  offered : Option (ServerRequest × Bool)
  busy : Option Key
  sendings : Key → Option Sending

namespace Watch

def start (owned : Option OwnedContent) : Watch := ⟨none, owned, [], none, none, fun _ => none⟩

variable (w : Watch)

def take : Option Notice → Watch
  | some (.selectionRequest ev) =>
      { w with asked := some ev, since := [w.owned], offered := none }
  | _ => w

/-- The size that the requestor has been told. -/
def announced : Nat :=
  match w.offered with
  | some (.changeProperty32 _ _ _ [size], _) => size
  | _ => 0

/-- Behind an empty piece the transfer is still to be removed. -/
def send (key : Key) (piece : List UInt8) : Watch :=
  { w with
    busy := if piece = [] then w.busy else none
    sendings := Function.update w.sendings key ((w.sendings key).map fun t =>
      { t with pieces := t.pieces ++ [piece] }) }

/-- A request to the server is part of an answer, or else a piece of a transfer. -/
def sent (req : ServerRequest) (ok : Bool) : Watch :=
  match w.asked, req with
  | _, .sendEvent _ => { w with asked := none }
  | some _, req => { w with offered := some (req, ok) }
  | none, .changeProperty8 window property _ piece => w.send (window, property) piece
  | none, _ => w

def observe : Answered → Watch
  | ⟨.waitForEvent, ans⟩ => w.take ans
  | ⟨.request req, ok⟩ => w.sent req ok
  | ⟨.setOwned content, _⟩ => { w with owned := content, since := w.since ++ [content] }
  | ⟨.insertSend key entry, _⟩ =>
      { w with sendings := Function.update w.sendings key (some ⟨entry.content, w.announced, []⟩) }
  | ⟨.advanceSend key, entry⟩ => { w with busy := (entry : Option PendingSend).map fun _ => key }
  | ⟨.removeSend _, _⟩ => { w with busy := none }
  | _ => w

end Watch

/-- The observer at the end of a history. -/
def watch (owned : Option OwnedContent) (history : List Answered) : Watch :=
  history.foldl Watch.observe (.start owned)

section

variable (atoms : AtomTable)

def Supported (target : Nat) : Prop :=
  target = atoms.targets ∨ target = atoms.timestamp ∨ target = atoms.utf8String ∨
    target = atoms.string

/-- What may be put into the property of a requestor: what it has asked for, of a content that has
been owned since. -/
inductive Offer (ev : SelectionRequest) (since : List (Option OwnedContent)) : ServerRequest → Prop
  | targets : ev.target = atoms.targets →
      Offer ev since (.changeProperty32 ev.requestor ev.property atomEnumAtom
        [atoms.utf8String, atoms.string, atoms.targets, atoms.timestamp])
  | timestamp {content} : ev.target = atoms.timestamp → some content ∈ since →
      Offer ev since
        (.changeProperty32 ev.requestor ev.property atomEnumInteger [content.acquiredAt])
  | text {content} : ev.target = atoms.utf8String ∨ ev.target = atoms.string →
      some content ∈ since → byteLen content.text ≤ ownerSingleShotCap →
      Offer ev since
        (.changeProperty8 ev.requestor ev.property atoms.utf8String (utf8 content.text))
  | size {content} : ev.target = atoms.utf8String ∨ ev.target = atoms.string →
      some content ∈ since → ownerSingleShotCap < byteLen content.text →
      Offer ev since (.changeProperty32 ev.requestor ev.property atoms.incr
        [byteLen content.text % 2 ^ 32])

/-- Why a request may be refused: nobody knows its target, nothing was owned at some moment since
it was taken, or the property could not be changed. -/
def Refusable (w : Watch) (ev : SelectionRequest) : Prop :=
  ¬Supported atoms ev.target ∨ ev.target ≠ atoms.targets ∧ none ∈ w.since ∨
    ∃ req, w.offered = some (req, false)

/-- The answer that `notify` is to a request: its property holds what was asked for, or there is
none. -/
def Answers (w : Watch) (ev : SelectionRequest) (notify : SelectionNotify) : Prop :=
  notify = ev.notify ev.property ∧
      (∃ req, w.offered = some (req, true) ∧ Offer atoms ev w.since req) ∨
    notify = ev.notify xNone ∧ Refusable atoms w ev

/-- What may be sent to the server, in answer to a request or else as a piece of a transfer. -/
def MaySend (w : Watch) : ServerRequest → Prop
  | .sendEvent notify => ∃ ev, w.asked = some ev ∧ Answers atoms w ev notify
  | .selectPropertyChanges window => ∃ ev, w.asked = some ev ∧ window = ev.requestor
  | .changeProperty32 window property type data => ∃ ev, w.asked = some ev ∧
      Offer atoms ev w.since (.changeProperty32 window property type data)
  | .changeProperty8 window property type data =>
      (∃ ev, w.asked = some ev ∧
        Offer atoms ev w.since (.changeProperty8 window property type data)) ∨
      w.asked = none ∧ type = atoms.utf8String ∧ ∃ t, w.sendings (window, property) = some t ∧
        ((⟨t.text, t.announced, t.pieces ++ [data]⟩ : Sending).Begun ∨
          (⟨t.text, t.announced, t.pieces ++ [data]⟩ : Sending).Delivered)

/-- What may happen next. No event is waited for before the last request has been answered, and the
text of a transfer has been owned since its request was taken. -/
def Proper (w : Watch) : Answered → Prop
  | ⟨.waitForEvent, _⟩ => w.asked = none
  | ⟨.request req, _⟩ => MaySend atoms w req
  | ⟨.insertSend key entry, _⟩ => ∃ ev, w.asked = some ev ∧ key = (ev.requestor, ev.property) ∧
      ∃ content, some content ∈ w.since ∧ entry.content = content.text
  | _ => True

end

/-- All that has happened was proper when it did. -/
inductive Properly (atoms : AtomTable) (owned : Option OwnedContent) : List Answered → Prop
  | nil : Properly atoms owned []
  | snoc {history event} : Properly atoms owned history →
      Proper atoms (watch owned history) event → Properly atoms owned (history ++ [event])

end Invisibool.Clipboard.Conversions
