import Invisibool.Clipboard.Event
import Mathlib.Logic.Function.Basic
import Mathlib.Logic.Relation

/-!
# Owning the X11 selection

`write_text` and `clear` of the X11 backend as the steps that their threads take, the event thread,
the server, and the other clients. Requests go to the server in the order in which they were sent,
and its events come back in the order in which they were made.
-/

namespace Invisibool.Clipboard
open Text Relation

/-- A content with the server time of its writing, in milliseconds. -/
structure OwnedContent where
  text : Str
  token : WriteToken
  acquiredAt : Nat
  deriving DecidableEq, Repr

/-- The owner window of a selection: none, ours, or one of another client. -/
inductive Owner
  | none
  | ourWindow
  | other (window : Nat)
  deriving DecidableEq, Repr

structure X11Inner where
  owned : Option OwnedContent
  nextToken : Nat
  lastChangeCount : Nat
  /-- Whether a writer waits for a time, and the time that it has been given. -/
  pendingTimestamp : Option (Option Nat)

namespace X11Inner

variable (inner : X11Inner)

def newToken : WriteToken × X11Inner :=
  (⟨inner.nextToken⟩, { inner with nextToken := inner.nextToken + 1 })

def bumpChangeCount : Nat × X11Inner :=
  (inner.lastChangeCount + 1, { inner with lastChangeCount := inner.lastChangeCount + 1 })

/-- `handle_property_notify` for the property of the timestamps: a slot that waits is filled, and
any other time is dropped. -/
def handleTimestampNotify (time : Nat) : X11Inner :=
  match inner.pendingTimestamp with
  | some none => { inner with pendingTimestamp := some (some time) }
  | _ => inner

/-- `handle_event` for a `SelectionClear`. -/
def handleSelectionClear : X11Inner := { inner with owned := none }

/-- What `handle_xfixes_selection_notify` emits, once it has counted the change. -/
def selectionEvent (owner : Owner) (cc : Nat) : ClipboardEvent :=
  ⟨cc, if owner = .ourWindow then inner.owned.map OwnedContent.token else none⟩

lemma owned_handleTimestampNotify (time : Nat) :
    (inner.handleTimestampNotify time).owned = inner.owned := by
  unfold handleTimestampNotify
  split <;> rfl

lemma nextToken_handleTimestampNotify (time : Nat) :
    (inner.handleTimestampNotify time).nextToken = inner.nextToken := by
  unfold handleTimestampNotify
  split <;> rfl

lemma lastChangeCount_handleTimestampNotify (time : Nat) :
    (inner.handleTimestampNotify time).lastChangeCount = inner.lastChangeCount := by
  unfold handleTimestampNotify
  split <;> rfl

end X11Inner

/-- The requests about the selection. Of the content that `SetSelectionOwner` is for, the server
sees the time. -/
inductive Request
  | appendTimestampProperty
  | setSelectionOwner (content : OwnedContent)
  | setSelectionOwnerNone
  deriving DecidableEq, Repr

/-- The events on our window. `cause` is the write whose request has made the event; no handler
looks at it. -/
inductive Event
  | propertyNotify (time : Nat)
  | selectionClear
  | xfixesSelectionNotify (owner : Owner) (cause : Option WriteToken)
  deriving DecidableEq, Repr

/-- The selection on the server, and its clock. `effective` is the content of the last of our
writes whose `SetSelectionOwner` took effect. -/
structure Server where
  owner : Owner
  lastChange : Nat
  now : Nat
  effective : Option OwnedContent

namespace Server

variable (server : Server)

/-- A time before the last change, or one that the clock has not reached. -/
def Refuses (time : Nat) : Prop := time < server.lastChange ∨ server.now < time

instance (time : Nat) : Decidable (server.Refuses time) := by
  unfold Refuses
  infer_instance

/-- `SetSelectionOwner` has no effect with a time that is refused. The owner that loses the
selection is told, and then everybody who has asked XFixes. -/
def setSelectionOwner (owner : Owner) (time : Nat) (content : Option OwnedContent) :
    Server × List Event :=
  if server.Refuses time then (server, [])
  else ({ server with owner := owner, lastChange := time, effective := content.or server.effective },
    (if server.owner = .ourWindow ∧ owner ≠ .ourWindow then [.selectionClear] else []) ++
      [.xfixesSelectionNotify owner (content.map OwnedContent.token)])

/-- `CurrentTime` stands for the time of the server. -/
def serve : Request → Server × List Event
  | .appendTimestampProperty => (server, [.propertyNotify server.now])
  | .setSelectionOwner content =>
      server.setSelectionOwner .ourWindow content.acquiredAt (some content)
  | .setSelectionOwnerNone => server.setSelectionOwner .none server.now none

/-- The window of the owner is destroyed, or its client goes away. -/
def ownerGone : Server × List Event :=
  ({ server with owner := .none }, [.xfixesSelectionNotify .none none])

variable {server} {owner : Owner} {time : Nat} {content : Option OwnedContent}

lemma setSelectionOwner_refused (h : server.Refuses time) :
    server.setSelectionOwner owner time content = (server, []) := if_pos h

lemma setSelectionOwner_effective (h : ¬server.Refuses time) :
    server.setSelectionOwner owner time content =
      ({ server with owner := owner, lastChange := time,
                     effective := content.or server.effective },
        (if server.owner = .ourWindow ∧ owner ≠ .ourWindow then [.selectionClear] else []) ++
          [.xfixesSelectionNotify owner (content.map OwnedContent.token)]) := if_neg h

/-- A change of the owner at the time of the server always takes effect. -/
lemma not_refuses_now (h : server.lastChange ≤ server.now) : ¬server.Refuses server.now := by
  unfold Refuses
  omega

lemma clock_setSelectionOwner (h : server.lastChange ≤ server.now) :
    (server.setSelectionOwner owner time content).1.lastChange ≤
      (server.setSelectionOwner owner time content).1.now := by
  by_cases hr : server.Refuses time
  · rwa [setSelectionOwner_refused hr]
  · rw [setSelectionOwner_effective hr]
    unfold Refuses at hr
    dsimp only
    omega

lemma lastChange_setSelectionOwner :
    server.lastChange ≤ (server.setSelectionOwner owner time content).1.lastChange := by
  by_cases hr : server.Refuses time
  · rw [setSelectionOwner_refused hr]
  · rw [setSelectionOwner_effective hr]
    unfold Refuses at hr
    dsimp only
    omega

lemma effective_setSelectionOwner_none :
    (server.setSelectionOwner owner time none).1.effective = server.effective := by
  unfold setSelectionOwner
  split <;> rfl

end Server

/-- Where a thread is in `write_text` or `clear`. -/
inductive Call
  | idle
  | slotTaken (text : Str)
  | fetching (text : Str)
  | fetched (text : Str) (time : Nat)
  | minted (content : OwnedContent)
  | stored (content : OwnedContent)
  | dropped
  | released
  deriving DecidableEq, Repr

/-- An event of the backend, with the write that has caused it. -/
structure Emission where
  event : ClipboardEvent
  cause : Option WriteToken
  deriving DecidableEq, Repr

/-- The backend with its threads, the server, and what is under way between them. `counted` is the
count that the event thread has taken for the event at the head. -/
@[ext]
structure X11 (ι : Type) where
  inner : X11Inner
  calls : ι → Call
  requests : List Request
  server : Server
  events : List Event
  counted : Option Nat
  emitted : List Emission

/-- One step: of a thread in `write_text` or `clear`, of the server, of another client, of the
clock, or of the event thread. -/
inductive Act (ι : Type)
  | takeSlot (i : ι) (text : Str)
  | fetch (i : ι) (text : Str)
  | wake (i : ι) (text : Str) (time : Nat)
  | timeOut (i : ι) (text : Str)
  | mint (i : ι) (text : Str) (time : Nat)
  | store (i : ι) (content : OwnedContent)
  | setOwner (i : ι) (content : OwnedContent)
  | drop (i : ι)
  | release (i : ι)
  | bump (i : ι)
  | serve (request : Request)
  | foreign (owner : Owner) (time : Nat)
  | ownerGone
  | tick (later : Nat)
  | fillSlot (time : Nat)
  | selectionClear
  | count (owner : Owner) (cause : Option WriteToken)
  | emit (owner : Owner) (cause : Option WriteToken) (cc : Nat)
  deriving DecidableEq, Repr

namespace X11

variable {ι : Type} (s : X11 ι)

/-- When a step can be taken. A text that is too long is refused before the first step, and a
thread that finds its slot filled does not time out. -/
def Enabled : Act ι → Prop
  | .takeSlot i text => s.calls i = .idle ∧ byteLen text ≤ maxClipboardBytes ∧
      s.inner.pendingTimestamp = none
  | .fetch i text => s.calls i = .slotTaken text
  | .wake i text time => s.calls i = .fetching text ∧ s.inner.pendingTimestamp = some (some time)
  | .timeOut i text => s.calls i = .fetching text ∧ s.inner.pendingTimestamp.join = none
  | .mint i text time => s.calls i = .fetched text time
  | .store i content => s.calls i = .minted content
  | .setOwner i content => s.calls i = .stored content
  | .drop i => s.calls i = .idle
  | .release i => s.calls i = .dropped
  | .bump i => s.calls i = .released
  | .serve request => s.requests.head? = some request
  | .foreign owner _ => owner ≠ .ourWindow
  | .ownerGone => s.server.owner ≠ .none ∧ s.server.owner ≠ .ourWindow
  | .tick _ => True
  | .fillSlot time => s.events.head? = some (.propertyNotify time)
  | .selectionClear => s.events.head? = some .selectionClear
  | .count owner cause => s.events.head? = some (.xfixesSelectionNotify owner cause) ∧
      s.counted = none
  | .emit owner cause cc => s.events.head? = some (.xfixesSelectionNotify owner cause) ∧
      s.counted = some cc

instance (a : Act ι) : Decidable (s.Enabled a) := by
  cases a <;> unfold Enabled <;> infer_instance

variable [DecidableEq ι]

def setCall (i : ι) (call : Call) : X11 ι := { s with calls := Function.update s.calls i call }

def send (request : Request) : X11 ι := { s with requests := s.requests ++ [request] }

def withInner (inner : X11Inner) : X11 ι := { s with inner := inner }

/-- The server has done something and made events. -/
def reply (r : Server × List Event) : X11 ι := { s with server := r.1, events := s.events ++ r.2 }

/-- What a step does, when it can be taken. -/
def next : Act ι → X11 ι
  | .takeSlot i text =>
      (s.withInner { s.inner with pendingTimestamp := some none }).setCall i (.slotTaken text)
  | .fetch i text => (s.send .appendTimestampProperty).setCall i (.fetching text)
  | .wake i text time =>
      (s.withInner { s.inner with pendingTimestamp := none }).setCall i (.fetched text time)
  | .timeOut i _ => (s.withInner { s.inner with pendingTimestamp := none }).setCall i .idle
  | .mint i text time => (s.withInner s.inner.newToken.2).setCall i
      (.minted ⟨text, s.inner.newToken.1, time⟩)
  | .store i content =>
      (s.withInner { s.inner with owned := some content }).setCall i (.stored content)
  | .setOwner i content => (s.send (.setSelectionOwner content)).setCall i .idle
  | .drop i => (s.withInner { s.inner with owned := none }).setCall i .dropped
  | .release i => (s.send .setSelectionOwnerNone).setCall i .released
  | .bump i => (s.withInner s.inner.bumpChangeCount.2).setCall i .idle
  | .serve request => { s.reply (s.server.serve request) with requests := s.requests.tail }
  | .foreign owner time => s.reply (s.server.setSelectionOwner owner time none)
  | .ownerGone => s.reply s.server.ownerGone
  | .tick later => { s with server := { s.server with now := s.server.now + later } }
  | .fillSlot time =>
      { s.withInner (s.inner.handleTimestampNotify time) with events := s.events.tail }
  | .selectionClear => { s.withInner s.inner.handleSelectionClear with events := s.events.tail }
  | .count _ _ =>
      { s.withInner s.inner.bumpChangeCount.2 with counted := some s.inner.bumpChangeCount.1 }
  | .emit owner cause cc =>
      { s with events := s.events.tail, counted := none,
               emitted := s.emitted ++ [⟨s.inner.selectionEvent owner cc, cause⟩] }

/-- A step of a run whose steps are all among the allowed ones. -/
def Step (allowed : X11 ι → Act ι → Prop) (s s' : X11 ι) : Prop :=
  ∃ a, s.Enabled a ∧ allowed s a ∧ s' = s.next a

/-- The steps can be taken one after the other, and are allowed. -/
def Runs (allowed : X11 ι → Act ι → Prop) : X11 ι → List (Act ι) → Prop
  | _, [] => True
  | s, a :: acts => s.Enabled a ∧ allowed s a ∧ Runs allowed (s.next a) acts

instance instDecidableRuns {allowed : X11 ι → Act ι → Prop} [∀ s a, Decidable (allowed s a)] :
    ∀ (s : X11 ι) (acts : List (Act ι)), Decidable (s.Runs allowed acts)
  | _, [] => isTrue trivial
  | s, a :: acts =>
    have : Decidable ((s.next a).Runs allowed acts) := instDecidableRuns (s.next a) acts
    inferInstanceAs (Decidable (s.Enabled a ∧ allowed s a ∧ Runs allowed (s.next a) acts))

/-- The backend as `new` leaves it, on any server that does not hold our window for the owner. -/
structure Initial (s : X11 ι) : Prop where
  inner : s.inner = ⟨none, 1, 0, none⟩
  calls : ∀ i, s.calls i = .idle
  requests : s.requests = []
  owner : s.server.owner ≠ .ourWindow
  clock : s.server.lastChange ≤ s.server.now
  effective : s.server.effective = none
  events : s.events = []
  counted : s.counted = none
  emitted : s.emitted = []

variable {s}

@[simp] lemma calls_setCall_self (i : ι) (call : Call) : (s.setCall i call).calls i = call := by
  simp [setCall]

lemma calls_setCall_of_ne {i j : ι} (h : j ≠ i) (call : Call) :
    (s.setCall i call).calls j = s.calls j := by
  simp [setCall, h]

/-- One thread, and a server on which nobody owns the selection. -/
def fresh : X11 Unit := ⟨⟨none, 1, 0, none⟩, fun _ => .idle, [], ⟨.none, 0, 0, none⟩, [], none, []⟩

lemma initial_fresh : fresh.Initial where
  inner := rfl
  calls _ := rfl
  requests := rfl
  owner := by decide
  clock := le_rfl
  effective := rfl
  events := rfl
  counted := rfl
  emitted := rfl

/-- The steps of `write_text` up to the time that it is given, and those after it. -/
def fetching (content : OwnedContent) : List (Act Unit) :=
  [.takeSlot () content.text, .fetch () content.text, .serve .appendTimestampProperty,
    .fillSlot content.acquiredAt, .wake () content.text content.acquiredAt]

def owning (content : OwnedContent) : List (Act Unit) :=
  [.mint () content.text content.acquiredAt, .store () content, .setOwner () content]

def handling (owner : Owner) (cause : Option WriteToken) (cc : Nat) : List (Act Unit) :=
  [.count owner cause, .emit owner cause cc]

theorem Runs.reaches {allowed : X11 ι → Act ι → Prop} {acts : List (Act ι)}
    (h : s.Runs allowed acts) : ReflTransGen (Step allowed) s (acts.foldl (fun s a => s.next a) s) := by
  induction acts generalizing s with
  | nil => exact .refl
  | cons a acts ih => exact .head ⟨a, h.1, h.2.1, rfl⟩ (ih h.2.2)

end X11

end Invisibool.Clipboard
