import Invisibool.Clipboard.Event
import Invisibool.Text.Utf8
import Invisibool.System.Transition
import Mathlib.Logic.Function.Basic

/-!
# Answering in increments

How the event thread answers requests for the text that we own, and sends a large text in
increments, one whenever the requestor has deleted the last. It looks at the owned text twice, when
it announces the size, and when it registers what is to be sent; our writers may come in between.
-/

namespace Invisibool.Clipboard
open Text Transition

/-- The largest text that is sent at once. -/
def ownerSingleShotCap : Nat := 256 * 1024

def ownerIncrChunkSize : Nat := 64 * 1024

/-- What is still to be sent of a text. -/
structure IncrSend where
  content : Str
  nextOffset : Nat
  deriving DecidableEq

/-- `serve_next_incr_chunk`: the next piece, and the entry that is left. Behind the last chunk
comes an empty piece. -/
def IncrSend.serveNext (entry : IncrSend) : List UInt8 × Option IncrSend :=
  let bytes := utf8 entry.content
  let remaining := bytes.length - entry.nextOffset
  if remaining = 0 then ([], none)
  else
    let taken := min remaining ownerIncrChunkSize
    ((bytes.drop entry.nextOffset).take taken,
      some { entry with nextOffset := entry.nextOffset + taken })

/-- What a requestor is sent in increments: the text when its request was looked at, the size that
it has been told, and the pieces so far. -/
structure Sending where
  text : Str
  announced : Nat
  pieces : List (List UInt8)
  deriving DecidableEq

/-- What we are told about the property of a requestor. -/
inductive News
  | selectionRequest
  | propertyDeleted
  deriving DecidableEq

structure SendEvent (κ : Type) where
  key : κ
  news : News
  deriving DecidableEq

/-- The owned text, the registry of what is being sent, the text at which the event thread has
looked for a request that it is in the middle of, and the events that it has not taken yet. A key is a
requestor's window with a property of it. `properties` says which of them are there, and `sendings`
what each key has been sent since it was last told a size. -/
structure Sends (κ : Type) where
  owned : Option Str
  sends : κ → Option IncrSend
  looked : Option (κ × Str)
  events : List (SendEvent κ)
  properties : κ → Bool
  sendings : κ → Option Sending

namespace Sends

/-- One step: of a writer, of a requestor, or of the event thread. -/
inductive Act (κ : Type)
  | change (owned : Option Str)
  | request (key : κ)
  | delete (key : κ)
  | handleRequest (key : κ)
  | register (key : κ) (text : Str)
  | handleDelete (key : κ)
  deriving DecidableEq

variable {κ : Type} [DecidableEq κ]

/-- When a step can be taken. A requestor asks for a property when it has deleted it, and when what
it has been sent before has come to its empty piece. -/
def Enabled (s : Sends κ) : Act κ → Prop
  | .change owned => ∀ text ∈ owned, byteLen text ≤ maxClipboardBytes
  | .request key => s.properties key = false ∧ ⟨key, .selectionRequest⟩ ∉ s.events ∧
      ∀ t ∈ s.sendings key, [] ∈ t.pieces
  | .delete key => s.properties key = true
  | .handleRequest key => s.events.head? = some ⟨key, .selectionRequest⟩ ∧ s.looked = none
  | .register key text => s.looked = some (key, text)
  | .handleDelete key => s.events.head? = some ⟨key, .propertyDeleted⟩ ∧ s.looked = none

def writeProperty (s : Sends κ) (key : κ) : Sends κ :=
  { s with properties := Function.update s.properties key true }

/-- `handle_selection_request`, up to the size. The size is sent in 32 bits. -/
def handleSelectionRequest (s : Sends κ) (key : κ) : Sends κ :=
  match s.owned with
  | none => s
  | some text =>
    if byteLen text ≤ ownerSingleShotCap then s.writeProperty key
    else
      { s.writeProperty key with
        looked := some (key, text)
        sendings := Function.update s.sendings key (some ⟨text, byteLen text % 2 ^ 32, []⟩) }

/-- The rest of `handle_selection_request`, which looks at the owned text again. -/
def register (s : Sends κ) (key : κ) : Sends κ :=
  match s.owned with
  | none => { s with looked := none }
  | some text =>
    { s with looked := none, sends := Function.update s.sends key (some ⟨text, 0⟩) }

/-- `handle_property_notify` for a property that has been deleted. -/
def handlePropertyDeleted (s : Sends κ) (key : κ) : Sends κ :=
  match s.sends key with
  | none => s
  | some entry =>
    { s.writeProperty key with
      sends := Function.update s.sends key entry.serveNext.2
      sendings := Function.update s.sendings key ((s.sendings key).map fun t =>
        { t with pieces := t.pieces ++ [entry.serveNext.1] }) }

def popEvent (s : Sends κ) : Sends κ := { s with events := s.events.tail }

/-- What a step does, when it can be taken. -/
def next (s : Sends κ) : Act κ → Sends κ
  | .change owned => { s with owned := owned }
  | .request key => { s with events := s.events ++ [⟨key, .selectionRequest⟩] }
  | .delete key =>
      { s with properties := Function.update s.properties key false
               events := s.events ++ [⟨key, .propertyDeleted⟩] }
  | .handleRequest key => s.popEvent.handleSelectionRequest key
  | .register key _ => s.register key
  | .handleDelete key => s.popEvent.handlePropertyDeleted key

def system : System (Sends κ) (Act κ) := ⟨Enabled, next⟩

def new : Sends κ := ⟨none, fun _ => none, none, [], fun _ => false, fun _ => none⟩

/-- The owned text is still the one of the first look when the event thread looks again. -/
def Unchanged (s : Sends κ) : Act κ → Prop
  | .register _ text => s.owned = some text
  | _ => True

end Sends

/-! ### What a requestor should get -/

def Chunks (chunks : List (List UInt8)) : Prop :=
  ∀ chunk ∈ chunks, chunk ≠ [] ∧ chunk.length ≤ ownerIncrChunkSize

namespace Sending

variable (t : Sending)

/-- Only large texts are sent in increments, and the size is that of the text. -/
structure Right : Prop where
  large : ownerSingleShotCap < byteLen t.text
  announced : t.announced = byteLen t.text

/-- The chunks so far are the beginning of the text. -/
def Begun : Prop := Chunks t.pieces ∧ t.pieces.flatten <+: utf8 t.text

/-- Chunks that make up the text, and one empty piece behind them. -/
def Delivered : Prop :=
  ∃ chunks, t.pieces = chunks ++ [[]] ∧ Chunks chunks ∧ chunks.flatten = utf8 t.text

end Sending

/-! ### One piece -/

/-- Once the chunks make up the text, an empty piece follows. -/
lemma IncrSend.serveNext_last {entry : IncrSend} (h : byteLen entry.content ≤ entry.nextOffset) :
    entry.serveNext = ([], none) := by
  unfold IncrSend.serveNext
  dsimp only
  rw [length_utf8]
  exact if_pos (Nat.sub_eq_zero_of_le h)

/-- Before that, a chunk follows, which is not empty. -/
lemma IncrSend.serveNext_chunk {entry : IncrSend} (h : entry.nextOffset < byteLen entry.content) :
    ∃ taken, 0 < taken ∧ taken ≤ ownerIncrChunkSize ∧
      entry.nextOffset + taken ≤ byteLen entry.content ∧
      entry.serveNext = (((utf8 entry.content).drop entry.nextOffset).take taken,
        some { entry with nextOffset := entry.nextOffset + taken }) := by
  have hremaining : byteLen entry.content - entry.nextOffset ≠ 0 := by omega
  refine ⟨min (byteLen entry.content - entry.nextOffset) ownerIncrChunkSize, ?_, ?_, ?_, ?_⟩
  · exact lt_min (Nat.pos_of_ne_zero hremaining) (by decide)
  · exact min_le_right _ _
  · have hle := min_le_left (byteLen entry.content - entry.nextOffset) ownerIncrChunkSize
    omega
  · unfold IncrSend.serveNext
    dsimp only
    rw [length_utf8]
    exact if_neg hremaining

lemma Chunks.append {chunks : List (List UInt8)} {chunk : List UInt8} (h : Chunks chunks)
    (hne : chunk ≠ []) (hlen : chunk.length ≤ ownerIncrChunkSize) : Chunks (chunks ++ [chunk]) := by
  intro c hc
  rcases List.mem_append.mp hc with hc | hc
  · exact h c hc
  · rw [List.mem_singleton.mp hc]
    exact ⟨hne, hlen⟩

lemma Chunks.not_mem_nil {chunks : List (List UInt8)} (h : Chunks chunks) : [] ∉ chunks :=
  fun hmem => (h [] hmem).1 rfl

/-- Non-empty chunks are no more than their bytes. -/
lemma Chunks.length_le {chunks : List (List UInt8)} (h : Chunks chunks) :
    chunks.length ≤ chunks.flatten.length := by
  induction chunks with
  | nil => exact le_rfl
  | cons chunk chunks ih =>
    have hpos := List.length_pos_iff.mpr (h chunk List.mem_cons_self).1
    have hle := ih fun c hc => h c (List.mem_cons_of_mem chunk hc)
    rw [List.length_cons, List.flatten_cons, List.length_append]
    omega

lemma Sending.Delivered.mem_nil {t : Sending} (h : t.Delivered) : [] ∈ t.pieces := by
  obtain ⟨chunks, hpieces, -⟩ := h
  rw [hpieces]
  exact List.mem_append_right _ List.mem_cons_self

namespace Sends

variable {κ : Type} [DecidableEq κ]

/-- What a requestor has been sent, and what is left of it: it has been told the size of its text, it
has got a beginning of the text in chunks or all of it with an empty piece, nothing is left when it
has got all, and it has got all when the property is not there and the event thread has nothing to do
about it. -/
structure Serves (s : Sends κ) (key : κ) (t : Sending) : Prop where
  right : t.Right
  pieces : t.Begun ∨ t.Delivered
  removed : t.Delivered → s.sends key = none
  served : s.properties key = false → (∀ text, s.looked ≠ some (key, text)) →
    ⟨key, .propertyDeleted⟩ ∉ s.events → t.Delivered

/-! ### One requestor -/

/-- What there is for one key. -/
structure View where
  send : Option IncrSend
  looked : Option Str
  property : Bool
  news : List News
  sending : Option Sending

def lookedFor (s : Sends κ) (key : κ) : Option Str :=
  s.looked.bind fun l => if l.1 = key then some l.2 else none

def newsOf (events : List (SendEvent κ)) (key : κ) : List News :=
  events.filterMap fun e => if e.key = key then some e.news else none

def view (s : Sends κ) (key : κ) : View :=
  ⟨s.sends key, s.lookedFor key, s.properties key, newsOf s.events key, s.sendings key⟩

/-- Either the requestor has a piece to delete, or the event thread is to be told that it has. -/
def View.Turn (v : View) : Prop :=
  v.property = true ∧ v.news = [] ∨ v.property = false ∧ v.news = [.propertyDeleted]

/-- What has been sent before has been delivered. -/
def View.Done (v : View) : Prop := ∀ t ∈ v.sending, t.Right ∧ t.Delivered

/-- How far the conversation with a requestor has got. -/
inductive Course (v : View) : Prop
  | ended : v.send = none → v.looked = none → v.Done →
      v.Turn ∨ v.property = false ∧ v.news = [] → Course v
  | asked (before : List News) : v.send = none → v.looked = none → v.Done → v.property = false →
      v.news = before ++ [.selectionRequest] → before = [] ∨ before = [.propertyDeleted] → Course v
  | announced (t : Sending) : v.send = none → v.looked = some t.text → v.sending = some t →
      v.Turn → t.Right → t.pieces = [] → Course v
  | sending (t : Sending) (nextOffset : Nat) : v.send = some ⟨t.text, nextOffset⟩ →
      v.looked = none → v.sending = some t → v.Turn → t.Right → Chunks t.pieces →
      t.pieces.flatten = (utf8 t.text).take nextOffset → Course v

/-- What is known of all states of a run. -/
structure Orderly (s : Sends κ) : Prop where
  owned : ∀ text ∈ s.owned, byteLen text ≤ maxClipboardBytes
  course : ∀ key, Course (s.view key)

/-! ### Single steps -/

/-- The key that a step is about. -/
def Act.key : Act κ → Option κ
  | change _ => none
  | request key => some key
  | delete key => some key
  | handleRequest key => some key
  | register key _ => some key
  | handleDelete key => some key

variable {s : Sends κ} {a : Act κ} {key : κ} {acts : List (Act κ)}

lemma newsOf_append (events : List (SendEvent κ)) (key key' : κ) (n : News) :
    newsOf (events ++ [⟨key', n⟩]) key = newsOf events key ++ if key' = key then [n] else [] := by
  unfold newsOf
  rw [List.filterMap_append, List.filterMap_cons]
  dsimp only
  split_ifs <;> rfl

/-- What the head is about comes first. -/
lemma newsOf_head {events : List (SendEvent κ)} {key' : κ} {n : News}
    (h : events.head? = some ⟨key', n⟩) (key : κ) :
    newsOf events key = (if key' = key then [n] else []) ++ newsOf events.tail key := by
  obtain ⟨later, rfl⟩ := List.head?_eq_some_iff.mp h
  unfold newsOf
  rw [List.filterMap_cons, List.tail_cons]
  dsimp only
  split_ifs <;> rfl

lemma mem_newsOf {events : List (SendEvent κ)} {n : News} :
    n ∈ newsOf events key ↔ ⟨key, n⟩ ∈ events := by
  unfold newsOf
  rw [List.mem_filterMap]
  constructor
  · rintro ⟨⟨key', n'⟩, he, hn⟩
    dsimp only at hn
    split_ifs at hn with hkey
    obtain rfl := Option.some.inj hn
    rwa [← hkey]
  · intro he
    exact ⟨_, he, if_pos rfl⟩

lemma lookedFor_none (h : s.looked = none) (key : κ) : s.lookedFor key = none := by
  unfold lookedFor
  rw [h]
  rfl

lemma lookedFor_eq_some {text : Str} : s.lookedFor key = some text ↔ s.looked = some (key, text) := by
  unfold lookedFor
  cases s.looked with
  | none => exact iff_of_false nofun nofun
  | some l =>
    rw [Option.bind_some]
    split_ifs with hkey
    · rw [← hkey, Option.some_inj, Option.some_inj, Prod.ext_iff, and_iff_right rfl]
    · refine iff_of_false nofun fun h => hkey ?_
      exact congrArg Prod.fst (Option.some.inj h)

lemma view_congr {s' : Sends κ} (hsends : s'.sends key = s.sends key)
    (hlooked : s'.lookedFor key = s.lookedFor key) (hproperty : s'.properties key = s.properties key)
    (hnews : newsOf s'.events key = newsOf s.events key)
    (hsending : s'.sendings key = s.sendings key) : s'.view key = s.view key := by
  unfold view
  rw [hsends, hlooked, hproperty, hnews, hsending]

/-- What the event thread does about one key is nothing to the others. -/
lemma view_handleSelectionRequest {key' : κ} (hkey : key' ≠ key) (h : s.looked = none) :
    (s.handleSelectionRequest key').view key = s.view key := by
  have hproperty : ∀ b, Function.update s.properties key' b key = s.properties key :=
    fun b => Function.update_of_ne hkey.symm b s.properties
  unfold handleSelectionRequest
  split
  · rfl
  · split_ifs
    · exact view_congr rfl rfl (hproperty _) rfl rfl
    · refine view_congr rfl ?_ (hproperty _) rfl (Function.update_of_ne hkey.symm _ _)
      rw [lookedFor_none h]
      exact if_neg hkey

lemma view_register {key' : κ} {text : Str} (hkey : key' ≠ key) (h : s.looked = some (key', text)) :
    (s.register key').view key = s.view key := by
  have hlooked : none = s.lookedFor key := by
    unfold lookedFor
    rw [h]
    exact (if_neg hkey).symm
  unfold register
  split
  · exact view_congr rfl hlooked rfl rfl rfl
  · exact view_congr (Function.update_of_ne hkey.symm _ _) hlooked rfl rfl rfl

lemma view_handlePropertyDeleted {key' : κ} (hkey : key' ≠ key) :
    (s.handlePropertyDeleted key').view key = s.view key := by
  unfold handlePropertyDeleted
  split
  · rfl
  · exact view_congr (Function.update_of_ne hkey.symm _ _) rfl
      (Function.update_of_ne hkey.symm _ _) rfl (Function.update_of_ne hkey.symm _ _)

/-- The event at the head is taken. -/
lemma view_popEvent {key' : κ} {n : News} (h : s.events.head? = some ⟨key', n⟩) :
    (s.view key).news = (if key' = key then [n] else []) ++ (s.popEvent.view key).news :=
  newsOf_head h key

/-- A step is nothing to the keys that it is not about. -/
lemma view_next (he : s.Enabled a) (hkey : a.key ≠ some key) : (s.next a).view key = s.view key := by
  have hpop : ∀ {key' n}, s.events.head? = some ⟨key', n⟩ → key' ≠ key →
      s.popEvent.view key = s.view key := by
    intro key' n h hne
    refine view_congr rfl rfl rfl ?_ rfl
    rw [newsOf_head h key, if_neg hne]
    rfl
  have happend : ∀ {key' n}, key' ≠ key →
      newsOf (s.events ++ [⟨key', n⟩]) key = newsOf s.events key := by
    intro key' n hne
    rw [newsOf_append, if_neg hne, List.append_nil]
  cases a with
  | change owned => rfl
  | request key' =>
    have hne : key' ≠ key := fun h => hkey (congrArg some h)
    exact view_congr rfl rfl rfl (happend hne) rfl
  | delete key' =>
    have hne : key' ≠ key := fun h => hkey (congrArg some h)
    exact view_congr rfl rfl (Function.update_of_ne hne.symm _ _) (happend hne) rfl
  | handleRequest key' =>
    have hne : key' ≠ key := fun h => hkey (congrArg some h)
    exact (view_handleSelectionRequest (s := s.popEvent) hne he.2).trans (hpop he.1 hne)
  | register key' text =>
    have hne : key' ≠ key := fun h => hkey (congrArg some h)
    exact view_register hne he
  | handleDelete key' =>
    have hne : key' ≠ key := fun h => hkey (congrArg some h)
    exact (view_handlePropertyDeleted hne).trans (hpop he.1 hne)

/-! ### Courses -/

variable {v : View}

/-- The requestor deletes its piece. -/
lemma View.Turn.delete (h : v.Turn) (hproperty : v.property = true) :
    View.Turn { v with property := false, news := v.news ++ [.propertyDeleted] } := by
  rcases h with ⟨-, hnews⟩ | ⟨habsent, -⟩
  · exact .inr ⟨rfl, by rw [hnews, List.nil_append]⟩
  · cases habsent.symm.trans hproperty

lemma View.Turn.not_requested (h : v.Turn) : .selectionRequest ∉ v.news := by
  rcases h with ⟨-, hnews⟩ | ⟨-, hnews⟩
  · rw [hnews]
    exact List.not_mem_nil
  · rw [hnews]
    decide

lemma Course.request (h : Course v) (hproperty : v.property = false)
    (hnews : .selectionRequest ∉ v.news) (hdone : ∀ t ∈ v.sending, [] ∈ t.pieces) :
    Course { v with news := v.news ++ [.selectionRequest] } := by
  cases h with
  | ended hsend hlooked hover hturn =>
    have hbefore : v.news = [] ∨ v.news = [.propertyDeleted] := by
      rcases hturn with (⟨hthere, -⟩ | ⟨-, hdeleted⟩) | ⟨-, hnone⟩
      · cases hthere.symm.trans hproperty
      · exact .inr hdeleted
      · exact .inl hnone
    exact .asked v.news hsend hlooked hover hproperty rfl hbefore
  | asked before hsend hlooked hover _ hasked =>
    rw [hasked] at hnews
    exact absurd (List.mem_append_right _ List.mem_cons_self) hnews
  | announced t _ _ hsending _ _ hnone =>
    have hmem := hdone t hsending
    rw [hnone] at hmem
    exact absurd hmem List.not_mem_nil
  | sending t nextOffset _ _ hsending _ _ hchunks _ =>
    exact absurd (hdone t hsending) (Chunks.not_mem_nil hchunks)

lemma Course.delete (h : Course v) (hproperty : v.property = true) :
    Course { v with property := false, news := v.news ++ [.propertyDeleted] } := by
  cases h with
  | ended hsend hlooked hover hturn =>
    rcases hturn with hturn | ⟨habsent, -⟩
    · exact .ended hsend hlooked hover (.inl (hturn.delete hproperty))
    · cases habsent.symm.trans hproperty
  | asked before _ _ _ habsent => cases habsent.symm.trans hproperty
  | announced t hsend hlooked hsending hturn hright hnone =>
    exact .announced t hsend hlooked hsending (hturn.delete hproperty) hright hnone
  | sending t nextOffset hsend hlooked hsending hturn hright hchunks hflatten =>
    exact .sending t nextOffset hsend hlooked hsending (hturn.delete hproperty) hright hchunks hflatten

/-- A request that comes first is the only thing to be handled for its key. -/
lemma Course.handleRequest (h : Course v) {news : List News} (hlooked : v.looked = none)
    (hnews : v.news = .selectionRequest :: news) :
    v.send = none ∧ v.Done ∧ v.property = false ∧ news = [] := by
  have hmem : News.selectionRequest ∈ v.news := by
    rw [hnews]
    exact List.mem_cons_self
  cases h with
  | ended _ _ _ hturn =>
    rcases hturn with hturn | ⟨-, hnone⟩
    · exact absurd hmem hturn.not_requested
    · cases hnone.symm.trans hnews
  | asked before hsend _ hover hproperty hasked hbefore =>
    rcases hbefore with rfl | rfl
    · exact ⟨hsend, hover, hproperty, (List.cons.inj (hnews.symm.trans hasked)).2⟩
    · cases hasked.symm.trans hnews
  | announced t _ hlooking => cases hlooking.symm.trans hlooked
  | sending t _ _ _ _ hturn => exact absurd hmem hturn.not_requested

/-- A deletion that comes first is answered with the next piece, if there is an entry. -/
lemma Course.handleDelete (h : Course v) {news : List News} (hlooked : v.looked = none)
    (hnews : v.news = .propertyDeleted :: news) :
    (v.send = none → Course { v with news := news }) ∧
    ∀ entry ∈ v.send, Course { v with
      news := news
      property := true
      send := entry.serveNext.2
      sending := v.sending.map fun t => { t with pieces := t.pieces ++ [entry.serveNext.1] } } := by
  cases h with
  | ended hsend _ hover hturn =>
    refine ⟨fun _ => .ended hsend hlooked hover ?_, fun entry hentry => ?_⟩
    · rcases hturn with (⟨-, hnone⟩ | ⟨habsent, hdeleted⟩) | ⟨-, hnone⟩
      · cases hnone.symm.trans hnews
      · exact .inr ⟨habsent, (List.cons.inj (hnews.symm.trans hdeleted)).2⟩
      · cases hnone.symm.trans hnews
    · cases hsend.symm.trans hentry
  | asked before hsend _ hover hproperty hasked hbefore =>
    refine ⟨fun _ => ?_, fun entry hentry => by cases hsend.symm.trans hentry⟩
    rcases hbefore with rfl | rfl
    · cases hasked.symm.trans hnews
    · have hlast := (List.cons.inj (hnews.symm.trans hasked)).2
      exact .asked [] hsend hlooked hover hproperty hlast (.inl rfl)
  | announced t _ hlooking => cases hlooking.symm.trans hlooked
  | sending t nextOffset hsend _ hsending hturn hright hchunks hflatten =>
    refine ⟨fun hnone => ?_, fun entry hentry => ?_⟩
    · cases hnone.symm.trans hsend
    obtain rfl := Option.some.inj (hsend.symm.trans hentry)
    have hlast : news = [] := by
      rcases hturn with ⟨-, hnone⟩ | ⟨-, hdeleted⟩
      · cases hnone.symm.trans hnews
      · exact (List.cons.inj (hnews.symm.trans hdeleted)).2
    rw [hsending]
    by_cases hend : byteLen t.text ≤ nextOffset
    · rw [IncrSend.serveNext_last hend]
      refine .ended rfl hlooked ?_ (.inl (.inl ⟨rfl, hlast⟩))
      rintro _ ⟨⟩
      refine ⟨⟨hright.large, hright.announced⟩, t.pieces, rfl, hchunks, hflatten.trans ?_⟩
      exact List.take_of_length_le (by rwa [length_utf8])
    · have hoffset : (⟨t.text, nextOffset⟩ : IncrSend).nextOffset < byteLen t.text := not_le.mp hend
      obtain ⟨taken, hpos, hsize, hle, hnext⟩ := IncrSend.serveNext_chunk hoffset
      rw [hnext]
      dsimp only at hle
      have hlength : (((utf8 t.text).drop nextOffset).take taken).length = taken := by
        rw [List.length_take, List.length_drop, length_utf8]
        omega
      refine .sending { t with pieces := t.pieces ++ [((utf8 t.text).drop nextOffset).take taken] }
        (nextOffset + taken) rfl hlooked rfl (.inl ⟨rfl, hlast⟩) ⟨hright.large, hright.announced⟩ ?_ ?_
      · refine Chunks.append hchunks (List.ne_nil_of_length_pos ?_) ?_
        · rwa [hlength]
        · rwa [hlength]
      · rw [List.flatten_append, List.flatten_singleton, hflatten, List.take_add]

/-! ### Runs -/

/-- Only writers change what is owned, and they keep to the limit. -/
lemma owned_next (h : ∀ text ∈ s.owned, byteLen text ≤ maxClipboardBytes) (he : s.Enabled a) :
    ∀ text ∈ (s.next a).owned, byteLen text ≤ maxClipboardBytes := by
  cases a with
  | change owned => exact he
  | request _ => exact h
  | delete _ => exact h
  | handleRequest key =>
    change ∀ text ∈ (s.popEvent.handleSelectionRequest key).owned, _
    unfold handleSelectionRequest
    split
    · exact h
    · split_ifs <;> exact h
  | register key _ =>
    change ∀ text ∈ (s.register key).owned, _
    unfold register
    split <;> exact h
  | handleDelete key =>
    change ∀ text ∈ (s.popEvent.handlePropertyDeleted key).owned, _
    unfold handlePropertyDeleted
    split <;> exact h

/-- A request is looked at: there is nothing to send, or it is sent at once, or its size is. -/
lemma Orderly.handleRequest (h : s.Orderly) (he : s.Enabled (.handleRequest key)) :
    Course ((s.next (.handleRequest key)).view key) := by
  obtain ⟨hhead, hnone⟩ := he
  have hnews : (s.view key).news = _ ++ (s.popEvent.view key).news := view_popEvent hhead
  rw [if_pos rfl] at hnews
  obtain ⟨hsend, hover, hproperty, hempty⟩ :=
    (h.course key).handleRequest (lookedFor_none hnone key) hnews
  change Course ((s.popEvent.handleSelectionRequest key).view key)
  unfold handleSelectionRequest
  split
  · exact .ended hsend (lookedFor_none hnone key) hover (.inr ⟨hproperty, hempty⟩)
  · rename_i text howned
    have hwritten : Function.update s.properties key true key = true := Function.update_self _ _ _
    split_ifs with hsmall
    · exact .ended hsend (lookedFor_none hnone key) hover (.inl (.inl ⟨hwritten, hempty⟩))
    · have hbound : byteLen text < 2 ^ 32 := lt_of_le_of_lt (h.owned text howned) (by decide)
      refine .announced ⟨text, byteLen text % 2 ^ 32, []⟩ hsend ?_ (Function.update_self _ _ _)
        (.inl ⟨hwritten, hempty⟩) ⟨not_le.mp hsmall, Nat.mod_eq_of_lt hbound⟩ rfl
      exact if_pos rfl

/-- The text that was announced is the one that is registered. -/
lemma Orderly.register {text : Str} (h : s.Orderly) (he : s.looked = some (key, text))
    (howned : s.owned = some text) : Course ((s.next (.register key text)).view key) := by
  have hlooked : s.lookedFor key = some text := lookedFor_eq_some.mpr he
  change Course ((s.register key).view key)
  unfold Sends.register
  rw [howned]
  cases h.course key with
  | ended _ hnone => cases hlooked.symm.trans hnone
  | asked _ _ hnone => cases hlooked.symm.trans hnone
  | sending _ _ _ hnone => cases hlooked.symm.trans hnone
  | announced t hsend hlooking hsending hturn hright hpieces =>
    obtain rfl := Option.some.inj (hlooked.symm.trans hlooking)
    refine .sending t 0 (Function.update_self _ _ _) rfl hsending hturn hright ?_ ?_
    · rw [hpieces]
      exact nofun
    · rw [hpieces]
      rfl

/-- The event thread is told of a deletion, and the next piece follows if there is one. -/
lemma Orderly.handleDelete (h : s.Orderly) (he : s.Enabled (.handleDelete key)) :
    Course ((s.next (.handleDelete key)).view key) := by
  obtain ⟨hhead, hnone⟩ := he
  have hnews : (s.view key).news = _ ++ (s.popEvent.view key).news := view_popEvent hhead
  rw [if_pos rfl] at hnews
  obtain ⟨hwithout, hwith⟩ := (h.course key).handleDelete (lookedFor_none hnone key) hnews
  change Course ((s.popEvent.handlePropertyDeleted key).view key)
  unfold handlePropertyDeleted
  split
  · rename_i hsend
    exact hwithout hsend
  · rename_i entry hsend
    have hview := hwith entry hsend
    unfold view writeProperty
    dsimp only
    rw [Function.update_self, Function.update_self, Function.update_self]
    exact hview

lemma Orderly.next (h : s.Orderly) (he : s.Enabled a) (ha : s.Unchanged a) : (s.next a).Orderly where
  owned := owned_next h.owned he
  course := by
    intro key
    have hcourse := h.course key
    by_cases hkey : a.key = some key
    swap
    · rw [view_next he hkey]
      exact hcourse
    cases a with
    | change _ => cases hkey
    | request key' =>
      obtain rfl := Option.some.inj hkey
      have hview : (s.next (.request key')).view key' =
          { s.view key' with news := (s.view key').news ++ [.selectionRequest] } := by
        unfold view
        congr 1
        exact (newsOf_append _ _ _ _).trans (congrArg _ (if_pos rfl))
      rw [hview]
      exact hcourse.request he.1 (fun hmem => he.2.1 (mem_newsOf.mp hmem)) he.2.2
    | delete key' =>
      obtain rfl := Option.some.inj hkey
      have hview : (s.next (.delete key')).view key' =
          { s.view key' with property := false, news := (s.view key').news ++ [.propertyDeleted] } := by
        unfold view
        congr 1
        · exact Function.update_self _ _ _
        · exact (newsOf_append _ _ _ _).trans (congrArg _ (if_pos rfl))
      rw [hview]
      exact hcourse.delete he
    | handleRequest key' =>
      obtain rfl := Option.some.inj hkey
      exact h.handleRequest he
    | register key' text =>
      obtain rfl := Option.some.inj hkey
      exact h.register he ha
    | handleDelete key' =>
      obtain rfl := Option.some.inj hkey
      exact h.handleDelete he

theorem orderly_new : (new : Sends κ).Orderly where
  owned := nofun
  course _ := .ended rfl rfl nofun (.inr ⟨rfl, rfl⟩)

theorem orderly_after (hrun : system.Runs Unchanged new acts) :
    (system.after new acts).Orderly := by
  refine invariant_of_step ?_ orderly_new hrun.reaches
  rintro s _ h ⟨a, he, ha, rfl⟩
  exact h.next he ha

/-- What a course says of the sending. -/
lemma Orderly.serves (h : s.Orderly) {t : Sending} (ht : s.sendings key = some t) :
    s.Serves key t := by
  have hdelivered : t.Right → t.Delivered → s.sends key = none → s.Serves key t :=
    fun hright hdone hsend => ⟨hright, .inr hdone, fun _ => hsend, fun _ _ _ => hdone⟩
  cases h.course key with
  | ended hsend _ hover _ => exact hdelivered (hover t ht).1 (hover t ht).2 hsend
  | asked _ hsend _ hover => exact hdelivered (hover t ht).1 (hover t ht).2 hsend
  | announced t' hsend hlooked hsending hturn hright hpieces =>
    obtain rfl := Option.some.inj (ht.symm.trans hsending)
    refine ⟨hright, .inl ?_, fun hdone => ?_, fun _ hlooking => ?_⟩
    · unfold Sending.Begun
      rw [hpieces]
      exact ⟨nofun, List.nil_prefix⟩
    · have hmem := Sending.Delivered.mem_nil hdone
      rw [hpieces] at hmem
      exact absurd hmem List.not_mem_nil
    · exact absurd (lookedFor_eq_some.mp hlooked) (hlooking _)
  | sending t' nextOffset hsend hlooked hsending hturn hright hchunks hflatten =>
    obtain rfl := Option.some.inj (ht.symm.trans hsending)
    refine ⟨hright, .inl ⟨hchunks, ?_⟩, fun hdone => ?_, fun habsent _ hnews => ?_⟩
    · rw [hflatten]
      exact List.take_prefix _ _
    · exact absurd (Sending.Delivered.mem_nil hdone) (Chunks.not_mem_nil hchunks)
    · rcases hturn with ⟨hthere, -⟩ | ⟨-, hdeleted⟩
      · cases habsent.symm.trans hthere
      · refine absurd (mem_newsOf.mp ?_) hnews
        change _ ∈ (s.view key).news
        rw [hdeleted]
        exact List.mem_cons_self

/-- If the event thread finds the text that it has announced whenever it looks again, every
requestor gets the text that was owned when its request was looked at, and nothing else. -/
theorem serves_after (hrun : system.Runs Unchanged new acts) {t : Sending}
    (ht : (system.after new acts).sendings key = some t) : (system.after new acts).Serves key t :=
  (orderly_after hrun).serves ht

omit [DecidableEq κ] in
/-- A requestor that goes on deleting what it gets comes to the empty piece. -/
theorem Serves.length_pieces_le {t : Sending} (h : s.Serves key t) :
    t.pieces.length ≤ byteLen t.text + 1 := by
  rcases h.pieces with ⟨hchunks, hprefix⟩ | ⟨chunks, hpieces, hchunks, hflatten⟩
  · have hle := (Chunks.length_le hchunks).trans hprefix.length_le
    rw [length_utf8] at hle
    omega
  · have hle := Chunks.length_le hchunks
    rw [hflatten, length_utf8] at hle
    rw [hpieces, List.length_append, List.length_singleton]
    omega

/-- The requestor has a piece, and the event thread has nothing to do. -/
structure Rests (s : Sends κ) (key : κ) : Prop where
  property : s.properties key = true
  events : s.events = []
  looked : s.looked = none

/-- The requestor deletes what it has, and the event thread is told. -/
def round (key : κ) : List (Act κ) := [.delete key, .handleDelete key]

lemma Rests.runs_round (h : s.Rests key) : system.Runs Unchanged s (round key) := by
  refine ⟨h.property, trivial, ⟨?_, h.looked⟩, trivial, trivial⟩
  change (s.events ++ _).head? = _
  rw [h.events]
  rfl

lemma Rests.after_round (h : s.Rests key) : system.after s (round key) =
    { s with properties := Function.update s.properties key false }.handlePropertyDeleted key := by
  have hevents : (s.events ++ [(⟨key, .propertyDeleted⟩ : SendEvent κ)]).tail = s.events := by
    rw [h.events]
    rfl
  change Sends.handlePropertyDeleted { s with
    properties := Function.update s.properties key false
    events := (s.events ++ [(⟨key, .propertyDeleted⟩ : SendEvent κ)]).tail } key = _
  rw [hevents]

/-- A requestor that goes on deleting what it gets comes to the end of the text. -/
theorem Rests.exists_rounds {t : Sending} {entry : IncrSend} (h : s.Rests key)
    (hsend : s.sends key = some entry) (ht : s.sendings key = some t) :
    ∃ acts, system.Runs Unchanged s acts ∧ (system.after s acts).properties key = false ∧
      (system.after s acts).events = [] ∧ (system.after s acts).looked = none ∧
      ∃ t', (system.after s acts).sendings key = some t' ∧ t'.text = t.text := by
  induction hleft : byteLen entry.content - entry.nextOffset using Nat.strong_induction_on
    generalizing s t entry with
  | _ left ih =>
    have hround : system.after s (round key) = { s with
        properties := Function.update (Function.update s.properties key false) key true
        sends := Function.update s.sends key entry.serveNext.2
        sendings := Function.update s.sendings key
          (some { t with pieces := t.pieces ++ [entry.serveNext.1] }) } := by
      rw [h.after_round]
      unfold handlePropertyDeleted writeProperty
      rw [hsend, ht]
      rfl
    have hrests : (system.after s (round key)).Rests key := by
      rw [hround]
      exact ⟨Function.update_self _ _ _, h.events, h.looked⟩
    have hsendings : (system.after s (round key)).sendings key =
        some { t with pieces := t.pieces ++ [entry.serveNext.1] } := by
      rw [hround]
      exact Function.update_self _ _ _
    have hsends : (system.after s (round key)).sends key = entry.serveNext.2 := by
      rw [hround]
      exact Function.update_self _ _ _
    by_cases hlast : byteLen entry.content ≤ entry.nextOffset
    · -- the empty piece is deleted too, and nothing comes any more
      rw [IncrSend.serveNext_last hlast] at hsends
      have hlater := hrests.after_round
      unfold handlePropertyDeleted at hlater
      dsimp only at hlater
      rw [hsends] at hlater
      refine ⟨round key ++ round key, System.runs_append.mpr ⟨h.runs_round, hrests.runs_round⟩, ?_⟩
      rw [System.after_append, hlater]
      exact ⟨Function.update_self _ _ _, hrests.events, hrests.looked, _, hsendings, rfl⟩
    · obtain ⟨taken, hpos, -, hle, hnext⟩ := IncrSend.serveNext_chunk (not_le.mp hlast)
      rw [hnext] at hsends
      obtain ⟨acts, hruns, hdone⟩ := ih _ (by dsimp only; omega) hrests hsends hsendings rfl
      refine ⟨round key ++ acts, System.runs_append.mpr ⟨h.runs_round, hruns⟩, ?_⟩
      rw [System.after_append]
      exact hdone

/-! ### A text that is cleared in between -/

/-- A text that is a byte too long to be sent at once. -/
@[irreducible] def longText : Str := List.replicate (ownerSingleShotCap + 1) 'a'

lemma byteLen_longText : byteLen longText = ownerSingleShotCap + 1 := by
  unfold longText byteLen
  rw [List.map_replicate, List.sum_replicate_nat]
  exact Nat.mul_one _

def announcing : List (Act Unit) := [.change (some longText), .request (), .handleRequest ()]

/-- The size has been announced, and the event thread is to look again. -/
def announced : Sends Unit where
  owned := some longText
  sends _ := none
  looked := some ((), longText)
  events := []
  properties := Function.update (fun _ => false) () true
  sendings := Function.update (fun _ => none) () (some ⟨longText, byteLen longText % 2 ^ 32, []⟩)

lemma handleSelectionRequest_large {text : Str} (howned : s.owned = some text)
    (hlarge : ownerSingleShotCap < byteLen text) : s.handleSelectionRequest key =
      { s.writeProperty key with
        looked := some (key, text)
        sendings := Function.update s.sendings key (some ⟨text, byteLen text % 2 ^ 32, []⟩) } := by
  unfold handleSelectionRequest
  rw [howned]
  exact if_neg (not_le.mpr hlarge)

lemma after_handleRequest (key : κ) (acts : List (Act κ)) (s : Sends κ) :
    system.after s (acts ++ [.handleRequest key]) =
      (system.after s acts).popEvent.handleSelectionRequest key :=
  System.after_concat _

lemma after_announcing : system.after new announcing = announced := by
  have hlarge : ownerSingleShotCap < byteLen longText := by
    rw [byteLen_longText]
    exact Nat.lt_succ_self _
  have howned : (system.after new [Act.change (some longText), .request ()]).popEvent.owned =
      some longText :=
    rfl
  -- the text is too long to be computed with
  have hafter := after_handleRequest () [Act.change (some longText), .request ()] new
  rw [handleSelectionRequest_large howned hlarge] at hafter
  exact hafter

lemma runs_announcing : system.Runs Unchanged new announcing := by
  refine ⟨?_, trivial, ⟨rfl, List.not_mem_nil, nofun⟩, trivial, ⟨rfl, rfl⟩, trivial, trivial⟩
  rintro _ ⟨⟩
  rw [byteLen_longText]
  decide

/-- The large text is sent in chunks up to its empty piece. -/
theorem serves_after_delivered : ∃ acts,
    system.Runs Unchanged new (announcing ++ .register () longText :: acts) ∧
      ∃ t, (system.after new (announcing ++ .register () longText :: acts)).sendings () = some t ∧
        t.text = longText ∧ t.Delivered := by
  have hrests : (announced.register ()).Rests () := ⟨rfl, rfl, rfl⟩
  obtain ⟨acts, hruns, hproperty, hevents, hlooked, t, ht, htext⟩ :=
    hrests.exists_rounds rfl rfl
  have hafter : system.after new (announcing ++ .register () longText :: acts) =
      system.after (announced.register ()) acts := by
    rw [System.after_append, after_announcing]
    rfl
  have hrun : system.Runs Unchanged new (announcing ++ .register () longText :: acts) := by
    rw [System.runs_append, after_announcing]
    exact ⟨runs_announcing, rfl, rfl, hruns⟩
  rw [← hafter] at ht hproperty hevents hlooked
  refine ⟨acts, hrun, t, ht, htext, (serves_after hrun ht).served hproperty ?_ ?_⟩
  · rw [hlooked]
    exact nofun
  · rw [hevents]
    exact List.not_mem_nil

/-- All steps are allowed. -/
def Any (_ : Sends κ) (_ : Act κ) : Prop := True

/-- The text is cleared behind the first look, and the requestor gets nothing for the size that it
has been told. -/
theorem not_serves : system.Runs Any new
      (announcing ++ [.change none, .register () longText, .delete (), .handleDelete ()]) ∧
    ∃ t, (system.after new (announcing ++ [.change none, .register () longText, .delete (),
        .handleDelete ()])).sendings () = some t ∧
      ¬(system.after new (announcing ++ [.change none, .register () longText, .delete (),
        .handleDelete ()])).Serves () t := by
  rw [System.runs_append, System.after_append, after_announcing]
  refine ⟨⟨runs_announcing.mono fun _ _ _ => trivial, nofun, trivial, rfl, trivial, rfl, trivial,
    ⟨rfl, rfl⟩, trivial, trivial⟩, ⟨longText, byteLen longText % 2 ^ 32, []⟩, rfl, fun h => ?_⟩
  have hdone := h.served rfl (fun _ => nofun) List.not_mem_nil
  exact absurd (Sending.Delivered.mem_nil hdone) List.not_mem_nil

end Sends

end Invisibool.Clipboard
