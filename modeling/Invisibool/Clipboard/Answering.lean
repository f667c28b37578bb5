import Invisibool.Clipboard.Conversions
import Mathlib.Data.List.Forall2

/-!
# What is answered to the requestors

Whatever the writers and the watchdog do in between, and whatever requests to the server fail, all
that the event thread sends to other clients is proper: one answer to each request, in turn, which
is right for a content that was owned in the meantime, and the pieces of one text for each transfer.
-/

namespace Invisibool.Clipboard.Conversions
open Text Process

abbrev Moment := State × List Answered

section Assertions

variable (atoms : AtomTable) (owned₀ : Option OwnedContent)

/-- The transfer of a key, and what its requestor has been sent of it. -/
structure Linked (key : Key) (entry : PendingSend) (t : Sending) : Prop where
  requestor : entry.requestor = key.1
  targetProperty : entry.targetProperty = key.2
  target : entry.target = atoms.utf8String
  text : t.text = entry.content
  chunks : Chunks t.pieces
  flatten : t.pieces.flatten = (utf8 t.text).take entry.nextOffset

/-- What the state has to do with its history, except for the transfer that a chunk is being taken
from. -/
structure Sound (s : Moment) : Prop where
  owned : (watch owned₀ s.2).owned = s.1.owned
  since : (watch owned₀ s.2).asked ≠ none → s.1.owned ∈ (watch owned₀ s.2).since
  properly : Properly atoms owned₀ s.2
  linked : ∀ key entry, (watch owned₀ s.2).busy ≠ some key → s.1.sends key = some entry →
    ∃ t, (watch owned₀ s.2).sendings key = some t ∧ Linked atoms key entry t

def Keeps (s s' : Moment) : Prop := Sound atoms owned₀ s → Sound atoms owned₀ s'

/-- What the other threads may do to the event thread: the owned content changes, and transfers are
given up. -/
structure Beside (s s' : Moment) : Prop where
  sound : Keeps atoms owned₀ s s'
  asked : (watch owned₀ s'.2).asked = (watch owned₀ s.2).asked
  offered : (watch owned₀ s'.2).offered = (watch owned₀ s.2).offered
  busy : (watch owned₀ s'.2).busy = (watch owned₀ s.2).busy
  sendings : (watch owned₀ s'.2).sendings = (watch owned₀ s.2).sendings
  since : ∀ content ∈ (watch owned₀ s.2).since, content ∈ (watch owned₀ s'.2).since
  sends : ∀ key, s'.1.sends key = none ∨ s'.1.sends key = s.1.sends key

/-- Nothing is to be answered. -/
structure Idle (s : Moment) : Prop where
  sound : Sound atoms owned₀ s
  asked : (watch owned₀ s.2).asked = none
  busy : (watch owned₀ s.2).busy = none

/-- A request is to be answered; these contents have been seen since it was taken, and this is the
last request to the server. -/
structure Asking (ev : SelectionRequest) (offered : Option (ServerRequest × Bool))
    (seen : List (Option OwnedContent)) (s : Moment) : Prop where
  sound : Sound atoms owned₀ s
  asked : (watch owned₀ s.2).asked = some ev
  offered : (watch owned₀ s.2).offered = offered
  busy : (watch owned₀ s.2).busy = none
  seen : ∀ content ∈ seen, content ∈ (watch owned₀ s.2).since

/-- A chunk is being taken from a transfer, which may have been given up in the meantime. -/
structure Taking (key : Key) (entry : PendingSend) (s : Moment) : Prop where
  sound : Sound atoms owned₀ s
  asked : (watch owned₀ s.2).asked = none
  busy : (watch owned₀ s.2).busy = some key
  linked : ∃ t, (watch owned₀ s.2).sendings key = some t ∧ Linked atoms key entry t
  sends : s.1.sends key = none ∨ s.1.sends key = some entry.advance

/-- A transfer that has come to its end is to be removed. -/
structure Ending (key : Key) (s : Moment) : Prop where
  sound : Sound atoms owned₀ s
  asked : (watch owned₀ s.2).asked = none
  busy : (watch owned₀ s.2).busy = some key

end Assertions

section Steps

variable {atoms : AtomTable} {owned₀ : Option OwnedContent} {s s' s'' : Moment}
  {ev : SelectionRequest} {offered : Option (ServerRequest × Bool)}
  {seen : List (Option OwnedContent)} {key : Key} {entry : PendingSend}

lemma watch_append (owned₀ : Option OwnedContent) (history : List Answered) (event : Answered) :
    watch owned₀ (history ++ [event]) = (watch owned₀ history).observe event :=
  List.foldl_append

namespace Beside

lemma refl (s : Moment) : Beside atoms owned₀ s s where
  sound h := h
  asked := rfl
  offered := rfl
  busy := rfl
  sendings := rfl
  since _ h := h
  sends _ := .inr rfl

lemma trans (h : Beside atoms owned₀ s s') (h' : Beside atoms owned₀ s' s'') :
    Beside atoms owned₀ s s'' where
  sound hs := h'.sound (h.sound hs)
  asked := h'.asked.trans h.asked
  offered := h'.offered.trans h.offered
  busy := h'.busy.trans h.busy
  sendings := h'.sendings.trans h.sendings
  since content hcontent := h'.since content (h.since content hcontent)
  sends key := by
    rcases h'.sends key with hnone | hsame
    · exact .inl hnone
    · rw [hsame]
      exact h.sends key

end Beside

lemma Idle.beside (h : Idle atoms owned₀ s) (hs : Beside atoms owned₀ s s') :
    Idle atoms owned₀ s' where
  sound := hs.sound h.sound
  asked := hs.asked.trans h.asked
  busy := hs.busy.trans h.busy

lemma Asking.beside (h : Asking atoms owned₀ ev offered seen s) (hs : Beside atoms owned₀ s s') :
    Asking atoms owned₀ ev offered seen s' where
  sound := hs.sound h.sound
  asked := hs.asked.trans h.asked
  offered := hs.offered.trans h.offered
  busy := hs.busy.trans h.busy
  seen content hcontent := hs.since content (h.seen content hcontent)

lemma Taking.beside (h : Taking atoms owned₀ key entry s) (hs : Beside atoms owned₀ s s') :
    Taking atoms owned₀ key entry s' where
  sound := hs.sound h.sound
  asked := hs.asked.trans h.asked
  busy := hs.busy.trans h.busy
  linked := by
    rw [hs.sendings]
    exact h.linked
  sends := by
    rcases hs.sends key with hnone | hsame
    · exact .inl hnone
    · rw [hsame]
      exact h.sends

lemma Ending.beside (h : Ending atoms owned₀ key s) (hs : Beside atoms owned₀ s s') :
    Ending atoms owned₀ key s' where
  sound := hs.sound h.sound
  asked := hs.asked.trans h.asked
  busy := hs.busy.trans h.busy

/-! ### Calls -/

/-- One more proper call. -/
lemma Sound.snoc {state : State} {event : Answered} {w : Watch} (h : Sound atoms owned₀ s)
    (hw : (watch owned₀ s.2).observe event = w) (hproper : Proper atoms (watch owned₀ s.2) event)
    (howned : w.owned = state.owned) (hsince : w.asked ≠ none → state.owned ∈ w.since)
    (hlinked : ∀ key entry, w.busy ≠ some key → state.sends key = some entry →
      ∃ t, w.sendings key = some t ∧ Linked atoms key entry t) :
    Sound atoms owned₀ (state, s.2 ++ [event]) := by
  have hwatch : watch owned₀ (s.2 ++ [event]) = w := (watch_append owned₀ s.2 event).trans hw
  constructor
  · exact (congrArg Watch.owned hwatch).trans howned
  · dsimp only
    rw [hwatch]
    exact hsince
  · exact h.properly.snoc hproper
  · dsimp only
    rw [hwatch]
    exact hlinked

/-- A call that the observer does not see. -/
lemma beside_of_quiet {state : State} {event : Answered}
    (hobserve : (watch owned₀ s.2).observe event = watch owned₀ s.2)
    (hproper : Proper atoms (watch owned₀ s.2) event) (howned : state.owned = s.1.owned)
    (hsends : ∀ key, state.sends key = none ∨ state.sends key = s.1.sends key) :
    Beside atoms owned₀ s (state, s.2 ++ [event]) := by
  have hwatch : watch owned₀ (s.2 ++ [event]) = watch owned₀ s.2 :=
    (watch_append owned₀ s.2 event).trans hobserve
  refine ⟨fun h => ?_, congrArg Watch.asked hwatch, congrArg Watch.offered hwatch,
    congrArg Watch.busy hwatch, congrArg Watch.sendings hwatch, fun content hcontent => ?_, hsends⟩
  · refine h.snoc hobserve hproper (h.owned.trans howned.symm) ?_ fun key entry hbusy hentry => ?_
    · rw [howned]
      exact h.since
    · rcases hsends key with hnone | hsame
      · cases hnone.symm.trans hentry
      · exact h.linked key entry hbusy (hsame.symm.trans hentry)
  · dsimp only
    rwa [hwatch]

/-- The calls that the observer does not see. -/
def Call.Quiet : Call → Prop
  | .loadShutdown => True
  | .readOwned => True
  | .instantNow => True
  | .containsSend _ => True
  | .sweepSends _ => True
  | _ => False

lemma sweep_eq (now : Nat) (sends : Key → Option PendingSend) (key : Key) :
    sweep now sends key = none ∨ sweep now sends key = sends key := by
  unfold sweep
  cases sends key with
  | none => exact .inl rfl
  | some entry =>
    rw [Option.filter_some]
    split_ifs
    · exact .inr rfl
    · exact .inl rfl

lemma beside_of_call (call : Call) {ans : call.Ans} (hcall : call.Quiet)
    (hstep : world.logged call s ans s') : Beside atoms owned₀ s s' := by
  obtain ⟨hworld, hlog⟩ := hstep
  obtain ⟨state, history⟩ := s'
  dsimp only at hworld hlog
  subst hlog
  cases call with
  | loadShutdown =>
    obtain rfl : state = s.1 := hworld
    exact beside_of_quiet rfl trivial rfl fun _ => .inr rfl
  | readOwned =>
    obtain ⟨-, rfl⟩ := hworld
    exact beside_of_quiet rfl trivial rfl fun _ => .inr rfl
  | instantNow =>
    obtain ⟨-, rfl⟩ := hworld
    exact beside_of_quiet rfl trivial rfl fun _ => .inr rfl
  | containsSend key =>
    obtain ⟨-, rfl⟩ := hworld
    exact beside_of_quiet rfl trivial rfl fun _ => .inr rfl
  | sweepSends now =>
    obtain rfl : state = { s.1 with sends := sweep now s.1.sends } := hworld
    exact beside_of_quiet rfl trivial rfl (sweep_eq now s.1.sends)
  | waitForEvent => exact hcall.elim
  | request req => exact hcall.elim
  | setOwned content => exact hcall.elim
  | insertSend key entry => exact hcall.elim
  | advanceSend key => exact hcall.elim
  | removeSend key => exact hcall.elim

lemma beside_of_setOwned {content : Option OwnedContent} {ans : Unit}
    (hstep : world.logged (.setOwned content) s ans s') : Beside atoms owned₀ s s' := by
  obtain ⟨hworld, hlog⟩ := hstep
  obtain ⟨state, history⟩ := s'
  dsimp only at hworld hlog
  subst hlog
  obtain rfl : state = { s.1 with owned := content } := hworld
  have hwatch := watch_append owned₀ s.2 ⟨.setOwned content, ans⟩
  refine ⟨fun h => ?_, (congrArg Watch.asked hwatch).trans rfl,
    (congrArg Watch.offered hwatch).trans rfl, (congrArg Watch.busy hwatch).trans rfl,
    (congrArg Watch.sendings hwatch).trans rfl, fun c hc => ?_, fun _ => .inr rfl⟩
  · refine h.snoc rfl trivial rfl (fun _ => ?_) h.linked
    exact List.mem_append_right _ List.mem_cons_self
  · dsimp only
    rw [hwatch]
    exact List.mem_append_left _ hc

/-! ### The event thread -/

/-- What the event thread does, while the other threads act. -/
abbrev Performs (atoms : AtomTable) (owned₀ : Option OwnedContent) {α : Type}
    (post : α → Moment → Prop) (p : Program α) (s : Moment) : Prop :=
  Holds world.logged (Beside atoms owned₀) (Keeps atoms owned₀) post p s

lemma quiet_performs (call : Call) {P : Moment → Prop} (hcall : call.Quiet) (hP : P s)
    (hstable : ∀ s s', P s → Beside atoms owned₀ s s' → P s') :
    Performs atoms owned₀ (fun _ s' => P s') (.perform call) s := by
  refine Holds.perform hP hstable (fun s ans s' hs hstep => ?_) fun _ => hstable
  have hbeside : Beside atoms owned₀ s s' := beside_of_call call hcall hstep
  exact ⟨hbeside.sound, hstable s s' hs hbeside⟩

lemma readOwned_performs (h : Asking atoms owned₀ ev offered seen s) :
    Performs atoms owned₀ (fun content s' => Asking atoms owned₀ ev offered (content :: seen) s')
      readOwned s := by
  refine Holds.perform h (fun _ _ => Asking.beside) (fun (s : Moment) content s' hs hstep => ?_)
    fun _ _ _ => Asking.beside
  have hbeside : Beside atoms owned₀ s s' := beside_of_call .readOwned trivial hstep
  have hs' := hs.beside hbeside
  refine ⟨hbeside.sound, { hs' with seen := List.forall_mem_cons.mpr ⟨?_, hs'.seen⟩ }⟩
  obtain rfl : content = s.1.owned := hstep.1.1
  refine hbeside.since _ (hs.sound.since ?_)
  rw [hs.asked]
  exact nofun

lemma Watch.sent_of_asked {w : Watch} (h : w.asked = some ev) {req : ServerRequest}
    (hreq : ∀ notify, req ≠ .sendEvent notify) (ok : Bool) :
    w.sent req ok = { w with offered := some (req, ok) } := by
  unfold Watch.sent
  rw [h]
  cases req with
  | sendEvent notify => exact absurd rfl (hreq notify)
  | changeProperty32 => rfl
  | changeProperty8 => rfl
  | selectPropertyChanges => rfl

lemma Watch.sent_sendEvent (w : Watch) (notify : SelectionNotify) (ok : Bool) :
    w.sent (.sendEvent notify) ok = { w with asked := none } := by
  unfold Watch.sent
  cases w.asked <;> rfl

/-- What an observer knows who knows what the event thread does. -/
def Knows (ev : SelectionRequest) (offered : Option (ServerRequest × Bool))
    (seen : List (Option OwnedContent)) (w : Watch) : Prop :=
  w.asked = some ev ∧ w.offered = offered ∧ ∀ content ∈ seen, content ∈ w.since

lemma Asking.knows (h : Asking atoms owned₀ ev offered seen s) :
    Knows ev offered seen (watch owned₀ s.2) :=
  ⟨h.asked, h.offered, h.seen⟩

lemma request_performs {req : ServerRequest} (h : Asking atoms owned₀ ev offered seen s)
    (hreq : ∀ notify, req ≠ .sendEvent notify)
    (hmay : ∀ w, Knows ev offered seen w → MaySend atoms w req) :
    Performs atoms owned₀ (fun ok s' => Asking atoms owned₀ ev (some (req, ok)) seen s')
      (request req) s := by
  refine Holds.perform h (fun _ _ => Asking.beside) (fun (s : Moment) (ok : Bool) s' hs hstep => ?_)
    fun _ _ _ => Asking.beside
  obtain ⟨hworld, hlog⟩ := hstep
  obtain ⟨state, history⟩ := s'
  obtain rfl : state = s.1 := hworld
  dsimp only at hlog
  subst hlog
  have hsent : (watch owned₀ s.2).observe ⟨.request req, ok⟩ =
      { watch owned₀ s.2 with offered := some (req, ok) } := Watch.sent_of_asked hs.asked hreq ok
  have hsound := hs.sound.snoc hsent (hmay _ hs.knows) hs.sound.owned hs.sound.since hs.sound.linked
  have hwatch := (watch_append owned₀ s.2 ⟨.request req, ok⟩).trans hsent
  refine ⟨fun _ => hsound, hsound, ?_, ?_, ?_, fun content hcontent => ?_⟩
  · exact (congrArg Watch.asked hwatch).trans hs.asked
  · exact congrArg Watch.offered hwatch
  · exact (congrArg Watch.busy hwatch).trans hs.busy
  · dsimp only
    rw [hwatch]
    exact hs.seen content hcontent

lemma sendSelectionNotify_performs {property : Nat} (h : Asking atoms owned₀ ev offered seen s)
    (hanswers : ∀ w, Knows ev offered seen w → Answers atoms w ev (ev.notify property)) :
    Performs atoms owned₀ (fun _ s' => Idle atoms owned₀ s')
      (sendSelectionNotify ev property) s := by
  refine Holds.bind Beside.refl ((Holds.perform h (fun _ _ => Asking.beside)
    (fun (s : Moment) (ok : Bool) s' hs hstep => ?_) fun _ _ _ => Idle.beside).mono
      (fun _ _ h => h) fun _ s₁ (h₁ : Idle atoms owned₀ s₁) s₂ hs₂ => h₁.beside hs₂)
  obtain ⟨hworld, hlog⟩ := hstep
  obtain ⟨state, history⟩ := s'
  obtain rfl : state = s.1 := hworld
  dsimp only at hlog
  subst hlog
  have hsent : (watch owned₀ s.2).observe ⟨.request (.sendEvent (ev.notify property)), ok⟩ =
      { watch owned₀ s.2 with asked := none } := Watch.sent_sendEvent _ (ev.notify property) ok
  have hsound := hs.sound.snoc hsent ⟨ev, hs.asked, hanswers _ hs.knows⟩ hs.sound.owned
    (fun hasked => absurd rfl hasked) hs.sound.linked
  have hwatch :=
    (watch_append owned₀ s.2 ⟨.request (.sendEvent (ev.notify property)), ok⟩).trans hsent
  exact ⟨fun _ => hsound, hsound, congrArg Watch.asked hwatch,
    (congrArg Watch.busy hwatch).trans hs.busy⟩

/-! ### One request -/

lemma Offer.mono {since since' : List (Option OwnedContent)} {req : ServerRequest}
    (h : Offer atoms ev since req) (hsince : ∀ content ∈ since, content ∈ since') :
    Offer atoms ev since' req := by
  cases h with
  | targets htarget => exact .targets htarget
  | timestamp htarget hmem => exact .timestamp htarget (hsince _ hmem)
  | text htarget hmem hsmall => exact .text htarget (hsince _ hmem) hsmall
  | size htarget hmem hlarge => exact .size htarget (hsince _ hmem) hlarge

lemma Offer.ne_sendEvent {req : ServerRequest} (h : Offer atoms ev seen req)
    (notify : SelectionNotify) : req ≠ .sendEvent notify := by
  cases h <;> exact nofun

lemma Offer.maySend {w : Watch} {req : ServerRequest} (h : Offer atoms ev seen req)
    (hw : Knows ev offered seen w) : MaySend atoms w req := by
  have hoffer := h.mono hw.2.2
  cases h with
  | targets => exact ⟨ev, hw.1, hoffer⟩
  | timestamp => exact ⟨ev, hw.1, hoffer⟩
  | text => exact .inl ⟨ev, hw.1, hoffer⟩
  | size => exact ⟨ev, hw.1, hoffer⟩

lemma refuse_performs (h : Asking atoms owned₀ ev offered seen s)
    (hrefusable : ∀ w, Knows ev offered seen w → Refusable atoms w ev) :
    Performs atoms owned₀ (fun _ s' => Idle atoms owned₀ s') (sendSelectionNotify ev xNone) s :=
  sendSelectionNotify_performs h fun w hw => .inr ⟨rfl, hrefusable w hw⟩

/-- The requestor is told of a property that has what it has asked for. -/
lemma grant_performs {req : ServerRequest} (h : Asking atoms owned₀ ev (some (req, true)) seen s)
    (hoffer : Offer atoms ev seen req) :
    Performs atoms owned₀ (fun _ s' => Idle atoms owned₀ s')
      (sendSelectionNotify ev ev.property) s :=
  sendSelectionNotify_performs h fun _ hw => .inl ⟨rfl, req, hw.2.1, hoffer.mono hw.2.2⟩

lemma changeAndNotify_performs {req : ServerRequest} (h : Asking atoms owned₀ ev offered seen s)
    (hoffer : Offer atoms ev seen req) :
    Performs atoms owned₀ (fun _ s' => Idle atoms owned₀ s') (changeAndNotify ev req) s := by
  refine Holds.bind Beside.refl ((request_performs h hoffer.ne_sendEvent
    fun _ => hoffer.maySend).mono (fun _ _ h => h) fun ok s₁ h₁ => ?_)
  cases ok with
  | true => exact grant_performs h₁ hoffer
  | false => exact refuse_performs h₁ fun _ hw => .inr (.inr ⟨req, hw.2.1⟩)

lemma insertSend_performs {content : OwnedContent} (h : Asking atoms owned₀ ev offered seen s)
    (hcontent : some content ∈ seen) (startedAt : Nat) :
    Performs atoms owned₀ (fun _ s' => Asking atoms owned₀ ev offered seen s')
      (.perform (Call.insertSend (ev.requestor, ev.property)
        ⟨⟨content.text, 0⟩, ev.time, ev.property, ev.requestor, atoms.utf8String,
          startedAt⟩)) s := by
  refine Holds.perform h (fun _ _ => Asking.beside)
    (fun (s : Moment) (ans : Unit) s' hs hstep => ?_) fun _ _ _ => Asking.beside
  obtain ⟨hworld, hlog⟩ := hstep
  obtain ⟨state, history⟩ := s'
  dsimp only at hworld hlog
  subst hlog
  set key : Key := (ev.requestor, ev.property) with hkey
  set entry : PendingSend :=
    ⟨⟨content.text, 0⟩, ev.time, ev.property, ev.requestor, atoms.utf8String, startedAt⟩ with hentry
  obtain rfl : state = { s.1 with sends := Function.update s.1.sends key (some entry) } := hworld
  have hsound : Sound atoms owned₀
      ({ s.1 with sends := Function.update s.1.sends key (some entry) },
        s.2 ++ [⟨.insertSend key entry, ans⟩]) := by
    refine hs.sound.snoc rfl ⟨ev, hs.asked, rfl, content, hs.seen _ hcontent, rfl⟩ hs.sound.owned
      hs.sound.since fun key' entry' _ hsome => ?_
    dsimp only at hsome
    by_cases hsame : key' = key
    · subst hsame
      rw [Function.update_self] at hsome
      obtain rfl := Option.some.inj hsome
      exact ⟨⟨content.text, (watch owned₀ s.2).announced, []⟩, Function.update_self _ _ _, rfl, rfl,
        rfl, rfl, nofun, rfl⟩
    · rw [Function.update_of_ne hsame] at hsome
      obtain ⟨t, ht, hlinked⟩ := hs.sound.linked key' entry' (by rw [hs.busy]; exact nofun) hsome
      exact ⟨t, (Function.update_of_ne hsame _ _).trans ht, hlinked⟩
  have hwatch := watch_append owned₀ s.2 ⟨.insertSend key entry, ans⟩
  refine ⟨fun _ => hsound, hsound, ?_, ?_, ?_, fun c hc => ?_⟩
  · exact (congrArg Watch.asked hwatch).trans hs.asked
  · exact (congrArg Watch.offered hwatch).trans hs.offered
  · exact (congrArg Watch.busy hwatch).trans hs.busy
  · dsimp only
    rw [hwatch]
    exact hs.seen c hc

lemma registerSend_performs (h : Asking atoms owned₀ ev offered seen s) :
    Performs atoms owned₀ (fun _ s' => Asking atoms owned₀ ev offered seen s')
      (registerSend atoms ev) s := by
  have hweaken : ∀ content s, Asking atoms owned₀ ev offered (content :: seen) s →
      Asking atoms owned₀ ev offered seen s := fun content s h =>
    { h with seen := fun c hc => h.seen c (List.mem_cons_of_mem content hc) }
  refine Holds.bind Beside.refl ((readOwned_performs h).mono (fun _ _ h => h) fun found s₁ h₁ => ?_)
  cases found with
  | none => exact fun s₂ hs₂ => (hweaken _ _ h₁).beside hs₂
  | some content =>
    refine Holds.bind Beside.refl ((quiet_performs .instantNow trivial h₁
      fun _ _ => Asking.beside).mono (fun _ _ h => h) fun startedAt s₂ h₂ => ?_)
    exact (insertSend_performs h₂ List.mem_cons_self startedAt).mono (fun _ _ h => h)
      fun _ s₃ h₃ => hweaken _ s₃ h₃

lemma serveText_performs {content : OwnedContent} (h : Asking atoms owned₀ ev offered seen s)
    (htarget : ev.target = atoms.utf8String ∨ ev.target = atoms.string)
    (hcontent : some content ∈ seen) :
    Performs atoms owned₀ (fun _ s' => Idle atoms owned₀ s')
      (serveText atoms ev content.text) s := by
  unfold serveText
  split_ifs with hsmall
  · exact changeAndNotify_performs h (.text htarget hcontent hsmall)
  have hoffer : Offer atoms ev seen (.changeProperty32 ev.requestor ev.property atoms.incr
      [byteLen content.text % 2 ^ 32]) := .size htarget hcontent (not_le.mp hsmall)
  have hselect : ∀ w, Knows ev offered seen w →
      MaySend atoms w (.selectPropertyChanges ev.requestor) := fun w hw => ⟨ev, hw.1, rfl⟩
  refine Holds.bind Beside.refl ((request_performs h (fun _ heq => by cases heq) hselect).mono
    (fun _ _ h => h) fun _ s₁ h₁ => ?_)
  refine Holds.bind Beside.refl ((request_performs h₁ hoffer.ne_sendEvent
    fun _ => hoffer.maySend).mono (fun _ _ h => h) fun ok s₂ h₂ => ?_)
  cases ok with
  | true => exact Holds.bind Beside.refl ((registerSend_performs h₂).mono (fun _ _ h => h)
      fun _ s₃ h₃ => grant_performs h₃ hoffer)
  | false => exact refuse_performs h₂ fun _ hw => .inr (.inr ⟨_, hw.2.1⟩)

/-- Every request is answered once, and rightly. -/
theorem handleSelectionRequest_performs (h : Asking atoms owned₀ ev none [] s) :
    Performs atoms owned₀ (fun _ s' => Idle atoms owned₀ s')
      (handleSelectionRequest atoms ev) s := by
  have hunowned : ev.target ≠ atoms.targets → ∀ s, Asking atoms owned₀ ev none [none] s →
      Performs atoms owned₀ (fun _ s' => Idle atoms owned₀ s') (sendSelectionNotify ev xNone) s :=
    fun htargets s h => refuse_performs h fun _ hw =>
      .inr (.inl ⟨htargets, hw.2.2 none List.mem_cons_self⟩)
  unfold handleSelectionRequest
  split_ifs with htargets htimestamp htext
  · exact changeAndNotify_performs h (.targets htargets)
  · refine Holds.bind Beside.refl ((readOwned_performs h).mono (fun _ _ h => h)
      fun found s₁ h₁ => ?_)
    cases found with
    | none => exact hunowned htargets s₁ h₁
    | some content => exact changeAndNotify_performs h₁ (.timestamp htimestamp List.mem_cons_self)
  · refine Holds.bind Beside.refl ((readOwned_performs h).mono (fun _ _ h => h)
      fun found s₁ h₁ => ?_)
    cases found with
    | none => exact hunowned htargets s₁ h₁
    | some content => exact serveText_performs h₁ htext List.mem_cons_self
  · refine refuse_performs h fun _ _ => .inl fun hsupported => ?_
    obtain h₁ | h₁ | h₁ := hsupported
    · exact htargets h₁
    · exact htimestamp h₁
    · exact htext h₁

/-! ### One piece of a transfer -/

/-- What is known where a chunk has been asked for. -/
def Advanced (atoms : AtomTable) (owned₀ : Option OwnedContent) (key : Key) :
    Option PendingSend → Moment → Prop
  | none => Idle atoms owned₀
  | some entry => Taking atoms owned₀ key entry

lemma advanceSend_performs (h : Idle atoms owned₀ s) :
    Performs atoms owned₀ (Advanced atoms owned₀ key) (.perform (Call.advanceSend key)) s := by
  refine Holds.perform h (fun _ _ => Idle.beside)
    (fun (s : Moment) (ans : Option PendingSend) s' hs hstep => ?_) ?_
  · obtain ⟨⟨hans, hworld⟩, hlog⟩ := hstep
    obtain ⟨state, history⟩ := s'
    dsimp only at hans hworld hlog
    subst hlog hworld
    have hlinked : ∀ key' entry', key' ≠ key →
        Function.update s.1.sends key ((s.1.sends key).map PendingSend.advance) key' = some entry' →
        ∃ t, (watch owned₀ s.2).sendings key' = some t ∧ Linked atoms key' entry' t := by
      intro key' entry' hne hsome
      rw [Function.update_of_ne hne] at hsome
      exact hs.sound.linked key' entry' (by rw [hs.busy]; exact nofun) hsome
    have hwatch := watch_append owned₀ s.2 ⟨.advanceSend key, ans⟩
    cases ans with
    | none =>
      have hsound : Sound atoms owned₀ ({ s.1 with
          sends := Function.update s.1.sends key ((s.1.sends key).map PendingSend.advance) },
          s.2 ++ [⟨.advanceSend key, (none : Option PendingSend)⟩]) := by
        refine hs.sound.snoc rfl trivial hs.sound.owned hs.sound.since fun key' entry' _ hsome => ?_
        by_cases hsame : key' = key
        · subst hsame
          dsimp only at hsome
          rw [Function.update_self, ← hans] at hsome
          cases hsome
        · exact hlinked key' entry' hsame hsome
      exact ⟨fun _ => hsound, hsound, (congrArg Watch.asked hwatch).trans hs.asked,
        congrArg Watch.busy hwatch⟩
    | some entry =>
      obtain ⟨t, ht, hentry⟩ := hs.sound.linked key entry (by rw [hs.busy]; exact nofun) hans.symm
      have hsound : Sound atoms owned₀ ({ s.1 with
          sends := Function.update s.1.sends key ((s.1.sends key).map PendingSend.advance) },
          s.2 ++ [⟨.advanceSend key, some entry⟩]) := by
        refine hs.sound.snoc rfl trivial hs.sound.owned hs.sound.since
          fun key' entry' hbusy hsome => hlinked key' entry' (fun hsame => hbusy ?_) hsome
        rw [hsame]
        rfl
      refine ⟨fun _ => hsound, hsound, (congrArg Watch.asked hwatch).trans hs.asked,
        congrArg Watch.busy hwatch, ⟨t, (congrFun (congrArg Watch.sendings hwatch) key).trans ht,
          hentry⟩, .inr ?_⟩
      dsimp only
      rw [Function.update_self, ← hans]
      rfl
  · intro ans s s' h hs
    cases ans with
    | none => exact Idle.beside h hs
    | some entry => exact Taking.beside h hs

/-- A request that is no answer, and sends a piece. -/
lemma Watch.sent_piece {w : Watch} (h : w.asked = none) (key : Key) (type : Nat)
    (piece : List UInt8) (ok : Bool) :
    w.sent (.changeProperty8 key.1 key.2 type piece) ok = w.send key piece := by
  unfold Watch.sent
  rw [h]

lemma Linked.begun {t : Sending} (h : Linked atoms key entry t) : t.Begun := by
  refine ⟨h.chunks, ?_⟩
  rw [h.flatten]
  exact List.take_prefix _ _

/-- The next chunk. -/
lemma Linked.chunk {t : Sending} (h : Linked atoms key entry t)
    (hmore : entry.nextOffset < byteLen entry.content) : entry.serveNext.1 ≠ [] ∧
      Linked atoms key entry.advance { t with pieces := t.pieces ++ [entry.serveNext.1] } := by
  obtain ⟨taken, hpos, hsize, hle, hnext⟩ := IncrSend.serveNext_chunk hmore
  have hlength : (((utf8 entry.content).drop entry.nextOffset).take taken).length = taken := by
    rw [List.length_take, List.length_drop, length_utf8]
    omega
  have hne : ((utf8 entry.content).drop entry.nextOffset).take taken ≠ [] :=
    List.ne_nil_of_length_pos (by rwa [hlength])
  have hadvance : entry.advance =
      { entry with nextOffset := entry.nextOffset + taken } := by
    unfold PendingSend.advance
    rw [hnext]
  rw [hnext, hadvance]
  refine ⟨hne, h.requestor, h.targetProperty, h.target, h.text, ?_, ?_⟩
  · exact h.chunks.append hne (by rwa [hlength])
  · dsimp only
    rw [List.flatten_append, List.flatten_singleton, h.flatten, h.text, List.take_add]

/-- Behind the last chunk an empty piece is sent. -/
lemma Linked.last {t : Sending} (h : Linked atoms key entry t)
    (hend : byteLen entry.content ≤ entry.nextOffset) :
    Sending.Delivered { t with pieces := t.pieces ++ [[]] } := by
  refine ⟨t.pieces, rfl, h.chunks, h.flatten.trans (List.take_of_length_le ?_)⟩
  rwa [length_utf8, h.text]

/-- A piece is sent, and nothing else becomes of the other transfers. -/
lemma Taking.send {t : Sending} {piece : List UInt8} (ok : Bool)
    (h : Taking atoms owned₀ key entry s) (ht : (watch owned₀ s.2).sendings key = some t)
    (hpiece : Sending.Begun { t with pieces := t.pieces ++ [piece] } ∨
      Sending.Delivered { t with pieces := t.pieces ++ [piece] })
    (hlinked : piece ≠ [] →
      Linked atoms key entry.advance { t with pieces := t.pieces ++ [piece] }) :
    watch owned₀ (s.2 ++ [⟨.request (.changeProperty8 key.1 key.2 atoms.utf8String piece), ok⟩]) =
        (watch owned₀ s.2).send key piece ∧
      Sound atoms owned₀ (s.1,
        s.2 ++ [⟨.request (.changeProperty8 key.1 key.2 atoms.utf8String piece), ok⟩]) := by
  have hsent : (watch owned₀ s.2).observe
      ⟨.request (.changeProperty8 key.1 key.2 atoms.utf8String piece), ok⟩ =
      (watch owned₀ s.2).send key piece := Watch.sent_piece h.asked key atoms.utf8String piece ok
  refine ⟨(watch_append owned₀ s.2 _).trans hsent, h.sound.snoc hsent
    (.inr ⟨h.asked, rfl, t, ht, hpiece⟩) h.sound.owned h.sound.since
    fun key' entry' hbusy hsome => ?_⟩
  have hupdate : ((watch owned₀ s.2).send key piece).sendings = Function.update
      (watch owned₀ s.2).sendings key (some { t with pieces := t.pieces ++ [piece] }) := by
    unfold Watch.send
    rw [ht]
    rfl
  rw [hupdate]
  by_cases hsame : key' = key
  · subst hsame
    have hne : piece ≠ [] := by
      rintro rfl
      exact hbusy h.busy
    refine ⟨_, Function.update_self _ _ _, ?_⟩
    rcases h.sends with hnone | hadvanced
    · cases hnone.symm.trans hsome
    · obtain rfl := Option.some.inj (hadvanced.symm.trans hsome)
      exact hlinked hne
  · obtain ⟨t', ht', hl⟩ := h.sound.linked key' entry'
      (fun heq => hsame (Option.some.inj (heq.symm.trans h.busy))) hsome
    exact ⟨t', (Function.update_of_ne hsame _ _).trans ht', hl⟩

lemma chunk_performs (h : Taking atoms owned₀ key entry s)
    (hmore : entry.nextOffset < byteLen entry.content) :
    Performs atoms owned₀ (fun _ s' => Idle atoms owned₀ s')
      (request (.changeProperty8 key.1 key.2 atoms.utf8String entry.serveNext.1)) s := by
  refine Holds.perform h (fun _ _ => Taking.beside) (fun (s : Moment) (ok : Bool) s' hs hstep => ?_)
    fun _ _ _ => Idle.beside
  obtain ⟨hworld, hlog⟩ := hstep
  obtain ⟨state, history⟩ := s'
  obtain rfl : state = s.1 := hworld
  dsimp only at hlog
  subst hlog
  obtain ⟨t, ht, hl⟩ := hs.linked
  obtain ⟨hne, hlinked⟩ := hl.chunk hmore
  obtain ⟨hwatch, hsound⟩ := hs.send ok ht (.inl hlinked.begun) fun _ => hlinked
  exact ⟨fun _ => hsound, hsound, (congrArg Watch.asked hwatch).trans hs.asked,
    (congrArg Watch.busy hwatch).trans (if_neg hne)⟩

lemma last_performs (h : Taking atoms owned₀ key entry s)
    (hend : byteLen entry.content ≤ entry.nextOffset) :
    Performs atoms owned₀ (fun _ s' => Ending atoms owned₀ key s')
      (request (.changeProperty8 entry.requestor entry.targetProperty entry.target [])) s := by
  obtain ⟨_, -, hl⟩ := h.linked
  rw [hl.requestor, hl.targetProperty, hl.target]
  refine Holds.perform h (fun _ _ => Taking.beside) (fun (s : Moment) (ok : Bool) s' hs hstep => ?_)
    fun _ _ _ => Ending.beside
  obtain ⟨hworld, hlog⟩ := hstep
  obtain ⟨state, history⟩ := s'
  obtain rfl : state = s.1 := hworld
  dsimp only at hlog
  subst hlog
  obtain ⟨t, ht, hl⟩ := hs.linked
  obtain ⟨hwatch, hsound⟩ := hs.send ok ht (.inr (hl.last hend)) fun hne => absurd rfl hne
  exact ⟨fun _ => hsound, hsound, (congrArg Watch.asked hwatch).trans hs.asked,
    (congrArg Watch.busy hwatch).trans hs.busy⟩

lemma removeSend_performs (h : Ending atoms owned₀ key s) :
    Performs atoms owned₀ (fun _ s' => Idle atoms owned₀ s')
      (.perform (Call.removeSend key)) s := by
  refine Holds.perform h (fun _ _ => Ending.beside)
    (fun (s : Moment) (ans : Unit) s' hs hstep => ?_) fun _ _ _ => Idle.beside
  obtain ⟨hworld, hlog⟩ := hstep
  obtain ⟨state, history⟩ := s'
  dsimp only at hworld hlog
  subst hlog
  obtain rfl : state = { s.1 with sends := Function.update s.1.sends key none } := hworld
  have hsound : Sound atoms owned₀ ({ s.1 with sends := Function.update s.1.sends key none },
      s.2 ++ [⟨.removeSend key, ans⟩]) := by
    refine hs.sound.snoc rfl trivial hs.sound.owned hs.sound.since fun key' entry' _ hsome => ?_
    dsimp only at hsome
    by_cases hsame : key' = key
    · subst hsame
      rw [Function.update_self] at hsome
      cases hsome
    · rw [Function.update_of_ne hsame] at hsome
      exact hs.sound.linked key' entry'
        (fun heq => hsame (Option.some.inj (heq.symm.trans hs.busy))) hsome
  have hwatch := watch_append owned₀ s.2 ⟨.removeSend key, ans⟩
  exact ⟨fun _ => hsound, hsound, (congrArg Watch.asked hwatch).trans hs.asked,
    congrArg Watch.busy hwatch⟩

/-- Every piece is the next one of its transfer. -/
theorem serveNextIncrChunk_performs (h : Idle atoms owned₀ s) :
    Performs atoms owned₀ (fun _ s' => Idle atoms owned₀ s') (serveNextIncrChunk atoms key) s := by
  refine Holds.bind Beside.refl ((advanceSend_performs h).mono (fun _ _ h => h) fun ans s₁ h₁ => ?_)
  cases ans with
  | none => exact fun s₂ hs₂ => Idle.beside h₁ hs₂
  | some entry =>
    have h₁ : Taking atoms owned₀ key entry s₁ := h₁
    by_cases hend : byteLen entry.content ≤ entry.nextOffset
    · dsimp only
      rw [IncrSend.serveNext_last hend]
      exact Holds.bind Beside.refl ((last_performs h₁ hend).mono (fun _ _ h => h)
        fun _ s₂ h₂ => removeSend_performs h₂)
    · obtain ⟨taken, -, -, -, hnext⟩ := IncrSend.serveNext_chunk (not_le.mp hend)
      have hchunk := chunk_performs h₁ (not_le.mp hend)
      dsimp only
      rw [hnext] at hchunk ⊢
      exact Holds.bind Beside.refl (hchunk.mono (fun _ _ h => h)
        fun _ s₂ h₂ s₃ hs₃ => Idle.beside h₂ hs₃)

/-! ### All events -/

lemma setOwned_performs {content : Option OwnedContent} (h : Idle atoms owned₀ s) :
    Performs atoms owned₀ (fun _ s' => Idle atoms owned₀ s') (setOwned content) s := by
  refine Holds.perform h (fun _ _ => Idle.beside) (fun s ans s' hs hstep => ?_)
    fun _ _ _ => Idle.beside
  have hbeside : Beside atoms owned₀ s s' := beside_of_setOwned hstep
  exact ⟨hbeside.sound, hs.beside hbeside⟩

/-- What is known where an event has been taken. -/
def TakenUp (atoms : AtomTable) (owned₀ : Option OwnedContent) : Option Notice → Moment → Prop
  | some (.selectionRequest ev) => Asking atoms owned₀ ev none []
  | _ => Idle atoms owned₀

lemma TakenUp.beside {found : Option Notice} (h : TakenUp atoms owned₀ found s)
    (hs : Beside atoms owned₀ s s') : TakenUp atoms owned₀ found s' := by
  obtain _ | ⟨ev | ⟨window, atom⟩ | selection | _⟩ := found
  · exact Idle.beside h hs
  · exact Asking.beside h hs
  · exact Idle.beside h hs
  · exact Idle.beside h hs
  · exact Idle.beside h hs

lemma waitForEvent_performs (h : Idle atoms owned₀ s) :
    Performs atoms owned₀ (TakenUp atoms owned₀) (.perform Call.waitForEvent) s := by
  refine Holds.perform h (fun _ _ => Idle.beside)
    (fun (s : Moment) (found : Option Notice) s' hs hstep => ?_) fun _ _ _ => TakenUp.beside
  obtain ⟨hworld, hlog⟩ := hstep
  obtain ⟨state, history⟩ := s'
  obtain rfl : state = s.1 := hworld
  dsimp only at hlog
  subst hlog
  have hother : (watch owned₀ s.2).observe ⟨.waitForEvent, found⟩ = watch owned₀ s.2 →
      Keeps atoms owned₀ s (s.1, s.2 ++ [⟨.waitForEvent, found⟩]) ∧
        Idle atoms owned₀ (s.1, s.2 ++ [⟨.waitForEvent, found⟩]) := fun hobserve =>
    have hbeside : Beside atoms owned₀ s (s.1, s.2 ++ [⟨.waitForEvent, found⟩]) :=
      beside_of_quiet hobserve hs.asked rfl fun _ => .inr rfl
    ⟨hbeside.sound, hs.beside hbeside⟩
  obtain _ | ⟨ev | ⟨window, atom⟩ | selection | _⟩ := found
  · exact hother rfl
  · have hsound : Sound atoms owned₀
        (s.1, s.2 ++ [⟨.waitForEvent, some (Notice.selectionRequest ev)⟩]) := by
      refine hs.sound.snoc rfl hs.asked hs.sound.owned (fun _ => ?_) hs.sound.linked
      rw [← hs.sound.owned]
      exact List.mem_cons_self
    have hwatch := watch_append owned₀ s.2 ⟨.waitForEvent, some (Notice.selectionRequest ev)⟩
    exact ⟨fun _ => hsound, hsound, congrArg Watch.asked hwatch, congrArg Watch.offered hwatch,
      (congrArg Watch.busy hwatch).trans hs.busy, fun _ => nofun⟩
  · exact hother rfl
  · exact hother rfl
  · exact hother rfl

theorem handleEvent_performs {ourWindow : Nat} {found : Notice}
    (h : TakenUp atoms owned₀ (some found) s) :
    Performs atoms owned₀ (fun _ s' => Idle atoms owned₀ s')
      (handleEvent atoms ourWindow found) s := by
  have hdone : ∀ s, Idle atoms owned₀ s →
      Performs atoms owned₀ (fun _ s' => Idle atoms owned₀ s') (.ret ()) s :=
    fun s h s' hs => h.beside hs
  cases found with
  | selectionRequest ev => exact handleSelectionRequest_performs h
  | propertyDeleted window atom =>
    unfold handleEvent
    dsimp only
    split_ifs
    · exact hdone s h
    · refine Holds.bind Beside.refl ((quiet_performs (.containsSend (window, atom)) trivial h
        fun _ _ => Idle.beside).mono (fun _ _ h => h) fun hasSend s₁ h₁ => ?_)
      cases hasSend with
      | true => exact serveNextIncrChunk_performs h₁
      | false => exact hdone s₁ h₁
  | selectionClear selection =>
    unfold handleEvent
    dsimp only
    split_ifs
    · exact setOwned_performs h
    · exact hdone s h
  | other => exact hdone s h

theorem run_performs (ourWindow n : Nat) (h : Idle atoms owned₀ s) :
    Performs atoms owned₀ (fun _ _ => True) (run atoms ourWindow n) s := by
  induction n generalizing s with
  | zero => exact fun _ _ => trivial
  | succ n ih =>
    refine Holds.bind Beside.refl ((quiet_performs .loadShutdown trivial h
      fun _ _ => Idle.beside).mono (fun _ _ h => h) fun shutdown s₁ h₁ => ?_)
    cases shutdown with
    | true => exact fun _ _ => trivial
    | false =>
    refine Holds.bind Beside.refl ((waitForEvent_performs h₁).mono (fun _ _ h => h)
      fun found s₂ h₂ => ?_)
    cases found with
    | none => exact fun _ _ => trivial
    | some ev => exact Holds.bind Beside.refl ((handleEvent_performs h₂).mono (fun _ _ h => h)
        fun _ s₃ h₃ => ih h₃)

/-! ### The other threads -/

/-- What a thread does that only does what the event thread relies on. -/
lemma other_performs {call : Call}
    (hcall : ∀ s ans s', world.logged call s ans s' → Beside atoms owned₀ s s') :
    Holds world.logged (Keeps atoms owned₀) (Beside atoms owned₀) (fun _ _ => True)
      (.perform call) s :=
  Holds.perform (P := fun _ => True) trivial (fun _ _ _ _ => trivial)
    (fun s ans s' _ hstep => ⟨hcall s ans s' hstep, trivial⟩) fun _ _ _ _ _ => trivial

lemma writer_performs (contents : List (Option OwnedContent)) (s : Moment) :
    Holds world.logged (Keeps atoms owned₀) (Beside atoms owned₀) (fun _ _ => True)
      (writer contents) s := by
  induction contents generalizing s with
  | nil => exact fun _ _ => trivial
  | cons content contents ih =>
    exact Holds.bind (fun _ h => h) ((other_performs fun _ _ _ => beside_of_setOwned).mono
      (fun _ _ h => h) fun _ s₁ _ => ih s₁)

lemma watchdog_performs (n : Nat) (s : Moment) :
    Holds world.logged (Keeps atoms owned₀) (Beside atoms owned₀) (fun _ _ => True)
      (watchdog n) s := by
  have hquiet : ∀ call : Call, call.Quiet → ∀ s, Holds world.logged (Keeps atoms owned₀)
      (Beside atoms owned₀) (fun _ _ => True) (.perform call) s := fun call hcall s =>
    other_performs fun _ _ _ => beside_of_call call hcall
  induction n generalizing s with
  | zero => exact fun _ _ => trivial
  | succ n ih =>
    refine Holds.bind (fun _ h => h) ((hquiet .loadShutdown trivial s).mono (fun _ _ h => h)
      fun shutdown s₁ _ => ?_)
    cases shutdown with
    | true => exact fun _ _ => trivial
    | false =>
    exact Holds.bind (fun _ h => h) ((hquiet .instantNow trivial s₁).mono (fun _ _ h => h)
      fun now s₂ _ => Holds.bind (fun _ h => h) ((hquiet (.sweepSends now) trivial s₂).mono
        (fun _ _ h => h) fun _ s₃ _ => ih s₃))

end Steps

/-! ### Histories -/

def Call.taken : Answered → Option SelectionRequest
  | ⟨.waitForEvent, some (.selectionRequest ev)⟩ => some ev
  | _ => none

def Call.notified : Answered → Option SelectionNotify
  | ⟨.request (.sendEvent notify), _⟩ => some notify
  | _ => none

/-- The answer is about this request, and names its property or none. -/
def AnswerTo (ev : SelectionRequest) (notify : SelectionNotify) : Prop :=
  notify = ev.notify ev.property ∨ notify = ev.notify xNone

/-- What has passed between the event thread and the other clients, as far as it lies with the
thread: a `SendEvent` or `ChangeProperty` that fails counts as one that was made. -/
structure Conversed (atoms : AtomTable) (owned₀ : Option OwnedContent) (history : List Answered) :
    Prop where
  /-- All that was sent was right when it was sent. -/
  properly : Properly atoms owned₀ history
  /-- The requests were answered in turn, each of them once, but for the last one. -/
  answered : ∃ answered, history.filterMap Call.taken =
      answered ++ (watch owned₀ history).asked.toList ∧
    List.Forall₂ AnswerTo answered (history.filterMap Call.notified)
  /-- What a requestor has been sent of a transfer is the beginning of its text in chunks, or all of
  it and an empty piece. -/
  delivered : ∀ key t, (watch owned₀ history).sendings key = some t → t.Begun ∨ t.Delivered

section Histories

variable {atoms : AtomTable} {owned₀ : Option OwnedContent} {history : List Answered}
  {event : Answered} {w : Watch}

/-- A request leaves what the requestors have been sent, or it is one more right piece. -/
lemma MaySend.sendings {req : ServerRequest} (h : MaySend atoms w req) (ok : Bool) :
    (w.sent req ok).sendings = w.sendings ∨ ∃ key t, (t.Begun ∨ t.Delivered) ∧
      (w.sent req ok).sendings = Function.update w.sendings key (some t) := by
  cases req with
  | sendEvent notify =>
    rw [Watch.sent_sendEvent]
    exact .inl rfl
  | selectPropertyChanges window =>
    obtain ⟨ev, hasked, -⟩ := h
    rw [Watch.sent_of_asked hasked fun _ heq => by cases heq]
    exact .inl rfl
  | changeProperty32 window property type data =>
    obtain ⟨ev, hasked, -⟩ := h
    rw [Watch.sent_of_asked hasked fun _ heq => by cases heq]
    exact .inl rfl
  | changeProperty8 window property type data =>
    obtain ⟨ev, hasked, -⟩ | ⟨hasked, -, t, ht, hpiece⟩ := h
    · rw [Watch.sent_of_asked hasked fun _ heq => by cases heq]
      exact .inl rfl
    · refine .inr ⟨(window, property), _, hpiece, ?_⟩
      rw [Watch.sent_piece hasked (window, property)]
      unfold Watch.send
      rw [ht]
      rfl

lemma Watch.asked_sent (w : Watch) {req : ServerRequest}
    (hreq : ∀ notify, req ≠ .sendEvent notify) (ok : Bool) : (w.sent req ok).asked = w.asked := by
  unfold Watch.sent
  cases hasked : w.asked with
  | some ev =>
    cases req with
    | sendEvent notify => exact absurd rfl (hreq notify)
    | _ => rfl
  | none =>
    cases req with
    | sendEvent notify => exact absurd rfl (hreq notify)
    | _ => exact hasked

lemma Properly.delivered (h : Properly atoms owned₀ history) {key : Key} {t : Sending}
    (ht : (watch owned₀ history).sendings key = some t) : t.Begun ∨ t.Delivered := by
  induction h generalizing t with
  | nil => cases ht
  | @snoc history event _ hproper ih =>
    rw [watch_append] at ht
    have hupdate : ∀ (key' : Key) (t' : Sending), (t'.Begun ∨ t'.Delivered) →
        Function.update (watch owned₀ history).sendings key' (some t') key = some t →
        t.Begun ∨ t.Delivered := by
      intro key' t' ht' heq
      by_cases hkey : key = key'
      · subst hkey
        rw [Function.update_self] at heq
        rwa [← Option.some.inj heq]
      · rw [Function.update_of_ne hkey] at heq
        exact ih heq
    obtain ⟨call, ans⟩ := event
    cases call with
    | request req =>
      obtain hsame | ⟨key', t', ht', hsent⟩ := MaySend.sendings hproper ans
      · exact ih ((congrFun hsame key).symm.trans ht)
      · exact hupdate key' t' ht' ((congrFun hsent key).symm.trans ht)
    | insertSend key' entry =>
      exact hupdate key' ⟨entry.content, (watch owned₀ history).announced, []⟩
        (.inl ⟨nofun, List.nil_prefix⟩) ht
    | waitForEvent =>
      obtain _ | ⟨ev | ⟨window, atom⟩ | selection | _⟩ := (ans : Option Notice) <;> exact ih ht
    | loadShutdown => exact ih ht
    | readOwned => exact ih ht
    | setOwned content => exact ih ht
    | instantNow => exact ih ht
    | containsSend key' => exact ih ht
    | advanceSend key' => exact ih ht
    | removeSend key' => exact ih ht
    | sweepSends now => exact ih ht

lemma Properly.answered (h : Properly atoms owned₀ history) :
    ∃ answered, history.filterMap Call.taken =
        answered ++ (watch owned₀ history).asked.toList ∧
      List.Forall₂ AnswerTo answered (history.filterMap Call.notified) := by
  induction h with
  | nil => exact ⟨[], rfl, .nil⟩
  | @snoc history event _ hproper ih =>
    obtain ⟨answered, htaken, hanswers⟩ := ih
    rw [List.filterMap_append, List.filterMap_append, watch_append]
    have hsame : Call.taken event = none → Call.notified event = none →
        ((watch owned₀ history).observe event).asked = (watch owned₀ history).asked →
        ∃ answered, history.filterMap Call.taken ++ [event].filterMap Call.taken =
            answered ++ ((watch owned₀ history).observe event).asked.toList ∧
          List.Forall₂ AnswerTo answered
            (history.filterMap Call.notified ++ [event].filterMap Call.notified) := by
      intro hnone hnone' hasked
      rw [List.filterMap_cons_none hnone, List.filterMap_cons_none hnone', hasked]
      exact ⟨answered, (List.append_nil _).trans htaken, (List.append_nil _).symm ▸ hanswers⟩
    obtain ⟨call, ans⟩ := event
    cases call with
    | waitForEvent =>
      have hasked : (watch owned₀ history).asked = none := hproper
      rw [hasked] at htaken
      obtain _ | ⟨ev | ⟨window, atom⟩ | selection | _⟩ := (ans : Option Notice)
      · exact hsame rfl rfl rfl
      · refine ⟨answered, ?_, (List.append_nil _).symm ▸ hanswers⟩
        rw [htaken, Option.toList_none, List.append_nil]
        rfl
      · exact hsame rfl rfl rfl
      · exact hsame rfl rfl rfl
      · exact hsame rfl rfl rfl
    | request req =>
      cases req with
      | sendEvent notify =>
        obtain ⟨ev, hasked, hanswer⟩ := hproper
        rw [hasked] at htaken
        have hafter : ((watch owned₀ history).observe ⟨.request (.sendEvent notify), ans⟩).asked =
            none := congrArg Watch.asked (Watch.sent_sendEvent _ notify ans)
        rw [hafter]
        refine ⟨answered ++ [ev], ?_, List.rel_append hanswers (.cons ?_ .nil)⟩
        · rw [htaken]
          rfl
        · exact hanswer.imp (fun h => h.1) fun h => h.1
      | selectPropertyChanges window =>
        exact hsame rfl rfl (Watch.asked_sent _ (fun _ heq => by cases heq) ans)
      | changeProperty32 window property type data =>
        exact hsame rfl rfl (Watch.asked_sent _ (fun _ heq => by cases heq) ans)
      | changeProperty8 window property type data =>
        exact hsame rfl rfl (Watch.asked_sent _ (fun _ heq => by cases heq) ans)
    | loadShutdown => exact hsame rfl rfl rfl
    | readOwned => exact hsame rfl rfl rfl
    | setOwned content => exact hsame rfl rfl rfl
    | instantNow => exact hsame rfl rfl rfl
    | containsSend key => exact hsame rfl rfl rfl
    | insertSend key entry => exact hsame rfl rfl rfl
    | advanceSend key => exact hsame rfl rfl rfl
    | removeSend key => exact hsame rfl rfl rfl
    | sweepSends now => exact hsame rfl rfl rfl

theorem Properly.conversed (h : Properly atoms owned₀ history) : Conversed atoms owned₀ history :=
  ⟨h, h.answered, fun _ _ => h.delivered⟩

end Histories

/-! ### All threads -/

section Pool

variable {κ : Type}

/-- What a thread relies on from the others. -/
def Thread.relies (atoms : AtomTable) (owned₀ : Option OwnedContent) :
    Thread κ → Moment → Moment → Prop
  | events => Beside atoms owned₀
  | _ => Keeps atoms owned₀

def Thread.guarantees (atoms : AtomTable) (owned₀ : Option OwnedContent) :
    Thread κ → Moment → Moment → Prop
  | events => Keeps atoms owned₀
  | _ => Beside atoms owned₀

variable {atoms : AtomTable} {ourWindow events sweeps : Nat} {owned₀ : Option OwnedContent}
  {contents : κ → List (Option OwnedContent)} {s₀ : State} {s s' s'' : Moment}
  {ps : Thread κ → Program Unit} {i j : Thread κ}

lemma Thread.relies_refl (i : Thread κ) (s : Moment) : i.relies atoms owned₀ s s := by
  cases i with
  | events => exact Beside.refl s
  | watchdog => exact fun h => h
  | writer k => exact fun h => h

lemma Thread.relies_trans (h : i.relies atoms owned₀ s s') (h' : i.relies atoms owned₀ s' s'') :
    i.relies atoms owned₀ s s'' := by
  cases i with
  | events => exact Beside.trans h h'
  | watchdog => exact fun hs => h' (h hs)
  | writer k => exact fun hs => h' (h hs)

lemma Thread.guarantees_keeps (h : i.guarantees atoms owned₀ s s') : Keeps atoms owned₀ s s' := by
  cases i with
  | events => exact h
  | watchdog => exact h.sound
  | writer k => exact h.sound

lemma Thread.relies_of_guarantees (hij : i ≠ j) (h : j.guarantees atoms owned₀ s s') :
    i.relies atoms owned₀ s s' := by
  cases i with
  | watchdog => exact Thread.guarantees_keeps h
  | writer k => exact Thread.guarantees_keeps h
  | events =>
    cases j with
    | events => exact absurd rfl hij
    | watchdog => exact h
    | writer k => exact h

lemma sound_start (hsends : ∀ key, s₀.sends key = none) : Sound atoms s₀.owned (s₀, []) where
  owned := rfl
  since h := absurd rfl h
  properly := .nil
  linked key entry _ hentry := by cases (hsends key).symm.trans hentry

/-- In every interleaving of the event thread with the watchdog and the writers, whatever events
come and whatever requests fail, every request for the selection is answered once and in its turn
(or the answer is tried and fails), and no transfer mixes two texts. -/
theorem conversions_answered [DecidableEq κ] (hsends : ∀ key, s₀.sends key = none)
    (hrun : Interleaves (fun _ => world.logged) (threads atoms ourWindow events sweeps contents)
      (s₀, []) ps s) : Conversed atoms s₀.owned s.2 := by
  have hstart : Sound atoms s₀.owned (s₀, []) := sound_start hsends
  have hall : ∀ i : Thread κ, Holds world.logged (i.relies atoms s₀.owned)
      (i.guarantees atoms s₀.owned) (fun _ _ => True)
      (threads atoms ourWindow events sweeps contents i) (s₀, []) := by
    intro i
    cases i with
    | events => exact run_performs ourWindow events ⟨hstart, rfl, rfl⟩
    | watchdog => exact watchdog_performs sweeps _
    | writer k => exact writer_performs (contents k) _
  have hsound : Sound atoms s₀.owned s := hrun.invariant Thread.relies_refl
    (fun _ _ _ _ => Thread.relies_trans) (fun _ _ _ _ => Thread.relies_of_guarantees) hall
    (fun _ _ _ hs hg => Thread.guarantees_keeps hg hs) hstart
  exact hsound.properly.conversed

/-! ### A text that is asked for -/

def sampleAtoms : AtomTable := ⟨1, 2, 3, 4, 5, 6, 7⟩

/-- The same request comes all the time, and every request to the server can be sent. -/
def serveSample (ev : SelectionRequest) : (call : Call) → State → call.Ans × State
  | .loadShutdown, s => (false, s)
  | .waitForEvent, s => (some (.selectionRequest ev), s)
  | .request _, s => (true, s)
  | .readOwned, s => (s.owned, s)
  | .setOwned content, s => ((), { s with owned := content })
  | .instantNow, s => (s.now, s)
  | .containsSend key, s => ((s.sends key).isSome, s)
  | .insertSend key entry, s =>
      ((), { s with sends := Function.update s.sends key (some entry) })
  | .advanceSend key, s => (s.sends key,
      { s with sends := Function.update s.sends key ((s.sends key).map PendingSend.advance) })
  | .removeSend key, s => ((), { s with sends := Function.update s.sends key none })
  | .sweepSends now, s => ((), { s with sends := sweep now s.sends })

lemma world_serveSample (ev : SelectionRequest) (call : Call) (s : State) :
    world call s (serveSample ev call s).1 (serveSample ev call s).2 := by
  cases call with
  | readOwned => exact ⟨rfl, rfl⟩
  | instantNow => exact ⟨le_rfl, rfl⟩
  | containsSend key => exact ⟨rfl, rfl⟩
  | advanceSend key => exact ⟨rfl, rfl⟩
  | _ => rfl

def recordSample (ev : SelectionRequest) (call : Call) (s : Moment) : call.Ans × Moment :=
  ((serveSample ev call s.1).1, (serveSample ev call s.1).2,
    s.2 ++ [⟨call, (serveSample ev call s.1).1⟩])

def textRequest : SelectionRequest := ⟨50, 8, 1, 2, 9⟩

def unownedState : State := ⟨none, fun _ => none, 0⟩

/-- A text is written before it is asked for, and cleared before the request is answered. -/
def servedAndCleared : (Thread Unit → Program Unit) × Moment :=
  ([.writer (), .events, .events, .events, .writer (), .events, .events] : List (Thread Unit)).foldl
    (advance (recordSample textRequest) fun _ _ => true)
    (threads sampleAtoms 10 1 0 fun _ => [some ⟨['a'], ⟨0⟩, 40⟩, none], (unownedState, []))

example :
    servedAndCleared.2.2.filterMap Call.notified = [textRequest.notify textRequest.property] :=
  rfl

theorem conversions_answered_cleared :
    Conversed sampleAtoms unownedState.owned servedAndCleared.2.2 := by
  have hrun : Interleaves (fun _ => world.logged)
      (threads sampleAtoms 10 1 0 fun _ : Unit => [some ⟨['a'], ⟨0⟩, 40⟩, none]) (unownedState, [])
      servedAndCleared.1 servedAndCleared.2 :=
    interleaves_schedule _ _ (fun _ call s _ => ⟨world_serveSample textRequest call s.1, rfl⟩) _
  exact conversions_answered (fun _ => rfl) hrun

end Pool

end Invisibool.Clipboard.Conversions
