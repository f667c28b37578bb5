import Invisibool.Clipboard.Event
import Invisibool.System.Transition
import Mathlib.Data.Multiset.Filter

/-!
# Subscriptions

How both backends keep their subscribers, and tell them of an event: whoever tells them takes a
snapshot of the subscribers, and then calls one after the other. Others may subscribe, and drop
their subscriptions, in between. A subscription is dropped by its callback, so that all
subscriptions of one callback are dropped at once.
-/

namespace Invisibool.Clipboard
open Transition

inductive Backend
  | inMemory
  | x11
  deriving DecidableEq

inductive DispatchMessage
  | event (event : ClipboardEvent)
  | shutdown
  deriving DecidableEq

def DispatchMessage.event? : DispatchMessage → Option ClipboardEvent
  | event ev => some ev
  | shutdown => none

/-- How far the subscribers have been told of an event. `live` are the callbacks of the
subscriptions that were live when the snapshot was taken. -/
structure Delivery (κ : Type) where
  event : ClipboardEvent
  called : List κ
  toCall : List κ
  live : Multiset κ

/-- The next callback of the snapshot is called. -/
def Delivery.call {κ : Type} (d : Delivery κ) : Delivery κ :=
  match d.toCall with
  | [] => d
  | cb :: toCall => { d with called := d.called ++ [cb], toCall := toCall }

/-- The subscribers, the channel of the dispatcher, and all deliveries so far. `live` are the
callbacks of the subscriptions that have not been dropped. -/
structure Subscriptions (κ : Type) where
  subscribers : List κ
  live : Multiset κ
  channel : List DispatchMessage
  stopped : Bool
  deliveries : List (Delivery κ)

namespace Subscriptions

/-- One step: of a subscriber, of the backend when it has an event or is dropped, of the
dispatcher, or of whoever makes a delivery. -/
inductive Act (κ : Type)
  | subscribe (cb : κ)
  | drop (cb : κ)
  | event (event : ClipboardEvent)
  | shutdown
  | receive
  | call (n : Nat)
  deriving DecidableEq

def Act.event? {κ : Type} : Act κ → Option ClipboardEvent
  | event ev => some ev
  | _ => none

variable {κ : Type}

/-- Nothing is left to be done of the deliveries so far. -/
def Idle (s : Subscriptions κ) : Prop := ∀ d ∈ s.deliveries, d.toCall = []

/-- The delivery that begins with a snapshot. -/
def snapshot (s : Subscriptions κ) (event : ClipboardEvent) : Delivery κ :=
  ⟨event, [], s.subscribers, s.live⟩

def deliver (s : Subscriptions κ) (event : ClipboardEvent) : Subscriptions κ :=
  { s with deliveries := s.deliveries ++ [s.snapshot event] }

/-- `DispatchSender`: what is sent to a dispatcher that has gone is dropped. -/
def send (s : Subscriptions κ) (message : DispatchMessage) : Subscriptions κ :=
  if s.stopped then s else { s with channel := s.channel ++ [message] }

/-- `dispatcher_loop`, up to the next message. -/
def receive (s : Subscriptions κ) : Subscriptions κ :=
  match s.channel with
  | [] => s
  | .event event :: channel => { s with channel := channel }.deliver event
  | .shutdown :: _ => { s with channel := [], stopped := true }

variable [DecidableEq κ]

/-- When a step can be taken. A subscription is dropped once, and the dispatcher comes back to its
channel when it has called every callback. -/
def Enabled (backend : Backend) (s : Subscriptions κ) : Act κ → Prop
  | .subscribe _ => True
  | .drop cb => cb ∈ s.live
  | .event _ => True
  | .shutdown => backend = .x11
  | .receive => backend = .x11 ∧ s.channel ≠ [] ∧ s.Idle
  | .call n => ∃ d ∈ s.deliveries[n]?, d.toCall ≠ []

/-- What a step does, when it can be taken. -/
def next (backend : Backend) (s : Subscriptions κ) : Act κ → Subscriptions κ
  | .subscribe cb => { s with subscribers := s.subscribers ++ [cb], live := cb ::ₘ s.live }
  | .drop cb => { s with subscribers := s.subscribers.filter (· ≠ cb), live := s.live.erase cb }
  | .event event =>
    match backend with
    | .inMemory => s.deliver event
    | .x11 => s.send (.event event)
  | .shutdown => s.send .shutdown
  | .receive => s.receive
  | .call n => { s with deliveries := s.deliveries.modify n Delivery.call }

def system (backend : Backend) : System (Subscriptions κ) (Act κ) :=
  ⟨Enabled backend, next backend⟩

/-- All steps are allowed. -/
def Any (_ : Subscriptions κ) (_ : Act κ) : Prop := True

/-- Nobody has subscribed to a backend that is new. -/
def new : Subscriptions κ := ⟨[], 0, [], false, []⟩

/-- A subscription that is dropped is the only one of its callback. -/
def Sole (s : Subscriptions κ) : Act κ → Prop
  | .drop cb => s.live.count cb = 1
  | _ => True

/-- Each callback is called as often as it has live subscriptions. -/
def Exact (called : List κ) (live : Multiset κ) : Prop := ∀ cb, called.count cb = live.count cb

/-- Wherever an event comes in the run, it is to be delivered exactly, and what has been delivered
in the run has been delivered exactly. -/
def Delivers (backend : Backend) (acts : List (Act κ)) : Prop :=
  (∀ before later, acts = before ++ later → ∀ event,
    let d := ((system backend).after new before).snapshot event
    Exact d.toCall d.live) ∧
  ∀ d ∈ ((system backend).after new acts).deliveries, d.toCall = [] → Exact d.called d.live

variable {backend : Backend} {s : Subscriptions κ} {acts : List (Act κ)} {a : Act κ}

lemma exact_iff {called : List κ} {live : Multiset κ} : Exact called live ↔ ↑called = live := by
  rw [Multiset.ext]
  exact forall_congr' fun cb => by rw [Multiset.coe_count]

lemma exact_append {called : List κ} {live : Multiset κ} (h : Exact called live) (cb : κ) :
    Exact (called ++ [cb]) (cb ::ₘ live) := by
  intro cb'
  rw [List.count_append, h cb', Multiset.count_cons, List.count_singleton]
  exact congrArg _ (by grind)

/-- What is left behind a drop are the subscriptions of the other callbacks. -/
lemma count_drop (called : List κ) (cb cb' : κ) :
    (called.filter (· ≠ cb)).count cb' = if cb' = cb then 0 else called.count cb' := by
  split_ifs with h
  · rw [h, List.count_eq_zero]
    intro hmem
    exact of_decide_eq_true (List.mem_filter.mp hmem).2 rfl
  · exact List.count_filter (decide_eq_true h)

/-- A callback is registered for its live subscriptions behind a drop, exactly if it had one. -/
lemma exact_drop_iff {called : List κ} {live : Multiset κ} {cb : κ} (h : Exact called live)
    (hcb : cb ∈ live) : Exact (called.filter (· ≠ cb)) (live.erase cb) ↔ live.count cb = 1 := by
  have hpos := Multiset.count_pos.mpr hcb
  constructor
  · intro hexact
    have hcount := hexact cb
    rw [count_drop, if_pos rfl, Multiset.count_erase_self] at hcount
    omega
  · intro hcount cb'
    rw [count_drop]
    split_ifs with hcb'
    · rw [hcb', Multiset.count_erase_self, hcount]
    · rw [Multiset.count_erase_of_ne hcb', h cb']

/-- The subscribers stay registered for their live subscriptions, exactly if no other subscription
is dropped with one. -/
lemma exact_next_iff (h : Exact s.subscribers s.live) (he : s.Enabled backend a) :
    Exact (s.next backend a).subscribers (s.next backend a).live ↔ s.Sole a := by
  cases a with
  | subscribe cb => exact iff_of_true (exact_append h cb) trivial
  | drop cb => exact exact_drop_iff h he
  | event event =>
    refine iff_of_true ?_ trivial
    cases backend with
    | inMemory => exact h
    | x11 =>
      change Exact (s.send _).subscribers (s.send _).live
      unfold send
      split <;> exact h
  | shutdown =>
    refine iff_of_true ?_ trivial
    change Exact (s.send _).subscribers (s.send _).live
    unfold send
    split <;> exact h
  | receive =>
    refine iff_of_true ?_ trivial
    change Exact s.receive.subscribers s.receive.live
    unfold receive
    split <;> exact h
  | call n => exact iff_of_true h trivial

omit [DecidableEq κ] in
lemma mem_modify {d : Delivery κ} {ds : List (Delivery κ)} {n : Nat}
    (h : d ∈ ds.modify n Delivery.call) : d ∈ ds ∨ ∃ d' ∈ ds, d = d'.call := by
  obtain ⟨i, hi⟩ := List.mem_iff_getElem?.mp h
  rw [List.getElem?_modify] at hi
  obtain ⟨d', hd', hd⟩ := Option.map_eq_some_iff.mp hi
  split_ifs at hd with hn
  · exact .inr ⟨d', List.mem_of_getElem? hd', hd.symm⟩
  · exact .inl (hd ▸ List.mem_of_getElem? hd')

omit [DecidableEq κ] in
lemma call_exact {d : Delivery κ} : d.call.called ++ d.call.toCall = d.called ++ d.toCall ∧
    d.call.live = d.live := by
  unfold Delivery.call
  split
  · exact ⟨rfl, rfl⟩
  · rename_i htoCall
    rw [htoCall]
    exact ⟨List.append_assoc .., rfl⟩

/-- What is known of the deliveries so far: who has been called, and who is still to be called, are
those with live subscriptions. -/
def Begun (s : Subscriptions κ) : Prop :=
  ∀ d ∈ s.deliveries, Exact (d.called ++ d.toCall) d.live

lemma Begun.deliver (h : s.Begun) (hexact : Exact s.subscribers s.live) (ev : ClipboardEvent) :
    (s.deliver ev).Begun := by
  intro d hd
  rcases List.mem_append.mp hd with hd | hd
  · exact h d hd
  · rw [List.mem_singleton.mp hd]
    exact hexact

lemma Begun.send (h : s.Begun) (message : DispatchMessage) : (s.send message).Begun := by
  unfold Subscriptions.send
  split <;> exact h

lemma Begun.next (h : s.Begun) (hexact : Exact s.subscribers s.live) (a : Act κ) :
    (s.next backend a).Begun := by
  cases a with
  | subscribe cb => exact h
  | drop cb => exact h
  | event ev =>
    cases backend with
    | inMemory => exact h.deliver hexact ev
    | x11 => exact h.send _
  | shutdown => exact h.send _
  | receive =>
    change s.receive.Begun
    unfold Subscriptions.receive
    split
    · exact h
    · rename_i ev channel _
      have hpopped : ({ s with channel := channel } : Subscriptions κ).Begun := h
      exact hpopped.deliver hexact ev
    · exact h
  | call n =>
    intro d hd
    rcases mem_modify hd with hd | ⟨d', hd', rfl⟩
    · exact h d hd
    · rw [call_exact.1, call_exact.2]
      exact h d' hd'

/-- All drops of the run are of subscriptions that are the only ones of their callbacks. -/
def Unshared (backend : Backend) (acts : List (Act κ)) : Prop := ∀ before a later,
  acts = before ++ a :: later → ((system backend).after new before).Sole a

lemma Unshared.init {later : List (Act κ)} (h : Unshared backend (acts ++ later)) :
    Unshared backend acts := by
  rintro before a rest rfl
  exact h before a (rest ++ later) (by rw [List.append_assoc, List.cons_append])

/-- In a run without shared drops, the subscribers are registered for their live subscriptions. -/
lemma exact_after (hrun : (system backend).Runs Any new acts) (h : Unshared backend acts) :
    Exact ((system backend).after new acts).subscribers ((system backend).after new acts).live ∧
      ((system backend).after new acts).Begun := by
  refine hrun.history (motive := fun acts => Unshared backend acts →
    Exact ((system backend).after new acts).subscribers ((system backend).after new acts).live ∧
      ((system backend).after new acts).Begun) ?_ ?_ h
  · intro _
    rw [System.after_nil]
    exact ⟨fun cb => rfl, nofun⟩
  · intro acts a _ ih he _ h
    obtain ⟨hexact, hbegun⟩ := ih h.init
    rw [System.after_concat]
    exact ⟨(exact_next_iff hexact he).mpr (h acts a [] rfl), hbegun.next hexact a⟩

/-- Every event calls every callback as often as it has live subscriptions, exactly if no drop of
the run is of a subscription whose callback has others. -/
theorem delivers_iff (hrun : (system backend).Runs Any new acts) :
    Delivers backend acts ↔ Unshared backend acts := by
  constructor
  · rintro ⟨h, -⟩ before a later rfl
    obtain ⟨hbefore, he, -⟩ := hrun.split
    have hexact := h before (a :: later) rfl ⟨0, none⟩
    have hafter := h (before ++ [a]) later (by rw [List.append_assoc, List.singleton_append])
      ⟨0, none⟩
    rw [System.after_concat] at hafter
    exact (exact_next_iff hexact he).mp hafter
  · intro h
    refine ⟨?_, ?_⟩
    · rintro before later rfl ev
      exact (exact_after (System.runs_append.mp hrun).1 h.init).1
    · intro d hd hdone
      have hcalled := (exact_after hrun h).2 d hd
      rwa [hdone, List.append_nil] at hcalled

/-- As long as the dispatcher is there, the events of the run are those that are delivered, and
behind them those in the channel. -/
structure Kept (backend : Backend) (acts : List (Act κ)) (s : Subscriptions κ) : Prop where
  direct : backend = .inMemory → s.channel = [] ∧ s.stopped = false
  events : s.stopped = false → s.deliveries.map Delivery.event ++
    s.channel.filterMap DispatchMessage.event? = acts.filterMap Act.event?

omit [DecidableEq κ] in
lemma event_call (d : Delivery κ) : d.call.event = d.event := by
  unfold Delivery.call
  split <;> rfl

omit [DecidableEq κ] in
lemma events_modify (ds : List (Delivery κ)) (n : Nat) :
    (ds.modify n Delivery.call).map Delivery.event = ds.map Delivery.event := by
  apply List.ext_getElem?
  intro i
  rw [List.getElem?_map, List.getElem?_map, List.getElem?_modify]
  cases ds[i]? with
  | none => rfl
  | some d =>
    split_ifs
    · exact congrArg some (event_call d)
    · rfl

omit [DecidableEq κ] in
/-- What is sent comes behind what is in the channel. -/
lemma Kept.send (h : Kept .x11 acts s) {message : DispatchMessage}
    (ha : message.event? = a.event?) : Kept .x11 (acts ++ [a]) (s.send message) := by
  have hlast : [message].filterMap DispatchMessage.event? = [a].filterMap Act.event? := by
    rw [List.filterMap_cons, List.filterMap_cons, ha]
    rfl
  refine ⟨nofun, fun hstopped => ?_⟩
  unfold Subscriptions.send at hstopped ⊢
  split_ifs at hstopped ⊢ with hgone
  · exact absurd (hgone.symm.trans hstopped) Bool.true_eq_false.mp
  · rw [List.filterMap_append, List.filterMap_append, ← h.events hstopped, List.append_assoc,
      hlast]

lemma Kept.next (h : Kept backend acts s) (he : s.Enabled backend a) :
    Kept backend (acts ++ [a]) (s.next backend a) := by
  have hsilent : a.event? = none → (acts ++ [a]).filterMap Act.event? = acts.filterMap Act.event? := by
    intro ha
    rw [List.filterMap_append, List.filterMap_cons_none ha, List.filterMap_nil, List.append_nil]
  cases a with
  | subscribe cb => exact ⟨h.direct, fun hs => (h.events hs).trans (hsilent rfl).symm⟩
  | drop cb => exact ⟨h.direct, fun hs => (h.events hs).trans (hsilent rfl).symm⟩
  | event ev =>
    cases backend with
    | inMemory =>
      refine ⟨h.direct, fun hs => ?_⟩
      have hevents := h.events hs
      change (s.deliveries ++ [_]).map Delivery.event ++ s.channel.filterMap _ = _
      rw [(h.direct rfl).1, List.filterMap_nil, List.append_nil] at hevents ⊢
      rw [List.map_append, hevents, List.filterMap_append]
      rfl
    | x11 => exact h.send rfl
  | shutdown =>
    obtain rfl : backend = .x11 := he
    exact h.send rfl
  | receive =>
    obtain ⟨rfl, -, -⟩ := he
    refine ⟨nofun, fun hs => ?_⟩
    rw [hsilent rfl]
    change s.receive.stopped = false at hs
    change s.receive.deliveries.map _ ++ s.receive.channel.filterMap _ = _
    unfold Subscriptions.receive at hs ⊢
    split at hs
    · exact h.events hs
    · rename_i ev channel hchannel
      have hevents := h.events hs
      rw [hchannel] at hevents
      rw [← hevents]
      change (s.deliveries ++ [_]).map Delivery.event ++ _ = _
      rw [List.map_append, List.append_assoc]
      rfl
    · cases hs
  | call n =>
    refine ⟨h.direct, fun hs => ?_⟩
    rw [hsilent rfl, ← h.events hs]
    exact congrArg (· ++ _) (events_modify s.deliveries n)

/-- No event is lost before the backend is dropped, and none is told twice. -/
theorem kept_after (hrun : (system backend).Runs Any new acts) :
    Kept backend acts ((system backend).after new acts) := by
  refine hrun.history (motive := fun acts =>
    Kept backend acts ((system backend).after new acts)) ?_ ?_
  · exact ⟨fun _ => ⟨rfl, rfl⟩, fun _ => rfl⟩
  · intro acts a _ h he _
    rw [System.after_concat]
    exact h.next he

instance (s : Subscriptions κ) : (a : Act κ) → Decidable ((system backend).Enabled s a)
  | .subscribe _ => instDecidableTrue
  | .drop cb => inferInstanceAs (Decidable (cb ∈ s.live))
  | .event _ => instDecidableTrue
  | .shutdown => inferInstanceAs (Decidable (backend = .x11))
  | .receive => inferInstanceAs (Decidable (backend = .x11 ∧ s.channel ≠ [] ∧
      ∀ d ∈ s.deliveries, d.toCall = []))
  | .call n => inferInstanceAs (Decidable (∃ d ∈ s.deliveries[n]?, d.toCall ≠ []))

instance (s : Subscriptions κ) (a : Act κ) : Decidable (Any s a) := instDecidableTrue

/-- A callback that subscribes twice, and another one, which is dropped before the event. -/
def subscribed : List (Act Bool) :=
  [.subscribe false, .subscribe true, .subscribe false, .drop true, .event ⟨1, none⟩, .receive,
    .call 0, .call 0]

theorem delivers_iff_subscribed : Delivers .x11 subscribed ↔ Unshared .x11 subscribed :=
  delivers_iff (by decide)

/-- One of two subscriptions of a callback is dropped, and no event calls it any more. -/
def dropped : List (Act Bool) := [.subscribe false, .subscribe false, .drop false, .event ⟨1, none⟩]

theorem not_delivers : (system .inMemory).Runs Any new dropped ∧ ¬Delivers .inMemory dropped := by
  refine ⟨by decide, fun h => ?_⟩
  have hcount := h.2 ⟨⟨1, none⟩, [], [], {false}⟩ (List.mem_singleton_self _) rfl false
  rw [Multiset.count_singleton_self] at hcount
  cases hcount

end Subscriptions

end Invisibool.Clipboard
