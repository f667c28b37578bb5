import Invisibool.Clipboard.Ownership

/-!
# Which write an event is about

The event thread looks for the token at the time of handling an event, not of the change that it
tells about. It finds the right one if the content of a write is left alone until the event about
it has been handled.
-/

namespace Invisibool.Clipboard
open Text Relation

namespace X11

variable {ι : Type}

section

variable (s : X11 ι)

/-- The content of a write that the server has not answered. -/
def Pending (content : OwnedContent) : Prop :=
  (∃ i, s.unsent i = some (some content)) ∨ some content ∈ s.changes

/-- An event about one of our writes is still to be handled, or may still come. -/
def Awaited : Prop :=
  (∃ cause, .xfixesSelectionNotify .ourWindow cause ∈ s.events) ∨
    ∃ content, s.Pending content ∧ ¬s.Outdated content

/-- The content of a write is changed only after the event about the write has been handled. -/
def Patient : Act ι → Prop
  | .store _ _ => ¬s.Awaited
  | .drop _ => ¬s.Awaited
  | .selectionClear => ¬s.Awaited
  | _ => True

/-- The token that the handler would find is the one of the write. -/
def Told : Event → Prop
  | .xfixesSelectionNotify .ourWindow cause =>
      ∃ content, s.inner.owned = some content ∧ cause = some content.token
  | .xfixesSelectionNotify _ cause => cause = none
  | _ => True

structure Attributed : Prop where
  clock : s.server.lastChange ≤ s.server.now
  emitted : ∀ e ∈ s.emitted, e.event.matchesOurWrite = e.cause
  told : ∀ event ∈ s.events, s.Told event
  pending : ∀ content, s.Pending content → s.Stands content

end

variable {s s' : X11 ι} {content : OwnedContent} {event : Event}

/-- What waits for the server once a call has got somewhere is what its place is about, or has
waited before. -/
lemma pending_setCall_cases [DecidableEq ι] {i : ι} {call : Call}
    (h : (s.setCall i call).Pending content) :
    call.unsent = some (some content) ∨ s.Pending content := by
  cases h with
  | inl h =>
    obtain ⟨j, hj⟩ := h
    by_cases hji : j = i
    · rw [hji, unsent_setCall_self] at hj
      exact .inl hj
    · rw [unsent_setCall_of_ne hji] at hj
      exact .inr (.inl ⟨j, hj⟩)
  | inr h => exact .inr (.inr h)

lemma pending_setCall [DecidableEq ι] {i : ι} {call : Call} (hcall : call.unsent = s.unsent i)
    (h : (s.setCall i call).Pending content) : s.Pending content := by
  unfold Pending at h
  rwa [unsent_setCall hcall] at h

lemma pending_send {request : Request} (h : (s.send request).Pending content) :
    request.change = some (some content) ∨ s.Pending content := by
  cases h with
  | inl h => exact .inr (.inl h)
  | inr h =>
    rw [changes_send, List.mem_append, Option.mem_toList] at h
    exact h.symm.imp id .inr

lemma Told.of_not_ours (h : s.Told event) (hne : ∀ cause, event ≠ .xfixesSelectionNotify .ourWindow cause) :
    s'.Told event := by
  cases event with
  | xfixesSelectionNotify owner cause =>
    cases owner with
    | ourWindow => exact absurd rfl (hne cause)
    | none => exact h
    | other window => exact h
  | _ => trivial

lemma Told.congr (h : s.Told event) (howned : s'.inner.owned = s.inner.owned) : s'.Told event := by
  unfold Told
  rw [howned]
  exact h

/-- An event about a change of the owner by somebody else. -/
lemma told_setSelectionOwner_none {server : Server} {owner : Owner} (howner : owner ≠ .ourWindow)
    (time : Nat) : ∀ event ∈ (server.setSelectionOwner owner time none).2, s.Told event := by
  intro event h
  by_cases hr : server.Refuses time
  · rw [Server.setSelectionOwner_refused hr] at h
    cases h
  · rw [Server.setSelectionOwner_effective hr, List.mem_append, List.mem_singleton] at h
    cases h with
    | inl h =>
      split at h
      · rw [List.mem_singleton.mp h]
        trivial
      · cases h
    | inr h =>
      subst h
      cases owner with
      | ourWindow => exact absurd rfl howner
      | none => rfl
      | other window => rfl

namespace Attributed

/-- A step that leaves the content alone. -/
lemma of_same (hs : s.Attributed) (howned : s'.inner.owned = s.inner.owned)
    (hclock : s'.server.lastChange ≤ s'.server.now)
    (hlast : s.server.lastChange ≤ s'.server.lastChange) (hemitted : s'.emitted = s.emitted)
    (hevents : ∀ event ∈ s'.events, event ∈ s.events ∨ s'.Told event)
    (hpending : ∀ content, s'.Pending content → s.Pending content) : s'.Attributed where
  clock := hclock
  emitted := by
    rw [hemitted]
    exact hs.emitted
  told event h := (hevents event h).elim (fun h => (hs.told event h).congr howned) id
  pending content h := (hs.pending content (hpending content h)).mono howned hlast

/-- The content is changed when no write waits for its event. -/
lemma changed (hs : s.Attributed) (hawaited : ¬s.Awaited) (hserver : s'.server = s.server)
    (hemitted : s'.emitted = s.emitted) (hevents : ∀ event ∈ s'.events, event ∈ s.events)
    (hpending : ∀ content, s'.Pending content → s'.inner.owned = some content ∨ s.Pending content) :
    s'.Attributed where
  clock := by
    rw [hserver]
    exact hs.clock
  emitted := by
    rw [hemitted]
    exact hs.emitted
  told event h := by
    refine (hs.told event (hevents event h)).of_not_ours ?_
    rintro cause rfl
    exact hawaited (.inl ⟨cause, hevents _ h⟩)
  pending content h := by
    refine (hpending content h).imp id fun h => ?_
    unfold Outdated
    rw [hserver]
    exact not_not.mp fun hc => hawaited (.inr ⟨content, h, hc⟩)

lemma serve (hs : s.Attributed) {request : Request} (hhead : s.requests.head? = some request) :
    Attributed { s.reply (s.server.serve request) with requests := s.requests.tail } := by
  obtain ⟨rest, hrequests⟩ := List.head?_eq_some_iff.mp hhead
  rw [hrequests, List.tail_cons]
  have hpending : ∀ c, (∃ i, s.unsent i = some (some c)) ∨ some c ∈ rest.filterMap Request.change →
      s.Pending c := by
    refine fun c h => h.imp id fun h => ?_
    rw [changes, hrequests, List.mem_filterMap]
    obtain ⟨r, hr, hc⟩ := List.mem_filterMap.mp h
    exact ⟨r, List.mem_cons_of_mem _ hr, hc⟩
  cases request with
  | appendTimestampProperty =>
    refine hs.of_same rfl hs.clock le_rfl rfl (fun event h => ?_) hpending
    exact (List.mem_append.mp h).imp id fun h => by rw [List.mem_singleton.mp h]; trivial
  | setSelectionOwner content =>
    refine hs.of_same rfl (Server.clock_setSelectionOwner hs.clock)
      Server.lastChange_setSelectionOwner rfl (fun event h => ?_) hpending
    refine (List.mem_append.mp h).imp id fun h => ?_
    by_cases hr : s.server.Refuses content.acquiredAt
    · rw [Server.serve, Server.setSelectionOwner_refused hr] at h
      cases h
    · rw [Server.serve, Server.setSelectionOwner_effective hr] at h
      simp only [ne_eq, not_true_eq_false, and_false, if_false, List.nil_append,
        List.mem_singleton] at h
      subst h
      have hc : s.Pending content := by
        refine .inr ?_
        rw [changes, hrequests]
        exact List.mem_cons_self
      exact ⟨content, (hs.pending content hc).resolve_right fun h => hr (.inl h), rfl⟩
  | setSelectionOwnerNone =>
    refine hs.of_same rfl (Server.clock_setSelectionOwner hs.clock)
      Server.lastChange_setSelectionOwner rfl (fun event h => ?_) hpending
    exact (List.mem_append.mp h).imp id
      (told_setSelectionOwner_none (by decide) s.server.now event)

/-- The handler finds the token of the write that an event is about. -/
lemma emit (hs : s.Attributed) {owner : Owner} {cause : Option WriteToken}
    (hhead : s.events.head? = some (.xfixesSelectionNotify owner cause)) (cc : Nat) :
    Attributed { s with events := s.events.tail, counted := none,
                        emitted := s.emitted ++ [⟨s.inner.selectionEvent owner cc, cause⟩] } where
  clock := hs.clock
  emitted e h := by
    cases List.mem_append.mp h with
    | inl h => exact hs.emitted e h
    | inr h =>
      rw [List.mem_singleton.mp h]
      have htold := hs.told _ (List.mem_of_mem_head? hhead)
      unfold X11Inner.selectionEvent
      cases owner with
      | ourWindow =>
        obtain ⟨content, howned, rfl⟩ := htold
        rw [howned]
        rfl
      | none => exact htold.symm
      | other window => exact htold.symm
  told event h := hs.told event (List.mem_of_mem_tail h)
  pending := hs.pending

/-- A step of a call or of the event thread that is not about the content. -/
lemma aside (hs : s.Attributed) (hserver : s'.server = s.server)
    (howned : s'.inner.owned = s.inner.owned) (hemitted : s'.emitted = s.emitted)
    (hevents : ∀ event ∈ s'.events, event ∈ s.events)
    (hpending : ∀ content, s'.Pending content → s.Pending content) : s'.Attributed := by
  apply hs.of_same howned _ _ hemitted (fun event h => .inl (hevents event h)) hpending
  · rw [hserver]
    exact hs.clock
  · rw [hserver]

lemma next [DecidableEq ι] (hs : s.Attributed) {a : Act ι} (he : s.Enabled a)
    (hpatient : s.Patient a) : (s.next a).Attributed := by
  cases a with
  | takeSlot i text =>
    exact hs.aside rfl rfl rfl (fun _ h => h) fun _ => pending_setCall (unsent_of_calls he.1).symm
  | fetch i text =>
    refine hs.aside rfl rfl rfl (fun _ h => h) fun content h => ?_
    have hsend := (pending_setCall_cases h).resolve_left fun h => by cases h
    exact (pending_send hsend).resolve_left fun h => by cases h
  | wake i text time =>
    exact hs.aside rfl rfl rfl (fun _ h => h) fun _ => pending_setCall (unsent_of_calls he.1).symm
  | timeOut i text =>
    exact hs.aside rfl rfl rfl (fun _ h => h) fun _ => pending_setCall (unsent_of_calls he.1).symm
  | mint i text time =>
    exact hs.aside rfl rfl rfl (fun _ h => h) fun _ => pending_setCall (unsent_of_calls he).symm
  | store i content =>
    refine hs.changed hpatient rfl rfl (fun _ h => h) fun content' h => ?_
    exact (pending_setCall_cases h).imp Option.some.inj id
  | setOwner i content =>
    refine hs.aside rfl rfl rfl (fun _ h => h) fun content' h => ?_
    have hsend := (pending_setCall_cases h).resolve_left fun h => by cases h
    refine (pending_send hsend).elim (fun hc => .inl ⟨i, ?_⟩) id
    exact (unsent_of_calls he).trans hc
  | drop i =>
    refine hs.changed hpatient rfl rfl (fun _ h => h) fun content' h => ?_
    exact (pending_setCall_cases h).imp (fun h => by cases h) id
  | release i =>
    refine hs.aside rfl rfl rfl (fun _ h => h) fun content' h => ?_
    have hsend := (pending_setCall_cases h).resolve_left fun h => by cases h
    exact (pending_send hsend).resolve_left fun h => by cases h
  | bump i =>
    exact hs.aside rfl rfl rfl (fun _ h => h) fun _ => pending_setCall (unsent_of_calls he).symm
  | serve request => exact hs.serve he
  | «foreign» owner time =>
    exact hs.of_same rfl (Server.clock_setSelectionOwner hs.clock)
      Server.lastChange_setSelectionOwner rfl
      (fun event h => (List.mem_append.mp h).imp id (told_setSelectionOwner_none he time event))
      fun _ h => h
  | ownerGone =>
    refine hs.of_same rfl hs.clock le_rfl rfl (fun event h => ?_) fun _ h => h
    exact (List.mem_append.mp h).imp id fun h => by rw [List.mem_singleton.mp h]; rfl
  | tick later =>
    exact hs.of_same rfl (Nat.le_add_right_of_le hs.clock) le_rfl rfl (fun _ h => .inl h)
      fun _ h => h
  | fillSlot time =>
    exact hs.aside rfl (X11Inner.owned_handleTimestampNotify _ _) rfl
      (fun _ h => List.mem_of_mem_tail h) fun _ h => h
  | selectionClear =>
    exact hs.changed hpatient rfl rfl (fun _ h => List.mem_of_mem_tail h) fun _ h => .inr h
  | count owner cause => exact hs.aside rfl rfl rfl (fun _ h => h) fun _ h => h
  | emit owner cause cc => exact hs.emit he.1 cc

end Attributed

lemma Initial.attributed (h : s.Initial) : s.Attributed where
  clock := h.clock
  emitted := by
    rw [h.emitted]
    exact fun e he => by cases he
  told := by
    rw [h.events]
    exact fun e he => by cases he
  pending content hp := by
    cases hp with
    | inl hp =>
      obtain ⟨i, hi⟩ := hp
      rw [unsent_of_calls (h.calls i)] at hi
      cases hi
    | inr hp =>
      rw [changes, h.requests] at hp
      cases hp

/-- In every run that lets each write have its event before it touches the content again, every
event has the token of the write that has caused it, and no other has a token. -/
theorem events_attributed [DecidableEq ι] {s₀ s : X11 ι} (h₀ : s₀.Initial)
    (hrun : ReflTransGen (Step Patient) s₀ s) :
    ∀ e ∈ s.emitted, ∀ t, e.event.matchesOurWrite = some t ↔ e.cause = some t := by
  have hs : s.Attributed := by
    induction hrun with
    | refl => exact h₀.attributed
    | tail _ hstep ih =>
      obtain ⟨a, he, hpatient, rfl⟩ := hstep
      exact ih.next he hpatient
  intro e he t
  rw [hs.emitted e he]

/-- The event about the first write. -/
def firstEmission : Emission := ⟨⟨1, some ⟨1⟩⟩, some ⟨1⟩⟩

theorem events_attributed_written :
    firstEmission ∈ (writtenOnce.foldl (fun s a => s.next a) fresh).emitted ∧
      (firstEmission.event.matchesOurWrite = some ⟨1⟩ ↔ firstEmission.cause = some ⟨1⟩) := by
  have hrun : fresh.Runs Patient writtenOnce := by
    refine ⟨by decide, trivial, by decide, trivial, by decide, trivial, by decide, trivial,
      by decide, trivial, by decide, trivial, by decide, ?_, by decide, trivial, by decide, trivial,
      by decide, trivial, by decide, trivial, trivial⟩
    rintro (⟨cause, h⟩ | ⟨content, ⟨i, h⟩ | h, -⟩)
    · cases h
    · cases h
    · cases h
  have hmem : firstEmission ∈ (writtenOnce.foldl (fun s a => s.next a) fresh).emitted :=
    List.mem_singleton.mpr rfl
  exact ⟨hmem, events_attributed initial_fresh hrun.reaches firstEmission hmem ⟨1⟩⟩

/-- A clear behind a write, while the event about the write is still on its way. -/
def writtenThenCleared : List (Act Unit) :=
  fetching firstContent ++ owning firstContent ++
    [.serve (.setSelectionOwner firstContent), .drop ()] ++ handling .ourWindow (some ⟨1⟩) 1

theorem event_misses_write : ∃ s₀ s : X11 Unit, s₀.Initial ∧
    ReflTransGen (Step fun _ _ => True) s₀ s ∧ s.emitted = [⟨⟨1, none⟩, some ⟨1⟩⟩] := by
  have hrun : fresh.Runs (fun _ _ => True) writtenThenCleared := by decide +kernel
  exact ⟨fresh, _, initial_fresh, hrun.reaches, rfl⟩

end X11

end Invisibool.Clipboard
