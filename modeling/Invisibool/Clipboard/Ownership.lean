import Invisibool.Clipboard.Tokens
import Mathlib.Data.Fintype.Basic

/-!
# What we serve while we own the selection

The owner is kept on the server and the content in the backend. They agree, once nothing is under
way, if our calls change the content in the order in which they ask for the selection, and no late
`SelectionClear` wipes a content that has come after it.
-/

namespace Invisibool.Clipboard
open Text Relation

/-- What a call has made of the content without having told the server yet: a new content, or
none. -/
def Call.unsent : Call → Option (Option OwnedContent)
  | .stored content => some (some content)
  | .dropped => some none
  | _ => none

namespace X11

variable {ι : Type}

section

variable (s : X11 ι)

def unsent (i : ι) : Option (Option OwnedContent) := (s.calls i).unsent

/-- The server refuses the content by now. -/
def Outdated (content : OwnedContent) : Prop := content.acquiredAt < s.server.lastChange

instance (content : OwnedContent) : Decidable (s.Outdated content) := by
  unfold Outdated
  infer_instance

/-- No call is between its change of the content and its request to the server. -/
def AllSent : Prop := ∀ i, s.unsent i = none

/-- No request and no event is on its way. -/
structure Quiet : Prop where
  requests : s.requests = []
  events : s.events = []

/-- The content of the last of our calls is in effect, or is to come into effect. -/
def Live : Prop :=
  (∃ i, ∃ content ∈ (s.unsent i).join, ¬s.Outdated content) ∨
    s.AllSent ∧ ((∃ content ∈ s.changes.getLast?.join, ¬s.Outdated content) ∨
      s.changes = [] ∧ s.server.owner = .ourWindow)

/-- A call changes the content only when every other call has told the server. The last of our
requests is not refused while we own the selection, and no `SelectionClear` is handled while the
content is live. -/
def Careful : Act ι → Prop
  | .store _ _ => s.AllSent
  | .drop _ => s.AllSent
  | .serve (.setSelectionOwner content) => s.AllSent → s.changes = [some content] →
      s.server.Refuses content.acquiredAt → s.server.owner ≠ .ourWindow
  | .selectionClear => ¬s.Live
  | _ => True

/-- The content is stored, unless the server will refuse it. -/
def Stands (content : OwnedContent) : Prop :=
  s.inner.owned = some content ∨ s.Outdated content

/-- What there is of the last of our calls is its content, wherever it has got. -/
structure Sound : Prop where
  clock : s.server.lastChange ≤ s.server.now
  one : ∀ i j, s.unsent i ≠ none → s.unsent j ≠ none → i = j
  unsent : ∀ i content, s.unsent i = some (some content) → s.Stands content
  kept : ∀ i owned, s.unsent i = some owned → s.inner.owned = owned ∨ s.inner.owned = none
  queued : s.AllSent → ∀ content, s.changes.getLast? = some (some content) → s.Stands content
  settled : s.AllSent → s.changes = [] → s.server.owner = .ourWindow →
    ∃ content, s.server.effective = some content ∧ s.inner.owned = some content

end

variable {s s' : X11 ι} {content : OwnedContent}

lemma Stands.mono (h : s.Stands content) (howned : s'.inner.owned = s.inner.owned)
    (hlast : s.server.lastChange ≤ s'.server.lastChange) : s'.Stands content := by
  cases h with
  | inl h => exact .inl (howned.trans h)
  | inr h => exact .inr (Nat.lt_of_lt_of_le h hlast)

lemma unsent_setCall_self [DecidableEq ι] (i : ι) (call : Call) :
    (s.setCall i call).unsent i = call.unsent := congrArg Call.unsent (calls_setCall_self i call)

lemma unsent_setCall_of_ne [DecidableEq ι] {i j : ι} {call : Call} (h : j ≠ i) :
    (s.setCall i call).unsent j = s.unsent j := congrArg Call.unsent (calls_setCall_of_ne h call)

lemma unsent_setCall [DecidableEq ι] {i : ι} {call : Call} (h : call.unsent = s.unsent i) :
    (s.setCall i call).unsent = s.unsent := by
  funext j
  by_cases hji : j = i
  · rw [hji, unsent_setCall_self, h]
  · exact unsent_setCall_of_ne hji

lemma unsent_of_calls {i : ι} {call : Call} (h : s.calls i = call) : s.unsent i = call.unsent :=
  congrArg Call.unsent h

namespace Sound

/-- A step that leaves the content, the calls and the requests about it alone keeps what is known,
if it leaves the owner alone or makes it another than us. -/
lemma of_same (hs : s.Sound) (hunsent : s'.unsent = s.unsent) (hchanges : s'.changes = s.changes)
    (howned : s'.inner.owned = s.inner.owned) (hclock : s'.server.lastChange ≤ s'.server.now)
    (hlast : s.server.lastChange ≤ s'.server.lastChange)
    (howner : s'.server.owner = .ourWindow →
      s.server.owner = .ourWindow ∧ s'.server.effective = s.server.effective) : s'.Sound where
  clock := hclock
  one := by
    rw [hunsent]
    exact hs.one
  unsent i content h := by
    rw [hunsent] at h
    exact (hs.unsent i content h).mono howned hlast
  kept := by
    rw [hunsent, howned]
    exact hs.kept
  queued hall content h := by
    unfold AllSent at hall
    rw [hunsent] at hall
    rw [hchanges] at h
    exact (hs.queued hall content h).mono howned hlast
  settled hall hnil hour := by
    unfold AllSent at hall
    rw [hunsent] at hall
    rw [hchanges] at hnil
    obtain ⟨hour', heffective⟩ := howner hour
    rw [heffective, howned]
    exact hs.settled hall hnil hour'

/-- A step of a call or of the event thread that is not about the content. -/
lemma aside (hs : s.Sound) (hunsent : s'.unsent = s.unsent) (hchanges : s'.changes = s.changes)
    (howned : s'.inner.owned = s.inner.owned) (hserver : s'.server = s.server) : s'.Sound := by
  apply hs.of_same hunsent hchanges howned
  · rw [hserver]
    exact hs.clock
  · rw [hserver]
  · rw [hserver]
    exact fun hour => ⟨hour, rfl⟩

/-- A call has changed the content, and no other was on its way to the server. -/
lemma changed [DecidableEq ι] (hs : s.Sound) {i : ι} {owned : Option OwnedContent} {call : Call}
    (hall : s.AllSent) (hcall : call.unsent = some owned) :
    ((s.withInner { s.inner with owned := owned }).setCall i call).Sound where
  clock := hs.clock
  one j k hj hk := by
    have hi : ∀ j, ((s.withInner { s.inner with owned := owned }).setCall i call).unsent j ≠ none →
        j = i := by
      intro j hj
      by_contra hne
      rw [unsent_setCall_of_ne hne] at hj
      exact hj (hall j)
    rw [hi j hj, hi k hk]
  unsent j content hj := by
    by_cases hji : j = i
    · rw [hji, unsent_setCall_self, hcall] at hj
      exact .inl (Option.some.inj hj)
    · rw [unsent_setCall_of_ne hji] at hj
      cases (hall j).symm.trans hj
  kept j owned' hj := by
    by_cases hji : j = i
    · rw [hji, unsent_setCall_self, hcall] at hj
      exact .inl (Option.some.inj hj)
    · rw [unsent_setCall_of_ne hji] at hj
      cases (hall j).symm.trans hj
  queued hall' := by
    have hi := hall' i
    rw [unsent_setCall_self, hcall] at hi
    cases hi
  settled hall' := by
    have hi := hall' i
    rw [unsent_setCall_self, hcall] at hi
    cases hi

/-- The call that has changed the content sends its request. -/
lemma sent [DecidableEq ι] (hs : s.Sound) {i : ι} {owned : Option OwnedContent} {call : Call}
    {request : Request} (hi : s.unsent i = some owned) (hcall : call.unsent = none)
    (hchanges : (s.send request).changes = s.changes ++ [owned]) :
    ((s.send request).setCall i call).Sound where
  clock := hs.clock
  one j k hj hk := by
    have hback : ∀ j, ((s.send request).setCall i call).unsent j ≠ none → s.unsent j ≠ none := by
      intro j hj
      by_cases hji : j = i
      · rw [hji, unsent_setCall_self] at hj
        exact absurd hcall hj
      · rwa [unsent_setCall_of_ne hji] at hj
    exact hs.one j k (hback j hj) (hback k hk)
  unsent j content hj := by
    by_cases hji : j = i
    · rw [hji, unsent_setCall_self, hcall] at hj
      cases hj
    · rw [unsent_setCall_of_ne hji] at hj
      exact hs.unsent j content hj
  kept j owned' hj := by
    by_cases hji : j = i
    · rw [hji, unsent_setCall_self, hcall] at hj
      cases hj
    · rw [unsent_setCall_of_ne hji] at hj
      exact hs.kept j owned' hj
  queued hall content hlast := by
    change (s.send request).changes.getLast? = _ at hlast
    rw [hchanges, List.getLast?_concat, Option.some.injEq] at hlast
    subst hlast
    exact hs.unsent i content hi
  settled hall hnil := by
    cases List.append_ne_nil_of_right_ne_nil _ (List.cons_ne_nil _ _) (hchanges.symm.trans hnil)

/-- The server has set the owner to another window than ours, or has refused to. -/
lemma foreign (hs : s.Sound) {owner : Owner} (howner : owner ≠ .ourWindow) (time : Nat) :
    (s.reply (s.server.setSelectionOwner owner time none)).Sound := by
  refine hs.of_same rfl rfl rfl (Server.clock_setSelectionOwner hs.clock)
    Server.lastChange_setSelectionOwner ?_
  by_cases hr : s.server.Refuses time
  · simp only [reply, Server.setSelectionOwner_refused hr]
    exact fun hour => ⟨hour, trivial⟩
  · simp only [reply, Server.setSelectionOwner_effective hr]
    exact fun hour => absurd hour howner

/-- The server has set the owner to our window, or has refused to. -/
lemma serveOwner (hs : s.Sound) {rest : List Request}
    (hrequests : s.requests = .setSelectionOwner content :: rest)
    (hcareful : s.Careful (.serve (.setSelectionOwner content))) :
    Sound { s.reply (s.server.serve (.setSelectionOwner content)) with requests := rest } where
  clock := Server.clock_setSelectionOwner hs.clock
  one := hs.one
  unsent i c h := (hs.unsent i c h).mono rfl Server.lastChange_setSelectionOwner
  kept := hs.kept
  queued hall c hlast := by
    have hchanges : s.changes = some content :: rest.filterMap Request.change := by
      rw [changes, hrequests]
      rfl
    refine (hs.queued hall c ?_).mono rfl Server.lastChange_setSelectionOwner
    rw [hchanges, List.getLast?_cons, show (rest.filterMap Request.change).getLast? = _ from hlast]
    rfl
  settled hall hnil hour := by
    have hchanges : s.changes = [some content] := by
      rw [changes, hrequests]
      exact congrArg (some content :: ·) hnil
    by_cases hr : s.server.Refuses content.acquiredAt
    · simp only [reply, Server.serve, Server.setSelectionOwner_refused hr] at hour
      exact absurd hour (hcareful hall hchanges hr)
    · have hstands : s.Stands content := hs.queued hall content (by rw [hchanges]; rfl)
      have howned := hstands.resolve_right fun h => hr (.inl h)
      simp only [reply, Server.serve, Server.setSelectionOwner_effective hr]
      exact ⟨content, rfl, howned⟩

lemma serveNone (hs : s.Sound) {rest : List Request}
    (hrequests : s.requests = .setSelectionOwnerNone :: rest) :
    Sound { s.reply (s.server.serve .setSelectionOwnerNone) with requests := rest } where
  clock := Server.clock_setSelectionOwner hs.clock
  one := hs.one
  unsent i c h := (hs.unsent i c h).mono rfl Server.lastChange_setSelectionOwner
  kept := hs.kept
  queued hall c hlast := by
    have hchanges : s.changes = none :: rest.filterMap Request.change := by
      rw [changes, hrequests]
      rfl
    refine (hs.queued hall c ?_).mono rfl Server.lastChange_setSelectionOwner
    rw [hchanges, List.getLast?_cons, show (rest.filterMap Request.change).getLast? = _ from hlast]
    rfl
  settled hall hnil hour := by
    simp only [reply, Server.serve,
      Server.setSelectionOwner_effective (Server.not_refuses_now hs.clock)] at hour
    cases hour

lemma serve (hs : s.Sound) {request : Request} (hhead : s.requests.head? = some request)
    (hcareful : s.Careful (.serve request)) :
    Sound { s.reply (s.server.serve request) with requests := s.requests.tail } := by
  obtain ⟨rest, hrequests⟩ := List.head?_eq_some_iff.mp hhead
  rw [hrequests, List.tail_cons]
  cases request with
  | appendTimestampProperty =>
    refine hs.of_same rfl ?_ rfl hs.clock le_rfl fun hour => ⟨hour, rfl⟩
    rw [changes, changes, hrequests]
    rfl
  | setSelectionOwner content => exact hs.serveOwner hrequests hcareful
  | setSelectionOwnerNone => exact hs.serveNone hrequests

/-- A `SelectionClear` takes nothing away that is live. -/
lemma wiped (hs : s.Sound) (hlive : ¬s.Live) :
    Sound { s.withInner s.inner.handleSelectionClear with events := s.events.tail } where
  clock := hs.clock
  one := hs.one
  unsent i c h := by
    refine .inr (not_not.mp fun hc => hlive (.inl ⟨i, c, ?_, hc⟩))
    rw [show s.unsent i = some (some c) from h]
    rfl
  kept _ _ _ := .inr rfl
  queued hall c h := by
    refine .inr (not_not.mp fun hc => hlive (.inr ⟨hall, .inl ⟨c, ?_, hc⟩⟩))
    rw [show s.changes.getLast? = some (some c) from h]
    rfl
  settled hall hnil hour := absurd (.inr ⟨hall, .inr ⟨hnil, hour⟩⟩) hlive

/-- One step keeps what is known. -/
lemma next [DecidableEq ι] (hs : s.Sound) {a : Act ι} (he : s.Enabled a) (hcareful : s.Careful a) :
    (s.next a).Sound := by
  cases a with
  | takeSlot i text => exact hs.aside (unsent_setCall (unsent_of_calls he.1).symm) rfl rfl rfl
  | fetch i text =>
    refine hs.aside (unsent_setCall ?_) ?_ rfl rfl
    · exact (unsent_of_calls he).symm
    · exact changes_send.trans (List.append_nil _)
  | wake i text time => exact hs.aside (unsent_setCall (unsent_of_calls he.1).symm) rfl rfl rfl
  | timeOut i text => exact hs.aside (unsent_setCall (unsent_of_calls he.1).symm) rfl rfl rfl
  | mint i text time => exact hs.aside (unsent_setCall (unsent_of_calls he).symm) rfl rfl rfl
  | store i content => exact hs.changed hcareful rfl
  | setOwner i content => exact hs.sent (unsent_of_calls he) rfl changes_send
  | drop i => exact hs.changed hcareful rfl
  | release i => exact hs.sent (unsent_of_calls he) rfl changes_send
  | bump i => exact hs.aside (unsent_setCall (unsent_of_calls he).symm) rfl rfl rfl
  | serve request => exact hs.serve he hcareful
  | «foreign» owner time => exact hs.foreign he time
  | ownerGone =>
    exact hs.of_same rfl rfl rfl hs.clock le_rfl fun hour => by cases hour
  | tick later =>
    exact hs.of_same rfl rfl rfl (Nat.le_add_right_of_le hs.clock) le_rfl fun hour => ⟨hour, rfl⟩
  | fillSlot time => exact hs.aside rfl rfl (X11Inner.owned_handleTimestampNotify _ _) rfl
  | selectionClear => exact hs.wiped hcareful
  | count owner cause => exact hs.aside rfl rfl rfl rfl
  | emit owner cause cc => exact hs.aside rfl rfl rfl rfl

end Sound

lemma Initial.sound (h : s.Initial) : s.Sound where
  clock := h.clock
  one i j hi := by
    rw [unsent_of_calls (h.calls i)] at hi
    exact absurd rfl hi
  unsent i content hi := by
    rw [unsent_of_calls (h.calls i)] at hi
    cases hi
  kept i owned hi := by
    rw [unsent_of_calls (h.calls i)] at hi
    cases hi
  queued _ content hlast := by
    rw [changes, h.requests] at hlast
    cases hlast
  settled _ _ hour := absurd hour h.owner

/-- A call that is about to tell the server has changed the content already. -/
lemma Sound.not_coherent (hs : s.Sound) (hm : s.Minted) (hall : ¬s.AllSent) :
    ¬∃ content, s.server.effective = some content ∧ s.inner.owned = some content := by
  rintro ⟨content, heffective, howned⟩
  apply hall
  intro i
  cases hcall : s.calls i with
  | stored content' =>
    have hunsent : s.unsent i = some (some content') := unsent_of_calls hcall
    cases hs.kept i _ hunsent with
    | inl h =>
      obtain rfl := Option.some.inj (howned.symm.trans h)
      exact absurd rfl (hm.unsent i content content (by rw [hcall]; rfl) (.inr heffective))
    | inr h => cases howned.symm.trans h
  | dropped =>
    have hunsent : s.unsent i = some none := unsent_of_calls hcall
    cases hs.kept i _ hunsent with
    | inl h => cases howned.symm.trans h
    | inr h => cases howned.symm.trans h
  | _ => exact unsent_of_calls hcall

/-- In every run of careful steps, while we own the selection and nothing is under way, we have the
content of the last of our writes that took effect, unless a call is about to tell the server of
another one. -/
theorem owned_coherent_iff [DecidableEq ι] {s₀ s : X11 ι} (h₀ : s₀.Initial)
    (hrun : ReflTransGen (Step Careful) s₀ s) (hquiet : s.Quiet)
    (hour : s.server.owner = .ourWindow) :
    (∃ content, s.server.effective = some content ∧ s.inner.owned = some content) ↔
      s.AllSent := by
  have hs : s.Sound := by
    clear hquiet hour
    induction hrun with
    | refl => exact h₀.sound
    | tail _ hstep ih =>
      obtain ⟨a, he, hcareful, rfl⟩ := hstep
      exact ih.next he hcareful
  have hm : s.Minted := minted_of_run h₀.minted hrun
  have hnil : s.changes = [] := by
    rw [changes, hquiet.requests]
    rfl
  constructor
  · intro hcoherent
    by_contra hall
    exact hs.not_coherent hm hall hcoherent
  · exact fun hall => hs.settled hall hnil hour

instance {s : X11 Unit} : Decidable s.AllSent := by
  unfold AllSent
  infer_instance

instance {s : X11 Unit} : Decidable s.Live := by
  unfold Live
  infer_instance

instance (s : X11 Unit) (a : Act Unit) : Decidable (s.Careful a) := by
  unfold Careful
  split <;> infer_instance

def firstContent : OwnedContent := ⟨"a".toList, ⟨1⟩, 0⟩

def secondContent : OwnedContent := ⟨"b".toList, ⟨2⟩, 0⟩

/-- A text is written, and everything about it is handled. -/
def writtenOnce : List (Act Unit) :=
  fetching firstContent ++ owning firstContent ++
    [.serve (.setSelectionOwner firstContent)] ++ handling .ourWindow (some ⟨1⟩) 1

theorem owned_coherent_iff_written :
    (writtenOnce.foldl (fun s a => s.next a) fresh).inner.owned = some firstContent := by
  have hrun : fresh.Runs Careful writtenOnce := by decide +kernel
  obtain ⟨content, heffective, howned⟩ :=
    (owned_coherent_iff initial_fresh hrun.reaches ⟨rfl, rfl⟩ rfl).mpr fun _ => rfl
  obtain rfl : firstContent = content := Option.some.inj heffective
  exact howned

/-- Another client takes the selection while a second text waits to be written, and what the
server says about that is handled after the second write. -/
def writtenOverTakeover : List (Act Unit) :=
  writtenOnce ++ fetching secondContent ++ [.foreign (.other 7) 0] ++ owning secondContent ++
    [.serve (.setSelectionOwner secondContent), .selectionClear] ++
    handling (.other 7) none 2 ++ handling .ourWindow (some ⟨2⟩) 3

theorem owned_wiped_by_late_clear : ∃ s₀ s : X11 Unit, s₀.Initial ∧
    ReflTransGen (Step fun _ _ => True) s₀ s ∧ s.Quiet ∧ s.AllSent ∧
    s.server.owner = .ourWindow ∧ s.server.effective = some secondContent ∧
    s.inner.owned = none := by
  have hrun : fresh.Runs (fun _ _ => True) writtenOverTakeover := by decide +kernel
  exact ⟨fresh, _, initial_fresh, hrun.reaches, ⟨rfl, rfl⟩, fun _ => rfl, rfl, rfl, rfl⟩

end X11

end Invisibool.Clipboard
