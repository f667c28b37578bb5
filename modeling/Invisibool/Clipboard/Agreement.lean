import Invisibool.Clipboard.InMemory
import Invisibool.Clipboard.X11

/-!
# The two backends

What the X11 backend counts and emits when every event is handled before the next operation, next to
what the clipboard in memory does at once. They differ over a clear, which the X11 backend counts
twice, and over a text that is too long for it.
-/

namespace Invisibool.Clipboard
open Text Relation

namespace X11

variable {ι : Type}

section

variable [DecidableEq ι]

/-- No thread is in a call, and nothing is under way. -/
structure AtRest (s : X11 ι) : Prop where
  calls : ∀ i, s.calls i = .idle
  requests : s.requests = []
  events : s.events = []

/-- The step by which an operation begins. A write by another client is one that takes effect. -/
def Begins (s : X11 ι) : Operation → Act ι → Prop
  | .writeText text _, .takeSlot _ text' => text' = text
  | .clear, .drop _ => True
  | .externalWrite _, .foreign (.other _) time => ¬s.server.Refuses time
  | _, _ => False

/-- The other steps of an operation. No thread times out, as every event is delivered. -/
def GoesOn (_ : X11 ι) : Act ι → Prop
  | .takeSlot _ _ => False
  | .drop _ => False
  | .foreign _ _ => False
  | .ownerGone => False
  | .timeOut _ _ => False
  | _ => True

/-- An operation from beginning to end: `write_text` refuses a text that is too long, and any other
operation goes on until everything about it has been handled. -/
inductive Performs : Operation → X11 ι → X11 ι → Prop
  | refused {s text} (hints : PrivacyHints) : maxClipboardBytes < byteLen text →
      Performs (.writeText text hints) s s
  | run {s s' op} (a : Act ι) : s.Begins op a → s.Enabled a →
      ReflTransGen (Step GoesOn) (s.next a) s' → s'.AtRest → Performs op s s'

/-- Operations one after the other, with the count after each. -/
inductive PerformsAll : List Operation → X11 ι → List Nat → X11 ι → Prop
  | nil {s} : PerformsAll [] s [] s
  | cons {op ops s s' s'' counts} : Performs op s s' → PerformsAll ops s' counts s'' →
      PerformsAll (op :: ops) s (s'.inner.lastChangeCount :: counts) s''

end

/-! ### A write and a change by another client -/

/-- How far a write, or a change by another client, has got. -/
inductive Phase
  | slotTaken (text : Str)
  | asked (text : Str)
  | answered (text : Str) (time : Nat)
  | filled (text : Str) (time : Nat)
  | fetched (text : Str) (time : Nat)
  | minted (content : OwnedContent)
  | stored (content : OwnedContent)
  | requested (content : OwnedContent)
  | lost (owner : Owner)
  | noted (owner : Owner) (content : Option OwnedContent)
  | counted (owner : Owner) (content : Option OwnedContent)
  | done (content : Option OwnedContent)

namespace Phase

def call : Phase → Call
  | slotTaken text => .slotTaken text
  | asked text => .fetching text
  | answered text _ => .fetching text
  | filled text _ => .fetching text
  | fetched text time => .fetched text time
  | minted content => .minted content
  | stored content => .stored content
  | _ => .idle

def slot : Phase → Option (Option Nat)
  | slotTaken _ => some none
  | asked _ => some none
  | answered _ _ => some none
  | filled _ time => some (some time)
  | _ => none

def requests : Phase → List Request
  | asked _ => [.appendTimestampProperty]
  | requested content => [.setSelectionOwner content]
  | _ => []

def events : Phase → List Event
  | answered _ time => [.propertyNotify time]
  | lost owner => [.selectionClear, .xfixesSelectionNotify owner none]
  | noted owner content => [.xfixesSelectionNotify owner (content.map OwnedContent.token)]
  | counted owner content => [.xfixesSelectionNotify owner (content.map OwnedContent.token)]
  | _ => []

/-- How many tokens have been given. -/
def tokens : Phase → Nat
  | minted _ => 1
  | stored _ => 1
  | requested _ => 1
  | noted _ content => content.toList.length
  | counted _ content => content.toList.length
  | done content => content.toList.length
  | _ => 0

/-- How many changes have been counted. -/
def count : Phase → Nat
  | counted _ _ => 1
  | done _ => 1
  | _ => 0

def pendingCount (p : Phase) (cc : Nat) : Option Nat :=
  match p with
  | counted _ _ => some (cc + 1)
  | _ => none

def emitted (p : Phase) (cc : Nat) : List Emission :=
  match p with
  | done content => [⟨⟨cc + 1, content.map OwnedContent.token⟩, content.map OwnedContent.token⟩]
  | _ => []

/-- The time that a write will ask with. -/
def time : Phase → Option Nat
  | answered _ time => some time
  | filled _ time => some time
  | fetched _ time => some time
  | minted content => some content.acquiredAt
  | stored content => some content.acquiredAt
  | requested content => some content.acquiredAt
  | _ => none

/-- The content of the write, if the operation is one and has stored it. -/
def content : Phase → Option OwnedContent
  | stored content => some content
  | requested content => some content
  | noted _ content => content
  | counted _ content => content
  | _ => none

/-- The token that the event is to have is the right one. -/
def Marked (p : Phase) (token : Option WriteToken) (new : WriteToken) : Prop :=
  match p with
  | minted content => token = some new ∧ content.token = new
  | stored content => token = some new ∧ content.token = new
  | requested content => token = some new ∧ content.token = new
  | lost owner => token = none ∧ owner ≠ .ourWindow
  | noted owner content => content.map OwnedContent.token = token ∧
      (owner = .ourWindow ↔ content.isSome)
  | counted owner content => content.map OwnedContent.token = token ∧
      (owner = .ourWindow ↔ content.isSome)
  | done content => content.map OwnedContent.token = token
  | _ => token = some new

end Phase

section

variable [DecidableEq ι]

/-- The backend at some phase of an operation that was begun in `s`, by a thread if it is a
write. -/
def atPhase (s : X11 ι) (i : Option ι) (p : Phase) (owned : Option OwnedContent) (server : Server) :
    X11 ι where
  inner := ⟨owned, s.inner.nextToken + p.tokens, s.inner.lastChangeCount + p.count, p.slot⟩
  calls j := if i = some j then p.call else .idle
  requests := p.requests
  server := server
  events := p.events
  counted := p.pendingCount s.inner.lastChangeCount
  emitted := s.emitted ++ p.emitted s.inner.lastChangeCount

/-- What is known of the time, the content and the token at a phase. -/
structure Fits (s : X11 ι) (i : Option ι) (token : Option WriteToken) (p : Phase)
    (owned : Option OwnedContent) (server : Server) : Prop where
  calling : i = none → p.call = .idle
  clock : server.lastChange ≤ server.now
  time : ∀ t ∈ p.time, server.lastChange ≤ t ∧ t ≤ server.now
  owned : ∀ content ∈ p.content, owned = some content
  marked : p.Marked token ⟨s.inner.nextToken⟩

end

variable [DecidableEq ι] {s : X11 ι} {i : Option ι} {token : Option WriteToken} {p : Phase}
  {owned : Option OwnedContent} {server : Server}

/-- The thread that is in a call is the one of the operation. -/
lemma call_atPhase {j : ι} {call : Call} (h : (s.atPhase i p owned server).calls j = call)
    (hne : call ≠ .idle) : i = some j ∧ p.call = call := by
  unfold atPhase at h
  dsimp only at h
  by_cases hj : i = some j
  · rw [if_pos hj] at h
    exact ⟨hj, h⟩
  · rw [if_neg hj] at h
    exact absurd h.symm hne

/-- The thread of the operation has gone on to the next phase. -/
lemma eq_atPhase {s' : X11 ι} {j : ι} {call : Call} (hs : s' =
      { s.atPhase (some j) p owned server with calls := s'.calls })
    (hcalls : s'.calls = Function.update (fun k => if some j = some k then call else .idle) j p.call) :
    s' = s.atPhase (some j) p owned server := by
  have hupdate : Function.update (fun k => if some j = some k then call else .idle) j p.call =
      fun k => if some j = some k then p.call else .idle := by
    funext k
    by_cases hk : k = j
    · simp [hk]
    · have hjk : ¬some j = some k := fun h => hk (Option.some.inj h).symm
      rw [Function.update_of_ne hk, if_neg hjk, if_neg hjk]
  rw [hs, hcalls, hupdate]
  rfl

/-- The state is that of some phase of the operation. -/
def AtSome (s : X11 ι) (i : Option ι) (token : Option WriteToken) (s' : X11 ι) : Prop :=
  ∃ p owned server, s' = s.atPhase i p owned server ∧ Fits s i token p owned server

/-- The server answers the request for the time, or makes our window the owner. -/
lemma serve_atPhase (hfits : Fits s i token p owned server) {request : Request}
    (he : (s.atPhase i p owned server).Enabled (.serve request)) :
    AtSome s i token ((s.atPhase i p owned server).next (.serve request)) := by
  cases p with
  | asked text =>
    obtain rfl := Option.some.inj he
    refine ⟨.answered text server.now, owned, server, rfl, hfits.calling, hfits.clock, ?_, nofun,
      hfits.marked⟩
    exact fun t ht => by cases ht; exact ⟨hfits.clock, le_rfl⟩
  | requested content =>
    obtain rfl := Option.some.inj he
    have htime := hfits.time content.acquiredAt rfl
    have hr : ¬server.Refuses content.acquiredAt := by
      unfold Server.Refuses
      omega
    have hserve : server.serve (.setSelectionOwner content) =
        (⟨.ourWindow, content.acquiredAt, server.now, some content⟩,
          [.xfixesSelectionNotify .ourWindow (some content.token)]) := by
      rw [Server.serve, Server.setSelectionOwner_effective hr]
      simp
    refine ⟨.noted .ourWindow (some content), owned,
      ⟨.ourWindow, content.acquiredAt, server.now, some content⟩, ?_, fun _ => rfl, htime.2, nofun,
      hfits.owned, ?_, by simp⟩
    · have hnext : (s.atPhase i (.requested content) owned server).next
          (.serve (.setSelectionOwner content)) =
            { (s.atPhase i (.requested content) owned server).reply
                (server.serve (.setSelectionOwner content)) with requests := [] } := rfl
      rw [hnext, hserve]
      rfl
    · rw [hfits.marked.1, Option.map_some, hfits.marked.2]
  | _ => cases he

/-- The event names the token of the content, if there is one. -/
lemma emit_atPhase (hfits : Fits s i token p owned server) {owner : Owner}
    {cause : Option WriteToken} {cc : Nat}
    (he : (s.atPhase i p owned server).Enabled (.emit owner cause cc)) :
    AtSome s i token ((s.atPhase i p owned server).next (.emit owner cause cc)) := by
  cases p with
  | noted owner' content => cases he.2
  | counted owner' content =>
    obtain ⟨rfl, rfl⟩ := Event.xfixesSelectionNotify.inj (Option.some.inj he.1)
    obtain rfl := Option.some.inj he.2
    have hevent : (s.atPhase i (.counted owner' content) owned server).inner.selectionEvent owner'
        (s.inner.lastChangeCount + 1) =
          ⟨s.inner.lastChangeCount + 1, content.map OwnedContent.token⟩ := by
      unfold X11Inner.selectionEvent
      cases content with
      | none => rw [if_neg fun h => by simpa using hfits.marked.2.mp h, Option.map_none]
      | some content =>
        rw [if_pos (hfits.marked.2.mpr rfl), ← hfits.owned content rfl]
        rfl
    refine ⟨.done content, owned, server, ?_, hfits.calling, hfits.clock, nofun, nofun,
      hfits.marked.1⟩
    change ({ s.atPhase i (.counted owner' content) owned server with
      events := [], counted := none,
      emitted := s.emitted ++ [] ++ [⟨X11Inner.selectionEvent _ owner' _, _⟩] } : X11 ι) = _
    rw [hevent, List.append_nil]
    rfl
  | _ => cases he.1

/-- Every step leads to the next phase, or is one of the clock. -/
lemma next_atPhase (hfits : Fits s i token p owned server) {a : Act ι}
    (he : (s.atPhase i p owned server).Enabled a)
    (ha : GoesOn (s.atPhase i p owned server) a) :
    AtSome s i token ((s.atPhase i p owned server).next a) := by
  cases a with
  | takeSlot j text => exact ha.elim
  | fetch j text =>
    obtain ⟨rfl, hp⟩ := call_atPhase he (by simp)
    cases p with
    | slotTaken text' =>
      obtain rfl := Call.slotTaken.inj hp
      exact ⟨.asked text', owned, server, eq_atPhase rfl rfl, nofun,
        hfits.clock, nofun, nofun, hfits.marked⟩
    | _ => cases hp
  | wake j text time =>
    obtain ⟨rfl, hp⟩ := call_atPhase he.1 (by simp)
    cases p with
    | filled text' time' =>
      obtain rfl := Call.fetching.inj hp
      obtain rfl := Option.some.inj (Option.some.inj he.2)
      exact ⟨.fetched text' time', owned, server, eq_atPhase rfl rfl, nofun,
        hfits.clock, hfits.time, nofun, hfits.marked⟩
    | asked text' => cases he.2
    | answered text' time' => cases he.2
    | _ => cases hp
  | timeOut j text => exact ha.elim
  | mint j text time =>
    obtain ⟨rfl, hp⟩ := call_atPhase he (by simp)
    cases p with
    | fetched text' time' =>
      obtain ⟨rfl, rfl⟩ := Call.fetched.inj hp
      exact ⟨.minted ⟨text', ⟨s.inner.nextToken⟩, time'⟩, owned, server, eq_atPhase rfl rfl, nofun,
        hfits.clock, hfits.time, nofun, hfits.marked, rfl⟩
    | _ => cases hp
  | store j content =>
    obtain ⟨rfl, hp⟩ := call_atPhase he (by simp)
    cases p with
    | minted content' =>
      obtain rfl := Call.minted.inj hp
      refine ⟨.stored content', some content', server, eq_atPhase rfl rfl, nofun,
        hfits.clock, hfits.time, ?_, hfits.marked⟩
      exact fun c hc => hc
    | _ => cases hp
  | setOwner j content =>
    obtain ⟨rfl, hp⟩ := call_atPhase he (by simp)
    cases p with
    | stored content' =>
      obtain rfl := Call.stored.inj hp
      exact ⟨.requested content', owned, server, eq_atPhase rfl rfl, nofun,
        hfits.clock, hfits.time, hfits.owned, hfits.marked⟩
    | _ => cases hp
  | drop j => exact ha.elim
  | release j =>
    obtain ⟨rfl, hp⟩ := call_atPhase he (by simp)
    cases p <;> cases hp
  | bump j =>
    obtain ⟨rfl, hp⟩ := call_atPhase he (by simp)
    cases p <;> cases hp
  | serve request => exact serve_atPhase hfits he
  | «foreign» owner time => exact ha.elim
  | ownerGone => exact ha.elim
  | tick later =>
    refine ⟨p, owned, { server with now := server.now + later }, rfl, hfits.calling,
      Nat.le_add_right_of_le hfits.clock, fun t ht => ?_, hfits.owned, hfits.marked⟩
    exact ⟨(hfits.time t ht).1, Nat.le_add_right_of_le (hfits.time t ht).2⟩
  | fillSlot time =>
    cases p with
    | answered text time' =>
      obtain rfl := Event.propertyNotify.inj (Option.some.inj he)
      exact ⟨.filled text time', owned, server, rfl, hfits.calling, hfits.clock, hfits.time, nofun,
        hfits.marked⟩
    | _ => cases he
  | selectionClear =>
    cases p with
    | lost owner =>
      exact ⟨.noted owner none, none, server, rfl, hfits.calling, hfits.clock, nofun, nofun,
        hfits.marked.1.symm, by simpa using hfits.marked.2⟩
    | _ => cases he
  | count owner cause =>
    cases p with
    | noted owner' content =>
      exact ⟨.counted owner' content, owned, server, rfl, hfits.calling, hfits.clock, nofun,
        hfits.owned, hfits.marked⟩
    | counted owner' content => cases he.2
    | _ => cases he.1
  | emit owner cause cc => exact emit_atPhase hfits he

/-- A run from one phase ends at another. -/
lemma run_atPhase {s' : X11 ι} (hfits : Fits s i token p owned server)
    (hrun : ReflTransGen (Step GoesOn) (s.atPhase i p owned server) s') :
    AtSome s i token s' := by
  induction hrun with
  | refl => exact ⟨p, owned, server, rfl, hfits⟩
  | tail _ hstep ih =>
    obtain ⟨p', owned', server', rfl, hfits'⟩ := ih
    obtain ⟨a, he, ha, rfl⟩ := hstep
    exact next_atPhase hfits' he ha

/-- At rest an operation is done. -/
lemma done_of_atRest (hfits : Fits s i token p owned server)
    (hrest : (s.atPhase i p owned server).AtRest) : ∃ content, p = .done content := by
  have hcall : p.call = .idle := by
    cases i with
    | none => exact hfits.calling rfl
    | some j =>
      have h := hrest.calls j
      unfold atPhase at h
      dsimp only at h
      rwa [if_pos rfl] at h
  have hrequests : p.requests = [] := hrest.requests
  have hevents : p.events = [] := hrest.events
  cases p with
  | done content => exact ⟨content, rfl⟩
  | slotTaken text => cases hcall
  | asked text => cases hcall
  | answered text time => cases hcall
  | filled text time => cases hcall
  | fetched text time => cases hcall
  | minted content => cases hcall
  | stored content => cases hcall
  | requested content => cases hrequests
  | lost owner => cases hevents
  | noted owner content => cases hevents
  | counted owner content => cases hevents

/-! ### Between the operations -/

/-- The backend at rest, with the clipboard in memory in step with it. -/
structure InStep (s : X11 ι) (st : InMemory) : Prop where
  rest : s.AtRest
  clock : s.server.lastChange ≤ s.server.now
  slot : s.inner.pendingTimestamp = none
  counted : s.counted = none
  tokens : s.inner.nextToken = st.nextToken
  count : s.inner.lastChangeCount = st.changeCount

variable {s' : X11 ι} {st st' : InMemory}

/-- An operation that has begun is counted once, and has one event. -/
lemma InStep.finish (hin : s.InStep st) (hfits : Fits s i token p owned server)
    (hrun : ReflTransGen (Step GoesOn) (s.atPhase i p owned server) s') (hrest : s'.AtRest)
    (htokens : st'.nextToken = st.nextToken + token.toList.length)
    (hcount : st'.changeCount = st.changeCount + 1) :
    s'.InStep st' ∧ s'.emitted = s.emitted ++ [⟨⟨st'.changeCount, token⟩, token⟩] := by
  obtain ⟨p', owned', server', rfl, hfits'⟩ := run_atPhase hfits hrun
  obtain ⟨content, rfl⟩ := done_of_atRest hfits' hrest
  have hmarked : content.map OwnedContent.token = token := hfits'.marked
  subst hmarked
  have hlen : content.toList.length = (content.map OwnedContent.token).toList.length := by
    cases content <;> rfl
  refine ⟨⟨hrest, hfits'.clock, rfl, rfl, ?_, ?_⟩, ?_⟩
  · rw [htokens, ← hlen, ← hin.tokens]
    rfl
  · rw [hcount, ← hin.count]
    rfl
  · rw [hcount, ← hin.count]
    rfl

lemma InStep.start_write (hin : s.InStep st) (j : ι) (text : Str) :
    s.next (.takeSlot j text) = s.atPhase (some j) (.slotTaken text) s.inner.owned s.server := by
  have hcalls : s.calls = fun k => if some j = some k then Call.idle else .idle := by
    funext k
    rw [hin.rest.calls k, ite_self]
  apply eq_atPhase
  · apply X11.ext
    · rfl
    · rfl
    · exact hin.rest.requests
    · rfl
    · exact hin.rest.events
    · exact hin.counted
    · exact (List.append_nil _).symm
  · exact congrArg (Function.update · j (.slotTaken text)) hcalls

/-- At rest the backend is at a phase of its own. -/
lemma InStep.reply_eq (hin : s.InStep st) {events : List Event}
    (hslot : p.slot = none) (hrequests : p.requests = [])
    (hevents : p.events = events) (htokens : p.tokens = 0) (hcount : p.count = 0)
    (hpending : p.pendingCount s.inner.lastChangeCount = none)
    (hemitted : p.emitted s.inner.lastChangeCount = []) :
    s.reply (server, events) = s.atPhase none p s.inner.owned server := by
  apply X11.ext
  · change s.inner = ⟨_, _, _, _⟩
    rw [htokens, hcount, hslot, ← hin.slot]
    rfl
  · funext k
    exact hin.rest.calls k
  · exact hin.rest.requests.trans hrequests.symm
  · rfl
  · change s.events ++ events = p.events
    rw [hin.rest.events, hevents, List.nil_append]
  · exact hin.counted.trans hpending.symm
  · change s.emitted = s.emitted ++ _
    rw [hemitted, List.append_nil]

/-- A change by another client, which may take the selection from us. -/
lemma InStep.start_foreign (hin : s.InStep st) (window : Nat) {time : Nat}
    (hr : ¬s.server.Refuses time) :
    ∃ p server, s.next (.foreign (.other window) time) = s.atPhase none p s.inner.owned server ∧
      Fits s none none p s.inner.owned server := by
  have hnext : s.next (.foreign (.other window) time) =
      s.reply (s.server.setSelectionOwner (.other window) time none) := rfl
  have htime : time ≤ s.server.now := by
    unfold Server.Refuses at hr
    omega
  rw [hnext, Server.setSelectionOwner_effective hr]
  by_cases hour : s.server.owner = .ourWindow
  · refine ⟨.lost (.other window), _, hin.reply_eq rfl rfl ?_ rfl rfl rfl rfl, fun _ => rfl,
      htime, nofun, nofun, rfl, by simp⟩
    rw [if_pos ⟨hour, by simp⟩]
    rfl
  · refine ⟨.noted (.other window) none, _, hin.reply_eq rfl rfl ?_ rfl rfl rfl rfl,
      fun _ => rfl, htime, nofun, nofun, rfl, by simp⟩
    rw [if_neg fun h => hour h.1]
    rfl

lemma InStep.performs_write (hin : s.InStep st) {text : Str} {hints : PrivacyHints}
    (hlen : byteLen text ≤ maxClipboardBytes) (hop : Performs (.writeText text hints) s s') :
    s'.InStep (st.apply (.writeText text hints)).2 ∧
      s'.emitted.map Emission.event =
        s.emitted.map Emission.event ++ [(st.apply (.writeText text hints)).1] := by
  cases hop with
  | refused _ hlong => exact absurd hlen (Nat.not_le.mpr hlong)
  | run a hbegins he hrun hrest =>
    cases a with
    | takeSlot j text' =>
      rw [hin.start_write j text'] at hrun
      have hfits : Fits s (some j) (some ⟨st.nextToken⟩) (.slotTaken text') s.inner.owned
          s.server := by
        refine ⟨nofun, hin.clock, nofun, nofun, ?_⟩
        rw [hin.tokens]
        rfl
      have htokens : (st.apply (.writeText text hints)).2.nextToken =
          st.nextToken + (some (WriteToken.mk st.nextToken)).toList.length := rfl
      obtain ⟨hin', hemitted⟩ := hin.finish hfits hrun hrest htokens rfl
      refine ⟨hin', ?_⟩
      rw [hemitted, List.map_append]
      rfl
    | _ => exact hbegins.elim

lemma InStep.performs_external (hin : s.InStep st) {text : Str}
    (hop : Performs (.externalWrite text) s s') :
    s'.InStep (st.apply (.externalWrite text)).2 ∧
      s'.emitted.map Emission.event =
        s.emitted.map Emission.event ++ [(st.apply (.externalWrite text)).1] := by
  cases hop with
  | run a hbegins he hrun hrest =>
    cases a with
    | «foreign» owner time =>
      cases owner with
      | other window =>
        obtain ⟨p, server, hnext, hfits⟩ := hin.start_foreign window hbegins
        rw [hnext] at hrun
        have htokens : (st.apply (.externalWrite text)).2.nextToken =
            st.nextToken + (none : Option WriteToken).toList.length := rfl
        obtain ⟨hin', hemitted⟩ := hin.finish hfits hrun hrest htokens rfl
        refine ⟨hin', ?_⟩
        rw [hemitted, List.map_append]
        rfl
      | _ => exact hbegins.elim
    | _ => exact hbegins.elim

/-! ### A clear -/

/-- How many changes a clear is still to have counted, before its request is served. -/
def toCount : Call → Nat
  | .dropped => 2
  | .released => 1
  | _ => 0

def isNote : Event → Bool
  | .xfixesSelectionNotify _ _ => true
  | _ => false

/-- A clear that began at the count `cc`: it is counted by its own call, and once more when the
event about it is handled. -/
structure Clearing (s : X11 ι) (cc : Nat) (i : ι) : Prop where
  calls : s.calls i = .dropped ∨ s.calls i = .released ∨ s.calls i = .idle
  others : ∀ j, j ≠ i → s.calls j = .idle
  requests : ∀ request ∈ s.requests, request = .setSelectionOwnerNone
  clock : s.server.lastChange ≤ s.server.now
  head : s.counted ≠ none → ∃ owner cause,
    s.events.head? = some (.xfixesSelectionNotify owner cause)
  total : s.inner.lastChangeCount + s.events.countP isNote + s.requests.length +
    toCount (s.calls i) = cc + 2 + s.counted.toList.length

namespace Clearing

variable {cc : Nat} {j : ι} {call : Call}

omit [DecidableEq ι] in
/-- A call that is not in a clear is idle. -/
lemma calls_eq (h : s.Clearing cc j) (k : ι) :
    s.calls k = .idle ∨ k = j ∧ (s.calls j = .dropped ∨ s.calls j = .released) := by
  by_cases hk : k = j
  · rcases h.calls with hj | hj | hj
    · exact .inr ⟨hk, .inl hj⟩
    · exact .inr ⟨hk, .inr hj⟩
    · exact .inl (hk ▸ hj)
  · exact .inl (h.others k hk)

omit [DecidableEq ι] in
/-- No call is in a write. -/
lemma not_writing (h : s.Clearing cc j) {k : ι} (hcall : s.calls k = call)
    (hne : call ≠ .idle ∧ call ≠ .dropped ∧ call ≠ .released) : False := by
  subst hcall
  rcases h.calls_eq k with hk | ⟨rfl, hk | hk⟩
  · exact hne.1 hk
  · exact hne.2.1 hk
  · exact hne.2.2 hk

omit [DecidableEq ι] in
lemma eq_of_calls (h : s.Clearing cc j) {k : ι} (hk : s.calls k ≠ .idle) : k = j := by
  by_contra hne
  exact hk (h.others k hne)

/-- The call has gone on. -/
lemma advance (h : s.Clearing cc j) (hcall : call = .released ∨ call = .idle)
    {inner : X11Inner} {requests : List Request}
    (hrequests : ∀ request ∈ requests, request = .setSelectionOwnerNone)
    (htotal : inner.lastChangeCount + requests.length + toCount call =
      s.inner.lastChangeCount + s.requests.length + toCount (s.calls j)) :
    Clearing (setCall { s with inner := inner, requests := requests } j call) cc j where
  calls := by
    rw [calls_setCall_self]
    exact .inr hcall
  others k hk := by
    rw [calls_setCall_of_ne hk]
    exact h.others k hk
  requests := hrequests
  clock := h.clock
  head := h.head
  total := by
    rw [calls_setCall_self]
    have := h.total
    change inner.lastChangeCount + s.events.countP isNote + requests.length + toCount call =
      cc + 2 + s.counted.toList.length
    omega

omit [DecidableEq ι] in
/-- The event at the head has been handled, or counted first. -/
lemma handled (h : s.Clearing cc j) {inner : X11Inner} {events : List Event}
    {counted : Option Nat} {emitted : List Emission}
    (hhead : counted ≠ none → ∃ owner cause,
      events.head? = some (.xfixesSelectionNotify owner cause))
    (htotal : inner.lastChangeCount + events.countP isNote + s.counted.toList.length =
      s.inner.lastChangeCount + s.events.countP isNote + counted.toList.length) :
    Clearing { s with inner := inner, events := events, counted := counted, emitted := emitted }
      cc j where
  calls := h.calls
  others := h.others
  requests := h.requests
  clock := h.clock
  head := hhead
  total := by
    have := h.total
    dsimp only at this ⊢
    omega

omit [DecidableEq ι] in
/-- The server has made nobody the owner. -/
lemma serve (h : s.Clearing cc j) {rest : List Request}
    (hrequests : s.requests = .setSelectionOwnerNone :: rest) :
    Clearing { s.reply (s.server.serve .setSelectionOwnerNone) with requests := rest } cc j where
  calls := h.calls
  others := h.others
  requests request hr := h.requests request (hrequests ▸ List.mem_cons_of_mem _ hr)
  clock := Server.clock_setSelectionOwner h.clock
  head hne := by
    obtain ⟨owner, cause, hhead⟩ := h.head hne
    obtain ⟨events, hevents⟩ := List.head?_eq_some_iff.mp hhead
    refine ⟨owner, cause, ?_⟩
    change (s.events ++ _).head? = _
    rw [hevents]
    rfl
  total := by
    have htotal := h.total
    have hcount : (s.server.serve .setSelectionOwnerNone).2.countP isNote = 1 := by
      rw [Server.serve, Server.setSelectionOwner_effective (Server.not_refuses_now h.clock)]
      dsimp only
      rw [List.countP_append]
      split <;> rfl
    rw [hrequests, List.length_cons] at htotal
    change s.inner.lastChangeCount + (s.events ++ (s.server.serve _).2).countP isNote +
      rest.length + toCount (s.calls j) = cc + 2 + s.counted.toList.length
    rw [List.countP_append, hcount]
    omega

omit [DecidableEq ι] in
/-- Only an event of XFixes is counted. -/
lemma counted_eq_none (h : s.Clearing cc j) {event : Event} {events : List Event}
    (hevents : s.events = event :: events)
    (hne : ∀ owner cause, event ≠ .xfixesSelectionNotify owner cause) : s.counted = none := by
  by_contra hcounted
  obtain ⟨owner, cause, hhead⟩ := h.head hcounted
  rw [hevents] at hhead
  exact hne owner cause (Option.some.inj hhead)

lemma next (h : s.Clearing cc j) {a : Act ι} (he : s.Enabled a) (ha : s.GoesOn a) :
    (s.next a).Clearing cc j := by
  cases a with
  | takeSlot k text => exact ha.elim
  | fetch k text => exact (h.not_writing he (by simp)).elim
  | wake k text time => exact (h.not_writing he.1 (by simp)).elim
  | timeOut k text => exact ha.elim
  | mint k text time => exact (h.not_writing he (by simp)).elim
  | store k content => exact (h.not_writing he (by simp)).elim
  | setOwner k content => exact (h.not_writing he (by simp)).elim
  | drop k => exact ha.elim
  | release k =>
    have hk : s.calls k = .dropped := he
    obtain rfl := h.eq_of_calls (by rw [hk]; simp)
    refine h.advance (.inl rfl) ?_ ?_
    · intro request hr
      cases List.mem_append.mp hr with
      | inl hr => exact h.requests request hr
      | inr hr => exact List.mem_singleton.mp hr
    · rw [hk, List.length_append]
      rfl
  | bump k =>
    have hk : s.calls k = .released := he
    obtain rfl := h.eq_of_calls (by rw [hk]; simp)
    refine h.advance (.inr rfl) h.requests ?_
    rw [hk]
    change s.inner.lastChangeCount + 1 + _ + 0 = _ + 1
    omega
  | serve request =>
    obtain ⟨rest, hrequests⟩ := List.head?_eq_some_iff.mp he
    obtain rfl := h.requests request (hrequests ▸ List.mem_cons_self)
    rw [X11.next, hrequests]
    exact h.serve hrequests
  | «foreign» owner time => exact ha.elim
  | ownerGone => exact ha.elim
  | tick later => exact ⟨h.calls, h.others, h.requests, Nat.le_add_right_of_le h.clock, h.head, h.total⟩
  | fillSlot time =>
    obtain ⟨events, hevents⟩ := List.head?_eq_some_iff.mp he
    have hcounted := h.counted_eq_none hevents nofun
    rw [X11.next, hevents]
    refine h.handled (fun hne => absurd hcounted hne) ?_
    change (s.inner.handleTimestampNotify time).lastChangeCount + _ + _ = _
    rw [X11Inner.lastChangeCount_handleTimestampNotify, hevents]
    rfl
  | selectionClear =>
    obtain ⟨events, hevents⟩ := List.head?_eq_some_iff.mp he
    have hcounted := h.counted_eq_none hevents nofun
    rw [X11.next, hevents]
    refine h.handled (fun hne => absurd hcounted hne) ?_
    rw [hevents]
    rfl
  | count owner cause =>
    refine h.handled (fun _ => ⟨owner, cause, he.1⟩) ?_
    rw [show s.counted = none from he.2]
    change s.inner.lastChangeCount + 1 + s.events.countP isNote + 0 = _ + 1
    omega
  | emit owner cause count =>
    obtain ⟨events, hevents⟩ := List.head?_eq_some_iff.mp he.1
    rw [X11.next, hevents]
    refine h.handled (fun hne => absurd rfl hne) ?_
    rw [show s.counted = some count from he.2, hevents, List.tail_cons,
      List.countP_cons_of_pos rfl]
    rfl

end Clearing

/-- A clear is counted twice. -/
lemma InStep.performs_clear (hin : s.InStep st) (hop : Performs .clear s s') :
    s'.inner.lastChangeCount = st.changeCount + 2 := by
  cases hop with
  | run a hbegins he hrun hrest =>
    cases a with
    | drop j =>
      have hstart : (s.next (.drop j)).Clearing st.changeCount j := by
        constructor
        · exact .inl (calls_setCall_self j .dropped)
        · intro k hk
          exact (calls_setCall_of_ne hk .dropped).trans (hin.rest.calls k)
        · intro request hr
          rw [show (s.next (.drop j)).requests = [] from hin.rest.requests] at hr
          cases hr
        · exact hin.clock
        · exact fun hne => absurd hin.counted hne
        · rw [show (s.next (.drop j)).calls j = .dropped from calls_setCall_self j .dropped]
          change s.inner.lastChangeCount + s.events.countP isNote + s.requests.length + 2 =
            st.changeCount + 2 + s.counted.toList.length
          rw [hin.rest.events, hin.rest.requests, hin.counted, hin.count]
          rfl
      have hend : s'.Clearing st.changeCount j := by
        clear hrest
        induction hrun with
        | refl => exact hstart
        | tail _ hstep ih =>
          obtain ⟨a, he, ha, rfl⟩ := hstep
          exact ih.next he ha
      have hcounted : s'.counted = none := by
        by_contra hne
        obtain ⟨owner, cause, hhead⟩ := hend.head hne
        rw [hrest.events] at hhead
        cases hhead
      have htotal := hend.total
      rw [hrest.events, hrest.requests, hrest.calls j, hcounted] at htotal
      exact htotal
    | _ => exact hbegins.elim

/-! ### Any sequence of operations -/

/-- The operation is no clear, and no write of a text that is too long. -/
def Alike : Operation → Prop
  | .writeText text _ => byteLen text ≤ maxClipboardBytes
  | .clear => False
  | .externalWrite _ => True

/-- The two backends agree on an operation, or their counts differ after it. -/
lemma InStep.performs (hin : s.InStep st) {op : Operation} (hop : Performs op s s') :
    (Alike op ∧ s'.InStep (st.apply op).2 ∧ s'.emitted.map Emission.event =
      s.emitted.map Emission.event ++ [(st.apply op).1]) ∨
    (¬Alike op ∧ s'.inner.lastChangeCount ≠ (st.apply op).2.changeCount) := by
  cases op with
  | writeText text hints =>
    by_cases hlen : byteLen text ≤ maxClipboardBytes
    · exact .inl ⟨hlen, hin.performs_write hlen hop⟩
    · refine .inr ⟨hlen, ?_⟩
      cases hop with
      | refused hints hlong =>
        rw [hin.count]
        change st.changeCount ≠ st.changeCount + 1
        omega
      | run a hbegins he hrun hrest =>
        cases a with
        | takeSlot j text' =>
          obtain rfl : text' = text := hbegins
          exact absurd he.2.1 hlen
        | _ => exact hbegins.elim
  | clear =>
    refine .inr ⟨id, ?_⟩
    rw [hin.performs_clear hop]
    change st.changeCount + 2 ≠ st.changeCount + 1
    omega
  | externalWrite text => exact .inl ⟨trivial, hin.performs_external hop⟩

/-- From states in step, the backends agree over a sequence exactly when each operation is alike
for them. -/
lemma InStep.performsAll (hin : s.InStep st) {ops : List Operation} {counts : List Nat}
    (hops : PerformsAll ops s counts s') :
    (counts = (st.run ops).1 ∧ s'.emitted.map Emission.event =
      s.emitted.map Emission.event ++ (st.run ops).2) ↔ ∀ op ∈ ops, Alike op := by
  induction hops generalizing st with
  | nil => simp [InMemory.run]
  | cons hop hops ih =>
    rcases hin.performs hop with ⟨halike, hin', hemitted⟩ | ⟨halike, hcount⟩
    · rw [InMemory.run, List.forall_mem_cons, ← ih hin', hemitted, hin'.count]
      simp [halike]
    · refine iff_of_false ?_ fun h => halike (h _ List.mem_cons_self)
      rintro ⟨hcounts, -⟩
      exact hcount (List.cons.inj hcounts).1

omit [DecidableEq ι] in
lemma Initial.inStep (h : s.Initial) : s.InStep .new where
  rest := ⟨h.calls, h.requests, h.events⟩
  clock := h.clock
  slot := by rw [h.inner]
  counted := h.counted
  tokens := by
    rw [h.inner]
    rfl
  count := by
    rw [h.inner]
    rfl

/-- Over any sequence of operations, each handled before the next, the counts and the events of the
two backends are the same exactly when there is no clear and no text that is too long. -/
theorem backends_agree_iff (h₀ : s.Initial) {ops : List Operation} {counts : List Nat}
    (hops : PerformsAll ops s counts s') :
    (counts = (InMemory.new.run ops).1 ∧
      s'.emitted.map Emission.event = (InMemory.new.run ops).2) ↔ ∀ op ∈ ops, Alike op := by
  have h := h₀.inStep.performsAll hops
  rwa [h₀.emitted, List.map_nil, List.nil_append] at h

instance (s : X11 ι) : (a : Act ι) → Decidable (s.GoesOn a)
  | .takeSlot .. | .drop .. | .foreign .. | .ownerGone | .timeOut .. => instDecidableFalse
  | .fetch .. | .wake .. | .mint .. | .store .. | .setOwner .. | .release .. | .bump ..
  | .serve .. | .tick .. | .fillSlot .. | .selectionClear | .count .. | .emit .. =>
    instDecidableTrue

def shortContent : OwnedContent := ⟨"a".toList, ⟨1⟩, 0⟩

/-- A write of a short text, behind its first step. -/
def shortWrite : List (Act Unit) :=
  (fetching shortContent).tail ++ owning shortContent ++
    [.serve (.setSelectionOwner shortContent)] ++ handling .ourWindow (some ⟨1⟩) 1

/-- Both backends after one write of a short text. -/
theorem backends_agree_iff_written : ∃ s : X11 Unit,
    PerformsAll [.writeText shortContent.text .none] fresh [1] s ∧
    (([1] = (InMemory.new.run [.writeText shortContent.text .none]).1 ∧
      s.emitted.map Emission.event = (InMemory.new.run [.writeText shortContent.text .none]).2) ↔
      ∀ op ∈ [Operation.writeText shortContent.text .none], Alike op) := by
  have hrun : (fresh.next (.takeSlot () shortContent.text)).Runs GoesOn shortWrite := by
    decide +kernel
  have hop : Performs (.writeText shortContent.text .none) fresh _ :=
    .run (.takeSlot () shortContent.text) rfl (by decide) hrun.reaches ⟨fun _ => rfl, rfl, rfl⟩
  exact ⟨_, .cons hop .nil, backends_agree_iff initial_fresh (.cons hop .nil)⟩

/-- A clear, behind its first step. -/
def oneClear : List (Act Unit) :=
  [.release (), .serve .setSelectionOwnerNone, .bump ()] ++ handling .none none 2

theorem backends_differ_over_clear : ∃ s₀ s : X11 Unit, s₀.Initial ∧
    PerformsAll [.clear] s₀ [2] s ∧ (InMemory.new.run [.clear]).1 = [1] := by
  have hrun : (fresh.next (.drop ())).Runs GoesOn oneClear := by decide +kernel
  have hop : Performs .clear fresh _ :=
    .run (.drop ()) trivial (by decide) hrun.reaches ⟨fun _ => rfl, rfl, rfl⟩
  exact ⟨fresh, _, initial_fresh, .cons hop .nil, rfl⟩

end X11

end Invisibool.Clipboard
