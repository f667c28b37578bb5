import Invisibool.Control.Exchange
import Invisibool.Control.Sockets

/-!
# The accept loop

A daemon accepts one connection after another, turns away whom its verifier rejects, and has a
thread serve each of the others. Connections come in, and threads serve theirs, between any two
calls of the loop. The loop panics where a thread cannot be created, or standard error not written.
-/

namespace Invisibool.Control
open Text Process Stream Relation

/-- The errors of accepting a connection. -/
inductive AcceptError
  | io (e : IoError)
  | peerUidMismatch (peerUid daemonUid : UInt32)
  | peerRejectedForTest
  deriving DecidableEq

/-- What has become of a connection. One that is closed was served, or has been dropped. -/
inductive Link
  | pending
  | accepted
  | inFlight
  | closed
  deriving DecidableEq

/-- Connections are told by numbers. -/
abbrev Links := Nat → Option Link

inductive AcceptCall
  | accept
  | setReadTimeout (conn : Nat)
  | setWriteTimeout (conn : Nat)
  | peerCred (conn : Nat)
  | close (conn : Nat)

def AcceptCall.Ans : AcceptCall → Type
  | accept => Except IoError Nat
  | setReadTimeout _ => Except IoError Unit
  | setWriteTimeout _ => Except IoError Unit
  | peerCred _ => Except IoError UInt32
  | close _ => Unit

abbrev AcceptProgram (α : Type) := Prog AcceptCall AcceptCall.Ans α

/-! ### The programs -/

/-- `PeerVerifier`: what `verify` does for a connection. -/
abbrev Verifier := Nat → AcceptProgram (Except AcceptError Unit)

/-- `RejectAll`. -/
def rejectAll : Verifier := fun _ => .ret (.error .peerRejectedForTest)

/-- The connection is closed with the error. -/
def UnixServer.accept (verify : Verifier) : AcceptProgram (Except AcceptError Nat) :=
  .call .accept fun
    | .error e => .ret (.error (.io e))
    | .ok conn => .call (.setReadTimeout conn) fun
      | .error e => .call (.close conn) fun _ => .ret (.error (.io e))
      | .ok () => .call (.setWriteTimeout conn) fun
        | .error e => .call (.close conn) fun _ => .ret (.error (.io e))
        | .ok () => (verify conn).bind fun
          | .error e => .call (.close conn) fun _ => .ret (.error e)
          | .ok () => .ret (.ok conn)

/-- What the loop writes to standard error. -/
def rejection (ioText : IoError → Str) : AcceptError → List Str
  | .peerUidMismatch peerUid daemonUid =>
    ["control-channel: rejected connection from uid=".toList ++ (Nat.repr peerUid.toNat).toList ++
      " (expected uid=".toList ++ (Nat.repr daemonUid.toNat).toList ++ ")\n".toList]
  | .peerRejectedForTest => ["control-channel: rejected connection (test verifier)\n".toList]
  | .io e =>
    if e = .os ewouldblock then []
    else ["daemon-stub: accept: io error: ".toList ++ ioText e ++ "\n".toList]

/-! ### The kernel and the threads -/

/-- What the kernel makes of a call; `uids` are the users at the other ends. -/
def acceptWorld (uids : Nat → UInt32) : World AcceptCall AcceptCall.Ans Links
  | .accept, s, ans, s' =>
    (∃ conn, s conn = some .pending ∧ ans = .ok conn ∧
      s' = Function.update s conn (some .accepted)) ∨ (∃ e, ans = .error e) ∧ s' = s
  | .setReadTimeout _, s, _, s' => s' = s
  | .setWriteTimeout _, s, _, s' => s' = s
  | .peerCred conn, s, ans, s' => (ans = .ok (uids conn) ∨ ∃ e, ans = .error e) ∧ s' = s
  | .close conn, s, _, s' => s' = Function.update s conn (some .closed)

inductive LoopState
  | top
  | accepting (p : AcceptProgram (Except AcceptError Nat))
  | ended
  | panicked

/-- The loop, the flag that ends it, the connections, the lines that the loop has written to
standard error, the calls of the handler and the bytes written for each connection. -/
structure Acceptor where
  loop : LoopState
  shutdown : Bool
  links : Links
  stderr : List Str
  calls : Nat → List Request
  written : Nat → WireBytes

def Acceptor.start : Acceptor := ⟨.top, false, fun _ => none, [], fun _ => [], fun _ => []⟩

section Loop

variable (S : SerdeJson) (ioText : IoError → Str) (verify : Verifier) (uids : Nat → UInt32)
  (streams : Nat → Reader IoError) (handlers : Nat → Request → Response S.Num)

/-- The thread of the connection has served it. -/
def Acceptor.serve (m : Acceptor) (conn : Nat) : Acceptor :=
  { m with
    links := Function.update m.links conn (some .closed)
    calls := Function.update m.calls conn
      (m.calls conn ++ (serveOne S (streams conn) (handlers conn)).calls)
    written := Function.update m.written conn
      (m.written conn ++ (serveOne S (streams conn) (handlers conn)).written) }

/-- The steps of the loop, of the threads and of those who connect. A thread serves its connection
in one step, since nobody else has it; the end of the process, which may cut a thread off, is
none. `thread::spawn` panics when there can be no thread, and drops the connection; `eprintln!`
panics when standard error cannot be written. -/
inductive AcceptStep : Acceptor → Acceptor → Prop
  | arrive {m conn} : m.links conn = none →
      AcceptStep m { m with links := Function.update m.links conn (some .pending) }
  | signal {m} : AcceptStep m { m with shutdown := true }
  | «end» {m} : m.loop = .top → m.shutdown = true → AcceptStep m { m with loop := .ended }
  | begin {m} : m.loop = .top → m.shutdown = false →
      AcceptStep m { m with loop := .accepting (UnixServer.accept verify) }
  | call {m call next ans s'} : m.loop = .accepting (.call call next) →
      acceptWorld uids call m.links ans s' →
      AcceptStep m { m with loop := .accepting (next ans), links := s' }
  | spawn {m conn} : m.loop = .accepting (.ret (.ok conn)) →
      AcceptStep m { m with
        loop := .top, links := Function.update m.links conn (some .inFlight) }
  | spawnPanics {m conn} : m.loop = .accepting (.ret (.ok conn)) →
      AcceptStep m { m with
        loop := .panicked, links := Function.update m.links conn (some .closed) }
  | again {m e} : m.loop = .accepting (.ret (.error e)) →
      AcceptStep m { m with loop := .top, stderr := m.stderr ++ rejection ioText e }
  | reportPanics {m e} : m.loop = .accepting (.ret (.error e)) → rejection ioText e ≠ [] →
      AcceptStep m { m with loop := .panicked }
  | serve {m conn} : m.links conn = some .inFlight →
      AcceptStep m (m.serve S streams handlers conn)

end Loop

/-! ### Accepting -/

/-- What is closed stays closed. -/
def Links.Kept (s s' : Links) : Prop := ∀ conn, s conn = some .closed → s' conn = some .closed

/-- What the others do: nothing to a connection that the loop has in its hands. -/
structure Links.Spared (s s' : Links) : Prop where
  accepted : ∀ conn, s' conn = some .accepted ↔ s conn = some .accepted
  kept : Links.Kept s s'

/-- What the loop does: it takes connections that are pending, and drops those that it has. -/
def Links.Taken (s s' : Links) : Prop :=
  ∀ conn, s' conn = s conn ∨ (s conn = some .pending ∧ s' conn = some .accepted) ∨
    (s conn = some .accepted ∧ s' conn = some .closed)

/-- No connection is in the hands of the loop. -/
def Links.Free (s : Links) : Prop := ∀ conn, s conn ≠ some .accepted

/-- The loop has this connection in its hands, and no other. -/
def Links.Held (s : Links) (conn : Nat) : Prop := ∀ c, s c = some .accepted ↔ c = conn

section Specs

variable (P : Nat → Prop) (E : Nat → AcceptError → Prop)

/-- A connection that passes, or is rejected with an error. -/
def Vetted (conn : Nat) : Except AcceptError Unit → Prop
  | .ok () => P conn
  | .error e => E conn e

/-- What the verifier passes, and with which errors it rejects; it leaves the connections alone. -/
def Vets (uids : Nat → UInt32) (verify : Verifier) : Prop :=
  ∀ conn s, Holds (acceptWorld uids) Links.Spared Eq (fun r _ => Vetted P E conn r) (verify conn) s

/-- A call has failed, or a connection has been dropped with the error. -/
def Justified (s : Links) (e : AcceptError) : Prop :=
  (∃ x, e = .io x) ∨ ∃ conn, s conn = some .closed ∧ E conn e

/-- What accepting comes to. -/
def Accepted : Except AcceptError Nat → Links → Prop
  | .ok conn, s => P conn ∧ s.Held conn
  | .error e, s => s.Free ∧ Justified E s e

end Specs

variable {P : Nat → Prop} {E : Nat → AcceptError → Prop} {uids : Nat → UInt32}
  {verify : Verifier} {s s' s'' : Links} {conn : Nat} {e : AcceptError}

namespace Links

lemma Spared.refl (s : Links) : Spared s s := ⟨fun _ => Iff.rfl, fun _ h => h⟩

lemma Spared.trans (h : Spared s s') (h' : Spared s' s'') : Spared s s'' where
  accepted conn := (h'.accepted conn).trans (h.accepted conn)
  kept conn hclosed := h'.kept conn (h.kept conn hclosed)

lemma Free.spared (h : s.Free) (hs : Spared s s') : s'.Free :=
  fun conn haccepted => h conn ((hs.accepted conn).mp haccepted)

lemma Held.spared (h : s.Held conn) (hs : Spared s s') : s'.Held conn :=
  fun c => (hs.accepted c).trans (h c)

/-- What the loop has in its hands gets out of them. -/
lemma Held.release (h : s.Held conn) {link : Link} (hlink : link ≠ .accepted) :
    Free (Function.update s conn (some link)) := by
  intro c haccepted
  by_cases hc : c = conn
  · subst hc
    rw [Function.update_self, Option.some.injEq] at haccepted
    exact hlink haccepted
  · rw [Function.update_of_ne hc] at haccepted
    exact hc ((h c).mp haccepted)

lemma Held.kept_update (h : s.Held conn) (link : Link) :
    Kept s (Function.update s conn (some link)) := by
  intro c hclosed
  have hc : c ≠ conn := by
    rintro rfl
    rw [(h c).mpr rfl] at hclosed
    cases hclosed
  exact (Function.update_of_ne hc _ _).trans hclosed

lemma Taken.refl (s : Links) : Taken s s := fun _ => .inl rfl

lemma Taken.kept (h : Taken s s') : Kept s s' := by
  intro conn hclosed
  rcases h conn with heq | ⟨hpending, -⟩ | ⟨haccepted, -⟩
  · exact heq.trans hclosed
  · rw [hclosed] at hpending
    cases hpending
  · rw [hclosed] at haccepted
    cases haccepted

/-- A connection gets somewhere that is not in the hands of the loop, from where it is not closed
and not in its hands either. -/
lemma spared_update {link : Link} (hlink : link ≠ .accepted) (hold : s conn ≠ some .accepted)
    (hclosed : s conn ≠ some .closed) : Spared s (Function.update s conn (some link)) where
  accepted c := by
    by_cases hc : c = conn
    · subst hc
      rw [Function.update_self, Option.some.injEq]
      exact ⟨fun h => absurd h hlink, fun h => absurd h hold⟩
    · rw [Function.update_of_ne hc]
  kept c h := by
    have hc : c ≠ conn := by
      rintro rfl
      exact hclosed h
    rw [Function.update_of_ne hc]
    exact h

end Links

lemma Justified.kept (h : Justified E s e) (hs : Links.Kept s s') : Justified E s' e := by
  rcases h with hio | ⟨conn, hclosed, he⟩
  · exact .inl hio
  · exact .inr ⟨conn, hs conn hclosed, he⟩

/-- A connection is dropped with an error. -/
lemma drop_holds (hheld : s.Held conn) (he : (∃ x, e = .io x) ∨ E conn e) :
    Holds (acceptWorld uids) Links.Spared Links.Taken (Accepted P E)
      (.call (.close conn) fun _ => .ret (.error e)) s := by
  rintro s₁ hs₁ ⟨⟩ s₂ rfl
  have hheld₁ := hheld.spared hs₁
  have hfree : Links.Free (Function.update s₁ conn (some .closed)) :=
    hheld₁.release (by decide)
  have hjust : Justified E (Function.update s₁ conn (some .closed)) e :=
    he.imp_right fun hE => ⟨conn, Function.update_self _ _ _, hE⟩
  refine ⟨fun c => ?_, fun s₃ hs₃ => ⟨hfree.spared hs₃, hjust.kept hs₃.kept⟩⟩
  by_cases hc : c = conn
  · subst hc
    exact .inr (.inr ⟨(hheld₁ c).mpr rfl, Function.update_self _ _ _⟩)
  · exact .inl (Function.update_of_ne hc _ _)

/-- The loop has a connection that has passed, or none and an error to report. -/
lemma accept_holds (hvets : Vets P E uids verify) (hfree : s.Free) :
    Holds (acceptWorld uids) Links.Spared Links.Taken (Accepted P E)
      (UnixServer.accept verify) s := by
  intro s₁ hs₁ ans s₂ hcall
  have hfree₁ := hfree.spared hs₁
  rcases hcall with ⟨conn, hpending, rfl, rfl⟩ | ⟨⟨e, rfl⟩, rfl⟩
  · have hheld : Links.Held (Function.update s₁ conn (some .accepted)) conn := by
      intro c
      by_cases hc : c = conn
      · subst hc
        rw [Function.update_self]
        exact ⟨fun _ => rfl, fun _ => rfl⟩
      · rw [Function.update_of_ne hc]
        exact ⟨fun h => absurd h (hfree₁ c), fun h => absurd h hc⟩
    refine ⟨fun c => ?_, ?_⟩
    · by_cases hc : c = conn
      · subst hc
        exact .inr (.inl ⟨hpending, Function.update_self _ _ _⟩)
      · exact .inl (Function.update_of_ne hc _ _)
    rintro s₂ hs₂ ans s₃ rfl
    refine ⟨Links.Taken.refl _, ?_⟩
    have hheld₂ := hheld.spared hs₂
    cases ans with
    | error e => exact drop_holds hheld₂ (.inl ⟨e, rfl⟩)
    | ok u =>
    rintro s₃ hs₃ ans s₄ rfl
    refine ⟨Links.Taken.refl _, ?_⟩
    have hheld₃ := hheld₂.spared hs₃
    cases ans with
    | error e => exact drop_holds hheld₃ (.inl ⟨e, rfl⟩)
    | ok u =>
    refine Holds.bind Links.Spared.refl ?_
    have hkeeps : Holds (acceptWorld uids) Links.Spared Eq
        (fun r s => Vetted P E conn r ∧ s.Held conn) (verify conn) _ :=
      (hvets conn _).frame hheld₃ (fun s s' h hs => h.spared hs) (fun s s' h hs => hs ▸ h)
    refine hkeeps.mono (fun s s' h => h ▸ Links.Taken.refl s) ?_
    rintro r s ⟨hvetted, hheld⟩
    cases r with
    | error e => exact drop_holds hheld (.inr hvetted)
    | ok u => exact fun s' hs' => ⟨hvetted, hheld.spared hs'⟩
  · exact ⟨Links.Taken.refl _, fun s₃ hs₃ => ⟨hfree₁.spared hs₃, .inl ⟨e, rfl⟩⟩⟩

/-! ### The two verifiers -/

lemma rejectAll_vets : Vets (fun _ => False) (fun _ e => e = .peerRejectedForTest) uids rejectAll :=
  fun _ _ _ _ => rfl

/-! ### The loop and the threads -/

/-- What is so of the connections at a point of the loop. -/
def LoopState.Fits (P : Nat → Prop) (E : Nat → AcceptError → Prop) (uids : Nat → UInt32)
    (shutdown : Bool) (s : Links) : LoopState → Prop
  | .top => s.Free
  | .accepting p => Holds (acceptWorld uids) Links.Spared Links.Taken (Accepted P E) p s
  | .ended => s.Free ∧ shutdown = true
  | .panicked => s.Free

lemma LoopState.Fits.spared {loop : LoopState} {shutdown : Bool}
    (h : loop.Fits P E uids shutdown s) (hs : Links.Spared s s') :
    loop.Fits P E uids shutdown s' := by
  cases loop with
  | top => exact Links.Free.spared h hs
  | accepting p => exact Holds.stable (fun _ _ _ => Links.Spared.trans) h hs
  | ended => exact ⟨Links.Free.spared h.1 hs, h.2⟩
  | panicked => exact Links.Free.spared h hs

section Loop

variable (P E uids) (S : SerdeJson) (ioText : IoError → Str)
  (streams : Nat → Reader IoError) (handlers : Nat → Request → Response S.Num)

namespace Acceptor

/-- Nothing has been done for the connection. -/
def Unserved (m : Acceptor) (conn : Nat) : Prop := m.calls conn = [] ∧ m.written conn = []

/-- The connection has passed, and has been served, once. -/
structure Served (m : Acceptor) (conn : Nat) : Prop where
  closed : m.links conn = some .closed
  passed : P conn
  calls : m.calls conn = (serveOne S (streams conn) (handlers conn)).calls
  written : m.written conn = (serveOne S (streams conn) (handlers conn)).written

/-- Only a connection that passes has a thread, each is served once or not at all, and only what
has happened has been reported. -/
structure Sound (m : Acceptor) : Prop where
  fits : m.loop.Fits P E uids m.shutdown m.links
  passed : ∀ conn, m.links conn = some .inFlight → P conn
  served : ∀ conn, m.Unserved conn ∨ m.Served P S streams handlers conn
  reported : ∀ line ∈ m.stderr, ∃ e, line ∈ rejection ioText e ∧ Justified E m.links e

end Acceptor

variable {P E uids S ioText streams handlers} {m m' : Acceptor}

lemma Acceptor.Served.kept (h : m.Served P S streams handlers conn)
    (hs : Links.Kept m.links m'.links) (hcalls : m'.calls conn = m.calls conn)
    (hwritten : m'.written conn = m.written conn) : m'.Served P S streams handlers conn where
  closed := hs conn h.closed
  passed := h.passed
  calls := hcalls.trans h.calls
  written := hwritten.trans h.written

namespace Acceptor.Sound

/-- A step that serves no connection. -/
lemma of_kept (h : m.Sound P E uids S ioText streams handlers)
    (hs : Links.Kept m.links m'.links) (hfits : m'.loop.Fits P E uids m'.shutdown m'.links)
    (hpassed : ∀ conn, m'.links conn = some .inFlight → P conn)
    (hcalls : m'.calls = m.calls) (hwritten : m'.written = m.written)
    (hreported : ∀ line ∈ m'.stderr, line ∈ m.stderr ∨
      ∃ e, line ∈ rejection ioText e ∧ Justified E m.links e) :
    m'.Sound P E uids S ioText streams handlers where
  fits := hfits
  passed := hpassed
  served conn := by
    refine (h.served conn).imp (fun hunserved => ?_) fun hserved =>
      hserved.kept hs (congrFun hcalls conn) (congrFun hwritten conn)
    exact ⟨(congrFun hcalls conn).trans hunserved.1, (congrFun hwritten conn).trans hunserved.2⟩
  reported line hline := by
    rcases hreported line hline with hold | ⟨e, he, hjust⟩
    · obtain ⟨e, he, hjust⟩ := h.reported line hold
      exact ⟨e, he, hjust.kept hs⟩
    · exact ⟨e, he, hjust.kept hs⟩

lemma start : Acceptor.start.Sound P E uids S ioText streams handlers where
  fits conn h := by cases h
  passed conn h := by cases h
  served conn := .inl ⟨rfl, rfl⟩
  reported line h := by cases h

/-- Another connection gets its thread, or comes in. -/
lemma passed_update (h : m.Sound P E uids S ioText streams handlers) {link : Link}
    (hlink : link = .inFlight → P conn) (c : Nat)
    (hc : Function.update m.links conn (some link) c = some .inFlight) : P c := by
  by_cases heq : c = conn
  · subst heq
    rw [Function.update_self, Option.some.injEq] at hc
    exact hlink hc
  · rw [Function.update_of_ne heq] at hc
    exact h.passed c hc

/-- The thread of a connection serves it, which nobody has done before. -/
lemma serve (h : m.Sound P E uids S ioText streams handlers)
    (hconn : m.links conn = some .inFlight) :
    (m.serve S streams handlers conn).Served P S streams handlers conn := by
  obtain ⟨hcalls, hwritten⟩ : m.Unserved conn := by
    refine (h.served conn).resolve_right fun hserved => ?_
    have hclosed := hserved.closed
    rw [hconn] at hclosed
    cases hclosed
  refine ⟨Function.update_self _ _ _, h.passed conn hconn, ?_, ?_⟩
  · change Function.update m.calls conn _ conn = _
    rw [Function.update_self, hcalls, List.nil_append]
  · change Function.update m.written conn _ conn = _
    rw [Function.update_self, hwritten, List.nil_append]

lemma step (hvets : Vets P E uids verify) (h : m.Sound P E uids S ioText streams handlers)
    (hstep : AcceptStep S ioText verify uids streams handlers m m') :
    m'.Sound P E uids S ioText streams handlers := by
  have hold : ∀ line ∈ m.stderr, line ∈ m.stderr ∨
      ∃ e, line ∈ rejection ioText e ∧ Justified E m.links e := fun _ => .inl
  have hfits := h.fits
  cases hstep with
  | @arrive conn hnone =>
    have hs : Links.Spared m.links (Function.update m.links conn (some .pending)) :=
      Links.spared_update (by decide) (by rw [hnone]; decide) (by rw [hnone]; decide)
    exact h.of_kept hs.kept (hfits.spared hs) (h.passed_update fun hlink => by cases hlink) rfl
      rfl hold
  | signal =>
    refine h.of_kept (fun _ hc => hc) ?_ h.passed rfl rfl hold
    dsimp only
    cases hloop : m.loop with
    | top | accepting p | panicked => rwa [hloop] at hfits
    | ended =>
      rw [hloop] at hfits
      exact ⟨hfits.1, rfl⟩
  | «end» hloop hshutdown =>
    rw [hloop] at hfits
    exact h.of_kept (fun _ hc => hc) ⟨hfits, hshutdown⟩ h.passed rfl rfl hold
  | begin hloop hshutdown =>
    rw [hloop] at hfits
    exact h.of_kept (fun _ hc => hc) (accept_holds hvets hfits) h.passed rfl rfl hold
  | @call call next ans s' hloop hcall =>
    rw [hloop] at hfits
    obtain ⟨htaken, hnext⟩ := hfits m.links (.refl _) ans s' hcall
    refine h.of_kept htaken.kept hnext (fun conn hconn => ?_) rfl rfl hold
    dsimp only at hconn
    rcases htaken conn with heq | ⟨-, heq⟩ | ⟨-, heq⟩
    · exact h.passed conn (heq.symm.trans hconn)
    · rw [heq] at hconn
      cases hconn
    · rw [heq] at hconn
      cases hconn
  | @spawn conn hloop =>
    rw [hloop] at hfits
    obtain ⟨hpassed, hheld⟩ := hfits m.links (.refl _)
    exact h.of_kept (hheld.kept_update .inFlight) (hheld.release (by decide))
      (h.passed_update fun _ => hpassed) rfl rfl hold
  | @spawnPanics conn hloop =>
    rw [hloop] at hfits
    obtain ⟨-, hheld⟩ := hfits m.links (.refl _)
    exact h.of_kept (hheld.kept_update .closed) (hheld.release (by decide))
      (h.passed_update fun hlink => by cases hlink) rfl rfl hold
  | @again e hloop =>
    rw [hloop] at hfits
    obtain ⟨hfree, hjust⟩ := hfits m.links (.refl _)
    refine h.of_kept (fun _ hc => hc) hfree h.passed rfl rfl fun line hline => ?_
    exact (List.mem_append.mp hline).imp_right fun he => ⟨e, he, hjust⟩
  | @reportPanics e hloop =>
    rw [hloop] at hfits
    exact h.of_kept (fun _ hc => hc) (hfits m.links (.refl _)).1 h.passed rfl rfl hold
  | @serve conn hconn =>
    have hs : Links.Spared m.links (Function.update m.links conn (some .closed)) :=
      Links.spared_update (by decide) (by rw [hconn]; decide) (by rw [hconn]; decide)
    refine ⟨hfits.spared hs, h.passed_update (fun hlink => by cases hlink), fun c => ?_,
      fun line hline => ?_⟩
    · by_cases hc : c = conn
      · subst hc
        exact .inr (h.serve hconn)
      · have hcalls : (m.serve S streams handlers conn).calls c = m.calls c :=
          Function.update_of_ne hc _ _
        have hwritten : (m.serve S streams handlers conn).written c = m.written c :=
          Function.update_of_ne hc _ _
        exact (h.served c).imp (fun hunserved => ⟨hcalls.trans hunserved.1,
          hwritten.trans hunserved.2⟩) fun hserved => hserved.kept hs.kept hcalls hwritten
    · obtain ⟨e, he, hjust⟩ := h.reported line hline
      exact ⟨e, he, hjust.kept hs.kept⟩

lemma run (hvets : Vets P E uids verify) (h : m.Sound P E uids S ioText streams handlers)
    (hrun : ReflTransGen (AcceptStep S ioText verify uids streams handlers) m m') :
    m'.Sound P E uids S ioText streams handlers := by
  induction hrun with
  | refl => exact h
  | tail _ hstep ih => exact ih.step hvets hstep

end Acceptor.Sound

/-! ### Nobody is kept waiting by the others -/

/-- With the verifier that rejects everyone, nobody is served. -/
lemma rejectAll_serves_none
    (hrun : ReflTransGen (AcceptStep S ioText rejectAll uids streams handlers) Acceptor.start m)
    (conn : Nat) : m.Unserved conn :=
  ((Acceptor.Sound.start.run rejectAll_vets hrun).served conn).resolve_right fun h => h.passed

end Loop

/-! ### Two users -/

/-- Two connections wait. -/
def waiting : Acceptor :=
  { Acceptor.start with
    links := Function.update (Function.update (fun _ => none) 0 (some .pending)) 1 (some .pending) }

end Invisibool.Control
