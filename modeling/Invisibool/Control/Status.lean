import Invisibool.Control.Daemons
import Invisibool.Control.Exchange

/-!
# Asking a daemon

What a daemon answers, what a client meets that dials its socket, and what the two make of each
other.
-/

namespace Invisibool.Control
open Text Process Stream

/-- `serde_json::Number`: what `as_u64` makes of a number, and the number that holds a `u64`. -/
structure Numbers (S : SerdeJson) where
  asU64 : S.Num → Option UInt64
  ofU64 : UInt64 → S.Num
  asU64_ofU64 : ∀ n, asU64 (ofU64 n) = some n

structure StatusData where
  running : Bool
  pid : UInt32
  uptimeSecs : UInt64
  version : Str
  deriving DecidableEq

section Answers

variable {S : SerdeJson} (N : Numbers S)

namespace StatusData

/-- The members of an object are sorted by key. -/
def toValue (data : StatusData) : Json S.Num :=
  .object [("pid".toList, .number (N.ofU64 data.pid.toUInt64)),
    ("running".toList, .bool data.running),
    ("uptime_secs".toList, .number (N.ofU64 data.uptimeSecs)),
    ("version".toList, .string data.version)]

def u64 : Json S.Num → Option UInt64
  | .number n => N.asU64 n
  | _ => none

@[simp] lemma u64_ofU64 (n : UInt64) : u64 N (.number (N.ofU64 n)) = some n := N.asU64_ofU64 n

/-- A number of 64 bits must fit. -/
def u32 (value : Json S.Num) : Option UInt32 :=
  (u64 N value).bind fun n => if n.toNat < 2 ^ 32 then some n.toUInt32 else none

def ofFields (running pid uptimeSecs version : Json S.Num) : Option StatusData :=
  running.asBool.bind fun running =>
    (u32 N pid).bind fun pid =>
      (u64 N uptimeSecs).bind fun uptimeSecs =>
        version.asStr.map fun version => ⟨running, pid, uptimeSecs, version⟩

/-- The derived deserializer: the members of an object, whatever else it has, or the four items of
an array. -/
def fromValue : Json S.Num → Option StatusData
  | .array [running, pid, uptimeSecs, version] => ofFields N running pid uptimeSecs version
  | .object members =>
    (members.lookup "running".toList).bind fun running =>
      (members.lookup "pid".toList).bind fun pid =>
        (members.lookup "uptime_secs".toList).bind fun uptimeSecs =>
          (members.lookup "version".toList).bind fun version =>
            ofFields N running pid uptimeSecs version
  | _ => none

lemma u32_ofU64 (n : UInt32) : u32 N (.number (N.ofU64 n.toUInt64)) = some n := by
  have hlt : n.toUInt64.toNat < 2 ^ 32 := by
    rw [UInt32.toNat_toUInt64]
    exact n.toNat_lt
  unfold u32
  rw [u64_ofU64, Option.bind_some, if_pos hlt, UInt32.toUInt32_toUInt64]

lemma fromValue_toValue (data : StatusData) : fromValue N (toValue N data) = some data := by
  change ofFields N (.bool data.running) (.number (N.ofU64 data.pid.toUInt64))
    (.number (N.ofU64 data.uptimeSecs)) (.string data.version) = _
  unfold ofFields
  rw [u32_ofU64, u64_ofU64]
  rfl

end StatusData

/-- A daemon: its process, when it has started, and its version. -/
structure Vitals where
  pid : UInt32
  startedAt : Nat
  version : Str

/-- Instants are in nanoseconds. -/
def Vitals.data (vitals : Vitals) (now : Nat) : StatusData where
  running := true
  pid := vitals.pid
  uptimeSecs := UInt64.ofNat ((now - vitals.startedAt) / 1000000000)
  version := vitals.version

def notImplemented {Num : Type} (name : Str) : Response Num :=
  .err ⟨.notImplemented, name ++ " is not yet implemented".toList⟩

def dispatch (vitals : Vitals) (now : Nat) : Request → Response S.Num
  | .status => .ok ((vitals.data now).toValue N)
  | .pause => notImplemented "pause".toList
  | .resume => notImplemented "resume".toList
  | .restoreClipboard => notImplemented "restore-clipboard".toList
  | .sessionLs => notImplemented "session-ls".toList
  | .sessionClear => notImplemented "session-clear".toList

end Answers

/-- What comes of the calls of a client: connecting, setting the two timeouts, writing the
request, and the stream to read from. -/
structure Dialled where
  connected : Except IoError Unit
  readTimeout : Except IoError Unit
  writeTimeout : Except IoError Unit
  sent : Except IoError Unit
  stream : Reader IoError

/-- The kinds `NotFound` and `ConnectionRefused`. -/
def IoError.Absent (e : IoError) : Prop := e = .os enoent ∨ e = .os econnrefused

instance : DecidablePred IoError.Absent :=
  fun e => inferInstanceAs (Decidable (e = .os enoent ∨ e = .os econnrefused))

section Ends

variable (S : SerdeJson)

/-- `dial_once` from its first call on. A request that is too long is not sent. -/
def Dialled.once (d : Dialled) (request : Request) : Except ControlError (Response S.Num) := do
  d.connected.mapError .io
  d.readTimeout.mapError .io
  d.writeTimeout.mapError .io
  (writeFrame (request.toBytes S)).1
  d.sent.mapError .io
  let body ← (readFrame d.stream).result
  Response.fromBytes S body

/-- The client has been taken on by a daemon: the daemon reads the request once it has been sent,
and some beginning of what it writes comes back. No error looks as if there were no daemon. -/
structure Dialled.TakenOn (d : Dialled) (handler : Request → Response S.Num) (request : Request) :
    Prop where
  readTimeout : ∀ e, d.readTimeout = .error e → ¬e.Absent
  writeTimeout : ∀ e, d.writeTimeout = .error e → ¬e.Absent
  sent : ∀ e, d.sent = .error e → ¬e.Absent
  answer : d.sent = .ok () → ∃ conn rest,
    Delivers conn (toBeBytes (request.toBytes S).length ++ request.toBytes S) rest ∧
    Gives (fun e : IoError => ¬e.Absent) d.stream (serveOne S conn handler).written

/-- No call but maybe the first one fails, and all of what the daemon writes comes back. -/
structure Dialled.Answered (d : Dialled) (handler : Request → Response S.Num)
    (request : Request) : Prop where
  readTimeout : d.readTimeout = .ok ()
  writeTimeout : d.writeTimeout = .ok ()
  sent : d.sent = .ok ()
  answer : ∃ conn rest rest',
    Delivers conn (toBeBytes (request.toBytes S).length ++ request.toBytes S) rest ∧
    Delivers d.stream (serveOne S conn handler).written rest'

end Ends

variable {S : SerdeJson} {handler : Request → Response S.Num} {request : Request} {d : Dialled}

lemma Dialled.once_of_calls (hprints : request.toBytes S = utf8 (request.toValue.compact S.numText))
    (hconnected : d.connected = .ok ()) (hreadTimeout : d.readTimeout = .ok ())
    (hwriteTimeout : d.writeTimeout = .ok ()) (hsent : d.sent = .ok ()) :
    d.once S request = (readFrame d.stream).result.bind (Response.fromBytes S) := by
  unfold Dialled.once
  rw [hconnected, hreadTimeout, hwriteTimeout, hsent, writeFrame_fits (request_fits hprints)]
  rfl

/-- With all calls made, it is what the two ends are proved about. -/
lemma Dialled.once_eq_dialOnce
    (hprints : request.toBytes S = utf8 (request.toValue.compact S.numText))
    (hconnected : d.connected = .ok ()) (hreadTimeout : d.readTimeout = .ok ())
    (hwriteTimeout : d.writeTimeout = .ok ()) (hsent : d.sent = .ok ()) :
    d.once S request = (dialOnce S d.stream request).1 := by
  rw [Dialled.once_of_calls hprints hconnected hreadTimeout hwriteTimeout hsent]
  unfold dialOnce
  rw [writeFrame_fits (request_fits hprints)]
  dsimp only
  cases (readFrame d.stream).result with
  | error e => rfl
  | ok body => rfl

/-- A client that is answered has the response. -/
lemma Dialled.Answered.once (h : d.Answered S handler request)
    (hchannel : Channel S handler request) (hconnected : d.connected = .ok ()) :
    d.once S request = .ok (handler request) := by
  obtain ⟨conn, rest, rest', hconn, hstream⟩ := h.answer
  rw [hchannel.serveOne_eq hconn, ← List.append_nil (_ ++ _)] at hstream
  obtain ⟨r', hread, -⟩ := readFrame_eq hchannel.fits hstream
  rw [Dialled.once_of_calls hchannel.prints hconnected h.readTimeout h.writeTimeout h.sent, hread]
  exact hchannel.fromBytes

/-- A client that is taken on has the response, or an error that does not look as if there were no
daemon. -/
lemma Dialled.TakenOn.once (h : d.TakenOn S handler request)
    (hchannel : Channel S handler request) (hconnected : d.connected = .ok ()) :
    d.once S request = .ok (handler request) ∨
      ∃ e, ¬e.Absent ∧ d.once S request = .error (.io e) := by
  cases hreadTimeout : d.readTimeout with
  | error e =>
    refine .inr ⟨e, h.readTimeout e hreadTimeout, ?_⟩
    unfold Dialled.once
    rw [hconnected, hreadTimeout]
    rfl
  | ok u =>
  cases hwriteTimeout : d.writeTimeout with
  | error e =>
    refine .inr ⟨e, h.writeTimeout e hwriteTimeout, ?_⟩
    unfold Dialled.once
    rw [hconnected, hreadTimeout, hwriteTimeout]
    rfl
  | ok u =>
  cases hsent : d.sent with
  | error e =>
    refine .inr ⟨e, h.sent e hsent, ?_⟩
    unfold Dialled.once
    rw [hconnected, hreadTimeout, hwriteTimeout, hsent,
      writeFrame_fits (request_fits hchannel.prints)]
    rfl
  | ok u =>
    obtain ⟨conn, rest, hconn, hstream⟩ := h.answer hsent
    rw [hchannel.serveOne_eq hconn] at hstream
    rw [Dialled.once_of_calls hchannel.prints hconnected hreadTimeout hwriteTimeout hsent]
    rcases readFrame_gives hchannel.fits hstream with hread | ⟨e, he, hread⟩
    · rw [hread]
      exact .inl hchannel.fromBytes
    · rw [hread]
      refine .inr ⟨e, ?_, rfl⟩
      rcases he with rfl | he
      · exact fun h => by rcases h with h | h <;> cases h
      · exact he

end Invisibool.Control
