import Invisibool.Control.Error
import Invisibool.Format.Json
import Invisibool.System.Stream
import Invisibool.Text.Utf8

/-!
# The wire protocol

Requests and responses as JSON values, length-prefixed frames, and the two ends of a connection,
`serve_one` and `dial_once`. The text of the values is written and read by `serde_json`.
-/

namespace Invisibool.Control
open Text Stream

abbrev WireBytes := List UInt8

def maxFrameBytes : Nat := 64 * 1024

/-- What the derived deserializer of a struct looks at: the members or the items of a text, in
order, each with its string if it is one. -/
inductive TopLevel
  | object (members : List (Str × Option Str))
  | array (items : List (Option Str))
  | other
  deriving DecidableEq

/-- `serde_json`: its numbers with their text, `to_vec` and `from_slice` of a value, and what
`from_slice` shows to a derived deserializer. -/
structure SerdeJson where
  Num : Type
  numText : Num → Str
  toVec : Json Num → WireBytes
  fromSlice : WireBytes → Option (Json Num)
  topLevel : WireBytes → Option TopLevel

/-- The text without blanks, and the reading of the texts in two tables. -/
def SerdeJson.ofTables (values : List (Json Unit)) (texts : List (WireBytes × TopLevel)) :
    SerdeJson where
  Num := Unit
  numText _ := "0".toList
  toVec v := utf8 (v.compact fun _ => "0".toList)
  fromSlice bytes := values.find? fun v => decide (utf8 (v.compact fun _ => "0".toList) = bytes)
  topLevel bytes := texts.lookup bytes

inductive Request
  | status
  | pause
  | resume
  | restoreClipboard
  | sessionLs
  | sessionClear
  deriving DecidableEq, Repr

namespace Request

def wireVerb : Request → Str
  | status => "status".toList
  | pause => "pause".toList
  | resume => "resume".toList
  | restoreClipboard => "restore-clipboard".toList
  | sessionLs => "session-ls".toList
  | sessionClear => "session-clear".toList

def fromWireVerb (cmd : Str) : Option Request :=
  if cmd = "status".toList then some status
  else if cmd = "pause".toList then some pause
  else if cmd = "resume".toList then some resume
  else if cmd = "restore-clipboard".toList then some restoreClipboard
  else if cmd = "session-ls".toList then some sessionLs
  else if cmd = "session-clear".toList then some sessionClear
  else none

def toValue {Num : Type} (request : Request) : Json Num :=
  .object [("cmd".toList, .string request.wireVerb)]

def toBytes (S : SerdeJson) (request : Request) : WireBytes := S.toVec request.toValue

end Request

/-- `visit_map`: a second `cmd` is an error, as is one that is no string; other keys are
skipped, and at the end there must have been a `cmd`. -/
def visitMap : Option Str → List (Str × Option Str) → Option Str
  | cmd, [] => cmd
  | cmd, (key, value) :: members =>
    if key = "cmd".toList then
      match cmd with
      | some _ => none
      | none =>
        match value with
        | some s => visitMap (some s) members
        | none => none
    else visitMap cmd members

/-- `visit_seq`: the first item is `cmd`, and then the array must be over. -/
def visitSeq : List (Option Str) → Option Str
  | [some s] => some s
  | _ => none

def TopLevel.raw : TopLevel → Option Str
  | object members => visitMap none members
  | array items => visitSeq items
  | other => none

def Request.fromBytes (S : SerdeJson) (bytes : WireBytes) : Except ControlError Request :=
  match (S.topLevel bytes).bind TopLevel.raw with
  | none => .error .badJson
  | some cmd =>
    match Request.fromWireVerb cmd with
    | some request => .ok request
    | none => .error (.unknownCmd cmd)

inductive ErrorKind
  | notImplemented
  | frameTooLarge
  | badJson
  | unknownCmd
  | badArgs
  | internal
  deriving DecidableEq, Repr

namespace ErrorKind

def asStr : ErrorKind → Str
  | notImplemented => "not-implemented".toList
  | frameTooLarge => "frame-too-large".toList
  | badJson => "bad-json".toList
  | unknownCmd => "unknown-cmd".toList
  | badArgs => "bad-args".toList
  | internal => "internal".toList

def fromWireStr (s : Str) : Option ErrorKind :=
  if s = "not-implemented".toList then some notImplemented
  else if s = "frame-too-large".toList then some frameTooLarge
  else if s = "bad-json".toList then some badJson
  else if s = "unknown-cmd".toList then some unknownCmd
  else if s = "bad-args".toList then some badArgs
  else if s = "internal".toList then some internal
  else none

end ErrorKind

structure ErrorPayload where
  kind : ErrorKind
  message : Str
  deriving DecidableEq

inductive Response (Num : Type)
  | ok (data : Json Num)
  | err (payload : ErrorPayload)

namespace Response

variable {Num : Type}

/-- The members of an object are sorted by key. -/
def toValue : Response Num → Json Num
  | ok data => .object [("data".toList, data), ("ok".toList, .bool true)]
  | err payload => .object [("error".toList, .object [("kind".toList, .string payload.kind.asStr),
      ("message".toList, .string payload.message)]), ("ok".toList, .bool false)]

def fromValue (value : Json Num) : Except ControlError (Response Num) :=
  match (value.get "ok".toList).bind Json.asBool with
  | some true => .ok (ok ((value.get "data".toList).getD .null))
  | some false =>
    match value.get "error".toList with
    | none => .error (.badJsonResponse (some "ok=false but no error object".toList))
    | some error =>
      match (error.get "kind".toList).bind Json.asStr with
      | none => .error (.badJsonResponse (some "error.kind missing or not a string".toList))
      | some kindStr => .ok (err ⟨(ErrorKind.fromWireStr kindStr).getD .internal,
          ((error.get "message".toList).bind Json.asStr).getD []⟩)
  | none => .error (.badJsonResponse (some "response missing ok field".toList))

def toBytes (S : SerdeJson) (response : Response S.Num) : WireBytes := S.toVec response.toValue

def fromBytes (S : SerdeJson) (bytes : WireBytes) : Except ControlError (Response S.Num) :=
  match S.fromSlice bytes with
  | none => .error (.badJsonResponse none)
  | some value => fromValue value

end Response

/-- `u32::to_be_bytes`, of the number cut to 32 bits. -/
def toBeBytes (n : Nat) : WireBytes :=
  [UInt8.ofNat (n / 2 ^ 24), UInt8.ofNat (n / 2 ^ 16), UInt8.ofNat (n / 2 ^ 8), UInt8.ofNat n]

/-- `u32::from_be_bytes`. -/
def fromBeBytes (bytes : WireBytes) : Nat := bytes.foldl (fun n b => n * 256 + b.toNat) 0

def readError : Option IoError → ControlError
  | none => .io .unexpectedEof
  | some e => .io e

/-- What `read_frame` returns, what it leaves of the stream, and the size of the body buffer that
it has allocated. -/
structure FrameRead where
  result : Except ControlError WireBytes
  rest : Reader IoError
  buffered : Nat

def readFrame (r : Reader IoError) : FrameRead :=
  match readExact 4 r with
  | (.error e, r) => ⟨.error (readError e), r, 0⟩
  | (.ok lenbuf, r) =>
    let len := fromBeBytes lenbuf
    if maxFrameBytes < len then ⟨.error (.frameTooLarge len maxFrameBytes), r, 0⟩
    else
      match readExact len r with
      | (.error e, r) => ⟨.error (readError e), r, len⟩
      | (.ok body, r) => ⟨.ok body, r, len⟩

/-- What `write_frame` returns, and the bytes that it has written. -/
def writeFrame (body : WireBytes) : Except ControlError Unit × WireBytes :=
  if maxFrameBytes < body.length then (.error (.frameTooLarge body.length maxFrameBytes), [])
  else (.ok (), toBeBytes body.length ++ body)

section Ends

variable (S : SerdeJson)

/-- The response to what `read_frame` has returned, and the requests that the handler has been
called with. -/
def answer (handler : Request → Response S.Num) :
    Except ControlError WireBytes → Except ControlError (Response S.Num) × List Request
  | .ok body =>
    match Request.fromBytes S body with
    | .ok request => (.ok (handler request), [request])
    | .error .badJson => (.ok (.err ⟨.badJson,
        "request body was not valid JSON matching the cmd schema".toList⟩), [])
    | .error (.unknownCmd cmd) => (.ok (.err ⟨.unknownCmd,
        "no handler for cmd `".toList ++ cmd ++ "`".toList⟩), [])
    | .error other => (.error other, [])
  | .error (.frameTooLarge actual max) => (.ok (.err ⟨.frameTooLarge,
      "frame size ".toList ++ (Nat.repr actual).toList ++ " exceeds max frame size ".toList ++
        (Nat.repr max).toList⟩), [])
  | .error other => (.error other, [])

variable {S} {handler : Request → Response S.Num} {body : WireBytes}

lemma answer_request {request : Request} (h : Request.fromBytes S body = .ok request) :
    answer S handler (.ok body) = (.ok (handler request), [request]) := by
  unfold answer
  dsimp only
  rw [h]

lemma answer_badJson (h : Request.fromBytes S body = .error .badJson) :
    answer S handler (.ok body) = (.ok (.err ⟨.badJson,
      "request body was not valid JSON matching the cmd schema".toList⟩), []) := by
  unfold answer
  dsimp only
  rw [h]

lemma answer_unknownCmd {cmd : Str} (h : Request.fromBytes S body = .error (.unknownCmd cmd)) :
    answer S handler (.ok body) = (.ok (.err ⟨.unknownCmd,
      "no handler for cmd `".toList ++ cmd ++ "`".toList⟩), []) := by
  unfold answer
  dsimp only
  rw [h]

variable (S)

/-- What `serve_one` returns, the bytes that it has written, and the calls of the handler. -/
structure Served where
  result : Except ControlError Unit
  written : WireBytes
  calls : List Request

def serveOne (conn : Reader IoError) (handler : Request → Response S.Num) : Served :=
  match answer S handler (readFrame conn).result with
  | (.error e, calls) => ⟨.error e, [], calls⟩
  | (.ok response, calls) => ⟨(writeFrame (response.toBytes S)).1,
      (writeFrame (response.toBytes S)).2, calls⟩

/-- `dial_once` on a connected stream: what it returns, and the bytes that it has written. -/
def dialOnce (stream : Reader IoError) (request : Request) :
    Except ControlError (Response S.Num) × WireBytes :=
  match writeFrame (request.toBytes S) with
  | (.error e, written) => (.error e, written)
  | (.ok (), written) =>
    match (readFrame stream).result with
    | .error e => (.error e, written)
    | .ok body => (Response.fromBytes S body, written)

end Ends

end Invisibool.Control
