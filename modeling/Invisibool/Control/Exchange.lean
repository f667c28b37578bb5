import Invisibool.Control.Framing

/-!
# One request and its response

The two ends of a connection, each reading what the other has written.
-/

namespace Invisibool.Control
open Text Stream

variable {S : SerdeJson}

lemma fromWireVerb_wireVerb (request : Request) :
    Request.fromWireVerb request.wireVerb = some request := by
  cases request <;> decide

lemma fromWireStr_asStr (kind : ErrorKind) : ErrorKind.fromWireStr kind.asStr = some kind := by
  cases kind <;> decide

/-- `from_bytes` undoes `to_bytes`, as far as the JSON values are concerned. -/
lemma fromValue_toValue {Num : Type} (response : Response Num) :
    Response.fromValue response.toValue = .ok response := by
  cases response with
  | ok data => rfl
  | err payload =>
    have hok : (Response.toValue (.err payload) : Json Num).get "ok".toList = some (.bool false) := rfl
    have herror : (Response.toValue (.err payload) : Json Num).get "error".toList = some (.object
        [("kind".toList, .string payload.kind.asStr), ("message".toList, .string payload.message)]) :=
      rfl
    unfold Response.fromValue
    rw [hok, herror]
    change Except.ok (Response.err
      ⟨(ErrorKind.fromWireStr payload.kind.asStr).getD .internal, payload.message⟩) = _
    rw [fromWireStr_asStr]
    rfl

/-- The text of a request is short. -/
lemma byteLen_request (request : Request) {Num : Type} (num : Num → Str) :
    byteLen (request.toValue.compact num) ≤ maxFrameBytes := by
  change byteLen ('\x7b' :: (Json.quoted "cmd".toList ++ ':' :: Json.quoted request.wireVerb) ++
    ['\x7d']) ≤ _
  cases request <;> decide

lemma request_fits {request : Request}
    (hprints : request.toBytes S = utf8 (request.toValue.compact S.numText)) :
    (request.toBytes S).length ≤ maxFrameBytes := by
  rw [hprints, length_utf8]
  exact byteLen_request request S.numText

lemma fromBytes_request {request : Request} (hreads : S.topLevel (request.toBytes S) =
    some (.object [("cmd".toList, some request.wireVerb)])) :
    Request.fromBytes S (request.toBytes S) = .ok request := by
  have hraw : (TopLevel.object [("cmd".toList, some request.wireVerb)]).raw =
      some request.wireVerb := rfl
  unfold Request.fromBytes
  rw [hreads, Option.bind_some, hraw]
  dsimp only
  rw [fromWireVerb_wireVerb]

/-- `serde_json` writes the request as it does, and reads the request and its response back as
what they were; and the response is no longer than a frame. -/
structure Channel (S : SerdeJson) (handler : Request → Response S.Num) (request : Request) :
    Prop where
  prints : request.toBytes S = utf8 (request.toValue.compact S.numText)
  known : S.topLevel (request.toBytes S) =
    some (.object [("cmd".toList, some request.wireVerb)])
  response : S.fromSlice ((handler request).toBytes S) = some (handler request).toValue
  fits : ((handler request).toBytes S).length ≤ maxFrameBytes

namespace Channel

variable {request : Request} {handler : Request → Response S.Num}

lemma fromBytes (h : Channel S handler request) :
    Response.fromBytes S ((handler request).toBytes S) = .ok (handler request) := by
  unfold Response.fromBytes
  rw [h.response]
  exact fromValue_toValue (handler request)

/-- A server that is asked calls its handler, and writes the response. -/
lemma serveOne_eq (h : Channel S handler request) {conn rest : Reader IoError}
    (hconn : Delivers conn (toBeBytes (request.toBytes S).length ++ request.toBytes S) rest) :
    serveOne S conn handler =
      ⟨.ok (), toBeBytes ((handler request).toBytes S).length ++ (handler request).toBytes S,
        [request]⟩ := by
  rw [← List.append_nil (_ ++ _)] at hconn
  obtain ⟨r', hread, -⟩ := readFrame_eq (request_fits h.prints) hconn
  unfold serveOne
  rw [hread]
  dsimp only
  rw [answer_request (fromBytes_request h.known)]
  dsimp only
  rw [writeFrame_fits h.fits]

end Channel

/-- What the channel carries comes out as it went in: requests and responses, whole lists of
frames, and nothing that is longer than a frame may be. -/
structure RoundTrips (S : SerdeJson) (request : Request) (handler : Request → Response S.Num) :
    Prop where
  exchange : ∀ server client rest rest',
    Delivers server (dialOnce S client request).2 rest →
    Delivers client (serveOne S server handler).written rest' →
    (dialOnce S client request).1 = .ok (handler request) ∧
      (serveOne S server handler).calls = [request] ∧ (serveOne S server handler).result = .ok ()
  frames : ∀ (bodies : List WireBytes) (tail : WireBytes) (r rest : Reader IoError),
    (∀ body ∈ bodies, body.length ≤ maxFrameBytes) →
    Delivers r (writeFrames bodies ++ tail) rest →
    ∃ r', readFrames bodies.length r = (.ok bodies, r') ∧ Delivers r' tail rest
  oversize : ∀ body : WireBytes, maxFrameBytes < body.length →
    writeFrame body = (.error (.frameTooLarge body.length maxFrameBytes), [])
  bounded : ∀ r : Reader IoError, (readFrame r).buffered ≤ maxFrameBytes ∧
    ∀ body, (readFrame r).result = .ok body → body.length ≤ maxFrameBytes

/-- The round trip of the control channel, when `serde_json` writes the request as it does, and
reads the request and the response back as what they were. -/
theorem control_roundTrip {request : Request} {handler : Request → Response S.Num}
    (hprints : request.toBytes S = utf8 (request.toValue.compact S.numText))
    (hrequest : S.topLevel (request.toBytes S) =
      some (.object [("cmd".toList, some request.wireVerb)]))
    (hresponse : S.fromSlice ((handler request).toBytes S) = some (handler request).toValue)
    (hfits : ((handler request).toBytes S).length ≤ maxFrameBytes) :
    RoundTrips S request handler where
  exchange server client rest rest' hserver hclient := by
    have hchannel : Channel S handler request := ⟨hprints, hrequest, hresponse, hfits⟩
    have hshort : (request.toBytes S).length ≤ maxFrameBytes := request_fits hprints
    have hsent : (dialOnce S client request).2 =
        toBeBytes (request.toBytes S).length ++ request.toBytes S := by
      unfold dialOnce
      rw [writeFrame_fits hshort]
      dsimp only
      split <;> rfl
    rw [hsent] at hserver
    have hserved := hchannel.serveOne_eq hserver
    rw [hserved] at hclient ⊢
    dsimp only at hclient ⊢
    rw [← List.append_nil (_ ++ _)] at hclient
    obtain ⟨r', hreply, -⟩ := readFrame_eq hfits hclient
    refine ⟨?_, rfl, rfl⟩
    unfold dialOnce
    rw [writeFrame_fits hshort, hreply]
    exact hchannel.fromBytes
  frames _ _ _ _ hlen h := readFrames_writeFrames hlen h
  oversize _ h := writeFrame_oversize h
  bounded r := readFrame_bounded r

/-- What a daemon that runs answers to `status`. -/
def runningResponse : Response Unit := .ok (.object [("running".toList, .bool true)])

def statusSerde : SerdeJson :=
  .ofTables [runningResponse.toValue] [(utf8 "\x7b\"cmd\":\"status\"\x7d".toList,
    .object [("cmd".toList, some "status".toList)])]

theorem control_roundTrip_status :
    RoundTrips statusSerde .status fun _ => runningResponse :=
  control_roundTrip rfl (by decide +kernel) (by simp [statusSerde, SerdeJson.ofTables, Response.toBytes])
    (by decide +kernel)

end Invisibool.Control
