import Invisibool.Control.Exchange
import Mathlib.Data.Nat.Digits.Defs

/-!
# Every framed request is answered

What `serve_one` does with a length and the body behind it, and when that is the answer that the
protocol promises. The reply to an unknown command repeats the command and may grow too long for a
frame; an array with one string passes for a request; and the peer gives up on a reply that is
nested too deep.
-/

namespace Invisibool.Control
open Text Stream

/-- What has come in: a length that is too large, or one with its body behind it. -/
inductive Incoming
  | oversize (len : Nat)
  | body (bytes : WireBytes)

def Arrives (r : Reader IoError) : Incoming → Prop
  | .oversize len => maxFrameBytes < len ∧ len < 2 ^ 32 ∧ ∃ rest, Delivers r (toBeBytes len) rest
  | .body bytes => bytes.length ≤ maxFrameBytes ∧
      ∃ rest, Delivers r (toBeBytes bytes.length ++ bytes) rest

def Response.kind {Num : Type} : Response Num → Option ErrorKind
  | ok _ => none
  | err payload => some payload.kind

section Answers

variable (S : SerdeJson) (handler : Request → Response S.Num)

/-- The body is a JSON object with a single `cmd`, which is a string. -/
def CmdObject (bytes : WireBytes) (cmd : Str) : Prop :=
  ∃ members, S.topLevel bytes = some (.object members) ∧
    (members.filter fun m => m.1 = "cmd".toList) = [("cmd".toList, some cmd)]

/-- The response that is due, and the calls of the handler. -/
def Due : Incoming → Response S.Num → List Request → Prop
  | .oversize _, response, calls => response.kind = some .frameTooLarge ∧ calls = []
  | .body bytes, response, calls =>
    ((∀ cmd, ¬CmdObject S bytes cmd) → response.kind = some .badJson ∧ calls = []) ∧
    ∀ cmd, CmdObject S bytes cmd →
      (Request.fromWireVerb cmd = none → response.kind = some .unknownCmd ∧ calls = []) ∧
      ∀ request, Request.fromWireVerb cmd = some request →
        response = handler request ∧ calls = [request]

/-- One frame has been written that the peer can read, with the response that is due. -/
def Answered (incoming : Incoming) (served : Served) : Prop :=
  served.result = .ok () ∧ ∃ response decoded,
    (response.toBytes S).length ≤ maxFrameBytes ∧
    served.written = toBeBytes (response.toBytes S).length ++ response.toBytes S ∧
    Response.fromBytes S (response.toBytes S) = .ok decoded ∧ decoded.kind = response.kind ∧
    Due S handler incoming response served.calls

/-- The bytes that an unknown command may have in quotes, for the reply to fit in a frame. -/
def echoRoom : Nat := maxFrameBytes - 77

/-- The body is not an array of one string, an unknown command leaves room for the rest of the
reply, and the response of the handler nests no deeper than `serde_json` reads. -/
def Answerable : Incoming → Prop
  | .oversize _ => True
  | .body bytes =>
    (∀ s, S.topLevel bytes ≠ some (.array [some s])) ∧
    ∀ cmd, CmdObject S bytes cmd →
      (Request.fromWireVerb cmd = none → byteLen (Json.escape cmd) ≤ echoRoom) ∧
      ∀ request, Request.fromWireVerb cmd = some request →
        (handler request).toValue.depth ≤ 127

/-- `to_vec` writes the text without blanks. -/
def SerdeJson.Prints (v : Json S.Num) : Prop := S.toVec v = utf8 (v.compact S.numText)

/-- `from_slice` reads what `to_vec` has written, its numbers maybe rounded, unless it is nested
deeper than 127 levels. -/
def SerdeJson.Reads (v : Json S.Num) : Prop :=
  if v.depth ≤ 127 then ∃ v', S.fromSlice (S.toVec v) = some v' ∧ v'.outline = v.outline
  else S.fromSlice (S.toVec v) = none

end Answers

variable {S : SerdeJson} {handler : Request → Response S.Num} {bytes : WireBytes} {cmd : Str}

/-! ### The derived deserializer -/

lemma visitMap_some {s : Str} {members : List (Str × Option Str)} :
    visitMap (some s) members = some cmd ↔
      (members.filter fun m => m.1 = "cmd".toList) = [] ∧ s = cmd := by
  induction members with
  | nil => simp [visitMap]
  | cons m members ih =>
    obtain ⟨key, value⟩ := m
    by_cases hm : key = "cmd".toList
    · rw [visitMap.eq_def]
      dsimp only
      rw [if_pos hm, List.filter_cons_of_pos (by simpa using hm)]
      simp
    · rw [visitMap.eq_def]
      dsimp only
      rw [if_neg hm, List.filter_cons_of_neg (by simpa using hm)]
      exact ih

lemma visitMap_none {members : List (Str × Option Str)} : visitMap none members = some cmd ↔
    (members.filter fun m => m.1 = "cmd".toList) = [("cmd".toList, some cmd)] := by
  induction members with
  | nil => simp [visitMap]
  | cons m members ih =>
    obtain ⟨key, value⟩ := m
    by_cases hm : key = "cmd".toList
    · rw [visitMap.eq_def]
      dsimp only
      rw [if_pos hm, List.filter_cons_of_pos (by simpa using hm)]
      subst hm
      cases value with
      | none => simp
      | some s =>
        dsimp only
        rw [visitMap_some]
        simp [and_comm]
    · rw [visitMap.eq_def]
      dsimp only
      rw [if_neg hm, List.filter_cons_of_neg (by simpa using hm)]
      exact ih

lemma raw_eq_some : (S.topLevel bytes).bind TopLevel.raw = some cmd ↔
    CmdObject S bytes cmd ∨ S.topLevel bytes = some (.array [some cmd]) := by
  unfold CmdObject
  cases S.topLevel bytes with
  | none => simp
  | some top =>
    rw [Option.bind_some]
    cases top with
    | object members =>
      change visitMap none members = some cmd ↔ _
      rw [visitMap_none]
      simp
    | array items =>
      change visitSeq items = some cmd ↔ _
      match items with
      | [] => simp [visitSeq]
      | [none] => simp [visitSeq]
      | [some s] => simp [visitSeq]
      | _ :: _ :: _ => simp [visitSeq]
    | other => simp [TopLevel.raw]

/-! ### Replies -/

lemma byteLen_error (kind : ErrorKind) (message : Str) {Num : Type} (num : Num → Str) :
    byteLen ((Response.err ⟨kind, message⟩).toValue.compact num) =
      byteLen (Json.escape kind.asStr) + byteLen (Json.escape message) + 45 := by
  change byteLen ('\x7b' :: (Json.quoted "error".toList ++ ':' :: ('\x7b' ::
    (Json.quoted "kind".toList ++ ':' :: Json.quoted kind.asStr ++ ',' ::
      (Json.quoted "message".toList ++ ':' :: Json.quoted message)) ++ ['\x7d']) ++ ',' ::
      (Json.quoted "ok".toList ++ ':' :: "false".toList)) ++ ['\x7d']) = _
  have herror : byteLen (Json.quoted "error".toList) = 7 := by decide
  have hkind : byteLen (Json.quoted "kind".toList) = 6 := by decide
  have hmessage : byteLen (Json.quoted "message".toList) = 9 := by decide
  have hok : byteLen (Json.quoted "ok".toList ++ ':' :: "false".toList) = 10 := by decide
  have hquoted : ∀ s, byteLen (Json.quoted s) = byteLen (Json.escape s) + 2 := by
    intro s
    rw [Json.quoted, List.cons_append, byteLen_cons, byteLen_append]
    change 1 + (byteLen (Json.escape s) + 1) = _
    omega
  have hone : Char.utf8Size '\x7b' = 1 ∧ Char.utf8Size '\x7d' = 1 ∧ Char.utf8Size ':' = 1 ∧
      Char.utf8Size ',' = 1 := by decide
  simp only [byteLen_append, byteLen_cons, byteLen_nil, herror, hkind, hmessage, hquoted kind.asStr,
    hquoted message, hone] at hok ⊢
  omega

/-- An error reply has no numbers that could be rounded. -/
lemma eq_error_of_outline {Num : Type} {v : Json Num} {payload : ErrorPayload}
    (h : v.outline = (Response.err payload : Response Num).toValue.outline) :
    v = (Response.err payload).toValue := by
  obtain ⟨members, rfl, hmembers⟩ := Json.eq_object_of_outline h
  obtain ⟨error, members, rfl, herror, hmembers⟩ := Json.eq_cons_of_outlineMembers hmembers
  obtain ⟨ok, members, rfl, hok, hmembers⟩ := Json.eq_cons_of_outlineMembers hmembers
  obtain rfl := Json.eq_nil_of_outlineMembers hmembers
  obtain rfl := Json.eq_bool_of_outline hok
  obtain ⟨fields, rfl, hfields⟩ := Json.eq_object_of_outline herror
  obtain ⟨kind, fields, rfl, hkind, hfields⟩ := Json.eq_cons_of_outlineMembers hfields
  obtain ⟨message, fields, rfl, hmessage, hfields⟩ := Json.eq_cons_of_outlineMembers hfields
  obtain rfl := Json.eq_nil_of_outlineMembers hfields
  obtain rfl := Json.eq_string_of_outline hkind
  obtain rfl := Json.eq_string_of_outline hmessage
  rfl

/-- The peer reads an error reply as what it is. -/
lemma fromBytes_error {payload : ErrorPayload}
    (hreads : S.Reads (Response.err payload : Response S.Num).toValue) :
    Response.fromBytes S ((Response.err payload : Response S.Num).toBytes S) =
      .ok (.err payload) := by
  have hdepth : (Response.err payload : Response S.Num).toValue.depth ≤ 127 := by
    change 2 ≤ 127
    decide
  unfold SerdeJson.Reads at hreads
  rw [if_pos hdepth] at hreads
  obtain ⟨v, hslice, houtline⟩ := hreads
  unfold Response.fromBytes Response.toBytes
  rw [hslice, eq_error_of_outline houtline]
  exact fromValue_toValue _

/-- The peer reads a success if it is not nested too deep. -/
lemma fromBytes_ok_iff {data : Json S.Num}
    (hreads : S.Reads (Response.ok data : Response S.Num).toValue) :
    (∃ decoded, Response.fromBytes S ((Response.ok data : Response S.Num).toBytes S) = .ok decoded ∧
      decoded.kind = none) ↔ (Response.ok data : Response S.Num).toValue.depth ≤ 127 := by
  unfold SerdeJson.Reads at hreads
  unfold Response.fromBytes Response.toBytes
  by_cases hdepth : (Response.ok data : Response S.Num).toValue.depth ≤ 127
  · rw [if_pos hdepth] at hreads
    obtain ⟨v, hslice, houtline⟩ := hreads
    obtain ⟨members, rfl, hmembers⟩ := Json.eq_object_of_outline houtline
    obtain ⟨data', members, rfl, -, hmembers⟩ := Json.eq_cons_of_outlineMembers hmembers
    obtain ⟨ok, members, rfl, hok, hmembers⟩ := Json.eq_cons_of_outlineMembers hmembers
    obtain rfl := Json.eq_nil_of_outlineMembers hmembers
    obtain rfl := Json.eq_bool_of_outline hok
    rw [hslice]
    exact iff_of_true ⟨.ok data', rfl, rfl⟩ hdepth
  · rw [if_neg hdepth] at hreads
    rw [hreads]
    refine iff_of_false ?_ hdepth
    rintro ⟨decoded, h, -⟩
    cases h

lemma serveOne_fits {conn : Reader IoError} {response : Response S.Num} {calls : List Request}
    (hanswer : answer S handler (readFrame conn).result = (.ok response, calls))
    (hfits : (response.toBytes S).length ≤ maxFrameBytes) :
    serveOne S conn handler =
      ⟨.ok (), toBeBytes (response.toBytes S).length ++ response.toBytes S, calls⟩ := by
  unfold serveOne
  rw [hanswer]
  dsimp only
  rw [writeFrame_fits hfits]

lemma not_answered_oversize {conn : Reader IoError} {response : Response S.Num}
    {calls : List Request} {incoming : Incoming}
    (hanswer : answer S handler (readFrame conn).result = (.ok response, calls))
    (hlong : maxFrameBytes < (response.toBytes S).length) :
    ¬Answered S handler incoming (serveOne S conn handler) := by
  rintro ⟨hresult, -⟩
  unfold serveOne at hresult
  rw [hanswer] at hresult
  dsimp only at hresult
  rw [writeFrame_oversize hlong] at hresult
  cases hresult

/-- What has been answered is the response whose bytes stand in the frame. -/
lemma answered_frame {incoming : Incoming} {sent : WireBytes} {calls : List Request}
    (hfits : sent.length ≤ maxFrameBytes) :
    Answered S handler incoming ⟨.ok (), toBeBytes sent.length ++ sent, calls⟩ ↔
      ∃ response decoded, response.toBytes S = sent ∧ Response.fromBytes S sent = .ok decoded ∧
        decoded.kind = response.kind ∧ Due S handler incoming response calls := by
  constructor
  · rintro ⟨-, response, decoded, -, hwritten, hdecoded, hkind, hdue⟩
    have hsent : sent = response.toBytes S := (List.append_inj hwritten rfl).2
    exact ⟨response, decoded, hsent.symm, hsent ▸ hdecoded, hkind, hdue⟩
  · rintro ⟨response, decoded, rfl, hdecoded, hkind, hdue⟩
    exact ⟨rfl, response, decoded, hfits, rfl, hdecoded, hkind, hdue⟩

/-- An error reply that fits is the answer if its kind is the one that is due. -/
lemma answered_error {conn : Reader IoError} {payload : ErrorPayload} {calls : List Request}
    {incoming : Incoming}
    (hanswer : answer S handler (readFrame conn).result = (.ok (.err payload), calls))
    (hreads : S.Reads (Response.err payload : Response S.Num).toValue)
    (hfits : ((Response.err payload : Response S.Num).toBytes S).length ≤ maxFrameBytes)
    (hdue : Due S handler incoming (.err payload) calls) :
    Answered S handler incoming (serveOne S conn handler) := by
  rw [serveOne_fits hanswer hfits, answered_frame hfits]
  exact ⟨.err payload, .err payload, rfl, fromBytes_error hreads, rfl, hdue⟩

/-! ### The three cases of a body -/

lemma fromBytes_none (h : (S.topLevel bytes).bind TopLevel.raw = none) :
    Request.fromBytes S bytes = .error .badJson := by
  unfold Request.fromBytes
  rw [h]

lemma fromBytes_unknown (h : (S.topLevel bytes).bind TopLevel.raw = some cmd)
    (hverb : Request.fromWireVerb cmd = none) :
    Request.fromBytes S bytes = .error (.unknownCmd cmd) := by
  unfold Request.fromBytes
  rw [h]
  dsimp only
  rw [hverb]

lemma fromBytes_known (h : (S.topLevel bytes).bind TopLevel.raw = some cmd) {request : Request}
    (hverb : Request.fromWireVerb cmd = some request) :
    Request.fromBytes S bytes = .ok request := by
  unfold Request.fromBytes
  rw [h]
  dsimp only
  rw [hverb]

lemma length_error {payload : ErrorPayload}
    (hprints : S.Prints (Response.err payload : Response S.Num).toValue) :
    ((Response.err payload : Response S.Num).toBytes S).length =
      byteLen (Json.escape payload.kind.asStr) + byteLen (Json.escape payload.message) + 45 := by
  unfold Response.toBytes
  rw [hprints, length_utf8]
  exact byteLen_error payload.kind payload.message S.numText

lemma length_echo {cmd : Str}
    (hprints : S.Prints (Response.err ⟨.unknownCmd, "no handler for cmd `".toList ++ cmd ++
      "`".toList⟩ : Response S.Num).toValue) :
    ((Response.err ⟨.unknownCmd, "no handler for cmd `".toList ++ cmd ++ "`".toList⟩ :
      Response S.Num).toBytes S).length = byteLen (Json.escape cmd) + 77 := by
  have hkind : byteLen (Json.escape ErrorKind.unknownCmd.asStr) = 11 := by decide
  have hbefore : byteLen (Json.escape "no handler for cmd `".toList) = 20 := by decide
  have hafter : byteLen (Json.escape "`".toList) = 1 := by decide
  rw [length_error hprints]
  simp only [Json.escape_append, byteLen_append, hkind, hbefore, hafter]
  omega

lemma byteLen_le_length (s : Str) : byteLen s ≤ 4 * s.length := by
  induction s with
  | nil => rfl
  | cons c s ih =>
    have hc := c.utf8Size_le_four
    rw [byteLen_cons, List.length_cons]
    omega

/-- A number of 32 bits has at most ten digits. -/
lemma byteLen_repr_le {n : Nat} (h : n < 2 ^ 32) : byteLen (Nat.repr n).toList ≤ 40 := by
  have hlen : (Nat.repr n).length ≤ 10 := Nat.repr_length n 10 (by decide) (by omega)
  refine (byteLen_le_length _).trans ?_
  rw [String.length_toList]
  omega

lemma answered_oversize {conn : Reader IoError} {n : Nat} (hlarge : maxFrameBytes < n)
    (hsmall : n < 2 ^ 32)
    (hread : (readFrame conn).result = .error (.frameTooLarge n maxFrameBytes))
    (hsent : ∀ response calls, answer S handler (readFrame conn).result = (.ok response, calls) →
      S.Reads response.toValue ∧ (response.kind ≠ none → S.Prints response.toValue)) :
    Answered S handler (.oversize n) (serveOne S conn handler) := by
  have hanswer : answer S handler (readFrame conn).result = (.ok (.err ⟨.frameTooLarge,
      "frame size ".toList ++ (Nat.repr n).toList ++ " exceeds max frame size ".toList ++
        (Nat.repr maxFrameBytes).toList⟩), []) := by
    rw [hread]
    rfl
  obtain ⟨hreads, hprints⟩ := hsent _ _ hanswer
  apply answered_error hanswer hreads
  · have hkind : byteLen (Json.escape ErrorKind.frameTooLarge.asStr) = 15 := by decide
    have hbefore : byteLen "frame size ".toList = 11 := by decide
    have hbetween : byteLen " exceeds max frame size ".toList = 24 := by decide
    have hn := byteLen_repr_le hsmall
    have hmax : byteLen (Nat.repr maxFrameBytes).toList ≤ 40 := byteLen_repr_le (by decide)
    have hescape := Json.byteLen_escape_le ("frame size ".toList ++ (Nat.repr n).toList ++
      " exceeds max frame size ".toList ++ (Nat.repr maxFrameBytes).toList)
    have hlen := length_error (hprints (by simp [Response.kind]))
    have hcap : 65536 ≤ maxFrameBytes := by decide
    simp only [byteLen_append, hkind, hbefore, hbetween] at hescape hlen
    omega
  · exact ⟨rfl, rfl⟩

lemma CmdObject.unique {cmd' : Str} (h : CmdObject S bytes cmd) (h' : CmdObject S bytes cmd') :
    cmd' = cmd := by
  have hraw := raw_eq_some.mpr (.inl h)
  rw [raw_eq_some.mpr (.inl h'), Option.some.injEq] at hraw
  exact hraw

lemma CmdObject.not_array (h : CmdObject S bytes cmd) (s : Str) :
    S.topLevel bytes ≠ some (.array [some s]) := by
  obtain ⟨members, hmembers, -⟩ := h
  rw [hmembers]
  simp

lemma not_cmdObject_of_array {s : Str} (h : S.topLevel bytes = some (.array [some s])) (cmd : Str) :
    ¬CmdObject S bytes cmd := fun hobject => hobject.not_array s h

lemma fromBytes_iff {response : Response S.Num} (hreads : S.Reads response.toValue) :
    (∃ decoded, Response.fromBytes S (response.toBytes S) = .ok decoded ∧
      decoded.kind = response.kind) ↔ response.toValue.depth ≤ 127 := by
  cases response with
  | ok data => exact fromBytes_ok_iff hreads
  | err payload =>
    have hdepth : (Response.err payload : Response S.Num).toValue.depth = 2 := rfl
    rw [hdepth]
    exact iff_of_true ⟨.err payload, fromBytes_error hreads, rfl⟩ (by decide)

section Bodies

variable {conn : Reader IoError}

lemma answered_iff_of_none (hread : (readFrame conn).result = .ok bytes)
    (hraw : (S.topLevel bytes).bind TopLevel.raw = none)
    (hsent : ∀ response calls, answer S handler (readFrame conn).result = (.ok response, calls) →
      S.Reads response.toValue ∧ (response.kind ≠ none → S.Prints response.toValue)) :
    Answered S handler (.body bytes) (serveOne S conn handler) ↔
      Answerable S handler (.body bytes) := by
  have hobject : ∀ cmd, ¬CmdObject S bytes cmd := by
    intro cmd h
    rw [raw_eq_some.mpr (.inl h)] at hraw
    cases hraw
  have harray : ∀ s, S.topLevel bytes ≠ some (.array [some s]) := by
    intro s h
    rw [raw_eq_some.mpr (.inr h)] at hraw
    cases hraw
  have hanswer : answer S handler (readFrame conn).result = (.ok (.err ⟨.badJson,
      "request body was not valid JSON matching the cmd schema".toList⟩), []) := by
    rw [hread]
    exact answer_badJson (fromBytes_none hraw)
  obtain ⟨hreads, hprints⟩ := hsent _ _ hanswer
  refine iff_of_true (answered_error hanswer hreads ?_ ?_)
    ⟨harray, fun cmd h => absurd h (hobject cmd)⟩
  · rw [length_error (hprints (by simp [Response.kind]))]
    decide
  · exact ⟨fun _ => ⟨rfl, rfl⟩, fun cmd h => absurd h (hobject cmd)⟩

lemma answered_iff_of_unknown (hread : (readFrame conn).result = .ok bytes)
    (hraw : (S.topLevel bytes).bind TopLevel.raw = some cmd)
    (hverb : Request.fromWireVerb cmd = none)
    (hsent : ∀ response calls, answer S handler (readFrame conn).result = (.ok response, calls) →
      S.Reads response.toValue ∧ (response.kind ≠ none → S.Prints response.toValue)) :
    Answered S handler (.body bytes) (serveOne S conn handler) ↔
      Answerable S handler (.body bytes) := by
  have hanswer : answer S handler (readFrame conn).result = (.ok (.err ⟨.unknownCmd,
      "no handler for cmd `".toList ++ cmd ++ "`".toList⟩), []) := by
    rw [hread]
    exact answer_unknownCmd (fromBytes_unknown hraw hverb)
  obtain ⟨hreads, hprints⟩ := hsent _ _ hanswer
  have hlen := length_echo (hprints (by simp [Response.kind]))
  have hcap : maxFrameBytes = echoRoom + 77 := by decide
  rcases raw_eq_some.mp hraw with hobject | harray
  · by_cases hroom : byteLen (Json.escape cmd) ≤ echoRoom
    · refine iff_of_true (answered_error hanswer hreads (by omega) ?_)
        ⟨hobject.not_array, fun cmd' h' => ?_⟩
      · refine ⟨fun hnone => absurd hobject (hnone cmd), fun cmd' h' => ?_⟩
        obtain rfl := hobject.unique h'
        exact ⟨fun _ => ⟨rfl, rfl⟩, fun request h => by rw [hverb] at h; cases h⟩
      · obtain rfl := hobject.unique h'
        exact ⟨fun _ => hroom, fun request h => by rw [hverb] at h; cases h⟩
    · refine iff_of_false (not_answered_oversize hanswer (by omega)) ?_
      rintro ⟨-, hall⟩
      exact hroom ((hall cmd hobject).1 hverb)
  · refine iff_of_false ?_ fun h => h.1 cmd harray
    intro hanswered
    by_cases hshort : ((Response.err ⟨.unknownCmd, "no handler for cmd `".toList ++ cmd ++
        "`".toList⟩ : Response S.Num).toBytes S).length ≤ maxFrameBytes
    · rw [serveOne_fits hanswer hshort, answered_frame hshort] at hanswered
      obtain ⟨response, decoded, -, hdecoded, hkind, hdue⟩ := hanswered
      -- the peer reads an unknown command where bad JSON is due
      rw [fromBytes_error hreads] at hdecoded
      obtain rfl := Except.ok.inj hdecoded
      rw [(hdue.1 (not_cmdObject_of_array harray)).1] at hkind
      cases hkind
    · exact not_answered_oversize hanswer (Nat.lt_of_not_le hshort) hanswered

lemma answered_iff_of_known (hread : (readFrame conn).result = .ok bytes)
    (hraw : (S.topLevel bytes).bind TopLevel.raw = some cmd) {request : Request}
    (hverb : Request.fromWireVerb cmd = some request)
    (hfits : ((handler request).toBytes S).length ≤ maxFrameBytes)
    (hsent : ∀ response calls, answer S handler (readFrame conn).result = (.ok response, calls) →
      S.Reads response.toValue ∧ (response.kind ≠ none → S.Prints response.toValue)) :
    Answered S handler (.body bytes) (serveOne S conn handler) ↔
      Answerable S handler (.body bytes) := by
  have hanswer : answer S handler (readFrame conn).result =
      (.ok (handler request), [request]) := by
    rw [hread]
    exact answer_request (fromBytes_known hraw hverb)
  have hreads := (hsent _ _ hanswer).1
  rw [serveOne_fits hanswer hfits, answered_frame hfits]
  rcases raw_eq_some.mp hraw with hobject | harray
  · constructor
    · rintro ⟨response, decoded, -, hdecoded, hkind, hdue⟩
      obtain rfl := ((hdue.2 cmd hobject).2 request hverb).1
      have hdepth := (fromBytes_iff hreads).mp ⟨decoded, hdecoded, hkind⟩
      refine ⟨hobject.not_array, fun cmd' h' => ?_⟩
      obtain rfl := hobject.unique h'
      refine ⟨(fun h => by rw [hverb] at h; cases h), fun request' h => ?_⟩
      obtain rfl := Option.some.inj (hverb.symm.trans h)
      exact hdepth
    · rintro ⟨-, hall⟩
      obtain ⟨decoded, hdecoded, hkind⟩ :=
        (fromBytes_iff hreads).mpr ((hall cmd hobject).2 request hverb)
      refine ⟨handler request, decoded, rfl, hdecoded, hkind,
        fun hnone => absurd hobject (hnone cmd), fun cmd' h' => ?_⟩
      obtain rfl := hobject.unique h'
      refine ⟨(fun h => by rw [hverb] at h; cases h), fun request' h => ?_⟩
      obtain rfl := Option.some.inj (hverb.symm.trans h)
      exact ⟨rfl, rfl⟩
  · refine iff_of_false ?_ fun h => h.1 cmd harray
    rintro ⟨response, decoded, -, -, -, hdue⟩
    exact List.cons_ne_nil _ _ (hdue.1 (not_cmdObject_of_array harray)).2

end Bodies

/-- A framed request is answered with what is due exactly when it is answerable: any framed
request but an array of one string, an unknown command too long to be repeated, and one whose
response is nested too deep to be read. -/
theorem serveOne_answers_iff {conn : Reader IoError} {incoming : Incoming}
    (harrives : Arrives conn incoming)
    (hfits : ∀ request, ((handler request).toBytes S).length ≤ maxFrameBytes)
    (hsent : ∀ response calls, answer S handler (readFrame conn).result = (.ok response, calls) →
      S.Reads response.toValue ∧ (response.kind ≠ none → S.Prints response.toValue)) :
    Answered S handler incoming (serveOne S conn handler) ↔ Answerable S handler incoming := by
  cases incoming with
  | oversize n =>
    obtain ⟨hlarge, hsmall, rest, hdelivers⟩ := harrives
    rw [← List.append_nil (toBeBytes n)] at hdelivers
    exact iff_of_true (answered_oversize hlarge hsmall
      (readFrame_oversize hlarge hsmall hdelivers) hsent) trivial
  | body bytes =>
    obtain ⟨hlen, rest, hdelivers⟩ := harrives
    rw [← List.append_nil (_ ++ _)] at hdelivers
    obtain ⟨r', hframe, -⟩ := readFrame_eq hlen hdelivers
    have hread : (readFrame conn).result = .ok bytes := by rw [hframe]
    cases hraw : (S.topLevel bytes).bind TopLevel.raw with
    | none => exact answered_iff_of_none hread hraw hsent
    | some cmd =>
      cases hverb : Request.fromWireVerb cmd with
      | none => exact answered_iff_of_unknown hread hraw hverb hsent
      | some request => exact answered_iff_of_known hread hraw hverb (hfits request) hsent

/-! ### A request without JSON, and a long command -/

lemma delivers_whole (body : WireBytes) :
    Delivers ([.data (toBeBytes body.length ++ body)] : Reader IoError)
      (toBeBytes body.length ++ body) [] := by
  have h : Delivers ([.data (toBeBytes body.length ++ body)] : Reader IoError)
      (toBeBytes body.length ++ body ++ []) [] := .whole (List.cons_ne_nil _ _) .done
  rwa [List.append_nil] at h

lemma readFrame_whole {body : WireBytes} (hlen : body.length ≤ maxFrameBytes) :
    (readFrame [.data (toBeBytes body.length ++ body)]).result = .ok body := by
  have hdelivers := delivers_whole body
  rw [← List.append_nil (toBeBytes body.length ++ body)] at hdelivers
  obtain ⟨r', hframe, -⟩ := readFrame_eq hlen hdelivers
  rw [List.append_nil] at hframe
  rw [hframe]

def garbageResponse : Response Unit :=
  .err ⟨.badJson, "request body was not valid JSON matching the cmd schema".toList⟩

/-- The reader of a text without any JSON in it. -/
def garbageSerde : SerdeJson := .ofTables [garbageResponse.toValue] []

def garbageBody : WireBytes := utf8 "garbage!".toList

theorem serveOne_answers_garbage :
    Answered garbageSerde (fun _ => .err ⟨.internal, []⟩) (.body garbageBody)
        (serveOne garbageSerde [.data (toBeBytes garbageBody.length ++ garbageBody)]
          fun _ => .err ⟨.internal, []⟩) ↔
      Answerable garbageSerde (fun _ => .err ⟨.internal, []⟩) (.body garbageBody) := by
  apply serveOne_answers_iff
  · exact ⟨by decide, [], delivers_whole garbageBody⟩
  · intro request
    change (utf8 ((Response.err ⟨.internal, []⟩ : Response Unit).toValue.compact _)).length ≤ _
    decide +kernel
  · intro response calls hanswer
    have hbad : answer garbageSerde (fun _ => .err ⟨.internal, []⟩)
        (readFrame [.data (toBeBytes garbageBody.length ++ garbageBody)]).result =
        (.ok garbageResponse, []) := by
      rw [readFrame_whole (by decide)]
      exact answer_badJson (fromBytes_none rfl)
    rw [hbad] at hanswer
    obtain rfl := Except.ok.inj (Prod.ext_iff.mp hanswer).1
    refine ⟨?_, fun _ => rfl⟩
    unfold SerdeJson.Reads
    rw [if_pos (by decide)]
    exact ⟨garbageResponse.toValue, by simp [garbageSerde, SerdeJson.ofTables], rfl⟩

/-- A command of so many letters that the request just fits in a frame. -/
def longCmd : Str := List.replicate 65526 'x'

def longBody : WireBytes := utf8 ("\x7b\"cmd\":\"".toList ++ longCmd ++ "\"\x7d".toList)

def longSerde : SerdeJson := .ofTables [] [(longBody, .object [("cmd".toList, some longCmd)])]

lemma escape_letters (n : Nat) : byteLen (Json.escape (List.replicate n 'x')) = n := by
  induction n with
  | zero => rfl
  | succ n ih =>
    have hx : Json.escape ['x'] = ['x'] := by decide
    have hlen : Char.utf8Size 'x' = 1 := by decide
    rw [List.replicate_succ, ← List.singleton_append, Json.escape_append, byteLen_append, hx, ih,
      byteLen_cons, hlen, byteLen_nil]
    omega

lemma byteLen_letters (n : Nat) : byteLen (List.replicate n 'x') = n := by
  induction n with
  | zero => rfl
  | succ n ih =>
    have hlen : Char.utf8Size 'x' = 1 := by decide
    rw [List.replicate_succ, byteLen_cons, ih, hlen]
    omega

lemma length_longBody : longBody.length = maxFrameBytes := by
  have hbefore : byteLen "\x7b\"cmd\":\"".toList = 8 := by decide
  have hafter : byteLen "\"\x7d".toList = 2 := by decide
  unfold longBody longCmd
  rw [length_utf8, byteLen_append, byteLen_append, byteLen_letters, hbefore, hafter]
  rfl

lemma fromWireVerb_longCmd : Request.fromWireVerb longCmd = none := by
  have hne : ∀ request : Request, longCmd ≠ request.wireVerb := by
    intro request h
    have hlen := congrArg List.length h
    rw [longCmd, List.length_replicate] at hlen
    cases request <;> exact absurd hlen (by decide)
  apply (if_neg (hne .status)).trans
  apply (if_neg (hne .pause)).trans
  apply (if_neg (hne .resume)).trans
  apply (if_neg (hne .restoreClipboard)).trans
  apply (if_neg (hne .sessionLs)).trans
  exact if_neg (hne .sessionClear)

lemma prints_longSerde (v : Json Unit) : longSerde.Prints v := rfl

lemma topLevel_ofTables (values : List (Json Unit)) (bytes : WireBytes) (top : TopLevel) :
    (SerdeJson.ofTables values [(bytes, top)]).topLevel bytes = some top := List.lookup_cons_self

/-- A reply that repeats too long a command is not written at all. -/
lemma serveOne_drops {conn : Reader IoError} (hread : (readFrame conn).result = .ok bytes)
    (hraw : (S.topLevel bytes).bind TopLevel.raw = some cmd)
    (hverb : Request.fromWireVerb cmd = none)
    (hlong : maxFrameBytes < ((Response.err ⟨.unknownCmd, "no handler for cmd `".toList ++ cmd ++
      "`".toList⟩ : Response S.Num).toBytes S).length) {incoming : Incoming} :
    (serveOne S conn handler).written = [] ∧
      ¬Answered S handler incoming (serveOne S conn handler) := by
  have hanswer : answer S handler (readFrame conn).result = (.ok (.err ⟨.unknownCmd,
      "no handler for cmd `".toList ++ cmd ++ "`".toList⟩), []) := by
    rw [hread]
    exact answer_unknownCmd (fromBytes_unknown hraw hverb)
  refine ⟨?_, not_answered_oversize hanswer hlong⟩
  unfold serveOne
  rw [hanswer]
  dsimp only
  rw [writeFrame_oversize hlong]

/-- The reply would repeat the command and does not fit, so nothing is written at all. -/
theorem serveOne_drops_long : ∃ conn handler, Arrives conn (.body longBody) ∧
    (∀ request, ((handler request).toBytes longSerde).length ≤ maxFrameBytes) ∧
    (serveOne longSerde conn handler).written = [] ∧
    ¬Answered longSerde handler (.body longBody) (serveOne longSerde conn handler) := by
  have hle : longBody.length ≤ maxFrameBytes := Nat.le_of_eq length_longBody
  have hraw : (longSerde.topLevel longBody).bind TopLevel.raw = some longCmd := by
    rw [longSerde, topLevel_ofTables]
    rfl
  refine ⟨_, fun _ => .err ⟨.internal, []⟩, ⟨hle, [], delivers_whole longBody⟩, ?_,
    serveOne_drops (readFrame_whole hle) hraw fromWireVerb_longCmd ?_⟩
  · intro request
    rw [length_error (prints_longSerde _)]
    decide
  · rw [length_echo (prints_longSerde _), longCmd, escape_letters]
    decide

end Invisibool.Control
