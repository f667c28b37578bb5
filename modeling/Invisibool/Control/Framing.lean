import Invisibool.Control.Wire

/-!
# Frames over a stream

Whatever the pieces in which a stream hands out its bytes, `read_frame` undoes `write_frame`, and
it leaves what comes behind the frame.
-/

namespace Invisibool.Control
open Text Stream

lemma fromBeBytes_toBeBytes {n : Nat} (h : n < 2 ^ 32) : fromBeBytes (toBeBytes n) = n := by
  unfold fromBeBytes toBeBytes
  simp only [List.foldl_cons, List.foldl_nil, UInt8.toNat_ofNat']
  omega

variable {r rest : Reader IoError} {body tail : WireBytes}

lemma readExact_length {n : Nat} (h : Delivers r (toBeBytes n ++ tail) rest) :
    ∃ r', readExact 4 r = (.ok (toBeBytes n), r') ∧ Delivers r' tail rest :=
  h.readExact

theorem readFrame_eq (hlen : body.length ≤ maxFrameBytes)
    (h : Delivers r (toBeBytes body.length ++ body ++ tail) rest) :
    ∃ r', readFrame r = ⟨.ok body, r', body.length⟩ ∧ Delivers r' tail rest := by
  have hsmall : body.length < 2 ^ 32 := lt_of_le_of_lt hlen (by decide)
  rw [List.append_assoc] at h
  obtain ⟨r₁, hhead, h₁⟩ := readExact_length h
  obtain ⟨r₂, hbody, h₂⟩ := h₁.readExact
  refine ⟨r₂, ?_, h₂⟩
  unfold readFrame
  rw [hhead]
  dsimp only
  rw [fromBeBytes_toBeBytes hsmall, if_neg (Nat.not_lt.mpr hlen), hbody]

/-- A stream that hands out some beginning of a frame gives its body, or fails as it does. -/
theorem readFrame_gives {P : IoError → Prop} (hlen : body.length ≤ maxFrameBytes)
    (h : Gives P r (toBeBytes body.length ++ body)) : (readFrame r).result = .ok body ∨
      ∃ e, (e = .unexpectedEof ∨ P e) ∧ (readFrame r).result = .error (.io e) := by
  have hsmall : body.length < 2 ^ 32 := lt_of_le_of_lt hlen (by decide)
  have hreadError : ∀ e : Option IoError, (∀ x ∈ e, P x) →
      ∃ e', (e' = .unexpectedEof ∨ P e') ∧ readError e = .io e' := by
    intro e he
    cases e with
    | none => exact ⟨.unexpectedEof, .inl rfl, rfl⟩
    | some e => exact ⟨e, .inr (he e rfl), rfl⟩
  rcases h.readExact with ⟨r₁, hhead, h₁⟩ | ⟨e, r₁, hhead, he⟩
  · change readExact 4 r = _ at hhead
    rw [← List.append_nil body] at h₁
    rcases h₁.readExact with ⟨r₂, hbody, -⟩ | ⟨e, r₂, hbody, he⟩
    · left
      unfold readFrame
      rw [hhead]
      dsimp only
      rw [fromBeBytes_toBeBytes hsmall, if_neg (Nat.not_lt.mpr hlen), hbody]
    · obtain ⟨e', he', herror⟩ := hreadError e he
      refine .inr ⟨e', he', ?_⟩
      unfold readFrame
      rw [hhead]
      dsimp only
      rw [fromBeBytes_toBeBytes hsmall, if_neg (Nat.not_lt.mpr hlen), hbody]
      dsimp only
      rw [herror]
  · change readExact 4 r = _ at hhead
    obtain ⟨e', he', herror⟩ := hreadError e he
    refine .inr ⟨e', he', ?_⟩
    unfold readFrame
    rw [hhead]
    dsimp only
    rw [herror]

theorem readFrame_oversize {n : Nat} (hlen : maxFrameBytes < n) (hsmall : n < 2 ^ 32)
    (h : Delivers r (toBeBytes n ++ tail) rest) :
    (readFrame r).result = .error (.frameTooLarge n maxFrameBytes) := by
  obtain ⟨r₁, hhead, -⟩ := readExact_length h
  unfold readFrame
  rw [hhead]
  dsimp only
  rw [fromBeBytes_toBeBytes hsmall, if_pos hlen]

/-- On no stream does `read_frame` allocate or return more than a frame may have. -/
theorem readFrame_bounded (r : Reader IoError) : (readFrame r).buffered ≤ maxFrameBytes ∧
    ∀ body, (readFrame r).result = .ok body → body.length ≤ maxFrameBytes := by
  unfold readFrame
  split
  · exact ⟨Nat.zero_le _, fun body h => by cases h⟩
  dsimp only
  split
  · exact ⟨Nat.zero_le _, fun body h => by cases h⟩
  · rename_i hlen
    have hle := Nat.le_of_not_lt hlen
    split
    · exact ⟨hle, fun body h => by cases h⟩
    · rename_i body r' hbody
      refine ⟨hle, fun body' h => ?_⟩
      obtain rfl := Except.ok.inj h
      rwa [length_of_readExact hbody]

lemma writeFrame_fits (h : body.length ≤ maxFrameBytes) :
    writeFrame body = (.ok (), toBeBytes body.length ++ body) :=
  if_neg (Nat.not_lt.mpr h)

lemma writeFrame_oversize (h : maxFrameBytes < body.length) :
    writeFrame body = (.error (.frameTooLarge body.length maxFrameBytes), []) :=
  if_pos h

/-- Write the bodies, one frame each. -/
def writeFrames (bodies : List WireBytes) : WireBytes := bodies.flatMap fun body => (writeFrame body).2

/-- Read so many frames. -/
def readFrames : Nat → Reader IoError → Except ControlError (List WireBytes) × Reader IoError
  | 0, r => (.ok [], r)
  | n + 1, r =>
    match (readFrame r).result with
    | .error e => (.error e, (readFrame r).rest)
    | .ok body =>
      match readFrames n (readFrame r).rest with
      | (.error e, r') => (.error e, r')
      | (.ok bodies, r') => (.ok (body :: bodies), r')

theorem readFrames_writeFrames {bodies : List WireBytes}
    (hlen : ∀ body ∈ bodies, body.length ≤ maxFrameBytes)
    (h : Delivers r (writeFrames bodies ++ tail) rest) :
    ∃ r', readFrames bodies.length r = (.ok bodies, r') ∧ Delivers r' tail rest := by
  induction bodies generalizing r with
  | nil => exact ⟨r, rfl, h⟩
  | cons body bodies ih =>
    have hbody := hlen body (by simp)
    have hframes : writeFrames (body :: bodies) ++ tail =
        toBeBytes body.length ++ body ++ (writeFrames bodies ++ tail) := by
      rw [writeFrames, List.flatMap_cons, writeFrame_fits hbody, List.append_assoc]
      rfl
    rw [hframes] at h
    obtain ⟨r₁, hread, h₁⟩ := readFrame_eq hbody h
    obtain ⟨r₂, hreads, h₂⟩ := ih (fun b hb => hlen b (by simp [hb])) h₁
    refine ⟨r₂, ?_, h₂⟩
    rw [List.length_cons, readFrames, hread]
    dsimp only
    rw [hreads]

end Invisibool.Control
