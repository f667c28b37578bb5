import Invisibool.Text.Str

/-!
# UTF-8 is self-synchronizing

A non-empty text can stand inside the bytes of another text only at a character boundary,
so that a byte search for it finds exactly its occurrences as text.
-/

namespace Text

/-- `str::as_bytes`. -/
def utf8 (s : Str) : List UInt8 := s.flatMap String.utf8EncodeChar

@[simp] lemma utf8_nil : utf8 [] = [] := rfl

@[simp] lemma utf8_cons (c : Char) (s : Str) :
    utf8 (c :: s) = String.utf8EncodeChar c ++ utf8 s := rfl

@[simp] lemma utf8_append (s t : Str) : utf8 (s ++ t) = utf8 s ++ utf8 t := by
  simp [utf8]

@[simp] lemma length_utf8 (s : Str) : (utf8 s).length = byteLen s := by
  induction s with
  | nil => rfl
  | cons c s ih => simp [ih]

@[simp] lemma utf8_eq_nil {s : Str} : utf8 s = [] ↔ s = [] := by
  rw [← List.length_eq_zero_iff, length_utf8, byteLen_eq_zero]

/-- The bytes of a text start with the bytes of another only if the text does. -/
theorem prefix_of_utf8_prefix {p s : Str} (h : utf8 p <+: utf8 s) : p <+: s := by
  obtain ⟨b, hb⟩ := h
  apply List.isPrefix_of_utf8Encode_append_eq_utf8Encode b.toByteArray
  unfold List.utf8Encode
  rw [← List.toByteArray_append]
  exact congrArg List.toByteArray hb

/-- Self-synchronization: the bytes before an occurrence are those of a text. -/
theorem utf8_split {s p : Str} {a b : List UInt8} (hp : p ≠ []) (h : utf8 s = a ++ utf8 p ++ b) :
    ∃ u v, s = u ++ p ++ v ∧ utf8 u = a := by
  induction s generalizing a with
  | nil =>
    simp only [utf8_nil, List.nil_eq, List.append_eq_nil_iff, utf8_eq_nil] at h
    exact absurd h.1.2 hp
  | cons c s ih =>
    by_cases ha : a = []
    · subst ha
      have hpre : utf8 p <+: utf8 (c :: s) := ⟨b, by simpa using h.symm⟩
      obtain ⟨v, hv⟩ := prefix_of_utf8_prefix hpre
      exact ⟨[], v, by simpa using hv.symm, rfl⟩
    · rw [utf8_cons, List.append_assoc] at h
      rcases List.append_eq_append_iff.mp h with ⟨a', ha', hs⟩ | ⟨c', hc', hs⟩
      · rw [← List.append_assoc] at hs
        obtain ⟨u, v, rfl, rfl⟩ := ih hs
        exact ⟨c :: u, v, by simp, by simp [ha']⟩
      · cases c' with
        | nil =>
          obtain ⟨u, v, rfl, hu⟩ := ih (a := []) (by simpa using hs.symm)
          exact ⟨c :: u, v, by simp, by simpa [utf8_eq_nil.mp hu] using hc'⟩
        | cons x c' =>
          -- the first byte of the pattern would be a continuation byte of `c`
          obtain ⟨d, p', rfl⟩ := List.exists_cons_of_ne_nil hp
          have hlen : a.length < (String.utf8EncodeChar c).length := by simp [hc']
          have hx : (String.utf8EncodeChar c)[a.length] = x := by simp [hc']
          have hd : 0 < (String.utf8EncodeChar d).length := by
            simpa using d.utf8Size_pos
          have hfirst : (String.utf8EncodeChar d)[0] = x := by
            have h0 := congrArg (fun l => l[0]?) hs
            simp only [utf8_cons, List.append_assoc, List.cons_append, List.getElem?_cons_zero,
              List.getElem?_append_left hd, List.getElem?_eq_getElem hd,
              Option.some.injEq] at h0
            exact h0
          have h1 : (String.utf8EncodeChar c)[a.length].IsUTF8FirstByte := by
            rw [hx, ← hfirst]
            simp
          simp only [UInt8.isUTF8FirstByte_getElem_utf8EncodeChar,
            List.length_eq_zero_iff] at h1
          exact absurd h1 ha

/-- `str::from_utf8`. -/
def fromUtf8 (bytes : List UInt8) : Option Str := bytes.toByteArray.utf8Decode?.map Array.toList

theorem fromUtf8_eq_some {bytes : List UInt8} {s : Str} :
    fromUtf8 bytes = some s ↔ utf8 s = bytes := by
  constructor
  · intro h
    obtain ⟨chars, hchars, rfl⟩ := Option.map_eq_some_iff.mp h
    obtain ⟨l, hl⟩ := ByteArray.isSome_utf8Decode?_iff.mp (Option.isSome_of_eq_some hchars)
    rw [hl, List.utf8Decode?_utf8Encode, Option.some.injEq] at hchars
    subst hchars
    have hdata : (utf8 l).toByteArray.data = bytes.toByteArray.data :=
      congrArg ByteArray.data hl.symm
    rwa [List.data_toByteArray, List.data_toByteArray, Array.mk.injEq] at hdata
  · rintro rfl
    change (s.utf8Encode.utf8Decode?).map Array.toList = some s
    rw [List.utf8Decode?_utf8Encode]
    rfl

end Text
