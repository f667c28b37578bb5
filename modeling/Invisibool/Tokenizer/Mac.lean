import Invisibool.Crates
import Invisibool.Tokenizer.Alphabet
import Mathlib.Tactic.NormNum

/-!
# MAC-tagged fakes

The last `K` symbols of such a fake are a truncated keyed MAC of everything before them, so the
fake can be recognised without any state.
-/

namespace Invisibool
open Text

/-- `k` symbols of a number, least significant first. -/
def encodeSymbols (alphabet : Alphabet) : Nat → Nat → Outcome Str
  | 0, _ => .ok []
  | k + 1, v => do
    let c ← alphabet.symbolAt (v % alphabet.radix)
    let rest ← encodeSymbols alphabet k (v / alphabet.radix)
    .ok (c :: rest)

def encodeToAlphabet (macBytes : List UInt8) (alphabet : Alphabet) : Outcome Str := do
  let k := alphabet.macTailLen
  let modulus ← expect
    (if alphabet.radix ^ k < 2 ^ 64 then some (alphabet.radix ^ k) else none)
    "radix^k fits in u64 for all defined alphabets"
  let value := (macBytes.take 8).foldl (fun v b => v * 256 + b.toNat) 0
  let symbols ← encodeSymbols alphabet k (value % modulus)
  .ok symbols.reverse

section

variable (X : Crates)

/-- The `K`-character MAC tail for a body. -/
def macTail (key body : List UInt8) (alphabet : Alphabet) : Outcome Str :=
  encodeToAlphabet (X.hmacSha256 key body).toList alphabet

def macVerify (key : List UInt8) (candidate : Str) (alphabet : Alphabet) : Outcome Bool :=
  if isAscii candidate = false then .ok false
  else if byteLen candidate < alphabet.macTailLen then .ok false
  else do
    let split := byteLen candidate - alphabet.macTailLen
    let body ← slice candidate 0 split
    let claimedTail ← sliceFrom candidate split
    if claimedTail.all alphabet.contains then do
      let expectedTail ← macTail X key (utf8 body) alphabet
      .ok (decide (utf8 expectedTail = utf8 claimedTail))
    else .ok false

def deriveBody (key : List UInt8) (realValue : Str) (bodyLen : Nat) (alphabet : Alphabet) :
    Outcome Str := do
  let out ← expect (X.hkdfExpand key (utf8 realValue) bodyLen)
    "body_len fits in HKDF-SHA256's 255*32 byte ceiling for any realistic value"
  out.mapM fun b => alphabet.symbolAt (b.toNat % alphabet.radix)

/-- A fake of the length of the real value; none if that leaves no room before the tail. -/
def makeMacfake (key : List UInt8) (realValue : Str) (alphabet : Alphabet) :
    Outcome (Option Str) :=
  let k := alphabet.macTailLen
  let n := byteLen realValue
  if n ≤ k then .ok none
  else do
    let body ← deriveBody X key realValue (n - k) alphabet
    let tail ← macTail X key (utf8 body) alphabet
    .ok (some (body ++ tail))

end

lemma radix_pow_macTailLen_lt (a : Alphabet) : a.radix ^ a.macTailLen < 2 ^ 64 := by
  have h1 : a.radix ^ (a.macTailLen - 1) < 2 ^ 32 :=
    Nat.pow_pred_clog_lt_self a.two_le_radix (by norm_num)
  have h2 : 0 < a.macTailLen := Nat.clog_pos a.two_le_radix (by norm_num)
  have h3 : a.radix ^ a.macTailLen = a.radix ^ (a.macTailLen - 1) * a.radix := by
    rw [← Nat.pow_succ, Nat.succ_eq_add_one, Nat.sub_add_cancel h2]
  have h4 := a.radix_le
  calc a.radix ^ a.macTailLen = a.radix ^ (a.macTailLen - 1) * a.radix := h3
    _ ≤ 2 ^ 32 * 65535 := Nat.mul_le_mul h1.le h4
    _ < 2 ^ 64 := by norm_num

lemma encodeSymbols_isOk (a : Alphabet) (k v : Nat) :
    ∃ s, encodeSymbols a k v = .ok s ∧ s.length = k ∧ ∀ c ∈ s, c ∈ a.chars := by
  induction k generalizing v with
  | zero => exact ⟨[], rfl, rfl, by simp⟩
  | succ k ih =>
    obtain ⟨rest, hrest, hlen, hmem⟩ := ih (v / a.radix)
    have hpos : 0 < a.radix := by
      have := a.two_le_radix
      omega
    obtain ⟨c, hc, hsym⟩ := a.symbolAt_of_lt (Nat.mod_lt v hpos)
    refine ⟨c :: rest, by simp [encodeSymbols, hsym, hrest], by simp [hlen], ?_⟩
    intro d hd
    rcases List.mem_cons.mp hd with rfl | hd
    · exact hc
    · exact hmem d hd

theorem macTail_isOk (X : Crates) (key body : List UInt8) (a : Alphabet) :
    ∃ s, macTail X key body a = .ok s ∧ s.length = a.macTailLen ∧ ∀ c ∈ s, c ∈ a.chars := by
  obtain ⟨s, hs, hlen, hmem⟩ := encodeSymbols_isOk a a.macTailLen
    ((((X.hmacSha256 key body).toList.take 8).foldl (fun v b => v * 256 + b.toNat) 0) %
      a.radix ^ a.macTailLen)
  refine ⟨s.reverse, ?_, by simpa using hlen, by simpa using hmem⟩
  unfold macTail encodeToAlphabet
  dsimp only
  rw [if_pos (radix_pow_macTailLen_lt a), expect_some, ok_bind, hs, ok_bind]

variable {X : Crates} {key : List UInt8} {a : Alphabet} {value f : Str}

lemma deriveBody_isOk (hX : X.HkdfLawful) {n : Nat} (hn : n ≤ 255 * 32) :
    ∃ s, deriveBody X key value n a = .ok s ∧ s.length = n ∧ ∀ c ∈ s, c ∈ a.chars := by
  obtain ⟨out, hout⟩ := Option.isSome_iff_exists.mp ((hX.expand_isSome key (utf8 value) n).mpr hn)
  have hpos : 0 < a.radix := by
    have := a.two_le_radix
    omega
  have hmap : ∀ bs : List UInt8, ∃ s : Str,
      bs.mapM (fun b => a.symbolAt (b.toNat % a.radix)) = .ok s ∧ s.length = bs.length ∧
        ∀ c ∈ s, c ∈ a.chars := by
    intro bs
    induction bs with
    | nil => exact ⟨[], rfl, rfl, by simp⟩
    | cons b bs ih =>
      obtain ⟨s, hs, hlen, hmem⟩ := ih
      obtain ⟨c, hc, hsym⟩ := a.symbolAt_of_lt (Nat.mod_lt b.toNat hpos)
      refine ⟨c :: s, mapM_eq_ok.mpr (.cons hsym (mapM_eq_ok.mp hs)), by simp [hlen], ?_⟩
      intro d hd
      rcases List.mem_cons.mp hd with rfl | hd
      · exact hc
      · exact hmem d hd
  obtain ⟨s, hs, hlen, hmem⟩ := hmap out
  exact ⟨s, by simp [deriveBody, hout, hs], hlen.trans (hX.expand_length _ _ _ _ hout), hmem⟩

theorem makeMacfake_eq_none :
    makeMacfake X key value a = .ok none ↔ byteLen value ≤ a.macTailLen := by
  unfold makeMacfake
  dsimp only
  split
  · simp_all
  · rename_i h
    simp only [h, iff_false]
    intro hn
    obtain ⟨body, -, hn⟩ := bind_eq_ok.mp hn
    obtain ⟨tail, -, hn⟩ := bind_eq_ok.mp hn
    simp at hn

/-- Below the ceiling of HKDF a longer value gets a fake; above it the run panics. -/
theorem makeMacfake_isOk (hX : X.HkdfLawful) :
    (∃ r, makeMacfake X key value a = .ok r) ↔ byteLen value ≤ a.macTailLen + 255 * 32 := by
  by_cases hshort : byteLen value ≤ a.macTailLen
  · exact ⟨fun _ => by omega, fun _ => ⟨none, makeMacfake_eq_none.mpr hshort⟩⟩
  · constructor
    · rintro ⟨r, hr⟩
      unfold makeMacfake at hr
      simp only [hshort, if_false] at hr
      obtain ⟨body, hbody, -⟩ := bind_eq_ok.mp hr
      unfold deriveBody at hbody
      cases hout : X.hkdfExpand key (utf8 value) (byteLen value - a.macTailLen) with
      | none => simp [hout, expect] at hbody
      | some out =>
        have := (hX.expand_isSome key (utf8 value) (byteLen value - a.macTailLen)).mp
          (by simp [hout])
        omega
    · intro hle
      obtain ⟨body, hbody, -, -⟩ : ∃ s, deriveBody X key value (byteLen value - a.macTailLen) a =
          .ok s ∧ s.length = byteLen value - a.macTailLen ∧ ∀ c ∈ s, c ∈ a.chars :=
        deriveBody_isOk hX (by omega)
      obtain ⟨tail, htail, -, -⟩ := macTail_isOk X key (utf8 body) a
      exact ⟨some (body ++ tail), by simp [makeMacfake, hshort, hbody, htail]⟩

/-- The layout of a fake: a body over the alphabet and the tail of that body. -/
theorem makeMacfake_shape (hX : X.HkdfLawful) (h : makeMacfake X key value a = .ok (some f)) :
    ∃ body tail, f = body ++ tail ∧ macTail X key (utf8 body) a = .ok tail ∧
      body.length + tail.length = byteLen value ∧ tail.length = a.macTailLen ∧ body ≠ [] ∧
      ∀ c ∈ f, c ∈ a.chars := by
  have hlong : ¬ byteLen value ≤ a.macTailLen := by
    intro hle
    rw [makeMacfake_eq_none.mpr hle] at h
    cases h
  have hmax := (makeMacfake_isOk hX).mp ⟨_, h⟩
  obtain ⟨body, hbody, hlen, hmem⟩ : ∃ s, deriveBody X key value (byteLen value - a.macTailLen) a =
      .ok s ∧ s.length = byteLen value - a.macTailLen ∧ ∀ c ∈ s, c ∈ a.chars :=
    deriveBody_isOk hX (by omega)
  obtain ⟨tail, htail, htlen, htmem⟩ := macTail_isOk X key (utf8 body) a
  simp only [makeMacfake, hlong, if_false, hbody, htail, ok_bind, Except.ok.injEq,
    Option.some.injEq] at h
  refine ⟨body, tail, h.symm, htail, by omega, htlen, ?_, ?_⟩
  · rintro rfl
    simp at hlen
    omega
  · intro c hc
    rw [← h] at hc
    rcases List.mem_append.mp hc with hc | hc
    · exact hmem c hc
    · exact htmem c hc

lemma byteLen_makeMacfake (hX : X.HkdfLawful) (h : makeMacfake X key value a = .ok (some f)) :
    byteLen f = byteLen value := by
  obtain ⟨body, tail, rfl, -, hlen, -, -, hmem⟩ := makeMacfake_shape hX h
  rw [byteLen_of_ascii (isAscii_iff.mpr fun c hc => a.ascii_of_mem (hmem c hc)),
    List.length_append, hlen]

theorem macVerify_makeMacfake (hX : X.HkdfLawful)
    (h : makeMacfake X key value a = .ok (some f)) : macVerify X key f a = .ok true := by
  obtain ⟨body, tail, rfl, htail, -, htlen, -, hmem⟩ := makeMacfake_shape hX h
  have hascii : isAscii (body ++ tail) = true :=
    isAscii_iff.mpr fun c hc => a.ascii_of_mem (hmem c hc)
  obtain ⟨hbody, htascii⟩ := isAscii_append.mp hascii
  have hsplit : byteLen (body ++ tail) - a.macTailLen = byteLen body := by
    rw [byteLen_append, byteLen_of_ascii htascii]
    omega
  have hslice : slice (body ++ tail) 0 (byteLen body) = .ok body := by
    simpa using slice_append [] body tail
  have hfrom : sliceFrom (body ++ tail) (byteLen body) = .ok tail :=
    sliceFrom_eq_ok.mpr ⟨body, rfl, rfl⟩
  have hall : tail.all a.contains = true := by
    simp only [List.all_eq_true, Alphabet.contains_iff]
    exact fun c hc => hmem c (by simp [hc])
  have hlen : ¬ byteLen (body ++ tail) < a.macTailLen := by
    rw [byteLen_append, byteLen_of_ascii htascii]
    omega
  unfold macVerify
  simp only [hascii, Bool.true_eq_false, if_false, hlen, hsplit, hslice, hfrom, ok_bind, hall,
    if_true, htail, decide_true]

/-- Where a candidate splits into what the MAC is of, and the tail. -/
def tailStart (a : Alphabet) (candidate : Str) : Nat := candidate.length - a.macTailLen

lemma utf8_inj {s t : Str} : utf8 s = utf8 t ↔ s = t := by
  constructor
  · intro h
    have hs : fromUtf8 (utf8 s) = some s := fromUtf8_eq_some.mpr rfl
    have ht : fromUtf8 (utf8 t) = some t := fromUtf8_eq_some.mpr rfl
    rw [h, ht] at hs
    exact (Option.some.inj hs).symm
  · exact congrArg utf8

/-- A candidate is recognised exactly if it is ASCII and ends with the tail of what stands before,
and no candidate makes it panic. -/
theorem macVerify_eq_ok (X : Crates) (key : List UInt8) (a : Alphabet) (candidate : Str) :
    ∃ b, macVerify X key candidate a = .ok b ∧
      (b = true ↔ isAscii candidate = true ∧ a.macTailLen ≤ candidate.length ∧
        macTail X key (utf8 (candidate.take (tailStart a candidate))) a =
          .ok (candidate.drop (tailStart a candidate))) := by
  unfold macVerify
  by_cases hascii : isAscii candidate = true
  · have hlen : byteLen candidate = candidate.length := byteLen_of_ascii hascii
    rw [if_neg (by simp [hascii]), hlen]
    by_cases hshort : candidate.length < a.macTailLen
    · rw [if_pos hshort]
      exact ⟨false, rfl, iff_of_false nofun fun h => by omega⟩
    · rw [if_neg hshort]
      dsimp only
      have hsplit : candidate.take (tailStart a candidate) ++ candidate.drop (tailStart a candidate) =
          candidate := List.take_append_drop _ _
      have hstart : byteLen (candidate.take (tailStart a candidate)) =
          candidate.length - a.macTailLen := by
        have htake : isAscii (candidate.take (tailStart a candidate)) = true :=
          isAscii_iff.mpr fun c hc => isAscii_iff.mp hascii c (List.mem_of_mem_take hc)
        rw [byteLen_of_ascii htake, List.length_take]
        unfold tailStart
        omega
      have hbody : slice candidate 0 (candidate.length - a.macTailLen) =
          .ok (candidate.take (tailStart a candidate)) :=
        slice_eq_ok.mpr ⟨[], _, hsplit.symm, rfl, by rw [hstart]; omega⟩
      have htail : sliceFrom candidate (candidate.length - a.macTailLen) =
          .ok (candidate.drop (tailStart a candidate)) :=
        sliceFrom_eq_ok.mpr ⟨_, hsplit.symm, hstart⟩
      obtain ⟨expected, hexpected, -, hmem⟩ :=
        macTail_isOk X key (utf8 (candidate.take (tailStart a candidate))) a
      rw [hbody, ok_bind, htail, ok_bind]
      by_cases hall : (candidate.drop (tailStart a candidate)).all a.contains = true
      · rw [if_pos hall, hexpected, ok_bind]
        refine ⟨_, rfl, ?_⟩
        rw [decide_eq_true_eq, utf8_inj, Except.ok.injEq]
        exact ⟨fun h => ⟨hascii, Nat.le_of_not_lt hshort, h⟩, fun h => h.2.2⟩
      · rw [if_neg hall]
        refine ⟨false, rfl, iff_of_false nofun ?_⟩
        -- the tail that is expected has symbols of the alphabet only
        rintro ⟨-, -, h⟩
        obtain rfl := Except.ok.inj (hexpected.symm.trans h)
        apply hall
        rw [List.all_eq_true]
        exact fun c hc => (a.contains_iff c).mpr (hmem c hc)
  · rw [if_pos (by simpa using hascii)]
    exact ⟨false, rfl, iff_of_false nofun fun h => hascii h.1⟩

/-- What `make_macfake` makes, and what `verify` accepts. -/
theorem macfakes (hX : X.HkdfLawful) (key : List UInt8) (a : Alphabet) :
    (∀ value, (makeMacfake X key value a = .ok none ↔ byteLen value ≤ a.macTailLen) ∧
      (a.macTailLen < byteLen value → byteLen value ≤ a.macTailLen + 255 * 32 →
        ∃ f, makeMacfake X key value a = .ok (some f) ∧ byteLen f = byteLen value ∧
          (∀ c ∈ f, c ∈ a.chars) ∧ macVerify X key f a = .ok true)) ∧
    ∀ candidate, ∃ b, macVerify X key candidate a = .ok b ∧
      (b = true ↔ isAscii candidate = true ∧ a.macTailLen ≤ candidate.length ∧
        macTail X key (utf8 (candidate.take (tailStart a candidate))) a =
          .ok (candidate.drop (tailStart a candidate))) := by
  refine ⟨fun value => ⟨makeMacfake_eq_none, fun hlong hmax => ?_⟩, macVerify_eq_ok X key a⟩
  obtain ⟨r, hr⟩ := (makeMacfake_isOk hX).mpr hmax
  cases r with
  | none =>
    have hshort := makeMacfake_eq_none.mp hr
    omega
  | some f =>
    obtain ⟨_, _, _, _, _, _, _, hmem⟩ := makeMacfake_shape hX hr
    exact ⟨f, hr, byteLen_makeMacfake hX hr, hmem, macVerify_makeMacfake hX hr⟩

theorem macfakes_reference : ∃ f, makeMacfake Crates.reference [] "secret-value".toList .base62 =
    .ok (some f) ∧ macVerify Crates.reference [] f .base62 = .ok true := by
  obtain ⟨f, hf, _, _, hverify⟩ := ((macfakes Crates.reference_hkdfLawful [] .base62).1
    "secret-value".toList).2 (by decide +kernel) (by decide +kernel)
  exact ⟨f, hf, hverify⟩

end Invisibool
