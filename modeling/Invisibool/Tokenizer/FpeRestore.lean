import Invisibool.Tokenizer.Fpe

/-!
# Trial decryption inverts scrubbing

The numeral codec is a bijection between bodies and numeral strings, so over eligible
registrations `try_restore` finds exactly the fakes that `scrub` makes.
-/

namespace Invisibool
open Text

lemma charToNumeral_eq_ok {a : Alphabet} {c : Char} {i : Nat} :
    charToNumeral a c = .ok i ↔ a.chars[i]? = some c := by
  rw [← a.indexOf_eq_some]
  unfold charToNumeral
  cases h : a.indexOf c with
  | none => simp [expect]
  | some j =>
    have hj : j < 2 ^ 16 := by
      have := a.lt_radix_of_indexOf h
      have := a.radix_le
      omega
    rw [expect_some, ok_bind, if_pos hj, expect_some, Except.ok.injEq, Option.some.injEq]

lemma bodyToNumerals_eq_ok {a : Alphabet} {body : Str} {ns : List Nat} :
    bodyToNumerals body a = .ok ns ↔ List.Forall₂ (fun c i => a.chars[i]? = some c) body ns := by
  unfold bodyToNumerals
  simp only [mapM_eq_ok, charToNumeral_eq_ok]

theorem numeralsToBody_eq_ok {a : Alphabet} {body : Str} {ns : List Nat} :
    numeralsToBody ns a = .ok body ↔ bodyToNumerals body a = .ok ns := by
  rw [bodyToNumerals_eq_ok]
  unfold numeralsToBody
  simp only [mapM_eq_ok, a.symbolAt_eq_ok]
  exact ⟨List.Forall₂.flip, List.Forall₂.flip⟩

lemma bodyToNumerals_spec {a : Alphabet} {body : Str} {ns : List Nat}
    (h : bodyToNumerals body a = .ok ns) :
    ns.length = body.length ∧ (∀ n ∈ ns, n < a.radix) ∧ ∀ c ∈ body, c ∈ a.chars := by
  have h2 := bodyToNumerals_eq_ok.mp h
  clear h
  induction h2 with
  | nil => simp
  | @cons c i body ns hci _ ih =>
    obtain ⟨h1, h2, h3⟩ := ih
    obtain ⟨hi, hc⟩ := List.getElem?_eq_some_iff.mp hci
    refine ⟨by simp [h1], ?_, ?_⟩
    · intro n hn
      rcases List.mem_cons.mp hn with rfl | hn
      · exact a.radix_eq_length.symm ▸ hi
      · exact h2 n hn
    · intro d hd
      rcases List.mem_cons.mp hd with rfl | hd
      · exact hc ▸ List.getElem_mem hi
      · exact h3 d hd

lemma exists_bodyToNumerals {a : Alphabet} {body : Str} (h : ∀ c ∈ body, c ∈ a.chars) :
    ∃ ns, bodyToNumerals body a = .ok ns := by
  induction body with
  | nil => exact ⟨[], rfl⟩
  | cons c body ih =>
    obtain ⟨ns, hns⟩ := ih fun d hd => h d (by simp [hd])
    obtain ⟨i, hi⟩ := a.exists_indexOf (h c (by simp))
    exact ⟨i :: ns, bodyToNumerals_eq_ok.mpr
      (.cons (a.indexOf_eq_some.mp hi) (bodyToNumerals_eq_ok.mp hns))⟩

lemma exists_numeralsToBody {a : Alphabet} {ns : List Nat} (h : ∀ n ∈ ns, n < a.radix) :
    ∃ body, numeralsToBody ns a = .ok body := by
  induction ns with
  | nil => exact ⟨[], rfl⟩
  | cons n ns ih =>
    obtain ⟨body, hbody⟩ := ih fun m hm => h m (by simp [hm])
    obtain ⟨c, -, hc⟩ := a.symbolAt_of_lt (h n (by simp))
    refine ⟨c :: body, mapM_eq_ok.mpr (.cons hc (mapM_eq_ok.mp hbody))⟩

/-- Over every alphabet that `try_custom` accepts, bodies and numeral strings below the radix are
the same thing, and neither direction panics. -/
theorem numeral_codec :
    (∀ chars, (∃ a, Alphabet.tryCustom chars = .ok a) ↔ isAscii chars = true ∧
      chars.any isWhitespace = false ∧ chars.Nodup ∧ 2 ≤ chars.length ∧ chars.length ≤ 65535) ∧
    ∀ chars a, Alphabet.tryCustom chars = .ok a →
      (∀ body : Str, (∀ c ∈ body, c ∈ chars) → ∃ ns, bodyToNumerals body a = .ok ns ∧
        (∀ n ∈ ns, n < a.radix) ∧ numeralsToBody ns a = .ok body) ∧
      ∀ ns : List Nat, (∀ n ∈ ns, n < a.radix) → ∃ body, numeralsToBody ns a = .ok body ∧
        (∀ c ∈ body, c ∈ chars) ∧ bodyToNumerals body a = .ok ns := by
  constructor
  · intro chars
    rw [Alphabet.tryCustom_isOk]
    constructor
    · exact fun h => ⟨h.ascii, h.noWhitespace, h.distinct, h.radixLow, h.radixHigh⟩
    · rintro ⟨hascii, hspace, hdistinct, hlow, hhigh⟩
      exact ⟨hascii, hspace, hlow, hhigh, hdistinct⟩
  · intro chars a ha
    obtain rfl := Alphabet.chars_of_tryCustom ha
    constructor
    · intro body hbody
      obtain ⟨ns, hns⟩ := exists_bodyToNumerals hbody
      exact ⟨ns, hns, (bodyToNumerals_spec hns).2.1, numeralsToBody_eq_ok.mpr hns⟩
    · intro ns hns
      obtain ⟨body, hbody⟩ := exists_numeralsToBody hns
      have hback := numeralsToBody_eq_ok.mp hbody
      exact ⟨body, hbody, (bodyToNumerals_spec hback).2.2, hback⟩

namespace FpeRegistration

lemma Eligible.body {reg : FpeRegistration} (h : reg.Eligible) :
    ∃ body, reg.value = reg.pfx ++ body ∧ body ≠ [] ∧ (∀ c ∈ body, c ∈ reg.alphabet.chars) ∧
      isAscii body = true ∧ body.length < 2 ^ 32 ∧
      minDomain ≤ reg.alphabet.radix ^ body.length := by
  obtain ⟨body, hv, hascii, -, hmem, hlen, hdom⟩ := checkEligibility_eq_ok.mp h
  refine ⟨body, hv, ?_, hmem, hascii, hlen, hdom⟩
  rintro rfl
  simp [minDomain] at hdom

lemma Eligible.pfx_lt {reg : FpeRegistration} (h : reg.Eligible) :
    byteLen reg.pfx < byteLen reg.value := by
  obtain ⟨body, hv, hne, -⟩ := h.body
  have hpos : byteLen body ≠ 0 := fun h0 => hne (byteLen_eq_zero.mp h0)
  rw [hv, byteLen_append]
  omega

lemma Eligible.value_ne_nil {reg : FpeRegistration} (h : reg.Eligible) : reg.value ≠ [] := by
  intro hnil
  have := h.pfx_lt
  simp [hnil] at this

end FpeRegistration

namespace FpeTokenizer

variable {X : Crates} {t : FpeTokenizer} {reg : FpeRegistration}

/-- The fake of a registration, when scrubbing it makes one. -/
def fake (X : Crates) (t : FpeTokenizer) (reg : FpeRegistration) : Option Str :=
  match t.scrub X reg with
  | .ok (.ok f) => some f
  | _ => none

lemma fake_eq_some {f : Str} : t.fake X reg = some f ↔ t.scrub X reg = .ok (.ok f) := by
  unfold fake
  split
  · rename_i g hg
    simp [hg]
  · rename_i hno
    simp only [reduceCtorEq, false_iff]
    exact fun h => hno f h

theorem scrub_eq_ok {f : Str} :
    t.scrub X reg = .ok (.ok f) ↔ reg.Eligible ∧ ∃ body ns ct cipherBody,
      reg.value = reg.pfx ++ body ∧ bodyToNumerals body reg.alphabet = .ok ns ∧
      X.ff1Encrypt t.ff1Key reg.alphabet.radix reg.tweak ns = some ct ∧
      numeralsToBody ct reg.alphabet = .ok cipherBody ∧ f = reg.pfx ++ cipherBody := by
  unfold scrub FpeRegistration.Eligible
  cases he : checkEligibility reg.value reg.pfx reg.alphabet with
  | error e => simp
  | ok u =>
    obtain ⟨body, hv, -⟩ := checkEligibility_eq_ok.mp he
    rw [hv, stripPrefix_eq_some.mpr rfl, expect_some]
    simp only [ok_bind, true_and]
    constructor
    · intro h
      obtain ⟨ns, hns, h⟩ := bind_eq_ok.mp h
      cases hct : X.ff1Encrypt t.ff1Key reg.alphabet.radix reg.tweak ns with
      | none => simp [hct] at h
      | some ct =>
        simp only [hct] at h
        obtain ⟨cipherBody, hcb, h⟩ := bind_eq_ok.mp h
        simp only [Except.ok.injEq] at h
        exact ⟨body, ns, ct, cipherBody, rfl, hns, hct, hcb, h.symm⟩
    · rintro ⟨body', ns, ct, cipherBody, hb, hns, hct, hcb, rfl⟩
      obtain rfl := List.append_cancel_left hb
      simp [hns, hct, hcb]

theorem scrub_isOk (hX : X.Ff1Lawful) (t : FpeTokenizer) (reg : FpeRegistration) :
    ∃ r, t.scrub X reg = .ok r := by
  unfold scrub
  cases he : checkEligibility reg.value reg.pfx reg.alphabet with
  | error e => exact ⟨_, rfl⟩
  | ok u =>
    obtain ⟨body, hv, -, -, hmem, -⟩ := checkEligibility_eq_ok.mp he
    rw [hv, stripPrefix_eq_some.mpr rfl, expect_some]
    obtain ⟨ns, hns⟩ := exists_bodyToNumerals hmem
    simp only [ok_bind, hns]
    cases hct : X.ff1Encrypt t.ff1Key reg.alphabet.radix reg.tweak ns with
    | none => exact ⟨_, rfl⟩
    | some ct =>
      obtain ⟨cb, hcb⟩ := exists_numeralsToBody (hX.encrypt_valid _ _ _ _ _ hct).2
      exact ⟨.ok (reg.pfx ++ cb), by simp [hcb]⟩

lemma new_isOk (hX : X.HkdfLawful) (vaultKey : List UInt8) : ∃ t, new X vaultKey = .ok t := by
  unfold new
  obtain ⟨key, hkey⟩ := Option.isSome_iff_exists.mp
    ((hX.expand_isSome vaultKey (utf8 "invisibool-ff1-key-v1".toList) 32).mpr (by omega))
  rw [hkey]
  exact ⟨_, rfl⟩

/-- The derived subkey has the 32 bytes of an AES-256 key. -/
lemma key_length (hX : X.HkdfLawful) {vaultKey : List UInt8} (h : new X vaultKey = .ok t) :
    t.ff1Key.length = 32 := by
  unfold new at h
  obtain ⟨key, hkey, ht⟩ := bind_eq_ok.mp h
  obtain rfl := Except.ok.inj ht
  unfold expect at hkey
  split at hkey
  · rename_i out hout
    obtain rfl := Except.ok.inj hkey
    exact hX.expand_length _ _ _ _ hout
  · cases hkey

theorem fake_of_eligible (hX : X.Ff1Lawful) (hkey : t.ff1Key.length = 32) (h : reg.Eligible) :
    ∃ f, t.fake X reg = some f := by
  obtain ⟨body, hv, -, hmem, -, hlen, hdom⟩ := h.body
  obtain ⟨ns, hns⟩ := exists_bodyToNumerals hmem
  obtain ⟨hl, hlt, -⟩ := bodyToNumerals_spec hns
  obtain ⟨ct, hct⟩ := hX.encrypt_total t.ff1Key reg.alphabet.radix reg.tweak ns hkey
    reg.alphabet.two_le_radix reg.alphabet.radix_le hlt (hl ▸ hlen) (hl ▸ hdom)
  obtain ⟨cb, hcb⟩ := exists_numeralsToBody (hX.encrypt_valid _ _ _ _ _ hct).2
  exact ⟨reg.pfx ++ cb, fake_eq_some.mpr
    (scrub_eq_ok.mpr ⟨h, body, ns, ct, cb, hv, hns, hct, hcb, rfl⟩)⟩

/-- A fake keeps the prefix, and its body has the length and the alphabet of the real one. -/
theorem fake_shape (hX : X.Ff1Lawful) {f : Str} (h : t.fake X reg = some f) :
    ∃ body cipherBody, reg.value = reg.pfx ++ body ∧ f = reg.pfx ++ cipherBody ∧
      cipherBody.length = body.length ∧ (∀ c ∈ body, c ∈ reg.alphabet.chars) ∧
      ∀ c ∈ cipherBody, c ∈ reg.alphabet.chars := by
  obtain ⟨-, body, ns, ct, cb, hv, hns, hct, hcb, hf⟩ := scrub_eq_ok.mp (fake_eq_some.mp h)
  obtain ⟨h1, -, h3⟩ := bodyToNumerals_spec hns
  obtain ⟨h4, -, h6⟩ := bodyToNumerals_spec (numeralsToBody_eq_ok.mp hcb)
  have h7 := (hX.encrypt_valid _ _ _ _ _ hct).1
  exact ⟨body, cb, hv, hf, by omega, h3, h6⟩

lemma isAscii_of_alphabet {a : Alphabet} {s : Str} (h : ∀ c ∈ s, c ∈ a.chars) :
    isAscii s = true :=
  isAscii_iff.mpr fun c hc => a.ascii_of_mem (h c hc)

theorem byteLen_fake (hX : X.Ff1Lawful) {f : Str} (h : t.fake X reg = some f) :
    byteLen f = byteLen reg.value := by
  obtain ⟨body, cb, hv, hf, hlen, h1, h2⟩ := fake_shape hX h
  rw [hv, hf, byteLen_append, byteLen_append, byteLen_of_ascii (isAscii_of_alphabet h1),
    byteLen_of_ascii (isAscii_of_alphabet h2), hlen]

/-- A value and its fake share the prefix, and the bodies are over the alphabet. -/
lemma isAscii_fake_iff (hX : X.Ff1Lawful) {f : Str} (h : t.fake X reg = some f) :
    isAscii f = true ↔ isAscii reg.value = true := by
  obtain ⟨body, cb, hv, hf, -, h1, h2⟩ := fake_shape hX h
  rw [hv, hf, isAscii_append, isAscii_append, isAscii_of_alphabet h1, isAscii_of_alphabet h2]

lemma profileBody_eq_some {candidate body : Str} :
    profileBody reg candidate = some body ↔ candidate = reg.pfx ++ body ∧
      byteLen body = byteLen reg.value - byteLen reg.pfx ∧ ∀ c ∈ body, c ∈ reg.alphabet.chars := by
  unfold profileBody
  cases hs : stripPrefix reg.pfx candidate with
  | none =>
    simp only [reduceCtorEq, false_iff, not_and]
    exact fun h => absurd h (stripPrefix_eq_none.mp hs body)
  | some b =>
    have hb := stripPrefix_eq_some.mp hs
    have hiff : candidate = reg.pfx ++ body ↔ b = body := by
      rw [hb]
      exact ⟨fun h => List.append_cancel_left h, fun h => h ▸ rfl⟩
    rw [hiff]
    dsimp only
    split
    · rename_i hlen
      simp only [reduceCtorEq, false_iff, not_and]
      rintro rfl h
      exact absurd h hlen
    · rename_i hlen
      rw [not_not] at hlen
      split
      · rename_i hall
        simp only [Option.some.injEq]
        simp only [List.all_eq_true, Alphabet.contains_iff] at hall
        exact ⟨fun h => ⟨h, h ▸ hlen, h ▸ hall⟩, fun h => h.1⟩
      · rename_i hall
        simp only [reduceCtorEq, false_iff, not_and]
        rintro rfl - h
        exact hall (by simpa using h)

theorem decryptsTo_isOk (hX : X.Ff1Lawful) {body : Str}
    (hbody : ∀ c ∈ body, c ∈ reg.alphabet.chars) : ∃ b, t.decryptsTo X reg body = .ok b := by
  unfold decryptsTo
  obtain ⟨ns, hns⟩ := exists_bodyToNumerals hbody
  rw [hns, ok_bind]
  cases hpt : X.ff1Decrypt t.ff1Key reg.alphabet.radix reg.tweak ns with
  | none => exact ⟨_, rfl⟩
  | some pt =>
    obtain ⟨pb, hpb⟩ := exists_numeralsToBody (hX.decrypt_valid _ _ _ _ _ hpt).2
    exact ⟨decide (reg.pfx ++ pb = reg.value), by simp only [hpb, ok_bind]⟩

lemma decryptsTo_eq_true {body : Str} :
    t.decryptsTo X reg body = .ok true ↔ ∃ ns pt ptBody, bodyToNumerals body reg.alphabet = .ok ns ∧
      X.ff1Decrypt t.ff1Key reg.alphabet.radix reg.tweak ns = some pt ∧
      numeralsToBody pt reg.alphabet = .ok ptBody ∧ reg.pfx ++ ptBody = reg.value := by
  unfold decryptsTo
  constructor
  · intro h
    obtain ⟨ns, hns, h⟩ := bind_eq_ok.mp h
    cases hpt : X.ff1Decrypt t.ff1Key reg.alphabet.radix reg.tweak ns with
    | none => simp [hpt] at h
    | some pt =>
      simp only [hpt] at h
      obtain ⟨pb, hpb, h⟩ := bind_eq_ok.mp h
      exact ⟨ns, pt, pb, hns, hpt, hpb, by simpa using h⟩
  · rintro ⟨ns, pt, pb, hns, hpt, hpb, hv⟩
    simp [hns, hpt, hpb, hv]

theorem decryptsTo_fake (hX : X.Ff1Lawful) {f : Str} (h : t.fake X reg = some f) :
    ∃ body, profileBody reg f = some body ∧ t.decryptsTo X reg body = .ok true := by
  obtain ⟨-, body, ns, ct, cb, hv, hns, hct, hcb, hf⟩ := scrub_eq_ok.mp (fake_eq_some.mp h)
  have hlen := byteLen_fake hX h
  refine ⟨cb, profileBody_eq_some.mpr ⟨hf, ?_, ?_⟩, ?_⟩
  · rw [hf, byteLen_append] at hlen
    omega
  · exact (bodyToNumerals_spec (numeralsToBody_eq_ok.mp hcb)).2.2
  · exact decryptsTo_eq_true.mpr ⟨ct, ns, body, numeralsToBody_eq_ok.mp hcb,
      hX.decrypt_encrypt _ _ _ _ _ hct, numeralsToBody_eq_ok.mpr hns, hv.symm⟩

theorem fake_of_decryptsTo (hX : X.Ff1Lawful) (he : reg.Eligible) {candidate body : Str}
    (hp : profileBody reg candidate = some body) (hd : t.decryptsTo X reg body = .ok true) :
    t.fake X reg = some candidate := by
  obtain ⟨ns, pt, pb, hns, hpt, hpb, hv⟩ := decryptsTo_eq_true.mp hd
  obtain ⟨hc, -, -⟩ := profileBody_eq_some.mp hp
  exact fake_eq_some.mpr (scrub_eq_ok.mpr ⟨he, pb, pt, ns, body, hv.symm,
    numeralsToBody_eq_ok.mp hpb, hX.encrypt_decrypt _ _ _ _ _ hpt,
    numeralsToBody_eq_ok.mpr hns, hc⟩)

theorem tryRestore_isOk (hX : X.Ff1Lawful) (t : FpeTokenizer) (candidate : Str)
    (regs : List FpeRegistration) : ∃ r, t.tryRestore X candidate regs = .ok r := by
  induction regs with
  | nil => exact ⟨none, rfl⟩
  | cons reg rest ih =>
    rw [tryRestore]
    cases hp : profileBody reg candidate with
    | none => exact ih
    | some body =>
      obtain ⟨b, hb⟩ := decryptsTo_isOk (t := t) hX (profileBody_eq_some.mp hp).2.2
      obtain ⟨r, hr⟩ := ih
      cases b with
      | true => exact ⟨some reg.value, by simp [hb]⟩
      | false => exact ⟨r, by simp [hb, hr]⟩

/-- What trial decryption gives back has the length of the candidate, and is ASCII text if that
is, whatever the registrations. -/
theorem tryRestore_shape {candidate real : Str} {regs : List FpeRegistration}
    (h : t.tryRestore X candidate regs = .ok (some real)) :
    byteLen candidate = byteLen real ∧ (isAscii candidate = true ↔ isAscii real = true) := by
  induction regs with
  | nil => cases h
  | cons reg rest ih =>
    rw [tryRestore] at h
    cases hp : profileBody reg candidate with
    | none =>
      rw [hp] at h
      exact ih h
    | some body =>
      rw [hp] at h
      obtain ⟨b, hb, h⟩ := bind_eq_ok.mp h
      cases b with
      | false => exact ih h
      | true =>
        obtain rfl := Option.some.inj (Except.ok.inj h)
        obtain ⟨hc, hlen, hbody⟩ := profileBody_eq_some.mp hp
        obtain ⟨ns, pt, ptBody, -, -, hpt, hreal⟩ := decryptsTo_eq_true.mp hb
        have hptBody := (bodyToNumerals_spec (numeralsToBody_eq_ok.mp hpt)).2.2
        have hle : byteLen reg.pfx ≤ byteLen reg.value := by
          rw [← hreal, byteLen_append]
          omega
        constructor
        · rw [hc, byteLen_append, hlen]
          omega
        · rw [hc, ← hreal, isAscii_append, isAscii_append, isAscii_of_alphabet hbody,
            isAscii_of_alphabet hptBody]

theorem tryRestore_of_fake (hX : X.Ff1Lawful) {f : Str} {regs : List FpeRegistration}
    (hmem : reg ∈ regs) (h : t.fake X reg = some f) :
    ∃ v, t.tryRestore X f regs = .ok (some v) := by
  induction regs with
  | nil => cases hmem
  | cons r rest ih =>
    rw [tryRestore]
    rcases List.mem_cons.mp hmem with rfl | hmem
    · obtain ⟨body, hp, hd⟩ := decryptsTo_fake hX h
      exact ⟨reg.value, by simp [hp, hd]⟩
    · obtain ⟨v, hv⟩ := ih hmem
      cases hp : profileBody r f with
      | none => exact ⟨v, hv⟩
      | some body =>
        obtain ⟨b, hb⟩ := decryptsTo_isOk (t := t) hX (profileBody_eq_some.mp hp).2.2
        cases b with
        | true => exact ⟨r.value, by simp [hb]⟩
        | false => exact ⟨v, by simp [hb, hv]⟩

/-- Over eligible registrations `try_restore` is the inverse of `scrub`. -/
theorem tryRestore_eq (hX : X.Ff1Lawful) {regs : List FpeRegistration}
    (he : ∀ r ∈ regs, r.Eligible) (candidate : Str) :
    t.tryRestore X candidate regs =
      .ok ((regs.find? fun r => t.fake X r = some candidate).map FpeRegistration.value) := by
  induction regs with
  | nil => rfl
  | cons r rest ih =>
    have ih := ih fun r hr => he r (by simp [hr])
    rw [tryRestore, List.find?_cons]
    cases hp : profileBody r candidate with
    | none =>
      have hno : t.fake X r ≠ some candidate := by
        intro h
        obtain ⟨body, hp', -⟩ := decryptsTo_fake hX h
        rw [hp] at hp'
        cases hp'
      simp [hno, ih]
    | some body =>
      obtain ⟨b, hb⟩ := decryptsTo_isOk (t := t) hX (profileBody_eq_some.mp hp).2.2
      cases b with
      | true => simp [hb, fake_of_decryptsTo hX (he r (by simp)) hp hb]
      | false =>
        have hno : t.fake X r ≠ some candidate := by
          intro h
          obtain ⟨body', hp', hd'⟩ := decryptsTo_fake hX h
          rw [hp] at hp'
          obtain rfl := Option.some.inj hp'
          rw [hb] at hd'
          cases hd'
        simp [hb, hno, ih]

lemma fake_of_tryRestore (hX : X.Ff1Lawful) {regs : List FpeRegistration}
    (he : ∀ r ∈ regs, r.Eligible) {candidate real : Str}
    (h : t.tryRestore X candidate regs = .ok (some real)) :
    ∃ r ∈ regs, t.fake X r = some candidate ∧ real = r.value := by
  rw [tryRestore_eq hX he] at h
  obtain ⟨r, hfind, hr⟩ := Option.map_eq_some_iff.mp (Except.ok.inj h)
  have hfake := List.find?_some hfind
  exact ⟨r, List.mem_of_find?_eq_some hfind, by simpa using hfake, hr.symm⟩

/-- Over any list of eligible registrations, duplicates included, trial decryption returns; it
gives a value exactly when some registration is scrubbed to the candidate, the value of the first
such one. -/
theorem tryRestore_inverts_scrub (hX : X.Ff1Lawful) (t : FpeTokenizer)
    {regs : List FpeRegistration} (he : ∀ r ∈ regs, r.Eligible) (candidate : Str) :
    (∃ res, t.tryRestore X candidate regs = .ok res) ∧
    (∀ v, t.tryRestore X candidate regs = .ok (some v) ↔ ∃ before reg after,
      regs = before ++ reg :: after ∧ t.scrub X reg = .ok (.ok candidate) ∧
        (∀ r ∈ before, t.scrub X r ≠ .ok (.ok candidate)) ∧ reg.value = v) ∧
    (t.tryRestore X candidate regs = .ok none ↔
      ∀ r ∈ regs, t.scrub X r ≠ .ok (.ok candidate)) := by
  rw [tryRestore_eq hX he]
  simp only [ne_eq, ← fake_eq_some]
  refine ⟨⟨_, rfl⟩, fun v => ?_, ?_⟩
  · rw [Except.ok.injEq, Option.map_eq_some_iff]
    simp only [List.find?_eq_some_iff_append, decide_eq_true_eq, Bool.not_eq_true',
      decide_eq_false_iff_not]
    constructor
    · rintro ⟨reg, ⟨hfake, before, after, hsplit, hfirst⟩, hv⟩
      exact ⟨before, reg, after, hsplit, hfake, hfirst, hv⟩
    · rintro ⟨before, reg, after, hsplit, hfake, hfirst, hv⟩
      exact ⟨reg, ⟨hfake, before, after, hsplit, hfirst⟩, hv⟩
  · rw [Except.ok.injEq, Option.map_eq_none_iff, List.find?_eq_none]
    simp only [decide_eq_true_eq]

/-- Two registrations with one fake: the text of the first one comes back. -/
theorem tryRestore_inverts_scrub_twice :
    let r : FpeRegistration :=
      ⟨"one".toList, "sk-AAAA".toList, Vector.replicate 16 0, .base62, "sk-".toList⟩
    let regs := [r, { r with label := "two".toList }]
    let t : FpeTokenizer := ⟨List.replicate 32 0⟩
    (∃ res, t.tryRestore Crates.reference "sk-BBBB".toList regs = .ok res) ∧
    (∀ v, t.tryRestore Crates.reference "sk-BBBB".toList regs = .ok (some v) ↔
      ∃ before reg after, regs = before ++ reg :: after ∧
        t.scrub Crates.reference reg = .ok (.ok "sk-BBBB".toList) ∧
        (∀ r ∈ before, t.scrub Crates.reference r ≠ .ok (.ok "sk-BBBB".toList)) ∧
        reg.value = v) ∧
    (t.tryRestore Crates.reference "sk-BBBB".toList regs = .ok none ↔
      ∀ r ∈ regs, t.scrub Crates.reference r ≠ .ok (.ok "sk-BBBB".toList)) :=
  tryRestore_inverts_scrub Crates.reference_ff1Lawful _ (by decide +kernel) "sk-BBBB".toList

end FpeTokenizer

end Invisibool
