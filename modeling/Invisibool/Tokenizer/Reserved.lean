import Invisibool.Crates
import Invisibool.Text.Utf8
import Mathlib.Tactic.IntervalCases

/-!
# Reserved-range fakes

Generators of e-mail addresses, IPv4 addresses, phone numbers and card numbers inside ranges
that belong to nobody. Each is a function of the seed.
-/

namespace Invisibool
open Text

def toDigit (c : Char) : Option Nat := if isAsciiDigit c then some (c.toNat - 48) else none

/-- The contribution of a digit at a distance from the right end. -/
def luhnValue (positionFromRight d : Nat) : Nat :=
  let v := if positionFromRight % 2 = 0 then d else d * 2
  if 9 < v then v - 9 else v

/-- `u32` addition. -/
def addU32 (a b : Nat) : Nat := (a + b) % 2 ^ 32

/-- The loop of `luhn_check_digit`, from index `i` and the sum so far. -/
def luhnCheckSum (n : Nat) : Nat → Nat → Str → Outcome Nat
  | _, sum, [] => .ok sum
  | i, sum, c :: cs => do
    let d ← expect (toDigit c) "digits parameter contains only ASCII digit characters"
    luhnCheckSum n (i + 1) (addU32 sum (luhnValue (n - i) d)) cs

def luhnCheckDigit (digits : Str) : Outcome Nat := do
  let sum ← luhnCheckSum (byteLen digits) 0 0 digits
  .ok ((10 - sum % 10) % 10)

/-- The loop of `luhn_valid`; `none` at a character that is no digit. -/
def luhnSum (n : Nat) : Nat → Nat → Str → Option Nat
  | _, sum, [] => some sum
  | i, sum, c :: cs =>
    match toDigit c with
    | none => none
    | some d => luhnSum n (i + 1) (addU32 sum (luhnValue (n - 1 - i) d)) cs

def luhnValid (digits : Str) : Bool :=
  match luhnSum (byteLen digits) 0 0 digits with
  | none => false
  | some sum => sum % 10 == 0

/-- Write the digits over the digits of the original, keeping everything else. -/
def overlayDigits : Str → Str → Outcome Str
  | [], _ => .ok []
  | c :: cs, digits =>
    if isAsciiDigit c then
      match digits with
      | [] => .error (.expect
          "digit count matched 16 above; iterator cannot be exhausted early")
      | d :: ds => do
        let rest ← overlayDigits cs ds
        .ok (d :: rest)
    else do
      let rest ← overlayDigits cs digits
      .ok (c :: rest)

section

variable (X : Crates)

def fakeEmail (seed : List UInt8) : Str :=
  ((X.sha256 seed).toList.take 10).map (fun b => Char.ofNat (97 + b.toNat % 26)) ++
    "@example.com".toList

def fakeIpv4 (seed : List UInt8) : Str :=
  "192.0.2.".toList ++ Nat.toDigits 10 ((X.sha256 seed)[0]).toNat

def fakePhone (seed : List UInt8) : Str :=
  let suffix := ((X.sha256 seed)[0]).toNat % 100
  "555-01".toList ++ (if suffix < 10 then '0' :: Nat.toDigits 10 suffix else Nat.toDigits 10 suffix)

def cardDigits (seed : List UInt8) : Str :=
  "4242".toList ++
    ((X.sha256 seed).toList.take 11).map (fun b => Char.ofNat (48 + b.toNat % 10))

def fakeCardVisa16 (seed : List UInt8) (original : Str) : Outcome (Option Str) :=
  if (original.filter isAsciiDigit).length ≠ 16 then .ok none
  else do
    let check ← luhnCheckDigit (cardDigits X seed)
    let out ← overlayDigits original (cardDigits X seed ++ [Char.ofNat (48 + check)])
    .ok (some out)

end

def isEmailExampleDomain (candidate : Str) : Bool :=
  [".com", ".org", ".net"].any fun tld => ("@example".toList ++ tld.toList).isSuffixOf candidate

def isIpv4Rfc5737 (candidate : Str) : Bool :=
  ["192.0.2.", "198.51.100.", "203.0.113."].any fun p => p.toList.isPrefixOf candidate

def isPhone55501 (candidate : Str) : Bool :=
  byteLen candidate == 8 && "555-01".toList.isPrefixOf candidate &&
    (((utf8 candidate).drop 6).take 2).all fun b => 48 ≤ b.toNat && b.toNat ≤ 57

def isCardTestBin4242 (candidate : Str) : Bool :=
  let digits := candidate.filter isAsciiDigit
  digits.length == 16 && ['4', '2', '4', '2'].isPrefixOf digits

def isInReservedRange (candidate : Str) : Bool :=
  isEmailExampleDomain candidate || isIpv4Rfc5737 candidate || isPhone55501 candidate ||
    isCardTestBin4242 candidate

variable {X : Crates} {seed : List UInt8}

lemma isAsciiDigit_ofNat {n : Nat} (h : n < 10) : isAsciiDigit (Char.ofNat (48 + n)) = true := by
  interval_cases n <;> decide

lemma fakeEmail_isInReservedRange : isInReservedRange (fakeEmail X seed) = true := by
  have h : isEmailExampleDomain (fakeEmail X seed) = true := by
    unfold isEmailExampleDomain
    rw [List.any_cons, Bool.or_eq_true]
    left
    apply List.isSuffixOf_iff_suffix.mpr
    have htld : "@example".toList ++ ".com".toList = "@example.com".toList := by decide
    rw [htld]
    exact List.suffix_append _ _
  simp [isInReservedRange, h]

lemma fakeIpv4_isInReservedRange : isInReservedRange (fakeIpv4 X seed) = true := by
  have h : isIpv4Rfc5737 (fakeIpv4 X seed) = true := by
    unfold isIpv4Rfc5737
    rw [List.any_cons, Bool.or_eq_true]
    exact .inl (List.isPrefixOf_iff_prefix.mpr (List.prefix_append _ _))
  simp [isInReservedRange, h]

lemma phoneSuffix {n : Nat} (h : n < 100) :
    ∃ a b, (if n < 10 then '0' :: Nat.toDigits 10 n else Nat.toDigits 10 n) = [a, b] ∧
      isAsciiDigit a = true ∧ isAsciiDigit b = true := by
  interval_cases n <;> exact ⟨_, _, rfl, by decide, by decide⟩

lemma fakePhone_isInReservedRange : isInReservedRange (fakePhone X seed) = true := by
  have hlt : ((X.sha256 seed)[0]).toNat % 100 < 100 := Nat.mod_lt _ (by omega)
  obtain ⟨a, b, hab, ha, hb⟩ := phoneSuffix hlt
  have hfake : fakePhone X seed = "555-01".toList ++ [a, b] := by
    unfold fakePhone
    dsimp only
    rw [hab]
  have hdigit : ∀ c, isAsciiDigit c = true → c.toNat < 128 ∧ 48 ≤ c.toNat ∧ c.toNat ≤ 57 := by
    intro c hc
    simp only [isAsciiDigit, Bool.and_eq_true, decide_eq_true_eq] at hc
    omega
  have hbytes : ∀ c, isAsciiDigit c = true →
      String.utf8EncodeChar c = [UInt8.ofNat c.toNat] ∧ (UInt8.ofNat c.toNat).toNat = c.toNat := by
    intro c hc
    have hlt := (hdigit c hc).1
    refine ⟨?_, by simp [Nat.mod_eq_of_lt (show c.toNat < 256 by omega)]⟩
    rw [String.utf8EncodeChar_eq_singleton (utf8Size_of_ascii hlt)]
    rfl
  have hutf8 : utf8 (fakePhone X seed) =
      utf8 "555-01".toList ++ [UInt8.ofNat a.toNat, UInt8.ofNat b.toNat] := by
    rw [hfake, utf8_append, utf8_cons, utf8_cons, (hbytes a ha).1, (hbytes b hb).1]
    rfl
  have hsix : (utf8 "555-01".toList).length = 6 := by decide
  have hlen : byteLen (fakePhone X seed) = 8 := by
    rw [← length_utf8, hutf8, List.length_append, hsix]
    rfl
  have hdrop : (utf8 (fakePhone X seed)).drop 6 = [UInt8.ofNat a.toNat, UInt8.ofNat b.toNat] := by
    rw [hutf8, ← hsix, List.drop_left]
  have hpre : "555-01".toList.isPrefixOf (fakePhone X seed) = true := by
    rw [hfake]
    exact List.isPrefixOf_iff_prefix.mpr (List.prefix_append _ _)
  have h : isPhone55501 (fakePhone X seed) = true := by
    obtain ⟨-, ha1, ha2⟩ := hdigit a ha
    obtain ⟨-, hb1, hb2⟩ := hdigit b hb
    unfold isPhone55501
    rw [hlen, hpre, hdrop]
    simp [(hbytes a ha).2, (hbytes b hb).2, ha1, ha2, hb1, hb2]
  simp [isInReservedRange, h]

lemma cardDigits_spec (X : Crates) (seed : List UInt8) :
    (cardDigits X seed).length = 15 ∧ (∀ c ∈ cardDigits X seed, isAsciiDigit c = true) ∧
      ['4', '2', '4', '2'] <+: cardDigits X seed := by
  have hbin : "4242".toList = ['4', '2', '4', '2'] := by decide
  unfold cardDigits
  rw [hbin]
  have hdig : ['4', '2', '4', '2'].all isAsciiDigit = true := by decide
  refine ⟨by simp, ?_, List.prefix_append _ _⟩
  intro c hc
  rcases List.mem_append.mp hc with hc | hc
  · exact List.all_eq_true.mp hdig c hc
  · obtain ⟨b, -, rfl⟩ := List.mem_map.mp hc
    exact isAsciiDigit_ofNat (Nat.mod_lt _ (by omega))

lemma luhnCheckSum_isOk (n i sum : Nat) {digits : Str}
    (h : ∀ c ∈ digits, isAsciiDigit c = true) : ∃ s, luhnCheckSum n i sum digits = .ok s := by
  induction digits generalizing i sum with
  | nil => exact ⟨sum, rfl⟩
  | cons c cs ih =>
    have hc := h c (by simp)
    rw [luhnCheckSum]
    simp only [toDigit, hc, if_true, expect_some, ok_bind]
    exact ih _ _ fun d hd => h d (by simp [hd])

lemma luhnCheckDigit_isOk {digits : Str} (h : ∀ c ∈ digits, isAsciiDigit c = true) :
    ∃ d, luhnCheckDigit digits = .ok d ∧ d < 10 := by
  obtain ⟨s, hs⟩ := luhnCheckSum_isOk (byteLen digits) 0 0 h
  exact ⟨(10 - s % 10) % 10, by simp [luhnCheckDigit, hs], Nat.mod_lt _ (by omega)⟩

/-- The overlay succeeds when there are enough digits, and these become the digits of the text. -/
lemma overlayDigits_spec {original digits : Str} (hd : ∀ c ∈ digits, isAsciiDigit c = true)
    (hlen : (original.filter isAsciiDigit).length = digits.length) :
    ∃ out, overlayDigits original digits = .ok out ∧ out.filter isAsciiDigit = digits := by
  induction original generalizing digits with
  | nil =>
    have : digits = [] := List.length_eq_zero_iff.mp (by simpa using hlen.symm)
    exact ⟨[], rfl, by simp [this]⟩
  | cons c cs ih =>
    unfold overlayDigits
    by_cases hc : isAsciiDigit c = true
    · cases digits with
      | nil => simp [hc] at hlen
      | cons d ds =>
        have hds : ∀ x ∈ ds, isAsciiDigit x = true := fun x hx => hd x (by simp [hx])
        obtain ⟨out, hout, hfilter⟩ := ih hds (by simpa [hc] using hlen)
        exact ⟨d :: out, by simp [hc, hout], by simp [hd d (by simp), hfilter]⟩
    · obtain ⟨out, hout, hfilter⟩ := ih hd (by simpa [hc] using hlen)
      exact ⟨c :: out, by simp [hc, hout], by simp [hc, hfilter]⟩

/-- A card of 16 digits gets a fake, whose digits are 16 and start with the test BIN. -/
theorem fakeCardVisa16_isOk (X : Crates) (seed : List UInt8) (original : Str) :
    ∃ r, fakeCardVisa16 X seed original = .ok r ∧
      (r = none ↔ (original.filter isAsciiDigit).length ≠ 16) ∧
      ∀ f, r = some f → (f.filter isAsciiDigit).length = 16 ∧
        ['4', '2', '4', '2'] <+: f.filter isAsciiDigit := by
  unfold fakeCardVisa16
  by_cases h16 : (original.filter isAsciiDigit).length = 16
  · obtain ⟨hlen, hdig, hpre⟩ := cardDigits_spec X seed
    obtain ⟨d, hd, hlt⟩ := luhnCheckDigit_isOk hdig
    have hall : ∀ c ∈ cardDigits X seed ++ [Char.ofNat (48 + d)], isAsciiDigit c = true := by
      intro c hc
      rcases List.mem_append.mp hc with hc | hc
      · exact hdig c hc
      · rw [List.mem_singleton.mp hc]
        exact isAsciiDigit_ofNat hlt
    have hcount : (original.filter isAsciiDigit).length =
        (cardDigits X seed ++ [Char.ofNat (48 + d)]).length := by simp [h16, hlen]
    obtain ⟨out, hout, hfilter⟩ := overlayDigits_spec hall hcount
    refine ⟨some out, by simp [h16, hd, hout], by simp [h16], ?_⟩
    intro f hf
    obtain rfl := Option.some.inj hf
    rw [hfilter]
    exact ⟨by simp [hlen], hpre.trans (List.prefix_append _ _)⟩
  · exact ⟨none, by simp [h16], by simp [h16], by simp⟩

lemma fakeCardVisa16_isInReservedRange {original f : Str}
    (h : fakeCardVisa16 X seed original = .ok (some f)) : isInReservedRange f = true := by
  obtain ⟨r, hr, -, hf⟩ := fakeCardVisa16_isOk X seed original
  rw [hr] at h
  obtain rfl := Except.ok.inj h
  obtain ⟨hlen, hpre⟩ := hf f rfl
  have h4242 : isCardTestBin4242 f = true := by
    simp only [isCardTestBin4242, hlen, beq_self_eq_true, Bool.true_and]
    exact List.isPrefixOf_iff_prefix.mpr hpre
  simp [isInReservedRange, h4242]

end Invisibool
