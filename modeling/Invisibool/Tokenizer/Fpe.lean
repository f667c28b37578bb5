import Invisibool.Crates
import Invisibool.Tokenizer.Alphabet

/-!
# Format-preserving encryption

The FF1 path: eligibility, the numeral codec, `FpeTokenizer::scrub`, and restoration by trial
decryption over a set of registrations.
-/

namespace Invisibool
open Text

/-- The smallest FF1 domain, `radix ^ length`, that is accepted. -/
def minDomain : Nat := 1000000

structure FpeRegistration where
  label : Str
  value : Str
  tweak : Vector UInt8 16
  alphabet : Alphabet
  pfx : Str
  deriving DecidableEq

inductive PiiKind
  | email
  | ipv4
  | phone
  deriving DecidableEq, Repr

inductive SessionFakeKind
  | card
  | pii (kind : PiiKind)
  | formatless
  deriving DecidableEq, Repr

structure SessionRegistration where
  label : Str
  value : Str
  kind : SessionFakeKind
  deriving DecidableEq, Repr

inductive RegisteredValue
  | fpe (r : FpeRegistration)
  | sessionMapped (s : SessionRegistration)
  deriving DecidableEq

namespace RegisteredValue

def value : RegisteredValue → Str
  | fpe r => r.value
  | sessionMapped s => s.value

def label : RegisteredValue → Str
  | fpe r => r.label
  | sessionMapped s => s.label

end RegisteredValue

inductive EligibilityError
  | prefixMissing
  | valueNotAscii
  | valueContainsWhitespace
  | charNotInAlphabet (ch : Char)
  | domainTooSmall (radix length : Nat)
  | bodyTooLong
  deriving DecidableEq, Repr

inductive FpeError
  | eligibility (e : EligibilityError)
  | ff1
  deriving DecidableEq, Repr

/-- `radix.checked_pow(length).unwrap_or(u64::MAX)`. -/
def domainSize (radix length : Nat) : Nat :=
  if radix ^ length < 2 ^ 64 then radix ^ length else 2 ^ 64 - 1

def checkEligibility (value pfx : Str) (alphabet : Alphabet) : Except EligibilityError Unit :=
  match stripPrefix pfx value with
  | none => .error .prefixMissing
  | some body =>
    if isAscii body = false then .error .valueNotAscii
    else if body.any isWhitespace then .error .valueContainsWhitespace
    else match body.find? (fun c => !alphabet.contains c) with
      | some ch => .error (.charNotInAlphabet ch)
      | none =>
        if 2 ^ 32 ≤ body.length then .error .bodyTooLong
        else if domainSize alphabet.radix body.length < minDomain then
          .error (.domainTooSmall alphabet.radix body.length)
        else .ok ()

def charToNumeral (alphabet : Alphabet) (c : Char) : Outcome Nat := do
  let i ← expect (alphabet.indexOf c)
    "body chars in alphabet (eligibility-checked or profile-filtered)"
  expect (if i < 2 ^ 16 then some i else none) "alphabet radix ≤ 65535, so indices fit in u16"

def bodyToNumerals (body : Str) (alphabet : Alphabet) : Outcome (List Nat) :=
  body.mapM (charToNumeral alphabet)

def numeralsToBody (numerals : List Nat) (alphabet : Alphabet) : Outcome Str :=
  numerals.mapM alphabet.symbolAt

structure FpeTokenizer where
  ff1Key : List UInt8
  deriving DecidableEq

namespace FpeTokenizer

variable (X : Crates)

def new (vaultKey : List UInt8) : Outcome FpeTokenizer := do
  let key ← expect (X.hkdfExpand vaultKey (utf8 "invisibool-ff1-key-v1".toList) 32)
    "32-byte expansion always succeeds with HKDF-SHA256"
  .ok ⟨key⟩

/-- Strip the prefix, encrypt the body, and put the fake together again. -/
def scrub (t : FpeTokenizer) (reg : FpeRegistration) : Outcome (Except FpeError Str) :=
  match checkEligibility reg.value reg.pfx reg.alphabet with
  | .error e => .ok (.error (.eligibility e))
  | .ok () => do
    let body ← expect (stripPrefix reg.pfx reg.value) "eligibility check verified prefix"
    let numerals ← bodyToNumerals body reg.alphabet
    match X.ff1Encrypt t.ff1Key reg.alphabet.radix reg.tweak numerals with
    | none => .ok (.error .ff1)
    | some ct => do
      let cipherBody ← numeralsToBody ct reg.alphabet
      .ok (.ok (reg.pfx ++ cipherBody))

/-- Does the candidate have the shape of the registration's fakes? If so, its body. -/
def profileBody (reg : FpeRegistration) (candidate : Str) : Option Str :=
  match stripPrefix reg.pfx candidate with
  | none => none
  | some body =>
    if byteLen body ≠ byteLen reg.value - byteLen reg.pfx then none
    else if body.all reg.alphabet.contains then some body else none

def decryptsTo (t : FpeTokenizer) (reg : FpeRegistration) (body : Str) : Outcome Bool := do
  let numerals ← bodyToNumerals body reg.alphabet
  match X.ff1Decrypt t.ff1Key reg.alphabet.radix reg.tweak numerals with
  | none => .ok false
  | some pt => do
    let ptBody ← numeralsToBody pt reg.alphabet
    .ok (decide (reg.pfx ++ ptBody = reg.value))

/-- The value of the first registration whose trial decryption gives it. -/
def tryRestore (t : FpeTokenizer) (candidate : Str) : List FpeRegistration → Outcome (Option Str)
  | [] => .ok none
  | reg :: rest =>
    match profileBody reg candidate with
    | none => tryRestore t candidate rest
    | some body => do
      if ← t.decryptsTo X reg body then .ok (some reg.value) else tryRestore t candidate rest

end FpeTokenizer

/-- The registration passes the check that is made at registration and again at scrub time. -/
def FpeRegistration.Eligible (reg : FpeRegistration) : Prop :=
  checkEligibility reg.value reg.pfx reg.alphabet = .ok ()

instance (reg : FpeRegistration) : Decidable reg.Eligible :=
  match h : checkEligibility reg.value reg.pfx reg.alphabet with
  | .ok () => isTrue h
  | .error _ => isFalse (by simp [FpeRegistration.Eligible, h])

theorem domainSize_lt_minDomain (radix length : Nat) :
    domainSize radix length < minDomain ↔ radix ^ length < minDomain := by
  unfold domainSize minDomain
  split <;> omega

lemma find?_not_contains {body : Str} {alphabet : Alphabet} :
    body.find? (fun c => !alphabet.contains c) = none ↔ ∀ c ∈ body, c ∈ alphabet.chars := by
  rw [List.find?_eq_none]
  constructor
  · intro h c hc
    have hcontains := h c hc
    rw [Bool.not_eq_true, Bool.not_eq_false'] at hcontains
    exact (alphabet.contains_iff c).mp hcontains
  · intro h c hc
    rw [(alphabet.contains_iff c).mpr (h c hc)]
    exact Bool.false_ne_true

lemma checkEligibility_append {pfx body : Str} {alphabet : Alphabet} :
    checkEligibility (pfx ++ body) pfx alphabet = .ok () ↔
      isAscii body = true ∧ body.any isWhitespace = false ∧
        (∀ c ∈ body, c ∈ alphabet.chars) ∧ body.length < 2 ^ 32 ∧
        minDomain ≤ alphabet.radix ^ body.length := by
  have hno : ∀ e : EligibilityError, Except.error e ≠ Except.ok () := fun e h => by cases h
  rw [checkEligibility, stripPrefix_eq_some.mpr rfl, ← find?_not_contains, ← Nat.not_le,
    ← Nat.not_lt (a := alphabet.radix ^ _), ← domainSize_lt_minDomain]
  dsimp only
  cases isAscii body with
  | false => exact ⟨fun h => absurd h (hno _), fun h => absurd h.1 Bool.false_ne_true⟩
  | true =>
    cases body.any isWhitespace with
    | true => exact ⟨fun h => absurd h (hno _), fun h => absurd h.2.1.symm Bool.false_ne_true⟩
    | false =>
      cases body.find? (fun c => !alphabet.contains c) with
      | some ch => exact ⟨fun h => absurd h (hno _), fun h => absurd h.2.2.1 (Option.some_ne_none ch)⟩
      | none =>
        rw [if_neg (fun h => Bool.false_ne_true h.symm), if_neg Bool.false_ne_true]
        by_cases hlen : 2 ^ 32 ≤ body.length
        · rw [if_pos hlen]
          exact ⟨fun h => absurd h (hno _), fun h => absurd hlen h.2.2.2.1⟩
        · rw [if_neg hlen]
          by_cases hdomain : domainSize alphabet.radix body.length < minDomain
          · rw [if_pos hdomain]
            exact ⟨fun h => absurd h (hno _), fun h => absurd hdomain h.2.2.2.2⟩
          · rw [if_neg hdomain]
            exact ⟨fun _ => ⟨rfl, rfl, rfl, hlen, hdomain⟩, fun _ => rfl⟩

theorem checkEligibility_eq_ok {value pfx : Str} {alphabet : Alphabet} :
    checkEligibility value pfx alphabet = .ok () ↔
      ∃ body, value = pfx ++ body ∧ isAscii body = true ∧ body.any isWhitespace = false ∧
        (∀ c ∈ body, c ∈ alphabet.chars) ∧ body.length < 2 ^ 32 ∧
        minDomain ≤ alphabet.radix ^ body.length := by
  constructor
  · intro h
    cases hbody : stripPrefix pfx value with
    | none =>
      rw [checkEligibility, hbody] at h
      cases h
    | some body =>
      obtain rfl := stripPrefix_eq_some.mp hbody
      exact ⟨body, rfl, checkEligibility_append.mp h⟩
  · rintro ⟨body, rfl, hbody⟩
    exact checkEligibility_append.mpr hbody

end Invisibool
