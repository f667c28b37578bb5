import Invisibool.Tokenizer.FpeRestore
import Invisibool.Tokenizer.Mac
import Invisibool.Tokenizer.Reserved

/-!
# Idempotence

The ordered decision list that says whether a candidate is to be scrubbed or is already one of
our fakes. A candidate that equals a registered value is scrubbed whatever the checks say.
-/

namespace Invisibool
open Text

inductive NoOpReason
  | ff1DecryptedToRegistered
  | ff1DecryptedToRetired
  | reservedRange
  | macVerified
  deriving DecidableEq, Repr

inductive IdempotenceDecision
  | scrub
  | noOp (reason : NoOpReason)
  deriving DecidableEq, Repr

structure IdempotenceContext where
  registered : List FpeRegistration
  retired : List FpeRegistration
  fpeTokenizer : FpeTokenizer
  sessionMacKey : List UInt8

namespace IdempotenceContext

variable (X : Crates)

def classify (ctx : IdempotenceContext) (candidate : Str) (macAlphabet : Alphabet) :
    Outcome IdempotenceDecision :=
  if ctx.registered.any fun r => decide (candidate = r.value) then .ok .scrub
  else do
    if (← ctx.fpeTokenizer.tryRestore X candidate ctx.registered).isSome then
      .ok (.noOp .ff1DecryptedToRegistered)
    else if (← ctx.fpeTokenizer.tryRestore X candidate ctx.retired).isSome then
      .ok (.noOp .ff1DecryptedToRetired)
    else if isInReservedRange candidate then .ok (.noOp .reservedRange)
    else if ← macVerify X ctx.sessionMacKey candidate macAlphabet then .ok (.noOp .macVerified)
    else .ok .scrub

variable {X} {ctx : IdempotenceContext} {candidate : Str} {macAlphabet : Alphabet}

/-- The precedence rule: a registered value is always scrubbed. -/
lemma classify_of_registered {r : FpeRegistration} (hr : r ∈ ctx.registered) :
    ctx.classify X r.value macAlphabet = .ok .scrub := by
  have hany : (ctx.registered.any fun r' => decide (r.value = r'.value)) = true :=
    List.any_eq_true.mpr ⟨r, hr, by simp⟩
  unfold classify
  rw [if_pos hany]

/-- Away from the registered values one accepting check is enough, if the checks before it do
not panic. -/
lemma classify_noOp (hX : X.Ff1Lawful) (hne : ∀ r ∈ ctx.registered, candidate ≠ r.value)
    (haccept : (∃ v, ctx.fpeTokenizer.tryRestore X candidate ctx.registered = .ok (some v)) ∨
      (∃ v, ctx.fpeTokenizer.tryRestore X candidate ctx.retired = .ok (some v)) ∨
      isInReservedRange candidate = true ∨
      macVerify X ctx.sessionMacKey candidate macAlphabet = .ok true) :
    ∃ reason, ctx.classify X candidate macAlphabet = .ok (.noOp reason) := by
  have hany : ¬ (ctx.registered.any fun r => decide (candidate = r.value)) = true := by
    simpa using hne
  obtain ⟨o1, h1⟩ := ctx.fpeTokenizer.tryRestore_isOk hX candidate ctx.registered
  obtain ⟨o2, h2⟩ := ctx.fpeTokenizer.tryRestore_isOk hX candidate ctx.retired
  unfold classify
  rw [if_neg hany, h1, ok_bind]
  by_cases hs1 : o1.isSome = true
  · rw [if_pos hs1]
    exact ⟨_, rfl⟩
  rw [if_neg hs1, h2, ok_bind]
  by_cases hs2 : o2.isSome = true
  · rw [if_pos hs2]
    exact ⟨_, rfl⟩
  rw [if_neg hs2]
  by_cases hs3 : isInReservedRange candidate = true
  · rw [if_pos hs3]
    exact ⟨_, rfl⟩
  rw [if_neg hs3]
  rcases haccept with ⟨v, hv⟩ | ⟨v, hv⟩ | hv | hv
  · rw [h1] at hv
    obtain rfl := Except.ok.inj hv
    simp at hs1
  · rw [h2] at hv
    obtain rfl := Except.ok.inj hv
    simp at hs2
  · exact absurd hv hs3
  · rw [hv, ok_bind, if_pos rfl]
    exact ⟨_, rfl⟩

/-- The fakes that an engine with these registrations and keys can write. -/
inductive EmittedFake (X : Crates) (ctx : IdempotenceContext) : Str → Prop
  | ff1 {reg : FpeRegistration} {fake : Str} : reg ∈ ctx.registered ++ ctx.retired →
      ctx.fpeTokenizer.scrub X reg = .ok (.ok fake) → EmittedFake X ctx fake
  | email (seed : List UInt8) : EmittedFake X ctx (fakeEmail X seed)
  | ipv4 (seed : List UInt8) : EmittedFake X ctx (fakeIpv4 X seed)
  | phone (seed : List UInt8) : EmittedFake X ctx (fakePhone X seed)
  | card {seed : List UInt8} {original fake : Str} :
      fakeCardVisa16 X seed original = .ok (some fake) → EmittedFake X ctx fake
  | formatless {value fake : Str} :
      makeMacfake X ctx.sessionMacKey value .base62 = .ok (some fake) → EmittedFake X ctx fake

lemma EmittedFake.noOp (hFf1 : X.Ff1Lawful) (hHkdf : X.HkdfLawful) {fake : Str}
    (h : EmittedFake X ctx fake) (hne : ∀ r ∈ ctx.registered, fake ≠ r.value) :
    ∃ reason, ctx.classify X fake .base62 = .ok (.noOp reason) := by
  apply classify_noOp hFf1 hne
  cases h with
  | ff1 hmem hscrub =>
    have hfake := FpeTokenizer.fake_eq_some.mpr hscrub
    rcases List.mem_append.mp hmem with hmem | hmem
    · exact .inl (FpeTokenizer.tryRestore_of_fake hFf1 hmem hfake)
    · exact .inr (.inl (FpeTokenizer.tryRestore_of_fake hFf1 hmem hfake))
  | email seed => exact .inr (.inr (.inl fakeEmail_isInReservedRange))
  | ipv4 seed => exact .inr (.inr (.inl fakeIpv4_isInReservedRange))
  | phone seed => exact .inr (.inr (.inl fakePhone_isInReservedRange))
  | card hcard => exact .inr (.inr (.inl (fakeCardVisa16_isInReservedRange hcard)))
  | formatless hmac => exact .inr (.inr (.inr (macVerify_makeMacfake hHkdf hmac)))

/-- The generators and the recognisers agree: each fake is recognised as one, unless it equals
a registered value, and each generator gives a fake on its whole domain. -/
theorem emittedFake_noOp (hFf1 : X.Ff1Lawful) (hHkdf : X.HkdfLawful) {vaultKey : List UInt8}
    {t : FpeTokenizer} (ht : FpeTokenizer.new X vaultKey = .ok t) (macKey : List UInt8)
    (registered retired : List FpeRegistration) :
    (∀ fake, EmittedFake X ⟨registered, retired, t, macKey⟩ fake →
      (∀ r ∈ registered, fake ≠ r.value) →
      ∃ reason, classify X ⟨registered, retired, t, macKey⟩ fake .base62 = .ok (.noOp reason)) ∧
    (∀ reg, reg.Eligible → ∃ fake, t.scrub X reg = .ok (.ok fake)) ∧
    (∀ seed original, (original.filter isAsciiDigit).length = 16 →
      ∃ fake, fakeCardVisa16 X seed original = .ok (some fake)) ∧
    (∀ value, Alphabet.base62.macTailLen < byteLen value →
      byteLen value ≤ Alphabet.base62.macTailLen + 255 * 32 →
      ∃ fake, makeMacfake X macKey value .base62 = .ok (some fake)) := by
  refine ⟨fun fake h hne => h.noOp hFf1 hHkdf hne, fun reg hreg => ?_, fun seed original h16 => ?_,
    fun value hlong hshort => ?_⟩
  · have hkey := FpeTokenizer.key_length hHkdf ht
    obtain ⟨fake, hfake⟩ := FpeTokenizer.fake_of_eligible hFf1 hkey hreg
    exact ⟨fake, FpeTokenizer.fake_eq_some.mp hfake⟩
  · obtain ⟨r, hr, hnone, -⟩ := fakeCardVisa16_isOk X seed original
    cases r with
    | none => exact absurd h16 (hnone.mp rfl)
    | some fake => exact ⟨fake, hr⟩
  · obtain ⟨r, hr⟩ : ∃ r, makeMacfake X macKey value .base62 = .ok r :=
      (makeMacfake_isOk hHkdf).mpr hshort
    cases r with
    | none => exact absurd (makeMacfake_eq_none.mp hr) (by omega)
    | some fake => exact ⟨fake, hr⟩

/-- A phone fake under a vault whose one value is retired. -/
theorem emittedFake_noOp_reference :
    ∃ reason, classify Crates.reference
      ⟨[], [⟨[], "AAAA".toList, Vector.replicate 16 0, .base62, []⟩],
      ⟨List.replicate 32 0⟩, []⟩ (fakePhone Crates.reference [1]) .base62 = .ok (.noOp reason) :=
  (emittedFake_noOp Crates.reference_ff1Lawful Crates.reference_hkdfLawful
    (show FpeTokenizer.new _ [] = .ok ⟨List.replicate 32 0⟩ by rfl) [] [] _).1 _ (.phone [1])
    (by simp)

end IdempotenceContext

end Invisibool
