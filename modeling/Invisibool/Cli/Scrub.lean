import Invisibool.Cli.Register
import Invisibool.Engine.Total

/-!
# Scrubbing with a vault that the commands built

The vault holds eligible FF1 values and `Formatless` ones, nothing else, so what can go wrong in
a scrub comes down to the two limits that `register` does not check.
-/

namespace Invisibool
open Text Matching

namespace Engine

/-- Every match of a registration without a fake has become a placeholder, with a notice. -/
def Redacts (X : Crates) (e : Engine) (input : Str) (res : EngineScrubResult) : Prop :=
  ∃ steps tail, Walk X e 0 input (e.exactMatcher.scan input) steps tail ∧
    res.output = target (steps.map Step.edit) tail ∧
    ∀ s ∈ steps, (∀ fake, ¬ GeneratorFake X e s.reg fake) →
      s.disposal.text = redactionPlaceholder ∧
        ∃ notice ∈ res.notices, notice.isRedacted = true ∧ notice.label = s.reg.label

variable {X : Crates} {ord : HashOrder} {e : Engine} {input : Str}

lemma redacts_resultOf (stored : Bool) {steps : List Step} {tail : Str}
    (h : Walk X e 0 input (e.exactMatcher.scan input) steps tail) :
    Redacts X e input (resultOf stored steps tail) := by
  refine ⟨steps, tail, h, rfl, fun s hs hnone => ?_⟩
  have hd := (h.disposed s hs).2
  cases hdisp : s.disposal with
  | fake text => exact absurd (dispose_eq_fake.mp (hdisp ▸ hd)) (hnone text)
  | redacted notice =>
    obtain ⟨h1, h2⟩ := dispose_eq_redacted (hdisp ▸ hd)
    refine ⟨rfl, notice, List.mem_flatMap.mpr ⟨s, hs, ?_⟩, h1, h2⟩
    simp [Step.notices, hdisp]

end Engine

namespace Cli
open Engine

variable {X : Crates} {ord : HashOrder} {e : Engine} {input : Str}

/-- What `register` does not check: no match is of a `Formatless` value that is longer than HKDF
can fill, and with the empty value registered no character of several bytes is left uncovered. -/
def WithinLimits (v : Vault) (e : Engine) (input : Str) : Prop :=
  (∀ m ∈ e.exactMatcher.scan input, ∀ valueId entry, m.kind = .exact valueId →
    v.entries[valueId]? = some entry → entry.entryKind = .sessionMapped .formatless →
    byteLen entry.value ≤ Alphabet.base62.macTailLen + 255 * 32) ∧
  ((∃ entry ∈ v.entries, entry.value = []) → ∀ i ≤ byteLen input, ¬ IsCharBoundary input i →
    ∃ m ∈ e.exactMatcher.scan input, m.start < i ∧ i < m.stop)

section

variable {v : Vault} {registered : List RegisteredValue} {macKey : List UInt8}

lemma disposable_iff (hFf1 : X.Ff1Lawful) (hHkdf : X.HkdfLawful)
    (hv : ∀ entry ∈ v.entries, Registered entry) (hreg : v.registeredValues = .ok registered)
    (hb : BuiltFrom X v.vaultKey.toList registered [] macKey e) :
    (∀ m ∈ e.exactMatcher.scan input, ∀ valueId reg, m.kind = .exact valueId →
      e.lookup valueId = some reg → ∃ d, dispose X e reg = .ok d) ↔
    ∀ m ∈ e.exactMatcher.scan input, ∀ valueId entry, m.kind = .exact valueId →
      v.entries[valueId]? = some entry → entry.entryKind = .sessionMapped .formatless →
      byteLen entry.value ≤ Alphabet.base62.macTailLen + 255 * 32 := by
  constructor
  · intro hdisp m hm valueId entry hkind hentry hformatless
    obtain ⟨r, hr, hconv⟩ := (Vault.getElem?_registeredValues hreg valueId).1 entry hentry
    obtain ⟨d, hd⟩ := hdisp m hm valueId r hkind ((hb.lookup valueId).trans hr)
    rcases entryToRegistered_of_registered (hv entry (List.mem_of_getElem? hentry)) hconv with
      ⟨hne, -⟩ | ⟨-, rfl⟩
    · exact absurd hformatless hne
    · exact (dispose_sessionMapped_isOk hHkdf _).mp ⟨d, hd⟩ rfl
  · intro hlen m hm valueId reg hkind hid
    obtain ⟨entry, hentry, hconv⟩ :=
      (Vault.getElem?_registeredValues hreg valueId).2 reg ((hb.lookup valueId).symm.trans hid)
    rcases entryToRegistered_of_registered (hv entry (List.mem_of_getElem? hentry)) hconv with
      ⟨-, r, rfl, -⟩ | ⟨hformatless, rfl⟩
    · exact dispose_fpe_isOk hFf1 r
    · exact (dispose_sessionMapped_isOk hHkdf _).mpr fun _ =>
        hlen m hm valueId entry hkind hentry hformatless

lemma registers_empty_iff (hreg : v.registeredValues = .ok registered) :
    (∃ r ∈ registered, r.value = []) ↔ ∃ entry ∈ v.entries, entry.value = [] := by
  constructor
  · rintro ⟨r, hr, hempty⟩
    obtain ⟨entry, hentry, hconv⟩ := Vault.exists_entry hreg hr
    exact ⟨entry, hentry, (entryToRegistered_value hconv).symm.trans hempty⟩
  · rintro ⟨entry, hentry, hempty⟩
    obtain ⟨r, hr, hconv⟩ := Vault.exists_registered hreg hentry
    exact ⟨r, hr, (entryToRegistered_value hconv).trans hempty⟩

lemma exists_walk_iff_withinLimits (hX : X.MatcherLawful) (hFf1 : X.Ff1Lawful)
    (hHkdf : X.HkdfLawful) (hv : ∀ entry ∈ v.entries, Registered entry)
    (hreg : v.registeredValues = .ok registered)
    (hb : BuiltFrom X v.vaultKey.toList registered [] macKey e) :
    (∃ steps tail, Walk X e 0 input (e.exactMatcher.scan input) steps tail) ↔
      WithinLimits v e input := by
  rw [hb.exists_walk_iff hX, hb.boundary_iff hX, disposable_iff hFf1 hHkdf hv hreg hb,
    registers_empty_iff hreg, and_comm]
  rfl

end

/-- Over every vault that a sequence of `register` commands can build, a scrub, stateless or with
a session map, returns and redacts what has no fake exactly within the limits. -/
theorem scrub_returns_iff (hX : X.MatcherLawful) (hFf1 : X.Ff1Lawful) (hHkdf : X.HkdfLawful)
    (vaultKey : Vector UInt8 32) (cmds : List RegisterCommand)
    (hbuild : (registerAll ⟨vaultKey, []⟩ cmds).buildEngine X = .ok (.ok e)) :
    ((∃ res, scrub X ord e input = .ok res ∧ Redacts X e input res) ↔
      WithinLimits (registerAll ⟨vaultKey, []⟩ cmds) e input) ∧
    ∀ session now,
      ((∃ res session', scrubWithSession X ord e input session now = .ok (res, session') ∧
          Redacts X e input res) ↔
        WithinLimits (registerAll ⟨vaultKey, []⟩ cmds) e input) := by
  obtain ⟨registered, macKey, hreg, hnew⟩ := Vault.buildEngine_eq_ok hbuild
  have hb := builtFrom_of_new hnew
  have hloc : ∀ m ∈ e.exactMatcher.scan input, e.Located input m := fun m hm => hb.located hX hm
  have hv := registered_registerAll (v := ⟨vaultKey, []⟩) (by simp) cmds
  rw [← exists_walk_iff_withinLimits hX hFf1 hHkdf hv hreg hb]
  constructor
  · constructor
    · rintro ⟨res, -, steps, tail, hwalk, -⟩
      exact ⟨steps, tail, hwalk⟩
    · rintro ⟨steps, tail, hwalk⟩
      exact ⟨_, (scrub_eq_ok hloc).mpr ⟨steps, tail, hwalk, rfl⟩, redacts_resultOf false hwalk⟩
  · intro session now
    constructor
    · rintro ⟨res, session', -, steps, tail, hwalk, -⟩
      exact ⟨steps, tail, hwalk⟩
    · rintro ⟨steps, tail, hwalk⟩
      exact ⟨_, _, (scrubWithSession_eq_ok hloc).mpr ⟨steps, tail, hwalk, rfl, rfl⟩,
        redacts_resultOf true hwalk⟩

theorem scrub_returns_iff_reference :
    let cmds : List RegisterCommand := [⟨"a".toList, "AAAA".toList, Vector.replicate 16 0⟩]
    let e := reference [.fpe ⟨"a".toList, "AAAA".toList, Vector.replicate 16 0, .base62, []⟩] []
      (List.replicate 32 0)
    (∃ res, scrub Crates.reference .stored e "xAAAA".toList = .ok res ∧
        Redacts Crates.reference e "xAAAA".toList res) ↔
      WithinLimits (registerAll ⟨Vector.replicate 32 0, []⟩ cmds) e "xAAAA".toList :=
  (scrub_returns_iff Crates.reference_matcherLawful Crates.reference_ff1Lawful
    Crates.reference_hkdfLawful (Vector.replicate 32 0)
    [⟨"a".toList, "AAAA".toList, Vector.replicate 16 0⟩] (by rfl)).1

/-- With the empty value registered, a scrub panics inside the first character of two bytes. -/
theorem scrub_panics_on_empty_value :
    ∃ e, (registerAll ⟨Vector.replicate 32 0, []⟩
        [⟨"a".toList, [], Vector.replicate 16 0⟩]).buildEngine Crates.reference = .ok (.ok e) ∧
      scrub Crates.reference .stored e "é".toList = .error .charBoundary :=
  ⟨reference [.sessionMapped ⟨"a".toList, [], .formatless⟩] [] (List.replicate 32 0), by rfl,
    by decide +kernel⟩

end Cli

end Invisibool
