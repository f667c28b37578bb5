import Invisibool.Cli.Register
import Invisibool.Engine.Restore

/-!
# Fakes inside the profile of an FF1 registration

`register` gives FF1 values no prefix, so their profile is a length and an alphabet, and it is
the alphabet of the MAC fakes. Only the lengths keep the two kinds of fakes apart.
-/

namespace Invisibool
open Text

namespace Engine

variable {X : Crates} {vaultKey : List UInt8} {registered : List RegisteredValue}
  {retired : List FpeRegistration} {sessionMacKey : List UInt8} {e : Engine}

lemma BuiltFrom.mem_sessions (h : BuiltFrom X vaultKey registered retired sessionMacKey e)
    {s : SessionRegistration} : s ∈ e.sessionRegistered ↔ .sessionMapped s ∈ registered := by
  rw [h.sessions, List.mem_filterMap]
  constructor
  · rintro ⟨v, hv, hs⟩
    cases v with
    | fpe f => cases hs
    | sessionMapped s' => exact (Option.some.inj hs) ▸ hv
  · exact fun hs => ⟨_, hs, rfl⟩

/-- Symbols of the alphabet are a candidate for every prefixless value that is not longer. -/
lemma isCandidate_of_le {fake : Str} {r : FpeRegistration} {regs : List FpeRegistration}
    (hr : r ∈ regs) (hpfx : r.pfx = []) (hpos : 0 < byteLen r.value)
    (hfake : ∀ c ∈ fake, c ∈ r.alphabet.chars) (hle : byteLen r.value ≤ byteLen fake) :
    IsCandidate fake regs (0, byteLen r.value) := by
  have hascii : isAscii fake = true :=
    isAscii_iff.mpr fun c hc => r.alphabet.ascii_of_mem (hfake c hc)
  rw [byteLen_of_ascii hascii] at hle
  have hbody : isAscii (fake.take (byteLen r.value)) = true :=
    isAscii_iff.mpr fun c hc => r.alphabet.ascii_of_mem (hfake c (List.mem_of_mem_take hc))
  refine ⟨r, hr, by rw [hpfx]; exact hpos, [], fake.take (byteLen r.value),
    fake.drop (byteLen r.value), ?_, rfl, (Nat.zero_add _).symm, ?_, ?_⟩
  · rw [hpfx]
    exact (List.take_append_drop _ fake).symm
  · rw [hpfx, List.nil_append, byteLen_of_ascii hbody, List.length_take, Nat.min_eq_left hle]
  · exact fun c hc => hfake c (List.mem_of_mem_take hc)

lemma IsCandidate.exists_le {fake : Str} {regs : List FpeRegistration} {w : Nat × Nat}
    (h : IsCandidate fake regs w) : ∃ r ∈ regs, byteLen r.value ≤ byteLen fake := by
  obtain ⟨r, hr, -, hwindow⟩ := h
  have hle := hwindow.le
  exact ⟨r, hr, by omega⟩

end Engine

namespace Cli
open Engine

variable {X : Crates} {e : Engine}

/-- Over every vault that a sequence of `register` commands can build, the fakes that go into a
session map hold no candidate of the FF1 restore exactly when every FF1 value is longer than every
`Formatless` value that has a fake. -/
theorem fakeSpaces_disjoint_iff (hHkdf : X.HkdfLawful) (vaultKey : Vector UInt8 32)
    (cmds : List RegisterCommand)
    (hbuild : (registerAll ⟨vaultKey, []⟩ cmds).buildEngine X = .ok (.ok e)) :
    (∀ s ∈ e.sessionRegistered, ∀ fake, sessionFake X e.sessionMacKey s = .ok (some fake) →
      ∀ w, ¬ IsCandidate fake e.fpeRegistered w) ↔
    ∀ s ∈ (registerAll ⟨vaultKey, []⟩ cmds).entries, s.entryKind = .sessionMapped .formatless →
      Alphabet.base62.macTailLen < byteLen s.value →
      byteLen s.value ≤ Alphabet.base62.macTailLen + 255 * 32 →
      ∀ f ∈ (registerAll ⟨vaultKey, []⟩ cmds).entries,
        f.entryKind ≠ .sessionMapped .formatless → byteLen s.value < byteLen f.value := by
  obtain ⟨registered, macKey, hreg, hnew⟩ := Vault.buildEngine_eq_ok hbuild
  have hb := builtFrom_of_new hnew
  have hv := registered_registerAll (v := ⟨vaultKey, []⟩) (by simp) cmds
  constructor
  · intro hall s hs hformatless hlong hshort f hf hfpe
    by_contra hle
    -- the fake of the one is as long as the profile of the other, at least
    obtain ⟨r, hr, hconv⟩ := Vault.exists_registered hreg hs
    obtain ⟨hne, -⟩ | ⟨-, rfl⟩ := entryToRegistered_of_registered (hv s hs) hconv
    · exact hne hformatless
    obtain ⟨r', hr', hconv'⟩ := Vault.exists_registered hreg hf
    obtain ⟨-, reg, rfl, helig, hpfx, halph⟩ | ⟨heq, -⟩ :=
      entryToRegistered_of_registered (hv f hf) hconv'
    swap
    · exact hfpe heq
    have hvalue : reg.value = f.value := entryToRegistered_value hconv'
    obtain ⟨res, hres⟩ : ∃ res, makeMacfake X e.sessionMacKey s.value .base62 = .ok res :=
      (makeMacfake_isOk hHkdf).mpr hshort
    cases res with
    | none => exact absurd (makeMacfake_eq_none.mp hres) (Nat.not_le.mpr hlong)
    | some fake =>
      obtain ⟨-, -, -, -, -, -, -, hmem⟩ := makeMacfake_shape hHkdf hres
      have hlen := byteLen_makeMacfake hHkdf hres
      have hpos := helig.pfx_lt
      refine hall _ (hb.mem_sessions.mpr hr) fake hres _
        (isCandidate_of_le (hb.mem_fpes.mpr hr') hpfx (by omega) ?_ ?_)
      · rw [halph]
        exact hmem
      · rw [hvalue, hlen]
        exact Nat.not_lt.mp hle
  · intro hall s hs fake hfake w hcand
    obtain ⟨f, hf, hle⟩ := hcand.exists_le
    obtain ⟨entry, hentry, hconv⟩ := Vault.exists_entry hreg (hb.mem_sessions.mp hs)
    obtain ⟨-, reg, hreg', -⟩ | ⟨hformatless, hs'⟩ :=
      entryToRegistered_of_registered (hv entry hentry) hconv
    · cases hreg'
    obtain rfl := RegisteredValue.sessionMapped.inj hs'
    obtain ⟨entry', hentry', hconv'⟩ := Vault.exists_entry hreg (hb.mem_fpes.mp hf)
    obtain ⟨hfpe, -⟩ | ⟨-, hf'⟩ := entryToRegistered_of_registered (hv entry' hentry') hconv'
    swap
    · cases hf'
    have hvalue : f.value = entry'.value := entryToRegistered_value hconv'
    have hlong : ¬ byteLen entry.value ≤ Alphabet.base62.macTailLen := by
      intro hshort
      have hnone : makeMacfake X e.sessionMacKey entry.value .base62 = .ok none :=
        makeMacfake_eq_none.mpr hshort
      have hsome : makeMacfake X e.sessionMacKey entry.value .base62 = .ok (some fake) := hfake
      rw [hnone] at hsome
      cases hsome
    have hmax := (makeMacfake_isOk hHkdf).mp ⟨_, hfake⟩
    have hlt := hall entry hentry hformatless (Nat.not_le.mp hlong) hmax entry' hentry' hfpe
    rw [byteLen_makeMacfake hHkdf hfake, hvalue] at hle
    exact absurd hle (Nat.not_le.mpr hlt)

/-- The theorem on a value of 12 symbols beside one of 11 bytes that is not FF1 eligible. -/
theorem fakeSpaces_disjoint_iff_reference :
    let cmds : List RegisterCommand := [⟨"a".toList, "AAAABBBBCCCC".toList, Vector.replicate 16 0⟩,
      ⟨"b".toList, "hello world".toList, Vector.replicate 16 0⟩]
    let e := reference [.fpe ⟨"a".toList, "AAAABBBBCCCC".toList, Vector.replicate 16 0, .base62, []⟩,
      .sessionMapped ⟨"b".toList, "hello world".toList, .formatless⟩] [] (List.replicate 32 0)
    (∀ s ∈ e.sessionRegistered, ∀ fake,
      sessionFake Crates.reference e.sessionMacKey s = .ok (some fake) →
        ∀ w, ¬ IsCandidate fake e.fpeRegistered w) ↔
    ∀ s ∈ (registerAll ⟨Vector.replicate 32 0, []⟩ cmds).entries,
      s.entryKind = .sessionMapped .formatless →
      Alphabet.base62.macTailLen < byteLen s.value →
      byteLen s.value ≤ Alphabet.base62.macTailLen + 255 * 32 →
      ∀ f ∈ (registerAll ⟨Vector.replicate 32 0, []⟩ cmds).entries,
        f.entryKind ≠ .sessionMapped .formatless → byteLen s.value < byteLen f.value :=
  fakeSpaces_disjoint_iff Crates.reference_hkdfLawful (Vector.replicate 32 0)
    [⟨"a".toList, "AAAABBBBCCCC".toList, Vector.replicate 16 0⟩,
      ⟨"b".toList, "hello world".toList, Vector.replicate 16 0⟩] (by rfl)

lemma macTailLen_base62 : Alphabet.base62.macTailLen ≤ 6 := by
  have hradix : Alphabet.base62.radix = 62 := by decide +kernel
  unfold Alphabet.macTailLen
  rw [hradix]
  exact Nat.clog_le_of_le_pow (by norm_num)

/-- The fake of a value of 11 bytes starts with a candidate for an FF1 value of 4. -/
theorem fakeSpaces_overlap :
    ∃ e fake, (registerAll ⟨Vector.replicate 32 0, []⟩
        [⟨"a".toList, "AAAA".toList, Vector.replicate 16 0⟩,
          ⟨"b".toList, "hello world".toList, Vector.replicate 16 0⟩]).buildEngine
        Crates.reference = .ok (.ok e) ∧
      (∃ s ∈ e.sessionRegistered, sessionFake Crates.reference e.sessionMacKey s =
        .ok (some fake)) ∧
      IsCandidate fake e.fpeRegistered (0, 4) := by
  have hlen : byteLen "hello world".toList = 11 := by decide
  have hK := macTailLen_base62
  obtain ⟨res, hres⟩ : ∃ res, makeMacfake Crates.reference (List.replicate 32 0)
      "hello world".toList .base62 = .ok res :=
    (makeMacfake_isOk Crates.reference_hkdfLawful).mpr (by omega)
  cases res with
  | none =>
    have hshort := makeMacfake_eq_none.mp hres
    omega
  | some fake =>
    obtain ⟨-, -, -, -, -, -, -, hmem⟩ := makeMacfake_shape Crates.reference_hkdfLawful hres
    have hfake := byteLen_makeMacfake Crates.reference_hkdfLawful hres
    refine ⟨reference [.fpe ⟨"a".toList, "AAAA".toList, Vector.replicate 16 0, .base62, []⟩,
      .sessionMapped ⟨"b".toList, "hello world".toList, .formatless⟩] [] (List.replicate 32 0),
      fake, by rfl, ⟨_, List.mem_singleton_self _, hres⟩, ?_⟩
    exact isCandidate_of_le (List.mem_singleton_self _) rfl (by decide) hmem
      (by rw [hfake, hlen]; decide)

end Cli

end Invisibool
