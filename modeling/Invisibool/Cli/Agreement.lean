import Invisibool.Cli.Durability
import Invisibool.Engine.Total

/-!
# Registration and scrub agree

`register` checks a value with literals, and the engine checks it again with what comes back
through the name of the alphabet, the prefix and the tweak of the entry. In a vault that the
commands wrote, no entry fails the second check.
-/

namespace Invisibool
open Text Matching FileSystem Process
open Format hiding Bytes

namespace Cli
open Engine

/-- What stands in the output of a scrub for the value of an entry. -/
inductive Replacement (X : Crates) (e : Engine) (entry : VaultEntry) (text : Str) : Prop
  | ff1 {tweak} : entry.entryKind = .fpe tweak [] defaultFpeAlphabetName →
      e.fpe.scrub X ⟨entry.label, entry.value, tweak, .base62, []⟩ = .ok (.ok text) →
      byteLen text = byteLen entry.value → (∀ c ∈ entry.value, c ∈ Alphabet.base62.chars) →
      (∀ c ∈ text, c ∈ Alphabet.base62.chars) → Replacement X e entry text
  | mac : entry.entryKind = .sessionMapped .formatless →
      makeMacfake X e.sessionMacKey entry.value .base62 = .ok (some text) →
      byteLen text = byteLen entry.value → Replacement X e entry text
  | placeholder : entry.entryKind = .sessionMapped .formatless →
      byteLen entry.value ≤ Alphabet.base62.macTailLen → text = redactionPlaceholder →
      Replacement X e entry text

/-- Whenever a scrub returns, each match is an entry and has its replacement, no occurrence of a
value is left, and no notice is of an internal failure. -/
def ReplacesAll (X : Crates) (v : Vault) (e : Engine) (input : Str) (res : EngineScrubResult) :
    Prop :=
  (∀ label reason, .redactedInternalFailure label reason ∉ res.notices) ∧
  ∃ edits tail, input = source edits tail ∧ res.output = target edits tail ∧
    (∀ edit ∈ edits, ∃ entry ∈ v.entries, edit.old = entry.value ∧ Replacement X e entry edit.new) ∧
    ∀ entry ∈ v.entries, entry.value ≠ [] → ∀ i, OccursAt input entry.value i →
      ∃ s ∈ spans Edit.old 0 edits, Overlaps s (i, i + byteLen entry.value)

structure Agrees (X : Crates) (v : Vault) : Prop where
  builds : (X.ahoCorasick ((v.entries.map VaultEntry.value).map utf8)).isSome →
    ∃ e, v.buildEngine X = .ok (.ok e)
  scrubs : ∀ e ord input store res store', v.buildEngine X = .ok (.ok e) →
    scrubImpl X ord e input store = .ok (res, store') → ReplacesAll X v e input res

variable {X : Crates} {v : Vault} {e : Engine} {entry : VaultEntry} {r : RegisteredValue}

lemma exists_entryToRegistered (h : Registered entry) : ∃ r, entryToRegistered entry = .ok r := by
  have hname : resolveAlphabet defaultFpeAlphabetName = some .base62 := rfl
  unfold entryToRegistered
  rcases h with ⟨tweak, hkind, -⟩ | ⟨reason, hkind, -⟩
  · rw [hkind]
    simp only [hname]
    exact ⟨_, rfl⟩
  · rw [hkind]
    exact ⟨_, rfl⟩

lemma exists_registeredValues (h : ∀ entry ∈ v.entries, Registered entry) :
    ∃ registered, v.registeredValues = .ok registered := by
  simp only [Vault.registeredValues_eq_ok]
  generalize v.entries = entries at h
  induction entries with
  | nil => exact ⟨[], .nil⟩
  | cons entry entries ih =>
    obtain ⟨rs, hrs⟩ := ih fun e he => h e (List.mem_cons_of_mem _ he)
    obtain ⟨r, hr⟩ := exists_entryToRegistered (h entry List.mem_cons_self)
    exact ⟨r :: rs, .cons hr hrs⟩

lemma map_value_registeredValues {registered : List RegisteredValue}
    (h : v.registeredValues = .ok registered) :
    registered.map RegisteredValue.value = v.entries.map VaultEntry.value := by
  have hall := Vault.registeredValues_eq_ok.mp h
  clear h
  generalize v.entries = entries at hall
  induction hall with
  | nil => rfl
  | cons hr _ ih =>
    rw [List.map_cons, List.map_cons, ih, entryToRegistered_value hr]

lemma exists_build {values : List Str} (h : (X.ahoCorasick (values.map utf8)).isSome) :
    ∃ matcher, ExactMatcher.build X values = .ok matcher := by
  obtain ⟨ac, hac⟩ := Option.isSome_iff_exists.mp h
  unfold ExactMatcher.build
  dsimp only
  split
  · exact ⟨_, rfl⟩
  · rw [hac]
    exact ⟨_, rfl⟩

theorem buildEngine_isOk (hHkdf : X.HkdfLawful) (h : ∀ entry ∈ v.entries, Registered entry)
    (hac : (X.ahoCorasick ((v.entries.map VaultEntry.value).map utf8)).isSome) :
    ∃ e, v.buildEngine X = .ok (.ok e) := by
  obtain ⟨registered, hreg⟩ := exists_registeredValues h
  rw [← map_value_registeredValues hreg] at hac
  obtain ⟨matcher, hmatcher⟩ := exists_build hac
  obtain ⟨macKey, hmac⟩ : ∃ macKey, Vault.deriveMacKey X v.vaultKey.toList = .ok macKey := by
    obtain ⟨macKey, hmac⟩ := Option.isSome_iff_exists.mp ((hHkdf.expand_isSome v.vaultKey.toList
      (utf8 "invisibool-mac-key-v1".toList) 32).mpr (by omega))
    exact ⟨macKey, by rw [Vault.deriveMacKey, hmac, expect_some]⟩
  obtain ⟨e, he⟩ : ∃ e, Engine.new X v.vaultKey.toList registered [] macKey = .ok (.ok e) := by
    obtain ⟨t, ht⟩ := FpeTokenizer.new_isOk hHkdf v.vaultKey.toList
    have hparts : (registered.foldl Parts.push ⟨[], [], [], []⟩).Holds registered := by
      have h0 : Parts.Holds ⟨[], [], [], []⟩ [] := ⟨rfl, rfl, rfl, .nil⟩
      simpa using h0.foldl registered
    unfold Engine.new
    dsimp only
    rw [hparts.values, hmatcher, ht]
    exact ⟨_, rfl⟩
  unfold Vault.buildEngine
  rw [hreg]
  dsimp only
  rw [hmac, ok_bind, he, ok_bind]
  exact ⟨e, rfl⟩

/-- The engine never fails on an entry that `register` wrote. -/
theorem replacement_of_dispose (hFf1 : X.Ff1Lawful) (hHkdf : X.HkdfLawful)
    (hkey : e.fpe.ff1Key.length = 32) (hentry : Registered entry)
    (hr : entryToRegistered entry = .ok r) {d : Disposal} (hd : dispose X e r = .ok d) :
    Replacement X e entry d.text ∧
      ∀ notice, d = .redacted notice → notice = .redactedFormatless entry.label := by
  rcases hentry with ⟨tweak, hkind, hok⟩ | ⟨reason, hkind, -⟩
  · have hname : resolveAlphabet defaultFpeAlphabetName = some .base62 := rfl
    unfold entryToRegistered at hr
    rw [hkind] at hr
    simp only [hname, Except.ok.injEq] at hr
    subst hr
    have helig : FpeRegistration.Eligible ⟨entry.label, entry.value, tweak, .base62, []⟩ := hok
    obtain ⟨fake, hfake⟩ := FpeTokenizer.fake_of_eligible (t := e.fpe) hFf1 hkey helig
    have hscrub := FpeTokenizer.fake_eq_some.mp hfake
    obtain ⟨body, cipherBody, hvalue, rfl, -, hbody, hcipher⟩ := FpeTokenizer.fake_shape hFf1 hfake
    have hlen := FpeTokenizer.byteLen_fake hFf1 hfake
    obtain rfl := Except.ok.inj (hd.symm.trans (dispose_eq_fake.mpr hscrub))
    refine ⟨.ff1 hkind hscrub hlen ?_ hcipher, fun notice h => by cases h⟩
    have hvalue : entry.value = body := hvalue
    rw [hvalue]
    exact hbody
  · unfold entryToRegistered at hr
    rw [hkind] at hr
    obtain rfl := Except.ok.inj hr
    cases d with
    | fake text =>
      have hfake : makeMacfake X e.sessionMacKey entry.value .base62 = .ok (some text) :=
        dispose_eq_fake.mp hd
      exact ⟨.mac hkind hfake (byteLen_makeMacfake hHkdf hfake), fun notice h => by cases h⟩
    | redacted notice =>
      unfold dispose at hd
      obtain ⟨o, ho, hd⟩ := bind_eq_ok.mp hd
      cases o with
      | some f => cases hd
      | none =>
        obtain rfl := Disposal.redacted.inj (Except.ok.inj hd)
        have hshort := makeMacfake_eq_none.mp ho
        refine ⟨.placeholder hkind hshort rfl, fun notice h => ?_⟩
        exact (Disposal.redacted.inj h).symm

theorem agrees_of_registered (hX : X.MatcherLawful) (hFf1 : X.Ff1Lawful) (hHkdf : X.HkdfLawful)
    (h : ∀ entry ∈ v.entries, Registered entry) : Agrees X v where
  builds hac := buildEngine_isOk hHkdf h hac
  scrubs e ord input store res store' hbuild hscrub := by
    obtain ⟨registered, macKey, hreg, hnew⟩ := Vault.buildEngine_eq_ok hbuild
    have hb := builtFrom_of_new hnew
    obtain ⟨steps, tail, hwalk, rfl, -⟩ :=
      (scrubImpl_eq_ok fun m hm => hb.located hX hm).mp hscrub
    have hsteps : ∀ s ∈ steps, ∃ entry ∈ v.entries, s.reg.value = entry.value ∧
        Replacement X e entry s.disposal.text ∧ ∀ notice, s.disposal = .redacted notice →
          notice = .redactedFormatless entry.label := by
      intro s hs
      obtain ⟨⟨valueId, hid⟩, hd⟩ := hwalk.disposed s hs
      obtain ⟨entry, hentry, hr⟩ := Vault.exists_entry hreg (hb.mem_of_lookup hid)
      exact ⟨entry, hentry, entryToRegistered_value hr,
        replacement_of_dispose hFf1 hHkdf (hb.key_length hHkdf) (h entry hentry) hr hd⟩
    refine ⟨fun label reason hnotice => ?_, steps.map Step.edit, tail, hwalk.source_eq.symm, rfl,
      fun edit hedit => ?_, fun entry hentry hne i hocc => ?_⟩
    · obtain ⟨s, hs, hnotice⟩ := List.mem_flatMap.mp hnotice
      obtain ⟨entry, -, -, -, hredacted⟩ := hsteps s hs
      unfold Step.notices at hnotice
      split at hnotice
      · rename_i notice hdisposal
        rw [hredacted notice hdisposal] at hnotice
        simp at hnotice
      · cases hnotice
      · split at hnotice
        · cases hnotice
        · simp at hnotice
    · obtain ⟨s, hs, rfl⟩ := List.mem_map.mp hedit
      obtain ⟨entry, hentry, hvalue, hrep, -⟩ := hsteps s hs
      exact ⟨entry, hentry, hvalue, hrep⟩
    · obtain ⟨r, hr, hconv⟩ := Vault.exists_registered hreg hentry
      have hvalue := entryToRegistered_value hconv
      obtain ⟨m, hm, hover⟩ := hb.covered hX hr (hvalue ▸ hne) (hvalue ▸ hocc)
      rw [hvalue] at hover
      exact ⟨_, hwalk.spans_eq ▸ List.mem_map.mpr ⟨m, hm, rfl⟩, hover⟩

lemma registered_entryFor (label value : Str) (tweak : Vector UInt8 16) :
    Registered (entryFor label value tweak) := by
  unfold entryFor
  cases hcheck : checkEligibility value [] .base62 with
  | ok u => exact .inl ⟨tweak, rfl, hcheck⟩
  | error reason => exact .inr ⟨reason, rfl, hcheck⟩

lemma registered_apply {f : LabelMap} (hf : ∀ label entry, f label = some entry → Registered entry)
    (c : VaultCommand) {label : Str} {entry : VaultEntry} (h : c.apply f label = some entry) :
    Registered entry := by
  unfold VaultCommand.apply at h
  by_cases hlabel : label = c.label
  · rw [hlabel, Function.update_self] at h
    cases c with
    | register label value tweak =>
      obtain rfl := Option.some.inj h
      exact registered_entryFor label value tweak
    | forget label => cases h
  · rw [Function.update_of_ne hlabel] at h
    exact hf label entry h

lemma registered_applyAll {f : LabelMap}
    (hf : ∀ label entry, f label = some entry → Registered entry) (cs : List VaultCommand)
    {label : Str} {entry : VaultEntry} (h : VaultCommand.applyAll f cs label = some entry) :
    Registered entry := by
  induction cs generalizing f with
  | nil => exact hf label entry h
  | cons c cs ih => exact ih (fun _ _ hentry => registered_apply hf c hentry) h

lemma labelMap_of_mem {entries : List VaultEntry}
    (hnodup : (entries.map VaultEntry.label).Nodup) (h : entry ∈ entries) :
    labelMap entries entry.label = some entry := by
  induction entries with
  | nil => cases h
  | cons e entries ih =>
    rw [List.map_cons, List.nodup_cons] at hnodup
    unfold labelMap
    rcases List.mem_cons.mp h with rfl | h
    · rw [List.find?_cons_of_pos (by simp)]
    · have hne : e.label ≠ entry.label := fun heq => hnodup.1 (heq ▸ List.mem_map_of_mem h)
      rw [List.find?_cons_of_neg (by simpa using hne)]
      exact ih hnodup.2 h

section

variable {Y : FileCrates} {path : PathBuf} {m m' : Machine} {f : LabelMap} {runs : List Executed}

/-- What the next command opens is what the vault file holds. -/
lemma entries_of_openVault {newKey : VaultKey} {v : OpenVault} {s : Moment}
    (hm : m.Represents X Y path f)
    (hopen : (openVault X Y path newKey).Reaches Machine.faulty.logged (m, []) (.ret (.ok v)) s) :
    (v.entries.map VaultEntry.label).Nodup ∧ labelMap v.entries = f := by
  obtain ⟨contents, hvault, hnodup, hmap⟩ := hm
  have hdoes : Does (Scans path path.file) _ (openVault X Y path newKey) (m, []) := openVault_does
  obtain ⟨-, hrest⟩ := (hdoes.since (Scans.refl path path.file)
    fun _ _ _ => Scans.trans).reaches hopen
  obtain ⟨hscans, hkey, hreads⟩ := holds_ret.mp hrest
  rw [hscans.keeps.content] at hreads
  rw [hreads.entries hvault hkey hscans.keeps.keychain]
  exact ⟨hnodup, hmap⟩

/-- Whatever vault the commands have come to, and whatever went wrong on the way, the engine of
the next command agrees with what they have registered. -/
theorem scrub_agrees (hX : X.MatcherLawful) (hFf1 : X.Ff1Lawful) (hHkdf : X.HkdfLawful)
    (hserde : Y.SerdeLawful) (hA : Y.aead.Undone) (hm : m.disk.content path.file = none)
    (hran : Ran X Y path m runs m') {newKey : VaultKey} {v : OpenVault} {s : Moment}
    (hopen : (openVault X Y path newKey).Reaches Machine.faulty.logged (m', []) (.ret (.ok v)) s) :
    Agrees X v.toVault := by
  have hrep := hran.represents hserde hA (f := fun _ => none)
    ⟨none, .absent hm, List.nodup_nil, rfl⟩
  obtain ⟨hnodup, hmap⟩ := entries_of_openVault hrep hopen
  refine agrees_of_registered hX hFf1 hHkdf fun entry hentry => ?_
  have hlabel := labelMap_of_mem hnodup hentry
  rw [hmap] at hlabel
  exact registered_applyAll (fun _ _ h => by cases h) _ hlabel

lemma ran_afterSample {runs : List Executed} {m m' : Machine}
    (h : Ran Crates.reference sampleFiles leftoverPath m runs m') (p : VaultProcess) :
    ∃ runs', Ran Crates.reference sampleFiles leftoverPath m runs' (afterSample p m') := by
  obtain ⟨history, hreach⟩ := run_reaches (W := Machine.faulty) Machine.exec
    (fun _ _ => .inl rfl) (runVaultCommand Crates.reference sampleFiles leftoverPath p) m' []
  exact ⟨_, .command h hreach⟩

theorem scrub_agrees_sample : Agrees Crates.reference ⟨Vector.replicate 32 1, sampleEntries⟩ := by
  obtain ⟨runs, hran⟩ := ran_afterSample .start (sampleProcess "a" "AAAA" 7)
  obtain ⟨runs', hran'⟩ := ran_afterSample hran (sampleProcess "b" "pin" 8)
  obtain ⟨history, hopen⟩ := run_reaches (W := Machine.faulty) Machine.exec
    (fun _ _ => .inl rfl) (openVault Crates.reference sampleFiles leftoverPath default) _ []
  have hv : ((openVault Crates.reference sampleFiles leftoverPath default).run Machine.exec
      (afterSample (sampleProcess "b" "pin" 8) (afterSample (sampleProcess "a" "AAAA" 7)
        leftoverMachine))).1 = .ok ⟨⟨Vector.replicate 32 1, sampleEntries⟩, 1⟩ := by rfl
  rw [hv] at hopen
  exact scrub_agrees Crates.reference_matcherLawful Crates.reference_ff1Lawful
    Crates.reference_hkdfLawful (FileCrates.ofTables_serdeLawful (by decide) (by simp))
    Aead.padding_undone (by decide) hran' hopen

end

end Cli

end Invisibool
