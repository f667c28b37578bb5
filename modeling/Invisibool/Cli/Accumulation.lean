import Invisibool.Cli.SessionScrub
import Invisibool.Engine.SessionRoundTrip
import Invisibool.Tokenizer.SessionBound

/-!
# What a session file gathers

Each `scrub --session` puts the pairs of the file into a bounded map, adds the pairs that it
writes, and saves what the map then holds. As long as there is room for all their values, nothing
that the file has held is lost.
-/

namespace Invisibool
open Text Matching Process FileSystem Engine
open Format hiding Bytes

/-- The fake that the vault key gives a value. -/
def MacFake (X : Crates) (vaultKey : VaultKey) (real fake : Str) : Prop :=
  ∃ macKey, Vault.deriveMacKey X vaultKey.toList = .ok macKey ∧
    makeMacfake X macKey real .base62 = .ok (some fake)

namespace Machine

variable (X : Crates) (Y : FileCrates) (path : PathBuf) (m : Machine)

/-- The session file decrypts to the contents. -/
def HasSession (c : SessionContents) : Prop :=
  ∃ key body, m.keychain = some key ∧ m.disk.content path.file = some body ∧
    Decodes X Y key body.bytes c

/-- The session file has the pair. -/
def HasPair (pair : Str × Str) : Prop := ∃ c, m.HasSession X Y path c ∧ pair ∈ c.pairs

/-- If there is a vault, its key is in the keychain, and its entries are such as `register`
writes. -/
def VaultRegistered : Prop :=
  ∀ body, m.disk.content path.file = some body → ∃ key, m.keychain = some key ∧
    ∀ contents, decryptVault X Y key body.bytes = .ok (.ok contents) →
      ∀ entry ∈ contents.entries, Cli.Registered entry

end Machine

/-- The pairs of the session file, if there is one. -/
def heldPairs : Option SessionContents → List (Str × Str)
  | none => []
  | some c => c.pairs

/-- The values that a scrub brings together in its map: those that the session file has fakes of,
and those of the input that it hands on. -/
def gathered (X : Crates) (e : Engine) (existing : Option SessionContents) (input : Str) : List Str :=
  (heldPairs existing).map Prod.snd ++ (e.mappings X input).map Prod.fst

section Conditions

variable (X : Crates) (Y : FileCrates) (vaultPath path : PathBuf)

/-- What a command opens, and what it loads. -/
structure Finds (m : Machine) (v : OpenVault) (e : Engine) (existing : Option SessionContents) :
    Prop where
  key : ∀ key, m.keychain = some key → v.vaultKey = key
  reads : ReadsAs X Y v (m.disk.content vaultPath.file)
  builds : v.toVault.buildEngine X = .ok (.ok e)
  loaded : LoadedAs X Y v.vaultKey (m.disk.content path.file) existing

/-- The values that a scrub brings together are not more than the map has room for. -/
def HasRoom (m : Machine) (input : Str) : Prop :=
  ∀ v e existing, Finds X Y vaultPath path m v e existing →
    (gathered X e existing input).toFinset.card ≤ cliSessionMapCapacity

/-- Distinct values that a scrub brings together have distinct MAC fakes. -/
def FakesDiffer (m : Machine) (input : Str) : Prop :=
  ∀ v e existing, Finds X Y vaultPath path m v e existing →
    ∀ real ∈ gathered X e existing input, ∀ real' ∈ gathered X e existing input, ∀ fake,
      MacFake X v.vaultKey real fake → MacFake X v.vaultKey real' fake → real = real'

/-- What the command has returned, and the machine then. -/
def scrubbed (p : TextProcess) (m : Machine) :
    Except (Stop CommandError) CommandResult × Machine :=
  (Cli.runTextCommand X Y vaultPath p).run Machine.exec m

/-- A command has run to its end without faults: `register`, `forget`, or a scrub with the session
file that has room for its values. -/
inductive SessionCommand : Machine → Machine → Prop
  | vault {m} (p : VaultProcess) :
      SessionCommand m ((Cli.runVaultCommand X Y vaultPath p).run Machine.exec m).2
  | scrub {m} (p : TextProcess) : p.session = some path → p.command = .scrub →
      HasRoom X Y vaultPath path m p.input → FakesDiffer X Y vaultPath path m p.input →
      SessionCommand m (scrubbed X Y vaultPath p m).2

variable {X Y vaultPath path}

lemma hasRoom_of_single {m : Machine} {input real : Str}
    (h : ∀ v e existing, Finds X Y vaultPath path m v e existing →
      gathered X e existing input = [real]) : HasRoom X Y vaultPath path m input := by
  intro v e existing hfinds
  rw [h v e existing hfinds]
  simp [cliSessionMapCapacity]

lemma fakesDiffer_of_single {m : Machine} {input real : Str}
    (h : ∀ v e existing, Finds X Y vaultPath path m v e existing →
      gathered X e existing input = [real]) : FakesDiffer X Y vaultPath path m input := by
  intro v e existing hfinds r hr r' hr' _ _ _
  rw [h v e existing hfinds] at hr hr'
  exact (List.mem_singleton.mp hr).trans (List.mem_singleton.mp hr').symm

variable (X Y vaultPath path)

/-- What is true of the machine before and after every command. -/
structure Machine.Gathers (m : Machine) : Prop where
  vault : m.VaultRegistered X Y vaultPath
  keyed : ∀ body, m.disk.content path.file = some body → ∃ key, m.keychain = some key
  fakes : ∀ key c, m.keychain = some key → m.HasSession X Y path c →
    ∀ pair ∈ c.pairs, MacFake X key pair.2 pair.1
  oneToOne : ∀ c, m.HasSession X Y path c → OneToOne (c.pairs.map Prod.swap)
  length_le : ∀ c, m.HasSession X Y path c → c.pairs.length ≤ cliSessionMapCapacity

end Conditions

section Steps

variable {X : Crates} {Y : FileCrates} {vaultPath path : PathBuf} {m m' : Machine}
  {key key' : VaultKey} {real fake fake' input : Str} {bytes : Bytes} {v : OpenVault} {e : Engine}
  {existing : Option SessionContents} {c : SessionContents}

lemma MacFake.unique (h : MacFake X key real fake) (h' : MacFake X key real fake') :
    fake = fake' := by
  obtain ⟨macKey, hkey, hfake⟩ := h
  obtain ⟨macKey', hkey', hfake'⟩ := h'
  obtain rfl := Except.ok.inj (hkey.symm.trans hkey')
  exact Option.some.inj (Except.ok.inj (hfake.symm.trans hfake'))

/-! ### The two kinds of file -/

lemma Machine.HasSession.unique {c' : SessionContents} (h : m.HasSession X Y path c)
    (h' : m.HasSession X Y path c') : c = c' := by
  obtain ⟨key, body, hkey, hbody, hdec⟩ := h
  obtain ⟨key', body', hkey', hbody', hdec'⟩ := h'
  obtain rfl := Option.some.inj (hkey.symm.trans hkey')
  obtain rfl := Option.some.inj (hbody.symm.trans hbody')
  exact hdec.unique hdec'

lemma Machine.HasSession.hasPair_iff (h : m.HasSession X Y path c) {pair : Str × Str} :
    m.HasPair X Y path pair ↔ pair ∈ c.pairs := by
  constructor
  · rintro ⟨c', h', hpair⟩
    rw [h.unique h']
    exact hpair
  · intro hpair
    exact ⟨c, h, hpair⟩

lemma magic_of_openFile {A : Aead} {h : Header} {deriveKey : Outcome Bytes} {message : Bytes}
    (hopen : openFile A h deriveKey bytes = .ok (.ok message)) :
    bytes.take 16 = h.magic.toList := by
  by_contra hmagic
  by_cases hlen : aadLen + nonceLen + tagLen ≤ bytes.length
  · rw [openFile_of_magic hlen hmagic] at hopen
    cases hopen
  · rw [openFile_of_short (Nat.lt_of_not_le hlen)] at hopen
    cases hopen

/-- The bytes of a vault are not the bytes of a session file. -/
lemma not_decodes_of_vault {contents : VaultContents}
    (h : decryptVault X Y key bytes = .ok (.ok contents)) : ¬Decodes X Y key' bytes c := by
  rintro ⟨json, hsession, -⟩
  obtain ⟨json', hvault, -⟩ := decryptVault_eq_ok.mp h
  have hmagic := (magic_of_openFile hvault).symm.trans (magic_of_openFile hsession)
  exact magic_ne (Vector.toList_inj.mp hmagic)

/-! ### What a command finds -/

lemma ReadsAs.entry_registered (h : ReadsAs X Y v (m.disk.content vaultPath.file))
    (hm : m.VaultRegistered X Y vaultPath) (hkey : ∀ key, m.keychain = some key → v.vaultKey = key) :
    ∀ entry ∈ v.entries, Cli.Registered entry := by
  cases hbody : m.disk.content vaultPath.file with
  | none =>
    rw [hbody] at h
    have hnil : v.entries = [] := congrArg VaultContents.entries h
    simp [hnil]
  | some body =>
    rw [hbody] at h
    obtain ⟨key, hkeychain, hall⟩ := hm body hbody
    obtain rfl := hkey key hkeychain
    exact hall v.contents h

lemma Finds.entry_registered (h : Finds X Y vaultPath path m v e existing)
    (hm : m.VaultRegistered X Y vaultPath) : ∀ entry ∈ v.entries, Cli.Registered entry :=
  h.reads.entry_registered hm h.key

lemma buildEngine_macKey {v : Vault} (h : v.buildEngine X = .ok (.ok e)) :
    Vault.deriveMacKey X v.vaultKey.toList = .ok e.sessionMacKey := by
  unfold Vault.buildEngine at h
  split at h
  · cases h
  · obtain ⟨macKey, hkey, h⟩ := bind_eq_ok.mp h
    obtain ⟨res, hnew, h⟩ := bind_eq_ok.mp h
    cases res with
    | error err => cases h
    | ok engine =>
      obtain rfl := Except.ok.inj (Except.ok.inj h)
      rw [hkey, (builtFrom_of_new hnew).macKey]

/-- What a scrub hands on to the map are values of entries, with their fakes. -/
lemma entry_of_mapping {v : Vault} (h : v.buildEngine X = .ok (.ok e))
    (hv : ∀ entry ∈ v.entries, Cli.Registered entry) (hmem : (real, fake) ∈ e.mappings X input) :
    (∃ entry ∈ v.entries, entry.value = real) ∧ MacFake X v.vaultKey real fake := by
  obtain ⟨registered, macKey, hreg, hnew⟩ := Vault.buildEngine_eq_ok h
  have hb := builtFrom_of_new hnew
  obtain ⟨match', -, hmapping⟩ := List.mem_filterMap.mp hmem
  unfold mapping at hmapping
  split at hmapping
  · cases hmapping
  split at hmapping
  · rename_i valueId _ reg hlookup
    split at hmapping
    · rename_i fake' hfake
      obtain ⟨rfl, rfl⟩ := Prod.mk.inj (Option.some.inj hmapping)
      obtain ⟨entry, hentry, hconv⟩ := Vault.exists_entry hreg (hb.mem_of_lookup hlookup)
      refine ⟨⟨entry, hentry, (entryToRegistered_value hconv).symm⟩, e.sessionMacKey,
        buildEngine_macKey h, ?_⟩
      obtain ⟨-, reg', hreg', -⟩ | ⟨-, hreg'⟩ :=
        Cli.entryToRegistered_of_registered (hv entry hentry) hconv
      · cases hreg'
      · obtain rfl := RegisteredValue.sessionMapped.inj hreg'
        exact hfake
    · cases hmapping
  · cases hmapping

/-- The session file, if there is one, is what was loaded. -/
lemma Finds.hasSession (h : Finds X Y vaultPath path m v e existing)
    (hm : m.Gathers X Y vaultPath path) (hc : existing = some c) :
    m.keychain = some v.vaultKey ∧ m.HasSession X Y path c := by
  subst hc
  obtain ⟨body, hbody, hdec⟩ := h.loaded
  obtain ⟨key, hkey⟩ := hm.keyed body hbody
  obtain rfl := h.key key hkey
  exact ⟨hkey, v.vaultKey, body, hkey, hbody, hdec⟩

lemma Finds.existing_eq (h : Finds X Y vaultPath path m v e existing)
    (hm : m.Gathers X Y vaultPath path) (hc : m.HasSession X Y path c) : existing = some c := by
  cases hexisting : existing with
  | none =>
    obtain ⟨key, body, -, hbody, -⟩ := hc
    have hnone := h.loaded
    rw [hexisting, hbody] at hnone
    cases hnone
  | some c' => exact congrArg some ((h.hasSession hm hexisting).2.unique hc)

lemma Finds.length_le (h : Finds X Y vaultPath path m v e existing)
    (hm : m.Gathers X Y vaultPath path) :
    (heldPairs existing).length ≤ cliSessionMapCapacity := by
  cases hexisting : existing with
  | none => exact Nat.zero_le _
  | some c => exact hm.length_le c (h.hasSession hm hexisting).2

lemma Finds.macFake (h : Finds X Y vaultPath path m v e existing)
    (hm : m.Gathers X Y vaultPath path) :
    ∀ call ∈ (heldPairs existing).map Prod.swap ++ e.mappings X input,
      MacFake X v.vaultKey call.1 call.2 := by
  intro call hcall
  rcases List.mem_append.mp hcall with hheld | hmapping
  · obtain ⟨pair, hpair, rfl⟩ := List.mem_map.mp hheld
    cases hc : existing with
    | none =>
      rw [hc] at hpair
      cases hpair
    | some c =>
      rw [hc] at hpair
      obtain ⟨hkey, hsession⟩ := h.hasSession hm hc
      exact hm.fakes _ c hkey hsession pair hpair
  · exact (entry_of_mapping h.builds (h.entry_registered hm.vault) hmapping).2

lemma map_fst_gathered : ((heldPairs existing).map Prod.swap ++ e.mappings X input).map Prod.fst =
    gathered X e existing input := by
  unfold gathered
  rw [List.map_append, List.map_map]
  rfl

/-- Values and fakes that a scrub brings together belong to each other one to one. -/
lemma Finds.oneToOne (h : Finds X Y vaultPath path m v e existing)
    (hm : m.Gathers X Y vaultPath path) (hdiffer : FakesDiffer X Y vaultPath path m input) :
    OneToOne ((heldPairs existing).map Prod.swap ++ e.mappings X input) := by
  intro call hcall call' hcall'
  have hfake := h.macFake hm call hcall
  have hfake' := h.macFake hm call' hcall'
  constructor
  · intro hreal
    rw [hreal] at hfake
    exact hfake.unique hfake'
  · intro heq
    rw [heq] at hfake
    refine hdiffer v e existing h call.1 ?_ call'.1 ?_ call'.2 hfake hfake'
    · rw [← map_fst_gathered]
      exact List.mem_map_of_mem hcall
    · rw [← map_fst_gathered]
      exact List.mem_map_of_mem hcall'

/-! ### What a scrub saves -/

variable {p : TextProcess} {history : List (Event Call Call.Ans)} {result : EngineScrubResult}
  {map : SessionMap}

lemma pairs_ofMap (ord : HashOrder) : (c.ofMap ord map).pairs = map.entries ord := by
  unfold SessionContents.pairs SessionContents.ofMap
  rw [List.map_map]
  exact List.map_id _

lemma pairs_loadOrCreate (existing : Option SessionContents) (now : UInt64) :
    (Cli.loadOrCreate existing now).1.pairs = heldPairs existing := by
  cases existing <;> rfl

lemma Merges.finds (h : Merges X Y vaultPath path p (m, []) (m', history) v e existing result map) :
    Finds X Y vaultPath path m v e existing :=
  ⟨h.key, h.reads, h.builds, h.loaded⟩

lemma Merges.hasSession (hserde : Y.SerdeLawful) (hA : Y.aead.Undone)
    (h : Merges X Y vaultPath path p (m, []) (m', history) v e existing result map) :
    m'.HasSession X Y path ((Cli.loadOrCreate existing p.nowEpoch).1.ofMap p.ord map) := by
  obtain ⟨bytes, hseal, hcontent⟩ := h.saved
  exact ⟨v.vaultKey, ⟨bytes, true⟩, h.keychain, hcontent, decodes_of_seal hserde hA hseal⟩

lemma holds_toMap {ttl : UInt64} {now : Nat} (hone : OneToOne (c.pairs.map Prod.swap)) :
    (c.toMap ttl now).Holds now (c.pairs.map Prod.swap) :=
  (SessionMap.holds_new _ _ now).importPairs hone

@[simp] lemma toMap_maxEntries {ttl : UInt64} {now : Nat} :
    (c.toMap ttl now).maxEntries = cliSessionMapCapacity :=
  SessionMap.importPairs_maxEntries _

lemma len_toMap_le {ttl : UInt64} {now : Nat} : (c.toMap ttl now).len ≤ c.pairs.length := by
  refine (SessionMap.len_importPairs_le c.pairs).trans (Nat.le_of_eq ?_)
  exact Nat.zero_add _

/-- The map that a scrub saves holds the pairs of the file and those that it has handed on. -/
lemma Merges.holds (hX : X.MatcherLawful)
    (h : Merges X Y vaultPath path p (m, []) (m', history) v e existing result map)
    (hone : OneToOne ((heldPairs existing).map Prod.swap ++ e.mappings X p.input))
    (hroom : (gathered X e existing p.input).toFinset.card ≤ cliSessionMapCapacity) :
    map.Holds p.nowInstant ((heldPairs existing).map Prod.swap ++ e.mappings X p.input) := by
  obtain ⟨registered, macKey, -, hnew⟩ := Vault.buildEngine_eq_ok h.builds
  rw [← pairs_loadOrCreate existing p.nowEpoch] at hone ⊢
  refine holds_scrubWithSession hX hnew h.scrubbed
    (holds_toMap (hone.mono (List.subset_append_left _ _))) hone ?_
  rw [pairs_loadOrCreate, map_fst_gathered, toMap_maxEntries]
  exact hroom

/-- Room or not, the map that a scrub saves is within its capacity if the file was. -/
lemma Merges.len_le (hX : X.MatcherLawful)
    (h : Merges X Y vaultPath path p (m, []) (m', history) v e existing result map)
    (hlen : (heldPairs existing).length ≤ cliSessionMapCapacity) :
    map.len ≤ cliSessionMapCapacity := by
  obtain ⟨registered, macKey, -, hnew⟩ := Vault.buildEngine_eq_ok h.builds
  obtain ⟨rfl, -⟩ := scrubWithSession_spec hX hnew h.scrubbed
  have hcapacity : 0 < cliSessionMapCapacity := by decide
  rw [← pairs_loadOrCreate existing p.nowEpoch] at hlen
  have hmax : ((Cli.loadOrCreate existing p.nowEpoch).1.toMap
      (Cli.loadOrCreate existing p.nowEpoch).2 p.nowInstant).maxEntries = cliSessionMapCapacity :=
    toMap_maxEntries
  rw [← hmax] at hlen hcapacity ⊢
  exact SessionMap.len_insertAll_le hcapacity (len_toMap_le.trans hlen) (e.mappings X p.input)

/-! ### Commands that leave the session file -/

lemma Machine.VaultRegistered.of_same (hm : m.VaultRegistered X Y vaultPath)
    (hkey : ∀ key, m.keychain = some key → m'.keychain = some key)
    (hcontent : m'.disk.content vaultPath.file = m.disk.content vaultPath.file) :
    m'.VaultRegistered X Y vaultPath := by
  intro body hbody
  rw [hcontent] at hbody
  obtain ⟨key, hkey', hall⟩ := hm body hbody
  exact ⟨key, hkey key hkey', hall⟩

lemma Machine.Gathers.hasSession_iff (hm : m.Gathers X Y vaultPath path)
    (hkey : ∀ key, m.keychain = some key → m'.keychain = some key)
    (hcontent : m'.disk.content path.file = m.disk.content path.file) :
    m'.HasSession X Y path c ↔ m.HasSession X Y path c := by
  constructor
  · rintro ⟨key, body, hkey', hbody, hdec⟩
    rw [hcontent] at hbody
    obtain ⟨key₀, hkey₀⟩ := hm.keyed body hbody
    obtain rfl := Option.some.inj (hkey'.symm.trans (hkey key₀ hkey₀))
    exact ⟨key, body, hkey₀, hbody, hdec⟩
  · rintro ⟨key, body, hkey', hbody, hdec⟩
    exact ⟨key, body, hkey key hkey', hcontent.trans hbody, hdec⟩

lemma Machine.Gathers.of_same (hm : m.Gathers X Y vaultPath path)
    (hkey : ∀ key, m.keychain = some key → m'.keychain = some key)
    (hcontent : m'.disk.content path.file = m.disk.content path.file)
    (hvault : m'.VaultRegistered X Y vaultPath) : m'.Gathers X Y vaultPath path where
  vault := hvault
  keyed body hbody := by
    rw [hcontent] at hbody
    obtain ⟨key, hkey'⟩ := hm.keyed body hbody
    exact ⟨key, hkey key hkey'⟩
  fakes key c hkey' hc := by
    have hc' := (hm.hasSession_iff hkey hcontent).mp hc
    obtain ⟨key₀, -, hkey₀, -⟩ := id hc'
    obtain rfl := Option.some.inj (hkey'.symm.trans (hkey key₀ hkey₀))
    exact hm.fakes key c hkey₀ hc'
  oneToOne c hc := hm.oneToOne c ((hm.hasSession_iff hkey hcontent).mp hc)
  length_le c hc := hm.length_le c ((hm.hasSession_iff hkey hcontent).mp hc)

/-- If the one machine has a session file, the other has one with at least its pairs. -/
def PairsKept (X : Crates) (Y : FileCrates) (path : PathBuf) (m m' : Machine) : Prop :=
  ∀ c, m.HasSession X Y path c → ∃ c', m'.HasSession X Y path c' ∧ c.pairs ⊆ c'.pairs

lemma PairsKept.refl (m : Machine) : PairsKept X Y path m m :=
  fun c hc => ⟨c, hc, List.Subset.refl c.pairs⟩

lemma PairsKept.trans {m'' : Machine} (h : PairsKept X Y path m m')
    (h' : PairsKept X Y path m' m'') : PairsKept X Y path m m'' := by
  intro c hc
  obtain ⟨c', hc', hsub⟩ := h c hc
  obtain ⟨c'', hc'', hsub'⟩ := h' c' hc'
  exact ⟨c'', hc'', fun pair hpair => hsub' (hsub hpair)⟩

lemma PairsKept.hasPair (h : PairsKept X Y path m m') {pair : Str × Str}
    (hpair : m.HasPair X Y path pair) : m'.HasPair X Y path pair := by
  obtain ⟨c, hc, hmem⟩ := hpair
  obtain ⟨c', hc', hsub⟩ := h c hc
  exact ⟨c', hc', hsub hmem⟩

lemma Machine.Gathers.pairsKept (hm : m.Gathers X Y vaultPath path)
    (hkey : ∀ key, m.keychain = some key → m'.keychain = some key)
    (hcontent : m'.disk.content path.file = m.disk.content path.file) :
    PairsKept X Y path m m' :=
  fun c hc => ⟨c, (hm.hasSession_iff hkey hcontent).mpr hc, List.Subset.refl c.pairs⟩

/-! ### `register` and `forget` -/

lemma registered_effect {v : Vault} (hv : ∀ entry ∈ v.entries, Cli.Registered entry)
    (command : VaultCommand) : ∀ entry ∈ (command.effect v).entries, Cli.Registered entry := by
  cases command with
  | register label value tweak => exact Cli.registered_register hv label value tweak
  | forget label => exact fun entry hentry => hv entry (List.mem_filter.mp hentry).1

/-- What a command does to the machine, as far as the two files go. -/
lemma vaultCommand_gathers (hserde : Y.SerdeLawful) (hA : Y.aead.Undone)
    (horphan : ¬vaultPath.IsOrphan path.file) (hm : m.Gathers X Y vaultPath path)
    (p : VaultProcess) :
    ((Cli.runVaultCommand X Y vaultPath p).run Machine.exec m).2.Gathers X Y vaultPath path ∧
      PairsKept X Y path m ((Cli.runVaultCommand X Y vaultPath p).run Machine.exec m).2 := by
  obtain ⟨history, hreach⟩ := run_reaches (W := Machine.faulty) Machine.exec
    (fun _ _ => .inl rfl) (Cli.runVaultCommand X Y vaultPath p) m []
  have hframe : vaultPath.file ≠ path.file →
      ((Cli.runVaultCommand X Y vaultPath p).run Machine.exec m).2.disk.content path.file =
        m.disk.content path.file := fun hne => by
    have hends : Ends _ (Cli.runVaultCommand X Y vaultPath p) (m, []) :=
      runVaultCommand_frame (fun h => by cases h) horphan hne
    exact hends.run.choose_spec
  generalize ((Cli.runVaultCommand X Y vaultPath p).run Machine.exec m).2 = m' at *
  rcases (commits_of_reaches hreach).1 with hkeeps | ⟨v, bytes, hkey, hreads, -, hseal, hreplaces⟩
  · have hcontent : m'.disk.content vaultPath.file = m.disk.content vaultPath.file :=
      hkeeps.content
    have hsession : m'.disk.content path.file = m.disk.content path.file := by
      by_cases hsame : vaultPath.file = path.file
      · rw [← hsame]
        exact hcontent
      · exact hframe hsame
    exact ⟨hm.of_same hkeeps.keychain hsession (hm.vault.of_same hkeeps.keychain hcontent),
      hm.pairsKept hkeeps.keychain hsession⟩
  · have hcontent : m'.disk.content vaultPath.file = some ⟨bytes, true⟩ := hreplaces.content
    have hkeychain : ∀ key, m.keychain = some key → m'.keychain = some key := hreplaces.keychain
    have hopen := decryptVault_of_undone hserde hA hseal
    have hvault : m'.VaultRegistered X Y vaultPath := by
      intro body hbody
      obtain rfl := Option.some.inj (hcontent.symm.trans hbody)
      refine ⟨v.vaultKey, hkey, fun contents hcontents => ?_⟩
      obtain rfl := Except.ok.inj (Except.ok.inj (hopen.symm.trans hcontents))
      exact registered_effect (hreads.entry_registered hm.vault fun key h =>
        Option.some.inj (hkey.symm.trans (hkeychain key h))) p.command
    by_cases hsame : vaultPath.file = path.file
    · -- the one path has a vault now, and had no session file before
      rw [hsame] at hcontent hreads
      have hno : ∀ c, ¬m'.HasSession X Y path c := by
        rintro c ⟨key, body, -, hbody, hdec⟩
        obtain rfl := Option.some.inj (hcontent.symm.trans hbody)
        exact not_decodes_of_vault hopen hdec
      refine ⟨⟨hvault, fun _ _ => ⟨_, hkey⟩, fun _ c _ hc => absurd hc (hno c),
        fun c hc => absurd hc (hno c), fun c hc => absurd hc (hno c)⟩, ?_⟩
      rintro c ⟨key, body, -, hbody, hdec⟩
      change ReadsAs X Y v (m.disk.content path.file) at hreads
      rw [hbody] at hreads
      exact absurd hdec (not_decodes_of_vault hreads)
    · exact ⟨hm.of_same hkeychain (hframe hsame) hvault, hm.pairsKept hkeychain (hframe hsame)⟩

/-! ### Scrubs -/

lemma Merges.vaultRegistered (hserde : Y.SerdeLawful) (hA : Y.aead.Undone)
    (h : Merges X Y vaultPath path p (m, []) (m', history) v e existing result map)
    (hm : m.VaultRegistered X Y vaultPath)
    (hkey : ∀ key, m.keychain = some key → m'.keychain = some key)
    (hcontent : path.file ≠ vaultPath.file →
      m'.disk.content vaultPath.file = m.disk.content vaultPath.file) :
    m'.VaultRegistered X Y vaultPath := by
  by_cases hsame : path.file = vaultPath.file
  · intro body hbody
    obtain ⟨key, body', hkey', hbody', hdec⟩ := h.hasSession hserde hA
    rw [hsame, hbody] at hbody'
    obtain rfl := Option.some.inj hbody'
    exact ⟨key, hkey', fun contents hopen => absurd hdec (not_decodes_of_vault hopen)⟩
  · exact hm.of_same hkey (hcontent hsame)

/-- With room for everything, a scrub saves the pairs of the file and those that it hands on. -/
lemma Merges.mem_pairs (hX : X.MatcherLawful) (hm : m.Gathers X Y vaultPath path)
    (hroom : HasRoom X Y vaultPath path m p.input)
    (hdiffer : FakesDiffer X Y vaultPath path m p.input)
    (h : Merges X Y vaultPath path p (m, []) (m', history) v e existing result map)
    {pair : Str × Str} : pair ∈ ((Cli.loadOrCreate existing p.nowEpoch).1.ofMap p.ord map).pairs ↔
      pair.swap ∈ (heldPairs existing).map Prod.swap ++ e.mappings X p.input := by
  have hholds := h.holds hX (h.finds.oneToOne hm hdiffer) (hroom v e existing h.finds)
  rw [pairs_ofMap]
  exact hholds.mem_entries p.ord

lemma Merges.gathers (hX : X.MatcherLawful) (hserde : Y.SerdeLawful) (hA : Y.aead.Undone)
    (hm : m.Gathers X Y vaultPath path) (hroom : HasRoom X Y vaultPath path m p.input)
    (hdiffer : FakesDiffer X Y vaultPath path m p.input)
    (h : Merges X Y vaultPath path p (m, []) (m', history) v e existing result map)
    (hvault : m'.VaultRegistered X Y vaultPath) : m'.Gathers X Y vaultPath path := by
  have hsession := h.hasSession hserde hA
  have hmem : ∀ pair ∈ ((Cli.loadOrCreate existing p.nowEpoch).1.ofMap p.ord map).pairs,
      pair.swap ∈ (heldPairs existing).map Prod.swap ++ e.mappings X p.input :=
    fun pair => (h.mem_pairs hX hm hroom hdiffer).mp
  refine ⟨hvault, fun _ _ => ⟨_, h.keychain⟩, fun key c hkey hc pair hpair => ?_,
    fun c hc => ?_, fun c hc => ?_⟩
  · obtain rfl := hsession.unique hc
    obtain rfl := Option.some.inj (hkey.symm.trans h.keychain)
    exact h.finds.macFake hm _ (hmem pair hpair)
  · obtain rfl := hsession.unique hc
    refine (h.finds.oneToOne hm hdiffer).mono fun call hcall => ?_
    obtain ⟨pair, hpair, rfl⟩ := List.mem_map.mp hcall
    exact hmem pair hpair
  · obtain rfl := hsession.unique hc
    rw [pairs_ofMap, SessionMap.length_entries]
    exact h.len_le hX (h.finds.length_le hm)

/-- Every pair that was in the file is in it still. -/
lemma Merges.pairsKept (hX : X.MatcherLawful) (hserde : Y.SerdeLawful) (hA : Y.aead.Undone)
    (hm : m.Gathers X Y vaultPath path) (hroom : HasRoom X Y vaultPath path m p.input)
    (hdiffer : FakesDiffer X Y vaultPath path m p.input)
    (h : Merges X Y vaultPath path p (m, []) (m', history) v e existing result map) :
    PairsKept X Y path m m' := by
  intro c hc
  refine ⟨_, h.hasSession hserde hA, fun pair hpair => ?_⟩
  have hheld : pair ∈ heldPairs existing := h.finds.existing_eq hm hc ▸ hpair
  exact (h.mem_pairs hX hm hroom hdiffer).mpr (List.mem_append_left _ (List.mem_map_of_mem hheld))

lemma Merges.stores (hX : X.MatcherLawful) (hserde : Y.SerdeLawful) (hA : Y.aead.Undone)
    (hm : m.Gathers X Y vaultPath path) (hroom : HasRoom X Y vaultPath path m p.input)
    (hdiffer : FakesDiffer X Y vaultPath path m p.input)
    (h : Merges X Y vaultPath path p (m, []) (m', history) v e existing result map) :
    ∀ call ∈ e.mappings X p.input, m'.HasPair X Y path call.swap := by
  intro call hcall
  refine ⟨_, h.hasSession hserde hA, (h.mem_pairs hX hm hroom hdiffer).mpr ?_⟩
  exact List.mem_append_right _ hcall

/-- A scrub that has kept the pairs of the file, and has stored its own, had room for them. -/
lemma Merges.room (hX : X.MatcherLawful) (hserde : Y.SerdeLawful) (hA : Y.aead.Undone)
    (hm : m.Gathers X Y vaultPath path)
    (h : Merges X Y vaultPath path p (m, []) (m', history) v e existing result map)
    (hkept : PairsKept X Y path m m')
    (hstores : ∀ call ∈ e.mappings X p.input, m'.HasPair X Y path call.swap) :
    (gathered X e existing p.input).toFinset.card ≤ cliSessionMapCapacity := by
  have hsession := h.hasSession hserde hA
  -- each value has a pair in the new file, and the new file has no more than the map has
  have hsub : (gathered X e existing p.input).toFinset ⊆ ((((Cli.loadOrCreate existing
      p.nowEpoch).1.ofMap p.ord map).pairs).map Prod.snd).toFinset := by
    intro real hreal
    rw [List.mem_toFinset] at hreal ⊢
    rcases List.mem_append.mp hreal with hheld | hmapping
    · obtain ⟨pair, hpair, rfl⟩ := List.mem_map.mp hheld
      cases hexisting : existing with
      | none =>
        rw [hexisting] at hpair
        cases hpair
      | some c =>
        rw [hexisting] at hpair
        obtain ⟨c', hc', hsub⟩ := hkept c (h.finds.hasSession hm hexisting).2
        obtain rfl := hc'.unique hsession
        have hmem := hsub hpair
        rw [hexisting] at hmem
        exact List.mem_map_of_mem hmem
    · obtain ⟨call, hcall, rfl⟩ := List.mem_map.mp hmapping
      obtain ⟨c, hc, hpair'⟩ := hstores call hcall
      obtain rfl := hc.unique hsession
      exact List.mem_map.mpr ⟨call.swap, hpair', rfl⟩
  refine (Finset.card_le_card hsub).trans ((List.toFinset_card_le _).trans ?_)
  rw [List.length_map, pairs_ofMap, SessionMap.length_entries]
  exact h.len_le hX (h.finds.length_le hm)

/-- A scrub that has returned either failed and left the session file, or it merged. -/
lemma scrubs_scrubbed (horphan : ¬vaultPath.IsOrphan path.file) (hp : p.session = some path)
    (hcommand : p.command = .scrub) :
    ∃ history, Scrubs X Y vaultPath path p (scrubbed X Y vaultPath p m).1 (m, [])
      ((scrubbed X Y vaultPath p m).2, history) :=
  (scrub_ends hp hcommand (fun h => by cases h) horphan).run

/-- What one command preserves: the invariant, and the pairs of the file. -/
theorem SessionCommand.gathers (hX : X.MatcherLawful) (hserde : Y.SerdeLawful) (hA : Y.aead.Undone)
    (horphan : ¬vaultPath.IsOrphan path.file) (hm : m.Gathers X Y vaultPath path)
    (h : SessionCommand X Y vaultPath path m m') :
    m'.Gathers X Y vaultPath path ∧ PairsKept X Y path m m' := by
  cases h with
  | vault p => exact vaultCommand_gathers hserde hA horphan hm p
  | scrub p hp hcommand hroom hdiffer =>
    obtain ⟨history, hscrubs⟩ :=
      scrubs_scrubbed (X := X) (Y := Y) (m := m) horphan hp hcommand
    rcases hscrubs.session with ⟨hcontent, -⟩ | ⟨v, e, existing, result, map, hmerges, -⟩
    · -- the vault is as it was too, whether or not the two paths are one
      have hvault : (scrubbed X Y vaultPath p m).2.disk.content vaultPath.file =
          m.disk.content vaultPath.file := by
        by_cases hsame : path.file = vaultPath.file
        · rw [← hsame]
          exact hcontent
        · exact hscrubs.vault hsame
      exact ⟨hm.of_same hscrubs.keychain hcontent (hm.vault.of_same hscrubs.keychain hvault),
        hm.pairsKept hscrubs.keychain hcontent⟩
    · have hvault :=
        hmerges.vaultRegistered hserde hA hm.vault hscrubs.keychain hscrubs.vault
      exact ⟨hmerges.gathers hX hserde hA hm hroom hdiffer hvault,
        hmerges.pairsKept hX hserde hA hm hroom hdiffer⟩

end Steps

section Runs

open Relation

variable {X : Crates} {Y : FileCrates} {vaultPath path : PathBuf} {m m₁ m₂ : Machine}
  {input : Str} {v v' : OpenVault} {e e' : Engine} {existing existing' : Option SessionContents}

lemma gathers_of_run (hX : X.MatcherLawful) (hserde : Y.SerdeLawful) (hA : Y.aead.Undone)
    (horphan : ¬vaultPath.IsOrphan path.file) (hm : m.Gathers X Y vaultPath path)
    (hrun : ReflTransGen (SessionCommand X Y vaultPath path) m m₁) :
    m₁.Gathers X Y vaultPath path ∧ PairsKept X Y path m m₁ := by
  induction hrun with
  | refl => exact ⟨hm, .refl m⟩
  | tail _ hstep ih =>
    obtain ⟨hm', hkept⟩ := ih
    obtain ⟨hm'', hkept'⟩ := hstep.gathers hX hserde hA horphan hm'
    exact ⟨hm'', hkept.trans hkept'⟩

/-- Without a session file the invariant is only about the vault. -/
lemma gathers_of_absent (hvault : m.VaultRegistered X Y vaultPath)
    (hnone : m.disk.content path.file = none) : m.Gathers X Y vaultPath path := by
  have hno : ∀ c, ¬m.HasSession X Y path c := by
    rintro c ⟨key, body, -, hbody, -⟩
    rw [hnone] at hbody
    cases hbody
  refine ⟨hvault, fun body hbody => ?_, fun _ c _ hc => absurd hc (hno c),
    fun c hc => absurd hc (hno c), fun c hc => absurd hc (hno c)⟩
  rw [hnone] at hbody
  cases hbody

/-! ### What a command finds is determined -/

lemma Finds.unique {key : VaultKey} (h : Finds X Y vaultPath path m v e existing)
    (h' : Finds X Y vaultPath path m v' e' existing') (hkey : m.keychain = some key) :
    v = v' ∧ e = e' ∧ existing = existing' := by
  have hcontents : v.contents = v'.contents := by
    have hreads := h.reads
    have hreads' := h'.reads
    cases hbody : m.disk.content vaultPath.file with
    | none =>
      rw [hbody] at hreads hreads'
      exact Eq.trans hreads hreads'.symm
    | some body =>
      rw [hbody] at hreads hreads'
      unfold ReadsAs at hreads hreads'
      rw [h.key key hkey] at hreads
      rw [h'.key key hkey] at hreads'
      exact Except.ok.inj (Except.ok.inj (hreads.symm.trans hreads'))
  have hv : v = v' := by
    have hsame : v.vaultKey = v'.vaultKey := (h.key key hkey).trans (h'.key key hkey).symm
    obtain ⟨⟨vaultKey, entries⟩, version⟩ := v
    obtain ⟨⟨vaultKey', entries'⟩, version'⟩ := v'
    obtain ⟨rfl, rfl⟩ := VaultContents.mk.inj hcontents
    obtain rfl : vaultKey = vaultKey' := hsame
    rfl
  subst hv
  refine ⟨rfl, Except.ok.inj (Except.ok.inj (h.builds.symm.trans h'.builds)), ?_⟩
  have hloaded := h.loaded
  have hloaded' := h'.loaded
  cases existing with
  | none =>
    cases existing' with
    | none => rfl
    | some c' =>
      obtain ⟨body, hbody, -⟩ := hloaded'
      exact absurd (hbody.symm.trans hloaded) (by simp)
  | some c =>
    obtain ⟨body, hbody, hdec⟩ := hloaded
    cases existing' with
    | none => exact absurd (hbody.symm.trans hloaded') (by simp)
    | some c' =>
      obtain ⟨body', hbody', hdec'⟩ := hloaded'
      obtain rfl := Option.some.inj (hbody.symm.trans hbody')
      rw [hdec.unique hdec']

/-- Where there is no key yet there is nothing to bring together. -/
lemma Finds.gathered_eq_nil (h : Finds X Y vaultPath path m v e existing)
    (hm : m.Gathers X Y vaultPath path) (hkey : m.keychain = none) :
    gathered X e existing input = [] := by
  have hentries : v.entries = [] := by
    have hreads := h.reads
    cases hbody : m.disk.content vaultPath.file with
    | none =>
      rw [hbody] at hreads
      exact congrArg VaultContents.entries hreads
    | some body =>
      obtain ⟨key, hkey', -⟩ := hm.vault body hbody
      rw [hkey] at hkey'
      cases hkey'
  have hheld : heldPairs existing = [] := by
    cases hexisting : existing with
    | none => rfl
    | some c =>
      obtain ⟨hkey', -⟩ := h.hasSession hm hexisting
      rw [hkey] at hkey'
      cases hkey'
  have hmappings : e.mappings X input = [] := by
    apply List.eq_nil_iff_forall_not_mem.mpr
    intro call hcall
    obtain ⟨⟨entry, hentry, -⟩, -⟩ :=
      entry_of_mapping h.builds (h.entry_registered hm.vault) hcall
    rw [hentries] at hentry
    cases hentry
  unfold gathered
  rw [hheld, hmappings]
  rfl

/-! ### Runs -/

/-- What becomes of a session file in the runs that begin at a machine. -/
structure Accumulates (X : Crates) (Y : FileCrates) (vaultPath path : PathBuf) (m : Machine) :
    Prop where
  /-- Whatever the file has held it holds after every later command. -/
  keeps : ∀ m₁ m₂, ReflTransGen (SessionCommand X Y vaultPath path) m m₁ →
    ReflTransGen (SessionCommand X Y vaultPath path) m₁ m₂ → PairsKept X Y path m₁ m₂
  /-- Every fake that a scrub has written for a value is found in its output by every later
  restore, and stands for the value. -/
  finds : ∀ m₁ p result m₂, ReflTransGen (SessionCommand X Y vaultPath path) m m₁ →
    p.session = some path → p.command = .scrub → HasRoom X Y vaultPath path m₁ p.input →
    FakesDiffer X Y vaultPath path m₁ p.input → (scrubbed X Y vaultPath p m₁).1 = .ok result →
    ReflTransGen (SessionCommand X Y vaultPath path) (scrubbed X Y vaultPath p m₁).2 m₂ →
      ∃ v e existing steps tail c, Finds X Y vaultPath path m₁ v e existing ∧
        Walk X e 0 p.input (e.exactMatcher.scan p.input) steps tail ∧
        (scrubbed X Y vaultPath p m₁).2.printed =
          m₁.printed ++ target (steps.map Step.edit) tail ∧
        m₂.HasSession X Y path c ∧ ∀ call ∈ steps.filterMap Step.call, ∀ ord ttl now,
          call.2 ∈ candidateFakes ord (c.toMap ttl now) (target (steps.map Step.edit) tail) ∧
          (c.toMap ttl now).realOf now call.2 = some call.1
  /-- It takes the room: a scrub that returns has kept the pairs of the file and stored its own
  only if the map had room for all their values. -/
  room : ∀ m₁ p result, ReflTransGen (SessionCommand X Y vaultPath path) m m₁ →
    p.session = some path → p.command = .scrub → FakesDiffer X Y vaultPath path m₁ p.input →
    (scrubbed X Y vaultPath p m₁).1 = .ok result →
      (HasRoom X Y vaultPath path m₁ p.input ↔
        PairsKept X Y path m₁ (scrubbed X Y vaultPath p m₁).2 ∧
        ∀ v e existing, Finds X Y vaultPath path m₁ v e existing →
          ∀ call ∈ e.mappings X p.input,
            (scrubbed X Y vaultPath p m₁).2.HasPair X Y path call.swap)

lemma restores_of_hasPair {c : SessionContents} (hone : OneToOne (c.pairs.map Prod.swap))
    {steps : List Step} {tail : Str} {call : Str × Str} (hcall : call ∈ steps.filterMap Step.call)
    (hpair : call.swap ∈ c.pairs) (ord : HashOrder) (ttl : UInt64) (now : Nat) :
    call.2 ∈ candidateFakes ord (c.toMap ttl now) (target (steps.map Step.edit) tail) ∧
      (c.toMap ttl now).realOf now call.2 = some call.1 := by
  have hholds : (c.toMap ttl now).Holds now (c.pairs.map Prod.swap) := holds_toMap hone
  have hmem : call ∈ c.pairs.map Prod.swap := List.mem_map.mpr ⟨call.swap, hpair, call.swap_swap⟩
  have hlook := (hholds.byFake call.2 ⟨call.1, now⟩).mpr ⟨rfl, hmem⟩
  exact ⟨mem_candidateFakes.mpr ⟨⟨_, hlook⟩, contains_of_call hcall⟩, hholds.realOf hmem⟩

theorem session_accumulates (hX : X.MatcherLawful) (hserde : Y.SerdeLawful) (hA : Y.aead.Undone)
    (horphan : ¬vaultPath.IsOrphan path.file) (hvault : m.VaultRegistered X Y vaultPath)
    (hnone : m.disk.content path.file = none) : Accumulates X Y vaultPath path m := by
  have hm := gathers_of_absent hvault hnone
  constructor
  · intro m₁ m₂ hrun hrun'
    exact (gathers_of_run hX hserde hA horphan
      (gathers_of_run hX hserde hA horphan hm hrun).1 hrun').2
  · intro m₁ p result m₂ hrun hp hcommand hroom hdiffer hok hrun'
    have hm₁ := (gathers_of_run hX hserde hA horphan hm hrun).1
    have hm₁' := (SessionCommand.gathers hX hserde hA horphan hm₁
      (.scrub p hp hcommand hroom hdiffer)).1
    obtain ⟨hm₂, hkept⟩ := gathers_of_run hX hserde hA horphan hm₁' hrun'
    obtain ⟨history, hscrubs⟩ := scrubs_scrubbed horphan hp hcommand
    rcases hscrubs.session with ⟨-, err, herr⟩ | ⟨v, e, existing, res, map, hmerges, hprinted⟩
    · rw [hok] at herr
      cases herr
    obtain ⟨registered, macKey, -, hnew⟩ := Vault.buildEngine_eq_ok hmerges.builds
    obtain ⟨-, steps, tail, hwalk, houtput⟩ := scrubWithSession_spec hX hnew hmerges.scrubbed
    rw [houtput] at hprinted
    have hstores := hmerges.stores hX hserde hA hm₁ hroom hdiffer
    have hcalls : steps.filterMap Step.call = e.mappings X p.input := hwalk.calls
    rw [← hcalls] at hstores
    -- the file is there after this command, and so it is later
    obtain ⟨c, hc, -⟩ := hkept _ (hmerges.hasSession hserde hA)
    refine ⟨v, e, existing, steps, tail, c, hmerges.finds, hwalk, hprinted result hok, hc,
      fun call hcall ord ttl now => ?_⟩
    obtain ⟨c', hc', hpair⟩ := hkept.hasPair (hstores call hcall)
    obtain rfl := hc'.unique hc
    exact restores_of_hasPair (hm₂.oneToOne c' hc) hcall hpair ord ttl now
  · intro m₁ p result hrun hp hcommand hdiffer hok
    have hm₁ := (gathers_of_run hX hserde hA horphan hm hrun).1
    obtain ⟨history, hscrubs⟩ := scrubs_scrubbed horphan hp hcommand
    rcases hscrubs.session with ⟨-, err, herr⟩ | ⟨v, e, existing, res, map, hmerges, -⟩
    · rw [hok] at herr
      cases herr
    constructor
    · intro hroom
      refine ⟨hmerges.pairsKept hX hserde hA hm₁ hroom hdiffer, fun v' e' existing' hfinds => ?_⟩
      cases hkey : m₁.keychain with
      | none =>
        have hnil : gathered X e' existing' p.input = [] := hfinds.gathered_eq_nil hm₁ hkey
        have hmappings : e'.mappings X p.input = [] :=
          List.map_eq_nil_iff.mp (List.append_eq_nil_iff.mp hnil).2
        rw [hmappings]
        exact fun call hcall => by cases hcall
      | some key =>
        obtain ⟨rfl, rfl, rfl⟩ := hfinds.unique hmerges.finds hkey
        exact hmerges.stores hX hserde hA hm₁ hroom hdiffer
    · rintro ⟨hkept, hstores⟩ v' e' existing' hfinds
      cases hkey : m₁.keychain with
      | none =>
        rw [hfinds.gathered_eq_nil hm₁ hkey]
        exact Nat.zero_le _
      | some key =>
        obtain ⟨rfl, rfl, rfl⟩ := hfinds.unique hmerges.finds hkey
        exact hmerges.room hX hserde hA hm₁ hkept (hstores _ _ _ hfinds)

/-! ### A session file beside the vault -/

def besidePath : PathBuf := ⟨"home".toList, false, "s".toList⟩

def formatlessEntries : List VaultEntry :=
  [Cli.entryFor "b".toList "hello world".toList (Vector.replicate 16 0)]

def formatlessPair : Str × Str := ("00000000000".toList, "hello world".toList)

/-- The crates, with a short text for the vault and for each of the two session files. -/
def formatlessFiles : FileCrates :=
  .ofTables .padding [(⟨1, formatlessEntries⟩, utf8 "a".toList)]
    [(⟨1, 0, 1800, [⟨formatlessPair.1, formatlessPair.2⟩]⟩, utf8 "s".toList),
      (⟨1, 60, 1860, []⟩, utf8 "t".toList)]

def formatlessRegister : VaultProcess :=
  ⟨.register "b".toList "hello world".toList (Vector.replicate 16 0), 7, Vector.replicate 32 1,
    Vector.replicate 24 1⟩

/-- A session file with this plaintext, as the padding seals it. -/
def sessionBody (json : String) : Body :=
  ⟨sessionHeader.bytes ++ (Vector.replicate 24 1 : Nonce).toList ++
    (utf8 json.toList ++ List.replicate tagLen 0), true⟩

/-- A machine whose vault has one value without a format. -/
def registeredMachine : Machine :=
  ((Cli.runVaultCommand Crates.reference formatlessFiles leftoverPath
    formatlessRegister).run Machine.exec leftoverMachine).2

def registeredVault : OpenVault := .ofContents (Vector.replicate 32 1) ⟨1, formatlessEntries⟩

def registeredEngine : Engine :=
  reference [.sessionMapped ⟨"b".toList, formatlessPair.2, .formatless⟩] [] (List.replicate 32 0)

def besideProcess (command : TextCommand) (now : UInt64) (input : Str) : TextProcess :=
  ⟨command, input, some besidePath, now, 0, .stored, 8, Vector.replicate 32 1,
    Vector.replicate 24 1⟩

def scrubbedMachine : Machine :=
  (scrubbed Crates.reference formatlessFiles leftoverPath
    (besideProcess .scrub 0 formatlessPair.2) registeredMachine).2

lemma keychain_registered : registeredMachine.keychain = some (Vector.replicate 32 1) := by
  decide +kernel

lemma keychain_scrubbed : scrubbedMachine.keychain = some (Vector.replicate 32 1) := by
  decide +kernel

lemma finds_registered : Finds Crates.reference formatlessFiles leftoverPath besidePath
    registeredMachine registeredVault registeredEngine none where
  key key hkey := Option.some.inj (keychain_registered.symm.trans hkey)
  reads := rfl
  builds := rfl
  loaded := by
    change _ = none
    decide +kernel

lemma finds_scrubbed : Finds Crates.reference formatlessFiles leftoverPath besidePath
    scrubbedMachine registeredVault registeredEngine
      (some ⟨1, 0, 1800, [⟨formatlessPair.1, formatlessPair.2⟩]⟩) where
  key key hkey := Option.some.inj (keychain_scrubbed.symm.trans hkey)
  reads := rfl
  builds := rfl
  loaded := ⟨sessionBody "s", by decide +kernel, utf8 "s".toList, rfl, rfl⟩

/-- Nothing but the one value is ever brought together. -/
lemma gathered_registered (h : Finds Crates.reference formatlessFiles leftoverPath besidePath
    registeredMachine v e existing) :
    gathered Crates.reference e existing formatlessPair.2 = [formatlessPair.2] := by
  obtain ⟨-, rfl, rfl⟩ := h.unique finds_registered keychain_registered
  rfl

lemma gathered_scrubbed (h : Finds Crates.reference formatlessFiles leftoverPath besidePath
    scrubbedMachine v e existing) :
    gathered Crates.reference e existing "bye".toList = [formatlessPair.2] := by
  obtain ⟨-, rfl, rfl⟩ := h.unique finds_scrubbed keychain_scrubbed
  rfl

lemma run_registered : ReflTransGen (SessionCommand Crates.reference formatlessFiles leftoverPath
    besidePath) leftoverMachine registeredMachine := .single (.vault formatlessRegister)

lemma hasRoom_registered : HasRoom Crates.reference formatlessFiles leftoverPath besidePath
    registeredMachine formatlessPair.2 := hasRoom_of_single fun _ _ _ => gathered_registered

lemma fakesDiffer_registered : FakesDiffer Crates.reference formatlessFiles leftoverPath besidePath
    registeredMachine formatlessPair.2 := fakesDiffer_of_single fun _ _ _ => gathered_registered

lemma scrubbed_registered : (scrubbed Crates.reference formatlessFiles leftoverPath
    (besideProcess .scrub 0 formatlessPair.2) registeredMachine).1 = .ok ⟨0, [.scrubbed 1]⟩ := by
  decide +kernel

lemma printed_scrubbed :
    scrubbedMachine.printed = registeredMachine.printed ++ formatlessPair.1 := by
  decide +kernel

/-- A scrub stores the pair of the value, and another scrub, a minute later, keeps it: the fake is
then found in the text of the first one, and stands for the value. -/
theorem session_accumulates_beside :
    let m₂ := (scrubbed Crates.reference formatlessFiles leftoverPath
      (besideProcess .scrub 60 "bye".toList) scrubbedMachine).2
    scrubbedMachine.HasPair Crates.reference formatlessFiles besidePath formatlessPair ∧
      m₂.HasPair Crates.reference formatlessFiles besidePath formatlessPair ∧
      ∃ c, m₂.HasSession Crates.reference formatlessFiles besidePath c ∧ ∀ ord ttl now,
        formatlessPair.1 ∈ candidateFakes ord (c.toMap ttl now) formatlessPair.1 ∧
        (c.toMap ttl now).realOf now formatlessPair.1 = some formatlessPair.2 := by
  intro m₂
  have hacc : Accumulates Crates.reference formatlessFiles leftoverPath besidePath
      leftoverMachine :=
    session_accumulates Crates.reference_matcherLawful
      (FileCrates.ofTables_serdeLawful (by decide) (by decide)) Aead.padding_undone
      (by unfold PathBuf.IsOrphan; decide) (fun body hbody => by cases hbody) (by decide)
  have hscrub := run_registered.tail (.scrub (besideProcess .scrub 0 formatlessPair.2) rfl rfl
    hasRoom_registered fakesDiffer_registered)
  have hlater : ReflTransGen (SessionCommand Crates.reference formatlessFiles leftoverPath
      besidePath) scrubbedMachine m₂ := .single <| .scrub (besideProcess .scrub 60 "bye".toList)
    rfl rfl (hasRoom_of_single fun _ _ _ => gathered_scrubbed)
    (fakesDiffer_of_single fun _ _ _ => gathered_scrubbed)
  -- the scrub had room, and so it stored the pair
  have hstored : scrubbedMachine.HasPair Crates.reference formatlessFiles besidePath
      formatlessPair :=
    (((hacc.room _ (besideProcess .scrub 0 formatlessPair.2) _ run_registered rfl rfl
      fakesDiffer_registered scrubbed_registered).mp hasRoom_registered).2 _ _ _ finds_registered)
        formatlessPair.swap (by decide)
  refine ⟨hstored, (hacc.keeps _ _ hscrub hlater).hasPair hstored, ?_⟩
  obtain ⟨v, e, existing, steps, tail, c, hfinds, hwalk, hprinted, hc, hcalls⟩ :=
    hacc.finds _ (besideProcess .scrub 0 formatlessPair.2) _ _ run_registered rfl rfl
      hasRoom_registered fakesDiffer_registered scrubbed_registered hlater
  obtain ⟨-, rfl, -⟩ := hfinds.unique finds_registered keychain_registered
  have htext : formatlessPair.1 = target (steps.map Step.edit) tail :=
    List.append_cancel_left (printed_scrubbed.symm.trans hprinted)
  have hcall : formatlessPair.swap ∈ steps.filterMap Step.call := by
    rw [hwalk.calls]
    decide
  refine ⟨c, hc, fun ord ttl now => ?_⟩
  have hfound := hcalls _ hcall ord ttl now
  rw [← htext] at hfound
  exact hfound

/-! ### A session file that is named like an orphan of the vault -/

def orphanPath : PathBuf := ⟨"home".toList, false, "vault.tmp.s".toList⟩

def scrubAt (now : UInt64) (input : String) (pid : Nat) : TextProcess :=
  ⟨.scrub, input.toList, some orphanPath, now, 0, .stored, pid, Vector.replicate 32 1,
    Vector.replicate 24 1⟩

/-- The second scrub, a minute later, takes the session file of the first one away. -/
theorem session_loses_pair :
    let m₁ := ((Cli.runVaultCommand Crates.reference formatlessFiles leftoverPath
      formatlessRegister).run Machine.exec leftoverMachine).2
    let r₂ := scrubbed Crates.reference formatlessFiles leftoverPath (scrubAt 0 "hello world" 8) m₁
    let r₃ := scrubbed Crates.reference formatlessFiles leftoverPath (scrubAt 60 "bye" 9) r₂.2
    r₂.1.isOk = true ∧ r₃.1.isOk = true ∧
      r₂.2.HasPair Crates.reference formatlessFiles orphanPath formatlessPair ∧
      ¬r₃.2.HasPair Crates.reference formatlessFiles orphanPath formatlessPair := by
  intro m₁ r₂ r₃
  have hkey₂ : r₂.2.keychain = some (Vector.replicate 32 1) := by decide +kernel
  have hkey₃ : r₃.2.keychain = some (Vector.replicate 32 1) := by decide +kernel
  have hbody₂ : r₂.2.disk.content orphanPath.file = some (sessionBody "s") := by decide +kernel
  have hbody₃ : r₃.2.disk.content orphanPath.file = some (sessionBody "t") := by decide +kernel
  have hfirst : r₂.2.HasSession Crates.reference formatlessFiles orphanPath
      ⟨1, 0, 1800, [⟨formatlessPair.1, formatlessPair.2⟩]⟩ :=
    ⟨_, _, hkey₂, hbody₂, utf8 "s".toList, rfl, rfl⟩
  have hlast : r₃.2.HasSession Crates.reference formatlessFiles orphanPath ⟨1, 60, 1860, []⟩ :=
    ⟨_, _, hkey₃, hbody₃, utf8 "t".toList, rfl, rfl⟩
  refine ⟨by decide +kernel, by decide +kernel, ?_, ?_⟩
  · rw [hfirst.hasPair_iff]
    decide
  · rw [hlast.hasPair_iff]
    decide

end Runs

end Invisibool
