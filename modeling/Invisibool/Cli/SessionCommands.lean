import Invisibool.Cli.TextCommands
import Invisibool.Format.Codec
import Invisibool.Store.Frame

/-!
# What a command does to its session file

`scrub --session` and `restore --session`, stopped anywhere and with any failures. Each of their
calls keeps the session file, removes it, or puts one with the same times in its place.
-/

namespace Invisibool
open Text Process FileSystem
open Format hiding Bytes

section

variable (X : Crates) (Y : FileCrates)

/-- The bytes are these contents under the key, whatever the time is. -/
def Decodes (vaultKey : VaultKey) (bytes : Bytes) (c : SessionContents) : Prop :=
  ∃ json, openFile Y.aead sessionHeader (deriveSessionAeadKey X vaultKey.toList) bytes =
    .ok (.ok json) ∧ Y.sessionFromSlice json = some c

/-- The later contents have the times of the earlier ones. -/
def SessionContents.SameTimes (c c' : SessionContents) : Prop :=
  c'.createdAt = c.createdAt ∧ c'.expiresAt = c.expiresAt

/-- A call of a process with this clock has put a new session file in place of the old one. -/
structure Renews (now : UInt64) (file : Str × Str) (s s' : Moment) : Prop where
  keychain : ∀ key, s.1.keychain = some key → s'.1.keychain = some key
  exists_contents : ∃ key bytes c', s'.1.keychain = some key ∧
    s'.content file = some ⟨bytes, true⟩ ∧ Decodes X Y key bytes c' ∧
    ((s.content file = none ∧ SessionContents.SameTimes (.newAt now) c') ∨
      ∃ body c, s.content file = some body ∧ Decodes X Y key body.bytes c ∧ c.SameTimes c')

/-- What one call of a process with this clock can do to the session file. -/
def Turns (now : UInt64) (file : Str × Str) (s s' : Moment) : Prop :=
  Keeps file s.mute s'.mute ∨ Removes file s.mute s'.mute ∨ Renews X Y now file s s'

end

section Commands

variable {X : Crates} {Y : FileCrates} {vaultPath path : PathBuf} {p : TextProcess}
  {file : Str × Str} {now : UInt64} {s s' s'' : Moment} {key : VaultKey} {bytes : Bytes}
  {c c' : SessionContents}

lemma Decodes.unique (h : Decodes X Y key bytes c) (h' : Decodes X Y key bytes c') : c = c' := by
  obtain ⟨json, hopen, hjson⟩ := h
  obtain ⟨json', hopen', hjson'⟩ := h'
  obtain rfl := Except.ok.inj (Except.ok.inj (hopen.symm.trans hopen'))
  exact Option.some.inj (hjson.symm.trans hjson')

lemma decryptSessionBytes_iff : decryptSessionBytes X Y key.toList bytes now = .ok (.ok c) ↔
    Decodes X Y key bytes c ∧ now < c.expiresAt := by
  rw [decryptSessionBytes_eq_ok]
  constructor
  · rintro ⟨json, hopen, hjson, hnow⟩
    exact ⟨⟨json, hopen, hjson⟩, hnow⟩
  · rintro ⟨⟨json, hopen, hjson⟩, hnow⟩
    exact ⟨json, hopen, hjson, hnow⟩

lemma decodes_of_seal (hserde : Y.SerdeLawful) (hA : Y.aead.Undone) {nonce : Nonce}
    (h : sealSession X Y key.toList nonce c = .ok (.ok bytes)) : Decodes X Y key bytes c := by
  obtain ⟨key', json, ciphertext, hkey, hjson, hct, rfl⟩ := sealSession_eq_ok.mp h
  exact ⟨json, by rw [hkey]; exact openFile_encrypt hA hct, hserde.session c json hjson⟩

lemma loadOrCreate_sameTimes {existing : Option SessionContents} :
    (existing.getD (.newAt now)).SameTimes (Cli.loadOrCreate existing now).1 := by
  cases existing <;> exact ⟨rfl, rfl⟩

lemma Turns.keychain (h : Turns X Y now file s s') (hkey : s.1.keychain = some key) :
    s'.1.keychain = some key := by
  rcases h with h | h | h
  · exact h.keychain key hkey
  · exact h.keychain key hkey
  · exact h.keychain key hkey

/-! ### The commands -/

lemma Scans.turns (h : Scans vaultPath file s s') : Turns X Y now file s s' := by
  rcases h with h | ⟨-, h⟩
  · exact .inl h.mute
  · exact .inr (.inl h.mute)

lemma openEngine_does {newKey : VaultKey} : Does (Scans vaultPath file)
    (fun r s' => match r with
      | .error e => ∀ err, e ≠ .error (.session err)
      | .ok opened => s'.1.keychain = some opened.1.vaultKey)
    (Cli.openEngine X Y vaultPath newKey) s := by
  have hmap : ∀ e : Stop VaultError, ∀ err, e.map CommandError.vault ≠ .error (.session err) := by
    intro e err
    cases e <;> simp [Stop.map]
  refine Holds.andThen (fun _ => rfl) (Holds.mapError (fun _ => rfl)
    (openVault_does.mono (fun _ _ h => h) fun r s₁ hr => holds_ret.mpr ?_))
  cases r with
  | error e => exact holds_ret.mpr (hmap e)
  | ok v =>
    dsimp only [Except.mapError]
    split
    · rename_i e _
      exact holds_ret.mpr (hmap e)
    · exact holds_ret.mpr hr.1

/-- What the file was when it was loaded. -/
def LoadedAs (X : Crates) (Y : FileCrates) (key : VaultKey) (found : Option Body) :
    Option SessionContents → Prop
  | none => found = none
  | some c => ∃ body, found = some body ∧ Decodes X Y key body.bytes c

lemma loadSession_does {v : OpenVault} : Does (Keeps file)
    (fun r s' => match r with
      | .error e => (∃ err, e = .error (.session (.io err))) ∨ (s'.content path.file).isSome
      | .ok existing => LoadedAs X Y v.vaultKey (s'.content path.file) existing ∧
        ∀ c, existing = some c → p.nowEpoch < c.expiresAt)
    (Cli.loadSession X Y p v path) s := by
  refine Holds.mapError (fun _ => rfl) (loadSessionFile_does.mono (fun _ _ h => h)
    fun r s' hr => holds_ret.mpr ?_)
  cases r with
  | error e =>
    refine hr.imp_left ?_
    rintro ⟨err, rfl⟩
    exact ⟨err, rfl⟩
  | ok found =>
    cases found with
    | none => exact ⟨hr, fun c h => by cases h⟩
    | some c =>
      obtain ⟨body, hbody, hdec⟩ := hr
      obtain ⟨hdec, hnow⟩ := decryptSessionBytes_iff.mp hdec
      refine ⟨⟨body, hbody, hdec⟩, fun c' h => ?_⟩
      obtain rfl := Option.some.inj h
      exact hnow

/-- What is known of the file while a scrub saves it: until the rename it is what was loaded, and
then it is what was sealed. -/
def Saving (X : Crates) (Y : FileCrates) (path : PathBuf) (key : VaultKey)
    (existing : Option SessionContents) (sealed : Bytes → Prop) (s : Moment) : Prop :=
  s.1.keychain = some key ∧ (LoadedAs X Y key (s.content path.file) existing ∨
    ∃ bytes, sealed bytes ∧ s.content path.file = some ⟨bytes, true⟩)

lemma Saves.saving {sealed : Bytes → Prop} {existing : Option SessionContents}
    (hs : Saving X Y path key existing sealed s) (h : Saves path sealed path.file s s') :
    Saving X Y path key existing sealed s' := by
  obtain ⟨hkey, hs⟩ := hs
  rcases h with h | ⟨bytes, hsealed, -, h⟩
  · refine ⟨h.keychain _ hkey, ?_⟩
    rw [h.content]
    exact hs
  · exact ⟨h.keychain _ hkey, .inr ⟨bytes, hsealed, h.content⟩⟩

/-- A save of what a scrub has made of the contents that were loaded renews the file. -/
lemma saveSession_does (hserde : Y.SerdeLawful) (hA : Y.aead.Undone) {v : OpenVault}
    {existing : Option SessionContents} {map : SessionMap} (hpending : ¬s.Renamed path.file)
    (hkey : s.1.keychain = some v.vaultKey)
    (hloaded : LoadedAs X Y v.vaultKey (s.content path.file) existing) :
    Does (Turns X Y p.nowEpoch path.file) (fun _ _ => True)
      (saveSessionFile X Y v.vaultKey path p.pid p.nonce
        ((Cli.loadOrCreate existing p.nowEpoch).1.ofMap p.ord map)) s := by
  have hsave : Does (Saves path _ path.file) _ (saveSessionFile X Y v.vaultKey path p.pid p.nonce
      ((Cli.loadOrCreate existing p.nowEpoch).1.ofMap p.ord map)) s :=
    saveSessionFile_does hpending fun h => absurd h (path.tmpPath_ne_file p.pid)
  refine (hsave.keeping ⟨hkey, .inl hloaded⟩ fun s s' hs h => h.saving hs).mono
    (fun s s' ⟨hs, h, hs'⟩ => ?_) fun _ _ _ => trivial
  rcases h with h | ⟨bytes, hseal, -, h⟩
  · exact .inl h.mute
  have hdec := decodes_of_seal hserde hA hseal
  have htimes : SessionContents.SameTimes (existing.getD (.newAt p.nowEpoch)) _ :=
    loadOrCreate_sameTimes
  refine .inr (.inr ⟨h.keychain, v.vaultKey, bytes, _, hs'.1, h.content, hdec, ?_⟩)
  rcases hs.2 with hloaded | ⟨bytes', hseal', hcontent⟩
  · cases existing with
    | none => exact .inl ⟨hloaded, htimes⟩
    | some c =>
      obtain ⟨body, hbody, hc⟩ := hloaded
      exact .inr ⟨body, c, hbody, hc, htimes⟩
  · exact .inr ⟨_, _, hcontent, decodes_of_seal hserde hA hseal', rfl, rfl⟩

lemma report_does {output : Str} {notices : List CommandNotice} :
    Does (Turns X Y now file) (fun _ _ => True) (Cli.report output notices) s := by
  refine Holds.andThen (fun _ => rfl) (Holds.mapError (fun _ => rfl)
    (print_does.mono (fun _ _ h => .inl h) fun r s₁ _ => holds_ret.mpr ?_))
  cases r <;> exact holds_ret.mpr trivial

/-- What a command does with what it has loaded. -/
def Cli.afterLoad (X : Crates) (Y : FileCrates) (p : TextProcess) (path : PathBuf)
    (opened : OpenVault × Engine) (existing : Option SessionContents) :
    Program (Except (Stop CommandError) CommandResult) :=
  match p.command with
  | .scrub => (Cli.scrubSession X Y p opened.1 opened.2 path existing).andThen fun result =>
    Cli.report result.output (result.notices.map CommandNotice.scrub ++
      [CommandNotice.scrubbed result.scrubbedCount])
  | .restore => (Cli.restoreSession X p opened.2 path existing).andThen fun result =>
    Cli.report result.1.output result.2

/-- Both commands open the vault, build the engine and load the session file. -/
lemma runTextCommand_eq (hp : p.session = some path) :
    Cli.runTextCommand X Y vaultPath p = (Cli.openEngine X Y vaultPath p.newKey).andThen fun opened =>
      (Cli.loadSession X Y p opened.1 path).andThen (Cli.afterLoad X Y p path opened) := by
  unfold Cli.runTextCommand Cli.afterLoad
  cases p.command with
  | scrub =>
    unfold Cli.scrub Cli.scrubText
    simp only [hp, Prog.andThen_assoc]
  | restore =>
    unfold Cli.restore Cli.restoreText
    simp only [hp, Prog.andThen_assoc]

lemma afterLoad_does (hserde : Y.SerdeLawful) (hA : Y.aead.Undone) {opened : OpenVault × Engine}
    {existing : Option SessionContents} (hpending : ¬s.Renamed path.file)
    (hkey : s.1.keychain = some opened.1.vaultKey)
    (hloaded : LoadedAs X Y opened.1.vaultKey (s.content path.file) existing) :
    Does (Turns X Y p.nowEpoch path.file) (fun _ _ => True)
      (Cli.afterLoad X Y p path opened existing) s := by
  unfold Cli.afterLoad
  cases p.command with
  | scrub =>
    refine Holds.andThen (fun _ => rfl) ?_
    unfold Cli.scrubSession
    dsimp only
    split
    · exact holds_ret.mpr (holds_ret.mpr trivial)
    · refine Holds.andThen (fun _ => rfl) (Holds.mapError (fun _ => rfl)
        ((saveSession_does hserde hA hpending hkey hloaded).mono (fun _ _ h => h)
          fun r s₁ _ => holds_ret.mpr ?_))
      cases r with
      | error e => exact holds_ret.mpr (holds_ret.mpr trivial)
      | ok u => exact holds_ret.mpr report_does
  | restore =>
    refine Holds.andThen (fun _ => rfl) ?_
    unfold Cli.restoreSession
    split
    · exact holds_ret.mpr (holds_ret.mpr trivial)
    · dsimp only
      split
      · exact holds_ret.mpr (holds_ret.mpr trivial)
      · refine Holds.bind (fun _ => rfl) ((wipeSessionFile_does path.file path).mono (fun s s' h => ?_)
          fun wiped s₁ _ => holds_ret.mpr report_does)
        rcases h with h | ⟨-, h⟩
        · exact .inl h.mute
        · exact .inr (.inl h.mute)

/-- Every call of a command on the session path keeps the file, removes it or renews it. -/
theorem runTextCommand_does (hserde : Y.SerdeLawful) (hA : Y.aead.Undone)
    (hp : p.session = some path) (hpending : ¬s.Renamed path.file) :
    Does (Turns X Y p.nowEpoch path.file) (fun _ _ => True)
      (Cli.runTextCommand X Y vaultPath p) s := by
  rw [runTextCommand_eq hp]
  refine Holds.andThen (fun _ => rfl) ((openEngine_does.since (Scans.refl vaultPath path.file)
    fun _ _ _ => Scans.trans).mono (fun _ _ h => h.turns) fun r s₁ ⟨hscans, hkey⟩ => ?_)
  have hpending₁ : ¬s₁.Renamed path.file := by
    rcases hscans with h | ⟨-, h⟩ <;> exact fun hr => hpending (h.renamed.mp hr)
  cases r with
  | error e => exact holds_ret.mpr trivial
  | ok opened =>
    refine Holds.andThen (fun _ => rfl) ((loadSession_does.since (Keeps.refl path.file)
      fun _ _ _ => Keeps.trans).mono (fun _ _ h => .inl h.mute) fun r s₂ ⟨hkeeps, hload⟩ => ?_)
    cases r with
    | error e => exact holds_ret.mpr trivial
    | ok existing =>
      exact afterLoad_does hserde hA (fun hr => hpending₁ (hkeeps.renamed.mp hr))
        (hkeeps.keychain _ hkey) hload.1

/-! ### Failures -/

lemma report_fails {output : Str} {notices : List CommandNotice} :
    Does (fun _ _ => True) (fun r _ => ∀ err, r ≠ .error (.error (.session err)))
      (Cli.report output notices) s := by
  refine Holds.andThen (fun _ => rfl) (Holds.mapError (fun _ => rfl)
    (Holds.any.mono (fun _ _ h => h) fun r s₁ _ => holds_ret.mpr ?_))
  cases r with
  | error e => exact holds_ret.mpr fun err h => by cases h
  | ok u => exact holds_ret.mpr fun err h => by cases h

/-- A scrub that has failed on the format when the file was loaded could not seal its pairs, and
has left the file. -/
lemma scrubSession_fails {v : OpenVault} {engine : Engine} {existing : Option SessionContents}
    (hpending : ¬s.Renamed path.file) :
    Does (fun _ _ => True) (fun r s' => ∀ e, r = .error (.error (.session e)) → e.isFormat = true →
        s'.content path.file = s.content path.file ∧
          ∃ key c, sealSession X Y key p.nonce c = .ok (.error e))
      (Cli.scrubSession X Y p v engine path existing) s := by
  unfold Cli.scrubSession
  dsimp only
  split
  · rename_i stop hconclude
    refine holds_ret.mpr fun e h _ => ?_
    obtain ⟨panic, rfl⟩ := panic_of_conclude hconclude
    cases h
  rename_i r map _
  have hsave : Does (Saves path _ path.file) _ (saveSessionFile X Y v.vaultKey path p.pid p.nonce
      ((Cli.loadOrCreate existing p.nowEpoch).1.ofMap p.ord map)) s :=
    saveSessionFile_does hpending fun h => absurd h (path.tmpPath_ne_file p.pid)
  refine Holds.andThen (fun _ => rfl) (Holds.mapError (fun _ => rfl)
    (((hsave.since (Saves.refl path _ path.file) fun _ _ _ => Saves.trans).and
      saveSessionFile_format).mono (fun _ _ _ => trivial)
      fun r s₁ ⟨⟨hsaves, hrenamed⟩, hformat⟩ => holds_ret.mpr ?_))
  cases r with
  | ok u => exact holds_ret.mpr fun e h => by cases h
  | error stop =>
    refine holds_ret.mpr fun e h he => ?_
    cases stop with
    | panic q => cases h
    | error err =>
      obtain rfl := CommandError.session.inj (Stop.error.inj (Except.error.inj h))
      refine ⟨?_, v.vaultKey.toList, _, hformat err rfl he⟩
      rcases hsaves with hkeeps | ⟨bytes, -, -, hreplaces⟩
      · exact hkeeps.content
      · -- an error of the format comes before the rename
        have hafter := hrenamed.mp hreplaces.renamed _ rfl
        have hbefore := SessionFileError.isFormat_beforeRename he
        exact Bool.noConfusion (hbefore.symm.trans hafter)

lemma restoreSession_fails {engine : Engine} {existing : Option SessionContents} :
    Does (fun _ _ => True) (fun r _ => ∀ e, r = .error (.error (.session e)) → e.isFormat = false)
      (Cli.restoreSession X p engine path existing) s := by
  unfold Cli.restoreSession
  split
  · refine holds_ret.mpr fun e h => ?_
    obtain rfl := CommandError.session.inj (Stop.error.inj (Except.error.inj h))
    rfl
  dsimp only
  split
  · rename_i stop hconclude
    refine holds_ret.mpr fun e h => ?_
    obtain ⟨panic, rfl⟩ := panic_of_conclude hconclude
    cases h
  · exact Holds.bind (fun _ => rfl) (Holds.any.mono (fun _ _ h => h)
      fun wiped s₁ _ => holds_ret.mpr fun e h => by cases h)

lemma afterLoad_fails {opened : OpenVault × Engine} {existing : Option SessionContents}
    (hpending : ¬s.Renamed path.file) :
    Does (fun _ _ => True) (fun r s' => ∀ e, r = .error (.error (.session e)) → e.isFormat = true →
        s'.content path.file = s.content path.file ∧
          ∃ key c, sealSession X Y key p.nonce c = .ok (.error e))
      (Cli.afterLoad X Y p path opened existing) s := by
  unfold Cli.afterLoad
  cases p.command with
  | scrub =>
    refine Holds.andThen (fun _ => rfl) ((scrubSession_fails hpending).mono (fun _ _ h => h)
      fun r s₁ hr => ?_)
    cases r with
    | error e =>
      refine holds_ret.mpr fun err h => hr err ?_
      rw [Except.error.inj h]
    | ok result => exact report_fails.mono (fun _ _ h => h) fun r s₂ hr e h => absurd h (hr e)
  | restore =>
    refine Holds.andThen (fun _ => rfl) (restoreSession_fails.mono (fun _ _ h => h)
      fun r s₁ hr => ?_)
    cases r with
    | error e =>
      refine holds_ret.mpr fun err h hformat => ?_
      rw [hr err (by rw [Except.error.inj h])] at hformat
      cases hformat
    | ok result => exact report_fails.mono (fun _ _ h => h) fun r s₂ hr e h => absurd h (hr e)

/-- A command that fails on the bytes of its session file leaves them. If it fails to seal new
ones, the orphan scan of the vault may have taken the file away before. -/
theorem runTextCommand_fails (hp : p.session = some path) (hpending : ¬s.Renamed path.file) :
    Does (fun _ _ => True) (fun r s' => ∀ e, r = .error (.error (.session e)) → e.isFormat = true →
        s'.content path.file = s.content path.file ∨ vaultPath.IsOrphan path.file ∧
          ∃ key c, sealSession X Y key p.nonce c = .ok (.error e))
      (Cli.runTextCommand X Y vaultPath p) s := by
  rw [runTextCommand_eq hp]
  refine Holds.andThen (fun _ => rfl) ((openEngine_does.since (Scans.refl vaultPath path.file)
    fun _ _ _ => Scans.trans).mono (fun _ _ _ => trivial) fun r s₁ ⟨hscans, hr⟩ => ?_)
  have hpending₁ : ¬s₁.Renamed path.file := by
    rcases hscans with h | ⟨-, h⟩ <;> exact fun hr => hpending (h.renamed.mp hr)
  cases r with
  | error e => exact holds_ret.mpr fun err h => absurd (Except.error.inj h) (hr err)
  | ok opened =>
    refine Holds.andThen (fun _ => rfl) ((loadSession_does.since (Keeps.refl path.file)
      fun _ _ _ => Keeps.trans).mono (fun _ _ _ => trivial) fun r s₂ ⟨hkeeps, hload⟩ => ?_)
    cases r with
    | error stop =>
      refine holds_ret.mpr fun e h hformat => .inl ?_
      rcases hload with ⟨err, rfl⟩ | hsome
      · obtain rfl := CommandError.session.inj (Stop.error.inj (Except.error.inj h))
        cases hformat
      · -- the file was there when it was loaded
        rcases hscans with hkept | ⟨-, hremoved⟩
        · exact hkeeps.content.trans hkept.content
        · have hnone := hkeeps.content.trans hremoved.content
          rw [hnone] at hsome
          cases hsome
    | ok existing =>
      refine (afterLoad_fails fun hr => hpending₁ (hkeeps.renamed.mp hr)).mono
        (fun _ _ _ => trivial) fun r s₃ hr e h hformat => ?_
      obtain ⟨hcontent, hseal⟩ := hr e h hformat
      rcases hscans with hkept | ⟨horphan, -⟩
      · exact .inl (hcontent.trans (hkeeps.content.trans hkept.content))
      · exact .inr ⟨horphan, hseal⟩

/-- Without a session file `restore` fails, and prints nothing. -/
theorem restore_missing (hp : p.session = some path) (hcommand : p.command = .restore)
    (hnone : s.content path.file = none) :
    Does (fun s s' => s'.1.printed = s.1.printed) (fun r _ => ∃ e, r = .error e)
      (Cli.runTextCommand X Y vaultPath p) s := by
  rw [runTextCommand_eq hp]
  refine Holds.andThen (fun _ => rfl) ((openEngine_does.since (Scans.refl vaultPath path.file)
    fun _ _ _ => Scans.trans).mono (fun _ _ h => ?_) fun r s₁ ⟨hscans, hr⟩ => ?_)
  · rcases h with h | ⟨-, h⟩ <;> exact h.printed
  have hnone₁ : s₁.content path.file = none := by
    rcases hscans with h | ⟨-, h⟩
    · exact h.content.trans hnone
    · exact h.content
  cases r with
  | error e => exact holds_ret.mpr ⟨e, rfl⟩
  | ok opened =>
    refine Holds.andThen (fun _ => rfl) ((loadSession_does.since (Keeps.refl path.file)
      fun _ _ _ => Keeps.trans).mono (fun _ _ h => h.printed) fun r s₂ ⟨hkeeps, hload⟩ => ?_)
    cases r with
    | error e => exact holds_ret.mpr ⟨e, rfl⟩
    | ok existing =>
      cases existing with
      | none =>
        unfold Cli.afterLoad
        rw [hcommand]
        exact holds_ret.mpr ⟨_, rfl⟩
      | some c =>
        obtain ⟨⟨body, hbody, -⟩, -⟩ := hload
        rw [hkeeps.content, hnone₁] at hbody
        cases hbody

/-! ### Expiry -/

/-- The vault has been opened, at most: nothing was printed, and the file is as it was unless the
orphan scan of the vault has taken it away. -/
structure Opening (vaultPath : PathBuf) (file : Str × Str) (s s' : Moment) : Prop where
  printed : s'.1.printed = s.1.printed
  content : s'.content file = s.content file ∨
    vaultPath.IsOrphan file ∧ s'.content file = none

/-- The command is at what it does with what it has loaded, and that had not expired. -/
structure Loaded (X : Crates) (Y : FileCrates) (vaultPath path : PathBuf) (p : TextProcess)
    (s s' : Moment) (q : Program (Except (Stop CommandError) CommandResult))
    (v : OpenVault) (existing : Option SessionContents) : Prop where
  unexpired : ∀ c, existing = some c → p.nowEpoch < c.expiresAt
  exists_moment : ∃ engine s₁, Opening vaultPath path.file s s₁ ∧
    (∀ key, s.1.keychain = some key → v.vaultKey = key) ∧
    LoadedAs X Y v.vaultKey (s₁.content path.file) existing ∧
    (Cli.afterLoad X Y p path (v, engine) existing).Reaches Machine.faulty.logged s₁ q s'

lemma Scans.opening (h : Scans vaultPath file s s') : Opening vaultPath file s s' := by
  rcases h with h | ⟨horphan, h⟩
  · exact ⟨h.printed, .inl h.content⟩
  · exact ⟨h.printed, .inr ⟨horphan, h.content⟩⟩

lemma Opening.keeps (h : Opening vaultPath file s s') (hkeeps : Keeps file s' s'') :
    Opening vaultPath file s s'' :=
  ⟨hkeeps.printed.trans h.printed, h.content.imp hkeeps.content.trans
    (And.imp_right hkeeps.content.trans)⟩

lemma Scans.keychain (h : Scans vaultPath file s s') :
    ∀ key, s.1.keychain = some key → s'.1.keychain = some key := by
  rcases h with h | ⟨-, h⟩
  · exact h.keychain
  · exact h.keychain

/-- Wherever a command is stopped it has done nothing yet, or what it does is done with what it
has loaded before the expiry. -/
theorem opening_or_loaded (hp : p.session = some path)
    {q : Program (Except (Stop CommandError) CommandResult)}
    (hreach : (Cli.runTextCommand X Y vaultPath p).Reaches Machine.faulty.logged s q s') :
    (Opening vaultPath path.file s s' ∧ ∀ result, q ≠ .ret (.ok result)) ∨
      ∃ v existing, Loaded X Y vaultPath path p s s' q v existing := by
  rw [runTextCommand_eq hp] at hreach
  rcases hreach.of_andThen with ⟨p', hp', hne, rfl⟩ | ⟨opened, s₁, hopen, hload⟩
  · have hscans := openEngine_does.guar_of_reaches (Scans.refl vaultPath path.file)
      (fun _ _ _ => Scans.trans) hp'
    exact .inl ⟨hscans.opening, Prog.andThen_ne_ok hne⟩
  obtain ⟨hscans, hkey⟩ := holds_ret.mp ((openEngine_does.since (Scans.refl vaultPath path.file)
    fun _ _ _ => Scans.trans).reaches hopen).2
  rcases hload.of_andThen with ⟨p', hp', hne, rfl⟩ | ⟨existing, s₂, hload, hrest⟩
  · have hkeeps := loadSession_does.guar_of_reaches (Keeps.refl path.file)
      (fun _ _ _ => Keeps.trans) hp'
    exact .inl ⟨hscans.opening.keeps hkeeps, Prog.andThen_ne_ok hne⟩
  obtain ⟨hkeeps, hloaded, hnow⟩ := holds_ret.mp ((loadSession_does.since (Keeps.refl path.file)
    fun _ _ _ => Keeps.trans).reaches hload).2
  refine .inr ⟨opened.1, existing, hnow, opened.2, s₂, hscans.opening.keeps hkeeps, ?_, hloaded,
    hrest⟩
  intro key hk
  exact Option.some.inj (hkey.symm.trans (hscans.keychain key hk))

/-- Nothing comes of a session file that has expired. -/
theorem opening_or_none (hp : p.session = some path) {body : Body}
    (hkey : s.1.keychain = some key) (hbody : s.content path.file = some body)
    (hdec : Decodes X Y key body.bytes c) (hexpired : c.expiresAt ≤ p.nowEpoch)
    {q : Program (Except (Stop CommandError) CommandResult)}
    (hreach : (Cli.runTextCommand X Y vaultPath p).Reaches Machine.faulty.logged s q s') :
    (Opening vaultPath path.file s s' ∧ ∀ result, q ≠ .ret (.ok result)) ∨
      vaultPath.IsOrphan path.file ∧ ∃ v, Loaded X Y vaultPath path p s s' q v none := by
  refine (opening_or_loaded hp hreach).imp_right ?_
  rintro ⟨v, existing, hloaded⟩
  obtain ⟨engine, s₁, hopening, hsame, hfound, -⟩ := hloaded.exists_moment
  obtain rfl := hsame key hkey
  cases existing with
  | none =>
    refine ⟨?_, v, hloaded⟩
    rcases hopening.content with hcontent | ⟨horphan, -⟩
    · rw [hcontent, hbody] at hfound
      cases hfound
    · exact horphan
  | some c' =>
    obtain ⟨body', hbody', hdec'⟩ := hfound
    rcases hopening.content with hcontent | ⟨-, hnone⟩
    · rw [hcontent, hbody] at hbody'
      obtain rfl := Option.some.inj hbody'
      obtain rfl := hdec.unique hdec'
      exact absurd (hloaded.unexpired c rfl) (UInt64.not_lt.mpr hexpired)
    · rw [hnone] at hbody'
      cases hbody'

end Commands

end Invisibool
