import Invisibool.Cli.Agreement
import Invisibool.Cli.SessionCommands
import Invisibool.Engine.SessionStore
import Invisibool.Store.Faultless

/-!
# A scrub with a session file, without faults

What is known of the machine when `scrub --session` has returned: it has left the session file, or
it has loaded the pairs of the file, scrubbed, and saved what the map then held. No other file has
changed, unless it is one that the orphan scan goes for.
-/

namespace Invisibool
open Text Matching Process FileSystem Engine
open Format hiding Bytes

/-- A scrub has gone all the way from the vault and the session file to a new session file. -/
structure Merges (X : Crates) (Y : FileCrates) (vaultPath path : PathBuf) (p : TextProcess)
    (s s' : Moment) (v : OpenVault) (e : Engine) (existing : Option SessionContents)
    (result : EngineScrubResult) (map : SessionMap) : Prop where
  reads : ReadsAs X Y v (s.content vaultPath.file)
  key : ∀ key, s.1.keychain = some key → v.vaultKey = key
  keychain : s'.1.keychain = some v.vaultKey
  builds : v.toVault.buildEngine X = .ok (.ok e)
  loaded : LoadedAs X Y v.vaultKey (s.content path.file) existing
  scrubbed : e.scrubWithSession X p.ord p.input
    ((Cli.loadOrCreate existing p.nowEpoch).1.toMap (Cli.loadOrCreate existing p.nowEpoch).2
      p.nowInstant) p.nowInstant = .ok (result, map)
  saved : ∃ bytes, sealSession X Y v.vaultKey.toList p.nonce
      ((Cli.loadOrCreate existing p.nowEpoch).1.ofMap p.ord map) = .ok (.ok bytes) ∧
    s'.content path.file = some ⟨bytes, true⟩

section Steps

variable {X : Crates} {Y : FileCrates} {vaultPath path : PathBuf} {p : TextProcess}
  {file : Str × Str} {s s' : Moment}

/-- No command takes away or changes a file that is neither its own nor an orphan. -/
lemma runVaultCommand_frame {p : VaultProcess} (hpending : ¬s.Renamed vaultPath.file)
    (horphan : ¬vaultPath.IsOrphan file) (hfile : vaultPath.file ≠ file) :
    Ends (fun _ s' => s'.content file = s.content file)
      (Cli.runVaultCommand X Y vaultPath p) s := by
  have hopen : Does (Scans vaultPath file) _ (openVault X Y vaultPath p.newKey) s := openVault_does
  have hopen' : Does (Scans vaultPath vaultPath.file) _ (openVault X Y vaultPath p.newKey) s :=
    openVault_does
  refine Holds.andThen (fun _ => rfl) (Holds.mapError (fun _ => rfl) ((ends_of_does
    ((hopen.since (Scans.refl vaultPath file) fun _ _ _ => Scans.trans).and
      (hopen'.since (Scans.refl vaultPath vaultPath.file) fun _ _ _ => Scans.trans))).mono
    (fun _ _ _ => trivial) fun r s₁ ⟨⟨hscans, _⟩, hscans', _⟩ => holds_ret.mpr ?_))
  have hkeeps : Keeps file s s₁ := hscans.resolve_right fun h => horphan h.1
  have hpending₁ : ¬Moment.Renamed s₁ vaultPath.file := fun h => hpending (hscans'.keeps.renamed.mp h)
  have hsave : ∀ (v : OpenVault) message result,
      Ends (fun _ s' => s'.content file = s.content file)
        (Cli.saveAndReport X Y vaultPath p v message result) s₁ := fun v message result => by
    refine Holds.andThen (fun _ => rfl) (Holds.mapError (fun _ => rfl)
      ((save_frame hpending₁ hfile).mono (fun _ _ _ => trivial) fun r s₂ h₂ => holds_ret.mpr ?_))
    cases r with
    | error e => exact holds_ret.mpr (h₂.trans hkeeps.content)
    | ok u =>
      refine Holds.bind (fun _ => rfl) (print_ends.mono (fun _ _ _ => trivial) ?_)
      rintro _ s₃ ⟨-, hdisk, -⟩
      refine holds_ret.mpr (Eq.trans ?_ (h₂.trans hkeeps.content))
      unfold Moment.content
      rw [hdisk]
  cases r with
  | error e => exact holds_ret.mpr hkeeps.content
  | ok v =>
    cases hcommand : p.command with
    | register label value tweak =>
      change Ends _ (Cli.registerIn X Y vaultPath p label value tweak v) s₁
      unfold Cli.registerIn
      dsimp only
      split
      · exact holds_ret.mpr hkeeps.content
      · exact hsave _ _ _
    | forget label =>
      change Ends _ (Cli.forgetIn X Y vaultPath p label v) s₁
      unfold Cli.forgetIn
      dsimp only
      split
      · exact holds_ret.mpr hkeeps.content
      · exact hsave _ _ _

/-- The two files of a scrub are as they were. -/
structure BothKept (vaultPath path : PathBuf) (s s' : Moment) : Prop where
  vault : Keeps vaultPath.file s s'
  session : Keeps path.file s s'

lemma BothKept.trans {s'' : Moment} (h : BothKept vaultPath path s s')
    (h' : BothKept vaultPath path s' s'') : BothKept vaultPath path s s'' :=
  ⟨h.vault.trans h'.vault, h.session.trans h'.session⟩

lemma openEngine_ends (horphan : ¬vaultPath.IsOrphan path.file) {newKey : VaultKey} :
    Ends (fun r s' => BothKept vaultPath path s s' ∧ ∀ opened, r = .ok opened →
        s'.1.keychain = some opened.1.vaultKey ∧
        ReadsAs X Y opened.1 (s.content vaultPath.file) ∧
        opened.1.toVault.buildEngine X = .ok (.ok opened.2))
      (Cli.openEngine X Y vaultPath newKey) s := by
  have hopen : Does (Scans vaultPath vaultPath.file) _ (openVault X Y vaultPath newKey) s :=
    openVault_does
  have hopen' : Does (Scans vaultPath path.file) _ (openVault X Y vaultPath newKey) s :=
    openVault_does
  refine Holds.andThen (fun _ => rfl) (Holds.mapError (fun _ => rfl) ((ends_of_does
    ((hopen.since (Scans.refl vaultPath vaultPath.file) fun _ _ _ => Scans.trans).and
      (hopen'.since (Scans.refl vaultPath path.file) fun _ _ _ => Scans.trans))).mono
    (fun _ _ _ => trivial) fun r s₁ ⟨⟨hscans, hr⟩, hscans', _⟩ => holds_ret.mpr ?_))
  have hkept : BothKept vaultPath path s s₁ :=
    ⟨hscans.keeps, hscans'.resolve_right fun h => horphan h.1⟩
  cases r with
  | error e => exact holds_ret.mpr ⟨hkept, fun opened h => by cases h⟩
  | ok v =>
    obtain ⟨hkey, hreads⟩ := hr
    rw [hkept.vault.content] at hreads
    dsimp only [Except.mapError]
    split
    · exact holds_ret.mpr ⟨hkept, fun opened h => by cases h⟩
    · rename_i e hbuild
      refine holds_ret.mpr ⟨hkept, fun opened h => ?_⟩
      obtain rfl := Except.ok.inj h
      exact ⟨hkey, hreads, settle_eq_ok.mp hbuild⟩

lemma loadSession_ends (vaultPath : PathBuf) {v : OpenVault} :
    Ends (fun r s' => BothKept vaultPath path s s' ∧
        ∀ existing, r = .ok existing → LoadedAs X Y v.vaultKey (s.content path.file) existing)
      (Cli.loadSession X Y p v path) s := by
  have hload : Does (Keeps vaultPath.file) _ (Cli.loadSession X Y p v path) s := loadSession_does
  have hload' : Does (Keeps path.file) _ (Cli.loadSession X Y p v path) s := loadSession_does
  refine (ends_of_does ((hload.since (Keeps.refl vaultPath.file) fun _ _ _ => Keeps.trans).and
    (hload'.since (Keeps.refl path.file) fun _ _ _ => Keeps.trans))).mono (fun _ _ _ => trivial) ?_
  intro r s' ⟨⟨hkeeps, hr⟩, hkeeps', _⟩
  refine ⟨⟨hkeeps, hkeeps'⟩, ?_⟩
  rintro existing rfl
  have hloaded := hr.1
  rw [hkeeps'.content] at hloaded
  exact hloaded

/-- A save that has returned has put what was sealed in the place of the session file, or has
failed and left it; and it has left the vault file. -/
lemma saveSession_ends (vaultPath : PathBuf) {v : OpenVault} {contents : SessionContents}
    (hpending : ¬s.Renamed path.file) : Ends (fun r s' =>
      (∀ key, s.1.keychain = some key → s'.1.keychain = some key) ∧
      s'.1.printed = s.1.printed ∧
      (path.file ≠ vaultPath.file → s'.content vaultPath.file = s.content vaultPath.file) ∧
      ((s'.content path.file = s.content path.file ∧ ∃ e, r = .error e) ∨
        ∃ bytes, sealSession X Y v.vaultKey.toList p.nonce contents = .ok (.ok bytes) ∧
          s'.content path.file = some ⟨bytes, true⟩))
    (saveSessionFile X Y v.vaultKey path p.pid p.nonce contents) s := by
  have hsave : Does (Saves path _ path.file) _
      (saveSessionFile X Y v.vaultKey path p.pid p.nonce contents) s :=
    saveSessionFile_does hpending fun h => absurd h (path.tmpPath_ne_file p.pid)
  have hfile := ends_of_does (hsave.since (Saves.refl path _ path.file) fun _ _ _ => Saves.trans)
  have hframe : Ends (fun _ s' => path.file ≠ vaultPath.file →
      s'.content vaultPath.file = s.content vaultPath.file)
      (saveSessionFile X Y v.vaultKey path p.pid p.nonce contents) s := by
    by_cases hsame : path.file = vaultPath.file
    · exact hfile.mono (fun _ _ _ => trivial) fun _ _ _ hne => absurd hsame hne
    · exact (saveSessionFile_frame hpending hsame).mono (fun _ _ _ => trivial) fun _ _ h _ => h
  refine (hfile.and hframe).mono (fun _ _ _ => trivial) ?_
  intro r s' ⟨⟨hsaves, hrenamed⟩, hvault⟩
  rcases hsaves with hkeeps | ⟨bytes, hseal, -, hreplaces⟩
  · refine ⟨hkeeps.keychain, hkeeps.printed, hvault, .inl ⟨hkeeps.content, ?_⟩⟩
    -- without the rename there is an error
    cases r with
    | error e => exact ⟨e, rfl⟩
    | ok u => exact absurd (hkeeps.renamed.mp (hrenamed.mpr fun e h => by cases h)) hpending
  · exact ⟨hreplaces.keychain, hreplaces.printed, hvault, .inr ⟨bytes, hseal, hreplaces.content⟩⟩

/-- Standard output holds what the scrub has made of the text. -/
lemma report_ends {output : Str} {notices : List CommandNotice} :
    Ends (fun r s' => r = .ok ⟨0, notices⟩ ∧ s'.1.disk = s.1.disk ∧
      s'.1.keychain = s.1.keychain ∧ s'.1.printed = s.1.printed ++ output)
      (Cli.report output notices) s := by
  refine Holds.andThen (fun _ => rfl) (Holds.mapError (fun _ => rfl)
    (print_ends.mono (fun _ _ _ => trivial) ?_))
  rintro _ s₁ ⟨rfl, h⟩
  exact holds_ret.mpr (holds_ret.mpr ⟨rfl, h⟩)

/-- What a scrub has done when it has returned. -/
structure Scrubs (X : Crates) (Y : FileCrates) (vaultPath path : PathBuf) (p : TextProcess)
    (r : Except (Stop CommandError) CommandResult) (s s' : Moment) : Prop where
  keychain : ∀ key, s.1.keychain = some key → s'.1.keychain = some key
  vault : path.file ≠ vaultPath.file → s'.content vaultPath.file = s.content vaultPath.file
  session : (s'.content path.file = s.content path.file ∧ ∃ e, r = .error e) ∨
    ∃ v e existing result map, Merges X Y vaultPath path p s s' v e existing result map ∧
      ∀ done, r = .ok done → s'.1.printed = s.1.printed ++ result.output

lemma BothKept.scrubs (h : BothKept vaultPath path s s') (e : Stop CommandError) :
    Scrubs X Y vaultPath path p (.error e) s s' :=
  ⟨h.vault.keychain, fun _ => h.vault.content, .inl ⟨h.session.content, e, rfl⟩⟩

theorem scrub_ends (hp : p.session = some path) (hcommand : p.command = .scrub)
    (hpending : ¬s.Renamed path.file) (horphan : ¬vaultPath.IsOrphan path.file) :
    Ends (fun r s' => Scrubs X Y vaultPath path p r s s')
      (Cli.runTextCommand X Y vaultPath p) s := by
  rw [runTextCommand_eq hp]
  refine Holds.andThen (fun _ => rfl) ((openEngine_ends horphan).mono (fun _ _ _ => trivial)
    fun r s₁ ⟨hkept, hopened⟩ => ?_)
  cases r with
  | error e => exact holds_ret.mpr (hkept.scrubs e)
  | ok opened =>
  obtain ⟨hkey, hreads, hbuild⟩ := hopened opened rfl
  refine Holds.andThen (fun _ => rfl) ((loadSession_ends vaultPath).mono (fun _ _ _ => trivial)
    fun r s₂ ⟨hkept', hload⟩ => ?_)
  have hall := hkept.trans hkept'
  cases r with
  | error e => exact holds_ret.mpr (hall.scrubs e)
  | ok existing =>
  have hloaded := hload existing rfl
  rw [hkept.session.content] at hloaded
  have hpending₂ : ¬Moment.Renamed s₂ path.file := fun h => hpending (hall.session.renamed.mp h)
  unfold Cli.afterLoad
  rw [hcommand]
  refine Holds.andThen (fun _ => rfl) ?_
  unfold Cli.scrubSession
  dsimp only
  split
  · exact holds_ret.mpr (holds_ret.mpr (hall.scrubs _))
  rename_i result map hconclude
  have hscrub : opened.2.scrubWithSession X p.ord p.input
      ((Cli.loadOrCreate existing p.nowEpoch).1.toMap (Cli.loadOrCreate existing p.nowEpoch).2
        p.nowInstant) p.nowInstant = .ok (result, map) := conclude_eq_ok.mp hconclude
  refine Holds.andThen (fun _ => rfl) (Holds.mapError (fun _ => rfl)
    ((saveSession_ends vaultPath hpending₂).mono (fun _ _ _ => trivial)
      fun r s₃ ⟨hkeychain, hprinted, hvault, hsession⟩ => holds_ret.mpr ?_))
  have hkeychain₃ : ∀ key, s.1.keychain = some key → s₃.1.keychain = some key :=
    fun key h => hkeychain key (hall.vault.keychain key h)
  have hvault₃ : path.file ≠ vaultPath.file →
      Moment.content s₃ vaultPath.file = s.content vaultPath.file :=
    fun hne => (hvault hne).trans hall.vault.content
  have hkey₃ : s₃.1.keychain = some opened.1.vaultKey :=
    hkeychain _ (hkept'.vault.keychain _ hkey)
  have hsame : ∀ key, s.1.keychain = some key → opened.1.vaultKey = key := fun key h =>
    Option.some.inj (hkey.symm.trans (hkept.vault.keychain key h))
  cases r with
  | error e =>
    refine holds_ret.mpr (holds_ret.mpr ⟨hkeychain₃, hvault₃, ?_⟩)
    rcases hsession with ⟨hcontent, -⟩ | hsaved
    · exact .inl ⟨hcontent.trans hall.session.content, _, rfl⟩
    · exact .inr ⟨opened.1, opened.2, existing, result, map,
        ⟨hreads, hsame, hkey₃, hbuild, hloaded, hscrub, hsaved⟩, fun done h => by cases h⟩
  | ok u =>
    refine holds_ret.mpr (report_ends.mono (fun _ _ _ => trivial) ?_)
    rintro _ s₄ ⟨rfl, hdisk, hkeychain₄, hprinted₄⟩
    have hcontent₄ : ∀ file, Moment.content s₄ file = Moment.content s₃ file := fun file => by
      unfold Moment.content
      rw [hdisk]
    refine ⟨fun key h => hkeychain₄.trans (hkeychain₃ key h),
      fun hne => (hcontent₄ _).trans (hvault₃ hne), .inr ?_⟩
    rcases hsession with ⟨-, e, h⟩ | ⟨bytes, hseal, hcontent⟩
    · cases h
    · refine ⟨opened.1, opened.2, existing, result, map, ⟨hreads, hsame,
        hkeychain₄.trans hkey₃, hbuild, hloaded, hscrub, bytes, hseal,
        (hcontent₄ _).trans hcontent⟩, fun done _ => ?_⟩
      rw [hprinted₄, hprinted, hall.vault.printed]

end Steps

end Invisibool
