import Invisibool.Cli.LabelMap
import Invisibool.Format.Codec
import Invisibool.Store.Frame

/-!
# The vault file through faults and crashes

Every command is a process of its own, which may be stopped anywhere. Whatever goes wrong, the
vault file is there whole or not at all, and it holds what the commands that came as far as their
rename have made of it.
-/

namespace Invisibool
open Text Process FileSystem
open Format hiding Bytes

def CommandError.beforeRename : CommandError → Bool
  | .vault e => e.beforeRename
  | .session e => e.beforeRename
  | .io _ => true

/-- The command says that it has changed the vault, or that it failed when it had done so. -/
def saysChanged : Except (Stop CommandError) CommandResult → Bool
  | .ok result => decide (result.exitCode = 0)
  | .error e => !e.BeforeRename CommandError.beforeRename

def VaultProcess.saved (p : VaultProcess) (v : OpenVault) : OpenVault :=
  { v with toVault := p.command.effect v.toVault }

/-- From a moment where the vault file was as found, the process keeps it, or has replaced it by
what its command makes of it. -/
def Commits (X : Crates) (Y : FileCrates) (path : PathBuf) (p : VaultProcess)
    (found : Option Body) (s s' : Moment) : Prop :=
  Keeps path.file s.mute s'.mute ∨ ∃ v bytes, s'.1.keychain = some v.vaultKey ∧ ReadsAs X Y v found ∧
    p.command.Accepts v.toVault ∧
    sealVault X Y v.vaultKey p.nonce (p.saved v).contents = .ok (.ok bytes) ∧
    Replaces path.file bytes s.mute s'.mute

section Steps

variable {X : Crates} {Y : FileCrates} {path : PathBuf} {p : VaultProcess} {found : Option Body}
  {s s' s'' : Moment}

lemma Commits.trans (h : Commits X Y path p found s s') (h' : Commits X Y path p found s' s'') :
    Commits X Y path p found s s'' := by
  rcases h with h | ⟨v, b, hkey, hreads, hacc, hseal, h⟩ <;>
    rcases h' with h' | ⟨v', b', hkey', hreads', hacc', hseal', h'⟩
  · exact .inl (h.trans h')
  · exact .inr ⟨v', b', hkey', hreads', hacc', hseal', h.toQuiet.replaces h'⟩
  · exact .inr ⟨v, b, h'.keychain _ hkey, hreads, hacc, hseal, h.keeps h'⟩
  · exact .inr ⟨v', b', hkey', hreads', hacc', hseal', h.toQuiet.replaces h'⟩

lemma saveAndReport_does {v : OpenVault} {message : Str} {result : CommandResult}
    (hpending : ¬s.Renamed path.file) (hkey : s.1.keychain = some v.vaultKey)
    (hreads : ReadsAs X Y v found) (haccepts : p.command.Accepts v.toVault)
    (hexit : result.exitCode = 0) :
    Does (Commits X Y path p found) (fun r s' => s'.Renamed path.file ↔ saysChanged r = true)
      (Cli.saveAndReport X Y path p (p.saved v) message result) s := by
  have hdoes : Does (Saves path _ path.file) _ ((p.saved v).save X Y path p.pid p.nonce) s :=
    save_does hpending fun h => absurd h (path.tmpPath_ne_file p.pid)
  have hsave := hdoes.keeping (I := fun s : Moment => s.1.keychain = some v.vaultKey) hkey
    fun s s' hkey h => by rcases h with h | ⟨bytes, -, -, h⟩ <;> exact h.keychain _ hkey
  refine Holds.andThen (fun _ => rfl) (Holds.mapError (fun _ => rfl) (hsave.mono
    (fun s s' ⟨_, h, hkey'⟩ => ?_) fun r s₁ ⟨hr, _⟩ => holds_ret.mpr ?_))
  · have hsame : (p.saved v).vaultKey = v.vaultKey := VaultCommand.effect_vaultKey
    rw [hsame] at h
    rcases h with h | ⟨bytes, hseal, -, h⟩
    · exact .inl h.mute
    · exact .inr ⟨v, bytes, hkey', hreads, haccepts, hseal, h.mute⟩
  cases r with
  | error e =>
    refine holds_ret.mpr (hr.trans ?_)
    cases e <;> simp [saysChanged, Stop.map, Stop.BeforeRename, CommandError.beforeRename]
  | ok u =>
    have hrenamed := hr.mpr fun e h => by cases h
    refine Holds.bind (fun _ => rfl) (print_does.mono (fun _ _ h => .inl h) fun r s₂ hs₂ => ?_)
    exact holds_ret.mpr (iff_of_true (hs₂.renamed.mpr hrenamed) (decide_eq_true hexit))

/-- A command that has returned has renamed something to the vault file if and only if it says
so, and all that it ever does to the vault file is to commit. -/
theorem runVaultCommand_does (hpending : ¬s.Renamed path.file)
    (hfound : s.content path.file = found) :
    Does (Commits X Y path p found) (fun r s' => s'.Renamed path.file ↔ saysChanged r = true)
      (Cli.runVaultCommand X Y path p) s := by
  refine Holds.andThen (fun _ => rfl) (Holds.mapError (fun _ => rfl)
    ((openVault_does.since (Scans.refl path path.file) fun _ _ _ => Scans.trans).mono
      (fun s s' h => .inl h.keeps.mute) fun r s₁ ⟨hscans, hv⟩ => holds_ret.mpr ?_))
  have hkeeps := hscans.keeps
  have hpending₁ : ¬s₁.Renamed path.file := fun h => hpending (hkeeps.renamed.mp h)
  cases r with
  | error e =>
    refine holds_ret.mpr (iff_of_false hpending₁ ?_)
    cases e with
    | error e =>
      have he : e.beforeRename = true := hv
      simp [saysChanged, Stop.map, Stop.BeforeRename, CommandError.beforeRename, he]
    | panic p => simp [saysChanged, Stop.map, Stop.BeforeRename]
  | ok v =>
    obtain ⟨hkey, hreads⟩ := hv
    rw [hkeeps.content, hfound] at hreads
    cases hcommand : p.command with
    | register label value tweak =>
      change Does _ _ (Cli.registerIn X Y path p label value tweak v) s₁
      unfold Cli.registerIn
      by_cases hmem : label ∈ v.labels
      · rw [Cli.register_of_mem hmem]
        exact holds_ret.mpr (iff_of_false hpending₁ fun h => by cases h)
      · have hreg := Cli.register_of_not_mem hmem value tweak
        have hsaved : p.saved v =
            { v with toVault := (Cli.register v.toVault label value tweak).vault } := by
          rw [VaultProcess.saved, hcommand]
          rfl
        dsimp only
        rw [hreg.2, if_neg (by decide), ← hsaved]
        exact saveAndReport_does hpending₁ hkey hreads (by rw [hcommand]; exact hmem) rfl
    | forget label =>
      change Does _ _ (Cli.forgetIn X Y path p label v) s₁
      unfold Cli.forgetIn
      by_cases hmem : label ∈ v.labels
      · have hsaved : p.saved v = { v with toVault := (v.toVault.forget label).1 } := by
          rw [VaultProcess.saved, hcommand]
          rfl
        dsimp only
        rw [if_neg (fun h => forget_eq_false.mp h hmem), ← hsaved]
        exact saveAndReport_does hpending₁ hkey hreads (by rw [hcommand]; exact hmem) rfl
      · dsimp only
        rw [if_pos (forget_eq_false.mpr hmem)]
        exact holds_ret.mpr (iff_of_false hpending₁ fun h => by cases h)

end Steps

/-- A process, and the calls that it had answered before it returned or was stopped. -/
structure Executed where
  process : VaultProcess
  history : List (Event Call Call.Ans)

/-- The commands have run one after the other, each of them to its end or to the point where it
was stopped, and between them the machine may have crashed. -/
inductive Ran (X : Crates) (Y : FileCrates) (path : PathBuf) (m : Machine) :
    List Executed → Machine → Prop
  | start : Ran X Y path m [] m
  | command {runs m' p q m'' history} : Ran X Y path m runs m' →
      (Cli.runVaultCommand X Y path p).Reaches Machine.faulty.logged (m', []) q (m'', history) →
      Ran X Y path m (runs ++ [⟨p, history⟩]) m''
  | crash {runs m' d} : Ran X Y path m runs m' → m'.disk.Crashed d →
      Ran X Y path m runs { m' with disk := d }

/-- The commands that came as far as their rename. -/
def committed (path : PathBuf) (runs : List Executed) : List VaultCommand :=
  (runs.filter fun run => renames path.file run.history).map fun run => run.process.command

def VaultCommand.applyAll (f : LabelMap) (cs : List VaultCommand) : LabelMap :=
  cs.foldl (fun f c => c.apply f) f

def entriesOf : Option VaultContents → List VaultEntry
  | none => []
  | some contents => contents.entries

/-- The vault file is absent, or else it has been synced and decrypts under the key that the
keychain has. -/
inductive Machine.HasVault (X : Crates) (Y : FileCrates) (path : PathBuf) (m : Machine) :
    Option VaultContents → Prop
  | absent : m.disk.content path.file = none → HasVault X Y path m none
  | sealed {bytes vaultKey contents} : m.disk.content path.file = some ⟨bytes, true⟩ →
      m.keychain = some vaultKey → decryptVault X Y vaultKey bytes = .ok (.ok contents) →
      HasVault X Y path m (some contents)

/-- The vault of the machine is this map. -/
def Machine.Represents (X : Crates) (Y : FileCrates) (path : PathBuf) (m : Machine) (f : LabelMap) :
    Prop :=
  ∃ contents, m.HasVault X Y path contents ∧
    ((entriesOf contents).map VaultEntry.label).Nodup ∧ labelMap (entriesOf contents) = f

section Runs

variable {X : Crates} {Y : FileCrates} {path : PathBuf} {m m' : Machine} {f : LabelMap}
  {p : VaultProcess} {runs : List Executed} {history : List (Event Call Call.Ans)}

lemma Machine.Represents.crash (h : m.Represents X Y path f) {d : Disk Str Str}
    (hd : m.disk.Crashed d) : Machine.Represents X Y path { m with disk := d } f := by
  obtain ⟨contents, hvault, hnodup, hmap⟩ := h
  refine ⟨contents, ?_, hnodup, hmap⟩
  cases hvault with
  | absent hnone => exact .absent (hd.content_none hnone)
  | sealed hcontent hkey hopen => exact .sealed (hd.content hcontent rfl) hkey hopen

/-- What `Vault::open` makes of the file is what the file holds. -/
lemma ReadsAs.entries {v : OpenVault} {contents : Option VaultContents}
    (h : ReadsAs X Y v (m.disk.content path.file)) (hvault : m.HasVault X Y path contents)
    (hkey : m'.keychain = some v.vaultKey)
    (hkeeps : ∀ key, m.keychain = some key → m'.keychain = some key) :
    v.entries = entriesOf contents := by
  cases hvault with
  | absent hnone =>
    rw [hnone] at h
    exact congrArg VaultContents.entries h
  | @sealed bytes vaultKey contents hcontent hkey' hopen =>
    rw [hcontent] at h
    obtain rfl := Option.some.inj (hkey.symm.trans (hkeeps vaultKey hkey'))
    have heq := Except.ok.inj (Except.ok.inj (h.symm.trans hopen))
    exact congrArg VaultContents.entries heq

theorem Commits.represents (hserde : Y.SerdeLawful) (hA : Y.aead.Undone)
    (hm : m.Represents X Y path f)
    (h : Commits X Y path p (m.disk.content path.file) (m, []) (m', history)) :
    m'.Represents X Y path (if renames path.file history then p.command.apply f else f) := by
  obtain ⟨contents, hvault, hnodup, rfl⟩ := hm
  rcases h with h | ⟨v, bytes, hkey, hreads, haccepts, hseal, h⟩
  · have hpending : ¬renames path.file history = true := fun hr => by
      have := h.renamed.mp hr
      cases this
    rw [if_neg hpending]
    refine ⟨contents, ?_, hnodup, rfl⟩
    have hcontent : m'.disk.content path.file = m.disk.content path.file := h.content
    cases hvault with
    | absent hnone => exact .absent (hcontent.trans hnone)
    | sealed hbody hkey hopen => exact .sealed (hcontent.trans hbody) (h.keychain _ hkey) hopen
  · have hrenamed : renames path.file history = true := h.renamed
    rw [if_pos hrenamed]
    have hentries := hreads.entries hvault hkey h.keychain
    refine ⟨some (p.saved v).contents, ?_, ?_, ?_⟩
    · exact .sealed h.content hkey (decryptVault_of_undone hserde hA hseal)
    · have hv : v.labels.Nodup := by
        unfold Vault.labels
        rw [hentries]
        exact hnodup
      exact VaultCommand.nodup_effect hv
    · rw [← hentries]
      exact VaultCommand.labelMap_effect haccepts

/-- A command that has come to its rename is none that the vault before it refuses. -/
lemma Commits.acceptedBy (hm : m.Represents X Y path f)
    (h : Commits X Y path p (m.disk.content path.file) (m, []) (m', history))
    (hrenamed : renames path.file history = true) : p.command.AcceptedBy f := by
  obtain ⟨contents, hvault, -, rfl⟩ := hm
  rcases h with h | ⟨v, bytes, hkey, hreads, haccepts, -, h⟩
  · have hpending := h.renamed.mp hrenamed
    cases hpending
  · rw [← hreads.entries hvault hkey h.keychain]
    exact VaultCommand.acceptedBy_labelMap.mpr haccepts

lemma Machine.Represents.unique {f' : LabelMap} (h : m.Represents X Y path f)
    (h' : m.Represents X Y path f') : f = f' := by
  obtain ⟨contents, hvault, -, rfl⟩ := h
  obtain ⟨contents', hvault', -, rfl⟩ := h'
  cases hvault with
  | absent hnone =>
    cases hvault' with
    | absent => rfl
    | sealed hcontent => exact absurd (hnone.symm.trans hcontent) (by simp)
  | sealed hcontent hkey hopen =>
    cases hvault' with
    | absent hnone => exact absurd (hnone.symm.trans hcontent) (by simp)
    | sealed hcontent' hkey' hopen' =>
      obtain ⟨rfl⟩ := Option.some.inj (hcontent.symm.trans hcontent')
      obtain rfl := Option.some.inj (hkey.symm.trans hkey')
      obtain rfl := Except.ok.inj (Except.ok.inj (hopen.symm.trans hopen'))
      rfl

/-- Wherever a command is stopped, it has either committed or kept the vault file. -/
lemma commits_of_reaches {q : Program (Except (Stop CommandError) CommandResult)}
    (hreach : (Cli.runVaultCommand X Y path p).Reaches Machine.faulty.logged (m, [])
      q (m', history)) :
    Commits X Y path p (m.disk.content path.file) (m, []) (m', history) ∧
      ∀ r, q = .ret r → (renames path.file history = true ↔ saysChanged r = true) := by
  have hdoes : Does (Commits X Y path p (m.disk.content path.file)) _
      (Cli.runVaultCommand X Y path p) (m, []) := runVaultCommand_does (fun h => by cases h) rfl
  obtain ⟨hsteps, hrest⟩ := hdoes.reaches hreach
  constructor
  · generalize (m', history) = s at hsteps
    induction hsteps with
    | refl => exact .inl (.refl _ _)
    | tail _ hstep ih => exact ih.trans hstep
  · intro r hr
    subst hr
    have hsays := holds_ret.mp hrest
    exact hsays

lemma committed_append (run : Executed) :
    committed path (runs ++ [run]) = committed path runs ++
      if renames path.file run.history then [run.process.command] else [] := by
  unfold committed
  rw [List.filter_append, List.map_append, List.filter_singleton]
  cases renames path.file run.history <;> rfl

lemma applyAll_committed (run : Executed) :
    VaultCommand.applyAll f (committed path (runs ++ [run])) =
      if renames path.file run.history then
        run.process.command.apply (VaultCommand.applyAll f (committed path runs))
      else VaultCommand.applyAll f (committed path runs) := by
  rw [committed_append, VaultCommand.applyAll, List.foldl_append]
  cases renames path.file run.history <;> rfl

/-- A command that nothing stops has come to its rename if that is what it says. -/
lemma Ran.finish (hran : Ran X Y path m runs m') (p : VaultProcess) {b : Bool}
    (hr : saysChanged ((Cli.runVaultCommand X Y path p).run Machine.exec m').1 = b) :
    ∃ runs', Ran X Y path m runs' ((Cli.runVaultCommand X Y path p).run Machine.exec m').2 ∧
      committed path runs' = committed path runs ++ if b then [p.command] else [] := by
  obtain ⟨history, hreach⟩ := run_reaches (W := Machine.faulty) Machine.exec
    (fun _ _ => .inl rfl) (Cli.runVaultCommand X Y path p) m' []
  refine ⟨_, .command hran hreach, ?_⟩
  have hrenames := (commits_of_reaches hreach).2 _ rfl
  rw [hr, Bool.coe_iff_coe] at hrenames
  rw [committed_append, hrenames]

/-- The vault refines the map in every run of the commands. -/
lemma Ran.represents (hran : Ran X Y path m runs m') (hserde : Y.SerdeLawful)
    (hA : Y.aead.Undone) (hm : m.Represents X Y path f) :
    m'.Represents X Y path (VaultCommand.applyAll f (committed path runs)) := by
  induction hran with
  | start => exact hm
  | command _ hreach ih =>
    rw [applyAll_committed]
    exact (commits_of_reaches hreach).1.represents hserde hA ih
  | crash _ hd ih => exact ih.crash hd

/-- What becomes of a vault that is a map when the commands begin. -/
structure Durable (X : Crates) (Y : FileCrates) (path : PathBuf) (m : Machine) (f : LabelMap) :
    Prop where
  /-- At every moment the vault is what the commands that came to their rename have made of it. -/
  represents : ∀ runs m', Ran X Y path m runs m' →
    m'.Represents X Y path (VaultCommand.applyAll f (committed path runs))
  /-- What a command says when it returns is whether it has come to its rename. -/
  reports : ∀ runs m' p r m'' history, Ran X Y path m runs m' →
    (Cli.runVaultCommand X Y path p).Reaches Machine.faulty.logged (m', []) (.ret r)
      (m'', history) → (renames path.file history = true ↔ saysChanged r = true)
  /-- A command that has not come to its rename leaves the file byte for byte. -/
  unchanged : ∀ runs m' p q m'' history, Ran X Y path m runs m' →
    (Cli.runVaultCommand X Y path p).Reaches Machine.faulty.logged (m', []) q (m'', history) →
    renames path.file history = false →
      m''.disk.content path.file = m'.disk.content path.file
  /-- No command changes the entry of another label. -/
  others : ∀ runs m' p q m'' history f' f'', Ran X Y path m runs m' →
    (Cli.runVaultCommand X Y path p).Reaches Machine.faulty.logged (m', []) q (m'', history) →
    m'.Represents X Y path f' → m''.Represents X Y path f'' →
      ∀ label, label ≠ p.command.label → f'' label = f' label

/-- Assumed of the crates is only that decryption undoes encryption, and `from_slice` `to_vec`. -/
theorem vault_durable (hserde : Y.SerdeLawful) (hA : Y.aead.Undone)
    (hm : m.Represents X Y path f) : Durable X Y path m f where
  represents runs m' hran := hran.represents hserde hA hm
  reports runs m' p r m'' history _ hreach := (commits_of_reaches hreach).2 r rfl
  unchanged runs m' p q m'' history _ hreach hpending := by
    rcases (commits_of_reaches hreach).1 with h | ⟨v, bytes, -, -, -, -, h⟩
    · exact h.content
    · exact absurd (hpending.symm.trans h.renamed) (by simp)
  others runs m' p q m'' history f' f'' _ hreach hm' hm'' label hlabel := by
    have hm₁ := (commits_of_reaches hreach).1.represents hserde hA hm'
    rw [hm''.unique hm₁]
    split
    · exact VaultCommand.apply_of_ne hlabel
    · rfl

/-- A machine with no key yet, where an earlier process has left a part of a temporary file. -/
def leftoverMachine : Machine :=
  ⟨((Disk.empty fun _ => true).create ("home".toList, "vault.tmp.7".toList)).append 0 [73, 78],
    none, []⟩

def leftoverPath : PathBuf := ⟨"home".toList, false, "vault".toList⟩

namespace Cli

def sampleEntries : List VaultEntry :=
  [entryFor "a".toList "AAAA".toList (Vector.replicate 16 0),
    entryFor "b".toList "pin".toList (Vector.replicate 16 0)]

/-- The crates, with a short text for each of the two vaults that are saved. -/
def sampleFiles : FileCrates :=
  .ofTables .padding [(⟨1, sampleEntries.take 1⟩, utf8 "a".toList),
    (⟨1, sampleEntries⟩, utf8 "ab".toList)] []

def sampleProcess (label value : String) (pid : Nat) : VaultProcess :=
  ⟨.register label.toList value.toList (Vector.replicate 16 0), pid, Vector.replicate 32 1,
    Vector.replicate 24 1⟩

def afterSample (p : VaultProcess) (m : Machine) : Machine :=
  ((runVaultCommand Crates.reference sampleFiles leftoverPath p).run Machine.exec m).2

end Cli

/-- What a loss of power leaves when nothing of the files that have not been synced is left. -/
def Machine.powerLost (m : Machine) : Machine :=
  { m with disk := { m.disk with
      data := fun i => if (m.disk.data i).synced then m.disk.data i else ⟨[], false⟩ } }

lemma Machine.crashed_powerLost (m : Machine) : m.disk.Crashed m.powerLost.disk :=
  ⟨rfl, rfl, rfl, fun _ h => if_pos h⟩

/-- The power fails and a label is registered, a second time in vain; a `forget` is stopped before
its first call, the power fails again and another label is registered. -/
theorem vault_durable_leftover : ∃ runs m',
    Ran Crates.reference Cli.sampleFiles leftoverPath leftoverMachine runs m' ∧
      committed leftoverPath runs = [(Cli.sampleProcess "a" "AAAA" 7).command,
        (Cli.sampleProcess "b" "pin" 8).command] ∧
      m'.Represents Crates.reference Cli.sampleFiles leftoverPath
        (VaultCommand.applyAll (fun _ => none) (committed leftoverPath runs)) := by
  have hdurable : Durable Crates.reference Cli.sampleFiles leftoverPath leftoverMachine
      fun _ => none :=
    vault_durable (FileCrates.ofTables_serdeLawful (by decide) (by simp)) Aead.padding_undone
      ⟨none, .absent (by decide), List.nodup_nil, rfl⟩
  have hlost : Ran Crates.reference Cli.sampleFiles leftoverPath leftoverMachine []
      leftoverMachine.powerLost := .crash .start leftoverMachine.crashed_powerLost
  obtain ⟨runs₁, hran₁, h₁⟩ := hlost.finish (Cli.sampleProcess "a" "AAAA" 7) (b := true) rfl
  obtain ⟨runs₂, hran₂, h₂⟩ := hran₁.finish (Cli.sampleProcess "a" "BBBB" 7) (b := false) rfl
  have hstopped := (hran₂.command (p := ⟨.forget "a".toList, 9, default, default⟩) .refl).crash
    (Machine.crashed_powerLost _)
  obtain ⟨runs₃, hran₃, h₃⟩ := hstopped.finish (Cli.sampleProcess "b" "pin" 8) (b := true) rfl
  refine ⟨runs₃, _, hran₃, ?_, hdurable.represents runs₃ _ hran₃⟩
  rw [h₃, committed_append, h₂, h₁]
  rfl

end Runs

end Invisibool
