import Invisibool.Cli.Accumulation
import Invisibool.Store.Contract
import Invisibool.Store.Readers

/-!
# Writing again after a failure

A write that fails or is stopped leaves its sibling on the disk, and the next write of the same
process cannot create it. `Vault::open` removes the siblings of the vault file, but nothing removes
those of a session file.
-/

namespace Invisibool
open Text Process FileSystem
open Format hiding Bytes

/-- What has become of a machine after writes of the path by one process, or by processes with one
number, each of them stopped anywhere. The machine may have crashed in between. -/
inductive Attempted (path : PathBuf) (pid : Nat) (m₀ : Machine) : Machine → Prop
  | start : Attempted path pid m₀ m₀
  | write {m m' : Machine} {bytes : Bytes} {q : Program (Except AtomicWriteError Unit)} :
      Attempted path pid m₀ m → (writeAtomic path pid bytes).Reaches Machine.faulty m q m' →
      Attempted path pid m₀ m'
  | crash {m : Machine} {d : Disk Str Str} : Attempted path pid m₀ m → m.disk.Crashed d →
      Attempted path pid m₀ { m with disk := d }

/-- No temporary file of the path is there, of whatever process. -/
def NoSiblings (path : PathBuf) (m : Machine) : Prop :=
  ∀ name, (path.name ++ PathBuf.tmpMark).isPrefixOf name = true →
    m.disk.content (path.dir, name) = none

/-- The file holds the bytes, and no temporary file is left. -/
structure Written (path : PathBuf) (bytes : Bytes) (m : Machine) : Prop where
  content : m.disk.content path.file = some ⟨bytes, true⟩
  siblings : NoSiblings path m

/-- The bytes are a session file that a scrub has made of an existing one, or of none. -/
def Merged (X : Crates) (Y : FileCrates) (p : TextProcess) (bytes : Bytes) : Prop :=
  ∃ (v : OpenVault) (e : Engine) (existing : Option SessionContents) (result : EngineScrubResult)
    (map : SessionMap),
    e.scrubWithSession X p.ord p.input ((Cli.loadOrCreate existing p.nowEpoch).1.toMap
      (Cli.loadOrCreate existing p.nowEpoch).2 p.nowInstant) p.nowInstant = .ok (result, map) ∧
    sealSession X Y v.vaultKey.toList p.nonce
      ((Cli.loadOrCreate existing p.nowEpoch).1.ofMap p.ord map) = .ok (.ok bytes)

/-- The error of a scrub that could not write its session file. -/
def saveFailed (e : AtomicWriteError) : Stop CommandError := .error (.session (.atomicWrite e))

/-- The scrub has come to writing its session file, if it has met no fault. -/
def ComesToSave (r : Except (Stop CommandError) CommandResult) : Prop :=
  (∃ result, r = .ok result) ∨ ∃ e, r = .error (saveFailed e)

section Steps

variable {X : Crates} {Y : FileCrates} {vaultPath path : PathBuf} {pid : Nat} {bytes : Bytes}
  {file : Str × Str} {m m₀ : Machine} {s s' : Moment} {nonce : Nonce}

/-! ### What is left behind -/

/-- The only sibling is that of the process, and its directory is there. -/
structure Leftover (path : PathBuf) (pid : Nat) (m : Machine) : Prop where
  others : ∀ name, (path.name ++ PathBuf.tmpMark).isPrefixOf name = true →
    name ≠ path.tmpName pid → m.disk.content (path.dir, name) = none
  placed : Placed (path.tmpPath pid) (m, [])

lemma sibling_ne_file {name : Str} (h : (path.name ++ PathBuf.tmpMark).isPrefixOf name = true) :
    path.file ≠ (path.dir, name) := by
  intro heq
  have hlen := (List.isPrefixOf_iff_prefix.mp h).length_le
  have hmark : PathBuf.tmpMark.length = 5 := by decide
  rw [← (Prod.mk.inj heq).2, List.length_append, hmark] at hlen
  omega

lemma Attempted.leftover (hbare : path.bare = false) (h₀ : NoSiblings path m₀)
    (h : Attempted path pid m₀ m) : Leftover path pid m := by
  induction h with
  | start =>
    refine ⟨fun name hname _ => h₀ name hname, fun hsome => ?_⟩
    have hnone := h₀ (path.tmpName pid) (isOrphan_tmpPath hbare).2.2
    have hlinks : m₀.disk.links.lookup (path.tmpPath pid) = none := Option.map_eq_none_iff.mp hnone
    rw [hlinks] at hsome
    cases hsome
  | @write m m' bytes q _ hreach ih =>
    obtain ⟨history, hreach⟩ := hreach.logged []
    refine ⟨fun name hname hne => ?_, ?_⟩
    · have hdoes : Does (Writes path bytes (path.dir, name)) _ (writeAtomic path pid bytes) (m, []) :=
        writeAtomic_does (not_renamed_start m path.file) fun h => absurd (Prod.mk.inj h).2.symm hne
      rcases hdoes.guar_of_reaches (Writes.refl path bytes _) (fun _ _ _ => Writes.trans) hreach
        with hkeeps | ⟨heq, -⟩
      · exact hkeeps.content.trans (ih.others name hname hne)
      · exact absurd heq (sibling_ne_file hname)
    · have hplaces : Does _ _ (writeAtomic path pid bytes) (m, []) := writeAtomic_places hbare
      have hkept := hplaces.guar_of_reaches (fun _ h => h)
        (fun _ _ _ h h' hp => h' (h hp)) hreach
      exact hkept ih.placed
  | crash _ hcrash ih =>
    refine ⟨fun name hname hne => hcrash.content_none (ih.others name hname hne), fun hsome => ?_⟩
    change (AList.lookup _ _).isSome = true at hsome
    rw [hcrash.links] at hsome
    exact (congrFun hcrash.dirs _).trans (ih.placed hsome)

/-! ### One write -/

/-- A write whose sibling is there already fails. -/
lemma writeAtomic_blocked (hthere : (s.content (path.tmpPath pid)).isSome) :
    Ends (fun r _ => r ≠ .ok ()) (writeAtomic path pid bytes) s := by
  refine Holds.andThen (fun _ => rfl) ((ends_of_does (ensureParent_does.since
    (Keeps.refl (path.tmpPath pid)) fun _ _ _ => Keeps.trans)).mono (fun _ _ _ => trivial)
      fun r s₁ ⟨hkeeps, _⟩ => ?_)
  cases r with
  | error e => exact holds_ret.mpr nofun
  | ok u =>
  refine Holds.andThen (fun _ => rfl) (Holds.mapError (fun _ => rfl)
    (holds_perform.mpr fun ans s₂ hstep => ⟨trivial, ?_⟩))
  obtain ⟨d, hd, rfl⟩ := sound_disk hstep
  have hlinked : (s₁.1.disk.links.lookup (path.tmpPath pid)).isSome := by
    rw [← hkeeps.content] at hthere
    unfold Moment.content Disk.content at hthere
    rwa [Option.isSome_map] at hthere
  rw [exec_createNew, if_pos hlinked] at hd
  obtain ⟨rfl, rfl⟩ := Prod.mk.inj hd
  exact holds_ret.mpr (holds_ret.mpr nofun)

/-- A write whose sibling is not there puts the bytes in the place of its target, and leaves no
sibling. -/
lemma writeAtomic_writes (hbare : path.bare = false) (hnone : s.content (path.tmpPath pid) = none)
    (hpending : ¬s.Renamed path.file) : Ends (fun r s' => r = .ok () ∧
      s'.content path.file = some ⟨bytes, true⟩ ∧ s'.content (path.tmpPath pid) = none)
      (writeAtomic path pid bytes) s := by
  have hdoes : Does (Writes path bytes path.file) _ (writeAtomic path pid bytes) s :=
    writeAtomic_does hpending fun h => absurd h (path.tmpPath_ne_file pid)
  have hends := ends_of_does (hdoes.since (Writes.refl path bytes path.file)
    fun _ _ _ => Writes.trans)
  refine (((writeAtomic_succeeds hbare hnone).and hends).and (writeAtomic_clears hnone)).mono
    (fun _ _ _ => trivial) ?_
  rintro r s' ⟨⟨rfl, hwrites, hrenamed⟩, hcleared⟩
  refine ⟨rfl, ?_, hcleared⟩
  rcases hwrites with hkeeps | ⟨-, hreplaces⟩
  · exact absurd (hkeeps.renamed.mp (hrenamed.mpr nofun)) hpending
  · exact hreplaces.content

/-! ### Saving the vault -/

lemma save_eq {v : OpenVault} (hseal : sealVault X Y v.vaultKey nonce v.contents = .ok (.ok bytes)) :
    v.save X Y path pid nonce =
      (writeAtomic path pid bytes).mapError fun e => .error (.atomicWrite e) := by
  unfold OpenVault.save
  rw [settle_eq_ok.mpr hseal]

lemma save_writes {v : OpenVault} (hbare : path.bare = false)
    (hseal : sealVault X Y v.vaultKey nonce v.contents = .ok (.ok bytes))
    (hnone : s.content (path.tmpPath pid) = none) (hpending : ¬s.Renamed path.file) :
    Ends (fun r s' => r = .ok () ∧ s'.content path.file = some ⟨bytes, true⟩ ∧
      s'.content (path.tmpPath pid) = none) (v.save X Y path pid nonce) s := by
  rw [save_eq hseal]
  refine Holds.mapError (fun _ => rfl) ((writeAtomic_writes hbare hnone hpending).mono
    (fun _ _ _ => trivial) ?_)
  rintro _ s' ⟨rfl, hwritten⟩
  exact holds_ret.mpr ⟨rfl, hwritten⟩

lemma save_blocked {v : OpenVault} (hthere : (s.content (path.tmpPath pid)).isSome) :
    Ends (fun r _ => r ≠ .ok ()) (v.save X Y path pid nonce) s := by
  unfold OpenVault.save
  split
  · exact holds_ret.mpr nofun
  · refine Holds.mapError (fun _ => rfl) ((writeAtomic_blocked hthere).mono
      (fun _ _ _ => trivial) fun r s' hr => holds_ret.mpr ?_)
    cases r with
    | error e => exact nofun
    | ok u => exact absurd rfl hr

/-! ### The scan for orphans -/

/-- Nothing that removes files makes one that is not there. -/
lemma Scans.content_none (h : Scans path file s s') (hnone : s.content file = none) :
    s'.content file = none := by
  rcases h with h | ⟨-, h⟩
  · exact h.content.trans hnone
  · exact h.content

lemma Scans.renamed (h : Scans path file s s') {other : Str × Str} (heq : other = file) :
    s'.Renamed other ↔ s.Renamed other := by
  subst heq
  rcases h with h | ⟨-, h⟩
  · exact h.renamed
  · exact h.renamed

lemma removeFile_clears : Ends (fun _ s' => s'.content file = none) (removeFile file) s := by
  refine holds_perform.mpr fun ans s' hstep => ⟨trivial, ?_⟩
  obtain ⟨d, hd, rfl⟩ := sound_disk hstep
  rw [exec_remove] at hd
  split at hd
  · obtain ⟨-, rfl⟩ := Prod.mk.inj hd
    exact content_unlink_self
  · rename_i hfree
    obtain ⟨-, rfl⟩ := Prod.mk.inj hd
    exact Option.map_eq_none_iff.mpr (Option.not_isSome_iff_eq_none.mp hfree)

/-- What is to be removed is removed, whatever is removed behind it. -/
lemma removeOrphans_clears {orphans : List (Str × Str)}
    (horphans : ∀ orphan ∈ orphans, path.IsOrphan orphan) (hmem : file ∈ orphans) :
    Ends (fun _ s' => s'.content file = none) (removeOrphans orphans) s := by
  induction orphans generalizing s with
  | nil => cases hmem
  | cons orphan orphans ih =>
    have hlater : ∀ orphan ∈ orphans, path.IsOrphan orphan :=
      fun o ho => horphans o (List.mem_cons_of_mem orphan ho)
    refine Holds.bind (fun _ => rfl) (Holds.bind (fun _ => rfl) ?_)
    rcases List.mem_cons.mp hmem with rfl | hmem
    · refine removeFile_clears.mono (fun _ _ h => h) fun _ s₁ hs₁ => holds_ret.mpr ?_
      refine (ends_of_does ((removeOrphans_does hlater).since (Scans.refl path file)
        fun _ _ _ => Scans.trans)).mono (fun _ _ h => h) fun _ s₂ ⟨hscans, _⟩ => ?_
      exact hscans.content_none hs₁
    · exact Holds.any.mono (fun _ _ h => h) fun _ s₁ _ => holds_ret.mpr (ih hlater hmem)

/-- The scan takes away an orphan whose directory is there. -/
lemma scanOrphans_clears (horphan : path.IsOrphan file) (hplaced : Placed file s) :
    Ends (fun _ s' => s'.content file = none) (scanOrphans path) s := by
  cases hfile : s.content file with
  | none =>
    exact (ends_of_does (scanOrphans_does.since (Scans.refl path file)
      fun _ _ _ => Scans.trans)).mono (fun _ _ h => h) fun _ s' ⟨hscans, _⟩ =>
        hscans.content_none hfile
  | some body =>
    have hsome : (s.content file).isSome := by
      rw [hfile]
      rfl
    have hdir : s.1.disk.dirs path.dir = true := by
      have hlinked := hsome
      unfold Moment.content Disk.content at hlinked
      rw [Option.isSome_map] at hlinked
      rw [← horphan.2.1]
      exact hplaced hlinked
    have hlists : Does (Keeps file) _ (listOrphanTmps path) s := listOrphanTmps_does
    refine Holds.bind (fun _ => rfl) (((listOrphanTmps_ends hdir horphan hsome).and
      (ends_of_does hlists)).mono (fun _ _ _ => trivial) ?_)
    rintro _ s₁ ⟨⟨orphans, rfl, hmem⟩, horphans⟩
    exact removeOrphans_clears (horphans orphans rfl) hmem

/-- What opens the vault takes such an orphan away. -/
lemma openEngine_clears {newKey : VaultKey} (horphan : vaultPath.IsOrphan file)
    (hplaced : Placed file s) :
    Ends (fun _ s' => s'.content file = none) (Cli.openEngine X Y vaultPath newKey) s := by
  have hopen : Ends (fun _ s' => s'.content file = none) (openVault X Y vaultPath newKey) s := by
    refine Holds.bind (fun _ => rfl) ((scanOrphans_clears horphan hplaced).mono
      (fun _ _ _ => trivial) fun _ s₁ hs₁ => ?_)
    refine Holds.andThen (fun _ => rfl) (Holds.mapError (fun _ => rfl)
      ((ends_of_does (fetchOrCreate_does.since (Keeps.refl file) fun _ _ _ => Keeps.trans)).mono
        (fun _ _ _ => trivial) fun r s₂ ⟨hkeeps, _⟩ => holds_ret.mpr ?_))
    have hs₂ := hkeeps.content.trans hs₁
    cases r with
    | error e => exact holds_ret.mpr hs₂
    | ok vaultKey =>
    refine Holds.andThen (fun _ => rfl) (Holds.mapError (fun _ => rfl)
      ((ends_of_does (readIfExists_keeps.since (Keeps.refl file) fun _ _ _ => Keeps.trans)).mono
        (fun _ _ _ => trivial) fun r s₃ ⟨hkeeps, _⟩ => holds_ret.mpr ?_))
    have hs₃ := hkeeps.content.trans hs₂
    cases r with
    | error e => exact holds_ret.mpr hs₃
    | ok found => cases found <;> exact holds_ret.mpr hs₃
  refine Holds.andThen (fun _ => rfl) (Holds.mapError (fun _ => rfl) (hopen.mono
    (fun _ _ _ => trivial) fun r s₁ hs₁ => holds_ret.mpr ?_))
  cases r with
  | error e => exact holds_ret.mpr hs₁
  | ok v =>
    dsimp only [Except.mapError]
    split <;> exact holds_ret.mpr hs₁

/-! ### Scrubbing with a session file -/

section Scrub

variable {p : TextProcess}

lemma decryptSessionBytes_reads {key file : Bytes} {now : UInt64} {e : SessionFileError}
    (h : decryptSessionBytes X Y key file now = .ok (.error e)) (a : AtomicWriteError) :
    e ≠ .atomicWrite a := by
  unfold decryptSessionBytes at h
  obtain ⟨opened, -, h⟩ := bind_eq_ok.mp h
  cases opened with
  | error err =>
    obtain rfl := Except.error.inj (Except.ok.inj h)
    cases err <;> exact nofun
  | ok plaintext =>
    dsimp only at h
    split at h
    · obtain rfl := Except.error.inj (Except.ok.inj h)
      exact nofun
    · split at h
      · obtain rfl := Except.error.inj (Except.ok.inj h)
        exact nofun
      · cases h

lemma sealSession_reads {key : Bytes} {contents : SessionContents} {e : SessionFileError}
    (h : sealSession X Y key nonce contents = .ok (.error e)) (a : AtomicWriteError) :
    e ≠ .atomicWrite a := by
  unfold sealSession encryptSessionBytes at h
  split at h
  · obtain rfl := Except.error.inj (Except.ok.inj h)
    exact nofun
  · obtain ⟨key', -, h⟩ := bind_eq_ok.mp h
    split at h
    · obtain rfl := Except.error.inj (Except.ok.inj h)
      exact nofun
    · cases h

/-- Loading the session file writes nothing. -/
lemma loadSession_reads {v : OpenVault} : Does (fun _ _ => True)
    (fun r _ => ∀ a, r ≠ .error (saveFailed a)) (Cli.loadSession X Y p v path) s := by
  refine Holds.mapError (fun _ => rfl) (Holds.andThen (fun _ => rfl) (Holds.mapError (fun _ => rfl)
    (Holds.any.mono (fun _ _ h => h) fun r s₁ _ => holds_ret.mpr ?_)))
  cases r with
  | error e => exact holds_ret.mpr (holds_ret.mpr nofun)
  | ok found =>
    cases found with
    | none => exact holds_ret.mpr (holds_ret.mpr nofun)
    | some bytes =>
      refine holds_ret.mpr (holds_ret.mpr ?_)
      cases hsettle : settle (decryptSessionBytes X Y v.vaultKey.toList bytes p.nowEpoch) with
      | ok contents => exact nofun
      | error stop =>
        intro a h
        cases stop with
        | panic q => cases h
        | error e =>
          obtain rfl := CommandError.session.inj (Stop.error.inj (Except.error.inj h))
          unfold settle at hsettle
          split at hsettle
          · cases hsettle
          · rename_i hdecrypt
            obtain rfl := Stop.error.inj (Except.error.inj hsettle)
            exact decryptSessionBytes_reads hdecrypt a rfl
          · cases hsettle

/-- A scrub opens the vault, loads the session file, and saves it. What is kept up to the save, and
what the save makes of it, holds when the scrub has returned. -/
lemma scrub_ends_of {P : Moment → Prop}
    {post : Except (Stop CommandError) CommandResult → Moment → Prop} (hp : p.session = some path)
    (hcommand : p.command = .scrub)
    (hopen : Ends (fun _ s' => P s') (Cli.openEngine X Y vaultPath p.newKey) s)
    (hload : ∀ v s, P s → Ends (fun _ s' => P s') (Cli.loadSession X Y p v path) s)
    (herror : ∀ e s, P s → (∀ a, e ≠ saveFailed a) → post (.error e) s)
    (hsave : ∀ (v : OpenVault) (e : Engine) existing result map s, P s →
      e.scrubWithSession X p.ord p.input ((Cli.loadOrCreate existing p.nowEpoch).1.toMap
        (Cli.loadOrCreate existing p.nowEpoch).2 p.nowInstant) p.nowInstant = .ok (result, map) →
      Ends (fun r s' => match r with
        | .error e => post (.error (e.map .session)) s'
        | .ok () => ∀ done, ∀ s'' : Moment, s''.1.disk = s'.1.disk → post (.ok done) s'')
        (saveSessionFile X Y v.vaultKey path p.pid p.nonce
          ((Cli.loadOrCreate existing p.nowEpoch).1.ofMap p.ord map)) s) :
    Ends post (Cli.runTextCommand X Y vaultPath p) s := by
  rw [runTextCommand_eq hp]
  have hopened : Does (Scans vaultPath path.file) _ (Cli.openEngine X Y vaultPath p.newKey) s :=
    openEngine_does
  refine Holds.andThen (fun _ => rfl) ((hopen.and (ends_of_does hopened)).mono
    (fun _ _ _ => trivial) fun r s₁ ⟨hs₁, hr⟩ => ?_)
  cases r with
  | error e => exact holds_ret.mpr (herror e s₁ hs₁ fun a h => hr (.atomicWrite a) h)
  | ok opened =>
  refine Holds.andThen (fun _ => rfl) (((hload opened.1 s₁ hs₁).and
    (ends_of_does loadSession_reads)).mono (fun _ _ _ => trivial) fun r s₂ ⟨hs₂, hr⟩ => ?_)
  cases r with
  | error e => exact holds_ret.mpr (herror e s₂ hs₂ fun a h => hr a (congrArg Except.error h))
  | ok existing =>
  unfold Cli.afterLoad
  rw [hcommand]
  refine Holds.andThen (fun _ => rfl) ?_
  unfold Cli.scrubSession
  dsimp only
  split
  · rename_i stop hconclude
    refine holds_ret.mpr (holds_ret.mpr (herror stop s₂ hs₂ ?_))
    obtain ⟨panic, rfl⟩ := panic_of_conclude hconclude
    exact nofun
  rename_i result map hconclude
  have hscrub : opened.2.scrubWithSession X p.ord p.input
      ((Cli.loadOrCreate existing p.nowEpoch).1.toMap (Cli.loadOrCreate existing p.nowEpoch).2
        p.nowInstant) p.nowInstant = .ok (result, map) := conclude_eq_ok.mp hconclude
  refine Holds.andThen (fun _ => rfl) (Holds.mapError (fun _ => rfl)
    ((hsave opened.1 opened.2 existing result map s₂ hs₂ hscrub).mono (fun _ _ _ => trivial)
      fun r s₃ hr => holds_ret.mpr ?_))
  cases r with
  | error e => exact holds_ret.mpr (holds_ret.mpr hr)
  | ok u =>
    refine holds_ret.mpr (report_ends.mono (fun _ _ _ => trivial) ?_)
    rintro _ s₄ ⟨rfl, hdisk, -⟩
    exact hr _ s₄ hdisk

/-- What a program that only reads the disk keeps. -/
lemma loadSession_kept {v : OpenVault} (file : Str × Str) (other : Str × Str) :
    Ends (fun _ s' => s'.content file = s.content file ∧ (s'.Renamed other ↔ s.Renamed other))
      (Cli.loadSession X Y p v path) s := by
  have hload : Does (Keeps file) _ (Cli.loadSession X Y p v path) s := loadSession_does
  have hload' : Does (Keeps other) _ (Cli.loadSession X Y p v path) s := loadSession_does
  refine (ends_of_does ((hload.since (Keeps.refl file) fun _ _ _ => Keeps.trans).and
    (hload'.since (Keeps.refl other) fun _ _ _ => Keeps.trans))).mono (fun _ _ _ => trivial) ?_
  exact fun r s' ⟨⟨hkeeps, _⟩, hkeeps', _⟩ => ⟨hkeeps.content, hkeeps'.renamed⟩

lemma openEngine_scans (file : Str × Str) {newKey : VaultKey} :
    Ends (fun _ s' => Scans vaultPath file s s') (Cli.openEngine X Y vaultPath newKey) s := by
  have hopen : Does (Scans vaultPath file) _ (Cli.openEngine X Y vaultPath newKey) s :=
    openEngine_does
  exact (ends_of_does (hopen.since (Scans.refl vaultPath file) fun _ _ _ => Scans.trans)).mono
    (fun _ _ _ => trivial) fun _ _ h => h.1

/-- Without its sibling in the way, a scrub does not fail to save. -/
lemma scrub_saves (hbare : path.bare = false) (hp : p.session = some path)
    (hcommand : p.command = .scrub) (hpending : ¬s.Renamed path.file)
    (hplaced : Placed (path.tmpPath p.pid) s)
    (hfree : s.content (path.tmpPath p.pid) = none ∨ vaultPath.IsOrphan (path.tmpPath p.pid)) :
    Ends (fun r s' => (∀ a, r ≠ .error (saveFailed a)) ∧ ∀ done, r = .ok done →
        (∃ bytes, Merged X Y p bytes ∧ s'.content path.file = some ⟨bytes, true⟩) ∧
        s'.content (path.tmpPath p.pid) = none)
      (Cli.runTextCommand X Y vaultPath p) s := by
  refine scrub_ends_of (P := fun s => s.content (path.tmpPath p.pid) = none ∧ ¬s.Renamed path.file)
    hp hcommand ?_ ?_ ?_ ?_
  · have hnone : Ends (fun _ s' => s'.content (path.tmpPath p.pid) = none)
        (Cli.openEngine X Y vaultPath p.newKey) s := by
      rcases hfree with hnone | horphan
      · exact (openEngine_scans _).mono (fun _ _ _ => trivial) fun _ _ h => h.content_none hnone
      · exact openEngine_clears horphan hplaced
    refine (hnone.and (openEngine_scans path.file)).mono (fun _ _ _ => trivial) ?_
    exact fun r s' ⟨hnone, hscans⟩ => ⟨hnone, fun h => hpending ((hscans.renamed rfl).mp h)⟩
  · rintro v s ⟨hnone, hpending⟩
    refine (loadSession_kept (path.tmpPath p.pid) path.file).mono (fun _ _ _ => trivial) ?_
    exact fun r s' ⟨hkept, hrenamed⟩ => ⟨hkept.trans hnone, fun h => hpending (hrenamed.mp h)⟩
  · rintro e s - he
    exact ⟨fun a h => he a (Except.error.inj h), nofun⟩
  · rintro v e existing result map s ⟨hnone, hpending⟩ hscrub
    unfold saveSessionFile
    split
    · rename_i stop hsettle
      refine holds_ret.mpr ⟨fun a h => ?_, nofun⟩
      cases stop with
      | panic q => cases h
      | error err =>
        obtain rfl := CommandError.session.inj (Stop.error.inj (Except.error.inj h))
        unfold settle at hsettle
        split at hsettle
        · cases hsettle
        · rename_i hseal
          obtain rfl := Stop.error.inj (Except.error.inj hsettle)
          exact sealSession_reads hseal a rfl
        · cases hsettle
    · rename_i bytes hsettle
      refine Holds.mapError (fun _ => rfl) ((writeAtomic_writes hbare hnone hpending).mono
        (fun _ _ _ => trivial) ?_)
      rintro _ s' ⟨rfl, hwritten, hcleared⟩
      refine holds_ret.mpr fun done s'' hdisk => ⟨nofun, fun _ _ => ?_⟩
      unfold Moment.content at hwritten hcleared ⊢
      rw [hdisk]
      exact ⟨⟨bytes, ⟨v, e, existing, result, map, hscrub, settle_eq_ok.mp hsettle⟩, hwritten⟩,
        hcleared⟩

/-- With its sibling in the way, a scrub does not succeed. -/
lemma scrub_blocked (hp : p.session = some path) (hcommand : p.command = .scrub)
    (hthere : (s.content (path.tmpPath p.pid)).isSome)
    (horphan : ¬vaultPath.IsOrphan (path.tmpPath p.pid)) :
    Ends (fun r _ => ∀ done, r ≠ .ok done) (Cli.runTextCommand X Y vaultPath p) s := by
  refine scrub_ends_of (P := fun s => (s.content (path.tmpPath p.pid)).isSome) hp hcommand
    ?_ ?_ (fun _ _ _ _ => nofun) ?_
  · refine (openEngine_scans (path.tmpPath p.pid)).mono (fun _ _ _ => trivial) fun r s' hscans => ?_
    rcases hscans with hkeeps | ⟨h, -⟩
    · rwa [hkeeps.content]
    · exact absurd h horphan
  · intro v s hs
    refine (loadSession_kept (path.tmpPath p.pid) path.file).mono (fun _ _ _ => trivial) ?_
    rintro r s' ⟨hkept, -⟩
    rwa [hkept]
  · intro v e existing result map s hs _
    unfold saveSessionFile
    split
    · exact holds_ret.mpr nofun
    · refine Holds.mapError (fun _ => rfl) ((writeAtomic_blocked hs).mono (fun _ _ _ => trivial)
        fun r s' hr => holds_ret.mpr ?_)
      cases r with
      | error e => exact nofun
      | ok u => exact absurd rfl hr

/-- A scrub leaves no file behind that was not there, but its session file. -/
lemma scrub_frame (hp : p.session = some path) (hcommand : p.command = .scrub)
    (hpending : ¬s.Renamed path.file) (hfile : path.file ≠ file) (hnone : s.content file = none) :
    Ends (fun _ s' => s'.content file = none) (Cli.runTextCommand X Y vaultPath p) s := by
  refine scrub_ends_of (P := fun s => s.content file = none ∧ ¬s.Renamed path.file) hp hcommand
    ?_ ?_ (fun _ _ h _ => h.1) ?_
  · refine ((openEngine_scans file).and (openEngine_scans path.file)).mono (fun _ _ _ => trivial) ?_
    exact fun r s' ⟨hscans, hscans'⟩ =>
      ⟨hscans.content_none hnone, fun h => hpending ((hscans'.renamed rfl).mp h)⟩
  · rintro v s ⟨hnone, hpending⟩
    refine (loadSession_kept file path.file).mono (fun _ _ _ => trivial) ?_
    exact fun r s' ⟨hkept, hrenamed⟩ => ⟨hkept.trans hnone, fun h => hpending (hrenamed.mp h)⟩
  · rintro v e existing result map s ⟨hnone, hpending⟩ _
    refine (saveSessionFile_frame hpending hfile).mono (fun _ _ _ => trivial) fun r s' hkept => ?_
    cases r with
    | error e => exact hkept.trans hnone
    | ok u =>
      intro done s'' hdisk
      unfold Moment.content at hkept ⊢
      rw [hdisk]
      exact hkept.trans hnone

/-! ### Retrying -/

/-- A save of the vault, without opening it again. -/
lemma save_retry_iff {v : OpenVault} (hbare : path.bare = false) (hleft : Leftover path pid m)
    (hseal : sealVault X Y v.vaultKey nonce v.contents = .ok (.ok bytes)) :
    (((v.save X Y path pid nonce).run Machine.exec m).1 = .ok () ∧
      Written path bytes ((v.save X Y path pid nonce).run Machine.exec m).2) ↔
      m.disk.content (path.tmpPath pid) = none := by
  constructor
  · rintro ⟨hok, -⟩
    by_contra hthere
    have hblocked : Ends (fun r _ => r ≠ .ok ()) (v.save X Y path pid nonce) (m, []) :=
      save_blocked (Option.isSome_iff_ne_none.mpr hthere)
    obtain ⟨_, hfails⟩ := hblocked.run
    exact hfails hok
  · intro hnone
    obtain ⟨_, hok, hcontent, hcleared⟩ := Ends.run (m := m)
      (save_writes hbare hseal hnone (not_renamed_start m path.file))
    refine ⟨hok, hcontent, fun name hname => ?_⟩
    by_cases hown : name = path.tmpName pid
    · rw [hown]
      exact hcleared
    · have hframe : Ends (fun _ s' => s'.content (path.dir, name) = m.disk.content (path.dir, name))
          (v.save X Y path pid nonce) (m, []) :=
        save_frame (not_renamed_start m path.file) (sibling_ne_file hname)
      obtain ⟨_, hkept⟩ := hframe.run
      exact hkept.trans (hleft.others name hname hown)

/-- A scrub that comes to saving its session file. -/
lemma scrub_retry_iff (hbare : path.bare = false) (hleft : Leftover path p.pid m)
    (hp : p.session = some path) (hcommand : p.command = .scrub)
    (hcomes : ComesToSave ((Cli.runTextCommand X Y vaultPath p).run Machine.exec m).1) :
    (∃ done bytes, ((Cli.runTextCommand X Y vaultPath p).run Machine.exec m).1 = .ok done ∧
      Merged X Y p bytes ∧
      Written path bytes ((Cli.runTextCommand X Y vaultPath p).run Machine.exec m).2) ↔
      m.disk.content (path.tmpPath p.pid) = none ∨ vaultPath.IsOrphan (path.tmpPath p.pid) := by
  constructor
  · rintro ⟨done, bytes, hok, -⟩
    by_contra hstuck
    obtain ⟨hthere, horphan⟩ := not_or.mp hstuck
    have hblocked : Ends (fun r _ => ∀ done, r ≠ .ok done)
        (Cli.runTextCommand X Y vaultPath p) (m, []) :=
      scrub_blocked hp hcommand (Option.isSome_iff_ne_none.mpr hthere) horphan
    obtain ⟨_, hfails⟩ := hblocked.run
    exact hfails done hok
  · intro hfree
    obtain ⟨_, hnever, hsaved⟩ := Ends.run (m := m) (scrub_saves (X := X) (Y := Y) hbare hp hcommand
      (not_renamed_start m path.file) hleft.placed hfree)
    rcases hcomes with ⟨done, hok⟩ | ⟨e, herror⟩
    · obtain ⟨⟨bytes, hmerged, hcontent⟩, hcleared⟩ := hsaved done hok
      refine ⟨done, bytes, hok, hmerged, hcontent, fun name hname => ?_⟩
      by_cases hown : name = path.tmpName p.pid
      · rw [hown]
        exact hcleared
      · have hframe : Ends (fun _ s' => s'.content (path.dir, name) = none)
            (Cli.runTextCommand X Y vaultPath p) (m, []) :=
          scrub_frame hp hcommand (not_renamed_start m path.file) (sibling_ne_file hname)
            (hleft.others name hname hown)
        obtain ⟨_, hkept⟩ := hframe.run
        exact hkept
    · exact absurd herror (hnever e)

end Scrub

end Steps

/-- After earlier writes of one process, however they have ended, a save succeeds exactly if none of
them has left its sibling; a scrub also succeeds if opening the vault takes the sibling away. -/
theorem retry_iff {X : Crates} {Y : FileCrates} {path : PathBuf} {pid : Nat} {m₀ m : Machine}
    (hbare : path.bare = false) (h₀ : NoSiblings path m₀) (h : Attempted path pid m₀ m) :
    (∀ (v : OpenVault) nonce bytes,
      sealVault X Y v.vaultKey nonce v.contents = .ok (.ok bytes) →
      ((((v.save X Y path pid nonce).run Machine.exec m).1 = .ok () ∧
        Written path bytes ((v.save X Y path pid nonce).run Machine.exec m).2) ↔
        m.disk.content (path.tmpPath pid) = none)) ∧
    ∀ vaultPath (p : TextProcess), p.command = .scrub → p.session = some path → p.pid = pid →
      ComesToSave ((Cli.runTextCommand X Y vaultPath p).run Machine.exec m).1 →
      ((∃ done bytes, ((Cli.runTextCommand X Y vaultPath p).run Machine.exec m).1 = .ok done ∧
        Merged X Y p bytes ∧
        Written path bytes ((Cli.runTextCommand X Y vaultPath p).run Machine.exec m).2) ↔
        m.disk.content (path.tmpPath pid) = none ∨ vaultPath.IsOrphan (path.tmpPath pid)) := by
  have hleft := h.leftover hbare h₀
  refine ⟨fun v nonce bytes hseal => save_retry_iff hbare hleft hseal, ?_⟩
  rintro vaultPath p hcommand hp rfl hcomes
  exact scrub_retry_iff hbare hleft hp hcommand hcomes

/-- The machine behind a write of the path that has failed at its bytes, for want of space. -/
def Machine.writeFailed (m : Machine) (path : PathBuf) (pid : Nat) : Machine :=
  { m with disk := (m.disk.create (path.tmpPath pid)).append m.disk.next [] }

lemma attempted_writeFailed {path : PathBuf} {pid : Nat} {m : Machine}
    (hparent : m.disk.hasDir path.parent = true) (hdir : m.disk.dirs path.dir = true)
    (hnone : m.disk.content (path.tmpPath pid) = none) :
    Attempted path pid m (m.writeFailed path pid) := by
  have hexists : Machine.faulty (.disk (.dirExists path.parent)) m true m :=
    .inl (Prod.ext hparent rfl)
  have hfree : ¬(m.disk.links.lookup (path.tmpPath pid)).isSome = true := by
    rw [Option.map_eq_none_iff.mp hnone]
    exact nofun
  have hcreate : Machine.faulty (.disk (.createNew (path.tmpPath pid))) m (.ok m.disk.next)
      { m with disk := m.disk.create (path.tmpPath pid) } := by
    have hexec : exec (.createNew (path.tmpPath pid)) m.disk =
        (.ok m.disk.next, m.disk.create (path.tmpPath pid)) := by
      rw [exec_createNew, if_neg hfree]
      exact if_pos hdir
    have hans := congrArg Prod.fst hexec
    have hdisk := congrArg (fun result => { m with disk := result.2 }) hexec
    exact .inl (Prod.ext hans hdisk)
  have hwrite : Machine.faulty (.disk (.write m.disk.next [73]))
      { m with disk := m.disk.create (path.tmpPath pid) }
      (.error ⟨.other, "No space left on device"⟩) (m.writeFailed path pid) :=
    .inr ⟨_, ⟨"No space left on device", 0, rfl, rfl⟩, rfl⟩
  have hreach : (writeAtomic path pid [73]).Reaches Machine.faulty m
      (.ret (.error (.atBodyWrite ⟨.other, "No space left on device"⟩))) (m.writeFailed path pid) :=
    .step hexists (.step hcreate (.step hwrite .refl))
  exact .write .start hreach

lemma keys_registered : registeredMachine.disk.links.keys = [leftoverPath.file] := by
  decide +kernel

/-- No file is there but the vault. -/
lemma noSiblings_registered {path : PathBuf}
    (hvault : (path.name ++ PathBuf.tmpMark).isPrefixOf leftoverPath.name = false) :
    NoSiblings path registeredMachine := by
  intro name hname
  refine Option.map_eq_none_iff.mpr (AList.lookup_eq_none.mpr fun hmem => ?_)
  rw [AList.mem_keys, keys_registered, List.mem_singleton] at hmem
  rw [(Prod.mk.inj hmem).2] at hname
  exact absurd (hname.symm.trans hvault) (by decide)

/-- Behind a write that has failed: the vault cannot be saved, not even when the power has failed
since; a session file cannot be saved either, unless its sibling is like those of the vault. -/
theorem retry_iff_behind :
    let files := formatlessFiles
    let m := (registeredMachine.writeFailed leftoverPath 7).powerLost
    let r := (registeredVault.save Crates.reference files leftoverPath 7
      (Vector.replicate 24 1)).run Machine.exec m
    let stuck := scrubbed Crates.reference files leftoverPath
      (besideProcess .scrub 0 formatlessPair.2) (registeredMachine.writeFailed besidePath 8)
    let freed := scrubbed Crates.reference files leftoverPath (scrubAt 0 "hello world" 8)
      (registeredMachine.writeFailed orphanPath 8)
    (∃ bytes, sealVault Crates.reference files registeredVault.vaultKey (Vector.replicate 24 1)
        registeredVault.contents = .ok (.ok bytes) ∧
        ¬(r.1 = .ok () ∧ Written leftoverPath bytes r.2)) ∧
      (¬∃ done bytes, stuck.1 = .ok done ∧ Merged Crates.reference files
        (besideProcess .scrub 0 formatlessPair.2) bytes ∧ Written besidePath bytes stuck.2) ∧
      ∃ done bytes, freed.1 = .ok done ∧ Merged Crates.reference files
        (scrubAt 0 "hello world" 8) bytes ∧ Written orphanPath bytes freed.2 := by
  intro files m r stuck freed
  have hvault : Attempted leftoverPath 7 registeredMachine m :=
    (attempted_writeFailed rfl rfl (by decide +kernel)).crash (Machine.crashed_powerLost _)
  have hbeside : Attempted besidePath 8 registeredMachine
      (registeredMachine.writeFailed besidePath 8) :=
    attempted_writeFailed rfl rfl (by decide +kernel)
  have horphan : Attempted orphanPath 8 registeredMachine
      (registeredMachine.writeFailed orphanPath 8) :=
    attempted_writeFailed rfl rfl (by decide +kernel)
  have hstuck : stuck.1 = .error (saveFailed (.atTmpCreate .alreadyExists)) := by decide +kernel
  have hfreed : freed.1 = .ok ⟨0, [.scrubbed 1]⟩ := by decide +kernel
  refine ⟨⟨_, rfl, fun h => ?_⟩, fun h => ?_, ?_⟩
  · have hfree := ((retry_iff rfl (noSiblings_registered (by decide)) hvault).1 registeredVault
      (Vector.replicate 24 1) _ rfl).mp h
    exact absurd hfree (by decide +kernel)
  · have hfree := ((retry_iff rfl (noSiblings_registered (by decide)) hbeside).2 leftoverPath
      (besideProcess .scrub 0 formatlessPair.2) rfl rfl rfl (.inr ⟨_, hstuck⟩)).mp h
    exact absurd hfree (by unfold PathBuf.IsOrphan; decide +kernel)
  · exact ((retry_iff rfl (noSiblings_registered (by decide)) horphan).2 leftoverPath
      (scrubAt 0 "hello world" 8) rfl rfl rfl (.inl ⟨_, hfreed⟩)).mpr
      (.inr (by unfold PathBuf.IsOrphan; decide))

/-- A write of the vault that has failed at its bytes, for want of space. -/
def failedMachine : Machine :=
  { emptyMachine with
    disk := (emptyMachine.disk.create (emptyVaultPath.tmpPath 7)).append 0 [] }

/-- The save behind it fails too, although nothing goes wrong any more. -/
theorem save_not_retryable : Attempted emptyVaultPath 7 emptyMachine failedMachine ∧
    ((emptyVault.save Crates.reference emptyVaultFiles emptyVaultPath 7
      (Vector.replicate 24 0)).run Machine.exec failedMachine).1 =
      .error (.error (.atomicWrite (.atTmpCreate .alreadyExists))) := by
  constructor
  · exact attempted_writeFailed (m := emptyMachine) rfl rfl rfl
  · rfl

end Invisibool
