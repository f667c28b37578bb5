import Invisibool.Store.Frame

/-!
# Processes that meet no fault

Where nothing goes wrong, a write that has returned has changed no file but its own: the sibling
that it creates is renamed away again.
-/

namespace Invisibool
open Text Process FileSystem
open Format hiding Bytes

/-- What holds when the program returns, if no call fails. -/
abbrev Ends {α : Type} (post : α → Moment → Prop) (p : Program α) (s : Moment) : Prop :=
  Holds Machine.sound.logged Eq (fun _ _ => True) post p s

variable {file : Str × Str} {path : PathBuf} {pid : Nat} {bytes : Bytes} {s s' : Moment}

lemma ends_of_does {α : Type} {guar : Moment → Moment → Prop} {post : α → Moment → Prop}
    {p : Program α} (h : Does guar post p s) : Ends post p s :=
  (h.of_world fun _ _ _ _ hstep => ⟨.inl hstep.1, hstep.2⟩).mono (fun _ _ _ => trivial)
    fun _ _ h => h

/-- The run of a process that is alone and meets no fault. -/
lemma Ends.run {α : Type} {post : α → Moment → Prop} {p : Program α} {m : Machine}
    (h : Ends post p (m, [])) :
    ∃ history, post (p.run Machine.exec m).1 ((p.run Machine.exec m).2, history) := by
  obtain ⟨history, hreach⟩ := run_reaches (W := Machine.sound) Machine.exec (fun _ _ => rfl) p m []
  exact ⟨history, holds_ret.mp (h.reaches hreach).2⟩

/-- The sibling is there, and the write goes on. -/
lemma writeAll_ends {i : Nat} (hlinked : (s.1.disk.links.lookup file).isSome) :
    Ends (fun r s' => r = .ok () ∧ (s'.1.disk.links.lookup file).isSome ∧
      s'.1.disk.dirs = s.1.disk.dirs) (writeAll i bytes) s := by
  refine holds_perform.mpr fun ans s' hstep => ⟨trivial, ?_⟩
  obtain ⟨d, hd, rfl⟩ := sound_disk hstep
  obtain ⟨rfl, rfl⟩ := Prod.mk.inj hd
  exact ⟨rfl, hlinked, rfl⟩

lemma syncAll_ends {i : Nat} (hlinked : (s.1.disk.links.lookup file).isSome) :
    Ends (fun r s' => r = .ok () ∧ (s'.1.disk.links.lookup file).isSome ∧
      s'.1.disk.dirs = s.1.disk.dirs) (syncAll i) s := by
  refine holds_perform.mpr fun ans s' hstep => ⟨trivial, ?_⟩
  obtain ⟨d, hd, rfl⟩ := sound_disk hstep
  obtain ⟨rfl, rfl⟩ := Prod.mk.inj hd
  exact ⟨rfl, hlinked, rfl⟩

lemma createNew_ends (hnone : s.content file = none) :
    Ends (fun r s' => match r with
      | .error _ => s'.content file = none
      | .ok _ => (s'.1.disk.links.lookup file).isSome) (createNew file) s := by
  refine holds_perform.mpr fun ans s' hstep => ⟨trivial, ?_⟩
  obtain ⟨d, hd, rfl⟩ := sound_disk hstep
  obtain ⟨e, rfl, rfl⟩ | ⟨-, rfl, rfl⟩ := faulty_createNew (.inl hd)
  · exact hnone
  · change ((s.1.disk.create file).links.lookup file).isSome = true
    rw [lookup_create, if_pos rfl]
    rfl

lemma rename_ends (hlinked : (s.1.disk.links.lookup (path.tmpPath pid)).isSome) :
    Ends (fun r s' => r = .ok () ∧ s'.Renamed path.file ∧ s'.content (path.tmpPath pid) = none ∧
        s'.1.disk.dirs = s.1.disk.dirs)
      (rename path.dir (path.tmpName pid) path.name) s := by
  refine holds_perform.mpr fun ans s' hstep => ⟨trivial, ?_⟩
  obtain ⟨d, hd, rfl⟩ := sound_disk hstep
  obtain ⟨i, hi⟩ := Option.isSome_iff_exists.mp hlinked
  have hlinked' : (s.1.disk.links.lookup (path.dir, path.tmpName pid)).isSome := hlinked
  rw [exec_rename, if_pos hlinked'] at hd
  obtain ⟨rfl, rfl⟩ := Prod.mk.inj hd
  refine ⟨rfl, renamed_append.mpr (.inr (decide_eq_true rfl)), ?_, rfl⟩
  change ((s.1.disk.relink path.file (path.tmpPath pid)).links.lookup (path.tmpPath pid)).map _ = none
  rw [lookup_relink hi, if_neg (path.tmpPath_ne_file pid), if_pos rfl]
  rfl

/-- The sibling of a write is there at its end only if it was at its beginning. -/
lemma writeAtomic_clears (hnone : s.content (path.tmpPath pid) = none) :
    Ends (fun _ s' => s'.content (path.tmpPath pid) = none) (writeAtomic path pid bytes) s := by
  refine Holds.andThen (fun _ => rfl) ((ends_of_does (ensureParent_does.since
    (Keeps.refl (path.tmpPath pid)) fun _ _ _ => Keeps.trans)).mono (fun _ _ _ => trivial)
      fun r s₁ ⟨hkeeps, _⟩ => ?_)
  have hnone₁ := hkeeps.content.trans hnone
  cases r with
  | error e => exact holds_ret.mpr hnone₁
  | ok u =>
  refine Holds.andThen (fun _ => rfl) (Holds.mapError (fun _ => rfl)
    ((createNew_ends hnone₁).mono (fun _ _ _ => trivial) fun r s₂ h₂ => holds_ret.mpr ?_))
  cases r with
  | error e => exact holds_ret.mpr h₂
  | ok i =>
  refine Holds.andThen (fun _ => rfl) (Holds.mapError (fun _ => rfl)
    ((writeAll_ends h₂).mono (fun _ _ _ => trivial) ?_))
  rintro _ s₃ ⟨rfl, h₃, -⟩
  refine holds_ret.mpr (Holds.andThen (fun _ => rfl) (Holds.mapError (fun _ => rfl)
    ((syncAll_ends h₃).mono (fun _ _ _ => trivial) ?_)))
  rintro _ s₄ ⟨rfl, h₄, -⟩
  refine holds_ret.mpr (Holds.andThen (fun _ => rfl) (Holds.mapError (fun _ => rfl)
    ((rename_ends h₄).mono (fun _ _ _ => trivial) ?_)))
  rintro _ s₅ ⟨rfl, hrenamed, h₅, -⟩
  refine holds_ret.mpr ((ends_of_does ((fsyncParent_does hrenamed).since
    (Keeps.refl (path.tmpPath pid)) fun _ _ _ => Keeps.trans)).mono (fun _ _ _ => trivial) ?_)
  exact fun r s₆ ⟨hkeeps, _⟩ => hkeeps.content.trans h₅

/-- The parent directory is there, and the files are as they were. -/
lemma ensureParent_ends (hbare : path.bare = false) :
    Ends (fun r s' => r = .ok () ∧ s'.1.disk.dirs path.dir = true ∧
      (∀ file, s'.content file = s.content file) ∧
      (s'.Renamed path.file ↔ s.Renamed path.file)) (ensureParent path) s := by
  have hparent : path.parent = some path.dir := by
    unfold PathBuf.parent
    rw [hbare]
    rfl
  unfold ensureParent
  rw [hparent]
  refine Holds.bind (fun _ => rfl) (holds_perform.mpr fun found s₁ hstep => ⟨trivial, ?_⟩)
  obtain ⟨d, hd, rfl⟩ := sound_disk hstep
  obtain ⟨rfl, rfl⟩ := Prod.mk.inj hd
  split
  · rename_i hthere
    exact holds_ret.mpr ⟨rfl, hthere, fun _ => rfl, renamed_of_call rfl rfl⟩
  · refine Holds.mapError (fun _ => rfl) (holds_perform.mpr fun ans s₂ hstep => ⟨trivial, ?_⟩)
    obtain ⟨d, hd, rfl⟩ := sound_disk hstep
    obtain ⟨rfl, rfl⟩ := Prod.mk.inj hd
    refine holds_ret.mpr ⟨rfl, Function.update_self _ _ _, fun _ => rfl, ?_⟩
    exact (renamed_of_call rfl rfl).trans (renamed_of_call rfl rfl)

/-- The sibling can be created if it is not there. -/
lemma createNew_succeeds (hnone : s.content (path.tmpPath pid) = none)
    (hdir : s.1.disk.dirs path.dir = true) :
    Ends (fun r s' => ∃ i, r = .ok i ∧ (s'.1.disk.links.lookup (path.tmpPath pid)).isSome ∧
      s'.1.disk.dirs = s.1.disk.dirs) (createNew (path.tmpPath pid)) s := by
  refine holds_perform.mpr fun ans s' hstep => ⟨trivial, ?_⟩
  obtain ⟨d, hd, rfl⟩ := sound_disk hstep
  have hfree : ¬(s.1.disk.links.lookup (path.tmpPath pid)).isSome := by
    rw [Option.map_eq_none_iff.mp hnone]
    exact Bool.false_ne_true
  have hthere : s.1.disk.dirs (path.tmpPath pid).1 = true := hdir
  rw [exec_createNew, if_neg hfree, if_pos hthere] at hd
  obtain ⟨rfl, rfl⟩ := Prod.mk.inj hd
  refine ⟨_, rfl, ?_, rfl⟩
  change ((s.1.disk.create (path.tmpPath pid)).links.lookup (path.tmpPath pid)).isSome = true
  rw [lookup_create, if_pos rfl]
  rfl

/-- The directory is there to be synced. -/
lemma fsyncParent_ends (hbare : path.bare = false) (hdir : s.1.disk.dirs path.dir = true) :
    Ends (fun r _ => r = .ok ())
      (((openDir path.parent).mapError AtomicWriteError.atParentFsync).andThen fun dir =>
        (syncDir dir).mapError .atParentFsync) s := by
  have hparent : path.parent = some path.dir := by
    unfold PathBuf.parent
    rw [hbare]
    rfl
  rw [hparent]
  refine Holds.andThen (fun _ => rfl) (Holds.mapError (fun _ => rfl)
    (holds_perform.mpr fun ans s₁ hstep => ⟨trivial, ?_⟩))
  obtain ⟨d, hd, rfl⟩ := sound_disk hstep
  obtain ⟨hans, rfl⟩ := Prod.mk.inj hd
  obtain rfl : ans = .ok path.dir := hans.symm.trans (if_pos hdir)
  refine holds_ret.mpr (Holds.mapError (fun _ => rfl)
    (holds_perform.mpr fun ans s₂ hstep => ⟨trivial, ?_⟩))
  obtain ⟨d, hd, rfl⟩ := sound_disk hstep
  obtain ⟨rfl, rfl⟩ := Prod.mk.inj hd
  exact holds_ret.mpr rfl

/-- A write into a directory succeeds if its sibling is not there. -/
theorem writeAtomic_succeeds (hbare : path.bare = false)
    (hnone : s.content (path.tmpPath pid) = none) :
    Ends (fun r _ => r = .ok ()) (writeAtomic path pid bytes) s := by
  refine Holds.andThen (fun _ => rfl) ((ensureParent_ends hbare).mono (fun _ _ _ => trivial) ?_)
  rintro _ s₁ ⟨rfl, hdir, hkept, -⟩
  refine Holds.andThen (fun _ => rfl) (Holds.mapError (fun _ => rfl)
    ((createNew_succeeds ((hkept _).trans hnone) hdir).mono (fun _ _ _ => trivial) ?_))
  rintro _ s₂ ⟨i, rfl, hlinked, hdirs⟩
  rw [← hdirs] at hdir
  refine holds_ret.mpr (Holds.andThen (fun _ => rfl) (Holds.mapError (fun _ => rfl)
    ((writeAll_ends hlinked).mono (fun _ _ _ => trivial) ?_)))
  rintro _ s₃ ⟨rfl, hlinked, hdirs⟩
  rw [← hdirs] at hdir
  refine holds_ret.mpr (Holds.andThen (fun _ => rfl) (Holds.mapError (fun _ => rfl)
    ((syncAll_ends hlinked).mono (fun _ _ _ => trivial) ?_)))
  rintro _ s₄ ⟨rfl, hlinked, hdirs⟩
  rw [← hdirs] at hdir
  refine holds_ret.mpr (Holds.andThen (fun _ => rfl) (Holds.mapError (fun _ => rfl)
    ((rename_ends hlinked).mono (fun _ _ _ => trivial) ?_)))
  rintro _ s₅ ⟨rfl, -, -, hdirs⟩
  rw [← hdirs] at hdir
  exact holds_ret.mpr (fsyncParent_ends hbare hdir)

/-- A write that has returned leaves every other file as it was. -/
theorem writeAtomic_frame (hpending : ¬s.Renamed path.file) (hfile : path.file ≠ file) :
    Ends (fun _ s' => s'.content file = s.content file) (writeAtomic path pid bytes) s := by
  by_cases htmp : path.tmpPath pid = file ∧ s.content file = none
  · obtain ⟨rfl, hnone⟩ := htmp
    rw [hnone]
    exact writeAtomic_clears hnone
  · have hdoes : Does (Writes path bytes file) _ (writeAtomic path pid bytes) s :=
      writeAtomic_does hpending fun heq hnone => htmp ⟨heq, hnone⟩
    refine (ends_of_does (hdoes.since (Writes.refl path bytes file) fun _ _ _ => Writes.trans)).mono
      (fun _ _ _ => trivial) fun r s' ⟨hwrites, _⟩ => ?_
    rcases hwrites with h | ⟨heq, -⟩
    · exact h.content
    · exact absurd heq hfile

variable {X : Crates} {Y : FileCrates} {nonce : Nonce}

lemma save_frame {v : OpenVault} (hpending : ¬s.Renamed path.file) (hfile : path.file ≠ file) :
    Ends (fun _ s' => s'.content file = s.content file) (v.save X Y path pid nonce) s := by
  unfold OpenVault.save
  split
  · exact holds_ret.mpr rfl
  · exact Holds.mapError (fun _ => rfl) ((writeAtomic_frame hpending hfile).mono
      (fun _ _ _ => trivial) fun r s' h => holds_ret.mpr h)

lemma saveSessionFile_frame {vaultKey : VaultKey} {contents : SessionContents}
    (hpending : ¬s.Renamed path.file) (hfile : path.file ≠ file) :
    Ends (fun _ s' => s'.content file = s.content file)
      (saveSessionFile X Y vaultKey path pid nonce contents) s := by
  unfold saveSessionFile
  split
  · exact holds_ret.mpr rfl
  · exact Holds.mapError (fun _ => rfl) ((writeAtomic_frame hpending hfile).mono
      (fun _ _ _ => trivial) fun r s' h => holds_ret.mpr h)

/-- The call is one to the disk. -/
def Call.OnDisk (call : Call) : Prop := ∃ op, call = .disk op

lemma scanOrphans_onDisk (path : PathBuf) : (scanOrphans path).Only Call.OnDisk := by
  have hperform : ∀ op, (Prog.perform (Call.disk op) : Program op.Ans).Only Call.OnDisk :=
    fun op => ⟨⟨op, rfl⟩, fun _ => trivial⟩
  have horphans : ∀ orphans, (removeOrphans orphans).Only Call.OnDisk := by
    intro orphans
    induction orphans with
    | nil => trivial
    | cons orphan orphans ih =>
      apply Prog.Only.bind
      · exact (hperform _).bind fun _ => trivial
      · exact fun _ => ih
  have hlists : (listOrphanTmps path).Only Call.OnDisk := by
    apply (hperform _).bind
    intro names
    cases names with
    | error e =>
      dsimp only
      split <;> trivial
    | ok names => trivial
  apply hlists.bind
  intro r
  cases r with
  | error e => trivial
  | ok orphans => exact horphans orphans

lemma scanOrphans_ends : Ends (fun _ s' => s'.1.keychain = s.1.keychain) (scanOrphans path) s := by
  have hscan : Holds Machine.sound.logged Eq (fun s s' => s'.1.keychain = s.1.keychain)
      (fun _ _ => True) (scanOrphans path) s := by
    refine .of_only (scanOrphans_onDisk path) ?_
    rintro _ s ans s' ⟨op, rfl⟩ hstep
    obtain ⟨d, -, rfl⟩ := sound_disk hstep
    rfl
  refine (Holds.since ?_ ?_ hscan).mono (fun _ _ _ => trivial) fun _ _ h => h.1
  · intro s₁
    rfl
  · intro s₁ s₂ s₃ h h'
    exact h'.trans h

lemma fetchOrCreate_ends {newKey : VaultKey} :
    Ends (fun r s' => r = .ok (s.1.keychain.getD newKey) ∧ s'.1.disk = s.1.disk)
      (fetchOrCreate newKey) s := by
  refine Holds.andThen (fun _ => rfl) (holds_perform.mpr fun ans s₁ ⟨hstep, _⟩ => ⟨trivial, ?_⟩)
  obtain ⟨rfl, hm⟩ := Prod.mk.inj hstep
  cases hkey : s.1.keychain with
  | some key =>
    refine holds_ret.mpr ⟨rfl, ?_⟩
    rw [← hm]
  | none =>
    refine Holds.andThen (fun _ => rfl) (holds_perform.mpr fun ans s₂ ⟨hstep, _⟩ => ⟨trivial, ?_⟩)
    obtain ⟨rfl, hm₂⟩ := Prod.mk.inj hstep
    refine holds_ret.mpr ⟨rfl, ?_⟩
    rw [← hm₂, ← hm]

lemma readIfExists_ends : Ends (fun r s' => r = .ok ((s.content path.file).map Body.bytes) ∧
    s'.1.disk = s.1.disk) (readIfExists path) s := by
  refine Holds.bind (fun _ => rfl) (holds_perform.mpr fun ans s₁ hstep => ⟨trivial, ?_⟩)
  obtain ⟨d, hd, rfl⟩ := sound_disk hstep
  rw [exec_openRead] at hd
  unfold Moment.content Disk.content
  cases hlook : s.1.disk.links.lookup path.file with
  | none =>
    rw [hlook] at hd
    obtain ⟨rfl, rfl⟩ := Prod.mk.inj hd
    exact holds_ret.mpr ⟨rfl, rfl⟩
  | some i =>
    rw [hlook] at hd
    obtain ⟨rfl, rfl⟩ := Prod.mk.inj hd
    refine Holds.andThen (fun _ => rfl) (holds_perform.mpr fun ans s₂ hstep => ⟨trivial, ?_⟩)
    obtain ⟨d, hd, rfl⟩ := sound_disk hstep
    obtain ⟨rfl, rfl⟩ := Prod.mk.inj hd
    exact holds_ret.mpr ⟨rfl, rfl⟩

/-- What `Vault::open` returns is what the vault file is under the key of the keychain, or under
the new key if there was none. -/
theorem openVault_ends {newKey : VaultKey} : Ends (fun r _ => ∀ v, r = .ok v ↔
      v.vaultKey = s.1.keychain.getD newKey ∧ ReadsAs X Y v (s.content path.file))
    (openVault X Y path newKey) s := by
  have hscan : Does (Scans path path.file) _ (scanOrphans path) s := scanOrphans_does
  refine Holds.bind (fun _ => rfl) ((scanOrphans_ends.and (ends_of_does (hscan.since
    (Scans.refl path path.file) fun _ _ _ => Scans.trans))).mono (fun _ _ _ => trivial)
      fun _ s₁ ⟨hkey, hscans, _⟩ => ?_)
  have hcontent : s₁.1.disk.content path.file = s.content path.file := hscans.keeps.content
  refine Holds.andThen (fun _ => rfl) (Holds.mapError (fun _ => rfl)
    (fetchOrCreate_ends.mono (fun _ _ _ => trivial) ?_))
  rintro _ s₂ ⟨rfl, hdisk⟩
  refine holds_ret.mpr (Holds.andThen (fun _ => rfl) (Holds.mapError (fun _ => rfl)
    (readIfExists_ends.mono (fun _ _ _ => trivial) ?_)))
  rintro _ s₃ ⟨rfl, -⟩
  have hcontent₂ : Moment.content s₂ path.file = s.content path.file := by
    unfold Moment.content
    rw [hdisk]
    exact hcontent
  rw [hcontent₂, hkey]
  have hext : ∀ (contents : VaultContents) (v : OpenVault),
      OpenVault.ofContents (s.1.keychain.getD newKey) contents = v ↔
        v.vaultKey = s.1.keychain.getD newKey ∧ v.contents = contents := by
    rintro contents v
    constructor
    · rintro rfl
      exact ⟨rfl, rfl⟩
    · rintro ⟨hv, rfl⟩
      rw [← hv]
      rfl
  refine holds_ret.mpr ?_
  cases s.content path.file with
  | none =>
    refine holds_ret.mpr fun v => ?_
    rw [Except.ok.injEq]
    exact hext _ v
  | some body =>
    refine holds_ret.mpr fun v => ?_
    constructor
    · intro h
      obtain ⟨contents, hsettle, hmade⟩ := exists_of_map_eq_ok h
      obtain ⟨hv, hcontents⟩ := (hext contents v).mp hmade
      subst hcontents
      refine ⟨hv, ?_⟩
      unfold ReadsAs
      rw [hv]
      exact settle_eq_ok.mp hsettle
    · rintro ⟨hv, hreads⟩
      unfold ReadsAs at hreads
      rw [hv] at hreads
      rw [settle_eq_ok.mpr hreads]
      exact congrArg Except.ok ((hext _ v).mpr ⟨hv, rfl⟩)

/-- Printing leaves the files and the keychain. -/
lemma print_ends {text : Str} : Ends (fun r s' => r = .ok () ∧ s'.1.disk = s.1.disk ∧
    s'.1.keychain = s.1.keychain ∧ s'.1.printed = s.1.printed ++ text) (print text) s := by
  refine holds_perform.mpr fun ans s' hstep => ⟨trivial, ?_⟩
  obtain ⟨rfl, hm⟩ := Prod.mk.inj hstep.1
  rw [← hm]
  exact ⟨rfl, rfl, rfl, rfl⟩

end Invisibool
