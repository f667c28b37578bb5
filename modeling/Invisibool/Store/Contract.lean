import Invisibool.Store.Faultless

/-!
# The contract of a replacing write

What the documentation of `write_atomic` promises, for all forms of a path. The parent of a bare
file name is the empty path, which cannot be opened: such a write replaces its target and then says
that the directory could not be synced, and the siblings of such a path are never found.
-/

namespace Invisibool
open Text Process FileSystem
open Format hiding Bytes

/-- Opening the directory of the target, or syncing it, has been answered with an error. -/
def SyncFailed (path : PathBuf) (history : List (Event Call Call.Ans)) : Prop :=
  ∃ e : IoError, (⟨.disk (.openDir (some path.dir)), .error e⟩ : Event Call Call.Ans) ∈ history ∨
    (⟨.disk (.syncDir path.dir), .error e⟩ : Event Call Call.Ans) ∈ history

/-- The run of a write, which may meet faults, has come to this result. -/
def WriteReturns (path : PathBuf) (pid : Nat) (bytes : Bytes) (m : Machine)
    (r : Except AtomicWriteError Unit) (s : Moment) : Prop :=
  (writeAtomic path pid bytes).Reaches Machine.faulty.logged (m, []) (.ret r) s

/-- The contract: a write that meets no fault succeeds and replaces the target; an error says which
step has failed, and leaves the target if that comes before the rename; and what an error leaves
behind is found as an orphan. -/
structure HonoursContract (path : PathBuf) (pid : Nat) (bytes : Bytes) (m : Machine) : Prop where
  succeeds : ((writeAtomic path pid bytes).run Machine.exec m).1 = .ok () ∧
    ((writeAtomic path pid bytes).run Machine.exec m).2.disk.content path.file = some ⟨bytes, true⟩
  untouched : ∀ e s, WriteReturns path pid bytes m (.error e) s → e.beforeRename = true →
    s.content path.file = m.disk.content path.file
  synced : ∀ e s, WriteReturns path pid bytes m (.error (.atParentFsync e)) s → SyncFailed path s.2
  found : ∀ e s, WriteReturns path pid bytes m (.error e) s →
    (s.content (path.tmpPath pid)).isSome → ∃ orphans,
      ((listOrphanTmps path).run Machine.exec s.1).1 = .ok orphans ∧ path.tmpPath pid ∈ orphans

variable {path : PathBuf} {pid : Nat} {bytes : Bytes} {m : Machine} {s s' : Moment}

/-- If the file is there, its directory is. -/
def Placed (file : Str × Str) (s : Moment) : Prop :=
  (s.1.disk.links.lookup file).isSome → s.1.disk.dirs file.1 = true

lemma placed_of_eq {file : Str × Str} (hlinks : s'.1.disk.links = s.1.disk.links)
    (hdirs : ∀ dir, s.1.disk.dirs dir = true → s'.1.disk.dirs dir = true) (h : Placed file s) :
    Placed file s' := by
  intro hsome
  rw [hlinks] at hsome
  exact hdirs _ (h hsome)

/-- A call that creates no file keeps the sibling in its place. -/
lemma idle_places {file : Str × Str} {op : Op Str Str}
    (hop : ∀ d ans d', FileSystem.faulty op d ans d' → d'.links = d.links ∧
      ∀ dir, d.dirs dir = true → d'.dirs dir = true) :
    Does (fun s s' => Placed file s → Placed file s') (fun _ _ => True)
      (.perform (Call.disk op)) s := by
  refine holds_perform.mpr fun ans s' hstep => ⟨?_, trivial⟩
  obtain ⟨d, hd, rfl⟩ := exists_disk hstep
  obtain ⟨hlinks, hdirs⟩ := hop _ _ _ hd
  exact placed_of_eq hlinks hdirs

lemma ensureParent_places {file : Str × Str} :
    Does (fun s s' => Placed file s → Placed file s')
      (fun r _ => ∀ e, r ≠ .error (.atParentFsync e)) (ensureParent path) s := by
  refine Holds.bind (fun _ => rfl) ((idle_places fun d ans d' h => ?_).mono (fun _ _ h => h)
    fun found s₁ _ => ?_)
  · obtain rfl := faulty_dirExists h
    exact ⟨rfl, fun _ h => h⟩
  split
  · exact holds_ret.mpr nofun
  · refine Holds.mapError (fun _ => rfl) ((idle_places fun d ans d' h => ?_).mono
      (fun _ _ h => h) fun r s₂ _ => holds_ret.mpr ?_)
    · refine ⟨(faulty_createDirAll h).1, fun dir hdir => ?_⟩
      obtain h | ⟨message, -, rfl⟩ := h
      · obtain rfl := (Prod.mk.inj h).2
        cases path.parent with
        | none => exact hdir
        | some parent =>
          change Function.update d.dirs parent true dir = true
          by_cases heq : dir = parent
          · rw [heq, Function.update_self]
          · rw [Function.update_of_ne heq]
            exact hdir
      · exact hdir
    · cases r <;> exact nofun

lemma createNew_places (file : Str × Str) :
    Does (fun s s' => Placed file s → Placed file s') (fun _ _ => True) (createNew file) s := by
  refine holds_perform.mpr fun ans s' hstep => ⟨?_, trivial⟩
  obtain ⟨d, hd, rfl⟩ := exists_disk hstep
  obtain hd | ⟨message, -, rfl⟩ := hd
  · rw [exec_createNew] at hd
    split at hd
    · obtain ⟨-, rfl⟩ := Prod.mk.inj hd
      exact fun h => h
    split at hd
    · rename_i hdir
      obtain ⟨-, rfl⟩ := Prod.mk.inj hd
      exact fun _ _ => hdir
    · obtain ⟨-, rfl⟩ := Prod.mk.inj hd
      exact fun h => h
  · exact fun h => h

lemma writeAll_places {file : Str × Str} {i : Nat} :
    Does (fun s s' => Placed file s → Placed file s') (fun _ _ => True) (writeAll i bytes) s := by
  refine idle_places fun d ans d' h => ?_
  obtain ⟨-, rfl⟩ | ⟨e, n, -, rfl⟩ := faulty_write h
  · exact ⟨rfl, fun _ h => h⟩
  · exact ⟨rfl, fun _ h => h⟩

lemma syncAll_places {file : Str × Str} {i : Nat} :
    Does (fun s s' => Placed file s → Placed file s') (fun _ _ => True) (syncAll i) s := by
  refine idle_places fun d ans d' h => ?_
  obtain ⟨-, rfl⟩ | ⟨e, -, rfl⟩ := faulty_sync h
  · exact ⟨rfl, fun _ h => h⟩
  · exact ⟨rfl, fun _ h => h⟩

lemma rename_places : Does (fun s s' => Placed (path.tmpPath pid) s → Placed (path.tmpPath pid) s')
    (fun _ _ => True) (rename path.dir (path.tmpName pid) path.name) s := by
  refine holds_perform.mpr fun ans s' hstep => ⟨?_, trivial⟩
  obtain ⟨d, hd, rfl⟩ := exists_disk hstep
  obtain ⟨e, -, rfl⟩ | ⟨-, hsome, rfl⟩ := faulty_rename hd
  · exact fun h => h
  · exact fun h _ => h hsome

/-- The last steps fail only at the directory of the target. -/
lemma fsyncParent_places (hbare : path.bare = false) {file : Str × Str} :
    Does (fun s s' => Placed file s → Placed file s')
      (fun r s' => ∀ e, r = .error (.atParentFsync e) → SyncFailed path s'.2)
      (((openDir path.parent).mapError AtomicWriteError.atParentFsync).andThen fun dir =>
        (syncDir dir).mapError .atParentFsync) s := by
  have hparent : path.parent = some path.dir := by
    unfold PathBuf.parent
    rw [hbare]
    rfl
  rw [hparent]
  refine Holds.andThen (fun _ => rfl) (Holds.mapError (fun _ => rfl)
    (holds_perform.mpr fun ans s₁ hstep => ?_))
  obtain ⟨d, hd, rfl⟩ := exists_disk hstep
  obtain rfl := faulty_openDir hd
  refine ⟨fun h => h, ?_⟩
  cases ans with
  | error e =>
    exact holds_ret.mpr (holds_ret.mpr fun _ _ => ⟨e, .inl (List.mem_append_right _ List.mem_cons_self)⟩)
  | ok dir =>
    have hdir : dir = path.dir := by
      obtain hd | ⟨message, h, -⟩ := hd
      · have hans : (if s.1.disk.dirs path.dir then (.ok path.dir : Except IoError Str)
            else .error .notFound) = .ok dir := (Prod.mk.inj hd).1
        split_ifs at hans
        exact (Except.ok.inj hans).symm
      · cases h
    subst hdir
    refine holds_ret.mpr (Holds.mapError (fun _ => rfl) (holds_perform.mpr fun ans s₂ hstep => ?_))
    obtain ⟨d, hd, rfl⟩ := exists_disk hstep
    obtain rfl := faulty_syncDir hd
    refine ⟨fun h => h, ?_⟩
    cases ans with
    | error e =>
      exact holds_ret.mpr fun _ _ => ⟨e, .inr (List.mem_append_right _ List.mem_cons_self)⟩
    | ok u => exact holds_ret.mpr nofun

/-- Wherever a write has got to, its sibling is in a directory that is there, and it complains of
the directory only if that could not be synced. -/
lemma writeAtomic_places (hbare : path.bare = false) :
    Does (fun s s' => Placed (path.tmpPath pid) s → Placed (path.tmpPath pid) s')
      (fun r s' => ∀ e, r = .error (.atParentFsync e) → SyncFailed path s'.2)
      (writeAtomic path pid bytes) s := by
  refine Holds.andThen (fun _ => rfl) (ensureParent_places.mono (fun _ _ h => h)
    fun r s₁ hr => ?_)
  cases r with
  | error e => exact holds_ret.mpr fun e' h => absurd h (hr e')
  | ok u =>
  refine Holds.andThen (fun _ => rfl) (Holds.mapError (fun _ => rfl)
    ((createNew_places _).mono (fun _ _ h => h) fun r s₂ _ => holds_ret.mpr ?_))
  cases r with
  | error e => exact holds_ret.mpr nofun
  | ok i =>
  refine Holds.andThen (fun _ => rfl) (Holds.mapError (fun _ => rfl)
    (writeAll_places.mono (fun _ _ h => h) fun r s₃ _ => holds_ret.mpr ?_))
  cases r with
  | error e => exact holds_ret.mpr nofun
  | ok u =>
  refine Holds.andThen (fun _ => rfl) (Holds.mapError (fun _ => rfl)
    (syncAll_places.mono (fun _ _ h => h) fun r s₄ _ => holds_ret.mpr ?_))
  cases r with
  | error e => exact holds_ret.mpr nofun
  | ok u =>
  refine Holds.andThen (fun _ => rfl) (Holds.mapError (fun _ => rfl)
    (rename_places.mono (fun _ _ h => h) fun r s₅ _ => holds_ret.mpr ?_))
  cases r with
  | error e => exact holds_ret.mpr nofun
  | ok u => exact fsyncParent_places hbare

/-- A write to a bare file name never says that it has succeeded. -/
lemma writeAtomic_bare (hbare : path.bare = true) :
    Ends (fun r _ => r ≠ .ok ()) (writeAtomic path pid bytes) s := by
  have hparent : path.parent = none := by
    unfold PathBuf.parent
    rw [hbare]
    rfl
  have hgoesOn : ∀ {α : Type} {p : Program (Except AtomicWriteError α)}
      {f : α → Program (Except AtomicWriteError Unit)} {s : Moment},
      (∀ a s', Ends (fun r _ => r ≠ .ok ()) (f a) s') → Ends (fun r _ => r ≠ .ok ()) (p.andThen f) s := by
    intro α p f s h
    refine Holds.andThen (fun _ => rfl) (Holds.any.mono (fun _ _ h => h) fun r s' _ => ?_)
    cases r with
    | error e => exact holds_ret.mpr nofun
    | ok a => exact h a s'
  refine hgoesOn fun _ s₁ => hgoesOn fun i s₂ => hgoesOn fun _ s₃ => hgoesOn fun _ s₄ =>
    hgoesOn fun _ s₅ => ?_
  rw [hparent]
  refine Holds.andThen (fun _ => rfl) (Holds.mapError (fun _ => rfl)
    (holds_perform.mpr fun ans s₆ hstep => ⟨trivial, ?_⟩))
  obtain ⟨d, hd, rfl⟩ := sound_disk hstep
  obtain ⟨rfl, rfl⟩ := Prod.mk.inj hd
  exact holds_ret.mpr (holds_ret.mpr nofun)

/-- Nothing has been renamed before the first call. -/
lemma not_renamed_start (m : Machine) (file : Str × Str) : ¬Moment.Renamed (m, []) file :=
  Bool.false_ne_true

/-- What a write has returned says whether the target has been replaced. -/
lemma content_of_returns {r : Except AtomicWriteError Unit} (h : WriteReturns path pid bytes m r s) :
    (s.content path.file = m.disk.content path.file ∨ s.content path.file = some ⟨bytes, true⟩) ∧
    ((∃ e, r = .error e ∧ e.beforeRename = true) → s.content path.file = m.disk.content path.file) ∧
    (r = .ok () → s.content path.file = some ⟨bytes, true⟩) := by
  have hdoes : Does (Writes path bytes path.file) _ (writeAtomic path pid bytes) (m, []) :=
    writeAtomic_does (not_renamed_start m path.file) fun h => absurd h (path.tmpPath_ne_file pid)
  obtain ⟨-, hpost⟩ := (hdoes.since (Writes.refl path bytes path.file)
    fun _ _ _ => Writes.trans).reaches h
  obtain ⟨hwrites, hrenamed⟩ := holds_ret.mp hpost
  rcases hwrites with hkeeps | ⟨-, hreplaces⟩
  · refine ⟨.inl hkeeps.content, fun _ => hkeeps.content, ?_⟩
    rintro rfl
    have hsays := hrenamed.mpr nofun
    exact absurd (hkeeps.renamed.mp hsays) (not_renamed_start m path.file)
  · refine ⟨.inr hreplaces.content, ?_, fun _ => hreplaces.content⟩
    rintro ⟨e, rfl, hbefore⟩
    have hafter := hrenamed.mp hreplaces.renamed e rfl
    rw [hbefore] at hafter
    cases hafter

lemma isOrphan_tmpPath (hbare : path.bare = false) : path.IsOrphan (path.tmpPath pid) := by
  refine ⟨hbare, rfl, ?_⟩
  unfold PathBuf.tmpPath PathBuf.tmpName
  rw [List.isPrefixOf_iff_prefix]
  exact List.prefix_append _ _

/-- The scan of a directory finds every orphan that is there. -/
lemma listOrphanTmps_ends {file : Str × Str} (hdir : s.1.disk.dirs path.dir = true)
    (horphan : path.IsOrphan file) (hsome : (s.content file).isSome) :
    Ends (fun r _ => ∃ orphans, r = .ok orphans ∧ file ∈ orphans) (listOrphanTmps path) s := by
  obtain ⟨hbare, hfile, hname⟩ := horphan
  have hparent : path.parent = some path.dir := by
    unfold PathBuf.parent
    rw [hbare]
    rfl
  unfold listOrphanTmps
  rw [hparent]
  refine Holds.bind (fun _ => rfl) (holds_perform.mpr fun ans s₁ hstep => ⟨trivial, ?_⟩)
  obtain ⟨d, hd, rfl⟩ := sound_disk hstep
  obtain ⟨hans, rfl⟩ := Prod.mk.inj hd
  obtain rfl : ans = .ok (s.1.disk.names path.dir) := hans.symm.trans (if_pos hdir)
  refine holds_ret.mpr ⟨_, rfl, List.mem_map.mpr ⟨file.2, List.mem_filter.mpr ⟨?_, hname⟩, ?_⟩⟩
  · unfold Moment.content Disk.content at hsome
    rw [Option.isSome_map] at hsome
    unfold Disk.names
    refine List.mem_map.mpr ⟨file, List.mem_filter.mpr ⟨?_, decide_eq_true hfile⟩, rfl⟩
    exact AList.lookup_isSome.mp hsome
  · rw [← hfile]

/-- A write honours its contract exactly if the path names a directory. -/
theorem honoursContract_iff (hnone : m.disk.content (path.tmpPath pid) = none) :
    HonoursContract path pid bytes m ↔ path.bare = false := by
  constructor
  · intro h
    by_contra hbare
    obtain ⟨history, hfails⟩ := (writeAtomic_bare (Bool.not_eq_false _ ▸ hbare)).run
    exact hfails h.succeeds.1
  · intro hbare
    have hplaced : Placed (path.tmpPath pid) (m, []) := by
      intro hsome
      rw [Option.map_eq_none_iff.mp hnone] at hsome
      cases hsome
    refine ⟨?_, ?_, ?_, ?_⟩
    · have hsucceeds : Ends (fun r _ => r = .ok ()) (writeAtomic path pid bytes) (m, []) :=
        writeAtomic_succeeds hbare hnone
      obtain ⟨history, hok⟩ := hsucceeds.run
      obtain ⟨history', hreach⟩ := run_reaches (W := Machine.faulty) Machine.exec
        (fun _ _ => .inl rfl) (writeAtomic path pid bytes) m []
      exact ⟨hok, (content_of_returns hreach).2.2 hok⟩
    · intro e s h hbefore
      exact (content_of_returns h).2.1 ⟨e, rfl, hbefore⟩
    · intro e s h
      exact holds_ret.mp ((writeAtomic_places hbare).reaches h).2 e rfl
    · intro e s h hsome
      have hkept := ((writeAtomic_places hbare).keeping hplaced fun _ _ h hg => hg h).reaches h
      have hthere := (holds_ret.mp hkept.2).2
      have hlinked := hsome
      unfold Moment.content Disk.content at hlinked
      rw [Option.isSome_map] at hlinked
      have hfinds : Ends _ (listOrphanTmps path) (s.1, []) :=
        listOrphanTmps_ends (hthere hlinked) (isOrphan_tmpPath hbare) hsome
      obtain ⟨-, hfound⟩ := hfinds.run
      exact hfound

/-- A machine whose directories are all there and empty. -/
def noFiles : Machine := ⟨Disk.empty fun _ => true, none, []⟩

theorem honoursContract_iff_home :
    HonoursContract ⟨"home".toList, false, "vault".toList⟩ 7 [1] noFiles ↔
      (⟨"home".toList, false, "vault".toList⟩ : PathBuf).bare = false :=
  honoursContract_iff rfl

/-- A file in the current directory: nothing has failed, and the write says that the directory has
not been synced. -/
theorem not_honoursContract :
    ((writeAtomic ⟨"home".toList, true, "vault".toList⟩ 7 [1]).run Machine.exec noFiles).1 =
      .error (.atParentFsync .notFound) ∧
    ¬HonoursContract ⟨"home".toList, true, "vault".toList⟩ 7 [1] noFiles := by
  have hrun : ((writeAtomic ⟨"home".toList, true, "vault".toList⟩ 7 [1]).run
      Machine.exec noFiles).1 = .error (.atParentFsync .notFound) := rfl
  refine ⟨hrun, fun h => ?_⟩
  cases hrun.symm.trans h.succeeds.1

end Invisibool
