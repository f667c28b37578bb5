import Invisibool.Store.Vault

/-!
# What the file operations do to a file

Any call may fail, and a process may be stopped between any two calls. For each operation it is
said what it can do, at any moment, to one file that one has in mind, and what is known where it
returns.
-/

namespace Invisibool
open Text Process FileSystem
open Format hiding Bytes

/-- A machine, and the calls that a process has had answered so far. -/
abbrev Moment := Machine × List (Event Call Call.Ans)

/-- The call has renamed something to the file. -/
def renamesTo (file : Str × Str) : (call : Call) → call.Ans → Bool
  | .disk (.rename dir _ target), .ok () => decide ((dir, target) = file)
  | _, _ => false

/-- Something has been renamed to the file. -/
def renames (file : Str × Str) (history : List (Event Call Call.Ans)) : Bool :=
  history.any fun event => renamesTo file event.1 event.2

namespace Moment

def content (s : Moment) (file : Str × Str) : Option Body := s.1.disk.content file

def Renamed (s : Moment) (file : Str × Str) : Prop := renames file s.2 = true

end Moment

variable {file : Str × Str} {bytes : Bytes} {s s' s'' : Moment}

/-- No key is lost, and nothing is printed. -/
structure Quiet (s s' : Moment) : Prop where
  keychain : ∀ key, s.1.keychain = some key → s'.1.keychain = some key
  printed : s'.1.printed = s.1.printed

/-- The file is as it was. -/
structure Keeps (file : Str × Str) (s s' : Moment) : Prop extends Quiet s s' where
  content : s'.content file = s.content file
  renamed : s'.Renamed file ↔ s.Renamed file

structure Removes (file : Str × Str) (s s' : Moment) : Prop extends Quiet s s' where
  content : s'.content file = none
  renamed : s'.Renamed file ↔ s.Renamed file

/-- The file holds these bytes, which have been synced and put in its place by a rename. -/
structure Replaces (file : Str × Str) (bytes : Bytes) (s s' : Moment) : Prop
    extends Quiet s s' where
  content : s'.content file = some ⟨bytes, true⟩
  renamed : s'.Renamed file

lemma Quiet.refl (s : Moment) : Quiet s s := ⟨fun _ h => h, rfl⟩

lemma Quiet.trans (h : Quiet s s') (h' : Quiet s' s'') : Quiet s s'' where
  keychain key hkey := h'.keychain key (h.keychain key hkey)
  printed := h'.printed.trans h.printed

lemma Keeps.refl (file : Str × Str) (s : Moment) : Keeps file s s :=
  ⟨.refl s, rfl, Iff.rfl⟩

lemma Keeps.trans (h : Keeps file s s') (h' : Keeps file s' s'') : Keeps file s s'' :=
  ⟨h.toQuiet.trans h'.toQuiet, h'.content.trans h.content, h'.renamed.trans h.renamed⟩

/-! ### Single calls -/

lemma renamed_append {event : Event Call Call.Ans} {m : Machine} :
    Moment.Renamed (m, s.2 ++ [event]) file ↔
      s.Renamed file ∨ renamesTo file event.1 event.2 = true := by
  simp [Moment.Renamed, renames]

lemma renamed_of_call {call : Call} {ans : call.Ans} (hlog : s'.2 = s.2 ++ [⟨call, ans⟩])
    (hcall : renamesTo file call ans = false) : s'.Renamed file ↔ s.Renamed file := by
  obtain ⟨m', h'⟩ := s'
  dsimp only at hlog
  rw [hlog, renamed_append, hcall]
  simp

lemma exists_disk {op : Op Str Str} {ans : op.Ans}
    (h : Machine.faulty.logged (.disk op) s ans s') :
    ∃ d, FileSystem.faulty op s.1.disk ans d ∧
      s' = ({ s.1 with disk := d }, s.2 ++ [⟨.disk op, ans⟩]) := by
  obtain ⟨hstep, hlog⟩ := h
  obtain ⟨m', h'⟩ := s'
  obtain hstep | ⟨d, hfails, hm⟩ := hstep
  · obtain ⟨hans, hm⟩ := Prod.mk.inj hstep
    refine ⟨_, .inl (Prod.ext hans rfl), ?_⟩
    exact Prod.ext hm.symm hlog
  · exact ⟨d, .inr hfails, Prod.ext hm hlog⟩

lemma sound_disk {op : Op Str Str} {ans : op.Ans}
    (h : Machine.sound.logged (.disk op) s ans s') :
    ∃ d, FileSystem.exec op s.1.disk = (ans, d) ∧
      s' = ({ s.1 with disk := d }, s.2 ++ [⟨.disk op, ans⟩]) := by
  obtain ⟨hstep, hlog⟩ := h
  obtain ⟨hans, hm⟩ := Prod.mk.inj hstep
  exact ⟨_, Prod.ext hans rfl, Prod.ext hm.symm hlog⟩

lemma keeps_disk {op : Op Str Str} {ans : op.Ans} {d : Disk Str Str}
    (hop : renamesTo file (.disk op) ans = false)
    (hcontent : d.content file = s.1.disk.content file) :
    Keeps file s ({ s.1 with disk := d }, s.2 ++ [⟨.disk op, ans⟩]) where
  content := hcontent
  renamed := renamed_of_call rfl hop
  keychain _ h := h
  printed := rfl

/-! ### Printing -/

/-- The moment, but for what has been printed. -/
def Moment.mute (s : Moment) : Moment := ({ s.1 with printed := [] }, s.2)

lemma Keeps.mute (h : Keeps file s s') : Keeps file s.mute s'.mute :=
  ⟨⟨h.keychain, rfl⟩, h.content, h.renamed⟩

lemma Removes.mute (h : Removes file s s') : Removes file s.mute s'.mute :=
  ⟨⟨h.keychain, rfl⟩, h.content, h.renamed⟩

lemma Replaces.mute (h : Replaces file bytes s s') : Replaces file bytes s.mute s'.mute :=
  ⟨⟨h.keychain, rfl⟩, h.content, h.renamed⟩

/-! ### Programs that write no file -/

variable {path : PathBuf}

abbrev Does (guar : Moment → Moment → Prop) {α : Type} (post : α → Moment → Prop)
    (p : Program α) (s : Moment) : Prop :=
  Holds Machine.faulty.logged Eq guar post p s

lemma readIfExists_keeps : Does (Keeps file)
    (fun r s' => ∀ found, r = .ok found →
      found = (s'.content path.file).map Body.bytes) (readIfExists path) s := by
  unfold readIfExists openRead
  refine Holds.bind (fun _ => rfl) (holds_perform.mpr fun ans s' hstep => ?_)
  obtain ⟨d, hd, rfl⟩ := exists_disk hstep
  obtain ⟨rfl, hans⟩ := faulty_openRead hd
  refine ⟨keeps_disk rfl rfl, ?_⟩
  cases ans with
  | error e =>
    dsimp only at hans ⊢
    split
    · rename_i hkind
      refine holds_ret.mpr fun found hfound => ?_
      obtain rfl := Except.ok.inj hfound
      simp [Moment.content, Disk.content, hans hkind]
    · refine holds_ret.mpr fun found hfound => ?_
      cases hfound
  | ok i =>
    refine Holds.andThen (fun _ => rfl) (holds_perform.mpr fun ans s' hstep => ?_)
    obtain ⟨d, hd, rfl⟩ := exists_disk hstep
    obtain ⟨rfl, hbytes⟩ := faulty_readToEnd hd
    refine ⟨keeps_disk rfl rfl, ?_⟩
    cases ans with
    | error e => exact holds_ret.mpr fun found hfound => by cases hfound
    | ok buf =>
      refine holds_ret.mpr fun found hfound => ?_
      obtain rfl := Except.ok.inj hfound
      obtain rfl := hbytes buf rfl
      dsimp only at hans
      simp [Moment.content, Disk.content, hans]

/-! ### The orphan scan -/

/-- A scan of the path takes a file away only if it is an orphan of the path. -/
def Scans (path : PathBuf) (file : Str × Str) (s s' : Moment) : Prop :=
  Keeps file s s' ∨ path.IsOrphan file ∧ Removes file s s'

lemma Scans.refl (path : PathBuf) (file : Str × Str) (s : Moment) : Scans path file s s :=
  .inl (.refl file s)

lemma Keeps.removes (h : Keeps file s s') (h' : Removes file s' s'') : Removes file s s'' :=
  ⟨h.toQuiet.trans h'.toQuiet, h'.content, h'.renamed.trans h.renamed⟩

lemma Removes.keeps (h : Removes file s s') (h' : Keeps file s' s'') : Removes file s s'' :=
  ⟨h.toQuiet.trans h'.toQuiet, h'.content.trans h.content, h'.renamed.trans h.renamed⟩

lemma Removes.trans (h : Removes file s s') (h' : Removes file s' s'') : Removes file s s'' :=
  ⟨h.toQuiet.trans h'.toQuiet, h'.content, h'.renamed.trans h.renamed⟩

lemma Scans.trans (h : Scans path file s s') (h' : Scans path file s' s'') :
    Scans path file s s'' := by
  rcases h with h | ⟨ho, h⟩ <;> rcases h' with h' | ⟨ho', h'⟩
  · exact .inl (h.trans h')
  · exact .inr ⟨ho', h.removes h'⟩
  · exact .inr ⟨ho, h.keeps h'⟩
  · exact .inr ⟨ho, h.trans h'⟩

lemma not_isOrphan_file : ¬path.IsOrphan path.file := by
  rintro ⟨-, -, hprefix⟩
  have hlen := (List.isPrefixOf_iff_prefix.mp hprefix).length_le
  have hmark : PathBuf.tmpMark.length = 5 := by decide
  rw [List.length_append, hmark] at hlen
  change _ ≤ path.name.length at hlen
  omega

lemma Scans.keeps (h : Scans path path.file s s') : Keeps path.file s s' :=
  h.resolve_right fun ho => not_isOrphan_file ho.1

lemma removeFile_does (file other : Str × Str) : Does
    (fun s s' => Keeps file s s' ∨ other = file ∧ Removes file s s')
    (fun _ _ => True) (removeFile other) s := by
  refine holds_perform.mpr fun ans s' hstep => ⟨?_, trivial⟩
  obtain ⟨d, hd, rfl⟩ := exists_disk hstep
  obtain ⟨rfl, -⟩ | ⟨rfl, rfl⟩ := faulty_remove hd
  · exact .inl (keeps_disk rfl rfl)
  by_cases hfile : other = file
  · subst hfile
    exact .inr ⟨rfl, ⟨fun _ h => h, rfl⟩, content_unlink_self, renamed_of_call rfl rfl⟩
  · exact .inl (keeps_disk rfl (content_unlink (Ne.symm hfile)))

lemma removeOrphans_does {orphans : List (Str × Str)}
    (horphans : ∀ orphan ∈ orphans, path.IsOrphan orphan) :
    Does (Scans path file) (fun _ _ => True) (removeOrphans orphans) s := by
  induction orphans generalizing s with
  | nil => exact holds_ret.mpr trivial
  | cons orphan orphans ih =>
    refine Holds.bind (fun _ => rfl) (Holds.bind (fun _ => rfl) ?_)
    refine (removeFile_does file orphan).mono (fun s s' h => ?_) fun ans s' _ => ?_
    · refine h.imp_right fun ⟨heq, hremoves⟩ => ⟨?_, hremoves⟩
      exact heq ▸ horphans orphan List.mem_cons_self
    · exact holds_ret.mpr (ih fun o ho => horphans o (List.mem_cons_of_mem _ ho))

lemma listOrphanTmps_does : Does (Keeps file)
    (fun r _ => ∀ orphans, r = .ok orphans → ∀ orphan ∈ orphans, path.IsOrphan orphan)
    (listOrphanTmps path) s := by
  unfold listOrphanTmps readDir
  refine Holds.bind (fun _ => rfl) (holds_perform.mpr fun ans s' hstep => ?_)
  obtain ⟨d, hd, rfl⟩ := exists_disk hstep
  obtain ⟨rfl, hnames⟩ := faulty_readDir hd
  refine ⟨keeps_disk rfl rfl, ?_⟩
  cases ans with
  | error e =>
    dsimp only
    split
    · refine holds_ret.mpr fun orphans h orphan horphan => ?_
      obtain rfl := Except.ok.inj h
      cases horphan
    · exact holds_ret.mpr fun orphans h => by cases h
  | ok names =>
    refine holds_ret.mpr fun orphans h orphan horphan => ?_
    obtain rfl := Except.ok.inj h
    obtain ⟨name, hname, rfl⟩ := List.mem_map.mp horphan
    refine ⟨?_, rfl, (List.mem_filter.mp hname).2⟩
    have hparent := hnames names rfl
    unfold PathBuf.parent at hparent
    split at hparent
    · cases hparent
    · rename_i hbare
      simpa using hbare

lemma scanOrphans_does : Does (Scans path file) (fun _ _ => True) (scanOrphans path) s := by
  refine Holds.bind (fun _ => rfl) (listOrphanTmps_does.mono (fun _ _ h => .inl h) ?_)
  intro r s' hr
  cases r with
  | error e => exact holds_ret.mpr trivial
  | ok orphans => exact removeOrphans_does (hr orphans rfl)

lemma print_does {text : Str} : Does (fun s s' => Keeps file s.mute s'.mute)
    (fun _ s' => Keeps file s.mute s'.mute) (print text) s := by
  refine holds_perform.mpr fun ans s' hstep => ?_
  obtain ⟨hstep, hlog⟩ := hstep
  have hrenamed : Moment.Renamed s' file ↔ s.Renamed file := renamed_of_call hlog rfl
  obtain ⟨m', h'⟩ := s'
  obtain hstep | ⟨message, n, -, hm⟩ := hstep
  · obtain ⟨-, rfl⟩ := Prod.mk.inj hstep
    have hkeeps : Keeps file s.mute (Moment.mute (_, h')) := ⟨⟨fun _ h => h, rfl⟩, rfl, hrenamed⟩
    exact ⟨hkeeps, hkeeps⟩
  · dsimp only at hm
    subst hm
    have hkeeps : Keeps file s.mute (Moment.mute (_, h')) := ⟨⟨fun _ h => h, rfl⟩, rfl, hrenamed⟩
    exact ⟨hkeeps, hkeeps⟩

/-! ### The key -/

lemma fetch_does : Does (Keeps file) (fun r s' => ∀ found, r = .ok found → found = s'.1.keychain)
    fetch s := by
  refine holds_perform.mpr fun ans s' hstep => ?_
  obtain ⟨hstep, hlog⟩ := hstep
  have hrenamed : Moment.Renamed s' file ↔ s.Renamed file := renamed_of_call hlog rfl
  obtain ⟨m', h'⟩ := s'
  obtain hstep | ⟨e, rfl, hm⟩ := hstep
  · obtain ⟨rfl, rfl⟩ := Prod.mk.inj hstep
    exact ⟨⟨⟨fun _ h => h, rfl⟩, rfl, hrenamed⟩, fun found h => (Except.ok.inj h).symm⟩
  · dsimp only at hm
    subst hm
    exact ⟨⟨⟨fun _ h => h, rfl⟩, rfl, hrenamed⟩, fun found h => by cases h⟩

lemma store_does {key : VaultKey} (hnone : s.1.keychain = none) : Does (Keeps file)
    (fun r s' => r = .ok () → s'.1.keychain = some key) (store key) s := by
  refine holds_perform.mpr fun ans s' hstep => ?_
  obtain ⟨hstep, hlog⟩ := hstep
  have hrenamed : Moment.Renamed s' file ↔ s.Renamed file := renamed_of_call hlog rfl
  obtain ⟨m', h'⟩ := s'
  obtain hstep | ⟨e, rfl, hm⟩ := hstep
  · obtain ⟨rfl, rfl⟩ := Prod.mk.inj hstep
    refine ⟨⟨⟨fun key' h => ?_, rfl⟩, rfl, hrenamed⟩, fun _ => rfl⟩
    rw [hnone] at h
    cases h
  · dsimp only at hm
    subst hm
    exact ⟨⟨⟨fun _ h => h, rfl⟩, rfl, hrenamed⟩, fun h => by cases h⟩

lemma fetchOrCreate_does {newKey : VaultKey} : Does (Keeps file)
    (fun r s' => ∀ key, r = .ok key → s'.1.keychain = some key) (fetchOrCreate newKey) s := by
  refine Holds.andThen (fun _ => rfl) (fetch_does.mono (fun _ _ h => h) fun r s' hr => ?_)
  cases r with
  | error e => exact holds_ret.mpr fun key h => by cases h
  | ok found =>
    cases found with
    | some existing =>
      refine holds_ret.mpr fun key h => ?_
      obtain rfl := Except.ok.inj h
      exact (hr _ rfl).symm
    | none =>
      refine Holds.andThen (fun _ => rfl) ((store_does (hr none rfl).symm).mono
        (fun _ _ h => h) fun r s'' hr' => ?_)
      cases r with
      | error e => exact holds_ret.mpr fun key h => by cases h
      | ok u =>
        refine holds_ret.mpr fun key h => ?_
        obtain rfl := Except.ok.inj h
        exact hr' rfl

/-! ### Errors before the rename -/

def VaultError.beforeRename : VaultError → Bool
  | .atomicWrite e => e.beforeRename
  | _ => true

def SessionFileError.beforeRename : SessionFileError → Bool
  | .atomicWrite e => e.beforeRename
  | _ => true

def Stop.BeforeRename {ε : Type} (beforeRename : ε → Bool) : Stop ε → Bool
  | .error e => beforeRename e
  | .panic _ => true

lemma settle_eq_error {ε α : Type} {x : Outcome (Except ε α)} {e : Stop ε}
    (h : settle x = .error e) {beforeRename : ε → Bool}
    (hx : ∀ e, x = .ok (.error e) → beforeRename e = true) :
    e.BeforeRename beforeRename = true := by
  unfold settle at h
  split at h
  · obtain rfl := Except.error.inj h
    rfl
  · obtain rfl := Except.error.inj h
    exact hx _ rfl
  · cases h

/-! ### Opening the vault and a session file -/

section Open

variable {X : Crates} {Y : FileCrates}

/-- What `Vault::open` makes of a vault file, or of its absence. -/
def ReadsAs (X : Crates) (Y : FileCrates) (v : OpenVault) : Option Body → Prop
  | none => v.contents = .default
  | some body => decryptVault X Y v.vaultKey body.bytes = .ok (.ok v.contents)

lemma settle_eq_ok {ε α : Type} {x : Outcome (Except ε α)} {a : α} :
    settle x = .ok a ↔ x = .ok (.ok a) := by
  unfold settle
  split <;> simp_all

lemma exists_of_map_eq_ok {ε α β : Type} {x : Except ε α} {f : α → β} {b : β}
    (h : x.map f = .ok b) : ∃ a, x = .ok a ∧ f a = b := by
  cases x with
  | error e => cases h
  | ok a => exact ⟨a, rfl, Except.ok.inj h⟩

lemma decryptVault_beforeRename {vaultKey : VaultKey} {bytes : Bytes} {e : VaultError}
    (h : decryptVault X Y vaultKey bytes = .ok (.error e)) : e.beforeRename = true := by
  unfold decryptVault at h
  obtain ⟨opened, -, h⟩ := bind_eq_ok.mp h
  cases opened with
  | error err =>
    obtain rfl := Except.error.inj (Except.ok.inj h)
    cases err <;> rfl
  | ok plaintext =>
    dsimp only at h
    split at h
    · obtain rfl := Except.error.inj (Except.ok.inj h)
      rfl
    · cases h

lemma openVault_does {newKey : VaultKey} : Does (Scans path file)
    (fun r s' => match r with
      | .error e => e.BeforeRename VaultError.beforeRename = true
      | .ok v => s'.1.keychain = some v.vaultKey ∧ ReadsAs X Y v (s'.content path.file))
    (openVault X Y path newKey) s := by
  refine Holds.bind (fun _ => rfl) (scanOrphans_does.mono (fun _ _ h => h) fun _ s₁ _ => ?_)
  refine Holds.andThen (fun _ => rfl) (Holds.mapError (fun _ => rfl)
    (fetchOrCreate_does.mono (fun _ _ h => .inl h) fun r s₂ hr => holds_ret.mpr ?_))
  cases r with
  | error e => exact holds_ret.mpr rfl
  | ok vaultKey =>
    refine Holds.andThen (fun _ => rfl) (Holds.mapError (fun _ => rfl)
      ((readIfExists_keeps.since (Keeps.refl file) fun _ _ _ => Keeps.trans).mono
        (fun _ _ h => .inl h) fun r s₃ ⟨hkeeps, hfound⟩ => holds_ret.mpr ?_))
    have hkey := hkeeps.keychain vaultKey (hr vaultKey rfl)
    cases r with
    | error e => exact holds_ret.mpr rfl
    | ok found =>
      have hcontent := hfound found rfl
      cases found with
      | none =>
        refine holds_ret.mpr ⟨hkey, ?_⟩
        rw [Option.map_eq_none_iff.mp hcontent.symm]
        rfl
      | some bytes =>
        obtain ⟨body, hbody, rfl⟩ := Option.map_eq_some_iff.mp hcontent.symm
        refine holds_ret.mpr ?_
        cases hsettle : settle (decryptVault X Y vaultKey body.bytes) with
        | error e => exact settle_eq_error hsettle fun _ => decryptVault_beforeRename
        | ok contents =>
          refine ⟨hkey, ?_⟩
          rw [hbody]
          exact settle_eq_ok.mp hsettle

/-- The error comes from the bytes of a session file, or from sealing it. -/
def SessionFileError.isFormat : SessionFileError → Bool
  | .io _ => false
  | .atomicWrite _ => false
  | _ => true

lemma SessionFileError.isFormat_beforeRename {e : SessionFileError} (h : e.isFormat = true) :
    e.beforeRename = true := by
  cases e <;> first | rfl | cases h

lemma loadSessionFile_does {vaultKey : VaultKey} {now : UInt64} : Does (Keeps file)
    (fun r s' => match r with
      | .error e => (∃ err, e = .error (.io err)) ∨ (s'.content path.file).isSome
      | .ok none => s'.content path.file = none
      | .ok (some contents) => ∃ body, s'.content path.file = some body ∧
        decryptSessionBytes X Y vaultKey.toList body.bytes now = .ok (.ok contents))
    (loadSessionFile X Y vaultKey path now) s := by
  refine Holds.andThen (fun _ => rfl) (Holds.mapError (fun _ => rfl)
    (readIfExists_keeps.mono (fun _ _ h => h) fun r s' hr => holds_ret.mpr ?_))
  cases r with
  | error e => exact holds_ret.mpr (.inl ⟨e, rfl⟩)
  | ok found =>
    have hcontent := hr found rfl
    cases found with
    | none => exact holds_ret.mpr (Option.map_eq_none_iff.mp hcontent.symm)
    | some bytes =>
      obtain ⟨body, hbody, rfl⟩ := Option.map_eq_some_iff.mp hcontent.symm
      refine holds_ret.mpr ?_
      cases hsettle : settle (decryptSessionBytes X Y vaultKey.toList body.bytes now) with
      | error e =>
        refine .inr ?_
        rw [hbody]
        rfl
      | ok contents => exact ⟨body, hbody, settle_eq_ok.mp hsettle⟩

end Open

/-- The wipe takes away nothing but the session file. -/
lemma wipeSessionFile_does (file : Str × Str) (path : PathBuf) : Does
    (fun s s' => Keeps file s s' ∨ path.file = file ∧ Removes file s s')
    (fun _ _ => True) (wipeSessionFile path) s := by
  refine Holds.bind (fun _ => rfl) ((removeFile_does file path.file).mono (fun _ _ h => h) ?_)
  intro r s' _
  cases r with
  | ok u => exact holds_ret.mpr trivial
  | error e =>
    dsimp only
    split <;> exact holds_ret.mpr trivial

/-! ### Replacing a file -/

/-- A write of the path either keeps the file, or it is the file of the path and gets the bytes. -/
def Writes (path : PathBuf) (bytes : Bytes) (file : Str × Str) (s s' : Moment) : Prop :=
  Keeps file s s' ∨ path.file = file ∧ Replaces file bytes s s'

lemma Writes.refl (path : PathBuf) (bytes : Bytes) (file : Str × Str) (s : Moment) :
    Writes path bytes file s s :=
  .inl (.refl file s)

lemma Quiet.replaces (h : Quiet s s') (h' : Replaces file bytes s' s'') :
    Replaces file bytes s s'' :=
  ⟨h.trans h'.toQuiet, h'.content, h'.renamed⟩

lemma Replaces.keeps (h : Replaces file bytes s s') (h' : Keeps file s' s'') :
    Replaces file bytes s s'' :=
  ⟨h.toQuiet.trans h'.toQuiet, h'.content.trans h.content, h'.renamed.mpr h.renamed⟩

lemma Writes.trans (h : Writes path bytes file s s') (h' : Writes path bytes file s' s'') :
    Writes path bytes file s s'' := by
  rcases h with h | ⟨hf, h⟩ <;> rcases h' with h' | ⟨hf', h'⟩
  · exact .inl (h.trans h')
  · exact .inr ⟨hf', h.toQuiet.replaces h'⟩
  · exact .inr ⟨hf, h.keeps h'⟩
  · exact .inr ⟨hf, h.toQuiet.replaces h'⟩

/-- A call that leaves the files alone. -/
lemma idle_does (file other : Str × Str) {op : Op Str Str}
    (hop : ∀ d ans d', FileSystem.faulty op d ans d' → d'.links = d.links ∧ d'.data = d.data)
    (hrenames : ∀ file ans, renamesTo file (.disk op) ans = false) :
    Does (Keeps file) (fun _ s' => s'.Renamed other ↔ s.Renamed other)
      (.perform (Call.disk op)) s := by
  refine holds_perform.mpr fun ans s' hstep => ?_
  obtain ⟨d, hd, rfl⟩ := exists_disk hstep
  obtain ⟨hlinks, hdata⟩ := hop _ _ _ hd
  exact ⟨keeps_disk (hrenames file ans) (content_eq_of_links hlinks hdata),
    renamed_of_call rfl (hrenames other ans)⟩

section Write

variable {pid i : Nat} {body : Body}

/-- The sibling of the path is open, and what has been written to it so far is the body. -/
structure Scratch (path : PathBuf) (pid : Nat) (file : Str × Str) (i : Nat) (body : Body)
    (s : Moment) : Prop where
  linked : s.1.disk.links.lookup (path.tmpPath pid) = some i
  written : s.1.disk.data i = body
  apart : s.1.disk.links.lookup file ≠ some i
  pending : ¬s.Renamed path.file

lemma ensureParent_does : Does (Keeps file)
    (fun r s' => (s'.Renamed path.file ↔ s.Renamed path.file) ∧
      ∀ e, r = .error e → e.beforeRename = true) (ensureParent path) s := by
  refine Holds.bind (fun _ => rfl) ((idle_does file path.file
    (fun d ans d' h => ?_) fun _ _ => rfl).mono (fun _ _ h => h) fun found s' hs' => ?_)
  · obtain rfl := faulty_dirExists h
    exact ⟨rfl, rfl⟩
  split
  · exact holds_ret.mpr ⟨hs', fun e h => by cases h⟩
  · refine Holds.mapError (fun _ => rfl) ((idle_does file path.file
      (fun d ans d' h => faulty_createDirAll h) fun _ _ => rfl).mono (fun _ _ h => h)
      fun r s'' hs'' => holds_ret.mpr ⟨hs''.trans hs', ?_⟩)
    intro e he
    cases r with
    | error err =>
      obtain rfl := Except.error.inj he
      rfl
    | ok u => cases he

lemma createNew_does (hpending : ¬s.Renamed path.file)
    (hfile : path.tmpPath pid = file → s.content file ≠ none) :
    Does (Keeps file) (fun r s' => ¬s'.Renamed path.file ∧
      ∀ i, r = .ok i → Scratch path pid file i ⟨[], false⟩ s') (createNew (path.tmpPath pid)) s := by
  refine holds_perform.mpr fun ans s' hstep => ?_
  obtain ⟨d, hd, rfl⟩ := exists_disk hstep
  have hpending' : ∀ d, ¬Moment.Renamed ({ s.1 with disk := d },
      s.2 ++ [⟨.disk (.createNew (path.tmpPath pid)), ans⟩]) path.file := fun d h =>
    hpending ((renamed_of_call rfl rfl).mp h)
  obtain ⟨e, rfl, rfl⟩ | ⟨hfree, rfl, rfl⟩ := faulty_createNew hd
  · exact ⟨keeps_disk rfl rfl, hpending' _, fun i h => by cases h⟩
  · have hne : file ≠ path.tmpPath pid := by
      intro heq
      apply hfile heq.symm
      unfold Moment.content Disk.content
      rw [heq, hfree]
      rfl
    refine ⟨keeps_disk rfl (content_create hne), hpending' _, fun i h => ?_⟩
    obtain rfl := Except.ok.inj h
    refine ⟨?_, Function.update_self _ _ _, fun heq => ?_, hpending' _⟩
    · rw [lookup_create, if_pos rfl]
    · rw [lookup_create, if_neg hne] at heq
      exact (s.1.disk.lt_next file _ heq).false

lemma writeAll_does (h : Scratch path pid file i body s) :
    Does (Keeps file) (fun r s' => ¬s'.Renamed path.file ∧
      (r = .ok () → Scratch path pid file i ⟨body.bytes ++ bytes, false⟩ s')) (writeAll i bytes) s := by
  refine holds_perform.mpr fun ans s' hstep => ?_
  obtain ⟨d, hd, rfl⟩ := exists_disk hstep
  have hpending : ∀ d, ¬Moment.Renamed ({ s.1 with disk := d },
      s.2 ++ [⟨.disk (.write i bytes), ans⟩]) path.file := fun d hr =>
    h.pending ((renamed_of_call rfl rfl).mp hr)
  obtain ⟨rfl, rfl⟩ | ⟨e, n, rfl, rfl⟩ := faulty_write hd
  · refine ⟨keeps_disk rfl (content_append h.apart), hpending _, fun _ => ?_⟩
    refine ⟨h.linked, ?_, h.apart, hpending _⟩
    rw [← h.written]
    exact Function.update_self _ _ _
  · exact ⟨keeps_disk rfl (content_append h.apart), hpending _, fun h => by cases h⟩

lemma syncAll_does (h : Scratch path pid file i body s) :
    Does (Keeps file) (fun r s' => ¬s'.Renamed path.file ∧
      (r = .ok () → Scratch path pid file i ⟨body.bytes, true⟩ s')) (syncAll i) s := by
  refine holds_perform.mpr fun ans s' hstep => ?_
  obtain ⟨d, hd, rfl⟩ := exists_disk hstep
  have hpending : ∀ d, ¬Moment.Renamed ({ s.1 with disk := d },
      s.2 ++ [⟨.disk (.sync i), ans⟩]) path.file := fun d hr =>
    h.pending ((renamed_of_call rfl rfl).mp hr)
  obtain ⟨rfl, rfl⟩ | ⟨e, rfl, rfl⟩ := faulty_sync hd
  · refine ⟨keeps_disk rfl (content_flush h.apart), hpending _, fun _ => ?_⟩
    refine ⟨h.linked, ?_, h.apart, hpending _⟩
    rw [← h.written]
    exact Function.update_self _ _ _
  · exact ⟨keeps_disk rfl rfl, hpending _, fun h => by cases h⟩

lemma rename_does (h : Scratch path pid file i ⟨bytes, true⟩ s) :
    Does (Writes path bytes file) (fun r s' => s'.Renamed path.file ↔ r = .ok ())
      (rename path.dir (path.tmpName pid) path.name) s := by
  refine holds_perform.mpr fun ans s' hstep => ?_
  obtain ⟨d, hd, rfl⟩ := exists_disk hstep
  obtain ⟨e, rfl, rfl⟩ | ⟨rfl, -, rfl⟩ := faulty_rename hd
  · refine ⟨.inl (keeps_disk rfl rfl), ?_⟩
    rw [renamed_of_call rfl rfl]
    exact iff_of_false h.pending fun hok => by cases hok
  have hrenamed : renamesTo path.file
      (.disk (.rename path.dir (path.tmpName pid) path.name)) (.ok ()) = true :=
    decide_eq_true rfl
  refine ⟨?_, iff_of_true (renamed_append.mpr (.inr hrenamed)) rfl⟩
  by_cases hfile : path.file = file
  · subst hfile
    refine .inr ⟨rfl, ⟨fun _ h => h, rfl⟩, ?_, renamed_append.mpr (.inr hrenamed)⟩
    have hlinked : s.1.disk.links.lookup (path.dir, path.tmpName pid) = some i := h.linked
    refine (content_relink_target hlinked).trans ?_
    rw [h.written]
  · have htmp : file ≠ path.tmpPath pid := fun heq => h.apart (heq ▸ h.linked)
    refine .inl (keeps_disk (decide_eq_false hfile) ?_)
    exact content_relink h.linked (Ne.symm hfile) htmp

/-- The last steps of a write come behind the rename. -/
lemma fsyncParent_does (hrenamed : s.Renamed path.file) :
    Does (Keeps file) (fun r s' => s'.Renamed path.file ∧
      ∀ e, r = .error e → e.beforeRename = false)
      (((openDir path.parent).mapError AtomicWriteError.atParentFsync).andThen fun dir =>
        (syncDir dir).mapError .atParentFsync) s := by
  refine Holds.andThen (fun _ => rfl) (Holds.mapError (fun _ => rfl)
    ((idle_does file path.file (fun d ans d' h => ?_) fun _ _ => rfl).mono (fun _ _ h => h)
      fun r s₁ hr₁ => holds_ret.mpr ?_))
  · obtain rfl := faulty_openDir h
    exact ⟨rfl, rfl⟩
  cases r with
  | error e =>
    refine holds_ret.mpr ⟨hr₁.mpr hrenamed, fun e' h => ?_⟩
    obtain rfl := Except.error.inj h
    rfl
  | ok dir =>
  refine Holds.mapError (fun _ => rfl)
    ((idle_does file path.file (fun d ans d' h => ?_) fun _ _ => rfl).mono (fun _ _ h => h)
      fun r s₂ hr₂ => holds_ret.mpr ⟨hr₂.mpr (hr₁.mpr hrenamed), fun e' h => ?_⟩)
  · obtain rfl := faulty_syncDir h
    exact ⟨rfl, rfl⟩
  cases r with
  | error e =>
    obtain rfl := Except.error.inj h
    rfl
  | ok u => cases h

/-- A write that has returned has renamed the sibling if and only if it says so. -/
theorem writeAtomic_does (hpending : ¬s.Renamed path.file)
    (hfile : path.tmpPath pid = file → s.content file ≠ none) :
    Does (Writes path bytes file)
      (fun r s' => s'.Renamed path.file ↔ ∀ e, r = .error e → e.beforeRename = false)
      (writeAtomic path pid bytes) s := by
  refine Holds.andThen (fun _ => rfl) ((ensureParent_does.since (Keeps.refl file)
    fun _ _ _ => Keeps.trans).mono (fun _ _ h => .inl h) fun r s₁ ⟨hkeeps, hr₁, he⟩ => ?_)
  cases r with
  | error e =>
    refine holds_ret.mpr (iff_of_false (fun h => hpending (hr₁.mp h)) fun h => ?_)
    exact Bool.noConfusion ((he e rfl).symm.trans (h e rfl))
  | ok u =>
  refine Holds.andThen (fun _ => rfl) (Holds.mapError (fun _ => rfl)
    ((createNew_does (fun h => hpending (hr₁.mp h)) fun heq => ?_).mono (fun _ _ h => .inl h)
      fun r s₂ ⟨hp₂, hr₂⟩ => holds_ret.mpr ?_))
  · rw [hkeeps.content]
    exact hfile heq
  cases r with
  | error e => exact holds_ret.mpr (iff_of_false hp₂ fun h => Bool.noConfusion (h _ rfl))
  | ok i =>
  refine Holds.andThen (fun _ => rfl) (Holds.mapError (fun _ => rfl)
    ((writeAll_does (hr₂ i rfl)).mono (fun _ _ h => .inl h)
      fun r s₃ ⟨hp₃, hr₃⟩ => holds_ret.mpr ?_))
  cases r with
  | error e => exact holds_ret.mpr (iff_of_false hp₃ fun h => Bool.noConfusion (h _ rfl))
  | ok u =>
  refine Holds.andThen (fun _ => rfl) (Holds.mapError (fun _ => rfl)
    ((syncAll_does (hr₃ rfl)).mono (fun _ _ h => .inl h)
      fun r s₄ ⟨hp₄, hr₄⟩ => holds_ret.mpr ?_))
  cases r with
  | error e => exact holds_ret.mpr (iff_of_false hp₄ fun h => Bool.noConfusion (h _ rfl))
  | ok u =>
  refine Holds.andThen (fun _ => rfl) (Holds.mapError (fun _ => rfl)
    ((rename_does (hr₄ rfl)).mono (fun _ _ h => h) fun r s₅ hr₅ => holds_ret.mpr ?_))
  cases r with
  | error e =>
    exact holds_ret.mpr (iff_of_false (fun h => by cases hr₅.mp h)
      fun h => Bool.noConfusion (h _ rfl))
  | ok u =>
  exact (fsyncParent_does (hr₅.mpr rfl)).mono (fun _ _ h => .inl h)
    fun r s₆ ⟨hr₆, he⟩ => iff_of_true hr₆ he

end Write

/-! ### Saving the vault and a session file -/

section Save

variable {X : Crates} {Y : FileCrates} {pid : Nat} {nonce : Nonce}

/-- A save of these bytes, if there are any, either keeps the file, or it is the file of the
path. -/
def Saves (path : PathBuf) (sealed : Bytes → Prop) (file : Str × Str) (s s' : Moment) : Prop :=
  Keeps file s s' ∨ ∃ bytes, sealed bytes ∧ path.file = file ∧ Replaces file bytes s s'

lemma Saves.trans {sealed : Bytes → Prop} (h : Saves path sealed file s s')
    (h' : Saves path sealed file s' s'') : Saves path sealed file s s'' := by
  rcases h with h | ⟨b, hb, hf, h⟩ <;> rcases h' with h' | ⟨b', hb', hf', h'⟩
  · exact .inl (h.trans h')
  · exact .inr ⟨b', hb', hf', h.toQuiet.replaces h'⟩
  · exact .inr ⟨b, hb, hf, h.keeps h'⟩
  · exact .inr ⟨b', hb', hf', h.toQuiet.replaces h'⟩

lemma sealVault_beforeRename {vaultKey : VaultKey} {contents : VaultContents} {e : VaultError}
    (h : sealVault X Y vaultKey nonce contents = .ok (.error e)) : e.beforeRename = true := by
  unfold sealVault encryptVault at h
  split at h
  · obtain rfl := Except.error.inj (Except.ok.inj h)
    rfl
  · obtain ⟨key, -, h⟩ := bind_eq_ok.mp h
    split at h
    · obtain rfl := Except.error.inj (Except.ok.inj h)
      rfl
    · cases h

lemma sealSession_beforeRename {vaultKey : Bytes} {contents : SessionContents}
    {e : SessionFileError} (h : sealSession X Y vaultKey nonce contents = .ok (.error e)) :
    e.beforeRename = true := by
  unfold sealSession encryptSessionBytes at h
  split at h
  · obtain rfl := Except.error.inj (Except.ok.inj h)
    rfl
  · obtain ⟨key, -, h⟩ := bind_eq_ok.mp h
    split at h
    · obtain rfl := Except.error.inj (Except.ok.inj h)
      rfl
    · cases h

/-- A save that has returned has renamed the sibling if and only if it says so. -/
lemma sealed_does {ε : Type} {x : Outcome (Except ε Bytes)} {wrap : AtomicWriteError → ε}
    {beforeRename : ε → Bool} {p : Program (Except (Stop ε) Unit)}
    (herror : ∀ e, settle x = .error e → p = .ret (.error e))
    (hok : ∀ bytes, settle x = .ok bytes →
      p = (writeAtomic path pid bytes).mapError fun e => .error (wrap e))
    (hx : ∀ e, x = .ok (.error e) → beforeRename e = true)
    (hwrap : ∀ e, beforeRename (wrap e) = e.beforeRename) (hpending : ¬s.Renamed path.file)
    (hfile : path.tmpPath pid = file → s.content file ≠ none) :
    Does (Saves path (fun bytes => x = .ok (.ok bytes)) file)
      (fun r s' => s'.Renamed path.file ↔ ∀ e, r = .error e → e.BeforeRename beforeRename = false)
      p s := by
  cases hsettle : settle x with
  | error e =>
    rw [herror e hsettle]
    refine holds_ret.mpr (iff_of_false hpending fun h => ?_)
    exact Bool.noConfusion ((settle_eq_error hsettle hx).symm.trans (h e rfl))
  | ok bytes =>
    rw [hok bytes hsettle]
    refine Holds.mapError (fun _ => rfl) ((writeAtomic_does hpending hfile).mono
      (fun s s' h => ?_) fun r s' hr => holds_ret.mpr (hr.trans ?_))
    · exact h.imp_right fun ⟨hf, h⟩ => ⟨bytes, settle_eq_ok.mp hsettle, hf, h⟩
    · cases r with
      | ok u => exact iff_of_true (fun e h => by cases h) fun e h => by cases h
      | error err => simp [Except.mapError, Stop.BeforeRename, hwrap]

lemma Saves.refl (path : PathBuf) (sealed : Bytes → Prop) (file : Str × Str) (s : Moment) :
    Saves path sealed file s s :=
  .inl (.refl file s)

theorem save_does {v : OpenVault} (hpending : ¬s.Renamed path.file)
    (hfile : path.tmpPath pid = file → s.content file ≠ none) :
    Does (Saves path (fun bytes => sealVault X Y v.vaultKey nonce v.contents = .ok (.ok bytes)) file)
      (fun r s' => s'.Renamed path.file ↔
        ∀ e, r = .error e → e.BeforeRename VaultError.beforeRename = false)
      (v.save X Y path pid nonce) s :=
  sealed_does (fun e h => by rw [OpenVault.save, h]) (fun bytes h => by rw [OpenVault.save, h])
    (fun _ => sealVault_beforeRename) (fun _ => rfl) hpending hfile

theorem saveSessionFile_does {vaultKey : VaultKey} {contents : SessionContents}
    (hpending : ¬s.Renamed path.file)
    (hfile : path.tmpPath pid = file → s.content file ≠ none) :
    Does (Saves path
        (fun bytes => sealSession X Y vaultKey.toList nonce contents = .ok (.ok bytes)) file)
      (fun r s' => s'.Renamed path.file ↔
        ∀ e, r = .error e → e.BeforeRename SessionFileError.beforeRename = false)
      (saveSessionFile X Y vaultKey path pid nonce contents) s :=
  sealed_does (fun e h => by rw [saveSessionFile, h]) (fun bytes h => by rw [saveSessionFile, h])
    (fun _ => sealSession_beforeRename) (fun _ => rfl) hpending hfile

/-- A save whose error is not of the file system has failed to seal the contents. -/
lemma saveSessionFile_format {vaultKey : VaultKey} {contents : SessionContents} :
    Does (fun _ _ => True) (fun r _ => ∀ e, r = .error (.error e) → e.isFormat = true →
        sealSession X Y vaultKey.toList nonce contents = .ok (.error e))
      (saveSessionFile X Y vaultKey path pid nonce contents) s := by
  unfold saveSessionFile
  split
  · rename_i stop hsettle
    refine holds_ret.mpr fun e h _ => ?_
    obtain rfl := Except.error.inj h
    unfold settle at hsettle
    split at hsettle
    · cases hsettle
    · rename_i hseal
      obtain rfl := Stop.error.inj (Except.error.inj hsettle)
      exact hseal
    · cases hsettle
  · refine Holds.mapError (fun _ => rfl) (Holds.any.mono (fun _ _ h => h)
      fun r s' _ => holds_ret.mpr fun e h hformat => ?_)
    cases r with
    | error err =>
      obtain rfl := Stop.error.inj (Except.error.inj h)
      cases hformat
    | ok u => cases h

end Save

end Invisibool
