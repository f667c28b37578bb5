import Invisibool.Format.Codec
import Invisibool.Store.Frame

/-!
# A save among readers

One process saves the vault while any number of others open it. The orphan scan of a reader takes
every sibling of the vault away, also the one that a save is about to rename.
-/

namespace Invisibool
open Text Process FileSystem
open Format hiding Bytes

/-- The call has created the file. -/
def creates (file : Str × Str) : (call : Call) → call.Ans → Bool
  | .disk (.createNew created), .ok _ => decide (created = file)
  | _, _ => false

def Moment.Created (s : Moment) (file : Str × Str) : Prop :=
  (s.2.any fun event => creates file event.1 event.2) = true

/-- The sibling of process `pid` is not there yet when it is to be created, and from then on no
scan finds it. -/
def Spares (path : PathBuf) (pid : Nat) (s : Moment) : Call → Prop
  | .disk (.createNew file) => file = path.tmpPath pid → s.1.disk.links.lookup file = none
  | .disk (.remove file) => file = path.tmpPath pid → s.Created file →
      s.1.disk.links.lookup file = none
  | _ => True

instance (path : PathBuf) (pid : Nat) (s : Moment) : (call : Call) → Decidable (Spares path pid s call)
  | .disk (.createNew file) => inferInstanceAs (Decidable (file = _ → _ = none))
  | .disk (.remove file) => inferInstanceAs (Decidable (file = _ → _ = true → _ = none))
  | .disk (.dirExists _) | .disk (.createDirAll _) | .disk (.write _ _) | .disk (.sync _)
  | .disk (.rename _ _ _) | .disk (.openDir _) | .disk (.syncDir _) | .disk (.openRead _)
  | .disk (.readToEnd _) | .disk (.readDir _) | .fetch | .store _ | .print _ => .isTrue trivial

/-- The world without faults, as long as the sibling is spared. -/
def sparing (path : PathBuf) (pid : Nat) : World Call Call.Ans Moment :=
  fun call s ans s' => Machine.sound.logged call s ans s' ∧ Spares path pid s call

/-- One process saves, the others open. -/
abbrev Outcomes (κ : Type) : Option κ → Type
  | none => Except (Stop VaultError) Unit
  | some _ => Except (Stop VaultError) OpenVault

def saveAndOpens {κ : Type} (X : Crates) (Y : FileCrates) (path : PathBuf) (v : OpenVault)
    (pid : Nat) (nonce : Nonce) (newKey : κ → VaultKey) : (i : Option κ) → Program (Outcomes κ i)
  | none => v.save X Y path pid nonce
  | some k => openVault X Y path (newKey k)

/-- What `Vault::open` returns if it finds these bytes. -/
def openedAs (X : Crates) (Y : FileCrates) (vaultKey : VaultKey) :
    Option Bytes → Except (Stop VaultError) OpenVault
  | none => .ok (.ofContents vaultKey .default)
  | some bytes => (settle (decryptVault X Y vaultKey bytes)).map (.ofContents vaultKey)

section Steps

variable {path : PathBuf} {pid i j : Nat} {bytes : Bytes} {slot : Option VaultKey}
  {file : Str × Str} {s s' s'' : Moment}

lemma created_append {event : Event Call Call.Ans} {m : Machine} :
    Moment.Created (m, s.2 ++ [event]) file ↔
      s.Created file ∨ creates file event.1 event.2 = true := by
  simp [Moment.Created]

lemma created_of_call {call : Call} {ans : call.Ans} (hlog : s'.2 = s.2 ++ [⟨call, ans⟩])
    (hcall : creates file call ans = false) : s'.Created file ↔ s.Created file := by
  obtain ⟨m', h'⟩ := s'
  dsimp only at hlog
  rw [hlog, created_append, hcall]
  simp

/-! ### What a step of a process is for the others -/

/-- What a step of a reader is for the process that saves; the slot is what the keychain held at
the start. -/
structure Aside (path : PathBuf) (pid : Nat) (slot : Option VaultKey) (s s' : Moment) : Prop where
  dirs : s'.1.disk.dirs = s.1.disk.dirs
  data : s'.1.disk.data = s.1.disk.data
  next : s'.1.disk.next = s.1.disk.next
  target : s'.1.disk.links.lookup path.file = s.1.disk.links.lookup path.file
  created : s'.Created (path.tmpPath pid) ↔ s.Created (path.tmpPath pid)
  sibling : s.Created (path.tmpPath pid) →
    s'.1.disk.links.lookup (path.tmpPath pid) = s.1.disk.links.lookup (path.tmpPath pid)
  keychain : ∀ key, slot = some key → s.1.keychain = some key → s'.1.keychain = some key

/-- A file that will not be written to any more. -/
structure Settled (path : PathBuf) (pid : Nat) (s : Moment) (i : Nat) : Prop where
  lt_next : i < s.1.disk.next
  apart : s.Created (path.tmpPath pid) → s.1.disk.links.lookup (path.tmpPath pid) ≠ some i

/-- What a step of any other process is for a reader. -/
structure Around (path : PathBuf) (pid : Nat) (bytes : Bytes) (slot : Option VaultKey)
    (s s' : Moment) : Prop where
  settled : ∀ i, Settled path pid s i → Settled path pid s' i ∧ s'.1.disk.data i = s.1.disk.data i
  target : s'.1.disk.links.lookup path.file = s.1.disk.links.lookup path.file ∨
    ∃ j, s'.1.disk.links.lookup path.file = some j ∧ Settled path pid s' j ∧
      (s'.1.disk.data j).bytes = bytes
  keychain : ∀ key, slot = some key → s.1.keychain = some key → s'.1.keychain = some key

lemma Aside.refl (s : Moment) : Aside path pid slot s s :=
  ⟨rfl, rfl, rfl, rfl, Iff.rfl, fun _ => rfl, fun _ _ h => h⟩

lemma Aside.trans (h : Aside path pid slot s s') (h' : Aside path pid slot s' s'') :
    Aside path pid slot s s'' where
  dirs := h'.dirs.trans h.dirs
  data := h'.data.trans h.data
  next := h'.next.trans h.next
  target := h'.target.trans h.target
  created := h'.created.trans h.created
  sibling hc := (h'.sibling (h.created.mpr hc)).trans (h.sibling hc)
  keychain key hslot hkey := h'.keychain key hslot (h.keychain key hslot hkey)

lemma Around.refl (s : Moment) : Around path pid bytes slot s s :=
  ⟨fun _ h => ⟨h, rfl⟩, .inl rfl, fun _ _ h => h⟩

lemma Around.trans (h : Around path pid bytes slot s s') (h' : Around path pid bytes slot s' s'') :
    Around path pid bytes slot s s'' where
  settled i hi := by
    obtain ⟨hi', hdata⟩ := h.settled i hi
    obtain ⟨hi'', hdata'⟩ := h'.settled i hi'
    exact ⟨hi'', hdata'.trans hdata⟩
  target := by
    rcases h'.target with hsame | hnew
    · rcases h.target with hsame' | ⟨j, hj, hsettled, hbytes⟩
      · exact .inl (hsame.trans hsame')
      · obtain ⟨hsettled', hdata⟩ := h'.settled j hsettled
        exact .inr ⟨j, hsame.trans hj, hsettled', by rw [hdata, hbytes]⟩
    · exact .inr hnew
  keychain key hslot hkey := h'.keychain key hslot (h.keychain key hslot hkey)

lemma Aside.settled (h : Aside path pid slot s s') (hi : Settled path pid s i) :
    Settled path pid s' i where
  lt_next := by
    rw [h.next]
    exact hi.lt_next
  apart hc := by
    have hc' := h.created.mp hc
    rw [h.sibling hc']
    exact hi.apart hc'

lemma Aside.around (h : Aside path pid slot s s') : Around path pid bytes slot s s' where
  settled i hi := ⟨h.settled hi, congrFun h.data i⟩
  target := .inl h.target
  keychain := h.keychain

end Steps

/-! ### A reader -/

section Reader

variable {path : PathBuf} {pid : Nat} {bytes : Bytes} {slot : Option VaultKey}
  {old : Option Bytes} {s s' : Moment}

/-- What a reader knows between its steps: the vault file is the old one or the new one, and the
key that was in the keychain still is. -/
structure Ready (path : PathBuf) (pid : Nat) (bytes : Bytes) (slot : Option VaultKey)
    (old : Option Bytes) (s : Moment) : Prop where
  keychain : ∀ key, slot = some key → s.1.keychain = some key
  target : (old = none ∧ s.1.disk.links.lookup path.file = none) ∨
    ∃ i, s.1.disk.links.lookup path.file = some i ∧ Settled path pid s i ∧
      (old = some (s.1.disk.data i).bytes ∨ (s.1.disk.data i).bytes = bytes)

lemma Ready.around (h : Ready path pid bytes slot old s) (hs : Around path pid bytes slot s s') :
    Ready path pid bytes slot old s' where
  keychain key hslot := hs.keychain key hslot (h.keychain key hslot)
  target := by
    rcases hs.target with hsame | ⟨j, hj, hsettled, hbytes⟩
    · rw [hsame]
      refine h.target.imp_right ?_
      rintro ⟨i, hi, hsettled, hbytes⟩
      obtain ⟨hsettled', hdata⟩ := hs.settled i hsettled
      exact ⟨i, hi, hsettled', by rwa [hdata]⟩
    · exact .inr ⟨j, hj, hsettled, .inr hbytes⟩

/-- The steps of a reader among other readers and the process that saves. -/
abbrev Opens (path : PathBuf) (pid : Nat) (bytes : Bytes) (slot : Option VaultKey) {α : Type}
    (post : α → Moment → Prop) (p : Program α) (s : Moment) : Prop :=
  Holds (sparing path pid) (Around path pid bytes slot) (Aside path pid slot) post p s

/-- A call that leaves the disk and the keychain. -/
lemma aside_of_idle {call : Call} {ans : call.Ans} (hdisk : s'.1.disk = s.1.disk)
    (hkey : s'.1.keychain = s.1.keychain) (hlog : s'.2 = s.2 ++ [⟨call, ans⟩])
    (hcall : ∀ file, creates file call ans = false) : Aside path pid slot s s' where
  dirs := by rw [hdisk]
  data := by rw [hdisk]
  next := by rw [hdisk]
  target := by rw [hdisk]
  created := created_of_call hlog (hcall _)
  sibling _ := by rw [hdisk]
  keychain key _ h := hkey.trans h

/-- What a reader returns at one of its steps, and that it can go on. -/
lemma Ready.perform {call : Call} {Q : call.Ans → Prop} (h : Ready path pid bytes slot old s)
    (hstep : ∀ s ans s', Ready path pid bytes slot old s → sparing path pid call s ans s' →
      Aside path pid slot s s' ∧ Q ans) :
    Opens path pid bytes slot (fun ans s' => Q ans ∧ Ready path pid bytes slot old s')
      (.perform call) s := by
  refine Holds.perform h (fun _ _ => Ready.around) (fun s ans s' hs hcall => ?_)
    fun ans s s' hs hrest => ⟨hs.1, hs.2.around hrest⟩
  obtain ⟨haside, hans⟩ := hstep s ans s' hs hcall
  exact ⟨haside, hans, hs.around haside.around⟩

lemma opens_ret {α : Type} {a : α} {Q : α → Prop} (hQ : Q a)
    (h : Ready path pid bytes slot old s) :
    Opens path pid bytes slot (fun a s' => Q a ∧ Ready path pid bytes slot old s') (.ret a) s :=
  fun _ hrest => ⟨hQ, h.around hrest⟩

lemma removeFile_opens {file : Str × Str} (hfile : file ≠ path.file)
    (h : Ready path pid bytes slot old s) :
    Opens path pid bytes slot (fun _ s' => True ∧ Ready path pid bytes slot old s')
      (removeFile file) s := by
  refine h.perform fun s ans s' _ ⟨hcall, hspares⟩ => ⟨?_, trivial⟩
  obtain ⟨d, hd, rfl⟩ := sound_disk hcall
  rw [exec_remove] at hd
  split at hd
  · rename_i hsome
    obtain ⟨rfl, rfl⟩ := Prod.mk.inj hd
    refine ⟨rfl, rfl, rfl, ?_, created_of_call rfl rfl, fun hcreated => ?_, fun _ _ h => h⟩
    · exact lookup_unlink.trans (if_neg (Ne.symm hfile))
    · -- the sibling is not there, so that it is another file
      refine lookup_unlink.trans (if_neg fun heq => ?_)
      have hnone := hspares heq.symm (heq ▸ hcreated)
      rw [hnone] at hsome
      cases hsome
  · obtain ⟨rfl, rfl⟩ := Prod.mk.inj hd
    exact aside_of_idle rfl rfl rfl fun _ => rfl

lemma removeOrphans_opens {orphans : List (Str × Str)}
    (horphans : ∀ orphan ∈ orphans, orphan ≠ path.file) (h : Ready path pid bytes slot old s) :
    Opens path pid bytes slot (fun _ s' => True ∧ Ready path pid bytes slot old s')
      (removeOrphans orphans) s := by
  induction orphans generalizing s with
  | nil => exact opens_ret trivial h
  | cons orphan orphans ih =>
    refine Holds.bind Around.refl (Holds.bind Around.refl
      ((removeFile_opens (horphans orphan List.mem_cons_self) h).mono (fun _ _ h => h)
        fun ans s₁ ⟨_, h₁⟩ => ?_))
    intro s₂ hrest
    exact ih (fun o ho => horphans o (List.mem_cons_of_mem _ ho)) (h₁.around hrest)

lemma listOrphanTmps_opens (h : Ready path pid bytes slot old s) :
    Opens path pid bytes slot
      (fun r s' => (∀ orphans, r = .ok orphans → ∀ orphan ∈ orphans, orphan ≠ path.file) ∧
        Ready path pid bytes slot old s') (listOrphanTmps path) s := by
  have hread : Opens path pid bytes slot (fun _ s' => True ∧ Ready path pid bytes slot old s')
      (readDir path.parent) s := by
    refine h.perform fun s ans s' _ ⟨hcall, _⟩ => ⟨?_, trivial⟩
    obtain ⟨d, hd, rfl⟩ := sound_disk hcall
    have hsame : d = s.1.disk := by
      cases hparent : path.parent <;> rw [hparent] at hd <;> exact (Prod.mk.inj hd).2.symm
    subst hsame
    exact aside_of_idle rfl rfl rfl fun _ => rfl
  refine Holds.bind Around.refl (hread.mono (fun _ _ h => h) fun ans s₁ ⟨_, h₁⟩ => ?_)
  cases ans with
  | error e =>
    dsimp only
    split
    · refine opens_ret (fun orphans horphans orphan horphan => ?_) h₁
      obtain rfl := Except.ok.inj horphans
      cases horphan
    · exact opens_ret (fun orphans horphans => by cases horphans) h₁
  | ok names =>
    refine opens_ret (fun orphans horphans orphan horphan => ?_) h₁
    obtain rfl := Except.ok.inj horphans
    obtain ⟨name, hname, rfl⟩ := List.mem_map.mp horphan
    -- an orphan has a longer name
    have hlen := (List.isPrefixOf_iff_prefix.mp (List.mem_filter.mp hname).2).length_le
    have hmark : PathBuf.tmpMark.length = 5 := by decide
    intro heq
    rw [(Prod.mk.inj heq).2, List.length_append, hmark] at hlen
    omega

lemma scanOrphans_opens (h : Ready path pid bytes slot old s) :
    Opens path pid bytes slot (fun _ s' => True ∧ Ready path pid bytes slot old s')
      (scanOrphans path) s := by
  refine Holds.bind Around.refl ((listOrphanTmps_opens h).mono (fun _ _ h => h) ?_)
  intro r s₁ ⟨horphans, h₁⟩
  cases r with
  | error e => exact opens_ret trivial h₁
  | ok orphans => exact removeOrphans_opens (horphans orphans rfl) h₁

/-- The key that a reader comes to is the one that was in the keychain, if there was one. -/
lemma fetchOrCreate_opens {newKey : VaultKey} (h : Ready path pid bytes slot old s) :
    Opens path pid bytes slot
      (fun r s' => (∃ vaultKey, r = .ok vaultKey ∧ ∀ key, slot = some key → vaultKey = key) ∧
        Ready path pid bytes slot old s') (fetchOrCreate newKey) s := by
  have hfetch : Opens path pid bytes slot
      (fun r s' => (∃ found, r = .ok found ∧ ∀ key, slot = some key → found = some key) ∧
        Ready path pid bytes slot old s') fetch s := by
    refine h.perform fun s ans s' hs ⟨⟨hcall, hlog⟩, _⟩ => ?_
    obtain ⟨rfl, hm⟩ := Prod.mk.inj hcall
    refine ⟨aside_of_idle (by rw [← hm]) (by rw [← hm]) hlog fun _ => rfl, _, rfl, ?_⟩
    exact hs.keychain
  refine Holds.andThen Around.refl (hfetch.mono (fun _ _ h => h) ?_)
  rintro _ s₁ ⟨⟨found, rfl, hfound⟩, h₁⟩
  cases found with
  | some existing =>
    refine opens_ret ⟨existing, rfl, fun key hslot => ?_⟩ h₁
    exact Option.some.inj (hfound key hslot)
  | none =>
    have hslot : ∀ key, slot ≠ some key := fun key hslot => by cases hfound key hslot
    have hstore : Opens path pid bytes slot
        (fun r s' => r = .ok () ∧ Ready path pid bytes slot old s') (store newKey) s₁ := by
      refine h₁.perform fun s ans s' _ ⟨⟨hcall, hlog⟩, _⟩ => ?_
      obtain ⟨rfl, hm⟩ := Prod.mk.inj hcall
      have hdisk : s'.1.disk = s.1.disk := by rw [← hm]
      refine ⟨⟨?_, ?_, ?_, ?_, created_of_call hlog rfl, fun _ => ?_, fun key h => ?_⟩, rfl⟩
      · rw [hdisk]
      · rw [hdisk]
      · rw [hdisk]
      · rw [hdisk]
      · rw [hdisk]
      · exact absurd h (hslot key)
    refine Holds.andThen Around.refl (hstore.mono (fun _ _ h => h) ?_)
    rintro _ s₂ ⟨rfl, h₂⟩
    exact opens_ret ⟨newKey, rfl, fun key h => absurd h (hslot key)⟩ h₂

/-- The file that a reader has opened is the old one or the new one. -/
def Found (path : PathBuf) (pid : Nat) (bytes : Bytes) (old : Option Bytes)
    (ans : Except IoError Nat) (s : Moment) : Prop :=
  match ans with
  | .ok i => Settled path pid s i ∧
      (old = some (s.1.disk.data i).bytes ∨ (s.1.disk.data i).bytes = bytes)
  | .error e => e.kind = .notFound ∧ old = none

lemma Found.around {ans : Except IoError Nat} (h : Found path pid bytes old ans s)
    (hs : Around path pid bytes slot s s') : Found path pid bytes old ans s' := by
  cases ans with
  | error e => exact h
  | ok i =>
    obtain ⟨hsettled, hbytes⟩ := h
    obtain ⟨hsettled', hdata⟩ := hs.settled i hsettled
    exact ⟨hsettled', by rwa [hdata]⟩

lemma openRead_opens (h : Ready path pid bytes slot old s) :
    Opens path pid bytes slot (Found path pid bytes old) (openRead path.file) s := by
  refine Holds.perform h (fun _ _ => Ready.around) (fun s ans s' hs ⟨hcall, _⟩ => ?_)
    fun ans s s' => Found.around
  obtain ⟨d, hd, rfl⟩ := sound_disk hcall
  rw [exec_openRead] at hd
  rcases hs.target with ⟨hold, hnone⟩ | ⟨i, hi, hsettled, hbytes⟩
  · rw [hnone] at hd
    obtain ⟨rfl, rfl⟩ := Prod.mk.inj hd
    exact ⟨aside_of_idle rfl rfl rfl fun _ => rfl, rfl, hold⟩
  · rw [hi] at hd
    obtain ⟨rfl, rfl⟩ := Prod.mk.inj hd
    have haside : Aside path pid slot s (s.1, s.2 ++ [⟨.disk (.openRead path.file), .ok i⟩]) :=
      aside_of_idle rfl rfl rfl fun _ => rfl
    exact ⟨haside, haside.settled hsettled, hbytes⟩

/-- A reader finds the old bytes or the new ones, and never a part of them. -/
lemma readIfExists_opens (h : Ready path pid bytes slot old s) :
    Opens path pid bytes slot
      (fun r _ => ∃ found, r = .ok found ∧ (found = old ∨ found = some bytes))
      (readIfExists path) s := by
  refine Holds.bind Around.refl ((openRead_opens h).mono (fun _ _ h => h) fun ans s₁ hfound => ?_)
  cases ans with
  | error e =>
    obtain ⟨hkind, hold⟩ := hfound
    dsimp only
    rw [if_pos hkind]
    exact fun _ _ => ⟨none, rfl, .inl hold.symm⟩
  | ok i =>
    have hread : Opens path pid bytes slot
        (fun r _ => ∃ buf, r = .ok buf ∧ (old = some buf ∨ buf = bytes)) (readToEnd i) s₁ := by
      refine Holds.perform (P := Found path pid bytes old (.ok i)) hfound
        (fun _ _ => Found.around) (fun s ans s' hs ⟨hcall, _⟩ => ?_) fun _ _ _ h _ => h
      obtain ⟨d, hd, rfl⟩ := sound_disk hcall
      obtain ⟨rfl, rfl⟩ := Prod.mk.inj hd
      exact ⟨aside_of_idle rfl rfl rfl fun _ => rfl, _, rfl, hs.2⟩
    refine Holds.andThen Around.refl (hread.mono (fun _ _ h => h) ?_)
    rintro _ s₂ ⟨buf, rfl, hbuf⟩
    exact fun _ _ => ⟨some buf, rfl, hbuf.imp Eq.symm (congrArg some)⟩

/-- Every reader returns what `Vault::open` makes of the old file or of the new one. -/
theorem openVault_opens {X : Crates} {Y : FileCrates} {newKey : VaultKey}
    (h : Ready path pid bytes slot old s) :
    Opens path pid bytes slot
      (fun r _ => ∃ vaultKey, (∀ key, slot = some key → vaultKey = key) ∧
        (r = openedAs X Y vaultKey old ∨ r = openedAs X Y vaultKey (some bytes)))
      (openVault X Y path newKey) s := by
  refine Holds.bind Around.refl ((scanOrphans_opens h).mono (fun _ _ h => h) ?_)
  intro _ s₁ ⟨_, h₁⟩
  refine Holds.andThen Around.refl (Holds.mapError Around.refl
    ((fetchOrCreate_opens h₁).mono (fun _ _ h => h) ?_))
  rintro _ s₂ ⟨⟨vaultKey, rfl, hkey⟩, h₂⟩
  intro s₃ hrest
  refine Holds.andThen Around.refl (Holds.mapError Around.refl
    ((readIfExists_opens (h₂.around hrest)).mono (fun _ _ h => h) ?_))
  rintro _ s₄ ⟨found, rfl, hfound⟩
  intro s₅ _
  have hr := hfound.imp (congrArg (openedAs X Y vaultKey)) (congrArg (openedAs X Y vaultKey))
  cases found with
  | none => exact fun _ _ => ⟨vaultKey, hkey, hr⟩
  | some buf => exact fun _ _ => ⟨vaultKey, hkey, hr⟩

end Reader

/-! ### The process that saves -/

section Writer

variable {path : PathBuf} {pid i : Nat} {bytes : Bytes} {body : Body} {slot : Option VaultKey}
  {s s' : Moment}

/-- The steps of the process that saves, among the readers. -/
abbrev Replacing (path : PathBuf) (pid : Nat) (bytes : Bytes) (slot : Option VaultKey) {α : Type}
    (post : α → Moment → Prop) (p : Program α) (s : Moment) : Prop :=
  Holds (sparing path pid) (Aside path pid slot) (Around path pid bytes slot) post p s

/-- The sibling is there, under a number that no other file has, and this is its body. -/
structure Pending (path : PathBuf) (pid i : Nat) (body : Body) (s : Moment) : Prop where
  dir : s.1.disk.dirs path.dir = true
  created : s.Created (path.tmpPath pid)
  linked : s.1.disk.links.lookup (path.tmpPath pid) = some i
  written : s.1.disk.data i = body

/-- The sibling has become the vault file. -/
structure Done (path : PathBuf) (bytes : Bytes) (s : Moment) : Prop where
  dir : s.1.disk.dirs path.dir = true
  content : s.content path.file = some ⟨bytes, true⟩

lemma Pending.aside (h : Pending path pid i body s) (hs : Aside path pid slot s s') :
    Pending path pid i body s' where
  dir := by rw [hs.dirs]; exact h.dir
  created := hs.created.mpr h.created
  linked := (hs.sibling h.created).trans h.linked
  written := by rw [hs.data]; exact h.written

lemma Done.aside (h : Done path bytes s) (hs : Aside path pid slot s s') : Done path bytes s' where
  dir := by rw [hs.dirs]; exact h.dir
  content := by
    unfold Moment.content Disk.content
    rw [hs.target, hs.data]
    exact h.content

/-- A call that leaves the links and the data. -/
lemma around_of_links {call : Call} {ans : call.Ans} (hlinks : s'.1.disk.links = s.1.disk.links)
    (hdata : s'.1.disk.data = s.1.disk.data) (hnext : s'.1.disk.next = s.1.disk.next)
    (hkey : s'.1.keychain = s.1.keychain) (hlog : s'.2 = s.2 ++ [⟨call, ans⟩])
    (hcall : ∀ file, creates file call ans = false) : Around path pid bytes slot s s' where
  settled j hj := by
    refine ⟨⟨by rw [hnext]; exact hj.lt_next, fun hc => ?_⟩, congrFun hdata j⟩
    rw [hlinks]
    exact hj.apart ((created_of_call hlog (hcall _)).mp hc)
  target := .inl (by rw [hlinks])
  keychain key _ h := hkey.trans h

lemma ensureParent_replacing (hbare : path.bare = false) : Replacing path pid bytes slot
    (fun r s' => r = .ok () ∧ s'.1.disk.dirs path.dir = true) (ensureParent path) s := by
  have hparent : path.parent = some path.dir := by simp [PathBuf.parent, hbare]
  have hexists : Replacing path pid bytes slot
      (fun found s' => found = true → s'.1.disk.dirs path.dir = true) (pathExists path.parent) s := by
    refine Holds.perform (P := fun _ => True) trivial (fun _ _ _ _ => trivial)
      (fun s ans s' _ ⟨hcall, _⟩ => ?_) fun ans s s' h hs hfound => ?_
    · obtain ⟨d, hd, rfl⟩ := sound_disk hcall
      rw [hparent] at hd
      obtain ⟨rfl, rfl⟩ := Prod.mk.inj hd
      exact ⟨around_of_links rfl rfl rfl rfl rfl fun _ => rfl, fun h => h⟩
    · rw [hs.dirs]
      exact h hfound
  refine Holds.bind Aside.refl (hexists.mono (fun _ _ h => h) fun found s₁ hfound => ?_)
  split
  · rename_i h
    intro s₂ hs
    rw [hs.dirs]
    exact ⟨rfl, hfound h⟩
  · refine Holds.mapError Aside.refl (Holds.perform (P := fun _ => True) trivial
      (fun _ _ _ _ => trivial) (fun s ans s' _ ⟨hcall, _⟩ => ?_) fun ans s s' h hs => ?_)
    · obtain ⟨d, hd, rfl⟩ := sound_disk hcall
      rw [hparent] at hd
      obtain ⟨rfl, rfl⟩ := Prod.mk.inj hd
      refine ⟨around_of_links rfl rfl rfl rfl rfl fun _ => rfl, fun s'' hs => ⟨rfl, ?_⟩⟩
      rw [hs.dirs]
      exact Function.update_self _ _ _
    · exact h.stable (fun _ _ _ => Aside.trans) hs

lemma createNew_replacing (hdir : s.1.disk.dirs path.dir = true) : Replacing path pid bytes slot
    (fun r s' => ∃ i, r = .ok i ∧ Pending path pid i ⟨[], false⟩ s')
    (createNew (path.tmpPath pid)) s := by
  refine Holds.perform (P := fun s => s.1.disk.dirs path.dir = true) hdir
    (fun s s' h hs => by rw [hs.dirs]; exact h)
    (fun s ans s' hdir ⟨hcall, hspares⟩ => ?_) ?_
  · obtain ⟨d, hd, rfl⟩ := sound_disk hcall
    have hfree := hspares rfl
    have hdir' : s.1.disk.dirs (path.tmpPath pid).1 = true := hdir
    rw [exec_createNew, hfree, if_neg (by simp), if_pos hdir'] at hd
    obtain ⟨rfl, rfl⟩ := Prod.mk.inj hd
    have hcreates : creates (path.tmpPath pid) (.disk (.createNew (path.tmpPath pid)))
        (.ok s.1.disk.next) = true := decide_eq_true rfl
    have hlinked : (s.1.disk.create (path.tmpPath pid)).links.lookup (path.tmpPath pid) =
        some s.1.disk.next := by rw [lookup_create, if_pos rfl]
    refine ⟨⟨fun j hj => ⟨⟨?_, fun _ heq => ?_⟩, ?_⟩, .inl ?_, fun _ _ h => h⟩, _, rfl, hdir,
      created_append.mpr (.inr hcreates), hlinked, Function.update_self _ _ _⟩
    · exact Nat.lt_succ_of_lt hj.lt_next
    · obtain rfl := Option.some.inj (hlinked.symm.trans heq)
      exact hj.lt_next.false
    · exact Function.update_of_ne hj.lt_next.ne _ _
    · exact lookup_create.trans (if_neg (path.tmpPath_ne_file pid).symm)
  · rintro ans s s' ⟨i, hans, h⟩ hs
    exact ⟨i, hans, h.aside hs⟩

/-- A call that changes the body of the sibling changes nothing that a reader has open. -/
lemma Pending.update {d : Disk Str Str} {body' : Body} (op : Op Str Str) (ans : op.Ans)
    (h : Pending path pid i body s) (hdirs : d.dirs = s.1.disk.dirs)
    (hlinks : d.links = s.1.disk.links) (hnext : d.next = s.1.disk.next)
    (hdata : d.data = Function.update s.1.disk.data i body')
    (hop : ∀ file, creates file (.disk op) ans = false) :
    Around path pid bytes slot s ({ s.1 with disk := d }, s.2 ++ [⟨.disk op, ans⟩]) ∧
      Pending path pid i body' ({ s.1 with disk := d }, s.2 ++ [⟨.disk op, ans⟩]) := by
  have hcreated : ∀ file, Moment.Created ({ s.1 with disk := d }, s.2 ++ [⟨.disk op, ans⟩]) file ↔
      s.Created file := fun file => created_of_call rfl (hop file)
  refine ⟨⟨fun j hj => ⟨⟨?_, fun hc => ?_⟩, ?_⟩, .inl ?_, fun _ _ h => h⟩,
    ⟨?_, (hcreated _).mpr h.created, ?_, ?_⟩⟩
  · exact hnext ▸ hj.lt_next
  · dsimp only
    rw [hlinks]
    exact hj.apart ((hcreated _).mp hc)
  · have hne : j ≠ i := fun heq => hj.apart h.created (heq ▸ h.linked)
    exact (congrFun hdata j).trans (Function.update_of_ne hne _ _)
  · exact congrArg (AList.lookup path.file) hlinks
  · exact (congrFun hdirs _).trans h.dir
  · exact (congrArg (AList.lookup _) hlinks).trans h.linked
  · exact (congrFun hdata i).trans (Function.update_self _ _ _)

lemma writeAll_replacing (h : Pending path pid i body s) : Replacing path pid bytes slot
    (fun r s' => r = .ok () ∧ Pending path pid i ⟨body.bytes ++ bytes, false⟩ s')
    (writeAll i bytes) s := by
  refine Holds.perform h (fun _ _ => Pending.aside) (fun s ans s' h ⟨hcall, _⟩ => ?_)
    fun _ _ _ ⟨hans, h⟩ hs => ⟨hans, h.aside hs⟩
  obtain ⟨d, hd, rfl⟩ := sound_disk hcall
  obtain ⟨rfl, rfl⟩ := Prod.mk.inj hd
  obtain ⟨haround, hpending⟩ := h.update (d := s.1.disk.append i bytes) (.write i bytes) (.ok ())
    rfl rfl rfl rfl fun _ => rfl
  rw [h.written] at hpending
  exact ⟨haround, rfl, hpending⟩

lemma syncAll_replacing (h : Pending path pid i body s) : Replacing path pid bytes slot
    (fun r s' => r = .ok () ∧ Pending path pid i ⟨body.bytes, true⟩ s') (syncAll i) s := by
  refine Holds.perform h (fun _ _ => Pending.aside) (fun s ans s' h ⟨hcall, _⟩ => ?_)
    fun _ _ _ ⟨hans, h⟩ hs => ⟨hans, h.aside hs⟩
  obtain ⟨d, hd, rfl⟩ := sound_disk hcall
  obtain ⟨rfl, rfl⟩ := Prod.mk.inj hd
  obtain ⟨haround, hpending⟩ := h.update (d := s.1.disk.flush i) (.sync i) (.ok ()) rfl rfl rfl rfl
    fun _ => rfl
  rw [h.written] at hpending
  exact ⟨haround, rfl, hpending⟩

lemma rename_replacing (h : Pending path pid i ⟨bytes, true⟩ s) : Replacing path pid bytes slot
    (fun r s' => r = .ok () ∧ Done path bytes s')
    (rename path.dir (path.tmpName pid) path.name) s := by
  refine Holds.perform h (fun _ _ => Pending.aside) (fun s ans s' h ⟨hcall, _⟩ => ?_)
    fun _ _ _ ⟨hans, h⟩ hs => ⟨hans, h.aside hs⟩
  obtain ⟨d, hd, rfl⟩ := sound_disk hcall
  have hlinked : s.1.disk.links.lookup (path.dir, path.tmpName pid) = some i := h.linked
  rw [exec_rename, hlinked, if_pos (Option.isSome_some)] at hd
  obtain ⟨rfl, rfl⟩ := Prod.mk.inj hd
  have hsibling : (s.1.disk.relink path.file (path.tmpPath pid)).links.lookup (path.tmpPath pid) =
      none := by
    rw [lookup_relink h.linked, if_neg (path.tmpPath_ne_file pid), if_pos rfl]
  have htarget : (s.1.disk.relink path.file (path.tmpPath pid)).links.lookup path.file =
      some i := by
    rw [lookup_relink h.linked, if_pos rfl]
  have hsettled : ∀ j, j < s.1.disk.next → Settled path pid
      ({ s.1 with disk := s.1.disk.relink path.file (path.tmpPath pid) },
        s.2 ++ [⟨.disk (.rename path.dir (path.tmpName pid) path.name), .ok ()⟩]) j :=
    fun j hj => ⟨hj, fun _ heq => by cases hsibling.symm.trans heq⟩
  have hbytes : (s.1.disk.data i).bytes = bytes := by rw [h.written]
  refine ⟨⟨fun j hj => ⟨hsettled j hj.lt_next, rfl⟩, .inr ⟨i, htarget, ?_, hbytes⟩,
    fun _ _ h => h⟩, rfl, h.dir, ?_⟩
  · exact hsettled i (s.1.disk.lt_next _ i h.linked)
  · refine (content_relink_target h.linked).trans ?_
    rw [h.written]

lemma fsyncParent_replacing (hbare : path.bare = false) (h : Done path bytes s) :
    Replacing path pid bytes slot (fun r s' => r = .ok () ∧ Done path bytes s')
      (((openDir path.parent).mapError AtomicWriteError.atParentFsync).andThen fun dir =>
        (syncDir dir).mapError .atParentFsync) s := by
  have hparent : path.parent = some path.dir := by simp [PathBuf.parent, hbare]
  have hopen : Replacing path pid bytes slot (fun r s' => r = .ok path.dir ∧ Done path bytes s')
      (openDir path.parent) s := by
    refine Holds.perform h (fun _ _ => Done.aside) (fun s ans s' h ⟨hcall, _⟩ => ?_)
      fun _ _ _ ⟨hans, h⟩ hs => ⟨hans, h.aside hs⟩
    obtain ⟨d, hd, rfl⟩ := sound_disk hcall
    rw [hparent] at hd
    obtain ⟨hans, rfl⟩ := Prod.mk.inj hd
    exact ⟨around_of_links rfl rfl rfl rfl rfl fun _ => rfl, hans.symm.trans (if_pos h.dir),
      h.dir, h.content⟩
  refine Holds.andThen Aside.refl (Holds.mapError Aside.refl (hopen.mono (fun _ _ h => h) ?_))
  rintro _ s₁ ⟨rfl, h₁⟩
  intro s₂ hs
  have hsync : Replacing path pid bytes slot (fun r s' => r = .ok () ∧ Done path bytes s')
      (syncDir path.dir) s₂ := by
    refine Holds.perform (h₁.aside hs) (fun _ _ => Done.aside) (fun s ans s' h ⟨hcall, _⟩ => ?_)
      fun _ _ _ ⟨hans, h⟩ hs => ⟨hans, h.aside hs⟩
    obtain ⟨d, hd, rfl⟩ := sound_disk hcall
    obtain ⟨rfl, rfl⟩ := Prod.mk.inj hd
    exact ⟨around_of_links rfl rfl rfl rfl rfl fun _ => rfl, rfl, h.dir, h.content⟩
  refine Holds.mapError Aside.refl (hsync.mono (fun _ _ h => h) ?_)
  rintro _ s₃ ⟨rfl, h₃⟩
  exact fun s₄ hs => ⟨rfl, h₃.aside hs⟩

/-- As long as its sibling is spared, a write succeeds, whatever the readers do. -/
theorem writeAtomic_replacing (hbare : path.bare = false) : Replacing path pid bytes slot
    (fun r s' => r = .ok () ∧ Done path bytes s') (writeAtomic path pid bytes) s := by
  refine Holds.andThen Aside.refl ((ensureParent_replacing hbare).mono (fun _ _ h => h) ?_)
  rintro _ s₁ ⟨rfl, hdir⟩
  refine Holds.andThen Aside.refl (Holds.mapError Aside.refl
    ((createNew_replacing hdir).mono (fun _ _ h => h) ?_))
  rintro _ s₂ ⟨i, rfl, h₂⟩
  intro s₂' hs₂
  refine Holds.andThen Aside.refl (Holds.mapError Aside.refl
    ((writeAll_replacing (h₂.aside hs₂)).mono (fun _ _ h => h) ?_))
  rintro _ s₃ ⟨rfl, h₃⟩
  intro s₃' hs₃
  refine Holds.andThen Aside.refl (Holds.mapError Aside.refl
    ((syncAll_replacing (h₃.aside hs₃)).mono (fun _ _ h => h) ?_))
  rintro _ s₄ ⟨rfl, h₄⟩
  intro s₄' hs₄
  refine Holds.andThen Aside.refl (Holds.mapError Aside.refl
    ((rename_replacing (h₄.aside hs₄)).mono (fun _ _ h => h) ?_))
  rintro _ s₅ ⟨rfl, h₅⟩
  exact fun s₅' hs₅ => fsyncParent_replacing hbare (h₅.aside hs₅)

end Writer

/-! ### All of them -/

section Pool

variable {κ : Type} (path : PathBuf) (pid : Nat) (bytes : Bytes) (slot : Option VaultKey)

def relies : Option κ → Moment → Moment → Prop
  | none => Aside path pid slot
  | some _ => Around path pid bytes slot

def guarantees : Option κ → Moment → Moment → Prop
  | none => Around path pid bytes slot
  | some _ => Aside path pid slot

/-- The save has replaced the file; a reader has seen all of the old file or all of the new one. -/
def Returns (X : Crates) (Y : FileCrates) (old : Option Bytes) :
    (i : Option κ) → Outcomes κ i → Moment → Prop
  | none => fun r s => r = .ok () ∧ s.content path.file = some ⟨bytes, true⟩
  | some _ => fun r _ => ∃ vaultKey, (∀ key, slot = some key → vaultKey = key) ∧
      (r = openedAs X Y vaultKey old ∨ r = openedAs X Y vaultKey (some bytes))

variable {path pid bytes slot} {X : Crates} {Y : FileCrates} {v : OpenVault} {nonce : Nonce}
  {newKey : κ → VaultKey} {m : Machine} {s : Moment}

lemma relies_of_guarantees (i j : Option κ) (s s' : Moment) (hij : i ≠ j)
    (h : guarantees path pid bytes slot j s s') : relies path pid bytes slot i s s' := by
  cases i with
  | none =>
    cases j with
    | none => exact absurd rfl hij
    | some k => exact h
  | some k =>
    cases j with
    | none => exact h
    | some k' => exact Aside.around h

/-- Before any call has been answered, nothing stands in the way of a reader. -/
lemma ready_start : Ready path pid bytes m.keychain ((m.disk.content path.file).map Body.bytes)
    (m, []) := by
  refine ⟨fun _ h => h, ?_⟩
  unfold Disk.content
  cases hlook : m.disk.links.lookup path.file with
  | none => exact .inl ⟨rfl, rfl⟩
  | some i => exact .inr ⟨i, rfl, ⟨m.disk.lt_next _ i hlook, fun hc => by cases hc⟩, .inl rfl⟩

lemma save_replacing (hbare : path.bare = false)
    (hseal : sealVault X Y v.vaultKey nonce v.contents = .ok (.ok bytes)) :
    Replacing path pid bytes slot
      (fun r s' => r = .ok () ∧ s'.content path.file = some ⟨bytes, true⟩)
      (v.save X Y path pid nonce) s := by
  unfold OpenVault.save
  rw [settle_eq_ok.mpr hseal]
  refine Holds.mapError Aside.refl ((writeAtomic_replacing hbare).mono (fun _ _ h => h) ?_)
  rintro _ s₁ ⟨rfl, hdone⟩
  exact fun s₂ hs => ⟨rfl, (hdone.aside hs).content⟩

/-- As long as no scan takes the sibling away between its creation and the rename, the save
succeeds, and every reader sees the old vault file or the new one. -/
theorem save_among_readers [DecidableEq κ] (hbare : path.bare = false)
    (hseal : sealVault X Y v.vaultKey nonce v.contents = .ok (.ok bytes))
    {ps : (i : Option κ) → Program (Outcomes κ i)}
    (hrun : Interleaves (fun _ => sparing path pid)
      (saveAndOpens X Y path v pid nonce newKey) (m, []) ps s) (i : Option κ) (r : Outcomes κ i)
    (hr : ps i = .ret r) : Returns path bytes m.keychain X Y
      ((m.disk.content path.file).map Body.bytes) i r s := by
  have hrefl : ∀ (i : Option κ) s, relies path pid bytes m.keychain i s s := fun i s => by
    cases i with
    | none => exact Aside.refl s
    | some k => exact Around.refl s
  have htrans : ∀ (i : Option κ) s s' s'', relies path pid bytes m.keychain i s s' →
      relies path pid bytes m.keychain i s' s'' → relies path pid bytes m.keychain i s s'' :=
    fun i s s' s'' => by
      cases i with
      | none => exact Aside.trans
      | some k => exact Around.trans
  have hall : ∀ i, Holds (sparing path pid) (relies path pid bytes m.keychain i)
      (guarantees path pid bytes m.keychain i)
      (Returns path bytes m.keychain X Y ((m.disk.content path.file).map Body.bytes) i)
      (saveAndOpens X Y path v pid nonce newKey i) (m, []) := fun i => by
    cases i with
    | none => exact save_replacing hbare hseal
    | some k => exact openVault_opens ready_start
  have hends := hrun.holds hrefl htrans relies_of_guarantees hall i
  rw [hr] at hends
  exact hends s (hrefl i s)

/-! ### A save and one reader -/

/-- The machine without faults, with its history. -/
def Machine.record (call : Call) (s : Moment) : call.Ans × Moment :=
  ((Machine.exec call s.1).1,
    (Machine.exec call s.1).2, s.2 ++ [⟨call, (Machine.exec call s.1).1⟩])

def emptyVault : OpenVault := ⟨⟨Vector.replicate 32 0, []⟩, 1⟩

def emptyVaultFiles : FileCrates :=
  .ofTables .padding [(VaultContents.default, sampleVaultText)] []

def emptyVaultPath : PathBuf := ⟨"home".toList, false, "vault".toList⟩

/-- No vault yet, but a key. -/
def emptyMachine : Machine := ⟨Disk.empty fun _ => true, some (Vector.replicate 32 0), []⟩

def emptyVaultBytes : Bytes :=
  match sealVault Crates.reference emptyVaultFiles (Vector.replicate 32 0)
      (Vector.replicate 24 0) emptyVault.contents with
  | .ok (.ok bytes) => bytes
  | _ => []

def emptyVaultPool : (i : Option Unit) → Program (Outcomes Unit i) :=
  saveAndOpens Crates.reference emptyVaultFiles emptyVaultPath emptyVault 7 (Vector.replicate 24 0)
    fun _ => Vector.replicate 32 0

/-- The reader lists and removes what the save has created, and the rename fails. -/
theorem save_broken_by_reader : ∃ ps, ∃ s : Moment,
    Interleaves (fun _ => Machine.sound.logged) emptyVaultPool (emptyMachine, []) ps s ∧
      ps none = .ret (.error (.error (.atomicWrite (.atRename .notFound)))) ∧
      s.content emptyVaultPath.file = none :=
  ⟨_, _, interleaves_schedule Machine.record (fun _ _ => true) (fun _ _ _ _ => ⟨rfl, rfl⟩)
    (List.replicate 2 none ++ List.replicate 4 (some ()) ++ List.replicate 3 none), by rfl, by rfl⟩

/-- A run in which the reader lists what the save has created, and removes it too late. -/
def lateScan : ((i : Option Unit) → Program (Outcomes Unit i)) × Moment :=
  (List.replicate 2 none ++ [some ()] ++ List.replicate 5 none ++ List.replicate 4 (some ())).foldl
    (advance Machine.record fun call s => decide (Spares emptyVaultPath 7 s call))
    (emptyVaultPool, (emptyMachine, []))

theorem save_among_readers_late : Returns emptyVaultPath emptyVaultBytes
    (some (Vector.replicate 32 0)) Crates.reference emptyVaultFiles none (none : Option Unit)
    (.ok ()) lateScan.2 :=
  save_among_readers (by rfl) (by rfl) (interleaves_schedule Machine.record _
    (fun _ _ _ h => ⟨⟨rfl, rfl⟩, of_decide_eq_true h⟩) _) none (.ok ()) (by rfl)

end Pool

end Invisibool
