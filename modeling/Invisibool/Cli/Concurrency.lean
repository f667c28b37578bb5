import Invisibool.Cli.Alongside
import Invisibool.Store.Readers

/-!
# Commands at the same time

No lock keeps commands on one vault apart, so that a change is lost when another command has read
the file before it was made. But whatever becomes of the single commands, the vault file is at
every moment what some of them, one after the other, make of the vault.
-/

namespace Invisibool
open Text Process FileSystem
open Format hiding Bytes

section Steps

variable {ι : Type} {X : Crates} {Y : FileCrates} {path : PathBuf} {procs : ι → VaultProcess}
  {v₀ v : OpenVault} {who : Option Nat} {pid i : Nat} {s s' s'' : Moment}

/-! ### Replacing the vault file -/

/-- What process `pid` knows of the file that it writes. -/
structure Draft (X : Crates) (Y : FileCrates) (path : PathBuf) (procs : ι → VaultProcess)
    (v₀ : OpenVault) (pid i : Nat) (body : Body) (s : Moment) : Prop
    extends Early X Y path procs v₀ (some pid) s where
  began : s.Began (path.tmpPath pid) i
  written : s.1.disk.data i = body
  sibling : ∀ j, s.1.disk.links.lookup (path.tmpPath pid) = some j → j = i

/-- Whether process `pid` has come to its rename. -/
structure Reported (X : Crates) (Y : FileCrates) (path : PathBuf) (procs : ι → VaultProcess)
    (v₀ : OpenVault) (pid : Nat) (landed : Bool) (s : Moment) : Prop where
  common : Common X Y path procs v₀ s
  landed : s.Landed path pid ↔ landed = true

section Writer

variable {body body' : Body} {bytes : Bytes} {landed : Bool}

/-- A file that process `pid` has begun, no other process has. -/
lemma Common.began_unique {pid' : Nat} (h : Common X Y path procs v₀ s)
    (hbegan : s.Began (path.tmpPath pid) i) (hbegan' : s.Began (path.tmpPath pid') i) :
    pid' = pid :=
  PathBuf.tmpPath_inj (h.unique _ _ i hbegan' hbegan)

lemma Draft.alongside (h : Draft X Y path procs v₀ pid i body s)
    (hs : Alongside X Y path procs v₀ (some pid) s s') : Draft X Y path procs v₀ pid i body s' where
  toEarly := h.toEarly.alongside hs
  began := hs.history _ h.began
  written := by
    refine (hs.data i (h.common.lt_next _ i h.began) fun pid' hne hbegan => ?_).trans h.written
    exact absurd (congrArg some (h.common.began_unique h.began hbegan).symm) hne
  sibling j hlook := h.sibling j (hs.sibling pid j rfl hlook)

lemma Reported.alongside (h : Reported X Y path procs v₀ pid landed s)
    (hs : Alongside X Y path procs v₀ (some pid) s s') :
    Reported X Y path procs v₀ pid landed s' where
  common := hs.common h.common
  landed := ⟨fun hl => h.landed.mp (hs.landed pid rfl hl), fun hl => hs.history _ (h.landed.mpr hl)⟩

lemma Early.reported (h : Early X Y path procs v₀ (some pid) s) (hlanded : landed = false) :
    Reported X Y path procs v₀ pid landed s :=
  ⟨h.common, iff_of_false (h.pending pid rfl) (by rw [hlanded]; exact Bool.noConfusion)⟩

lemma among_reported {α : Type} {a : α} {report : α → Bool}
    (h : Reported X Y path procs v₀ pid (report a) s) :
    Among X Y path procs v₀ (some pid) (fun a s' => Reported X Y path procs v₀ pid (report a) s')
      (.ret a) s :=
  among_ret h fun _ _ => Reported.alongside

lemma faulty_createDirAll_next {dir : Option Str} {d d' : Disk Str Str} {ans : Except IoError Unit}
    (h : FileSystem.faulty (.createDirAll dir) d ans d') : d'.next = d.next := by
  obtain h | ⟨message, -, rfl⟩ := h
  · obtain rfl := (Prod.mk.inj h).2
    cases dir <;> rfl
  · rfl

/-- A call that leaves the files alone. -/
lemma idle_among {P : Moment → Prop} {op : Op Str Str} (hP : P s)
    (hstable : ∀ s s', P s → Alongside X Y path procs v₀ who s s' → P s')
    (hop : ∀ d ans d', FileSystem.faulty op d ans d' →
      d'.links = d.links ∧ d'.data = d.data ∧ d'.next = d.next)
    (hplain : ∀ ans, Plain path (.disk op) ans) :
    Among X Y path procs v₀ who (fun _ s' => P s') (.perform (Call.disk op)) s := by
  refine Holds.perform hP hstable (fun s ans s' hs hcall => ?_) fun _ => hstable
  obtain ⟨d, hd, rfl⟩ := exists_disk hcall
  obtain ⟨hlinks, hdata, hnext⟩ := hop _ _ _ hd
  have hlight := light_of_disk (hplain ans) hlinks hdata hnext
  exact ⟨hlight.aloof who, hstable _ _ hs (hlight.alongside who)⟩

lemma ensureParent_among (h : Early X Y path procs v₀ who s) :
    Among X Y path procs v₀ who (fun r s' => Early X Y path procs v₀ who s' ∧
      ∀ e, r = .error e → e.beforeRename = true) (ensureParent path) s := by
  have hstable : ∀ r : Except AtomicWriteError Unit, ∀ s s', (Early X Y path procs v₀ who s ∧
      ∀ e, r = .error e → e.beforeRename = true) → Alongside X Y path procs v₀ who s s' →
      Early X Y path procs v₀ who s' ∧ ∀ e, r = .error e → e.beforeRename = true :=
    fun _ _ _ ⟨h, he⟩ hs => ⟨h.alongside hs, he⟩
  refine Holds.bind (Alongside.refl who) ((idle_among h (fun _ _ => Early.alongside)
    (fun d ans d' hd => ?_) fun _ => ?_).mono (fun _ _ h => h) fun found s₁ h₁ => ?_)
  · obtain rfl := faulty_dirExists hd
    exact ⟨rfl, rfl, rfl⟩
  · exact ⟨(fun _ _ h => by cases h), fun _ h => by cases h⟩
  split
  · exact among_ret ⟨h₁, fun e he => by cases he⟩ (hstable _)
  · refine Holds.mapError (Alongside.refl who) ((idle_among h₁ (fun _ _ => Early.alongside)
      (fun d ans d' hd => ?_) fun _ => ?_).mono (fun _ _ h => h) fun r s₂ h₂ => ?_)
    · obtain ⟨hlinks, hdata⟩ := faulty_createDirAll hd
      exact ⟨hlinks, hdata, faulty_createDirAll_next hd⟩
    · exact ⟨(fun _ _ h => by cases h), fun _ h => by cases h⟩
    · refine among_ret ⟨h₂, fun e he => ?_⟩ (hstable _)
      cases r with
      | error err =>
        obtain rfl := Except.error.inj he
        rfl
      | ok u => cases he

/-- A new file is nobody's yet. -/
lemma createNew_among (h : Early X Y path procs v₀ (some pid) s) :
    Among X Y path procs v₀ (some pid) (fun r s' => Early X Y path procs v₀ (some pid) s' ∧
      ∀ i, r = .ok i → Draft X Y path procs v₀ pid i ⟨[], false⟩ s')
      (createNew (path.tmpPath pid)) s := by
  refine Holds.perform h (fun _ _ => Early.alongside) (fun (s : Moment) ans s' hs hcall => ?_)
    fun ans s s' ⟨hs, hi⟩ hrest => ⟨hs.alongside hrest, fun i hans => (hi i hans).alongside hrest⟩
  obtain ⟨d, hd, rfl⟩ := exists_disk hcall
  obtain ⟨e, rfl, rfl⟩ | ⟨hfree, rfl, rfl⟩ := faulty_createNew hd
  · have hlight : Light path s ({ s.1 with disk := s.1.disk },
        s.2 ++ [⟨.disk (.createNew (path.tmpPath pid)), .error e⟩]) :=
      light_of_disk ⟨(fun _ _ h => by cases h), fun _ h => by cases h⟩ rfl rfl rfl
    exact ⟨hlight.aloof _, hs.light hlight, fun i hi => by cases hi⟩
  set s' : Moment := ({ s.1 with disk := s.1.disk.create (path.tmpPath pid) },
    s.2 ++ [⟨.disk (.createNew (path.tmpPath pid)), .ok s.1.disk.next⟩]) with hs'
  have hbegan : ∀ file j, s'.Began file j → s.Began file j ∨
      file = path.tmpPath pid ∧ j = s.1.disk.next := by
    intro file j hb
    refine (began_append.mp hb).imp_right fun heq => ?_
    cases heq
    exact ⟨rfl, rfl⟩
  have hlanded : ∀ pid', s'.Landed path pid' → s.Landed path pid' := fun pid' hl =>
    (landed_append.mp hl).resolve_right fun heq => by cases heq
  have hhistory : ∀ e ∈ s.2, e ∈ s'.2 := fun e he => List.mem_append_left _ he
  have htarget : s'.1.disk.links.lookup path.file = s.1.disk.links.lookup path.file :=
    lookup_create.trans (if_neg (path.tmpPath_ne_file pid).symm)
  have hdata : ∀ j, j < s.1.disk.next → s'.1.disk.data j = s.1.disk.data j :=
    fun j hj => Function.update_of_ne hj.ne _ _
  have hcontent : s'.content path.file = s.content path.file :=
    content_create (path.tmpPath_ne_file pid).symm
  have hcommon : Common X Y path procs v₀ s → Common X Y path procs v₀ s' := by
    intro hc
    constructor
    · exact hc.keychain
    · intro file j hb
      rcases hbegan file j hb with hb | ⟨-, rfl⟩
      · exact Nat.lt_succ_of_lt (hc.lt_next file j hb)
      · exact Nat.lt_succ_self _
    · intro file file' j hb hb'
      rcases hbegan file j hb with hb | ⟨rfl, rfl⟩ <;>
        rcases hbegan file' _ hb' with hb' | ⟨rfl, hj⟩
      · exact hc.unique file file' j hb hb'
      · exact absurd (hc.lt_next file j hb) (hj ▸ lt_irrefl _)
      · exact absurd (hc.lt_next file' _ hb') (lt_irrefl _)
      · rfl
    · intro j hlook
      rw [htarget] at hlook
      refine (hc.atRest j hlook).mono hhistory fun file hb => (hbegan file j hb).resolve_right ?_
      exact fun hnew => (s.1.disk.lt_next _ j hlook).ne hnew.2
    · obtain ⟨v, hv, hreads⟩ := hc.vault
      refine ⟨v, hv.mono hhistory, ?_⟩
      rwa [hcontent]
    · intro body hbody
      exact hc.synced body (hcontent.symm.trans hbody)
  refine ⟨fun other hother => ⟨hcommon, Nat.le_succ _, hhistory, ?_, ?_, ?_, ?_⟩,
    ⟨hcommon hs.common, fun pid' hpid hl => hs.pending pid' hpid (hlanded pid' hl)⟩, ?_⟩
  · intro file j hb hj
    exact (hbegan file j hb).resolve_right fun hnew => hj.ne hnew.2
  · exact fun j hj _ => hdata j hj
  · exact fun pid' _ => hlanded pid'
  · intro pid' j hpid' hlook
    have hne : path.tmpPath pid' ≠ path.tmpPath pid := fun heq => by
      obtain rfl := PathBuf.tmpPath_inj heq
      rcases hother with rfl | hother
      · cases hpid'
      · exact hother hpid'
    have hsame : s'.1.disk.links.lookup (path.tmpPath pid') =
        s.1.disk.links.lookup (path.tmpPath pid') := lookup_create.trans (if_neg hne)
    rwa [hsame] at hlook
  · intro i hi
    obtain rfl := Except.ok.inj hi
    refine ⟨⟨hcommon hs.common, fun pid' hpid hl => hs.pending pid' hpid (hlanded pid' hl)⟩,
      began_append.mpr (.inr rfl), Function.update_self _ _ _, ?_⟩
    intro j hlook
    have hnew : s'.1.disk.links.lookup (path.tmpPath pid) = some s.1.disk.next :=
      lookup_create.trans (if_pos rfl)
    exact (Option.some.inj (hnew.symm.trans hlook)).symm

/-- Writing to its own file, a process changes nothing that another has found or begun. -/
lemma Draft.update {op : Op Str Str} {ans : op.Ans} {d : Disk Str Str}
    (h : Draft X Y path procs v₀ pid i body s) (hlinks : d.links = s.1.disk.links)
    (hnext : d.next = s.1.disk.next) (hdata : d.data = Function.update s.1.disk.data i body')
    (hplain : Plain path (.disk op) ans) :
    Aloof X Y path procs v₀ (some pid) s ({ s.1 with disk := d }, s.2 ++ [⟨.disk op, ans⟩]) ∧
      Draft X Y path procs v₀ pid i body' ({ s.1 with disk := d }, s.2 ++ [⟨.disk op, ans⟩]) := by
  set s' : Moment := ({ s.1 with disk := d }, s.2 ++ [⟨.disk op, ans⟩]) with hs'
  have hbegan : ∀ file j, s'.Began file j → s.Began file j := fun file j hb =>
    (began_append.mp hb).resolve_right (hplain.creates file j)
  have hlanded : ∀ pid', s'.Landed path pid' → s.Landed path pid' := fun pid' hl =>
    (landed_append.mp hl).resolve_right (hplain.renames pid')
  have hhistory : ∀ e ∈ s.2, e ∈ s'.2 := fun e he => List.mem_append_left _ he
  have hpending : ¬s.Landed path pid := h.pending pid rfl
  have hother : ∀ j, j ≠ i → s'.1.disk.data j = s.1.disk.data j := fun j hj =>
    (congrFun hdata j).trans (Function.update_of_ne hj _ _)
  have hlookup : ∀ file, s'.1.disk.links.lookup file = s.1.disk.links.lookup file := fun file =>
    congrArg (AList.lookup file) hlinks
  have hcommon : Common X Y path procs v₀ s → Common X Y path procs v₀ s' := by
    intro hc
    have hcontent : s'.content path.file = s.content path.file := by
      unfold Moment.content Disk.content
      rw [hlookup]
      cases hlook : s.1.disk.links.lookup path.file with
      | none => rfl
      | some j =>
        -- the vault file is at rest, and this one is not
        have hne : j ≠ i := by
          rintro rfl
          exact hpending (hc.atRest j hlook pid h.began)
        exact congrArg some (hother j hne)
    refine ⟨hc.keychain, fun file j hb => ?_, fun file file' j hb hb' => ?_, fun j hlook => ?_, ?_,
      fun body hbody => hc.synced body (hcontent.symm.trans hbody)⟩
    · exact (hc.lt_next file j (hbegan file j hb)).trans_eq hnext.symm
    · exact hc.unique file file' j (hbegan file j hb) (hbegan file' j hb')
    · rw [hlookup] at hlook
      exact (hc.atRest j hlook).mono hhistory fun file => hbegan file j
    · obtain ⟨v, hv, hreads⟩ := hc.vault
      refine ⟨v, hv.mono hhistory, ?_⟩
      rwa [hcontent]
  refine ⟨fun other hne => ⟨hcommon, hnext.ge, hhistory, fun file j hb _ => hbegan file j hb,
    fun j _ hdone => hother j ?_, fun pid' _ => hlanded pid', fun pid' j _ hlook => ?_⟩,
    ⟨⟨hcommon h.common, fun pid' hpid hl => h.pending pid' hpid (hlanded pid' hl)⟩,
      hhistory _ h.began, ?_, fun j hlook => h.sibling j ?_⟩⟩
  · rintro rfl
    refine hpending (hdone pid (fun heq => ?_) h.began)
    rcases hne with rfl | hne
    · cases heq
    · exact hne heq
  · rwa [hlookup] at hlook
  · exact (congrFun hdata i).trans (Function.update_self _ _ _)
  · rwa [hlookup] at hlook

lemma writeAll_among (h : Draft X Y path procs v₀ pid i body s) :
    Among X Y path procs v₀ (some pid) (fun r s' => Early X Y path procs v₀ (some pid) s' ∧
      (r = .ok () → Draft X Y path procs v₀ pid i ⟨body.bytes ++ bytes, false⟩ s'))
      (writeAll i bytes) s := by
  refine Holds.perform h (fun _ _ => Draft.alongside) (fun (s : Moment) ans s' hs hcall => ?_)
    fun ans s s' ⟨hs, hi⟩ hrest => ⟨hs.alongside hrest, fun hans => (hi hans).alongside hrest⟩
  obtain ⟨d, hd, rfl⟩ := exists_disk hcall
  have hplain : Plain path (.disk (.write i bytes)) ans :=
    ⟨(fun _ _ h => by cases h), fun _ h => by cases h⟩
  obtain ⟨rfl, rfl⟩ | ⟨e, n, rfl, rfl⟩ := faulty_write hd
  · obtain ⟨haloof, hdraft⟩ := hs.update (d := s.1.disk.append i bytes) rfl rfl rfl hplain
    rw [hs.written] at hdraft
    exact ⟨haloof, hdraft.toEarly, fun _ => hdraft⟩
  · obtain ⟨haloof, hdraft⟩ := hs.update (d := s.1.disk.append i (bytes.take n)) rfl rfl rfl hplain
    exact ⟨haloof, hdraft.toEarly, fun hans => by cases hans⟩

lemma syncAll_among (h : Draft X Y path procs v₀ pid i body s) :
    Among X Y path procs v₀ (some pid) (fun r s' => Early X Y path procs v₀ (some pid) s' ∧
      (r = .ok () → Draft X Y path procs v₀ pid i ⟨body.bytes, true⟩ s')) (syncAll i) s := by
  refine Holds.perform h (fun _ _ => Draft.alongside) (fun (s : Moment) ans s' hs hcall => ?_)
    fun ans s s' ⟨hs, hi⟩ hrest => ⟨hs.alongside hrest, fun hans => (hi hans).alongside hrest⟩
  obtain ⟨d, hd, rfl⟩ := exists_disk hcall
  have hplain : Plain path (.disk (.sync i)) ans :=
    ⟨(fun _ _ h => by cases h), fun _ h => by cases h⟩
  obtain ⟨rfl, rfl⟩ | ⟨e, rfl, rfl⟩ := faulty_sync hd
  · obtain ⟨haloof, hdraft⟩ := hs.update (d := s.1.disk.flush i) rfl rfl rfl hplain
    rw [hs.written] at hdraft
    exact ⟨haloof, hdraft.toEarly, fun _ => hdraft⟩
  · have hlight := light_of_disk (s := s) (d := s.1.disk) hplain rfl rfl rfl
    exact ⟨hlight.aloof _, hs.toEarly.light hlight, fun hans => by cases hans⟩

/-- The rename puts a vault in place that the command of the process has made of an earlier one. -/
lemma rename_among {k : ι} (h : Draft X Y path procs v₀ (procs k).pid i ⟨bytes, true⟩ s)
    (hv : MadeInTurn path procs v₀ s v) (haccepts : (procs k).command.Accepts v.toVault)
    (hreads : ReadsAs X Y ((procs k).saved v) (some ⟨bytes, true⟩)) :
    Among X Y path procs v₀ (some (procs k).pid)
      (fun r s' => Reported X Y path procs v₀ (procs k).pid (decide (r = .ok ())) s')
      (rename path.dir (path.tmpName (procs k).pid) path.name) s := by
  set pid := (procs k).pid with hpid
  refine Holds.perform
    (P := fun s => Draft X Y path procs v₀ pid i ⟨bytes, true⟩ s ∧ MadeInTurn path procs v₀ s v)
    ⟨h, hv⟩ (fun s s' h hs => ⟨h.1.alongside hs, h.2.mono hs.history⟩)
    (fun (s : Moment) ans s' ⟨hs, hv⟩ hcall => ?_) fun ans s s' hs hrest => hs.alongside hrest
  obtain ⟨d, hd, rfl⟩ := exists_disk hcall
  obtain ⟨e, rfl, rfl⟩ | ⟨rfl, hsome, rfl⟩ := faulty_rename hd
  · have hlight : Light path s ({ s.1 with disk := s.1.disk },
        s.2 ++ [⟨.disk (.rename path.dir (path.tmpName pid) path.name), .error e⟩]) := by
      refine light_of_disk ⟨(fun _ _ h => by cases h), fun pid' h => ?_⟩ rfl rfl rfl
      have hrenames : decide ((path.dir, path.name) = path.file) = false :=
        congrArg (fun event : Event Call Call.Ans => renamesTo path.file event.1 event.2) h
      exact absurd rfl (of_decide_eq_false hrenames)
    exact ⟨hlight.aloof _, (hs.toEarly.light hlight).reported rfl⟩
  obtain ⟨j, hj⟩ := Option.isSome_iff_exists.mp hsome
  obtain rfl := hs.sibling j hj
  set s' : Moment :=
    ({ s.1 with disk := s.1.disk.relink (path.dir, path.name) (path.dir, path.tmpName pid) },
      s.2 ++ [⟨.disk (.rename path.dir (path.tmpName pid) path.name), .ok ()⟩]) with hs'
  have hbegan : ∀ file j, s'.Began file j → s.Began file j := fun file j hb =>
    (began_append.mp hb).resolve_right fun heq => by cases heq
  have hmine : s'.Landed path pid := landed_append.mpr (.inr rfl)
  have hlanded : ∀ pid', pid' ≠ pid → s'.Landed path pid' → s.Landed path pid' := by
    intro pid' hne hl
    refine (landed_append.mp hl).resolve_right fun heq => hne ?_
    have hcall : Call.disk (.rename path.dir (path.tmpName pid') path.name) =
        .disk (.rename path.dir (path.tmpName pid) path.name) := congrArg Sigma.fst heq
    have htmp : path.tmpName pid' = path.tmpName pid :=
      (Op.rename.inj (Call.disk.inj hcall)).2.1
    exact PathBuf.tmpPath_inj (Prod.ext rfl htmp)
  have hhistory : ∀ e ∈ s.2, e ∈ s'.2 := fun e he => List.mem_append_left _ he
  have hcontent : s'.content path.file = some ⟨bytes, true⟩ :=
    (content_relink_target hj).trans (congrArg some hs.written)
  have hcommon : Common X Y path procs v₀ s → Common X Y path procs v₀ s' := by
    intro hc
    refine ⟨hc.keychain, fun file i hb => hc.lt_next file i (hbegan file i hb),
      fun file file' i hb hb' => hc.unique file file' i (hbegan file i hb) (hbegan file' i hb'),
      fun i hlook pid' hb => ?_,
      ⟨_, hv.saved haccepts (hs.pending pid rfl) hhistory hmine, ?_⟩, fun body hbody => ?_⟩
    · have hnew : s'.1.disk.links.lookup path.file = some j := (lookup_relink hj).trans (if_pos rfl)
      obtain rfl := Option.some.inj (hnew.symm.trans hlook)
      rwa [hc.began_unique hs.began (hbegan _ _ hb)]
    · rwa [hcontent]
    · obtain rfl := Option.some.inj (hcontent.symm.trans hbody)
      rfl
  refine ⟨fun other hother => ⟨hcommon, le_rfl, hhistory, fun file i hb _ => hbegan file i hb,
    fun _ _ _ => rfl, fun pid' hpid' => hlanded pid' ?_, fun pid' i hpid' hlook => ?_⟩,
    hcommon hs.common, iff_of_true hmine (decide_eq_true rfl)⟩
  · rintro rfl
    rcases hother with rfl | hother
    · cases hpid'
    · exact hother hpid'
  · have hne : path.tmpPath pid' ≠ path.tmpPath pid := fun heq => by
      obtain rfl := PathBuf.tmpPath_inj heq
      rcases hother with rfl | hother
      · cases hpid'
      · exact hother hpid'
    have hsame : s'.1.disk.links.lookup (path.tmpPath pid') =
        s.1.disk.links.lookup (path.tmpPath pid') :=
      (lookup_relink hj).trans ((if_neg (path.tmpPath_ne_file pid')).trans (if_neg hne))
    rwa [hsame] at hlook

/-- The last steps of a write come behind the rename. -/
lemma fsyncParent_among (h : Reported X Y path procs v₀ pid true s) :
    Among X Y path procs v₀ (some pid) (fun r s' => Reported X Y path procs v₀ pid true s' ∧
        ∀ e, r = .error e → e.beforeRename = false)
      (((openDir path.parent).mapError AtomicWriteError.atParentFsync).andThen fun dir =>
        (syncDir dir).mapError .atParentFsync) s := by
  have hstable : ∀ r : Except AtomicWriteError Unit, ∀ s s',
      (Reported X Y path procs v₀ pid true s ∧ ∀ e, r = .error e → e.beforeRename = false) →
      Alongside X Y path procs v₀ (some pid) s s' →
      Reported X Y path procs v₀ pid true s' ∧ ∀ e, r = .error e → e.beforeRename = false :=
    fun _ _ _ ⟨h, he⟩ hs => ⟨h.alongside hs, he⟩
  refine Holds.andThen (Alongside.refl _) (Holds.mapError (Alongside.refl _)
    ((idle_among h (fun _ _ => Reported.alongside) (fun d ans d' hd => ?_) fun _ => ?_).mono
      (fun _ _ h => h) fun r s₁ h₁ => ?_))
  · obtain rfl := faulty_openDir hd
    exact ⟨rfl, rfl, rfl⟩
  · exact ⟨(fun _ _ h => by cases h), fun _ h => by cases h⟩
  cases r with
  | error e =>
    refine fun s₂ hrest => among_ret ⟨h₁.alongside hrest, fun e' he => ?_⟩ (hstable _)
    obtain rfl := Except.error.inj he
    rfl
  | ok dir =>
  refine fun s₂ hrest => Holds.mapError (Alongside.refl _)
    ((idle_among (h₁.alongside hrest) (fun _ _ => Reported.alongside) (fun d ans d' hd => ?_)
      fun _ => ?_).mono (fun _ _ h => h) fun r s₃ h₃ => ?_)
  · obtain rfl := faulty_syncDir hd
    exact ⟨rfl, rfl, rfl⟩
  · exact ⟨(fun _ _ h => by cases h), fun _ h => by cases h⟩
  refine among_ret ⟨h₃, fun e' he => ?_⟩ (hstable _)
  cases r with
  | error e =>
    obtain rfl := Except.error.inj he
    rfl
  | ok u => cases he

/-- Does a write say that it has come to its rename? -/
def saysRenamed : Except AtomicWriteError Unit → Bool
  | .ok () => true
  | .error e => !e.beforeRename

theorem writeAtomic_among {k : ι} (h : Early X Y path procs v₀ (some (procs k).pid) s)
    (hv : MadeInTurn path procs v₀ s v) (haccepts : (procs k).command.Accepts v.toVault)
    (hreads : ReadsAs X Y ((procs k).saved v) (some ⟨bytes, true⟩)) :
    Among X Y path procs v₀ (some (procs k).pid)
      (fun r s' => Reported X Y path procs v₀ (procs k).pid (saysRenamed r) s')
      (writeAtomic path (procs k).pid bytes) s := by
  have herror : ∀ e s, Early X Y path procs v₀ (some (procs k).pid) s → e.beforeRename = true →
      Among X Y path procs v₀ (some (procs k).pid)
        (fun r s' => Reported X Y path procs v₀ (procs k).pid (saysRenamed r) s')
        (.ret (.error e)) s := fun e s h he =>
    among_reported (h.reported (by rw [saysRenamed, he]; rfl))
  refine Holds.andThen (Alongside.refl _) ((among_made (ensureParent_among h) hv).mono
    (fun _ _ h => h) fun r s₁ ⟨⟨h₁, he⟩, hv₁⟩ => ?_)
  cases r with
  | error e => exact herror e s₁ h₁ (he e rfl)
  | ok u =>
  refine Holds.andThen (Alongside.refl _) (Holds.mapError (Alongside.refl _)
    ((among_made (createNew_among h₁) hv₁).mono (fun _ _ h => h) fun r s₂ ⟨⟨h₂, hi⟩, hv₂⟩ => ?_))
  cases r with
  | error e => exact fun s' hs => herror _ s' (h₂.alongside hs) rfl
  | ok i =>
  refine fun s₂' hs₂ => Holds.andThen (Alongside.refl _) (Holds.mapError (Alongside.refl _)
    ((among_made (writeAll_among ((hi i rfl).alongside hs₂)) (hv₂.mono hs₂.history)).mono
      (fun _ _ h => h) fun r s₃ ⟨⟨h₃, hdraft₃⟩, hv₃⟩ => ?_))
  cases r with
  | error e => exact fun s' hs => herror _ s' (h₃.alongside hs) rfl
  | ok u =>
  refine fun s₃' hs₃ => Holds.andThen (Alongside.refl _) (Holds.mapError (Alongside.refl _)
    ((among_made (syncAll_among ((hdraft₃ rfl).alongside hs₃)) (hv₃.mono hs₃.history)).mono
      (fun _ _ h => h) fun r s₄ ⟨⟨h₄, hdraft₄⟩, hv₄⟩ => ?_))
  cases r with
  | error e => exact fun s' hs => herror _ s' (h₄.alongside hs) rfl
  | ok u =>
  refine fun s₄' hs₄ => Holds.andThen (Alongside.refl _) (Holds.mapError (Alongside.refl _)
    ((rename_among ((hdraft₄ rfl).alongside hs₄) (hv₄.mono hs₄.history) haccepts hreads).mono
      (fun _ _ h => h) fun r s₅ h₅ => ?_))
  cases r with
  | error e => exact fun s' hs => among_reported (h₅.alongside hs)
  | ok u =>
  refine fun s₅' hs₅ => (fsyncParent_among (h₅.alongside hs₅)).mono (fun _ _ h => h)
    fun r s₆ ⟨h₆, he⟩ => ?_
  cases r with
  | ok u => exact h₆
  | error e =>
    rw [saysRenamed, he e rfl]
    exact h₆

/-- Does a save say that it has come to its rename? -/
def saysSaved : Except (Stop VaultError) Unit → Bool
  | .ok () => true
  | .error e => !e.BeforeRename VaultError.beforeRename

theorem save_among {k : ι} (hserde : Y.SerdeLawful) (hA : Y.aead.Undone)
    (h : Early X Y path procs v₀ (some (procs k).pid) s) (hv : MadeInTurn path procs v₀ s v)
    (haccepts : (procs k).command.Accepts v.toVault) :
    Among X Y path procs v₀ (some (procs k).pid)
      (fun r s' => Reported X Y path procs v₀ (procs k).pid (saysSaved r) s')
      (((procs k).saved v).save X Y path (procs k).pid (procs k).nonce) s := by
  unfold OpenVault.save
  split
  · rename_i e hsettle
    refine among_reported (h.reported ?_)
    rw [saysSaved, settle_eq_error hsettle fun _ => sealVault_beforeRename]
    rfl
  · rename_i bytes hsettle
    have hreads : ReadsAs X Y ((procs k).saved v) (some ⟨bytes, true⟩) :=
      decryptVault_of_undone hserde hA (settle_eq_ok.mp hsettle)
    refine Holds.mapError (Alongside.refl _) ((writeAtomic_among h hv haccepts hreads).mono
      (fun _ _ h => h) fun r s₁ h₁ => among_reported ?_)
    cases r with
    | ok u => exact h₁
    | error e => exact h₁

lemma print_among {P : Moment → Prop} {text : Str} (hP : P s)
    (hstable : ∀ s s', P s → Alongside X Y path procs v₀ who s s' → P s') :
    Among X Y path procs v₀ who (fun _ s' => P s') (print text) s := by
  refine Holds.perform hP hstable (fun (s : Moment) ans s' hs hcall => ?_) fun _ => hstable
  obtain ⟨hcall, hlog⟩ := hcall
  obtain ⟨m', h'⟩ := s'
  dsimp only at hcall hlog
  subst hlog
  have hsame : m'.disk = s.1.disk ∧ m'.keychain = s.1.keychain := by
    obtain hcall | ⟨message, n, -, rfl⟩ := hcall
    · obtain ⟨-, rfl⟩ := Prod.mk.inj hcall
      exact ⟨rfl, rfl⟩
    · exact ⟨rfl, rfl⟩
  have hlight : Light path s (m', s.2 ++ [⟨.print text, ans⟩]) := by
    constructor
    · exact hsame.2
    · rw [hsame.1]
    · rw [hsame.1]
    · rw [hsame.1]
    · rw [hsame.1]
      exact fun _ _ h => h
    · exact fun e he => List.mem_append_left _ he
    · exact fun file i h => (began_append.mp h).resolve_right fun heq => by cases heq
    · exact fun pid h => (landed_append.mp h).resolve_right fun heq => by cases heq
  exact ⟨hlight.aloof who, hstable _ _ hs (hlight.alongside who)⟩

lemma saveAndReport_among {k : ι} {message : Str} {result : CommandResult} (hserde : Y.SerdeLawful)
    (hA : Y.aead.Undone) (hexit : result.exitCode = 0)
    (h : Early X Y path procs v₀ (some (procs k).pid) s) (hv : MadeInTurn path procs v₀ s v)
    (haccepts : (procs k).command.Accepts v.toVault) :
    Among X Y path procs v₀ (some (procs k).pid)
      (fun r s' => Reported X Y path procs v₀ (procs k).pid (saysChanged r) s')
      (Cli.saveAndReport X Y path (procs k) ((procs k).saved v) message result) s := by
  refine Holds.andThen (Alongside.refl _) (Holds.mapError (Alongside.refl _)
    ((save_among hserde hA h hv haccepts).mono (fun _ _ h => h) fun r s₁ h₁ s₁' hs₁ => ?_))
  cases r with
  | error e =>
    refine among_reported (α := Except (Stop CommandError) CommandResult) ?_
    cases e <;> exact h₁.alongside hs₁
  | ok u =>
  refine Holds.bind (Alongside.refl _) ((print_among (h₁.alongside hs₁)
    fun _ _ => Reported.alongside).mono (fun _ _ h => h) fun r s₂ h₂ => among_reported ?_)
  rw [saysChanged, hexit]
  exact h₂

/-- All that a command does, it does for the others as if they were alone, and it says whether it
has changed the vault. -/
theorem runVaultCommand_among {k : ι} (hserde : Y.SerdeLawful) (hA : Y.aead.Undone)
    (h : Early X Y path procs v₀ (some (procs k).pid) s) :
    Among X Y path procs v₀ (some (procs k).pid)
      (fun r s' => Reported X Y path procs v₀ (procs k).pid (saysChanged r) s')
      (Cli.runVaultCommand X Y path (procs k)) s := by
  refine Holds.andThen (Alongside.refl _) (Holds.mapError (Alongside.refl _)
    ((openVault_among h).mono (fun _ _ h => h) fun r s₁ h₁ s₁' hs₁ => ?_))
  obtain ⟨h₁', herror, hmade⟩ := h₁.alongside hs₁
  cases r with
  | error e =>
    refine among_reported (α := Except (Stop CommandError) CommandResult) (h₁'.reported ?_)
    have he := herror e rfl
    cases e with
    | error e =>
      have hbefore : e.beforeRename = true := he
      simp [saysChanged, Stop.map, Stop.BeforeRename, CommandError.beforeRename, hbefore]
    | panic p => rfl
  | ok v =>
  have hv := hmade v rfl
  have hrefuse : ∀ result : CommandResult, result.exitCode ≠ 0 →
      Among X Y path procs v₀ (some (procs k).pid)
        (fun r s' => Reported X Y path procs v₀ (procs k).pid (saysChanged r) s')
        (.ret (.ok result : Except (Stop CommandError) CommandResult)) s₁' := fun result hexit =>
    among_reported (h₁'.reported (decide_eq_false hexit))
  dsimp only [Except.mapError]
  cases hcommand : (procs k).command with
  | register label value tweak =>
    change Among X Y path procs v₀ _ _ (Cli.registerIn X Y path (procs k) label value tweak v) s₁'
    unfold Cli.registerIn
    by_cases hmem : label ∈ v.labels
    · rw [Cli.register_of_mem hmem]
      exact hrefuse _ (by simp)
    · have hreg := Cli.register_of_not_mem hmem value tweak
      have hsaved : (procs k).saved v =
          { v with toVault := (Cli.register v.toVault label value tweak).vault } := by
        rw [VaultProcess.saved, hcommand]
        rfl
      dsimp only
      rw [hreg.2, if_neg (by decide), ← hsaved]
      exact saveAndReport_among hserde hA rfl h₁' hv (by rw [hcommand]; exact hmem)
  | forget label =>
    change Among X Y path procs v₀ _ _ (Cli.forgetIn X Y path (procs k) label v) s₁'
    unfold Cli.forgetIn
    by_cases hmem : label ∈ v.labels
    · have hsaved : (procs k).saved v = { v with toVault := (v.toVault.forget label).1 } := by
        rw [VaultProcess.saved, hcommand]
        rfl
      dsimp only
      rw [if_neg (fun h => forget_eq_false.mp h hmem), ← hsaved]
      exact saveAndReport_among hserde hA rfl h₁' hv (by rw [hcommand]; exact hmem)
    · dsimp only
      rw [if_pos (forget_eq_false.mpr hmem)]
      exact hrefuse _ (by simp)

end Writer

end Steps

/-! ### All of them -/

section Map

variable {ι : Type} {X : Crates} {Y : FileCrates} {path : PathBuf} {procs : ι → VaultProcess}
  {v₀ v : OpenVault} {vaultKey : VaultKey} {f : LabelMap} {m : Machine}

/-- The map is what the commands make of `f`, one after the other, none of which is refused. -/
inductive AppliedInTurn (procs : ι → VaultProcess) (f : LabelMap) : List ι → LabelMap → Prop
  | nil : AppliedInTurn procs f [] f
  | snoc {order g k} : AppliedInTurn procs f order g → (procs k).command.AcceptedBy g →
      AppliedInTurn procs f (order ++ [k]) ((procs k).command.apply g)

lemma InTurn.applied {order : List ι} (h : InTurn procs v₀ order v) :
    AppliedInTurn procs (labelMap v₀.entries) order (labelMap v.entries) := by
  induction h with
  | nil => exact .nil
  | @snoc order v k _ haccepts ih =>
    have heffect : labelMap ((procs k).saved v).entries = _ := VaultCommand.labelMap_effect haccepts
    rw [heffect]
    exact ih.snoc (VaultCommand.acceptedBy_labelMap.mpr haccepts)

lemma InTurn.nodup {order : List ι} (h : InTurn procs v₀ order v) (hv₀ : v₀.labels.Nodup) :
    v.labels.Nodup := by
  induction h with
  | nil => exact hv₀
  | snoc _ _ ih => exact VaultCommand.nodup_effect ih

/-- A vault file that represents a map is opened to it. -/
lemma Machine.Represents.exists_openVault (h : m.Represents X Y path f)
    (hkey : m.keychain = some vaultKey) : ∃ v : OpenVault, v.vaultKey = vaultKey ∧
      ReadsAs X Y v (m.disk.content path.file) ∧
      (∀ body, m.disk.content path.file = some body → body.synced = true) ∧ v.labels.Nodup ∧
      labelMap v.entries = f := by
  obtain ⟨contents, hvault, hnodup, hmap⟩ := h
  cases hvault with
  | absent hnone =>
    refine ⟨.ofContents vaultKey .default, rfl, ?_, fun body hbody => ?_, hnodup, hmap⟩
    · rw [hnone]
      rfl
    · rw [hnone] at hbody
      cases hbody
  | @sealed bytes vaultKey' contents hcontent hkey' hopen =>
    obtain rfl := Option.some.inj (hkey'.symm.trans hkey)
    refine ⟨.ofContents vaultKey' contents, rfl, ?_, fun body hbody => ?_, hnodup, hmap⟩
    · rw [hcontent]
      exact hopen
    · obtain rfl := Option.some.inj (hcontent.symm.trans hbody)
      rfl

lemma Machine.represents_of_readsAs (hkey : m.keychain = some v.vaultKey)
    (hreads : ReadsAs X Y v (m.disk.content path.file))
    (hsynced : ∀ body, m.disk.content path.file = some body → body.synced = true)
    (hnodup : v.labels.Nodup) : m.Represents X Y path (labelMap v.entries) := by
  cases hcontent : m.disk.content path.file with
  | none =>
    rw [hcontent] at hreads
    have hentries : v.entries = [] := congrArg VaultContents.entries hreads
    exact ⟨none, .absent hcontent, List.nodup_nil, by rw [hentries]; rfl⟩
  | some body =>
    obtain ⟨bytes, synced⟩ := body
    obtain rfl : synced = true := hsynced _ hcontent
    rw [hcontent] at hreads
    exact ⟨some v.contents, .sealed hcontent hkey hreads, hnodup, rfl⟩

end Map

section Pool

variable {ι κ : Type} (X : Crates) (Y : FileCrates) (path : PathBuf) (procs : ι → VaultProcess)
  (newKey : κ → VaultKey) (f : LabelMap)

/-- Some processes run a command, the others open the vault. -/
abbrev Answers (ι κ : Type) : ι ⊕ κ → Type
  | .inl _ => Except (Stop CommandError) CommandResult
  | .inr _ => Except (Stop VaultError) OpenVault

def commandsAndOpens : (i : ι ⊕ κ) → Program (Answers ι κ i)
  | .inl k => Cli.runVaultCommand X Y path (procs k)
  | .inr k => openVault X Y path (newKey k)

def writerOf : ι ⊕ κ → Option Nat
  | .inl k => some (procs k).pid
  | .inr _ => none

/-- What is known where a process has returned. -/
def Tells (v₀ : OpenVault) : (i : ι ⊕ κ) → Answers ι κ i → Moment → Prop
  | .inl k => fun r => Reported X Y path procs v₀ (procs k).pid (saysChanged r)
  | .inr _ => OpensTo X Y path procs v₀ none

/-- The map is what some of the commands that have come to their rename make of `f`, one after the
other, each of them once and none of them refused. -/
def MapInTurn (s : Moment) (g : LabelMap) : Prop :=
  ∃ order : List ι, order.Nodup ∧ (∀ k ∈ order, s.Landed path (procs k).pid) ∧
    AppliedInTurn procs f order g

/-- What becomes of a vault that many processes change and open at the same time. -/
structure Serialised (ps : (i : ι ⊕ κ) → Program (Answers ι κ i)) (s : Moment) : Prop where
  /-- The vault is what some commands make of it in turn, also if the machine crashes. -/
  vault : ∃ g, MapInTurn path procs f s g ∧ ∀ d, s.1.disk.Crashed d →
    Machine.Represents X Y path { s.1 with disk := d } g
  /-- So is every vault that a process has opened. -/
  opened : ∀ k v, ps (.inr k) = .ret (.ok v) →
    v.labels.Nodup ∧ MapInTurn path procs f s (labelMap v.entries)
  /-- What a command says when it returns is whether it has come to its rename. -/
  reports : ∀ k r, ps (.inl k) = .ret r →
    (s.Landed path (procs k).pid ↔ saysChanged r = true)

variable {X Y path procs newKey f} {v₀ v : OpenVault} {vaultKey : VaultKey} {m : Machine}
  {s : Moment}

lemma MadeInTurn.map (h : MadeInTurn path procs v₀ s v) (hv₀ : v₀.labels.Nodup)
    (hf : labelMap v₀.entries = f) :
    v.labels.Nodup ∧ MapInTurn path procs f s (labelMap v.entries) := by
  obtain ⟨order, hnodup, hlanded, hmade⟩ := h
  exact ⟨hmade.nodup hv₀, order, hnodup, hlanded, hf ▸ hmade.applied⟩

lemma early_start (hkey : m.keychain = some v₀.vaultKey)
    (hreads : ReadsAs X Y v₀ (m.disk.content path.file))
    (hsynced : ∀ body, m.disk.content path.file = some body → body.synced = true)
    (who : Option Nat) : Early X Y path procs v₀ who (m, []) where
  common := ⟨hkey, fun _ _ h => (List.not_mem_nil h).elim, fun _ _ _ h => (List.not_mem_nil h).elim,
    fun _ _ _ h => (List.not_mem_nil h).elim, ⟨v₀, ⟨[], List.nodup_nil, by simp, .nil⟩, hreads⟩,
    hsynced⟩
  pending _ _ h := (List.not_mem_nil h).elim

/-- Two processes with different identifiers leave each other alone. -/
lemma Aloof.alongside {s' : Moment} {i j : ι ⊕ κ}
    (h : Aloof X Y path procs v₀ (writerOf procs j) s s')
    (hpids : Function.Injective fun k => (procs k).pid) (hij : i ≠ j) :
    Alongside X Y path procs v₀ (writerOf procs i) s s' := by
  refine h _ ?_
  rcases i with a | a <;> rcases j with b | b
  · refine .inr fun heq => hij (congrArg Sum.inl (hpids ?_))
    exact Option.some.inj heq
  · exact .inr fun heq => by cases heq
  · exact .inl rfl
  · exact .inl rfl

lemma Common.represents (h : Common X Y path procs v₀ s) (hv₀ : v₀.labels.Nodup)
    (hf : labelMap v₀.entries = f) : ∃ g, MapInTurn path procs f s g ∧
      ∀ d, s.1.disk.Crashed d → Machine.Represents X Y path { s.1 with disk := d } g := by
  obtain ⟨v, hv, hreads⟩ := h.vault
  obtain ⟨hnodup, hmap⟩ := hv.map hv₀ hf
  refine ⟨_, hmap, fun d hd => Machine.Represents.crash ?_ hd⟩
  refine Machine.represents_of_readsAs ?_ hreads h.synced hnodup
  rw [hv.vaultKey]
  exact h.keychain

/-- In every interleaving of commands and openings, at every moment of it and whatever fails, the
vault is one that commands have made of it in turn. No two processes have the same identifier, and
the key is in the keychain when they start. -/
theorem commands_serialise [DecidableEq (ι ⊕ κ)] (hserde : Y.SerdeLawful) (hA : Y.aead.Undone)
    (hpids : Function.Injective fun k => (procs k).pid) (hkey : m.keychain = some vaultKey)
    (hm : m.Represents X Y path f) {ps : (i : ι ⊕ κ) → Program (Answers ι κ i)}
    (hrun : Interleaves (fun _ => Machine.faulty.logged)
      (commandsAndOpens X Y path procs newKey) (m, []) ps s) :
    Serialised X Y path procs f ps s := by
  obtain ⟨v₀, rfl, hreads, hsynced, hv₀, hf⟩ := hm.exists_openVault hkey
  have hstart : ∀ who, Early X Y path procs v₀ who (m, []) := early_start hkey hreads hsynced
  have hrefl : ∀ (i : ι ⊕ κ) s, Alongside X Y path procs v₀ (writerOf procs i) s s :=
    fun i s => Alongside.refl _ s
  have htrans : ∀ (i : ι ⊕ κ) s s' s'', Alongside X Y path procs v₀ (writerOf procs i) s s' →
      Alongside X Y path procs v₀ (writerOf procs i) s' s'' →
      Alongside X Y path procs v₀ (writerOf procs i) s s'' := fun _ _ _ _ => Alongside.trans
  have hothers : ∀ (i j : ι ⊕ κ) s s', i ≠ j → Aloof X Y path procs v₀ (writerOf procs j) s s' →
      Alongside X Y path procs v₀ (writerOf procs i) s s' :=
    fun _ _ _ _ hij h => h.alongside hpids hij
  have hall : ∀ i, Holds Machine.faulty.logged (Alongside X Y path procs v₀ (writerOf procs i))
      (Aloof X Y path procs v₀ (writerOf procs i)) (Tells X Y path procs v₀ i)
      (commandsAndOpens X Y path procs newKey i) (m, []) := by
    rintro (k | k)
    · exact runVaultCommand_among hserde hA (hstart _)
    · exact openVault_among (hstart none)
  have hends := hrun.holds hrefl htrans hothers hall
  have hcommon : Common X Y path procs v₀ s := hrun.invariant hrefl htrans hothers hall
    (fun i s s' hc hg => (hg none (.inl rfl)).common hc) (hstart none).common
  constructor
  · exact hcommon.represents hv₀ hf
  · intro k v hk
    have h := hends (.inr k)
    rw [hk] at h
    exact ((h s (hrefl _ s)).made v rfl).map hv₀ hf
  · intro k r hk
    have h := hends (.inl k)
    rw [hk] at h
    exact (h s (hrefl _ s)).landed

/-! ### A change that is lost -/

def twoEntries : List VaultEntry :=
  [Cli.entryFor "a".toList "AAAA".toList (Vector.replicate 16 0),
    Cli.entryFor "b".toList "BBBB".toList (Vector.replicate 16 0)]

def twoFiles : FileCrates :=
  .ofTables .padding [(⟨1, twoEntries.take 1⟩, [97]), (⟨1, twoEntries.drop 1⟩, [98])] []

def twoProcesses : Bool → VaultProcess
  | false => ⟨.register "a".toList "AAAA".toList (Vector.replicate 16 0), 7, Vector.replicate 32 1,
      Vector.replicate 24 0⟩
  | true => ⟨.register "b".toList "BBBB".toList (Vector.replicate 16 0), 8, Vector.replicate 32 1,
      Vector.replicate 24 0⟩

/-- Two processes have opened the vault before either saves it, and a third one opens it then. -/
def twoAtOnce : ((i : Bool ⊕ Unit) → Program (Answers Bool Unit i)) × Moment :=
  (List.replicate 3 (Sum.inl false) ++ List.replicate 3 (Sum.inl true) ++
      List.replicate 8 (Sum.inl false) ++ List.replicate 8 (Sum.inl true) ++
      List.replicate 4 (Sum.inr ())).foldl (advance Machine.record fun _ _ => true)
    (commandsAndOpens Crates.reference twoFiles emptyVaultPath twoProcesses
      (fun _ => Vector.replicate 32 1), (emptyMachine, []))

/-- Both say that they have registered their label, and one of the labels is not there. -/
example : twoAtOnce.1 (.inl false) = .ret (.ok ⟨0, []⟩) ∧
    twoAtOnce.1 (.inl true) = .ret (.ok ⟨0, []⟩) ∧
    twoAtOnce.1 (.inr ()) = .ret (.ok ⟨⟨Vector.replicate 32 0, twoEntries.drop 1⟩, 1⟩) :=
  ⟨rfl, rfl, rfl⟩

theorem commands_serialise_two : Serialised Crates.reference twoFiles emptyVaultPath twoProcesses
    (fun _ => none) twoAtOnce.1 twoAtOnce.2 :=
  commands_serialise (FileCrates.ofTables_serdeLawful (by decide) (by simp)) Aead.padding_undone
    (fun k k' h => by cases k <;> cases k' <;> first | rfl | cases h) rfl
    ⟨none, .absent (by decide), List.nodup_nil, rfl⟩
    (interleaves_schedule Machine.record _ (fun _ _ _ _ => ⟨.inl rfl, rfl⟩) _)

end Pool

end Invisibool
