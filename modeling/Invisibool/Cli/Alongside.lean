import Invisibool.Cli.Durability

/-!
# A process among others

Any number of processes change one vault, or only open it, in any interleaving of their calls. It
is said what the steps of the others are for one of them, what a step that writes nothing is for
the others, and that every process which opens the vault finds one that the commands have made.
-/

namespace Invisibool
open Text Process FileSystem
open Format hiding Bytes

namespace PathBuf

lemma tmpPath_inj {path : PathBuf} {pid pid' : Nat} (h : path.tmpPath pid = path.tmpPath pid') :
    pid = pid' := by
  have hname : path.tmpName pid = path.tmpName pid' := (Prod.mk.inj h).2
  have hdigits : Nat.toDigits 10 pid = Nat.toDigits 10 pid' := List.append_cancel_left hname
  rw [← Nat.ofDigitChars_ten_toDigits (n := pid), hdigits, Nat.ofDigitChars_ten_toDigits]

end PathBuf

/-! ### The vault file among many processes -/

namespace Moment

variable (path : PathBuf) (s : Moment)

/-- The file has been created under this number. -/
def Began (file : Str × Str) (i : Nat) : Prop :=
  (⟨.disk (.createNew file), .ok i⟩ : Event Call Call.Ans) ∈ s.2

/-- Process `pid` has come to its rename. -/
def Landed (pid : Nat) : Prop :=
  (⟨.disk (.rename path.dir (path.tmpName pid) path.name), .ok ()⟩ : Event Call Call.Ans) ∈ s.2

/-- Whoever has begun the file of this number is done with it. -/
def AtRest (i : Nat) : Prop := ∀ pid, s.Began (path.tmpPath pid) i → s.Landed path pid

end Moment

section Pool

variable {ι : Type} (X : Crates) (Y : FileCrates) (path : PathBuf) (procs : ι → VaultProcess)
  (v₀ : OpenVault)

/-- What the commands make of the vault, one after the other, none of which refuses. -/
inductive InTurn : List ι → OpenVault → Prop
  | nil : InTurn [] v₀
  | snoc {order v k} : InTurn order v → (procs k).command.Accepts v.toVault →
      InTurn (order ++ [k]) ((procs k).saved v)

/-- The vault is what some of the commands that have come to their rename have made of it, each of
them once. -/
def MadeInTurn (s : Moment) (v : OpenVault) : Prop :=
  ∃ order : List ι, order.Nodup ∧ (∀ k ∈ order, s.Landed path (procs k).pid) ∧
    InTurn procs v₀ order v

/-- What all processes may count on at any moment. -/
structure Common (s : Moment) : Prop where
  keychain : s.1.keychain = some v₀.vaultKey
  lt_next : ∀ file i, s.Began file i → i < s.1.disk.next
  unique : ∀ file file' i, s.Began file i → s.Began file' i → file = file'
  atRest : ∀ i, s.1.disk.links.lookup path.file = some i → s.AtRest path i
  vault : ∃ v, MadeInTurn path procs v₀ s v ∧ ReadsAs X Y v (s.content path.file)
  synced : ∀ body, s.content path.file = some body → body.synced = true

/-- What the steps of the others are for process `who`, or for one that writes nothing: they keep
what is common, write to no file but those that they have begun, and have nothing to do with its
sibling but that they may take it away. -/
structure Alongside (who : Option Nat) (s s' : Moment) : Prop where
  common : Common X Y path procs v₀ s → Common X Y path procs v₀ s'
  next : s.1.disk.next ≤ s'.1.disk.next
  history : ∀ event ∈ s.2, event ∈ s'.2
  fresh : ∀ file i, s'.Began file i → i < s.1.disk.next → s.Began file i
  data : ∀ i, i < s.1.disk.next →
    (∀ pid, who ≠ some pid → s.Began (path.tmpPath pid) i → s.Landed path pid) →
      s'.1.disk.data i = s.1.disk.data i
  landed : ∀ pid, who = some pid → s'.Landed path pid → s.Landed path pid
  sibling : ∀ pid i, who = some pid → s'.1.disk.links.lookup (path.tmpPath pid) = some i →
    s.1.disk.links.lookup (path.tmpPath pid) = some i

/-- What a step of process `who` is for all others. -/
def Aloof (who : Option Nat) (s s' : Moment) : Prop :=
  ∀ other, other = none ∨ other ≠ who → Alongside X Y path procs v₀ other s s'

end Pool

section Steps

variable {ι : Type} {X : Crates} {Y : FileCrates} {path : PathBuf} {procs : ι → VaultProcess}
  {v₀ v : OpenVault} {who : Option Nat} {pid i : Nat} {s s' s'' : Moment}

lemma MadeInTurn.mono (h : MadeInTurn path procs v₀ s v) (hs : ∀ event ∈ s.2, event ∈ s'.2) :
    MadeInTurn path procs v₀ s' v := by
  obtain ⟨order, hnodup, hlanded, hv⟩ := h
  exact ⟨order, hnodup, fun i hi => hs _ (hlanded i hi), hv⟩

lemma InTurn.vaultKey {order : List ι} (h : InTurn procs v₀ order v) :
    v.vaultKey = v₀.vaultKey := by
  induction h with
  | nil => rfl
  | snoc _ _ ih => exact VaultCommand.effect_vaultKey.trans ih

lemma MadeInTurn.vaultKey (h : MadeInTurn path procs v₀ s v) : v.vaultKey = v₀.vaultKey := by
  obtain ⟨order, -, -, hmade⟩ := h
  exact hmade.vaultKey

/-- The command of a process that is new to the order comes last. -/
lemma MadeInTurn.saved {k : ι} (h : MadeInTurn path procs v₀ s v)
    (haccepts : (procs k).command.Accepts v.toVault) (hnew : ¬s.Landed path (procs k).pid)
    (hs : ∀ event ∈ s.2, event ∈ s'.2) (hlanded : s'.Landed path (procs k).pid) :
    MadeInTurn path procs v₀ s' ((procs k).saved v) := by
  obtain ⟨order, hnodup, hall, hmade⟩ := h
  refine ⟨order ++ [k], ?_, ?_, hmade.snoc haccepts⟩
  · refine hnodup.append (List.nodup_singleton k) fun i hi hk => hnew ?_
    rw [← List.mem_singleton.mp hk]
    exact hall i hi
  · intro i hi
    rcases List.mem_append.mp hi with hi | hi
    · exact hs _ (hall i hi)
    · rw [List.mem_singleton.mp hi]
      exact hlanded

lemma Moment.AtRest.mono (h : s.AtRest path i) (hs : ∀ event ∈ s.2, event ∈ s'.2)
    (hfresh : ∀ file, s'.Began file i → s.Began file i) : s'.AtRest path i :=
  fun pid hbegan => hs _ (h pid (hfresh _ hbegan))

namespace Alongside

lemma refl (who : Option Nat) (s : Moment) : Alongside X Y path procs v₀ who s s where
  common h := h
  next := le_rfl
  history _ h := h
  fresh _ _ h _ := h
  data _ _ _ := rfl
  landed _ _ h := h
  sibling _ _ _ h := h

lemma trans (h : Alongside X Y path procs v₀ who s s')
    (h' : Alongside X Y path procs v₀ who s' s'') : Alongside X Y path procs v₀ who s s'' where
  common hs := h'.common (h.common hs)
  next := h.next.trans h'.next
  history e he := h'.history e (h.history e he)
  fresh file i hbegan hlt := h.fresh file i (h'.fresh file i hbegan (hlt.trans_le h.next)) hlt
  data i hlt hothers := by
    refine (h'.data i (hlt.trans_le h.next) fun pid hne hbegan => ?_).trans (h.data i hlt hothers)
    exact h.history _ (hothers pid hne (h.fresh _ i hbegan hlt))
  landed pid hpid hlanded := h.landed pid hpid (h'.landed pid hpid hlanded)
  sibling pid i hpid hlook := h.sibling pid i hpid (h'.sibling pid i hpid hlook)

end Alongside

/-! ### Steps that write nothing -/

/-- A step that writes nothing and takes no name but may take some away, the vault file apart. -/
structure Light (path : PathBuf) (s s' : Moment) : Prop where
  keychain : s'.1.keychain = s.1.keychain
  data : s'.1.disk.data = s.1.disk.data
  next : s'.1.disk.next = s.1.disk.next
  target : s'.1.disk.links.lookup path.file = s.1.disk.links.lookup path.file
  links : ∀ file i, s'.1.disk.links.lookup file = some i → s.1.disk.links.lookup file = some i
  history : ∀ event ∈ s.2, event ∈ s'.2
  began : ∀ file i, s'.Began file i → s.Began file i
  landed : ∀ pid, s'.Landed path pid → s.Landed path pid

namespace Light

lemma content (h : Light path s s') : s'.content path.file = s.content path.file := by
  unfold Moment.content Disk.content
  rw [h.target, h.data]

lemma common (h : Light path s s') (hs : Common X Y path procs v₀ s) :
    Common X Y path procs v₀ s' where
  keychain := h.keychain.trans hs.keychain
  lt_next file i hbegan := by
    rw [h.next]
    exact hs.lt_next file i (h.began file i hbegan)
  unique file file' i hbegan hbegan' :=
    hs.unique file file' i (h.began file i hbegan) (h.began file' i hbegan')
  atRest i hlook := by
    rw [h.target] at hlook
    exact (hs.atRest i hlook).mono h.history fun file => h.began file i
  vault := by
    obtain ⟨v, hv, hreads⟩ := hs.vault
    refine ⟨v, hv.mono h.history, ?_⟩
    rwa [h.content]
  synced body hbody := hs.synced body (by rwa [← h.content])

lemma alongside (h : Light path s s') (who : Option Nat) :
    Alongside X Y path procs v₀ who s s' where
  common := h.common
  next := h.next.ge
  history := h.history
  fresh file i hbegan _ := h.began file i hbegan
  data i _ _ := congrFun h.data i
  landed pid _ := h.landed pid
  sibling _ i _ := h.links _ i

lemma aloof (h : Light path s s') (who : Option Nat) : Aloof X Y path procs v₀ who s s' :=
  fun other _ => h.alongside other

end Light

lemma began_append {m : Machine} {call : Call} {ans : call.Ans} {file : Str × Str} :
    Moment.Began (m, s.2 ++ [⟨call, ans⟩]) file i ↔ s.Began file i ∨
      (⟨.disk (.createNew file), .ok i⟩ : Event Call Call.Ans) = ⟨call, ans⟩ := by
  unfold Moment.Began
  rw [List.mem_append, List.mem_singleton]

lemma landed_append {m : Machine} {call : Call} {ans : call.Ans} :
    Moment.Landed path (m, s.2 ++ [⟨call, ans⟩]) pid ↔ s.Landed path pid ∨
      (⟨.disk (.rename path.dir (path.tmpName pid) path.name), .ok ()⟩ : Event Call Call.Ans) =
        ⟨call, ans⟩ := by
  unfold Moment.Landed
  rw [List.mem_append, List.mem_singleton]

/-- The call creates nothing and renames nothing. -/
structure Plain (path : PathBuf) (call : Call) (ans : call.Ans) : Prop where
  creates : ∀ file i, (⟨.disk (.createNew file), .ok i⟩ : Event Call Call.Ans) ≠ ⟨call, ans⟩
  renames : ∀ pid, (⟨.disk (.rename path.dir (path.tmpName pid) path.name), .ok ()⟩ :
    Event Call Call.Ans) ≠ ⟨call, ans⟩

lemma light_of_disk {op : Op Str Str} {ans : op.Ans} {d : Disk Str Str}
    (hplain : Plain path (.disk op) ans) (hlinks : d.links = s.1.disk.links)
    (hdata : d.data = s.1.disk.data) (hnext : d.next = s.1.disk.next) :
    Light path s ({ s.1 with disk := d }, s.2 ++ [⟨.disk op, ans⟩]) where
  keychain := rfl
  data := hdata
  next := hnext
  target := congrArg (AList.lookup path.file) hlinks
  links file i h := by
    dsimp only at h
    rwa [hlinks] at h
  history e he := List.mem_append_left _ he
  began file i h := (began_append.mp h).resolve_right (hplain.creates file i)
  landed pid h := (landed_append.mp h).resolve_right (hplain.renames pid)

/-! ### Opening the vault -/

/-- The steps of a process among the others. -/
abbrev Among (X : Crates) (Y : FileCrates) (path : PathBuf) (procs : ι → VaultProcess)
    (v₀ : OpenVault) (who : Option Nat) {α : Type} (post : α → Moment → Prop) (p : Program α)
    (s : Moment) : Prop :=
  Holds Machine.faulty.logged (Alongside X Y path procs v₀ who) (Aloof X Y path procs v₀ who) post
    p s

/-- What a process knows until it comes to its rename. -/
structure Early (X : Crates) (Y : FileCrates) (path : PathBuf) (procs : ι → VaultProcess)
    (v₀ : OpenVault) (who : Option Nat) (s : Moment) : Prop where
  common : Common X Y path procs v₀ s
  pending : ∀ pid, who = some pid → ¬s.Landed path pid

namespace Early

lemma alongside (h : Early X Y path procs v₀ who s) (hs : Alongside X Y path procs v₀ who s s') :
    Early X Y path procs v₀ who s' :=
  ⟨hs.common h.common, fun pid hpid hlanded => h.pending pid hpid (hs.landed pid hpid hlanded)⟩

lemma light (h : Early X Y path procs v₀ who s) (hs : Light path s s') :
    Early X Y path procs v₀ who s' :=
  h.alongside (hs.alongside who)

/-- A call that is light, whatever it answers. -/
lemma perform {call : Call} {Q : call.Ans → Moment → Prop} (h : Early X Y path procs v₀ who s)
    (hstep : ∀ s ans s', Early X Y path procs v₀ who s → Machine.faulty.logged call s ans s' →
      Light path s s' ∧ Q ans s')
    (hQ : ∀ ans s s', Q ans s → Alongside X Y path procs v₀ who s s' → Q ans s') :
    Among X Y path procs v₀ who (fun ans s' => Early X Y path procs v₀ who s' ∧ Q ans s')
      (.perform call) s := by
  refine Holds.perform h (fun _ _ => alongside) (fun s ans s' hs hcall => ?_)
    fun ans s s' ⟨hs, hq⟩ hrest => ⟨hs.alongside hrest, hQ ans s s' hq hrest⟩
  obtain ⟨hlight, hq⟩ := hstep s ans s' hs hcall
  exact ⟨hlight.aloof who, hs.light hlight, hq⟩

end Early

lemma among_made {α : Type} {post : α → Moment → Prop} {p : Program α}
    (h : Among X Y path procs v₀ who post p s) (hv : MadeInTurn path procs v₀ s v) :
    Among X Y path procs v₀ who (fun a s' => post a s' ∧ MadeInTurn path procs v₀ s' v) p s :=
  h.frame hv (fun _ _ hv hs => hv.mono hs.history)
    fun _ _ hv hs => hv.mono (hs none (.inl rfl)).history

lemma among_ret {α : Type} {a : α} {post : α → Moment → Prop} (h : post a s)
    (hpost : ∀ s s', post a s → Alongside X Y path procs v₀ who s s' → post a s') :
    Among X Y path procs v₀ who post (.ret a) s :=
  fun s' hs => hpost s s' h hs

lemma removeFile_among {file : Str × Str} (hfile : file ≠ path.file)
    (h : Early X Y path procs v₀ who s) :
    Among X Y path procs v₀ who (fun _ s' => Early X Y path procs v₀ who s' ∧ True)
      (removeFile file) s := by
  refine h.perform (fun s ans s' _ hcall => ⟨?_, trivial⟩) fun _ _ _ _ _ => trivial
  obtain ⟨d, hd, rfl⟩ := exists_disk hcall
  have hplain : Plain path (.disk (.remove file)) ans :=
    ⟨(fun _ _ h => by cases h), fun _ h => by cases h⟩
  obtain ⟨rfl, -⟩ | ⟨rfl, rfl⟩ := faulty_remove hd
  · exact light_of_disk hplain rfl rfl rfl
  constructor
  · rfl
  · rfl
  · rfl
  · exact lookup_unlink.trans (if_neg (Ne.symm hfile))
  · intro other i hlook
    rw [lookup_unlink] at hlook
    split at hlook
    · cases hlook
    · exact hlook
  · exact fun e he => List.mem_append_left _ he
  · exact fun file' i h => (began_append.mp h).resolve_right (hplain.creates file' i)
  · exact fun pid h => (landed_append.mp h).resolve_right (hplain.renames pid)

lemma removeOrphans_among {orphans : List (Str × Str)}
    (horphans : ∀ orphan ∈ orphans, path.IsOrphan orphan) (h : Early X Y path procs v₀ who s) :
    Among X Y path procs v₀ who (fun _ s' => Early X Y path procs v₀ who s')
      (removeOrphans orphans) s := by
  induction orphans generalizing s with
  | nil => exact among_ret h fun _ _ => Early.alongside
  | cons orphan orphans ih =>
    have hne : orphan ≠ path.file := fun heq =>
      not_isOrphan_file (heq ▸ horphans orphan List.mem_cons_self)
    refine Holds.bind (Alongside.refl who) (Holds.bind (Alongside.refl who)
      ((removeFile_among hne h).mono (fun _ _ h => h) fun ans s₁ ⟨h₁, _⟩ => ?_))
    intro s₂ hrest
    exact ih (fun o ho => horphans o (List.mem_cons_of_mem _ ho)) (h₁.alongside hrest)

lemma scanOrphans_among (h : Early X Y path procs v₀ who s) :
    Among X Y path procs v₀ who (fun _ s' => Early X Y path procs v₀ who s')
      (scanOrphans path) s := by
  have hread : Among X Y path procs v₀ who (fun ans s' => Early X Y path procs v₀ who s' ∧
      ((∃ names, ans = .ok names) → path.bare = false)) (readDir path.parent) s := by
    refine h.perform (fun s ans s' _ hcall => ?_) fun _ _ _ hq _ => hq
    obtain ⟨d, hd, rfl⟩ := exists_disk hcall
    obtain ⟨rfl, hnames⟩ := faulty_readDir hd
    refine ⟨light_of_disk ⟨(fun _ _ h => by cases h), fun _ h => by cases h⟩ rfl rfl rfl, ?_⟩
    rintro ⟨names, rfl⟩
    have hparent := hnames names rfl
    unfold PathBuf.parent at hparent
    split at hparent
    · cases hparent
    · rename_i hbare
      simpa using hbare
  refine Holds.bind (Alongside.refl who) (Holds.bind (Alongside.refl who)
    (hread.mono (fun _ _ h => h) fun ans s₁ ⟨h₁, hbare⟩ => ?_))
  cases ans with
  | error e =>
    dsimp only
    split
    · refine fun s₂ hrest => ?_
      exact removeOrphans_among (fun o ho => by cases ho) (h₁.alongside hrest)
    · exact among_ret (among_ret h₁ fun _ _ => Early.alongside) fun _ _ h hrest =>
        h.stable (fun _ _ _ => Alongside.trans) hrest
  | ok names =>
    refine fun s₂ hrest => removeOrphans_among (fun orphan horphan => ?_) (h₁.alongside hrest)
    obtain ⟨name, hname, rfl⟩ := List.mem_map.mp horphan
    exact ⟨hbare ⟨names, rfl⟩, rfl, (List.mem_filter.mp hname).2⟩

/-- The key that a process comes to is the one in the keychain. -/
lemma fetchOrCreate_among {newKey : VaultKey} (h : Early X Y path procs v₀ who s) :
    Among X Y path procs v₀ who (fun r s' => Early X Y path procs v₀ who s' ∧
      ∀ key, r = .ok key → key = v₀.vaultKey) (fetchOrCreate newKey) s := by
  have hfetch : Among X Y path procs v₀ who (fun r s' => Early X Y path procs v₀ who s' ∧
      ∀ found, r = .ok found → found = some v₀.vaultKey) fetch s := by
    refine h.perform (fun s ans s' hs hcall => ?_) fun _ _ _ hq _ => hq
    obtain ⟨hcall, hlog⟩ := hcall
    have hplain : Plain path .fetch ans := ⟨(fun _ _ h => by cases h), fun _ h => by cases h⟩
    obtain ⟨m', h'⟩ := s'
    dsimp only at hcall hlog
    subst hlog
    have hsame : m' = s.1 := by
      obtain hcall | ⟨e, -, rfl⟩ := hcall
      · exact (Prod.mk.inj hcall).2.symm
      · rfl
    subst hsame
    refine ⟨⟨rfl, rfl, rfl, rfl, fun _ _ h => h, fun e he => List.mem_append_left _ he,
      fun file' i h => (began_append.mp h).resolve_right (hplain.creates file' i),
      fun pid h => (landed_append.mp h).resolve_right (hplain.renames pid)⟩, ?_⟩
    rintro found rfl
    obtain hcall | ⟨e, he, -⟩ := hcall
    · obtain rfl := Except.ok.inj (Prod.mk.inj hcall).1
      exact hs.common.keychain
    · cases he
  refine Holds.andThen (Alongside.refl who) (hfetch.mono (fun _ _ h => h) fun r s₁ ⟨h₁, hr⟩ => ?_)
  cases r with
  | error e =>
    exact among_ret ⟨h₁, fun key h => by cases h⟩ fun _ _ ⟨h, hq⟩ hs => ⟨h.alongside hs, hq⟩
  | ok found =>
    obtain rfl := hr found rfl
    refine among_ret ⟨h₁, fun key h => ?_⟩ fun _ _ ⟨h, hq⟩ hs => ⟨h.alongside hs, hq⟩
    exact (Except.ok.inj h).symm

/-- The bytes that an open file has are those of a vault that the commands have made. -/
def Opened (X : Crates) (Y : FileCrates) (path : PathBuf) (procs : ι → VaultProcess)
    (v₀ : OpenVault) (i : Nat) (s : Moment) : Prop :=
  i < s.1.disk.next ∧ s.AtRest path i ∧
    ∃ v, MadeInTurn path procs v₀ s v ∧ ReadsAs X Y v (some (s.1.disk.data i))

lemma Opened.alongside (h : Opened X Y path procs v₀ i s)
    (hs : Alongside X Y path procs v₀ who s s') : Opened X Y path procs v₀ i s' := by
  obtain ⟨hlt, hrest, v, hv, hreads⟩ := h
  refine ⟨hlt.trans_le hs.next, hrest.mono hs.history fun file hb => hs.fresh file i hb hlt, v,
    hv.mono hs.history, ?_⟩
  rwa [hs.data i hlt fun pid _ => hrest pid]

/-- What `open` answers: a file as above, or that the commands have not made any yet. -/
def Answered (X : Crates) (Y : FileCrates) (path : PathBuf) (procs : ι → VaultProcess)
    (v₀ : OpenVault) (s : Moment) : Except IoError Nat → Prop
  | .ok i => Opened X Y path procs v₀ i s
  | .error e => e.kind = .notFound → ∃ v, MadeInTurn path procs v₀ s v ∧ ReadsAs X Y v none

lemma Answered.alongside {ans : Except IoError Nat} (h : Answered X Y path procs v₀ s ans)
    (hs : Alongside X Y path procs v₀ who s s') : Answered X Y path procs v₀ s' ans := by
  cases ans with
  | ok i => exact Opened.alongside h hs
  | error e =>
    intro hkind
    obtain ⟨v, hv, hreads⟩ := h hkind
    exact ⟨v, hv.mono hs.history, hreads⟩

/-- What a process finds is a vault that the commands have made. -/
lemma readIfExists_among (h : Early X Y path procs v₀ who s) :
    Among X Y path procs v₀ who (fun r s' => Early X Y path procs v₀ who s' ∧
      ∀ found, r = .ok found → ∃ v, MadeInTurn path procs v₀ s' v ∧
        ReadsAs X Y v (found.map fun bytes => ⟨bytes, true⟩))
      (readIfExists path) s := by
  have hstable : ∀ r : Except IoError (Option Bytes), ∀ s s',
      (Early X Y path procs v₀ who s ∧ ∀ found, r = .ok found → ∃ v, MadeInTurn path procs v₀ s v ∧
        ReadsAs X Y v (found.map fun bytes => ⟨bytes, true⟩)) →
      Alongside X Y path procs v₀ who s s' →
      Early X Y path procs v₀ who s' ∧ ∀ found, r = .ok found → ∃ v, MadeInTurn path procs v₀ s' v ∧
        ReadsAs X Y v (found.map fun bytes => ⟨bytes, true⟩) := by
    intro r s s' ⟨h, hr⟩ hs
    refine ⟨h.alongside hs, fun found hfound => ?_⟩
    obtain ⟨v, hv, hreads⟩ := hr found hfound
    exact ⟨v, hv.mono hs.history, hreads⟩
  have hopen : Among X Y path procs v₀ who (fun ans s' => Early X Y path procs v₀ who s' ∧
      Answered X Y path procs v₀ s' ans) (openRead path.file) s := by
    refine h.perform (fun s ans s' hs hcall => ?_) fun ans s s' hq hrest => ?_
    · obtain ⟨d, hd, rfl⟩ := exists_disk hcall
      obtain ⟨rfl, hans⟩ := faulty_openRead hd
      have hlight : Light path s
          ({ s.1 with disk := s.1.disk }, s.2 ++ [⟨.disk (.openRead path.file), ans⟩]) :=
        light_of_disk ⟨(fun _ _ h => by cases h), fun _ h => by cases h⟩ rfl rfl rfl
      refine ⟨hlight, ?_⟩
      obtain ⟨v, hv, hreads⟩ := hs.common.vault
      unfold Moment.content Disk.content at hreads
      cases ans with
      | ok i =>
        dsimp only at hans ⊢
        rw [hans] at hreads
        refine ⟨s.1.disk.lt_next _ i hans, ?_, v, hv.mono hlight.history, hreads⟩
        exact (hs.common.atRest i hans).mono hlight.history fun file => hlight.began file i
      | error e =>
        intro hkind
        rw [hans hkind] at hreads
        exact ⟨v, hv.mono hlight.history, hreads⟩
    · exact hq.alongside hrest
  refine Holds.bind (Alongside.refl who) (hopen.mono (fun _ _ h => h) fun ans s₁ ⟨h₁, hq⟩ => ?_)
  cases ans with
  | error e =>
    dsimp only
    split
    · rename_i hkind
      refine among_ret ⟨h₁, fun found hfound => ?_⟩ (hstable _)
      obtain rfl := Except.ok.inj hfound
      exact hq hkind
    · exact among_ret ⟨h₁, fun found hfound => by cases hfound⟩ (hstable _)
  | ok i =>
    have hread : Among X Y path procs v₀ who (fun r s' => Early X Y path procs v₀ who s' ∧
        ∀ buf, r = .ok buf → ∃ v, MadeInTurn path procs v₀ s' v ∧
          ReadsAs X Y v (some ⟨buf, true⟩)) (readToEnd i) s₁ := by
      refine Holds.perform
        (P := fun s => Early X Y path procs v₀ who s ∧ Opened X Y path procs v₀ i s)
        ⟨h₁, hq⟩ (fun s s' h hs => ⟨h.1.alongside hs, h.2.alongside hs⟩)
        (fun s ans s' ⟨hs, hopened⟩ hcall => ?_) fun ans s s' ⟨h, hr⟩ hs => ?_
      · obtain ⟨d, hd, rfl⟩ := exists_disk hcall
        obtain ⟨rfl, hbytes⟩ := faulty_readToEnd hd
        have hlight : Light path s
            ({ s.1 with disk := s.1.disk }, s.2 ++ [⟨.disk (.readToEnd i), ans⟩]) :=
          light_of_disk ⟨(fun _ _ h => by cases h), fun _ h => by cases h⟩ rfl rfl rfl
        refine ⟨hlight.aloof who, hs.light hlight, fun buf hbuf => ?_⟩
        obtain ⟨-, -, v, hv, hreads⟩ := hopened
        refine ⟨v, hv.mono hlight.history, ?_⟩
        rw [hbytes buf hbuf]
        exact hreads
      · refine ⟨h.alongside hs, fun buf hbuf => ?_⟩
        obtain ⟨v, hv, hreads⟩ := hr buf hbuf
        exact ⟨v, hv.mono hs.history, hreads⟩
    refine Holds.andThen (Alongside.refl who) (hread.mono (fun _ _ h => h) fun r s₂ ⟨h₂, hr⟩ => ?_)
    cases r with
    | error e => exact among_ret ⟨h₂, fun found hfound => by cases hfound⟩ (hstable _)
    | ok buf =>
      refine among_ret ⟨h₂, fun found hfound => ?_⟩ (hstable _)
      obtain rfl := Except.ok.inj hfound
      exact hr buf rfl

/-- What is known where a process has opened the vault. -/
structure OpensTo (X : Crates) (Y : FileCrates) (path : PathBuf) (procs : ι → VaultProcess)
    (v₀ : OpenVault) (who : Option Nat) (r : Except (Stop VaultError) OpenVault) (s : Moment) :
    Prop where
  early : Early X Y path procs v₀ who s
  error : ∀ e, r = .error e → e.BeforeRename VaultError.beforeRename = true
  made : ∀ v, r = .ok v → MadeInTurn path procs v₀ s v

lemma OpensTo.alongside {r : Except (Stop VaultError) OpenVault}
    (h : OpensTo X Y path procs v₀ who r s) (hs : Alongside X Y path procs v₀ who s s') :
    OpensTo X Y path procs v₀ who r s' :=
  ⟨h.early.alongside hs, h.error, fun v hv => (h.made v hv).mono hs.history⟩

lemma Early.opensTo_error {e : Stop VaultError} (h : Early X Y path procs v₀ who s)
    (he : e.BeforeRename VaultError.beforeRename = true) :
    OpensTo X Y path procs v₀ who (.error e) s :=
  ⟨h, (fun e' heq => Except.error.inj heq ▸ he), fun v heq => by cases heq⟩

lemma Early.opensTo_ok (h : Early X Y path procs v₀ who s) (hv : MadeInTurn path procs v₀ s v) :
    OpensTo X Y path procs v₀ who (.ok v) s :=
  ⟨h, (fun e heq => by cases heq), fun v' heq => Except.ok.inj heq ▸ hv⟩

/-- Every process that opens the vault finds one that the commands have made. -/
theorem openVault_among {newKey : VaultKey} (h : Early X Y path procs v₀ who s) :
    Among X Y path procs v₀ who (OpensTo X Y path procs v₀ who) (openVault X Y path newKey) s := by
  refine Holds.bind (Alongside.refl who) ((scanOrphans_among h).mono (fun _ _ h => h) ?_)
  intro _ s₁ h₁
  refine Holds.andThen (Alongside.refl who) (Holds.mapError (Alongside.refl who)
    ((fetchOrCreate_among h₁).mono (fun _ _ h => h) fun r s₂ ⟨h₂, hkey⟩ => ?_))
  cases r with
  | error e => exact fun s₃ hrest =>
      among_ret ((h₂.alongside hrest).opensTo_error rfl) fun _ _ => OpensTo.alongside
  | ok vaultKey =>
  obtain rfl := hkey vaultKey rfl
  intro s₃ hrest
  refine Holds.andThen (Alongside.refl who) (Holds.mapError (Alongside.refl who)
    ((readIfExists_among (h₂.alongside hrest)).mono (fun _ _ h => h) fun r s₄ ⟨h₄, hfound⟩ => ?_))
  cases r with
  | error e => exact fun s₅ hrest =>
      among_ret ((h₄.alongside hrest).opensTo_error rfl) fun _ _ => OpensTo.alongside
  | ok found =>
  intro s₅ hrest
  obtain ⟨v, hv, hreads⟩ := hfound found rfl
  -- the vault has the key of the keychain, so that it is what its contents are opened to
  have hof : OpenVault.ofContents v₀.vaultKey v.contents = v := by
    rw [← hv.vaultKey]
    rfl
  cases found with
  | none =>
    have hdefault : v.contents = .default := hreads
    rw [hdefault] at hof
    rw [← hof] at hv
    exact among_ret ((h₄.alongside hrest).opensTo_ok (hv.mono hrest.history))
      fun _ _ => OpensTo.alongside
  | some bytes =>
    have hdecrypt : decryptVault X Y v₀.vaultKey bytes = .ok (.ok v.contents) := by
      rw [← hv.vaultKey]
      exact hreads
    dsimp only [Except.mapError]
    rw [settle_eq_ok.mpr hdecrypt]
    rw [← hof] at hv
    exact among_ret ((h₄.alongside hrest).opensTo_ok (hv.mono hrest.history))
      fun _ _ => OpensTo.alongside

end Steps

end Invisibool
