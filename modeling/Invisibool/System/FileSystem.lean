import Invisibool.System.Process
import Mathlib.Algebra.Order.Ring.Nat
import Mathlib.Data.List.AList

/-!
# Directories, links and files

A file is a sequence of bytes under a number, and a directory links names to such numbers. Once
a file is open its number stays good, whatever becomes of the link. A crash of the whole machine
keeps the links, but loses what has been written to a file and not been synced. An optional
directory is a path as it is written down: `none` is the empty path, the parent of a bare file
name.
-/

namespace FileSystem
open Process

abbrev Bytes := List UInt8

inductive ErrorKind
  | notFound
  | alreadyExists
  | other
  deriving DecidableEq, Repr

structure IoError where
  kind : ErrorKind
  message : String
  deriving DecidableEq, Repr

def IoError.notFound : IoError := ⟨.notFound, "No such file or directory"⟩
def IoError.alreadyExists : IoError := ⟨.alreadyExists, "File exists"⟩

/-- The bytes of a file, and whether they have all been synced. -/
structure Body where
  bytes : Bytes
  synced : Bool
  deriving DecidableEq, Repr

variable (Dir Name : Type) [DecidableEq Dir] [DecidableEq Name]

/-- The state of the disk. A number that has not been given to a file yet is linked nowhere. -/
structure Disk where
  dirs : Dir → Bool
  links : AList fun _ : Dir × Name => Nat
  data : Nat → Body
  next : Nat
  lt_next : ∀ file i, links.lookup file = some i → i < next

inductive Op
  | dirExists (dir : Option Dir)
  | createDirAll (dir : Option Dir)
  | createNew (file : Dir × Name)
  | write (handle : Nat) (bytes : Bytes)
  | sync (handle : Nat)
  | rename (dir : Dir) (source target : Name)
  | openDir (dir : Option Dir)
  | syncDir (dir : Dir)
  | openRead (file : Dir × Name)
  | readToEnd (handle : Nat)
  | readDir (dir : Option Dir)
  | remove (file : Dir × Name)

variable {Dir Name}

def Op.Ans : Op Dir Name → Type
  | dirExists _ => Bool
  | createDirAll _ | write _ _ | sync _ | rename _ _ _ | syncDir _ | remove _ =>
    Except IoError Unit
  | createNew _ | openRead _ => Except IoError Nat
  | openDir _ => Except IoError Dir
  | readToEnd _ => Except IoError Bytes
  | readDir _ => Except IoError (List Name)

namespace Disk

variable (d : Disk Dir Name)

/-- A disk with these directories, and no file yet. -/
def empty (dirs : Dir → Bool) : Disk Dir Name := ⟨dirs, ∅, fun _ => ⟨[], false⟩, 0, by simp⟩

/-- Does the directory that a path stands for exist? -/
def hasDir : Option Dir → Bool
  | none => false
  | some dir => d.dirs dir

def makeDir (dir : Dir) : Disk Dir Name := { d with dirs := Function.update d.dirs dir true }

/-- A new, empty file. -/
def create (file : Dir × Name) : Disk Dir Name where
  dirs := d.dirs
  links := d.links.insert file d.next
  data := Function.update d.data d.next ⟨[], false⟩
  next := d.next + 1
  lt_next file' i h := by
    by_cases hfile : file' = file
    · subst hfile
      rw [AList.lookup_insert] at h
      obtain rfl := Option.some.inj h
      exact Nat.lt_succ_self _
    · rw [AList.lookup_insert_ne hfile] at h
      exact Nat.lt_succ_of_lt (d.lt_next file' i h)

def append (handle : Nat) (bytes : Bytes) : Disk Dir Name :=
  { d with data := Function.update d.data handle ⟨(d.data handle).bytes ++ bytes, false⟩ }

def flush (handle : Nat) : Disk Dir Name :=
  { d with data := Function.update d.data handle ⟨(d.data handle).bytes, true⟩ }

def unlink (file : Dir × Name) : Disk Dir Name where
  dirs := d.dirs
  links := d.links.erase file
  data := d.data
  next := d.next
  lt_next file' i h := by
    by_cases hfile : file' = file
    · subst hfile
      rw [AList.lookup_erase] at h
      cases h
    · rw [AList.lookup_erase_ne hfile] at h
      exact d.lt_next file' i h

/-- Let a name stand for a file that has another name already. -/
def relink (target : Dir × Name) (source : Dir × Name) : Disk Dir Name where
  dirs := d.dirs
  links := match d.links.lookup source with
    | none => d.links
    | some i => (d.links.erase source).insert target i
  data := d.data
  next := d.next
  lt_next file' j h := by
    cases hsource : d.links.lookup source with
    | none =>
      rw [hsource] at h
      exact d.lt_next file' j h
    | some i =>
      rw [hsource] at h
      dsimp only at h
      by_cases hfile : file' = target
      · subst hfile
        rw [AList.lookup_insert] at h
        obtain rfl := Option.some.inj h
        exact d.lt_next source i hsource
      · rw [AList.lookup_insert_ne hfile] at h
        by_cases hs : file' = source
        · subst hs
          rw [AList.lookup_erase] at h
          cases h
        · rw [AList.lookup_erase_ne hs] at h
          exact d.lt_next file' j h

/-- The names in a directory. -/
def names (dir : Dir) : List Name :=
  (d.links.keys.filter fun file => decide (file.1 = dir)).map Prod.snd

/-- What the file of a name holds. -/
def content (file : Dir × Name) : Option Body := (d.links.lookup file).map d.data

/-- What is left after a crash. -/
structure Crashed (d' : Disk Dir Name) : Prop where
  dirs : d'.dirs = d.dirs
  links : d'.links = d.links
  next : d'.next = d.next
  data : ∀ i, (d.data i).synced = true → d'.data i = d.data i

end Disk

/-- What an operation does when nothing goes wrong with the disk. -/
def exec : (op : Op Dir Name) → Disk Dir Name → op.Ans × Disk Dir Name
  | .dirExists dir, d => (d.hasDir dir, d)
  | .createDirAll none, d => (.ok (), d)
  | .createDirAll (some dir), d => (.ok (), d.makeDir dir)
  | .createNew file, d =>
    if (d.links.lookup file).isSome then (.error .alreadyExists, d)
    else if d.dirs file.1 then (.ok d.next, d.create file)
    else (.error .notFound, d)
  | .write handle bytes, d => (.ok (), d.append handle bytes)
  | .sync handle, d => (.ok (), d.flush handle)
  | .rename dir source target, d =>
    if (d.links.lookup (dir, source)).isSome then
      (.ok (), d.relink (dir, target) (dir, source))
    else (.error .notFound, d)
  | .openDir none, d => (.error .notFound, d)
  | .openDir (some dir), d => (if d.dirs dir then .ok dir else .error .notFound, d)
  | .syncDir _, d => (.ok (), d)
  | .openRead file, d =>
    match d.links.lookup file with
    | some i => (.ok i, d)
    | none => (.error .notFound, d)
  | .readToEnd handle, d => (.ok (d.data handle).bytes, d)
  | .readDir none, d => (.error .notFound, d)
  | .readDir (some dir), d => (if d.dirs dir then .ok (d.names dir) else .error .notFound, d)
  | .remove file, d =>
    if (d.links.lookup file).isSome then (.ok (), d.unlink file) else (.error .notFound, d)

/-- What an operation may do when it fails: it changes nothing, except that a write may leave
some of its bytes. That a file is missing, or in the way, is no failure of this kind. -/
def Fails : (op : Op Dir Name) → Disk Dir Name → op.Ans → Disk Dir Name → Prop
  | .dirExists _, d, ans, d' => ans = false ∧ d' = d
  | .write handle bytes, d, ans, d' =>
    ∃ message n, ans = .error ⟨.other, message⟩ ∧ d' = d.append handle (bytes.take n)
  | .createDirAll _, d, ans, d' => ∃ message, ans = .error ⟨.other, message⟩ ∧ d' = d
  | .createNew _, d, ans, d' => ∃ message, ans = .error ⟨.other, message⟩ ∧ d' = d
  | .sync _, d, ans, d' => ∃ message, ans = .error ⟨.other, message⟩ ∧ d' = d
  | .rename _ _ _, d, ans, d' => ∃ message, ans = .error ⟨.other, message⟩ ∧ d' = d
  | .openDir _, d, ans, d' => ∃ message, ans = .error ⟨.other, message⟩ ∧ d' = d
  | .syncDir _, d, ans, d' => ∃ message, ans = .error ⟨.other, message⟩ ∧ d' = d
  | .openRead _, d, ans, d' => ∃ message, ans = .error ⟨.other, message⟩ ∧ d' = d
  | .readToEnd _, d, ans, d' => ∃ message, ans = .error ⟨.other, message⟩ ∧ d' = d
  | .readDir _, d, ans, d' => ∃ message, ans = .error ⟨.other, message⟩ ∧ d' = d
  | .remove _, d, ans, d' => ∃ message, ans = .error ⟨.other, message⟩ ∧ d' = d

def sound : World (Op Dir Name) Op.Ans (Disk Dir Name) := .ofExec exec

def faulty : World (Op Dir Name) Op.Ans (Disk Dir Name) :=
  fun op d ans d' => exec op d = (ans, d') ∨ Fails op d ans d'

section Frame

variable {d d' : Disk Dir Name} {file other : Dir × Name} {handle : Nat} {bytes : Bytes}

lemma lookup_create : (d.create file).links.lookup other =
    if other = file then some d.next else d.links.lookup other := by
  change (d.links.insert file d.next).lookup other = _
  split
  · rename_i h
    rw [h, AList.lookup_insert]
  · rename_i h
    exact AList.lookup_insert_ne h

lemma lookup_unlink : (d.unlink file).links.lookup other =
    if other = file then none else d.links.lookup other := by
  change (d.links.erase file).lookup other = _
  split
  · rename_i h
    rw [h, AList.lookup_erase]
  · rename_i h
    exact AList.lookup_erase_ne h

lemma lookup_relink {source target : Dir × Name} {i : Nat}
    (h : d.links.lookup source = some i) : (d.relink target source).links.lookup other =
      if other = target then some i else if other = source then none
        else d.links.lookup other := by
  unfold Disk.relink
  simp only [h]
  split
  · rename_i htarget
    rw [htarget, AList.lookup_insert]
  · rename_i htarget
    rw [AList.lookup_insert_ne htarget]
    split
    · rename_i hsource
      rw [hsource, AList.lookup_erase]
    · rename_i hsource
      exact AList.lookup_erase_ne hsource

lemma content_eq_of_links (hlinks : d'.links = d.links) (hdata : d'.data = d.data) :
    d'.content file = d.content file := by
  unfold Disk.content
  rw [hlinks, hdata]

lemma content_create (h : other ≠ file) : (d.create file).content other = d.content other := by
  unfold Disk.content
  rw [lookup_create, if_neg h]
  cases hlook : d.links.lookup other with
  | none => rfl
  | some i =>
    have hlt := d.lt_next other i hlook
    exact congrArg some (Function.update_of_ne hlt.ne _ _)

lemma content_append (h : d.links.lookup other ≠ some handle) :
    (d.append handle bytes).content other = d.content other := by
  unfold Disk.content
  change Option.map _ (d.links.lookup other) = _
  cases hlook : d.links.lookup other with
  | none => rfl
  | some i =>
    have hne : i ≠ handle := fun heq => h (by rw [hlook, heq])
    exact congrArg some (Function.update_of_ne hne _ _)

lemma content_flush (h : d.links.lookup other ≠ some handle) :
    (d.flush handle).content other = d.content other := by
  unfold Disk.content
  change Option.map _ (d.links.lookup other) = _
  cases hlook : d.links.lookup other with
  | none => rfl
  | some i =>
    have hne : i ≠ handle := fun heq => h (by rw [hlook, heq])
    exact congrArg some (Function.update_of_ne hne _ _)

lemma content_unlink (h : other ≠ file) : (d.unlink file).content other = d.content other := by
  unfold Disk.content
  rw [lookup_unlink, if_neg h]
  rfl

lemma content_unlink_self : (d.unlink file).content file = none := by
  unfold Disk.content
  rw [lookup_unlink, if_pos rfl]
  rfl

lemma content_relink_target {source target : Dir × Name} {i : Nat}
    (h : d.links.lookup source = some i) :
    (d.relink target source).content target = some (d.data i) := by
  unfold Disk.content
  rw [lookup_relink h, if_pos rfl]
  rfl

lemma content_relink {source target : Dir × Name} {i : Nat} (h : d.links.lookup source = some i)
    (htarget : other ≠ target) (hsource : other ≠ source) :
    (d.relink target source).content other = d.content other := by
  unfold Disk.content
  rw [lookup_relink h, if_neg htarget, if_neg hsource]
  rfl

lemma Disk.Crashed.content (h : d.Crashed d') {body : Body} (hbody : d.content file = some body)
    (hsynced : body.synced = true) : d'.content file = some body := by
  unfold Disk.content at hbody ⊢
  obtain ⟨i, hlook, rfl⟩ := Option.map_eq_some_iff.mp hbody
  rw [h.links, hlook, Option.map_some, h.data i hsynced]

lemma Disk.Crashed.content_none (h : d.Crashed d') (hnone : d.content file = none) :
    d'.content file = none := by
  unfold Disk.content at hnone ⊢
  rw [h.links]
  exact Option.map_eq_none_iff.mpr (Option.map_eq_none_iff.mp hnone)

end Frame

section Cases

variable {d d' : Disk Dir Name}

lemma faulty_dirExists {dir : Option Dir} {ans : Bool}
    (h : faulty (.dirExists dir) d ans d') : d' = d := by
  obtain h | ⟨-, rfl⟩ := h
  · exact (Prod.mk.inj h).2.symm
  · rfl

lemma faulty_createDirAll {dir : Option Dir} {ans : Except IoError Unit}
    (h : faulty (.createDirAll dir) d ans d') : d'.links = d.links ∧ d'.data = d.data := by
  obtain h | ⟨message, -, rfl⟩ := h
  · obtain rfl := (Prod.mk.inj h).2
    cases dir <;> exact ⟨rfl, rfl⟩
  · exact ⟨rfl, rfl⟩

lemma exec_createNew (file : Dir × Name) : exec (.createNew file) d =
    if (d.links.lookup file).isSome then (.error .alreadyExists, d)
    else if d.dirs file.1 then (.ok d.next, d.create file)
    else (.error .notFound, d) :=
  rfl

lemma exec_rename (dir : Dir) (source target : Name) : exec (.rename dir source target) d =
    if (d.links.lookup (dir, source)).isSome then
      (.ok (), d.relink (dir, target) (dir, source))
    else (.error .notFound, d) :=
  rfl

lemma exec_openRead (file : Dir × Name) : exec (.openRead file) d =
    match d.links.lookup file with
    | some i => (.ok i, d)
    | none => (.error .notFound, d) :=
  rfl

lemma exec_remove (file : Dir × Name) : exec (.remove file) d =
    if (d.links.lookup file).isSome then (.ok (), d.unlink file) else (.error .notFound, d) :=
  rfl

lemma faulty_createNew {file : Dir × Name} {ans : Except IoError Nat}
    (h : faulty (.createNew file) d ans d') :
    (∃ e, ans = .error e ∧ d' = d) ∨
      (d.links.lookup file = none ∧ ans = .ok d.next ∧ d' = d.create file) := by
  obtain h | ⟨message, rfl, rfl⟩ := h
  · rw [exec_createNew] at h
    split at h
    · obtain ⟨rfl, rfl⟩ := Prod.mk.inj h
      exact .inl ⟨_, rfl, rfl⟩
    rename_i hfree
    split at h
    · obtain ⟨rfl, rfl⟩ := Prod.mk.inj h
      exact .inr ⟨by simpa using hfree, rfl, rfl⟩
    · obtain ⟨rfl, rfl⟩ := Prod.mk.inj h
      exact .inl ⟨_, rfl, rfl⟩
  · exact .inl ⟨_, rfl, rfl⟩

lemma faulty_write {handle : Nat} {bytes : Bytes} {ans : Except IoError Unit}
    (h : faulty (.write handle bytes) d ans d') :
    (ans = .ok () ∧ d' = d.append handle bytes) ∨
      ∃ e n, ans = .error e ∧ d' = d.append handle (bytes.take n) := by
  obtain h | ⟨message, n, rfl, rfl⟩ := h
  · obtain ⟨rfl, rfl⟩ := Prod.mk.inj h
    exact .inl ⟨rfl, rfl⟩
  · exact .inr ⟨_, n, rfl, rfl⟩

lemma faulty_sync {handle : Nat} {ans : Except IoError Unit}
    (h : faulty (.sync handle) d ans d') :
    (ans = .ok () ∧ d' = d.flush handle) ∨ ∃ e, ans = .error e ∧ d' = d := by
  obtain h | ⟨message, rfl, rfl⟩ := h
  · obtain ⟨rfl, rfl⟩ := Prod.mk.inj h
    exact .inl ⟨rfl, rfl⟩
  · exact .inr ⟨_, rfl, rfl⟩

lemma faulty_rename {dir : Dir} {source target : Name} {ans : Except IoError Unit}
    (h : faulty (.rename dir source target) d ans d') :
    (∃ e, ans = .error e ∧ d' = d) ∨
      (ans = .ok () ∧ (d.links.lookup (dir, source)).isSome ∧
        d' = d.relink (dir, target) (dir, source)) := by
  obtain h | ⟨message, rfl, rfl⟩ := h
  · rw [exec_rename] at h
    split at h
    · rename_i hsome
      obtain ⟨rfl, rfl⟩ := Prod.mk.inj h
      exact .inr ⟨rfl, hsome, rfl⟩
    · obtain ⟨rfl, rfl⟩ := Prod.mk.inj h
      exact .inl ⟨_, rfl, rfl⟩
  · exact .inl ⟨_, rfl, rfl⟩

lemma faulty_openDir {dir : Option Dir} {ans : Except IoError Dir}
    (h : faulty (.openDir dir) d ans d') : d' = d := by
  obtain h | ⟨message, -, rfl⟩ := h
  · cases dir <;> exact (Prod.mk.inj h).2.symm
  · rfl

lemma faulty_syncDir {dir : Dir} {ans : Except IoError Unit}
    (h : faulty (.syncDir dir) d ans d') : d' = d := by
  obtain h | ⟨message, -, rfl⟩ := h
  · exact (Prod.mk.inj h).2.symm
  · rfl

lemma faulty_openRead {file : Dir × Name} {ans : Except IoError Nat}
    (h : faulty (.openRead file) d ans d') : d' = d ∧
      match ans with
      | .ok i => d.links.lookup file = some i
      | .error e => e.kind = .notFound → d.links.lookup file = none := by
  obtain h | ⟨message, rfl, rfl⟩ := h
  · rw [exec_openRead] at h
    split at h
    · rename_i i hlook
      obtain ⟨rfl, rfl⟩ := Prod.mk.inj h
      exact ⟨rfl, hlook⟩
    · rename_i hnone
      obtain ⟨rfl, rfl⟩ := Prod.mk.inj h
      exact ⟨rfl, fun _ => hnone⟩
  · exact ⟨rfl, fun hkind => by cases hkind⟩

lemma faulty_readToEnd {handle : Nat} {ans : Except IoError Bytes}
    (h : faulty (.readToEnd handle) d ans d') :
    d' = d ∧ ∀ bytes, ans = .ok bytes → bytes = (d.data handle).bytes := by
  obtain h | ⟨message, rfl, rfl⟩ := h
  · obtain ⟨rfl, rfl⟩ := Prod.mk.inj h
    exact ⟨rfl, fun bytes hb => (Except.ok.inj hb).symm⟩
  · exact ⟨rfl, fun bytes hb => by cases hb⟩

lemma faulty_readDir {dir : Option Dir} {ans : Except IoError (List Name)}
    (h : faulty (.readDir dir) d ans d') :
    d' = d ∧ ∀ names, ans = .ok names → dir.isSome := by
  obtain h | ⟨message, rfl, rfl⟩ := h
  · cases dir with
    | none =>
      obtain ⟨rfl, rfl⟩ := Prod.mk.inj h
      exact ⟨rfl, fun names hn => by cases hn⟩
    | some dir => exact ⟨(Prod.mk.inj h).2.symm, fun _ _ => rfl⟩
  · exact ⟨rfl, fun names hn => by cases hn⟩

lemma faulty_remove {file : Dir × Name} {ans : Except IoError Unit}
    (h : faulty (.remove file) d ans d') :
    (d' = d ∧ ∃ e, ans = .error e ∧ (e.kind = .notFound → d.links.lookup file = none)) ∨
      (ans = .ok () ∧ d' = d.unlink file) := by
  obtain h | ⟨message, rfl, rfl⟩ := h
  · rw [exec_remove] at h
    split at h
    · obtain ⟨rfl, rfl⟩ := Prod.mk.inj h
      exact .inr ⟨rfl, rfl⟩
    · rename_i hnone
      obtain ⟨rfl, rfl⟩ := Prod.mk.inj h
      exact .inl ⟨rfl, _, rfl, fun _ => by simpa using hnone⟩
  · exact .inl ⟨rfl, _, rfl, fun hkind => by cases hkind⟩

end Cases

end FileSystem
