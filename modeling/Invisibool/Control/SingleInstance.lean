import Invisibool.Control.Error
import Invisibool.Store.Calls
import Invisibool.System.Process
import Invisibool.System.Transition
import Mathlib.Data.Fintype.Basic

/-!
# The single-instance lock

`SingleInstanceLock::acquire` and its drop, run by any number of processes. The kernel keeps a
lock for an inode, not for a path, and the path may lead to another inode by the time the lock is
taken, or be removed under the process that holds it.
-/

namespace Invisibool.Control
open Text Process Relation

inductive FlockOp
  | exclusiveNonBlocking
  | unlock
  deriving DecidableEq, Repr

/-- The calls of `acquire` and of the drop. An open file is told by its inode: a process has one
lock file open at a time. -/
inductive LockCall
  | openOrCreate (path : PathBuf)
  | flock (inode : Nat) (op : FlockOp)
  | removeFile (path : PathBuf)
  | close (inode : Nat)

def LockCall.Ans : LockCall → Type
  | openOrCreate _ => Except IoError Nat
  | flock _ _ => Except IoError Unit
  | removeFile _ => Except IoError Unit
  | close _ => Unit

abbrev LockProgram (α : Type) := Prog LockCall LockCall.Ans α

/-- The lock file by its inode, and the path. -/
structure SingleInstanceLock where
  file : Nat
  path : PathBuf
  deriving DecidableEq

namespace SingleInstanceLock

/-- What `acquire` does with the answer of `flock`; on an error the file is dropped. -/
def acquired (lockPath : PathBuf) (file : Nat) :
    Except IoError Unit → LockProgram (Except ControlError SingleInstanceLock)
  | .ok () => .ret (.ok ⟨file, lockPath⟩)
  | .error e => .call (.close file) fun () => .ret (.error
      (if e = .os ewouldblock then .singleInstanceLockHeld lockPath.display else .io e))

/-- What `acquire` does with the answer of `open`. -/
def opened (lockPath : PathBuf) :
    Except IoError Nat → LockProgram (Except ControlError SingleInstanceLock)
  | .error e => .ret (.error (.io e))
  | .ok file => .call (.flock file .exclusiveNonBlocking) (acquired lockPath file)

def acquire (lockPath : PathBuf) : LockProgram (Except ControlError SingleInstanceLock) :=
  .call (.openOrCreate lockPath) (opened lockPath)

/-- Unlock, unlink, and let the file be closed; the answers are ignored. -/
def drop (lock : SingleInstanceLock) : LockProgram Unit :=
  .call (.flock lock.file .unlock) fun _ =>
    .call (.removeFile lock.path) fun _ => .call (.close lock.file) .ret

end SingleInstanceLock

/-! ### The kernel -/

section Kernel

variable (ι : Type)

/-- The inode that each path leads to, the process that has locked an inode, and the first inode
that has not been used. -/
structure Kernel where
  links : PathBuf → Option Nat
  locks : Nat → Option ι
  fresh : Nat

variable {ι}

namespace Kernel

variable [DecidableEq ι] (k : Kernel ι) (i : ι)

/-- Take away the lock of the process on the inode, if it has it. -/
def release (inode : Nat) : Kernel ι :=
  if k.locks inode = some i then { k with locks := Function.update k.locks inode none } else k

/-- Take away every lock of the process, as the end of the process does. -/
def releaseAll : Kernel ι :=
  { k with locks := fun inode => if k.locks inode = some i then none else k.locks inode }

def exec : (call : LockCall) → call.Ans × Kernel ι
  | .openOrCreate path =>
    match k.links path with
    | some inode => (.ok inode, k)
    | none => (.ok k.fresh,
        { k with links := Function.update k.links path (some k.fresh), fresh := k.fresh + 1 })
  | .flock inode .exclusiveNonBlocking =>
    match k.locks inode with
    | none => (.ok (), { k with locks := Function.update k.locks inode (some i) })
    | some j => if j = i then (.ok (), k) else (.error (.os ewouldblock), k)
  | .flock inode .unlock => (.ok (), k.release i inode)
  | .removeFile path =>
    if (k.links path).isSome then
      (.ok (), { k with links := Function.update k.links path none })
    else (.error (.os 2), k)
  | .close inode => ((), k.release i inode)

end Kernel

/-- Every call but `close` may also fail, for a reason of its own, and then changes nothing. -/
def Fails : (call : LockCall) → call.Ans → Prop
  | .openOrCreate _, ans => ∃ e, ans = .error e
  | .flock _ _, ans => ∃ e, ans = .error e
  | .removeFile _, ans => ∃ e, ans = .error e
  | .close _, _ => False

def kernelWorld [DecidableEq ι] (i : ι) : World LockCall LockCall.Ans (Kernel ι) :=
  fun call k ans k' => k.exec i call = (ans, k') ∨ (Fails call ans ∧ k' = k)

/-! ### Processes -/

/-- What a process does about the lock. -/
inductive LockHolder
  | idle
  | acquiring (p : LockProgram (Except ControlError SingleInstanceLock))
  | holding (lock : SingleInstanceLock)
  | dropping (p : LockProgram Unit)

variable (ι) in
structure Instances where
  kernel : Kernel ι
  procs : ι → LockHolder

variable [DecidableEq ι]

/-- A process begins to acquire, makes a call, comes to hold the lock or is refused, begins to
drop it, is done with it, or crashes, which takes its locks away. -/
inductive InstanceStep : Instances ι → Instances ι → Prop
  | begin {k ps i} (path : PathBuf) : ps i = .idle →
      InstanceStep ⟨k, ps⟩ ⟨k, Function.update ps i (.acquiring (SingleInstanceLock.acquire path))⟩
  | acquireCall {k ps i call next ans k'} : ps i = .acquiring (.call call next) →
      kernelWorld i call k ans k' →
      InstanceStep ⟨k, ps⟩ ⟨k', Function.update ps i (.acquiring (next ans))⟩
  | hold {k ps i lock} : ps i = .acquiring (.ret (.ok lock)) →
      InstanceStep ⟨k, ps⟩ ⟨k, Function.update ps i (.holding lock)⟩
  | refused {k ps i e} : ps i = .acquiring (.ret (.error e)) →
      InstanceStep ⟨k, ps⟩ ⟨k, Function.update ps i .idle⟩
  | beginDrop {k ps i lock} : ps i = .holding lock →
      InstanceStep ⟨k, ps⟩ ⟨k, Function.update ps i (.dropping lock.drop)⟩
  | dropCall {k ps i call next ans k'} : ps i = .dropping (.call call next) →
      kernelWorld i call k ans k' →
      InstanceStep ⟨k, ps⟩ ⟨k', Function.update ps i (.dropping (next ans))⟩
  | dropped {k ps i} : ps i = .dropping (.ret ()) →
      InstanceStep ⟨k, ps⟩ ⟨k, Function.update ps i .idle⟩
  | crash {k ps i} : InstanceStep ⟨k, ps⟩ ⟨k.releaseAll i, Function.update ps i .idle⟩

/-- The lock that the process has: it is returned, or about to be. -/
def LockHolder.Has (lock : SingleInstanceLock) : LockHolder → Prop
  | .holding lock' => lock' = lock
  | .acquiring (.ret (.ok lock')) => lock' = lock
  | _ => False

/-- No two processes hold the lock for one path. -/
def Instances.Exclusive (s : Instances ι) : Prop :=
  ∀ i j lock lock', s.procs i = .holding lock → s.procs j = .holding lock' →
    lock.path = lock'.path → i = j

/-- No process has a lock, and none has any business with one. -/
def Instances.Quiet (s : Instances ι) : Prop :=
  (∀ i, s.procs i = .idle) ∧ ∀ inode, s.kernel.locks inode = none

/-- Some process has a lock on a file that the path no longer leads to, so that it keeps nobody
out. -/
def Instances.Stale (s : Instances ι) : Prop :=
  ∃ i lock, (s.procs i).Has lock ∧ s.kernel.links lock.path ≠ some lock.file

/-- Who comes to have a lock has it on the inode that the path leads to at that moment, and no
step changes where the path of a lock leads that some process has. -/
structure Careful (s s' : Instances ι) : Prop where
  current : ∀ i lock, (s'.procs i).Has lock → (s.procs i).Has lock ∨
    s.kernel.links lock.path = some lock.file
  spared : ∀ i lock, (s.procs i).Has lock →
    s'.kernel.links lock.path = s.kernel.links lock.path

/-! ### What a process can be doing -/

/-- The places in `acquire` at which a process can be. -/
inductive AcquirePoint : LockProgram (Except ControlError SingleInstanceLock) → Prop
  | open (path : PathBuf) : AcquirePoint (SingleInstanceLock.acquire path)
  | flock (path : PathBuf) (file : Nat) :
      AcquirePoint (.call (.flock file .exclusiveNonBlocking) (SingleInstanceLock.acquired path file))
  | close (file : Nat) (e : ControlError) :
      AcquirePoint (.call (.close file) fun () => .ret (.error e))
  | ret (r : Except ControlError SingleInstanceLock) : AcquirePoint (.ret r)

variable {k k' : Kernel ι} {ps : ι → LockHolder} {s s' : Instances ι} {i j : ι} {inode : Nat}

lemma AcquirePoint.next {call : LockCall}
    {next : call.Ans → LockProgram (Except ControlError SingleInstanceLock)}
    (h : AcquirePoint (.call call next)) (ans : call.Ans) : AcquirePoint (next ans) := by
  cases h with
  | «open» path =>
    cases ans with
    | error e => exact .ret _
    | ok file => exact .flock path file
  | flock path file =>
    cases ans with
    | error e => exact .close file _
    | ok u => exact .ret _
  | close file e => exact .ret _

/-- A process comes to have a lock by a `flock` that succeeds. -/
lemma AcquirePoint.has_next {call : LockCall}
    {next : call.Ans → LockProgram (Except ControlError SingleInstanceLock)}
    (h : AcquirePoint (.call call next)) {ans : call.Ans} {lock : SingleInstanceLock}
    (hhas : (LockHolder.acquiring (next ans)).Has lock) (hworld : kernelWorld i call k ans k') :
    k'.links = k.links ∧ k'.locks lock.file = some i := by
  cases h with
  | «open» path =>
    cases ans with
    | error e => cases hhas
    | ok file => cases hhas
  | flock path file =>
    cases ans with
    | error e => cases hhas
    | ok u =>
      obtain rfl : (⟨file, path⟩ : SingleInstanceLock) = lock := hhas
      rcases hworld with hexec | ⟨⟨e, he⟩, -⟩
      · unfold Kernel.exec at hexec
        dsimp only at hexec ⊢
        split at hexec
        · obtain rfl := (Prod.mk.inj hexec).2
          exact ⟨rfl, Function.update_self _ _ _⟩
        · rename_i j hlock
          split at hexec
          · rename_i hji
            obtain rfl := (Prod.mk.inj hexec).2
            exact ⟨rfl, hji ▸ hlock⟩
          · cases (Prod.mk.inj hexec).1
      · cases he
  | close file e => cases hhas

/-! ### What a call leaves -/

lemma Kernel.locks_release (hlock : k.locks inode = some j) (hne : j ≠ i) (inode' : Nat) :
    (k.release i inode').locks inode = some j := by
  unfold Kernel.release
  split
  · rename_i hi
    have hinode : inode ≠ inode' := by
      rintro rfl
      exact hne (Option.some.inj (hlock.symm.trans hi))
    rw [← hlock]
    exact Function.update_of_ne hinode _ _
  · exact hlock

/-- No call takes the lock of another process away. -/
lemma kernelWorld.locks_other {call : LockCall} {ans : call.Ans}
    (h : kernelWorld i call k ans k') (hlock : k.locks inode = some j) (hne : j ≠ i) :
    k'.locks inode = some j := by
  rcases h with hexec | ⟨-, rfl⟩
  · cases call with
    | openOrCreate path =>
      unfold Kernel.exec at hexec
      dsimp only at hexec
      split at hexec
      · obtain rfl := (Prod.mk.inj hexec).2
        exact hlock
      · obtain rfl := (Prod.mk.inj hexec).2
        exact hlock
    | flock file op =>
      cases op with
      | exclusiveNonBlocking =>
        unfold Kernel.exec at hexec
        dsimp only at hexec
        split at hexec
        · rename_i hfree
          obtain rfl := (Prod.mk.inj hexec).2
          have hinode : inode ≠ file := by
            rintro rfl
            rw [hfree] at hlock
            cases hlock
          exact (Function.update_of_ne hinode _ _).trans hlock
        · split at hexec
          · obtain rfl := (Prod.mk.inj hexec).2
            exact hlock
          · obtain rfl := (Prod.mk.inj hexec).2
            exact hlock
      | unlock =>
        obtain rfl := (Prod.mk.inj hexec).2
        exact Kernel.locks_release hlock hne file
    | removeFile path =>
      unfold Kernel.exec at hexec
      dsimp only at hexec
      split at hexec
      · obtain rfl := (Prod.mk.inj hexec).2
        exact hlock
      · obtain rfl := (Prod.mk.inj hexec).2
        exact hlock
    | close file =>
      obtain rfl := (Prod.mk.inj hexec).2
      exact Kernel.locks_release hlock hne file
  · exact hlock

/-! ### Every lock is on the file of its path -/

structure Instances.Sound (s : Instances ι) : Prop where
  points : ∀ i p, s.procs i = .acquiring p → AcquirePoint p
  linked : ∀ i lock, (s.procs i).Has lock → s.kernel.links lock.path = some lock.file
  locked : ∀ i lock, (s.procs i).Has lock → s.kernel.locks lock.file = some i

namespace Instances.Sound

omit [DecidableEq ι] in
lemma exclusive (hs : s.Sound) : s.Exclusive := by
  intro i j lock lock' hi hj hpath
  have hi' : (s.procs i).Has lock := by rw [hi]; rfl
  have hj' : (s.procs j).Has lock' := by rw [hj]; rfl
  have hfile : lock.file = lock'.file := by
    have hlink := hs.linked i lock hi'
    rw [hpath, hs.linked j lock' hj', Option.some.injEq] at hlink
    exact hlink.symm
  have hlock := hs.locked i lock hi'
  rw [hfile, hs.locked j lock' hj', Option.some.injEq] at hlock
  exact hlock.symm

omit [DecidableEq ι] in
lemma of_quiet (hquiet : s.Quiet) : s.Sound where
  points i p hp := by rw [hquiet.1 i] at hp; cases hp
  linked i lock hhas := by rw [hquiet.1 i] at hhas; cases hhas
  locked i lock hhas := by rw [hquiet.1 i] at hhas; cases hhas

lemma points_update (hs : Sound ⟨k, ps⟩) {x : LockHolder}
    (hpoint : ∀ p, x = .acquiring p → AcquirePoint p)
    {p : LockProgram (Except ControlError SingleInstanceLock)}
    (hp : Function.update ps i x j = .acquiring p) : AcquirePoint p := by
  by_cases hji : j = i
  · subst hji
    rw [Function.update_self] at hp
    exact hpoint p hp
  · rw [Function.update_of_ne hji] at hp
    exact hs.points j p hp

/-- A process goes on without a call, and has no lock that it did not have. -/
lemma update (hs : Sound ⟨k, ps⟩) {x : LockHolder} (hpoint : ∀ p, x = .acquiring p → AcquirePoint p)
    (hhas : ∀ lock, x.Has lock → (ps i).Has lock) : Sound ⟨k, Function.update ps i x⟩ := by
  have hbefore : ∀ j lock, (Function.update ps i x j).Has lock → (ps j).Has lock := by
    intro j lock hj
    by_cases hji : j = i
    · subst hji
      rw [Function.update_self] at hj
      exact hhas lock hj
    · rwa [Function.update_of_ne hji] at hj
  constructor
  · exact fun j p hp => hs.points_update hpoint hp
  · exact fun j lock hj => hs.linked j lock (hbefore j lock hj)
  · exact fun j lock hj => hs.locked j lock (hbefore j lock hj)

/-- A process makes a call, and the kernel keeps the locks of the others. -/
lemma call (hs : Sound ⟨k, ps⟩) {x : LockHolder}
    (hlocks : ∀ inode j, j ≠ i → k.locks inode = some j → k'.locks inode = some j)
    (hlinks : ∀ j lock, (ps j).Has lock → k'.links lock.path = k.links lock.path)
    (hpoint : ∀ p, x = .acquiring p → AcquirePoint p)
    (hhas : ∀ lock, x.Has lock → k'.links lock.path = some lock.file ∧
      k'.locks lock.file = some i) : Sound ⟨k', Function.update ps i x⟩ := by
  constructor
  · exact fun j p hp => hs.points_update hpoint hp
  · intro j lock hj
    dsimp only at hj ⊢
    by_cases hji : j = i
    · subst hji
      rw [Function.update_self] at hj
      exact (hhas lock hj).1
    · rw [Function.update_of_ne hji] at hj
      rw [hlinks j lock hj]
      exact hs.linked j lock hj
  · intro j lock hj
    dsimp only at hj ⊢
    by_cases hji : j = i
    · subst hji
      rw [Function.update_self] at hj
      exact (hhas lock hj).2
    · rw [Function.update_of_ne hji] at hj
      exact hlocks lock.file j hji (hs.locked j lock hj)

lemma step (hs : s.Sound) (hstep : InstanceStep s s') (hcareful : Careful s s') : s'.Sound := by
  cases hstep with
  | begin path hidle =>
    apply hs.update
    · rintro p ⟨⟩
      exact .open path
    · rintro lock ⟨⟩
  | @acquireCall k ps i call next ans k' hi hworld =>
    have hpoint := hs.points i _ hi
    apply hs.call
    · exact fun inode j hne hlock => hworld.locks_other hlock hne
    · exact hcareful.spared
    · rintro p ⟨⟩
      exact hpoint.next ans
    · intro lock hhas
      obtain ⟨hlinks, hlocked⟩ := hpoint.has_next hhas hworld
      refine ⟨?_, hlocked⟩
      rw [hlinks]
      -- before the call the process had no lock yet
      rcases hcareful.current i lock (by simpa using hhas) with hbefore | hlink
      · dsimp only at hbefore
        rw [hi] at hbefore
        cases hbefore
      · exact hlink
  | hold hi =>
    apply hs.update
    · rintro p ⟨⟩
    · rintro lock' rfl
      rw [hi]
      rfl
  | refused hi =>
    apply hs.update
    · rintro p ⟨⟩
    · rintro lock ⟨⟩
  | beginDrop hi =>
    apply hs.update
    · rintro p ⟨⟩
    · rintro lock' ⟨⟩
  | dropCall hi hworld =>
    apply hs.call
    · exact fun inode j hne hlock => hworld.locks_other hlock hne
    · exact hcareful.spared
    · rintro p ⟨⟩
    · rintro lock' ⟨⟩
  | dropped hi =>
    apply hs.update
    · rintro p ⟨⟩
    · rintro lock ⟨⟩
  | @crash k ps i =>
    apply hs.call
    · intro inode j hne hlock
      unfold Kernel.releaseAll
      dsimp only
      rw [hlock, if_neg (fun heq => hne (Option.some.inj heq))]
    · exact fun _ _ _ => rfl
    · rintro p ⟨⟩
    · rintro lock ⟨⟩

end Instances.Sound

/-! ### A step that is not careful -/

/-- A process that comes to have a lock changes no path. -/
lemma InstanceStep.has_or (hs : s.Sound) (hstep : InstanceStep s s') {lock : SingleInstanceLock}
    (hhas : (s'.procs i).Has lock) :
    (s.procs i).Has lock ∨ s'.kernel.links = s.kernel.links := by
  cases hstep with
  | @acquireCall k ps j call next ans k' hj hworld =>
    dsimp only at hhas ⊢
    by_cases hij : i = j
    · subst hij
      rw [Function.update_self] at hhas
      exact .inr ((hs.points i _ hj).has_next hhas hworld).1
    · rw [Function.update_of_ne hij] at hhas
      exact .inl hhas
  | @dropCall k ps j call next ans k' hj hworld =>
    dsimp only at hhas ⊢
    by_cases hij : i = j
    · subst hij
      rw [Function.update_self] at hhas
      cases hhas
    · rw [Function.update_of_ne hij] at hhas
      exact .inl hhas
  | begin => exact .inr rfl
  | hold => exact .inr rfl
  | refused => exact .inr rfl
  | beginDrop => exact .inr rfl
  | dropped => exact .inr rfl
  | crash => exact .inr rfl

/-- A path is changed by a process that has no lock itself. -/
lemma InstanceStep.has_of_relinked (hstep : InstanceStep s s') {lock : SingleInstanceLock}
    (hhas : (s.procs i).Has lock)
    (hlink : s'.kernel.links lock.path ≠ s.kernel.links lock.path) : (s'.procs i).Has lock := by
  cases hstep with
  | @acquireCall k ps j call next ans k' hj hworld =>
    dsimp only at hhas ⊢
    have hij : i ≠ j := by
      rintro rfl
      rw [hj] at hhas
      cases hhas
    rwa [Function.update_of_ne hij]
  | @dropCall k ps j call next ans k' hj hworld =>
    dsimp only at hhas ⊢
    have hij : i ≠ j := by
      rintro rfl
      rw [hj] at hhas
      cases hhas
    rwa [Function.update_of_ne hij]
  | begin => exact absurd rfl hlink
  | hold => exact absurd rfl hlink
  | refused => exact absurd rfl hlink
  | beginDrop => exact absurd rfl hlink
  | dropped => exact absurd rfl hlink
  | crash => exact absurd rfl hlink

lemma Instances.Sound.stale_of_not_careful (hs : s.Sound) (hstep : InstanceStep s s')
    (hcareless : ¬Careful s s') : s'.Stale := by
  by_contra hfresh
  have hlinked : ∀ i lock, (s'.procs i).Has lock →
      s'.kernel.links lock.path = some lock.file := by
    intro i lock hhas
    by_contra hlink
    exact hfresh ⟨i, lock, hhas, hlink⟩
  apply hcareless
  constructor
  · intro i lock hhas
    rcases hstep.has_or hs hhas with hbefore | hlinks
    · exact .inl hbefore
    · exact .inr (hlinks ▸ hlinked i lock hhas)
  · intro i lock hhas
    by_contra hlink
    apply hlink
    rw [hlinked i lock (hstep.has_of_relinked hhas hlink), hs.linked i lock hhas]

/-- Any number of processes, in any interleaving: while every lock that is taken is on the file
that its path leads to, and nobody takes that file away, at most one process holds the lock of a
path. The first step that is not so leaves a lock that keeps nobody out. -/
theorem single_instance {s₀ : Instances ι} (hquiet : s₀.Quiet)
    (hrun : ReflTransGen (fun s s' => InstanceStep s s' ∧ Careful s s') s₀ s) :
    s.Exclusive ∧ ∀ s', InstanceStep s s' → ¬Careful s s' → s'.Stale := by
  have hsound : s.Sound := by
    induction hrun with
    | refl => exact .of_quiet hquiet
    | tail _ hstep ih => exact ih.step hstep.1 hstep.2
  exact ⟨hsound.exclusive, fun s' => hsound.stale_of_not_careful⟩

/-! ### A schedule -/

/-- The next step of a process, when no call fails for a reason of its own: one that is idle
begins, and one that holds the lock drops it. -/
def Instances.turn (path : PathBuf) (s : Instances ι) (i : ι) : Instances ι :=
  match s.procs i with
  | .idle => ⟨s.kernel, Function.update s.procs i (.acquiring (SingleInstanceLock.acquire path))⟩
  | .acquiring (.call call next) =>
    ⟨(s.kernel.exec i call).2,
      Function.update s.procs i (.acquiring (next (s.kernel.exec i call).1))⟩
  | .acquiring (.ret (.ok lock)) => ⟨s.kernel, Function.update s.procs i (.holding lock)⟩
  | .acquiring (.ret (.error _)) => ⟨s.kernel, Function.update s.procs i .idle⟩
  | .holding lock => ⟨s.kernel, Function.update s.procs i (.dropping lock.drop)⟩
  | .dropping (.call call next) =>
    ⟨(s.kernel.exec i call).2,
      Function.update s.procs i (.dropping (next (s.kernel.exec i call).1))⟩
  | .dropping (.ret ()) => ⟨s.kernel, Function.update s.procs i .idle⟩

lemma Instances.turn_step (path : PathBuf) (s : Instances ι) (i : ι) :
    InstanceStep s (s.turn path i) := by
  unfold Instances.turn
  split
  · exact .begin path ‹_›
  · exact .acquireCall ‹_› (.inl rfl)
  · exact .hold ‹_›
  · exact .refused ‹_›
  · exact .beginDrop ‹_›
  · exact .dropCall ‹_› (.inl rfl)
  · exact .dropped ‹_›

/-- The lock that the process has, if it has one. -/
def LockHolder.lock? : LockHolder → Option SingleInstanceLock
  | .holding lock => some lock
  | .acquiring (.ret (.ok lock)) => some lock
  | _ => none

lemma LockHolder.has_iff {lock : SingleInstanceLock} {holder : LockHolder} :
    holder.Has lock ↔ lock ∈ holder.lock? := by
  unfold LockHolder.Has LockHolder.lock?
  split <;> simp

omit [DecidableEq ι] in
lemma careful_iff : Careful s s' ↔
    (∀ i, ∀ lock ∈ (s'.procs i).lock?,
      lock ∈ (s.procs i).lock? ∨ s.kernel.links lock.path = some lock.file) ∧
    ∀ i, ∀ lock ∈ (s.procs i).lock?, s'.kernel.links lock.path = s.kernel.links lock.path := by
  simp only [← LockHolder.has_iff]
  exact ⟨fun h => ⟨h.current, h.spared⟩, fun h => ⟨h.1, h.2⟩⟩

instance [Fintype ι] (s s' : Instances ι) : Decidable (Careful s s') :=
  decidable_of_iff' _ careful_iff

def turns (path : PathBuf) : Transition.System (Instances ι) ι :=
  ⟨fun _ _ => True, Instances.turn path⟩

instance (path : PathBuf) (s : Instances ι) (i : ι) : Decidable ((turns path).Enabled s i) :=
  .isTrue trivial

/-- The turn of the process is careful. -/
def CarefulTurn (path : PathBuf) (s : Instances ι) (i : ι) : Prop := Careful s (s.turn path i)

instance [Fintype ι] (path : PathBuf) (s : Instances ι) (i : ι) : Decidable (CarefulTurn path s i) :=
  inferInstanceAs (Decidable (Careful _ _))

lemma careful_reach {path : PathBuf} {order : List ι}
    (h : (turns path).Runs (CarefulTurn path) s order) :
    ReflTransGen (fun s s' => InstanceStep s s' ∧ Careful s s') s ((turns path).after s order) := by
  refine ReflTransGen.mono ?_ _ _ h.reaches
  rintro s _ ⟨i, -, hcareful, rfl⟩
  exact ⟨s.turn_step path i, hcareful⟩

lemma Instances.turns_reach (path : PathBuf) (s : Instances ι) (order : List ι) :
    ReflTransGen InstanceStep s (order.foldl (Instances.turn path) s) := by
  induction order generalizing s with
  | nil => exact .refl
  | cons i order ih => exact .head (s.turn_step path i) (ih (s.turn path i))

end Kernel

/-! ### Three processes -/

/-- The machine before the first daemon is started. -/
def threeIdle : Instances (Fin 3) := ⟨⟨fun _ => none, fun _ => none, 0⟩, fun _ => .idle⟩

lemma quiet_threeIdle : threeIdle.Quiet := ⟨fun _ => rfl, fun _ => rfl⟩

def lockPath : PathBuf := ⟨"run".toList, false, "ctl.lock".toList⟩

/-- The first process acquires the lock and begins to drop it, the second opens the file before
the first unlocks it, and locks it afterwards; the first unlinks it, and the third creates and
locks another one. -/
theorem single_instance_broken : threeIdle.Quiet ∧
    ∃ s, ReflTransGen InstanceStep threeIdle s ∧ ¬s.Exclusive := by
  refine ⟨quiet_threeIdle, _,
    threeIdle.turns_reach lockPath [0, 0, 0, 0, 1, 1, 0, 0, 1, 1, 0, 2, 2, 2, 2], fun h => ?_⟩
  have hsame : (1 : Fin 3) = 2 := h 1 2 ⟨0, lockPath⟩ ⟨1, lockPath⟩ rfl rfl rfl
  exact absurd hsame (by decide)

/-- The first process acquires the lock and the second is refused; the first drops the lock, and
then the second acquires it. -/
def handedOn : List (Fin 3) :=
  List.replicate 4 0 ++ List.replicate 5 1 ++ List.replicate 5 0 ++ List.replicate 4 1

theorem single_instance_handed_on :
    let refused := (handedOn.take 8).foldl (Instances.turn lockPath) threeIdle
    let s := handedOn.foldl (Instances.turn lockPath) threeIdle
    refused.procs 0 = .holding ⟨0, lockPath⟩ ∧
      refused.procs 1 = .acquiring (.ret (.error (.singleInstanceLockHeld lockPath.display))) ∧
      s.procs 1 = .holding ⟨1, lockPath⟩ ∧ s.Exclusive ∧
      ∀ s', InstanceStep s s' → ¬Careful s s' → s'.Stale := by
  intro refused s
  have hcareful : (turns lockPath).Runs (CarefulTurn lockPath) threeIdle handedOn := by
    decide +kernel
  exact ⟨rfl, rfl, rfl, single_instance quiet_threeIdle (careful_reach hcareful)⟩

end Invisibool.Control
