import Invisibool.Control.SingleInstance
import Invisibool.Control.Startup

/-!
# Daemons

Any number of daemons are started, serve, stop and crash, each at a path of its own choice. Each
prepares its directory, takes the lock next to its socket, takes a stale socket away, binds, and
undoes this in the other order when it stops. A daemon that meets an error exits, as one that is
killed does: the kernel takes its locks and its listeners away, and its files stay.
-/

namespace Invisibool.Control
open Text Process Relation

/-- `socket_path.with_file_name("ctl.lock")`. -/
def lockFile (socketPath : PathBuf) : PathBuf := { socketPath with name := "ctl.lock".toList }

inductive DaemonPhase
  | off
  | preparing (path : PathBuf) (p : SocketProgram (Except StartError Unit))
  | locking (path : PathBuf)
  | starting (path : PathBuf) (p : SocketProgram (Except StartError UnixServer))
  | serving (server : UnixServer)
  | closing (server : UnixServer) (p : SocketProgram Unit)
  | unlocking

/-- The daemon has taken the lock for the path. -/
def DaemonPhase.At (path : PathBuf) : DaemonPhase → Prop
  | .starting path' _ => path' = path
  | .serving server => server.socketPath = path
  | .closing server _ => server.socketPath = path
  | _ => False

structure Daemons (ι : Type) where
  sockets : Sockets ι
  instances : Instances ι
  phases : ι → DaemonPhase

section Daemons

variable {ι : Type} [DecidableEq ι]

namespace Daemons

variable (m : Daemons ι) (i : ι)

/-- The process goes on to a phase, and may have made a call about its socket. -/
def goes (phase : DaemonPhase) (s : Sockets ι) : Daemons ι :=
  { m with sockets := s, phases := Function.update m.phases i phase }

/-- The process does something about the lock. -/
def locks (k : Kernel ι) (x : LockHolder) : Daemons ι :=
  { m with instances := ⟨k, Function.update m.instances.procs i x⟩ }

@[simp] lemma phases_goes_self (phase : DaemonPhase) (s : Sockets ι) :
    (m.goes i phase s).phases i = phase := Function.update_self _ _ _

@[simp] lemma procs_locks_self (k : Kernel ι) (x : LockHolder) :
    (m.locks i k x).instances.procs i = x := Function.update_self _ _ _

@[simp] lemma phases_locks (k : Kernel ι) (x : LockHolder) :
    (m.locks i k x).phases = m.phases := rfl

lemma goes_self : m.goes i (m.phases i) m.sockets = m := by
  unfold goes
  rw [Function.update_eq_self]

/-- Nothing runs yet, whatever earlier daemons have left behind. -/
structure Quiet : Prop where
  phases : ∀ i, m.phases i = .off
  instances : m.instances.Quiet
  listeners : ∀ inode, m.sockets.listeners inode = none
  files : ∀ path file, m.sockets.files path = some file → file.inode < m.sockets.fresh

end Daemons

/-- The steps of the daemons. No socket is named like a lock, so that what is done to the one is
nothing to the other. None of the calls about its socket fails that a sure daemon makes. -/
inductive DaemonStep (sure : ι → Prop) : Daemons ι → Daemons ι → Prop
  | boot {m i} (path : PathBuf) : m.phases i = .off → path.name ≠ (lockFile path).name →
      DaemonStep sure m (m.goes i (.preparing path (prepareParentDir0700 path)) m.sockets)
  | prepareCall {m i path call next ans s'} : m.phases i = .preparing path (.call call next) →
      socketWorld (sure i) i call m.sockets ans s' →
      DaemonStep sure m (m.goes i (.preparing path (next ans)) s')
  | lock {m i path} : m.phases i = .preparing path (.ret (.ok ())) →
      m.instances.procs i = .idle →
      DaemonStep sure m ((m.goes i (.locking path) m.sockets).locks i m.instances.kernel
        (.acquiring (SingleInstanceLock.acquire (lockFile path))))
  | lockCall {m i path call next ans k'} : m.phases i = .locking path →
      m.instances.procs i = .acquiring (.call call next) →
      kernelWorld i call m.instances.kernel ans k' →
      DaemonStep sure m (m.locks i k' (.acquiring (next ans)))
  | locked {m i path lock} : m.phases i = .locking path →
      m.instances.procs i = .acquiring (.ret (.ok lock)) →
      DaemonStep sure m ((m.goes i (.starting path (startUp path)) m.sockets).locks i
        m.instances.kernel (.holding lock))
  | startCall {m i path call next ans s'} : m.phases i = .starting path (.call call next) →
      socketWorld (sure i) i call m.sockets ans s' →
      DaemonStep sure m (m.goes i (.starting path (next ans)) s')
  | started {m i path server} : m.phases i = .starting path (.ret (.ok server)) →
      DaemonStep sure m (m.goes i (.serving server) m.sockets)
  | stop {m i server} : m.phases i = .serving server →
      DaemonStep sure m (m.goes i (.closing server server.closeDown) m.sockets)
  | closeCall {m i server call next ans s'} : m.phases i = .closing server (.call call next) →
      socketWorld (sure i) i call m.sockets ans s' →
      DaemonStep sure m (m.goes i (.closing server (next ans)) s')
  | unlock {m i server lock} : m.phases i = .closing server (.ret ()) →
      m.instances.procs i = .holding lock →
      DaemonStep sure m ((m.goes i .unlocking m.sockets).locks i m.instances.kernel
        (.dropping lock.drop))
  | unlockCall {m i call next ans k'} : m.phases i = .unlocking →
      m.instances.procs i = .dropping (.call call next) →
      kernelWorld i call m.instances.kernel ans k' →
      DaemonStep sure m (m.locks i k' (.dropping (next ans)))
  | finished {m i} : m.phases i = .unlocking → m.instances.procs i = .dropping (.ret ()) →
      DaemonStep sure m ((m.goes i .off m.sockets).locks i m.instances.kernel .idle)
  | exit {m i} : DaemonStep sure m ((m.goes i .off (m.sockets.closeAll i)).locks i
      (m.instances.kernel.releaseAll i) .idle)

variable {sure : ι → Prop} {m m' : Daemons ι} {i j : ι} {path : PathBuf}

/-- What a daemon does about the lock is what any process may do. -/
lemma DaemonStep.instances (h : DaemonStep sure m m') :
    m'.instances = m.instances ∨ InstanceStep m.instances m'.instances := by
  cases h with
  | boot | prepareCall | startCall | started | stop | closeCall => exact .inl rfl
  | lock _ hidle => exact .inr (.begin _ hidle)
  | lockCall _ hi hcall => exact .inr (.acquireCall hi hcall)
  | locked _ hi => exact .inr (.hold hi)
  | unlock _ hi => exact .inr (.beginDrop hi)
  | unlockCall _ hi hcall => exact .inr (.dropCall hi hcall)
  | finished _ hi => exact .inr (.dropped hi)
  | exit => exact .inr .crash

/-- Whatever is answered, a lock that is returned is the one for the path. -/
def Names (path : PathBuf) (p : LockProgram (Except ControlError SingleInstanceLock)) : Prop :=
  Holds (fun _ (_ : Unit) _ _ => True) (fun _ _ => True) (fun _ _ => True)
    (fun r _ => ∀ lock, r = .ok lock → lock.path = lockFile path) p ()

lemma acquire_names (path : PathBuf) : Names path (SingleInstanceLock.acquire (lockFile path)) := by
  intro _ _ ans _ _
  refine ⟨trivial, ?_⟩
  cases ans with
  | error e => exact fun _ _ lock h => by cases h
  | ok file =>
    intro _ _ ans _ _
    refine ⟨trivial, ?_⟩
    cases ans with
    | error e => exact fun _ _ _ _ _ => ⟨trivial, fun _ _ lock h => by cases h⟩
    | ok u => exact fun _ _ lock h => by cases h; rfl

/-- The process has the lock for the path. -/
def HoldsLock (path : PathBuf) (x : LockHolder) : Prop :=
  ∃ lock, x = .holding lock ∧ lock.path = lockFile path

/-- What the program of a daemon comes to that has taken the lock for the path. -/
abbrev Running (sure : Prop) (path : PathBuf) (i : ι) {α : Type} (post : α → Sockets ι → Prop)
    (p : SocketProgram α) (s : Sockets ι) : Prop :=
  Holds (socketWorld sure i) (Sockets.Spares path i)
    (fun s s' => s.Placed → Sockets.KeepsTo path i s s') post p s

/-- What is so in a phase, and what is left of its program comes to. -/
def DaemonPhase.Fits (sure : Prop) (i : ι) (s : Sockets ι) (x : LockHolder) : DaemonPhase → Prop
  | .off => True
  | .preparing path p => Holds (socketWorld sure i)
      (fun s s' => ∀ dir, s.Private dir → s'.Private dir) Sockets.DirsOnly
      (fun r s => r = .ok () → s.Private path.parent) p s
  | .locking path => s.Private path.parent ∧ ∀ p, x = .acquiring p → Names path p
  | .starting path p => HoldsLock path x ∧ Running sure path i (Started sure path i) p s
  | .serving server => HoldsLock server.socketPath x ∧ s.Bound i server
  | .closing server p => HoldsLock server.socketPath x ∧
      Running sure server.socketPath i (fun _ s => s.Vacant server.socketPath) p s
  | .unlocking => True

structure Daemons.Sound (sure : ι → Prop) (m : Daemons ι) : Prop where
  instances : m.instances.Sound
  placed : m.sockets.Placed
  /-- Whoever listens at a path has taken the lock for it. -/
  home : ∀ path file l, m.sockets.files path = some file →
    m.sockets.listeners file.inode = some l → (m.phases l.owner).At path
  fits : ∀ i, (m.phases i).Fits (sure i) i m.sockets (m.instances.procs i)

/-! ### What a step leaves to the others -/

variable {phase : DaemonPhase} {s s' : Sockets ι} {x : LockHolder} {path' : PathBuf} {b : Prop}

lemma DaemonPhase.At.unique (h : phase.At path) (h' : phase.At path') : path = path' := by
  cases phase with
  | starting | serving | closing => exact h.symm.trans h'
  | off | preparing | locking | unlocking => exact h.elim

lemma DaemonPhase.Fits.holdsLock (hfits : phase.Fits b i s x) (h : phase.At path) :
    HoldsLock path x := by
  cases phase with
  | starting | serving | closing =>
    cases h
    exact hfits.1
  | off | preparing | locking | unlocking => exact h.elim

/-- What a phase needs, the steps of the others leave. -/
lemma DaemonPhase.Fits.spared (hfits : phase.Fits b i s x)
    (hdirs : ∀ dir, s.Private dir → s'.Private dir)
    (hspares : ∀ path, phase.At path → Sockets.Spares path i s s') : phase.Fits b i s' x := by
  have htrans : ∀ path (s s' s'' : Sockets ι), Sockets.Spares path i s s' →
      Sockets.Spares path i s' s'' → Sockets.Spares path i s s'' := fun _ _ _ _ h h' => h.trans h'
  cases phase with
  | off | unlocking => trivial
  | preparing path p =>
    exact Holds.stable (fun _ _ _ h h' dir hd => h' dir (h dir hd)) hfits hdirs
  | locking path => exact ⟨hdirs _ hfits.1, hfits.2⟩
  | starting path p => exact ⟨hfits.1, hfits.2.stable (htrans path) (hspares path rfl)⟩
  | serving server => exact ⟨hfits.1, hfits.2.spared (hspares _ rfl)⟩
  | closing server p => exact ⟨hfits.1, hfits.2.stable (htrans _) (hspares _ rfl)⟩

namespace Daemons.Sound

/-- The lock keeps two daemons from one path. -/
lemma apart (h : m.Sound sure) (hi : (m.phases i).At path) (hj : (m.phases j).At path')
    (hne : j ≠ i) : path' ≠ path := by
  rintro rfl
  obtain ⟨lock, hlock, hpath⟩ := (h.fits i).holdsLock hi
  obtain ⟨lock', hlock', hpath'⟩ := (h.fits j).holdsLock hj
  exact hne (h.instances.exclusive j i lock' lock hlock' hlock (hpath'.trans hpath.symm))

/-- A daemon takes a step that the others can rely on. -/
lemma of_step (h : m.Sound sure) (hinstances : m'.instances.Sound)
    (hothers : ∀ j, j ≠ i → m'.phases j = m.phases j ∧
      m'.instances.procs j = m.instances.procs j)
    (hplaced : m'.sockets.Placed)
    (hdirs : ∀ dir, m.sockets.Private dir → m'.sockets.Private dir)
    (hspares : ∀ j, j ≠ i → ∀ path, (m.phases j).At path →
      Sockets.Spares path j m.sockets m'.sockets)
    (hhome : ∀ path file l, m'.sockets.files path = some file →
      m'.sockets.listeners file.inode = some l → l.owner = i ∧ (m'.phases i).At path ∨
        l.owner ≠ i ∧ ∃ file₀ l₀, m.sockets.files path = some file₀ ∧
          m.sockets.listeners file₀.inode = some l₀ ∧ l₀.owner = l.owner)
    (hfits : (m'.phases i).Fits (sure i) i m'.sockets (m'.instances.procs i)) :
    m'.Sound sure where
  instances := hinstances
  placed := hplaced
  home path file l hfile hl := by
    rcases hhome path file l hfile hl with ⟨rfl, hat⟩ | ⟨hne, file₀, l₀, hfile₀, hl₀, howner⟩
    · exact hat
    · rw [(hothers l.owner hne).1, ← howner]
      exact h.home path file₀ l₀ hfile₀ hl₀
  fits j := by
    by_cases hj : j = i
    · subst hj
      exact hfits
    · obtain ⟨hphase, hproc⟩ := hothers j hj
      rw [hphase, hproc]
      exact (h.fits j).spared hdirs (hspares j hj)

/-- A daemon that has not taken a lock yet, or not any more, listens nowhere. -/
lemma absent (h : m.Sound sure) (hi : ∀ path, ¬(m.phases i).At path) (path : PathBuf)
    (file : SocketFile) (l : Listener ι) (hfile : m.sockets.files path = some file)
    (hl : m.sockets.listeners file.inode = some l) : l.owner ≠ i := by
  rintro rfl
  exact hi path (h.home path file l hfile hl)

/-- A daemon that listens nowhere does no more than prepare its directory. -/
lemma goes_absent (h : m.Sound sure) {phase : DaemonPhase} (hi : ∀ path, ¬(m.phases i).At path)
    (hdirs : Sockets.DirsOnly m.sockets s')
    (hfits : phase.Fits (sure i) i s' (m.instances.procs i)) : (m.goes i phase s').Sound sure := by
  refine h.of_step (i := i) h.instances (fun j hj => ⟨Function.update_of_ne hj _ _, rfl⟩)
    (hdirs.placed h.placed) hdirs.dirs (fun j _ path _ => hdirs.spares path j)
    (fun path file l hfile hl => ?_) ?_
  · change s'.files path = some file at hfile
    change s'.listeners file.inode = some l at hl
    rw [hdirs.files] at hfile
    rw [hdirs.listeners] at hl
    exact .inr ⟨h.absent hi path file l hfile hl, file, l, hfile, hl, rfl⟩
  · rw [phases_goes_self]
    exact hfits

/-- A daemon that listens nowhere does something about its lock. -/
lemma locks_absent (h : m.Sound sure) {phase : DaemonPhase} {k : Kernel ι}
    (habsent : ∀ path file l, m.sockets.files path = some file →
      m.sockets.listeners file.inode = some l → l.owner ≠ i)
    (hinstances : ((m.goes i phase m.sockets).locks i k x).instances.Sound)
    (hfits : phase.Fits (sure i) i m.sockets x) :
    ((m.goes i phase m.sockets).locks i k x).Sound sure := by
  refine h.of_step (i := i) hinstances
    (fun j hj => ⟨Function.update_of_ne hj _ _, Function.update_of_ne hj _ _⟩) h.placed
    (fun _ hd => hd) (fun j _ path _ => .refl path j _)
    (fun path file l hfile hl => .inr ⟨habsent path file l hfile hl, file, l, hfile, hl, rfl⟩) ?_
  rw [phases_locks, phases_goes_self, procs_locks_self]
  exact hfits

/-- A daemon that has taken the lock for the path does something there. -/
lemma of_keepsTo (h : m.Sound sure) {phase : DaemonPhase} (hi : (m.phases i).At path)
    (hphase : phase.At path) (hkeeps : Sockets.KeepsTo path i m.sockets s')
    (hfits : phase.Fits (sure i) i s' (m.instances.procs i)) : (m.goes i phase s').Sound sure := by
  refine h.of_step (i := i) h.instances (fun j hj => ⟨Function.update_of_ne hj _ _, rfl⟩)
    (hkeeps.placed h.placed) hkeeps.dirs
    (fun j hj path' hpath' => hkeeps.spares (h.apart hi hpath' hj) hj)
    (fun path' file l hfile hl => ?_) ?_
  · rw [phases_goes_self]
    by_cases howner : l.owner = i
    · refine .inl ⟨howner, ?_⟩
      by_cases hpath : path' = path
      · exact hpath ▸ hphase
      · -- the daemon listens at its own path only
        have hold : m.sockets.files path' = some file := (hkeeps.files path' hpath).symm.trans hfile
        rcases hkeeps.listener _ _ hl with ⟨l₀, hl₀, heq⟩ | ⟨-, hfresh, -⟩
        · have hat := h.home path' file l₀ hold hl₀
          rw [heq, howner] at hat
          exact absurd (hat.unique hi) hpath
        · exact absurd (h.placed.file path' file hold) (Nat.not_lt.mpr hfresh)
    · refine .inr ⟨howner, ?_⟩
      rcases hkeeps.listener _ _ hl with ⟨l₀, hl₀, heq⟩ | ⟨hmine, -, -⟩
      · by_cases hpath : path' = path
        · subst hpath
          rcases hkeeps.file file hfile with ⟨file₀, hfile₀, hinode⟩ | ⟨hfresh, -⟩
          · exact ⟨file₀, l₀, hfile₀, hinode ▸ hl₀, heq⟩
          · exact absurd (h.placed.listener _ l₀ hl₀) (Nat.not_lt.mpr hfresh)
        · exact ⟨file, l₀, (hkeeps.files path' hpath).symm.trans hfile, hl₀, heq⟩
      · exact absurd hmine howner
  · rw [phases_goes_self]
    exact hfits

/-- A daemon that has taken the lock for the path makes a call. -/
lemma running (h : m.Sound sure) {α : Type} {post : α → Sockets ι → Prop} {call : SocketCall}
    {next : call.Ans → SocketProgram α} {ans : call.Ans}
    (hrun : Running (sure i) path i post (.call call next) m.sockets)
    (hcall : socketWorld (sure i) i call m.sockets ans s') :
    Sockets.KeepsTo path i m.sockets s' ∧ Running (sure i) path i post (next ans) s' := by
  obtain ⟨hkeeps, hnext⟩ := hrun _ (.refl path i _) ans s' hcall
  exact ⟨hkeeps h.placed, hnext⟩

/-- A daemon that is booted prepares its directory first. -/
lemma boots (h : m.Sound sure) (hoff : m.phases i = .off) :
    (m.goes i (.preparing path (prepareParentDir0700 path)) m.sockets).Sound sure := by
  refine h.goes_absent (fun path' hat => by rw [hoff] at hat; exact hat) (.refl _) ?_
  have hprepare : Holds (socketWorld (sure i) i)
      (fun s s' => ∀ dir, s.Private dir → s'.Private dir) (fun _ _ => True) _
      (prepareParent path.parent) m.sockets := prepareParent_holds fun _ _ hs => hs
  exact (hprepare.guaranteed (prepareParent_onDir path.parent)
    fun op s ans s' hop hcall => socketWorld.dirsOnly hcall hop).mono
      (fun _ _ hdirs => hdirs) fun r s' hr => hr.1

/-- Whoever has just taken the lock for the path finds it vacant. -/
lemma vacant_of_locked (h : m.Sound sure) {lock : SingleInstanceLock}
    (hnot : ∀ path', ¬(m.phases i).At path') (hpath : lock.path = lockFile path)
    (hdir : m.sockets.Private path.parent)
    (hexclusive : (m.locks i m.instances.kernel (.holding lock)).instances.Exclusive) :
    m.sockets.Vacant path := by
  refine ⟨fun file hfile => ⟨h.placed.file path file hfile, ?_⟩, hdir⟩
  by_contra hsome
  obtain ⟨l, hl⟩ := Option.ne_none_iff_exists'.mp hsome
  -- who listens has the lock that this daemon has just taken
  have hne := h.absent hnot path file l hfile hl
  obtain ⟨lock', hproc', hpath'⟩ := (h.fits l.owner).holdsLock (h.home path file l hfile hl)
  exact hne (hexclusive l.owner i lock' lock ((Function.update_of_ne hne _ _).trans hproc')
    (Function.update_self _ _ _) (hpath'.trans hpath.symm))

/-- A daemon that has closed its socket listens nowhere. -/
lemma absent_of_vacant (h : m.Sound sure) {server : UnixServer} {p : SocketProgram Unit}
    (hi : m.phases i = .closing server p) (hvacant : m.sockets.Vacant server.socketPath)
    (path : PathBuf) (file : SocketFile) (l : Listener ι)
    (hfile : m.sockets.files path = some file)
    (hl : m.sockets.listeners file.inode = some l) : l.owner ≠ i := by
  rintro rfl
  -- the daemon listened at its own path only, and does not any more
  have hat := h.home path file l hfile hl
  rw [hi] at hat
  obtain rfl : server.socketPath = path := hat
  rw [(hvacant.file file hfile).2] at hl
  cases hl

/-- A daemon that ends lets go of all that it has. -/
lemma exits (h : m.Sound sure)
    (hinstances : ((m.goes i .off (m.sockets.closeAll i)).locks i (m.instances.kernel.releaseAll i)
      .idle).instances.Sound) :
    ((m.goes i .off (m.sockets.closeAll i)).locks i (m.instances.kernel.releaseAll i)
      .idle).Sound sure := by
  refine h.of_step (i := i) hinstances
    (fun j hj => ⟨Function.update_of_ne hj _ _, Function.update_of_ne hj _ _⟩)
    ⟨h.placed.file, fun inode l hl => h.placed.listener inode l (Sockets.listeners_closeAll hl).1⟩
    (fun _ hd => hd) (fun j hj path _ => Sockets.closeAll_spares hj)
    (fun path file l hfile hl => ?_) ?_
  · obtain ⟨hl, hne⟩ := Sockets.listeners_closeAll hl
    exact .inr ⟨hne, file, l, hfile, hl, rfl⟩
  · rw [phases_locks, phases_goes_self]
    trivial

lemma step (h : m.Sound sure) (hstep : DaemonStep sure m m')
    (hcareful : Careful m.instances m'.instances) : m'.Sound sure := by
  have hinstances : m'.instances.Sound := by
    rcases hstep.instances with heq | hinst
    · rw [heq]
      exact h.instances
    · exact h.instances.step hinst hcareful
  cases hstep with
  | @boot i path hoff => exact h.boots hoff
  | @prepareCall i path call next ans s' hi hcall =>
    have hfits := h.fits i
    rw [hi] at hfits
    obtain ⟨hdirs, hnext⟩ := hfits _ (fun _ hd => hd) ans s' hcall
    exact h.goes_absent (fun path' hat => by rw [hi] at hat; exact hat) hdirs hnext
  | @lock i path hi hidle =>
    have hfits := h.fits i
    rw [hi] at hfits
    refine h.locks_absent (h.absent fun path' hat => by rw [hi] at hat; exact hat) hinstances
      ⟨hfits _ (fun _ hd => hd) rfl, fun p hp => ?_⟩
    cases hp
    exact acquire_names path
  | @lockCall i path call next ans k' hi hproc hcall =>
    have hfits := h.fits i
    rw [hi, hproc] at hfits
    have hsound := h.locks_absent (i := i) (k := k') (x := .acquiring (next ans))
      (h.absent fun path' hat => by rw [hi] at hat; exact hat)
      (by rw [m.goes_self]; exact hinstances)
      (by
        rw [hi]
        refine ⟨hfits.1, fun p hp => ?_⟩
        cases hp
        exact (hfits.2 _ rfl () trivial ans () trivial).2)
    rwa [m.goes_self] at hsound
  | @locked i path lock hi hproc =>
    have hfits := h.fits i
    rw [hi, hproc] at hfits
    have hpath := hfits.2 _ rfl () trivial lock rfl
    have hnot : ∀ path', ¬(m.phases i).At path' := fun path' hat => by rw [hi] at hat; exact hat
    have hvacant := h.vacant_of_locked hnot hpath hfits.1 hinstances.exclusive
    exact h.locks_absent (h.absent hnot) hinstances ⟨⟨lock, rfl, hpath⟩,
      (startUp_holds hvacant).guaranteed (startUp_at path)
        fun op s ans s' hop hcall => socketWorld.keepsTo hcall hop⟩
  | @startCall i path call next ans s' hi hcall =>
    have hfits := h.fits i
    rw [hi] at hfits
    obtain ⟨hkeeps, hnext⟩ := h.running hfits.2 hcall
    exact h.of_keepsTo (by rw [hi]; rfl) rfl hkeeps ⟨hfits.1, hnext⟩
  | @started i path server hi =>
    have hfits := h.fits i
    rw [hi] at hfits
    obtain ⟨rfl, hbound⟩ := (hfits.2 _ (.refl path i _)).1 server rfl
    exact h.of_keepsTo (by rw [hi]; rfl) rfl (.refl _ i _) ⟨hfits.1, hbound⟩
  | @stop i server hi =>
    have hfits := h.fits i
    rw [hi] at hfits
    refine h.of_keepsTo (by rw [hi]; rfl) rfl (.refl _ i _) ⟨hfits.1, ?_⟩
    exact (UnixServer.closeDown_holds hfits.2).guaranteed server.closeDown_at
      fun op s ans s' hop hcall => socketWorld.keepsTo hcall hop
  | @closeCall i server call next ans s' hi hcall =>
    have hfits := h.fits i
    rw [hi] at hfits
    obtain ⟨hkeeps, hnext⟩ := h.running hfits.2 hcall
    exact h.of_keepsTo (by rw [hi]; rfl) rfl hkeeps ⟨hfits.1, hnext⟩
  | @unlock i server lock hi hproc =>
    have hfits := h.fits i
    rw [hi] at hfits
    exact h.locks_absent (h.absent_of_vacant hi (hfits.2 _ (.refl _ i _))) hinstances trivial
  | @unlockCall i call next ans k' hi hproc hcall =>
    have hsound := h.locks_absent (i := i) (k := k') (x := .dropping (next ans))
      (h.absent fun path' hat => by rw [hi] at hat; exact hat)
      (by rw [m.goes_self]; exact hinstances) (by rw [hi]; trivial)
    rwa [m.goes_self] at hsound
  | @finished i hi hproc =>
    exact h.locks_absent (h.absent fun path' hat => by rw [hi] at hat; exact hat) hinstances
      trivial
  | @exit i => exact h.exits hinstances

lemma of_quiet (hquiet : m.Quiet) : m.Sound sure where
  instances := .of_quiet hquiet.instances
  placed := ⟨hquiet.files, fun inode l hl => by rw [hquiet.listeners inode] at hl; cases hl⟩
  home path file l hfile hl := by rw [hquiet.listeners file.inode] at hl; cases hl
  fits i := by rw [hquiet.phases i]; trivial

lemma of_run {m₀ : Daemons ι} (hquiet : m₀.Quiet)
    (hrun : ReflTransGen
      (fun m m' => DaemonStep sure m m' ∧ Careful m.instances m'.instances) m₀ m) :
    m.Sound sure := by
  induction hrun with
  | refl => exact .of_quiet hquiet
  | tail _ hstep ih => exact ih.step hstep.1 hstep.2

lemma bound (h : m.Sound sure) {server : UnixServer} (hi : m.phases i = .serving server) :
    m.sockets.Bound i server := by
  have hfits := h.fits i
  rw [hi] at hfits
  exact hfits.2

end Daemons.Sound

/-- Any number of daemons, in any interleaving and with crashes at any moment, over the files of
daemons that have crashed before: as long as the lock is taken with care, the path of a daemon
that serves leads to its own socket, which listens and which nobody else may use; no two daemons
serve at one path; who listens at a path has taken the lock for it; and a daemon that has taken
the lock comes to serve, unless one of its calls fails. -/
theorem daemons_serve {m₀ : Daemons ι} (hquiet : m₀.Quiet)
    (hrun : ReflTransGen
      (fun m m' => DaemonStep sure m m' ∧ Careful m.instances m'.instances) m₀ m) :
    (∀ i server, m.phases i = .serving server → m.sockets.Bound i server) ∧
      (∀ i j server server', m.phases i = .serving server → m.phases j = .serving server' →
        server.socketPath = server'.socketPath → i = j) ∧
      (∀ path file l, m.sockets.files path = some file →
        m.sockets.listeners file.inode = some l → (m.phases l.owner).At path ∧
          HoldsLock path (m.instances.procs l.owner)) ∧
      ∀ i path e, sure i → byteLen path.display < sunPathLen →
        m.phases i ≠ .starting path (.ret (.error e)) := by
  have hsound := Daemons.Sound.of_run hquiet hrun
  have hbound : ∀ i server, m.phases i = .serving server → m.sockets.Bound i server :=
    fun _ _ hi => hsound.bound hi
  refine ⟨hbound, fun i j server server' hi hj hpath => ?_, fun path file l hfile hl => ?_,
    fun i path e hsure hshort hi => ?_⟩
  · have hfile := (hbound i server hi).file
    rw [hpath, (hbound j server' hj).file, Option.some.injEq, SocketFile.mk.injEq] at hfile
    have hlive := (hbound i server hi).live
    rw [← hfile.1, (hbound j server' hj).live, Option.some.injEq, Listener.mk.injEq] at hlive
    exact hlive.1.symm
  · have hat := hsound.home path file l hfile hl
    exact ⟨hat, (hsound.fits l.owner).holdsLock hat⟩
  · have hfits := hsound.fits i
    rw [hi] at hfits
    obtain ⟨server, hserver⟩ := (hfits.2 _ (.refl path i _)).2 hsure hshort
    cases hserver

/-! ### A schedule -/

/-- The next step of a daemon of which no call fails, until it serves. -/
def Daemons.turn (path : PathBuf) (m : Daemons ι) (i : ι) : Daemons ι :=
  match m.phases i, m.instances.procs i with
  | .off, _ => m.goes i (.preparing path (prepareParentDir0700 path)) m.sockets
  | .preparing path' (.call call next), _ =>
    m.goes i (.preparing path' (next (m.sockets.exec i call).1)) (m.sockets.exec i call).2
  | .preparing path' (.ret (.ok ())), .idle =>
    (m.goes i (.locking path') m.sockets).locks i m.instances.kernel
      (.acquiring (SingleInstanceLock.acquire (lockFile path')))
  | .locking _, .acquiring (.call call next) =>
    m.locks i (m.instances.kernel.exec i call).2
      (.acquiring (next (m.instances.kernel.exec i call).1))
  | .locking path', .acquiring (.ret (.ok lock)) =>
    (m.goes i (.starting path' (startUp path')) m.sockets).locks i m.instances.kernel
      (.holding lock)
  | .starting path' (.call call next), _ =>
    m.goes i (.starting path' (next (m.sockets.exec i call).1)) (m.sockets.exec i call).2
  | .starting _ (.ret (.ok server)), _ => m.goes i (.serving server) m.sockets
  | _, _ => m

lemma Daemons.turn_step (hname : path.name ≠ (lockFile path).name) (m : Daemons ι) (i : ι) :
    m.turn path i = m ∨ DaemonStep sure m (m.turn path i) := by
  unfold Daemons.turn
  split
  · exact .inr (.boot path ‹_› hname)
  · exact .inr (.prepareCall ‹_› (.inl rfl))
  · exact .inr (.lock ‹_› ‹_›)
  · exact .inr (.lockCall ‹_› ‹_› (.inl rfl))
  · exact .inr (.locked ‹_› ‹_›)
  · exact .inr (.startCall ‹_› (.inl rfl))
  · exact .inr (.started ‹_›)
  · exact .inl rfl

/-- A daemon that has the lock leaves it alone until it stops. -/
lemma Daemons.turn_at {m : Daemons ι} {path' : PathBuf} (h : (m.phases i).At path') :
    (m.turn path i).instances = m.instances ∧ ∃ path', ((m.turn path i).phases i).At path' := by
  unfold Daemons.turn
  split
  case h_1 hphase =>
    rw [hphase] at h
    exact h.elim
  case h_2 hphase =>
    rw [hphase] at h
    exact h.elim
  case h_3 hphase _ =>
    rw [hphase] at h
    exact h.elim
  case h_4 hphase _ =>
    rw [hphase] at h
    exact h.elim
  case h_5 hphase _ =>
    rw [hphase] at h
    exact h.elim
  case h_6 own call next hphase =>
    refine ⟨rfl, own, ?_⟩
    rw [Daemons.phases_goes_self]
    rfl
  case h_7 server hphase =>
    refine ⟨rfl, server.socketPath, ?_⟩
    rw [Daemons.phases_goes_self]
    rfl
  case h_8 => exact ⟨rfl, path', h⟩

end Daemons

/-! ### A daemon after a crash -/

def socketPath : PathBuf := ⟨"run".toList, false, "ctl.sock".toList⟩

/-- Another daemon has crashed, and left its socket. -/
def crashed : Daemons Unit where
  sockets := ⟨fun _ => some 0o700, fun path => if path = socketPath then some ⟨0, 0o600⟩ else none,
    fun _ => none, 1, 0o755, 0o755⟩
  instances := ⟨⟨fun _ => none, fun _ => none, 0⟩, fun _ => .idle⟩
  phases _ := .off

lemma quiet_crashed : crashed.Quiet where
  phases _ := rfl
  instances := ⟨fun _ => rfl, fun _ => rfl⟩
  listeners _ := rfl
  files path file hfile := by
    unfold crashed at hfile ⊢
    dsimp only at hfile ⊢
    split at hfile
    · cases hfile
      exact Nat.zero_lt_one
    · cases hfile

/-- The daemon after so many steps. -/
def restarted : Nat → Daemons Unit
  | 0 => crashed
  | n + 1 => (restarted n).turn socketPath ()

/-- The daemon is alone, so that it takes the lock with care. -/
lemma restarted_careful (n : Nat) :
    Careful (restarted n).instances (restarted (n + 1)).instances := by
  have hsame : ∀ {s s' : Instances Unit}, s' = s → Careful s s' := by
    rintro s _ rfl
    exact ⟨fun _ _ hhas => .inl hhas, fun _ _ _ => rfl⟩
  match n with
  | 0 | 1 => exact hsame rfl
  | 2 | 3 => exact ⟨fun _ _ hhas => False.elim hhas, fun _ _ hhas => False.elim hhas⟩
  | 4 =>
    refine ⟨fun _ lock hhas => ?_, fun _ _ hhas => False.elim hhas⟩
    obtain rfl : (⟨0, lockFile socketPath⟩ : SingleInstanceLock) = lock := hhas
    exact .inr rfl
  | 5 =>
    refine ⟨fun _ lock hhas => .inl ?_, fun _ _ _ => rfl⟩
    obtain rfl : (⟨0, lockFile socketPath⟩ : SingleInstanceLock) = lock := hhas
    rfl
  | n + 6 =>
    have hat : ∃ path, ((restarted (n + 6)).phases ()).At path := by
      induction n with
      | zero => exact ⟨socketPath, rfl⟩
      | succ n ih =>
        obtain ⟨path, h⟩ := ih
        exact (Daemons.turn_at h).2
    obtain ⟨path, h⟩ := hat
    exact hsame (Daemons.turn_at h).1

lemma restarted_reach (n : Nat) : ReflTransGen (fun m m' =>
    DaemonStep (fun _ => True) m m' ∧ Careful m.instances m'.instances) crashed (restarted n) := by
  have hname : socketPath.name ≠ (lockFile socketPath).name := by decide
  induction n with
  | zero => exact .refl
  | succ n ih =>
    rcases Daemons.turn_step hname (restarted n) () with heq | hstep
    · change ReflTransGen _ _ ((restarted n).turn socketPath ())
      rwa [heq]
    · exact ih.tail ⟨hstep, restarted_careful n⟩

/-- The daemon takes the lock, removes the socket that it finds, and serves. -/
theorem daemons_serve_restarted : ∃ server, (restarted 17).phases () = .serving server ∧
    (restarted 17).sockets.Bound () server :=
  ⟨_, rfl, (daemons_serve quiet_crashed (restarted_reach 17)).1 () _ rfl⟩

end Invisibool.Control
