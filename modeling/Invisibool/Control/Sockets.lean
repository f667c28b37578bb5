import Invisibool.Control.Error
import Invisibool.Store.Calls
import Invisibool.System.Process

/-!
# The socket of the daemon

What a daemon does about the directory and the file of its socket, from the calls that it makes.
The kernel keeps a listener for an inode; the file stays when the listener is gone.
-/

namespace Invisibool.Control
open Text Process

def requiredParentMode : Nat := 0o700

def requiredSocketMode : Nat := 0o600

def listenBacklog : Nat := 16

/-- The backlog that the standard library gives a listener. -/
def somaxconn : Nat := 4096

/-- The length of `sun_path`. -/
def sunPathLen : Nat := 108

def enoent : Nat := 2

def ebadf : Nat := 9

def eaddrinuse : Nat := 98

def econnrefused : Nat := 111

def einprogress : Nat := 115

/-- The error of the probe: of a call, or that the path does not fit into the address. -/
inductive ProbeError
  | io (e : IoError)
  | pathTooLong
  deriving DecidableEq, Repr

/-- The errors of starting: those that the lock and the channel have too, and three more. -/
inductive StartError
  | control (e : ControlError)
  | socketDirWrongMode (path : Str) (actualMode expectedMode : Nat)
  | socketFileWrongMode (path : Str) (actualMode expectedMode : Nat)
  | staleSocketCleanupRefused (path : Str) (source : ProbeError)
  deriving DecidableEq, Repr

def StartError.io (e : IoError) : StartError := .control (.io e)

/-- A directory is told by its path; the empty path, which is the parent of a bare file name, is
none. An open socket is told by its inode. -/
inductive SocketCall
  | dirMetadata (dir : Option Str)
  | createDirAll (dir : Option Str)
  | setDirPermissions (dir : Option Str) (mode : Nat)
  | exists (path : PathBuf)
  | socket
  | connect (path : PathBuf)
  | removeFile (path : PathBuf)
  | bind (path : PathBuf)
  | listen (inode backlog : Nat)
  | setPermissions (path : PathBuf) (mode : Nat)
  | metadata (path : PathBuf)
  | close (inode : Nat)

def SocketCall.Ans : SocketCall → Type
  | dirMetadata _ => Except IoError Nat
  | createDirAll _ => Except IoError Unit
  | setDirPermissions _ _ => Except IoError Unit
  | «exists» _ => Bool
  | socket => Except IoError Unit
  | connect _ => Except IoError Unit
  | removeFile _ => Except IoError Unit
  | bind _ => Except IoError Nat
  | listen _ _ => Except IoError Unit
  | setPermissions _ _ => Except IoError Unit
  | metadata _ => Except IoError Nat
  | close _ => Unit

abbrev SocketProgram (α : Type) := Prog SocketCall SocketCall.Ans α

/-! ### The programs -/

/-- Create the directory if it is missing, and refuse one that others may enter. -/
def prepareParent (parent : Option Str) : SocketProgram (Except StartError Unit) :=
  .call (.dirMetadata parent) fun
    | .ok mode =>
      if mode &&& 0o777 ≠ requiredParentMode then
        .ret (.error (.socketDirWrongMode (parent.getD []) (mode &&& 0o777) requiredParentMode))
      else .ret (.ok ())
    | .error e =>
      if e = .os enoent then
        .call (.createDirAll parent) fun
          | .error e => .ret (.error (.io e))
          | .ok () => .call (.setDirPermissions parent requiredParentMode) fun ans =>
              .ret (ans.mapError .io)
      else .ret (.error (.io e))

/-- Of the lifecycle. -/
def prepareParentDir0700 (path : PathBuf) : SocketProgram (Except StartError Unit) :=
  prepareParent path.parent

/-- Of the transport, with the same text. -/
def prepareParentDir (socketPath : PathBuf) : SocketProgram (Except StartError Unit) :=
  prepareParent socketPath.parent

inductive ProbeResult
  | live
  | stale
  deriving DecidableEq, Repr

/-- A full accept queue answers `EAGAIN`, which is `EWOULDBLOCK`. -/
def probeConnectNonblocking (socketPath : PathBuf) :
    SocketProgram (Except ProbeError ProbeResult) :=
  .call .socket fun
    | .error e => .ret (.error (.io e))
    | .ok () =>
      if sunPathLen ≤ byteLen socketPath.display then .ret (.error .pathTooLong)
      else .call (.connect socketPath) fun
        | .ok () => .ret (.ok .live)
        | .error e =>
          if e = .os econnrefused ∨ e = .os enoent then .ret (.ok .stale)
          else if e = .os ewouldblock ∨ e = .os einprogress then .ret (.ok .live)
          else .ret (.error (.io e))

def cleanupStaleSocket (socketPath : PathBuf) : SocketProgram (Except StartError Unit) :=
  .call (.exists socketPath) fun
    | false => .ret (.ok ())
    | true => (probeConnectNonblocking socketPath).bind fun
      | .ok .live => .ret (.error (.control (.singleInstanceLockHeld socketPath.display)))
      | .ok .stale => .call (.removeFile socketPath) fun ans => .ret (ans.mapError .io)
      | .error e => .ret (.error (.staleSocketCleanupRefused socketPath.display e))

/-- `UnixListener::bind` of the standard library. -/
def UnixListener.bind (socketPath : PathBuf) : SocketProgram (Except StartError Nat) :=
  .call (.bind socketPath) fun
    | .error e => .ret (.error (.io e))
    | .ok listener => .call (.listen listener somaxconn) fun
      | .error e => .call (.close listener) fun _ => .ret (.error (.io e))
      | .ok () => .ret (.ok listener)

def setSocketMode (socketPath : PathBuf) : SocketProgram (Except StartError Unit) :=
  .call (.setPermissions socketPath requiredSocketMode) fun
    | .error e => .ret (.error (.io e))
    | .ok () => .call (.metadata socketPath) fun
      | .error e => .ret (.error (.io e))
      | .ok mode =>
        if mode &&& 0o777 ≠ requiredSocketMode then
          .ret (.error
            (.socketFileWrongMode socketPath.display (mode &&& 0o777) requiredSocketMode))
        else .ret (.ok ())

def setListenBacklog (listener backlog : Nat) : SocketProgram (Except StartError Unit) :=
  .call (.listen listener backlog) fun ans => .ret (ans.mapError .io)

/-- The verifier of the peers is left out. -/
structure UnixServer where
  listener : Nat
  socketPath : PathBuf

/-- The listener is closed with the error. -/
def UnixServer.bind (socketPath : PathBuf) : SocketProgram (Except StartError UnixServer) :=
  (prepareParentDir socketPath).andThen fun () =>
    (UnixListener.bind socketPath).andThen fun listener =>
      ((setSocketMode socketPath).andThen fun () => setListenBacklog listener listenBacklog).bind
        fun
        | .error e => .call (.close listener) fun _ => .ret (.error e)
        | .ok () => .ret (.ok ⟨listener, socketPath⟩)

/-- What the daemon does with the lock in its hands, until it serves. -/
def startUp (socketPath : PathBuf) : SocketProgram (Except StartError UnixServer) :=
  (cleanupStaleSocket socketPath).andThen fun () => UnixServer.bind socketPath

/-- What it does when it has stopped to serve, until it drops the lock. -/
def UnixServer.closeDown (server : UnixServer) : SocketProgram Unit :=
  .call (.removeFile server.socketPath) fun _ => .call (.close server.listener) .ret

/-! ### The kernel -/

structure SocketFile where
  inode : Nat
  mode : Nat
  deriving DecidableEq

/-- The process that has bound a socket, and the backlog once it listens. -/
structure Listener (ι : Type) where
  owner : ι
  backlog : Option Nat

/-- The modes of the directories, the files at the paths, the listeners of the inodes, the first
inode that has not been used, and the modes that a new directory and a new socket are given. -/
structure Sockets (ι : Type) where
  dirs : Str → Option Nat
  files : PathBuf → Option SocketFile
  listeners : Nat → Option (Listener ι)
  fresh : Nat
  dirMode : Nat
  fileMode : Nat

section Kernel

variable {ι : Type}

namespace Sockets

variable (s : Sockets ι)

/-- The directory is there, and only its owner may enter it. -/
def Private (dir : Option Str) : Prop :=
  ∃ mode, dir.bind s.dirs = some mode ∧ mode &&& 0o777 = requiredParentMode

/-- Every inode that is in use has been given out. -/
structure Placed : Prop where
  file : ∀ path file, s.files path = some file → file.inode < s.fresh
  listener : ∀ inode l, s.listeners inode = some l → inode < s.fresh

/-! ### What may happen to the sockets -/

/-- What a process that prepares its directory does for the others. -/
structure DirsOnly (s s' : Sockets ι) : Prop where
  files : s'.files = s.files
  listeners : s'.listeners = s.listeners
  fresh : s'.fresh = s.fresh
  dirs : ∀ dir, s.Private dir → s'.Private dir

/-- What process `i` does that has taken the lock for the path. -/
structure KeepsTo (path : PathBuf) (i : ι) (s s' : Sockets ι) : Prop where
  files : ∀ path', path' ≠ path → s'.files path' = s.files path'
  file : ∀ file', s'.files path = some file' →
    (∃ file, s.files path = some file ∧ file.inode = file'.inode) ∨
      s.fresh ≤ file'.inode ∧ file'.inode < s'.fresh
  others : ∀ inode l, s.listeners inode = some l → l.owner ≠ i → s'.listeners inode = some l
  listener : ∀ inode l', s'.listeners inode = some l' →
    (∃ l, s.listeners inode = some l ∧ l.owner = l'.owner) ∨
      l'.owner = i ∧ s.fresh ≤ inode ∧ inode < s'.fresh
  fresh : s.fresh ≤ s'.fresh
  dirs : ∀ dir, s.Private dir → s'.Private dir

/-- What process `i` relies on that has taken the lock for the path. -/
structure Spares (path : PathBuf) (i : ι) (s s' : Sockets ι) : Prop where
  files : s'.files path = s.files path
  mine : ∀ inode l, s.listeners inode = some l → l.owner = i → s'.listeners inode = some l
  dead : ∀ inode, inode < s.fresh → s.listeners inode = none → s'.listeners inode = none
  fresh : s.fresh ≤ s'.fresh
  dirs : ∀ dir, s.Private dir → s'.Private dir

variable {s s' s'' : Sockets ι} {i j : ι} {path path' : PathBuf}

lemma DirsOnly.refl (s : Sockets ι) : DirsOnly s s := ⟨rfl, rfl, rfl, fun _ h => h⟩

lemma KeepsTo.refl (path : PathBuf) (i : ι) (s : Sockets ι) : KeepsTo path i s s where
  files _ _ := rfl
  file file' h := .inl ⟨file', h, rfl⟩
  others _ _ h _ := h
  listener _ l h := .inl ⟨l, h, rfl⟩
  fresh := le_rfl
  dirs _ h := h

lemma Spares.refl (path : PathBuf) (i : ι) (s : Sockets ι) : Spares path i s s :=
  ⟨rfl, fun _ _ h _ => h, fun _ _ h => h, le_rfl, fun _ h => h⟩

lemma Spares.trans (h : Spares path i s s') (h' : Spares path i s' s'') : Spares path i s s'' where
  files := h'.files.trans h.files
  mine inode l hl hi := h'.mine inode l (h.mine inode l hl hi) hi
  dead inode hlt hnone := h'.dead inode (hlt.trans_le h.fresh) (h.dead inode hlt hnone)
  fresh := h.fresh.trans h'.fresh
  dirs dir hd := h'.dirs dir (h.dirs dir hd)

lemma DirsOnly.spares (h : DirsOnly s s') (path : PathBuf) (i : ι) : Spares path i s s' where
  files := by rw [h.files]
  mine inode l hl _ := by rw [h.listeners]; exact hl
  dead inode _ hnone := by rw [h.listeners]; exact hnone
  fresh := h.fresh.ge
  dirs := h.dirs

/-- What a process does at its own path, one at another path can rely on. -/
lemma KeepsTo.spares (h : KeepsTo path' j s s') (hpath : path ≠ path') (hne : i ≠ j) :
    Spares path i s s' where
  files := h.files path hpath
  mine inode l hl hi := h.others inode l hl (hi ▸ hne)
  dead inode hlt hnone := by
    by_contra hsome
    obtain ⟨l', hl'⟩ := Option.ne_none_iff_exists'.mp hsome
    rcases h.listener inode l' hl' with ⟨l, hl, -⟩ | ⟨-, hle, -⟩
    · rw [hnone] at hl
      cases hl
    · omega
  fresh := h.fresh
  dirs := h.dirs

lemma DirsOnly.placed (h : DirsOnly s s') (hs : s.Placed) : s'.Placed where
  file path file hfile := by
    rw [h.files] at hfile
    rw [h.fresh]
    exact hs.file path file hfile
  listener inode l hl := by
    rw [h.listeners] at hl
    rw [h.fresh]
    exact hs.listener inode l hl

lemma KeepsTo.placed (h : KeepsTo path i s s') (hs : s.Placed) : s'.Placed where
  file path' file' hfile := by
    by_cases hpath : path' = path
    · subst hpath
      rcases h.file file' hfile with ⟨file, hold, heq⟩ | ⟨-, hlt⟩
      · rw [← heq]
        exact (hs.file path' file hold).trans_le h.fresh
      · exact hlt
    · rw [h.files path' hpath] at hfile
      exact (hs.file path' file' hfile).trans_le h.fresh
  listener inode l' hl' := by
    rcases h.listener inode l' hl' with ⟨l, hl, -⟩ | ⟨-, -, hlt⟩
    · exact (hs.listener inode l hl).trans_le h.fresh
    · exact hlt

/-- A directory is given a mode that it did not have, or that of a private one. -/
lemma private_update {dir : Str} {mode : Nat} (h : s.dirs dir = none ∨ mode = requiredParentMode)
    (dir' : Option Str) (hdir' : s.Private dir') :
    Private { s with dirs := Function.update s.dirs dir (some mode) } dir' := by
  obtain ⟨mode', hmode', hprivate⟩ := hdir'
  obtain ⟨d, rfl, hd⟩ := Option.bind_eq_some_iff.mp hmode'
  by_cases hsame : d = dir
  · subst hsame
    rcases h with hnone | rfl
    · rw [hnone] at hd
      cases hd
    · exact ⟨requiredParentMode, Function.update_self _ _ _, rfl⟩
  · exact ⟨mode', (Function.update_of_ne hsame _ _).trans hd, hprivate⟩

/-- What concerns a directory only is not another path. -/
lemma DirsOnly.keepsTo (h : DirsOnly s s') (path : PathBuf) (i : ι) : KeepsTo path i s s' where
  files path' _ := by rw [h.files]
  file file' hfile := .inl ⟨file', by rwa [h.files] at hfile, rfl⟩
  others inode l hl _ := by rwa [h.listeners]
  listener inode l' hl' := .inl ⟨l', by rwa [h.listeners] at hl', rfl⟩
  fresh := h.fresh.ge
  dirs := h.dirs

/-- The file at the path is given another mode, or removed. -/
lemma keepsTo_file {entry : Option SocketFile}
    (h : ∀ file', entry = some file' →
      ∃ file, s.files path = some file ∧ file.inode = file'.inode) :
    KeepsTo path i s { s with files := Function.update s.files path entry } where
  files _ hne := Function.update_of_ne hne _ _
  file file' hfile := by
    dsimp only at hfile
    rw [Function.update_self] at hfile
    exact .inl (h file' hfile)
  others _ _ hl _ := hl
  listener _ l hl := .inl ⟨l, hl, rfl⟩
  fresh := le_rfl
  dirs _ h := h

/-- A process does something to a listener of its own. -/
lemma keepsTo_listener {inode : Nat} {l : Listener ι} {entry : Option (Listener ι)}
    (hl : s.listeners inode = some l) (hi : l.owner = i)
    (hentry : ∀ l', entry = some l' → l'.owner = i) :
    KeepsTo path i s { s with listeners := Function.update s.listeners inode entry } where
  files _ _ := rfl
  file file' hfile := .inl ⟨file', hfile, rfl⟩
  others inode' l' hl' hne := by
    have hinode : inode' ≠ inode := by
      rintro rfl
      rw [hl, Option.some.injEq] at hl'
      exact hne (hl' ▸ hi)
    exact (Function.update_of_ne hinode _ _).trans hl'
  listener inode' l' hl' := by
    dsimp only at hl'
    refine .inl ?_
    by_cases hinode : inode' = inode
    · subst hinode
      rw [Function.update_self] at hl'
      exact ⟨l, hl, hi.trans (hentry l' hl').symm⟩
    · rw [Function.update_of_ne hinode] at hl'
      exact ⟨l', hl', rfl⟩
  fresh := le_rfl
  dirs _ h := h

lemma keepsTo_bind (hs : s.Placed) : KeepsTo path i s { s with
    files := Function.update s.files path (some ⟨s.fresh, s.fileMode⟩)
    listeners := Function.update s.listeners s.fresh (some ⟨i, none⟩)
    fresh := s.fresh + 1 } where
  files _ hne := Function.update_of_ne hne _ _
  file file' hfile := by
    dsimp only at hfile
    rw [Function.update_self, Option.some.injEq] at hfile
    subst hfile
    exact .inr ⟨le_rfl, Nat.lt_succ_self _⟩
  others inode l hl _ :=
    (Function.update_of_ne (hs.listener inode l hl).ne _ _).trans hl
  listener inode l' hl' := by
    dsimp only at hl'
    by_cases hinode : inode = s.fresh
    · subst hinode
      rw [Function.update_self, Option.some.injEq] at hl'
      subst hl'
      exact .inr ⟨rfl, le_rfl, Nat.lt_succ_self _⟩
    · rw [Function.update_of_ne hinode] at hl'
      exact .inl ⟨l', hl', rfl⟩
  fresh := Nat.le_succ _
  dirs _ h := h

end Sockets

/-! ### What the calls do -/

variable [DecidableEq ι]

namespace Sockets

variable (s : Sockets ι) (i : ι)

def exec : (call : SocketCall) → call.Ans × Sockets ι
  | .dirMetadata dir =>
    match dir.bind s.dirs with
    | some mode => (.ok mode, s)
    | none => (.error (.os enoent), s)
  | .createDirAll none => (.ok (), s)
  | .createDirAll (some dir) =>
    match s.dirs dir with
    | some _ => (.ok (), s)
    | none => (.ok (), { s with dirs := Function.update s.dirs dir (some s.dirMode) })
  | .setDirPermissions none _ => (.error (.os enoent), s)
  | .setDirPermissions (some dir) mode =>
    match s.dirs dir with
    | some _ => (.ok (), { s with dirs := Function.update s.dirs dir (some mode) })
    | none => (.error (.os enoent), s)
  | .exists path => ((s.files path).isSome, s)
  | .socket => (.ok (), s)
  | .connect path =>
    if sunPathLen ≤ byteLen path.display then (.error .invalidInput, s)
    else match s.files path with
      | none => (.error (.os enoent), s)
      | some file =>
        match (s.listeners file.inode).bind Listener.backlog with
        | some _ => (.ok (), s)
        | none => (.error (.os econnrefused), s)
  | .removeFile path =>
    match s.files path with
    | none => (.error (.os enoent), s)
    | some _ => (.ok (), { s with files := Function.update s.files path none })
  | .bind path =>
    if sunPathLen ≤ byteLen path.display then (.error .invalidInput, s)
    else match s.files path, s.dirs path.dir with
      | some _, _ => (.error (.os eaddrinuse), s)
      | none, none => (.error (.os enoent), s)
      | none, some _ => (.ok s.fresh, { s with
          files := Function.update s.files path (some ⟨s.fresh, s.fileMode⟩)
          listeners := Function.update s.listeners s.fresh (some ⟨i, none⟩)
          fresh := s.fresh + 1 })
  | .listen inode backlog =>
    match s.listeners inode with
    | none => (.error (.os ebadf), s)
    | some l =>
      if l.owner = i then
        (.ok (), { s with
          listeners := Function.update s.listeners inode (some ⟨i, some backlog⟩) })
      else (.error (.os ebadf), s)
  | .setPermissions path mode =>
    match s.files path with
    | none => (.error (.os enoent), s)
    | some file =>
      (.ok (), { s with files := Function.update s.files path (some ⟨file.inode, mode⟩) })
  | .metadata path =>
    match s.files path with
    | none => (.error (.os enoent), s)
    | some file => (.ok file.mode, s)
  | .close inode =>
    match s.listeners inode with
    | none => ((), s)
    | some l =>
      if l.owner = i then
        ((), { s with listeners := Function.update s.listeners inode none })
      else ((), s)

/-- The end of the process closes its listeners. -/
def closeAll : Sockets ι :=
  { s with listeners := fun inode => (s.listeners inode).filter fun l => l.owner ≠ i }

end Sockets

/-- Every call but `close` may also fail, for a reason of its own, and then changes nothing. That
nobody listens is a reason that the kernel gives only where it is so. -/
def SocketCall.Fails : (call : SocketCall) → call.Ans → Prop
  | .dirMetadata _, ans => ∃ e, ans = .error e
  | .createDirAll _, ans => ∃ e, ans = .error e
  | .setDirPermissions _ _, ans => ∃ e, ans = .error e
  | .exists _, ans => ans = false
  | .socket, ans => ∃ e, ans = .error e
  | .connect _, ans => ∃ e, ans = .error e ∧ e ≠ .os econnrefused ∧ e ≠ .os enoent
  | .removeFile _, ans => ∃ e, ans = .error e
  | .bind _, ans => ∃ e, ans = .error e
  | .listen _ _, ans => ∃ e, ans = .error e
  | .setPermissions _ _, ans => ∃ e, ans = .error e
  | .metadata _, ans => ∃ e, ans = .error e
  | .close _, _ => False

/-- The calls of a process, of which none fails if it is sure. -/
def socketWorld (sure : Prop) (i : ι) : World SocketCall SocketCall.Ans (Sockets ι) :=
  fun call s ans s' => s.exec i call = (ans, s') ∨ (¬sure ∧ call.Fails ans ∧ s' = s)

/-- The calls that concern a directory only, and open it to nobody else. -/
def SocketCall.OnDir : SocketCall → Prop
  | .dirMetadata _ => True
  | .createDirAll _ => True
  | .setDirPermissions _ mode => mode = requiredParentMode
  | _ => False

/-- The calls that change at most this path, and open no directory to others. -/
def SocketCall.At (path : PathBuf) : SocketCall → Prop
  | .setDirPermissions _ mode => mode = requiredParentMode
  | .removeFile path' => path' = path
  | .bind path' => path' = path
  | .setPermissions path' _ => path' = path
  | _ => True

namespace Sockets

variable {s : Sockets ι} {i j : ι} {path : PathBuf} {call : SocketCall}

/-- The end of a process is nothing that another one relies on. -/
lemma closeAll_spares (hne : i ≠ j) : Spares path i s (s.closeAll j) where
  files := rfl
  mine inode l hl hi := by
    unfold closeAll
    dsimp only
    rw [hl]
    exact Option.filter_some_pos (by simpa [hi] using hne)
  dead inode _ hnone := by
    unfold closeAll
    dsimp only
    rw [hnone]
    rfl
  fresh := le_rfl
  dirs _ h := h

lemma listeners_closeAll {inode : Nat} {l : Listener ι}
    (h : (s.closeAll j).listeners inode = some l) : s.listeners inode = some l ∧ l.owner ≠ j := by
  obtain ⟨hl, hne⟩ := Option.filter_eq_some_iff.mp h
  exact ⟨hl, by simpa using hne⟩

lemma dirsOnly_exec (h : call.OnDir) : DirsOnly s (s.exec i call).2 := by
  cases call with
  | dirMetadata dir =>
    unfold exec
    dsimp only
    split <;> exact .refl s
  | createDirAll dir =>
    cases dir with
    | none => exact .refl s
    | some dir =>
      unfold exec
      dsimp only
      split
      · exact .refl s
      · exact ⟨rfl, rfl, rfl, private_update (.inl ‹_›)⟩
  | setDirPermissions dir mode =>
    cases dir with
    | none => exact .refl s
    | some dir =>
      unfold exec
      dsimp only
      split
      · exact ⟨rfl, rfl, rfl, private_update (.inr h)⟩
      · exact .refl s
  | «exists» _ | socket | connect _ | removeFile _ | bind _ | listen _ _ | setPermissions _ _
  | metadata _ | close _ => exact h.elim

lemma keepsTo_exec (h : call.At path) (hs : s.Placed) : KeepsTo path i s (s.exec i call).2 := by
  have hdir : call.OnDir → KeepsTo path i s (s.exec i call).2 :=
    fun honly => (dirsOnly_exec honly).keepsTo path i
  cases call with
  | dirMetadata dir => exact hdir trivial
  | createDirAll dir => exact hdir trivial
  | setDirPermissions dir mode => exact hdir h
  | «exists» path' => exact .refl path i s
  | socket => exact .refl path i s
  | connect path' =>
    unfold exec
    dsimp only
    split
    · exact .refl path i s
    split
    · exact .refl path i s
    · split <;> exact .refl path i s
  | removeFile path' =>
    obtain rfl : path' = path := h
    unfold exec
    dsimp only
    split
    · exact .refl path' i s
    · exact keepsTo_file fun file' h => by cases h
  | bind path' =>
    obtain rfl : path' = path := h
    unfold exec
    dsimp only
    split
    · exact .refl path' i s
    · split
      · exact .refl path' i s
      · exact .refl path' i s
      · exact keepsTo_bind hs
  | listen inode backlog =>
    unfold exec
    dsimp only
    split
    · exact .refl path i s
    · split
      · exact keepsTo_listener ‹_› ‹_› fun l' hl' => by cases hl'; rfl
      · exact .refl path i s
  | setPermissions path' mode =>
    obtain rfl : path' = path := h
    unfold exec
    dsimp only
    split
    · exact .refl path' i s
    · refine keepsTo_file fun file' h => ⟨_, ‹_›, ?_⟩
      cases h
      rfl
  | metadata path' =>
    unfold exec
    dsimp only
    split <;> exact .refl path i s
  | close inode =>
    unfold exec
    dsimp only
    split
    · exact .refl path i s
    · split
      · exact keepsTo_listener ‹_› ‹_› fun l' hl' => by cases hl'
      · exact .refl path i s

end Sockets

namespace socketWorld

variable {s s' : Sockets ι} {i : ι} {path : PathBuf} {call : SocketCall} {ans : call.Ans}
  {sure : Prop}

lemma dirsOnly (hcall : socketWorld sure i call s ans s') (h : call.OnDir) :
    Sockets.DirsOnly s s' := by
  rcases hcall with hexec | ⟨-, -, rfl⟩
  · have honly := Sockets.dirsOnly_exec (s := s) (i := i) h
    rwa [hexec] at honly
  · exact .refl s'

lemma keepsTo (hcall : socketWorld sure i call s ans s') (h : call.At path) (hs : s.Placed) :
    Sockets.KeepsTo path i s s' := by
  rcases hcall with hexec | ⟨-, -, rfl⟩
  · have hkeeps := Sockets.keepsTo_exec (i := i) h hs
    rwa [hexec] at hkeeps
  · exact .refl path i s'

end socketWorld

end Kernel

end Invisibool.Control
