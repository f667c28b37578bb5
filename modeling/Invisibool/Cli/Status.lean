import Invisibool.Control.Status

/-!
# The command that asks the daemon

`status` prints what the daemon says that holds the socket, and that none runs if there is none.
-/

namespace Invisibool
open Text Process Stream Control Relation

structure ControlPaths where
  socket : PathBuf
  lock : PathBuf

/-- The variables of the environment. -/
structure Environment where
  xdgRuntimeDir : Option Str
  xdgStateHome : Option Str
  home : Option Str

/-- `Path::join` with a relative path. -/
def joinPath (base name : Str) : Str :=
  if base.getLast? = some '/' then base ++ name else base ++ '/' :: name

/-- An empty path, or one that is not absolute, counts as unset. -/
def usableDir (value : Option Str) : Option Str := value.filter fun v => v.head? = some '/'

def pickBaseDir (env : Environment) : Option Str :=
  match usableDir env.xdgRuntimeDir with
  | some runtime => some runtime
  | none =>
    match usableDir env.xdgStateHome with
    | some state => some state
    | none => (usableDir env.home).map fun home =>
        joinPath (joinPath home ".local".toList) "state".toList

/-- `default_control_paths`; `none` is its only error. -/
def defaultControlPaths (env : Environment) : Option ControlPaths :=
  (pickBaseDir env).map fun base =>
    { socket := ⟨joinPath base "invisibool".toList, false, "ctl.sock".toList⟩
      lock := ⟨joinPath base "invisibool".toList, false, "ctl.lock".toList⟩ }

/-- The default lock is the one that a daemon takes for the default socket. -/
lemma lockFile_defaultControlPaths {env : Environment} {paths : ControlPaths}
    (h : defaultControlPaths env = some paths) : lockFile paths.socket = paths.lock := by
  obtain ⟨base, -, rfl⟩ := Option.map_eq_some_iff.mp h
  rfl

/-- What a command returns, and what it writes to standard output and to standard error when
nobody has closed them. -/
structure StatusResult where
  exitCode : Nat
  out : Str
  err : Str
  deriving DecidableEq

/-- The command fails with a line on standard error. -/
def StatusResult.failed (message : Str) : StatusResult :=
  ⟨3, [], "error: ".toList ++ message ++ "\n".toList⟩

/-- The texts of the errors of the library, and what `serde_json` says of the response. -/
structure ErrorTexts where
  io : IoError → Str
  json : Str

def noSocketPath : Str :=
  "could not resolve control-socket path: ".toList ++
    "neither XDG_RUNTIME_DIR nor XDG_STATE_HOME nor HOME is set".toList

namespace Cli

section

variable (S : SerdeJson) (N : Numbers S) (T : ErrorTexts)

/-- `Display` of the errors of the control channel. -/
def displayControlError : ControlError → Str
  | .io e => "io error: ".toList ++ T.io e
  | .frameTooLarge actual max => "frame size ".toList ++ (Nat.repr actual).toList ++
      " exceeds max frame size ".toList ++ (Nat.repr max).toList
  | .badJson => "received request body was not valid JSON: ".toList ++ T.json
  | .badJsonResponse reason =>
      "received response body was not valid JSON: ".toList ++ reason.getD T.json
  | .unknownCmd cmd => "unknown command: ".toList ++ cmd
  | .singleInstanceLockHeld path =>
      "another invisibool daemon appears to be running (lock held at ".toList ++ path ++
        "). If you believe this is stale, remove ".toList ++ path ++ " and try again.".toList

def runningLine (data : StatusData) : Str :=
  "watch is running: pid=".toList ++ (Nat.repr data.pid.toNat).toList ++
    " uptime=".toList ++ (Nat.repr data.uptimeSecs.toNat).toList ++
    "s version=".toList ++ data.version ++ "\n".toList

def absentLine : Str := "watch is not running\n".toList

def channelFailed (e : ControlError) : StatusResult :=
  StatusResult.failed ("control channel: ".toList ++ displayControlError T e)

/-- What the command makes of the response. It does not look at `running`. -/
def tellStatus : Except ControlError (Response S.Num) → StatusResult
  | .ok (.ok value) =>
    match StatusData.fromValue N value with
    | some data => ⟨0, runningLine data, []⟩
    | none => StatusResult.failed
        ("daemon returned a status response with an unexpected shape: ".toList ++
          value.compact S.numText)
  | .ok (.err payload) => StatusResult.failed ("daemon returned error (".toList ++
      payload.kind.asStr ++ "): ".toList ++ payload.message)
  | .error (.io e) => if e.Absent then ⟨0, absentLine, []⟩ else channelFailed T (.io e)
  | .error e => channelFailed T e

/-- The path of the command line, or the default. -/
def socketPathOf (socketOverride : Option PathBuf) (env : Environment) : Option PathBuf :=
  match socketOverride with
  | some path => some path
  | none => (defaultControlPaths env).map ControlPaths.socket

def status (socketOverride : Option PathBuf) (env : Environment) (dial : PathBuf → Dialled) :
    StatusResult :=
  match socketPathOf socketOverride env with
  | none => StatusResult.failed noSocketPath
  | some path => tellStatus S N T ((dial path).once S .status)

variable {S N T}

lemma status_none {socketOverride : Option PathBuf} {env : Environment}
    {dial : PathBuf → Dialled} (h : socketPathOf socketOverride env = none) :
    status S N T socketOverride env dial = StatusResult.failed noSocketPath := by
  unfold status
  rw [h]

lemma status_some {socketOverride : Option PathBuf} {env : Environment}
    {dial : PathBuf → Dialled} {path : PathBuf} (h : socketPathOf socketOverride env = some path) :
    status S N T socketOverride env dial = tellStatus S N T ((dial path).once S .status) := by
  unfold status
  rw [h]

lemma tellStatus_data (data : StatusData) :
    tellStatus S N T (.ok (.ok (data.toValue N))) = ⟨0, runningLine data, []⟩ := by
  unfold tellStatus
  dsimp only
  rw [StatusData.fromValue_toValue]

lemma tellStatus_absent {e : IoError} (h : e.Absent) :
    tellStatus S N T (.error (.io e)) = ⟨0, absentLine, []⟩ := if_pos h

lemma tellStatus_io {e : IoError} (h : ¬e.Absent) :
    tellStatus S N T (.error (.io e)) = channelFailed T (.io e) := if_neg h

end

end Cli

section Daemons

variable {ι : Type} [DecidableEq ι] {S : SerdeJson}

/-- Process `i` dials the path: what `connect` comes to, and who takes the client on. -/
structure Control.Daemons.Meets (m : Daemons ι) (i : ι) (daemon : ι → Request → Response S.Num)
    (path : PathBuf) (d : Dialled) : Prop where
  connects : socketWorld False i (.connect path) m.sockets d.connected m.sockets
  takenOn : d.connected = .ok () → ∀ file l, m.sockets.files path = some file →
    m.sockets.listeners file.inode = some l → d.TakenOn S (daemon l.owner) .status

/-- Process `i` dials the path, and nothing fails: `connect` comes to what it should, and whoever
listens there answers. -/
structure Control.Daemons.Served (m : Daemons ι) (i : ι) (daemon : ι → Request → Response S.Num)
    (path : PathBuf) (d : Dialled) : Prop where
  connects : (m.sockets.exec i (.connect path)).1 = d.connected
  answered : ∀ file l, m.sockets.files path = some file →
    m.sockets.listeners file.inode = some l → d.Answered S (daemon l.owner) .status

/-- The daemon has the lock for the path, and if one serves there, it is this one. -/
structure Control.Daemons.Holder (m : Daemons ι) (path : PathBuf) (j : ι) : Prop where
  at_path : (m.phases j).At path
  lock : HoldsLock path (m.instances.procs j)
  only : ∀ j' server, m.phases j' = .serving server → server.socketPath = path → j' = j

/-- What the command may say: that none runs, when none serves at the path; what the holder of the
path is; or that it has met an error, which is not that there is none. -/
inductive Control.Daemons.Tells (m : Daemons ι) (data : ι → StatusData) (T : ErrorTexts)
    (path : PathBuf) : StatusResult → Prop
  | absent : (∀ j server, m.phases j = .serving server → server.socketPath ≠ path) →
      Tells m data T path ⟨0, Cli.absentLine, []⟩
  | running {j} : m.Holder path j → Tells m data T path ⟨0, Cli.runningLine (data j), []⟩
  | failed {e : IoError} : ¬e.Absent → Tells m data T path (Cli.channelFailed T (.io e))

variable {sure : ι → Prop} {m : Daemons ι} {i j : ι} {path : PathBuf}
  {ans : Except IoError Unit}

/-- What `connect` says is so. -/
lemma Control.Daemons.Sound.connect (h : m.Sound sure)
    (hconnect : socketWorld False i (.connect path) m.sockets ans m.sockets) :
    (∃ e, ans = .error e ∧ ¬e.Absent) ∨
      (∃ e, ans = .error e ∧ e.Absent ∧
        ∀ j server, m.phases j = .serving server → server.socketPath ≠ path) ∨
      ans = .ok () ∧ ∃ file l, m.sockets.files path = some file ∧
        m.sockets.listeners file.inode = some l ∧ m.Holder path l.owner := by
  rcases hconnect with hexec | ⟨-, ⟨e, he, hrefused, hnoent⟩, -⟩
  · have hans := (congrArg Prod.fst hexec).symm
    dsimp only at hans
    subst hans
    unfold Sockets.exec
    dsimp only
    split
    · refine .inl ⟨.invalidInput, rfl, ?_⟩
      rintro (h | h) <;> cases h
    cases hfile : m.sockets.files path with
    | none =>
      refine .inr (.inl ⟨.os enoent, rfl, .inl rfl, ?_⟩)
      rintro j server hj rfl
      rw [(h.bound hj).file] at hfile
      cases hfile
    | some file =>
      cases hl : (m.sockets.listeners file.inode).bind Listener.backlog with
      | none =>
        refine .inr (.inl ⟨.os econnrefused, ?_, .inr rfl, ?_⟩)
        · dsimp only
          rw [hl]
        · rintro j server hj rfl
          rw [(h.bound hj).file, Option.some.injEq] at hfile
          rw [← hfile, (h.bound hj).live] at hl
          cases hl
      | some backlog =>
        obtain ⟨l, hlistener, -⟩ := Option.bind_eq_some_iff.mp hl
        refine .inr (.inr ⟨?_, file, l, rfl, hlistener, ?_⟩)
        · dsimp only
          rw [hl]
        · have hat := h.home path file l hfile hlistener
          refine ⟨hat, (h.fits l.owner).holdsLock hat, ?_⟩
          rintro j server hj rfl
          rw [(h.bound hj).file, Option.some.injEq] at hfile
          rw [← hfile, (h.bound hj).live, Option.some.injEq] at hlistener
          rw [← hlistener]
  · exact .inl ⟨e, he, fun habsent => habsent.elim hnoent hrefused⟩

lemma Control.Daemons.Sound.exec_connect (h : m.Sound sure) {server : UnixServer}
    (hj : m.phases j = .serving server) :
    m.sockets.exec i (.connect server.socketPath) = (.ok (), m.sockets) := by
  unfold Sockets.exec
  dsimp only
  rw [if_neg (Nat.not_le.mpr (h.bound hj).short), (h.bound hj).file]
  dsimp only
  rw [(h.bound hj).live]
  rfl

/-- Whoever dials a daemon that serves, and of whose calls none fails, is answered by it. -/
lemma Control.Daemons.Sound.served (h : m.Sound sure) {server : UnixServer}
    (hj : m.phases j = .serving server) {daemon : ι → Request → Response S.Num} {d : Dialled}
    (hserved : m.Served i daemon server.socketPath d) :
    d.connected = .ok () ∧ d.Answered S (daemon j) .status := by
  have hconnected := hserved.connects
  rw [h.exec_connect hj] at hconnected
  exact ⟨hconnected.symm, hserved.answered _ _ (h.bound hj).file (h.bound hj).live⟩

lemma Control.Dialled.once_refused {d : Dialled} {request : Request} {e : IoError}
    (h : d.connected = .error e) : d.once S request = .error (.io e) := by
  unfold Dialled.once
  rw [h]
  rfl

/-- Whatever the daemons have done so far: the command says that none runs only if none serves at
its path; what it says of one that runs is what the holder of the path answers, which is the daemon
that serves there if one does; and all else is an error. When a daemon serves at the path and none
of the calls fails, the command says so. Without a path it asks nobody. -/
theorem status_tells {N : Numbers S} {T : ErrorTexts} {m₀ : Daemons ι} (hquiet : m₀.Quiet)
    (hrun : ReflTransGen
      (fun m m' => DaemonStep sure m m' ∧ Careful m.instances m'.instances) m₀ m)
    {vitals : ι → Vitals} {now : Nat}
    (hchannel : ∀ j, Channel S (dispatch N (vitals j) now) .status)
    {socketOverride : Option PathBuf} {env : Environment} {dial : PathBuf → Dialled}
    (hmeets : ∀ path, Cli.socketPathOf socketOverride env = some path →
      m.Meets i (fun j => dispatch N (vitals j) now) path (dial path)) :
    (Cli.socketPathOf socketOverride env = none →
      Cli.status S N T socketOverride env dial = StatusResult.failed noSocketPath) ∧
    ∀ path, Cli.socketPathOf socketOverride env = some path →
      m.Tells (fun j => (vitals j).data now) T path
        (Cli.status S N T socketOverride env dial) ∧
      ∀ j server, m.phases j = .serving server → server.socketPath = path →
        m.Served i (fun j => dispatch N (vitals j) now) path (dial path) →
        Cli.status S N T socketOverride env dial =
          ⟨0, Cli.runningLine ((vitals j).data now), []⟩ := by
  have hsound := Daemons.Sound.of_run hquiet hrun
  refine ⟨Cli.status_none, fun path hpath => ⟨?_, ?_⟩⟩
  · rw [Cli.status_some hpath]
    rcases hsound.connect (hmeets path hpath).connects with
      ⟨e, he, hne⟩ | ⟨e, he, habsent, hnone⟩ | ⟨hconnected, file, l, hfile, hl, hholder⟩
    · rw [Dialled.once_refused he, Cli.tellStatus_io hne]
      exact .failed hne
    · rw [Dialled.once_refused he, Cli.tellStatus_absent habsent]
      exact .absent hnone
    · have htaken := (hmeets path hpath).takenOn hconnected file l hfile hl
      rcases htaken.once (hchannel l.owner) hconnected with honce | ⟨e, hne, honce⟩
      · rw [honce]
        exact Cli.tellStatus_data ((vitals l.owner).data now) ▸ .running hholder
      · rw [honce, Cli.tellStatus_io hne]
        exact .failed hne
  · rintro j server hj rfl hserved
    obtain ⟨hconnected, hanswered⟩ := hsound.served hj hserved
    rw [Cli.status_some hpath, hanswered.once (hchannel j) hconnected]
    exact Cli.tellStatus_data ((vitals j).data now)

end Daemons

def restartedVitals : Vitals := ⟨4711, 0, "0.1.0".toList⟩

def restartedResponse : Response UInt64 :=
  .ok (.object [("pid".toList, .number 4711), ("running".toList, .bool true),
    ("uptime_secs".toList, .number 5), ("version".toList, .string "0.1.0".toList)])

/-- Its numbers are those of 64 bits, and it reads what the client and the daemon write. -/
def restartedSerde : SerdeJson where
  Num := UInt64
  numText n := (Nat.repr n.toNat).toList
  toVec v := utf8 (v.compact fun n => (Nat.repr n.toNat).toList)
  fromSlice bytes := [restartedResponse.toValue].find? fun v =>
    decide (utf8 (v.compact fun n => (Nat.repr n.toNat).toList) = bytes)
  topLevel bytes := [(utf8 "\x7b\"cmd\":\"status\"\x7d".toList,
    TopLevel.object [("cmd".toList, some "status".toList)])].lookup bytes

def restartedNumbers : Numbers restartedSerde := ⟨some, id, fun _ => rfl⟩

def restartedDaemon : Unit → Request → Response UInt64 :=
  fun _ => dispatch restartedNumbers restartedVitals 5000000000

lemma restartedDaemon_status : restartedDaemon () .status = restartedResponse := rfl

lemma restarted_channel : Channel restartedSerde (restartedDaemon ()) .status where
  prints := rfl
  known := by decide +kernel
  response := by
    rw [restartedDaemon_status]
    simp [restartedSerde, Response.toBytes]
  fits := by decide +kernel

/-- What comes of the calls: all of the response arrives at once. -/
def restartedDial : Dialled where
  connected := .ok ()
  readTimeout := .ok ()
  writeTimeout := .ok ()
  sent := .ok ()
  stream := [.data (toBeBytes (restartedResponse.toBytes restartedSerde).length ++
    restartedResponse.toBytes restartedSerde)]

/-- What the daemon reads when the request arrives at once. -/
def restartedConn : Reader IoError :=
  [.data (toBeBytes (Request.status.toBytes restartedSerde).length ++
    Request.status.toBytes restartedSerde)]

lemma restartedConn_delivers : Delivers restartedConn
    (toBeBytes (Request.status.toBytes restartedSerde).length ++
      Request.status.toBytes restartedSerde) [] := by
  rw [← List.append_nil (toBeBytes _ ++ _)]
  exact .whole (List.cons_ne_nil _ _) .done

lemma restarted_written : (serveOne restartedSerde restartedConn (restartedDaemon ())).written =
    toBeBytes (restartedResponse.toBytes restartedSerde).length ++
      restartedResponse.toBytes restartedSerde ++ [] := by
  rw [restarted_channel.serveOne_eq restartedConn_delivers, restartedDaemon_status, List.append_nil]

lemma restartedDial_answered :
    restartedDial.Answered restartedSerde (restartedDaemon ()) .status where
  readTimeout := rfl
  writeTimeout := rfl
  sent := rfl
  answer := by
    refine ⟨restartedConn, [], [], restartedConn_delivers, ?_⟩
    rw [restarted_written]
    exact .whole (List.cons_ne_nil _ _) .done

lemma restartedDial_takenOn :
    restartedDial.TakenOn restartedSerde (restartedDaemon ()) .status where
  readTimeout _ h := by cases h
  writeTimeout _ h := by cases h
  sent _ h := by cases h
  answer _ := by
    refine ⟨restartedConn, [], restartedConn_delivers, ?_⟩
    rw [restarted_written]
    exact .data (List.cons_ne_nil _ _) .ended

/-- The daemon that has replaced a crashed one says what it is. -/
theorem status_tells_restarted :
    Cli.status restartedSerde restartedNumbers ⟨fun _ => [], []⟩ (some socketPath)
        ⟨none, none, none⟩ (fun _ => restartedDial) =
      ⟨0, "watch is running: pid=4711 uptime=5s version=0.1.0\n".toList, []⟩ := by
  have hsound := Daemons.Sound.of_run quiet_crashed (restarted_reach 17)
  have hserving : ∃ server, (restarted 17).phases () = .serving server ∧
      server.socketPath = socketPath := ⟨_, rfl, rfl⟩
  obtain ⟨server, hserver, hpath⟩ := hserving
  have hconnect := hsound.exec_connect (i := ()) hserver
  rw [hpath] at hconnect
  exact ((status_tells (N := restartedNumbers) (i := ()) quiet_crashed (restarted_reach 17)
    (fun _ => restarted_channel) (fun path hchosen => by
      obtain rfl := Option.some.inj hchosen
      exact ⟨.inl hconnect, fun _ _ _ _ _ => restartedDial_takenOn⟩)).2 socketPath rfl).2 ()
    server hserver hpath ⟨congrArg Prod.fst hconnect, fun _ _ _ _ => restartedDial_answered⟩

end Invisibool
