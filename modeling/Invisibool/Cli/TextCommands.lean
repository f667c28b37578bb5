import Invisibool.Cli.VaultCommands
import Invisibool.Engine.Basic

/-!
# The commands that change a text

`scrub` and `restore`, with or without a session file. Instants and durations are in
nanoseconds.
-/

namespace Invisibool
open Text Process FileSystem
open Format hiding Bytes

def cliSessionMapCapacity : Nat := 4096

/-- `u64::saturating_sub`. -/
def saturatingSub (a b : UInt64) : UInt64 := if b ≤ a then a - b else 0

def durationFromSecs (secs : UInt64) : Nat := secs.toNat * 1000000000

/-- The outcome of an engine call. -/
def conclude {ε α : Type} : Outcome α → Except (Stop ε) α
  | .error p => .error (.panic p)
  | .ok a => .ok a

lemma conclude_eq_ok {ε α : Type} {x : Outcome α} {a : α} :
    (conclude x : Except (Stop ε) α) = .ok a ↔ x = .ok a := by
  cases x <;> simp [conclude]

/-- An engine call does not come to an error of the command, it only panics. -/
lemma panic_of_conclude {ε α : Type} {x : Outcome α} {stop : Stop ε}
    (h : (conclude x : Except (Stop ε) α) = .error stop) : ∃ p, stop = .panic p := by
  cases x with
  | error p => exact ⟨p, (Except.error.inj h).symm⟩
  | ok a => cases h

inductive TextCommand
  | scrub
  | restore
  deriving DecidableEq, Repr

/-- A process that runs a command, with what it would read from the clocks, draw from the random
number generators, and meet as the iteration order of its hash maps. -/
structure TextProcess where
  command : TextCommand
  input : Str
  session : Option PathBuf
  nowEpoch : UInt64
  nowInstant : Nat
  ord : HashOrder
  pid : Nat
  newKey : VaultKey
  nonce : Nonce

def SessionContents.pairs (contents : SessionContents) : List (Str × Str) :=
  contents.entries.map fun p => (p.fake, p.real)

/-- The map that holds the pairs of a session file for as long as the file has to live. -/
def SessionContents.toMap (contents : SessionContents) (ttlSecs : UInt64) (now : Nat) : SessionMap :=
  (SessionMap.new cliSessionMapCapacity (durationFromSecs (max ttlSecs 1))).importPairs
    contents.pairs now

/-- The contents with the pairs that the map holds now. -/
def SessionContents.ofMap (contents : SessionContents) (ord : HashOrder) (map : SessionMap) :
    SessionContents :=
  { contents with entries := (map.entries ord).map fun p => ⟨p.1, p.2⟩ }

namespace Cli

section

variable (X : Crates) (Y : FileCrates)

/-- `Vault::open` and `build_engine`. -/
def openEngine (path : PathBuf) (newKey : VaultKey) :
    Program (Except (Stop CommandError) (OpenVault × Engine)) :=
  ((openVault X Y path newKey).mapError (Stop.map .vault)).andThen fun v =>
    match settle (v.toVault.buildEngine X) with
    | .error e => .ret (.error (e.map .vault))
    | .ok engine => .ret (.ok (v, engine))

def loadSession (p : TextProcess) (v : OpenVault) (sessionPath : PathBuf) :
    Program (Except (Stop CommandError) (Option SessionContents)) :=
  (loadSessionFile X Y v.vaultKey sessionPath p.nowEpoch).mapError (Stop.map .session)

/-- Write the text to standard output, and exit with success. -/
def report (output : Str) (notices : List CommandNotice) :
    Program (Except (Stop CommandError) CommandResult) :=
  ((print output).mapError fun e => Stop.error (CommandError.io e)).andThen fun () =>
  .ret (.ok ⟨0, notices⟩)

/-- The contents that a scrub begins with, and the seconds that they have to live. -/
def loadOrCreate (existing : Option SessionContents) (now : UInt64) : SessionContents × UInt64 :=
  match existing with
  | some c => (c, saturatingSub c.expiresAt now)
  | none => (.newAt now, sessionTtlSecs)

/-- What is behind the load: merge into the pairs of the file, and save it. -/
def scrubSession (p : TextProcess) (v : OpenVault) (engine : Engine) (sessionPath : PathBuf)
    (existing : Option SessionContents) : Program (Except (Stop CommandError) EngineScrubResult) :=
  let (contents, ttlSecs) := loadOrCreate existing p.nowEpoch
  match conclude (engine.scrubWithSession X p.ord p.input (contents.toMap ttlSecs p.nowInstant)
      p.nowInstant) with
  | .error e => .ret (.error e)
  | .ok (r, map) =>
    ((saveSessionFile X Y v.vaultKey sessionPath p.pid p.nonce (contents.ofMap p.ord map)).mapError
      (Stop.map .session)).andThen fun () => .ret (.ok r)

def scrubText (p : TextProcess) (v : OpenVault) (engine : Engine) :
    Program (Except (Stop CommandError) EngineScrubResult) :=
  match p.session with
  | none => .ret (conclude (engine.scrub X p.ord p.input))
  | some sessionPath =>
    (loadSession X Y p v sessionPath).andThen (scrubSession X Y p v engine sessionPath)

def scrub (path : PathBuf) (p : TextProcess) : Program (Except (Stop CommandError) CommandResult) :=
  (openEngine X Y path p.newKey).andThen fun opened =>
  (scrubText X Y p opened.1 opened.2).andThen fun result =>
  report result.output (result.notices.map CommandNotice.scrub ++
    [CommandNotice.scrubbed result.scrubbedCount])

def missingSession (sessionPath : PathBuf) : IoError :=
  ⟨.notFound, "session file '" ++ String.ofList sessionPath.display ++
    "' not found; `restore --session` never silently degrades to stateless restore"⟩

/-- What is behind the load: restore from the pairs of the file, and wipe it. -/
def restoreSession (p : TextProcess) (engine : Engine) (sessionPath : PathBuf)
    (existing : Option SessionContents) :
    Program (Except (Stop CommandError) (EngineRestoreResult × List CommandNotice)) :=
  match existing with
  | none => .ret (.error (.error (.session (.io (missingSession sessionPath)))))
  | some contents =>
    let present := contents.entries.filter fun e => contains p.input e.fake
    let unused := contents.entries.length - present.length
    let ttlSecs := saturatingSub contents.expiresAt p.nowEpoch
    match conclude (engine.restoreWithSession X p.ord p.input
        (contents.toMap ttlSecs p.nowInstant) p.nowInstant) with
    | .error e => .ret (.error e)
    | .ok (r, _) => (wipeSessionFile sessionPath).bind fun wiped =>
      let warning := match wiped with
        | .ok () => []
        | .error e => [CommandNotice.wipeFailed e]
      .ret (.ok (r, warning ++ [CommandNotice.restored r.restoredCount] ++
        if 0 < unused then [CommandNotice.discarded unused] else []))

def restoreText (p : TextProcess) (v : OpenVault) (engine : Engine) :
    Program (Except (Stop CommandError) (EngineRestoreResult × List CommandNotice)) :=
  match p.session with
  | none => .ret ((conclude (engine.restore X p.input)).map fun r =>
      (r, [CommandNotice.restored r.restoredCount]))
  | some sessionPath =>
    (loadSession X Y p v sessionPath).andThen (restoreSession X p engine sessionPath)

def restore (path : PathBuf) (p : TextProcess) :
    Program (Except (Stop CommandError) CommandResult) :=
  (openEngine X Y path p.newKey).andThen fun opened =>
  (restoreText X Y p opened.1 opened.2).andThen fun result => report result.1.output result.2

def runTextCommand (path : PathBuf) (p : TextProcess) :
    Program (Except (Stop CommandError) CommandResult) :=
  match p.command with
  | .scrub => scrub X Y path p
  | .restore => restore X Y path p

end

end Cli

end Invisibool
