import Invisibool.Store.Calls

/-!
# Reading and replacing a file

The operations of `StdVaultIo`: a file is replaced by writing a sibling and renaming it over the
target, and siblings that an earlier write has left behind are scanned for.
-/

namespace Invisibool
open Text Process FileSystem

inductive AtomicWriteError
  | atTmpCreate (e : IoError)
  | atBodyWrite (e : IoError)
  | atBodyFsync (e : IoError)
  | atRename (e : IoError)
  | atParentFsync (e : IoError)
  deriving DecidableEq, Repr

/-- The error comes from a step before the rename, or from the rename itself. -/
def AtomicWriteError.beforeRename : AtomicWriteError → Bool
  | atParentFsync _ => false
  | _ => true

/-- The parent directory is created if it is not there. -/
def ensureParent (path : PathBuf) : Program (Except AtomicWriteError Unit) :=
  (pathExists path.parent).bind fun found =>
    if found then .ret (.ok ()) else (createDirAll path.parent).mapError .atTmpCreate

/-- `write_atomic`, in process `pid`. -/
def writeAtomic (path : PathBuf) (pid : Nat) (bytes : Bytes) :
    Program (Except AtomicWriteError Unit) :=
  (ensureParent path).andThen fun () =>
  ((createNew (path.tmpPath pid)).mapError .atTmpCreate).andThen fun tmpFile =>
  ((writeAll tmpFile bytes).mapError .atBodyWrite).andThen fun () =>
  ((syncAll tmpFile).mapError .atBodyFsync).andThen fun () =>
  ((rename path.dir (path.tmpName pid) path.name).mapError .atRename).andThen fun () =>
  ((openDir path.parent).mapError .atParentFsync).andThen fun dir =>
  (syncDir dir).mapError .atParentFsync

def readIfExists (path : PathBuf) : Program (Except IoError (Option Bytes)) :=
  (openRead path.file).bind fun
    | .ok f => (readToEnd f).andThen fun buf => .ret (.ok (some buf))
    | .error e => if e.kind = .notFound then .ret (.ok none) else .ret (.error e)

def listOrphanTmps (path : PathBuf) : Program (Except IoError (List (Str × Str))) :=
  (readDir path.parent).bind fun
    | .ok names => .ret (.ok ((names.filter (path.name ++ PathBuf.tmpMark).isPrefixOf).map
        fun name => (path.dir, name)))
    | .error e => if e.kind = .notFound then .ret (.ok []) else .ret (.error e)

def removeQuiet (file : Str × Str) : Program Unit := (removeFile file).bind fun _ => .ret ()

/-- The clean-up at the start of `Vault::open`. -/
def removeOrphans : List (Str × Str) → Program Unit
  | [] => .ret ()
  | orphan :: orphans => (removeQuiet orphan).bind fun _ => removeOrphans orphans

def scanOrphans (path : PathBuf) : Program Unit :=
  (listOrphanTmps path).bind fun
    | .ok orphans => removeOrphans orphans
    | .error _ => .ret ()

end Invisibool
