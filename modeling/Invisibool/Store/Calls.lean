import Invisibool.System.FileSystem
import Invisibool.Text.Str

/-!
# What the commands call

The commands use the disk, one slot of the keychain, and standard output. Standard error is left
out: what is written there is ignored if it fails.
-/

namespace Invisibool
open Text Process FileSystem

abbrev VaultKey := Vector UInt8 32

inductive KeychainError
  | backend (message : String)
  | malformedKey (expected got : Nat)
  deriving DecidableEq, Repr

structure Machine where
  disk : Disk Str Str
  /-- The slot of the vault key. -/
  keychain : Option VaultKey
  printed : Str

inductive Call
  | disk (op : Op Str Str)
  | fetch
  | store (key : VaultKey)
  | print (text : Str)

def Call.Ans : Call → Type
  | disk op => op.Ans
  | fetch => Except KeychainError (Option VaultKey)
  | store _ => Except KeychainError Unit
  | print _ => Except IoError Unit

abbrev Program (α : Type) := Prog Call Call.Ans α

namespace Machine

def exec : (call : Call) → Machine → call.Ans × Machine
  | .disk op, m => ((FileSystem.exec op m.disk).1, { m with disk := (FileSystem.exec op m.disk).2 })
  | .fetch, m => (.ok m.keychain, m)
  | .store key, m => (.ok (), { m with keychain := some key })
  | .print text, m => (.ok (), { m with printed := m.printed ++ text })

def Fails : (call : Call) → Machine → call.Ans → Machine → Prop
  | .disk op, m, ans, m' => ∃ d', FileSystem.Fails op m.disk ans d' ∧ m' = { m with disk := d' }
  | .fetch, m, ans, m' => ∃ e, ans = .error e ∧ m' = m
  | .store _, m, ans, m' => ∃ e, ans = .error e ∧ m' = m
  | .print text, m, ans, m' => ∃ message n, ans = .error ⟨.other, message⟩ ∧
      m' = { m with printed := m.printed ++ text.take n }

def sound : World Call Call.Ans Machine := .ofExec exec

def faulty : World Call Call.Ans Machine :=
  fun call m ans m' => exec call m = (ans, m') ∨ Fails call m ans m'

end Machine

section Names

variable (dir : Option Str) (file : Str × Str) (handle : Nat)

def pathExists : Program Bool := .perform (Call.disk (.dirExists dir))
def createDirAll : Program (Except IoError Unit) := .perform (Call.disk (.createDirAll dir))
def createNew : Program (Except IoError Nat) := .perform (Call.disk (.createNew file))
def writeAll (bytes : Bytes) : Program (Except IoError Unit) :=
  .perform (Call.disk (.write handle bytes))
def syncAll : Program (Except IoError Unit) := .perform (Call.disk (.sync handle))
def rename (dir source target : Str) : Program (Except IoError Unit) :=
  .perform (Call.disk (.rename dir source target))
def openDir : Program (Except IoError Str) := .perform (Call.disk (.openDir dir))
def syncDir (dir : Str) : Program (Except IoError Unit) := .perform (Call.disk (.syncDir dir))
def openRead : Program (Except IoError Nat) := .perform (Call.disk (.openRead file))
def readToEnd : Program (Except IoError Bytes) := .perform (Call.disk (.readToEnd handle))
def readDir : Program (Except IoError (List Str)) := .perform (Call.disk (.readDir dir))
def removeFile : Program (Except IoError Unit) := .perform (Call.disk (.remove file))
def fetch : Program (Except KeychainError (Option VaultKey)) := .perform Call.fetch
def store (key : VaultKey) : Program (Except KeychainError Unit) := .perform (Call.store key)
def print (text : Str) : Program (Except IoError Unit) := .perform (Call.print text)

end Names

/-- A path with a file name. If it is a bare file name, its parent is the empty path, although
the file itself is in the current directory. -/
structure PathBuf where
  dir : Str
  bare : Bool
  name : Str
  deriving DecidableEq

namespace PathBuf

def parent (path : PathBuf) : Option Str := if path.bare then none else some path.dir

def file (path : PathBuf) : Str × Str := (path.dir, path.name)

def display (path : PathBuf) : Str :=
  if path.bare then path.name else path.dir ++ '/' :: path.name

def tmpMark : Str := ".tmp.".toList

/-- The name of the sibling that process `pid` writes to. -/
def tmpName (path : PathBuf) (pid : Nat) : Str := path.name ++ tmpMark ++ Nat.toDigits 10 pid

def tmpPath (path : PathBuf) (pid : Nat) : Str × Str := (path.dir, path.tmpName pid)

/-- The file is one that the orphan scan of the path goes for. -/
def IsOrphan (path : PathBuf) (file : Str × Str) : Prop :=
  path.bare = false ∧ file.1 = path.dir ∧ (path.name ++ tmpMark).isPrefixOf file.2 = true

lemma tmpName_ne (path : PathBuf) (pid : Nat) : path.tmpName pid ≠ path.name := by
  intro h
  have hlen := congrArg List.length h
  have hmark : tmpMark.length = 5 := by decide
  rw [tmpName, List.length_append, List.length_append, hmark] at hlen
  omega

lemma tmpPath_ne_file (path : PathBuf) (pid : Nat) : path.tmpPath pid ≠ path.file :=
  fun h => path.tmpName_ne pid (Prod.mk.inj h).2

end PathBuf

end Invisibool
