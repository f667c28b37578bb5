import Invisibool.Cli.Register
import Invisibool.Store.Vault

/-!
# The commands that change the vault

`register` and `forget`, each a process of its own that opens the vault, changes it and saves it.
-/

namespace Invisibool
open Text Process FileSystem Format

inductive CommandError
  | vault (e : VaultError)
  | session (e : SessionFileError)
  | io (e : IoError)
  deriving DecidableEq, Repr

/-- A line on standard error. -/
inductive CommandNotice
  | register (notice : RegisterNotice)
  | noEntry (label : Str)
  | scrub (notice : ScrubNotice)
  | scrubbed (count : Nat)
  | wipeFailed (e : IoError)
  | restored (count : Nat)
  | discarded (count : Nat)
  deriving DecidableEq, Repr

structure CommandResult where
  exitCode : Nat
  notices : List CommandNotice
  deriving DecidableEq, Repr

/-- The command and its arguments, and the tweak that `register` would draw. -/
inductive VaultCommand
  | register (label value : Str) (tweak : Vector UInt8 16)
  | forget (label : Str)

/-- A process that runs a command, with what it would draw from the random number generator. -/
structure VaultProcess where
  command : VaultCommand
  pid : Nat
  newKey : VaultKey
  nonce : Nonce

namespace Cli

section

variable (X : Crates) (Y : FileCrates)

/-- `v.save(io, vault_path).map_err(CommandError::Vault)?`, and what comes behind it. -/
def saveAndReport (path : PathBuf) (p : VaultProcess) (v : OpenVault) (message : Str)
    (result : CommandResult) : Program (Except (Stop CommandError) CommandResult) :=
  ((v.save X Y path p.pid p.nonce).mapError (Stop.map .vault)).andThen fun () =>
  (print message).bind fun _ => .ret (.ok result)

/-- `register`, on an open vault. -/
def registerIn (path : PathBuf) (p : VaultProcess) (label value : Str) (tweak : Vector UInt8 16)
    (v : OpenVault) : Program (Except (Stop CommandError) CommandResult) :=
  let r := register v.toVault label value tweak
  if r.exitCode = 5 then .ret (.ok ⟨5, r.notices.map .register⟩)
  else saveAndReport X Y path p { v with toVault := r.vault }
    ("registered '".toList ++ label ++ "'\n".toList) ⟨r.exitCode, r.notices.map .register⟩

/-- `forget`, on an open vault. -/
def forgetIn (path : PathBuf) (p : VaultProcess) (label : Str) (v : OpenVault) :
    Program (Except (Stop CommandError) CommandResult) :=
  let r := v.toVault.forget label
  if r.2 = false then .ret (.ok ⟨4, [.noEntry label]⟩)
  else saveAndReport X Y path p { v with toVault := r.1 }
    ("forgot '".toList ++ label ++ "'\n".toList) ⟨0, []⟩

def runVaultCommand (path : PathBuf) (p : VaultProcess) :
    Program (Except (Stop CommandError) CommandResult) :=
  ((openVault X Y path p.newKey).mapError (Stop.map .vault)).andThen fun v =>
    match p.command with
    | .register label value tweak => registerIn X Y path p label value tweak v
    | .forget label => forgetIn X Y path p label v

end

end Cli

end Invisibool
