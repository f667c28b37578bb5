import Invisibool.Format.Files

/-!
# Opening and saving the vault

`Vault::open` and `Vault::save`, and the same for a session file under the key of a vault.
-/

namespace Invisibool
open Text Process FileSystem Format

/-- Why a program stops early: it returns an error, or it panics. -/
inductive Stop (ε : Type)
  | error (e : ε)
  | panic (p : Panic)
  deriving DecidableEq, Repr

def Stop.map {ε ε' : Type} (f : ε → ε') : Stop ε → Stop ε'
  | error e => error (f e)
  | panic p => panic p

def settle {ε α : Type} : Outcome (Except ε α) → Except (Stop ε) α
  | .error p => .error (.panic p)
  | .ok (.error e) => .error (.error e)
  | .ok (.ok a) => .ok a

/-- A vault as it is opened and saved, with the schema version of its contents. -/
structure OpenVault extends Vault where
  schemaVersion : UInt32

def OpenVault.contents (v : OpenVault) : VaultContents := ⟨v.schemaVersion, v.entries⟩

def OpenVault.ofContents (vaultKey : VaultKey) (contents : VaultContents) : OpenVault :=
  ⟨⟨vaultKey, contents.entries⟩, contents.schemaVersion⟩

/-- `fetch_or_create`; the new key is what `os_random` would draw. -/
def fetchOrCreate (newKey : VaultKey) : Program (Except KeychainError VaultKey) :=
  fetch.andThen fun
    | some existing => .ret (.ok existing)
    | none => (store newKey).andThen fun () => .ret (.ok newKey)

section

variable (X : Crates) (Y : FileCrates)

/-- `Vault::open`. -/
def openVault (path : PathBuf) (newKey : VaultKey) :
    Program (Except (Stop VaultError) OpenVault) :=
  (scanOrphans path).bind fun () =>
  ((fetchOrCreate newKey).mapError fun e => .error (.keychain e)).andThen fun vaultKey =>
  ((readIfExists path).mapError fun e => .error (.io e.message)).andThen fun
    | none => .ret (.ok (.ofContents vaultKey .default))
    | some bytes =>
      .ret ((settle (decryptVault X Y vaultKey bytes)).map (.ofContents vaultKey))

/-- `Vault::save`, in process `pid`; the nonce is what `os_random` draws. -/
def OpenVault.save (v : OpenVault) (path : PathBuf) (pid : Nat) (nonce : Nonce) :
    Program (Except (Stop VaultError) Unit) :=
  match settle (sealVault X Y v.vaultKey nonce v.contents) with
  | .error e => .ret (.error e)
  | .ok bytes => (writeAtomic path pid bytes).mapError fun e => .error (.atomicWrite e)

def loadSessionFile (vaultKey : VaultKey) (path : PathBuf) (now : UInt64) :
    Program (Except (Stop SessionFileError) (Option SessionContents)) :=
  ((readIfExists path).mapError fun e => .error (.io e)).andThen fun
    | none => .ret (.ok none)
    | some bytes => .ret ((settle (decryptSessionBytes X Y vaultKey.toList bytes now)).map some)

def saveSessionFile (vaultKey : VaultKey) (path : PathBuf) (pid : Nat) (nonce : Nonce)
    (contents : SessionContents) : Program (Except (Stop SessionFileError) Unit) :=
  match settle (sealSession X Y vaultKey.toList nonce contents) with
  | .error e => .ret (.error e)
  | .ok bytes => (writeAtomic path pid bytes).mapError fun e => .error (.atomicWrite e)

end

/-- `wipe_session_file`. -/
def wipeSessionFile (path : PathBuf) : Program (Except IoError Unit) :=
  (removeFile path.file).bind fun
    | .ok () => .ret (.ok ())
    | .error e => if e.kind = .notFound then .ret (.ok ()) else .ret (.error e)

end Invisibool
