import Invisibool.Format.Sealed
import Invisibool.Vault

/-!
# The vault file and the session file

Both are sealed files of a JSON plaintext. They have the same layout, but differ in their magic
bytes, in the key that is derived for them, and in how their errors are reported.
-/

namespace Invisibool
open Text Format

structure VaultContents where
  schemaVersion : UInt32
  entries : List VaultEntry
  deriving DecidableEq

def currentSchemaVersion : UInt32 := 1

/-- `VaultContents::default`. -/
def VaultContents.default : VaultContents := ⟨currentSchemaVersion, []⟩

structure SessionPair where
  fake : Str
  real : Str
  deriving DecidableEq, Repr

/-- The plaintext of a session file. The instants are seconds of the Unix epoch. -/
structure SessionContents where
  schemaVersion : UInt32
  createdAt : UInt64
  expiresAt : UInt64
  entries : List SessionPair
  deriving DecidableEq

def currentSessionSchemaVersion : UInt32 := 1

def sessionTtlSecs : UInt64 := 1800

/-- `u64::saturating_add`. -/
def saturatingAdd (a b : UInt64) : UInt64 := if a ≤ a + b then a + b else 18446744073709551615

def SessionContents.newAt (now : UInt64) : SessionContents :=
  ⟨currentSessionSchemaVersion, now, saturatingAdd now sessionTtlSecs, []⟩

/-- The AEAD, and `serde_json::to_vec` and `from_slice` at the two plaintexts. -/
structure FileCrates where
  aead : Aead
  vaultToVec : VaultContents → Option Bytes
  vaultFromSlice : Bytes → Option VaultContents
  sessionToVec : SessionContents → Option Bytes
  sessionFromSlice : Bytes → Option SessionContents

structure FileCrates.SerdeLawful (Y : FileCrates) : Prop where
  vault : ∀ contents json, Y.vaultToVec contents = some json →
    Y.vaultFromSlice json = some contents
  session : ∀ contents json, Y.sessionToVec contents = some json →
    Y.sessionFromSlice json = some contents

inductive SessionFileError
  | io (e : FileSystem.IoError)
  | atomicWrite (e : AtomicWriteError)
  | notASessionFile
  | unsupportedVersion (version : UInt8)
  | truncatedFile
  | aeadDecrypt
  | expired (expiredAt : UInt64)
  | serde
  deriving DecidableEq, Repr

def magicOf (text : String) : Vector UInt8 16 := Vector.ofFn fun i => (utf8 text.toList).getD i 0

def vaultHeader : Header := ⟨magicOf "INVISIBOOL_VAULT", 1, Vector.replicate 3 0⟩

/-- `build_session_aad`. -/
def sessionHeader : Header := ⟨magicOf "INVISIBOOL_SESSN", 1, Vector.replicate 3 0⟩

def VaultError.ofOpen : OpenError → VaultError
  | .truncated => .truncatedFile
  | .wrongMagic => .badMagic
  | .unsupportedVersion v => .unsupportedVersion v
  | .aead => .aeadDecrypt

def SessionFileError.ofOpen : OpenError → SessionFileError
  | .truncated => .truncatedFile
  | .wrongMagic => .notASessionFile
  | .unsupportedVersion v => .unsupportedVersion v
  | .aead => .aeadDecrypt

section

variable (X : Crates) (Y : FileCrates)

def deriveAeadKey (vaultKey : VaultKey) : Outcome Bytes :=
  expect (X.hkdfExpand vaultKey.toList (utf8 "invisibool-vault-aead-v1".toList) 32)
    "HKDF-SHA-256 expand to AEAD_KEY_LEN bytes always succeeds"

def deriveSessionAeadKey (vaultKey : Bytes) : Outcome Bytes :=
  expect (X.hkdfExpand vaultKey (utf8 "invisibool-session-aead-v1".toList) 32)
    "HKDF-SHA-256 expand to AEAD_KEY_LEN bytes always succeeds"

/-- `encrypt_vault`; the nonce is what `os_random` draws. -/
def encryptVault (vaultKey : VaultKey) (nonce : Nonce) (plaintext : Bytes) :
    Outcome (Except VaultError Bytes) := do
  let key ← deriveAeadKey X vaultKey
  match sealFile Y.aead vaultHeader key nonce plaintext with
  | none => .ok (.error (.io "AEAD encrypt failed (should not happen for valid inputs)"))
  | some file => .ok (.ok file)

def decryptVault (vaultKey : VaultKey) (file : Bytes) :
    Outcome (Except VaultError VaultContents) := do
  match ← openFile Y.aead vaultHeader (deriveAeadKey X vaultKey) file with
  | .error e => .ok (.error (.ofOpen e))
  | .ok plaintext =>
    match Y.vaultFromSlice plaintext with
    | none => .ok (.error .serde)
    | some contents => .ok (.ok contents)

/-- `encrypt_session_bytes`; the nonce is what `os_random_nonce` draws. -/
def encryptSessionBytes (vaultKey : Bytes) (nonce : Nonce) (plaintext : Bytes) :
    Outcome (Except SessionFileError Bytes) := do
  let key ← deriveSessionAeadKey X vaultKey
  match sealFile Y.aead sessionHeader key nonce plaintext with
  | none => .ok (.error .aeadDecrypt)
  | some file => .ok (.ok file)

def decryptSessionBytes (vaultKey file : Bytes) (now : UInt64) :
    Outcome (Except SessionFileError SessionContents) := do
  match ← openFile Y.aead sessionHeader (deriveSessionAeadKey X vaultKey) file with
  | .error e => .ok (.error (.ofOpen e))
  | .ok plaintext =>
    match Y.sessionFromSlice plaintext with
    | none => .ok (.error .serde)
    | some contents =>
      if contents.expiresAt ≤ now then .ok (.error (.expired contents.expiresAt))
      else .ok (.ok contents)

/-- What `Vault::save` writes: the JSON of the contents, sealed. -/
def sealVault (vaultKey : VaultKey) (nonce : Nonce) (contents : VaultContents) :
    Outcome (Except VaultError Bytes) :=
  match Y.vaultToVec contents with
  | none => .ok (.error .serde)
  | some plaintext => encryptVault X Y vaultKey nonce plaintext

/-- What `save_session_file` writes. -/
def sealSession (vaultKey : Bytes) (nonce : Nonce) (contents : SessionContents) :
    Outcome (Except SessionFileError Bytes) :=
  match Y.sessionToVec contents with
  | none => .ok (.error .serde)
  | some plaintext => encryptSessionBytes X Y vaultKey nonce plaintext

end

section Tables

variable {γ : Type} [DecidableEq γ]

/-- `to_vec` and `from_slice` at the values of a table, each with its JSON text. -/
def toText (table : List (γ × Bytes)) (c : γ) : Option Bytes :=
  (table.find? fun e => decide (e.1 = c)).map Prod.snd

def ofText (table : List (γ × Bytes)) (json : Bytes) : Option γ :=
  (table.find? fun e => decide (e.2 = json)).map Prod.fst

lemma ofText_toText {table : List (γ × Bytes)} (h : (table.map Prod.snd).Nodup) {c : γ}
    {json : Bytes} (hc : toText table c = some json) : ofText table json = some c := by
  induction table with
  | nil => cases hc
  | cons e table ih =>
    rw [List.map_cons, List.nodup_cons] at h
    unfold toText at hc
    unfold ofText
    by_cases he : e.1 = c
    · rw [List.find?_cons_of_pos (by simpa using he)] at hc
      obtain rfl := Option.some.inj hc
      rw [List.find?_cons_of_pos (by simp), ← he]
      rfl
    · rw [List.find?_cons_of_neg (by simpa using he)] at hc
      have hmem : json ∈ table.map Prod.snd := by
        obtain ⟨e', hfind, rfl⟩ := Option.map_eq_some_iff.mp hc
        exact List.mem_map_of_mem (List.mem_of_find?_eq_some hfind)
      have hne : e.2 ≠ json := fun heq => h.1 (heq ▸ hmem)
      rw [List.find?_cons_of_neg (by simpa using hne)]
      exact ih h.2 hc

def FileCrates.ofTables (aead : Aead) (vaults : List (VaultContents × Bytes))
    (sessions : List (SessionContents × Bytes)) : FileCrates where
  aead := aead
  vaultToVec := toText vaults
  vaultFromSlice := ofText vaults
  sessionToVec := toText sessions
  sessionFromSlice := ofText sessions

lemma FileCrates.ofTables_serdeLawful {aead : Aead} {vaults : List (VaultContents × Bytes)}
    {sessions : List (SessionContents × Bytes)} (hvaults : (vaults.map Prod.snd).Nodup)
    (hsessions : (sessions.map Prod.snd).Nodup) : (ofTables aead vaults sessions).SerdeLawful where
  vault _ _ h := ofText_toText hvaults h
  session _ _ h := ofText_toText hsessions h

end Tables

end Invisibool
