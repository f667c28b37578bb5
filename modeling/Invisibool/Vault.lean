import Invisibool.Engine.Build
import Invisibool.Store.AtomicWrite

/-!
# The vault

The plaintext schema of the vault, and the engine built from its entries. Here a vault is its key
and its entries; how they are sealed and stored comes later.
-/

namespace Invisibool
open Text

inductive VaultEntryKind
  | fpe (tweak : Vector UInt8 16) (pfx alphabet : Str)
  | sessionMapped (kind : SessionFakeKind)
  deriving DecidableEq

/-- One registered value, as it lives on disk. -/
structure VaultEntry where
  label : Str
  value : Str
  entryKind : VaultEntryKind
  deriving DecidableEq

inductive VaultError
  | unknownAlphabet (name : Str)
  | io (message : String)
  | atomicWrite (e : AtomicWriteError)
  | keychain (e : KeychainError)
  | badMagic
  | unsupportedVersion (version : UInt8)
  | truncatedFile
  | aeadDecrypt
  | serde
  deriving DecidableEq, Repr

def resolveAlphabet (name : Str) : Option Alphabet :=
  if name = "BASE62".toList then some .base62
  else if name = "BASE32".toList then some .base32
  else if name = "HEX_LOWER".toList then some .hexLower
  else if name = "HEX_UPPER".toList then some .hexUpper
  else if name = "DIGITS".toList then some .digits
  else if name = "ALPHA_LOWER".toList then some .alphaLower
  else if name = "ALPHA_UPPER".toList then some .alphaUpper
  else if name = "BASE36_LOWER".toList then some .base36Lower
  else none

def entryToRegistered (entry : VaultEntry) : Except VaultError RegisteredValue :=
  match entry.entryKind with
  | .fpe tweak pfx alphabet =>
    match resolveAlphabet alphabet with
    | none => .error (.unknownAlphabet alphabet)
    | some a => .ok (.fpe ⟨entry.label, entry.value, tweak, a, pfx⟩)
  | .sessionMapped kind => .ok (.sessionMapped ⟨entry.label, entry.value, kind⟩)

structure Vault where
  vaultKey : Vector UInt8 32
  entries : List VaultEntry

lemma entryToRegistered_value {entry : VaultEntry} {r : RegisteredValue}
    (h : entryToRegistered entry = .ok r) : r.value = entry.value := by
  unfold entryToRegistered at h
  split at h
  · split at h
    · cases h
    · obtain rfl := Except.ok.inj h
      rfl
  · obtain rfl := Except.ok.inj h
    rfl

namespace Vault

def register (v : Vault) (entry : VaultEntry) : Vault :=
  { v with entries := v.entries.filter (fun e => decide (e.label ≠ entry.label)) ++ [entry] }

/-- Remove the entry with a label, and say whether there was one. -/
def forget (v : Vault) (label : Str) : Vault × Bool :=
  let entries := v.entries.filter fun e => decide (e.label ≠ label)
  ({ v with entries := entries }, decide (v.entries.length ≠ entries.length))

def labels (v : Vault) : List Str := v.entries.map VaultEntry.label

def registeredValues (v : Vault) : Except VaultError (List RegisteredValue) :=
  v.entries.mapM entryToRegistered

section

variable (X : Crates)

/-- The MAC key of the idempotence layer. -/
def deriveMacKey (vaultKey : List UInt8) : Outcome (List UInt8) :=
  expect (X.hkdfExpand vaultKey (utf8 "invisibool-mac-key-v1".toList) 32)
    "HKDF-SHA-256 expand to 32 bytes always succeeds"

def buildEngine (v : Vault) : Outcome (Except VaultError Engine) :=
  match v.registeredValues with
  | .error e => .ok (.error e)
  | .ok registered => do
    let macKey ← deriveMacKey X v.vaultKey.toList
    match ← Engine.new X v.vaultKey.toList registered [] macKey with
    | .error _ => .ok (.error (.io "engine build failed"))
    | .ok engine => .ok (.ok engine)

end

lemma registeredValues_eq_ok {v : Vault} {registered : List RegisteredValue} :
    v.registeredValues = .ok registered ↔
      List.Forall₂ (fun entry r => entryToRegistered entry = .ok r) v.entries registered :=
  mapM_eq_ok

lemma getElem?_registeredValues {v : Vault} {registered : List RegisteredValue}
    (h : v.registeredValues = .ok registered) (i : Nat) :
    (∀ entry, v.entries[i]? = some entry →
      ∃ r, registered[i]? = some r ∧ entryToRegistered entry = .ok r) ∧
    ∀ r, registered[i]? = some r →
      ∃ entry, v.entries[i]? = some entry ∧ entryToRegistered entry = .ok r := by
  obtain ⟨hlen, hget⟩ := List.forall₂_iff_get.mp (registeredValues_eq_ok.mp h)
  constructor
  · intro entry hentry
    obtain ⟨hi, rfl⟩ := List.getElem?_eq_some_iff.mp hentry
    exact ⟨registered[i], List.getElem?_eq_getElem (hlen ▸ hi), hget i hi (hlen ▸ hi)⟩
  · intro r hr
    obtain ⟨hi, rfl⟩ := List.getElem?_eq_some_iff.mp hr
    exact ⟨v.entries[i], List.getElem?_eq_getElem (hlen.symm ▸ hi), hget i (hlen.symm ▸ hi) hi⟩

lemma exists_registered {v : Vault} {registered : List RegisteredValue}
    (h : v.registeredValues = .ok registered) {entry : VaultEntry} (hentry : entry ∈ v.entries) :
    ∃ r ∈ registered, entryToRegistered entry = .ok r := by
  obtain ⟨i, hi⟩ := List.getElem?_of_mem hentry
  obtain ⟨r, hr, hconv⟩ := (getElem?_registeredValues h i).1 entry hi
  exact ⟨r, List.mem_of_getElem? hr, hconv⟩

lemma exists_entry {v : Vault} {registered : List RegisteredValue}
    (h : v.registeredValues = .ok registered) {r : RegisteredValue} (hr : r ∈ registered) :
    ∃ entry ∈ v.entries, entryToRegistered entry = .ok r := by
  obtain ⟨i, hi⟩ := List.getElem?_of_mem hr
  obtain ⟨entry, hentry, hconv⟩ := (getElem?_registeredValues h i).2 r hi
  exact ⟨entry, List.mem_of_getElem? hentry, hconv⟩

theorem buildEngine_eq_ok {X : Crates} {v : Vault} {e : Engine}
    (h : v.buildEngine X = .ok (.ok e)) :
    ∃ registered macKey, v.registeredValues = .ok registered ∧
      Engine.new X v.vaultKey.toList registered [] macKey = .ok (.ok e) := by
  unfold buildEngine at h
  split at h
  · cases h
  · rename_i registered hreg
    obtain ⟨macKey, -, h⟩ := bind_eq_ok.mp h
    obtain ⟨res, hnew, h⟩ := bind_eq_ok.mp h
    cases res with
    | error err => cases h
    | ok engine =>
      obtain rfl := Except.ok.inj (Except.ok.inj h)
      exact ⟨registered, macKey, hreg, hnew⟩

end Vault

end Invisibool
