import Invisibool.Store.Vault
import Invisibool.System.Implementation

/-!
# The keychain of the operating system

The slot of the vault key is an entry of the platform's credential store, which is asked through
calls that may fail. Only one of their errors means that there is no entry.
-/

namespace Invisibool
open Text Process FileSystem

/-- `keyring::Error`; an error that is wrapped is its text. -/
inductive KeyringError
  | noEntry
  | platformFailure (inner : String)
  | noStorageAccess (inner : String)
  | badEncoding
  | tooLong (attr : String) (limit : Nat)
  | invalid (attr reason : String)
  | ambiguous (count : Nat)
  | other (text : String)
  deriving DecidableEq, Repr

inductive Mapped
  | empty
  | backend (message : String)
  deriving DecidableEq, Repr

def mapKeyringError : KeyringError → Mapped
  | .noEntry => .empty
  | .platformFailure inner => .backend ("platform secure storage failure: " ++ inner)
  | .noStorageAccess inner => .backend
      ("secure storage unavailable (keychain locked or access denied): " ++ inner)
  | .badEncoding => .backend
      ("keychain entry had unexpected encoding (set_secret/get_secret were used; " ++
        "a non-binary entry was found in our slot, suggesting an unrelated tool wrote to it)")
  | .tooLong attr limit => .backend
      ("keychain attribute '" ++ attr ++ "' exceeded platform length limit of " ++
        toString limit ++ " chars")
  | .invalid attr reason => .backend ("invalid keychain attribute '" ++ attr ++ "': " ++ reason)
  | .ambiguous count => .backend
      ("ambiguous keychain entry: " ++ toString count ++
        " credentials match the (service, user) pair, refusing to pick one")
  | .other text => .backend
      ("unrecognised keyring error variant (keyring crate likely upgraded; " ++
        "treating as backend failure to avoid silent NoEntry collapse): " ++ text)

/-- The calls about the entry of the slot; no command deletes it. -/
inductive EntryCall
  | new
  | getSecret
  | setSecret (bytes : Bytes)

def EntryCall.Ans : EntryCall → Type
  | new => Except KeyringError Unit
  | getSecret => Except KeyringError Bytes
  | setSecret _ => Except KeyringError Unit

/-- A machine with its credential store. -/
structure OsMachine where
  disk : Disk Str Str
  entry : Option Bytes
  printed : Str

inductive OsCall
  | disk (op : Op Str Str)
  | print (text : Str)
  | entry (call : EntryCall)

def OsCall.Ans : OsCall → Type
  | disk op => op.Ans
  | print _ => Except IoError Unit
  | entry call => call.Ans

abbrev OsProgram (α : Type) := Prog OsCall OsCall.Ans α

namespace OsKeychain

/-- Go on with the entry, if it can be named: `entry_for`. -/
def entryFor {α : Type} (next : OsProgram (Except KeychainError α)) :
    OsProgram (Except KeychainError α) :=
  .call (.entry .new) fun
    | .ok () => next
    | .error e => match mapKeyringError e with
      | .backend message => .ret (.error (.backend message))
      | .empty => .ret (.error (.backend
          ("keyring::Entry::new returned NoEntry (unexpected; entry construction " ++
            "does not touch storage)")))

def keyLen : Nat := 32

/-- The bytes of an entry, if they are a key. -/
def toKey (bytes : Bytes) : Option VaultKey :=
  if h : bytes.length = keyLen then some ⟨bytes.toArray, by simpa [keyLen] using h⟩ else none

def fetch : OsProgram (Except KeychainError (Option VaultKey)) :=
  entryFor (.call (.entry .getSecret) fun
    | .ok bytes => match toKey bytes with
      | none => .ret (.error (.malformedKey keyLen bytes.length))
      | some key => .ret (.ok (some key))
    | .error e => match mapKeyringError e with
      | .empty => .ret (.ok none)
      | .backend message => .ret (.error (.backend message)))

def store (key : VaultKey) : OsProgram (Except KeychainError Unit) :=
  entryFor (.call (.entry (.setSecret key.toList)) fun
    | .ok () => .ret (.ok ())
    | .error e => match mapKeyringError e with
      | .empty => .ret (.error (.backend
          ("keyring set_secret returned NoEntry (unexpected; the call creates " ++
            "the entry if absent)")))
      | .backend message => .ret (.error (.backend message)))

end OsKeychain

namespace OsMachine

def exec : (call : OsCall) → OsMachine → call.Ans × OsMachine
  | .disk op, m => ((FileSystem.exec op m.disk).1, { m with disk := (FileSystem.exec op m.disk).2 })
  | .print text, m => (.ok (), { m with printed := m.printed ++ text })
  | .entry .new, m => (.ok (), m)
  | .entry .getSecret, m => match m.entry with
    | none => (.error .noEntry, m)
    | some bytes => (.ok bytes, m)
  | .entry (.setSecret bytes), m => (.ok (), { m with entry := some bytes })

/-- The store says that there is no entry only where there is none, or where that is no answer. -/
def Fails : (call : OsCall) → OsMachine → call.Ans → OsMachine → Prop
  | .disk op, m, ans, m' => ∃ d', FileSystem.Fails op m.disk ans d' ∧ m' = { m with disk := d' }
  | .print text, m, ans, m' => ∃ message n, ans = .error ⟨.other, message⟩ ∧
      m' = { m with printed := m.printed ++ text.take n }
  | .entry .new, m, ans, m' => ∃ e, ans = .error e ∧ m' = m
  | .entry .getSecret, m, ans, m' => ∃ e, ans = .error e ∧ e ≠ .noEntry ∧ m' = m
  | .entry (.setSecret _), m, ans, m' => ∃ e, ans = .error e ∧ m' = m

def faulty : World OsCall OsCall.Ans OsMachine :=
  fun call m ans m' => exec call m = (ans, m') ∨ Fails call m ans m'

/-- The slot as the commands see it: an entry that is no key is never answered. -/
def view (m : OsMachine) : Machine := ⟨m.disk, m.entry.bind OsKeychain.toKey, m.printed⟩

end OsMachine

/-! ### The entry is the slot -/

section

variable {m m' : OsMachine} {e : KeyringError}

lemma OsKeychain.toKey_toList (key : VaultKey) : OsKeychain.toKey key.toList = some key := by
  unfold OsKeychain.toKey
  rw [dif_pos (by simp [OsKeychain.keyLen])]
  simp [Vector.toList]

lemma OsKeychain.toList_inj {key key' : VaultKey} (h : key.toList = key'.toList) : key = key' := by
  have hkey := OsKeychain.toKey_toList key
  rw [h, OsKeychain.toKey_toList] at hkey
  exact (Option.some.inj hkey).symm

end

section Kept

variable {ι : Type} [DecidableEq ι] {P : OsMachine → Prop} {good : VaultKey → Prop}
  {newKey : VaultKey} {m m' : OsMachine}

/-- A step keeps what is known of the machine, and does not take the entry away. -/
structure Keeping (P : OsMachine → Prop) (m m' : OsMachine) : Prop where
  known : P m → P m'
  entry : m.entry.isSome = true → m'.entry.isSome = true

lemma Keeping.refl (P : OsMachine → Prop) (m : OsMachine) : Keeping P m m := ⟨id, id⟩

lemma Keeping.trans {m'' : OsMachine} (h : Keeping P m m') (h' : Keeping P m' m'') :
    Keeping P m m'' := ⟨h'.known ∘ h.known, h'.entry ∘ h.entry⟩

end Kept

/-! ### Two processes at the first start -/

end Invisibool
