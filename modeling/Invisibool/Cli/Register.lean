import Invisibool.Vault

/-!
# The `register` command

Every value goes into the vault: on the FF1 path if it is eligible with the default alphabet and
no prefix, and else as a `Formatless` session-mapped value.
-/

namespace Invisibool
open Text

def defaultFpeAlphabetName : Str := "BASE62".toList

inductive RegisterNotice
  | labelTaken (label : Str)
  | formatless (label : Str) (reason : EligibilityError)
  deriving DecidableEq, Repr

structure RegisterResult where
  vault : Vault
  exitCode : Nat
  notices : List RegisterNotice

namespace Cli

/-- `register`; the tweak is what `random_ff1_tweak` draws. -/
def register (v : Vault) (label value : Str) (tweak : Vector UInt8 16) : RegisterResult :=
  if v.labels.any fun l => decide (l = label) then ⟨v, 5, [.labelTaken label]⟩
  else match checkEligibility value [] .base62 with
    | .ok () => ⟨v.register ⟨label, value, .fpe tweak [] defaultFpeAlphabetName⟩, 0, []⟩
    | .error reason =>
      ⟨v.register ⟨label, value, .sessionMapped .formatless⟩, 0, [.formatless label reason]⟩

structure RegisterCommand where
  label : Str
  value : Str
  tweak : Vector UInt8 16

/-- The vault after a sequence of commands, each of which opens what the last one saved. -/
def registerAll (v : Vault) (cmds : List RegisterCommand) : Vault :=
  cmds.foldl (fun v cmd => (register v cmd.label cmd.value cmd.tweak).vault) v

/-- The entry is one that `register` writes. -/
def Registered (entry : VaultEntry) : Prop :=
  (∃ tweak, entry.entryKind = .fpe tweak [] defaultFpeAlphabetName ∧
    checkEligibility entry.value [] .base62 = .ok ()) ∨
  ∃ reason, entry.entryKind = .sessionMapped .formatless ∧
    checkEligibility entry.value [] .base62 = .error reason

lemma registered_register {v : Vault} (hv : ∀ entry ∈ v.entries, Registered entry)
    (label value : Str) (tweak : Vector UInt8 16) :
    ∀ entry ∈ (register v label value tweak).vault.entries, Registered entry := by
  intro entry hentry
  unfold register at hentry
  split at hentry
  · exact hv entry hentry
  split at hentry
  · rename_i hok
    rcases List.mem_append.mp hentry with h | h
    · exact hv entry (List.mem_filter.mp h).1
    · obtain rfl := List.mem_singleton.mp h
      exact .inl ⟨tweak, rfl, hok⟩
  · rename_i reason herr
    rcases List.mem_append.mp hentry with h | h
    · exact hv entry (List.mem_filter.mp h).1
    · obtain rfl := List.mem_singleton.mp h
      exact .inr ⟨reason, rfl, herr⟩

/-- Every entry of a vault that only `register` has written to is one that it writes. -/
theorem registered_registerAll {v : Vault} (hv : ∀ entry ∈ v.entries, Registered entry)
    (cmds : List RegisterCommand) :
    ∀ entry ∈ (registerAll v cmds).entries, Registered entry := by
  induction cmds generalizing v with
  | nil => exact hv
  | cons cmd cmds ih => exact ih (registered_register hv cmd.label cmd.value cmd.tweak)

lemma entryToRegistered_of_registered {entry : VaultEntry} {r : RegisteredValue}
    (h : Registered entry) (hr : entryToRegistered entry = .ok r) :
    (entry.entryKind ≠ .sessionMapped .formatless ∧
      ∃ reg, r = .fpe reg ∧ reg.Eligible ∧ reg.pfx = [] ∧ reg.alphabet = .base62) ∨
    (entry.entryKind = .sessionMapped .formatless ∧
      r = .sessionMapped ⟨entry.label, entry.value, .formatless⟩) := by
  rcases h with ⟨tweak, hkind, hok⟩ | ⟨reason, hkind, -⟩
  · have hname : resolveAlphabet defaultFpeAlphabetName = some .base62 := rfl
    unfold entryToRegistered at hr
    rw [hkind] at hr
    simp only [hname, Except.ok.injEq] at hr
    exact .inl ⟨by simp [hkind], _, hr.symm, hok, rfl, rfl⟩
  · unfold entryToRegistered at hr
    rw [hkind] at hr
    exact .inr ⟨hkind, (Except.ok.inj hr).symm⟩

end Cli

end Invisibool
