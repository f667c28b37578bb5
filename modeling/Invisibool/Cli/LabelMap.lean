import Invisibool.Cli.VaultCommands
import Mathlib.Data.List.Nodup

/-!
# The map from labels to entries

What the entries of a vault are for: each label has at most one entry. `register` adds the entry
of a label that has none, and `forget` takes the entry of a label away.
-/

namespace Invisibool
open Text

abbrev LabelMap := Str → Option VaultEntry

def labelMap (entries : List VaultEntry) : LabelMap :=
  fun label => entries.find? fun entry => decide (entry.label = label)

namespace Cli

/-- The entry that `register` writes. -/
def entryFor (label value : Str) (tweak : Vector UInt8 16) : VaultEntry :=
  match checkEligibility value [] .base62 with
  | .ok () => ⟨label, value, .fpe tweak [] defaultFpeAlphabetName⟩
  | .error _ => ⟨label, value, .sessionMapped .formatless⟩

@[simp] lemma entryFor_label (label value : Str) (tweak : Vector UInt8 16) :
    (entryFor label value tweak).label = label := by
  unfold entryFor
  split <;> rfl

lemma register_of_mem {v : Vault} {label : Str} (h : label ∈ v.labels) (value : Str)
    (tweak : Vector UInt8 16) :
    register v label value tweak = ⟨v, 5, [.labelTaken label]⟩ := by
  unfold register
  rw [if_pos (by simpa using h)]

lemma register_of_not_mem {v : Vault} {label : Str} (h : label ∉ v.labels) (value : Str)
    (tweak : Vector UInt8 16) :
    (register v label value tweak).vault = v.register (entryFor label value tweak) ∧
      (register v label value tweak).exitCode = 0 := by
  unfold register entryFor
  rw [if_neg (by simpa using h)]
  cases checkEligibility value [] .base62 <;> exact ⟨rfl, rfl⟩

end Cli

namespace VaultCommand
open Cli

def label : VaultCommand → Str
  | register label _ _ => label
  | forget label => label

/-- What the command is to do to the map. -/
def apply (c : VaultCommand) (f : LabelMap) : LabelMap :=
  Function.update f c.label (match c with
    | register label value tweak => some (entryFor label value tweak)
    | forget _ => none)

/-- The command is one that a vault with this map does not refuse. -/
def AcceptedBy (f : LabelMap) : VaultCommand → Prop
  | register label _ _ => f label = none
  | forget label => f label ≠ none

/-- What the command does to an open vault. -/
def effect (v : Vault) : VaultCommand → Vault
  | register label value tweak => (Cli.register v label value tweak).vault
  | forget label => (v.forget label).1

/-- The command does not refuse. -/
def Accepts (v : Vault) : VaultCommand → Prop
  | register label _ _ => label ∉ v.labels
  | forget label => label ∈ v.labels

end VaultCommand

variable {entries : List VaultEntry} {label : Str}

lemma labelMap_eq_none : labelMap entries label = none ↔ label ∉ entries.map VaultEntry.label := by
  unfold labelMap
  rw [List.find?_eq_none]
  simp

lemma labelMap_filter : labelMap (entries.filter fun entry => decide (entry.label ≠ label)) =
    Function.update (labelMap entries) label none := by
  funext other
  unfold labelMap
  by_cases hother : other = label
  · subst hother
    rw [Function.update_self, List.find?_eq_none]
    intro entry hentry
    have hne := (List.mem_filter.mp hentry).2
    simpa using hne
  · rw [Function.update_of_ne hother, List.find?_filter]
    congr 1
    funext entry
    by_cases hentry : entry.label = other
    · simp [hentry, hother]
    · simp [hentry]

lemma labelMap_append (entry : VaultEntry) (hnone : labelMap entries entry.label = none) :
    labelMap (entries ++ [entry]) = Function.update (labelMap entries) entry.label (some entry) := by
  funext other
  by_cases hother : other = entry.label
  · subst hother
    rw [Function.update_self]
    unfold labelMap at hnone ⊢
    rw [List.find?_append, hnone]
    simp
  · rw [Function.update_of_ne hother]
    unfold labelMap
    rw [List.find?_append]
    simp [Ne.symm hother]

lemma labelMap_register (v : Vault) (entry : VaultEntry) :
    labelMap (v.register entry).entries =
      Function.update (labelMap v.entries) entry.label (some entry) := by
  unfold Vault.register
  rw [labelMap_append, labelMap_filter, Function.update_idem]
  rw [labelMap_filter, Function.update_self]

lemma labelMap_forget (v : Vault) (label : Str) :
    labelMap (v.forget label).1.entries = Function.update (labelMap v.entries) label none :=
  labelMap_filter

lemma nodup_register {v : Vault} (h : v.labels.Nodup) (entry : VaultEntry) :
    (v.register entry).labels.Nodup := by
  unfold Vault.register Vault.labels at *
  rw [List.map_append, List.map_singleton]
  refine List.Nodup.append ((List.filter_sublist.map _).nodup h) (List.nodup_singleton _) ?_
  intro label hlabel hmem
  obtain rfl := List.mem_singleton.mp hmem
  obtain ⟨e, he, heq⟩ := List.mem_map.mp hlabel
  have hne := (List.mem_filter.mp he).2
  exact absurd heq (by simpa using hne)

lemma nodup_forget {v : Vault} (h : v.labels.Nodup) (label : Str) :
    (v.forget label).1.labels.Nodup :=
  (List.filter_sublist.map _).nodup h

lemma forget_eq_false {v : Vault} : (v.forget label).2 = false ↔ label ∉ v.labels := by
  unfold Vault.forget Vault.labels
  simp only [ne_eq, decide_eq_false_iff_not, not_not, List.mem_map, not_exists, not_and]
  rw [eq_comm, List.length_filter_eq_length_iff]
  simp

namespace VaultCommand

variable {c : VaultCommand} {v : Vault}

lemma acceptedBy_labelMap : c.AcceptedBy (labelMap v.entries) ↔ c.Accepts v := by
  cases c with
  | register label value tweak => exact labelMap_eq_none
  | forget label => exact labelMap_eq_none.not_left

theorem labelMap_effect (h : c.Accepts v) :
    labelMap (c.effect v).entries = c.apply (labelMap v.entries) := by
  cases c with
  | register label value tweak =>
    unfold effect
    dsimp only
    rw [(Cli.register_of_not_mem h value tweak).1, labelMap_register, Cli.entryFor_label]
    rfl
  | forget label => exact labelMap_forget v label

theorem nodup_effect (h : v.labels.Nodup) : (c.effect v).labels.Nodup := by
  cases c with
  | register label value tweak =>
    unfold effect
    dsimp only
    by_cases hmem : label ∈ v.labels
    · rw [Cli.register_of_mem hmem]
      exact h
    · rw [(Cli.register_of_not_mem hmem value tweak).1]
      exact nodup_register h _
  | forget label => exact nodup_forget h label

lemma effect_vaultKey : (c.effect v).vaultKey = v.vaultKey := by
  cases c with
  | register label value tweak =>
    unfold effect Cli.register
    dsimp only
    split
    · rfl
    split <;> rfl
  | forget label => rfl

/-- A command leaves the entries of the other labels. -/
lemma apply_of_ne {f : LabelMap} {other : Str} (h : other ≠ c.label) :
    c.apply f other = f other :=
  Function.update_of_ne h _ _

end VaultCommand

end Invisibool
