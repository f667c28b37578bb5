import Invisibool.Cli.Agreement
import Invisibool.Cli.Concurrency
import Invisibool.Store.Faultless
import Mathlib.Data.Char
import Mathlib.Data.List.Lex
import Mathlib.Data.List.Sort

/-!
# The command that lists the vault

`list` shows the labels of the vault and how each entry fakes, and never a value.
-/

namespace Invisibool
open Text Process FileSystem

inductive EntryKindSummary
  | fpe (alphabet pfx : Str)
  | sessionMapped (kind : SessionFakeKind)
  deriving DecidableEq

structure EntryMetadata where
  label : Str
  kind : EntryKindSummary
  deriving DecidableEq

def EntryKindSummary.fromEntryKind : VaultEntryKind → EntryKindSummary
  | .fpe _ pfx alphabet => .fpe alphabet pfx
  | .sessionMapped kind => .sessionMapped kind

def VaultEntry.metadata (entry : VaultEntry) : EntryMetadata :=
  ⟨entry.label, .fromEntryKind entry.entryKind⟩

def Vault.listMetadata (v : Vault) : List EntryMetadata := v.entries.map VaultEntry.metadata

/-- The Unicode tables behind `{:?}`. -/
structure DebugTables where
  graphemeExtended : Char → Bool
  printable : Char → Bool

namespace Cli

section

variable (T : DebugTables)

/-- `char::escape_debug_ext`, as `{:?}` of a string calls it. -/
def escapeDebugChar (c : Char) : Str :=
  if c.toNat = 0 then "\\0".toList
  else if c = '\t' then "\\t".toList
  else if c = '\r' then "\\r".toList
  else if c = '\n' then "\\n".toList
  else if c = '\\' then "\\\\".toList
  else if c = '"' then "\\\"".toList
  else if T.graphemeExtended c = false ∧ T.printable c = true then [c]
  else "\\u\x7b".toList ++ Nat.toDigits 16 c.toNat ++ "\x7d".toList

/-- `{:?}` of a string. -/
def debugStr (s : Str) : Str := '"' :: s.flatMap (escapeDebugChar T) ++ ['"']

def formatPiiKind : PiiKind → Str
  | .email => "Email".toList
  | .ipv4 => "Ipv4".toList
  | .phone => "Phone".toList

def formatKind : EntryKindSummary → Str
  | .fpe alphabet pfx =>
    if pfx = [] then "FPE ".toList ++ alphabet
    else "FPE ".toList ++ alphabet ++ " prefix=".toList ++ debugStr T pfx
  | .sessionMapped .card => "SessionMapped Card".toList
  | .sessionMapped .formatless => "SessionMapped Formatless".toList
  | .sessionMapped (.pii kind) => "SessionMapped Pii(".toList ++ formatPiiKind kind ++ ")".toList

/-- `writeln!(out, "{}\t{}", m.label, format_kind(&m.kind))` -/
def metadataLine (m : EntryMetadata) : Str := m.label ++ '\t' :: formatKind T m.kind ++ ['\n']

def emptyLine : Str := "(no registered entries)\n".toList

/-- The lines for these entries. -/
def listLines (metadata : List EntryMetadata) : List Str :=
  if metadata = [] then [emptyLine] else metadata.map (metadataLine T)

/-- `metadata.sort_by(|a, b| a.label.cmp(&b.label))`, which orders the bytes of UTF-8 and so the
scalar values. -/
def sortedMetadata (v : Vault) : List EntryMetadata :=
  v.listMetadata.mergeSort fun a b => a.label ≤ b.label

/-- One `writeln!` after another; that one fails is ignored. -/
def printAll : List Str → Program Unit
  | [] => .ret ()
  | line :: lines => (print line).bind fun _ => printAll lines

def list (X : Crates) (Y : FileCrates) (path : PathBuf) (newKey : VaultKey) :
    Program (Except (Stop CommandError) Nat) :=
  ((openVault X Y path newKey).mapError (Stop.map .vault)).andThen fun v =>
  (printAll (listLines T (sortedMetadata v.toVault))).bind fun () => .ret (.ok 0)

end

end Cli

/-- How the entry of each label fakes. -/
def LabelMap.kinds (f : LabelMap) (label : Str) : Option EntryKindSummary :=
  (f label).map fun entry => .fromEntryKind entry.entryKind

/-- The lines that show these kinds: one for each label that has one, in the order of the
labels. -/
def Lists (T : DebugTables) (kinds : Str → Option EntryKindSummary) (lines : List Str) : Prop :=
  ∃ metadata : List EntryMetadata, metadata.Pairwise (fun a b => a.label < b.label) ∧
    (∀ m, m ∈ metadata ↔ kinds m.label = some m.kind) ∧ lines = Cli.listLines T metadata

section Lines

variable {T : DebugTables} {kinds : Str → Option EntryKindSummary} {lines lines' : List Str}

/-- The kinds determine the lines. -/
lemma Lists.unique (h : Lists T kinds lines) (h' : Lists T kinds lines') : lines = lines' := by
  obtain ⟨metadata, hsorted, hmem, rfl⟩ := h
  obtain ⟨metadata', hsorted', hmem', rfl⟩ := h'
  have hnodup : ∀ l : List EntryMetadata, l.Pairwise (fun a b => a.label < b.label) → l.Nodup :=
    fun l hl => hl.imp fun hlt heq => absurd (congrArg EntryMetadata.label heq) hlt.ne
  have hperm : metadata.Perm metadata' :=
    (List.perm_ext_iff_of_nodup (hnodup _ hsorted) (hnodup _ hsorted')).mpr fun m =>
      (hmem m).trans (hmem' m).symm
  rw [hperm.eq_of_pairwise (fun a b _ _ hab hba => absurd hab (lt_asymm hba)) hsorted hsorted']

lemma mem_listMetadata {v : Vault} (hv : v.labels.Nodup) {m : EntryMetadata} :
    m ∈ v.listMetadata ↔ (labelMap v.entries).kinds m.label = some m.kind := by
  unfold Vault.listMetadata LabelMap.kinds
  rw [List.mem_map, Option.map_eq_some_iff]
  constructor
  · rintro ⟨entry, hentry, rfl⟩
    exact ⟨entry, Cli.labelMap_of_mem hv hentry, rfl⟩
  · rintro ⟨entry, hentry, hkind⟩
    have hlabel : entry.label = m.label := by simpa using List.find?_some hentry
    refine ⟨entry, List.mem_of_find?_eq_some hentry, ?_⟩
    unfold VaultEntry.metadata
    rw [hlabel, hkind]

/-- `list` sorts the labels, and shows each of them once. -/
lemma lists_sortedMetadata {v : Vault} (hv : v.labels.Nodup) :
    Lists T (labelMap v.entries).kinds (Cli.listLines T (Cli.sortedMetadata v)) := by
  have hperm : (Cli.sortedMetadata v).Perm v.listMetadata := List.mergeSort_perm _ _
  have hlabels : ((Cli.sortedMetadata v).map EntryMetadata.label).Nodup := by
    refine (hperm.map EntryMetadata.label).nodup_iff.mpr ?_
    unfold Vault.listMetadata
    rw [List.map_map]
    exact hv
  have hle : (Cli.sortedMetadata v).Pairwise fun a b => a.label ≤ b.label := by
    refine List.Pairwise.imp (fun hab => of_decide_eq_true hab) (List.pairwise_mergeSort
      (fun a b c hab hbc => ?_) (fun a b => ?_) v.listMetadata)
    · exact decide_eq_true ((of_decide_eq_true hab).trans (of_decide_eq_true hbc))
    · simpa using le_total a.label b.label
  refine ⟨Cli.sortedMetadata v, ?_, fun m => ?_, rfl⟩
  · exact (hle.and (List.pairwise_map.mp hlabels)).imp fun h => lt_of_le_of_ne h.1 h.2
  · rw [hperm.mem_iff, mem_listMetadata hv]

end Lines

def Call.text? : Call → Option Str
  | .print text => some text
  | _ => none

/-- The lines that the calls have written, or have tried to write. -/
def printedBy (calls : List (Event Call Call.Ans)) : List Str :=
  calls.filterMap fun event => event.1.text?

section Steps

variable {ι κ : Type} {T : DebugTables} {X : Crates} {Y : FileCrates} {path : PathBuf}
  {procs : ι → VaultProcess} {newKey : κ → VaultKey} {v₀ : OpenVault} {f : LabelMap}
  {vaultKey : VaultKey} {m : Machine} {s s' : Moment}

lemma openVault_only (path : PathBuf) (newKey : VaultKey) :
    (openVault X Y path newKey).Only fun call => call.text? = none := by
  have hperform : ∀ call : Call, call.text? = none →
      (Prog.perform call : Program call.Ans).Only fun call => call.text? = none :=
    fun call hcall => ⟨hcall, fun _ => trivial⟩
  have hscan : (scanOrphans path).Only fun call => call.text? = none := by
    refine (scanOrphans_onDisk path).mono ?_
    rintro call ⟨op, rfl⟩
    rfl
  refine hscan.bind fun _ => ?_
  refine Prog.Only.andThen (Prog.Only.mapError ?_) fun vaultKey => ?_
  · refine (hperform .fetch rfl).andThen fun found => ?_
    cases found with
    | some key => trivial
    | none => exact (hperform (.store newKey) rfl).andThen fun _ => trivial
  · refine Prog.Only.andThen (Prog.Only.mapError ?_) fun found => ?_
    · refine (hperform (.disk _) rfl).bind fun ans => ?_
      rcases ans with e | i
      · dsimp only
        split <;> trivial
      · exact (hperform (.disk _) rfl).andThen fun _ => trivial
    · cases found <;> trivial

lemma MapInTurn.alongside {g : LabelMap} {who : Option Nat} (h : MapInTurn path procs f s g)
    (hs : Alongside X Y path procs v₀ who s s') : MapInTurn path procs f s' g := by
  obtain ⟨order, hnodup, hlanded, hmap⟩ := h
  exact ⟨order, hnodup, fun k hk => hs.history _ (hlanded k hk), hmap⟩

/-- The lines are written one after the other, whatever becomes of each of them. -/
lemma printAll_among {lines : List Str} {P : Moment → Prop} (hP : P s)
    (hstable : ∀ s s', P s → Alongside X Y path procs v₀ none s s' → P s') :
    Among X Y path procs v₀ none (fun r s' => printedBy r.2 = lines ∧ P s')
      (Cli.printAll lines).recorded s := by
  induction lines generalizing s with
  | nil => exact among_ret ⟨rfl, hP⟩ fun s s' h hs => ⟨h.1, hstable s s' h.2 hs⟩
  | cons line lines ih =>
    have hprint : Among X Y path procs v₀ none (fun _ s' => P s') (print line) s :=
      print_among hP hstable
    intro s₁ hs₁ ans s₂ hstep
    obtain ⟨hg, hP₂⟩ := hprint s₁ hs₁ ans s₂ hstep
    refine ⟨hg, (ih (hP₂ s₂ (Alongside.refl _ _))).map fun r s₃ hr => ⟨?_, hr.2⟩⟩
    exact congrArg (List.cons line) hr.1

/-- What is known where `list` has returned: it has printed a map that the commands have made in
turn, or nothing at all. -/
def Listed (T : DebugTables) (path : PathBuf) (procs : ι → VaultProcess) (f : LabelMap)
    (s : Moment) : Except (Stop CommandError) Nat × List (Event Call Call.Ans) → Prop
  | (.ok code, calls) => code = 0 ∧ ∃ g, MapInTurn path procs f s g ∧
      ∀ lines, Lists T g.kinds lines ↔ lines = printedBy calls
  | (.error _, calls) => printedBy calls = []

theorem list_among {newKey : VaultKey} (h : Early X Y path procs v₀ none s)
    (hv₀ : v₀.labels.Nodup) (hf : labelMap v₀.entries = f) :
    Among X Y path procs v₀ none (fun r s' => Listed T path procs f s' r)
      (Cli.list T X Y path newKey).recorded s := by
  refine Holds.recorded_bind (Alongside.refl _) (Holds.recorded_bind (Alongside.refl _)
    (((openVault_among h).recorded (openVault_only path newKey)).mono (fun _ _ hg => hg) ?_))
  rintro ⟨e | v, calls⟩ s₁ ⟨hopens, hquiet⟩
  · intro s₂ _ s₃ _
    change printedBy ((calls ++ []) ++ []) = []
    rw [List.append_nil, List.append_nil]
    exact List.filterMap_eq_nil_iff.mpr hquiet
  · intro s₂ hs₂
    obtain ⟨hnodup, hmap⟩ := ((hopens.made v rfl).mono hs₂.history).map hv₀ hf
    set g := labelMap v.entries with hg
    refine Holds.recorded_bind (Alongside.refl _)
      ((printAll_among hmap fun _ _ => MapInTurn.alongside).mono (fun _ _ hg => hg) ?_)
    rintro ⟨u, calls'⟩ s₃ ⟨hprinted, hmap₃⟩ s₄ hs₄
    refine ⟨rfl, g, hmap₃.alongside hs₄, fun lines => ?_⟩
    have hcalls : printedBy ((calls ++ []) ++ (calls' ++ [])) =
        Cli.listLines T (Cli.sortedMetadata v.toVault) := by
      rw [List.append_nil, List.append_nil, ← hprinted]
      unfold printedBy
      rw [List.filterMap_append, List.filterMap_eq_nil_iff.mpr hquiet, List.nil_append]
    have hlists := lists_sortedMetadata (T := T) hnodup
    change _ ↔ lines = printedBy ((calls ++ []) ++ (calls' ++ []))
    rw [hcalls]
    constructor
    · intro h
      exact h.unique hlists
    · rintro rfl
      exact hlists

end Steps

section Pool

variable {ι κ : Type} (T : DebugTables) (X : Crates) (Y : FileCrates) (path : PathBuf)
  (procs : ι → VaultProcess) (newKey : κ → VaultKey) (f : LabelMap)

/-- Some processes run a command, the others list the vault. -/
abbrev ListAnswers (ι κ : Type) : ι ⊕ κ → Type
  | .inl _ => Except (Stop CommandError) CommandResult
  | .inr _ => Except (Stop CommandError) Nat × List (Event Call Call.Ans)

def commandsAndLists : (i : ι ⊕ κ) → Program (ListAnswers ι κ i)
  | .inl k => Cli.runVaultCommand X Y path (procs k)
  | .inr k => (Cli.list T X Y path (newKey k)).recorded

/-- What is known where a process has returned. -/
def TellsListed (v₀ : OpenVault) : (i : ι ⊕ κ) → ListAnswers ι κ i → Moment → Prop
  | .inl k => fun r => Reported X Y path procs v₀ (procs k).pid (saysChanged r)
  | .inr _ => fun r s => Listed T path procs f s r

/-- What becomes of a vault that many processes change and list at the same time. -/
structure Shown (ps : (i : ι ⊕ κ) → Program (ListAnswers ι κ i)) (s : Moment) : Prop where
  /-- No listing changes the vault. -/
  vault : ∃ g, MapInTurn path procs f s g ∧ ∀ d, s.1.disk.Crashed d →
    Machine.Represents X Y path { s.1 with disk := d } g
  listed : ∀ k r, ps (.inr k) = .ret r → Listed T path procs f s r

variable {T X Y path procs newKey f} {vaultKey : VaultKey} {m : Machine} {s : Moment}

/-- Whatever commands run at the same time, and whatever fails, a `list` that returns 0 has written
the lines for one vault that commands have made in turn. They are in the order of the labels, and
only the labels and the kinds of the entries determine them. -/
theorem lists_in_turn [DecidableEq (ι ⊕ κ)] (hserde : Y.SerdeLawful) (hA : Y.aead.Undone)
    (hpids : Function.Injective fun k => (procs k).pid) (hkey : m.keychain = some vaultKey)
    (hm : m.Represents X Y path f) {ps : (i : ι ⊕ κ) → Program (ListAnswers ι κ i)}
    (hrun : Interleaves (fun _ => Machine.faulty.logged)
      (commandsAndLists T X Y path procs newKey) (m, []) ps s) :
    Shown T X Y path procs f ps s := by
  obtain ⟨v₀, rfl, hreads, hsynced, hv₀, hf⟩ := hm.exists_openVault hkey
  have hstart : ∀ who, Early X Y path procs v₀ who (m, []) := early_start hkey hreads hsynced
  have hrefl : ∀ (i : ι ⊕ κ) s, Alongside X Y path procs v₀ (writerOf procs i) s s :=
    fun i s => Alongside.refl _ s
  have htrans : ∀ (i : ι ⊕ κ) s s' s'', Alongside X Y path procs v₀ (writerOf procs i) s s' →
      Alongside X Y path procs v₀ (writerOf procs i) s' s'' →
      Alongside X Y path procs v₀ (writerOf procs i) s s'' := fun _ _ _ _ => Alongside.trans
  have hothers : ∀ (i j : ι ⊕ κ) s s', i ≠ j → Aloof X Y path procs v₀ (writerOf procs j) s s' →
      Alongside X Y path procs v₀ (writerOf procs i) s s' :=
    fun _ _ _ _ hij h => h.alongside hpids hij
  have hall : ∀ i, Holds Machine.faulty.logged (Alongside X Y path procs v₀ (writerOf procs i))
      (Aloof X Y path procs v₀ (writerOf procs i)) (TellsListed T X Y path procs f v₀ i)
      (commandsAndLists T X Y path procs newKey i) (m, []) := by
    rintro (k | k)
    · exact runVaultCommand_among hserde hA (hstart _)
    · exact list_among (hstart none) hv₀ hf
  have hcommon : Common X Y path procs v₀ s := hrun.invariant hrefl htrans hothers hall
    (fun i s s' hc hg => (hg none (.inl rfl)).common hc) (hstart none).common
  refine ⟨hcommon.represents hv₀ hf, fun k r hk => ?_⟩
  have h := hrun.holds hrefl htrans hothers hall (.inr k)
  rw [hk] at h
  exact h s (hrefl _ s)

/-- One process has registered its label when a listing opens the vault, and another one takes it
away with its own before the listing is printed. -/
def twoAndList : ((i : Bool ⊕ Unit) → Program (ListAnswers Bool Unit i)) × Moment :=
  (List.replicate 3 (Sum.inl false) ++ List.replicate 3 (Sum.inl true) ++
      List.replicate 8 (Sum.inl false) ++ List.replicate 4 (Sum.inr ()) ++
      List.replicate 8 (Sum.inl true) ++ [Sum.inr ()]).foldl
        (advance Machine.record fun _ _ => true)
    (commandsAndLists ⟨fun _ => false, fun _ => true⟩ Crates.reference twoFiles emptyVaultPath
      twoProcesses (fun _ => Vector.replicate 32 1), (emptyMachine, []))

theorem lists_in_turn_two : Shown ⟨fun _ => false, fun _ => true⟩ Crates.reference twoFiles
    emptyVaultPath twoProcesses (fun _ => none) twoAndList.1 twoAndList.2 :=
  lists_in_turn (FileCrates.ofTables_serdeLawful (by decide) (by simp))
    Format.Aead.padding_undone (fun k k' h => by cases k <;> cases k' <;> first | rfl | cases h) rfl
    ⟨none, .absent (by decide), List.nodup_nil, rfl⟩
    (interleaves_schedule Machine.record _ (fun _ _ _ _ => ⟨.inl rfl, rfl⟩) _)

end Pool

end Invisibool
