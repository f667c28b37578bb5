import Invisibool.Cli.Agreement
import Invisibool.System.Stream

/-!
# The secret on standard input

`register` reads its value from the terminal or from a pipe. Of what comes through a pipe, one
line end is taken away.
-/

namespace Invisibool
open Text Process Stream FileSystem
open Format hiding Bytes

/-- The errors of `read_to_string`. -/
inductive ReadError (ε : Type)
  | io (e : ε)
  | invalidUtf8
  deriving DecidableEq

section Reading

variable {ε : Type}

/-- `Read::read_to_string` into an empty text. An error of the stream comes first. -/
def readToString (r : Reader ε) : Except (ReadError ε) Str :=
  match Stream.readToEnd r with
  | .error e => .error (.io e)
  | .ok bytes =>
    match fromUtf8 bytes with
    | some s => .ok s
    | none => .error .invalidUtf8

/-- One line end is taken away. -/
def popLineEnd (buf : Str) : Str :=
  if buf.getLast? = some '\n' then
    if buf.dropLast.getLast? = some '\r' then buf.dropLast.dropLast else buf.dropLast
  else buf

def readSecretPipe (r : Reader ε) : Except (ReadError ε) Str := (readToString r).map popLineEnd

/-- Standard input: a terminal, with what `prompt_password` returns, or a pipe. -/
inductive SecretSource (ε : Type)
  | tty (typed : Except ε Str)
  | pipe (r : Reader ε)

def readSecret : SecretSource ε → Except (ReadError ε) Str
  | .tty typed => typed.mapError .io
  | .pipe r => readSecretPipe r

/-- The text is the value with its line end, if it has one. -/
inductive Line (value : Str) : Str → Prop
  | crlf : Line value (value ++ ['\r', '\n'])
  | lf : value.getLast? ≠ some '\r' → Line value (value ++ ['\n'])
  | unended : value.getLast? ≠ some '\n' → Line value value

lemma popLineEnd_concat (s : Str) :
    popLineEnd (s ++ ['\n']) = if s.getLast? = some '\r' then s.dropLast else s := by
  unfold popLineEnd
  rw [List.getLast?_concat, if_pos rfl, List.dropLast_concat]

/-- A text is read as the value whose line it is. -/
theorem popLineEnd_eq_iff {text value : Str} : popLineEnd text = value ↔ Line value text := by
  constructor
  · rintro rfl
    by_cases hend : text.getLast? = some '\n'
    · obtain ⟨s, rfl⟩ := List.getLast?_eq_some_iff.mp hend
      rw [popLineEnd_concat]
      split
      · rename_i hcr
        obtain ⟨s, rfl⟩ := List.getLast?_eq_some_iff.mp hcr
        rw [List.dropLast_concat, List.append_assoc]
        exact .crlf
      · exact .lf ‹_›
    · have hsame : popLineEnd text = text := if_neg hend
      rw [hsame]
      exact .unended hend
  · intro h
    cases h with
    | crlf =>
      have hsplit : value ++ ['\r', '\n'] = value ++ ['\r'] ++ ['\n'] := by
        rw [List.append_assoc]
        rfl
      rw [hsplit, popLineEnd_concat, if_pos List.getLast?_concat, List.dropLast_concat]
    | lf hcr => rw [popLineEnd_concat, if_neg hcr]
    | unended hlf => exact if_neg hlf

/-- The value that comes from standard input. -/
def SecretSource.Offers (value : Str) : SecretSource ε → Prop
  | .tty typed => typed = .ok value
  | .pipe r => ∃ text, Carries r (utf8 text) ∧ Line value text

lemma readSecret_eq_ok {source : SecretSource ε} {value : Str} :
    readSecret source = .ok value ↔ source.Offers value := by
  cases source with
  | tty typed =>
    cases typed with
    | error e => exact ⟨fun h => (by cases h), fun h => (by cases h)⟩
    | ok typed => exact ⟨fun h => congrArg Except.ok (Except.ok.inj h),
        fun h => congrArg Except.ok (Except.ok.inj h)⟩
  | pipe r =>
    constructor
    · intro h
      change (readToString r).map popLineEnd = _ at h
      unfold readToString at h
      cases hbytes : Stream.readToEnd r with
      | error e =>
        rw [hbytes] at h
        cases h
      | ok bytes =>
        rw [hbytes] at h
        dsimp only at h
        cases htext : fromUtf8 bytes with
        | none =>
          rw [htext] at h
          cases h
        | some text =>
          rw [htext] at h
          refine ⟨text, ?_, popLineEnd_eq_iff.mp (Except.ok.inj h)⟩
          rw [fromUtf8_eq_some.mp htext]
          exact readToEnd_eq_ok.mp hbytes
    · rintro ⟨text, hcontains, hline⟩
      change (readToString r).map popLineEnd = _
      unfold readToString
      rw [readToEnd_eq_ok.mpr hcontains]
      dsimp only
      rw [fromUtf8_eq_some.mpr rfl]
      exact congrArg Except.ok (popLineEnd_eq_iff.mpr hline)

lemma SecretSource.Offers.unique {source : SecretSource ε} {value value' : Str}
    (h : source.Offers value) (h' : source.Offers value') : value = value' :=
  Except.ok.inj ((readSecret_eq_ok.mpr h).symm.trans (readSecret_eq_ok.mpr h'))

end Reading

/-- A process that runs `register` with this label, and what it would draw from the random number
generator. -/
structure RegisterProcess where
  label : Str
  tweak : Vector UInt8 16
  pid : Nat
  newKey : VaultKey
  nonce : Nonce

def RegisterProcess.vaultProcess (p : RegisterProcess) (value : Str) : VaultProcess :=
  ⟨.register p.label value p.tweak, p.pid, p.newKey, p.nonce⟩

namespace Cli

variable {ε : Type}

/-- `run`, of `register`. -/
def runRegister (X : Crates) (Y : FileCrates) (path : PathBuf) (p : RegisterProcess)
    (source : SecretSource ε) :
    Program (Except (ReadError ε) (Except (Stop CommandError) CommandResult)) :=
  match readSecret source with
  | .error e => .ret (.error e)
  | .ok value => (runVaultCommand X Y path (p.vaultProcess value)).bind fun r => .ret (.ok r)

/-- The exit code of the process. -/
def exitCode : Except (ReadError ε) (Except (Stop CommandError) CommandResult) → Nat
  | .error _ => 3
  | .ok (.ok result) => result.exitCode
  | .ok (.error (.error _)) => 3
  | .ok (.error (.panic _)) => 101

lemma runRegister_of_offers {X : Crates} {Y : FileCrates} {path : PathBuf} {p : RegisterProcess}
    {source : SecretSource ε} {value : Str} (h : source.Offers value) :
    runRegister X Y path p source =
      (runVaultCommand X Y path (p.vaultProcess value)).bind fun r => .ret (.ok r) := by
  unfold runRegister
  rw [readSecret_eq_ok.mpr h]

lemma saysChanged_of_exitCode {r : Except (Stop CommandError) CommandResult}
    (h : exitCode (.ok r : Except (ReadError ε) _) = 0) : saysChanged r = true := by
  cases r with
  | ok result => exact decide_eq_true h
  | error e => cases e <;> cases h

end Cli

section Register

variable {ε : Type} {X : Crates} {Y : FileCrates} {path : PathBuf} {m m' : Machine}
  {f : LabelMap} {p : RegisterProcess} {source : SecretSource ε}
  {q : Program (Except (ReadError ε) (Except (Stop CommandError) CommandResult))}
  {history : List (Event Call Call.Ans)}

/-- What `register` is to make of the vault with this value. -/
def RegisterProcess.apply (p : RegisterProcess) (f : LabelMap) (value : Str) : LabelMap :=
  Function.update f p.label (some (Cli.entryFor p.label value p.tweak))

/-- `register`, with its secret from standard input, whatever fails and wherever it is stopped: the
vault is as it was, or has one entry more, of a label that had none, whose value is what was typed
or what came through the pipe up to one line end, however it was cut. If the process exits with
success, the entry is there. If there is nothing to read, or it is no text, then no call is made,
and the process exits with 3. -/
theorem register_takes_secret (hserde : Y.SerdeLawful) (hA : Y.aead.Undone)
    (hm : m.Represents X Y path f)
    (hreach : (Cli.runRegister X Y path p source).Reaches Machine.faulty.logged (m, []) q
      (m', history)) :
    (m'.Represents X Y path f ∨ f p.label = none ∧
      ∃ value, source.Offers value ∧ m'.Represents X Y path (p.apply f value)) ∧
    (∀ outcome, q = .ret outcome → Cli.exitCode outcome = 0 → f p.label = none ∧
      ∃ value, source.Offers value ∧ m'.Represents X Y path (p.apply f value)) ∧
    ((∀ value, ¬source.Offers value) →
      m' = m ∧ history = [] ∧ ∃ outcome, q = .ret outcome ∧ Cli.exitCode outcome = 3) := by
  cases hread : readSecret source with
  | error e =>
    have hprogram : Cli.runRegister X Y path p source = .ret (.error e) := by
      unfold Cli.runRegister
      rw [hread]
    rw [hprogram] at hreach
    cases hreach with
    | refl =>
      refine ⟨.inl hm, fun outcome houtcome hexit => ?_, fun _ => ⟨rfl, rfl, _, rfl, rfl⟩⟩
      cases houtcome
      cases hexit
  | ok value =>
    have hoffers := readSecret_eq_ok.mp hread
    rw [Cli.runRegister_of_offers hoffers] at hreach
    have hnone : ¬∀ value, ¬source.Offers value := fun h => h value hoffers
    rcases hreach.of_bind with ⟨p', hp, hne, rfl⟩ | ⟨r, s₁, hp, hf⟩
    · have hcommits := (commits_of_reaches hp).1
      have hrep := hcommits.represents hserde hA hm
      refine ⟨?_, fun outcome houtcome => ?_, fun h => absurd h hnone⟩
      · split at hrep
        · rename_i hrenamed
          exact .inr ⟨hcommits.acceptedBy hm hrenamed, value, hoffers, hrep⟩
        · exact .inl hrep
      · cases p' with
        | ret r => exact absurd rfl (hne r)
        | call call next => cases houtcome
    · cases hf with
      | refl =>
        obtain ⟨hcommits, hreports⟩ := commits_of_reaches hp
        have hrep := hcommits.represents hserde hA hm
        refine ⟨?_, fun outcome houtcome hexit => ?_, fun h => absurd h hnone⟩
        · split at hrep
          · rename_i hrenamed
            exact .inr ⟨hcommits.acceptedBy hm hrenamed, value, hoffers, hrep⟩
          · exact .inl hrep
        · cases houtcome
          have hrenamed := (hreports r rfl).mpr (Cli.saysChanged_of_exitCode hexit)
          rw [if_pos hrenamed] at hrep
          exact ⟨hcommits.acceptedBy hm hrenamed, value, hoffers, hrep⟩

end Register

def secretPipe : SecretSource Unit :=
  .pipe [.data (utf8 "AA".toList), .interrupted, .data (utf8 "AA\r".toList),
    .data (utf8 "\n".toList)]

def secretProcess : RegisterProcess :=
  ⟨"a".toList, Vector.replicate 16 0, 7, Vector.replicate 32 1, Vector.replicate 24 1⟩

lemma secretPipe_offers : secretPipe.Offers "AAAA".toList :=
  ⟨"AAAA".toList ++ ['\r', '\n'], ⟨[], .whole (by decide) (.interrupted (.whole (by decide)
    (.whole (by decide) .done))), .ended⟩, .crlf⟩

/-- What the process finds is the value without its line end. -/
lemma run_secretProcess (m : Machine) :
    (Cli.runRegister Crates.reference Cli.sampleFiles leftoverPath secretProcess secretPipe).run
      Machine.exec m = (.ok ((Cli.runVaultCommand Crates.reference Cli.sampleFiles leftoverPath
        (secretProcess.vaultProcess "AAAA".toList)).run Machine.exec m).1,
      ((Cli.runVaultCommand Crates.reference Cli.sampleFiles leftoverPath
        (secretProcess.vaultProcess "AAAA".toList)).run Machine.exec m).2) := by
  rw [Cli.runRegister_of_offers secretPipe_offers, Prog.run_bind]
  rfl

theorem register_takes_secret_piped :
    ((Cli.runRegister Crates.reference Cli.sampleFiles leftoverPath secretProcess
      secretPipe).run Machine.exec leftoverMachine).2.Represents Crates.reference Cli.sampleFiles
        leftoverPath (secretProcess.apply (fun _ => none) "AAAA".toList) := by
  obtain ⟨history, hreach⟩ := run_reaches (W := Machine.faulty) Machine.exec
    (fun _ _ => .inl rfl) (Cli.runRegister Crates.reference Cli.sampleFiles leftoverPath
      secretProcess secretPipe) leftoverMachine []
  have hm : leftoverMachine.Represents Crates.reference Cli.sampleFiles leftoverPath
      fun _ => none := ⟨none, .absent (by decide), List.nodup_nil, rfl⟩
  obtain ⟨-, value, hoffers, hrep⟩ := (register_takes_secret
    (FileCrates.ofTables_serdeLawful (by decide) (by simp)) Aead.padding_undone hm hreach).2.1 _
    rfl (by rw [run_secretProcess]; rfl)
  rw [← hoffers.unique secretPipe_offers]
  exact hrep

end Invisibool
