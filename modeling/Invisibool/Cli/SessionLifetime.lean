import Invisibool.Cli.SessionCommands

/-!
# The lifetime of a session file

Commands on one session path, one process after the other, each with a clock of its own. From its
creation to its removal a session file keeps the times that it was created with, and nothing
comes of it once they are over.
-/

namespace Invisibool
open Text Process FileSystem
open Format hiding Bytes

/-- A machine with the process that runs on it, if any. -/
structure Shell where
  moment : Moment
  running : Option (Program (Except (Stop CommandError) CommandResult))

/-- A process is started, which ends the one before if it has not returned yet, or answered a
call, or the machine crashes. -/
inductive SessionStep (X : Crates) (Y : FileCrates) (vaultPath path : PathBuf) : Shell → Shell → Prop
  | start {s r} (p : TextProcess) : p.session = some path →
      SessionStep X Y vaultPath path ⟨s, r⟩ ⟨(s.1, []), some (Cli.runTextCommand X Y vaultPath p)⟩
  | call {s op next ans s'} : Machine.faulty.logged op s ans s' →
      SessionStep X Y vaultPath path ⟨s, some (.call op next)⟩ ⟨s', some (next ans)⟩
  | crash {s r d} : s.1.disk.Crashed d →
      SessionStep X Y vaultPath path ⟨s, r⟩ ⟨({ s.1 with disk := d }, []), none⟩

/-- The step leaves a session file. -/
def StepWithFile (X : Crates) (Y : FileCrates) (vaultPath path : PathBuf) (σ σ' : Shell) : Prop :=
  SessionStep X Y vaultPath path σ σ' ∧ (σ'.moment.content path.file).isSome

section Runs

open Relation

variable {X : Crates} {Y : FileCrates} {vaultPath path : PathBuf} {σ σ' : Shell}

/-- What is left of the process that runs is still as its specification says. -/
def Shell.Specified (X : Crates) (Y : FileCrates) (path : PathBuf) (σ : Shell) : Prop :=
  ∀ q, σ.running = some q →
    ∃ now, Does (Turns X Y now path.file) (fun _ _ => True) q σ.moment

lemma SessionStep.specified (hserde : Y.SerdeLawful) (hA : Y.aead.Undone)
    (hσ : σ.Specified X Y path) (hstep : SessionStep X Y vaultPath path σ σ') :
    σ'.Specified X Y path := by
  intro q hq
  cases hstep with
  | start p hp =>
    obtain rfl := Option.some.inj hq
    exact ⟨p.nowEpoch, runTextCommand_does hserde hA hp fun h => by cases h⟩
  | call hcall =>
    obtain rfl := Option.some.inj hq
    obtain ⟨now, hdoes⟩ := hσ _ rfl
    exact ⟨now, (holds_call.mp hdoes _ _ hcall).2⟩
  | crash hd => cases hq

/-- What one step can do to the session file. -/
inductive Moves (X : Crates) (Y : FileCrates) (file : Str × Str) (s s' : Moment) : Prop
  | turn {now} : Turns X Y now file s s' → Moves X Y file s s'
  | idle : s'.1 = s.1 → Moves X Y file s s'
  | crash : s'.1.keychain = s.1.keychain → s.1.disk.Crashed s'.1.disk → Moves X Y file s s'

lemma SessionStep.moves (hσ : σ.Specified X Y path) (hstep : SessionStep X Y vaultPath path σ σ') :
    Moves X Y path.file σ.moment σ'.moment := by
  cases hstep with
  | start p hp => exact .idle rfl
  | call hcall =>
    obtain ⟨now, hdoes⟩ := hσ _ rfl
    exact .turn (holds_call.mp hdoes _ _ hcall).1
  | crash hd => exact .crash rfl hd

variable {file : Str × Str} {s s' : Moment} {bytes : Bytes} {key : VaultKey}

lemma Moves.keychain (h : Moves X Y file s s') (hkey : s.1.keychain = some key) :
    s'.1.keychain = some key := by
  cases h with
  | turn h => exact h.keychain hkey
  | idle h => exact (congrArg Machine.keychain h).trans hkey
  | crash h _ => exact h.trans hkey

/-- The file holds these bytes or others with the same times. -/
def AsBorn (X : Crates) (Y : FileCrates) (file : Str × Str) (bytes : Bytes) (s : Moment) : Prop :=
  ∃ bytes', s.content file = some ⟨bytes', true⟩ ∧ (bytes' = bytes ∨
    ∃ key c c', s.1.keychain = some key ∧ Decodes X Y key bytes c ∧ Decodes X Y key bytes' c' ∧
      c.SameTimes c')

lemma AsBorn.moves (hborn : AsBorn X Y file bytes s) (h : Moves X Y file s s')
    (hfile : (s'.content file).isSome) : AsBorn X Y file bytes s' := by
  obtain ⟨bytes', hcontent, htimes⟩ := hborn
  have hkept : s'.content file = some ⟨bytes', true⟩ → AsBorn X Y file bytes s' := fun hc => by
    refine ⟨bytes', hc, htimes.imp_right ?_⟩
    rintro ⟨key, c, c', hkey, hdec⟩
    exact ⟨key, c, c', h.keychain hkey, hdec⟩
  cases h with
  | turn hturn =>
    rcases hturn with hkeeps | hremoves | hrenews
    · exact hkept (hkeeps.content.trans hcontent)
    · have hnone : s'.content file = none := hremoves.content
      rw [hnone] at hfile
      cases hfile
    · obtain ⟨key, bytes'', c'', hkey, hcontent'', hdec'', hold⟩ := hrenews.exists_contents
      rcases hold with ⟨hnone, -⟩ | ⟨body, c₁, hbody, hdec₁, htimes₁⟩
      · rw [hcontent] at hnone
        cases hnone
      obtain rfl := Option.some.inj (hcontent.symm.trans hbody)
      refine ⟨bytes'', hcontent'', .inr ?_⟩
      rcases htimes with rfl | ⟨key', c, c', hkey', hdec, hdec', htimes'⟩
      · exact ⟨key, c₁, c'', hkey, hdec₁, hdec'', htimes₁⟩
      · obtain rfl := Option.some.inj ((hrenews.keychain key' hkey').symm.trans hkey)
        obtain rfl := hdec'.unique hdec₁
        exact ⟨key', c, c'', hkey, hdec, hdec'', htimes₁.1.trans htimes'.1,
          htimes₁.2.trans htimes'.2⟩
  | idle hm =>
    refine hkept (Eq.trans ?_ hcontent)
    unfold Moment.content
    rw [hm]
  | crash _ hd => exact hkept (hd.content hcontent rfl)

/-- There is no session file, or one with the lifetime that `new_at` gives. -/
def Timed (X : Crates) (Y : FileCrates) (file : Str × Str) (s : Moment) : Prop :=
  s.content file = none ∨ ∃ key bytes c, s.1.keychain = some key ∧
    s.content file = some ⟨bytes, true⟩ ∧ Decodes X Y key bytes c ∧
    c.expiresAt = saturatingAdd c.createdAt sessionTtlSecs

lemma Timed.moves (htimed : Timed X Y file s) (h : Moves X Y file s s') : Timed X Y file s' := by
  have hkept : s'.content file = s.content file → Timed X Y file s' := fun hc => by
    rcases htimed with hnone | ⟨key, bytes, c, hkey, hcontent, hdec, hexp⟩
    · exact .inl (hc.trans hnone)
    · exact .inr ⟨key, bytes, c, h.keychain hkey, hc.trans hcontent, hdec, hexp⟩
  cases h with
  | turn hturn =>
    rcases hturn with hkeeps | hremoves | hrenews
    · exact hkept hkeeps.content
    · exact .inl hremoves.content
    · obtain ⟨key, bytes', c', hkey, hcontent, hdec, hold⟩ := hrenews.exists_contents
      refine .inr ⟨key, bytes', c', hkey, hcontent, hdec, ?_⟩
      rcases hold with ⟨-, hcreated, hexpires⟩ | ⟨body, c, hbody, hdec₁, hcreated, hexpires⟩
      · rw [hcreated, hexpires]
        rfl
      · rcases htimed with hnone | ⟨key', bytes, c₁, hkey', hcontent', hdec', hexp⟩
        · rw [hnone] at hbody
          cases hbody
        obtain rfl := Option.some.inj (hcontent'.symm.trans hbody)
        obtain rfl := Option.some.inj ((hrenews.keychain key' hkey').symm.trans hkey)
        obtain rfl := hdec'.unique hdec₁
        rw [hcreated, hexpires, hexp]
  | idle hm =>
    refine hkept ?_
    unfold Moment.content
    rw [hm]
  | crash _ hd =>
    rcases htimed with hnone | ⟨key, bytes, c, hkey, hcontent, hdec, hexp⟩
    · exact .inl (hd.content_none hnone)
    · exact hkept ((hd.content hcontent rfl).trans hcontent.symm)

lemma specified_of_run (hserde : Y.SerdeLawful) (hA : Y.aead.Undone)
    (hσ : σ.Specified X Y path) (hrun : ReflTransGen (SessionStep X Y vaultPath path) σ σ') :
    σ'.Specified X Y path := by
  induction hrun with
  | refl => exact hσ
  | tail _ hstep ih => exact hstep.specified hserde hA ih

lemma asBorn_of_run (hserde : Y.SerdeLawful) (hA : Y.aead.Undone) (hσ : σ.Specified X Y path)
    (hcontent : σ.moment.content path.file = some ⟨bytes, true⟩)
    (hrun : ReflTransGen (StepWithFile X Y vaultPath path) σ σ') :
    σ'.Specified X Y path ∧ AsBorn X Y path.file bytes σ'.moment := by
  induction hrun with
  | refl => exact ⟨hσ, bytes, hcontent, .inl rfl⟩
  | tail _ hstep ih =>
    exact ⟨hstep.1.specified hserde hA ih.1, ih.2.moves (hstep.1.moves ih.1) hstep.2⟩

lemma timed_of_run (hserde : Y.SerdeLawful) (hA : Y.aead.Undone) (hσ : σ.Specified X Y path)
    (hnone : σ.moment.content path.file = none)
    (hrun : ReflTransGen (SessionStep X Y vaultPath path) σ σ') :
    σ'.Specified X Y path ∧ Timed X Y path.file σ'.moment := by
  induction hrun with
  | refl => exact ⟨hσ, .inl hnone⟩
  | tail _ hstep ih => exact ⟨hstep.specified hserde hA ih.1, ih.2.moves (hstep.moves ih.1)⟩

variable (X Y vaultPath path)

/-- What holds of the session file over all runs of commands, whatever their clocks say and
whatever fails. -/
structure SessionLifetime : Prop where
  /-- For as long as there is a file it keeps its times. -/
  times : ∀ s σ σ' bytes, ReflTransGen (SessionStep X Y vaultPath path) ⟨s, none⟩ σ →
    σ.moment.content path.file = some ⟨bytes, true⟩ →
    ReflTransGen (StepWithFile X Y vaultPath path) σ σ' → AsBorn X Y path.file bytes σ'.moment
  /-- Every file that the commands have made expires when its time to live is over. -/
  ttl : ∀ s σ, s.content path.file = none →
    ReflTransGen (SessionStep X Y vaultPath path) ⟨s, none⟩ σ → Timed X Y path.file σ.moment
  /-- A command that finds an expired file prints nothing, does not succeed and leaves the file;
  or the orphan scan of the vault has taken the file away, and the command has not loaded it. -/
  expired : ∀ p key c body q, ∀ m : Machine, ∀ s' : Moment, p.session = some path →
    m.keychain = some key → Moment.content (m, []) path.file = some body →
    Decodes X Y key body.bytes c → c.expiresAt ≤ p.nowEpoch →
    (Cli.runTextCommand X Y vaultPath p).Reaches Machine.faulty.logged (m, []) q s' →
    (Opening vaultPath path.file (m, []) s' ∧ ∀ result, q ≠ .ret (.ok result)) ∨
      vaultPath.IsOrphan path.file ∧ ∃ v, Loaded X Y vaultPath path p (m, []) s' q v none
  /-- A command that fails on the bytes of the file leaves them; the other errors of this kind are
  those of sealing new contents, in a command that has not found a file. -/
  fails : ∀ p e, ∀ m : Machine, ∀ s' : Moment, p.session = some path → e.isFormat = true →
    (Cli.runTextCommand X Y vaultPath p).Reaches Machine.faulty.logged (m, [])
      (.ret (.error (.error (.session e)))) s' →
    s'.content path.file = Moment.content (m, []) path.file ∨ vaultPath.IsOrphan path.file ∧
      ∃ key c, sealSession X Y key p.nonce c = .ok (.error e)
  /-- `restore` fails without a file, and prints nothing. -/
  missing : ∀ p q, ∀ m : Machine, ∀ s' : Moment, p.session = some path → p.command = .restore →
    Moment.content (m, []) path.file = none →
    (Cli.runTextCommand X Y vaultPath p).Reaches Machine.faulty.logged (m, []) q s' →
    s'.1.printed = m.printed ∧ ∀ result, q ≠ .ret (.ok result)

variable {X Y vaultPath path}

lemma specified_of_idle : Shell.Specified X Y path ⟨s, none⟩ :=
  fun _ hq => by cases hq

theorem session_lifetime (hserde : Y.SerdeLawful) (hA : Y.aead.Undone) :
    SessionLifetime X Y vaultPath path where
  times s σ σ' bytes hrun hcontent hrun' :=
    (asBorn_of_run hserde hA (specified_of_run hserde hA specified_of_idle hrun) hcontent hrun').2
  ttl s σ hnone hrun := (timed_of_run hserde hA specified_of_idle hnone hrun).2
  expired p key c body q m s' hp hkey hbody hdec hexpired hreach :=
    opening_or_none hp hkey hbody hdec hexpired hreach
  fails p e m s' hp hformat hreach :=
    holds_ret.mp ((runTextCommand_fails hp fun h => by cases h).reaches hreach).2 e rfl hformat
  missing p q m s' hp hcommand hnone hreach := by
    have hdoes : Does _ _ (Cli.runTextCommand X Y vaultPath p) (m, []) :=
      restore_missing hp hcommand hnone
    refine ⟨hdoes.guar_of_reaches (fun _ => rfl) (fun _ _ _ h h' => h'.trans h) hreach, ?_⟩
    rintro result rfl
    obtain ⟨e, he⟩ := holds_ret.mp (hdoes.reaches hreach).2
    cases he

/-- Crates that can write what a first scrub saves when it finds nothing to replace. -/
def firstScrubFiles : FileCrates :=
  .ofTables .padding [(VaultContents.default, sampleVaultText)]
    [(.newAt 0, sampleSessionText)]

theorem session_lifetime_firstScrub : SessionLifetime Crates.reference firstScrubFiles
    ⟨"home".toList, false, "vault".toList⟩ ⟨"home".toList, false, "session".toList⟩ :=
  session_lifetime (FileCrates.ofTables_serdeLawful (by decide) (by decide)) Aead.padding_undone

end Runs

end Invisibool
