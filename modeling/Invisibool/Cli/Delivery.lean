import Invisibool.Cli.Retry

/-!
# A restore whose output cannot be delivered

`restore --session` removes the session file before it writes the restored text, so that an output
that does not take the text loses both. Here the output is the only thing that may fail.
-/

namespace Invisibool
open Text Process FileSystem
open Format hiding Bytes

/-- Where standard output goes: whether it takes a text, or how much of it before it fails, and
with what message. -/
abbrev Sink := Str → Option (Nat × String)

namespace Machine

/-- A machine whose output goes to the sink, and on which nothing else fails. -/
def execInto (sink : Sink) : (call : Call) → Machine → call.Ans × Machine
  | .disk op, m => exec (.disk op) m
  | .fetch, m => exec .fetch m
  | .store key, m => exec (.store key) m
  | .print text, m => match sink text with
    | none => exec (.print text) m
    | some (n, message) =>
      (.error ⟨.other, message⟩, { m with printed := m.printed ++ text.take n })

end Machine

namespace Cli

variable (X : Crates) (Y : FileCrates)

/-- The part of `restore` before its output. -/
def recover (path : PathBuf) (p : TextProcess) :
    Program (Except (Stop CommandError) (EngineRestoreResult × List CommandNotice)) :=
  (openEngine X Y path p.newKey).andThen fun opened => restoreText X Y p opened.1 opened.2

end Cli

section Conditions

variable (X : Crates) (Y : FileCrates) (vaultPath path : PathBuf) (p : TextProcess)

/-- The vault opens and its engine is built, the session file decrypts and has not expired, and
this is what the two make of the input. -/
structure Recovers (m : Machine) (v : OpenVault) (e : Engine) (c : SessionContents)
    (result : EngineRestoreResult) : Prop where
  key : v.vaultKey = m.keychain.getD p.newKey
  reads : ReadsAs X Y v (m.disk.content vaultPath.file)
  builds : v.toVault.buildEngine X = .ok (.ok e)
  loaded : LoadedAs X Y v.vaultKey (m.disk.content path.file) (some c)
  unexpired : p.nowEpoch < c.expiresAt
  restores : ∃ map, e.restoreWithSession X p.ord p.input
    (c.toMap (saturatingSub c.expiresAt p.nowEpoch) p.nowInstant) p.nowInstant = .ok (result, map)

/-- A restore that returns an error leaves the session file as it was. -/
def KeepsSession (sink : Sink) (m : Machine) : Prop :=
  ∀ err, ((Cli.restore X Y vaultPath p).run (Machine.execInto sink) m).1 = .error (.error err) →
    ((Cli.restore X Y vaultPath p).run (Machine.execInto sink) m).2.disk.content path.file =
      m.disk.content path.file

end Conditions

section Steps

variable {X : Crates} {Y : FileCrates} {vaultPath path : PathBuf} {p : TextProcess} {sink : Sink}
  {m : Machine} {s : Moment} {v : OpenVault} {e : Engine} {c : SessionContents}
  {result : EngineRestoreResult}

/-! ### Before the output -/

/-- What opens the vault returns what the files are, and no other. -/
lemma openEngine_opens {newKey : VaultKey} : Ends (fun r _ => ∀ v e, r = .ok (v, e) ↔
      v.vaultKey = s.1.keychain.getD newKey ∧ ReadsAs X Y v (s.content vaultPath.file) ∧
        v.toVault.buildEngine X = .ok (.ok e))
    (Cli.openEngine X Y vaultPath newKey) s := by
  refine Holds.andThen (fun _ => rfl) (Holds.mapError (fun _ => rfl)
    (openVault_ends.mono (fun _ _ _ => trivial) fun r s₁ hr => holds_ret.mpr ?_))
  cases r with
  | error stop =>
    refine holds_ret.mpr fun v e => ?_
    constructor
    · exact nofun
    · rintro ⟨hkey, hreads, -⟩
      exact absurd ((hr v).mpr ⟨hkey, hreads⟩) nofun
  | ok opened =>
    have hopened : ∀ v, opened = v ↔
        v.vaultKey = s.1.keychain.getD newKey ∧ ReadsAs X Y v (s.content vaultPath.file) := by
      intro v
      rw [← hr v, Except.ok.injEq]
    dsimp only [Except.mapError]
    split
    · rename_i stop hsettle
      refine holds_ret.mpr fun v e => ?_
      constructor
      · exact nofun
      · rintro ⟨hkey, hreads, hbuild⟩
        obtain rfl := (hopened v).mpr ⟨hkey, hreads⟩
        rw [settle_eq_ok.mpr hbuild] at hsettle
        cases hsettle
    · rename_i engine hsettle
      refine holds_ret.mpr fun v e => ?_
      rw [Except.ok.injEq, Prod.mk.injEq, hopened v, and_assoc]
      refine and_congr_right fun hkey => and_congr_right fun hreads => ?_
      obtain rfl := (hopened v).mpr ⟨hkey, hreads⟩
      rw [settle_eq_ok.mp hsettle]
      simp

lemma loadSession_loads : Ends (fun r _ => (s.content path.file = none → r = .ok none) ∧
      ∀ c, r = .ok (some c) ↔
        LoadedAs X Y v.vaultKey (s.content path.file) (some c) ∧ p.nowEpoch < c.expiresAt)
    (Cli.loadSession X Y p v path) s := by
  refine Holds.mapError (fun _ => rfl) (Holds.andThen (fun _ => rfl) (Holds.mapError (fun _ => rfl)
    (readIfExists_ends.mono (fun _ _ _ => trivial) ?_)))
  rintro _ s₁ ⟨rfl, -⟩
  refine holds_ret.mpr ?_
  cases s.content path.file with
  | none =>
    refine holds_ret.mpr (holds_ret.mpr ⟨fun _ => rfl, fun c => ?_⟩)
    constructor
    · exact nofun
    · rintro ⟨⟨body, hbody, -⟩, -⟩
      cases hbody
  | some body =>
    refine holds_ret.mpr (holds_ret.mpr ⟨nofun, fun c => ?_⟩)
    have hloaded : LoadedAs X Y v.vaultKey (some body) (some c) ↔
        Decodes X Y v.vaultKey body.bytes c := by
      constructor
      · rintro ⟨body', hbody, hdec⟩
        obtain rfl := Option.some.inj hbody
        exact hdec
      · exact fun hdec => ⟨body, rfl, hdec⟩
    rw [hloaded, ← decryptSessionBytes_iff, ← settle_eq_ok]
    cases settle (decryptSessionBytes X Y v.vaultKey.toList body.bytes p.nowEpoch) with
    | error stop => simp [Except.mapError, Except.map]
    | ok contents => simp [Except.mapError, Except.map]

/-- The wipe takes the file away. -/
lemma wipeSessionFile_clears :
    Ends (fun _ s' => s'.content path.file = none) (wipeSessionFile path) s := by
  refine Holds.bind (fun _ => rfl) (removeFile_clears.mono (fun _ _ _ => trivial) fun r s₁ hnone => ?_)
  cases r with
  | ok u => exact holds_ret.mpr hnone
  | error err =>
    dsimp only
    split <;> exact holds_ret.mpr hnone

/-- The part before the output either fails and leaves the session file, or takes it away and has
the text that the files make of the input. -/
lemma recover_ends (hp : p.session = some path) (horphan : ¬vaultPath.IsOrphan path.file) :
    Ends (fun r s' => match r with
      | .error _ => s'.content path.file = s.content path.file ∧
        ∀ v e c result, ¬Recovers X Y vaultPath path p s.1 v e c result
      | .ok done => s'.content path.file = none ∧
        ∀ result, (∃ v e c, Recovers X Y vaultPath path p s.1 v e c result) ↔ result = done.1)
      (Cli.recover X Y vaultPath p) s := by
  unfold Cli.recover Cli.restoreText
  rw [hp]
  refine Holds.andThen (fun _ => rfl) (((openEngine_ends horphan).and openEngine_opens).mono
    (fun _ _ _ => trivial) fun r s₁ ⟨⟨hkept, _⟩, hopened⟩ => ?_)
  have hcontent := hkept.session.content
  have hopens : ∀ {v e c result}, Recovers X Y vaultPath path p s.1 v e c result → r = .ok (v, e) :=
    fun h => (hopened _ _).mpr ⟨h.key, h.reads, h.builds⟩
  cases r with
  | error stop => exact holds_ret.mpr ⟨hcontent, fun v e c result h => nomatch hopens h⟩
  | ok opened =>
  obtain ⟨v, e⟩ := opened
  obtain ⟨hkey, hreads, hbuild⟩ := (hopened v e).mp rfl
  refine Holds.andThen (fun _ => rfl) (((loadSession_kept path.file path.file).and
    loadSession_loads).mono (fun _ _ _ => trivial) fun r s₂ ⟨⟨hkept₂, _⟩, _, hload⟩ => ?_)
  have hcontent₂ : Moment.content s₂ path.file = s.content path.file := hkept₂.trans hcontent
  rw [hcontent] at hload
  have hloads : ∀ {v' e' c result}, Recovers X Y vaultPath path p s.1 v' e' c result →
      v' = v ∧ e' = e ∧ r = .ok (some c) := by
    intro v' e' c result h
    obtain ⟨rfl, rfl⟩ := Prod.mk.inj (Except.ok.inj (hopens h))
    exact ⟨rfl, rfl, (hload c).mpr ⟨h.loaded, h.unexpired⟩⟩
  cases r with
  | error stop => exact holds_ret.mpr ⟨hcontent₂, fun v e c result h => nomatch (hloads h).2.2⟩
  | ok existing =>
  cases existing with
  | none => exact holds_ret.mpr ⟨hcontent₂, fun v e c result h => nomatch (hloads h).2.2⟩
  | some c =>
  obtain ⟨hloaded, hnow⟩ := (hload c).mp rfl
  have hrestores : ∀ {v' e' c' result}, Recovers X Y vaultPath path p s.1 v' e' c' result →
      ∃ map, e.restoreWithSession X p.ord p.input
        (c.toMap (saturatingSub c.expiresAt p.nowEpoch) p.nowInstant) p.nowInstant =
          .ok (result, map) := by
    intro v' e' c' result h
    obtain ⟨-, rfl, hc⟩ := hloads h
    obtain rfl := Option.some.inj (Except.ok.inj hc)
    exact h.restores
  unfold Cli.restoreSession
  dsimp only
  split
  · rename_i stop hconclude
    refine holds_ret.mpr ⟨hcontent₂, fun v e c result h => ?_⟩
    obtain ⟨map, hrestore⟩ := hrestores h
    rw [conclude_eq_ok.mpr hrestore] at hconclude
    cases hconclude
  · rename_i result map hconclude
    have hresult := conclude_eq_ok.mp hconclude
    refine Holds.bind (fun _ => rfl) (wipeSessionFile_clears.mono (fun _ _ _ => trivial)
      fun wiped s₃ hnone => holds_ret.mpr ⟨hnone, fun result' => ?_⟩)
    constructor
    · rintro ⟨v', e', c', h⟩
      obtain ⟨map', hrestore⟩ := hrestores h
      rw [hresult] at hrestore
      exact (Prod.mk.inj (Except.ok.inj hrestore)).1.symm
    · rintro rfl
      exact ⟨v, e, c, hkey, hreads, hbuild, hloaded, hnow, map, hresult⟩

/-- Without a session file there is none afterwards, and no text. -/
lemma restoreText_missing (hp : p.session = some path) (hnone : s.content path.file = none) :
    Ends (fun r s' => s'.content path.file = none ∧ ∃ err, r = .error (.error err))
      (Cli.restoreText X Y p v e) s := by
  unfold Cli.restoreText
  rw [hp]
  refine Holds.andThen (fun _ => rfl) (((loadSession_kept path.file path.file).and
    loadSession_loads).mono (fun _ _ _ => trivial) ?_)
  rintro r s₁ ⟨⟨hkept, -⟩, hload, -⟩
  rw [hload hnone]
  exact holds_ret.mpr ⟨hkept.trans hnone, _, rfl⟩

lemma recover_missing (hp : p.session = some path) (hnone : s.content path.file = none) :
    Ends (fun r s' => s'.content path.file = none ∧ ∃ stop, r = .error stop)
      (Cli.recover X Y vaultPath p) s := by
  refine Holds.andThen (fun _ => rfl) ((openEngine_scans path.file).mono (fun _ _ _ => trivial)
    fun r s₁ hscans => ?_)
  have hnone₁ := hscans.content_none hnone
  cases r with
  | error stop => exact holds_ret.mpr ⟨hnone₁, stop, rfl⟩
  | ok opened =>
    refine (restoreText_missing hp hnone₁).mono (fun _ _ _ => trivial) ?_
    rintro r s₂ ⟨hnone₂, err, rfl⟩
    exact ⟨hnone₂, _, rfl⟩

/-! ### Nothing panics before the session file is loaded -/

lemma buildEngine_total (hHkdf : X.HkdfLawful) (v : Vault) : ∃ r, v.buildEngine X = .ok r := by
  unfold Vault.buildEngine
  split
  · exact ⟨_, rfl⟩
  · rename_i registered _
    have hsome := (hHkdf.expand_isSome v.vaultKey.toList
      (utf8 "invisibool-mac-key-v1".toList) 32).mpr (by omega)
    obtain ⟨macKey, hmac⟩ := Option.isSome_iff_exists.mp hsome
    have hkey : Vault.deriveMacKey X v.vaultKey.toList = .ok macKey := by
      rw [Vault.deriveMacKey, hmac, expect_some]
    obtain ⟨r, hr⟩ := Engine.new_isOk hHkdf v.vaultKey.toList registered [] macKey
    rw [hkey, ok_bind, hr, ok_bind]
    cases r <;> exact ⟨_, rfl⟩

lemma settle_ne_panic {ε α : Type} {x : Outcome (Except ε α)} (h : ∃ r, x = .ok r) (q : Panic) :
    settle x ≠ .error (.panic q) := by
  obtain ⟨r, rfl⟩ := h
  cases r <;> exact nofun

lemma openVault_returns (hHkdf : X.HkdfLawful) {newKey : VaultKey} :
    Ends (fun r _ => ∀ q, r ≠ .error (.panic q)) (openVault X Y vaultPath newKey) s := by
  refine Holds.bind (fun _ => rfl) (Holds.any.mono (fun _ _ h => h) fun _ s₁ _ => ?_)
  refine Holds.andThen (fun _ => rfl) (Holds.mapError (fun _ => rfl)
    (fetchOrCreate_ends.mono (fun _ _ _ => trivial) ?_))
  rintro _ s₂ ⟨rfl, -⟩
  refine holds_ret.mpr (Holds.andThen (fun _ => rfl) (Holds.mapError (fun _ => rfl)
    (readIfExists_ends.mono (fun _ _ _ => trivial) ?_)))
  rintro _ s₃ ⟨rfl, -⟩
  refine holds_ret.mpr ?_
  cases Moment.content s₂ vaultPath.file with
  | none => exact holds_ret.mpr nofun
  | some body =>
    refine holds_ret.mpr fun q h => ?_
    have hpanic := settle_ne_panic
      (decryptVault_isOk (Y := Y) hHkdf (s₁.1.keychain.getD newKey) body.bytes) q
    cases hsettle : settle (decryptVault X Y (s₁.1.keychain.getD newKey) body.bytes) with
    | error stop =>
      rw [hsettle] at h hpanic
      exact hpanic (congrArg Except.error (Except.error.inj h))
    | ok contents =>
      rw [hsettle] at h
      cases h

lemma openEngine_returns (hHkdf : X.HkdfLawful) {newKey : VaultKey} :
    Ends (fun r _ => ∀ q, r ≠ .error (.panic q)) (Cli.openEngine X Y vaultPath newKey) s := by
  refine Holds.andThen (fun _ => rfl) (Holds.mapError (fun _ => rfl)
    ((openVault_returns hHkdf).mono (fun _ _ _ => trivial) fun r s₁ hr => holds_ret.mpr ?_))
  cases r with
  | error stop =>
    refine holds_ret.mpr fun q h => ?_
    cases stop with
    | error err => cases h
    | panic q' => exact hr q' rfl
  | ok v =>
    dsimp only [Except.mapError]
    split
    · rename_i stop hsettle
      refine holds_ret.mpr fun q h => ?_
      cases stop with
      | error err => cases h
      | panic q' => exact settle_ne_panic (buildEngine_total hHkdf v.toVault) q' hsettle
    · exact holds_ret.mpr nofun

/-- A session file that the orphan scan of the vault takes for its own is lost at once. -/
lemma recover_orphan (hHkdf : X.HkdfLawful) (hp : p.session = some path)
    (horphan : vaultPath.IsOrphan path.file) (hplaced : Placed path.file s) :
    Ends (fun r s' => s'.content path.file = none ∧ ∃ err, r = .error (.error err))
      (Cli.recover X Y vaultPath p) s := by
  refine Holds.andThen (fun _ => rfl) (((openEngine_clears horphan hplaced).and
    (openEngine_returns hHkdf)).mono (fun _ _ _ => trivial) fun r s₁ ⟨hnone, hr⟩ => ?_)
  cases r with
  | error stop =>
    cases stop with
    | error err => exact holds_ret.mpr ⟨hnone, err, rfl⟩
    | panic q => exact absurd rfl (hr q)
  | ok opened => exact restoreText_missing hp hnone

/-! ### The output -/

/-- The call writes nothing to standard output. -/
def Call.Silent (call : Call) : Prop := ∀ text, call ≠ .print text

lemma recover_silent : (Cli.recover X Y vaultPath p).Only Call.Silent := by
  have hperform : ∀ call : Call, call.Silent → (Prog.perform call : Program call.Ans).Only Call.Silent :=
    fun call h => ⟨h, fun _ => trivial⟩
  have hdisk : ∀ op, (Prog.perform (Call.disk op) : Program op.Ans).Only Call.Silent :=
    fun op => hperform _ fun _ h => by cases h
  have hscan : (scanOrphans vaultPath).Only Call.Silent := by
    apply (scanOrphans_onDisk vaultPath).mono
    rintro _ ⟨op, rfl⟩ text h
    cases h
  have hfetch : (fetchOrCreate p.newKey).Only Call.Silent := by
    apply (hperform Call.fetch fun _ h => by cases h).andThen
    intro found
    cases found with
    | some key => trivial
    | none => exact (hperform (Call.store _) fun _ h => by cases h).andThen fun _ => trivial
  have hread : ∀ path, (readIfExists path).Only Call.Silent := by
    intro path
    apply (hdisk _).bind
    intro r
    cases r with
    | ok i => exact (hdisk _).andThen fun _ => trivial
    | error err =>
      dsimp only
      split <;> trivial
  have hopen : (openVault X Y vaultPath p.newKey).Only Call.Silent := by
    apply hscan.bind
    intro _
    apply hfetch.mapError.andThen
    intro key
    apply (hread _).mapError.andThen
    intro found
    cases found <;> trivial
  have hwipe : ∀ path, (wipeSessionFile path).Only Call.Silent := by
    intro path
    apply (hdisk _).bind
    intro r
    cases r with
    | ok u => trivial
    | error err =>
      dsimp only
      split <;> trivial
  apply Prog.Only.andThen
  · apply hopen.mapError.andThen
    intro v
    split <;> trivial
  intro opened
  unfold Cli.restoreText
  split
  · trivial
  · apply Prog.Only.andThen
    · apply Prog.Only.mapError
      apply (hread _).mapError.andThen
      intro found
      cases found <;> trivial
    · intro existing
      unfold Cli.restoreSession
      split
      · trivial
      · dsimp only
        split
        · trivial
        · exact (hwipe _).bind fun _ => trivial

lemma restore_run (sink : Sink) (m : Machine) :
    (Cli.restore X Y vaultPath p).run (Machine.execInto sink) m =
      match ((Cli.recover X Y vaultPath p).run Machine.exec m).1 with
      | .error stop => (.error stop, ((Cli.recover X Y vaultPath p).run Machine.exec m).2)
      | .ok done => (Cli.report done.1.output done.2).run (Machine.execInto sink)
          ((Cli.recover X Y vaultPath p).run Machine.exec m).2 := by
  have hsilent : (Cli.recover X Y vaultPath p).run (Machine.execInto sink) m =
      (Cli.recover X Y vaultPath p).run Machine.exec m := by
    apply recover_silent.run_eq
    intro call m hcall
    cases call with
    | print text => exact absurd rfl (hcall text)
    | disk op => rfl
    | fetch => rfl
    | store key => rfl
  have hrestore : Cli.restore X Y vaultPath p = (Cli.recover X Y vaultPath p).andThen fun result =>
      Cli.report result.1.output result.2 :=
    (Prog.andThen_assoc _ _ _).symm
  rw [hrestore, Prog.andThen, Prog.run_bind, hsilent]
  cases ((Cli.recover X Y vaultPath p).run Machine.exec m).1 with
  | error stop => rfl
  | ok done => rfl

/-- The report fails exactly where the sink does, and leaves the disk. -/
lemma report_run (sink : Sink) (m : Machine) (output : Str) (notices : List CommandNotice) :
    ((Cli.report output notices).run (Machine.execInto sink) m).2.disk = m.disk ∧
      ((∃ err, ((Cli.report output notices).run (Machine.execInto sink) m).1 =
        .error (.error err)) ↔ sink output ≠ none) := by
  have hreport : (Cli.report output notices).run (Machine.execInto sink) m =
      match sink output with
      | none => (.ok ⟨0, notices⟩, { m with printed := m.printed ++ output })
      | some (n, message) => (.error (.error (.io ⟨.other, message⟩)),
          { m with printed := m.printed ++ output.take n }) := by
    unfold Cli.report print Prog.perform Prog.mapError Prog.andThen
    cases hsink : sink output with
    | none => simp [Prog.bind, Prog.run, Machine.execInto, hsink, Machine.exec]
    | some failure => simp [Prog.bind, Prog.run, Machine.execInto, hsink]
  rw [hreport]
  cases sink output with
  | none => simp
  | some failure => simp

end Steps

/-- A restore that fails leaves its session file exactly if the orphan scan of the vault does not
take the file, and the output takes the text that the files make of the input. -/
theorem keepsSession_iff {X : Crates} {Y : FileCrates} {vaultPath path : PathBuf} {p : TextProcess}
    {m : Machine} (hHkdf : X.HkdfLawful) (hp : p.session = some path)
    (hplaced : Placed path.file (m, [])) (sink : Sink) :
    KeepsSession X Y vaultPath path p sink m ↔
      ¬(vaultPath.IsOrphan path.file ∧ (m.disk.content path.file).isSome) ∧
      ∀ v e c result, Recovers X Y vaultPath path p m v e c result → sink result.output = none := by
  unfold KeepsSession
  rw [restore_run]
  by_cases horphan : vaultPath.IsOrphan path.file
  · cases hfile : m.disk.content path.file with
    | none =>
      have hmissing : Ends (fun r s' => s'.content path.file = none ∧ ∃ stop, r = .error stop)
          (Cli.recover X Y vaultPath p) (m, []) := recover_missing hp hfile
      obtain ⟨_, hnone, stop, hstop⟩ := hmissing.run
      rw [hstop]
      refine iff_of_true (fun err _ => hnone) ⟨fun h => by simp at h, ?_⟩
      intro v e c result h
      obtain ⟨body, hbody, -⟩ := h.loaded
      rw [hfile] at hbody
      cases hbody
    | some body =>
      have hlost : Ends (fun r s' => s'.content path.file = none ∧ ∃ err, r = .error (.error err))
          (Cli.recover X Y vaultPath p) (m, []) := recover_orphan hHkdf hp horphan hplaced
      obtain ⟨_, hnone, err, herr⟩ := hlost.run
      rw [herr]
      refine iff_of_false (fun h => ?_) fun h => h.1 ⟨horphan, rfl⟩
      exact nomatch hnone.symm.trans (h err rfl)
  · have hrecover : Ends _ (Cli.recover X Y vaultPath p) (m, []) := recover_ends hp horphan
    obtain ⟨_, hr⟩ := hrecover.run
    have hscan : ¬(vaultPath.IsOrphan path.file ∧ (m.disk.content path.file).isSome) :=
      fun h => horphan h.1
    cases hrun : ((Cli.recover X Y vaultPath p).run Machine.exec m).1 with
    | error stop =>
      rw [hrun] at hr
      obtain ⟨hkept, hnever⟩ := hr
      exact iff_of_true (fun err _ => hkept)
        ⟨hscan, fun v e c result h => absurd h (hnever v e c result)⟩
    | ok done =>
      rw [hrun] at hr
      obtain ⟨hnone, hresult⟩ := hr
      obtain ⟨hdisk, hfails⟩ := report_run sink
        ((Cli.recover X Y vaultPath p).run Machine.exec m).2 done.1.output done.2
      obtain ⟨v, e, c, hdone⟩ := (hresult done.1).mpr rfl
      obtain ⟨body, hbody, -⟩ := hdone.loaded
      constructor
      · intro hkeeps
        refine ⟨hscan, fun v' e' c' result' h => ?_⟩
        obtain rfl := (hresult result').mp ⟨v', e', c', h⟩
        by_contra hsink
        obtain ⟨err, herr⟩ := hfails.mpr hsink
        have hkept := hkeeps err herr
        rw [hdisk] at hkept
        exact nomatch hnone.symm.trans (hkept.trans hbody)
      · rintro ⟨-, hsink⟩ err herr
        exact absurd (hsink v e c done.1 hdone) (hfails.mp ⟨err, herr⟩)

/-! ### A session file with one pair, and an output that is closed -/

def pipedPath : PathBuf := ⟨"home".toList, false, "s".toList⟩

def pipedFiles : FileCrates :=
  .ofTables .padding [(VaultContents.default, sampleVaultText)]
    [(⟨1, 0, 1800, [⟨"192.0.2.14".toList, "10.0.9.9".toList⟩]⟩, utf8 "s".toList)]

def pipedMachine : Machine :=
  { emptyMachine with
    disk := (emptyMachine.disk.create pipedPath.file).append 0 (sessionHeader.bytes ++
      List.replicate 24 1 ++ (utf8 "s".toList ++ List.replicate tagLen 0)) }

def pipedProcess : TextProcess :=
  ⟨.restore, "192.0.2.14".toList, some pipedPath, 60, 0, .stored, 8, Vector.replicate 32 1,
    Vector.replicate 24 1⟩

def closedPipe : Sink := fun _ => some (0, "Broken pipe")

theorem keepsSession_iff_piped :
    KeepsSession Crates.reference pipedFiles emptyVaultPath pipedPath pipedProcess closedPipe
        pipedMachine ↔
      ¬(emptyVaultPath.IsOrphan pipedPath.file ∧
        (pipedMachine.disk.content pipedPath.file).isSome) ∧
      ∀ v e c result, Recovers Crates.reference pipedFiles emptyVaultPath pipedPath pipedProcess
        pipedMachine v e c result → closedPipe result.output = none :=
  keepsSession_iff Crates.reference_hkdfLawful rfl (fun _ => rfl) closedPipe

/-- The restore fails on the closed output, and the session file is gone. -/
theorem not_keepsSession :
    ¬KeepsSession Crates.reference pipedFiles emptyVaultPath pipedPath pipedProcess closedPipe
      pipedMachine := by
  intro h
  have hkept := h (.io ⟨.other, "Broken pipe"⟩) (by rfl)
  have hgone : ((Cli.restore Crates.reference pipedFiles emptyVaultPath pipedProcess).run
      (Machine.execInto closedPipe) pipedMachine).2.disk.content pipedPath.file = none := by
    rfl
  have hthere : (pipedMachine.disk.content pipedPath.file).isSome := by rfl
  rw [← hkept, hgone] at hthere
  cases hthere

end Invisibool
