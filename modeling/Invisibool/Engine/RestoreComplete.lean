import Invisibool.Engine.Recover

/-!
# Which fakes a restore finds

The walk passes over every window it takes, also over one in which trial decryption fails. So it
writes the value of a fake exactly when it takes the window of the fake, and a window before the
fake that reaches into it hides it.
-/

namespace Invisibool
open Text Matching

namespace Engine

/-- In one of its rounds the walk writes the value in place of the span. -/
def Writes (X : Crates) (e : Engine) (input : Str) (span : Nat × Nat) (real : Str) : Prop :=
  ∃ cs before after st gap, collectCandidates input e.fpeRegistered [] = .ok cs ∧
    sortDedup cs = before ++ span :: after ∧
    before.foldlM (restoreSpan X e input) ⟨[], 0, 0⟩ = .ok st ∧
    slice input st.cursor span.1 = .ok gap ∧
    restoreSpan X e input st span =
      .ok ⟨st.output ++ gap ++ real, span.2, st.restoredCount + 1⟩

/-- The span is among the windows taken from left to right: each the leftmost and then the
shortest one that starts at or behind the end of the last. -/
def Taken (input : Str) (regs : List FpeRegistration) (span : Nat × Nat) : Prop :=
  ∃ ws, LeftmostShortest (IsCandidate input regs) 0 ws ∧ span ∈ ws

variable {X : Crates} {e : Engine} {input : Str}

/-- A round moves the cursor behind the span, unless it skips it. -/
lemma restoreSpan_cursor {st st' : RestoreState} {w : Nat × Nat}
    (h : restoreSpan X e input st w = .ok st') :
    st'.cursor = if w.1 < st.cursor then st.cursor else w.2 := by
  unfold restoreSpan at h
  split at h
  · rename_i hlt
    obtain rfl := Except.ok.inj h
    rw [if_pos hlt]
  · rename_i hge
    rw [if_neg hge]
    obtain ⟨gap, -, h⟩ := bind_eq_ok.mp h
    obtain ⟨candidate, -, h⟩ := bind_eq_ok.mp h
    obtain ⟨restored, -, h⟩ := bind_eq_ok.mp h
    cases restored with
    | none =>
      obtain rfl := Except.ok.inj h
      rfl
    | some real =>
      obtain rfl := Except.ok.inj h
      rfl

/-- What is taken of a list is what is taken of its first part, and then what is taken of the
rest from the cursor on. -/
lemma mem_keep_of_foldlM {before : List (Nat × Nat)} {st st' : RestoreState}
    (h : before.foldlM (restoreSpan X e input) st = .ok st') (w : Nat × Nat)
    (after : List (Nat × Nat)) (hle : st'.cursor ≤ w.1) :
    w ∈ keep st.cursor (before ++ w :: after) := by
  induction before generalizing st with
  | nil =>
    obtain rfl := Except.ok.inj h
    rw [List.nil_append, keep, if_neg (by omega)]
    exact List.mem_cons_self
  | cons w' before ih =>
    rw [List.foldlM_cons] at h
    obtain ⟨st₁, hround, h⟩ := bind_eq_ok.mp h
    have hmem := ih h
    rw [restoreSpan_cursor hround] at hmem
    rw [List.cons_append, keep]
    split at hmem
    · rename_i hlt
      rw [if_pos hlt]
      exact hmem
    · rename_i hge
      rw [if_neg hge]
      exact List.mem_cons_of_mem _ hmem

/-- A window that is taken is reached by a round with the cursor at or before its start. -/
lemma exists_round_of_mem_keep {ws : List (Nat × Nat)} {st st' : RestoreState}
    (h : ws.foldlM (restoreSpan X e input) st = .ok st') {w : Nat × Nat}
    (hmem : w ∈ keep st.cursor ws) : ∃ before after st₁ st₂, ws = before ++ w :: after ∧
      before.foldlM (restoreSpan X e input) st = .ok st₁ ∧ st₁.cursor ≤ w.1 ∧
      restoreSpan X e input st₁ w = .ok st₂ := by
  induction ws generalizing st with
  | nil => cases hmem
  | cons w' ws ih =>
    rw [List.foldlM_cons] at h
    obtain ⟨st₁, hround, h⟩ := bind_eq_ok.mp h
    have hcursor := restoreSpan_cursor hround
    have hlater : w ∈ keep st₁.cursor ws → ∃ before after st₂ st₃, w' :: ws = before ++ w :: after ∧
        before.foldlM (restoreSpan X e input) st = .ok st₂ ∧ st₂.cursor ≤ w.1 ∧
        restoreSpan X e input st₂ w = .ok st₃ := by
      intro hmem'
      obtain ⟨before, after, st₂, st₃, hsplit, hbefore, hle, hlast⟩ := ih h hmem'
      refine ⟨w' :: before, after, st₂, st₃, by rw [hsplit, List.cons_append], ?_, hle, hlast⟩
      rw [List.foldlM_cons]
      exact bind_eq_ok.mpr ⟨st₁, hround, hbefore⟩
    rw [keep] at hmem
    split at hmem
    · rename_i hlt
      rw [if_pos hlt] at hcursor
      exact hlater (hcursor ▸ hmem)
    · rename_i hge
      rw [if_neg hge] at hcursor
      rcases List.mem_cons.mp hmem with rfl | hmem
      · exact ⟨[], ws, st, st₁, rfl, rfl, Nat.le_of_not_lt hge, hround⟩
      · exact hlater (hcursor ▸ hmem)

lemma mem_keep_of_writes {span : Nat × Nat} {real : Str} (h : Writes X e input span real) :
    ∃ cs, collectCandidates input e.fpeRegistered [] = .ok cs ∧
      span ∈ keep 0 (sortDedup cs) := by
  obtain ⟨cs, before, after, st, gap, hcs, hsorted, hbefore, hgap, -⟩ := h
  obtain ⟨u, v, -, hu, hlen⟩ := slice_eq_ok.mp hgap
  refine ⟨cs, hcs, ?_⟩
  rw [hsorted]
  exact mem_keep_of_foldlM hbefore span after (by omega)

lemma taken_of_writes {span : Nat × Nat} {real : Str} (h : Writes X e input span real) :
    Taken input e.fpeRegistered span := by
  obtain ⟨cs, hcs, hmem⟩ := mem_keep_of_writes h
  exact ⟨keep 0 (sortDedup cs), leftmostShortest_keep hcs, hmem⟩

/-- A round that tries a fake writes the value. -/
lemma restoreSpan_of_fake {st st' : RestoreState} {fake real : Str} {i : Nat}
    (htry : e.fpe.tryRestore X fake e.fpeRegistered = .ok (some real))
    (hocc : OccursAt input fake i) (hle : st.cursor ≤ i)
    (h : restoreSpan X e input st (i, i + byteLen fake) = .ok st') :
    ∃ gap, slice input st.cursor i = .ok gap ∧
      st' = ⟨st.output ++ gap ++ real, i + byteLen fake, st.restoredCount + 1⟩ := by
  unfold restoreSpan at h
  rw [if_neg (Nat.not_lt.mpr hle)] at h
  obtain ⟨gap, hgap, h⟩ := bind_eq_ok.mp h
  obtain ⟨u, v, hinput, hu⟩ := hocc
  have hfake : slice input i (i + byteLen fake) = .ok fake :=
    slice_eq_ok.mpr ⟨u, v, hinput, hu, by omega⟩
  rw [hfake, ok_bind, htry, ok_bind] at h
  exact ⟨gap, hgap, (Except.ok.inj h).symm⟩

lemma writes_of_taken {res : EngineRestoreResult} {fake real : Str} {i : Nat}
    (hres : restore X e input = .ok res)
    (htry : e.fpe.tryRestore X fake e.fpeRegistered = .ok (some real))
    (hocc : OccursAt input fake i) (h : Taken input e.fpeRegistered (i, i + byteLen fake)) :
    Writes X e input (i, i + byteLen fake) real := by
  obtain ⟨ws, hws, hmem⟩ := h
  unfold restore at hres
  obtain ⟨cs, hcs, hres⟩ := bind_eq_ok.mp hres
  obtain ⟨st, hfold, -⟩ := bind_eq_ok.mp hres
  rw [hws.unique (leftmostShortest_keep hcs)] at hmem
  obtain ⟨before, after, st₁, st₂, hsorted, hbefore, hle, hround⟩ :=
    exists_round_of_mem_keep hfold hmem
  obtain ⟨gap, hgap, rfl⟩ := restoreSpan_of_fake htry hocc hle hround
  exact ⟨cs, before, after, st₁, gap, hcs, hsorted, hbefore, hgap, hround⟩

variable {vaultKey : List UInt8} {registered : List RegisteredValue}
  {retired : List FpeRegistration} {sessionMacKey : List UInt8}

/-- Restore writes the value of an active registration in place of a span that holds its fake
exactly when its walk takes the span; the value then stands there in the output. -/
theorem restore_writes_iff (hFf1 : X.Ff1Lawful)
    (hnew : Engine.new X vaultKey registered retired sessionMacKey = .ok (.ok e))
    (helig : ∀ r, .fpe r ∈ registered → r.Eligible)
    (hdistinct : ∀ r r', .fpe r ∈ registered → .fpe r' ∈ registered →
      e.fpe.fake X r = e.fpe.fake X r' → r.value = r'.value)
    (hascii : isAscii input = true) {r : FpeRegistration} (hr : .fpe r ∈ registered) {fake : Str}
    (hfake : e.fpe.scrub X r = .ok (.ok fake)) {i : Nat} (hocc : OccursAt input fake i) :
    ∃ res, restore X e input = .ok res ∧
      (Writes X e input (i, i + byteLen fake) r.value ↔
        Taken input e.fpeRegistered (i, i + byteLen fake)) ∧
      (Taken input e.fpeRegistered (i, i + byteLen fake) → OccursAt res.output r.value i) := by
  have hb := builtFrom_of_new hnew
  have helig' : ∀ r ∈ e.fpeRegistered, r.Eligible := fun r hr => helig r (hb.mem_fpes.mp hr)
  have hfake' : e.fpe.fake X r = some fake := FpeTokenizer.fake_eq_some.mpr hfake
  -- trial decryption may stop at another registration, but with the same value
  have htry : e.fpe.tryRestore X fake e.fpeRegistered = .ok (some r.value) := by
    obtain ⟨v, hv⟩ := FpeTokenizer.tryRestore_of_fake hFf1 (hb.mem_fpes.mpr hr) hfake'
    obtain ⟨r', hr', hsame, rfl⟩ := FpeTokenizer.fake_of_tryRestore hFf1 helig' hv
    rw [hv, hdistinct r' r (hb.mem_fpes.mp hr') hr (hsame.trans hfake'.symm)]
  obtain ⟨ws, vs, tail, hws, hv, hres⟩ := restore_eq (e := e) hFf1 fun r _ hpos =>
    sliceable_of_ascii hascii hpos
  refine ⟨_, hres, ⟨taken_of_writes, writes_of_taken hres htry hocc⟩, fun htaken => ?_⟩
  obtain ⟨ws', hws', hmem⟩ := htaken
  obtain rfl := hws'.unique hws
  have hrestored : RestoredAt X e.fpe e.fpeRegistered input (i, i + byteLen fake) r.value :=
    ⟨fake, hocc, rfl, htry⟩
  exact (hv.occursAt_of_restoredAt hmem hrestored).1

/-- One registration without a prefix, with its fake behind a blank. -/
theorem restore_writes_iff_reference :
    let r : FpeRegistration := ⟨[], "AAAA".toList, Vector.replicate 16 0, .base62, []⟩
    let e := reference [.fpe r] [] []
    ∃ res, restore Crates.reference e "x BBBB".toList = .ok res ∧
      (Writes Crates.reference e "x BBBB".toList (2, 2 + byteLen "BBBB".toList) r.value ↔
        Taken "x BBBB".toList e.fpeRegistered (2, 2 + byteLen "BBBB".toList)) ∧
      (Taken "x BBBB".toList e.fpeRegistered (2, 2 + byteLen "BBBB".toList) →
        OccursAt res.output r.value 2) :=
  restore_writes_iff Crates.reference_ff1Lawful (new_reference [] _ _ _)
    (fun r' hr' => by
      obtain rfl := RegisteredValue.fpe.inj (List.mem_singleton.mp hr')
      decide +kernel)
    (fun r' r'' hr' hr'' _ => by
      obtain rfl := RegisteredValue.fpe.inj (List.mem_singleton.mp hr')
      obtain rfl := RegisteredValue.fpe.inj (List.mem_singleton.mp hr'')
      rfl)
    (by decide) (List.mem_singleton.mpr rfl) (by decide +kernel) ⟨"x ".toList, [], rfl, rfl⟩

/-- A letter before the fake: the only registration's window starts at the letter, trial
decryption fails there, and the walk goes on behind it, so the fake stays as it is. -/
theorem restore_misses_behind_letter :
    let r : FpeRegistration := ⟨[], "AAAA".toList, Vector.replicate 16 0, .base62, []⟩
    let e := reference [.fpe r] [] []
    r.Eligible ∧ isAscii "xBBBB.".toList = true ∧
    e.fpe.scrub Crates.reference r = .ok (.ok "BBBB".toList) ∧
    OccursAt "xBBBB.".toList "BBBB".toList 1 ∧
    restore Crates.reference e "xBBBB.".toList = .ok ⟨"xBBBB.".toList, 0⟩ ∧
    ¬Writes Crates.reference e "xBBBB.".toList (1, 5) r.value := by
  refine ⟨by decide +kernel, by decide, by decide +kernel, ⟨"x".toList, ".".toList, rfl, rfl⟩,
    by decide +kernel, fun hwrites => ?_⟩
  obtain ⟨cs, hcs, hmem⟩ := mem_keep_of_writes hwrites
  have hspans : collectCandidates "xBBBB.".toList
      [⟨[], "AAAA".toList, Vector.replicate 16 0, .base62, []⟩] [] = .ok [(0, 4), (1, 5)] := by
    decide +kernel
  obtain rfl := Except.ok.inj (hspans.symm.trans hcs)
  exact absurd hmem (by decide +kernel)

end Engine

end Invisibool
