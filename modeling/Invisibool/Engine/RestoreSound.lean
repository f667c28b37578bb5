import Invisibool.Engine.Restore

/-!
# Restore writes nothing but values for their fakes

A window that is tried in vain is copied, so it is part of the text that restore leaves alone.
What remains are the replaced spans, each an FF1 fake of an active registration.
-/

namespace Invisibool
open Text

namespace Engine

/-- The visits in vain become part of the gaps. -/
lemma exists_edits (vs : List Visit) (tail : Str) : ∃ edits tail',
    source edits tail' = source (vs.map Visit.edit) tail ∧
    target edits tail' = target (vs.map Visit.edit) tail ∧
    edits.length = vs.countP (fun v => v.restored.isSome) ∧
    ∀ ed ∈ edits, ∃ v ∈ vs, v.candidate = ed.old ∧ v.restored = some ed.new := by
  induction vs with
  | nil => exact ⟨[], tail, rfl, rfl, rfl, by simp⟩
  | cons v vs ih =>
    obtain ⟨edits, tail', h1, h2, h3, h4⟩ := ih
    have hold : ∀ ed ∈ edits, ∃ v' ∈ v :: vs,
        v'.candidate = ed.old ∧ v'.restored = some ed.new := by
      intro ed hed
      obtain ⟨v', hv', h⟩ := h4 ed hed
      exact ⟨v', by simp [hv'], h⟩
    cases hv : v.restored with
    | some real =>
      refine ⟨⟨v.gap, v.candidate, real⟩ :: edits, tail', ?_, ?_, ?_, ?_⟩
      · simpa [Visit.edit] using h1
      · simpa [Visit.edit, hv] using h2
      · simp [hv, h3]
      · intro ed hed
        rcases List.mem_cons.mp hed with rfl | hed
        · exact ⟨v, by simp, rfl, hv⟩
        · exact hold ed hed
    | none =>
      refine ⟨(extend (v.gap ++ v.candidate) (edits, tail')).1,
        (extend (v.gap ++ v.candidate) (edits, tail')).2, ?_, ?_, ?_, ?_⟩
      · rw [source_extend, h1]
        simp [Visit.edit]
      · rw [target_extend, h2]
        simp [Visit.edit, hv]
      · rw [length_extend, h3]
        simp [hv]
      · exact forall_extend (P := fun old new => ∃ v' ∈ v :: vs, v'.candidate = old ∧
          v'.restored = some new) hold

variable {X : Crates} {e : Engine} {input : Str} {vaultKey : List UInt8}
  {registered : List RegisteredValue} {retired : List FpeRegistration}
  {sessionMacKey : List UInt8}

/-- Restore replaces disjoint spans, each the fake of an active registration, by its value, and
counts them; a text without such fakes is left as it is. -/
theorem restore_sound (hFf1 : X.Ff1Lawful)
    (hnew : Engine.new X vaultKey registered retired sessionMacKey = .ok (.ok e))
    (helig : ∀ r, .fpe r ∈ registered → r.Eligible) (hascii : isAscii input = true) :
    ∃ (res : EngineRestoreResult) (edits : List Edit) (tail : Str),
      restore X e input = .ok res ∧
      input = source edits tail ∧ res.output = target edits tail ∧
      (spans Edit.old 0 edits).Pairwise (fun s s' => s.2 ≤ s'.1) ∧
      (∀ ed ∈ edits, ∃ r, .fpe r ∈ registered ∧ e.fpe.scrub X r = .ok (.ok ed.old) ∧
        ed.new = r.value) ∧
      res.restoredCount = edits.length ∧
      ((∀ r fake, .fpe r ∈ registered → e.fpe.scrub X r = .ok (.ok fake) →
        ∀ i, ¬ OccursAt input fake i) → res.output = input) := by
  have hb := builtFrom_of_new hnew
  have helig' : ∀ r ∈ e.fpeRegistered, r.Eligible := fun r hr => helig r (hb.mem_fpes.mp hr)
  obtain ⟨ws, vs, tail, -, hvisits, hres⟩ := restore_eq (e := e) hFf1 fun r _ hpos =>
    sliceable_of_ascii hascii hpos
  obtain ⟨edits, tail', hsource, htarget, hcount, hedits⟩ := exists_edits vs tail
  rw [hvisits.source_eq] at hsource
  have hfakes : ∀ ed ∈ edits, ∃ r, .fpe r ∈ registered ∧
      e.fpe.scrub X r = .ok (.ok ed.old) ∧ ed.new = r.value := by
    intro ed hed
    obtain ⟨v, hv, hold, hnew⟩ := hedits ed hed
    obtain ⟨r, hr, hfake, hreal⟩ :=
      FpeTokenizer.fake_of_tryRestore hFf1 helig' (hnew ▸ hvisits.tried v hv)
    exact ⟨r, hb.mem_fpes.mp hr, FpeTokenizer.fake_eq_some.mp (hold ▸ hfake), hreal⟩
  refine ⟨_, edits, tail', hres, hsource.symm, htarget.symm, pairwise_spans, hfakes, hcount.symm,
    fun hnone => ?_⟩
  cases edits with
  | nil => exact htarget.symm.trans hsource
  | cons ed edits =>
    obtain ⟨r, hr, hfake, -⟩ := hfakes ed (by simp)
    refine absurd ⟨ed.gap, source edits tail', ?_, rfl⟩ (hnone r ed.old hr hfake (byteLen ed.gap))
    simpa using hsource.symm

theorem restore_sound_reference :
    let r : FpeRegistration := ⟨[], "AAAA".toList, Vector.replicate 16 0, .base62, []⟩
    let e := reference [.fpe r] [] []
    ∃ (res : EngineRestoreResult) (edits : List Edit) (tail : Str),
      restore Crates.reference e "CCCC BBBB DDDD".toList = .ok res ∧
      "CCCC BBBB DDDD".toList = source edits tail ∧ res.output = target edits tail ∧
      (spans Edit.old 0 edits).Pairwise (fun s s' => s.2 ≤ s'.1) ∧
      (∀ ed ∈ edits, ∃ r', .fpe r' ∈ [RegisteredValue.fpe r] ∧
        e.fpe.scrub Crates.reference r' = .ok (.ok ed.old) ∧ ed.new = r'.value) ∧
      res.restoredCount = edits.length ∧
      ((∀ r' fake, .fpe r' ∈ [RegisteredValue.fpe r] →
        e.fpe.scrub Crates.reference r' = .ok (.ok fake) →
        ∀ i, ¬ OccursAt "CCCC BBBB DDDD".toList fake i) →
        res.output = "CCCC BBBB DDDD".toList) :=
  restore_sound Crates.reference_ff1Lawful (new_reference [] _ _ _)
    (fun r' hr' => by
      obtain rfl := RegisteredValue.fpe.inj (List.mem_singleton.mp hr')
      decide +kernel) (by decide)

end Engine

end Invisibool
