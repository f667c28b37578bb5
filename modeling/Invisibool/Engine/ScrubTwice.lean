import Invisibool.Engine.FailClosed

/-!
# Scrubbing twice

The second pass finds a registered value only where the first one wrote something: a value that
stands clear of every replacement was already there, and would have been found.
-/

namespace Invisibool
open Text Matching

namespace Engine

variable {X : Crates} {ord : HashOrder} {e : Engine} {input : Str}
  {vaultKey : List UInt8} {registered : List RegisteredValue}
  {retired : List FpeRegistration} {sessionMacKey : List UInt8}

lemma BuiltFrom.scan_eq_nil (hb : BuiltFrom X vaultKey registered retired sessionMacKey e)
    (hX : X.MatcherLawful) (hne : ∀ r ∈ registered, r.value ≠ []) :
    e.exactMatcher.scan input = [] ↔ ∀ r ∈ registered, ∀ i, ¬ OccursAt input r.value i := by
  constructor
  · intro hnil r hr i hocc
    obtain ⟨m, hm, -⟩ := hb.covered hX hr (hne r hr) hocc
    rw [hnil] at hm
    cases hm
  · intro hnone
    rcases List.eq_nil_or_concat (e.exactMatcher.scan input) with hnil | ⟨ms, m, hms⟩
    · exact hnil
    · have hm : m ∈ e.exactMatcher.scan input := by
        rw [hms]
        simp
      obtain ⟨valueId, reg, -, hid, hat, -⟩ := hb.located hX hm
      have hr := hb.mem_of_lookup hid
      exact absurd (occursAt_of_at (isCharBoundary_of_at (hne reg hr) hat) hat) (hnone reg hr _)

/-- The second scrub changes nothing exactly when no registered value occurs in a place that
overlaps what the first one wrote. -/
theorem rescrub_unchanged_iff (hX : X.MatcherLawful)
    (hnew : Engine.new X vaultKey registered retired sessionMacKey = .ok (.ok e))
    (hne : ∀ r ∈ registered, r.value ≠ []) {res : EngineScrubResult}
    (h : scrub X ord e input = .ok res) :
    ∃ (steps : List Step) (tail : Str),
      Walk X e 0 input (e.exactMatcher.scan input) steps tail ∧
      res.output = target (steps.map Step.edit) tail ∧
      ((∃ res', scrub X ord e res.output = .ok res' ∧ res'.output = res.output ∧
          res'.scrubbedCount = 0) ↔
        ∀ r ∈ registered, ∀ i, OccursAt res.output r.value i →
          ∀ s ∈ spans Edit.new 0 (steps.map Step.edit), ¬ Overlaps s (i, i + byteLen r.value)) := by
  have hb := builtFrom_of_new hnew
  have hloc : ∀ text, ∀ m ∈ e.exactMatcher.scan text, e.Located text m :=
    fun text m hm => hb.located hX hm
  obtain ⟨steps, tail, hwalk, rfl⟩ := (scrub_eq_ok (hloc input)).mp h
  refine ⟨steps, tail, hwalk, rfl, ?_⟩
  constructor
  · rintro ⟨res', hres', -, hcount⟩ r hr i hocc
    obtain ⟨steps', tail', hwalk', rfl⟩ := (scrub_eq_ok (hloc _)).mp hres'
    have hnil : e.exactMatcher.scan (target (steps.map Step.edit) tail) = [] := by
      have hlen := hwalk'.length_eq
      rw [show steps'.length = 0 from hcount] at hlen
      exact List.length_eq_zero_iff.mp hlen.symm
    exact absurd hocc ((hb.scan_eq_nil hX hne).mp hnil r hr i)
  · intro hclear
    have hnil : e.exactMatcher.scan (target (steps.map Step.edit) tail) = [] := by
      apply (hb.scan_eq_nil hX hne).mpr
      intro r hr i hocc
      -- the occurrence was there before the first pass, and clear of its spans
      obtain ⟨j, -, hocc', hfree⟩ := untouched Edit.new Edit.old [] [] (hne r hr) hocc
        (Nat.zero_le _) (hclear r hr i hocc)
      have hocc'' : OccursAt (source (steps.map Step.edit) tail) r.value j := hocc'
      rw [hwalk.source_eq] at hocc''
      obtain ⟨m, hm, hover⟩ := hb.covered hX hr (hne r hr) hocc''
      apply hfree (m.start, m.stop) _ hover
      rw [byteLen_nil, hwalk.spans_eq]
      exact List.mem_map.mpr ⟨m, hm, rfl⟩
    refine ⟨resultOf false [] (target (steps.map Step.edit) tail),
      (scrub_eq_ok (hloc _)).mpr ⟨[], _, ?_, rfl⟩, rfl, rfl⟩
    change Walk X e 0 (target (steps.map Step.edit) tail)
      (e.exactMatcher.scan (target (steps.map Step.edit) tail)) [] _
    rw [hnil]
    exact .nil

/-- The theorem on a vault of one value, which the first pass removes for good. -/
theorem rescrub_unchanged_iff_reference :
    let e := reference [.fpe ⟨[], "AAAA".toList, Vector.replicate 16 0, .base62, []⟩] [] []
    ∃ (steps : List Step) (tail : Str),
      Walk Crates.reference e 0 "xAAAA".toList (e.exactMatcher.scan "xAAAA".toList) steps tail ∧
      "xBBBB".toList = target (steps.map Step.edit) tail ∧
      ((∃ res', scrub Crates.reference .stored e "xBBBB".toList = .ok res' ∧
          res'.output = "xBBBB".toList ∧ res'.scrubbedCount = 0) ↔
        ∀ r ∈ [RegisteredValue.fpe ⟨[], "AAAA".toList, Vector.replicate 16 0, .base62, []⟩], ∀ i,
          OccursAt "xBBBB".toList r.value i →
          ∀ s ∈ spans Edit.new 0 (steps.map Step.edit), ¬ Overlaps s (i, i + byteLen r.value)) :=
  rescrub_unchanged_iff Crates.reference_matcherLawful (new_reference [] _ _ _) (by decide)
    (show scrub _ _ _ _ = .ok ⟨"xBBBB".toList, 1, []⟩ by rfl)

/-- A fake address holds the registered word `com`, and no fake is a registered value. -/
theorem rescrub_changes :
    let registered : List RegisteredValue :=
      [.sessionMapped ⟨"a".toList, "bob".toList, .pii .email⟩,
        .sessionMapped ⟨"b".toList, "com".toList, .formatless⟩]
    let e := reference registered [] []
    (∀ r ∈ registered, r.value ≠ []) ∧
    (∀ r ∈ registered, ∀ r' ∈ registered, ¬ GeneratorFake Crates.reference e r r'.value) ∧
    ∃ res res', scrub Crates.reference .stored e "bob".toList = .ok res ∧
      scrub Crates.reference .stored e res.output = .ok res' ∧
      res'.output ≠ res.output ∧ res'.scrubbedCount = 1 := by
  exact ⟨by decide, by decide +kernel,
    ⟨_, _, rfl, rfl, by decide +kernel, by decide +kernel⟩⟩

end Engine

end Invisibool
