import Invisibool.Engine.Scrub

/-!
# Scrub fails closed

Every match is replaced, by a fake of its registration or by the placeholder, and every
occurrence of a registered value overlaps a replaced span.
-/

namespace Invisibool
open Text Matching

def Step.isRedacted (s : Step) : Bool :=
  match s.disposal with
  | .fake _ => false
  | .redacted _ => true

namespace Engine

/-- The text is the fake that the generator of the registration gives. -/
def GeneratorFake (X : Crates) (e : Engine) : RegisteredValue → Str → Prop
  | .fpe r, fake => e.fpe.scrub X r = .ok (.ok fake)
  | .sessionMapped s, fake => sessionFake X e.sessionMacKey s = .ok (some fake)

instance (X : Crates) (e : Engine) (reg : RegisteredValue) (fake : Str) :
    Decidable (GeneratorFake X e reg fake) :=
  match reg with
  | .fpe _ => inferInstanceAs (Decidable (_ = _))
  | .sessionMapped _ => inferInstanceAs (Decidable (_ = _))

variable {X : Crates} {ord : HashOrder} {e : Engine} {input : Str}

lemma dispose_eq_fake {reg : RegisteredValue} {fake : Str} :
    dispose X e reg = .ok (.fake fake) ↔ GeneratorFake X e reg fake := by
  cases reg with
  | fpe r =>
    unfold dispose GeneratorFake
    rw [bind_eq_ok]
    constructor
    · rintro ⟨res, hres, h⟩
      cases res with
      | error err => cases h
      | ok f =>
        obtain rfl := Disposal.fake.inj (Except.ok.inj h)
        exact hres
    · exact fun h => ⟨_, h, rfl⟩
  | sessionMapped s =>
    unfold dispose GeneratorFake
    rw [bind_eq_ok]
    constructor
    · rintro ⟨o, ho, h⟩
      cases o with
      | none => cases hk : s.kind <;> simp [hk] at h
      | some f =>
        obtain rfl := Disposal.fake.inj (Except.ok.inj h)
        exact ho
    · exact fun h => ⟨_, h, rfl⟩

lemma dispose_eq_redacted {reg : RegisteredValue} {notice : ScrubNotice}
    (h : dispose X e reg = .ok (.redacted notice)) :
    notice.isRedacted = true ∧ notice.label = reg.label := by
  cases reg with
  | fpe r =>
    unfold dispose at h
    obtain ⟨res, -, h⟩ := bind_eq_ok.mp h
    cases res with
    | ok f => cases h
    | error err =>
      obtain rfl := Disposal.redacted.inj (Except.ok.inj h)
      exact ⟨rfl, rfl⟩
  | sessionMapped s =>
    unfold dispose at h
    obtain ⟨o, -, h⟩ := bind_eq_ok.mp h
    cases o with
    | some f => cases h
    | none =>
      cases hk : s.kind <;> simp only [hk, Except.ok.injEq, Disposal.redacted.injEq] at h <;>
        exact h ▸ ⟨rfl, rfl⟩

lemma redacted_notices (stored : Bool) {steps : List Step}
    (h : ∀ s ∈ steps, dispose X e s.reg = .ok s.disposal) :
    ((steps.flatMap (Step.notices stored)).filter ScrubNotice.isRedacted).map ScrubNotice.label =
      (steps.filter Step.isRedacted).map fun s => s.reg.label := by
  induction steps with
  | nil => rfl
  | cons s steps ih =>
    have hs := h s (by simp)
    rw [List.flatMap_cons, List.filter_append, List.map_append,
      ih fun s' hs' => h s' (by simp [hs'])]
    rcases s with ⟨gap, reg, _ | notice⟩
    · cases reg <;> cases stored <;>
        simp [Step.notices, Step.isRedacted, ScrubNotice.isRedacted]
    · obtain ⟨h1, h2⟩ := dispose_eq_redacted hs
      have hred : Step.isRedacted ⟨gap, reg, .redacted notice⟩ = true := rfl
      simp [Step.notices, hred, h1, h2]

section

variable {vaultKey : List UInt8} {registered : List RegisteredValue}
  {retired : List FpeRegistration} {sessionMacKey : List UInt8}

lemma BuiltFrom.covered (hb : BuiltFrom X vaultKey registered retired sessionMacKey e)
    (hX : X.MatcherLawful) {r : RegisteredValue} (hr : r ∈ registered) (hne : r.value ≠ [])
    {i : Nat} (hocc : OccursAt input r.value i) :
    ∃ m ∈ e.exactMatcher.scan input, Overlaps (m.start, m.stop) (i, i + byteLen r.value) := by
  obtain ⟨k, hk, hget⟩ := List.getElem_of_mem hr
  have hmatch : IsMatch ((registered.map RegisteredValue.value).map utf8) (utf8 input)
      ⟨k, i, i + byteLen r.value⟩ := by
    refine ⟨utf8 r.value, ?_, at_of_occursAt hocc, by simp⟩
    simp [List.getElem?_eq_getElem hk, hget]
  have hpos : 0 < byteLen r.value := Nat.pos_of_ne_zero fun h0 => hne (byteLen_eq_zero.mp h0)
  obtain ⟨f, hf, h1, h2⟩ := (hb.leftmostLongest hX input).covers hmatch
    (Nat.lt_add_of_pos_right hpos) (Nat.zero_le _)
  exact ⟨_, List.mem_map.mpr ⟨f, hf, rfl⟩, h1, h2⟩

/-- Whenever scrub returns, with or without a session map: the output is the input with the
spans of the matches replaced; each replaced span is a registered value, and what stands there
is its fake or the placeholder, with a notice for each placeholder; and no occurrence of a
registered value lies outside the replaced spans. -/
theorem scrub_failClosed (hX : X.MatcherLawful)
    (hnew : Engine.new X vaultKey registered retired sessionMacKey = .ok (.ok e))
    (hne : ∀ r ∈ registered, r.value ≠ []) {store store' : SessionStore}
    {res : EngineScrubResult} (h : scrubImpl X ord e input store = .ok (res, store')) :
    ∃ (steps : List Step) (tail : Str),
      input = source (steps.map Step.edit) tail ∧
      res.output = target (steps.map Step.edit) tail ∧
      (spans Edit.old 0 (steps.map Step.edit)).Pairwise (fun s s' => s.2 ≤ s'.1) ∧
      spans Edit.old 0 (steps.map Step.edit) =
        (e.exactMatcher.scan input).map (fun m => (m.start, m.stop)) ∧
      (∀ s ∈ steps, s.reg ∈ registered ∧ ∀ fake, s.disposal = .fake fake →
        GeneratorFake X e s.reg fake) ∧
      (res.notices.filter ScrubNotice.isRedacted).map ScrubNotice.label =
        (steps.filter Step.isRedacted).map (fun s => s.reg.label) ∧
      res.scrubbedCount = steps.length ∧
      ∀ r ∈ registered, ∀ i, OccursAt input r.value i →
        ∃ s ∈ spans Edit.old 0 (steps.map Step.edit), Overlaps s (i, i + byteLen r.value) := by
  have hb := builtFrom_of_new hnew
  obtain ⟨steps, tail, hwalk, rfl, -⟩ :=
    (scrubImpl_eq_ok fun m hm => hb.located hX hm).mp h
  refine ⟨steps, tail, hwalk.source_eq.symm, rfl, pairwise_spans, hwalk.spans_eq,
    fun s hs => ?_, redacted_notices _ fun s hs => (hwalk.disposed s hs).2, rfl,
    fun r hr i hocc => ?_⟩
  · obtain ⟨⟨valueId, hid⟩, hd⟩ := hwalk.disposed s hs
    exact ⟨hb.mem_of_lookup hid, fun fake hfake => dispose_eq_fake.mp (hfake ▸ hd)⟩
  · obtain ⟨m, hm, hover⟩ := hb.covered hX hr (hne r hr) hocc
    exact ⟨_, hwalk.spans_eq ▸ List.mem_map.mpr ⟨m, hm, rfl⟩, hover⟩

/-- The theorem on a vault of one FPE value and one value too short for a MAC tail. -/
theorem scrub_failClosed_reference :
    let fpeReg : FpeRegistration := ⟨"a".toList, "AAAA".toList, Vector.replicate 16 0, .base62, []⟩
    let short : SessionRegistration := ⟨"b".toList, "pin".toList, .formatless⟩
    let e := reference [.fpe fpeReg, .sessionMapped short] [] []
    ∃ (steps : List Step) (tail : Str),
      "xAAAApin".toList = source (steps.map Step.edit) tail ∧
      "xBBBB".toList ++ redactionPlaceholder = target (steps.map Step.edit) tail ∧
      (spans Edit.old 0 (steps.map Step.edit)).Pairwise (fun s s' => s.2 ≤ s'.1) ∧
      spans Edit.old 0 (steps.map Step.edit) =
        (e.exactMatcher.scan "xAAAApin".toList).map (fun m => (m.start, m.stop)) ∧
      (∀ s ∈ steps, s.reg ∈ [.fpe fpeReg, .sessionMapped short] ∧
        ∀ fake, s.disposal = .fake fake → GeneratorFake Crates.reference e s.reg fake) ∧
      [("b".toList : Str)] = (steps.filter Step.isRedacted).map (fun s => s.reg.label) ∧
      2 = steps.length ∧
      ∀ r ∈ [RegisteredValue.fpe fpeReg, .sessionMapped short], ∀ i,
        OccursAt "xAAAApin".toList r.value i →
        ∃ s ∈ spans Edit.old 0 (steps.map Step.edit), Overlaps s (i, i + byteLen r.value) :=
  scrub_failClosed Crates.reference_matcherLawful (new_reference [] _ _ _) (by decide)
    (show scrubImpl _ .stored _ _ .none = .ok (⟨"xBBBB".toList ++ redactionPlaceholder, 2,
      [.redactedFormatless "b".toList]⟩, .none) by rfl)

end

end Engine

end Invisibool
