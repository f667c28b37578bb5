import Invisibool.Engine.Restore

/-!
# What a restore gives back

A window in which trial decryption succeeds holds the value afterwards, and every character
outside of such windows is as before. So the text that a restore gives back is a given one exactly
when that one has the values in these windows, and is the same outside of them.
-/

namespace Invisibool
open Text Matching

namespace Engine

/-- Trial decryption of the span of the text gives the value. -/
def RestoredAt (X : Crates) (t : FpeTokenizer) (regs : List FpeRegistration) (text : Str)
    (w : Nat × Nat) (real : Str) : Prop :=
  ∃ candidate, OccursAt text candidate w.1 ∧ w.2 = w.1 + byteLen candidate ∧
    t.tryRestore X candidate regs = .ok (some real)

/-- Among the leftmost-shortest windows of the text, each in which trial decryption succeeds
stands where the input has the value, and every character that differs from the input lies in
such a window. -/
def Recovers (X : Crates) (t : FpeTokenizer) (regs : List FpeRegistration) (text input : Str) :
    Prop :=
  ∃ ws, LeftmostShortest (IsCandidate text regs) 0 ws ∧
    (∀ w ∈ ws, ∀ real, RestoredAt X t regs text w real → OccursAt input real w.1) ∧
    ∀ i : Nat, text[i]? ≠ input[i]? →
      ∃ w ∈ ws, w.1 ≤ i ∧ i < w.2 ∧ ∃ real, RestoredAt X t regs text w real

variable {X : Crates} {e : Engine} {text tail : Str} {ws : List (Nat × Nat)} {vs : List Visit}

namespace Visits

lemma byteLen_edit (hv : Visits X e 0 text ws vs tail) :
    ∀ ed ∈ vs.map Visit.edit, byteLen ed.old = byteLen ed.new := by
  intro ed hed
  obtain ⟨v, hmem, rfl⟩ := List.mem_map.mp hed
  cases hr : v.restored with
  | none => simp [Visit.edit, hr]
  | some real =>
    have htried := hv.tried v hmem
    rw [hr] at htried
    simpa [Visit.edit, hr] using (FpeTokenizer.tryRestore_shape htried).1

lemma isAscii_target (hv : Visits X e 0 text ws vs tail) (hascii : isAscii text = true) :
    isAscii (target (vs.map Visit.edit) tail) = true := by
  have hold := hascii
  rw [← hv.source_eq] at hold
  apply isAscii_lay hold
  intro ed hed
  have hcand := isAscii_of_mem_lay hold ed hed
  obtain ⟨v, hmem, rfl⟩ := List.mem_map.mp hed
  cases hr : v.restored with
  | none => simpa [Visit.edit, hr] using hcand
  | some real =>
    have htried := hv.tried v hmem
    rw [hr] at htried
    simpa [Visit.edit, hr] using (FpeTokenizer.tryRestore_shape htried).2.mp hcand

/-- Each window belongs to a visit: what stands in it before, what afterwards. -/
lemma exists_visit (hv : Visits X e 0 text ws vs tail) {w : Nat × Nat} (hw : w ∈ ws) :
    ∃ v ∈ vs, OccursAt text v.candidate w.1 ∧ w.2 = w.1 + byteLen v.candidate ∧
      OccursAt (target (vs.map Visit.edit) tail) (v.restored.getD v.candidate) w.1 := by
  rw [← hv.spans_eq] at hw
  obtain ⟨ed, hed, h1, h2, h3⟩ := exists_of_mem_spans hv.byteLen_edit [] [] rfl hw
  obtain ⟨v, hmem, rfl⟩ := List.mem_map.mp hed
  have hsource : OccursAt (source (vs.map Visit.edit) tail) v.candidate w.1 := h1
  rw [hv.source_eq] at hsource
  exact ⟨v, hmem, hsource, h3, h2⟩

lemma restoredAt_iff (hv : Visits X e 0 text ws vs tail) {v : Visit} (hmem : v ∈ vs)
    {w : Nat × Nat} (hocc : OccursAt text v.candidate w.1)
    (hstop : w.2 = w.1 + byteLen v.candidate) {real : Str} :
    RestoredAt X e.fpe e.fpeRegistered text w real ↔ v.restored = some real := by
  have htried := hv.tried v hmem
  constructor
  · rintro ⟨candidate, hocc', hstop', htry⟩
    obtain rfl := hocc'.unique hocc (by omega)
    exact Except.ok.inj (htried.symm.trans htry)
  · intro hr
    exact ⟨v.candidate, hocc, hstop, hr ▸ htried⟩

lemma occursAt_of_restoredAt (hv : Visits X e 0 text ws vs tail) {w : Nat × Nat} (hw : w ∈ ws)
    {real : Str} (hr : RestoredAt X e.fpe e.fpeRegistered text w real) :
    OccursAt (target (vs.map Visit.edit) tail) real w.1 ∧ w.2 = w.1 + byteLen real := by
  obtain ⟨v, hmem, hocc, hstop, hback⟩ := hv.exists_visit hw
  have hrestored := (hv.restoredAt_iff hmem hocc hstop).mp hr
  have htried := hv.tried v hmem
  rw [hrestored] at htried hback
  exact ⟨hback, by rw [hstop, (FpeTokenizer.tryRestore_shape htried).1]⟩

lemma getElem?_of_not_restoredAt (hv : Visits X e 0 text ws vs tail)
    (hascii : isAscii text = true) {i : Nat}
    (hi : ∀ w ∈ ws, w.1 ≤ i → i < w.2 → ∀ real,
      ¬ RestoredAt X e.fpe e.fpeRegistered text w real) :
    text[i]? = (target (vs.map Visit.edit) tail)[i]? := by
  have hback := hv.isAscii_target hascii
  by_cases hin : ∃ w ∈ ws, w.1 ≤ i ∧ i < w.2
  · obtain ⟨w, hw, hi1, hi2⟩ := hin
    obtain ⟨v, hmem, hocc, hstop, hocc'⟩ := hv.exists_visit hw
    have hnone : v.restored = none := Option.eq_none_iff_forall_ne_some.mpr fun real hr =>
      hi w hw hi1 hi2 real ((hv.restoredAt_iff hmem hocc hstop).mpr hr)
    rw [hnone] at hocc'
    rw [getElem?_of_occursAt hascii hocc hi1 (by omega),
      getElem?_of_occursAt hback hocc' hi1 (by rw [Option.getD_none]; omega), Option.getD_none]
  · have hsource : isAscii (source (vs.map Visit.edit) tail) = true := hv.source_eq.symm ▸ hascii
    have hlay := getElem?_lay hv.byteLen_edit hsource hback 0 (i := i) fun s hs => by
      rw [Nat.zero_add]
      exact fun h => hin ⟨s, hv.spans_eq ▸ hs, h⟩
    rwa [show lay Edit.old (vs.map Visit.edit) tail = text from hv.source_eq] at hlay

end Visits

/-- Restoring an ASCII text returns, and gives the input back exactly when it recovers it. -/
theorem restore_recovers_iff (hFf1 : X.Ff1Lawful) (hascii : isAscii text = true) {input : Str}
    (hinput : isAscii input = true) :
    ∃ back, restore X e text = .ok back ∧
      (back.output = input ↔ Recovers X e.fpe e.fpeRegistered text input) := by
  obtain ⟨ws, vs, tail, hws, hv, hres⟩ := restore_eq (e := e) hFf1 fun r _ hpos =>
    sliceable_of_ascii hascii hpos
  have hback := hv.isAscii_target hascii
  refine ⟨_, hres, ?_⟩
  change target (vs.map Visit.edit) tail = input ↔ _
  constructor
  · rintro rfl
    refine ⟨ws, hws, fun w hw real hr => (hv.occursAt_of_restoredAt hw hr).1, fun i hne => ?_⟩
    by_contra hnone
    apply hne
    apply hv.getElem?_of_not_restoredAt hascii
    intro w hw hi1 hi2 real hr
    exact hnone ⟨w, hw, hi1, hi2, real, hr⟩
  · rintro ⟨ws', hws', hplace, hdiff⟩
    obtain rfl := hws'.unique hws
    apply List.ext_getElem?
    intro i
    by_cases hin : ∃ w ∈ ws', w.1 ≤ i ∧ i < w.2 ∧
        ∃ real, RestoredAt X e.fpe e.fpeRegistered text w real
    · obtain ⟨w, hw, hi1, hi2, real, hr⟩ := hin
      obtain ⟨hocc, hstop⟩ := hv.occursAt_of_restoredAt hw hr
      rw [getElem?_of_occursAt hback hocc hi1 (by omega),
        getElem?_of_occursAt hinput (hplace w hw real hr) hi1 (by omega)]
    · have hsame : text[i]? = input[i]? := by
        by_contra hne
        exact hin (hdiff i hne)
      rw [← hsame]
      exact (hv.getElem?_of_not_restoredAt hascii fun w hw hi1 hi2 real hr =>
        hin ⟨w, hw, hi1, hi2, real, hr⟩).symm

end Engine

end Invisibool
