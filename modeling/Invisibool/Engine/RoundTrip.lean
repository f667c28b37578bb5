import Invisibool.Engine.Recover
import Invisibool.Engine.Total

/-!
# The stateless round trip

A scrub writes a fake over each leftmost-longest value. A restore takes the leftmost-shortest
windows of what comes out, and puts values back only there, so the text comes back exactly when
these windows are in the places where fakes were written.
-/

namespace Invisibool
open Text Matching

namespace Engine

def FakeAt (X : Crates) (t : FpeTokenizer) (text : Str) (w : Nat × Nat) (r : FpeRegistration) :
    Prop :=
  ∃ fake, t.fake X r = some fake ∧ OccursAt text fake w.1 ∧ w.2 = w.1 + byteLen fake

/-- The ASCII text, from an offset on, with each match replaced by the fake of its registration. -/
def fakedText (X : Crates) (t : FpeTokenizer) (regs : List FpeRegistration) :
    Nat → Str → List Found → Str
  | _, text, [] => text
  | off, text, m :: ms =>
    text.take (m.start - off) ++ ((regs[m.pattern]?.bind (t.fake X)).getD []) ++
      fakedText X t regs m.stop (text.drop (m.stop - off)) ms

/-- In the faked text, every window that restore takes and that is a fake stands where the input
has the value, and every character that differs from the input lies in such a window. -/
def Recoverable (X : Crates) (t : FpeTokenizer) (regs : List FpeRegistration) (ms : List Found)
    (input : Str) : Prop :=
  ∃ ws, LeftmostShortest (IsCandidate (fakedText X t regs 0 input ms) regs) 0 ws ∧
    (∀ w ∈ ws, ∀ r ∈ regs, FakeAt X t (fakedText X t regs 0 input ms) w r →
      OccursAt input r.value w.1) ∧
    ∀ i : Nat, (fakedText X t regs 0 input ms)[i]? ≠ input[i]? →
      ∃ w ∈ ws, w.1 ≤ i ∧ i < w.2 ∧
        ∃ r ∈ regs, FakeAt X t (fakedText X t regs 0 input ms) w r

variable {X : Crates} {ord : HashOrder} {e : Engine}

section Back

variable {t : FpeTokenizer} {regs : List FpeRegistration} {text input : Str}

/-- When each fake stands for one value, trial decryption gives back the values of the fakes. -/
lemma restoredAt_iff_fakeAt (hFf1 : X.Ff1Lawful) (helig : ∀ r ∈ regs, r.Eligible)
    (hinj : ∀ r ∈ regs, ∀ r' ∈ regs, t.fake X r = t.fake X r' → r.value = r'.value)
    {w : Nat × Nat} {real : Str} :
    RestoredAt X t regs text w real ↔ ∃ r ∈ regs, FakeAt X t text w r ∧ real = r.value := by
  have htried : ∀ candidate, t.tryRestore X candidate regs = .ok (some real) ↔
      ∃ r ∈ regs, t.fake X r = some candidate ∧ real = r.value := by
    intro candidate
    constructor
    · intro h
      exact FpeTokenizer.fake_of_tryRestore hFf1 helig h
    · rintro ⟨r, hr, hfake, rfl⟩
      obtain ⟨v, hv⟩ := FpeTokenizer.tryRestore_of_fake hFf1 hr hfake
      obtain ⟨r', hr', hfake', rfl⟩ := FpeTokenizer.fake_of_tryRestore hFf1 helig hv
      rw [hv, hinj r' hr' r hr (hfake'.trans hfake.symm)]
  unfold RestoredAt FakeAt
  simp only [htried]
  constructor
  · rintro ⟨candidate, hocc, hstop, r, hr, hfake, hreal⟩
    exact ⟨r, hr, ⟨candidate, hfake, hocc, hstop⟩, hreal⟩
  · rintro ⟨r, hr, ⟨candidate, hfake, hocc, hstop⟩, hreal⟩
    exact ⟨candidate, hocc, hstop, r, hr, hfake, hreal⟩

lemma recovers_iff_recoverable (hFf1 : X.Ff1Lawful) (helig : ∀ r ∈ regs, r.Eligible)
    (hinj : ∀ r ∈ regs, ∀ r' ∈ regs, t.fake X r = t.fake X r' → r.value = r'.value)
    {ms : List Found} :
    Recovers X t regs (fakedText X t regs 0 input ms) input ↔ Recoverable X t regs ms input := by
  unfold Recovers Recoverable
  simp only [restoredAt_iff_fakeAt hFf1 helig hinj]
  refine exists_congr fun ws => and_congr_right fun _ => and_congr ?_ ?_
  · refine forall₂_congr fun w _ => ⟨fun h r hr hfake => h _ ⟨r, hr, hfake, rfl⟩, ?_⟩
    rintro h real ⟨r, hr, hfake, rfl⟩
    exact h r hr hfake
  · refine forall₂_congr fun i _ => exists_congr fun w => ?_
    refine and_congr_right fun _ => and_congr_right fun _ => and_congr_right fun _ => ?_
    exact ⟨fun ⟨_, r, hr, hfake, _⟩ => ⟨r, hr, hfake⟩, fun ⟨r, hr, hfake⟩ => ⟨_, r, hr, hfake, rfl⟩⟩

end Back

section Into

variable {vaultKey : List UInt8} {regs : List FpeRegistration} {retired : List FpeRegistration}
  {sessionMacKey : List UInt8}

lemma BuiltFrom.fpes_map (hb : BuiltFrom X vaultKey (regs.map .fpe) retired sessionMacKey e) :
    e.fpeRegistered = regs := by
  rw [hb.fpes, List.filterMap_map]
  exact List.filterMap_some

lemma step_of_fpe (hFf1 : X.Ff1Lawful) (hHkdf : X.HkdfLawful)
    (hb : BuiltFrom X vaultKey (regs.map .fpe) retired sessionMacKey e)
    (helig : ∀ r ∈ regs, r.Eligible) {valueId : Nat} {reg : RegisteredValue} {d : Disposal}
    (hid : e.lookup valueId = some reg) (hd : dispose X e reg = .ok d) :
    ∃ r fake, regs[valueId]? = some r ∧ reg = .fpe r ∧ e.fpe.fake X r = some fake ∧
      d = .fake fake := by
  rw [hb.lookup, List.getElem?_map] at hid
  obtain ⟨r, hr, rfl⟩ := Option.map_eq_some_iff.mp hid
  obtain ⟨fake, hfake⟩ := FpeTokenizer.fake_of_eligible hFf1 (hb.key_length hHkdf)
    (helig r (List.mem_of_getElem? hr))
  have hgen : dispose X e (.fpe r) = .ok (.fake fake) :=
    dispose_eq_fake.mpr (FpeTokenizer.fake_eq_some.mp hfake)
  exact ⟨r, fake, hr, rfl, hfake, Except.ok.inj (hd.symm.trans hgen)⟩

lemma fakedText_eq (hFf1 : X.Ff1Lawful) (hHkdf : X.HkdfLawful)
    (hb : BuiltFrom X vaultKey (regs.map .fpe) retired sessionMacKey e)
    (helig : ∀ r ∈ regs, r.Eligible) {off : Nat} {text tail : Str} {ms : List Match}
    {steps : List Step} (hwalk : Walk X e off text ms steps tail) {fs : List Found}
    (hms : fs.map (fun f => ⟨f.start, f.stop, .exact f.pattern⟩) = ms)
    (hascii : isAscii text = true) :
    fakedText X e.fpe regs off text fs = target (steps.map Step.edit) tail ∧
      isAscii (target (steps.map Step.edit) tail) = true := by
  induction hwalk generalizing fs with
  | nil =>
    obtain rfl := List.map_eq_nil_iff.mp hms
    exact ⟨rfl, hascii⟩
  | @cons off gap text ms steps tail reg d valueId hid hd _ ih =>
    obtain ⟨f, fs, rfl, hf, hrest⟩ := List.map_eq_cons_iff.mp hms
    simp only [Match.mk.injEq, MatchKind.exact.injEq] at hf
    obtain ⟨hstart, hstop, rfl⟩ := hf
    obtain ⟨r, fake, hr, rfl, hfake, rfl⟩ := step_of_fpe hFf1 hHkdf hb helig hid hd
    rw [isAscii_append, isAscii_append] at hascii
    obtain ⟨h1, h2⟩ := ih hrest hascii.2
    have hgap : f.start - off = gap.length := by
      rw [hstart, byteLen_of_ascii hascii.1.1]
      omega
    have hspan : f.stop - off = (gap ++ (RegisteredValue.fpe r).value).length := by
      rw [hstop, byteLen_of_ascii hascii.1.1, byteLen_of_ascii hascii.1.2, List.length_append]
      omega
    have htake : (gap ++ (RegisteredValue.fpe r).value ++ text).take gap.length = gap := by
      rw [List.append_assoc, List.take_left]
    constructor
    · rw [fakedText, hgap, hspan, htake, List.drop_left, hstop, h1, hr, Option.bind_some, hfake]
      rfl
    · have hfakeAscii := (FpeTokenizer.isAscii_fake_iff hFf1 hfake).mpr hascii.1.2
      simp only [List.map_cons, lay_cons, isAscii_append]
      exact ⟨⟨hascii.1.1, hfakeAscii⟩, h2⟩

/-- The faked text is what scrub writes, and it is ASCII text again. -/
theorem scrub_eq_fakedText (ord : HashOrder) (hX : X.MatcherLawful) (hFf1 : X.Ff1Lawful)
    (hHkdf : X.HkdfLawful)
    (hb : BuiltFrom X vaultKey (regs.map .fpe) retired sessionMacKey e)
    (helig : ∀ r ∈ regs, r.Eligible) {input : Str} (hascii : isAscii input = true) :
    ∃ res, scrub X ord e input = .ok res ∧
      res.output = fakedText X e.fpe regs 0 input (e.exactMatcher.found input) ∧
      isAscii res.output = true := by
  have hloc : ∀ m ∈ e.exactMatcher.scan input, e.Located input m := fun m hm => hb.located hX hm
  have hfpe : ∀ r ∈ regs.map RegisteredValue.fpe, ∃ r' ∈ regs, r = .fpe r' := by
    intro r hr
    obtain ⟨r', hr', rfl⟩ := List.mem_map.mp hr
    exact ⟨r', hr', rfl⟩
  obtain ⟨steps, tail, hwalk⟩ : ∃ steps tail,
      Walk X e 0 input (e.exactMatcher.scan input) steps tail :=
    (hb.exists_walk_iff hX).mpr ⟨fun m hm => by
      obtain ⟨valueId, reg, -, hid, hat, -⟩ := hb.located hX hm
      obtain ⟨r, hr, rfl⟩ := hfpe reg (hb.mem_of_lookup hid)
      exact isCharBoundary_of_at (helig r hr).value_ne_nil hat,
    fun m hm valueId reg _ hid => by
      obtain ⟨r, -, rfl⟩ := hfpe reg (hb.mem_of_lookup hid)
      exact dispose_fpe_isOk hFf1 r⟩
  obtain ⟨h1, h2⟩ := fakedText_eq hFf1 hHkdf hb helig hwalk rfl hascii
  exact ⟨_, (scrub_eq_ok hloc).mpr ⟨steps, tail, hwalk, rfl⟩, h1.symm, h2⟩

/-- Scrub and restore both return, and the input comes back exactly when it is recoverable. -/
theorem roundTrip_iff (hX : X.MatcherLawful) (hFf1 : X.Ff1Lawful) (hHkdf : X.HkdfLawful)
    (hnew : Engine.new X vaultKey (regs.map .fpe) retired sessionMacKey = .ok (.ok e))
    (helig : ∀ r ∈ regs, r.Eligible)
    (hinj : ∀ r ∈ regs, ∀ r' ∈ regs, e.fpe.fake X r = e.fpe.fake X r' → r.value = r'.value)
    {input : Str} (hascii : isAscii input = true) :
    ∃ res back, scrub X ord e input = .ok res ∧ restore X e res.output = .ok back ∧
      (back.output = input ↔
        Recoverable X e.fpe regs (e.exactMatcher.found input) input) := by
  have hb := builtFrom_of_new hnew
  obtain ⟨res, hres, hout, hasciiOut⟩ :=
    scrub_eq_fakedText ord hX hFf1 hHkdf hb helig hascii
  have hregs : e.fpeRegistered = regs := hb.fpes_map
  obtain ⟨back, hback, hiff⟩ := restore_recovers_iff (e := e) hFf1 hasciiOut hascii
  refine ⟨res, back, hres, hback, hiff.trans ?_⟩
  rw [hout, hregs]
  exact recovers_iff_recoverable hFf1 helig hinj

theorem roundTrip_iff_reference :
    let r : FpeRegistration := ⟨[], "AAAA".toList, Vector.replicate 16 0, .base62, []⟩
    let e := reference [.fpe r] [] []
    ∃ res back, scrub Crates.reference .stored e "a AAAA b".toList = .ok res ∧
      restore Crates.reference e res.output = .ok back ∧
      (back.output = "a AAAA b".toList ↔
        Recoverable Crates.reference e.fpe [r] (e.exactMatcher.found "a AAAA b".toList)
          "a AAAA b".toList) :=
  roundTrip_iff Crates.reference_matcherLawful Crates.reference_ff1Lawful
    Crates.reference_hkdfLawful (new_reference [] [.fpe _] [] []) (by decide +kernel)
    (by decide +kernel) (by decide)

/-- A letter before the value gives a look-alike window that hides the fake behind it. -/
theorem roundTrip_fails_behind_lookalike :
    let r : FpeRegistration := ⟨[], "AAAA".toList, Vector.replicate 16 0, .base62, []⟩
    let e := reference [.fpe r] [] []
    r.Eligible ∧ isAscii "xAAAA".toList = true ∧
    e.fpe.scrub Crates.reference r = .ok (.ok "BBBB".toList) ∧
    contains "xAAAA".toList "BBBB".toList = false ∧
    scrub Crates.reference .stored e "xAAAA".toList = .ok ⟨"xBBBB".toList, 1, []⟩ ∧
    restore Crates.reference e "xBBBB".toList = .ok ⟨"xBBBB".toList, 0⟩ ∧
    "xBBBB".toList ≠ "xAAAA".toList := by
  decide +kernel

end Into

end Engine

end Invisibool
