import Invisibool.Engine.FailClosed

/-!
# When scrub returns

A scrub panics in two ways only: a match that starts inside a character, which takes an empty
registered value, and a `Formatless` value that HKDF cannot expand to the length of.
-/

namespace Invisibool
open Text Matching

namespace Engine

variable {X : Crates} {ord : HashOrder} {e : Engine} {input : Str}

lemma dispose_fpe_isOk (hFf1 : X.Ff1Lawful) (r : FpeRegistration) :
    ∃ d, dispose X e (.fpe r) = .ok d := by
  obtain ⟨res, hres⟩ := e.fpe.scrub_isOk hFf1 r
  unfold dispose
  dsimp only
  rw [hres, ok_bind]
  cases res with
  | ok fake => exact ⟨_, rfl⟩
  | error err => exact ⟨_, rfl⟩

lemma dispose_sessionMapped_isOk (hHkdf : X.HkdfLawful) (s : SessionRegistration) :
    (∃ d, dispose X e (.sessionMapped s) = .ok d) ↔
      (s.kind = .formatless → byteLen s.value ≤ Alphabet.base62.macTailLen + 255 * 32) := by
  have hiff : (∃ d, dispose X e (.sessionMapped s) = .ok d) ↔
      ∃ o, sessionFake X e.sessionMacKey s = .ok o := by
    unfold dispose
    dsimp only
    cases sessionFake X e.sessionMacKey s with
    | error p => simp
    | ok o =>
      refine ⟨fun _ => ⟨o, rfl⟩, fun _ => ?_⟩
      cases o with
      | some fake => exact ⟨_, rfl⟩
      | none => cases s.kind <;> exact ⟨_, rfl⟩
  rw [hiff]
  unfold sessionFake
  cases hk : s.kind with
  | card =>
    obtain ⟨o, ho, -⟩ := fakeCardVisa16_isOk X (utf8 s.value) s.value
    simp [ho]
  | pii kind => cases kind <;> simp
  | formatless => simpa using makeMacfake_isOk hHkdf

lemma Walk.isCharBoundary {off : Nat} {u text tail : Str} {ms : List Match} {steps : List Step}
    (h : Walk X e off text ms steps tail) (hu : byteLen u = off) :
    ∀ m ∈ ms, IsCharBoundary (u ++ text) m.start := by
  induction h generalizing u with
  | nil => simp
  | @cons off gap text ms steps tail reg d valueId _ _ _ ih =>
    intro m hm
    rcases List.mem_cons.mp hm with rfl | hm
    · exact ⟨u ++ gap, reg.value ++ text, by simp, by simp [hu]⟩
    · have := ih (u := u ++ gap ++ reg.value) (by simp [hu, Nat.add_assoc]) m hm
      simpa using this

section

variable {vaultKey : List UInt8} {registered : List RegisteredValue}
  {retired : List FpeRegistration} {sessionMacKey : List UInt8}

lemma BuiltFrom.pairwise_scan (hb : BuiltFrom X vaultKey registered retired sessionMacKey e)
    (hX : X.MatcherLawful) (input : Str) :
    (e.exactMatcher.scan input).Pairwise fun m m' => m.stop ≤ m'.start :=
  List.pairwise_map.mpr (hb.leftmostLongest hX input).pairwise

/-- Scrub returns exactly when every match starts at a boundary and can be disposed of. -/
theorem BuiltFrom.exists_walk_iff (hb : BuiltFrom X vaultKey registered retired sessionMacKey e)
    (hX : X.MatcherLawful) :
    (∃ steps tail, Walk X e 0 input (e.exactMatcher.scan input) steps tail) ↔
      (∀ m ∈ e.exactMatcher.scan input, IsCharBoundary input m.start) ∧
      ∀ m ∈ e.exactMatcher.scan input, ∀ valueId reg, m.kind = .exact valueId →
        e.lookup valueId = some reg → ∃ d, dispose X e reg = .ok d := by
  constructor
  · rintro ⟨steps, tail, hwalk⟩
    refine ⟨hwalk.isCharBoundary (u := []) rfl, fun m hm valueId reg hkind hid => ?_⟩
    obtain ⟨s, -, valueId', hkind', hid', hd⟩ := hwalk.exists_step m hm
    obtain rfl := MatchKind.exact.inj (hkind.symm.trans hkind')
    obtain rfl := Option.some.inj (hid.symm.trans hid')
    exact ⟨_, hd⟩
  · rintro ⟨hbound, hdisp⟩
    exact exists_walk (u := []) (fun m hm => hb.located hX hm) (hb.pairwise_scan hX input)
      (fun _ _ => Nat.zero_le _) rfl rfl hbound hdisp

/-- All matches start at boundaries unless the empty value is registered and a character with
several bytes is left uncovered. -/
theorem BuiltFrom.boundary_iff (hb : BuiltFrom X vaultKey registered retired sessionMacKey e)
    (hX : X.MatcherLawful) :
    (∀ m ∈ e.exactMatcher.scan input, IsCharBoundary input m.start) ↔
      ((∃ r ∈ registered, r.value = []) → ∀ i ≤ byteLen input, ¬ IsCharBoundary input i →
        ∃ m ∈ e.exactMatcher.scan input, m.start < i ∧ i < m.stop) := by
  constructor
  · rintro hbound ⟨r, hr, hempty⟩ i hi hnot
    obtain ⟨k, hk, hget⟩ := List.getElem_of_mem hr
    have hpat : ((registered.map RegisteredValue.value).map utf8)[k]? = some [] := by
      simp [List.getElem?_eq_getElem hk, hget, hempty]
    obtain ⟨f, hf, h1, h2⟩ := (hb.leftmostLongest hX input).touches_every_offset hpat
      (i := i) (by simpa using hi) (Nat.zero_le _) (by simp)
    have hm : (⟨f.start, f.stop, .exact f.pattern⟩ : Match) ∈ e.exactMatcher.scan input :=
      List.mem_map.mpr ⟨f, hf, rfl⟩
    have hstart := hbound _ hm
    obtain ⟨valueId, reg, -, -, hat, hstop⟩ := hb.located hX hm
    obtain ⟨u, v, huv, hu⟩ := occursAt_of_at hstart hat
    have hend : IsCharBoundary input f.stop :=
      ⟨u ++ reg.value, v, huv, by rw [byteLen_append, hu]; exact hstop.symm⟩
    refine ⟨_, hm, lt_of_le_of_ne h1 ?_, lt_of_le_of_ne h2 ?_⟩
    · rintro rfl
      exact hnot hstart
    · rintro rfl
      exact hnot hend
  · intro hcover m hm
    obtain ⟨valueId, reg, -, hid, hat, hstop⟩ := hb.located hX hm
    by_cases hempty : reg.value = []
    · by_contra hnot
      have hle : m.start ≤ byteLen input := by
        have := hat.le
        rw [length_utf8, length_utf8] at this
        omega
      obtain ⟨m', hm', h1, h2⟩ :=
        hcover ⟨reg, hb.mem_of_lookup hid, hempty⟩ m.start hle hnot
      -- the empty match would lie inside another one
      have hstop' : m.stop = m.start := by simpa [hempty] using hstop
      obtain ⟨k, hk, rfl⟩ := List.getElem_of_mem hm
      obtain ⟨k', hk', rfl⟩ := List.getElem_of_mem hm'
      have hpair := List.pairwise_iff_getElem.mp (hb.pairwise_scan hX input)
      rcases Nat.lt_trichotomy k k' with hlt | rfl | hlt
      · have := hpair k k' hk hk' hlt
        omega
      · omega
      · have := hpair k' k hk' hk hlt
        omega
    · exact isCharBoundary_of_at hempty hat

end

end Engine

end Invisibool
