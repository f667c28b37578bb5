import Invisibool.Engine.Recover
import Invisibool.Engine.SessionRestore
import Invisibool.Engine.SessionStore
import Invisibool.Tokenizer.SessionHolds

/-!
# The round trip with a session

The output of a scrub is a template: the session-mapped values are slots that hold fakes. As long
as each stored fake is found in its slots only, the session pass fills the slots with the values,
in whatever order, and what is left to do is a restore of the FF1 fakes.
-/

namespace Invisibool
open Text Matching

/-- The gap of a step, and what stands in the place of the value. -/
def Step.pieces (s : Step) : List (Piece Str) :=
  match s.call with
  | some (real, _) => [.text s.gap, .slot real]
  | none => [.text s.gap, .text s.disposal.text]

/-- The output with the session-mapped values as slots. -/
def template (steps : List Step) (tail : Str) : List (Piece Str) :=
  steps.flatMap Step.pieces ++ [.text tail]

/-- The output with the session-mapped values put back. -/
def valuesBack (steps : List Step) (tail : Str) : Str := render id (template steps tail)

/-- What the slot of a value holds when some values are put back: the value, or the fake. -/
def fill (calls : List (Str × Str)) (done : List Str) (real : Str) : Str :=
  if real ∈ done then real else ((calls.find? fun c => c.1 = real).map Prod.snd).getD real

/-- The session-mapped values and their fakes belong to each other one to one; and whichever of
the values are put back, the fakes of the others are found exactly where they were written. -/
structure Separated (steps : List Step) (tail : Str) : Prop where
  oneToOne : OneToOne (steps.filterMap Step.call)
  found : ∀ done, ∀ c ∈ steps.filterMap Step.call, c.1 ∉ done →
    FoundAtSlots (fill (steps.filterMap Step.call) done) c.1 (template steps tail)

variable {calls : List (Str × Str)} {done : List Str} {real fake : Str}

lemma fill_of_mem (hone : OneToOne calls) (hcall : (real, fake) ∈ calls) (hdone : real ∉ done) :
    fill calls done real = fake := by
  unfold fill
  rw [if_neg hdone]
  cases hfind : calls.find? fun c => c.1 = real with
  | none =>
    have hno := List.find?_eq_none.mp hfind _ hcall
    simp at hno
  | some c =>
    have hreal : c.1 = real := by simpa using List.find?_some hfind
    exact (hone c (List.mem_of_find?_eq_some hfind) _ hcall).mp hreal

lemma update_fill : Function.update (fill calls done) real real = fill calls (real :: done) := by
  funext k
  by_cases hk : k = real
  · subst hk
    simp [fill]
  · rw [Function.update_of_ne hk]
    simp [fill, hk]

@[simp] lemma template_nil (tail : Str) : template [] tail = [.text tail] := rfl

@[simp] lemma template_cons (s : Step) (steps : List Step) (tail : Str) :
    template (s :: steps) tail = s.pieces ++ template steps tail := by
  simp [template]

lemma Step.pieces_of_call {s : Step} (h : s.call = some (real, fake)) :
    s.pieces = [.text s.gap, .slot real] ∧ s.reg.value = real ∧ s.disposal.text = fake := by
  rcases s with ⟨gap, _ | reg, text | notice⟩
  · cases h
  · cases h
  · obtain ⟨rfl, rfl⟩ := Prod.mk.inj (Option.some.inj h)
    exact ⟨rfl, rfl, rfl⟩
  · cases h

lemma Step.pieces_of_no_call {s : Step} (h : s.call = none) :
    s.pieces = [.text s.gap, .text s.disposal.text] := by
  unfold Step.pieces
  rw [h]

lemma exists_call_of_slot {steps : List Step} {tail : Str}
    (h : Piece.slot real ∈ template steps tail) :
    ∃ fake, (real, fake) ∈ steps.filterMap Step.call := by
  induction steps with
  | nil => simp at h
  | cons s steps ih =>
    rw [template_cons, List.mem_append] at h
    cases hs : s.call with
    | none =>
      rw [s.pieces_of_no_call hs] at h
      obtain ⟨fake, hfake⟩ := ih (by simpa using h)
      exact ⟨fake, by rwa [List.filterMap_cons_none hs]⟩
    | some c =>
      rw [List.filterMap_cons_some hs]
      rcases h with h | h
      · rw [(s.pieces_of_call hs).1] at h
        obtain rfl : real = c.1 := by simpa using h
        exact ⟨c.2, by simp⟩
      · obtain ⟨fake, hfake⟩ := ih h
        exact ⟨fake, by simp [hfake]⟩

lemma render_fill_nil {steps : List Step} {tail : Str} (hone : OneToOne calls)
    (hsub : steps.filterMap Step.call ⊆ calls) :
    render (fill calls []) (template steps tail) = target (steps.map Step.edit) tail := by
  induction steps with
  | nil => simp
  | cons s steps ih =>
    rw [template_cons, List.map_cons, target, lay_cons]
    cases hs : s.call with
    | none =>
      rw [List.filterMap_cons_none hs] at hsub
      rw [s.pieces_of_no_call hs]
      simp [Step.edit, ih hsub]
    | some c =>
      rw [List.filterMap_cons_some hs] at hsub
      obtain ⟨hpieces, -, htext⟩ := s.pieces_of_call hs
      have hfill : fill calls [] c.1 = c.2 := fill_of_mem hone (hsub (by simp)) (by simp)
      rw [hpieces]
      simp [Step.edit, htext, hfill, ih fun c hc => hsub (by simp [hc])]

lemma contains_of_call {steps : List Step} {tail : Str}
    (h : (real, fake) ∈ steps.filterMap Step.call) :
    contains (target (steps.map Step.edit) tail) fake = true := by
  rw [contains_iff]
  induction steps with
  | nil => cases h
  | cons s steps ih =>
    rw [List.map_cons, target, lay_cons]
    cases hs : s.call with
    | none =>
      rw [List.filterMap_cons_none hs] at h
      exact (ih h).trans (List.suffix_append _ _).isInfix
    | some c =>
      rw [List.filterMap_cons_some hs] at h
      rcases List.mem_cons.mp h with rfl | h
      · rw [show s.edit.new = fake from (s.pieces_of_call hs).2.2]
        exact ⟨s.edit.gap, _, rfl⟩
      · exact (ih h).trans (List.suffix_append _ _).isInfix

namespace Engine

variable {X : Crates} {ord : HashOrder} {e : Engine} {input : Str}

lemma makeMacfake_ne_nil {key : List UInt8} {value : Str} {a : Alphabet}
    (h : makeMacfake X key value a = .ok (some fake)) : fake ≠ [] := by
  unfold makeMacfake at h
  dsimp only at h
  split at h
  · cases h
  · obtain ⟨body, -, h⟩ := bind_eq_ok.mp h
    obtain ⟨tail, htail, h⟩ := bind_eq_ok.mp h
    obtain rfl := Option.some.inj (Except.ok.inj h)
    obtain ⟨tail', htail', hlen, -⟩ := macTail_isOk X key (utf8 body) a
    obtain rfl := Except.ok.inj (htail.symm.trans htail')
    have hpos : 0 < a.macTailLen := Nat.clog_pos a.two_le_radix (by norm_num)
    rintro hnil
    rw [(List.append_eq_nil_iff.mp hnil).2, List.length_nil] at hlen
    omega

lemma sessionFake_ne_nil {key : List UInt8} {reg : SessionRegistration}
    (h : sessionFake X key reg = .ok (some fake)) : fake ≠ [] := by
  have hreserved : isInReservedRange fake = true → fake ≠ [] := by
    rintro htrue rfl
    exact absurd htrue (by decide)
  unfold sessionFake at h
  split at h
  · obtain rfl := Option.some.inj (Except.ok.inj h)
    exact hreserved fakeEmail_isInReservedRange
  · obtain rfl := Option.some.inj (Except.ok.inj h)
    exact hreserved fakeIpv4_isInReservedRange
  · obtain rfl := Option.some.inj (Except.ok.inj h)
    exact hreserved fakePhone_isInReservedRange
  · exact hreserved (fakeCardVisa16_isInReservedRange h)
  · exact makeMacfake_ne_nil h

/-- The pair of a step is a registered value and the fake of its registration. -/
lemma call_spec {s : Step} (hd : dispose X e s.reg = .ok s.disposal)
    (hcall : s.call = some (real, fake)) : s.reg.value = real ∧ fake ≠ [] := by
  rcases s with ⟨gap, _ | reg, text | notice⟩
  · cases hcall
  · cases hcall
  · obtain ⟨rfl, rfl⟩ := Prod.mk.inj (Option.some.inj hcall)
    exact ⟨rfl, sessionFake_ne_nil (dispose_eq_fake.mp hd)⟩
  · cases hcall

/-- Replacing stored fakes puts their values back, if they are found in their slots only. -/
lemma foldl_restoreIn_render {realOf : Str → Option Str} {pieces : List (Piece Str)}
    (hone : OneToOne calls) (hne : ∀ c ∈ calls, c.2 ≠ [])
    (hreal : ∀ real fake, (real, fake) ∈ calls → realOf fake = some real)
    (hfound : ∀ done, ∀ c ∈ calls, c.1 ∉ done → FoundAtSlots (fill calls done) c.1 pieces)
    {fakes : List Str} (hfakes : ∀ fake ∈ fakes, ∃ real, (real, fake) ∈ calls)
    (hnodup : fakes.Nodup) (done : List Str)
    (hdone : ∀ fake ∈ fakes, ∀ real, (real, fake) ∈ calls → real ∉ done) (n : Nat) :
    ∃ done', (∀ real, (∃ fake ∈ fakes, (real, fake) ∈ calls) → real ∈ done') ∧ done ⊆ done' ∧
      (fakes.foldl (restoreIn realOf) (render (fill calls done) pieces, n)).1 =
        render (fill calls done') pieces := by
  induction fakes generalizing done n with
  | nil => exact ⟨done, by simp, List.Subset.refl _, rfl⟩
  | cons fake fakes ih =>
    obtain ⟨real, hcall⟩ := hfakes fake (by simp)
    obtain ⟨hfresh, hnodup⟩ := List.nodup_cons.mp hnodup
    have hnot := hdone fake (by simp) real hcall
    have hslot := fill_of_mem hone hcall hnot
    have hstep : replace (render (fill calls done) pieces) fake real =
        render (fill calls (real :: done)) pieces := by
      have hfilled := hfound done _ hcall hnot
      have := replace_render real (by rw [hslot]; exact hne _ hcall) hfilled
      rwa [hslot, update_fill] at this
    have hdone' : ∀ f ∈ fakes, ∀ r, (r, f) ∈ calls → r ∉ real :: done := by
      intro f hf r hr
      rw [List.mem_cons, not_or]
      refine ⟨?_, hdone f (by simp [hf]) r hr⟩
      rintro rfl
      have heq : f = fake := (hone _ hr _ hcall).mp rfl
      exact hfresh (heq ▸ hf)
    obtain ⟨done', h1, h2, h3⟩ := ih (fun f hf => hfakes f (by simp [hf])) hnodup _ hdone'
      (n + matchCount (render (fill calls done) pieces) fake)
    refine ⟨done', ?_, fun r hr => h2 (by simp [hr]), ?_⟩
    · rintro r ⟨f, hf, hr⟩
      rcases List.mem_cons.mp hf with rfl | hf
      · obtain rfl : r = real := (hone _ hr _ hcall).mpr rfl
        exact h2 (by simp)
      · exact h1 r ⟨f, hf, hr⟩
    · rw [List.foldl_cons, restoreIn, hreal _ _ hcall]
      dsimp only
      rw [hstep]
      exact h3

lemma mem_candidateFakes {session : SessionMap} :
    fake ∈ candidateFakes ord session input ↔
      (∃ entry, session.byFake.lookup fake = some entry) ∧ contains input fake = true := by
  unfold candidateFakes SessionMap.entries
  simp only [List.mem_map, List.mem_filter]
  constructor
  · rintro ⟨_, ⟨⟨entry, hentry, rfl⟩, hcontains⟩, rfl⟩
    exact ⟨⟨entry.2, AList.mem_lookup_iff.mpr ((ord.perm _).mem_iff.mp hentry)⟩, hcontains⟩
  · rintro ⟨⟨entry, hlook⟩, hcontains⟩
    exact ⟨(fake, entry.real), ⟨⟨⟨fake, entry⟩,
      (ord.perm _).mem_iff.mpr (AList.mem_lookup_iff.mp hlook), rfl⟩, hcontains⟩, rfl⟩

lemma nodup_candidateFakes {session : SessionMap} : (candidateFakes ord session input).Nodup := by
  have hkeys : ((session.entries ord).map Prod.fst).Nodup := by
    unfold SessionMap.entries
    rw [List.map_map]
    exact ((ord.perm _).map _).nodup_iff.mpr session.byFake.keys_nodup
  exact hkeys.sublist (List.filter_sublist.map _)

/-- A map that holds the pairs of the steps puts all values back. -/
lemma sessionPass_eq (ord : HashOrder) {steps : List Step} {tail : Str}
    (hsep : Separated steps tail)
    (hne : ∀ c ∈ steps.filterMap Step.call, c.2 ≠ []) {session : SessionMap} {now now' : Nat}
    (hholds : session.Holds now (steps.filterMap Step.call)) (httl : now' - now ≤ session.ttl) :
    (sessionPass ord (target (steps.map Step.edit) tail) session now').1 =
      valuesBack steps tail := by
  have hreal : ∀ real fake, (real, fake) ∈ steps.filterMap Step.call →
      session.realOf now' fake = some real := by
    intro real fake hcall
    refine SessionMap.realOf_eq_some.mpr
      ⟨⟨real, now⟩, (hholds.byFake _ _).mpr ⟨rfl, hcall⟩, rfl, ?_⟩
    simp only [SessionMap.Expired, Nat.not_lt]
    exact httl
  have hfakes : ∀ fake ∈ candidateFakes ord session (target (steps.map Step.edit) tail),
      ∃ real, (real, fake) ∈ steps.filterMap Step.call := by
    intro fake hfake
    obtain ⟨⟨entry, hlook⟩, -⟩ := mem_candidateFakes.mp hfake
    exact ⟨entry.real, ((hholds.byFake _ _).mp hlook).2⟩
  obtain ⟨done, hdone, -, heq⟩ := foldl_restoreIn_render hsep.oneToOne hne hreal hsep.found
    hfakes nodup_candidateFakes [] (by simp) 0
  rw [render_fill_nil hsep.oneToOne (List.Subset.refl _)] at heq
  apply heq.trans
  apply render_congr
  intro real hslot
  obtain ⟨fake, hcall⟩ := exists_call_of_slot hslot
  have hmem : real ∈ done := hdone real ⟨fake, mem_candidateFakes.mpr
    ⟨⟨⟨real, now⟩, (hholds.byFake _ _).mpr ⟨rfl, hcall⟩⟩, contains_of_call hcall⟩, hcall⟩
  simp [fill, hmem]

lemma isAscii_valuesBack (hFf1 : X.Ff1Lawful) {off : Nat} {text tail : Str} {ms : List Match}
    {steps : List Step} (hwalk : Walk X e off text ms steps tail) (hascii : isAscii text = true) :
    isAscii (valuesBack steps tail) = true := by
  induction hwalk with
  | nil => simpa [valuesBack] using hascii
  | @cons off gap text ms steps tail reg d valueId hid hd _ ih =>
    rw [isAscii_append, isAscii_append] at hascii
    have ih := ih hascii.2
    unfold valuesBack at ih ⊢
    rw [template_cons]
    cases hcall : Step.call ⟨gap, reg, d⟩ with
    | some c =>
      obtain ⟨hpieces, hvalue, -⟩ := Step.pieces_of_call hcall
      rw [hpieces]
      have hc : isAscii c.1 = true := hvalue ▸ hascii.1.2
      simp [isAscii_append, hascii.1.1, hc, ih]
    | none =>
      rw [Step.pieces_of_no_call hcall]
      have htext : isAscii d.text = true := by
        cases d with
        | redacted notice => exact (by decide : isAscii redactionPlaceholder = true)
        | fake text =>
          cases reg with
          | fpe r =>
            have hfake := FpeTokenizer.fake_eq_some.mpr (dispose_eq_fake.mp hd)
            exact (FpeTokenizer.isAscii_fake_iff hFf1 hfake).mpr hascii.1.2
          | sessionMapped s => cases hcall
      simp [isAscii_append, hascii.1.1, htext, ih]

variable {vaultKey : List UInt8} {registered : List RegisteredValue}
  {retired : List FpeRegistration} {sessionMacKey : List UInt8}

/-- With a fresh map that has room for all values and has not expired: if the fakes of the
session-mapped values are separated, then restoring returns, and the input comes back exactly
when a restore recovers it from the output with these values put back. -/
theorem sessionRoundTrip (hX : X.MatcherLawful) (hFf1 : X.Ff1Lawful)
    (hnew : Engine.new X vaultKey registered retired sessionMacKey = .ok (.ok e))
    {maxEntries ttl now now' : Nat} (hroom : registered.length ≤ maxEntries)
    (httl : now' - now ≤ ttl) (hascii : isAscii input = true) {res : EngineScrubResult}
    {session : SessionMap}
    (h : scrubWithSession X ord e input (.new maxEntries ttl) now = .ok (res, session)) :
    ∃ (steps : List Step) (tail : Str),
      Walk X e 0 input (e.exactMatcher.scan input) steps tail ∧
      res.output = target (steps.map Step.edit) tail ∧
      (Separated steps tail → ∀ ord' : HashOrder, ∃ back session',
        restoreWithSession X ord' e res.output session now' = .ok (back, session') ∧
        (back.output = input ↔
          Recovers X e.fpe e.fpeRegistered (valuesBack steps tail) input)) := by
  have hb := builtFrom_of_new hnew
  obtain ⟨steps, tail, hwalk, rfl, rfl⟩ :=
    (scrubWithSession_eq_ok fun m hm => hb.located hX hm).mp h
  refine ⟨steps, tail, hwalk, rfl, fun hsep ord' => ?_⟩
  have hcalls : ∀ c ∈ steps.filterMap Step.call,
      c.1 ∈ registered.map RegisteredValue.value ∧ c.2 ≠ [] := by
    intro c hc
    obtain ⟨s, hs, hcall⟩ := List.mem_filterMap.mp hc
    obtain ⟨⟨valueId, hid⟩, hd⟩ := hwalk.disposed s hs
    obtain ⟨hvalue, hne⟩ := call_spec hd hcall
    exact ⟨List.mem_map.mpr ⟨s.reg, hb.mem_of_lookup hid, hvalue⟩, hne⟩
  obtain ⟨hholds, httl'⟩ := (SessionMap.holds_new maxEntries ttl now).insertAll ord
    hsep.oneToOne (fun c hc => (hcalls c hc).1) (by rw [List.length_map]; exact hroom)
  rw [foldl_remember]
  have hpass := sessionPass_eq ord' hsep (fun c hc => (hcalls c hc).2) hholds
    (httl'.symm ▸ httl : now' - now ≤ SessionMap.ttl _)
  obtain ⟨back, hback, hiff⟩ := restore_recovers_iff (e := e) hFf1
    (isAscii_valuesBack hFf1 hwalk hascii) hascii
  have hfst := restoreWithSession_fst X ord' e (target (steps.map Step.edit) tail)
    ((SessionMap.new maxEntries ttl).insertAll ord now (steps.filterMap Step.call)) now'
  rw [hpass, hback] at hfst
  cases hrun : restoreWithSession X ord' e (target (steps.map Step.edit) tail)
      ((SessionMap.new maxEntries ttl).insertAll ord now (steps.filterMap Step.call)) now' with
  | error p =>
    rw [hrun] at hfst
    cases hfst
  | ok r =>
    rw [hrun] at hfst
    have hout : r.1 = _ := Except.ok.inj hfst
    exact ⟨r.1, r.2, hrun, by rw [hout]; exact hiff⟩

/-- The theorem on an address beside an FPE value, restored 50 ticks later. -/
theorem sessionRoundTrip_reference :
    let e := reference [.fpe ⟨"a".toList, "AAAA".toList, Vector.replicate 16 0, .base62, []⟩,
      .sessionMapped ⟨"b".toList, "ab".toList, .pii .email⟩] [] []
    let fake := fakeEmail Crates.reference (utf8 "ab".toList)
    let session := ((SessionMap.new 2 100).getOrInsert .stored "ab".toList 0 fake).1
    ∃ (steps : List Step) (tail : Str),
      Walk Crates.reference e 0 "ab AAAA".toList (e.exactMatcher.scan "ab AAAA".toList) steps tail ∧
      fake ++ " BBBB".toList = target (steps.map Step.edit) tail ∧
      (Separated steps tail → ∀ ord' : HashOrder, ∃ back session',
        restoreWithSession Crates.reference ord' e (fake ++ " BBBB".toList) session 50 =
          .ok (back, session') ∧
        (back.output = "ab AAAA".toList ↔ Recovers Crates.reference e.fpe e.fpeRegistered
          (valuesBack steps tail) "ab AAAA".toList)) :=
  sessionRoundTrip Crates.reference_matcherLawful Crates.reference_ff1Lawful
    (new_reference [] _ _ _) (show 2 ≤ 2 by decide) (show 50 - 0 ≤ 100 by decide) (by decide)
    (show scrubWithSession _ .stored _ _ _ _ = .ok
      (⟨fakeEmail Crates.reference (utf8 "ab".toList) ++ " BBBB".toList, 2, []⟩, _) by rfl)

/-- The fake of one address begins with the fake of the other, which is restored inside of it. -/
theorem sessionRoundTrip_fails_on_prefix :
    let e := reference [.sessionMapped ⟨"a".toList, "10.0.9.9".toList, .pii .ipv4⟩,
      .sessionMapped ⟨"b".toList, "10.10.10.10".toList, .pii .ipv4⟩] [] []
    let input := "10.0.9.9 10.10.10.10".toList
    ∃ session back session',
      scrubWithSession Crates.reference .stored e input (.new 2 100) 0 =
        .ok (⟨"192.0.2.141 192.0.2.14".toList, 2, []⟩, session) ∧
      contains input "192.0.2.14".toList = false ∧ contains input redactionPlaceholder = false ∧
      restoreWithSession Crates.reference .stored e "192.0.2.141 192.0.2.14".toList session 0 =
        .ok (back, session') ∧
      back.output = "10.10.10.101 10.10.10.10".toList := by
  exact ⟨_, _, _, rfl, by decide +kernel, by decide +kernel, rfl, by decide +kernel⟩

end Engine

end Invisibool
