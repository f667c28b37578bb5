import Invisibool.Engine.FailClosed
import Invisibool.Tokenizer.SessionHolds
import Mathlib.Data.Finset.Card

/-!
# What a scrub leaves in the session map

The pairs a scrub writes are handed to `get_or_insert` one after the other, whose answer is
dropped, so a pair is in the map afterwards only if it was stored and nothing drove it out.
-/

namespace Invisibool
open Text Matching

/-- The real value and the session-mapped fake that a step hands to the session map. -/
def Step.call (s : Step) : Option (Str × Str) :=
  match s.disposal, s.reg with
  | .fake text, .sessionMapped reg => some (reg.value, text)
  | _, _ => none

namespace Engine

lemma foldl_remember (ord : HashOrder) (now : Nat) (steps : List Step) (m : SessionMap) :
    steps.foldl (Step.remember ord now) m = m.insertAll ord now (steps.filterMap Step.call) := by
  induction steps generalizing m with
  | nil => rfl
  | cons s steps ih =>
    rw [List.foldl_cons, ih, List.filterMap_cons]
    rcases s with ⟨gap, reg, _ | notice⟩
    · cases reg <;> rfl
    · cases reg <;> rfl

lemma exists_notice_iff {X : Crates} {e : Engine} {steps : List Step}
    (h : ∀ s ∈ steps, dispose X e s.reg = .ok s.disposal) (label : Str) :
    (∃ notice ∈ steps.flatMap (Step.notices true), notice.label = label) ↔
      ∃ s ∈ steps, s.isRedacted = true ∧ s.reg.label = label := by
  simp only [List.mem_flatMap]
  constructor
  · rintro ⟨notice, ⟨s, hs, hnotice⟩, rfl⟩
    have hd := h s hs
    rcases s with ⟨gap, reg, text | notice'⟩
    · cases reg <;> simp [Step.notices] at hnotice
    · obtain rfl : notice = notice' := by simpa [Step.notices] using hnotice
      exact ⟨_, hs, rfl, (dispose_eq_redacted hd).2.symm⟩
  · rintro ⟨s, hs, hred, rfl⟩
    have hd := h s hs
    rcases s with ⟨gap, reg, text | notice⟩
    · cases hred
    · exact ⟨notice, ⟨_, hs, by simp [Step.notices]⟩, (dispose_eq_redacted hd).2⟩

variable {X : Crates} {ord : HashOrder} {e : Engine} {input : Str}
  {vaultKey : List UInt8} {registered : List RegisteredValue}
  {retired : List FpeRegistration} {sessionMacKey : List UInt8}

/-- The value of a match, with its fake, if it is session-mapped and has one. -/
def mapping (X : Crates) (e : Engine) (m : Match) : Option (Str × Str) :=
  match m.kind with
  | .pattern _ => none
  | .exact valueId =>
    match e.lookup valueId with
    | some (.sessionMapped reg) =>
      match sessionFake X e.sessionMacKey reg with
      | .ok (some fake) => some (reg.value, fake)
      | _ => none
    | _ => none

def mappings (X : Crates) (e : Engine) (input : Str) : List (Str × Str) :=
  (e.exactMatcher.scan input).filterMap (e.mapping X)

lemma Walk.calls {off : Nat} {text tail : Str} {ms : List Match} {steps : List Step}
    (h : Walk X e off text ms steps tail) :
    steps.filterMap Step.call = ms.filterMap (e.mapping X) := by
  induction h with
  | nil => rfl
  | @cons off gap text ms steps tail reg d valueId hid hd _ ih =>
    have hcall : Step.call ⟨gap, reg, d⟩ =
        e.mapping X ⟨off + byteLen gap, off + byteLen gap + byteLen reg.value, .exact valueId⟩ := by
      unfold mapping
      dsimp only
      rw [hid]
      cases reg with
      | fpe r => cases d <;> rfl
      | sessionMapped reg =>
        cases d with
        | fake text =>
          have hfake : sessionFake X e.sessionMacKey reg = .ok (some text) := dispose_eq_fake.mp hd
          simp [Step.call, hfake]
        | redacted notice =>
          unfold dispose at hd
          obtain ⟨o, ho, hd⟩ := bind_eq_ok.mp hd
          cases o with
          | some f => cases hd
          | none => simp [Step.call, ho]
    rw [List.filterMap_cons, List.filterMap_cons, hcall, ih]

/-- What a scrub with a session map writes, and what it leaves in the map. -/
lemma scrubWithSession_spec (hX : X.MatcherLawful)
    (hnew : Engine.new X vaultKey registered retired sessionMacKey = .ok (.ok e))
    {session session' : SessionMap} {now : Nat} {res : EngineScrubResult}
    (h : scrubWithSession X ord e input session now = .ok (res, session')) :
    session' = session.insertAll ord now (e.mappings X input) ∧ ∃ (steps : List Step) (tail : Str),
      Walk X e 0 input (e.exactMatcher.scan input) steps tail ∧
      res.output = target (steps.map Step.edit) tail := by
  have hb := builtFrom_of_new hnew
  obtain ⟨steps, tail, hwalk, rfl, rfl⟩ :=
    (scrubWithSession_eq_ok fun m hm => hb.located hX hm).mp h
  refine ⟨?_, steps, tail, hwalk, rfl⟩
  rw [foldl_remember, hwalk.calls]
  rfl

/-- If there is room for all the values, and they belong to their fakes one to one, the map holds
afterwards what it held before and what the scrub has handed on. -/
theorem holds_scrubWithSession (hX : X.MatcherLawful)
    (hnew : Engine.new X vaultKey registered retired sessionMacKey = .ok (.ok e))
    {session session' : SessionMap} {now : Nat} {res : EngineScrubResult}
    (h : scrubWithSession X ord e input session now = .ok (res, session'))
    {held : List (Str × Str)} (hheld : session.Holds now held)
    (hone : OneToOne (held ++ e.mappings X input))
    (hroom : ((held ++ e.mappings X input).map Prod.fst).toFinset.card ≤ session.maxEntries) :
    session'.Holds now (held ++ e.mappings X input) := by
  rw [(scrubWithSession_spec hX hnew h).1]
  have hall : ∀ c ∈ held ++ e.mappings X input,
      c.1 ∈ ((held ++ e.mappings X input).map Prod.fst).dedup :=
    fun c hc => List.mem_dedup.mpr (List.mem_map_of_mem hc)
  rw [List.card_toFinset] at hroom
  exact (hheld.insertAll ord hone hall hroom).1

/-- After a scrub with a session map, each session-mapped fake it wrote is a live key of its real
value, or its registration has a notice, exactly when for each of them one of its calls stores
the pair, or the map held it before, and no later call drops it. -/
theorem emitted_live_iff (hX : X.MatcherLawful)
    (hnew : Engine.new X vaultKey registered retired sessionMacKey = .ok (.ok e))
    {session session' : SessionMap} {now : Nat} {res : EngineScrubResult}
    (h : scrubWithSession X ord e input session now = .ok (res, session')) :
    ∃ (steps : List Step) (tail : Str),
      Walk X e 0 input (e.exactMatcher.scan input) steps tail ∧
      res.output = target (steps.map Step.edit) tail ∧
      ((∀ s ∈ steps, ∀ real fake, s.call = some (real, fake) →
          session'.Live now fake real ∨ ∃ notice ∈ res.notices, notice.label = s.reg.label) ↔
        ∀ s ∈ steps, ∀ real fake, s.call = some (real, fake) →
          (session.Live now fake real ∧
            SessionMap.NoneDrops ord now fake session (steps.filterMap Step.call)) ∨
          SessionMap.Lands ord now fake real session (steps.filterMap Step.call) ∨
          ∃ s' ∈ steps, s'.isRedacted = true ∧ s'.reg.label = s.reg.label) := by
  have hb := builtFrom_of_new hnew
  obtain ⟨steps, tail, hwalk, rfl, rfl⟩ :=
    (scrubWithSession_eq_ok fun m hm => hb.located hX hm).mp h
  refine ⟨steps, tail, hwalk, rfl, ?_⟩
  refine forall₂_congr fun s _ => forall₃_congr fun real fake _ => ?_
  have hnotice := exists_notice_iff (fun s hs => (hwalk.disposed s hs).2) s.reg.label
  rw [foldl_remember, SessionMap.live_insertAll, ← or_assoc]
  exact or_congr Iff.rfl hnotice

theorem emitted_live_iff_reference :
    let e := reference [.sessionMapped ⟨"a".toList, "ab".toList, .pii .email⟩] [] []
    let fake := fakeEmail Crates.reference (utf8 "ab".toList)
    let session := SessionMap.new 1 100
    let session' := (session.getOrInsert .stored "ab".toList 0 fake).1
    ∃ (steps : List Step) (tail : Str),
      Walk Crates.reference e 0 "ab".toList (e.exactMatcher.scan "ab".toList) steps tail ∧
      fake = target (steps.map Step.edit) tail ∧
      ((∀ s ∈ steps, ∀ real fake, s.call = some (real, fake) →
          session'.Live 0 fake real ∨
            ∃ notice ∈ ([] : List ScrubNotice), notice.label = s.reg.label) ↔
        ∀ s ∈ steps, ∀ real fake, s.call = some (real, fake) →
          (session.Live 0 fake real ∧
            SessionMap.NoneDrops .stored 0 fake session (steps.filterMap Step.call)) ∨
          SessionMap.Lands .stored 0 fake real session (steps.filterMap Step.call) ∨
          ∃ s' ∈ steps, s'.isRedacted = true ∧ s'.reg.label = s.reg.label) :=
  emitted_live_iff Crates.reference_matcherLawful (new_reference [] _ _ _)
    (show scrubWithSession _ _ _ _ _ _ =
      .ok (⟨fakeEmail Crates.reference (utf8 "ab".toList), 1, []⟩, _) by rfl)

/-- A map that was loaded with another fake of the value keeps that one, while the new fake is
written, without a notice. -/
theorem emitted_fake_not_stored :
    let e := reference [.sessionMapped ⟨"a".toList, "ab".toList, .pii .email⟩] [] []
    let fake := fakeEmail Crates.reference (utf8 "ab".toList)
    let session := (SessionMap.new 2 100).importPairs [("555-0100".toList, "ab".toList)] 0
    ∃ session', scrubWithSession Crates.reference .stored e "ab".toList session 0 =
        .ok (⟨fake, 1, []⟩, session') ∧ session'.byFake.lookup fake = none := by
  exact ⟨_, rfl, by decide +kernel⟩

/-- In a map of one entry the second address drives out the first. -/
example : ∃ res session', scrubWithSession Crates.reference .stored
    (reference [.sessionMapped ⟨"a".toList, "ab".toList, .pii .email⟩,
      .sessionMapped ⟨"b".toList, "cd".toList, .pii .email⟩] [] []) "ab cd".toList
    (SessionMap.new 1 100) 0 = .ok (res, session') ∧ res.notices = [] ∧
    session'.byFake.lookup (fakeEmail Crates.reference (utf8 "ab".toList)) = none := by
  exact ⟨_, _, rfl, by decide +kernel, by decide +kernel⟩

end Engine

end Invisibool
