import Invisibool.Engine.Build
import Invisibool.Text.Edit

/-!
# What a scrub does

A scrub walks over the matches of the registered values. Each match is settled on its own: what
is put in its place depends on the registration only, and the session map is told afterwards.
-/

namespace Invisibool
open Text Matching

inductive Disposal
  | fake (text : Str)
  | redacted (notice : ScrubNotice)
  deriving DecidableEq, Repr

def Disposal.text : Disposal → Str
  | fake text => text
  | redacted _ => redactionPlaceholder

def SessionStore.isMap : SessionStore → Bool
  | none => false
  | map _ _ => true

/-- One settled match, with the text between it and the last one. -/
structure Step where
  gap : Str
  reg : RegisteredValue
  disposal : Disposal

namespace Step

def edit (s : Step) : Edit := ⟨s.gap, s.reg.value, s.disposal.text⟩

/-- The notices of a step, with or without a session map. -/
def notices (stored : Bool) (s : Step) : List ScrubNotice :=
  match s.disposal, s.reg with
  | .redacted notice, _ => [notice]
  | .fake _, .fpe _ => []
  | .fake _, .sessionMapped reg =>
    if stored then [] else [.sessionMappedUnrestorable reg.label reg.kind]

def store (ord : HashOrder) (store : SessionStore) (s : Step) : SessionStore :=
  match s.disposal, s.reg with
  | .fake text, .sessionMapped reg => (store.store ord reg.value text).1
  | _, _ => store

def remember (ord : HashOrder) (now : Nat) (m : SessionMap) (s : Step) : SessionMap :=
  match s.disposal, s.reg with
  | .fake text, .sessionMapped reg => (m.getOrInsert ord reg.value now text).1
  | _, _ => m

end Step

lemma Step.store_map (ord : HashOrder) (m : SessionMap) (now : Nat) (s : Step) :
    s.store ord (.map m now) = .map (s.remember ord now m) now := by
  unfold Step.store Step.remember
  split <;> rfl

lemma Step.foldl_store_map (ord : HashOrder) (steps : List Step) (m : SessionMap) (now : Nat) :
    steps.foldl (Step.store ord) (.map m now) =
      .map (steps.foldl (Step.remember ord now) m) now := by
  induction steps generalizing m with
  | nil => rfl
  | cons s steps ih => rw [List.foldl_cons, Step.store_map, ih, List.foldl_cons]

lemma SessionStore.store_snd (ord : HashOrder) (store : SessionStore) (real fake : Str) :
    (store.store ord real fake).2 = store.isMap := by
  cases store <;> rfl

@[simp] lemma Step.isMap_store (ord : HashOrder) (store : SessionStore) (s : Step) :
    (s.store ord store).isMap = store.isMap := by
  unfold Step.store
  split
  · cases store <;> rfl
  · rfl

namespace Engine

variable (X : Crates) (ord : HashOrder)

def dispose (e : Engine) : RegisteredValue → Outcome Disposal
  | .fpe reg => do
    match ← e.fpe.scrub X reg with
    | .ok fake => .ok (.fake fake)
    | .error _ => .ok (.redacted (.redactedInternalFailure reg.label
        "FF1 scrub failed at runtime; eligibility was supposed to be validated at registration"))
  | .sessionMapped reg => do
    match ← sessionFake X e.sessionMacKey reg, reg.kind with
    | some fake, _ => .ok (.fake fake)
    | none, .formatless => .ok (.redacted (.redactedFormatless reg.label))
    | none, _ => .ok (.redacted (.redactedInternalFailure reg.label
        "session-mapped fake generator returned None (likely a format mismatch in the registered value)"))

def ScrubState.advance (st : ScrubState) (s : Step) : ScrubState where
  output := st.output ++ s.gap ++ s.disposal.text
  cursor := st.cursor + byteLen s.gap + byteLen s.reg.value
  scrubbedCount := st.scrubbedCount + 1
  notices := st.notices ++ s.notices st.store.isMap
  store := s.store ord st.store

/-- The steps over a text that starts at a byte offset, one for each match. -/
inductive Walk (e : Engine) : Nat → Str → List Match → List Step → Str → Prop
  | nil {off tail} : Walk e off tail [] [] tail
  | cons {off gap text ms steps tail reg disposal valueId} :
      e.lookup valueId = some reg → dispose X e reg = .ok disposal →
      Walk e (off + byteLen gap + byteLen reg.value) text ms steps tail →
      Walk e off (gap ++ reg.value ++ text)
        (⟨off + byteLen gap, off + byteLen gap + byteLen reg.value, .exact valueId⟩ :: ms)
        (⟨gap, reg, disposal⟩ :: steps) tail

variable {X ord} {e : Engine} {input : Str}

lemma resolve_cases {valueId : Nat} {reg : RegisteredValue} (h : e.lookup valueId = some reg) :
    (∃ i r, reg = .fpe r ∧ e.valueIdToRef[valueId]? = some (.fpe i) ∧
      e.fpeRegistered[i]? = some r) ∨
    ∃ i s, reg = .sessionMapped s ∧ e.valueIdToRef[valueId]? = some (.session i) ∧
      e.sessionRegistered[i]? = some s := by
  obtain ⟨ref, href, hreg⟩ := Option.bind_eq_some_iff.mp h
  cases ref with
  | fpe i =>
    obtain ⟨r, hr, rfl⟩ := Option.map_eq_some_iff.mp hreg
    exact .inl ⟨i, r, rfl, href, hr⟩
  | session i =>
    obtain ⟨s, hs, rfl⟩ := Option.map_eq_some_iff.mp hreg
    exact .inr ⟨i, s, rfl, href, hs⟩

/-- A match of an FPE value is never passed through: the value itself takes precedence over the
recognisers of fakes. -/
lemma scrubFpe_eq {r : FpeRegistration} (hr : r ∈ e.fpeRegistered) (st : ScrubState)
    (gap : Str) (cursor : Nat) :
    scrubFpe X e r r.value { st with output := st.output ++ gap, cursor := cursor } =
      (dispose X e (.fpe r) >>= fun d => .ok { st.advance ord ⟨gap, .fpe r, d⟩ with
        cursor := cursor }) := by
  have hclassify : (⟨e.fpeRegistered, e.retired, e.fpe, e.sessionMacKey⟩ :
      IdempotenceContext).classify X r.value r.alphabet = .ok .scrub :=
    IdempotenceContext.classify_of_registered hr
  unfold scrubFpe dispose
  dsimp only at hclassify ⊢
  rw [hclassify, ok_bind]
  dsimp only
  cases e.fpe.scrub X r with
  | error p => rfl
  | ok res =>
    cases res with
    | error err => rfl
    | ok fake => simp [ScrubState.advance, Step.notices, Step.store, Disposal.text]

lemma scrubSession_eq (s : SessionRegistration) (st : ScrubState) (gap : Str) (cursor : Nat) :
    scrubSession X ord e s { st with output := st.output ++ gap, cursor := cursor } =
      (dispose X e (.sessionMapped s) >>= fun d =>
        .ok { st.advance ord ⟨gap, .sessionMapped s, d⟩ with cursor := cursor }) := by
  unfold scrubSession dispose
  dsimp only
  cases sessionFake X e.sessionMacKey s with
  | error p => simp only [error_bind]
  | ok o =>
    simp only [ok_bind]
    cases o with
    | some fake =>
      simp only [ok_bind, ScrubState.advance, Step.notices, Step.store, Disposal.text,
        SessionStore.store_snd]
      cases st.store with
      | none => rfl
      | map session now => simp [SessionStore.isMap]
    | none => cases s.kind <;> simp [ScrubState.advance, Step.notices, Step.store, Disposal.text]

lemma scrubMatch_eq {u gap rest : Str} {reg : RegisteredValue} {valueId : Nat} {st : ScrubState}
    (hinput : input = u ++ gap ++ reg.value ++ rest) (hcursor : byteLen u = st.cursor)
    (hid : e.lookup valueId = some reg) :
    scrubMatch X ord e input st ⟨st.cursor + byteLen gap,
        st.cursor + byteLen gap + byteLen reg.value, .exact valueId⟩ =
      (dispose X e reg >>= fun d => .ok (st.advance ord ⟨gap, reg, d⟩)) := by
  have hgap : slice input st.cursor (st.cursor + byteLen gap) = .ok gap :=
    slice_eq_ok.mpr ⟨u, reg.value ++ rest, by simp [hinput], hcursor, rfl⟩
  have hspan : slice input (st.cursor + byteLen gap)
      (st.cursor + byteLen gap + byteLen reg.value) = .ok reg.value :=
    slice_eq_ok.mpr ⟨u ++ gap, rest, by simp [hinput], by simp [hcursor], rfl⟩
  unfold scrubMatch
  simp only [hgap, hspan, ok_bind]
  rcases resolve_cases hid with ⟨i, r, rfl, href, hr⟩ | ⟨i, s, rfl, href, hs⟩
  · rw [at?_eq_ok.mpr href, ok_bind]
    dsimp only
    rw [at?_eq_ok.mpr hr, ok_bind]
    exact scrubFpe_eq (List.mem_of_getElem? hr) st gap _
  · rw [at?_eq_ok.mpr href, ok_bind]
    dsimp only
    rw [at?_eq_ok.mpr hs, ok_bind]
    exact scrubSession_eq s st gap _

/-- The match covers the bytes of a registered value. -/
def Located (e : Engine) (input : Str) (m : Match) : Prop :=
  ∃ valueId reg, m.kind = .exact valueId ∧ e.lookup valueId = some reg ∧
    At (utf8 input) (utf8 reg.value) m.start ∧ m.stop = m.start + byteLen reg.value

section

variable {vaultKey : List UInt8} {registered : List RegisteredValue}
  {retired : List FpeRegistration} {sessionMacKey : List UInt8}

lemma BuiltFrom.located (hb : BuiltFrom X vaultKey registered retired sessionMacKey e)
    (hX : X.MatcherLawful) {m : Match} (hm : m ∈ e.exactMatcher.scan input) :
    e.Located input m := by
  obtain ⟨f, hf, rfl⟩ := List.mem_map.mp hm
  obtain ⟨p, hp, hat, hstop⟩ := (hb.leftmostLongest hX input).isMatch f hf
  simp only [List.getElem?_map, Option.map_eq_some_iff] at hp
  obtain ⟨v, ⟨reg, hreg, rfl⟩, rfl⟩ := hp
  exact ⟨f.pattern, reg, rfl, (hb.lookup _).trans hreg, hat, by simpa using hstop⟩

end

/-- A round that does not panic starts its span at a boundary, at the cursor or behind it. -/
lemma boundary_of_scrubMatch {st st' : ScrubState} {m : Match}
    (h : scrubMatch X ord e input st m = .ok st') :
    st.cursor ≤ m.start ∧ IsCharBoundary input m.start := by
  unfold scrubMatch at h
  obtain ⟨gap, hgap, -⟩ := bind_eq_ok.mp h
  obtain ⟨hle, -, hb⟩ := slice_isOk.mp ⟨gap, hgap⟩
  exact ⟨hle, hb⟩

lemma walk_of_foldlM {ms : List Match} (hloc : ∀ m ∈ ms, e.Located input m) {u text tail : Str}
    {st st' : ScrubState} (hinput : input = u ++ text) (hcursor : byteLen u = st.cursor)
    (h : ms.foldlM (scrubMatch X ord e input) st = .ok st')
    (htail : sliceFrom input st'.cursor = .ok tail) :
    ∃ steps, Walk X e st.cursor text ms steps tail ∧
      st' = steps.foldl (ScrubState.advance ord) st := by
  induction ms generalizing u text st with
  | nil =>
    obtain rfl := Except.ok.inj h
    obtain ⟨u', hu', hlen⟩ := sliceFrom_eq_ok.mp htail
    obtain ⟨-, rfl⟩ := split_unique (hinput.symm.trans hu') (hcursor.trans hlen.symm)
    exact ⟨[], .nil, rfl⟩
  | cons m ms ih =>
    rw [List.foldlM_cons, bind_eq_ok] at h
    obtain ⟨st₁, h₁, hrest⟩ := h
    obtain ⟨hle, hb⟩ := boundary_of_scrubMatch h₁
    obtain ⟨valueId, reg, hkind, hid, hat, hstop⟩ := hloc m (by simp)
    obtain ⟨a, rest, hsplit, hstart⟩ := occursAt_of_at hb hat
    have hsame : u ++ text = a ++ (reg.value ++ rest) := by
      rw [← hinput, hsplit, List.append_assoc]
    obtain ⟨gap, rfl, htext⟩ := split_le hsame (by omega)
    have hm : m = ⟨st.cursor + byteLen gap, st.cursor + byteLen gap + byteLen reg.value,
        .exact valueId⟩ := by
      rw [byteLen_append, hcursor] at hstart
      rw [hstart, ← hstop, ← hkind]
    rw [hm, scrubMatch_eq hsplit hcursor hid, bind_eq_ok] at h₁
    obtain ⟨d, hd, hst₁⟩ := h₁
    obtain rfl := Except.ok.inj hst₁
    obtain ⟨steps, hwalk, hst'⟩ := ih (fun m hm => hloc m (by simp [hm])) hsplit
      (by simp [ScrubState.advance, hcursor, Nat.add_assoc]) hrest
    refine ⟨⟨gap, reg, d⟩ :: steps, ?_, hst'⟩
    rw [hm, htext, ← List.append_assoc]
    exact .cons hid hd hwalk

lemma Walk.foldlM {ms : List Match} {steps : List Step} {off : Nat} {u text tail : Str}
    (h : Walk X e off text ms steps tail) (ord : HashOrder) (st : ScrubState)
    (hinput : input = u ++ text) (hcursor : byteLen u = st.cursor) (hoff : off = st.cursor) :
    ms.foldlM (scrubMatch X ord e input) st = .ok (steps.foldl (ScrubState.advance ord) st) ∧
      sliceFrom input (steps.foldl (ScrubState.advance ord) st).cursor = .ok tail := by
  induction h generalizing u st with
  | nil => exact ⟨rfl, sliceFrom_eq_ok.mpr ⟨u, hinput, hcursor⟩⟩
  | @cons off gap text ms steps tail reg d valueId hid hd _ ih =>
    subst hoff
    have hsplit : input = u ++ gap ++ reg.value ++ text := by simp [hinput]
    rw [List.foldlM_cons, scrubMatch_eq hsplit hcursor hid, hd]
    exact ih _ hsplit (by simp [ScrubState.advance, hcursor, Nat.add_assoc]) rfl

lemma foldl_advance (ord : HashOrder) (steps : List Step) (st : ScrubState) (tail : Str) :
    (steps.foldl (ScrubState.advance ord) st).output ++ tail =
        st.output ++ target (steps.map Step.edit) tail ∧
      (steps.foldl (ScrubState.advance ord) st).scrubbedCount = st.scrubbedCount + steps.length ∧
      (steps.foldl (ScrubState.advance ord) st).notices =
        st.notices ++ steps.flatMap (Step.notices st.store.isMap) ∧
      (steps.foldl (ScrubState.advance ord) st).store =
        steps.foldl (Step.store ord) st.store := by
  induction steps generalizing st with
  | nil => simp
  | cons s steps ih =>
    obtain ⟨h1, h2, h3, h4⟩ := ih (st.advance ord s)
    rw [List.foldl_cons, h1, h2, h3, h4]
    refine ⟨by simp [ScrubState.advance, Step.edit], ?_, by simp [ScrubState.advance], rfl⟩
    simp only [ScrubState.advance, List.length_cons]
    omega

def resultOf (stored : Bool) (steps : List Step) (tail : Str) : EngineScrubResult :=
  ⟨target (steps.map Step.edit) tail, steps.length, steps.flatMap (Step.notices stored)⟩

/-- Scrubbing is walking over the matches. -/
theorem scrubImpl_eq_ok (hloc : ∀ m ∈ e.exactMatcher.scan input, e.Located input m)
    {store store' : SessionStore} {res : EngineScrubResult} :
    scrubImpl X ord e input store = .ok (res, store') ↔
      ∃ steps tail, Walk X e 0 input (e.exactMatcher.scan input) steps tail ∧
        res = resultOf store.isMap steps tail ∧ store' = steps.foldl (Step.store ord) store := by
  unfold scrubImpl
  constructor
  · intro h
    obtain ⟨st, hst, hrest⟩ := bind_eq_ok.mp h
    obtain ⟨tail, htail, hres⟩ := bind_eq_ok.mp hrest
    obtain ⟨steps, hwalk, rfl⟩ := walk_of_foldlM hloc (u := []) rfl rfl hst htail
    obtain ⟨h1, h2, h3, h4⟩ := foldl_advance ord steps ⟨[], 0, 0, [], store⟩ tail
    simp only [h1, h2, h3, h4, Except.ok.injEq, Prod.mk.injEq] at hres
    refine ⟨steps, tail, hwalk, ?_, hres.2.symm⟩
    simp [resultOf, ← hres.1]
  · rintro ⟨steps, tail, hwalk, rfl, rfl⟩
    obtain ⟨hfold, htail⟩ := hwalk.foldlM ord ⟨[], 0, 0, [], store⟩
      (show input = [] ++ input from rfl) rfl rfl
    obtain ⟨h1, h2, h3, h4⟩ := foldl_advance ord steps ⟨[], 0, 0, [], store⟩ tail
    rw [hfold, ok_bind, htail, ok_bind, h1, h2, h3, h4]
    simp [resultOf]

lemma scrub_eq_ok (hloc : ∀ m ∈ e.exactMatcher.scan input, e.Located input m)
    {res : EngineScrubResult} :
    scrub X ord e input = .ok res ↔
      ∃ steps tail, Walk X e 0 input (e.exactMatcher.scan input) steps tail ∧
        res = resultOf false steps tail := by
  unfold scrub
  rw [bind_eq_ok]
  constructor
  · rintro ⟨⟨res', store'⟩, hscrub, h⟩
    obtain rfl := Except.ok.inj h
    obtain ⟨steps, tail, hwalk, hres, -⟩ := (scrubImpl_eq_ok hloc).mp hscrub
    exact ⟨steps, tail, hwalk, hres⟩
  · rintro ⟨steps, tail, hwalk, rfl⟩
    exact ⟨_, (scrubImpl_eq_ok hloc).mpr ⟨steps, tail, hwalk, rfl, rfl⟩, rfl⟩

lemma scrubWithSession_eq_ok (hloc : ∀ m ∈ e.exactMatcher.scan input, e.Located input m)
    {session session' : SessionMap} {now : Nat} {res : EngineScrubResult} :
    scrubWithSession X ord e input session now = .ok (res, session') ↔
      ∃ steps tail, Walk X e 0 input (e.exactMatcher.scan input) steps tail ∧
        res = resultOf true steps tail ∧
        session' = steps.foldl (Step.remember ord now) session := by
  unfold scrubWithSession
  rw [bind_eq_ok]
  constructor
  · rintro ⟨⟨res', store'⟩, hscrub, h⟩
    obtain ⟨steps, tail, hwalk, hres, rfl⟩ := (scrubImpl_eq_ok hloc).mp hscrub
    rw [Step.foldl_store_map] at h
    simp only [Except.ok.injEq, Prod.mk.injEq] at h
    exact ⟨steps, tail, hwalk, h.1 ▸ hres, h.2.symm⟩
  · rintro ⟨steps, tail, hwalk, rfl, rfl⟩
    refine ⟨_, (scrubImpl_eq_ok hloc).mpr ⟨steps, tail, hwalk, rfl, rfl⟩, ?_⟩
    rw [Step.foldl_store_map]
    rfl

namespace Walk

variable {off : Nat} {text tail : Str} {ms : List Match} {steps : List Step}

lemma source_eq (h : Walk X e off text ms steps tail) :
    source (steps.map Step.edit) tail = text := by
  induction h with
  | nil => rfl
  | cons _ _ _ ih => simp [Step.edit, ih]

lemma spans_eq (h : Walk X e off text ms steps tail) :
    spans Edit.old off (steps.map Step.edit) = ms.map fun m => (m.start, m.stop) := by
  induction h with
  | nil => rfl
  | cons _ _ _ ih => simp [spans, Step.edit, ih]

lemma disposed (h : Walk X e off text ms steps tail) :
    ∀ s ∈ steps, (∃ valueId, e.lookup valueId = some s.reg) ∧
      dispose X e s.reg = .ok s.disposal := by
  induction h with
  | nil => simp
  | cons hid hd _ ih =>
    intro s hs
    rcases List.mem_cons.mp hs with rfl | hs
    · exact ⟨⟨_, hid⟩, hd⟩
    · exact ih s hs

lemma exists_step (h : Walk X e off text ms steps tail) :
    ∀ m ∈ ms, ∃ s ∈ steps, ∃ valueId, m.kind = .exact valueId ∧
      e.lookup valueId = some s.reg ∧ dispose X e s.reg = .ok s.disposal := by
  induction h with
  | nil => simp
  | cons hid hd _ ih =>
    intro m hm
    rcases List.mem_cons.mp hm with rfl | hm
    · exact ⟨_, List.mem_cons_self, _, rfl, hid, hd⟩
    · obtain ⟨s, hs, h⟩ := ih m hm
      exact ⟨s, by simp [hs], h⟩

lemma length_eq (h : Walk X e off text ms steps tail) : steps.length = ms.length := by
  induction h with
  | nil => rfl
  | cons _ _ _ ih => simp [ih]

end Walk

/-- Matches in order, at boundaries, of registrations that can be disposed of give a walk. -/
lemma exists_walk {ms : List Match} (hloc : ∀ m ∈ ms, e.Located input m)
    (hsorted : ms.Pairwise fun m m' => m.stop ≤ m'.start) {off : Nat} {u text : Str}
    (hoff : ∀ m ∈ ms, off ≤ m.start) (hinput : input = u ++ text) (hu : byteLen u = off)
    (hbound : ∀ m ∈ ms, IsCharBoundary input m.start)
    (hdisp : ∀ m ∈ ms, ∀ valueId reg, m.kind = .exact valueId → e.lookup valueId = some reg →
      ∃ d, dispose X e reg = .ok d) :
    ∃ steps tail, Walk X e off text ms steps tail := by
  induction ms generalizing off u text with
  | nil => exact ⟨[], text, .nil⟩
  | cons m ms ih =>
    obtain ⟨valueId, reg, hkind, hid, hat, hstop⟩ := hloc m (by simp)
    obtain ⟨d, hd⟩ := hdisp m (by simp) valueId reg hkind hid
    obtain ⟨a, rest, hsplit, hstart⟩ := occursAt_of_at (hbound m (by simp)) hat
    have hle := hoff m (by simp)
    have hsame : u ++ text = a ++ (reg.value ++ rest) := by
      rw [← hinput, hsplit, List.append_assoc]
    obtain ⟨gap, rfl, htext⟩ := split_le hsame (by omega)
    rw [byteLen_append, hu] at hstart
    have hm : m = ⟨off + byteLen gap, off + byteLen gap + byteLen reg.value, .exact valueId⟩ := by
      rw [hstart, ← hstop, ← hkind]
    obtain ⟨hhead, htail⟩ := List.pairwise_cons.mp hsorted
    have hoff' : ∀ m' ∈ ms, off + byteLen gap + byteLen reg.value ≤ m'.start := fun m' hm' => by
      have := hhead m' hm'
      rwa [hm] at this
    obtain ⟨steps, tail, hwalk⟩ := ih (fun m hm => hloc m (by simp [hm])) htail hoff' hsplit
      (by simp [hu, Nat.add_assoc]) (fun m hm => hbound m (by simp [hm]))
      (fun m hm => hdisp m (by simp [hm]))
    refine ⟨⟨gap, reg, d⟩ :: steps, tail, ?_⟩
    rw [hm, htext, ← List.append_assoc]
    exact .cons hid hd hwalk

end Engine

end Invisibool
