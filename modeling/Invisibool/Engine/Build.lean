import Invisibool.Engine.Basic

/-!
# What `Engine::new` builds

The two homogeneous lists and the table of references together hold the registered values in
their order, and the matcher searches for exactly these.
-/

namespace Invisibool
open Text Matching

namespace RegisteredValue

def fpe? : RegisteredValue → Option FpeRegistration
  | fpe r => some r
  | sessionMapped _ => none

def session? : RegisteredValue → Option SessionRegistration
  | fpe _ => none
  | sessionMapped s => some s

end RegisteredValue

namespace Engine

def resolve (fpes : List FpeRegistration) (sessions : List SessionRegistration) :
    RegistrationRef → Option RegisteredValue
  | .fpe i => fpes[i]?.map .fpe
  | .session i => sessions[i]?.map .sessionMapped

lemma resolve_append {fpes : List FpeRegistration} {sessions : List SessionRegistration}
    {ref : RegistrationRef} {r : RegisteredValue} (h : resolve fpes sessions ref = some r)
    (fpes' : List FpeRegistration) (sessions' : List SessionRegistration) :
    resolve (fpes ++ fpes') (sessions ++ sessions') ref = some r := by
  cases ref with
  | fpe i =>
    obtain ⟨f, hf, rfl⟩ := Option.map_eq_some_iff.mp h
    simp [resolve, List.getElem?_append_left (List.getElem?_eq_some_iff.mp hf).1, hf]
  | session i =>
    obtain ⟨s, hs, rfl⟩ := Option.map_eq_some_iff.mp h
    simp [resolve, List.getElem?_append_left (List.getElem?_eq_some_iff.mp hs).1, hs]

/-- The parts hold these registrations. -/
structure Parts.Holds (p : Parts) (registered : List RegisteredValue) : Prop where
  fpes : p.fpeRegistered = registered.filterMap RegisteredValue.fpe?
  sessions : p.sessionRegistered = registered.filterMap RegisteredValue.session?
  values : p.valuesForMatcher = registered.map RegisteredValue.value
  refs : List.Forall₂ (fun ref r => resolve p.fpeRegistered p.sessionRegistered ref = some r)
    p.valueIdToRef registered

lemma Parts.Holds.push {p : Parts} {registered : List RegisteredValue} (h : p.Holds registered)
    (r : RegisteredValue) : (p.push r).Holds (registered ++ [r]) := by
  cases r with
  | fpe f =>
    refine ⟨?_, ?_, ?_, List.rel_append (h.refs.imp fun ref r hr => ?_) (.cons ?_ .nil)⟩
    · simp [Parts.push, h.fpes, RegisteredValue.fpe?]
    · simp [Parts.push, h.sessions, RegisteredValue.session?]
    · simp [Parts.push, h.values, RegisteredValue.value]
    · simpa [Parts.push] using resolve_append hr [f] []
    · simp [Parts.push, resolve]
  | sessionMapped s =>
    refine ⟨?_, ?_, ?_, List.rel_append (h.refs.imp fun ref r hr => ?_) (.cons ?_ .nil)⟩
    · simp [Parts.push, h.fpes, RegisteredValue.fpe?]
    · simp [Parts.push, h.sessions, RegisteredValue.session?]
    · simp [Parts.push, h.values, RegisteredValue.value]
    · simpa [Parts.push] using resolve_append hr [] [s]
    · simp [Parts.push, resolve]

lemma Parts.Holds.foldl {p : Parts} {done : List RegisteredValue} (h : p.Holds done)
    (rest : List RegisteredValue) : (rest.foldl Parts.push p).Holds (done ++ rest) := by
  induction rest generalizing p done with
  | nil => simpa using h
  | cons r rest ih => simpa using ih (h.push r)

/-- The registration that a matcher id stands for. -/
def lookup (e : Engine) (valueId : Nat) : Option RegisteredValue :=
  e.valueIdToRef[valueId]?.bind (resolve e.fpeRegistered e.sessionRegistered)

structure BuiltFrom (X : Crates) (vaultKey : List UInt8) (registered : List RegisteredValue)
    (retired : List FpeRegistration) (sessionMacKey : List UInt8) (e : Engine) : Prop where
  fpe : FpeTokenizer.new X vaultKey = .ok e.fpe
  matcher : ExactMatcher.build X (registered.map RegisteredValue.value) = .ok e.exactMatcher
  fpes : e.fpeRegistered = registered.filterMap RegisteredValue.fpe?
  sessions : e.sessionRegistered = registered.filterMap RegisteredValue.session?
  retired : e.retired = retired
  macKey : e.sessionMacKey = sessionMacKey
  lookup : ∀ valueId, e.lookup valueId = registered[valueId]?

variable {X : Crates} {vaultKey : List UInt8} {registered : List RegisteredValue}
  {retired : List FpeRegistration} {sessionMacKey : List UInt8} {e : Engine}

theorem builtFrom_of_new
    (h : Engine.new X vaultKey registered retired sessionMacKey = .ok (.ok e)) :
    BuiltFrom X vaultKey registered retired sessionMacKey e := by
  have hparts : (registered.foldl Parts.push ⟨[], [], [], []⟩).Holds registered := by
    have h0 : Parts.Holds ⟨[], [], [], []⟩ [] := ⟨rfl, rfl, rfl, .nil⟩
    simpa using h0.foldl registered
  unfold Engine.new at h
  dsimp only at h
  split at h
  · simp at h
  · rename_i m hm
    obtain ⟨t, ht, he⟩ := bind_eq_ok.mp h
    obtain rfl := Except.ok.inj (Except.ok.inj he)
    refine ⟨ht, hparts.values ▸ hm, hparts.fpes, hparts.sessions, rfl, rfl, fun valueId => ?_⟩
    -- ids past the end resolve to nothing on either side
    rcases List.forall₂_iff_get.mp hparts.refs with ⟨hlen, hget⟩
    simp only [Engine.lookup]
    by_cases hid : valueId < registered.length
    · have hid' := hlen ▸ hid
      rw [List.getElem?_eq_getElem hid, List.getElem?_eq_getElem hid', Option.bind_some]
      exact hget valueId hid' hid
    · rw [List.getElem?_eq_none (Nat.le_of_not_lt hid),
        List.getElem?_eq_none (hlen ▸ Nat.le_of_not_lt hid), Option.bind_none]

theorem new_isOk (hX : X.HkdfLawful) (vaultKey : List UInt8) (registered : List RegisteredValue)
    (retired : List FpeRegistration) (sessionMacKey : List UInt8) :
    ∃ r, Engine.new X vaultKey registered retired sessionMacKey = .ok r := by
  obtain ⟨t, ht⟩ := FpeTokenizer.new_isOk hX vaultKey
  unfold Engine.new
  dsimp only
  split
  · exact ⟨_, rfl⟩
  · rw [ht]
    exact ⟨_, rfl⟩

namespace BuiltFrom

lemma mem_fpes (h : BuiltFrom X vaultKey registered retired sessionMacKey e)
    {r : FpeRegistration} : r ∈ e.fpeRegistered ↔ .fpe r ∈ registered := by
  rw [h.fpes, List.mem_filterMap]
  constructor
  · rintro ⟨v, hv, hr⟩
    cases v with
    | fpe f => simpa [RegisteredValue.fpe?] using (Option.some.inj hr) ▸ hv
    | sessionMapped s => cases hr
  · exact fun hr => ⟨_, hr, rfl⟩

lemma mem_of_lookup (h : BuiltFrom X vaultKey registered retired sessionMacKey e) {valueId : Nat}
    {r : RegisteredValue} (hr : e.lookup valueId = some r) : r ∈ registered :=
  List.mem_of_getElem? (h.lookup valueId ▸ hr)

lemma key_length (h : BuiltFrom X vaultKey registered retired sessionMacKey e)
    (hX : X.HkdfLawful) : e.fpe.ff1Key.length = 32 := FpeTokenizer.key_length hX h.fpe

theorem leftmostLongest (h : BuiltFrom X vaultKey registered retired sessionMacKey e)
    (hX : X.MatcherLawful) (input : Str) :
    LeftmostLongest ((registered.map RegisteredValue.value).map utf8) (utf8 input) 0 none
      (e.exactMatcher.found input) :=
  ExactMatcher.found_leftmostLongest hX h.matcher input

end BuiltFrom

/-- The engine over the reference crates; their automaton is always built. -/
def reference (registered : List RegisteredValue) (retired : List FpeRegistration)
    (sessionMacKey : List UInt8) : Engine :=
  let p := registered.foldl Parts.push ⟨[], [], [], []⟩
  { fpe := ⟨List.replicate 32 0⟩
    fpeRegistered := p.fpeRegistered
    sessionRegistered := p.sessionRegistered
    retired := retired
    exactMatcher :=
      ⟨if p.valuesForMatcher.isEmpty then none else some (findAll (p.valuesForMatcher.map utf8))⟩
    sessionMacKey := sessionMacKey
    valueIdToRef := p.valueIdToRef }

theorem new_reference (vaultKey : List UInt8) (registered : List RegisteredValue)
    (retired : List FpeRegistration) (sessionMacKey : List UInt8) :
    Engine.new Crates.reference vaultKey registered retired sessionMacKey =
      .ok (.ok (reference registered retired sessionMacKey)) := by
  have hmatcher : ∀ values, ExactMatcher.build Crates.reference values =
      .ok ⟨if values.isEmpty then none else some (findAll (values.map utf8))⟩ := by
    intro values
    cases values with
    | nil => rfl
    | cons v values => rfl
  have hfpe : FpeTokenizer.new Crates.reference vaultKey = .ok ⟨List.replicate 32 0⟩ := rfl
  unfold Engine.new
  dsimp only
  rw [hmatcher]
  dsimp only
  rw [hfpe]
  rfl

end Engine

end Invisibool
