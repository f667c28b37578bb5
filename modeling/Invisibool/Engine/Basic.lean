import Invisibool.Detection.Exact
import Invisibool.Idempotence
import Invisibool.Matching.LeftmostShortest
import Invisibool.Text.Replace
import Invisibool.Tokenizer.Session

/-!
# The engine

`Engine::new`, `scrub`, `scrub_with_session`, `restore` and `restore_with_session`.
-/

namespace Invisibool
open Text Matching

/-- Where to look up the registration of a `value_id`. -/
inductive RegistrationRef
  | fpe (index : Nat)
  | session (index : Nat)
  deriving DecidableEq, Repr

structure Engine where
  fpe : FpeTokenizer
  fpeRegistered : List FpeRegistration
  sessionRegistered : List SessionRegistration
  retired : List FpeRegistration
  exactMatcher : ExactMatcher
  sessionMacKey : List UInt8
  valueIdToRef : List RegistrationRef

/-- Either no session, or a map and the time of the call. -/
inductive SessionStore
  | none
  | map (session : SessionMap) (now : Nat)

def redactionPlaceholder : Str := "[INVISIBOOL_UNRESTORABLE]".toList

inductive ScrubNotice
  | sessionMappedUnrestorable (label : Str) (kind : SessionFakeKind)
  | redactedFormatless (label : Str)
  | redactedInternalFailure (label : Str) (reason : String)
  deriving DecidableEq, Repr

def ScrubNotice.label : ScrubNotice → Str
  | sessionMappedUnrestorable label _ => label
  | redactedFormatless label => label
  | redactedInternalFailure label _ => label

def ScrubNotice.isRedacted : ScrubNotice → Bool
  | sessionMappedUnrestorable _ _ => false
  | redactedFormatless _ => true
  | redactedInternalFailure _ _ => true

structure EngineScrubResult where
  output : Str
  scrubbedCount : Nat
  notices : List ScrubNotice
  deriving DecidableEq, Repr

structure EngineRestoreResult where
  output : Str
  restoredCount : Nat
  deriving DecidableEq, Repr

/-- Store a pair if a session map is attached, and say whether it was. The fake that
`get_or_insert` returns is dropped, as in the source. -/
def SessionStore.store (ord : HashOrder) (store : SessionStore) (real fake : Str) :
    SessionStore × Bool :=
  match store with
  | .none => (.none, false)
  | .map session now => (.map (session.getOrInsert ord real now fake).1 now, true)

namespace Engine

section New

variable (X : Crates)

/-- The registrations of a list, taken apart as `Engine::new` does. -/
structure Parts where
  fpeRegistered : List FpeRegistration
  sessionRegistered : List SessionRegistration
  valueIdToRef : List RegistrationRef
  valuesForMatcher : List Str

/-- One round of the loop of `Engine::new`. -/
def Parts.push (p : Parts) : RegisteredValue → Parts
  | .fpe f =>
    { p with
      valuesForMatcher := p.valuesForMatcher ++ [f.value]
      valueIdToRef := p.valueIdToRef ++ [.fpe p.fpeRegistered.length]
      fpeRegistered := p.fpeRegistered ++ [f] }
  | .sessionMapped s =>
    { p with
      valuesForMatcher := p.valuesForMatcher ++ [s.value]
      valueIdToRef := p.valueIdToRef ++ [.session p.sessionRegistered.length]
      sessionRegistered := p.sessionRegistered ++ [s] }

def new (vaultKey : List UInt8) (registered : List RegisteredValue)
    (retired : List FpeRegistration) (sessionMacKey : List UInt8) :
    Outcome (Except BuildError Engine) :=
  let p := registered.foldl Parts.push ⟨[], [], [], []⟩
  match ExactMatcher.build X p.valuesForMatcher with
  | .error e => .ok (.error e)
  | .ok exactMatcher => do
    let fpe ← FpeTokenizer.new X vaultKey
    .ok (.ok {
      fpe := fpe
      fpeRegistered := p.fpeRegistered
      sessionRegistered := p.sessionRegistered
      retired := retired
      exactMatcher := exactMatcher
      sessionMacKey := sessionMacKey
      valueIdToRef := p.valueIdToRef })

end New

section Scrub

variable (X : Crates) (ord : HashOrder)

def sessionFake (key : List UInt8) (reg : SessionRegistration) : Outcome (Option Str) :=
  match reg.kind with
  | .pii .email => .ok (some (fakeEmail X (utf8 reg.value)))
  | .pii .ipv4 => .ok (some (fakeIpv4 X (utf8 reg.value)))
  | .pii .phone => .ok (some (fakePhone X (utf8 reg.value)))
  | .card => fakeCardVisa16 X (utf8 reg.value) reg.value
  | .formatless => makeMacfake X key reg.value .base62

/-- The variables of the scrub loop. -/
structure ScrubState where
  output : Str
  cursor : Nat
  scrubbedCount : Nat
  notices : List ScrubNotice
  store : SessionStore

def scrubFpe (e : Engine) (fpeReg : FpeRegistration) (candidate : Str) (st : ScrubState) :
    Outcome ScrubState := do
  let ctx : IdempotenceContext := ⟨e.fpeRegistered, e.retired, e.fpe, e.sessionMacKey⟩
  match ← ctx.classify X candidate fpeReg.alphabet with
  | .noOp _ => .ok { st with output := st.output ++ candidate }
  | .scrub =>
    match ← e.fpe.scrub X fpeReg with
    | .ok fake =>
      .ok { st with output := st.output ++ fake, scrubbedCount := st.scrubbedCount + 1 }
    | .error _ =>
      .ok { st with
        output := st.output ++ redactionPlaceholder
        scrubbedCount := st.scrubbedCount + 1
        notices := st.notices ++ [.redactedInternalFailure fpeReg.label
          "FF1 scrub failed at runtime; eligibility was supposed to be validated at registration"] }

def scrubSession (e : Engine) (sessionReg : SessionRegistration) (st : ScrubState) :
    Outcome ScrubState := do
  match ← sessionFake X e.sessionMacKey sessionReg, sessionReg.kind with
  | some fake, _ =>
    let (store, stored) := st.store.store ord sessionReg.value fake
    let st := { st with
      output := st.output ++ fake
      scrubbedCount := st.scrubbedCount + 1
      store := store }
    .ok (if stored then st else
      { st with notices := st.notices ++
          [.sessionMappedUnrestorable sessionReg.label sessionReg.kind] })
  | none, .formatless =>
    .ok { st with
      output := st.output ++ redactionPlaceholder
      scrubbedCount := st.scrubbedCount + 1
      notices := st.notices ++ [.redactedFormatless sessionReg.label] }
  | none, _ =>
    .ok { st with
      output := st.output ++ redactionPlaceholder
      scrubbedCount := st.scrubbedCount + 1
      notices := st.notices ++ [.redactedInternalFailure sessionReg.label
        "session-mapped fake generator returned None (likely a format mismatch in the registered value)"] }

def scrubMatch (e : Engine) (input : Str) (st : ScrubState) (m : Match) : Outcome ScrubState := do
  let gap ← slice input st.cursor m.start
  let st := { st with output := st.output ++ gap, cursor := m.stop }
  let candidate ← slice input m.start m.stop
  match m.kind with
  | .pattern _ => .ok { st with output := st.output ++ candidate }
  | .exact valueId =>
    match ← at? e.valueIdToRef valueId with
    | .fpe idx => do
      let fpeReg ← at? e.fpeRegistered idx
      scrubFpe X e fpeReg candidate st
    | .session idx => do
      let sessionReg ← at? e.sessionRegistered idx
      scrubSession X ord e sessionReg st

def scrubImpl (e : Engine) (input : Str) (store : SessionStore) :
    Outcome (EngineScrubResult × SessionStore) := do
  let st ← (e.exactMatcher.scan input).foldlM (scrubMatch X ord e input) ⟨[], 0, 0, [], store⟩
  let rest ← sliceFrom input st.cursor
  .ok (⟨st.output ++ rest, st.scrubbedCount, st.notices⟩, st.store)

def scrub (e : Engine) (input : Str) : Outcome EngineScrubResult := do
  let r ← scrubImpl X ord e input .none
  .ok r.1

def scrubWithSession (e : Engine) (input : Str) (session : SessionMap) (now : Nat) :
    Outcome (EngineScrubResult × SessionMap) := do
  let r ← scrubImpl X ord e input (.map session now)
  match r.2 with
  | .map session' _ => .ok (r.1, session')
  | .none => .ok (r.1, session)

end Scrub

section Restore

variable (X : Crates)

/-- The search loop over the occurrences of a prefix, from a byte offset. -/
def searchLoop (input : Str) (reg : FpeRegistration) :
    Nat → Nat → List (Nat × Nat) → Outcome (List (Nat × Nat))
  | 0, _, _ => .error .fuel
  | fuel + 1, searchStart, candidates => do
    let suffix ← sliceFrom input searchStart
    match find suffix reg.pfx with
    | none => .ok candidates
    | some pos =>
      let start := searchStart + pos
      let stop := start + byteLen reg.value
      if byteLen input < stop then .ok candidates
      else do
        let body ← slice input (start + byteLen reg.pfx) stop
        let candidates :=
          if byteLen body = byteLen reg.value - byteLen reg.pfx ∧
              body.all reg.alphabet.contains = true
          then candidates ++ [(start, stop)] else candidates
        searchLoop input reg fuel (start + 1) candidates

/-- The candidate spans of every registration. Each round of the search loop moves on by a byte,
so the length of the input bounds their number. -/
def collectCandidates (input : Str) :
    List FpeRegistration → List (Nat × Nat) → Outcome (List (Nat × Nat))
  | [], candidates => .ok candidates
  | reg :: rest, candidates =>
    if byteLen reg.value ≤ byteLen reg.pfx then collectCandidates input rest candidates
    else do
      let candidates ← searchLoop input reg (byteLen input + 1) 0 candidates
      collectCandidates input rest candidates

/-- The variables of the restore walk. -/
structure RestoreState where
  output : Str
  cursor : Nat
  restoredCount : Nat

def restoreSpan (e : Engine) (input : Str) (st : RestoreState) (span : Nat × Nat) :
    Outcome RestoreState :=
  if span.1 < st.cursor then .ok st
  else do
    let gap ← slice input st.cursor span.1
    let candidate ← slice input span.1 span.2
    match ← e.fpe.tryRestore X candidate e.fpeRegistered with
    | some restored =>
      .ok ⟨st.output ++ gap ++ restored, span.2, st.restoredCount + 1⟩
    | none => .ok ⟨st.output ++ gap ++ candidate, span.2, st.restoredCount⟩

/-- `Engine::restore`: `sortDedup` is `sort_unstable` and `dedup`. -/
def restore (e : Engine) (input : Str) : Outcome EngineRestoreResult := do
  let candidates ← collectCandidates input e.fpeRegistered []
  let st ← (sortDedup candidates).foldlM (restoreSpan X e input) ⟨[], 0, 0⟩
  let rest ← sliceFrom input st.cursor
  .ok ⟨st.output ++ rest, st.restoredCount⟩

/-- The variables of the session pass. -/
structure SessionPass where
  working : Str
  restored : Nat
  session : SessionMap

def restoreFake (now : Nat) (st : SessionPass) (fake : Str) : SessionPass :=
  match st.session.restore fake now with
  | (session, none) => { st with session := session }
  | (session, some real) =>
    let count := matchCount st.working fake
    if 0 < count then ⟨replace st.working fake real, st.restored + count, session⟩
    else { st with session := session }

/-- The stored fakes that stand in the input, in iteration order. -/
def candidateFakes (ord : HashOrder) (session : SessionMap) (input : Str) : List Str :=
  ((session.entries ord).filter fun p => contains input p.1).map Prod.fst

def restoreWithSession (ord : HashOrder) (e : Engine) (input : Str) (session : SessionMap)
    (now : Nat) : Outcome (EngineRestoreResult × SessionMap) := do
  let st := (candidateFakes ord session input).foldl (restoreFake now) ⟨input, 0, session⟩
  let ff1 ← e.restore X st.working
  .ok (⟨ff1.output, st.restored + ff1.restoredCount⟩, st.session)

end Restore

end Engine

end Invisibool
