import Invisibool.Clipboard.X11
import Invisibool.System.Transition

/-!
# The slot for server times

`fetch_server_time` as the steps of its callers. A caller claims the slot, asks the server for a
`PropertyNotify`, and waits for the event thread to store the time of it. A request that fails makes
the caller return at once, and the slot is not free again.
-/

namespace Invisibool.Clipboard
open Text Transition

abbrev FetchResult := Except ClipboardError Nat

/-- How far a call of `fetch_server_time` has got. -/
inductive FetchCall
  | notStarted
  | claimed
  | changed
  | waiting
  | returned (result : FetchResult)
  deriving DecidableEq

/-- The call has claimed the slot, and has not returned. -/
def FetchCall.running : FetchCall → Bool
  | claimed => true
  | changed => true
  | waiting => true
  | _ => false

/-- The shared state, and the calls, each of which is made once. -/
structure Fetches (ι : Type) where
  inner : X11Inner
  calls : ι → FetchCall

namespace Fetches

def changeProperty (e : Str) : ClipboardError :=
  .writeFailed ("change_property (ts fetch): ".toList ++ e)

def flush (e : Str) : ClipboardError := .writeFailed ("flush (ts fetch): ".toList ++ e)

def timedOut : ClipboardError :=
  .writeFailed "timed out fetching a server timestamp for SetSelectionOwner".toList

/-- One step: of a call, whose requests may fail, or of the event thread, which may be told of the
property at any time. -/
inductive Act (ι : Type)
  | claim (i : ι)
  | changeProperty (i : ι)
  | failChangeProperty (i : ι) (e : Str)
  | flush (i : ι)
  | failFlush (i : ι) (e : Str)
  | propertyNotify (time : Nat)
  | take (i : ι) (time : Nat)
  | timeOut (i : ι)
  deriving DecidableEq

/-- A request of a call fails. -/
def Act.Fails {ι : Type} : Act ι → Prop
  | failChangeProperty _ _ => True
  | failFlush _ _ => True
  | _ => False

variable {ι : Type}

/-- When a step can be taken. A call that finds its slot filled does not time out. -/
def Enabled (s : Fetches ι) : Act ι → Prop
  | .claim i => s.calls i = .notStarted ∧ s.inner.pendingTimestamp = none
  | .changeProperty i => s.calls i = .claimed
  | .failChangeProperty i _ => s.calls i = .claimed
  | .flush i => s.calls i = .changed
  | .failFlush i _ => s.calls i = .changed
  | .propertyNotify _ => True
  | .take i time => s.calls i = .waiting ∧ s.inner.pendingTimestamp = some (some time)
  | .timeOut i => s.calls i = .waiting ∧ s.inner.pendingTimestamp.join = none

instance (s : Fetches ι) : (a : Act ι) → Decidable (s.Enabled a)
  | .claim _ => inferInstanceAs (Decidable (_ ∧ _))
  | .changeProperty i => inferInstanceAs (Decidable (s.calls i = _))
  | .failChangeProperty i _ => inferInstanceAs (Decidable (s.calls i = _))
  | .flush i => inferInstanceAs (Decidable (s.calls i = _))
  | .failFlush i _ => inferInstanceAs (Decidable (s.calls i = _))
  | .propertyNotify _ => instDecidableTrue
  | .take _ _ => inferInstanceAs (Decidable (_ ∧ _))
  | .timeOut _ => inferInstanceAs (Decidable (_ ∧ _))

variable [DecidableEq ι]

def setCall (s : Fetches ι) (i : ι) (call : FetchCall) : Fetches ι :=
  { s with calls := Function.update s.calls i call }

def setSlot (s : Fetches ι) (slot : Option (Option Nat)) : Fetches ι :=
  { s with inner := { s.inner with pendingTimestamp := slot } }

/-- What a step does, when it can be taken. -/
def next (s : Fetches ι) : Act ι → Fetches ι
  | .claim i => (s.setSlot (some none)).setCall i .claimed
  | .changeProperty i => s.setCall i .changed
  | .failChangeProperty i e => s.setCall i (.returned (.error (changeProperty e)))
  | .flush i => s.setCall i .waiting
  | .failFlush i e => s.setCall i (.returned (.error (flush e)))
  | .propertyNotify time => { s with inner := s.inner.handleTimestampNotify time }
  | .take i time => (s.setSlot none).setCall i (.returned (.ok time))
  | .timeOut i => (s.setSlot none).setCall i (.returned (.error timedOut))

def system : System (Fetches ι) (Act ι) := ⟨Enabled, next⟩

/-- All steps are allowed. -/
def Any (_ : Fetches ι) (_ : Act ι) : Prop := True

/-- The backend as `new` leaves it. -/
structure Initial (s : Fetches ι) : Prop where
  inner : s.inner = ⟨none, 1, 0, none⟩
  calls : ∀ i, s.calls i = .notStarted

section

variable (s₀ : Fetches ι) (acts : List (Act ι)) (i : ι)

/-- The call has claimed the slot. -/
def Claimed : Prop := ∃ before later, acts = before ++ .claim i :: later

/-- Behind the claim of the call, the event thread has stored the time in a slot that waited. -/
def Stored (time : Nat) : Prop := ∃ before between later,
  acts = before ++ .claim i :: between ++ .propertyNotify time :: later ∧
    (system.after s₀ (before ++ .claim i :: between)).inner.pendingTimestamp = some none

/-- Whenever a call returns, the slot is free, and a time that it returns has been stored for it. -/
def Released : Prop := ∀ before a later i result, acts = before ++ a :: later →
  (system.after s₀ before).calls i ≠ .returned result →
  (system.after s₀ (before ++ [a])).calls i = .returned result →
    (system.after s₀ (before ++ [a])).inner.pendingTimestamp = none ∧
      ∀ time, result = .ok time → Stored s₀ before i time

end

variable {s s₀ : Fetches ι} {acts : List (Act ι)} {a : Act ι} {i j : ι}

lemma calls_setCall (s : Fetches ι) (i : ι) (call : FetchCall) (j : ι) :
    (s.setCall i call).calls j = if j = i then call else s.calls j := by
  unfold setCall
  exact Function.update_apply s.calls i call j

omit [DecidableEq ι] in
/-- The event thread fills a slot that waits. -/
lemma slot_propertyNotify (s : Fetches ι) (time : Nat) :
    (s.inner.handleTimestampNotify time).pendingTimestamp =
      s.inner.pendingTimestamp.map (fun slot => slot.or (some time)) := by
  unfold X11Inner.handleTimestampNotify
  cases hslot : s.inner.pendingTimestamp with
  | none => exact hslot
  | some slot =>
    cases slot with
    | none => rfl
    | some _ => exact hslot

/-- A call returns in four ways. -/
lemma returns_of_next {result : FetchResult} (hbefore : s.calls i ≠ .returned result)
    (hafter : (s.next a).calls i = .returned result) :
    (∃ e, a = .failChangeProperty i e ∨ a = .failFlush i e) ∨
      (∃ time, a = .take i time ∧ result = .ok time) ∨
        a = .timeOut i ∧ result = .error timedOut := by
  have hself : ∀ {s' : Fetches ι} {j call}, s'.calls = s.calls →
      (s'.setCall j call).calls i = .returned result → j = i ∧ call = .returned result := by
    intro s' j call hcalls h
    rw [calls_setCall, hcalls] at h
    split_ifs at h with hj
    · exact ⟨hj.symm, h⟩
    · exact absurd h hbefore
  cases a with
  | claim j => cases (hself rfl hafter).2
  | changeProperty j => cases (hself rfl hafter).2
  | failChangeProperty j e =>
    obtain ⟨rfl, -⟩ := hself rfl hafter
    exact .inl ⟨e, .inl rfl⟩
  | flush j => cases (hself rfl hafter).2
  | failFlush j e =>
    obtain ⟨rfl, -⟩ := hself rfl hafter
    exact .inl ⟨e, .inr rfl⟩
  | propertyNotify time => exact absurd hafter hbefore
  | take j time =>
    obtain ⟨rfl, h⟩ := hself rfl hafter
    exact .inr (.inl ⟨time, rfl, (FetchCall.returned.inj h).symm⟩)
  | timeOut j =>
    obtain ⟨rfl, h⟩ := hself rfl hafter
    exact .inr (.inr ⟨rfl, (FetchCall.returned.inj h).symm⟩)

/-- A request that fails is one of a call that runs. It returns, and the slot is as it was. -/
lemma fails_next (he : s.Enabled a) (ha : a.Fails) : ∃ i error, (s.calls i).running ∧
    s.next a = s.setCall i (.returned (.error error)) := by
  cases a with
  | failChangeProperty i e => exact ⟨i, changeProperty e, by rw [he]; rfl, rfl⟩
  | failFlush i e => exact ⟨i, flush e, by rw [he]; rfl, rfl⟩
  | claim _ => cases ha
  | changeProperty _ => cases ha
  | flush _ => cases ha
  | propertyNotify _ => cases ha
  | take _ _ => cases ha
  | timeOut _ => cases ha

/-- The call runs, and no other. -/
structure Sole (s : Fetches ι) (i : ι) : Prop where
  running : (s.calls i).running
  others : ∀ j, (s.calls j).running → j = i

/-- The slot is free, or a call holds it that runs, or it has been lost. -/
inductive Held (s₀ : Fetches ι) (acts : List (Act ι)) (s : Fetches ι) : Prop
  | free : s.inner.pendingTimestamp = none → (∀ i, ¬(s.calls i).running) → Held s₀ acts s
  | waiting (i : ι) : s.Sole i → Claimed acts i → s.inner.pendingTimestamp = some none →
      Held s₀ acts s
  | filled (i : ι) (time : Nat) : s.Sole i → Stored s₀ acts i time →
      s.inner.pendingTimestamp = some (some time) → Held s₀ acts s
  | lost : s.inner.pendingTimestamp ≠ none → (∀ i, ¬(s.calls i).running) → Held s₀ acts s

lemma Held.slot (h : Held s₀ acts s) (hi : (s.calls i).running) :
    s.Sole i ∧ s.inner.pendingTimestamp ≠ none := by
  cases h with
  | free _ hnone => exact absurd hi (hnone i)
  | lost _ hnone => exact absurd hi (hnone i)
  | waiting j hsole _ hslot =>
    obtain rfl := hsole.others i hi
    exact ⟨hsole, hslot ▸ Option.some_ne_none _⟩
  | filled j time hsole _ hslot =>
    obtain rfl := hsole.others i hi
    exact ⟨hsole, hslot ▸ Option.some_ne_none _⟩

/-- A call that goes on with its slot as it is. -/
lemma Sole.goesOn {call : FetchCall} (h : s.Sole i) (hcall : call.running) :
    (s.setCall i call).Sole i where
  running := by rwa [calls_setCall, if_pos rfl]
  others j hj := by
    rw [calls_setCall] at hj
    split_ifs at hj with hji
    · exact hji
    · exact h.others j hj

/-- A call that returns leaves none behind. -/
lemma Sole.returns {result : FetchResult} (h : s.Sole i) :
    ¬((s.setCall i (.returned result)).calls j).running := by
  rw [calls_setCall]
  split_ifs with hji
  · exact Bool.false_ne_true
  · exact fun hj => hji (h.others j hj)

omit [DecidableEq ι] in
lemma Claimed.append (h : Claimed acts i) (a : Act ι) : Claimed (acts ++ [a]) i := by
  obtain ⟨before, later, rfl⟩ := h
  exact ⟨before, later ++ [a], by rw [List.append_assoc, List.cons_append]⟩

lemma Stored.append {time : Nat} (h : Stored s₀ acts i time) (a : Act ι) :
    Stored s₀ (acts ++ [a]) i time := by
  obtain ⟨before, between, later, rfl, hslot⟩ := h
  refine ⟨before, between, later ++ [a], ?_, hslot⟩
  rw [List.append_assoc, List.cons_append]

/-- A call that goes on keeps what it holds. -/
lemma Held.goesOn {call : FetchCall} (h : Held s₀ acts s) (hi : (s.calls i).running)
    (hcall : call.running) (a : Act ι) : Held s₀ (acts ++ [a]) (s.setCall i call) := by
  cases h with
  | free _ hnone => exact absurd hi (hnone i)
  | lost _ hnone => exact absurd hi (hnone i)
  | waiting j hsole hclaimed hslot =>
    obtain rfl := hsole.others i hi
    exact .waiting i (hsole.goesOn hcall) (hclaimed.append a) hslot
  | filled j time hsole hstored hslot =>
    obtain rfl := hsole.others i hi
    exact .filled i time (hsole.goesOn hcall) (hstored.append a) hslot

lemma Held.next (h : Held s₀ acts (system.after s₀ acts))
    (he : (system.after s₀ acts).Enabled a) :
    Held s₀ (acts ++ [a]) ((system.after s₀ acts).next a) := by
  generalize hs : system.after s₀ acts = s at h he
  cases a with
  | claim i =>
    have hnone : ∀ j, ¬(s.calls j).running := by
      intro j hj
      exact (h.slot hj).2 he.2
    refine .waiting i ⟨?_, ?_⟩ ⟨acts, [], rfl⟩ rfl
    · exact (congrArg FetchCall.running ((calls_setCall _ i .claimed i).trans (if_pos rfl))).trans rfl
    · intro j hj
      by_contra hji
      have hcall : ((s.setSlot (some none)).setCall i .claimed).calls j = s.calls j :=
        (calls_setCall _ i .claimed j).trans (if_neg hji)
      exact hnone j (hcall ▸ hj)
  | changeProperty i => exact h.goesOn (by rw [he]; rfl) rfl _
  | flush i => exact h.goesOn (by rw [he]; rfl) rfl _
  | failChangeProperty i e =>
    obtain ⟨hsole, hslot⟩ := h.slot (i := i) (by rw [he]; rfl)
    exact .lost hslot fun j => hsole.returns
  | failFlush i e =>
    obtain ⟨hsole, hslot⟩ := h.slot (i := i) (by rw [he]; rfl)
    exact .lost hslot fun j => hsole.returns
  | propertyNotify time =>
    have hslot := slot_propertyNotify s time
    cases h with
    | free hnone hcalls => exact .free (by rw [hnone] at hslot; exact hslot) hcalls
    | lost hsome hcalls =>
      refine .lost (fun hnone => hsome ?_) hcalls
      exact Option.map_eq_none_iff.mp (hslot.symm.trans hnone)
    | waiting i hsole hclaimed hnone =>
      obtain ⟨before, later, rfl⟩ := hclaimed
      rw [hnone] at hslot
      refine .filled i time ⟨hsole.running, hsole.others⟩ ⟨before, later, [], rfl, ?_⟩ hslot
      rw [hs]
      exact hnone
    | filled i time' hsole hstored hsome =>
      rw [hsome] at hslot
      exact .filled i time' ⟨hsole.running, hsole.others⟩ (hstored.append _) hslot
  | take i time =>
    obtain ⟨hsole, -⟩ := h.slot (i := i) (by rw [he.1]; rfl)
    exact .free rfl fun j => hsole.returns
  | timeOut i =>
    obtain ⟨hsole, -⟩ := h.slot (i := i) (by rw [he.1]; rfl)
    exact .free rfl fun j => hsole.returns

theorem Initial.held (h₀ : s₀.Initial) (hrun : system.Runs Any s₀ acts) :
    Held s₀ acts (system.after s₀ acts) := by
  refine hrun.history (motive := fun acts => Held s₀ acts (system.after s₀ acts)) ?_ ?_
  · refine .free (by rw [System.after_nil, h₀.inner]) ?_
    intro i
    rw [System.after_nil, h₀.calls]
    exact Bool.false_ne_true
  · intro acts a _ h he _
    rw [System.after_append]
    exact h.next he

/-- The slot is free whenever a call returns, and what it returns has been stored for it, exactly if
no request of a call fails. -/
theorem released_iff (h₀ : s₀.Initial) (hrun : system.Runs Any s₀ acts) :
    Released s₀ acts ↔ ∀ a ∈ acts, ¬a.Fails := by
  constructor
  · intro h a ha hfails
    obtain ⟨before, later, rfl⟩ := List.append_of_mem ha
    obtain ⟨hbefore, he, -⟩ := hrun.split
    obtain ⟨i, error, hi, hnext⟩ := fails_next he hfails
    have hslot := ((h₀.held hbefore).slot hi).2
    have hrunning : (system.after s₀ before).calls i ≠ .returned (.error error) := by
      intro hreturned
      rw [hreturned] at hi
      cases hi
    have hafter : system.after s₀ (before ++ [a]) =
        (system.after s₀ before).setCall i (.returned (.error error)) :=
      (System.after_concat a).trans hnext
    have hfree := (h before a later i (.error error) rfl hrunning
      (by rw [hafter, calls_setCall, if_pos rfl])).1
    rw [hafter] at hfree
    exact hslot hfree
  · rintro h before a later i result rfl hbefore hafter
    obtain ⟨hrun', he, -⟩ := hrun.split
    have hlast : system.after s₀ (before ++ [a]) = (system.after s₀ before).next a :=
      System.after_concat a
    rw [hlast] at hafter ⊢
    have hheld := h₀.held hrun'
    obtain ⟨e, rfl | rfl⟩ | ⟨time, rfl, rfl⟩ | ⟨rfl, rfl⟩ := returns_of_next hbefore hafter
    · exact absurd trivial (h _ (List.mem_append_right _ List.mem_cons_self))
    · exact absurd trivial (h _ (List.mem_append_right _ List.mem_cons_self))
    · refine ⟨rfl, ?_⟩
      rintro _ ⟨⟩
      obtain ⟨hi, hfilled⟩ := he
      have hrunning : ((system.after s₀ before).calls i).running := by
        rw [hi]
        rfl
      cases hheld with
      | free _ hnone => exact absurd hrunning (hnone i)
      | lost _ hnone => exact absurd hrunning (hnone i)
      | waiting j _ _ hslot => cases hslot.symm.trans hfilled
      | filled j time' hsole hstored hslot =>
        obtain rfl := hsole.others i hrunning
        cases hslot.symm.trans hfilled
        exact hstored
    · exact ⟨rfl, nofun⟩

/-- Nobody runs who could free the slot. -/
structure Lost (s : Fetches ι) : Prop where
  slot : s.inner.pendingTimestamp ≠ none
  calls : ∀ i, ¬(s.calls i).running

lemma Lost.next (h : s.Lost) (he : s.Enabled a) : (s.next a).Lost := by
  have hrunning : ∀ {i call}, s.calls i = call → call.running = true → False := by
    rintro i call rfl hi
    exact h.calls i hi
  cases a with
  | claim i => exact absurd he.2 h.slot
  | propertyNotify time =>
    refine ⟨fun hnone => h.slot ?_, h.calls⟩
    exact Option.map_eq_none_iff.mp ((slot_propertyNotify s time).symm.trans hnone)
  | changeProperty i => exact (hrunning he rfl).elim
  | failChangeProperty i e => exact (hrunning he rfl).elim
  | flush i => exact (hrunning he rfl).elim
  | failFlush i e => exact (hrunning he rfl).elim
  | take i time => exact (hrunning he.1 rfl).elim
  | timeOut i => exact (hrunning he.1 rfl).elim

/-- Once a request has failed, the slot is never free again, and no call claims it. -/
theorem waits_for_ever {before later : List (Act ι)} (h₀ : s₀.Initial)
    (hrun : system.Runs Any s₀ (before ++ a :: later)) (ha : a.Fails) :
    (system.after s₀ (before ++ a :: later)).Lost := by
  obtain ⟨hbefore, he, -, hlater⟩ := System.runs_append.mp hrun
  obtain ⟨i, error, hi, hnext⟩ := fails_next he ha
  obtain ⟨hsole, hslot⟩ := (h₀.held hbefore).slot hi
  have hlost : (system.next (system.after s₀ before) a).Lost := by
    change ((system.after s₀ before).next a).Lost
    rw [hnext]
    exact ⟨hslot, fun j => hsole.returns⟩
  rw [System.after_append, System.after_cons]
  refine invariant_of_step ?_ hlost hlater.reaches
  rintro s _ hs ⟨a, he, -, rfl⟩
  exact hs.next he

/-- Two threads that ask for a time. -/
def twoFetches : Fetches Bool := ⟨⟨none, 1, 0, none⟩, fun _ => .notStarted⟩

lemma initial_twoFetches : twoFetches.Initial := ⟨rfl, fun _ => rfl⟩

instance (s : Fetches ι) (a : Act ι) : Decidable (system.Enabled s a) :=
  inferInstanceAs (Decidable (s.Enabled a))

instance (s : Fetches ι) (a : Act ι) : Decidable (Any s a) := instDecidableTrue

/-- The first call times out, its `PropertyNotify` arrives for the second, and after that the one
of the second. -/
def late : List (Act Bool) :=
  [.claim false, .changeProperty false, .flush false, .timeOut false, .claim true,
    .propertyNotify 7, .changeProperty true, .flush true, .propertyNotify 9, .take true 7]

theorem released_iff_late : Released twoFetches late ↔ ∀ a ∈ late, ¬a.Fails :=
  released_iff initial_twoFetches (by decide)

/-- The call returns when its request has failed, and its slot is not free. -/
theorem not_released : system.Runs Any twoFetches
      [.claim false, .failChangeProperty false "broken pipe".toList] ∧
    ¬Released twoFetches [.claim false, .failChangeProperty false "broken pipe".toList] := by
  refine ⟨by decide, fun h => ?_⟩
  have hfree := (h [.claim false] (.failChangeProperty false "broken pipe".toList) [] false
    (.error (changeProperty "broken pipe".toList)) rfl (by decide) (by decide)).1
  cases hfree

end Fetches

end Invisibool.Clipboard
