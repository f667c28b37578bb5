import Invisibool.Engine.Build
import Invisibool.Text.Edit

/-!
# What a restore does

The search loops collect the windows that have the profile of a registration, the walk takes the
leftmost-shortest of them, and each one taken is tried against all registrations.
-/

namespace Invisibool
open Text Matching

namespace Engine

/-- The span is inside the text, starts with the prefix of the registration, and holds symbols of
its alphabet behind it. -/
def IsWindow (input : Str) (reg : FpeRegistration) (span : Nat × Nat) : Prop :=
  ∃ u body w, input = u ++ (reg.pfx ++ body) ++ w ∧ byteLen u = span.1 ∧
    span.2 = span.1 + byteLen reg.value ∧ byteLen (reg.pfx ++ body) = byteLen reg.value ∧
    ∀ c ∈ body, c ∈ reg.alphabet.chars

def Sliceable (input : Str) (reg : FpeRegistration) (i : Nat) : Prop :=
  OccursAt input reg.pfx i → i + byteLen reg.value ≤ byteLen input →
    IsCharBoundary input (i + 1) ∧ IsCharBoundary input (i + byteLen reg.value)

/-- One window that the walk takes, with the text between it and the last one. -/
structure Visit where
  gap : Str
  candidate : Str
  restored : Option Str

def Visit.edit (v : Visit) : Edit := ⟨v.gap, v.candidate, v.restored.getD v.candidate⟩

def RestoreState.advance (st : RestoreState) (v : Visit) : RestoreState where
  output := st.output ++ v.gap ++ v.restored.getD v.candidate
  cursor := st.cursor + byteLen v.gap + byteLen v.candidate
  restoredCount := st.restoredCount + (if v.restored.isSome then 1 else 0)

/-- The visits over a text that starts at a byte offset, one for each window. -/
inductive Visits (X : Crates) (e : Engine) :
    Nat → Str → List (Nat × Nat) → List Visit → Str → Prop
  | nil {off tail} : Visits X e off tail [] [] tail
  | cons {off gap candidate text restored ws vs tail} :
      e.fpe.tryRestore X candidate e.fpeRegistered = .ok restored →
      Visits X e (off + byteLen gap + byteLen candidate) text ws vs tail →
      Visits X e off (gap ++ candidate ++ text)
        ((off + byteLen gap, off + byteLen gap + byteLen candidate) :: ws)
        (⟨gap, candidate, restored⟩ :: vs) tail

variable {input : Str} {reg : FpeRegistration}

lemma IsWindow.occursAt {span : Nat × Nat} (h : IsWindow input reg span) :
    OccursAt input reg.pfx span.1 := by
  obtain ⟨u, body, w, rfl, hu, -⟩ := h
  exact ⟨u, body ++ w, by simp, hu⟩

lemma IsWindow.le {span : Nat × Nat} (h : IsWindow input reg span) :
    span.1 + byteLen reg.value ≤ byteLen input := by
  obtain ⟨u, body, w, rfl, hu, hstop, hlen, -⟩ := h
  rw [byteLen_append, byteLen_append, hlen, hu]
  omega

/-! ### The search loop -/

/-- Occurrences in what is left of the text are the later occurrences. -/
lemma occursAt_append {u s p : Str} {i : Nat} :
    OccursAt s p i ↔ OccursAt (u ++ s) p (byteLen u + i) := by
  constructor
  · rintro ⟨a, b, rfl, rfl⟩
    exact ⟨u ++ a, b, by simp, by simp⟩
  · rintro ⟨a, b, hab, ha⟩
    rw [List.append_assoc] at hab
    obtain ⟨g, rfl, rfl⟩ := split_le hab (by omega)
    rw [byteLen_append] at ha
    exact ⟨g, b, by simp, by omega⟩

/-- The first occurrence at or behind a boundary, if there is one. -/
lemma find_suffix {u suffix p : Str} (hinput : input = u ++ suffix) :
    (find suffix p = none → ∀ i, byteLen u ≤ i → ¬ OccursAt input p i) ∧
    ∀ pos, find suffix p = some pos → OccursAt input p (byteLen u + pos) ∧
      ∀ i, byteLen u ≤ i → OccursAt input p i → byteLen u + pos ≤ i := by
  subst hinput
  have hshift : ∀ i, byteLen u ≤ i → OccursAt (u ++ suffix) p i →
      OccursAt suffix p (i - byteLen u) := by
    intro i hi hocc
    rw [occursAt_append (u := u)]
    rwa [Nat.add_sub_cancel' hi]
  constructor
  · intro hnone i hi hocc
    exact find_eq_none.mp hnone _ (hshift i hi hocc)
  · intro pos hpos
    obtain ⟨hocc, hmin⟩ := find_eq_some hpos
    refine ⟨occursAt_append.mp hocc, fun i hi hocc' => ?_⟩
    have := hmin _ (hshift i hi hocc')
    omega

lemma isWindow_iff_body {u body w : Str} {start : Nat}
    (hinput : input = u ++ reg.pfx ++ body ++ w) (hu : byteLen u = start)
    (hlen : byteLen reg.pfx + byteLen body = byteLen reg.value) :
    (byteLen body = byteLen reg.value - byteLen reg.pfx ∧
      body.all reg.alphabet.contains = true) ↔
    IsWindow input reg (start, start + byteLen reg.value) := by
  have hall : body.all reg.alphabet.contains = true ↔ ∀ c ∈ body, c ∈ reg.alphabet.chars := by
    simp [List.all_eq_true, Alphabet.contains_iff]
  rw [hall]
  constructor
  · rintro ⟨-, hmem⟩
    exact ⟨u, body, w, by simp [hinput], hu, rfl, by rw [byteLen_append, hlen], hmem⟩
  · rintro ⟨u', body', w', hinput', hu', -, hlen', hmem⟩
    refine ⟨by omega, ?_⟩
    have h1 : u ++ (reg.pfx ++ body ++ w) = u' ++ (reg.pfx ++ body' ++ w') := by
      simpa [hinput] using hinput'
    obtain ⟨rfl, h2⟩ := split_unique h1 (hu.trans hu'.symm)
    obtain ⟨h3, -⟩ := split_unique h2 (by rw [byteLen_append, hlen, hlen'])
    rwa [List.append_cancel_left h3]

/-- The first slice of a round needs the start of the search to be a boundary. -/
lemma boundary_of_searchLoop {fuel s : Nat} {cs cs' : List (Nat × Nat)}
    (h : searchLoop input reg fuel s cs = .ok cs') : IsCharBoundary input s := by
  cases fuel with
  | zero => cases h
  | succ fuel =>
    rw [searchLoop, bind_eq_ok] at h
    obtain ⟨suffix, hsuffix, -⟩ := h
    obtain ⟨u, hu, hlen⟩ := sliceFrom_eq_ok.mp hsuffix
    exact ⟨u, suffix, hu, hlen⟩

/-- One round: either no occurrence of the prefix leaves room for a value, or the first one does,
and the search goes on behind it if the slices are at boundaries. -/
lemma searchLoop_cases (hle : byteLen reg.pfx ≤ byteLen reg.value) {s : Nat}
    (hs : IsCharBoundary input s) (fuel : Nat) (cs : List (Nat × Nat)) :
    (searchLoop input reg (fuel + 1) s cs = .ok cs ∧
      ∀ i, s ≤ i → OccursAt input reg.pfx i → byteLen input < i + byteLen reg.value) ∨
    ∃ start, s ≤ start ∧ OccursAt input reg.pfx start ∧
      start + byteLen reg.value ≤ byteLen input ∧
      (∀ i, s ≤ i → OccursAt input reg.pfx i → start ≤ i) ∧
      ((¬ IsCharBoundary input (start + byteLen reg.value) ∧
          ∀ cs', searchLoop input reg (fuel + 1) s cs ≠ .ok cs') ∨
        (IsCharBoundary input (start + byteLen reg.value) ∧ ∃ cs₁,
          searchLoop input reg (fuel + 1) s cs = searchLoop input reg fuel (start + 1) cs₁ ∧
          ∀ p, p ∈ cs₁ ↔ p ∈ cs ∨ (p = (start, start + byteLen reg.value) ∧
            IsWindow input reg p))) := by
  obtain ⟨u, suffix, hinput, rfl⟩ := hs
  have hsuffix : sliceFrom input (byteLen u) = .ok suffix :=
    sliceFrom_eq_ok.mpr ⟨u, hinput, rfl⟩
  obtain ⟨hnone, hsome⟩ := find_suffix (p := reg.pfx) hinput
  rw [searchLoop, hsuffix, ok_bind]
  cases hfind : find suffix reg.pfx with
  | none => exact .inl ⟨rfl, fun i hi hocc => absurd hocc (hnone hfind i hi)⟩
  | some pos =>
    obtain ⟨hocc, hmin⟩ := hsome pos hfind
    dsimp only
    by_cases hroom : byteLen input < byteLen u + pos + byteLen reg.value
    · rw [if_pos hroom]
      refine .inl ⟨rfl, fun i hi hocc' => ?_⟩
      have := hmin i hi hocc'
      omega
    · rw [if_neg hroom]
      refine .inr ⟨byteLen u + pos, by omega, hocc, by omega, hmin, ?_⟩
      obtain ⟨a, b, hab, ha⟩ := hocc
      by_cases hstop : IsCharBoundary input (byteLen u + pos + byteLen reg.value)
      · obtain ⟨a', w, haw, ha'⟩ := hstop
        have hsame : a ++ reg.pfx ++ b = a' ++ w := hab.symm.trans haw
        obtain ⟨body, rfl, rfl⟩ := split_le hsame (by rw [byteLen_append]; omega)
        simp only [byteLen_append] at ha'
        have hlen : byteLen reg.pfx + byteLen body = byteLen reg.value := by omega
        have hbody : slice input (byteLen u + pos + byteLen reg.pfx)
            (byteLen u + pos + byteLen reg.value) = .ok body :=
          slice_eq_ok.mpr ⟨a ++ reg.pfx, w, haw, by simp [ha], by omega⟩
        refine .inr ⟨⟨a ++ reg.pfx ++ body, w, haw, by simp only [byteLen_append]; omega⟩, ?_⟩
        rw [hbody, ok_bind]
        refine ⟨_, rfl, fun p => ?_⟩
        have hwindow := isWindow_iff_body haw ha hlen
        split
        · rename_i hprofile
          rw [List.mem_append, List.mem_singleton]
          constructor
          · rintro (hp | rfl)
            · exact .inl hp
            · exact .inr ⟨rfl, hwindow.mp hprofile⟩
          · rintro (hp | ⟨hp, -⟩)
            · exact .inl hp
            · exact .inr hp
        · rename_i hprofile
          constructor
          · exact .inl
          · rintro (hp | ⟨rfl, hp⟩)
            · exact hp
            · exact absurd (hwindow.mpr hp) hprofile
      · refine .inl ⟨hstop, fun cs' h => ?_⟩
        obtain ⟨body, hbody, -⟩ := bind_eq_ok.mp h
        exact hstop (slice_isOk.mp ⟨body, hbody⟩).2.2

/-- The search ends without a panic exactly when all its slices are at boundaries. -/
theorem searchLoop_isOk (hle : byteLen reg.pfx ≤ byteLen reg.value) {fuel s : Nat}
    (hfuel : byteLen input < s + fuel) (cs : List (Nat × Nat)) :
    (∃ cs', searchLoop input reg fuel s cs = .ok cs') ↔
      IsCharBoundary input s ∧ ∀ i, s ≤ i → Sliceable input reg i := by
  induction fuel generalizing s cs with
  | zero =>
    constructor
    · rintro ⟨cs', h⟩
      cases h
    · rintro ⟨hs, -⟩
      have := hs.le
      omega
  | succ fuel ih =>
    by_cases hs : IsCharBoundary input s
    · simp only [hs, true_and]
      rcases searchLoop_cases hle hs fuel cs with ⟨hok, hnone⟩ |
        ⟨start, hstart, hocc, hroom, hmin, ⟨hstop, herr⟩ | ⟨hstop, cs₁, hstep, -⟩⟩
      · refine ⟨fun _ i hi hocc hle' => ?_, fun _ => ⟨cs, hok⟩⟩
        have := hnone i hi hocc
        omega
      · refine ⟨fun ⟨cs', h⟩ => absurd h (herr cs'), fun hall => ?_⟩
        exact absurd (hall start hstart hocc hroom).2 hstop
      · rw [hstep, ih (by omega)]
        constructor
        · rintro ⟨hnext, hall⟩ i hi hocc' hroom'
          rcases Nat.lt_or_ge start i with hlt | hge
          · exact hall i hlt hocc' hroom'
          · obtain rfl : i = start := by
              have := hmin i hi hocc'
              omega
            exact ⟨hnext, hstop⟩
        · intro hall
          exact ⟨(hall start hstart hocc hroom).1, fun i hi => hall i (by omega)⟩
    · constructor
      · rintro ⟨cs', h⟩
        exact absurd (boundary_of_searchLoop h) hs
      · rintro ⟨h, -⟩
        exact absurd h hs

theorem mem_searchLoop (hle : byteLen reg.pfx ≤ byteLen reg.value) {fuel s : Nat}
    {cs cs' : List (Nat × Nat)} (h : searchLoop input reg fuel s cs = .ok cs') (p : Nat × Nat) :
    p ∈ cs' ↔ p ∈ cs ∨ (s ≤ p.1 ∧ IsWindow input reg p) := by
  induction fuel generalizing s cs with
  | zero => cases h
  | succ fuel ih =>
    rcases searchLoop_cases hle (boundary_of_searchLoop h) fuel cs with ⟨hok, hnone⟩ |
      ⟨start, hstart, -, -, hmin, ⟨-, herr⟩ | ⟨-, cs₁, hstep, hcs₁⟩⟩
    · rw [hok] at h
      obtain rfl := Except.ok.inj h
      refine ⟨.inl, ?_⟩
      rintro (hp | ⟨hs, hwin⟩)
      · exact hp
      · have := hnone p.1 hs hwin.occursAt
        have := hwin.le
        omega
    · exact absurd h (herr cs')
    · rw [hstep] at h
      rw [ih h, hcs₁]
      constructor
      · rintro ((hp | ⟨rfl, hwin⟩) | ⟨hs, hwin⟩)
        · exact .inl hp
        · exact .inr ⟨hstart, hwin⟩
        · exact .inr ⟨by omega, hwin⟩
      · rintro (hp | ⟨hs, hwin⟩)
        · exact .inl (.inl hp)
        · have := hmin p.1 hs hwin.occursAt
          rcases Nat.lt_or_ge start p.1 with hlt | hge
          · exact .inr ⟨hlt, hwin⟩
          · have hp1 : p.1 = start := by omega
            have hp2 : p = (start, start + byteLen reg.value) := by
              obtain ⟨-, -, -, -, -, hstop, -⟩ := hwin
              apply Prod.ext hp1
              rw [hstop, hp1]
            exact .inl (.inr ⟨hp2, hwin⟩)

/-! ### All registrations -/

theorem collectCandidates_isOk {regs : List FpeRegistration} (cs : List (Nat × Nat)) :
    (∃ cs', collectCandidates input regs cs = .ok cs') ↔
      ∀ reg ∈ regs, byteLen reg.pfx < byteLen reg.value → ∀ i, Sliceable input reg i := by
  induction regs generalizing cs with
  | nil => exact ⟨by simp, fun _ => ⟨cs, rfl⟩⟩
  | cons reg rest ih =>
    rw [collectCandidates]
    split
    · rename_i hle
      rw [ih]
      constructor
      · intro hall reg' hreg' hlt
        rcases List.mem_cons.mp hreg' with rfl | hreg'
        · omega
        · exact hall reg' hreg' hlt
      · exact fun hall reg' hreg' => hall reg' (by simp [hreg'])
    · rename_i hlt
      have hfuel : byteLen input < 0 + (byteLen input + 1) := by omega
      have hsearch := searchLoop_isOk (Nat.le_of_not_le hlt) hfuel cs
      have hzero : IsCharBoundary input 0 := ⟨[], input, rfl, rfl⟩
      simp only [hzero, true_and, Nat.zero_le, forall_const] at hsearch
      constructor
      · rintro ⟨cs', h⟩ reg' hreg' hlt'
        obtain ⟨cs₁, h₁, hrest⟩ := bind_eq_ok.mp h
        rcases List.mem_cons.mp hreg' with rfl | hreg'
        · exact hsearch.mp ⟨cs₁, h₁⟩
        · exact (ih cs₁).mp ⟨cs', hrest⟩ reg' hreg' hlt'
      · intro hall
        obtain ⟨cs₁, h₁⟩ := hsearch.mpr (hall reg (by simp) (by omega))
        obtain ⟨cs', h'⟩ := (ih cs₁).mpr fun reg' hreg' => hall reg' (by simp [hreg'])
        exact ⟨cs', bind_eq_ok.mpr ⟨cs₁, h₁, h'⟩⟩

theorem mem_collectCandidates {regs : List FpeRegistration} {cs cs' : List (Nat × Nat)}
    (h : collectCandidates input regs cs = .ok cs') (p : Nat × Nat) :
    p ∈ cs' ↔ p ∈ cs ∨
      ∃ reg ∈ regs, byteLen reg.pfx < byteLen reg.value ∧ IsWindow input reg p := by
  induction regs generalizing cs with
  | nil =>
    obtain rfl := Except.ok.inj h
    simp
  | cons reg rest ih =>
    rw [collectCandidates] at h
    split at h
    · rename_i hle
      rw [ih h]
      simp only [List.mem_cons, exists_eq_or_imp]
      refine or_congr_right ⟨.inr, ?_⟩
      rintro (⟨hlt, -⟩ | hrest)
      · omega
      · exact hrest
    · rename_i hlt
      obtain ⟨cs₁, h₁, hrest⟩ := bind_eq_ok.mp h
      rw [ih hrest, mem_searchLoop (by omega) h₁, or_assoc]
      simp only [List.mem_cons, exists_eq_or_imp, Nat.zero_le, true_and]
      apply or_congr_right
      apply or_congr_left
      exact ⟨fun hwin => ⟨by omega, hwin⟩, fun hwin => hwin.2⟩

/-! ### The walk -/

section Walk

variable {X : Crates} {e : Engine}

/-- Some registration's window, of a value that is more than its prefix. -/
def IsCandidate (input : Str) (regs : List FpeRegistration) (w : Nat × Nat) : Prop :=
  ∃ reg ∈ regs, byteLen reg.pfx < byteLen reg.value ∧ IsWindow input reg w

lemma IsCandidate.split {regs : List FpeRegistration} {w : Nat × Nat}
    (h : IsCandidate input regs w) : ∃ a candidate b, input = a ++ candidate ++ b ∧
      byteLen a = w.1 ∧ w.2 = w.1 + byteLen candidate := by
  obtain ⟨reg, -, -, u, body, b, hinput, hu, hstop, hlen, -⟩ := h
  exact ⟨u, reg.pfx ++ body, b, hinput, hu, by rw [hstop, hlen]⟩

lemma IsCandidate.lt {regs : List FpeRegistration} {w : Nat × Nat}
    (h : IsCandidate input regs w) : w.1 < w.2 := by
  obtain ⟨reg, -, hpos, -, -, -, -, -, hstop, -⟩ := h
  omega

lemma foldlM_restoreSpan (hX : X.Ff1Lawful) (e : Engine) {regs : List FpeRegistration}
    {ws : List (Nat × Nat)} (hws : ∀ w ∈ ws, IsCandidate input regs w) {u text : Str}
    (st : RestoreState) (hinput : input = u ++ text) (hcursor : byteLen u = st.cursor) :
    ∃ vs tail, Visits X e st.cursor text (keep st.cursor ws) vs tail ∧
      ws.foldlM (restoreSpan X e input) st = .ok (vs.foldl RestoreState.advance st) ∧
      sliceFrom input (vs.foldl RestoreState.advance st).cursor = .ok tail := by
  induction ws generalizing u text st with
  | nil =>
    exact ⟨[], text, .nil, rfl, sliceFrom_eq_ok.mpr ⟨u, hinput, hcursor⟩⟩
  | cons w ws ih =>
    have hws' : ∀ w' ∈ ws, IsCandidate input regs w' := fun w' hw' => hws w' (by simp [hw'])
    rw [List.foldlM_cons, keep]
    by_cases hlt : w.1 < st.cursor
    · rw [restoreSpan, if_pos hlt, if_pos hlt, ok_bind]
      exact ih hws' _ hinput hcursor
    · obtain ⟨a, candidate, b, hsplit, hstart, hstop⟩ := (hws w (by simp)).split
      have hsame : u ++ text = a ++ (candidate ++ b) := by
        rw [← hinput, hsplit, List.append_assoc]
      obtain ⟨gap, rfl, htext⟩ := split_le hsame (by omega)
      rw [byteLen_append, hcursor] at hstart
      obtain ⟨restored, hrestored⟩ := e.fpe.tryRestore_isOk hX candidate e.fpeRegistered
      have hgap : slice input st.cursor w.1 = .ok gap :=
        slice_eq_ok.mpr ⟨u, candidate ++ b, by simp [hsplit], hcursor, hstart⟩
      have hcand : slice input w.1 w.2 = .ok candidate :=
        slice_eq_ok.mpr ⟨u ++ gap, b, hsplit, by rw [byteLen_append, hcursor, hstart], hstop.symm⟩
      have hstep : restoreSpan X e input st w =
          .ok (st.advance ⟨gap, candidate, restored⟩) := by
        rw [restoreSpan, if_neg hlt, hgap, ok_bind, hcand, ok_bind, hrestored, ok_bind, hstop,
          ← hstart]
        cases restored <;> rfl
      obtain ⟨vs, tail, hvisits, hfold, htail⟩ := ih hws' (u := u ++ gap ++ candidate)
        (st.advance ⟨gap, candidate, restored⟩) hsplit
        (by simp [RestoreState.advance, hcursor, Nat.add_assoc])
      have hw : w = (st.cursor + byteLen gap, st.cursor + byteLen gap + byteLen candidate) :=
        Prod.ext hstart.symm (by rw [hstop, ← hstart])
      refine ⟨⟨gap, candidate, restored⟩ :: vs, tail, ?_, by rw [hstep]; exact hfold, htail⟩
      rw [if_neg hlt, htext, ← List.append_assoc, hw]
      exact .cons hrestored hvisits

lemma foldl_restoreAdvance (vs : List Visit) (st : RestoreState) (tail : Str) :
    (vs.foldl RestoreState.advance st).output ++ tail =
        st.output ++ target (vs.map Visit.edit) tail ∧
      (vs.foldl RestoreState.advance st).restoredCount =
        st.restoredCount + vs.countP fun v => v.restored.isSome := by
  induction vs generalizing st with
  | nil => simp
  | cons v vs ih =>
    obtain ⟨h1, h2⟩ := ih (st.advance v)
    rw [List.foldl_cons, h1, h2]
    refine ⟨by simp [RestoreState.advance, Visit.edit], ?_⟩
    rw [List.countP_cons]
    simp only [RestoreState.advance]
    omega

def restoreResultOf (vs : List Visit) (tail : Str) : EngineRestoreResult :=
  ⟨target (vs.map Visit.edit) tail, vs.countP fun v => v.restored.isSome⟩

lemma mem_sorted_iff {cs : List (Nat × Nat)} {regs : List FpeRegistration}
    (hcs : collectCandidates input regs [] = .ok cs) (w : Nat × Nat) :
    w ∈ sortDedup cs ↔ IsCandidate input regs w := by
  rw [mem_sortDedup, mem_collectCandidates hcs]
  simp only [List.not_mem_nil, false_or]
  rfl

lemma leftmostShortest_keep {cs : List (Nat × Nat)} {regs : List FpeRegistration}
    (hcs : collectCandidates input regs [] = .ok cs) :
    LeftmostShortest (IsCandidate input regs) 0 (keep 0 (sortDedup cs)) := by
  apply keep_leftmostShortest (fun w hw => hw.lt) (pairwise_sortDedup cs)
  · intro w hw
    exact (mem_sorted_iff hcs w).mp hw
  · intro w hw _
    exact (mem_sorted_iff hcs w).mpr hw

/-- Restoring is visiting the leftmost-shortest windows of the registrations. -/
theorem restore_eq (hX : X.Ff1Lawful) (hslice : ∀ reg ∈ e.fpeRegistered,
      byteLen reg.pfx < byteLen reg.value → ∀ i, Sliceable input reg i) :
    ∃ ws vs tail, LeftmostShortest (IsCandidate input e.fpeRegistered) 0 ws ∧
      Visits X e 0 input ws vs tail ∧ restore X e input = .ok (restoreResultOf vs tail) := by
  obtain ⟨cs, hcs⟩ :=
    (collectCandidates_isOk []).mpr hslice
  obtain ⟨vs, tail, hvisits, hfold, htail⟩ := foldlM_restoreSpan hX e
    (fun w hw => (mem_sorted_iff hcs w).mp hw) ⟨[], 0, 0⟩ (show input = [] ++ input from rfl) rfl
  obtain ⟨h1, h2⟩ := foldl_restoreAdvance vs ⟨[], 0, 0⟩ tail
  refine ⟨keep 0 (sortDedup cs), vs, tail, leftmostShortest_keep hcs, hvisits, ?_⟩
  unfold restore
  rw [hcs, ok_bind, hfold, ok_bind, htail, ok_bind, h1, h2]
  simp [restoreResultOf]

/-- Restore returns exactly when the search loops slice at boundaries only. -/
theorem restore_isOk (hX : X.Ff1Lawful) :
    (∃ res, restore X e input = .ok res) ↔
      ∀ reg ∈ e.fpeRegistered, byteLen reg.pfx < byteLen reg.value →
        ∀ i, Sliceable input reg i := by
  constructor
  · rintro ⟨res, hres⟩
    unfold restore at hres
    obtain ⟨cs, hcs, -⟩ := bind_eq_ok.mp hres
    exact (collectCandidates_isOk []).mp ⟨cs, hcs⟩
  · intro hslice
    obtain ⟨ws, vs, tail, -, -, hres⟩ := restore_eq hX hslice
    exact ⟨_, hres⟩

lemma sliceable_of_ascii (h : isAscii input = true) (hpos : byteLen reg.pfx < byteLen reg.value)
    (i : Nat) : Sliceable input reg i := by
  intro _ hroom
  rw [byteLen_of_ascii h] at hroom
  exact ⟨isCharBoundary_of_ascii h (by omega), isCharBoundary_of_ascii h (by omega)⟩

/-- In an ASCII text the search loops come to their end, and what they collect are the windows of
the registrations, overlapping ones included. -/
theorem candidates_exact {regs : List FpeRegistration} (h : isAscii input = true) :
    ∃ cs, collectCandidates input regs [] = .ok cs ∧ ∀ span, span ∈ cs ↔ IsCandidate input regs span := by
  obtain ⟨cs, hcs⟩ := (collectCandidates_isOk []).mpr fun reg (_ : reg ∈ regs) hpos =>
    sliceable_of_ascii h hpos
  refine ⟨cs, hcs, fun span => ?_⟩
  rw [mem_collectCandidates hcs]
  exact or_iff_right List.not_mem_nil

/-- A value of two letters, without a prefix. -/
def twoLetters : FpeRegistration :=
  ⟨[], "ab".toList, Vector.replicate 16 0, .alphaLower, []⟩

theorem candidates_exact_overlapping : ∃ cs, collectCandidates "abc".toList [twoLetters] [] = .ok cs ∧
    ∀ span, span ∈ cs ↔ IsCandidate "abc".toList [twoLetters] span :=
  candidates_exact (by decide)

example : collectCandidates "abc".toList [twoLetters] [] = .ok [(0, 2), (1, 3)] := by
  decide +kernel

namespace Visits

variable {off : Nat} {text tail : Str} {ws : List (Nat × Nat)} {vs : List Visit}

lemma source_eq (h : Visits X e off text ws vs tail) :
    source (vs.map Visit.edit) tail = text := by
  induction h with
  | nil => rfl
  | cons _ _ ih => simp [Visit.edit, ih]

lemma spans_eq (h : Visits X e off text ws vs tail) :
    spans Edit.old off (vs.map Visit.edit) = ws := by
  induction h with
  | nil => rfl
  | cons _ _ ih => simp [spans, Visit.edit, ih]

lemma tried (h : Visits X e off text ws vs tail) :
    ∀ v ∈ vs, e.fpe.tryRestore X v.candidate e.fpeRegistered = .ok v.restored := by
  induction h with
  | nil => simp
  | cons htry _ ih =>
    intro v hv
    rcases List.mem_cons.mp hv with rfl | hv
    · exact htry
    · exact ih v hv

end Visits

end Walk

end Engine

end Invisibool
