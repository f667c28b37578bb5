import Mathlib.Algebra.Order.Ring.Nat
import Mathlib.Data.List.Forall2
import Mathlib.Tactic.Common

/-!
# Strings addressed by byte offsets

A string slice is a sequence of Unicode scalar values, but its operations count the bytes of
the UTF-8 encoding. Slicing off a character boundary or past the end is a panic, so the
functions that slice return an `Outcome`.
-/

namespace Text

inductive Panic
  | charBoundary
  | index
  | expect (message : String)
  | fuel
  deriving DecidableEq, Repr

abbrev Outcome (α : Type) := Except Panic α

@[simp] lemma ok_bind {ε α β : Type} (a : α) (f : α → Except ε β) :
    ((Except.ok a : Except ε α) >>= f) = f a := rfl

@[simp] lemma error_bind {ε α β : Type} (p : ε) (f : α → Except ε β) :
    ((Except.error p : Except ε α) >>= f) = Except.error p := rfl

@[simp] lemma pure_eq_ok {ε α : Type} (a : α) : (pure a : Except ε α) = Except.ok a := rfl

lemma bind_eq_ok {ε α β : Type} {x : Except ε α} {f : α → Except ε β} {b : β} :
    x >>= f = .ok b ↔ ∃ a, x = .ok a ∧ f a = .ok b := by
  cases x with
  | error p => simp
  | ok a => simp

lemma mapM_eq_ok {ε α β : Type} {f : α → Except ε β} {xs : List α} {ys : List β} :
    xs.mapM f = .ok ys ↔ List.Forall₂ (fun x y => f x = .ok y) xs ys := by
  induction xs generalizing ys with
  | nil =>
    rw [List.mapM_nil, pure_eq_ok, List.forall₂_nil_left_iff, Except.ok.injEq, eq_comm]
  | cons x xs ih =>
    rw [List.mapM_cons, bind_eq_ok]
    constructor
    · rintro ⟨y, hy, hrest⟩
      obtain ⟨zs, hzs, hys⟩ := bind_eq_ok.mp hrest
      obtain rfl := Except.ok.inj hys
      exact .cons hy (ih.mp hzs)
    · intro h
      cases h with
      | cons hy hrest => exact ⟨_, hy, bind_eq_ok.mpr ⟨_, ih.mpr hrest, rfl⟩⟩

def expect {α : Type} (o : Option α) (message : String) : Outcome α :=
  match o with
  | some a => .ok a
  | none => .error (.expect message)

@[simp] lemma expect_some {α : Type} (a : α) (message : String) :
    expect (some a) message = .ok a := rfl

def at? {α : Type} (xs : List α) (i : Nat) : Outcome α :=
  match xs[i]? with
  | some a => .ok a
  | none => .error .index

lemma at?_eq_ok {α : Type} {xs : List α} {i : Nat} {a : α} :
    at? xs i = .ok a ↔ xs[i]? = some a := by
  unfold at?
  cases xs[i]? with
  | none => simp
  | some b => simp

abbrev Str := List Char

/-- `str::len`: the length in bytes. -/
def byteLen (s : Str) : Nat := (s.map Char.utf8Size).sum

@[simp] lemma byteLen_nil : byteLen [] = 0 := rfl

@[simp] lemma byteLen_cons (c : Char) (s : Str) : byteLen (c :: s) = c.utf8Size + byteLen s := by
  simp [byteLen]

@[simp] lemma byteLen_append (s t : Str) : byteLen (s ++ t) = byteLen s + byteLen t := by
  simp [byteLen]

@[simp] lemma byteLen_eq_zero {s : Str} : byteLen s = 0 ↔ s = [] := by
  cases s with
  | nil => simp
  | cons c s =>
    have := c.utf8Size_pos
    simp only [byteLen_cons, List.cons_ne_nil, iff_false]
    omega

/-- Two splits of one text nest: the shorter left part is a prefix of the longer one. -/
lemma split_le {u v u' v' : Str} (h : u ++ v = u' ++ v') (hle : byteLen u ≤ byteLen u') :
    ∃ g, u' = u ++ g ∧ v = g ++ v' := by
  rcases List.append_eq_append_iff.mp h with ⟨g, h1, h2⟩ | ⟨g, h1, h2⟩
  · exact ⟨g, h1, h2⟩
  · have hg : g = [] := by
      rw [h1, byteLen_append] at hle
      exact byteLen_eq_zero.mp (by omega)
    subst hg
    exact ⟨[], by simpa using h1.symm, by simpa using h2.symm⟩

lemma split_unique {u v u' v' : Str} (h : u ++ v = u' ++ v') (hlen : byteLen u = byteLen u') :
    u = u' ∧ v = v' := by
  obtain ⟨g, h1, h2⟩ := split_le h (Nat.le_of_eq hlen)
  have hg : g = [] := by
    rw [h1, byteLen_append] at hlen
    exact byteLen_eq_zero.mp (by omega)
  subst hg
  simpa using And.intro h1.symm h2

/-- Split a text at a byte offset; `none` off a character boundary. -/
def splitAtByte : Str → Nat → Option (Str × Str)
  | s, 0 => some ([], s)
  | [], _ + 1 => none
  | c :: s, n + 1 =>
    if c.utf8Size ≤ n + 1 then
      (splitAtByte s (n + 1 - c.utf8Size)).map (fun p => (c :: p.1, p.2))
    else none

theorem splitAtByte_eq_some {s u v : Str} {n : Nat} :
    splitAtByte s n = some (u, v) ↔ s = u ++ v ∧ byteLen u = n := by
  induction s generalizing n u with
  | nil =>
    cases n with
    | zero =>
      simp only [splitAtByte, Option.some.injEq, Prod.mk.injEq]
      constructor
      · rintro ⟨rfl, rfl⟩
        simp
      · rintro ⟨h, -⟩
        obtain ⟨rfl, rfl⟩ := List.append_eq_nil_iff.mp h.symm
        simp
    | succ n =>
      simp only [splitAtByte, reduceCtorEq, false_iff, not_and]
      intro h
      obtain ⟨rfl, rfl⟩ := List.append_eq_nil_iff.mp h.symm
      simp
  | cons c s ih =>
    have hc := c.utf8Size_pos
    cases n with
    | zero =>
      simp only [splitAtByte, Option.some.injEq, Prod.mk.injEq, byteLen_eq_zero]
      constructor
      · rintro ⟨rfl, rfl⟩
        simp
      · rintro ⟨h, rfl⟩
        simpa using h
    | succ n =>
      rw [splitAtByte]
      split
      · simp only [Option.map_eq_some_iff, Prod.mk.injEq, Prod.exists]
        constructor
        · rintro ⟨a, b, hab, rfl, rfl⟩
          obtain ⟨rfl, hn⟩ := ih.mp hab
          simp only [List.cons_append, byteLen_cons, true_and]
          omega
        · rintro ⟨h, hn⟩
          cases u with
          | nil => simp at hn
          | cons d u =>
            simp only [List.cons_append, List.cons.injEq] at h
            obtain ⟨rfl, rfl⟩ := h
            refine ⟨u, v, ih.mpr ⟨rfl, ?_⟩, rfl, rfl⟩
            simp only [byteLen_cons] at hn
            omega
      · simp only [reduceCtorEq, false_iff, not_and]
        intro h hn
        cases u with
        | nil => simp at hn
        | cons d u =>
          simp only [List.cons_append, List.cons.injEq] at h
          obtain ⟨rfl, rfl⟩ := h
          simp only [byteLen_cons] at hn
          omega

@[simp] lemma splitAtByte_append (u v : Str) : splitAtByte (u ++ v) (byteLen u) = some (u, v) :=
  splitAtByte_eq_some.mpr ⟨rfl, rfl⟩

def IsCharBoundary (s : Str) (i : Nat) : Prop := ∃ u v, s = u ++ v ∧ byteLen u = i

lemma isCharBoundary_iff_splitAtByte {s : Str} {i : Nat} :
    IsCharBoundary s i ↔ (splitAtByte s i).isSome := by
  rw [Option.isSome_iff_exists]
  simp only [Prod.exists, splitAtByte_eq_some]
  rfl

instance (s : Str) (i : Nat) : Decidable (IsCharBoundary s i) :=
  decidable_of_iff _ isCharBoundary_iff_splitAtByte.symm

lemma IsCharBoundary.le {s : Str} {i : Nat} (h : IsCharBoundary s i) : i ≤ byteLen s := by
  obtain ⟨u, v, rfl, rfl⟩ := h
  simp

def OccursAt (s pat : Str) (i : Nat) : Prop := ∃ u v, s = u ++ pat ++ v ∧ byteLen u = i

lemma OccursAt.isCharBoundary {s pat : Str} {i : Nat} (h : OccursAt s pat i) :
    IsCharBoundary s i := by
  obtain ⟨u, v, rfl, rfl⟩ := h
  exact ⟨u, pat ++ v, by simp, rfl⟩

lemma OccursAt.le {s pat : Str} {i : Nat} (h : OccursAt s pat i) :
    i + byteLen pat ≤ byteLen s := by
  obtain ⟨u, v, rfl, rfl⟩ := h
  simp

lemma OccursAt.unique {s p q : Str} {i : Nat} (hp : OccursAt s p i) (hq : OccursAt s q i)
    (hlen : byteLen p = byteLen q) : p = q := by
  obtain ⟨u, v, rfl, rfl⟩ := hp
  obtain ⟨u', v', h, hu⟩ := hq
  rw [List.append_assoc, List.append_assoc] at h
  obtain ⟨-, h⟩ := split_unique h hu.symm
  exact (split_unique h hlen).1

def sliceFrom (s : Str) (i : Nat) : Outcome Str :=
  match splitAtByte s i with
  | some (_, rest) => .ok rest
  | none => .error .charBoundary

def slice (s : Str) (i j : Nat) : Outcome Str :=
  if j < i then .error .charBoundary else do
    let rest ← sliceFrom s i
    match splitAtByte rest (j - i) with
    | some (body, _) => .ok body
    | none => .error .charBoundary

theorem sliceFrom_eq_ok {s v : Str} {i : Nat} :
    sliceFrom s i = .ok v ↔ ∃ u, s = u ++ v ∧ byteLen u = i := by
  unfold sliceFrom
  constructor
  · intro h
    split at h
    · rename_i u rest hs
      obtain ⟨rfl, rfl⟩ := splitAtByte_eq_some.mp hs
      obtain rfl := Except.ok.inj h
      exact ⟨u, rfl, rfl⟩
    · cases h
  · rintro ⟨u, rfl, rfl⟩
    simp

theorem slice_eq_ok {s v : Str} {i j : Nat} :
    slice s i j = .ok v ↔ ∃ u w, s = u ++ v ++ w ∧ byteLen u = i ∧ i + byteLen v = j := by
  unfold slice
  constructor
  · intro h
    split at h
    · cases h
    · rename_i hij
      obtain ⟨rest, hrest, hbody⟩ := bind_eq_ok.mp h
      obtain ⟨u, rfl, rfl⟩ := sliceFrom_eq_ok.mp hrest
      split at hbody
      · rename_i body w hs
        obtain ⟨rfl, hlen⟩ := splitAtByte_eq_some.mp hs
        obtain rfl := Except.ok.inj hbody
        exact ⟨u, w, by simp, rfl, by omega⟩
      · cases hbody
  · rintro ⟨u, w, rfl, rfl, rfl⟩
    have hrest : sliceFrom (u ++ v ++ w) (byteLen u) = .ok (v ++ w) :=
      sliceFrom_eq_ok.mpr ⟨u, by simp, rfl⟩
    have hlen : byteLen u + byteLen v - byteLen u = byteLen v := by omega
    rw [if_neg (by omega), hrest, ok_bind, hlen, splitAtByte_append]

lemma slice_append (u v w : Str) :
    slice (u ++ v ++ w) (byteLen u) (byteLen u + byteLen v) = .ok v :=
  slice_eq_ok.mpr ⟨u, w, rfl, rfl, rfl⟩

/-- A slice succeeds exactly when both ends are boundaries in order. -/
theorem slice_isOk {s : Str} {i j : Nat} :
    (∃ v, slice s i j = .ok v) ↔ i ≤ j ∧ IsCharBoundary s i ∧ IsCharBoundary s j := by
  constructor
  · rintro ⟨v, h⟩
    obtain ⟨u, w, rfl, rfl, rfl⟩ := slice_eq_ok.mp h
    exact ⟨by omega, ⟨u, v ++ w, by simp, rfl⟩, ⟨u ++ v, w, rfl, by simp⟩⟩
  · rintro ⟨hij, ⟨u, t, rfl, rfl⟩, ⟨u', w, h, rfl⟩⟩
    obtain ⟨g, rfl, rfl⟩ := split_le h hij
    exact ⟨g, slice_eq_ok.mpr ⟨u, w, by simp, rfl, by simp⟩⟩

/-- `str::find`: the byte offset of the first occurrence. -/
def find (s pat : Str) : Option Nat :=
  if pat.isPrefixOf s then some 0 else
    match s with
    | [] => none
    | c :: t => (find t pat).map (c.utf8Size + ·)

theorem find_eq_some {s pat : Str} {n : Nat} (h : find s pat = some n) :
    OccursAt s pat n ∧ ∀ i, OccursAt s pat i → n ≤ i := by
  induction s generalizing n with
  | nil =>
    unfold find at h
    split at h
    · rename_i hp
      obtain ⟨v, hv⟩ := List.isPrefixOf_iff_prefix.mp hp
      obtain rfl := Option.some.inj h
      exact ⟨⟨[], v, by simp [hv], rfl⟩, fun i _ => Nat.zero_le i⟩
    · cases h
  | cons c t ih =>
    unfold find at h
    split at h
    · rename_i hp
      obtain ⟨v, hv⟩ := List.isPrefixOf_iff_prefix.mp hp
      obtain rfl := Option.some.inj h
      exact ⟨⟨[], v, by simp [hv], rfl⟩, fun i _ => Nat.zero_le i⟩
    · rename_i hp
      obtain ⟨m, hm, rfl⟩ := Option.map_eq_some_iff.mp h
      obtain ⟨⟨u, v, hs, rfl⟩, hmin⟩ := ih hm
      refine ⟨⟨c :: u, v, by simp [hs], by simp⟩, ?_⟩
      rintro i ⟨u', v', hs', rfl⟩
      cases u' with
      | nil => exact absurd (List.isPrefixOf_iff_prefix.mpr ⟨v', by simpa using hs'.symm⟩) hp
      | cons d u' =>
        simp only [List.cons_append, List.cons.injEq] at hs'
        obtain ⟨rfl, hs'⟩ := hs'
        have := hmin _ ⟨u', v', hs', rfl⟩
        simp only [byteLen_cons]
        omega

theorem find_eq_none {s pat : Str} : find s pat = none ↔ ∀ i, ¬ OccursAt s pat i := by
  induction s with
  | nil =>
    unfold find
    constructor
    · intro h i hi
      split at h
      · cases h
      · rename_i hp
        obtain ⟨u, v, hs, -⟩ := hi
        have hs' : pat = [] := by
          have := hs.symm
          simp only [List.append_eq_nil_iff] at this
          exact this.1.2
        exact hp (by simp [hs'])
    · intro h
      split
      · rename_i hp
        obtain ⟨v, hv⟩ := List.isPrefixOf_iff_prefix.mp hp
        exact absurd ⟨[], v, by simp [hv], rfl⟩ (h 0)
      · rfl
  | cons c t ih =>
    unfold find
    split
    · rename_i hp
      obtain ⟨v, hv⟩ := List.isPrefixOf_iff_prefix.mp hp
      simp only [reduceCtorEq, false_iff, not_forall, not_not]
      exact ⟨0, [], v, by simp [hv], rfl⟩
    · rename_i hp
      rw [Option.map_eq_none_iff, ih]
      constructor
      · rintro h i ⟨u, v, hs, rfl⟩
        cases u with
        | nil => exact hp (List.isPrefixOf_iff_prefix.mpr ⟨v, by simpa using hs.symm⟩)
        | cons d u =>
          simp only [List.cons_append, List.cons.injEq] at hs
          exact h _ ⟨u, v, hs.2, rfl⟩
      · rintro h i ⟨u, v, rfl, rfl⟩
        exact h _ ⟨c :: u, v, by simp, rfl⟩

def stripPrefix (pat s : Str) : Option Str :=
  if pat.isPrefixOf s then some (s.drop pat.length) else none

theorem stripPrefix_eq_some {pat s body : Str} :
    stripPrefix pat s = some body ↔ s = pat ++ body := by
  unfold stripPrefix
  constructor
  · intro h
    split at h
    · rename_i hp
      obtain ⟨v, rfl⟩ := List.isPrefixOf_iff_prefix.mp hp
      simpa using h
    · cases h
  · rintro rfl
    simp

lemma stripPrefix_eq_none {pat s : Str} :
    stripPrefix pat s = none ↔ ∀ body, s ≠ pat ++ body := by
  constructor
  · intro h body hs
    rw [stripPrefix_eq_some.mpr hs] at h
    cases h
  · intro h
    cases hb : stripPrefix pat s with
    | none => rfl
    | some body => exact absurd (stripPrefix_eq_some.mp hb) (h body)

def isAscii (s : Str) : Bool := s.all (fun c => decide (c.toNat < 128))

lemma isAscii_iff {s : Str} : isAscii s = true ↔ ∀ c ∈ s, c.toNat < 128 := by
  simp [isAscii]

@[simp] lemma isAscii_append {s t : Str} :
    isAscii (s ++ t) = true ↔ isAscii s = true ∧ isAscii t = true := by
  simp [isAscii]

lemma utf8Size_of_ascii {c : Char} (h : c.toNat < 128) : c.utf8Size = 1 := by
  rw [Char.utf8Size_eq_one_iff, UInt32.le_iff_toNat_le]
  exact Nat.le_of_lt_succ h

/-- In ASCII text byte offsets count characters. -/
lemma byteLen_of_ascii {s : Str} (h : isAscii s = true) : byteLen s = s.length := by
  induction s with
  | nil => rfl
  | cons c s ih =>
    have hc := utf8Size_of_ascii (isAscii_iff.mp h c (by simp))
    have hs := ih (isAscii_iff.mpr fun d hd => isAscii_iff.mp h d (by simp [hd]))
    simp only [byteLen_cons, List.length_cons, hc, hs]
    omega

lemma isCharBoundary_of_ascii {s : Str} (h : isAscii s = true) {i : Nat} (hi : i ≤ s.length) :
    IsCharBoundary s i := by
  refine ⟨s.take i, s.drop i, by simp, ?_⟩
  have ht : isAscii (s.take i) = true :=
    isAscii_iff.mpr fun c hc => isAscii_iff.mp h c (List.mem_of_mem_take hc)
  rw [byteLen_of_ascii ht, List.length_take]
  omega

/-- `char::is_whitespace`: the Unicode White_Space property. -/
def isWhitespace (c : Char) : Bool :=
  let n := c.toNat
  n == 0x20 || (0x9 ≤ n && n ≤ 0xd) || n == 0x85 || n == 0xa0 || n == 0x1680 ||
    (0x2000 ≤ n && n ≤ 0x200a) || n == 0x2028 || n == 0x2029 || n == 0x202f ||
    n == 0x205f || n == 0x3000

def isAsciiDigit (c : Char) : Bool := 48 ≤ c.toNat && c.toNat ≤ 57

end Text
