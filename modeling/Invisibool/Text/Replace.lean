import Invisibool.Text.Str

/-!
# Replacing all occurrences

`str::replace` and `str::matches` pass over the text once, from left to right, and after a hit
go on behind it. A template is a text with named slots. If the hits of the pattern in a rendered
template are exactly the slots of one name, then replacing is filling these slots anew.
-/

namespace Text

def contains (s pat : Str) : Bool := (find s pat).isSome

/-- The pass of `str::replace`; the first argument counts the characters of the last hit that
are still to be skipped. The empty pattern hits at every character and at the end. -/
def replaceFrom (pat new : Str) : Nat → Str → Str
  | _, [] => if pat = [] then new else []
  | k + 1, _ :: s => replaceFrom pat new k s
  | 0, c :: s =>
    if pat.isPrefixOf (c :: s) then
      if pat = [] then new ++ c :: replaceFrom pat new 0 s
      else new ++ replaceFrom pat new (pat.length - 1) s
    else c :: replaceFrom pat new 0 s

def replace (s pat new : Str) : Str := replaceFrom pat new 0 s

/-- The offsets, in characters, that `str::match_indices` hits. -/
def hitsFrom (pat : Str) : Nat → Nat → Str → List Nat
  | _, off, [] => if pat = [] then [off] else []
  | k + 1, off, _ :: s => hitsFrom pat k (off + 1) s
  | 0, off, c :: s =>
    if pat.isPrefixOf (c :: s) then off :: hitsFrom pat (pat.length - 1) (off + 1) s
    else hitsFrom pat 0 (off + 1) s

/-- `str::matches(pat).count()`. -/
def matchCount (s pat : Str) : Nat := (hitsFrom pat 0 0 s).length

lemma contains_iff {s pat : Str} : contains s pat = true ↔ pat <:+: s := by
  unfold contains
  cases h : find s pat with
  | none =>
    simp only [Option.isSome_none, Bool.false_eq_true, false_iff]
    rintro ⟨u, v, rfl⟩
    exact find_eq_none.mp h _ ⟨u, v, rfl, rfl⟩
  | some n =>
    simp only [Option.isSome_some, true_iff]
    obtain ⟨⟨u, v, rfl, -⟩, -⟩ := find_eq_some h
    exact ⟨u, v, rfl⟩

variable {pat new : Str}

lemma hitsFrom_skip (off : Nat) (u s : Str) :
    hitsFrom pat u.length off (u ++ s) = hitsFrom pat 0 (off + u.length) s := by
  induction u generalizing off with
  | nil => rfl
  | cons c u ih =>
    rw [List.length_cons, List.cons_append, hitsFrom, ih]
    congr 1
    omega

lemma replaceFrom_skip (u s : Str) :
    replaceFrom pat new u.length (u ++ s) = replaceFrom pat new 0 s := by
  induction u with
  | nil => rfl
  | cons c u ih => rw [List.length_cons, List.cons_append, replaceFrom, ih]

/-- At an occurrence the pass hits and goes on behind it. -/
lemma hitsFrom_hit (hp : pat ≠ []) (off : Nat) (s : Str) :
    hitsFrom pat 0 off (pat ++ s) = off :: hitsFrom pat 0 (off + pat.length) s := by
  obtain ⟨c, p, rfl⟩ := List.exists_cons_of_ne_nil hp
  have hpre : (c :: p).isPrefixOf (c :: (p ++ s)) = true :=
    List.isPrefixOf_iff_prefix.mpr ⟨s, by simp⟩
  rw [List.cons_append, hitsFrom, if_pos hpre, List.length_cons, Nat.add_sub_cancel, hitsFrom_skip]
  congr 2
  omega

lemma replaceFrom_hit (hp : pat ≠ []) (s : Str) :
    replaceFrom pat new 0 (pat ++ s) = new ++ replaceFrom pat new 0 s := by
  obtain ⟨c, p, rfl⟩ := List.exists_cons_of_ne_nil hp
  have hpre : (c :: p).isPrefixOf (c :: (p ++ s)) = true :=
    List.isPrefixOf_iff_prefix.mpr ⟨s, by simp⟩
  rw [List.cons_append, replaceFrom, if_pos hpre, if_neg hp, List.length_cons, Nat.add_sub_cancel,
    replaceFrom_skip]

lemma hitsFrom_gap (new : Str) {off : Nat} {g s : Str}
    (h : ∀ i ∈ hitsFrom pat 0 off (g ++ s), off + g.length ≤ i) :
    hitsFrom pat 0 off (g ++ s) = hitsFrom pat 0 (off + g.length) s ∧
      replaceFrom pat new 0 (g ++ s) = g ++ replaceFrom pat new 0 s := by
  induction g generalizing off with
  | nil => exact ⟨rfl, rfl⟩
  | cons c g ih =>
    rw [List.cons_append, hitsFrom] at h
    by_cases hpre : pat.isPrefixOf (c :: (g ++ s)) = true
    · rw [if_pos hpre] at h
      have := h off (by simp)
      simp only [List.length_cons] at this
      omega
    · rw [if_neg hpre] at h
      have hstep : off + 1 + g.length = off + (c :: g).length := by
        simp only [List.length_cons]
        omega
      have htail : ∀ i ∈ hitsFrom pat 0 (off + 1) (g ++ s), off + 1 + g.length ≤ i :=
        fun i hi => hstep ▸ h i hi
      obtain ⟨h1, h2⟩ := ih htail
      rw [List.cons_append, hitsFrom, if_neg hpre, h1, hstep, replaceFrom, if_neg hpre, h2]
      exact ⟨rfl, rfl⟩

lemma replace_of_matchCount {s : Str} (h : matchCount s pat = 0) : replace s pat new = s := by
  have hnil : hitsFrom pat 0 0 s = [] := List.length_eq_zero_iff.mp h
  have hgap : ∀ i ∈ hitsFrom pat 0 0 (s ++ []), 0 + s.length ≤ i := by simp [hnil]
  obtain ⟨h1, h2⟩ := hitsFrom_gap new hgap
  rw [List.append_nil, hnil] at h1
  rw [List.append_nil] at h2
  have hpat : pat ≠ [] := by
    rintro rfl
    simp [hitsFrom] at h1
  unfold replace
  rw [h2]
  simp [replaceFrom, hpat]

lemma hitsFrom_ne_nil (off : Nat) (s : Str) : hitsFrom pat 0 off s ≠ [] ↔ pat <:+: s := by
  induction s generalizing off with
  | nil =>
    rw [hitsFrom, List.infix_nil]
    split <;> simp_all
  | cons c s ih =>
    rw [hitsFrom, List.infix_cons_iff, ← ih (off + 1)]
    split
    · rename_i hpre
      simp [List.isPrefixOf_iff_prefix.mp hpre]
    · rename_i hpre
      simp [mt List.isPrefixOf_iff_prefix.mpr hpre]

/-- `matches` counts something exactly where `contains` finds something. -/
lemma matchCount_pos_iff {s : Str} : 0 < matchCount s pat ↔ contains s pat = true := by
  rw [contains_iff, ← hitsFrom_ne_nil 0 s, matchCount, List.length_pos_iff]

variable {κ : Type}

/-- A template is made of fixed texts and named slots. -/
inductive Piece (κ : Type)
  | text (s : Str)
  | slot (k : κ)
  deriving DecidableEq

def render (fill : κ → Str) (pieces : List (Piece κ)) : Str :=
  pieces.flatMap fun
    | .text s => s
    | .slot k => fill k

@[simp] lemma render_nil (fill : κ → Str) : render fill [] = [] := rfl

@[simp] lemma render_text (fill : κ → Str) (s : Str) (pieces : List (Piece κ)) :
    render fill (.text s :: pieces) = s ++ render fill pieces := rfl

@[simp] lemma render_slot (fill : κ → Str) (k : κ) (pieces : List (Piece κ)) :
    render fill (.slot k :: pieces) = fill k ++ render fill pieces := rfl

lemma render_congr {f g : κ → Str} {pieces : List (Piece κ)}
    (h : ∀ k, .slot k ∈ pieces → f k = g k) : render f pieces = render g pieces := by
  induction pieces with
  | nil => rfl
  | cons p pieces ih =>
    have ih := ih fun k hk => h k (by simp [hk])
    cases p with
    | text s => simp [ih]
    | slot k => simp [ih, h k (by simp)]

variable [DecidableEq κ]

/-- The offsets, in characters, of the slots of one name. -/
def slotOffsets (fill : κ → Str) (k : κ) : Nat → List (Piece κ) → List Nat
  | _, [] => []
  | off, .text s :: pieces => slotOffsets fill k (off + s.length) pieces
  | off, .slot j :: pieces =>
    if j = k then off :: slotOffsets fill k (off + (fill j).length) pieces
    else slotOffsets fill k (off + (fill j).length) pieces

lemma le_of_mem_slotOffsets {fill : κ → Str} {k : κ} {off i : Nat} {pieces : List (Piece κ)}
    (h : i ∈ slotOffsets fill k off pieces) : off ≤ i := by
  induction pieces generalizing off with
  | nil => cases h
  | cons p pieces ih =>
    cases p with
    | text s =>
      have := ih h
      omega
    | slot j =>
      rw [slotOffsets] at h
      split at h
      · rcases List.mem_cons.mp h with rfl | h
        · exact Nat.le_refl _
        · have := ih h
          omega
      · have := ih h
        omega

/-- The pattern is found exactly where the template has its slots. -/
def FoundAtSlots (fill : κ → Str) (k : κ) (pieces : List (Piece κ)) : Prop :=
  hitsFrom (fill k) 0 0 (render fill pieces) = slotOffsets fill k 0 pieces

instance (fill : κ → Str) (k : κ) (pieces : List (Piece κ)) :
    Decidable (FoundAtSlots fill k pieces) := inferInstanceAs (Decidable (_ = _))

lemma replaceFrom_render {fill : κ → Str} {k : κ} {new : Str} (hp : fill k ≠ []) {off : Nat}
    {pieces : List (Piece κ)}
    (h : hitsFrom (fill k) 0 off (render fill pieces) = slotOffsets fill k off pieces) :
    replaceFrom (fill k) new 0 (render fill pieces) =
      render (Function.update fill k new) pieces := by
  induction pieces generalizing off with
  | nil => simp [replaceFrom, hp]
  | cons p pieces ih =>
    cases p with
    | text s =>
      rw [render_text, slotOffsets] at h
      have hgap := hitsFrom_gap new (fun i hi => le_of_mem_slotOffsets (h ▸ hi))
      rw [render_text, render_text, hgap.2, ih (hgap.1.symm.trans h)]
    | slot j =>
      rw [render_slot, slotOffsets] at h
      by_cases hjk : j = k
      · subst hjk
        rw [if_pos rfl, hitsFrom_hit hp] at h
        rw [render_slot, render_slot, replaceFrom_hit hp, Function.update_self,
          ih (List.cons.inj h).2]
      · rw [if_neg hjk] at h
        have hgap := hitsFrom_gap new (fun i hi => le_of_mem_slotOffsets (h ▸ hi))
        rw [render_slot, render_slot, hgap.2, Function.update_of_ne hjk,
          ih (hgap.1.symm.trans h)]

/-- Replacing a pattern that is found exactly at its slots fills these slots anew. -/
theorem replace_render {fill : κ → Str} {k : κ} {pieces : List (Piece κ)} (new : Str)
    (hp : fill k ≠ []) (h : FoundAtSlots fill k pieces) :
    replace (render fill pieces) (fill k) new = render (Function.update fill k new) pieces :=
  replaceFrom_render hp h

lemma length_slotOffsets (fill : κ → Str) (k : κ) (off : Nat) (pieces : List (Piece κ)) :
    (slotOffsets fill k off pieces).length = pieces.count (.slot k) := by
  induction pieces generalizing off with
  | nil => rfl
  | cons p pieces ih =>
    cases p with
    | text s => rw [slotOffsets, ih, List.count_cons_of_ne (by simp)]
    | slot j =>
      rw [slotOffsets]
      split
      · rename_i hjk
        subst hjk
        rw [List.length_cons, ih, List.count_cons_self]
      · rename_i hjk
        rw [ih, List.count_cons_of_ne (by simpa using hjk)]

lemma matchCount_render {fill : κ → Str} {k : κ} {pieces : List (Piece κ)}
    (h : FoundAtSlots fill k pieces) :
    matchCount (render fill pieces) (fill k) = pieces.count (.slot k) := by
  unfold matchCount
  rw [h, length_slotOffsets]

/-- The two patterns stand apart: there is a template that each is found in at its slots, before
and after the other is replaced. -/
def Apart (text a newA b newB : Str) : Prop :=
  a ≠ [] ∧ b ≠ [] ∧ ∃ pieces : List (Piece Str), render id pieces = text ∧
    FoundAtSlots id a pieces ∧ FoundAtSlots (Function.update id a newA) b pieces ∧
    FoundAtSlots id b pieces ∧ FoundAtSlots (Function.update id b newB) a pieces

lemma Apart.symm {text a newA b newB : Str} (h : Apart text a newA b newB) :
    Apart text b newB a newA := by
  obtain ⟨ha, hb, pieces, htext, ha1, hb2, hb1, ha2⟩ := h
  exact ⟨hb, ha, pieces, htext, hb1, ha2, ha1, hb2⟩

lemma replace_replace {text a newA b : Str} (newB : Str) {pieces : List (Piece Str)} (hab : a ≠ b)
    (ha : a ≠ []) (hb : b ≠ []) (htext : render id pieces = text)
    (hfirst : FoundAtSlots id a pieces)
    (hsecond : FoundAtSlots (Function.update id a newA) b pieces) :
    replace (replace text a newA) b newB =
        render (Function.update (Function.update id a newA) b newB) pieces ∧
      matchCount text a + matchCount (replace text a newA) b =
        pieces.count (.slot a) + pieces.count (.slot b) := by
  have hpat : Function.update (id : Str → Str) a newA b = b := Function.update_of_ne hab.symm _ _
  have h1 : replace text a newA = render (Function.update id a newA) pieces := by
    have := replace_render newA (by exact ha) hfirst
    rwa [htext] at this
  have h2 := replace_render newB (by rwa [hpat]) hsecond
  have h3 := matchCount_render hsecond
  rw [hpat] at h2 h3
  have h4 : matchCount text a = pieces.count (.slot a) := by
    have := matchCount_render hfirst
    rwa [htext] at this
  rw [h1, h2, h3, h4]
  exact ⟨rfl, rfl⟩

theorem Apart.swap {text a newA b newB : Str} (hab : a ≠ b) (h : Apart text a newA b newB) :
    replace (replace text a newA) b newB = replace (replace text b newB) a newA ∧
      matchCount text a + matchCount (replace text a newA) b =
        matchCount text b + matchCount (replace text b newB) a := by
  obtain ⟨ha, hb, pieces, htext, ha1, hb2, hb1, ha2⟩ := h
  obtain ⟨h1, h2⟩ := replace_replace newB hab ha hb htext ha1 hb2
  obtain ⟨h3, h4⟩ := replace_replace newA hab.symm hb ha htext hb1 ha2
  rw [h1, h2, h3, h4, Function.update_comm hab]
  exact ⟨rfl, Nat.add_comm _ _⟩

end Text
