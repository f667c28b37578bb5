import Invisibool.Text.Str

/-!
# Edits of a text

A text and what becomes of it when disjoint spans are replaced from left to right: each edit has
the text before its span, the text of the span, and the text put there.
-/

namespace Text

structure Edit where
  gap : Str
  old : Str
  new : Str
  deriving DecidableEq, Repr

/-- The text that has one part of each edit in its span. -/
def lay (part : Edit → Str) : List Edit → Str → Str
  | [], tail => tail
  | e :: es, tail => e.gap ++ part e ++ lay part es tail

abbrev source (es : List Edit) (tail : Str) : Str := lay Edit.old es tail

abbrev target (es : List Edit) (tail : Str) : Str := lay Edit.new es tail

/-- The byte spans of the edits in the text that starts at an offset. -/
def spans (part : Edit → Str) : Nat → List Edit → List (Nat × Nat)
  | _, [] => []
  | off, e :: es =>
    (off + byteLen e.gap, off + byteLen e.gap + byteLen (part e)) ::
      spans part (off + byteLen e.gap + byteLen (part e)) es

/-- Two half-open spans share a byte, or an empty one lies inside the other. -/
def Overlaps (a b : Nat × Nat) : Prop := a.1 < b.2 ∧ b.1 < a.2

instance (a b : Nat × Nat) : Decidable (Overlaps a b) := inferInstanceAs (Decidable (_ ∧ _))

variable {part : Edit → Str} {es : List Edit} {tail : Str}

@[simp] lemma lay_nil : lay part [] tail = tail := rfl

@[simp] lemma lay_cons {e : Edit} :
    lay part (e :: es) tail = e.gap ++ part e ++ lay part es tail := rfl

@[simp] lemma spans_nil {off : Nat} : spans part off [] = [] := rfl

lemma off_le_of_mem_spans {off : Nat} {s : Nat × Nat} (h : s ∈ spans part off es) :
    off ≤ s.1 ∧ s.1 ≤ s.2 := by
  induction es generalizing off with
  | nil => cases h
  | cons e es ih =>
    rcases List.mem_cons.mp h with rfl | h
    · simp only
      omega
    · have := ih h
      omega

lemma pairwise_spans {off : Nat} :
    (spans part off es).Pairwise fun s s' => s.2 ≤ s'.1 := by
  induction es generalizing off with
  | nil => exact .nil
  | cons e es ih => exact .cons (fun s hs => (off_le_of_mem_spans hs).1) ih

section SameLength

variable {part' : Edit → Str}

/-- Every span holds the part of its edit, on either side. -/
lemma exists_of_mem_spans (hlen : ∀ e ∈ es, byteLen (part e) = byteLen (part' e)) (u u' : Str)
    (hu : byteLen u = byteLen u') {s : Nat × Nat} (h : s ∈ spans part (byteLen u) es) :
    ∃ e ∈ es, OccursAt (u ++ lay part es tail) (part e) s.1 ∧
      OccursAt (u' ++ lay part' es tail) (part' e) s.1 ∧ s.2 = s.1 + byteLen (part e) := by
  induction es generalizing u u' with
  | nil => cases h
  | cons e es ih =>
    have he := hlen e (by simp)
    rcases List.mem_cons.mp h with rfl | h
    · exact ⟨e, by simp, ⟨u ++ e.gap, lay part es tail, by simp, by simp⟩,
        ⟨u' ++ e.gap, lay part' es tail, by simp, by simp [hu]⟩, rfl⟩
    · obtain ⟨e', he', h1, h2, h3⟩ := ih (fun e' he' => hlen e' (by simp [he']))
        (u ++ e.gap ++ part e) (u' ++ e.gap ++ part' e) (by simp [hu, he])
        (by simpa [Nat.add_assoc] using h)
      exact ⟨e', by simp [he'], by simpa using h1, by simpa using h2, h3⟩

lemma isAscii_of_mem_lay (h : isAscii (lay part es tail) = true) :
    ∀ e ∈ es, isAscii (part e) = true := by
  induction es with
  | nil => simp
  | cons e es ih =>
    rw [lay_cons, isAscii_append, isAscii_append] at h
    intro e' he'
    rcases List.mem_cons.mp he' with rfl | he'
    · exact h.1.2
    · exact ih h.2 e' he'

lemma isAscii_lay (h : isAscii (lay part es tail) = true)
    (hpart : ∀ e ∈ es, isAscii (part' e) = true) : isAscii (lay part' es tail) = true := by
  induction es with
  | nil => exact h
  | cons e es ih =>
    rw [lay_cons, isAscii_append, isAscii_append] at h ⊢
    exact ⟨⟨h.1.1, hpart e (by simp)⟩, ih h.2 fun e' he' => hpart e' (by simp [he'])⟩

/-- In ASCII text, an offset outside the spans has the same character on both sides. -/
lemma getElem?_lay (hlen : ∀ e ∈ es, byteLen (part e) = byteLen (part' e))
    (hascii : isAscii (lay part es tail) = true) (hascii' : isAscii (lay part' es tail) = true)
    (off : Nat) {i : Nat} (hi : ∀ s ∈ spans part off es, ¬ (s.1 ≤ off + i ∧ off + i < s.2)) :
    (lay part es tail)[i]? = (lay part' es tail)[i]? := by
  induction es generalizing off i with
  | nil => rfl
  | cons e es ih =>
    rw [lay_cons, isAscii_append, isAscii_append] at hascii hascii'
    have hgap := byteLen_of_ascii hascii.1.1
    have hpart := byteLen_of_ascii hascii.1.2
    have hpart' := byteLen_of_ascii hascii'.1.2
    have he := hlen e (by simp)
    have hhead := hi _ List.mem_cons_self
    simp only [hgap, hpart, not_and, Nat.not_lt] at hhead
    rw [lay_cons, lay_cons, List.append_assoc, List.append_assoc]
    by_cases hlt : i < e.gap.length
    · rw [List.getElem?_append_left hlt, List.getElem?_append_left hlt]
    · have hge := hhead (by omega)
      rw [List.getElem?_append_right (by omega), List.getElem?_append_right (by omega),
        List.getElem?_append_right (by omega), List.getElem?_append_right (by omega),
        show (part' e).length = (part e).length by omega]
      apply ih (fun e' he' => hlen e' (by simp [he'])) hascii.2 hascii'.2
        (off + byteLen e.gap + byteLen (part e))
      intro s hs
      have := hi s (List.mem_cons_of_mem _ hs)
      rw [hgap, hpart]
      rwa [show off + e.gap.length + (part e).length + (i - e.gap.length - (part e).length) =
        off + i by omega]

end SameLength

lemma getElem?_of_occursAt {s p : Str} {a i : Nat} (hs : isAscii s = true) (h : OccursAt s p a)
    (h1 : a ≤ i) (h2 : i < a + byteLen p) : s[i]? = p[i - a]? := by
  obtain ⟨u, v, rfl, rfl⟩ := h
  rw [isAscii_append, isAscii_append] at hs
  have hu := byteLen_of_ascii hs.1.1
  have hp := byteLen_of_ascii hs.1.2
  rw [List.append_assoc, List.getElem?_append_right (by omega),
    List.getElem?_append_left (by omega), hu]

/-- An occurrence that overlaps no span lies in the text that all sides share. -/
theorem untouched (part part' : Edit → Str) {p : Str} (u u' : Str) {i : Nat} (hp : p ≠ [])
    (hocc : OccursAt (u ++ lay part es tail) p i) (hi : byteLen u ≤ i)
    (hfree : ∀ s ∈ spans part (byteLen u) es, ¬ Overlaps s (i, i + byteLen p)) :
    ∃ j, byteLen u' ≤ j ∧ OccursAt (u' ++ lay part' es tail) p j ∧
      ∀ s ∈ spans part' (byteLen u') es, ¬ Overlaps s (j, j + byteLen p) := by
  have hpos : 0 < byteLen p := Nat.pos_of_ne_zero fun h0 => hp (byteLen_eq_zero.mp h0)
  induction es generalizing u u' with
  | nil =>
    obtain ⟨a, b, hab, rfl⟩ := hocc
    rw [lay_nil, List.append_assoc] at hab
    obtain ⟨g, rfl, htail⟩ := split_le hab hi
    refine ⟨byteLen u' + byteLen g, by omega, ⟨u' ++ g, b, ?_, by simp⟩, by simp⟩
    simp [htail]
  | cons e es ih =>
    have hhead := hfree (byteLen u + byteLen e.gap, byteLen u + byteLen e.gap + byteLen (part e))
      (by simp [spans])
    have htail : ∀ s ∈ spans part (byteLen (u ++ e.gap ++ part e)) es,
        ¬ Overlaps s (i, i + byteLen p) := by
      intro s hs
      simp only [byteLen_append] at hs
      exact hfree s (by simp [spans, hs])
    simp only [Overlaps, not_and, Nat.not_lt] at hhead
    by_cases hlt : byteLen u + byteLen e.gap < i + byteLen p
    · have hafter := hhead hlt
      obtain ⟨j, hj, hoccj, hfreej⟩ := ih (u ++ e.gap ++ part e) (u' ++ e.gap ++ part' e)
        (by simpa using hocc) (by simpa [Nat.add_assoc] using hafter) htail
      simp only [byteLen_append] at hj hfreej
      refine ⟨j, by omega, by simpa using hoccj, fun s hs => ?_⟩
      rcases List.mem_cons.mp hs with rfl | hs
      · simp only [Overlaps]
        omega
      · exact hfreej s hs
    · -- the occurrence ends inside the gap
      obtain ⟨a, b, hab, rfl⟩ := hocc
      rw [lay_cons, List.append_assoc a] at hab
      obtain ⟨g, rfl, hg⟩ := split_le hab hi
      rw [List.append_assoc] at hg
      have hsame : g ++ p ++ b = e.gap ++ (part e ++ lay part es tail) := by simpa using hg.symm
      obtain ⟨g', hgap, -⟩ := split_le hsame (by simp only [byteLen_append] at hlt ⊢; omega)
      refine ⟨byteLen u' + byteLen g, by omega,
        ⟨u' ++ g, g' ++ part' e ++ lay part' es tail, by simp [hgap], by simp⟩, fun s hs => ?_⟩
      have hle : byteLen g + byteLen p ≤ byteLen e.gap := by
        simp only [hgap, byteLen_append]
        omega
      rcases List.mem_cons.mp hs with rfl | hs
      · simp only [Overlaps]
        omega
      · have := (off_le_of_mem_spans hs).1
        simp only [Overlaps]
        omega

def extend (g : Str) : List Edit × Str → List Edit × Str
  | ([], tail) => ([], g ++ tail)
  | (e :: es, tail) => ({ e with gap := g ++ e.gap } :: es, tail)

lemma source_extend (g : Str) (r : List Edit × Str) :
    source (extend g r).1 (extend g r).2 = g ++ source r.1 r.2 := by
  rcases r with ⟨_ | ⟨e, es⟩, tail⟩ <;> simp [extend]

lemma target_extend (g : Str) (r : List Edit × Str) :
    target (extend g r).1 (extend g r).2 = g ++ target r.1 r.2 := by
  rcases r with ⟨_ | ⟨e, es⟩, tail⟩ <;> simp [extend]

lemma length_extend (g : Str) (r : List Edit × Str) : (extend g r).1.length = r.1.length := by
  rcases r with ⟨_ | ⟨e, es⟩, tail⟩ <;> simp [extend]

lemma forall_extend {P : Str → Str → Prop} {g : Str} {r : List Edit × Str}
    (h : ∀ e ∈ r.1, P e.old e.new) : ∀ e ∈ (extend g r).1, P e.old e.new := by
  rcases r with ⟨_ | ⟨e, es⟩, tail⟩
  · simp [extend]
  · simpa [extend] using h

end Text
