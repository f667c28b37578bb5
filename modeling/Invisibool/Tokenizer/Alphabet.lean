import Invisibool.Text.Utf8
import Mathlib.Data.List.Nodup
import Mathlib.Data.Nat.Log

/-!
# Alphabets

The character set of a fake: which symbols may appear, their order, and the radix. The rules
that `try_custom` checks are a field of the type, so every alphabet obeys them.
-/

namespace Invisibool
open Text

structure ValidAlphabet (chars : Str) : Prop where
  ascii : isAscii chars = true
  noWhitespace : chars.any isWhitespace = false
  radixLow : 2 ≤ chars.length
  radixHigh : chars.length ≤ 65535
  distinct : chars.Nodup

instance (chars : Str) : Decidable (ValidAlphabet chars) :=
  decidable_of_iff (isAscii chars = true ∧ chars.any isWhitespace = false ∧ 2 ≤ chars.length ∧
      chars.length ≤ 65535 ∧ chars.Nodup)
    ⟨fun ⟨h1, h2, h3, h4, h5⟩ => ⟨h1, h2, h3, h4, h5⟩, fun ⟨h1, h2, h3, h4, h5⟩ => ⟨h1, h2, h3, h4, h5⟩⟩

structure Alphabet where
  chars : Str
  valid : ValidAlphabet chars
  deriving DecidableEq

def charRange (first : Char) (count : Nat) : Str :=
  (List.range' first.toNat count).map Char.ofNat

namespace Alphabet

def base62 : Alphabet :=
  ⟨charRange '0' 10 ++ charRange 'A' 26 ++ charRange 'a' 26, by decide +kernel⟩

example : base62.chars =
    "0123456789ABCDEFGHIJKLMNOPQRSTUVWXYZabcdefghijklmnopqrstuvwxyz".toList := by decide +kernel

/-- RFC 4648 base32: `A-Z 2-7`, radix 32. -/
def base32 : Alphabet := ⟨charRange 'A' 26 ++ charRange '2' 6, by decide +kernel⟩

def hexLower : Alphabet := ⟨charRange '0' 10 ++ charRange 'a' 6, by decide +kernel⟩

def hexUpper : Alphabet := ⟨charRange '0' 10 ++ charRange 'A' 6, by decide +kernel⟩

def digits : Alphabet := ⟨charRange '0' 10, by decide +kernel⟩

def alphaLower : Alphabet := ⟨charRange 'a' 26, by decide +kernel⟩

def alphaUpper : Alphabet := ⟨charRange 'A' 26, by decide +kernel⟩

def base36Lower : Alphabet := ⟨charRange '0' 10 ++ charRange 'a' 26, by decide +kernel⟩

/-- The number of symbols, as the length in bytes. -/
def radix (a : Alphabet) : Nat := byteLen a.chars

/-- The smallest count `K` of symbols with `radix ^ K ≥ 2 ^ 32`. The source computes it as
`ceil(32 / log2 radix)` in floating point. -/
def macTailLen (a : Alphabet) : Nat := Nat.clog a.radix (2 ^ 32)

def contains (a : Alphabet) (c : Char) : Bool := a.chars.contains c

/-- The byte offset at which `find` sees the symbol. -/
def indexOf (a : Alphabet) (c : Char) : Option Nat := find a.chars [c]

def symbolAt (a : Alphabet) (index : Nat) : Outcome Char :=
  expect ((utf8 a.chars)[index]?.map fun b => Char.ofNat b.toNat) "index < radix by construction"

end Alphabet

inductive AlphabetError
  | nonAscii
  | containsWhitespace
  | radixOutOfRange (radix : Nat)
  | duplicateChar (ch : Char)
  deriving DecidableEq, Repr

def firstDuplicate (seen : Str) : Str → Option Char
  | [] => none
  | c :: cs => if c ∈ seen then some c else firstDuplicate (c :: seen) cs

def validate (chars : Str) : Except AlphabetError Unit :=
  if isAscii chars = false then .error .nonAscii
  else if chars.any isWhitespace then .error .containsWhitespace
  else if ¬ (2 ≤ chars.length ∧ chars.length ≤ 65535) then .error (.radixOutOfRange chars.length)
  else match firstDuplicate [] chars with
    | some ch => .error (.duplicateChar ch)
    | none => .ok ()

lemma firstDuplicate_eq_none {seen chars : Str} :
    firstDuplicate seen chars = none ↔ chars.Nodup ∧ ∀ c ∈ chars, c ∉ seen := by
  induction chars generalizing seen with
  | nil => simp [firstDuplicate]
  | cons c cs ih =>
    rw [firstDuplicate]
    split
    · rename_i hc
      simp only [reduceCtorEq, false_iff, not_and, not_forall, not_not]
      exact fun _ => ⟨c, by simp, hc⟩
    · rename_i hc
      rw [ih, List.nodup_cons]
      constructor
      · rintro ⟨hnd, hns⟩
        refine ⟨⟨fun hmem => hns c hmem (by simp), hnd⟩, fun d hd => ?_⟩
        rcases List.mem_cons.mp hd with rfl | hd
        · exact hc
        · exact fun hs => hns d hd (by simp [hs])
      · rintro ⟨⟨hmem, hnd⟩, hns⟩
        refine ⟨hnd, fun d hd hs => ?_⟩
        rcases List.mem_cons.mp hs with rfl | hs
        · exact hmem hd
        · exact hns d (by simp [hd]) hs

theorem validate_eq_ok {chars : Str} : validate chars = .ok () ↔ ValidAlphabet chars := by
  unfold validate
  split
  · rename_i h
    simp only [reduceCtorEq, false_iff]
    exact fun hv => by simp [hv.ascii] at h
  split
  · rename_i h
    simp only [reduceCtorEq, false_iff]
    exact fun hv => by simp [hv.noWhitespace] at h
  split
  · rename_i h
    simp only [reduceCtorEq, false_iff]
    exact fun hv => h ⟨hv.radixLow, hv.radixHigh⟩
  rename_i h1 h2 h3
  have hdup : firstDuplicate [] chars = none ↔ chars.Nodup ∧ ∀ c ∈ chars, c ∉ ([] : Str) :=
    firstDuplicate_eq_none
  split
  · rename_i ch hch
    simp only [reduceCtorEq, false_iff]
    intro hv
    rw [hdup.mpr ⟨hv.distinct, by simp⟩] at hch
    cases hch
  · rename_i hch
    simp only [true_iff]
    rw [not_not] at h3
    exact ⟨by simpa using h1, by simpa using h2, h3.1, h3.2, (hdup.mp hch).1⟩

def Alphabet.tryCustom (chars : Str) : Except AlphabetError Alphabet :=
  match h : validate chars with
  | .error e => .error e
  | .ok () => .ok ⟨chars, validate_eq_ok.mp h⟩

namespace Alphabet

lemma chars_of_tryCustom {chars : Str} {a : Alphabet} (h : tryCustom chars = .ok a) :
    a.chars = chars := by
  unfold tryCustom at h
  split at h
  · cases h
  · obtain rfl := Except.ok.inj h
    rfl

/-- The alphabets are exactly what `try_custom` accepts. -/
theorem tryCustom_isOk {chars : Str} :
    (∃ a, tryCustom chars = .ok a) ↔ ValidAlphabet chars := by
  constructor
  · rintro ⟨a, ha⟩
    rw [← chars_of_tryCustom ha]
    exact a.valid
  · intro hvalid
    have hok : validate chars = .ok () := validate_eq_ok.mpr hvalid
    refine ⟨⟨chars, hvalid⟩, ?_⟩
    unfold tryCustom
    split
    · rename_i e he
      cases hok.symm.trans he
    · rfl

lemma ascii_of_mem (a : Alphabet) {c : Char} (h : c ∈ a.chars) : c.toNat < 128 :=
  isAscii_iff.mp a.valid.ascii c h

@[simp] lemma contains_iff (a : Alphabet) (c : Char) : a.contains c = true ↔ c ∈ a.chars := by
  simp [contains]

lemma radix_eq_length (a : Alphabet) : a.radix = a.chars.length := byteLen_of_ascii a.valid.ascii

lemma two_le_radix (a : Alphabet) : 2 ≤ a.radix := a.radix_eq_length ▸ a.valid.radixLow

lemma radix_le (a : Alphabet) : a.radix ≤ 65535 := a.radix_eq_length ▸ a.valid.radixHigh

lemma char_eq_of_ascii {c : Char} (h : c.toNat < 128) :
    String.utf8EncodeChar c = [UInt8.ofNat c.toNat] ∧
      Char.ofNat (UInt8.ofNat c.toNat).toNat = c := by
  constructor
  · rw [String.utf8EncodeChar_eq_singleton (utf8Size_of_ascii h)]
    rfl
  · have hmod : (UInt8.ofNat c.toNat).toNat = c.toNat := by
      simp [Nat.mod_eq_of_lt (show c.toNat < 256 by omega)]
    rw [hmod]
    exact Char.ofNat_toNat c

lemma getElem?_utf8_of_ascii {s : Str} (h : isAscii s = true) (i : Nat) :
    (utf8 s)[i]?.map (fun b => Char.ofNat b.toNat) = s[i]? := by
  induction s generalizing i with
  | nil => simp
  | cons c s ih =>
    obtain ⟨h1, h2⟩ := char_eq_of_ascii (isAscii_iff.mp h c (by simp))
    have hs := ih (isAscii_iff.mpr fun d hd => isAscii_iff.mp h d (by simp [hd]))
    rw [utf8_cons, h1]
    cases i with
    | zero => exact congrArg some h2
    | succ i => simpa using hs i

lemma symbolAt_eq_ok (a : Alphabet) {i : Nat} {c : Char} :
    a.symbolAt i = .ok c ↔ a.chars[i]? = some c := by
  unfold symbolAt
  rw [getElem?_utf8_of_ascii a.valid.ascii]
  cases a.chars[i]? with
  | none => simp [expect]
  | some d => simp

lemma symbolAt_of_lt (a : Alphabet) {i : Nat} (h : i < a.radix) :
    ∃ c ∈ a.chars, a.symbolAt i = .ok c := by
  have hi : i < a.chars.length := a.radix_eq_length ▸ h
  exact ⟨a.chars[i], List.getElem_mem hi, a.symbolAt_eq_ok.mpr (List.getElem?_eq_getElem hi)⟩

/-- `index_of` finds each symbol where `symbol_at` has it. -/
lemma indexOf_eq_some (a : Alphabet) {i : Nat} {c : Char} :
    a.indexOf c = some i ↔ a.chars[i]? = some c := by
  have hocc : ∀ j, OccursAt a.chars [c] j ↔ a.chars[j]? = some c := by
    intro j
    constructor
    · rintro ⟨u, v, hs, rfl⟩
      have hu : isAscii u = true := by
        have := a.valid.ascii
        rw [hs, isAscii_append, isAscii_append] at this
        exact this.1.1
      rw [hs, byteLen_of_ascii hu]
      simp
    · intro hj
      obtain ⟨hlt, rfl⟩ := List.getElem?_eq_some_iff.mp hj
      refine ⟨a.chars.take j, a.chars.drop (j + 1), by simp, ?_⟩
      have ht : isAscii (a.chars.take j) = true :=
        isAscii_iff.mpr fun d hd => a.ascii_of_mem (List.mem_of_mem_take hd)
      rw [byteLen_of_ascii ht, List.length_take]
      omega
  constructor
  · intro h
    exact (hocc i).mp (find_eq_some h).1
  · intro h
    cases hf : a.indexOf c with
    | none => exact absurd ((hocc i).mpr h) (find_eq_none.mp hf i)
    | some j =>
      have hj := (hocc j).mp (find_eq_some hf).1
      obtain ⟨hi', h1⟩ := List.getElem?_eq_some_iff.mp h
      obtain ⟨hj', h2⟩ := List.getElem?_eq_some_iff.mp hj
      rw [(List.Nodup.getElem_inj_iff a.valid.distinct).mp (h1.trans h2.symm)]

lemma lt_radix_of_indexOf (a : Alphabet) {i : Nat} {c : Char} (h : a.indexOf c = some i) :
    i < a.radix := by
  obtain ⟨hi, -⟩ := List.getElem?_eq_some_iff.mp (a.indexOf_eq_some.mp h)
  exact a.radix_eq_length.symm ▸ hi

lemma exists_indexOf (a : Alphabet) {c : Char} (h : c ∈ a.chars) : ∃ i, a.indexOf c = some i := by
  obtain ⟨i, hi, rfl⟩ := List.mem_iff_getElem.mp h
  exact ⟨i, a.indexOf_eq_some.mpr (List.getElem?_eq_getElem hi)⟩

end Alphabet

end Invisibool
