import Invisibool.Tokenizer.Reserved

/-!
# Card numbers

The two loops of the Luhn algorithm count positions from the right with different offsets, and
still give every digit the same weight. So the digit that one of them completes a number with is
the one that the other accepts, and the fakes of cards are valid numbers.
-/

namespace Invisibool
open Text

def digitValue (c : Char) : Nat := c.toNat - 48

/-- The sum over the digits in front of a check digit. -/
def luhnTotal : Str → Nat
  | [] => 0
  | c :: cs => luhnValue (cs.length + 1) (digitValue c) + luhnTotal cs

variable {digits : Str} {c : Char}

lemma toDigit_of_digit (h : isAsciiDigit c = true) : toDigit c = some (digitValue c) := if_pos h

lemma digitValue_lt (h : isAsciiDigit c = true) : digitValue c < 10 := by
  unfold isAsciiDigit at h
  unfold digitValue
  rw [Bool.and_eq_true, decide_eq_true_eq, decide_eq_true_eq] at h
  omega

lemma isAscii_of_digits (h : ∀ c ∈ digits, isAsciiDigit c = true) : isAscii digits = true := by
  rw [isAscii_iff]
  intro c hc
  have hdigit := h c hc
  unfold isAsciiDigit at hdigit
  rw [Bool.and_eq_true, decide_eq_true_eq, decide_eq_true_eq] at hdigit
  omega

lemma addU32_of_lt {a b : Nat} (h : a + b < 2 ^ 32) : addU32 a b = a + b := Nat.mod_eq_of_lt h

lemma luhnCheckSum_eq {n i sum : Nat} (hdigits : ∀ c ∈ digits, isAsciiDigit c = true)
    (hn : n = i + digits.length) (hsum : sum + luhnTotal digits < 2 ^ 32) :
    luhnCheckSum n i sum digits = .ok (sum + luhnTotal digits) := by
  induction digits generalizing i sum with
  | nil => rfl
  | cons c cs ih =>
    have hc : isAsciiDigit c = true := hdigits c List.mem_cons_self
    have hcs : ∀ d ∈ cs, isAsciiDigit d = true := fun d hd => hdigits d (List.mem_cons_of_mem _ hd)
    rw [List.length_cons] at hn
    rw [luhnTotal] at hsum ⊢
    have hposition : n - i = cs.length + 1 := by omega
    rw [luhnCheckSum, toDigit_of_digit hc, expect_some, ok_bind, hposition,
      addU32_of_lt (by omega), ih hcs (by omega) (by omega), Nat.add_assoc]

/-- The check digit itself is at the position 0, and counts as it is. -/
lemma luhnSum_eq {n i sum : Nat} (hdigits : ∀ c ∈ digits, isAsciiDigit c = true)
    (hc : isAsciiDigit c = true) (hn : n = i + digits.length + 1)
    (hsum : sum + luhnTotal digits + digitValue c < 2 ^ 32) :
    luhnSum n i sum (digits ++ [c]) = some (sum + luhnTotal digits + digitValue c) := by
  induction digits generalizing i sum with
  | nil =>
    have hposition : n - 1 - i = 0 := by
      rw [List.length_nil] at hn
      omega
    have hvalue : luhnValue 0 (digitValue c) = digitValue c :=
      if_neg (by have hlt := digitValue_lt hc; change ¬9 < digitValue c; omega)
    rw [luhnTotal] at hsum ⊢
    rw [List.nil_append, luhnSum, toDigit_of_digit hc]
    dsimp only
    rw [hposition, hvalue, addU32_of_lt (by omega)]
    rfl
  | cons d ds ih =>
    have hd : isAsciiDigit d = true := hdigits d List.mem_cons_self
    have hds : ∀ x ∈ ds, isAsciiDigit x = true := fun x hx => hdigits x (List.mem_cons_of_mem _ hx)
    rw [List.length_cons] at hn
    rw [luhnTotal] at hsum ⊢
    have hposition : n - 1 - i = ds.length + 1 := by omega
    rw [List.cons_append, luhnSum, toDigit_of_digit hd]
    dsimp only
    rw [hposition, addU32_of_lt (by omega), ih hds (by omega) (by omega), Nat.add_assoc sum]

/-- Behind a string of digits, of any length for which the sum does not overflow, the digit that
makes the number valid is the check digit. -/
theorem luhnValid_append_iff (hdigits : ∀ c ∈ digits, isAsciiDigit c = true)
    (hc : isAsciiDigit c = true) (hsum : luhnTotal digits + digitValue c < 2 ^ 32) :
    luhnValid (digits ++ [c]) = true ↔ luhnCheckDigit digits = .ok (digitValue c) := by
  have hall : ∀ d ∈ digits ++ [c], isAsciiDigit d = true := by
    intro d hd
    rcases List.mem_append.mp hd with hd | hd
    · exact hdigits d hd
    · rwa [List.mem_singleton.mp hd]
  have hlen : byteLen digits = 0 + digits.length := by
    rw [byteLen_of_ascii (isAscii_of_digits hdigits), Nat.zero_add]
  have hlen' : byteLen (digits ++ [c]) = 0 + digits.length + 1 := by
    rw [byteLen_of_ascii (isAscii_of_digits hall), List.length_append, Nat.zero_add]
    rfl
  have hlt := digitValue_lt hc
  unfold luhnValid luhnCheckDigit
  rw [luhnSum_eq hdigits hc hlen' (by omega), luhnCheckSum_eq hdigits hlen (by omega), ok_bind]
  dsimp only
  rw [beq_iff_eq, Except.ok.injEq, Nat.zero_add]
  omega

theorem luhnValid_append_iff_4242 :
    luhnValid ("4242".toList ++ ['2']) = true ↔ luhnCheckDigit "4242".toList = .ok (digitValue '2') :=
  luhnValid_append_iff (List.all_eq_true.mp (by decide)) (by decide) (by decide)

/-- The same text, but for digits in the place of digits. -/
def SameLayout : Str → Str → Prop :=
  List.Forall₂ fun c d => if isAsciiDigit c = true then isAsciiDigit d = true else d = c

lemma overlayDigits_sameLayout {original out : Str}
    (hdigits : ∀ c ∈ digits, isAsciiDigit c = true) (h : overlayDigits original digits = .ok out) :
    SameLayout original out := by
  induction original generalizing digits out with
  | nil =>
    obtain rfl := Except.ok.inj h
    exact .nil
  | cons c cs ih =>
    rw [overlayDigits.eq_def] at h
    dsimp only at h
    by_cases hc : isAsciiDigit c = true
    · rw [if_pos hc] at h
      cases digits with
      | nil => cases h
      | cons d ds =>
        obtain ⟨rest, hrest, hout⟩ := bind_eq_ok.mp h
        obtain rfl := Except.ok.inj hout
        have hds : ∀ x ∈ ds, isAsciiDigit x = true :=
          fun x hx => hdigits x (List.mem_cons_of_mem _ hx)
        refine .cons ?_ (ih hds hrest)
        rw [if_pos hc]
        exact hdigits d List.mem_cons_self
    · rw [if_neg hc] at h
      obtain ⟨rest, hrest, hout⟩ := bind_eq_ok.mp h
      obtain rfl := Except.ok.inj hout
      refine .cons ?_ (ih hdigits hrest)
      rw [if_neg hc]

lemma luhnValue_le (position : Nat) {d : Nat} (h : d < 10) : luhnValue position d ≤ 9 := by
  unfold luhnValue
  dsimp only
  split_ifs <;> omega

lemma luhnTotal_le (hdigits : ∀ c ∈ digits, isAsciiDigit c = true) :
    luhnTotal digits ≤ 9 * digits.length := by
  induction digits with
  | nil => exact Nat.le_refl 0
  | cons c cs ih =>
    have hvalue := luhnValue_le (cs.length + 1) (digitValue_lt (hdigits c List.mem_cons_self))
    have hrest := ih fun d hd => hdigits d (List.mem_cons_of_mem _ hd)
    rw [luhnTotal, List.length_cons]
    omega

lemma digitValue_ofNat {n : Nat} (h : n < 10) : digitValue (Char.ofNat (48 + n)) = n := by
  interval_cases n <;> decide

/-- A text with 16 digits, and no other, gets a fake, which has the layout of the text, the test
BIN, and a valid number. -/
theorem fakeCardVisa16_spec (X : Crates) (seed : List UInt8) (original : Str) :
    ∃ r, fakeCardVisa16 X seed original = .ok r ∧
      (r.isSome = true ↔ (original.filter isAsciiDigit).length = 16) ∧
      ∀ f, r = some f → SameLayout original f ∧ (f.filter isAsciiDigit).length = 16 ∧
        "4242".toList <+: f.filter isAsciiDigit ∧ luhnValid (f.filter isAsciiDigit) = true := by
  by_cases h16 : (original.filter isAsciiDigit).length = 16
  · obtain ⟨hlen, hdigits, hbin⟩ := cardDigits_spec X seed
    obtain ⟨d, hd, hlt⟩ := luhnCheckDigit_isOk hdigits
    have hcheck : isAsciiDigit (Char.ofNat (48 + d)) = true := isAsciiDigit_ofNat hlt
    have hall : ∀ c ∈ cardDigits X seed ++ [Char.ofNat (48 + d)], isAsciiDigit c = true := by
      intro c hc
      rcases List.mem_append.mp hc with hc | hc
      · exact hdigits c hc
      · rwa [List.mem_singleton.mp hc]
    have hcount : (original.filter isAsciiDigit).length =
        (cardDigits X seed ++ [Char.ofNat (48 + d)]).length := by
      rw [h16, List.length_append, hlen]
      rfl
    obtain ⟨out, hout, hfilter⟩ := overlayDigits_spec hall hcount
    have htotal := luhnTotal_le hdigits
    have hvalue := digitValue_ofNat hlt
    have hvalid : luhnValid (cardDigits X seed ++ [Char.ofNat (48 + d)]) = true := by
      rw [luhnValid_append_iff hdigits hcheck (by omega), hvalue]
      exact hd
    have hfake : fakeCardVisa16 X seed original = .ok (some out) := by
      unfold fakeCardVisa16
      rw [if_neg (not_not_intro h16), hd, ok_bind, hout, ok_bind]
    refine ⟨some out, hfake, iff_of_true rfl h16, ?_⟩
    rintro f ⟨⟩
    refine ⟨overlayDigits_sameLayout hall hout, ?_, ?_, ?_⟩
    · rw [hfilter, ← hcount, h16]
    · rw [hfilter]
      exact hbin.trans (List.prefix_append _ _)
    · rw [hfilter]
      exact hvalid
  · exact ⟨none, if_pos h16, iff_of_false nofun h16, nofun⟩

end Invisibool
