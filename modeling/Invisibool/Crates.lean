import Invisibool.Matching.LeftmostLongest

/-!
# Third-party code

The crates the engine calls are parameters of the model. What the engine relies on is stated as
one structure of hypotheses for each crate.
-/

namespace Invisibool
open Matching

structure Crates where
  /-- `AhoCorasick::build` with leftmost-longest semantics; `none` is a `BuildError`. -/
  ahoCorasick : List (List UInt8) → Option (List UInt8 → List Found)
  /-- `FF1::<Aes256>::new` and `encrypt`, from the key, the radix and the tweak. -/
  ff1Encrypt : List UInt8 → Nat → Vector UInt8 16 → List Nat → Option (List Nat)
  /-- `FF1::<Aes256>::new` and `decrypt`. -/
  ff1Decrypt : List UInt8 → Nat → Vector UInt8 16 → List Nat → Option (List Nat)
  /-- `Hkdf::<Sha256>::new(None, ikm)` and `expand(info)` into so many bytes. -/
  hkdfExpand : (ikm info : List UInt8) → Nat → Option (List UInt8)
  hmacSha256 : (key message : List UInt8) → Vector UInt8 32
  sha256 : List UInt8 → Vector UInt8 32

namespace Crates

variable (X : Crates)

/-- The automaton reports the leftmost-longest non-overlapping matches. -/
structure MatcherLawful : Prop where
  leftmostLongest : ∀ pats ac, X.ahoCorasick pats = some ac →
    ∀ hay, LeftmostLongest pats hay 0 none (ac hay)

/-- FF1 permutes the numeral strings of each length over the radix, once the domain has 10^6
elements, and nothing it returns leaves the radix. -/
structure Ff1Lawful : Prop where
  encrypt_total : ∀ key radix tweak ns, key.length = 32 → 2 ≤ radix → radix ≤ 65535 →
    (∀ n ∈ ns, n < radix) → ns.length < 2 ^ 32 → 1000000 ≤ radix ^ ns.length →
    ∃ ct, X.ff1Encrypt key radix tweak ns = some ct
  encrypt_valid : ∀ key radix tweak ns ct, X.ff1Encrypt key radix tweak ns = some ct →
    ct.length = ns.length ∧ ∀ n ∈ ct, n < radix
  decrypt_valid : ∀ key radix tweak ns pt, X.ff1Decrypt key radix tweak ns = some pt →
    pt.length = ns.length ∧ ∀ n ∈ pt, n < radix
  decrypt_encrypt : ∀ key radix tweak ns ct, X.ff1Encrypt key radix tweak ns = some ct →
    X.ff1Decrypt key radix tweak ct = some ns
  encrypt_decrypt : ∀ key radix tweak ct pt, X.ff1Decrypt key radix tweak ct = some pt →
    X.ff1Encrypt key radix tweak pt = some ct

/-- HKDF-SHA256 expands to at most `255 * 32` bytes. -/
structure HkdfLawful : Prop where
  expand_isSome : ∀ ikm info n, (X.hkdfExpand ikm info n).isSome ↔ n ≤ 255 * 32
  expand_length : ∀ ikm info n out, X.hkdfExpand ikm info n = some out → out.length = n

/-- Move every numeral on by `d`, over a domain that FF1 accepts. -/
def shift (d radix : Nat) (ns : List Nat) : Option (List Nat) :=
  if (∀ n ∈ ns, n < radix) ∧ 1000000 ≤ radix ^ ns.length then
    some (ns.map fun n => (n + d) % radix)
  else none

/-- Crates that are simple enough to compute with by hand. -/
def reference : Crates where
  ahoCorasick pats := some (findAll pats)
  ff1Encrypt _ radix _ ns := shift 1 radix ns
  ff1Decrypt _ radix _ ns := shift (radix - 1) radix ns
  hkdfExpand _ _ n := if n ≤ 255 * 32 then some (List.replicate n 0) else none
  hmacSha256 _ _ := Vector.replicate 32 0
  sha256 message := Vector.ofFn fun i => UInt8.ofNat ((message.map UInt8.toNat).sum + i)

lemma shift_eq_some {d radix : Nat} {ns ms : List Nat} (h : shift d radix ns = some ms) :
    (∀ n ∈ ns, n < radix) ∧ 1000000 ≤ radix ^ ns.length ∧
      ms = ns.map fun n => (n + d) % radix := by
  unfold shift at h
  split at h
  · rename_i hdom
    exact ⟨hdom.1, hdom.2, (Option.some.inj h).symm⟩
  · cases h

lemma shift_valid {d radix : Nat} {ns ms : List Nat} (h : shift d radix ns = some ms) :
    ms.length = ns.length ∧ ∀ m ∈ ms, m < radix := by
  obtain ⟨hlt, -, rfl⟩ := shift_eq_some h
  refine ⟨by simp, fun m hm => ?_⟩
  obtain ⟨n, hn, rfl⟩ := List.mem_map.mp hm
  exact Nat.mod_lt _ (Nat.zero_lt_of_lt (hlt n hn))

lemma shift_radix_pos {d radix : Nat} {ns ms : List Nat} (h : shift d radix ns = some ms) :
    0 < radix := by
  obtain ⟨hlt, hdom, -⟩ := shift_eq_some h
  cases ns with
  | nil => simp at hdom
  | cons n ns => exact Nat.zero_lt_of_lt (hlt n (by simp))

lemma shift_shift {d d' radix : Nat} {ns ms : List Nat} (hd : d + d' = radix)
    (h : shift d radix ns = some ms) : shift d' radix ms = some ns := by
  obtain ⟨hlen, hms⟩ := shift_valid h
  obtain ⟨hlt, hdom, rfl⟩ := shift_eq_some h
  unfold shift
  rw [if_pos ⟨hms, hlen ▸ hdom⟩, List.map_map]
  have hid : ∀ n ∈ ns, ((fun m => (m + d') % radix) ∘ fun n => (n + d) % radix) n = n := by
    intro n hn
    have : n + d + d' = n + radix := by omega
    simp only [Function.comp_apply, Nat.mod_add_mod, this, Nat.add_mod_right]
    exact Nat.mod_eq_of_lt (hlt n hn)
  rw [List.map_congr_left hid, List.map_id']

lemma shift_isSome {d radix : Nat} {ns : List Nat} (h : ∀ n ∈ ns, n < radix)
    (hdom : 1000000 ≤ radix ^ ns.length) : ∃ ms, shift d radix ns = some ms := by
  unfold shift
  rw [if_pos ⟨h, hdom⟩]
  exact ⟨_, rfl⟩

theorem reference_matcherLawful : reference.MatcherLawful where
  leftmostLongest pats ac h hay := by
    obtain rfl := Option.some.inj h
    exact findAll_leftmostLongest

theorem reference_ff1Lawful : reference.Ff1Lawful where
  encrypt_total _ _ _ _ _ _ _ hlt _ hdom := shift_isSome hlt hdom
  encrypt_valid _ _ _ _ _ h := shift_valid h
  decrypt_valid _ _ _ _ _ h := shift_valid h
  decrypt_encrypt key radix tweak ns ct h := by
    have := shift_radix_pos h
    exact shift_shift (by omega) h
  encrypt_decrypt key radix tweak ct pt h := by
    have := shift_radix_pos h
    exact shift_shift (by omega) h

theorem reference_hkdfLawful : reference.HkdfLawful where
  expand_isSome ikm info n := by
    change Option.isSome (if n ≤ 255 * 32 then _ else _) = true ↔ _
    split <;> simp_all
  expand_length ikm info n out h := by
    change (if n ≤ 255 * 32 then some (List.replicate n (0 : UInt8)) else none) = some out at h
    split at h
    · obtain rfl := Option.some.inj h
      simp
    · cases h

end Crates

end Invisibool
