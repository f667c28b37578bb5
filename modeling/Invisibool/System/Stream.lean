import Mathlib.Data.List.Basic
import Mathlib.Tactic.Common

/-!
# Byte streams

A stream hands out its bytes in pieces, as they come, and may be interrupted, end or fail between
them. `read_exact` puts pieces together until it has what was asked for.
-/

namespace Stream

variable {ε : Type}

/-- What one `read` of a stream can meet. -/
inductive Piece (ε : Type)
  | data (bytes : List UInt8)
  | interrupted
  | fail (e : ε)
  deriving DecidableEq, Repr

/-- The pieces to come. An empty piece is an end of the stream, as is the end of the list. -/
abbrev Reader (ε : Type) := List (Piece ε)

/-- `Read::read_exact` of so many bytes; `none` is the early end of the stream. -/
def readExact : Nat → Reader ε → Except (Option ε) (List UInt8) × Reader ε
  | 0, r => (.ok [], r)
  | _ + 1, [] => (.error none, [])
  | n + 1, .interrupted :: r => readExact (n + 1) r
  | _ + 1, .fail e :: r => (.error (some e), r)
  | n + 1, .data bytes :: r =>
    if bytes = [] then (.error none, r)
    else if n + 1 < bytes.length then
      (.ok (bytes.take (n + 1)), .data (bytes.drop (n + 1)) :: r)
    else
      match readExact (n + 1 - bytes.length) r with
      | (.ok rest, r') => (.ok (bytes ++ rest), r')
      | (.error e, r') => (.error e, r')

/-- The stream hands out the bytes, in whatever pieces, and is then the other stream. -/
inductive Delivers : Reader ε → List UInt8 → Reader ε → Prop
  | done {r} : Delivers r [] r
  | interrupted {r bytes rest} : Delivers r bytes rest →
      Delivers (.interrupted :: r) bytes rest
  | whole {piece r bytes rest} : piece ≠ [] → Delivers r bytes rest →
      Delivers (.data piece :: r) (piece ++ bytes) rest
  | part {bytes later r} : bytes ≠ [] → later ≠ [] →
      Delivers (.data (bytes ++ later) :: r) bytes (.data later :: r)

/-- The stream hands out some beginning of the bytes, in whatever pieces, and then ends or fails
with one of the errors. -/
inductive Gives (P : ε → Prop) : Reader ε → List UInt8 → Prop
  | ended {bytes} : Gives P [] bytes
  | closed {r bytes} : Gives P (.data [] :: r) bytes
  | failed {e r bytes} : P e → Gives P (.fail e :: r) bytes
  | interrupted {r bytes} : Gives P r bytes → Gives P (.interrupted :: r) bytes
  | data {piece r bytes} : piece ≠ [] → Gives P r bytes →
      Gives P (.data piece :: r) (piece ++ bytes)

variable {r rest : Reader ε} {bytes : List UInt8}

/-- A read that succeeds gives as many bytes as were asked for. -/
lemma length_of_readExact {n : Nat} {r' : Reader ε} (h : readExact n r = (.ok bytes, r')) :
    bytes.length = n := by
  induction r generalizing n bytes r' with
  | nil =>
    cases n with
    | zero => simp_all [readExact]
    | succ n => simp [readExact] at h
  | cons piece r ih =>
    cases n with
    | zero => simp_all [readExact]
    | succ n =>
      cases piece with
      | interrupted => exact ih h
      | fail e => simp [readExact] at h
      | data piece =>
        rw [readExact] at h
        split at h
        · cases (Prod.mk.inj h).1
        split at h
        · rename_i hlt
          obtain rfl := Except.ok.inj (Prod.mk.inj h).1
          rw [List.length_take]
          omega
        · rename_i hge
          split at h
          · rename_i rest r'' hrest
            obtain rfl := Except.ok.inj (Prod.mk.inj h).1
            rw [List.length_append, ih hrest]
            omega
          · cases (Prod.mk.inj h).1

lemma readExact_zero : readExact 0 r = (.ok [], r) := by
  unfold readExact
  rfl

lemma readExact_part {a later : List UInt8} {n : Nat} (hlen : a.length = n + 1)
    (hlater : later ≠ []) : readExact (n + 1) (.data (a ++ later) :: r) =
      (.ok a, .data later :: r) := by
  have ha : a ++ later ≠ [] := fun h => hlater (List.append_eq_nil_iff.mp h).2
  have hlt : n + 1 < (a ++ later).length := by
    rw [List.length_append, hlen]
    have := List.length_pos_iff.mpr hlater
    omega
  rw [readExact, if_neg ha, if_pos hlt, ← hlen, List.take_left, List.drop_left]

lemma readExact_whole {piece : List UInt8} {n : Nat} {r' : Reader ε} (hpiece : piece ≠ [])
    (h : readExact n r = (.ok bytes, r')) :
    readExact (piece.length + n) (.data piece :: r) = (.ok (piece ++ bytes), r') := by
  obtain ⟨k, hk⟩ := Nat.exists_eq_succ_of_ne_zero (mt List.length_eq_zero_iff.mp hpiece)
  rw [hk, Nat.succ_add, readExact, if_neg hpiece, if_neg (by omega), hk,
    show k + n + 1 - k.succ = n by omega, h]

lemma readExact_whole_error {piece : List UInt8} {n : Nat} {r' : Reader ε} {e : Option ε}
    (hpiece : piece ≠ []) (h : readExact n r = (.error e, r')) :
    readExact (piece.length + n) (.data piece :: r) = (.error e, r') := by
  obtain ⟨k, hk⟩ := Nat.exists_eq_succ_of_ne_zero (mt List.length_eq_zero_iff.mp hpiece)
  have hn : n ≠ 0 := by
    rintro rfl
    rw [readExact_zero] at h
    cases h
  rw [hk, Nat.succ_add, readExact, if_neg hpiece, if_neg (by omega), hk,
    show k + n + 1 - k.succ = n by omega, h]

/-- Reading what a stream is about to hand out gives just that, and leaves the rest to be handed
out, however the pieces are cut. -/
theorem Delivers.readExact {a b : List UInt8} (h : Delivers r (a ++ b) rest) :
    ∃ r', Stream.readExact a.length r = (.ok a, r') ∧ Delivers r' b rest := by
  generalize hbytes : a ++ b = bytes at h
  induction h generalizing a b with
  | done =>
    obtain ⟨rfl, rfl⟩ := List.append_eq_nil_iff.mp hbytes
    exact ⟨_, readExact_zero, .done⟩
  | @interrupted r bytes rest hr ih =>
    cases a with
    | nil =>
      obtain rfl : b = bytes := hbytes
      exact ⟨_, readExact_zero, .interrupted hr⟩
    | cons x a => exact ih hbytes
  | @whole piece r bytes rest hpiece hr ih =>
    cases a with
    | nil =>
      obtain rfl : b = piece ++ bytes := hbytes
      exact ⟨_, readExact_zero, .whole hpiece hr⟩
    | cons x a =>
      rcases List.append_eq_append_iff.mp hbytes with ⟨later, rfl, rfl⟩ | ⟨a', ha, rfl⟩
      · cases later with
        | nil =>
          rw [List.append_nil] at hpiece ⊢
          exact ⟨r, readExact_whole hpiece readExact_zero |>.trans (by rw [List.append_nil]), hr⟩
        | cons y later =>
          exact ⟨_, readExact_part rfl (List.cons_ne_nil y later), .whole (List.cons_ne_nil y later) hr⟩
      · obtain ⟨r', hread, hrest⟩ := ih rfl
        rw [ha, List.length_append]
        exact ⟨r', readExact_whole hpiece hread, hrest⟩
  | @part bytes later r hne hlater =>
    cases a with
    | nil =>
      obtain rfl : b = bytes := hbytes
      exact ⟨_, readExact_zero, .part hne hlater⟩
    | cons x a =>
      subst hbytes
      rw [List.append_assoc]
      refine ⟨_, readExact_part rfl fun h => hlater (List.append_eq_nil_iff.mp h).2, ?_⟩
      cases b with
      | nil => exact .done
      | cons y b => exact .part (List.cons_ne_nil y b) hlater

/-- A read of a stream that hands out some beginning of the bytes gives what was asked for, or
fails as the stream does. -/
theorem Gives.readExact {P : ε → Prop} {a b : List UInt8} (h : Gives P r (a ++ b)) :
    (∃ r', Stream.readExact a.length r = (.ok a, r') ∧ Gives P r' b) ∨
      ∃ e r', Stream.readExact a.length r = (.error e, r') ∧ ∀ x ∈ e, P x := by
  generalize hbytes : a ++ b = bytes at h
  induction h generalizing a b with
  | ended =>
    cases a with
    | nil => exact .inl ⟨[], readExact_zero, .ended⟩
    | cons x a => exact .inr ⟨none, [], rfl, fun x hx => by cases hx⟩
  | @closed r bytes =>
    cases a with
    | nil => exact .inl ⟨_, readExact_zero, .closed⟩
    | cons x a => exact .inr ⟨none, r, rfl, fun x hx => by cases hx⟩
  | @failed e r bytes he =>
    cases a with
    | nil => exact .inl ⟨_, readExact_zero, .failed he⟩
    | cons x a => exact .inr ⟨some e, r, rfl, fun x hx => by cases hx; exact he⟩
  | @interrupted r bytes hr ih =>
    cases a with
    | nil =>
      obtain rfl : b = bytes := hbytes
      exact .inl ⟨_, readExact_zero, .interrupted hr⟩
    | cons x a => exact ih hbytes
  | @data piece r bytes hpiece hr ih =>
    cases a with
    | nil =>
      obtain rfl : b = piece ++ bytes := hbytes
      exact .inl ⟨_, readExact_zero, .data hpiece hr⟩
    | cons x a =>
      rcases List.append_eq_append_iff.mp hbytes with ⟨later, rfl, rfl⟩ | ⟨a', ha, rfl⟩
      · cases later with
        | nil =>
          rw [List.append_nil] at hpiece ⊢
          exact .inl ⟨r, readExact_whole hpiece readExact_zero |>.trans
            (by rw [List.append_nil]), hr⟩
        | cons y later =>
          exact .inl ⟨_, readExact_part rfl (List.cons_ne_nil y later),
            .data (List.cons_ne_nil y later) hr⟩
      · rw [ha, List.length_append]
        rcases ih rfl with ⟨r', hread, hrest⟩ | ⟨e, r', hread, he⟩
        · exact .inl ⟨r', readExact_whole hpiece hread, hrest⟩
        · exact .inr ⟨e, r', readExact_whole_error hpiece hread, he⟩

/-- `Read::read_to_end`. -/
def readToEnd : Reader ε → Except ε (List UInt8)
  | [] => .ok []
  | .interrupted :: r => readToEnd r
  | .fail e :: _ => .error e
  | .data piece :: r => if piece = [] then .ok [] else (readToEnd r).map (piece ++ ·)

/-- Nothing more comes. -/
inductive AtEnd : Reader ε → Prop
  | ended : AtEnd []
  | closed {r : Reader ε} : AtEnd (.data [] :: r)
  | interrupted {r : Reader ε} : AtEnd r → AtEnd (.interrupted :: r)

/-- The stream hands out the bytes and ends. -/
def Carries (r : Reader ε) (bytes : List UInt8) : Prop :=
  ∃ rest, Delivers r bytes rest ∧ AtEnd rest

lemma readToEnd_of_atEnd {r : Reader ε} (h : AtEnd r) : readToEnd r = .ok [] := by
  induction h with
  | ended => rfl
  | closed => rfl
  | interrupted _ ih => exact ih

lemma readToEnd_data {piece : List UInt8} {r : Reader ε} (hpiece : piece ≠ []) :
    readToEnd (.data piece :: r) = (readToEnd r).map (piece ++ ·) := if_neg hpiece

/-- However the bytes are cut, all of them are read. -/
theorem readToEnd_eq_ok {r : Reader ε} {bytes : List UInt8} :
    readToEnd r = .ok bytes ↔ Carries r bytes := by
  constructor
  · intro h
    induction r generalizing bytes with
    | nil =>
      obtain rfl := Except.ok.inj h
      exact ⟨[], .done, .ended⟩
    | cons piece r ih =>
      cases piece with
      | interrupted =>
        obtain ⟨rest, hdelivers, hend⟩ := ih h
        exact ⟨rest, .interrupted hdelivers, hend⟩
      | fail e => cases h
      | data piece =>
        by_cases hpiece : piece = []
        · subst hpiece
          obtain rfl := Except.ok.inj h
          exact ⟨_, .done, .closed⟩
        · rw [readToEnd_data hpiece] at h
          cases hr : readToEnd r with
          | error e =>
            rw [hr] at h
            cases h
          | ok bytes' =>
            rw [hr] at h
            obtain rfl := Except.ok.inj h
            obtain ⟨rest, hdelivers, hend⟩ := ih hr
            exact ⟨rest, .whole hpiece hdelivers, hend⟩
  · rintro ⟨rest, hdelivers, hend⟩
    induction hdelivers with
    | done => exact readToEnd_of_atEnd hend
    | interrupted _ ih => exact ih hend
    | whole hpiece _ ih =>
      rw [readToEnd_data hpiece, ih hend]
      rfl
    | part _ hlater =>
      cases hend
      exact absurd rfl hlater

end Stream
