import Invisibool.Tokenizer.SessionLive

/-!
# Runs of a session map

The two maps are exact inverses of each other. Every operation but the bulk load keeps them so:
each place that takes a pair out, or stores one over another, repairs the other direction.
-/

namespace Invisibool
open Text

/-- One call of an operation that changes the map, with all it is given. -/
inductive SessionOp
  | getOrInsert (ord : HashOrder) (real : Str) (now : Nat) (makeFake : Str)
  | restore (fake : Str) (now : Nat)
  | importPairs (pairs : List (Str × Str)) (now : Nat)
  | clear

def SessionOp.isImport : SessionOp → Bool
  | importPairs _ _ => true
  | _ => false

namespace SessionMap

def apply (m : SessionMap) : SessionOp → SessionMap
  | .getOrInsert ord real now makeFake => (m.getOrInsert ord real now makeFake).1
  | .restore fake now => (m.restore fake now).1
  | .importPairs pairs now => m.importPairs pairs now
  | .clear => m.clear

def run (m : SessionMap) (ops : List SessionOp) : SessionMap := ops.foldl apply m

/-- The real value that the map pairs with a fake, expired or not. -/
def heldReal (m : SessionMap) (fake : Str) : Option Str := (m.byFake.lookup fake).map Entry.real

def Inverse (m : SessionMap) : Prop :=
  ∀ fake real, m.heldReal fake = some real ↔ m.byReal.lookup real = some fake

variable {ord : HashOrder} {m : SessionMap} {now : Nat} {fake real : Str}

lemma inverse_new (maxEntries ttl : Nat) : (SessionMap.new maxEntries ttl).Inverse := by
  intro fake real
  simp [heldReal, SessionMap.new]

lemma inverse_clear : m.clear.Inverse := by
  intro fake real
  simp [heldReal, clear]

lemma heldReal_removeFake (g : Str) :
    (m.removeFake g).heldReal fake = if fake = g then none else m.heldReal fake := by
  unfold heldReal
  rw [lookup_removeFake]
  split <;> rfl

lemma lookup_byReal_removeFake (g : Str) :
    (m.removeFake g).byReal.lookup real =
      if m.heldReal g = some real then none else m.byReal.lookup real := by
  unfold removeFake heldReal
  cases m.byFake.lookup g with
  | none => simp
  | some entry =>
    by_cases hr : entry.real = real
    · subst hr
      simp
    · simp [hr, AList.lookup_erase_ne (Ne.symm hr)]

lemma Inverse.removeFake (h : m.Inverse) (g : Str) : (m.removeFake g).Inverse := by
  intro fake real
  rw [heldReal_removeFake, lookup_byReal_removeFake]
  by_cases hf : fake = g
  · subst hf
    rw [if_pos rfl]
    split
    · simp
    · rename_i hne
      simpa [h fake real] using hne
  · rw [if_neg hf, h fake real]
    split
    · rename_i hg
      -- the value has one fake only
      have hr := (h g real).mp hg
      simp [hr, Ne.symm hf]
    · exact Iff.rfl

lemma Inverse.prune (h : m.Inverse) (now : Nat) : (m.prune now).Inverse := by
  unfold SessionMap.prune
  generalize m.expiredFakes now = gs
  induction gs generalizing m with
  | nil => exact h
  | cons g gs ih => exact ih (h.removeFake g)

lemma Inverse.evictLru (h : m.Inverse) (ord : HashOrder) : (m.evictLru ord).Inverse := by
  unfold SessionMap.evictLru
  split
  · exact h.removeFake _
  · exact h

@[simp] lemma heldReal_touch (g : Str) : (m.touch g now).heldReal fake = m.heldReal fake := by
  unfold touch heldReal
  split
  · rename_i entry hlook
    by_cases hf : fake = g
    · subst hf
      simp [hlook]
    · rw [AList.lookup_insert_ne hf]
  · rfl

@[simp] lemma touch_byReal (g : Str) : (m.touch g now).byReal = m.byReal := by
  unfold touch
  split <;> rfl

lemma Inverse.touch (h : m.Inverse) (g : Str) (now : Nat) : (m.touch g now).Inverse := by
  intro fake real
  rw [heldReal_touch, touch_byReal]
  exact h fake real

lemma heldReal_insertPair (g r : Str) :
    (m.insertPair g r now).heldReal fake = if fake = g then some r else m.heldReal fake := by
  unfold heldReal
  rw [insertPair_byFake]
  split
  · rename_i hf
    subst hf
    simp
  · rename_i hf
    rw [AList.lookup_insert_ne hf]

lemma lookup_byReal_insertPair (g r : Str) :
    (m.insertPair g r now).byReal.lookup real =
      if real = r then some g else if m.heldReal g = some real then none
        else m.byReal.lookup real := by
  unfold insertPair heldReal
  dsimp only
  by_cases hr : real = r
  · subst hr
    rw [AList.lookup_insert, if_pos rfl]
  · rw [AList.lookup_insert_ne hr, if_neg hr]
    cases m.byFake.lookup g with
    | none => simp
    | some old =>
      by_cases ho : old.real = real
      · subst ho
        simp
      · simp [ho, AList.lookup_erase_ne (Ne.symm ho)]

/-- A pair may be stored under any fake, as long as its value has no fake yet. -/
lemma Inverse.insertPair (h : m.Inverse) (g : Str) {r : Str} (now : Nat)
    (hr : m.byReal.lookup r = none) : (m.insertPair g r now).Inverse := by
  intro fake real
  rw [heldReal_insertPair, lookup_byReal_insertPair]
  by_cases hf : fake = g
  · subst hf
    rw [if_pos rfl]
    split
    · rename_i hreal
      simp [hreal]
    split
    · rename_i hreal _
      simpa using Ne.symm hreal
    · rename_i hreal hheld
      rw [← h fake real]
      simpa [hheld] using Ne.symm hreal
  · rw [if_neg hf, h fake real]
    split
    · rename_i hreal
      subst hreal
      simp [hr, Ne.symm hf]
    split
    · rename_i hheld
      have := (h g real).mp hheld
      simp [this, Ne.symm hf]
    · exact Iff.rfl

lemma lookup_byReal_evictLru_of_none (h : m.byReal.lookup real = none) :
    (m.evictLru ord).byReal.lookup real = none := by
  unfold evictLru
  split
  · rw [lookup_byReal_removeFake, h]
    split <;> rfl
  · exact h

lemma Inverse.getOrInsert (h : m.Inverse) (ord : HashOrder) (r : Str) (now : Nat) (g : Str) :
    (m.getOrInsert ord r now g).1.Inverse := by
  unfold SessionMap.getOrInsert
  dsimp only
  split
  · exact (h.prune now).touch _ now
  · rename_i hnone
    split
    · exact ((h.prune now).evictLru ord).insertPair g now (lookup_byReal_evictLru_of_none hnone)
    · exact (h.prune now).insertPair g now hnone

lemma Inverse.restore (h : m.Inverse) (g : Str) (now : Nat) : (m.restore g now).1.Inverse := by
  unfold SessionMap.restore
  dsimp only
  split
  · exact (h.prune now).touch g now
  · exact h.prune now

lemma Inverse.apply (h : m.Inverse) {op : SessionOp} (hop : op.isImport = false) :
    (m.apply op).Inverse := by
  cases op with
  | getOrInsert ord real now makeFake => exact h.getOrInsert ord real now makeFake
  | restore fake now => exact h.restore fake now
  | importPairs pairs now => cases hop
  | clear => exact inverse_clear

theorem Inverse.run (h : m.Inverse) {ops : List SessionOp}
    (hops : ∀ op ∈ ops, op.isImport = false) : (m.run ops).Inverse := by
  induction ops generalizing m with
  | nil => exact h
  | cons op ops ih =>
    exact ih (h.apply (hops op (by simp))) fun op' hop' => hops op' (by simp [hop'])

lemma getOrInsert_snd (r g : Str) :
    (m.getOrInsert ord r now g).1.byReal.lookup r = some (m.getOrInsert ord r now g).2 := by
  unfold getOrInsert
  dsimp only
  split
  · rename_i fake hheld
    rw [touch_byReal, hheld]
  · rw [lookup_byReal_insertPair, if_pos rfl]

lemma heldReal_prune :
    (m.prune now).heldReal fake = some real ↔ m.Live now fake real := by
  unfold heldReal Live
  simp only [Option.map_eq_some_iff, lookup_prune]
  constructor
  · rintro ⟨entry, ⟨hlook, hexp⟩, hreal⟩
    exact ⟨entry, hlook, hreal, hexp⟩
  · rintro ⟨entry, hlook, hreal, hexp⟩
    exact ⟨entry, ⟨hlook, hexp⟩, hreal⟩

lemma Inverse.getOrInsert_of_live (h : m.Inverse) {r g : Str} (hlive : m.Live now fake r) :
    (m.getOrInsert ord r now g).2 = fake := by
  have hheld := ((h.prune now) fake r).mp (heldReal_prune.mpr hlive)
  unfold SessionMap.getOrInsert
  dsimp only
  rw [hheld]

/-- In every state that a run without bulk loads reaches, whatever the fakes and the clock, the
maps are inverses of each other; `get_or_insert` gives a fake that belongs to the value, the
stored one unless it has expired; and `restore` gives the value of a fake exactly when the pair
is in the map and has not expired. -/
theorem run_consistent (maxEntries ttl : Nat) {ops : List SessionOp}
    (hops : ∀ op ∈ ops, op.isImport = false) :
    let m := (SessionMap.new maxEntries ttl).run ops
    m.Inverse ∧
    (∀ ord real now makeFake,
      (m.getOrInsert ord real now makeFake).1.byReal.lookup real =
          some (m.getOrInsert ord real now makeFake).2 ∧
        ∀ fake, m.Live now fake real → (m.getOrInsert ord real now makeFake).2 = fake) ∧
    ∀ fake now real, (m.restore fake now).2 = some real ↔ m.Live now fake real := by
  intro m
  have hm : m.Inverse := (inverse_new maxEntries ttl).run hops
  constructor
  · exact hm
  constructor
  · intro ord real now makeFake
    exact ⟨getOrInsert_snd real makeFake, fun fake hlive => hm.getOrInsert_of_live hlive⟩
  · intro fake now real
    rw [restore_snd, realOf_eq_some]

/-- Two values with one fake, the second one stored while the clock goes backwards. -/
theorem run_consistent_collision :
    let m := (SessionMap.new 2 10).run [.getOrInsert .stored "a".toList 7 "f".toList,
      .getOrInsert .stored "b".toList 3 "f".toList]
    m.Inverse ∧
    (∀ ord real now makeFake,
      (m.getOrInsert ord real now makeFake).1.byReal.lookup real =
          some (m.getOrInsert ord real now makeFake).2 ∧
        ∀ fake, m.Live now fake real → (m.getOrInsert ord real now makeFake).2 = fake) ∧
    ∀ fake now real, (m.restore fake now).2 = some real ↔ m.Live now fake real :=
  run_consistent 2 10 (by simp [SessionOp.isImport])

end SessionMap

end Invisibool
