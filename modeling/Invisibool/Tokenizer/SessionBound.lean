import Invisibool.Tokenizer.SessionImport
import Mathlib.Data.Finset.Card

/-!
# The size of a session map

`get_or_insert` evicts before it stores, which keeps the map within a capacity that is not 0. The
bulk load stores whatever it is given.
-/

namespace Invisibool
open Text

namespace SessionMap

def fakes (m : SessionMap) : Finset Str := m.byFake.keys.toFinset

/-- What keeps the map within its capacity: room for a pair at all, and as many fakes held and
loaded together as there is room for. -/
def WithinBound (m : SessionMap) : SessionOp → Prop
  | .getOrInsert _ _ _ _ => 0 < m.maxEntries
  | .importPairs pairs _ => (m.fakes ∪ (pairs.map Prod.fst).toFinset).card ≤ m.maxEntries
  | .restore _ _ | .clear => True

variable {ord : HashOrder} {m : SessionMap} {now : Nat} {fake real : Str}

lemma mem_fakes : fake ∈ m.fakes ↔ fake ∈ m.byFake := by
  rw [fakes, List.mem_toFinset, AList.mem_keys]

lemma len_eq_card : m.len = m.fakes.card := by
  rw [fakes, List.toFinset_card_of_nodup m.byFake.keys_nodup, AList.keys, List.keys,
    List.length_map, len]

lemma mem_fakes_of_heldReal (h : m.heldReal fake = some real) : fake ∈ m.fakes := by
  rw [mem_fakes, ← AList.lookup_isSome]
  unfold heldReal at h
  rw [Option.map_eq_some_iff] at h
  obtain ⟨entry, hlook, -⟩ := h
  rw [hlook]
  rfl

lemma fakes_removeFake (g : Str) : (m.removeFake g).fakes = m.fakes.erase g := by
  ext fake
  rw [mem_fakes, Finset.mem_erase, mem_fakes, ← AList.lookup_isSome, lookup_removeFake,
    ← AList.lookup_isSome]
  by_cases hfake : fake = g
  · simp [hfake]
  · simp [hfake]

lemma fakes_prune_subset : (m.prune now).fakes ⊆ m.fakes := by
  unfold prune
  generalize m.expiredFakes now = gs
  induction gs generalizing m with
  | nil => exact Finset.Subset.refl _
  | cons g gs ih =>
    refine Finset.Subset.trans ih ?_
    rw [fakes_removeFake]
    exact Finset.erase_subset g m.fakes

lemma len_prune_le : (m.prune now).len ≤ m.len := by
  rw [len_eq_card, len_eq_card]
  exact Finset.card_le_card fakes_prune_subset

lemma fakes_touch (g : Str) : (m.touch g now).fakes = m.fakes := by
  unfold touch
  split
  · rename_i entry hlook
    have hg : g ∈ m.byFake := AList.lookup_isSome.mp (by rw [hlook]; rfl)
    ext fake
    rw [mem_fakes, mem_fakes, AList.mem_insert]
    constructor
    · rintro (rfl | h)
      · exact hg
      · exact h
    · exact Or.inr
  · rfl

@[simp] lemma len_touch (g : Str) : (m.touch g now).len = m.len := by
  rw [len_eq_card, len_eq_card, fakes_touch]

lemma lruFake_mem {g : Str} (h : m.lruFake ord = some g) : g ∈ m.fakes := by
  unfold lruFake at h
  rw [Option.map_eq_some_iff] at h
  obtain ⟨entry, hmin, rfl⟩ := h
  have hmem := (ord.perm _).mem_iff.mp (List.argmin_mem hmin)
  rw [mem_fakes, AList.mem_keys]
  exact List.mem_map_of_mem hmem

lemma lruFake_eq_none (h : m.lruFake ord = none) : m.len = 0 := by
  unfold lruFake at h
  rw [Option.map_eq_none_iff, List.argmin_eq_none] at h
  rw [len, ← (ord.perm _).length_eq, h, List.length_nil]

lemma len_evictLru : (m.evictLru ord).len = m.len - 1 := by
  unfold evictLru
  split
  · rename_i g hg
    rw [len_eq_card, len_eq_card, fakes_removeFake, Finset.card_erase_of_mem (lruFake_mem hg)]
  · rename_i hnone
    rw [lruFake_eq_none hnone]

lemma fakes_insertPair (g r : Str) : (m.insertPair g r now).fakes = insert g m.fakes := by
  ext fake
  rw [mem_fakes, insertPair_byFake, AList.mem_insert, Finset.mem_insert, mem_fakes]

lemma len_insertPair_le (g r : Str) : (m.insertPair g r now).len ≤ m.len + 1 := by
  rw [len_eq_card, len_eq_card, fakes_insertPair]
  exact Finset.card_insert_le g m.fakes

lemma len_insertPair_pos (g r : Str) : 0 < (m.insertPair g r now).len := by
  rw [len_eq_card, fakes_insertPair, Finset.card_pos]
  exact Finset.insert_nonempty g m.fakes

lemma fakes_importPairs (pairs : List (Str × Str)) :
    (m.importPairs pairs now).fakes = m.fakes ∪ (pairs.map Prod.fst).toFinset := by
  induction pairs using List.reverseRecOn with
  | nil => simp [importPairs]
  | append_singleton pairs p ih =>
    rw [importPairs_concat, fakes_insertPair, ih, ← Finset.union_insert]
    congr 1
    ext fake
    simp

lemma len_importPairs_le (pairs : List (Str × Str)) :
    (m.importPairs pairs now).len ≤ m.len + pairs.length := by
  induction pairs using List.reverseRecOn with
  | nil => exact Nat.le_refl _
  | append_singleton pairs p ih =>
    rw [importPairs_concat, List.length_append]
    exact (len_insertPair_le _ _).trans (Nat.add_le_add_right ih 1)

@[simp] lemma length_entries : (m.entries ord).length = m.len := by
  rw [entries, List.length_map, (ord.perm _).length_eq, len]

@[simp] lemma importPairs_maxEntries (pairs : List (Str × Str)) :
    (m.importPairs pairs now).maxEntries = m.maxEntries := by
  induction pairs using List.reverseRecOn with
  | nil => rfl
  | append_singleton pairs p ih =>
    rw [importPairs_concat]
    exact ih

@[simp] lemma touch_maxEntries (g : Str) : (m.touch g now).maxEntries = m.maxEntries := by
  unfold touch
  split <;> rfl

@[simp] lemma evictLru_maxEntries : (m.evictLru ord).maxEntries = m.maxEntries := by
  unfold evictLru
  split
  · exact removeFake_maxEntries _
  · rfl

@[simp] lemma getOrInsert_maxEntries (r g : Str) :
    (m.getOrInsert ord r now g).1.maxEntries = m.maxEntries := by
  unfold getOrInsert
  dsimp only
  split
  · simp
  · change SessionMap.maxEntries (if _ then _ else _) = _
    split <;> simp

@[simp] lemma restore_maxEntries (g : Str) : (m.restore g now).1.maxEntries = m.maxEntries := by
  unfold restore
  dsimp only
  split <;> simp

@[simp] lemma apply_maxEntries (op : SessionOp) : (m.apply op).maxEntries = m.maxEntries := by
  cases op with
  | getOrInsert ord real now makeFake => exact getOrInsert_maxEntries real makeFake
  | restore fake now => exact restore_maxEntries fake
  | importPairs pairs now => exact importPairs_maxEntries pairs
  | clear => rfl

@[simp] lemma run_maxEntries (ops : List SessionOp) : (m.run ops).maxEntries = m.maxEntries := by
  induction ops generalizing m with
  | nil => rfl
  | cons op ops ih => exact ih.trans (apply_maxEntries op)

lemma run_concat (ops : List SessionOp) (op : SessionOp) :
    m.run (ops ++ [op]) = (m.run ops).apply op := by
  simp [run]

lemma PointersHold.removeFake (h : m.PointersHold) (g : Str) : (m.removeFake g).PointersHold := by
  intro fake real
  rw [lookup_byReal_removeFake, heldReal_removeFake]
  split
  · rintro ⟨⟩
  · rename_i hheld
    intro hlook
    split
    · rename_i hfake
      exact absurd (hfake ▸ h fake real hlook) hheld
    · exact h fake real hlook

lemma PointersHold.prune (h : m.PointersHold) (now : Nat) : (m.prune now).PointersHold := by
  unfold SessionMap.prune
  generalize m.expiredFakes now = gs
  induction gs generalizing m with
  | nil => exact h
  | cons g gs ih => exact ih (h.removeFake g)

lemma PointersHold.evictLru (h : m.PointersHold) (ord : HashOrder) :
    (m.evictLru ord).PointersHold := by
  unfold SessionMap.evictLru
  split
  · exact h.removeFake _
  · exact h

lemma PointersHold.touch (h : m.PointersHold) (g : Str) (now : Nat) :
    (m.touch g now).PointersHold := by
  intro fake real
  rw [heldReal_touch, touch_byReal]
  exact h fake real

lemma PointersHold.apply (h : m.PointersHold) (op : SessionOp) : (m.apply op).PointersHold := by
  cases op with
  | getOrInsert ord real now makeFake =>
    unfold SessionMap.apply SessionMap.getOrInsert
    dsimp only
    split
    · exact (h.prune now).touch _ now
    split
    · exact ((h.prune now).evictLru ord).insertPair makeFake real now
    · exact (h.prune now).insertPair makeFake real now
  | restore fake now =>
    unfold SessionMap.apply SessionMap.restore
    dsimp only
    split
    · exact (h.prune now).touch fake now
    · exact h.prune now
  | importPairs pairs now => exact h.importPairs pairs now
  | clear => exact inverse_clear.pointersHold

lemma PointersHold.run (h : m.PointersHold) (ops : List SessionOp) : (m.run ops).PointersHold := by
  induction ops generalizing m with
  | nil => exact h
  | cons op ops ih => exact ih (h.apply op)

lemma len_getOrInsert_le (hpos : 0 < m.maxEntries) (hlen : m.len ≤ m.maxEntries) (r g : Str) :
    (m.getOrInsert ord r now g).1.len ≤ m.maxEntries := by
  have hprune : (m.prune now).len ≤ m.maxEntries := len_prune_le.trans hlen
  unfold getOrInsert
  dsimp only
  split
  · rwa [len_touch]
  · refine (len_insertPair_le _ _).trans ?_
    split
    · rw [len_evictLru]
      omega
    · rename_i hroom
      rw [prune_maxEntries] at hroom
      omega

lemma len_insertAll_le (hpos : 0 < m.maxEntries) (hlen : m.len ≤ m.maxEntries)
    (calls : List (Str × Str)) : (m.insertAll ord now calls).len ≤ m.maxEntries := by
  induction calls generalizing m with
  | nil => exact hlen
  | cons c calls ih =>
    have hmax : (m.getOrInsert ord c.1 now c.2).1.maxEntries = m.maxEntries :=
      getOrInsert_maxEntries c.1 c.2
    have hstep : (m.getOrInsert ord c.1 now c.2).1.len ≤ m.maxEntries :=
      len_getOrInsert_le hpos hlen c.1 c.2
    rw [← hmax] at hpos hstep ⊢
    exact ih hpos hstep

/-- In an empty map there is nothing that a value could point at, and the call stores its pair. -/
lemma len_getOrInsert_pos (hpointers : m.PointersHold) (hlen : m.len = 0) (ord : HashOrder)
    (now : Nat) (r g : Str) : 0 < (m.getOrInsert ord r now g).1.len := by
  unfold getOrInsert
  dsimp only
  split
  · rename_i fake hlook
    have hfake := mem_fakes_of_heldReal (hpointers.prune now fake r hlook)
    have hpos := Finset.card_pos.mpr ⟨fake, fakes_prune_subset hfake⟩
    rw [← len_eq_card, hlen] at hpos
    exact absurd hpos (lt_irrefl 0)
  · exact len_insertPair_pos g r

lemma len_restore_le (g : Str) : (m.restore g now).1.len ≤ m.len := by
  unfold restore
  dsimp only
  split
  · rw [len_touch]
    exact len_prune_le
  · exact len_prune_le

lemma len_apply_le_iff (hpointers : m.PointersHold) (hlen : m.len ≤ m.maxEntries)
    (op : SessionOp) : (m.apply op).len ≤ m.maxEntries ↔ m.WithinBound op := by
  cases op with
  | getOrInsert ord real now makeFake =>
    constructor
    · intro hle
      by_contra hzero
      have hmax : m.maxEntries = 0 := Nat.eq_zero_of_not_pos hzero
      have hpos := len_getOrInsert_pos hpointers (Nat.le_zero.mp (hmax ▸ hlen)) ord now
        real makeFake
      rw [hmax] at hle
      exact absurd hle (Nat.not_le.mpr hpos)
    · intro hpos
      exact len_getOrInsert_le hpos hlen real makeFake
  | restore fake now => exact iff_of_true ((len_restore_le fake).trans hlen) trivial
  | importPairs pairs now =>
    change (m.importPairs pairs now).len ≤ _ ↔ _
    rw [len_eq_card, fakes_importPairs]
    exact Iff.rfl
  | clear => exact iff_of_true (Nat.zero_le _) trivial

/-- A map stays within its capacity through a whole run exactly when `get_or_insert` is not used
at capacity 0 and no bulk load brings in more fakes than there is room for. -/
theorem run_bounded_iff (maxEntries ttl : Nat) (ops : List SessionOp) :
    (∀ k, ((SessionMap.new maxEntries ttl).run (ops.take k)).len ≤ maxEntries) ↔
      ∀ before op after, ops = before ++ op :: after →
        ((SessionMap.new maxEntries ttl).run before).WithinBound op := by
  have hpointers := fun before => (inverse_new maxEntries ttl).pointersHold.run before
  have hmax := fun before => run_maxEntries (m := SessionMap.new maxEntries ttl) before
  constructor
  · intro hall before op after hsplit
    have hbefore := hall before.length
    have hafter := hall (before.length + 1)
    rw [hsplit, List.take_left] at hbefore
    rw [hsplit, List.take_length_add_append, List.take_succ_cons, List.take_zero, run_concat]
      at hafter
    rw [← len_apply_le_iff (hpointers before)]
    · rw [hmax before]
      exact hafter
    · rw [hmax before]
      exact hbefore
  · intro hall k
    -- the part of the run that is over grows call by call
    induction k with
    | zero => exact Nat.zero_le _
    | succ k ih =>
      rcases lt_or_ge k ops.length with hk | hk
      · have hsplit : ops = ops.take k ++ ops[k] :: ops.drop (k + 1) := by
          rw [List.cons_getElem_drop_succ, List.take_append_drop]
        rw [List.take_succ_eq_append_getElem hk, run_concat]
        have hstep := len_apply_le_iff (hpointers (ops.take k)) (by rw [hmax]; exact ih) ops[k]
        rw [hmax] at hstep
        exact hstep.mpr (hall _ _ _ hsplit)
      · rw [List.take_of_length_le (by omega)]
        rwa [List.take_of_length_le hk] at ih

/-- A bulk load of two pairs into a map with room for one, and a call on a map with room for
none. -/
theorem run_bounded_overflow :
    ¬ ((SessionMap.new 1 10).run [.importPairs [("f".toList, "a".toList),
        ("g".toList, "b".toList)] 0]).len ≤ 1 ∧
      ¬ ((SessionMap.new 0 10).run [.getOrInsert .stored "a".toList 0 "f".toList]).len ≤ 0 := by
  decide

end SessionMap

end Invisibool
