import Invisibool.Text.Str
import Mathlib.Data.List.AList
import Mathlib.Data.List.MinMax

/-!
# The session map

A bounded map between real values and fakes, with LRU eviction and a time to live. Instants and
durations are natural numbers, so that `saturating_duration_since` is truncated subtraction.
-/

namespace Invisibool
open Text

structure Entry where
  real : Str
  lastTouched : Nat
  deriving DecidableEq, Repr

structure SessionMap where
  maxEntries : Nat
  ttl : Nat
  byFake : AList (fun _ : Str => Entry)
  byReal : AList (fun _ : Str => Str)

/-- The iteration order of a hash map, which the standard library leaves unspecified. -/
structure HashOrder where
  order : List (Sigma fun _ : Str => Entry) → List (Sigma fun _ : Str => Entry)
  perm : ∀ es, (order es).Perm es

/-- The iteration order that is the order of the entries in the model. -/
def HashOrder.stored : HashOrder := ⟨id, fun _ => .refl _⟩

namespace SessionMap

def new (maxEntries ttl : Nat) : SessionMap := ⟨maxEntries, ttl, ∅, ∅⟩

def len (m : SessionMap) : Nat := m.byFake.entries.length

def Expired (m : SessionMap) (now : Nat) (e : Entry) : Prop := m.ttl < now - e.lastTouched

instance (m : SessionMap) (now : Nat) (e : Entry) : Decidable (m.Expired now e) :=
  inferInstanceAs (Decidable (_ < _))

/-- Remove a pair in both directions, as `wipe_by_real_key` does for the second one. -/
def removeFake (m : SessionMap) (fake : Str) : SessionMap :=
  match m.byFake.lookup fake with
  | some entry =>
    { m with byFake := m.byFake.erase fake, byReal := m.byReal.erase entry.real }
  | none => m

def expiredFakes (m : SessionMap) (now : Nat) : List Str :=
  (m.byFake.entries.filter fun e => decide (m.Expired now e.2)).map fun e => e.1

def prune (m : SessionMap) (now : Nat) : SessionMap :=
  (m.expiredFakes now).foldl removeFake m

/-- The first entry in iteration order that was touched least recently. -/
def lruFake (ord : HashOrder) (m : SessionMap) : Option Str :=
  ((ord.order m.byFake.entries).argmin fun e => e.2.lastTouched).map fun e => e.1

def evictLru (ord : HashOrder) (m : SessionMap) : SessionMap :=
  match m.lruFake ord with
  | some fake => m.removeFake fake
  | none => m

def touch (m : SessionMap) (fake : Str) (now : Nat) : SessionMap :=
  match m.byFake.lookup fake with
  | some entry => { m with byFake := m.byFake.insert fake { entry with lastTouched := now } }
  | none => m

/-- Store a pair; the previous owner of the fake loses its pointer. -/
def insertPair (m : SessionMap) (fake real : Str) (now : Nat) : SessionMap :=
  let byReal := match m.byFake.lookup fake with
    | some old => m.byReal.erase old.real
    | none => m.byReal
  { m with byFake := m.byFake.insert fake ⟨real, now⟩, byReal := byReal.insert real fake }

/-- `get_or_insert`, with the fake that `make_fake` would give. -/
def getOrInsert (ord : HashOrder) (m : SessionMap) (real : Str) (now : Nat) (makeFake : Str) :
    SessionMap × Str :=
  let m := m.prune now
  match m.byReal.lookup real with
  | some fake => (m.touch fake now, fake)
  | none =>
    let m := if m.maxEntries ≤ m.len then m.evictLru ord else m
    (m.insertPair makeFake real now, makeFake)

def restore (m : SessionMap) (fake : Str) (now : Nat) : SessionMap × Option Str :=
  let m := m.prune now
  match m.byFake.lookup fake with
  | some entry => (m.touch fake now, some entry.real)
  | none => (m, none)

def entries (ord : HashOrder) (m : SessionMap) : List (Str × Str) :=
  (ord.order m.byFake.entries).map fun e => (e.1, e.2.real)

def importPairs (m : SessionMap) (pairs : List (Str × Str)) (now : Nat) : SessionMap :=
  pairs.foldl (fun m p => m.insertPair p.1 p.2 now) m

def clear (m : SessionMap) : SessionMap := { m with byFake := ∅, byReal := ∅ }

end SessionMap

end Invisibool
