import Invisibool.Engine.SessionRestore
import Invisibool.Folding

/-!
# The order of a session restore

The stored fakes are replaced in the iteration order of a hash map. Each replacement rewrites the
text that the next ones search, so the order does not matter as long as the fakes stand apart.
-/

namespace Invisibool
open Text

namespace Engine

variable {X : Crates} {e : Engine} {input : Str} {session : SessionMap} {now : Nat}

/-- In every text that the session pass can come by, any two of the live fakes that are still to
be restored stand apart. -/
def FakesApart (session : SessionMap) (now : Nat) (input : Str) : Prop :=
  ∀ done a b, (done ++ [a, b]).Subperm (candidateFakes .stored session input) →
    ∀ realA realB, session.realOf now a = some realA → session.realOf now b = some realB →
      Apart (done.foldl (restoreIn (session.realOf now)) (input, 0)).1 a realA b realB

lemma restoreIn_swap {realOf : Str → Option Str} {st : Str × Nat} {a b : Str}
    (h : ∀ realA realB, realOf a = some realA → realOf b = some realB →
      Apart st.1 a realA b realB) :
    restoreIn realOf (restoreIn realOf st a) b = restoreIn realOf (restoreIn realOf st b) a := by
  by_cases hab : a = b
  · subst hab
    rfl
  unfold restoreIn
  cases hA : realOf a with
  | none => rfl
  | some realA =>
    cases hB : realOf b with
    | none => rfl
    | some realB =>
      obtain ⟨htext, hcount⟩ := (h realA realB hA hB).swap hab
      dsimp only
      rw [htext, Nat.add_assoc, hcount, ← Nat.add_assoc]

lemma FakesApart.swappable (h : FakesApart session now input) :
    Folding.Swappable (restoreIn (session.realOf now)) (input, 0)
      (candidateFakes .stored session input) := by
  intro done a b hsub
  exact restoreIn_swap (h done a b hsub)

lemma FakesApart.sessionPass_eq (h : FakesApart session now input) (ord : HashOrder) :
    sessionPass ord input session now = sessionPass .stored input session now := by
  have hp : (candidateFakes .stored session input).Perm (candidateFakes ord session input) :=
    perm_candidateFakes .stored ord
  exact (Folding.foldl_eq_of_perm h.swappable hp).symm

/-- If the stored fakes stand apart, then restoring with a session gives the same text and the
same count, or the same panic, in every iteration order. -/
theorem restoreWithSession_orderIndependent (h : FakesApart session now input)
    (ord ord' : HashOrder) :
    (restoreWithSession X ord e input session now).map Prod.fst =
      (restoreWithSession X ord' e input session now).map Prod.fst := by
  rw [restoreWithSession_fst, restoreWithSession_fst, h.sessionPass_eq ord, h.sessionPass_eq ord']

def twoPairs (fakeA realA fakeB realB : Str) : SessionMap :=
  (SessionMap.new 2 100).importPairs [(fakeA, realA), (fakeB, realB)] 0

lemma twoPairs_apart :
    FakesApart (twoPairs "aa".toList "x".toList "bb".toList "y".toList) 0 "aabb".toList := by
  intro done a b hsub realA realB hA hB
  have hcand : candidateFakes .stored (twoPairs "aa".toList "x".toList "bb".toList "y".toList)
      "aabb".toList = ["bb".toList, "aa".toList] := by rfl
  have haa : (twoPairs "aa".toList "x".toList "bb".toList "y".toList).realOf 0 "aa".toList =
      some "x".toList := by rfl
  have hbb : (twoPairs "aa".toList "x".toList "bb".toList "y".toList).realOf 0 "bb".toList =
      some "y".toList := by rfl
  have hapart : Apart "aabb".toList "aa".toList "x".toList "bb".toList "y".toList :=
    ⟨by decide, by decide, [.slot "aa".toList, .slot "bb".toList],
      by decide, by decide, by decide, by decide, by decide⟩
  rw [hcand] at hsub
  have hdone : done = [] := by
    have := hsub.length_le
    simp only [List.length_append, List.length_cons, List.length_nil] at this
    exact List.length_eq_zero_iff.mp (by omega)
  subst hdone
  have ha : a ∈ ["bb".toList, "aa".toList] := hsub.subset (by simp)
  have hb : b ∈ ["bb".toList, "aa".toList] := hsub.subset (by simp)
  rcases List.mem_pair.mp ha with rfl | rfl <;> rcases List.mem_pair.mp hb with rfl | rfl
  · exact absurd hsub (by decide)
  · obtain rfl := Option.some.inj (hbb.symm.trans hA)
    obtain rfl := Option.some.inj (haa.symm.trans hB)
    exact hapart.symm
  · obtain rfl := Option.some.inj (haa.symm.trans hA)
    obtain rfl := Option.some.inj (hbb.symm.trans hB)
    exact hapart
  · exact absurd hsub (by decide)

/-- The theorem on two fakes side by side, in both orders. -/
theorem restoreWithSession_orderIndependent_twoPairs :
    let session := twoPairs "aa".toList "x".toList "bb".toList "y".toList
    (restoreWithSession Crates.reference .stored (reference [] [] []) "aabb".toList session 0).map
        Prod.fst =
      (restoreWithSession Crates.reference ⟨List.reverse, List.reverse_perm⟩ (reference [] [] [])
        "aabb".toList session 0).map Prod.fst :=
  restoreWithSession_orderIndependent twoPairs_apart _ _

/-- One fake begins with the other: `192.0.2.13` is restored, or `192.0.2.1` inside of it. -/
theorem restoreWithSession_orderDependent :
    let session := twoPairs "192.0.2.1".toList "A".toList "192.0.2.13".toList "B".toList
    (restoreWithSession Crates.reference .stored (reference [] [] []) "192.0.2.13".toList session
        0).map Prod.fst = .ok ⟨"B".toList, 1⟩ ∧
      (restoreWithSession Crates.reference ⟨List.reverse, List.reverse_perm⟩ (reference [] [] [])
        "192.0.2.13".toList session 0).map Prod.fst = .ok ⟨"A3".toList, 1⟩ := by
  exact ⟨by rfl, by rfl⟩

end Engine

end Invisibool
