import Invisibool.Engine.Restore
import Invisibool.Tokenizer.SessionLive

/-!
# What a restore with a session does

Looking up a stored fake touches its entry, but changes no pair, so the session pass replaces
each stored fake in turn by the value the map had for it at the start.
-/

namespace Invisibool
open Text

namespace Engine

def restoreIn (realOf : Str → Option Str) (st : Str × Nat) (fake : Str) : Str × Nat :=
  match realOf fake with
  | none => st
  | some real => (replace st.1 fake real, st.2 + matchCount st.1 fake)

lemma restoreFake_eq (now : Nat) (st : SessionPass) (fake : Str) :
    ((restoreFake now st fake).working, (restoreFake now st fake).restored) =
        restoreIn (st.session.realOf now) (st.working, st.restored) fake ∧
      (restoreFake now st fake).session.realOf now = st.session.realOf now := by
  have hsession : (st.session.restore fake now).1.realOf now = st.session.realOf now :=
    SessionMap.realOf_restore fake
  unfold restoreFake restoreIn
  rw [← SessionMap.restore_snd]
  cases hr : st.session.restore fake now with
  | mk session o =>
    rw [hr] at hsession
    cases o with
    | none => exact ⟨rfl, hsession⟩
    | some real =>
      dsimp only
      split
      · exact ⟨rfl, hsession⟩
      · rename_i hzero
        have hcount : matchCount st.working fake = 0 := by omega
        exact ⟨by rw [hcount, replace_of_matchCount hcount, Nat.add_zero], hsession⟩

lemma foldl_restoreFake (now : Nat) (fakes : List Str) (st : SessionPass) :
    ((fakes.foldl (restoreFake now) st).working, (fakes.foldl (restoreFake now) st).restored) =
      fakes.foldl (restoreIn (st.session.realOf now)) (st.working, st.restored) := by
  induction fakes generalizing st with
  | nil => rfl
  | cons fake fakes ih =>
    obtain ⟨h1, h2⟩ := restoreFake_eq now st fake
    rw [List.foldl_cons, List.foldl_cons, ih, h1, h2]

section

variable (X : Crates) (ord : HashOrder) (e : Engine) (input : Str) (session : SessionMap)
  (now : Nat)

def sessionPass : Str × Nat :=
  (candidateFakes ord session input).foldl (restoreIn (session.realOf now)) (input, 0)

/-- The result of `restore_with_session` is that of `restore` on the text of the session pass. -/
theorem restoreWithSession_fst :
    (restoreWithSession X ord e input session now).map Prod.fst =
      (restore X e (sessionPass ord input session now).1).map fun ff1 =>
        ⟨ff1.output, (sessionPass ord input session now).2 + ff1.restoredCount⟩ := by
  have hpass := foldl_restoreFake now (candidateFakes ord session input) ⟨input, 0, session⟩
  have h1 := congrArg Prod.fst hpass
  have h2 := congrArg Prod.snd hpass
  unfold restoreWithSession sessionPass
  dsimp only at h1 h2 ⊢
  rw [← h1, ← h2]
  cases restore X e ((candidateFakes ord session input).foldl (restoreFake now)
    ⟨input, 0, session⟩).working with
  | error p => rfl
  | ok ff1 => rfl

end

lemma perm_candidateFakes {input : Str} {session : SessionMap} (ord ord' : HashOrder) :
    (candidateFakes ord session input).Perm (candidateFakes ord' session input) := by
  unfold candidateFakes SessionMap.entries
  exact ((((ord.perm _).trans (ord'.perm _).symm).map _).filter _).map _

end Engine

end Invisibool
