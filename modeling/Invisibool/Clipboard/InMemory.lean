import Invisibool.Clipboard.Event

/-!
# The clipboard in memory

`InMemoryClipboard`, as far as the clipboard is changed: each change is counted, recorded, and told
to the subscribers at once.
-/

namespace Invisibool.Clipboard
open Text

inductive WriteSource
  | ourWrite
  | simulatedExternal
  deriving DecidableEq, Repr

inductive HistoryEntry
  | write (token : WriteToken) (changeCountAfter : Nat) (text : Str) (hints : PrivacyHints)
      (source : WriteSource)
  | clear (changeCountAfter : Nat) (source : WriteSource)
  deriving DecidableEq, Repr

/-- `InMemoryState`. -/
structure InMemory where
  text : Option Str
  changeCount : Nat
  nextToken : Nat
  history : List HistoryEntry

namespace InMemory

def new : InMemory := ⟨none, 0, 1, []⟩

variable (st : InMemory)

/-- The event that the subscribers are told. The token 0 is nobody's. -/
def simulateExternalWrite (text : Str) : ClipboardEvent × InMemory :=
  (⟨st.changeCount + 1, none⟩,
    { st with
      changeCount := st.changeCount + 1
      text := some text
      history := st.history ++
        [.write ⟨0⟩ (st.changeCount + 1) text .none .simulatedExternal] })

def writeText (text : Str) (hints : PrivacyHints) : WriteToken × ClipboardEvent × InMemory :=
  (⟨st.nextToken⟩, ⟨st.changeCount + 1, some ⟨st.nextToken⟩⟩,
    { st with
      nextToken := st.nextToken + 1
      changeCount := st.changeCount + 1
      text := some text
      history := st.history ++
        [.write ⟨st.nextToken⟩ (st.changeCount + 1) text hints .ourWrite] })

def clear : ClipboardEvent × InMemory :=
  (⟨st.changeCount + 1, none⟩,
    { st with
      changeCount := st.changeCount + 1
      text := none
      history := st.history ++ [.clear (st.changeCount + 1) .ourWrite] })

end InMemory

/-- What can be done to a clipboard. -/
inductive Operation
  | writeText (text : Str) (hints : PrivacyHints)
  | clear
  | externalWrite (text : Str)

namespace InMemory

def apply (st : InMemory) : Operation → ClipboardEvent × InMemory
  | .writeText text hints => (st.writeText text hints).2
  | .clear => st.clear
  | .externalWrite text => st.simulateExternalWrite text

/-- The count after each operation, and the events of all of them. -/
def run : InMemory → List Operation → List Nat × List ClipboardEvent
  | _, [] => ([], [])
  | st, op :: ops =>
    ((st.apply op).2.changeCount :: ((st.apply op).2.run ops).1,
      (st.apply op).1 :: ((st.apply op).2.run ops).2)

end InMemory

end Invisibool.Clipboard
