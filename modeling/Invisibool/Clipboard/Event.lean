import Invisibool.Text.Str

/-!
# What clipboards tell their callers
-/

namespace Invisibool.Clipboard
open Text

/-- The number of a `write_text` call. -/
structure WriteToken where
  value : Nat
  deriving DecidableEq, Repr

structure ClipboardEvent where
  changeCount : Nat
  matchesOurWrite : Option WriteToken
  deriving DecidableEq, Repr

inductive ClipboardError
  | readFailed (msg : Str)
  | writeFailed (msg : Str)
  deriving DecidableEq, Repr

structure PrivacyHints where
  excludeFromClipboardHistory : Bool
  excludeFromCloudSync : Bool
  excludeFromScreenMonitors : Bool
  macosConcealedType : Bool
  deriving DecidableEq, Repr

def PrivacyHints.none : PrivacyHints := ⟨false, false, false, false⟩

/-- The largest text that the X11 backend reads or writes. -/
def maxClipboardBytes : Nat := 8 * 1024 * 1024

end Invisibool.Clipboard
