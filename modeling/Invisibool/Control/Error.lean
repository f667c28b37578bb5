import Invisibool.Text.Str

/-!
# Errors of the control channel
-/

namespace Invisibool.Control
open Text

/-- `io::Error`: an error number of the operating system, or one of the library's own. -/
inductive IoError
  | os (errno : Nat)
  | unexpectedEof
  | invalidInput
  deriving DecidableEq, Repr

/-- `libc::EWOULDBLOCK`. -/
def ewouldblock : Nat := 11

/-- The variants that the modelled functions make. -/
inductive ControlError
  | io (e : IoError)
  | frameTooLarge (actual max : Nat)
  | badJson
  | badJsonResponse (reason : Option Str)
  | unknownCmd (cmd : Str)
  | singleInstanceLockHeld (path : Str)
  deriving DecidableEq, Repr

end Invisibool.Control
