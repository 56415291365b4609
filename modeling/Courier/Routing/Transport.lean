import Courier.Message

/-!
# The transport

The service that carries an envelope to one device.
-/

namespace Courier

/-- Why an envelope was not delivered. -/
inductive SendError where
  | unreachable (reason : String)
  | rejected (reason : String)
  deriving DecidableEq, Repr

/-- The text of an error. -/
def SendError.message : SendError → String
  | .unreachable reason => s!"destination unreachable: {reason}"
  | .rejected reason => s!"rejected: {reason}"

/-- What became of an envelope. -/
abbrev SendResult := Except SendError Unit

end Courier
