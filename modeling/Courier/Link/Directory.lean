import Courier.Link.Basic

/-!
# The directory

The service that knows which links exist. It answers with all links that involve a device, or
fails; an answer that could not be parsed is told apart from no answer at all.
-/

namespace Courier

/-- Why the directory gave no links. -/
inductive DirectoryError where
  | unavailable (reason : String)
  | parsingFailed (reason : String)
  deriving DecidableEq, Repr

/-- The text of an error. -/
def DirectoryError.message : DirectoryError → String
  | .unavailable reason => s!"directory unavailable: {reason}"
  | .parsingFailed reason => s!"directory response could not be parsed: {reason}"

/-- What the directory says about a device. -/
abbrev DirectoryAnswer := Except DirectoryError (List DeviceLink)

end Courier
