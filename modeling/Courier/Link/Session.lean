import Courier.Identity

/-!
# Linking sessions

A negotiation in which two devices become linked, run by the application. The node hands it
requests and authorisations and takes its verdict; a node has at most one session at a time
(`SessionSlot`).
-/

namespace Courier

/-- Why a session refused a control message. -/
inductive LinkingError where
  | invalidSignature
  | unexpectedDevice (identity : Identity)
  | failed (reason : String)
  deriving DecidableEq, Repr

/-- The text of a refusal. -/
def LinkingError.message : LinkingError → String
  | .invalidSignature => "invalid signature"
  | .unexpectedDevice identity => s!"unexpected device {identity}"
  | .failed reason => s!"linking failed: {reason}"

/-- What a session says to a control message. -/
abbrev Verdict := Except LinkingError Unit

/-- The active session, by its name. -/
abbrev SessionSlot := Option String

namespace SessionSlot

/-- A session begins, unless one is active; the answer says whether it did. -/
def begin (slot : SessionSlot) (name : String) : Bool × SessionSlot :=
  match slot with
  | some active => (false, some active)
  | none => (true, some name)

end SessionSlot

end Courier
