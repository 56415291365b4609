import Courier.Identity

/-!
# Eras

An era fixes the cadences that touch shared infrastructure. A node's configuration may override
them; the era supplies the defaults.
-/

namespace Courier

/-- A numbered set of protocol parameters. Times are in seconds. -/
structure Era where
  id : UInt16
  /-- How long a resolved set of links stays fresh. -/
  linkRefresh : UInt64
  /-- How long an unanswered generated handshake stays outstanding. -/
  handshakeExpiry : UInt64
  /-- The poll interval of a group that has just seen a message. -/
  pollMin : UInt64
  /-- The poll interval of a group that has been idle for `pollIdleLimit`. -/
  pollMax : UInt64
  pollIdleLimit : UInt64
  /-- The largest raw payload that is decoded, in bytes. -/
  maxEnvelopeBytes : Nat
  deriving DecidableEq, Repr

/-- The first era. -/
def genesis : Era where
  id := 0
  linkRefresh := 20
  handshakeExpiry := 72 * 3600
  pollMin := 2
  pollMax := 30
  pollIdleLimit := 12 * 3600
  maxEnvelopeBytes := 256 * 1024

/-- The era in force. -/
def currentEra : Era := genesis

end Courier
