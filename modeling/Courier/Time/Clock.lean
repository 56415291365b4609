import Courier.Time.Duration

/-!
# The two clocks

The monotonic clock counts nanoseconds since the program started; freshness and poll deadlines use
it. The wall clock counts milliseconds since the epoch and may be set at will; timestamps and
expiries use it. A wall clock before the epoch is read as the epoch (`Clock.now`).
-/

namespace Courier

/-- A reading of both clocks. -/
structure Clock where
  /-- Nanoseconds since the start, never going back. -/
  instant : Nat
  /-- Milliseconds since the epoch, as the wall clock shows them. -/
  wall : Int
  deriving DecidableEq, Repr

namespace Clock

/-- The wall time for timestamps: milliseconds since the epoch, never negative. -/
def now (c : Clock) : Int64 :=
  Int64.ofInt (max 0 c.wall)

/-- Time passes on both clocks. -/
def advance (c : Clock) (ms : Nat) : Clock :=
  { instant := c.instant + ms * nanosPerMilli, wall := c.wall + ms }

/-- The wall clock is set forward or back. -/
def jump (c : Clock) (ms : Int) : Clock :=
  { c with wall := c.wall + ms }

end Clock

end Courier
