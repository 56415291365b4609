import Courier.Era
import Courier.Numeric.Rounding
import Courier.Time.Duration

/-!
# How often a group is polled

The interval grows linearly with the time since the group's last activity, from `min` to `max`,
which it reaches at `idleLimit` (`PollTiming.interval`). The ramp is computed in double precision:
seconds and nanoseconds are turned into one double, the quotient and the product are rounded, and
the result is rounded to whole nanoseconds. There is no interval when it exceeds what a `Duration`
can hold.
-/

namespace Courier

/-- The bounds of the poll interval. -/
structure PollTiming where
  min : Duration
  max : Duration
  /-- The idle time from which on the interval is `max`. -/
  idleLimit : Duration
  deriving DecidableEq

/-- The bounds that an era sets. -/
def Era.pollTiming (e : Era) : PollTiming :=
  { min := .ofSeconds e.pollMin, max := .ofSeconds e.pollMax,
    idleLimit := .ofSeconds e.pollIdleLimit }

namespace Duration

/-- A span in seconds, in double precision: the whole seconds and the rest are rounded each, and
so is their sum. -/
def toBinary (d : Duration) : Rat :=
  roundBinary (roundBinary d.seconds + roundBinary (d.subsecNanos / nanosPerSecond))

/-- The span of this many seconds, to the nearest nanosecond. -/
def ofBinary? (seconds : Rat) : Option Duration :=
  ofNanos? (roundHalfEven (seconds * nanosPerSecond)).toNat

end Duration

namespace PollTiming

/-- How far up the ramp an idle time lies, from 0 to 1. Without any activity it lies at the top. -/
def ramp (t : PollTiming) (idle : Option Duration) : Rat :=
  match idle with
  | none => 1
  | some d =>
    if t.idleLimit.nanos = 0 then 1
    else roundBinary ((d.shorter t.idleLimit).toBinary / t.idleLimit.toBinary)

/-- The interval before the next poll of a group that was idle for `idle`, or was never active. -/
def interval (t : PollTiming) (idle : Option Duration) : Option Duration := do
  let above ← Duration.ofBinary? (roundBinary (t.ramp idle * (t.max.minus t.min).toBinary))
  t.min.add? above

end PollTiming

end Courier
