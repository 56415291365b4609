/-!
# Spans of time

A `Duration` is a whole number of nanoseconds that stays below `2 ^ 64` seconds. Sums that would
reach that limit do not exist (`Duration.add?`).
-/

namespace Courier

/-- The nanoseconds of one second. -/
def nanosPerSecond : Nat := 1000000000

/-- The nanoseconds of one millisecond. -/
def nanosPerMilli : Nat := 1000000

/-- A span of time below `2 ^ 64` seconds. -/
structure Duration where
  nanos : Nat
  bounded : nanos < UInt64.size * nanosPerSecond
  deriving DecidableEq, Repr

namespace Duration

theorem ext_nanos {a b : Duration} (h : a.nanos = b.nanos) : a = b := by
  cases a; cases b; cases h; rfl

/-- The span of this many nanoseconds, if there is one. -/
def ofNanos? (n : Nat) : Option Duration :=
  if h : n < UInt64.size * nanosPerSecond then some ⟨n, h⟩ else none

/-- The empty span. -/
def zero : Duration := ⟨0, by decide⟩

/-- A whole number of seconds. -/
def ofSeconds (s : UInt64) : Duration :=
  ⟨s.toNat * nanosPerSecond, by
    have := s.toNat_lt_size
    exact Nat.mul_lt_mul_of_pos_right this (by decide)⟩

/-- A whole number of milliseconds. -/
def ofMillis (ms : UInt64) : Duration :=
  ⟨ms.toNat * nanosPerMilli, by
    have := ms.toNat_lt_size
    have h : ms.toNat * nanosPerMilli < UInt64.size * nanosPerMilli :=
      Nat.mul_lt_mul_of_pos_right this (by decide)
    exact Nat.lt_of_lt_of_le h (Nat.mul_le_mul_left _ (by decide))⟩

/-- The whole seconds of a span. -/
def seconds (d : Duration) : Nat :=
  d.nanos / nanosPerSecond

/-- What a span has beyond its whole seconds, in nanoseconds. -/
def subsecNanos (d : Duration) : Nat :=
  d.nanos % nanosPerSecond

/-- The whole milliseconds of a span. -/
def millis (d : Duration) : Nat :=
  d.nanos / nanosPerMilli

/-- The sum of two spans, unless it reaches the limit. -/
def add? (a b : Duration) : Option Duration :=
  ofNanos? (a.nanos + b.nanos)

/-- What `a` has beyond `b`; nothing if `b` is the longer one. -/
def minus (a b : Duration) : Duration :=
  ⟨a.nanos - b.nanos, Nat.lt_of_le_of_lt (Nat.sub_le _ _) a.bounded⟩

/-- The shorter of two spans. -/
def shorter (a b : Duration) : Duration :=
  if a.nanos ≤ b.nanos then a else b

end Duration

end Courier
