import Courier.Node.Polling

/-!
# Timestamps

Timestamps are compared as the integers that they stand for (`toInt_max`, `toInt_min`).

* `activityAfter`: the last activity once more activity was noted. It moves forward only, and not
  beyond the moment of noting (`activityAfter_bounds`); the order of noting does not matter
  (`activityAfter_comm`).
* `nanos_idleSince`: the time since a timestamp. The later the timestamp, the shorter it is
  (`idleSince_anti`).
* `Clock.toInt_now`: what the wall clock reads.
-/

namespace Courier

theorem toInt_max (a b : Int64) : (max a b).toInt = max a.toInt b.toInt := by
  have hle := Int64.le_iff_toInt_le (x := a) (y := b)
  show (if a ≤ b then b else a).toInt = _
  by_cases h : a ≤ b
  · rw [if_pos h]
    have := hle.mp h
    omega
  · rw [if_neg h]
    have : ¬ a.toInt ≤ b.toInt := fun h' => h (hle.mpr h')
    omega

theorem toInt_min (a b : Int64) : (min a b).toInt = min a.toInt b.toInt := by
  have hle := Int64.le_iff_toInt_le (x := a) (y := b)
  show (if a ≤ b then a else b).toInt = _
  by_cases h : a ≤ b
  · rw [if_pos h]
    have := hle.mp h
    omega
  · rw [if_neg h]
    have : ¬ a.toInt ≤ b.toInt := fun h' => h (hle.mpr h')
    omega

/-! ## Activity -/

/-- The last activity once activity at `timestamp` was noted at the moment `now`. -/
def activityAfter (now timestamp : Int64) (last : Option Int64) : Option Int64 :=
  some (max (last.getD 0) (min timestamp now))

section Activity

variable {now timestamp v w : Int64} {last : Option Int64}

theorem le_activityAfter (hv : last = some v) (hw : activityAfter now timestamp last = some w) :
    v ≤ w := by
  subst hv
  obtain rfl := Option.some.inj hw
  rw [Int64.le_iff_toInt_le, toInt_max, Option.getD_some]
  omega

/-- The order in which activity is noted does not matter. -/
theorem activityAfter_comm (now timestamp now' timestamp' : Int64) (last : Option Int64) :
    activityAfter now timestamp (activityAfter now' timestamp' last) =
      activityAfter now' timestamp' (activityAfter now timestamp last) := by
  refine congrArg some (Int64.toInt_inj.mp ?_)
  simp only [activityAfter, Option.getD_some, toInt_max]
  omega

/-- Between the epoch and the moment of noting, if the last activity was. -/
theorem activityAfter_bounds (hnow : 0 ≤ now) (hlast : ∀ v, last = some v → 0 ≤ v ∧ v ≤ now)
    (hw : activityAfter now timestamp last = some w) : 0 ≤ w ∧ w ≤ now := by
  obtain rfl := Option.some.inj hw
  have hold : (0 : Int64).toInt ≤ (last.getD 0).toInt ∧ (last.getD 0).toInt ≤ now.toInt := by
    simp only [← Int64.le_iff_toInt_le]
    cases last with
    | none => exact ⟨Int64.le_refl 0, hnow⟩
    | some v => exact hlast v rfl
  rw [Int64.le_iff_toInt_le, Int64.le_iff_toInt_le, toInt_max, toInt_min]
  omega

end Activity

/-! ## The time since a timestamp -/

theorem nanos_idleSince (now timestamp : Int64) :
    (idleSince now timestamp).nanos =
      (min (now.toInt - timestamp.toInt) 9223372036854775807).toNat * nanosPerMilli := by
  have hsize : (min (now.toInt - timestamp.toInt) 9223372036854775807).toNat < UInt64.size := by
    show _ < 18446744073709551616
    omega
  have hmax : Int64.maxValue.toInt = 9223372036854775807 := rfl
  show (UInt64.ofNat _).toNat * nanosPerMilli = _
  rw [hmax, UInt64.toNat_ofNat_of_lt' hsize]

theorem idleSince_anti {now timestamp later : Int64} (h : timestamp ≤ later) :
    (idleSince now later).nanos ≤ (idleSince now timestamp).nanos := by
  have := Int64.le_iff_toInt_le.mp h
  rw [nanos_idleSince, nanos_idleSince]
  exact Nat.mul_le_mul_right _ (by omega)

/-! ## The wall clock -/

/-- Within the range of timestamps the clock reads what it shows, or the epoch before that. -/
theorem Clock.toInt_now {c : Clock} (h : c.wall ≤ Int64.maxValue.toInt) :
    c.now.toInt = max 0 c.wall := by
  have hmax : Int64.maxValue.toInt = 9223372036854775807 := rfl
  unfold Clock.now
  exact Int64.toInt_ofInt_of_le (by omega) (by omega)

theorem Clock.now_nonneg {c : Clock} (h : c.wall ≤ Int64.maxValue.toInt) : 0 ≤ c.now := by
  have hnow := Clock.toInt_now h
  have hzero : (0 : Int64).toInt = 0 := rfl
  rw [Int64.le_iff_toInt_le, hnow, hzero]
  omega

end Courier
