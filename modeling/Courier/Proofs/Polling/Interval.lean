import Courier.Polling.Interval
import Courier.Proofs.Numeric.Rounding

/-!
# The interval grows with the idle time

* `Duration.toBinary_mono`: the longer span has the larger number of seconds in double precision.
  Its whole seconds and the rest are rounded apart, which keeps the order: up to `2 ^ 53` seconds
  nothing is lost, and beyond that the rest does not count.
* `PollTiming.interval_mono`: the longer a group was idle, the longer is the interval. It is never
  longer than that of a group without any activity (`PollTiming.interval_le_never`), and equal to it
  from `idleLimit` on (`PollTiming.interval_of_idle`). That one is exactly `max` where `max` lies up to
  `2 ^ 53` whole seconds above `min` (`PollTiming.interval_never_eq_max`).
* `PollTiming.interval_monotone`: all of it together.
-/

namespace Courier

namespace Duration

variable {a b c d : Duration}

theorem nanos_eq (d : Duration) : d.nanos = nanosPerSecond * d.seconds + d.subsecNanos :=
  (Nat.div_add_mod d.nanos nanosPerSecond).symm

/-- What a span has beyond its whole seconds, in seconds and in double precision. -/
def binaryRest (d : Duration) : ℚ :=
  roundBinary (d.subsecNanos / nanosPerSecond)

theorem toBinary_eq (d : Duration) :
    d.toBinary = roundBinary (roundBinary d.seconds + d.binaryRest) :=
  rfl

theorem binaryRest_nonneg (d : Duration) : 0 ≤ d.binaryRest :=
  roundBinary_nonneg _

/-- The rest stays below a second: the largest value below 1 lies above the largest rest. -/
theorem binaryRest_lt_one (d : Duration) : d.binaryRest < 1 := by
  have hrest : d.subsecNanos ≤ 999999999 := by
    have : d.subsecNanos < 1000000000 := Nat.mod_lt _ (by norm_num [nanosPerSecond])
    omega
  have hrest : (d.subsecNanos : ℚ) / nanosPerSecond ≤ ((2 ^ 53 - 1 : ℤ) : ℚ) * 2 ^ (-53 : ℤ) := by
    have hcast : (d.subsecNanos : ℚ) ≤ 999999999 := by exact_mod_cast hrest
    calc (d.subsecNanos : ℚ) / nanosPerSecond ≤ 999999999 / 1000000000 := by
          norm_num [nanosPerSecond]
          linarith
      _ ≤ ((2 ^ 53 - 1 : ℤ) : ℚ) * 2 ^ (-53 : ℤ) := by norm_num
  have hround := roundBinary_mono hrest
  rw [roundBinary_value (by norm_num) (by norm_num)] at hround
  exact lt_of_le_of_lt hround (by norm_num)

theorem toBinary_pos (h : 0 < d.nanos) : 0 < d.toBinary := by
  rw [toBinary_eq]
  refine roundBinary_pos ?_
  have hparts : 0 < d.seconds ∨ 0 < d.subsecNanos := by
    by_contra hzero
    have := d.nanos_eq
    rw [show d.seconds = 0 by omega, show d.subsecNanos = 0 by omega] at this
    omega
  rcases hparts with hseconds | hrest
  · have : 0 < roundBinary d.seconds := roundBinary_pos (by exact_mod_cast hseconds)
    have := d.binaryRest_nonneg
    linarith
  · have : 0 < d.binaryRest := by
      refine roundBinary_pos (div_pos (by exact_mod_cast hrest) ?_)
      norm_num [nanosPerSecond]
    have := roundBinary_nonneg d.seconds
    linarith

theorem toBinary_nonneg (d : Duration) : 0 ≤ d.toBinary :=
  roundBinary_nonneg _

/-- From `2 ^ 53` seconds on the rest does not count: it lies below half a unit. -/
theorem toBinary_of_large (h : 2 ^ 53 ≤ d.seconds) : d.toBinary = roundBinary d.seconds := by
  obtain ⟨k, e, hvalue, hk, hk', he⟩ := roundBinary_large h
  have hunit : (2 : ℚ) ≤ 2 ^ e := by
    calc (2 : ℚ) = 2 ^ (1 : ℤ) := (zpow_one 2).symm
      _ ≤ 2 ^ e := zpow_le_zpow_right₀ one_le_two he
  have hrest := d.binaryRest_lt_one
  rw [toBinary_eq, hvalue]
  exact roundBinary_near hk hk' d.binaryRest_nonneg (by linarith)

/-- The longer span has more seconds in double precision, or as many. -/
theorem toBinary_mono (h : a.nanos ≤ b.nanos) : a.toBinary ≤ b.toBinary := by
  have hseconds : a.seconds ≤ b.seconds := Nat.div_le_div_right h
  have hvalue : roundBinary a.seconds ≤ roundBinary b.seconds :=
    roundBinary_mono (by exact_mod_cast hseconds)
  rcases hseconds.eq_or_lt with heq | hlt
  -- as many whole seconds: the rests decide
  · have hsub : a.subsecNanos ≤ b.subsecNanos := by
      have ha := a.nanos_eq
      have hb := b.nanos_eq
      rw [heq] at ha
      omega
    have hrests : a.binaryRest ≤ b.binaryRest := by
      refine roundBinary_mono (div_le_div_of_nonneg_right (by exact_mod_cast hsub) ?_)
      norm_num [nanosPerSecond]
    exact roundBinary_mono (add_le_add hvalue hrests)
  by_cases hlarge : 2 ^ 53 ≤ a.seconds
  · rw [toBinary_of_large hlarge, toBinary_of_large (hlarge.trans hseconds)]
    exact hvalue
  -- the whole seconds are kept, and the next second lies beyond the rest
  · have hnext : (a.seconds : ℚ) + 1 ≤ roundBinary b.seconds := by
      have hkept := roundBinary_natCast (n := a.seconds + 1) (by omega)
      have hle : ((a.seconds + 1 : ℕ) : ℚ) ≤ b.seconds := by exact_mod_cast hlt
      have hround := roundBinary_mono hle
      rw [hkept] at hround
      exact_mod_cast hround
    have hrest := a.binaryRest_lt_one
    have hrest' := b.binaryRest_nonneg
    rw [toBinary_eq, toBinary_eq, roundBinary_natCast (by omega)]
    exact roundBinary_mono (by linarith)

theorem nanos_shorter (a b : Duration) : (a.shorter b).nanos = min a.nanos b.nanos := by
  unfold shorter
  split <;> omega

theorem ofNanos?_eq_some {n : ℕ} : ofNanos? n = some d ↔ d.nanos = n := by
  unfold ofNanos?
  constructor
  · intro h
    split at h <;> cases h
    rfl
  · rintro rfl
    rw [dif_pos d.bounded]

/-- Up to `2 ^ 53` whole seconds nothing is lost. -/
theorem toBinary_of_seconds {k : ℕ} (hk : k ≤ 2 ^ 53) (h : d.nanos = k * nanosPerSecond) :
    d.toBinary = k := by
  have hpos : 0 < nanosPerSecond := by decide
  have hseconds : d.seconds = k := by rw [seconds, h, Nat.mul_div_cancel k hpos]
  have hrest : d.binaryRest = 0 := by
    have hsub : d.subsecNanos = 0 := by rw [subsecNanos, h, Nat.mul_mod_left]
    rw [binaryRest, hsub]
    exact roundBinary_of_nonpos (by simp)
  rw [toBinary_eq, hseconds, hrest, add_zero, roundBinary_natCast hk, roundBinary_natCast hk]

/-- Such a number of seconds is read back. -/
theorem ofBinary?_seconds {k : ℕ} (h : d.nanos = k * nanosPerSecond) : ofBinary? k = some d := by
  have hcast : (k : ℚ) * nanosPerSecond = ((k * nanosPerSecond : ℕ) : ℤ) := by push_cast; rfl
  unfold ofBinary?
  rw [hcast, roundHalfEven_intCast, Int.toNat_natCast, ofNanos?_eq_some, h]

/-- What lies below a span is one. -/
theorem exists_ofNanos? {n : ℕ} (h : n ≤ d.nanos) : ∃ c, ofNanos? n = some c ∧ c.nanos = n :=
  ⟨⟨n, h.trans_lt d.bounded⟩, ofNanos?_eq_some.mpr rfl, rfl⟩

end Duration

namespace PollTiming

variable {t : PollTiming} {a b : Duration} {idle idle' : Option Duration} {d' : Duration}

theorem ramp_some (h : t.idleLimit.nanos ≠ 0) (d : Duration) :
    t.ramp (some d) = roundBinary ((d.shorter t.idleLimit).toBinary / t.idleLimit.toBinary) :=
  if_neg h

theorem ramp_mono (h : a.nanos ≤ b.nanos) : t.ramp (some a) ≤ t.ramp (some b) := by
  by_cases hlimit : t.idleLimit.nanos = 0
  · show (if _ then _ else _) ≤ (if _ then _ else _)
    rw [if_pos hlimit, if_pos hlimit]
  · rw [ramp_some hlimit, ramp_some hlimit]
    have hshorter : (a.shorter t.idleLimit).nanos ≤ (b.shorter t.idleLimit).nanos := by
      rw [Duration.nanos_shorter, Duration.nanos_shorter]
      omega
    exact roundBinary_mono (div_le_div_of_nonneg_right (Duration.toBinary_mono hshorter)
      t.idleLimit.toBinary_nonneg)

/-- From `idleLimit` on the ramp is at its top. -/
theorem ramp_of_idle (h : t.idleLimit.nanos ≤ a.nanos) : t.ramp (some a) = 1 := by
  by_cases hlimit : t.idleLimit.nanos = 0
  · exact if_pos hlimit
  · have hshorter : a.shorter t.idleLimit = t.idleLimit := by
      refine Duration.ext_nanos ?_
      rw [Duration.nanos_shorter]
      omega
    have hpos : 0 < t.idleLimit.toBinary := Duration.toBinary_pos (Nat.pos_of_ne_zero hlimit)
    rw [ramp_some hlimit, hshorter, div_self hpos.ne', roundBinary_one]

theorem ramp_le_one (idle : Option Duration) : t.ramp idle ≤ 1 := by
  cases idle with
  | none => exact le_rfl
  | some a =>
    rcases le_total t.idleLimit.nanos a.nanos with h | h
    · rw [ramp_of_idle h]
    · exact (ramp_mono h).trans_eq (ramp_of_idle le_rfl)

/-- Lower on the ramp there is an interval as well, and it is not longer. -/
theorem interval_of_ramp_le (h : t.ramp idle ≤ t.ramp idle') (hd : t.interval idle' = some d') :
    ∃ d, t.interval idle = some d ∧ d.nanos ≤ d'.nanos := by
  let above (i : Option Duration) : ℕ :=
    (roundHalfEven (roundBinary (t.ramp i * (t.max.minus t.min).toBinary) * nanosPerSecond)).toNat
  have hdef (i : Option Duration) : t.interval i = (Duration.ofNanos? (above i)).bind t.min.add? :=
    rfl
  have habove : above idle ≤ above idle' := by
    refine Int.toNat_le_toNat (roundHalfEven_mono ?_)
    refine mul_le_mul_of_nonneg_right (roundBinary_mono ?_) (by norm_num [nanosPerSecond])
    exact mul_le_mul_of_nonneg_right h (t.max.minus t.min).toBinary_nonneg
  rw [hdef] at hd
  obtain ⟨c', hc', hsum'⟩ := Option.bind_eq_some_iff.mp hd
  have hc'nanos := Duration.ofNanos?_eq_some.mp hc'
  have hd'nanos := Duration.ofNanos?_eq_some.mp hsum'
  obtain ⟨c, hc, hcnanos⟩ := Duration.exists_ofNanos? (hc'nanos ▸ habove)
  have hle : t.min.nanos + c.nanos ≤ d'.nanos := by omega
  obtain ⟨d, hd, hdnanos⟩ := Duration.exists_ofNanos? hle
  refine ⟨d, ?_, by omega⟩
  rw [hdef, hc]
  exact hd

/-- The longer a group was idle, the longer is the interval. -/
theorem interval_mono (h : a.nanos ≤ b.nanos) (hd : t.interval (some b) = some d') :
    ∃ d, t.interval (some a) = some d ∧ d.nanos ≤ d'.nanos :=
  interval_of_ramp_le (ramp_mono h) hd

/-- No interval is longer than that of a group without any activity. -/
theorem interval_le_never (idle : Option Duration) (hd : t.interval none = some d') :
    ∃ d, t.interval idle = some d ∧ d.nanos ≤ d'.nanos :=
  interval_of_ramp_le (ramp_le_one idle) hd

/-- From `idleLimit` on a group is polled as if it never had any activity. -/
theorem interval_of_idle (h : t.idleLimit.nanos ≤ a.nanos) :
    t.interval (some a) = t.interval none := by
  show (Duration.ofBinary? (roundBinary (t.ramp (some a) * _))).bind _ = _
  rw [ramp_of_idle h]
  rfl

/-- No interval is shorter than `min`. -/
theorem min_le_interval (hd : t.interval idle = some d') : t.min.nanos ≤ d'.nanos := by
  obtain ⟨above, -, hsum⟩ := Option.bind_eq_some_iff.mp hd
  have := Duration.ofNanos?_eq_some.mp hsum
  omega

/-- Where `max` lies up to `2 ^ 53` whole seconds above `min`, it is reached exactly. -/
theorem interval_never_eq_max {k : ℕ} (hk : k ≤ 2 ^ 53)
    (h : t.max.nanos = t.min.nanos + k * nanosPerSecond) : t.interval none = some t.max := by
  have hspan : (t.max.minus t.min).nanos = k * nanosPerSecond := by
    show t.max.nanos - t.min.nanos = _
    omega
  have habove : Duration.ofBinary? (roundBinary (t.ramp none * (t.max.minus t.min).toBinary)) =
      some (t.max.minus t.min) := by
    have hramp : t.ramp none = 1 := rfl
    rw [hramp, one_mul, Duration.toBinary_of_seconds hk hspan, roundBinary_natCast hk,
      Duration.ofBinary?_seconds hspan]
  have hsum : t.min.add? (t.max.minus t.min) = some t.max :=
    Duration.ofNanos?_eq_some.mpr (by omega)
  show (Duration.ofBinary? _).bind _ = _
  rw [habove]
  exact hsum

/-- For all bounds, also with `min` above `max` or without an idle limit: if there is an interval for
a group without any activity, there is one for every idle time. It is not shorter than `min`, it
grows with the idle time up to that of a group without any activity, and equals that from `idleLimit`
on. That one is exactly `max` where `max` lies up to `2 ^ 53` whole seconds above `min`. -/
theorem interval_monotone (t : PollTiming) :
    (∀ never, t.interval none = some never → ∀ a b : Duration, a.nanos ≤ b.nanos →
      ∃ shorter longer, t.interval (some a) = some shorter ∧ t.interval (some b) = some longer ∧
        t.min.nanos ≤ shorter.nanos ∧ shorter.nanos ≤ longer.nanos ∧ longer.nanos ≤ never.nanos ∧
        (t.idleLimit.nanos ≤ b.nanos → longer = never)) ∧
    (∀ k ≤ 2 ^ 53, t.max.nanos = t.min.nanos + k * nanosPerSecond →
      t.interval none = some t.max) := by
  refine ⟨fun never hnever a b hab => ?_, fun k hk h => interval_never_eq_max hk h⟩
  obtain ⟨longer, hlonger, hle⟩ := interval_le_never (some b) hnever
  obtain ⟨shorter, hshorter, hle'⟩ := interval_mono hab hlonger
  refine ⟨shorter, longer, hshorter, hlonger, min_le_interval hshorter, hle', hle, fun hlimit => ?_⟩
  exact Option.some.inj (hlonger.symm.trans ((interval_of_idle hlimit).trans hnever))

/-- With bounds `2 ^ 53` seconds apart and a limit of one nanosecond, the interval goes from `min`
straight to `max`. -/
theorem interval_monotone_of_short_limit :
    let t : PollTiming := ⟨⟨250000000, by decide⟩,
      ⟨250000000 + 2 ^ 53 * nanosPerSecond, by decide⟩, ⟨1, by decide⟩⟩
    ∃ shorter, t.interval (some .zero) = some shorter ∧
      t.interval (some (.ofSeconds 1)) = some t.max ∧
      250000000 ≤ shorter.nanos ∧ shorter.nanos ≤ t.max.nanos := by
  intro t
  obtain ⟨hgrows, hreaches⟩ := interval_monotone t
  have hnever : t.interval none = some t.max := hreaches (2 ^ 53) le_rfl rfl
  obtain ⟨shorter, longer, hshorter, hlonger, hmin, hle, -, hlimit⟩ :=
    hgrows t.max hnever .zero (.ofSeconds 1) (by decide)
  obtain rfl := hlimit (by decide)
  exact ⟨shorter, hshorter, hlonger, hmin, hle⟩

end PollTiming

end Courier
