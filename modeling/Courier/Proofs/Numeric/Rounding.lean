import Courier.Numeric.Rounding
import Mathlib.Data.Int.Log
import Mathlib.Data.Rat.Floor
import Mathlib.Tactic.Linarith
import Mathlib.Tactic.NormNum
import Mathlib.Tactic.Positivity

/-!
# Rounding keeps the order

Values of double precision are `k * 2 ^ e` with `2 ^ 52 ≤ k < 2 ^ 53`; what lies less than half a
unit above such a value is rounded to it (`roundBinary_near`).

* `roundHalfEven_mono`, `roundBinary_mono`: the larger number is not rounded to the smaller value.
* `binaryExponent_eq_log`: the exponent is the binary logarithm.
* `roundBinary_natCast`: whole numbers up to `2 ^ 53` are kept.
* `roundBinary_large`: larger ones are rounded to values with a unit of two or more.
-/

namespace Courier

/-! ## The nearest whole number -/

theorem roundHalfEven_cases (q : ℚ) : roundHalfEven q = ⌊q⌋ ∨ roundHalfEven q = ⌊q⌋ + 1 := by
  have hdef : roundHalfEven q = if q - ⌊q⌋ < 1 / 2 then ⌊q⌋
      else if 1 / 2 < q - ⌊q⌋ then ⌊q⌋ + 1 else if ⌊q⌋ % 2 = 0 then ⌊q⌋ else ⌊q⌋ + 1 := rfl
  rw [hdef]
  split_ifs <;> simp

/-- What lies less than a half above a whole number is rounded to it. -/
theorem roundHalfEven_near {k : ℤ} {r : ℚ} (h₀ : 0 ≤ r) (h : r < 1 / 2) :
    roundHalfEven (k + r) = k := by
  have hfloor : ⌊(k : ℚ) + r⌋ = k := by
    rw [Int.floor_eq_iff]
    constructor <;> linarith
  show (if (k : ℚ) + r - ⌊(k : ℚ) + r⌋ < 1 / 2 then ⌊(k : ℚ) + r⌋ else _) = k
  rw [hfloor, if_pos (by linarith)]

theorem roundHalfEven_intCast (k : ℤ) : roundHalfEven k = k := by
  have h := roundHalfEven_near (k := k) (r := 0) le_rfl (by norm_num)
  rwa [add_zero] at h

/-- The larger number is not rounded to the smaller value. -/
theorem roundHalfEven_mono {a b : ℚ} (h : a ≤ b) : roundHalfEven a ≤ roundHalfEven b := by
  have hfloor : ⌊a⌋ ≤ ⌊b⌋ := Int.floor_le_floor h
  rcases hfloor.lt_or_eq with hlt | heq
  · have ha := roundHalfEven_cases a
    have hb := roundHalfEven_cases b
    omega
  -- with the same whole number below, the rests decide
  · have hrest : a - ⌊a⌋ ≤ b - ⌊b⌋ := by
      rw [heq]
      linarith
    show (if a - ⌊a⌋ < 1 / 2 then ⌊a⌋ else if 1 / 2 < a - ⌊a⌋ then ⌊a⌋ + 1
        else if ⌊a⌋ % 2 = 0 then ⌊a⌋ else ⌊a⌋ + 1) ≤
      (if b - ⌊b⌋ < 1 / 2 then ⌊b⌋ else if 1 / 2 < b - ⌊b⌋ then ⌊b⌋ + 1
        else if ⌊b⌋ % 2 = 0 then ⌊b⌋ else ⌊b⌋ + 1)
    rw [heq] at hrest ⊢
    by_cases hb : b - ⌊b⌋ < 1 / 2
    · rw [if_pos hb, if_pos (lt_of_le_of_lt hrest hb)]
    · rw [if_neg hb]
      by_cases ha : 1 / 2 < a - ⌊b⌋
      · rw [if_pos (lt_of_lt_of_le ha hrest)]
        split_ifs <;> omega
      · split_ifs <;> omega

/-- Below a whole number nothing is rounded beyond it. -/
theorem roundHalfEven_le {q : ℚ} {k : ℤ} (h : q ≤ k) : roundHalfEven q ≤ k :=
  (roundHalfEven_mono h).trans_eq (roundHalfEven_intCast k)

theorem le_roundHalfEven {q : ℚ} {k : ℤ} (h : (k : ℚ) ≤ q) : k ≤ roundHalfEven q :=
  (roundHalfEven_intCast k).symm.trans_le (roundHalfEven_mono h)

/-! ## The exponent -/

/-- The exponent of the highest bit is the binary logarithm. -/
theorem binaryExponent_eq_log {q : ℚ} (hq : 0 < q) : binaryExponent q = Int.log 2 q := by
  have hnum : 0 < q.num := Rat.num_pos.mpr hq
  have hnum' : q.num.toNat ≠ 0 := by omega
  have hden : (0 : ℚ) < q.den := by exact_mod_cast q.den_pos
  have hcast : ((q.num.toNat : ℕ) : ℚ) = q.num := by
    have : ((q.num.toNat : ℕ) : ℤ) = q.num := Int.toNat_of_nonneg hnum.le
    exact_mod_cast this
  have hquot : q = (q.num.toNat : ℚ) / q.den := by rw [hcast, Rat.num_div_den]
  set a := q.num.toNat.log2 with ha
  set b := q.den.log2 with hb
  -- both numerator and denominator lie between two powers of two
  have hnumlo : (2 : ℚ) ^ a ≤ q.num.toNat := by exact_mod_cast Nat.log2_self_le hnum'
  have hnumhi : (q.num.toNat : ℚ) < 2 ^ (a + 1) := by exact_mod_cast Nat.lt_log2_self
  have hdenlo : (2 : ℚ) ^ b ≤ q.den := by exact_mod_cast Nat.log2_self_le q.den_nz
  have hdenhi : (q.den : ℚ) < 2 ^ (b + 1) := by exact_mod_cast Nat.lt_log2_self
  have hlow : (2 : ℚ) ^ ((a : ℤ) - b - 1) ≤ q := by
    have hpow : (2 : ℚ) ^ ((a : ℤ) - b - 1) = 2 ^ a / 2 ^ (b + 1) := by
      rw [show (a : ℤ) - b - 1 = (a : ℤ) - ((b + 1 : ℕ) : ℤ) by push_cast; ring,
        zpow_sub₀ (by norm_num), zpow_natCast, zpow_natCast]
    rw [hpow, hquot]
    exact div_le_div₀ (by positivity) hnumlo hden hdenhi.le
  have hhigh : q < (2 : ℚ) ^ ((a : ℤ) - b + 1) := by
    have hpow : (2 : ℚ) ^ ((a : ℤ) - b + 1) = 2 ^ (a + 1) / 2 ^ b := by
      rw [show (a : ℤ) - b + 1 = ((a + 1 : ℕ) : ℤ) - (b : ℤ) by push_cast; ring,
        zpow_sub₀ (by norm_num), zpow_natCast, zpow_natCast]
    rw [hpow, hquot]
    exact div_lt_div₀ hnumhi hdenlo (by positivity) (by positivity)
  have hleft := (Int.zpow_le_iff_le_log one_lt_two hq).mp hlow
  have hright := (Int.lt_zpow_iff_log_lt one_lt_two hq).mp hhigh
  have hmiddle := Int.zpow_le_iff_le_log one_lt_two (x := (a : ℤ) - b) hq
  show (if (2 : ℚ) ^ ((a : ℤ) - b) ≤ q then (a : ℤ) - b else (a : ℤ) - b - 1) = _
  split
  · next h =>
    have := hmiddle.mp h
    omega
  · next h =>
    have := mt hmiddle.mpr h
    omega

/-! ## Values of double precision -/

/-- A positive rational lies between two powers of two, the lower one of 53 bits. -/
theorem exists_exponent {q : ℚ} (hq : 0 < q) :
    ∃ e : ℤ, (2 : ℚ) ^ (e + 52) ≤ q ∧ q < (2 : ℚ) ^ (e + 53) := by
  refine ⟨Int.log 2 q - 52, ?_, ?_⟩
  · exact (Int.zpow_le_iff_le_log one_lt_two hq).mpr (by omega)
  · exact (Int.lt_zpow_iff_log_lt one_lt_two hq).mpr (by omega)

/-- Between two such powers the unit is the same everywhere. -/
theorem roundBinary_eq {q : ℚ} {e : ℤ} (hlow : (2 : ℚ) ^ (e + 52) ≤ q)
    (hhigh : q < (2 : ℚ) ^ (e + 53)) : roundBinary q = roundHalfEven (q / 2 ^ e) * 2 ^ e := by
  have hq : 0 < q := lt_of_lt_of_le (zpow_pos two_pos _) hlow
  have hlog : Int.log 2 q = e + 52 := by
    have := (Int.zpow_le_iff_le_log one_lt_two hq).mp hlow
    have := (Int.lt_zpow_iff_log_lt one_lt_two hq).mp hhigh
    omega
  have hunit : binaryExponent q - ((binaryPrecision : ℤ) - 1) = e := by
    rw [binaryExponent_eq_log hq, hlog]
    show e + 52 - (53 - 1) = e
    ring
  unfold roundBinary
  rw [if_neg (not_le.mpr hq)]
  dsimp only
  rw [hunit]

/-- The multiple of the unit that is taken has 53 bits, or is the next power of two. -/
theorem roundHalfEven_bounds {q : ℚ} {e : ℤ} (hlow : (2 : ℚ) ^ (e + 52) ≤ q)
    (hhigh : q < (2 : ℚ) ^ (e + 53)) :
    2 ^ 52 ≤ roundHalfEven (q / 2 ^ e) ∧ roundHalfEven (q / 2 ^ e) ≤ 2 ^ 53 := by
  have hunit : (0 : ℚ) < 2 ^ e := zpow_pos two_pos e
  rw [zpow_add₀ two_ne_zero, mul_comm] at hlow hhigh
  constructor
  · refine le_roundHalfEven ?_
    rw [le_div_iff₀ hunit]
    exact_mod_cast hlow
  · refine roundHalfEven_le ?_
    rw [div_le_iff₀ hunit]
    exact_mod_cast hhigh.le

theorem roundBinary_of_nonpos {q : ℚ} (h : q ≤ 0) : roundBinary q = 0 :=
  if_pos h

theorem roundBinary_pos {q : ℚ} (h : 0 < q) : 0 < roundBinary q := by
  obtain ⟨e, hlow, hhigh⟩ := exists_exponent h
  have hk : 0 < roundHalfEven (q / 2 ^ e) := by
    have := (roundHalfEven_bounds hlow hhigh).1
    omega
  have hk : (0 : ℚ) < roundHalfEven (q / 2 ^ e) := by exact_mod_cast hk
  rw [roundBinary_eq hlow hhigh]
  exact mul_pos hk (zpow_pos two_pos e)

theorem roundBinary_nonneg (q : ℚ) : 0 ≤ roundBinary q := by
  rcases le_or_gt q 0 with h | h
  · rw [roundBinary_of_nonpos h]
  · exact (roundBinary_pos h).le

/-- The larger number is not rounded to the smaller value. -/
theorem roundBinary_mono {a b : ℚ} (h : a ≤ b) : roundBinary a ≤ roundBinary b := by
  rcases le_or_gt a 0 with ha | ha
  · rw [roundBinary_of_nonpos ha]
    exact roundBinary_nonneg b
  obtain ⟨e, hlow, hhigh⟩ := exists_exponent ha
  obtain ⟨e', hlow', hhigh'⟩ := exists_exponent (ha.trans_le h)
  rw [roundBinary_eq hlow hhigh, roundBinary_eq hlow' hhigh']
  have hunit : (0 : ℚ) < 2 ^ e := zpow_pos two_pos e
  have hle : e ≤ e' := by
    have hpow : (2 : ℚ) ^ (e + 52) < 2 ^ (e' + 53) := lt_of_le_of_lt (hlow.trans h) hhigh'
    have := (zpow_lt_zpow_iff_right₀ one_lt_two).mp hpow
    omega
  rcases hle.eq_or_lt with rfl | hlt
  · have hquot := roundHalfEven_mono ((div_le_div_iff_of_pos_right hunit).mpr h)
    exact mul_le_mul_of_nonneg_right (by exact_mod_cast hquot) hunit.le
  -- a power of two lies between the values
  · have hk : (roundHalfEven (a / 2 ^ e) : ℚ) ≤ 2 ^ 53 := by
      exact_mod_cast (roundHalfEven_bounds hlow hhigh).2
    have hk' : (2 : ℚ) ^ 52 ≤ roundHalfEven (b / 2 ^ e') := by
      exact_mod_cast (roundHalfEven_bounds hlow' hhigh').1
    calc (roundHalfEven (a / 2 ^ e) : ℚ) * 2 ^ e
        ≤ 2 ^ 53 * 2 ^ e := mul_le_mul_of_nonneg_right hk hunit.le
      _ = 2 ^ 52 * 2 ^ (e + 1) := by rw [zpow_add_one₀ two_ne_zero]; ring
      _ ≤ 2 ^ 52 * 2 ^ e' :=
        mul_le_mul_of_nonneg_left (zpow_le_zpow_right₀ one_le_two hlt) (by positivity)
      _ ≤ roundHalfEven (b / 2 ^ e') * 2 ^ e' :=
        mul_le_mul_of_nonneg_right hk' (zpow_pos two_pos e').le

/-- What lies less than half a unit above a value is rounded to it. -/
theorem roundBinary_near {k e : ℤ} {f : ℚ} (hk : 2 ^ 52 ≤ k) (hk' : k < 2 ^ 53) (hf : 0 ≤ f)
    (hf' : 2 * f < 2 ^ e) : roundBinary (k * 2 ^ e + f) = k * 2 ^ e := by
  have hunit : (0 : ℚ) < 2 ^ e := zpow_pos two_pos e
  have hlow : (2 : ℚ) ^ (e + 52) ≤ k * 2 ^ e + f := by
    rw [zpow_add₀ two_ne_zero, mul_comm]
    have : (2 : ℚ) ^ (52 : ℤ) ≤ k := by exact_mod_cast hk
    nlinarith
  have hhigh : k * 2 ^ e + f < (2 : ℚ) ^ (e + 53) := by
    rw [zpow_add₀ two_ne_zero, mul_comm ((2 : ℚ) ^ e)]
    have : (k : ℚ) + 1 ≤ 2 ^ (53 : ℤ) := by exact_mod_cast hk'
    nlinarith
  rw [roundBinary_eq hlow hhigh, add_div, mul_div_cancel_right₀ _ hunit.ne',
    roundHalfEven_near (div_nonneg hf hunit.le) (by rw [div_lt_iff₀ hunit]; linarith)]

theorem roundBinary_value {k e : ℤ} (hk : 2 ^ 52 ≤ k) (hk' : k < 2 ^ 53) :
    roundBinary (k * 2 ^ e) = k * 2 ^ e := by
  have h := roundBinary_near (e := e) hk hk' le_rfl (by rw [mul_zero]; exact zpow_pos two_pos e)
  rwa [add_zero] at h

/-! ## Whole numbers -/

/-- Whole numbers up to `2 ^ 53` are kept. -/
theorem roundBinary_natCast {n : ℕ} (h : n ≤ 2 ^ 53) : roundBinary n = n := by
  rcases n.eq_zero_or_pos with rfl | hpos
  · exact roundBinary_of_nonpos (by simp)
  rcases h.eq_or_lt with rfl | h
  · have hvalue := roundBinary_value (k := 2 ^ 52) (e := 1) le_rfl (by norm_num)
    norm_num at hvalue ⊢
    exact hvalue
  obtain ⟨e, hlow, hhigh⟩ := exists_exponent (q := (n : ℚ)) (by exact_mod_cast hpos)
  have he : e ≤ 0 := by
    have hpow : (2 : ℚ) ^ (e + 52) < 2 ^ (53 : ℤ) := lt_of_le_of_lt hlow (by exact_mod_cast h)
    have := (zpow_lt_zpow_iff_right₀ one_lt_two).mp hpow
    omega
  -- the unit is a power of two that divides 1
  obtain ⟨d, rfl⟩ : ∃ d : ℕ, e = -(d : ℤ) := ⟨(-e).toNat, by omega⟩
  have hquot : (n : ℚ) / 2 ^ (-(d : ℤ)) = ((n * 2 ^ d : ℤ) : ℚ) := by
    rw [zpow_neg, div_inv_eq_mul, zpow_natCast]
    push_cast
    rfl
  rw [roundBinary_eq hlow hhigh, hquot, roundHalfEven_intCast, ← hquot,
    div_mul_cancel₀ _ (zpow_pos two_pos _).ne']

theorem roundBinary_one : roundBinary 1 = 1 := by
  have h := roundBinary_natCast (n := 1) (by norm_num)
  rwa [Nat.cast_one] at h

/-- Larger whole numbers are rounded to values with a unit of two or more. -/
theorem roundBinary_large {n : ℕ} (h : 2 ^ 53 ≤ n) :
    ∃ k e : ℤ, roundBinary n = k * 2 ^ e ∧ 2 ^ 52 ≤ k ∧ k < 2 ^ 53 ∧ 1 ≤ e := by
  have hn : (2 : ℚ) ^ (53 : ℤ) ≤ n := by exact_mod_cast h
  obtain ⟨e, hlow, hhigh⟩ := exists_exponent (q := (n : ℚ))
    (lt_of_lt_of_le (zpow_pos two_pos _) hn)
  have he : 1 ≤ e := by
    have hpow : (2 : ℚ) ^ (53 : ℤ) < 2 ^ (e + 53) := lt_of_le_of_lt hn hhigh
    have := (zpow_lt_zpow_iff_right₀ one_lt_two).mp hpow
    omega
  obtain ⟨hk, hk'⟩ := roundHalfEven_bounds hlow hhigh
  rw [roundBinary_eq hlow hhigh]
  rcases hk'.lt_or_eq with hlt | heq
  · exact ⟨_, e, rfl, hk, hlt, he⟩
  · refine ⟨2 ^ 52, e + 1, ?_, le_rfl, by norm_num, by omega⟩
    rw [heq, zpow_add_one₀ two_ne_zero]
    push_cast
    ring

end Courier
