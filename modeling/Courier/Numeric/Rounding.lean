/-!
# Rounding

`roundHalfEven` rounds a rational to the nearest integer, a tie to the even one. `roundBinary`
rounds a rational that is not negative to the nearest one with 53 significant bits, a tie to the
one whose last bit is 0: the values of IEEE double precision, as long as the exponent stays in
range.
-/

namespace Courier

/-- The nearest integer; of two that are equally near, the even one. -/
def roundHalfEven (q : Rat) : Int :=
  let below := q.floor
  let rest := q - below
  if rest < 1 / 2 then below
  else if 1 / 2 < rest then below + 1
  else if below % 2 = 0 then below
  else below + 1

/-- The exponent of the highest bit of a positive rational: `2 ^ e ≤ q < 2 ^ (e + 1)`. -/
def binaryExponent (q : Rat) : Int :=
  let estimate : Int := (q.num.toNat.log2 : Int) - (q.den.log2 : Int)
  if (2 : Rat) ^ estimate ≤ q then estimate else estimate - 1

/-- The number of significant bits of a double. -/
def binaryPrecision : Nat := 53

/-- The nearest rational with 53 significant bits. -/
def roundBinary (q : Rat) : Rat :=
  if q ≤ 0 then 0
  else
    let unit := (2 : Rat) ^ (binaryExponent q - (binaryPrecision - 1))
    roundHalfEven (q / unit) * unit

end Courier
