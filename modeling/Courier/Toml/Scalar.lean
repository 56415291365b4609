import Courier.Toml.Value

/-!
# Values without quotes

`Value.ofBare?` reads the values that are written as one bare word: truth values, integers, floats,
dates and times.

* An integer is decimal, or has one of the bases 16, 8 and 2; it must fit 64 bits with its sign.
  Underscores may stand between two digits. A decimal one has no leading zeros, and only it takes a
  sign.
* A float has a fraction or an exponent or both, or it is infinite or no number. One that is too
  large to be finite is refused; one that is too small is not.
* A date must exist. A time may count a leap second. Both together may have an offset.
-/

namespace Courier.Toml

namespace Scalar

/-- A digit of a base up to 16. -/
def digitValue? (base : Nat) (c : Char) : Option Nat :=
  let v :=
    if '0' ≤ c ∧ c ≤ '9' then c.toNat - 0x30
    else if 'a' ≤ c ∧ c ≤ 'f' then c.toNat - 0x57
    else if 'A' ≤ c ∧ c ≤ 'F' then c.toNat - 0x37
    else base
  if v < base then some v else none

/-- The values of digits, with single underscores between two of them skipped. -/
def digits? (base : Nat) : List Char → Option (List Nat)
  | [] => none
  | [c] => (digitValue? base c).map fun d => [d]
  | c :: '_' :: rest => do
    let d ← digitValue? base c
    return d :: (← digits? base rest)
  | c :: rest => do
    let d ← digitValue? base c
    return d :: (← digits? base rest)

/-- The number of a run of digits. -/
def value (base : Nat) (ds : List Nat) : Nat :=
  ds.foldl (fun n d => base * n + d) 0

/-- Decimal digits without leading zeros. -/
def plainDigits? (cs : List Char) : Option (List Nat) :=
  (digits? 10 cs).filter fun ds => ds.length = 1 ∨ ds.head? ≠ some 0

/-- The sign of a number, whether it is a minus, and what follows it. -/
def sign : List Char → Bool × List Char
  | '+' :: rest => (false, rest)
  | '-' :: rest => (true, rest)
  | cs => (false, cs)

/-- The integers of 64 bits. -/
def fits (n : Int) : Bool :=
  Int64.minValue.toInt ≤ n && n ≤ Int64.maxValue.toInt

/-- An integer with digits of a base, without sign. -/
def based? (base : Nat) (cs : List Char) : Option Int :=
  ((digits? base cs).map fun ds => (value base ds : Int)).filter fits

/-- A decimal integer. -/
def decimal? (cs : List Char) : Option Int := do
  let (negative, rest) := sign cs
  let ds ← plainDigits? rest
  let n : Int := value 10 ds
  let n := if negative then -n else n
  if fits n then some n else none

/-- An integer. -/
def integer? : List Char → Option Int
  | '0' :: 'x' :: rest => based? 16 rest
  | '0' :: 'o' :: rest => based? 8 rest
  | '0' :: 'b' :: rest => based? 2 rest
  | cs => decimal? cs

/-- The part of a text before the first character of a kind, and the part after it. -/
def cut (p : Char → Bool) (cs : List Char) : List Char × Option (List Char) :=
  match cs.dropWhile (!p ·) with
  | [] => (cs, none)
  | _ :: rest => (cs.takeWhile (!p ·), some rest)

/-- The least number that is rounded to more than the largest double. -/
def doubleLimit : Nat :=
  (1 <<< 1024) - (1 <<< 970)

/-- Whether the number with these digits, times a power of ten, is too large for a double. -/
def overflows (ds : List Nat) (exponent : Int) : Bool :=
  let m := value 10 ds
  let size : Int := (ds.dropWhile (· = 0)).length + exponent
  if m = 0 ∨ size < 300 then false
  else if 310 < size then true
  else if 0 ≤ exponent then m * Nat.pow 10 exponent.toNat ≥ doubleLimit
  else m ≥ doubleLimit * Nat.pow 10 (-exponent).toNat

/-- The exponent of a float. -/
def exponent? (cs : List Char) : Option Int := do
  let (negative, rest) := sign cs
  let n : Int := value 10 (← digits? 10 rest)
  return if negative then -n else n

/-- A text that is a float. -/
def isFloat (cs : List Char) : Bool :=
  let (negative, rest) := sign cs
  if rest = ['i', 'n', 'f'] ∨ rest = ['n', 'a', 'n'] then true
  else
    let (mantissa, power) := cut (fun c => c == 'e' || c == 'E') rest
    let (whole, fraction) := cut (· == '.') mantissa
    let known : Option Bool := do
      let ds ← plainDigits? whole
      let fs ← match fraction with
        | none => some []
        | some cs => digits? 10 cs
      let e ← match power with
        | none => some 0
        | some cs => exponent? cs
      return negative || !overflows (ds ++ fs) (e - fs.length)
    (fraction.isSome || power.isSome) && known.getD false

/-- The number of two digits. -/
def twoDigits? (a b : Char) : Option Nat := do
  return 10 * (← digitValue? 10 a) + (← digitValue? 10 b)

/-- The days of a month. -/
def daysIn (year month : Nat) : Nat :=
  if month = 2 then if year % 4 = 0 ∧ (year % 100 ≠ 0 ∨ year % 400 = 0) then 29 else 28
  else if month = 4 ∨ month = 6 ∨ month = 9 ∨ month = 11 then 30
  else 31

/-- What follows a date at the start of a text. -/
def afterDate? : List Char → Option (List Char)
  | a :: b :: c :: d :: '-' :: e :: f :: '-' :: g :: h :: rest => do
    let year := 100 * (← twoDigits? a b) + (← twoDigits? c d)
    let month ← twoDigits? e f
    let day ← twoDigits? g h
    if 1 ≤ month ∧ month ≤ 12 ∧ 1 ≤ day ∧ day ≤ daysIn year month then some rest else none
  | _ => none

/-- A decimal digit. -/
def isDigit (c : Char) : Bool :=
  (digitValue? 10 c).isSome

/-- What follows the fraction of a second, if there is one at the start of a text. -/
def afterFraction : List Char → List Char
  | '.' :: c :: rest => if isDigit c then rest.dropWhile isDigit else '.' :: c :: rest
  | cs => cs

/-- What follows a time at the start of a text. -/
def afterTime? : List Char → Option (List Char)
  | a :: b :: ':' :: c :: d :: ':' :: e :: f :: rest => do
    let hour ← twoDigits? a b
    let minute ← twoDigits? c d
    let second ← twoDigits? e f
    if hour < 24 ∧ minute < 60 ∧ second ≤ 60 then some (afterFraction rest) else none
  | _ => none

/-- A text that is an offset from UTC. -/
def isOffset : List Char → Bool
  | ['Z'] | ['z'] => true
  | [s, a, b, ':', c, d] =>
    let known : Option Bool := do
      let hour ← twoDigits? a b
      let minute ← twoDigits? c d
      return (s == '+' || s == '-') && hour < 24 && minute < 60
    known.getD false
  | _ => false

/-- A text that is a date and nothing more. -/
def isDate (cs : List Char) : Bool :=
  afterDate? cs = some []

/-- A text that is a date, a time or both. -/
def isDateTime (cs : List Char) : Bool :=
  match afterDate? cs with
  | some [] => true
  | some (c :: rest) =>
    (c == 'T' || c == 't' || c == ' ') &&
      match afterTime? rest with
      | some [] => true
      | some offset => isOffset offset
      | none => false
  | none => afterTime? cs = some []

end Scalar

/-- The value of a bare word. -/
def Value.ofBare? (cs : List Char) : Option Value :=
  if cs = ['t', 'r', 'u', 'e'] then some (.boolean true)
  else if cs = ['f', 'a', 'l', 's', 'e'] then some (.boolean false)
  else
    match Scalar.integer? cs with
    | some n => some (.integer n)
    | none =>
      if Scalar.isFloat cs then some (.float (String.ofList cs))
      else if Scalar.isDateTime cs then some (.dateTime (String.ofList cs))
      else none

end Courier.Toml
