import Courier.Identity

/-!
# Decimal numerals

The digits of a natural number as ASCII octets, most significant first and without leading zeros,
and the number that a run of digits stands for. `value_digits` says that the digits are read back.
-/

namespace Courier.Decimal

/-- The octet is one of the ten digits. -/
def isDigit (b : UInt8) : Bool :=
  0x30 ≤ b && b ≤ 0x39

/-- The octet of a digit below ten. -/
def digit (d : Nat) : UInt8 :=
  UInt8.ofNat (0x30 + d)

/-- The number a digit stands for. -/
def digitValue (b : UInt8) : Nat :=
  b.toNat - 0x30

/-- The digits of a number. -/
def digits (n : Nat) : Octets :=
  if n < 10 then [digit n] else digits (n / 10) ++ [digit (n % 10)]
termination_by n
decreasing_by omega

/-- The number a run of digits stands for. -/
def value (ds : Octets) : Nat :=
  ds.foldl (fun n b => 10 * n + digitValue b) 0

theorem digitValue_digit {d : Nat} (h : d < 10) : digitValue (digit d) = d := by
  have : ∀ d, d < 10 → digitValue (digit d) = d := by decide
  exact this d h

theorem isDigit_digit {d : Nat} (h : d < 10) : isDigit (digit d) = true := by
  have : ∀ d, d < 10 → isDigit (digit d) = true := by decide
  exact this d h

theorem value_digits (n : Nat) : value (digits n) = n := by
  rw [digits]
  split
  · next h => simp [value, digitValue_digit h]
  · have ih := value_digits (n / 10)
    simp only [value, List.foldl_append, List.foldl_cons, List.foldl_nil] at ih ⊢
    rw [ih, digitValue_digit (by omega)]
    omega
termination_by n
decreasing_by omega

theorem isDigit_of_mem_digits {n : Nat} {b : UInt8} (h : b ∈ digits n) : isDigit b = true := by
  rw [digits] at h
  split at h
  · next hn =>
    rw [List.mem_singleton.1 h]
    exact isDigit_digit hn
  · rcases List.mem_append.1 h with h | h
    · exact isDigit_of_mem_digits h
    · rw [List.mem_singleton.1 h]
      exact isDigit_digit (by omega)
termination_by n
decreasing_by omega

/-- The digits of an integer, with a sign in front of a negative one. -/
def ofInt (n : Int) : Octets :=
  if n < 0 then 0x2d :: digits n.natAbs else digits n.natAbs

end Courier.Decimal
