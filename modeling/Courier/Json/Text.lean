import Courier.Text.Utf8

/-!
# Strings in JSON

`escape` writes a text as it stands between quotes: a quote, a backslash and the control characters
are escaped, everything else stays as it is. `unescape?` reads such a run of octets. An escape of a
surrogate counts only as the first or second half of a pair, and the whole must be UTF-8.
-/

namespace Courier.Json

/-- A hexadecimal digit, in lower case. -/
def hexDigit (n : Nat) : UInt8 :=
  if n < 10 then UInt8.ofNat (0x30 + n) else UInt8.ofNat (0x57 + n)

/-- The value of a hexadecimal digit, in either case. -/
def hexValue? (b : UInt8) : Option Nat :=
  if 0x30 ≤ b ∧ b ≤ 0x39 then some (b.toNat - 0x30)
  else if 0x61 ≤ b ∧ b ≤ 0x66 then some (b.toNat - 0x57)
  else if 0x41 ≤ b ∧ b ≤ 0x46 then some (b.toNat - 0x37)
  else none

/-- How one octet of a text is written inside quotes. -/
def escapeOctet (b : UInt8) : Octets :=
  if b = 0x22 then [0x5c, 0x22]
  else if b = 0x5c then [0x5c, 0x5c]
  else if b = 0x08 then [0x5c, 0x62]
  else if b = 0x09 then [0x5c, 0x74]
  else if b = 0x0a then [0x5c, 0x6e]
  else if b = 0x0c then [0x5c, 0x66]
  else if b = 0x0d then [0x5c, 0x72]
  else if b < 0x20 then
    [0x5c, 0x75, 0x30, 0x30, hexDigit (b.toNat / 16), hexDigit (b.toNat % 16)]
  else [b]

/-- A text as it stands between quotes. -/
def escape (s : String) : Octets :=
  (octetsOf s).flatMap escapeOctet

/-- The number of a four-digit escape. -/
def hexQuad? (a b c d : UInt8) : Option Nat := do
  return 4096 * (← hexValue? a) + 256 * (← hexValue? b) + 16 * (← hexValue? c) + (← hexValue? d)

/-- The character that two halves of a pair stand for. -/
def pairedSurrogates (high low : Nat) : Nat :=
  0x10000 + (high - 0xd800) * 1024 + (low - 0xdc00)

/-- The octets of a character given by its number. -/
def charOctets (n : Nat) : Octets :=
  String.utf8EncodeChar (Char.ofNat n)

/-- The octet a one-letter escape stands for. -/
def letterEscape? (b : UInt8) : Option UInt8 :=
  if b = 0x22 then some 0x22
  else if b = 0x5c then some 0x5c
  else if b = 0x2f then some 0x2f
  else if b = 0x62 then some 0x08
  else if b = 0x66 then some 0x0c
  else if b = 0x6e then some 0x0a
  else if b = 0x72 then some 0x0d
  else if b = 0x74 then some 0x09
  else none

/-- The octets that a run of plain and escaped characters stands for, put in front of `done`
backwards. A high surrogate that has been read waits in `pending` for its low one. -/
def unescapeInto (done : Octets) (pending : Option Nat) : Octets → Option Octets
  | 0x5c :: 0x75 :: a :: b :: c :: d :: rest =>
    match hexQuad? a b c d, pending with
    | none, _ => none
    | some n, some high =>
      if 0xdc00 ≤ n ∧ n < 0xe000 then
        unescapeInto ((charOctets (pairedSurrogates high n)).reverse ++ done) none rest
      else none
    | some n, none =>
      if 0xd800 ≤ n ∧ n < 0xdc00 then unescapeInto done (some n) rest
      else if 0xdc00 ≤ n ∧ n < 0xe000 then none
      else unescapeInto ((charOctets n).reverse ++ done) none rest
  | 0x5c :: e :: rest =>
    match pending, letterEscape? e with
    | none, some b => unescapeInto (b :: done) none rest
    | _, _ => none
  | [0x5c] => none
  | b :: rest => if pending.isSome then none else unescapeInto (b :: done) none rest
  | [] => if pending.isSome then none else some done.reverse

/-- The text that stands between two quotes. -/
def unescape? (raw : Octets) : Option String :=
  (unescapeInto [] none raw).bind textOf?

end Courier.Json
