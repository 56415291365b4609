import Courier.Identity

/-!
# JSON values

A value keeps its numbers and strings as they were written: `number` holds the literal, `string`
and the member names hold what stands between the quotes, escapes included. What they mean is
decided where they are used (`Courier.Json.Text`, `Courier.Json.Record`), so that a value that
nobody looks at is held to the grammar alone.

`Json.render` writes a value without spaces.
-/

namespace Courier

/-- A JSON value with its literals unread. -/
inductive Json where
  | null
  | bool (b : Bool)
  | number (literal : Octets)
  | string (raw : Octets)
  | array (items : List Json)
  | object (members : List (Octets × Json))
  deriving Repr

namespace Json

/-- The octets of an ASCII text. -/
def ascii (s : String) : Octets :=
  s.toList.map (UInt8.ofNat ·.toNat)

/-- What stands between quotes, with the quotes. -/
def quoted (raw : Octets) : Octets :=
  0x22 :: (raw ++ [0x22])

mutual

/-- The text of a value, without spaces. -/
def render : Json → Octets
  | .null => ascii "null"
  | .bool true => ascii "true"
  | .bool false => ascii "false"
  | .number literal => literal
  | .string raw => quoted raw
  | .array items => 0x5b :: renderItems items
  | .object members => 0x7b :: renderMembers members

/-- The items of an array from its first one on, with the closing bracket. -/
def renderItems : List Json → Octets
  | [] => [0x5d]
  | v :: rest => render v ++ renderMoreItems rest

/-- The items of an array after its first one, with the closing bracket. -/
def renderMoreItems : List Json → Octets
  | [] => [0x5d]
  | v :: rest => 0x2c :: (render v ++ renderMoreItems rest)

/-- The members of an object from its first one on, with the closing brace. -/
def renderMembers : List (Octets × Json) → Octets
  | [] => [0x7d]
  | (k, v) :: rest => quoted k ++ 0x3a :: (render v ++ renderMoreMembers rest)

/-- The members of an object after its first one, with the closing brace. -/
def renderMoreMembers : List (Octets × Json) → Octets
  | [] => [0x7d]
  | (k, v) :: rest => 0x2c :: (quoted k ++ 0x3a :: (render v ++ renderMoreMembers rest))

end

end Json

end Courier
