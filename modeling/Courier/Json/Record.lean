import Courier.Json.Reader
import Courier.Json.Text

/-!
# Typed values in JSON

How texts, integers, octets and records stand in JSON. A record is written as an object; it is read
from an object, whatever the order of its members, or from an array with the fields in their order.
An object may have members the record does not know, but none that it knows twice; an array may be
shorter than the record only where the missing fields have a default.

`Json.Record` holds the known fields of one such value; `required`, `optional` and `defaulted` read
one of them.
-/

namespace Courier.Json

/-- A text. -/
def ofText (s : String) : Json :=
  .string (escape s)

/-- An integer. -/
def ofInt (n : Int) : Json :=
  .number (Decimal.ofInt n)

/-- Octets, as an array of numbers. -/
def ofOctets (bs : Octets) : Json :=
  .array (bs.map fun b => ofInt b.toNat)

/-- An optional value; its absence is `null`. -/
def ofOption {α : Type} (f : α → Json) : Option α → Json
  | none => .null
  | some a => f a

/-- A record with its fields in order. -/
def ofFields (fields : List (String × Json)) : Json :=
  .object (fields.map fun (name, v) => (escape name, v))

/-- A text, if the value is one. -/
def text? : Json → Option String
  | .string raw => unescape? raw
  | _ => none

/-- A truth value, if the value is one. -/
def bool? : Json → Option Bool
  | .bool b => some b
  | _ => none

/-- The integer a number literal stands for. A fraction, an exponent or a negative zero makes the
literal something else than an integer. -/
def literalInt? (literal : Octets) : Option Int :=
  match literal with
  | 0x2d :: ds =>
    if ds.all Decimal.isDigit ∧ ds ≠ [0x30] then some (-(Decimal.value ds : Int)) else none
  | ds => if ds.all Decimal.isDigit then some (Decimal.value ds) else none

/-- An integer between two bounds, if the value is one. -/
def intWithin? (lo hi : Int) : Json → Option Int
  | .number literal => (literalInt? literal).filter fun n => lo ≤ n ∧ n ≤ hi
  | _ => none

/-- An octet. -/
def uint8? (j : Json) : Option UInt8 :=
  (j.intWithin? 0 255).map fun n => UInt8.ofNat n.toNat

/-- An unsigned number of 16 bits. -/
def uint16? (j : Json) : Option UInt16 :=
  (j.intWithin? 0 65535).map fun n => UInt16.ofNat n.toNat

/-- An unsigned number of 64 bits. -/
def uint64? (j : Json) : Option UInt64 :=
  (j.intWithin? 0 (UInt64.size - 1)).map fun n => UInt64.ofNat n.toNat

/-- An integer that fits 64 bits with its sign. -/
def rowId? (j : Json) : Option Int :=
  j.intWithin? Int64.minValue.toInt Int64.maxValue.toInt

/-- A signed number of 64 bits. -/
def int64? (j : Json) : Option Int64 :=
  j.rowId?.map Int64.ofInt

/-- An array whose items are all read by `f`. -/
def list? {α : Type} (f : Json → Option α) : Json → Option (List α)
  | .array items => items.mapM f
  | _ => none

/-- Octets, written as an array of numbers. -/
def octets? : Json → Option Octets :=
  list? uint8?

/-- An optional value: `null`, or one that `f` reads. -/
def nullable? {α : Type} (f : Json → Option α) : Json → Option (Option α)
  | .null => some none
  | j => (f j).map some

/-- One of a few names: the name itself, or an object whose one member has that name and the
value `null`. -/
def name? : Json → Option String
  | .string raw => unescape? raw
  | .object [(raw, .null)] => unescape? raw
  | _ => none

/-- The known fields of a record that was read. -/
structure Record where
  /-- The fields stood in an array, in their order. -/
  byPlace : Bool
  fields : List (String × Json)

/-- The fields of a record named in `names`. -/
def record? (names : List String) : Json → Option Record
  | .object members => do
    let named ← members.mapM fun (raw, v) => (unescape? raw).map fun name => (name, v)
    let known := named.filter fun (name, _) => names.contains name
    if (known.map (·.1)).Nodup then some ⟨false, known⟩ else none
  | .array items =>
    if items.length ≤ names.length then some ⟨true, names.zip items⟩ else none
  | _ => none

namespace Record

/-- A field that must be there. -/
def required {α : Type} (r : Record) (name : String) (f : Json → Option α) : Option α :=
  (r.fields.lookup name).bind f

/-- An optional field; in an object it may be missing. -/
def optional {α : Type} (r : Record) (name : String) (f : Json → Option α) : Option (Option α) :=
  match r.fields.lookup name with
  | some j => nullable? f j
  | none => if r.byPlace then none else some none

/-- An optional field that may be missing in either form. -/
def defaulted {α : Type} (r : Record) (name : String) (f : Json → Option α) : Option (Option α) :=
  match r.fields.lookup name with
  | some j => nullable? f j
  | none => some none

end Record

end Courier.Json
