import Courier.Json.Value
import Courier.Text.Decimal

/-!
# Reading JSON

The reader is a machine that takes one octet at a time (`Reader.step`) and keeps the containers it
is inside on a stack, so that the depth of a text costs no call stack. `Json.read` runs it over a
text: the result is the one value the text holds, or nothing if the text is not JSON.

* A number ends at the first octet that cannot continue it; that octet is then taken in the state
  after the value.
* The escapes of a string must be well formed, its other octets must not be control characters;
  neither its encoding nor its surrogates are looked at here.
-/

namespace Courier.Json.Reader

/-- A container that is being read: an array with its items so far, latest first, or an object
with its members so far and the name of the member whose value comes next. -/
inductive Frame where
  | array (items : List Json)
  | object (members : List (Octets × Json)) (name : Option Octets)

/-- How far a number literal has come. -/
inductive NumberPart where
  | minus
  | zero
  | integer
  | point
  | fraction
  | exponent
  | exponentSign
  | exponentDigits
  deriving DecidableEq

namespace NumberPart

/-- The literal may end here. -/
def complete : NumberPart → Bool
  | .zero | .integer | .fraction | .exponentDigits => true
  | .minus | .point | .exponent | .exponentSign => false

/-- The part of the literal after one more octet, if it can go on with it. -/
def next? (part : NumberPart) (b : UInt8) : Option NumberPart :=
  let digit := Decimal.isDigit b
  let exponentMark := b == 0x65 || b == 0x45
  match part with
  | .minus => if b == 0x30 then some .zero else if digit then some .integer else none
  | .zero => if b == 0x2e then some .point else if exponentMark then some .exponent else none
  | .integer =>
    if digit then some .integer
    else if b == 0x2e then some .point
    else if exponentMark then some .exponent
    else none
  | .point => if digit then some .fraction else none
  | .fraction =>
    if digit then some .fraction else if exponentMark then some .exponent else none
  | .exponent =>
    if b == 0x2b || b == 0x2d then some .exponentSign
    else if digit then some .exponentDigits
    else none
  | .exponentSign | .exponentDigits => if digit then some .exponentDigits else none

end NumberPart

/-- Where in a string the reader is: at a plain character, after a backslash, or before the last
`n + 1` digits of a four-digit escape. -/
inductive StringPart where
  | plain
  | escape
  | digits (n : Nat)

/-- What the reader expects next. Octets of an unfinished literal are kept latest first. -/
inductive Mode where
  /-- A value. -/
  | value
  /-- The first item of an array, or its end. -/
  | firstItem
  /-- The first member of an object, or its end. -/
  | firstName
  /-- A member's name. -/
  | name
  /-- More of a member's name. -/
  | inName (raw : Octets) (part : StringPart)
  /-- The colon after a name. -/
  | colon
  /-- More of a string. -/
  | inString (raw : Octets) (part : StringPart)
  /-- More of a number. -/
  | inNumber (raw : Octets) (part : NumberPart)
  /-- The rest of a word that stands for a value. -/
  | inWord (rest : Octets) (v : Json)
  /-- A comma or the end of the container. -/
  | afterValue
  /-- Nothing more: the value is complete. -/
  | finished (v : Json)
  /-- The text is not JSON. -/
  | failed

/-- The reader between two octets. -/
structure State where
  stack : List Frame
  mode : Mode

/-- The reader before the first octet. -/
def start : State := ⟨[], .value⟩

/-- The reader that has found the text not to be JSON. -/
def State.fail : State := ⟨[], .failed⟩

/-- The reader after a complete value: it goes into the innermost container, or it is the value of
the text. -/
def deliver (stack : List Frame) (v : Json) : State :=
  match stack with
  | [] => ⟨[], .finished v⟩
  | .array items :: outer => ⟨.array (v :: items) :: outer, .afterValue⟩
  | .object members (some name) :: outer =>
    ⟨.object ((name, v) :: members) none :: outer, .afterValue⟩
  | .object _ none :: _ => State.fail

/-- The reader after the end of the innermost container. -/
def close (stack : List Frame) (bracket : UInt8) : State :=
  match stack with
  | .array items :: outer =>
    if bracket == 0x5d then deliver outer (.array items.reverse) else State.fail
  | .object members _ :: outer =>
    if bracket == 0x7d then deliver outer (.object members.reverse) else State.fail
  | [] => State.fail

/-- Blank octets between tokens. -/
def isBlank (b : UInt8) : Bool :=
  b == 0x20 || b == 0x09 || b == 0x0a || b == 0x0d

/-- A hexadecimal digit. -/
def isHexDigit (b : UInt8) : Bool :=
  Decimal.isDigit b || (0x61 ≤ b && b ≤ 0x66) || (0x41 ≤ b && b ≤ 0x46)

/-- The reader after the first octet of a value. -/
def openValue (stack : List Frame) (b : UInt8) : State :=
  if b == 0x22 then ⟨stack, .inString [] .plain⟩
  else if b == 0x5b then ⟨.array [] :: stack, .firstItem⟩
  else if b == 0x7b then ⟨.object [] none :: stack, .firstName⟩
  else if b == 0x2d then ⟨stack, .inNumber [b] .minus⟩
  else if b == 0x30 then ⟨stack, .inNumber [b] .zero⟩
  else if Decimal.isDigit b then ⟨stack, .inNumber [b] .integer⟩
  else if b == 0x6e then ⟨stack, .inWord (ascii "ull") .null⟩
  else if b == 0x74 then ⟨stack, .inWord (ascii "rue") (.bool true)⟩
  else if b == 0x66 then ⟨stack, .inWord (ascii "alse") (.bool false)⟩
  else State.fail

/-- What one more octet does to a string: it goes on, or it ends, or it is not allowed. -/
inductive StringStep where
  | more (part : StringPart)
  | ends
  | bad

/-- One octet of a string. -/
def StringPart.step (part : StringPart) (b : UInt8) : StringStep :=
  match part with
  | .plain =>
    if b == 0x22 then .ends
    else if b == 0x5c then .more .escape
    else if b < 0x20 then .bad
    else .more .plain
  | .escape =>
    if b == 0x75 then .more (.digits 3)
    else if b == 0x22 || b == 0x5c || b == 0x2f || b == 0x62 || b == 0x66 || b == 0x6e ||
      b == 0x72 || b == 0x74 then .more .plain
    else .bad
  | .digits n =>
    if isHexDigit b then
      match n with
      | 0 => .more .plain
      | n + 1 => .more (.digits n)
    else .bad

/-- The name of the member whose value comes next is set. -/
def setName (stack : List Frame) (name : Octets) : State :=
  match stack with
  | .object members none :: outer => ⟨.object members (some name) :: outer, .colon⟩
  | _ => State.fail

/-- One octet, outside of a number. -/
def stepPlain (s : State) (b : UInt8) : State :=
  match s.mode with
  | .value => if isBlank b then s else openValue s.stack b
  | .firstItem =>
    if isBlank b then s else if b == 0x5d then close s.stack b else openValue s.stack b
  | .firstName =>
    if isBlank b then s
    else if b == 0x7d then close s.stack b
    else if b == 0x22 then ⟨s.stack, .inName [] .plain⟩
    else State.fail
  | .name =>
    if isBlank b then s
    else if b == 0x22 then ⟨s.stack, .inName [] .plain⟩
    else State.fail
  | .inName raw part =>
    match part.step b with
    | .more part => ⟨s.stack, .inName (b :: raw) part⟩
    | .ends => setName s.stack raw.reverse
    | .bad => State.fail
  | .colon => if isBlank b then s else if b == 0x3a then ⟨s.stack, .value⟩ else State.fail
  | .inString raw part =>
    match part.step b with
    | .more part => ⟨s.stack, .inString (b :: raw) part⟩
    | .ends => deliver s.stack (.string raw.reverse)
    | .bad => State.fail
  | .inNumber _ _ => State.fail
  | .inWord rest v =>
    match rest with
    | [] => State.fail
    | [c] => if b == c then deliver s.stack v else State.fail
    | c :: more => if b == c then ⟨s.stack, .inWord more v⟩ else State.fail
  | .afterValue =>
    if isBlank b then s
    else if b == 0x2c then
      match s.stack with
      | .array _ :: _ => ⟨s.stack, .value⟩
      | .object _ _ :: _ => ⟨s.stack, .name⟩
      | [] => State.fail
    else close s.stack b
  | .finished _ => if isBlank b then s else State.fail
  | .failed => s

/-- One octet. -/
def step (s : State) (b : UInt8) : State :=
  match s.mode with
  | .inNumber raw part =>
    match part.next? b with
    | some part => ⟨s.stack, .inNumber (b :: raw) part⟩
    | none =>
      if part.complete then stepPlain (deliver s.stack (.number raw.reverse)) b else State.fail
  | _ => stepPlain s b

/-- The value of a text that ends here. -/
def finish (s : State) : Option Json :=
  match s.mode, s.stack with
  | .finished v, _ => some v
  | .inNumber raw part, [] => if part.complete then some (.number raw.reverse) else none
  | _, _ => none

end Courier.Json.Reader

namespace Courier.Json

/-- The value a text holds, if the text is JSON. -/
def read (text : Octets) : Option Json :=
  Reader.finish (text.foldl Reader.step Reader.start)

end Courier.Json
