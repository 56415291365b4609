import Courier.Toml.Scalar
import Courier.Toml.Symbol
import Courier.Toml.Table

/-!
# Reading a TOML document

`Toml.read` reads a document: its characters become symbols, the symbols become statements, and
the statements make the tables. The second step is a machine that takes one symbol at a time
(`Reader.step`) and keeps the arrays and inline tables it is inside on a stack.

* Blanks may stand between any two parts of a line, newlines only between lines and in arrays.
* An array may end with a comma, an inline table may not.
* Arrays and inline tables are nested less than 80 deep, and a name has less than 80 parts.
* A bare word ends at the first character that cannot be part of one. A date takes one space and
  the time after it along.
-/

namespace Courier.Toml

namespace Reader

/-- Where a name stands. -/
inductive Place where
  /-- In a header with single brackets. -/
  | header
  /-- In a header with double brackets. -/
  | element
  /-- At the start of a line. -/
  | line
  /-- In an inline table. -/
  | inline
  deriving DecidableEq, Repr

/-- What the reader is inside of; what is collected is kept latest first. -/
inductive Frame where
  /-- A line that sets a value. -/
  | line (path : Path)
  | array (items : List Value)
  /-- An inline table, with the name whose value is being read. -/
  | table (entries : Table) (path : Option Path)

/-- What the reader expects next. -/
inductive Mode where
  | lineStart
  /-- The rest of a header, after its first bracket. -/
  | bracket
  /-- A part of a name; the parts before it are kept latest first. -/
  | name (place : Place) (parts : List String)
  /-- More of a bare part of a name. -/
  | inName (place : Place) (parts : List String) (cs : List Char)
  /-- A dot, or what ends a name. -/
  | afterName (place : Place) (parts : List String)
  /-- The second closing bracket of a header. -/
  | secondBracket (path : Path)
  | lineEnd
  | value
  /-- An item of an array, or its end. -/
  | item
  /-- The first name of an inline table, or its end. -/
  | firstName
  /-- More of a bare word. -/
  | bare (cs : List Char)
  /-- More of a bare word, if a time follows the date and the space that were read. -/
  | spaced (date : List Char)
  /-- A comma, or the end of an array or an inline table. -/
  | afterValue
  | failed

/-- The reader between two symbols; the statements are kept latest first. -/
structure State where
  stack : List Frame
  mode : Mode
  out : List Statement

/-- The reader before the first symbol. -/
def start : State := ⟨[], .lineStart, []⟩

/-- The reader that has found the symbols to be no document. -/
def State.fail : State := ⟨[], .failed, []⟩

/-- The reader with another expectation. -/
def State.to (s : State) (mode : Mode) : State :=
  { s with mode }

/-- How many parts a name can have, and how many containers can be nested, at least one less. -/
def depthLimit : Nat := 80

/-- A space or a tab. -/
def isBlank (s : Symbol) : Bool :=
  s == .char ' ' || s == .char '\t'

/-- A character of a bare name. -/
def isNameChar (c : Char) : Bool :=
  c.isAlphanum || c == '-' || c == '_'

/-- A character of a bare word. -/
def isWordChar (c : Char) : Bool :=
  isNameChar c || c == '+' || c == '.' || c == ':'

/-- A value is complete: it goes where the innermost frame wants it. -/
def deliver (s : State) (v : Value) : State :=
  match s.stack with
  | .line path :: _ => ⟨[], .lineEnd, .assign path v :: s.out⟩
  | .array items :: outer => ⟨.array (v :: items) :: outer, .afterValue, s.out⟩
  | .table entries (some path) :: outer =>
    match entries.assign path v with
    | some entries => ⟨.table entries none :: outer, .afterValue, s.out⟩
    | none => State.fail
  | _ => State.fail

/-- An array or an inline table opens. -/
def enter (s : State) (frame : Frame) (mode : Mode) : State :=
  if s.stack.length < depthLimit then ⟨frame :: s.stack, mode, s.out⟩ else State.fail

/-- The innermost array ends. -/
def closeArray (s : State) : State :=
  match s.stack with
  | .array items :: outer => deliver { s with stack := outer } (.array items.reverse)
  | _ => State.fail

/-- The innermost inline table ends. -/
def closeTable (s : State) : State :=
  match s.stack with
  | .table entries _ :: outer => deliver { s with stack := outer } (.table .inline entries)
  | _ => State.fail

/-- The first symbol of a value. -/
def stepValue (s : State) (x : Symbol) : State :=
  match x with
  | .text t _ => deliver s (.text t)
  | .newline => State.fail
  | .char c =>
    if c = '[' then enter s (.array []) .item
    else if c = '\x7b' then enter s (.table [] none) .firstName
    else if isWordChar c then s.to (.bare [c])
    else State.fail

/-- The first symbol of a part of a name. -/
def stepName (s : State) (place : Place) (parts : List String) (x : Symbol) : State :=
  match x with
  | .text t false => s.to (.afterName place (t :: parts))
  | .char c => if isNameChar c then s.to (.inName place parts [c]) else State.fail
  | _ => State.fail

/-- A name has ended, in front of a symbol. -/
def endName (s : State) (place : Place) (path : Path) (c : Char) : State :=
  match place with
  | .line => if c = '=' then ⟨[.line path], .value, s.out⟩ else State.fail
  | .inline =>
    match s.stack with
    | .table entries none :: outer =>
      if c = '=' then ⟨.table entries (some path) :: outer, .value, s.out⟩ else State.fail
    | _ => State.fail
  | .header => if c = ']' then ⟨[], .lineEnd, .header path :: s.out⟩ else State.fail
  | .element => if c = ']' then s.to (.secondBracket path) else State.fail

/-- A symbol after a part of a name that is not blank. -/
def stepAfterName (s : State) (place : Place) (parts : List String) (x : Symbol) : State :=
  match x, parts with
  | .char c, name :: outer =>
    if c = '.' then s.to (.name place parts)
    else if parts.length < depthLimit then endName s place ⟨outer.reverse, name⟩ c
    else State.fail
  | _, _ => State.fail

/-- A symbol after a value in an array or an inline table that is not blank. -/
def stepAfterValue (s : State) (x : Symbol) : State :=
  match s.stack, x with
  | .array _ :: _, .newline => s
  | .array _ :: _, .char ',' => s.to .item
  | .array _ :: _, .char ']' => closeArray s
  | .table _ _ :: _, .char ',' => s.to (.name .inline [])
  | .table _ _ :: _, .char '\x7d' => closeTable s
  | _, _ => State.fail

/-- One symbol, not in a bare word. -/
def stepPlain (s : State) (x : Symbol) : State :=
  match s.mode with
  | .lineStart =>
    if isBlank x || x == .newline then s
    else if x = .char '[' then s.to .bracket
    else stepName s .line [] x
  | .bracket =>
    if x = .char '[' then s.to (.name .element [])
    else if isBlank x then s.to (.name .header [])
    else stepName s .header [] x
  | .name place parts => if isBlank x then s else stepName s place parts x
  | .inName place parts cs =>
    let parts' := String.ofList cs.reverse :: parts
    match x with
    | .char c =>
      if isNameChar c then s.to (.inName place parts (c :: cs))
      else if isBlank x then s.to (.afterName place parts')
      else stepAfterName s place parts' x
    | _ => State.fail
  | .afterName place parts => if isBlank x then s else stepAfterName s place parts x
  | .secondBracket path =>
    if x = .char ']' then ⟨[], .lineEnd, .element path :: s.out⟩ else State.fail
  | .lineEnd => if isBlank x then s else if x = .newline then s.to .lineStart else State.fail
  | .value => if isBlank x then s else stepValue s x
  | .item =>
    if isBlank x || x == .newline then s
    else if x = .char ']' then closeArray s
    else stepValue s x
  | .firstName =>
    if isBlank x then s
    else if x = .char '\x7d' then closeTable s
    else stepName s .inline [] x
  | .afterValue => if isBlank x then s else stepAfterValue s x
  | .bare _ | .spaced _ | .failed => State.fail

/-- A bare word is complete. -/
def endBare (s : State) (cs : List Char) : State :=
  match Value.ofBare? cs.reverse with
  | some v => deliver s v
  | none => State.fail

/-- One symbol. -/
def step (s : State) (x : Symbol) : State :=
  match s.mode, x with
  | .bare cs, .char c =>
    if isWordChar c then s.to (.bare (c :: cs))
    else if c = ' ' ∧ Scalar.isDate cs.reverse then s.to (.spaced cs)
    else stepPlain (endBare s cs) x
  | .bare cs, _ => stepPlain (endBare s cs) x
  | .spaced cs, .char c =>
    if isWordChar c then s.to (.bare (c :: ' ' :: cs)) else stepPlain (endBare s cs) x
  | .spaced cs, _ => stepPlain (endBare s cs) x
  | _, _ => stepPlain s x

/-- The statements of a document that ends here, latest first. -/
def finish (s : State) : Option (List Statement) :=
  let s := match s.mode with
    | .bare cs | .spaced cs => endBare s cs
    | _ => s
  match s.mode with
  | .lineStart | .lineEnd => some s.out
  | _ => none

end Reader

/-- The statements that symbols stand for. -/
def Statement.ofSymbols? (symbols : List Symbol) : Option (List Statement) :=
  (Reader.finish (symbols.foldl Reader.step Reader.start)).map List.reverse

/-- A text without the byte order mark that may stand in front of it. -/
def dropOrderMark : List Char → List Char
  | '\ufeff' :: rest => rest
  | cs => cs

/-- The tables of a document, if the text is one. -/
def read (text : String) : Option Table := do
  let symbols ← Symbol.ofText? (dropOrderMark text.toList)
  let statements ← Statement.ofSymbols? symbols
  Table.ofStatements? statements

end Courier.Toml
