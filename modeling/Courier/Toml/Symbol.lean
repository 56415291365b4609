/-!
# The symbols of a TOML document

A first pass over the characters of a document resolves what needs no grammar: quoted texts,
comments and the ends of lines. Every other character stays a symbol of its own.

* A line ends with a line feed. A carriage return in front of it is dropped (`joinLineEnds`);
  elsewhere no rule admits one.
* A comment reaches up to the end of its line and leaves no symbol.
* A text stands between quotes, which take escapes, or apostrophes, which take none. Three marks
  at each end make it long: it may then hold newlines, and one or two marks in a row; a newline
  right after the opening is not part of it.
* The pass is a machine that takes one character at a time (`Scanner.step`).
-/

namespace Courier.Toml

/-- A symbol. -/
inductive Symbol where
  | char (c : Char)
  | newline
  /-- A quoted text. Only a short one can be a name. -/
  | text (s : String) (long : Bool)
  deriving DecidableEq, Repr

/-- The text with every carriage return dropped that stands before a line feed. -/
def joinLineEnds : List Char → List Char
  | '\r' :: '\n' :: rest => '\n' :: joinLineEnds rest
  | c :: rest => c :: joinLineEnds rest
  | [] => []

namespace Scanner

/-- The two characters that texts are quoted with. -/
inductive Mark where
  | quote
  | apostrophe
  deriving DecidableEq, Repr

/-- The character of a mark. -/
def Mark.char : Mark → Char
  | .quote => '"'
  | .apostrophe => '\''

/-- A text that is being read: how it is quoted, and its characters, latest first. -/
structure Quoted where
  mark : Mark
  long : Bool
  done : List Char
  deriving DecidableEq, Repr

namespace Quoted

/-- The text with more characters. -/
def push (q : Quoted) (c : Char) : Quoted :=
  { q with done := c :: q.done }

/-- The text with its own mark in it, some times. -/
def pushMarks (q : Quoted) (n : Nat) : Quoted :=
  { q with done := List.replicate n q.mark.char ++ q.done }

/-- The symbol of a text that is complete. -/
def symbol (q : Quoted) : Symbol :=
  .text (String.ofList q.done.reverse) q.long

end Quoted

/-- Where the scanner is. -/
inductive Mode where
  /-- Between texts and comments. -/
  | outside
  /-- In a comment. -/
  | comment
  /-- After one mark that opens a text. -/
  | opened (m : Mark)
  /-- After two marks: an empty text, or two thirds of an opening. -/
  | openedTwice (m : Mark)
  /-- Right after the opening of a long text. -/
  | openedLong (m : Mark)
  /-- In a text. -/
  | inside (q : Quoted)
  /-- After marks in a long text. -/
  | closing (q : Quoted) (marks : Nat)
  /-- After a backslash. -/
  | escape (q : Quoted)
  /-- In an escape by number, before its last `left` digits. -/
  | digits (q : Quoted) (left : Nat) (value : Nat)
  /-- After a backslash at the end of a line: what is blank is skipped. -/
  | skipping (q : Quoted) (lineEnded : Bool)
  /-- The text is no document. -/
  | failed
  deriving DecidableEq, Repr

/-- The scanner between two characters; the symbols are kept latest first. -/
structure State where
  mode : Mode
  out : List Symbol
  deriving DecidableEq, Repr

/-- The scanner that has found the text to be no document. -/
def State.fail : State := ⟨.failed, []⟩

/-- A character that may stand in a comment or a text as it is: a tab, or no control character. -/
def isPlain (c : Char) : Bool :=
  c == '\t' || (c.toNat ≥ 0x20 && c.toNat != 0x7f)

/-- A space or a tab. -/
def isBlank (c : Char) : Bool :=
  c == ' ' || c == '\t'

/-- The character a one-letter escape stands for. -/
def letterEscape? : Char → Option Char
  | 'b' => some '\x08'
  | 't' => some '\t'
  | 'n' => some '\n'
  | 'f' => some '\x0c'
  | 'r' => some '\r'
  | '"' => some '"'
  | '\\' => some '\\'
  | _ => none

/-- The value of a hexadecimal digit, in either case. -/
def hexValue? (c : Char) : Option Nat :=
  if '0' ≤ c ∧ c ≤ '9' then some (c.toNat - 0x30)
  else if 'a' ≤ c ∧ c ≤ 'f' then some (c.toNat - 0x57)
  else if 'A' ≤ c ∧ c ≤ 'F' then some (c.toNat - 0x37)
  else none

/-- The character with a number, unless it is the number of a surrogate or too large. -/
def charOf? (n : Nat) : Option Char :=
  if n.isValidChar then some (Char.ofNat n) else none

/-- One character outside of texts and comments. -/
def stepOutside (out : List Symbol) (c : Char) : State :=
  if c = '#' then ⟨.comment, out⟩
  else if c = '\n' then ⟨.outside, .newline :: out⟩
  else if c = Mark.quote.char then ⟨.opened .quote, out⟩
  else if c = Mark.apostrophe.char then ⟨.opened .apostrophe, out⟩
  else ⟨.outside, .char c :: out⟩

/-- One character in a text. -/
def stepInside (q : Quoted) (out : List Symbol) (c : Char) : State :=
  if c = q.mark.char then
    if q.long then ⟨.closing q 1, out⟩ else ⟨.outside, q.symbol :: out⟩
  else if c = '\\' ∧ q.mark = .quote then ⟨.escape q, out⟩
  else if c = '\n' then if q.long then ⟨.inside (q.push c), out⟩ else State.fail
  else if isPlain c then ⟨.inside (q.push c), out⟩
  else State.fail

/-- One character after marks in a long text. Up to two of them belong to the text; three more
close it. -/
def stepClosing (q : Quoted) (marks : Nat) (out : List Symbol) (c : Char) : State :=
  if c = q.mark.char then
    if marks < 5 then ⟨.closing q (marks + 1), out⟩ else State.fail
  else if marks < 3 then stepInside (q.pushMarks marks) out c
  else stepOutside ((q.pushMarks (marks - 3)).symbol :: out) c

/-- One character after a backslash. -/
def stepEscape (q : Quoted) (out : List Symbol) (c : Char) : State :=
  match letterEscape? c with
  | some d => ⟨.inside (q.push d), out⟩
  | none =>
    if c = 'u' then ⟨.digits q 4 0, out⟩
    else if c = 'U' then ⟨.digits q 8 0, out⟩
    else if q.long ∧ isBlank c then ⟨.skipping q false, out⟩
    else if q.long ∧ c = '\n' then ⟨.skipping q true, out⟩
    else State.fail

/-- One digit of an escape by number. -/
def stepDigits (q : Quoted) (left value : Nat) (out : List Symbol) (c : Char) : State :=
  match hexValue? c with
  | none => State.fail
  | some d =>
    let value := 16 * value + d
    if left = 1 then
      match charOf? value with
      | some c => ⟨.inside (q.push c), out⟩
      | none => State.fail
    else ⟨.digits q (left - 1) value, out⟩

/-- One character. -/
def step (s : State) (c : Char) : State :=
  match s.mode with
  | .outside => stepOutside s.out c
  | .comment =>
    if c = '\n' then ⟨.outside, .newline :: s.out⟩
    else if isPlain c then s
    else State.fail
  | .opened m =>
    if c = m.char then ⟨.openedTwice m, s.out⟩ else stepInside ⟨m, false, []⟩ s.out c
  | .openedTwice m =>
    if c = m.char then ⟨.openedLong m, s.out⟩
    else stepOutside (Quoted.symbol ⟨m, false, []⟩ :: s.out) c
  | .openedLong m =>
    if c = '\n' then ⟨.inside ⟨m, true, []⟩, s.out⟩ else stepInside ⟨m, true, []⟩ s.out c
  | .inside q => stepInside q s.out c
  | .closing q marks => stepClosing q marks s.out c
  | .escape q => stepEscape q s.out c
  | .digits q left value => stepDigits q left value s.out c
  | .skipping q lineEnded =>
    if isBlank c then s
    else if c = '\n' then ⟨.skipping q true, s.out⟩
    else if lineEnded then stepInside q s.out c
    else State.fail
  | .failed => s

/-- The symbols of a text that ends here, latest first. -/
def finish (s : State) : Option (List Symbol) :=
  match s.mode with
  | .outside | .comment => some s.out
  | .openedTwice m => some (Quoted.symbol ⟨m, false, []⟩ :: s.out)
  | .closing q marks =>
    if marks < 3 then none else some ((q.pushMarks (marks - 3)).symbol :: s.out)
  | _ => none

end Scanner

/-- The symbols of a text, unless its quotes or comments are malformed. -/
def Symbol.ofText? (text : List Char) : Option (List Symbol) :=
  (Scanner.finish ((joinLineEnds text).foldl Scanner.step ⟨.outside, []⟩)).map List.reverse

end Courier.Toml
