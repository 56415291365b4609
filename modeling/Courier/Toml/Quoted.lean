import Courier.Toml.Symbol

/-!
# Writing texts in TOML

`quoted` writes a text so that a reader gets it back, in the plainest of four forms that can hold
it (`Quoting.of`): between quotes, if nothing in it needs an escape; between apostrophes; in one
of the two long forms, if its own marks never come three in a row; or, where nothing else is left,
with escapes.
-/

namespace Courier.Toml

/-- The forms of a quoted text. -/
inductive Quoting where
  | basic
  | literal
  | longBasic
  | longLiteral
  deriving DecidableEq, Repr

namespace Quoting

/-- The mark a form is delimited with. -/
def mark : Quoting → Scanner.Mark
  | .basic | .longBasic => .quote
  | .literal | .longLiteral => .apostrophe

/-- Whether a form has three marks at each end. -/
def long : Quoting → Bool
  | .basic | .literal => false
  | .longBasic | .longLiteral => true

/-- A character that only an escape can stand for: a control character other than a tab or a
newline. -/
def isCoded (c : Char) : Bool :=
  !Scanner.isPlain c && c != '\n'

/-- Whether a text has a character `n` times in a row. -/
def hasRun (c : Char) (n : Nat) : List Char → Bool
  | [] => n == 0
  | d :: rest => (List.replicate n c).isPrefixOf (d :: rest) || hasRun c n rest

/-- The form a text is written in. -/
def of (text : List Char) : Quoting :=
  let coded := text.any isCoded
  let escaped := text.contains '\\'
  let lines := text.contains '\n'
  if !coded && !escaped && !lines && !text.contains '"' then .basic
  else if !coded && !lines && !text.contains '\'' then .literal
  else if !coded && !escaped && !hasRun '"' 3 text then .longBasic
  else if !coded && !hasRun '\'' 3 text then .longLiteral
  else if lines then .longBasic
  else .basic

/-- The delimiter of a form. -/
def delimiter (q : Quoting) : List Char :=
  List.replicate (if q.long then 3 else 1) q.mark.char

/-- How many quotes in a row a form with escapes leaves as they are. -/
def bareQuotes (q : Quoting) : Nat :=
  if q.long then 2 else 0

end Quoting

/-- A hexadecimal digit, in upper case. -/
def hexDigit (n : Nat) : Char :=
  if n < 10 then Char.ofNat (0x30 + n) else Char.ofNat (0x37 + n)

/-- How a character other than a quote is written where escapes are taken. -/
def escapeChar (long : Bool) (c : Char) : List Char :=
  if c = '\x08' then ['\\', 'b']
  else if c = '\t' then ['\\', 't']
  else if c = '\n' then if long then ['\n'] else ['\\', 'n']
  else if c = '\x0c' then ['\\', 'f']
  else if c = '\r' then ['\\', 'r']
  else if c = '\\' then ['\\', '\\']
  else if Scanner.isPlain c then [c]
  else ['\\', 'u', '0', '0', hexDigit (c.toNat / 16), hexDigit (c.toNat % 16)]

/-- A text where escapes are taken, after some quotes in a row. As many of them as the form allows
stay as they are, the next one is escaped. -/
def escapeText (q : Quoting) : Nat → List Char → List Char
  | _, [] => []
  | quotes, c :: rest =>
    if c = '"' then
      if quotes < q.bareQuotes then '"' :: escapeText q (quotes + 1) rest
      else '\\' :: '"' :: escapeText q 0 rest
    else escapeChar q.long c ++ escapeText q 0 rest

/-- What stands between the delimiters of a text. A long text that has several lines begins on a
line of its own. -/
def Quoting.body (q : Quoting) (text : List Char) : List Char :=
  let opening := if q.long && text.contains '\n' then ['\n'] else []
  opening ++ if q.mark = .quote then escapeText q 0 text else text

/-- A text with its quotes. -/
def quoted (text : List Char) : List Char :=
  let q := Quoting.of text
  q.delimiter ++ q.body text ++ q.delimiter

end Courier.Toml
