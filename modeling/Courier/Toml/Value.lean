/-!
# TOML values

The values of a TOML document. A table remembers how it came to be (`TableOrigin`), because that
decides what the rest of the document may still add to it; once a document has been read, only the
names and values count.
-/

namespace Courier.Toml

/-- How a table came to be. -/
inductive TableOrigin where
  /-- Written between braces, and complete. -/
  | inline
  /-- Opened by a header of its own, or the document itself. -/
  | header
  /-- Named so far only on the way to a longer header. -/
  | implied
  /-- Made by the dots of a key. -/
  | dotted
  deriving DecidableEq, Repr

/-- A value. Floats, dates and times are kept as they are written. -/
inductive Value where
  | text (s : String)
  | integer (n : Int)
  | float (literal : String)
  | boolean (b : Bool)
  | dateTime (literal : String)
  | array (items : List Value)
  | table (origin : TableOrigin) (entries : List (String × Value))
  /-- The tables that headers in double brackets have opened, in their order. -/
  | tables (elements : List (List (String × Value)))

/-- A table: names and values, each name once. -/
abbrev Table := List (String × Value)

namespace Table

/-- The value of a name. -/
def get? (t : Table) (name : String) : Option Value :=
  t.lookup name

/-- Sets the value of a name, which keeps its place if it is there already. -/
def put : Table → String → Value → Table
  | [], name, v => [(name, v)]
  | (n, old) :: rest, name, v =>
    if n = name then (name, v) :: rest else (n, old) :: put rest name v

end Table

end Courier.Toml
