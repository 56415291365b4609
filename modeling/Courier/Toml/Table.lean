import Courier.Toml.Value

/-!
# How the tables of a document grow

A document is a list of statements: headers, which open tables, and assignments, which go into the
table opened last. `Table.ofStatements?` carries them out in their order. No name is assigned
twice, no table is opened twice, and a table that is complete is not touched again:

* a header may lead through every table but an inline one, and through the last table of a list;
* the dots of a key may only lead through tables that no header has opened and that are not
  inline, or through the last table of a list; the innermost of them must have been made by dots.
-/

namespace Courier.Toml

/-- A name with dots: the tables it leads through, and the name in the last of them. -/
structure Path where
  tables : List String
  name : String
  deriving DecidableEq, Repr

/-- All names of a path. -/
def Path.names (p : Path) : List String :=
  p.tables ++ [p.name]

/-- What one line of a document does. -/
inductive Statement where
  /-- Opens a table. -/
  | header (path : Path)
  /-- Opens one more table of a list. -/
  | element (path : Path)
  /-- Sets a value. -/
  | assign (path : Path) (v : Value)

/-- What leads down a path: a header, or the dots of a key. -/
inductive Lead where
  | header
  | dots
  deriving DecidableEq, Repr

namespace Lead

/-- How a table came to be that is missing on the way. -/
def makes : Lead → TableOrigin
  | .header => .implied
  | .dots => .dotted

/-- Whether the way may go on through a table. -/
def passes : Lead → TableOrigin → Bool
  | _, .inline => false
  | .dots, .header => false
  | _, _ => true

end Lead

namespace Table

/-- Changes the table at the end of a path; what is missing on the way is made. The change is told
how its table came to be. -/
def within (lead : Lead) (change : TableOrigin → Table → Option Table) :
    List String → TableOrigin → Table → Option Table
  | [], origin, t => change origin t
  | name :: rest, _, t =>
    match t.get? name with
    | none =>
      (within lead change rest lead.makes []).map fun sub => t.put name (.table lead.makes sub)
    | some (.table origin sub) =>
      if lead.passes origin then
        (within lead change rest origin sub).map fun sub => t.put name (.table origin sub)
      else none
    | some (.tables elements) =>
      match elements.getLast? with
      | none => none
      | some last =>
        (within lead change rest .header last).map fun last =>
          t.put name (.tables (elements.dropLast ++ [last]))
    | some _ => none

/-- Sets the value of a new name. A table that dots lead to takes it only if dots have made it. -/
def assign (t : Table) (p : Path) (v : Value) : Option Table :=
  within .dots
    (fun origin t =>
      if origin ≠ .dotted ∧ p.tables ≠ [] then none
      else
        match t.get? p.name with
        | none => some (t.put p.name v)
        | some _ => none)
    p.tables .header t

/-- Opens a table: a new one, or one that longer headers have implied. -/
def openTable (t : Table) (p : Path) : Option Table :=
  within .header
    (fun _ t =>
      match t.get? p.name with
      | none => some (t.put p.name (.table .header []))
      | some (.table .implied sub) => some (t.put p.name (.table .header sub))
      | some _ => none)
    p.tables .header t

/-- Opens one more table of a list, which may be new. -/
def openElement (t : Table) (p : Path) : Option Table :=
  within .header
    (fun _ t =>
      match t.get? p.name with
      | none => some (t.put p.name (.tables [[]]))
      | some (.tables elements) => some (t.put p.name (.tables (elements ++ [[]])))
      | some _ => none)
    p.tables .header t

end Table

/-- A document that is being read: its tables, and the names that lead to the one opened last. -/
structure Draft where
  root : Table
  current : List String

/-- A document without any line. -/
def Draft.empty : Draft := ⟨[], []⟩

/-- One statement. -/
def Draft.apply (d : Draft) : Statement → Option Draft
  | .header p => (d.root.openTable p).map fun root => ⟨root, p.names⟩
  | .element p => (d.root.openElement p).map fun root => ⟨root, p.names⟩
  | .assign p v =>
    (Table.within .header (fun _ t => t.assign p v) d.current .header d.root).map fun root =>
      { d with root }

/-- The document that a list of statements makes. -/
def Table.ofStatements? (statements : List Statement) : Option Table :=
  (statements.foldlM Draft.apply Draft.empty).map (·.root)

end Courier.Toml
