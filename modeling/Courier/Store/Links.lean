import Courier.Link.Basic

/-!
# Links in the store

One row for each pairing. Writing a link that is stored already keeps a signature that the new one
lacks (`LinkRows.upsert`); reading gives the rows by master, then by slave (`LinkRows.sorted`).
-/

namespace Courier

/-- The stored links, in no particular order. -/
abbrev LinkRows := List DeviceLink

namespace LinkRows

/-- `new` over `old`: a missing signature is taken from the old link. -/
def merged (old new : DeviceLink) : DeviceLink :=
  { master := { new.master with signature := new.master.signature.or old.master.signature }
    slave := { new.slave with signature := new.slave.signature.or old.slave.signature } }

/-- The rows with a link written into them. -/
def upsert (rows : LinkRows) (l : DeviceLink) : LinkRows :=
  if rows.any (l.SamePair ·) then rows.map fun r => if l.SamePair r then merged r l else r
  else rows ++ [l]

/-- The rows of `master` are replaced by the links of `master` among `ls`. -/
def replace (rows : LinkRows) (master : Identity) (ls : List DeviceLink) : LinkRows :=
  (ls.filter (·.master.identity = master)).foldl upsert
    (rows.filter (·.master.identity ≠ master))

/-- The row of a pairing is dropped; the answer says whether there was one. -/
def delete (rows : LinkRows) (master slave : Identity) : Bool × LinkRows :=
  (rows.any (·.Matches master slave), rows.filter fun r => ¬ r.Matches master slave)

/-- A link stands before another: by master, then by slave. -/
def before (a b : DeviceLink) : Bool :=
  a.master.identity < b.master.identity ∨
    (a.master.identity = b.master.identity ∧ a.slave.identity ≤ b.slave.identity)

/-- The rows by master, then by slave. -/
def sorted (rows : LinkRows) : List DeviceLink :=
  rows.mergeSort before

end LinkRows

end Courier
