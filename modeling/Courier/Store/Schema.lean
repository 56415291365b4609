import Courier.Store.Rows

/-!
# The version of the tables

On opening, the first version entry must be the one this library knows. A database without an
entry counts as version 0; an entry that is no unsigned number of 32 bits cannot be read.
-/

namespace Courier

/-- Whether a database with these version entries can be opened. -/
def checkSchema (entries : List Int) : Except StoreError Unit :=
  let found := entries.head?.getD 0
  if 0 ≤ found ∧ found < UInt32.size then
    if found.toNat = schemaVersion then .ok () else .error (.schemaMismatch found.toNat)
  else .error .mistyped

end Courier
