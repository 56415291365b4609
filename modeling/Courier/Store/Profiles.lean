import Courier.Link.Control
import Courier.Store.Rows
import Courier.Time.Calendar
import Courier.Time.Clock

/-!
# Profiles in the store

One row for each identity. An update overwrites the fields it carries and leaves the others.
-/

namespace Courier

/-- The stored profiles. -/
abbrev ProfileRows := List ProfileRow

namespace ProfileRows

/-- The profile of an identity. -/
def find? (rows : ProfileRows) (identity : Identity) : Option ProfileRow :=
  List.find? (·.identity = identity) rows

/-- The fields an update carries are written. -/
def write (rows : ProfileRows) (clock : Clock) (identity : Identity) (update : ProfileUpdate) :
    ProfileRows :=
  let updatedAt := Calendar.timestampText clock.wall
  match rows.find? identity with
  | some _ =>
    rows.map fun r =>
      if r.identity = identity then
        { r with
          displayName := update.displayName.or r.displayName
          profileKey := update.profileKey.or r.profileKey
          updatedAt }
      else r
  | none =>
    rows ++ [{ identity, displayName := update.displayName, profileKey := update.profileKey,
               updatedAt }]

end ProfileRows

end Courier
