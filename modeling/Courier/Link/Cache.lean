import Courier.Link.Destinations
import Courier.Link.Directory
import Courier.Link.Table
import Courier.Store.Basic

/-!
# The link cache

The link table of a running node, with the moment of the last refresh for each device that was
asked for. The cache is filled from the store at the start (`LinkCache.load`), refreshed from the
directory when it is stale, and written through to the store.

Resolving a device asks the directory at most twice: for the master that the cache knows of it,
and, if the answer shows another master that is stale too, for that one. A resolve that waits for
an answer is a value (`Resolving`), so that anything may happen before `Resolving.resume` goes on.

* `LinkCache.refresh`: an unparseable answer keeps the links and counts as a refresh, any other
  failure changes nothing;
* `LinkCache.recentView`: the cache's view of a device, as long as it is young enough.
-/

namespace Courier

/-- The links a node knows, and when each device was last refreshed (monotonic nanoseconds). -/
structure LinkCache where
  table : LinkTable
  refreshed : List (Identity × Nat)
  deriving DecidableEq, Repr

namespace LinkCache

/-- The cache of a node that has just been assembled. -/
def empty : LinkCache := ⟨.empty, []⟩

/-- When the device was last refreshed. -/
def refreshedAt (c : LinkCache) (identity : Identity) : Option Nat :=
  c.refreshed.lookup identity

/-- The device counts as refreshed at `instant`. -/
def stamp (c : LinkCache) (identity : Identity) (instant : Nat) : LinkCache :=
  { c with refreshed := (identity, instant) :: c.refreshed.filter (·.1 ≠ identity) }

/-- The last refresh lies longer back than the interval, or there was none. -/
def Stale (c : LinkCache) (interval : Duration) (instant : Nat) (identity : Identity) : Prop :=
  match c.refreshedAt identity with
  | none => True
  | some t => interval.nanos < instant - t

instance (c : LinkCache) (interval : Duration) (instant : Nat) (identity : Identity) :
    Decidable (c.Stale interval instant identity) := by
  unfold Stale
  split <;> infer_instance

/-- The master of a device, as far as the cache knows. -/
def masterOf (c : LinkCache) (identity : Identity) : Identity :=
  masterIn c.table.links identity

/-- The devices a message for `identity` goes to, as far as the cache knows. -/
def destinations (c : LinkCache) (identity : Identity) : List Destination :=
  destinationsIn c.table.links identity

/-! ## Reading and writing through -/

/-- The stored links come into the cache; they do not count as refreshed. The answer is their
number. -/
def load (c : LinkCache) : StoreM (Nat × LinkCache) := do
  let links ← Store.readAllDeviceLinks
  return (links.length, { c with table := c.table.addAll links })

/-- What the directory said about `master` is written to the store; a failing write is passed
over. -/
def persist (master : Identity) (fetched : List DeviceLink) (s : Store) : Store :=
  let own := fetched.filter (·.master.identity = master)
  let others := fetched.filter (·.master.identity ≠ master)
  others.foldl (fun s l => (Store.upsertDeviceLink l).effect s)
    ((Store.replaceDeviceLinks master own).effect s)

/-- The directory's answer about `master` is taken over, on behalf of `identity`. -/
def refresh (c : LinkCache) (s : Store) (instant : Nat) (identity master : Identity)
    (answer : DirectoryAnswer) : Except DirectoryError (LinkCache × Store) :=
  match answer with
  | .ok fetched =>
    .ok ({ c with table := c.table.applyFetch master fetched }.stamp identity instant,
      persist master fetched s)
  | .error (.parsingFailed _) => .ok (c.stamp identity instant, s)
  | .error e => .error e

/-- A new link is written to the store and takes its place in the cache. -/
def record (c : LinkCache) (s : Store) (l : DeviceLink) : LinkCache × Store :=
  ({ c with table := c.table.put l }, (Store.upsertDeviceLink l).effect s)

/-- A link is dropped from the cache and from the store. -/
def evict (c : LinkCache) (s : Store) (l : DeviceLink) : LinkCache × Store :=
  ({ c with table := c.table.remove l },
    (Store.deleteDeviceLink l.master.identity l.slave.identity).effect s)

/-- The links that involve a device, if it was refreshed less than `maxAge` ago. -/
def recentView (c : LinkCache) (maxAge : Duration) (instant : Nat) (identity : Identity) :
    Option (List DeviceLink) :=
  match c.refreshedAt identity with
  | none => none
  | some t =>
    if instant - t < maxAge.nanos then some (c.table.links.filter (·.Involves identity)) else none

end LinkCache

/-! ## Resolving -/

/-- A resolve that waits for the directory. -/
inductive Resolving where
  /-- The first question: about the master that the cache knew. -/
  | known (identity master : Identity)
  /-- The second question: about the master that the first answer showed. -/
  | revealed (identity master : Identity)
  deriving DecidableEq, Repr

/-- A resolve goes on waiting, or it is over. -/
inductive ResolveStep where
  | waits (r : Resolving)
  | ends (result : Except DirectoryError (List Destination))
  deriving Repr

/-- Whom the directory is asked about. -/
def Resolving.asks : Resolving → Identity
  | .known _ master => master
  | .revealed _ master => master

/-- A resolve begins: it is over at once if the device is fresh. -/
def LinkCache.resolve (c : LinkCache) (interval : Duration) (instant : Nat) (identity : Identity) :
    ResolveStep :=
  if c.Stale interval instant identity then .waits (.known identity (c.masterOf identity))
  else .ends (.ok (c.destinations identity))

/-- A resolve goes on with the directory's answer. -/
def Resolving.resume (r : Resolving) (interval : Duration) (instant : Nat)
    (answer : DirectoryAnswer) (c : LinkCache) (s : Store) : ResolveStep × LinkCache × Store :=
  match r with
  | .known identity master =>
    match c.refresh s instant identity master answer with
    | .error e => (.ends (.error e), c, s)
    | .ok (c, s) =>
      let revealed := c.masterOf identity
      if revealed ≠ master ∧ c.Stale interval instant revealed then
        (.waits (.revealed identity revealed), c, s)
      else (.ends (.ok (c.destinations identity)), c, s)
  | .revealed identity master =>
    match c.refresh s instant master master answer with
    | .error e => (.ends (.error e), c, s)
    | .ok (c, s) => (.ends (.ok (c.destinations identity)), c, s)

end Courier
