import Courier.Link.Basic

/-!
# The link table

Links grouped by their master. `LinkTable.links` is the flat view that routing searches,
`LinkTable.ofMaster` the group of one master. Every change goes through `LinkTable.modify`, which
changes one group and drops it when it becomes empty:

* `add` keeps a link already there (a row read back from the store);
* `put` lets the new link take the place of an equal pairing;
* `remove` drops a pairing;
* `applyFetch` takes over what the directory said about a master: the master's own group becomes
  exactly the fetched one, links of other masters are merged into theirs.
-/

namespace Courier

/-- Groups of links, each under the master that its links share. -/
structure LinkTable where
  groups : List (Identity × List DeviceLink)
  deriving DecidableEq, Repr

namespace LinkTable

/-- The table without links. -/
def empty : LinkTable := ⟨[]⟩

/-- All links, group after group. -/
def links (t : LinkTable) : List DeviceLink :=
  t.groups.flatMap (·.2)

/-- The links stored under `master`. -/
def ofMaster (t : LinkTable) (master : Identity) : List DeviceLink :=
  (t.groups.lookup master).getD []

/-- The table in which the group of `master` is changed by `f`; an empty group is not kept. -/
def modify (t : LinkTable) (master : Identity) (f : List DeviceLink → List DeviceLink) :
    LinkTable :=
  let others := t.groups.filter (·.1 ≠ master)
  match f (t.ofMaster master) with
  | [] => ⟨others⟩
  | l :: ls => ⟨others ++ [(master, l :: ls)]⟩

/-- Stores a link unless its pairing is already there. -/
def add (t : LinkTable) (l : DeviceLink) : LinkTable :=
  t.modify l.master.identity fun group =>
    if group.any (l.SamePair ·) then group else group ++ [l]

/-- Stores a link in the place of any link of the same pairing. -/
def put (t : LinkTable) (l : DeviceLink) : LinkTable :=
  t.modify l.master.identity fun group => (group.filter fun x => ¬ l.SamePair x) ++ [l]

/-- Drops the pairing of a link. -/
def remove (t : LinkTable) (l : DeviceLink) : LinkTable :=
  t.modify l.master.identity fun group => group.filter fun x => ¬ l.SamePair x

/-- The table pairs `slave` with `master`. -/
def Contains (t : LinkTable) (master slave : Identity) : Prop :=
  ∃ l ∈ t.ofMaster master, l.Matches master slave

instance (t : LinkTable) (master slave : Identity) : Decidable (t.Contains master slave) :=
  inferInstanceAs (Decidable (∃ l ∈ t.ofMaster master, l.Matches master slave))

/-- Takes over the directory's answer about `master`: its own group is replaced, every other link
is put into the group of its master. -/
def applyFetch (t : LinkTable) (master : Identity) (fetched : List DeviceLink) : LinkTable :=
  let own := fetched.filter (·.master.identity = master)
  let others := fetched.filter (·.master.identity ≠ master)
  others.foldl put (t.modify master fun _ => dedupPairs own)

/-- Adds every link of a list, in order. -/
def addAll (t : LinkTable) (ls : List DeviceLink) : LinkTable :=
  ls.foldl add t

/-- The links of `master` in the order of their slaves. -/
def sortedOfMaster (t : LinkTable) (master : Identity) : List DeviceLink :=
  (t.ofMaster master).mergeSort fun a b => decide (a.slave.identity ≤ b.slave.identity)

end LinkTable

end Courier
