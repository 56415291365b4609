import Courier.Link.Basic

/-!
# The devices of a linked set

Read off a list of links, without asking anybody:

* `masterIn`: the master of the first link that names the device as slave, or the device itself;
* `destinationsIn`: that master, then every slave of it in the order of identities, each once.
-/

namespace Courier

/-- The master of `identity` in a list of links. The first link that names it as slave decides; a
device that is nobody's slave is its own master. -/
def masterIn (links : List DeviceLink) (identity : Identity) : Identity :=
  match links.find? (·.slave.identity = identity) with
  | some l => l.master.identity
  | none => identity

/-- The slaves of `master`, other than `master` itself. -/
def slavesIn (links : List DeviceLink) (master : Identity) : List Identity :=
  (links.filter fun l => l.master.identity = master ∧ l.slave.identity ≠ master).map
    (·.slave.identity)

/-- A list of texts put in increasing order, without repetitions. -/
def inOrderOnce (names : List String) : List String :=
  (names.mergeSort fun a b => decide (a ≤ b)).eraseReps

/-- Every device a message for `identity` goes to: the master of its linked set first, then the
slaves in the order of identities. -/
def destinationsIn (links : List DeviceLink) (identity : Identity) : List Destination :=
  let master := masterIn links identity
  ⟨master, true⟩ :: (inOrderOnce (slavesIn links master)).map (⟨·, false⟩)

end Courier
