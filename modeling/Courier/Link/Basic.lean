import Courier.Identity

/-!
# Device links

A link pairs a master device with a slave device, and each side may have signed it. Two links are
*the same pairing* (`DeviceLink.SamePair`) when they name the same two devices in the same roles;
signatures do not count, so replaying a link with other signature bytes changes no set of links.

`Destination` is a device a message goes to, with its role in the linked set.
-/

namespace Courier

/-- One side of a link: the device, and its signature if it gave one. -/
structure LinkedDevice where
  identity : Identity
  signature : Option Octets
  deriving DecidableEq, Repr

/-- An authorised pairing of a master with a slave. -/
structure DeviceLink where
  master : LinkedDevice
  slave : LinkedDevice
  deriving DecidableEq, Repr

/-- A device that receives a message for a linked set. -/
structure Destination where
  identity : Identity
  isMaster : Bool
  deriving DecidableEq, Repr

namespace DeviceLink

/-- The unsigned link of two devices. -/
def between (master slave : Identity) : DeviceLink :=
  ⟨⟨master, none⟩, ⟨slave, none⟩⟩

/-- The two devices of the link, master first. -/
def pair (l : DeviceLink) : Identity × Identity :=
  (l.master.identity, l.slave.identity)

/-- Both links name the same master and the same slave. -/
def SamePair (a b : DeviceLink) : Prop :=
  a.pair = b.pair

instance (a b : DeviceLink) : Decidable (a.SamePair b) :=
  inferInstanceAs (Decidable (a.pair = b.pair))

/-- The link pairs exactly these two devices, in these roles. -/
def Matches (l : DeviceLink) (master slave : Identity) : Prop :=
  l.pair = (master, slave)

instance (l : DeviceLink) (master slave : Identity) : Decidable (l.Matches master slave) :=
  inferInstanceAs (Decidable (l.pair = (master, slave)))

/-- The device is one of the two sides of the link. -/
def Involves (l : DeviceLink) (identity : Identity) : Prop :=
  l.master.identity = identity ∨ l.slave.identity = identity

instance (l : DeviceLink) (identity : Identity) : Decidable (l.Involves identity) :=
  inferInstanceAs (Decidable (_ ∨ _))

theorem samePair_iff_matches {a b : DeviceLink} :
    a.SamePair b ↔ a.Matches b.master.identity b.slave.identity :=
  Iff.rfl

end DeviceLink

/-- The links without those that repeat the pairing of an earlier one. -/
def dedupPairs : List DeviceLink → List DeviceLink
  | [] => []
  | l :: rest => l :: (dedupPairs rest).filter fun x => ¬ l.SamePair x

end Courier
