import Courier.Identity

/-!
# Link control messages

What two devices say to each other while they link. Every field but the sender is optional;
`LinkControl.intent` classifies a message or names the first field that is missing. A message with
the slave's signature alone is a request, one with both signatures an authorisation.
-/

namespace Courier

/-- Profile data that a master sends along with an authorisation. -/
structure ProfileUpdate where
  displayName : Option String
  profileKey : Option Octets
  deriving DecidableEq, Repr

/-- The update says nothing. -/
def ProfileUpdate.isEmpty (p : ProfileUpdate) : Bool :=
  p.displayName.isNone && p.profileKey.isNone

/-- A control message as it came in. -/
structure LinkControl where
  sender : Identity
  master : Option Identity
  slave : Option Identity
  masterSignature : Option Octets
  slaveSignature : Option Octets
  profile : Option ProfileUpdate
  deriving DecidableEq, Repr

/-- What a control message asks for. -/
inductive LinkIntent where
  /-- A slave asks a master to link. -/
  | request (master slave : Identity) (slaveSignature : Octets)
  /-- A master authorises a slave. -/
  | authorization (master slave : Identity) (masterSignature slaveSignature : Octets)
  deriving DecidableEq, Repr

/-- The fields without which a control message means nothing. -/
inductive LinkField where
  | master
  | slave
  | slaveSignature
  deriving DecidableEq, Repr

/-- The name of a field in the wire form. -/
def LinkField.text : LinkField → String
  | .master => "master"
  | .slave => "slave"
  | .slaveSignature => "slave_signature"

/-- What the message asks for, or the first field it lacks. -/
def LinkControl.intent (m : LinkControl) : Except LinkField LinkIntent :=
  match m.master, m.slave, m.slaveSignature with
  | none, _, _ => .error .master
  | some _, none, _ => .error .slave
  | some _, some _, none => .error .slaveSignature
  | some master, some slave, some slaveSignature =>
    match m.masterSignature with
    | none => .ok (.request master slave slaveSignature)
    | some masterSignature => .ok (.authorization master slave masterSignature slaveSignature)

end Courier
