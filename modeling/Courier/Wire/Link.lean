import Courier.Json.Record
import Courier.Link.Basic
import Courier.Link.Control

/-!
# Links in JSON

The JSON forms of linked devices, links, destinations, profile updates and link control messages.
-/

namespace Courier

open Json

namespace LinkedDevice

/-- One side of a link as a JSON record. -/
def toJson (d : LinkedDevice) : Json :=
  ofFields [("identity", ofText d.identity), ("signature", ofOption ofOctets d.signature)]

/-- The side of a link a JSON value stands for. -/
def ofJson? (j : Json) : Option LinkedDevice := do
  let r ← j.record? ["identity", "signature"]
  return {
    identity := ← r.required "identity" text?
    signature := ← r.defaulted "signature" octets? }

end LinkedDevice

namespace DeviceLink

/-- A link as a JSON record. -/
def toJson (l : DeviceLink) : Json :=
  ofFields [("master", l.master.toJson), ("slave", l.slave.toJson)]

/-- The link a JSON value stands for. -/
def ofJson? (j : Json) : Option DeviceLink := do
  let r ← j.record? ["master", "slave"]
  return {
    master := ← r.required "master" LinkedDevice.ofJson?
    slave := ← r.required "slave" LinkedDevice.ofJson? }

end DeviceLink

namespace Destination

/-- A destination as a JSON record. -/
def toJson (d : Destination) : Json :=
  ofFields [("identity", ofText d.identity), ("is_master", .bool d.isMaster)]

/-- The destination a JSON value stands for. -/
def ofJson? (j : Json) : Option Destination := do
  let r ← j.record? ["identity", "is_master"]
  return {
    identity := ← r.required "identity" text?
    isMaster := ← r.required "is_master" bool? }

end Destination

namespace ProfileUpdate

/-- A profile update as a JSON record. -/
def toJson (p : ProfileUpdate) : Json :=
  ofFields [("display_name", ofOption ofText p.displayName),
    ("profile_key", ofOption ofOctets p.profileKey)]

/-- The profile update a JSON value stands for. -/
def ofJson? (j : Json) : Option ProfileUpdate := do
  let r ← j.record? ["display_name", "profile_key"]
  return {
    displayName := ← r.defaulted "display_name" text?
    profileKey := ← r.defaulted "profile_key" octets? }

end ProfileUpdate

namespace LinkControl

/-- A control message as a JSON record. -/
def toJson (m : LinkControl) : Json :=
  ofFields [("sender", ofText m.sender), ("master", ofOption ofText m.master),
    ("slave", ofOption ofText m.slave),
    ("master_signature", ofOption ofOctets m.masterSignature),
    ("slave_signature", ofOption ofOctets m.slaveSignature),
    ("profile", ofOption ProfileUpdate.toJson m.profile)]

/-- The control message a JSON value stands for. -/
def ofJson? (j : Json) : Option LinkControl := do
  let r ← j.record? ["sender", "master", "slave", "master_signature", "slave_signature", "profile"]
  return {
    sender := ← r.required "sender" text?
    master := ← r.defaulted "master" text?
    slave := ← r.defaulted "slave" text?
    masterSignature := ← r.defaulted "master_signature" octets?
    slaveSignature := ← r.defaulted "slave_signature" octets?
    profile := ← r.defaulted "profile" ProfileUpdate.ofJson? }

end LinkControl

end Courier
