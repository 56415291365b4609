import Courier.Proofs.Json.Reading
import Courier.Wire.Link

/-!
# Reading back links

* `DeviceLink.ofJson?_toJson`: the record of a link is read as that link, with its signatures: one
  that is missing and one without octets are kept apart.
* `LinkControl.ofJson?_toJson`: the record of a control message is read as that message, with the
  profile it carries.
-/

namespace Courier

open Json

namespace LinkedDevice

@[simp] theorem proper_toJson (d : LinkedDevice) : Proper d.toJson :=
  proper_ofFields (by simp)

@[simp] theorem ofJson?_toJson (d : LinkedDevice) : ofJson? d.toJson = some d := by
  have hnodup : ["identity", "signature"].Nodup := by decide
  unfold ofJson? toJson
  rw [record?_ofFields hnodup rfl]
  simp [Record.required, Record.defaulted, List.lookup_cons]

end LinkedDevice

namespace DeviceLink

theorem proper_toJson (l : DeviceLink) : Proper l.toJson :=
  proper_ofFields (by simp)

@[simp] theorem ofJson?_toJson (l : DeviceLink) : ofJson? l.toJson = some l := by
  have hnodup : ["master", "slave"].Nodup := by decide
  unfold ofJson? toJson
  rw [record?_ofFields hnodup rfl]
  simp [Record.required, List.lookup_cons]

end DeviceLink

namespace Destination

theorem proper_toJson (d : Destination) : Proper d.toJson :=
  proper_ofFields (by simp [Proper.bool])

@[simp] theorem ofJson?_toJson (d : Destination) : ofJson? d.toJson = some d := by
  have hnodup : ["identity", "is_master"].Nodup := by decide
  unfold ofJson? toJson
  rw [record?_ofFields hnodup rfl]
  simp [Record.required, List.lookup_cons, bool?]

end Destination

namespace ProfileUpdate

@[simp] theorem proper_toJson (p : ProfileUpdate) : Proper p.toJson :=
  proper_ofFields (by simp)

@[simp] theorem ofJson?_toJson (p : ProfileUpdate) : ofJson? p.toJson = some p := by
  have hnodup : ["display_name", "profile_key"].Nodup := by decide
  unfold ofJson? toJson
  rw [record?_ofFields hnodup rfl]
  simp [Record.defaulted, List.lookup_cons]

end ProfileUpdate

namespace LinkControl

theorem proper_toJson (m : LinkControl) : Proper m.toJson :=
  proper_ofFields (by simp)

@[simp] theorem ofJson?_toJson (m : LinkControl) : ofJson? m.toJson = some m := by
  have hnodup : ["sender", "master", "slave", "master_signature", "slave_signature",
    "profile"].Nodup := by decide
  have hprofile : nullable? ProfileUpdate.ofJson? (ofOption ProfileUpdate.toJson m.profile) =
      some m.profile :=
    nullable?_ofOption ProfileUpdate.ofJson?_toJson (fun _ => nofun) m.profile
  unfold ofJson? toJson
  rw [record?_ofFields hnodup rfl]
  simp [Record.required, Record.defaulted, List.lookup_cons, hprofile]

end LinkControl

end Courier
