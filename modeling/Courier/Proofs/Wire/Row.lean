import Courier.Proofs.Wire.Envelope
import Courier.Wire.Row

/-!
# Reading back rows

* `ThreadRow.ofJson?_toJson`, `InboundJob.ofJson?_toJson`: the record of a row is read as that row,
  unless its id is none that a row can have; then it is not read.
* `ProfileRow.ofJson?_toJson`: the record of a profile is read as that profile.
-/

namespace Courier

open Json

@[simp] theorem HandshakeState.ofJson?_toJson (s : HandshakeState) : ofJson? s.toJson = some s := by
  unfold ofJson? toJson
  rw [name?_ofText]
  exact parse?_text s

@[simp] theorem ThreadKind.ofJson?_toJson (k : ThreadKind) : ofJson? k.toJson = some k := by
  unfold ofJson? toJson
  rw [name?_ofText]
  exact parse?_text k

namespace ThreadRow

theorem proper_toJson (t : ThreadRow) : Proper t.toJson := by
  have hkind : Proper t.kind.toJson := proper_ofText _
  have hstate : Proper t.handshakeState.toJson := proper_ofText _
  exact proper_ofFields (by simp [hkind, hstate, Proper.bool])

theorem ofJson?_toJson (t : ThreadRow) :
    ofJson? t.toJson = if IsRowId t.id then some t else none := by
  have hnodup : ["id", "kind", "peer", "hidden", "last_message_at", "handshake_state",
    "handshake_expires_at"].Nodup := by decide
  unfold ofJson? toJson
  rw [record?_ofFields hnodup rfl]
  by_cases hid : IsRowId t.id <;>
    simp [Record.required, Record.optional, List.lookup_cons, rowId?_ofInt, hid, bool?]

end ThreadRow

namespace InboundJob

theorem proper_toJson (job : InboundJob) : Proper job.toJson :=
  proper_ofFields (by simp)

theorem ofJson?_toJson (job : InboundJob) :
    ofJson? job.toJson = if IsRowId job.id then some job else none := by
  have hnodup : ["id", "envelope", "enqueued_at"].Nodup := by decide
  unfold ofJson? toJson
  rw [record?_ofFields hnodup rfl]
  by_cases hid : IsRowId job.id <;>
    simp [Record.required, List.lookup_cons, rowId?_ofInt, hid]

end InboundJob

namespace ProfileRow

theorem proper_toJson (p : ProfileRow) : Proper p.toJson :=
  proper_ofFields (by simp)

@[simp] theorem ofJson?_toJson (p : ProfileRow) : ofJson? p.toJson = some p := by
  have hnodup : ["identity", "display_name", "profile_key", "updated_at"].Nodup := by decide
  unfold ofJson? toJson
  rw [record?_ofFields hnodup rfl]
  simp [Record.required, Record.optional, List.lookup_cons]

end ProfileRow

end Courier
