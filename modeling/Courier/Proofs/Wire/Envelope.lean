import Courier.Proofs.Json.Reading
import Courier.Wire.Envelope

/-!
# Reading back an envelope

* `InboundEnvelope.ofText?_encode`: the text of an envelope is read as that envelope, so nothing of
  it is lost in a payload or in the inbound queue.
* `SwarmNode.ofJson?_toJson`, `RawBatch.ofJson?_toJson`: so are the records of the nodes and batches
  that an envelope comes through.
-/

namespace Courier

open Json

namespace SwarmNode

theorem proper_toJson (n : SwarmNode) : Proper n.toJson :=
  proper_ofFields (by simp)

@[simp] theorem ofJson?_toJson (n : SwarmNode) : ofJson? n.toJson = some n := by
  have hnodup : ["address", "port", "public_key"].Nodup := by decide
  unfold ofJson? toJson
  rw [record?_ofFields hnodup rfl]
  simp [Record.required, Record.defaulted, List.lookup_cons]

end SwarmNode

namespace RawMessage

@[simp] theorem proper_toJson (m : RawMessage) : Proper m.toJson :=
  proper_ofFields (by simp)

@[simp] theorem ofJson?_toJson (m : RawMessage) : ofJson? m.toJson = some m := by
  have hnodup : ["hash", "data", "expiration_ms"].Nodup := by decide
  unfold ofJson? toJson
  rw [record?_ofFields hnodup rfl]
  simp [Record.required, Record.defaulted, List.lookup_cons]

end RawMessage

namespace RawBatch

theorem proper_toJson (b : RawBatch) : Proper b.toJson := by
  have hmessages : Proper (.array (b.messages.map RawMessage.toJson)) :=
    .array (List.forall_mem_map.mpr fun m _ => m.proper_toJson)
  exact proper_ofFields (by simp [hmessages])

@[simp] theorem ofJson?_toJson (b : RawBatch) : ofJson? b.toJson = some b := by
  have hnodup : ["messages", "cursor"].Nodup := by decide
  unfold ofJson? toJson
  rw [record?_ofFields hnodup rfl]
  simp [Record.required, Record.defaulted, List.lookup_cons,
    list?_array RawMessage.ofJson?_toJson b.messages]

end RawBatch

namespace InboundEnvelope

@[simp] theorem proper_toJson (e : InboundEnvelope) : Proper e.toJson :=
  proper_ofFields (by simp)

@[simp] theorem ofJson?_toJson (e : InboundEnvelope) : ofJson? e.toJson = some e := by
  have hnodup : ["version", "source", "group_id", "timestamp_ms", "content", "server_hash"].Nodup :=
    by decide
  unfold ofJson? toJson
  rw [record?_ofFields hnodup rfl]
  simp [Record.required, Record.defaulted, List.lookup_cons]

/-- The text of an envelope is read as that envelope. -/
@[simp] theorem ofText?_encode (e : InboundEnvelope) : ofText? e.encode = some e := by
  unfold ofText? encode
  rw [read_render (proper_toJson e)]
  exact ofJson?_toJson e

end InboundEnvelope

end Courier
