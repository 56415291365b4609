import Courier.Proofs.Json.Reading
import Courier.Wire.Message

/-!
# Reading back messages

* `ThreadRef.ofJson?_toJson`, `ThreadRef.ofJson?_idFirst`: the record of a conversation is read as
  that conversation, whether its kind or its id comes first.
* `OutgoingMessage.ofJson?_toJson`: the record of a message is read as that message.
* `OutgoingEnvelope.ofJson?_toJson`: so is that of an envelope whose conversation has an id that a
  row can have; with any other it is not read.
-/

namespace Courier

open Json

namespace ThreadRef

@[simp] theorem proper_toJson (r : ThreadRef) : Proper r.toJson := by
  cases r <;> exact proper_ofFields (by simp)

@[simp] theorem ofJson?_toJson (r : ThreadRef) : ofJson? r.toJson = some r := by
  have hnodup : ["kind", "id"].Nodup := by decide
  cases r with
  | contact i =>
    unfold ofJson? toJson
    rw [record?_ofFields hnodup rfl]
    simp [Record.required, List.lookup_cons]
  | group g =>
    unfold ofJson? toJson
    rw [record?_ofFields hnodup rfl]
    simp [Record.required, List.lookup_cons]

/-- A conversation reference with its id before its kind. -/
def idFirst : ThreadRef → Json
  | .contact identity => ofFields [("id", ofText identity), ("kind", ofText "contact")]
  | .group id => ofFields [("id", ofText id), ("kind", ofText "group")]

theorem proper_idFirst (r : ThreadRef) : Proper r.idFirst := by
  cases r <;> exact proper_ofFields (by simp)

@[simp] theorem ofJson?_idFirst (r : ThreadRef) : ofJson? r.idFirst = some r := by
  have hnodup : ["kind", "id"].Nodup := by decide
  have hnames : ["id", "kind"].Perm ["kind", "id"] := .swap ..
  cases r with
  | contact i =>
    unfold ofJson? idFirst
    rw [record?_ofFields_of_perm hnodup]
    · simp [Record.required, List.lookup_cons]
    · exact hnames
  | group g =>
    unfold ofJson? idFirst
    rw [record?_ofFields_of_perm hnodup]
    · simp [Record.required, List.lookup_cons]
    · exact hnames

end ThreadRef

namespace MessageKind

@[simp] theorem proper_toJson (k : MessageKind) : Proper k.toJson :=
  proper_ofText k.text

@[simp] theorem ofJson?_toJson (k : MessageKind) : ofJson? k.toJson = some k := by
  unfold ofJson? toJson
  rw [name?_ofText]
  exact parse?_text k

end MessageKind

namespace OutgoingMessage

theorem proper_toJson (m : OutgoingMessage) : Proper m.toJson :=
  proper_ofFields (by simp)

@[simp] theorem ofJson?_toJson (m : OutgoingMessage) : ofJson? m.toJson = some m := by
  have hnodup : ["message_id", "recipient", "thread", "kind", "content", "certificate",
    "timestamp_ms", "ttl_ms"].Nodup := by decide
  unfold ofJson? toJson
  rw [record?_ofFields hnodup rfl]
  simp [Record.required, Record.defaulted, List.lookup_cons]

end OutgoingMessage

namespace OutgoingEnvelope

theorem proper_toJson (e : OutgoingEnvelope) : Proper e.toJson :=
  proper_ofFields (by simp)

theorem ofJson?_toJson (e : OutgoingEnvelope) :
    ofJson? e.toJson = if IsRowId e.threadId then some e else none := by
  have hnodup : ["message_id", "recipient", "thread_id", "kind", "content", "certificate",
    "timestamp_ms", "ttl_ms"].Nodup := by decide
  unfold ofJson? toJson
  rw [record?_ofFields hnodup rfl]
  by_cases hid : IsRowId e.threadId <;>
    simp [Record.required, Record.defaulted, List.lookup_cons, rowId?_ofInt, hid]

end OutgoingEnvelope

end Courier
