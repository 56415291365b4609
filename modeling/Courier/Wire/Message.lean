import Courier.Json.Record
import Courier.Message

/-!
# Messages in JSON

The JSON forms of conversation references, message kinds, outgoing messages and their envelopes. A
conversation reference is a record of its kind and its id, in either order.
-/

namespace Courier

open Json

namespace ThreadRef

/-- A conversation reference as a JSON record. -/
def toJson : ThreadRef → Json
  | .contact identity => ofFields [("kind", ofText "contact"), ("id", ofText identity)]
  | .group id => ofFields [("kind", ofText "group"), ("id", ofText id)]

/-- The conversation reference a JSON value stands for. -/
def ofJson? (j : Json) : Option ThreadRef := do
  let r ← j.record? ["kind", "id"]
  let kind ← r.required "kind" name?
  let id ← r.required "id" text?
  if kind = "contact" then return .contact id
  else if kind = "group" then return .group id
  else none

end ThreadRef

namespace MessageKind

/-- A message kind as JSON. -/
def toJson (k : MessageKind) : Json :=
  ofText k.text

/-- The message kind a JSON value stands for. -/
def ofJson? (j : Json) : Option MessageKind :=
  j.name?.bind parse?

end MessageKind

namespace OutgoingMessage

/-- A message as a JSON record. -/
def toJson (m : OutgoingMessage) : Json :=
  ofFields [("message_id", ofText m.messageId), ("recipient", ofText m.recipient),
    ("thread", m.thread.toJson), ("kind", m.kind.toJson), ("content", ofOctets m.content),
    ("certificate", ofOption ofOctets m.certificate), ("timestamp_ms", ofInt m.timestamp.toInt),
    ("ttl_ms", ofInt m.ttl.toNat)]

/-- The message a JSON value stands for. -/
def ofJson? (j : Json) : Option OutgoingMessage := do
  let r ← j.record? ["message_id", "recipient", "thread", "kind", "content", "certificate",
    "timestamp_ms", "ttl_ms"]
  return {
    messageId := ← r.required "message_id" text?
    recipient := ← r.required "recipient" text?
    thread := ← r.required "thread" ThreadRef.ofJson?
    kind := ← r.required "kind" MessageKind.ofJson?
    content := ← r.required "content" octets?
    certificate := ← r.defaulted "certificate" octets?
    timestamp := ← r.required "timestamp_ms" int64?
    ttl := ← r.required "ttl_ms" uint64? }

end OutgoingMessage

namespace OutgoingEnvelope

/-- An outgoing envelope as a JSON record. -/
def toJson (e : OutgoingEnvelope) : Json :=
  ofFields [("message_id", ofText e.messageId), ("recipient", ofText e.recipient),
    ("thread_id", ofInt e.threadId), ("kind", e.kind.toJson), ("content", ofOctets e.content),
    ("certificate", ofOption ofOctets e.certificate), ("timestamp_ms", ofInt e.timestamp.toInt),
    ("ttl_ms", ofInt e.ttl.toNat)]

/-- The outgoing envelope a JSON value stands for. -/
def ofJson? (j : Json) : Option OutgoingEnvelope := do
  let r ← j.record? ["message_id", "recipient", "thread_id", "kind", "content", "certificate",
    "timestamp_ms", "ttl_ms"]
  return {
    messageId := ← r.required "message_id" text?
    recipient := ← r.required "recipient" text?
    threadId := ← r.required "thread_id" rowId?
    kind := ← r.required "kind" MessageKind.ofJson?
    content := ← r.required "content" octets?
    certificate := ← r.defaulted "certificate" octets?
    timestamp := ← r.required "timestamp_ms" int64?
    ttl := ← r.required "ttl_ms" uint64? }

end OutgoingEnvelope

end Courier
