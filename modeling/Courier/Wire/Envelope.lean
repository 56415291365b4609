import Courier.Envelope
import Courier.Json.Record

/-!
# Envelopes in JSON

The JSON forms of swarm nodes, raw messages, batches and inbound envelopes, and the decoding of a
raw payload (`RawMessage.decode`): its size is checked first, then its text, then its version and
its source.
-/

namespace Courier

open Json

namespace SwarmNode

/-- A node as a JSON record. -/
def toJson (n : SwarmNode) : Json :=
  ofFields [("address", ofText n.address), ("port", ofInt n.port.toNat),
    ("public_key", ofOption ofText n.publicKey)]

/-- The node a JSON value stands for. -/
def ofJson? (j : Json) : Option SwarmNode := do
  let r ← j.record? ["address", "port", "public_key"]
  return {
    address := ← r.required "address" text?
    port := ← r.required "port" uint16?
    publicKey := ← r.defaulted "public_key" text? }

end SwarmNode

namespace RawMessage

/-- A raw message as a JSON record. -/
def toJson (m : RawMessage) : Json :=
  ofFields [("hash", ofText m.hash), ("data", ofOctets m.data),
    ("expiration_ms", ofOption (fun t => ofInt t.toInt) m.expiration)]

/-- The raw message a JSON value stands for. -/
def ofJson? (j : Json) : Option RawMessage := do
  let r ← j.record? ["hash", "data", "expiration_ms"]
  return {
    hash := ← r.required "hash" text?
    data := ← r.required "data" octets?
    expiration := ← r.defaulted "expiration_ms" int64? }

end RawMessage

namespace RawBatch

/-- A batch as a JSON record. -/
def toJson (b : RawBatch) : Json :=
  ofFields [("messages", .array (b.messages.map RawMessage.toJson)),
    ("cursor", ofOption ofText b.cursor)]

/-- The batch a JSON value stands for. -/
def ofJson? (j : Json) : Option RawBatch := do
  let r ← j.record? ["messages", "cursor"]
  return {
    messages := ← r.required "messages" (list? RawMessage.ofJson?)
    cursor := ← r.defaulted "cursor" text? }

end RawBatch

namespace InboundEnvelope

/-- An envelope as a JSON record. -/
def toJson (e : InboundEnvelope) : Json :=
  ofFields [("version", ofInt e.version.toNat), ("source", ofText e.source),
    ("group_id", ofOption ofText e.groupId), ("timestamp_ms", ofInt e.timestamp.toInt),
    ("content", ofOctets e.content), ("server_hash", ofOption ofText e.serverHash)]

/-- The envelope a JSON value stands for. -/
def ofJson? (j : Json) : Option InboundEnvelope := do
  let r ← j.record? ["version", "source", "group_id", "timestamp_ms", "content", "server_hash"]
  return {
    version := ← r.required "version" uint16?
    source := ← r.required "source" text?
    groupId := ← r.defaulted "group_id" text?
    timestamp := ← r.required "timestamp_ms" int64?
    content := ← r.required "content" octets?
    serverHash := ← r.defaulted "server_hash" text? }

/-- The text of an envelope, as payloads and the inbound queue hold it. -/
def encode (e : InboundEnvelope) : Octets :=
  e.toJson.render

/-- The envelope a text stands for. -/
def ofText? (text : Octets) : Option InboundEnvelope :=
  (Json.read text).bind ofJson?

end InboundEnvelope

/-- The envelope in a raw message, under the message's own hash. -/
def RawMessage.decode (m : RawMessage) : Except ProtocolError InboundEnvelope :=
  if m.data.length > currentEra.maxEnvelopeBytes then .error (.payloadTooLarge m.data.length)
  else
    match InboundEnvelope.ofText? m.data with
    | none => .error .malformedText
    | some e => e.accept m.hash

end Courier
