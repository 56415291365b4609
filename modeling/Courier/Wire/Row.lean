import Courier.Store.Rows
import Courier.Wire.Envelope

/-!
# Rows in JSON

The JSON forms of handshake states, conversation kinds, conversations, queued envelopes and
profiles.
-/

namespace Courier

open Json

namespace HandshakeState

/-- A handshake state as JSON. -/
def toJson (s : HandshakeState) : Json :=
  ofText s.text

/-- The handshake state a JSON value stands for. -/
def ofJson? (j : Json) : Option HandshakeState :=
  j.name?.bind parse?

end HandshakeState

namespace ThreadKind

/-- A conversation kind as JSON. -/
def toJson (k : ThreadKind) : Json :=
  ofText k.text

/-- The conversation kind a JSON value stands for. -/
def ofJson? (j : Json) : Option ThreadKind :=
  j.name?.bind parse?

end ThreadKind

namespace ThreadRow

/-- A conversation as a JSON record. -/
def toJson (t : ThreadRow) : Json :=
  ofFields [("id", ofInt t.id), ("kind", t.kind.toJson), ("peer", ofText t.peer),
    ("hidden", .bool t.hidden),
    ("last_message_at", ofOption (fun t => ofInt t.toInt) t.lastMessageAt),
    ("handshake_state", t.handshakeState.toJson),
    ("handshake_expires_at", ofOption (fun t => ofInt t.toInt) t.handshakeExpiresAt)]

/-- The conversation a JSON value stands for. -/
def ofJson? (j : Json) : Option ThreadRow := do
  let r ← j.record? ["id", "kind", "peer", "hidden", "last_message_at", "handshake_state",
    "handshake_expires_at"]
  return {
    id := ← r.required "id" rowId?
    kind := ← r.required "kind" ThreadKind.ofJson?
    peer := ← r.required "peer" text?
    hidden := ← r.required "hidden" bool?
    lastMessageAt := ← r.optional "last_message_at" int64?
    handshakeState := ← r.required "handshake_state" HandshakeState.ofJson?
    handshakeExpiresAt := ← r.optional "handshake_expires_at" int64? }

end ThreadRow

namespace InboundJob

/-- A queued envelope as a JSON record. -/
def toJson (job : InboundJob) : Json :=
  ofFields [("id", ofInt job.id), ("envelope", job.envelope.toJson),
    ("enqueued_at", ofText job.enqueuedAt)]

/-- The queued envelope a JSON value stands for. -/
def ofJson? (j : Json) : Option InboundJob := do
  let r ← j.record? ["id", "envelope", "enqueued_at"]
  return {
    id := ← r.required "id" rowId?
    envelope := ← r.required "envelope" InboundEnvelope.ofJson?
    enqueuedAt := ← r.required "enqueued_at" text? }

end InboundJob

namespace ProfileRow

/-- A profile as a JSON record. -/
def toJson (p : ProfileRow) : Json :=
  ofFields [("identity", ofText p.identity), ("display_name", ofOption ofText p.displayName),
    ("profile_key", ofOption ofOctets p.profileKey), ("updated_at", ofText p.updatedAt)]

/-- The profile a JSON value stands for. -/
def ofJson? (j : Json) : Option ProfileRow := do
  let r ← j.record? ["identity", "display_name", "profile_key", "updated_at"]
  return {
    identity := ← r.required "identity" text?
    displayName := ← r.optional "display_name" text?
    profileKey := ← r.optional "profile_key" octets?
    updatedAt := ← r.required "updated_at" text? }

end ProfileRow

end Courier
