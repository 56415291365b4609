import Courier.Era

/-!
# Swarm payloads

A swarm node keeps raw messages for a group; each holds the text of an `InboundEnvelope`.
`InboundEnvelope.accept` applies the rules that hold after the text has been read: the version
is supported and the source is named; the swarm's own hash takes the place of any claimed one.
-/

namespace Courier

/-- A storage node of a group's swarm. -/
structure SwarmNode where
  address : String
  port : UInt16
  publicKey : Option String
  deriving DecidableEq, Repr

/-- The address and the port of a node. -/
def SwarmNode.text (n : SwarmNode) : String :=
  n.address ++ ":" ++ toString n.port.toNat

/-- One message as a swarm node keeps it. -/
structure RawMessage where
  /-- The hash the swarm gave it; it serves as a cursor too. -/
  hash : String
  data : Octets
  expiration : Option Int64
  deriving DecidableEq, Repr

/-- The answer to one request for messages. -/
structure RawBatch where
  messages : List RawMessage
  /-- What to pass with the next request. -/
  cursor : Option String
  deriving DecidableEq, Repr

/-- An inbound message ready for the receive pipeline. -/
structure InboundEnvelope where
  version : UInt16
  source : Identity
  groupId : Option GroupId
  timestamp : Int64
  content : Octets
  /-- The hash of the raw message this envelope came from. -/
  serverHash : Option String
  deriving DecidableEq, Repr

/-- The lowest envelope version that is understood. -/
def envelopeVersionMin : UInt16 := 1

/-- The highest envelope version that is understood. -/
def envelopeVersionMax : UInt16 := 1

/-- Why a raw message is not an envelope, or a control message no intent. -/
inductive ProtocolError where
  | unsupportedVersion (got : UInt16)
  | missingField (name : String)
  | payloadTooLarge (size : Nat)
  /-- The payload is not the text of an envelope. -/
  | malformedText
  deriving DecidableEq, Repr

/-- The text of an error; a malformed payload has none of its own. -/
def ProtocolError.message : ProtocolError → Option String
  | .unsupportedVersion got =>
    some (s!"unsupported envelope version {got.toNat} (we support "
      ++ s!"{envelopeVersionMin.toNat}-{envelopeVersionMax.toNat})")
  | .missingField name => some s!"missing field: {name}"
  | .payloadTooLarge size =>
    some s!"payload too large: {size} bytes (max {currentEra.maxEnvelopeBytes})"
  | .malformedText => none

/-- The envelope as it is queued under the swarm's hash, if its version is supported and its
source named. -/
def InboundEnvelope.accept (e : InboundEnvelope) (hash : String) :
    Except ProtocolError InboundEnvelope :=
  if e.version < envelopeVersionMin ∨ envelopeVersionMax < e.version then
    .error (.unsupportedVersion e.version)
  else if e.source = "" then .error (.missingField "source")
  else .ok { e with serverHash := some hash }

end Courier
