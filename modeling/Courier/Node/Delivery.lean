import Courier.Node.Basic

/-!
# Sending to one device

What a route does for each destination: the decision on trust, then the message itself or a
handshake is handed to the transport, or nothing is sent (`Node.prepareSend`). When the transport
has answered for a handshake, the write that settles it is spawned (`Node.settleSend`). A task
dies where the expiry of a handshake exceeds the range of timestamps.
-/

namespace Courier

/-- A send the transport has not answered yet. -/
structure PendingSend where
  destination : Destination
  envelope : OutgoingEnvelope
  /-- A generated handshake went in the place of the message. -/
  isHandshake : Bool
  deriving DecidableEq, Repr

/-- What became of a message for one device. -/
inductive DeliveryOutcome where
  | sent
  /-- A generated handshake went out in the place of the message. -/
  | handshakeSent
  /-- A handshake is outstanding; nothing was sent. -/
  | skippedPendingHandshake
  deriving DecidableEq, Repr

/-- What a delivered send counts as. -/
def PendingSend.outcome (p : PendingSend) : DeliveryOutcome :=
  if p.isHandshake then .handshakeSent else .sent

/-- The send for one destination of a message, or nothing if a handshake is outstanding. A
conversation with another device than the recipient is hidden. -/
def prepareSend (w : Surroundings) (m : OutgoingMessage) (d : Destination) :
    StoreM (Option PendingSend) := do
  let hidden := decide (d.identity ≠ m.recipient)
  match ← decideHandshake w.clock d.identity m.kind with
  | .alreadyPending => return none
  | .sendHandshake =>
    let (_, delivery) ← buildHandshake w.clock (w.messageId d.identity) d.identity hidden
    return some ⟨d, delivery.envelope, true⟩
  | .sendAsIs =>
    let thread ← Store.getOrCreateContactThread d.identity hidden
    return some ⟨d, m.envelopeFor d.identity thread.id, false⟩

namespace Node

/-- The transport has answered for a handshake: the write of the following state is spawned. The
answer is false when there is no such state and the task dies. -/
def settleHandshake (n : Node) (w : Surroundings) (d : HandshakeDelivery) (result : SendResult) :
    Bool × Node :=
  match d.settlement? n.settings.handshakeExpiry w.clock.now result with
  | some x => (true, n.spawn (.settle x))
  | none => (false, n)

/-- The transport has answered for a send; the answer is false when the task dies. -/
def settleSend (n : Node) (w : Surroundings) (p : PendingSend) (result : SendResult) :
    Bool × Node :=
  let n := n.note (.answered p.envelope result)
  if p.isHandshake then n.settleHandshake w ⟨p.destination.identity, p.envelope⟩ result
  else (true, n)

end Node

end Courier
