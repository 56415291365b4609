import Courier.Handshake.Decision
import Courier.Routing.Transport

/-!
# Generated handshakes on their way

Building a handshake locks the conversation in the pending state (`buildHandshake`). When the
transport has answered, the state that follows is known (`HandshakeDelivery.settlement?`), and a
task of its own writes it later (`Settlement.apply`). There is no settlement when the expiry
exceeds the range of timestamps; the program stops there.
-/

namespace Courier

/-- A handshake ready to be sent. -/
structure HandshakeDelivery where
  identity : Identity
  envelope : OutgoingEnvelope
  deriving DecidableEq, Repr

/-- The state that is to be written after a handshake was sent. -/
structure Settlement where
  identity : Identity
  state : HandshakeState
  expiresAt : Option Int64
  deriving DecidableEq, Repr

/-- A handshake for a device is prepared and its conversation locked. `hidden` counts only if the
conversation is new. -/
def buildHandshake (clock : Clock) (messageId : String) (identity : Identity) (hidden : Bool) :
    StoreM (OutgoingMessage × HandshakeDelivery) := do
  let thread ← Store.getOrCreateContactThread identity hidden
  let message := OutgoingMessage.compose messageId identity (.contact identity) .handshake
    (octetsOf handshakeBody) clock.now
  let _ ← Store.writeHandshakeState identity .pendingSend none
  return (message, ⟨identity, message.envelopeFor identity thread.id⟩)

/-- The sum of two timestamps, if it is one. -/
def addTimestamps? (a b : Int64) : Option Int64 :=
  let sum := a.toInt + b.toInt
  if Int64.minValue.toInt ≤ sum ∧ sum ≤ Int64.maxValue.toInt then some (Int64.ofInt sum) else none

/-- What is to be written once the transport has answered: a delivered handshake awaits acceptance
until its expiry, any other unlocks the conversation. The expiry is cut to 64 bits before it is
added to the time. -/
def HandshakeDelivery.settlement? (d : HandshakeDelivery) (expiry : Duration) (now : Int64)
    (result : SendResult) : Option Settlement :=
  match result with
  | .ok () =>
    (addTimestamps? now (Int64.ofNat expiry.millis)).map fun t =>
      ⟨d.identity, .requestSent, some t⟩
  | .error _ => some ⟨d.identity, .absent, none⟩

/-- The state is written; a failing write is passed over. -/
def Settlement.apply (x : Settlement) (s : Store) : Store :=
  (Store.writeHandshakeState x.identity x.state x.expiresAt).effect s

end Courier
