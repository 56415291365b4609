import Courier.Message
import Courier.Store.Basic

/-!
# Whether a message needs a handshake first

A visible message goes only to a device with established trust. To any other device a handshake
goes in its place, unless one is outstanding already. A request that was sent and has passed its
expiry is no longer outstanding, whether or not `expireStale` has seen it yet: both look at
`ThreadRow.lapsed`.
-/

namespace Courier

/-- What to do for one device. -/
inductive HandshakeDecision where
  /-- Trust exists, or the message does not need it. -/
  | sendAsIs
  /-- A generated handshake goes in the message's place. -/
  | sendHandshake
  /-- A handshake is outstanding; nothing is sent. -/
  | alreadyPending
  deriving DecidableEq, Repr

/-- The text of the generated handshake. -/
def handshakeBody : String :=
  "Please accept to enable messages to be synced across devices"

/-- The message goes out whatever the trust. -/
def MessageKind.needsNoTrust (k : MessageKind) : Bool :=
  k.isHandshake || !k.isSaved

/-- The expiry of a row has come. -/
def ThreadRow.due (now : Int64) (t : ThreadRow) : Bool :=
  t.handshakeExpiresAt.any (· ≤ now)

/-- The row is that of a request that was sent and not accepted in time. -/
def ThreadRow.lapsed (now : Int64) (t : ThreadRow) : Bool :=
  t.handshakeState = .requestSent && t.due now

/-- The decision for a message that needs trust, from the conversation with the device. -/
def decideFor (now : Int64) : Option ThreadRow → HandshakeDecision
  | none => .sendHandshake
  | some t =>
    if t.handshakeState.isEstablished then .sendAsIs
    else if t.handshakeState.isOutstanding && !t.lapsed now then .alreadyPending
    else .sendHandshake

/-- The decision for one device. -/
def decideHandshake (clock : Clock) (identity : Identity) (kind : MessageKind) :
    StoreM HandshakeDecision := do
  if kind.needsNoTrust then return .sendAsIs
  else return decideFor clock.now (← Store.contactThread identity)

/-- Trust with a device is recorded; its conversation is hidden if it is new. -/
def markEstablished (identity : Identity) : StoreM Unit := do
  let _ ← Store.getOrCreateContactThread identity true
  let _ ← Store.writeHandshakeState identity .established none

/-- One request of a sweep: it is marked as expired if its expiry has come. -/
def expireOne (now : Int64) (expired : List Identity) (t : ThreadRow) : StoreM (List Identity) := do
  if t.due now then
    if ← Store.writeHandshakeState t.peer .expired none then return expired ++ [t.peer]
  return expired

/-- Every request whose expiry has come is marked as expired. The answer names their devices. -/
def expireStale (now : Int64) : StoreM (List Identity) := do
  (← Store.listHandshakes .requestSent).foldlM (expireOne now) []

end Courier
