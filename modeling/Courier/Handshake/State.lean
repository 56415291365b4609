/-!
# How far trust with a device has come

`HandshakeState` is the state of the conversation with one identity. Its text form is what the
store keeps; `parse?_text` says that the text is read back.
-/

namespace Courier

/-- The state of trust with one identity. -/
inductive HandshakeState where
  /-- No handshake was sent or received. -/
  | absent
  /-- A generated handshake is on its way; the conversation is locked meanwhile. -/
  | pendingSend
  /-- A handshake was delivered and awaits acceptance. -/
  | requestSent
  /-- The other side sent a handshake that awaits acceptance here. -/
  | requestReceived
  /-- Both sides trust each other. -/
  | established
  /-- A handshake was delivered and not accepted in time. -/
  | expired
  deriving DecidableEq, Repr

namespace HandshakeState

/-- The stored text of a state. -/
def text : HandshakeState → String
  | .absent => "none"
  | .pendingSend => "pending_send"
  | .requestSent => "request_sent"
  | .requestReceived => "request_received"
  | .established => "established"
  | .expired => "expired"

/-- All states, in the order in which trust grows and lapses. -/
def all : List HandshakeState :=
  [.absent, .pendingSend, .requestSent, .requestReceived, .established, .expired]

/-- The state a text stands for. -/
def parse? (s : String) : Option HandshakeState :=
  all.find? (·.text = s)

/-- Trust is established. -/
def isEstablished (s : HandshakeState) : Bool :=
  s = .established

/-- A generated handshake is in flight or awaits acceptance. -/
def isOutstanding (s : HandshakeState) : Bool :=
  s = .pendingSend ∨ s = .requestSent

theorem parse?_text (s : HandshakeState) : parse? s.text = some s := by
  cases s <;> decide

theorem text_of_parse? {t : String} {s : HandshakeState} (h : parse? t = some s) : s.text = t := by
  simpa using List.find?_some h

end HandshakeState

end Courier
