import Courier.Identity

/-!
# Outgoing messages

An `OutgoingMessage` is addressed to the recipient its author named; an `OutgoingEnvelope` is the
copy of it that goes to one device (`OutgoingMessage.envelopeFor`). The `MessageKind` decides whether
a message is fanned out to linked devices and whether it needs trust.
-/

namespace Courier

/-- The conversation a message belongs to. -/
inductive ThreadRef where
  | contact (identity : Identity)
  | group (id : GroupId)
  deriving DecidableEq, Repr

namespace ThreadRef

/-- The conversation is that of a group. -/
def isGroup : ThreadRef → Bool
  | .contact _ => false
  | .group _ => true

end ThreadRef

/-- The class of a message. -/
inductive MessageKind where
  /-- A chat message that shows in the conversation. -/
  | visible
  /-- A delivery or read receipt. -/
  | receipt
  | typingIndicator
  /-- A request for trust, written by a person or generated. -/
  | handshake
  /-- A link request or a link authorisation. -/
  | deviceLink
  /-- A master's request that a slave be unlinked. -/
  | unlink
  deriving DecidableEq, Repr

namespace MessageKind

/-- Link administration is never fanned out to linked devices. -/
def isLinkAdmin (k : MessageKind) : Bool :=
  k = .deviceLink ∨ k = .unlink

def isHandshake (k : MessageKind) : Bool :=
  k = .handshake

/-- The message is kept as an entry of the conversation. -/
def isSaved (k : MessageKind) : Bool :=
  k = .visible

/-- The name of a kind in the text forms. -/
def text : MessageKind → String
  | .visible => "visible"
  | .receipt => "receipt"
  | .typingIndicator => "typing_indicator"
  | .handshake => "handshake"
  | .deviceLink => "device_link"
  | .unlink => "unlink"

/-- All kinds. -/
def all : List MessageKind :=
  [.visible, .receipt, .typingIndicator, .handshake, .deviceLink, .unlink]

/-- The kind a name stands for. -/
def parse? (s : String) : Option MessageKind :=
  all.find? (·.text = s)

theorem parse?_text (k : MessageKind) : parse? k.text = some k := by
  cases k <;> decide

end MessageKind

/-- A message on its way out, addressed to whom its author named (a device, or a group id in a
group conversation). -/
structure OutgoingMessage where
  messageId : String
  recipient : Identity
  thread : ThreadRef
  kind : MessageKind
  content : Octets
  /-- The sender's certificate, copied to every device as it is. -/
  certificate : Option Octets
  timestamp : Int64
  ttl : UInt64
  deriving DecidableEq, Repr

/-- The copy of a message that the transport carries to one device. -/
structure OutgoingEnvelope where
  messageId : String
  recipient : Identity
  /-- The local conversation the send is recorded under. -/
  threadId : Int
  kind : MessageKind
  content : Octets
  certificate : Option Octets
  timestamp : Int64
  ttl : UInt64
  deriving DecidableEq, Repr

/-- A message lives for a day unless it says otherwise (milliseconds). -/
def defaultTtl : UInt64 := 24 * 60 * 60 * 1000

namespace OutgoingMessage

/-- A fresh message: no certificate, the default lifetime. -/
def compose (messageId : String) (recipient : Identity) (thread : ThreadRef) (kind : MessageKind)
    (content : Octets) (now : Int64) : OutgoingMessage :=
  { messageId, recipient, thread, kind, content, certificate := none, timestamp := now,
    ttl := defaultTtl }

/-- A visible message in the conversation with one contact. -/
def toContact (messageId : String) (recipient : Identity) (content : Octets) (now : Int64) :
    OutgoingMessage :=
  compose messageId recipient (.contact recipient) .visible content now

/-- The copy of a message for one device, recorded under the conversation `threadId`. -/
def envelopeFor (m : OutgoingMessage) (recipient : Identity) (threadId : Int) : OutgoingEnvelope :=
  { messageId := m.messageId, recipient, threadId, kind := m.kind, content := m.content,
    certificate := m.certificate, timestamp := m.timestamp, ttl := m.ttl }

end OutgoingMessage

end Courier
