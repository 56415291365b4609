import Courier.Envelope
import Courier.Handshake.State

/-!
# What the store answers with

The rows that callers of the store see: conversations, queued envelopes and profiles, and the
reasons why a call may fail.
-/

namespace Courier

/-- Whether a conversation is with one contact or with a group. -/
inductive ThreadKind where
  | contact
  | group
  deriving DecidableEq, Repr

namespace ThreadKind

/-- The name of a kind in the text forms. -/
def text : ThreadKind → String
  | .contact => "contact"
  | .group => "group"

/-- The kind a name stands for. -/
def parse? (s : String) : Option ThreadKind :=
  [contact, group].find? (·.text = s)

theorem parse?_text (k : ThreadKind) : parse? k.text = some k := by
  cases k <;> decide

end ThreadKind

/-- A conversation. -/
structure ThreadRow where
  id : Int
  kind : ThreadKind
  /-- The contact's identity or the group's id. -/
  peer : String
  /-- The conversation does not show: it is with another device of a contact. -/
  hidden : Bool
  lastMessageAt : Option Int64
  handshakeState : HandshakeState
  handshakeExpiresAt : Option Int64
  deriving DecidableEq, Repr

/-- An envelope in the inbound queue. -/
structure InboundJob where
  id : Int
  envelope : InboundEnvelope
  enqueuedAt : String
  deriving DecidableEq, Repr

/-- What is known about an identity's profile. -/
structure ProfileRow where
  identity : Identity
  displayName : Option String
  profileKey : Option Octets
  updatedAt : String
  deriving DecidableEq, Repr

/-- The version of the tables this library reads and writes. -/
def schemaVersion : Nat := 1

/-- Why a call to the store failed. -/
inductive StoreError where
  /-- A value does not have the type of its column. -/
  | mistyped
  /-- The tables are of another version. -/
  | schemaMismatch (found : Nat)
  /-- A row holds something that means nothing. -/
  | corrupt (what : String)
  /-- A stored envelope cannot be read. -/
  | malformedText
  deriving DecidableEq, Repr

/-- The text of an error; the ones of the layers below have none of their own. -/
def StoreError.message : StoreError → Option String
  | .mistyped => none
  | .schemaMismatch found =>
    some s!"schema version mismatch: expected {schemaVersion}, found {found}"
  | .corrupt what => some s!"corrupt row: {what}"
  | .malformedText => none

end Courier
