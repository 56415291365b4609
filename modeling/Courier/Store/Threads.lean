import Courier.Store.Rows
import Courier.Time.Clock

/-!
# Conversations in the store

A `ThreadTable` holds one row for each kind and peer. Ids come from a counter that never goes
back: an attempt to create a conversation that exists uses up an id as well (`ThreadTable.ensure`).

The state of a row is kept as it was written. A row whose state text means nothing cannot be read
(`StoredThread.read`).
-/

namespace Courier

/-- The state column of a conversation. -/
inductive StoredState where
  | known (state : HandshakeState)
  /-- A text that names no state; only another program can have written it. -/
  | unknown (text : String)
  deriving DecidableEq, Repr

/-- The state column that holds a text. -/
def StoredState.ofText (text : String) : StoredState :=
  match HandshakeState.parse? text with
  | some s => .known s
  | none => .unknown text

/-- A conversation as the store holds it. -/
structure StoredThread where
  id : Int
  kind : ThreadKind
  peer : String
  hidden : Bool
  lastMessageAt : Option Int64
  state : StoredState
  expiresAt : Option Int64
  deriving DecidableEq, Repr

namespace StoredThread

/-- The row is that of this kind and peer. -/
def Is (t : StoredThread) (kind : ThreadKind) (peer : String) : Prop :=
  t.kind = kind ∧ t.peer = peer

instance (t : StoredThread) (kind : ThreadKind) (peer : String) : Decidable (t.Is kind peer) :=
  inferInstanceAs (Decidable (_ ∧ _))

/-- The row as callers see it. -/
def read (t : StoredThread) : Except StoreError ThreadRow :=
  match t.state with
  | .known s =>
    .ok { id := t.id, kind := t.kind, peer := t.peer, hidden := t.hidden,
          lastMessageAt := t.lastMessageAt, handshakeState := s,
          handshakeExpiresAt := t.expiresAt }
  | .unknown text => .error (.corrupt s!"handshake state '{text}'")

/-- Activity at `timestamp` is noted: the last activity only moves forward, and a timestamp ahead
of `now` counts as `now`. -/
def noteActivity (now timestamp : Int64) (t : StoredThread) : StoredThread :=
  { t with lastMessageAt := some (max (t.lastMessageAt.getD 0) (min timestamp now)) }

end StoredThread

/-- All conversations, in the order of their ids. -/
structure ThreadTable where
  rows : List StoredThread
  /-- The last id that was used or used up. -/
  lastId : Nat
  deriving DecidableEq, Repr

namespace ThreadTable

/-- No conversations yet. -/
def empty : ThreadTable := ⟨[], 0⟩

/-- The row of a kind and peer. -/
def find? (t : ThreadTable) (kind : ThreadKind) (peer : String) : Option StoredThread :=
  t.rows.find? (·.Is kind peer)

/-- The rows that are of a kind and peer are changed by `f`. -/
def update (t : ThreadTable) (kind : ThreadKind) (peer : String)
    (f : StoredThread → StoredThread) : ThreadTable :=
  { t with rows := t.rows.map fun r => if r.Is kind peer then f r else r }

/-- A conversation of this kind and peer exists; `hidden` counts only if it is new. -/
def ensure (t : ThreadTable) (kind : ThreadKind) (peer : String) (hidden : Bool) : ThreadTable :=
  let id := t.lastId + 1
  match t.find? kind peer with
  | some _ => { t with lastId := id }
  | none =>
    { rows := t.rows ++ [{ id, kind, peer, hidden, lastMessageAt := none,
                           state := .known .absent, expiresAt := none }]
      lastId := id }

/-- The conversation with a contact, if there is one. -/
def contact (t : ThreadTable) (identity : Identity) : Except StoreError (Option ThreadRow) :=
  match t.find? .contact identity with
  | none => .ok none
  | some r => r.read.map some

/-- The conversation of a kind and peer, which must exist. -/
def fetch (t : ThreadTable) (kind : ThreadKind) (peer : String) : Except StoreError ThreadRow :=
  match t.find? kind peer with
  | none => .error .mistyped
  | some r => r.read

/-- All group conversations. -/
def groups (t : ThreadTable) : Except StoreError (List ThreadRow) :=
  (t.rows.filter (·.kind = .group)).mapM StoredThread.read

/-- The contacts in a given state. -/
def contactsIn (t : ThreadTable) (state : HandshakeState) : Except StoreError (List ThreadRow) :=
  (t.rows.filter fun r => r.kind = .contact ∧ r.state = .known state).mapM StoredThread.read

/-- Activity is noted for the conversation with this id, if there is one. -/
def noteActivity (t : ThreadTable) (id : Int) (now timestamp : Int64) : ThreadTable :=
  { t with rows := t.rows.map fun r => if r.id = id then r.noteActivity now timestamp else r }

/-- The last activity of a group. -/
def groupActivity (t : ThreadTable) (group : GroupId) : Option Int64 :=
  (t.find? .group group).bind (·.lastMessageAt)

/-- The state of a contact and its expiry are written; the answer says whether the contact has a
conversation. -/
def writeState (t : ThreadTable) (identity : Identity) (state : HandshakeState)
    (expiresAt : Option Int64) : Bool × ThreadTable :=
  ((t.find? .contact identity).isSome,
    t.update .contact identity fun r => { r with state := .known state, expiresAt })

/-- Another program writes a state text into every conversation with `peer`; the answer is the
number of rows. -/
def overwriteState (t : ThreadTable) (peer text : String) : Nat × ThreadTable :=
  ((t.rows.filter (·.peer = peer)).length,
    { t with rows := t.rows.map fun r =>
        if r.peer = peer then { r with state := .ofText text } else r })

end ThreadTable

end Courier
