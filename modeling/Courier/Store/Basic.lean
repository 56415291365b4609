import Courier.Store.Inbound
import Courier.Store.Links
import Courier.Store.Profiles

/-!
# The store

A `Database` is what survives a restart: conversations, links, the inbound queue, profiles and the
flag that says that this device was unlinked. A `Store` is a database behind an interface whose
calls may fail: the n-th call fails when `outage` says so, and then does nothing. The operations
are actions of `StoreM`; each is one call, named by a `StoreCall`.
-/

namespace Courier

/-- All tables. -/
structure Database where
  threads : ThreadTable
  links : LinkRows
  inbound : JobTable
  profiles : ProfileRows
  unlinked : Bool
  deriving DecidableEq, Repr

/-- A new database. -/
def Database.empty : Database :=
  { threads := .empty, links := [], inbound := .empty, profiles := [], unlinked := false }

/-- The calls of the store. -/
inductive StoreCall where
  | contactThread
  | getOrCreateContactThread
  | getOrCreateGroupThread
  | listGroupThreads
  | recordThreadActivity
  | groupLastMessageAt
  | handshakeState
  | writeHandshakeState
  | listHandshakes
  | replaceDeviceLinks
  | upsertDeviceLink
  | deleteDeviceLink
  | readAllDeviceLinks
  | enqueueInbound
  | pendingInbound
  | writeProfile
  | readProfile
  | setUnlinked
  | isUnlinked
  deriving DecidableEq, Repr

/-- Which calls fail, and how: by the number of the call and by its name. -/
abbrev Outage := Nat → StoreCall → Option StoreError

/-- A database behind calls that may fail. -/
structure Store where
  db : Database
  /-- How many calls were made. -/
  calls : Nat
  outage : Outage

/-- An action on the store. What it wrote before it failed stays written. -/
abbrev StoreM := EStateM StoreError Store

namespace Store

/-- A store over a database, none of whose calls fails. -/
def reliable (db : Database) : Store :=
  { db, calls := 0, outage := fun _ _ => none }

/-- One call: it fails with the outage's error and does nothing, or it does `f`. -/
def call {α : Type} (name : StoreCall) (f : Database → Except StoreError α × Database) : StoreM α :=
  fun s =>
    let s' := { s with calls := s.calls + 1 }
    match s.outage s.calls name with
    | some e => .error e s'
    | none =>
      match f s.db with
      | (.ok a, db) => .ok a { s' with db }
      | (.error e, db) => .error e { s' with db }

/-- A call that only reads. -/
def query {α : Type} (name : StoreCall) (f : Database → Except StoreError α) : StoreM α :=
  call name fun db => (f db, db)

/-- A call that writes and cannot fail by itself. -/
def change {α : Type} (name : StoreCall) (f : Database → α × Database) : StoreM α :=
  call name fun db => let (a, db) := f db; (.ok a, db)

/-! ## Conversations -/

/-- The conversation with a contact, if there is one. -/
def contactThread (identity : Identity) : StoreM (Option ThreadRow) :=
  query .contactThread (·.threads.contact identity)

/-- The conversation of a kind and peer, created if it is missing. -/
def ensured (kind : ThreadKind) (peer : String) (hidden : Bool) (db : Database) :
    Except StoreError ThreadRow × Database :=
  let threads := db.threads.ensure kind peer hidden
  (threads.fetch kind peer, { db with threads })

/-- The conversation with a contact, created if it is missing; `hidden` counts only then. -/
def getOrCreateContactThread (identity : Identity) (hidden : Bool) : StoreM ThreadRow :=
  call .getOrCreateContactThread (ensured .contact identity hidden)

/-- The conversation of a group, created if it is missing. -/
def getOrCreateGroupThread (group : GroupId) : StoreM ThreadRow :=
  call .getOrCreateGroupThread (ensured .group group false)

/-- All group conversations, by id. -/
def listGroupThreads : StoreM (List ThreadRow) :=
  query .listGroupThreads (·.threads.groups)

/-- Activity is noted for a conversation. -/
def recordThreadActivity (clock : Clock) (threadId : Int) (timestamp : Int64) : StoreM Unit :=
  change .recordThreadActivity fun db =>
    ((), { db with threads := db.threads.noteActivity threadId clock.now timestamp })

/-- The last activity of a group. -/
def groupLastMessageAt (group : GroupId) : StoreM (Option Int64) :=
  query .groupLastMessageAt fun db => .ok (db.threads.groupActivity group)

/-! ## Handshakes -/

/-- The state of a contact; none was sent where there is no conversation. -/
def handshakeState (identity : Identity) : StoreM HandshakeState :=
  query .handshakeState fun db =>
    (db.threads.contact identity).map fun row => (row.map (·.handshakeState)).getD .absent

/-- The state of a contact is written; the answer says whether it has a conversation. -/
def writeHandshakeState (identity : Identity) (state : HandshakeState)
    (expiresAt : Option Int64) : StoreM Bool :=
  change .writeHandshakeState fun db =>
    let (found, threads) := db.threads.writeState identity state expiresAt
    (found, { db with threads })

/-- The contacts in a state, by id of their conversations. -/
def listHandshakes (state : HandshakeState) : StoreM (List ThreadRow) :=
  query .listHandshakes (·.threads.contactsIn state)

/-! ## Links -/

/-- The stored links of `master` are replaced. -/
def replaceDeviceLinks (master : Identity) (links : List DeviceLink) : StoreM Unit :=
  change .replaceDeviceLinks fun db => ((), { db with links := db.links.replace master links })

/-- A link is written; a signature it lacks is kept. -/
def upsertDeviceLink (link : DeviceLink) : StoreM Unit :=
  change .upsertDeviceLink fun db => ((), { db with links := db.links.upsert link })

/-- A pairing is dropped; the answer says whether it was stored. -/
def deleteDeviceLink (master slave : Identity) : StoreM Bool :=
  change .deleteDeviceLink fun db =>
    let (found, links) := db.links.delete master slave
    (found, { db with links })

/-- All links, by master and slave. -/
def readAllDeviceLinks : StoreM (List DeviceLink) :=
  query .readAllDeviceLinks fun db => .ok db.links.sorted

/-! ## The inbound queue -/

/-- An envelope is queued; nothing happens if its hash is queued already. -/
def enqueueInbound (clock : Clock) (e : InboundEnvelope) : StoreM (Option Int) :=
  change .enqueueInbound fun db =>
    let (id, inbound, threads) := enqueue clock e db.inbound db.threads
    (id, { db with inbound, threads })

/-- The first `limit` queued envelopes. -/
def pendingInbound (limit : Nat) : StoreM (List InboundJob) :=
  query .pendingInbound (·.inbound.first limit)

/-! ## Profiles and the flag -/

/-- The fields an update carries are written into a profile. -/
def writeProfile (clock : Clock) (identity : Identity) (update : ProfileUpdate) : StoreM Unit :=
  change .writeProfile fun db =>
    ((), { db with profiles := db.profiles.write clock identity update })

/-- The profile of an identity. -/
def readProfile (identity : Identity) : StoreM (Option ProfileRow) :=
  query .readProfile fun db => .ok (db.profiles.find? identity)

/-- The flag that says that this device was unlinked is set or cleared. -/
def setUnlinked (unlinked : Bool) : StoreM Unit :=
  change .setUnlinked fun db => ((), { db with unlinked })

/-- This device was unlinked. -/
def isUnlinked : StoreM Bool :=
  query .isUnlinked fun db => .ok db.unlinked

end Store

/-- The outcome of an action and the store after it. -/
def StoreM.attempt {α : Type} (x : StoreM α) (s : Store) : Except StoreError α × Store :=
  match x.run s with
  | .ok a s => (.ok a, s)
  | .error e s => (.error e, s)

/-- The store after an action whose failure is passed over. -/
def StoreM.effect {α : Type} (x : StoreM α) (s : Store) : Store :=
  (x.attempt s).2

end Courier
