import Courier.Store.Basic
import Courier.Store.Schema
import Courier.Wire.Link
import Courier.Wire.Row

/-!
# A database in a file

`Database.encode` is the text of a whole database: one JSON record with the version of its tables.
`Database.decode` reads it back. A text that is no such record cannot be read, and neither can one
of another version.
-/

namespace Courier

open Json

namespace StoredState

/-- The text of a state column. -/
def text : StoredState → String
  | .known s => s.text
  | .unknown t => t

end StoredState

namespace StoredThread

/-- A conversation as the store holds it, as a JSON record. -/
def toJson (t : StoredThread) : Json :=
  ofFields [("id", ofInt t.id), ("kind", t.kind.toJson), ("peer", ofText t.peer),
    ("hidden", .bool t.hidden),
    ("last_message_at", ofOption (fun t => ofInt t.toInt) t.lastMessageAt),
    ("handshake_state", ofText t.state.text),
    ("handshake_expires_at", ofOption (fun t => ofInt t.toInt) t.expiresAt)]

/-- The conversation a JSON value stands for. -/
def ofJson? (j : Json) : Option StoredThread := do
  let r ← j.record? ["id", "kind", "peer", "hidden", "last_message_at", "handshake_state",
    "handshake_expires_at"]
  return {
    id := ← r.required "id" rowId?
    kind := ← r.required "kind" ThreadKind.ofJson?
    peer := ← r.required "peer" text?
    hidden := ← r.required "hidden" bool?
    lastMessageAt := ← r.optional "last_message_at" int64?
    state := .ofText (← r.required "handshake_state" text?)
    expiresAt := ← r.optional "handshake_expires_at" int64? }

end StoredThread

namespace StoredJob

/-- A queued envelope as the store holds it, as a JSON record. -/
def toJson (job : StoredJob) : Json :=
  ofFields [("id", ofInt job.id), ("server_hash", ofOption ofText job.serverHash),
    ("text", ofOctets job.text), ("enqueued_at", ofText job.enqueuedAt)]

/-- The queued envelope a JSON value stands for. -/
def ofJson? (j : Json) : Option StoredJob := do
  let r ← j.record? ["id", "server_hash", "text", "enqueued_at"]
  return {
    id := ← r.required "id" rowId?
    serverHash := ← r.optional "server_hash" text?
    text := ← r.required "text" octets?
    enqueuedAt := ← r.required "enqueued_at" text? }

end StoredJob

namespace Database

/-- A database as a JSON record. -/
def toJson (db : Database) : Json :=
  ofFields [("version", ofInt schemaVersion),
    ("threads", .array (db.threads.rows.map StoredThread.toJson)),
    ("last_thread", ofInt db.threads.lastId),
    ("links", .array (db.links.map DeviceLink.toJson)),
    ("inbound", .array (db.inbound.jobs.map StoredJob.toJson)),
    ("last_inbound", ofInt db.inbound.lastId),
    ("profiles", .array (db.profiles.map ProfileRow.toJson)),
    ("unlinked", .bool db.unlinked)]

/-- A row id that was used up. -/
def counter? (j : Json) : Option Nat :=
  j.uint64?.map UInt64.toNat

/-- The database a JSON record stands for, whatever its version. -/
def ofRecord? (r : Record) : Option Database := do
  return {
    threads :=
      { rows := ← r.required "threads" (list? StoredThread.ofJson?)
        lastId := ← r.required "last_thread" counter? }
    links := ← r.required "links" (list? DeviceLink.ofJson?)
    inbound :=
      { jobs := ← r.required "inbound" (list? StoredJob.ofJson?)
        lastId := ← r.required "last_inbound" counter? }
    profiles := ← r.required "profiles" (list? ProfileRow.ofJson?)
    unlinked := ← r.required "unlinked" bool? }

/-- The text of a database. -/
def encode (db : Database) : Octets :=
  db.toJson.render

/-- The database in a text. -/
def decode (text : Octets) : Except StoreError Database := do
  let some j := Json.read text | throw .malformedText
  let some r := j.record? ["version", "threads", "last_thread", "links", "inbound",
    "last_inbound", "profiles", "unlinked"] | throw .malformedText
  let some version := r.required "version" rowId? | throw .malformedText
  checkSchema [version]
  let some db := ofRecord? r | throw .malformedText
  return db

end Database

end Courier
