import Courier.Proofs.Node.Keeps
import Courier.Proofs.Store.Snapshot
import Courier.Proofs.Store.Threads

/-!
# Runs of calls on a store

A `StoreUse` is one of the calls of the store with its arguments, or closing the database and
opening it again. A run (`Store.serve`) makes uses one after the other, at any clock and whatever
calls the outage lets fail.

* `Store.db_use`: what a use does, if it is not refused: `StoreUse.change`.
* `Store.legible_serve`: along a run the states of the conversations stay legible, so that the
  database is always opened again as it was closed (`Store.reopen_of_legible`).
* `Store.serve_lift`: a run does what each of its uses does.
* `enqueue_eq`: queueing an envelope, by whether its hash is in the queue.
-/

namespace Courier

/-- A call of the store with its arguments, or closing the database and opening it again. -/
inductive StoreUse where
  | contactThread (identity : Identity)
  | getOrCreateContactThread (identity : Identity) (hidden : Bool)
  | getOrCreateGroupThread (group : GroupId)
  | listGroupThreads
  | recordThreadActivity (threadId : Int) (timestamp : Int64)
  | groupLastMessageAt (group : GroupId)
  | handshakeState (identity : Identity)
  | writeHandshakeState (identity : Identity) (state : HandshakeState) (expiresAt : Option Int64)
  | listHandshakes (state : HandshakeState)
  | replaceDeviceLinks (master : Identity) (links : List DeviceLink)
  | upsertDeviceLink (link : DeviceLink)
  | deleteDeviceLink (master slave : Identity)
  | readAllDeviceLinks
  | enqueueInbound (envelope : InboundEnvelope)
  | pendingInbound (limit : Nat)
  | writeProfile (identity : Identity) (update : ProfileUpdate)
  | readProfile (identity : Identity)
  | setUnlinked (unlinked : Bool)
  | isUnlinked
  | reopen

namespace Store

/-- The store of a new database. -/
def fresh (outage : Outage) : Store :=
  { db := .empty, calls := 0, outage }

/-- The database is closed and opened again; one that cannot be read is left as it is. -/
def reopen (s : Store) : Store :=
  match Database.decode s.db.encode with
  | .ok db => { s with db }
  | .error _ => s

/-- The store after a use, whether or not the call failed. -/
def use (s : Store) (clock : Clock) : StoreUse → Store
  | .contactThread i => (contactThread i).effect s
  | .getOrCreateContactThread i hidden => (getOrCreateContactThread i hidden).effect s
  | .getOrCreateGroupThread g => (getOrCreateGroupThread g).effect s
  | .listGroupThreads => listGroupThreads.effect s
  | .recordThreadActivity id timestamp => (recordThreadActivity clock id timestamp).effect s
  | .groupLastMessageAt g => (groupLastMessageAt g).effect s
  | .handshakeState i => (handshakeState i).effect s
  | .writeHandshakeState i state expiresAt => (writeHandshakeState i state expiresAt).effect s
  | .listHandshakes state => (listHandshakes state).effect s
  | .replaceDeviceLinks master links => (replaceDeviceLinks master links).effect s
  | .upsertDeviceLink link => (upsertDeviceLink link).effect s
  | .deleteDeviceLink master slave => (deleteDeviceLink master slave).effect s
  | .readAllDeviceLinks => readAllDeviceLinks.effect s
  | .enqueueInbound e => (enqueueInbound clock e).effect s
  | .pendingInbound limit => (pendingInbound limit).effect s
  | .writeProfile i update => (writeProfile clock i update).effect s
  | .readProfile i => (readProfile i).effect s
  | .setUnlinked unlinked => (setUnlinked unlinked).effect s
  | .isUnlinked => isUnlinked.effect s
  | .reopen => s.reopen

/-- The store after a run of uses, each at its own clock. -/
def serve (s : Store) (uses : List (Clock × StoreUse)) : Store :=
  uses.foldl (fun s u => s.use u.1 u.2) s

end Store

/-! ## What a use does -/

namespace StoreUse

/-- The call that a use makes. -/
def call : StoreUse → Option StoreCall
  | .contactThread _ => some .contactThread
  | .getOrCreateContactThread .. => some .getOrCreateContactThread
  | .getOrCreateGroupThread _ => some .getOrCreateGroupThread
  | .listGroupThreads => some .listGroupThreads
  | .recordThreadActivity .. => some .recordThreadActivity
  | .groupLastMessageAt _ => some .groupLastMessageAt
  | .handshakeState _ => some .handshakeState
  | .writeHandshakeState .. => some .writeHandshakeState
  | .listHandshakes _ => some .listHandshakes
  | .replaceDeviceLinks .. => some .replaceDeviceLinks
  | .upsertDeviceLink _ => some .upsertDeviceLink
  | .deleteDeviceLink .. => some .deleteDeviceLink
  | .readAllDeviceLinks => some .readAllDeviceLinks
  | .enqueueInbound _ => some .enqueueInbound
  | .pendingInbound _ => some .pendingInbound
  | .writeProfile .. => some .writeProfile
  | .readProfile _ => some .readProfile
  | .setUnlinked _ => some .setUnlinked
  | .isUnlinked => some .isUnlinked
  | .reopen => none

/-- The database after a use that was not refused. -/
def change (clock : Clock) (db : Database) : StoreUse → Database
  | .getOrCreateContactThread i hidden =>
    { db with threads := db.threads.ensure .contact i hidden }
  | .getOrCreateGroupThread g => { db with threads := db.threads.ensure .group g false }
  | .recordThreadActivity id timestamp =>
    { db with threads := db.threads.noteActivity id clock.now timestamp }
  | .writeHandshakeState i state expiresAt =>
    { db with threads := (db.threads.writeState i state expiresAt).2 }
  | .replaceDeviceLinks master links => { db with links := db.links.replace master links }
  | .upsertDeviceLink link => { db with links := db.links.upsert link }
  | .deleteDeviceLink master slave => { db with links := (db.links.delete master slave).2 }
  | .enqueueInbound e =>
    { db with
      inbound := (enqueue clock e db.inbound db.threads).2.1
      threads := (enqueue clock e db.inbound db.threads).2.2 }
  | .writeProfile i update => { db with profiles := db.profiles.write clock i update }
  | .setUnlinked unlinked => { db with unlinked }
  | _ => db

end StoreUse

namespace Store

variable {s : Store} {clock : Clock}

/-- The outage lets the call of the use fail. -/
def Refuses (s : Store) (u : StoreUse) : Prop :=
  ∃ name ∈ u.call, s.outage s.calls name ≠ none

instance (s : Store) (u : StoreUse) : Decidable (s.Refuses u) :=
  match h : u.call with
  | none => .isFalse (by simp [Refuses, h])
  | some name => decidable_of_iff (s.outage s.calls name ≠ none) (by simp [Refuses, h])

theorem db_effect_call {α : Type} {name : StoreCall}
    {f : Database → Except StoreError α × Database} :
    ((call name f).effect s).db =
      if s.outage s.calls name ≠ none then s.db else (f s.db).2 := by
  unfold StoreM.effect
  rw [StoreM.attempt_call]
  cases s.outage s.calls name <;> rfl

theorem db_effect_query {α : Type} {name : StoreCall} {f : Database → Except StoreError α} :
    ((query name f).effect s).db = if s.outage s.calls name ≠ none then s.db else s.db :=
  db_effect_call

theorem db_effect_change {α : Type} {name : StoreCall} {f : Database → α × Database} :
    ((change name f).effect s).db = if s.outage s.calls name ≠ none then s.db else (f s.db).2 :=
  db_effect_call

/-- A database that only this library wrote into is opened as it was closed. -/
theorem reopen_of_legible (h : s.db.threads.Legible) : s.reopen = s := by
  unfold reopen
  rw [Database.decode_encode h]
  by_cases hfits : s.db.Fits
  · rw [if_pos hfits]
  · rw [if_neg hfits]

/-- What a use does to the database. -/
theorem db_use (h : s.db.threads.Legible) (u : StoreUse) :
    (s.use clock u).db = if s.Refuses u then s.db else u.change clock s.db := by
  cases u
  case reopen =>
    rw [if_neg (by simp [Refuses, StoreUse.call])]
    exact congrArg _ (reopen_of_legible h)
  all_goals
    simp only [Refuses, StoreUse.call, Option.mem_some_iff, exists_eq_left']
    first | exact db_effect_query | exact db_effect_change | exact db_effect_call

end Store

/-! ## What every run keeps -/

namespace ThreadTable

variable {t : ThreadTable}

theorem Legible.map_rows (h : t.Legible) {f : StoredThread → StoredThread}
    (hf : ∀ r, r.Legible → (f r).Legible) :
    ({ t with rows := t.rows.map f } : ThreadTable).Legible :=
  List.forall_mem_map.mpr fun r hr => hf r (h r hr)

/-- A row was there before a conversation was asked for, or it is the new one. -/
theorem mem_ensure {kind : ThreadKind} {peer : String} {hidden : Bool} {r : StoredThread}
    (hr : r ∈ (t.ensure kind peer hidden).rows) :
    r ∈ t.rows ∨ r = { id := t.lastId + 1, kind, peer, hidden, lastMessageAt := none,
                       state := .known .absent, expiresAt := none } := by
  unfold ThreadTable.ensure at hr
  split at hr
  · exact .inl hr
  · exact (List.mem_append.mp hr).imp_right List.mem_singleton.mp

theorem mem_ensure_of_mem {kind : ThreadKind} {peer : String} {hidden : Bool} {r : StoredThread}
    (hr : r ∈ t.rows) : r ∈ (t.ensure kind peer hidden).rows := by
  unfold ThreadTable.ensure
  split
  · exact hr
  · exact List.mem_append_left _ hr

theorem Legible.ensure (h : t.Legible) {kind : ThreadKind} {peer : String} {hidden : Bool} :
    (t.ensure kind peer hidden).Legible := by
  intro r hr
  rcases mem_ensure hr with hr | rfl
  · exact h r hr
  · exact ⟨.absent, rfl⟩

theorem Legible.hear (h : t.Legible) (g : GroupId) (now timestamp : Int64) :
    (t.hear g now timestamp).Legible :=
  h.ensure.map_rows fun r hr => by
    split <;> exact hr

end ThreadTable

/-- An envelope that is new joins the queue, and its group hears of it. -/
theorem enqueue_eq (clock : Clock) (e : InboundEnvelope) (jobs : JobTable)
    (threads : ThreadTable) :
    enqueue clock e jobs threads =
      if jobs.Holds e.serverHash then (none, jobs, threads)
      else (some ((jobs.lastId + 1 : Nat) : Int), jobs.push (Calendar.timestampText clock.wall) e,
        e.groupId.elim threads (threads.hear · clock.now e.timestamp)) := by
  unfold enqueue
  split
  · rfl
  · cases e.groupId <;> rfl

theorem StoreUse.legible_change {db : Database} (h : db.threads.Legible) (clock : Clock)
    (u : StoreUse) : (u.change clock db).threads.Legible := by
  cases u with
  | getOrCreateContactThread i hidden => exact h.ensure
  | getOrCreateGroupThread g => exact h.ensure
  | recordThreadActivity id timestamp =>
    refine h.map_rows fun r hr => ?_
    split <;> exact hr
  | writeHandshakeState i state expiresAt =>
    refine h.map_rows fun r hr => ?_
    split
    · exact ⟨state, rfl⟩
    · exact hr
  | enqueueInbound e =>
    show (enqueue clock e db.inbound db.threads).2.2.Legible
    rw [enqueue_eq]
    split
    · exact h
    · cases e.groupId with
      | none => exact h
      | some g => exact h.hear g _ _
  | _ => exact h

namespace Store

variable {s : Store} {clock : Clock} {outage : Outage}

theorem legible_use (h : s.db.threads.Legible) (clock : Clock) (u : StoreUse) :
    (s.use clock u).db.threads.Legible := by
  rw [db_use h]
  split
  · exact h
  · exact u.legible_change h clock

theorem legible_serve : ∀ (uses : List (Clock × StoreUse)) {s : Store}, s.db.threads.Legible →
    (s.serve uses).db.threads.Legible
  | [], _, h => h
  | (clock, u) :: uses, _, h => legible_serve uses (legible_use h clock u)

theorem legible_fresh : (fresh outage).db.threads.Legible :=
  nofun

/-- What holds between the stores before and after each use of a run holds between those before and
after the run. -/
theorem serve_lift {R : Store → Store → Prop} (hrefl : ∀ s, R s s)
    (htrans : ∀ {s s' s''}, R s s' → R s' s'' → R s s'') :
    ∀ (uses : List (Clock × StoreUse)) {s : Store}, s.db.threads.Legible →
      (∀ {s}, s.db.threads.Legible → ∀ p ∈ uses, R s (s.use p.1 p.2)) → R s (s.serve uses)
  | [], s, _, _ => hrefl s
  | (clock, u) :: uses, _, h, huse =>
    htrans (huse h (clock, u) (.head _))
      (serve_lift hrefl htrans uses (legible_use h clock u) fun hs p hp => huse hs p (.tail _ hp))

end Store

end Courier
