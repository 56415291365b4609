import Courier.Proofs.Wire.Link
import Courier.Proofs.Wire.Row
import Courier.Store.Snapshot

/-!
# Opening a database again

`Database.decode_encode`: the text of a database that only this library wrote into
(`ThreadTable.Legible`) is read as that database, unless an id has outgrown its column
(`Database.Fits`); then it cannot be read at all. Either way nothing else is ever read from it.
-/

namespace Courier

open Json

namespace Json

/-- A list is read back if all of its items are. -/
theorem list?_array_eq {α : Type} {f : Json → Option α} {g : α → Json} {p : α → Prop}
    [DecidablePred p] {as : List α} (h : ∀ a ∈ as, f (g a) = if p a then some a else none) :
    list? f (.array (as.map g)) = if ∀ a ∈ as, p a then some as else none := by
  show (as.map g).mapM f = _
  induction as with
  | nil => rfl
  | cons a as ih =>
    rw [List.map_cons, List.mapM_cons, h a (.head _), ih fun b hb => h b (.tail _ hb)]
    by_cases ha : p a
    · by_cases has : ∀ b ∈ as, p b
      · rw [if_pos ha, if_pos has, if_pos (List.forall_mem_cons.mpr ⟨ha, has⟩)]
        rfl
      · rw [if_pos ha, if_neg has, if_neg fun hall => has (List.forall_mem_cons.mp hall).2]
        rfl
    · rw [if_neg ha, if_neg fun hall => ha (List.forall_mem_cons.mp hall).1]
      rfl

end Json

/-! ## Rows -/

namespace StoredThread

/-- The state of the row is one of those that this library writes. -/
def Legible (t : StoredThread) : Prop :=
  ∃ s, t.state = .known s

theorem ofText_text {t : StoredThread} (h : t.Legible) :
    StoredState.ofText t.state.text = t.state := by
  obtain ⟨s, hs⟩ := h
  unfold StoredState.ofText
  rw [hs, StoredState.text, HandshakeState.parse?_text]

theorem proper_toJson (t : StoredThread) : Proper t.toJson := by
  refine proper_ofFields fun p hp => ?_
  simp only [List.mem_cons, List.not_mem_nil, or_false] at hp
  rcases hp with rfl | rfl | rfl | rfl | rfl | rfl | rfl
  · exact proper_ofInt _
  · exact proper_ofText _
  · exact proper_ofText _
  · exact .bool _
  · exact proper_ofOption (fun _ => proper_ofInt _) _
  · exact proper_ofText _
  · exact proper_ofOption (fun _ => proper_ofInt _) _

theorem ofJson?_toJson {t : StoredThread} (h : t.Legible) :
    ofJson? t.toJson = if IsRowId t.id then some t else none := by
  have hnodup : ["id", "kind", "peer", "hidden", "last_message_at", "handshake_state",
    "handshake_expires_at"].Nodup := by decide
  unfold ofJson? toJson
  rw [record?_ofFields hnodup rfl]
  by_cases hid : IsRowId t.id <;>
    simp [Record.required, Record.optional, List.lookup_cons, rowId?_ofInt, hid, bool?,
      ofText_text h]

end StoredThread

namespace StoredJob

theorem proper_toJson (j : StoredJob) : Proper j.toJson := by
  refine proper_ofFields fun p hp => ?_
  simp only [List.mem_cons, List.not_mem_nil, or_false] at hp
  rcases hp with rfl | rfl | rfl | rfl
  · exact proper_ofInt _
  · exact proper_ofOption proper_ofText _
  · exact proper_ofOctets _
  · exact proper_ofText _

theorem ofJson?_toJson (j : StoredJob) :
    ofJson? j.toJson = if IsRowId j.id then some j else none := by
  have hnodup : ["id", "server_hash", "text", "enqueued_at"].Nodup := by decide
  unfold ofJson? toJson
  rw [record?_ofFields hnodup rfl]
  by_cases hid : IsRowId j.id <;>
    simp [Record.required, Record.optional, List.lookup_cons, rowId?_ofInt, hid]

end StoredJob

/-! ## The whole -/

/-- Every conversation is in a state that this library writes. -/
def ThreadTable.Legible (t : ThreadTable) : Prop :=
  ∀ r ∈ t.rows, r.Legible

namespace Database

theorem counter?_ofInt (n : Nat) :
    counter? (ofInt n) = if n < UInt64.size then some n else none := by
  unfold counter? uint64?
  rw [intWithin?_ofInt_eq]
  by_cases h : n < UInt64.size
  · rw [if_pos (by omega), if_pos h]
    simp [Nat.mod_eq_of_lt h]
  · rw [if_neg (by omega), if_neg h]
    rfl

/-- No id has outgrown its column. -/
structure Fits (db : Database) : Prop where
  threads : ∀ t ∈ db.threads.rows, IsRowId t.id
  lastThread : db.threads.lastId < UInt64.size
  jobs : ∀ j ∈ db.inbound.jobs, IsRowId j.id
  lastJob : db.inbound.lastId < UInt64.size

theorem fits_iff (db : Database) : db.Fits ↔
    (∀ t ∈ db.threads.rows, IsRowId t.id) ∧ db.threads.lastId < UInt64.size ∧
      (∀ j ∈ db.inbound.jobs, IsRowId j.id) ∧ db.inbound.lastId < UInt64.size :=
  ⟨fun ⟨a, b, c, d⟩ => ⟨a, b, c, d⟩, fun ⟨a, b, c, d⟩ => ⟨a, b, c, d⟩⟩

instance (db : Database) : Decidable db.Fits :=
  decidable_of_iff _ db.fits_iff.symm

theorem proper_toJson (db : Database) : Proper db.toJson := by
  refine proper_ofFields fun p hp => ?_
  simp only [List.mem_cons, List.not_mem_nil, or_false] at hp
  rcases hp with rfl | rfl | rfl | rfl | rfl | rfl | rfl | rfl
  · exact proper_ofInt _
  · exact .array (List.forall_mem_map.mpr fun t _ => t.proper_toJson)
  · exact proper_ofInt _
  · exact .array (List.forall_mem_map.mpr fun l _ => l.proper_toJson)
  · exact .array (List.forall_mem_map.mpr fun j _ => j.proper_toJson)
  · exact proper_ofInt _
  · exact .array (List.forall_mem_map.mpr fun p _ => p.proper_toJson)
  · exact .bool _

/-- The names of the fields of a database. -/
abbrev fieldNames : List String :=
  ["version", "threads", "last_thread", "links", "inbound", "last_inbound", "profiles", "unlinked"]

/-- The record of a database: its version, and the database if its ids fit their columns. -/
theorem record?_toJson {db : Database} (h : db.threads.Legible) :
    ∃ r, db.toJson.record? fieldNames = some r ∧
      r.required "version" rowId? = some (schemaVersion : Int) ∧
      ofRecord? r = if db.Fits then some db else none := by
  have hthreads := list?_array_eq fun t ht => StoredThread.ofJson?_toJson (h t ht)
  have hjobs := list?_array_eq fun j (_ : j ∈ db.inbound.jobs) => j.ofJson?_toJson
  have hlinks := list?_array DeviceLink.ofJson?_toJson db.links
  have hprofiles := list?_array ProfileRow.ofJson?_toJson db.profiles
  refine ⟨_, record?_ofFields (by decide) rfl, ?_, ?_⟩
  · rw [Record.required, List.lookup_cons_self, Option.bind_some, rowId?_ofInt, if_pos (by decide)]
  · simp only [ofRecord?, Record.required, List.lookup_cons, String.reduceBEq, Option.bind_some,
      hthreads, hjobs, hlinks, hprofiles, counter?_ofInt, fits_iff]
    split_ifs <;> simp_all [bool?]

/-- The text of a database is read as that database, or not at all. -/
theorem decode_encode {db : Database} (h : db.threads.Legible) :
    decode db.encode = if db.Fits then .ok db else .error .malformedText := by
  have hread : Json.read db.encode = some db.toJson := read_render db.proper_toJson
  obtain ⟨r, hrecord, hversion, hdb⟩ := record?_toJson h
  have hschema : checkSchema [schemaVersion] = .ok () := rfl
  unfold decode
  simp only [hread, hrecord, hversion, hschema, hdb]
  split_ifs <;> rfl

end Database

end Courier
