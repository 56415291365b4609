import Courier.Proofs.Store.Uses
import Courier.Proofs.Wire.Envelope

/-!
# Envelopes on the wire and in the queue

* `RawMessage.decode_encode`: what a payload that holds the text of an envelope is decoded to.
* `JobTable.Intact`: every job holds the text of an envelope, and ids rise along the queue. Uses of
  the store keep it so (`Store.intact_serve`) and only add jobs at the end (`Store.jobs_serve`).
* `envelopes_survive`: an envelope that was queued is listed under its id from then on.
-/

namespace Courier

/-! ## On the wire -/

/-- The version of the envelope is understood. -/
def InboundEnvelope.Supported (e : InboundEnvelope) : Prop :=
  envelopeVersionMin ≤ e.version ∧ e.version ≤ envelopeVersionMax

instance (e : InboundEnvelope) : Decidable e.Supported :=
  inferInstanceAs (Decidable (_ ∧ _))

theorem InboundEnvelope.accept_eq (e : InboundEnvelope) (hash : String) :
    e.accept hash =
      if ¬ e.Supported then .error (.unsupportedVersion e.version)
      else if e.source = "" then .error (.missingField "source")
      else .ok { e with serverHash := some hash } := by
  have hversion : (e.version < envelopeVersionMin ∨ envelopeVersionMax < e.version) ↔
      ¬ e.Supported := by
    rw [Supported, not_and_or, UInt16.not_le, UInt16.not_le]
  unfold accept
  simp only [hversion]

/-- The size is checked first, then the version, then the source; what passes is the envelope under
the hash of the message. -/
theorem RawMessage.decode_encode (e : InboundEnvelope) (hash : String)
    (expiration : Option Int64) :
    RawMessage.decode ⟨hash, e.encode, expiration⟩ =
      if currentEra.maxEnvelopeBytes < e.encode.length then
        .error (.payloadTooLarge e.encode.length)
      else if ¬ e.Supported then .error (.unsupportedVersion e.version)
      else if e.source = "" then .error (.missingField "source")
      else .ok { e with serverHash := some hash } := by
  unfold decode
  simp only [InboundEnvelope.ofText?_encode, InboundEnvelope.accept_eq]

/-! ## In the queue -/

/-- The text of an envelope is read as that envelope. -/
theorem StoredJob.read_of_text {j : StoredJob} {e : InboundEnvelope} (h : j.text = e.encode) :
    j.read = .ok { id := j.id, envelope := e, enqueuedAt := j.enqueuedAt } := by
  unfold read
  rw [h, InboundEnvelope.ofText?_encode]

namespace JobTable

variable {t : JobTable}

/-- Every job holds the text of an envelope, and ids rise along the queue up to the last one. -/
structure Intact (t : JobTable) : Prop where
  texts : ∀ j ∈ t.jobs, ∃ e : InboundEnvelope, j.text = e.encode
  rising : t.jobs.Pairwise (·.id < ·.id)
  bounded : ∀ j ∈ t.jobs, j.id ≤ t.lastId

theorem intact_empty : empty.Intact :=
  ⟨nofun, .nil, nofun⟩

theorem Intact.push (h : t.Intact) (enqueuedAt : String) (e : InboundEnvelope) :
    (t.push enqueuedAt e).Intact := by
  have hbelow : ∀ j ∈ t.jobs, j.id < t.lastId + 1 := fun j hj => by
    have := h.bounded j hj
    omega
  refine ⟨fun j hj => ?_, ?_, fun j hj => ?_⟩
  · rcases List.mem_append.mp hj with hj | hj
    · exact h.texts j hj
    · obtain rfl := List.mem_singleton.mp hj
      exact ⟨e, rfl⟩
  · refine List.pairwise_append.mpr ⟨h.rising, List.pairwise_singleton _ _, fun j hj k hk => ?_⟩
    obtain rfl := List.mem_singleton.mp hk
    exact hbelow j hj
  · show j.id ≤ ((t.lastId + 1 : Nat) : Int)
    rcases List.mem_append.mp hj with hj | hj
    · have := hbelow j hj
      omega
    · obtain rfl := List.mem_singleton.mp hj
      simp

theorem Intact.eq_of_id (h : t.Intact) {j k : StoredJob} (hj : j ∈ t.jobs) (hk : k ∈ t.jobs)
    (hid : j.id = k.id) : j = k := by
  have hdistinct : (t.jobs.map (·.id)).Nodup :=
    List.pairwise_map.mpr (h.rising.imp fun hlt => by omega)
  exact List.inj_on_of_nodup_map hdistinct hj hk hid

/-- The jobs at the head of an intact queue are all read. -/
theorem Intact.first (h : t.Intact) (limit : Nat) :
    ∃ jobs, t.first limit = .ok jobs ∧
      List.Forall₂ (fun j job => j.read = .ok job) (t.jobs.take limit) jobs :=
  exists_mapM_ok fun j hj => by
    obtain ⟨e, he⟩ := h.texts j (List.mem_of_mem_take hj)
    exact ⟨_, StoredJob.read_of_text he⟩

end JobTable

/-- A use leaves the queue alone or adds a job at its end. -/
theorem StoreUse.inbound_change (clock : Clock) (db : Database) (u : StoreUse) :
    (u.change clock db).inbound = db.inbound ∨
      ∃ enqueuedAt e, (u.change clock db).inbound = db.inbound.push enqueuedAt e := by
  cases u with
  | enqueueInbound e =>
    simp only [change, enqueue_eq]
    split
    · exact .inl rfl
    · exact .inr ⟨_, e, rfl⟩
  | _ => exact .inl rfl

namespace Store

variable {s : Store} {clock : Clock} {e : InboundEnvelope} {outage : Outage}

theorem inbound_use (h : s.db.threads.Legible) (clock : Clock) (u : StoreUse) :
    (s.use clock u).db.inbound = s.db.inbound ∨
      ∃ enqueuedAt e, (s.use clock u).db.inbound = s.db.inbound.push enqueuedAt e := by
  rw [db_use h]
  split
  · exact .inl rfl
  · exact u.inbound_change clock s.db

theorem intact_serve (uses : List (Clock × StoreUse)) (h : s.db.threads.Legible) :
    s.db.inbound.Intact → (s.serve uses).db.inbound.Intact := by
  refine serve_lift (R := fun s s' => s.db.inbound.Intact → s'.db.inbound.Intact)
    (fun _ => id) (fun h h' hi => h' (h hi)) uses h fun hs p _ hi => ?_
  rcases inbound_use hs p.1 p.2 with hsame | ⟨enqueuedAt, e, hpush⟩
  · rwa [hsame]
  · rw [hpush]
    exact hi.push enqueuedAt e

theorem jobs_serve (uses : List (Clock × StoreUse)) (h : s.db.threads.Legible) :
    s.db.inbound.jobs <+: (s.serve uses).db.inbound.jobs := by
  refine serve_lift (R := fun s s' => s.db.inbound.jobs <+: s'.db.inbound.jobs)
    (fun _ => List.prefix_rfl) List.IsPrefix.trans uses h fun hs p _ => ?_
  rcases inbound_use hs p.1 p.2 with hsame | ⟨enqueuedAt, e, hpush⟩
  · exact (congrArg JobTable.jobs hsame).symm ▸ List.prefix_rfl
  · rw [hpush]
    exact List.prefix_append _ _

/-- An envelope that was given an id stands at the end of the queue under that id. -/
theorem inbound_of_enqueued {id : Int}
    (h : ((enqueueInbound clock e).attempt s).1 = .ok (some id)) :
    (s.use clock (.enqueueInbound e)).db.inbound =
        s.db.inbound.push (Calendar.timestampText clock.wall) e ∧
      id = (s.db.inbound.lastId + 1 : Nat) := by
  show (StoreM.effect _ _).db.inbound = _ ∧ _
  unfold enqueueInbound change at h ⊢
  unfold StoreM.effect
  rw [StoreM.attempt_call] at h ⊢
  cases houtage : s.outage s.calls .enqueueInbound with
  | some error => simp [houtage] at h
  | none =>
    simp only [houtage, enqueue_eq] at h ⊢
    split at h <;> cases h
    next hnew =>
      rw [if_neg hnew]
      exact ⟨rfl, rfl⟩

/-- What is listed of an intact queue. -/
theorem pendingInbound_of_intact (h : s.db.inbound.Intact) {limit : Nat}
    (hcall : ¬ s.Refuses (.pendingInbound limit)) :
    ∃ jobs, ((pendingInbound limit).attempt s).1 = .ok jobs ∧
      List.Forall₂ (fun j job => j.read = .ok job) (s.db.inbound.jobs.take limit) jobs := by
  have hnone : s.outage s.calls .pendingInbound = none := by
    simpa [Refuses, StoreUse.call] using hcall
  obtain ⟨jobs, hfirst, hpairs⟩ := h.first limit
  refine ⟨jobs, ?_, hpairs⟩
  unfold pendingInbound query
  rw [StoreM.attempt_call, hnone]
  exact hfirst

end Store

theorem StoredJob.id_of_read {j : StoredJob} {job : InboundJob} (h : j.read = .ok job) :
    job.id = j.id := by
  unfold read at h
  split at h <;> cases h
  rfl

/-- For every envelope: what a payload that holds its text is decoded to, under any hash. And in
every state that a run of calls reaches from a new store, if the envelope is given an id, then it is
listed under that id, and nothing else is, whatever run comes later and by every call for more jobs
than were queued before it. -/
theorem envelopes_survive (e : InboundEnvelope) :
    (∀ hash expiration, RawMessage.decode ⟨hash, e.encode, expiration⟩ =
      if currentEra.maxEnvelopeBytes < e.encode.length then
        .error (.payloadTooLarge e.encode.length)
      else if ¬ e.Supported then .error (.unsupportedVersion e.version)
      else if e.source = "" then .error (.missingField "source")
      else .ok { e with serverHash := some hash }) ∧
    ∀ outage uses clock later limit id,
      let s := (Store.fresh outage).serve uses
      let t := (s.use clock (.enqueueInbound e)).serve later
      ((Store.enqueueInbound clock e).attempt s).1 = .ok (some id) →
      s.db.inbound.jobs.length < limit → ¬ t.Refuses (.pendingInbound limit) →
        ∃ jobs, ((Store.pendingInbound limit).attempt t).1 = .ok jobs ∧
          ∃ job ∈ jobs, job.id = id ∧ job.envelope = e ∧
            ∀ other ∈ jobs, other.id = id → other = job := by
  refine ⟨fun hash expiration => RawMessage.decode_encode e hash expiration, ?_⟩
  intro outage uses clock later limit id s t hqueued hlimit hcall
  have hlegible : s.db.threads.Legible := Store.legible_serve uses Store.legible_fresh
  have hlegible' := Store.legible_use hlegible clock (.enqueueInbound e)
  have hintact : s.db.inbound.Intact :=
    Store.intact_serve uses Store.legible_fresh JobTable.intact_empty
  obtain ⟨hpush, hid⟩ := Store.inbound_of_enqueued hqueued
  have hintact' : t.db.inbound.Intact := by
    refine Store.intact_serve later hlegible' ?_
    rw [hpush]
    exact hintact.push _ e
  obtain ⟨jobs, hjobs, hpairs⟩ := Store.pendingInbound_of_intact hintact' hcall
  -- the job stands where it was put, among the first `limit`
  obtain ⟨j, hj, hjid, htext⟩ : ∃ j ∈ t.db.inbound.jobs.take limit,
      j.id = id ∧ j.text = e.encode := by
    have hgrows := Store.jobs_serve later hlegible'
    rw [hpush] at hgrows
    have hlength :
        (s.db.inbound.push (Calendar.timestampText clock.wall) e).jobs.length ≤ limit := by
      rw [JobTable.push, List.length_append]
      exact hlimit
    have htake := List.prefix_take_iff.mpr ⟨hgrows, hlength⟩
    exact ⟨_, htake.subset (List.mem_append_right _ (.head _)), hid.symm, rfl⟩
  have hread : j.read = .ok ⟨j.id, e, j.enqueuedAt⟩ := StoredJob.read_of_text htext
  obtain ⟨job, hjob, hjobread⟩ := exists_of_forall₂ hpairs.flip j hj
  obtain rfl : job = ⟨j.id, e, j.enqueuedAt⟩ := Except.ok.inj (hjobread.symm.trans hread)
  refine ⟨jobs, hjobs, _, hjob, hjid, rfl, fun other hother hsame => ?_⟩
  -- whatever else has this id was read from the same job
  obtain ⟨k, hk, hotherread⟩ := exists_of_forall₂ hpairs other hother
  have hkid : k.id = j.id := by rw [← StoredJob.id_of_read hotherread, hsame, hjid]
  obtain rfl := hintact'.eq_of_id (List.mem_of_mem_take hk) (List.mem_of_mem_take hj) hkid
  exact Except.ok.inj (hotherread.symm.trans hread)

/-- An envelope with quotes, control characters and nothing in its content is queued and listed
after its hash has come again and the database was opened again. -/
theorem envelopes_survive_of_odd_texts :
    let e : InboundEnvelope := ⟨1, "a\x00\"\n\\é", some "", -5, [], some "h"⟩
    let clock : Clock := ⟨0, 0⟩
    let s := (Store.fresh fun _ _ => none).serve [(clock, .getOrCreateGroupThread "g")]
    let t := (s.use clock (.enqueueInbound e)).serve [(clock, .enqueueInbound e), (clock, .reopen)]
    ((Store.enqueueInbound clock e).attempt s).1 = .ok (some 1) ∧
      s.db.inbound.jobs.length < 1 ∧ ¬ t.Refuses (.pendingInbound 1) ∧
      ∃ jobs, ((Store.pendingInbound 1).attempt t).1 = .ok jobs ∧
        ∃ job ∈ jobs, job.id = 1 ∧ job.envelope = e := by
  intro e clock s t
  have hqueued : ((Store.enqueueInbound clock e).attempt s).1 = .ok (some 1) := by decide +kernel
  have hlimit : s.db.inbound.jobs.length < 1 := by decide +kernel
  have hcall : ¬ t.Refuses (.pendingInbound 1) := by decide +kernel
  obtain ⟨-, hqueue⟩ := envelopes_survive e
  obtain ⟨jobs, hjobs, job, hjob, hid, hsame, -⟩ :=
    hqueue (fun _ _ => none) [(clock, .getOrCreateGroupThread "g")] clock
      [(clock, .enqueueInbound e), (clock, .reopen)] 1 1 hqueued hlimit hcall
  exact ⟨hqueued, hlimit, hcall, jobs, hjobs, job, hjob, hid, hsame⟩

end Courier
