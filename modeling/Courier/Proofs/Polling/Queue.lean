import Courier.Proofs.Link.Agreement
import Courier.Proofs.Polling.Batches
import Courier.Proofs.Wire.Envelope

/-!
# What the polls queue

A swarm sends the same messages again and again: a cursor is lost in a restart, batches overlap,
another node of the swarm has another order. With a store that does not fail the queue shows none of
this.

* `Arrival`: a message of a processed batch that can be decoded. `System.arrived` lists those of a run.
* `JobTable.Records`: the queue holds a job for the first arrival of each hash. Each arrival keeps it
  (`Records.enqueued`), so each event does (`System.records_step`).
* `System.queue_holds_first_arrivals`: what the queue gives out after any run, and that a batch of
  queued hashes changes nothing in the store.
-/

namespace Courier

/-- A message that was polled for a group and can be decoded. -/
structure Arrival where
  group : GroupId
  message : RawMessage
  /-- What the message is decoded to. -/
  envelope : InboundEnvelope
  decoded : message.decode = .ok envelope

namespace Arrival

/-- The envelope as it is queued: it belongs to the polled group, whatever it claims. -/
def queued (a : Arrival) : InboundEnvelope :=
  { a.envelope with groupId := some a.group }

theorem serverHash_queued (a : Arrival) : a.queued.serverHash = some a.message.hash := by
  have h : a.envelope.serverHash = some a.message.hash := serverHash_of_decode a.decoded
  exact h

end Arrival

/-- What the messages of a batch bring. -/
def arrivals (group : GroupId) (messages : List RawMessage) : List Arrival :=
  messages.filterMap fun m =>
    match h : m.decode with
    | .ok e => some ⟨group, m, e, h⟩
    | .error _ => none

theorem arrivals_cons_of_error {group : GroupId} {m : RawMessage} {messages : List RawMessage}
    {e : ProtocolError} (h : m.decode = .error e) :
    arrivals group (m :: messages) = arrivals group messages := by
  unfold arrivals
  rw [List.filterMap_cons_none]
  split
  · next heq => rw [h] at heq; cases heq
  · rfl

theorem arrivals_cons_of_ok {group : GroupId} {m : RawMessage} {messages : List RawMessage}
    {e : InboundEnvelope} (h : m.decode = .ok e) :
    arrivals group (m :: messages) = ⟨group, m, e, h⟩ :: arrivals group messages := by
  unfold arrivals
  rw [List.filterMap_cons_some]
  split
  · next heq =>
    rw [h] at heq
    cases heq
    rfl
  · next heq => rw [h] at heq; cases heq

/-! ## The queue -/

namespace JobTable

/-- The queue holds, for the hashes in the order in which they came first, one job each under rising
ids, and its text is that of the first arrival with this hash. -/
structure Records (t : JobTable) (as : List Arrival) : Prop where
  hashes : t.jobs.map (·.serverHash) = ((as.map (·.message.hash)).eraseDups).map some
  first : ∀ j ∈ t.jobs, ∃ a, as.find? (fun a => some a.message.hash = j.serverHash) = some a ∧
    j.text = a.queued.encode
  rising : t.jobs.Pairwise (·.id < ·.id)
  bounded : ∀ j ∈ t.jobs, j.id ≤ t.lastId

variable {t : JobTable} {as : List Arrival} {a : Arrival}

theorem records_empty : empty.Records [] :=
  ⟨rfl, nofun, .nil, nofun⟩

theorem Records.holds_iff (h : t.Records as) {hash : String} :
    t.Holds (some hash) ↔ hash ∈ as.map (·.message.hash) := by
  have hmem : (some hash ∈ t.jobs.map (·.serverHash)) ↔ hash ∈ as.map (·.message.hash) := by
    rw [h.hashes]
    simp
  rw [← hmem]
  simp [Holds, List.mem_map]

/-- A repeated arrival is none that the queue has to hold. -/
theorem Records.again (h : t.Records as) (ha : a.message.hash ∈ as.map (·.message.hash)) :
    t.Records (as ++ [a]) := by
  refine ⟨?_, fun j hj => ?_, h.rising, h.bounded⟩
  · rw [List.map_append, List.map_singleton, eraseDups_concat, if_pos ha]
    exact h.hashes
  · obtain ⟨a', hfind, htext⟩ := h.first j hj
    exact ⟨a', by rw [List.find?_append, hfind, Option.some_or], htext⟩

theorem Records.push (h : t.Records as) (ha : a.message.hash ∉ as.map (·.message.hash))
    (enqueuedAt : String) : (t.push enqueuedAt a.queued).Records (as ++ [a]) := by
  refine ⟨?_, fun j hj => ?_, ?_, fun j hj => ?_⟩
  · rw [List.map_append, List.map_singleton, eraseDups_concat, if_neg ha]
    simp [JobTable.push, h.hashes, a.serverHash_queued]
  · rcases List.mem_append.mp hj with hj | hj
    · obtain ⟨a', hfind, htext⟩ := h.first j hj
      exact ⟨a', by rw [List.find?_append, hfind, Option.some_or], htext⟩
    · obtain rfl := List.mem_singleton.mp hj
      refine ⟨a, ?_, rfl⟩
      have hnone : as.find? (fun a' => some a'.message.hash = a.queued.serverHash) = none := by
        rw [List.find?_eq_none, a.serverHash_queued]
        intro a' ha' heq
        have heq : a'.message.hash = a.message.hash := by simpa using heq
        exact ha (heq ▸ List.mem_map_of_mem ha')
      rw [List.find?_append, hnone, Option.none_or]
      simp [a.serverHash_queued]
  · refine List.pairwise_append.mpr ⟨h.rising, List.pairwise_singleton _ _, fun j hj j' hj' => ?_⟩
    obtain rfl := List.mem_singleton.mp hj'
    have := h.bounded j hj
    show j.id < ((t.lastId + 1 : Nat) : Int)
    omega
  · show j.id ≤ ((t.lastId + 1 : Nat) : Int)
    rcases List.mem_append.mp hj with hj | hj
    · have := h.bounded j hj
      omega
    · obtain rfl := List.mem_singleton.mp hj
      exact le_rfl

/-- One arrival. -/
theorem Records.enqueued (h : t.Records as) (a : Arrival) (clock : Clock) (threads : ThreadTable) :
    (enqueue clock a.queued t threads).2.1.Records (as ++ [a]) := by
  unfold enqueue
  rw [a.serverHash_queued]
  split
  · next hheld => exact h.again (h.holds_iff.mp hheld)
  · next hnew => exact h.push (fun ha => hnew (h.holds_iff.mpr ha)) _

/-- What the queue gives out: every job can be read, and is the first arrival of its hash. -/
theorem Records.read (h : t.Records as) :
    ∃ jobs, (∀ limit, jobs.length ≤ limit → t.first limit = .ok jobs) ∧
      jobs.map (·.envelope.serverHash) = ((as.map (·.message.hash)).eraseDups).map some ∧
      jobs.Pairwise (·.id < ·.id) ∧
      ∀ job ∈ jobs, ∃ a, as.find? (fun a => some a.message.hash = job.envelope.serverHash) = some a ∧
        job.envelope = a.queued := by
  have hread : ∀ j ∈ t.jobs, ∃ job : InboundJob, j.read = .ok job ∧ job.id = j.id ∧
      job.envelope.serverHash = j.serverHash ∧
      ∃ a, as.find? (fun a => some a.message.hash = j.serverHash) = some a ∧
        job.envelope = a.queued := by
    intro j hj
    obtain ⟨a, hfind, htext⟩ := h.first j hj
    have hhash : a.queued.serverHash = j.serverHash := by
      rw [a.serverHash_queued]
      simpa using List.find?_some hfind
    refine ⟨⟨j.id, a.queued, j.enqueuedAt⟩, ?_, rfl, hhash, a, hfind, rfl⟩
    unfold StoredJob.read
    rw [htext, InboundEnvelope.ofText?_encode]
  have : Nonempty InboundJob := ⟨⟨0, ⟨0, "", none, 0, [], none⟩, ""⟩⟩
  choose! jobOf hok hid hhash hfirst using hread
  refine ⟨t.jobs.map jobOf, fun limit hlimit => ?_, ?_, ?_, fun job hjob => ?_⟩
  · rw [List.length_map] at hlimit
    unfold JobTable.first
    rw [List.take_of_length_le hlimit]
    exact mapM_eq_ok_map hok
  · rw [List.map_map, ← h.hashes]
    exact List.map_congr_left hhash
  · refine List.pairwise_map.mpr (h.rising.imp_of_mem fun hj hj' hlt => ?_)
    rw [hid _ hj, hid _ hj']
    exact hlt
  · obtain ⟨j, hj, rfl⟩ := List.mem_map.mp hjob
    rw [hhash j hj]
    exact hfirst j hj

end JobTable

/-! ## Batches -/

section Batches

variable {s : Store} {as : List Arrival} {clock : Clock} {group : GroupId}

theorem keepMessage_of_error {m : RawMessage} {e : ProtocolError} (h : m.decode = .error e) :
    keepMessage clock group s m = s := by
  unfold keepMessage
  rw [h]

theorem keepMessage_of_ok {m : RawMessage} {e : InboundEnvelope} (h : m.decode = .ok e) :
    keepMessage clock group s m =
      (Store.enqueueInbound clock (Arrival.queued ⟨group, m, e, h⟩)).effect s := by
  unfold keepMessage
  rw [h]
  rfl

theorem Store.Reliable.effect_enqueueInbound (h : s.Reliable) (clock : Clock)
    (e : InboundEnvelope) : ((Store.enqueueInbound clock e).effect s).Reliable := by
  intro k call
  rw [(s.effect_enqueueInbound clock e).2]
  exact h k call

/-- The messages of a batch, one after the other. -/
theorem records_foldl (messages : List RawMessage) (hrel : s.Reliable)
    (h : s.db.inbound.Records as) :
    (messages.foldl (keepMessage clock group) s).db.inbound.Records
      (as ++ arrivals group messages) := by
  induction messages generalizing s as with
  | nil => simpa [arrivals] using h
  | cons m messages ih =>
    rw [List.foldl_cons]
    cases hm : m.decode with
    | error e =>
      rw [arrivals_cons_of_error hm, keepMessage_of_error hm]
      exact ih hrel h
    | ok e =>
      rw [arrivals_cons_of_ok hm, List.append_cons, keepMessage_of_ok hm]
      refine ih (hrel.effect_enqueueInbound clock _) ?_
      unfold Store.enqueueInbound
      rw [StoreM.effect_change, if_pos (hrel _ _)]
      exact h.enqueued ⟨group, m, e, hm⟩ clock s.db.threads

/-- An envelope whose hash is queued changes no table. -/
theorem db_enqueueInbound_of_queued {e : InboundEnvelope} (h : s.db.inbound.Holds e.serverHash) :
    ((Store.enqueueInbound clock e).effect s).db = s.db := by
  unfold Store.enqueueInbound
  rw [StoreM.effect_change]
  dsimp only
  split
  · unfold enqueue
    rw [if_pos h]
  · rfl

/-- Nor do the messages of a batch all of whose hashes are queued. -/
theorem db_foldl_of_queued (messages : List RawMessage)
    (h : ∀ a ∈ arrivals group messages, s.Queued a.message.hash) :
    (messages.foldl (keepMessage clock group) s).db = s.db := by
  induction messages generalizing s with
  | nil => rfl
  | cons m messages ih =>
    rw [List.foldl_cons]
    cases hm : m.decode with
    | error e =>
      rw [arrivals_cons_of_error hm] at h
      rw [keepMessage_of_error hm]
      exact ih h
    | ok e =>
      rw [arrivals_cons_of_ok hm] at h
      rw [keepMessage_of_ok hm]
      have hdb : ((Store.enqueueInbound clock (Arrival.queued ⟨group, m, e, hm⟩)).effect s).db =
          s.db := by
        refine db_enqueueInbound_of_queued ?_
        rw [Arrival.serverHash_queued]
        exact h _ (.head _)
      refine (ih fun a ha => ?_).trans hdb
      unfold Store.Queued
      rw [hdb]
      exact h a (.tail _ ha)

end Batches

namespace Node

variable {n : Node} {clock : Clock} {β : Type}

theorem activityOf_fixes (f : Database → β) (group : GroupId) :
    n.store.Fixes f (n.activityOf group).2.store := by
  have h : (Store.groupLastMessageAt group).Fixes f := StoreM.fixes_query _ _
  have hs := h n.store
  unfold activityOf attempt
  rcases hx : (Store.groupLastMessageAt group).attempt n.store with ⟨_ | _, s⟩ <;> rw [hx] at hs <;>
    exact hs

/-- The end of a poll only reads the store. -/
theorem reschedule_fixes (f : Database → β) (l : PollLoop) :
    n.store.Fixes f (n.reschedule clock l).store := by
  have h := n.activityOf_fixes f l.group
  unfold reschedule
  split
  · exact StoreM.fixes_refl _
  · rcases hx : n.nextDelay clock l.group with ⟨_ | delay, n'⟩ <;>
      obtain rfl : (n.activityOf l.group).2 = n' := congrArg Prod.snd hx
    · exact h
    · dsimp only
      split <;> exact h

/-- A batch changes the store by queueing its messages, and in no other way. -/
theorem db_fetched {l : PollLoop} (hl : n.polls.loop? l.generation = some l)
    (hc : l.cancelled = false) (batch : RawBatch) :
    (n.fetched clock l.generation (.ok batch)).store.db =
      (batch.messages.foldl (keepMessage clock l.group) n.store).db := by
  rw [fetched_batch hl hc]
  have habsorb : (n.absorb clock l batch).store.db = (n.queue clock l.group batch).store.db :=
    ((n.queue clock l.group batch).activityOf_fixes id l.group).db
  exact ((n.absorb clock l batch).reschedule_fixes id l).db.trans habsorb

/-- What the messages that reach a loop bring, unless it was cancelled. -/
def brings (n : Node) (generation : Nat) (answer : BatchAnswer) : List Arrival :=
  match n.polls.loop? generation, answer with
  | some l, .ok batch => if l.cancelled then [] else arrivals l.group batch.messages
  | _, _ => []

theorem records_received {as : List Arrival} {generation : Nat} {answer : BatchAnswer}
    (hrel : n.store.Reliable) (h : n.store.db.inbound.Records as) :
    (n.received clock generation answer).store.db.inbound.Records
      (as ++ n.brings generation answer) := by
  unfold received brings
  rcases n.polls.loop? generation with _ | l
  · simpa using h
  · rcases answer with e | batch
    · simpa using h
    · dsimp only
      split
      · simpa using h
      · exact records_foldl batch.messages hrel h

end Node

namespace System

variable {s : System} {x : Exchange} {e : Event} {as : List Arrival}

/-- What an event brings: only a batch brings anything. -/
def brings (s : System) : Event → List Arrival
  | .batch generation a => s.node.brings generation a
  | _ => []

/-- What a run brings, in the order in which it comes. -/
def arrived : System → List (Exchange × Event) → List Arrival
  | _, [] => []
  | s, (x, e) :: events => s.brings e ++ arrived (s.step x e) events

/-- Only a batch changes the queue. -/
theorem inbound_step (hb : ∀ generation a, e ≠ .batch generation a) :
    (s.step x e).node.store.db.inbound = s.node.store.db.inbound := by
  by_cases hr : e = .restart
  · subst hr
    rfl
  rw [(step_keeps hr).inbound]
  cases e
  case batch generation a => exact absurd rfl (hb generation a)
  case load => exact (s.node.loadLinks_fixes (·.inbound)).db
  case start => exact (s.node.loadLinks_fixes (·.inbound)).db
  case answer id a =>
    unfold prepared
    cases s.linkWork (.answer id a) with
    | none => rfl
    | some work =>
      exact (work.apply_fixes (f := (·.inbound)) (fun _ _ => rfl) _ _ _).db
  all_goals rfl

theorem records_step (hrel : s.node.store.Reliable) (h : s.node.store.db.inbound.Records as) :
    (s.step x e).node.store.db.inbound.Records (as ++ s.brings e) := by
  by_cases hb : ∃ generation a, e = .batch generation a
  · obtain ⟨generation, a, rfl⟩ := hb
    rw [(step_keeps (e := .batch generation a) nofun).inbound]
    exact Node.records_received hrel h
  · have hb (generation a) (he : e = .batch generation a) : False := hb ⟨generation, a, he⟩
    have hnone : s.brings e = [] := by
      unfold brings
      split
      · exact (hb _ _ rfl).elim
      · rfl
    rw [inbound_step hb, hnone, List.append_nil]
    exact h

theorem records_run (hrel : s.node.store.Reliable) (h : s.node.store.db.inbound.Records as)
    (events : List (Exchange × Event)) :
    (s.run events).node.store.db.inbound.Records (as ++ s.arrived events) := by
  induction events generalizing s as with
  | nil =>
    rw [arrived, List.append_nil]
    exact h
  | cons p events ih =>
    have := ih (reliable_step hrel p.1 p.2) (records_step (x := p.1) (e := p.2) hrel h)
    rwa [List.append_assoc] at this

/-- For every run of a node over a store that does not fail and has nothing queued at first, with any
starts, stops and restarts and any batches: the queue gives out one job for each distinct hash among
the messages of the processed batches that can be decoded, in the order in which the hashes came
first and with rising ids. The envelope of a job is what the first message of its hash decodes to,
under the group that was polled for it. A batch all of whose hashes are queued changes no table. -/
theorem queue_holds_first_arrivals (settings : Settings) (db : Database) (clock : Clock)
    (events : List (Exchange × Event)) (hdb : db.inbound = .empty) :
    let start := idle (.assemble settings (.reliable db)) clock
    let s := start.run events
    (∃ jobs,
      (∀ limit, jobs.length ≤ limit →
        ((Store.pendingInbound limit).attempt s.node.store).1 = .ok jobs) ∧
      jobs.map (·.envelope.serverHash) =
        (((start.arrived events).map (·.message.hash)).eraseDups).map some ∧
      jobs.Pairwise (·.id < ·.id) ∧
      ∀ job ∈ jobs, ∃ a,
        (start.arrived events).find? (fun a => some a.message.hash = job.envelope.serverHash) =
          some a ∧
        job.envelope = { a.envelope with groupId := some a.group }) ∧
    ∀ l x batch, s.node.polls.loop? l.generation = some l → l.cancelled = false →
      (∀ a ∈ arrivals l.group batch.messages, s.Queued a.message.hash) →
      (s.step x (.batch l.generation (.ok batch))).node.store.db = s.node.store.db := by
  intro start s
  have hstart : start.node.store.db.inbound.Records [] := by
    rw [show start.node.store.db.inbound = .empty from hdb]
    exact JobTable.records_empty
  have hrel : s.node.store.Reliable := fun k call => by
    rw [outage_run]
    rfl
  have hrecords : s.node.store.db.inbound.Records (start.arrived events) :=
    records_run (fun _ _ => rfl) hstart events
  obtain ⟨jobs, hfirst, hhashes, hrising, harrival⟩ := hrecords.read
  refine ⟨⟨jobs, fun limit hlimit => ?_, hhashes, hrising, harrival⟩, fun l x batch hl hc hq => ?_⟩
  · unfold Store.pendingInbound Store.query
    rw [StoreM.attempt_call, hrel]
    simp only [hfirst limit hlimit]
  · exact (Node.db_fetched hl hc batch).trans (db_foldl_of_queued batch.messages hq)

/-- A poll of "g" in which the swarm sends some messages. -/
def polled (messages : List RawMessage) : List (Exchange × Event) :=
  [(.quiet, .startPolling "g"), (.quiet, .run 0), (.quiet, .nodes 0 0 (.ok [⟨"n", 1, none⟩])),
    (.quiet, .grant 0), (.quiet, .batch 0 (.ok ⟨messages, none⟩))]

/-- The message with a hash that the swarm sends; its envelope names another group. -/
def foreign (hash : String) : RawMessage :=
  ⟨hash, (⟨1, "alice", some "other", 0, [1], none⟩ : InboundEnvelope).encode, none⟩

/-- A message comes twice, then one that cannot be decoded, then another. -/
theorem queue_holds_first_of_repeated :
    let start := idle (.assemble Config.default.settings (.reliable .empty)) ⟨0, 0⟩
    let s := start.run (polled [foreign "h1", foreign "h1", ⟨"bad", [], none⟩, foreign "h2"])
    ∃ jobs, (∀ limit, jobs.length ≤ limit →
        ((Store.pendingInbound limit).attempt s.node.store).1 = .ok jobs) ∧
      jobs.map (·.envelope.serverHash) = [some "h1", some "h2"] := by
  intro start s
  obtain ⟨⟨jobs, hfirst, hhashes, -⟩, -⟩ := queue_holds_first_arrivals Config.default.settings
    .empty ⟨0, 0⟩ (polled [foreign "h1", foreign "h1", ⟨"bad", [], none⟩, foreign "h2"]) rfl
  refine ⟨jobs, hfirst, hhashes.trans ?_⟩
  decide +kernel

/-- The envelope of a job is not simply what its message decodes to: the message names another group
than the one that was polled for it, and the job belongs to the polled one. -/
theorem queued_under_polled_group :
    let s := (idle (.assemble Config.default.settings (.reliable .empty)) ⟨0, 0⟩).run
      (polled [foreign "h1"])
    (foreign "h1").decode.toOption = some ⟨1, "alice", some "other", 0, [1], some "h1"⟩ ∧
      (((Store.pendingInbound 1).attempt s.node.store).1.toOption.map fun jobs =>
        jobs.map (·.envelope)) = some [⟨1, "alice", some "g", 0, [1], some "h1"⟩] := by
  decide +kernel

end System

end Courier
