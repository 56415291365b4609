import Courier.Proofs.Polling.Queue
import Courier.Proofs.Store.Threads

/-!
# What a poll can do

The payloads of a batch are what a stranger wrote. Each that can be decoded is offered to the store
under the polled group (`Store.offer`); the store refuses it if the call fails or the hash is queued
already (`Store.accepts_iff`).

* `Store.db_foldl_offer`: a batch leaves the database that comes of taking its accepted messages
  (`Database.withArrival`), one after the other.
* `foldl_withArrival_jobs`, `foldl_withArrival_hears`, `foldl_withArrival_rest`: what that does to
  the queue, to the conversations and to the rest. It gives no id twice and keeps the ids of
  conversations (`foldl_withArrival_numbered`, `foldl_withArrival_idOf`).
* `System.poll_confined`: so a poll adds jobs of its own group, touches the conversation of this
  group, and changes nothing else.
-/

namespace Courier

theorem of_accept {e e' : InboundEnvelope} {hash : String} (h : e.accept hash = .ok e') :
    e'.version = 1 ∧ e'.source ≠ "" := by
  unfold InboundEnvelope.accept at h
  split at h
  · cases h
  · next hversion =>
    split at h
    · cases h
    · next hsource =>
      cases h
      simp only [envelopeVersionMin, envelopeVersionMax, not_or, UInt16.not_lt] at hversion
      exact ⟨UInt16.le_antisymm hversion.2 hversion.1, hsource⟩

/-- What a message is decoded to, whatever its payload claims. -/
theorem of_decode {m : RawMessage} {e : InboundEnvelope} (h : m.decode = .ok e) :
    e.version = 1 ∧ e.source ≠ "" := by
  unfold RawMessage.decode at h
  split at h
  · cases h
  · split at h
    · cases h
    · exact of_accept h

/-! ## One message -/

/-- The database with one more message: its envelope is queued, and activity noted for its group. -/
def Database.withArrival (clock : Clock) (db : Database) (a : Arrival) : Database :=
  { db with
    inbound := db.inbound.push (Calendar.timestampText clock.wall) a.queued
    threads := db.threads.hear a.group clock.now a.envelope.timestamp }

namespace Store

variable {s : Store} {clock : Clock} {a : Arrival}

/-- A message is offered to the store. -/
def offer (clock : Clock) (s : Store) (a : Arrival) : Store :=
  (enqueueInbound clock a.queued).effect s

/-- The store accepts the message: its answer is the id of a new job. -/
def accepts (s : Store) (clock : Clock) (a : Arrival) : Bool :=
  match ((enqueueInbound clock a.queued).attempt s).1 with
  | .ok (some _) => true
  | _ => false

theorem enqueue_queued (clock : Clock) (a : Arrival) (jobs : JobTable) (threads : ThreadTable) :
    enqueue clock a.queued jobs threads =
      if jobs.Holds (some a.message.hash) then (none, jobs, threads)
      else
        let queued := jobs.push (Calendar.timestampText clock.wall) a.queued
        (some (queued.lastId : Int), queued,
          threads.hear a.group clock.now a.envelope.timestamp) := by
  unfold enqueue
  rw [a.serverHash_queued]
  rfl

/-- The store accepts what is not queued yet, unless the call fails. -/
theorem accepts_iff :
    s.accepts clock a = true ↔
      s.outage s.calls .enqueueInbound = none ∧ ¬ s.Queued a.message.hash := by
  unfold accepts enqueueInbound change Queued
  rw [StoreM.attempt_call]
  cases s.outage s.calls .enqueueInbound with
  | some e => simp
  | none =>
    dsimp only
    rw [enqueue_queued]
    by_cases h : s.db.inbound.Holds (some a.message.hash) <;> simp [h]

theorem db_offer :
    (s.offer clock a).db = if s.accepts clock a then s.db.withArrival clock a else s.db := by
  have haccepts : s.accepts clock a = true ↔ _ := accepts_iff
  unfold offer enqueueInbound
  rw [StoreM.effect_change]
  dsimp only
  rw [enqueue_queued]
  by_cases houtage : s.outage s.calls .enqueueInbound = none
  · by_cases hqueued : s.db.inbound.Holds (some a.message.hash)
    · rw [if_pos houtage, if_pos hqueued, if_neg fun h => (haccepts.mp h).2 hqueued]
    · rw [if_pos houtage, if_neg hqueued, if_pos (haccepts.mpr ⟨houtage, hqueued⟩)]
      rfl
  · rw [if_neg houtage, if_neg fun h => houtage (haccepts.mp h).1]

/-! ## A batch -/

/-- The messages that the store accepts when they are offered one after the other. -/
def accepted (clock : Clock) : Store → List Arrival → List Arrival
  | _, [] => []
  | s, a :: as =>
    if s.accepts clock a then a :: accepted clock (s.offer clock a) as
    else accepted clock (s.offer clock a) as

theorem mem_of_mem_accepted {as : List Arrival} (h : a ∈ accepted clock s as) : a ∈ as := by
  induction as generalizing s with
  | nil => cases h
  | cons b as ih =>
    unfold accepted at h
    split at h
    · rcases List.mem_cons.mp h with rfl | h
      · exact .head _
      · exact .tail _ (ih h)
    · exact .tail _ (ih h)

/-- What is refused leaves no trace. -/
theorem db_foldl_offer (as : List Arrival) (s : Store) :
    (as.foldl (offer clock) s).db =
      (accepted clock s as).foldl (Database.withArrival clock) s.db := by
  induction as generalizing s with
  | nil => rfl
  | cons a as ih =>
    rw [List.foldl_cons, ih, db_offer, accepted]
    split <;> rfl

end Store

section Batches

variable {clock : Clock} {group g : GroupId} {db : Database} {as : List Arrival}

/-- The messages of a batch that can be decoded are offered, the others passed over. -/
theorem foldl_keepMessage (messages : List RawMessage) (s : Store) :
    messages.foldl (keepMessage clock group) s =
      (arrivals group messages).foldl (Store.offer clock) s := by
  induction messages generalizing s with
  | nil => rfl
  | cons m messages ih =>
    rw [List.foldl_cons, ih]
    cases hm : m.decode with
    | error e => rw [arrivals_cons_of_error hm, keepMessage_of_error hm]
    | ok e =>
      rw [arrivals_cons_of_ok hm, keepMessage_of_ok hm]
      rfl

theorem mem_arrivals {messages : List RawMessage} {a : Arrival} (h : a ∈ arrivals group messages) :
    a.group = group ∧ a.message ∈ messages := by
  induction messages with
  | nil => cases h
  | cons m messages ih =>
    cases hm : m.decode with
    | error e =>
      rw [arrivals_cons_of_error hm] at h
      exact ⟨(ih h).1, .tail _ (ih h).2⟩
    | ok e =>
      rw [arrivals_cons_of_ok hm] at h
      rcases List.mem_cons.mp h with rfl | h
      · exact ⟨rfl, .head _⟩
      · exact ⟨(ih h).1, .tail _ (ih h).2⟩

/-- The job holds the envelope of the message, under the hash that the swarm gave it. -/
def Arrival.KeptIn (a : Arrival) (j : StoredJob) : Prop :=
  j.serverHash = some a.message.hash ∧ j.text = a.queued.encode

/-- One job more for each message, in their order. -/
theorem foldl_withArrival_jobs (clock : Clock) (as : List Arrival) (db : Database) :
    ∃ new, (as.foldl (Database.withArrival clock) db).inbound.jobs = db.inbound.jobs ++ new ∧
      List.Forall₂ Arrival.KeptIn as new := by
  induction as generalizing db with
  | nil => exact ⟨[], (List.append_nil _).symm, .nil⟩
  | cons a as ih =>
    obtain ⟨new, hjobs, hkeeps⟩ := ih (db.withArrival clock a)
    let job : StoredJob :=
      { id := (db.inbound.lastId + 1 : Nat), serverHash := a.queued.serverHash,
        text := a.queued.encode, enqueuedAt := Calendar.timestampText clock.wall }
    refine ⟨job :: new, ?_, .cons ⟨a.serverHash_queued, rfl⟩ hkeeps⟩
    rw [List.foldl_cons, hjobs]
    exact List.append_assoc db.inbound.jobs [job] new

theorem foldl_withArrival_hears (h : ∀ a ∈ as, a.group = group) :
    db.threads.Hears group (as.foldl (Database.withArrival clock) db).threads := by
  refine List.foldlRecOn (motive := fun db' : Database => db.threads.Hears group db'.threads) as _ (.refl _)
    fun db' hbefore a ha => ?_
  have hone : db'.threads.Hears group (db'.withArrival clock a).threads :=
    h a ha ▸ ThreadTable.hears_hear clock.now a.envelope.timestamp
  exact hbefore.trans hone

theorem foldl_withArrival_numbered (as : List Arrival) (h : db.threads.Numbered) :
    (as.foldl (Database.withArrival clock) db).threads.Numbered :=
  List.foldlRecOn (motive := fun db' : Database => db'.threads.Numbered) as _ h
    fun _ h a _ => h.hear clock.now a.envelope.timestamp

theorem foldl_withArrival_idOf {kind : ThreadKind} {peer : String} {id : Int} (as : List Arrival)
    (h : db.threads.idOf kind peer = some id) :
    (as.foldl (Database.withArrival clock) db).threads.idOf kind peer = some id :=
  List.foldlRecOn (motive := fun db' : Database => db'.threads.idOf kind peer = some id) as _ h
    fun _ h a _ => ThreadTable.idOf_hear h clock.now a.envelope.timestamp

/-- The links, the profiles and the flag stay. -/
theorem foldl_withArrival_rest (clock : Clock) (as : List Arrival) (db : Database) :
    let db' := as.foldl (Database.withArrival clock) db
    db'.links = db.links ∧ db'.profiles = db.profiles ∧ db'.unlinked = db.unlinked := by
  induction as generalizing db with
  | nil => exact ⟨rfl, rfl, rfl⟩
  | cons a as ih => exact ih (db.withArrival clock a)

end Batches

/-! ## A poll -/

namespace Node

variable {n : Node} {clock : Clock} {l : PollLoop} {generation : Nat} {answer : BatchAnswer}
  {g : GroupId}

theorem received_store :
    (n.received clock generation answer).store =
      (n.brings generation answer).foldl (Store.offer clock) n.store := by
  unfold received brings
  rcases n.polls.loop? generation with _ | l
  · rfl
  · rcases answer with e | batch
    · rfl
    · dsimp only
      split
      · rfl
      · exact foldl_keepMessage batch.messages n.store

/-- Once the messages are offered, a poll only reads the store. -/
theorem fetched_fixes {β : Type} (f : Database → β) :
    (n.received clock generation answer).store.Fixes f
      (n.fetched clock generation answer).store := by
  unfold fetched received
  cases n.polls.loop? generation with
  | none => exact StoreM.fixes_refl _
  | some l =>
    cases answer with
    | error e => exact reschedule_fixes f l
    | ok batch =>
      dsimp only
      split
      · exact reschedule_fixes f l
      · have habsorb : (n.queue clock l.group batch).store.Fixes f (n.absorb clock l batch).store :=
          (n.queue clock l.group batch).activityOf_fixes f l.group
        exact StoreM.fixes_trans habsorb (reschedule_fixes f l)

/-- The messages that the store accepts when a batch reaches a loop. -/
def accepted (n : Node) (clock : Clock) (generation : Nat) (answer : BatchAnswer) : List Arrival :=
  n.store.accepted clock (n.brings generation answer)

/-- A batch adds what the store accepts, and changes the database in no other way. -/
theorem db_fetched_eq :
    (n.fetched clock generation answer).store.db =
      (n.accepted clock generation answer).foldl (Database.withArrival clock) n.store.db := by
  have hreads : (n.fetched clock generation answer).store.db =
      (n.received clock generation answer).store.db := (fetched_fixes id).db
  rw [hreads, received_store, Store.db_foldl_offer]
  rfl

/-- What is accepted comes from the batch, for the group of its loop. -/
theorem mem_accepted {a : Arrival} (hl : n.polls.loop? generation = some l)
    (ha : a ∈ n.accepted clock generation answer) :
    a.group = l.group ∧ ∃ batch, answer = .ok batch ∧ a.message ∈ batch.messages := by
  have hbrought : a ∈ n.brings generation answer := Store.mem_of_mem_accepted ha
  unfold brings at hbrought
  rw [hl] at hbrought
  rcases answer with e | batch
  · cases hbrought
  · dsimp only at hbrought
    split at hbrought
    · cases hbrought
    · obtain ⟨hgroup, hmem⟩ := mem_arrivals hbrought
      exact ⟨hgroup, batch, rfl, hmem⟩

/-- Between two states of a node lies a piece of the poll of a loop: apart from the store, it may
have changed what is known about the polling of this group, this loop, and the spawned tasks. -/
structure Polls (n : Node) (l : PollLoop) (n' : Node) : Prop where
  settings : n'.settings = n.settings
  links : n'.links = n.links
  session : n'.session = n.session
  journal : n'.journal = n.journal
  entries : ∀ g, g ≠ l.group → n'.polls.entry? g = n.polls.entry? g
  loops : ∀ generation, generation ≠ l.generation →
    n'.polls.loop? generation = n.polls.loop? generation

theorem Polls.refl (n : Node) : n.Polls l n :=
  ⟨rfl, rfl, rfl, rfl, fun _ _ => rfl, fun _ _ => rfl⟩

theorem Polls.trans {n' n'' : Node} (h : n.Polls l n') (h' : n'.Polls l n'') : n.Polls l n'' where
  settings := h'.settings.trans h.settings
  links := h'.links.trans h.links
  session := h'.session.trans h.session
  journal := h'.journal.trans h.journal
  entries g hg := (h'.entries g hg).trans (h.entries g hg)
  loops generation hne := (h'.loops generation hne).trans (h.loops generation hne)

theorem polls_attempt {α : Type} (y : StoreM α) : n.Polls l (n.attempt y).2 :=
  ⟨rfl, rfl, rfl, rfl, fun _ _ => rfl, fun _ _ => rfl⟩

theorem polls_activityOf (g : GroupId) : n.Polls l (n.activityOf g).2 := by
  have h := polls_attempt (n := n) (l := l) (Store.groupLastMessageAt g)
  unfold activityOf
  rcases hx : n.attempt (Store.groupLastMessageAt g) with ⟨_ | _, n'⟩ <;> rw [hx] at h <;> exact h

theorem polls_updateState (f : PollState → PollState) :
    n.Polls l { n with polls := n.polls.updateState l.group l.generation f } := by
  refine ⟨rfl, rfl, rfl, rfl, fun g hg => ?_, fun _ _ => rfl⟩
  rw [PollTable.entry?_updateState]
  cases he : n.polls.entry? g with
  | none => rfl
  | some e =>
    have hgroup : e.group = g := by simpa using List.find?_some he
    rw [Option.map_some, if_neg fun h => hg (hgroup ▸ h.1)]

theorem polls_setPhase (phase : LoopPhase) :
    n.Polls l { n with polls := n.polls.setPhase l.generation phase } := by
  refine ⟨rfl, rfl, rfl, rfl, fun _ _ => rfl, fun generation hne => ?_⟩
  show (n.polls.loops.map _).find? _ = n.polls.loops.find? _
  rw [List.find?_map]
  have hkey : (fun l' : PollLoop => decide (l'.generation = generation)) ∘ (fun l' =>
      if l'.generation = l.generation then { l' with phase } else l') =
        fun l' => decide (l'.generation = generation) := by
    funext l'
    simp only [Function.comp]
    split <;> rfl
  rw [hkey]
  cases hl' : n.polls.loops.find? (·.generation = generation) with
  | none => rfl
  | some l' =>
    have hgeneration : l'.generation = generation := by simpa using List.find?_some hl'
    rw [Option.map_some, if_neg fun h => hne (hgeneration ▸ h)]

theorem polls_endLoop : n.Polls l { n with polls := n.polls.endLoop l.generation } := by
  refine ⟨rfl, rfl, rfl, rfl, fun _ _ => rfl, fun generation hne => ?_⟩
  show (n.polls.loops.filter _).find? _ = n.polls.loops.find? _
  rw [List.find?_filter]
  congr 1
  funext l'
  by_cases h : l'.generation = generation
  · simp [h, hne]
  · simp [h]

theorem polls_reschedule : n.Polls l (n.reschedule clock l) := by
  have hread := polls_activityOf (n := n) (l := l) l.group
  unfold reschedule
  split
  · exact polls_endLoop
  · rcases hx : n.nextDelay clock l.group with ⟨_ | delay, n'⟩ <;>
      obtain rfl : (n.activityOf l.group).2 = n' := congrArg Prod.snd hx
    · exact hread.trans polls_endLoop
    · dsimp only
      split
      · exact hread.trans ((polls_updateState _).trans (polls_setPhase _))
      · exact hread.trans polls_endLoop

theorem polls_absorb (batch : RawBatch) : n.Polls l (n.absorb clock l batch) := by
  have hqueue : n.Polls l (n.queue clock l.group batch) :=
    ⟨rfl, rfl, rfl, rfl, fun _ _ => rfl, fun _ _ => rfl⟩
  exact hqueue.trans ((polls_activityOf l.group).trans (polls_updateState _))

theorem polls_fetched (hl : n.polls.loop? l.generation = some l) :
    n.Polls l (n.fetched clock l.generation answer) := by
  unfold fetched
  rw [hl]
  rcases answer with e | batch
  · exact polls_reschedule
  · dsimp only
    split
    · exact polls_reschedule
    · exact (polls_absorb batch).trans polls_reschedule

theorem polls_lookedUp (hl : n.polls.loop? l.generation = some l) (pick : Nat)
    (nodes : NodesAnswer) : n.Polls l (n.lookedUp clock l.generation pick nodes) := by
  unfold lookedUp
  rw [hl]
  rcases nodes with e | nodes
  · exact polls_reschedule
  · dsimp only
    split
    · exact polls_reschedule
    · split
      · exact polls_reschedule
      · exact polls_setPhase _

theorem polls_granted (hl : n.polls.loop? l.generation = some l) :
    n.Polls l (n.granted l.generation) := by
  unfold granted
  rw [hl]
  dsimp only
  split
  · exact polls_setPhase _
  · exact .refl n

theorem polls_wakeLoop (hl : n.polls.loop? l.generation = some l) :
    n.Polls l (n.wakeLoop l.generation) := by
  unfold wakeLoop
  rw [hl]
  dsimp only
  split
  · exact polls_endLoop
  · exact polls_setPhase _

/-- The swarm's nodes are looked up and the loop goes on: the store is only read. -/
theorem lookedUp_fixes {β : Type} (f : Database → β) (pick : Nat) (nodes : NodesAnswer) :
    n.store.Fixes f (n.lookedUp clock generation pick nodes).store := by
  unfold lookedUp
  split
  · exact StoreM.fixes_refl _
  · split
    · exact reschedule_fixes f _
    · split
      · exact reschedule_fixes f _
      · split
        · exact reschedule_fixes f _
        · exact StoreM.fixes_refl _

theorem wakeLoop_store : (n.wakeLoop generation).store = n.store := by
  unfold wakeLoop
  split
  · rfl
  · split <;> rfl

theorem granted_store : (n.granted generation).store = n.store := by
  rw [granted_eq]

end Node

namespace System

variable {s : System} {x : Exchange} {e : Event} {l : PollLoop}

/-- The event is a piece of the poll that a loop makes: it starts or wakes, the swarm names its
nodes, the loop gets the lock of the table, or a node sends messages. -/
inductive PollsBy (s : System) (l : PollLoop) : Event → Prop where
  | run (i : Nat) (h : s.node.spawned[i]? = some (.poll l.generation)) : PollsBy s l (.run i)
  | wake : PollsBy s l (.wake l.generation)
  | nodes (pick : Nat) (a : NodesAnswer) : PollsBy s l (.nodes l.generation pick a)
  | grant : PollsBy s l (.grant l.generation)
  | batch (a : BatchAnswer) : PollsBy s l (.batch l.generation a)

theorem polls_step (hl : s.node.polls.loop? l.generation = some l) (he : s.PollsBy l e) :
    s.node.Polls l (s.step x e).node := by
  cases he with
  | run i h =>
    have hrun : (s.step x (.run i)).node =
        { s.node with spawned := s.node.spawned.eraseIdx i }.wakeLoop l.generation := by
      show s.node.runAt i = _
      unfold Node.runAt
      rw [h]
      rfl
    rw [hrun]
    have hgone : s.node.Polls l { s.node with spawned := s.node.spawned.eraseIdx i } :=
      ⟨rfl, rfl, rfl, rfl, fun _ _ => rfl, fun _ _ => rfl⟩
    exact hgone.trans (Node.polls_wakeLoop hl)
  | wake => exact Node.polls_wakeLoop hl
  | nodes pick a => exact Node.polls_lookedUp hl pick a
  | grant => exact Node.polls_granted hl
  | batch a => exact Node.polls_fetched hl

/-- What the store accepts with an event; only a batch brings anything. -/
def accepted (s : System) : Event → List Arrival
  | .batch generation a => s.node.accepted s.clock generation a
  | _ => []

/-- A poll adds what is accepted, and changes the database in no other way. -/
theorem db_poll (he : s.PollsBy l e) :
    (s.step x e).node.store.db =
      (s.accepted e).foldl (Database.withArrival s.clock) s.node.store.db := by
  cases he with
  | run i h =>
    show (s.node.runAt i).store.db = s.node.store.db
    unfold Node.runAt
    rw [h]
    exact congrArg Store.db Node.wakeLoop_store
  | wake => exact congrArg Store.db Node.wakeLoop_store
  | nodes pick a => exact (Node.lookedUp_fixes id pick a).db
  | grant => exact congrArg Store.db Node.granted_store
  | batch a => exact Node.db_fetched_eq

/-- A poll of a group, in any state of a node and with any calls of the store failing, whatever the
payloads of the batch claim:

* the jobs that were queued stay as they were, and each job that it adds holds an envelope of this
  group, with a source and of version 1, under the hash that the swarm gave to a message of the
  batch;
* of the conversations it changes only that of the group, which may be new and may have had
  activity; links, profiles and the flag stay;
* nothing else of the node changes but what is known about the polling of this group, and this
  loop. -/
theorem poll_confined (s : System) (x : Exchange) {e : Event} {l : PollLoop}
    (hl : s.node.polls.loop? l.generation = some l) (he : s.PollsBy l e) :
    let s' := s.step x e
    (∃ new, s'.node.store.db.inbound.jobs = s.node.store.db.inbound.jobs ++ new ∧
      ∀ j ∈ new, ∃ batch, e = .batch l.generation (.ok batch) ∧ ∃ m ∈ batch.messages,
        ∃ envelope, InboundEnvelope.ofText? j.text = some envelope ∧
          j.serverHash = some m.hash ∧ envelope.serverHash = some m.hash ∧
          envelope.groupId = some l.group ∧ envelope.version = 1 ∧ envelope.source ≠ "") ∧
      s.node.store.db.threads.Hears l.group s'.node.store.db.threads ∧
      s'.node.store.db.links = s.node.store.db.links ∧
      s'.node.store.db.profiles = s.node.store.db.profiles ∧
      s'.node.store.db.unlinked = s.node.store.db.unlinked ∧
      s.node.Polls l s'.node := by
  intro s'
  have hdb : s'.node.store.db = _ := db_poll he
  have horigin : ∀ a ∈ s.accepted e, a.group = l.group ∧
      ∃ batch, e = .batch l.generation (.ok batch) ∧ a.message ∈ batch.messages := by
    intro a ha
    cases he with
    | batch answer =>
      obtain ⟨hgroup, batch, rfl, hmem⟩ := Node.mem_accepted hl ha
      exact ⟨hgroup, batch, rfl, hmem⟩
    | _ => cases ha
  obtain ⟨new, hjobs, hkeeps⟩ :=
    foldl_withArrival_jobs s.clock (s.accepted e) s.node.store.db
  obtain ⟨hlinks, hprofiles, hunlinked⟩ :=
    foldl_withArrival_rest s.clock (s.accepted e) s.node.store.db
  rw [← hdb] at hjobs hlinks hprofiles hunlinked
  refine ⟨⟨new, hjobs, fun j hj => ?_⟩, ?_, hlinks, hprofiles, hunlinked, polls_step hl he⟩
  · obtain ⟨a, ha, hhash, htext⟩ := exists_of_forall₂ hkeeps j hj
    obtain ⟨hgroup, batch, hbatch, hmem⟩ := horigin a ha
    obtain ⟨hversion, hsource⟩ := of_decode a.decoded
    refine ⟨batch, hbatch, a.message, hmem, a.queued, ?_, hhash, a.serverHash_queued,
      congrArg some hgroup, hversion, hsource⟩
    rw [htext, InboundEnvelope.ofText?_encode]
  · rw [hdb]
    exact foldl_withArrival_hears fun a ha => (horigin a ha).1

/-- A message that names another group, another hash and a date to come. -/
theorem poll_confined_of_forged_payload :
    let start := idle (.assemble Config.default.settings (.reliable .empty)) ⟨0, 0⟩
    let node : SwarmNode := ⟨"n", 1, none⟩
    let forged : InboundEnvelope := ⟨1, "mallory", some "other", 9, [1], some "h9"⟩
    let s := start.run [(.quiet, .startPolling "g"), (.quiet, .run 0),
      (.quiet, .nodes 0 0 (.ok [node])), (.quiet, .grant 0)]
    let l : PollLoop := ⟨0, "g", false, .fetching node none⟩
    let e : Event := .batch 0 (.ok ⟨[⟨"h1", forged.encode, none⟩], none⟩)
    s.node.polls.loop? l.generation = some l ∧ s.PollsBy l e ∧
      (s.accepted e).map (·.queued) = [⟨1, "mallory", some "g", 9, [1], some "h1"⟩] ∧
      s.node.store.db.threads.Hears "g" (s.step .quiet e).node.store.db.threads := by
  intro start node forged s l e
  have hl : s.node.polls.loop? l.generation = some l := by decide +kernel
  have he : s.PollsBy l e := .batch _
  obtain ⟨-, hhears, -⟩ := poll_confined s .quiet hl he
  exact ⟨hl, he, by decide +kernel, hhears⟩

end System

end Courier
