import Courier.Proofs.Polling.Loops

/-!
# What a poll keeps of a batch

A poll queues the messages of a batch that can be decoded, each with one call of the store, and
passes failing calls over. Then it moves the group's cursor past the whole batch.

* `queued_foldl`: a hash is queued by a batch exactly if one of the calls for it does not fail.
* `cursor_step_batch`: the cursor after a batch does not depend on what was queued.
* `System.batch_kept_iff`: so a batch is kept, for ever, exactly if each of its messages was queued
  before or comes with a call that does not fail. `System.batch_lost_to_failed_write` loses one.
-/

namespace Courier

/-! ## The queue -/

theorem JobTable.holds_push {t : JobTable} {enqueuedAt : String} {e : InboundEnvelope}
    {hash : String} :
    (t.push enqueuedAt e).Holds (some hash) ↔ t.Holds (some hash) ∨ e.serverHash = some hash := by
  unfold JobTable.Holds JobTable.push
  simp only [Option.isSome_some, true_and, List.mem_append, List.mem_singleton, or_and_right,
    exists_or, exists_eq_left]

theorem holds_enqueue {clock : Clock} {e : InboundEnvelope} {jobs : JobTable}
    {threads : ThreadTable} {hash : String} :
    (enqueue clock e jobs threads).2.1.Holds (some hash) ↔
      jobs.Holds (some hash) ∨ e.serverHash = some hash := by
  unfold enqueue
  split
  · next hheld => exact ⟨.inl, fun h => h.elim id fun he => he ▸ hheld⟩
  · cases e.groupId <;> exact JobTable.holds_push

namespace Store

variable {s : Store} {clock : Clock} {hash : String}

/-- A job with this hash is in the inbound queue. -/
def Queued (s : Store) (hash : String) : Prop :=
  s.db.inbound.Holds (some hash)

instance (s : Store) (hash : String) : Decidable (s.Queued hash) :=
  inferInstanceAs (Decidable (s.db.inbound.Holds _))

theorem Queued.of_fixes {s' : Store} (h : s.Queued hash) (hs : s.Fixes (·.inbound) s') :
    s'.Queued hash := by
  unfold Queued
  rw [show s'.db.inbound = s.db.inbound from hs.db]
  exact h

/-- One call for an envelope queues its hash, unless the call fails. -/
theorem queued_enqueueInbound (e : InboundEnvelope) :
    ((enqueueInbound clock e).effect s).Queued hash ↔
      s.Queued hash ∨ e.serverHash = some hash ∧ s.outage s.calls .enqueueInbound = none := by
  unfold Queued enqueueInbound
  rw [StoreM.effect_change]
  by_cases hfails : s.outage s.calls .enqueueInbound = none
  · simpa [hfails] using holds_enqueue
  · simp [hfails]

theorem effect_enqueueInbound (s : Store) (clock : Clock) (e : InboundEnvelope) :
    ((enqueueInbound clock e).effect s).calls = s.calls + 1 ∧
      ((enqueueInbound clock e).effect s).outage = s.outage := by
  unfold enqueueInbound
  rw [StoreM.effect_change]
  exact ⟨rfl, rfl⟩

end Store

/-! ## Batches -/

/-- The hashes of the messages that can be decoded, in their order. -/
def acceptedHashes (messages : List RawMessage) : List String :=
  (messages.filter (·.decode.isOk)).map (·.hash)

theorem serverHash_of_decode {m : RawMessage} {e : InboundEnvelope} (h : m.decode = .ok e) :
    e.serverHash = some m.hash := by
  unfold RawMessage.decode at h
  split at h
  · cases h
  · split at h
    · cases h
    · unfold InboundEnvelope.accept at h
      split at h
      · cases h
      · split at h <;> cases h
        rfl

/-- The messages of a batch queue a hash exactly if one of the calls for it does not fail. -/
theorem queued_foldl {clock : Clock} {group : GroupId} {hash : String}
    (messages : List RawMessage) (s : Store) :
    (messages.foldl (keepMessage clock group) s).Queued hash ↔
      s.Queued hash ∨ ∃ k, (acceptedHashes messages)[k]? = some hash ∧
        s.outage (s.calls + k) .enqueueInbound = none := by
  induction messages generalizing s with
  | nil => simp [acceptedHashes]
  | cons m messages ih =>
    rw [List.foldl_cons, ih]
    unfold keepMessage
    cases hm : m.decode with
    | error err =>
      have haccepted : acceptedHashes (m :: messages) = acceptedHashes messages := by
        unfold acceptedHashes
        rw [List.filter_cons_of_neg (by rw [hm]; exact Bool.false_ne_true)]
      rw [haccepted]
    | ok e =>
      have haccepted : acceptedHashes (m :: messages) = m.hash :: acceptedHashes messages := by
        unfold acceptedHashes
        rw [List.filter_cons_of_pos (by rw [hm]; rfl), List.map_cons]
      obtain ⟨hcalls, houtage⟩ :=
        s.effect_enqueueInbound clock { e with groupId := some group }
      -- the first call is the one for `m`, the later ones stand one place further on
      rw [haccepted, hcalls, houtage, Store.queued_enqueueInbound, serverHash_of_decode hm,
        Option.some_inj, or_assoc, ← Nat.or_exists_add_one (p := fun k =>
          (m.hash :: acceptedHashes messages)[k]? = some hash ∧ _)]
      simp only [List.getElem?_cons_zero, List.getElem?_cons_succ, Option.some_inj, Nat.add_zero,
        Nat.add_right_comm, Nat.add_assoc]

/-! ## Cursors -/

namespace PollTable

variable {t : PollTable} {group other : GroupId} {generation : Nat}

/-- What the next poll of a group passes to the swarm. -/
def cursor (t : PollTable) (group : GroupId) : Option String :=
  (t.entry? group).bind (·.state.cursor)

theorem entry?_updateState (f : PollState → PollState) :
    PollTable.entry? (t.updateState group generation f) other = (t.entry? other).map fun e =>
      if e.group = group ∧ e.generation = generation then { e with state := f e.state } else e := by
  unfold updateState entry?
  rw [List.find?_map]
  congr 2
  funext e
  simp only [Function.comp_apply]
  split <;> rfl

theorem cursor_updateState_of_keeps {f : PollState → PollState}
    (hf : ∀ state, (f state).cursor = state.cursor) :
    (t.updateState group generation f).cursor other = t.cursor other := by
  unfold cursor
  rw [entry?_updateState]
  cases t.entry? other with
  | none => rfl
  | some e =>
    show (if e.group = group ∧ e.generation = generation then _ else e).state.cursor = _
    split
    · exact hf e.state
    · rfl

end PollTable

namespace Node

variable {n : Node} {clock : Clock} {l : PollLoop} {batch : RawBatch}

/-- When a poll is over, the cursors stay. -/
theorem cursor_reschedule (group : GroupId) :
    (n.reschedule clock l).polls.cursor group = n.polls.cursor group := by
  have hpolls := nextDelay_polls n clock l.group
  unfold reschedule
  split
  · rfl
  · rcases hx : n.nextDelay clock l.group with ⟨_ | delay, n'⟩ <;> rw [hx] at hpolls <;>
      rw [← hpolls]
    · rfl
    · dsimp only
      split
      · exact PollTable.cursor_updateState_of_keeps
          (f := fun s => { s with deadline := some (clock.instant + delay.nanos) }) fun _ => rfl
      · rfl

/-- A batch moves the cursor of the group past its messages. -/
theorem cursor_absorb (hsound : n.polls.Sound) (hl : l ∈ n.polls.loops)
    (hc : l.cancelled = false) :
    (n.absorb clock l batch).polls.cursor l.group =
      batch.newestCursor.or (n.polls.cursor l.group) := by
  obtain ⟨e, he, hs⟩ := (hsound.owned l hl).mp hc
  have hentry : n.polls.entry? l.group = some e := hsound.entry?_eq_some.mpr ⟨he, hs.1.symm⟩
  unfold absorb PollTable.cursor
  dsimp only
  rw [(activityOf_talks l.group).polls, PollTable.entry?_updateState]
  show (((n.polls.entry? l.group).map _).bind _) = _
  rw [hentry, Option.map_some, if_pos ⟨hs.1.symm, hs.2.symm⟩]
  rfl

theorem fetched_batch (hl : n.polls.loop? l.generation = some l) (hc : l.cancelled = false) :
    n.fetched clock l.generation (.ok batch) = (n.absorb clock l batch).reschedule clock l := by
  unfold fetched
  rw [hl]
  dsimp only
  rw [hc, if_neg Bool.false_ne_true]

theorem received_batch (hl : n.polls.loop? l.generation = some l) (hc : l.cancelled = false) :
    n.received clock l.generation (.ok batch) = n.queue clock l.group batch := by
  unfold received
  rw [hl]
  dsimp only
  rw [hc, if_neg Bool.false_ne_true]

end Node

namespace System

variable {s : System} {x : Exchange} {e : Event} {l : PollLoop} {batch : RawBatch} {hash : String}

/-- A job with this hash is in the inbound queue. -/
def Queued (s : System) (hash : String) : Prop :=
  s.node.store.Queued hash

instance (s : System) (hash : String) : Decidable (s.Queued hash) :=
  inferInstanceAs (Decidable (s.node.store.Queued hash))

/-- The cursor after a batch, whatever was queued of it. -/
theorem cursor_step_batch (hsound : s.node.polls.Sound)
    (hl : s.node.polls.loop? l.generation = some l) (hc : l.cancelled = false) :
    (s.step x (.batch l.generation (.ok batch))).node.polls.cursor l.group =
      batch.newestCursor.or (s.node.polls.cursor l.group) := by
  show (s.node.fetched s.clock l.generation (.ok batch)).polls.cursor l.group = _
  rw [Node.fetched_batch hl hc, Node.cursor_reschedule,
    Node.cursor_absorb hsound (PollTable.mem_of_loop? hl).1 hc]

/-- What a batch leaves in the queue. -/
theorem queued_step_batch (hl : s.node.polls.loop? l.generation = some l)
    (hc : l.cancelled = false) :
    (s.step x (.batch l.generation (.ok batch))).Queued hash ↔
      s.Queued hash ∨ ∃ k, (acceptedHashes batch.messages)[k]? = some hash ∧
        s.node.store.outage (s.node.store.calls + k) .enqueueInbound = none := by
  have hkeeps : (s.node.fetched s.clock l.generation (.ok batch)).store.db.inbound =
      (s.node.received s.clock l.generation (.ok batch)).store.db.inbound :=
    (Node.fetched_keeps l.generation (.ok batch)).inbound
  rw [Node.received_batch hl hc] at hkeeps
  unfold Queued Store.Queued
  show (s.node.fetched s.clock l.generation (.ok batch)).store.db.inbound.Holds _ ↔ _
  rw [hkeeps]
  exact queued_foldl batch.messages s.node.store

/-- What is queued stays so. -/
theorem queued_step (h : s.Queued hash) (x : Exchange) (e : Event) :
    (s.step x e).Queued hash := by
  by_cases hr : e = .restart
  · subst hr
    exact h
  · unfold Queued Store.Queued
    rw [(step_keeps hr).inbound]
    refine s.prepared_cases e (P := fun n => n.store.Queued hash) h (fun work => ?_)
      (fun generation a => ?_) ?_
    · exact h.of_fixes (work.apply_fixes (fun _ _ => rfl) _ _ _)
    · unfold Node.received
      split
      · split
        · exact h
        · exact (queued_foldl _ _).mpr (.inl h)
      · exact h
    · exact h.of_fixes (s.node.loadLinks_fixes _)

theorem queued_run (h : s.Queued hash) (events : List (Exchange × Event)) :
    (s.run events).Queued hash :=
  run_invariant (P := fun s => s.Queued hash) (fun _ x e h => queued_step h x e) h events

/-- When a loop that is not cancelled takes a batch, in any state that a run reaches, the group's
cursor moves past it; and each message that can be decoded is queued then and in every later state,
exactly if each of them was queued before or comes with a call of the store that does not fail. -/
theorem batch_kept_iff (settings : Settings) (store : Store) (clock : Clock)
    (events : List (Exchange × Event)) :
    let s := (idle (.assemble settings store) clock).run events
    ∀ l, s.node.polls.loop? l.generation = some l → l.cancelled = false → ∀ x batch,
      let s' := s.step x (.batch l.generation (.ok batch))
      s'.node.polls.cursor l.group = batch.newestCursor.or (s.node.polls.cursor l.group) ∧
        ((∀ hash ∈ acceptedHashes batch.messages, ∀ later, (s'.run later).Queued hash) ↔
          ∀ hash ∈ acceptedHashes batch.messages, s.Queued hash ∨
            ∃ k, (acceptedHashes batch.messages)[k]? = some hash ∧
              store.outage (s.node.store.calls + k) .enqueueInbound = none) := by
  intro s l hl hc x batch s'
  refine ⟨cursor_step_batch (sound_run sound_idle events) hl hc, ?_⟩
  have houtage : s.node.store.outage = store.outage := outage_run _ events
  refine forall₂_congr fun hash _ => ?_
  rw [← houtage, ← queued_step_batch (x := x) hl hc]
  exact ⟨fun h => h [], fun h later => queued_run h later⟩

/-- A message of a batch, and a store whose calls all succeed: it stays queued. -/
theorem batch_kept_by_reliable_store :
    let start := idle (.assemble Config.default.settings (.reliable .empty)) ⟨0, 0⟩
    let node : SwarmNode := ⟨"n", 1, none⟩
    let message : RawMessage :=
      ⟨"h1", (⟨1, "alice", none, 0, [1], none⟩ : InboundEnvelope).encode, none⟩
    let s := start.run [(.quiet, .startPolling "g"), (.quiet, .run 0),
      (.quiet, .nodes 0 0 (.ok [node])), (.quiet, .grant 0),
      (.quiet, .batch 0 (.ok ⟨[message], none⟩))]
    s.node.polls.cursor "g" = some "h1" ∧ ∀ later, (s.run later).Queued "h1" := by
  intro start node message s
  obtain ⟨hcursor, hkept⟩ := batch_kept_iff Config.default.settings (.reliable .empty) ⟨0, 0⟩
    [(.quiet, .startPolling "g"), (.quiet, .run 0), (.quiet, .nodes 0 0 (.ok [node])),
      (.quiet, .grant 0)]
    ⟨0, "g", false, .fetching node none⟩ (by decide +kernel) rfl .quiet ⟨[message], none⟩
  have haccepted : acceptedHashes [message] = ["h1"] := by decide +kernel
  refine ⟨hcursor, hkept.mpr ?_ "h1" (by simp [haccepted])⟩
  intro hash hmem
  obtain rfl : hash = "h1" := by simpa [haccepted] using hmem
  exact .inr ⟨0, by simp [haccepted], rfl⟩

/-- The call for a message fails, and the cursor moves past it all the same: the next poll asks for
what comes after it. -/
theorem batch_lost_to_failed_write :
    let failing : Store :=
      ⟨.empty, 0, fun k c => if k = 0 ∧ c = .enqueueInbound then some .mistyped else none⟩
    let start := idle (.assemble Config.default.settings failing) ⟨0, 0⟩
    let node : SwarmNode := ⟨"n", 1, none⟩
    let message : RawMessage :=
      ⟨"h1", (⟨1, "alice", none, 0, [1], none⟩ : InboundEnvelope).encode, none⟩
    let s := start.run [(.quiet, .startPolling "g"), (.quiet, .run 0),
      (.quiet, .nodes 0 0 (.ok [node])), (.quiet, .grant 0),
      (.quiet, .batch 0 (.ok ⟨[message], none⟩))]
    message.decode.isOk ∧ s.node.polls.cursor "g" = some "h1" ∧ ¬ s.Queued "h1" ∧
      ((s.run [(.quiet, .wake 0), (.quiet, .nodes 0 0 (.ok [node])),
        (.quiet, .grant 0)]).node.polls.loop? 0).map (·.phase) =
          some (.fetching node (some "h1")) := by
  decide +kernel

end System

end Courier
