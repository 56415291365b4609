import Courier.Config.Basic
import Courier.Proofs.Node.Events
import Courier.Proofs.Polling.Table
import Courier.Proofs.Trust.InFlight

/-!
# One loop for each polled group

However starts and stops of groups, the answers of the swarm, timers and all other events follow one
another: each polled group has one loop that is not cancelled, and a loop that was stopped is dead.
Each guarantee has an exception.

* A loop that is not cancelled dies at the end of a poll, where there is no moment for the next one
  (`System.Overruns`). The first guarantee holds all through a run exactly if no event of it
  overruns (`System.oneLoop_run_iff`).
* A loop that is stopped while it waits for the lock of the table asks a node all the same when it
  gets the lock (`System.calls_iff`). The answer changes nothing (`System.silent_of_cancelled`).

`System.step_turn` says what an event does to the polled groups, and
`System.one_loop_and_stopped_dead_iff` when both guarantees hold.
-/

namespace Courier

open PollTable (Turn Move)

/-! ## Loops -/

/-- The node that `pick` counts out, if the swarm has named any. -/
def NodesAnswer.named (a : NodesAnswer) (pick : Nat) : Option SwarmNode :=
  a.toOption.bind fun nodes => nodes[pick % nodes.length]?

namespace Node

variable {n : Node} {clock : Clock} {l : PollLoop} {generation : Nat} {grants : Nat → Prop}

/-- There is no moment for the next poll of a group: the delay cannot be computed, or the monotonic
clock does not reach that far. -/
def Overruns (n : Node) (clock : Clock) (group : GroupId) : Prop :=
  ∀ delay, (n.nextDelay clock group).1 = some delay →
    latestDeadline ≤ clock.instant + delay.nanos

/-- The node when a poll of a loop is over. -/
def polled (n : Node) (clock : Clock) (l : PollLoop) : BatchAnswer → Node
  | .error _ => n
  | .ok batch => n.absorb clock l batch

theorem nextDelay_polls (n : Node) (clock : Clock) (group : GroupId) :
    (n.nextDelay clock group).2.polls = n.polls :=
  (activityOf_talks group).polls

theorem absorb_polls (n : Node) (clock : Clock) (l : PollLoop) (batch : RawBatch) :
    ∃ f, (n.absorb clock l batch).polls = n.polls.updateState l.group l.generation f := by
  unfold absorb
  dsimp only
  rw [(activityOf_talks l.group).polls]
  exact ⟨_, rfl⟩

/-- A poll is over: the loop sleeps, or it ends. -/
theorem reschedule_turn (hl : l ∈ n.polls.loops) :
    n.polls.Turn grants (l.cancelled = false ∧ n.Overruns clock l.group)
      (n.reschedule clock l).polls := by
  unfold reschedule
  cases hc : l.cancelled with
  | true => exact .move (by simp) (.ends l hl hc)
  | false =>
    have hpolls := nextDelay_polls n clock l.group
    simp only [Bool.false_eq_true, if_false, true_and]
    rcases hx : n.nextDelay clock l.group with ⟨_ | delay, n'⟩ <;> rw [hx] at hpolls <;>
      change n'.polls = _ at hpolls
    · have hover : n.Overruns clock l.group := fun d hd => by simp [hx] at hd
      dsimp only
      rw [hpolls]
      exact .dies hover .refl l hl hc
    · have hover : n.Overruns clock l.group ↔ latestDeadline ≤ clock.instant + delay.nanos := by
        simp [Overruns, hx]
      dsimp only
      split
      · next hlt =>
        rw [hpolls]
        exact .goes (by rw [hover]; omega) (PollTable.moves_updates_goesOn hl hc _ _)
      · next hge =>
        rw [hpolls]
        exact .dies (hover.mpr (by omega)) .refl l hl hc

theorem wakeLoop_turn (n : Node) (generation : Nat) {dies : Prop} (hd : ¬ dies) :
    n.polls.Turn grants dies (n.wakeLoop generation).polls := by
  unfold wakeLoop
  cases hl : n.polls.loop? generation with
  | none => exact .refl hd
  | some l =>
    obtain ⟨hm, rfl⟩ := PollTable.mem_of_loop? hl
    cases hc : l.cancelled with
    | true => simpa only [hc, if_true] using .move hd (.ends l hm hc)
    | false => simpa only [hc, Bool.false_eq_true, if_false] using .move hd (.goesOn l hm hc _)

theorem lookedUp_turn (pick : Nat) (answer : NodesAnswer) :
    n.polls.Turn grants
      (∃ l, n.polls.loop? generation = some l ∧ l.cancelled = false ∧ answer.named pick = none ∧
        n.Overruns clock l.group)
      (n.lookedUp clock generation pick answer).polls := by
  unfold lookedUp
  cases hl : n.polls.loop? generation with
  | none => exact .refl (by simp)
  | some l =>
    obtain ⟨hm, rfl⟩ := PollTable.mem_of_loop? hl
    have hturn : n.polls.Turn grants (l.cancelled = false ∧ n.Overruns clock l.group)
        (n.reschedule clock l).polls := reschedule_turn hm
    cases answer with
    | error e => exact hturn.congr (by simp [NodesAnswer.named, Except.toOption])
    | ok nodes =>
      dsimp only
      split
      · next hnone =>
        exact hturn.congr (by simp [NodesAnswer.named, Except.toOption, hnone])
      · next node hnode =>
        have hnamed : NodesAnswer.named (.ok nodes) pick = some node := hnode
        cases hc : l.cancelled with
        | true => exact hturn.congr (by simp [hc])
        | false =>
          simp only [Bool.false_eq_true, if_false]
          exact .move (by simp [hnamed]) (.goesOn l hm hc _)

theorem granted_turn (n : Node) (hgrants : grants generation) {dies : Prop} (hd : ¬ dies) :
    n.polls.Turn grants dies (n.granted generation).polls := by
  unfold granted
  cases hl : n.polls.loop? generation with
  | none => exact .refl hd
  | some l =>
    obtain ⟨hm, rfl⟩ := PollTable.mem_of_loop? hl
    dsimp only
    split
    · next node hp => exact .move hd (.asks l hm hgrants node hp _)
    · exact .refl hd

theorem fetched_turn (answer : BatchAnswer) :
    n.polls.Turn grants
      (∃ l, n.polls.loop? generation = some l ∧ l.cancelled = false ∧
        (n.polled clock l answer).Overruns clock l.group)
      (n.fetched clock generation answer).polls := by
  unfold fetched
  cases hl : n.polls.loop? generation with
  | none => exact .refl (by simp)
  | some l =>
    obtain ⟨hm, rfl⟩ := PollTable.mem_of_loop? hl
    cases answer with
    | error e => exact (reschedule_turn hm).congr (by simp [polled])
    | ok batch =>
      dsimp only
      cases hc : l.cancelled with
      | true =>
        rw [if_pos rfl]
        exact Turn.congr (reschedule_turn hm) (by simp [hc])
      | false =>
        rw [if_neg Bool.false_ne_true]
        obtain ⟨f, hf⟩ := absorb_polls n clock l batch
        have hm' : l ∈ (n.absorb clock l batch).polls.loops := hf ▸ hm
        have hup : n.polls.Move grants (n.absorb clock l batch).polls := hf ▸ .updates l hm hc f
        exact (Turn.after (.single hup) (reschedule_turn hm')).congr (by simp [hc, polled])

/-! ## Starting and stopping -/

theorem startPolling_turn (group : GroupId) {dies : Prop} (hd : ¬ dies) :
    n.polls.Turn grants dies (n.startPolling group).2.polls := by
  have hpolls : (n.startPolling group).2.polls = (n.polls.start group).2 := by
    unfold startPolling
    rcases n.polls.start group with ⟨_ | generation, polls⟩ <;> rfl
  rw [hpolls]
  exact .move hd (.start group)

theorem startCounted_foldl_moves :
    ∀ (groups : List GroupId) (acc : Nat × Node),
      Relation.ReflTransGen (Move grants) acc.2.polls (groups.foldl startCounted acc).2.polls
  | [], _ => .refl
  | group :: groups, (count, n) =>
    ((startPolling_turn (n := n) group not_false).moves not_false).trans
      (startCounted_foldl_moves groups (startCounted (count, n) group))

theorem startAllPolling_turn {dies : Prop} (hd : ¬ dies) :
    n.polls.Turn grants dies n.startAllPolling.2.polls := by
  have hpolls := (attempt_talks (n := n) (x := Store.listGroupThreads)
    (StoreM.fixes_query _ _)).polls
  unfold startAllPolling
  rcases hx : n.attempt Store.listGroupThreads with ⟨_ | rows, n'⟩ <;> rw [hx] at hpolls <;>
    rw [← hpolls]
  · exact .refl hd
  · exact .goes hd (startCounted_foldl_moves (rows.map (·.peer)) (0, n'))

theorem loadLinks_polls (n : Node) : n.loadLinks.2.polls = n.polls := by
  unfold loadLinks attempt
  rcases n.links.load.attempt n.store with ⟨_ | ⟨count, links⟩, s⟩ <;> rfl

theorem start_turn {dies : Prop} (hd : ¬ dies) :
    n.polls.Turn grants dies (n.start clock).2.polls := by
  have hload := loadLinks_polls n
  unfold start
  rcases hx : n.loadLinks with ⟨_ | _, n₁⟩ <;> rw [hx] at hload <;> rw [← hload]
  · exact .refl hd
  · have hsweep := (attempt_talks (n := n₁) (StoreM.keeps_expireStale clock.now)).polls
    dsimp only
    rcases hy : n₁.attempt (expireStale clock.now) with ⟨_ | _, n₂⟩ <;> rw [hy] at hsweep <;>
      rw [← hsweep]
    · exact .refl hd
    · have hpoll : n₂.polls.Turn grants dies n₂.startAllPolling.2.polls := startAllPolling_turn hd
      dsimp only at hpoll ⊢
      rcases hz : n₂.startAllPolling with ⟨_ | _, n₃⟩ <;> rw [hz] at hpoll <;> exact hpoll

/-! ## Cancelled loops -/

/-- The store and what is known about the groups are the same. -/
def Quiet (n n' : Node) : Prop :=
  n'.store = n.store ∧ n'.polls.entries = n.polls.entries

theorem reschedule_quiet (hc : l.cancelled = true) : n.Quiet (n.reschedule clock l) := by
  unfold reschedule
  rw [if_pos hc]
  exact ⟨rfl, rfl⟩

theorem granted_quiet (n : Node) (generation : Nat) : n.Quiet (n.granted generation) := by
  unfold granted
  split
  · exact ⟨rfl, rfl⟩
  · split <;> exact ⟨rfl, rfl⟩

section

variable (h : ∀ l, n.polls.loop? generation = some l → l.cancelled = true)

include h

theorem wakeLoop_quiet : n.Quiet (n.wakeLoop generation) := by
  unfold wakeLoop
  cases hl : n.polls.loop? generation with
  | none => exact ⟨rfl, rfl⟩
  | some l =>
    simp only [h l hl, if_true]
    exact ⟨rfl, rfl⟩

theorem lookedUp_quiet (pick : Nat) (answer : NodesAnswer) :
    n.Quiet (n.lookedUp clock generation pick answer) := by
  unfold lookedUp
  cases hl : n.polls.loop? generation with
  | none => exact ⟨rfl, rfl⟩
  | some l =>
    simp only [h l hl, if_true]
    split
    · exact reschedule_quiet (h l hl)
    · split <;> exact reschedule_quiet (h l hl)

theorem fetched_quiet (answer : BatchAnswer) : n.Quiet (n.fetched clock generation answer) := by
  unfold fetched
  cases hl : n.polls.loop? generation with
  | none => exact ⟨rfl, rfl⟩
  | some l =>
    simp only [h l hl, if_true]
    split <;> exact reschedule_quiet (h l hl)

end

end Node

/-! ## Events -/

/-- The event stops the polling of the group. -/
def Event.stops (group : GroupId) : Event → Prop
  | .stopPolling g => g = group
  | .stopAllPolling | .shutdown => True
  | _ => False

/-- The event gives the lock of the table to the loop of a generation. -/
def Event.Grants (e : Event) (generation : Nat) : Prop :=
  e = .grant generation

/-- The loop waits for the lock of the table. -/
def PollLoop.Locking (l : PollLoop) : Prop :=
  ∃ node, l.phase = .locking node

/-- The loop waits for an answer of the swarm. -/
def PollLoop.Asking (l : PollLoop) : Prop :=
  match l.phase with
  | .lookingUp | .fetching .. => True
  | _ => False

namespace System

variable {s : System} {x : Exchange} {e : Event} {l : PollLoop} {generation : Nat}

/-- The event ends a poll of a loop that is not cancelled, and there is no moment for the next
one. -/
def Overruns (s : System) : Event → Prop
  | .nodes generation pick a => ∃ l, s.node.polls.loop? generation = some l ∧
      l.cancelled = false ∧ a.named pick = none ∧ s.node.Overruns s.clock l.group
  | .batch generation a => ∃ l, s.node.polls.loop? generation = some l ∧
      l.cancelled = false ∧ (s.node.polled s.clock l a).Overruns s.clock l.group
  | _ => False

/-- The event is a step of the loop of a generation. -/
def StepOf (s : System) (generation : Nat) : Event → Prop
  | .run k => s.node.spawned[k]? = some (.poll generation)
  | .nodes g _ _ => g = generation
  | .grant g => g = generation
  | .batch g _ => g = generation
  | .wake g => g = generation
  | _ => False

/-- None of the steps of the loop of a generation changes the store or what is known about any
group. -/
def Silent (s : System) (generation : Nat) : Prop :=
  ∀ x e, s.StepOf generation e → s.node.Quiet (s.step x e).node

/-- The loop of a generation waits for the lock of the table. -/
def Locks (s : System) (generation : Nat) : Prop :=
  ∃ l, s.node.polls.loop? generation = some l ∧ l.Locking

/-- With the event the loop of a generation puts a question to the swarm: after it the loop waits
for an answer that it did not wait for before. -/
def Calls (s : System) (x : Exchange) (e : Event) (generation : Nat) : Prop :=
  ∃ l, (s.step x e).node.polls.loop? generation = some l ∧ l.Asking ∧
    (s.node.polls.loop? generation).map (·.phase) ≠ some l.phase

/-- What an event does to the polled groups. -/
theorem step_turn (s : System) (x : Exchange) (e : Event) :
    s.node.polls.Turn e.Grants (s.Overruns e) (s.step x e).node.polls := by
  cases e with
  | begin i r =>
    rw [(step_begin_talks i r).polls]
    exact .refl id
  | answer i a =>
    have hprepared : (s.prepared (.answer i a)).polls = s.node.polls := by
      unfold prepared
      cases s.linkWork (.answer i a) <;> rfl
    rw [(step_answer_talks i a).polls, hprepared]
    exact .refl id
  | run k =>
    show s.node.polls.Turn _ False (s.node.runAt k).polls
    unfold Node.runAt
    split
    · exact .refl id
    · next y _ =>
      cases y with
      | settle y => exact .refl id
      | poll generation =>
        exact Node.wakeLoop_turn { s.node with spawned := s.node.spawned.eraseIdx k } generation id
  | nodes generation pick a => exact Node.lookedUp_turn pick a
  | grant generation => exact @Node.granted_turn generation (Event.Grants _) s.node rfl False id
  | batch generation a => exact Node.fetched_turn a
  | wake generation => exact Node.wakeLoop_turn s.node generation id
  | elapse ms =>
    -- by the equation of `step`, so that the two clocks are not compared
    have hnode : (s.step x (.elapse ms)).node = s.node := by rw [step]
    rw [hnode]
    exact .refl id
  | jump ms => exact .refl id
  | startPolling group => exact Node.startPolling_turn group id
  | stopPolling group => exact .move id (.stop group)
  | stopAllPolling => exact .move id .stopAll
  | startAllPolling => exact Node.startAllPolling_turn id
  | establish i => exact .refl id
  | sweep now => exact .refl id
  | beginSession name => exact .refl id
  | endSession => exact .refl id
  | load =>
    show s.node.polls.Turn _ False s.node.loadLinks.2.polls
    rw [Node.loadLinks_polls]
    exact .refl id
  | start => exact Node.start_turn id
  | shutdown => exact .move id .stopAll
  | restart => exact .move id .restarts

theorem sound_run (h : s.node.polls.Sound) (events : List (Exchange × Event)) :
    (s.run events).node.polls.Sound :=
  run_invariant (P := fun s => s.node.polls.Sound)
    (fun s x e h => (s.step_turn x e).sound h) h events

theorem sound_idle {settings : Settings} {store : Store} {clock : Clock} :
    (idle (.assemble settings store) clock).node.polls.Sound :=
  PollTable.sound_cleared

/-- Every entry keeps its loop all through a run exactly if no event of it overruns. -/
theorem served_run_iff (h : s.node.polls.Sound) (hs : s.node.polls.Served)
    (events : List (Exchange × Event)) :
    (∀ k, (s.run (events.take k)).node.polls.Served) ↔
      ∀ k x e, events[k]? = some (x, e) → ¬ (s.run (events.take k)).Overruns e := by
  induction events generalizing s with
  | nil => simp [run, hs]
  | cons p events ih =>
    have hturn := s.step_turn p.1 p.2
    have hfirst := hturn.served_iff h hs
    constructor
    · intro hall k x e hk
      have hs' : (s.step p.1 p.2).node.polls.Served := hall 1
      cases k with
      | zero =>
        cases hk
        exact hfirst.mp hs'
      | succ k => exact (ih (hturn.sound h) hs').mp (fun k => hall (k + 1)) k x e hk
    · intro hno k
      have hs' := hfirst.mpr (hno 0 p.1 p.2 rfl)
      cases k with
      | zero => exact hs
      | succ k => exact (ih (hturn.sound h) hs').mpr (fun k => hno (k + 1)) k

/-- Every polled group has its one loop all through a run exactly if no event of it overruns. -/
theorem oneLoop_run_iff (h : s.node.polls.Sound) (hs : s.node.polls.Served)
    (events : List (Exchange × Event)) :
    (∀ k group, (s.run (events.take k)).node.polls.OneLoop group) ↔
      ∀ k x e, events[k]? = some (x, e) → ¬ (s.run (events.take k)).Overruns e := by
  rw [← served_run_iff h hs]
  exact forall_congr' fun k => (sound_run h _).oneLoop_iff

/-! ## Stopped loops -/

/-- An event that stops the polling of a group cancels the loop of the group's entry. -/
theorem stops_cancels (h : s.node.polls.Sound) {en : PollEntry} (hen : en ∈ s.node.polls.entries)
    (hs : l.Serves en) (he : e.stops l.group) :
    ∃ entries q, (s.step x e).node.polls = { s.node.polls with entries }.cancel q ∧
      q l.generation = true := by
  cases e <;> try exact False.elim he
  case stopPolling group =>
    cases he
    exact h.stop_cancels hen hs
  case stopAllPolling => exact PollTable.stopAll_cancels hen hs
  case shutdown => exact PollTable.stopAll_cancels hen hs

theorem stopped_run (h : s.node.polls.Stopped l) (events : List (Exchange × Event)) :
    (s.run events).node.polls.Stopped l :=
  run_invariant (P := fun s => s.node.polls.Stopped l)
    (fun s x e h => (s.step_turn x e).stopped h) h events

/-- A cancelled loop does nothing but end, or ask a node for messages that it will drop. -/
theorem silent_of_cancelled
    (h : ∀ l, s.node.polls.loop? generation = some l → l.cancelled = true) :
    s.Silent generation := by
  intro x e he
  cases e <;> try exact False.elim he
  case run k =>
    show s.node.Quiet (s.node.runAt k)
    unfold Node.runAt
    rw [show s.node.spawned[k]? = some (.poll generation) from he]
    exact Node.wakeLoop_quiet (n := { s.node with spawned := s.node.spawned.eraseIdx k }) h
  case nodes g pick a =>
    cases he
    exact Node.lookedUp_quiet h pick a
  case grant g => exact Node.granted_quiet s.node g
  case batch g a =>
    cases he
    exact Node.fetched_quiet h a
  case wake g =>
    cases he
    exact Node.wakeLoop_quiet h

theorem silent_of_stopped (h : s.node.polls.Stopped l) : s.Silent l.generation := by
  refine silent_of_cancelled fun k hk => ?_
  obtain ⟨hm, hg⟩ := PollTable.mem_of_loop? hk
  exact (h.left k hm hg).cancelled

/-- The lock lets a loop ask exactly if it waits for the lock. -/
theorem calls_grant_iff : s.Calls x (.grant generation) generation ↔ s.Locks generation := by
  show (∃ l, (s.node.granted generation).polls.loop? generation = some l ∧ _) ↔ _
  unfold Locks Node.granted
  cases hl : s.node.polls.loop? generation with
  | none => simp [hl]
  | some l =>
    dsimp only
    split
    · next node hp =>
      let cursor := (s.node.polls.entry? l.group).bind (·.state.cursor)
      refine iff_of_true ⟨{ l with phase := .fetching node cursor }, ?_, ?_, ?_⟩ ⟨l, rfl, node, hp⟩
      · rw [PollTable.loop?_setPhase, hl, Option.map_some]
      · trivial
      · rw [Option.map_some, hp]
        exact fun heq => nomatch heq
    · next hother =>
      refine iff_of_false ?_ ?_
      · rintro ⟨k, hk, -, hne⟩
        rw [hl] at hk
        cases hk
        exact hne rfl
      · rintro ⟨k, hk, node, hp⟩
        cases hk
        exact hother node hp

/-- A stopped loop asks the swarm exactly if it gets the lock that it waits for. -/
theorem calls_iff (h : s.node.polls.Sound) (hs : s.node.polls.Stopped l) :
    s.Calls x e l.generation ↔ e = .grant l.generation ∧ s.Locks l.generation := by
  by_cases he : e = .grant l.generation
  · rw [he, calls_grant_iff, and_iff_right rfl]
  · refine iff_of_false ?_ fun hgrant => he hgrant.1
    rintro ⟨k, hk, -, hne⟩
    obtain ⟨hm, hg⟩ := PollTable.mem_of_loop? hk
    have hbefore : k ∈ s.node.polls.loops := (s.step_turn x e).mem_of_stopped hs he hg hm
    rw [h.loop?_eq_some.mpr ⟨hbefore, hg⟩] at hne
    exact hne rfl

/-- A loop that did not wait for the lock when it was stopped does not wait for it later. -/
theorem not_locks_of_stopped (hs : s.node.polls.Stopped l) (hl : ¬ l.Locking) :
    ¬ s.Locks l.generation := by
  rintro ⟨k, hk, node, hp⟩
  obtain ⟨hm, hg⟩ := PollTable.mem_of_loop? hk
  cases hs.left k hm hg with
  | waits => exact hl ⟨node, hp⟩
  | asks => cases hp

/-- A stopped loop that has asked the swarm waits for the lock no more. -/
theorem not_locks_after_call (h : s.node.polls.Sound) (hs : s.node.polls.Stopped l)
    (hc : s.Calls x e l.generation) (later : List (Exchange × Event)) :
    ¬ ((s.step x e).run later).Locks l.generation := by
  obtain ⟨k, hk, hasking, -⟩ := hc
  have hturn := s.step_turn x e
  obtain ⟨hm, hg⟩ := PollTable.mem_of_loop? hk
  have hleft := hturn.stopped hs
  have hcancelled : { k with cancelled := true } = k := by
    rw [← (hleft.left k hm hg).cancelled]
  have hstopped : (s.step x e).node.polls.Stopped k := by
    refine ⟨hg ▸ hleft.below, fun j hj hjk => ?_⟩
    rw [(hturn.sound h).loop_unique hj hm hjk, ← hcancelled]
    exact .waits
  have hlocking : ¬ k.Locking := by
    rintro ⟨node, hp⟩
    unfold PollLoop.Asking at hasking
    rw [hp] at hasking
    exact hasking
  rw [← hg]
  exact not_locks_of_stopped (stopped_run hstopped later) hlocking

/-- After every run of a node:

* each polled group has exactly one loop that is not cancelled, of the generation of its entry, and
  no other group has one, as long as no event overruns and only so long;
* a loop that is stopped together with its entry never changes the store or what is known about any
  group again, whether or not its group is started again. It never asks the swarm again exactly if
  it did not wait for the lock of the table when it was stopped. If it did, it asks when it gets the
  lock, and only once. -/
theorem one_loop_and_stopped_dead_iff (settings : Settings) (store : Store) (clock : Clock)
    (events : List (Exchange × Event)) :
    let start := idle (.assemble settings store) clock
    ((∀ k group, (start.run (events.take k)).node.polls.OneLoop group) ↔
      ∀ k x e, events[k]? = some (x, e) → ¬ (start.run (events.take k)).Overruns e) ∧
    ∀ l ∈ (start.run events).node.polls.loops, ∀ en ∈ (start.run events).node.polls.entries,
      l.Serves en → ∀ x e, e.stops l.group →
        let stopped := (start.run events).step x e
        (∀ later, (stopped.run later).Silent l.generation) ∧
        ((∀ later y f, ¬ (stopped.run later).Calls y f l.generation) ↔ ¬ l.Locking) ∧
        ∀ later y f, ((stopped.run later).Calls y f l.generation ↔
            f = .grant l.generation ∧ (stopped.run later).Locks l.generation) ∧
          ((stopped.run later).Calls y f l.generation → ∀ later' y' f',
            ¬ (((stopped.run later).step y f).run later').Calls y' f' l.generation) := by
  intro start
  refine ⟨oneLoop_run_iff sound_idle (fun _ h => nomatch h) events, ?_⟩
  intro l hl en hen hs x e he stopped
  have hsound : (start.run events).node.polls.Sound := sound_run sound_idle events
  obtain ⟨entries, q, hcancel, hq⟩ := stops_cancels (x := x) hsound hen hs he
  have hstopped : stopped.node.polls.Stopped l := hcancel ▸ hsound.stopped_cancel hl hq
  have hsound' : stopped.node.polls.Sound := ((start.run events).step_turn x e).sound hsound
  have hcalls (later : List (Exchange × Event)) (y : Exchange) (f : Event) :
      (stopped.run later).Calls y f l.generation ↔
        f = .grant l.generation ∧ (stopped.run later).Locks l.generation :=
    calls_iff (sound_run hsound' later) (stopped_run hstopped later)
  refine ⟨fun later => silent_of_stopped (stopped_run hstopped later), ⟨?_, ?_⟩, ?_⟩
  · rintro hnever ⟨node, hp⟩
    have hwaits : { l with cancelled := true } ∈ stopped.node.polls.loops := by
      rw [hcancel]
      exact PollTable.mem_cancel_of_cancelled hl hq fun deadline h => nomatch hp.symm.trans h
    exact hnever [] x (.grant l.generation)
      (calls_grant_iff.mpr ⟨_, hsound'.loop?_eq_some.mpr ⟨hwaits, rfl⟩, node, hp⟩)
  · intro hlocking later y f hcall
    exact not_locks_of_stopped (stopped_run hstopped later) hlocking ((hcalls later y f).mp hcall).2
  · intro later y f
    refine ⟨hcalls later y f, fun hcall later' y' f' hagain => ?_⟩
    have hsound₁ := sound_run hsound' later
    have hstopped₁ := stopped_run hstopped later
    have hturn := (stopped.run later).step_turn y f
    exact not_locks_after_call hsound₁ hstopped₁ hcall later' ((calls_iff
      (sound_run (hturn.sound hsound₁) later') (stopped_run (hturn.stopped hstopped₁) later')).mp
        hagain).2

/-- A group is stopped during its second poll, while a node is asked for its messages, and started
again: so far every group had its one loop, and the stopped one is dead. -/
theorem one_loop_and_stopped_dead_in_second_poll :
    let start := idle (.assemble Config.default.settings (.reliable .empty)) ⟨0, 0⟩
    let node : SwarmNode := ⟨"n", 1, none⟩
    let events := [(Exchange.quiet, Event.startPolling "g"), (.quiet, .run 0),
      (.quiet, .nodes 0 0 (.error .canceled)), (.quiet, .wake 0), (.quiet, .nodes 0 0 (.ok [node])),
      (.quiet, .grant 0)]
    let restarted := ((start.run events).step .quiet (.stopPolling "g")).run
      [(.quiet, .startPolling "g")]
    (∀ k group, (start.run (events.take k)).node.polls.OneLoop group) ∧
      restarted.node.polls.loops.map (·.generation) = [0, 1] ∧ restarted.Silent 0 ∧
      ∀ x e, ¬ restarted.Calls x e 0 := by
  intro start node events restarted
  obtain ⟨hone, hstopped⟩ :=
    one_loop_and_stopped_dead_iff Config.default.settings (.reliable .empty) ⟨0, 0⟩ events
  obtain ⟨hsilent, hnever, -⟩ := hstopped ⟨0, "g", false, .fetching node none⟩ (by decide +kernel)
    ⟨"g", ⟨true, some 30000000000, none, none, 0⟩, 0⟩ (by decide +kernel) ⟨rfl, rfl⟩
    .quiet (.stopPolling "g") rfl
  have hlocking : ¬ (⟨0, "g", false, .fetching node none⟩ : PollLoop).Locking :=
    fun ⟨_, hp⟩ => nomatch hp
  refine ⟨hone.mpr ?_, by decide +kernel, hsilent _, hnever.mpr hlocking _⟩
  rintro (_ | _ | _ | _ | _ | _ | k) x e hk <;> cases hk
  · exact id
  · exact id
  · -- the failed lookup ends the first poll, and the next one is due in thirty seconds
    rintro ⟨l, hl, -, -, hover⟩
    cases hl
    have hdelay := hover (.ofSeconds 30) (by decide +kernel)
    exact absurd hdelay (by decide +kernel)
  · exact id
  · -- the second lookup names a node, so the poll goes on
    rintro ⟨l, -, -, hnamed, -⟩
    cases hnamed
  · exact id

/-- A group is stopped while its loop waits for the lock of the table, and started again: then the
lock lets the stopped loop ask a node. And where groups are polled every `2 ^ 63` seconds, the
monotonic clock does not reach the second poll: the loop dies and its group keeps its entry. -/
theorem one_loop_and_stopped_dead_fails_at_lock_and_deadline :
    let start (c : Config) := idle (.assemble c.settings (.reliable .empty)) ⟨0, 0⟩
    let node : SwarmNode := ⟨"n", 1, none⟩
    let lookUp := [(Exchange.quiet, Event.startPolling "g"), (.quiet, .run 0),
      (.quiet, .nodes 0 0 (.ok [node]))]
    let restarted := (((start .default).run lookUp).step .quiet (.stopPolling "g")).run
      [(.quiet, .startPolling "g")]
    let rarely : UInt64 := 9223372036854775808
    let slow : Config := { Config.default with pollMin := rarely, pollMax := rarely }
    let polled := ((start slow).run lookUp).run
      [(.quiet, .grant 0), (.quiet, .batch 0 (.ok ⟨[], none⟩))]
    (((start .default).run lookUp).node.polls.loops = [⟨0, "g", false, .locking node⟩] ∧
      ((start .default).run lookUp).node.polls.entries = [⟨"g", .initial, 0⟩] ∧
      restarted.Calls .quiet (.grant 0) 0) ∧
    slow.timing.interval none = some (.ofSeconds rarely) ∧
      (polled.node.polls.entry? "g").map (·.generation) = some 0 ∧
      polled.node.polls.live "g" = [] := by
  intro start node lookUp restarted rarely slow polled
  refine ⟨⟨by decide +kernel, by decide +kernel, ?_⟩, by decide +kernel, by decide +kernel,
    by decide +kernel⟩
  exact calls_grant_iff.mpr ⟨⟨0, "g", true, .locking node⟩, by decide +kernel, node, rfl⟩

end System

end Courier
