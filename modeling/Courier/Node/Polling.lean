import Courier.Node.Basic

/-!
# Polling a group

One run of a loop: the nodes of the swarm are looked up, one of them is asked for messages since
the cursor, the messages are decoded and queued, and the loop sleeps until the next poll.

When the swarm has answered, and when its sleep is over, the loop looks first whether it was
cancelled; then it drops what it has received and ends. When it has waited for the lock of the table
of polled groups, to read its cursor there, it does not look: it asks the node in any case
(`Node.granted`).

* `Node.absorb`: undecodable messages and failing writes are passed over; everything that is queued
  belongs to the polled group, whatever it claims.
* `Node.reschedule`: the loop dies when there is no interval, or none that the monotonic clock can
  express; its entry stays.
-/

namespace Courier

/-- What the next request passes to the swarm: the batch's cursor, else the hash of its last
message. -/
def RawBatch.newestCursor (b : RawBatch) : Option String :=
  b.cursor.or (b.messages.getLast?.map (·.hash))

/-- The time since a timestamp, in whole milliseconds; none has passed since one to come. -/
def idleSince (now timestamp : Int64) : Duration :=
  .ofMillis (UInt64.ofNat (min (now.toInt - timestamp.toInt) Int64.maxValue.toInt).toNat)

/-- The monotonic clock counts its seconds in 63 bits. -/
def latestDeadline : Nat := (1 <<< 63) * nanosPerSecond

/-- One message of a batch is queued for `group`, if it can be decoded. -/
def keepMessage (clock : Clock) (group : GroupId) (s : Store) (m : RawMessage) : Store :=
  match m.decode with
  | .error _ => s
  | .ok e => (Store.enqueueInbound clock { e with groupId := some group }).effect s

namespace Node

/-- The last activity of a group, as far as it can be read. -/
def activityOf (n : Node) (group : GroupId) : Option Int64 × Node :=
  match n.attempt (Store.groupLastMessageAt group) with
  | (.ok activity, n) => (activity, n)
  | (.error _, n) => (none, n)

/-- A batch is queued, and what is known about the polling of the group brought up to date. -/
def absorb (n : Node) (clock : Clock) (l : PollLoop) (batch : RawBatch) : Node :=
  let n := { n with store := batch.messages.foldl (keepMessage clock l.group) n.store }
  let (lastActivity, n) := n.activityOf l.group
  { n with polls := n.polls.updateState l.group l.generation fun s =>
      { s with
        polls := s.polls + 1
        cursor := batch.newestCursor.or s.cursor
        lastActivity } }

/-- The delay before the next poll of a group. -/
def nextDelay (n : Node) (clock : Clock) (group : GroupId) : Option Duration × Node :=
  let (last, n) := n.activityOf group
  (n.settings.timing.interval (last.map (idleSince clock.now)), n)

/-- A poll is over: the loop ends if it was cancelled, and sleeps until the next poll if not. -/
def reschedule (n : Node) (clock : Clock) (l : PollLoop) : Node :=
  if l.cancelled then { n with polls := n.polls.endLoop l.generation }
  else
    match n.nextDelay clock l.group with
    | (none, n) => { n with polls := n.polls.endLoop l.generation }
    | (some delay, n) =>
      let deadline := clock.instant + delay.nanos
      if deadline < latestDeadline then
        { n with polls :=
            (n.polls.updateState l.group l.generation fun s =>
              { s with deadline := some deadline }).setPhase l.generation (.sleeping deadline) }
      else { n with polls := n.polls.endLoop l.generation }

/-- A loop starts, or its sleep is over: the swarm is looked up, unless the loop was cancelled. -/
def wakeLoop (n : Node) (generation : Nat) : Node :=
  match n.polls.loop? generation with
  | none => n
  | some l =>
    if l.cancelled then { n with polls := n.polls.endLoop generation }
    else { n with polls := n.polls.setPhase generation .lookingUp }

/-- The swarm has named its nodes; the one that `pick` counts out is to be asked for messages, as
soon as the loop has the lock of the table. -/
def lookedUp (n : Node) (clock : Clock) (generation : Nat) (pick : Nat) (answer : NodesAnswer) :
    Node :=
  match n.polls.loop? generation with
  | none => n
  | some l =>
    match answer with
    | .error _ => n.reschedule clock l
    | .ok nodes =>
      match nodes[pick % nodes.length]? with
      | none => n.reschedule clock l
      | some node =>
        if l.cancelled then n.reschedule clock l
        else { n with polls := n.polls.setPhase generation (.locking node) }

/-- A loop gets the lock of the table, reads the cursor of its group and asks the node for messages.
It looks neither whether it was cancelled meanwhile nor whether the entry is its own. -/
def granted (n : Node) (generation : Nat) : Node :=
  match n.polls.loop? generation with
  | none => n
  | some l =>
    match l.phase with
    | .locking node =>
      let cursor := (n.polls.entry? l.group).bind (·.state.cursor)
      { n with polls := n.polls.setPhase generation (.fetching node cursor) }
    | _ => n

theorem granted_eq (n : Node) (generation : Nat) :
    n.granted generation = { n with polls := (n.granted generation).polls } := by
  unfold granted
  split
  · rfl
  · split <;> rfl

/-- A node has sent messages. -/
def fetched (n : Node) (clock : Clock) (generation : Nat) (answer : BatchAnswer) : Node :=
  match n.polls.loop? generation with
  | none => n
  | some l =>
    match answer with
    | .error _ => n.reschedule clock l
    | .ok batch =>
      if l.cancelled then n.reschedule clock l else (n.absorb clock l batch).reschedule clock l

/-! ## Starting and stopping -/

/-- Polling of a group starts; the answer says whether it is new. -/
def startPolling (n : Node) (group : GroupId) : Bool × Node :=
  match n.polls.start group with
  | (none, polls) => (false, { n with polls })
  | (some generation, polls) => (true, { n with polls }.spawn (.poll generation))

/-- Polling of a group stops; the answer says whether it was polled. -/
def stopPolling (n : Node) (group : GroupId) : Bool × Node :=
  let (found, polls) := n.polls.stop group
  (found, { n with polls })

/-- Polling of every group stops; the answer is the number of groups. -/
def stopAllPolling (n : Node) : Nat × Node :=
  let (count, polls) := n.polls.stopAll
  (count, { n with polls })

/-- Polling of one more group starts and is counted if it is new. -/
def startCounted : Nat × Node → GroupId → Nat × Node
  | (count, n), group =>
    let (new, n) := n.startPolling group
    (if new then count + 1 else count, n)

/-- Polling starts for every group the store knows; the answer is the number of new ones. -/
def startAllPolling (n : Node) : Except StoreError Nat × Node :=
  match n.attempt Store.listGroupThreads with
  | (.error e, n) => (.error e, n)
  | (.ok rows, n) =>
    let (count, n) := (rows.map (·.peer)).foldl startCounted (0, n)
    (.ok count, n)

end Node

end Courier
