import Courier.Handshake.Delivery
import Courier.Link.Cache
import Courier.Link.Session
import Courier.Polling.Interval
import Courier.Polling.Table

/-!
# A node

Everything one running node has: its settings, the store, the link cache, the linking session, the
polled groups, the tasks it has spawned that have not run yet, and a journal of what it did towards
the outside.

A node runs one task at a time. A task runs until it waits for a service or a timer, and what it
does until then is one function on `Node`; the modules beside this one hold those functions.

The polled groups, the link cache and the session slot are behind locks. No task waits while it
holds one, so a task that comes to a lock finds it free; but a runtime may make it wait there all
the same. That is a wait of its own only where it matters what comes in between: a loop that has
looked up its swarm can be stopped before it reads its cursor (`LoopPhase.locking`). Elsewhere a
task is taken to go on at once.

* A loop that writes down what it knows of its group checks under the lock that the entry is still
  its own, and looks afterwards whether it was cancelled. Stopped at that lock it does what it does
  when it is stopped right after.
* A start or a stop of polling takes the lock once, and a start of all groups once for each group.
  To wait there is to come later; starts of single groups are events of their own.
* A resolve, a new link and an eviction take the lock of the link cache more than once, or write a
  row beside it: `LinkCache.record` writes the row first and the cache then, `LinkCache.evict` the
  other way round. Between two waits for the directory each is one step here, and the statements on
  cache and rows are about such steps, one after the other.
-/

namespace Courier

/-- What a node is configured to. -/
structure Settings where
  localIdentity : Identity
  refreshInterval : Duration
  handshakeExpiry : Duration
  timing : PollTiming
  maxViewAge : Duration

/-- A signal to the application. -/
inductive Notification where
  /-- A slave asked to be linked while no session was open. -/
  | unexpectedLinkRequest (master slave : Identity)
  /-- The master has unlinked this device: its data must be wiped. -/
  | dataWipeRequested
  deriving DecidableEq, Repr

/-- A task that was spawned and has not run yet. -/
inductive Spawned where
  /-- The state that follows a handshake is to be written. -/
  | settle (x : Settlement)
  /-- The loop of this generation is to start. -/
  | poll (generation : Nat)
  deriving DecidableEq, Repr

/-- What a node did towards the outside. -/
inductive JournalEntry where
  /-- An envelope was handed to the transport; it may carry a generated handshake. -/
  | handed (envelope : OutgoingEnvelope) (generated : Bool)
  /-- The transport has answered for an envelope. -/
  | answered (envelope : OutgoingEnvelope) (result : SendResult)
  /-- The application was notified. -/
  | notified (n : Notification)

/-- A running node. -/
structure Node where
  settings : Settings
  store : Store
  links : LinkCache
  session : SessionSlot
  polls : PollTable
  spawned : List Spawned
  journal : List JournalEntry

/-- What the outside supplies while a task runs: ids for generated messages, and a transport that
answers some envelopes on the spot. -/
structure Exchange where
  /-- The id of a handshake generated for a device. -/
  messageId : Identity → String
  /-- The answer for an envelope that the transport gives while it is handed over. -/
  atOnce : OutgoingEnvelope → Option SendResult

/-- What a task finds around it while it runs. -/
structure Surroundings extends Exchange where
  clock : Clock

namespace Node

/-- A node over a store, with nothing in memory. -/
def assemble (settings : Settings) (store : Store) : Node :=
  { settings, store, links := .empty, session := none, polls := .empty, spawned := [],
    journal := [] }

/-- The outcome of a store action, and the node after it. -/
def attempt {α : Type} (n : Node) (x : StoreM α) : Except StoreError α × Node :=
  let (result, store) := x.attempt n.store
  (result, { n with store })

/-- The node after a store action whose failure is passed over. -/
def effect {α : Type} (n : Node) (x : StoreM α) : Node :=
  { n with store := x.effect n.store }

/-- A task is spawned. -/
def spawn (n : Node) (x : Spawned) : Node :=
  { n with spawned := n.spawned ++ [x] }

/-- Something is noted in the journal. -/
def note (n : Node) (e : JournalEntry) : Node :=
  { n with journal := n.journal ++ [e] }

end Node

end Courier
