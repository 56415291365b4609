import Courier.Node.Calls
import Courier.Node.Lifecycle

/-!
# A node among its tasks

A `System` is a node, the clocks, and the calls that wait. It moves by events (`System.step`): a
request begins, a service answers, a spawned task runs, a loop gets a lock or wakes, time passes.
Which event comes next is not the node's choice, so a run is any list of events; what holds after
every list of events holds under every schedule of them.
-/

namespace Courier

/-- A node, the clocks, and the calls it is busy with, by number. -/
structure System where
  node : Node
  clock : Clock
  calls : List (Nat × Call)
  /-- What the calls that are over came to, the latest first. -/
  finished : List (Nat × CallResult)

/-- What can happen to a system. -/
inductive Event where
  /-- A request comes in, as call `id`; the number of a call that waits is not given again. -/
  | begin (id : Nat) (request : Request)
  /-- A service answers call `id`. -/
  | answer (id : Nat) (a : Answer)
  /-- The spawned task at place `i` runs. -/
  | run (i : Nat)
  /-- The swarm names its nodes to a loop, and `pick` counts one out. -/
  | nodes (generation pick : Nat) (a : NodesAnswer)
  /-- A loop gets the lock of the table of polled groups. -/
  | grant (generation : Nat)
  /-- A swarm node sends messages to a loop. -/
  | batch (generation : Nat) (a : BatchAnswer)
  /-- The sleep of a loop is over. -/
  | wake (generation : Nat)
  /-- Time passes on both clocks. -/
  | elapse (ms : Nat)
  /-- The wall clock is set. -/
  | jump (ms : Int)
  | startPolling (group : GroupId)
  | stopPolling (group : GroupId)
  | stopAllPolling
  | startAllPolling
  /-- Trust with a device is recorded. -/
  | establish (identity : Identity)
  /-- Requests that are due at a wall time are marked as expired. -/
  | sweep (now : Int64)
  | beginSession (name : String)
  | endSession
  | load
  | start
  | shutdown
  /-- The process ends with its tasks and a new one takes its place. -/
  | restart

namespace Node

/-- A spawned task runs. -/
def run (n : Node) : Spawned → Node
  | .settle x => { n with store := x.apply n.store }
  | .poll generation => n.wakeLoop generation

/-- The spawned task at place `i` runs and is gone. -/
def runAt (n : Node) (i : Nat) : Node :=
  match n.spawned[i]? with
  | none => n
  | some x => { n with spawned := n.spawned.eraseIdx i }.run x

end Node

namespace System

/-- A system with nothing under way. -/
def idle (node : Node) (clock : Clock) : System :=
  { node, clock, calls := [], finished := [] }

/-- What a task of the system finds around it. -/
def surroundings (s : System) (x : Exchange) : Surroundings :=
  { x with clock := s.clock }

/-- The node is changed. -/
def onNode (s : System) (f : Node → Node) : System :=
  { s with node := f s.node }

/-- Call `id` has made a step. -/
def settleCall (s : System) (id : Nat) : CallStep × Node → System
  | (.waits c, node) => { s with node, calls := (id, c) :: s.calls.filter (·.1 ≠ id) }
  | (.ends r, node) =>
    { s with node, calls := s.calls.filter (·.1 ≠ id), finished := (id, r) :: s.finished }

/-- One event. -/
def step (x : Exchange) (s : System) : Event → System
  | .begin id request =>
    match s.calls.lookup id with
    | some _ => s
    | none => s.settleCall id (s.node.begin (s.surroundings x) request)
  | .answer id a =>
    match s.calls.lookup id with
    | none => s
    | some c => s.settleCall id (s.node.answer (s.surroundings x) c a)
  | .run i => s.onNode (·.runAt i)
  | .nodes generation pick a => s.onNode (·.lookedUp s.clock generation pick a)
  | .grant generation => s.onNode (·.granted generation)
  | .batch generation a => s.onNode (·.fetched s.clock generation a)
  | .wake generation => s.onNode (·.wakeLoop generation)
  | .elapse ms => { s with clock := s.clock.advance ms }
  | .jump ms => { s with clock := s.clock.jump ms }
  | .startPolling group => s.onNode (·.startPolling group |>.2)
  | .stopPolling group => s.onNode (·.stopPolling group |>.2)
  | .stopAllPolling => s.onNode (·.stopAllPolling.2)
  | .startAllPolling => s.onNode (·.startAllPolling.2)
  | .establish identity => s.onNode (·.effect (markEstablished identity))
  | .sweep now => s.onNode (·.effect (expireStale now))
  | .beginSession name => s.onNode fun n => { n with session := (n.session.begin name).2 }
  | .endSession => s.onNode fun n => { n with session := none }
  | .load => s.onNode (·.loadLinks.2)
  | .start => s.onNode (·.start s.clock |>.2)
  | .shutdown => s.onNode (·.shutdown)
  | .restart => { s with node := s.node.restart, calls := [] }

/-- A list of events, each with what the outside supplied to it. -/
def run (s : System) (events : List (Exchange × Event)) : System :=
  events.foldl (fun s (x, e) => s.step x e) s

end System

end Courier
