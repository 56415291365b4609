import Courier.Simulation.Services

/-!
# A node under a virtual clock

A `World` runs a system among scripted services. Time stands still while anything can run; then it
jumps to the next timer. Timers that are due in the same millisecond fire in the order in which
they were set. Everything a world does to its system is an event of `System.step`.

A node can be replaced by a new one over the same store while calls of it are under way
(`World.replaceNode`). They go on with what the old node had in memory.
-/

namespace Courier

/-- What happens when a timer fires. -/
inductive Wake where
  /-- A service answers a call. -/
  | answer (id : Nat) (a : Answer)
  /-- The transport answers for an envelope of a call. -/
  | delivery (id : Nat) (envelope : OutgoingEnvelope)
  /-- The swarm names its nodes to a loop. -/
  | nodes (generation : Nat) (a : NodesAnswer)
  /-- A swarm node sends messages to a loop. -/
  | batch (generation : Nat) (a : BatchAnswer)
  /-- A loop polls again. -/
  | poll (generation : Nat)
  /-- Whoever drives the world has waited long enough. -/
  | pause

/-- A timer, due at a millisecond of the monotonic clock. -/
structure Timer where
  due : Nat
  wake : Wake

/-- A system among scripted services. -/
structure World where
  system : System
  /-- The systems whose nodes were replaced, the latest first. -/
  former : List System
  directory : ScriptedDirectory
  transport : ScriptedTransport
  swarms : List ScriptedSwarm
  application : ScriptedApplication
  /-- In the order in which they were set. -/
  timers : List Timer
  nextCall : Nat
  /-- The wait of whoever drives the world is over. -/
  paused : Bool
  /-- The state of the device that a handshake went to, when its send returned. -/
  stateOnReturn : Option (Except StoreError HandshakeState)

namespace World

/-- A world around a node, at a wall time. -/
def create (node : Node) (wall : Int) : World :=
  { system := .idle node ⟨0, wall⟩, former := [], directory := .empty, transport := .empty,
    swarms := [], application := .empty, timers := [], nextCall := 0, paused := false,
    stateOnReturn := none }

/-- The text that stands for every generated message id. -/
def generatedId : String := "<generated>"

/-- The milliseconds of the monotonic clock. -/
def elapsed (w : World) : Nat :=
  w.system.clock.instant / nanosPerMilli

/-- What the world supplies to a task. -/
def exchange (w : World) : Exchange :=
  { messageId := fun _ => generatedId, atOnce := w.transport.atOnce }

/-- The swarm of a group. -/
def swarm (w : World) (group : GroupId) : ScriptedSwarm :=
  (w.swarms.find? (·.group = group)).getD (.quiet group)

/-- The swarm of a group is replaced. -/
def setSwarm (w : World) (s : ScriptedSwarm) : World :=
  { w with swarms := s :: w.swarms.filter (·.group ≠ s.group) }

/-- The system's node is changed. -/
def onNode {α : Type} (w : World) (f : Node → α × Node) : α × World :=
  let (a, node) := f w.system.node
  (a, { w with system := { w.system with node } })

/-- One entry of a node's journal reaches those it concerns. -/
def publish (w : World) : JournalEntry → World
  | .handed .. => w
  | .answered e r => { w with transport := { w.transport with log := w.transport.log ++ [(e, r)] } }
  | .notified x =>
    if w.application.subscribed then
      { w with application := { w.application with received := w.application.received ++ [x] } }
    else w

/-- The node's journal is published and begun anew. -/
def publishAll (w : World) : World :=
  let entries := w.system.node.journal
  let w := (w.onNode fun n => ((), { n with journal := [] })).2
  entries.foldl publish w

/-- The call of a number that is under way. -/
def callOf? (w : World) (id : Nat) : Option Call :=
  (w.system :: w.former).findSome? (·.calls.lookup id)

/-- What the call of a number came to. -/
def resultOf? (w : World) (id : Nat) : Option CallResult :=
  (w.system :: w.former).findSome? (·.finished.lookup id)

/-- The device whose handshake has just been sent on its own, if the latest event was the end of
such a call. -/
def justSent (w : World) : Event → Option Identity
  | .begin id (.handshake identity _) => (w.resultOf? id).map fun _ => identity
  | .answer id (.delivery identity _) =>
    match w.resultOf? id with
    | some (.handshake _) => some identity
    | _ => none
  | _ => none

/-- The state of a device is read and kept. -/
def readOnReturn (w : World) (identity : Identity) : World :=
  let (state, w) := w.onNode (·.attempt (Store.handshakeState identity))
  { w with stateOnReturn := some state }

/-- The event is an answer for a call of the system. -/
def concerns (e : Event) (s : System) : Bool :=
  match e with
  | .answer id _ => (s.calls.lookup id).isSome
  | _ => false

/-- One event happens to a system whose node was replaced. It shares the store and the clocks with
the present one, which takes over what it spawns and notes. -/
def happenFormer (w : World) (old : System) (e : Event) : World :=
  let now := w.system
  let s := { old with
    clock := now.clock
    node := { old.node with
      store := now.node.store, spawned := now.node.spawned, journal := now.node.journal } }
  let s := s.step w.exchange e
  let node := { now.node with
    store := s.node.store, spawned := s.node.spawned, journal := s.node.journal }
  { w with
    system := { now with node }
    former := w.former.map fun x => if concerns e x then s else x }

/-- One event happens. -/
def happen (w : World) (e : Event) : World :=
  let w := match w.former.find? (concerns e) with
    | none => { w with system := w.system.step w.exchange e }
    | some old => w.happenFormer old e
  let w := w.publishAll
  match w.justSent e with
  | some identity => w.readOnReturn identity
  | none => w

/-- A timer is set, `delay` milliseconds from now. -/
def setTimer (w : World) (delay : Nat) (wake : Wake) : World :=
  { w with timers := w.timers ++ [⟨w.elapsed + delay, wake⟩] }

/-! ## Questions -/

/-- A question that a call has just asked gets its answer, at once (an event) or later (a
timer). -/
def ask (w : World) (id : Nat) : Question → World × Option Event
  | .links identity =>
    let (a, directory) := w.directory.fetch identity
    let w := { w with directory }
    if directory.delay = 0 then (w, some (.answer id (.links a)))
    else (w.setTimer directory.delay (.answer id (.links a)), none)
  | .removal link =>
    let (result, directory) := w.directory.remove link
    ({ w with directory }, some (.answer id (.removal result)))
  | .delivery envelope =>
    (w.setTimer (w.transport.delayOf envelope.recipient) (.delivery id envelope), none)
  | .verdict session intent =>
    let calls := w.application.calls ++ [⟨session, intent⟩]
    let w := { w with application := { w.application with calls } }
    (w, some (.answer id (.verdict w.application.verdict)))

/-- Questions are asked one after the other; the last answer that comes at once is kept. -/
def askAll (w : World) (id : Nat) (questions : List Question) : World × Option Event :=
  questions.foldl (fun (w, e) q => let (w, e') := w.ask id q; (w, e'.or e)) (w, none)

/-- An event happens to a call, and the call goes on as long as its questions are answered at
once. -/
def pursue (fuel : Nat) (w : World) (id : Nat) (e : Event) : World :=
  match fuel with
  | 0 => w
  | fuel + 1 =>
    let w := w.happen e
    match w.callOf? id with
    | none => w
    | some c =>
      match w.askAll id c.questions with
      | (w, none) => w
      | (w, some e) => pursue fuel w id e

/-- A loop has made a step: it asks the swarm, or a timer is set for its next poll. -/
def pursueLoop (fuel : Nat) (w : World) (generation : Nat) : World :=
  match fuel with
  | 0 => w
  | fuel + 1 =>
    match w.system.node.polls.loop? generation with
    | none => w
    | some l =>
      match l.phase with
      | .starting => w
      | .lookingUp =>
        let s := w.swarm l.group
        let w := w.setSwarm { s with lookups := s.lookups + 1 }
        if s.lookupDelay = 0 then
          pursueLoop fuel (w.happen (.nodes generation 0 s.nodes)) generation
        else w.setTimer s.lookupDelay (.nodes generation s.nodes)
      -- no task waits while it holds the lock of the table, so a loop finds it free
      | .locking _ => pursueLoop fuel (w.happen (.grant generation)) generation
      | .fetching node cursor =>
        let (a, s) := (w.swarm l.group).fetch w.elapsed node cursor
        let w := w.setSwarm s
        if s.fetchDelay = 0 then pursueLoop fuel (w.happen (.batch generation a)) generation
        else w.setTimer s.fetchDelay (.batch generation a)
      | .sleeping deadline =>
        let due := (deadline + (nanosPerMilli - 1)) / nanosPerMilli
        if due ≤ w.elapsed then pursueLoop fuel (w.happen (.wake generation)) generation
        else w.setTimer (due - w.elapsed) (.poll generation)

/-- More steps than anything takes without waiting. -/
def manySteps : Nat := 1000000000000

/-! ## Running -/

/-- Every spawned task runs, in the order of spawning. -/
def runSpawned (fuel : Nat) (w : World) : World :=
  match fuel with
  | 0 => w
  | fuel + 1 =>
    match w.system.node.spawned with
    | [] => w
    | .settle _ :: _ => runSpawned fuel (w.happen (.run 0))
    | .poll generation :: _ =>
      runSpawned fuel (pursueLoop manySteps (w.happen (.run 0)) generation)

/-- A timer fires. -/
def fire (w : World) : Wake → World
  | .answer id a => pursue manySteps w id (.answer id a)
  | .delivery id envelope =>
    w.happen (.answer id (.delivery envelope.recipient (w.transport.resultFor envelope)))
  | .nodes generation a => pursueLoop manySteps (w.happen (.nodes generation 0 a)) generation
  | .batch generation a => pursueLoop manySteps (w.happen (.batch generation a)) generation
  | .poll generation => pursueLoop manySteps (w.happen (.wake generation)) generation
  | .pause => { w with paused := true }

/-- The clocks go on to the next timer, and what is due then happens. -/
def tick (w : World) : World :=
  match (w.timers.map (·.due)).min? with
  | none => w
  | some due =>
    let now := w.timers.filter (·.due = due)
    let w := { w with timers := w.timers.filter (·.due ≠ due) }
    let w := w.happen (.elapse (due - w.elapsed))
    runSpawned manySteps (now.foldl (fun w t => w.fire t.wake) w)

/-- Ticks, until `stop` holds or nothing is left to wait for. -/
def runUntil (stop : World → Bool) (fuel : Nat) (w : World) : World :=
  match fuel with
  | 0 => w
  | fuel + 1 =>
    if stop w || w.timers.isEmpty then w else runUntil stop fuel w.tick

/-- All spawned tasks run; time stands still. -/
def rest (w : World) : World :=
  runSpawned manySteps w

/-! ## Driving a world -/

/-- A wait of that many milliseconds. -/
def wait (w : World) (ms : Nat) : World :=
  if ms = 0 then w.rest
  else
    let w := { w with paused := false }.rest.setTimer ms .pause
    runUntil (·.paused) manySteps w

/-- A request begins in the background; the answer is its number. -/
def dispatch (w : World) (request : Request) : Nat × World :=
  let id := w.nextCall
  (id, (pursue manySteps { w with nextCall := id + 1 } id (.begin id request)).rest)

/-- Waits until a call is over; the answer is what it came to. -/
def join (w : World) (id : Nat) : Option CallResult × World :=
  let stop (w : World) : Bool := (w.callOf? id).isNone
  let w := runUntil stop manySteps w.rest
  (w.resultOf? id, w)

/-- A request is made and waited for. -/
def call (w : World) (request : Request) : Option CallResult × World :=
  let (id, w) := w.dispatch request
  w.join id

/-- Something is done to the node without waiting, and all tasks run. -/
def act {α : Type} (w : World) (f : Clock → Node → α × Node) : α × World :=
  let (a, w) := w.onNode (f w.system.clock)
  (a, w.publishAll.rest)

/-- The node shuts down and a new one takes its place; the old one's calls go on. -/
def replaceNode (w : World) : World :=
  let node := w.system.node.shutdown.restart
  { w with former := w.system :: w.former, system := .idle node w.system.clock }.publishAll.rest

/-- An action on the store. -/
def store {α : Type} (w : World) (x : Clock → StoreM α) : Except StoreError α × World :=
  w.act fun clock n => n.attempt (x clock)

end World

end Courier
