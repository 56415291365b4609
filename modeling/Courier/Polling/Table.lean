import Courier.Polling.Swarm

/-!
# Which groups are polled

A polled group has a `PollEntry`, and a `PollLoop` does the polling. Entry and loop belong together
when they have the same generation; a generation is never given twice. Stopping a group removes its
entry and cancels its loop. The loop may still wait for an answer of the swarm; it ends when it
next looks whether it was cancelled.

The table is behind a lock. A loop that has looked up the nodes of its swarm waits for the lock to
read its cursor, and may be stopped while it waits.
-/

namespace Courier

/-- What is known about the polling of a group. -/
structure PollState where
  isActive : Bool
  /-- The moment of the next poll (monotonic nanoseconds). -/
  deadline : Option Nat
  /-- The group's last activity at the latest poll. -/
  lastActivity : Option Int64
  /-- What the next poll passes to the swarm. -/
  cursor : Option String
  polls : Nat
  deriving DecidableEq, Repr

/-- The state of a group that was never polled. -/
def PollState.initial : PollState :=
  { isActive := true, deadline := none, lastActivity := none, cursor := none, polls := 0 }

/-- A polled group. -/
structure PollEntry where
  group : GroupId
  state : PollState
  generation : Nat
  deriving DecidableEq, Repr

/-- What a loop is doing. -/
inductive LoopPhase where
  /-- It has not run yet. -/
  | starting
  /-- It waits for the nodes of the swarm. -/
  | lookingUp
  /-- It waits for the lock of the table, to read the cursor that it passes to a node. -/
  | locking (node : SwarmNode)
  /-- It waits for the messages of a node. -/
  | fetching (node : SwarmNode) (cursor : Option String)
  /-- It waits for the moment of the next poll. -/
  | sleeping (deadline : Nat)
  deriving DecidableEq, Repr

/-- A task that polls one group. -/
structure PollLoop where
  generation : Nat
  group : GroupId
  cancelled : Bool
  phase : LoopPhase
  deriving DecidableEq, Repr

/-- A loop is told to stop. One that sleeps ends at once, another one when it next looks. -/
def PollLoop.stopped? (l : PollLoop) : Option PollLoop :=
  match l.phase with
  | .sleeping _ => none
  | _ => some { l with cancelled := true }

/-- The polled groups and their loops. -/
structure PollTable where
  entries : List PollEntry
  loops : List PollLoop
  nextGeneration : Nat
  deriving DecidableEq, Repr

namespace PollTable

/-- Nothing is polled. -/
def empty : PollTable := ⟨[], [], 0⟩

/-- The entry of a group. -/
def entry? (t : PollTable) (group : GroupId) : Option PollEntry :=
  t.entries.find? (·.group = group)

/-- The loop of a generation. -/
def loop? (t : PollTable) (generation : Nat) : Option PollLoop :=
  t.loops.find? (·.generation = generation)

/-- Polling of a group starts, unless it is polled already; the answer is the generation of the
new loop. An attempt uses up a generation in either case. -/
def start (t : PollTable) (group : GroupId) : Option Nat × PollTable :=
  let generation := t.nextGeneration
  match t.entry? group with
  | some _ => (none, { t with nextGeneration := generation + 1 })
  | none =>
    (some generation,
      { entries := t.entries ++ [⟨group, .initial, generation⟩]
        loops := t.loops ++ [⟨generation, group, false, .starting⟩]
        nextGeneration := generation + 1 })

/-- The loops whose generation satisfies `p` are told to stop. -/
def cancel (t : PollTable) (p : Nat → Bool) : PollTable :=
  let loops := t.loops.filterMap fun l => if p l.generation then l.stopped? else some l
  { t with loops }

/-- Polling of a group stops; the answer says whether it was polled. -/
def stop (t : PollTable) (group : GroupId) : Bool × PollTable :=
  match t.entry? group with
  | none => (false, t)
  | some e =>
    (true, { t with entries := t.entries.filter (·.group ≠ group) }.cancel (· = e.generation))

/-- Polling of every group stops; the answer is the number of groups. -/
def stopAll (t : PollTable) : Nat × PollTable :=
  (t.entries.length,
    { t with entries := [] }.cancel fun g => t.entries.any (·.generation = g))

/-- The state of a group is changed, if its entry is still the one of this generation. -/
def updateState (t : PollTable) (group : GroupId) (generation : Nat) (f : PollState → PollState) :
    PollTable :=
  { t with entries := t.entries.map fun e =>
      if e.group = group ∧ e.generation = generation then { e with state := f e.state } else e }

/-- A loop goes on to another phase. -/
def setPhase (t : PollTable) (generation : Nat) (phase : LoopPhase) : PollTable :=
  { t with loops := t.loops.map fun l =>
      if l.generation = generation then { l with phase } else l }

/-- A loop ends. -/
def endLoop (t : PollTable) (generation : Nat) : PollTable :=
  { t with loops := t.loops.filter (·.generation ≠ generation) }

end PollTable

end Courier
