import Courier.Node.System

/-!
# Scripted services

Stand-ins for what a node talks to. Each answers from what it was told beforehand and keeps a log
of what it was asked, so that a run of a node can be repeated and looked at. Delays are in
milliseconds; an answer is fixed when the question comes in, except that of the transport, which
is fixed when its delay is over.
-/

namespace Courier

/-- A directory that holds a list of links. -/
structure ScriptedDirectory where
  links : List DeviceLink
  /-- Answers to be given first, in order. -/
  script : List DirectoryAnswer
  /-- The error every other question gets. -/
  down : Option DirectoryError
  /-- The error every removal gets. -/
  removalError : Option DirectoryError
  delay : Nat
  fetched : List Identity
  removed : List DeviceLink

namespace ScriptedDirectory

/-- A directory without links. -/
def empty : ScriptedDirectory :=
  { links := [], script := [], down := none, removalError := none, delay := 0, fetched := [],
    removed := [] }

/-- The answer to the question for the links of a device. -/
def fetch (d : ScriptedDirectory) (identity : Identity) : DirectoryAnswer × ScriptedDirectory :=
  let d := { d with fetched := d.fetched ++ [identity] }
  match d.script with
  | a :: rest => (a, { d with script := rest })
  | [] =>
    match d.down with
    | some e => (.error e, d)
    | none => (.ok (d.links.filter (·.Involves identity)), d)

/-- The links without those of the same pairing as one of `ls`. -/
def forget (d : ScriptedDirectory) (ls : List DeviceLink) : ScriptedDirectory :=
  { d with links := d.links.filter fun x => ¬ ∃ l ∈ ls, l.SamePair x }

/-- The answer to the removal of a link. -/
def remove (d : ScriptedDirectory) (l : DeviceLink) :
    Except DirectoryError Unit × ScriptedDirectory :=
  match d.removalError with
  | some e => (.error e, d)
  | none => (.ok (), { d.forget [l] with removed := d.removed ++ [l] })

end ScriptedDirectory

/-- A transport that delays and refuses by recipient. -/
structure ScriptedTransport where
  failures : List (Identity × SendError)
  delays : List (Identity × Nat)
  /-- What was answered, in order. -/
  log : List (OutgoingEnvelope × SendResult)

namespace ScriptedTransport

/-- A transport that carries everything at once. -/
def empty : ScriptedTransport := ⟨[], [], []⟩

/-- The delay of sends to a device. -/
def delayOf (t : ScriptedTransport) (identity : Identity) : Nat :=
  (t.delays.lookup identity).getD 0

/-- What becomes of an envelope whose delay is over. -/
def resultFor (t : ScriptedTransport) (e : OutgoingEnvelope) : SendResult :=
  match t.failures.lookup e.recipient with
  | some error => .error error
  | none => .ok ()

/-- The answer for an envelope whose recipient has no delay. -/
def atOnce (t : ScriptedTransport) (e : OutgoingEnvelope) : Option SendResult :=
  if t.delayOf e.recipient = 0 then some (t.resultFor e) else none

/-- Sends to a device fail from now on, or no longer. -/
def setFailure (t : ScriptedTransport) (identity : Identity) (e : Option SendError) :
    ScriptedTransport :=
  let others := t.failures.filter (·.1 ≠ identity)
  { t with failures := e.elim others fun e => (identity, e) :: others }

/-- Sends to a device take this long from now on. -/
def setDelay (t : ScriptedTransport) (identity : Identity) (ms : Nat) : ScriptedTransport :=
  { t with delays := (identity, ms) :: t.delays.filter (·.1 ≠ identity) }

end ScriptedTransport

/-- A request for messages, as the swarm saw it. -/
structure SwarmFetch where
  /-- In milliseconds of the monotonic clock. -/
  moment : Nat
  cursor : Option String
  /-- The node that was asked; nothing if it was one of several. -/
  node : Option SwarmNode

/-- The swarm of one group. -/
structure ScriptedSwarm where
  group : GroupId
  nodes : NodesAnswer
  /-- Answers to requests for messages, in order; after them come empty batches. -/
  queue : List BatchAnswer
  lookupDelay : Nat
  fetchDelay : Nat
  lookups : Nat
  fetches : List SwarmFetch

namespace ScriptedSwarm

/-- A swarm of `count` nodes. -/
def nodesOf (count : Nat) : List SwarmNode :=
  (List.range count).map fun i => ⟨s!"10.0.0.{i + 1}", 22021, none⟩

/-- A swarm of one node without messages. -/
def quiet (group : GroupId) : ScriptedSwarm :=
  { group, nodes := .ok (nodesOf 1), queue := [], lookupDelay := 0, fetchDelay := 0, lookups := 0,
    fetches := [] }

/-- The answer to a request for messages. -/
def fetch (s : ScriptedSwarm) (moment : Nat) (node : SwarmNode) (cursor : Option String) :
    BatchAnswer × ScriptedSwarm :=
  let several := match s.nodes with
    | .ok nodes => decide (1 < nodes.length)
    | .error _ => false
  let node := if several then none else some node
  let entry : SwarmFetch := { moment, cursor, node }
  let s := { s with fetches := s.fetches ++ [entry] }
  match s.queue with
  | a :: rest => (a, { s with queue := rest })
  | [] => (.ok ⟨[], none⟩, s)

end ScriptedSwarm

/-- A control message that a linking session was asked to judge. -/
structure SessionCall where
  session : String
  intent : LinkIntent

/-- The application: what its linking session says, and the notifications it has received. -/
structure ScriptedApplication where
  verdict : Verdict
  calls : List SessionCall
  subscribed : Bool
  received : List Notification

/-- An application that accepts everything and listens. -/
def ScriptedApplication.empty : ScriptedApplication :=
  { verdict := .ok (), calls := [], subscribed := true, received := [] }

end Courier
