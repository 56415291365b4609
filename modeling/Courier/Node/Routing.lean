import Courier.Node.Delivery

/-!
# Routing a message

`Node.route` sends a message to every device of its recipient. Link administration and group
messages go to their recipient alone, and so does a message whose recipient cannot be resolved.

A fan-out starts the sends in the order of the destinations and is over when every one of them has
settled. Its report lists the outcomes in the order in which they settled; if any failed, the
result is the failure that settled first instead (`FanOut.result`).

A route that waits is a value (`Route`). It goes on with `Node.resumeRoute` when the directory has
answered and with `Node.answerRoute` when the transport has. A route dies where the settling of a
handshake does (`Node.settleSend`).
-/

namespace Courier

/-- Why a message did not reach a device. -/
inductive RouteError where
  | sendFailed (destination : Identity) (cause : SendError)
  /-- The store failed while the send was prepared. -/
  | store (destination : Identity) (cause : StoreError)
  deriving DecidableEq, Repr

namespace RouteError

/-- The device that was not reached. -/
def destination : RouteError → Identity
  | .sendFailed d _ => d
  | .store d _ => d

/-- The text of an error. -/
def message : RouteError → String
  | .sendFailed d cause => s!"send to {d} failed: {cause.message}"
  | .store d cause => "storage error preparing send to " ++ d ++ ": " ++ cause.message.getD ""

end RouteError

/-- What a route did. -/
structure DeliveryReport where
  /-- The message went to all devices of its recipient, not to the recipient alone. -/
  fannedOut : Bool
  /-- In the order in which they settled. -/
  outcomes : List (Destination × DeliveryOutcome)
  deriving DecidableEq, Repr

/-- What became of a device in a route. -/
def DeliveryReport.outcomeFor (r : DeliveryReport) (identity : Identity) :
    Option DeliveryOutcome :=
  (r.outcomes.find? (·.1.identity = identity)).map (·.2)

/-- The result of a route. -/
abbrev RouteResult := Except RouteError DeliveryReport

/-- The sends of one message to several devices. -/
structure FanOut where
  message : OutgoingMessage
  /-- The sends that have not settled, in the order of their start. -/
  pending : List PendingSend
  /-- What has settled well, in the order of settling. -/
  outcomes : List (Destination × DeliveryOutcome)
  /-- The failure that settled first. -/
  failure : Option RouteError
  deriving DecidableEq, Repr

namespace FanOut

/-- A fan-out that has not started any send. -/
def start (m : OutgoingMessage) : FanOut :=
  { message := m, pending := [], outcomes := [], failure := none }

/-- One destination has settled well. -/
def succeed (f : FanOut) (d : Destination) (o : DeliveryOutcome) : FanOut :=
  { f with outcomes := f.outcomes ++ [(d, o)] }

/-- One destination has failed. -/
def fail (f : FanOut) (e : RouteError) : FanOut :=
  { f with failure := f.failure.or (some e) }

/-- A send has settled. -/
def settle (f : FanOut) (p : PendingSend) (result : SendResult) : FanOut :=
  let f := { f with pending := f.pending.filter (·.destination ≠ p.destination) }
  match result with
  | .ok () => f.succeed p.destination p.outcome
  | .error e => f.fail (.sendFailed p.destination.identity e)

/-- The result of a fan-out all of whose sends have settled. -/
def result (f : FanOut) : RouteResult :=
  match f.failure with
  | some e => .error e
  | none => .ok { fannedOut := true, outcomes := f.outcomes }

end FanOut

/-- A route that waits. -/
inductive Route where
  /-- For the directory. -/
  | resolving (m : OutgoingMessage) (r : Resolving)
  /-- For the transport, with one send to the recipient alone. -/
  | direct (m : OutgoingMessage) (thread : ThreadRow) (envelope : OutgoingEnvelope)
  /-- For the transport, with a send for each device. -/
  | fanningOut (f : FanOut)
  deriving DecidableEq, Repr

/-- A route goes on waiting, it is over, or its task has died. -/
inductive RouteStep where
  | waits (r : Route)
  | ends (result : RouteResult)
  | dies

namespace Node

/-- The one send of a direct route has settled. A group's own messages count as its activity. -/
def finishDirect (n : Node) (w : Surroundings) (m : OutgoingMessage) (thread : ThreadRow)
    (envelope : OutgoingEnvelope) (result : SendResult) : RouteResult × Node :=
  let n := n.note (.answered envelope result)
  match result with
  | .error e => (.error (.sendFailed m.recipient e), n)
  | .ok () =>
    let n := if m.thread.isGroup then
        n.effect (Store.recordThreadActivity w.clock thread.id m.timestamp)
      else n
    (.ok { fannedOut := false, outcomes := [(⟨m.recipient, true⟩, .sent)] }, n)

/-- The conversation a message belongs to, created if it is missing. -/
def threadOf (m : OutgoingMessage) : StoreM ThreadRow :=
  match m.thread with
  | .group id => Store.getOrCreateGroupThread id
  | .contact identity => Store.getOrCreateContactThread identity false

/-- The message goes to its recipient alone. -/
def sendDirect (n : Node) (w : Surroundings) (m : OutgoingMessage) : RouteStep × Node :=
  match n.attempt (threadOf m) with
  | (.error e, n) => (.ends (.error (.store m.recipient e)), n)
  | (.ok thread, n) =>
    let envelope := m.envelopeFor m.recipient thread.id
    let n := n.note (.handed envelope false)
    match w.atOnce envelope with
    | none => (.waits (.direct m thread envelope), n)
    | some result =>
      let (result, n) := n.finishDirect w m thread envelope result
      (.ends result, n)

/-- A send has settled: the fan-out goes on without it, or its task dies. -/
def settleIn (n : Node) (w : Surroundings) (f : FanOut) (p : PendingSend) (result : SendResult) :
    Option FanOut × Node :=
  match n.settleSend w p result with
  | (true, n) => (some (f.settle p result), n)
  | (false, n) => (none, n)

/-- The send for one more destination starts. -/
def launch (n : Node) (w : Surroundings) (f : FanOut) (d : Destination) : Option FanOut × Node :=
  match n.attempt (prepareSend w f.message d) with
  | (.error e, n) => (some (f.fail (.store d.identity e)), n)
  | (.ok none, n) => (some (f.succeed d .skippedPendingHandshake), n)
  | (.ok (some p), n) =>
    let n := n.note (.handed p.envelope p.isHandshake)
    match w.atOnce p.envelope with
    | none => (some { f with pending := f.pending ++ [p] }, n)
    | some result => n.settleIn w f p result

/-- The sends to several destinations start, in their order. -/
def launchAll (w : Surroundings) : List Destination → FanOut → Node → Option FanOut × Node
  | [], f, n => (some f, n)
  | d :: rest, f, n =>
    match n.launch w f d with
    | (none, n) => (none, n)
    | (some f, n) => launchAll w rest f n

/-- A fan-out goes on waiting until nothing is pending. -/
def checkFanOut : Option FanOut → RouteStep
  | none => .dies
  | some f => if f.pending.isEmpty then .ends f.result else .waits (.fanningOut f)

/-- The message goes to all destinations. -/
def fanOut (n : Node) (w : Surroundings) (m : OutgoingMessage) (destinations : List Destination) :
    RouteStep × Node :=
  let (f, n) := launchAll w destinations (FanOut.start m) n
  (checkFanOut f, n)

/-- The resolve of a route has made a step. -/
def continueRoute (n : Node) (w : Surroundings) (m : OutgoingMessage) (step : ResolveStep) :
    RouteStep × Node :=
  match step with
  | .waits r => (.waits (.resolving m r), n)
  | .ends (.ok destinations) => n.fanOut w m destinations
  | .ends (.error _) => n.sendDirect w m

/-- A route begins. -/
def route (n : Node) (w : Surroundings) (m : OutgoingMessage) : RouteStep × Node :=
  if m.kind.isLinkAdmin || m.thread.isGroup then n.sendDirect w m
  else
    n.continueRoute w m
      (n.links.resolve n.settings.refreshInterval w.clock.instant m.recipient)

/-- A resolve goes on with the directory's answer. -/
def resumeResolve (n : Node) (clock : Clock) (r : Resolving) (answer : DirectoryAnswer) :
    ResolveStep × Node :=
  let (step, links, store) :=
    r.resume n.settings.refreshInterval clock.instant answer n.links n.store
  (step, { n with links, store })

/-- A route that waits for the directory goes on with its answer. -/
def resumeRoute (n : Node) (w : Surroundings) (route : Route) (answer : DirectoryAnswer) :
    RouteStep × Node :=
  match route with
  | .resolving m r =>
    let (step, n) := n.resumeResolve w.clock r answer
    n.continueRoute w m step
  | _ => (.waits route, n)

/-- A route that waits for the transport goes on with its answer for one device. -/
def answerRoute (n : Node) (w : Surroundings) (route : Route) (identity : Identity)
    (result : SendResult) : RouteStep × Node :=
  match route with
  | .direct m thread envelope =>
    let (result, n) := n.finishDirect w m thread envelope result
    (.ends result, n)
  | .fanningOut f =>
    match f.pending.find? (·.destination.identity = identity) with
    | none => (.waits route, n)
    | some p =>
      let (f, n) := n.settleIn w f p result
      (checkFanOut f, n)
  | .resolving .. => (.waits route, n)

end Node

end Courier
