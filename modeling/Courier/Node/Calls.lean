import Courier.Node.LinkEvents
import Courier.Node.Routing

/-!
# Calls that wait

Every request to a node that may have to wait for a service is a `Request`; once it waits it is a
`Call`, which says what it waits for (`Call.questions`). `Node.begin` runs a request until it first
waits, `Node.answer` goes on with a service's `Answer` until it waits again. An answer that a call
does not wait for changes nothing.
-/

namespace Courier

/-- What a node can be asked to do that may take time. -/
inductive Request where
  | resolve (identity : Identity)
  /-- The links that involve a device, from the cache if it is young enough. -/
  | view (identity : Identity) (maxAge : Duration)
  | route (m : OutgoingMessage)
  /-- A handshake is sent on its own. -/
  | handshake (identity : Identity) (hidden : Bool)
  | control (m : LinkControl)
  | unlink (sender : Identity)

/-- A request that waits. -/
inductive Call where
  | resolve (r : Resolving)
  | view (identity : Identity)
  | route (r : Route)
  | handshake (d : HandshakeDelivery)
  | control (j : Judging)
  | unlink (u : Unlinking)

/-- What a call asks a service. -/
inductive Question where
  /-- The directory: which links involve the device? -/
  | links (identity : Identity)
  /-- The directory: remove the link. -/
  | removal (link : DeviceLink)
  /-- The transport: carry the envelope. -/
  | delivery (envelope : OutgoingEnvelope)
  /-- The linking session: is this acceptable? -/
  | verdict (session : String) (intent : LinkIntent)

/-- What a service answers. -/
inductive Answer where
  | links (answer : DirectoryAnswer)
  | removal (result : Except DirectoryError Unit)
  /-- The transport, for the envelope to a device. -/
  | delivery (identity : Identity) (result : SendResult)
  | verdict (v : Verdict)

/-- What a request came to. -/
inductive CallResult where
  | destinations (result : Except DirectoryError (List Destination))
  | links (result : DirectoryAnswer)
  | report (result : RouteResult)
  | handshake (result : SendResult)
  /-- The handshake could not be prepared. -/
  | unprepared (e : StoreError)
  | control (outcome : LinkOutcome)
  | unlink (outcome : UnlinkOutcome)
  /-- The task died. -/
  | died

/-- A call goes on waiting, or it is over. -/
inductive CallStep where
  | waits (c : Call)
  | ends (r : CallResult)

/-- A step of a resolve, as one of a call. -/
def ResolveStep.toCall : ResolveStep → CallStep
  | .waits r => .waits (.resolve r)
  | .ends result => .ends (.destinations result)

/-- A step of a route, as one of a call. -/
def RouteStep.toCall : RouteStep → CallStep
  | .waits r => .waits (.route r)
  | .ends result => .ends (.report result)
  | .dies => .ends .died

/-- A step of a control message, as one of a call. -/
def LinkStep.toCall : LinkStep → CallStep
  | .waits j => .waits (.control j)
  | .ends outcome => .ends (.control outcome)

/-- A step of an unlink request, as one of a call. -/
def UnlinkStep.toCall : UnlinkStep → CallStep
  | .waits u => .waits (.unlink u)
  | .ends outcome => .ends (.unlink outcome)

/-- What a call waits for. A fan-out may wait for several envelopes at a time. -/
def Call.questions : Call → List Question
  | .resolve r => [.links r.asks]
  | .view identity => [.links identity]
  | .route (.resolving _ r) => [.links r.asks]
  | .route (.direct _ _ envelope) => [.delivery envelope]
  | .route (.fanningOut f) => f.pending.map fun p => .delivery p.envelope
  | .handshake d => [.delivery d.envelope]
  | .control j => [.verdict j.session j.intent]
  | .unlink (.confirming _ device) => [.links device]
  | .unlink (.removing link _ _) => [.removal link]

namespace Node

/-- The transport has answered for a handshake that was sent on its own. -/
def finishHandshake (n : Node) (w : Surroundings) (d : HandshakeDelivery) (result : SendResult) :
    CallStep × Node :=
  match (n.note (.answered d.envelope result)).settleHandshake w d result with
  | (true, n) => (.ends (.handshake result), n)
  | (false, n) => (.ends .died, n)

/-- A handshake is prepared and handed to the transport. -/
def sendHandshake (n : Node) (w : Surroundings) (identity : Identity) (hidden : Bool) :
    CallStep × Node :=
  match n.attempt (buildHandshake w.clock (w.messageId identity) identity hidden) with
  | (.error e, n) => (.ends (.unprepared e), n)
  | (.ok (_, d), n) =>
    let n := n.note (.handed d.envelope true)
    match w.atOnce d.envelope with
    | none => (.waits (.handshake d), n)
    | some result => n.finishHandshake w d result

/-- A request runs until it waits for the first time. -/
def begin (n : Node) (w : Surroundings) : Request → CallStep × Node
  | .resolve identity =>
    ((n.links.resolve n.settings.refreshInterval w.clock.instant identity).toCall, n)
  | .view identity maxAge =>
    match n.links.recentView maxAge w.clock.instant identity with
    | some links => (.ends (.links (.ok links)), n)
    | none => (.waits (.view identity), n)
  | .route m => let (step, n) := n.route w m; (step.toCall, n)
  | .handshake identity hidden => n.sendHandshake w identity hidden
  | .control m => let (step, n) := n.receiveLink m; (step.toCall, n)
  | .unlink sender => let (step, n) := n.receiveUnlink w.clock sender; (step.toCall, n)

/-- A call goes on with an answer until it waits again. -/
def answer (n : Node) (w : Surroundings) : Call → Answer → CallStep × Node
  | .resolve r, .links a => let (step, n) := n.resumeResolve w.clock r a; (step.toCall, n)
  | .view _, .links a => (.ends (.links a), n)
  | .route r, .links a => let (step, n) := n.resumeRoute w r a; (step.toCall, n)
  | .route r, .delivery identity result =>
    let (step, n) := n.answerRoute w r identity result
    (step.toCall, n)
  | .handshake d, .delivery _ result => n.finishHandshake w d result
  | .control j, .verdict v =>
    let (outcome, n) := n.concludeLink w.clock j v
    (.ends (.control outcome), n)
  | .unlink u, .links a => let (step, n) := n.resumeUnlink u a; (step.toCall, n)
  | .unlink u, .removal result => let (step, n) := n.removedRemotely u result; (step.toCall, n)
  | c, _ => (.waits c, n)

end Node

end Courier
