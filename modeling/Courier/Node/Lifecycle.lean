import Courier.Node.LinkEvents
import Courier.Node.Polling
import Courier.Node.Routing

/-!
# Starting and stopping a node

A start fills the link cache from the store, marks lapsed handshakes as expired, and polls every
known group. A shutdown stops the polling and ends the linking session. After a restart only the
store is left; tasks that had been spawned are gone with the process.
-/

namespace Courier

namespace Node

/-- The link cache is filled from the store; the answer is the number of links. -/
def loadLinks (n : Node) : Except StoreError Nat × Node :=
  match n.attempt n.links.load with
  | (.error e, n) => (.error e, n)
  | (.ok (count, links), n) => (.ok count, { n with links })

/-- The node starts. What was done before a failure stays done. -/
def start (n : Node) (clock : Clock) : Except StoreError Unit × Node :=
  match n.loadLinks with
  | (.error e, n) => (.error e, n)
  | (.ok _, n) =>
    match n.attempt (expireStale clock.now) with
    | (.error e, n) => (.error e, n)
    | (.ok _, n) =>
      match n.startAllPolling with
      | (.error e, n) => (.error e, n)
      | (.ok _, n) => (.ok (), n)

/-- The node stops polling and ends its linking session. -/
def shutdown (n : Node) : Node :=
  { n.stopAllPolling.2 with session := none }

/-- A new node takes the place of this one. The journal goes on, and so does the count of
generations: what the swarm still answers to a loop of the old node reaches none of the new one. -/
def restart (n : Node) : Node :=
  { assemble n.settings n.store with
    polls := { PollTable.empty with nextGeneration := n.polls.nextGeneration }
    journal := n.journal }

end Node

end Courier
