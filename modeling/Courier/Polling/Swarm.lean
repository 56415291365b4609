import Courier.Envelope

/-!
# The swarm

The storage nodes that keep a group's messages.
-/

namespace Courier

/-- Why the swarm gave no answer. -/
inductive SwarmError where
  | insufficientNodes
  | canceled
  | transport (reason : String)
  deriving DecidableEq, Repr

/-- The nodes that keep a group's messages. -/
abbrev NodesAnswer := Except SwarmError (List SwarmNode)

/-- The messages a node has for a group. -/
abbrev BatchAnswer := Except SwarmError RawBatch

end Courier
