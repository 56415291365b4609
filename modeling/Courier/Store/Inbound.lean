import Courier.Store.Threads
import Courier.Time.Calendar
import Courier.Wire.Envelope

/-!
# The inbound queue

Accepted envelopes wait here for the receive pipeline, each under an id and at most one for each
server hash. A job keeps the text of its envelope. Queueing a group's envelope notes activity of
that group in the same step (`enqueue`); a repeated hash changes nothing at all.
-/

namespace Courier

/-- A queued envelope as the store holds it. -/
structure StoredJob where
  id : Int
  serverHash : Option String
  text : Octets
  enqueuedAt : String
  deriving DecidableEq, Repr

/-- The job as callers see it. -/
def StoredJob.read (j : StoredJob) : Except StoreError InboundJob :=
  match InboundEnvelope.ofText? j.text with
  | some envelope => .ok { id := j.id, envelope, enqueuedAt := j.enqueuedAt }
  | none => .error .malformedText

/-- The queue, in the order of ids. -/
structure JobTable where
  jobs : List StoredJob
  lastId : Nat
  deriving DecidableEq, Repr

namespace JobTable

/-- Nothing is queued. -/
def empty : JobTable := ⟨[], 0⟩

/-- A job with this server hash is queued; an envelope without a hash repeats no other. -/
def Holds (t : JobTable) (hash : Option String) : Prop :=
  hash.isSome ∧ ∃ j ∈ t.jobs, j.serverHash = hash

instance (t : JobTable) (hash : Option String) : Decidable (t.Holds hash) :=
  inferInstanceAs (Decidable (_ ∧ ∃ j ∈ t.jobs, j.serverHash = hash))

/-- The queue with one more envelope at its end. -/
def push (t : JobTable) (enqueuedAt : String) (e : InboundEnvelope) : JobTable :=
  let id := t.lastId + 1
  { jobs := t.jobs ++ [{ id, serverHash := e.serverHash, text := e.encode, enqueuedAt }]
    lastId := id }

/-- The first `limit` jobs. -/
def first (t : JobTable) (limit : Nat) : Except StoreError (List InboundJob) :=
  (t.jobs.take limit).mapM StoredJob.read

end JobTable

/-- An envelope is queued and its group's activity noted, unless its hash is queued already. The
answer is the id of the new job. -/
def enqueue (clock : Clock) (e : InboundEnvelope) (jobs : JobTable) (threads : ThreadTable) :
    Option Int × JobTable × ThreadTable :=
  if jobs.Holds e.serverHash then (none, jobs, threads)
  else
    let queued := jobs.push (Calendar.timestampText clock.wall) e
    match e.groupId with
    | none => (some queued.lastId, queued, threads)
    | some group =>
      (some queued.lastId, queued,
        (threads.ensure .group group false).update .group group
          (·.noteActivity clock.now e.timestamp))

end Courier
