import Courier.Proofs.Routing.Deliveries

/-!
# The activity of groups

The last activity of a group is what has been noted for it, one after the other (`Note.after`): the
messages of the swarm that the store has accepted and the messages of the node's own that were
delivered and recorded (`System.notes`), each at the moment at which that happened.

* `foldl_withArrival_activity`, `Store.Sends.groupActivity`: what either kind of message does to it.
* `System.activity_step`, `System.activity_run`: the activity after an event, and after a run.
-/

namespace Courier

/-- Activity that was noted: when it took place as its sender says, and the moment of noting. -/
structure Note where
  timestamp : Int64
  moment : Int64
  deriving DecidableEq

/-- The last activity once this is noted. -/
def Note.after (last : Option Int64) (x : Note) : Option Int64 :=
  activityAfter x.moment x.timestamp last

instance : RightCommutative Note.after where
  right_comm last x y := activityAfter_comm y.moment y.timestamp x.moment x.timestamp last

/-! ## Messages of the swarm -/

/-- What the accepted messages of a group are as activity. -/
def notesOf (clock : Clock) (as : List Arrival) (g : GroupId) : List Note :=
  (as.filter (·.group = g)).map fun a => ⟨a.envelope.timestamp, clock.now⟩

theorem foldl_withArrival_activity {clock : Clock} {g : GroupId} (as : List Arrival) (db : Database) :
    (as.foldl (Database.withArrival clock) db).threads.groupActivity g =
      (notesOf clock as g).foldl Note.after (db.threads.groupActivity g) := by
  induction as generalizing db with
  | nil => rfl
  | cons a as ih =>
    have hone : (db.withArrival clock a).threads.groupActivity g = _ :=
      ThreadTable.groupActivity_hear clock.now a.envelope.timestamp
    rw [List.foldl_cons, ih, hone]
    unfold notesOf
    by_cases h : a.group = g
    · rw [List.filter_cons_of_pos (by simpa using h), if_pos h.symm]
      rfl
    · rw [List.filter_cons_of_neg (by simpa using h), if_neg fun h' => h h'.symm]

/-! ## Messages of the node -/

namespace Store

variable {s s' : Store} {clock : Clock} {sent : Option OutgoingMessage} {g : GroupId}

/-- What a delivered message is as activity of a group, if the store has recorded it. -/
def sentNotes (s : Store) (clock : Clock) (sent : Option OutgoingMessage) (g : GroupId) :
    List Note :=
  match sent with
  | none => []
  | some m =>
    if m.thread = .group g ∧ s.LastSucceeded .recordThreadActivity then
      [⟨m.timestamp, clock.now⟩]
    else []

theorem Sends.groupActivity (h : s.Sends clock sent s') (hn : s.db.threads.Numbered) :
    s'.db.threads.groupActivity g =
      (s'.sentNotes clock sent g).foldl Note.after (s.db.threads.groupActivity g) := by
  unfold sentNotes
  obtain ⟨hedits, hcontact⟩ | ⟨m, g', s₁, id, rfl, hthread, hedits, hid, hthreads⟩ := h.cases
  · rw [hedits.groupActivity]
    cases sent with
    | none => rfl
    | some m =>
      have hthread : m.thread ≠ .group g := by
        intro h
        have := hcontact m rfl
        rw [h] at this
        cases this
      dsimp only
      rw [if_neg fun h => hthread h.1]
      rfl
  · dsimp only
    rw [hthreads, hthread]
    by_cases hlast : s'.LastSucceeded .recordThreadActivity
    · rw [if_pos hlast, ThreadTable.groupActivity_noteActivity (hedits.numbered hn) hid,
        hedits.groupActivity]
      by_cases hg : g = g'
      · rw [if_pos hg, if_pos ⟨by rw [hg], hlast⟩]
        rfl
      · rw [if_neg hg, if_neg fun h => hg (by cases h.1; rfl)]
        rfl
    · rw [if_neg hlast, if_neg fun h => hlast h.2]
      exact hedits.groupActivity

end Store

/-! ## Runs -/

namespace System

variable {s : System} {x : Exchange} {e : Event} {g : GroupId}

/-- The last activity of a group, as the store has it. -/
def lastActivity (s : System) (g : GroupId) : Option Int64 :=
  s.node.store.db.threads.groupActivity g

/-- What an event notes as activity of a group. -/
def notes (s : System) (x : Exchange) (e : Event) (g : GroupId) : List Note :=
  notesOf s.clock (s.accepted e) g ++
    (s.step x e).node.store.sentNotes s.clock (s.delivered x e) g

/-- What a run notes as activity of a group, in the order in which it does. -/
def noted (g : GroupId) : System → List (Exchange × Event) → List Note
  | _, [] => []
  | s, (x, e) :: events => s.notes x e g ++ noted g (s.step x e) events

theorem activity_step (h : s.Anchored) (x : Exchange) (e : Event) :
    (s.step x e).lastActivity g = (s.notes x e g).foldl Note.after (s.lastActivity g) := by
  unfold notes lastActivity
  obtain ⟨hquiet, hdb⟩ | ⟨hnone, hsends⟩ := step_cases (x := x) (e := e) h
  · rw [hquiet, hdb, foldl_withArrival_activity]
    simp [Store.sentNotes]
  · rw [hnone, hsends.groupActivity h.numbered]
    rfl

/-- The last activity of a group after a run. -/
theorem activity_run (h : s.Anchored) (events : List (Exchange × Event)) :
    (s.run events).lastActivity g = (s.noted g events).foldl Note.after (s.lastActivity g) := by
  induction events generalizing s with
  | nil => rfl
  | cons p events ih =>
    rw [noted, List.foldl_append, ← activity_step h]
    exact ih (anchored_step h p.1 p.2)

end System

end Courier
