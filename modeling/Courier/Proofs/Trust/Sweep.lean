import Courier.Proofs.Routing.Sends

/-!
# The sweep and the lazy check

Whether a request has lapsed is asked in two places: for the contact of each send, and in a sweep
over all requests, which writes the rows that it has listed before.

* `StoredThread.Overdue`: the rows that a sweep is after. `ThreadTable.swept` is the table with
  these rows marked as expired and all others as they are.
* `attempt_expireStale`: the sweep answers with the peers of the overdue rows, in the order of the
  rows, and leaves the swept table.
* `decision_swept`: what is decided for a contact is the same before and after.
* `sweep_agrees`: both, with the second sweep that finds nothing.
-/

namespace Courier

/-! ## Overdue rows -/

namespace StoredThread

variable {r : StoredThread} {now : Int64} {state : HandshakeState}

/-- The row is that of a request to a contact whose expiry has come. -/
def Overdue (now : Int64) (r : StoredThread) : Prop :=
  r.kind = .contact ∧ r.state = .known .requestSent ∧ ∃ e ∈ r.expiresAt, e ≤ now

instance (now : Int64) (r : StoredThread) : Decidable (r.Overdue now) :=
  have : Decidable (∃ e ∈ r.expiresAt, e ≤ now) :=
    decidable_of_iff (r.expiresAt.any (· ≤ now) = true) (by cases r.expiresAt <;> simp)
  inferInstanceAs (Decidable (_ ∧ _ ∧ _))

/-- The row, marked as expired. -/
def lapse (r : StoredThread) : StoredThread :=
  { r with state := .known .expired, expiresAt := none }

/-- The row, marked as expired if it is overdue. -/
def sweep (now : Int64) (r : StoredThread) : StoredThread :=
  if r.Overdue now then r.lapse else r

theorem sweep_of_overdue (h : r.Overdue now) : r.sweep now = r.lapse :=
  if_pos h

theorem sweep_of_not_overdue (h : ¬ r.Overdue now) : r.sweep now = r :=
  if_neg h

theorem not_overdue_sweep (now : Int64) (r : StoredThread) : ¬ (r.sweep now).Overdue now := by
  intro h
  by_cases hr : r.Overdue now
  · rw [sweep_of_overdue hr] at h
    exact absurd h.2.1 (by simp [lapse])
  · rw [sweep_of_not_overdue hr] at h
    exact hr h

/-- The row as callers see it, if it is in this state. -/
def rowIn (state : HandshakeState) (r : StoredThread) : ThreadRow :=
  { id := r.id, kind := r.kind, peer := r.peer, hidden := r.hidden,
    lastMessageAt := r.lastMessageAt, handshakeState := state, handshakeExpiresAt := r.expiresAt }

theorem read_of_known (h : r.state = .known state) : r.read = .ok (r.rowIn state) := by
  unfold read
  rw [h]
  rfl

theorem due_rowIn : (r.rowIn state).due now = true ↔ ∃ e ∈ r.expiresAt, e ≤ now := by
  unfold ThreadRow.due rowIn
  cases r.expiresAt <;> simp

end StoredThread

namespace ThreadTable

variable {t : ThreadTable} {i : Identity} {now : Int64} {peers : List Identity}

theorem keepsKeys_sweep (now : Int64) : KeepsKeys (·.sweep now) :=
  KeepsKeys.ite (f := (·.lapse)) (fun _ => ⟨rfl, rfl⟩) (·.Overdue now)

/-- The table with every overdue row marked as expired. -/
def swept (t : ThreadTable) (now : Int64) : ThreadTable :=
  { t with rows := t.rows.map (·.sweep now) }

/-- The contacts of the overdue rows, in the order of the rows. -/
def overduePeers (t : ThreadTable) (now : Int64) : List Identity :=
  (t.rows.filter (·.Overdue now)).map (·.peer)

theorem overduePeers_swept : (t.swept now).overduePeers now = [] := by
  unfold overduePeers swept
  have hnone : (t.rows.map (·.sweep now)).filter (·.Overdue now) = [] := by
    refine List.filter_eq_nil_iff.mpr (List.forall_mem_map.mpr fun r _ => ?_)
    simpa using r.not_overdue_sweep now
  rw [hnone, List.map_nil]

/-- What a sweep lists. -/
theorem contactsIn_eq (t : ThreadTable) (state : HandshakeState) :
    t.contactsIn state =
      .ok ((t.rows.filter fun r => r.kind = .contact ∧ r.state = .known state).map
        (·.rowIn state)) := by
  refine mapM_eq_ok_map fun r hr => StoredThread.read_of_known ?_
  exact (of_decide_eq_true (List.mem_filter.mp hr).2).2

/-- Of the rows that are listed, those that are due are the overdue ones. -/
theorem due_of_listed (t : ThreadTable) (now : Int64) :
    ((((t.rows.filter fun r => r.kind = .contact ∧ r.state = .known .requestSent).map
      (·.rowIn .requestSent)).filter (·.due now)).map (·.peer)) = t.overduePeers now := by
  unfold overduePeers
  rw [List.filter_map, List.map_map, List.filter_filter]
  refine congrArg (List.map StoredThread.peer) (List.filter_congr fun r _ => ?_)
  rw [Bool.eq_iff_iff, Bool.and_eq_true, decide_eq_true_iff, decide_eq_true_iff]
  exact (and_congr_left' StoredThread.due_rowIn).trans
    ⟨fun ⟨hdue, hkind, hstate⟩ => ⟨hkind, hstate, hdue⟩,
      fun ⟨hkind, hstate, hdue⟩ => ⟨hdue, hkind, hstate⟩⟩

/-- The contacts of a list are marked as expired, one after the other. -/
def expireAll (t : ThreadTable) (peers : List Identity) : ThreadTable :=
  peers.foldl (fun t p => (t.writeState p .expired none).2) t

theorem expireAll_eq :
    t.expireAll peers =
      { t with rows := t.rows.map fun r =>
          if r.kind = .contact ∧ r.peer ∈ peers then r.lapse else r } := by
  unfold expireAll
  induction peers generalizing t with
  | nil => simp
  | cons p peers ih =>
    rw [List.foldl_cons, ih]
    refine congrArg (ThreadTable.mk · _) ?_
    show (t.rows.map _).map _ = _
    rw [List.map_map]
    refine List.map_congr_left fun r _ => ?_
    -- a row that is marked twice is marked as once
    by_cases hkind : r.kind = .contact <;> by_cases hp : r.peer = p <;>
      simp [StoredThread.Is, StoredThread.lapse, hkind, hp]

/-- With one row for each contact, marking the contacts of the overdue rows marks these rows. -/
theorem Keyed.expireAll_overduePeers (h : t.Keyed) (now : Int64) :
    t.expireAll (t.overduePeers now) = t.swept now := by
  rw [expireAll_eq]
  refine congrArg (ThreadTable.mk · _) (List.map_congr_left fun r hr => ?_)
  unfold StoredThread.sweep
  refine if_congr ⟨?_, fun hover => ⟨hover.1, ?_⟩⟩ rfl rfl
  · rintro ⟨hkind, hpeer⟩
    obtain ⟨q, hq, hsame⟩ := List.mem_map.mp hpeer
    obtain ⟨hq, hover⟩ := List.mem_filter.mp hq
    have hover : q.Overdue now := of_decide_eq_true hover
    have hfound := h.find?_of_mem hq
    rw [hover.1, hsame, ← hkind, h.find?_of_mem hr] at hfound
    rw [Option.some.inj hfound]
    exact hover
  · exact List.mem_map_of_mem (List.mem_filter.mpr ⟨hr, decide_eq_true hover⟩)

end ThreadTable

/-! ## The sweep -/

section Sweep

variable {s : Store} {now : Int64}

theorem attempt_expireOne_of_due (hrel : s.Reliable) {t : ThreadRow} (hdue : t.due now)
    (hrow : (s.db.threads.find? .contact t.peer).isSome) (expired : List Identity) :
    (expireOne now expired t).attempt s =
      (.ok (expired ++ [t.peer]),
        { s with
          calls := s.calls + 1
          db := { s.db with threads := (s.db.threads.writeState t.peer .expired none).2 } }) := by
  unfold expireOne Store.writeHandshakeState Store.change
  rw [if_pos hdue, StoreM.attempt_bind, hrel.attempt_call]
  unfold ThreadTable.writeState
  dsimp only
  rw [hrow]
  rfl

/-- The rows that were listed are worked off, each that is due by a write of its own. -/
theorem attempt_foldlM_expireOne (now : Int64) (rows : List ThreadRow) :
    ∀ {s : Store}, s.Reliable →
      (∀ r ∈ rows, (s.db.threads.find? .contact r.peer).isSome) → ∀ expired : List Identity,
      ∃ s', (rows.foldlM (expireOne now) expired).attempt s =
          (.ok (expired ++ (rows.filter (·.due now)).map (·.peer)), s') ∧ s'.Reliable ∧
        s'.db = { s.db with
          threads := s.db.threads.expireAll ((rows.filter (·.due now)).map (·.peer)) } := by
  induction rows with
  | nil => exact fun {s} hrel _ expired => ⟨s, by simp; rfl, hrel, rfl⟩
  | cons r rows ih =>
    intro s hrel hrows expired
    rw [List.foldlM_cons, StoreM.attempt_bind]
    by_cases hdue : r.due now = true
    · rw [attempt_expireOne_of_due hrel hdue (hrows r (.head _)), List.filter_cons_of_pos hdue,
        List.map_cons]
      have hrows' : ∀ q ∈ rows,
          ((s.db.threads.writeState r.peer .expired none).2.find? .contact q.peer).isSome := by
        intro q hq
        unfold ThreadTable.writeState
        rw [ThreadTable.find?_update (ThreadTable.keepsKeys_writeState .expired none)]
        split <;> simpa using hrows q (.tail _ hq)
      obtain ⟨s', hfold, hrel', hdb⟩ := ih (s := { s with
        calls := s.calls + 1
        db := { s.db with threads := (s.db.threads.writeState r.peer .expired none).2 } })
        hrel hrows' (expired ++ [r.peer])
      rw [List.append_assoc] at hfold
      exact ⟨s', hfold, hrel', hdb⟩
    · have hskip : (expireOne now expired r).attempt s = (.ok expired, s) := by
        unfold expireOne
        rw [if_neg hdue]
        rfl
      rw [hskip, List.filter_cons_of_neg hdue]
      exact ih hrel (fun q hq => hrows q (.tail _ hq)) expired

/-- The sweep answers with the contacts of the overdue rows and marks these rows. -/
theorem attempt_expireStale (hrel : s.Reliable) (hk : s.db.threads.Keyed) (now : Int64) :
    ∃ s', (expireStale now).attempt s = (.ok (s.db.threads.overduePeers now), s') ∧
      s'.Reliable ∧ s'.db = { s.db with threads := s.db.threads.swept now } := by
  unfold expireStale Store.listHandshakes Store.query
  rw [StoreM.attempt_bind, hrel.attempt_call]
  dsimp only
  rw [ThreadTable.contactsIn_eq]
  -- the listed rows are in the table, so that every write finds its contact
  have hlisted : ∀ r ∈ (s.db.threads.rows.filter fun r =>
      r.kind = .contact ∧ r.state = .known .requestSent).map (·.rowIn .requestSent),
      (s.db.threads.find? .contact r.peer).isSome := by
    refine List.forall_mem_map.mpr fun r hr => ?_
    obtain ⟨hr, hrequest⟩ := List.mem_filter.mp hr
    have hfound := hk.find?_of_mem hr
    rw [(of_decide_eq_true hrequest).1] at hfound
    exact Option.isSome_iff_exists.mpr ⟨r, hfound⟩
  obtain ⟨s', hfold, hrel', hdb⟩ := attempt_foldlM_expireOne now _
    (s := { s with calls := s.calls + 1 }) hrel hlisted []
  rw [ThreadTable.due_of_listed, List.nil_append] at hfold
  rw [ThreadTable.due_of_listed, hk.expireAll_overduePeers] at hdb
  exact ⟨s', hfold, hrel', hdb⟩

end Sweep

/-! ## The lazy check -/

/-- A new handshake is due to the contact of an overdue row, whether or not it was swept. -/
theorem decideFor_sweep (now : Int64) (r : StoredThread) :
    ((r.sweep now).read.map some).map (decideFor now) = (r.read.map some).map (decideFor now) := by
  by_cases hover : r.Overdue now
  · obtain ⟨-, hstate, hexpiry⟩ := id hover
    have hdue : (r.rowIn .requestSent).due now = true := StoredThread.due_rowIn.mpr hexpiry
    rw [StoredThread.sweep_of_overdue hover, StoredThread.read_of_known hstate,
      StoredThread.read_of_known (r := r.lapse) rfl]
    refine congrArg Except.ok ?_
    have hlapsed : (r.rowIn .requestSent).lapsed now = true := by
      unfold ThreadRow.lapsed
      rw [hdue]
      rfl
    show decideFor now (some (r.lapse.rowIn .expired)) = decideFor now (some (r.rowIn .requestSent))
    unfold decideFor
    dsimp only
    rw [hlapsed]
    rfl
  · rw [StoredThread.sweep_of_not_overdue hover]

/-- What is decided for a contact is the same before and after a sweep. -/
theorem Database.decision_swept (db : Database) (clock : Clock) (i : Identity)
    (kind : MessageKind) :
    { db with threads := db.threads.swept clock.now : Database }.decision clock i kind =
      db.decision clock i kind := by
  rw [Database.decision_eq, Database.decision_eq]
  refine congrArg (ite _ _) ?_
  show ((db.threads.swept clock.now).contact i).map _ = _
  unfold ThreadTable.contact ThreadTable.swept
  rw [ThreadTable.find?_map_rows (ThreadTable.keepsKeys_sweep clock.now)]
  cases db.threads.find? .contact i with
  | none => rfl
  | some r => exact decideFor_sweep clock.now r

/-- Let no two conversations be of one kind and peer, and the rows stand in the order of their ids,
as every run of calls leaves them. A sweep at `now` answers with the contacts of the overdue rows in
the order of their ids: those in the state of a sent request whose expiry is set and at or before
`now`. It marks these rows as expired, without an expiry, and changes nothing else; a second sweep
finds nothing and changes nothing. Whatever is to be sent to whom, the decision at that wall time is
the same before and after the sweep. -/
theorem sweep_agrees (s : Store) (hrel : s.Reliable) (hkeyed : s.db.threads.Keyed)
    (hrising : s.db.threads.rows.Pairwise (·.id < ·.id)) (now : Int64) :
    let overdue := s.db.threads.rows.filter (·.Overdue now)
    ∃ s', (expireStale now).attempt s = (.ok (overdue.map (·.peer)), s') ∧
      overdue.Pairwise (·.id < ·.id) ∧
      s'.db = { s.db with threads := { s.db.threads with
        rows := s.db.threads.rows.map fun r =>
          if r.Overdue now then { r with state := .known .expired, expiresAt := none } else r } } ∧
      (∃ s'', (expireStale now).attempt s' = (.ok [], s'') ∧ s''.db = s'.db) ∧
      ∀ (clock : Clock) (i : Identity) (m : OutgoingMessage), clock.now = now →
        ((decideHandshake clock i m.kind).attempt s').1 =
          ((decideHandshake clock i m.kind).attempt s).1 := by
  intro overdue
  obtain ⟨s', hsweep, hrel', hdb⟩ := attempt_expireStale hrel hkeyed now
  have hthreads : s'.db.threads = s.db.threads.swept now := congrArg Database.threads hdb
  have hkeyed' : s'.db.threads.Keyed := by
    rw [hthreads]
    exact hkeyed.map_rows (ThreadTable.keepsKeys_sweep now)
  refine ⟨s', hsweep, hrising.filter _, hdb, ?_, ?_⟩
  · obtain ⟨s'', hagain, -, hdb'⟩ := attempt_expireStale hrel' hkeyed' now
    have hnone : s'.db.threads.overduePeers now = [] := by
      rw [hthreads]
      exact ThreadTable.overduePeers_swept
    refine ⟨s'', hnone ▸ hagain, ?_⟩
    rw [hdb', ← hkeyed'.expireAll_overduePeers, hnone]
    rfl
  · rintro clock i m rfl
    obtain ⟨_, hafter, -⟩ := hrel'.attempt_decideHandshake clock i m.kind
    obtain ⟨_, hbefore, -⟩ := hrel.attempt_decideHandshake clock i m.kind
    rw [hafter, hbefore, hdb]
    exact s.db.decision_swept clock i m.kind

/-- Two requests are overdue at 5, one of them just then. One has no expiry, one has time left, and
one row holds a state that means nothing. -/
theorem sweep_agrees_on_boundary :
    let row (id : Int) (kind : ThreadKind) (peer : String) (state : StoredState)
      (expiresAt : Option Int64) : StoredThread := ⟨id, kind, peer, true, none, state, expiresAt⟩
    let s := Store.reliable { Database.empty with threads := ⟨
      [row 1 .contact "ann" (.known .requestSent) (some 5),
        row 2 .group "ann" (.known .absent) none,
        row 3 .contact "bob" (.known .requestSent) none,
        row 4 .contact "carol" (.known .requestSent) (some 6),
        row 5 .contact "dan" (.known .requestSent) (some (-1)),
        row 7 .contact "eve" (.unknown "?") (some 1)], 7⟩ }
    s.Reliable ∧ s.db.threads.Keyed ∧ s.db.threads.rows.Pairwise (·.id < ·.id) ∧
      ∃ s', (expireStale 5).attempt s = (.ok ["ann", "dan"], s') ∧
        (∃ s'', (expireStale 5).attempt s' = (.ok [], s'')) ∧
        ((decideHandshake ⟨0, 5⟩ "ann" .visible).attempt s').1 = .ok .sendHandshake ∧
        ((decideHandshake ⟨0, 5⟩ "carol" .visible).attempt s').1 = .ok .alreadyPending ∧
        ((decideHandshake ⟨0, 5⟩ "eve" .visible).attempt s').1 =
          .error (.corrupt "handshake state '?'") := by
  intro row s
  have hrel : s.Reliable := fun _ _ => rfl
  have hkeyed : s.db.threads.Keyed := by
    unfold ThreadTable.Keyed
    decide
  have hrising : s.db.threads.rows.Pairwise (·.id < ·.id) := by decide
  obtain ⟨s', hsweep, -, -, ⟨s'', hagain, -⟩, hdecide⟩ := sweep_agrees s hrel hkeyed hrising 5
  have hsame (i : Identity) :=
    hdecide ⟨0, 5⟩ i (.compose "m" i (.contact i) .visible [] 0) (by decide +kernel)
  refine ⟨hrel, hkeyed, hrising, s', ?_, ⟨s'', hagain⟩, (hsame "ann").trans ?_,
    (hsame "carol").trans ?_, (hsame "eve").trans ?_⟩
  · exact hsweep.trans (congrArg (·, s') (by decide +kernel))
  all_goals decide +kernel

end Courier
