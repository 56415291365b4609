import Courier.Node.System
import Courier.Proofs.Trust.Calls

/-!
# What one event does to the handshakes of a contact

`System.ledger` reads the ledger of a contact off a system.

* `step_goes`: almost every event takes all ledgers along paths, and loses deliveries only where a
  call dies (`System.Dies`).
* `step_settle`: a task that settles a handshake (`System.settlementAt`) writes the state of its
  contact, or the write fails.
* `step_restart`: a restart loses whatever was in flight.
* `ledger_step`: for one contact, these are all the cases.

`System.WellFormed` holds at the start and after every event (`wellFormed_step`).
-/

namespace Courier

/-- The event is a request that sends a handshake without a decision on trust. -/
def Event.free : Event → Prop
  | .begin _ r => r.free
  | _ => False

namespace System

variable {s : System} {x : Exchange} {e : Event} {i : Identity} {y : Settlement}

/-- How many handshakes for a contact some calls wait for. -/
def sendingIn (i : Identity) : List (Nat × Call) → Nat
  | [] => 0
  | c :: calls => c.2.sending i + sendingIn i calls

/-- How many handshakes for a contact wait for the transport. -/
def sending (s : System) (i : Identity) : Nat :=
  sendingIn i s.calls

/-- The ledger of a contact. -/
def ledger (s : System) (i : Identity) : Ledger :=
  s.node.ledger i (s.sending i)

/-- The settlement that an event writes. -/
def settlementAt (s : System) : Event → Option Settlement
  | .run k =>
    match s.node.spawned[k]? with
    | some (.settle y) => some y
    | _ => none
  | _ => none

/-- How many handshakes for a contact the event settles, whether or not the write succeeds. -/
def settles (s : System) (i : Identity) (e : Event) : Nat :=
  if (s.settlementAt e).any (·.identity = i) then 1 else 0

/-- The event kills the task of a call. -/
def Dies (s : System) (x : Exchange) (e : Event) : Prop :=
  ∃ id, (s.step x e).finished = (id, .died) :: s.finished

/-- What every system satisfies that has come from an idle one. -/
structure WellFormed (s : System) : Prop where
  keyed : s.node.store.Keyed
  ids : (s.calls.map (·.1)).Nodup
  distinct : ∀ c ∈ s.calls, c.2.Distinct
  follows : ∀ i, ∀ y ∈ (s.ledger i).unsettled, y.Follows

/-! ## A step of a call -/

/-- The handshakes that calls other than `id` wait for. -/
def sendingBut (s : System) (id : Nat) (i : Identity) : Nat :=
  sendingIn i (s.calls.filter (·.1 ≠ id))

theorem sending_of_lookup {id : Nat} {c : Call} (hn : (s.calls.map (·.1)).Nodup)
    (hc : s.calls.lookup id = some c) : s.sending i = c.sending i + s.sendingBut id i := by
  unfold sending sendingBut
  generalize s.calls = calls at hn hc
  induction calls with
  | nil => cases hc
  | cons a calls ih =>
    rw [List.map_cons, List.nodup_cons] at hn
    by_cases ha : a.1 = id
    · subst ha
      rw [List.lookup_cons_self] at hc
      have hrest : calls.filter (·.1 ≠ a.1) = calls := List.filter_eq_self.mpr fun b hb => by
        refine decide_eq_true fun heq => hn.1 ?_
        exact heq ▸ List.mem_map_of_mem (f := fun c : Nat × Call => c.1) hb
      rw [List.filter_cons_of_neg (by simp), hrest]
      cases hc
      rfl
    · rw [List.lookup_cons, show (id == a.1) = false by simpa using Ne.symm ha] at hc
      rw [List.filter_cons_of_pos (by simpa using ha), sendingIn, sendingIn, ih hn.2 hc]
      omega

theorem sendingBut_of_lookup {id : Nat} (hc : s.calls.lookup id = none) :
    s.sendingBut id i = s.sending i := by
  unfold sending sendingBut
  rw [List.filter_eq_self.mpr fun c hc' => ?_]
  have hne := List.lookup_eq_none_iff.mp hc c hc'
  exact decide_eq_true fun heq => by simp [heq] at hne

theorem settleCall_sending (id : Nat) (out : CallStep × Node) :
    (s.settleCall id out).sending i = out.1.sending i + s.sendingBut id i := by
  rcases out with ⟨c | r, n⟩
  · rfl
  · exact (Nat.zero_add _).symm

theorem settleCall_node (id : Nat) (out : CallStep × Node) :
    (s.settleCall id out).node = out.2 := by
  rcases out with ⟨c | r, n⟩ <;> rfl

theorem settleCall_died {id : Nat} {out : CallStep × Node} (h : out.1.Died) :
    (s.settleCall id out).finished = (id, .died) :: s.finished := by
  rcases out with ⟨c | r, n⟩
  · cases h
  · cases r <;> first | rfl | cases h

/-- The system has come from `s` to `s'` by paths in all ledgers; what is lost beside is lost with a
task. -/
structure Goes (s : System) (free dies : Prop) (s' : System) : Prop where
  wellFormed : s'.WellFormed
  outage : s'.node.store.outage = s.node.store.outage
  path : ∀ i, ∃ lost, (¬ dies → lost = 0) ∧
    Ledger.Path free (s.ledger i) ((s'.ledger i).more lost)

theorem settleCall_goes (hwf : s.WellFormed) {free : Prop} {id : Nat} {h : Identity → Nat}
    {out : CallStep × Node} (hg : s.node.CallGoes free h out)
    (hs : ∀ i, s.sending i = h i + s.sendingBut id i) :
    s.Goes free out.1.Died (s.settleCall id out) := by
  obtain ⟨lost, hl, hp⟩ := hg.leads.path
  -- what the other calls wait for stands beside the path of this one
  have hpath (i : Identity) :
      Ledger.Path free (s.ledger i) (((s.settleCall id out).ledger i).more (lost i)) := by
    have := Ledger.path_more (hp i) (s.sendingBut id i)
    have hfrom : (s.node.ledger i (h i)).more (s.sendingBut id i) = s.ledger i := by
      unfold ledger
      rw [hs]
      rfl
    have hto : (out.2.ledger i (out.1.sending i + lost i)).more (s.sendingBut id i) =
        ((s.settleCall id out).ledger i).more (lost i) := by
      unfold ledger
      rw [settleCall_sending, settleCall_node]
      simp only [Node.ledger, Ledger.more, Ledger.mk.injEq, true_and, and_true]
      omega
    rwa [hfrom, hto] at this
  have hfollows (i : Identity) : ∀ y ∈ ((s.settleCall id out).ledger i).unsettled, y.Follows :=
    fun y hy => Ledger.path_follows (hpath i) (hwf.follows i) y hy
  have hids : ((s.calls.filter (·.1 ≠ id)).map (·.1)).Nodup :=
    (List.filter_sublist.map _).nodup hwf.ids
  have hdistinct : ∀ c ∈ s.calls.filter (·.1 ≠ id), c.2.Distinct := fun c hc =>
    hwf.distinct c (List.mem_filter.mp hc).1
  refine ⟨?_, ?_, fun i => ⟨lost i, fun hn => hl hn i, hpath i⟩⟩
  · rcases out with ⟨c | r, n⟩
    · refine ⟨hg.leads.keyed, ?_, ?_, hfollows⟩
      · refine List.nodup_cons.mpr ⟨fun hmem => ?_, hids⟩
        obtain ⟨c', hc', hid⟩ := List.mem_map.mp hmem
        exact of_decide_eq_true (List.mem_filter.mp hc').2 hid
      · intro c' hc'
        rcases List.mem_cons.mp hc' with rfl | hc'
        · exact hg.distinct
        · exact hdistinct c' hc'
    · exact ⟨hg.leads.keyed, hids, hdistinct, hfollows⟩
  · rw [settleCall_node]
    exact hg.leads.outage

/-! ## The kinds of events -/

theorem Goes.mono {s' : System} {free dies dies' : Prop} (hg : s.Goes free dies s')
    (h : dies → dies') : s.Goes free dies' s' :=
  ⟨hg.wellFormed, hg.outage, fun i =>
    (hg.path i).imp fun _ ⟨hl, hp⟩ => ⟨fun hn => hl (hn ∘ h), hp⟩⟩

/-- A change of the node alone. -/
theorem node_goes {free dies : Prop} {node : Node} (hwf : s.WellFormed)
    (hl : Node.Leads False False s.node s.sending node s.sending) :
    s.Goes free dies { s with node } := by
  obtain ⟨lost, hlost, hp⟩ := hl.path
  have hpath (i : Identity) :
      Ledger.Path False (s.ledger i) (({ s with node } : System).ledger i) := by
    have := hp i
    rw [hlost id i, Nat.add_zero] at this
    exact this
  exact ⟨⟨hl.keyed, hwf.ids, hwf.distinct, fun i => Ledger.path_follows (hpath i) (hwf.follows i)⟩,
    hl.outage, fun i => ⟨0, fun _ => rfl, Ledger.path_widen (hpath i)⟩⟩

/-- An event that leaves the node alone. -/
theorem same_goes {free dies : Prop} (hwf : s.WellFormed) : s.Goes free dies s :=
  ⟨hwf, rfl, fun _ => ⟨0, fun _ => rfl, .refl⟩⟩

theorem clock_goes {free dies : Prop} {clock : Clock} (hwf : s.WellFormed) :
    s.Goes free dies { s with clock } :=
  ⟨⟨hwf.keyed, hwf.ids, hwf.distinct, hwf.follows⟩, rfl, fun _ => ⟨0, fun _ => rfl, .refl⟩⟩

theorem step_begin {id : Nat} {r : Request} (h : s.calls.lookup id = none) :
    s.step x (.begin id r) = s.settleCall id (s.node.begin (s.surroundings x) r) := by
  simp only [step, h]

theorem step_begin_again {id : Nat} {r : Request} {c : Call} (h : s.calls.lookup id = some c) :
    s.step x (.begin id r) = s := by
  simp only [step, h]

theorem step_answer {id : Nat} {a : Answer} {c : Call} (h : s.calls.lookup id = some c) :
    s.step x (.answer id a) = s.settleCall id (s.node.answer (s.surroundings x) c a) := by
  simp only [step, h]

theorem step_answer_none {id : Nat} {a : Answer} (h : s.calls.lookup id = none) :
    s.step x (.answer id a) = s := by
  simp only [step, h]

/-- The events that neither settle a handshake nor restart the node. -/
theorem step_goes (hwf : s.WellFormed) (he : s.settlementAt e = none) (hr : e ≠ .restart) :
    s.Goes e.free (s.Dies x e) (s.step x e) := by
  have hk := hwf.keyed
  cases e with
  | begin id r =>
    cases hc : s.calls.lookup id with
    | some c =>
      rw [step_begin_again hc]
      exact same_goes hwf
    | none =>
      unfold Dies
      rw [step_begin hc]
      refine (settleCall_goes hwf (Node.begin_goes hk) fun i => ?_).mono fun hd =>
        ⟨id, settleCall_died hd⟩
      rw [sendingBut_of_lookup hc, Nat.zero_add]
  | answer id a =>
    cases hc : s.calls.lookup id with
    | none =>
      rw [step_answer_none hc]
      exact same_goes hwf
    | some c =>
      unfold Dies
      rw [step_answer hc]
      exact (settleCall_goes hwf (Node.answer_goes hk (hwf.distinct _ (mem_of_lookup hc)))
        fun i => sending_of_lookup hwf.ids hc).mono fun hd => ⟨id, settleCall_died hd⟩
  | run k =>
    cases hx : s.node.spawned[k]? with
    | none =>
      rw [show s.step x (.run k) = s by simp only [step, onNode, Node.runAt, hx]]
      exact same_goes hwf
    | some y =>
      cases y with
      | settle y => simp [settlementAt, hx] at he
      | poll generation =>
        have hstep : s.step x (.run k) = { s with node :=
            { s.node with spawned := s.node.spawned.eraseIdx k }.wakeLoop generation } := by
          simp only [step, onNode, Node.runAt, Node.run, hx]
        rw [hstep]
        have hl : Node.Leads False False s.node s.sending
            { s.node with spawned := s.node.spawned.eraseIdx k } s.sending := by
          refine ⟨rfl, hk, fun _ => 0, fun _ _ => rfl, fun i => ?_⟩
          obtain ⟨a, b, hs, hs'⟩ := Node.settlesOf_eraseIdx (i := i) hx
          rw [Spawned.settlement?, Option.toList_none, List.append_nil] at hs
          have : ({ s.node with spawned := s.node.spawned.eraseIdx k } : Node).ledger i
              (s.sending i + 0) = s.node.ledger i (s.sending i) := by
            unfold Node.ledger
            rw [hs, hs']
            rfl
          rw [this]
        exact node_goes hwf (hl.trans (Node.wakeLoop_leads hl.keyed))
  | nodes generation pick a => exact node_goes hwf (Node.lookedUp_leads hk)
  | grant generation => exact node_goes hwf (Node.granted_leads hk)
  | batch generation a => exact node_goes hwf (Node.fetched_leads hk)
  | wake generation => exact node_goes hwf (Node.wakeLoop_leads hk)
  | elapse ms => exact clock_goes hwf
  | jump ms => exact clock_goes hwf
  | startPolling group => exact node_goes hwf (Node.startPolling_leads group hk)
  | stopPolling group => exact node_goes hwf (Node.leads_polls hk)
  | stopAllPolling => exact node_goes hwf (Node.leads_polls hk)
  | startAllPolling => exact node_goes hwf (Node.startAllPolling_leads hk)
  | establish j => exact node_goes hwf (Node.leads_effect hk (StoreM.drifts_markEstablished j))
  | sweep now => exact node_goes hwf (Node.leads_effect hk (StoreM.drifts_expireStale now))
  | beginSession name => exact node_goes hwf (.of_drift (.refl hk) rfl rfl)
  | endSession => exact node_goes hwf (.of_drift (.refl hk) rfl rfl)
  | load => exact node_goes hwf (Node.loadLinks_leads hk)
  | start => exact node_goes hwf (Node.start_leads hk)
  | shutdown => exact node_goes hwf (.of_drift (.refl hk) rfl rfl)
  | restart => exact absurd rfl hr

theorem settlementAt_eq_some (h : s.settlementAt e = some y) :
    ∃ k, e = .run k ∧ s.node.spawned[k]? = some (.settle y) := by
  unfold settlementAt at h
  split at h
  · next k =>
    split at h
    · next hk =>
      cases h
      exact ⟨k, rfl, hk⟩
    · cases h
  · cases h

/-- The store after a settlement's write. -/
theorem settlement_apply (y : Settlement) (st : Store) (hk : st.Keyed) :
    (y.apply st).outage = st.outage ∧ (y.apply st).Keyed ∧
      ∀ i, (y.apply st).standing i =
        if i = y.identity ∧ st.outage st.calls .writeHandshakeState = none then
          (st.standing i).map fun _ => y.standing
        else st.standing i := by
  unfold Settlement.apply StoreM.effect
  rcases writeHandshakeState_cases st y.identity y.state y.expiresAt with
    ⟨err, ho, hw⟩ | ⟨ho, found, st', hw, ho', hk', hs⟩ <;> rw [hw]
  · exact ⟨rfl, hk, fun i => by rw [if_neg fun h => by simp [ho] at h]; rfl⟩
  · refine ⟨ho', hk' hk, fun i => ?_⟩
    rw [hs]
    simp only [ho, and_true]
    rfl

/-- What a task that settles a handshake does to the ledger of its contact. -/
structure Settled (l : Ledger) (y : Settlement) (written : Prop) [Decidable written]
    (l' : Ledger) : Prop where
  follows : y.Follows
  built : l'.built = l.built
  inFlight : l'.inFlight + 1 = l.inFlight
  row : l'.row = if written then l.row.map fun _ => y.standing else l.row

/-- A task that settles a handshake: its settlement is gone, and it is written unless the write
fails. -/
theorem step_settle (hwf : s.WellFormed) (he : s.settlementAt e = some y) :
    (s.step x e).WellFormed ∧ (s.step x e).node.store.outage = s.node.store.outage ∧
      (∀ i, i ≠ y.identity → (s.step x e).ledger i = s.ledger i) ∧
      Settled (s.ledger y.identity) y
        (s.node.store.outage s.node.store.calls .writeHandshakeState = none)
        ((s.step x e).ledger y.identity) := by
  obtain ⟨k, rfl, hk⟩ := settlementAt_eq_some he
  obtain ⟨ho, hkeyed, hrow⟩ := settlement_apply y s.node.store hwf.keyed
  have hstep : s.step x (.run k) = { s with node := { s.node with
      spawned := s.node.spawned.eraseIdx k, store := y.apply s.node.store } } := by
    simp only [step, onNode, Node.runAt, Node.run, hk]
  -- the spawned tasks before and after the one that runs
  have hledger (i : Identity) : ∃ a b,
      s.ledger i = ⟨s.node.store.standing i, s.sending i,
        a ++ ((Spawned.settle y).settlement? i).toList ++ b, s.node.builtFor i⟩ ∧
      (s.step x (.run k)).ledger i =
        ⟨(y.apply s.node.store).standing i, s.sending i, a ++ b, s.node.builtFor i⟩ := by
    obtain ⟨a, b, hs, hs'⟩ := Node.settlesOf_eraseIdx (i := i) hk
    refine ⟨a, b, ?_, ?_⟩
    · rw [← hs]
      rfl
    · rw [hstep, ← hs']
      rfl
  have hother (i : Identity) (hi : i ≠ y.identity) : (s.step x (.run k)).ledger i = s.ledger i := by
    obtain ⟨a, b, hl, hl'⟩ := hledger i
    rw [hl, hl', hrow, if_neg (hi ·.1), Spawned.settlement?, if_neg (Ne.symm hi),
      Option.toList_none, List.append_nil]
  obtain ⟨a, b, hl, hl'⟩ := hledger y.identity
  rw [Spawned.settlement?, if_pos rfl, Option.toList_some] at hl
  have hfollows := hwf.follows y.identity
  rw [hl] at hfollows
  refine ⟨⟨?_, ?_, ?_, fun i => ?_⟩, ?_, hother, ?_⟩
  · rw [hstep]
    exact hkeyed
  · rw [hstep]
    exact hwf.ids
  · rw [hstep]
    exact hwf.distinct
  · by_cases hi : i = y.identity
    · subst hi
      rw [hl']
      intro z hz
      exact hfollows z (by rcases List.mem_append.mp hz with hz | hz <;> simp [hz])
    · rw [hother i hi]
      exact hwf.follows i
  · rw [hstep]
    exact ho
  · rw [hl, hl']
    refine ⟨hfollows y (by simp), rfl, ?_, ?_⟩
    · simp only [Ledger.inFlight, List.length_append, List.length_singleton]
      omega
    · dsimp only
      rw [hrow]
      simp

/-- A restart loses what was in flight. -/
theorem step_restart (hwf : s.WellFormed) :
    (s.step x .restart).WellFormed ∧ (s.step x .restart).node.store.outage = s.node.store.outage ∧
      ∀ i, (s.step x .restart).ledger i = ⟨(s.ledger i).row, 0, [], (s.ledger i).built⟩ := by
  have hl (i : Identity) :
      (s.step x .restart).ledger i = ⟨(s.ledger i).row, 0, [], (s.ledger i).built⟩ := rfl
  have hcalls : (s.step x .restart).calls = [] := rfl
  refine ⟨⟨hwf.keyed, ?_, fun c hc => ?_, fun i y hy => ?_⟩, rfl, hl⟩
  · rw [hcalls]
    exact .nil
  · rw [hcalls] at hc
    cases hc
  · rw [hl] at hy
    cases hy

/-! ## Any event -/

theorem event_cases (s : System) (e : Event) :
    (s.settlementAt e = none ∧ e ≠ .restart) ∨ (∃ y, s.settlementAt e = some y) ∨ e = .restart := by
  cases hs : s.settlementAt e with
  | some y => exact .inr (.inl ⟨y, rfl⟩)
  | none =>
    by_cases hr : e = .restart
    · exact .inr (.inr hr)
    · exact .inl ⟨rfl, hr⟩

theorem wellFormed_step (hwf : s.WellFormed) (x : Exchange) (e : Event) :
    (s.step x e).WellFormed ∧ (s.step x e).node.store.outage = s.node.store.outage := by
  rcases s.event_cases e with ⟨he, hr⟩ | ⟨y, he⟩ | rfl
  · exact ⟨(step_goes hwf he hr).wellFormed, (step_goes hwf he hr).outage⟩
  · exact ⟨(step_settle hwf he).1, (step_settle hwf he).2.1⟩
  · exact ⟨(step_restart hwf).1, (step_restart (x := x) hwf).2.1⟩

theorem settles_of_none (h : s.settlementAt e = none) : s.settles i e = 0 := by
  simp [settles, h]

theorem settles_of_some (h : s.settlementAt e = some y) :
    s.settles i e = if y.identity = i then 1 else 0 := by
  simp [settles, h]

/-- What one event does to the ledger of a contact. -/
inductive LedgerStep (s : System) (x : Exchange) (e : Event) (i : Identity) : Prop where
  /-- A path; deliveries are lost only where a call dies. -/
  | path (lost : Nat) (h0 : s.settles i e = 0) (hr : e ≠ .restart)
      (hlost : ¬ s.Dies x e → lost = 0)
      (hp : Ledger.Path e.free (s.ledger i) (((s.step x e).ledger i).more lost))
  /-- A task settles a handshake. -/
  | settles (k : Nat) (y : Settlement) (he : e = .run k) (h1 : s.settles i e = 1)
      (hs : Settled (s.ledger i) y
        (s.node.store.outage s.node.store.calls .writeHandshakeState = none)
        ((s.step x e).ledger i))
  /-- What is in flight is lost. -/
  | restarts (he : e = .restart)
      (hl : (s.step x e).ledger i = ⟨(s.ledger i).row, 0, [], (s.ledger i).built⟩)

theorem ledger_step (hwf : s.WellFormed) (x : Exchange) (e : Event) (i : Identity) :
    s.LedgerStep x e i := by
  rcases s.event_cases e with ⟨he, hr⟩ | ⟨y, he⟩ | rfl
  · obtain ⟨lost, hlost, hp⟩ := (step_goes (x := x) hwf he hr).path i
    exact .path lost (settles_of_none he) hr hlost hp
  · obtain ⟨-, -, hother, hy⟩ := step_settle (x := x) hwf he
    by_cases hi : y.identity = i
    · subst hi
      obtain ⟨k, rfl, -⟩ := settlementAt_eq_some he
      exact .settles k y rfl (by rw [settles_of_some he, if_pos rfl]) hy
    · have hr : e ≠ .restart := by
        rintro rfl
        cases he
      refine .path 0 (by rw [settles_of_some he, if_neg hi]) hr (fun _ => rfl) ?_
      rw [hother i (Ne.symm hi)]
      exact .refl
  · exact .restarts rfl ((step_restart hwf).2.2 i)

/-! ## Runs -/

theorem wellFormed_run (hwf : s.WellFormed) (events : List (Exchange × Event)) :
    (s.run events).WellFormed ∧ (s.run events).node.store.outage = s.node.store.outage := by
  induction events generalizing s with
  | nil => exact ⟨hwf, rfl⟩
  | cons p events ih =>
    obtain ⟨hwf', ho⟩ := wellFormed_step hwf p.1 p.2
    exact ⟨(ih hwf').1, (ih hwf').2.trans ho⟩

theorem wellFormed_idle {settings : Settings} {store : Store} {clock : Clock} (hk : store.Keyed) :
    (idle (.assemble settings store) clock).WellFormed :=
  ⟨hk, .nil, fun _ hc => absurd hc List.not_mem_nil, fun _ _ hy => absurd hy List.not_mem_nil⟩

end System

end Courier
