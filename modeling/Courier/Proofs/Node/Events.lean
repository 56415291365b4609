import Courier.Proofs.Node.Keeps

/-!
# What an event is about

An event makes one change to links or queue (`System.prepared`), and leaves them alone after that
(`System.step_keeps`). So settings and outage never change, and a call goes on waiting until it is
answered. What waits after an event did so before, or has just begun to (`System.calls_step_cases`).
-/

namespace Courier

/-- The call that goes on after a step. -/
def CallStep.call? : CallStep → Option Call
  | .waits c => some c
  | .ends _ => none

theorem CallStep.eq_of_call? {step : CallStep} {c : Call} (h : step.call? = some c) :
    step = .waits c := by
  cases step <;> cases h
  rfl

namespace System

variable {s : System} {x : Exchange} {e : Event}

/-- The change of links that an event brings. -/
def linkWork (s : System) : Event → Option LinkWork
  | .answer id a => (s.calls.lookup id).bind (·.linkWork a)
  | _ => none

/-- The node once the links are changed or read, or the messages queued, that the event is about. -/
def prepared (s : System) (e : Event) : Node :=
  match e with
  | .batch generation a => s.node.received s.clock generation a
  | .load | .start => s.node.loadLinks.2
  | _ => ((s.linkWork e).map (s.node.relink s.clock.instant)).getD s.node

theorem step_begin_talks (id : Nat) (r : Request) :
    s.node.Talks (s.step x (.begin id r)).node := by
  cases hc : s.calls.lookup id with
  | some c =>
    rw [step_begin_again hc]
    exact .refl _
  | none =>
    rw [step_begin hc, settleCall_node]
    exact Node.begin_talks r

theorem prepared_answer {id : Nat} {a : Answer} {c : Call} (hc : s.calls.lookup id = some c) :
    s.prepared (.answer id a) =
      ((c.linkWork a).map (s.node.relink s.clock.instant)).getD s.node := by
  show (((s.calls.lookup id).bind (·.linkWork a)).map _).getD _ = _
  rw [hc]
  rfl

theorem prepared_answer_none {id : Nat} {a : Answer} (hc : s.calls.lookup id = none) :
    s.prepared (.answer id a) = s.node := by
  show (((s.calls.lookup id).bind (·.linkWork a)).map _).getD _ = _
  rw [hc]
  rfl

theorem step_answer_talks (id : Nat) (a : Answer) :
    (s.prepared (.answer id a)).Talks (s.step x (.answer id a)).node := by
  cases hc : s.calls.lookup id with
  | none =>
    rw [step_answer_none hc, prepared_answer_none hc]
    exact .refl _
  | some c =>
    rw [step_answer hc, prepared_answer hc, settleCall_node]
    exact Node.answer_talks (w := s.surroundings x) c a

/-- Every event but a restart, once the change that it is about is made. -/
theorem step_keeps (hr : e ≠ .restart) : (s.prepared e).Keeps (s.step x e).node := by
  cases e with
  | begin id r => exact (step_begin_talks id r).toKeeps
  | answer id a => exact (step_answer_talks id a).toKeeps
  | run k =>
    show s.node.Keeps (s.node.runAt k)
    unfold Node.runAt
    split
    · exact .refl _
    · next y _ =>
      have hgone : s.node.Keeps { s.node with spawned := s.node.spawned.eraseIdx k } :=
        ⟨rfl, rfl, rfl, rfl⟩
      cases y with
      | settle y =>
        exact ⟨rfl, rfl, StoreM.keeps_writeHandshakeState y.identity y.state y.expiresAt _⟩
      | poll generation => exact hgone.trans (Node.wakeLoop_keeps generation)
  | nodes generation pick a => exact Node.lookedUp_keeps generation pick a
  | grant generation => exact Node.granted_keeps generation
  | batch generation a => exact Node.fetched_keeps generation a
  | wake generation => exact Node.wakeLoop_keeps generation
  | elapse ms => exact .refl _
  | jump ms => exact .refl _
  | startPolling group => exact Node.startPolling_keeps group
  | stopPolling group => exact Node.keeps_polls _
  | stopAllPolling => exact Node.keeps_polls _
  | startAllPolling => exact Node.startAllPolling_keeps
  | establish i => exact (Node.effect_talks (StoreM.keeps_markEstablished i)).toKeeps
  | sweep now => exact (Node.effect_talks (StoreM.keeps_expireStale now)).toKeeps
  | beginSession name => exact ⟨rfl, rfl, rfl, rfl⟩
  | endSession => exact ⟨rfl, rfl, rfl, rfl⟩
  | load => exact .refl _
  | start => exact Node.start_keeps
  | shutdown => exact ⟨rfl, rfl, rfl, rfl⟩
  | restart => exact absurd rfl hr

/-- What a node prepared for an event can be. -/
theorem prepared_cases {P : Node → Prop} (s : System) (e : Event) (hsame : P s.node)
    (hwork : ∀ work, P (s.node.relink s.clock.instant work))
    (hbatch : ∀ generation a, P (s.node.received s.clock generation a))
    (hload : P s.node.loadLinks.2) : P (s.prepared e) := by
  cases e
  case batch generation a => exact hbatch generation a
  case load => exact hload
  case start => exact hload
  case answer id a =>
    unfold prepared
    cases s.linkWork (.answer id a) with
    | none => exact hsame
    | some work => exact hwork work
  all_goals exact hsame

/-! ## Runs -/

/-- What every event keeps, a run keeps. -/
theorem run_invariant {P : System → Prop} (hstep : ∀ (s : System) x e, P s → P (s.step x e))
    (h : P s) (events : List (Exchange × Event)) : P (s.run events) := by
  induction events generalizing s with
  | nil => exact h
  | cons p events ih => exact ih (hstep s p.1 p.2 h)

/-- The settings never change. -/
theorem settings_step (s : System) (x : Exchange) (e : Event) :
    (s.step x e).node.settings = s.node.settings := by
  by_cases hr : e = .restart
  · subst hr
    rfl
  · rw [(step_keeps hr).settings]
    exact s.prepared_cases e (P := fun n => n.settings = s.node.settings) rfl (fun _ => rfl)
      Node.received_settings Node.loadLinks_settings

theorem settings_run (s : System) (events : List (Exchange × Event)) :
    (s.run events).node.settings = s.node.settings :=
  run_invariant (P := fun s' => s'.node.settings = s.node.settings)
    (fun t x e h => (t.settings_step x e).trans h) rfl events

/-- Nor does the outage. -/
theorem outage_step (s : System) (x : Exchange) (e : Event) :
    (s.step x e).node.store.outage = s.node.store.outage := by
  by_cases hr : e = .restart
  · subst hr
    rfl
  · rw [(step_keeps hr).store.outage]
    refine s.prepared_cases e (P := fun n => n.store.outage = s.node.store.outage) rfl
      (fun work => ?_) (fun generation a => ?_) ?_
    · exact (work.apply_fixes (f := fun _ => ()) (fun _ _ => rfl) _ _ _).outage
    · exact (s.node.received_fixes s.clock generation a).outage
    · exact (s.node.loadLinks_fixes (·.links)).outage

theorem outage_run (s : System) (events : List (Exchange × Event)) :
    (s.run events).node.store.outage = s.node.store.outage :=
  run_invariant (P := fun s' => s'.node.store.outage = s.node.store.outage)
    (fun t x e h => (t.outage_step x e).trans h) rfl events

/-! ## Calls -/

theorem lookup_settleCall (s : System) (id : Nat) (out : CallStep × Node) (other : Nat) :
    (s.settleCall id out).calls.lookup other =
      if other = id then out.1.call? else s.calls.lookup other := by
  rcases out with ⟨c | r, n⟩
  · show ((id, c) :: s.calls.filter (·.1 ≠ id)).lookup other = _
    split
    · next h =>
      rw [h, List.lookup_cons_self]
      rfl
    · next h =>
      rw [List.lookup_cons, show (other == id) = false by simpa using h]
      exact lookup_filter_ne _ h
  · show (s.calls.filter (·.1 ≠ id)).lookup other = _
    split
    · next h =>
      rw [h, lookup_filter_self]
      rfl
    · next h => exact lookup_filter_ne _ h

theorem finished_settleCall (s : System) (id : Nat) (out : CallStep × Node) :
    (s.settleCall id out).finished =
      match out.1 with
      | .waits _ => s.finished
      | .ends r => (id, r) :: s.finished := by
  rcases out with ⟨c | r, n⟩ <;> rfl

theorem finished_lookup_settleCall (s : System) (id other : Nat) (out : CallStep × Node)
    (h : other ≠ id) : (s.settleCall id out).finished.lookup other = s.finished.lookup other := by
  rw [finished_settleCall]
  cases out.1 with
  | waits c => rfl
  | ends r =>
    rw [List.lookup_cons, show (other == id) = false by simpa using h]

/-- Only what begins or answers a call, and a restart, changes the calls. -/
theorem calls_step (hb : ∀ id r, e ≠ .begin id r) (ha : ∀ id a, e ≠ .answer id a)
    (hr : e ≠ .restart) :
    (s.step x e).calls = s.calls ∧ (s.step x e).finished = s.finished := by
  cases e
  case begin id r => exact absurd rfl (hb id r)
  case answer id a => exact absurd rfl (ha id a)
  case restart => exact absurd rfl hr
  case elapse ms =>
    -- by the equation of `step`, so that the two clocks are not compared
    rw [step]
    exact ⟨rfl, rfl⟩
  all_goals exact ⟨rfl, rfl⟩

/-- What waits under a number changes only with what begins or answers that call, and with a
restart. -/
theorem lookup_step {id : Nat} (hb : ∀ r, e ≠ .begin id r) (ha : ∀ a, e ≠ .answer id a)
    (hr : e ≠ .restart) : (s.step x e).calls.lookup id = s.calls.lookup id := by
  by_cases hbegin : ∃ other r, e = .begin other r
  · obtain ⟨other, r, rfl⟩ := hbegin
    cases hc : s.calls.lookup other with
    | some c => rw [step_begin_again hc]
    | none => rw [step_begin hc, lookup_settleCall, if_neg fun h => hb r (by rw [h])]
  by_cases hanswer : ∃ other a, e = .answer other a
  · obtain ⟨other, a, rfl⟩ := hanswer
    cases hc : s.calls.lookup other with
    | none => rw [step_answer_none hc]
    | some c => rw [step_answer hc, lookup_settleCall, if_neg fun h => ha a (by rw [h])]
  · rw [(calls_step (fun _ _ h => hbegin ⟨_, _, h⟩) (fun _ _ h => hanswer ⟨_, _, h⟩) hr).1]

/-- Nor does what the call came to. -/
theorem finished_lookup_step {id : Nat} (hb : ∀ r, e ≠ .begin id r) (ha : ∀ a, e ≠ .answer id a)
    (hr : e ≠ .restart) : (s.step x e).finished.lookup id = s.finished.lookup id := by
  by_cases hbegin : ∃ other r, e = .begin other r
  · obtain ⟨other, r, rfl⟩ := hbegin
    cases hc : s.calls.lookup other with
    | some c => rw [step_begin_again hc]
    | none =>
      rw [step_begin hc]
      exact finished_lookup_settleCall s other id _ fun h => hb r (by rw [h])
  by_cases hanswer : ∃ other a, e = .answer other a
  · obtain ⟨other, a, rfl⟩ := hanswer
    cases hc : s.calls.lookup other with
    | none => rw [step_answer_none hc]
    | some c =>
      rw [step_answer hc]
      exact finished_lookup_settleCall s other id _ fun h => ha a (by rw [h])
  · rw [(calls_step (fun _ _ h => hbegin ⟨_, _, h⟩) (fun _ _ h => hanswer ⟨_, _, h⟩) hr).2]

/-- A call that waits goes on waiting until it is answered. -/
theorem lookup_waiting {id : Nat} {c : Call} (hc : s.calls.lookup id = some c)
    (ha : ∀ a, e ≠ .answer id a) (hr : e ≠ .restart) : (s.step x e).calls.lookup id = some c := by
  by_cases hb : ∃ r, e = .begin id r
  · obtain ⟨r, rfl⟩ := hb
    rw [step_begin_again hc, hc]
  · rw [lookup_step (fun r h => hb ⟨r, h⟩) ha hr, hc]

/-- A call that waits after an event has just begun to wait, or it did before. -/
theorem calls_step_cases {id : Nat} {c : Call} (hc : (s.step x e).calls.lookup id = some c) :
    s.calls.lookup id = some c ∨
      (∃ r, e = .begin id r ∧ s.calls.lookup id = none ∧
        (s.node.begin (s.surroundings x) r).1 = .waits c) ∨
      ∃ c' a, e = .answer id a ∧ s.calls.lookup id = some c' ∧
        (s.node.answer (s.surroundings x) c' a).1 = .waits c := by
  by_cases hr : e = .restart
  · subst hr
    cases hc
  by_cases hb : ∃ r, e = .begin id r
  · obtain ⟨r, rfl⟩ := hb
    cases hold : s.calls.lookup id with
    | some c' =>
      rw [step_begin_again hold] at hc
      exact .inl (hold.symm.trans hc)
    | none =>
      rw [step_begin hold, lookup_settleCall, if_pos rfl] at hc
      exact .inr (.inl ⟨r, rfl, rfl, CallStep.eq_of_call? hc⟩)
  by_cases ha : ∃ a, e = .answer id a
  · obtain ⟨a, rfl⟩ := ha
    cases hold : s.calls.lookup id with
    | none =>
      rw [step_answer_none hold, hold] at hc
      cases hc
    | some c' =>
      rw [step_answer hold, lookup_settleCall, if_pos rfl] at hc
      exact .inr (.inr ⟨c', a, rfl, rfl, CallStep.eq_of_call? hc⟩)
  · rw [lookup_step (fun r h => hb ⟨r, h⟩) (fun a h => ha ⟨a, h⟩) hr] at hc
    exact .inl hc

end System

end Courier
