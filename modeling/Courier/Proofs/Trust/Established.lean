import Courier.Proofs.Trust.InFlight

/-!
# When trust lasts

A task that settles a handshake writes whatever follows from the answer of the transport, although
trust may have been recorded since. Nothing else takes trust away.

* `established_step`, `not_established_step`: trust stays unless a handshake for the contact is
  settled, and then it goes.
* `exists_settling`: whatever is in flight may come to be settled.
* `established_lasts_iff`: trust lasts through a run exactly if no handshake for the contact is
  settled in it; it lasts through every run exactly if none is in flight at its beginning.
* `established_lost_to_late_answer`: a run in which it is lost.
-/

namespace Courier

namespace System

variable {s : System} {x : Exchange} {e : Event} {i : Identity}

/-- The state of a contact, as the store holds it. -/
def stateOf (s : System) (i : Identity) : Except StoreError HandshakeState :=
  ((Store.handshakeState i).attempt (.reliable s.node.store.db)).1

theorem stateOf_eq_iff {st : HandshakeState} (h : st ≠ .absent) :
    s.stateOf i = .ok st ↔ ∃ r, (s.ledger i).row = some r ∧ r.state = .known st := by
  have heq : s.stateOf i = (s.node.store.db.threads.contact i).map
      fun row => (row.map (·.handshakeState)).getD .absent := by
    unfold stateOf Store.handshakeState
    rw [StoreM.attempt_query]
    rfl
  have hrow : (s.ledger i).row = s.node.store.db.threads.standing i := rfl
  rw [heq, hrow]
  constructor
  · intro hs
    cases hc : s.node.store.db.threads.contact i with
    | error e => simp [hc, Except.map] at hs
    | ok row =>
      rw [hc] at hs
      rw [ThreadTable.standing_of_contact hc]
      cases row with
      | none => exact absurd (Except.ok.inj hs).symm h
      | some row => exact ⟨_, rfl, congrArg StoredState.known (Except.ok.inj hs)⟩
  · rintro ⟨⟨_, e⟩, hr, rfl⟩
    obtain ⟨row, hc, hst, -⟩ := ThreadTable.contact_of_standing hr
    rw [hc]
    simp [Except.map, hst]

theorem stateOf_eq_established_iff : s.stateOf i = .ok .established ↔ (s.ledger i).Established :=
  stateOf_eq_iff (by decide)

/-! ## One event -/

/-- Trust stays where no handshake for the contact is settled, and no more is in flight then. -/
theorem established_step (hwf : s.WellFormed) (ht : (s.ledger i).Established) (hf : ¬ e.free)
    (hn : s.settles i e = 0) :
    ((s.step x e).ledger i).Established ∧ (s.step x e).inFlight i ≤ s.inFlight i := by
  cases ledger_step hwf x e i with
  | path lost _ _ _ hp =>
    obtain ⟨ht', hin⟩ := Ledger.path_of_established hf hp ht
    rw [Ledger.inFlight_more] at hin
    exact ⟨ht', (Nat.le_add_right _ lost).trans_eq hin⟩
  | settles _ _ _ h1 _ => exact absurd (h1.symm.trans hn) (by decide)
  | restarts _ hl =>
    rw [hl]
    exact ⟨ht, (congrArg Ledger.inFlight hl).trans_le (Nat.zero_le _)⟩

/-- Trust is gone where a handshake for the contact is settled and the store is reliable. -/
theorem not_established_step (hwf : s.WellFormed)
    (ho : ∀ n c, s.node.store.outage n c = none) (hn : s.settles i e ≠ 0) :
    ¬ ((s.step x e).ledger i).Established := by
  cases ledger_step hwf x e i with
  | path _ h0 => exact absurd h0 hn
  | settles _ y _ _ hy =>
    have hrow := hy.row
    rw [if_pos (ho _ _)] at hrow
    exact Ledger.not_established_written hy.follows hrow
  | restarts he =>
    subst he
    exact absurd rfl hn

/-! ## Whatever is in flight may be settled -/

theorem exists_run_of_settlesOf (h : s.node.settlesOf i ≠ []) :
    ∃ k, s.settles i (.run k) ≠ 0 := by
  obtain ⟨y, hy⟩ := List.exists_mem_of_ne_nil _ h
  obtain ⟨z, hz, hzy⟩ := List.mem_filterMap.mp hy
  obtain ⟨k, hk, hzk⟩ := List.getElem_of_mem hz
  refine ⟨k, ?_⟩
  cases z with
  | poll => cases hzy
  | settle z =>
    have he : s.settlementAt (.run k) = some z := by
      simp [settlementAt, List.getElem?_eq_getElem hk, hzk]
    have hi : z.identity = i := by
      by_contra hi
      simp [Spawned.settlement?, hi] at hzy
    rw [settles_of_some he, if_pos hi]
    decide

/-- The transport may fail to deliver. -/
def unreachable : SendResult := .error (.unreachable "")

theorem settlesOf_settleHandshake {n : Node} {w : Surroundings} {d : HandshakeDelivery}
    (hd : d.identity = i) : (n.settleHandshake w d unreachable).2.settlesOf i ≠ [] := by
  have hspawn : (n.settleHandshake w d unreachable).2 =
      n.spawn (.settle ⟨d.identity, .absent, none⟩) := rfl
  rw [hspawn, Node.settlesOf_spawn, Spawned.settlement?, if_pos hd]
  simp

theorem settlesOf_settleIn {n : Node} {w : Surroundings} {f : FanOut} {p : PendingSend}
    (hp : p.isFor i = true) : (n.settleIn w f p unreachable).2.settlesOf i ≠ [] := by
  obtain ⟨hh, hi⟩ := Bool.and_eq_true_iff.mp hp
  have hs : (n.settleSend w p unreachable).2.settlesOf i ≠ [] := by
    unfold Node.settleSend
    simp only [hh, if_true]
    exact settlesOf_settleHandshake (of_decide_eq_true hi)
  unfold Node.settleIn
  rcases hx : n.settleSend w p unreachable with ⟨_ | _, n'⟩ <;> rw [hx] at hs <;> exact hs

/-- The send for a contact that a fan-out finds is the one that carries its handshake. -/
theorem find?_of_isFor {f : FanOut} {p : PendingSend} (hd : f.Distinct) (hp : p ∈ f.pending)
    (hfor : p.isFor i = true) : f.pending.find? (·.destination.identity = i) = some p := by
  have hi : p.destination.identity = i := of_decide_eq_true (Bool.and_eq_true_iff.mp hfor).2
  obtain ⟨q, hq⟩ := Option.isSome_iff_exists.mp
    (List.find?_isSome.mpr ⟨p, hp, decide_eq_true hi⟩ :
      (f.pending.find? (·.destination.identity = i)).isSome = true)
  have hqi : q.destination.identity = i := by simpa using List.find?_some hq
  rw [hq, List.inj_on_of_nodup_map hd (List.mem_of_find?_eq_some hq) hp (hqi.trans hi.symm)]

/-- The answer for a handshake that a call waits for. -/
theorem settlesOf_answer {n : Node} {w : Surroundings} {c : Call} (hd : c.Distinct)
    (h : c.sending i ≠ 0) : (n.answer w c (.delivery i unreachable)).2.settlesOf i ≠ [] := by
  cases c with
  | handshake d =>
    have hi : d.identity = i := by
      by_contra hi
      exact h (if_neg hi)
    show (n.finishHandshake w d unreachable).2.settlesOf i ≠ []
    exact settlesOf_settleHandshake (w := w) hi
  | route r =>
    cases r with
    | fanningOut f =>
      obtain ⟨p, hp, hfor⟩ : ∃ p ∈ f.pending, p.isFor i = true :=
        List.countP_pos_iff.mp (Nat.pos_of_ne_zero h)
      show (n.answerRoute w (.fanningOut f) i unreachable).2.settlesOf i ≠ []
      unfold Node.answerRoute
      simp only [find?_of_isFor hd hp hfor]
      exact settlesOf_settleIn hfor
    | _ => exact absurd rfl h
  | _ => exact absurd rfl h

/-- If anything waits for the transport, it is a handshake of some call. -/
theorem exists_sending_of_sendingIn {calls : List (Nat × Call)} (h : sendingIn i calls ≠ 0) :
    ∃ c ∈ calls, c.2.sending i ≠ 0 := by
  induction calls with
  | nil => exact absurd rfl h
  | cons c calls ih =>
    by_cases hc : c.2.sending i = 0
    · rw [sendingIn, hc, Nat.zero_add] at h
      obtain ⟨c', hc', h'⟩ := ih h
      exact ⟨c', .tail _ hc', h'⟩
    · exact ⟨c, .head _, hc⟩

/-- A handshake that waits for the transport may fail, and then a task is to settle it. -/
theorem exists_answer_of_sending (hwf : s.WellFormed) (h : s.sending i ≠ 0) :
    ∃ id, (s.step .quiet (.answer id (.delivery i unreachable))).node.settlesOf i ≠ [] := by
  obtain ⟨⟨id, c⟩, hc, hne⟩ := exists_sending_of_sendingIn h
  refine ⟨id, ?_⟩
  have hlookup : s.calls.lookup id = some c := lookup_of_mem hwf.ids hc
  rw [step_answer hlookup, settleCall_node]
  exact settlesOf_answer (hwf.distinct _ hc) hne

/-- Whatever is in flight may be settled next. -/
theorem exists_settling (hwf : s.WellFormed) (h : s.inFlight i ≠ 0) :
    ∃ events, (∀ p ∈ events, ¬ p.2.free) ∧ s.settledIn i events ≠ 0 := by
  -- with no task spawned, the transport has to fail first
  by_cases hs : s.node.settlesOf i = []
  · have hsending : s.sending i ≠ 0 := by simpa [inFlight, hs] using h
    obtain ⟨id, hid⟩ := exists_answer_of_sending hwf hsending
    obtain ⟨k, hk⟩ := exists_run_of_settlesOf hid
    refine ⟨[(.quiet, .answer id (.delivery i unreachable)), (.quiet, .run k)], ?_, ?_⟩
    · simp [Event.free]
    · simp only [settledIn]
      omega
  · obtain ⟨k, hk⟩ := exists_run_of_settlesOf hs
    refine ⟨[(.quiet, .run k)], by simp [Event.free], ?_⟩
    simp only [settledIn]
    omega

/-! ## Runs -/

/-- Through a run in which no handshake for the contact is settled, trust lasts. -/
theorem established_run (hwf : s.WellFormed) (ht : (s.ledger i).Established)
    (events : List (Exchange × Event)) (hf : ∀ p ∈ events, ¬ p.2.free)
    (hn : s.settledIn i events = 0) : ((s.run events).ledger i).Established := by
  induction events generalizing s with
  | nil => exact ht
  | cons p events ih =>
    obtain ⟨h0, hrest⟩ := Nat.add_eq_zero_iff.mp hn
    have ht' := (established_step (x := p.1) hwf ht (hf p (.head _)) h0).1
    exact ih (wellFormed_step hwf p.1 p.2).1 ht' (fun q hq => hf q (.tail _ hq)) hrest

/-- Nothing is settled where nothing is in flight. -/
theorem settledIn_eq_zero (hwf : s.WellFormed) (ht : (s.ledger i).Established)
    (hn : s.inFlight i = 0) (events : List (Exchange × Event)) (hf : ∀ p ∈ events, ¬ p.2.free) :
    s.settledIn i events = 0 := by
  induction events generalizing s with
  | nil => rfl
  | cons p events ih =>
    have h0 : s.settles i p.2 = 0 := by
      cases ledger_step hwf p.1 p.2 i with
      | path _ h0 => exact h0
      | settles _ _ _ _ hy => exact absurd (hy.inFlight.trans hn) (Nat.succ_ne_zero _)
      | restarts he => rw [he]; rfl
    obtain ⟨ht', hle⟩ := established_step (x := p.1) hwf ht (hf p (.head _)) h0
    have hn' : (s.step p.1 p.2).inFlight i = 0 := Nat.le_zero.mp (hn ▸ hle)
    have := ih (wellFormed_step hwf p.1 p.2).1 ht' hn' fun q hq => hf q (.tail _ hq)
    simp only [settledIn, h0, this]

/-- Where a handshake is settled in a run, trust is lost at some point of it. -/
theorem exists_lost_of_settledIn (hwf : s.WellFormed)
    (ho : ∀ n c, s.node.store.outage n c = none) (events : List (Exchange × Event))
    (hn : s.settledIn i events ≠ 0) :
    ∃ k, ¬ ((s.run (events.take k)).ledger i).Established := by
  induction events generalizing s with
  | nil => exact absurd rfl hn
  | cons p events ih =>
    by_cases h0 : s.settles i p.2 = 0
    · obtain ⟨hwf', ho'⟩ := wellFormed_step hwf p.1 p.2
      have hn' : (s.step p.1 p.2).settledIn i events ≠ 0 := fun hz => hn (by
        simp only [settledIn, h0, hz])
      obtain ⟨k, hk⟩ := ih hwf' (fun n c => ho' ▸ ho n c) hn'
      exact ⟨k + 1, hk⟩
    · exact ⟨1, not_established_step hwf ho h0⟩

theorem settledIn_take_eq_zero {events : List (Exchange × Event)} (h : s.settledIn i events = 0)
    (k : Nat) : s.settledIn i (events.take k) = 0 := by
  induction events generalizing s k with
  | nil => rw [List.take_nil]; rfl
  | cons p events ih =>
    cases k with
    | zero => rfl
    | succ k =>
      obtain ⟨h0, hrest⟩ := Nat.add_eq_zero_iff.mp h
      rw [List.take_succ_cons]
      exact Nat.add_eq_zero_iff.mpr ⟨h0, ih hrest k⟩

/-- Trust that a contact has at some point of a run, over a store none of whose calls fails. It
lasts through what follows exactly if no handshake for the contact is settled there; it lasts
whatever follows exactly if no handshake for the contact is in flight. -/
theorem established_lasts_iff (settings : Settings) (store : Store) (clock : Clock)
    (hk : store.Keyed) (ho : ∀ n c, store.outage n c = none) (before : List (Exchange × Event))
    (i : Identity) :
    let s := (idle (.assemble settings store) clock).run before
    s.stateOf i = .ok .established →
      (∀ events, (∀ p ∈ events, ¬ p.2.free) →
        ((∀ k, (s.run (events.take k)).stateOf i = .ok .established) ↔ s.settledIn i events = 0)) ∧
      ((∀ events, (∀ p ∈ events, ¬ p.2.free) → (s.run events).stateOf i = .ok .established) ↔
        s.inFlight i = 0) := by
  intro s ht
  simp only [stateOf_eq_established_iff] at ht ⊢
  have hidle : (idle (.assemble settings store) clock).WellFormed := wellFormed_idle hk
  obtain ⟨hwf, houtage⟩ := wellFormed_run hidle before
  have ho' : ∀ n c, s.node.store.outage n c = none := fun n c => houtage ▸ ho n c
  have hrun (events) (hf : ∀ p ∈ events, ¬ p.2.free) :
      (∀ k, ((s.run (events.take k)).ledger i).Established) ↔ s.settledIn i events = 0 := by
    constructor
    · intro hall
      by_contra hn
      obtain ⟨k, hk⟩ := exists_lost_of_settledIn hwf ho' events hn
      exact hk (hall k)
    · exact fun hn k => established_run hwf ht _ (fun p hp => hf p (List.mem_of_mem_take hp))
        (settledIn_take_eq_zero hn k)
  refine ⟨hrun, fun hall => ?_, fun hn events hf =>
    established_run hwf ht events hf (settledIn_eq_zero hwf ht hn events hf)⟩
  by_contra hn
  obtain ⟨events, hf, hsettled⟩ := exists_settling hwf hn
  refine hsettled ((hrun events hf).mp fun k => ?_)
  exact hall _ fun p hp => hf p (List.mem_of_mem_take hp)

/-- Trust with nothing in flight lasts while a message goes out and is answered. -/
theorem established_lasts_through_route :
    let start := idle (.assemble Config.default.settings (.reliable .empty)) ⟨0, 0⟩
    let s := start.run [(.quiet, .establish "bob")]
    s.stateOf "bob" = .ok .established ∧
      (s.run [(.quiet, .begin 0 (.route (.toContact "m" "bob" [] 0))),
        (.quiet, .answer 0 (.links (.ok []))),
        (.quiet, .answer 0 (.delivery "bob" (.ok ())))]).stateOf "bob" = .ok .established := by
  have ht : ((idle (.assemble Config.default.settings (.reliable .empty)) ⟨0, 0⟩).run
      [(.quiet, .establish "bob")]).stateOf "bob" = .ok .established := by decide +kernel
  refine ⟨ht, (established_lasts_iff Config.default.settings (.reliable .empty) ⟨0, 0⟩
    ThreadTable.keyed_empty (fun _ _ => rfl) [(.quiet, .establish "bob")] "bob" ht).2.mpr
    (by decide +kernel) _ ?_⟩
  simp [Event.free, Request.free]

/-- A handshake is on its way to a contact when its authorisation is accepted. Trust is recorded,
and lost when the transport answers: the task that settles the handshake writes over it. -/
theorem established_lost_to_late_answer :
    let settings := { Config.default.settings with localIdentity := "me" }
    let start := idle (.assemble settings (.reliable .empty)) ⟨0, 0⟩
    let authorization : LinkControl :=
      { sender := "bob", master := "bob", slave := "me", masterSignature := some [1],
        slaveSignature := some [2], profile := none }
    let s := start.run [(.quiet, .begin 0 (.route (.toContact "m" "bob" [] 0))),
      (.quiet, .answer 0 (.links (.ok []))), (.quiet, .beginSession "link"),
      (.quiet, .begin 1 (.control authorization)), (.quiet, .answer 1 (.verdict (.ok ())))]
    s.stateOf "bob" = .ok .established ∧
      (s.run [(.quiet, .answer 0 (.delivery "bob" (.ok ()))), (.quiet, .run 0)]).stateOf "bob" =
        .ok .requestSent := by
  decide +kernel

end System

end Courier
