import Courier.Proofs.Trust.Established
import Courier.Proofs.Trust.Overflow

/-!
# Which contacts are locked out

A request that was sent expires, and then a message to its contact builds a new handshake. A pending
contact has no expiry: it waits for the delivery that locked it. If that comes to nothing, no
message goes out to the contact at any time (`attempt_decideHandshake_pending`).

* `hasWayOut_iff`: a contact has a way out unless it is pending with nothing in flight.
* `System.Strands`: the three events that leave a contact so. The node restarts, the write of the
  last settlement fails, or the task of the last delivery dies.
* `stranded_step_iff`, `way_out_kept_iff`: a contact keeps its way out exactly if no event strands
  it.
* `locked_out_after_restart`: a run in which one is stranded.
-/

namespace Courier

namespace System

variable {s : System} {x : Exchange} {e : Event} {i : Identity}

/-- If a handshake for the contact is outstanding, there is a delivery in flight, or an expiry from
which on a visible message to the contact builds a new handshake. -/
def HasWayOut (s : System) (i : Identity) : Prop :=
  ∀ row, s.node.store.db.threads.contact i = .ok (some row) →
    row.handshakeState.isOutstanding = true →
      0 < s.inFlight i ∨
      ∃ t, row.handshakeExpiresAt = some t ∧ ∀ clock : Clock, t ≤ clock.now →
        ((decideHandshake clock i .visible).attempt (.reliable s.node.store.db)).1 =
          .ok .sendHandshake

/-! ## Decisions -/

theorem attempt_decideHandshake {db : Database} {row : Option ThreadRow} (clock : Clock)
    (h : db.threads.contact i = .ok row) :
    ((decideHandshake clock i .visible).attempt (.reliable db)).1 =
      .ok (decideFor clock.now row) := by
  have hkind : MessageKind.needsNoTrust .visible = false := rfl
  unfold decideHandshake Store.contactThread
  rw [hkind, if_neg (by simp), StoreM.attempt_bind, StoreM.attempt_query]
  simp only [Store.reliable, h]
  rfl

/-- No message goes out to a pending contact, at no time. -/
theorem attempt_decideHandshake_pending {db : Database} {row : ThreadRow} (clock : Clock)
    (h : db.threads.contact i = .ok (some row)) (hs : row.handshakeState = .pendingSend) :
    ((decideHandshake clock i .visible).attempt (.reliable db)).1 = .ok .alreadyPending := by
  rw [attempt_decideHandshake clock h]
  simp [decideFor, hs, HandshakeState.isEstablished, HandshakeState.isOutstanding,
    ThreadRow.lapsed]

theorem decideFor_requestSent {now t : Int64} {row : ThreadRow}
    (hs : row.handshakeState = .requestSent) (he : row.handshakeExpiresAt = some t) (ht : t ≤ now) :
    decideFor now (some row) = .sendHandshake := by
  simp [decideFor, hs, he, HandshakeState.isEstablished, HandshakeState.isOutstanding,
    ThreadRow.lapsed, ThreadRow.due, ht]

/-- Every expiry comes. -/
theorem exists_clock (t : Int64) : ∃ clock : Clock, t ≤ clock.now := by
  refine ⟨⟨0, Int64.maxValue.toInt⟩, ?_⟩
  have hnow : Clock.now ⟨0, Int64.maxValue.toInt⟩ = Int64.maxValue := by decide
  rw [hnow, Int64.le_iff_toInt_le]
  exact t.toInt_le

theorem not_stranded_of_hasWayOut (h : s.HasWayOut i) : ¬ (s.ledger i).Stranded := by
  rintro ⟨hn, ⟨_, e⟩, hr, rfl⟩
  obtain ⟨row, hc, hst, -⟩ := ThreadTable.contact_of_standing hr
  rcases h row hc (by rw [hst]; rfl) with hpos | ⟨t, -, hd⟩
  · exact absurd hn (Nat.ne_of_gt hpos)
  · obtain ⟨clock, ht⟩ := exists_clock t
    have := (attempt_decideHandshake_pending clock hc hst).symm.trans (hd clock ht)
    cases this

theorem dated_of_hasWayOut (h : s.HasWayOut i) (hn : s.inFlight i = 0) : (s.ledger i).Dated := by
  rintro ⟨_, e⟩ hr rfl
  obtain ⟨row, hc, hst, he⟩ := ThreadTable.contact_of_standing hr
  rcases h row hc (by rw [hst]; rfl) with hpos | ⟨t, ht, -⟩
  · exact absurd hn (Nat.ne_of_gt hpos)
  · rw [← he, ht]
    rfl

/-- Where requests have an expiry, a contact has a way out unless it is pending with nothing in
flight. -/
theorem hasWayOut_iff (hd : (s.ledger i).Dated) : s.HasWayOut i ↔ ¬ (s.ledger i).Stranded := by
  refine ⟨not_stranded_of_hasWayOut, fun hs row hc ho => ?_⟩
  have hr : (s.ledger i).row = some row.standing := ThreadTable.standing_of_contact hc
  by_cases hp : row.handshakeState = .pendingSend
  · refine .inl (Nat.pos_of_ne_zero fun hn => hs ⟨hn, _, hr, ?_⟩)
    exact congrArg StoredState.known hp
  · have hst : row.handshakeState = .requestSent :=
      (of_decide_eq_true ho : _ ∨ _).resolve_left hp
    obtain ⟨t, ht⟩ := Option.isSome_iff_exists.mp (hd _ hr (congrArg StoredState.known hst))
    refine .inr ⟨t, ht, fun clock hle => ?_⟩
    rw [attempt_decideHandshake clock hc, decideFor_requestSent hst ht hle]

/-! ## One event -/

/-- The event leaves a pending contact with nothing in flight. -/
def Strands (s : System) (x : Exchange) (i : Identity) : Event → Prop
  | .restart => s.stateOf i = .ok .pendingSend
  | .run k =>
    s.stateOf i = .ok .pendingSend ∧ s.inFlight i = 1 ∧ s.settles i (.run k) ≠ 0 ∧
      s.node.store.outage s.node.store.calls .writeHandshakeState ≠ none
  | e =>
    s.node.Overflows s.clock ∧ s.Dies x e ∧ (s.step x e).inFlight i = 0 ∧
      (s.step x e).stateOf i = .ok .pendingSend

theorem stranded_iff :
    (s.ledger i).Stranded ↔ s.inFlight i = 0 ∧ s.stateOf i = .ok .pendingSend :=
  and_congr_right fun _ => (stateOf_eq_iff (by decide)).symm

theorem dated_step (hwf : s.WellFormed) (hd : (s.ledger i).Dated) (x : Exchange) (e : Event) :
    ((s.step x e).ledger i).Dated := by
  cases ledger_step hwf x e i with
  | path lost _ _ _ hp => exact (hd.path hp : (Ledger.more _ lost).Dated)
  | settles _ _ _ _ hy =>
    have hrow := hy.row
    split at hrow
    · exact Ledger.dated_written hy.follows hrow
    · unfold Ledger.Dated
      rw [hrow]
      exact hd
  | restarts _ hl =>
    rw [hl]
    exact hd

/-- Where no handshake for the contact is settled and the node does not restart, the contact is
stranded with a task that dies. -/
theorem stranded_path_iff {lost : Nat} (hs : ¬ (s.ledger i).Stranded) (h0 : s.settles i e = 0)
    (hr : e ≠ .restart) (hlost : ¬ s.Dies x e → lost = 0)
    (hp : Ledger.Path e.free (s.ledger i) (((s.step x e).ledger i).more lost)) :
    ((s.step x e).ledger i).Stranded ↔ s.Strands x i e := by
  -- where no call dies nothing is lost, and no path strands
  have hdies (h : ((s.step x e).ledger i).Stranded) : s.Dies x e := by
    by_contra hd
    have hnot := Ledger.not_stranded_path hs hp
    rw [hlost hd] at hnot
    exact hnot h
  have hiff : ((s.step x e).ledger i).Stranded ↔ s.node.Overflows s.clock ∧ s.Dies x e ∧
      (s.step x e).inFlight i = 0 ∧ (s.step x e).stateOf i = .ok .pendingSend := by
    rw [← stranded_iff]
    exact ⟨fun h => ⟨dies_overflows (hdies h), hdies h, h⟩, fun h => h.2.2⟩
  cases e with
  | restart => exact absurd rfl hr
  | run k =>
    refine iff_of_false (fun h => ?_) fun h => h.2.2.1 h0
    obtain ⟨id, hfin⟩ := hdies h
    rw [step_finished (by simp) (by simp)] at hfin
    exact List.cons_ne_self _ _ hfin.symm
  | _ => exact hiff

/-- A task that settles a handshake strands its contact only where the write fails. -/
theorem stranded_settle_iff {k : Nat} {y : Settlement} (h1 : s.settles i (.run k) = 1)
    (hy : Settled (s.ledger i) y
      (s.node.store.outage s.node.store.calls .writeHandshakeState = none)
      ((s.step x (.run k)).ledger i)) :
    ((s.step x (.run k)).ledger i).Stranded ↔ s.Strands x i (.run k) := by
  have hrow := hy.row
  have hin : (s.step x (.run k)).inFlight i + 1 = s.inFlight i := hy.inFlight
  dsimp only [Strands]
  rw [h1]
  split at hrow
  · next hw =>
    exact iff_of_false (Ledger.not_stranded_written hy.follows hrow) fun h => h.2.2.2 hw
  · next hw =>
    have hstate : (s.step x (.run k)).stateOf i = .ok .pendingSend ↔
        s.stateOf i = .ok .pendingSend := by
      rw [stateOf_eq_iff (by decide), stateOf_eq_iff (by decide), hrow]
    rw [stranded_iff, hstate]
    constructor
    · rintro ⟨h0, hst⟩
      exact ⟨hst, by omega, by decide, hw⟩
    · rintro ⟨hst, h1, -⟩
      exact ⟨by omega, hst⟩

/-- A contact that is not stranded is stranded by exactly these events. -/
theorem stranded_step_iff (hwf : s.WellFormed) (hs : ¬ (s.ledger i).Stranded) :
    ((s.step x e).ledger i).Stranded ↔ s.Strands x i e := by
  cases ledger_step hwf x e i with
  | path lost h0 hr hlost hp => exact stranded_path_iff hs h0 hr hlost hp
  | settles k y he h1 hy =>
    subst he
    exact stranded_settle_iff h1 hy
  | restarts he hl =>
    subst he
    unfold Strands
    rw [hl, stateOf_eq_iff (by decide)]
    exact ⟨fun h => h.2, fun h => ⟨rfl, h⟩⟩

/-! ## Runs -/

theorem dated_run (hwf : s.WellFormed) (hd : (s.ledger i).Dated)
    (events : List (Exchange × Event)) : ((s.run events).ledger i).Dated := by
  induction events generalizing s with
  | nil => exact hd
  | cons p events ih => exact ih (wellFormed_step hwf p.1 p.2).1 (dated_step hwf hd p.1 p.2)

theorem never_stranded_iff (hwf : s.WellFormed) (hs : ¬ (s.ledger i).Stranded)
    (events : List (Exchange × Event)) :
    (∀ k, ¬ ((s.run (events.take k)).ledger i).Stranded) ↔
      ∀ k x e, events[k]? = some (x, e) → ¬ (s.run (events.take k)).Strands x i e := by
  induction events generalizing s with
  | nil =>
    refine iff_of_true (fun k => ?_) fun k x e h => ?_
    · rw [List.take_nil]
      exact hs
    · cases h
  | cons p events ih =>
    have hstep := stranded_step_iff (x := p.1) (e := p.2) hwf hs
    by_cases hp : s.Strands p.1 i p.2
    · refine iff_of_false (fun h => ?_) fun h => ?_
      · exact h 1 (hstep.mpr hp)
      · exact h 0 p.1 p.2 rfl hp
    · have := ih (wellFormed_step hwf p.1 p.2).1 (mt hstep.mp hp)
      constructor
      · intro h k x e hk
        cases k with
        | zero =>
          cases hk
          exact hp
        | succ k => exact this.mp (fun k => h (k + 1)) k x e hk
      · intro h k
        cases k with
        | zero => exact hs
        | succ k => exact this.mpr (fun k x e hk => h (k + 1) x e hk) k

/-- Over any store, whichever of its calls fail: a contact that has a way out at the start keeps it
through a run exactly if no event of the run strands it. -/
theorem way_out_kept_iff (settings : Settings) (store : Store) (clock : Clock) (hk : store.Keyed)
    (i : Identity) (hstart : (idle (.assemble settings store) clock).HasWayOut i)
    (events : List (Exchange × Event)) :
    let start := idle (.assemble settings store) clock
    (∀ k, (start.run (events.take k)).HasWayOut i) ↔
      ∀ k x e, events[k]? = some (x, e) → ¬ (start.run (events.take k)).Strands x i e := by
  intro start
  have hwf : start.WellFormed := wellFormed_idle hk
  have hd := dated_of_hasWayOut hstart rfl
  rw [← never_stranded_iff hwf (not_stranded_of_hasWayOut hstart) events]
  exact forall_congr' fun k => hasWayOut_iff (dated_run hwf hd _)

/-- A message whose handshake is settled in time leaves its contact a way out throughout. -/
theorem way_out_kept_through_settling :
    let start := idle (.assemble Config.default.settings (.reliable .empty)) ⟨0, 0⟩
    ∀ k, (start.run ([(.quiet, .begin 0 (.route (.toContact "m" "bob" [] 0))),
      (.quiet, .answer 0 (.links (.ok []))), (.quiet, .answer 0 (.delivery "bob" (.ok ()))),
      (.quiet, .run 0), (.quiet, .restart)].take k)).HasWayOut "bob" := by
  refine (way_out_kept_iff Config.default.settings (.reliable .empty) ⟨0, 0⟩
    ThreadTable.keyed_empty "bob" (fun row h => ?_) _).mpr fun k x e h => ?_
  · cases h
  · match k with
    | 0 => cases h; exact fun h => absurd h.1 (by decide +kernel)
    | 1 => cases h; exact fun h => absurd h.1 (by decide +kernel)
    | 2 => cases h; exact fun h => absurd h.1 (by decide +kernel)
    | 3 => cases h; exact fun h => h.2.2.2 (by decide +kernel)
    | 4 => cases h; dsimp only [Strands]; decide +kernel
    | k + 5 => cases h

/-- The process ends while a handshake is on its way. The node starts again, and its contact is
locked: nothing is in flight, and at no time does a visible message go out. -/
theorem locked_out_after_restart :
    let start := idle (.assemble Config.default.settings (.reliable .empty)) ⟨0, 0⟩
    let s := start.run [(.quiet, .begin 0 (.route (.toContact "m" "bob" [] 0))),
      (.quiet, .answer 0 (.links (.ok []))), (.quiet, .restart), (.quiet, .start)]
    s.stateOf "bob" = .ok .pendingSend ∧ s.inFlight "bob" = 0 ∧ ¬ s.HasWayOut "bob" := by
  intro start s
  have hs : s.inFlight "bob" = 0 ∧ s.stateOf "bob" = .ok .pendingSend := by decide +kernel
  exact ⟨hs.2, hs.1, fun h => not_stranded_of_hasWayOut h (stranded_iff.mpr hs)⟩

end System

end Courier
