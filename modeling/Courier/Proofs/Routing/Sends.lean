import Courier.Proofs.Link.Agreement
import Courier.Proofs.Routing.Launches
import Courier.Proofs.Trust.InFlight
import Mathlib.Data.List.ReduceOption

/-!
# What a fan-out sends

With a store that does not fail, what goes to a destination is decided by its own conversation
alone, and preparing it changes no other (`prepareSend_prepares`). So what is due to all of them
(`Owes`) can be read off the database before anything is sent (`owes_launches`), whatever the
transport will answer.

`System.fan_out_sends_iff`: a route hands over what is due, in the order of the destinations, until
its task dies; answers that come later bring nothing more.
-/

namespace Courier

/-! ## The conversation with a contact -/

namespace ThreadTable

variable {t : ThreadTable} {i j : Identity} {hidden : Bool} {row : ThreadRow}

theorem contact_ensure_other (h : j ≠ i) :
    (t.ensure .contact i hidden).contact j = t.contact j := by
  unfold contact
  rw [find?_ensure, if_neg fun hi => h hi.2.symm]

/-- A conversation that can be read, or is missing, is there afterwards. -/
theorem contact_ensure {old : Option ThreadRow} (h : t.contact i = .ok old) (hidden : Bool) :
    ∃ row, (t.ensure .contact i hidden).fetch .contact i = .ok row ∧
      (t.ensure .contact i hidden).contact i = .ok (some row) := by
  unfold contact fetch at *
  rw [find?_ensure, if_pos ⟨rfl, rfl⟩]
  cases hr : t.find? .contact i with
  | none => exact ⟨_, rfl, rfl⟩
  | some r =>
    simp only [hr, Option.getD_some] at h ⊢
    cases hread : r.read with
    | error e => simp [hread, Except.map] at h
    | ok row => exact ⟨row, rfl, rfl⟩

theorem fetch_ensure_of_error {e : StoreError} (h : t.contact i = .error e) :
    (t.ensure .contact i hidden).fetch .contact i = .error e := by
  unfold contact fetch at *
  rw [find?_ensure, if_pos ⟨rfl, rfl⟩]
  cases hr : t.find? .contact i with
  | none => simp [hr] at h
  | some r =>
    simp only [hr, Option.getD_some] at h ⊢
    cases hread : r.read with
    | error e' => simpa [hread, Except.map] using h
    | ok row => simp [hread, Except.map] at h

theorem contact_writeState_other (h : j ≠ i) (st : HandshakeState) (e : Option Int64) :
    (t.writeState i st e).2.contact j = t.contact j := by
  unfold contact writeState
  rw [find?_update (keepsKeys_writeState st e), if_neg fun hi => h hi.2]

theorem contact_writeState (h : t.contact i = .ok (some row)) (st : HandshakeState)
    (e : Option Int64) : (t.writeState i st e).2.contact i =
      .ok (some { row with handshakeState := st, handshakeExpiresAt := e }) := by
  unfold contact writeState at *
  rw [find?_update (keepsKeys_writeState st e), if_pos ⟨rfl, rfl⟩]
  cases hr : t.find? .contact i with
  | none => simp [hr] at h
  | some r =>
    simp only [hr, StoredThread.read] at h
    cases hs : r.state with
    | known _ =>
      simp only [hs, Except.map] at h
      cases h
      rfl
    | unknown _ => simp [hs, Except.map] at h

end ThreadTable

/-! ## What is due to a destination -/

/-- What is decided for a contact. -/
def Database.decision (db : Database) (clock : Clock) (i : Identity) (kind : MessageKind) :
    Except StoreError HandshakeDecision :=
  ((decideHandshake clock i kind).attempt (.reliable db)).1

/-- What goes to a destination of a message, by the decision that the database leads to. -/
inductive Owes (db : Database) (clock : Clock) (messageId : Identity → String)
    (m : OutgoingMessage) (d : Destination) : Option (OutgoingEnvelope × Bool) → Prop where
  | original (row : Option ThreadRow) (hrow : db.threads.contact d.identity = .ok row)
      (hdecision : db.decision clock d.identity m.kind = .ok .sendAsIs) (threadId : Int) :
      Owes db clock messageId m d (some
        ({ messageId := m.messageId, recipient := d.identity, threadId, kind := m.kind,
           content := m.content, certificate := m.certificate, timestamp := m.timestamp,
           ttl := m.ttl }, false))
  | handshake (hdecision : db.decision clock d.identity m.kind = .ok .sendHandshake)
      (threadId : Int) :
      Owes db clock messageId m d (some
        ({ messageId := messageId d.identity, recipient := d.identity, threadId,
           kind := .handshake, content := octetsOf handshakeBody, certificate := none,
           timestamp := clock.now, ttl := defaultTtl }, true))
  | outstanding (hdecision : db.decision clock d.identity m.kind = .ok .alreadyPending) :
      Owes db clock messageId m d none
  /-- The state of the contact means nothing. -/
  | unreadable (e : StoreError) (hrow : db.threads.contact d.identity = .error e) :
      Owes db clock messageId m d none

theorem Database.decision_eq (db : Database) (clock : Clock) (i : Identity) (kind : MessageKind) :
    db.decision clock i kind =
      if kind.needsNoTrust then .ok .sendAsIs
      else (db.threads.contact i).map (decideFor clock.now) := by
  unfold decision decideHandshake
  split
  · rfl
  · unfold Store.contactThread
    rw [StoreM.attempt_bind, StoreM.attempt_query]
    cases h : db.threads.contact i <;> simp only [Store.reliable, h] <;> rfl

theorem Database.contact_of_decision_error {db : Database} {clock : Clock} {i : Identity}
    {kind : MessageKind} {e : StoreError} (h : db.decision clock i kind = .error e) :
    db.threads.contact i = .error e := by
  rw [decision_eq] at h
  split at h
  · cases h
  · cases hc : db.threads.contact i <;> simp [hc, Except.map] at h
    rw [h]

theorem Database.contact_of_sendHandshake {db : Database} {clock : Clock} {i : Identity}
    {kind : MessageKind} (h : db.decision clock i kind = .ok .sendHandshake) :
    ∃ row, db.threads.contact i = .ok row := by
  rw [decision_eq] at h
  split at h
  · cases h
  · cases hc : db.threads.contact i with
    | error e => simp [hc, Except.map] at h
    | ok row => exact ⟨row, rfl⟩

namespace Owes

variable {db db' : Database} {clock : Clock} {messageId : Identity → String} {m : OutgoingMessage}
  {d : Destination} {sent : Option (OutgoingEnvelope × Bool)}

/-- Only the conversation with the destination counts. -/
theorem congr (h : Owes db clock messageId m d sent)
    (hsame : db'.threads.contact d.identity = db.threads.contact d.identity) :
    Owes db' clock messageId m d sent := by
  have hd : db'.decision clock d.identity m.kind = db.decision clock d.identity m.kind := by
    rw [Database.decision_eq, Database.decision_eq, hsame]
  cases h with
  | original row hrow hdecision threadId =>
    exact .original row (hsame.trans hrow) (hd.trans hdecision) threadId
  | handshake hdecision threadId => exact .handshake (hd.trans hdecision) threadId
  | outstanding hdecision => exact .outstanding (hd.trans hdecision)
  | unreadable e hrow => exact .unreadable e (hsame.trans hrow)

theorem recipient {p : OutgoingEnvelope × Bool} (h : Owes db clock messageId m d (some p)) :
    p.1.recipient = d.identity := by
  cases h <;> rfl

/-- A visible message goes to established contacts; the others see the handshake at most. -/
theorem visible {p : OutgoingEnvelope × Bool} (h : Owes db clock messageId m d (some p))
    (hm : m.kind = .visible) :
    p.1.content = octetsOf handshakeBody ∨
      ∃ row, db.threads.contact p.1.recipient = .ok (some row) ∧
        row.handshakeState = .established := by
  cases h with
  | handshake hdecision threadId => exact .inl rfl
  | original row hrow hdecision threadId =>
    rw [Database.decision_eq, hm, hrow, show MessageKind.needsNoTrust .visible = false from rfl,
      if_neg (by simp)] at hdecision
    have hdecide : decideFor clock.now row = .sendAsIs := Except.ok.inj hdecision
    cases row with
    | none => cases hdecide
    | some row =>
      unfold decideFor at hdecide
      dsimp only at hdecide
      split at hdecide
      · next hestablished => exact .inr ⟨row, hrow, of_decide_eq_true hestablished⟩
      · split at hdecide <;> cases hdecide

end Owes

/-! ## Preparing a send -/

section Prepare

variable {s s' : Store} {i : Identity}

theorem Store.Reliable.attempt_call {α : Type} (h : s.Reliable) (name : StoreCall)
    (g : Database → Except StoreError α × Database) :
    (Store.call name g).attempt s =
      ((g s.db).1, { s with calls := s.calls + 1, db := (g s.db).2 }) := by
  rw [StoreM.attempt_call, h]

/-- The store has come from `s` to `s'` without a failure, and at most the conversation with `i` has
changed. -/
structure Store.Touches (s : Store) (i : Identity) (s' : Store) : Prop where
  reliable : s'.Reliable
  others : ∀ j, j ≠ i → s'.db.threads.contact j = s.db.threads.contact j

theorem Store.Touches.trans {s' s'' : Store} (h : s.Touches i s') (h' : s'.Touches i s'') :
    s.Touches i s'' :=
  ⟨h'.reliable, fun j hj => (h'.others j hj).trans (h.others j hj)⟩

theorem Store.Reliable.attempt_decideHandshake (h : s.Reliable) (clock : Clock) (i : Identity)
    (kind : MessageKind) :
    ∃ s', (decideHandshake clock i kind).attempt s = (s.db.decision clock i kind, s') ∧
      s'.Reliable ∧ s'.db = s.db := by
  rw [Database.decision_eq]
  unfold decideHandshake
  split
  · exact ⟨s, rfl, h, rfl⟩
  · unfold Store.contactThread
    refine ⟨{ s with calls := s.calls + 1 }, ?_, h, rfl⟩
    rw [StoreM.attempt_bind, StoreM.attempt_query, h]
    dsimp only
    cases s.db.threads.contact i <;> rfl

theorem Store.Reliable.attempt_getOrCreate (h : s.Reliable) (i : Identity) (hidden : Bool) :
    ∃ s', (Store.getOrCreateContactThread i hidden).attempt s =
        ((s.db.threads.ensure .contact i hidden).fetch .contact i, s') ∧
      s.Touches i s' ∧ s'.db.threads = s.db.threads.ensure .contact i hidden :=
  ⟨_, h.attempt_call _ _, ⟨h, fun _ hj => ThreadTable.contact_ensure_other hj⟩, rfl⟩

/-- A readable conversation is opened, and its row is the answer. -/
theorem Store.Reliable.attempt_getOrCreate_ok (h : s.Reliable) (hidden : Bool)
    {old : Option ThreadRow} (hc : s.db.threads.contact i = .ok old) :
    ∃ row s', (Store.getOrCreateContactThread i hidden).attempt s = (.ok row, s') ∧
      s.Touches i s' ∧ s'.db.threads.contact i = .ok (some row) := by
  obtain ⟨s', hget, htouches, hthreads⟩ := h.attempt_getOrCreate i hidden
  obtain ⟨row, hfetch, hrow⟩ := ThreadTable.contact_ensure hc hidden
  rw [hfetch] at hget
  exact ⟨row, s', hget, htouches, hthreads ▸ hrow⟩

theorem Store.Reliable.attempt_writeState (h : s.Reliable) (i : Identity) (st : HandshakeState)
    (e : Option Int64) :
    ∃ found s', (Store.writeHandshakeState i st e).attempt s = (.ok found, s') ∧
      s'.Reliable ∧ s'.db.threads = (s.db.threads.writeState i st e).2 := by
  unfold Store.writeHandshakeState Store.change
  rw [h.attempt_call]
  exact ⟨_, _, rfl, h, rfl⟩

/-- A handshake is built under the conversation with its contact. -/
theorem Store.Reliable.attempt_buildHandshake (h : s.Reliable) (clock : Clock) (messageId : String)
    (hidden : Bool) {old : Option ThreadRow} (hc : s.db.threads.contact i = .ok old) :
    let message := OutgoingMessage.compose messageId i (.contact i) .handshake
      (octetsOf handshakeBody) clock.now
    ∃ row s', (buildHandshake clock messageId i hidden).attempt s =
        (.ok (message, ⟨i, message.envelopeFor i row.id⟩), s') ∧
      s.Touches i s' ∧ s'.db.threads.contact i = .ok (some row) := by
  intro message
  obtain ⟨row, s₁, hget, htouches, hrow⟩ := h.attempt_getOrCreate_ok hidden hc
  obtain ⟨found, s₂, hwrite, hrel, hthreads⟩ :=
    htouches.reliable.attempt_writeState i .pendingSend none
  refine ⟨{ row with handshakeState := .pendingSend, handshakeExpiresAt := none }, s₂, ?_,
    htouches.trans ⟨hrel, fun j hj => ?_⟩, ?_⟩
  · unfold buildHandshake
    simp only [StoreM.attempt_bind, hget, hwrite]
    rfl
  · rw [hthreads, ThreadTable.contact_writeState_other hj]
  · rw [hthreads]
    exact ThreadTable.contact_writeState hrow .pendingSend none

/-- What was prepared for a destination is what it is owed, recorded under its own conversation. -/
structure Prepares (w : Surroundings) (m : OutgoingMessage) (d : Destination) (s : Store)
    (sent : Option (OutgoingEnvelope × Bool)) (s' : Store) : Prop
    extends s.Touches d.identity s' where
  owes : Owes s.db w.clock w.messageId m d sent
  own : ∀ p, sent = some p → ∃ row,
    s'.db.threads.contact d.identity = .ok (some row) ∧ row.id = p.1.threadId

variable {w : Surroundings} {m : OutgoingMessage} {d : Destination}

theorem Prepares.of_none (h : s.Touches d.identity s')
    (howes : Owes s.db w.clock w.messageId m d none) : Prepares w m d s none s' :=
  ⟨h, howes, nofun⟩

theorem prepareSend_prepares (h : s.Reliable) :
    Prepares w m d s (Launch.sent? ⟨d, ((prepareSend w m d).attempt s).1⟩)
      ((prepareSend w m d).attempt s).2 := by
  obtain ⟨s₁, hdecide, hrel₁, hdb⟩ := h.attempt_decideHandshake w.clock d.identity m.kind
  have hread : s.Touches d.identity s₁ := ⟨hrel₁, fun j _ => by rw [hdb]⟩
  unfold prepareSend
  simp only [StoreM.attempt_bind, hdecide]
  cases hdecision : s.db.decision w.clock d.identity m.kind with
  | error e => exact .of_none hread (.unreadable e (Database.contact_of_decision_error hdecision))
  | ok decision =>
    cases decision with
    | alreadyPending => exact .of_none hread (.outstanding hdecision)
    | sendAsIs =>
      simp only [StoreM.attempt_bind]
      cases hc : s.db.threads.contact d.identity with
      | error e =>
        obtain ⟨s₂, hget, htouches, -⟩ :=
          hrel₁.attempt_getOrCreate d.identity (decide (d.identity ≠ m.recipient))
        rw [hdb, ThreadTable.fetch_ensure_of_error hc] at hget
        rw [hget]
        exact .of_none (hread.trans htouches) (.unreadable e hc)
      | ok old =>
        obtain ⟨row, s₂, hget, htouches, hrow⟩ := hrel₁.attempt_getOrCreate_ok
          (decide (d.identity ≠ m.recipient)) (hdb ▸ hc)
        rw [hget]
        refine ⟨hread.trans htouches, .original old hc hdecision row.id, ?_⟩
        rintro _ ⟨⟩
        exact ⟨row, hrow, rfl⟩
    | sendHandshake =>
      obtain ⟨old, hc⟩ := Database.contact_of_sendHandshake hdecision
      obtain ⟨row, s₂, hbuild, htouches, hrow⟩ := hrel₁.attempt_buildHandshake w.clock
        (w.messageId d.identity) (decide (d.identity ≠ m.recipient)) (hdb ▸ hc)
      simp only [StoreM.attempt_bind, hbuild]
      refine ⟨hread.trans htouches, .handshake hdecision row.id, ?_⟩
      rintro _ ⟨⟩
      exact ⟨row, hrow, rfl⟩

/-- What is due to the destinations can be read off the database before the first send. -/
theorem owes_launches {db : Database} : ∀ {ds : List Destination} {s : Store}, s.Reliable →
    (ds.map (·.identity)).Nodup →
    (∀ d ∈ ds, db.threads.contact d.identity = s.db.threads.contact d.identity) →
    List.Forall₂ (Owes db w.clock w.messageId m) ds ((launches w m ds s).map (·.sent?))
  | [], _, _, _, _ => .nil
  | d :: ds, s, h, hn, hsame => by
    rw [List.map_cons, List.nodup_cons] at hn
    have hp := prepareSend_prepares (w := w) (m := m) (d := d) h
    refine .cons (hp.owes.congr (hsame d (.head _))) (owes_launches hp.reliable hn.2 ?_)
    intro d' hd'
    have hne : d'.identity ≠ d.identity := fun heq =>
      hn.1 (heq ▸ List.mem_map_of_mem (f := fun x : Destination => x.identity) hd')
    rw [hsame d' (.tail _ hd'), hp.others _ hne]

end Prepare

/-! ## The launches of a fan-out -/

namespace Node

variable {n : Node} {w : Surroundings} {f : FanOut} {d : Destination} {i : Identity}

theorem launch_prepares (h : n.store.Reliable) : Prepares w f.message d n.store
    (n.launchOf w f.message d).sent? (n.launch w f d).2.store := by
  rw [launch_store]
  exact prepareSend_prepares h

/-- The sends of a fan-out leave the other contacts alone. -/
theorem contact_launchAll (w : Surroundings) :
    ∀ (ds : List Destination) (f : FanOut) (n : Node), n.store.Reliable →
      i ∉ ds.map (·.identity) →
      (launchAll w ds f n).2.store.db.threads.contact i = n.store.db.threads.contact i
  | [], _, _, _, _ => rfl
  | d :: ds, f, n, h, hi => by
    have hp := launch_prepares (w := w) (f := f) (d := d) h
    have hne : i ≠ d.identity := fun heq => hi (heq ▸ .head _)
    rw [launchAll_cons]
    split
    · exact hp.others i hne
    · rw [contact_launchAll w ds _ _ hp.reliable fun hmem => hi (.tail _ hmem), hp.others i hne]

/-- What was handed over is recorded under the conversation with its recipient. -/
theorem rows_launchAll (w : Surroundings) :
    ∀ (ds : List Destination) (f : FanOut) (n : Node), n.store.Reliable →
      (ds.map (·.identity)).Nodup →
      ∀ l ∈ upTo (·.fatal n.settings w) (launches w f.message ds n.store),
        ∀ p, l.sent? = some p → ∃ row,
          (launchAll w ds f n).2.store.db.threads.contact p.1.recipient = .ok (some row) ∧
            row.id = p.1.threadId
  | [], _, _, _, _, l, hl, _, _ => by cases hl
  | d :: ds, f, n, h, hn, l, hl, p, hp => by
    rw [List.map_cons, List.nodup_cons] at hn
    have hprep := launch_prepares (w := w) (f := f) (d := d) h
    rw [launches_cons, upTo] at hl
    rw [launchAll_cons]
    -- the row of the first destination, after its own launch
    have hown (hp : (n.launchOf w f.message d).sent? = some p) : p.1.recipient = d.identity ∧
        ∃ row, (n.launch w f d).2.store.db.threads.contact p.1.recipient = .ok (some row) ∧
          row.id = p.1.threadId := by
      have hrecipient := (hp ▸ hprep.owes : Owes _ _ _ _ _ (some p)).recipient
      rw [hrecipient]
      exact ⟨rfl, hprep.own p hp⟩
    split at hl
    · next hfatal =>
      rw [if_pos hfatal]
      obtain rfl := List.mem_singleton.mp hl
      exact (hown hp).2
    · next hlives =>
      rw [if_neg hlives]
      rcases List.mem_cons.mp hl with rfl | hl
      · -- the launches that follow go to other contacts
        obtain ⟨hrecipient, hrow⟩ := hown hp
        rw [contact_launchAll w ds _ _ hprep.reliable (by rw [hrecipient]; exact hn.1)]
        exact hrow
      · rw [← launch_settings (n := n) (w := w) (f := f) (d := d)] at hl
        refine rows_launchAll w ds _ _ hprep.reliable hn.2 l ?_ p hp
        rwa [FanOut.message_take]

end Node

/-! ## The envelopes of a call -/

/-- The event is about call `id`. -/
def Event.isOf (id : Nat) : Event → Bool
  | .begin other _ => other = id
  | .answer other _ => other = id
  | _ => false

namespace System

variable {s t : System} {id : Nat} {m : OutgoingMessage} {ds : List Destination} {n n' : Node}
  {x : Exchange} {e : Event}

/-- What call `id` hands to the transport in a run. -/
def handedBy (id : Nat) : System → List (Exchange × Event) → List (OutgoingEnvelope × Bool)
  | _, [] => []
  | s, (x, e) :: events =>
    (if e.isOf id then (s.step x e).node.handed.drop s.node.handed.length else []) ++
      (s.step x e).handedBy id events

/-- Call `id` has started all its sends: it is a fan-out that waits, or it is over. -/
def Launched (t : System) (id : Nat) : Prop :=
  ∀ c, t.calls.lookup id = some c → ∃ f, c = .route (.fanningOut f)

theorem launched_settleCall {o : Option FanOut} :
    (t.settleCall id ((Node.checkFanOut o).toCall, n')).Launched id := by
  intro c hc
  rw [lookup_settleCall, if_pos rfl] at hc
  cases o with
  | none => cases hc
  | some f =>
    unfold Node.checkFanOut at hc
    dsimp only at hc
    split at hc
    · cases hc
    · cases hc
      exact ⟨f, rfl⟩

/-- Whatever happens to a call that has started its sends, it hands over nothing more. -/
theorem launched_step (h : t.Launched id) (hb : ∀ r, e ≠ .begin id r) :
    (t.step x e).Launched id ∧
      (e.isOf id = true → (t.step x e).node.handed = t.node.handed) := by
  by_cases ha : ∃ a, e = .answer id a
  · obtain ⟨a, rfl⟩ := ha
    cases hc : t.calls.lookup id with
    | none =>
      rw [step_answer_none hc]
      exact ⟨h, fun _ => rfl⟩
    | some c =>
      obtain ⟨f, rfl⟩ := h c hc
      rw [step_answer hc, Node.answer_fanningOut, settleCall_node]
      cases f.answered? a with
      | none =>
        refine ⟨fun c hc => ?_, fun _ => rfl⟩
        rw [lookup_settleCall, if_pos rfl] at hc
        cases hc
        exact ⟨f, rfl⟩
      | some sent => exact ⟨launched_settleCall, fun _ => Node.settleIn_settles.handed⟩
  · have ha' : ∀ a, e ≠ .answer id a := fun a h => ha ⟨a, h⟩
    have hother : e.isOf id = false := by
      cases e with
      | begin other r => exact decide_eq_false fun heq => hb r (heq ▸ rfl)
      | answer other a => exact decide_eq_false fun heq => ha' a (heq ▸ rfl)
      | _ => rfl
    refine ⟨fun c hc => ?_, fun hof => by simp [hother] at hof⟩
    by_cases hr : e = .restart
    · subst hr
      cases hc
    · rw [lookup_step hb ha' hr] at hc
      exact h c hc

theorem handedBy_of_launched :
    ∀ {events : List (Exchange × Event)} {t : System}, t.Launched id →
      (∀ y ∈ events, ∀ r, y.2 ≠ .begin id r) → t.handedBy id events = []
  | [], _, _, _ => rfl
  | (x, e) :: events, t, h, hlater => by
    obtain ⟨hnext, hsame⟩ := launched_step (x := x) h (hlater (x, e) (.head _))
    rw [handedBy, handedBy_of_launched hnext fun y hy => hlater y (.tail _ hy), List.append_nil]
    split
    · next hof => rw [hsame hof, List.drop_length]
    · rfl

/-- The transport delivers the envelope on the spot, and it carries a handshake whose expiry is no
timestamp. -/
def Deadly (s : System) (atOnce : OutgoingEnvelope → Option SendResult)
    (sent : OutgoingEnvelope × Bool) : Prop :=
  sent.2 = true ∧ atOnce sent.1 = some (.ok ()) ∧ s.node.Overflows s.clock

instance (s : System) (atOnce : OutgoingEnvelope → Option SendResult)
    (sent : OutgoingEnvelope × Bool) : Decidable (s.Deadly atOnce sent) :=
  inferInstanceAs (Decidable (_ ∧ _ ∧ _))

/-- A launch is fatal if what it hands over is. -/
theorem fatal_eq_any (h : n.settings = s.node.settings) (x : Exchange) (l : Launch) :
    l.fatal n.settings (s.surroundings x) =
      l.sent?.any fun sent => s.Deadly x.atOnce sent := by
  unfold Launch.fatal Launch.sent?
  cases l.send? with
  | none => rfl
  | some p =>
    rw [Option.any_some, Option.map_some, Option.any_some, h]
    unfold PendingSend.fatal
    rw [Bool.eq_iff_iff, Option.any_eq_true, decide_eq_true_eq]
    constructor
    · rintro ⟨result, hw, hkills⟩
      obtain ⟨hgenerated, hok, hoverflows⟩ := of_decide_eq_true hkills
      rcases result with e | ⟨⟩
      · cases hok
      · exact ⟨hgenerated, hw, hoverflows⟩
    · rintro ⟨hgenerated, hw, hoverflows⟩
      exact ⟨.ok (), hw, decide_eq_true ⟨hgenerated, rfl, hoverflows⟩⟩

/-- A fan-out hands over what it has prepared, in the event in which it starts. -/
theorem FansOut.handedBy_eq (h : s.FansOut id m ds n e) (x : Exchange)
    {events : List (Exchange × Event)} (hlater : ∀ y ∈ events, ∀ r, y.2 ≠ .begin id r) :
    s.handedBy id ((x, e) :: events) = (upTo (·.fatal n.settings (s.surroundings x))
      (launches (s.surroundings x) m ds n.store)).filterMap (·.sent?) := by
  have hof : e.isOf id = true := by cases h <;> exact decide_eq_true rfl
  have hlaunched : (s.step x e).Launched id := by
    rw [h.step_eq x]
    exact launched_settleCall
  rw [handedBy, if_pos hof, handedBy_of_launched hlaunched hlater, List.append_nil, h.step_node x,
    Node.handed_launchAll, h.handed, List.drop_left]
  rfl

/-- What a fan-out owes its destinations is fixed before anything is sent. Whatever the transport
answers, and whenever, the route hands over just that: all of it, exactly if no send but the last is
answered on the spot as a delivered handshake whose expiry is no timestamp; else what comes before
the task dies of such an answer. -/
theorem fan_out_sends_iff (h : s.FansOut id m ds n e) (hrel : s.node.store.Reliable)
    (before : Database)
    (hbefore : ∀ d ∈ ds,
      before.threads.contact d.identity = s.node.store.db.threads.contact d.identity)
    (messageId : Identity → String) :
    (ds.map (·.identity)).Nodup ∧
    ∃ due, List.Forall₂ (Owes before s.clock messageId m) ds due ∧
      (m.kind = .visible → ∀ p ∈ due.reduceOption, p.1.content = octetsOf handshakeBody ∨
        ∃ row, before.threads.contact p.1.recipient = .ok (some row) ∧
          row.handshakeState = .established) ∧
      ∀ (atOnce : OutgoingEnvelope → Option SendResult) (events : List (Exchange × Event)),
        (∀ y ∈ events, ∀ r, y.2 ≠ .begin id r) →
        let x : Exchange := { messageId, atOnce }
        let sent := s.handedBy id ((x, e) :: events)
        sent <+: due.reduceOption ∧
        (∀ p ∈ sent, ∃ row,
          (s.step x e).node.store.db.threads.contact p.1.recipient = .ok (some row) ∧
            row.id = p.1.threadId) ∧
        (sent = due.reduceOption ↔ ∀ p ∈ due.reduceOption.dropLast, ¬ s.Deadly atOnce p) := by
  have hfixes := h.store_fixes
  have hreln : n.store.Reliable := fun k call => by rw [hfixes.outage]; exact hrel k call
  have hthreads : n.store.db.threads = s.node.store.db.threads := hfixes.db
  -- the launches do not depend on the transport, so a silent one shows what is due
  let quiet : Surroundings := s.surroundings { messageId, atOnce := fun _ => none }
  have howes : List.Forall₂ (Owes before s.clock messageId m) ds
      ((launches quiet m ds n.store).map (·.sent?)) :=
    owes_launches (w := quiet) hreln h.nodup fun d hd => by rw [hbefore d hd, hthreads]
  have hreduce : ((launches quiet m ds n.store).map (·.sent?)).reduceOption =
      (launches quiet m ds n.store).filterMap (·.sent?) := by
    simp [List.reduceOption, List.filterMap_map]
  refine ⟨h.nodup, _, howes, fun hm p hp => ?_, fun atOnce events hlater => ?_⟩
  · rw [List.reduceOption_mem_iff] at hp
    obtain ⟨d, -, hd⟩ := exists_of_forall₂ howes _ hp
    exact hd.visible hm
  · intro x sent
    have hsent : sent = (upTo (·.fatal n.settings (s.surroundings x))
        (launches (s.surroundings x) m ds n.store)).filterMap (·.sent?) := h.handedBy_eq x hlater
    have hupTo : sent = upTo (fun p => s.Deadly atOnce p)
        ((launches (s.surroundings x) m ds n.store).filterMap (·.sent?)) := by
      rw [hsent, ← filterMap_upTo]
      simp only [fatal_eq_any h.settings x]
      rfl
    have hsame : launches (s.surroundings x) m ds n.store = launches quiet m ds n.store :=
      launches_congr (by rfl) (by rfl)
    rw [hreduce, ← hsame]
    refine ⟨hupTo ▸ upTo_prefix _ _, fun p hp => ?_, ?_⟩
    · rw [hsent] at hp
      obtain ⟨l, hl, hentry⟩ := List.mem_filterMap.mp hp
      rw [h.step_node x]
      exact Node.rows_launchAll _ ds (FanOut.start m) n hreln h.nodup l hl p hentry
    · rw [hupTo, upTo_eq_self_iff]
      simp

/-- The master is established and the slave is not: message and handshake go out, whether both fail
on the spot or the handshake is delivered later. -/
theorem fan_out_sends_of_any_answers :
    let message : OutgoingMessage := .toContact "m" "bob" [1] 0
    let s := (idle (.assemble Config.default.settings (.reliable .empty)) ⟨0, 0⟩).run
      [(.quiet, .establish "bob"), (.quiet, .begin 0 (.route message))]
    let e := Event.answer 0 (.links (.ok [.between "bob" "bob-phone"]))
    ∃ due, List.Forall₂ (Owes s.node.store.db s.clock (fun _ => "h") message)
        (destinationsIn [.between "bob" "bob-phone"] "bob") due ∧
      s.handedBy 0 [(⟨fun _ => "h", fun _ => some (.error (.unreachable "off"))⟩, e)] =
        due.reduceOption ∧
      s.handedBy 0 [(⟨fun _ => "h", fun _ => none⟩, e),
        (.quiet, .answer 0 (.delivery "bob-phone" (.ok ())))] = due.reduceOption := by
  intro message s e
  have hfans : s.FansOut 0 message (destinationsIn [.between "bob" "bob-phone"] "bob") _ e :=
    .resumes (.known "bob" "bob") (.ok [.between "bob" "bob-phone"]) rfl rfl
  obtain ⟨-, due, howes, -, hsent⟩ :=
    fan_out_sends_iff hfans (fun _ _ => rfl) s.node.store.db (fun _ _ => rfl) fun _ => "h"
  refine ⟨due, howes, (hsent (fun _ => some (.error (.unreachable "off"))) [] (by simp)).2.2.mpr ?_,
    (hsent (fun _ => none) _ (by simp)).2.2.mpr ?_⟩
  · exact fun p _ hdeadly => absurd hdeadly.2.1 (by simp)
  · exact fun p _ hdeadly => absurd hdeadly.2.1 (by simp)

/-- The handshake to the master is delivered, and its expiry is no timestamp. The slave is due a
handshake too and gets nothing. -/
theorem fan_out_sends_fails_for_long_expiry :
    let settings := { Config.default.settings with
      handshakeExpiry := .ofSeconds 9223372036854775 }
    let message : OutgoingMessage := .toContact "m" "bob" [1] 0
    let s := (idle (.assemble settings (.reliable .empty)) ⟨0, 1700000000000⟩).run
      [(.quiet, .begin 0 (.route message))]
    let x : Exchange := ⟨fun _ => "h", fun _ => some (.ok ())⟩
    let ds : List Destination := [⟨"bob", true⟩, ⟨"bob-phone", false⟩]
    let e := Event.answer 0 (.links (.ok [.between "bob" "bob-phone"]))
    (∃ n, s.FansOut 0 message ds n e) ∧ s.node.store.Reliable ∧
      ¬ ∃ due, List.Forall₂ (Owes s.node.store.db s.clock x.messageId message) ds due ∧
        s.handedBy 0 [(x, e)] = due.reduceOption := by
  intro settings message s x ds e
  have hds : destinationsIn [.between "bob" "bob-phone"] "bob" = ds := by decide +kernel
  refine ⟨hds ▸ ⟨_, .resumes (.known "bob" "bob") (.ok [.between "bob" "bob-phone"]) rfl rfl⟩,
    fun _ _ => rfl, ?_⟩
  rintro ⟨due, howes, hsent⟩
  have hrecipients : (s.handedBy 0 [(x, e)]).map (·.1.recipient) = ["bob"] := by decide +kernel
  have hdecision : s.node.store.db.decision s.clock "bob-phone" message.kind =
      .ok .sendHandshake := by decide +kernel
  have hread : s.node.store.db.threads.contact "bob-phone" = .ok none := by decide +kernel
  obtain ⟨bob, rest, -, hrest, rfl⟩ := List.forall₂_cons_left_iff.mp howes
  obtain ⟨phone, rest, hphone, -, rfl⟩ := List.forall₂_cons_left_iff.mp hrest
  cases phone with
  | none =>
    cases hphone with
    | outstanding h => rw [hdecision] at h; cases h
    | unreadable e h => rw [hread] at h; cases h
  | some p =>
    have hp : p ∈ s.handedBy 0 [(x, e)] := by
      rw [hsent, List.reduceOption_mem_iff]
      simp
    have hmem := List.mem_map_of_mem (f := fun p => p.1.recipient) hp
    rw [hrecipients, hphone.recipient] at hmem
    exact absurd hmem (by decide)

end System

end Courier
