import Courier.Node.Delivery
import Courier.Proofs.Lists
import Courier.Proofs.Trust.Standing
import Mathlib.Logic.Relation

/-!
# What the actions of the store do to a standing

Apart from the writes of a handshake's own states, an action changes the standing of a contact in
three ways only (`StandingMove`): a conversation is opened, trust is recorded, a request is marked
as expired. Whether the calls of the action fail makes no difference to that.

* `StoreM.Drifts`: an action makes no other changes; `Drifts.bind` and `drifts_call` prove it action
  by action, `drifts_markEstablished` and `drifts_expireStale` for those that move more than a row.
* `buildHandshake_cases`: a handshake that is built leaves its contact pending, one that is not
  built has at most opened a conversation.
* `prepareSend_cases`: a handshake goes only to a contact that was not locked.
-/

namespace Courier

open Relation (ReflTransGen)

/-- A change of a contact's standing that no handshake makes. -/
inductive StandingMove : Option Standing → Option Standing → Prop where
  | opens : StandingMove none (some .fresh)
  | establishes (r : Standing) : StandingMove (some r) (some ⟨.known .established, none⟩)
  | expires (r : Standing) (h : r.state = .known .requestSent ∨ r.state = .known .expired) :
      StandingMove (some r) (some ⟨.known .expired, none⟩)

namespace Store

variable {s s' s'' : Store} {i j : Identity}

/-- The standing of a contact in the database. -/
def standing (s : Store) (i : Identity) : Option Standing :=
  s.db.threads.standing i

/-- The rows of the conversations are keyed. -/
def Keyed (s : Store) : Prop :=
  s.db.threads.Keyed

/-- The store has come from `s` to `s'` by moves of standings. -/
structure Drift (s s' : Store) : Prop where
  outage : s'.outage = s.outage
  keyed : s'.Keyed
  standing : ∀ i, ReflTransGen StandingMove (s.standing i) (s'.standing i)

theorem Drift.refl (hk : s.Keyed) : s.Drift s :=
  ⟨rfl, hk, fun _ => .refl⟩

theorem Drift.trans (h : s.Drift s') (h' : s'.Drift s'') : s.Drift s'' :=
  ⟨h'.outage.trans h.outage, h'.keyed, fun i => (h.standing i).trans (h'.standing i)⟩

/-- The rows that a sweep has read are those of requests; it may have marked some already. -/
def Swept (s : Store) (rows : List ThreadRow) : Prop :=
  ∀ t ∈ rows, ∃ r, s.standing t.peer = some r ∧
    (r.state = .known .requestSent ∨ r.state = .known .expired)

/-- The store has come from `s` to `s'` by a handshake for `i` that was built. -/
structure Pends (s : Store) (i : Identity) (s' : Store) : Prop where
  outage : s'.outage = s.outage
  keyed : s'.Keyed
  standing : ∀ j, s'.standing j = if j = i then some ⟨.known .pendingSend, none⟩ else s.standing j

end Store

namespace StoreM

variable {α β : Type} {x : StoreM α} {f : α → StoreM β} {s : Store}

/-! ## Running an action -/

theorem attempt_pure (a : α) (s : Store) : (pure a : StoreM α).attempt s = (.ok a, s) :=
  rfl

theorem attempt_bind (x : StoreM α) (f : α → StoreM β) (s : Store) :
    (x >>= f).attempt s =
      match x.attempt s with
      | (.ok a, s') => (f a).attempt s'
      | (.error e, s') => (.error e, s') := by
  simp only [attempt, EStateM.run, Bind.bind, EStateM.bind]
  cases x s <;> rfl

theorem attempt_call (name : StoreCall) (g : Database → Except StoreError α × Database)
    (s : Store) :
    (Store.call name g).attempt s =
      match s.outage s.calls name with
      | some e => (.error e, { s with calls := s.calls + 1 })
      | none => ((g s.db).1, { s with calls := s.calls + 1, db := (g s.db).2 }) := by
  unfold attempt Store.call EStateM.run
  dsimp only
  cases s.outage s.calls name with
  | some e => rfl
  | none =>
    dsimp only
    rcases g s.db with ⟨_ | _, db⟩ <;> rfl

theorem attempt_query (name : StoreCall) (g : Database → Except StoreError α) (s : Store) :
    (Store.query name g).attempt s =
      (match s.outage s.calls name with
        | some e => .error e
        | none => g s.db, { s with calls := s.calls + 1 }) := by
  unfold Store.query
  rw [attempt_call]
  cases s.outage s.calls name <;> rfl

/-! ## Actions that drift -/

/-- The action makes none but moves of standings, whether or not it fails. -/
def Drifts (x : StoreM α) : Prop :=
  ∀ s : Store, s.Keyed → s.Drift (x.attempt s).2

/-- What an action that was run has made of the store. -/
theorem Drifts.of_attempt {result : Except StoreError α} {s' : Store} (hx : x.Drifts)
    (hk : s.Keyed) (h : x.attempt s = (result, s')) : s.Drift s' := by
  have := hx s hk
  rwa [h] at this

theorem Drifts.pure (a : α) : Drifts (Pure.pure a : StoreM α) :=
  fun _ => .refl

theorem Drifts.bind (hx : x.Drifts) (hf : ∀ a, (f a).Drifts) : (x >>= f).Drifts := by
  intro s hk
  have h := hx s hk
  rw [attempt_bind]
  rcases hxs : x.attempt s with ⟨_ | a, s'⟩ <;> rw [hxs] at h
  · exact h
  · exact h.trans (hf a s' h.keyed)

theorem drifts_call {name : StoreCall} {g : Database → Except StoreError α × Database}
    (hg : ∀ db : Database, db.threads.Keyed → (g db).2.threads.Keyed ∧
      ∀ i, ReflTransGen StandingMove (db.threads.standing i) ((g db).2.threads.standing i)) :
    (Store.call name g).Drifts := by
  intro s hk
  rw [attempt_call]
  cases s.outage s.calls name with
  | some e => exact ⟨rfl, hk, fun _ => .refl⟩
  | none => exact ⟨rfl, (hg s.db hk).1, (hg s.db hk).2⟩

theorem drifts_query (name : StoreCall) (g : Database → Except StoreError α) :
    (Store.query name g).Drifts :=
  drifts_call fun _ hk => ⟨hk, fun _ => .refl⟩

theorem drifts_change {name : StoreCall} {g : Database → α × Database}
    (hg : ∀ db : Database, db.threads.Keyed → (g db).2.threads.Keyed ∧
      ∀ i, ReflTransGen StandingMove (db.threads.standing i) ((g db).2.threads.standing i)) :
    (Store.change name g).Drifts :=
  drifts_call hg

/-- A change of other tables. -/
theorem drifts_elsewhere {name : StoreCall} {g : Database → α × Database}
    (hg : ∀ db, (g db).2.threads = db.threads) : (Store.change name g).Drifts :=
  drifts_change fun db hk => by
    rw [hg db]
    exact ⟨hk, fun _ => .refl⟩

theorem drifts_ensured (name : StoreCall) (kind : ThreadKind) (peer : String) (hidden : Bool) :
    (Store.call name (Store.ensured kind peer hidden)).Drifts := by
  refine drifts_call fun db hk => ⟨hk.ensure, fun i => ?_⟩
  show ReflTransGen _ _ ((db.threads.ensure kind peer hidden).standing i)
  rw [ThreadTable.standing_ensure]
  split
  · cases db.threads.standing i with
    | none => exact .single .opens
    | some r => exact .refl
  · exact .refl

theorem drifts_getOrCreateContactThread (i : Identity) (hidden : Bool) :
    (Store.getOrCreateContactThread i hidden).Drifts :=
  drifts_ensured _ _ _ _

theorem drifts_recordThreadActivity (clock : Clock) (id : Int) (timestamp : Int64) :
    (Store.recordThreadActivity clock id timestamp).Drifts :=
  drifts_change fun db hk => ⟨hk.noteActivity .., fun i => by
    show ReflTransGen _ _ ((db.threads.noteActivity ..).standing i)
    rw [ThreadTable.standing_noteActivity]⟩

theorem drifts_enqueueInbound (clock : Clock) (e : InboundEnvelope) :
    (Store.enqueueInbound clock e).Drifts := by
  refine drifts_change fun db hk => ?_
  unfold enqueue
  by_cases hj : db.inbound.Holds e.serverHash
  · simp only [hj, if_true]
    exact ⟨hk, fun _ => .refl⟩
  · cases hg : e.groupId with
    | none =>
      simp only [hj, if_false]
      exact ⟨hk, fun _ => .refl⟩
    | some group =>
      simp only [hj, if_false]
      have hnote := ThreadTable.keepsKeys_noteActivity clock.now e.timestamp
      refine ⟨hk.ensure.update hnote, fun i => ?_⟩
      rw [ThreadTable.standing_update_group hnote, ThreadTable.standing_ensure,
        if_neg fun h => absurd h.1 (by decide)]

theorem drifts_writeEstablished (i : Identity) :
    (Store.writeHandshakeState i .established none).Drifts :=
  drifts_change fun db hk => ⟨hk.writeState .., fun j => by
    show ReflTransGen _ _ ((db.threads.writeState i _ _).2.standing j)
    rw [ThreadTable.standing_writeState]
    split
    · cases db.threads.standing j with
      | none => exact .refl
      | some r => exact .single (.establishes r)
    · exact .refl⟩

theorem drifts_markEstablished (i : Identity) : (markEstablished i).Drifts :=
  (drifts_getOrCreateContactThread i true).bind fun _ =>
    (drifts_writeEstablished i).bind fun _ => .pure _

/-- A list of actions whose failures are passed over. -/
theorem drift_foldl_effect {γ : Type} {g : γ → StoreM α} (hg : ∀ a, (g a).Drifts) :
    ∀ (l : List γ) (s : Store), s.Keyed → s.Drift (l.foldl (fun s a => (g a).effect s) s)
  | [], _, hk => .refl hk
  | a :: l, s, hk => (hg a s hk).trans (drift_foldl_effect hg l _ (hg a s hk).keyed)

/-! ## The sweep -/

theorem swept_of_contactsIn {rows : List ThreadRow} (hk : s.Keyed)
    (h : s.db.threads.contactsIn .requestSent = .ok rows) : s.Swept rows := by
  intro t ht
  obtain ⟨r, hr, hread⟩ := mem_of_mapM_ok h t ht
  obtain ⟨hr, hcontact⟩ := List.mem_filter.mp hr
  obtain ⟨hkind, hstate⟩ := of_decide_eq_true hcontact
  have hpeer : r.peer = t.peer := by
    simp only [StoredThread.read, hstate, Except.ok.injEq] at hread
    rw [← hread]
  refine ⟨r.standing, ?_, .inl hstate⟩
  have := ThreadTable.Keyed.find?_of_mem hk hr
  rw [hkind, hpeer] at this
  unfold Store.standing ThreadTable.standing
  rw [this]
  rfl

theorem writeExpired_drift (hk : s.Keyed) (i : Identity)
    (h : ∃ r, s.standing i = some r ∧ (r.state = .known .requestSent ∨ r.state = .known .expired)) :
    s.Drift ((Store.writeHandshakeState i .expired none).attempt s).2 ∧
      ∀ rows, s.Swept rows →
        ((Store.writeHandshakeState i .expired none).attempt s).2.Swept rows := by
  unfold Store.writeHandshakeState Store.change
  rw [attempt_call]
  cases s.outage s.calls .writeHandshakeState with
  | some e => exact ⟨⟨rfl, hk, fun _ => .refl⟩, fun _ h => h⟩
  | none =>
    have hw (j : Identity) := ThreadTable.standing_writeState (t := s.db.threads) (i := i) (j := j)
      .expired none
    refine ⟨⟨rfl, ThreadTable.Keyed.writeState hk .expired none, fun j => ?_⟩,
      fun rows hrows t ht => ?_⟩
    · show ReflTransGen _ _ ((s.db.threads.writeState i _ _).2.standing j)
      rw [hw]
      split
      · next hj =>
        obtain ⟨r, hr, hstate⟩ := h
        subst hj
        show ReflTransGen _ (s.standing j) ((s.standing j).map _)
        rw [hr]
        exact .single (.expires r hstate)
      · exact .refl
    · obtain ⟨r, hr, hstate⟩ := hrows t ht
      show ∃ r, (s.db.threads.writeState i _ _).2.standing t.peer = some r ∧ _
      rw [hw, show s.db.threads.standing t.peer = some r from hr]
      split
      · exact ⟨_, rfl, .inr rfl⟩
      · exact ⟨r, rfl, hstate⟩

theorem attempt_expireOne (now : Int64) (expired : List Identity) (t : ThreadRow) (s : Store) :
    ((expireOne now expired t).attempt s).2 =
      if t.due now then ((Store.writeHandshakeState t.peer .expired none).attempt s).2 else s := by
  unfold expireOne
  split
  · rw [attempt_bind]
    rcases (Store.writeHandshakeState t.peer .expired none).attempt s with ⟨_ | b, s'⟩
    · rfl
    · cases b <;> rfl
  · rfl

theorem drift_foldlM_expireOne (now : Int64) :
    ∀ (rows : List ThreadRow) (expired : List Identity) (s : Store), s.Keyed → s.Swept rows →
      s.Drift ((rows.foldlM (expireOne now) expired).attempt s).2
  | [], _, _, hk, _ => .refl hk
  | t :: rows, expired, s, hk, hs => by
    rw [List.foldlM_cons, attempt_bind]
    have h := attempt_expireOne now expired t s
    have hstep : s.Drift ((expireOne now expired t).attempt s).2 ∧
        ((expireOne now expired t).attempt s).2.Swept rows := by
      rw [h]
      have hrows : s.Swept rows := fun t ht => hs t (.tail _ ht)
      split
      · obtain ⟨hd, hr⟩ := writeExpired_drift hk t.peer (hs t (.head _))
        exact ⟨hd, hr rows hrows⟩
      · exact ⟨.refl hk, hrows⟩
    rcases hx : (expireOne now expired t).attempt s with ⟨_ | expired', s'⟩ <;> rw [hx] at hstep
    · exact hstep.1
    · exact hstep.1.trans (drift_foldlM_expireOne now rows expired' s' hstep.1.keyed hstep.2)

theorem drifts_expireStale (now : Int64) : (expireStale now).Drifts := by
  intro s hk
  have hread : s.Drift { s with calls := s.calls + 1 } := ⟨rfl, hk, fun _ => .refl⟩
  unfold expireStale Store.listHandshakes
  rw [attempt_bind, attempt_query]
  cases s.outage s.calls .listHandshakes with
  | some e => exact hread
  | none =>
    cases hrows : s.db.threads.contactsIn .requestSent with
    | error e => exact hread
    | ok rows =>
      -- the rows were read before the first write, so each is carried along as `Swept`
      exact hread.trans
        (drift_foldlM_expireOne now rows [] _ hread.keyed (swept_of_contactsIn hk hrows))

end StoreM

/-! ## Building a handshake -/

section Build

open StoreM

variable {s s' : Store} {i j : Identity} {hidden : Bool} {clock : Clock}

theorem getOrCreateContactThread_ok {row : ThreadRow}
    (h : (Store.getOrCreateContactThread i hidden).attempt s = (.ok row, s')) (j : Identity) :
    s'.standing j = if j = i then some ((s.standing i).getD .fresh) else s.standing j := by
  unfold Store.getOrCreateContactThread at h
  rw [attempt_call] at h
  cases ho : s.outage s.calls .getOrCreateContactThread with
  | some e => simp [ho] at h
  | none =>
    simp only [ho, Prod.mk.injEq] at h
    rw [← h.2]
    show (s.db.threads.ensure .contact i hidden).standing j = _
    rw [ThreadTable.standing_ensure]
    by_cases hj : j = i
    · subst hj
      simp [Store.standing]
    · simp [hj, Ne.symm hj, Store.standing]

/-- A write of a state: it fails and changes nothing, or the contact's row has the state. -/
theorem writeHandshakeState_cases (s : Store) (i : Identity) (st : HandshakeState)
    (e : Option Int64) :
    (∃ err, s.outage s.calls .writeHandshakeState = some err ∧
      (Store.writeHandshakeState i st e).attempt s =
        (.error err, { s with calls := s.calls + 1 })) ∨
    (s.outage s.calls .writeHandshakeState = none ∧
      ∃ found s', (Store.writeHandshakeState i st e).attempt s = (.ok found, s') ∧
        s'.outage = s.outage ∧ (s.Keyed → s'.Keyed) ∧
        ∀ j, s'.standing j =
          if j = i then (s.standing j).map fun _ => ⟨.known st, e⟩ else s.standing j) := by
  unfold Store.writeHandshakeState Store.change
  rw [attempt_call]
  cases s.outage s.calls .writeHandshakeState with
  | some err => exact .inl ⟨err, rfl, rfl⟩
  | none =>
    exact .inr ⟨rfl, _, _, rfl, rfl, fun hk => ThreadTable.Keyed.writeState hk st e,
      fun j => ThreadTable.standing_writeState st e⟩

variable {messageId : String}

/-- A handshake that is built leaves its contact pending; one that is not built has at most opened a
conversation. -/
theorem buildHandshake_cases {result : Except StoreError (OutgoingMessage × HandshakeDelivery)}
    (hk : s.Keyed) (h : (buildHandshake clock messageId i hidden).attempt s = (result, s')) :
    (∃ m d, result = .ok (m, d) ∧ d.identity = i ∧ d.envelope.recipient = i ∧ s.Pends i s') ∨
      ((∃ e, result = .error e) ∧ s.Drift s') := by
  unfold buildHandshake at h
  rw [attempt_bind] at h
  rcases hg : (Store.getOrCreateContactThread i hidden).attempt s with ⟨_ | row, s₁⟩ <;>
    rw [hg] at h <;> have hopen := (drifts_getOrCreateContactThread i hidden).of_attempt hk hg
  · cases h
    exact .inr ⟨⟨_, rfl⟩, hopen⟩
  · simp only [attempt_bind] at h
    rcases writeHandshakeState_cases s₁ i .pendingSend none with
      ⟨err, -, hw⟩ | ⟨-, found, s₂, hw, ho₂, hk₂, hs₂⟩ <;> rw [hw] at h <;> cases h
    · exact .inr ⟨⟨_, rfl⟩, hopen.outage, hopen.keyed, hopen.standing⟩
    · refine .inl ⟨_, _, rfl, rfl, rfl, ho₂.trans hopen.outage, hk₂ hopen.keyed, fun j => ?_⟩
      rw [hs₂, getOrCreateContactThread_ok hg]
      by_cases hj : j = i
      · simp only [hj, if_true, Option.map_some]
      · simp only [hj, if_false]

/-! ## Deciding and preparing -/

theorem not_locked_of_decideFor {now : Int64} {row : Option ThreadRow}
    (h : decideFor now row = .sendHandshake) : ∀ r ∈ row.map (·.standing), ¬ r.Locked := by
  rintro r hr hlocked
  obtain ⟨row, rfl, rfl⟩ := Option.map_eq_some_iff.mp hr
  rcases hlocked with hlocked | hlocked <;>
    simp only [ThreadRow.standing, StoredState.known.injEq] at hlocked <;>
    simp [decideFor, hlocked, HandshakeState.isEstablished, HandshakeState.isOutstanding,
      ThreadRow.lapsed] at h

theorem drifts_decideHandshake (clock : Clock) (i : Identity) (kind : MessageKind) :
    (decideHandshake clock i kind).Drifts := by
  unfold decideHandshake
  split
  · exact .pure _
  · exact (drifts_query _ _).bind fun _ => .pure _

/-- A handshake is decided on for a contact that is not locked, and nothing changes. -/
theorem decideHandshake_sendHandshake {kind : MessageKind}
    (h : (decideHandshake clock i kind).attempt s = (.ok .sendHandshake, s')) :
    (∀ r ∈ s.standing i, ¬ r.Locked) ∧ s'.db = s.db ∧ s'.outage = s.outage := by
  unfold decideHandshake at h
  split at h
  · cases h
  · unfold Store.contactThread at h
    rw [attempt_bind, attempt_query] at h
    cases ho : s.outage s.calls .contactThread with
    | some e => simp [ho] at h
    | none =>
      cases hrow : s.db.threads.contact i with
      | error e => simp [ho, hrow] at h
      | ok row =>
        simp only [ho, hrow, attempt_pure, Prod.mk.injEq, Except.ok.injEq] at h
        obtain ⟨hd, rfl⟩ := h
        refine ⟨?_, rfl, rfl⟩
        unfold Store.standing
        rw [ThreadTable.standing_of_contact hrow]
        exact not_locked_of_decideFor hd

/-- The preparation of a send builds a handshake for a contact that is not locked, or it changes no
more than a failed build does. -/
theorem prepareSend_cases {w : Surroundings} {m : OutgoingMessage} {d : Destination}
    {result : Except StoreError (Option PendingSend)} (hk : s.Keyed)
    (h : (prepareSend w m d).attempt s = (result, s')) :
    (∃ p, result = .ok (some p) ∧ p.destination = d ∧ p.isHandshake = true ∧
        p.envelope.recipient = d.identity ∧ (∀ r ∈ s.standing d.identity, ¬ r.Locked) ∧
        s.Pends d.identity s') ∨
      (s.Drift s' ∧ ∀ p, result = .ok (some p) → p.destination = d ∧ p.isHandshake = false) := by
  unfold prepareSend at h
  simp only [attempt_bind] at h
  rcases hd : (decideHandshake w.clock d.identity m.kind).attempt s with ⟨_ | decision, s₁⟩ <;>
    rw [hd] at h <;> have hdrift := (drifts_decideHandshake _ _ _).of_attempt hk hd
  · cases h
    exact .inr ⟨hdrift, fun p h => by cases h⟩
  · cases decision with
    | alreadyPending =>
      cases h
      exact .inr ⟨hdrift, fun p h => by cases h⟩
    | sendHandshake =>
      obtain ⟨hfree, hdb, ho⟩ := decideHandshake_sendHandshake hd
      have hst : s₁.standing = s.standing := funext fun i => by simp only [Store.standing, hdb]
      simp only [attempt_bind] at h
      rcases hb : (buildHandshake w.clock (w.messageId d.identity) d.identity
        (decide (d.identity ≠ m.recipient))).attempt s₁ with ⟨built, s₂⟩
      rw [hb] at h
      rcases buildHandshake_cases hdrift.keyed hb with
        ⟨msg, delivery, rfl, -, hrecipient, hp⟩ | ⟨⟨e, rfl⟩, hd⟩ <;> cases h
      · exact .inl ⟨_, rfl, rfl, rfl, hrecipient, hfree, hp.outage.trans ho, hp.keyed,
          hst ▸ hp.standing⟩
      · exact .inr ⟨hdrift.trans hd, fun p h => by cases h⟩
    | sendAsIs =>
      simp only [attempt_bind] at h
      rcases hg : (Store.getOrCreateContactThread d.identity
        (decide (d.identity ≠ m.recipient))).attempt s₁ with ⟨_ | row, s₂⟩ <;>
        rw [hg] at h <;> cases h <;>
        have hopen := (drifts_getOrCreateContactThread _ _).of_attempt hdrift.keyed hg
      · exact .inr ⟨hdrift.trans hopen, fun p h => by cases h⟩
      · refine .inr ⟨hdrift.trans hopen, ?_⟩
        rintro _ ⟨⟩
        exact ⟨rfl, rfl⟩

end Build

end Courier
