import Courier.Proofs.Polling.Acceptance
import Courier.Proofs.Routing.Launches
import Courier.Proofs.Store.Edits

/-!
# What calls do to the database

A call makes edits, with one exception: a message to a group that was delivered is noted as activity
under the id of the group's conversation (`Store.Sends`).

* `Store.Sends.numbered`, `Store.Sends.idOf`: that gives no id twice and keeps the ids of
  conversations.
* `Node.begin_sends`, `Node.answer_sends`: a request until it first waits, and an answer for a call.
  The id under which a delivered message is noted is still that of its group, if it was when the call
  began to wait (`Call.Anchored`).
* `System.step_sends`: every event but a batch.
* `System.anchored_run`: in a run from an empty store no id is given twice, and every call that waits
  is anchored.
-/

namespace Courier

/-! ## Messages -/

/-- The message of a route. -/
def Route.message : Route → OutgoingMessage
  | .resolving m _ => m
  | .direct m _ _ => m
  | .fanningOut f => f.message

/-- A route that waits was not begun for a group, or it holds the id of the group's conversation. -/
def Route.Anchored (t : ThreadTable) : Route → Prop
  | .direct m thread _ => ∀ g, m.thread = .group g → t.idOf .group g = some thread.id
  | r => r.message.thread.isGroup = false

/-- So is the route that a call waits for, if it is one. -/
def Call.Anchored (t : ThreadTable) : Call → Prop
  | .route r => r.Anchored t
  | _ => True

theorem Call.Anchored.mono {t t' : ThreadTable} {c : Call} (h : c.Anchored t)
    (hid : ∀ g id, t.idOf .group g = some id → t'.idOf .group g = some id) : c.Anchored t' := by
  unfold Anchored at *
  cases c with
  | route r =>
    cases r with
    | direct m thread envelope => exact fun g hg => hid g thread.id (h g hg)
    | resolving m r => exact h
    | fanningOut f => exact h
  | _ => trivial

/-- The store after a message was delivered, if `sent` names one. Delivery to a group is activity,
noted under the id of its conversation, unless this last call fails. -/
def Store.Sends (s : Store) (clock : Clock) (sent : Option OutgoingMessage) (s' : Store) : Prop :=
  match sent with
  | none => s.Edits s'
  | some m =>
    match m.thread with
    | .contact _ => s.Edits s'
    | .group g => ∃ s₁ id, s.Edits s₁ ∧ s₁.db.threads.idOf .group g = some id ∧
        s' = (Store.recordThreadActivity clock id m.timestamp).effect s₁

namespace Store

variable {s s' : Store} {clock : Clock} {m : OutgoingMessage} {sent : Option OutgoingMessage}
  {kind : ThreadKind} {peer : String} {id : Int}

theorem Sends.of_edits (h : s.Edits s') (hm : ∀ m, sent = some m → m.thread.isGroup = false) :
    s.Sends clock sent s' := by
  unfold Sends
  cases sent with
  | none => exact h
  | some m =>
    have hcontact := hm m rfl
    dsimp only
    cases hthread : m.thread with
    | contact i => exact h
    | group g =>
      rw [hthread] at hcontact
      cases hcontact

/-- Other writes come first. -/
theorem Edits.sends {s₁ : Store} (h : s.Edits s₁) (h' : s₁.Sends clock sent s') :
    s.Sends clock sent s' := by
  unfold Sends at *
  cases sent with
  | none => exact h.trans h'
  | some m =>
    dsimp only at h' ⊢
    cases hthread : m.thread with
    | contact i =>
      rw [hthread] at h'
      exact h.trans h'
    | group g =>
      rw [hthread] at h'
      obtain ⟨s₂, id, hedits, hid, heffect⟩ := h'
      exact ⟨s₂, id, h.trans hedits, hid, heffect⟩

/-- The last call that was made did not fail. -/
def LastSucceeded (s : Store) (name : StoreCall) : Prop :=
  s.outage (s.calls - 1) name = none

instance (s : Store) (name : StoreCall) : Decidable (s.LastSucceeded name) :=
  inferInstanceAs (Decidable (_ = none))

/-- Either no message to a group was delivered, or it was noted after edits, unless this failed. -/
theorem Sends.cases (h : s.Sends clock sent s') :
    (s.Edits s' ∧ ∀ m, sent = some m → m.thread.isGroup = false) ∨
      ∃ m g s₁ id, sent = some m ∧ m.thread = .group g ∧ s.Edits s₁ ∧
        s₁.db.threads.idOf .group g = some id ∧
        s'.db.threads = if s'.LastSucceeded .recordThreadActivity
          then s₁.db.threads.noteActivity id clock.now m.timestamp else s₁.db.threads := by
  unfold Sends at h
  cases sent with
  | none => exact .inl ⟨h, fun m hm => by cases hm⟩
  | some m =>
    dsimp only at h
    cases hthread : m.thread with
    | contact i =>
      rw [hthread] at h
      refine .inl ⟨h, fun m' hm' => ?_⟩
      obtain rfl := Option.some.inj hm'
      rw [hthread]
      rfl
    | group g =>
      rw [hthread] at h
      obtain ⟨s₁, id, hedits, hid, rfl⟩ := h
      refine .inr ⟨m, g, s₁, id, rfl, hthread, hedits, hid, ?_⟩
      unfold recordThreadActivity
      rw [StoreM.effect_change]
      show Database.threads (if _ then _ else _) =
        if s₁.outage (s₁.calls + 1 - 1) .recordThreadActivity = none then _ else _
      rw [Nat.add_sub_cancel]
      split <;> rfl

theorem Sends.numbered (h : s.Sends clock sent s') (hn : s.db.threads.Numbered) :
    s'.db.threads.Numbered := by
  obtain ⟨hedits, -⟩ | ⟨m, g, s₁, id, -, -, hedits, -, hthreads⟩ := h.cases
  · exact hedits.numbered hn
  · rw [hthreads]
    split
    · exact (hedits.numbered hn).noteActivity id clock.now m.timestamp
    · exact hedits.numbered hn

theorem Sends.idOf (h : s.Sends clock sent s') (hid : s.db.threads.idOf kind peer = some id) :
    s'.db.threads.idOf kind peer = some id := by
  obtain ⟨hedits, -⟩ | ⟨m, g, s₁, thread, -, -, hedits, -, hthreads⟩ := h.cases
  · exact hedits.idOf hid
  · rw [hthreads]
    split
    · exact (ThreadTable.idOf_noteActivity thread clock.now m.timestamp).trans (hedits.idOf hid)
    · exact hedits.idOf hid

end Store

/-! ## Routes -/

/-- The message that a route has delivered with a step, to all devices that it was meant for. -/
def RouteStep.sent (m : OutgoingMessage) : RouteStep → Option OutgoingMessage
  | .ends (.ok _) => some m
  | _ => none

theorem RouteStep.eq_of_sent {m m' : OutgoingMessage} {step : RouteStep}
    (h : step.sent m = some m') : m' = m := by
  unfold sent at h
  split at h <;> cases h
  rfl

/-- What a step of a route for `m` does: its message is delivered or not, and if the route goes on
waiting, it is still anchored. -/
structure Node.Routes (n : Node) (w : Surroundings) (m : OutgoingMessage)
    (out : RouteStep × Node) : Prop where
  sends : n.store.Sends w.clock (out.1.sent m) out.2.store
  message : ∀ r, out.1 = .waits r → r.message = m
  anchored : ∀ r, out.1 = .waits r → r.Anchored out.2.store.db.threads

namespace Node

variable {α : Type} {n : Node} {w : Surroundings} {clock : Clock} {m : OutgoingMessage}
  {f : FanOut}

theorem Routes.of_edits {out : RouteStep × Node} (hm : m.thread.isGroup = false)
    (h : n.store.Edits out.2.store) (hmessage : ∀ r, out.1 = .waits r → r.message = m) :
    n.Routes w m out where
  sends := .of_edits h fun m' hm' => by rw [RouteStep.eq_of_sent hm', hm]
  message := hmessage
  anchored r hr := by
    have hmessage := hmessage r hr
    cases r with
    | direct m' thread envelope =>
      intro g hg
      obtain rfl : m' = m := hmessage
      rw [hg] at hm
      cases hm
    | resolving m' r => exact (congrArg (·.thread.isGroup) hmessage).trans hm
    | fanningOut f => exact (congrArg (·.thread.isGroup) hmessage).trans hm

/-- A route that is over, well or not. -/
theorem Routes.ends {result : RouteResult} {n' : Node}
    (h : n.store.Sends w.clock (RouteStep.sent m (.ends result)) n'.store) :
    n.Routes w m (.ends result, n') where
  sends := h
  message r hr := by cases hr
  anchored r hr := by cases hr

theorem edits_attempt {x : StoreM α} (hx : x.Edits) : n.store.Edits (n.attempt x).2.store :=
  hx n.store

theorem edits_relink (work : LinkWork) (instant : Nat) :
    n.store.Edits (n.relink instant work).store :=
  .of_fixes (work.apply_fixes (fun _ _ => rfl) _ _ _)

/-- The conversation of a group's message is the one that was opened for it. -/
theorem idOf_threadOf {n' : Node} {thread : ThreadRow} {g : GroupId} (hm : m.thread = .group g)
    (h : n.attempt (threadOf m) = (.ok thread, n')) :
    n'.store.db.threads.idOf .group g = some thread.id := by
  unfold attempt threadOf at h
  rw [hm] at h
  dsimp only at h
  unfold Store.getOrCreateGroupThread at h
  rw [StoreM.attempt_call] at h
  cases houtage : n.store.outage n.store.calls .getOrCreateGroupThread with
  | some e =>
    rw [houtage] at h
    cases h
  | none =>
    rw [houtage] at h
    obtain ⟨hfetch, rfl⟩ := Prod.mk.inj h
    exact ThreadTable.idOf_of_fetch hfetch

theorem finishDirect_sends {thread : ThreadRow} (envelope : OutgoingEnvelope)
    (hid : ∀ g, m.thread = .group g → n.store.db.threads.idOf .group g = some thread.id)
    (result : SendResult) :
    n.store.Sends w.clock (RouteStep.sent m (.ends (n.finishDirect w m thread envelope result).1))
      (n.finishDirect w m thread envelope result).2.store := by
  unfold finishDirect
  cases result with
  | error e => exact .refl n.store
  | ok _ =>
    show n.store.Sends w.clock (some m) _
    unfold Store.Sends
    dsimp only
    cases hthread : m.thread with
    | contact i => exact .refl n.store
    | group g => exact ⟨n.store, thread.id, .refl n.store, hid g hthread, rfl⟩

theorem sendDirect_routes : n.Routes w m (n.sendDirect w m) := by
  have hedits := edits_attempt (n := n) (StoreM.edits_threadOf m)
  unfold sendDirect
  rcases hx : n.attempt (threadOf m) with ⟨e | thread, n'⟩ <;> rw [hx] at hedits
  · exact .ends (.of_edits hedits nofun)
  · have hid : ∀ g, m.thread = .group g → n'.store.db.threads.idOf .group g = some thread.id :=
      fun g hg => idOf_threadOf hg hx
    dsimp only
    split
    · refine ⟨.of_edits hedits nofun, fun r hr => ?_, fun r hr => ?_⟩
      · cases hr
        rfl
      · cases hr
        exact hid
    · next result _ =>
      let envelope := m.envelopeFor m.recipient thread.id
      have hfinish :=
        finishDirect_sends (n := n'.note (.handed envelope false)) (w := w) envelope hid result
      exact .ends (hedits.sends hfinish)

theorem edits_launchAll (ds : List Destination) :
    n.store.Edits (launchAll w ds f n).2.store := by
  induction ds generalizing f n with
  | nil => exact .refl _
  | cons d ds ih =>
    have hlaunch : n.store.Edits (n.launch w f d).2.store := by
      rw [launch_store]
      exact StoreM.edits_prepareSend w f.message d n.store
    rw [launchAll_cons]
    split
    · exact hlaunch
    · exact hlaunch.trans ih

theorem message_foldl_take (atOnce : OutgoingEnvelope → Option SendResult) :
    ∀ (ls : List Launch) (f : FanOut), (ls.foldl (FanOut.take atOnce) f).message = f.message
  | [], _ => rfl
  | l :: ls, f => (message_foldl_take atOnce ls _).trans (FanOut.message_take atOnce f l)

theorem message_launchAll (ds : List Destination) {f' : FanOut}
    (h : (launchAll w ds f n).1 = some f') : f'.message = f.message := by
  rw [launchAll_fst] at h
  split at h
  · cases h
  · cases h
    exact message_foldl_take w.atOnce _ f

theorem message_settleIn {p : PendingSend} {result : SendResult} {f' : FanOut}
    (h : (n.settleIn w f p result).1 = some f') : f'.message = f.message := by
  rw [settleIn_fst] at h
  split at h
  · cases h
  · cases h
    cases result <;> rfl

theorem message_checkFanOut {f : Option FanOut} (h : ∀ f', f = some f' → f'.message = m)
    {r : Route} (hr : checkFanOut f = .waits r) : r.message = m := by
  unfold checkFanOut at hr
  split at hr
  · cases hr
  · split at hr <;> cases hr
    exact h _ rfl

theorem continueRoute_routes (hm : m.thread.isGroup = false) (step : ResolveStep) :
    n.Routes w m (n.continueRoute w m step) := by
  unfold continueRoute
  split
  · refine .of_edits hm (.refl _) fun r hr => ?_
    cases hr
    rfl
  · next ds =>
    exact .of_edits hm (edits_launchAll ds) fun r hr =>
      message_checkFanOut (fun f' hf' => message_launchAll ds hf') hr
  · exact sendDirect_routes

theorem route_routes : n.Routes w m (n.route w m) := by
  unfold route
  split
  · exact sendDirect_routes
  · next hkind =>
    have hm : m.thread.isGroup = false := by
      cases hthread : m.thread.isGroup with
      | false => rfl
      | true => simp [hthread] at hkind
    exact continueRoute_routes hm _

/-- A route that does not wait for the answer goes on waiting. -/
theorem Route.Anchored.waits {r : Route} (h : r.Anchored n.store.db.threads) :
    n.Routes w r.message (.waits r, n) := by
  refine ⟨.refl _, fun r' hr' => ?_, fun r' hr' => ?_⟩
  · cases hr'
    rfl
  · cases hr'
    exact h

theorem resumeRoute_routes {r : Route} (h : r.Anchored n.store.db.threads) (a : DirectoryAnswer) :
    n.Routes w r.message (n.resumeRoute w r a) := by
  cases r with
  | resolving m r =>
    show n.Routes w m ((n.resumeResolve w.clock r a).2.continueRoute w m _)
    rw [resumeResolve_eq]
    have hroutes := continueRoute_routes (n := n.relink w.clock.instant (r.linkWork a)) (w := w)
      (m := m) h (n.resumeResolve w.clock r a).1
    exact ⟨(edits_relink _ _).sends hroutes.sends, hroutes.message, hroutes.anchored⟩
  | direct m thread envelope => exact Route.Anchored.waits h
  | fanningOut f => exact Route.Anchored.waits h

theorem answerRoute_routes {r : Route} (h : r.Anchored n.store.db.threads) (i : Identity)
    (result : SendResult) : n.Routes w r.message (n.answerRoute w r i result) := by
  cases r with
  | resolving m r => exact Route.Anchored.waits h
  | direct m thread envelope => exact .ends (finishDirect_sends envelope h result)
  | fanningOut f =>
    show n.Routes w f.message (answerRoute n w (.fanningOut f) i result)
    unfold answerRoute
    dsimp only
    cases f.pending.find? (·.destination.identity = i) with
    | none => exact Route.Anchored.waits h
    | some p =>
      have hstore : (n.settleIn w f p result).2.store = n.store := settleIn_settles.store
      have hmessage (f') (hf' : (n.settleIn w f p result).1 = some f') : f'.message = f.message :=
        message_settleIn hf'
      refine .of_edits h ?_ fun r hr => message_checkFanOut hmessage hr
      show n.store.Edits (n.settleIn w f p result).2.store
      rw [hstore]
      exact .refl _

/-! ## Other calls -/

theorem finishHandshake_store (d : HandshakeDelivery) (result : SendResult) :
    (n.finishHandshake w d result).2.store = n.store := by
  have hsettle : ((n.note (.answered d.envelope result)).settleHandshake w d result).2.store =
      n.store := by
    unfold settleHandshake
    split <;> rfl
  unfold finishHandshake
  rcases hx : (n.note (.answered d.envelope result)).settleHandshake w d result with
    ⟨_ | _, n'⟩ <;> rw [hx] at hsettle <;> exact hsettle

theorem edits_sendHandshake (i : Identity) (hidden : Bool) :
    n.store.Edits (n.sendHandshake w i hidden).2.store := by
  have hedits := edits_attempt (n := n)
    (StoreM.edits_buildHandshake w.clock (w.messageId i) i hidden)
  unfold sendHandshake
  rcases hx : n.attempt (buildHandshake w.clock (w.messageId i) i hidden) with
    ⟨_ | ⟨m, d⟩, n'⟩ <;> rw [hx] at hedits
  · exact hedits
  · dsimp only
    split
    · exact hedits
    · rw [finishHandshake_store]
      exact hedits

theorem receiveLink_store (m : LinkControl) : (n.receiveLink m).2.store = n.store := by
  unfold receiveLink
  split
  · rfl
  · split <;> rfl

theorem edits_continueUnlink (rest : List DeviceLink) (removed : Nat) :
    n.store.Edits (n.continueUnlink rest removed).2.store := by
  have hset : (Store.setUnlinked true).Edits := .of_fixes (StoreM.fixes_change fun _ => rfl)
  unfold continueUnlink
  split
  · exact .refl _
  · exact hset n.store

theorem edits_confirmUnlink (sender : Identity) (view : DirectoryAnswer) :
    n.store.Edits (n.confirmUnlink sender view).2.store := by
  unfold confirmUnlink
  split
  · exact .refl _
  · split
    · exact .refl _
    · exact edits_continueUnlink _ _

theorem edits_receiveUnlink (sender : Identity) :
    n.store.Edits (n.receiveUnlink clock sender).2.store := by
  unfold receiveUnlink
  dsimp only
  split
  · exact .refl _
  · split
    · exact .refl _
    · split
      · exact edits_confirmUnlink _ _
      · exact .refl _

theorem edits_applyProfile (master : Identity) (profile : Option ProfileUpdate) :
    n.store.Edits (n.applyProfile clock master profile).2.store := by
  unfold applyProfile
  split
  · exact .refl _
  · next update _ =>
    have hwrite : (Store.writeProfile clock master update).Edits :=
      .of_fixes (StoreM.fixes_change fun _ => rfl)
    have h := edits_attempt (n := n) hwrite
    rcases hx : n.attempt (Store.writeProfile clock master update) with ⟨_ | _, n'⟩ <;>
      rw [hx] at h <;> exact h

theorem edits_concludeLink (j : Judging) (v : Verdict) :
    n.store.Edits (n.concludeLink clock j v).2.store := by
  obtain ⟨session, intent, profile⟩ := j
  rcases intent with ⟨master, slave, ss⟩ | ⟨master, slave, ms, ss⟩ <;> rcases v with e | ⟨⟩
  · exact .refl _
  · exact .refl _
  · exact .refl _
  · let recorded := n.relink clock.instant (.record ⟨⟨master, some ms⟩, ⟨slave, some ss⟩⟩)
    let other := if n.settings.localIdentity = slave then master else slave
    have hrecord : n.store.Edits recorded.store := edits_relink _ _
    have htrust : recorded.store.Edits (recorded.effect (markEstablished other)).store :=
      StoreM.edits_markEstablished other recorded.store
    exact hrecord.trans (htrust.trans (edits_applyProfile master profile))

end Node

/-! ## Calls -/

/-- The message that a request asks to be sent. -/
def Request.message? : Request → Option OutgoingMessage
  | .route m => some m
  | _ => none

/-- The message of a call, if it is a route. -/
def Call.message? : Call → Option OutgoingMessage
  | .route r => some r.message
  | _ => none

/-- The message that a call has delivered with a step. -/
def CallStep.sent (message : Option OutgoingMessage) : CallStep → Option OutgoingMessage
  | .ends (.report (.ok _)) => message
  | _ => none

theorem CallStep.sent_none (step : CallStep) : step.sent none = none := by
  unfold sent
  split <;> rfl

theorem RouteStep.sent_toCall (m : OutgoingMessage) (step : RouteStep) :
    step.toCall.sent (some m) = step.sent m := by
  cases step with
  | waits r => rfl
  | ends result => cases result <;> rfl
  | dies => rfl

/-- What a step of a call does, with the message that it is to deliver. -/
structure Node.Calls (n : Node) (w : Surroundings) (message : Option OutgoingMessage)
    (out : CallStep × Node) : Prop where
  sends : n.store.Sends w.clock (out.1.sent message) out.2.store
  anchored : ∀ c, out.1 = .waits c → c.Anchored out.2.store.db.threads

namespace Node

variable {n : Node} {w : Surroundings} {m : OutgoingMessage}

theorem Routes.toCalls {out : RouteStep × Node} (h : n.Routes w m out) :
    n.Calls w (some m) (out.1.toCall, out.2) := by
  refine ⟨?_, fun c hc => ?_⟩
  · rw [RouteStep.sent_toCall]
    exact h.sends
  · rcases out with ⟨r | result | _, n'⟩ <;> cases hc
    exact h.anchored r rfl

/-- A call that is no route sends no message. -/
theorem Calls.of_edits {out : CallStep × Node} (h : n.store.Edits out.2.store)
    (hc : ∀ c, out.1 = .waits c → c.message? = none) : n.Calls w none out := by
  refine ⟨?_, fun c hwaits => ?_⟩
  · rw [CallStep.sent_none]
    exact h
  · have hroute := hc c hwaits
    cases c with
    | route r => cases hroute
    | _ => trivial

theorem message?_resolve {step : ResolveStep} {c : Call} (h : step.toCall = .waits c) :
    c.message? = none := by
  cases step <;> cases h
  rfl

theorem message?_link {step : LinkStep} {c : Call} (h : step.toCall = .waits c) :
    c.message? = none := by
  cases step <;> cases h
  rfl

theorem message?_unlink {step : UnlinkStep} {c : Call} (h : step.toCall = .waits c) :
    c.message? = none := by
  cases step <;> cases h
  rfl

theorem finishHandshake_ends (d : HandshakeDelivery) (result : SendResult) (c : Call) :
    (n.finishHandshake w d result).1 ≠ .waits c := by
  unfold finishHandshake
  rcases (n.note (.answered d.envelope result)).settleHandshake w d result with ⟨_ | _, n'⟩ <;>
    intro h <;> cases h

theorem message?_sendHandshake {i : Identity} {hidden : Bool} {c : Call}
    (h : (n.sendHandshake w i hidden).1 = .waits c) : c.message? = none := by
  unfold sendHandshake at h
  rcases hx : n.attempt (buildHandshake w.clock (w.messageId i) i hidden) with ⟨_ | ⟨m, d⟩, n'⟩ <;>
    rw [hx] at h
  · cases h
  · dsimp only at h
    split at h
    · cases h
      rfl
    · exact absurd h (finishHandshake_ends _ _ c)

/-- A request, until it first waits. -/
theorem begin_sends (r : Request) : n.Calls w r.message? (n.begin w r) := by
  cases r with
  | resolve i => exact .of_edits (.refl _) fun c hc => message?_resolve hc
  | view i maxAge =>
    unfold begin
    dsimp only
    split
    · exact .of_edits (.refl _) fun c hc => by cases hc
    · exact .of_edits (.refl _) fun c hc => by cases hc; rfl
  | route m => exact route_routes.toCalls
  | handshake i hidden =>
    exact .of_edits (edits_sendHandshake i hidden) fun c hc => message?_sendHandshake hc
  | control m =>
    refine .of_edits ?_ fun c hc => message?_link hc
    show n.store.Edits (n.receiveLink m).2.store
    rw [receiveLink_store]
    exact .refl _
  | unlink sender => exact .of_edits (edits_receiveUnlink sender) fun c hc => message?_unlink hc

/-- An answer for a call that is anchored. -/
theorem answer_sends {c : Call} (h : c.Anchored n.store.db.threads) (a : Answer) :
    n.Calls w c.message? (n.answer w c a) := by
  unfold answer
  split
  · next r a =>
    refine .of_edits ?_ fun c hc => message?_resolve hc
    show n.store.Edits (n.resumeResolve w.clock r a).2.store
    rw [resumeResolve_eq]
    exact edits_relink _ _
  · exact .of_edits (.refl _) fun c hc => by cases hc
  · next r a => exact (resumeRoute_routes h a).toCalls
  · next r i result => exact (answerRoute_routes h i result).toCalls
  · next d i result =>
    refine .of_edits ?_ fun c hc => absurd hc (finishHandshake_ends _ _ c)
    rw [finishHandshake_store]
    exact .refl _
  · next j v => exact .of_edits (edits_concludeLink j v) fun c hc => by cases hc
  · next u a =>
    refine .of_edits ?_ fun c hc => message?_unlink hc
    cases u with
    | confirming sender device => exact edits_confirmUnlink sender a
    | removing link rest removed => exact .refl _
  · next u result =>
    refine .of_edits ?_ fun c hc => message?_unlink hc
    cases u with
    | confirming sender device => exact .refl _
    | removing link rest removed =>
      exact (edits_relink (.evict link) w.clock.instant).trans (edits_continueUnlink _ _)
  · refine ⟨.refl _, fun c' hc' => ?_⟩
    cases hc'
    exact h

/-! ## Other events -/

theorem startPolling_store (g : GroupId) : (n.startPolling g).2.store = n.store := by
  unfold startPolling
  split <;> rfl

theorem startCounted_foldl_store :
    ∀ (groups : List GroupId) (acc : Nat × Node),
      (groups.foldl startCounted acc).2.store = acc.2.store
  | [], _ => rfl
  | g :: groups, (count, n) =>
    (startCounted_foldl_store groups (startCounted (count, n) g)).trans (startPolling_store g)

theorem edits_startAllPolling : n.store.Edits n.startAllPolling.2.store := by
  have h := edits_attempt (n := n) (x := Store.listGroupThreads) (StoreM.edits_query _ _)
  unfold startAllPolling
  rcases hx : n.attempt Store.listGroupThreads with ⟨_ | rows, n'⟩ <;> rw [hx] at h
  · exact h
  · show n.store.Edits ((rows.map (·.peer)).foldl startCounted (0, n')).2.store
    rw [startCounted_foldl_store]
    exact h

theorem edits_start (clock : Clock) : n.store.Edits (n.start clock).2.store := by
  have hload : n.store.Edits n.loadLinks.2.store := .of_fixes (n.loadLinks_fixes _)
  unfold start
  rcases hn : n.loadLinks with ⟨_ | _, n₁⟩ <;> rw [hn] at hload
  · exact hload
  · have hsweep := edits_attempt (n := n₁) (StoreM.edits_expireStale clock.now)
    dsimp only
    rcases hx : n₁.attempt (expireStale clock.now) with ⟨_ | _, n₂⟩ <;> rw [hx] at hsweep
    · exact hload.trans hsweep
    · have hpoll := edits_startAllPolling (n := n₂)
      dsimp only
      rcases hy : n₂.startAllPolling with ⟨_ | _, n₃⟩ <;> rw [hy] at hpoll <;>
        exact hload.trans (hsweep.trans hpoll)

end Node

namespace System

variable {s : System} {x : Exchange} {e : Event} {kind : ThreadKind} {peer : String} {id : Int}

/-- No id is used twice, and every call that waits is anchored. -/
structure Anchored (s : System) : Prop where
  numbered : s.node.store.db.threads.Numbered
  calls : ∀ id c, s.calls.lookup id = some c → c.Anchored s.node.store.db.threads

/-- The message that an event has delivered, to all devices that it was meant for. -/
def delivered (s : System) (x : Exchange) : Event → Option OutgoingMessage
  | .begin id r =>
    match s.calls.lookup id with
    | some _ => none
    | none => (s.node.begin (s.surroundings x) r).1.sent r.message?
  | .answer id a =>
    match s.calls.lookup id with
    | none => none
    | some c => (s.node.answer (s.surroundings x) c a).1.sent c.message?
  | _ => none

theorem delivered_begin {id : Nat} {r : Request} (hc : s.calls.lookup id = none) :
    s.delivered x (.begin id r) = (s.node.begin (s.surroundings x) r).1.sent r.message? := by
  rw [delivered, hc]

theorem delivered_begin_again {id : Nat} {r : Request} {c : Call}
    (hc : s.calls.lookup id = some c) : s.delivered x (.begin id r) = none := by
  rw [delivered, hc]

theorem delivered_answer {id : Nat} {a : Answer} {c : Call} (hc : s.calls.lookup id = some c) :
    s.delivered x (.answer id a) = (s.node.answer (s.surroundings x) c a).1.sent c.message? := by
  rw [delivered, hc]

theorem delivered_answer_none {id : Nat} {a : Answer} (hc : s.calls.lookup id = none) :
    s.delivered x (.answer id a) = none := by
  rw [delivered, hc]

/-- Every event but a batch makes edits, and notes the message that it has delivered to a group. -/
theorem step_sends (h : s.Anchored) (hb : ∀ generation a, e ≠ .batch generation a) :
    s.node.store.Sends s.clock (s.delivered x e) (s.step x e).node.store := by
  have hquiet {s' : Store} (hs : s.node.store.Edits s') : s.node.store.Sends s.clock none s' := hs
  cases e with
  | begin id r =>
    cases hc : s.calls.lookup id with
    | some c =>
      rw [delivered_begin_again hc, step_begin_again hc]
      exact hquiet (.refl _)
    | none =>
      rw [delivered_begin hc, step_begin hc, settleCall_node]
      exact (Node.begin_sends (w := s.surroundings x) r).sends
  | answer id a =>
    cases hc : s.calls.lookup id with
    | none =>
      rw [delivered_answer_none hc, step_answer_none hc]
      exact hquiet (.refl _)
    | some c =>
      rw [delivered_answer hc, step_answer hc, settleCall_node]
      exact (Node.answer_sends (w := s.surroundings x) (h.calls id c hc) a).sends
  | run i =>
    refine hquiet ?_
    show s.node.store.Edits (s.node.runAt i).store
    unfold Node.runAt
    split
    · exact .refl _
    · next y _ =>
      cases y with
      | settle y => exact StoreM.edits_writeHandshakeState y.identity y.state y.expiresAt _
      | poll generation =>
        show s.node.store.Edits (Node.wakeLoop _ generation).store
        rw [Node.wakeLoop_store]
        exact .refl _
  | nodes generation pick a => exact hquiet (.of_fixes (Node.lookedUp_fixes _ pick a))
  | grant generation =>
    refine hquiet ?_
    show s.node.store.Edits (s.node.granted generation).store
    rw [Node.granted_store]
    exact .refl _
  | batch generation a => exact absurd rfl (hb generation a)
  | wake generation =>
    refine hquiet ?_
    show s.node.store.Edits (s.node.wakeLoop generation).store
    rw [Node.wakeLoop_store]
    exact .refl _
  | elapse ms =>
    -- by the equation of `step`, so that the two clocks are not compared
    rw [step]
    exact hquiet (.refl _)
  | jump ms =>
    rw [step]
    exact hquiet (.refl _)
  | startPolling g =>
    refine hquiet ?_
    show s.node.store.Edits (s.node.startPolling g).2.store
    rw [Node.startPolling_store]
    exact .refl _
  | stopPolling g => exact hquiet (.refl _)
  | stopAllPolling => exact hquiet (.refl _)
  | startAllPolling => exact hquiet Node.edits_startAllPolling
  | establish i => exact hquiet (StoreM.edits_markEstablished i _)
  | sweep now => exact hquiet (StoreM.edits_expireStale now _)
  | beginSession name => exact hquiet (.refl _)
  | endSession => exact hquiet (.refl _)
  | load => exact hquiet (.of_fixes (s.node.loadLinks_fixes _))
  | start => exact hquiet (Node.edits_start s.clock)
  | shutdown => exact hquiet (.refl _)
  | restart => exact hquiet (.refl _)

/-! ## Runs -/

/-- What an event does to the conversations: those of accepted messages are heard of, and a
delivered message is noted. -/
theorem step_cases (h : s.Anchored) :
    (s.delivered x e = none ∧ (s.step x e).node.store.db =
        (s.accepted e).foldl (Database.withArrival s.clock) s.node.store.db) ∨
      (s.accepted e = [] ∧
        s.node.store.Sends s.clock (s.delivered x e) (s.step x e).node.store) := by
  by_cases hb : ∃ generation a, e = .batch generation a
  · obtain ⟨generation, a, rfl⟩ := hb
    exact .inl ⟨rfl, Node.db_fetched_eq⟩
  · have hb (generation a) (he : e = .batch generation a) : False := hb ⟨generation, a, he⟩
    refine .inr ⟨?_, step_sends h fun generation a he => hb generation a he⟩
    unfold accepted
    split
    · exact (hb _ _ rfl).elim
    · rfl

theorem idOf_step (h : s.Anchored) (hid : s.node.store.db.threads.idOf kind peer = some id) :
    (s.step x e).node.store.db.threads.idOf kind peer = some id := by
  obtain ⟨-, hdb⟩ | ⟨-, hsends⟩ := step_cases (x := x) (e := e) h
  · rw [hdb]
    exact foldl_withArrival_idOf _ hid
  · exact hsends.idOf hid

theorem anchored_step (h : s.Anchored) (x : Exchange) (e : Event) : (s.step x e).Anchored := by
  refine ⟨?_, fun id c hc => ?_⟩
  · obtain ⟨-, hdb⟩ | ⟨-, hsends⟩ := step_cases (x := x) (e := e) h
    · rw [hdb]
      exact foldl_withArrival_numbered _ h.numbered
    · exact hsends.numbered h.numbered
  · obtain hold | ⟨r, rfl, hnew, hwaits⟩ | ⟨c', a, rfl, hold, hwaits⟩ := calls_step_cases hc
    · exact (h.calls id c hold).mono fun g id hid => idOf_step h hid
    · rw [step_begin hnew, settleCall_node]
      exact (Node.begin_sends (w := s.surroundings x) r).anchored c hwaits
    · rw [step_answer hold, settleCall_node]
      exact (Node.answer_sends (w := s.surroundings x) (h.calls id c' hold) a).anchored c hwaits

theorem anchored_run (h : s.Anchored) (events : List (Exchange × Event)) :
    (s.run events).Anchored :=
  run_invariant (P := Anchored) (fun _ x e h => anchored_step h x e) h events

/-- Nothing waits, and no conversation exists. -/
theorem anchored_idle {n : Node} (h : n.store.db.threads = .empty) (clock : Clock) :
    (idle n clock).Anchored := by
  refine ⟨?_, fun id c hc => by cases hc⟩
  rw [show (idle n clock).node.store.db.threads = .empty from h]
  exact ThreadTable.numbered_empty

end System

end Courier
