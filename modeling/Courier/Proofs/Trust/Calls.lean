import Courier.Node.Calls
import Courier.Node.Lifecycle
import Courier.Proofs.Trust.Sends

/-!
# What calls and loops do for the handshakes of every contact

* `begin_goes`, `answer_goes`: a call, from one wait to the next. Only a request for a handshake
  builds one without a decision (`Request.free`).
* `lookedUp_leads`, `fetched_leads`, `start_leads`: the loops and the lifecycle of a node build
  nothing and settle nothing.
-/

namespace Courier

/-- The request sends a handshake without a decision on trust. -/
def Request.free : Request → Prop
  | .handshake .. => True
  | _ => False

/-- The call's sends go to different devices. -/
def Call.Distinct : Call → Prop
  | .route r => r.Distinct
  | _ => True

/-- How many handshakes for a contact a call waits for. -/
def Call.sending (i : Identity) : Call → Nat
  | .route r => r.sending i
  | .handshake d => if d.identity = i then 1 else 0
  | _ => 0

namespace CallStep

def Distinct : CallStep → Prop
  | .waits c => c.Distinct
  | .ends _ => True

def sending (i : Identity) : CallStep → Nat
  | .waits c => c.sending i
  | .ends _ => 0

/-- The task has died. -/
def Died : CallStep → Prop
  | .ends .died => True
  | _ => False

/-- The call waits for no send, and its task lives. -/
structure SendsNothing (step : CallStep) : Prop where
  distinct : step.Distinct
  sending : ∀ i, step.sending i = 0
  lives : ¬ step.Died

end CallStep

theorem ResolveStep.sendsNothing_toCall (step : ResolveStep) : step.toCall.SendsNothing := by
  cases step <;> exact ⟨trivial, fun _ => rfl, id⟩

theorem LinkStep.sendsNothing_toCall (step : LinkStep) : step.toCall.SendsNothing := by
  cases step <;> exact ⟨trivial, fun _ => rfl, id⟩

theorem UnlinkStep.sendsNothing_toCall (step : UnlinkStep) : step.toCall.SendsNothing := by
  cases step <;> exact ⟨trivial, fun _ => rfl, id⟩

namespace Node

variable {free : Prop} {n n₁ : Node} {w : Surroundings} {clock : Clock} {h : Identity → Nat}
  {out : CallStep × Node}

/-- A piece of a call: it waited for `h`, and it waits for the rest or dies. -/
structure CallGoes (n : Node) (free : Prop) (h : Identity → Nat) (out : CallStep × Node) :
    Prop where
  leads : Leads free out.1.Died n h out.2 (out.1.sending ·)
  distinct : out.1.Distinct

/-- More may be built with a handshake that needs no decision. -/
theorem Leads.widen {dies : Prop} {h₁ : Identity → Nat} (a : Leads False dies n h n₁ h₁) :
    Leads free dies n h n₁ h₁ :=
  ⟨a.outage, a.keyed, a.path.imp fun _ ⟨hl, hp⟩ => ⟨hl, fun i => Ledger.path_widen (hp i)⟩⟩

theorem RouteGoes.toCall {out : RouteStep × Node} (hg : RouteGoes n h out) :
    CallGoes n free h (out.1.toCall, out.2) := by
  obtain ⟨hl, hd⟩ := hg
  rcases out with ⟨_ | _ | _, n'⟩
  · exact ⟨hl.widen.alive (by simp), hd⟩
  · exact ⟨hl.widen.alive (by simp), trivial⟩
  · exact ⟨hl.widen.dead trivial, trivial⟩

/-- A call that waits for no send, before and after. -/
theorem CallGoes.of_leads {step : CallStep} (hl : Leads False False n (fun _ => 0) n₁ fun _ => 0)
    (hs : step.SendsNothing) : CallGoes n free (fun _ => 0) (step, n₁) := by
  refine ⟨?_, hs.distinct⟩
  rw [show (fun i => step.sending i) = fun _ => 0 from funext hs.sending]
  exact hl.widen.alive id

/-! ## Handshakes that need no decision -/

theorem finishHandshake_goes (d : HandshakeDelivery) (result : SendResult) (hk : n.store.Keyed) :
    CallGoes n free (fun i => if d.identity = i then 1 else 0) (n.finishHandshake w d result) := by
  have hnote (h : Identity → Nat) :
      Leads False False n h (n.note (.answered d.envelope result)) h :=
    leads_note hk fun _ => rfl
  have hl := (hnote _).trans
    (settleHandshake_leads (h := fun _ => 0) (w := w) d result (hnote fun _ => 0).keyed)
  simp only [Nat.zero_add] at hl
  unfold finishHandshake
  rcases hx : (n.note (.answered d.envelope result)).settleHandshake w d result with ⟨_ | _, n'⟩ <;>
    rw [hx] at hl
  · exact ⟨hl.widen.dead trivial, trivial⟩
  · exact ⟨hl.widen.alive (by simp), trivial⟩

theorem sendHandshake_goes {i : Identity} {hidden : Bool} (hk : n.store.Keyed) :
    CallGoes n True (fun _ => 0) (n.sendHandshake w i hidden) := by
  unfold sendHandshake attempt
  rcases hx : (buildHandshake w.clock (w.messageId i) i hidden).attempt n.store with ⟨result, s'⟩
  rcases buildHandshake_cases hk hx with ⟨m, d, rfl, rfl, hrecipient, hpends⟩ | ⟨⟨e, rfl⟩, hd⟩
  · have hbuilt : Leads True False n (fun _ => 0)
        ({ n with store := s' }.note (.handed d.envelope true))
        fun j => if d.identity = j then 1 else 0 := by
      have := handed_leads (h := fun _ => 0) (.inl trivial) (hrecipient.symm ▸ hpends)
      simpa only [Nat.zero_add, hrecipient] using this
    dsimp only
    split
    · exact ⟨hbuilt.alive id, trivial⟩
    · next result _ =>
      obtain ⟨hl, hd⟩ : CallGoes _ True _ _ := finishHandshake_goes (w := w) d result hbuilt.keyed
      exact ⟨hbuilt.trans hl, hd⟩
  · exact ⟨.of_drift hd rfl rfl, trivial⟩

/-! ## Links -/

theorem receiveLink_leads {m : LinkControl} (hk : n.store.Keyed) :
    Leads False False n h (n.receiveLink m).2 h := by
  unfold receiveLink
  split
  · exact .refl hk
  · split
    · exact .refl hk
    · exact leads_note hk fun _ => rfl
    · exact .refl hk

theorem applyProfile_leads {master : Identity} {profile : Option ProfileUpdate}
    (hk : n.store.Keyed) : Leads False False n h (n.applyProfile clock master profile).2 h := by
  unfold applyProfile
  split
  · exact .refl hk
  · next update _ =>
    have hwrite : (Store.writeProfile clock master update).Drifts :=
      StoreM.drifts_elsewhere fun _ => rfl
    have ha : Leads False False n h (n.attempt (Store.writeProfile clock master update)).2 h :=
      leads_attempt hk hwrite
    rcases hx : n.attempt (Store.writeProfile clock master update) with ⟨_ | _, n'⟩ <;>
      rw [hx] at ha <;> exact ha

theorem drift_record {s : Store} (hk : s.Keyed) (c : LinkCache) (l : DeviceLink) :
    s.Drift (c.record s l).2 :=
  (StoreM.drifts_elsewhere fun _ => rfl : (Store.upsertDeviceLink l).Drifts) s hk

theorem drift_evict {s : Store} (hk : s.Keyed) (c : LinkCache) (l : DeviceLink) :
    s.Drift (c.evict s l).2 :=
  (StoreM.drifts_elsewhere fun _ => rfl :
    (Store.deleteDeviceLink l.master.identity l.slave.identity).Drifts) s hk

theorem authorize_leads {master slave : Identity} {ms ss : Octets} {profile : Option ProfileUpdate}
    (hk : n.store.Keyed) :
    Leads False False n h (n.authorize clock master slave ms ss profile).2 h := by
  have hr := drift_record hk n.links ⟨⟨master, some ms⟩, ⟨slave, some ss⟩⟩
  have hm := StoreM.drifts_markEstablished
    (if n.settings.localIdentity = slave then master else slave) _ hr.keyed
  have hl : Leads False False n h { n with
      links := (n.links.record n.store ⟨⟨master, some ms⟩, ⟨slave, some ss⟩⟩).1
      store := (markEstablished (if n.settings.localIdentity = slave then master else slave)).effect
        (n.links.record n.store ⟨⟨master, some ms⟩, ⟨slave, some ss⟩⟩).2 } h :=
    .of_drift (hr.trans hm) rfl rfl
  exact hl.trans (applyProfile_leads hl.keyed)

theorem concludeLink_leads {j : Judging} {verdict : Verdict} (hk : n.store.Keyed) :
    Leads False False n h (n.concludeLink clock j verdict).2 h := by
  unfold concludeLink
  split
  · exact .refl hk
  · exact .refl hk
  · exact .refl hk
  · next master slave ms ss _ =>
    exact authorize_leads hk

theorem continueUnlink_leads {rest : List DeviceLink} {removed : Nat} (hk : n.store.Keyed) :
    Leads False False n h (n.continueUnlink rest removed).2 h := by
  have hset : (Store.setUnlinked true).Drifts := StoreM.drifts_elsewhere fun _ => rfl
  unfold continueUnlink
  split
  · exact .refl hk
  · exact (leads_effect hk hset).trans (leads_note (hset _ hk).keyed fun _ => rfl)

theorem confirmUnlink_leads {sender : Identity} {view : DirectoryAnswer} (hk : n.store.Keyed) :
    Leads False False n h (n.confirmUnlink sender view).2 h := by
  unfold confirmUnlink
  split
  · exact .refl hk
  · split
    · exact .refl hk
    · exact continueUnlink_leads hk

theorem receiveUnlink_leads {sender : Identity} (hk : n.store.Keyed) :
    Leads False False n h (n.receiveUnlink clock sender).2 h := by
  unfold receiveUnlink
  dsimp only
  split
  · exact .refl hk
  · split
    · exact .refl hk
    · split
      · exact confirmUnlink_leads hk
      · exact .refl hk

theorem resumeUnlink_leads {u : Unlinking} {answer : DirectoryAnswer} (hk : n.store.Keyed) :
    Leads False False n h (n.resumeUnlink u answer).2 h := by
  unfold resumeUnlink
  split
  · exact confirmUnlink_leads hk
  · exact .refl hk

theorem removedRemotely_leads {u : Unlinking} {result : Except DirectoryError Unit}
    (hk : n.store.Keyed) : Leads False False n h (n.removedRemotely u result).2 h := by
  unfold removedRemotely
  split
  · exact .refl hk
  · next link rest removed =>
    have hevict := drift_evict hk n.links link
    have hl : Leads False False n h { n with
        links := (n.links.evict n.store link).1, store := (n.links.evict n.store link).2 } h :=
      .of_drift hevict rfl rfl
    exact hl.trans (continueUnlink_leads hl.keyed)

/-! ## From one wait of a call to the next -/

theorem begin_goes {r : Request} (hk : n.store.Keyed) :
    CallGoes n r.free (fun _ => 0) (n.begin w r) := by
  cases r with
  | resolve x => exact .of_leads (.refl hk) (ResolveStep.sendsNothing_toCall _)
  | view x maxAge =>
    unfold begin
    dsimp only
    split <;> exact .of_leads (.refl hk) ⟨trivial, fun _ => rfl, id⟩
  | route m => exact (route_goes hk).toCall
  | handshake x hidden => exact sendHandshake_goes hk
  | control m => exact .of_leads (receiveLink_leads hk) (LinkStep.sendsNothing_toCall _)
  | unlink sender => exact .of_leads (receiveUnlink_leads hk) (UnlinkStep.sendsNothing_toCall _)

/-- An answer that the call does not wait for. -/
theorem ignored_goes {c : Call} (hk : n.store.Keyed) (hd : c.Distinct) :
    CallGoes n free (c.sending ·) (.waits c, n) :=
  ⟨.refl hk, hd⟩

theorem answer_goes {c : Call} {a : Answer} (hk : n.store.Keyed) (hd : c.Distinct) :
    CallGoes n False (c.sending ·) (n.answer w c a) := by
  unfold answer
  split
  · next r a => exact .of_leads (resumeResolve_leads _ _ _ hk).1 (ResolveStep.sendsNothing_toCall _)
  · next a => exact .of_leads (.refl hk) ⟨trivial, fun _ => rfl, id⟩
  · next r a => exact (resumeRoute_goes hk hd).toCall
  · next r x result => exact (answerRoute_goes hk hd).toCall
  · next d x result => exact finishHandshake_goes d result hk
  · next j v => exact .of_leads (concludeLink_leads hk) ⟨trivial, fun _ => rfl, id⟩
  · next u a => exact .of_leads (resumeUnlink_leads hk) (UnlinkStep.sendsNothing_toCall _)
  · next u result => exact .of_leads (removedRemotely_leads hk) (UnlinkStep.sendsNothing_toCall _)
  · exact ignored_goes hk hd

/-! ## Loops -/

theorem leads_polls {polls : PollTable} (hk : n.store.Keyed) :
    Leads False False n h { n with polls } h :=
  .of_drift (.refl hk) rfl rfl

theorem leads_spawn_poll {generation : Nat} (hk : n.store.Keyed) :
    Leads False False n h (n.spawn (.poll generation)) h := by
  refine ⟨rfl, hk, fun _ => 0, fun _ _ => rfl, fun i => ?_⟩
  have : (n.spawn (.poll generation)).ledger i (h i + 0) = n.ledger i (h i) := by
    unfold ledger
    rw [settlesOf_spawn, Spawned.settlement?, Option.toList_none, List.append_nil]
    rfl
  rw [this]

theorem activityOf_leads (group : GroupId) (hk : n.store.Keyed) :
    Leads False False n h (n.activityOf group).2 h := by
  have ha : Leads False False n h (n.attempt (Store.groupLastMessageAt group)).2 h :=
    leads_attempt hk (StoreM.drifts_query _ _)
  unfold activityOf
  rcases hx : n.attempt (Store.groupLastMessageAt group) with ⟨_ | _, n'⟩ <;> rw [hx] at ha <;>
    exact ha

theorem drift_keepMessages (clock : Clock) (group : GroupId) :
    ∀ (messages : List RawMessage) (s : Store), s.Keyed →
      s.Drift (messages.foldl (keepMessage clock group) s)
  | [], _, hk => .refl hk
  | m :: messages, s, hk => by
    have hm : s.Drift (keepMessage clock group s m) := by
      unfold keepMessage
      split
      · exact .refl hk
      · exact StoreM.drifts_enqueueInbound _ _ s hk
    exact hm.trans (drift_keepMessages clock group messages _ hm.keyed)

theorem absorb_leads {l : PollLoop} {batch : RawBatch} (hk : n.store.Keyed) :
    Leads False False n h (n.absorb clock l batch) h := by
  have hd := drift_keepMessages clock l.group batch.messages n.store hk
  have hl : Leads False False n h
      { n with store := batch.messages.foldl (keepMessage clock l.group) n.store } h :=
    .of_drift hd rfl rfl
  have ha := activityOf_leads (h := h) l.group hl.keyed
  exact (hl.trans ha).trans (leads_polls ha.keyed)

theorem reschedule_leads {l : PollLoop} (hk : n.store.Keyed) :
    Leads False False n h (n.reschedule clock l) h := by
  unfold reschedule
  split
  · exact leads_polls hk
  · have ha := activityOf_leads (h := h) l.group hk
    rcases hx : n.nextDelay clock l.group with ⟨_ | delay, n'⟩ <;>
      obtain rfl : (n.activityOf l.group).2 = n' := congrArg Prod.snd hx
    · exact ha.trans (leads_polls ha.keyed)
    · dsimp only
      split <;> exact ha.trans (leads_polls ha.keyed)

theorem wakeLoop_leads {generation : Nat} (hk : n.store.Keyed) :
    Leads False False n h (n.wakeLoop generation) h := by
  unfold wakeLoop
  split
  · exact .refl hk
  · split <;> exact leads_polls hk

theorem lookedUp_leads {generation pick : Nat} {answer : NodesAnswer} (hk : n.store.Keyed) :
    Leads False False n h (n.lookedUp clock generation pick answer) h := by
  unfold lookedUp
  split
  · exact .refl hk
  · split
    · exact reschedule_leads hk
    · split
      · exact reschedule_leads hk
      · split
        · exact reschedule_leads hk
        · exact leads_polls hk

theorem granted_leads {generation : Nat} (hk : n.store.Keyed) :
    Leads False False n h (n.granted generation) h := by
  rw [granted_eq]
  exact leads_polls hk

theorem fetched_leads {generation : Nat} {answer : BatchAnswer} (hk : n.store.Keyed) :
    Leads False False n h (n.fetched clock generation answer) h := by
  unfold fetched
  split
  · exact .refl hk
  · split
    · exact reschedule_leads hk
    · split
      · exact reschedule_leads hk
      · next l _ _ batch _ =>
        have ha : Leads False False n h (n.absorb clock l batch) h := absorb_leads hk
        exact ha.trans (reschedule_leads ha.keyed)

theorem startPolling_leads (group : GroupId) (hk : n.store.Keyed) :
    Leads False False n h (n.startPolling group).2 h := by
  unfold startPolling
  split
  · exact leads_polls hk
  · exact (leads_polls hk).trans (leads_spawn_poll hk)

theorem startCounted_foldl_leads :
    ∀ (groups : List GroupId) (acc : Nat × Node), acc.2.store.Keyed →
      Leads False False acc.2 h (groups.foldl startCounted acc).2 h
  | [], _, hk => .refl hk
  | group :: groups, (count, n), hk => by
    have hs := startPolling_leads (h := h) group hk
    exact hs.trans (startCounted_foldl_leads groups (startCounted (count, n) group) hs.keyed)

theorem startAllPolling_leads (hk : n.store.Keyed) :
    Leads False False n h n.startAllPolling.2 h := by
  have ha : Leads False False n h (n.attempt Store.listGroupThreads).2 h :=
    leads_attempt hk (StoreM.drifts_query _ _)
  unfold startAllPolling
  rcases hx : n.attempt Store.listGroupThreads with ⟨_ | rows, n'⟩ <;> rw [hx] at ha
  · exact ha
  · exact ha.trans (startCounted_foldl_leads (rows.map (·.peer)) (0, n') ha.keyed)

/-! ## Lifecycle -/

theorem loadLinks_leads (hk : n.store.Keyed) : Leads False False n h n.loadLinks.2 h := by
  have hload : n.links.load.Drifts := (StoreM.drifts_query _ _).bind fun _ => .pure _
  have ha : Leads False False n h (n.attempt n.links.load).2 h := leads_attempt hk hload
  unfold loadLinks
  rcases hx : n.attempt n.links.load with ⟨_ | ⟨count, links⟩, n'⟩ <;> rw [hx] at ha
  · exact ha
  · exact ha.trans (.of_drift (.refl ha.keyed) rfl rfl)

theorem start_leads (hk : n.store.Keyed) : Leads False False n h (n.start clock).2 h := by
  have hload := loadLinks_leads (h := h) hk
  unfold start
  rcases hx : n.loadLinks with ⟨_ | _, n₁⟩ <;> rw [hx] at hload
  · exact hload
  · have hsweep : Leads False False n₁ h (n₁.attempt (expireStale clock.now)).2 h :=
      leads_attempt hload.keyed (StoreM.drifts_expireStale clock.now)
    dsimp only
    rcases hy : n₁.attempt (expireStale clock.now) with ⟨_ | _, n₂⟩ <;> rw [hy] at hsweep
    · exact hload.trans hsweep
    · have hpoll := startAllPolling_leads (h := h) hsweep.keyed
      dsimp only at hpoll ⊢
      rcases hz : n₂.startAllPolling with ⟨_ | _, n₃⟩ <;> rw [hz] at hpoll <;>
        exact (hload.trans hsweep).trans hpoll

end Node

end Courier
