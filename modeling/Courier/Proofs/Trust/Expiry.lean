import Courier.Proofs.Routing.Sends

/-!
# When a request expires

The transport accepts a generated handshake at some time (`System.Accepts`). The task that waited
for it cuts the configured expiry to 64 bits and adds it to that time; another task writes the sum.

* `addTimestamps?_of_fits`, `wrapped_of_addTimestamps?`: the sum is right if it fits. If it does
  not, there is none, or it is what 64 bits leave of it.
* `accepted_dies`, `accepted_settles`: an accepted handshake, however it was sent, kills its task
  where there is no sum. Elsewhere the sum is to be written.
* `readable_run`: a contact with a handshake in flight has a conversation whose state can be read,
  so there is a row to write to (`requested_step`).
* `expiry_sound_iff`: the expiry of an accepted handshake is sound exactly if it fits;
  `Accepts.long_cases` is what happens otherwise.
* `lapsed_on_delivery`: an expiry so long that the request has lapsed when it is written.
-/

namespace Courier

/-! ## The sum -/

/-- The value is what 64 bits leave of a number that is no timestamp. -/
def Wrapped (value : Int64) (exact : Int) : Prop :=
  value = Int64.ofInt exact ∧ value.toInt ≠ exact

theorem Duration.millis_ofSeconds (secs : UInt64) :
    (Duration.ofSeconds secs).millis = secs.toNat * 1000 := by
  unfold Duration.millis Duration.ofSeconds nanosPerSecond nanosPerMilli
  dsimp only
  omega

theorem addTimestamps?_of_fits {now : Int64} {millis : Nat} (hnow : 0 ≤ now)
    (h : now.toInt + millis ≤ Int64.maxValue.toInt) :
    ∃ t, addTimestamps? now (Int64.ofNat millis) = some t ∧ t.toInt = now.toInt + millis := by
  have hnow' : 0 ≤ now.toInt := Int64.le_iff_toInt_le.mp hnow
  have hmax : Int64.maxValue.toInt = 2 ^ 63 - 1 := rfl
  have hmin : Int64.minValue.toInt = -2 ^ 63 := rfl
  -- the expiry alone fits as well, so nothing of it is cut
  have hcut : (Int64.ofNat millis).toInt = millis := by
    rw [← Int64.ofInt_eq_ofNat]
    exact Int64.toInt_ofInt_of_le (by omega) (by omega)
  refine ⟨Int64.ofInt (now.toInt + millis), ?_, Int64.toInt_ofInt_of_le (by omega) (by omega)⟩
  unfold addTimestamps?
  simp only [hcut]
  rw [if_pos ⟨by omega, h⟩]

theorem wrapped_of_addTimestamps? {now t : Int64} {millis : Nat}
    (ht : addTimestamps? now (Int64.ofNat millis) = some t)
    (h : Int64.maxValue.toInt < now.toInt + millis) : Wrapped t (now.toInt + millis) := by
  unfold addTimestamps? at ht
  dsimp only at ht
  split at ht
  · obtain rfl := Option.some_inj.mp ht
    refine ⟨?_, fun heq => ?_⟩
    · rw [Int64.ofInt_add, Int64.ofInt_add, Int64.ofInt_toInt, Int64.ofInt_toInt,
        Int64.ofInt_eq_ofNat]
    · have hle := Int64.toInt_le (Int64.ofInt (now.toInt + (Int64.ofNat millis).toInt))
      omega
  · cases ht

/-! ## What is to be written -/

/-- A handshake was delivered to a device and may be accepted until `t`. -/
def Settlement.requestUntil (i : Identity) (t : Int64) : Settlement :=
  ⟨i, .requestSent, some t⟩

/-- A launch that sends was prepared without a failure. -/
theorem Launch.prepared_of_send? {l : Launch} {p : PendingSend} (h : l.send? = some p) :
    l.prepared = .ok (some p) := by
  unfold send? at h
  split at h
  · next q hq => rw [hq, h]
  · cases h

/-- A launch sends to one of the destinations. -/
theorem mem_of_launches {w : Surroundings} {m : OutgoingMessage} {ds : List Destination} {s : Store}
    {l : Launch} {p : PendingSend} (hl : l ∈ launches w m ds s) (hsend : l.send? = some p) :
    p.destination ∈ ds := by
  rw [destination_of_launches hl (Launch.prepared_of_send? hsend),
    ← launches_destinations w m ds s]
  exact List.mem_map_of_mem hl

namespace Node

variable {n : Node} {w : Surroundings} {f : FanOut} {p : PendingSend} {d : Destination}
  {result : SendResult} {i : Identity} {t : Int64}

/-- The expiry of a handshake that is delivered now, as it is computed. -/
def expiryAt? (n : Node) (clock : Clock) : Option Int64 :=
  addTimestamps? clock.now (Int64.ofNat n.settings.handshakeExpiry.millis)

theorem expiryAt?_congr {n' : Node} (h : n'.settings = n.settings) (clock : Clock) :
    n'.expiryAt? clock = n.expiryAt? clock := by
  unfold expiryAt?
  rw [h]

theorem settleHandshake_accepted (ht : n.expiryAt? w.clock = some t) (d : HandshakeDelivery) :
    n.settleHandshake w d (.ok ()) = (true, n.spawn (.settle (.requestUntil d.identity t))) := by
  unfold expiryAt? at ht
  unfold settleHandshake HandshakeDelivery.settlement?
  simp only [ht]
  rfl

theorem settleHandshake_dies (h : n.Overflows w.clock) (d : HandshakeDelivery) :
    n.settleHandshake w d (.ok ()) = (false, n) := by
  unfold Overflows at h
  unfold settleHandshake HandshakeDelivery.settlement?
  simp only [h]
  rfl

theorem settlesOf_requestUntil (n : Node) (i : Identity) (t : Int64) :
    (n.spawn (.settle (.requestUntil i t))).settlesOf i = n.settlesOf i ++ [.requestUntil i t] := by
  rw [settlesOf_spawn]
  simp [Spawned.settlement?, Settlement.requestUntil]

theorem settlesOf_settleSend_other (hi : p.destination.identity ≠ i) :
    (n.settleSend w p result).2.settlesOf i = n.settlesOf i := by
  unfold settleSend settleHandshake
  dsimp only
  split
  · split
    · next x hx =>
      rw [settlesOf_spawn, Spawned.settlement?, if_neg ((follows_of_settlement? hx).1 ▸ hi),
        Option.toList_none, List.append_nil]
      rfl
    · rfl
  · rfl

theorem settlesOf_settleSend_accepted (ht : n.expiryAt? w.clock = some t) (hp : p.isFor i = true) :
    (n.settleSend w p (.ok ())).2.settlesOf i = n.settlesOf i ++ [.requestUntil i t] := by
  obtain ⟨hh, rfl⟩ := PendingSend.isFor_iff.mp hp
  unfold settleSend
  simp only [hh, if_true]
  rw [settleHandshake_accepted (n := n.note (.answered p.envelope (.ok ()))) ht]
  exact settlesOf_requestUntil _ _ t

theorem settleIn_snd : (n.settleIn w f p result).2 = (n.settleSend w p result).2 := by
  unfold settleIn
  rcases n.settleSend w p result with ⟨_ | _, n'⟩ <;> rfl

theorem settlesOf_launch_other (hi : d.identity ≠ i) :
    (n.launch w f d).2.settlesOf i = n.settlesOf i := by
  unfold launch attempt
  rcases hx : (prepareSend w f.message d).attempt n.store with ⟨_ | _ | p, s⟩
  · rfl
  · rfl
  · have hp : p.destination = d := prepareSend_destination (congrArg Prod.fst hx)
    dsimp only
    split
    · rfl
    · rw [settleIn_snd]
      exact settlesOf_settleSend_other (hp ▸ hi)

theorem settlesOf_launch_accepted (ht : n.expiryAt? w.clock = some t)
    (hsend : (n.launchOf w f.message d).send? = some p) (hp : p.isFor i = true)
    (hnow : w.atOnce p.envelope = some (.ok ())) :
    (n.launch w f d).2.settlesOf i = n.settlesOf i ++ [.requestUntil i t] := by
  unfold launchOf Launch.send? at hsend
  unfold launch attempt
  rcases hx : (prepareSend w f.message d).attempt n.store with ⟨_ | _ | q, s⟩ <;>
    rw [hx] at hsend <;> cases hsend
  dsimp only
  rw [hnow]
  dsimp only
  rw [settleIn_snd]
  exact settlesOf_settleSend_accepted (n := Node.note _ _) ht hp

theorem settlesOf_launchAll_other (w : Surroundings) :
    ∀ (ds : List Destination) (f : FanOut) (n : Node), i ∉ ds.map (·.identity) →
      (launchAll w ds f n).2.settlesOf i = n.settlesOf i
  | [], _, _, _ => rfl
  | d :: ds, f, n, hi => by
    have hfirst : (n.launch w f d).2.settlesOf i = n.settlesOf i :=
      settlesOf_launch_other fun heq => hi (heq ▸ .head _)
    rw [launchAll_cons]
    split
    · exact hfirst
    · rw [settlesOf_launchAll_other w ds _ _ fun hmem => hi (.tail _ hmem), hfirst]

/-- Where the expiry is a timestamp, no launch is fatal. -/
theorem fatal_eq_false (ht : n.expiryAt? w.clock = some t) (l : Launch) :
    l.fatal n.settings w = false := by
  have hkills (p : PendingSend) (result : SendResult) : ¬ p.Kills n.settings w.clock result :=
    fun h => Option.some_ne_none t (ht.symm.trans h.2.2)
  simp [Launch.fatal, PendingSend.fatal, hkills]

/-- A handshake that the transport accepts while the sends of a fan-out start. No other send is to
its device. -/
theorem settlesOf_launchAll_accepted {l : Launch} (hp : p.isFor i = true)
    (hnow : w.atOnce p.envelope = some (.ok ())) (hsend : l.send? = some p) :
    ∀ (ds : List Destination) (f : FanOut) (n : Node), n.expiryAt? w.clock = some t →
      (ds.map (·.identity)).Nodup → l ∈ launches w f.message ds n.store →
      (launchAll w ds f n).2.settlesOf i = n.settlesOf i ++ [.requestUntil i t]
  | [], _, _, _, _, hl => by cases hl
  | d :: ds, f, n, ht, hn, hl => by
    rw [List.map_cons, List.nodup_cons] at hn
    have hi : p.destination.identity = i := (PendingSend.isFor_iff.mp hp).2
    rw [launchAll_cons, fatal_eq_false ht, if_neg Bool.false_ne_true]
    rw [launches_cons] at hl
    rcases List.mem_cons.mp hl with rfl | hl
    · have hd : p.destination = d := prepareSend_destination (Launch.prepared_of_send? hsend)
      rw [settlesOf_launchAll_other w ds _ _ (hi ▸ hd ▸ hn.1)]
      exact settlesOf_launch_accepted ht hsend hp hnow
    · have hmem : p.destination.identity ∈ ds.map (·.identity) :=
        List.mem_map_of_mem (mem_of_launches hl hsend)
      have hne : d.identity ≠ i := fun heq => hn.1 ((heq.trans hi.symm) ▸ hmem)
      rw [settlesOf_launchAll_accepted hp hnow hsend ds _ _
        ((expiryAt?_congr launch_settings w.clock).trans ht) hn.2 (by rwa [FanOut.message_take]),
        settlesOf_launch_other hne]

/-! ## Handshakes on their own -/

theorem settlesOf_finishHandshake (ht : n.expiryAt? w.clock = some t) (d : HandshakeDelivery) :
    (n.finishHandshake w d (.ok ())).2.settlesOf d.identity =
      n.settlesOf d.identity ++ [.requestUntil d.identity t] := by
  unfold finishHandshake
  rw [settleHandshake_accepted (n := n.note (.answered d.envelope (.ok ()))) ht]
  exact settlesOf_requestUntil _ _ t

theorem finishHandshake_dies (h : n.Overflows w.clock) (d : HandshakeDelivery) :
    (n.finishHandshake w d (.ok ())).1.Died := by
  unfold finishHandshake
  rw [settleHandshake_dies (n := n.note (.answered d.envelope (.ok ()))) h]
  trivial

/-- A handshake that the transport accepts while it is handed over has been built, and it is as if
the answer had been waited for. -/
theorem begin_handshake_of_atOnce {m : OutgoingMessage} {d : HandshakeDelivery} {hidden : Bool}
    (hbuilt : (n.attempt (buildHandshake w.clock (w.messageId i) i hidden)).1 = .ok (m, d))
    (hnow : w.atOnce d.envelope = some (.ok ())) :
    ∃ n' : Node, n'.settings = n.settings ∧ n'.settlesOf i = n.settlesOf i ∧
      n.begin w (.handshake i hidden) = n'.finishHandshake w d (.ok ()) := by
  let build := buildHandshake w.clock (w.messageId i) i hidden
  refine ⟨(n.attempt build).2.note (.handed d.envelope true), rfl, rfl, ?_⟩
  show n.sendHandshake w i hidden = _
  unfold sendHandshake
  rcases hx : n.attempt build with ⟨r, n'⟩
  rw [hx] at hbuilt
  obtain rfl : r = .ok (m, d) := hbuilt
  simp only [hnow]

/-- A handshake is built for the device that it was asked for. -/
theorem identity_of_built {m : OutgoingMessage} {d : HandshakeDelivery} {hidden : Bool}
    (hbuilt : (n.attempt (buildHandshake w.clock (w.messageId i) i hidden)).1 = .ok (m, d)) :
    d.identity = i := by
  unfold attempt buildHandshake at hbuilt
  simp only [StoreM.attempt_bind] at hbuilt
  rcases hg : (Store.getOrCreateContactThread i hidden).attempt n.store with ⟨_ | row, s₁⟩ <;>
    rw [hg] at hbuilt
  · cases hbuilt
  · dsimp only at hbuilt
    rcases hw : (Store.writeHandshakeState i .pendingSend none).attempt s₁ with ⟨_ | found, s₂⟩ <;>
      rw [hw] at hbuilt <;> cases hbuilt
    rfl

end Node

/-! ## Accepted handshakes -/

/-- With this answer for the call, the transport accepts a generated handshake for the contact. -/
def Call.accepted (i : Identity) : Call → Answer → Bool
  | .handshake d, .delivery _ result => result.isOk && decide (d.identity = i)
  | .route (.fanningOut f), a =>
    (f.answered? a).any fun (p, result) => result.isOk && p.isFor i
  | _, _ => false

theorem SendResult.eq_ok {result : SendResult} (h : result.isOk = true) : result = .ok () := by
  cases result with
  | error e => cases h
  | ok u => rfl

/-- The handshake was sent on its own or by a fan-out. -/
theorem Call.accepted_cases {c : Call} {a : Answer} {i : Identity} (h : c.accepted i a = true) :
    (∃ d j, c = .handshake d ∧ a = .delivery j (.ok ()) ∧ d.identity = i) ∨
      ∃ f p, c = .route (.fanningOut f) ∧ f.answered? a = some (p, .ok ()) ∧ p.isFor i = true := by
  unfold accepted at h
  split at h
  · next d j result =>
    obtain ⟨hok, hd⟩ := Bool.and_eq_true_iff.mp h
    obtain rfl := SendResult.eq_ok hok
    exact .inl ⟨d, j, rfl, rfl, of_decide_eq_true hd⟩
  · next f =>
    obtain ⟨⟨p, result⟩, ha, hp⟩ := Option.any_eq_true _ _ |>.mp h
    obtain ⟨hok, hp⟩ := Bool.and_eq_true_iff.mp hp
    obtain rfl := SendResult.eq_ok hok
    exact .inr ⟨f, p, rfl, ha, hp⟩
  · cases h

namespace System

variable {s : System} {x : Exchange} {e : Event} {i : Identity} {expiry : Int64}

/-- In this event the transport accepts a generated handshake for the contact: an answer comes for a
call, or the handshake is accepted on the spot, while it is sent on its own or while a fan-out
starts. -/
inductive Accepts (s : System) (x : Exchange) (i : Identity) : Event → Prop where
  | late {id : Nat} {a : Answer}
      (haccepted : (s.calls.lookup id).any (·.accepted i a) = true) : Accepts s x i (.answer id a)
  | atOnce {id : Nat} {hidden : Bool} (m : OutgoingMessage) (d : HandshakeDelivery)
      (hfree : s.calls.lookup id = none)
      (hbuilt : (s.node.attempt (buildHandshake s.clock (x.messageId i) i hidden)).1 = .ok (m, d))
      (hnow : x.atOnce d.envelope = some (.ok ())) :
      Accepts s x i (.begin id (.handshake i hidden))
  | atOnceInFanOut {id : Nat} {m : OutgoingMessage} {ds : List Destination} {n : Node} {e : Event}
      (l : Launch) (p : PendingSend) (hfans : s.FansOut id m ds n e)
      (hl : l ∈ upTo (·.fatal n.settings (s.surroundings x))
        (launches (s.surroundings x) m ds n.store))
      (hsend : l.send? = some p) (hp : p.isFor i = true)
      (hnow : x.atOnce p.envelope = some (.ok ())) :
      Accepts s x i e

theorem FansOut.settlesOf {id : Nat} {m : OutgoingMessage} {ds : List Destination} {n : Node}
    (h : s.FansOut id m ds n e) : n.settlesOf i = s.node.settlesOf i := by
  cases h <;> rfl

/-- The task that waited for an accepted handshake dies where there is no sum. -/
theorem accepted_dies (h : s.Accepts x i e) (ho : s.node.Overflows s.clock) : s.Dies x e := by
  cases h with
  | @late id a haccepted =>
    refine ⟨id, ?_⟩
    obtain ⟨c, hcall, hc⟩ := (Option.any_eq_true _ _).mp haccepted
    rw [step_answer hcall]
    rcases Call.accepted_cases hc with ⟨d, j, rfl, rfl, -⟩ | ⟨f, p, rfl, ha, hp⟩
    · exact settleCall_died (Node.finishHandshake_dies (w := s.surroundings x) ho d)
    · have hkills : p.Kills s.node.settings (s.surroundings x).clock (.ok ()) :=
        ⟨(PendingSend.isFor_iff.mp hp).1, rfl, ho⟩
      rw [Node.answer_fanningOut, ha]
      dsimp only
      rw [Node.settleIn_fst, if_pos hkills]
      exact settleCall_died trivial
  | @atOnce id hidden m d hfree hbuilt hnow =>
    refine ⟨id, ?_⟩
    obtain ⟨n', hsettings, -, hsend⟩ :=
      Node.begin_handshake_of_atOnce (w := s.surroundings x) hbuilt hnow
    have ho' : n'.Overflows s.clock := ho.of_settings hsettings.symm
    rw [step_begin hfree, hsend]
    exact settleCall_died (Node.finishHandshake_dies (w := s.surroundings x) ho' d)
  | @atOnceInFanOut id m ds n e l p hfans hl hsend hp hnow =>
    refine ⟨id, ?_⟩
    have hfatal : l.fatal n.settings (s.surroundings x) = true := by
      rw [fatal_eq_any hfans.settings x]
      unfold Launch.sent?
      rw [hsend]
      exact decide_eq_true ⟨(PendingSend.isFor_iff.mp hp).1, hnow, ho⟩
    have hdead : (Node.launchAll (s.surroundings x) ds (FanOut.start m) n).1 = none := by
      rw [Node.launchAll_fst]
      exact if_pos (List.any_eq_true.mpr ⟨l, mem_of_mem_upTo hl, hfatal⟩)
    rw [hfans.step_eq x]
    unfold Node.fanOut
    dsimp only
    rw [hdead]
    exact settleCall_died trivial

/-- Where there is a sum, it is to be written. -/
theorem accepted_settles (h : s.Accepts x i e) (ht : s.node.expiryAt? s.clock = some expiry) :
    (s.step x e).node.settlesOf i = s.node.settlesOf i ++ [.requestUntil i expiry] := by
  cases h with
  | late haccepted =>
    obtain ⟨c, hcall, hc⟩ := (Option.any_eq_true _ _).mp haccepted
    rw [step_answer hcall, settleCall_node]
    rcases Call.accepted_cases hc with ⟨d, j, rfl, rfl, rfl⟩ | ⟨f, p, rfl, ha, hp⟩
    · exact Node.settlesOf_finishHandshake (w := s.surroundings x) ht d
    · rw [Node.answer_fanningOut, ha]
      dsimp only
      rw [Node.settleIn_snd]
      exact Node.settlesOf_settleSend_accepted (w := s.surroundings x) ht hp
  | atOnce m d hfree hbuilt hnow =>
    have hd : d.identity = i := Node.identity_of_built (w := s.surroundings x) hbuilt
    obtain ⟨n', hsettings, hsame, hsend⟩ :=
      Node.begin_handshake_of_atOnce (w := s.surroundings x) hbuilt hnow
    rw [step_begin hfree, settleCall_node, hsend, ← hsame]
    subst hd
    exact Node.settlesOf_finishHandshake (w := s.surroundings x)
      ((Node.expiryAt?_congr hsettings s.clock).trans ht) d
  | @atOnceInFanOut id m ds n e l p hfans hl hsend hp hnow =>
    have hsame : n.settlesOf i = s.node.settlesOf i := hfans.settlesOf
    rw [hfans.step_node x, ← hsame]
    exact Node.settlesOf_launchAll_accepted hp hnow hsend ds (FanOut.start m) n
      ((Node.expiryAt?_congr hfans.settings s.clock).trans ht) hfans.nodup
      (mem_of_mem_upTo hl)

end System

/-! ## There is a row to write to -/

namespace Ledger

variable {l l' : Ledger} {free : Prop}

/-- A contact with a handshake in flight has a conversation, and its state can be read. -/
def Readable (l : Ledger) : Prop :=
  l.inFlight ≠ 0 → ∃ r st, l.row = some r ∧ r.state = .known st

theorem Move.readable (hm : Move free l l') (h : l.Readable) : l'.Readable := by
  intro hn
  cases hm with
  | row n u c hr => cases hr <;> exact ⟨_, _, rfl, rfl⟩
  | builds => exact ⟨_, _, rfl, rfl⟩
  | answers a n u c y hy => exact h (by simp only [inFlight]; omega)

theorem Readable.path (h : l.Readable) (hp : Path free l l') : l'.Readable := by
  induction hp with
  | refl => exact h
  | tail _ hm ih => exact hm.readable ih

end Ledger

/-- A request was sent to the contact that may be accepted until `t`. Before then, a message that
needs trust does not go out to it, nor does another handshake. -/
structure Database.AwaitsUntil (db : Database) (i : Identity) (t : Int64) : Prop where
  row : ∃ row, db.threads.contact i = .ok (some row) ∧ row.handshakeState = .requestSent ∧
    row.handshakeExpiresAt = some t
  pending : ∀ clock : Clock, clock.now < t →
    db.decision clock i .visible = .ok .alreadyPending

theorem decideFor_of_not_due {now t : Int64} {row : ThreadRow}
    (hst : row.handshakeState = .requestSent) (he : row.handshakeExpiresAt = some t)
    (ht : now < t) : decideFor now (some row) = .alreadyPending := by
  have hdue : ¬ t ≤ now := Int64.not_le.mpr ht
  simp [decideFor, hst, he, HandshakeState.isEstablished, HandshakeState.isOutstanding,
    ThreadRow.lapsed, ThreadRow.due, hdue]

theorem Database.awaitsUntil {db : Database} {i : Identity} {t : Int64} {row : ThreadRow}
    (hrow : db.threads.contact i = .ok (some row)) (hst : row.handshakeState = .requestSent)
    (he : row.handshakeExpiresAt = some t) : db.AwaitsUntil i t := by
  refine ⟨⟨row, hrow, hst, he⟩, fun clock hclock => ?_⟩
  rw [decision_eq, hrow]
  exact congrArg Except.ok (decideFor_of_not_due hst he hclock)

namespace System

variable {s : System} {x : Exchange} {e : Event} {i : Identity} {expiry : Int64}

theorem readable_step (hwf : s.WellFormed) (h : (s.ledger i).Readable) :
    ((s.step x e).ledger i).Readable := by
  cases ledger_step hwf x e i with
  | path lost _ _ _ hp =>
    have hmore : (((s.step x e).ledger i).more lost).Readable := h.path hp
    exact fun hn => hmore (by rw [Ledger.inFlight_more]; omega)
  | settles k y he _ hy =>
    have hin := hy.inFlight
    have hrow := hy.row
    intro _
    obtain ⟨r, st, hr, hst⟩ := h (by omega)
    split at hrow
    · exact ⟨_, _, by rw [hrow, hr]; rfl, rfl⟩
    · exact ⟨r, st, hrow.trans hr, hst⟩
  | restarts _ hl =>
    rw [hl]
    exact fun hn => absurd rfl hn

theorem readable_run (hwf : s.WellFormed) (h : (s.ledger i).Readable)
    (events : List (Exchange × Event)) : ((s.run events).ledger i).Readable :=
  (run_invariant (P := fun s => s.WellFormed ∧ (s.ledger i).Readable)
    (fun _ x e h => ⟨(wellFormed_step h.1 x e).1, readable_step h.1 h.2⟩) ⟨hwf, h⟩ events).2

/-- The task runs that is to write the request, and its write succeeds. -/
theorem requested_step (hwf : s.WellFormed) (h : (s.ledger i).Readable) {k : Nat}
    (hk : s.node.spawned[k]? = some (.settle (.requestUntil i expiry)))
    (ho : s.node.store.outage s.node.store.calls .writeHandshakeState = none) :
    ∃ row, (s.step x (.run k)).node.store.db.threads.contact i = .ok (some row) ∧
      row.handshakeState = .requestSent ∧ row.handshakeExpiresAt = some expiry := by
  have he : s.settlementAt (.run k) = some (.requestUntil i expiry) := by
    simp only [settlementAt, hk]
  obtain ⟨-, -, -, hy⟩ := step_settle (x := x) hwf he
  have hflight : (s.ledger i).inFlight ≠ 0 := fun h0 => by
    have hin : ((s.step x (.run k)).ledger i).inFlight + 1 = (s.ledger i).inFlight := hy.inFlight
    omega
  obtain ⟨r, -, hr, -⟩ := h hflight
  have hrow : ((s.step x (.run k)).ledger i).row =
      (s.ledger i).row.map fun _ => ⟨.known .requestSent, some expiry⟩ := by
    have := hy.row
    rwa [if_pos ho] at this
  rw [hr] at hrow
  exact ThreadTable.contact_of_standing hrow

/-! ## Sound expiries -/

/-- In the event `e` a request is to be written for the contact, whose expiry is as it should be for
a handshake that may be accepted for so many milliseconds. -/
structure SoundRequest (s : System) (x : Exchange) (e : Event) (i : Identity) (millis : Nat)
    (expiry : Int64) : Prop where
  spawned : (s.step x e).node.settlesOf i = s.node.settlesOf i ++ [.requestUntil i expiry]
  unwrapped : ¬ Wrapped expiry (s.clock.now.toInt + millis)
  not_past : s.clock.now ≤ expiry
  sum : s.clock.now.toInt + millis ≤ Int64.maxValue.toInt →
    expiry.toInt = s.clock.now.toInt + millis
  /-- Whenever the write takes place, unless it fails, the contact awaits acceptance from then on,
  as long as nothing else is written to its conversation. -/
  awaits : ∀ (after : List (Exchange × Event)) (x' : Exchange) (k : Nat),
    let t := (s.step x e).run after
    t.node.spawned[k]? = some (.settle (.requestUntil i expiry)) →
    t.node.store.outage t.node.store.calls .writeHandshakeState = none →
    ∀ db : Database,
      db.threads.contact i = (t.step x' (.run k)).node.store.db.threads.contact i →
      db.AwaitsUntil i expiry

/-- The transport accepts a handshake for the contact in the event `e`. The task that waited for it
lives, and what is to be written is sound. -/
structure ExpirySound (s : System) (x : Exchange) (e : Event) (i : Identity) (millis : Nat) :
    Prop where
  lives : ¬ s.Dies x e
  requests : ∃ expiry, s.SoundRequest x e i millis expiry

theorem Accepts.sound_of_fits (h : s.Accepts x i e) (hwf : s.WellFormed)
    (hr : (s.ledger i).Readable) {secs : UInt64}
    (hsecs : s.node.settings.handshakeExpiry = .ofSeconds secs) (hnow : 0 ≤ s.clock.now)
    (hfits : s.clock.now.toInt + (secs.toNat * 1000 : Nat) ≤ Int64.maxValue.toInt) :
    s.ExpirySound x e i (secs.toNat * 1000) := by
  obtain ⟨expiry, hsum, hexact⟩ := addTimestamps?_of_fits hnow hfits
  have ht : s.node.expiryAt? s.clock = some expiry := by
    unfold Node.expiryAt?
    rw [hsecs, Duration.millis_ofSeconds, hsum]
  refine ⟨fun hd => ?_, expiry, ?_⟩
  · exact Option.some_ne_none _ (ht.symm.trans (dies_overflows hd))
  refine ⟨accepted_settles h ht, fun hw => hw.2 hexact, ?_, fun _ => hexact, ?_⟩
  · rw [Int64.le_iff_toInt_le]
    omega
  · intro after x' k t hk ho db hdb
    have hwf' := (wellFormed_step hwf x e).1
    have hr' := readable_run hwf' (readable_step (x := x) (e := e) hwf hr) after
    obtain ⟨row, hrow, hst, he⟩ :=
      requested_step (x := x') (wellFormed_run hwf' after).1 hr' hk ho
    exact Database.awaitsUntil (hdb.trans hrow) hst he

/-- An expiry that does not fit kills the task, or what is written is wrapped. -/
theorem Accepts.long_cases (h : s.Accepts x i e) {secs : UInt64}
    (hsecs : s.node.settings.handshakeExpiry = .ofSeconds secs)
    (hlong : Int64.maxValue.toInt < s.clock.now.toInt + (secs.toNat * 1000 : Nat)) :
    s.Dies x e ∨ ∃ expiry, Wrapped expiry (s.clock.now.toInt + (secs.toNat * 1000 : Nat)) ∧
      (s.step x e).node.settlesOf i = s.node.settlesOf i ++ [.requestUntil i expiry] := by
  cases ht : s.node.expiryAt? s.clock with
  | none => exact .inl (accepted_dies h ht)
  | some expiry =>
    refine .inr ⟨expiry, wrapped_of_addTimestamps? ?_ hlong, accepted_settles h ht⟩
    unfold Node.expiryAt? at ht
    rwa [hsecs, Duration.millis_ofSeconds] at ht

theorem Accepts.fits_of_sound (h : s.Accepts x i e) {secs : UInt64}
    (hsecs : s.node.settings.handshakeExpiry = .ofSeconds secs)
    (hs : s.ExpirySound x e i (secs.toNat * 1000)) :
    s.clock.now.toInt + (secs.toNat * 1000 : Nat) ≤ Int64.maxValue.toInt := by
  by_contra hlong
  rcases h.long_cases hsecs (not_le.mp hlong) with hdies | ⟨computed, hwrapped, hcomputed⟩
  · exact hs.lives hdies
  · obtain ⟨expiry, hrequest⟩ := hs.requests
    have hsame : computed = expiry := by
      have := List.append_cancel_left (hcomputed.symm.trans hrequest.spawned)
      simpa [Settlement.requestUntil] using this
    exact hrequest.unwrapped (hsame ▸ hwrapped)

/-- At any point of any run, over any store, whichever of its calls fail: the transport accepts a
handshake for a contact, at a time that is not negative. Its expiry is sound exactly if that time
and the configured expiry, in milliseconds, add up to a timestamp. -/
theorem expiry_sound_iff (config : Config) (store : Store) (clock : Clock) (hk : store.Keyed)
    (before : List (Exchange × Event)) (x : Exchange) (e : Event) (i : Identity) :
    let s := (idle (.assemble config.settings store) clock).run before
    let millis := config.handshakeExpiry.toNat * 1000
    s.Accepts x i e → 0 ≤ s.clock.now →
      (s.ExpirySound x e i millis ↔ s.clock.now.toInt + millis ≤ Int64.maxValue.toInt) := by
  intro s millis h hnow
  have hidle : (idle (.assemble config.settings store) clock).WellFormed := wellFormed_idle hk
  have hwf : s.WellFormed := (wellFormed_run hidle before).1
  have hr : (s.ledger i).Readable := readable_run hidle (fun hn => absurd rfl hn) before
  have hsecs : s.node.settings.handshakeExpiry = .ofSeconds config.handshakeExpiry :=
    congrArg Settings.handshakeExpiry (settings_run _ before)
  exact ⟨h.fits_of_sound hsecs, h.sound_of_fits hwf hr hsecs hnow⟩

/-- The longest expiry that fits at this time, of a handshake that a fan-out has sent and that is
accepted late. -/
theorem expiry_sound_of_longest :
    let config := { Config.default with handshakeExpiry := 9223370336854775 }
    let s := (idle (.assemble config.settings (.reliable .empty)) ⟨0, 1700000000000⟩).run
      [(.quiet, .begin 0 (.route (.toContact "m" "bob" [1] 0))),
        (.quiet, .answer 0 (.links (.ok [.between "bob" "bob-phone"])))]
    s.ExpirySound .quiet (.answer 0 (.delivery "bob-phone" (.ok ()))) "bob-phone"
      (config.handshakeExpiry.toNat * 1000) := by
  intro config s
  have haccepts : s.Accepts .quiet "bob-phone" (.answer 0 (.delivery "bob-phone" (.ok ()))) :=
    .late (by decide +kernel)
  exact (expiry_sound_iff config (.reliable .empty) ⟨0, 1700000000000⟩ ThreadTable.keyed_empty
    [(.quiet, .begin 0 (.route (.toContact "m" "bob" [1] 0))),
      (.quiet, .answer 0 (.links (.ok [.between "bob" "bob-phone"])))]
    .quiet (.answer 0 (.delivery "bob-phone" (.ok ()))) "bob-phone" haccepts
    (by decide +kernel)).mpr (by decide +kernel)

/-- The expiry is cut to a negative number. The request has lapsed long before it is written: even
with the clock set back, another handshake goes out. -/
theorem lapsed_on_delivery :
    let config := { Config.default with handshakeExpiry := 9223372036854776 }
    let s := (idle (.assemble config.settings (.reliable .empty)) ⟨0, 1700000000000⟩).run
      [(.quiet, .begin 0 (.route (.toContact "m" "bob" [1] 0))),
        (.quiet, .answer 0 (.links (.ok [])))]
    let e := Event.answer 0 (.delivery "bob" (.ok ()))
    s.Accepts .quiet "bob" e ∧ 0 ≤ s.clock.now ∧
      ¬ s.ExpirySound .quiet e "bob" (config.handshakeExpiry.toNat * 1000) ∧
      (s.run [(.quiet, e), (.quiet, .run 0)]).node.store.db.decision ⟨0, 1699999999999⟩ "bob"
        .visible = .ok .sendHandshake := by
  intro config s e
  refine ⟨.late (by decide +kernel), by decide +kernel, fun hs => ?_, by decide +kernel⟩
  obtain ⟨expiry, hrequest⟩ := hs.requests
  have hwritten : (s.step .quiet e).node.settlesOf "bob" =
      s.node.settlesOf "bob" ++ [.requestUntil "bob" (-9223370336854775616)] := by decide +kernel
  have hcut : expiry = -9223370336854775616 := by
    have := List.append_cancel_left (hrequest.spawned.symm.trans hwritten)
    simpa [Settlement.requestUntil] using this
  have hpast := hrequest.not_past
  rw [hcut] at hpast
  exact absurd hpast (by decide +kernel)

end System

end Courier
