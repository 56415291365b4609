import Courier.Node.Routing
import Courier.Proofs.Link.Destinations
import Courier.Proofs.Trust.Ledger

/-!
# What a route does for the handshakes of every contact

`Node.ledger` reads the ledger of a contact off a node, given the number of its handshakes that the
transport has not answered; those are held by the calls (`FanOut.sending`). `Leads` says that a
piece of a task takes all ledgers along paths, and loses deliveries only where the task dies.

* `settleIn_leads`: an answer for one send. The devices of a fan-out differ (`FanOut.Distinct`), so
  the send that settles is the only one of its device.
* `launch_leads`, `launchAll_leads`: the sends of a fan-out start.
* `route_goes`, `resumeRoute_goes`, `answerRoute_goes`: a route, from one wait to the next.
-/

namespace Courier

open Relation (ReflTransGen)

/-! ## The ledgers of a node -/

/-- What a spawned task is to write for a contact. -/
def Spawned.settlement? (i : Identity) : Spawned → Option Settlement
  | .settle x => if x.identity = i then some x else none
  | .poll _ => none

/-- A generated handshake for the contact was handed to the transport. -/
def JournalEntry.builds (i : Identity) : JournalEntry → Bool
  | .handed e generated => generated && decide (e.recipient = i)
  | _ => false

namespace Node

variable {free dies : Prop} {n n₁ n₂ : Node} {h h₁ h₂ : Identity → Nat} {i : Identity}

/-- What the spawned tasks are to write for a contact. -/
def settlesOf (n : Node) (i : Identity) : List Settlement :=
  n.spawned.filterMap (·.settlement? i)

/-- How many generated handshakes for a contact were handed to the transport so far. -/
def builtFor (n : Node) (i : Identity) : Nat :=
  n.journal.countP (·.builds i)

/-- The ledger of a contact, `sending` of whose handshakes wait for the transport. -/
def ledger (n : Node) (i : Identity) (sending : Nat) : Ledger :=
  ⟨n.store.standing i, sending, n.settlesOf i, n.builtFor i⟩

/-- The node has come from `n` to `n₁` by paths in all ledgers; `h` and `h₁` count the handshakes
that waited for the transport before and after. What is lost beside is lost with a task. -/
structure Leads (free dies : Prop) (n : Node) (h : Identity → Nat) (n₁ : Node)
    (h₁ : Identity → Nat) : Prop where
  outage : n₁.store.outage = n.store.outage
  keyed : n₁.store.Keyed
  path : ∃ lost : Identity → Nat, (¬ dies → ∀ i, lost i = 0) ∧
    ∀ i, Ledger.Path free (n.ledger i (h i)) (n₁.ledger i (h₁ i + lost i))

theorem Leads.refl (hk : n.store.Keyed) : Leads free dies n h n h :=
  ⟨rfl, hk, fun _ => 0, fun _ _ => rfl, fun _ => .refl⟩

theorem Leads.trans (a : Leads free False n h n₁ h₁) (b : Leads free dies n₁ h₁ n₂ h₂) :
    Leads free dies n h n₂ h₂ := by
  obtain ⟨la, hla, pa⟩ := a.path
  obtain ⟨lb, hlb, pb⟩ := b.path
  refine ⟨b.outage.trans a.outage, b.keyed, lb, hlb, fun i => ?_⟩
  have := pa i
  rw [hla id i, Nat.add_zero] at this
  exact this.trans (pb i)

/-- Where no task dies, nothing is lost. -/
theorem Leads.alive {dies' : Prop} (a : Leads free dies n h n₁ h₁) (hd : ¬ dies) :
    Leads free dies' n h n₁ h₁ :=
  ⟨a.outage, a.keyed, a.path.imp fun _ ⟨hl, hp⟩ => ⟨fun _ => hl hd, hp⟩⟩

/-- Where the task dies, everything that it waited for is lost. -/
theorem Leads.dead {dies' : Prop} (a : Leads free dies n h n₁ h₁) (hd : dies') :
    Leads free dies' n h n₁ fun _ => 0 := by
  obtain ⟨lost, -, hp⟩ := a.path
  refine ⟨a.outage, a.keyed, fun i => h₁ i + lost i, fun hn => absurd hd hn, fun i => ?_⟩
  rw [Nat.zero_add]
  exact hp i

/-- A change of the store by moves of standings. -/
theorem Leads.of_drift (hd : n.store.Drift n₁.store) (hs : n₁.spawned = n.spawned)
    (hj : n₁.journal = n.journal) : Leads free dies n h n₁ h := by
  refine ⟨hd.outage, hd.keyed, fun _ => 0, fun _ _ => rfl, fun i => ?_⟩
  unfold ledger settlesOf builtFor
  rw [hs, hj]
  exact Ledger.path_row (hd.standing i) _ _ _

theorem leads_note {e : JournalEntry} (hk : n.store.Keyed) (he : ∀ i, e.builds i = false) :
    Leads free dies n h (n.note e) h := by
  refine ⟨rfl, hk, fun _ => 0, fun _ _ => rfl, fun i => ?_⟩
  have : (n.note e).ledger i (h i) = n.ledger i (h i) := by
    unfold ledger builtFor note
    simp [he i]
    rfl
  rw [Nat.add_zero, this]

/-- A handshake was built and is handed over. -/
theorem handed_leads {e : OutgoingEnvelope} {s' : Store}
    (hfree : free ∨ ∀ r ∈ n.store.standing e.recipient, ¬ r.Locked)
    (hpends : n.store.Pends e.recipient s') :
    Leads free False n h ({ n with store := s' }.note (.handed e true))
      fun i => h i + if e.recipient = i then 1 else 0 := by
  refine ⟨hpends.outage, hpends.keyed, fun _ => 0, fun _ _ => rfl, fun i => ?_⟩
  have hl : ({ n with store := s' }.note (.handed e true)).ledger i
      (h i + (if e.recipient = i then 1 else 0) + 0) =
        ⟨s'.standing i, h i + (if e.recipient = i then 1 else 0), n.settlesOf i,
          n.builtFor i + if e.recipient = i then 1 else 0⟩ := by
    unfold ledger builtFor note settlesOf
    simp [List.countP_append, List.countP_singleton, JournalEntry.builds]
  rw [hl, hpends.standing]
  by_cases hi : e.recipient = i
  · subst hi
    simp only [if_true]
    exact .single (.builds _ _ _ hfree)
  · rw [if_neg (Ne.symm hi), if_neg hi]
    exact .refl

theorem leads_attempt {α : Type} {x : StoreM α} (hk : n.store.Keyed) (hx : x.Drifts) :
    Leads free dies n h (n.attempt x).2 h :=
  .of_drift (hx n.store hk) rfl rfl

theorem leads_effect {α : Type} {x : StoreM α} (hk : n.store.Keyed) (hx : x.Drifts) :
    Leads free dies n h (n.effect x) h :=
  .of_drift (hx n.store hk) rfl rfl

theorem settlesOf_spawn (x : Spawned) :
    (n.spawn x).settlesOf i = n.settlesOf i ++ (x.settlement? i).toList := by
  unfold settlesOf spawn
  rw [List.filterMap_append]
  cases hx : x.settlement? i <;> simp [hx]

/-- A spawned task that has run: what it was to write is gone. -/
theorem settlesOf_eraseIdx {k : Nat} {x : Spawned} (hx : n.spawned[k]? = some x) :
    ∃ a b, n.settlesOf i = a ++ (x.settlement? i).toList ++ b ∧
      ({ n with spawned := n.spawned.eraseIdx k } : Node).settlesOf i = a ++ b := by
  obtain ⟨hk, rfl⟩ := List.getElem?_eq_some_iff.mp hx
  refine ⟨(n.spawned.take k).filterMap (·.settlement? i),
    (n.spawned.drop (k + 1)).filterMap (·.settlement? i), ?_, ?_⟩
  · unfold settlesOf
    conv_lhs => rw [← List.take_append_drop k n.spawned, List.drop_eq_getElem_cons hk]
    rw [List.filterMap_append, List.filterMap_cons]
    cases n.spawned[k].settlement? i <;> simp
  · unfold settlesOf
    rw [List.eraseIdx_eq_take_drop_succ, List.filterMap_append]

/-! ## The transport has answered -/

theorem follows_of_settlement? {d : HandshakeDelivery} {expiry : Duration} {now : Int64}
    {result : SendResult} {x : Settlement} (hx : d.settlement? expiry now result = some x) :
    x.identity = d.identity ∧ x.Follows := by
  unfold HandshakeDelivery.settlement? at hx
  split at hx
  · obtain ⟨t, -, rfl⟩ := Option.map_eq_some_iff.mp hx
    exact ⟨rfl, .inl ⟨rfl, rfl⟩⟩
  · cases hx
    exact ⟨rfl, .inr ⟨rfl, rfl⟩⟩

/-- The answer for a handshake settles it, or the task dies with it. -/
theorem settleHandshake_leads {w : Surroundings} (d : HandshakeDelivery) (result : SendResult)
    (hk : n.store.Keyed) :
    Leads free ((n.settleHandshake w d result).1 = false) n
      (fun i => h i + if d.identity = i then 1 else 0) (n.settleHandshake w d result).2 h := by
  unfold settleHandshake
  split
  · next x hx =>
    obtain ⟨hi, hf⟩ := follows_of_settlement? hx
    refine ⟨rfl, hk, fun _ => 0, fun _ _ => rfl, fun i => ?_⟩
    have hl : (n.spawn (.settle x)).ledger i (h i + 0) =
        ⟨n.store.standing i, h i, n.settlesOf i ++ ((Spawned.settle x).settlement? i).toList,
          n.builtFor i⟩ := by
      rw [← settlesOf_spawn]
      rfl
    rw [hl]
    by_cases hd : d.identity = i
    · rw [if_pos hd, Spawned.settlement?, if_pos (hi.trans hd)]
      exact .single (.answers _ _ _ _ x hf)
    · rw [if_neg hd, Spawned.settlement?, if_neg (hi ▸ hd), Option.toList_none, List.append_nil]
      exact .refl
  · exact ⟨rfl, hk, fun i => if d.identity = i then 1 else 0, fun h => absurd rfl h,
      fun i => .refl⟩

end Node

/-! ## Fan-outs -/

/-- The send carries a handshake for the contact. -/
def PendingSend.isFor (p : PendingSend) (i : Identity) : Bool :=
  p.isHandshake && decide (p.destination.identity = i)

theorem PendingSend.isFor_iff {p : PendingSend} {i : Identity} :
    p.isFor i = true ↔ p.isHandshake = true ∧ p.destination.identity = i := by
  unfold isFor
  rw [Bool.and_eq_true_iff, decide_eq_true_iff]

namespace FanOut

variable {f : FanOut} {p : PendingSend} {i : Identity}

/-- The devices whose sends have not settled. -/
def identities (f : FanOut) : List Identity :=
  f.pending.map (·.destination.identity)

/-- No two sends go to one device. -/
def Distinct (f : FanOut) : Prop :=
  f.identities.Nodup

/-- How many handshakes for a contact wait for the transport. -/
def sending (f : FanOut) (i : Identity) : Nat :=
  f.pending.countP (·.isFor i)

theorem pending_settle (f : FanOut) (p : PendingSend) (result : SendResult) :
    (f.settle p result).pending = f.pending.filter (·.destination ≠ p.destination) := by
  unfold settle
  cases result <;> rfl

/-- The send that settles is the only one of its device. -/
theorem pending_perm_of_mem (hd : f.Distinct) (hp : p ∈ f.pending) :
    f.pending.Perm (p :: f.pending.filter (·.destination ≠ p.destination)) := by
  unfold Distinct identities at hd
  generalize f.pending = ps at hd hp
  induction ps with
  | nil => cases hp
  | cons q ps ih =>
    rw [List.map_cons, List.nodup_cons] at hd
    rcases List.mem_cons.mp hp with rfl | hp
    · have hall : ∀ q ∈ ps, q.destination ≠ p.destination := fun q hq heq =>
        hd.1 (heq ▸ List.mem_map_of_mem (f := fun x : PendingSend => x.destination.identity) hq)
      rw [List.filter_cons_of_neg (by simp), List.filter_eq_self.mpr (by simpa using hall)]
    · have hne : q.destination ≠ p.destination := fun heq =>
        hd.1 (heq ▸ List.mem_map_of_mem (f := fun x : PendingSend => x.destination.identity) hp)
      rw [List.filter_cons_of_pos (by simpa using hne)]
      exact ((ih hd.2 hp).cons q).trans (.swap _ _ _)

theorem sending_settle (hd : f.Distinct) (hp : p ∈ f.pending) (result : SendResult) :
    f.sending i = (f.settle p result).sending i + if p.isFor i then 1 else 0 := by
  unfold sending
  rw [pending_settle, (pending_perm_of_mem hd hp).countP_eq, List.countP_cons]

/-- The fan-out with one more send at its end. -/
def add (f : FanOut) (p : PendingSend) : FanOut :=
  { f with pending := f.pending ++ [p] }

theorem identities_add (f : FanOut) (p : PendingSend) :
    (f.add p).identities = f.identities ++ [p.destination.identity] := by
  simp [identities, add]

theorem sending_add (f : FanOut) (p : PendingSend) :
    (f.add p).sending i = f.sending i + if p.isFor i then 1 else 0 := by
  simp [sending, add, List.countP_append, List.countP_singleton]

/-- A send that is answered while it is handed over might have been waited for. -/
theorem settle_add (f : FanOut) (p : PendingSend) (result : SendResult) :
    (f.add p).settle p result = f.settle p result := by
  unfold settle add
  simp [List.filter_append]

theorem identities_settle (f : FanOut) (p : PendingSend) (result : SendResult) :
    (f.settle p result).identities.Sublist f.identities := by
  unfold identities
  rw [pending_settle]
  exact List.filter_sublist.map _

end FanOut

/-! ## Routes -/

/-- How many handshakes for a contact a fan-out that goes on waits for. -/
def FanOut.held (f : Option FanOut) (i : Identity) : Nat :=
  (f.map (·.sending i)).getD 0

/-- The route's sends go to different devices. -/
def Route.Distinct : Route → Prop
  | .fanningOut f => f.Distinct
  | _ => True

/-- How many handshakes for a contact a route waits for. -/
def Route.sending (i : Identity) : Route → Nat
  | .fanningOut f => f.sending i
  | _ => 0

namespace RouteStep

def Distinct : RouteStep → Prop
  | .waits r => r.Distinct
  | _ => True

def sending (i : Identity) : RouteStep → Nat
  | .waits r => r.sending i
  | _ => 0

end RouteStep

namespace Node

variable {n : Node} {f : FanOut} {p : PendingSend} {d : Destination} {w : Surroundings}
  {h : Identity → Nat}

/-- The answer for one send. -/
theorem settleSend_leads {result : SendResult} (hk : n.store.Keyed) :
    Leads False ((n.settleSend w p result).1 = false) n
      (fun i => h i + if p.isFor i then 1 else 0) (n.settleSend w p result).2 h := by
  have hnote (h : Identity → Nat) :
      Leads False False n h (n.note (.answered p.envelope result)) h :=
    leads_note hk fun _ => rfl
  unfold settleSend PendingSend.isFor
  by_cases hp : p.isHandshake = true
  · simp only [hp, if_true, Bool.true_and, decide_eq_true_eq]
    exact (hnote _).trans (settleHandshake_leads _ _ (hnote h).keyed)
  · rw [if_neg hp]
    simp only [hp, Bool.false_and, Bool.false_eq_true, if_false, Nat.add_zero]
    exact (hnote h).alive id

/-- The answer for one send of a fan-out. -/
theorem settleIn_leads {result : SendResult} (hk : n.store.Keyed) (hd : f.Distinct)
    (hp : p ∈ f.pending) :
    Leads False ((n.settleIn w f p result).1 = none) n f.sending (n.settleIn w f p result).2
      (FanOut.held (n.settleIn w f p result).1) := by
  have hs : Leads False ((n.settleSend w p result).1 = false) n f.sending
      (n.settleSend w p result).2 (f.settle p result).sending := by
    rw [show f.sending = fun i => (f.settle p result).sending i + if p.isFor i then 1 else 0 from
      funext fun i => f.sending_settle hd hp result]
    exact settleSend_leads hk
  unfold settleIn
  rcases hx : n.settleSend w p result with ⟨_ | _, n'⟩ <;> rw [hx] at hs
  · exact hs.dead rfl
  · exact hs.alive (by simp)

theorem settleIn_add (n : Node) (w : Surroundings) (f : FanOut) (p : PendingSend)
    (result : SendResult) : n.settleIn w f p result = n.settleIn w (f.add p) p result := by
  unfold settleIn
  rw [FanOut.settle_add]

theorem identities_settleIn {result : SendResult} :
    ∀ f' ∈ (n.settleIn w f p result).1, f'.identities.Sublist f.identities := by
  unfold settleIn
  rcases n.settleSend w p result with ⟨_ | _, n'⟩
  · exact fun f' h => by cases h
  · rintro _ ⟨⟩
    exact FanOut.identities_settle f p result

/-- A send was handed over: it is waited for, or answered on the spot. -/
theorem handOver_leads (hk : n.store.Keyed) (hd : (f.add p).Distinct) {out : Option FanOut × Node}
    (hout : out = match w.atOnce p.envelope with
      | none => (some (f.add p), n)
      | some result => n.settleIn w f p result) :
    Leads False (out.1 = none) n (f.add p).sending out.2 (FanOut.held out.1) ∧
      ∀ f' ∈ out.1, f'.identities.Sublist (f.add p).identities := by
  cases hw : w.atOnce p.envelope with
  | none =>
    rw [hw] at hout
    subst hout
    refine ⟨.refl hk, ?_⟩
    rintro _ ⟨⟩
    exact .refl _
  | some result =>
    rw [hw] at hout
    dsimp only at hout
    rw [settleIn_add] at hout
    subst hout
    exact ⟨settleIn_leads hk hd (by simp [FanOut.add]), identities_settleIn⟩

/-- The send for one more destination starts. -/
theorem launch_leads (hk : n.store.Keyed) (hd : (f.identities ++ [d.identity]).Nodup) :
    Leads False ((n.launch w f d).1 = none) n f.sending (n.launch w f d).2
      (FanOut.held (n.launch w f d).1) ∧
    ∀ f' ∈ (n.launch w f d).1, f'.identities.Sublist (f.identities ++ [d.identity]) := by
  unfold launch attempt
  rcases hx : (prepareSend w f.message d).attempt n.store with ⟨result, s'⟩
  rcases prepareSend_cases hk hx with
    ⟨p, rfl, rfl, hph, hrec, hfree, hpends⟩ | ⟨hdrift, hres⟩
  · rw [← FanOut.identities_add] at hd ⊢
    have hsending : (f.add p).sending = fun i =>
        f.sending i + if p.envelope.recipient = i then 1 else 0 := funext fun i => by
      simp [FanOut.sending_add, PendingSend.isFor, hph, hrec]
    have hhand : Leads False False n f.sending
        ({ n with store := s' }.note (.handed p.envelope p.isHandshake)) (f.add p).sending := by
      rw [hsending, hph]
      exact handed_leads (.inr (hrec ▸ hfree)) (hrec ▸ hpends)
    obtain ⟨hl, hsub⟩ := handOver_leads (w := w) hhand.keyed hd rfl
    exact ⟨hhand.trans hl, hsub⟩
  · have hstore : Leads False False n f.sending { n with store := s' } f.sending :=
      .of_drift hdrift rfl rfl
    rcases result with e | _ | p
    · refine ⟨hstore.alive id, ?_⟩
      rintro _ ⟨⟩
      exact List.sublist_append_left _ _
    · refine ⟨hstore.alive id, ?_⟩
      rintro _ ⟨⟩
      exact List.sublist_append_left _ _
    · obtain ⟨rfl, hph⟩ := hres p rfl
      rw [← FanOut.identities_add] at hd ⊢
      have hsame : (f.add p).sending = f.sending := funext fun i => by
        rw [FanOut.sending_add, PendingSend.isFor, hph]
        rfl
      have hhand : Leads False False n f.sending
          ({ n with store := s' }.note (.handed p.envelope p.isHandshake)) (f.add p).sending := by
        rw [hsame]
        refine hstore.trans (leads_note hstore.keyed fun i => ?_)
        rw [hph]
        rfl
      obtain ⟨hl, hsub⟩ := handOver_leads (w := w) hhand.keyed hd rfl
      exact ⟨hhand.trans hl, hsub⟩

theorem launchAll_leads (w : Surroundings) :
    ∀ (ds : List Destination) (f : FanOut) (n : Node), n.store.Keyed →
      (f.identities ++ ds.map (·.identity)).Nodup →
      Leads False ((launchAll w ds f n).1 = none) n f.sending (launchAll w ds f n).2
        (FanOut.held (launchAll w ds f n).1) ∧
      ∀ f' ∈ (launchAll w ds f n).1, f'.Distinct
  | [], f, n, hk, hd => by
    refine ⟨.refl hk, ?_⟩
    rintro _ ⟨⟩
    simpa [FanOut.Distinct] using hd
  | d :: ds, f, n, hk, hd => by
    -- the devices already sent to and those to come differ, however many have settled
    rw [List.map_cons, ← List.singleton_append, ← List.append_assoc] at hd
    obtain ⟨hl, hsub⟩ := launch_leads (w := w) hk (List.nodup_append.mp hd).1
    unfold launchAll
    rcases hx : n.launch w f d with ⟨_ | f', n'⟩ <;> rw [hx] at hl hsub
    · exact ⟨hl, fun f' h => by cases h⟩
    · obtain ⟨hl', hd'⟩ := launchAll_leads w ds f' n' hl.keyed
        (((hsub f' rfl).append_right _).nodup hd)
      exact ⟨(hl.alive (by simp)).trans hl', hd'⟩

/-- A piece of a route: it waited for `h`, and it waits for the rest or dies. -/
structure RouteGoes (n : Node) (h : Identity → Nat) (out : RouteStep × Node) : Prop where
  leads : Leads False (out.1 = .dies) n h out.2 (out.1.sending ·)
  distinct : out.1.Distinct

theorem checkFanOut_goes {n₁ : Node} {o : Option FanOut}
    (hl : Leads False (o = none) n h n₁ (FanOut.held o)) (hd : ∀ f ∈ o, f.Distinct) :
    RouteGoes n h (checkFanOut o, n₁) := by
  unfold checkFanOut
  cases o with
  | none => exact ⟨hl.dead rfl, trivial⟩
  | some f =>
    have hl : Leads False False n h n₁ (FanOut.held (some f)) := hl.alive (by simp)
    by_cases hf : f.pending.isEmpty
    · have hzero : FanOut.held (some f) = fun _ => 0 := funext fun i => by
        simp [FanOut.held, FanOut.sending, List.isEmpty_iff.mp hf]
      rw [hzero] at hl
      simp only [hf, if_true]
      exact ⟨hl.alive id, trivial⟩
    · simp only [hf, Bool.false_eq_true, if_false]
      exact ⟨hl.alive id, hd f rfl⟩

theorem fanOut_goes {m : OutgoingMessage} {ds : List Destination} (hk : n.store.Keyed)
    (hd : (ds.map (·.identity)).Nodup) : RouteGoes n (fun _ => 0) (n.fanOut w m ds) := by
  obtain ⟨hl, hd'⟩ := launchAll_leads w ds (FanOut.start m) n hk hd
  exact checkFanOut_goes hl hd'

theorem finishDirect_leads {m : OutgoingMessage} {thread : ThreadRow} {envelope : OutgoingEnvelope}
    {result : SendResult} (hk : n.store.Keyed) :
    Leads False False n h (n.finishDirect w m thread envelope result).2 h := by
  have hnote : Leads False False n h (n.note (.answered envelope result)) h :=
    leads_note hk fun _ => rfl
  unfold finishDirect
  cases result with
  | error e => exact hnote
  | ok =>
    dsimp only
    split
    · exact hnote.trans (leads_effect hnote.keyed (StoreM.drifts_recordThreadActivity _ _ _))
    · exact hnote

theorem drifts_threadOf (m : OutgoingMessage) : (threadOf m).Drifts := by
  unfold threadOf
  split <;> exact StoreM.drifts_ensured _ _ _ _

theorem sendDirect_goes {m : OutgoingMessage} (hk : n.store.Keyed) :
    RouteGoes n (fun _ => 0) (n.sendDirect w m) := by
  have ha : Leads False False n (fun _ => 0) (n.attempt (threadOf m)).2 fun _ => 0 :=
    leads_attempt hk (drifts_threadOf m)
  unfold sendDirect
  rcases hx : n.attempt (threadOf m) with ⟨e | thread, n'⟩ <;> rw [hx] at ha
  · exact ⟨ha.alive id, trivial⟩
  · have hn : Leads False False n (fun _ => 0)
        (n'.note (.handed (m.envelopeFor m.recipient thread.id) false)) fun _ => 0 :=
      ha.trans (leads_note ha.keyed fun _ => rfl)
    dsimp only
    split
    · exact ⟨hn.alive id, trivial⟩
    · exact ⟨(hn.trans (finishDirect_leads hn.keyed)).alive id, trivial⟩

end Node

/-! ## Resolving -/

/-- A resolve that is over has found different devices. -/
def ResolveStep.Distinct : ResolveStep → Prop
  | .ends (.ok ds) => (ds.map (·.identity)).Nodup
  | _ => True

theorem drift_persist {s : Store} (hk : s.Keyed) (master : Identity) (fetched : List DeviceLink) :
    s.Drift (LinkCache.persist master fetched s) := by
  have hreplace (links : List DeviceLink) : (Store.replaceDeviceLinks master links).Drifts :=
    StoreM.drifts_elsewhere fun _ => rfl
  have hupsert (l : DeviceLink) : (Store.upsertDeviceLink l).Drifts :=
    StoreM.drifts_elsewhere fun _ => rfl
  have h := hreplace (fetched.filter (·.master.identity = master)) s hk
  exact h.trans (StoreM.drift_foldl_effect hupsert _ _ h.keyed)

theorem drift_refresh {c c' : LinkCache} {s s' : Store} {instant : Nat} {x m : Identity}
    {answer : DirectoryAnswer} (hk : s.Keyed) (h : c.refresh s instant x m answer = .ok (c', s')) :
    s.Drift s' := by
  unfold LinkCache.refresh at h
  split at h
  · cases h
    exact drift_persist hk _ _
  · cases h
    exact .refl hk
  · cases h

/-- A resolve that goes on leaves the standings alone; if it is over, its devices differ. -/
theorem resume_goes {s : Store} (hk : s.Keyed) (r : Resolving) (interval : Duration)
    (instant : Nat) (answer : DirectoryAnswer) (c : LinkCache) :
    s.Drift (r.resume interval instant answer c s).2.2 ∧
      (r.resume interval instant answer c s).1.Distinct := by
  unfold Resolving.resume
  cases r with
  | known x m =>
    dsimp only
    split
    · exact ⟨.refl hk, trivial⟩
    · next c' s' hx =>
      split
      · exact ⟨drift_refresh hk hx, trivial⟩
      · exact ⟨drift_refresh hk hx, destinationsIn_nodup _ _⟩
  | revealed x m =>
    dsimp only
    split
    · exact ⟨.refl hk, trivial⟩
    · next c' s' hx => exact ⟨drift_refresh hk hx, destinationsIn_nodup _ _⟩

theorem distinct_resolve (c : LinkCache) (interval : Duration) (instant : Nat) (x : Identity) :
    (c.resolve interval instant x).Distinct := by
  unfold LinkCache.resolve
  split
  · trivial
  · exact destinationsIn_nodup _ _

namespace Node

variable {n : Node} {w : Surroundings} {h : Identity → Nat} {m : OutgoingMessage}

theorem resumeResolve_leads (clock : Clock) (r : Resolving) (answer : DirectoryAnswer)
    (hk : n.store.Keyed) :
    Leads False False n h (n.resumeResolve clock r answer).2 h ∧
      (n.resumeResolve clock r answer).1.Distinct := by
  obtain ⟨hd, hs⟩ := resume_goes hk r n.settings.refreshInterval clock.instant answer n.links
  exact ⟨.of_drift hd rfl rfl, hs⟩

/-! ## From one wait of a route to the next -/

theorem continueRoute_goes {step : ResolveStep} (hk : n.store.Keyed) (hs : step.Distinct) :
    RouteGoes n (fun _ => 0) (n.continueRoute w m step) := by
  unfold continueRoute
  split
  · exact ⟨.refl hk, trivial⟩
  · exact fanOut_goes hk hs
  · exact sendDirect_goes hk

theorem route_goes (hk : n.store.Keyed) : RouteGoes n (fun _ => 0) (n.route w m) := by
  unfold route
  split
  · exact sendDirect_goes hk
  · exact continueRoute_goes hk (distinct_resolve _ _ _ _)

/-- A wait that an answer does not end. -/
theorem waits_goes {r : Route} (hk : n.store.Keyed) (hd : r.Distinct) :
    RouteGoes n (r.sending ·) (.waits r, n) :=
  ⟨.refl hk, hd⟩

theorem resumeRoute_goes {r : Route} {answer : DirectoryAnswer} (hk : n.store.Keyed)
    (hd : r.Distinct) : RouteGoes n (r.sending ·) (n.resumeRoute w r answer) := by
  unfold resumeRoute
  split
  · next m q =>
    obtain ⟨hl, hs⟩ := resumeResolve_leads (h := fun _ => 0) w.clock q answer hk
    have hgo := continueRoute_goes (w := w) (m := m) hl.keyed hs
    exact ⟨hl.trans hgo.leads, hgo.distinct⟩
  · exact waits_goes hk hd

theorem answerRoute_goes {r : Route} {x : Identity} {result : SendResult} (hk : n.store.Keyed)
    (hd : r.Distinct) : RouteGoes n (r.sending ·) (n.answerRoute w r x result) := by
  cases r with
  | resolving m q => exact waits_goes hk hd
  | direct m thread envelope => exact ⟨(finishDirect_leads hk).alive id, trivial⟩
  | fanningOut f =>
    unfold answerRoute
    cases hp : f.pending.find? (·.destination.identity = x) with
    | none =>
      simp only [hp]
      exact waits_goes hk hd
    | some p =>
      simp only [hp]
      exact checkFanOut_goes (settleIn_leads hk hd (List.mem_of_find?_eq_some hp))
        fun f' hf' => (identities_settleIn f' hf').nodup hd

end Node

end Courier
