import Courier.Proofs.Node.Events
import Courier.Proofs.Trust.Overflow

/-!
# How a fan-out starts its sends

What is prepared for the destinations (`launches`) does not depend on what the transport answers:
that only decides what becomes of each send, and whether the task gets as far as the next one.

* `PendingSend.Kills`: an answer kills the task exactly if it delivers a handshake whose expiry is no
  timestamp. A launch is *fatal* if it is answered so on the spot.
* `launchAll_fst`, `handed_launchAll`: a fan-out takes over what was prepared (`FanOut.take`), and
  hands it to the transport, up to the first fatal launch.
* `System.FansOut`: the event in which a route has its destinations and starts the sends to them.
-/

namespace Courier

/-! ## Lists up to an element -/

section UpTo

variable {α : Type} {p : α → Bool} {a : α} {l : List α}

/-- A list up to the first element with a property, this one included. -/
def upTo (p : α → Bool) : List α → List α
  | [] => []
  | a :: l => if p a then [a] else a :: upTo p l

theorem upTo_prefix (p : α → Bool) : ∀ l : List α, upTo p l <+: l
  | [] => List.prefix_refl []
  | a :: l => by
    unfold upTo
    split
    · exact ⟨l, rfl⟩
    · exact List.cons_prefix_cons.mpr ⟨rfl, upTo_prefix p l⟩

theorem mem_of_mem_upTo (h : a ∈ upTo p l) : a ∈ l := by
  have hprefix : upTo p l <+: l := upTo_prefix p l
  exact hprefix.subset h

theorem upTo_of_forall (h : ∀ a ∈ l, p a = false) : upTo p l = l := by
  induction l with
  | nil => rfl
  | cons a l ih =>
    rw [upTo, h a (.head _), if_neg Bool.false_ne_true, ih fun b hb => h b (.tail _ hb)]

/-- Nothing is left out exactly if the property holds of the last element at most. -/
theorem upTo_eq_self_iff : upTo p l = l ↔ ∀ a ∈ l.dropLast, p a = false := by
  induction l with
  | nil => simp [upTo]
  | cons a l ih =>
    cases l with
    | nil => simp [upTo]
    | cons b l =>
      rw [upTo, List.dropLast_cons_of_ne_nil (List.cons_ne_nil b l), List.forall_mem_cons, ← ih]
      cases p a <;> simp

/-- The first element with a property is in the list up to it. -/
theorem exists_mem_upTo (h : l.any p = true) :
    ∃ a ∈ upTo p l, p a = true := by
  induction l with
  | nil => cases h
  | cons a l ih =>
    unfold upTo
    by_cases ha : p a = true
    · exact ⟨a, by simp [ha], ha⟩
    · rw [if_neg ha]
      rw [List.any_cons, Bool.or_eq_true] at h
      obtain ⟨b, hb, hpb⟩ := ih (h.resolve_left ha)
      exact ⟨b, .tail _ hb, hpb⟩

/-- Elements that are left out by a choice do not matter for the first one with a property. -/
theorem filterMap_upTo {β : Type} {p : β → Bool} {g : α → Option β} (l : List α) :
    (upTo (fun a => (g a).any p) l).filterMap g = upTo p (l.filterMap g) := by
  induction l with
  | nil => rfl
  | cons a l ih =>
    rw [upTo]
    cases ha : g a with
    | none => simp [ha, ih]
    | some b => cases hb : p b <;> simp [ha, hb, upTo, ih]

end UpTo

/-! ## Launches -/

/-- What was prepared for a destination. -/
structure Launch where
  destination : Destination
  prepared : Except StoreError (Option PendingSend)

/-- The send of a launch, if there is one. -/
def Launch.send? (l : Launch) : Option PendingSend :=
  match l.prepared with
  | .ok p => p
  | .error _ => none

/-- What is prepared for the destinations of a message, one after the other. -/
def launches (w : Surroundings) (m : OutgoingMessage) : List Destination → Store → List Launch
  | [], _ => []
  | d :: ds, s =>
    ⟨d, ((prepareSend w m d).attempt s).1⟩ ::
      launches w m ds ((prepareSend w m d).attempt s).2

/-- What the transport answers does not count. -/
theorem launches_congr {w w' : Surroundings} {m : OutgoingMessage} (hclock : w'.clock = w.clock)
    (hid : w'.messageId = w.messageId) :
    ∀ {ds : List Destination} {s : Store}, launches w' m ds s = launches w m ds s
  | [], _ => rfl
  | d :: ds, s => by
    have hprepare : prepareSend w' m d = prepareSend w m d := by
      unfold prepareSend
      rw [hclock, hid]
    rw [launches, launches, hprepare, launches_congr hclock hid]

theorem launches_destinations (w : Surroundings) (m : OutgoingMessage) :
    ∀ (ds : List Destination) (s : Store), (launches w m ds s).map (·.destination) = ds
  | [], _ => rfl
  | d :: ds, _ => congrArg (d :: ·) (launches_destinations w m ds _)

theorem prepareSend_destination {w : Surroundings} {m : OutgoingMessage} {d : Destination}
    {s : Store} {p : PendingSend} (h : ((prepareSend w m d).attempt s).1 = .ok (some p)) :
    p.destination = d := by
  unfold prepareSend at h
  simp only [StoreM.attempt_bind] at h
  rcases hd : (decideHandshake w.clock d.identity m.kind).attempt s with ⟨_ | _ | _ | _, s₁⟩ <;>
    simp only [hd, StoreM.attempt_bind] at h
  · cases h
  · rcases hg : (Store.getOrCreateContactThread d.identity
      (decide (d.identity ≠ m.recipient))).attempt s₁ with ⟨_ | row, s₂⟩ <;>
      rw [hg] at h <;> cases h
    rfl
  · rcases hb : (buildHandshake w.clock (w.messageId d.identity) d.identity
      (decide (d.identity ≠ m.recipient))).attempt s₁ with ⟨_ | built, s₂⟩ <;>
      rw [hb] at h <;> cases h
    rfl
  · cases h

/-- A launch sends to its own destination. -/
theorem destination_of_launches {w : Surroundings} {m : OutgoingMessage} {ds : List Destination}
    {s : Store} {l : Launch} (hl : l ∈ launches w m ds s) {p : PendingSend}
    (hp : l.prepared = .ok (some p)) : p.destination = l.destination := by
  induction ds generalizing s with
  | nil => cases hl
  | cons d ds ih =>
    rcases List.mem_cons.mp hl with rfl | hl
    · exact prepareSend_destination hp
    · exact ih hl

/-- The task that waits for the send dies of this answer: it delivers a handshake, and the expiry of
the handshake is no timestamp. -/
def PendingSend.Kills (settings : Settings) (clock : Clock) (p : PendingSend)
    (result : SendResult) : Prop :=
  p.isHandshake = true ∧ result.isOk = true ∧
    addTimestamps? clock.now (Int64.ofNat settings.handshakeExpiry.millis) = none

instance (settings : Settings) (clock : Clock) (p : PendingSend) (result : SendResult) :
    Decidable (p.Kills settings clock result) :=
  inferInstanceAs (Decidable (_ ∧ _ ∧ _))

/-- The task dies of what the transport answers on the spot. -/
def PendingSend.fatal (settings : Settings) (w : Surroundings) (p : PendingSend) : Bool :=
  (w.atOnce p.envelope).any fun result => p.Kills settings w.clock result

/-- The task dies while it launches the send. -/
def Launch.fatal (settings : Settings) (w : Surroundings) (l : Launch) : Bool :=
  l.send?.any (·.fatal settings w)

/-- The fan-out takes over what was prepared for a destination. -/
def FanOut.take (atOnce : OutgoingEnvelope → Option SendResult) (f : FanOut) (l : Launch) : FanOut :=
  match l.prepared with
  | .error e => f.fail (.store l.destination.identity e)
  | .ok none => f.succeed l.destination .skippedPendingHandshake
  | .ok (some p) =>
    match atOnce p.envelope with
    | none => f.add p
    | some result => f.settle p result

theorem FanOut.message_take (atOnce : OutgoingEnvelope → Option SendResult) (f : FanOut)
    (l : Launch) : (f.take atOnce l).message = f.message := by
  unfold take
  split
  · rfl
  · rfl
  · split
    · rfl
    · unfold settle
      split <;> rfl

/-- The envelope of a journal entry that was handed to the transport, and whether it carries a
generated handshake. -/
def JournalEntry.handed? : JournalEntry → Option (OutgoingEnvelope × Bool)
  | .handed envelope generated => some (envelope, generated)
  | _ => none

/-- The envelope of a send as the journal has it. -/
def PendingSend.entry (p : PendingSend) : OutgoingEnvelope × Bool :=
  (p.envelope, p.isHandshake)

/-- What a launch hands to the transport. -/
def Launch.sent? (l : Launch) : Option (OutgoingEnvelope × Bool) :=
  l.send?.map (·.entry)

namespace Node

variable {n : Node} {w : Surroundings} {f : FanOut} {p : PendingSend} {result : SendResult}
  {d : Destination}

/-- What the node has handed to the transport so far. -/
def handed (n : Node) : List (OutgoingEnvelope × Bool) :=
  n.journal.filterMap (·.handed?)

theorem handed_note (e : JournalEntry) : (n.note e).handed = n.handed ++ e.handed?.toList := by
  unfold handed note
  rw [List.filterMap_append]
  cases h : e.handed? <;> simp [h]

/-- What two nodes have in common that differ by an answer of the transport. -/
structure Settles (n n' : Node) : Prop where
  store : n'.store = n.store
  handed : n'.handed = n.handed

theorem settleSend_settles (n : Node) (w : Surroundings) (p : PendingSend) (result : SendResult) :
    n.Settles (n.settleSend w p result).2 := by
  have hnote : n.Settles (n.note (.answered p.envelope result)) := by
    refine ⟨rfl, ?_⟩
    rw [handed_note]
    simp [JournalEntry.handed?]
  unfold settleSend settleHandshake
  dsimp only
  split
  · split <;> exact ⟨hnote.store, hnote.handed⟩
  · exact hnote

theorem settleSend_dies (n : Node) (w : Surroundings) (p : PendingSend) (result : SendResult) :
    (n.settleSend w p result).1 = false ↔ p.Kills n.settings w.clock result := by
  unfold settleSend PendingSend.Kills
  by_cases hp : p.isHandshake = true
  · simp only [hp, if_true, true_and]
    unfold settleHandshake HandshakeDelivery.settlement?
    cases result with
    | error e => simp [Except.isOk, Except.toBool]
    | ok _ =>
      rw [note]
      cases addTimestamps? w.clock.now (Int64.ofNat n.settings.handshakeExpiry.millis) <;>
        simp [Except.isOk, Except.toBool]
  · simp [hp]

theorem settleIn_settles : n.Settles (n.settleIn w f p result).2 := by
  have h := settleSend_settles n w p result
  unfold settleIn
  rcases hx : n.settleSend w p result with ⟨_ | _, n'⟩ <;> rw [hx] at h <;> exact h

theorem settleIn_fst (n : Node) (w : Surroundings) (f : FanOut) (p : PendingSend)
    (result : SendResult) : (n.settleIn w f p result).1 =
    if p.Kills n.settings w.clock result then none else some (f.settle p result) := by
  have h := settleSend_dies n w p result
  unfold settleIn
  rcases hx : n.settleSend w p result with ⟨_ | _, n'⟩ <;> rw [hx] at h
  · rw [if_pos (h.mp rfl)]
  · rw [if_neg fun hk => absurd (h.mpr hk) (by simp)]

/-! ## One launch -/

/-- The launch of the send to a destination. -/
def launchOf (n : Node) (w : Surroundings) (m : OutgoingMessage) (d : Destination) : Launch :=
  ⟨d, ((prepareSend w m d).attempt n.store).1⟩

theorem launch_fst : (n.launch w f d).1 =
    if (n.launchOf w f.message d).fatal n.settings w then none
    else some (f.take w.atOnce (n.launchOf w f.message d)) := by
  unfold launch launchOf attempt Launch.fatal Launch.send? FanOut.take
  rcases (prepareSend w f.message d).attempt n.store with ⟨e | _ | p, s⟩
  · simp
  · simp
  · dsimp only [Option.any]
    unfold PendingSend.fatal
    split
    · next hw => simp [hw, FanOut.add]
    · next result hw =>
      rw [settleIn_fst]
      by_cases hkills : p.Kills n.settings w.clock result <;> simp [hw, hkills, note]

theorem launch_store :
    (n.launch w f d).2.store = ((prepareSend w f.message d).attempt n.store).2 := by
  unfold launch attempt
  rcases (prepareSend w f.message d).attempt n.store with ⟨e | _ | p, s⟩
  · rfl
  · rfl
  · dsimp only
    split
    · rfl
    · exact settleIn_settles.store

theorem handed_launch : (n.launch w f d).2.handed =
    n.handed ++ (n.launchOf w f.message d).sent?.toList := by
  unfold launch launchOf attempt Launch.sent? Launch.send?
  rcases (prepareSend w f.message d).attempt n.store with ⟨e | _ | p, s⟩
  · simp [handed]
  · simp [handed]
  · have hnote : ({ n with store := s }.note (.handed p.envelope p.isHandshake)).handed =
        n.handed ++ [p.entry] := handed_note _
    dsimp only
    split
    · exact hnote
    · exact settleIn_settles.handed.trans hnote

/-! ## All launches of a fan-out -/

theorem launches_cons (ds : List Destination) :
    launches w f.message (d :: ds) n.store = n.launchOf w f.message d ::
      launches w f.message ds (n.launch w f d).2.store := by
  rw [launch_store]
  rfl

/-- A fan-out goes on after a launch exactly if the launch is not fatal. -/
theorem launchAll_cons (ds : List Destination) :
    launchAll w (d :: ds) f n =
      if (n.launchOf w f.message d).fatal n.settings w then (none, (n.launch w f d).2)
      else launchAll w ds (f.take w.atOnce (n.launchOf w f.message d)) (n.launch w f d).2 := by
  have hfst := launch_fst (n := n) (w := w) (f := f) (d := d)
  rw [launchAll]
  split
  · next n' hx =>
    rw [hx] at hfst
    split
    · rw [hx]
    · next hlives => simp [hlives] at hfst
  · next f' n' hx =>
    rw [hx] at hfst
    split
    · next hfatal => simp [hfatal] at hfst
    · next hlives =>
      simp only [hlives, Bool.false_eq_true, if_false, Option.some_inj] at hfst
      rw [hfst, hx]

/-- A fan-out takes over what was prepared, unless its task dies on the way. -/
theorem launchAll_fst (w : Surroundings) (ds : List Destination) (f : FanOut) (n : Node) :
    (launchAll w ds f n).1 =
      if (launches w f.message ds n.store).any (·.fatal n.settings w) then none
      else some ((launches w f.message ds n.store).foldl (FanOut.take w.atOnce) f) := by
  induction ds generalizing f n with
  | nil => rfl
  | cons d ds ih =>
    rw [launchAll_cons, launches_cons, List.any_cons, List.foldl_cons]
    split
    · next hfatal => simp [hfatal]
    · next hlives =>
      rw [ih, FanOut.message_take, launch_settings]
      simp [hlives]

/-- What a fan-out hands to the transport is what was prepared, up to the launch that its task dies
of. -/
theorem handed_launchAll (w : Surroundings) (ds : List Destination) (f : FanOut) (n : Node) :
    (launchAll w ds f n).2.handed = n.handed ++
      (upTo (·.fatal n.settings w) (launches w f.message ds n.store)).filterMap (·.sent?) := by
  induction ds generalizing f n with
  | nil => simp [launchAll, launches, upTo]
  | cons d ds ih =>
    rw [launchAll_cons, launches_cons, upTo]
    split
    · rw [handed_launch]
      cases hs : (n.launchOf w f.message d).sent? <;> simp [hs]
    · rw [ih, FanOut.message_take, launch_settings, handed_launch, List.append_assoc]
      cases hs : (n.launchOf w f.message d).sent? <;> simp [hs]

end Node

/-! ## Answers for a fan-out that waits -/

/-- The send that an answer is for. -/
def FanOut.answered? (f : FanOut) : Answer → Option (PendingSend × SendResult)
  | .delivery identity result =>
    (f.pending.find? (·.destination.identity = identity)).map (·, result)
  | _ => none

theorem FanOut.mem_of_answered? {f : FanOut} {a : Answer} {p : PendingSend} {result : SendResult}
    (h : f.answered? a = some (p, result)) : p ∈ f.pending := by
  cases a with
  | delivery identity r =>
    obtain ⟨q, hq, heq⟩ := Option.map_eq_some_iff.mp h
    cases heq
    exact List.mem_of_find?_eq_some hq
  | _ => cases h

/-- What a fan-out makes of an answer. -/
theorem Node.answer_fanningOut (n : Node) (w : Surroundings) (f : FanOut) (a : Answer) :
    n.answer w (.route (.fanningOut f)) a =
      match f.answered? a with
      | none => (.waits (.route (.fanningOut f)), n)
      | some (p, result) =>
        ((checkFanOut (n.settleIn w f p result).1).toCall, (n.settleIn w f p result).2) := by
  cases a with
  | delivery identity result =>
    unfold answer answerRoute FanOut.answered?
    dsimp only
    cases f.pending.find? (·.destination.identity = identity) <;> rfl
  | links a => rfl
  | removal result => rfl
  | verdict v => rfl

/-! ## The event in which a fan-out starts -/

/-- The master comes first, and it is the only one. -/
theorem destinationsIn_one_master (links : List DeviceLink) (i : Identity) :
    (destinationsIn links i).countP (·.isMaster) = 1 := by
  unfold destinationsIn
  simp [List.countP_map, Function.comp_def]

namespace System

variable {s : System} {id : Nat} {m : OutgoingMessage} {ds : List Destination} {n : Node}
  {e : Event}

/-- Call `id` is a route of `m` that has its destinations, because they were known when it began or
because the directory has answered; the sends start on the node `n`. -/
inductive FansOut (s : System) (id : Nat) (m : OutgoingMessage) (ds : List Destination) :
    Node → Event → Prop where
  | begins (hfree : s.calls.lookup id = none)
      (hkind : (m.kind.isLinkAdmin || m.thread.isGroup) = false)
      (hds : s.node.links.resolve s.node.settings.refreshInterval s.clock.instant m.recipient =
        .ends (.ok ds)) :
      FansOut s id m ds s.node (.begin id (.route m))
  | resumes (r : Resolving) (a : DirectoryAnswer)
      (hwaits : s.calls.lookup id = some (.route (.resolving m r)))
      (hds : (s.node.resumeResolve s.clock r a).1 = .ends (.ok ds)) :
      FansOut s id m ds (s.node.resumeResolve s.clock r a).2 (.answer id (.links a))

namespace FansOut

theorem step_eq (h : s.FansOut id m ds n e) (x : Exchange) :
    s.step x e = s.settleCall id ((n.fanOut (s.surroundings x) m ds).1.toCall,
      (n.fanOut (s.surroundings x) m ds).2) := by
  cases h with
  | begins hfree hkind hds =>
    rw [step_begin hfree]
    unfold Node.begin Node.route
    simp only [hkind, Bool.false_eq_true, if_false]
    rw [show (s.surroundings x).clock = s.clock from rfl, hds]
    rfl
  | resumes r a hwaits hds =>
    rw [step_answer hwaits]
    unfold Node.answer Node.resumeRoute
    dsimp only
    rw [show (s.surroundings x).clock = s.clock from rfl, hds]
    rfl

theorem step_node (h : s.FansOut id m ds n e) (x : Exchange) :
    (s.step x e).node = (Node.launchAll (s.surroundings x) ds (FanOut.start m) n).2 := by
  rw [h.step_eq x, settleCall_node]
  rfl

/-- The destinations are those that the links give. -/
theorem destinations (h : s.FansOut id m ds n e) : ∃ links i, ds = destinationsIn links i := by
  cases h with
  | begins hfree hkind hds =>
    unfold LinkCache.resolve at hds
    split at hds
    · cases hds
    · cases hds
      exact ⟨_, _, rfl⟩
  | resumes r a hwaits hds =>
    unfold Node.resumeResolve Resolving.resume at hds
    dsimp only at hds
    split at hds
    · split at hds
      · cases hds
      · split at hds
        · cases hds
        · cases hds
          exact ⟨_, _, rfl⟩
    · split at hds
      · cases hds
      · cases hds
        exact ⟨_, _, rfl⟩

theorem nodup (h : s.FansOut id m ds n e) : (ds.map (·.identity)).Nodup := by
  obtain ⟨links, i, rfl⟩ := h.destinations
  exact destinationsIn_nodup links i

theorem one_master (h : s.FansOut id m ds n e) : ds.countP (·.isMaster) = 1 := by
  obtain ⟨links, i, rfl⟩ := h.destinations
  exact destinationsIn_one_master links i

/-- The node differs from the one before the event by its links at most. -/
theorem settings (h : s.FansOut id m ds n e) : n.settings = s.node.settings := by
  cases h <;> rfl

theorem handed (h : s.FansOut id m ds n e) : n.handed = s.node.handed := by
  cases h <;> rfl

theorem store_fixes (h : s.FansOut id m ds n e) : s.node.store.Fixes (·.threads) n.store := by
  cases h with
  | begins hfree hkind hds => exact StoreM.fixes_refl _
  | resumes r a hwaits hds =>
    rw [Node.resumeResolve_eq]
    exact LinkWork.apply_fixes (fun _ _ => rfl) _ _ _ _

end FansOut

end System

end Courier
