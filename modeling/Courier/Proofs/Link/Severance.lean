import Courier.Config.Basic
import Courier.Proofs.Link.Agreement

/-!
# An unlink request on its own

What an unlink request asks the directory and is answered is an `UnlinkTalk`. While nothing but such
answers reaches the node, the request is always at one of four places (`Node.UnlinkCourse`), which
say what it has done so far.

* `Node.receiveUnlink_course`, `UnlinkCourse.answer`: it begins at one of them, and an answer takes it from
  one to the next. `System.unlink_course`: so it is after every run of answers.
* `Node.Severs`: the link with the master is gone, and nothing else but the mark of an unlinked
  device and the request to wipe its data is new.
* `System.unlink_all_or_nothing`: an unlink request severs the link, or it changes nothing at all.
-/

namespace Courier

/-! ## What is asked and answered -/

/-- A question of an unlink request to the directory, and its answer. -/
inductive UnlinkTalk where
  | viewed (device : Identity) (view : DirectoryAnswer)
  | removed (link : DeviceLink) (result : Except DirectoryError Unit)

namespace UnlinkTalk

/-- The link that the directory was asked to remove. -/
def link? : UnlinkTalk → Option DeviceLink
  | .viewed .. => none
  | .removed link _ => some link

/-- The directory has removed a link. -/
def accepted : UnlinkTalk → Bool
  | .viewed .. => false
  | .removed _ result => result.isOk

end UnlinkTalk

/-- The links that the directory was asked to remove. -/
def dropped (talks : List UnlinkTalk) : List DeviceLink :=
  talks.filterMap (·.link?)

theorem dropped_concat (talks : List UnlinkTalk) (link : DeviceLink)
    (result : Except DirectoryError Unit) :
    dropped (talks ++ [.removed link result]) = dropped talks ++ [link] := by
  rw [dropped, List.filterMap_append]
  rfl

/-- How often the directory has removed a link. -/
def acceptances (talks : List UnlinkTalk) : Nat :=
  talks.countP (·.accepted)

theorem acceptances_concat (talks : List UnlinkTalk) (link : DeviceLink)
    (result : Except DirectoryError Unit) :
    acceptances (talks ++ [.removed link result]) =
      if result.isOk then acceptances talks + 1 else acceptances talks := by
  rw [acceptances, List.countP_append, List.countP_singleton]
  cases result <;> rfl

/-- What an answer settles for an unlink request, if it fits what was asked. -/
def Unlinking.talk : Unlinking → Answer → Option UnlinkTalk
  | .confirming _ device, .links view => some (.viewed device view)
  | .removing link _ _, .removal result => some (.removed link result)
  | _, _ => none

/-! ## What an unlink request has done -/

namespace Node

variable {n : Node} {w : Surroundings} {sender : Identity} {talks : List UnlinkTalk}

/-- Links are dropped from the cache and from the store, one after the other. -/
def evictAll (n : Node) (links : List DeviceLink) : Node :=
  links.foldl (fun n l => { n with links := (n.links.evict n.store l).1
                                   store := (n.links.evict n.store l).2 }) n

/-- The device is marked as unlinked, and the application is asked to wipe its data. -/
def wipe (n : Node) : Node :=
  (n.effect (Store.setUnlinked true)).note (.notified .dataWipeRequested)

/-- The places an unlink request of `sender` to the node `n` can be at, with what was asked and
answered before and the node as it is there. -/
inductive UnlinkCourse (n : Node) (sender : Identity) :
    List UnlinkTalk → UnlinkStep × Node → Prop
  /-- It waits for the directory's view. -/
  | confirming (device : Identity) :
    UnlinkCourse n sender [] (.waits (.confirming sender device), n)
  /-- It waits for a removal; the links of the removals before are dropped. -/
  | removing {talks : List UnlinkTalk} (link : DeviceLink) (rest : List DeviceLink)
    (pairs : ∀ l ∈ dropped talks ++ link :: rest, l.Matches sender n.settings.localIdentity) :
    UnlinkCourse n sender talks
      (.waits (.removing link rest (acceptances talks)), n.evictAll (dropped talks))
  /-- It has unlinked the device. -/
  | unlinked {talks : List UnlinkTalk} (began : dropped talks ≠ [])
    (pairs : ∀ l ∈ dropped talks, l.Matches sender n.settings.localIdentity) :
    UnlinkCourse n sender talks
      (.ends (.unlinked (acceptances talks)), (n.evictAll (dropped talks)).wipe)
  /-- It was refused. -/
  | refused {talks : List UnlinkTalk} {outcome : UnlinkOutcome}
    (refusal : ∀ removed, outcome ≠ .unlinked removed) (quiet : dropped talks = []) :
    UnlinkCourse n sender talks (.ends outcome, n)

theorem evictAll_concat (links : List DeviceLink) (l : DeviceLink) :
    n.evictAll (links ++ [l]) =
      { n.evictAll links with
        links := ((n.evictAll links).links.evict (n.evictAll links).store l).1
        store := ((n.evictAll links).links.evict (n.evictAll links).store l).2 } := by
  rw [evictAll, List.foldl_append]
  rfl

/-- A view begins the removals of what it lists, or it ends the request. -/
theorem confirmUnlink_course (view : DirectoryAnswer) (hdropped : dropped talks = [])
    (haccepted : acceptances talks = 0) :
    n.UnlinkCourse sender talks (n.confirmUnlink sender view) := by
  unfold confirmUnlink
  cases view with
  | error e => exact .refused nofun hdropped
  | ok links =>
    dsimp only
    cases hmatching : links.filter (·.Matches sender n.settings.localIdentity) with
    | nil => exact .refused nofun hdropped
    | cons link rest =>
      have hcourse : n.UnlinkCourse sender talks
          (.waits (.removing link rest (acceptances talks)),
            n.evictAll (dropped talks)) := by
        refine .removing link rest fun l hl => ?_
        rw [hdropped, List.nil_append, ← hmatching] at hl
        exact of_decide_eq_true (List.mem_filter.mp hl).2
      rw [haccepted, hdropped] at hcourse
      exact hcourse

/-- The guards of an unlink request: the cache names the sender as this device's master and holds
the link. -/
def Bound (n : Node) (sender : Identity) : Prop :=
  n.links.masterOf n.settings.localIdentity = sender ∧
    n.links.table.Contains sender n.settings.localIdentity

instance (n : Node) (sender : Identity) : Decidable (n.Bound sender) :=
  inferInstanceAs (Decidable (_ ∧ _))

theorem receiveUnlink_course (clock : Clock) (sender : Identity) :
    n.UnlinkCourse sender [] (n.receiveUnlink clock sender) := by
  unfold receiveUnlink
  dsimp only
  split
  · exact .refused nofun rfl
  · split
    · exact .refused nofun rfl
    · split
      · next view _ => exact confirmUnlink_course (.ok view) rfl rfl
      · exact .confirming _

/-- A request that the guards refuse is over at once. -/
theorem receiveUnlink_of_unbound (clock : Clock) (h : ¬ n.Bound sender) :
    ∃ outcome, (n.receiveUnlink clock sender).1 = .ends outcome := by
  unfold receiveUnlink
  dsimp only
  split
  · exact ⟨_, rfl⟩
  · next hmaster =>
    rw [if_pos fun hcontains => h ⟨not_not.mp hmaster, hcontains⟩]
    exact ⟨_, rfl⟩

/-- An unlink request goes on with an answer. -/
def resumeWith (n : Node) (u : Unlinking) : Answer → UnlinkStep × Node
  | .links view => n.resumeUnlink u view
  | .removal result => n.removedRemotely u result
  | _ => (.waits u, n)

theorem answer_unlink (u : Unlinking) (a : Answer) :
    n.answer w (.unlink u) a = ((n.resumeWith u a).1.toCall, (n.resumeWith u a).2) := by
  cases a <;> rfl

/-- A removal is over, and the next one begins or the unlink is complete. -/
theorem removed_course {link : DeviceLink} {rest : List DeviceLink}
    (pairs : ∀ l ∈ dropped talks ++ link :: rest, l.Matches sender n.settings.localIdentity)
    (result : Except DirectoryError Unit) :
    n.UnlinkCourse sender (talks ++ [.removed link result])
      ((n.evictAll (dropped talks)).removedRemotely
        (.removing link rest (acceptances talks)) result) := by
  have hnext : (n.evictAll (dropped talks)).removedRemotely
      (.removing link rest (acceptances talks)) result =
        (n.evictAll (dropped (talks ++ [.removed link result]))).continueUnlink rest
          (acceptances (talks ++ [.removed link result])) := by
    rw [dropped_concat, acceptances_concat, evictAll_concat]
    rfl
  rw [List.append_cons, ← dropped_concat talks link result] at pairs
  rw [hnext]
  cases rest with
  | cons next rest => exact .removing next rest pairs
  | nil =>
    rw [List.append_nil] at pairs
    exact .unlinked (by simp [dropped_concat]) pairs

/-- An answer takes the request to the next place. -/
theorem UnlinkCourse.answer {m : Node} {u : Unlinking}
    (h : n.UnlinkCourse sender talks (.waits u, m)) (a : Answer) :
    n.UnlinkCourse sender (talks ++ (u.talk a).toList) (m.resumeWith u a) := by
  cases h with
  | confirming device =>
    cases a with
    | links view => exact confirmUnlink_course view rfl rfl
    | _ => exact .confirming device
  | removing link rest pairs =>
    cases a with
    | removal result => exact removed_course pairs result
    | _ =>
      show n.UnlinkCourse sender (talks ++ []) _
      rw [List.append_nil]
      exact .removing link rest pairs

/-! ## What is left of the link -/

/-- The links of `sender` with this device are gone from the cache and from the store, and nothing
else has changed. -/
structure Cuts (n : Node) (sender : Identity) (n' : Node) : Prop where
  cache : ∀ k, n'.links.table.ofMaster k =
    (n.links.table.ofMaster k).filter fun l =>
      ¬ (k = sender ∧ l.Matches sender n.settings.localIdentity)
  refreshed : n'.links.refreshed = n.links.refreshed
  db : n'.store.db = { n.store.db with
    links := n.store.db.links.filter fun l => ¬ l.Matches sender n.settings.localIdentity }
  outage : n'.store.outage = n.store.outage
  others : n' = { n with links := n'.links, store := n'.store }

theorem Cuts.trans {n' n'' : Node} (h : n.Cuts sender n') (h' : n'.Cuts sender n'') :
    n.Cuts sender n'' := by
  have hsettings : n'.settings = n.settings := by rw [h.others]
  refine ⟨fun k => ?_, h'.refreshed.trans h.refreshed, ?_, h'.outage.trans h.outage, ?_⟩
  · rw [h'.cache, h.cache, hsettings, List.filter_filter]
    simp only [Bool.and_self]
  · rw [h'.db, h.db, hsettings]
    simp only [List.filter_filter, Bool.and_self]
  · rw [h'.others, h.others]

theorem cuts_evict (hrel : n.store.Reliable) {l : DeviceLink}
    (hl : l.Matches sender n.settings.localIdentity) : n.Cuts sender (n.evictAll [l]) := by
  obtain ⟨hmaster, hslave⟩ := DeviceLink.matches_iff.mp hl
  have hsame (x : DeviceLink) : l.SamePair x ↔ x.Matches sender n.settings.localIdentity := by
    rw [DeviceLink.SamePair, show l.pair = _ from hl, eq_comm]
    rfl
  have hstore : (n.evictAll [l]).store =
      { n.store with
        db := { n.store.db with
          links := n.store.db.links.filter fun x => ¬ x.Matches sender n.settings.localIdentity }
        calls := n.store.calls + 1 } := by
    show (Store.deleteDeviceLink l.master.identity l.slave.identity).effect n.store = _
    rw [Store.deleteDeviceLink, StoreM.effect_change, if_pos (hrel _ _), hmaster, hslave]
    rfl
  refine ⟨fun k => ?_, rfl, by rw [hstore], by rw [hstore], rfl⟩
  show (n.links.table.remove l).ofMaster k = _
  rw [LinkTable.remove, LinkTable.ofMaster_modify, hmaster]
  split
  · next hk => simp only [hk, hsame, true_and]
  · next hk =>
    simp only [hk, false_and, not_false_eq_true, decide_true]
    exact (List.filter_true _).symm

theorem cuts_evictAll : ∀ {links : List DeviceLink} {n : Node}, n.store.Reliable → links ≠ [] →
    (∀ l ∈ links, l.Matches sender n.settings.localIdentity) → n.Cuts sender (n.evictAll links)
  | [], _, _, hne, _ => absurd rfl hne
  | [l], n, hrel, _, hl => cuts_evict hrel (hl l (.head _))
  | l :: next :: links, n, hrel, _, hl => by
    have hfirst := cuts_evict hrel (hl l (.head _))
    have hrest : (n.evictAll [l]).Cuts sender ((n.evictAll [l]).evictAll (next :: links)) := by
      refine cuts_evictAll (fun k name => ?_) (List.cons_ne_nil _ _) fun m hm => hl m (.tail _ hm)
      rw [hfirst.outage]
      exact hrel k name
    exact hfirst.trans hrest

/-- The unlink is done: the links of `sender` with this device are gone from the cache and from the
store, the device is marked as unlinked, and the application is asked to wipe its data. Nothing else
has changed. -/
structure Severs (n : Node) (sender : Identity) (n' : Node) : Prop where
  cache : ∀ k, n'.links.table.ofMaster k =
    (n.links.table.ofMaster k).filter fun l =>
      ¬ (k = sender ∧ l.Matches sender n.settings.localIdentity)
  refreshed : n'.links.refreshed = n.links.refreshed
  db : n'.store.db = { n.store.db with
    links := n.store.db.links.filter fun l => ¬ l.Matches sender n.settings.localIdentity
    unlinked := true }
  journal : n'.journal = n.journal ++ [.notified .dataWipeRequested]
  others : n' = { n with links := n'.links, store := n'.store, journal := n'.journal }

theorem Cuts.wipe {n' : Node} (h : n.Cuts sender n') (hrel : n.store.Reliable) :
    n.Severs sender n'.wipe := by
  have hreliable : n'.store.outage n'.store.calls .setUnlinked = none := by
    rw [h.outage]
    exact hrel _ _
  have hstore : n'.wipe.store =
      { n'.store with
        db := { n'.store.db with unlinked := true }
        calls := n'.store.calls + 1 } := by
    show (Store.setUnlinked true).effect n'.store = _
    rw [Store.setUnlinked, StoreM.effect_change, if_pos hreliable]
  refine ⟨h.cache, h.refreshed, ?_, ?_, ?_⟩
  · rw [hstore, h.db]
  · show n'.journal ++ _ = _
    rw [h.others]
  · have hothers := h.others
    rcases n' with ⟨settings, store, links, session, polls, spawned, journal⟩
    obtain ⟨rfl, -, -, rfl, rfl, rfl, rfl⟩ := Node.mk.inj hothers
    rfl

end Node

/-! ## Runs of answers -/

/-- The event is an answer for call `id`, or time passes. -/
def Event.Answers (id : Nat) : Event → Prop
  | .answer other _ => other = id
  | .elapse _ | .jump _ => True
  | _ => False

namespace System

variable {s : System} {x : Exchange} {e : Event} {id : Nat} {n : Node} {sender : Identity}
  {talks : List UnlinkTalk} {place : UnlinkStep} {earlier : List (Nat × CallResult)}

/-- What an event settles between call `id`, an unlink request, and the directory. -/
def talk (s : System) (id : Nat) : Event → Option UnlinkTalk
  | .answer other a =>
    if other = id then
      match s.calls.lookup id with
      | some (.unlink u) => u.talk a
      | _ => none
    else none
  | _ => none

/-- What passes between call `id`, an unlink request, and the directory during a run. -/
def dialogue (id : Nat) : System → List (Exchange × Event) → List UnlinkTalk
  | _, [] => []
  | s, (x, e) :: events => (s.talk id e).toList ++ dialogue id (s.step x e) events

/-- Call `id`, an unlink request, is at a place; `earlier` are the results before its own. -/
def StandsAt (s : System) (id : Nat) (earlier : List (Nat × CallResult)) : UnlinkStep → Prop
  | .waits u => s.calls.lookup id = some (.unlink u) ∧ s.finished = earlier
  | .ends outcome => s.calls.lookup id = none ∧ s.finished = (id, .unlink outcome) :: earlier

theorem standsAt_settleCall (s : System) (id : Nat) (place : UnlinkStep) (m : Node) :
    (s.settleCall id (place.toCall, m)).StandsAt id s.finished place := by
  cases place with
  | waits u => exact ⟨by rw [lookup_settleCall, if_pos rfl]; rfl, rfl⟩
  | ends outcome => exact ⟨by rw [lookup_settleCall, if_pos rfl]; rfl, rfl⟩

theorem StandsAt.congr {s' : System} (h : s.StandsAt id earlier place)
    (hcalls : s'.calls = s.calls) (hfinished : s'.finished = s.finished) :
    s'.StandsAt id earlier place := by
  cases place with
  | waits u => exact ⟨hcalls ▸ h.1, hfinished.trans h.2⟩
  | ends outcome => exact ⟨hcalls ▸ h.1, hfinished.trans h.2⟩

/-- Nothing is settled for a request that is over. -/
theorem talk_of_over (h : s.calls.lookup id = none) (e : Event) : s.talk id e = none := by
  cases e with
  | answer other a =>
    rw [talk]
    split
    · rw [h]
    · rfl
  | _ => rfl

/-- Passing time leaves the request and the node alone. -/
theorem waiting_step (he : e.Answers id) (hother : ∀ a, e ≠ .answer id a) :
    s.talk id e = none ∧ (s.step x e).node = s.node ∧ (s.step x e).calls = s.calls ∧
      (s.step x e).finished = s.finished := by
  cases e with
  | answer other a =>
    obtain rfl : other = id := he
    exact absurd rfl (hother a)
  | elapse ms | jump ms =>
    refine ⟨rfl, by rw [step], calls_step ?_ ?_ ?_⟩ <;> simp
  | _ => exact he.elim

/-- One event takes an unlink request from place to place. -/
theorem unlink_course_step (h : n.UnlinkCourse sender talks (place, s.node))
    (hs : s.StandsAt id earlier place) (he : e.Answers id) :
    ∃ place', n.UnlinkCourse sender (talks ++ (s.talk id e).toList) (place', (s.step x e).node) ∧
      (s.step x e).StandsAt id earlier place' := by
  by_cases hanswer : ∃ a, e = .answer id a
  · obtain ⟨a, rfl⟩ := hanswer
    cases place with
    | waits u =>
      obtain ⟨hcall, hearlier⟩ := hs
      have htalk : s.talk id (.answer id a) = u.talk a := by
        rw [talk, if_pos rfl, hcall]
      rw [htalk, step_answer hcall, Node.answer_unlink, settleCall_node, ← hearlier]
      exact ⟨_, h.answer a, standsAt_settleCall s id _ _⟩
    | ends outcome =>
      rw [talk_of_over hs.1, step_answer_none hs.1, Option.toList_none, List.append_nil]
      exact ⟨_, h, hs⟩
  · obtain ⟨htalk, hnode, hcalls, hfinished⟩ :=
      waiting_step (s := s) (x := x) he fun a ha => hanswer ⟨a, ha⟩
    rw [htalk, hnode, Option.toList_none, List.append_nil]
    exact ⟨place, h, hs.congr hcalls hfinished⟩

theorem unlink_course (h : n.UnlinkCourse sender talks (place, s.node))
    (hs : s.StandsAt id earlier place) (events : List (Exchange × Event))
    (he : ∀ p ∈ events, p.2.Answers id) :
    ∃ place', n.UnlinkCourse sender (talks ++ s.dialogue id events) (place', (s.run events).node) ∧
      (s.run events).StandsAt id earlier place' := by
  induction events generalizing s talks place with
  | nil => exact ⟨place, by rwa [dialogue, List.append_nil], hs⟩
  | cons p events ih =>
    obtain ⟨place', h', hs'⟩ := unlink_course_step (x := p.1) h hs (he p (.head _))
    obtain ⟨place'', h'', hs''⟩ := ih h' hs' fun q hq => he q (.tail _ hq)
    exact ⟨place'', by rwa [List.append_assoc] at h'', hs''⟩

/-- A request that is over asks nothing more. -/
theorem dialogue_of_over : ∀ (events : List (Exchange × Event)) {s : System},
    s.calls.lookup id = none → (∀ p ∈ events, p.2.Answers id) → s.dialogue id events = []
  | [], _, _, _ => rfl
  | (x, e) :: events, s, hover, he => by
    have hstep : (s.step x e).calls.lookup id = none := by
      by_cases hanswer : ∃ a, e = .answer id a
      · obtain ⟨a, rfl⟩ := hanswer
        rwa [step_answer_none hover]
      · obtain ⟨-, -, hcalls, -⟩ :=
          waiting_step (s := s) (x := x) (he (x, e) (.head _)) fun a ha => hanswer ⟨a, ha⟩
        rwa [hcalls]
    rw [dialogue, talk_of_over hover, dialogue_of_over events hstep fun p hp => he p (.tail _ hp)]
    rfl

theorem step_begin_unlink (hnew : s.calls.lookup id = none) (x : Exchange) (sender : Identity) :
    s.step x (.begin id (.unlink sender)) =
      s.settleCall id ((s.node.receiveUnlink s.clock sender).1.toCall,
        (s.node.receiveUnlink s.clock sender).2) :=
  step_begin hnew

/-- An unlink request comes in, and nothing but answers to it and the passing of time reaches the
node. If the guards refuse it, it is over at once and has asked nothing. If it ends as anything else
than an unlink, the node is as it was, and no removal was asked for. If it ends as an unlink, the
link is severed, the directory was asked to remove that pairing only, and the count is the number of
times that it did. -/
theorem unlink_all_or_nothing (s : System) (hrel : s.node.store.Reliable) {id : Nat}
    (hnew : s.calls.lookup id = none) (x : Exchange) (sender : Identity)
    (events : List (Exchange × Event)) (hevents : ∀ p ∈ events, p.2.Answers id) :
    let s₁ := s.step x (.begin id (.unlink sender))
    let t := s₁.run events
    let talks := s₁.dialogue id events
    (¬ s.node.Bound sender → s₁.calls.lookup id = none ∧ talks = []) ∧
    ∀ outcome, t.finished = (id, .unlink outcome) :: s.finished →
      ((∀ removed, outcome ≠ .unlinked removed) → t.node = s.node ∧ dropped talks = []) ∧
      ∀ removed, outcome = .unlinked removed →
        s.node.Severs sender t.node ∧ removed = acceptances talks ∧
          ∀ l ∈ dropped talks, l.Matches sender s.node.settings.localIdentity := by
  intro s₁ t talks
  have hstands : s₁.StandsAt id s.finished (s.node.receiveUnlink s.clock sender).1 := by
    show (s.step x (.begin id (.unlink sender))).StandsAt id _ _
    rw [step_begin_unlink hnew]
    exact standsAt_settleCall s id _ _
  have hcourse : s.node.UnlinkCourse sender []
      ((s.node.receiveUnlink s.clock sender).1, s₁.node) := by
    have hnode : s₁.node = (s.node.receiveUnlink s.clock sender).2 := by
      show (s.step x (.begin id (.unlink sender))).node = _
      rw [step_begin_unlink hnew, settleCall_node]
    rw [hnode]
    exact Node.receiveUnlink_course s.clock sender
  refine ⟨fun hunbound => ?_, fun outcome hfinished => ?_⟩
  · obtain ⟨outcome, hends⟩ := Node.receiveUnlink_of_unbound s.clock hunbound
    rw [hends] at hstands
    exact ⟨hstands.1, dialogue_of_over events hstands.1 hevents⟩
  · obtain ⟨place, hplace, hat⟩ := unlink_course hcourse hstands events hevents
    rw [List.nil_append] at hplace
    cases place with
    | waits u =>
      have hsame := hat.2.symm.trans hfinished
      simpa using congrArg List.length hsame
    | ends outcome' =>
      obtain rfl : outcome' = outcome := by
        have hsame := hat.2.symm.trans hfinished
        simpa using hsame
      change s.node.UnlinkCourse sender talks (.ends outcome', t.node) at hplace
      generalize t.node = m at hplace ⊢
      clear_value talks
      cases hplace with
      | unlinked began pairs =>
        refine ⟨fun hrefusal => absurd rfl (hrefusal _), fun removed hremoved => ?_⟩
        cases hremoved
        exact ⟨(Node.cuts_evictAll hrel began pairs).wipe hrel, rfl, pairs⟩
      | refused refusal quiet =>
        exact ⟨fun _ => ⟨rfl, quiet⟩, fun removed hremoved => absurd hremoved (refusal removed)⟩

/-- The directory lists the link twice, removes it once and then fails: the device is unlinked, and
one removal is counted. -/
theorem unlink_all_or_nothing_of_failing_removal :
    let link := DeviceLink.between "bob" ""
    let s := idle { Node.assemble Config.default.settings (.reliable .empty) with
      links := ⟨LinkTable.empty.put link, []⟩ } ⟨0, 0⟩
    let events : List (Exchange × Event) := [(.quiet, .answer 0 (.links (.ok [link, link]))),
      (.quiet, .elapse 5), (.quiet, .answer 0 (.removal (.ok ()))),
      (.quiet, .answer 0 (.removal (.error (.unavailable "down"))))]
    let t := (s.step .quiet (.begin 0 (.unlink "bob"))).run events
    s.node.store.Reliable ∧ s.calls.lookup 0 = none ∧ (∀ p ∈ events, p.2.Answers 0) ∧
      t.finished = [(0, .unlink (.unlinked 1))] ∧ s.node.Severs "bob" t.node := by
  intro link s events t
  have hrel : s.node.store.Reliable := fun _ _ => rfl
  have hnew : s.calls.lookup 0 = none := rfl
  have hevents : ∀ p ∈ events, p.2.Answers 0 := by simp [events, Event.Answers]
  have hfinished : t.finished = [(0, .unlink (.unlinked 1))] := by rfl
  obtain ⟨-, hends⟩ := unlink_all_or_nothing s hrel hnew .quiet "bob" events hevents
  exact ⟨hrel, hnew, hevents, hfinished, ((hends _ hfinished).2 1 rfl).1⟩

end System

end Courier
