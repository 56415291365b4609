import Courier.Config.Basic
import Courier.Proofs.Link.Table
import Courier.Proofs.Node.Events
import Courier.Proofs.Trust.InFlight

/-!
# What an unlink rests on

A device that is unlinked wipes its data. The unlink is confirmed if the directory itself has listed
the link, in its answer to the request's own question or in one that came shortly before the
request (`System.ConfirmedByAnswer`, `System.ConfirmedBefore`; the directory's answers are read off
the run, `System.heard`).

* `stands_run`: an unlink request goes on to the removals only after an answer that lists the link,
  or because the cache remembered the link when the request came and counted as young
  (`Node.Remembers`).
* `System.unlinks_confirmed_iff`: what the cache remembers need not come from the directory. Every
  unlink is confirmed exactly if nothing may be remembered at all, the largest view age being zero.
  `System.unlinked_unconfirmed` shows a device that wipes its data without any answer.
-/

namespace Courier

/-- The question is about the directory's links. -/
def Question.isLinks : Question → Bool
  | .links _ => true
  | _ => false

/-- Links that the directory has listed, with the call that had asked and the moment of the
answer. -/
structure Hearing where
  call : Nat
  instant : Nat
  links : List DeviceLink

/-- Where an unlink request of `sender` stands: it still waits for the directory's view, it is
`sure` of the link, or it is over. -/
def UnlinkStands (sender : Identity) (sure : Prop) : Option Call → Prop
  | none => True
  | some (.unlink (.confirming s _)) => s = sender
  | some (.unlink (.removing ..)) => sure
  | some _ => False

theorem UnlinkStands.mono {sender : Identity} {sure sure' : Prop} {c : Option Call}
    (h : UnlinkStands sender sure c) (hs : sure → sure') : UnlinkStands sender sure' c := by
  unfold UnlinkStands at h ⊢
  split <;> simp_all

/-! ## Ends that are no unlinks -/

theorem ResolveStep.toCall_ne_unlink (step : ResolveStep) (o : UnlinkOutcome) :
    step.toCall ≠ .ends (.unlink o) := by
  cases step <;> simp [toCall]

theorem RouteStep.toCall_ne_unlink (step : RouteStep) (o : UnlinkOutcome) :
    step.toCall ≠ .ends (.unlink o) := by
  cases step <;> simp [toCall]

theorem LinkStep.toCall_ne_unlink (step : LinkStep) (o : UnlinkOutcome) :
    step.toCall ≠ .ends (.unlink o) := by
  cases step <;> simp [toCall]

theorem UnlinkStep.toCall_eq_unlink {step : UnlinkStep} {o : UnlinkOutcome} :
    step.toCall = .ends (.unlink o) ↔ step = .ends o := by
  cases step <;> simp [toCall]

/-! ## Steps of an unlink request -/

namespace Node

variable {n : Node} {w : Surroundings} {sender : Identity} {sure : Prop}

/-- The removals begin only with a view that lists the link. -/
theorem confirmUnlink_stands (view : DirectoryAnswer)
    (hsure : ∀ links, view = .ok links → Pairs links sender n.settings.localIdentity → sure) :
    UnlinkStands sender sure (n.confirmUnlink sender view).1.toCall.call? := by
  unfold confirmUnlink
  cases view with
  | error e => exact trivial
  | ok links =>
    dsimp only
    split
    · exact trivial
    · next hmatching =>
      cases hm : links.filter (·.Matches sender n.settings.localIdentity) with
      | nil => exact absurd hm hmatching
      | cons l ls =>
        have hl : l ∈ links.filter (·.Matches sender n.settings.localIdentity) := by simp [hm]
        obtain ⟨hl, hp⟩ := List.mem_filter.mp hl
        exact hsure links rfl ⟨l, hl, of_decide_eq_true hp⟩

/-- The cache counts as young and lists the link. -/
def Remembers (n : Node) (clock : Clock) (sender : Identity) : Prop :=
  ∃ view, n.links.recentView n.settings.maxViewAge clock.instant n.settings.localIdentity =
    some view ∧ Pairs view sender n.settings.localIdentity

theorem begin_unlink_stands (n : Node) (w : Surroundings) (sender : Identity) :
    UnlinkStands sender (n.Remembers w.clock sender) (n.begin w (.unlink sender)).1.call? := by
  show UnlinkStands _ _ (n.receiveUnlink w.clock sender).1.toCall.call?
  unfold receiveUnlink
  dsimp only
  split
  · exact trivial
  · split
    · exact trivial
    · split
      · next view hview =>
        refine confirmUnlink_stands (.ok view) fun links hlinks hp => ?_
        cases hlinks
        exact ⟨view, hview, hp⟩
      · exact rfl

theorem answer_stands {c : Call} {a : Answer} (h : UnlinkStands sender sure (some c))
    (hsure : ∀ links, c.questions.any (·.isLinks) = true → a = .links (.ok links) →
      Pairs links sender n.settings.localIdentity → sure) :
    UnlinkStands sender sure (n.answer w c a).1.call? := by
  cases c with
  | unlink u =>
    cases u with
    | confirming s device =>
      obtain rfl : s = sender := h
      cases a with
      | links view =>
        exact confirmUnlink_stands view fun links hview => hsure links rfl (by rw [hview])
      | removal result => exact rfl
      | delivery i result => exact rfl
      | verdict v => exact rfl
    | removing link rest removed =>
      cases a with
      | links view => exact h
      | removal result => cases rest <;> first | exact trivial | exact h
      | delivery i result => exact h
      | verdict v => exact h
  | _ => exact h.elim

/-! ## What ends as an unlink -/

/-- A view is not the end of an unlink: the removals of what it lists come first. -/
theorem confirmUnlink_not_unlinked (view : DirectoryAnswer) (removed : Nat) :
    (n.confirmUnlink sender view).1 ≠ .ends (.unlinked removed) := by
  unfold confirmUnlink
  cases view with
  | error e => simp
  | ok links =>
    dsimp only
    cases links.filter (·.Matches sender n.settings.localIdentity) <;> simp [continueUnlink]

theorem finishHandshake_not_unlinked (d : HandshakeDelivery) (result : SendResult)
    (o : UnlinkOutcome) : (n.finishHandshake w d result).1 ≠ .ends (.unlink o) := by
  unfold finishHandshake
  rcases Node.settleHandshake _ w d result with ⟨_ | _, n'⟩ <;> simp

/-- A request that begins is not an unlink at once. -/
theorem begin_not_unlinked (r : Request) (removed : Nat) :
    (n.begin w r).1 ≠ .ends (.unlink (.unlinked removed)) := by
  cases r with
  | resolve i => exact ResolveStep.toCall_ne_unlink _ _
  | view i maxAge =>
    unfold begin
    dsimp only
    split <;> simp
  | route m => exact RouteStep.toCall_ne_unlink _ _
  | handshake i hidden =>
    show (n.sendHandshake w i hidden).1 ≠ _
    unfold sendHandshake
    rcases n.attempt (buildHandshake w.clock (w.messageId i) i hidden) with ⟨_ | ⟨m, d⟩, n'⟩
    · simp
    · dsimp only
      split
      · simp
      · exact finishHandshake_not_unlinked d _ _
  | control m => exact LinkStep.toCall_ne_unlink _ _
  | unlink k =>
    show UnlinkStep.toCall (n.receiveUnlink w.clock k).1 ≠ _
    rw [Ne, UnlinkStep.toCall_eq_unlink]
    unfold receiveUnlink
    dsimp only
    split
    · simp
    · split
      · simp
      · split
        · exact confirmUnlink_not_unlinked _ removed
        · simp

/-- An answer that ends a call as an unlink is one for a removal. -/
theorem answer_unlinked {c : Call} {a : Answer} {removed : Nat}
    (h : (n.answer w c a).1 = .ends (.unlink (.unlinked removed))) :
    ∃ link rest k, c = .unlink (.removing link rest k) := by
  unfold answer at h
  split at h
  · exact absurd h (ResolveStep.toCall_ne_unlink _ _)
  · simp at h
  · exact absurd h (RouteStep.toCall_ne_unlink _ _)
  · exact absurd h (RouteStep.toCall_ne_unlink _ _)
  · exact absurd h (finishHandshake_not_unlinked _ _ _)
  · simp at h
  · next u a =>
    cases u with
    | confirming s device =>
      exact absurd (UnlinkStep.toCall_eq_unlink.mp h) (confirmUnlink_not_unlinked a removed)
    | removing link rest k => exact ⟨link, rest, k, rfl⟩
  · next u result =>
    cases u with
    | confirming s device => exact absurd h (by simp [removedRemotely, UnlinkStep.toCall])
    | removing link rest k => exact ⟨link, rest, k, rfl⟩
  · simp at h

end Node

namespace System

variable {s : System} {x : Exchange} {e : Event} {id : Nat} {sender : Identity} {sure : Prop}

/-- What the directory lists with an event, if a call waits for it. -/
def hears (s : System) : Event → Option Hearing
  | .answer id (.links (.ok links)) =>
    match s.calls.lookup id with
    | some c => if c.questions.any (·.isLinks) then some ⟨id, s.clock.instant, links⟩ else none
    | none => none
  | _ => none

/-- What the directory lists during a run. -/
def heard : System → List (Exchange × Event) → List Hearing
  | _, [] => []
  | s, (x, e) :: events => (s.hears e).toList ++ heard (s.step x e) events

/-- Call `id` comes in as an unlink request of `sender`, goes on through the events of `during`, and
ends with the last event: this device is unlinked. -/
structure Unlinks (s : System) (x : Exchange) (id : Nat) (sender : Identity)
    (during : List (Exchange × Event)) (last : Exchange × Event) : Prop where
  new : s.calls.lookup id = none
  same : ∀ p ∈ during, p.2 ≠ .restart ∧ ∀ r, p.2 ≠ .begin id r
  ends : let t := (s.step x (.begin id (.unlink sender))).run during
    ∃ removed, (t.step last.1 last.2).finished = (id, .unlink (.unlinked removed)) :: t.finished

/-- The directory has listed the link in its answer to the request's own question. -/
def ConfirmedByAnswer (s : System) (x : Exchange) (id : Nat) (sender : Identity)
    (during : List (Exchange × Event)) : Prop :=
  ∃ k ∈ (s.step x (.begin id (.unlink sender))).heard during,
    k.call = id ∧ Pairs k.links sender s.node.settings.localIdentity

/-- The directory has listed the link in one of its answers `before` the request, less than the
largest view age ago. -/
def ConfirmedBefore (s : System) (before : List Hearing) (sender : Identity) : Prop :=
  ∃ k ∈ before, Pairs k.links sender s.node.settings.localIdentity ∧
    s.clock.instant - k.instant < s.node.settings.maxViewAge.nanos

/-! ## An unlink request from its begin to its end -/

/-- One event: the request begins its removals only with an answer that lists the link. -/
theorem stands_step (h : UnlinkStands sender sure (s.calls.lookup id)) (hb : ∀ r, e ≠ .begin id r)
    (hr : e ≠ .restart) :
    UnlinkStands sender
      (sure ∨ ∃ k ∈ s.hears e, k.call = id ∧ Pairs k.links sender s.node.settings.localIdentity)
      ((s.step x e).calls.lookup id) := by
  by_cases ha : ∃ a, e = .answer id a
  · obtain ⟨a, rfl⟩ := ha
    cases hc : s.calls.lookup id with
    | none =>
      rw [step_answer_none hc, hc]
      exact trivial
    | some c =>
      rw [hc] at h
      rw [step_answer hc, lookup_settleCall, if_pos rfl]
      refine Node.answer_stands (h.mono .inl) fun links hasks hanswer hp => .inr ?_
      subst hanswer
      exact ⟨⟨id, s.clock.instant, links⟩, by simp [hears, hc, hasks], rfl, hp⟩
  · rw [lookup_step hb (fun a h => ha ⟨a, h⟩) hr]
    exact h.mono .inl

theorem stands_run (h : UnlinkStands sender sure (s.calls.lookup id))
    (events : List (Exchange × Event))
    (hsame : ∀ p ∈ events, p.2 ≠ .restart ∧ ∀ r, p.2 ≠ .begin id r) :
    UnlinkStands sender
      (sure ∨ ∃ k ∈ s.heard events,
        k.call = id ∧ Pairs k.links sender s.node.settings.localIdentity)
      ((s.run events).calls.lookup id) := by
  induction events generalizing s sure with
  | nil => exact h.mono .inl
  | cons p events ih =>
    obtain ⟨hr, hb⟩ := hsame p (.head _)
    have hstep := stands_step (x := p.1) h hb hr
    refine (ih hstep fun q hq => hsame q (.tail _ hq)).mono ?_
    rw [settings_step]
    simp only [heard, List.mem_append, Option.mem_toList]
    rintro ((hs | ⟨k, hk, hp⟩) | ⟨k, hk, hp⟩)
    · exact .inl hs
    · exact .inr ⟨k, .inl hk, hp⟩
    · exact .inr ⟨k, .inr hk, hp⟩

/-- Only a request that is about its removals ends as an unlink. -/
theorem removing_of_ends {removed : Nat}
    (h : (s.step x e).finished = (id, .unlink (.unlinked removed)) :: s.finished) :
    ∃ link rest k, s.calls.lookup id = some (.unlink (.removing link rest k)) := by
  have hsame (hf : (s.step x e).finished = s.finished) : False := by
    rw [hf] at h
    simpa using congrArg List.length h
  by_cases hbegin : ∃ other r, e = .begin other r
  · obtain ⟨other, r, rfl⟩ := hbegin
    cases hc : s.calls.lookup other with
    | some c => exact (hsame (by rw [step_begin_again hc])).elim
    | none =>
      rw [step_begin hc, finished_settleCall] at h
      split at h
      · simpa using congrArg List.length h
      · next r' hr' =>
        cases h
        exact absurd hr' (Node.begin_not_unlinked r removed)
  by_cases hanswer : ∃ other a, e = .answer other a
  · obtain ⟨other, a, rfl⟩ := hanswer
    cases hc : s.calls.lookup other with
    | none => exact (hsame (by rw [step_answer_none hc])).elim
    | some c =>
      rw [step_answer hc, finished_settleCall] at h
      split at h
      · simpa using congrArg List.length h
      · next r' hr' =>
        cases h
        obtain ⟨link, rest, k, rfl⟩ := Node.answer_unlinked hr'
        exact ⟨link, rest, k, hc⟩
  · by_cases hr : e = .restart
    · subst hr
      exact (hsame rfl).elim
    · exact (hsame (calls_step (fun _ _ h => hbegin ⟨_, _, h⟩)
        (fun _ _ h => hanswer ⟨_, _, h⟩) hr).2).elim

/-- An unlink rests on the directory's answer to the request's own question, or on a young cache
that lists the link when the request comes in. -/
theorem Unlinks.confirmed_or_remembered {during : List (Exchange × Event)} {last : Exchange × Event}
    (h : s.Unlinks x id sender during last) :
    s.ConfirmedByAnswer x id sender during ∨ s.node.Remembers s.clock sender := by
  obtain ⟨removed, hends⟩ := h.ends
  obtain ⟨link, rest, k, hcall⟩ := removing_of_ends hends
  have hbegin : UnlinkStands sender (s.node.Remembers s.clock sender)
      ((s.step x (.begin id (.unlink sender))).calls.lookup id) := by
    rw [step_begin h.new, lookup_settleCall, if_pos rfl]
    exact s.node.begin_unlink_stands (s.surroundings x) sender
  have hstands := stands_run hbegin during h.same
  rw [hcall, settings_step] at hstands
  exact Or.symm hstands

/-! ## A cache that misleads -/

/-- An answer that cannot be parsed counts as a refresh of the device that was to be resolved. -/
theorem run_parsingFailed (s : System) (x : Exchange) (id : Nat) (device : Identity)
    (reason : String)
    (hnew : s.calls.lookup id = none) (hstale : s.node.links.refreshedAt device = none) :
    let t := s.run [(x, .begin id (.resolve device)),
      (x, .answer id (.links (.error (.parsingFailed reason))))]
    t.node = { s.node with links := s.node.links.stamp device s.clock.instant } ∧
      t.clock = s.clock ∧ t.calls.lookup id = none := by
  intro t
  have hresolve : s.node.links.resolve s.node.settings.refreshInterval s.clock.instant device =
      .waits (.known device (s.node.links.masterOf device)) := by
    rw [LinkCache.resolve, if_pos]
    unfold LinkCache.Stale
    rw [hstale]
    exact trivial
  let s₁ := s.step x (.begin id (.resolve device))
  have hs₁ : s₁ = s.settleCall id
      (.waits (.resolve (.known device (s.node.links.masterOf device))), s.node) := by
    show s.step x (.begin id (.resolve device)) = _
    rw [step_begin hnew]
    simp only [Node.begin, surroundings, hresolve, ResolveStep.toCall]
  have hnode : s₁.node = s.node := by rw [hs₁, settleCall_node]
  have hclock : s₁.clock = s.clock := by rw [hs₁]; rfl
  have hcall : s₁.calls.lookup id =
      some (.resolve (.known device (s.node.links.masterOf device))) := by
    rw [hs₁, lookup_settleCall, if_pos rfl]
    rfl
  -- the master in the table is the one that was asked about, so there is no second question
  have hmaster : (s.node.links.stamp device s.clock.instant).masterOf device =
      s.node.links.masterOf device := rfl
  have hanswer : s₁.node.answer (s₁.surroundings x)
      (.resolve (.known device (s.node.links.masterOf device)))
      (.links (.error (.parsingFailed reason))) =
        let links := s.node.links.stamp device s.clock.instant
        (.ends (.destinations (.ok (links.destinations device))), { s.node with links }) := by
    simp only [Node.answer, Node.resumeResolve, Resolving.resume, LinkCache.refresh, surroundings,
      hnode, hclock, hmaster, ne_eq, not_true_eq_false, false_and, if_false, ResolveStep.toCall]
  have ht : t = s₁.settleCall id _ := step_answer hcall
  rw [hanswer] at ht
  rw [ht]
  refine ⟨settleCall_node _ _, hclock, ?_⟩
  rw [lookup_settleCall, if_pos rfl]
  rfl

/-- A young cache that lists the link once is all it takes. -/
theorem unlinks_of_remembered (link : DeviceLink) (view : List DeviceLink)
    (hnew : s.calls.lookup id = none)
    (hmaster : s.node.links.masterOf s.node.settings.localIdentity = sender)
    (hcontains : s.node.links.table.Contains sender s.node.settings.localIdentity)
    (hview : s.node.links.recentView s.node.settings.maxViewAge s.clock.instant
      s.node.settings.localIdentity = some view)
    (hlink : view.filter (·.Matches sender s.node.settings.localIdentity) = [link]) :
    s.Unlinks x id sender [] (x, .answer id (.removal (.ok ()))) := by
  refine ⟨hnew, fun p hp => absurd hp List.not_mem_nil, 1, ?_⟩
  let t := s.step x (.begin id (.unlink sender))
  show (t.step x (.answer id (.removal (.ok ())))).finished = _ :: t.finished
  have hcall : t.calls.lookup id = some (.unlink (.removing link [] 0)) := by
    show (s.step x (.begin id (.unlink sender))).calls.lookup id = _
    rw [step_begin hnew, lookup_settleCall, if_pos rfl]
    simp only [Node.begin, Node.receiveUnlink, surroundings, hmaster, ne_eq, not_true_eq_false,
      if_false, hcontains, hview, Node.confirmUnlink, hlink, Node.continueUnlink,
      UnlinkStep.toCall, CallStep.call?]
  rw [step_answer hcall, finished_settleCall]
  rfl

/-- The directory's answer about a device cannot be parsed. -/
def misreading (device : Identity) : List (Exchange × Event) :=
  [(.quiet, .begin 1 (.resolve device)),
    (.quiet, .answer 1 (.links (.error (.parsingFailed "no list"))))]

/-- A cache with one link, not refreshed so far: an answer that cannot be parsed lets it pass for
the directory's view. -/
theorem unlinks_after_misreading (link : DeviceLink) {device : Identity}
    (hcalls : s.calls = []) (hlinks : s.node.links = ⟨⟨[(sender, [link])]⟩, []⟩)
    (hdevice : s.node.settings.localIdentity = device) (hlink : link.Matches sender device)
    (hage : 0 < s.node.settings.maxViewAge.nanos) :
    (s.run (misreading device)).Unlinks .quiet 1 sender []
      (.quiet, .answer 1 (.removal (.ok ()))) := by
  obtain ⟨hnode, hclock, hnew⟩ := s.run_parsingFailed .quiet 1 device "no list"
    (by rw [hcalls]; rfl) (by rw [hlinks]; rfl)
  change (s.run (misreading device)).node = _ at hnode
  change (s.run (misreading device)).clock = _ at hclock
  change (s.run (misreading device)).calls.lookup 1 = none at hnew
  obtain ⟨hm, hs⟩ := DeviceLink.matches_iff.mp hlink
  have hset : (s.run (misreading device)).node.settings = s.node.settings := settings_run s _
  have hl : (s.run (misreading device)).node.links =
      ⟨⟨[(sender, [link])]⟩, [(device, s.clock.instant)]⟩ := by
    rw [hnode, hlinks]
    rfl
  refine unlinks_of_remembered link [link] hnew ?_ ?_ ?_ ?_ <;>
    rw [hset, hdevice]
  · rw [hl]
    simp [LinkCache.masterOf, LinkTable.links, masterIn, hm, hs]
  · rw [hl]
    exact ⟨link, by simp [LinkTable.ofMaster], hlink⟩
  · rw [hl, hclock]
    simp [LinkCache.recentView, LinkCache.refreshedAt, LinkTable.links, hage,
      DeviceLink.Involves, hs]
  · simp [hlink]

/-- An authorisation for a device is accepted. -/
def authorisation (device sender : Identity) : List (Exchange × Event) :=
  [(.quiet, .beginSession "linking"),
    (.quiet, .begin 0 (.control ⟨sender, some sender, some device, some [], some [], none⟩)),
    (.quiet, .answer 0 (.verdict (.ok ())))]

/-- Where something may be remembered, a device can be unlinked though the directory has listed
nothing at all. -/
theorem unlinks_without_hearing (settings : Settings) (store : Store) (clock : Clock)
    (sender : Identity) (hage : 0 < settings.maxViewAge.nanos) :
    let start := idle (.assemble settings store) clock
    let device := settings.localIdentity
    let before := authorisation device sender ++ misreading device
    (start.run before).Unlinks .quiet 1 sender [] (.quiet, .answer 1 (.removal (.ok ()))) ∧
      start.heard before = [] := by
  intro start device before
  refine ⟨?_, rfl⟩
  have hrun : start.run before =
      (start.run (authorisation device sender)).run (misreading device) := List.foldl_append
  rw [hrun]
  have hsettings : (start.run (authorisation device sender)).node.settings = settings :=
    settings_run start _
  exact unlinks_after_misreading ⟨⟨sender, some []⟩, ⟨device, some []⟩⟩ rfl rfl
    (by rw [hsettings]) rfl (by rw [hsettings]; exact hage)

/-! ## The guarantee -/

/-- For every run of a node: every unlink is confirmed by the directory, in its answer to the
request's own question or in one that came less than the largest view age before, exactly if that
age is zero. In any case an unlink rests on the answer to its own question, or on a cache that
counts as young and lists the link. -/
theorem unlinks_confirmed_iff (settings : Settings) (store : Store) (clock : Clock) :
    let start := idle (.assemble settings store) clock
    ((∀ before x id sender during last, (start.run before).Unlinks x id sender during last →
        (start.run before).ConfirmedByAnswer x id sender during ∨
          (start.run before).ConfirmedBefore (start.heard before) sender) ↔
      settings.maxViewAge.nanos = 0) ∧
    ∀ before x id sender during last, (start.run before).Unlinks x id sender during last →
      (start.run before).ConfirmedByAnswer x id sender during ∨
        (start.run before).node.Remembers (start.run before).clock sender := by
  intro start
  refine ⟨⟨fun hall => ?_, fun hzero before x id sender during last h => ?_⟩,
    fun before x id sender during last h => h.confirmed_or_remembered⟩
  · by_contra hage
    obtain ⟨hunlinks, hheard⟩ :=
      unlinks_without_hearing settings store clock "master" (Nat.pos_of_ne_zero hage)
    rcases hall _ _ _ _ _ _ hunlinks with ⟨k, hk, -⟩ | ⟨k, hk, -⟩
    · cases hk
    · rw [hheard] at hk
      cases hk
  · refine h.confirmed_or_remembered.imp_right fun hremembers => ?_
    -- with the age zero no cache counts as young
    obtain ⟨view, hview, -⟩ := hremembers
    have hsettings : (start.run before).node.settings = settings := settings_run start before
    rw [hsettings, LinkCache.recentView] at hview
    split at hview
    · cases hview
    · rw [hzero, if_neg (Nat.not_lt_zero _)] at hview
      cases hview

/-- With the default age, zero: the directory lists the link when it is asked, and the device is
unlinked. -/
theorem unlink_confirmed_by_answer :
    let start := idle (.assemble Config.default.settings (.reliable .empty)) ⟨0, 0⟩
    let link := DeviceLink.between "bob" ""
    let before := authorisation "" "bob"
    let during := [(Exchange.quiet, Event.answer 1 (.links (.ok [link])))]
    (start.run before).Unlinks .quiet 1 "bob" during (.quiet, .answer 1 (.removal (.ok ()))) ∧
      (start.run before).ConfirmedByAnswer .quiet 1 "bob" during := by
  intro start link before during
  have hunlinks : (start.run before).Unlinks .quiet 1 "bob" during
      (.quiet, .answer 1 (.removal (.ok ()))) := by
    refine ⟨rfl, fun p hp => ?_, 1, ?_⟩
    · cases List.mem_singleton.mp hp
      exact ⟨nofun, nofun⟩
    · rfl
  refine ⟨hunlinks, ?_⟩
  obtain ⟨hall, -⟩ := unlinks_confirmed_iff Config.default.settings (.reliable .empty) ⟨0, 0⟩
  refine (hall.mpr (by decide +kernel) _ _ _ _ _ _ hunlinks).resolve_right ?_
  rintro ⟨k, hk, -⟩
  cases hk

/-- With an age of one minute: the link of an authorisation that was accepted, an answer that cannot
be parsed, and the device is unlinked without any link that the directory has listed. -/
theorem unlinked_unconfirmed :
    let settings := { Config.default with maxViewAge := 60 }.settings
    let start := idle (.assemble settings (.reliable .empty)) ⟨0, 0⟩
    let before := authorisation "" "bob" ++ misreading ""
    let s := start.run before
    s.Unlinks .quiet 1 "bob" [] (.quiet, .answer 1 (.removal (.ok ()))) ∧
      ¬ (s.ConfirmedByAnswer .quiet 1 "bob" [] ∨ s.ConfirmedBefore (start.heard before) "bob") ∧
      (s.run [(.quiet, .begin 1 (.unlink "bob")),
        (.quiet, .answer 1 (.removal (.ok ())))]).node.store.db.unlinked = true := by
  intro settings start before s
  obtain ⟨hunlinks, hheard⟩ := unlinks_without_hearing settings (.reliable .empty) ⟨0, 0⟩ "bob"
    (by decide +kernel)
  refine ⟨hunlinks, ?_, by decide +kernel⟩
  rintro (⟨k, hk, -⟩ | ⟨k, hk, -⟩)
  · cases hk
  · have hnone : start.heard before = [] := hheard
    rw [hnone] at hk
    cases hk

end System

end Courier
