import Courier.Proofs.Polling.Activity
import Courier.Proofs.Polling.Interval

/-!
# The cadence follows the node's own clock

What a sender says about the time of a message counts only within the node's own time: noted
activity lies between the epoch and the moment of noting, and moves forward only.

* `foldl_after_bounds`: so does the activity that comes of many notes, at moments that do not go
  back (`System.noted_moments`).
* `Node.nextDelay_ge`, `Node.nextDelay_of_idle`: what a bound of the activity means for the delay.
* `System.lastActivity_of_last`, `System.lastActivity_mono`: the activity after a run.
* `System.cadence_follows_clock`: every run in which the wall clock never goes back.
-/

namespace Courier

/-! ## Notes -/

/-- What was noted at moments that do not go back leaves an activity between the epoch and the last
of these moments. -/
theorem foldl_after_bounds {notes : List Note} (hsorted : notes.Pairwise (·.moment ≤ ·.moment))
    (hepoch : ∀ x ∈ notes, 0 ≤ x.moment) :
    ∀ last, notes.getLast? = some last →
      ∃ v, notes.foldl Note.after none = some v ∧ 0 ≤ v ∧ v ≤ last.moment := by
  induction notes using List.reverseRecOn with
  | nil => exact fun last hlast => by cases hlast
  | append_singleton notes x ih =>
    intro last hlast
    rw [List.getLast?_concat] at hlast
    obtain rfl := Option.some.inj hlast
    rw [List.pairwise_append] at hsorted
    have ih := ih hsorted.1 fun y hy => hepoch y (List.mem_append_left _ hy)
    have hbefore : ∀ v, notes.foldl Note.after none = some v → 0 ≤ v ∧ v ≤ x.moment := by
      intro v hv
      cases hprevious : notes.getLast? with
      | none =>
        rw [List.getLast?_eq_none_iff.mp hprevious] at hv
        cases hv
      | some previous =>
        obtain ⟨v', hv', hzero, hle⟩ := ih previous hprevious
        obtain rfl := Option.some.inj (hv'.symm.trans hv)
        have hmoment : previous.moment ≤ x.moment :=
          hsorted.2.2 previous (List.mem_of_getLast? hprevious) x (List.mem_singleton_self x)
        exact ⟨hzero, Int64.le_trans hle hmoment⟩
    rw [List.foldl_append]
    exact ⟨_, rfl, activityAfter_bounds (hepoch x (by simp)) hbefore rfl⟩

/-- Noted activity only moves forward. -/
theorem le_foldl_after {v : Int64} (notes : List Note) :
    ∃ w, notes.foldl Note.after (some v) = some w ∧ v ≤ w := by
  induction notes generalizing v with
  | nil => exact ⟨v, rfl, Int64.le_refl v⟩
  | cons x notes ih =>
    obtain ⟨w, hw, hle⟩ := ih (v := max v (min x.timestamp x.moment))
    exact ⟨w, hw, Int64.le_trans (le_activityAfter rfl rfl) hle⟩

/-! ## The delay -/

namespace Node

variable {n : Node} {clock : Clock} {g : GroupId} {v moment : Int64} {d : Duration}

/-- The activity of a group is read, unless this fails. -/
theorem activityOf_cases :
    (n.activityOf g).1 = none ∨ (n.activityOf g).1 = n.store.db.threads.groupActivity g := by
  unfold activityOf attempt Store.groupLastMessageAt Store.query
  rw [StoreM.attempt_call]
  cases n.store.outage n.store.calls .groupLastMessageAt with
  | some e => exact .inl rfl
  | none => exact .inr rfl

theorem nextDelay_eq :
    (n.nextDelay clock g).1 =
      n.settings.timing.interval ((n.activityOf g).1.map (idleSince clock.now)) := by
  have hsettings : (n.activityOf g).2.settings = n.settings := (activityOf_talks g).settings
  unfold nextDelay
  dsimp only
  rw [hsettings]

/-- Without activity the delay is that of a group that was never active. -/
theorem nextDelay_never (h : n.store.db.threads.groupActivity g = none) :
    (n.nextDelay clock g).1 = n.settings.timing.interval none := by
  rw [nextDelay_eq]
  obtain hnone | hread := activityOf_cases (n := n) (g := g)
  · rw [hnone]
    rfl
  · rw [hread, h]
    rfl

/-- With activity up to some moment, the delay is at least the interval of the time since then. -/
theorem nextDelay_ge (h : n.store.db.threads.groupActivity g = some v) (hv : v ≤ moment)
    (hd : (n.nextDelay clock g).1 = some d) :
    ∃ least, n.settings.timing.interval (some (idleSince clock.now moment)) = some least ∧
      least.nanos ≤ d.nanos := by
  rw [nextDelay_eq] at hd
  obtain hnone | hread := activityOf_cases (n := n) (g := g)
  · rw [hnone] at hd
    exact PollTiming.interval_le_never _ hd
  · rw [hread, h] at hd
    exact PollTiming.interval_mono (idleSince_anti hv) hd

/-- Once `idleLimit` has passed since then, it is that of a group that was never active. -/
theorem nextDelay_of_idle (h : n.store.db.threads.groupActivity g = some v) (hv : v ≤ moment)
    (hidle : n.settings.timing.idleLimit.nanos ≤ (idleSince clock.now moment).nanos) :
    (n.nextDelay clock g).1 = n.settings.timing.interval none := by
  rw [nextDelay_eq]
  obtain hnone | hread := activityOf_cases (n := n) (g := g)
  · rw [hnone]
    rfl
  · rw [hread, h]
    exact PollTiming.interval_of_idle (hidle.trans (idleSince_anti hv))

end Node

/-! ## Runs -/

namespace System

variable {s : System} {x : Exchange} {e : Event} {g : GroupId} {events : List (Exchange × Event)}

/-- No event of the run sets the wall clock back. -/
def NeverBack : System → List (Exchange × Event) → Prop
  | _, [] => True
  | s, (x, e) :: events => s.clock.now ≤ (s.step x e).clock.now ∧ NeverBack (s.step x e) events

instance decidableNeverBack :
    ∀ (s : System) (events : List (Exchange × Event)), Decidable (s.NeverBack events)
  | _, [] => inferInstanceAs (Decidable True)
  | s, (x, e) :: events =>
    have := decidableNeverBack (s.step x e) events
    inferInstanceAs (Decidable (_ ∧ _))

theorem NeverBack.now_le (h : s.NeverBack events) : s.clock.now ≤ (s.run events).clock.now := by
  induction events generalizing s with
  | nil => exact Int64.le_refl _
  | cons p events ih => exact Int64.le_trans h.1 (ih h.2)

/-- An event notes activity at the moment at which it happens. -/
theorem moment_notes {y : Note} (hy : y ∈ s.notes x e g) : y.moment = s.clock.now := by
  rcases List.mem_append.mp hy with hy | hy
  · obtain ⟨a, -, rfl⟩ := List.mem_map.mp hy
    rfl
  · unfold Store.sentNotes at hy
    split at hy
    · cases hy
    · split at hy
      · obtain rfl := List.mem_singleton.mp hy
        rfl
      · cases hy

/-- The moments of noting lie within the run and do not go back. -/
theorem noted_moments (h : s.NeverBack events) :
    (s.noted g events).Pairwise (·.moment ≤ ·.moment) ∧
      ∀ y ∈ s.noted g events, s.clock.now ≤ y.moment ∧ y.moment ≤ (s.run events).clock.now := by
  induction events generalizing s with
  | nil => exact ⟨.nil, fun y hy => by cases hy⟩
  | cons p events ih =>
    obtain ⟨hsorted, hwithin⟩ := ih h.2
    have hnow : ∀ y ∈ s.notes p.1 p.2 g, y.moment = s.clock.now := fun y hy => moment_notes hy
    have hlater := h.now_le
    refine ⟨List.pairwise_append.mpr ⟨List.pairwise_of_forall_mem_list fun y hy z hz => ?_, hsorted,
      fun y hy z hz => ?_⟩, fun y hy => ?_⟩
    · rw [hnow y hy, hnow z hz]
      exact Int64.le_refl _
    · rw [hnow y hy]
      exact Int64.le_trans h.1 (hwithin z hz).1
    · rcases List.mem_append.mp hy with hy | hy
      · rw [hnow y hy]
        exact ⟨Int64.le_refl _, hlater⟩
      · exact ⟨Int64.le_trans h.1 (hwithin y hy).1, (hwithin y hy).2⟩

/-- As long as nothing was noted for a group, it has no activity. -/
theorem lastActivity_eq_none_iff (h : s.Anchored) (hnone : s.lastActivity g = none) :
    (s.run events).lastActivity g = none ↔ s.noted g events = [] := by
  rw [activity_run h, hnone]
  cases s.noted g events with
  | nil => exact ⟨fun _ => rfl, fun _ => rfl⟩
  | cons x notes =>
    obtain ⟨w, hw, -⟩ := le_foldl_after (v := max 0 (min x.timestamp x.moment)) notes
    have hsome : (x :: notes).foldl Note.after none = some w := hw
    simp [hsome]

/-- After a note the activity lies between the epoch and the moment of the note. -/
theorem lastActivity_of_last (h : s.Anchored) (hnone : s.lastActivity g = none)
    (hclock : 0 ≤ s.clock.now) (hback : s.NeverBack events) {last : Note}
    (hlast : (s.noted g events).getLast? = some last) :
    ∃ v, (s.run events).lastActivity g = some v ∧ 0 ≤ v ∧ v ≤ last.moment ∧
      last.moment ≤ (s.run events).clock.now := by
  obtain ⟨hsorted, hwithin⟩ := noted_moments (g := g) hback
  have hepoch : ∀ y ∈ s.noted g events, 0 ≤ y.moment :=
    fun y hy => Int64.le_trans hclock (hwithin y hy).1
  obtain ⟨v, hv, hzero, hle⟩ := foldl_after_bounds hsorted hepoch last hlast
  refine ⟨v, ?_, hzero, hle, (hwithin last (List.mem_of_getLast? hlast)).2⟩
  rw [activity_run h, hnone, hv]

/-- Activity stays, and it does not move back. -/
theorem lastActivity_mono (h : s.Anchored) {earlier : List (Exchange × Event)}
    (hearlier : earlier <+: events) {v : Int64} (hv : (s.run earlier).lastActivity g = some v) :
    ∃ w, (s.run events).lastActivity g = some w ∧ v ≤ w := by
  obtain ⟨later, rfl⟩ := hearlier
  have hrun : s.run (earlier ++ later) = (s.run earlier).run later := List.foldl_append
  obtain ⟨w, hw, hle⟩ := le_foldl_after (v := v) ((s.run earlier).noted g later)
  refine ⟨w, ?_, hle⟩
  rw [hrun, activity_run (anchored_run h earlier), hv]
  exact hw

/-- For every run from an empty store in which the reading of the wall clock, a time since the epoch,
never goes back, with messages of the swarms and own messages that carry any timestamps, and with any
calls of the store failing:

* the last activity of a group lies between the epoch and the current time, and it is not later than
  the moment at which the last accepted message or own delivered message was noted; there is none
  as long as nothing was noted;
* once there is one, it stays and never moves back;
* the delay before the next poll, computed then, is at least the interval of the time since that
  moment. It is that of a group that was never active if nothing was noted, and again once
  `idleLimit` has passed since. -/
theorem cadence_follows_clock (settings : Settings) (outage : Outage) (clock : Clock)
    (events : List (Exchange × Event)) (g : GroupId)
    (hclock : 0 ≤ clock.now)
    (hback : (idle (.assemble settings ⟨.empty, 0, outage⟩) clock).NeverBack events) :
    let start := idle (.assemble settings ⟨.empty, 0, outage⟩) clock
    let s := start.run events
    (s.lastActivity g = none ↔ start.noted g events = []) ∧
    (∀ v, s.lastActivity g = some v → 0 ≤ v ∧ v ≤ s.clock.now) ∧
    (∀ v last, s.lastActivity g = some v → (start.noted g events).getLast? = some last →
      v ≤ last.moment) ∧
    (∀ earlier, earlier <+: events → ∀ v, (start.run earlier).lastActivity g = some v →
      ∃ w, s.lastActivity g = some w ∧ v ≤ w) ∧
    ∀ n : Node, n.settings = settings → n.store.db = s.node.store.db →
      (start.noted g events = [] → (n.nextDelay s.clock g).1 = settings.timing.interval none) ∧
      ∀ last, (start.noted g events).getLast? = some last →
        (∀ d, (n.nextDelay s.clock g).1 = some d →
          ∃ least,
            settings.timing.interval (some (idleSince s.clock.now last.moment)) = some least ∧
            least.nanos ≤ d.nanos) ∧
        (settings.timing.idleLimit.nanos ≤ (idleSince s.clock.now last.moment).nanos →
          (n.nextDelay s.clock g).1 = settings.timing.interval none) := by
  intro start s
  have hanchored : start.Anchored := anchored_idle rfl clock
  have hnone : s.lastActivity g = none ↔ start.noted g events = [] :=
    lastActivity_eq_none_iff hanchored rfl
  have hnoted {last : Note} (hlast : (start.noted g events).getLast? = some last) :
      ∃ v, s.lastActivity g = some v ∧ 0 ≤ v ∧ v ≤ last.moment ∧ last.moment ≤ s.clock.now :=
    lastActivity_of_last hanchored rfl hclock hback hlast
  refine ⟨hnone, fun v hv => ?_, fun v last hv hlast => ?_,
    fun earlier hearlier v hv => lastActivity_mono hanchored hearlier hv,
    fun n hsettings hdb => ⟨fun hempty => ?_, fun last hlast => ?_⟩⟩
  · cases hlast : (start.noted g events).getLast? with
    | none =>
      rw [hnone.mpr (List.getLast?_eq_none_iff.mp hlast)] at hv
      cases hv
    | some last =>
      obtain ⟨w, hw, hzero, hle, hnow⟩ := hnoted hlast
      obtain rfl := Option.some.inj (hw.symm.trans hv)
      exact ⟨hzero, Int64.le_trans hle hnow⟩
  · obtain ⟨w, hw, -, hle, -⟩ := hnoted hlast
    obtain rfl := Option.some.inj (hw.symm.trans hv)
    exact hle
  · rw [← hsettings]
    exact Node.nextDelay_never ((congrArg (·.threads.groupActivity g) hdb).trans (hnone.mpr hempty))
  · obtain ⟨v, hv, -, hle, -⟩ := hnoted hlast
    have hread : n.store.db.threads.groupActivity g = some v :=
      (congrArg (·.threads.groupActivity g) hdb).trans hv
    rw [← hsettings]
    exact ⟨fun d hd => Node.nextDelay_ge hread hle hd, Node.nextDelay_of_idle hread hle⟩

/-- A message comes whose sender is far ahead, and then none for as long as `idleLimit`. -/
theorem cadence_follows_clock_of_message_ahead :
    let settings := Config.default.settings
    let clock : Clock := ⟨0, 1700000000000⟩
    let start := idle (.assemble settings (.reliable .empty)) clock
    let ahead : RawMessage :=
      ⟨"h1", (⟨1, "alice", none, Int64.maxValue, [1], none⟩ : InboundEnvelope).encode, none⟩
    let events := polled [ahead] ++ [(.quiet, .elapse 43200000)]
    let s := start.run events
    0 ≤ clock.now ∧ start.NeverBack events ∧
      start.noted "g" events = [⟨Int64.maxValue, 1700000000000⟩] ∧
      (∃ v, s.lastActivity "g" = some v ∧ v ≤ 1700000000000) ∧
      (s.node.nextDelay s.clock "g").1 = settings.timing.interval none := by
  intro settings clock start ahead events s
  have hclock : 0 ≤ clock.now := Clock.now_nonneg (by decide)
  have hback : start.NeverBack events := by decide +kernel
  have hnoted : start.noted "g" events = [⟨Int64.maxValue, 1700000000000⟩] := by decide +kernel
  obtain ⟨hnone, -, hle, -, hdelay⟩ :=
    cadence_follows_clock settings _ clock events "g" hclock hback
  have hlast : (start.noted "g" events).getLast? = some ⟨Int64.maxValue, 1700000000000⟩ := by
    rw [hnoted]
    rfl
  obtain ⟨v, hv⟩ : ∃ v, s.lastActivity "g" = some v := by
    refine Option.ne_none_iff_exists'.mp fun h => ?_
    have hempty : start.noted "g" events = [] := hnone.mp h
    rw [hempty] at hnoted
    cases hnoted
  refine ⟨hclock, hback, hnoted, ⟨v, hv, hle v _ hv hlast⟩, ?_⟩
  have hidle : settings.timing.idleLimit.nanos ≤
      (idleSince s.clock.now 1700000000000).nanos := by decide +kernel
  exact ((hdelay s.node (settings_run start events) rfl).2 _ hlast).2 hidle

end System

end Courier
