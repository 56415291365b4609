import Courier.Polling.Table
import Courier.Proofs.Lists
import Mathlib.Logic.Relation

/-!
# Entries and their loops

Everything that happens to the polled groups is one of the moves of `PollTable.Move`, or a loop that
is not cancelled dies (`PollTable.Turn`).

* `PollTable.Sound`: groups and generations are not repeated, and the loops that are not cancelled
  are those with an entry. Moves and deaths keep it (`Turn.sound`).
* `PollTable.Served`: every entry has its loop. Moves keep it, a death breaks it
  (`Turn.served_iff`).
* `Sound.oneLoop_iff`: where both hold, and only there, each polled group has exactly one loop
  that is not cancelled, which carries the generation of its entry.
* `PollTable.Stopped`: of a loop whose entry was removed nothing is left but its cancelled task,
  where it waited or, if it waited for the lock of the table, at the question that it has put since
  (`Sound.stopped_cancel`). Nothing revives it (`Turn.stopped`), and only the lock lets it put that
  question (`Turn.mem_of_stopped`).
-/

namespace Courier

open Relation (ReflTransGen)

/-- The loop does the polling of the entry. -/
def PollLoop.Serves (l : PollLoop) (e : PollEntry) : Prop :=
  l.group = e.group ∧ l.generation = e.generation

namespace PollTable

variable {t t' : PollTable} {group : GroupId} {e e' : PollEntry} {l l' : PollLoop} {q : Nat → Bool}
  {grants : Nat → Prop}

/-- The loops of a group that are not cancelled. -/
def live (t : PollTable) (group : GroupId) : List PollLoop :=
  t.loops.filter fun l => l.group = group ∧ l.cancelled = false

/-- A group with an entry has exactly one loop that is not cancelled, of the entry's generation; a
group without one has none. -/
def OneLoop (t : PollTable) (group : GroupId) : Prop :=
  match t.entry? group with
  | none => t.live group = []
  | some e => ∃ l, t.live group = [l] ∧ l.generation = e.generation

/-- The form that every event keeps. -/
structure Sound (t : PollTable) : Prop where
  groups : (t.entries.map (·.group)).Nodup
  entries : (t.entries.map (·.generation)).Nodup
  loops : (t.loops.map (·.generation)).Nodup
  entries_below : ∀ e ∈ t.entries, e.generation < t.nextGeneration
  loops_below : ∀ l ∈ t.loops, l.generation < t.nextGeneration
  owned : ∀ l ∈ t.loops, l.cancelled = false ↔ ∃ e ∈ t.entries, l.Serves e

/-- Every entry has its loop. -/
def Served (t : PollTable) : Prop :=
  ∀ e ∈ t.entries, ∃ l ∈ t.loops, l.Serves e

/-- What can happen to the polled groups, but for the death of a loop. The loops that get the lock
of the table are among those of the generations `grants`. -/
inductive Move (grants : Nat → Prop) (t : PollTable) : PollTable → Prop where
  | start (group : GroupId) : Move grants t (t.start group).2
  | stop (group : GroupId) : Move grants t (t.stop group).2
  | stopAll : Move grants t t.stopAll.2
  /-- A loop that is not cancelled brings the state of its group up to date. -/
  | updates (l : PollLoop) (hl : l ∈ t.loops) (hc : l.cancelled = false)
      (f : PollState → PollState) : Move grants t (t.updateState l.group l.generation f)
  /-- A loop that is not cancelled goes on. -/
  | goesOn (l : PollLoop) (hl : l ∈ t.loops) (hc : l.cancelled = false) (phase : LoopPhase) :
      Move grants t (t.setPhase l.generation phase)
  /-- A loop that waited for the lock of the table asks a node, cancelled or not. -/
  | asks (l : PollLoop) (hl : l ∈ t.loops) (hg : grants l.generation) (node : SwarmNode)
      (hp : l.phase = .locking node) (cursor : Option String) :
      Move grants t (t.setPhase l.generation (.fetching node cursor))
  /-- A cancelled loop ends. -/
  | ends (l : PollLoop) (hl : l ∈ t.loops) (hc : l.cancelled = true) :
      Move grants t (t.endLoop l.generation)
  /-- Everything ends with the process. -/
  | restarts : Move grants t { empty with nextGeneration := t.nextGeneration }

/-! ## Entries and loops by their keys -/

theorem Sound.entry_unique (h : t.Sound) (he : e ∈ t.entries) (he' : e' ∈ t.entries)
    (hg : e.generation = e'.generation ∨ e.group = e'.group) : e = e' :=
  hg.elim (List.inj_on_of_nodup_map h.entries he he') (List.inj_on_of_nodup_map h.groups he he')

theorem Sound.loop_unique (h : t.Sound) (hl : l ∈ t.loops) (hl' : l' ∈ t.loops)
    (hg : l.generation = l'.generation) : l = l' :=
  List.inj_on_of_nodup_map h.loops hl hl' hg

theorem Sound.entry?_eq_some (h : t.Sound) :
    t.entry? group = some e ↔ e ∈ t.entries ∧ e.group = group :=
  find?_key_iff h.groups

theorem mem_of_loop? {generation : Nat} (h : t.loop? generation = some l) :
    l ∈ t.loops ∧ l.generation = generation :=
  ⟨List.mem_of_find?_eq_some h, by simpa using List.find?_some h⟩

theorem Sound.loop?_eq_some (h : t.Sound) {generation : Nat} :
    t.loop? generation = some l ↔ l ∈ t.loops ∧ l.generation = generation :=
  find?_key_iff h.loops

theorem mem_live : l ∈ t.live group ↔ l ∈ t.loops ∧ l.group = group ∧ l.cancelled = false := by
  unfold live
  rw [List.mem_filter, decide_eq_true_eq]

/-! ## What stays of the loops -/

theorem PollLoop.stopped?_eq_some (h : l.stopped? = some l') :
    l' = { l with cancelled := true } := by
  unfold PollLoop.stopped? at h
  split at h <;> cases h
  rfl

/-- After a cancellation a loop is one that was not meant, or the cancelled form of one that was. -/
theorem mem_cancel (h : l' ∈ (t.cancel q).loops) :
    (l' ∈ t.loops ∧ q l'.generation = false) ∨
      ∃ l ∈ t.loops, q l.generation = true ∧ l' = { l with cancelled := true } := by
  obtain ⟨l, hl, hl'⟩ := List.mem_filterMap.mp h
  cases hq : q l.generation with
  | true =>
    rw [hq, if_pos rfl] at hl'
    exact .inr ⟨l, hl, hq, PollLoop.stopped?_eq_some hl'⟩
  | false =>
    rw [hq, if_neg Bool.false_ne_true] at hl'
    cases hl'
    exact .inl ⟨hl, hq⟩

theorem mem_cancel_of_not (hl : l ∈ t.loops) (hq : q l.generation = false) :
    l ∈ (t.cancel q).loops :=
  List.mem_filterMap.mpr ⟨l, hl, by rw [hq]; rfl⟩

theorem nodup_cancel (h : (t.loops.map (·.generation)).Nodup) :
    ((t.cancel q).loops.map (·.generation)).Nodup := by
  rw [List.Nodup, List.pairwise_map] at h ⊢
  refine h.filterMap _ fun a a' hne b hb b' hb' => ?_
  have key : ∀ {x y : PollLoop}, (if q x.generation then x.stopped? else some x) = some y →
      y.generation = x.generation := fun {x y} hy => by
    split at hy
    · rw [PollLoop.stopped?_eq_some hy]
    · cases hy
      rfl
  rw [key hb, key hb']
  exact hne

theorem serves_updateState {g : Nat} {f : PollState → PollState} :
    (∃ e ∈ (t.updateState group g f).entries, l.Serves e) ↔ ∃ e ∈ t.entries, l.Serves e := by
  unfold updateState
  simp only [List.mem_map, exists_exists_and_eq_and]
  refine exists_congr fun e => and_congr_right fun _ => ?_
  split <;> rfl

theorem mem_setPhase {g : Nat} {phase : LoopPhase} (h : l' ∈ (t.setPhase g phase).loops) :
    ∃ l ∈ t.loops, l' = if l.generation = g then { l with phase } else l := by
  obtain ⟨l, hl, rfl⟩ := List.mem_map.mp h
  exact ⟨l, hl, rfl⟩

theorem loop?_setPhase (t : PollTable) (g : Nat) (phase : LoopPhase) :
    (t.setPhase g phase).loop? g = (t.loop? g).map ({ · with phase }) := by
  unfold loop? setPhase
  have hkeep : ((fun l : PollLoop => decide (l.generation = g)) ∘
      fun l => if l.generation = g then { l with phase } else l) =
        fun l => decide (l.generation = g) := by
    funext l
    simp only [Function.comp_apply]
    split <;> rfl
  rw [List.find?_map, hkeep]
  refine Option.map_congr fun l hl => ?_
  rw [if_pos (by simpa using List.find?_some hl)]

theorem mem_endLoop {g : Nat} : l ∈ (t.endLoop g).loops ↔ l ∈ t.loops ∧ l.generation ≠ g := by
  unfold endLoop
  rw [List.mem_filter, decide_eq_true_eq]

/-! ## The form is kept -/

theorem sound_cleared {n : Nat} : Sound { empty with nextGeneration := n } :=
  ⟨.nil, .nil, .nil, by simp [empty], by simp [empty], by simp [empty]⟩

/-- A group that is polled already keeps its entry and its loop; only a generation is used up. -/
theorem start_of_some (h : t.entry? group = some e) :
    (t.start group).2 = { t with nextGeneration := t.nextGeneration + 1 } := by
  unfold start
  rw [h]

theorem start_of_none (h : t.entry? group = none) :
    (t.start group).2 =
      { entries := t.entries ++ [⟨group, .initial, t.nextGeneration⟩]
        loops := t.loops ++ [⟨t.nextGeneration, group, false, .starting⟩]
        nextGeneration := t.nextGeneration + 1 } := by
  unfold start
  rw [h]

theorem Sound.start (h : t.Sound) (group : GroupId) : (t.start group).2.Sound := by
  cases he : t.entry? group with
  | some e =>
    rw [start_of_some he]
    exact ⟨h.groups, h.entries, h.loops, fun e he => Nat.lt_succ_of_lt (h.entries_below e he),
      fun l hl => Nat.lt_succ_of_lt (h.loops_below l hl), h.owned⟩
  | none =>
    have hnew : ∀ e ∈ t.entries, e.group ≠ group := fun e hm => by
      simpa using List.find?_eq_none.mp he e hm
    rw [start_of_none he]
    refine ⟨?_, ?_, ?_, fun e hm => ?_, fun l hm => ?_, fun l hm => ?_⟩
    · simpa [List.nodup_append, h.groups] using hnew
    · simpa [List.nodup_append, h.entries] using fun e hm => (h.entries_below e hm).ne
    · simpa [List.nodup_append, h.loops] using fun l hm => (h.loops_below l hm).ne
    · rcases List.mem_append.mp hm with hm | hm
      · exact Nat.lt_succ_of_lt (h.entries_below e hm)
      · rw [List.mem_singleton.mp hm]
        exact Nat.lt_succ_self _
    · rcases List.mem_append.mp hm with hm | hm
      · exact Nat.lt_succ_of_lt (h.loops_below l hm)
      · rw [List.mem_singleton.mp hm]
        exact Nat.lt_succ_self _
    · simp only [List.mem_append, List.mem_singleton, or_and_right, exists_or, exists_eq_left]
      rcases List.mem_append.mp hm with hm | hm
      · -- the new generation lies above those of all loops so far
        have hold : ¬ l.Serves ⟨group, .initial, t.nextGeneration⟩ := fun hs =>
          (h.loops_below l hm).ne hs.2
        rw [or_iff_left hold]
        exact h.owned l hm
      · rw [List.mem_singleton.mp hm]
        exact ⟨fun _ => .inr ⟨rfl, rfl⟩, fun _ => rfl⟩

/-- Entries are removed and the loops of their generations are cancelled. -/
theorem Sound.drop (h : t.Sound) {p : PollEntry → Bool}
    (hq : ∀ e ∈ t.entries, q e.generation = p e) :
    ({ t with entries := t.entries.filter (! p ·) }.cancel q).Sound := by
  have hmem : ∀ {e}, e ∈ t.entries.filter (! p ·) ↔ e ∈ t.entries ∧ q e.generation = false := by
    intro e
    rw [List.mem_filter]
    refine and_congr_right fun he => ?_
    rw [hq e he, Bool.not_eq_true']
  have hsub := List.filter_sublist (p := (! p ·)) (l := t.entries)
  refine ⟨(hsub.map _).nodup h.groups, (hsub.map _).nodup h.entries, nodup_cancel h.loops,
    fun e he => h.entries_below e (hmem.mp he).1, fun l hl => ?_, fun l hl => ?_⟩
  · rcases mem_cancel hl with ⟨hl, -⟩ | ⟨k, hk, -, rfl⟩
    · exact h.loops_below l hl
    · exact h.loops_below k hk
  · rcases mem_cancel hl with ⟨hl, hql⟩ | ⟨k, hk, hql, rfl⟩
    · rw [h.owned l hl]
      constructor
      · rintro ⟨e, he, hs⟩
        exact ⟨e, hmem.mpr ⟨he, hs.2 ▸ hql⟩, hs⟩
      · rintro ⟨e, he, hs⟩
        exact ⟨e, (hmem.mp he).1, hs⟩
    · refine ⟨fun hc => (nomatch hc), fun ⟨e, he, hs⟩ => ?_⟩
      have hqe : q k.generation = false := hs.2 ▸ (hmem.mp he).2
      rw [hql] at hqe
      cases hqe

theorem stop_of_none (h : t.entry? group = none) : (t.stop group).2 = t := by
  unfold stop
  rw [h]

theorem stop_of_some (h : t.entry? group = some e) :
    (t.stop group).2 =
      { t with entries := t.entries.filter fun e => ! decide (e.group = group) }.cancel
        fun g => decide (g = e.generation) := by
  unfold stop
  rw [h]
  simp only [ne_eq, decide_not]

theorem stopAll_eq :
    t.stopAll.2 = { t with entries := t.entries.filter fun _ => ! true }.cancel
      fun g => t.entries.any (·.generation = g) := by
  unfold stopAll
  simp

/-- The generation of an entry tells it from the others as well as its group does. -/
theorem Sound.generation_iff (h : t.Sound) (he : t.entry? group = some e) (e' : PollEntry)
    (he' : e' ∈ t.entries) : decide (e'.generation = e.generation) = decide (e'.group = group) := by
  obtain ⟨hm, rfl⟩ := h.entry?_eq_some.mp he
  refine decide_eq_decide.mpr ⟨fun hg => ?_, fun hg => ?_⟩
  · rw [h.entry_unique he' hm (.inl hg)]
  · rw [h.entry_unique he' hm (.inr hg)]

theorem any_generation (e : PollEntry) (he : e ∈ t.entries) :
    t.entries.any (·.generation = e.generation) = true :=
  List.any_eq_true.mpr ⟨e, he, decide_eq_true rfl⟩

theorem Sound.stop (h : t.Sound) (group : GroupId) : (t.stop group).2.Sound := by
  cases he : t.entry? group with
  | none => rwa [stop_of_none he]
  | some e =>
    rw [stop_of_some he]
    exact h.drop (p := (·.group = group)) (h.generation_iff he)

theorem Sound.stopAll (h : t.Sound) : t.stopAll.2.Sound := by
  rw [stopAll_eq]
  exact h.drop any_generation

theorem Sound.updateState (h : t.Sound) (group : GroupId) (g : Nat) (f : PollState → PollState) :
    (t.updateState group g f).Sound := by
  have hkeep {β : Type} (key : PollEntry → β) (hk : ∀ e state, key { e with state } = key e) :
      (t.updateState group g f).entries.map key = t.entries.map key := by
    unfold PollTable.updateState
    rw [List.map_map]
    refine List.map_congr_left fun e _ => ?_
    simp only [Function.comp_apply]
    split
    · exact hk _ _
    · rfl
  refine ⟨?_, ?_, h.loops, fun e he => ?_, h.loops_below, fun l hl => ?_⟩
  · rw [hkeep _ fun _ _ => rfl]
    exact h.groups
  · rw [hkeep _ fun _ _ => rfl]
    exact h.entries
  · have hm : e.generation ∈ t.entries.map (·.generation) := by
      rw [← hkeep _ fun _ _ => rfl]
      exact List.mem_map_of_mem he
    obtain ⟨e', he', hg⟩ := List.mem_map.mp hm
    exact hg ▸ h.entries_below e' he'
  · rw [serves_updateState]
    exact h.owned l hl

theorem Sound.setPhase (h : t.Sound) (g : Nat) (phase : LoopPhase) :
    (t.setPhase g phase).Sound := by
  refine ⟨h.groups, h.entries, ?_, h.entries_below, fun l hl => ?_, fun l hl => ?_⟩
  · have hkeep : (t.setPhase g phase).loops.map (·.generation) = t.loops.map (·.generation) := by
      unfold PollTable.setPhase
      rw [List.map_map]
      refine List.map_congr_left fun l _ => ?_
      simp only [Function.comp_apply]
      split <;> rfl
    rw [hkeep]
    exact h.loops
  all_goals
    obtain ⟨k, hk, rfl⟩ := mem_setPhase hl
    split
  · exact h.loops_below k hk
  · exact h.loops_below k hk
  · exact h.owned k hk
  · exact h.owned k hk

theorem Sound.endLoop (h : t.Sound) (g : Nat) : (t.endLoop g).Sound :=
  ⟨h.groups, h.entries, (List.filter_sublist.map _).nodup h.loops, h.entries_below,
    fun l hl => h.loops_below l (mem_endLoop.mp hl).1, fun l hl => h.owned l (mem_endLoop.mp hl).1⟩

theorem Move.sound (hm : t.Move grants t') (h : t.Sound) : t'.Sound := by
  cases hm with
  | start group => exact h.start group
  | stop group => exact h.stop group
  | stopAll => exact h.stopAll
  | updates l hl hc f => exact h.updateState _ _ f
  | goesOn l hl hc phase => exact h.setPhase _ phase
  | asks l hl hg node hp cursor => exact h.setPhase _ _
  | ends l hl hc => exact h.endLoop _
  | restarts => exact sound_cleared

/-! ## Every entry has its loop -/

theorem Served.drop (h : t.Served) {p : PollEntry → Bool}
    (hq : ∀ e ∈ t.entries, q e.generation = p e) :
    ({ t with entries := t.entries.filter (! p ·) }.cancel q).Served := by
  intro e he
  obtain ⟨he, hp⟩ := List.mem_filter.mp he
  obtain ⟨l, hl, hs⟩ := h e he
  refine ⟨l, mem_cancel_of_not hl ?_, hs⟩
  rw [hs.2, hq e he]
  simpa using hp

theorem Served.setPhase (h : t.Served) (g : Nat) (phase : LoopPhase) :
    (t.setPhase g phase).Served := by
  intro e he
  obtain ⟨k, hk, hs⟩ := h e he
  refine ⟨_, List.mem_map_of_mem hk, ?_⟩
  split <;> exact hs

theorem Move.served (hm : t.Move grants t') (hsound : t.Sound) (h : t.Served) : t'.Served := by
  cases hm with
  | start group =>
    cases he : t.entry? group with
    | some e =>
      rw [start_of_some he]
      exact h
    | none =>
      rw [start_of_none he]
      intro e hm
      rcases List.mem_append.mp hm with hm | hm
      · obtain ⟨l, hl, hs⟩ := h e hm
        exact ⟨l, List.mem_append_left _ hl, hs⟩
      · rw [List.mem_singleton.mp hm]
        exact ⟨_, List.mem_append_right _ (List.mem_singleton_self _), rfl, rfl⟩
  | stop group =>
    cases he : t.entry? group with
    | none => rwa [stop_of_none he]
    | some e =>
      rw [stop_of_some he]
      exact h.drop (p := (·.group = group)) (hsound.generation_iff he)
  | stopAll =>
    rw [stopAll_eq]
    exact h.drop any_generation
  | updates l hl hc f =>
    intro e' he'
    obtain ⟨e, he, rfl⟩ := List.mem_map.mp he'
    obtain ⟨k, hk, hs⟩ := h e he
    refine ⟨k, hk, ?_⟩
    split <;> exact hs
  | goesOn l hl hc phase => exact h.setPhase _ phase
  | asks l hl hg node hp cursor => exact h.setPhase _ _
  | ends l hl hc =>
    intro e he
    obtain ⟨k, hk, hs⟩ := h e he
    refine ⟨k, mem_endLoop.mpr ⟨hk, fun hg => ?_⟩, hs⟩
    -- the loop of an entry is not a cancelled one
    have hlive := (hsound.owned k hk).mpr ⟨e, he, hs⟩
    rw [hsound.loop_unique hk hl hg, hc] at hlive
    cases hlive
  | restarts => exact fun e he => nomatch he

/-- An entry whose loop has died is not served. -/
theorem Sound.not_served_endLoop (h : t.Sound) (hl : l ∈ t.loops) (hc : l.cancelled = false) :
    ¬ (t.endLoop l.generation).Served := by
  intro hserved
  obtain ⟨e, he, hs⟩ := (h.owned l hl).mp hc
  obtain ⟨k, hk, hk'⟩ := hserved e he
  exact (mem_endLoop.mp hk).2 (hk'.2.trans hs.2.symm)

/-- Each entry has its loop exactly if every group has one loop or is not polled. -/
theorem Sound.oneLoop_iff (h : t.Sound) : (∀ group, t.OneLoop group) ↔ t.Served := by
  constructor
  · intro hone e he
    have hg := hone e.group
    unfold OneLoop at hg
    rw [h.entry?_eq_some.mpr ⟨he, rfl⟩] at hg
    obtain ⟨l, hlive, hgen⟩ := hg
    obtain ⟨hl, hgroup, -⟩ := mem_live.mp (hlive ▸ List.mem_singleton_self l)
    exact ⟨l, hl, hgroup, hgen⟩
  · intro hserved group
    have hentry {l : PollLoop} (hl : l ∈ t.live group) :
        ∃ e, t.entry? group = some e ∧ l.Serves e := by
      obtain ⟨hl, hgroup, hc⟩ := mem_live.mp hl
      obtain ⟨e, he, hs⟩ := (h.owned l hl).mp hc
      exact ⟨e, h.entry?_eq_some.mpr ⟨he, hs.1.symm.trans hgroup⟩, hs⟩
    unfold OneLoop
    cases he : t.entry? group with
    | none =>
      refine List.eq_nil_iff_forall_not_mem.mpr fun l hl => ?_
      obtain ⟨e, he', -⟩ := hentry hl
      rw [he] at he'
      cases he'
    | some e =>
      obtain ⟨hm, hgroup⟩ := h.entry?_eq_some.mp he
      obtain ⟨l, hl, hs⟩ := hserved e hm
      have hlive : l ∈ t.live group :=
        mem_live.mpr ⟨hl, hs.1.trans hgroup, (h.owned l hl).mpr ⟨e, hm, hs⟩⟩
      refine ⟨l, ?_, hs.2⟩
      have hnodup : (t.live group).Nodup := (h.loops.of_map _).filter _
      refine eq_singleton_of_nodup hnodup hlive fun k hk => ?_
      obtain ⟨e', he', hs'⟩ := hentry hk
      rw [he] at he'
      cases he'
      exact h.loop_unique (mem_live.mp hk).1 hl (hs'.2.trans hs.2.symm)

/-! ## Stopped loops -/

/-- What can be left of a loop that was stopped: its cancelled task where it waited, or, if it
waited for the lock of the table, the same task waiting for the messages of the node. -/
inductive Remains (l : PollLoop) : PollLoop → Prop where
  | waits : Remains l { l with cancelled := true }
  | asks (node : SwarmNode) (cursor : Option String) (hp : l.phase = .locking node) :
      Remains l { l with cancelled := true, phase := .fetching node cursor }

theorem Remains.cancelled (h : Remains l l') : l'.cancelled = true := by
  cases h <;> rfl

/-- Nothing is left of the loop but what remains of a stopped one. -/
structure Stopped (t : PollTable) (l : PollLoop) : Prop where
  below : l.generation < t.nextGeneration
  left : ∀ k ∈ t.loops, k.generation = l.generation → Remains l k

/-- A loop of a generation that is cancelled is stopped. -/
theorem Sound.stopped_cancel (h : t.Sound) {entries : List PollEntry} (hl : l ∈ t.loops)
    (hq : q l.generation = true) : ({ t with entries }.cancel q).Stopped l := by
  refine ⟨h.loops_below l hl, fun k hk hg => ?_⟩
  rcases mem_cancel hk with ⟨-, hqk⟩ | ⟨j, hj, -, rfl⟩
  · rw [hg, hq] at hqk
    cases hqk
  · rw [h.loop_unique hj hl hg]
    exact .waits

/-- A loop that does not sleep goes on waiting, cancelled. -/
theorem mem_cancel_of_cancelled (hl : l ∈ t.loops) (hq : q l.generation = true)
    (hp : ∀ deadline, l.phase ≠ .sleeping deadline) :
    { l with cancelled := true } ∈ (t.cancel q).loops := by
  refine List.mem_filterMap.mpr ⟨l, hl, ?_⟩
  rw [hq, if_pos rfl]
  unfold PollLoop.stopped?
  split
  · next deadline h => exact absurd h (hp deadline)
  · rfl

/-- A loop with an entry is cancelled by a stop of its group. -/
theorem Sound.stop_cancels (h : t.Sound) (he : e ∈ t.entries) (hs : l.Serves e) :
    ∃ entries q, (t.stop l.group).2 = { t with entries }.cancel q ∧ q l.generation = true := by
  have hentry : t.entry? l.group = some e := h.entry?_eq_some.mpr ⟨he, hs.1.symm⟩
  exact ⟨_, _, stop_of_some hentry, decide_eq_true hs.2⟩

/-- So it is by a stop of all groups. -/
theorem stopAll_cancels (he : e ∈ t.entries) (hs : l.Serves e) :
    ∃ entries q, t.stopAll.2 = { t with entries }.cancel q ∧ q l.generation = true :=
  ⟨_, _, stopAll_eq, hs.2 ▸ any_generation e he⟩

theorem Stopped.endLoop (h : t.Stopped l) (g : Nat) : (t.endLoop g).Stopped l :=
  ⟨h.below, fun k hk => h.left k (mem_endLoop.mp hk).1⟩

/-- What a move leaves of a stopped loop was there before, unless the loop gets the lock of the
table: then its task may wait for the messages of the node. -/
theorem Move.mem_of_stopped (hm : t.Move grants t') (h : t.Stopped l) (hl' : l' ∈ t'.loops)
    (hg : l'.generation = l.generation) :
    l' ∈ t.loops ∨ grants l.generation ∧ Remains l l' := by
  have hcancel {entries : List PollEntry} {q : Nat → Bool}
      (hl' : l' ∈ ({ t with entries }.cancel q).loops) : l' ∈ t.loops := by
    rcases mem_cancel hl' with ⟨hl', -⟩ | ⟨k, hk, -, rfl⟩
    · exact hl'
    · -- cancelling what is cancelled changes nothing
      rw [← (h.left k hk hg).cancelled]
      exact hk
  cases hm with
  | start group =>
    cases he : t.entry? group with
    | some e =>
      rw [start_of_some he] at hl'
      exact .inl hl'
    | none =>
      rw [start_of_none he] at hl'
      rcases List.mem_append.mp hl' with hl' | hl'
      · exact .inl hl'
      · -- the new loop has a generation of its own
        rw [List.mem_singleton.mp hl'] at hg
        exact absurd hg h.below.ne'
  | stop group =>
    cases he : t.entry? group with
    | none => exact .inl (stop_of_none he ▸ hl')
    | some e =>
      rw [stop_of_some he] at hl'
      exact .inl (hcancel hl')
  | stopAll =>
    rw [stopAll_eq] at hl'
    exact .inl (hcancel hl')
  | updates k hk hc f => exact .inl hl'
  | goesOn k hk hc phase =>
    obtain ⟨i, hi, rfl⟩ := mem_setPhase hl'
    split at hg
    · next hik =>
      rw [(h.left k hk (hik.symm.trans hg)).cancelled] at hc
      cases hc
    · next hik =>
      rw [if_neg hik]
      exact .inl hi
  | asks k hk hgrants node hp cursor =>
    obtain ⟨i, hi, rfl⟩ := mem_setPhase hl'
    split at hg
    · next hik =>
      have hkl : k.generation = l.generation := hik.symm.trans hg
      -- only the task that waits where the loop was stopped waits for the lock
      have hlocking : l.phase = .locking node := by
        cases h.left k hk hkl with
        | waits => exact hp
        | asks => cases hp
      rw [if_pos hik]
      refine .inr ⟨hkl ▸ hgrants, ?_⟩
      cases h.left i hi hg with
      | waits => exact .asks node cursor hlocking
      | asks => exact .asks node cursor hlocking
    · next hik =>
      rw [if_neg hik]
      exact .inl hi
  | ends k hk hc => exact .inl (mem_endLoop.mp hl').1
  | restarts => cases hl'

theorem Move.nextGeneration_le (hm : t.Move grants t') : t.nextGeneration ≤ t'.nextGeneration := by
  cases hm with
  | start group =>
    cases he : t.entry? group with
    | some e =>
      rw [start_of_some he]
      exact Nat.le_succ _
    | none =>
      rw [start_of_none he]
      exact Nat.le_succ _
  | stop group =>
    cases he : t.entry? group with
    | none => rw [stop_of_none he]
    | some e =>
      rw [stop_of_some he]
      exact le_rfl
  | _ => exact le_rfl

theorem Move.stopped (hm : t.Move grants t') (h : t.Stopped l) : t'.Stopped l := by
  refine ⟨h.below.trans_le hm.nextGeneration_le, fun k hk hg => ?_⟩
  rcases hm.mem_of_stopped h hk hg with hk | ⟨-, hk⟩
  · exact h.left k hk hg
  · exact hk

/-! ## A turn of events -/

/-- Moves, after which a loop that is not cancelled dies exactly if `dies`. -/
inductive Turn (grants : Nat → Prop) (t : PollTable) (dies : Prop) : PollTable → Prop where
  | goes {u : PollTable} (hd : ¬ dies) (hm : ReflTransGen (Move grants) t u) :
      Turn grants t dies u
  | dies {u : PollTable} (hd : dies) (hm : ReflTransGen (Move grants) t u) (l : PollLoop)
      (hl : l ∈ u.loops) (hc : l.cancelled = false) : Turn grants t dies (u.endLoop l.generation)

variable {dies dies' : Prop}

theorem Turn.refl (hd : ¬ dies) : t.Turn grants dies t :=
  .goes hd .refl

theorem Turn.move (hd : ¬ dies) (hm : t.Move grants t') : t.Turn grants dies t' :=
  .goes hd (.single hm)

theorem Turn.after {t₀ : PollTable} (hm : ReflTransGen (Move grants) t₀ t)
    (h : t.Turn grants dies t') : t₀.Turn grants dies t' := by
  cases h with
  | goes hd h => exact .goes hd (hm.trans h)
  | dies hd h l hl hc => exact .dies hd (hm.trans h) l hl hc

theorem Turn.congr (h : t.Turn grants dies t') (hd : dies ↔ dies') : t.Turn grants dies' t' := by
  rwa [propext hd] at h

theorem Turn.moves (h : t.Turn grants dies t') (hd : ¬ dies) :
    ReflTransGen (Move grants) t t' := by
  cases h with
  | goes _ hm => exact hm
  | dies h => exact absurd h hd

/-- A loop brings the state of its group up to date and goes on. -/
theorem moves_updates_goesOn (hl : l ∈ t.loops) (hc : l.cancelled = false)
    (f : PollState → PollState) (phase : LoopPhase) :
    ReflTransGen (Move grants) t
      ((t.updateState l.group l.generation f).setPhase l.generation phase) :=
  .tail (.single (.updates l hl hc f))
    (.goesOn (t := t.updateState l.group l.generation f) l hl hc phase)

theorem moves_sound (hm : ReflTransGen (Move grants) t t') (h : t.Sound) : t'.Sound := by
  induction hm with
  | refl => exact h
  | tail _ hm ih => exact hm.sound ih

theorem moves_served (hm : ReflTransGen (Move grants) t t') (hsound : t.Sound) (h : t.Served) :
    t'.Served := by
  induction hm with
  | refl => exact h
  | tail hms hm ih => exact hm.served (moves_sound hms hsound) ih

theorem moves_stopped (hm : ReflTransGen (Move grants) t t') (h : t.Stopped l) : t'.Stopped l := by
  induction hm with
  | refl => exact h
  | tail _ hm ih => exact hm.stopped ih

theorem moves_mem_of_stopped (hm : ReflTransGen (Move grants) t t') (h : t.Stopped l)
    (hgrants : ¬ grants l.generation) (hg : l'.generation = l.generation) (hl' : l' ∈ t'.loops) :
    l' ∈ t.loops := by
  induction hm with
  | refl => exact hl'
  | tail hms hm ih =>
    rcases hm.mem_of_stopped (moves_stopped hms h) hl' hg with hl' | ⟨hgranted, -⟩
    · exact ih hl'
    · exact absurd hgranted hgrants

theorem Turn.sound (h : t.Turn grants dies t') (hsound : t.Sound) : t'.Sound := by
  cases h with
  | goes _ hm => exact moves_sound hm hsound
  | dies _ hm l _ _ => exact (moves_sound hm hsound).endLoop _

theorem Turn.served_iff (h : t.Turn grants dies t') (hsound : t.Sound) (hserved : t.Served) :
    t'.Served ↔ ¬ dies := by
  cases h with
  | goes hd hm => exact iff_of_true (moves_served hm hsound hserved) hd
  | dies hd hm l hl hc =>
    exact iff_of_false ((moves_sound hm hsound).not_served_endLoop hl hc) (not_not.mpr hd)

theorem Turn.stopped (h : t.Turn grants dies t') (hs : t.Stopped l) : t'.Stopped l := by
  cases h with
  | goes _ hm => exact moves_stopped hm hs
  | dies _ hm k _ _ => exact (moves_stopped hm hs).endLoop _

/-- Without the lock of the table nothing happens to a stopped loop but that it ends. -/
theorem Turn.mem_of_stopped (h : t.Turn grants dies t') (hs : t.Stopped l)
    (hgrants : ¬ grants l.generation) (hg : l'.generation = l.generation) (hl' : l' ∈ t'.loops) :
    l' ∈ t.loops := by
  cases h with
  | goes _ hm => exact moves_mem_of_stopped hm hs hgrants hg hl'
  | dies _ hm k _ _ => exact moves_mem_of_stopped hm hs hgrants hg (mem_endLoop.mp hl').1

end PollTable

end Courier
