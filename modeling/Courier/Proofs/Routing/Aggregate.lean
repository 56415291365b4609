import Courier.Proofs.Routing.Launches
import Courier.Proofs.Trust.InFlight

/-!
# What a fan-out returns

The sends of a fan-out end one by one, some on the spot and the others by answers of the transport
in any order (`Node.endings`, `System.endingsIn`). The route goes by these ends alone:

* `Aggregates`: the result that a list of ends calls for. A fan-out that goes on keeps it
  (`FanOut.Tracks`), through the launches (`FanOut.Tracks.foldl_take`) and through every answer
  (`FanOut.Tracks.settle`).
* `System.FanOutStands`: the route waits for exactly the sends that have not ended, or it has
  returned the result, or its task has died. Every event keeps this (`FanOutStands.step`).
* `System.aggregate_law_iff`: a route waits for all its destinations and returns what they call for,
  exactly if its task does not die of a delivered handshake whose expiry is no timestamp.
-/

namespace Courier

/-! ## How sends end -/

/-- What became of the attempt to reach a destination. -/
inductive SendEnd where
  | settled (outcome : DeliveryOutcome)
  | failed (e : RouteError)
  /-- The task that waited for the send died of the transport's answer. -/
  | died
  deriving DecidableEq

/-- How a send ends by an answer of the transport. -/
def PendingSend.ending (settings : Settings) (clock : Clock) (p : PendingSend)
    (result : SendResult) : Destination × SendEnd :=
  (p.destination,
    if p.Kills settings clock result then .died
    else
      match result with
      | .ok () => .settled p.outcome
      | .error e => .failed (.sendFailed p.destination.identity e))

/-- How a launch ends, unless it has to wait for the transport. -/
def Launch.ending? (settings : Settings) (w : Surroundings) (l : Launch) :
    Option (Destination × SendEnd) :=
  match l.prepared with
  | .error e => some (l.destination, .failed (.store l.destination.identity e))
  | .ok none => some (l.destination, .settled .skippedPendingHandshake)
  | .ok (some p) => (w.atOnce p.envelope).map (p.ending settings w.clock)

/-- The sends of a fan-out that end while it starts. -/
def Node.endings (n : Node) (w : Surroundings) (m : OutgoingMessage) (ds : List Destination) :
    List (Destination × SendEnd) :=
  (upTo (·.fatal n.settings w) (launches w m ds n.store)).filterMap (·.ending? n.settings w)

/-- The send of call `id` that ends by an event. -/
def System.endings (s : System) (id : Nat) : Event → List (Destination × SendEnd)
  | .answer other a =>
    if other = id then
      match s.calls.lookup id with
      | some (.route (.fanningOut f)) =>
        ((f.answered? a).map fun (p, result) => p.ending s.node.settings s.clock result).toList
      | _ => []
    else []
  | _ => []

/-- The sends of call `id` that end in a run, in their order. -/
def System.endingsIn (id : Nat) : System → List (Exchange × Event) → List (Destination × SendEnd)
  | _, [] => []
  | s, (x, e) :: events => s.endings id e ++ (s.step x e).endingsIn id events

/-! ## The result they call for -/

/-- The result of a fan-out whose sends have ended like this: a report of all of them, in their
order, or the first failure. -/
inductive Aggregates (ends : List (Destination × SendEnd)) : RouteResult → Prop where
  | report (outcomes : List (Destination × DeliveryOutcome))
      (hends : ends = outcomes.map fun (d, o) => (d, .settled o)) :
      Aggregates ends (.ok { fannedOut := true, outcomes })
  | error (before after : List (Destination × SendEnd)) (d : Destination) (e : RouteError)
      (hends : ends = before ++ (d, .failed e) :: after)
      (hbefore : ∀ y ∈ before, ∃ o, y.2 = .settled o) (hname : e.destination = d.identity) :
      Aggregates ends (.error e)

/-- A report comes exactly where every send has settled. -/
theorem Aggregates.ok_iff {ends : List (Destination × SendEnd)} {r : RouteResult}
    (h : Aggregates ends r) : (∃ report, r = .ok report) ↔ ∀ y ∈ ends, ∃ o, y.2 = .settled o := by
  cases h with
  | report outcomes hends =>
    subst hends
    refine iff_of_true ⟨_, rfl⟩ fun y hy => ?_
    obtain ⟨⟨d, o⟩, -, rfl⟩ := List.mem_map.mp hy
    exact ⟨o, rfl⟩
  | error before after d e hends hbefore hname =>
    subst hends
    refine iff_of_false (by simp) fun hall => ?_
    obtain ⟨o, ho⟩ := hall (d, .failed e) (by simp)
    cases ho

namespace FanOut

variable {f : FanOut} {ds : List Destination} {ends : List (Destination × SendEnd)}
  {d : Destination} {p : PendingSend} {l : Launch}

theorem aggregates_succeed (o : DeliveryOutcome) (h : Aggregates ends f.result) :
    Aggregates (ends ++ [(d, .settled o)]) (f.succeed d o).result := by
  unfold result succeed at *
  dsimp only at *
  split at h
  · next e hf =>
    cases h with
    | error before after d' e hends hbefore hname =>
      exact .error before (after ++ [(d, .settled o)]) d' e (by simp [hends]) hbefore hname
  · next hf =>
    cases h with
    | report outcomes hends => exact .report _ (by simp [hends])

theorem aggregates_fail {e : RouteError} (he : e.destination = d.identity)
    (h : Aggregates ends f.result) : Aggregates (ends ++ [(d, .failed e)]) (f.fail e).result := by
  have hok := h.ok_iff
  unfold result fail at *
  dsimp only at *
  split at h
  · next e' hf =>
    cases h with
    | error before after d' e' hends hbefore hname =>
      rw [hf]
      exact .error before (after ++ [(d, .failed e)]) d' e' (by simp [hends]) hbefore hname
  · next hf =>
    rw [hf] at hok ⊢
    exact .error ends [] d e rfl (hok.mp ⟨_, rfl⟩) he

/-! ## A fan-out that goes on -/

/-- The fan-out is one to `ds`, of whose sends these have ended and the others wait. -/
structure Tracks (f : FanOut) (ds : List Destination) (ends : List (Destination × SendEnd)) :
    Prop where
  devices : (ends.map (·.1) ++ f.pending.map (·.destination)).Perm ds
  result : Aggregates ends f.result
  lives : ∀ y ∈ ends, y.2 ≠ .died

theorem tracks_start (m : OutgoingMessage) : (start m).Tracks [] [] :=
  ⟨.nil, .report [] rfl, by simp⟩

/-- One more destination, whose send has ended. -/
theorem perm_ended {done waiting : List Destination} (h : (done ++ waiting).Perm ds) :
    ((done ++ [d]) ++ waiting).Perm (ds ++ [d]) := by
  rw [List.append_assoc, List.singleton_append]
  exact (List.perm_middle.trans (h.cons d)).trans (List.perm_append_singleton d ds).symm

theorem Tracks.distinct (h : f.Tracks ds ends) (hn : (ds.map (·.identity)).Nodup) :
    f.Distinct := by
  have hall := (h.devices.map (·.identity)).nodup_iff.mpr hn
  rw [List.map_append, List.map_map] at hall
  unfold Distinct identities
  simpa [Function.comp_def] using (List.nodup_append.mp hall).2.1

theorem Tracks.succeed (h : f.Tracks ds ends) (o : DeliveryOutcome) :
    (f.succeed d o).Tracks (ds ++ [d]) (ends ++ [(d, .settled o)]) where
  devices := by
    rw [List.map_append]
    exact perm_ended h.devices
  result := aggregates_succeed o h.result
  lives := by simpa [or_imp, forall_and] using h.lives

theorem Tracks.fail {e : RouteError} (h : f.Tracks ds ends) (he : e.destination = d.identity) :
    (f.fail e).Tracks (ds ++ [d]) (ends ++ [(d, .failed e)]) where
  devices := by
    rw [List.map_append]
    exact perm_ended h.devices
  result := aggregates_fail he h.result
  lives := by simpa [or_imp, forall_and] using h.lives

theorem Tracks.add (h : f.Tracks ds ends) (p : PendingSend) :
    (f.add p).Tracks (ds ++ [p.destination]) ends where
  devices := by simpa [FanOut.add] using h.devices.append_right [p.destination]
  result := h.result
  lives := h.lives

/-- The transport has answered for a send. -/
theorem Tracks.settle {settings : Settings} {clock : Clock} {result : SendResult}
    (h : f.Tracks ds ends) (hn : (ds.map (·.identity)).Nodup) (hp : p ∈ f.pending)
    (hlives : ¬ p.Kills settings clock result) :
    (f.settle p result).Tracks ds (ends ++ [p.ending settings clock result]) := by
  have hdevices : (ends.map (·.1) ++ p.destination ::
      (f.settle p result).pending.map (·.destination)).Perm ds := by
    rw [pending_settle]
    refine List.Perm.trans ?_ h.devices
    exact ((pending_perm_of_mem (h.distinct hn) hp).map (·.destination)).symm.append_left _
  unfold PendingSend.ending
  rw [if_neg hlives]
  refine ⟨by simpa using hdevices, ?_, ?_⟩
  · rcases result with e | ⟨⟩
    · exact aggregates_fail rfl h.result
    · exact aggregates_succeed p.outcome h.result
  · rcases result with e | ⟨⟩ <;> simpa [or_imp, forall_and] using h.lives

/-- A launch that the task survives. -/
theorem Tracks.take {settings : Settings} {w : Surroundings} (h : f.Tracks ds ends)
    (hn : ((ds ++ [l.destination]).map (·.identity)).Nodup)
    (hl : ∀ p, l.prepared = .ok (some p) → p.destination = l.destination)
    (hlives : l.fatal settings w = false) :
    (f.take w.atOnce l).Tracks (ds ++ [l.destination])
      (ends ++ (l.ending? settings w).toList) := by
  obtain ⟨d, prepared⟩ := l
  rcases prepared with e | _ | p
  · exact h.fail rfl
  · exact h.succeed _
  · have hadd := h.add p
    rw [hl p rfl] at hadd
    have hp : p ∈ (f.add p).pending := by simp [FanOut.add]
    unfold FanOut.take Launch.ending?
    cases hw : w.atOnce p.envelope with
    | none => simpa [hw] using hadd
    | some result =>
      -- as if the send had been waited for
      have hsurvives : ¬ p.Kills settings w.clock result := by
        simpa [Launch.fatal, Launch.send?, PendingSend.fatal, hw] using hlives
      have hsettle := hadd.settle hn hp hsurvives
      rw [settle_add] at hsettle
      simpa [hw] using hsettle

/-- All launches, none of which the task dies of. -/
theorem Tracks.foldl_take {settings : Settings} {w : Surroundings} :
    ∀ (ls : List Launch) {f : FanOut} {ds : List Destination} {ends : List (Destination × SendEnd)},
      f.Tracks ds ends → ((ds ++ ls.map (·.destination)).map (·.identity)).Nodup →
      (∀ l ∈ ls, ∀ p, l.prepared = .ok (some p) → p.destination = l.destination) →
      (∀ l ∈ ls, l.fatal settings w = false) →
      (ls.foldl (FanOut.take w.atOnce) f).Tracks (ds ++ ls.map (·.destination))
        (ends ++ ls.filterMap (·.ending? settings w))
  | [], _, _, _, h, _, _, _ => by simpa using h
  | l :: ls, f, ds, ends, h, hn, hl, hlives => by
    have hassoc : ds ++ (l :: ls).map (·.destination) =
        (ds ++ [l.destination]) ++ ls.map (·.destination) := by simp
    rw [hassoc] at hn ⊢
    have hfirst : ((ds ++ [l.destination]).map (·.identity)).Nodup := by
      rw [List.map_append] at hn
      exact (List.nodup_append.mp hn).1
    have htake := h.take hfirst (hl l (.head _)) (hlives l (.head _))
    have := htake.foldl_take ls hn (fun l' h' => hl l' (.tail _ h')) fun l' h' => hlives l' (.tail _ h')
    rw [List.foldl_cons]
    cases hend : l.ending? settings w <;> simpa [hend] using this

end FanOut

/-- The task dies in the end of a fatal launch. -/
theorem Launch.ending?_of_fatal {settings : Settings} {w : Surroundings} {l : Launch}
    (h : l.fatal settings w = true) : ∃ d, l.ending? settings w = some (d, .died) := by
  obtain ⟨d, prepared⟩ := l
  rcases prepared with e | _ | p
  · cases h
  · cases h
  · obtain ⟨result, hw, hkills⟩ : ∃ result, w.atOnce p.envelope = some result ∧
        p.Kills settings w.clock result := by
      simpa [fatal, send?, PendingSend.fatal, Option.any_eq_true] using h
    refine ⟨p.destination, ?_⟩
    simp [ending?, hw, PendingSend.ending, hkills]

namespace Node

variable {n : Node} {w : Surroundings} {m : OutgoingMessage} {ds : List Destination}

/-- A fan-out whose task dies on the way. -/
theorem exists_died_of_launchAll (h : (launchAll w ds (FanOut.start m) n).1 = none) :
    ∃ y ∈ n.endings w m ds, y.2 = .died := by
  have hfst := launchAll_fst w ds (FanOut.start m) n
  rw [h] at hfst
  split at hfst
  · next hany =>
    obtain ⟨l, hl, hfatal⟩ := exists_mem_upTo hany
    obtain ⟨d, hend⟩ := Launch.ending?_of_fatal hfatal
    exact ⟨_, List.mem_filterMap.mpr ⟨l, hl, hend⟩, rfl⟩
  · cases hfst

/-- A fan-out all of whose sends have started. -/
theorem tracks_launchAll {f : FanOut} (hn : (ds.map (·.identity)).Nodup)
    (h : (launchAll w ds (FanOut.start m) n).1 = some f) : f.Tracks ds (n.endings w m ds) := by
  have hfst := launchAll_fst w ds (FanOut.start m) n
  rw [h, show (FanOut.start m).message = m from rfl] at hfst
  split at hfst
  · cases hfst
  · next hany =>
    have hlives : ∀ l ∈ launches w m ds n.store, l.fatal n.settings w = false := by
      simpa using hany
    have hdest := launches_destinations w m ds n.store
    have htracks := (FanOut.tracks_start m).foldl_take (launches w m ds n.store)
      (by simpa [hdest] using hn) (fun l hl p => destination_of_launches hl) hlives
    rw [Option.some_inj.mp hfst]
    unfold endings
    rw [upTo_of_forall hlives]
    simpa [hdest] using htracks

end Node

/-! ## The route among the calls -/

namespace System

variable {s t : System} {id : Nat} {m : OutgoingMessage} {ds : List Destination} {n n' : Node}
  {x : Exchange} {e : Event} {ends : List (Destination × SendEnd)} {f : FanOut}

/-- Route `id` is a fan-out to `ds` of whose sends these have ended: it waits for the others, it has
returned, or it is dead. -/
inductive FanOutStands (t : System) (id : Nat) (ds : List Destination)
    (ends : List (Destination × SendEnd)) : Prop where
  | waits (f : FanOut) (hcall : t.calls.lookup id = some (.route (.fanningOut f)))
      (hf : f.Tracks ds ends) (hwaiting : f.pending ≠ [])
  | returned (r : RouteResult) (hcall : t.calls.lookup id = none)
      (hresult : t.finished.lookup id = some (.report r)) (hall : (ends.map (·.1)).Perm ds)
      (hr : Aggregates ends r) (hlives : ∀ y ∈ ends, y.2 ≠ .died)
  | dead (hcall : t.calls.lookup id = none) (hresult : t.finished.lookup id = some .died)
      (hdied : ∃ y ∈ ends, y.2 = .died)

/-- The sends have ended like this, and the route makes a step. -/
theorem stands_settleCall {o : Option FanOut} (hdies : o = none → ∃ y ∈ ends, y.2 = .died)
    (hlives : ∀ f, o = some f → f.Tracks ds ends) :
    (t.settleCall id ((Node.checkFanOut o).toCall, n')).FanOutStands id ds ends := by
  have hcalls := lookup_settleCall t id ((Node.checkFanOut o).toCall, n') id
  have hfinished := finished_settleCall t id ((Node.checkFanOut o).toCall, n')
  rw [if_pos rfl] at hcalls
  cases o with
  | none =>
    refine .dead hcalls ?_ (hdies rfl)
    rw [hfinished]
    exact List.lookup_cons_self
  | some f =>
    have hf := hlives f rfl
    unfold Node.checkFanOut at hcalls hfinished ⊢
    by_cases hp : f.pending = []
    · simp only [hp, List.isEmpty_nil, if_true] at hcalls hfinished ⊢
      refine .returned f.result hcalls ?_ ?_ hf.result hf.lives
      · rw [hfinished]
        exact List.lookup_cons_self
      · simpa [hp] using hf.devices
    · have hne : f.pending.isEmpty = false := by simpa using hp
      simp only [hne, Bool.false_eq_true, if_false] at hcalls ⊢
      exact .waits f hcalls hf hp

/-- The fan-out has started. -/
theorem FansOut.stands (h : s.FansOut id m ds n e) (x : Exchange) :
    (s.step x e).FanOutStands id ds (n.endings (s.surroundings x) m ds) := by
  rw [h.step_eq x]
  exact stands_settleCall Node.exists_died_of_launchAll fun _ => Node.tracks_launchAll h.nodup

theorem endings_of_other (ha : ∀ a, e ≠ .answer id a) : s.endings id e = [] := by
  unfold endings
  split
  · next other a => exact if_neg fun h => ha a (by rw [h])
  · rfl

theorem endings_of_idle (h : s.calls.lookup id = none) : s.endings id e = [] := by
  unfold endings
  split
  · split
    · rw [h]
    · rfl
  · rfl

/-- The answer for a fan-out that waits. -/
theorem FanOutStands.answer (hcall : t.calls.lookup id = some (.route (.fanningOut f)))
    (hf : f.Tracks ds ends) (hwaiting : f.pending ≠ []) (hn : (ds.map (·.identity)).Nodup)
    (a : Answer) :
    (t.step x (.answer id a)).FanOutStands id ds (ends ++ t.endings id (.answer id a)) := by
  rw [step_answer hcall, Node.answer_fanningOut]
  unfold endings
  simp only [if_true, hcall]
  cases ha : f.answered? a with
  | none =>
    simp only [Option.map_none, Option.toList_none, List.append_nil]
    refine .waits f ?_ hf hwaiting
    rw [lookup_settleCall, if_pos rfl]
    rfl
  | some sent =>
    obtain ⟨p, result⟩ := sent
    simp only [Option.map_some, Option.toList_some]
    have hfst := Node.settleIn_fst t.node (t.surroundings x) f p result
    refine stands_settleCall (fun hnone => ?_) fun f' hf' => ?_
    · rw [hfst] at hnone
      split at hnone
      · next hkills =>
        refine ⟨p.ending t.node.settings t.clock result, by simp, ?_⟩
        exact if_pos hkills
      · cases hnone
    · rw [hfst] at hf'
      split at hf'
      · cases hf'
      · next hlives =>
        cases hf'
        exact hf.settle hn (FanOut.mem_of_answered? ha) hlives

/-- Every event but a restart, and a new call of the number. -/
theorem FanOutStands.step (h : t.FanOutStands id ds ends) (hn : (ds.map (·.identity)).Nodup)
    (hr : e ≠ .restart) (hb : ∀ r, e ≠ .begin id r) :
    (t.step x e).FanOutStands id ds (ends ++ t.endings id e) := by
  by_cases ha : ∃ a, e = .answer id a
  · obtain ⟨a, rfl⟩ := ha
    cases h with
    | waits f hcall hf hwaiting => exact FanOutStands.answer hcall hf hwaiting hn a
    | returned r hcall hresult hall hr hlives =>
      rw [step_answer_none hcall, endings_of_idle hcall, List.append_nil]
      exact .returned r hcall hresult hall hr hlives
    | dead hcall hresult hdied =>
      rw [step_answer_none hcall, endings_of_idle hcall, List.append_nil]
      exact .dead hcall hresult hdied
  · have ha' : ∀ a, e ≠ .answer id a := fun a h => ha ⟨a, h⟩
    have hcalls := lookup_step (s := t) (x := x) hb ha' hr
    have hfinished := finished_lookup_step (s := t) (x := x) hb ha' hr
    rw [endings_of_other ha', List.append_nil]
    cases h with
    | waits f hcall hf hwaiting => exact .waits f (hcalls.trans hcall) hf hwaiting
    | returned r hcall hresult hall hr hlives =>
      exact .returned r (hcalls.trans hcall) (hfinished.trans hresult) hall hr hlives
    | dead hcall hresult hdied =>
      exact .dead (hcalls.trans hcall) (hfinished.trans hresult) hdied

theorem FanOutStands.run (hn : (ds.map (·.identity)).Nodup) :
    ∀ {events : List (Exchange × Event)} {t : System} {ends : List (Destination × SendEnd)},
      t.FanOutStands id ds ends →
      (∀ y ∈ events, y.2 ≠ .restart ∧ ∀ r, y.2 ≠ .begin id r) →
      (t.run events).FanOutStands id ds (ends ++ t.endingsIn id events)
  | [], _, _, h, _ => by simpa [endingsIn, System.run] using h
  | (x, e) :: events, t, ends, h, hlater => by
    obtain ⟨hr, hb⟩ := hlater (x, e) (.head _)
    have hstep := h.step (x := x) hn hr hb
    have := FanOutStands.run hn hstep fun y hy => hlater y (.tail _ hy)
    rw [List.append_assoc] at this
    exact this

/-- A fan-out as call `id` does what its ends call for: it waits for the sends that have not ended,
and when all have, it returns their result. -/
structure AggregateLaw (t : System) (id : Nat) (ds : List Destination)
    (ends : List (Destination × SendEnd)) : Prop where
  /-- No send of a destination is given up. -/
  waits : ¬ (ends.map (·.1)).Perm ds → ∃ f, t.calls.lookup id = some (.route (.fanningOut f)) ∧
    (ends.map (·.1) ++ f.pending.map (·.destination)).Perm ds
  returns : (ends.map (·.1)).Perm ds → t.calls.lookup id = none ∧
    ∃ r, t.finished.lookup id = some (.report r) ∧ Aggregates ends r ∧
      ((∃ report, r = .ok report) ↔ ∀ y ∈ ends, ∃ o, y.2 = .settled o) ∧
      ∀ report, r = .ok report → report.fannedOut = true ∧
        (report.outcomes.map (·.1)).Perm ds ∧ report.outcomes.countP (·.1.isMaster) = 1

theorem FanOutStands.law_iff (h : t.FanOutStands id ds ends) (hm : ds.countP (·.isMaster) = 1) :
    t.AggregateLaw id ds ends ↔ ∀ y ∈ ends, y.2 ≠ .died := by
  cases h with
  | waits f hcall hf hwaiting =>
    refine iff_of_true ⟨fun _ => ⟨f, hcall, hf.devices⟩, fun hall => ?_⟩ hf.lives
    -- all destinations have ended, so none can be waited for
    have hlen := (hall.trans hf.devices.symm).length_eq
    simp only [List.length_append, List.length_map] at hlen
    exact absurd (List.length_eq_zero_iff.mp (by omega)) hwaiting
  | returned r hcall hresult hall hr hlives =>
    refine iff_of_true ⟨fun hnot => absurd hall hnot, fun _ =>
      ⟨hcall, r, hresult, hr, hr.ok_iff, fun report hreport => ?_⟩⟩ hlives
    subst hreport
    cases hr with
    | report outcomes hends =>
      have hperm : (outcomes.map (·.1)).Perm ds := by
        rw [hends, List.map_map] at hall
        exact hall
      refine ⟨rfl, hperm, ?_⟩
      rw [← hm, ← hperm.countP_eq, List.countP_map]
      rfl
  | dead hcall hresult hdied =>
    refine iff_of_false (fun hlaw => ?_) fun hlives => ?_
    · by_cases hall : (ends.map (·.1)).Perm ds
      · obtain ⟨-, r, hr, -⟩ := hlaw.returns hall
        rw [hresult] at hr
        cases hr
      · obtain ⟨f, hf, -⟩ := hlaw.waits hall
        rw [hcall] at hf
        cases hf
    · obtain ⟨y, hy, hd⟩ := hdied
      exact hlives y hy hd

/-- A route that fans out waits until every destination has settled, and returns the report of all
of them or the failure that settled first, exactly if its task does not die: of a handshake that is
delivered while its expiry is no timestamp. -/
theorem aggregate_law_iff (h : s.FansOut id m ds n e) (x : Exchange)
    {events : List (Exchange × Event)}
    (hlater : ∀ y ∈ events, y.2 ≠ .restart ∧ ∀ r, y.2 ≠ .begin id r)
    (hends : n.endings (s.surroundings x) m ds ++ (s.step x e).endingsIn id events = ends) :
    ((s.step x e).run events).AggregateLaw id ds ends ↔ ∀ y ∈ ends, y.2 ≠ .died := by
  subst hends
  exact (FanOutStands.run h.nodup (h.stands x) hlater).law_iff h.one_master

/-- The slave fails on the spot, the master is reached later; the route returns the failure. -/
theorem aggregate_law_of_late_success :
    let message : OutgoingMessage := .toContact "m" "bob" [] 0
    let s := (idle (.assemble Config.default.settings (.reliable .empty)) ⟨0, 0⟩).run
      [(.quiet, .begin 0 (.route message))]
    let x : Exchange := ⟨fun _ => "h", fun e =>
      if e.recipient = "bob" then none else some (.error (.unreachable "off"))⟩
    let ends := [(⟨"bob-phone", false⟩, .failed (.sendFailed "bob-phone" (.unreachable "off"))),
      (⟨"bob", true⟩, .settled .handshakeSent)]
    ((s.step x (.answer 0 (.links (.ok [.between "bob" "bob-phone"])))).run
        [(.quiet, .answer 0 (.delivery "bob" (.ok ())))]).AggregateLaw 0
      (destinationsIn [.between "bob" "bob-phone"] "bob") ends := by
  intro message s x ends
  have hfans : s.FansOut 0 message (destinationsIn [.between "bob" "bob-phone"] "bob") _ _ :=
    .resumes (.known "bob" "bob") (.ok [.between "bob" "bob-phone"]) rfl rfl
  refine Iff.mpr (aggregate_law_iff hfans x ?_ ?_) ?_
  · simp
  · decide +kernel
  · decide

/-- The handshake to the master is delivered, and its expiry is no timestamp. The task dies, and
nothing is sent to the slave, whom the message could reach. -/
theorem aggregate_law_fails_for_long_expiry :
    let settings := { Config.default.settings with
      handshakeExpiry := .ofSeconds 9223372036854775 }
    let message : OutgoingMessage := .toContact "m" "bob" [] 0
    let s := (idle (.assemble settings (.reliable .empty)) ⟨0, 1700000000000⟩).run
      [(.quiet, .establish "bob-phone"), (.quiet, .begin 0 (.route message))]
    let x : Exchange := ⟨fun _ => "h", fun _ => some (.ok ())⟩
    let ds := destinationsIn [.between "bob" "bob-phone"] "bob"
    let e := Event.answer 0 (.links (.ok [.between "bob" "bob-phone"]))
    ∃ n, s.FansOut 0 message ds n e ∧ ¬ (s.step x e).AggregateLaw 0 ds
        (n.endings (s.surroundings x) message ds) ∧
      (s.step x e).node.handed.map (·.1.recipient) = ["bob"] := by
  intro settings message s x ds e
  refine ⟨_, .resumes (.known "bob" "bob") (.ok [.between "bob" "bob-phone"]) rfl rfl,
    fun hlaw => ?_, by decide +kernel⟩
  have hcall : ((s.step x e).calls.lookup 0).isNone = true := by decide +kernel
  obtain ⟨f, hf, -⟩ := hlaw.waits (by decide +kernel)
  rw [hf] at hcall
  cases hcall

end System

end Courier
