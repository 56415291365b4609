import Courier.Proofs.Link.FailedResolve
import Courier.Proofs.Node.Keeps

/-!
# How often the directory is asked

A resolve asks the directory only on behalf of a stale device, and the first answer that it can use
stamps that device, whichever master it was asked about. A stamp is only ever replaced by a later
one, so a device that was stamped stays fresh for the refresh interval, through everything that
happens to the links meanwhile.

* `Resolver.run`: resolves one after the other, each with its answers, and waits, new links and
  evictions between them; `Resolution` is what one of the resolves did.
* `Resolver.RefreshedSince`: the device was stamped at an instant or later. Every event keeps it
  (`RefreshedSince.step`), and a resolve that asks has waited for the interval
  (`RefreshedSince.waited`).
* `ResolveStep.left`: how many questions a resolve may still ask; a question that is answered uses
  up one (`length_follow`).
* `Resolver.asked_once_per_interval`: two resolves of a device that both ask are more than the
  interval apart, none asks more than twice, and answers that cannot be read change no link.
-/

namespace Courier

/-- A link cache over a store, at an instant of the monotonic clock. -/
structure Resolver where
  cache : LinkCache
  store : Store
  instant : Nat

/-- A question that the directory has answered, and when. -/
structure Fetch where
  about : Identity
  instant : Nat
  answer : DirectoryAnswer

/-- The answer could not be read. -/
def Fetch.Unreadable (f : Fetch) : Prop :=
  ∃ reason, f.answer = .error (.parsingFailed reason)

instance : DecidablePred Fetch.Unreadable
  | ⟨_, _, .error (.parsingFailed reason)⟩ => isTrue ⟨reason, rfl⟩
  | ⟨_, _, .error (.unavailable _)⟩ => isFalse nofun
  | ⟨_, _, .ok _⟩ => isFalse nofun

/-- What a resolve did: the questions that were answered to it, in order, where it stands after
them, and the resolver before and after. -/
structure Resolution where
  identity : Identity
  before : Resolver
  fetches : List Fetch
  outcome : ResolveStep
  after : Resolver

/-- How many questions the resolve has asked, with the one that it waits for. -/
def Resolution.asked (v : Resolution) : Nat :=
  match v.outcome with
  | .waits _ => v.fetches.length + 1
  | .ends _ => v.fetches.length

/-- What can happen to a resolver. -/
inductive ResolverEvent where
  /-- Time passes, in nanoseconds. -/
  | wait (nanos : Nat)
  /-- A device is resolved; each answer is what the directory says after so many nanoseconds. -/
  | resolve (identity : Identity) (answers : List (Nat × DirectoryAnswer))
  | record (l : DeviceLink)
  | evict (l : DeviceLink)

/-- A resolve goes on with the answers, as long as it waits for one. Where `ResolveStep.pursue` has
the outcome only, this notes the questions and keeps the time. -/
def ResolveStep.follow (interval : Duration) :
    List (Nat × DirectoryAnswer) → ResolveStep → Resolver → List Fetch × ResolveStep × Resolver
  | (delay, answer) :: rest, .waits r, p =>
    let instant := p.instant + delay
    let (step, cache, store) := r.resume interval instant answer p.cache p.store
    let (fetches, outcome) := follow interval rest step ⟨cache, store, instant⟩
    (⟨r.asks, instant, answer⟩ :: fetches, outcome)
  | _, step, p => ([], step, p)

namespace Resolver

/-- A device is resolved, with the answers of the directory at hand. -/
def resolve (p : Resolver) (interval : Duration) (identity : Identity)
    (answers : List (Nat × DirectoryAnswer)) : Resolution :=
  let (fetches, outcome, after) :=
    (p.cache.resolve interval p.instant identity).follow interval answers p
  ⟨identity, p, fetches, outcome, after⟩

/-- A change of links is made at an instant. -/
def change (p : Resolver) (instant : Nat) (work : LinkWork) : Resolver :=
  ⟨(work.apply instant p.cache p.store).1, (work.apply instant p.cache p.store).2, instant⟩

/-- The resolver after an event. -/
def step (interval : Duration) (p : Resolver) : ResolverEvent → Resolver
  | .wait nanos => { p with instant := p.instant + nanos }
  | .resolve identity answers => (p.resolve interval identity answers).after
  | .record l => p.change p.instant (.record l)
  | .evict l => p.change p.instant (.evict l)

/-- What an event resolves, if it is a resolve. -/
def resolution? (interval : Duration) (p : Resolver) : ResolverEvent → Option Resolution
  | .resolve identity answers => some (p.resolve interval identity answers)
  | _ => none

/-- The resolves of a list of events, in order. -/
def run (interval : Duration) : Resolver → List ResolverEvent → List Resolution
  | _, [] => []
  | p, e :: events => (p.resolution? interval e).toList ++ run interval (p.step interval e) events

end Resolver

variable {interval : Duration} {p : Resolver} {x : Identity} {t instant : Nat} {r : Resolving}
  {work : LinkWork} {answers : List (Nat × DirectoryAnswer)} {answer : DirectoryAnswer}
  {c : LinkCache} {s : Store}

/-! ## One question after the other -/

theorem Resolution.asked_pos {v : Resolution} (h : v.fetches ≠ []) : 0 < v.asked := by
  have hlength := List.length_pos_of_ne_nil h
  unfold asked
  split <;> omega

namespace ResolveStep

/-- A resolve that is over uses no more answers. -/
theorem follow_ends (answers : List (Nat × DirectoryAnswer))
    (result : Except DirectoryError (List Destination)) (p : Resolver) :
    (ends result).follow interval answers p = ([], ends result, p) := by
  cases answers <;> rfl

/-- An answer is a change of links, and the rest of the answers is for what the resolve does
next. -/
theorem follow_waits (delay : Nat) (answer : DirectoryAnswer)
    (rest : List (Nat × DirectoryAnswer)) (r : Resolving) (p : Resolver) :
    (waits r).follow interval ((delay, answer) :: rest) p =
      let instant := p.instant + delay
      let next := (r.resume interval instant answer p.cache p.store).1.follow interval rest
        (p.change instant (r.linkWork answer))
      (⟨r.asks, instant, answer⟩ :: next.1, next.2) := by
  have hchange := @Resolving.resume_snd interval (p.instant + delay) answer p.cache p.store r
  simp only [follow, Resolver.change, ← hchange]

theorem follow_nil (step : ResolveStep) (p : Resolver) :
    step.follow interval [] p = ([], step, p) :=
  rfl

/-- How many questions a resolve may still ask. -/
def left : ResolveStep → Nat
  | .waits (.known ..) => 2
  | .waits (.revealed ..) => 1
  | .ends _ => 0

theorem left_waits_pos (r : Resolving) : 0 < (waits r).left := by
  cases r
  · exact Nat.two_pos
  · exact Nat.one_pos

/-- Each answer uses up a question. -/
theorem left_resume : (r.resume interval instant answer c s).1.left < (waits r).left := by
  cases r with
  | known identity master =>
    show _ < 2
    unfold Resolving.resume
    dsimp only
    split
    · exact Nat.two_pos
    · split
      · exact Nat.one_lt_two
      · exact Nat.two_pos
  | revealed identity master =>
    show _ < 1
    unfold Resolving.resume
    dsimp only
    split <;> exact Nat.one_pos

theorem length_follow (step : ResolveStep) (p : Resolver) :
    (step.follow interval answers p).1.length + (step.follow interval answers p).2.1.left ≤
      step.left := by
  induction answers generalizing step p with
  | nil => simp [follow_nil]
  | cons first rest ih =>
    obtain ⟨delay, answer⟩ := first
    cases step with
    | ends result => simp [follow_ends]
    | waits r =>
      rw [follow_waits]
      have hleft : (r.resume interval (p.instant + delay) answer p.cache p.store).1.left <
          (waits r).left := left_resume
      have hrest := ih (r.resume interval (p.instant + delay) answer p.cache p.store).1
        (p.change (p.instant + delay) (r.linkWork answer))
      simp only [List.length_cons]
      omega

end ResolveStep

/-! ## Stamps -/

/-- A change of links leaves the stamp of a device as it is, or sets it to the present instant. -/
theorem LinkWork.refreshedAt_apply :
    (work.apply instant c s).1.refreshedAt x = c.refreshedAt x ∨
      (work.apply instant c s).1.refreshedAt x = some instant := by
  cases work with
  | refresh identity master answer =>
    have hstamp (c : LinkCache) : (c.stamp identity instant).refreshedAt x = c.refreshedAt x ∨
        (c.stamp identity instant).refreshedAt x = some instant := by
      rw [refreshedAt_stamp]
      split
      · exact .inr rfl
      · exact .inl rfl
    rcases answer with (e | e) | fetched
    · exact .inl rfl
    · exact hstamp c
    · exact hstamp { c with table := c.table.applyFetch master fetched }
  | record l => exact .inl rfl
  | evict l => exact .inl rfl

namespace Resolver

/-- The device was last stamped at `t` or later, and `t` is not still to come. -/
def RefreshedSince (p : Resolver) (x : Identity) (t : Nat) : Prop :=
  t ≤ p.instant ∧ ∃ stamp, t ≤ stamp ∧ p.cache.refreshedAt x = some stamp

namespace RefreshedSince

theorem change (h : p.RefreshedSince x t) (hnow : p.instant ≤ instant) :
    (p.change instant work).RefreshedSince x t := by
  obtain ⟨ht, stamp, hstamp, hx⟩ := h
  refine ⟨ht.trans hnow, ?_⟩
  have hcases : (work.apply instant p.cache p.store).1.refreshedAt x = p.cache.refreshedAt x ∨
      (work.apply instant p.cache p.store).1.refreshedAt x = some instant :=
    LinkWork.refreshedAt_apply
  rcases hcases with hsame | hnew
  · exact ⟨stamp, hstamp, hsame.trans hx⟩
  · exact ⟨instant, ht.trans hnow, hnew⟩

theorem follow (h : p.RefreshedSince x t) (step : ResolveStep) :
    (step.follow interval answers p).2.2.RefreshedSince x t := by
  induction answers generalizing step p with
  | nil => exact h
  | cons first rest ih =>
    obtain ⟨delay, answer⟩ := first
    cases step with
    | ends result => exact h
    | waits r =>
      rw [ResolveStep.follow_waits]
      exact ih (h.change (Nat.le_add_right _ _)) _

theorem step (h : p.RefreshedSince x t) (e : ResolverEvent) :
    (p.step interval e).RefreshedSince x t := by
  cases e with
  | wait nanos => exact ⟨h.1.trans (Nat.le_add_right _ _), h.2⟩
  | resolve identity answers => exact h.follow _
  | record l => exact h.change le_rfl
  | evict l => exact h.change le_rfl

end RefreshedSince

/-! ## A resolve -/

/-- A resolve of a fresh device asks nothing. -/
theorem stale_of_asked (h : 0 < (p.resolve interval x answers).asked) :
    p.cache.Stale interval p.instant x := by
  by_contra hfresh
  refine h.ne' ?_
  unfold resolve LinkCache.resolve
  rw [if_neg hfresh, ResolveStep.follow_ends]
  rfl

theorem resolve_of_stale (h : p.cache.Stale interval p.instant x) :
    p.resolve interval x answers =
      let course := (ResolveStep.waits (.known x (p.cache.masterOf x))).follow interval answers p
      ⟨x, p, course.1, course.2.1, course.2.2⟩ := by
  unfold resolve LinkCache.resolve
  rw [if_pos h]

/-- A device that was stamped at `t` is asked for again only after the interval. -/
theorem RefreshedSince.waited (h : p.RefreshedSince x t)
    (hasks : 0 < (p.resolve interval x answers).asked) : t + interval.nanos < p.instant := by
  have hstale := stale_of_asked hasks
  obtain ⟨-, stamp, hstamp, hx⟩ := h
  unfold LinkCache.Stale at hstale
  rw [hx] at hstale
  have hage : interval.nanos < p.instant - stamp := hstale
  omega

/-- A resolve that asked and did not fail has stamped its device with the first answer. -/
theorem refreshedSince_of_ok {f : Fetch} {ds : List Destination}
    (hf : (p.resolve interval x answers).fetches.head? = some f)
    (hok : (p.resolve interval x answers).outcome = .ends (.ok ds)) :
    (p.resolve interval x answers).after.RefreshedSince x f.instant := by
  have hstale := stale_of_asked (Resolution.asked_pos (List.ne_nil_of_mem (List.mem_of_head? hf)))
  rw [resolve_of_stale hstale] at hf hok ⊢
  cases answers with
  | nil => cases hf
  | cons first rest =>
    obtain ⟨delay, answer⟩ := first
    rw [ResolveStep.follow_waits] at hf hok ⊢
    obtain rfl : _ = f := Option.some.inj hf
    refine RefreshedSince.follow ⟨le_rfl, p.instant + delay, le_rfl, ?_⟩ _
    rcases answer with (reason | reason) | fetched
    · -- without an answer the resolve fails at once
      simp [Resolving.resume, LinkCache.refresh, ResolveStep.follow_ends] at hok
    · exact refreshedAt_stamp.trans (if_pos rfl)
    · exact refreshedAt_stamp.trans (if_pos rfl)

/-- A resolve all of whose answers cannot be read asks once, and is answered by the cache. -/
theorem resolve_of_unreadable (hasks : (p.resolve interval x answers).fetches ≠ [])
    (hall : ∀ f ∈ (p.resolve interval x answers).fetches, f.Unreadable) :
    (p.resolve interval x answers).outcome = .ends (.ok (p.cache.destinations x)) ∧
      (p.resolve interval x answers).after.cache.table = p.cache.table ∧
      (p.resolve interval x answers).after.store = p.store := by
  have hstale := stale_of_asked (Resolution.asked_pos hasks)
  rw [resolve_of_stale hstale] at hasks hall ⊢
  cases answers with
  | nil => exact absurd rfl hasks
  | cons first rest =>
    obtain ⟨delay, answer⟩ := first
    rw [ResolveStep.follow_waits] at hall ⊢
    obtain ⟨reason, rfl⟩ : ∃ reason, answer = .error (.parsingFailed reason) := hall _ (.head _)
    -- the links are the same, and so is the master: there is no second question
    have hends : ((Resolving.known x (p.cache.masterOf x)).resume interval (p.instant + delay)
        (.error (.parsingFailed reason)) p.cache p.store).1 =
          .ends (.ok (p.cache.destinations x)) :=
      congrArg Prod.fst (if_neg fun hrevealed => hrevealed.1 rfl)
    dsimp only
    rw [hends, ResolveStep.follow_ends]
    exact ⟨rfl, rfl, rfl⟩

/-- An answer that cannot be read changes no link and no row. -/
theorem resume_unreadable {reason : String} :
    (r.resume interval instant (.error (.parsingFailed reason)) c s).2.1.table = c.table ∧
      (r.resume interval instant (.error (.parsingFailed reason)) c s).2.2 = s := by
  rw [Resolving.resume_snd]
  cases r <;> exact ⟨rfl, rfl⟩

/-- A resolve asks twice at most. -/
theorem asked_le_two : (p.resolve interval x answers).asked ≤ 2 := by
  have hfirst : (p.cache.resolve interval p.instant x).left ≤ 2 := by
    unfold LinkCache.resolve
    split
    · exact le_rfl
    · exact Nat.zero_le _
  have hleft : (p.resolve interval x answers).fetches.length +
      (p.resolve interval x answers).outcome.left ≤ (p.cache.resolve interval p.instant x).left :=
    ResolveStep.length_follow _ p
  unfold Resolution.asked
  split
  · next r hwaits =>
    rw [hwaits] at hleft
    have hpos := ResolveStep.left_waits_pos r
    omega
  · omega

/-! ## Runs -/

variable {events : List ResolverEvent} {v : Resolution}

theorem mem_run_cons {e : ResolverEvent} :
    v ∈ p.run interval (e :: events) ↔
      p.resolution? interval e = some v ∨ v ∈ (p.step interval e).run interval events := by
  rw [run, List.mem_append, Option.mem_toList]

theorem resolution?_eq_some {e : ResolverEvent} :
    p.resolution? interval e = some v ↔
      ∃ x answers, e = .resolve x answers ∧ v = p.resolve interval x answers := by
  cases e with
  | resolve x answers => simp [resolution?, eq_comm]
  | wait nanos => simp [resolution?]
  | record l => simp [resolution?]
  | evict l => simp [resolution?]

/-- Each resolve of a run is one of some resolver. -/
theorem resolve_of_mem_run (h : v ∈ p.run interval events) :
    ∃ (q : Resolver) (answers : List (Nat × DirectoryAnswer)),
      v = q.resolve interval v.identity answers := by
  induction events generalizing p with
  | nil => cases h
  | cons e events ih =>
    rcases mem_run_cons.mp h with hfirst | hrest
    · obtain ⟨x, answers, -, rfl⟩ := resolution?_eq_some.mp hfirst
      exact ⟨p, answers, rfl⟩
    · exact ih hrest

/-- Once a device is stamped, whoever asks for it has waited for the interval. -/
theorem RefreshedSince.run (h : p.RefreshedSince x t) (hv : v ∈ p.run interval events)
    (hx : v.identity = x) (hasks : 0 < v.asked) : t + interval.nanos < v.before.instant := by
  induction events generalizing p with
  | nil => cases hv
  | cons e events ih =>
    rcases mem_run_cons.mp hv with hfirst | hrest
    · obtain ⟨y, answers, -, rfl⟩ := resolution?_eq_some.mp hfirst
      obtain rfl : y = x := hx
      exact h.waited hasks
    · exact ih (h.step e) hrest

/-- A resolve of a device that asked and did not fail comes more than the interval before every
later one that asks. -/
theorem pairwise_run :
    (p.run interval events).Pairwise fun v w => v.identity = w.identity → 0 < w.asked →
      ∀ f, v.fetches.head? = some f → (∃ ds, v.outcome = .ends (.ok ds)) →
        f.instant + interval.nanos < w.before.instant := by
  induction events generalizing p with
  | nil => exact .nil
  | cons e events ih =>
    refine List.pairwise_append.mpr ⟨?_, ih, fun v hv w hw hsame hasks f hf ⟨ds, hok⟩ => ?_⟩
    · cases p.resolution? interval e with
      | none => exact .nil
      | some v => exact List.pairwise_singleton _ v
    · obtain ⟨x, answers, rfl, rfl⟩ := resolution?_eq_some.mp (Option.mem_toList.mp hv)
      exact (refreshedSince_of_ok hf hok).run hw hsame.symm hasks

/-- How often the directory is asked. In every run, whatever the directory answers, how long the
waits are and which links come and go meanwhile:

* of two resolves of one device that both ask, where the earlier one is answered and does not fail,
  the later one begins more than the interval after the first answer to the earlier one;
* a resolve asks twice at most;
* an answer that cannot be read changes no link and no row, and a resolve all of whose answers
  cannot be read is answered as the cache alone would. -/
theorem asked_once_per_interval (interval : Duration) (p : Resolver)
    (events : List ResolverEvent) :
    ((p.run interval events).Pairwise fun v w => v.identity = w.identity → 0 < w.asked →
      ∀ f, v.fetches.head? = some f → (∃ ds, v.outcome = .ends (.ok ds)) →
        f.instant + interval.nanos < w.before.instant) ∧
    (∀ v ∈ p.run interval events, v.asked ≤ 2) ∧
    (∀ (r : Resolving) (instant : Nat) (reason : String) (c : LinkCache) (s : Store),
      let after := (r.resume interval instant (.error (.parsingFailed reason)) c s).2
      after.1.table = c.table ∧ after.2 = s) ∧
    ∀ v ∈ p.run interval events, v.fetches ≠ [] → (∀ f ∈ v.fetches, f.Unreadable) →
      v.outcome = .ends (.ok (v.before.cache.destinations v.identity)) ∧
        v.after.cache.table = v.before.cache.table ∧ v.after.store = v.before.store := by
  refine ⟨pairwise_run, fun v hv => ?_, fun r instant reason c s => resume_unreadable,
    fun v hv hasks hall => ?_⟩
  · obtain ⟨q, answers, hq⟩ := resolve_of_mem_run hv
    rw [hq]
    exact asked_le_two
  · obtain ⟨q, answers, hq⟩ := resolve_of_mem_run hv
    rw [hq] at hasks hall ⊢
    exact resolve_of_unreadable hasks hall

/-- Bob's phone shows its master, so the first resolve asks twice. A link that is recorded does not
make the phone stale; the interval does, and the answer that cannot be read keeps the links. -/
theorem asked_again_after_interval :
    let interval := Duration.ofSeconds 20
    let p : Resolver := ⟨.empty, .reliable .empty, 0⟩
    let shown : DirectoryAnswer := .ok [.between "bob" "bob-phone"]
    let garbled : DirectoryAnswer := .error (.parsingFailed "truncated")
    let events : List ResolverEvent :=
      [.resolve "bob-phone" [(5, shown), (7, shown)], .record (.between "bob" "bob-tablet"),
        .resolve "bob-phone" [(1, shown)], .wait interval.nanos,
        .resolve "bob-phone" [(1, garbled)]]
    ∃ first second third, p.run interval events = [first, second, third] ∧
      first.asked = 2 ∧ second.asked = 0 ∧ third.asked = 1 ∧
      5 + interval.nanos < third.before.instant ∧
      third.outcome = .ends (.ok (third.before.cache.destinations "bob-phone")) := by
  intro interval p shown garbled events
  obtain ⟨hspaced, -, -, hgarbled⟩ := asked_once_per_interval interval p events
  let first := p.resolve interval "bob-phone" [(5, shown), (7, shown)]
  let linked := first.after.step interval (.record (.between "bob" "bob-tablet"))
  let second := linked.resolve interval "bob-phone" [(1, shown)]
  let third := (second.after.step interval (.wait interval.nanos)).resolve interval "bob-phone"
    [(1, garbled)]
  have hrun : p.run interval events = [first, second, third] := rfl
  have hasked : first.asked = 2 ∧ second.asked = 0 ∧ third.asked = 1 := by decide +kernel
  have hsame : first.identity = "bob-phone" ∧ third.identity = "bob-phone" := by decide +kernel
  have hfirst : first.fetches.head? = some ⟨"bob-phone", 5, shown⟩ := by rfl
  have hends : ∃ ds, first.outcome = .ends (.ok ds) := ⟨_, by rfl⟩
  have hanswers : third.fetches ≠ [] ∧ ∀ f ∈ third.fetches, f.Unreadable := by decide +kernel
  clear_value first second third
  rw [hrun] at hspaced hgarbled
  refine ⟨first, second, third, hrun, hasked.1, hasked.2.1, hasked.2.2, ?_, ?_⟩
  · exact (List.pairwise_cons.mp hspaced).1 third (.tail _ (.head _)) (hsame.1.trans hsame.2.symm)
      (hasked.2.2 ▸ Nat.one_pos) _ hfirst hends
  · rw [← hsame.2]
    exact (hgarbled third (.tail _ (.tail _ (.head _))) hanswers.1 hanswers.2).1

end Resolver

end Courier
