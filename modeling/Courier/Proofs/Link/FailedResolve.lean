import Courier.Proofs.Link.Resolve

/-!
# Resolves that fail

A resolve asks the directory once or twice, and what the first answer brought is taken over at once.
So a resolve that fails at its second question leaves the links of the first answer behind, and the
device stamped as fresh.

* `LinkCache.failed_cases`: the two ways to fail.
* `LinkCache.FailsClean`: a failed resolve has changed nothing and the next one asks again.
  `failsClean_iff`: so it is exactly if a failing resolve fails at its first question; otherwise the
  cache answers for the device until the interval is over.
-/

namespace Courier.LinkCache

variable {c c' : LinkCache} {s s' : Store} {x y m : Identity} {interval : Duration}
  {t t₀ t₁ t₂ t₃ : Nat} {d₁ d₂ : Identity → DirectoryAnswer} {answer : DirectoryAnswer}
  {e : DirectoryError}

/-- The course of a resolve that begins at `t₀`: its first question is answered at `t₁` by `d₁`, its
second one, if any, at `t₂` by `d₂`. -/
def course (c : LinkCache) (s : Store) (x : Identity) (interval : Duration) (t₀ t₁ t₂ : Nat)
    (d₁ d₂ : Identity → DirectoryAnswer) : ResolveStep × LinkCache × Store :=
  (c.resolve interval t₀ x).pursue interval [(t₁, d₁), (t₂, d₂)] c s

/-! ## Refreshes -/

theorem refresh_eq_error :
    c.refresh s t x m answer = .error e ↔
      ∃ reason, answer = .error (.unavailable reason) ∧ e = .unavailable reason := by
  unfold refresh
  rcases answer with (reason | reason) | fetched <;> simp [eq_comm]

/-- A refresh stamps the device. -/
theorem refreshedAt_of_refresh (h : c.refresh s t x m answer = .ok (c', s')) :
    c'.refreshedAt x = some t := by
  unfold refresh at h
  rcases answer with (reason | reason) | fetched <;> cases h <;>
    rw [refreshedAt_stamp, if_pos rfl]

theorem stale_iff_of_refresh (h : c.refresh s t x m answer = .ok (c', s')) :
    c'.Stale interval t₃ x ↔ interval.nanos < t₃ - t := by
  unfold Stale
  rw [refreshedAt_of_refresh h]

/-- A stale device is not refreshed by passing time. -/
theorem Stale.later (h : c.Stale interval t₀ x) (ht : t₀ ≤ t₁) : c.Stale interval t₁ x := by
  unfold Stale at *
  split at h
  · trivial
  · show interval.nanos < t₁ - _
    omega

/-- A refresh of a stale device changes the cache. -/
theorem refresh_ne (hstale : c.Stale interval t₀ x) (ht : t₀ ≤ t₁)
    (h : c.refresh s t₁ x m answer = .ok (c', s')) : c' ≠ c := by
  rintro rfl
  have hlast := (stale_iff_of_refresh h).mp (hstale.later ht)
  omega

/-- Only links can show another master. -/
theorem links_of_revealed (h : c.refresh s t x m answer = .ok (c', s'))
    (hrevealed : c'.masterOf x ≠ c.masterOf x) :
    ∃ links, answer = .ok links ∧
      c' = { c with table := c.table.applyFetch m links }.stamp x t ∧ s' = persist m links s := by
  unfold refresh at h
  rcases answer with (reason | reason) | links <;> cases h
  · exact absurd rfl hrevealed
  · exact ⟨links, rfl, rfl, rfl⟩

/-! ## Failures -/

/-- A failing resolve is of a stale device. Either the first question fails and nothing changes, or
the first answer is taken over, shows another master, and the question about that one fails. -/
theorem failed_cases (h : c.course s x interval t₀ t₁ t₂ d₁ d₂ = (.ends (.error e), c', s')) :
    c.Stale interval t₀ x ∧
      ((c.refresh s t₁ x (c.masterOf x) (d₁ (c.masterOf x)) = .error e ∧ c' = c ∧ s' = s) ∨
        (c.refresh s t₁ x (c.masterOf x) (d₁ (c.masterOf x)) = .ok (c', s') ∧
          c'.masterOf x ≠ c.masterOf x ∧
          c'.refresh s' t₂ (c'.masterOf x) (c'.masterOf x) (d₂ (c'.masterOf x)) = .error e)) := by
  unfold course resolve at h
  split at h
  · next hstale =>
    refine ⟨hstale, ?_⟩
    simp only [ResolveStep.pursue, Resolving.asks, Resolving.resume] at h
    cases hfirst : c.refresh s t₁ x (c.masterOf x) (d₁ (c.masterOf x)) with
    | error e' =>
      simp only [hfirst, ResolveStep.pursue] at h
      cases h
      exact .inl ⟨rfl, rfl, rfl⟩
    | ok first =>
      obtain ⟨c₁, s₁⟩ := first
      simp only [hfirst] at h
      split at h
      · next hreveals =>
        simp only [ResolveStep.pursue, Resolving.asks, Resolving.resume] at h
        cases hsecond : c₁.refresh s₁ t₂ (c₁.masterOf x) (c₁.masterOf x) (d₂ (c₁.masterOf x)) with
        | error e' =>
          simp only [hsecond] at h
          cases h
          exact .inr ⟨rfl, hreveals.1, hsecond⟩
        | ok second => simp [hsecond] at h
      · simp [ResolveStep.pursue] at h
  · simp [ResolveStep.pursue] at h

/-- If such a resolve fails, it has changed neither the cache nor the stored links, and the next one
asks again. -/
def FailsClean (c : LinkCache) (s : Store) (x : Identity) (interval : Duration) (t₀ t₁ t₂ : Nat)
    (d₁ d₂ : Identity → DirectoryAnswer) : Prop :=
  ∀ e c' s', c.course s x interval t₀ t₁ t₂ d₁ d₂ = (.ends (.error e), c', s') →
    c' = c ∧ s'.db.links = s.db.links ∧
      ∀ t₃, t₁ ≤ t₃ → c'.resolve interval t₃ x = .waits (.known x (c.masterOf x))

/-- When a resolve that fails has changed nothing: exactly if it fails at its first question. One
that fails at its second has taken over the first answer, and the next one answers from that until
the interval is over. -/
theorem failsClean_iff (ht : t₀ ≤ t₁) :
    (c.FailsClean s x interval t₀ t₁ t₂ d₁ d₂ ↔
      ∀ e, (c.course s x interval t₀ t₁ t₂ d₁ d₂).1 = .ends (.error e) →
        ∃ reason, d₁ (c.masterOf x) = .error (.unavailable reason)) ∧
    ∀ e c' s', c.course s x interval t₀ t₁ t₂ d₁ d₂ = (.ends (.error e), c', s') →
      (∃ reason, d₁ (c.masterOf x) = .error (.unavailable reason)) ∨
      ∃ links, d₁ (c.masterOf x) = .ok links ∧
        c' = { c with table := c.table.applyFetch (c.masterOf x) links }.stamp x t₁ ∧
        s' = persist (c.masterOf x) links s ∧
        ∀ t₃, c'.resolve interval t₃ x =
          if interval.nanos < t₃ - t₁ then .waits (.known x (c'.masterOf x))
          else .ends (.ok (c'.destinations x)) := by
  refine ⟨⟨fun hclean e hfails => ?_, fun hfirst e c' s' hfails => ?_⟩, fun e c' s' hfails => ?_⟩
  · rcases hcourse : c.course s x interval t₀ t₁ t₂ d₁ d₂ with ⟨step, c', s'⟩
    obtain rfl : step = .ends (.error e) := by rwa [hcourse] at hfails
    obtain ⟨hsame, -, -⟩ := hclean e c' s' hcourse
    obtain ⟨hstale, ⟨herror, -, -⟩ | ⟨hok, -, -⟩⟩ := failed_cases hcourse
    · obtain ⟨reason, hreason, -⟩ := refresh_eq_error.mp herror
      exact ⟨reason, hreason⟩
    · exact absurd hsame (refresh_ne hstale ht hok)
  · obtain ⟨reason, hreason⟩ := hfirst e (by rw [hfails])
    obtain ⟨hstale, ⟨-, rfl, rfl⟩ | ⟨hok, -, -⟩⟩ := failed_cases hfails
    · exact ⟨rfl, rfl, fun t₃ ht₃ => if_pos (hstale.later (ht.trans ht₃))⟩
    · rw [hreason] at hok
      cases hok
  · obtain ⟨-, ⟨herror, -, -⟩ | ⟨hok, hrevealed, -⟩⟩ := failed_cases hfails
    · obtain ⟨reason, hreason, -⟩ := refresh_eq_error.mp herror
      exact .inl ⟨reason, hreason⟩
    · obtain ⟨links, hlinks, hc, hs⟩ := links_of_revealed hok hrevealed
      refine .inr ⟨links, hlinks, hc, hs, fun t₃ => ?_⟩
      unfold resolve
      simp only [stale_iff_of_refresh hok]

/-- The directory is down when a device that was never asked for is resolved. -/
theorem failsClean_of_silent_directory :
    let down : Identity → DirectoryAnswer := fun _ => .error (.unavailable "down")
    (0 : Nat) ≤ 0 ∧
      (empty.course (.reliable .empty) "bob" (.ofSeconds 20) 0 0 0 down down).1 =
        .ends (.error (.unavailable "down")) ∧
      empty.FailsClean (.reliable .empty) "bob" (.ofSeconds 20) 0 0 0 down down := by
  refine ⟨le_rfl, by rfl, ?_⟩
  exact (failsClean_iff le_rfl).1.mpr fun e _ => ⟨"down", rfl⟩

/-- The answer about a phone shows its master, and the directory is down when it is asked about that
one: the resolve fails, and the next one sends to the phone and the master alone. -/
theorem not_failsClean_of_revealed_master :
    let phone : Identity → DirectoryAnswer := fun _ => .ok [.between "bob" "bob-phone"]
    let down : Identity → DirectoryAnswer := fun _ => .error (.unavailable "down")
    let after := empty.course (.reliable .empty) "bob-phone" (.ofSeconds 20) 0 0 0 phone down
    after.1 = .ends (.error (.unavailable "down")) ∧
      after.2.2.db.links = [.between "bob" "bob-phone"] ∧
      after.2.1.resolve (.ofSeconds 20) 0 "bob-phone" =
        .ends (.ok [⟨"bob", true⟩, ⟨"bob-phone", false⟩]) ∧
      ¬ empty.FailsClean (.reliable .empty) "bob-phone" (.ofSeconds 20) 0 0 0 phone down := by
  intro phone down after
  have hfails : after = (.ends (.error (.unavailable "down")), after.2.1, after.2.2) := by rfl
  have hrows : after.2.2.db.links = [.between "bob" "bob-phone"] := by decide +kernel
  have hfresh : ¬ after.2.1.Stale (.ofSeconds 20) 0 "bob-phone" := by decide +kernel
  have hsends : after.2.1.destinations "bob-phone" = [⟨"bob", true⟩, ⟨"bob-phone", false⟩] := by
    decide +kernel
  refine ⟨by rw [hfails], hrows, ?_, fun hclean => ?_⟩
  · exact (if_neg hfresh).trans (by rw [hsends])
  · obtain ⟨-, hsame, -⟩ := hclean _ _ _ hfails
    rw [hrows] at hsame
    cases hsame

end Courier.LinkCache
