import Courier.Link.Cache
import Courier.Proofs.Link.Table

/-!
# Resolving against a truthful directory

A resolve of a stale device asks about the master `m` that the cache remembers. If the answer shows
another master it asks about that one too, unless that is the device itself: the first answer has
just stamped the device as fresh, although the directory was not asked about it.

* `pursue_resolve`: the call ends with at most two answers, and with the destinations that the
  table then shows. `LinkTable.questions` are the devices it asks about, `LinkTable.settled` is
  the table at its end.
* `settled_contains_of_asked`, `pairs_settled_of_asked`: what the table shows of the devices that
  were asked about is what the directory has.
* `reachesAll_iff_asked`: the destinations are the directory's exactly if the master that they name
  was asked about or happens to be cached right. With one cached master `m` at most this fails
  exactly if `m` has lost the device and the device is slave of another, or has other slaves than
  the cached ones.
-/

namespace Courier

/-- What a directory that holds the links `d` says about a device. -/
def directoryAnswer (d : List DeviceLink) (identity : Identity) : DirectoryAnswer :=
  .ok (d.filter (·.Involves identity))

/-- A resolve that waits goes on as its questions are answered, each at an instant and by a
directory. -/
def ResolveStep.pursue (interval : Duration) :
    List (Nat × (Identity → DirectoryAnswer)) → ResolveStep → LinkCache → Store →
      ResolveStep × LinkCache × Store
  | (instant, directory) :: rest, .waits r, c, s =>
    let (step, c, s) := r.resume interval instant (directory r.asks) c s
    pursue interval rest step c s
  | _, step, c, s => (step, c, s)

namespace LinkTable

variable {t : LinkTable} {d : List DeviceLink} {x y k m s : Identity}

/-- The table after the true answer about a device. -/
def learn (t : LinkTable) (d : List DeviceLink) (m : Identity) : LinkTable :=
  t.applyFetch m (d.filter (·.Involves m))

/-- The master of a device that the answer about its cached master shows. -/
def revealed (t : LinkTable) (d : List DeviceLink) (x : Identity) : Identity :=
  masterIn (t.learn d (masterIn t.links x)).links x

/-- The devices that a resolve of the stale device `x` asks about, in order. -/
def questions (t : LinkTable) (d : List DeviceLink) (x : Identity) : List Identity :=
  if t.revealed d x ≠ masterIn t.links x ∧ t.revealed d x ≠ x then
    [masterIn t.links x, t.revealed d x]
  else [masterIn t.links x]

/-- The table at the end of such a resolve. -/
def settled (t : LinkTable) (d : List DeviceLink) (x : Identity) : LinkTable :=
  (t.questions d x).foldl (·.learn d ·) t

theorem pairs_involving : Pairs (d.filter (·.Involves m)) k s ↔ Pairs d k s ∧ (k = m ∨ s = m) := by
  constructor
  · rintro ⟨l, hl, hp⟩
    obtain ⟨hl, hm⟩ := List.mem_filter.mp hl
    refine ⟨⟨l, hl, hp⟩, ?_⟩
    obtain ⟨rfl, rfl⟩ := DeviceLink.matches_iff.mp hp
    exact of_decide_eq_true hm
  · rintro ⟨⟨l, hl, hp⟩, hm⟩
    obtain ⟨rfl, rfl⟩ := DeviceLink.matches_iff.mp hp
    exact ⟨l, List.mem_filter.mpr ⟨hl, decide_eq_true (show l.Involves m from hm)⟩, hp⟩

theorem contains_learn :
    (t.learn d m).Contains k s ↔
      if k = m then Pairs d m s else t.Contains k s ∨ (s = m ∧ Pairs d k s) := by
  unfold learn
  rw [contains_applyFetch]
  split
  · next hk => simp [pairs_involving]
  · next hk => simp [pairs_involving, hk, and_comm]

theorem proper_settled (h : t.Proper) : (t.settled d x).Proper := by
  unfold settled
  generalize t.questions d x = qs
  induction qs generalizing t with
  | nil => exact h
  | cons q qs ih => exact ih (h.applyFetch q _)

/-- The two shapes of a resolve: one question, or a second one about a new master. -/
theorem settled_cases (t : LinkTable) (d : List DeviceLink) (x : Identity) :
    ((t.revealed d x = masterIn t.links x ∨ t.revealed d x = x) ∧
        t.questions d x = [masterIn t.links x] ∧ t.settled d x = t.learn d (masterIn t.links x)) ∨
      ((t.revealed d x ≠ masterIn t.links x ∧ t.revealed d x ≠ x) ∧
        t.questions d x = [masterIn t.links x, t.revealed d x] ∧
        t.settled d x = (t.learn d (masterIn t.links x)).learn d (t.revealed d x)) := by
  unfold settled questions
  split
  · next h => exact .inr ⟨h, rfl, rfl⟩
  · next h => exact .inl ⟨by simpa only [not_and_or, not_not] using h, rfl, rfl⟩

/-- About a device that was asked about, the table knows exactly the directory's slaves. -/
theorem settled_contains_of_asked (hy : y ∈ t.questions d x) :
    (t.settled d x).Contains y s ↔ Pairs d y s := by
  rcases settled_cases t d x with ⟨-, hq, hs⟩ | ⟨⟨hr, -⟩, hq, hs⟩
  · rw [hq, List.mem_singleton] at hy
    rw [hs, contains_learn, if_pos hy, hy]
  · rw [hs, contains_learn]
    rw [hq] at hy
    -- the second answer may name the first master again, but only with slaves that it has
    rcases List.mem_cons.mp hy with rfl | hy
    · rw [if_neg hr.symm, contains_learn, if_pos rfl]
      exact ⟨fun h => h.elim id And.right, .inl⟩
    · cases List.mem_singleton.mp hy
      rw [if_pos rfl]

/-- If the device itself was asked about, the table knows all its masters. -/
theorem pairs_settled_of_asked (hx : x ∈ t.questions d x) (h : Pairs d k x) :
    (t.settled d x).Contains k x := by
  have hlearn : x = masterIn t.links x → (t.learn d (masterIn t.links x)).Contains k x := by
    intro hm
    rw [contains_learn]
    split
    · next hk => rwa [← hk]
    · exact .inr ⟨hm, h⟩
  rcases settled_cases t d x with ⟨-, hq, hs⟩ | ⟨⟨-, hr⟩, hq, hs⟩
  · rw [hq, List.mem_singleton] at hx
    rw [hs]
    exact hlearn hx
  · rw [hq] at hx
    have hm : x = masterIn t.links x := by
      rcases List.mem_cons.mp hx with hm | hx
      · exact hm
      · exact absurd (List.mem_singleton.mp hx).symm hr
    rw [hs, contains_learn]
    split
    · next hk => rwa [← hk]
    · exact .inl (hlearn hm)

/-- A master that was asked about is the directory's master of the device. -/
theorem masterIn_eq_of_asked (ht : t.Proper) (hd : ∀ m m' s, Pairs d m s → Pairs d m' s → m = m')
    (hy : masterIn (t.settled d x).links x ∈ t.questions d x) :
    masterIn d x = masterIn (t.settled d x).links x := by
  have hpairs {k s} := (proper_settled (d := d) (x := x) ht).pairs_links (m := k) (s := s)
  rcases masterIn_cases (t.settled d x).links x with hp | ⟨heq, hnone⟩
  · rw [hpairs, settled_contains_of_asked hy] at hp
    exact masterIn_eq_of_pairs hp fun m' hm' => hd _ _ _ hm' hp
  · rw [heq] at hy ⊢
    exact masterIn_eq_self fun k hk => absurd (hpairs.mpr (pairs_settled_of_asked hy hk)) (hnone k)

/-- The table shows the directory's destinations exactly if the master that it shows was asked
about, or is the right one and has the right slaves already. -/
theorem destinationsIn_settled_iff (ht : t.Proper)
    (hd : ∀ m m' s, Pairs d m s → Pairs d m' s → m = m') :
    destinationsIn (t.settled d x).links x = destinationsIn d x ↔
      masterIn (t.settled d x).links x ∈ t.questions d x ∨
      (masterIn (t.settled d x).links x = masterIn d x ∧ ∀ s, s ≠ masterIn d x →
        ((t.settled d x).Contains (masterIn d x) s ↔ Pairs d (masterIn d x) s)) := by
  rw [destinationsIn_eq_iff]
  simp only [(proper_settled (d := d) (x := x) ht).pairs_links]
  refine ⟨.inr, fun h => h.elim (fun hy => ?_) id⟩
  have hm := masterIn_eq_of_asked ht hd hy
  rw [← hm] at hy
  exact ⟨hm.symm, fun s _ => settled_contains_of_asked hy⟩

/-! ## A device with one cached master -/

section OneMaster

variable (ht : t.Proper) (hd : ∀ m m' s, Pairs d m s → Pairs d m' s → m = m')
  (hone : ∀ m m', t.Contains m x → t.Contains m' x → m = m')

include ht hone in
/-- After the answer about the one cached master, the device has no master but the directory's. -/
theorem pairs_of_learn (h : (t.learn d (masterIn t.links x)).Contains k x) :
    Pairs d k x ∧ (k ≠ masterIn t.links x → x = masterIn t.links x) := by
  rw [contains_learn] at h
  split at h
  · next hk => exact ⟨hk ▸ h, fun hne => absurd hk hne⟩
  · next hk =>
    rcases h with h | ⟨hx, h⟩
    · rcases masterIn_cases t.links x with hm | ⟨-, hnone⟩
      · exact absurd (hone _ _ h (ht.pairs_links.mp hm)) hk
      · exact absurd (ht.pairs_links.mpr h) (hnone k)
    · exact ⟨h, fun _ => hx⟩

include ht hd hone in
/-- If the directory still knows the cached master, or there was none, the master at the end was
asked about. -/
theorem asked_of_kept (h : masterIn t.links x = x ∨ Pairs d (masterIn t.links x) x) :
    masterIn (t.settled d x).links x ∈ t.questions d x := by
  have hproper : (t.learn d (masterIn t.links x)).Proper := ht.applyFetch _ _
  have hlearn : ∀ k, Pairs (t.learn d (masterIn t.links x)).links k x → Pairs d k x := fun k hk =>
    (pairs_of_learn ht hone (hproper.pairs_links.mp hk)).1
  rcases settled_cases t d x with ⟨hr, hq, hs⟩ | ⟨⟨hrm, hrx⟩, hq, hs⟩
  · rw [hq, hs, List.mem_singleton]
    -- only a lost master can be followed by the device itself, and `m` is not lost
    refine hr.elim id fun hrx => ?_
    rcases h with h | h
    · exact hrx.trans h.symm
    · rcases masterIn_cases (t.learn d (masterIn t.links x)).links x with hp | ⟨-, hnone⟩
      · exact hd _ _ _ (hlearn _ hp) h
      · refine absurd (hproper.pairs_links.mpr ?_) (hnone (masterIn t.links x))
        rwa [contains_learn, if_pos rfl]
  · have hp : Pairs d (t.revealed d x) x := by
      rcases masterIn_cases (t.learn d (masterIn t.links x)).links x with hp | ⟨heq, -⟩
      · exact hlearn _ hp
      · exact absurd heq hrx
    have hM : masterIn (t.settled d x).links x = t.revealed d x := by
      have hpairs {k} := (proper_settled (d := d) (x := x) ht).pairs_links (m := k) (s := x)
      refine masterIn_eq_of_pairs (hpairs.mpr ?_) fun k hk => ?_
      · rwa [hs, contains_learn, if_pos rfl]
      · rw [hpairs, hs, contains_learn] at hk
        split at hk
        · assumption
        · rcases hk with hk | ⟨-, hk⟩
          · exact hd _ _ _ (hlearn k (hproper.pairs_links.mpr hk)) hp
          · exact hd _ _ _ hk hp
    rw [hM, hq]
    simp

include ht hone in
/-- If the directory no longer knows the cached master, the device counts as its own master and is
not asked about. -/
theorem settled_of_lost (hne : masterIn t.links x ≠ x) (h : ¬ Pairs d (masterIn t.links x) x) :
    t.questions d x = [masterIn t.links x] ∧ t.settled d x = t.learn d (masterIn t.links x) ∧
      masterIn (t.settled d x).links x = x := by
  have hproper : (t.learn d (masterIn t.links x)).Proper := ht.applyFetch _ _
  have hr : t.revealed d x = x := masterIn_eq_self fun k hk => by
    obtain ⟨hp, hk⟩ := pairs_of_learn ht hone (hproper.pairs_links.mp hk)
    by_cases hkm : k = masterIn t.links x
    · exact absurd (hkm ▸ hp) h
    · exact absurd (hk hkm).symm hne
  rcases settled_cases t d x with ⟨-, hq, hs⟩ | ⟨⟨-, hrx⟩, -⟩
  · exact ⟨hq, hs, by rw [hs]; exact hr⟩
  · exact absurd hr hrx

include ht hd hone in
/-- With one cached master the destinations are the directory's exactly if the directory still
knows that master, or the device is a master there and its cached slaves are right. -/
theorem destinationsIn_settled_iff_of_one :
    destinationsIn (t.settled d x).links x = destinationsIn d x ↔
      (masterIn t.links x = x ∨ Pairs d (masterIn t.links x) x) ∨
      (masterIn d x = x ∧ ∀ s, s ≠ x →
        (Pairs d x s ↔ t.Contains x s ∨ (s = masterIn t.links x ∧ Pairs d x s))) := by
  rw [destinationsIn_settled_iff ht hd]
  by_cases hkept : masterIn t.links x = x ∨ Pairs d (masterIn t.links x) x
  · exact iff_of_true (.inl (asked_of_kept ht hd hone hkept)) (.inl hkept)
  · obtain ⟨hne, hlost⟩ := not_or.mp hkept
    obtain ⟨hq, hs, hM⟩ := settled_of_lost ht hone hne hlost
    have hnot : ¬ x ∈ [masterIn t.links x] := by simpa using Ne.symm hne
    rw [hM, hq, hs]
    simp only [hnot, hkept, false_or]
    constructor
    · rintro ⟨hx, h⟩
      rw [← hx] at h
      refine ⟨hx.symm, fun s hsx => ?_⟩
      have := h s hsx
      rw [contains_learn, if_neg (Ne.symm hne)] at this
      exact this.symm
    · rintro ⟨hx, h⟩
      rw [hx]
      refine ⟨rfl, fun s hsx => ?_⟩
      rw [contains_learn, if_neg (Ne.symm hne)]
      exact (h s hsx).symm

end OneMaster

end LinkTable

/-! ## The whole call -/

section Resolve

variable {c : LinkCache} {s : Store} {d : List DeviceLink} {x : Identity} {interval : Duration}
  {t₀ t₁ t₂ : Nat}

theorem refreshedAt_stamp {y : Identity} :
    (c.stamp x t₁).refreshedAt y = if y = x then some t₁ else c.refreshedAt y := by
  unfold LinkCache.stamp LinkCache.refreshedAt
  split
  · next h => subst h; exact List.lookup_cons_self
  · next h =>
    rw [List.lookup_cons, show (y == x) = false by simpa using h]
    exact lookup_filter_ne _ h

/-- Nothing is fresh to a cache that has never asked. -/
theorem stale_of_cold {t : LinkTable} {y : Identity} :
    (LinkCache.mk t []).Stale interval t₀ y := by
  unfold LinkCache.Stale
  trivial

/-- A refresh of one device leaves every other one as stale as it was. -/
theorem stale_stamp_iff {y : Identity} (hstale : c.Stale interval t₀ y) (ht : t₀ ≤ t₁) :
    (c.stamp x t₁).Stale interval t₁ y ↔ y ≠ x := by
  unfold LinkCache.Stale at *
  rw [refreshedAt_stamp]
  by_cases h : y = x
  · simp [h]
  · simp only [h, if_false, ne_eq, not_false_eq_true, iff_true]
    split at hstale
    · trivial
    · show interval.nanos < t₁ - _
      omega

/-- The cache after the true answer about `m`, asked for on behalf of `x`. -/
def LinkCache.learn (c : LinkCache) (d : List DeviceLink) (x m : Identity) (instant : Nat) :
    LinkCache :=
  { c with table := c.table.learn d m }.stamp x instant

theorem resume_known {m : Identity} :
    (Resolving.known x m).resume interval t₁ (directoryAnswer d m) c s =
      if (c.learn d x m t₁).masterOf x ≠ m ∧
          (c.learn d x m t₁).Stale interval t₁ ((c.learn d x m t₁).masterOf x) then
        (.waits (.revealed x ((c.learn d x m t₁).masterOf x)), c.learn d x m t₁,
          LinkCache.persist m (d.filter (·.Involves m)) s)
      else (.ends (.ok ((c.learn d x m t₁).destinations x)), c.learn d x m t₁,
          LinkCache.persist m (d.filter (·.Involves m)) s) :=
  rfl

theorem resume_revealed {m : Identity} :
    (Resolving.revealed x m).resume interval t₂ (directoryAnswer d m) c s =
      (.ends (.ok ((c.learn d m m t₂).destinations x)), c.learn d m m t₂,
        LinkCache.persist m (d.filter (·.Involves m)) s) :=
  rfl

/-- A resolve with every device stale asks as `LinkTable.questions` says, and ends with what the
table then shows. -/
theorem pursue_resolve (hstale : ∀ y, c.Stale interval t₀ y) (ht : t₀ ≤ t₁) :
    ((c.resolve interval t₀ x).pursue interval [(t₁, directoryAnswer d), (t₂, directoryAnswer d)]
      c s).1 = .ends (.ok (destinationsIn (c.table.settled d x).links x)) := by
  have hnew : (c.learn d x (c.masterOf x) t₁).masterOf x = c.table.revealed d x := rfl
  have hstale' : (c.learn d x (c.masterOf x) t₁).Stale interval t₁ (c.table.revealed d x) ↔
      c.table.revealed d x ≠ x := stale_stamp_iff (hstale _) ht
  unfold LinkCache.resolve
  rw [if_pos (hstale x)]
  simp only [ResolveStep.pursue, Resolving.asks, resume_known, hnew, hstale']
  rcases LinkTable.settled_cases c.table d x with ⟨hr, -, hs⟩ | ⟨hr, -, hs⟩ <;>
    rw [show masterIn c.table.links x = c.masterOf x from rfl] at hr hs
  · rw [if_neg (by simpa only [not_and_or, not_not] using hr), hs]
    rfl
  · rw [if_pos hr, hs]
    simp only [ResolveStep.pursue, Resolving.asks, resume_revealed]
    rfl

/-- A resolve of `x` that begins at `t₀`, with every answer true and given at `t₁` and `t₂`, ends
with the devices that the directory has for `x`. -/
def LinkCache.ReachesAll (c : LinkCache) (s : Store) (d : List DeviceLink) (x : Identity)
    (interval : Duration) (t₀ t₁ t₂ : Nat) : Prop :=
  ((c.resolve interval t₀ x).pursue interval [(t₁, directoryAnswer d), (t₂, directoryAnswer d)]
    c s).1 = .ends (.ok (destinationsIn d x))

theorem reachesAll_iff (hstale : ∀ y, c.Stale interval t₀ y) (ht : t₀ ≤ t₁) :
    c.ReachesAll s d x interval t₀ t₁ t₂ ↔
      destinationsIn (c.table.settled d x).links x = destinationsIn d x := by
  unfold LinkCache.ReachesAll
  rw [pursue_resolve hstale ht]
  simp

/-- When a resolve of a stale device gives what the directory has. For every cache: exactly if the
master at the end was asked about, or is cached right. For a device with one cached master at most:
exactly if the directory still knows that master (or there is none), or the device has become a
master and its cached slaves are right. -/
theorem reachesAll_iff_asked (hc : c.table.Reachable)
    (hd : ∀ m m' s, Pairs d m s → Pairs d m' s → m = m') (hstale : ∀ y, c.Stale interval t₀ y)
    (ht : t₀ ≤ t₁) :
    (c.ReachesAll s d x interval t₀ t₁ t₂ ↔
      masterIn (c.table.settled d x).links x ∈ c.table.questions d x ∨
      (masterIn (c.table.settled d x).links x = masterIn d x ∧ ∀ y, y ≠ masterIn d x →
        ((c.table.settled d x).Contains (masterIn d x) y ↔ Pairs d (masterIn d x) y))) ∧
    ((∀ m m', c.table.Contains m x → c.table.Contains m' x → m = m') →
      (c.ReachesAll s d x interval t₀ t₁ t₂ ↔
        (c.masterOf x = x ∨ Pairs d (c.masterOf x) x) ∨
        (masterIn d x = x ∧ ∀ y, y ≠ x →
          (Pairs d x y ↔ c.table.Contains x y ∨ (y = c.masterOf x ∧ Pairs d x y))))) := by
  rw [reachesAll_iff hstale ht]
  exact ⟨LinkTable.destinationsIn_settled_iff hc.proper hd,
    LinkTable.destinationsIn_settled_iff_of_one hc.proper hd⟩

/-- A device that has stayed with its master: the answer about it brings the new slave too. -/
theorem reachesAll_for_kept_device :
    (LinkCache.mk (LinkTable.empty.put (.between "bob" "bob-phone")) []).ReachesAll
      (.reliable .empty) [.between "bob" "bob-phone", .between "bob" "bob-tablet"] "bob-phone"
      (.ofSeconds 20) 0 0 0 := by
  refine ((reachesAll_iff_asked (.recorded _ .empty) (fun m m' s h h' => ?_)
    (fun _ => stale_of_cold) le_rfl).2 fun m m' h h' => ?_).mpr
      (.inl (.inr ⟨_, .head _, by decide⟩))
  · simp only [pairs_cons, pairs_nil, or_false, DeviceLink.matches_between] at h h'
    grind
  · simp only [LinkTable.contains_put, DeviceLink.matches_between] at h h'
    rcases h with ⟨_, h, -⟩ | ⟨rfl, -⟩
    · simp [LinkTable.ofMaster, LinkTable.empty] at h
    · rcases h' with ⟨_, h, -⟩ | ⟨rfl, -⟩
      · simp [LinkTable.ofMaster, LinkTable.empty] at h
      · rfl

/-- A device that has moved to another master: the old master is asked about, no longer has the
device, and the device is taken for its own master, because the answer has stamped it as fresh. -/
theorem reachesAll_fails_for_moved_device :
    let t := LinkTable.empty.put (.between "bob-old" "bob-phone")
    let d := [DeviceLink.between "bob-new" "bob-phone"]
    t.Reachable ∧ (∀ m m' s, Pairs d m s → Pairs d m' s → m = m') ∧
      (∀ m s s', Pairs d m s → Pairs d s s' → m = s) ∧
      (∀ y, (LinkCache.mk t []).Stale (.ofSeconds 20) 0 y) ∧
      ¬ (LinkCache.mk t []).ReachesAll (.reliable .empty) d "bob-phone" (.ofSeconds 20) 0 0 0 := by
  simp only [pairs_cons, pairs_nil, or_false, DeviceLink.matches_between]
  refine ⟨.recorded _ .empty, fun m m' s h h' => h.1.symm.trans h'.1, fun m s s' h h' => ?_,
    fun _ => stale_of_cold, ?_⟩
  · exact absurd (h'.1.trans h.2.symm) (by decide)
  · rw [reachesAll_iff (fun _ => stale_of_cold) le_rfl]
    decide +kernel

end Resolve

end Courier
