import Courier.Link.Table
import Courier.Proofs.Link.Destinations

/-!
# The groups of a link table

Every change of a table is a `LinkTable.modify`, so `ofMaster_modify` is the one fact about groups
that all others come from.

* `LinkTable.Proper`: each group stands under the master of its links, once, and is not empty; no
  pairing occurs twice in a group. Every operation keeps it.
* `Proper.pairs_links`: then the flat view and the groups pair the same devices.
* `contains_applyFetch`: after a fetch the master has exactly the fetched slaves, and every other
  master has gained the links that were fetched along with them.
* `LinkTable.Reachable`: what any sequence of loads, refreshes, new links and evictions makes of
  the empty table (`Reachable.proper`).
-/

namespace Courier

namespace LinkTable

variable {t : LinkTable} {f : List DeviceLink → List DeviceLink} {l : DeviceLink}
  {fetched : List DeviceLink} {k m s : Identity}

/-! ## Groups -/

/-- A change of one group leaves all others as they are. -/
theorem ofMaster_modify :
    (t.modify m f).ofMaster k = if k = m then f (t.ofMaster m) else t.ofMaster k := by
  unfold modify
  split
  · next hf =>
    show ((t.groups.filter (·.1 ≠ m)).lookup k).getD [] = _
    split
    · next hk => rw [hk, lookup_filter_self, hf]; rfl
    · next hk => rw [lookup_filter_ne _ hk]; rfl
  · next l ls hf =>
    show ((t.groups.filter (·.1 ≠ m) ++ [(m, l :: ls)]).lookup k).getD [] = _
    rw [List.lookup_append]
    split
    · next hk => subst hk; rw [lookup_filter_self, hf]; simp
    · next hk =>
      rw [lookup_filter_ne _ hk, List.lookup_cons, show (k == m) = false by simpa using hk]
      show ((t.groups.lookup k).or none).getD [] = _
      rw [Option.or_none]
      rfl

/-! ## The form of a table -/

/-- The form that every operation keeps. -/
structure Proper (t : LinkTable) : Prop where
  nodup : (t.groups.map (·.1)).Nodup
  owned : ∀ g ∈ t.groups, ∀ l ∈ g.2, l.master.identity = g.1
  nonempty : ∀ g ∈ t.groups, g.2 ≠ []
  distinct : ∀ g ∈ t.groups, g.2.Pairwise fun a b => ¬ a.SamePair b

theorem proper_empty : empty.Proper :=
  ⟨by simp [empty], by simp [empty], by simp [empty], by simp [empty]⟩

/-- With each key once, the group under a key is the one that is looked up. -/
theorem Proper.ofMaster_eq (h : t.Proper) {g : Identity × List DeviceLink} (hg : g ∈ t.groups) :
    t.ofMaster g.1 = g.2 := by
  unfold ofMaster
  rw [lookup_of_mem h.nodup hg]
  rfl

/-- A group that is not empty is one of the table's. -/
theorem mem_groups_of_mem_ofMaster {x : DeviceLink} (h : x ∈ t.ofMaster k) :
    (k, t.ofMaster k) ∈ t.groups := by
  unfold ofMaster at h ⊢
  cases hl : t.groups.lookup k with
  | none => simp [hl] at h
  | some group =>
    obtain ⟨before, after, heq, -⟩ := List.lookup_eq_some_iff.mp hl
    simp [heq]

theorem Proper.master_of_mem (h : t.Proper) {x : DeviceLink} (hx : x ∈ t.ofMaster k) :
    x.master.identity = k :=
  h.owned _ (mem_groups_of_mem_ofMaster hx) x hx

theorem Proper.distinct_ofMaster (h : t.Proper) (k : Identity) :
    (t.ofMaster k).Pairwise fun a b => ¬ a.SamePair b := by
  cases hg : t.ofMaster k with
  | nil => exact .nil
  | cons x xs =>
    rw [← hg]
    exact h.distinct _ (mem_groups_of_mem_ofMaster (x := x) (by simp [hg]))

theorem Proper.mem_links (h : t.Proper) {x : DeviceLink} :
    x ∈ t.links ↔ x ∈ t.ofMaster x.master.identity := by
  constructor
  · intro hx
    obtain ⟨g, hg, hxg⟩ := List.mem_flatMap.mp hx
    rw [h.owned g hg x hxg, h.ofMaster_eq hg]
    exact hxg
  · intro hx
    exact List.mem_flatMap.mpr ⟨_, mem_groups_of_mem_ofMaster hx, hx⟩

/-- The flat view and the groups pair the same devices. -/
theorem Proper.pairs_links (h : t.Proper) : Pairs t.links m s ↔ t.Contains m s := by
  constructor
  · rintro ⟨x, hx, hp⟩
    rw [h.mem_links, (DeviceLink.matches_iff.mp hp).1] at hx
    exact ⟨x, hx, hp⟩
  · rintro ⟨x, hx, hp⟩
    refine ⟨x, h.mem_links.mpr ?_, hp⟩
    rwa [(DeviceLink.matches_iff.mp hp).1]

theorem Proper.modify (h : t.Proper)
    (howned : ∀ x ∈ f (t.ofMaster m), x.master.identity = m)
    (hdistinct : (f (t.ofMaster m)).Pairwise fun a b => ¬ a.SamePair b) :
    (t.modify m f).Proper := by
  have hsub : ∀ g ∈ t.groups.filter (·.1 ≠ m), g ∈ t.groups := fun g hg => (List.mem_filter.mp hg).1
  have hnodup : ((t.groups.filter (·.1 ≠ m)).map (·.1)).Nodup :=
    (List.filter_sublist.map _).nodup h.nodup
  have hfresh : ∀ g ∈ t.groups.filter (·.1 ≠ m), g.1 ≠ m := fun g hg => by
    simpa using (List.mem_filter.mp hg).2
  unfold LinkTable.modify
  split
  · exact ⟨hnodup, fun g hg => h.owned g (hsub g hg), fun g hg => h.nonempty g (hsub g hg),
      fun g hg => h.distinct g (hsub g hg)⟩
  · next x xs hf =>
    rw [hf] at howned hdistinct
    refine ⟨?_, ?_, ?_, ?_⟩
    · simp only [List.map_append, List.map_cons, List.map_nil, List.nodup_append]
      refine ⟨hnodup, by simp, ?_⟩
      rintro a ha b hb rfl
      obtain ⟨g, hg, rfl⟩ := List.mem_map.mp ha
      exact hfresh g hg (List.mem_singleton.mp hb)
    all_goals
      intro g hg
      rcases List.mem_append.mp hg with hg | hg
    · exact h.owned g (hsub g hg)
    · cases List.mem_singleton.mp hg; exact howned
    · exact h.nonempty g (hsub g hg)
    · cases List.mem_singleton.mp hg; simp
    · exact h.distinct g (hsub g hg)
    · cases List.mem_singleton.mp hg; exact hdistinct

/-! ## The operations -/

theorem distinct_filter_append {group : List DeviceLink} (l : DeviceLink)
    (h : group.Pairwise fun a b => ¬ a.SamePair b) :
    ((group.filter fun x => ¬ l.SamePair x) ++ [l]).Pairwise fun a b => ¬ a.SamePair b := by
  refine List.pairwise_append.mpr ⟨h.filter _, by simp, ?_⟩
  intro a ha b hb
  cases List.mem_singleton.mp hb
  have := (List.mem_filter.mp ha).2
  simp only [decide_eq_true_eq] at this
  exact fun e => this e.symm

theorem Proper.put (h : t.Proper) (l : DeviceLink) : (t.put l).Proper := by
  refine h.modify (fun x hx => ?_) (distinct_filter_append l (h.distinct_ofMaster _))
  rcases List.mem_append.mp hx with hx | hx
  · exact h.master_of_mem (List.mem_filter.mp hx).1
  · rw [List.mem_singleton.mp hx]

theorem Proper.add (h : t.Proper) (l : DeviceLink) : (t.add l).Proper := by
  refine h.modify (fun x hx => ?_) ?_
  · split at hx
    · exact h.master_of_mem hx
    · rcases List.mem_append.mp hx with hx | hx
      · exact h.master_of_mem hx
      · rw [List.mem_singleton.mp hx]
  · split
    · exact h.distinct_ofMaster _
    · next hnone =>
      refine List.pairwise_append.mpr ⟨h.distinct_ofMaster _, by simp, ?_⟩
      intro a ha b hb
      cases List.mem_singleton.mp hb
      intro e
      exact hnone (List.any_eq_true.mpr ⟨a, ha, decide_eq_true e.symm⟩)

theorem Proper.remove (h : t.Proper) (l : DeviceLink) : (t.remove l).Proper :=
  h.modify (fun _ hx => h.master_of_mem (List.mem_filter.mp hx).1)
    ((h.distinct_ofMaster _).filter _)

theorem mem_of_mem_dedupPairs {x : DeviceLink} :
    ∀ {ls : List DeviceLink}, x ∈ dedupPairs ls → x ∈ ls
  | l :: ls, h => by
    rcases List.mem_cons.mp h with rfl | h
    · simp
    · exact List.mem_cons_of_mem _ (mem_of_mem_dedupPairs (List.mem_filter.mp h).1)

theorem distinct_dedupPairs :
    ∀ ls : List DeviceLink, (dedupPairs ls).Pairwise fun a b => ¬ a.SamePair b
  | [] => .nil
  | l :: ls => by
    refine List.pairwise_cons.mpr ⟨fun x hx => ?_, (distinct_dedupPairs ls).filter _⟩
    simpa using (List.mem_filter.mp hx).2

/-- Leaving out repeated pairings leaves out no pair. -/
theorem pairs_dedupPairs {ls : List DeviceLink} : Pairs (dedupPairs ls) m s ↔ Pairs ls m s := by
  constructor
  · rintro ⟨x, hx, hp⟩
    exact ⟨x, mem_of_mem_dedupPairs hx, hp⟩
  · rintro ⟨x, hx, hp⟩
    induction ls with
    | nil => simp at hx
    | cons l ls ih =>
      by_cases hl : l.Matches m s
      · exact ⟨l, by simp [dedupPairs], hl⟩
      · have hxs : x ∈ ls := (List.mem_cons.mp hx).resolve_left fun e => hl (e ▸ hp)
        obtain ⟨y, hy, hyp⟩ := ih hxs
        refine ⟨y, List.mem_cons_of_mem _ (List.mem_filter.mpr ⟨hy, ?_⟩), hyp⟩
        simpa using fun e : l.SamePair y => hl (e.trans hyp)

theorem Proper.foldl_put (h : t.Proper) (ls : List DeviceLink) :
    (ls.foldl LinkTable.put t).Proper := by
  induction ls generalizing t with
  | nil => exact h
  | cons l ls ih => exact ih (h.put l)

theorem Proper.applyFetch (h : t.Proper) (m : Identity) (fetched : List DeviceLink) :
    (t.applyFetch m fetched).Proper := by
  have howned : ∀ x ∈ dedupPairs (fetched.filter (·.master.identity = m)), x.master.identity = m :=
    fun x hx => by simpa using (List.mem_filter.mp (mem_of_mem_dedupPairs hx)).2
  have hm : (t.modify m fun _ => dedupPairs (fetched.filter (·.master.identity = m))).Proper :=
    h.modify howned (distinct_dedupPairs _)
  exact hm.foldl_put _

theorem Proper.addAll (h : t.Proper) (ls : List DeviceLink) : (t.addAll ls).Proper := by
  induction ls generalizing t with
  | nil => exact h
  | cons l ls ih => exact ih (h.add l)

/-! ## What a change does to the pairs -/

theorem contains_modify :
    (t.modify m f).Contains k s ↔
      if k = m then Pairs (f (t.ofMaster m)) m s else t.Contains k s := by
  unfold Contains
  rw [ofMaster_modify]
  by_cases h : k = m
  · subst h; simp [Pairs]
  · simp [h]

theorem contains_put : (t.put l).Contains k s ↔ t.Contains k s ∨ l.Matches k s := by
  unfold put
  rw [contains_modify]
  split
  · next hk =>
    subst hk
    rw [pairs_append]
    constructor
    · rintro (⟨x, hx, hp⟩ | ⟨x, hx, hp⟩)
      · exact .inl ⟨x, (List.mem_filter.mp hx).1, hp⟩
      · exact .inr (List.mem_singleton.mp hx ▸ hp)
    · rintro (⟨x, hx, hp⟩ | hp)
      · by_cases hl : l.SamePair x
        · exact .inr ⟨l, by simp, hl.trans hp⟩
        · exact .inl ⟨x, List.mem_filter.mpr ⟨hx, by simpa using hl⟩, hp⟩
      · exact .inr ⟨l, by simp, hp⟩
  · next hk =>
    refine ⟨.inl, fun h => h.resolve_right fun hp => hk ?_⟩
    exact (DeviceLink.matches_iff.mp hp).1.symm

theorem contains_foldl_put {ls : List DeviceLink} :
    (ls.foldl LinkTable.put t).Contains k s ↔ t.Contains k s ∨ Pairs ls k s := by
  induction ls generalizing t with
  | nil => simp [Pairs]
  | cons l ls ih => simp [ih, contains_put, Pairs, or_assoc]

theorem contains_remove : (t.remove l).Contains k s ↔ t.Contains k s ∧ ¬ l.Matches k s := by
  unfold remove
  rw [contains_modify]
  split
  · next hk =>
    subst hk
    constructor
    · rintro ⟨x, hx, hp⟩
      obtain ⟨hx, hne⟩ := List.mem_filter.mp hx
      exact ⟨⟨x, hx, hp⟩, fun hl => of_decide_eq_true hne (hl.trans hp.symm)⟩
    · rintro ⟨⟨x, hx, hp⟩, hl⟩
      exact ⟨x, List.mem_filter.mpr ⟨hx, decide_eq_true fun e => hl (e.trans hp)⟩, hp⟩
  · next hk =>
    exact (and_iff_left fun hp => hk (DeviceLink.matches_iff.mp hp).1.symm).symm

theorem contains_add : (t.add l).Contains k s ↔ t.Contains k s ∨ l.Matches k s := by
  unfold add
  rw [contains_modify]
  split
  · next hk =>
    subst hk
    split
    · next hany =>
      obtain ⟨x, hx, hp⟩ := List.any_eq_true.mp hany
      have hp : l.SamePair x := of_decide_eq_true hp
      exact ⟨.inl, fun h => h.elim id fun hl => ⟨x, hx, hp.symm.trans hl⟩⟩
    · rw [pairs_append, pairs_cons, or_iff_left pairs_nil.mp]
      rfl
  · next hk =>
    exact (or_iff_left fun hp => hk (DeviceLink.matches_iff.mp hp).1.symm).symm

theorem contains_addAll {ls : List DeviceLink} :
    (t.addAll ls).Contains k s ↔ t.Contains k s ∨ Pairs ls k s := by
  unfold addAll
  induction ls generalizing t with
  | nil => simp [Pairs]
  | cons l ls ih => rw [List.foldl_cons, ih, contains_add, pairs_cons, or_assoc]

/-- After a fetch about `m`, the slaves of `m` are the fetched ones; another master has its old
slaves and those that were fetched along. -/
theorem contains_applyFetch :
    (t.applyFetch m fetched).Contains k s ↔
      if k = m then Pairs fetched m s else t.Contains k s ∨ Pairs fetched k s := by
  unfold applyFetch
  rw [contains_foldl_put, contains_modify]
  split
  · next hk =>
    subst hk
    rw [pairs_dedupPairs, pairs_filter fun x _ hp => by simp [(DeviceLink.matches_iff.mp hp).1]]
    refine ⟨fun h => h.resolve_right ?_, .inl⟩
    rintro ⟨x, hx, hp⟩
    have := (List.mem_filter.mp hx).2
    simp [(DeviceLink.matches_iff.mp hp).1] at this
  · next hk =>
    rw [pairs_filter (by rintro x - hp; simpa [(DeviceLink.matches_iff.mp hp).1] using hk)]

/-! ## Reachable tables -/

/-- The tables that a run can leave behind: every change of a link cache is one of these. -/
inductive Reachable : LinkTable → Prop
  | empty : Reachable .empty
  | loaded {t : LinkTable} (ls : List DeviceLink) : Reachable t → Reachable (t.addAll ls)
  | fetched {t : LinkTable} (m : Identity) (ls : List DeviceLink) :
      Reachable t → Reachable (t.applyFetch m ls)
  | recorded {t : LinkTable} (l : DeviceLink) : Reachable t → Reachable (t.put l)
  | evicted {t : LinkTable} (l : DeviceLink) : Reachable t → Reachable (t.remove l)

theorem Reachable.proper (h : t.Reachable) : t.Proper := by
  induction h with
  | empty => exact proper_empty
  | loaded ls _ ih => exact ih.addAll ls
  | fetched m ls _ ih => exact ih.applyFetch m ls
  | recorded l _ ih => exact ih.put l
  | evicted l _ ih => exact ih.remove l

end LinkTable

end Courier
