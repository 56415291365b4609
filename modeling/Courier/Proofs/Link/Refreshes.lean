import Courier.Proofs.Link.Resolve

/-!
# Refreshes against one directory

A refresh replaces the links of one master and merges those of others, so a later one may drop what
an earlier one has merged, and the other way round. As long as the directory does not change, this
comes out even:

* `contains_learnAll`: a device that was asked about has the directory's slaves; any other has kept
  its slaves, and has gained those of the directory's that were asked about.
* `refreshes_commute`: so neither the order of the refreshes nor their number counts, in the groups
  and in the flat view.
* `LinkCache.refreshAll_eq`: the refreshes of a cache are such refreshes of its table.
-/

namespace Courier

namespace LinkTable

variable {t : LinkTable} {d : List DeviceLink} {ms ms' : List Identity} {m s : Identity}

/-- The table after the true answers about the devices of a list, one after the other. -/
def learnAll (t : LinkTable) (d : List DeviceLink) (ms : List Identity) : LinkTable :=
  ms.foldl (·.learn d ·) t

@[simp] theorem learnAll_nil : t.learnAll d [] = t :=
  rfl

@[simp] theorem learnAll_cons : t.learnAll d (m :: ms) = (t.learn d m).learnAll d ms :=
  rfl

/-- The pairs that refreshes of the devices `ms` against the links `d` leave behind, where
`old` are those of the table before. -/
def Refreshed (d : List DeviceLink) (ms : List Identity) (old : Identity → Identity → Prop)
    (m s : Identity) : Prop :=
  if m ∈ ms then Pairs d m s else old m s ∨ (Pairs d m s ∧ s ∈ ms)

/-- The devices count, not the order in which they were asked about. -/
theorem refreshed_congr {old : Identity → Identity → Prop} (h : ∀ m, m ∈ ms ↔ m ∈ ms') :
    Refreshed d ms old m s ↔ Refreshed d ms' old m s := by
  unfold Refreshed
  simp only [h]

/-- The closed form of any number of refreshes. -/
theorem contains_learnAll :
    (t.learnAll d ms).Contains m s ↔ Refreshed d ms t.Contains m s := by
  induction ms generalizing t with
  | nil => simp [Refreshed]
  | cons q ms ih =>
    rw [learnAll_cons, ih]
    unfold Refreshed
    rw [contains_learn]
    by_cases hms : m ∈ ms
    · -- a later refresh of `m` itself decides
      rw [if_pos hms, if_pos (.tail _ hms)]
    · rw [if_neg hms]
      by_cases hq : m = q
      · -- what is merged later into the group of `q` is there already
        subst hq
        rw [if_pos rfl, if_pos (.head _)]
        exact ⟨fun h => h.elim id And.left, .inl⟩
      · rw [if_neg hq, if_neg (by simp [hq, hms]), List.mem_cons]
        constructor
        · rintro ((hold | ⟨hs, hp⟩) | ⟨hp, hs⟩)
          · exact .inl hold
          · exact .inr ⟨hp, .inl hs⟩
          · exact .inr ⟨hp, .inr hs⟩
        · rintro (hold | ⟨hp, hs | hs⟩)
          · exact .inl (.inl hold)
          · exact .inl (.inr ⟨hs, hp⟩)
          · exact .inr ⟨hp, hs⟩

theorem Proper.learnAll (h : t.Proper) (d : List DeviceLink) (ms : List Identity) :
    (t.learnAll d ms).Proper := by
  induction ms generalizing t with
  | nil => exact h
  | cons m ms ih => exact ih (h.applyFetch m _)

/-- The closed form in the flat view. -/
theorem Proper.pairs_learnAll (h : t.Proper) :
    Pairs (t.learnAll d ms).links m s ↔ Refreshed d ms (Pairs t.links) m s := by
  rw [(h.learnAll d ms).pairs_links, contains_learnAll]
  unfold Refreshed
  rw [h.pairs_links]

end LinkTable

namespace LinkCache

variable {c : LinkCache} {s : Store} {d : List DeviceLink}

/-- Refreshes against a directory that holds the links `d`, one after the other: each at an
instant, on behalf of a device and about a master. -/
def refreshAll (d : List DeviceLink) (c : LinkCache) (s : Store)
    (asks : List (Nat × Identity × Identity)) : Except DirectoryError (LinkCache × Store) :=
  asks.foldlM (fun p ask => p.1.refresh p.2 ask.1 ask.2.1 ask.2.2 (directoryAnswer d ask.2.2))
    (c, s)

/-- They all succeed, and the table learns about the masters. -/
theorem refreshAll_eq (asks : List (Nat × Identity × Identity)) :
    ∃ c' s', c.refreshAll d s asks = .ok (c', s') ∧
      c'.table = c.table.learnAll d (asks.map (·.2.2)) := by
  unfold refreshAll
  induction asks generalizing c s with
  | nil => exact ⟨c, s, rfl, rfl⟩
  | cons ask asks ih =>
    obtain ⟨instant, identity, master⟩ := ask
    rw [List.foldlM_cons]
    exact ih

end LinkCache

open LinkTable in
/-- For every table, every list of links and every two sequences of refreshes about the same
devices:

* a device that was asked about has exactly the directory's slaves; any other has its old slaves and
  those of the directory's slaves that were asked about;
* the two tables hold the same pairs;
* where the table has the form that every operation keeps, both also hold in the flat view;
* a cache with that table that is refreshed about these devices, at any instants and on behalf of
  any devices, ends with the first of the two tables. -/
theorem refreshes_commute (t : LinkTable) (d : List DeviceLink) (ms ms' : List Identity)
    (hsame : ∀ m, m ∈ ms ↔ m ∈ ms') :
    (∀ m s, (t.learnAll d ms).Contains m s ↔
      if m ∈ ms then Pairs d m s else t.Contains m s ∨ (Pairs d m s ∧ s ∈ ms)) ∧
    (∀ m s, (t.learnAll d ms).Contains m s ↔ (t.learnAll d ms').Contains m s) ∧
    (t.Proper → ∀ m s,
      (Pairs (t.learnAll d ms).links m s ↔
        if m ∈ ms then Pairs d m s else Pairs t.links m s ∨ (Pairs d m s ∧ s ∈ ms)) ∧
      (Pairs (t.learnAll d ms).links m s ↔ Pairs (t.learnAll d ms').links m s)) ∧
    ∀ (c : LinkCache) (store : Store) (asks : List (Nat × Identity × Identity)),
      c.table = t → asks.map (·.2.2) = ms →
        ∃ c' store', c.refreshAll d store asks = .ok (c', store') ∧
          c'.table = t.learnAll d ms := by
  refine ⟨fun m s => contains_learnAll, fun m s => ?_, fun ht m s => ⟨ht.pairs_learnAll, ?_⟩, ?_⟩
  · rw [contains_learnAll, contains_learnAll]
    exact refreshed_congr hsame
  · rw [ht.pairs_learnAll, ht.pairs_learnAll]
    exact refreshed_congr hsame
  · rintro c store asks rfl rfl
    exact LinkCache.refreshAll_eq asks

/-- `bob` is a slave of `ann` and a master himself, and the table has an old slave for each of them
and for `eve`. Asking about `ann` and `bob`, in either order, with `ann` once more at the end, drops
the old slaves of both, and `eve` keeps hers and gains `bob`. -/
theorem refreshes_commute_of_slave_master :
    let d := [DeviceLink.between "ann" "bob", .between "bob" "bob-phone", .between "eve" "bob"]
    let t := LinkTable.empty.addAll [.between "ann" "old-a", .between "bob" "old-b",
      .between "eve" "old-e"]
    (∀ m, m ∈ ["ann", "bob"] ↔ m ∈ ["bob", "ann", "ann"]) ∧
      Pairs (t.learnAll d ["bob", "ann", "ann"]).links "ann" "bob" ∧
      Pairs (t.learnAll d ["bob", "ann", "ann"]).links "eve" "old-e" ∧
      Pairs (t.learnAll d ["bob", "ann", "ann"]).links "eve" "bob" ∧
      ¬ Pairs (t.learnAll d ["bob", "ann", "ann"]).links "bob" "old-b" := by
  intro d t
  have hsame : ∀ m : Identity, m ∈ ["ann", "bob"] ↔ m ∈ ["bob", "ann", "ann"] := by
    intro m
    simp [or_comm]
  obtain ⟨-, -, hflat, -⟩ := refreshes_commute t d ["ann", "bob"] ["bob", "ann", "ann"] hsame
  have hproper : t.Proper := LinkTable.proper_empty.addAll _
  have hpairs (m s : Identity) := (hflat hproper m s).2.symm.trans (hflat hproper m s).1
  refine ⟨hsame, ?_, ?_, ?_, ?_⟩ <;> rw [hpairs] <;> decide +kernel

end Courier
