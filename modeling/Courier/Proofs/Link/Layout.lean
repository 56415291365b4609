import Courier.Proofs.Link.Table
import Courier.Proofs.Node.Keeps

/-!
# The layout of a link table

The unlink guard reads a link table by key, routing reads it as one flat list. They see the same
links as long as every link stands where its own master is looked up, and only there.

* `LinkTable.Proper.distinct_links`: no pairing occurs twice in the whole table, not just within a
  group.
* `LinkTable.Proper.sortedOfMaster_perm`, `LinkTable.Proper.sortedOfMaster_strict`: the links listed
  for a master are those of the flat list, each slave once and in order.
* `LinkEdit`: what changes the links of a cache, with the store that it finds. Every edit keeps the
  form of the table (`LinkCache.proper_edit`), so every sequence of edits does.
* `LinkCache.layout_of_edits`: so by key and in the flat list there are the same links.
-/

namespace Courier

namespace LinkTable

variable {t : LinkTable} {m : Identity}

/-- No pairing occurs twice in the flat list: within a group by its form, and in different groups
because the masters differ. -/
theorem Proper.distinct_links (h : t.Proper) : t.links.Pairwise fun a b => ¬ a.SamePair b := by
  refine List.pairwise_flatMap.mpr ⟨h.distinct, ?_⟩
  have hkeys : t.groups.Pairwise fun g g' => g.1 ≠ g'.1 := List.pairwise_map.mp h.nodup
  refine hkeys.imp_of_mem fun {g g'} hg hg' hne a ha b hb hsame => hne ?_
  have hmasters : a.master.identity = b.master.identity := congrArg Prod.fst hsame
  rw [← h.owned g hg a ha, hmasters, h.owned g' hg' b hb]

theorem Proper.nodup_pairs (h : t.Proper) : (t.links.map DeviceLink.pair).Nodup :=
  List.pairwise_map.mpr h.distinct_links

theorem Proper.nodup_links (h : t.Proper) : t.links.Nodup :=
  h.nodup_pairs.of_map _

/-- The group of a master is what the flat list has of it. -/
theorem Proper.ofMaster_perm (h : t.Proper) (m : Identity) :
    (t.ofMaster m).Perm (t.links.filter (·.master.identity = m)) := by
  have hnodup : (t.ofMaster m).Nodup :=
    (h.distinct_ofMaster m).imp fun hne heq => hne (congrArg DeviceLink.pair heq)
  refine (List.perm_ext_iff_of_nodup hnodup (h.nodup_links.filter _)).mpr fun l => ?_
  rw [List.mem_filter, h.mem_links, decide_eq_true_eq]
  constructor
  · intro hl
    have hm := h.master_of_mem hl
    exact ⟨hm ▸ hl, hm⟩
  · rintro ⟨hl, rfl⟩
    exact hl

theorem Proper.sortedOfMaster_perm (h : t.Proper) (m : Identity) :
    (t.sortedOfMaster m).Perm (t.links.filter (·.master.identity = m)) :=
  (List.mergeSort_perm ..).trans (h.ofMaster_perm m)

/-- Links of one master that differ as pairings have different slaves, so their order is strict. -/
theorem Proper.sortedOfMaster_strict (h : t.Proper) (m : Identity) :
    (t.sortedOfMaster m).Pairwise (·.slave.identity < ·.slave.identity) := by
  have hperm : (t.sortedOfMaster m).Perm (t.ofMaster m) := List.mergeSort_perm ..
  have hsorted : (t.sortedOfMaster m).Pairwise (·.slave.identity ≤ ·.slave.identity) := by
    have hle := @List.pairwise_mergeSort DeviceLink
      (fun a b => decide (a.slave.identity ≤ b.slave.identity))
      (fun a b c hab hbc => by simp only [decide_eq_true_eq] at *; exact le_trans hab hbc)
      (fun a b => by simpa using le_total a.slave.identity b.slave.identity) (t.ofMaster m)
    exact hle.imp of_decide_eq_true
  have hdistinct : (t.sortedOfMaster m).Pairwise fun a b => ¬ a.SamePair b :=
    (hperm.pairwise_iff fun {a b} hne hsame => hne hsame.symm).mpr (h.distinct_ofMaster m)
  refine (hsorted.and hdistinct).imp_of_mem fun {a b} ha hb ⟨hle, hne⟩ => ?_
  refine lt_of_le_of_ne hle fun hslaves => hne ?_
  have hma := h.master_of_mem (hperm.mem_iff.mp ha)
  have hmb := h.master_of_mem (hperm.mem_iff.mp hb)
  exact Prod.ext (hma.trans hmb.symm) hslaves

end LinkTable

/-! ## Edits of a cache -/

theorem LinkWork.proper_apply {work : LinkWork} {instant : Nat} {c : LinkCache} {s : Store}
    (h : c.table.Proper) : (work.apply instant c s).1.table.Proper := by
  cases work with
  | refresh identity master answer =>
    rcases answer with (e | e) | fetched
    · exact h
    · exact h
    · exact h.applyFetch master fetched
  | record l => exact h.put l
  | evict l => exact h.remove l

/-- What changes the links of a cache, with the store that it finds: the stored links are loaded, or
an answer of the directory, a new link or an eviction comes in at an instant. -/
inductive LinkEdit where
  | load (s : Store)
  | change (s : Store) (instant : Nat) (work : LinkWork)

namespace LinkCache

variable {c : LinkCache}

/-- The cache after an edit. A load or a refresh that fails leaves it as it is. -/
def edit (c : LinkCache) : LinkEdit → LinkCache
  | .load s =>
    match (c.load.attempt s).1 with
    | .ok (_, loaded) => loaded
    | .error _ => c
  | .change s instant work => (work.apply instant c s).1

/-- The cache after a sequence of edits. -/
def editAll (c : LinkCache) (edits : List LinkEdit) : LinkCache :=
  edits.foldl edit c

theorem table_edit_load (s : Store) :
    (c.edit (.load s)).table =
      if s.outage s.calls .readAllDeviceLinks = none then c.table.addAll s.db.links.sorted
      else c.table := by
  simp only [edit, load, Store.readAllDeviceLinks, Store.query]
  rw [StoreM.attempt_bind, StoreM.attempt_call]
  cases s.outage s.calls .readAllDeviceLinks <;> rfl

theorem proper_edit (h : c.table.Proper) (e : LinkEdit) : (c.edit e).table.Proper := by
  cases e with
  | load s =>
    rw [table_edit_load]
    split
    · exact h.addAll _
    · exact h
  | change s instant work => exact LinkWork.proper_apply h

theorem proper_editAll (h : c.table.Proper) (edits : List LinkEdit) :
    (c.editAll edits).table.Proper := by
  induction edits generalizing c with
  | nil => exact h
  | cons e edits ih => exact ih (proper_edit h e)

/-- After every sequence of edits of an empty cache, whatever the stores hold, whichever of their
calls fail, and whatever the directory answers:

* each group stands under one key, is not empty and holds links of that master only, and no pairing
  occurs twice in the whole table;
* a link is found under its master exactly if it is in the flat list;
* so routing goes by the links that are found under their masters: a device has a master under which
  it is found, or it is its own and is found under none, and it is sent to that master's slaves;
* the links listed for a master are those of the flat list, strictly increasing by slave. -/
theorem layout_of_edits (edits : List LinkEdit) :
    let c := empty.editAll edits
    ((c.table.groups.map (·.1)).Nodup ∧
      (∀ g ∈ c.table.groups, g.2 ≠ [] ∧ ∀ l ∈ g.2, l.master.identity = g.1) ∧
      (c.table.links.map DeviceLink.pair).Nodup) ∧
    (∀ m s, c.table.Contains m s ↔ Pairs c.table.links m s) ∧
    (∀ i, (c.table.Contains (c.masterOf i) i ∨
        (c.masterOf i = i ∧ ∀ m, ¬ c.table.Contains m i)) ∧
      ∀ s, ⟨s, false⟩ ∈ c.destinations i ↔
        s ≠ c.masterOf i ∧ c.table.Contains (c.masterOf i) s) ∧
    ∀ m, (c.table.sortedOfMaster m).Perm (c.table.links.filter (·.master.identity = m)) ∧
      (c.table.sortedOfMaster m).Pairwise (·.slave.identity < ·.slave.identity) := by
  intro c
  have h : c.table.Proper := proper_editAll LinkTable.proper_empty edits
  have hcontains (m s : Identity) : c.table.Contains m s ↔ Pairs c.table.links m s :=
    h.pairs_links.symm
  refine ⟨⟨h.nodup, fun g hg => ⟨h.nonempty g hg, h.owned g hg⟩, h.nodup_pairs⟩, hcontains,
    fun i => ⟨?_, fun s => ?_⟩, fun m => ⟨h.sortedOfMaster_perm m, h.sortedOfMaster_strict m⟩⟩
  · simp only [hcontains]
    exact masterIn_cases c.table.links i
  · rw [hcontains, ← mem_slavesIn, ← mem_inOrderOnce]
    simp [destinations, destinationsIn, masterOf]

end LinkCache

end Courier
