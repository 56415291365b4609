import Courier.Link.Destinations
import Courier.Proofs.Lists

/-!
# What a list of links says about a device

`Pairs links master slave` is all that routing reads in a list of links.

* `inOrderOnce_eq_iff`: two lists of names have one ordered form exactly if they have the same
  members; the form is strictly increasing (`inOrderOnce_strict`).
* `masterIn_cases`: the master of a device is paired with it, or the device is its own master and
  nobody's slave.
* `destinationsIn_eq_iff`: two lists of links send a device's messages to the same devices exactly
  if they agree on its master and on that master's other slaves. Lists that pair the same devices do
  so wherever a device has one master at most (`destinationsIn_eq_of_pairs`).
* `destinationsIn_nodup`: no device is listed twice.
-/

namespace Courier

/-- Some link of the list pairs `slave` with `master`. -/
def Pairs (links : List DeviceLink) (master slave : Identity) : Prop :=
  ∃ l ∈ links, l.Matches master slave

instance (links : List DeviceLink) (master slave : Identity) :
    Decidable (Pairs links master slave) :=
  inferInstanceAs (Decidable (∃ l ∈ links, l.Matches master slave))

theorem DeviceLink.matches_iff {l : DeviceLink} {m s : Identity} :
    l.Matches m s ↔ l.master.identity = m ∧ l.slave.identity = s := by
  simp [Matches, pair]

theorem DeviceLink.matches_between {a b m s : Identity} :
    (DeviceLink.between a b).Matches m s ↔ a = m ∧ b = s :=
  matches_iff

theorem pairs_nil {m s : Identity} : Pairs [] m s ↔ False := by
  simp [Pairs]

theorem pairs_cons {l : DeviceLink} {links : List DeviceLink} {m s : Identity} :
    Pairs (l :: links) m s ↔ l.Matches m s ∨ Pairs links m s := by
  simp [Pairs]

theorem pairs_append {a b : List DeviceLink} {m s : Identity} :
    Pairs (a ++ b) m s ↔ Pairs a m s ∨ Pairs b m s := by
  simp only [Pairs, List.mem_append]
  constructor
  · rintro ⟨l, ha | hb, h⟩
    · exact .inl ⟨l, ha, h⟩
    · exact .inr ⟨l, hb, h⟩
  · rintro (⟨l, ha, h⟩ | ⟨l, hb, h⟩)
    · exact ⟨l, .inl ha, h⟩
    · exact ⟨l, .inr hb, h⟩

theorem pairs_filter {links : List DeviceLink} {p : DeviceLink → Bool} {m s : Identity}
    (hp : ∀ l ∈ links, l.Matches m s → p l = true) :
    Pairs (links.filter p) m s ↔ Pairs links m s := by
  constructor
  · rintro ⟨l, hl, h⟩
    exact ⟨l, (List.mem_filter.mp hl).1, h⟩
  · rintro ⟨l, hl, h⟩
    exact ⟨l, List.mem_filter.mpr ⟨hl, hp l hl h⟩, h⟩

/-! ## Names in order -/

@[simp] theorem mem_inOrderOnce {x : String} {names : List String} :
    x ∈ inOrderOnce names ↔ x ∈ names := by
  simp [inOrderOnce]

theorem inOrderOnce_strict (names : List String) : (inOrderOnce names).Pairwise (· < ·) := by
  refine eraseReps_strict ?_
  have h := @List.pairwise_mergeSort String (fun a b => decide (a ≤ b))
    (fun a b c hab hbc => by simp only [decide_eq_true_eq] at *; exact le_trans hab hbc)
    (fun a b => by simpa using le_total a b) names
  simpa only [decide_eq_true_eq] using h

/-- The ordered form depends on the members alone. -/
theorem inOrderOnce_eq_iff {a b : List String} :
    inOrderOnce a = inOrderOnce b ↔ ∀ x, x ∈ a ↔ x ∈ b := by
  constructor
  · intro h x
    rw [← @mem_inOrderOnce x a, h, mem_inOrderOnce]
  · intro h
    have ha := inOrderOnce_strict a
    have hb := inOrderOnce_strict b
    have hperm : (inOrderOnce a).Perm (inOrderOnce b) :=
      (List.perm_ext_iff_of_nodup (ha.imp ne_of_lt) (hb.imp ne_of_lt)).mpr fun x => by simp [h]
    exact hperm.eq_of_pairwise (fun x y _ _ hxy hyx => (lt_asymm hxy hyx).elim) ha hb

/-! ## Masters and destinations -/

theorem masterIn_cases (links : List DeviceLink) (x : Identity) :
    Pairs links (masterIn links x) x ∨ (masterIn links x = x ∧ ∀ m, ¬ Pairs links m x) := by
  unfold masterIn
  split
  · next l hl =>
    have hslave : l.slave.identity = x := by simpa using List.find?_some hl
    exact .inl ⟨l, List.mem_of_find?_eq_some hl, DeviceLink.matches_iff.mpr ⟨rfl, hslave⟩⟩
  · next hnone =>
    refine .inr ⟨rfl, fun m ⟨l, hl, h⟩ => ?_⟩
    have := List.find?_eq_none.mp hnone l hl
    exact this (by simp [(DeviceLink.matches_iff.mp h).2])

/-- A device that is paired with one master at most has that master. -/
theorem masterIn_eq_of_pairs {links : List DeviceLink} {m x : Identity} (h : Pairs links m x)
    (huniq : ∀ m', Pairs links m' x → m' = m) : masterIn links x = m := by
  rcases masterIn_cases links x with hp | ⟨-, hnone⟩
  · exact huniq _ hp
  · exact absurd h (hnone m)

/-- A device that is nobody's slave is its own master. -/
theorem masterIn_eq_self {links : List DeviceLink} {x : Identity}
    (h : ∀ m, Pairs links m x → m = x) : masterIn links x = x := by
  rcases masterIn_cases links x with hp | ⟨heq, -⟩
  · exact h _ hp
  · exact heq

@[simp] theorem mem_slavesIn {links : List DeviceLink} {m s : Identity} :
    s ∈ slavesIn links m ↔ s ≠ m ∧ Pairs links m s := by
  simp only [slavesIn, List.mem_map, List.mem_filter, Pairs, DeviceLink.matches_iff]
  constructor
  · rintro ⟨l, ⟨hl, hp⟩, rfl⟩
    simp only [decide_eq_true_eq] at hp
    exact ⟨hp.2, l, hl, hp.1, rfl⟩
  · rintro ⟨hne, l, hl, hm, rfl⟩
    exact ⟨l, ⟨hl, by simp [hm, hne]⟩, rfl⟩

/-- The destinations say who the master is and which other slaves it has, and nothing else. -/
theorem destinationsIn_eq_iff {a b : List DeviceLink} {x : Identity} :
    destinationsIn a x = destinationsIn b x ↔
      masterIn a x = masterIn b x ∧
        ∀ s, s ≠ masterIn b x → (Pairs a (masterIn b x) s ↔ Pairs b (masterIn b x) s) := by
  have hinj : Function.Injective fun s : Identity => (⟨s, false⟩ : Destination) :=
    fun s t h => by simpa using h
  simp only [destinationsIn, List.cons.injEq, Destination.mk.injEq, and_true,
    List.map_inj_right (fun s t h => hinj h), inOrderOnce_eq_iff, mem_slavesIn]
  constructor
  · rintro ⟨hm, hs⟩
    refine ⟨hm, fun s hne => ?_⟩
    have := hs s
    rw [hm] at this
    simpa [hne] using this
  · rintro ⟨hm, hs⟩
    refine ⟨hm, fun s => ?_⟩
    rw [hm]
    by_cases hne : s = masterIn b x
    · simp [hne]
    · simp [hne, hs s hne]

/-- Lists that pair the same devices send the messages of a device to the same destinations, unless
the device has several masters among which the order of the list decides. -/
theorem destinationsIn_eq_of_pairs {a b : List DeviceLink} {i : Identity}
    (h : ∀ m s, Pairs a m s ↔ Pairs b m s)
    (huniq : ∀ m m', Pairs b m i → Pairs b m' i → m = m') :
    destinationsIn a i = destinationsIn b i := by
  have hmaster : masterIn a i = masterIn b i := by
    rcases masterIn_cases b i with hp | ⟨hself, hnone⟩
    · exact masterIn_eq_of_pairs ((h _ _).mpr hp) fun m hm => huniq m _ ((h m i).mp hm) hp
    · rw [hself]
      exact masterIn_eq_self fun m hm => absurd ((h m i).mp hm) (hnone m)
  exact destinationsIn_eq_iff.mpr ⟨hmaster, fun s _ => h _ s⟩

theorem destinationsIn_nodup (links : List DeviceLink) (x : Identity) :
    ((destinationsIn links x).map (·.identity)).Nodup := by
  simp only [destinationsIn, List.map_cons, List.map_map, List.nodup_cons]
  rw [show ((·.identity) ∘ fun s : Identity => (⟨s, false⟩ : Destination)) = id from rfl,
    List.map_id]
  refine ⟨fun h => ?_, (inOrderOnce_strict _).imp ne_of_lt⟩
  rw [mem_inOrderOnce, mem_slavesIn] at h
  exact h.1 rfl

end Courier
