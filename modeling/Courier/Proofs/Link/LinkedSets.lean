import Courier.Proofs.Link.Destinations
import Courier.Proofs.Text.Order

/-!
# Linked sets

The devices that a message for `x` goes to, `devicesIn links x`, are the master of `x` and that
master's slaves, whatever the links look like.

* `destinationsIn_shape`: what a list of destinations looks like, for every list of links.
* `linked_sets_iff`: where no device has two masters, all devices of a list have the same list
  exactly if no device is the slave of another and the master of another (`Flat`). The lists are
  then the classes of a partition. The order of the links, and how often they are repeated, never
  counts.
* `mutual_links_differ`: two devices that are masters of each other have different lists.
-/

namespace Courier

variable {links : List DeviceLink} {x y m s : Identity}

/-- The devices that a message for `x` goes to. -/
def devicesIn (links : List DeviceLink) (x : Identity) : List Identity :=
  (destinationsIn links x).map (·.identity)

/-- `m` is the master of the first link that names `x` as slave, or it is `x`, and no link names `x`
as slave. -/
def FirstMaster (links : List DeviceLink) (x m : Identity) : Prop :=
  (∃ before l after, links = before ++ l :: after ∧ (∀ b ∈ before, b.slave.identity ≠ x) ∧
    l.Matches m x) ∨
  ((∀ l ∈ links, l.slave.identity ≠ x) ∧ m = x)

theorem firstMaster_masterIn (links : List DeviceLink) (x : Identity) :
    FirstMaster links x (masterIn links x) := by
  unfold masterIn
  cases h : links.find? (·.slave.identity = x) with
  | none =>
    refine .inr ⟨fun l hl => ?_, rfl⟩
    simpa using List.find?_eq_none.mp h l hl
  | some l =>
    obtain ⟨hslave, before, after, heq, hbefore⟩ := List.find?_eq_some_iff_append.mp h
    refine .inl ⟨before, l, after, heq, fun b hb => ?_, ?_⟩
    · simpa using hbefore b hb
    · exact DeviceLink.matches_iff.mpr ⟨rfl, by simpa using hslave⟩

theorem devicesIn_eq (links : List DeviceLink) (x : Identity) :
    devicesIn links x =
      masterIn links x :: inOrderOnce (slavesIn links (masterIn links x)) := by
  simp [devicesIn, destinationsIn, Function.comp_def]

theorem mem_devicesIn :
    y ∈ devicesIn links x ↔ y = masterIn links x ∨ Pairs links (masterIn links x) y := by
  rw [devicesIn_eq, List.mem_cons, mem_inOrderOnce, mem_slavesIn]
  by_cases h : y = masterIn links x <;> simp [h]

/-- A message for a device reaches that device. -/
theorem self_mem_devicesIn (links : List DeviceLink) (x : Identity) : x ∈ devicesIn links x := by
  rw [mem_devicesIn]
  rcases masterIn_cases links x with hp | ⟨heq, -⟩
  · exact .inr hp
  · exact .inl heq.symm

/-- For every list of links and every device `x`: the destinations are the master of the first link
that names `x` as slave, or `x` itself if there is none, which alone is marked as master; and after
it every other slave of that master, each once, in the order of their octets. `x` is among them. -/
theorem destinationsIn_shape (links : List DeviceLink) (x : Identity) :
    ∃ (master : Identity) (slaves : List Identity),
      destinationsIn links x = ⟨master, true⟩ :: slaves.map (⟨·, false⟩) ∧
      FirstMaster links x master ∧
      slaves.Pairwise (fun a b => octetsOf a < octetsOf b) ∧
      master ∉ slaves ∧
      (∀ s, s ∈ slaves ↔ s ≠ master ∧ Pairs links master s) ∧
      ∃ d ∈ destinationsIn links x, d.identity = x := by
  have hmem (s : Identity) : s ∈ inOrderOnce (slavesIn links (masterIn links x)) ↔
      s ≠ masterIn links x ∧ Pairs links (masterIn links x) s := by
    rw [mem_inOrderOnce, mem_slavesIn]
  refine ⟨_, _, rfl, firstMaster_masterIn links x, (inOrderOnce_strict _).imp octetsOf_lt,
    fun h => ((hmem _).mp h).1 rfl, hmem, ?_⟩
  exact List.mem_map.mp (self_mem_devicesIn links x)

/-! ## Devices of one set -/

/-- No device is the slave of two masters. -/
def OneMaster (links : List DeviceLink) : Prop :=
  ∀ m m' s, Pairs links m s → Pairs links m' s → m = m'

/-- No device that is the slave of another is the master of a third. -/
def NoThird (links : List DeviceLink) : Prop :=
  ∀ m x s, Pairs links m x → m ≠ x → Pairs links x s → s ≠ x → s = m

/-- No device that is the slave of another is the master of another, be it its own master. -/
def Flat (links : List DeviceLink) : Prop :=
  ∀ m x s, Pairs links m x → m ≠ x → Pairs links x s → s = x

/-- The destinations are those of the master. -/
theorem destinationsIn_congr (h : masterIn links y = masterIn links x) :
    destinationsIn links y = destinationsIn links x := by
  unfold destinationsIn
  rw [h]

theorem masterIn_of_destinationsIn (h : destinationsIn links y = destinationsIn links x) :
    masterIn links y = masterIn links x := by
  unfold destinationsIn at h
  exact congrArg Destination.identity (List.cons.inj h).1

/-- In a flat list of links a master is its own master. -/
theorem Flat.masterIn_master (h : Flat links) (x : Identity) :
    masterIn links (masterIn links x) = masterIn links x := by
  rcases masterIn_cases links (masterIn links x) with hp | ⟨hself, -⟩
  · by_cases heq : masterIn links (masterIn links x) = masterIn links x
    · exact heq
    -- the master of `x` is a slave of another, so it is master of itself alone, which `x` then is
    · rcases masterIn_cases links x with hx | ⟨hself, -⟩
      · have hx : x = masterIn links x := h _ _ _ hp heq hx
        exact congrArg (masterIn links) hx.symm
      · rw [hself]
        exact hself
  · exact hself

/-- The devices of a list have the same list exactly if the links are flat. -/
theorem same_destinations_iff (h : OneMaster links) :
    (∀ x y, y ∈ devicesIn links x → destinationsIn links y = destinationsIn links x) ↔
      Flat links := by
  constructor
  · intro hsame m x s hmx hne hxs
    have hx : masterIn links x = m := masterIn_eq_of_pairs hmx fun m' hm' => h _ _ _ hm' hmx
    have hs : masterIn links s = x := masterIn_eq_of_pairs hxs fun m' hm' => h _ _ _ hm' hxs
    have hmem : x ∈ devicesIn links s := mem_devicesIn.mpr (.inl hs.symm)
    have hmaster := masterIn_of_destinationsIn (hsame s x hmem)
    rw [hx, hs] at hmaster
    exact absurd hmaster hne
  · intro hflat x y hy
    refine destinationsIn_congr ?_
    rcases mem_devicesIn.mp hy with rfl | hp
    · exact hflat.masterIn_master x
    · exact masterIn_eq_of_pairs hp fun m hm => h _ _ _ hm hp

/-- Where no device is the slave of two masters:

* every device in the list of a device has that same list, exactly if no device that is the slave of
  another is the master of another;
* each device is then in its own list, and two lists are the same or have no device in common;
* links that pair the same devices, in any order and with any repetitions, give every device the
  same list. -/
theorem linked_sets_iff (h : OneMaster links) :
    ((∀ x y, y ∈ devicesIn links x → destinationsIn links y = destinationsIn links x) ↔
      Flat links) ∧
    (Flat links → ∀ x y, x ∈ devicesIn links x ∧
      (destinationsIn links x = destinationsIn links y ∨
        ∀ z ∈ devicesIn links x, z ∉ devicesIn links y)) ∧
    ∀ links', (∀ m s, Pairs links' m s ↔ Pairs links m s) →
      ∀ x, destinationsIn links' x = destinationsIn links x := by
  refine ⟨same_destinations_iff h, fun hflat x y => ⟨self_mem_devicesIn links x, ?_⟩,
    fun links' hpairs x => destinationsIn_eq_of_pairs hpairs fun m m' => h m m' x⟩
  have hsame := (same_destinations_iff h).mpr hflat
  by_cases hcommon : ∃ z ∈ devicesIn links x, z ∈ devicesIn links y
  · obtain ⟨z, hx, hy⟩ := hcommon
    exact .inl ((hsame x z hx).symm.trans (hsame y z hy))
  · exact .inr fun z hx hy => hcommon ⟨z, hx, hy⟩

/-- The phone's list is the master's, also with the links in another order and one of them twice.
The lists of the two users have no device in common. -/
theorem linked_sets_of_repeated_links :
    let links := [DeviceLink.between "bob" "bob-tablet", .between "ann" "ann",
      .between "bob" "bob-phone"]
    let again := [DeviceLink.between "bob" "bob-phone", .between "bob" "bob-tablet",
      .between "bob" "bob-phone", .between "ann" "ann"]
    OneMaster links ∧ Flat links ∧
      destinationsIn again "bob-phone" = destinationsIn links "bob" ∧
      ∀ z ∈ devicesIn links "bob-tablet", z ∉ devicesIn links "ann" := by
  intro links again
  have hone : OneMaster links := by
    intro m m' s h h'
    simp only [links, pairs_cons, pairs_nil, or_false, DeviceLink.matches_between] at h h'
    grind
  have hflat : Flat links := by
    intro m x s h hne h'
    simp only [links, pairs_cons, pairs_nil, or_false, DeviceLink.matches_between] at h h'
    grind
  obtain ⟨hsame, hparts, horder⟩ := linked_sets_iff hone
  refine ⟨hone, hflat, ?_, ?_⟩
  · have hagain : destinationsIn again "bob-phone" = destinationsIn links "bob-phone" := by
      refine horder again (fun m s => ?_) "bob-phone"
      simp only [links, again, pairs_cons, pairs_nil, or_false, DeviceLink.matches_between]
      grind
    exact hagain.trans (hsame.mpr hflat "bob" "bob-phone" (mem_devicesIn.mpr (by decide)))
  · refine (hparts hflat "bob-tablet" "ann").2.resolve_left fun heq => ?_
    exact absurd (masterIn_of_destinationsIn heq) (by decide)

/-- Two devices that are masters of each other: each has one master, and none is the master of a
third. Either list has both devices, but the roles are exchanged. -/
theorem mutual_links_differ :
    let links := [DeviceLink.between "ann" "bob", .between "bob" "ann"]
    OneMaster links ∧ NoThird links ∧ "bob" ∈ devicesIn links "ann" ∧
      destinationsIn links "bob" ≠ destinationsIn links "ann" := by
  intro links
  refine ⟨fun m m' s h h' => ?_, fun m x s h hne h' hs => ?_, by decide +kernel, by decide +kernel⟩
  · simp only [links, pairs_cons, pairs_nil, or_false, DeviceLink.matches_between] at h h'
    grind
  · simp only [links, pairs_cons, pairs_nil, or_false, DeviceLink.matches_between] at h h'
    grind

end Courier
