import Courier.CommandLine.Run
import Courier.Proofs.Link.Changes
import Courier.Proofs.Link.Layout

/-!
# The cache agrees with the stored links

A change of links reaches the cache and the store by different ways: an answer of the directory
replaces a group and puts links into others, or replaces rows and upserts others; a load only adds.
With a store that does not fail both say the same of every pair (`LinkWork.written_eq_word`).

* `Node.Mirrors`: every cached pair is stored, and once the cache is loaded every stored pair is
  cached. Every event keeps it (`System.mirrors_step`). By its first half a load after a restart
  brings back the stored pairs and leaves no others.
* `System.cache_agrees_with_rows`: so whenever the node is loaded, cache and store pair the same
  devices, a restart and a start bring the same pairs back, and a device with at most one master is
  resolved to the devices that the command line lists for it.
-/

namespace Courier

/-- No call of the store fails. -/
def Store.Reliable (s : Store) : Prop :=
  ∀ k call, s.outage k call = none

/-! ## Changes of links -/

namespace LinkWork

variable {work : LinkWork} {m sl : Identity} {s : Store}

theorem upserted_iff_pairs (h : s.Reliable) {ls : List DeviceLink} {k : Nat} :
    Upserted s.outage m sl k ls ↔ Pairs ls m sl := by
  induction ls generalizing k with
  | nil => exact pairs_nil.symm
  | cons l ls ih => rw [Upserted, ih, pairs_cons, and_iff_left (h k _)]

/-- Where no call fails, a change says of a pairing in the store what it says in the cache. -/
theorem written_eq_word (h : s.Reliable) : work.written s m sl = work.word m sl := by
  cases work with
  | refresh identity master answer =>
    rcases answer with e | fetched
    · rfl
    unfold written word
    dsimp only
    rcases eq_or_ne m master with rfl | hm
    · rw [if_pos rfl, if_pos (h _ _), if_pos rfl]
      by_cases hp : Pairs fetched m sl <;> simp [hp]
    · have hothers : Pairs (fetched.filter (·.master.identity ≠ master)) m sl ↔
          Pairs fetched m sl :=
        pairs_filter fun l _ hl => by simpa [(DeviceLink.matches_iff.mp hl).1] using hm
      rw [if_neg hm, if_neg hm]
      simp only [upserted_iff_pairs h, hothers]
  | record l =>
    unfold written word
    simp only [h _ _, and_true]
  | evict l =>
    unfold written word
    simp only [h _ _, and_true]

end LinkWork

namespace Node

variable {n : Node} {m sl : Identity}

/-- The stored links are read if no call fails. -/
theorem loadLinks_of_reliable (h : n.store.Reliable) :
    n.loadLinks.1 = .ok n.store.db.links.sorted.length := by
  unfold loadLinks attempt LinkCache.load Store.readAllDeviceLinks Store.query
  rw [StoreM.attempt_bind, StoreM.attempt_call, h]
  rfl

/-- Every cached pair is stored; if the cache is loaded, every stored pair is cached. -/
structure Mirrors (n : Node) (loaded : Bool) : Prop where
  proper : n.links.table.Proper
  stored : ∀ m sl, n.links.table.Contains m sl → Pairs n.store.db.links m sl
  cached : loaded = true → ∀ m sl, Pairs n.store.db.links m sl → n.links.table.Contains m sl

/-- A loaded cache and the store pair the same devices. -/
theorem Mirrors.pairs_iff (h : n.Mirrors true) :
    Pairs n.links.table.links m sl ↔ Pairs n.store.db.links m sl :=
  h.proper.pairs_links.trans ⟨h.stored m sl, h.cached rfl m sl⟩

end Node

/-! ## Events -/

/-- Whether the cache is loaded after an event: a restart empties it, a load or a start fills it
from the store. -/
def Event.loads (loaded : Bool) : Event → Bool
  | .restart => false
  | .load | .start => true
  | _ => loaded

/-- Whether the cache is loaded after a run that begins with a new node over a store without links:
there is nothing to load at first. -/
def loadedAfter (events : List (Exchange × Event)) : Bool :=
  events.foldl (fun loaded p => p.2.loads loaded) true

namespace System

variable {s : System} {x : Exchange} {e : Event} {m sl : Identity} {loaded : Bool}

theorem word_of_load (h : s.node.store.Reliable) (he : e = .load ∨ e = .start) :
    s.word m sl e = if Pairs s.node.store.db.links m sl then some true else none := by
  have hword : s.word m sl e = s.node.loadWord m sl := by
    rcases he with rfl | rfl <;> rfl
  rw [hword, Node.loadWord, Node.loadLinks_of_reliable h]

theorem written_of_load (he : e = .load ∨ e = .start) : s.written m sl e = none := by
  rcases he with rfl | rfl <;> rfl

/-- Apart from loads, an event says the same in the store as in the cache. -/
theorem written_eq_word (h : s.node.store.Reliable) (he : ¬ (e = .load ∨ e = .start)) :
    s.written m sl e = s.word m sl e := by
  have hword : s.word m sl e = (s.linkWork e).bind (·.word m sl) := by
    unfold word
    split
    · exact absurd (.inl rfl) he
    · exact absurd (.inr rfl) he
    · rfl
  rw [hword, written]
  congr 1
  funext work
  exact LinkWork.written_eq_word h

theorem loads_of_not_load (he : ¬ (e = .load ∨ e = .start)) (hr : e ≠ .restart) :
    e.loads loaded = loaded := by
  unfold Event.loads
  split
  · exact absurd rfl hr
  · exact absurd (.inl rfl) he
  · exact absurd (.inr rfl) he
  · rfl

theorem proper_step (h : s.node.links.table.Proper) : (s.step x e).node.links.table.Proper := by
  by_cases hr : e = .restart
  · subst hr
    exact LinkTable.proper_empty
  rw [(step_keeps hr).links]
  refine s.prepared_cases e (P := fun n => n.links.table.Proper) h
    (fun work => LinkWork.proper_apply h) (fun generation a => ?_) ?_
  · rw [Node.received_links]
    exact h
  · rw [Node.loadLinks_table]
    split
    · exact h.addAll _
    · exact h

/-- What an event leaves of a pair in the cache and in the store, for any event but a restart. -/
theorem contains_pairs_step (hr : e ≠ .restart) (m sl : Identity) :
    let t := s.step x e
    (t.node.links.table.Contains m sl ↔
      (s.word m sl e).getD (decide (s.node.links.table.Contains m sl)) = true) ∧
    (Pairs t.node.store.db.links m sl ↔
      (s.written m sl e).getD (decide (Pairs s.node.store.db.links m sl)) = true) :=
  ⟨caches_step decide_eq_true_iff.symm hr, stores_step decide_eq_true_iff.symm hr⟩

/-- Every event keeps the agreement of cache and store, as long as no call of the store fails. -/
theorem mirrors_step (h : s.node.Mirrors loaded) (hrel : s.node.store.Reliable) :
    (s.step x e).node.Mirrors (e.loads loaded) := by
  by_cases hr : e = .restart
  · subst hr
    exact ⟨LinkTable.proper_empty, nofun, nofun⟩
  refine ⟨proper_step h.proper, fun m sl => ?_, fun hloaded m sl => ?_⟩ <;>
    obtain ⟨hcache, hstore⟩ := contains_pairs_step (x := x) hr m sl <;>
    rw [hcache, hstore] <;>
    by_cases hload : e = .load ∨ e = .start
  · rw [word_of_load hrel hload, written_of_load hload]
    have := h.stored m sl
    by_cases hp : Pairs s.node.store.db.links m sl <;> simp_all
  · rw [written_eq_word hrel hload]
    cases s.word m sl e with
    | none => simpa using h.stored m sl
    | some b => exact id
  · rw [word_of_load hrel hload, written_of_load hload]
    by_cases hp : Pairs s.node.store.db.links m sl <;> simp [hp]
  · rw [written_eq_word hrel hload]
    rw [loads_of_not_load hload hr] at hloaded
    cases s.word m sl e with
    | none => simpa using h.cached hloaded m sl
    | some b => exact id

theorem reliable_step (h : s.node.store.Reliable) (x : Exchange) (e : Event) :
    (s.step x e).node.store.Reliable := by
  intro k call
  rw [outage_step]
  exact h k call

theorem mirrors_run (h : s.node.Mirrors loaded) (hrel : s.node.store.Reliable)
    (events : List (Exchange × Event)) :
    (s.run events).node.Mirrors (events.foldl (fun loaded p => p.2.loads loaded) loaded) := by
  induction events generalizing s loaded with
  | nil => exact h
  | cons p events ih => exact ih (mirrors_step h hrel) (reliable_step hrel p.1 p.2)

/-! ## The guarantee -/

/-- A resolve of a fresh device is over at once. -/
theorem begin_resolve_fresh {i : Identity}
    (h : ¬ s.node.links.Stale s.node.settings.refreshInterval s.clock.instant i) :
    (s.node.begin (s.surroundings x) (.resolve i)).1 =
      .ends (.destinations (.ok (destinationsIn s.node.links.table.links i))) := by
  unfold Node.begin LinkCache.resolve surroundings
  dsimp only
  rw [if_neg h]
  rfl

theorem readAllDeviceLinks_of_reliable {s : Store} (h : s.Reliable) :
    (Store.readAllDeviceLinks.attempt s).1 = .ok s.db.links.sorted := by
  unfold Store.readAllDeviceLinks Store.query
  rw [StoreM.attempt_call, h]

/-- A new node over a store without links has nothing to load. -/
theorem mirrors_assemble (settings : Settings) {db : Database} (hdb : db.links = []) :
    (Node.assemble settings (.reliable db)).Mirrors true := by
  refine ⟨LinkTable.proper_empty, nofun, fun _ m sl hp => ?_⟩
  have hp : Pairs db.links m sl := hp
  rw [hdb] at hp
  exact (pairs_nil.mp hp).elim

/-- A restart loses the cache, and the start after it loads the same pairs again. -/
theorem restart_start_mirrors (h : s.node.Mirrors true) (hrel : s.node.store.Reliable)
    (x' : Exchange) (m sl : Identity) :
    let t := (s.step x .restart).step x' .start
    t.node.Mirrors true ∧
      (Pairs t.node.store.db.links m sl ↔ Pairs s.node.store.db.links m sl) := by
  intro t
  have hrestart := mirrors_step (x := x) (e := .restart) h hrel
  refine ⟨mirrors_step (x := x') (e := .start) hrestart (reliable_step hrel x .restart), ?_⟩
  refine (contains_pairs_step (s := s.step x .restart) (x := x') (e := .start) nofun m sl).2.trans ?_
  rw [written_of_load (.inr rfl)]
  exact decide_eq_true_iff

/-- For every run of a node over a store that does not fail and holds no links at first, whatever
the directory answers, and whenever the node is loaded at its end:

* the cache and the stored rows pair the same devices;
* after a restart and a start they still do, and the pairs are the same as before;
* a device that is the slave of one master at most in the rows is resolved, unless it has to be
  refreshed, to the destinations that are read off the rows and that the command line lists. -/
theorem cache_agrees_with_rows (settings : Settings) (db : Database) (clock : Clock)
    (events : List (Exchange × Event)) (hdb : db.links = []) (hloaded : loadedAfter events = true) :
    let s := (idle (.assemble settings (.reliable db)) clock).run events
    (∀ m sl, Pairs s.node.links.table.links m sl ↔ Pairs s.node.store.db.links m sl) ∧
    (∀ x x',
      let t := (s.step x .restart).step x' .start
      ∀ m sl, (Pairs t.node.links.table.links m sl ↔ Pairs s.node.links.table.links m sl) ∧
        (Pairs t.node.store.db.links m sl ↔ Pairs s.node.store.db.links m sl)) ∧
    ∀ i, (∀ m m', Pairs s.node.store.db.links m i → Pairs s.node.store.db.links m' i → m = m') →
      ¬ s.node.links.Stale s.node.settings.refreshInterval s.clock.instant i →
      ∃ rows, (Store.readAllDeviceLinks.attempt s.node.store).1 = .ok rows ∧
        (∀ x, (s.node.begin (s.surroundings x) (.resolve i)).1 =
          .ends (.destinations (.ok (destinationsIn rows i)))) ∧
        CommandLine.queryOutput (some s.node.store.db) (CommandLine.destinationLines i) =
          .success (CommandLine.unlines
            ((destinationsIn rows i).map CommandLine.destinationLine)) := by
  intro s
  have hrel : s.node.store.Reliable := fun k call => by
    rw [outage_run]
    rfl
  have hs : s.node.Mirrors true :=
    hloaded ▸ mirrors_run (mirrors_assemble settings hdb) (fun _ _ => rfl) events
  refine ⟨fun m sl => hs.pairs_iff, ?_, ?_⟩
  · intro x x' t m sl
    obtain ⟨ht, hrows⟩ := restart_start_mirrors (x := x) hs hrel x' m sl
    exact ⟨ht.pairs_iff.trans (hrows.trans hs.pairs_iff.symm), hrows⟩
  · intro i huniq hfresh
    have hsame : destinationsIn s.node.links.table.links i =
        destinationsIn s.node.store.db.links.sorted i := by
      refine destinationsIn_eq_of_pairs (fun m sl => ?_) fun m m' hm hm' => ?_
      · rw [hs.pairs_iff, LinkRows.pairs_sorted]
      · exact huniq m m' (LinkRows.pairs_sorted.mp hm) (LinkRows.pairs_sorted.mp hm')
    refine ⟨_, readAllDeviceLinks_of_reliable hrel, fun x => ?_, rfl⟩
    rw [begin_resolve_fresh hfresh, hsame]

/-- The directory's answer lists a link twice, a link of the master with itself, and one that has
nothing to do with the question; the next question has no readable answer. -/
theorem cache_agrees_after_answers :
    let settings := { Config.default with localIdentity := "me" }.settings
    let answer : List DeviceLink :=
      [.between "bob" "bob-phone", .between "bob" "bob", .between "bob" "bob-phone",
        .between "carol" "carol-phone"]
    let events : List (Exchange × Event) :=
      [(.quiet, .begin 0 (.resolve "bob")), (.quiet, .answer 0 (.links (.ok answer))),
        (.quiet, .begin 1 (.resolve "bob-phone")),
        (.quiet, .answer 1 (.links (.error (.parsingFailed "bad"))))]
    let s := (idle (.assemble settings (.reliable .empty)) ⟨0, 0⟩).run events
    loadedAfter events = true ∧ Pairs s.node.links.table.links "carol" "carol-phone" ∧
      Pairs ((s.step .quiet .restart).step .quiet .start).node.links.table.links
        "carol" "carol-phone" ∧
      ∃ rows, (Store.readAllDeviceLinks.attempt s.node.store).1 = .ok rows ∧
        (s.node.begin (s.surroundings .quiet) (.resolve "bob-phone")).1 =
          .ends (.destinations (.ok (destinationsIn rows "bob-phone"))) := by
  intro settings answer events s
  have hagree := cache_agrees_with_rows settings .empty ⟨0, 0⟩ events rfl rfl
  -- named, so that no step below evaluates the run
  have hs : (idle (.assemble settings (.reliable .empty)) ⟨0, 0⟩).run events = s := rfl
  simp only [hs] at hagree
  obtain ⟨hpairs, hrestart, hresolve⟩ := hagree
  have hrows : s.node.store.db.links = [.between "bob" "bob-phone", .between "bob" "bob",
      .between "carol" "carol-phone"] := by decide +kernel
  have hstored : Pairs s.node.store.db.links "carol" "carol-phone" := by
    rw [hrows]
    decide
  have hcarol : Pairs s.node.links.table.links "carol" "carol-phone" := (hpairs _ _).mpr hstored
  have hmaster (m : Identity) (hm : Pairs s.node.store.db.links m "bob-phone") : "bob" = m := by
    rw [hrows] at hm
    simp only [pairs_cons, DeviceLink.matches_between, pairs_nil] at hm
    rcases hm with ⟨rfl, -⟩ | ⟨rfl, -⟩ | ⟨-, h⟩ | h
    · rfl
    · rfl
    · exact absurd h (by decide)
    · exact h.elim
  have hone (m m' : Identity) (hm : Pairs s.node.store.db.links m "bob-phone")
      (hm' : Pairs s.node.store.db.links m' "bob-phone") : m = m' :=
    (hmaster m hm).symm.trans (hmaster m' hm')
  obtain ⟨rows, hread, hends, -⟩ := hresolve "bob-phone" hone (by decide +kernel)
  exact ⟨rfl, hcarol, (hrestart .quiet .quiet _ _).1.mpr hcarol, rows, hread, hends .quiet⟩

end System

end Courier
