import Courier.Config.Basic
import Courier.Proofs.Link.Rows
import Courier.Proofs.Link.Table
import Courier.Proofs.Node.Events
import Courier.Proofs.Trust.InFlight

/-!
# Who has the last word on a link

A link is in the cache or not as the last word on it says: that of an accepted authorisation, of an
unlink, of an answer of the directory, or of the stored links when they are loaded. An answer has a
word on the links it lists, and on all links of the master that was asked about, however old it is.
The store goes by the same words, except where a call of it fails.

* `LinkWork.word`, `LinkWork.written`: what a change of links says about a pairing in the cache
  (`contains_apply`) and in the store (`pairs_apply`).
* `System.caches_run`, `System.stores_run`: the last word of a run holds.
* `System.local_change_kept_iff`: so a local change is kept exactly as long as nothing else is said,
  and through an answer that a resolve has waited for since before the change exactly if the answer
  says the same. `System.local_change_undone_by_late_answer` loses a link, and brings one back.
-/

namespace Courier

namespace LinkWork

variable {work : LinkWork} {m sl : Identity} {instant : Nat} {c : LinkCache} {s : Store} {b : Bool}

/-! ## Changes of links -/

/-- The word of a change on a pairing: that it is there, that it is not, or nothing. -/
def word (work : LinkWork) (m sl : Identity) : Option Bool :=
  match work with
  | .refresh _ master (.ok fetched) =>
    if Pairs fetched m sl then some true else if m = master then some false else none
  | .refresh _ _ (.error _) => none
  | .record l => if l.Matches m sl then some true else none
  | .evict l => if l.Matches m sl then some false else none

/-- Some link of a list pairs the two, and the call that writes it does not fail. The first link is
written with call `k`. -/
def Upserted (outage : Outage) (m sl : Identity) : Nat → List DeviceLink → Prop
  | _, [] => False
  | k, l :: ls =>
    (l.Matches m sl ∧ outage k .upsertDeviceLink = none) ∨ Upserted outage m sl (k + 1) ls

instance decidableUpserted (outage : Outage) (m sl : Identity) :
    ∀ (k : Nat) (ls : List DeviceLink), Decidable (Upserted outage m sl k ls)
  | _, [] => instDecidableFalse
  | k, _ :: ls =>
    have := decidableUpserted outage m sl (k + 1) ls
    inferInstanceAs (Decidable (_ ∨ _))

/-- The word that a change has in the store: none if the call that is about the pairing fails. -/
def written (work : LinkWork) (s : Store) (m sl : Identity) : Option Bool :=
  match work with
  | .refresh _ master (.ok fetched) =>
    if m = master then
      if s.outage s.calls .replaceDeviceLinks = none then some (decide (Pairs fetched m sl))
      else none
    else if Upserted s.outage m sl (s.calls + 1) (fetched.filter (·.master.identity ≠ master)) then
      some true
    else none
  | .refresh _ _ (.error _) => none
  | .record l =>
    if l.Matches m sl ∧ s.outage s.calls .upsertDeviceLink = none then some true else none
  | .evict l =>
    if l.Matches m sl ∧ s.outage s.calls .deleteDeviceLink = none then some false else none

theorem not_upserted {outage : Outage} {k : Nat} {ls : List DeviceLink}
    (h : ∀ l ∈ ls, ¬ l.Matches m sl) : ¬ Upserted outage m sl k ls := by
  induction ls generalizing k with
  | nil => exact id
  | cons l ls ih =>
    rintro (⟨hl, -⟩ | hrest)
    · exact h l (.head _) hl
    · exact ih (fun x hx => h x (.tail _ hx)) hrest

theorem contains_apply (h : c.table.Contains m sl ↔ b = true) :
    (work.apply instant c s).1.table.Contains m sl ↔ (work.word m sl).getD b = true := by
  cases work with
  | refresh identity master answer =>
    rcases answer with (e | e) | fetched
    · exact h
    · exact h
    · show (c.table.applyFetch master fetched).Contains m sl ↔ _
      rw [LinkTable.contains_applyFetch, propext h]
      rcases eq_or_ne m master with rfl | hm <;> by_cases hp : Pairs fetched m sl <;>
        simp [word, *]
  | record l =>
    refine LinkTable.contains_put.trans ?_
    rw [propext h]
    by_cases hl : l.Matches m sl <;> simp [word, hl]
  | evict l =>
    refine LinkTable.contains_remove.trans ?_
    rw [propext h]
    by_cases hl : l.Matches m sl <;> simp [word, hl]

theorem pairs_foldl_upsertDeviceLink (ls : List DeviceLink) (s : Store) :
    Pairs (ls.foldl (fun s l => (Store.upsertDeviceLink l).effect s) s).db.links m sl ↔
      Pairs s.db.links m sl ∨ Upserted s.outage m sl s.calls ls := by
  induction ls generalizing s with
  | nil => simp [Upserted]
  | cons l ls ih =>
    rw [List.foldl_cons, ih, Store.upsertDeviceLink, StoreM.effect_change, Upserted, ← or_assoc]
    refine or_congr_left ?_
    by_cases hfails : s.outage s.calls .upsertDeviceLink = none
    · simpa [hfails] using LinkRows.pairs_upsert
    · simp [hfails]

theorem pairs_persist {master : Identity} {fetched : List DeviceLink} :
    Pairs (LinkCache.persist master fetched s).db.links m sl ↔
      if m = master then
        if s.outage s.calls .replaceDeviceLinks = none then Pairs fetched m sl
        else Pairs s.db.links m sl
      else Pairs s.db.links m sl ∨
        Upserted s.outage m sl (s.calls + 1) (fetched.filter (·.master.identity ≠ master)) := by
  unfold LinkCache.persist
  dsimp only
  rw [pairs_foldl_upsertDeviceLink, Store.replaceDeviceLinks, StoreM.effect_change]
  dsimp only
  by_cases hm : m = master
  · have hothers : ¬ Upserted s.outage m sl (s.calls + 1)
        (fetched.filter (·.master.identity ≠ master)) := by
      refine not_upserted fun l hl hp => ?_
      simp [(DeviceLink.matches_iff.mp hp).1, hm] at hl
    rw [or_iff_left hothers, if_pos hm]
    split
    · rw [LinkRows.pairs_replace, if_pos hm, pairs_filter]
      exact fun l _ hp => by simp [(DeviceLink.matches_iff.mp hp).1, hm]
    · exact Iff.rfl
  · rw [if_neg hm]
    refine or_congr_left ?_
    split
    · rw [LinkRows.pairs_replace, if_neg hm]
    · exact Iff.rfl

theorem pairs_apply (h : Pairs s.db.links m sl ↔ b = true) :
    Pairs (work.apply instant c s).2.db.links m sl ↔ (work.written s m sl).getD b = true := by
  cases work with
  | refresh identity master answer =>
    rcases answer with (e | e) | fetched
    · exact h
    · exact h
    · refine pairs_persist.trans ?_
      rw [propext h]
      unfold written
      dsimp only
      split_ifs <;> simp_all
  | record l =>
    show Pairs ((Store.upsertDeviceLink l).effect s).db.links m sl ↔ _
    rw [Store.upsertDeviceLink, StoreM.effect_change]
    unfold written
    by_cases hfails : s.outage s.calls .upsertDeviceLink = none
    · by_cases hl : l.Matches m sl <;> simp [hfails, hl, LinkRows.pairs_upsert, h]
    · simp [hfails, h]
  | evict l =>
    show Pairs ((Store.deleteDeviceLink _ _).effect s).db.links m sl ↔ _
    rw [Store.deleteDeviceLink, StoreM.effect_change]
    unfold written
    by_cases hfails : s.outage s.calls .deleteDeviceLink = none
    · by_cases hl : l.Matches m sl <;> simp [hfails, hl, LinkRows.pairs_delete, h]
    · simp [hfails, h]

/-- An answer about the master itself has a word on each of its links. -/
theorem word_of_asked {r : Resolving} {fetched : List DeviceLink} :
    (r.linkWork (.ok fetched)).word r.asks sl = some (decide (Pairs fetched r.asks sl)) := by
  cases r with
  | known identity master =>
    by_cases hp : Pairs fetched master sl <;> simp [Resolving.linkWork, Resolving.asks, word, hp]
  | revealed identity master =>
    by_cases hp : Pairs fetched master sl <;> simp [Resolving.linkWork, Resolving.asks, word, hp]

theorem word_of_error {r : Resolving} {e : DirectoryError} :
    (r.linkWork (.error e)).word m sl = none := by
  cases r <;> rfl

theorem written_of_asked {r : Resolving} {fetched : List DeviceLink} :
    (r.linkWork (.ok fetched)).written s r.asks sl =
      if s.outage s.calls .replaceDeviceLinks = none then some (decide (Pairs fetched r.asks sl))
      else none := by
  cases r <;> exact if_pos rfl

theorem written_of_error {r : Resolving} {e : DirectoryError} :
    (r.linkWork (.error e)).written s m sl = none := by
  cases r <;> rfl

end LinkWork

/-! ## The node -/

theorem iff_eq_of_iff {p : Prop} {b b' : Bool} (h : p ↔ b' = true) : (p ↔ b = true) ↔ b' = b := by
  rw [propext h]
  exact Bool.eq_iff_iff.symm

namespace Node

variable {n n' : Node} {m sl : Identity} {b : Bool}

/-- The cache holds the pairing if `b`, and does not if not. -/
def Caches (n : Node) (m sl : Identity) (b : Bool) : Prop :=
  n.links.table.Contains m sl ↔ b = true

/-- The store holds the pairing if `b`, and does not if not. -/
def Stores (n : Node) (m sl : Identity) (b : Bool) : Prop :=
  Pairs n.store.db.links m sl ↔ b = true

instance (n : Node) (m sl : Identity) (b : Bool) : Decidable (n.Caches m sl b) :=
  inferInstanceAs (Decidable (_ ↔ _))

instance (n : Node) (m sl : Identity) (b : Bool) : Decidable (n.Stores m sl b) :=
  inferInstanceAs (Decidable (_ ↔ _))

theorem Caches.relink {work : Option LinkWork} {instant : Nat} (h : n.Caches m sl b) :
    ((work.map (n.relink instant)).getD n).Caches m sl ((work.bind (·.word m sl)).getD b) := by
  cases work with
  | none => exact h
  | some work => exact LinkWork.contains_apply h

theorem Stores.relink {work : Option LinkWork} {instant : Nat} (h : n.Stores m sl b) :
    ((work.map (n.relink instant)).getD n).Stores m sl
      ((work.bind (·.written n.store m sl)).getD b) := by
  cases work with
  | none => exact h
  | some work => exact LinkWork.pairs_apply h

/-- The word of a load: the stored links are there. -/
def loadWord (n : Node) (m sl : Identity) : Option Bool :=
  match n.loadLinks.1 with
  | .ok _ => if Pairs n.store.db.links m sl then some true else none
  | .error _ => none

theorem loadLinks_table :
    n.loadLinks.2.links.table =
      match n.loadLinks.1 with
      | .ok _ => n.links.table.addAll n.store.db.links.sorted
      | .error _ => n.links.table := by
  unfold loadLinks attempt LinkCache.load Store.readAllDeviceLinks Store.query
  rw [StoreM.attempt_bind, StoreM.attempt_call]
  cases n.store.outage n.store.calls .readAllDeviceLinks <;> rfl

theorem Caches.loadLinks (h : n.Caches m sl b) :
    n.loadLinks.2.Caches m sl ((n.loadWord m sl).getD b) := by
  unfold Caches loadWord
  rw [loadLinks_table]
  cases n.loadLinks.1 with
  | error e => exact h
  | ok k =>
    dsimp only
    rw [LinkTable.contains_addAll, LinkRows.pairs_sorted, propext h]
    by_cases hp : Pairs n.store.db.links m sl <;> simp [hp]

theorem Stores.of_fixes (hs : n.store.Fixes (·.links) n'.store) (h : n.Stores m sl b) :
    n'.Stores m sl b := by
  unfold Stores
  rw [show n'.store.db.links = n.store.db.links from hs.db]
  exact h

theorem Keeps.caches (hk : n.Keeps n') (h : n.Caches m sl b) : n'.Caches m sl b := by
  unfold Caches
  rw [hk.links]
  exact h

theorem Keeps.stores (hk : n.Keeps n') (h : n.Stores m sl b) : n'.Stores m sl b :=
  h.of_fixes ⟨hk.store.outage, hk.rows⟩

end Node

/-- The resolve that a call waits for, its own or that of a route. -/
def Call.resolving? : Call → Option Resolving
  | .resolve r => some r
  | .route (.resolving _ r) => some r
  | _ => none

theorem Call.linkWork_of_resolving {c : Call} {r : Resolving} (h : c.resolving? = some r)
    (a : DirectoryAnswer) : c.linkWork (.links a) = some (r.linkWork a) := by
  unfold resolving? at h
  split at h <;> cases h <;> rfl

/-! ## Runs -/

namespace System

variable {s : System} {x : Exchange} {e : Event} {m sl : Identity} {b : Bool} {j : Nat}
  {events : List (Exchange × Event)}

/-- The word of an event on a pairing. -/
def word (m sl : Identity) (s : System) : Event → Option Bool
  | .load | .start => s.node.loadWord m sl
  | e => (s.linkWork e).bind (·.word m sl)

/-- The word of an event in the store. -/
def written (m sl : Identity) (s : System) (e : Event) : Option Bool :=
  (s.linkWork e).bind (·.written s.node.store m sl)

/-- The last word of a run. -/
def lastWord (word : System → Event → Option Bool) : System → List (Exchange × Event) → Option Bool
  | _, [] => none
  | s, (x, e) :: events => (lastWord word (s.step x e) events).or (word s e)

theorem caches_step (h : s.node.Caches m sl b) (hr : e ≠ .restart) :
    (s.step x e).node.Caches m sl ((s.word m sl e).getD b) := by
  refine (step_keeps hr).caches ?_
  cases e
  case batch generation a =>
    show (s.node.received s.clock generation a).links.table.Contains m sl ↔ _
    rw [Node.received_links]
    exact h
  case load => exact h.loadLinks
  case start => exact h.loadLinks
  all_goals exact h.relink

theorem stores_step (h : s.node.Stores m sl b) (hr : e ≠ .restart) :
    (s.step x e).node.Stores m sl ((s.written m sl e).getD b) := by
  refine (step_keeps hr).stores ?_
  cases e
  case batch generation a => exact h.of_fixes (s.node.received_fixes s.clock generation a)
  case load => exact h.of_fixes (s.node.loadLinks_fixes (·.links))
  case start => exact h.of_fixes (s.node.loadLinks_fixes (·.links))
  all_goals exact h.relink

/-- What one event's word says of the state, the last word of a run says of it. -/
theorem lastWord_run {word : System → Event → Option Bool} {P : Node → Bool → Prop}
    (hstep : ∀ {s x e b}, P s.node b → e ≠ .restart → P (s.step x e).node ((word s e).getD b))
    (h : P s.node b) (hr : ∀ p ∈ events, p.2 ≠ .restart) :
    P (s.run events).node ((lastWord word s events).getD b) := by
  induction events generalizing s b with
  | nil => exact h
  | cons p events ih =>
    have := ih (hstep (x := p.1) h (hr p (.head _))) fun q hq => hr q (.tail _ hq)
    rwa [← Option.getD_or] at this

theorem caches_run (h : s.node.Caches m sl b) (hr : ∀ p ∈ events, p.2 ≠ .restart) :
    (s.run events).node.Caches m sl ((lastWord (word m sl) s events).getD b) :=
  lastWord_run (P := fun n b => n.Caches m sl b) caches_step h hr

theorem stores_run (h : s.node.Stores m sl b) (hr : ∀ p ∈ events, p.2 ≠ .restart) :
    (s.run events).node.Stores m sl ((lastWord (written m sl) s events).getD b) :=
  lastWord_run (P := fun n b => n.Stores m sl b) stores_step h hr

/-! ## Local changes -/

/-- An accepted authorisation records the pairing (`b` is true), or an unlink drops it. -/
inductive LocalChange (s : System) (m sl : Identity) : Bool → Event → Prop where
  | recorded {id : Nat} {session : String} {ms ss : Octets} {profile : Option ProfileUpdate}
      (h : s.calls.lookup id = some (.control ⟨session, .authorization m sl ms ss, profile⟩)) :
      LocalChange s m sl true (.answer id (.verdict (.ok ())))
  | evicted {id : Nat} {link : DeviceLink} {rest : List DeviceLink} {k : Nat}
      {result : Except DirectoryError Unit}
      (h : s.calls.lookup id = some (.unlink (.removing link rest k)))
      (hl : link.Matches m sl) : LocalChange s m sl false (.answer id (.removal result))

/-- Call `j` has asked the directory about `m` to resolve a device, and waits for the answer. -/
def Resolves (s : System) (j : Nat) (m : Identity) : Prop :=
  ∃ c r, s.calls.lookup j = some c ∧ c.resolving? = some r ∧ r.asks = m

theorem LocalChange.word (h : s.LocalChange m sl b e) : s.word m sl e = some b := by
  cases h with
  | @recorded id session ms ss profile h =>
    show ((s.calls.lookup id).bind (·.linkWork _)).bind _ = _
    rw [h]
    exact if_pos rfl
  | @evicted id link rest k result h hl =>
    show ((s.calls.lookup id).bind (·.linkWork _)).bind _ = _
    rw [h]
    exact if_pos hl

theorem LocalChange.ne_restart (h : s.LocalChange m sl b e) : e ≠ .restart := by
  cases h <;> nofun

theorem LocalChange.ne_answer (h : s.LocalChange m sl b e) (hj : s.Resolves j m) (a : Answer) :
    e ≠ .answer j a := by
  obtain ⟨c, r, hc, hr, -⟩ := hj
  rintro rfl
  cases h with
  | recorded h =>
    rw [hc] at h
    cases h
    cases hr
  | evicted h hl =>
    rw [hc] at h
    cases h
    cases hr

/-- The cache holds what a local change says, whatever it held before. -/
theorem LocalChange.caches (h : s.LocalChange m sl b e) : (s.step x e).node.Caches m sl b := by
  have := caches_step (x := x) (b := decide (s.node.links.table.Contains m sl))
    decide_eq_true_iff.symm h.ne_restart
  rwa [h.word] at this

/-- And so does the store, if the change is written. -/
theorem LocalChange.stores (h : s.LocalChange m sl b e) (hw : s.written m sl e = some b) :
    (s.step x e).node.Stores m sl b := by
  have := stores_step (x := x) (b := decide (Pairs s.node.store.db.links m sl))
    decide_eq_true_iff.symm h.ne_restart
  rwa [hw] at this

theorem resolves_step (h : s.Resolves j m) (ha : ∀ a, e ≠ .answer j a) (hr : e ≠ .restart) :
    (s.step x e).Resolves j m := by
  obtain ⟨c, r, hc, hcr, hm⟩ := h
  exact ⟨c, r, lookup_waiting hc ha hr, hcr, hm⟩

theorem resolves_run (h : s.Resolves j m)
    (he : ∀ p ∈ events, p.2 ≠ .restart ∧ ∀ a, p.2 ≠ .answer j a) :
    (s.run events).Resolves j m := by
  induction events generalizing s with
  | nil => exact h
  | cons p events ih =>
    obtain ⟨hr, ha⟩ := he p (.head _)
    exact ih (resolves_step h ha hr) fun q hq => he q (.tail _ hq)

theorem Resolves.linkWork (h : s.Resolves j m) (a : DirectoryAnswer) :
    ∃ r : Resolving, r.asks = m ∧ s.linkWork (.answer j (.links a)) = some (r.linkWork a) := by
  obtain ⟨c, r, hc, hr, hm⟩ := h
  refine ⟨r, hm, ?_⟩
  show (s.calls.lookup j).bind (·.linkWork _) = _
  rw [hc]
  exact c.linkWork_of_resolving hr a

/-- The answer to a resolve leaves the cache as it is if it is an error, or lists the pairing
exactly if `b`. -/
theorem Resolves.word_keeps_iff (h : s.Resolves j m) (a : DirectoryAnswer) :
    (s.word m sl (.answer j (.links a))).getD b = b ↔
      ∀ links, a = .ok links → (Pairs links m sl ↔ b = true) := by
  obtain ⟨r, rfl, hwork⟩ := h.linkWork a
  show ((s.linkWork _).bind _).getD b = b ↔ _
  rw [hwork]
  cases a with
  | error e => simp [LinkWork.word_of_error]
  | ok links =>
    rw [Option.bind_some, LinkWork.word_of_asked, Option.getD_some, Bool.eq_iff_iff,
      decide_eq_true_iff]
    simp

/-- It leaves the store as it is if the call that replaces the links of the master fails, too. -/
theorem Resolves.written_keeps_iff (h : s.Resolves j m) (a : DirectoryAnswer) :
    (s.written m sl (.answer j (.links a))).getD b = b ↔
      ∀ links, a = .ok links → s.node.store.outage s.node.store.calls .replaceDeviceLinks = none →
        (Pairs links m sl ↔ b = true) := by
  obtain ⟨r, rfl, hwork⟩ := h.linkWork a
  unfold written
  rw [hwork]
  cases a with
  | error e => simp [LinkWork.written_of_error]
  | ok links =>
    rw [Option.bind_some, LinkWork.written_of_asked]
    split
    · rw [Option.getD_some, Bool.eq_iff_iff, decide_eq_true_iff]
      simp [*]
    · simp [*]

/-! ## The guarantee -/

/-- After a local change of a link, for every state and every run that follows without a restart:
the cache still holds the link as the change left it exactly if the last word of the run does not
contradict it, and so does the store, if the change was written, with the last word written to it.
So an answer to a resolve that has waited since before the change keeps the change exactly if it is
an error, or lists the link as the change left it; in the store also if it cannot be written. -/
theorem local_change_kept_iff (s : System) (x : Exchange) {e : Event} {m sl : Identity} {b : Bool}
    (h : s.LocalChange m sl b e) :
    let t := s.step x e
    (∀ later, (∀ p ∈ later, p.2 ≠ .restart) →
      ((t.run later).node.Caches m sl b ↔ (lastWord (word m sl) t later).getD b = b) ∧
      (s.written m sl e = some b →
        ((t.run later).node.Stores m sl b ↔ (lastWord (written m sl) t later).getD b = b))) ∧
    ∀ j between x' a, s.Resolves j m →
      (∀ p ∈ between, p.2 ≠ .restart ∧ ∀ a, p.2 ≠ .answer j a) →
      let v := t.run between
      let u := v.step x' (.answer j (.links a))
      (lastWord (word m sl) t between = none →
        (u.node.Caches m sl b ↔ ∀ links, a = .ok links → (Pairs links m sl ↔ b = true))) ∧
      (s.written m sl e = some b → lastWord (written m sl) t between = none →
        (u.node.Stores m sl b ↔ ∀ links, a = .ok links →
          s.node.store.outage v.node.store.calls .replaceDeviceLinks = none →
          (Pairs links m sl ↔ b = true))) := by
  intro t
  have hcaches : t.node.Caches m sl b := h.caches
  constructor
  · intro later hr
    exact ⟨iff_eq_of_iff (caches_run hcaches hr),
      fun hw => iff_eq_of_iff (stores_run (h.stores hw) hr)⟩
  intro j between x' a hj hbetween v u
  have hr (p) (hp : p ∈ between) : p.2 ≠ .restart := (hbetween p hp).1
  have hanswer : Event.answer j (.links a) ≠ .restart := nofun
  have hasks : v.Resolves j m :=
    resolves_run (resolves_step hj (h.ne_answer hj) h.ne_restart) hbetween
  constructor
  · intro hsilent
    have hcaches' : v.node.Caches m sl b := by
      simpa [hsilent] using caches_run (s := t) hcaches hr
    exact (iff_eq_of_iff (caches_step hcaches' hanswer)).trans (hasks.word_keeps_iff a)
  · intro hw hsilent
    have hstores' : v.node.Stores m sl b := by
      simpa [hsilent] using stores_run (s := t) (h.stores hw) hr
    have houtage : v.node.store.outage = s.node.store.outage :=
      (outage_run t between).trans (s.outage_step x e)
    rw [← houtage]
    exact (iff_eq_of_iff (stores_step hstores' hanswer)).trans (hasks.written_keeps_iff a)

/-- A resolve of "bob" waits for the directory, and so does an authorisation of "bob" for the
verdict of the linking session. -/
def resolvingWhileLinking : List (Exchange × Event) :=
  [(.quiet, .begin 0 (.resolve "bob")),
    (.quiet, .beginSession "linking"),
    (.quiet, .begin 1 (.control ⟨"bob", some "bob", some "me", some [], some [], none⟩))]

/-- The answer to the resolve lists the link that has been authorised in the meantime. -/
theorem local_change_kept_by_agreeing_answer :
    let settings := { Config.default with localIdentity := "me" }.settings
    let s := (idle (.assemble settings (.reliable .empty)) ⟨0, 0⟩).run resolvingWhileLinking
    let u := (s.step .quiet (.answer 1 (.verdict (.ok ())))).step .quiet
      (.answer 0 (.links (.ok [.between "bob" "me"])))
    s.LocalChange "bob" "me" true (.answer 1 (.verdict (.ok ()))) ∧ s.Resolves 0 "bob" ∧
      u.node.Caches "bob" "me" true ∧ u.node.Stores "bob" "me" true := by
  intro settings s u
  have hchange : s.LocalChange "bob" "me" true (.answer 1 (.verdict (.ok ()))) := .recorded rfl
  have hasks : s.Resolves 0 "bob" := ⟨_, _, rfl, rfl, rfl⟩
  obtain ⟨-, hkept⟩ := local_change_kept_iff s .quiet hchange
  obtain ⟨hcaches, hstores⟩ := hkept 0 [] .quiet (.ok [.between "bob" "me"]) hasks nofun
  have hlisted : Pairs [DeviceLink.between "bob" "me"] "bob" "me" ↔ true = true := by
    decide +kernel
  refine ⟨hchange, hasks, (hcaches rfl).mpr ?_, (hstores (by decide +kernel) rfl).mpr ?_⟩
  · rintro _ ⟨⟩
    exact hlisted
  · rintro _ ⟨⟩ -
    exact hlisted

/-- The answer to a resolve of the master undoes what has happened since it was given: it lists
nothing, and a link that was authorised in the meantime is lost; it lists the link, and a link that
an unlink has dropped in the meantime is back. -/
theorem local_change_undone_by_late_answer :
    let settings := { Config.default with localIdentity := "me" }.settings
    let start := idle (.assemble settings (.reliable .empty)) ⟨0, 0⟩
    let authorized := (start.run resolvingWhileLinking).step .quiet (.answer 1 (.verdict (.ok ())))
    let lost := authorized.step .quiet (.answer 0 (.links (.ok [])))
    let unlinked := authorized.run [(.quiet, .begin 2 (.unlink "bob")),
      (.quiet, .answer 2 (.links (.ok [.between "bob" "me"]))),
      (.quiet, .answer 2 (.removal (.ok ())))]
    let back := unlinked.step .quiet (.answer 0 (.links (.ok [.between "bob" "me"])))
    (authorized.node.Caches "bob" "me" true ∧ authorized.node.Stores "bob" "me" true ∧
      lost.calls.isEmpty = true ∧
      lost.node.Caches "bob" "me" false ∧ lost.node.Stores "bob" "me" false) ∧
    unlinked.node.store.db.unlinked = true ∧
      unlinked.node.Caches "bob" "me" false ∧ unlinked.node.Stores "bob" "me" false ∧
      back.calls.isEmpty = true ∧
      back.node.Caches "bob" "me" true ∧ back.node.Stores "bob" "me" true := by
  decide +kernel

end System

end Courier
