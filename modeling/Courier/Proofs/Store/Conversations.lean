import Courier.Proofs.Store.Uses

/-!
# Conversations keep their identity

Whatever a use of the store does to the conversations is one `ThreadWork`: it may ask for a
conversation (`ThreadWork.opening`), and then it changes some rows (`ThreadWork.touch`), none of
which it takes from its conversation (`StoredThread.GoesOn`).

* `Store.threads_use`: the work of a use, if any.
* `ThreadTable.Opened`: the conversations are those that were asked for, each once, under the number
  of the attempt that opened it. `opened_serve`: so it is after every run.
* `standingOf_serve`: the standing of a contact changes only where it is written.
* `threads_keep_identity`: all of it, for every run and whatever comes after it.
-/

namespace Courier

/-! ## A row through time -/

/-- The row `r'` is of the same conversation as `r`, whose last activity has not gone back. -/
structure StoredThread.GoesOn (r r' : StoredThread) : Prop where
  id : r'.id = r.id
  kind : r'.kind = r.kind
  peer : r'.peer = r.peer
  hidden : r'.hidden = r.hidden
  active : ∀ v, r.lastMessageAt = some v → ∃ w, r'.lastMessageAt = some w ∧ v ≤ w

namespace StoredThread

variable {r r' r'' : StoredThread}

theorem GoesOn.refl (r : StoredThread) : r.GoesOn r :=
  ⟨rfl, rfl, rfl, rfl, fun v hv => ⟨v, hv, Int64.le_refl v⟩⟩

theorem GoesOn.trans (h : r.GoesOn r') (h' : r'.GoesOn r'') : r.GoesOn r'' := by
  refine ⟨h'.id.trans h.id, h'.kind.trans h.kind, h'.peer.trans h.peer, h'.hidden.trans h.hidden,
    fun v hv => ?_⟩
  obtain ⟨w, hw, hvw⟩ := h.active v hv
  obtain ⟨x, hx, hwx⟩ := h'.active w hw
  exact ⟨x, hx, Int64.le_trans hvw hwx⟩

theorem goesOn_noteActivity (now timestamp : Int64) (r : StoredThread) :
    r.GoesOn (r.noteActivity now timestamp) :=
  ⟨rfl, rfl, rfl, rfl, fun _ hv => ⟨_, rfl, le_activityAfter hv rfl⟩⟩

theorem goesOn_writeState (state : StoredState) (expiresAt : Option Int64) (r : StoredThread) :
    r.GoesOn { r with state, expiresAt } :=
  ⟨rfl, rfl, rfl, rfl, fun v hv => ⟨v, hv, Int64.le_refl v⟩⟩

theorem GoesOn.ite (h : r.GoesOn r') (p : Prop) [Decidable p] :
    r.GoesOn (if p then r' else r) := by
  split
  · exact h
  · exact .refl r

end StoredThread

/-! ## What a use does to the conversations -/

/-- A conversation that is asked for. -/
structure Opening where
  kind : ThreadKind
  peer : String
  hidden : Bool
  deriving DecidableEq, Repr

/-- The conversation of a row, as it was asked for. -/
def StoredThread.opening (r : StoredThread) : Opening :=
  ⟨r.kind, r.peer, r.hidden⟩

/-- What a use does to the conversations. -/
inductive ThreadWork where
  | opens (o : Opening)
  | hears (group : GroupId) (now timestamp : Int64)
  | notes (id : Int) (now timestamp : Int64)
  | writes (identity : Identity) (state : HandshakeState) (expiresAt : Option Int64)

namespace ThreadWork

/-- The conversation that is asked for, if any. -/
def opening : ThreadWork → Option Opening
  | .opens o => some o
  | .hears g _ _ => some ⟨.group, g, false⟩
  | .notes .. | .writes .. => none

/-- What becomes of a row, once the conversation that was asked for is there. -/
def touch : ThreadWork → StoredThread → StoredThread
  | .opens _, r => r
  | .hears g now timestamp, r => if r.Is .group g then r.noteActivity now timestamp else r
  | .notes id now timestamp, r => if r.id = id then r.noteActivity now timestamp else r
  | .writes i state expiresAt, r =>
    if r.Is .contact i then { r with state := .known state, expiresAt } else r

theorem goesOn_touch (w : ThreadWork) (r : StoredThread) : r.GoesOn (w.touch r) :=
  match w with
  | .opens _ => .refl r
  | .hears _ now timestamp => (r.goesOn_noteActivity now timestamp).ite _
  | .notes _ now timestamp => (r.goesOn_noteActivity now timestamp).ite _
  | .writes _ state e => (r.goesOn_writeState (.known state) e).ite _

theorem keepsKeys_touch (w : ThreadWork) : ThreadTable.KeepsKeys w.touch :=
  fun r => ⟨(w.goesOn_touch r).kind, (w.goesOn_touch r).peer⟩

end ThreadWork

namespace ThreadTable

variable {t : ThreadTable}

/-- The conversation that is asked for is there. -/
def open? (t : ThreadTable) : Option Opening → ThreadTable
  | none => t
  | some o => t.ensure o.kind o.peer o.hidden

/-- The conversations after some work on them. -/
def after (t : ThreadTable) (w : ThreadWork) : ThreadTable :=
  { t.open? w.opening with rows := (t.open? w.opening).rows.map w.touch }

theorem goesOn_after (w : ThreadWork) {r : StoredThread} (hr : r ∈ t.rows) :
    ∃ r' ∈ (t.after w).rows, r.GoesOn r' := by
  have hopen : r ∈ (t.open? w.opening).rows := by
    cases w.opening with
    | none => exact hr
    | some o => exact mem_ensure_of_mem hr
  exact ⟨w.touch r, List.mem_map_of_mem hopen, w.goesOn_touch r⟩

end ThreadTable

/-- The work of a use that is not refused. -/
def StoreUse.threadWork (clock : Clock) (jobs : JobTable) : StoreUse → Option ThreadWork
  | .getOrCreateContactThread i hidden => some (.opens ⟨.contact, i, hidden⟩)
  | .getOrCreateGroupThread g => some (.opens ⟨.group, g, false⟩)
  | .recordThreadActivity id timestamp => some (.notes id clock.now timestamp)
  | .writeHandshakeState i state expiresAt => some (.writes i state expiresAt)
  | .enqueueInbound e =>
    if jobs.Holds e.serverHash then none
    else e.groupId.map (.hears · clock.now e.timestamp)
  | _ => none

theorem StoreUse.threads_change (clock : Clock) (db : Database) (u : StoreUse) :
    (u.change clock db).threads =
      (u.threadWork clock db.inbound).elim db.threads db.threads.after := by
  cases u with
  | getOrCreateContactThread i hidden =>
    exact congrArg (ThreadTable.mk · _) (List.map_id _).symm
  | getOrCreateGroupThread g => exact congrArg (ThreadTable.mk · _) (List.map_id _).symm
  | enqueueInbound e =>
    show (enqueue clock e db.inbound db.threads).2.2 = _
    rw [enqueue_eq, threadWork]
    by_cases hholds : db.inbound.Holds e.serverHash
    · rw [if_pos hholds, if_pos hholds]
      rfl
    · rw [if_neg hholds, if_neg hholds]
      cases e.groupId <;> rfl
  | _ => rfl

namespace Store

variable {s : Store} {clock : Clock} {u : StoreUse}

/-- The work that a use does on the conversations: none if it is refused. -/
def threadWork (s : Store) (clock : Clock) (u : StoreUse) : Option ThreadWork :=
  if s.Refuses u then none else u.threadWork clock s.db.inbound

theorem threads_use (h : s.db.threads.Legible) (clock : Clock) (u : StoreUse) :
    (s.use clock u).db.threads = (s.threadWork clock u).elim s.db.threads s.db.threads.after := by
  rw [db_use h]
  unfold threadWork
  split
  · rfl
  · exact u.threads_change clock s.db

theorem use_of_writes {i : Identity} {state : HandshakeState} {e : Option Int64}
    (h : s.threadWork clock u = some (.writes i state e)) : u = .writeHandshakeState i state e := by
  unfold threadWork at h
  split at h
  · cases h
  · cases u with
    | writeHandshakeState j state' e' =>
      cases h
      rfl
    | enqueueInbound envelope =>
      change (if _ then _ else _) = _ at h
      split at h
      · cases h
      · obtain ⟨g, -, hhears⟩ := Option.map_eq_some_iff.mp h
        cases hhears
    | _ => cases h

/-- The conversations that the uses of a run ask for, in order; one that is there already is asked
for again in vain. -/
def openings : Store → List (Clock × StoreUse) → List Opening
  | _, [] => []
  | s, (clock, u) :: uses =>
    ((s.threadWork clock u).bind (·.opening)).toList ++ (s.use clock u).openings uses

theorem openings_append : ∀ (uses : List (Clock × StoreUse)) (s : Store)
    (later : List (Clock × StoreUse)),
    s.openings (uses ++ later) = s.openings uses ++ (s.serve uses).openings later
  | [], _, _ => rfl
  | (clock, u) :: uses, s, later => by
    rw [List.cons_append, openings, openings, openings_append uses _ later, List.append_assoc]
    rfl

end Store

/-! ## The conversations that were opened -/

namespace ThreadTable

variable {t : ThreadTable} {os : List Opening} {o : Opening} {i : Identity}

/-- The conversations are those that were asked for, each under the number of the first attempt and
as hidden as that attempt said. Every attempt uses up an id. -/
structure Opened (t : ThreadTable) (os : List Opening) : Prop where
  used : t.lastId = os.length
  rising : t.rows.Pairwise (·.id < ·.id)
  first : ∀ r ∈ t.rows, ∃ k : Nat, r.id = k + 1 ∧ os[k]? = some r.opening ∧
    ∀ o ∈ os.take k, ¬ r.Is o.kind o.peer
  every : ∀ o ∈ os, ∃ r ∈ t.rows, r.Is o.kind o.peer

theorem opened_empty : empty.Opened [] :=
  ⟨rfl, .nil, nofun, nofun⟩

theorem Opened.numbered (h : t.Opened os) : t.Numbered := by
  refine ⟨List.pairwise_map.mpr (h.rising.imp fun hlt => by omega), fun r hr => ?_⟩
  obtain ⟨k, hid, hk, -⟩ := h.first r hr
  obtain ⟨hlt, -⟩ := List.getElem?_eq_some_iff.mp hk
  rw [hid, h.used]
  omega

/-- One more attempt, at a conversation that is there already or at a new one. -/
theorem Opened.ensure (h : t.Opened os) (o : Opening) :
    (t.ensure o.kind o.peer o.hidden).Opened (os ++ [o]) := by
  have hearlier : ∀ r ∈ t.rows, ∃ k : Nat, r.id = k + 1 ∧ (os ++ [o])[k]? = some r.opening ∧
      ∀ o' ∈ (os ++ [o]).take k, ¬ r.Is o'.kind o'.peer := by
    intro r hr
    obtain ⟨k, hid, hk, hfirst⟩ := h.first r hr
    obtain ⟨hlt, -⟩ := List.getElem?_eq_some_iff.mp hk
    refine ⟨k, hid, (List.getElem?_append_left hlt).trans hk, ?_⟩
    rwa [List.take_append_of_le_length hlt.le]
  unfold ThreadTable.ensure
  split
  · next r hr =>
    refine ⟨by simp [h.used], h.rising, hearlier, fun o' ho' => ?_⟩
    rcases List.mem_append.mp ho' with ho' | ho'
    · exact h.every o' ho'
    · obtain rfl := List.mem_singleton.mp ho'
      exact ⟨r, List.mem_of_find?_eq_some hr, by simpa using List.find?_some hr⟩
  · next hnone =>
    refine ⟨by simp [h.used], ?_, fun r hr => ?_, fun o' ho' => ?_⟩
    · refine List.pairwise_append.mpr ⟨h.rising, List.pairwise_singleton _ _, fun r hr q hq => ?_⟩
      have := h.numbered.bounded r hr
      obtain rfl := List.mem_singleton.mp hq
      show r.id < ((t.lastId + 1 : Nat) : Int)
      omega
    · rcases List.mem_append.mp hr with hr | hr
      · exact hearlier r hr
      · obtain rfl := List.mem_singleton.mp hr
        refine ⟨os.length, by simp [h.used], by simp [StoredThread.opening], fun o' ho' hsame => ?_⟩
        rw [List.take_left] at ho'
        -- the earlier attempt would have left a row of this kind and peer
        obtain ⟨r', hr', hkind, hpeer⟩ := h.every o' ho'
        exact List.find?_eq_none.mp hnone r' hr'
          (decide_eq_true ⟨hkind.trans hsame.1.symm, hpeer.trans hsame.2.symm⟩)
    · rcases List.mem_append.mp ho' with ho' | ho'
      · obtain ⟨r, hr, his⟩ := h.every o' ho'
        exact ⟨r, List.mem_append_left _ hr, his⟩
      · obtain rfl := List.mem_singleton.mp ho'
        exact ⟨_, List.mem_append_right _ (.head _), rfl, rfl⟩

theorem Opened.map_rows (h : t.Opened os) {f : StoredThread → StoredThread}
    (hf : ∀ r : StoredThread, r.GoesOn (f r)) :
    ({ t with rows := t.rows.map f } : ThreadTable).Opened os := by
  have hkeys : KeepsKeys f := fun r => ⟨(hf r).kind, (hf r).peer⟩
  refine ⟨h.used, ?_, ?_, fun o ho => ?_⟩
  · refine List.pairwise_map.mpr (h.rising.imp fun {a b} hlt => ?_)
    rw [(hf a).id, (hf b).id]
    exact hlt
  · refine List.forall_mem_map.mpr fun r hr => ?_
    obtain ⟨k, hid, hk, hfirst⟩ := h.first r hr
    have hopening : (f r).opening = r.opening := by
      simp only [StoredThread.opening, (hf r).kind, (hf r).peer, (hf r).hidden]
    refine ⟨k, (hf r).id.trans hid, hopening ▸ hk, fun o ho his => ?_⟩
    exact hfirst o ho ((hkeys.is_iff r).mp his)
  · obtain ⟨r, hr, his⟩ := h.every o ho
    exact ⟨f r, List.mem_map_of_mem hr, (hkeys.is_iff r).mpr his⟩

theorem Opened.after (h : t.Opened os) (w : ThreadWork) :
    (t.after w).Opened (os ++ w.opening.toList) := by
  have hopen : (t.open? w.opening).Opened (os ++ w.opening.toList) := by
    cases w.opening with
    | none => rwa [Option.toList_none, List.append_nil]
    | some o => exact h.ensure o
  exact hopen.map_rows w.goesOn_touch

/-! ## Other invariants -/

theorem Keyed.after (h : t.Keyed) (w : ThreadWork) : (t.after w).Keyed := by
  have hopen : (t.open? w.opening).Keyed := by
    cases w.opening with
    | none => exact h
    | some o => exact h.ensure
  exact hopen.map_rows w.keepsKeys_touch

/-- Every conversation with a group has the standing of a new one. -/
def GroupsUntrusted (t : ThreadTable) : Prop :=
  ∀ r ∈ t.rows, r.kind = .group → r.standing = .fresh

theorem GroupsUntrusted.after (h : t.GroupsUntrusted) (w : ThreadWork) :
    (t.after w).GroupsUntrusted := by
  have hopen : (t.open? w.opening).GroupsUntrusted := by
    cases w.opening with
    | none => exact h
    | some o =>
      intro r hr hkind
      rcases mem_ensure hr with hr | rfl
      · exact h r hr hkind
      · rfl
  refine List.forall_mem_map.mpr fun r hr hkind => ?_
  rw [(w.goesOn_touch r).kind] at hkind
  rw [← hopen r hr hkind]
  cases w with
  | opens o => rfl
  | hears g now timestamp =>
    show (if _ then _ else r).standing = _
    split <;> rfl
  | notes id now timestamp =>
    show (if _ then _ else r).standing = _
    split <;> rfl
  | writes i state expiresAt =>
    rw [ThreadWork.touch, if_neg fun his => absurd (hkind.symm.trans his.1) (by decide)]

/-- The standing of a contact; where there is no conversation, that of a new one. -/
def standingOf (t : ThreadTable) (i : Identity) : Standing :=
  (t.standing i).getD .fresh

theorem standingOf_after {w : ThreadWork} (hw : ∀ state e, w ≠ .writes i state e) :
    (t.after w).standingOf i = t.standingOf i := by
  have hensure (kind : ThreadKind) (peer : String) (hidden : Bool) :
      (t.ensure kind peer hidden).standingOf i = t.standingOf i := by
    unfold standingOf
    rw [standing_ensure]
    split <;> rfl
  cases w with
  | opens o =>
    have hrows : t.after (.opens o) = t.ensure o.kind o.peer o.hidden :=
      congrArg (ThreadTable.mk · _) (List.map_id _)
    rw [hrows, hensure]
  | hears g now timestamp =>
    rw [← hensure .group g false]
    exact congrArg (·.getD .fresh) (standing_update_group (keepsKeys_noteActivity now timestamp))
  | notes id now timestamp =>
    exact congrArg (·.getD .fresh) (standing_noteActivity id now timestamp)
  | writes j state e =>
    have hne : i ≠ j := fun h => hw state e (h ▸ rfl)
    exact congrArg (·.getD .fresh) ((standing_writeState state e).trans (if_neg hne))

end ThreadTable

/-! ## Runs -/

namespace Store

variable {s : Store} {os : List Opening} {i : Identity} {outage : Outage}

/-- What holds of the conversations of every store that is reached from a new one. -/
structure Sound (s : Store) (os : List Opening) : Prop where
  keyed : s.db.threads.Keyed
  opened : s.db.threads.Opened os
  groups : s.db.threads.GroupsUntrusted
  legible : s.db.threads.Legible

theorem sound_fresh : (fresh outage).Sound [] :=
  ⟨ThreadTable.keyed_empty, ThreadTable.opened_empty, nofun, nofun⟩

theorem Sound.use (h : s.Sound os) (clock : Clock) (u : StoreUse) :
    (s.use clock u).Sound (os ++ ((s.threadWork clock u).bind (·.opening)).toList) := by
  have hlegible := legible_use h.legible clock u
  have hthreads := threads_use h.legible clock u
  cases hw : s.threadWork clock u with
  | none =>
    rw [hw, Option.elim_none] at hthreads
    rw [Option.bind_none, Option.toList_none, List.append_nil]
    exact ⟨hthreads ▸ h.keyed, hthreads ▸ h.opened, hthreads ▸ h.groups, hlegible⟩
  | some w =>
    rw [hw, Option.elim_some] at hthreads
    exact ⟨hthreads ▸ h.keyed.after w, hthreads ▸ h.opened.after w, hthreads ▸ h.groups.after w,
      hlegible⟩

theorem Sound.serve : ∀ (uses : List (Clock × StoreUse)) {s : Store} {os : List Opening},
    s.Sound os → (s.serve uses).Sound (os ++ s.openings uses)
  | [], _, _, h => by rwa [openings, List.append_nil]
  | (clock, u) :: uses, s, os, h => by
    rw [openings, ← List.append_assoc]
    exact serve uses (h.use clock u)

theorem goesOn_use (h : s.db.threads.Legible) (clock : Clock) (u : StoreUse) :
    ∀ r ∈ s.db.threads.rows, ∃ r' ∈ (s.use clock u).db.threads.rows, r.GoesOn r' := by
  intro r hr
  rw [threads_use h]
  cases s.threadWork clock u with
  | none => exact ⟨r, hr, .refl r⟩
  | some w => exact ThreadTable.goesOn_after w hr

/-- Every conversation goes on. -/
theorem goesOn_serve (uses : List (Clock × StoreUse)) (h : s.db.threads.Legible) :
    ∀ r ∈ s.db.threads.rows, ∃ r' ∈ (s.serve uses).db.threads.rows, r.GoesOn r' := by
  refine serve_lift (R := fun s s' =>
    ∀ r ∈ s.db.threads.rows, ∃ r' ∈ s'.db.threads.rows, r.GoesOn r')
    (fun _ r hr => ⟨r, hr, .refl r⟩) (fun h h' r hr => ?_) uses h
    fun hs p _ => goesOn_use hs p.1 p.2
  obtain ⟨r', hr', hgoes⟩ := h r hr
  obtain ⟨r'', hr'', hgoes'⟩ := h' r' hr'
  exact ⟨r'', hr'', hgoes.trans hgoes'⟩

theorem standingOf_use (h : s.db.threads.Legible) (clock : Clock) {u : StoreUse}
    (hno : ∀ state e, u ≠ .writeHandshakeState i state e) :
    (s.use clock u).db.threads.standingOf i = s.db.threads.standingOf i := by
  rw [threads_use h]
  cases hw : s.threadWork clock u with
  | none => rfl
  | some w =>
    refine ThreadTable.standingOf_after fun state e hwrites => hno state e ?_
    exact use_of_writes (hw.trans (congrArg some hwrites))

/-- The standing of a contact changes only where it is written. -/
theorem standingOf_serve (uses : List (Clock × StoreUse)) (h : s.db.threads.Legible)
    (hno : ∀ clock state e, (clock, .writeHandshakeState i state e) ∉ uses) :
    (s.serve uses).db.threads.standingOf i = s.db.threads.standingOf i := by
  refine serve_lift (R := fun s s' => s'.db.threads.standingOf i = s.db.threads.standingOf i)
    (fun _ => rfl) (fun h h' => h'.trans h) uses h fun {s} hs p hp => ?_
  refine standingOf_use hs p.1 fun state e hwrites => hno p.1 state e ?_
  rwa [← hwrites]

end Store

/-- For every run of calls on a new store, whatever calls fail, and whatever run comes later: there
is one conversation of a kind and peer. Each has gone on since the first run, and no other has its
id. Its id is the number of the first attempt to open it, with the hidden flag of that attempt. A
contact whose state is not written later has the standing that it had, and no group ever has another
than that of a new conversation. What is closed is opened again as it was, as long as the ids fit
their columns. -/
theorem threads_keep_identity (outage : Outage) (uses later : List (Clock × StoreUse)) :
    let new := Store.fresh outage
    let s := (new.serve uses).db
    let t := ((new.serve uses).serve later).db
    t.threads.Keyed ∧
      (∀ r ∈ s.threads.rows, ∃ r' ∈ t.threads.rows, r.GoesOn r' ∧
        ∀ q ∈ t.threads.rows, q.id = r.id ∨ q.Is r.kind r.peer → q = r') ∧
      t.threads.Opened (new.openings (uses ++ later)) ∧
      (∀ i, (∀ clock state e, (clock, .writeHandshakeState i state e) ∉ later) →
        t.threads.standingOf i = s.threads.standingOf i) ∧
      t.threads.GroupsUntrusted ∧
      (t.Fits → Database.decode t.encode = .ok t) := by
  have hs : (Store.fresh outage |>.serve uses).Sound _ := Store.sound_fresh.serve uses
  have ht := hs.serve later
  rw [List.nil_append, ← Store.openings_append] at ht
  refine ⟨ht.keyed, fun r hr => ?_, ht.opened,
    fun i => Store.standingOf_serve later hs.legible, ht.groups, fun hfits => ?_⟩
  · obtain ⟨r', hr', hgoes⟩ := Store.goesOn_serve later hs.legible r hr
    refine ⟨r', hr', hgoes, fun q hq hsame => ?_⟩
    rcases hsame with hid | his
    · exact List.inj_on_of_nodup_map ht.opened.numbered.distinct hq hr' (hid.trans hgoes.id.symm)
    · have hfound := ht.keyed.find?_of_mem hr'
      rw [hgoes.kind, hgoes.peer, ← his.1, ← his.2, ht.keyed.find?_of_mem hq] at hfound
      exact Option.some.inj hfound
  · rw [Database.decode_encode ht.legible, if_pos hfits]

/-- A contact and a group of one name: the contact keeps what was written for it. -/
theorem threads_keep_identity_of_namesakes :
    let clock : Clock := ⟨0, 0⟩
    let uses := [(clock, .getOrCreateContactThread "ann" true),
      (clock, .getOrCreateGroupThread "ann"),
      (clock, .writeHandshakeState "ann" .requestSent (some 9))]
    let later := [(clock, .getOrCreateContactThread "ann" false), (clock, .reopen),
      (clock, .recordThreadActivity 2 5), (clock, .writeHandshakeState "bob" .established none)]
    let t := (((Store.fresh fun _ _ => none).serve uses).serve later).db
    (∀ clock state e, (clock, .writeHandshakeState "ann" state e) ∉ later) ∧ t.Fits ∧
      t.threads.standingOf "ann" = ⟨.known .requestSent, some 9⟩ ∧
      Database.decode t.encode = .ok t := by
  intro clock uses later t
  have hno : ∀ clock state e, (clock, .writeHandshakeState "ann" state e) ∉ later := by simp [later]
  have hfits : t.Fits := by decide +kernel
  obtain ⟨-, -, -, hstanding, -, hopen⟩ := threads_keep_identity (fun _ _ => none) uses later
  exact ⟨hno, hfits, (hstanding "ann" hno).trans (by decide +kernel), hopen hfits⟩

end Courier
