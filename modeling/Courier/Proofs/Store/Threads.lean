import Courier.Proofs.Lists
import Courier.Proofs.Time.Timestamps
import Courier.Proofs.Trust.Standing
import Mathlib.Data.List.Nodup

/-!
# One conversation at a time

Each way of writing the conversations is about one of them, named by kind and peer or by its id.

* `ThreadTable.Spares`: every row but that of one kind and peer is what it was.
* `ThreadTable.Numbered`: no id is used twice, and none lies beyond the last one given. Then noting
  activity under the id of a group's row is noting it for that group
  (`groupActivity_noteActivity`).
* `ThreadTable.hear`: what a queued envelope does to the conversation of its group, which may be new
  after it and may have had activity (`ThreadTable.Hears`).
-/

namespace Courier

namespace ThreadTable

variable {t t' t'' : ThreadTable} {kind k : ThreadKind} {peer p : String} {hidden : Bool}
  {g : GroupId} {f : StoredThread → StoredThread} {r : StoredThread}

/-! ## Rows of another kind or peer -/

/-- All rows but those of a kind and peer are what they were, in the same order. -/
def Spares (t : ThreadTable) (kind : ThreadKind) (peer : String) (t' : ThreadTable) : Prop :=
  t'.rows.filter (¬ ·.Is kind peer) = t.rows.filter (¬ ·.Is kind peer)

theorem Spares.refl (t : ThreadTable) : t.Spares kind peer t :=
  rfl

theorem Spares.trans (h : t.Spares kind peer t') (h' : t'.Spares kind peer t'') :
    t.Spares kind peer t'' :=
  Eq.trans h' h

theorem spares_update (hf : KeepsKeys f) : t.Spares kind peer (t.update kind peer f) :=
  filter_not_map_ite (fun r hr => (hf.is_iff r).mpr hr) t.rows

theorem spares_ensure : t.Spares kind peer (t.ensure kind peer hidden) := by
  unfold Spares ensure
  split
  · rfl
  · rw [List.filter_append, List.filter_cons_of_neg (by simp [StoredThread.Is]), List.filter_nil,
      List.append_nil]

/-- The row of another kind or peer is found as before. -/
theorem Spares.find? (h : t.Spares kind peer t') (hne : ¬ (k = kind ∧ p = peer)) :
    t'.find? k p = t.find? k p := by
  have hfind (rows : List StoredThread) :
      rows.find? (·.Is k p) = (rows.filter (¬ ·.Is kind peer)).find? (·.Is k p) := by
    rw [List.find?_filter]
    congr 1
    funext r
    by_cases hr : r.Is k p
    · have hother : ¬ r.Is kind peer :=
        fun hr' => hne ⟨hr.1.symm.trans hr'.1, hr.2.symm.trans hr'.2⟩
      simp [hr, hother]
    · simp [hr]
  unfold ThreadTable.find?
  rw [hfind, hfind t.rows, h]

/-! ## Ids -/

/-- No id is used twice, and none lies beyond the last one given. -/
structure Numbered (t : ThreadTable) : Prop where
  distinct : (t.rows.map (·.id)).Nodup
  bounded : ∀ r ∈ t.rows, r.id ≤ t.lastId

theorem numbered_empty : empty.Numbered :=
  ⟨.nil, nofun⟩

theorem Numbered.map_rows (h : t.Numbered) (hf : ∀ r, (f r).id = r.id) :
    ({ t with rows := t.rows.map f } : ThreadTable).Numbered := by
  refine ⟨?_, fun r hr => ?_⟩
  · rw [List.map_map, show (·.id) ∘ f = (·.id) from funext hf]
    exact h.distinct
  · obtain ⟨r', hr', rfl⟩ := List.mem_map.mp hr
    exact (hf r').symm ▸ h.bounded r' hr'

theorem Numbered.update (h : t.Numbered) (hf : ∀ r, (f r).id = r.id) :
    (t.update kind peer f).Numbered := by
  refine h.map_rows fun r => ?_
  split
  · exact hf r
  · rfl

theorem Numbered.writeState (h : t.Numbered) (i : Identity) (st : HandshakeState)
    (e : Option Int64) : (t.writeState i st e).2.Numbered :=
  h.update fun _ => rfl

theorem Numbered.noteActivity (h : t.Numbered) (id : Int) (now timestamp : Int64) :
    (t.noteActivity id now timestamp).Numbered := by
  refine h.map_rows fun r => ?_
  split <;> rfl

theorem Numbered.ensure (h : t.Numbered) : (t.ensure kind peer hidden).Numbered := by
  unfold ThreadTable.ensure
  split
  · refine ⟨h.distinct, fun r hr => ?_⟩
    have := h.bounded r hr
    show r.id ≤ ((t.lastId + 1 : Nat) : Int)
    omega
  · have hbelow : ∀ r ∈ t.rows, r.id < t.lastId + 1 := fun r hr => by
      have := h.bounded r hr
      omega
    refine ⟨?_, fun r hr => ?_⟩
    · rw [List.map_append, List.map_singleton]
      refine List.nodup_append.mpr ⟨h.distinct, List.nodup_singleton _, fun a ha b hb => ?_⟩
      obtain ⟨r, hr, rfl⟩ := List.mem_map.mp ha
      obtain rfl := List.mem_singleton.mp hb
      have := hbelow r hr
      show r.id ≠ t.lastId + 1
      omega
    · show r.id ≤ ((t.lastId + 1 : Nat) : Int)
      rcases List.mem_append.mp hr with hr | hr
      · have := hbelow r hr
        omega
      · obtain rfl := List.mem_singleton.mp hr
        simp

/-- The id of a conversation, if there is one. -/
def idOf (t : ThreadTable) (kind : ThreadKind) (peer : String) : Option Int :=
  (t.find? kind peer).map (·.id)

theorem idOf_map_rows (hf : KeepsKeys f) (hid : ∀ r, (f r).id = r.id) :
    ({ t with rows := t.rows.map f } : ThreadTable).idOf kind peer = t.idOf kind peer := by
  unfold idOf
  rw [find?_map_rows hf, Option.map_map, show (·.id) ∘ f = (·.id) from funext hid]

theorem idOf_writeState (i : Identity) (st : HandshakeState) (e : Option Int64) :
    (t.writeState i st e).2.idOf kind peer = t.idOf kind peer :=
  idOf_map_rows ((keepsKeys_writeState st e).ite _) fun r => by split <;> rfl

theorem idOf_noteActivity (id : Int) (now timestamp : Int64) :
    (t.noteActivity id now timestamp).idOf kind peer = t.idOf kind peer :=
  idOf_map_rows ((keepsKeys_noteActivity now timestamp).ite _) fun r => by split <;> rfl

/-- A conversation keeps its id when this or another one is opened. -/
theorem idOf_ensure {id : Int} (h : t.idOf k p = some id) :
    (t.ensure kind peer hidden).idOf k p = some id := by
  obtain ⟨r, hr, hid⟩ := Option.map_eq_some_iff.mp h
  unfold idOf
  rw [find?_ensure, hr]
  split <;> exact congrArg some hid

/-- The conversation that was opened is the one that is found. -/
theorem idOf_of_fetch {row : ThreadRow} (h : t.fetch kind peer = .ok row) :
    t.idOf kind peer = some row.id := by
  unfold fetch at h
  unfold idOf
  cases hr : t.find? kind peer with
  | none =>
    rw [hr] at h
    cases h
  | some r =>
    rw [hr] at h
    unfold StoredThread.read at h
    cases hs : r.state with
    | known st =>
      simp only [hs] at h
      cases h
      rfl
    | unknown text => simp [hs] at h

/-! ## The activity of groups -/

theorem groupActivity_ensure : (t.ensure kind peer hidden).groupActivity g = t.groupActivity g := by
  unfold groupActivity
  rw [find?_ensure]
  split
  · cases t.find? .group g <;> rfl
  · rfl

theorem groupActivity_writeState (i : Identity) (st : HandshakeState) (e : Option Int64) :
    (t.writeState i st e).2.groupActivity g = t.groupActivity g := by
  unfold groupActivity writeState
  rw [find?_update (keepsKeys_writeState st e), if_neg fun h => absurd h.1 (by decide)]

/-- Activity is noted under the id of a group's conversation: it counts for that group alone. -/
theorem groupActivity_noteActivity (h : t.Numbered) {id : Int} (hid : t.idOf .group peer = some id)
    (now timestamp : Int64) :
    (t.noteActivity id now timestamp).groupActivity g =
      if g = peer then activityAfter now timestamp (t.groupActivity g) else t.groupActivity g := by
  obtain ⟨r, hr, rfl⟩ := Option.map_eq_some_iff.mp hid
  unfold groupActivity ThreadTable.noteActivity
  rw [find?_map_rows ((keepsKeys_noteActivity now timestamp).ite _)]
  split
  · next heq =>
    rw [heq, hr, Option.map_some, if_pos rfl]
    rfl
  · next hne =>
    cases hr' : t.find? .group g with
    | none => rfl
    | some r' =>
      have hids : r'.id ≠ r.id := by
        intro heq
        have hsame : r' = r := List.inj_on_of_nodup_map h.distinct
          (List.mem_of_find?_eq_some hr') (List.mem_of_find?_eq_some hr) heq
        have hpeer : r'.Is .group g := by simpa using List.find?_some hr'
        have hpeer' : r.Is .group peer := by simpa using List.find?_some hr
        exact hne (by rw [← hpeer.2, hsame, hpeer'.2])
      rw [Option.map_some, if_neg hids]

/-! ## A queued envelope -/

/-- The conversation of a group is opened, if it is missing, and activity noted for it. -/
def hear (t : ThreadTable) (group : GroupId) (now timestamp : Int64) : ThreadTable :=
  (t.ensure .group group false).update .group group (·.noteActivity now timestamp)

/-- Nothing but the conversation of a group has changed: it may be new, and its last activity may
have moved forward. -/
structure Hears (t : ThreadTable) (group : GroupId) (t' : ThreadTable) : Prop where
  others : t.Spares .group group t'
  known : ∀ r, t.find? .group group = some r →
    ∃ last, t'.find? .group group = some { r with lastMessageAt := last } ∧
      ∀ v, r.lastMessageAt = some v → ∃ w, last = some w ∧ v ≤ w
  opened : t.find? .group group = none → ∀ r, t'.find? .group group = some r →
    r.hidden = false ∧ r.state = .known .absent ∧ r.expiresAt = none

theorem Hears.refl (t : ThreadTable) : t.Hears g t :=
  ⟨.refl t, fun r hr => ⟨r.lastMessageAt, hr, fun v hv => ⟨v, hv, Int64.le_refl v⟩⟩,
    fun hnone r hr => by rw [hnone] at hr; cases hr⟩

theorem Hears.trans (h : t.Hears g t') (h' : t'.Hears g t'') : t.Hears g t'' := by
  refine ⟨h.others.trans h'.others, fun r hr => ?_, fun hnone r hr => ?_⟩
  · obtain ⟨last', hr', hle⟩ := h.known r hr
    obtain ⟨last'', hr'', hle'⟩ := h'.known _ hr'
    refine ⟨last'', hr'', fun v hv => ?_⟩
    obtain ⟨v', hv', hvv'⟩ := hle v hv
    obtain ⟨w, hw, hvw⟩ := hle' v' hv'
    exact ⟨w, hw, Int64.le_trans hvv' hvw⟩
  · cases hr' : t'.find? .group g with
    | none => exact h'.opened hr' r hr
    | some r' =>
      obtain ⟨last, hsome, -⟩ := h'.known r' hr'
      rw [hsome] at hr
      obtain rfl := Option.some.inj hr
      exact h.opened hnone r' hr'

theorem find?_hear (now timestamp : Int64) :
    (t.hear g now timestamp).find? .group g =
      some (((t.find? .group g).getD
        { id := t.lastId + 1, kind := .group, peer := g, hidden := false, lastMessageAt := none,
          state := .known .absent, expiresAt := none }).noteActivity now timestamp) := by
  unfold hear
  rw [find?_update (keepsKeys_noteActivity now timestamp), if_pos ⟨rfl, rfl⟩, find?_ensure,
    if_pos ⟨rfl, rfl⟩]
  rfl

theorem spares_hear (now timestamp : Int64) : t.Spares .group g (t.hear g now timestamp) :=
  spares_ensure.trans (spares_update (keepsKeys_noteActivity now timestamp))

theorem hears_hear (now timestamp : Int64) : t.Hears g (t.hear g now timestamp) := by
  refine ⟨spares_hear now timestamp, fun r hr => ?_, fun hnone r hr => ?_⟩
  · rw [find?_hear, hr]
    exact ⟨_, rfl, fun v hv => ⟨_, rfl, le_activityAfter hv rfl⟩⟩
  · rw [find?_hear, hnone] at hr
    obtain rfl := Option.some.inj hr
    exact ⟨rfl, rfl, rfl⟩

theorem Numbered.hear (h : t.Numbered) (now timestamp : Int64) :
    (t.hear g now timestamp).Numbered :=
  h.ensure.update fun _ => rfl

theorem idOf_hear {id : Int} (h : t.idOf k p = some id) (now timestamp : Int64) :
    (t.hear g now timestamp).idOf k p = some id :=
  (idOf_map_rows ((keepsKeys_noteActivity now timestamp).ite _) fun r => by
    split <;> rfl).trans (idOf_ensure h)

theorem groupActivity_hear (now timestamp : Int64) :
    (t.hear peer now timestamp).groupActivity g =
      if g = peer then activityAfter now timestamp (t.groupActivity g) else t.groupActivity g := by
  unfold groupActivity
  split
  · next heq =>
    rw [heq, find?_hear]
    cases t.find? .group peer <;> rfl
  · next hne => rw [(spares_hear now timestamp).find? fun h => hne h.2]

end ThreadTable

end Courier
