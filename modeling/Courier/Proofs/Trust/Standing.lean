import Courier.Store.Threads

/-!
# What the store holds of the trust with a contact

`ThreadTable.standing` is the state and the expiry in the row of a contact. No two rows are of one
kind and peer (`ThreadTable.Keyed`), which every change of the table keeps.

* `find?_map_rows`, `Keyed.map_rows`: a change of rows that leaves kinds and peers alone.
* `standing_ensure`, `standing_writeState`: the two changes that a standing sees.
* `standing_noteActivity`, `standing_update_group`: changes that it does not see.
-/

namespace Courier

/-- The state of a contact and its expiry, as the store holds them. -/
structure Standing where
  state : StoredState
  expiresAt : Option Int64
  deriving DecidableEq, Repr

namespace Standing

/-- The standing in a new conversation. -/
def fresh : Standing := ⟨.known .absent, none⟩

/-- A handshake is pending, or trust is established: no handshake is generated. -/
def Locked (r : Standing) : Prop :=
  r.state = .known .pendingSend ∨ r.state = .known .established

end Standing

/-- The standing in a row. -/
def StoredThread.standing (r : StoredThread) : Standing := ⟨r.state, r.expiresAt⟩

/-- The standing in a row that was read. -/
def ThreadRow.standing (r : ThreadRow) : Standing := ⟨.known r.handshakeState, r.handshakeExpiresAt⟩

namespace ThreadTable

variable {t : ThreadTable} {i j : Identity} {kind : ThreadKind} {peer : String} {hidden : Bool}

/-- The standing of a contact, if there is a conversation with it. -/
def standing (t : ThreadTable) (i : Identity) : Option Standing :=
  (t.find? .contact i).map (·.standing)

/-- No two rows are of one kind and peer. -/
def Keyed (t : ThreadTable) : Prop :=
  t.rows.Pairwise fun a b => ¬ b.Is a.kind a.peer

theorem keyed_empty : empty.Keyed :=
  .nil

theorem Keyed.find?_of_mem (h : t.Keyed) {r : StoredThread} (hr : r ∈ t.rows) :
    t.find? r.kind r.peer = some r := by
  obtain ⟨rows, lastId⟩ := t
  change rows.find? _ = _
  change r ∈ rows at hr
  change rows.Pairwise _ at h
  induction rows with
  | nil => cases hr
  | cons a rows ih =>
    rcases List.mem_cons.mp hr with rfl | hr'
    · exact List.find?_cons_of_pos (by simp [StoredThread.Is])
    · have ha : ¬ a.Is r.kind r.peer := fun ha =>
        (List.pairwise_cons.mp h).1 r hr' ⟨ha.1.symm, ha.2.symm⟩
      rw [List.find?_cons_of_neg (by simpa using ha)]
      exact ih hr' (List.pairwise_cons.mp h).2

theorem standing_of_contact {row : Option ThreadRow} (h : t.contact i = .ok row) :
    t.standing i = row.map (·.standing) := by
  unfold contact at h
  unfold standing
  cases hr : t.find? .contact i with
  | none =>
    rw [hr] at h
    cases h
    rfl
  | some r =>
    rw [hr] at h
    unfold StoredThread.read at h
    cases hs : r.state with
    | known st =>
      simp only [hs, Except.map] at h
      cases h
      simp [StoredThread.standing, ThreadRow.standing, hs]
    | unknown text => simp [hs, Except.map] at h

theorem contact_of_standing {st : HandshakeState} {e : Option Int64}
    (h : t.standing i = some ⟨.known st, e⟩) :
    ∃ row, t.contact i = .ok (some row) ∧ row.handshakeState = st ∧ row.handshakeExpiresAt = e := by
  unfold standing at h
  obtain ⟨r, hr, hs⟩ := Option.map_eq_some_iff.mp h
  unfold contact
  rw [hr]
  unfold StoredThread.standing at hs
  obtain ⟨hstate, rfl⟩ := Standing.mk.inj hs
  simp only [StoredThread.read, hstate, Except.map]
  exact ⟨_, rfl, rfl, rfl⟩

/-! ## Changes that keep the keys -/

/-- A change of rows leaves their kinds and peers as they are. -/
def KeepsKeys (f : StoredThread → StoredThread) : Prop :=
  ∀ r, (f r).kind = r.kind ∧ (f r).peer = r.peer

section Rows

variable {f : StoredThread → StoredThread} (hf : KeepsKeys f)

include hf in
theorem KeepsKeys.ite (p : StoredThread → Prop) [DecidablePred p] :
    KeepsKeys fun r => if p r then f r else r := fun r => by
  dsimp only
  split
  · exact hf r
  · exact ⟨rfl, rfl⟩

include hf in
theorem KeepsKeys.is_iff (r : StoredThread) : (f r).Is kind peer ↔ r.Is kind peer := by
  simp [StoredThread.Is, hf r]

include hf in
theorem find?_map_rows :
    ({ t with rows := t.rows.map f } : ThreadTable).find? kind peer =
      (t.find? kind peer).map f := by
  unfold find?
  rw [List.find?_map]
  congr 2
  funext r
  simp [Function.comp, hf.is_iff]

include hf in
theorem Keyed.map_rows (h : t.Keyed) : ({ t with rows := t.rows.map f } : ThreadTable).Keyed := by
  refine List.pairwise_map.mpr (h.imp fun {a b} hab => ?_)
  rwa [hf.is_iff, (hf a).1, (hf a).2]

include hf in
theorem Keyed.update (h : t.Keyed) : (t.update kind peer f).Keyed :=
  h.map_rows (hf.ite _)

include hf in
theorem find?_update {k : ThreadKind} {p : String} :
    (t.update kind peer f).find? k p =
      if k = kind ∧ p = peer then (t.find? k p).map f else t.find? k p := by
  unfold update
  rw [find?_map_rows (hf.ite _)]
  cases h : t.find? k p with
  | none => simp
  | some r =>
    obtain ⟨rfl, rfl⟩ : r.Is k p := by simpa using List.find?_some h
    by_cases hr : r.kind = kind ∧ r.peer = peer
    · simp [StoredThread.Is, hr]
    · simp [StoredThread.Is, hr]

end Rows

theorem keepsKeys_noteActivity (now timestamp : Int64) :
    KeepsKeys (·.noteActivity now timestamp) :=
  fun _ => ⟨rfl, rfl⟩

theorem keepsKeys_writeState (st : HandshakeState) (e : Option Int64) :
    KeepsKeys fun r => { r with state := .known st, expiresAt := e } :=
  fun _ => ⟨rfl, rfl⟩

theorem Keyed.noteActivity (h : t.Keyed) (id : Int) (now timestamp : Int64) :
    (t.noteActivity id now timestamp).Keyed :=
  h.map_rows ((keepsKeys_noteActivity now timestamp).ite _)

theorem Keyed.writeState (h : t.Keyed) (st : HandshakeState) (e : Option Int64) :
    (t.writeState i st e).2.Keyed :=
  h.update (keepsKeys_writeState st e)

theorem Keyed.ensure (h : t.Keyed) : (t.ensure kind peer hidden).Keyed := by
  unfold ThreadTable.ensure
  split
  · exact h
  · next hnone =>
    refine List.pairwise_append.mpr ⟨h, List.pairwise_singleton _ _, fun a ha b hb => ?_⟩
    cases List.mem_singleton.mp hb
    rintro ⟨hkind, hpeer⟩
    exact List.find?_eq_none.mp hnone a ha (decide_eq_true ⟨hkind.symm, hpeer.symm⟩)

theorem find?_ensure {k : ThreadKind} {p : String} :
    (t.ensure kind peer hidden).find? k p =
      if kind = k ∧ peer = p then
        some ((t.find? k p).getD
          { id := t.lastId + 1, kind, peer, hidden, lastMessageAt := none,
            state := .known .absent, expiresAt := none })
      else t.find? k p := by
  unfold ThreadTable.ensure
  split
  · next r hr =>
    split
    · next hi =>
      obtain ⟨rfl, rfl⟩ := hi
      rw [hr]
      exact hr
    · rfl
  · next hnone =>
    split
    · next hi =>
      obtain ⟨rfl, rfl⟩ := hi
      rw [hnone]
      unfold find? at *
      rw [List.find?_append, hnone]
      simp [StoredThread.Is]
    · next hi =>
      unfold find?
      rw [List.find?_append]
      have hne : ¬ (kind = k ∧ peer = p) := hi
      simp [StoredThread.Is, hne]

/-! ## What they do to a standing -/

theorem standing_noteActivity (id : Int) (now timestamp : Int64) :
    (t.noteActivity id now timestamp).standing i = t.standing i := by
  unfold standing ThreadTable.noteActivity
  rw [find?_map_rows ((keepsKeys_noteActivity now timestamp).ite _), Option.map_map]
  congr 1
  funext r
  simp only [Function.comp]
  split <;> rfl

/-- A change of the row of a group leaves every contact as it is. -/
theorem standing_update_group {f : StoredThread → StoredThread} (hf : KeepsKeys f) :
    (t.update .group peer f).standing i = t.standing i := by
  unfold standing
  rw [find?_update hf, if_neg fun h => absurd h.1 (by decide)]

theorem standing_writeState (st : HandshakeState) (e : Option Int64) :
    (t.writeState i st e).2.standing j =
      if j = i then (t.standing j).map fun _ => ⟨.known st, e⟩ else t.standing j := by
  unfold standing ThreadTable.writeState
  rw [find?_update (keepsKeys_writeState st e)]
  by_cases hj : j = i
  · rw [if_pos ⟨rfl, hj⟩, if_pos hj, Option.map_map, Option.map_map]
    rfl
  · rw [if_neg (hj ·.2), if_neg hj]

theorem standing_ensure :
    (t.ensure kind peer hidden).standing i =
      if kind = .contact ∧ peer = i then some ((t.standing i).getD .fresh) else t.standing i := by
  unfold standing
  rw [find?_ensure]
  split
  · cases t.find? .contact i <;> rfl
  · rfl

end ThreadTable

end Courier
