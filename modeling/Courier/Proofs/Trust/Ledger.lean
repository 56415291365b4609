import Courier.Proofs.Trust.Actions

/-!
# The handshakes for one contact

A `Ledger` is all that concerns the handshakes generated for one contact: its standing, how many
were handed to the transport so far, how many of those the transport has not answered, and the
writes that are to settle the others. What a node does for the contact is a path of moves
(`Ledger.Move`); only three things are not among them: a settling write, its failure, and the loss
of deliveries with their task. Where moves are `free`, a handshake may be built without a decision.

* `path_of_locked`: no handshake is built for a contact that is locked.
* `path_of_established`: trust stays, and so does the number of deliveries in flight.
* `Single`: at most one handshake was built that was not settled, and it locks the contact.
  `Single.path`, `Single.settle`, `Single.lose` keep it.
* `Dated`: a request has an expiry. `Stranded`: a contact is pending with nothing in flight; no path
  and no settling write leads there (`not_stranded_path`, `not_stranded_written`).
-/

namespace Courier

open Relation (ReflTransGen)

/-- What a settlement writes: a request with its expiry, or nothing is outstanding any more. -/
def Settlement.Follows (x : Settlement) : Prop :=
  (x.state = .requestSent ∧ x.expiresAt.isSome) ∨ (x.state = .absent ∧ x.expiresAt = none)

/-- What a settlement writes. -/
def Settlement.standing (x : Settlement) : Standing := ⟨.known x.state, x.expiresAt⟩

/-- What concerns the handshakes generated for one contact. -/
structure Ledger where
  /-- The contact's standing in the store. -/
  row : Option Standing
  /-- How many the transport has not answered. -/
  sending : Nat
  /-- What the tasks that have not run are to write. -/
  unsettled : List Settlement
  /-- How many were handed to the transport so far. -/
  built : Nat

namespace Ledger

variable {l l' : Ledger} {free : Prop} {settled n : Nat}

/-- The deliveries in flight: built and not settled, in the running process. -/
def inFlight (l : Ledger) : Nat := l.sending + l.unsettled.length

/-- No handshake is generated for the contact. -/
def Locked (l : Ledger) : Prop := ∃ r, l.row = some r ∧ r.Locked

/-- The contact is trusted. -/
def Established (l : Ledger) : Prop := ∃ r, l.row = some r ∧ r.state = .known .established

theorem Established.locked (h : l.Established) : l.Locked :=
  h.imp fun _ ⟨hr, hs⟩ => ⟨hr, .inr hs⟩

/-- One thing that a node does for the contact. -/
inductive Move (free : Prop) : Ledger → Ledger → Prop where
  | row {a b : Option Standing} (n : Nat) (u : List Settlement) (c : Nat) (h : StandingMove a b) :
      Move free ⟨a, n, u, c⟩ ⟨b, n, u, c⟩
  /-- A handshake is built and handed to the transport. -/
  | builds {a : Option Standing} (n : Nat) (u : List Settlement) (c : Nat)
      (h : free ∨ ∀ r ∈ a, ¬ r.Locked) :
      Move free ⟨a, n, u, c⟩ ⟨some ⟨.known .pendingSend, none⟩, n + 1, u, c + 1⟩
  /-- The transport answers and the settling write is spawned. -/
  | answers (a : Option Standing) (n : Nat) (u : List Settlement) (c : Nat) (x : Settlement)
      (h : x.Follows) : Move free ⟨a, n + 1, u, c⟩ ⟨a, n, u ++ [x], c⟩

/-- What a node may do for the contact while a task runs. -/
abbrev Path (free : Prop) : Ledger → Ledger → Prop :=
  ReflTransGen (Move free)

/-- The ledger with more deliveries that the transport has not answered. -/
def more (l : Ledger) (n : Nat) : Ledger := { l with sending := l.sending + n }

theorem Move.more (h : Move free l l') (n : Nat) : Move free (l.more n) (l'.more n) := by
  cases h with
  | row k u c h => exact .row (k + n) u c h
  | builds k u c h =>
    rw [show Ledger.more ⟨some ⟨.known .pendingSend, none⟩, k + 1, u, c + 1⟩ n =
      ⟨some ⟨.known .pendingSend, none⟩, k + n + 1, u, c + 1⟩ by simp [Ledger.more]; omega]
    exact .builds (k + n) u c h
  | answers a k u c x h =>
    rw [show Ledger.more ⟨a, k + 1, u, c⟩ n = ⟨a, k + n + 1, u, c⟩ by simp [Ledger.more]; omega]
    exact .answers a (k + n) u c x h

theorem inFlight_more (l : Ledger) (n : Nat) : (l.more n).inFlight = l.inFlight + n :=
  Nat.add_right_comm ..

/-- What happens does not depend on the deliveries that others wait for. -/
theorem path_more (h : Path free l l') (n : Nat) : Path free (l.more n) (l'.more n) :=
  ReflTransGen.lift (Ledger.more · n) (fun _ _ hm => Move.more hm n) _ _ h

/-- What needs a decision may happen where none is needed. -/
theorem path_widen (h : Path False l l') : Path free l l' :=
  ReflTransGen.mono (fun _ _ hm => match hm with
    | .row n u c h => .row n u c h
    | .builds n u c h => .builds n u c (.inr (h.resolve_left id))
    | .answers a n u c x h => .answers a n u c x h) _ _ h

theorem path_row {a b : Option Standing} (h : ReflTransGen StandingMove a b) (n : Nat)
    (u : List Settlement) (c : Nat) : Path free ⟨a, n, u, c⟩ ⟨b, n, u, c⟩ :=
  ReflTransGen.lift (fun r => (⟨r, n, u, c⟩ : Ledger)) (fun _ _ hm => Move.row n u c hm) _ _ h

/-- Every settlement that is to be written follows. -/
theorem path_follows (h : Path free l l') (hl : ∀ x ∈ l.unsettled, x.Follows) :
    ∀ x ∈ l'.unsettled, x.Follows := by
  induction h with
  | refl => exact hl
  | tail _ hm ih =>
    cases hm with
    | row => exact ih
    | builds => exact ih
    | answers a n u c x hx =>
      intro y hy
      rcases List.mem_append.mp hy with hy | hy
      · exact ih y hy
      · rwa [List.mem_singleton.mp hy]

/-- What is in flight was built. -/
theorem path_inFlight (h : Path free l l') : l'.inFlight + l.built = l.inFlight + l'.built := by
  induction h with
  | refl => rfl
  | tail _ hm ih =>
    cases hm with
    | row => exact ih
    | builds => simp only [inFlight] at ih ⊢; omega
    | answers => simp only [inFlight, List.length_append, List.length_singleton] at ih ⊢; omega

/-! ## What a lock holds -/

section Decided

variable (hf : ¬ free)

include hf in
theorem Move.of_locked (h : Move free l l') (hl : l.Locked) : l'.Locked ∧ l'.built = l.built := by
  obtain ⟨r, hr, hlock⟩ := hl
  cases h with
  | row n u c h =>
    cases h with
    | opens => cases hr
    | establishes => exact ⟨⟨_, rfl, .inr rfl⟩, rfl⟩
    | expires r' h =>
      cases hr
      rcases hlock with hlock | hlock <;> rcases h with h | h <;> cases hlock.symm.trans h
  | builds n u c h => exact absurd hlock (h.resolve_left hf r hr)
  | answers => exact ⟨⟨r, hr, hlock⟩, rfl⟩

include hf in
/-- No handshake is built for a contact that is locked. -/
theorem path_of_locked (h : Path free l l') (hl : l.Locked) : l'.Locked ∧ l'.built = l.built := by
  induction h with
  | refl => exact ⟨hl, rfl⟩
  | tail _ hm ih =>
    obtain ⟨hl', hb⟩ := hm.of_locked hf ih.1
    exact ⟨hl', hb.trans ih.2⟩

include hf in
theorem Move.of_established (h : Move free l l') (hl : l.Established) : l'.Established := by
  obtain ⟨r, hr, hs⟩ := hl
  cases h with
  | row n u c h =>
    cases h with
    | opens => cases hr
    | establishes => exact ⟨_, rfl, rfl⟩
    | expires r' h => cases hr; rcases h with h | h <;> cases hs.symm.trans h
  | builds n u c h => exact absurd (.inr hs) (h.resolve_left hf r hr)
  | answers => exact ⟨r, hr, hs⟩

include hf in
/-- Trust stays, and so does the number of deliveries in flight. -/
theorem path_of_established (h : Path free l l') (hl : l.Established) :
    l'.Established ∧ l'.inFlight = l.inFlight := by
  have ht : l'.Established := by
    induction h with
    | refl => exact hl
    | tail _ hm ih => exact hm.of_established hf ih
  have hb := (path_of_locked hf h hl.locked).2
  have hn := path_inFlight h
  exact ⟨ht, by omega⟩

/-! ## One handshake at a time -/

/-- At most one handshake was built and not settled; as long as there is one, in flight or lost, the
contact is locked. -/
structure Single (l : Ledger) (settled : Nat) : Prop where
  built_le : l.built ≤ settled + 1
  inFlight_le : settled + l.inFlight ≤ l.built
  locked : settled < l.built → l.Locked

theorem Single.inFlight_le_one (h : l.Single settled) : l.inFlight ≤ 1 := by
  have := h.built_le
  have := h.inFlight_le
  omega

include hf in
theorem Single.path (hs : l.Single settled) (h : Path free l l') : l'.Single settled := by
  induction h with
  | refl => exact hs
  | @tail m m' _ hm ih =>
    -- a handshake that was built and is not settled has locked the contact, so none is added to it
    by_cases hlt : settled < m.built
    · obtain ⟨hl, hb⟩ := hm.of_locked hf (ih.locked hlt)
      have hn := path_inFlight (.single hm)
      have hle := ih.inFlight_le
      exact ⟨hb ▸ ih.built_le, by omega, fun _ => hl⟩
    · have hle := ih.inFlight_le
      have hb := ih.built_le
      cases hm with
      | row n u c h => exact ⟨hb, hle, fun h => absurd h hlt⟩
      | builds n u c h =>
        simp only [inFlight] at *
        exact ⟨by dsimp only; omega, by simp only [inFlight]; omega, fun _ => ⟨_, rfl, .inl rfl⟩⟩
      | answers a n u c x hx =>
        simp only [inFlight] at *
        omega

end Decided

/-- A settlement that was written or could not be written. -/
theorem Single.settle (hs : l.Single settled) (hb : l'.built = l.built)
    (hn : l'.inFlight + 1 = l.inFlight) : l'.Single (settled + 1) := by
  have := hs.built_le
  have := hs.inFlight_le
  exact ⟨by omega, by omega, fun h => by omega⟩

/-- Deliveries are lost with their task. -/
theorem Single.lose (hs : l.Single settled) (hr : l'.row = l.row) (hb : l'.built = l.built)
    (hn : l'.inFlight ≤ l.inFlight) : l'.Single settled := by
  refine ⟨hb ▸ hs.built_le, ?_, fun h => ?_⟩
  · have := hs.inFlight_le
    omega
  · unfold Locked
    rw [hr]
    exact hs.locked (hb ▸ h)

/-! ## Requests expire, pending handshakes do not -/

/-- A request that was sent has an expiry. -/
def Dated (l : Ledger) : Prop :=
  ∀ r, l.row = some r → r.state = .known .requestSent → r.expiresAt.isSome

/-- The contact is pending, and nothing is in flight that could change it. -/
def Stranded (l : Ledger) : Prop :=
  l.inFlight = 0 ∧ ∃ r, l.row = some r ∧ r.state = .known .pendingSend

theorem Dated.path (hd : l.Dated) (h : Path free l l') : l'.Dated := by
  induction h with
  | refl => exact hd
  | tail _ hm ih =>
    cases hm with
    | row n u c h =>
      cases h <;>
        · rintro _ ⟨⟩ h
          cases h
    | builds =>
      rintro _ ⟨⟩ h
      cases h
    | answers => exact ih

theorem not_stranded_path (hs : ¬ l.Stranded) (h : Path free l l') : ¬ l'.Stranded := by
  induction h with
  | refl => exact hs
  | tail _ hm ih =>
    cases hm with
    | row n u c h =>
      rintro ⟨-, r, hr, h'⟩
      cases h <;> cases hr <;> cases h'
    | builds => exact fun ⟨hn, _⟩ => by simp [inFlight] at hn
    | answers => exact fun ⟨hn, _⟩ => by simp [inFlight] at hn

section Written

variable {x : Settlement} (hx : x.Follows) (hr : l'.row = l.row.map fun _ => x.standing)

include hx hr in
theorem dated_written : l'.Dated := by
  intro r h hs
  rw [hr] at h
  obtain ⟨-, -, rfl⟩ := Option.map_eq_some_iff.mp h
  rcases hx with ⟨-, he⟩ | ⟨ha, -⟩
  · exact he
  · simp [Settlement.standing, ha] at hs

include hx hr in
theorem not_stranded_written : ¬ l'.Stranded := by
  rintro ⟨-, r, h, hs⟩
  rw [hr] at h
  obtain ⟨-, -, rfl⟩ := Option.map_eq_some_iff.mp h
  rcases hx with ⟨ha, -⟩ | ⟨ha, -⟩ <;> simp [Settlement.standing, ha] at hs

include hx hr in
theorem not_established_written : ¬ l'.Established := by
  rintro ⟨r, h, hs⟩
  rw [hr] at h
  obtain ⟨-, -, rfl⟩ := Option.map_eq_some_iff.mp h
  rcases hx with ⟨ha, -⟩ | ⟨ha, -⟩ <;> simp [Settlement.standing, ha] at hs

end Written

end Ledger

end Courier
