import Courier.Config.Basic
import Courier.Proofs.Trust.Runs

/-!
# One handshake at a time

However the calls of a node, the answers of the transport, the settling tasks, authorisations,
sweeps, restarts and changes of the clock follow one another: no contact has more than one generated
handshake that was built and not settled. While there is one, none is built.

* `single_step`, `single_run`: `Ledger.Single` is kept; a settling task counts as one settled.
* `one_handshake_in_flight`: the guarantee.
-/

namespace Courier

/-- Nothing is answered on the spot. -/
def Exchange.quiet : Exchange :=
  { messageId := fun _ => "", atOnce := fun _ => none }

namespace System

variable {s : System} {x : Exchange} {e : Event} {i : Identity} {settled : Nat}

/-- The deliveries of generated handshakes to a contact that are in flight: the transport has not
answered, or the task that settles the handshake has not run. -/
def inFlight (s : System) (i : Identity) : Nat :=
  s.sending i + (s.node.settlesOf i).length

/-- How many generated handshakes for a contact were handed to the transport so far. -/
def built (s : System) (i : Identity) : Nat :=
  s.node.builtFor i

/-- How many handshakes for a contact settle while the events happen. -/
def settledIn (i : Identity) : System → List (Exchange × Event) → Nat
  | _, [] => 0
  | s, (x, e) :: events => s.settles i e + settledIn i (s.step x e) events

theorem single_step (hwf : s.WellFormed) (hs : (s.ledger i).Single settled) (hf : ¬ e.free)
    (x : Exchange) : ((s.step x e).ledger i).Single (settled + s.settles i e) := by
  cases ledger_step hwf x e i with
  | path lost h0 _ _ hp =>
    rw [h0, Nat.add_zero]
    refine (hs.path hf hp).lose rfl rfl ?_
    rw [Ledger.inFlight_more]
    exact Nat.le_add_right ..
  | settles k y _ h1 hy =>
    rw [h1]
    exact hs.settle hy.built hy.inFlight
  | restarts he hl =>
    subst he
    rw [hl]
    exact hs.lose rfl rfl (Nat.zero_le _)

theorem single_run (hwf : s.WellFormed) (hs : (s.ledger i).Single settled)
    (events : List (Exchange × Event)) (hf : ∀ p ∈ events, ¬ p.2.free) :
    ((s.run events).ledger i).Single (settled + s.settledIn i events) := by
  induction events generalizing s settled with
  | nil => exact hs
  | cons p events ih =>
    have hs' := single_step hwf hs (hf p (.head _)) p.1
    have := ih (wellFormed_step hwf p.1 p.2).1 hs' fun q hq => hf q (.tail _ hq)
    rw [Nat.add_assoc] at this
    exact this

/-- Where a handshake was built and is not settled, none is built. -/
theorem built_step_of_locked (hwf : s.WellFormed) (hl : (s.ledger i).Locked) (hf : ¬ e.free) :
    (s.step x e).built i = s.built i := by
  cases ledger_step hwf x e i with
  | path _ _ _ _ hp => exact (Ledger.path_of_locked hf hp hl).2
  | settles _ _ _ _ hy => exact hy.built
  | restarts _ hl' => exact congrArg Ledger.built hl'

theorem single_idle {settings : Settings} {store : Store} {clock : Clock} :
    ((idle (.assemble settings store) clock).ledger i).Single 0 :=
  ⟨Nat.zero_le _, Nat.le_refl _, fun h => absurd h (Nat.lt_irrefl 0)⟩

/-- After every run of a node whose handshakes are decided on by its routes, whatever its store
holds (with its conversations keyed, as the schema has them) and whichever of its calls fail: at
most one handshake for a contact is in flight, at most one was built and not settled, and while
there is one no event builds another. -/
theorem one_handshake_in_flight (settings : Settings) (store : Store) (clock : Clock)
    (hk : store.Keyed) (events : List (Exchange × Event)) (hf : ∀ p ∈ events, ¬ p.2.free)
    (i : Identity) :
    let start := idle (.assemble settings store) clock
    let s := start.run events
    s.inFlight i ≤ 1 ∧
      s.inFlight i + start.settledIn i events ≤ s.built i ∧
      s.built i ≤ start.settledIn i events + 1 ∧
      ∀ x e, ¬ e.free → start.settledIn i events < s.built i →
        (s.step x e).built i = s.built i := by
  intro start s
  have hwf : start.WellFormed := wellFormed_idle hk
  have hs := single_run hwf (i := i) single_idle events hf
  rw [Nat.zero_add] at hs
  refine ⟨hs.inFlight_le_one, ?_, hs.built_le, fun x e he hlt => ?_⟩
  · exact Nat.add_comm .. ▸ hs.inFlight_le
  · exact built_step_of_locked (wellFormed_run hwf events).1 (hs.locked hlt) he

/-- Two messages to one contact at a time: the first builds a handshake, the second does not. -/
theorem one_handshake_in_flight_of_two_routes :
    let start := idle (.assemble Config.default.settings (.reliable .empty)) ⟨0, 0⟩
    let message := OutgoingMessage.toContact "m" "bob" [] 0
    let s := start.run [(.quiet, .begin 0 (.route message)), (.quiet, .begin 1 (.route message)),
      (.quiet, .answer 0 (.links (.ok []))), (.quiet, .answer 1 (.links (.ok [])))]
    s.inFlight "bob" = 1 ∧ s.built "bob" ≤ 1 := by
  intro start message s
  have hf : ∀ p ∈ [(Exchange.quiet, Event.begin 0 (.route message)),
      (.quiet, .begin 1 (.route message)), (.quiet, .answer 0 (.links (.ok []))),
      (.quiet, .answer 1 (.links (.ok [])))], ¬ p.2.free := by
    simp [Event.free, Request.free]
  obtain ⟨-, -, hb, -⟩ := one_handshake_in_flight Config.default.settings (.reliable .empty) ⟨0, 0⟩
    ThreadTable.keyed_empty _ hf "bob"
  exact ⟨by decide +kernel, hb⟩

end System

end Courier
