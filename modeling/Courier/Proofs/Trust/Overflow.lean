import Courier.Proofs.Trust.Runs

/-!
# When a task dies

The settling of a handshake that was delivered needs its expiry. Where that exceeds the range of
timestamps there is none, and the task that waited for the transport dies. No task dies otherwise
(`dies_overflows`), so none dies as long as the wall clock and the configured expiry stay in range.
-/

namespace Courier

namespace Node

variable {n : Node} {w : Surroundings}

/-- The expiry of a handshake that is delivered now is no timestamp. -/
def Overflows (n : Node) (clock : Clock) : Prop :=
  addTimestamps? clock.now (Int64.ofNat n.settings.handshakeExpiry.millis) = none

instance (n : Node) (clock : Clock) : Decidable (n.Overflows clock) :=
  inferInstanceAs (Decidable (_ = _))

theorem Overflows.of_settings {n' : Node} {clock : Clock} (h : n'.Overflows clock)
    (hs : n'.settings = n.settings) : n.Overflows clock := by
  unfold Overflows at h ⊢
  rwa [← hs]

theorem settleHandshake_overflows {d : HandshakeDelivery} {result : SendResult}
    (h : (n.settleHandshake w d result).1 = false) : n.Overflows w.clock := by
  unfold settleHandshake at h
  split at h
  · cases h
  · next hnone =>
    unfold HandshakeDelivery.settlement? at hnone
    split at hnone
    · exact Option.map_eq_none_iff.mp hnone
    · cases hnone

theorem settleHandshake_settings {d : HandshakeDelivery} {result : SendResult} :
    (n.settleHandshake w d result).2.settings = n.settings := by
  unfold settleHandshake
  split <;> rfl

theorem settleIn_overflows {f : FanOut} {p : PendingSend} {result : SendResult}
    (h : (n.settleIn w f p result).1 = none) : n.Overflows w.clock := by
  unfold settleIn settleSend at h
  by_cases hp : p.isHandshake = true
  · simp only [hp, if_true] at h
    rcases hs : (n.note (.answered p.envelope result)).settleHandshake w
      ⟨p.destination.identity, p.envelope⟩ result with ⟨_ | _, n'⟩
    · exact (settleHandshake_overflows (congrArg Prod.fst hs)).of_settings rfl
    · rw [hs] at h
      cases h
  · simp [hp] at h

theorem settleIn_settings {f : FanOut} {p : PendingSend} {result : SendResult} :
    (n.settleIn w f p result).2.settings = n.settings := by
  have hs : (n.settleSend w p result).2.settings = n.settings := by
    unfold settleSend
    dsimp only
    split
    · exact settleHandshake_settings
    · rfl
  unfold settleIn
  rcases hx : n.settleSend w p result with ⟨_ | _, n'⟩ <;> rw [hx] at hs <;> exact hs

theorem launch_overflows {f : FanOut} {d : Destination} (h : (n.launch w f d).1 = none) :
    n.Overflows w.clock := by
  unfold launch at h
  split at h
  · cases h
  · cases h
  · next p n' hn' =>
    have hset : n'.settings = n.settings := (congrArg (fun r => r.2.settings) hn').symm
    dsimp only at h
    split at h
    · cases h
    · exact (settleIn_overflows h).of_settings hset

theorem launch_settings {f : FanOut} {d : Destination} :
    (n.launch w f d).2.settings = n.settings := by
  unfold launch attempt
  rcases (prepareSend w f.message d).attempt n.store with ⟨_ | _ | p, s'⟩
  · rfl
  · rfl
  · dsimp only
    split
    · rfl
    · exact settleIn_settings

theorem launchAll_overflows :
    ∀ (ds : List Destination) (f : FanOut) (n : Node), (launchAll w ds f n).1 = none →
      n.Overflows w.clock
  | [], _, _, h => by cases h
  | d :: ds, f, n, h => by
    have hset := launch_settings (n := n) (w := w) (f := f) (d := d)
    unfold launchAll at h
    rcases hx : n.launch w f d with ⟨_ | f', n'⟩ <;> rw [hx] at h hset
    · exact launch_overflows (congrArg Prod.fst hx)
    · exact (launchAll_overflows ds f' n' h).of_settings hset

theorem checkFanOut_dies {f : Option FanOut} (h : checkFanOut f = .dies) : f = none := by
  cases f with
  | none => rfl
  | some f =>
    unfold checkFanOut at h
    dsimp only at h
    split at h <;> cases h

theorem sendDirect_lives {m : OutgoingMessage} : (n.sendDirect w m).1 ≠ .dies := by
  unfold sendDirect
  split
  · nofun
  · dsimp only
    split <;> nofun

theorem continueRoute_overflows {m : OutgoingMessage} {step : ResolveStep}
    (h : (n.continueRoute w m step).1 = .dies) : n.Overflows w.clock := by
  unfold continueRoute at h
  split at h
  · cases h
  · exact launchAll_overflows _ _ _ (checkFanOut_dies h)
  · exact absurd h sendDirect_lives

theorem route_overflows {m : OutgoingMessage} (h : (n.route w m).1 = .dies) :
    n.Overflows w.clock := by
  unfold route at h
  split at h
  · exact absurd h sendDirect_lives
  · exact continueRoute_overflows h

theorem resumeRoute_overflows {r : Route} {answer : DirectoryAnswer}
    (h : (n.resumeRoute w r answer).1 = .dies) : n.Overflows w.clock := by
  unfold resumeRoute at h
  split at h
  · next m q =>
    have ho : (n.resumeResolve w.clock q answer).2.Overflows w.clock := continueRoute_overflows h
    exact ho.of_settings rfl
  · cases h

theorem answerRoute_overflows {r : Route} {x : Identity} {result : SendResult}
    (h : (n.answerRoute w r x result).1 = .dies) : n.Overflows w.clock := by
  unfold answerRoute at h
  split at h
  · cases h
  · split at h
    · cases h
    · exact settleIn_overflows (checkFanOut_dies h)
  · cases h

theorem died_toCall {step : RouteStep} (h : step.toCall.Died) : step = .dies := by
  cases step with
  | dies => rfl
  | _ => cases h

theorem finishHandshake_overflows {d : HandshakeDelivery} {result : SendResult}
    (h : (n.finishHandshake w d result).1.Died) : n.Overflows w.clock := by
  unfold finishHandshake at h
  rcases hs : (n.note (.answered d.envelope result)).settleHandshake w d result with ⟨_ | _, n'⟩
  · exact (settleHandshake_overflows (congrArg Prod.fst hs)).of_settings rfl
  · rw [hs] at h
    cases h

theorem sendHandshake_overflows {i : Identity} {hidden : Bool}
    (h : (n.sendHandshake w i hidden).1.Died) : n.Overflows w.clock := by
  unfold sendHandshake at h
  split at h
  · cases h
  · next m d n' hn' =>
    have hset : n'.settings = n.settings := (congrArg (fun r => r.2.settings) hn').symm
    dsimp only at h
    split at h
    · cases h
    · exact (finishHandshake_overflows h).of_settings hset

theorem begin_overflows {r : Request} (h : (n.begin w r).1.Died) : n.Overflows w.clock := by
  cases r with
  | resolve x => exact absurd h (ResolveStep.sendsNothing_toCall _).lives
  | view x maxAge =>
    unfold begin at h
    dsimp only at h
    split at h <;> cases h
  | route m => exact route_overflows (died_toCall h)
  | handshake x hidden => exact sendHandshake_overflows h
  | control m => exact absurd h (LinkStep.sendsNothing_toCall _).lives
  | unlink sender => exact absurd h (UnlinkStep.sendsNothing_toCall _).lives

theorem answer_overflows {c : Call} {a : Answer} (h : (n.answer w c a).1.Died) :
    n.Overflows w.clock := by
  unfold answer at h
  split at h
  · exact absurd h (ResolveStep.sendsNothing_toCall _).lives
  · cases h
  · exact resumeRoute_overflows (died_toCall h)
  · exact answerRoute_overflows (died_toCall h)
  · exact finishHandshake_overflows h
  · cases h
  · exact absurd h (UnlinkStep.sendsNothing_toCall _).lives
  · exact absurd h (UnlinkStep.sendsNothing_toCall _).lives
  · cases h

end Node

namespace System

variable {s : System} {x : Exchange} {e : Event} {id : Nat}

/-- A call that is over is added in front of those that were. -/
theorem died_of_finished {out : CallStep × Node} {id' : Nat}
    (h : (s.settleCall id' out).finished = (id, .died) :: s.finished) : out.1.Died := by
  rcases out with ⟨c | r, n⟩
  · exact absurd h fun heq => List.cons_ne_self _ _ heq.symm
  · obtain ⟨-, rfl⟩ := Prod.mk.inj (List.cons.inj h).1
    trivial

theorem onNode_finished (f : Node → Node) : (s.onNode f).finished = s.finished :=
  rfl

theorem clock_finished (clock : Clock) : ({ s with clock } : System).finished = s.finished :=
  rfl

/-- Only calls come to an end. -/
theorem step_finished (hb : ∀ id r, e ≠ .begin id r) (ha : ∀ id a, e ≠ .answer id a) :
    (s.step x e).finished = s.finished := by
  cases e with
  | begin id r => exact absurd rfl (hb id r)
  | answer id a => exact absurd rfl (ha id a)
  | elapse => exact clock_finished _
  | jump => exact clock_finished _
  | restart => rfl
  | _ => exact onNode_finished _

/-- A task dies only where the expiry of a handshake overflows. -/
theorem dies_overflows (h : s.Dies x e) : s.node.Overflows s.clock := by
  obtain ⟨id, h⟩ := h
  have hsame : s.finished ≠ (id, .died) :: s.finished := fun heq => List.cons_ne_self _ _ heq.symm
  cases e with
  | begin id' r =>
    cases hc : s.calls.lookup id' with
    | some c =>
      rw [step_begin_again hc] at h
      exact absurd h hsame
    | none =>
      rw [step_begin hc] at h
      exact Node.begin_overflows (w := s.surroundings x) (died_of_finished h)
  | answer id' a =>
    cases hc : s.calls.lookup id' with
    | none =>
      rw [step_answer_none hc] at h
      exact absurd h hsame
    | some c =>
      rw [step_answer hc] at h
      exact Node.answer_overflows (w := s.surroundings x) (died_of_finished h)
  | _ =>
    rw [step_finished (by simp) (by simp)] at h
    exact absurd h hsame

end System

end Courier
