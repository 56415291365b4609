import Courier.Proofs.Polling.Activity
import Mathlib.Data.List.Perm.Basic

/-!
# One group among the others

All groups share one queue, and the queue holds a hash only once, for the group for which it came
first. So another group's swarm can keep a message out of the queue by sending the same hash before
it (`Forestalled`), and has no other way to.

* `firsts`: the elements whose key has not come before. Those of one group are its own firsts but
  for the forestalled ones (`filter_firsts`).
* `System.admitted_run`: a store that does not fail admits what comes first, for whatever group.
* `System.pending_run`, `System.activity_kept`: so the queue and the last activity of a group are
  made of what was kept for it (`System.kept`).
* `System.isolated_iff`: two runs that bring the same to a group queue the same for it exactly if
  the same was forestalled in both, and then its last activity is the same.
-/

namespace Courier

/-! ## What comes first -/

section Firsts

variable {α β : Type} [DecidableEq β] {key : α → β}

/-- The elements whose key is not among `seen` and has not come before. -/
def firsts (key : α → β) : List β → List α → List α
  | _, [] => []
  | seen, a :: l =>
    if key a ∈ seen then firsts key seen l else a :: firsts key (key a :: seen) l

theorem firsts_congr {seen seen' : List β} (h : ∀ b, b ∈ seen ↔ b ∈ seen') (l : List α) :
    firsts key seen l = firsts key seen' l := by
  induction l generalizing seen seen' with
  | nil => rfl
  | cons a l ih =>
    have hcons : ∀ b, b ∈ key a :: seen ↔ b ∈ key a :: seen' := by simp [h]
    rw [firsts, firsts, ih h, ih hcons]
    simp only [h]

theorem firsts_append (l l' : List α) (seen : List β) :
    firsts key seen (l ++ l') = firsts key seen l ++ firsts key (seen ++ l.map key) l' := by
  induction l generalizing seen with
  | nil => rw [List.nil_append, List.map_nil, List.append_nil, firsts, List.nil_append]
  | cons a l ih =>
    rw [List.cons_append, firsts, firsts, List.map_cons]
    split
    · next h =>
      rw [ih]
      congr 1
      refine firsts_congr (fun b => ?_) l'
      simp only [List.mem_append, List.mem_cons]
      constructor
      · rintro (hb | hb)
        · exact .inl hb
        · exact .inr (.inr hb)
      · rintro (hb | rfl | hb)
        · exact .inl hb
        · exact .inl h
        · exact .inr hb
    · rw [ih, List.cons_append]
      congr 2
      refine firsts_congr (fun b => ?_) l'
      simp only [List.mem_cons, List.mem_append]
      exact or_left_comm

theorem mem_of_mem_firsts {seen : List β} {l : List α} {a : α} (h : a ∈ firsts key seen l) :
    a ∈ l ∧ key a ∉ seen := by
  induction l generalizing seen with
  | nil => cases h
  | cons b l ih =>
    rw [firsts] at h
    split at h
    · exact ⟨.tail _ (ih h).1, (ih h).2⟩
    · next hb =>
      rcases List.mem_cons.mp h with rfl | h
      · exact ⟨.head _, hb⟩
      · exact ⟨.tail _ (ih h).1, fun hseen => (ih h).2 (.tail _ hseen)⟩

/-- Every key that is not among `seen` comes first once. -/
theorem exists_mem_firsts {seen : List β} {l : List α} {a : α} (h : a ∈ l) (hseen : key a ∉ seen) :
    ∃ b ∈ firsts key seen l, key b = key a := by
  induction l generalizing seen with
  | nil => cases h
  | cons b l ih =>
    by_cases hb : key a = key b
    · rw [firsts, if_neg (hb ▸ hseen)]
      exact ⟨b, .head _, hb.symm⟩
    · have hmem : a ∈ l := by
        rcases List.mem_cons.mp h with rfl | h
        · exact absurd rfl hb
        · exact h
      rw [firsts]
      split
      · exact ih hmem hseen
      · have hseen' : key a ∉ key b :: seen := by simp [hb, hseen]
        obtain ⟨c, hc, hkey⟩ := ih hmem hseen'
        exact ⟨c, .tail _ hc, hkey⟩

end Firsts

/-! ## What another group has forestalled -/

deriving instance DecidableEq for Arrival

/-- A message that has come, and the moment at which it did. -/
structure Heard where
  moment : Int64
  arrival : Arrival
  deriving DecidableEq

namespace Heard

/-- The group for which the message was polled. -/
def group (h : Heard) : GroupId :=
  h.arrival.group

/-- The hash that the swarm gave to the message. -/
def hash (h : Heard) : String :=
  h.arrival.message.hash

/-- The message as activity. -/
def note (h : Heard) : Note :=
  ⟨h.arrival.envelope.timestamp, h.moment⟩

end Heard

section Forestalled

variable {g : GroupId} {hs : List Heard} {h : Heard} {hash : String}

/-- A message with this hash came first for another group. -/
def Forestalled (g : GroupId) (hs : List Heard) (hash : String) : Prop :=
  ∃ h ∈ hs.find? (·.hash = hash), h.group ≠ g

instance (g : GroupId) (hs : List Heard) (hash : String) : Decidable (Forestalled g hs hash) :=
  inferInstanceAs (Decidable (∃ h ∈ _, _))

theorem forestalled_cons_self : Forestalled g (h :: hs) h.hash ↔ h.group ≠ g := by
  unfold Forestalled
  rw [List.find?_cons_of_pos (by simp)]
  simp

theorem forestalled_cons_of_ne (hne : h.hash ≠ hash) :
    Forestalled g (h :: hs) hash ↔ Forestalled g hs hash := by
  unfold Forestalled
  rw [List.find?_cons_of_neg (by simpa using hne)]

/-- The hash of a message is not among `seen`, and it does not come first for another group. -/
def NewFor (g : GroupId) (seen : List String) (hs : List Heard) (h : Heard) : Prop :=
  h.hash ∉ seen ∧ ¬ Forestalled g hs h.hash

instance (g : GroupId) (seen : List String) (hs : List Heard) :
    DecidablePred (NewFor g seen hs) :=
  fun _ => inferInstanceAs (Decidable (_ ∧ _))

variable {x : Heard} {seen : List String}

theorem newFor_cons_of_seen (hx : x.hash ∈ seen) :
    NewFor g seen (x :: hs) h ↔ NewFor g seen hs h := by
  refine and_congr_right fun hh => not_congr (forestalled_cons_of_ne fun heq => ?_)
  exact hh (heq ▸ hx)

theorem newFor_cons_of_ne (hne : h.hash ≠ x.hash) :
    NewFor g seen (x :: hs) h ↔ NewFor g (x.hash :: seen) hs h := by
  unfold NewFor
  rw [forestalled_cons_of_ne hne.symm, List.mem_cons, not_or, and_iff_right hne]

theorem newFor_cons_of_group_ne (hgroup : x.group ≠ g) :
    NewFor g seen (x :: hs) h ↔ NewFor g (x.hash :: seen) hs h := by
  by_cases heq : h.hash = x.hash
  · simp [NewFor, heq, forestalled_cons_self, hgroup]
  · exact newFor_cons_of_ne heq

/-- What comes first and is of a group: what comes first in this group and is new for it. -/
theorem filter_firsts_seen (own : List String) (hsub : own ⊆ seen) (hs : List Heard) :
    (firsts Heard.hash seen hs).filter (·.group = g) =
      (firsts Heard.hash own (hs.filter (·.group = g))).filter (NewFor g seen hs ·) := by
  induction hs generalizing seen own with
  | nil => rfl
  | cons x hs ih =>
    by_cases hx : x.hash ∈ seen
    -- `x` is passed over, and it judges nothing that is not passed over as well
    · have hsame : (NewFor g seen (x :: hs) ·) = (NewFor g seen hs ·) :=
        funext fun h => propext (newFor_cons_of_seen hx)
      simp only [firsts, if_pos hx, hsame]
      by_cases hgroup : x.group = g
      · rw [List.filter_cons_of_pos (by simpa using hgroup), firsts]
        split
        · exact ih own hsub
        · rw [List.filter_cons_of_neg (by simp [NewFor, hx])]
          exact ih (x.hash :: own) (List.cons_subset.mpr ⟨hx, hsub⟩)
      · rw [List.filter_cons_of_neg (by simpa using hgroup)]
        exact ih own hsub
    · rw [firsts, if_neg hx]
      by_cases hgroup : x.group = g
      · have hnew : NewFor g seen (x :: hs) x := ⟨hx, fun h => forestalled_cons_self.mp h hgroup⟩
        rw [List.filter_cons_of_pos (by simpa using hgroup),
          List.filter_cons_of_pos (by simpa using hgroup), firsts, if_neg fun h => hx (hsub h),
          List.filter_cons_of_pos (by simpa using hnew),
          ih (x.hash :: own) (List.cons_subset_cons _ hsub)]
        congr 1
        refine List.filter_congr fun h hh => decide_eq_decide.mpr (newFor_cons_of_ne ?_).symm
        exact fun heq => (mem_of_mem_firsts hh).2 (heq ▸ .head _)
      · rw [List.filter_cons_of_neg (by simpa using hgroup),
          List.filter_cons_of_neg (by simpa using hgroup),
          ih own (List.subset_cons_of_subset _ hsub)]
        exact List.filter_congr fun h _ => decide_eq_decide.mpr (newFor_cons_of_group_ne hgroup).symm

theorem filter_firsts (g : GroupId) (hs : List Heard) :
    (firsts Heard.hash [] hs).filter (·.group = g) =
      (firsts Heard.hash [] (hs.filter (·.group = g))).filter
        fun h => ¬ Forestalled g hs h.hash := by
  rw [filter_firsts_seen [] (List.Subset.refl [])]
  simp [NewFor]

end Forestalled

/-! ## A store that does not fail -/

namespace Store

variable {s : Store} {clock : Clock} {a : Arrival} {hash : String}

theorem queued_offer (hrel : s.Reliable) :
    (s.offer clock a).Queued hash ↔ s.Queued hash ∨ a.message.hash = hash := by
  unfold offer
  rw [queued_enqueueInbound, a.serverHash_queued]
  simp [hrel s.calls .enqueueInbound]

theorem queued_foldl_offer (hrel : s.Reliable) (as : List Arrival) :
    (as.foldl (offer clock) s).Queued hash ↔
      s.Queued hash ∨ hash ∈ as.map (·.message.hash) := by
  induction as generalizing s with
  | nil => simp
  | cons a as ih =>
    have hrel' : (s.offer clock a).Reliable := hrel.effect_enqueueInbound clock a.queued
    rw [List.foldl_cons, ih hrel', queued_offer hrel, List.map_cons, List.mem_cons, or_assoc,
      eq_comm]

/-- It accepts what comes first. -/
theorem accepted_eq_firsts (hrel : s.Reliable) {seen : List String}
    (hseen : ∀ hash, s.Queued hash ↔ hash ∈ seen) (moment : Int64) (as : List Arrival) :
    (accepted clock s as).map (Heard.mk moment) =
      firsts Heard.hash seen (as.map (Heard.mk moment)) := by
  induction as generalizing s seen with
  | nil => rfl
  | cons a as ih =>
    have hrel' : (s.offer clock a).Reliable := hrel.effect_enqueueInbound clock a.queued
    have haccepts : s.accepts clock a = true ↔ a.message.hash ∉ seen := by
      rw [accepts_iff, hseen]
      exact and_iff_right (hrel _ _)
    rw [accepted, List.map_cons, firsts]
    show _ = if a.message.hash ∈ seen then _ else _
    by_cases ha : a.message.hash ∈ seen
    · rw [if_neg fun h => haccepts.mp h ha, if_pos ha]
      refine ih hrel' fun hash => ?_
      rw [queued_offer hrel, hseen]
      exact ⟨fun h => h.elim id fun heq => heq ▸ ha, .inl⟩
    · rw [if_pos (haccepts.mpr ha), if_neg ha, List.map_cons]
      congr 1
      refine ih hrel' fun hash => ?_
      rw [queued_offer hrel, hseen, List.mem_cons, or_comm, eq_comm]
      rfl

end Store

/-- What the queue gives out of the messages that it keeps. -/
theorem mapM_read_of_kept {as : List Arrival} {js : List StoredJob}
    (h : List.Forall₂ Arrival.KeptIn as js) :
    ∃ jobs, js.mapM StoredJob.read = .ok jobs ∧ jobs.length = js.length ∧
      jobs.map (·.envelope) = as.map Arrival.queued := by
  induction h with
  | nil => exact ⟨[], rfl, rfl, rfl⟩
  | @cons a j as js hkept _ ih =>
    obtain ⟨jobs, hjobs, hlength, henvelopes⟩ := ih
    have hread : j.read = .ok ⟨j.id, a.queued, j.enqueuedAt⟩ := by
      unfold StoredJob.read
      rw [hkept.2, InboundEnvelope.ofText?_encode]
    refine ⟨⟨j.id, a.queued, j.enqueuedAt⟩ :: jobs, ?_, by simp [hlength], by simp [henvelopes]⟩
    rw [List.mapM_cons, hread, hjobs]
    rfl

/-! ## Runs -/

namespace System

variable {s : System} {x : Exchange} {e : Event} {g : GroupId} {hash : String} {seen : List String}

/-- What an event brings, and when. -/
def heardBy (s : System) (e : Event) : List Heard :=
  (s.brings e).map (Heard.mk s.clock.now)

/-- What a run brings to all groups, in the order in which it comes. -/
def heardAll : System → List (Exchange × Event) → List Heard
  | _, [] => []
  | s, (x, e) :: events => s.heardBy e ++ heardAll (s.step x e) events

/-- What a run brings to one group. -/
def heardOf (g : GroupId) (s : System) (events : List (Exchange × Event)) : List Heard :=
  (s.heardAll events).filter (·.group = g)

/-- What the store accepts in a run, and when. -/
def admitted : System → List (Exchange × Event) → List Heard
  | _, [] => []
  | s, (x, e) :: events =>
    (s.accepted e).map (Heard.mk s.clock.now) ++ admitted (s.step x e) events

/-- What a run notes of the node's own messages to a group. -/
def ownNotes (g : GroupId) : System → List (Exchange × Event) → List Note
  | _, [] => []
  | s, (x, e) :: events =>
    (s.step x e).node.store.sentNotes s.clock (s.delivered x e) g ++
      ownNotes g (s.step x e) events

/-- An event queues the hashes that it brings. -/
theorem queued_step_iff (hrel : s.node.store.Reliable) (x : Exchange) (e : Event) :
    (s.step x e).node.store.Queued hash ↔
      s.node.store.Queued hash ∨ hash ∈ (s.heardBy e).map Heard.hash := by
  unfold Store.Queued
  cases e with
  | batch generation a =>
    have hdb : (s.step x (.batch generation a)).node.store.db =
        ((s.brings (.batch generation a)).foldl (Store.offer s.clock) s.node.store).db := by
      rw [Store.db_foldl_offer]
      exact Node.db_fetched_eq
    have hhashes : (s.heardBy (.batch generation a)).map Heard.hash =
        (s.brings (.batch generation a)).map (·.message.hash) := List.map_map
    rw [hdb, hhashes]
    exact Store.queued_foldl_offer hrel _
  | _ =>
    rw [inbound_step (by rintro _ _ ⟨⟩), or_iff_left]
    exact List.not_mem_nil

/-- What is admitted is what comes first, for whatever group. -/
theorem admitted_run (hrel : s.node.store.Reliable)
    (hseen : ∀ hash, s.node.store.Queued hash ↔ hash ∈ seen) (events : List (Exchange × Event)) :
    s.admitted events = firsts Heard.hash seen (s.heardAll events) := by
  induction events generalizing s seen with
  | nil => rfl
  | cons p events ih =>
    have hone : (s.accepted p.2).map (Heard.mk s.clock.now) =
        firsts Heard.hash seen (s.heardBy p.2) := by
      cases p.2 with
      | batch generation a => exact Store.accepted_eq_firsts hrel hseen s.clock.now _
      | _ => rfl
    have hseen' : ∀ hash, (s.step p.1 p.2).node.store.Queued hash ↔
        hash ∈ seen ++ (s.heardBy p.2).map Heard.hash := by
      intro hash
      rw [queued_step_iff hrel, hseen, List.mem_append]
    rw [admitted, heardAll, firsts_append, hone, ih (reliable_step hrel p.1 p.2) hseen']

/-- An event adds a job for each message that is accepted. -/
theorem queue_step (s : System) (x : Exchange) (e : Event) :
    ∃ new, (s.step x e).node.store.db.inbound.jobs = s.node.store.db.inbound.jobs ++ new ∧
      List.Forall₂ Arrival.KeptIn (s.accepted e) new := by
  cases e with
  | batch generation a =>
    have hdb : (s.step x (.batch generation a)).node.store.db = _ := Node.db_fetched_eq
    rw [hdb]
    exact foldl_withArrival_jobs _ _ _
  | _ =>
    refine ⟨[], ?_, .nil⟩
    rw [inbound_step (by rintro _ _ ⟨⟩), List.append_nil]

/-- So does a run. -/
theorem queue_run (s : System) (events : List (Exchange × Event)) :
    ∃ new, (s.run events).node.store.db.inbound.jobs = s.node.store.db.inbound.jobs ++ new ∧
      List.Forall₂ Arrival.KeptIn ((s.admitted events).map (·.arrival)) new := by
  induction events generalizing s with
  | nil => exact ⟨[], (List.append_nil _).symm, .nil⟩
  | cons p events ih =>
    obtain ⟨new, hnew, hkept⟩ := s.queue_step p.1 p.2
    obtain ⟨later, hlater, hkept'⟩ := ih (s.step p.1 p.2)
    have harrivals : ((s.accepted p.2).map (Heard.mk s.clock.now)).map (·.arrival) =
        s.accepted p.2 := by
      rw [List.map_map]
      exact List.map_id _
    refine ⟨new ++ later, ?_, ?_⟩
    · rw [← List.append_assoc, ← hnew]
      exact hlater
    · rw [admitted, List.map_append, harrivals]
      exact List.rel_append hkept hkept'

/-- What a run notes for a group, apart from the order: what is admitted for it, and its own. -/
theorem noted_perm (s : System) (events : List (Exchange × Event)) :
    (s.noted g events).Perm
      (((s.admitted events).filter (·.group = g)).map Heard.note ++ s.ownNotes g events) := by
  induction events generalizing s with
  | nil => exact .refl _
  | cons p events ih =>
    have hone : notesOf s.clock (s.accepted p.2) g =
        (((s.accepted p.2).map (Heard.mk s.clock.now)).filter (·.group = g)).map Heard.note := by
      rw [List.filter_map, List.map_map]
      rfl
    have hrest := ih (s.step p.1 p.2)
    rw [noted, notes, admitted, ownNotes, List.filter_append, List.map_append, hone]
    simp only [List.append_assoc]
    refine .append_left _ ((List.Perm.append_left _ hrest).trans ?_)
    simp only [← List.append_assoc]
    exact List.perm_append_comm.append_right _

/-! ## Two runs -/

/-- The messages of a group that were not forestalled, each hash once. -/
def kept (g : GroupId) (s : System) (events : List (Exchange × Event)) : List Heard :=
  (firsts Heard.hash [] (s.heardOf g events)).filter
    fun h => ¬ Forestalled g (s.heardAll events) h.hash

/-- From an empty queue they are what is admitted for the group. -/
theorem filter_admitted (hrel : s.node.store.Reliable) (hempty : s.node.store.db.inbound = .empty)
    (events : List (Exchange × Event)) :
    (s.admitted events).filter (·.group = g) = s.kept g events := by
  have hnone : ∀ hash, s.node.store.Queued hash ↔ hash ∈ ([] : List String) := by
    intro hash
    unfold Store.Queued
    rw [hempty]
    simp [JobTable.Holds, JobTable.empty]
  rw [admitted_run hrel hnone, filter_firsts]
  rfl

/-- The envelopes of a group among some jobs. -/
def envelopesOf (g : GroupId) (jobs : List InboundJob) : List InboundEnvelope :=
  (jobs.filter (·.envelope.groupId = some g)).map (·.envelope)

theorem envelopesOf_eq {jobs : List InboundJob} {hs : List Heard}
    (h : jobs.map (·.envelope) = (hs.map (·.arrival)).map Arrival.queued) :
    envelopesOf g jobs = (hs.filter (·.group = g)).map (·.arrival.queued) := by
  have hjobs : envelopesOf g jobs = (jobs.map (·.envelope)).filter (·.groupId = some g) := by
    rw [List.filter_map]
    rfl
  rw [hjobs, h, List.map_map, List.filter_map]
  congr 1
  refine List.filter_congr fun h _ => decide_eq_decide.mpr ?_
  exact Option.some_inj

/-- What the queue gives out for a group after a run. -/
theorem pending_run (hrel : s.node.store.Reliable) (hempty : s.node.store.db.inbound = .empty)
    (events : List (Exchange × Event)) :
    ∃ jobs, (∀ limit, jobs.length ≤ limit →
        ((Store.pendingInbound limit).attempt (s.run events).node.store).1 = .ok jobs) ∧
      ∀ g, envelopesOf g jobs = (s.kept g events).map (·.arrival.queued) := by
  obtain ⟨new, hnew, hkept⟩ := s.queue_run events
  rw [hempty] at hnew
  obtain ⟨jobs, hread, hlength, henvelopes⟩ := mapM_read_of_kept hkept
  refine ⟨jobs, fun limit hlimit => ?_, fun g => ?_⟩
  · have hrel' : (s.run events).node.store.Reliable := fun k call => by
      rw [outage_run]
      exact hrel k call
    have hall : (s.run events).node.store.db.inbound.first limit = .ok jobs := by
      unfold JobTable.first
      rw [hnew]
      show (new.take limit).mapM _ = _
      rw [List.take_of_length_le (hlength ▸ hlimit)]
      exact hread
    unfold Store.pendingInbound Store.query
    rw [StoreM.attempt_call, hrel']
    simp only [hall]
  · rw [envelopesOf_eq henvelopes, filter_admitted hrel hempty]

/-- The last activity of a group after a run: of what was kept for it, and of its own messages. -/
theorem activity_kept (h : s.Anchored) (hrel : s.node.store.Reliable)
    (hempty : s.node.store.db.inbound = .empty) (events : List (Exchange × Event)) :
    (s.run events).lastActivity g =
      ((s.kept g events).map Heard.note ++ s.ownNotes g events).foldl Note.after
        (s.lastActivity g) := by
  have hperm := s.noted_perm (g := g) events
  rw [filter_admitted hrel hempty] at hperm
  rw [activity_run h]
  exact hperm.foldl_eq _

/-- Of the messages of a group, the same are forestalled in two runs. -/
def ForestalledAlike (g : GroupId) (s : System) (events events' : List (Exchange × Event)) : Prop :=
  ∀ h ∈ s.heardOf g events,
    (Forestalled g (s.heardAll events) h.hash ↔ Forestalled g (s.heardAll events') h.hash)

instance (g : GroupId) (s : System) (events events' : List (Exchange × Event)) :
    Decidable (s.ForestalledAlike g events events') :=
  inferInstanceAs (Decidable (∀ h ∈ _, _))

section TwoRuns

variable {events events' : List (Exchange × Event)}

theorem kept_congr (hheard : s.heardOf g events = s.heardOf g events')
    (h : s.ForestalledAlike g events events') : s.kept g events = s.kept g events' := by
  unfold kept
  rw [← hheard]
  refine List.filter_congr fun m hm => decide_eq_decide.mpr (not_congr ?_)
  exact h m (mem_of_mem_firsts hm).1

theorem mem_kept {m : Heard} :
    m ∈ s.kept g events ↔
      m ∈ firsts Heard.hash [] (s.heardOf g events) ∧ ¬ Forestalled g (s.heardAll events) m.hash := by
  simp [kept]

/-- A message that is kept in one run and not in the other shows in the envelopes. -/
theorem forestalled_of_kept
    (h : (s.kept g events).map (·.arrival.queued) = (s.kept g events').map (·.arrival.queued))
    {m : Heard} (hm : m ∈ firsts Heard.hash [] (s.heardOf g events))
    (hforestalled : Forestalled g (s.heardAll events') m.hash) :
    Forestalled g (s.heardAll events) m.hash := by
  by_contra hnot
  have hmem : m.arrival.queued ∈ (s.kept g events').map (·.arrival.queued) := by
    rw [← h]
    exact List.mem_map_of_mem (mem_kept.mpr ⟨hm, hnot⟩)
  obtain ⟨m', hm', hqueued⟩ := List.mem_map.mp hmem
  have hhash : m'.hash = m.hash := by
    have := congrArg InboundEnvelope.serverHash hqueued
    rw [m'.arrival.serverHash_queued, m.arrival.serverHash_queued] at this
    exact Option.some.inj this
  exact (mem_kept.mp hm').2 (hhash ▸ hforestalled)

theorem kept_queued_iff (hheard : s.heardOf g events = s.heardOf g events') :
    (s.kept g events).map (·.arrival.queued) = (s.kept g events').map (·.arrival.queued) ↔
      s.ForestalledAlike g events events' := by
  refine ⟨fun h m hm => ?_, fun h => by rw [kept_congr hheard h]⟩
  obtain ⟨m', hm', hhash⟩ : ∃ m' ∈ firsts Heard.hash [] (s.heardOf g events), m'.hash = m.hash :=
    exists_mem_firsts hm List.not_mem_nil
  rw [← hhash]
  exact ⟨forestalled_of_kept h.symm (hheard ▸ hm'), forestalled_of_kept h hm'⟩

/-- For two runs of a node from an empty store that does not fail, with any events and any batches of
the other groups, that bring the same messages to a group at the same times and note the same of the
node's own messages to it: the queue holds the same envelopes for this group in the same order after
both, exactly if the runs agree on which of its messages were forestalled, their hash having come
first for another group. And then the last activity of the group is the same. -/
theorem isolated_iff (settings : Settings) (clock : Clock) (g : GroupId)
    (events events' : List (Exchange × Event)) :
    let start := idle (.assemble settings (.reliable .empty)) clock
    start.heardOf g events = start.heardOf g events' →
    start.ownNotes g events = start.ownNotes g events' →
    ∃ jobs jobs',
      (∀ limit, jobs.length ≤ limit →
        ((Store.pendingInbound limit).attempt (start.run events).node.store).1 = .ok jobs) ∧
      (∀ limit, jobs'.length ≤ limit →
        ((Store.pendingInbound limit).attempt (start.run events').node.store).1 = .ok jobs') ∧
      (envelopesOf g jobs = envelopesOf g jobs' ↔ start.ForestalledAlike g events events') ∧
      (start.ForestalledAlike g events events' →
        (start.run events).lastActivity g = (start.run events').lastActivity g) := by
  intro start hheard hown
  have hrel : start.node.store.Reliable := fun _ _ => rfl
  have hanchored : start.Anchored := anchored_idle rfl clock
  obtain ⟨jobs, hjobs, henvelopes⟩ := pending_run hrel rfl events
  obtain ⟨jobs', hjobs', henvelopes'⟩ := pending_run hrel rfl events'
  refine ⟨jobs, jobs', hjobs, hjobs', ?_, fun halike => ?_⟩
  · rw [henvelopes, henvelopes']
    exact kept_queued_iff hheard
  · rw [activity_kept hanchored hrel rfl, activity_kept hanchored hrel rfl,
      kept_congr hheard halike, hown]

end TwoRuns

/-! ## Two swarms -/

/-- A poll of "other" brings some messages, and then one of "g" brings some. -/
def bothPolled (others messages : List RawMessage) : List (Exchange × Event) :=
  [(.quiet, .startPolling "other"), (.quiet, .run 0),
    (.quiet, .nodes 0 0 (.ok [⟨"n", 1, none⟩])), (.quiet, .grant 0),
    (.quiet, .batch 0 (.ok ⟨others, none⟩)),
    (.quiet, .startPolling "g"), (.quiet, .run 0),
    (.quiet, .nodes 1 0 (.ok [⟨"n", 1, none⟩])), (.quiet, .grant 1),
    (.quiet, .batch 1 (.ok ⟨messages, none⟩))]

/-- The other swarm sends two different messages, but none under the hash of the message of "g". -/
theorem isolated_from_other_hashes :
    let start := idle (.assemble Config.default.settings (.reliable .empty)) ⟨0, 0⟩
    let events := bothPolled [foreign "h1"] [foreign "h"]
    let events' := bothPolled [foreign "h2", ⟨"bad", [], none⟩] [foreign "h"]
    start.heardOf "g" events = start.heardOf "g" events' ∧
      start.ownNotes "g" events = start.ownNotes "g" events' ∧
      (start.heardOf "g" events).map (·.hash) = ["h"] ∧
      start.ForestalledAlike "g" events events' ∧
      (start.run events).lastActivity "g" = (start.run events').lastActivity "g" := by
  intro start events events'
  have hheard : start.heardOf "g" events = start.heardOf "g" events' := by decide +kernel
  have hown : start.ownNotes "g" events = start.ownNotes "g" events' := by decide +kernel
  have halike : start.ForestalledAlike "g" events events' := by decide +kernel
  obtain ⟨-, -, -, -, -, hactivity⟩ :=
    isolated_iff Config.default.settings ⟨0, 0⟩ "g" events events' hheard hown
  exact ⟨hheard, hown, by decide +kernel, halike, hactivity halike⟩

/-- The two runs bring the same to "g", and the queue differs: in one of them the other swarm has
sent the hash of the message of "g" before it. Then the message is not queued and is no activity. -/
theorem suppressed_by_other_swarm :
    let start := idle (.assemble Config.default.settings (.reliable .empty)) ⟨0, 0⟩
    let events := bothPolled [] [foreign "h"]
    let events' := bothPolled [foreign "h"] [foreign "h"]
    let queued (events : List (Exchange × Event)) :=
      ((Store.pendingInbound 10).attempt (start.run events).node.store).1.toOption.map
        (envelopesOf "g")
    start.heardOf "g" events = start.heardOf "g" events' ∧
      start.ownNotes "g" events = start.ownNotes "g" events' ∧
      queued events = some [⟨1, "alice", some "g", 0, [1], some "h"⟩] ∧ queued events' = some [] ∧
      (start.run events).lastActivity "g" = some 0 ∧
      (start.run events').lastActivity "g" = none := by
  decide +kernel

end System

end Courier
