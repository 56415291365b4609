import Courier.Proofs.Routing.Sends
import Courier.Proofs.Store.Threads

/-!
# Nothing but a session's acceptance creates a link

A control message changes a node in one way only: the session that was active when it came accepts
the authorisation that it carries.

* `mem_ofMaster_put`, `mem_upsert`: a signed link takes the place of its pairing, in the cache and
  in the store.
* `ThreadTable.Trusts`, `ProfileRows.Overwrites`: what the acceptance does to the conversation with
  the other side and to the master's profile, and that it does nothing else to these tables.
* `Node.authorize_links`: an accepted authorisation does these and no others (`Node.Links`).
* `System.links_only_by_acceptance`: a message, from its arrival to the verdict about it, whatever
  happens in between.
-/

namespace Courier

/-! ## Control messages -/

/-- Both sides have signed the link. -/
def DeviceLink.Signed (l : DeviceLink) : Prop :=
  l.master.signature.isSome ∧ l.slave.signature.isSome

namespace LinkControl

variable {m : LinkControl} {master slave : Identity} {ms ss : Octets}

/-- The message asks `master` to link with `slave`: it bears the slave's signature alone. -/
structure Requests (m : LinkControl) (master slave : Identity) : Prop where
  master : m.master = some master
  slave : m.slave = some slave
  slaveSigned : m.slaveSignature.isSome
  masterUnsigned : m.masterSignature = none

/-- The message authorises a link: it bears the signatures of both sides. -/
structure Authorizes (m : LinkControl) (l : DeviceLink) : Prop where
  master : m.master = some l.master.identity
  slave : m.slave = some l.slave.identity
  masterSignature : m.masterSignature = l.master.signature
  slaveSignature : m.slaveSignature = l.slave.signature
  signed : l.Signed

theorem requests_of_intent (h : m.intent = .ok (.request master slave ss)) :
    m.Requests master slave := by
  obtain ⟨sender, _ | _, _ | _, _ | _, _ | _, profile⟩ := m <;> cases h
  exact ⟨rfl, rfl, rfl, rfl⟩

theorem intent_of_requests (h : m.Requests master slave) :
    ∃ ss, m.intent = .ok (.request master slave ss) := by
  obtain ⟨ss, hss⟩ := Option.isSome_iff_exists.mp h.slaveSigned
  refine ⟨ss, ?_⟩
  unfold intent
  simp only [h.master, h.slave, hss, h.masterUnsigned]

theorem authorizes_of_intent (h : m.intent = .ok (.authorization master slave ms ss)) :
    m.Authorizes ⟨⟨master, some ms⟩, ⟨slave, some ss⟩⟩ := by
  obtain ⟨sender, _ | _, _ | _, _ | _, _ | _, profile⟩ := m <;> cases h
  exact ⟨rfl, rfl, rfl, rfl, rfl, rfl⟩

end LinkControl

/-! ## Links -/

/-- A link takes the place of its pairing in the group of its master; no other group changes. -/
theorem LinkTable.mem_ofMaster_put {t : LinkTable} {l x : DeviceLink} {k : Identity} :
    x ∈ (t.put l).ofMaster k ↔
      (k = l.master.identity ∧ x = l) ∨
        x ∈ t.ofMaster k ∧ ¬ (k = l.master.identity ∧ l.SamePair x) := by
  unfold put
  rw [ofMaster_modify]
  by_cases hk : k = l.master.identity
  · subst hk
    simp [or_comm]
  · simp [hk]

/-- So does a link in the stored rows, if both sides have signed it. -/
theorem LinkRows.mem_upsert {rows : LinkRows} {l x : DeviceLink} (hl : l.Signed) :
    x ∈ rows.upsert l ↔ x = l ∨ x ∈ rows ∧ ¬ l.SamePair x := by
  have hmerged (r : DeviceLink) : merged r l = l := by
    obtain ⟨⟨master, _ | ms⟩, ⟨slave, _ | ss⟩⟩ := l
    · exact absurd hl.1 Bool.false_ne_true
    · exact absurd hl.1 Bool.false_ne_true
    · exact absurd hl.2 Bool.false_ne_true
    · rfl
  unfold upsert
  simp only [hmerged]
  split
  · next hany =>
    obtain ⟨r, hr, hsame⟩ := List.any_eq_true.mp hany
    have hsame : l.SamePair r := of_decide_eq_true hsame
    rw [List.mem_map]
    constructor
    · rintro ⟨y, hy, rfl⟩
      by_cases hp : l.SamePair y
      · exact .inl (if_pos hp)
      · rw [if_neg hp]
        exact .inr ⟨hy, hp⟩
    · rintro (rfl | ⟨hx, hp⟩)
      · exact ⟨r, hr, if_pos hsame⟩
      · exact ⟨x, hx, if_neg hp⟩
  · next hnone =>
    have hother (hx : x ∈ rows) : ¬ l.SamePair x := fun hp =>
      hnone (List.any_eq_true.mpr ⟨x, hx, decide_eq_true hp⟩)
    rw [List.mem_append, List.mem_singleton, or_comm, and_iff_left_of_imp hother]

/-! ## The conversation with the other side -/

namespace ThreadTable

variable {t : ThreadTable} {i : Identity}

/-- Trust with `i` has been recorded, unless its row cannot be read; no other row has changed. -/
structure Trusts (t : ThreadTable) (i : Identity) (t' : ThreadTable) : Prop where
  others : t.Spares .contact i t'
  /-- The conversation is established for good, and otherwise what it was; a new one is hidden. -/
  established : ∀ old, t.contact i = .ok old →
    ∃ row, t'.contact i = .ok (some row) ∧
      row.handshakeState = .established ∧ row.handshakeExpiresAt = none ∧
      row.hidden = (old.map (·.hidden)).getD true ∧
      row.lastMessageAt = old.bind (·.lastMessageAt) ∧ ∀ r, old = some r → row.id = r.id
  unreadable : ∀ e, t.contact i = .error e → t'.rows = t.rows

theorem contact_eq_ok {old : Option ThreadRow} (h : t.contact i = .ok old) :
    t.find? .contact i = none ∧ old = none ∨
      ∃ r row, t.find? .contact i = some r ∧ r.read = .ok row ∧ old = some row := by
  unfold contact at h
  cases hr : t.find? .contact i with
  | none =>
    rw [hr] at h
    cases h
    exact .inl ⟨rfl, rfl⟩
  | some r =>
    rw [hr] at h
    cases hread : r.read with
    | error e => simp [hread, Except.map] at h
    | ok row =>
      simp only [hread, Except.map, Except.ok.injEq] at h
      exact .inr ⟨r, row, rfl, hread, h.symm⟩

/-- A conversation that can be read, or is missing, is opened and marked as established. -/
theorem trusts_of_readable {old : Option ThreadRow} (h : t.contact i = .ok old) :
    t.Trusts i ((t.ensure .contact i true).writeState i .established none).2 := by
  have hkeys := keepsKeys_writeState .established none
  refine ⟨spares_ensure.trans (spares_update hkeys), fun old' h' => ?_, fun e he => ?_⟩
  · obtain rfl : old' = old := by rw [h] at h'; cases h'; rfl
    obtain ⟨row, hfetch, hrow⟩ := contact_ensure h true
    refine ⟨_, contact_writeState hrow .established none, rfl, rfl, ?_⟩
    obtain ⟨hnone, rfl⟩ | ⟨r, row', hr, hread, rfl⟩ := contact_eq_ok h
    · unfold fetch at hfetch
      rw [find?_ensure, if_pos ⟨rfl, rfl⟩, hnone] at hfetch
      cases hfetch
      exact ⟨rfl, rfl, nofun⟩
    · unfold fetch at hfetch
      rw [find?_ensure, if_pos ⟨rfl, rfl⟩, hr, Option.getD_some] at hfetch
      obtain rfl : row' = row := by
        have := hread.symm.trans hfetch
        cases this
        rfl
      exact ⟨rfl, rfl, fun _ hr' => by cases hr'; rfl⟩
  · rw [h] at he
    cases he

theorem trusts_of_unreadable {e : StoreError} (h : t.contact i = .error e) :
    t.Trusts i (t.ensure .contact i true) := by
  refine ⟨spares_ensure, fun old h' => ?_, fun _ _ => ?_⟩
  · rw [h] at h'
    cases h'
  · unfold contact at h
    unfold ensure
    cases hr : t.find? .contact i with
    | none => simp [hr] at h
    | some r => rfl

end ThreadTable

/-- With a store that does not fail, recording trust does this and nothing else. -/
theorem Store.Reliable.db_markEstablished {s : Store} (h : s.Reliable) (i : Identity) :
    ∃ threads, s.db.threads.Trusts i threads ∧
      ((markEstablished i).effect s).db = { s.db with threads } ∧
      ((markEstablished i).effect s).Reliable := by
  have hget : (Store.getOrCreateContactThread i true).attempt s = _ := h.attempt_call _ _
  unfold markEstablished StoreM.effect
  rw [StoreM.attempt_bind, hget]
  dsimp only [Store.ensured]
  cases hc : s.db.threads.contact i with
  | error e =>
    rw [ThreadTable.fetch_ensure_of_error hc]
    exact ⟨_, ThreadTable.trusts_of_unreadable hc, rfl, h⟩
  | ok old =>
    obtain ⟨row, hfetch, -⟩ := ThreadTable.contact_ensure hc true
    rw [hfetch]
    refine ⟨_, ThreadTable.trusts_of_readable hc, ?_⟩
    have hrel : Store.Reliable { s with calls := s.calls + 1, db :=
        { s.db with threads := s.db.threads.ensure .contact i true } } := h
    dsimp only
    rw [StoreM.attempt_bind, Store.writeHandshakeState, Store.change, hrel.attempt_call]
    exact ⟨rfl, h⟩

/-! ## The master's profile -/

namespace ProfileRows

variable {rows : ProfileRows} {clock : Clock} {i : Identity}

/-- The profile of `i` is the old one with the fields that an update carries written over it; no
other profile has changed, and without an update that says something none has. -/
structure Overwrites (rows : ProfileRows) (i : Identity) (update : Option ProfileUpdate)
    (rows' : ProfileRows) : Prop where
  others : rows'.filter (·.identity ≠ i) = rows.filter (·.identity ≠ i)
  displayName : (rows'.find? i).bind (·.displayName) =
    (update.bind (·.displayName)).or ((rows.find? i).bind (·.displayName))
  profileKey : (rows'.find? i).bind (·.profileKey) =
    (update.bind (·.profileKey)).or ((rows.find? i).bind (·.profileKey))
  unchanged : update.all (·.isEmpty) → rows' = rows

theorem overwrites_self {update : Option ProfileUpdate} (h : update.all (·.isEmpty)) :
    rows.Overwrites i update rows := by
  have hfields : update.bind (·.displayName) = none ∧ update.bind (·.profileKey) = none := by
    obtain _ | ⟨_ | name, _ | key⟩ := update <;> simp_all [ProfileUpdate.isEmpty]
  exact ⟨rfl, by rw [hfields.1, Option.none_or], by rw [hfields.2, Option.none_or], fun _ => rfl⟩

theorem overwrites_write {update : ProfileUpdate} (h : update.isEmpty = false) :
    rows.Overwrites i (some update) (rows.write clock i update) := by
  have hunchanged (hempty : (some update).all (·.isEmpty) = true) (rows' : ProfileRows) :
      rows' = rows := by simp [h] at hempty
  unfold write
  dsimp only
  cases hr : rows.find? i with
  | none =>
    unfold ProfileRows.find? at hr
    refine ⟨by simp, ?_, ?_, fun he => hunchanged he _⟩ <;>
      simp [ProfileRows.find?, List.find?_append, hr]
  | some r =>
    have hi : r.identity = i := by simpa using List.find?_some hr
    let written (r : ProfileRow) : ProfileRow :=
      { r with
        displayName := update.displayName.or r.displayName
        profileKey := update.profileKey.or r.profileKey
        updatedAt := Calendar.timestampText clock.wall }
    have hfind : ProfileRows.find? (rows.map fun r => if r.identity = i then written r else r) i =
        some (written r) := by
      unfold ProfileRows.find? at hr ⊢
      rw [List.find?_map, show _ ∘ _ = fun r : ProfileRow => decide (r.identity = i) from ?_, hr,
        Option.map_some, if_pos hi]
      funext r
      by_cases hr : r.identity = i <;> simp [written, hr]
    refine ⟨filter_not_map_ite (f := written) (fun _ h => h) rows, ?_, ?_,
      fun he => hunchanged he _⟩
    · rw [hr]
      exact congrArg (·.bind (·.displayName)) hfind
    · rw [hr]
      exact congrArg (·.bind (·.profileKey)) hfind

end ProfileRows

/-! ## An accepted authorisation -/

namespace Node

variable {n : Node} {clock : Clock} {l : DeviceLink} {profile : Option ProfileUpdate}

/-- The other side of a link: the master for the slave, the slave for everyone else. -/
def counterpart (n : Node) (l : DeviceLink) : Identity :=
  if n.settings.localIdentity = l.slave.identity then l.master.identity else l.slave.identity

/-- What recording a link does to a node: the link is in the cache and in the store with its
signatures, trust with the other side is recorded, the master's profile takes over what came along,
and everything else is what it was. -/
structure Links (n : Node) (l : DeviceLink) (profile : Option ProfileUpdate) (n' : Node) :
    Prop where
  cached : ∀ k x, x ∈ n'.links.table.ofMaster k ↔ (k = l.master.identity ∧ x = l) ∨
    x ∈ n.links.table.ofMaster k ∧ ¬ (k = l.master.identity ∧ l.SamePair x)
  refreshed : n'.links.refreshed = n.links.refreshed
  stored : ∀ x, x ∈ n'.store.db.links ↔ x = l ∨ x ∈ n.store.db.links ∧ ¬ l.SamePair x
  trusted : n.store.db.threads.Trusts (n.counterpart l) n'.store.db.threads
  profiled : n.store.db.profiles.Overwrites l.master.identity profile n'.store.db.profiles
  inbound : n'.store.db.inbound = n.store.db.inbound
  unlinked : n'.store.db.unlinked = n.store.db.unlinked
  /-- Neither the settings nor what the node is busy with, and no signal is given. -/
  rest : { n' with links := n.links, store := n.store } = n

/-- What came along is stored unless it says nothing, and nothing else is touched. -/
theorem applyProfile_of_reliable (h : n.store.Reliable) (clock : Clock) (master : Identity)
    (profile : Option ProfileUpdate) :
    ∃ store profiles, n.applyProfile clock master profile =
        (profile.any (!·.isEmpty), { n with store }) ∧
      n.store.db.profiles.Overwrites master profile profiles ∧
      store.db = { n.store.db with profiles } := by
  unfold applyProfile
  cases hp : profile.filter (!·.isEmpty) with
  | none =>
    have hempty : profile.all (·.isEmpty) := by
      obtain _ | update := profile
      · rfl
      · simpa [Option.filter] using hp
    have hany : profile.any (!·.isEmpty) = false := by
      obtain _ | update := profile
      · rfl
      · simpa using hempty
    exact ⟨n.store, n.store.db.profiles, by rw [hany], ProfileRows.overwrites_self hempty, rfl⟩
  | some update =>
    obtain ⟨rfl, hnonempty⟩ : profile = some update ∧ update.isEmpty = false := by
      obtain _ | update' := profile
      · cases hp
      · obtain ⟨hnonempty, rfl⟩ := by simpa [Option.filter] using hp
        exact ⟨rfl, hnonempty⟩
    have hany : (some update).any (!·.isEmpty) = true := by
      show (!update.isEmpty) = true
      rw [hnonempty]
      rfl
    rw [hany]
    dsimp only
    unfold attempt Store.writeProfile Store.change
    rw [h.attempt_call]
    exact ⟨_, _, rfl, ProfileRows.overwrites_write hnonempty, rfl⟩

/-- An accepted authorisation, with a store that does not fail. -/
theorem authorize_links (h : n.store.Reliable) (clock : Clock) (master slave : Identity)
    (ms ss : Octets) (profile : Option ProfileUpdate) :
    (n.authorize clock master slave ms ss profile).1 = .authorized (profile.any (!·.isEmpty)) ∧
      n.Links ⟨⟨master, some ms⟩, ⟨slave, some ss⟩⟩ profile
        (n.authorize clock master slave ms ss profile).2 := by
  let l : DeviceLink := ⟨⟨master, some ms⟩, ⟨slave, some ss⟩⟩
  -- the link is recorded, then the trust, then the profile
  let recorded : Node := { n with links := { n.links with table := n.links.table.put l }
                                  store := (Store.upsertDeviceLink l).effect n.store }
  have hrecorded : recorded.store = { n.store with
      calls := n.store.calls + 1
      db := { n.store.db with links := n.store.db.links.upsert l } } := by
    show (Store.upsertDeviceLink l).effect n.store = _
    unfold Store.upsertDeviceLink
    rw [StoreM.effect_change, if_pos (h _ _)]
  have hrel : recorded.store.Reliable := by
    rw [hrecorded]
    exact h
  obtain ⟨threads, htrusts, hdb, hrel'⟩ := hrel.db_markEstablished (n.counterpart l)
  let trusting := recorded.effect (markEstablished (n.counterpart l))
  obtain ⟨store, profiles, happly, hover, hstore⟩ :=
    applyProfile_of_reliable (n := trusting) hrel' clock master profile
  have hauthorize : n.authorize clock master slave ms ss profile =
      (.authorized (profile.any (!·.isEmpty)), { trusting with store }) := by
    show (LinkOutcome.authorized (trusting.applyProfile clock master profile).1,
      (trusting.applyProfile clock master profile).2) = _
    rw [happly]
  have hdb : trusting.store.db =
      { n.store.db with links := n.store.db.links.upsert l, threads } := by
    show ((markEstablished _).effect recorded.store).db = _
    rw [hdb, hrecorded]
  rw [hdb] at hover hstore
  rw [hrecorded] at htrusts
  rw [hauthorize]
  refine ⟨rfl, fun k x => LinkTable.mem_ofMaster_put, rfl, fun x => ?_, ?_, ?_, ?_, ?_, rfl⟩
  · show x ∈ store.db.links ↔ _
    rw [hstore]
    exact LinkRows.mem_upsert ⟨rfl, rfl⟩
  · show n.store.db.threads.Trusts _ store.db.threads
    rw [hstore]
    exact htrusts
  · show n.store.db.profiles.Overwrites _ _ store.db.profiles
    rw [hstore]
    exact hover
  · show store.db.inbound = _
    rw [hstore]
  · show store.db.unlinked = _
    rw [hstore]

end Node

/-- The outcome is that two devices were linked. -/
def LinkOutcome.Linked (o : LinkOutcome) : Prop :=
  ∃ profileApplied, o = .authorized profileApplied

/-! ## From a message to the verdict -/

namespace System

variable {s t : System} {x : Exchange} {id : Nat} {m : LinkControl} {j : Judging}

/-- A message that comes in changes nothing, and a signal is given exactly for a request that finds
no session. -/
theorem begin_control_node (hid : s.calls.lookup id = none) :
    (∀ master slave, m.Requests master slave → s.node.session = none →
      (s.step x (.begin id (.control m))).node =
        s.node.note (.notified (.unexpectedLinkRequest master slave))) ∧
    ((∀ master slave, m.Requests master slave → s.node.session ≠ none) →
      (s.step x (.begin id (.control m))).node = s.node) := by
  rw [step_begin hid, settleCall_node]
  show (∀ master slave, _ → _ → (s.node.receiveLink m).2 = _) ∧ (_ → (s.node.receiveLink m).2 = _)
  unfold Node.receiveLink
  refine ⟨fun master slave hm hnone => ?_, fun hsession => ?_⟩
  · obtain ⟨ss, hintent⟩ := LinkControl.intent_of_requests hm
    rw [hintent, hnone]
  · cases hintent : m.intent with
    | error field => rfl
    | ok intent =>
      cases hnone : s.node.session with
      | some session => rfl
      | none =>
        cases intent with
        | request master slave ss =>
          exact absurd hnone (hsession master slave (LinkControl.requests_of_intent hintent))
        | authorization master slave ms ss => rfl

/-- A message is over as soon as it has come in, and has linked nobody; or the session that is
active is to judge what it asks for. -/
theorem begin_control_cases (hid : s.calls.lookup id = none) :
    (∃ outcome : LinkOutcome, ¬ outcome.Linked ∧
        (s.step x (.begin id (.control m))).finished = (id, .control outcome) :: s.finished) ∨
      ∃ session intent, s.node.session = some session ∧ m.intent = .ok intent ∧
        (s.step x (.begin id (.control m))).calls.lookup id =
          some (.control ⟨session, intent, m.profile⟩) := by
  have hbegin : (s.node.begin (s.surroundings x) (.control m)).1 =
      (s.node.receiveLink m).1.toCall := rfl
  rw [step_begin hid, lookup_settleCall, if_pos rfl, finished_settleCall, hbegin]
  unfold Node.receiveLink
  cases m.intent with
  | error field => exact .inl ⟨.droppedMalformed field, nofun, rfl⟩
  | ok intent =>
    cases s.node.session with
    | some session => exact .inr ⟨session, intent, rfl, rfl, rfl⟩
    | none =>
      cases intent with
      | request master slave ss => exact .inl ⟨.unexpectedRequestNotified, nofun, rfl⟩
      | authorization master slave ms ss => exact .inl ⟨.droppedNoSession, nofun, rfl⟩

/-- The verdict about a message ends its call. It changes the node only if it accepts an
authorisation. -/
theorem answer_verdict (hj : t.calls.lookup id = some (.control j)) (hrel : t.node.store.Reliable)
    (v : Verdict) :
    ∃ outcome : LinkOutcome,
      (t.step x (.answer id (.verdict v))).finished = (id, .control outcome) :: t.finished ∧
      (outcome.Linked → v = .ok () ∧ ∃ master slave ms ss,
        j.intent = .authorization master slave ms ss ∧
        t.node.Links ⟨⟨master, some ms⟩, ⟨slave, some ss⟩⟩ j.profile
          (t.step x (.answer id (.verdict v))).node) ∧
      (¬ outcome.Linked → (t.step x (.answer id (.verdict v))).node = t.node) := by
  rw [step_answer hj, settleCall_node, finished_settleCall]
  refine ⟨(t.node.concludeLink t.clock j v).1, rfl, ?_⟩
  show (_ → _ ∧ ∃ master slave ms ss, _ ∧
    t.node.Links _ _ (t.node.concludeLink t.clock j v).2) ∧
      (_ → (t.node.concludeLink t.clock j v).2 = _)
  obtain ⟨session, intent, profile⟩ := j
  rcases intent with ⟨master, slave, ss⟩ | ⟨master, slave, ms, ss⟩ <;> rcases v with e | ⟨⟩
  · exact ⟨nofun, fun _ => rfl⟩
  · exact ⟨nofun, fun _ => rfl⟩
  · exact ⟨nofun, fun _ => rfl⟩
  · obtain ⟨houtcome, hlinks⟩ := Node.authorize_links hrel t.clock master slave ms ss profile
    exact ⟨fun _ => ⟨rfl, master, slave, ms, ss, rfl, hlinks⟩, fun h => absurd ⟨_, houtcome⟩ h⟩

theorem waiting_run {c : Call} (hc : s.calls.lookup id = some c) {events : List (Exchange × Event)}
    (h : ∀ p ∈ events, p.2 ≠ .restart ∧ ∀ a, p.2 ≠ .answer id a) :
    (s.run events).calls.lookup id = some c := by
  induction events generalizing s with
  | nil => exact hc
  | cons p events ih =>
    have hp := h p (.head _)
    exact ih (lookup_waiting hc hp.2 hp.1) fun q hq => h q (.tail _ hq)

/-- A control message comes in, in any state of a node over a store that does not fail. This changes
nothing, and a signal is given exactly for a request that finds no session. The message is over at
once and has linked nobody; or a session is active, and whatever happens in between, its verdict
decides. If the message has linked nobody then, the verdict has changed nothing. If it has, the
session has accepted the two devices and the two signatures of the message; this link is in the
cache and in the store, the other side is established (a row that cannot be read makes this call of
the store fail, and stays), the master's profile has taken over what came along, and nothing else has
changed (`Node.Links`). -/
theorem links_only_by_acceptance (s : System) (hrel : s.node.store.Reliable) {id : Nat}
    (hid : s.calls.lookup id = none) (m : LinkControl) (x : Exchange) :
    let s₁ := s.step x (.begin id (.control m))
    (∀ master slave, m.Requests master slave → s.node.session = none →
      s₁.node = s.node.note (.notified (.unexpectedLinkRequest master slave))) ∧
    ((∀ master slave, m.Requests master slave → s.node.session ≠ none) → s₁.node = s.node) ∧
    ((∃ outcome : LinkOutcome,
        ¬ outcome.Linked ∧ s₁.finished = (id, .control outcome) :: s.finished) ∨
      ∃ session intent, s.node.session = some session ∧
        ∀ between, (∀ p ∈ between, p.2 ≠ .restart ∧ ∀ a, p.2 ≠ .answer id a) →
          let t := s₁.run between
          t.calls.lookup id = some (.control ⟨session, intent, m.profile⟩) ∧
          ∀ x' v,
            let t' := t.step x' (.answer id (.verdict v))
            ∃ outcome : LinkOutcome, t'.finished = (id, .control outcome) :: t.finished ∧
              (¬ outcome.Linked → t'.node = t.node) ∧
              (outcome.Linked → v = .ok () ∧ ∃ master slave ms ss,
                intent = .authorization master slave ms ss ∧
                m.Authorizes ⟨⟨master, some ms⟩, ⟨slave, some ss⟩⟩ ∧
                t.node.Links ⟨⟨master, some ms⟩, ⟨slave, some ss⟩⟩ m.profile t'.node)) := by
  intro s₁
  obtain ⟨hsignal, hquiet⟩ := begin_control_node (x := x) (m := m) hid
  refine ⟨hsignal, hquiet, (begin_control_cases hid).imp_right ?_⟩
  rintro ⟨session, intent, hsession, hintent, hwaits⟩
  refine ⟨session, intent, hsession, fun between hbetween => ?_⟩
  have hj := waiting_run hwaits hbetween
  have hrel' : (s₁.run between).node.store.Reliable :=
    run_invariant (P := (·.node.store.Reliable)) (fun _ x e h => reliable_step h x e)
      (reliable_step hrel x _) between
  refine ⟨hj, fun x' v => ?_⟩
  obtain ⟨outcome, hfinished, hlinked, hrefused⟩ := answer_verdict (x := x') hj hrel' v
  refine ⟨outcome, hfinished, hrefused, fun h => ?_⟩
  obtain ⟨hv, master, slave, ms, ss, hauthorization, hlinks⟩ := hlinked h
  have hauthorization : intent = .authorization master slave ms ss := hauthorization
  subst hauthorization
  exact ⟨hv, master, slave, ms, ss, rfl, LinkControl.authorizes_of_intent hintent, hlinks⟩

/-- A master authorises this device while a session is active, and the session accepts. -/
theorem link_by_acceptance_in_session :
    let s := (idle (.assemble Config.default.settings (.reliable .empty)) ⟨0, 0⟩).step .quiet
      (.beginSession "s")
    let m : LinkControl :=
      ⟨"bob", some "bob", some "me", some [1], some [2], some ⟨some "Bob", none⟩⟩
    let t := s.step .quiet (.begin 0 (.control m))
    s.node.store.Reliable ∧ s.calls.lookup 0 = none ∧
      t.node.Links ⟨⟨"bob", some [1]⟩, ⟨"me", some [2]⟩⟩ (some ⟨some "Bob", none⟩)
        (t.step .quiet (.answer 0 (.verdict (.ok ())))).node := by
  intro s m t
  have hrel : s.node.store.Reliable := fun _ _ => rfl
  have hid : s.calls.lookup 0 = none := rfl
  refine ⟨hrel, hid, ?_⟩
  obtain ⟨-, -, ⟨outcome, -, hover⟩ | ⟨session, intent, -, hjudged⟩⟩ :=
    links_only_by_acceptance s hrel hid m .quiet
  · cases hover
  · obtain ⟨-, hverdict⟩ := hjudged [] nofun
    obtain ⟨outcome, hfinished, -, hlinked⟩ := hverdict .quiet (.ok ())
    have hauthorized : outcome = .authorized true := by
      cases hfinished
      rfl
    obtain ⟨-, master, slave, ms, ss, -, hm, hlinks⟩ := hlinked ⟨true, hauthorized⟩
    obtain ⟨hmaster, hslave, hms, hss, -⟩ := hm
    cases hmaster
    cases hslave
    cases hms
    cases hss
    exact hlinks

end System

end Courier
