import Courier.Proofs.Trust.Runs

/-!
# What stays as it is

Most of what a node does concerns its conversations. It leaves the settings, the link cache, the
stored links, the inbound queue and the outage of the store as they are (`Node.Keeps`); what calls
do, apart from the links they learn, leaves the polled groups alone too (`Node.Talks`).

* `StoreM.Keeps`: an action of the store that touches neither links nor queue.
* `begin_talks`: a request, until it first waits.
* `answer_talks`: an answer for a call, once the change of links that it brings (`Call.linkWork`)
  has been made.
* `fetched_keeps`, `start_keeps`: what the loops do and the start of a node, once the messages are
  queued and the links loaded.
-/

namespace Courier

/-! ## The store -/

/-- What `f` reads of the database is what it was, and so is the outage. -/
structure Store.Fixes {β : Type} (f : Database → β) (s s' : Store) : Prop where
  outage : s'.outage = s.outage
  db : f s'.db = f s.db

namespace StoreM

variable {α β γ δ : Type} {f : Database → δ} {x : StoreM α} {s : Store} {i : Identity}

theorem fixes_refl (s : Store) : s.Fixes f s :=
  ⟨rfl, rfl⟩

theorem fixes_trans {s' s'' : Store} (h : s.Fixes f s') (h' : s'.Fixes f s'') : s.Fixes f s'' :=
  ⟨h'.outage.trans h.outage, h'.db.trans h.db⟩

/-- The action fixes what `f` reads, whether or not it fails. -/
def Fixes (f : Database → δ) (x : StoreM α) : Prop :=
  ∀ s : Store, s.Fixes f (x.attempt s).2

theorem Fixes.pure (a : α) : Fixes f (Pure.pure a : StoreM α) :=
  fixes_refl

theorem Fixes.bind {y : α → StoreM β} (hx : x.Fixes f) (hy : ∀ a, (y a).Fixes f) :
    (x >>= y).Fixes f := by
  intro s
  have h := hx s
  rw [attempt_bind]
  rcases hxs : x.attempt s with ⟨_ | a, s'⟩ <;> rw [hxs] at h
  · exact h
  · exact fixes_trans h (hy a s')

theorem fixes_call {name : StoreCall} {g : Database → Except StoreError α × Database}
    (hg : ∀ db, f (g db).2 = f db) : (Store.call name g).Fixes f := by
  intro s
  rw [attempt_call]
  cases s.outage s.calls name with
  | some e => exact ⟨rfl, rfl⟩
  | none => exact ⟨rfl, hg s.db⟩

theorem fixes_query (name : StoreCall) (g : Database → Except StoreError α) :
    (Store.query name g).Fixes f :=
  fixes_call fun _ => rfl

theorem fixes_change {name : StoreCall} {g : Database → α × Database}
    (hg : ∀ db, f (g db).2 = f db) : (Store.change name g).Fixes f :=
  fixes_call hg

theorem fixes_foldlM {g : β → γ → StoreM β} (hg : ∀ b c, (g b c).Fixes f) :
    ∀ (cs : List γ) (b : β), (cs.foldlM g b).Fixes f
  | [], b => .pure b
  | c :: cs, b => by
    rw [List.foldlM_cons]
    exact (hg b c).bind fun b' => fixes_foldlM hg cs b'

/-- Actions whose failures are passed over. -/
theorem fixes_foldl_effect {g : γ → StoreM α} (hg : ∀ c, (g c).Fixes f) :
    ∀ (cs : List γ) (s : Store), s.Fixes f (cs.foldl (fun s c => (g c).effect s) s)
  | [], s => fixes_refl s
  | c :: cs, s => fixes_trans (hg c s) (fixes_foldl_effect hg cs _)

/-- A change comes about unless the call fails; the call counts in any case. -/
theorem effect_change {name : StoreCall} {g : Database → α × Database} (s : Store) :
    (Store.change name g).effect s =
      { s with
        db := if s.outage s.calls name = none then (g s.db).2 else s.db
        calls := s.calls + 1 } := by
  unfold effect Store.change
  rw [attempt_call]
  cases s.outage s.calls name <;> rfl

/-! ## Actions on conversations -/

/-- The action touches neither the links nor the queue. -/
abbrev Keeps (x : StoreM α) : Prop :=
  x.Fixes fun db => (db.links, db.inbound)

theorem keeps_getOrCreateContactThread (i : Identity) (hidden : Bool) :
    (Store.getOrCreateContactThread i hidden).Keeps :=
  fixes_call fun _ => rfl

theorem keeps_writeHandshakeState (i : Identity) (state : HandshakeState)
    (expiresAt : Option Int64) : (Store.writeHandshakeState i state expiresAt).Keeps :=
  fixes_change fun _ => rfl

theorem keeps_threadOf (m : OutgoingMessage) : (Node.threadOf m).Keeps := by
  unfold Node.threadOf
  split
  · exact fixes_call fun _ => rfl
  · exact keeps_getOrCreateContactThread _ _

theorem keeps_decideHandshake (clock : Clock) (i : Identity) (kind : MessageKind) :
    (decideHandshake clock i kind).Keeps := by
  unfold decideHandshake
  split
  · exact .pure _
  · exact (fixes_query _ _).bind fun _ => .pure _

theorem keeps_buildHandshake (clock : Clock) (messageId : String) (i : Identity) (hidden : Bool) :
    (buildHandshake clock messageId i hidden).Keeps :=
  (keeps_getOrCreateContactThread i hidden).bind fun _ =>
    (keeps_writeHandshakeState i .pendingSend none).bind fun _ => .pure _

theorem keeps_prepareSend (w : Surroundings) (m : OutgoingMessage) (d : Destination) :
    (prepareSend w m d).Keeps := by
  refine (keeps_decideHandshake w.clock d.identity m.kind).bind fun decision => ?_
  cases decision with
  | alreadyPending => exact .pure _
  | sendHandshake => exact (keeps_buildHandshake _ _ _ _).bind fun _ => .pure _
  | sendAsIs => exact (keeps_getOrCreateContactThread _ _).bind fun _ => .pure _

theorem keeps_markEstablished (i : Identity) : (markEstablished i).Keeps :=
  (keeps_getOrCreateContactThread i true).bind fun _ =>
    (keeps_writeHandshakeState i .established none).bind fun _ => .pure _

theorem keeps_expireStale (now : Int64) : (expireStale now).Keeps := by
  refine (fixes_query _ _).bind fun rows => fixes_foldlM (fun expired t => ?_) rows []
  unfold expireOne
  split
  · refine (keeps_writeHandshakeState t.peer .expired none).bind fun found => ?_
    cases found <;> exact .pure _
  · exact .pure _

end StoreM

/-! ## The pieces of a call -/

namespace Node

variable {α : Type} {n n' n'' : Node} {w : Surroundings} {clock : Clock}

/-- Settings, links, queue and outage are what they were. -/
structure Keeps (n n' : Node) : Prop where
  settings : n'.settings = n.settings
  links : n'.links = n.links
  store : n.store.Fixes (fun db => (db.links, db.inbound)) n'.store

/-- So are the polled groups. -/
structure Talks (n n' : Node) : Prop extends n.Keeps n' where
  polls : n'.polls = n.polls

theorem Keeps.refl (n : Node) : n.Keeps n :=
  ⟨rfl, rfl, rfl, rfl⟩

theorem Keeps.trans (h : n.Keeps n') (h' : n'.Keeps n'') : n.Keeps n'' :=
  ⟨h'.settings.trans h.settings, h'.links.trans h.links, StoreM.fixes_trans h.store h'.store⟩

theorem Keeps.rows (h : n.Keeps n') : n'.store.db.links = n.store.db.links :=
  congrArg Prod.fst h.store.db

theorem Keeps.inbound (h : n.Keeps n') : n'.store.db.inbound = n.store.db.inbound :=
  congrArg Prod.snd h.store.db

theorem Talks.refl (n : Node) : n.Talks n :=
  ⟨.refl n, rfl⟩

theorem Talks.trans (h : n.Talks n') (h' : n'.Talks n'') : n.Talks n'' :=
  ⟨h.toKeeps.trans h'.toKeeps, h'.polls.trans h.polls⟩

theorem attempt_talks {x : StoreM α} (hx : x.Keeps) : n.Talks (n.attempt x).2 :=
  ⟨⟨rfl, rfl, hx n.store⟩, rfl⟩

theorem effect_talks {x : StoreM α} (hx : x.Keeps) : n.Talks (n.effect x) :=
  ⟨⟨rfl, rfl, hx n.store⟩, rfl⟩

theorem note_talks (e : JournalEntry) : n.Talks (n.note e) :=
  ⟨⟨rfl, rfl, rfl, rfl⟩, rfl⟩

theorem spawn_talks (x : Spawned) : n.Talks (n.spawn x) :=
  ⟨⟨rfl, rfl, rfl, rfl⟩, rfl⟩

theorem settleHandshake_talks (d : HandshakeDelivery) (result : SendResult) :
    n.Talks (n.settleHandshake w d result).2 := by
  unfold settleHandshake
  split
  · exact spawn_talks _
  · exact .refl n

theorem settleSend_talks (p : PendingSend) (result : SendResult) :
    n.Talks (n.settleSend w p result).2 := by
  unfold settleSend
  dsimp only
  split
  · exact (note_talks _).trans (settleHandshake_talks _ _)
  · exact note_talks _

theorem settleIn_talks (f : FanOut) (p : PendingSend) (result : SendResult) :
    n.Talks (n.settleIn w f p result).2 := by
  have h := settleSend_talks (n := n) (w := w) p result
  unfold settleIn
  rcases hx : n.settleSend w p result with ⟨_ | _, n'⟩ <;> rw [hx] at h <;> exact h

theorem launch_talks (f : FanOut) (d : Destination) : n.Talks (n.launch w f d).2 := by
  have h := attempt_talks (n := n) (StoreM.keeps_prepareSend w f.message d)
  unfold launch
  rcases hx : n.attempt (prepareSend w f.message d) with ⟨_ | _ | p, n'⟩ <;> rw [hx] at h
  · exact h
  · exact h
  · dsimp only
    split
    · exact h.trans (note_talks _)
    · exact h.trans ((note_talks _).trans (settleIn_talks _ _ _))

theorem launchAll_talks :
    ∀ (destinations : List Destination) (f : FanOut) (n : Node),
      n.Talks (launchAll w destinations f n).2
  | [], _, n => .refl n
  | d :: rest, f, n => by
    have h := launch_talks (n := n) (w := w) f d
    unfold launchAll
    rcases hx : n.launch w f d with ⟨_ | f', n'⟩ <;> rw [hx] at h
    · exact h
    · exact h.trans (launchAll_talks rest f' n')

theorem finishDirect_talks (m : OutgoingMessage) (thread : ThreadRow) (envelope : OutgoingEnvelope)
    (result : SendResult) : n.Talks (n.finishDirect w m thread envelope result).2 := by
  unfold finishDirect
  cases result with
  | error e => exact note_talks _
  | ok _ =>
    dsimp only
    split
    · exact (note_talks _).trans (effect_talks (StoreM.fixes_change fun _ => rfl))
    · exact note_talks _

theorem sendDirect_talks (m : OutgoingMessage) : n.Talks (n.sendDirect w m).2 := by
  have h := attempt_talks (n := n) (StoreM.keeps_threadOf m)
  unfold sendDirect
  rcases hx : n.attempt (threadOf m) with ⟨_ | thread, n'⟩ <;> rw [hx] at h
  · exact h
  · dsimp only
    split
    · exact h.trans (note_talks _)
    · exact h.trans ((note_talks _).trans (finishDirect_talks _ _ _ _))

theorem continueRoute_talks (m : OutgoingMessage) (step : ResolveStep) :
    n.Talks (n.continueRoute w m step).2 := by
  unfold continueRoute
  split
  · exact .refl n
  · exact launchAll_talks _ _ n
  · exact sendDirect_talks m

theorem route_talks (m : OutgoingMessage) : n.Talks (n.route w m).2 := by
  unfold route
  split
  · exact sendDirect_talks m
  · exact continueRoute_talks m _

theorem answerRoute_talks (r : Route) (identity : Identity) (result : SendResult) :
    n.Talks (n.answerRoute w r identity result).2 := by
  unfold answerRoute
  split
  · exact finishDirect_talks _ _ _ _
  · split
    · exact .refl n
    · exact settleIn_talks _ _ _
  · exact .refl n

theorem finishHandshake_talks (d : HandshakeDelivery) (result : SendResult) :
    n.Talks (n.finishHandshake w d result).2 := by
  have h := (note_talks (n := n) (.answered d.envelope result)).trans
    (settleHandshake_talks (w := w) d result)
  unfold finishHandshake
  rcases hx : (n.note (.answered d.envelope result)).settleHandshake w d result with
    ⟨_ | _, n'⟩ <;> rw [hx] at h <;> exact h

theorem sendHandshake_talks (i : Identity) (hidden : Bool) :
    n.Talks (n.sendHandshake w i hidden).2 := by
  have h := attempt_talks (n := n) (StoreM.keeps_buildHandshake w.clock (w.messageId i) i hidden)
  unfold sendHandshake
  rcases hx : n.attempt (buildHandshake w.clock (w.messageId i) i hidden) with
    ⟨_ | ⟨m, d⟩, n'⟩ <;> rw [hx] at h
  · exact h
  · dsimp only
    split
    · exact h.trans (note_talks _)
    · exact h.trans ((note_talks _).trans (finishHandshake_talks _ _))

theorem receiveLink_talks (m : LinkControl) : n.Talks (n.receiveLink m).2 := by
  unfold receiveLink
  split
  · exact .refl n
  · split
    · exact .refl n
    · exact note_talks _
    · exact .refl n

theorem continueUnlink_talks (rest : List DeviceLink) (removed : Nat) :
    n.Talks (n.continueUnlink rest removed).2 := by
  unfold continueUnlink
  split
  · exact .refl n
  · exact (effect_talks (StoreM.fixes_change fun _ => rfl)).trans (note_talks _)

theorem confirmUnlink_talks (sender : Identity) (view : DirectoryAnswer) :
    n.Talks (n.confirmUnlink sender view).2 := by
  unfold confirmUnlink
  split
  · exact .refl n
  · split
    · exact .refl n
    · exact continueUnlink_talks _ _

theorem receiveUnlink_talks (sender : Identity) : n.Talks (n.receiveUnlink clock sender).2 := by
  unfold receiveUnlink
  dsimp only
  split
  · exact .refl n
  · split
    · exact .refl n
    · split
      · exact confirmUnlink_talks _ _
      · exact .refl n

theorem applyProfile_talks (master : Identity) (profile : Option ProfileUpdate) :
    n.Talks (n.applyProfile clock master profile).2 := by
  unfold applyProfile
  split
  · exact .refl n
  · next update _ =>
    have h := attempt_talks (n := n) (x := Store.writeProfile clock master update)
      (StoreM.fixes_change fun _ => rfl)
    rcases hx : n.attempt (Store.writeProfile clock master update) with ⟨_ | _, n'⟩ <;>
      rw [hx] at h <;> exact h

/-- A request, until it first waits. -/
theorem begin_talks (r : Request) : n.Talks (n.begin w r).2 := by
  cases r with
  | resolve i => exact .refl n
  | view i maxAge =>
    unfold begin
    dsimp only
    split <;> exact .refl n
  | route m => exact route_talks m
  | handshake i hidden => exact sendHandshake_talks i hidden
  | control m => exact receiveLink_talks m
  | unlink sender => exact receiveUnlink_talks sender

end Node

/-! ## Changes of links -/

/-- A change of the link cache and of the stored links. -/
inductive LinkWork where
  /-- The directory's answer about `master` is taken over, on behalf of `identity`. -/
  | refresh (identity master : Identity) (answer : DirectoryAnswer)
  | record (l : DeviceLink)
  | evict (l : DeviceLink)

/-- The cache and the store after a change of links. -/
def LinkWork.apply (instant : Nat) (c : LinkCache) (s : Store) : LinkWork → LinkCache × Store
  | .refresh identity master answer =>
    (c.refresh s instant identity master answer).toOption.getD (c, s)
  | .record l => c.record s l
  | .evict l => c.evict s l

/-- What the directory's answer to a resolve changes: it counts for the device of the resolve, or
for the master that the first answer showed. -/
def Resolving.linkWork (r : Resolving) (answer : DirectoryAnswer) : LinkWork :=
  match r with
  | .known identity master => .refresh identity master answer
  | .revealed _ master => .refresh master master answer

/-- The cache and the store once a resolve has gone on with an answer. -/
theorem Resolving.resume_snd {interval : Duration} {instant : Nat} {answer : DirectoryAnswer}
    {c : LinkCache} {s : Store} (r : Resolving) :
    (r.resume interval instant answer c s).2 = (r.linkWork answer).apply instant c s := by
  cases r with
  | known identity master =>
    simp only [resume, linkWork, LinkWork.apply]
    cases c.refresh s instant identity master answer with
    | error e => rfl
    | ok cs =>
      dsimp only
      split <;> rfl
  | revealed identity master =>
    simp only [resume, linkWork, LinkWork.apply]
    cases c.refresh s instant master master answer <;> rfl

/-- The change of links that an answer for a call brings. -/
def Call.linkWork : Call → Answer → Option LinkWork
  | .resolve r, .links a => some (r.linkWork a)
  | .route (.resolving _ r), .links a => some (r.linkWork a)
  | .control ⟨_, .authorization master slave ms ss, _⟩, .verdict (.ok ()) =>
    some (.record ⟨⟨master, some ms⟩, ⟨slave, some ss⟩⟩)
  | .unlink (.removing link _ _), .removal _ => some (.evict link)
  | _, _ => none

/-- A change of links touches nothing of the database but the stored links. -/
theorem LinkWork.apply_fixes {β : Type} {f : Database → β}
    (hf : ∀ (db : Database) (links : LinkRows), f { db with links } = f db)
    (work : LinkWork) (instant : Nat) (c : LinkCache) (s : Store) :
    s.Fixes f (work.apply instant c s).2 := by
  have hput (l : DeviceLink) : (Store.upsertDeviceLink l).Fixes f :=
    StoreM.fixes_change fun db => hf db _
  cases work with
  | refresh identity master answer =>
    rcases answer with (e | e) | fetched
    · exact StoreM.fixes_refl s
    · exact StoreM.fixes_refl s
    · have hown : (Store.replaceDeviceLinks master
          (fetched.filter (·.master.identity = master))).Fixes f :=
        StoreM.fixes_change fun db => hf db _
      exact StoreM.fixes_trans (hown s) (StoreM.fixes_foldl_effect hput _ _)
  | record l => exact hput l s
  | evict l =>
    have hdrop : (Store.deleteDeviceLink l.master.identity l.slave.identity).Fixes f :=
      StoreM.fixes_change fun db => hf db _
    exact hdrop s

namespace Node

variable {n : Node} {w : Surroundings} {clock : Clock}

/-- The node after a change of links. -/
def relink (n : Node) (instant : Nat) (work : LinkWork) : Node :=
  { n with links := (work.apply instant n.links n.store).1
           store := (work.apply instant n.links n.store).2 }

theorem resumeResolve_eq (r : Resolving) (answer : DirectoryAnswer) :
    (n.resumeResolve clock r answer).2 = n.relink clock.instant (r.linkWork answer) := by
  unfold resumeResolve relink
  rw [← r.resume_snd]

theorem authorize_talks (master slave : Identity) (ms ss : Octets)
    (profile : Option ProfileUpdate) :
    (n.relink clock.instant (.record ⟨⟨master, some ms⟩, ⟨slave, some ss⟩⟩)).Talks
      (n.authorize clock master slave ms ss profile).2 :=
  (effect_talks (StoreM.keeps_markEstablished _)).trans (applyProfile_talks master profile)

/-- An answer for a call, once the change of links is made. -/
theorem answer_talks (c : Call) (a : Answer) :
    (((c.linkWork a).map (n.relink w.clock.instant)).getD n).Talks (n.answer w c a).2 := by
  unfold answer
  split
  · next r a =>
    show (n.relink _ _).Talks (n.resumeResolve w.clock r a).2
    rw [resumeResolve_eq]
    exact .refl _
  · exact .refl n
  · next r a =>
    cases r with
    | resolving m r =>
      show (n.relink _ _).Talks ((n.resumeResolve w.clock r a).2.continueRoute w m _).2
      rw [resumeResolve_eq]
      exact continueRoute_talks m _
    | direct m thread envelope => exact .refl n
    | fanningOut f => exact .refl n
  · next r i result =>
    cases r <;> exact answerRoute_talks _ i result
  · exact finishHandshake_talks _ _
  · next j v =>
    obtain ⟨session, intent, profile⟩ := j
    rcases intent with ⟨master, slave, signature⟩ | ⟨master, slave, ms, ss⟩ <;>
      rcases v with e | ⟨⟩
    · exact .refl n
    · exact .refl n
    · exact .refl n
    · exact authorize_talks master slave ms ss profile
  · next u a =>
    cases u with
    | confirming sender device => exact confirmUnlink_talks sender a
    | removing link rest removed => exact .refl n
  · next u result =>
    cases u with
    | confirming sender device => exact .refl n
    | removing link rest removed => exact continueUnlink_talks _ _
  · next hr hv hrl hrd hh hc hul hur =>
    have hnone : c.linkWork a = none := by
      unfold Call.linkWork
      split
      · exact (hr _ _ rfl rfl).elim
      · exact (hrl _ _ rfl rfl).elim
      · exact (hc _ _ rfl rfl).elim
      · exact (hur _ _ rfl rfl).elim
      · rfl
    rw [hnone]
    exact .refl n

/-! ## Loops -/

theorem activityOf_talks (group : GroupId) : n.Talks (n.activityOf group).2 := by
  have h := attempt_talks (n := n) (x := Store.groupLastMessageAt group) (StoreM.fixes_query _ _)
  unfold activityOf
  rcases hx : n.attempt (Store.groupLastMessageAt group) with ⟨_ | _, n'⟩ <;> rw [hx] at h <;>
    exact h

theorem keeps_polls (polls : PollTable) : n.Keeps { n with polls } :=
  ⟨rfl, rfl, rfl, rfl⟩

theorem reschedule_keeps (l : PollLoop) : n.Keeps (n.reschedule clock l) := by
  unfold reschedule
  split
  · exact keeps_polls _
  · have h := (activityOf_talks (n := n) l.group).toKeeps
    rcases hx : n.nextDelay clock l.group with ⟨_ | delay, n'⟩ <;>
      obtain rfl : (n.activityOf l.group).2 = n' := congrArg Prod.snd hx
    · exact h.trans (keeps_polls _)
    · dsimp only
      split <;> exact h.trans (keeps_polls _)

theorem wakeLoop_keeps (generation : Nat) : n.Keeps (n.wakeLoop generation) := by
  unfold wakeLoop
  split
  · exact .refl n
  · split <;> exact keeps_polls _

theorem granted_keeps (generation : Nat) : n.Keeps (n.granted generation) := by
  rw [granted_eq]
  exact keeps_polls _

theorem lookedUp_keeps (generation pick : Nat) (answer : NodesAnswer) :
    n.Keeps (n.lookedUp clock generation pick answer) := by
  unfold lookedUp
  split
  · exact .refl n
  · split
    · exact reschedule_keeps _
    · split
      · exact reschedule_keeps _
      · split
        · exact reschedule_keeps _
        · exact keeps_polls _

theorem keepMessages_fixes (clock : Clock) (group : GroupId) :
    ∀ (messages : List RawMessage) (s : Store),
      s.Fixes (·.links) (messages.foldl (keepMessage clock group) s)
  | [], s => StoreM.fixes_refl s
  | m :: messages, s => by
    refine StoreM.fixes_trans ?_ (keepMessages_fixes clock group messages _)
    unfold keepMessage
    split
    · exact StoreM.fixes_refl s
    · exact StoreM.fixes_change (fun _ => rfl) s

/-- The messages of a batch are queued. -/
def queue (n : Node) (clock : Clock) (group : GroupId) (batch : RawBatch) : Node :=
  { n with store := batch.messages.foldl (keepMessage clock group) n.store }

/-- The messages that reach a loop are queued, unless it was cancelled. -/
def received (n : Node) (clock : Clock) (generation : Nat) (answer : BatchAnswer) : Node :=
  match n.polls.loop? generation, answer with
  | some l, .ok batch => if l.cancelled then n else n.queue clock l.group batch
  | _, _ => n

theorem received_links (generation : Nat) (answer : BatchAnswer) :
    (n.received clock generation answer).links = n.links := by
  unfold received
  split
  · split <;> rfl
  · rfl

theorem received_settings (generation : Nat) (answer : BatchAnswer) :
    (n.received clock generation answer).settings = n.settings := by
  unfold received
  split
  · split <;> rfl
  · rfl

/-- Messages leave the stored links alone. -/
theorem received_fixes (n : Node) (clock : Clock) (generation : Nat) (answer : BatchAnswer) :
    n.store.Fixes (·.links) (n.received clock generation answer).store := by
  unfold received
  split
  · split
    · exact StoreM.fixes_refl _
    · exact keepMessages_fixes _ _ _ _
  · exact StoreM.fixes_refl _

theorem absorb_keeps (l : PollLoop) (batch : RawBatch) :
    (n.queue clock l.group batch).Keeps (n.absorb clock l batch) :=
  (activityOf_talks (n := n.queue clock l.group batch) l.group).toKeeps.trans (keeps_polls _)

theorem fetched_keeps (generation : Nat) (answer : BatchAnswer) :
    (n.received clock generation answer).Keeps (n.fetched clock generation answer) := by
  unfold fetched received
  cases n.polls.loop? generation with
  | none => exact .refl n
  | some l =>
    cases answer with
    | error e => exact reschedule_keeps l
    | ok batch =>
      dsimp only
      split
      · exact reschedule_keeps l
      · exact (absorb_keeps l batch).trans (reschedule_keeps l)

theorem startPolling_keeps (group : GroupId) : n.Keeps (n.startPolling group).2 := by
  unfold startPolling
  split
  · exact keeps_polls _
  · exact (keeps_polls _).trans (spawn_talks _).toKeeps

theorem startCounted_foldl_keeps :
    ∀ (groups : List GroupId) (acc : Nat × Node), acc.2.Keeps (groups.foldl startCounted acc).2
  | [], acc => .refl acc.2
  | group :: groups, (count, n) =>
    (startPolling_keeps group).trans
      (startCounted_foldl_keeps groups (startCounted (count, n) group))

theorem startAllPolling_keeps : n.Keeps n.startAllPolling.2 := by
  have h := (attempt_talks (n := n) (x := Store.listGroupThreads)
    (StoreM.fixes_query _ _)).toKeeps
  unfold startAllPolling
  rcases hx : n.attempt Store.listGroupThreads with ⟨_ | rows, n'⟩ <;> rw [hx] at h
  · exact h
  · exact h.trans (startCounted_foldl_keeps (rows.map (·.peer)) (0, n'))

/-! ## The start of a node -/

/-- The links are only read. -/
theorem loadLinks_fixes {β : Type} (f : Database → β) (n : Node) :
    n.store.Fixes f n.loadLinks.2.store := by
  have h : n.links.load.Fixes f := (StoreM.fixes_query _ _).bind fun _ => .pure _
  have hs := h n.store
  unfold loadLinks attempt
  rcases hx : n.links.load.attempt n.store with ⟨_ | ⟨count, links⟩, s⟩ <;> rw [hx] at hs <;>
    exact hs

theorem loadLinks_settings : n.loadLinks.2.settings = n.settings := by
  unfold loadLinks attempt
  rcases n.links.load.attempt n.store with ⟨_ | ⟨count, links⟩, s⟩ <;> rfl

theorem start_keeps : n.loadLinks.2.Keeps (n.start clock).2 := by
  unfold start
  rcases n.loadLinks with ⟨_ | _, n₁⟩
  · exact .refl n₁
  · have hsweep := (attempt_talks (n := n₁) (StoreM.keeps_expireStale clock.now)).toKeeps
    dsimp only
    rcases hx : n₁.attempt (expireStale clock.now) with ⟨_ | _, n₂⟩ <;> rw [hx] at hsweep
    · exact hsweep
    · have hpoll := startAllPolling_keeps (n := n₂)
      dsimp only at hpoll ⊢
      rcases hy : n₂.startAllPolling with ⟨_ | _, n₃⟩ <;> rw [hy] at hpoll <;>
        exact hsweep.trans hpoll

end Node

end Courier
