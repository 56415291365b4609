import Courier.Proofs.Node.Keeps
import Courier.Proofs.Store.Threads
import Mathlib.Logic.Relation

/-!
# Writes that are no activity

Most actions on the store open conversations and write the states of contacts; what else they write
lies beside the conversations and the inbound queue (`Database.Edit`). Such edits give no id twice
(`Edits.numbered`), keep the ids of conversations (`Edits.idOf`), and are no activity of a group
(`Edits.groupActivity`).
-/

namespace Courier

open Relation (ReflTransGen)

/-! ## Edits -/

/-- One write that is no activity: a conversation is opened, the state of a contact is written, or
something beside the conversations and the queue. -/
inductive Database.Edit (db : Database) : Database → Prop where
  | opens (kind : ThreadKind) (peer : String) (hidden : Bool) :
    Edit db { db with threads := db.threads.ensure kind peer hidden }
  | writes (i : Identity) (state : HandshakeState) (expiresAt : Option Int64) :
    Edit db { db with threads := (db.threads.writeState i state expiresAt).2 }
  | beside (db' : Database) (threads : db'.threads = db.threads)
      (inbound : db'.inbound = db.inbound) : Edit db db'

/-- Between two states of the store lie such writes, and reads. -/
structure Store.Edits (s s' : Store) : Prop where
  outage : s'.outage = s.outage
  db : ReflTransGen Database.Edit s.db s'.db

namespace Store.Edits

variable {s s' s'' : Store} {kind : ThreadKind} {peer : String} {g : GroupId} {id : Int}

theorem refl (s : Store) : s.Edits s :=
  ⟨rfl, .refl⟩

theorem trans (h : s.Edits s') (h' : s'.Edits s'') : s.Edits s'' :=
  ⟨h'.outage.trans h.outage, h.db.trans h'.db⟩

theorem of_fixes (h : s.Fixes (fun db => (db.threads, db.inbound)) s') : s.Edits s' :=
  ⟨h.outage, .single (.beside _ (congrArg Prod.fst h.db) (congrArg Prod.snd h.db))⟩

/-- What every edit keeps. -/
theorem invariant {P : Database → Prop} (h : s.Edits s')
    (hedit : ∀ db db', P db → Database.Edit db db' → P db') (hP : P s.db) : P s'.db := by
  have hdb := h.db
  generalize s'.db = db' at hdb ⊢
  induction hdb with
  | refl => exact hP
  | tail _ hlast ih => exact hedit _ _ ih hlast

theorem numbered (h : s.Edits s') : s.db.threads.Numbered → s'.db.threads.Numbered := by
  refine h.invariant (P := (·.threads.Numbered)) fun db db' hn hedit => ?_
  cases hedit with
  | opens kind peer hidden => exact hn.ensure
  | writes i state expiresAt => exact hn.writeState i state expiresAt
  | beside db' hthreads hinbound =>
    rw [hthreads]
    exact hn

theorem idOf (h : s.Edits s') :
    s.db.threads.idOf kind peer = some id → s'.db.threads.idOf kind peer = some id := by
  refine h.invariant (P := (·.threads.idOf kind peer = some id)) fun db db' hid hedit => ?_
  cases hedit with
  | opens kind peer hidden => exact ThreadTable.idOf_ensure hid
  | writes i state expiresAt => exact (ThreadTable.idOf_writeState i state expiresAt).trans hid
  | beside db' hthreads hinbound =>
    rw [hthreads]
    exact hid

theorem groupActivity (h : s.Edits s') :
    s'.db.threads.groupActivity g = s.db.threads.groupActivity g := by
  refine h.invariant (P := (·.threads.groupActivity g = s.db.threads.groupActivity g))
    (fun db db' hsame hedit => ?_) rfl
  cases hedit with
  | opens kind peer hidden => exact ThreadTable.groupActivity_ensure.trans hsame
  | writes i state expiresAt =>
    exact (ThreadTable.groupActivity_writeState i state expiresAt).trans hsame
  | beside db' hthreads hinbound =>
    rw [hthreads]
    exact hsame

end Store.Edits

/-! ## Actions on the store -/

namespace StoreM

variable {α β γ : Type} {x : StoreM α}

/-- The action makes edits only, whether or not it fails. -/
def Edits (x : StoreM α) : Prop :=
  ∀ s : Store, s.Edits (x.attempt s).2

theorem Edits.pure (a : α) : Edits (Pure.pure a : StoreM α) :=
  Store.Edits.refl

theorem Edits.bind {y : α → StoreM β} (hx : x.Edits) (hy : ∀ a, (y a).Edits) :
    (x >>= y).Edits := by
  intro s
  have h := hx s
  rw [attempt_bind]
  rcases hxs : x.attempt s with ⟨_ | a, s'⟩ <;> rw [hxs] at h
  · exact h
  · exact h.trans (hy a s')

theorem Edits.of_fixes (hx : x.Fixes fun db => (db.threads, db.inbound)) : x.Edits :=
  fun s => .of_fixes (hx s)

theorem edits_call {name : StoreCall} {g : Database → Except StoreError α × Database}
    (hg : ∀ db, Database.Edit db (g db).2) : (Store.call name g).Edits := by
  intro s
  rw [attempt_call]
  cases s.outage s.calls name with
  | some e => exact ⟨rfl, .refl⟩
  | none => exact ⟨rfl, .single (hg s.db)⟩

theorem edits_change {name : StoreCall} {g : Database → α × Database}
    (hg : ∀ db, Database.Edit db (g db).2) : (Store.change name g).Edits :=
  edits_call hg

theorem edits_query (name : StoreCall) (g : Database → Except StoreError α) :
    (Store.query name g).Edits :=
  .of_fixes (fixes_query name g)

theorem edits_foldlM {g : β → γ → StoreM β} (hg : ∀ b c, (g b c).Edits) :
    ∀ (cs : List γ) (b : β), (cs.foldlM g b).Edits
  | [], b => .pure b
  | c :: cs, b => by
    rw [List.foldlM_cons]
    exact (hg b c).bind fun b' => edits_foldlM hg cs b'

theorem edits_getOrCreateContactThread (i : Identity) (hidden : Bool) :
    (Store.getOrCreateContactThread i hidden).Edits :=
  edits_call fun _ => .opens .contact i hidden

theorem edits_writeHandshakeState (i : Identity) (state : HandshakeState)
    (expiresAt : Option Int64) : (Store.writeHandshakeState i state expiresAt).Edits :=
  edits_change fun _ => .writes i state expiresAt

theorem edits_threadOf (m : OutgoingMessage) : (Node.threadOf m).Edits := by
  unfold Node.threadOf
  split
  · exact edits_call fun _ => .opens .group _ false
  · exact edits_getOrCreateContactThread _ _

theorem edits_decideHandshake (clock : Clock) (i : Identity) (kind : MessageKind) :
    (decideHandshake clock i kind).Edits := by
  unfold decideHandshake
  split
  · exact .pure _
  · exact (edits_query _ _).bind fun _ => .pure _

theorem edits_buildHandshake (clock : Clock) (messageId : String) (i : Identity) (hidden : Bool) :
    (buildHandshake clock messageId i hidden).Edits :=
  (edits_getOrCreateContactThread i hidden).bind fun _ =>
    (edits_writeHandshakeState i .pendingSend none).bind fun _ => .pure _

theorem edits_prepareSend (w : Surroundings) (m : OutgoingMessage) (d : Destination) :
    (prepareSend w m d).Edits := by
  refine (edits_decideHandshake w.clock d.identity m.kind).bind fun decision => ?_
  cases decision with
  | alreadyPending => exact .pure _
  | sendHandshake => exact (edits_buildHandshake _ _ _ _).bind fun _ => .pure _
  | sendAsIs => exact (edits_getOrCreateContactThread _ _).bind fun _ => .pure _

theorem edits_markEstablished (i : Identity) : (markEstablished i).Edits :=
  (edits_getOrCreateContactThread i true).bind fun _ =>
    (edits_writeHandshakeState i .established none).bind fun _ => .pure _

theorem edits_expireStale (now : Int64) : (expireStale now).Edits := by
  refine (edits_query _ _).bind fun rows => edits_foldlM (fun expired t => ?_) rows []
  unfold expireOne
  split
  · refine (edits_writeHandshakeState t.peer .expired none).bind fun found => ?_
    cases found <;> exact .pure _
  · exact .pure _

end StoreM

end Courier
