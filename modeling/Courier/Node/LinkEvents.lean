import Courier.Node.Basic

/-!
# Link control messages and unlink requests

A request or an authorisation is handed to the active session; nothing here links two devices
without its acceptance. A request without a session is notified to the application, an
authorisation without one is dropped.

An unlink request counts only if its sender is this device's master, the cache holds the link, and
the directory lists it. Then the link is removed, the device is marked as unlinked, and the
application is asked to wipe its data.
-/

namespace Courier

/-- What became of a link control message. -/
inductive LinkOutcome where
  /-- The session took the request. -/
  | requestForwarded
  /-- The session refused the request. -/
  | requestRejected (reason : LinkingError)
  /-- There was no session; the application was notified. -/
  | unexpectedRequestNotified
  /-- The session accepted the authorisation. -/
  | authorized (profileApplied : Bool)
  /-- The session refused the authorisation. -/
  | authorizationRejected (reason : LinkingError)
  /-- There was no session to judge the authorisation. -/
  | droppedNoSession
  /-- A field was missing. -/
  | droppedMalformed (field : LinkField)
  deriving DecidableEq, Repr

/-- What became of an unlink request. -/
inductive UnlinkOutcome where
  | unlinked (removed : Nat)
  /-- The sender is not this device's master. -/
  | ignoredNotMaster
  /-- The cache does not hold the link. -/
  | ignoredUnknownLink
  /-- The directory does not list the link. -/
  | reconciliationMismatch
  | directoryUnavailable (reason : DirectoryError)
  deriving DecidableEq, Repr

/-- A control message waits for the verdict of the session that was active when it came. -/
structure Judging where
  session : String
  intent : LinkIntent
  profile : Option ProfileUpdate
  deriving DecidableEq, Repr

/-- A control message waits for a session, or its outcome is known. -/
inductive LinkStep where
  | waits (j : Judging)
  | ends (outcome : LinkOutcome)

/-- An unlink request that waits for the directory. -/
inductive Unlinking where
  /-- For its view of `device`, this one. -/
  | confirming (sender device : Identity)
  /-- For the removal of `link`; then come the links of `rest`. -/
  | removing (link : DeviceLink) (rest : List DeviceLink) (removed : Nat)
  deriving DecidableEq, Repr

/-- An unlink request goes on waiting, or its outcome is known. -/
inductive UnlinkStep where
  | waits (u : Unlinking)
  | ends (outcome : UnlinkOutcome)

namespace Node

/-! ## Control messages -/

/-- A link control message comes in. -/
def receiveLink (n : Node) (m : LinkControl) : LinkStep × Node :=
  match m.intent with
  | .error field => (.ends (.droppedMalformed field), n)
  | .ok intent =>
    match n.session, intent with
    | some session, _ => (.waits ⟨session, intent, m.profile⟩, n)
    | none, .request master slave _ =>
      (.ends .unexpectedRequestNotified,
        n.note (.notified (.unexpectedLinkRequest master slave)))
    | none, .authorization .. => (.ends .droppedNoSession, n)

/-- The profile that came with an accepted authorisation is stored; the answer says whether it
was. -/
def applyProfile (n : Node) (clock : Clock) (master : Identity) (profile : Option ProfileUpdate) :
    Bool × Node :=
  match profile.filter (!·.isEmpty) with
  | none => (false, n)
  | some update =>
    match n.attempt (Store.writeProfile clock master update) with
    | (.ok (), n) => (true, n)
    | (.error _, n) => (false, n)

/-- An authorisation was accepted: the link is recorded, the other side is trusted from now on, and
the profile that came along is stored. -/
def authorize (n : Node) (clock : Clock) (master slave : Identity)
    (masterSignature slaveSignature : Octets) (profile : Option ProfileUpdate) :
    LinkOutcome × Node :=
  let link : DeviceLink := ⟨⟨master, some masterSignature⟩, ⟨slave, some slaveSignature⟩⟩
  let (links, store) := n.links.record n.store link
  let n := { n with links, store }
  let counterpart := if n.settings.localIdentity = slave then master else slave
  let n := n.effect (markEstablished counterpart)
  let (applied, n) := n.applyProfile clock master profile
  (.authorized applied, n)

/-- The session has judged a control message. -/
def concludeLink (n : Node) (clock : Clock) (j : Judging) (verdict : Verdict) :
    LinkOutcome × Node :=
  match j.intent, verdict with
  | .request .., .ok () => (.requestForwarded, n)
  | .request .., .error e => (.requestRejected e, n)
  | .authorization .., .error e => (.authorizationRejected e, n)
  | .authorization master slave masterSignature slaveSignature, .ok () =>
    n.authorize clock master slave masterSignature slaveSignature j.profile

/-! ## Unlink requests -/

/-- The removals of an unlink go on with the next link, or the unlink is complete: the device is
marked and the application asked to wipe its data. -/
def continueUnlink (n : Node) (rest : List DeviceLink) (removed : Nat) : UnlinkStep × Node :=
  match rest with
  | link :: rest => (.waits (.removing link rest removed), n)
  | [] =>
    (.ends (.unlinked removed),
      (n.effect (Store.setUnlinked true)).note (.notified .dataWipeRequested))

/-- The directory's view of this device is known. -/
def confirmUnlink (n : Node) (sender : Identity) (view : DirectoryAnswer) : UnlinkStep × Node :=
  match view with
  | .error e => (.ends (.directoryUnavailable e), n)
  | .ok links =>
    match links.filter (·.Matches sender n.settings.localIdentity) with
    | [] => (.ends .reconciliationMismatch, n)
    | matching => n.continueUnlink matching 0

/-- An unlink request comes in. -/
def receiveUnlink (n : Node) (clock : Clock) (sender : Identity) : UnlinkStep × Node :=
  let device := n.settings.localIdentity
  if n.links.masterOf device ≠ sender then (.ends .ignoredNotMaster, n)
  else if ¬ n.links.table.Contains sender device then (.ends .ignoredUnknownLink, n)
  else
    match n.links.recentView n.settings.maxViewAge clock.instant device with
    | some view => n.confirmUnlink sender (.ok view)
    | none => (.waits (.confirming sender device), n)

/-- The directory has answered an unlink request that waited for its view. -/
def resumeUnlink (n : Node) (u : Unlinking) (answer : DirectoryAnswer) : UnlinkStep × Node :=
  match u with
  | .confirming sender _ => n.confirmUnlink sender answer
  | .removing .. => (.waits u, n)

/-- The directory has answered the removal of a link; the link is dropped here in either case. -/
def removedRemotely (n : Node) (u : Unlinking) (result : Except DirectoryError Unit) :
    UnlinkStep × Node :=
  match u with
  | .confirming .. => (.waits u, n)
  | .removing link rest removed =>
    let (links, store) := n.links.evict n.store link
    { n with links, store }.continueUnlink rest (if result.isOk then removed + 1 else removed)

end Node

end Courier
