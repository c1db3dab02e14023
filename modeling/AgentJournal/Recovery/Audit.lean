import AgentJournal.Recovery.Snapshot
import AgentJournal.Storage.Verify

/-! # The external recovery audit

The audit is a second database beside the central one. Every audited write leaves an event
with the next revision and the snapshot it is about to commit; the event is resolved only
after the central commit. A closed gate or an unresolved head refuses service.
-/

namespace AgentJournal.Recovery
open Domain Foundation Storage

/-- All probes against one snapshot of the database. -/
def verify (P : Platform) (c : Central) : Fallible RecoveryVerification := do
  refuseIf (c.integrityCheck P = false) "SQLite integrity probe failed"
  refuseIf (c.foreignKeyCheck = false) "foreign key probe failed"
  refuseIf (c.ftsProbe = false) "FTS content probe failed"
  refuseIf (c.sequenceProbe = false) "sequence probe failed"
  refuseIf (c.mailboxAttentionProbe = false) "mailbox attention probe failed"
  refuseIf (c.inboxAllocationProbe = false) "inbox allocation probe failed"
  return ⟨c.tables.map fun t => hashTable P t.1 t.2, spaceHeads c⟩

inductive Gate where
  | opened
  | closed
deriving DecidableEq, Repr

inductive Outcome where
  | prepared
  | committed
  | reconciled
deriving DecidableEq, Repr

structure Event where
  revision : ℤ
  snapshot : Option Snapshot
  outcome : Outcome
deriving DecidableEq, Repr

structure RecoveryApproval where
  verification : RecoveryVerification
  auditRevision : ℤ
  previousSpaceHeads : List (String × ℤ)
  reconciledClients : List String
  inventoryComplete : Bool
  acceptedRecordLoss : Bool
deriving DecidableEq, Repr

/-- The marker of a crash recovery whose private copy was proved against the audit. -/
structure Verified where
  recoveryId : String
  auditRevision : ℤ
  verification : RecoveryVerification
deriving DecidableEq, Repr

/-- A row of `recovery_events`: its kind with the detail it carries. -/
inductive RecoveryEvent where
  | closed
  | backup (verification : RecoveryVerification)
  | reconciled (approval : RecoveryApproval)
  | verifiedRestore (approval : RecoveryApproval)
  | crashRecovered (verified : Verified)
deriving DecidableEq, Repr

/-- `events` is listed by revision, its INTEGER PRIMARY KEY; `recoveryEvents` by id. -/
structure Audit where
  journalId : String
  state : Gate
  events : List Event
  recoveryEvents : List RecoveryEvent
deriving DecidableEq, Repr

def maxRevision : ℤ := 2 ^ 63 - 1

def checkedSucc (revision : ℤ) : Fallible ℤ :=
  if revision + 1 > maxRevision then closed "audit revision exhausted" else .ok (revision + 1)

namespace Audit
variable (a : Audit)

/-- `ORDER BY revision DESC LIMIT 1`. -/
def head : Fallible Event :=
  match a.events.getLast? with
  | some e => .ok e
  | none => .error (.sqlite .queryReturnedNoRows)

def headSnapshot : Fallible Snapshot := do
  let e ← a.head
  match e.snapshot with
  | some s => .ok s
  | none => closed "recovery audit head snapshot is missing"

/-- `INSERT INTO events`: the table stays in revision order. -/
def insertEvent (e : Event) : Fallible Audit :=
  if a.events.any fun x => x.revision = e.revision then
    .error (.sqlite (.constraint .primaryKey))
  else .ok { a with events := a.events.orderedInsert (fun x y => x.revision ≤ y.revision) e }

def record (e : RecoveryEvent) : Audit := { a with recoveryEvents := a.recoveryEvents ++ [e] }

/-- The evidence of one crash recovery is inserted where it is not there yet. -/
def recordCrashRecovery (verified : Verified) : Audit :=
  if .crashRecovered verified ∈ a.recoveryEvents then a else a.record (.crashRecovered verified)

/-- `UPDATE events SET outcome=? WHERE ..`. -/
def resolve (outcome : Outcome) (p : Event → Bool) : Audit :=
  { a with events := a.events.map fun e => if p e then { e with outcome := outcome } else e }

/-- Once a revision resolves, earlier snapshots are no longer authoritative. -/
def releaseSupersededSnapshots (revision : ℤ) : Audit :=
  { a with events := a.events.map fun e =>
      if e.revision < revision then { e with snapshot := none } else e }

def ensureOpen (c : Central) : Fallible Unit := do
  let e ← a.head
  refuseIf (a.state ≠ .opened ∨ e.outcome = .prepared ∨ e.revision ≠ c.recoveryAnchor.revision)
    "audit intent, restore, or reconciliation is unresolved"

/-- The durable half of `prepare`: the intent with the snapshot about to be committed. -/
def prepareIntent (tx : Central) : Fallible (ℤ × Audit) := do
  let e ← a.head
  refuseIf (e.outcome = .prepared) "external intent is unresolved"
  let revision ← checkedSucc e.revision
  let a ← a.insertEvent ⟨revision, some (snapshot tx), .prepared⟩
  return (revision, a)

def committed (revision : ℤ) : Fallible Audit := do
  refuseIf ((a.events.countP fun e => e.revision = revision && e.outcome = .prepared) ≠ 1)
    "audit completion did not match intent"
  return (a.resolve .committed fun e => e.revision = revision && e.outcome = .prepared)
    |>.releaseSupersededSnapshots revision

def close : Audit := { a with state := .closed }.record .closed

def requireResolvedRecoveryInput : Fallible Unit := do
  let e ← a.head
  refuseIf (e.outcome = .prepared)
    "archive/reset required: uncertain audit intent cannot be reconciled; preserve the database and external audit; a completed reconciliation may only reopen with its matching approval"

end Audit

/-- `UPDATE recovery_anchor SET revision=?`. -/
def setRevision (revision : ℤ) (c : Central) : Central :=
  { c with recoveryAnchor := { c.recoveryAnchor with revision := revision } }

/-- `UPDATE recovery_anchor SET revision=?1,audit_required=1,inbox_epoch=?1`. -/
def setReconciled (revision : ℤ) (c : Central) : Central :=
  { c with recoveryAnchor := { c.recoveryAnchor with
      revision := revision, auditRequired := true, inboxEpoch := revision } }

/-- `UPDATE recovery_anchor SET audit_required=1`. -/
def setRequired (c : Central) : Central :=
  { c with recoveryAnchor := { c.recoveryAnchor with auditRequired := true } }

/-- `SELECT id FROM principals ORDER BY id`. -/
def clientInventory (c : Central) : List String := (ordered c.principals).map (·.id)

structure AuditLineage where
  journalId : String
  revision : ℤ
  snapshot : Snapshot
deriving DecidableEq, Repr

namespace Audit
variable (a : Audit)

/-- The loop of `read_open_lineage`: revisions count up from `expected`, every outcome is
resolved, and only the last event keeps its body. -/
def checkLineage (last : ℤ) : ℤ → List Event → Fallible Unit
  | _, [] => .ok ()
  | expected, e :: rest => do
    refuseIf (e.revision ≠ expected ∨ e.outcome = .prepared)
      "recovery audit lineage is incomplete or unresolved"
    refuseIf (e.snapshot.isSome ≠ decide (e.revision = last))
      "recovery audit snapshot retention is inconsistent"
    checkLineage last (expected + 1) rest

def readOpenLineage : Fallible AuditLineage := do
  refuseIf (a.state ≠ .opened ∨ a.events = [])
    "audit intent, restore, or reconciliation is unresolved"
  let last : ℤ := a.events.length - 1
  checkLineage last 0 a.events
  let s ← a.headSnapshot
  return ⟨a.journalId, last, s⟩

def verifyLineageMatches (c : Central) (lineage : AuditLineage) : Fallible Unit :=
  refuseIf (lineage.journalId ≠ c.recoveryAnchor.journalId ∨
    lineage.revision ≠ c.recoveryAnchor.revision ∨ lineage.snapshot ≠ snapshot c)
    "recovery audit does not match the central UUID-native lineage"

def preflightExisting (c : Central) : Fallible ℤ := do
  let lineage ← a.readOpenLineage
  verifyLineageMatches c lineage
  return lineage.revision

/-- The audit written for an unadopted revision-zero database. -/
def initial (c : Central) : Audit where
  journalId := c.recoveryAnchor.journalId
  state := .opened
  events := [⟨0, some (snapshot c), .committed⟩]
  recoveryEvents := []

/-- The newest reconciliation evidence. -/
def latestReconciled : Option RecoveryApproval :=
  a.recoveryEvents.reverse.findSome? fun
    | .reconciled approval => some approval
    | _ => none

/-- What the newest reconciliation recorded, with both attestations given. -/
def expectedApproval : Fallible RecoveryApproval :=
  match a.latestReconciled with
  | some recorded => .ok { recorded with acceptedRecordLoss := true, inventoryComplete := true }
  | none => closed "reconciliation is missing"

/-- `reopen`: one audit transaction once every check has passed. -/
def reopen (P : Platform) (c : Central) (approval : RecoveryApproval) : Fallible Audit := do
  let e ← a.head
  let verification ← verify P c
  let recorded ← a.expectedApproval
  refuseIf (approval.acceptedRecordLoss = false ∨ approval.inventoryComplete = false ∨
    e.revision ≠ approval.auditRevision ∨ e.revision ≠ c.recoveryAnchor.revision ∨
    approval.verification ≠ verification ∨ recorded ≠ approval ∨
    approval.reconciledClients ≠ clientInventory c)
    "recovery approval does not match probed state and inventory"
  refuseIf (∃ r ∈ c.credentials, r.revokedAt = none) "restored credentials are not revoked"
  let resolved := (a.resolve .reconciled fun x => x.revision = e.revision)
    |>.releaseSupersededSnapshots e.revision
  return { resolved with state := .opened }.record (.verifiedRestore approval)

/-- The computation of `reconcile` up to its audit insert: the merged database and the audit
with the intent. -/
def reconcileIntent (P : Platform) (clock : RestoreClock) (c : Central) :
    Fallible (ℤ × Central × Audit) := do
  let e ← a.head
  let latest ← a.headSnapshot
  refuseIf (a.journalId ≠ c.recoveryAnchor.journalId) "restore belongs to another journal"
  refuseIf (c.recoveryAnchor.revision > e.revision) "external audit is older than central state"
  let restored ← restoreSecurity P clock c latest
  refuseIf (restored.foreignKeyCheck = false) "restored identity bindings violate foreign keys"
  let revision ← checkedSucc e.revision
  let a ← a.insertEvent ⟨revision, some (snapshot restored), .prepared⟩
  return (revision, restored, a)

/-- The approval template a finished reconciliation records. -/
def evidence (P : Platform) (revision : ℤ) (latest : Snapshot) (c : Central) :
    Fallible RecoveryApproval := do
  let verification ← verify P c
  return ⟨verification, revision, latest.spaceHeads, clientInventory c, false, false⟩

end Audit
end AgentJournal.Recovery
