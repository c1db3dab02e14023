import AgentJournal.Foundation.Machine
import AgentJournal.Recovery.Audit

/-! # The protected store as a system

The world holds the external audit, every central file of the journal and the process that
owns the audit, stopped at one of the durable steps of the call it is running. Each action
is one such step; an action of the process can be replaced by an error return or by its death.
The last two fields record, for the statements only, which contents were ever committed and
which kind of call allocated each revision.
-/

namespace AgentJournal.Recovery
open Domain Foundation Storage

/-- A closure run by `with_transaction_for`. It returns the database of its open transaction
with the number of rows it changed, or fails. Rows change only through counted statements,
and the anchor only through the audit. -/
structure Operation where
  run : Central → Option (Central × ℕ)
  counted : ∀ c c', run c = some (c', 0) → c' = c
  anchored : ∀ c c' n, run c = some (c', n) → c'.recoveryAnchor = c.recoveryAnchor

/-- Which call allocated a revision. -/
inductive Writer where
  | baseline
  | ordinary
  | reconcile
deriving DecidableEq, Repr

/-- The owner of the audit between two durable steps. -/
inductive Task where
  /-- No process owns the audit. -/
  | idle
  /-- A protected handle on this file waits for calls. -/
  | serving (file : String)
  /-- `with_transaction_for`: the closure changed rows; nothing is durable. -/
  | operated (file : String) (tx : Central)
  /-- The intent is in the audit; the transaction is open. -/
  | intended (file : String) (tx : Central) (revision : ℤ)
  /-- The transaction also carries the new anchor. -/
  | anchored (file : String) (tx : Central) (revision : ℤ)
  /-- The central commit returned; the completion is outstanding. -/
  | landed (file : String) (revision : ℤ)
  /-- The recovery tool waits for commands. -/
  | tool
  /-- `restore` closed the gate. -/
  | restoring (backup destination : String)
  /-- `restore` copied the backup and is about to reconcile the destination. -/
  | restored (destination : String)
  /-- `reconcile` closed the gate. -/
  | fenced (file : String)
  /-- `reconcile` wrote its intent; its transaction is open. -/
  | reconcileIntended (file : String) (tx : Central) (revision : ℤ) (latest : Snapshot)
  /-- The reconciled database is committed; the evidence is not recorded. -/
  | reconcileLanded (file : String) (revision : ℤ) (latest : Snapshot)

def Task.isIdle : Task → Bool
  | .idle => true
  | _ => false

def Task.isTool : Task → Bool
  | .tool => true
  | _ => false

structure World where
  audit : Option Audit
  files : String → Option Central
  task : Task
  history : List Central
  writers : List (ℤ × Writer)

inductive Action where
  /-- A fresh audit is published for an unadopted revision-zero file. -/
  | publish (file : String)
  /-- A published matching audit is bound to its file. -/
  | adopt (file : String)
  /-- `open_protected` returns a handle. -/
  | serve (file : String)
  /-- Startup records the evidence of a replayed abrupt stop. -/
  | recordCrash (file : String) (verified : Verified)
  | operate (op : Operation)
  | intend
  | anchor
  | commit
  /-- The commit took effect and reported a failure. -/
  | commitLost
  | complete
  /-- The running call returns an error; an open transaction is rolled back. -/
  | abort
  /-- The process dies. -/
  | kill
  /-- A byte copy of a central file. -/
  | copy (source target : String)
  /-- The recovery tool takes the audit. -/
  | startTool
  | close
  | backup (file destination : String)
  | restore (backup destination : String) (quiesced : Bool)
  | restoreCopy
  | restoreReconcile
  | reconcile (file : String) (quiesced : Bool)
  | reconcileIntend (clock : RestoreClock)
  | reconcileCommit
  | reconcileCommitLost
  | reconcileRecord
  | reopen (file : String) (approval : RecoveryApproval)

/-- Where the owner is after its running call returned an error. -/
def Task.aborted : Task → Task
  | .idle => .idle
  | .serving f | .operated f _ | .intended f _ _ | .anchored f _ _ | .landed f _ => .serving f
  | _ => .tool

/-- `adopt_published_baseline`: only the exact unadopted baseline is changed. -/
def adoptPublishedBaseline (a : Audit) (c : Central) : Fallible Central :=
  if c.recoveryAnchor.auditRequired then .ok c
  else do
    refuseIf (c.recoveryAnchor.revision ≠ 0) "required external audit is missing"
    let lineage ← a.readOpenLineage
    Audit.verifyLineageMatches c lineage
    return setRequired c

/-- `open_protected` on an existing file with an existing audit, once any hot state is replayed. -/
def openProtected (a : Audit) (c : Central) : Fallible Central := do
  let _ ← a.preflightExisting c
  let adopted ← adoptPublishedBaseline a c
  a.ensureOpen adopted
  return adopted

namespace World
variable (w : World)

def put (file : String) (c : Central) : String → Option Central :=
  fun g => if g = file then some c else w.files g

/-- A central commit: the file gets the transaction's contents. -/
def land (file : String) (c : Central) (task : Task) : World :=
  { w with files := w.put file c, history := c :: w.history, task := task }

/-- An intent is written for a new revision. -/
def allocate (audit : Audit) (revision : ℤ) (writer : Writer) (task : Task) : World :=
  { w with audit := some audit, writers := (revision, writer) :: w.writers, task := task }

end World

/-- One durable step. Each branch follows the call the task stopped in. -/
def step (P : Platform) (w : World) : Action → Option World
  | .publish f => do
    let c ← w.files f
    guard (w.audit.isNone ∧ c.recoveryAnchor.auditRequired = false ∧ c.recoveryAnchor.revision = 0)
    return { w with audit := some (.initial c), writers := (0, .baseline) :: w.writers }
  | .adopt f => do
    let a ← w.audit
    let c ← w.files f
    guard (w.task.isIdle ∧ c.recoveryAnchor.auditRequired = false)
    let _ ← succeeded (a.preflightExisting c)
    let c ← succeeded (adoptPublishedBaseline a c)
    return w.land f c .idle
  | .serve f => do
    let a ← w.audit
    let c ← w.files f
    guard (w.task.isIdle ∧ c.recoveryAnchor.auditRequired = true)
    let _ ← succeeded (openProtected a c)
    return { w with task := .serving f }
  | .recordCrash f verified => do
    let a ← w.audit
    let c ← w.files f
    guard (w.task.isIdle)
    let _ ← succeeded (openProtected a c)
    return { w with audit := some (a.recordCrashRecovery verified) }
  | .operate op => do
    let .serving f := w.task | none
    let a ← w.audit
    let c ← w.files f
    let _ ← succeeded (a.ensureOpen c)
    let (tx, changes) ← op.run c
    if changes = 0 then return { w with files := w.put f tx }
    return { w with task := .operated f tx }
  | .intend => do
    let .operated f tx := w.task | none
    let a ← w.audit
    let (revision, a) ← succeeded (a.prepareIntent tx)
    return w.allocate a revision .ordinary (.intended f tx revision)
  | .anchor => do
    let .intended f tx revision := w.task | none
    return { w with task := .anchored f (setRevision revision tx) revision }
  | .commit => do
    let .anchored f tx revision := w.task | none
    return w.land f tx (.landed f revision)
  | .commitLost => do
    let .anchored f tx _ := w.task | none
    return w.land f tx (.serving f)
  | .complete => do
    let .landed f revision := w.task | none
    let a ← w.audit
    let a ← succeeded (a.committed revision)
    return { w with audit := some a, task := .serving f }
  | .abort => some { w with task := w.task.aborted }
  | .kill => some { w with task := .idle }
  | .copy source target => do
    let c ← w.files source
    guard (w.task.isIdle ∨ (w.files target).isNone)
    return { w with files := w.put target c }
  | .startTool => do
    let a ← w.audit
    guard (w.task.isIdle)
    let _ ← succeeded a.head
    return { w with task := .tool }
  | .close => do
    let a ← w.audit
    guard (w.task.isTool)
    return { w with audit := some a.close }
  | .backup f destination => do
    let a ← w.audit
    let c ← w.files f
    guard (w.task.isTool ∧ (w.files destination).isNone)
    let _ ← succeeded (a.ensureOpen c)
    let verification ← succeeded (verify P c)
    return { w with files := w.put destination c, audit := some (a.record (.backup verification)) }
  | .restore backup destination quiesced => do
    let a ← w.audit
    guard (w.task.isTool)
    let _ ← succeeded a.requireResolvedRecoveryInput
    return { w with audit := some a.close,
                    task := if quiesced then .restoring backup destination else .tool }
  | .restoreCopy => do
    let .restoring backup destination := w.task | none
    let a ← w.audit
    let c ← w.files backup
    let _ ← succeeded (verify P c)
    let latest ← succeeded a.headSnapshot
    let _ ← succeeded (validateCredentialHistory c latest)
    let _ ← succeeded (validateSecurityHistory c latest)
    guard (w.files destination).isNone
    return { w with files := w.put destination c, task := .restored destination }
  | .restoreReconcile => do
    let .restored f := w.task | none
    let a ← w.audit
    let _ ← succeeded a.requireResolvedRecoveryInput
    return { w with audit := some a.close, task := .fenced f }
  | .reconcile f quiesced => do
    let a ← w.audit
    guard (w.task.isTool)
    let _ ← succeeded a.requireResolvedRecoveryInput
    return { w with audit := some a.close, task := if quiesced then .fenced f else .tool }
  | .reconcileIntend clock => do
    let .fenced f := w.task | none
    let a ← w.audit
    let c ← w.files f
    let latest ← succeeded a.headSnapshot
    let (revision, tx, a) ← succeeded (a.reconcileIntent P clock c)
    return w.allocate a revision .reconcile (.reconcileIntended f tx revision latest)
  | .reconcileCommit => do
    let .reconcileIntended f tx revision latest := w.task | none
    return w.land f (setReconciled revision tx) (.reconcileLanded f revision latest)
  | .reconcileCommitLost => do
    let .reconcileIntended f tx revision _ := w.task | none
    return w.land f (setReconciled revision tx) .tool
  | .reconcileRecord => do
    let .reconcileLanded f revision latest := w.task | none
    let a ← w.audit
    let c ← w.files f
    let approval ← succeeded (Audit.evidence P revision latest c)
    return { w with audit := some (a.record (.reconciled approval)), task := .tool }
  | .reopen f approval => do
    let a ← w.audit
    let c ← w.files f
    guard (w.task.isTool)
    let a ← succeeded (a.reopen P c approval)
    return { w with audit := some a }

/-- The state after a list of actions, when each of them can be taken. -/
def trace (P : Platform) (w : World) (actions : List Action) : Option World :=
  actions.foldlM (step P) w

/-- One unadopted file at revision zero and no audit. -/
def World.initial (file : String) (c : Central) : World where
  audit := none
  files g := if g = file then some c else none
  task := .idle
  history := [c]
  writers := []

/-- The runs of the store whose audited closures are taken from `ops`. -/
def machine (P : Platform) (ops : Set Operation) (start : Central → Prop) :
    Machine World Action where
  start w := ∃ file c, start c ∧ c.recoveryAnchor.revision = 0 ∧
    c.recoveryAnchor.auditRequired = false ∧ w = World.initial file c
  step w action w' := (∀ op, action = .operate op → op ∈ ops) ∧ step P w action = some w'

theorem run_of_trace {P : Platform} {ops : Set Operation} {start : Central → Prop} :
    ∀ (actions : List Action) {w w' : World}, trace P w actions = some w' →
      (∀ op, .operate op ∈ actions → op ∈ ops) → (machine P ops start).Run w actions w'
  | [], w, w', h, _ => by
    cases h
    exact .nil
  | action :: actions, w, w', h, hops => by
    simp only [trace, List.foldlM_cons, Option.bind_eq_bind, Option.bind_eq_some_iff] at h
    obtain ⟨u, hu, h⟩ := h
    have hfirst : (machine P ops start).Run w [action] u := .single
      ⟨fun op heq => hops op (heq ▸ List.mem_cons_self), hu⟩
    exact hfirst.append (run_of_trace actions h fun op hop => hops op (List.mem_cons_of_mem _ hop))

end AgentJournal.Recovery
