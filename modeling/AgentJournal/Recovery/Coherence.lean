import AgentJournal.Recovery.Lineage
import AgentJournal.Recovery.Move

/-! # The store follows its lineage

In every reachable state the stored contents are members of one lineage, the newest audit
event describes its newest content or an intent directly above it, and the owner of the audit
is at a step which that event allows. Every action is shown to keep this once; the results on
admission are read off it.
-/

namespace AgentJournal.Recovery
open Domain Foundation Storage

variable (P : Platform) (ops : Set Operation) (start : Central → Prop)

/-- What the audit and the lineage say about the call the owner is running. -/
def TaskCoherent (w : World) (a : Audit) (h : Event) (top : Central) : Task → Prop
  | .idle | .tool => True
  | .serving f => ∃ c, w.files f = some c ∧ c.recoveryAnchor.auditRequired = true
  | .operated f tx => h.outcome ≠ .prepared ∧ w.files f = some top ∧
      ∃ op n, op ∈ ops ∧ op.run top = some (tx, n + 1)
  | .intended f tx r => w.files f = some top ∧ h = ⟨r, some (snapshot tx), .prepared⟩ ∧
      r = top.recoveryAnchor.revision + 1 ∧ (r, .ordinary) ∈ w.writers ∧
      ∃ op n, op ∈ ops ∧ op.run top = some (tx, n + 1)
  | .anchored f tx r => w.files f = some top ∧ h = ⟨r, some (snapshot tx), .prepared⟩ ∧
      r = top.recoveryAnchor.revision + 1 ∧ (r, .ordinary) ∈ w.writers ∧
      ∃ op n operated, op ∈ ops ∧ op.run top = some (operated, n + 1) ∧ tx = setRevision r operated
  | .landed f r => w.files f = some top ∧ h.revision = r ∧ h.outcome = .prepared ∧
      top.recoveryAnchor.revision = r ∧ (r, .ordinary) ∈ w.writers
  | .restoring _ _ | .restored _ => a.state = .closed
  | .fenced _ => a.state = .closed ∧ h.outcome ≠ .prepared
  | .reconcileIntended _ tx r latest => a.state = .closed ∧
      h = ⟨r, some (snapshot tx), .prepared⟩ ∧ r = top.recoveryAnchor.revision + 1 ∧
      latest = snapshot top ∧ (r, .reconcile) ∈ w.writers ∧
      ∃ backup clock, backup ∈ w.history ∧
        restoreSecurity P clock backup (snapshot top) = .ok tx ∧ tx.foreignKeyCheck = true
  | .reconcileLanded _ r _ => a.state = .closed ∧ h.revision = r ∧ h.outcome = .prepared ∧
      top.recoveryAnchor.revision = r ∧ (r, .reconcile) ∈ w.writers

/-- The newest event describes the newest content, or an intent that has not landed. -/
def Describes (h : Event) (top : Central) : Prop :=
  (h.revision = top.recoveryAnchor.revision ∧ h.snapshot = some (snapshot top)) ∨
    (h.revision = top.recoveryAnchor.revision + 1 ∧ h.outcome = .prepared)

structure Coherent (w : World) (a : Audit) (h : Event) (top : Central) (older : List Central) :
    Prop where
  lineage : Lineage P ops start (top :: older)
  ledger : a.Ledger h
  describes : Describes h top
  journal : a.journalId = top.recoveryAnchor.journalId
  stored : ∀ f c, w.files f = some c → c ∈ w.history
  known : ∀ c ∈ w.history, setRequired c ∈ top :: older
  committed : ∃ c ∈ w.history, setRequired c = top
  adopted : ∀ c ∈ w.history, c.recoveryAnchor.revision ≠ 0 → c.recoveryAnchor.auditRequired = true
  evidence : ∀ approval, .reconciled approval ∈ a.recoveryEvents →
    (approval.auditRevision, .reconcile) ∈ w.writers
  allocated : ∀ x ∈ w.writers, x.1 ≤ h.revision
  allocatedOnce : ∀ r k k', (r, k) ∈ w.writers → (r, k') ∈ w.writers → k = k'
  task : TaskCoherent P ops w a h top w.task

/-- Before the first audit there is one content and no owner. -/
structure Fresh (w : World) : Prop where
  content : ∃ c, start c ∧ c.recoveryAnchor.revision = 0 ∧
    c.recoveryAnchor.auditRequired = false ∧ ∀ d ∈ w.history, d = c
  stored : ∀ f c, w.files f = some c → c ∈ w.history
  idle : w.task = .idle
  writers : w.writers = []

def Sound (w : World) : Prop :=
  match w.audit with
  | none => Fresh start w
  | some a => ∃ h top older, Coherent P ops start w a h top older

variable {P ops start}
variable {w w' : World} {a : Audit} {h : Event} {top : Central} {older : List Central}

theorem sound_of_fresh (hnone : w.audit = none) (hf : Fresh start w) : Sound P ops start w := by
  unfold Sound
  rw [hnone]
  exact hf

theorem sound_of_coherent (haudit : w.audit = some a) (hc : Coherent P ops start w a h top older) :
    Sound P ops start w := by
  unfold Sound
  rw [haudit]
  exact ⟨h, top, older, hc⟩

namespace Coherent

theorem content_of_revision (hc : Coherent P ops start w a h top older) {c : Central}
    (hmem : c ∈ w.history) (hrequired : c.recoveryAnchor.auditRequired = true)
    (hr : c.recoveryAnchor.revision = top.recoveryAnchor.revision) : c = top := by
  have hknown := hc.known c hmem
  rw [setRequired_eq hrequired] at hknown
  exact hc.lineage.eq_of_revision hknown List.mem_cons_self hr

/-- A resolved head describes the newest content. -/
theorem resolved (hc : Coherent P ops start w a h top older) (hres : h.outcome ≠ .prepared) :
    h.revision = top.recoveryAnchor.revision ∧ h.snapshot = some (snapshot top) := by
  rcases hc.describes with hd | ⟨-, hprepared⟩
  · exact hd
  · exact absurd hprepared hres

theorem history_revision_le (hc : Coherent P ops start w a h top older) {c : Central}
    (hmem : c ∈ w.history) : c.recoveryAnchor.revision ≤ h.revision := by
  have hle := hc.lineage.revision_le (hc.known c hmem)
  rw [setRequired_revision] at hle
  rcases hc.describes with ⟨hr, -⟩ | ⟨hr, -⟩ <;> omega

/-- The lineage, the allocations and the newest event are untouched. -/
theorem frame (hc : Coherent P ops start w a h top older) {b : Audit}
    (hhistory : w'.history = w.history) (hwriters : w'.writers = w.writers)
    (hstored : ∀ f c, w'.files f = some c → c ∈ w.history) (hledger : b.Ledger h)
    (hjournal : b.journalId = a.journalId)
    (hevidence : ∀ approval, .reconciled approval ∈ b.recoveryEvents →
      .reconciled approval ∈ a.recoveryEvents ∨ (approval.auditRevision, .reconcile) ∈ w.writers)
    (htask : TaskCoherent P ops w' b h top w'.task) :
    Coherent P ops start w' b h top older where
  lineage := hc.lineage
  ledger := hledger
  describes := hc.describes
  journal := hjournal.trans hc.journal
  stored := hhistory ▸ hstored
  known := hhistory ▸ hc.known
  committed := hhistory ▸ hc.committed
  adopted := hhistory ▸ hc.adopted
  evidence approval happroval := by
    rw [hwriters]
    exact (hevidence approval happroval).elim (hc.evidence approval) id
  allocated := hwriters ▸ hc.allocated
  allocatedOnce := hwriters ▸ hc.allocatedOnce
  task := htask

/-- Only the owner moves. -/
theorem move (hc : Coherent P ops start w a h top older) {task : Task}
    (htask : TaskCoherent P ops { w with task := task } a h top task) :
    Coherent P ops start { w with task := task } a h top older :=
  hc.frame rfl rfl hc.stored hc.ledger rfl (fun _ => .inl) htask

/-- A file receives a content that was committed before. -/
theorem stored_put (hc : Coherent P ops start w a h top older) {file : String} {d : Central}
    (hd : d ∈ w.history) : ∀ f c, w.put file d f = some c → c ∈ w.history := by
  intro f c hput
  unfold World.put at hput
  split at hput
  · cases hput
    exact hd
  · exact hc.stored f c hput

end Coherent

end AgentJournal.Recovery
