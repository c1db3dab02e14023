import AgentJournal.Recovery.World

/-! # What one step can do

The step function as a relation: for each action, what it found and the state it left. Every
invariant of the store is proved by cases over this relation.
-/

namespace AgentJournal.Recovery
open Domain Foundation Storage

theorem Task.eq_idle {t : Task} (h : t.isIdle = true) : t = .idle := by
  cases t <;> first | rfl | cases h

theorem Task.eq_tool {t : Task} (h : t.isTool = true) : t = .tool := by
  cases t <;> first | rfl | cases h

inductive Move (P : Platform) (w : World) : Action → World → Prop
  | publish {f : String} {c : Central} : w.audit = none → w.files f = some c →
      Move P w (.publish f)
        { w with audit := some (.initial c), writers := (0, .baseline) :: w.writers }
  | adopt {f : String} {a : Audit} {c d : Central} : w.audit = some a → w.files f = some c →
      w.task = .idle → c.recoveryAnchor.auditRequired = false →
      adoptPublishedBaseline a c = .ok d → Move P w (.adopt f) (w.land f d .idle)
  | serve {f : String} {a : Audit} {c d : Central} : w.audit = some a → w.files f = some c →
      w.task = .idle → c.recoveryAnchor.auditRequired = true → openProtected a c = .ok d →
      Move P w (.serve f) { w with task := .serving f }
  | recordCrash {f : String} {verified : Verified} {a : Audit} : w.audit = some a →
      w.task = .idle →
      Move P w (.recordCrash f verified)
        { w with audit := some (a.recordCrashRecovery verified) }
  | operateUnchanged {op : Operation} : Move P w (.operate op) w
  | operate {op : Operation} {f : String} {a : Audit} {c tx : Central} {n : ℕ} :
      w.task = .serving f → w.audit = some a → w.files f = some c → a.ensureOpen c = .ok () →
      op.run c = some (tx, n + 1) → Move P w (.operate op) { w with task := .operated f tx }
  | intend {f : String} {a b : Audit} {tx : Central} {revision : ℤ} : w.task = .operated f tx →
      w.audit = some a → a.prepareIntent tx = .ok (revision, b) →
      Move P w .intend (w.allocate b revision .ordinary (.intended f tx revision))
  | anchor {f : String} {tx : Central} {revision : ℤ} : w.task = .intended f tx revision →
      Move P w .anchor { w with task := .anchored f (setRevision revision tx) revision }
  | commit {f : String} {tx : Central} {revision : ℤ} : w.task = .anchored f tx revision →
      Move P w .commit (w.land f tx (.landed f revision))
  | commitLost {f : String} {tx : Central} {revision : ℤ} : w.task = .anchored f tx revision →
      Move P w .commitLost (w.land f tx (.serving f))
  | complete {f : String} {a b : Audit} {revision : ℤ} : w.task = .landed f revision →
      w.audit = some a → a.committed revision = .ok b →
      Move P w .complete { w with audit := some b, task := .serving f }
  | abort : Move P w .abort { w with task := w.task.aborted }
  | kill : Move P w .kill { w with task := .idle }
  | copy {source target : String} {c : Central} : w.files source = some c →
      (w.task = .idle ∨ w.files target = none) →
      Move P w (.copy source target) { w with files := w.put target c }
  | startTool {a : Audit} : w.audit = some a → w.task = .idle →
      Move P w .startTool { w with task := .tool }
  | close {a : Audit} : w.audit = some a → w.task = .tool →
      Move P w .close { w with audit := some a.close }
  | backup {f destination : String} {a : Audit} {c : Central} {v : RecoveryVerification} :
      w.audit = some a → w.files f = some c → w.task = .tool → w.files destination = none →
      Move P w (.backup f destination)
        { w with files := w.put destination c, audit := some (a.record (.backup v)) }
  | restore {backup destination : String} {quiesced : Bool} {a : Audit} : w.audit = some a →
      w.task = .tool → a.requireResolvedRecoveryInput = .ok () →
      Move P w (.restore backup destination quiesced) { w with
        audit := some a.close, task := if quiesced then .restoring backup destination else .tool }
  | restoreCopy {backup destination : String} {c : Central} :
      w.task = .restoring backup destination → w.files backup = some c →
      w.files destination = none →
      Move P w .restoreCopy { w with files := w.put destination c, task := .restored destination }
  | restoreReconcile {f : String} {a : Audit} : w.task = .restored f → w.audit = some a →
      a.requireResolvedRecoveryInput = .ok () →
      Move P w .restoreReconcile { w with audit := some a.close, task := .fenced f }
  | reconcile {f : String} {quiesced : Bool} {a : Audit} : w.audit = some a → w.task = .tool →
      a.requireResolvedRecoveryInput = .ok () →
      Move P w (.reconcile f quiesced) { w with
        audit := some a.close, task := if quiesced then .fenced f else .tool }
  | reconcileIntend {f : String} {clock : RestoreClock} {a b : Audit} {c tx : Central}
      {latest : Snapshot} {revision : ℤ} : w.task = .fenced f → w.audit = some a →
      w.files f = some c → a.headSnapshot = .ok latest →
      a.reconcileIntent P clock c = .ok (revision, tx, b) →
      Move P w (.reconcileIntend clock)
        (w.allocate b revision .reconcile (.reconcileIntended f tx revision latest))
  | reconcileCommit {f : String} {tx : Central} {revision : ℤ} {latest : Snapshot} :
      w.task = .reconcileIntended f tx revision latest →
      Move P w .reconcileCommit
        (w.land f (setReconciled revision tx) (.reconcileLanded f revision latest))
  | reconcileCommitLost {f : String} {tx : Central} {revision : ℤ} {latest : Snapshot} :
      w.task = .reconcileIntended f tx revision latest →
      Move P w .reconcileCommitLost (w.land f (setReconciled revision tx) .tool)
  | reconcileRecord {f : String} {revision : ℤ} {latest : Snapshot} {a : Audit} {c : Central}
      {approval : RecoveryApproval} : w.task = .reconcileLanded f revision latest →
      w.audit = some a → w.files f = some c →
      Audit.evidence P revision latest c = .ok approval →
      Move P w .reconcileRecord
        { w with audit := some (a.record (.reconciled approval)), task := .tool }
  | reopen {f : String} {approval : RecoveryApproval} {a b : Audit} {c : Central} :
      w.audit = some a → w.files f = some c → w.task = .tool → a.reopen P c approval = .ok b →
      Move P w (.reopen f approval) { w with audit := some b }

variable {P : Platform} {w w' : World} {action : Action}

theorem World.put_same {f : String} {c : Central} (h : w.files f = some c) :
    w.put f c = w.files := by
  funext g
  unfold World.put
  split
  · rename_i heq
    rw [heq, h]
  · rfl

theorem Move.of_operate {op : Operation} (hstep : step P w (.operate op) = some w') :
    Move P w (.operate op) w' := by
  simp only [step] at hstep
  split at hstep
  · rename_i f hserving
    simp only [Option.bind_eq_bind, Option.bind_eq_some_iff, Option.pure_def, succeeded_eq_some]
      at hstep
    obtain ⟨a, haudit, c, hfile, _, hopen, ⟨tx, n⟩, hrun, hstep⟩ := hstep
    cases n with
    | zero =>
      -- nothing was changed, so the commit writes the stored content again
      obtain rfl := op.counted c tx hrun
      simp only [if_true, Option.some.injEq, World.put_same hfile] at hstep
      subst hstep
      exact .operateUnchanged
    | succ n =>
      simp only [Nat.add_one_ne_zero, if_false, Option.some.injEq] at hstep
      subst hstep
      exact .operate hserving haudit hfile hopen hrun
  · cases hstep

theorem Move.of_step (hstep : step P w action = some w') : Move P w action w' := by
  cases action with
  | publish f =>
    simp only [step, Option.bind_eq_bind, Option.bind_eq_some_iff, guard_eq_some, Option.pure_def,
      Option.some.injEq] at hstep
    obtain ⟨c, hfile, -, ⟨hnone, -⟩, rfl⟩ := hstep
    exact .publish (Option.isNone_iff_eq_none.mp hnone) hfile
  | adopt f =>
    simp only [step, Option.bind_eq_bind, Option.bind_eq_some_iff, guard_eq_some, Option.pure_def,
      Option.some.injEq, succeeded_eq_some] at hstep
    obtain ⟨a, haudit, c, hfile, -, ⟨hidle, hnot⟩, _, -, d, hadopt, rfl⟩ := hstep
    exact .adopt haudit hfile (Task.eq_idle hidle) hnot hadopt
  | serve f =>
    simp only [step, Option.bind_eq_bind, Option.bind_eq_some_iff, guard_eq_some, Option.pure_def,
      Option.some.injEq, succeeded_eq_some] at hstep
    obtain ⟨a, haudit, c, hfile, -, ⟨hidle, hrequired⟩, _, hopen, rfl⟩ := hstep
    exact .serve haudit hfile (Task.eq_idle hidle) hrequired hopen
  | recordCrash f verified =>
    simp only [step, Option.bind_eq_bind, Option.bind_eq_some_iff, guard_eq_some, Option.pure_def,
      Option.some.injEq, succeeded_eq_some] at hstep
    obtain ⟨a, haudit, c, hfile, -, hidle, _, -, rfl⟩ := hstep
    exact .recordCrash haudit (Task.eq_idle hidle)
  | operate op => exact .of_operate hstep
  | intend =>
    simp only [step] at hstep
    split at hstep
    · rename_i f tx hoperated
      simp only [Option.bind_eq_bind, Option.bind_eq_some_iff, Option.pure_def,
        Option.some.injEq, succeeded_eq_some] at hstep
      obtain ⟨a, haudit, ⟨revision, b⟩, hprepare, rfl⟩ := hstep
      exact .intend hoperated haudit hprepare
    · cases hstep
  | anchor =>
    simp only [step] at hstep
    split at hstep
    · rename_i f tx revision hintended
      cases hstep
      exact .anchor hintended
    · cases hstep
  | commit =>
    simp only [step] at hstep
    split at hstep
    · rename_i f tx revision hanchored
      cases hstep
      exact .commit hanchored
    · cases hstep
  | commitLost =>
    simp only [step] at hstep
    split at hstep
    · rename_i f tx revision hanchored
      cases hstep
      exact .commitLost hanchored
    · cases hstep
  | complete =>
    simp only [step] at hstep
    split at hstep
    · rename_i f revision hlanded
      simp only [Option.bind_eq_bind, Option.bind_eq_some_iff, Option.pure_def,
        Option.some.injEq, succeeded_eq_some] at hstep
      obtain ⟨a, haudit, b, hcommitted, rfl⟩ := hstep
      exact .complete hlanded haudit hcommitted
    · cases hstep
  | abort =>
    cases hstep
    exact .abort
  | kill =>
    cases hstep
    exact .kill
  | copy source target =>
    simp only [step, Option.bind_eq_bind, Option.bind_eq_some_iff, guard_eq_some, Option.pure_def,
      Option.some.injEq] at hstep
    obtain ⟨c, hfile, -, hquiet, rfl⟩ := hstep
    exact .copy hfile (hquiet.imp Task.eq_idle Option.isNone_iff_eq_none.mp)
  | startTool =>
    simp only [step, Option.bind_eq_bind, Option.bind_eq_some_iff, guard_eq_some, Option.pure_def,
      Option.some.injEq, succeeded_eq_some] at hstep
    obtain ⟨a, haudit, -, hidle, _, -, rfl⟩ := hstep
    exact .startTool haudit (Task.eq_idle hidle)
  | close =>
    simp only [step, Option.bind_eq_bind, Option.bind_eq_some_iff, guard_eq_some, Option.pure_def,
      Option.some.injEq] at hstep
    obtain ⟨a, haudit, -, htool, rfl⟩ := hstep
    exact .close haudit (Task.eq_tool htool)
  | backup f destination =>
    simp only [step, Option.bind_eq_bind, Option.bind_eq_some_iff, guard_eq_some, Option.pure_def,
      Option.some.injEq, succeeded_eq_some] at hstep
    obtain ⟨a, haudit, c, hfile, -, ⟨htool, hfree⟩, _, -, v, -, rfl⟩ := hstep
    exact .backup haudit hfile (Task.eq_tool htool) (Option.isNone_iff_eq_none.mp hfree)
  | restore backup destination quiesced =>
    simp only [step, Option.bind_eq_bind, Option.bind_eq_some_iff, guard_eq_some, Option.pure_def,
      Option.some.injEq, succeeded_eq_some] at hstep
    obtain ⟨a, haudit, -, htool, _, hresolved, rfl⟩ := hstep
    exact .restore haudit (Task.eq_tool htool) hresolved
  | restoreCopy =>
    simp only [step] at hstep
    split at hstep
    · rename_i backup destination hrestoring
      simp only [Option.bind_eq_bind, Option.bind_eq_some_iff, guard_eq_some, Option.pure_def,
        Option.some.injEq, succeeded_eq_some] at hstep
      obtain ⟨a, haudit, c, hfile, _, -, _, -, _, -, _, -, -, hfree, rfl⟩ := hstep
      exact .restoreCopy hrestoring hfile (Option.isNone_iff_eq_none.mp hfree)
    · cases hstep
  | restoreReconcile =>
    simp only [step] at hstep
    split at hstep
    · rename_i f hrestored
      simp only [Option.bind_eq_bind, Option.bind_eq_some_iff, Option.pure_def,
        Option.some.injEq, succeeded_eq_some] at hstep
      obtain ⟨a, haudit, _, hresolved, rfl⟩ := hstep
      exact .restoreReconcile hrestored haudit hresolved
    · cases hstep
  | reconcile f quiesced =>
    simp only [step, Option.bind_eq_bind, Option.bind_eq_some_iff, guard_eq_some, Option.pure_def,
      Option.some.injEq, succeeded_eq_some] at hstep
    obtain ⟨a, haudit, -, htool, _, hresolved, rfl⟩ := hstep
    exact .reconcile haudit (Task.eq_tool htool) hresolved
  | reconcileIntend clock =>
    simp only [step] at hstep
    split at hstep
    · rename_i f hfenced
      simp only [Option.bind_eq_bind, Option.bind_eq_some_iff, Option.pure_def,
        Option.some.injEq, succeeded_eq_some] at hstep
      obtain ⟨a, haudit, c, hfile, latest, hlatest, ⟨revision, tx, b⟩, hintent, rfl⟩ := hstep
      exact .reconcileIntend hfenced haudit hfile hlatest hintent
    · cases hstep
  | reconcileCommit =>
    simp only [step] at hstep
    split at hstep
    · rename_i f tx revision latest hintended
      cases hstep
      exact .reconcileCommit hintended
    · cases hstep
  | reconcileCommitLost =>
    simp only [step] at hstep
    split at hstep
    · rename_i f tx revision latest hintended
      cases hstep
      exact .reconcileCommitLost hintended
    · cases hstep
  | reconcileRecord =>
    simp only [step] at hstep
    split at hstep
    · rename_i f revision latest hlanded
      simp only [Option.bind_eq_bind, Option.bind_eq_some_iff, Option.pure_def,
        Option.some.injEq, succeeded_eq_some] at hstep
      obtain ⟨a, haudit, c, hfile, approval, hevidence, rfl⟩ := hstep
      exact .reconcileRecord hlanded haudit hfile hevidence
    · cases hstep
  | reopen f approval =>
    simp only [step, Option.bind_eq_bind, Option.bind_eq_some_iff, guard_eq_some, Option.pure_def,
      Option.some.injEq, succeeded_eq_some] at hstep
    obtain ⟨a, haudit, c, hfile, -, htool, b, hreopen, rfl⟩ := hstep
    exact .reopen haudit hfile (Task.eq_tool htool) hreopen

end AgentJournal.Recovery
