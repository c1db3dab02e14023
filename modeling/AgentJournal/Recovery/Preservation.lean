import AgentJournal.Recovery.Coherence

/-! # Every action keeps the store on its lineage -/

namespace AgentJournal.Recovery
open Domain Foundation Storage

variable {P : Platform} {ops : Set Operation} {start : Central → Prop}
variable {w w' : World} {a b : Audit} {h : Event} {top c d tx : Central} {older : List Central}
variable {file target : String} {revision : ℤ}

theorem adoptPublishedBaseline_eq_ok (hnot : c.recoveryAnchor.auditRequired = false)
    (hok : adoptPublishedBaseline a c = .ok d) :
    c.recoveryAnchor.revision = 0 ∧ d = setRequired c := by
  simp only [adoptPublishedBaseline, hnot, Bool.false_eq_true, if_false, bind_eq_ok,
    refuseIf_eq_ok, pure_eq_ok, Except.ok.injEq, not_not] at hok
  obtain ⟨_, hzero, _, -, _, -, rfl⟩ := hok
  exact ⟨hzero, rfl⟩

/-- Only the content of the newest revision is adopted. -/
theorem adoptPublishedBaseline_newest (hl : a.Ledger h)
    (hnot : c.recoveryAnchor.auditRequired = false) (hok : adoptPublishedBaseline a c = .ok d) :
    h.revision = c.recoveryAnchor.revision := by
  simp only [adoptPublishedBaseline, hnot, Bool.false_eq_true, if_false, bind_eq_ok,
    refuseIf_eq_ok, pure_eq_ok, not_not, Audit.verifyLineageMatches, not_or] at hok
  obtain ⟨_, -, lineage, hread, _, ⟨-, hrevision, -⟩, -⟩ := hok
  obtain ⟨-, -, -, hhead, -⟩ := Audit.readOpenLineage_eq_ok hl hread
  omega

/-- A handle is returned only for the adopted content the newest event describes. -/
theorem openProtected_eq_ok (hl : a.Ledger h) (hok : openProtected a c = .ok d) :
    a.state = .opened ∧ h.outcome ≠ .prepared ∧ h.revision = c.recoveryAnchor.revision ∧
      a.journalId = c.recoveryAnchor.journalId ∧ h.snapshot = some (snapshot c) ∧
      d = setRequired c := by
  simp only [openProtected, Audit.preflightExisting, Audit.verifyLineageMatches, bind_eq_ok,
    refuseIf_eq_ok, pure_eq_ok, Except.ok.injEq, not_or, not_not] at hok
  obtain ⟨_, ⟨lineage, hread, _, ⟨hjournal, hrevision, hsnapshot⟩, -⟩, adopted, hadopt, _, -,
    rfl⟩ :=
    hok
  obtain ⟨hstate, hresolved, hjournal', hrevision', hbody⟩ := Audit.readOpenLineage_eq_ok hl hread
  refine ⟨hstate, hresolved, by omega, by rw [← hjournal', hjournal], by rw [hbody, hsnapshot], ?_⟩
  cases hrequired : c.recoveryAnchor.auditRequired with
  | false => exact (adoptPublishedBaseline_eq_ok hrequired hadopt).2
  | true =>
    rw [adoptPublishedBaseline, if_pos hrequired] at hadopt
    rw [setRequired_eq hrequired]
    exact (Except.ok.inj hadopt).symm

section Startup

theorem Fresh.coherent_publish (hf : Fresh start w) (hfile : w.files file = some c) :
    Coherent P ops start
      { w with audit := some (.initial c), writers := (0, .baseline) :: w.writers }
      (.initial c) ⟨0, some (snapshot c), .committed⟩ (setRequired c) [] := by
  obtain ⟨c₀, hstart, hzero, -, hcontent⟩ := hf.content
  obtain rfl : c = c₀ := hcontent c (hf.stored _ _ hfile)
  exact {
    lineage := .fresh hstart hzero
    ledger :=
      { last := rfl
        numbered := by
          intro i e he
          cases i with
          | zero => cases he; rfl
          | succ i => simp [Audit.initial] at he
        settled := by simp [Audit.initial] }
    describes := .inl ⟨hzero.symm, rfl⟩
    journal := rfl
    stored := hf.stored
    known := fun d hd => by rw [hcontent d hd]; exact List.mem_cons_self
    committed := ⟨c, hf.stored _ _ hfile, rfl⟩
    adopted := by
      intro d hd hne
      rw [hcontent d hd] at hne
      exact absurd hzero hne
    evidence := by simp [Audit.initial]
    allocated := by simp [hf.writers]
    allocatedOnce := by simp +contextual [hf.writers]
    task := by simp [hf.idle, TaskCoherent] }

theorem Coherent.adopt (hc : Coherent P ops start w a h top older) (hfile : w.files file = some c) :
    Coherent P ops start (w.land file (setRequired c) .idle) a h top older where
  lineage := hc.lineage
  ledger := hc.ledger
  describes := hc.describes
  journal := hc.journal
  stored f d hd := by
    unfold World.land World.put at hd ⊢
    dsimp only at hd ⊢
    split at hd
    · cases hd
      exact List.mem_cons_self
    · exact List.mem_cons_of_mem _ (hc.stored f d hd)
  known := List.forall_mem_cons.mpr ⟨hc.known c (hc.stored _ _ hfile), hc.known⟩
  committed := hc.committed.imp fun _ hd => ⟨List.mem_cons_of_mem _ hd.1, hd.2⟩
  adopted := List.forall_mem_cons.mpr ⟨fun _ => rfl, hc.adopted⟩
  evidence := hc.evidence
  allocated := hc.allocated
  allocatedOnce := hc.allocatedOnce
  task := trivial

end Startup

section Transactions

theorem Coherent.operated (hc : Coherent P ops start w a h top older) {op : Operation} {n : ℕ}
    (hserving : w.task = .serving file) (hfile : w.files file = some c)
    (hopen : a.ensureOpen c = .ok ()) (hop : op ∈ ops) (hrun : op.run c = some (tx, n + 1)) :
    Coherent P ops start { w with task := .operated file tx } a h top older := by
  obtain ⟨-, hresolved, hrevision⟩ := (Audit.ensureOpen_eq_ok hc.ledger).mp hopen
  have htask := hc.task
  rw [hserving] at htask
  obtain ⟨d, hd, hrequired⟩ := htask
  obtain rfl : c = d := Option.some.inj (hfile.symm.trans hd)
  have htop : c = top := hc.content_of_revision (hc.stored _ _ hfile) hrequired
    (hrevision.symm.trans (hc.resolved hresolved).1)
  exact hc.move ⟨hresolved, htop ▸ hfile, op, n, hop, htop ▸ hrun⟩

/-- An intent is appended: the lineage is unchanged until it lands. -/
theorem Coherent.prepared (hc : Coherent P ops start w a h top older) {writer : Writer}
    {task : Task}
    (hresolved : h.outcome ≠ .prepared) (hrevision : revision = h.revision + 1)
    (hb : b = { a with events := a.events ++ [⟨revision, some (snapshot tx), .prepared⟩] })
    (htask : TaskCoherent P ops (w.allocate b revision writer task) b
      ⟨revision, some (snapshot tx), .prepared⟩ top task) :
    Coherent P ops start (w.allocate b revision writer task) b
      ⟨revision, some (snapshot tx), .prepared⟩ top older where
  lineage := hc.lineage
  ledger := hc.ledger.append hresolved hrevision (by rw [hb])
  describes := .inr ⟨by rw [hrevision, (hc.resolved hresolved).1], rfl⟩
  journal := by rw [hb]; exact hc.journal
  stored := hc.stored
  known := hc.known
  committed := hc.committed
  adopted := hc.adopted
  evidence := by
    rw [hb]
    exact fun approval happroval => List.mem_cons_of_mem _ (hc.evidence approval happroval)
  allocated := by
    refine List.forall_mem_cons.mpr ⟨le_rfl, fun x hx => ?_⟩
    have := hc.allocated x hx
    dsimp only
    omega
  allocatedOnce r k k' hk hk' := by
    -- the new revision is above every allocated one
    have hnew : ∀ k, (r, k) ∈ w.writers → r ≠ revision := fun k hk => by
      have := hc.allocated _ hk
      dsimp only at this
      omega
    rcases List.mem_cons.mp hk with hk | hk <;> rcases List.mem_cons.mp hk' with hk' | hk'
    · rw [(Prod.mk.inj hk).2, (Prod.mk.inj hk').2]
    · exact absurd (Prod.mk.inj hk).1 (hnew k' hk')
    · exact absurd (Prod.mk.inj hk').1 (hnew k hk)
    · exact hc.allocatedOnce r k k' hk hk'
  task := htask

/-- An intent lands: its content is the new top of the lineage. -/
theorem Coherent.land (hc : Coherent P ops start w a h top older) {task : Task}
    (hlineage : Lineage P ops start (d :: top :: older)) (hsnapshot : snapshot d = snapshot tx)
    (hintent : h = ⟨revision, some (snapshot tx), .prepared⟩)
    (hrevision : d.recoveryAnchor.revision = revision)
    (htask : TaskCoherent P ops (w.land file d task) a h d task) :
    Coherent P ops start (w.land file d task) a h d (top :: older) where
  lineage := hlineage
  ledger := hc.ledger
  describes := .inl ⟨by rw [hintent, hrevision], by rw [hintent, hsnapshot]⟩
  journal := hc.journal.trans (hlineage.journalId_eq List.mem_cons_self (by simp))
  stored f e he := by
    unfold World.land World.put at he ⊢
    dsimp only at he ⊢
    split at he
    · cases he
      exact List.mem_cons_self
    · exact List.mem_cons_of_mem _ (hc.stored f e he)
  known := by
    have hadopted := hlineage.required d List.mem_cons_self
    refine List.forall_mem_cons.mpr ⟨?_, fun e he => List.mem_cons_of_mem _ (hc.known e he)⟩
    rw [setRequired_eq hadopted]
    exact List.mem_cons_self
  committed := ⟨d, List.mem_cons_self, setRequired_eq (hlineage.required d List.mem_cons_self)⟩
  adopted := List.forall_mem_cons.mpr ⟨fun _ => hlineage.required d List.mem_cons_self, hc.adopted⟩
  evidence := hc.evidence
  allocated := hc.allocated
  allocatedOnce := hc.allocatedOnce
  task := htask

/-- The newest event is resolved once its content has landed. -/
theorem Coherent.resolve (hc : Coherent P ops start w a h top older) {outcome : Outcome}
    {task : Task} (hlanded : h.revision = top.recoveryAnchor.revision)
    (hb : b.Ledger { h with outcome := outcome }) (hjournal : b.journalId = a.journalId)
    (hevidence : ∀ approval, .reconciled approval ∈ b.recoveryEvents →
      .reconciled approval ∈ a.recoveryEvents)
    (htask : TaskCoherent P ops { w with audit := some b, task := task } b
      { h with outcome := outcome } top task) :
    Coherent P ops start { w with audit := some b, task := task } b
      { h with outcome := outcome } top older where
  lineage := hc.lineage
  ledger := hb
  describes := by
    rcases hc.describes with hd | ⟨hr, -⟩
    · exact .inl hd
    · omega
  journal := hjournal.trans hc.journal
  stored := hc.stored
  known := hc.known
  committed := hc.committed
  adopted := hc.adopted
  evidence approval happroval := hc.evidence approval (hevidence approval happroval)
  allocated := hc.allocated
  allocatedOnce := hc.allocatedOnce
  task := htask

theorem Coherent.intend (hc : Coherent P ops start w a h top older)
    (hoperated : w.task = .operated file tx) (hprepare : a.prepareIntent tx = .ok (revision, b)) :
    Coherent P ops start (w.allocate b revision .ordinary (.intended file tx revision)) b
      ⟨revision, some (snapshot tx), .prepared⟩ top older := by
  have htask := hc.task
  rw [hoperated] at htask
  obtain ⟨hresolved, hfile, hclosure⟩ := htask
  obtain ⟨-, hrevision, hb⟩ := Audit.prepareIntent_eq_ok hc.ledger hprepare
  refine hc.prepared hresolved hrevision hb ⟨hfile, rfl, ?_, List.mem_cons_self, hclosure⟩
  rw [hrevision, (hc.resolved hresolved).1]

theorem Coherent.complete (hc : Coherent P ops start w a h top older)
    (hlanded : w.task = .landed file revision) (hcommitted : a.committed revision = .ok b) :
    Coherent P ops start { w with audit := some b, task := .serving file } b
      { h with outcome := .committed } top older := by
  have htask := hc.task
  rw [hlanded] at htask
  obtain ⟨hfile, hrevision, -, htop, -⟩ := htask
  obtain ⟨-, -, hledger, -, hjournal, hevents⟩ := Audit.committed_eq_ok hc.ledger hcommitted
  exact hc.resolve (hrevision.trans htop.symm) hledger hjournal
    (fun approval hmem => hevents ▸ hmem)
    ⟨top, hfile, hc.lineage.required top List.mem_cons_self⟩

/-- Where an anchored transaction lands. -/
theorem Coherent.land_anchored (hc : Coherent P ops start w a h top older) {task : Task}
    (hanchored : w.task = .anchored file tx revision)
    (htask : ∀ _ : h.revision = revision ∧ h.outcome = .prepared ∧
      tx.recoveryAnchor.revision = revision ∧ (revision, .ordinary) ∈ w.writers ∧
      tx.recoveryAnchor.auditRequired = true,
      TaskCoherent P ops (w.land file tx task) a h tx task) :
    Coherent P ops start (w.land file tx task) a h tx (top :: older) := by
  have hat := hc.task
  rw [hanchored] at hat
  obtain ⟨hfile, hintent, hrevision, hwriter, op, n, operated, hop, hrun, rfl⟩ := hat
  have hlineage := hc.lineage.operated hop hrun
  rw [← hrevision] at hlineage
  exact hc.land hlineage rfl hintent rfl
    (htask ⟨by rw [hintent], by rw [hintent], rfl, hwriter,
      hlineage.required _ List.mem_cons_self⟩)

theorem World.land_files (w : World) (file : String) (c : Central) (task : Task) :
    (w.land file c task).files file = some c := by
  simp [World.land, World.put]

end Transactions

section Recovery

theorem Audit.record_evidence {e : RecoveryEvent} (hne : ∀ approval, e ≠ .reconciled approval)
    (approval : RecoveryApproval) (hmem : .reconciled approval ∈ (a.record e).recoveryEvents) :
    .reconciled approval ∈ a.recoveryEvents := by
  simp only [Audit.record, List.mem_append, List.mem_singleton] at hmem
  exact hmem.resolve_right fun heq => hne approval heq.symm

theorem Audit.recordCrashRecovery_evidence {verified : Verified} (approval : RecoveryApproval)
    (hmem : .reconciled approval ∈ (a.recordCrashRecovery verified).recoveryEvents) :
    .reconciled approval ∈ a.recoveryEvents := by
  unfold Audit.recordCrashRecovery at hmem
  split at hmem
  · exact hmem
  · exact Audit.record_evidence (by simp) approval hmem

/-- The tasks an error return leaves behind. -/
theorem Coherent.aborted (hc : Coherent P ops start w a h top older) :
    TaskCoherent P ops { w with task := w.task.aborted } a h top w.task.aborted := by
  have htask := hc.task
  have hrequired := hc.lineage.required top List.mem_cons_self
  cases hat : w.task with
  | serving f =>
    rw [hat] at htask
    exact htask
  | operated f tx =>
    rw [hat] at htask
    exact ⟨top, htask.2.1, hrequired⟩
  | intended f tx r =>
    rw [hat] at htask
    exact ⟨top, htask.1, hrequired⟩
  | anchored f tx r =>
    rw [hat] at htask
    exact ⟨top, htask.1, hrequired⟩
  | landed f r =>
    rw [hat] at htask
    exact ⟨top, htask.1, hrequired⟩
  | _ => trivial

/-- A fresh or idle target leaves the file of the running call alone. -/
theorem Coherent.copied (hc : Coherent P ops start w a h top older) (hmem : d ∈ w.history)
    (hquiet : w.task = .idle ∨ w.files target = none) :
    Coherent P ops start { w with files := w.put target d } a h top older := by
  refine hc.frame rfl rfl (hc.stored_put hmem) hc.ledger rfl (fun _ => .inl) ?_
  have hkeep : ∀ {f e}, w.task ≠ .idle → w.files f = some e → w.put target d f = some e := by
    intro f e hbusy hf
    have hnone := hquiet.resolve_left hbusy
    unfold World.put
    split
    · rename_i heq
      rw [← heq, hf] at hnone
      cases hnone
    · exact hf
  have htask := hc.task
  cases hat : w.task with
  | serving f =>
    rw [hat] at htask
    obtain ⟨e, he, hrequired⟩ := htask
    exact ⟨e, hkeep (by simp [hat]) he, hrequired⟩
  | operated f tx =>
    rw [hat] at htask
    exact ⟨htask.1, hkeep (by simp [hat]) htask.2.1, htask.2.2⟩
  | intended f tx r =>
    rw [hat] at htask
    exact ⟨hkeep (by simp [hat]) htask.1, htask.2⟩
  | anchored f tx r =>
    rw [hat] at htask
    exact ⟨hkeep (by simp [hat]) htask.1, htask.2⟩
  | landed f r =>
    rw [hat] at htask
    exact ⟨hkeep (by simp [hat]) htask.1, htask.2⟩
  | _ =>
    rw [hat] at htask
    exact htask

/-- The gate closes and the owner proceeds to a step that allows it. -/
theorem Coherent.fence (hc : Coherent P ops start w a h top older) {task : Task}
    (htask : TaskCoherent P ops { w with audit := some a.close, task := task } a.close h top task) :
    Coherent P ops start { w with audit := some a.close, task := task } a.close h top older :=
  hc.frame rfl rfl hc.stored (hc.ledger.congr rfl) rfl
    (fun approval hmem => .inl (Audit.record_evidence (a := { a with state := .closed }) (by simp)
      approval hmem)) htask

theorem Coherent.reconcileIntend (hc : Coherent P ops start w a h top older)
    {clock : RestoreClock} {latest : Snapshot} (hfenced : w.task = .fenced file)
    (hfile : w.files file = some c) (hlatest : a.headSnapshot = .ok latest)
    (hintent : a.reconcileIntent P clock c = .ok (revision, tx, b)) :
    Coherent P ops start
      (w.allocate b revision .reconcile (.reconcileIntended file tx revision latest)) b
      ⟨revision, some (snapshot tx), .prepared⟩ top older := by
  have htask := hc.task
  rw [hfenced] at htask
  obtain ⟨hclosed, hresolved⟩ := htask
  obtain ⟨hrevision, hsnapshot⟩ := hc.resolved hresolved
  obtain ⟨read, hread, -, -, hrestored, hfk, hnext, hb⟩ :=
    Audit.reconcileIntent_eq_ok hc.ledger hintent
  rw [Audit.headSnapshot_eq_ok hc.ledger] at hlatest
  obtain rfl : read = snapshot top := Option.some.inj (hread.symm.trans hsnapshot)
  obtain rfl : latest = snapshot top := Option.some.inj (hlatest.symm.trans hsnapshot)
  exact hc.prepared hresolved hnext hb
    ⟨by rw [hb]; exact hclosed, rfl, by rw [hnext, hrevision], rfl, List.mem_cons_self,
      c, clock, hc.stored _ _ hfile, hrestored, hfk⟩

/-- Where a reconciliation lands. -/
theorem Coherent.land_reconciled (hc : Coherent P ops start w a h top older) {task : Task}
    {latest : Snapshot} (hintended : w.task = .reconcileIntended file tx revision latest)
    (htask : ∀ _ : a.state = .closed ∧ h.revision = revision ∧ h.outcome = .prepared ∧
      (revision, .reconcile) ∈ w.writers,
      TaskCoherent P ops (w.land file (setReconciled revision tx) task) a h
        (setReconciled revision tx) task) :
    Coherent P ops start (w.land file (setReconciled revision tx) task) a h
      (setReconciled revision tx) (top :: older) := by
  have hat := hc.task
  rw [hintended] at hat
  obtain ⟨hclosed, hintent, hrevision, -, hwriter, backup, clock, hbackup, hrestored, hfk⟩ := hat
  have hlineage := hc.lineage.reconciled (hc.known _ hbackup) hrestored hfk
  rw [← hrevision] at hlineage
  exact hc.land hlineage rfl hintent rfl
    (htask ⟨hclosed, by rw [hintent], by rw [hintent], hwriter⟩)

theorem Coherent.reconcileRecord (hc : Coherent P ops start w a h top older) {latest : Snapshot}
    {approval : RecoveryApproval} (hlanded : w.task = .reconcileLanded file revision latest)
    (hevidence : Audit.evidence P revision latest c = .ok approval) :
    Coherent P ops start { w with audit := some (a.record (.reconciled approval)), task := .tool }
      (a.record (.reconciled approval)) h top older := by
  have htask := hc.task
  rw [hlanded] at htask
  refine hc.frame rfl rfl hc.stored (hc.ledger.congr rfl) rfl (fun recorded hmem => ?_) trivial
  simp only [Audit.record, List.mem_append, List.mem_singleton] at hmem
  refine hmem.imp_right fun heq => ?_
  cases heq
  simp only [Audit.evidence, bind_eq_ok, pure_eq_ok, Except.ok.injEq] at hevidence
  obtain ⟨_, -, rfl⟩ := hevidence
  exact htask.2.2.2.2

theorem Coherent.reopen (hc : Coherent P ops start w a h top older) {approval : RecoveryApproval}
    (hfile : w.files file = some c) (htool : w.task = .tool)
    (hreopen : a.reopen P c approval = .ok b) :
    Coherent P ops start { w with audit := some b } b
    { h with outcome := .reconciled } top older := by
  obtain ⟨-, -, hanchor, -, hledger, -, hjournal, hevents⟩ := Audit.reopen_eq_ok hc.ledger hreopen
  have hlanded : h.revision = top.recoveryAnchor.revision := by
    have hle := hc.lineage.revision_le (hc.known c (hc.stored _ _ hfile))
    rw [setRequired_revision] at hle
    rcases hc.describes with ⟨hr, -⟩ | ⟨hr, -⟩ <;> omega
  refine hc.resolve hlanded hledger hjournal (fun recorded hmem => ?_) ?_
  · rw [hevents, List.mem_append, List.mem_singleton] at hmem
    exact hmem.resolve_right (by simp)
  · rw [htool]
    trivial

end Recovery

/-- Without an audit only copies are made. -/
theorem Fresh.copied (hf : Fresh start w) (hfile : w.files file = some c) :
    Fresh start { w with files := w.put target c } where
  content := hf.content
  stored f e he := by
    unfold World.put at he
    dsimp only at he
    split at he
    · cases he
      exact hf.stored _ _ hfile
    · exact hf.stored _ _ he
  idle := hf.idle
  writers := hf.writers

theorem Fresh.step {action : Action} (hf : Fresh start w) (hnone : w.audit = none)
    (hmove : Move P w action w') : Sound P ops start w' := by
  have hidle := hf.idle
  have hself : Sound P ops start w := sound_of_fresh hnone hf
  cases hmove with
  | publish _ hfile => exact sound_of_coherent rfl (hf.coherent_publish hfile)
  | copy hfile _ => exact sound_of_fresh hnone (hf.copied hfile)
  | abort =>
    rw [hidle, Task.aborted, ← hidle]
    exact hself
  | kill =>
    rw [← hidle]
    exact hself
  | operateUnchanged => exact hself
  | _ => simp_all

theorem Coherent.step {action : Action} (hc : Coherent P ops start w a h top older)
    (haudit : w.audit = some a) (hops : ∀ op, action = .operate op → op ∈ ops)
    (hmove : Move P w action w') : Sound P ops start w' := by
  -- the audit a move read is the audit of the state
  have hread : ∀ {b : Audit}, w.audit = some b → b = a := fun hb =>
    Option.some.inj (hb.symm.trans haudit)
  cases hmove with
  | publish hnone _ => simp [haudit] at hnone
  | adopt hb hfile _ hnot hadopt =>
    obtain ⟨-, rfl⟩ := adoptPublishedBaseline_eq_ok hnot hadopt
    exact sound_of_coherent haudit (hc.adopt hfile)
  | serve hb hfile _ hrequired _ =>
    exact sound_of_coherent haudit (hc.move ⟨_, hfile, hrequired⟩)
  | recordCrash hb hidle =>
    obtain rfl := hread hb
    refine sound_of_coherent rfl (hc.frame rfl rfl hc.stored
      (hc.ledger.congr (Audit.recordCrashRecovery_events ..))
      (Audit.recordCrashRecovery_journalId ..)
      (fun approval hmem => .inl (Audit.recordCrashRecovery_evidence approval hmem)) ?_)
    rw [hidle]
    trivial
  | operateUnchanged => exact sound_of_coherent haudit hc
  | operate hserving hb hfile hopen hrun =>
    obtain rfl := hread hb
    exact sound_of_coherent haudit (hc.operated hserving hfile hopen (hops _ rfl) hrun)
  | intend hoperated hb hprepare =>
    obtain rfl := hread hb
    exact sound_of_coherent rfl (hc.intend hoperated hprepare)
  | anchor hintended =>
    have htask := hc.task
    rw [hintended] at htask
    obtain ⟨hfile, hintent, hrevision, hwriter, op, n, hop, hrun⟩ := htask
    exact sound_of_coherent haudit
      (hc.move ⟨hfile, hintent, hrevision, hwriter, op, n, _, hop, hrun, rfl⟩)
  | commit hanchored =>
    exact sound_of_coherent haudit (hc.land_anchored hanchored fun ⟨hr, hp, hrev, hw, _⟩ =>
      ⟨w.land_files .., hr, hp, hrev, hw⟩)
  | commitLost hanchored =>
    exact sound_of_coherent haudit (hc.land_anchored hanchored fun ⟨_, _, _, _, hrequired⟩ =>
      ⟨_, w.land_files .., hrequired⟩)
  | complete hlanded hb hcommitted =>
    obtain rfl := hread hb
    exact sound_of_coherent rfl (hc.complete hlanded hcommitted)
  | abort => exact sound_of_coherent haudit (hc.move hc.aborted)
  | kill => exact sound_of_coherent haudit (hc.move trivial)
  | copy hfile hquiet =>
    exact sound_of_coherent haudit (hc.copied (hc.stored _ _ hfile) hquiet)
  | startTool _ _ => exact sound_of_coherent haudit (hc.move trivial)
  | close hb htool =>
    obtain rfl := hread hb
    refine sound_of_coherent rfl (hc.fence ?_)
    rw [htool]
    trivial
  | backup hb hfile htool _ =>
    obtain rfl := hread hb
    refine sound_of_coherent rfl (hc.frame rfl rfl (hc.stored_put (hc.stored _ _ hfile))
      (hc.ledger.congr rfl) rfl
      (fun approval hmem => .inl (Audit.record_evidence (by simp) approval hmem)) ?_)
    rw [htool]
    trivial
  | @restore _ _ quiesced _ hb _ _ =>
    obtain rfl := hread hb
    refine sound_of_coherent rfl (hc.fence ?_)
    cases quiesced <;> trivial
  | restoreCopy hrestoring hfile _ =>
    have htask := hc.task
    rw [hrestoring] at htask
    exact sound_of_coherent haudit (hc.frame rfl rfl (hc.stored_put (hc.stored _ _ hfile))
      hc.ledger rfl (fun _ => .inl) htask)
  | restoreReconcile _ hb hresolved =>
    obtain rfl := hread hb
    exact sound_of_coherent rfl
      (hc.fence ⟨rfl, (Audit.requireResolved_eq_ok hc.ledger).mp hresolved⟩)
  | @reconcile _ quiesced _ hb _ hresolved =>
    obtain rfl := hread hb
    refine sound_of_coherent rfl (hc.fence ?_)
    cases quiesced with
    | false => trivial
    | true => exact ⟨rfl, (Audit.requireResolved_eq_ok hc.ledger).mp hresolved⟩
  | reconcileIntend hfenced hb hfile hlatest hintent =>
    obtain rfl := hread hb
    exact sound_of_coherent rfl (hc.reconcileIntend hfenced hfile hlatest hintent)
  | reconcileCommit hintended =>
    exact sound_of_coherent haudit (hc.land_reconciled hintended fun ⟨hclosed, hr, hp, hwriter⟩ =>
      ⟨hclosed, hr, hp, rfl, hwriter⟩)
  | reconcileCommitLost hintended =>
    exact sound_of_coherent haudit (hc.land_reconciled hintended fun _ => trivial)
  | reconcileRecord hlanded hb _ hevidence =>
    obtain rfl := hread hb
    exact sound_of_coherent rfl (hc.reconcileRecord hlanded hevidence)
  | reopen hb hfile htool hreopen =>
    obtain rfl := hread hb
    exact sound_of_coherent rfl (hc.reopen hfile htool hreopen)

theorem sound_step {action : Action} (hs : Sound P ops start w)
    (hops : ∀ op, action = .operate op → op ∈ ops) (hmove : Move P w action w') :
    Sound P ops start w' := by
  rcases Option.eq_none_or_eq_some w.audit with haudit | ⟨a, haudit⟩
  · unfold Sound at hs
    rw [haudit] at hs
    exact Fresh.step hs haudit hmove
  · unfold Sound at hs
    rw [haudit] at hs
    obtain ⟨h, top, older, hc⟩ := hs
    exact hc.step haudit hops hmove

theorem sound_initial (hstart : (machine P ops start).start w) : Sound P ops start w := by
  obtain ⟨file, c, hc, hzero, hrequired, rfl⟩ := hstart
  refine ⟨⟨c, hc, hzero, hrequired, by simp [World.initial]⟩, ?_, rfl, rfl⟩
  intro f d hd
  simp only [World.initial] at hd ⊢
  split at hd <;> simp_all

/-- Every reachable store follows a lineage. -/
theorem sound_of_reachable (hw : (machine P ops start).Reachable w) : Sound P ops start w :=
  hw.invariant (fun _ => sound_initial) fun _ _ _ hs hstep =>
    sound_step hs hstep.1 (.of_step hstep.2)

theorem coherent_of_reachable (hw : (machine P ops start).Reachable w) (haudit : w.audit = some a) :
    ∃ h top older, Coherent P ops start w a h top older := by
  have hs := sound_of_reachable hw
  unfold Sound at hs
  rw [haudit] at hs
  exact hs

section Landing

/-- A reconciliation that commits. -/
def Action.merges : Action → Bool
  | .reconcileCommit | .reconcileCommitLost => true
  | _ => false

/-- Where the content that a step commits comes from. -/
inductive Landing (P : Platform) (ops : Set Operation) (w : World) (action : Action)
    (top : Central) : Central → Prop
  | adopted {c : Central} : action.merges = false → c ∈ w.history →
      (∀ e ∈ w.history, e.recoveryAnchor.revision ≤ c.recoveryAnchor.revision) →
      Landing P ops w action top (setRequired c)
  | operated {op : Operation} {tx : Central} {n : ℕ} : action.merges = false → top ∈ w.history →
      op ∈ ops → op.run top = some (tx, n + 1) →
      Landing P ops w action top (setRevision (top.recoveryAnchor.revision + 1) tx)
  | reconciled {backup tx : Central} {clock : RestoreClock} : action.merges = true →
      backup ∈ w.history → restoreSecurity P clock backup (snapshot top) = .ok tx →
      tx.foreignKeyCheck = true →
      Landing P ops w action top (setReconciled (top.recoveryAnchor.revision + 1) tx)

theorem Coherent.landing {action : Action} (hc : Coherent P ops start w a h top older)
    (haudit : w.audit = some a) (hmove : Move P w action w') :
    (w'.history = w.history ∧ action.merges = false) ∨
      ∃ d, w'.history = d :: w.history ∧ Landing P ops w action top d := by
  have htask := hc.task
  have hoperated : ∀ {f : String} {tx : Central} {r : ℤ}, action.merges = false →
      w.task = .anchored f tx r → Landing P ops w action top tx := by
    intro f tx r hmerges heq
    rw [heq] at htask
    obtain ⟨hfile, -, rfl, -, op, n, operated, hop, hrun, rfl⟩ := htask
    exact .operated hmerges (hc.stored _ _ hfile) hop hrun
  have hreconciled : ∀ {f : String} {tx : Central} {r : ℤ} {latest : Snapshot},
      action.merges = true → w.task = .reconcileIntended f tx r latest →
      Landing P ops w action top (setReconciled r tx) := by
    intro f tx r latest hmerges heq
    rw [heq] at htask
    obtain ⟨-, -, rfl, -, -, backup, clock, hbackup, hrestored, hfk⟩ := htask
    exact .reconciled hmerges hbackup hrestored hfk
  cases hmove with
  | adopt hb hfile hidle hnot hadopt =>
    obtain rfl := Option.some.inj (hb.symm.trans haudit)
    obtain ⟨-, rfl⟩ := adoptPublishedBaseline_eq_ok hnot hadopt
    refine .inr ⟨_, rfl, .adopted rfl (hc.stored _ _ hfile) fun e he => ?_⟩
    rw [← adoptPublishedBaseline_newest hc.ledger hnot hadopt]
    exact hc.history_revision_le he
  | commit heq => exact .inr ⟨_, rfl, hoperated rfl heq⟩
  | commitLost heq => exact .inr ⟨_, rfl, hoperated rfl heq⟩
  | reconcileCommit heq => exact .inr ⟨_, rfl, hreconciled rfl heq⟩
  | reconcileCommitLost heq => exact .inr ⟨_, rfl, hreconciled rfl heq⟩
  | _ => exact .inl ⟨rfl, rfl⟩

/-- Without an audit nothing is committed. -/
theorem Fresh.landing {action : Action} (hf : Fresh start w) (hnone : w.audit = none)
    (hmove : Move P w action w') : w'.history = w.history ∧ action.merges = false := by
  have hidle := hf.idle
  cases hmove with
  | adopt haudit _ _ _ _ => simp [hnone] at haudit
  | commit heq => simp [hidle] at heq
  | commitLost heq => simp [hidle] at heq
  | reconcileCommit heq => simp [hidle] at heq
  | reconcileCommitLost heq => simp [hidle] at heq
  | _ => exact ⟨rfl, rfl⟩

end Landing

end AgentJournal.Recovery
