import AgentJournal.Recovery.Preservation

/-! # Admission

What an accepted `ensure_open` or `open_protected` says about the stored content, and which
runs can lead to one: a revision has one content, a superseded file stays out, and an
unresolved intent or a closed gate ends service until a reconciliation is approved.
-/

namespace AgentJournal.Recovery
open Domain Foundation Storage

variable {P : Platform} {ops : Set Operation} {start : Central → Prop}
variable {w w' : World} {a b : Audit} {h h' : Event} {top c d : Central} {older : List Central}
variable {file : String} {action : Action} {labels : List Action}

section Baseline

/-- The store after its first protected startup. -/
def World.baseline (file : String) (c : Central) : World where
  audit := some (.initial c)
  files g := if g = file then some (setRequired c) else none
  task := .serving file
  history := [setRequired c, c]
  writers := [(0, .baseline)]

theorem readOpenLineage_initial (c : Central) : (Audit.initial c).readOpenLineage =
    .ok ⟨c.recoveryAnchor.journalId, 0, snapshot c⟩ := by
  simp [Audit.readOpenLineage, Audit.checkLineage, Audit.initial, Audit.headSnapshot, Audit.head,
    refuseIf, failIf]

theorem verifyLineageMatches_initial (hzero : c.recoveryAnchor.revision = 0) :
    Audit.verifyLineageMatches c ⟨c.recoveryAnchor.journalId, 0, snapshot c⟩ = .ok () := by
  simp [Audit.verifyLineageMatches, refuseIf, failIf, hzero]

theorem ensureOpen_initial (hzero : d.recoveryAnchor.revision = 0) :
    (Audit.initial c).ensureOpen d = .ok () := by
  simp [Audit.ensureOpen, Audit.head, Audit.initial, refuseIf, failIf, hzero]

theorem openProtected_initial (hzero : c.recoveryAnchor.revision = 0) :
    openProtected (.initial c) (setRequired c) = .ok (setRequired c) := by
  have hmatches := verifyLineageMatches_initial (c := setRequired c) hzero
  simp only [setRequired_journalId, snapshot_setRequired] at hmatches
  simp [openProtected, Audit.preflightExisting, readOpenLineage_initial, hmatches,
    adoptPublishedBaseline, ensureOpen_initial, hzero]

/-- Every unadopted baseline can be published, adopted and admitted. -/
theorem reachable_baseline (hstart : start c) (hzero : c.recoveryAnchor.revision = 0)
    (hrequired : c.recoveryAnchor.auditRequired = false) :
    (machine P ops start).Reachable (World.baseline file c) := by
  have hinitial : (machine P ops start).Reachable (World.initial file c) :=
    .of_start ⟨file, c, hstart, hzero, hrequired, rfl⟩
  have hmatches := verifyLineageMatches_initial hzero
  have hpublished := hinitial.tail (i := .publish file) (t := { World.initial file c with
    audit := some (.initial c), writers := [(0, .baseline)] })
    ⟨by simp, by simp [step, World.initial, hzero, hrequired]⟩
  have hadopted := hpublished.tail (i := .adopt file)
    (t := { World.baseline file c with task := .idle }) ⟨by simp, by
      simp only [step, World.initial, Task.isIdle, Audit.preflightExisting, readOpenLineage_initial,
        hmatches, adoptPublishedBaseline, refuseIf, failIf, succeeded, World.baseline, World.land,
        hzero, hrequired, if_true, ok_bind, Option.bind_eq_bind, Option.bind_some]
      simp only [Bool.false_eq_true, and_self, guard_true, Option.pure_def, Option.bind_some,
        ne_eq, not_true_eq_false, if_false, ok_bind, pure_eq_ok]
      congr 2
      funext g
      unfold World.put
      split <;> simp_all⟩
  exact hadopted.tail (i := .serve file) ⟨by simp, by
    simp [step, World.baseline, Task.isIdle, openProtected_initial hzero, succeeded]⟩

end Baseline

section Agreement

/-- A content at the revision of a resolved head is the newest one. -/
theorem Coherent.newest (hc : Coherent P ops start w a h top older) (hmem : c ∈ w.history)
    (hresolved : h.outcome ≠ .prepared) (hrevision : h.revision = c.recoveryAnchor.revision) :
    setRequired c = top := by
  refine hc.lineage.eq_of_revision (hc.known c hmem) List.mem_cons_self ?_
  rw [setRequired_revision, ← hrevision, (hc.resolved hresolved).1]

theorem ensureOpen_agreement (hw : (machine P ops start).Reachable w) (haudit : w.audit = some a)
    (hfile : w.files file = some c) (hopen : a.ensureOpen c = .ok ()) :
    a.state = .opened ∧ ∃ head, a.head = .ok head ∧ head.outcome ≠ .prepared ∧
      head.revision = c.recoveryAnchor.revision ∧ head.snapshot = some (snapshot c) := by
  obtain ⟨h, top, older, hc⟩ := coherent_of_reachable hw haudit
  obtain ⟨hstate, hresolved, hrevision⟩ := (Audit.ensureOpen_eq_ok hc.ledger).mp hopen
  have hnewest := hc.newest (hc.stored _ _ hfile) hresolved hrevision
  refine ⟨hstate, h, hc.ledger.head_eq, hresolved, hrevision, ?_⟩
  rw [(hc.resolved hresolved).2, ← hnewest, snapshot_setRequired]

/-- A closure that stores a secret. -/
def storeSecret (secret : List UInt8) : Operation where
  run c := (succeeded (c.insertJournalSecret secret)).map fun tx => (tx, 1)
  counted c c' h := by simp at h
  anchored c c' n h := by
    simp only [Central.insertJournalSecret, Option.map_eq_some_iff, succeeded_eq_some, bind_eq_ok,
      pure_eq_ok, Except.ok.injEq, Prod.mk.injEq] at h
    obtain ⟨tx, ⟨_, -, _, -, rfl⟩, rfl, -⟩ := h
    rfl

/-- A closure is rolled back, the next one is committed with its intent, and the process is killed
and started again. -/
def restartedTrace : List Action :=
  [.operate (storeSecret (List.replicate 32 1)), .abort,
    .operate (storeSecret (List.replicate 32 0)), .intend, .anchor, .commit, .complete, .kill,
    .serve "central.db"]

theorem restartedTrace_facts : ((trace .plain (.baseline "central.db" (.baseline "journal"))
    restartedTrace).bind fun w => w.audit.bind fun a => (w.files "central.db").bind fun c =>
      (succeeded (a.ensureOpen c)).map fun _ => c.recoveryAnchor.revision) = some 1 := by
  decide +kernel

theorem ensureOpen_agreement_restarted :
    ∃ w a c head, trace .plain (.baseline "central.db" (.baseline "journal")) restartedTrace =
    some w ∧
      w.audit = some a ∧ w.files "central.db" = some c ∧ c.recoveryAnchor.revision = 1 ∧
      a.ensureOpen c = .ok () ∧ a.head = .ok head ∧ head.revision = c.recoveryAnchor.revision ∧
      head.snapshot = some (snapshot c) := by
  obtain ⟨w, hw, a, ha, c, hc, hopen⟩ := by
    simpa only [Option.bind_eq_some_iff, Option.map_eq_some_iff, succeeded_eq_some] using
      restartedTrace_facts
  obtain ⟨_, hopen, hone⟩ := hopen
  have hbaseline : (machine .plain Set.univ (· = .baseline "journal")).Reachable
      (.baseline "central.db" (.baseline "journal")) := reachable_baseline rfl rfl rfl
  have hrestarted := hbaseline.later ⟨_, run_of_trace _ hw fun _ _ => Set.mem_univ _⟩
  obtain ⟨-, head, hhead, -, hrevision, hsnapshot⟩ := ensureOpen_agreement hrestarted ha hc hopen
  exact ⟨w, a, c, head, hw, ha, hc, hone, hopen, hhead, hrevision, hsnapshot⟩

end Agreement

section Uniqueness

/-- `open_protected` returns this content of the file, or a handle on the file passes
`ensure_open`. -/
def Admits (w : World) (file : String) (c : Central) : Prop :=
  ∃ a d, w.audit = some a ∧ w.files file = some d ∧
    (openProtected a d = .ok c ∨ (w.task = .serving file ∧ d = c ∧ a.ensureOpen c = .ok ()))

theorem Move.history_suffix (hmove : Move P w action w') : w.history <:+ w'.history := by
  cases hmove <;> first | exact List.suffix_refl _ | exact List.suffix_cons _ _

theorem history_suffix_of_later (hw : (machine P ops start).Reachable w)
    (hlater : (machine P ops start).Later w w') : w.history <:+ w'.history :=
  Machine.Later.relation (M := machine P ops start)
    (R := fun w w' : World => w.history <:+ w'.history) (fun _ => List.suffix_refl _)
    (fun h h' => h.trans h') (fun _ _ _ _ hstep => (Move.of_step hstep.2).history_suffix) hw hlater

theorem Admits.content (hw : (machine P ops start).Reachable w) (hadmits : Admits w file c) :
    ∃ a h d, w.audit = some a ∧ a.Ledger h ∧ a.state = .opened ∧ h.outcome ≠ .prepared ∧
      h.revision = c.recoveryAnchor.revision ∧ w.files file = some d ∧ d ∈ w.history ∧
      c = setRequired d := by
  obtain ⟨a, d, haudit, hfile, hadmits⟩ := hadmits
  obtain ⟨h, top, older, hc⟩ := coherent_of_reachable hw haudit
  have hmem := hc.stored _ _ hfile
  rcases hadmits with hopen | ⟨hserving, rfl, hopen⟩
  · obtain ⟨hstate, hresolved, hrevision, -, -, rfl⟩ := openProtected_eq_ok hc.ledger hopen
    exact ⟨a, h, d, haudit, hc.ledger, hstate, hresolved, hrevision, hfile, hmem, rfl⟩
  · obtain ⟨hstate, hresolved, hrevision⟩ := (Audit.ensureOpen_eq_ok hc.ledger).mp hopen
    have htask := hc.task
    rw [hserving] at htask
    obtain ⟨e, he, hrequired⟩ := htask
    obtain rfl : d = e := Option.some.inj (hfile.symm.trans he)
    exact ⟨a, h, d, haudit, hc.ledger, hstate, hresolved, hrevision, hfile, hmem,
      (setRequired_eq hrequired).symm⟩

theorem Admits.eq_of_revision {file' : String} (hw : (machine P ops start).Reachable w)
    (hlater : (machine P ops start).Later w w') (hc : Admits w file c) (hd : Admits w' file' d)
    (hrevision : c.recoveryAnchor.revision = d.recoveryAnchor.revision) : c = d := by
  have hhistory := history_suffix_of_later hw hlater
  obtain ⟨-, -, e, -, -, -, -, -, -, he, rfl⟩ := hc.content hw
  obtain ⟨a, h, e', haudit, -, -, -, -, -, he', rfl⟩ := hd.content (hw.later hlater)
  obtain ⟨h, top, older, hcoherent⟩ := coherent_of_reachable (hw.later hlater) haudit
  exact hcoherent.lineage.eq_of_revision (hcoherent.known e (hhistory.subset he))
    (hcoherent.known e' he') hrevision

end Uniqueness

section Rollback

/-- What one step does to the newest event and the gate. -/
inductive AuditEffect (P : Platform) (w : World) (a : Audit) (h : Event) (action : Action)
    (b : Audit) : Prop
  | kept : b.Ledger h → (b.state = a.state ∨ b.state = .closed) → AuditEffect P w a h action b
  | appended (e : Event) : h.outcome ≠ .prepared → b.Ledger e → e.revision = h.revision + 1 →
      b.state = a.state → AuditEffect P w a h action b
  | completed (f : String) : w.task = .landed f h.revision →
      b.Ledger { h with outcome := .committed } → b.state = a.state → AuditEffect P w a h action b
  | reopened (f : String) (approval : RecoveryApproval) (c : Central) :
      action = .reopen f approval → w.files f = some c → a.reopen P c approval = .ok b →
      AuditEffect P w a h action b

theorem Coherent.auditEffect (hc : Coherent P ops start w a h top older) (haudit : w.audit = some a)
    (hmove : Move P w action w') : ∃ b, w'.audit = some b ∧ AuditEffect P w a h action b := by
  have hl := hc.ledger
  have hread : ∀ {b : Audit}, w.audit = some b → b = a := fun hb =>
    Option.some.inj (hb.symm.trans haudit)
  have hsame : AuditEffect P w a h action a := .kept hl (.inl rfl)
  cases hmove with
  | publish hnone _ => simp [haudit] at hnone
  | recordCrash hb _ =>
    obtain rfl := hread hb
    exact ⟨_, rfl, .kept (hl.congr (by simp)) (.inl (by simp))⟩
  | intend hoperated hb hprepare =>
    obtain rfl := hread hb
    obtain ⟨hresolved, hrevision, heq⟩ := Audit.prepareIntent_eq_ok hl hprepare
    exact ⟨_, rfl, .appended _ hresolved (hl.append hresolved hrevision (by rw [heq])) hrevision
      (by rw [heq])⟩
  | complete hlanded hb hcommitted =>
    obtain rfl := hread hb
    obtain ⟨rfl, -, hledger, hstate, -⟩ := Audit.committed_eq_ok hl hcommitted
    exact ⟨_, rfl, .completed _ hlanded hledger hstate⟩
  | close hb _ | restore hb _ _ | restoreReconcile _ hb _ | reconcile hb _ _ =>
    obtain rfl := hread hb
    exact ⟨_, rfl, .kept (hl.congr rfl) (.inr rfl)⟩
  | backup hb _ _ _ | reconcileRecord _ hb _ _ =>
    obtain rfl := hread hb
    exact ⟨_, rfl, .kept (hl.congr rfl) (.inl rfl)⟩
  | reconcileIntend hfenced hb hfile _ hintent =>
    obtain rfl := hread hb
    have htask := hc.task
    rw [hfenced] at htask
    obtain ⟨_, -, -, -, -, -, hrevision, heq⟩ := Audit.reconcileIntent_eq_ok hl hintent
    exact ⟨_, rfl, .appended _ htask.2 (hl.append htask.2 hrevision (by rw [heq])) hrevision
      (by rw [heq])⟩
  | reopen hb hfile _ hreopen =>
    obtain rfl := hread hb
    exact ⟨_, rfl, .reopened _ _ _ rfl hfile hreopen⟩
  | _ => exact ⟨a, haudit, hsame⟩

/-- The newest revision never falls. -/
theorem AuditEffect.revision_le (heffect : AuditEffect P w a h action b) (hl : a.Ledger h)
    (hb : b.Ledger h') : h.revision ≤ h'.revision := by
  have heq : ∀ {e e' : Event}, b.Ledger e → b.Ledger e' → e = e' := fun he he' =>
    Option.some.inj (he.last.symm.trans he'.last)
  cases heffect with
  | kept hkept _ => rw [heq hkept hb]
  | appended e _ happended hrevision _ =>
    rw [← heq happended hb]
    omega
  | completed f _ hcompleted _ => rw [← heq hcompleted hb]
  | reopened f approval c _ _ hreopen =>
    obtain ⟨-, -, -, -, hledger, -⟩ := Audit.reopen_eq_ok hl hreopen
    rw [← heq hledger hb]

/-- The running call can still commit to this file. -/
def Task.writes (file : String) : Task → Bool
  | .operated f _ | .intended f _ _ | .anchored f _ _ | .restored f | .fenced f
  | .reconcileIntended f _ _ _ => f = file
  | _ => false

/-- No call is running. -/
def Task.waits : Task → Bool
  | .idle | .serving _ | .tool => true
  | _ => false

theorem Task.aborted_not_writes (t : Task) : t.aborted.writes file = false := by
  cases t <;> rfl

theorem World.put_other {source : String} (hne : file ≠ source) :
    w.put source c file = w.files file := by
  simp [World.put, hne]

/-- Once the newest revision is past `r`, it stays past it. -/
def Advanced (r : ℤ) (w : World) : Prop := ∃ a h, w.audit = some a ∧ a.Ledger h ∧ r < h.revision

theorem Advanced.step {r : ℤ} (hw : (machine P ops start).Reachable w) (hs : Advanced r w)
    (hstep : (machine P ops start).step w action w') : Advanced r w' := by
  obtain ⟨a, h, haudit, hl, hadvanced⟩ := hs
  obtain ⟨h, top, older, hc⟩ := coherent_of_reachable hw haudit
  obtain rfl := Option.some.inj (hl.last.symm.trans hc.ledger.last)
  obtain ⟨b, hb, heffect⟩ := hc.auditEffect haudit (.of_step hstep.2)
  obtain ⟨h', top', older', hc'⟩ := coherent_of_reachable (hw.tail hstep) hb
  exact ⟨b, h', hb, hc'.ledger, hadvanced.trans_le (heffect.revision_le hl hc'.ledger)⟩

/-- The audit is past the revision, the file is not, and no running call will change that. -/
structure Superseded (r : ℤ) (file : String) (w : World) : Prop where
  advanced : Advanced r w
  stale : ∃ c, w.files file = some c ∧ c.recoveryAnchor.revision ≤ r
  quiet : w.task.writes file = false

theorem Superseded.stale_step {r : ℤ} (hs : Superseded r file w) (hmove : Move P w action w')
    (hcopy : ∀ source, action ≠ .copy source file) :
    ∃ c, w'.files file = some c ∧ c.recoveryAnchor.revision ≤ r := by
  obtain ⟨c, hfile, hstale⟩ := hs.stale
  have hquiet := hs.quiet
  -- a file the step does not write
  have hother : ∀ {g : String} {d : Central}, g ≠ file → w'.files = w.put g d →
      ∃ c, w'.files file = some c ∧ c.recoveryAnchor.revision ≤ r := by
    intro g d hne hput
    exact ⟨c, by rw [hput, World.put_other hne.symm, hfile], hstale⟩
  have hfree : ∀ {g : String}, w.files g = none → g ≠ file := by
    rintro g hg rfl
    simp [hfile] at hg
  cases hmove with
  | @adopt g a e d haudit hg hidle hnot hadopt =>
    by_cases hgf : g = file
    · subst hgf
      obtain rfl : e = c := Option.some.inj (hg.symm.trans hfile)
      obtain ⟨-, rfl⟩ := adoptPublishedBaseline_eq_ok hnot hadopt
      exact ⟨_, w.land_files .., hstale⟩
    · exact hother hgf rfl
  | commit htask | commitLost htask | reconcileCommit htask | reconcileCommitLost htask =>
    rw [htask] at hquiet
    exact hother (by simpa [Task.writes] using hquiet) rfl
  | @copy source target _ _ _ =>
    refine hother (g := target) ?_ rfl
    rintro rfl
    exact hcopy source rfl
  | backup _ _ _ hnone => exact hother (hfree hnone) rfl
  | restoreCopy _ _ hnone => exact hother (hfree hnone) rfl
  | _ => exact ⟨c, hfile, hstale⟩

theorem Superseded.quiet_step {r : ℤ} (hs : Superseded r file w) (hmove : Move P w action w')
    (hreconcile : action ≠ .reconcile file true) : w'.task.writes file = false := by
  obtain ⟨c, hfile, hstale⟩ := hs.stale
  obtain ⟨a, h, haudit, hl, hadvanced⟩ := hs.advanced
  have hquiet := hs.quiet
  cases hmove with
  | @operate op g _ e tx n hserving hb hg hopen hrun =>
    obtain rfl := Option.some.inj (hb.symm.trans haudit)
    obtain ⟨-, -, hrevision⟩ := (Audit.ensureOpen_eq_ok hl).mp hopen
    simp only [Task.writes, decide_eq_false_iff_not]
    rintro rfl
    obtain rfl : e = c := Option.some.inj (hg.symm.trans hfile)
    omega
  | intend htask _ _ | anchor htask | restoreReconcile htask _ _
  | reconcileIntend htask _ _ _ _ =>
    rw [htask] at hquiet
    exact hquiet
  | abort => exact Task.aborted_not_writes _
  | @restore _ _ quiesced _ _ _ _ => cases quiesced <;> rfl
  | restoreCopy _ _ hnone =>
    simp only [Task.writes, decide_eq_false_iff_not]
    rintro rfl
    simp [hfile] at hnone
  | @reconcile g quiesced _ _ _ _ =>
    cases quiesced with
    | false => rfl
    | true =>
      simp only [Task.writes, if_true, decide_eq_false_iff_not]
      rintro rfl
      exact hreconcile rfl
  | commit | commitLost | complete | kill | serve | adopt | startTool | reconcileCommit
  | reconcileCommitLost | reconcileRecord => rfl
  | _ => exact hquiet

theorem Superseded.run {r : ℤ} (hw : (machine P ops start).Reachable w) (hs : Superseded r file w)
    (hrun : (machine P ops start).Run w labels w') (hcopy : ∀ source, .copy source file ∉ labels)
    (hreconcile : .reconcile file true ∉ labels) : Superseded r file w' := by
  refine hrun.stable
    (Q := fun action => (∀ source, action ≠ .copy source file) ∧ action ≠ .reconcile file true)
    ?_ hw ?_ hs
  · intro w action w' hw ⟨hcopy, hreconcile⟩ hs hstep
    have hmove := Move.of_step hstep.2
    exact ⟨Advanced.step hw hs.advanced hstep, hs.stale_step hmove hcopy,
      hs.quiet_step hmove hreconcile⟩
  · intro action hmem
    exact ⟨fun source heq => hcopy source (heq ▸ hmem), fun heq => hreconcile (heq ▸ hmem)⟩

theorem Superseded.not_admits {r : ℤ} (hw : (machine P ops start).Reachable w)
    (hs : Superseded r file w) : ¬Admits w file c := by
  intro hadmits
  obtain ⟨a, h, d, haudit, hl, -, -, hrevision, hfile, -, rfl⟩ := hadmits.content hw
  obtain ⟨a', h', haudit', hl', hadvanced⟩ := hs.advanced
  obtain ⟨d', hfile', hstale⟩ := hs.stale
  obtain rfl := Option.some.inj (haudit.symm.trans haudit')
  obtain rfl := Option.some.inj (hl.last.symm.trans hl'.last)
  obtain rfl := Option.some.inj (hfile.symm.trans hfile')
  rw [setRequired_revision] at hrevision
  omega

end Rollback

section Gate

/-- The audit is closed. -/
def Shut (w : World) : Prop := ∃ a, w.audit = some a ∧ a.state = .closed

def Action.isReopen : Action → Bool
  | .reopen _ _ => true
  | _ => false

/-- The actions that pass `close()`. -/
def Action.closes : Action → Bool
  | .close | .restore _ _ _ | .restoreReconcile | .reconcile _ _ => true
  | _ => false

theorem Move.shut (hmove : Move P w action w') (hcloses : action.closes = true) : Shut w' := by
  cases hmove <;> first | exact ⟨_, rfl, rfl⟩ | cases hcloses

theorem Shut.step (hw : (machine P ops start).Reachable w) (hs : Shut w)
    (hmove : Move P w action w') (hno : action.isReopen = false) : Shut w' := by
  obtain ⟨a, haudit, hclosed⟩ := hs
  obtain ⟨h, top, older, hc⟩ := coherent_of_reachable hw haudit
  obtain ⟨b, hb, heffect⟩ := hc.auditEffect haudit hmove
  refine ⟨b, hb, ?_⟩
  cases heffect with
  | kept _ hstate => exact hstate.elim (·.trans hclosed) id
  | appended _ _ _ _ hstate => exact hstate.trans hclosed
  | completed _ _ _ hstate => exact hstate.trans hclosed
  | reopened f approval c haction _ _ =>
    rw [haction] at hno
    cases hno

theorem Shut.run (hw : (machine P ops start).Reachable w) (hs : Shut w)
    (hrun : (machine P ops start).Run w labels w')
    (hno : ∀ action ∈ labels, action.isReopen = false) : Shut w' :=
  hrun.stable (Q := fun action => action.isReopen = false)
    (fun _ _ _ hr hallowed hI hstep => Shut.step hr hI (.of_step hstep.2) hallowed) hw hno hs

theorem Audit.ensureOpen_closed (hclosed : a.state = .closed) : a.ensureOpen c ≠ .ok () := by
  intro hok
  simp only [Audit.ensureOpen, bind_eq_ok, refuseIf_eq_ok, not_or, not_not] at hok
  obtain ⟨_, -, hstate, -⟩ := hok
  rw [hclosed] at hstate
  cases hstate

theorem Audit.openProtected_closed (hclosed : a.state = .closed) : openProtected a c ≠ .ok d := by
  intro hok
  simp only [openProtected, bind_eq_ok] at hok
  obtain ⟨_, -, adopted, -, _, hopen, -⟩ := hok
  exact Audit.ensureOpen_closed hclosed hopen

theorem Shut.not_admits (hs : Shut w) : ¬Admits w file c := by
  obtain ⟨a, haudit, hclosed⟩ := hs
  rintro ⟨b, d, hb, -, hadmits⟩
  obtain rfl := Option.some.inj (haudit.symm.trans hb)
  rcases hadmits with hopen | ⟨-, -, hopen⟩
  · exact Audit.openProtected_closed hclosed hopen
  · exact Audit.ensureOpen_closed hclosed hopen

end Gate

/-- Each revision has one admitted content, and a file the audit has passed is admitted only
after it was reconciled and reopened, or replaced by a copy of another file. A call that was
about to write the file when the audit passed it is not a second admission. -/
theorem no_fork_no_rollback (hw : (machine P ops start).Reachable w)
    (hrun : (machine P ops start).Run w labels w') :
    (∀ f f' c c', Admits w f c → Admits w' f' c' →
      c.recoveryAnchor.revision = c'.recoveryAnchor.revision → c = c') ∧
    ∀ a head r, w.audit = some a → a.head = .ok head → r < head.revision →
      (∀ f c, c.recoveryAnchor.revision ≤ r → ¬Admits w' f c) ∧
      ∀ f c c', w.files f = some c → c.recoveryAnchor.revision ≤ r → w.task.writes f = false →
        Admits w' f c' → (∃ source, .copy source f ∈ labels) ∨
          ∃ before after g approval, labels = before ++ .reconcile f true :: after ∧
            .reopen g approval ∈ after := by
  have hlater : (machine P ops start).Later w w' := ⟨labels, hrun⟩
  refine ⟨fun f f' c c' hc hc' => hc.eq_of_revision hw hlater hc', ?_⟩
  intro a head r haudit hhead hadvanced
  obtain ⟨h, top, older, hcoherent⟩ := coherent_of_reachable hw haudit
  obtain rfl : head = h := Except.ok.inj (hhead.symm.trans hcoherent.ledger.head_eq)
  have hpast : Advanced r w := ⟨a, head, haudit, hcoherent.ledger, hadvanced⟩
  refine ⟨fun f c hstale hadmits => ?_, fun f c c' hfile hstale hquiet hadmits => ?_⟩
  · obtain ⟨b, h, -, hb, hl, -, -, hrevision, -⟩ := hadmits.content (hw.later hlater)
    obtain ⟨b', h', hb', hl', hpast'⟩ := hlater.stable (fun _ _ _ hr => Advanced.step hr) hw hpast
    obtain rfl := Option.some.inj (hb.symm.trans hb')
    obtain rfl := Option.some.inj (hl.last.symm.trans hl'.last)
    omega
  · by_contra hnone
    rw [not_or, not_exists] at hnone
    obtain ⟨hcopy, hnever⟩ := hnone
    by_cases hreconcile : .reconcile f true ∈ labels
    · -- the gate closed at the reconciliation and was never reopened
      obtain ⟨before, after, rfl⟩ := List.append_of_mem hreconcile
      obtain ⟨u, v, hbefore, hstep, hafter⟩ := hrun.split
      have hv := (hw.later ⟨_, hbefore⟩).tail hstep
      have hshut : Shut w' := Shut.run hv ((Move.of_step hstep.2).shut rfl) hafter ?_
      · exact hshut.not_admits hadmits
      · intro action hmem
        cases action with
        | reopen g approval => exact absurd ⟨before, after, g, approval, rfl, hmem⟩ hnever
        | _ => rfl
    · have hsuperseded : Superseded r f w := ⟨hpast, ⟨c, hfile, hstale⟩, hquiet⟩
      exact (hsuperseded.run hw hrun hcopy hreconcile).not_admits (hw.later hlater) hadmits

/-- A copy made at revision zero is refused after one audited write to the live file. -/
theorem no_fork_no_rollback_copy :
    ∃ w w', trace .plain (.baseline "central.db" (.baseline "journal"))
        [.copy "central.db" "copy.db", .operate (storeSecret (List.replicate 32 0)), .intend,
          .anchor, .commit, .complete] = some w ∧
      trace .plain w [.kill] = some w' ∧
      ¬Admits w' "copy.db" (setRequired (.baseline "journal")) := by
  refine ⟨_, _, rfl, rfl, ?_⟩
  have hbaseline : (machine .plain Set.univ (· = .baseline "journal")).Reachable
      (.baseline "central.db" (.baseline "journal")) := reachable_baseline rfl rfl rfl
  have hwritten := hbaseline.later ⟨_, run_of_trace
    [.copy "central.db" "copy.db", .operate (storeSecret (List.replicate 32 0)), .intend, .anchor,
      .commit, .complete] rfl fun _ _ => Set.mem_univ _⟩
  exact ((no_fork_no_rollback hwritten (run_of_trace [.kill] rfl fun _ _ => Set.mem_univ _)).2 _ _
    0 rfl rfl (by decide)).1 _ _ le_rfl

section Uncertainty

/-- The running call can still complete the intent of this revision. -/
def Task.completes (r : ℤ) : Task → Bool
  | .intended _ _ q | .anchored _ _ q | .landed _ q => q = r
  | _ => false

theorem Task.aborted_not_completes {r : ℤ} (t : Task) : t.aborted.completes r = false := by
  cases t <;> rfl

theorem Move.writers_suffix (hmove : Move P w action w') : w.writers <:+ w'.writers := by
  cases hmove <;> first | exact List.suffix_refl _ | exact List.suffix_cons _ _

/-- An ordinary intent is the newest event, and no call is left that could complete it. -/
structure Abandoned (r : ℤ) (w : World) : Prop where
  writer : (r, .ordinary) ∈ w.writers
  intent : ∃ a h, w.audit = some a ∧ a.Ledger h ∧ h.revision = r ∧ h.outcome = .prepared
  orphaned : w.task.completes r = false

/-- What a successful reopening leaves behind. -/
def Audit.reopened (a : Audit) (e : Event) (approval : RecoveryApproval) : Audit :=
  { ((a.resolve .reconciled fun x => x.revision = e.revision).releaseSupersededSnapshots e.revision)
    with state := .opened }.record (.verifiedRestore approval)

/-- The approval of a recorded reconciliation, once both attestations are given. -/
def RecoveryApproval.attested (approval : RecoveryApproval) : RecoveryApproval :=
  { approval with acceptedRecordLoss := true, inventoryComplete := true }

theorem Audit.reopen_attested {latest : Snapshot} {approval : RecoveryApproval}
    (hhead : a.head = .ok h) (hlatest : a.latestReconciled = some approval)
    (hevidence : Audit.evidence P h.revision latest c = .ok approval)
    (hanchor : h.revision = c.recoveryAnchor.revision)
    (hrevoked : ∀ r ∈ c.credentials, r.revokedAt ≠ none) :
    a.reopen P c approval.attested = .ok (a.reopened h approval.attested) := by
  simp only [Audit.evidence, bind_eq_ok, pure_eq_ok, Except.ok.injEq] at hevidence
  obtain ⟨verification, hverify, rfl⟩ := hevidence
  have hlive : ¬ ∃ r ∈ c.credentials, r.revokedAt = none := by
    rintro ⟨r, hr, hnone⟩
    exact hrevoked r hr hnone
  simp only [Audit.reopen, hhead, hverify, Audit.expectedApproval, hlatest, ok_bind, refuseIf,
    RecoveryApproval.attested, failIf_neg hlive]
  simp [failIf, hanchor, Audit.reopened]

/-- A recorded reconciliation can be reopened at once, with what it recorded. -/
theorem reopen_of_recorded {latest : Snapshot} {approval : RecoveryApproval}
    (hrecord : step P w .reconcileRecord = some w')
    (htask : w.task = .reconcileLanded file h.revision latest) (haudit : w'.audit = some a)
    (hlatest : a.latestReconciled = some approval) (hfile : w'.files file = some c)
    (hhead : a.head = .ok h) (hanchor : h.revision = c.recoveryAnchor.revision)
    (hrevoked : ∀ r ∈ c.credentials, r.revokedAt ≠ none) :
    step P w' (.reopen file approval.attested) =
      some { w' with audit := some (a.reopened h approval.attested) } := by
  simp only [step, htask, Option.bind_eq_bind, Option.bind_eq_some_iff, succeeded_eq_some,
    Option.pure_def, Option.some.injEq] at hrecord
  obtain ⟨b, hb, d, hd, recorded, hrecorded, rfl⟩ := hrecord
  obtain rfl : d = c := Option.some.inj (hd.symm.trans hfile)
  obtain rfl : b.record (.reconciled recorded) = a := Option.some.inj haudit
  obtain rfl : recorded = approval := by simpa [Audit.latestReconciled, Audit.record] using hlatest
  have hreopen := Audit.reopen_attested hhead hlatest hrecorded hanchor hrevoked
  simp [step, hd, Task.isTool, hreopen, succeeded]

theorem Audit.latestReconciled_mem {approval : RecoveryApproval}
    (hlatest : a.latestReconciled = some approval) : .reconciled approval ∈ a.recoveryEvents := by
  obtain ⟨e, hmem, he⟩ := List.exists_of_findSome?_eq_some hlatest
  split at he
  · cases he
    exact List.mem_reverse.mp hmem
  · cases he

/-- Reopening needs the evidence of the reconciliation that wrote the newest revision. -/
theorem Coherent.reopen_writer (hc : Coherent P ops start w a h top older)
    {approval : RecoveryApproval} (hreopen : a.reopen P c approval = .ok b) :
    (h.revision, .reconcile) ∈ w.writers := by
  obtain ⟨⟨recorded, hlatest, rfl⟩, hrevision, -⟩ := Audit.reopen_eq_ok hc.ledger hreopen
  rw [← hrevision]
  exact hc.evidence recorded (Audit.latestReconciled_mem hlatest)

theorem Abandoned.orphaned_step {r : ℤ} (hs : Abandoned r w) (hmove : Move P w action w') :
    w'.task.completes r = false := by
  have horphaned := hs.orphaned
  obtain ⟨a, h, haudit, hl, -, hprepared⟩ := hs.intent
  cases hmove with
  | intend _ hb hprepare =>
    obtain rfl := Option.some.inj (hb.symm.trans haudit)
    exact absurd hprepared (Audit.prepareIntent_eq_ok hl hprepare).1
  | anchor htask | commit htask =>
    rw [htask] at horphaned
    exact horphaned
  | abort => exact Task.aborted_not_completes _
  | @restore _ _ quiesced _ _ _ _ => cases quiesced <;> rfl
  | @reconcile _ quiesced _ _ _ _ => cases quiesced <;> rfl
  | operate | commitLost | complete | kill | serve | adopt | startTool | restoreCopy
  | restoreReconcile | reconcileIntend | reconcileCommit | reconcileCommitLost
  | reconcileRecord => rfl
  | _ => exact horphaned

theorem Abandoned.step {r : ℤ} (hw : (machine P ops start).Reachable w) (hs : Abandoned r w)
    (hstep : (machine P ops start).step w action w') : Abandoned r w' := by
  have hmove := Move.of_step hstep.2
  refine ⟨hmove.writers_suffix.subset hs.writer, ?_, hs.orphaned_step hmove⟩
  obtain ⟨a, h, haudit, hl, hrevision, hprepared⟩ := hs.intent
  obtain ⟨h, top, older, hc⟩ := coherent_of_reachable hw haudit
  obtain rfl := Option.some.inj (hl.last.symm.trans hc.ledger.last)
  obtain ⟨b, hb, heffect⟩ := hc.auditEffect haudit hmove
  cases heffect with
  | kept hkept _ => exact ⟨b, _, hb, hkept, hrevision, hprepared⟩
  | appended _ hresolved _ _ _ => exact absurd hprepared hresolved
  | completed f hlanded _ _ =>
    have horphaned := hs.orphaned
    rw [hlanded, hrevision] at horphaned
    simp [Task.completes] at horphaned
  | reopened f approval c _ _ hreopen =>
    -- one revision is not allocated by two calls
    have hreconcile := hc.reopen_writer hreopen
    rw [hrevision] at hreconcile
    cases hc.allocatedOnce r _ _ hs.writer hreconcile

theorem Abandoned.refuses {r : ℤ} (hs : Abandoned r w) : ∃ a, w.audit = some a ∧
    (∃ e ∈ a.events, e.revision = r ∧ e.outcome = .prepared) ∧
    (∀ c, a.ensureOpen c ≠ .ok ()) ∧ ∀ lineage, a.readOpenLineage ≠ .ok lineage := by
  obtain ⟨a, h, haudit, hl, hrevision, hprepared⟩ := hs.intent
  refine ⟨a, haudit, ⟨h, hl.mem_head, hrevision, hprepared⟩, fun c hopen => ?_, fun _ hread => ?_⟩
  · exact ((Audit.ensureOpen_eq_ok hl).mp hopen).2.1 hprepared
  · exact (Audit.readOpenLineage_eq_ok hl hread).2.1 hprepared

end Uncertainty

/-- An ordinary intent left unresolved stays so and ends service; a closed gate opens only by a
reopening; and a reopening needs the evidence of the reconciliation that is the head. -/
theorem uncertain_never_certain (hw : (machine P ops start).Reachable w) :
    (∀ r a, w.audit = some a → (r, .ordinary) ∈ w.writers →
      (∃ e ∈ a.events, e.revision = r ∧ e.outcome = .prepared) → w.task.completes r = false →
      ∀ w', (machine P ops start).Later w w' → ∃ b, w'.audit = some b ∧
        (∃ e ∈ b.events, e.revision = r ∧ e.outcome = .prepared) ∧
        (∀ c, b.ensureOpen c ≠ .ok ()) ∧ ∀ lineage, b.readOpenLineage ≠ .ok lineage) ∧
    (∀ action w₁ labels w', (machine P ops start).step w action w₁ → action.closes = true →
      (machine P ops start).Run w₁ labels w' → (∀ x ∈ labels, x.isReopen = false) →
      ∃ b, w'.audit = some b ∧
        ∀ c, b.ensureOpen c ≠ .ok () ∧ ∀ d, openProtected b c ≠ .ok d) ∧
    ∀ f approval w', (machine P ops start).step w (.reopen f approval) w' →
      ∃ a head c recorded, w.audit = some a ∧ a.head = .ok head ∧ w.files f = some c ∧
        a.latestReconciled = some recorded ∧ recorded.auditRevision = head.revision ∧
        (∀ writer, (head.revision, writer) ∈ w.writers ↔ writer = .reconcile) ∧
        approval = { recorded with acceptedRecordLoss := true, inventoryComplete := true } ∧
        c.recoveryAnchor.revision = head.revision ∧ ∀ r ∈ c.credentials, r.revokedAt ≠ none := by
  refine ⟨fun r a haudit hwriter ⟨e, hmem, hrevision, hprepared⟩ horphaned w' hlater => ?_,
    fun action w₁ labels w' hstep hcloses hrun hno => ?_, fun f approval w' hstep => ?_⟩
  · obtain ⟨h, top, older, hc⟩ := coherent_of_reachable hw haudit
    obtain rfl := hc.ledger.settled e hmem hprepared
    have habandoned : Abandoned r w :=
      ⟨hwriter, ⟨a, e, haudit, hc.ledger, hrevision, hprepared⟩, horphaned⟩
    exact (hlater.stable (fun _ _ _ hr => Abandoned.step hr) hw habandoned).refuses
  · obtain ⟨b, hb, hclosed⟩ :=
      Shut.run (hw.tail hstep) ((Move.of_step hstep.2).shut hcloses) hrun hno
    exact ⟨b, hb, fun c =>
      ⟨Audit.ensureOpen_closed hclosed, fun d => Audit.openProtected_closed hclosed⟩⟩
  · cases Move.of_step hstep.2 with
    | @reopen _ _ a b c haudit hfile _ hreopen =>
      obtain ⟨h, top, older, hc⟩ := coherent_of_reachable hw haudit
      have hwriter := hc.reopen_writer hreopen
      obtain ⟨⟨recorded, hlatest, rfl⟩, hrevision, hanchor, hrevoked, -⟩ :=
        Audit.reopen_eq_ok hc.ledger hreopen
      refine ⟨a, h, c, recorded, haudit, hc.ledger.head_eq, hfile, hlatest, hrevision, ?_, rfl,
        hanchor, hrevoked⟩
      exact fun writer =>
        ⟨fun hmem => hc.allocatedOnce _ _ _ hmem hwriter, fun heq => heq ▸ hwriter⟩

/-- A process that dies after its intent leaves a store that is never served again. -/
theorem uncertain_never_certain_killed :
    ∃ w, trace .plain (.baseline "central.db" (.baseline "journal"))
        [.operate (storeSecret (List.replicate 32 0)), .intend, .kill] = some w ∧
      ∀ w', (machine .plain Set.univ (· = .baseline "journal")).Later w w' →
        ∃ b, w'.audit = some b ∧ ∀ c, b.ensureOpen c ≠ .ok () := by
  refine ⟨_, rfl, fun w' hlater => ?_⟩
  have hbaseline : (machine .plain Set.univ (· = .baseline "journal")).Reachable
      (.baseline "central.db" (.baseline "journal")) := reachable_baseline rfl rfl rfl
  have hkilled := hbaseline.later ⟨_, run_of_trace
    [.operate (storeSecret (List.replicate 32 0)), .intend, .kill] rfl fun _ _ => Set.mem_univ _⟩
  obtain ⟨b, hb, -, hrefuses, -⟩ := (uncertain_never_certain hkilled).1 1 _ rfl
    (List.mem_cons_self ..) ⟨_, .tail _ (.head _), rfl, rfl⟩ rfl w' hlater
  exact ⟨b, hb, hrefuses⟩

end AgentJournal.Recovery
