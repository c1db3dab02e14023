import AgentJournal.Recovery.Audit
import Mathlib.Algebra.Order.Ring.Int

/-! # The numbered events of an audit

The events of an audit count up from zero, and only the newest can be unresolved. Each
audit transaction is described by its effect on the newest event.
-/

namespace AgentJournal.Recovery
open Domain Foundation Storage

theorem refuseIf_eq_ok {condition : Prop} [Decidable condition] {message : String} {u : Unit} :
    refuseIf condition message = .ok u ↔ ¬condition := failIf_eq_ok

theorem sqlite_eq_ok {α : Type} {x : Sql α} {y : α} : sqlite x = .ok y ↔ x = .ok y := by
  cases x <;> simp [sqlite]

theorem checkedSucc_eq_ok {revision next : ℤ} (h : checkedSucc revision = .ok next) :
    next = revision + 1 := by
  unfold checkedSucc closed at h
  split at h
  · cases h
  · exact (Except.ok.inj h).symm

namespace Audit
variable {a b : Audit} {h e : Event}

structure Ledger (a : Audit) (h : Event) : Prop where
  last : a.events.getLast? = some h
  numbered : ∀ (i : ℕ) (e : Event), a.events[i]? = some e → e.revision = i
  settled : ∀ e ∈ a.events, e.outcome = .prepared → e = h

namespace Ledger

theorem head_eq (hl : a.Ledger h) : a.head = .ok h := by
  simp only [head, hl.last]

theorem mem_head (hl : a.Ledger h) : h ∈ a.events := List.mem_of_getLast? hl.last

theorem head_revision (hl : a.Ledger h) : h.revision + 1 = a.events.length := by
  have hpos : 0 < a.events.length := List.length_pos_of_mem hl.mem_head
  have hlast : a.events[a.events.length - 1]? = some h := by
    rw [← List.getLast?_eq_getElem?]
    exact hl.last
  have := hl.numbered _ _ hlast
  omega

theorem revision_bounds (hl : a.Ledger h) (he : e ∈ a.events) :
    0 ≤ e.revision ∧ e.revision ≤ h.revision := by
  obtain ⟨i, hi⟩ := List.mem_iff_getElem?.mp he
  have hlt : i < a.events.length := (List.getElem?_eq_some_iff.mp hi).1
  have := hl.numbered i e hi
  have := hl.head_revision
  omega

/-- A ledger depends on the events only. -/
theorem congr (hl : a.Ledger h) (hb : b.events = a.events) : b.Ledger h :=
  ⟨hb ▸ hl.last, hb ▸ hl.numbered, hb ▸ hl.settled⟩

/-- The next revision is appended behind a resolved head. -/
theorem append (hl : a.Ledger h) (hresolved : h.outcome ≠ .prepared)
    (hr : e.revision = h.revision + 1) (hb : b.events = a.events ++ [e]) : b.Ledger e where
  last := by simp [hb]
  numbered i d hd := by
    rw [hb, List.getElem?_append] at hd
    split at hd
    · exact hl.numbered i d hd
    · rename_i hlt
      obtain ⟨hi, rfl⟩ := List.getElem?_eq_some_iff.mp hd
      rw [List.length_singleton] at hi
      have := hl.head_revision
      rw [List.getElem_singleton]
      omega
  settled d hd hprepared := by
    rw [hb, List.mem_append, List.mem_singleton] at hd
    rcases hd with hd | hd
    · exact absurd (hl.settled d hd hprepared ▸ hprepared) hresolved
    · exact hd

/-- A rewrite of the events that keeps revisions and unresolves none. -/
theorem map (hl : a.Ledger h) {g : Event → Event} (hrev : ∀ e, (g e).revision = e.revision)
    (hout : ∀ e, (g e).outcome = .prepared → e.outcome = .prepared)
    (hb : b.events = a.events.map g) : b.Ledger (g h) where
  last := by simp [hb, hl.last]
  numbered i d hd := by
    rw [hb, List.getElem?_map, Option.map_eq_some_iff] at hd
    obtain ⟨e, he, rfl⟩ := hd
    rw [hrev]
    exact hl.numbered i e he
  settled d hd hprepared := by
    rw [hb, List.mem_map] at hd
    obtain ⟨e, he, rfl⟩ := hd
    rw [hl.settled e he (hout e hprepared)]

/-- The primary key keeps the table in revision order, so a newer revision goes last. -/
theorem insertEvent_eq (hl : a.Ledger h) (hr : h.revision < e.revision)
    (hb : a.insertEvent e = .ok b) : b = { a with events := a.events ++ [e] } := by
  unfold insertEvent at hb
  split at hb
  · cases hb
  · cases hb
    have happend : ∀ l : List Event, (∀ x ∈ l, x.revision < e.revision) →
        l.orderedInsert (fun x y => x.revision ≤ y.revision) e = l ++ [e] := by
      intro l hl
      induction l with
      | nil => rfl
      | cons x l ih =>
        have hx : x.revision < e.revision := hl x List.mem_cons_self
        have htail := ih fun y hy => hl y (List.mem_cons_of_mem x hy)
        rw [List.orderedInsert, if_neg (not_le.mpr hx), htail, List.cons_append]
    rw [happend a.events fun x hx => (hl.revision_bounds hx).2.trans_lt hr]

end Ledger

@[simp] theorem recordCrashRecovery_events (a : Audit) (v : Verified) :
    (a.recordCrashRecovery v).events = a.events := by
  unfold recordCrashRecovery
  split <;> rfl

@[simp] theorem recordCrashRecovery_state (a : Audit) (v : Verified) :
    (a.recordCrashRecovery v).state = a.state := by
  unfold recordCrashRecovery
  split <;> rfl

@[simp] theorem recordCrashRecovery_journalId (a : Audit) (v : Verified) :
    (a.recordCrashRecovery v).journalId = a.journalId := by
  unfold recordCrashRecovery
  split <;> rfl

/-- What an accepted `ensure_open` saw. -/
theorem ensureOpen_eq_ok {c : Central} (hl : a.Ledger h) : a.ensureOpen c = .ok () ↔
    a.state = .opened ∧ h.outcome ≠ .prepared ∧ h.revision = c.recoveryAnchor.revision := by
  simp only [ensureOpen, hl.head_eq, ok_bind, refuseIf_eq_ok]
  tauto

theorem headSnapshot_eq_ok {s : Snapshot} (hl : a.Ledger h) :
    a.headSnapshot = .ok s ↔ h.snapshot = some s := by
  simp only [headSnapshot, hl.head_eq, ok_bind]
  cases h.snapshot <;> simp [closed]

theorem requireResolved_eq_ok (hl : a.Ledger h) :
    a.requireResolvedRecoveryInput = .ok () ↔ h.outcome ≠ .prepared := by
  simp only [requireResolvedRecoveryInput, hl.head_eq, ok_bind, refuseIf_eq_ok, ne_eq]

/-- A prepared intent is the next revision with the snapshot of its transaction. -/
theorem prepareIntent_eq_ok {tx : Central} {revision : ℤ} (hl : a.Ledger h)
    (hb : a.prepareIntent tx = .ok (revision, b)) :
    h.outcome ≠ .prepared ∧ revision = h.revision + 1 ∧
      b = { a with events := a.events ++ [⟨revision, some (snapshot tx), .prepared⟩] } := by
  simp only [prepareIntent, hl.head_eq, ok_bind, bind_eq_ok, refuseIf_eq_ok, pure_eq_ok,
    Except.ok.injEq, Prod.mk.injEq] at hb
  obtain ⟨_, hresolved, next, hnext, a', hinsert, rfl, rfl⟩ := hb
  have hr : next = h.revision + 1 := checkedSucc_eq_ok hnext
  exact ⟨hresolved, hr, hl.insertEvent_eq (by dsimp only; omega) hinsert⟩

/-- A completion resolves the newest event, which was its intent. -/
theorem committed_eq_ok {revision : ℤ} (hl : a.Ledger h) (hb : a.committed revision = .ok b) :
    h.revision = revision ∧ h.outcome = .prepared ∧ b.Ledger { h with outcome := .committed } ∧
      b.state = a.state ∧ b.journalId = a.journalId ∧ b.recoveryEvents = a.recoveryEvents := by
  simp only [committed, bind_eq_ok, refuseIf_eq_ok, pure_eq_ok, Except.ok.injEq] at hb
  obtain ⟨_, hcount, rfl⟩ := hb
  have hmatch : ∃ e ∈ a.events, e.revision = revision ∧ e.outcome = .prepared := by
    have hpos : 0 < a.events.countP fun e => e.revision = revision && e.outcome = .prepared := by
      omega
    obtain ⟨e, he, hp⟩ := List.countP_pos_iff.mp hpos
    simp only [Bool.and_eq_true, decide_eq_true_eq] at hp
    exact ⟨e, he, hp⟩
  obtain ⟨e, he, hrev, hprepared⟩ := hmatch
  obtain rfl : e = h := hl.settled e he hprepared
  refine ⟨hrev, hprepared, ?_, rfl, rfl, rfl⟩
  have hmap := hl.map (g := fun x =>
      (fun y : Event => if y.revision < revision then { y with snapshot := none } else y)
        (if x.revision = revision && x.outcome = .prepared then
          { x with outcome := Outcome.committed } else x))
    (b := (a.resolve .committed fun e => e.revision = revision && e.outcome = .prepared)
      |>.releaseSupersededSnapshots revision)
    (fun x => by dsimp only; split <;> split <;> rfl)
    (fun x => by dsimp only; split <;> split <;> simp)
    (by simp [resolve, releaseSupersededSnapshots, Function.comp_def])
  simpa [hrev, hprepared] using hmap

/-- What a successful reopening checked, and its effect. -/
theorem reopen_eq_ok {P : Platform} {c : Central} {approval : RecoveryApproval} (hl : a.Ledger h)
    (hb : a.reopen P c approval = .ok b) :
    (∃ recorded, a.latestReconciled = some recorded ∧
      approval = { recorded with acceptedRecordLoss := true, inventoryComplete := true }) ∧
    approval.auditRevision = h.revision ∧ c.recoveryAnchor.revision = h.revision ∧
    (∀ r ∈ c.credentials, r.revokedAt ≠ none) ∧
    b.Ledger { h with outcome := .reconciled } ∧ b.state = .opened ∧ b.journalId = a.journalId ∧
    b.recoveryEvents = a.recoveryEvents ++ [.verifiedRestore approval] := by
  simp only [reopen, hl.head_eq, ok_bind, bind_eq_ok, refuseIf_eq_ok, pure_eq_ok, not_or, not_not,
    Except.ok.injEq] at hb
  obtain ⟨verification, hverify, recorded, hrecorded, _, hmatch, _, hrevoked, rfl⟩ := hb
  obtain ⟨-, -, hrev, hanchor, -, happroval, -⟩ := hmatch
  refine ⟨?_, hrev.symm, hanchor.symm, ?_, ?_, rfl, rfl, rfl⟩
  · unfold expectedApproval at hrecorded
    split at hrecorded
    · rename_i found hfound
      exact ⟨found, hfound, happroval.symm.trans (Except.ok.inj hrecorded).symm⟩
    · cases hrecorded
  · exact fun r hr hlive => hrevoked ⟨r, hr, hlive⟩
  · have hmap := hl.map (g := fun x =>
        (fun y : Event => if y.revision < h.revision then { y with snapshot := none } else y)
          (if x.revision = h.revision then { x with outcome := Outcome.reconciled } else x))
      (b := { ((a.resolve .reconciled fun x => x.revision = h.revision)
        |>.releaseSupersededSnapshots h.revision) with state := .opened }.record
          (.verifiedRestore approval))
      (fun x => by dsimp only; split <;> split <;> rfl)
      (fun x => by dsimp only; split <;> split <;> simp)
      (by simp [resolve, releaseSupersededSnapshots, record, Function.comp_def])
    simpa using hmap

/-- What the computation of a reconciliation read and produced. -/
theorem reconcileIntent_eq_ok {P : Platform} {clock : RestoreClock} {c tx : Central} {revision : ℤ}
    (hl : a.Ledger h) (hb : a.reconcileIntent P clock c = .ok (revision, tx, b)) :
    ∃ latest, h.snapshot = some latest ∧ a.journalId = c.recoveryAnchor.journalId ∧
      c.recoveryAnchor.revision ≤ h.revision ∧ restoreSecurity P clock c latest = .ok tx ∧
      tx.foreignKeyCheck = true ∧ revision = h.revision + 1 ∧
      b = { a with events := a.events ++ [⟨revision, some (snapshot tx), .prepared⟩] } := by
  simp only [reconcileIntent, hl.head_eq, ok_bind, bind_eq_ok, refuseIf_eq_ok, pure_eq_ok,
    Except.ok.injEq, Prod.mk.injEq, headSnapshot_eq_ok hl, not_not, Bool.not_eq_false] at hb
  obtain ⟨latest, hlatest, _, hjournal, _, hanchor, restored, hrestored, _, hfk, next, hnext, a',
    hinsert, rfl, rfl, rfl⟩ := hb
  have hr : next = h.revision + 1 := checkedSucc_eq_ok hnext
  exact ⟨latest, hlatest, hjournal, not_lt.mp hanchor, hrestored, hfk, hr,
    hl.insertEvent_eq (by dsimp only; omega) hinsert⟩

/-- The loop accepts only consecutive resolved revisions. -/
theorem checkLineage_resolved {last : ℤ} : ∀ {expected : ℤ} {events : List Event},
    checkLineage last expected events = .ok () → ∀ e ∈ events, e.outcome ≠ .prepared
  | _, [], _, e, he => by cases he
  | expected, d :: rest, hok, e, he => by
    simp only [checkLineage, bind_eq_ok, refuseIf_eq_ok, not_or] at hok
    obtain ⟨_, ⟨-, hd⟩, _, -, hrest⟩ := hok
    rcases List.mem_cons.mp he with rfl | he
    · exact hd
    · exact checkLineage_resolved hrest e he

theorem checkLineage_numbered {last : ℤ} : ∀ {expected : ℤ} {events : List Event},
    checkLineage last expected events = .ok () →
      ∀ (i : ℕ) (e : Event), events[i]? = some e → e.revision = expected + i
  | _, [], _, i, e, he => by simp at he
  | expected, d :: rest, hok, i, e, he => by
    simp only [checkLineage, bind_eq_ok, refuseIf_eq_ok, not_or, not_not] at hok
    obtain ⟨_, ⟨hd, -⟩, _, -, hrest⟩ := hok
    cases i with
    | zero =>
      cases he
      simpa using hd
    | succ i =>
      have := checkLineage_numbered hrest i e (by simpa using he)
      push_cast
      omega

/-- A lineage that was read is a ledger. -/
theorem ledger_of_readOpenLineage {lineage : AuditLineage} (hok : a.readOpenLineage = .ok lineage) :
    ∃ h, a.Ledger h := by
  simp only [readOpenLineage, bind_eq_ok, refuseIf_eq_ok, not_or] at hok
  obtain ⟨_, ⟨-, hevents⟩, _, hcheck, -⟩ := hok
  obtain ⟨h, hlast⟩ := Option.ne_none_iff_exists.mp (mt List.getLast?_eq_none_iff.mp hevents)
  exact ⟨h, hlast.symm, fun i e he => by simpa using checkLineage_numbered hcheck i e he,
    fun e he hprepared => absurd hprepared (checkLineage_resolved hcheck e he)⟩

theorem readOpenLineage_eq_ok {lineage : AuditLineage} (hl : a.Ledger h)
    (hok : a.readOpenLineage = .ok lineage) :
    a.state = .opened ∧ h.outcome ≠ .prepared ∧ lineage.journalId = a.journalId ∧
      lineage.revision = h.revision ∧ h.snapshot = some lineage.snapshot := by
  simp only [readOpenLineage, bind_eq_ok, refuseIf_eq_ok, pure_eq_ok, not_or, not_not,
    headSnapshot_eq_ok hl, Except.ok.injEq] at hok
  obtain ⟨_, ⟨hstate, -⟩, _, hcheck, s, hs, rfl⟩ := hok
  have hrev := hl.head_revision
  exact ⟨hstate, checkLineage_resolved hcheck h hl.mem_head, rfl, by dsimp only; omega, hs⟩

end Audit
end AgentJournal.Recovery
