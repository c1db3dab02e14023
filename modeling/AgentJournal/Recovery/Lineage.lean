import AgentJournal.Recovery.Restore
import AgentJournal.Recovery.World

/-! # The lineage of a journal

Abstractly a journal is one chain of contents, newest first, with one content for each
revision. The next content is either the newest one after an audited closure, or any earlier
one merged with the snapshot of the newest. Files and processes do not occur here.
-/

namespace AgentJournal.Recovery
open Domain Foundation Storage

section Anchor
variable (c : Central) (r : ℤ)

@[simp] theorem setRequired_revision :
    (setRequired c).recoveryAnchor.revision = c.recoveryAnchor.revision := rfl

@[simp] theorem setRequired_auditRequired :
    (setRequired c).recoveryAnchor.auditRequired = true := rfl

@[simp] theorem setRequired_journalId :
    (setRequired c).recoveryAnchor.journalId = c.recoveryAnchor.journalId := rfl

theorem setRequired_eq {c : Central} (h : c.recoveryAnchor.auditRequired = true) :
    setRequired c = c := by
  unfold setRequired
  rw [← h]

@[simp] theorem snapshot_setRequired : snapshot (setRequired c) = snapshot c := rfl

end Anchor

/-- Newest first. A stored content may still lack the adoption mark of the baseline, so the
input of a reconciliation is compared by its adopted form. -/
inductive Lineage (P : Platform) (ops : Set Operation) (start : Central → Prop) :
    List Central → Prop
  | fresh {c : Central} : start c → c.recoveryAnchor.revision = 0 →
      Lineage P ops start [setRequired c]
  | operated {c tx : Central} {older : List Central} {op : Operation} {n : ℕ} :
      Lineage P ops start (c :: older) → op ∈ ops → op.run c = some (tx, n + 1) →
      Lineage P ops start (setRevision (c.recoveryAnchor.revision + 1) tx :: c :: older)
  | reconciled {c backup tx : Central} {older : List Central} {clock : RestoreClock} :
      Lineage P ops start (c :: older) → setRequired backup ∈ c :: older →
      restoreSecurity P clock backup (snapshot c) = .ok tx → tx.foreignKeyCheck = true →
      Lineage P ops start (setReconciled (c.recoveryAnchor.revision + 1) tx :: c :: older)

namespace Lineage
variable {P : Platform} {ops : Set Operation} {start : Central → Prop} {c d : Central}
  {older contents : List Central}

/-- Every content of a lineage is adopted. -/
theorem required (hl : Lineage P ops start contents) :
    ∀ c ∈ contents, c.recoveryAnchor.auditRequired = true := by
  induction hl with
  | fresh _ _ => simp
  | operated _ _ hrun ih =>
    rintro d (_ | ⟨_, hd⟩)
    · exact (congrArg RecoveryAnchor.auditRequired (Operation.anchored _ _ _ _ hrun)).trans
        (ih _ List.mem_cons_self)
    · exact ih d hd
  | reconciled _ _ _ _ ih =>
    rintro d (_ | ⟨_, hd⟩)
    · rfl
    · exact ih d hd

/-- Revisions count the contents below. -/
theorem revision (hl : Lineage P ops start (c :: older)) :
    c.recoveryAnchor.revision = older.length := by
  generalize hcontents : c :: older = contents at hl
  induction hl generalizing c older with
  | fresh _ hzero =>
    cases hcontents
    exact hzero
  | operated _ _ _ ih =>
    cases hcontents
    simp [setRevision, ih rfl]
  | reconciled _ _ _ _ ih =>
    cases hcontents
    simp [setReconciled, ih rfl]

theorem descending (hl : Lineage P ops start contents) :
    contents.Pairwise fun newer older =>
    older.recoveryAnchor.revision < newer.recoveryAnchor.revision := by
  have hlt : ∀ {c : Central} {older : List Central} {next : Central},
      next.recoveryAnchor.revision = c.recoveryAnchor.revision + 1 →
      (c :: older).Pairwise (fun newer older =>
        older.recoveryAnchor.revision < newer.recoveryAnchor.revision) →
      ∀ d ∈ c :: older, d.recoveryAnchor.revision < next.recoveryAnchor.revision := by
    intro c older next hnext hp d hd
    rcases List.mem_cons.mp hd with rfl | hd
    · omega
    · have := List.rel_of_pairwise_cons hp hd
      omega
  induction hl with
  | fresh _ _ => simp
  | operated _ _ _ ih => exact List.pairwise_cons.mpr ⟨hlt rfl ih, ih⟩
  | reconciled _ _ _ _ ih => exact List.pairwise_cons.mpr ⟨hlt rfl ih, ih⟩

/-- A revision is carried by one content. -/
theorem eq_of_revision (hl : Lineage P ops start contents) (hc : c ∈ contents)
    (hd : d ∈ contents) (hr : c.recoveryAnchor.revision = d.recoveryAnchor.revision) : c = d := by
  have hnodup : (contents.map (·.recoveryAnchor.revision)).Nodup :=
    List.pairwise_map.mpr (hl.descending.imp fun h => h.ne')
  exact List.inj_on_of_nodup_map hnodup hc hd hr

/-- What holds from each content to the newer ones follows the order of revisions. -/
theorem rel_of_revision_le {R : Central → Central → Prop} (hl : Lineage P ops start contents)
    (hrefl : ∀ c, R c c) (hR : contents.Pairwise fun newer older => R older newer)
    (hc : c ∈ contents) (hd : d ∈ contents)
    (hle : c.recoveryAnchor.revision ≤ d.recoveryAnchor.revision) : R c d := by
  have : Std.Symm fun a b : Central =>
    (a.recoveryAnchor.revision ≤ b.recoveryAnchor.revision → R a b) ∧
      (b.recoveryAnchor.revision ≤ a.recoveryAnchor.revision → R b a) := ⟨fun _ _ h => ⟨h.2, h.1⟩⟩
  have hboth : contents.Pairwise fun a b =>
      (a.recoveryAnchor.revision ≤ b.recoveryAnchor.revision → R a b) ∧
        (b.recoveryAnchor.revision ≤ a.recoveryAnchor.revision → R b a) := by
    refine (hl.descending.and hR).imp ?_
    rintro a b ⟨hlt, hab⟩
    exact ⟨fun hle => absurd hlt (by omega), fun _ => hab⟩
  exact (hboth.forall_of_forall (fun a _ => ⟨fun _ => hrefl a, fun _ => hrefl a⟩) hc hd).1 hle

theorem revision_nonneg (hl : Lineage P ops start contents) :
    ∀ c ∈ contents, 0 ≤ c.recoveryAnchor.revision := by
  have hnext : ∀ {c : Central} {older : List Central},
      Lineage P ops start (c :: older) → 0 ≤ c.recoveryAnchor.revision + 1 := by
    intro c older hl
    rw [hl.revision]
    omega
  induction hl with
  | fresh _ hzero =>
    intro d hd
    obtain rfl := List.mem_singleton.mp hd
    exact hzero.ge
  | operated hl _ _ ih => exact List.forall_mem_cons.mpr ⟨hnext hl, ih⟩
  | reconciled hl _ _ _ ih => exact List.forall_mem_cons.mpr ⟨hnext hl, ih⟩

theorem revision_le (hl : Lineage P ops start (c :: older)) (hd : d ∈ c :: older) :
    d.recoveryAnchor.revision ≤ c.recoveryAnchor.revision := by
  rcases List.mem_cons.mp hd with rfl | hd
  · exact le_rfl
  · exact (List.rel_of_pairwise_cons hl.descending hd).le

/-- A content of the same journal as the newest one. -/
theorem journalId_cons {next top : Central} {older : List Central}
    (hknown : ∀ c ∈ top :: older, ∀ d ∈ top :: older,
      d.recoveryAnchor.journalId = c.recoveryAnchor.journalId)
    (hnext : next.recoveryAnchor.journalId = top.recoveryAnchor.journalId)
    (hc : c ∈ next :: top :: older) (hd : d ∈ next :: top :: older) :
    d.recoveryAnchor.journalId = c.recoveryAnchor.journalId := by
  rcases List.mem_cons.mp hc with rfl | hcold <;> rcases List.mem_cons.mp hd with rfl | hdold
  · rfl
  · exact (hknown top List.mem_cons_self d hdold).trans hnext.symm
  · exact hnext.trans (hknown c hcold top List.mem_cons_self)
  · exact hknown c hcold d hdold

/-- One journal identity runs through a lineage. -/
theorem journalId_eq (hl : Lineage P ops start contents) (hc : c ∈ contents) (hd : d ∈ contents) :
    d.recoveryAnchor.journalId = c.recoveryAnchor.journalId := by
  induction hl generalizing c d with
  | fresh _ _ =>
    rw [List.mem_singleton.mp hc, List.mem_singleton.mp hd]
  | @operated top tx older op n _ _ hrun ih =>
    have hnext : (setRevision (top.recoveryAnchor.revision + 1) tx).recoveryAnchor.journalId =
        top.recoveryAnchor.journalId := by
      rw [setRevision, Operation.anchored _ _ _ _ hrun]
    exact journalId_cons (fun _ hc _ hd => ih hc hd) hnext hc hd
  | @reconciled top backup tx older clock _ hbackup hrestore _ ih =>
    have hnext : (setReconciled (top.recoveryAnchor.revision + 1) tx).recoveryAnchor.journalId =
        top.recoveryAnchor.journalId := by
      have hanchor := congrArg RecoveryAnchor.journalId
        (restoreSecurity_sameRecords hrestore).recoveryAnchor
      exact hanchor.trans (ih (d := setRequired backup) List.mem_cons_self hbackup)
    exact journalId_cons (fun _ hc _ hd => ih hc hd) hnext hc hd

end Lineage
end AgentJournal.Recovery
