import AgentJournal.Recovery.Completeness
import AgentJournal.Recovery.Admission
import AgentJournal.Service.Journal

/-! # The contents of a journal over its whole history

Along every lineage whose closures are service calls, each content is well formed and sound,
each content extends all the older ones, and sequences are allocated once. The world only ever
stores contents of such a lineage.
-/

namespace AgentJournal.Service
open Domain Foundation Storage Recovery

variable {P : Platform} {c d : Central}

section Anchor
variable (a : RecoveryAnchor)

theorem wellFormed_anchor (h : WellFormed P c) : WellFormed P { c with recoveryAnchor := a } :=
  ⟨{ h.tables with }, { h.references with }, h.names, h.indexed, h.relations⟩

theorem journalSound_anchor (h : JournalSound c) : JournalSound { c with recoveryAnchor := a } :=
  { h with }

theorem extends_anchor (h : Extends c d) (b : RecoveryAnchor) :
    Extends { c with recoveryAnchor := a } { d with recoveryAnchor := b } := { h with }

end Anchor

/-- A store that no audit has adopted: the fresh baseline after calls on unprotected handles. -/
inductive Unadopted (P : Platform) : Central → Prop
  | baseline (journalId : String) : Unadopted P (.baseline journalId)
  | call {c : Central} {host : Host} {t : Session} (call : Call) : Unadopted P c →
      (call.perform P).run (.start host c) = .ok ((), t) → Unadopted P t.central

/-- The database after calls on an unprotected handle, when each of them succeeds. -/
def performed (P : Platform) (c : Central) (calls : List (Host × Call)) : Option Central :=
  calls.foldlM (fun c x => (succeeded ((x.2.perform P).run (.start x.1 c))).map (·.2.central)) c

theorem Unadopted.performed (h : Unadopted P c) {calls : List (Host × Call)}
    (hd : performed P c calls = some d) : Unadopted P d := by
  induction calls generalizing c with
  | nil =>
    cases hd
    exact h
  | cons x calls ih =>
    simp only [Service.performed, List.foldlM_cons, Option.bind_eq_bind, Option.bind_eq_some_iff,
      Option.map_eq_some_iff, succeeded_eq_some] at hd
    obtain ⟨_, ⟨⟨_, t⟩, hrun, rfl⟩, hd⟩ := hd
    exact ih (h.call x.2 hrun) hd

theorem journalSound_baseline (journalId : String) : JournalSound (.baseline journalId) :=
  ⟨fun _ => rfl, rfl, by simp [Central.baseline], by simp [Central.baseline]⟩

theorem dense_baseline (journalId : String) : Dense (.baseline journalId) := fun _ => ⟨rfl, rfl⟩

theorem Unadopted.grown (h : Unadopted P c) : WellFormed P c ∧ JournalSound c ∧ Dense c ∧
    c.recoveryAnchor.revision = 0 ∧ c.recoveryAnchor.inboxEpoch = 0 := by
  induction h with
  | baseline journalId =>
    exact ⟨wellFormed_baseline P journalId, journalSound_baseline journalId,
      dense_baseline journalId,
      rfl, rfl⟩
  | @call c host t call _ hrun ih =>
    obtain ⟨hwell, hsound, hdense, hrevision, hepoch⟩ := ih
    have hdelivered := call.perform_delivered rfl hwell.tables.inboxSequences hsound hrun
    have hanchor := call.perform_anchored rfl hrun
    refine ⟨(call.perform_extends rfl hwell hrun).1, hdelivered.sound, hdelivered.dense hdense, ?_,
      ?_⟩
    · rw [hanchor]
      exact hrevision
    · rw [hanchor]
      exact hepoch

/-- The journal of a merged database is the journal of the backup under the newest heads. -/
theorem journalSound_restored {clock : RestoreClock} {b l : Central} (hr : Restored clock b l d)
    (hb : WellFormed P b) (hl : WellFormed P l) (h : Extends b l) (hsound : JournalSound b) :
    JournalSound d where
  sequences space := by
    unfold spaceSeqs
    rw [hr.sameRecords.records]
    exact hsound.sequences space
  delivered := by
    rw [hr.sameRecords.mailboxItems, hr.sameRecords.attention]
    exact hsound.delivered
  allocated m hm := by
    rw [hr.sameRecords.mailboxItems] at hm
    obtain ⟨n, hn, hle⟩ := hsound.allocated m hm
    have hd := (hr.tablesValid hb.tables hl.tables).inboxSequences
    obtain ⟨n', hn', hle'⟩ := lastSeq_le hb.tables.inboxSequences hd (h.trans hr.extended) hn
    exact ⟨n', hn', hle.trans hle'⟩
  keyed hne := by
    rw [hr.sameRecords.records] at hne
    rw [hr.sameRecords.journalSecret]
    exact hsound.keyed hne

/-- What holds of all contents of a lineage, newest first. -/
structure Grown (P : Platform) (contents : List Central) : Prop where
  wellFormed : ∀ c ∈ contents, WellFormed P c
  sound : ∀ c ∈ contents, JournalSound c
  extended : contents.Pairwise fun newer older => Extends older newer
  epochs : contents.Pairwise fun newer older =>
    older.recoveryAnchor.inboxEpoch ≤ newer.recoveryAnchor.inboxEpoch
  epoch_le : ∀ c ∈ contents, c.recoveryAnchor.inboxEpoch ≤ c.recoveryAnchor.revision
  once : ∀ c ∈ contents, ∀ d ∈ contents, ∀ m ∈ c.mailboxItems, ∀ m' ∈ d.mailboxItems,
    m.recipientPrincipalId = m'.recipientPrincipalId → m.recipientSeq = m'.recipientSeq →
    allocation m = allocation m'

namespace Grown
variable {contents older : List Central} {next top : Central}

theorem extends_top (h : Grown P (top :: older)) (hc : c ∈ top :: older) : Extends c top := by
  rcases List.mem_cons.mp hc with rfl | hc
  · exact .refl c
  · exact List.rel_of_pairwise_cons h.extended hc

theorem epoch_le_top (h : Grown P (top :: older)) (hc : c ∈ top :: older) :
    c.recoveryAnchor.inboxEpoch ≤ top.recoveryAnchor.inboxEpoch := by
  rcases List.mem_cons.mp hc with rfl | hc
  · exact le_rfl
  · exact List.rel_of_pairwise_cons h.epochs hc

/-- No item of any older content is above the newest head. -/
theorem seq_le_top (h : Grown P (top :: older)) (hc : c ∈ top :: older) {m : MailboxItemRow}
    (hm : m ∈ c.mailboxItems) :
    m.recipientSeq ≤ (top.lastSeq m.recipientPrincipalId).getD 0 := by
  obtain ⟨n, hn, hle⟩ := (h.sound c hc).allocated m hm
  obtain ⟨n', hn', hle'⟩ := lastSeq_le (h.wellFormed c hc).tables.inboxSequences
    (h.wellFormed top List.mem_cons_self).tables.inboxSequences (h.extends_top hc) hn
  rw [hn', Option.getD_some]
  exact hle.trans hle'

/-- A content grows the history when it extends the newest one and each of its items is known
or above the newest heads. -/
theorem cons (h : Grown P (top :: older)) (hwell : WellFormed P next) (hsound : JournalSound next)
    (hextends : Extends top next)
    (hepoch : top.recoveryAnchor.inboxEpoch ≤ next.recoveryAnchor.inboxEpoch)
    (hepochLe : next.recoveryAnchor.inboxEpoch ≤ next.recoveryAnchor.revision)
    (hitems : ∀ m ∈ next.mailboxItems,
      (∃ c ∈ top :: older, ∃ m' ∈ c.mailboxItems, allocation m' = allocation m) ∨
        (top.lastSeq m.recipientPrincipalId).getD 0 < m.recipientSeq) :
    Grown P (next :: top :: older) := by
  -- a new item against an item of the history
  have hnew : ∀ m ∈ next.mailboxItems, ∀ d ∈ top :: older, ∀ m' ∈ d.mailboxItems,
      m.recipientPrincipalId = m'.recipientPrincipalId → m.recipientSeq = m'.recipientSeq →
      allocation m = allocation m' := by
    intro m hm d hd m' hm' hrecipient hseq
    rcases hitems m hm with ⟨c, hc, m₀, hm₀, heq⟩ | habove
    · obtain ⟨-, -, hrecipient₀, -, hseq₀⟩ := allocation_inj heq
      rw [← heq]
      exact h.once c hc d hd m₀ hm₀ m' hm' (hrecipient₀.trans hrecipient) (hseq₀.trans hseq)
    · have hle := h.seq_le_top hd hm'
      rw [← hrecipient, ← hseq] at hle
      omega
  refine ⟨List.forall_mem_cons.mpr ⟨hwell, h.wellFormed⟩,
    List.forall_mem_cons.mpr ⟨hsound, h.sound⟩,
    List.pairwise_cons.mpr ⟨fun c hc => (h.extends_top hc).trans hextends, h.extended⟩,
    List.pairwise_cons.mpr ⟨fun c hc => (h.epoch_le_top hc).trans hepoch, h.epochs⟩,
    List.forall_mem_cons.mpr ⟨hepochLe, h.epoch_le⟩, ?_⟩
  intro c hc d hd m hm m' hm' hrecipient hseq
  rcases List.mem_cons.mp hc with rfl | hc' <;> rcases List.mem_cons.mp hd with rfl | hd'
  · have heq : m = m' := hwell.tables.mailboxItems.eq_of_collides hm hm'
      (by simp [Schema.collides, Storage.mailboxItems, hrecipient, hseq])
    rw [heq]
  · exact hnew m hm d hd' m' hm' hrecipient hseq
  · exact (hnew m' hm' c hc' m hm hrecipient.symm hseq.symm).symm
  · exact h.once c hc' d hd' m hm m' hm' hrecipient hseq

end Grown

theorem grown_of_lineage {contents : List Central}
    (hl : Lineage P (operations P) (Unadopted P) contents) : Grown P contents := by
  induction hl with
  | @fresh c hstart hzero =>
    obtain ⟨hwell, hsound, -, hrevision, hepoch⟩ := hstart.grown
    have hwell' : WellFormed P (setRequired c) := wellFormed_anchor _ hwell
    have hsound' : JournalSound (setRequired c) := journalSound_anchor _ hsound
    refine ⟨by simpa using hwell', by simpa using hsound', by simp, by simp, ?_, ?_⟩
    · intro d hd
      rw [List.mem_singleton.mp hd]
      exact (hepoch.trans hrevision.symm).le
    · intro x hx y hy m hm m' hm' hrecipient hseq
      rw [List.mem_singleton.mp hx] at hm
      rw [List.mem_singleton.mp hy] at hm'
      have heq : m = m' := hwell'.tables.mailboxItems.eq_of_collides hm hm'
        (by simp [Schema.collides, Storage.mailboxItems, hrecipient, hseq])
      rw [heq]
  | @operated c tx older op n hl hop hrun ih =>
    obtain ⟨host, call, rfl⟩ := hop
    obtain ⟨t, hperform, rfl, -⟩ := Call.operation_run.mp hrun
    have hwell := ih.wellFormed c List.mem_cons_self
    have hkept := call.perform_extends rfl hwell hperform
    have hdelivered := call.perform_delivered rfl hwell.tables.inboxSequences
      (ih.sound c List.mem_cons_self) hperform
    have hanchor := call.perform_anchored rfl hperform
    have hepoch := ih.epoch_le c List.mem_cons_self
    refine ih.cons (wellFormed_anchor _ hkept.1) (journalSound_anchor _ hdelivered.sound)
      (extends_anchor c.recoveryAnchor hkept.2 _) ?_ ?_ ?_
    · exact (congrArg RecoveryAnchor.inboxEpoch hanchor).ge
    · have hsame := congrArg RecoveryAnchor.inboxEpoch hanchor
      change t.central.recoveryAnchor.inboxEpoch ≤ c.recoveryAnchor.revision + 1
      rw [hsame]
      exact hepoch.trans (by omega)
    · intro m hm
      exact (hdelivered.allocates m hm).imp_left fun hold => ⟨c, List.mem_cons_self, hold⟩
  | @reconciled c backup tx older clock hl hbackup hrestore hforeign ih =>
    have hwell := ih.wellFormed c List.mem_cons_self
    have hwellBackup : WellFormed P backup :=
      wellFormed_anchor (c := setRequired backup) backup.recoveryAnchor (ih.wellFormed _ hbackup)
    have hsoundBackup : JournalSound backup :=
      journalSound_anchor (c := setRequired backup) backup.recoveryAnchor (ih.sound _ hbackup)
    have hextends : Extends backup c :=
      extends_anchor (c := setRequired backup) backup.recoveryAnchor (ih.extends_top hbackup)
        c.recoveryAnchor
    obtain ⟨d, hd, hrestored⟩ := restoreSecurity_complete clock hwellBackup hwell hextends
    obtain rfl : d = tx := Except.ok.inj (hd.symm.trans hrestore)
    refine ih.cons (wellFormed_anchor _ (hrestored.wellFormed hwellBackup hwell hextends))
      (journalSound_anchor _
        (journalSound_restored hrestored hwellBackup hwell hextends hsoundBackup))
      (extends_anchor c.recoveryAnchor hrestored.extended _) ?_ le_rfl ?_
    · exact (ih.epoch_le c List.mem_cons_self).trans
        (by change _ ≤ c.recoveryAnchor.revision + 1; omega)
    · intro m hm
      have hm' : m ∈ backup.mailboxItems := hrestored.sameRecords.mailboxItems ▸ hm
      exact .inl ⟨setRequired backup, hbackup, m, hm', rfl⟩

end AgentJournal.Service
