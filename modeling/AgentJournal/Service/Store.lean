import AgentJournal.Domain.Coded
import AgentJournal.Service.Lineage

/-! # The store over all runs

The machine whose audited closures are the service calls, started on any store the service
made before its audit existed. Every content it ever commits passes every probe.
-/

namespace AgentJournal.Service
open Domain Foundation Storage Recovery

variable {P : Platform} {w w' : World} {c d : Central} {file : String}

def store (P : Platform) : Machine World Action := machine P (operations P) (Unadopted P)

/-- The committed contents are members of one lineage of service calls and merges. -/
theorem contents_of_reachable (hw : (store P).Reachable w) :
    ∃ contents, Lineage P (operations P) (Unadopted P) contents ∧
      ∀ c ∈ w.history, setRequired c ∈ contents := by
  have hsound := sound_of_reachable hw
  unfold Sound at hsound
  cases haudit : w.audit with
  | none =>
    rw [haudit] at hsound
    obtain ⟨c, hstart, hzero, -, honly⟩ := hsound.content
    refine ⟨[setRequired c], .fresh hstart hzero, fun d hd => ?_⟩
    rw [honly d hd]
    exact List.mem_singleton_self _
  | some a =>
    rw [haudit] at hsound
    obtain ⟨h, top, older, hc⟩ := hsound
    exact ⟨top :: older, hc.lineage, hc.known⟩

theorem stored_of_reachable (hw : (store P).Reachable w) (hfile : w.files file = some c) :
    c ∈ w.history := by
  have hsound := sound_of_reachable hw
  unfold Sound at hsound
  cases haudit : w.audit with
  | none =>
    rw [haudit] at hsound
    exact hsound.stored _ _ hfile
  | some a =>
    rw [haudit] at hsound
    obtain ⟨h, top, older, hc⟩ := hsound
    exact hc.stored _ _ hfile

section Contents

theorem wellFormed_of_reachable (hw : (store P).Reachable w) (hc : c ∈ w.history) :
    WellFormed P c := by
  obtain ⟨contents, hl, hknown⟩ := contents_of_reachable hw
  exact wellFormed_anchor (c := setRequired c) c.recoveryAnchor
    ((grown_of_lineage hl).wellFormed _ (hknown c hc))

theorem journalSound_of_reachable (hw : (store P).Reachable w) (hc : c ∈ w.history) :
    JournalSound c := by
  obtain ⟨contents, hl, hknown⟩ := contents_of_reachable hw
  exact journalSound_anchor (c := setRequired c) c.recoveryAnchor
    ((grown_of_lineage hl).sound _ (hknown c hc))

/-- A content extends every committed content of a revision up to its own. -/
theorem extends_of_reachable (hw : (store P).Reachable w) (hc : c ∈ w.history) (hd : d ∈ w.history)
    (hle : c.recoveryAnchor.revision ≤ d.recoveryAnchor.revision) : Extends c d := by
  obtain ⟨contents, hl, hknown⟩ := contents_of_reachable hw
  have hextends := hl.rel_of_revision_le Extends.refl (grown_of_lineage hl).extended
    (hknown c hc) (hknown d hd) hle
  exact extends_anchor (c := setRequired c) c.recoveryAnchor hextends d.recoveryAnchor

end Contents

section Probes

/-- Sequences 1..n pass the sequence probe. -/
theorem sequenceProbe_of_sound (h : JournalSound c) : c.sequenceProbe = true := by
  simp only [Central.sequenceProbe, List.all_eq_true, Bool.and_eq_true, decide_eq_true_eq]
  intro r hr
  have hnumbered := h.sequences r.spaceId
  have hmem : r.spaceSeq ∈ spaceSeqs c r.spaceId :=
    List.mem_map_of_mem (List.mem_filter.mpr ⟨hr, by simp⟩)
  obtain ⟨hone, hlast⟩ := hnumbered.mem_iff.mp hmem
  constructor
  · refine foldl_min_of_mem
      (List.forall_mem_cons.mpr ⟨hone, fun y hy => (hnumbered.mem_iff.mp hy).1⟩) ?_
    exact List.mem_cons_of_mem _ (hnumbered.mem_iff.mpr (by omega))
  · refine foldl_max_of_mem
      (List.forall_mem_cons.mpr ⟨hlast, fun y hy => (hnumbered.mem_iff.mp hy).2⟩) ?_
    exact List.mem_cons_of_mem _ (hnumbered.mem_iff.mpr (by simp only [spaceSeqs] at *; omega))

theorem mem_attention_iff (h : JournalSound c) {record recipient : String} :
    (∃ m ∈ c.mailboxItems, m.recordId = record ∧ m.recipientPrincipalId = recipient) ↔
      ∃ a ∈ c.attention, a.recordId = record ∧ a.recipientPrincipalId = recipient := by
  have hpairs := congrArg (fun l => (record, recipient) ∈ l) h.delivered
  simpa [List.mem_map] using hpairs

theorem mailboxAttentionProbe_of_sound (h : JournalSound c) : c.mailboxAttentionProbe = true := by
  simp only [Central.mailboxAttentionProbe, Bool.and_eq_true, List.all_eq_true, List.any_eq_true,
    decide_eq_true_eq]
  exact ⟨fun a ha => (mem_attention_iff h).mpr ⟨a, ha, rfl, rfl⟩,
    fun m hm => (mem_attention_iff h).mp ⟨m, hm, rfl, rfl⟩⟩

theorem inboxAllocationProbe_of_sound (hc : WellFormed P c) (h : JournalSound c) :
    c.inboxAllocationProbe = true := by
  have hheads := hc.tables.inboxSequences
  simp only [Central.inboxAllocationProbe, Bool.and_eq_true, List.all_eq_true, decide_eq_true_eq,
    List.mem_filter, and_imp]
  refine ⟨fun m hm => ?_, fun r hr => ?_⟩
  · obtain ⟨n, hn, hle⟩ := h.allocated m hm
    have hrow := (lastSeq_eq_some hheads).mp hn
    have hitem := hc.tables.mailboxItems.checked m hm
    simp only [Storage.mailboxItems, Bool.and_eq_true, decide_eq_true_eq] at hitem
    refine ⟨List.ne_nil_of_mem (List.mem_filter.mpr ⟨hrow, by simp⟩), fun r hr hrecipient => ?_⟩
    obtain rfl : r = ⟨m.recipientPrincipalId, n⟩ := hheads.eq_of_key hr hrow
      (by simp [Storage.inboxSequences, hrecipient])
    exact ⟨hle, hitem.1⟩
  · have hrow := hheads.checked r hr
    simp only [Storage.inboxSequences, Bool.and_eq_true, decide_eq_true_eq] at hrow
    exact hrow.1

theorem ftsProbe_of_wellFormed (hc : WellFormed P c) : c.ftsProbe = true := by
  simp only [Central.ftsProbe, hc.indexed, Bool.and_eq_true, List.all_eq_true, decide_eq_true_eq,
    List.any_eq_true, List.length_map]
  refine ⟨⟨fun r hr => List.mem_map_of_mem hr, fun f hf => ?_⟩, trivial⟩
  obtain ⟨r, hr, rfl⟩ := List.mem_map.mp hf
  exact ⟨r, hr, rfl⟩

/-- Every probe passes. -/
theorem verify_of_sound (hc : WellFormed P c) (h : JournalSound c) : ∃ v, verify P c = .ok v := by
  have hintegrity := (c.integrityCheck_iff P).mpr hc.tables
  have hforeign := (foreignKeyCheck_iff c).mpr hc.references
  simp [verify, hintegrity, hforeign, ftsProbe_of_wellFormed hc, sequenceProbe_of_sound h,
    mailboxAttentionProbe_of_sound h, inboxAllocationProbe_of_sound hc h, refuseIf, failIf]

end Probes

section Runs

/-- What a step commits, over the lineage it commits to. -/
theorem landing_of_step {action : Action} (hw : (store P).Reachable w)
    (hstep : (store P).step w action w') :
    (w'.history = w.history ∧ action.merges = false) ∨
      ∃ d top older, w'.history = d :: w.history ∧
        Lineage P (operations P) (Unadopted P) (top :: older) ∧
        (∀ c ∈ w.history, setRequired c ∈ top :: older) ∧ (∃ c ∈ w.history, setRequired c = top) ∧
        Landing P (operations P) w action top d := by
  have hmove := Move.of_step hstep.2
  have hsound := sound_of_reachable hw
  unfold Sound at hsound
  cases haudit : w.audit with
  | none =>
    rw [haudit] at hsound
    exact .inl (hsound.landing haudit hmove)
  | some a =>
    rw [haudit] at hsound
    obtain ⟨h, top, older, hc⟩ := hsound
    refine (hc.landing haudit hmove).imp_right ?_
    rintro ⟨d, hhistory, hlanding⟩
    exact ⟨d, top, older, hhistory, hc.lineage, hc.known, hc.committed, hlanding⟩

/-- Where a content that a step commits comes from. -/
theorem landing_of_history {action : Action} (hw : (store P).Reachable w)
    (hstep : (store P).step w action w') (hd : w'.history = d :: w.history) :
    ∃ top older, Lineage P (operations P) (Unadopted P) (top :: older) ∧
      (∀ c ∈ w.history, setRequired c ∈ top :: older) ∧ (∃ c ∈ w.history, setRequired c = top) ∧
      Landing P (operations P) w action top d := by
  rcases landing_of_step hw hstep with ⟨hsame, -⟩ | ⟨e, top, older, hhistory, hrest⟩
  · simp [hsame] at hd
  · obtain rfl : d = e := (List.cons.inj (hd.symm.trans hhistory)).1
    exact ⟨top, older, hrest⟩

theorem dense_anchor (a : RecoveryAnchor) (h : Dense c) : Dense { c with recoveryAnchor := a } := h

/-- What an operation commits follows from the content it opened. -/
theorem operated_delivered (hw : (store P).Reachable w) (hc : c ∈ w.history) {op : Operation}
    (hop : op ∈ operations P) {n : ℕ} (hrun : op.run c = some (d, n)) :
    Delivered c d := by
  obtain ⟨host, call, rfl⟩ := hop
  obtain ⟨t, hperform, rfl, -⟩ := Call.operation_run.mp hrun
  exact call.perform_delivered rfl (wellFormed_of_reachable hw hc).tables.inboxSequences
    (journalSound_of_reachable hw hc) hperform

/-- Sequences stay dense until a reconciliation commits. -/
theorem dense_step {action : Action} (hw : (store P).Reachable w) (hmerges : action.merges = false)
    (hdense : ∀ c ∈ w.history, Dense c) (hstep : (store P).step w action w') :
    ∀ c ∈ w'.history, Dense c := by
  rcases landing_of_step hw hstep with ⟨hhistory, -⟩ | ⟨d, top, older, hhistory, hl, -, -, hlanding⟩
  · rw [hhistory]
    exact hdense
  · rw [hhistory]
    refine List.forall_mem_cons.mpr ⟨?_, hdense⟩
    cases hlanding with
    | adopted _ hc _ => exact dense_anchor _ (hdense _ hc)
    | operated _ htop hop hrun =>
      exact dense_anchor _ ((operated_delivered hw htop hop hrun).dense (hdense _ htop))
    | reconciled hmerged _ _ _ => simp [hmerged] at hmerges

theorem dense_of_run {w₀ : World} {labels : List Action} (hstart : (store P).start w₀)
    (hrun : (store P).Run w₀ labels w) (hmerges : ∀ action ∈ labels, action.merges = false) :
    ∀ c ∈ w.history, Dense c := by
  refine hrun.stable (Q := fun action => action.merges = false)
    (I := fun w => ∀ c ∈ w.history, Dense c)
    (fun w action w' hw hmerges hdense hstep => dense_step hw hmerges hdense hstep)
    (.of_start hstart) hmerges ?_
  obtain ⟨file, c, hc, -, -, rfl⟩ := hstart
  intro d hd
  rw [List.mem_singleton.mp hd]
  exact hc.grown.2.2.1

/-- Every stored database passes `verify` and holds the invariants it probes for; until a
reconciliation commits no sequence of a recipient is skipped. -/
theorem store_verified {w₀ : World} {labels : List Action} (hstart : (store P).start w₀)
    (hrun : (store P).Run w₀ labels w) (hfile : w.files file = some c) :
    (∃ verification, verify P c = .ok verification) ∧
    (∀ space, Numbered (spaceSeqs c space)) ∧
    (∀ record recipient,
      (∃ m ∈ c.mailboxItems, m.recordId = record ∧ m.recipientPrincipalId = recipient) ↔
        ∃ a ∈ c.attention, a.recordId = record ∧ a.recipientPrincipalId = recipient) ∧
    (∀ m ∈ c.mailboxItems, 0 < m.recipientSeq ∧
      ∃ last, c.lastSeq m.recipientPrincipalId = some last ∧ m.recipientSeq ≤ last) ∧
    (c.mailboxItems.Pairwise fun m m' => m.recipientPrincipalId = m'.recipientPrincipalId →
      m.recipientSeq ≠ m'.recipientSeq) ∧
    c.recordsFts = c.records.map RecordRow.fts ∧
    c.foreignKeyCheck = true ∧
    (c.records ≠ [] → c.journalSecret.isSome = true) ∧
    RelationsOlder c ∧
    (c.recordRelations.Pairwise fun r r' => r.relationType = .replyTo →
      r'.relationType = .replyTo → r.sourceRecordId ≠ r'.sourceRecordId) ∧
    ((∀ action ∈ labels, action.merges = false) → Dense c) := by
  have hw : (store P).Reachable w := ⟨w₀, hstart, labels, hrun⟩
  have hmem := stored_of_reachable hw hfile
  have hc := wellFormed_of_reachable hw hmem
  have hsound := journalSound_of_reachable hw hmem
  refine ⟨verify_of_sound hc hsound, hsound.sequences, fun _ _ => mem_attention_iff hsound,
    fun m hm =>
    ⟨?_, hsound.allocated m hm⟩, ?_, hc.indexed, (foreignKeyCheck_iff c).mpr hc.references,
    hsound.keyed, hc.relations, ?_, fun hmerges => dense_of_run hstart hrun hmerges c hmem⟩
  · have hitem := hc.tables.mailboxItems.checked m hm
    simp only [Storage.mailboxItems, Bool.and_eq_true, decide_eq_true_eq] at hitem
    exact hitem.1
  · refine hc.tables.mailboxItems.uniques.imp fun {m m'} hapart hrecipient hseq => ?_
    simp [Schema.collides, Storage.mailboxItems, hrecipient, hseq] at hapart
  · refine hc.tables.recordRelations.uniques.imp fun {r r'} hapart hr hr' hsource => ?_
    simp [Schema.collides, Storage.recordRelations, hr, hr', hsource] at hapart

def sampleHost : Host := ⟨fun _ => 0, fun i => some (Vector.replicate 32 (UInt8.ofNat i)), 0, none⟩

/-- A host whose random bytes and sequence numbers are its own. -/
def sampleHostAt (k : ℕ) : Host :=
  ⟨fun _ => 0, fun i => some (Vector.replicate 32 (UInt8.ofNat (16 * k + i))), UInt64.ofNat k, none⟩

def samplePrincipal : String := "00000000-0000-7000-8000-000000000000"

/-- Whose inbox the sample token reads. -/
def sampleReader (c : Central) : Option String :=
  (succeeded ((journalActor .sample sampleToken).run (.start sampleHost c))).map (·.1)

theorem exists_sampleReader {actor : String} (h : sampleReader c = some actor) :
    ∃ s, (journalActor .sample sampleToken).run (.start sampleHost c) = .ok (actor, s) := by
  simp only [sampleReader, Option.map_eq_some_iff, succeeded_eq_some] at h
  obtain ⟨⟨_, s⟩, hrun, rfl⟩ := h
  exact ⟨s, hrun⟩

/-- The recipients and the sequences of the items. -/
def addressed (c : Central) : List (String × ℤ) :=
  c.mailboxItems.map fun m => (m.recipientPrincipalId, m.recipientSeq)

/-- A token that the sample store does not know. -/
def otherToken : String := "ffeeddccbbaa99887766554433221100ffeeddccbbaa99887766554433221100"

def sampleCalls : List (Host × Call) :=
  [(sampleHost, .register sampleToken sampleRequest),
    (sampleHost, .createSpace ⟨"lab", "Lab", .publicAccess⟩),
    (sampleHost, .appendRecord sampleToken "lab" "first" sampleInput)]

set_option maxRecDepth 20000 in
theorem sampleCalls_performed :
    (performed .sample (.baseline "journal") sampleCalls).isSome = true := by decide +kernel

/-- One registered principal, one space and one record addressed to the principal. -/
def sampleStore : Central :=
  (performed .sample (.baseline "journal") sampleCalls).get sampleCalls_performed

theorem sampleStore_unadopted : Unadopted .sample sampleStore :=
  (Unadopted.baseline "journal").performed (Option.some_get sampleCalls_performed).symm

set_option maxRecDepth 20000 in
theorem sampleStore_required : sampleStore.recoveryAnchor.auditRequired = false := by decide +kernel

theorem sampleStore_reachable :
    (store .sample).Reachable (.baseline "central.db" sampleStore) :=
  reachable_baseline sampleStore_unadopted sampleStore_unadopted.grown.2.2.2.1 sampleStore_required

/-- The id of the record in the sample store. -/
def sampleTarget : String := (sampleStore.records.map (·.id)).headD ""

/-- A reply to the record of the sample store, which it also refers to. -/
def relatedInput : RecordInput :=
  { sampleInput with relations := [⟨.replyTo, sampleTarget⟩, ⟨.refersTo, sampleTarget⟩] }

set_option maxRecDepth 20000 in
theorem store_verified_sample : sampleStore.mailboxItems.length = 1 ∧
    (∃ verification, verify .sample sampleStore = .ok verification) ∧ Dense sampleStore := by
  refine ⟨by decide +kernel, ?_⟩
  have hfile : (World.initial "central.db" sampleStore).files "central.db" = some sampleStore := by
    simp [World.initial]
  have hverified := store_verified (P := .sample) ⟨"central.db", _, sampleStore_unadopted,
    sampleStore_unadopted.grown.2.2.2.1, sampleStore_required, rfl⟩ .nil hfile
  exact ⟨hverified.1, hverified.2.2.2.2.2.2.2.2.2.2 (by simp)⟩

end Runs
end AgentJournal.Service
