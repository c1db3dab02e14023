import AgentJournal.Service.Serving

/-! # The rows of an append

The difference between the databases before and after a new append, table by table, and the
record that readers rebuild from those rows.
-/

namespace AgentJournal.Service
open Domain Foundation Storage Recovery

variable {P : Platform} {c d : Central} {id now : String}

def relationRow (id now : String) (relation : Relation × ℕ) : RecordRelationRow :=
  ⟨id, relation.1.relationType, relation.1.recordId, now, relation.2⟩

/-- The relations of an append, each at its position. -/
theorem related_rows {relations : List (Relation × ℕ)} (h : Rounds (Related id now) relations c d) :
    d = { c with recordRelations := c.recordRelations ++ relations.map (relationRow id now) } := by
  induction h with
  | nil => simp
  | cons hfirst _ ih =>
    obtain ⟨-, -, -, -, rfl⟩ := Central.insertRecordRelation_eq_ok.mp hfirst
    rw [ih]
    simp [relationRow]

/-- The next item of a recipient for a record. -/
def Allocated (c : Central) (id now recipient : String) (m : MailboxItemRow) : Prop :=
  m.recordId = id ∧ m.recipientPrincipalId = recipient ∧ m.createdAt = now ∧
    m.acknowledgedAt = none ∧
    m.recipientSeq = (c.lastSeq recipient).getD 0 + 1

/-- The deliveries of an append: one attention row, one raised head and one item for each
recipient. -/
theorem delivered_rows {recipients : List String}
    (hv : Storage.inboxSequences.Valid c.inboxSequences)
    (hnodup : recipients.Nodup) (h : Rounds (Delivery id now) recipients c d) :
    ∃ items, d = { c with
        attention := c.attention ++ recipients.map fun recipient => ⟨id, recipient, now⟩
        inboxSequences := d.inboxSequences
        mailboxItems := c.mailboxItems ++ items } ∧
      List.Forall₂ (Allocated c id now) recipients items ∧
      ∀ recipient, d.lastSeq recipient = if recipient ∈ recipients then
        some ((c.lastSeq recipient).getD 0 + 1) else c.lastSeq recipient := by
  induction h with
  | nil => exact ⟨[], by simp, .nil, by simp⟩
  | @cons first rest x y z hfirst _ ih =>
    obtain ⟨hnot, hrest⟩ := List.nodup_cons.mp hnodup
    obtain ⟨hvalid, item, hitem, hid, hrecipient, hseq, hhead, hother⟩ := hfirst.allocates hv
    obtain ⟨items, hz, hitems, hheads⟩ := ih hvalid hrest
    obtain ⟨heads, item', -, -, ⟨hcreated, hopen⟩, -, -, rfl⟩ := hfirst
    obtain rfl : item = item' := by simpa using hitem.symm
    refine ⟨item :: items, by rw [hz]; simp, .cons ⟨hid, hrecipient, hcreated, hopen, hseq⟩ ?_, ?_⟩
    · -- the heads of the later recipients were not touched by the first delivery
      refine List.Forall₂.imp ?_ ((List.forall₂_and_left rest items).mpr ⟨fun _ hr => hr, hitems⟩)
      rintro r m ⟨hr, hrow⟩
      have hne : r ≠ first := by
        rintro rfl
        exact hnot hr
      unfold Allocated at hrow ⊢
      rw [hother r hne] at hrow
      exact hrow
    · intro recipient
      rw [hheads recipient]
      by_cases hr : recipient = first
      · subst hr
        simp [hnot, hhead, hseq]
      · simp [hr, hother recipient hr]

variable {space path key hash : String} {result : AppendResult}

/-- Every table after a new append. -/
structure AppendDiff (space path key hash : String) (c d : Central) (result : AppendResult) :
    Prop where
  seq : result.record.seq = c.maxSpaceSeq space + 1
  space : result.record.spaceId = space
  recipients : result.record.attention.Pairwise (· < ·)
  mailboxCreated : result.mailboxCreated = result.record.attention.length
  tables : ∃ items, d = { c with
    records := c.records ++ [AppendResult.row result]
    recordsFts := c.recordsFts ++ [(AppendResult.row result).fts]
    recordRelations := c.recordRelations ++
      result.record.relations.zipIdx.map (relationRow result.record.id result.record.createdAt)
    attention := c.attention ++ result.record.attention.map fun recipient =>
      ⟨result.record.id, recipient, result.record.createdAt⟩
    idempotencyKeys := c.idempotencyKeys ++ [⟨result.record.author, "POST", path, key, hash,
      result.record.id, rebuiltAppendResponse, result.record.createdAt⟩]
    inboxSequences := d.inboxSequences
    mailboxItems := c.mailboxItems ++ items
    journalSecret := d.journalSecret } ∧
    List.Forall₂ (Allocated c result.record.id result.record.createdAt) result.record.attention
    items
  heads : ∀ recipient, d.lastSeq recipient = if recipient ∈ result.record.attention then
    some ((c.lastSeq recipient).getD 0 + 1) else c.lastSeq recipient
  secret : ∀ secret ∈ c.journalSecret, d.journalSecret = some secret
  keyed : d.journalSecret.isSome = true

theorem Rounds.attention {recipients : List String} (h : Rounds (Delivery id now) recipients c d) :
    d.attention = c.attention ++ recipients.map fun recipient => ⟨id, recipient, now⟩ := by
  induction h with
  | nil => simp
  | cons hfirst _ ih =>
    obtain ⟨heads, item, -, -, -, -, -, rfl⟩ := hfirst
    rw [ih]
    simp

/-- No recipient is addressed twice. -/
theorem Appended.recipients_distinct (hd : WellFormed P d)
    (h : Appended space path key hash c d result) : result.record.attention.Pairwise (· < ·) := by
  obtain ⟨c₀, c₁, c₂, c₃, -, -, -, hdeliveries, hkey⟩ := h.statements
  obtain ⟨-, -, rfl⟩ := Central.insertIdempotencyKey_eq_ok.mp hkey
  have hkeys : (c₃.attention.Pairwise fun a b =>
    Storage.attention.key a ≠ Storage.attention.key b) :=
    hd.tables.attention.keys
  rw [Rounds.attention hdeliveries, List.pairwise_append, List.pairwise_map] at hkeys
  refine h.recipients.imp₂ ?_ hkeys.2.1
  intro a b hle hne
  refine lt_of_le_of_ne hle ?_
  rintro rfl
  exact hne rfl

theorem Appended.diff (hc : WellFormed P c) (hd : WellFormed P d)
    (h : Appended space path key hash c d result) : AppendDiff space path key hash c d result := by
  have hdistinct := h.recipients_distinct hd
  obtain ⟨c₀, c₁, c₂, c₃, ⟨hsome, hc₀, hsecret⟩, hrecord, hrelations, hdeliveries, hkey⟩ :=
    h.statements
  obtain ⟨-, -, hc₁⟩ := Central.insertRecord_eq_ok.mp hrecord
  have hc₂ := related_rows hrelations
  obtain ⟨-, -, hc₄⟩ := Central.insertIdempotencyKey_eq_ok.mp hkey
  have hheads : c₂.inboxSequences = c.inboxSequences := by
    rw [hc₂, ← hc₁]
    exact (congrArg Central.inboxSequences hc₀ :)
  have hlast₂ : ∀ recipient, c₂.lastSeq recipient = c.lastSeq recipient := by
    intro recipient
    rw [Central.lastSeq, hheads, Central.lastSeq]
  obtain ⟨items, hc₃, hitems, hlast⟩ := delivered_rows (hheads ▸ hc.tables.inboxSequences)
    (hdistinct.imp fun h => h.ne) hdeliveries
  have hjournalSecret : d.journalSecret = c₀.journalSecret := by rw [← hc₄, hc₃, hc₂, ← hc₁]
  refine ⟨h.seq, h.spaceId, hdistinct, h.mailboxCreated, ⟨items, ?_, ?_⟩, fun recipient =>
    ?_, ?_, ?_⟩
  · rw [hjournalSecret, ← hc₄, hc₃, hc₂, ← hc₁, hc₀]
  · refine hitems.imp fun r m hrow => ?_
    unfold Allocated at hrow ⊢
    rw [hlast₂] at hrow
    exact hrow
  · rw [← hlast₂, ← hlast recipient, ← hc₄]
    rfl
  · intro secret hs
    rw [hjournalSecret]
    exact hsecret secret hs
  · rw [hjournalSecret]
    exact hsome

section Rebuilt

theorem mem_of_hasRecord {id : String} (h : c.hasRecord id = true) :
    ∃ row ∈ c.records, row.id = id := by
  simpa [Central.hasRecord] using h

theorem findRecord_append (hfresh : c.hasRecord id = false) {row : RecordRow} (hrow : row.id = id) :
    (c.records ++ [row]).find? (fun r => r.id = id) = some row := by
  have hnone : c.records.find? (fun r => r.id = id) = none := by
    rw [List.find?_eq_none]
    intro r hr heq
    simp only [Central.hasRecord, List.any_eq_false] at hfresh
    exact hfresh r hr heq
  simp [List.find?_append, hnone, hrow]

/-- The record that readers get is the one the append returned. -/
theorem AppendDiff.recordOf (hc : WellFormed P c) (hfresh : c.hasRecord result.record.id = false)
    (h : AppendDiff space path key hash c d result) :
    recordOf d result.record.id = some result.record := by
  obtain ⟨items, htables, -⟩ := h.tables
  have hrecords : d.records = c.records ++ [AppendResult.row result] := by rw [htables]
  have hattention : d.attention = c.attention ++ result.record.attention.map fun recipient =>
      ⟨result.record.id, recipient, result.record.createdAt⟩ := by rw [htables]
  have hrelations : d.recordRelations = c.recordRelations ++
      result.record.relations.zipIdx.map
      (relationRow result.record.id result.record.createdAt) := by
    rw [htables]
  -- no older row is about the new record
  have hold : (c.attention.filter fun a => a.recordId = result.record.id) = [] := by
    rw [List.filter_eq_nil_iff]
    intro a ha heq
    have hknown := (hc.references.attention a ha).1
    rw [decide_eq_true_eq.mp heq, hfresh] at hknown
    cases hknown
  have hold' : (c.recordRelations.filter fun r => r.sourceRecordId = result.record.id) = [] := by
    rw [List.filter_eq_nil_iff]
    intro r hr heq
    have hknown := (hc.references.recordRelations r hr).1
    rw [decide_eq_true_eq.mp heq, hfresh] at hknown
    cases hknown
  have hshown : attentionOf d result.record.id = result.record.attention := by
    unfold attentionOf sortTexts
    rw [hattention, List.filter_append, hold, List.nil_append, List.filter_map, List.map_map]
    simp only [Function.comp_def, decide_true, List.filter_true, List.map_id']
    exact (h.recipients.imp fun hlt => hlt.le).insertionSort_eq
  have hedges : relationsOf d result.record.id = result.record.relations := by
    unfold relationsOf
    rw [hrelations, List.filter_append, hold', List.nil_append, List.filter_map]
    simp only [Function.comp_def, relationRow, decide_true, List.filter_true]
    rw [List.Pairwise.insertionSort_eq, List.map_map]
    · exact List.zipIdx_map_fst 0 result.record.relations
    · rw [List.pairwise_map]
      have hpositions : (result.record.relations.zipIdx.map Prod.snd).Pairwise (· < ·) := by
        rw [List.zipIdx_map_snd]
        exact List.pairwise_lt_range'
      exact (List.pairwise_map.mp hpositions).imp fun hlt => Int.ofNat_le.mpr hlt.le
  rw [Service.recordOf, Central.findRecord, hrecords, findRecord_append hfresh rfl, hshown, hedges]
  rfl

theorem recordOf_id {r : Record} (h : recordOf c id = some r) : r.id = id := by
  obtain ⟨row, hfind, rfl⟩ := Option.map_eq_some_iff.mp h
  simpa using List.find?_some hfind

/-- A known record is rebuilt from the same rows ever after. -/
theorem Journaled.recordOf (h : Journaled c d) (hid : c.hasRecord id = true) :
    recordOf d id = recordOf c id := by
  obtain ⟨new, hnew⟩ := h.records
  obtain ⟨row, hrow, heq⟩ := mem_of_hasRecord hid
  have hfind : d.findRecord id = c.findRecord id := by
    unfold Central.findRecord
    cases hfound : c.records.find? fun r => r.id = id with
    | none =>
      have := List.find?_eq_none.mp hfound row hrow
      simp [heq] at this
    | some r => rw [← hnew, List.find?_append, hfound, Option.some_or]
  unfold Service.recordOf attentionOf relationsOf
  rw [hfind, h.attention id hid, h.relations id hid]

end Rebuilt

end AgentJournal.Service
