import AgentJournal.Service.Effects
import AgentJournal.Storage.Integrity

/-! # Every write keeps the integrity of the store -/

namespace AgentJournal.Service
open Domain Foundation Storage Schema

variable {P : Platform} {c d : Central}

theorem any_append_left {α : Type} {p : α → Bool} {l : List α} (h : l.any p = true) (m : List α) :
    (l ++ m).any p = true := by
  rw [List.any_append, h, Bool.true_or]

theorem any_map_ite {α : Type} {p q : α → Bool} {f : α → α} (hf : ∀ r, q (f r) = q r) (l : List α) :
    (l.map fun r => if p r then f r else r).any q = l.any q := by
  rw [List.any_map]
  congr 1
  funext r
  by_cases h : p r = true <;> simp [h, hf]

theorem Write.tablesValid (hv : c.TablesValid P) (h : Write P c d) : d.TablesValid P := by
  cases h with
  | principal row _ h =>
    obtain ⟨-, ha, rfl⟩ := Central.insertPrincipal_eq_ok.mp h
    exact { hv with principals := hv.principals.append ha }
  | profile p f hf h =>
    obtain ⟨hcheck, -, rfl⟩ := Central.updatePrincipals_eq_ok.mp h
    have hkey : ∀ r, Storage.principals.key (f r) = Storage.principals.key r := by
      simp [Storage.principals, hf]
    exact { hv with principals := hv.principals.update hcheck hkey (by simp [Storage.principals]) }
  | name row h =>
    obtain ⟨-, ha, -, rfl⟩ := Central.insertPrincipalName_eq_ok.mp h
    exact { hv with principalNames := hv.principalNames.append ha }
  | retired p h =>
    obtain ⟨-, hcheck, rfl⟩ := Central.retireNames_eq_ok.mp h
    have hindex : ∀ u ∈ Storage.principalNames.uniques, ∀ r : PrincipalNameRow,
        u r.retired = u r ∨ u r.retired = none := by
      simp [Storage.principalNames, PrincipalNameRow.retired]
    exact { hv with principalNames := hv.principalNames.update hcheck (fun _ => rfl) hindex }
  | credential row hrow h =>
    obtain ⟨ha, -, rfl⟩ := Central.insertCredential_eq_ok.mp h
    exact { hv with credentials := hv.credentials.append ha }
  | revoked p f hf h =>
    obtain ⟨-, rfl⟩ := Central.updateCredentials_eq_ok.mp h
    have hid : ∀ r, (f r).id = r.id := fun r => congrArg Prod.fst (hf r).1
    have hhash : ∀ r, (f r).tokenHash = r.tokenHash :=
      fun r => congrArg (fun x => x.2.2.2.1) (hf r).1
    have hkey : ∀ r, Storage.credentials.key (f r) = Storage.credentials.key r := by
      simp [Storage.credentials, hid]
    have hindex : ∀ u ∈ Storage.credentials.uniques, ∀ r, u (f r) = u r ∨ u (f r) = none := by
      simp [Storage.credentials, hhash]
    exact { hv with credentials := hv.credentials.update (fun _ _ _ => rfl) hkey hindex }
  | credentialAudit credentialId operation occurredAt reason h =>
    obtain ⟨ha, -, rfl⟩ := Central.insertCredentialAudit_eq_ok.mp h
    exact { hv with credentialAudit := hv.credentialAudit.append ha }
  | receipt row h =>
    obtain ⟨ha, -, rfl⟩ := Central.insertRegistrationReceipt_eq_ok.mp h
    exact { hv with registrationReceipts := hv.registrationReceipts.append ha }
  | space row _ h =>
    obtain ⟨ha, rfl⟩ := Central.insertSpace_eq_ok.mp h
    exact { hv with spaces := hv.spaces.append ha }
  | archived p f hf h =>
    obtain ⟨hcheck, rfl⟩ := Central.updateSpaces_eq_ok.mp h
    have hkey : ∀ r, Storage.spaces.key (f r) = Storage.spaces.key r := by
      simp [Storage.spaces, hf]
    have hindex : ∀ u ∈ Storage.spaces.uniques, ∀ r, u (f r) = u r ∨ u (f r) = none := by
      simp [Storage.spaces, hf]
    exact { hv with spaces := hv.spaces.update hcheck hkey hindex }
  | membership merge row hmerge h =>
    obtain ⟨rows, hupsert, -, rfl⟩ := Central.upsertMembership_eq_ok.mp h
    have hkey : ∀ old new, Storage.memberships.key (merge old new) =
      Storage.memberships.key old := by
      simp [Storage.memberships, hmerge]
    exact { hv with memberships := hv.memberships.upsert hupsert hkey }
  | profileKey row h =>
    obtain ⟨ha, -, rfl⟩ := Central.insertProfileIdempotencyKey_eq_ok.mp h
    exact { hv with profileIdempotencyKeys := hv.profileIdempotencyKeys.append ha }
  | auditEvent row h =>
    obtain ⟨ha, rfl⟩ := Central.insertAuditEvent_eq_ok.mp h
    exact { hv with auditEvents := hv.auditEvents.append ha }
  | secret secret _ h =>
    obtain ⟨hlength, -, rfl⟩ := Central.insertJournalSecret_eq_ok.mp h
    exact { hv with journalSecret := by simpa using hlength }
  | acknowledged item now _ =>
    have hitems := hv.mailboxItems.update (p := fun r => r.id = item && r.acknowledgedAt.isNone)
      (f := fun r => { r with acknowledgedAt := some now })
      (fun r hr _ => hv.mailboxItems.checked r hr) (fun r => rfl) (by simp [Storage.mailboxItems])
    exact { hv with mailboxItems := hitems }

theorem JournalWrite.tablesValid (hv : c.TablesValid P) (h : JournalWrite c d) :
    d.TablesValid P := by
  cases h with
  | record row _ h =>
    obtain ⟨ha, -, rfl⟩ := Central.insertRecord_eq_ok.mp h
    exact { hv with records := hv.records.append ha }
  | relation row h =>
    obtain ⟨-, -, ha, -, rfl⟩ := Central.insertRecordRelation_eq_ok.mp h
    exact { hv with recordRelations := hv.recordRelations.append ha }
  | attention row h =>
    obtain ⟨-, ha, -, rfl⟩ := Central.insertAttention_eq_ok.mp h
    exact { hv with attention := hv.attention.append ha }
  | inboxSequence recipient h =>
    obtain ⟨-, rows, hupsert, -, rfl⟩ := Central.upsertInboxSequence_eq_ok.mp h
    exact { hv with inboxSequences := hv.inboxSequences.upsert hupsert fun _ _ => rfl }
  | mailboxItem row _ h =>
    obtain ⟨ha, -, rfl⟩ := Central.insertMailboxItem_eq_ok.mp h
    exact { hv with mailboxItems := hv.mailboxItems.append ha }
  | idempotencyKey row h =>
    obtain ⟨ha, -, rfl⟩ := Central.insertIdempotencyKey_eq_ok.mp h
    exact { hv with idempotencyKeys := hv.idempotencyKeys.append ha }

/-- A new row refers to parents that are there. -/
theorem forall_mem_append_singleton {α : Type} {p : α → Prop} {l : List α} {row : α}
    (hl : ∀ r ∈ l, p r) (hrow : p row) : ∀ r ∈ l ++ [row], p r := by
  intro r hr
  rcases List.mem_append.mp hr with hr | hr
  · exact hl r hr
  · exact List.mem_singleton.mp hr ▸ hrow

theorem forall_mem_map_ite {α : Type} {p : α → Bool} {f : α → α} {q : α → Prop} {l : List α}
    (hl : ∀ r ∈ l, q r) (hf : ∀ r ∈ l, q r → q (f r)) :
    ∀ r ∈ l.map (fun r => if p r then f r else r), q r := by
  intro r' hr'
  obtain ⟨r, hr, rfl⟩ := List.mem_map.mp hr'
  split
  · exact hf r hr (hl r hr)
  · exact hl r hr

theorem Write.references (hr : References c) (h : Write P c d) : References d := by
  cases h with
  | principal row _ h =>
    obtain ⟨-, -, rfl⟩ := Central.insertPrincipal_eq_ok.mp h
    have hp : Parents c { c with principals := c.principals ++ [row] } :=
      { Parents.refl c with principal := fun _ hid => any_append_left hid _ }
    exact hr.reparent hp (fun _ => .inl) (fun _ => .inl)
  | profile p f hf h =>
    obtain ⟨-, -, rfl⟩ := Central.updatePrincipals_eq_ok.mp h
    have hp : Parents c { c with principals := c.principals.map fun r => if p r then f r else r } :=
      { Parents.refl c with
        principal := fun _ hid => (any_map_ite (fun r => by rw [hf r]) _).trans hid }
    exact hr.reparent hp (fun _ => .inl) (fun _ => .inl)
  | name row h =>
    obtain ⟨-, -, hparent, rfl⟩ := Central.insertPrincipalName_eq_ok.mp h
    exact { hr with principalNames := forall_mem_append_singleton hr.principalNames hparent }
  | retired p h =>
    obtain ⟨-, -, rfl⟩ := Central.retireNames_eq_ok.mp h
    exact { hr with principalNames := forall_mem_map_ite hr.principalNames fun _ _ => id }
  | credential row hrow h =>
    obtain ⟨-, hparent, rfl⟩ := Central.insertCredential_eq_ok.mp h
    have hp : Parents c { c with credentials := c.credentials ++ [row] } :=
      { Parents.refl c with
        credential := fun _ hid => any_append_left hid _
        tokenHash := fun _ hhash => any_append_left hhash _ }
    refine hr.reparent hp (fun x hx => ?_) (fun _ => .inl)
    rcases List.mem_append.mp hx with hx | hx
    · exact .inl hx
    · rw [List.mem_singleton.mp hx, hrow]
      exact .inr ⟨hparent, rfl⟩
  | revoked p f hf h =>
    obtain ⟨hreplacement, rfl⟩ := Central.updateCredentials_eq_ok.mp h
    have hid : ∀ r, (f r).id = r.id := fun r => congrArg Prod.fst (hf r).1
    have hprincipal : ∀ r, (f r).principalId = r.principalId :=
      fun r => congrArg (fun x => x.2.1) (hf r).1
    have hhash : ∀ r, (f r).tokenHash = r.tokenHash :=
      fun r => congrArg (fun x => x.2.2.2.1) (hf r).1
    have hp : Parents c
      { c with credentials := c.credentials.map fun r => if p r then f r else r } :=
      { Parents.refl c with
        credential := fun _ h => (any_map_ite (fun r => by rw [hid r]) _).trans h
        tokenHash := fun _ h => (any_map_ite (fun r => by rw [hhash r]) _).trans h }
    refine hr.reparent hp (fun x hx => ?_) (fun _ => .inl)
    obtain ⟨r, hmem, rfl⟩ := List.mem_map.mp hx
    split
    · rename_i hpr
      refine .inr ⟨(hprincipal r).symm ▸ (hr.credentials r hmem).1, ?_⟩
      exact hp.replacement (hreplacement r hmem hpr)
    · exact .inl hmem
  | credentialAudit credentialId operation occurredAt reason h =>
    obtain ⟨-, hparent, rfl⟩ := Central.insertCredentialAudit_eq_ok.mp h
    exact { hr with credentialAudit := forall_mem_append_singleton hr.credentialAudit hparent }
  | receipt row h =>
    obtain ⟨-, hparent, rfl⟩ := Central.insertRegistrationReceipt_eq_ok.mp h
    exact { hr with
      registrationReceipts := forall_mem_append_singleton hr.registrationReceipts hparent }
  | space row _ h =>
    obtain ⟨-, rfl⟩ := Central.insertSpace_eq_ok.mp h
    have hp : Parents c { c with spaces := c.spaces ++ [row] } :=
      { Parents.refl c with space := fun _ hid => any_append_left hid _ }
    exact hr.reparent hp (fun _ => .inl) (fun _ => .inl)
  | archived p f hf h =>
    obtain ⟨-, rfl⟩ := Central.updateSpaces_eq_ok.mp h
    have hp : Parents c { c with spaces := c.spaces.map fun r => if p r then f r else r } :=
      { Parents.refl c with
        space := fun _ hid => (any_map_ite (fun r => by rw [(hf r).1]) _).trans hid }
    exact hr.reparent hp (fun _ => .inl) (fun _ => .inl)
  | membership merge row hmerge h =>
    obtain ⟨rows, hupsert, hparent, rfl⟩ := Central.upsertMembership_eq_ok.mp h
    have hrows : ∀ r ∈ rows, c.hasSpace r.spaceId = true ∧ c.hasPrincipal r.principalId = true := by
      intro r hmem
      rcases mem_of_upsert hupsert hmem with hmem | rfl | ⟨old, hold, -, rfl⟩
      · exact hr.memberships r hmem
      · exact hparent
      · rw [(hmerge old row).1, (hmerge old row).2]
        exact hr.memberships old hold
    exact { hr with memberships := hrows }
  | profileKey row h =>
    obtain ⟨-, hparent, rfl⟩ := Central.insertProfileIdempotencyKey_eq_ok.mp h
    exact { hr with
      profileIdempotencyKeys := forall_mem_append_singleton hr.profileIdempotencyKeys hparent }
  | auditEvent row h =>
    obtain ⟨-, rfl⟩ := Central.insertAuditEvent_eq_ok.mp h
    exact { hr with }
  | secret secret _ h =>
    obtain ⟨-, -, rfl⟩ := Central.insertJournalSecret_eq_ok.mp h
    exact { hr with }
  | acknowledged item now _ =>
    exact { hr with mailboxItems := forall_mem_map_ite hr.mailboxItems fun _ _ => id }

theorem JournalWrite.references (hr : References c) (h : JournalWrite c d) : References d := by
  cases h with
  | record row _ h =>
    obtain ⟨-, hparent, rfl⟩ := Central.insertRecord_eq_ok.mp h
    have hp : Parents c { c with records := c.records ++ [row],
                                 recordsFts := c.recordsFts ++ [row.fts] } :=
      { Parents.refl c with record := fun _ hid => any_append_left hid _ }
    refine hr.reparent hp (fun _ => .inl) (fun x hx => ?_)
    rcases List.mem_append.mp hx with hx | hx
    · exact .inl hx
    · rw [List.mem_singleton.mp hx]
      exact .inr hparent
  | relation row h =>
    obtain ⟨-, -, -, hparent, rfl⟩ := Central.insertRecordRelation_eq_ok.mp h
    exact { hr with recordRelations := forall_mem_append_singleton hr.recordRelations hparent }
  | attention row h =>
    obtain ⟨-, -, hparent, rfl⟩ := Central.insertAttention_eq_ok.mp h
    exact { hr with attention := forall_mem_append_singleton hr.attention hparent }
  | inboxSequence recipient h =>
    obtain ⟨-, rows, hupsert, hparent, rfl⟩ := Central.upsertInboxSequence_eq_ok.mp h
    have hrows : ∀ r ∈ rows, c.hasPrincipal r.recipientPrincipalId = true := by
      intro r hmem
      rcases mem_of_upsert hupsert hmem with hmem | rfl | ⟨old, hold, -, rfl⟩
      · exact hr.inboxSequences r hmem
      · exact hparent
      · exact hr.inboxSequences old hold
    exact { hr with inboxSequences := hrows }
  | mailboxItem row _ h =>
    obtain ⟨-, hparent, rfl⟩ := Central.insertMailboxItem_eq_ok.mp h
    exact { hr with mailboxItems := forall_mem_append_singleton hr.mailboxItems hparent }
  | idempotencyKey row h =>
    obtain ⟨-, hparent, rfl⟩ := Central.insertIdempotencyKey_eq_ok.mp h
    exact { hr with idempotencyKeys := forall_mem_append_singleton hr.idempotencyKeys hparent }

theorem Write.names (hn : ∀ n ∈ c.principalNames, c.hasPrincipal n.name = false)
    (h : Write P c d) : ∀ n ∈ d.principalNames, d.hasPrincipal n.name = false := by
  cases h with
  | principal row _ h =>
    obtain ⟨hfree, -, rfl⟩ := Central.insertPrincipal_eq_ok.mp h
    intro n hmem
    simp only [Central.hasPrincipal, List.any_append, Bool.or_eq_false_iff]
    exact ⟨hn n hmem, by simpa using Ne.symm (hfree n hmem)⟩
  | profile p f hf h =>
    obtain ⟨-, -, rfl⟩ := Central.updatePrincipals_eq_ok.mp h
    intro n hmem
    exact (any_map_ite (fun r => by rw [hf r]) _).trans (hn n hmem)
  | name row h =>
    obtain ⟨hfree, -, -, rfl⟩ := Central.insertPrincipalName_eq_ok.mp h
    exact forall_mem_append_singleton hn hfree
  | retired p h =>
    obtain ⟨-, -, rfl⟩ := Central.retireNames_eq_ok.mp h
    exact forall_mem_map_ite hn fun _ _ => id
  | credential row hrow h =>
    obtain ⟨-, -, rfl⟩ := Central.insertCredential_eq_ok.mp h
    exact hn
  | revoked p f hf h =>
    obtain ⟨-, rfl⟩ := Central.updateCredentials_eq_ok.mp h
    exact hn
  | credentialAudit credentialId operation occurredAt reason h =>
    obtain ⟨-, -, rfl⟩ := Central.insertCredentialAudit_eq_ok.mp h
    exact hn
  | receipt row h =>
    obtain ⟨-, -, rfl⟩ := Central.insertRegistrationReceipt_eq_ok.mp h
    exact hn
  | space row _ h =>
    obtain ⟨-, rfl⟩ := Central.insertSpace_eq_ok.mp h
    exact hn
  | archived p f hf h =>
    obtain ⟨-, rfl⟩ := Central.updateSpaces_eq_ok.mp h
    exact hn
  | membership merge row hmerge h =>
    obtain ⟨rows, -, -, rfl⟩ := Central.upsertMembership_eq_ok.mp h
    exact hn
  | profileKey row h =>
    obtain ⟨-, -, rfl⟩ := Central.insertProfileIdempotencyKey_eq_ok.mp h
    exact hn
  | auditEvent row h =>
    obtain ⟨-, rfl⟩ := Central.insertAuditEvent_eq_ok.mp h
    exact hn
  | secret secret _ h =>
    obtain ⟨-, -, rfl⟩ := Central.insertJournalSecret_eq_ok.mp h
    exact hn
  | acknowledged item now _ => exact hn

theorem Central.relationTarget {c : Central} {source target : String}
    (h : c.relationTargetInvalid source target = false) : ∃ s ∈ c.records, ∃ t ∈ c.records,
      s.id = source ∧ t.id = target ∧ t.spaceId = s.spaceId ∧ t.spaceSeq < s.spaceSeq := by
  unfold Central.relationTargetInvalid Central.findRecord at h
  cases hs : c.records.find? fun r => r.id = source with
  | none => simp [hs] at h
  | some s =>
    cases ht : c.records.find? fun r => r.id = target with
    | none => simp [hs, ht] at h
    | some t =>
      simp only [hs, ht, Bool.or_eq_false_iff, decide_eq_false_iff_not, not_not, not_le] at h
      exact ⟨s, List.mem_of_find?_eq_some hs, t, List.mem_of_find?_eq_some ht,
        by simpa using List.find?_some hs, by simpa using List.find?_some ht, h.1.symm, h.2⟩

theorem JournalWrite.indexed (hi : c.recordsFts = c.records.map RecordRow.fts)
    (h : JournalWrite c d) : d.recordsFts = d.records.map RecordRow.fts := by
  cases h with
  | record row _ h =>
    obtain ⟨-, -, rfl⟩ := Central.insertRecord_eq_ok.mp h
    simp [hi]
  | relation row h =>
    obtain ⟨-, -, -, -, rfl⟩ := Central.insertRecordRelation_eq_ok.mp h
    exact hi
  | attention row h =>
    obtain ⟨-, -, -, rfl⟩ := Central.insertAttention_eq_ok.mp h
    exact hi
  | inboxSequence recipient h =>
    obtain ⟨-, rows, -, -, rfl⟩ := Central.upsertInboxSequence_eq_ok.mp h
    exact hi
  | mailboxItem row _ h =>
    obtain ⟨-, -, rfl⟩ := Central.insertMailboxItem_eq_ok.mp h
    exact hi
  | idempotencyKey row h =>
    obtain ⟨-, -, rfl⟩ := Central.insertIdempotencyKey_eq_ok.mp h
    exact hi

theorem JournalWrite.relations (hr : RelationsOlder c) (h : JournalWrite c d) :
    RelationsOlder d := by
  cases h with
  | record row _ h =>
    obtain ⟨-, -, rfl⟩ := Central.insertRecord_eq_ok.mp h
    intro r hmem
    obtain ⟨s, hs, t, ht, hrest⟩ := hr r hmem
    exact ⟨s, List.mem_append_left _ hs, t, List.mem_append_left _ ht, hrest⟩
  | relation row h =>
    obtain ⟨-, htarget, -, -, rfl⟩ := Central.insertRecordRelation_eq_ok.mp h
    exact forall_mem_append_singleton hr (Central.relationTarget htarget)
  | attention row h =>
    obtain ⟨-, -, -, rfl⟩ := Central.insertAttention_eq_ok.mp h
    exact hr
  | inboxSequence recipient h =>
    obtain ⟨-, rows, -, -, rfl⟩ := Central.upsertInboxSequence_eq_ok.mp h
    exact hr
  | mailboxItem row _ h =>
    obtain ⟨-, -, rfl⟩ := Central.insertMailboxItem_eq_ok.mp h
    exact hr
  | idempotencyKey row h =>
    obtain ⟨-, -, rfl⟩ := Central.insertIdempotencyKey_eq_ok.mp h
    exact hr

/-- Every write keeps the integrity of the store. -/
theorem StoreWrite.wellFormed (hc : WellFormed P c) (h : StoreWrite P c d) : WellFormed P d := by
  rcases h with h | h
  · have hsame := h.sameJournal
    refine ⟨h.tablesValid hc.tables, h.references hc.references, h.names hc.names, ?_, ?_⟩
    · rw [hsame.recordsFts, hsame.records, hc.indexed]
    · unfold RelationsOlder
      rw [hsame.recordRelations, hsame.records]
      exact hc.relations
  · have hsame := h.sameSecurity
    refine ⟨h.tablesValid hc.tables, h.references hc.references, ?_, h.indexed hc.indexed,
      h.relations hc.relations⟩
    unfold Central.hasPrincipal
    rw [hsame.principalNames, hsame.principals]
    exact hc.names

end AgentJournal.Service
