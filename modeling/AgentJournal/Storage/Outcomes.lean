import AgentJournal.Storage.Statements

/-! # The exact outcome of each statement

A statement succeeds under exactly the conditions its triggers, constraints and references
state, and changes exactly one table.
-/

namespace AgentJournal.Storage
open Domain Foundation Schema

theorem constrain_eq_ok {α : Type} {x : Except Violation α} {y : α} :
    constrain x = .ok y ↔ x = .ok y := by
  cases x <;> simp [constrain]

theorem abortWhen_eq_ok {fires : Bool} {message : String} {u : Unit} :
    abortWhen fires message = .ok u ↔ fires = false := by
  simp [abortWhen]

theorem references_eq_ok {parent : Bool} {u : Unit} :
    references parent = .ok u ↔ parent = true := by
  simp [references]

/-- `SET kind='alias'`. -/
def PrincipalNameRow.retired (r : PrincipalNameRow) : PrincipalNameRow :=
  { r with kind := .aliased }

namespace Central
variable {c d : Central}

theorem insertPrincipal_eq_ok {row : PrincipalRow} : c.insertPrincipal row = .ok d ↔
    (∀ n ∈ c.principalNames, n.name ≠ row.id) ∧ Storage.principals.Accepts row c.principals ∧
      { c with principals := c.principals ++ [row] } = d := by
  simp [insertPrincipal, abortWhen_eq_ok, constrain_eq_ok, insert_eq_ok, and_assoc]

theorem updatePrincipals_eq_ok {p : PrincipalRow → Bool} {f : PrincipalRow → PrincipalRow} {n : ℕ} :
    c.updatePrincipals p f = .ok (n, d) ↔
      (∀ r ∈ c.principals, p r = true → Storage.principals.check (f r) = true) ∧
        c.principals.countP p = n ∧
        { c with principals := c.principals.map fun r => if p r then f r else r } = d := by
  simp [updatePrincipals, constrain_eq_ok, update_eq_ok, and_assoc]

theorem insertPrincipalName_eq_ok {row : PrincipalNameRow} : c.insertPrincipalName row = .ok d ↔
    c.hasPrincipal row.name = false ∧ Storage.principalNames.Accepts row c.principalNames ∧
      c.hasPrincipal row.principalId = true ∧
      { c with principalNames := c.principalNames ++ [row] } = d := by
  simp [insertPrincipalName, abortWhen_eq_ok, constrain_eq_ok, insert_eq_ok, references_eq_ok,
    and_assoc]

theorem retireNames_eq_ok {p : PrincipalNameRow → Bool} : c.retireNames p = .ok d ↔
    (∀ r ∈ c.principalNames, p r = true → r.kind = .current) ∧
      (∀ r ∈ c.principalNames, p r = true → Storage.principalNames.check r = true) ∧
      { c with principalNames := c.principalNames.map fun r => if p r then r.retired else r } =
      d := by
  have hkind : ∀ r : PrincipalNameRow, ¬r.kind = .aliased ↔ r.kind = .current := by
    intro r
    cases r.kind <;> simp
  simp [retireNames, abortWhen_eq_ok, constrain_eq_ok, update_eq_ok, and_assoc, hkind,
    PrincipalNameRow.retired, Storage.principalNames]

theorem insertCredential_eq_ok {row : CredentialRow} : c.insertCredential row = .ok d ↔
    Storage.credentials.Accepts row c.credentials ∧ c.hasPrincipal row.principalId = true ∧
      { c with credentials := c.credentials ++ [row] } = d := by
  simp [insertCredential, constrain_eq_ok, insert_eq_ok, references_eq_ok, and_assoc]

theorem updateCredentials_eq_ok {p : CredentialRow → Bool} {f : CredentialRow → CredentialRow} :
    c.updateCredentials p f = .ok d ↔
      (∀ r ∈ c.credentials, p r = true →
        (f r).replacementCredentialId.all c.hasCredential = true) ∧
      { c with credentials := c.credentials.map fun r => if p r then f r else r } = d := by
  simp [updateCredentials, constrain_eq_ok, update_eq_ok, references_eq_ok, Storage.credentials,
    or_iff_not_imp_left]

theorem insertCredentialAudit_eq_ok {credentialId : String} {operation : CredentialOperation}
    {occurredAt : String} {reason : Option String} :
    c.insertCredentialAudit credentialId operation occurredAt reason = .ok d ↔
      Storage.credentialAudit.Accepts
        ⟨c.nextCredentialAuditId, credentialId, operation, occurredAt, reason⟩ c.credentialAudit ∧
      c.hasCredential credentialId = true ∧
      { c with credentialAudit := c.credentialAudit ++
          [⟨c.nextCredentialAuditId, credentialId, operation, occurredAt, reason⟩] } = d := by
  simp [insertCredentialAudit, constrain_eq_ok, insert_eq_ok, references_eq_ok, and_assoc]

theorem insertRegistrationReceipt_eq_ok {P : Platform} {row : RegistrationReceiptRow} :
    c.insertRegistrationReceipt P row = .ok d ↔
      (Storage.registrationReceipts P).Accepts row c.registrationReceipts ∧
      (c.hasTokenHash row.tokenHash = true ∧ c.hasCredential row.credentialId = true ∧
        c.hasPrincipal row.principalId = true) ∧
      { c with registrationReceipts := c.registrationReceipts ++ [row] } = d := by
  simp [insertRegistrationReceipt, constrain_eq_ok, insert_eq_ok, references_eq_ok, and_assoc]

theorem insertSpace_eq_ok {row : SpaceRow} : c.insertSpace row = .ok d ↔
    Storage.spaces.Accepts row c.spaces ∧ { c with spaces := c.spaces ++ [row] } = d := by
  simp [insertSpace, constrain_eq_ok, insert_eq_ok, and_assoc]

theorem updateSpaces_eq_ok {p : SpaceRow → Bool} {f : SpaceRow → SpaceRow} :
    c.updateSpaces p f = .ok d ↔
      (∀ r ∈ c.spaces, p r = true → Storage.spaces.check (f r) = true) ∧
      { c with spaces := c.spaces.map fun r => if p r then f r else r } = d := by
  simp [updateSpaces, constrain_eq_ok, update_eq_ok, and_assoc]

theorem upsertMembership_eq_ok {merge : MembershipRow → MembershipRow → MembershipRow}
    {row : MembershipRow} : c.upsertMembership merge row = .ok d ↔
      ∃ rows, Storage.memberships.upsert merge row c.memberships = .ok rows ∧
        (c.hasSpace row.spaceId = true ∧ c.hasPrincipal row.principalId = true) ∧
        { c with memberships := rows } = d := by
  simp [upsertMembership, constrain_eq_ok, references_eq_ok]

theorem insertProfileIdempotencyKey_eq_ok {row : ProfileIdempotencyKeyRow} :
    c.insertProfileIdempotencyKey row = .ok d ↔
      Storage.profileIdempotencyKeys.Accepts row c.profileIdempotencyKeys ∧
      c.hasPrincipal row.principalId = true ∧
      { c with profileIdempotencyKeys := c.profileIdempotencyKeys ++ [row] } = d := by
  simp [insertProfileIdempotencyKey, constrain_eq_ok, insert_eq_ok, references_eq_ok, and_assoc]

theorem insertAuditEvent_eq_ok {row : AuditEventRow} : c.insertAuditEvent row = .ok d ↔
    Storage.auditEvents.Accepts row c.auditEvents ∧
      { c with auditEvents := c.auditEvents ++ [row] } = d := by
  simp [insertAuditEvent, constrain_eq_ok, insert_eq_ok, and_assoc]

theorem insertRecord_eq_ok {row : RecordRow} : c.insertRecord row = .ok d ↔
    Storage.records.Accepts row c.records ∧
      (c.hasSpace row.spaceId = true ∧ c.hasPrincipal row.authorPrincipalId = true) ∧
      { c with records := c.records ++ [row], recordsFts := c.recordsFts ++ [row.fts] } = d := by
  simp [insertRecord, constrain_eq_ok, insert_eq_ok, references_eq_ok, and_assoc]

theorem insertRecordRelation_eq_ok {row : RecordRelationRow} : c.insertRecordRelation row = .ok d ↔
    (c.recordRelations.countP fun r => r.sourceRecordId = row.sourceRecordId) < 32 ∧
      c.relationTargetInvalid row.sourceRecordId row.targetRecordId = false ∧
      Storage.recordRelations.Accepts row c.recordRelations ∧
      (c.hasRecord row.sourceRecordId = true ∧ c.hasRecord row.targetRecordId = true) ∧
      { c with recordRelations := c.recordRelations ++ [row] } = d := by
  simp [insertRecordRelation, abortWhen_eq_ok, constrain_eq_ok, insert_eq_ok, references_eq_ok,
    and_assoc]

theorem insertAttention_eq_ok {row : AttentionRow} : c.insertAttention row = .ok d ↔
    (c.attention.countP fun r => r.recordId = row.recordId) < 16 ∧
      Storage.attention.Accepts row c.attention ∧
      (c.hasRecord row.recordId = true ∧ c.hasPrincipal row.recipientPrincipalId = true) ∧
      { c with attention := c.attention ++ [row] } = d := by
  simp [insertAttention, abortWhen_eq_ok, constrain_eq_ok, insert_eq_ok, references_eq_ok,
    and_assoc]

theorem upsertInboxSequence_eq_ok {next : ℤ → ℤ → ℤ} {row : InboxSequenceRow} :
    c.upsertInboxSequence next row = .ok d ↔
      (∀ r ∈ c.inboxSequences, r.recipientPrincipalId = row.recipientPrincipalId →
        r.lastSeq ≤ next r.lastSeq row.lastSeq) ∧
      ∃ rows, Storage.inboxSequences.upsert
          (fun old new => { old with lastSeq := next old.lastSeq new.lastSeq }) row
          c.inboxSequences = .ok rows ∧
        c.hasPrincipal row.recipientPrincipalId = true ∧ { c with inboxSequences := rows } = d := by
  simp [upsertInboxSequence, abortWhen_eq_ok, constrain_eq_ok, references_eq_ok]

theorem insertMailboxItem_eq_ok {row : MailboxItemRow} : c.insertMailboxItem row = .ok d ↔
    Storage.mailboxItems.Accepts row c.mailboxItems ∧
      (c.hasRecord row.recordId = true ∧ c.hasPrincipal row.recipientPrincipalId = true) ∧
      { c with mailboxItems := c.mailboxItems ++ [row] } = d := by
  simp [insertMailboxItem, constrain_eq_ok, insert_eq_ok, references_eq_ok, and_assoc]

theorem insertIdempotencyKey_eq_ok {row : IdempotencyKeyRow} : c.insertIdempotencyKey row = .ok d ↔
    Storage.idempotencyKeys.Accepts row c.idempotencyKeys ∧
      (c.hasPrincipal row.principalId = true ∧ c.hasRecord row.recordId = true) ∧
      { c with idempotencyKeys := c.idempotencyKeys ++ [row] } = d := by
  simp [insertIdempotencyKey, constrain_eq_ok, insert_eq_ok, references_eq_ok, and_assoc]

theorem insertJournalSecret_eq_ok {secret : List UInt8} : c.insertJournalSecret secret = .ok d ↔
    secret.length = 32 ∧ c.journalSecret = none ∧ { c with journalSecret := some secret } = d := by
  simp [insertJournalSecret]

end Central
end AgentJournal.Storage
