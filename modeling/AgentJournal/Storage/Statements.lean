import AgentJournal.Storage.Central

/-! # SQL statements against the central database

Each statement runs its BEFORE triggers, then the CHECK and uniqueness constraints of its
table, then the immediate foreign keys. A statement that fails changes nothing.
-/

namespace AgentJournal.Storage
open Domain Foundation

inductive SqlError where
  | constraint (violation : Violation)
  | foreignKey
  | trigger (message : String)
  | queryReturnedNoRows
  | invalidColumnType
deriving DecidableEq, Repr

abbrev Sql := Except SqlError

def constrain {α : Type} : Except Violation α → Sql α
  | .ok a => .ok a
  | .error v => .error (.constraint v)

/-- `RAISE(ABORT, message)` when the trigger's WHEN clause holds. -/
def abortWhen (fires : Bool) (message : String) : Sql Unit :=
  failIf (fires = true) (.trigger message)

def references (parent : Bool) : Sql Unit := failIf (parent = false) .foreignKey

namespace Central
variable (c : Central)

def hasPrincipal (id : String) : Bool := c.principals.any fun r => r.id = id
def hasSpace (id : String) : Bool := c.spaces.any fun r => r.id = id
def hasCredential (id : String) : Bool := c.credentials.any fun r => r.id = id
def hasTokenHash (hash : String) : Bool := c.credentials.any fun r => r.tokenHash = hash
def hasRecord (id : String) : Bool := c.records.any fun r => r.id = id
/-- `coalesce(max(space_seq),0)` of one space. -/
def maxSpaceSeq (space : String) : ℤ :=
  ((c.records.filter fun r => r.spaceId = space).map (·.spaceSeq)).foldl max 0

def findRecord (id : String) : Option RecordRow := c.records.find? fun r => r.id = id

def insertPrincipal (row : PrincipalRow) : Sql Central := do
  abortWhen (c.principalNames.any fun n => n.name = row.id) "principal id shadows a reserved name"
  let rows ← constrain (Storage.principals.insert row c.principals)
  return { c with principals := rows }

/-- `UPDATE principals SET .. WHERE ..` with the number of rows it matched. -/
def updatePrincipals (p : PrincipalRow → Bool) (f : PrincipalRow → PrincipalRow) :
    Sql (ℕ × Central) := do
  let rows ← constrain (Storage.principals.update p f c.principals)
  return (c.principals.countP p, { c with principals := rows })

def insertPrincipalName (row : PrincipalNameRow) : Sql Central := do
  abortWhen (c.hasPrincipal row.name) "principal name shadows a principal id"
  let rows ← constrain (Storage.principalNames.insert row c.principalNames)
  references (c.hasPrincipal row.principalId)
  return { c with principalNames := rows }

/-- `UPDATE principal_names SET kind='alias' WHERE ..`. -/
def retireNames (p : PrincipalNameRow → Bool) : Sql Central := do
  abortWhen (c.principalNames.any fun r => p r && r.kind = .aliased)
    "principal aliases are immutable"
  let rows ← constrain
    (Storage.principalNames.update p (fun r => { r with kind := .aliased }) c.principalNames)
  return { c with principalNames := rows }

def insertCredential (row : CredentialRow) : Sql Central := do
  let rows ← constrain (Storage.credentials.insert row c.credentials)
  references (c.hasPrincipal row.principalId)
  return { c with credentials := rows }

/-- `UPDATE credentials SET .. WHERE ..` of columns other than the digest. -/
def updateCredentials (p : CredentialRow → Bool) (f : CredentialRow → CredentialRow) :
    Sql Central := do
  let rows ← constrain (Storage.credentials.update p f c.credentials)
  references (c.credentials.all fun r => !p r || (f r).replacementCredentialId.all c.hasCredential)
  return { c with credentials := rows }

/-- The rowid SQLite gives the next row of `credential_audit`. -/
def nextCredentialAuditId : ℤ := (c.credentialAudit.map (·.id)).foldl max 0 + 1

def insertCredentialAudit (credentialId : String) (operation : CredentialOperation)
    (occurredAt : String) (reason : Option String) : Sql Central := do
  let rows ← constrain (Storage.credentialAudit.insert
    ⟨c.nextCredentialAuditId, credentialId, operation, occurredAt, reason⟩ c.credentialAudit)
  references (c.hasCredential credentialId)
  return { c with credentialAudit := rows }

def insertRegistrationReceipt (P : Platform) (row : RegistrationReceiptRow) : Sql Central := do
  let rows ← constrain ((Storage.registrationReceipts P).insert row c.registrationReceipts)
  references (c.hasTokenHash row.tokenHash && c.hasCredential row.credentialId &&
    c.hasPrincipal row.principalId)
  return { c with registrationReceipts := rows }

def insertSpace (row : SpaceRow) : Sql Central := do
  let rows ← constrain (Storage.spaces.insert row c.spaces)
  return { c with spaces := rows }

/-- `UPDATE spaces SET .. WHERE ..` of columns other than the id and the name. -/
def updateSpaces (p : SpaceRow → Bool) (f : SpaceRow → SpaceRow) : Sql Central := do
  let rows ← constrain (Storage.spaces.update p f c.spaces)
  return { c with spaces := rows }

def upsertMembership (merge : MembershipRow → MembershipRow → MembershipRow)
    (row : MembershipRow) : Sql Central := do
  let rows ← constrain (Storage.memberships.upsert merge row c.memberships)
  references (c.hasSpace row.spaceId && c.hasPrincipal row.principalId)
  return { c with memberships := rows }

def insertProfileIdempotencyKey (row : ProfileIdempotencyKeyRow) : Sql Central := do
  let rows ← constrain (Storage.profileIdempotencyKeys.insert row c.profileIdempotencyKeys)
  references (c.hasPrincipal row.principalId)
  return { c with profileIdempotencyKeys := rows }

def insertAuditEvent (row : AuditEventRow) : Sql Central := do
  let rows ← constrain (Storage.auditEvents.insert row c.auditEvents)
  return { c with auditEvents := rows }

/-- The AFTER INSERT trigger keeps the full-text index beside the table. -/
def insertRecord (row : RecordRow) : Sql Central := do
  let rows ← constrain (Storage.records.insert row c.records)
  references (c.hasSpace row.spaceId && c.hasPrincipal row.authorPrincipalId)
  return { c with records := rows, recordsFts := c.recordsFts ++ [row.fts] }

/-- The target is not an older record of the source's space. -/
def relationTargetInvalid (source target : String) : Bool :=
  match c.findRecord source, c.findRecord target with
  | some s, some t => s.spaceId ≠ t.spaceId || s.spaceSeq ≤ t.spaceSeq
  | _, _ => true

def insertRecordRelation (row : RecordRelationRow) : Sql Central := do
  abortWhen (32 ≤ c.recordRelations.countP fun r => r.sourceRecordId = row.sourceRecordId)
    "relation limit exceeded"
  abortWhen (c.relationTargetInvalid row.sourceRecordId row.targetRecordId)
    "relation target must be an older record in the source record space"
  let rows ← constrain (Storage.recordRelations.insert row c.recordRelations)
  references (c.hasRecord row.sourceRecordId && c.hasRecord row.targetRecordId)
  return { c with recordRelations := rows }

def insertAttention (row : AttentionRow) : Sql Central := do
  abortWhen (16 ≤ c.attention.countP fun r => r.recordId = row.recordId)
    "attention recipient limit exceeded"
  let rows ← constrain (Storage.attention.insert row c.attention)
  references (c.hasRecord row.recordId && c.hasPrincipal row.recipientPrincipalId)
  return { c with attention := rows }

/-- `INSERT INTO inbox_sequences .. ON CONFLICT(recipient_principal_id) DO UPDATE SET
last_seq=..`, with the trigger that refuses a decrease. -/
def upsertInboxSequence (next : ℤ → ℤ → ℤ) (row : InboxSequenceRow) : Sql Central := do
  abortWhen (c.inboxSequences.any fun r =>
    r.recipientPrincipalId = row.recipientPrincipalId && next r.lastSeq row.lastSeq < r.lastSeq)
    "inbox sequence cannot decrease"
  let rows ← constrain (Storage.inboxSequences.upsert
    (fun old new => { old with lastSeq := next old.lastSeq new.lastSeq }) row c.inboxSequences)
  references (c.hasPrincipal row.recipientPrincipalId)
  return { c with inboxSequences := rows }

def lastSeq (recipient : String) : Option ℤ :=
  (c.inboxSequences.find? fun r => r.recipientPrincipalId = recipient).map (·.lastSeq)

def insertMailboxItem (row : MailboxItemRow) : Sql Central := do
  let rows ← constrain (Storage.mailboxItems.insert row c.mailboxItems)
  references (c.hasRecord row.recordId && c.hasPrincipal row.recipientPrincipalId)
  return { c with mailboxItems := rows }

/-- `UPDATE mailbox_items SET acknowledged_at=? WHERE id=? AND acknowledged_at IS NULL`. -/
def acknowledgeMailboxItem (item now : String) : ℕ × Central :=
  (c.mailboxItems.countP fun r => r.id = item && r.acknowledgedAt.isNone,
    { c with mailboxItems := c.mailboxItems.map fun r =>
        if r.id = item && r.acknowledgedAt.isNone then { r with acknowledgedAt := some now }
        else r })

def insertIdempotencyKey (row : IdempotencyKeyRow) : Sql Central := do
  let rows ← constrain (Storage.idempotencyKeys.insert row c.idempotencyKeys)
  references (c.hasPrincipal row.principalId && c.hasRecord row.recordId)
  return { c with idempotencyKeys := rows }

def insertJournalSecret (secret : List UInt8) : Sql Central := do
  failIf (secret.length ≠ 32) (.constraint .check)
  failIf c.journalSecret.isSome (.constraint .primaryKey)
  return { c with journalSecret := some secret }

end Central
end AgentJournal.Storage
