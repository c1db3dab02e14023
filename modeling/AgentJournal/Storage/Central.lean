import AgentJournal.Domain.Platform
import AgentJournal.Storage.Cell

/-! # The central database

One structure for each table of the baseline schema, with its columns in table order,
and the primary key, UNIQUE and CHECK constraints the baseline declares for it.
The `records` columns for imported history are never written by this program and are left out.
-/

namespace AgentJournal.Storage
open Domain Foundation

structure PrincipalRow where
  id : String
  displayName : String
  createdAt : String
  disabledAt : Option String
  description : Option String
  profileRevision : ℤ
deriving DecidableEq, Repr

instance : Row PrincipalRow where
  cells r := [.text r.id, .text r.displayName, .text r.createdAt, .ofOption r.disabledAt,
    .ofOption r.description, .integer r.profileRevision]
  cells_injective a b h := by cases a; cases b; simp_all

def principalIdCheck (id : String) : Bool :=
  let chars := sqlChars id
  chars.length = 36 && chars[14]? = some '7' &&
    (chars[19]?.any fun c => c ∈ ['8', '9', 'a', 'b'])

def principals : Schema PrincipalRow (List Cell) where
  key r := [.text r.id]
  uniques := []
  check r := principalIdCheck r.id && (1 ≤ sqlLength r.displayName && sqlLength r.displayName ≤ 128)
    && (r.description.all fun d => sqlLength d ≤ 512) && (1 ≤ r.profileRevision)

inductive NameKind where
  | current
  | aliased
deriving DecidableEq, Repr

def NameKind.asStr : NameKind → String
  | .current => "current"
  | .aliased => "alias"

theorem NameKind.asStr_inj {a b : NameKind} : a.asStr = b.asStr ↔ a = b := by
  cases a <;> cases b <;> simp [asStr]

structure PrincipalNameRow where
  name : String
  principalId : String
  kind : NameKind
  createdAt : String
deriving DecidableEq, Repr

instance : Row PrincipalNameRow where
  cells r := [.text r.name, .text r.principalId, .text r.kind.asStr, .text r.createdAt]
  cells_injective a b h := by cases a; cases b; simp_all [NameKind.asStr_inj]

def principalNames : Schema PrincipalNameRow (List Cell) where
  key r := [.text r.name]
  uniques := [fun r => if r.kind = .current then some [.text r.principalId] else none]
  check r := 1 ≤ sqlLength r.name && sqlLength r.name ≤ 128

structure CredentialRow where
  id : String
  principalId : String
  credentialClass : CredentialClass
  tokenHash : String
  createdAt : String
  expiresAt : Option String
  revokedAt : Option String
  replacementCredentialId : Option String
  revocationReason : Option String
deriving DecidableEq, Repr

instance : Row CredentialRow where
  cells r := [.text r.id, .text r.principalId, .text r.credentialClass.name, .text r.tokenHash,
    .text r.createdAt, .ofOption r.expiresAt, .ofOption r.revokedAt,
    .ofOption r.replacementCredentialId, .ofOption r.revocationReason]
  cells_injective a b h := by
    rcases a with ⟨_, _, ⟨⟩, _, _, _, _, _, _⟩
    rcases b with ⟨_, _, ⟨⟩, _, _, _, _, _, _⟩
    simp_all

/-- The columns of a credential that are never written again. -/
def CredentialRow.identity (r : CredentialRow) :
    String × String × CredentialClass × String × String × Option String :=
  (r.id, r.principalId, r.credentialClass, r.tokenHash, r.createdAt, r.expiresAt)

def credentials : Schema CredentialRow (List Cell) where
  key r := [.text r.id]
  uniques := [fun r => some [.text r.tokenHash]]
  check _ := true

structure RegistrationReceiptRow where
  tokenHash : String
  credentialId : String
  principalId : String
  requestJson : String
  responseJson : String
  createdAt : String
deriving DecidableEq, Repr

instance : Row RegistrationReceiptRow where
  cells r := [.text r.tokenHash, .text r.credentialId, .text r.principalId, .text r.requestJson,
    .text r.responseJson, .text r.createdAt]
  cells_injective a b h := by cases a; cases b; simp_all

def registrationReceipts (P : Platform) : Schema RegistrationReceiptRow (List Cell) where
  key r := [.text r.tokenHash]
  uniques := [fun r => some [.text r.credentialId], fun r => some [.text r.principalId]]
  check r := P.jsonObject r.requestJson && P.jsonObject r.responseJson

structure SpaceRow where
  id : String
  name : String
  access : SpaceAccess
  createdAt : String
  archivedAt : Option String
deriving DecidableEq, Repr

instance : Row SpaceRow where
  cells r := [.text r.id, .text r.name, .text r.access.asStr, .text r.createdAt,
    .ofOption r.archivedAt]
  cells_injective a b h := by
    rcases a with ⟨_, _, ⟨⟩, _, _⟩
    rcases b with ⟨_, _, ⟨⟩, _, _⟩
    simp_all

def spaces : Schema SpaceRow (List Cell) where
  key r := [.text r.id]
  uniques := [fun r => some [.text r.name]]
  check r := 1 ≤ sqlLength r.name && sqlLength r.name ≤ 128

structure MembershipRow where
  spaceId : String
  principalId : String
  canRead : Bool
  canAppend : Bool
  canAdmin : Bool
  createdAt : String
deriving DecidableEq, Repr

instance : Row MembershipRow where
  cells r := [.text r.spaceId, .text r.principalId, .ofBool r.canRead, .ofBool r.canAppend,
    .ofBool r.canAdmin, .text r.createdAt]
  cells_injective a b h := by cases a; cases b; simp_all

def memberships : Schema MembershipRow (List Cell) where
  key r := [.text r.spaceId, .text r.principalId]
  uniques := []
  check _ := true

structure ProfileIdempotencyKeyRow where
  principalId : String
  idempotencyKey : String
  payloadHash : String
  responseJson : String
  createdAt : String
deriving DecidableEq, Repr

instance : Row ProfileIdempotencyKeyRow where
  cells r := [.text r.principalId, .text r.idempotencyKey, .text r.payloadHash,
    .text r.responseJson, .text r.createdAt]
  cells_injective a b h := by cases a; cases b; simp_all

def profileIdempotencyKeys : Schema ProfileIdempotencyKeyRow (List Cell) where
  key r := [.text r.principalId, .text r.idempotencyKey]
  uniques := []
  check r := 1 ≤ sqlLength r.idempotencyKey && sqlLength r.idempotencyKey ≤ 255

inductive CredentialOperation where
  | issued
  | rotated
  | revoked
  | recovered
deriving DecidableEq, Repr

def CredentialOperation.asStr : CredentialOperation → String
  | .issued => "issued"
  | .rotated => "rotated"
  | .revoked => "revoked"
  | .recovered => "recovered"

theorem CredentialOperation.asStr_inj {a b : CredentialOperation} : a.asStr = b.asStr ↔ a = b := by
  cases a <;> cases b <;> simp [asStr]

structure CredentialAuditRow where
  id : ℤ
  credentialId : String
  operation : CredentialOperation
  occurredAt : String
  reason : Option String
deriving DecidableEq, Repr

instance : Row CredentialAuditRow where
  cells r := [.integer r.id, .text r.credentialId, .text r.operation.asStr, .text r.occurredAt,
    .ofOption r.reason]
  cells_injective a b h := by cases a; cases b; simp_all [CredentialOperation.asStr_inj]

def credentialAudit : Schema CredentialAuditRow (List Cell) where
  key r := [.integer r.id]
  uniques := []
  check _ := true

structure AuditEventRow where
  id : String
  eventType : String
  actorPrincipalId : Option String
  subjectType : String
  subjectId : String
  detailJson : String
  createdAt : String
deriving DecidableEq, Repr

instance : Row AuditEventRow where
  cells r := [.text r.id, .text r.eventType, .ofOption r.actorPrincipalId, .text r.subjectType,
    .text r.subjectId, .text r.detailJson, .text r.createdAt]
  cells_injective a b h := by cases a; cases b; simp_all

def auditEvents : Schema AuditEventRow (List Cell) where
  key r := [.text r.id]
  uniques := []
  check _ := true

structure RecordRow where
  id : String
  spaceId : String
  spaceSeq : ℤ
  authorPrincipalId : String
  kind : String
  content : String
  runId : Option String
  routingKey : Option String
  title : Option String
  createdAt : String
deriving DecidableEq, Repr

instance : Row RecordRow where
  cells r := [.text r.id, .text r.spaceId, .integer r.spaceSeq, .text r.authorPrincipalId,
    .text r.kind, .text r.content, .ofOption r.runId, .ofOption r.routingKey, .ofOption r.title,
    .text r.createdAt]
  cells_injective a b h := by cases a; cases b; simp_all

def records : Schema RecordRow (List Cell) where
  key r := [.text r.id]
  uniques := [fun r => some [.text r.spaceId, .integer r.spaceSeq]]
  check r := 0 < r.spaceSeq && (1 ≤ sqlLength r.kind && sqlLength r.kind ≤ 128) &&
    (1 ≤ r.content.utf8ByteSize && r.content.utf8ByteSize ≤ 65536) &&
    (r.runId.all fun id => sqlLength id ≤ 128) &&
    (r.title.all fun t => 1 ≤ sqlLength t && sqlLength t ≤ 200)

/-- A row of the full-text index. -/
structure FtsRow where
  recordId : String
  spaceId : String
  content : String
  authorPrincipalId : String
  kind : String
  runId : Option String
deriving DecidableEq, Repr

def RecordRow.fts (r : RecordRow) : FtsRow :=
  ⟨r.id, r.spaceId, r.content, r.authorPrincipalId, r.kind, r.runId⟩

structure RecordRelationRow where
  sourceRecordId : String
  relationType : RelationType
  targetRecordId : String
  createdAt : String
  position : ℤ
deriving DecidableEq, Repr

theorem relationType_asStr_inj {a b : RelationType} : a.asStr = b.asStr ↔ a = b := by
  cases a <;> cases b <;> simp [RelationType.asStr]

instance : Row RecordRelationRow where
  cells r := [.text r.sourceRecordId, .text r.relationType.asStr, .text r.targetRecordId,
    .text r.createdAt, .integer r.position]
  cells_injective a b h := by cases a; cases b; simp_all [relationType_asStr_inj]

def recordRelations : Schema RecordRelationRow (List Cell) where
  key r := [.text r.sourceRecordId, .text r.relationType.asStr, .text r.targetRecordId]
  uniques := [fun r => if r.relationType = .replyTo then some [.text r.sourceRecordId] else none]
  check r := (0 ≤ r.position && r.position < 32) && r.sourceRecordId ≠ r.targetRecordId

structure AttentionRow where
  recordId : String
  recipientPrincipalId : String
  createdAt : String
deriving DecidableEq, Repr

instance : Row AttentionRow where
  cells r := [.text r.recordId, .text r.recipientPrincipalId, .text r.createdAt]
  cells_injective a b h := by cases a; cases b; simp_all

def attention : Schema AttentionRow (List Cell) where
  key r := [.text r.recordId, .text r.recipientPrincipalId]
  uniques := []
  check _ := true

structure IdempotencyKeyRow where
  principalId : String
  method : String
  path : String
  idempotencyKey : String
  payloadHash : String
  recordId : String
  responseJson : String
  createdAt : String
deriving DecidableEq, Repr

instance : Row IdempotencyKeyRow where
  cells r := [.text r.principalId, .text r.method, .text r.path, .text r.idempotencyKey,
    .text r.payloadHash, .text r.recordId, .text r.responseJson, .text r.createdAt]
  cells_injective a b h := by cases a; cases b; simp_all

def idempotencyKeys : Schema IdempotencyKeyRow (List Cell) where
  key r := [.text r.principalId, .text r.method, .text r.path, .text r.idempotencyKey]
  uniques := []
  check r := (1 ≤ sqlLength r.method && sqlLength r.method ≤ 16) &&
    (1 ≤ sqlLength r.path && sqlLength r.path ≤ 2048) &&
    (1 ≤ sqlLength r.idempotencyKey && sqlLength r.idempotencyKey ≤ 255)

structure InboxSequenceRow where
  recipientPrincipalId : String
  lastSeq : ℤ
deriving DecidableEq, Repr

instance : Row InboxSequenceRow where
  cells r := [.text r.recipientPrincipalId, .integer r.lastSeq]
  cells_injective a b h := by cases a; cases b; simp_all

def inboxSequences : Schema InboxSequenceRow (List Cell) where
  key r := [.text r.recipientPrincipalId]
  uniques := []
  check r := 0 < r.lastSeq && r.lastSeq < 2 ^ 63

structure MailboxItemRow where
  id : String
  recordId : String
  recipientPrincipalId : String
  createdAt : String
  recipientSeq : ℤ
  acknowledgedAt : Option String
deriving DecidableEq, Repr

instance : Row MailboxItemRow where
  cells r := [.text r.id, .text r.recordId, .text r.recipientPrincipalId, .text r.createdAt,
    .integer r.recipientSeq, .ofOption r.acknowledgedAt]
  cells_injective a b h := by cases a; cases b; simp_all

def mailboxItems : Schema MailboxItemRow (List Cell) where
  key r := [.text r.id]
  uniques := [fun r => some [.text r.recipientPrincipalId, .integer r.recipientSeq],
    fun r => some [.text r.recordId, .text r.recipientPrincipalId]]
  check r := 0 < r.recipientSeq && r.recipientSeq < 2 ^ 63

/-- The single row of `recovery_anchor`. -/
structure RecoveryAnchor where
  journalId : String
  revision : ℤ
  auditRequired : Bool
  inboxEpoch : ℤ
deriving DecidableEq, Repr

/-- The contents of one central database file. `journalSecret` is the only row that
`journal_secrets` can hold. -/
structure Central where
  recoveryAnchor : RecoveryAnchor
  principals : List PrincipalRow
  principalNames : List PrincipalNameRow
  credentials : List CredentialRow
  registrationReceipts : List RegistrationReceiptRow
  spaces : List SpaceRow
  memberships : List MembershipRow
  profileIdempotencyKeys : List ProfileIdempotencyKeyRow
  credentialAudit : List CredentialAuditRow
  auditEvents : List AuditEventRow
  records : List RecordRow
  recordsFts : List FtsRow
  recordRelations : List RecordRelationRow
  attention : List AttentionRow
  idempotencyKeys : List IdempotencyKeyRow
  inboxSequences : List InboxSequenceRow
  mailboxItems : List MailboxItemRow
  journalSecret : Option (List UInt8)
deriving DecidableEq, Repr

/-- The freshly applied baseline with its random journal identity. -/
def Central.baseline (journalId : String) : Central where
  recoveryAnchor := ⟨journalId, 0, false, 0⟩
  principals := []
  principalNames := []
  credentials := []
  registrationReceipts := []
  spaces := []
  memberships := []
  profileIdempotencyKeys := []
  credentialAudit := []
  auditEvents := []
  records := []
  recordsFts := []
  recordRelations := []
  attention := []
  idempotencyKeys := []
  inboxSequences := []
  mailboxItems := []
  journalSecret := none

end AgentJournal.Storage
