import AgentJournal.Storage.Statements

/-! # Security snapshots and the merge of a snapshot into an older database

`snapshot` lists every security table, the newest sequence of every space and the inbox
allocation heads. `restoreSecurity` brings an older database of the same journal up to a
snapshot: identities and histories are added, never replaced, and no credential stays live.
-/

namespace AgentJournal.Recovery
open Domain Foundation Storage

inductive StorageError where
  | sqlite (error : SqlError)
  | recoveryClosed (message : String)
  | resetRequired (kind : String)
  | io (operation : String)
deriving DecidableEq, Repr

abbrev Fallible := Except StorageError

def closed {α : Type} (message : String) : Fallible α := .error (.recoveryClosed message)

def refuseIf (condition : Prop) [Decidable condition] (message : String) : Fallible Unit :=
  failIf condition (.recoveryClosed message)

def sqlite {α : Type} : Sql α → Fallible α
  | .ok a => .ok a
  | .error e => .error (.sqlite e)

def currentSchemaVersion : ℤ := 13

structure Snapshot where
  schemaVersion : ℤ
  principals : List PrincipalRow
  principalNames : List PrincipalNameRow
  spaces : List SpaceRow
  memberships : List MembershipRow
  profileIdempotencyKeys : List ProfileIdempotencyKeyRow
  credentials : List CredentialRow
  registrationReceipts : List RegistrationReceiptRow
  credentialAudit : List CredentialAuditRow
  auditEvents : List AuditEventRow
  spaceHeads : List (String × ℤ)
  inboxHeads : List (String × ℤ)
deriving DecidableEq, Repr

def spaceHeads (c : Central) : List (String × ℤ) :=
  (ordered c.spaces).map fun s => (s.id, c.maxSpaceSeq s.id)

def snapshot (c : Central) : Snapshot where
  schemaVersion := currentSchemaVersion
  principals := ordered c.principals
  principalNames := ordered c.principalNames
  spaces := ordered c.spaces
  memberships := ordered c.memberships
  profileIdempotencyKeys := ordered c.profileIdempotencyKeys
  credentials := ordered c.credentials
  registrationReceipts := ordered c.registrationReceipts
  credentialAudit := ordered c.credentialAudit
  auditEvents := ordered c.auditEvents
  spaceHeads := spaceHeads c
  inboxHeads := (ordered c.inboxSequences).map fun r => (r.recipientPrincipalId, r.lastSeq)

section Validation
variable {α : Type} [Row α]

/-- The first `immutable` columns of a row. -/
def binding (immutable : ℕ) (row : α) : List Cell := (Row.cells row).take immutable

/-- Every stored row is the audited row of its key in its immutable columns, and no two
audited rows share a binding. -/
def validateBindings (immutable : ℕ) (conflicts : α → α → Bool) (existing audited : List α) :
    Fallible Unit := do
  refuseIf (¬∀ e ∈ existing, (audited.find? fun a => binding 1 a = binding 1 e).any fun a =>
    binding immutable a = binding immutable e) "credential or registration binding conflicts"
  refuseIf (¬audited.Pairwise fun prior row => conflicts prior row = false)
    "credential snapshot contains conflicting bindings"

/-- Every stored row is an audited row, and audited identities are distinct. -/
def validateHistory [DecidableEq α] (existing audited : List α) : Fallible Unit := do
  refuseIf (¬audited.Pairwise fun prior row => binding 1 prior ≠ binding 1 row)
    "security history snapshot contains conflicting identities"
  refuseIf (¬∀ e ∈ existing, (audited.find? fun a => binding 1 a = binding 1 e).any fun a => a = e)
    "security history binding conflicts"

end Validation

def validateCredentialHistory (c : Central) (latest : Snapshot) : Fallible Unit := do
  validateBindings 6 (fun prior row => prior.id = row.id || prior.tokenHash = row.tokenHash)
    c.credentials latest.credentials
  validateBindings 6 (fun prior row => prior.tokenHash = row.tokenHash ||
      (prior.credentialId = row.credentialId || prior.principalId = row.principalId))
    c.registrationReceipts latest.registrationReceipts

def validateSecurityHistory (c : Central) (latest : Snapshot) : Fallible Unit := do
  validateHistory c.credentialAudit latest.credentialAudit
  validateHistory c.auditEvents latest.auditEvents

def upsertPrincipal (c : Central) (row : PrincipalRow) : Sql Central := do
  abortWhen (c.principalNames.any fun n => n.name = row.id) "principal id shadows a reserved name"
  let rows ← constrain (Storage.principals.upsert (fun _ new => new) row c.principals)
  return { c with principals := rows }

/-- Before an audited current name is merged, the stored current name of its principal is
retired unless it is that name. -/
def retireStaleCurrent (c : Central) (row : PrincipalNameRow) : Sql Central :=
  if row.kind = .current then
    c.retireNames fun r => r.principalId = row.principalId && r.kind = .current && r.name ≠ row.name
  else .ok c

/-- The stored row of an audited name must be that row or its unretired form. -/
def mergePrincipalName (c : Central) (row : PrincipalNameRow) : Fallible Central :=
  match c.principalNames.find? fun r => r.name = row.name with
  | some stored =>
    if stored.principalId = row.principalId ∧ stored.kind = row.kind ∧
        stored.createdAt = row.createdAt then .ok c
    else if stored.principalId = row.principalId ∧ stored.kind = .current ∧ row.kind = .aliased ∧
        stored.createdAt = row.createdAt then
      sqlite (c.retireNames fun r => r.name = row.name)
    else closed "principal-name lineage conflicts"
  | none => sqlite (c.insertPrincipalName row)

def restorePrincipalName (c : Central) (row : PrincipalNameRow) : Fallible Central := do
  let c ← sqlite (retireStaleCurrent c row)
  mergePrincipalName c row

def restorePrincipalNames (c : Central) (rows : List PrincipalNameRow) : Fallible Central :=
  rows.foldlM restorePrincipalName c

def upsertSpace (c : Central) (row : SpaceRow) : Sql Central := do
  let rows ← constrain (Storage.spaces.upsert (fun _ new => new) row c.spaces)
  return { c with spaces := rows }

def upsertProfileIdempotencyKey (c : Central) (row : ProfileIdempotencyKeyRow) : Sql Central := do
  let rows ← constrain
    (Storage.profileIdempotencyKeys.upsert (fun _ new => new) row c.profileIdempotencyKeys)
  references (c.hasPrincipal row.principalId)
  return { c with profileIdempotencyKeys := rows }

def centralRestore : String := "central restore"

/-- The audited credential as it is written back: never live. -/
def revokedCredential (now : String) (row : CredentialRow) : CredentialRow :=
  { row with
    revokedAt := some (row.revokedAt.getD now)
    revocationReason := if row.revokedAt.isNone then some centralRestore else row.revocationReason }

/-- What SQLite's `strftime(..,'now')` reads: each statement has its own time. -/
structure RestoreClock where
  /-- In the statement that revokes every stored credential. -/
  sweep : String
  /-- In the statement that writes back the audited credential of this id. -/
  written : String → String

/-- Foreign keys are deferred from here to the end of the transaction. -/
def upsertCredential (clock : RestoreClock) (c : Central) (row : CredentialRow) : Sql Central := do
  let rows ← constrain (Storage.credentials.upsert
    (fun old new => { old with
      revokedAt := new.revokedAt
      replacementCredentialId := new.replacementCredentialId
      revocationReason := new.revocationReason }) (revokedCredential (clock.written row.id) row)
    c.credentials)
  return { c with credentials := rows }

def restoreReceipt (P : Platform) (c : Central) (row : RegistrationReceiptRow) : Sql Central :=
  if c.registrationReceipts.any fun r => r.tokenHash = row.tokenHash then pure c
  else do
    let rows ← constrain ((Storage.registrationReceipts P).insert row c.registrationReceipts)
    return { c with registrationReceipts := rows }

def restoreCredentialHistory (P : Platform) (clock : RestoreClock) (c : Central)
    (latest : Snapshot) : Sql Central := do
  let c ← latest.credentials.foldlM (upsertCredential clock) c
  latest.registrationReceipts.foldlM (restoreReceipt P) c

/-- `INSERT INTO t SELECT .. WHERE NOT EXISTS(SELECT 1 FROM t WHERE id=?1)`. -/
def insertMissing {α : Type} (T : Schema α (List Cell)) (row : α) (rows : List α) :
    Sql (List α) :=
  if rows.any fun r => T.key r = T.key row then pure rows else constrain (T.insert row rows)

def restoreSecurityHistory (c : Central) (latest : Snapshot) : Sql Central := do
  let audit ← latest.credentialAudit.foldlM
    (fun rows row => insertMissing Storage.credentialAudit row rows) c.credentialAudit
  let events ← latest.auditEvents.foldlM
    (fun rows row => insertMissing Storage.auditEvents row rows) c.auditEvents
  return { c with credentialAudit := audit, auditEvents := events }

/-- Allocation heads are merged by maximum. Its foreign key is deferred. -/
def restoreInboxHead (c : Central) (head : String × ℤ) : Fallible Central := do
  refuseIf (head.2 ≤ 0) "invalid inbox allocation head"
  sqlite (abortWhen (c.inboxSequences.any fun r =>
    r.recipientPrincipalId = head.1 && max r.lastSeq head.2 < r.lastSeq)
    "inbox sequence cannot decrease")
  let rows ← sqlite (constrain (Storage.inboxSequences.upsert
    (fun old new => { old with lastSeq := max old.lastSeq new.lastSeq }) ⟨head.1, head.2⟩
    c.inboxSequences))
  return { c with inboxSequences := rows }

/-- Revokes every stored credential and removes the memberships. -/
def fenceAuthority (clock : RestoreClock) (c : Central) : Central :=
  { c with
    credentials := c.credentials.map fun r => { r with
      revokedAt := some (r.revokedAt.getD clock.sweep)
      revocationReason := some centralRestore }
    memberships := [] }

def restoreSecurity (P : Platform) (clock : RestoreClock) (c : Central) (latest : Snapshot) :
    Fallible Central := do
  refuseIf (latest.schemaVersion ≠ currentSchemaVersion) "security snapshot shape differs"
  validateCredentialHistory c latest
  validateSecurityHistory c latest
  let c ← sqlite (latest.principals.foldlM upsertPrincipal (fenceAuthority clock c))
  let c ← restorePrincipalNames c latest.principalNames
  let c ← sqlite (latest.spaces.foldlM upsertSpace c)
  let c ← sqlite
    (latest.memberships.foldlM (fun c row => c.upsertMembership (fun _ new => new) row) c)
  let c ← sqlite (latest.profileIdempotencyKeys.foldlM upsertProfileIdempotencyKey c)
  let c ← sqlite (restoreCredentialHistory P clock c latest)
  let c ← sqlite (restoreSecurityHistory c latest)
  latest.inboxHeads.foldlM restoreInboxHead c

end AgentJournal.Recovery
