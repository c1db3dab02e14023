import AgentJournal.Service.Session

/-! # Principal registration, authentication and protected administration -/

namespace AgentJournal.Service
open Domain Foundation Storage

section Queries
variable (P : Platform) (c : Central)

/-- `expires_at IS NULL OR julianday(expires_at)>julianday(now)`. -/
def unexpired (now : String) (row : CredentialRow) : Bool :=
  row.expiresAt.all fun expiry => P.juliandayAfter expiry now

/-- `revoked_at IS NULL AND (expires_at IS NULL OR ..)`. -/
def live (now : String) (row : CredentialRow) : Bool := row.revokedAt.isNone && unexpired P now row

structure ExistingRegistration where
  principalId : String
  unrevoked : Bool
  unexpired : Bool
  requestJson : Option String
  responseJson : Option String
deriving DecidableEq, Repr

/-- The credential of a digest with its registration receipt, if it has one. -/
def existingRegistration (now hash : String) : Option ExistingRegistration :=
  (c.credentials.find? fun r => r.tokenHash = hash).map fun row =>
    let receipt := c.registrationReceipts.find? fun r => r.tokenHash = row.tokenHash
    ⟨row.principalId, row.revokedAt.isNone, unexpired P now row, receipt.map (·.requestJson),
      receipt.map (·.responseJson)⟩

/-- Names take precedence over ids: a reserved name never resolves as an id. -/
def findActive (selector : String) : Option String :=
  match c.principalNames.find? fun n => n.name = selector with
  | some n => (c.principals.find? fun p => p.id = n.principalId && p.disabledAt.isNone).map (·.id)
  | none => (c.principals.find? fun p => p.id = selector && p.disabledAt.isNone).map (·.id)

def currentName (principal : String) : Option String :=
  (c.principalNames.find? fun n => n.principalId = principal && n.kind = .current).map (·.name)

def principalDescriptor (principal : String) : Option Principal := do
  let row ← c.principals.find? fun p => p.id = principal
  let handle ← currentName c principal
  return ⟨row.id, handle, row.displayName, row.description, row.profileRevision, row.createdAt,
    row.disabledAt.isSome⟩

/-- A live credential of this id and principal. -/
def credentialValid (now : String) (actor : AuthenticatedCredential) : Bool :=
  c.credentials.any fun r => r.id = actor.credentialId && r.principalId = actor.principalId &&
    r.credentialClass = .principalClient && live P now r

end Queries

def activePrincipal (selector : String) : Tx String := do
  let principal ← query fun c => findActive c selector
  okOr principal .notFound

section Operations
variable (P : Platform)

def createPrincipal (request : PrincipalCreateRequest) : Tx Principal := do
  validated request.validate
  let now ← now P
  let id ← principalId
  let _ ← insert fun c => c.insertPrincipal ⟨id, request.displayName, now, none, none, 1⟩
  let _ ← insert fun c => c.insertPrincipalName ⟨request.handle, id, .current, now⟩
  return ⟨id, request.handle, request.displayName, none, 1, now, false⟩

/-- A known digest: only the same request of a live, active registration is answered. -/
def replayRegistration (existing : ExistingRegistration) (requestJson : String) :
    Tx RegistrationOutcome := do
  let principal ← queryRow fun c => c.principals.find? fun p => p.id = existing.principalId
  refuse (existing.unrevoked = false ∨ existing.unexpired = false ∨ principal.disabledAt ≠ none)
    .unauthorized
  let original ← okOr existing.requestJson .unauthorized
  let response ← okOr existing.responseJson .unauthorized
  refuse (original ≠ requestJson) .conflict
  let receipt ← okOr (P.decodeRegistrationReceipt response) .corruptJournal
  return ⟨receipt, true⟩

def registerPrincipal (tokenHash now : String) (request : RegistrationRequest) :
    Tx RegistrationOutcome := do
  checkpoint "registration-digest-lookup"
  let id ← principalId
  let _ ← insert fun c => c.insertPrincipal ⟨id, request.displayName, now, none, none, 1⟩
  checkpoint "registration-principal"
  let _ ← insert fun c => c.insertPrincipalName ⟨request.handle, id, .current, now⟩
  checkpoint "registration-handle"
  let suffix ← secret
  let credentialId := "cred-" ++ suffix
  let _ ← insert fun c => c.insertCredential
    ⟨credentialId, id, .principalClient, tokenHash, now, none, none, none, none⟩
  let _ ← insert fun c => c.insertCredentialAudit credentialId .issued now none
  checkpoint "registration-credential"
  let principal ← queryRow fun c => principalDescriptor c id
  let receipt := RegistrationReceipt.mk principal credentialId
  let _ ← insert fun c => c.insertRegistrationReceipt P ⟨tokenHash, credentialId, id,
    P.registrationRequestJson request, P.registrationReceiptJson receipt, now⟩
  checkpoint "registration-receipt"
  return ⟨receipt, false⟩

def register (token : String) (request : RegistrationRequest) : Tx RegistrationOutcome := do
  validated request.validate
  refuse ((asBytes token).length ≠ 64 ∨ (asBytes token).all isLowerHexdigit = false) .invalidJournal
  let now ← now P
  let existing ← query fun c => existingRegistration P c now (P.digest token)
  match existing with
  | some existing => replayRegistration P existing (P.registrationRequestJson request)
  | none => registerPrincipal P (P.digest token) now request

/-- A rename retires the current handle into the permanent alias namespace. -/
def renamePrincipal (principal current handle now : String) : Tx Unit :=
  if current ≠ handle then do
    let retired : PrincipalNameRow → Bool := fun r =>
      r.name = current && r.principalId = principal && r.kind = .current
    let _ ← execute (fun c => c.principalNames.countP retired) fun c => c.retireNames retired
    let _ ← insert fun c => c.insertPrincipalName ⟨handle, principal, .current, now⟩
    return ()
  else return ()

def replayProfile (payloadHash : String) (row : ProfileIdempotencyKeyRow) : Tx Principal := do
  refuse (row.payloadHash ≠ payloadHash) .idempotencyConflict
  okOr (P.decodePrincipal row.responseJson) .corruptJournal

def storeProfile (actor : AuthenticatedCredential) (key payloadHash now : String)
    (request : ProfileUpdateRequest) : Tx Principal := do
  let (current, revision) ← queryRow fun c => do
    let handle ← currentName c actor.principalId
    let row ← c.principals.find? fun p => p.id = actor.principalId
    return (handle, row.profileRevision)
  refuse (revision ≠ request.expectedProfileRevision) .conflict
  renamePrincipal actor.principalId current request.handle now
  let target : PrincipalRow → Bool := fun r => r.id = actor.principalId && r.disabledAt.isNone &&
    r.profileRevision = request.expectedProfileRevision
  let changed ← execute (fun c => c.principals.countP target) fun c =>
    Prod.snd <$> c.updatePrincipals target fun r => { r with
      displayName := request.displayName
      description := request.description
      profileRevision := r.profileRevision + 1 }
  refuse (changed ≠ 1) .conflict
  let principal ← queryRow fun c => principalDescriptor c actor.principalId
  let _ ← integerColumn principal.profileRevision
  let suffix ← secret
  let _ ← insert fun c => c.insertAuditEvent ⟨"profile-" ++ suffix, "principal-profile-updated",
    some actor.principalId, "principal", actor.principalId,
    P.profileDetailJson current principal.handle revision principal.profileRevision, now⟩
  let _ ← insert fun c => c.insertProfileIdempotencyKey
    ⟨actor.principalId, key, payloadHash, P.principalJson principal, now⟩
  return principal

/-- Only a live credential of the principal itself edits its profile. -/
def updateOwnProfile (actor : AuthenticatedCredential) (key : String)
    (request : ProfileUpdateRequest) : Tx Principal := do
  validated request.validate
  refuse (actor.credentialClass ≠ .principalClient ∨ ¬(1 ≤ charCount key ∧ charCount key ≤ 255) ∨
    key.toList.any isControl = true) .unauthorized
  let payloadHash := P.digest (P.profileUpdateJson request)
  let now ← now P
  let _ ← activePrincipal actor.principalId
  let valid ← query fun c => credentialValid P c now actor
  refuse (valid = false) .unauthorized
  let replay ← query fun c => c.profileIdempotencyKeys.find? fun r =>
    r.principalId = actor.principalId && r.idempotencyKey = key
  match replay with
  | some row => replayProfile P payloadHash row
  | none => storeProfile P actor key payloadHash now request

def createSpace (request : SpaceCreateRequest) : Tx Space := do
  validated request.validate
  let now ← now P
  let _ ← insert fun c => c.insertSpace ⟨request.id, request.name, request.access, now, none⟩
  return ⟨request.id, request.name, request.access, none, now⟩

/-- The first transaction of `set_membership`. -/
def resolveMember (request : MembershipRequest) : Tx String := do
  validated request.validate
  activePrincipal request.principalId

/-- The second transaction of `set_membership`, for the principal the first one returned. -/
def storeMembership (request : MembershipRequest) (principalId : String) : Tx Membership := do
  let spaceExists ← query fun c => c.hasSpace request.spaceId
  refuse (spaceExists = false) .notFound
  let now ← now P
  let _ ← insert fun c => c.upsertMembership
    (fun old new => { old with
      canRead := new.canRead
      canAppend := new.canAppend
      canAdmin := new.canAdmin })
    ⟨request.spaceId, principalId, request.canRead, request.canAppend, request.canAdmin, now⟩
  return ⟨request.spaceId, principalId, request.canRead, request.canAppend, request.canAdmin⟩

def authenticate (token : String) (credentialClass : CredentialClass) :
    Tx AuthenticatedCredential := do
  refuse ((asBytes token).length ≠ 64) .unauthorized
  let now ← now P
  let row ← query fun c => c.credentials.find? fun r => r.tokenHash = P.digest token &&
    r.credentialClass = credentialClass && live P now r &&
    c.principals.any fun p => p.id = r.principalId && p.disabledAt.isNone
  let row ← okOr row .unauthorized
  return ⟨row.id, row.principalId, credentialClass⟩

/-- Verifies a credential for append idempotency without authorizing a new append. -/
def authenticateAppendReplay (token : String) : Tx AuthenticatedCredential := do
  refuse ((asBytes token).length ≠ 64) .unauthorized
  let now ← now P
  let row ← query fun c => c.credentials.find? fun r => r.tokenHash = P.digest token &&
    r.credentialClass = .principalClient && live P now r
  let row ← okOr row .unauthorized
  return ⟨row.id, row.principalId, .principalClient⟩

def issuePrincipal (principal now : String) : Tx OneTimeSecret := do
  let suffix ← secret
  let token ← secret
  let _ ← insert fun c => c.insertCredential
    ⟨"cred-" ++ suffix, principal, .principalClient, P.digest token, now, none, none, none, none⟩
  let _ ← insert fun c => c.insertCredentialAudit ("cred-" ++ suffix) .issued now none
  return ⟨"cred-" ++ suffix, token⟩

/-- `UPDATE credentials SET .. WHERE ..` with the number of rows it matches. -/
def updateCredentials (p : CredentialRow → Bool) (f : CredentialRow → CredentialRow) : Tx ℕ :=
  execute (fun c => c.credentials.countP p) fun c => c.updateCredentials p f

def rotate (request : CredentialRotateRequest) : Tx CredentialRotation := do
  validated request.validate
  let now ← now P
  let row ← query fun c => c.credentials.find? fun r => r.id = request.credentialId && live P now r
  let row ← okOr row .notFound
  let _ ← activePrincipal row.principalId
  let replacement ← issuePrincipal P row.principalId now
  let _ ← updateCredentials (fun r => r.id = replacement.credentialId) fun r =>
    { r with expiresAt := row.expiresAt }
  checkpoint "rotation-issued"
  let _ ← updateCredentials (fun r => r.id = request.credentialId) fun r => { r with
    revokedAt := some now
    replacementCredentialId := some replacement.credentialId
    revocationReason := request.reason }
  let _ ← insert fun c => c.insertCredentialAudit request.credentialId .rotated now request.reason
  checkpoint "rotation-revoked"
  return ⟨⟨request.credentialId, row.principalId, row.credentialClass, now,
    some replacement.credentialId⟩, replacement⟩

/-- The writes of the first revocation; a revoked credential keeps its own. -/
def revokeLive (credentialId now : String) (reason : Option String) : Tx Unit := do
  let _ ← updateCredentials (fun r => r.id = credentialId) fun r => { r with
    revokedAt := some now
    revocationReason := reason }
  let _ ← insert fun c => c.insertCredentialAudit credentialId .revoked now reason
  return ()

def revoke (credentialId : String) (reason : Option String) : Tx CredentialMetadata := do
  validated (CredentialRotateRequest.validate ⟨credentialId, reason⟩)
  let now ← now P
  let row ← query fun c => c.credentials.find? fun r => r.id = credentialId
  let row ← okOr row .notFound
  if row.revokedAt = none then revokeLive credentialId now reason else pure ()
  checkpoint "credential-revoked"
  return ⟨credentialId, row.principalId, row.credentialClass, row.revokedAt.getD now, none⟩

/-- `INSERT INTO credential_audit .. SELECT id,'recovered',.. FROM credentials WHERE ..`. -/
def auditRecovered (p : CredentialRow → Bool) (now : String) (reason : Option String) : Tx ℕ :=
  execute (fun c => c.credentials.countP p) fun c => (c.credentials.filter p).foldlM
    (fun c r => c.insertCredentialAudit r.id .recovered now reason) c

def recoverPrincipal (request : PrincipalRecoveryRequest) : Tx PrincipalRecoveryResponse := do
  validated request.validate
  let now ← now P
  let principal ← query fun c => principalDescriptor c request.principalId
  let principal ← okOr principal .notFound
  let target : CredentialRow → Bool := fun r => r.principalId = request.principalId && live P now r
  let _ ← auditRecovered target now request.reason
  let _ ← updateCredentials target fun r => { r with
    revokedAt := some now
    revocationReason := some (request.reason.getD "principal recovery") }
  checkpoint "principal-recovery-revoked"
  let replacement ← issuePrincipal P request.principalId now
  checkpoint "principal-recovery-issued"
  let suffix ← secret
  let _ ← insert fun c => c.insertAuditEvent ⟨"recovery-" ++ suffix,
    "principal-credential-recovered", none, "principal", request.principalId,
    P.recoveryDetailJson request.reason, now⟩
  return ⟨principal, replacement⟩

end Operations

/-- `UPDATE principals SET disabled_at=? WHERE id=?`, run by an operator. -/
def disablePrincipal (id disabledAt : String) : Tx ℕ :=
  execute (fun c => c.principals.countP fun r => r.id = id) fun c =>
    Prod.snd <$> c.updatePrincipals (fun r => r.id = id) fun r =>
      { r with disabledAt := some disabledAt }

/-- `UPDATE spaces SET archived_at=? WHERE id=?`, run by an operator. -/
def archiveSpace (id archivedAt : String) : Tx ℕ :=
  execute (fun c => c.spaces.countP fun r => r.id = id) fun c =>
    c.updateSpaces (fun r => r.id = id) fun r => { r with archivedAt := some archivedAt }

end AgentJournal.Service
