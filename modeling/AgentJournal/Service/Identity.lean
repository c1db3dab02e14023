import AgentJournal.Service.Serving

/-! # What the calls do to identities

Principals, their names and credentials, and the receipts, keys and audit rows beside them. Every
call is one step on these tables; each invariant of identities is then a property of the steps.
-/

namespace AgentJournal.Service
open Domain Foundation Storage Recovery

variable {P : Platform} {c d : Central}

/-- The tables of identities and authority. -/
structure Identities where
  principals : List PrincipalRow
  principalNames : List PrincipalNameRow
  credentials : List CredentialRow
  registrationReceipts : List RegistrationReceiptRow
  profileIdempotencyKeys : List ProfileIdempotencyKeyRow
  credentialAudit : List CredentialAuditRow

def identities (c : Central) : Identities :=
  ⟨c.principals, c.principalNames, c.credentials, c.registrationReceipts, c.profileIdempotencyKeys,
    c.credentialAudit⟩

namespace Identities
variable (i : Identities)

/-- A new principal under its first name. -/
def introduce (row : PrincipalRow) (name : PrincipalNameRow) : Identities := { i with
  principals := i.principals ++ [row]
  principalNames := i.principalNames ++ [name] }

def issue (row : CredentialRow) (entry : CredentialAuditRow) : Identities := { i with
  credentials := i.credentials ++ [row]
  credentialAudit := i.credentialAudit ++ [entry] }

def receive (row : RegistrationReceiptRow) : Identities := { i with
  registrationReceipts := i.registrationReceipts ++ [row] }

/-- The credentials that match are rewritten, with one audit row for each. -/
def terminate (p : CredentialRow → Bool) (f : CredentialRow → CredentialRow)
    (entries : List CredentialAuditRow) : Identities := { i with
  credentials := i.credentials.map fun r => if p r then f r else r
  credentialAudit := i.credentialAudit ++ entries }

def updateProfiles (p : PrincipalRow → Bool) (f : PrincipalRow → PrincipalRow) : Identities :=
  { i with principals := i.principals.map fun r => if p r then f r else r }

/-- The current name of a principal becomes an alias and another one its current name. -/
def rename (principal current handle now : String) : Identities := { i with
  principalNames := (i.principalNames.map fun r =>
    if r.name = current && r.principalId = principal && r.kind = .current then r.retired else r) ++
      [⟨handle, principal, .current, now⟩] }

def remember (row : ProfileIdempotencyKeyRow) : Identities := { i with
  profileIdempotencyKeys := i.profileIdempotencyKeys ++ [row] }

end Identities

section Others

theorem SpaceWrite.identities (h : SpaceWrite P c d) : identities d = identities c := by
  cases h with
  | space row _ h =>
    obtain ⟨-, rfl⟩ := Central.insertSpace_eq_ok.mp h
    rfl
  | archived p f _ h =>
    obtain ⟨-, rfl⟩ := Central.updateSpaces_eq_ok.mp h
    rfl
  | membership merge row _ h =>
    obtain ⟨rows, -, -, rfl⟩ := Central.upsertMembership_eq_ok.mp h
    rfl
  | secret secret _ h =>
    obtain ⟨-, -, rfl⟩ := Central.insertJournalSecret_eq_ok.mp h
    rfl
  | acknowledged item now _ => rfl

theorem JournalWrite.identities (h : JournalWrite c d) : identities d = identities c := by
  have hsame := h.sameSecurity
  simp only [Service.identities, hsame.principals, hsame.principalNames, hsame.credentials,
    hsame.registrationReceipts, hsame.profileIdempotencyKeys, hsame.credentialAudit]

/-- The calls that may write identities. -/
def Call.identifies : Call → Bool
  | .createPrincipal .. | .register .. | .updateOwnProfile .. | .rotate .. | .revoke ..
  | .recoverPrincipal .. | .disablePrincipal .. => true
  | _ => false

/-- The other calls leave them alone. -/
theorem Call.perform_identities {call : Call} (hcall : call.identifies = false) {host : Host}
    {t : Session}
    (hrun : (call.perform P).run (.start host c) = .ok ((), t)) :
    Service.identities t.central = Service.identities c := by
  let W (d e : Central) : Prop := Service.identities e = Service.identities d
  have hS : ∀ d e, SpaceWrite P d e → W d e := fun _ _ h => h.identities
  have hJ : ∀ d e, JournalWrite d e → W d e := fun _ _ h => h.identities
  have hkeeps : Keeps (Wrote W c) (call.perform P) := by
    cases call with
    | createSpace request => exact (createSpace_keeps P hS request).bind fun _ => .pure _
    | resolveMember request => exact (resolveMember_keeps request).bind fun _ => .pure _
    | storeMembership request principalId =>
      exact (storeMembership_keeps P hS request principalId).bind fun _ => .pure _
    | appendRecord token space key input =>
      exact (appendRecord_keeps hJ hS token space key input).bind fun _ => .pure _
    | acknowledgeInboxItem token item => exact acknowledgeInboxItem_keeps hS token item
    | initializeCursorKey identity space =>
      exact (initializeCursorKey_keeps hS identity space).bind fun _ => .pure _
    | archiveSpace id archivedAt =>
        exact (archiveSpace_keeps P hS id archivedAt).bind fun _ => .pure _
    | _ => cases hcall
  have hwrites := hkeeps (.start host c) () t (Effects.none : Effects W c 0 c) hrun
  exact hwrites.invariant (I := fun d => Service.identities d = Service.identities c)
    (fun _ _ hd hw => hw.trans hd) rfl

end Others

section Calls

/-- A bearer token: 64 lowercase hexadecimal digits. -/
def IsToken (token : String) : Prop :=
  (asBytes token).length = 64 ∧ (asBytes token).all isLowerHexdigit = true

instance (token : String) : Decidable (IsToken token) := inferInstanceAs (Decidable (_ ∧ _))

structure Introduces (row : PrincipalRow) (name : PrincipalNameRow) : Prop where
  principalId : name.principalId = row.id
  current : name.kind = .current
  active : row.disabledAt = none
  revision : row.profileRevision = 1

/-- A new credential of a token with its audit row. -/
structure Issues (P : Platform) (token : String) (row : CredentialRow)
    (entry : CredentialAuditRow) :
    Prop where
  isToken : IsToken token
  tokenHash : row.tokenHash = P.digest token
  credentialClass : row.credentialClass = .principalClient
  unrevoked : row.revokedAt = none
  credentialId : entry.credentialId = row.id
  operation : entry.operation = .issued

/-- Audit rows of an operation, one for each credential. -/
def Audits (operation : CredentialOperation) (ids : List String)
    (entries : List CredentialAuditRow) :
    Prop :=
  entries.map (fun e => (e.credentialId, e.operation)) = ids.map fun id => (id, operation)

variable {s t : Session}

theorem secret_eq_ok {text : String} (h : secret.run s = .ok (text, t)) :
    IsToken text ∧ t.central = s.central := by
  simp only [secret, run_bind_eq_ok, run_pure_eq_ok, fill_eq_ok] at h
  obtain ⟨bytes, _, ⟨-, rfl⟩, rfl, rfl⟩ := h
  obtain ⟨hlength, hdigits⟩ := asBytes_hex bytes.toList
  refine ⟨⟨?_, hdigits⟩, rfl⟩
  rw [hlength, Vector.length_toList]

theorem principalId_central {id : String} (h : principalId.run s = .ok (id, t)) :
    t.central = s.central := central_eq (fun c => principalId_keeps (ofStore_central c)) h

theorem insert_eq_ok {statement : Central → Sql Central} {n : ℕ}
    (h : (insert statement).run s = .ok (n, t)) : statement s.central = .ok t.central := by
  obtain ⟨d, hstatement, -, rfl⟩ := execute_eq_ok.mp h
  exact hstatement

theorem checkpoint_same {boundary : String} {u : Unit}
    (h : (checkpoint boundary).run s = .ok (u, t)) :
    t = s := (checkpoint_eq_ok.mp h).2.symm

theorem createPrincipal_eq_ok {request : PrincipalCreateRequest} {p : Principal}
    (h : (createPrincipal P request).run s = .ok (p, t)) :
    ∃ row name, Introduces row name ∧
      identities t.central = (identities s.central).introduce row name := by
  simp only [createPrincipal, run_bind_eq_ok, validated_eq_ok, run_pure_eq_ok] at h
  obtain ⟨_, _, ⟨-, rfl⟩, now, s₁, hnow, id, s₂, hid, _, s₃, hprincipal, _, s₄, hname, rfl, rfl⟩ :=
    h
  have hprincipal := insert_eq_ok hprincipal
  rw [principalId_central hid, now_central hnow] at hprincipal
  obtain ⟨-, -, hs₃⟩ := Central.insertPrincipal_eq_ok.mp hprincipal
  obtain ⟨-, -, -, hs₄⟩ := Central.insertPrincipalName_eq_ok.mp (insert_eq_ok hname)
  rw [← hs₃] at hs₄
  refine ⟨⟨id, request.displayName, now, none, none, 1⟩, ⟨request.handle, id, .current, now⟩,
    ⟨rfl, rfl, rfl, rfl⟩, ?_⟩
  rw [← hs₄]
  rfl

/-- A registration introduces a principal, issues its credential for the token and stores the
receipt it returns. -/
theorem registerPrincipal_eq_ok {tokenHash now : String} {request : RegistrationRequest}
    {outcome : RegistrationOutcome}
    (h : (registerPrincipal P tokenHash now request).run s = .ok (outcome, t)) :
    ∃ row name entry, Introduces row name ∧ outcome.receipt.principal.id = row.id ∧
      outcome.replayed = false ∧ entry.credentialId = outcome.receipt.credentialId ∧
      entry.operation = .issued ∧
      identities t.central = (((identities s.central).introduce row name).issue
        ⟨outcome.receipt.credentialId, row.id, .principalClient, tokenHash, now, none, none, none,
          none⟩
        entry).receive
          ⟨tokenHash, outcome.receipt.credentialId, row.id, P.registrationRequestJson request,
          P.registrationReceiptJson outcome.receipt, now⟩ := by
  unfold registerPrincipal at h
  obtain ⟨_, s₀, hcheck₀, h⟩ := run_bind_eq_ok.mp h
  obtain ⟨id, s₁, hid, h⟩ := run_bind_eq_ok.mp h
  obtain ⟨_, s₂, hprincipal, h⟩ := run_bind_eq_ok.mp h
  obtain ⟨_, s₃, hcheck₁, h⟩ := run_bind_eq_ok.mp h
  obtain ⟨_, s₄, hname, h⟩ := run_bind_eq_ok.mp h
  obtain ⟨_, s₅, hcheck₂, h⟩ := run_bind_eq_ok.mp h
  obtain ⟨suffix, s₆, hsuffix, h⟩ := run_bind_eq_ok.mp h
  obtain ⟨_, s₇, hcredential, h⟩ := run_bind_eq_ok.mp h
  obtain ⟨_, s₈, haudit, h⟩ := run_bind_eq_ok.mp h
  obtain ⟨_, s₉, hcheck₃, h⟩ := run_bind_eq_ok.mp h
  obtain ⟨principal, _, hran, h⟩ := run_bind_eq_ok.mp h
  obtain ⟨hdescriptor, rfl⟩ := queryRow_eq_ok.mp hran
  obtain ⟨_, s₁₀, hreceipt, h⟩ := run_bind_eq_ok.mp h
  obtain ⟨_, s₁₁, hcheck₄, h⟩ := run_bind_eq_ok.mp h
  obtain ⟨rfl, rfl⟩ := run_pure_eq_ok.mp h
  obtain rfl := checkpoint_same hcheck₀
  obtain rfl := checkpoint_same hcheck₁
  obtain rfl := checkpoint_same hcheck₂
  obtain rfl := checkpoint_same hcheck₃
  obtain rfl := checkpoint_same hcheck₄
  have hprincipal := insert_eq_ok hprincipal
  have hcredential := insert_eq_ok hcredential
  rw [principalId_central hid] at hprincipal
  rw [(secret_eq_ok hsuffix).2] at hcredential
  obtain ⟨-, -, h₁⟩ := Central.insertPrincipal_eq_ok.mp hprincipal
  obtain ⟨-, -, -, h₂⟩ := Central.insertPrincipalName_eq_ok.mp (insert_eq_ok hname)
  obtain ⟨-, -, h₃⟩ := Central.insertCredential_eq_ok.mp hcredential
  obtain ⟨-, -, h₄⟩ := Central.insertCredentialAudit_eq_ok.mp (insert_eq_ok haudit)
  obtain ⟨-, -, h₅⟩ := Central.insertRegistrationReceipt_eq_ok.mp (insert_eq_ok hreceipt)
  have hprincipalId : principal.id = id := by
    simp only [principalDescriptor, Option.bind_eq_bind, Option.bind_eq_some_iff, Option.pure_def,
      Option.some.injEq] at hdescriptor
    obtain ⟨row, hrow, handle, -, rfl⟩ := hdescriptor
    simpa using List.find?_some hrow
  refine ⟨⟨id, request.displayName, now, none, none, 1⟩, ⟨request.handle, id, .current, now⟩,
    ⟨s₇.central.nextCredentialAuditId, "cred-" ++ suffix, .issued, now, none⟩, ⟨rfl, rfl, rfl, rfl⟩,
    hprincipalId, rfl, rfl, rfl, ?_⟩
  rw [← h₅, ← h₄, ← h₃, ← h₂, ← h₁]
  rfl

/-- A known digest answers only the request it was registered with, while it is live and its
principal active. -/
structure Replays (P : Platform) (c : Central) (token now : String) (request : RegistrationRequest)
    (receipt : RegistrationReceipt) : Prop where
  stored : ∃ row stored p, c.credentials.find? (fun r => r.tokenHash = P.digest token) = some row ∧
    live P now row = true ∧ c.principals.find? (fun p => p.id = row.principalId) = some p ∧
    p.disabledAt = none ∧
    c.registrationReceipts.find? (fun r => r.tokenHash = P.digest token) = some stored ∧
    stored.requestJson = P.registrationRequestJson request ∧
    P.decodeRegistrationReceipt stored.responseJson = some receipt

theorem existingRegistration_eq_some {now hash : String} {existing : ExistingRegistration}
    (h : existingRegistration P c now hash = some existing) :
    ∃ row, c.credentials.find? (fun r => r.tokenHash = hash) = some row ∧
      existing = ⟨row.principalId, row.revokedAt.isNone, unexpired P now row,
        (c.registrationReceipts.find? fun r => r.tokenHash = hash).map (·.requestJson),
        (c.registrationReceipts.find? fun r => r.tokenHash = hash).map (·.responseJson)⟩ := by
  obtain ⟨row, hrow, rfl⟩ := Option.map_eq_some_iff.mp h
  have hhash : row.tokenHash = hash := by simpa using List.find?_some hrow
  refine ⟨row, hrow, ?_⟩
  simp only [hhash]

/-- A registration that succeeds replays a known token or registers a new one. -/
theorem register_eq_ok {token : String} {request : RegistrationRequest}
    {outcome : RegistrationOutcome}
    (h : (register P token request).run s = .ok (outcome, t)) :
    IsToken token ∧ ∃ now s', (Service.now P).run s = .ok (now, s') ∧
      ((t.central = s.central ∧ outcome.replayed = true ∧
          Replays P s.central token now request outcome.receipt) ∨
        (s.central.credentials.find? (fun r => r.tokenHash = P.digest token) = none ∧
          ∃ s₁, s₁.central = s.central ∧
            (registerPrincipal P (P.digest token) now request).run s₁ = .ok (outcome, t))) := by
  simp only [register, refuse, run_bind_eq_ok, validated_eq_ok, attempt_eq_ok, failIf_eq_ok,
    query_eq_ok] at h
  obtain ⟨_, _, ⟨-, rfl⟩, _, _, ⟨hshape, rfl⟩, now, s₁, hnow, existing, _, ⟨rfl, rfl⟩, h⟩ := h
  have hcentral := now_central hnow
  have htoken : IsToken token := by
    rw [not_or, not_not] at hshape
    exact ⟨hshape.1, by simpa using hshape.2⟩
  refine ⟨htoken, now, s₁, hnow, ?_⟩
  cases hexisting : existingRegistration P s₁.central now (P.digest token) with
  | none =>
    rw [hexisting] at h
    rw [hcentral] at hexisting
    exact .inr ⟨Option.map_eq_none_iff.mp hexisting, s₁, hcentral, h⟩
  | some existing =>
    rw [hexisting] at h
    rw [hcentral] at hexisting
    obtain ⟨row, hrow, rfl⟩ := existingRegistration_eq_some hexisting
    simp only [replayRegistration, queryRow, refuse, okOr, run_bind_eq_ok, query_eq_ok,
      attempt_eq_ok, required_eq_ok, failIf_eq_ok, run_pure_eq_ok, hcentral] at h
    obtain ⟨p, _, ⟨_, _, ⟨rfl, rfl⟩, hp, rfl⟩, _, _, ⟨hallowed, rfl⟩, original, _, ⟨horiginal, rfl⟩,
      response, _, ⟨hresponse, rfl⟩, _, _, ⟨hsame, rfl⟩, receipt, _, ⟨hreceipt, rfl⟩, rfl, rfl⟩ := h
    obtain ⟨stored, hstored, rfl⟩ := Option.map_eq_some_iff.mp horiginal
    rw [hstored, Option.map_some, Option.some.injEq] at hresponse
    simp only [not_or, Bool.not_eq_false, not_not] at hallowed hsame
    refine .inl ⟨hcentral, rfl, row, stored, p, hrow, ?_, hp, hallowed.2.2, hstored, hsame, ?_⟩
    · simp [live, hallowed.1, hallowed.2.1]
    · rw [hresponse]
      exact hreceipt

theorem disablePrincipal_eq_ok {id disabledAt : String} {n : ℕ}
    (h : (disablePrincipal id disabledAt).run s = .ok (n, t)) :
    identities t.central = (identities s.central).updateProfiles (fun r => r.id = id)
      fun r => { r with disabledAt := some disabledAt } := by
  obtain ⟨d, hupdate, -, rfl⟩ := execute_eq_ok.mp h
  obtain ⟨x, hx, rfl⟩ := map_eq_ok.mp hupdate
  obtain ⟨-, -, hd⟩ := Central.updatePrincipals_eq_ok.mp hx
  rw [← hd]
  rfl

section Terminations

theorem activePrincipal_central {selector principal : String}
    (h : (activePrincipal selector).run s = .ok (principal, t)) : t = s := by
  simp only [activePrincipal, okOr, run_bind_eq_ok, query_eq_ok, attempt_eq_ok] at h
  obtain ⟨_, _, ⟨-, rfl⟩, -, rfl⟩ := h
  rfl

theorem updateCredentials_eq_ok {p : CredentialRow → Bool} {f : CredentialRow → CredentialRow}
    {n : ℕ}
    (h : (updateCredentials p f).run s = .ok (n, t)) :
    s.central.updateCredentials p f = .ok t.central := by
  obtain ⟨d, hstatement, -, rfl⟩ := execute_eq_ok.mp h
  exact hstatement

/-- An issued secret is a token, and its credential is the last row. -/
theorem issuePrincipal_token {principal now : String} {issued : OneTimeSecret}
    (h : (issuePrincipal P principal now).run s = .ok (issued, t)) : IsToken issued.secret := by
  simp only [issuePrincipal, run_bind_eq_ok, run_pure_eq_ok] at h
  obtain ⟨_, _, -, token, _, htoken, _, _, -, _, _, -, rfl, -⟩ := h
  exact (secret_eq_ok htoken).1

/-- A rotation issues a credential with the principal and the expiry of the rotated one, which is
revoked in favour of it. -/
theorem rotate_eq_ok {request : CredentialRotateRequest} {rotation : CredentialRotation}
    (h : (rotate P request).run s = .ok (rotation, t)) :
    ∃ now s' row issued rotated, (Service.now P).run s = .ok (now, s') ∧
      s.central.credentials.find? (fun r => r.id = request.credentialId && live P now r) = some
      row ∧
      (∃ u, (activePrincipal row.principalId).run s' = .ok u) ∧
      IsToken rotation.replacementSecret.secret ∧
      issued.credentialId = rotation.replacementSecret.credentialId ∧ issued.operation = .issued ∧
      rotated.credentialId = request.credentialId ∧ rotated.operation = .rotated ∧
      identities t.central = ((identities s.central).issue ⟨rotation.replacementSecret.credentialId,
          row.principalId, .principalClient, P.digest rotation.replacementSecret.secret, now,
          row.expiresAt, none, none, none⟩ issued).terminate (fun r => r.id = request.credentialId)
        (fun r => { r with
          revokedAt := some now
          replacementCredentialId := some rotation.replacementSecret.credentialId
          revocationReason := request.reason }) [rotated] := by
  unfold rotate at h
  obtain ⟨_, _, hvalid, h⟩ := run_bind_eq_ok.mp h
  obtain ⟨-, rfl⟩ := validated_eq_ok.mp hvalid
  obtain ⟨now, s₁, hnow, h⟩ := run_bind_eq_ok.mp h
  obtain ⟨_, _, hfound, h⟩ := run_bind_eq_ok.mp h
  obtain ⟨rfl, rfl⟩ := query_eq_ok.mp hfound
  obtain ⟨row, _, hran, h⟩ := run_bind_eq_ok.mp h
  obtain ⟨hrow, rfl⟩ := okOr_eq_ok.mp hran
  obtain ⟨principal, s₂, hactive, h⟩ := run_bind_eq_ok.mp h
  obtain ⟨replacement, s₃, hissue, h⟩ := run_bind_eq_ok.mp h
  obtain ⟨_, s₄, hexpire, h⟩ := run_bind_eq_ok.mp h
  obtain ⟨_, s₅, hcheck₁, h⟩ := run_bind_eq_ok.mp h
  obtain ⟨_, s₆, hrevoke, h⟩ := run_bind_eq_ok.mp h
  obtain ⟨_, s₇, haudit, h⟩ := run_bind_eq_ok.mp h
  obtain ⟨_, s₈, hcheck₂, h⟩ := run_bind_eq_ok.mp h
  obtain ⟨rfl, rfl⟩ := run_pure_eq_ok.mp h
  obtain rfl := checkpoint_same hcheck₁
  obtain rfl := checkpoint_same hcheck₂
  have htoken := issuePrincipal_token hissue
  obtain ⟨b, d, hinsert, hissued, hcentral, -⟩ := issuePrincipal_eq_ok hissue
  have hexpire := updateCredentials_eq_ok hexpire
  rw [hcentral] at hexpire
  rw [activePrincipal_central hactive, now_central hnow] at hinsert
  rw [now_central hnow] at hrow
  obtain ⟨b', hinsert', hissued'⟩ := insertCredential_expiring hinsert hissued hexpire
  obtain ⟨-, -, h₁⟩ := Central.insertCredential_eq_ok.mp hinsert'
  obtain ⟨-, -, h₂⟩ := Central.insertCredentialAudit_eq_ok.mp hissued'
  obtain ⟨-, h₃⟩ := Central.updateCredentials_eq_ok.mp (updateCredentials_eq_ok hrevoke)
  obtain ⟨-, -, h₄⟩ := Central.insertCredentialAudit_eq_ok.mp (insert_eq_ok haudit)
  refine ⟨now, s₁, row, ⟨b'.nextCredentialAuditId, replacement.credentialId, .issued, now, none⟩,
    ⟨s₆.central.nextCredentialAuditId, request.credentialId, .rotated, now, request.reason⟩, hnow,
    hrow,
    ⟨_, hactive⟩, htoken, rfl, rfl, rfl, rfl, ?_⟩
  rw [← h₄, ← h₃, ← h₂, ← h₁]
  rfl

/-- A revocation of a revoked credential changes nothing. -/
theorem revoke_eq_ok {credentialId : String} {reason : Option String}
    {metadata : CredentialMetadata}
    (h : (revoke P credentialId reason).run s = .ok (metadata, t)) :
    ∃ row, s.central.credentials.find? (fun r => r.id = credentialId) = some row ∧
      ((row.revokedAt ≠ none ∧ t.central = s.central) ∨
        (row.revokedAt = none ∧ ∃ now revoked, revoked.credentialId = credentialId ∧
          revoked.operation = .revoked ∧
          identities t.central = (identities s.central).terminate (fun r => r.id = credentialId)
            (fun r => { r with revokedAt := some now, revocationReason := reason })
            [revoked])) := by
  simp only [revoke, okOr, run_bind_eq_ok, validated_eq_ok, query_eq_ok, attempt_eq_ok,
    required_eq_ok] at h
  obtain ⟨_, _, ⟨-, rfl⟩, now, s₁, hnow, _, _, ⟨rfl, rfl⟩, row, _, ⟨hrow, rfl⟩, h⟩ := h
  have hcentral := now_central hnow
  rw [hcentral] at hrow
  refine ⟨row, hrow, ?_⟩
  by_cases hrevoked : row.revokedAt = none
  · simp only [hrevoked, if_true, revokeLive, run_bind_eq_ok, run_pure_eq_ok] at h
    obtain ⟨_, _, ⟨_, s₂, hupdate, _, s₃, haudit, -, rfl⟩, _, s₄, hcheck, -, rfl⟩ := h
    obtain rfl := checkpoint_same hcheck
    obtain ⟨-, h₁⟩ := Central.updateCredentials_eq_ok.mp (updateCredentials_eq_ok hupdate)
    obtain ⟨-, -, h₂⟩ := Central.insertCredentialAudit_eq_ok.mp (insert_eq_ok haudit)
    refine .inr
      ⟨hrevoked, now, ⟨s₂.central.nextCredentialAuditId, credentialId, .revoked, now, reason⟩,
      rfl, rfl, ?_⟩
    rw [← h₂, ← h₁, hcentral]
    rfl
  · simp only [hrevoked, if_false, run_bind_eq_ok, run_pure_eq_ok] at h
    obtain ⟨_, s₂, hcheck, -, rfl⟩ := h
    obtain rfl := checkpoint_same hcheck
    exact .inl ⟨hrevoked, hcentral⟩

theorem auditRecovered_eq_ok {p : CredentialRow → Bool} {now : String} {reason : Option String}
    {n : ℕ}
    (h : (auditRecovered p now reason).run s = .ok (n, t)) :
    ∃ entries, Audits .recovered ((s.central.credentials.filter p).map (·.id)) entries ∧
      t.central = { s.central with credentialAudit := s.central.credentialAudit ++ entries } := by
  obtain ⟨d, hfold, -, rfl⟩ := execute_eq_ok.mp h
  have hrows : ∀ (rows : List CredentialRow) (b : Central),
      rows.foldlM (fun c r => c.insertCredentialAudit r.id .recovered now reason) b = .ok d →
      ∃ entries, Audits .recovered (rows.map (·.id)) entries ∧
        d = { b with credentialAudit := b.credentialAudit ++ entries } := by
    intro rows
    induction rows with
    | nil =>
      intro b hb
      cases hb
      exact ⟨[], rfl, by simp⟩
    | cons r rows ih =>
      intro b hb
      rw [List.foldlM_cons, bind_eq_ok] at hb
      obtain ⟨b', hinsert, hrest⟩ := hb
      obtain ⟨-, -, rfl⟩ := Central.insertCredentialAudit_eq_ok.mp hinsert
      obtain ⟨entries, haudits, rfl⟩ := ih _ hrest
      refine ⟨⟨b.nextCredentialAuditId, r.id, .recovered, now, reason⟩ :: entries,
        List.cons_eq_cons.mpr ⟨rfl, haudits⟩, ?_⟩
      simp
  exact hrows _ _ hfold

/-- A recovery terminates the live credentials of the principal and issues one for it. -/
theorem recoverPrincipal_eq_ok {request : PrincipalRecoveryRequest}
    {response : PrincipalRecoveryResponse}
    (h : (recoverPrincipal P request).run s = .ok (response, t)) :
    ∃ now s' issued entries, (Service.now P).run s = .ok (now, s') ∧
      principalDescriptor s.central request.principalId = some response.principal ∧
      IsToken response.replacementSecret.secret ∧
      issued.credentialId = response.replacementSecret.credentialId ∧ issued.operation = .issued ∧
      Audits .recovered ((s.central.credentials.filter fun r =>
        r.principalId = request.principalId && live P now r).map (·.id)) entries ∧
      identities t.central = ((identities s.central).terminate
        (fun r => r.principalId = request.principalId && live P now r) (fun r => { r with
          revokedAt := some now
          revocationReason := some (request.reason.getD "principal recovery") }) entries).issue
        ⟨response.replacementSecret.credentialId, request.principalId, .principalClient,
          P.digest response.replacementSecret.secret, now, none, none, none, none⟩ issued := by
  unfold recoverPrincipal at h
  obtain ⟨_, _, hvalid, h⟩ := run_bind_eq_ok.mp h
  obtain ⟨-, rfl⟩ := validated_eq_ok.mp hvalid
  obtain ⟨now, s₁, hnow, h⟩ := run_bind_eq_ok.mp h
  obtain ⟨_, _, hfound, h⟩ := run_bind_eq_ok.mp h
  obtain ⟨rfl, rfl⟩ := query_eq_ok.mp hfound
  obtain ⟨principal, _, hran, h⟩ := run_bind_eq_ok.mp h
  obtain ⟨hprincipal, rfl⟩ := okOr_eq_ok.mp hran
  obtain ⟨_, s₂, haudit, h⟩ := run_bind_eq_ok.mp h
  obtain ⟨_, s₃, hrevoke, h⟩ := run_bind_eq_ok.mp h
  obtain ⟨_, s₄, hcheck₁, h⟩ := run_bind_eq_ok.mp h
  obtain ⟨replacement, s₅, hissue, h⟩ := run_bind_eq_ok.mp h
  obtain ⟨_, s₆, hcheck₂, h⟩ := run_bind_eq_ok.mp h
  obtain ⟨suffix, s₇, hsuffix, h⟩ := run_bind_eq_ok.mp h
  obtain ⟨_, s₈, hevent, h⟩ := run_bind_eq_ok.mp h
  obtain ⟨rfl, rfl⟩ := run_pure_eq_ok.mp h
  obtain rfl := checkpoint_same hcheck₁
  obtain rfl := checkpoint_same hcheck₂
  have htoken := issuePrincipal_token hissue
  have hcentral := now_central hnow
  obtain ⟨entries, haudits, h₁⟩ := auditRecovered_eq_ok haudit
  rw [hcentral] at haudits h₁ hprincipal
  obtain ⟨-, h₂⟩ := Central.updateCredentials_eq_ok.mp (updateCredentials_eq_ok hrevoke)
  obtain ⟨b, d, hinsert, hissued, h₅, -⟩ := issuePrincipal_eq_ok hissue
  obtain ⟨-, -, h₃⟩ := Central.insertCredential_eq_ok.mp hinsert
  obtain ⟨-, -, h₄⟩ := Central.insertCredentialAudit_eq_ok.mp hissued
  have hevent := insert_eq_ok hevent
  rw [(secret_eq_ok hsuffix).2, h₅] at hevent
  obtain ⟨-, h₆⟩ := Central.insertAuditEvent_eq_ok.mp hevent
  refine ⟨now, s₁, ⟨b.nextCredentialAuditId, replacement.credentialId, .issued, now, none⟩, entries,
    hnow, hprincipal, htoken, rfl, rfl, haudits, ?_⟩
  rw [← h₆, ← h₄, ← h₃, ← h₂, h₁]
  rfl

end Terminations

section Profiles

/-- The names after an update: unchanged, or with a new current name. -/
def Identities.renamed (i : Identities) (principal current handle now : String) : Identities :=
  if current = handle then i else i.rename principal current handle now

/-- A rename writes names only. -/
theorem Identities.renamed_eq (i : Identities) (principal current handle now : String) :
    ∃ names, i.renamed principal current handle now = { i with principalNames := names } := by
  unfold Identities.renamed
  split
  · exact ⟨i.principalNames, rfl⟩
  · exact ⟨_, rfl⟩

theorem renamePrincipal_eq_ok {principal current handle now : String} {u : Unit}
    (h : (renamePrincipal principal current handle now).run s = .ok (u, t)) :
    ∃ names, t.central = { s.central with principalNames := names } ∧
      identities t.central = (identities s.central).renamed principal current handle now := by
  unfold renamePrincipal at h
  unfold Identities.renamed
  by_cases hsame : current = handle
  · rw [if_neg (not_not.mpr hsame), run_pure_eq_ok] at h
    rw [if_pos hsame, ← h.2]
    exact ⟨s.central.principalNames, rfl, rfl⟩
  · rw [if_pos hsame] at h
    rw [if_neg hsame]
    simp only [run_bind_eq_ok, run_pure_eq_ok] at h
    obtain ⟨_, s₁, hretire, _, s₂, hinsert, -, rfl⟩ := h
    obtain ⟨d, hretired, -, rfl⟩ := execute_eq_ok.mp hretire
    obtain ⟨-, -, h₁⟩ := Central.retireNames_eq_ok.mp hretired
    obtain ⟨-, -, -, h₂⟩ := Central.insertPrincipalName_eq_ok.mp (insert_eq_ok hinsert)
    simp only at h₂
    rw [← h₂, ← h₁]
    exact ⟨_, rfl, rfl⟩

/-- An update happens at the revision the caller stated, raises it by one and stores the profile it
returns under its key. -/
theorem storeProfile_eq_ok {actor : AuthenticatedCredential} {key payloadHash now : String}
    {request : ProfileUpdateRequest} {profile : Principal}
    (h : (storeProfile P actor key payloadHash now request).run s = .ok (profile, t)) :
    ∃ current row, currentName s.central actor.principalId = some current ∧
      s.central.principals.find? (fun p => p.id = actor.principalId) = some row ∧
      row.profileRevision = request.expectedProfileRevision ∧
      (s.central.principals.countP fun r => r.id = actor.principalId && r.disabledAt.isNone &&
        r.profileRevision = request.expectedProfileRevision) = 1 ∧
      principalDescriptor t.central actor.principalId = some profile ∧
      identities t.central =
      (((identities s.central).renamed actor.principalId current request.handle
          now).updateProfiles (fun r => r.id = actor.principalId && r.disabledAt.isNone &&
            r.profileRevision = request.expectedProfileRevision) (fun r => { r with
              displayName := request.displayName
              description := request.description
              profileRevision := r.profileRevision + 1 })).remember
        ⟨actor.principalId, key, payloadHash, P.principalJson profile, now⟩ := by
  unfold storeProfile at h
  obtain ⟨⟨current, revision⟩, _, hran, h⟩ := run_bind_eq_ok.mp h
  obtain ⟨hprofile, rfl⟩ := queryRow_eq_ok.mp hran
  obtain ⟨_, _, hran, h⟩ := run_bind_eq_ok.mp h
  obtain ⟨hrevision, rfl⟩ := refuse_eq_ok.mp hran
  obtain ⟨_, s₁, hrename, h⟩ := run_bind_eq_ok.mp h
  obtain ⟨changed, s₂, hupdate, h⟩ := run_bind_eq_ok.mp h
  obtain ⟨_, _, hran, h⟩ := run_bind_eq_ok.mp h
  obtain ⟨hchanged, rfl⟩ := refuse_eq_ok.mp hran
  obtain ⟨principal, _, hran, h⟩ := run_bind_eq_ok.mp h
  obtain ⟨hdescriptor, rfl⟩ := queryRow_eq_ok.mp hran
  obtain ⟨_, _, hcolumn, h⟩ := run_bind_eq_ok.mp h
  obtain ⟨-, rfl, rfl⟩ := integerColumn_eq_ok.mp hcolumn
  obtain ⟨suffix, s₃, hsuffix, h⟩ := run_bind_eq_ok.mp h
  obtain ⟨_, s₄, hevent, h⟩ := run_bind_eq_ok.mp h
  obtain ⟨_, s₅, hkey, h⟩ := run_bind_eq_ok.mp h
  obtain ⟨rfl, rfl⟩ := run_pure_eq_ok.mp h
  rw [not_not] at hrevision hchanged
  simp only [Option.bind_eq_bind, Option.bind_eq_some_iff, Option.pure_def, Option.some.injEq,
    Prod.mk.injEq] at hprofile
  obtain ⟨name, hname, row, hrow, rfl, rfl⟩ := hprofile
  obtain ⟨names, h₁, hnames⟩ := renamePrincipal_eq_ok hrename
  obtain ⟨d, hupdated, hcount, rfl⟩ := execute_eq_ok.mp hupdate
  obtain ⟨x, hx, rfl⟩ := map_eq_ok.mp hupdated
  obtain ⟨-, -, h₂⟩ := Central.updatePrincipals_eq_ok.mp hx
  have hevent := insert_eq_ok hevent
  rw [(secret_eq_ok hsuffix).2] at hevent
  obtain ⟨-, h₃⟩ := Central.insertAuditEvent_eq_ok.mp hevent
  obtain ⟨-, -, h₄⟩ := Central.insertProfileIdempotencyKey_eq_ok.mp (insert_eq_ok hkey)
  refine ⟨name, row, hname, hrow, hrevision, ?_, ?_, ?_⟩
  · rw [hchanged, h₁] at hcount
    exact hcount.symm
  · rw [← h₄, ← h₃]
    exact hdescriptor
  · rw [← hnames, ← h₄, ← h₃]
    simp only [← h₂]
    rfl

/-- An update replays its key or stores a new profile. -/
theorem updateOwnProfile_eq_ok {actor : AuthenticatedCredential} {key : String}
    {request : ProfileUpdateRequest} {profile : Principal}
    (h : (updateOwnProfile P actor key request).run s = .ok (profile, t)) :
    ∃ now s', (Service.now P).run s = .ok (now, s') ∧
      credentialValid P s.central now actor = true ∧
      ((t.central = s.central ∧ ∃ row, s.central.profileIdempotencyKeys.find? (fun r =>
            r.principalId = actor.principalId && r.idempotencyKey = key) = some row ∧
          row.payloadHash = P.digest (P.profileUpdateJson request) ∧
          P.decodePrincipal row.responseJson = some profile) ∨
        (s.central.profileIdempotencyKeys.find? (fun r =>
            r.principalId = actor.principalId && r.idempotencyKey = key) = none ∧
          ∃ s₁, s₁.central = s.central ∧
          (storeProfile P actor key (P.digest (P.profileUpdateJson request))
            now request).run s₁ = .ok (profile, t))) := by
  simp only [updateOwnProfile, refuse, run_bind_eq_ok, validated_eq_ok, attempt_eq_ok, failIf_eq_ok,
    query_eq_ok] at h
  obtain ⟨_, _, ⟨-, rfl⟩, _, _, ⟨-, rfl⟩, now, s₁, hnow, _, s₂, hactive, _, _, ⟨rfl, rfl⟩, _, _,
    ⟨hvalid, rfl⟩, _, _, ⟨rfl, rfl⟩, h⟩ := h
  obtain rfl := activePrincipal_central hactive
  have hcentral := now_central hnow
  rw [hcentral] at hvalid
  refine ⟨now, s₂, hnow, by simpa using hvalid, ?_⟩
  cases hreplay : s₂.central.profileIdempotencyKeys.find? fun r =>
      r.principalId = actor.principalId && r.idempotencyKey = key with
  | none =>
    rw [hreplay] at h
    rw [hcentral] at hreplay
    exact .inr ⟨hreplay, s₂, hcentral, h⟩
  | some row =>
    rw [hreplay] at h
    rw [hcentral] at hreplay
    simp only [replayProfile, refuse, okOr, run_bind_eq_ok, attempt_eq_ok, required_eq_ok,
      failIf_eq_ok, not_not] at h
    obtain ⟨_, _, ⟨hhash, rfl⟩, hdecode, rfl⟩ := h
    exact .inl ⟨hcentral, row, hreplay, hhash, hdecode⟩

end Profiles

end Calls
/-- One step of a call on identities. -/
inductive IdentityStep (P : Platform) (c : Central) : Identities → Prop
  | same : IdentityStep P c (identities c)
  | created {row : PrincipalRow} {name : PrincipalNameRow} : Introduces row name →
      IdentityStep P c ((identities c).introduce row name)
  | registered {token now : String} {row : PrincipalRow} {name : PrincipalNameRow}
      {entry : CredentialAuditRow} {request : RegistrationRequest} {receipt : RegistrationReceipt} :
      c.credentials.find? (fun r => r.tokenHash = P.digest token) = none → Introduces row name →
      receipt.principal.id = row.id →
      Issues P token
      ⟨receipt.credentialId, row.id, .principalClient, P.digest token, now, none, none, none,
        none⟩ entry →
      IdentityStep P c ((((identities c).introduce row name).issue ⟨receipt.credentialId, row.id,
        .principalClient, P.digest token, now, none, none, none, none⟩ entry).receive
        ⟨P.digest token, receipt.credentialId, row.id, P.registrationRequestJson request,
          P.registrationReceiptJson receipt, now⟩)
  | updated {principal current handle now : String} {p : PrincipalRow → Bool}
      {f : PrincipalRow → PrincipalRow} {key : ProfileIdempotencyKeyRow} :
      currentName c principal = some current →
      (∀ r, (f r).id = r.id ∧ (r.disabledAt ≠ none → (f r).disabledAt ≠ none)) →
      IdentityStep P c
      ((((identities c).renamed principal current handle now).updateProfiles p f).remember
        key)
  | disabled {p : PrincipalRow → Bool} {f : PrincipalRow → PrincipalRow} :
      (∀ r, (f r).id = r.id ∧ (r.disabledAt ≠ none → (f r).disabledAt ≠ none)) →
      IdentityStep P c ((identities c).updateProfiles p f)
  | rotated {token : String} {row credential : CredentialRow} {entry rotated : CredentialAuditRow}
      {f : CredentialRow → CredentialRow} : row ∈ c.credentials → row.revokedAt = none →
      Issues P token credential entry → credential.expiresAt = row.expiresAt →
      Audits .rotated [row.id] [rotated] →
      (∀ r, (f r).identity = r.identity ∧ (f r).revokedAt ≠ none) →
      IdentityStep P c (((identities c).issue credential entry).terminate (fun r => r.id = row.id) f
        [rotated])
  | revoked {row : CredentialRow} {entry : CredentialAuditRow} {f : CredentialRow → CredentialRow} :
      row ∈ c.credentials → row.revokedAt = none → Audits .revoked [row.id] [entry] →
      (∀ r, (f r).identity = r.identity ∧ (f r).revokedAt ≠ none) →
      IdentityStep P c ((identities c).terminate (fun r => r.id = row.id) f [entry])
  | recovered {token : String} {credential : CredentialRow} {entry : CredentialAuditRow}
      {entries : List CredentialAuditRow} {p : CredentialRow → Bool}
      {f : CredentialRow → CredentialRow} :
      (∀ r, p r = true → r.revokedAt = none) →
      Audits .recovered ((c.credentials.filter p).map (·.id)) entries →
      (∀ r, (f r).identity = r.identity ∧ (f r).revokedAt ≠ none) →
      Issues P token credential entry → credential.expiresAt = none →
      IdentityStep P c (((identities c).terminate p f entries).issue credential entry)

/-- Every call is one step on identities. -/
theorem Call.perform_step (call : Call) {host : Host} {t : Session}
    (hrun : (call.perform P).run (.start host c) = .ok ((), t)) :
    IdentityStep P c (Service.identities t.central) := by
  have hsame : ∀ {d : Central}, Service.identities d = Service.identities c →
      IdentityStep P c (Service.identities d) := fun h => h ▸ .same
  cases hcall : call.identifies with
  | false => exact hsame (Call.perform_identities hcall hrun)
  | true =>
    cases call with
    | createPrincipal request =>
      obtain ⟨p, t', hcreate, hpure⟩ := run_bind_eq_ok.mp hrun
      obtain ⟨-, rfl⟩ := run_pure_eq_ok.mp hpure
      obtain ⟨row, name, hintroduces, heq⟩ := createPrincipal_eq_ok hcreate
      rw [heq]
      exact .created hintroduces
    | register token request =>
      obtain ⟨outcome, t', hregister, hpure⟩ := run_bind_eq_ok.mp hrun
      obtain ⟨-, rfl⟩ := run_pure_eq_ok.mp hpure
      obtain ⟨htoken, now, s', -, ⟨hcentral, -⟩ | ⟨hfresh, s₁, hcentral, hnew⟩⟩ :=
        register_eq_ok hregister
      · exact hsame (by rw [hcentral]; rfl)
      · obtain ⟨row, name, entry, hintroduces, hid, -, hentry, hoperation, heq⟩ :=
          registerPrincipal_eq_ok hnew
        rw [heq, hcentral]
        exact .registered hfresh hintroduces hid ⟨htoken, rfl, rfl, rfl, hentry, hoperation⟩
    | updateOwnProfile actor key request =>
      obtain ⟨profile, t', hupdate, hpure⟩ := run_bind_eq_ok.mp hrun
      obtain ⟨-, rfl⟩ := run_pure_eq_ok.mp hpure
      obtain ⟨now, s', -, -, ⟨hcentral, -⟩ | ⟨-, s₁, hcentral, hnew⟩⟩ :=
        updateOwnProfile_eq_ok hupdate
      · exact hsame (by rw [hcentral]; rfl)
      · obtain ⟨current, row, hcurrent, -, -, -, -, heq⟩ := storeProfile_eq_ok hnew
        rw [heq, hcentral]
        rw [hcentral] at hcurrent
        exact .updated hcurrent fun _ => ⟨rfl, id⟩
    | rotate request =>
      obtain ⟨rotation, t', hrotate, hpure⟩ := run_bind_eq_ok.mp hrun
      obtain ⟨-, rfl⟩ := run_pure_eq_ok.mp hpure
      obtain ⟨now, s', row, issued, rotated, -, hrow, -, htoken, hissued, hoperation, hrotated,
        hrotation,
        heq⟩ := rotate_eq_ok hrotate
      have hfound := List.find?_some hrow
      simp only [live, Bool.and_eq_true, decide_eq_true_eq, Option.isNone_iff_eq_none] at hfound
      rw [heq, ← hfound.1]
      exact .rotated (List.mem_of_find?_eq_some hrow) hfound.2.1
        ⟨htoken, rfl, rfl, rfl, hissued, hoperation⟩ rfl
        (by rw [Audits, List.map_singleton, hrotated, hrotation, hfound.1]; rfl) fun _ =>
        ⟨rfl, by simp⟩
    | revoke credentialId reason =>
      obtain ⟨metadata, t', hrevoke, hpure⟩ := run_bind_eq_ok.mp hrun
      obtain ⟨-, rfl⟩ := run_pure_eq_ok.mp hpure
      obtain ⟨row, hrow, ⟨-, hcentral⟩ | ⟨hlive, now, revoked, hid, hoperation, heq⟩⟩ :=
        revoke_eq_ok hrevoke
      · exact hsame (by rw [hcentral]; rfl)
      · have hfound : row.id = credentialId := by simpa using List.find?_some hrow
        rw [heq, ← hfound]
        exact .revoked (List.mem_of_find?_eq_some hrow) hlive
          (by rw [Audits, List.map_singleton, hid, hoperation, hfound]; rfl) fun _ => ⟨rfl, by simp⟩
    | recoverPrincipal request =>
      obtain ⟨response, t', hrecover, hpure⟩ := run_bind_eq_ok.mp hrun
      obtain ⟨-, rfl⟩ := run_pure_eq_ok.mp hpure
      obtain ⟨now, s', issued, entries, -, -, htoken, hissued, hoperation, haudits, heq⟩ :=
        recoverPrincipal_eq_ok hrecover
      rw [heq]
      refine .recovered (fun r hr => ?_) haudits (fun _ => ⟨rfl, by simp⟩)
        ⟨htoken, rfl, rfl, rfl, hissued, hoperation⟩ rfl
      simp only [live, Bool.and_eq_true, Option.isNone_iff_eq_none] at hr
      exact hr.2.1
    | disablePrincipal id disabledAt =>
      obtain ⟨n, t', hdisable, hpure⟩ := run_bind_eq_ok.mp hrun
      obtain ⟨-, rfl⟩ := run_pure_eq_ok.mp hpure
      rw [disablePrincipal_eq_ok hdisable]
      exact .disabled fun _ => ⟨rfl, fun _ => by simp⟩
    | _ => cases hcall

/-- The identities after a restore: those of the newest content, with its credentials revoked. -/
structure Identities.Merged (clock : RestoreClock) (l d : Identities) : Prop where
  principals : d.principals.Perm l.principals
  principalNames : d.principalNames.Perm l.principalNames
  credentials : d.credentials.Perm (l.credentials.map (writtenCredential clock))
  registrationReceipts : d.registrationReceipts.Perm l.registrationReceipts
  profileIdempotencyKeys : d.profileIdempotencyKeys.Perm l.profileIdempotencyKeys
  credentialAudit : d.credentialAudit.Perm l.credentialAudit

/-- What every step and every restore keeps is an invariant of the store. -/
theorem Invariant.of_steps {J : Identities → Prop} (hbaseline : J ⟨[], [], [], [], [], []⟩)
    (hstep : ∀ {c d : Central}, WellFormed P c → WellFormed P d → J (identities c) →
      IdentityStep P c (identities d) → J (identities d))
    (hmerged : ∀ {clock : RestoreClock} {l d : Identities}, l.Merged clock d → J l → J d) :
    Invariant P fun c => J (identities c) where
  baseline _ := hbaseline
  anchor _ _ h := h
  call call _ _ _ hwell _ h hrun :=
    hstep hwell (call.perform_extends rfl hwell hrun).1 h (call.perform_step hrun)
  merged {clock b l d} _ _ _ hr _ hl := by
    have hidentities : (identities l).Merged clock (identities d) :=
      ⟨hr.principals, hr.principalNames,
      hr.credentials, hr.registrationReceipts, hr.profileIdempotencyKeys, hr.credentialAudit⟩
    exact hmerged hidentities hl

end AgentJournal.Service
