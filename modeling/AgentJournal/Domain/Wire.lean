import AgentJournal.Domain.Record
import Mathlib.Algebra.Ring.Int.Defs
import Mathlib.Algebra.Ring.Nat

/-! # Request and response types of the service with their wire validation -/

namespace AgentJournal.Domain
open Foundation

inductive WireValidationError where
  | domain (error : ValidationError)
  | characterLength (field : String) (min max : ℕ)
  | range (field : String) (min max : ℕ)
  | invalidUuidV7 (field : String)
  | invalidDateTime (field : String)
deriving DecidableEq, Repr

def liftDomain {α : Type} : Except ValidationError α → Except WireValidationError α
  | .ok a => .ok a
  | .error e => .error (.domain e)

def validateChars (field value : String) (min max : ℕ) : Except WireValidationError Unit :=
  failIf (¬(min ≤ charCount value ∧ charCount value ≤ max)) (.characterLength field min max)

def validateOptionalChars (field : String) (value : Option String) (min max : ℕ) :
    Except WireValidationError Unit :=
  match value with
  | none => .ok ()
  | some text => validateChars field text min max

def dashIndices : List ℕ := [8, 13, 18, 23]

def validateUuidV7 (field value : String) : Except WireValidationError Unit :=
  let bytes := asBytes value
  failIf (¬(bytes.length = 36 ∧ (dashIndices.all fun i => bytes[i]? = some 0x2d) ∧
      bytes[14]? = some 0x37 ∧ (bytes[19]?.any fun b => b ∈ [0x38, 0x39, 0x61, 0x62]) ∧
      (bytes.zipIdx.all fun (b, i) => i ∈ dashIndices || isLowerHexdigit b)))
    (.invalidUuidV7 field)

structure PrincipalCreateRequest where
  handle : String
  displayName : String
deriving DecidableEq, Repr

def PrincipalCreateRequest.validate (r : PrincipalCreateRequest) :
    Except WireValidationError Unit := do
  liftDomain (validateIdentifier "handle" r.handle)
  validateChars "display_name" r.displayName 1 128

abbrev RegistrationRequest := PrincipalCreateRequest

structure RegistrationReceipt where
  principal : Principal
  credentialId : String
deriving DecidableEq, Repr

structure RegistrationOutcome where
  receipt : RegistrationReceipt
  replayed : Bool
deriving DecidableEq, Repr

structure ProfileUpdateRequest where
  handle : String
  displayName : String
  description : Option String
  expectedProfileRevision : ℤ
deriving DecidableEq, Repr

def ProfileUpdateRequest.validate (r : ProfileUpdateRequest) :
    Except WireValidationError Unit := do
  liftDomain (validateIdentifier "handle" r.handle)
  validateChars "display_name" r.displayName 1 128
  validateOptionalChars "description" r.description 0 512
  failIf (r.expectedProfileRevision < 1) (.range "expected_profile_revision" 1 (2 ^ 63 - 1))

inductive SpaceAccess where
  | publicAccess
deriving DecidableEq, Repr

def SpaceAccess.asStr : SpaceAccess → String
  | .publicAccess => "public"

structure SpaceCreateRequest where
  id : String
  name : String
  access : SpaceAccess
deriving DecidableEq, Repr

def SpaceCreateRequest.validate (r : SpaceCreateRequest) : Except WireValidationError Unit := do
  liftDomain (validateIdentifier "id" r.id)
  validateChars "name" r.name 1 128

structure MembershipRequest where
  spaceId : String
  principalId : String
  canRead : Bool
  canAppend : Bool
  canAdmin : Bool
deriving DecidableEq, Repr

def MembershipRequest.validate (r : MembershipRequest) : Except WireValidationError Unit := do
  liftDomain (validateIdentifier "space_id" r.spaceId)
  liftDomain (validateIdentifier "principal_id" r.principalId)

inductive CredentialClass where
  | principalClient
deriving DecidableEq, Repr

def CredentialClass.name : CredentialClass → String
  | .principalClient => "principal-client"

structure CredentialRotateRequest where
  credentialId : String
  reason : Option String
deriving DecidableEq, Repr

def CredentialRotateRequest.validate (r : CredentialRotateRequest) :
    Except WireValidationError Unit := do
  liftDomain (validateIdentifier "credential_id" r.credentialId)
  validateOptionalChars "reason" r.reason 0 512

structure PrincipalRecoveryRequest where
  principalId : String
  reason : Option String
deriving DecidableEq, Repr

def PrincipalRecoveryRequest.validate (r : PrincipalRecoveryRequest) :
    Except WireValidationError Unit := do
  validateUuidV7 "principal_id" r.principalId
  validateOptionalChars "reason" r.reason 0 512

structure AuthenticatedCredential where
  credentialId : String
  principalId : String
  credentialClass : CredentialClass
deriving DecidableEq, Repr

structure CredentialMetadata where
  credentialId : String
  principalId : String
  credentialClass : CredentialClass
  rotatedAt : String
  replacementCredentialId : Option String
deriving DecidableEq, Repr

/-- A secret shown once, with the credential it belongs to. -/
structure OneTimeSecret where
  credentialId : String
  secret : String
deriving DecidableEq, Repr

structure CredentialRotation where
  metadata : CredentialMetadata
  replacementSecret : OneTimeSecret
deriving DecidableEq, Repr

structure PrincipalRecoveryResponse where
  principal : Principal
  replacementSecret : OneTimeSecret
deriving DecidableEq, Repr

structure Membership where
  spaceId : String
  principalId : String
  canRead : Bool
  canAppend : Bool
  canAdmin : Bool
deriving DecidableEq, Repr

structure Space where
  id : String
  name : String
  access : SpaceAccess
  archivedAt : Option String
  createdAt : String
deriving DecidableEq, Repr

def defaultPageSize : ℕ := 50
def maxCursorChars : ℕ := 2048

structure PageQuery where
  cursor : Option String
  limit : Option ℕ
deriving DecidableEq, Repr

def PageQuery.effectiveLimit (q : PageQuery) : ℕ := q.limit.getD defaultPageSize

def PageQuery.validate (q : PageQuery) : Except WireValidationError Unit := do
  validateOptionalChars "cursor" q.cursor 0 maxCursorChars
  liftDomain (validatePageSize q.effectiveLimit)

structure ListPrincipalsQuery where
  space : String
  page : PageQuery
deriving DecidableEq, Repr

def ListPrincipalsQuery.validate (q : ListPrincipalsQuery) : Except WireValidationError Unit := do
  liftDomain (validateIdentifier "space" q.space)
  q.page.validate

structure ListRecordsQuery where
  page : PageQuery
  afterSeq : Option UInt64
  author : Option String
  attention : Option String
  kind : Option String
  relation : Option RelationType
deriving DecidableEq, Repr

def ListRecordsQuery.validate (q : ListRecordsQuery) : Except WireValidationError Unit := do
  q.page.validate
  liftDomain (validateOptional "author" q.author)
  liftDomain (validateOptional "attention" q.attention)
  liftDomain (validateOptional "kind" q.kind)

inductive SearchOrder where
  | rank
  | seq
deriving DecidableEq, Repr

structure SearchRecordsQuery where
  q : String
  page : PageQuery
  author : Option String
  attention : Option String
  since : Option String
  order : SearchOrder
deriving DecidableEq, Repr

/-- `parse` reads an RFC 3339 timestamp. -/
def SearchRecordsQuery.validate (parse : String → Option ℤ) (q : SearchRecordsQuery) :
    Except WireValidationError Unit := do
  validateChars "q" q.q 1 512
  q.page.validate
  liftDomain (validateOptional "author" q.author)
  liftDomain (validateOptional "attention" q.attention)
  failIf (q.since.any fun since => (parse since).isNone) (.invalidDateTime "since")

/-- The exponent field of an `f64` is not all ones. -/
def isFinite (bits : ℕ) : Bool := bits / 2 ^ 52 % 2 ^ 11 ≠ 2047

/-- A finite `f64` by its bits. -/
structure Score where
  bits : ℕ
  bounded : bits < 2 ^ 64
  finite : isFinite bits = true
deriving DecidableEq, Repr

/-- `f64::from_bits`, when it is finite. -/
def Score.fromBits (bits : ℕ) : Option Score :=
  if h : bits < 2 ^ 64 ∧ isFinite bits = true then some ⟨bits, h.1, h.2⟩ else none

def Score.zero : Score := ⟨0, by decide, by decide⟩

/-- `f64::MAX`. -/
def Score.max : Score := ⟨2047 * 2 ^ 52 - 1, by decide, by decide⟩

/-- The number times 2^1074, of which every finite `f64` is an integer multiple. -/
def Score.scaled (score : Score) : ℤ :=
  let exponent : ℕ := score.bits / 2 ^ 52 % 2 ^ 11
  let fraction : ℕ := score.bits % 2 ^ 52
  let magnitude : ℕ := if exponent = 0 then fraction else (fraction + 2 ^ 52) * 2 ^ (exponent - 1)
  if score.bits < 2 ^ 63 then magnitude else -magnitude

structure SearchResult where
  record : Record
  score : Score
  snippet : Option String
deriving DecidableEq, Repr

inductive SearchConsistency where
  | bestEffort
  | deterministic
deriving DecidableEq, Repr

inductive InboxState where
  | unacknowledged
  | acknowledged
  | all
deriving DecidableEq, Repr

structure InboxQuery where
  state : InboxState
  page : PageQuery
  waitSeconds : ℕ
deriving DecidableEq, Repr

def maxInboxWaitSeconds : ℕ := 30

def InboxQuery.validate (q : InboxQuery) : Except WireValidationError Unit := do
  q.page.validate
  failIf (q.waitSeconds > maxInboxWaitSeconds) (.range "wait_seconds" 0 maxInboxWaitSeconds)

structure InboxItem where
  inboxItemId : String
  recipient : String
  seq : ℤ
  createdAt : String
  acknowledgedAt : Option String
  record : Record
deriving DecidableEq, Repr

inductive CursorRoute where
  | principals
  | spaces
  | records
  | search
  | recordThread
  | recordDeliveryStatus
  | inbox
deriving DecidableEq, Repr

inductive CursorOrder where
  | identifier
  | sequence
  | rank
  | boundedSequence
deriving DecidableEq, Repr

inductive CursorPosition where
  | identifier (id : String)
  | sequence (sequence : ℕ) (id : String)
  | rank (scoreBits : ℕ) (id : String)
  | boundedSequence (sequence upperBound : ℕ)
deriving DecidableEq, Repr

structure CursorPayload where
  version : ℕ
  route : CursorRoute
  filter : String
  order : CursorOrder
  position : CursorPosition
deriving DecidableEq, Repr

structure Page (α : Type) where
  items : List α
  nextCursor : Option String
deriving DecidableEq, Repr

structure SearchPage where
  items : List SearchResult
  nextCursor : Option String
  order : SearchOrder
  consistency : Option SearchConsistency
deriving DecidableEq, Repr

end AgentJournal.Domain
