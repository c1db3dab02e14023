import AgentJournal.Domain.Cursor
import AgentJournal.Service.Bootstrap

/-! # Appending and reading records -/

namespace AgentJournal.Service
open Domain Foundation Storage

/-- Stored in place of an append response, which is rebuilt from the rows of its record. -/
def rebuiltAppendResponse : String := "\x7b\x7d"

/-- `sort()` and `ORDER BY` of texts: both compare bytes. -/
def sortTexts (texts : List String) : List String := texts.insertionSort (· ≤ ·)

section Queries
variable (c : Central)

def permits (principal space : String) (append : Bool) : Bool :=
  c.principals.any fun p => p.id = principal && p.disabledAt.isNone &&
    c.spaces.any fun s => s.id = space && s.access = .publicAccess &&
      (!append || s.archivedAt.isNone)

def attentionOf (id : String) : List String :=
  sortTexts ((c.attention.filter fun a => a.recordId = id).map (·.recipientPrincipalId))

/-- `ORDER BY position,rowid`. -/
def relationsOf (id : String) : List Relation :=
  ((c.recordRelations.filter fun r => r.sourceRecordId = id).insertionSort
    fun a b => a.position ≤ b.position).map fun r => ⟨r.relationType, r.targetRecordId⟩

def recordOf (id : String) : Option Record :=
  (c.findRecord id).map fun r => ⟨r.id, r.spaceId, r.spaceSeq, r.authorPrincipalId, r.kind,
    r.content, r.runId, r.createdAt, attentionOf c id, r.routingKey, relationsOf c id, r.title⟩

def findIdempotencyKey (principal path key : String) : Option IdempotencyKeyRow :=
  c.idempotencyKeys.find? fun r =>
    r.principalId = principal && r.method = "POST" && r.path = path && r.idempotencyKey = key

/-- An older record of this space. -/
def hasOlder (id space : String) (seq : ℤ) : Bool :=
  c.records.any fun r => r.id = id && r.spaceId = space && r.spaceSeq < seq

end Queries

def permitted (principal space : String) (append : Bool) : Tx Unit := do
  let allowed ← query fun c => permits c principal space append
  refuse (allowed = false) .notFound

def record (id : String) : Tx Record := do
  let found ← query fun c => recordOf c id
  okOr found .notFound

section Operations
variable (P : Platform)

def bearerShape (token : String) : Bool :=
  (asBytes token).length = 64 && (asBytes token).all isAsciiHexdigit

def journalActor (token : String) : Tx String := do
  refuse (bearerShape token = false) .unauthorized
  let now ← now P
  let row ← query fun c => c.credentials.find? fun r => r.tokenHash = P.digest token &&
    r.credentialClass = .principalClient && live P now r &&
    c.principals.any fun p => p.id = r.principalId && p.disabledAt.isNone
  let row ← okOr row .unauthorized
  return row.principalId

/-- Resolves a live credential without loading mutable principal state, so that a committed
response can be replayed after a later profile or disable change. -/
def appendReplayActor (token : String) : Tx String := do
  refuse (bearerShape token = false) .unauthorized
  let now ← now P
  let row ← query fun c => c.credentials.find? fun r => r.tokenHash = P.digest token &&
    r.credentialClass = .principalClient && live P now r
  let row ← okOr row .unauthorized
  return row.principalId

/-- The stored cursor key, or a new one. -/
def cursorSecret : Option (List UInt8) → Tx (List UInt8)
  | some secret => return secret
  | none => do
    let bytes ← fill
    let _ ← insert fun c => c.insertJournalSecret bytes.toList
    return bytes.toList

def cursorCodec : Tx CursorCodec := do
  let stored ← query (·.journalSecret)
  let secret ← cursorSecret stored
  attempt (match CursorCodec.new P secret with
    | .ok codec => .ok codec
    | .error _ => .error .corruptJournal)

/-- Who reads: a bearer, or the principal the host configured for its viewer. -/
inductive ReadIdentity where
  | bearer (token : String)
  | configuredViewer (principal : String)
deriving DecidableEq, Repr

def readActor : ReadIdentity → Tx String
  | .bearer token => journalActor P token
  | .configuredViewer principal => do
    attempt (match validateIdentifier "viewer" principal with
      | .ok _ => .ok ()
      | .error _ => .error .invalidJournal)
    activePrincipal principal

/-- A search is permitted in its space before anything else. -/
def permittedSearch (actor : String) : Option String → Tx Unit
  | some space => permitted actor space false
  | none => return ()

/-- The lazily created key of a paged read by an authenticated caller. -/
def initializeCursorKey (identity : ReadIdentity) (space : Option String) : Tx CursorCodec := do
  let actor ← readActor P identity
  permittedSearch actor space
  cursorCodec P

/-- A handle or id of an active principal that may read the space. -/
def resolveRecipient (space recipient : String) : Tx String := do
  let principal ← activePrincipal recipient
  permitted principal space false
  return principal

def requireTarget (actor space : String) (seq : ℤ) (relation : Relation) : Tx Unit := do
  permitted actor space false
  let known ← query fun c => hasOlder c relation.recordId space seq
  refuse (known = false) .notFound

def storeRelation (id now : String) (relation : Relation × ℕ) : Tx Unit := do
  let _ ← insert fun c => c.insertRecordRelation
    ⟨id, relation.1.relationType, relation.1.recordId, now, relation.2⟩
  return ()

/-- The attention row of one recipient with its mailbox item under the next sequence. -/
def deliver (id now recipient : String) : Tx Unit := do
  let _ ← insert fun c => c.insertAttention ⟨id, recipient, now⟩
  checkpoint "append-attention"
  let _ ← insert fun c => c.upsertInboxSequence (fun last _ => last + 1) ⟨recipient, 1⟩
  let seq ← queryRow fun c => c.lastSeq recipient
  checkpoint "append-inbox-sequence"
  let suffix ← secret
  let _ ← insert fun c => c.insertMailboxItem ⟨"item-" ++ suffix, id, recipient, now, seq, none⟩
  checkpoint "append-mailbox"

def replayAppend (hash : String) (previous : IdempotencyKeyRow) : Tx AppendResult := do
  refuse (previous.payloadHash ≠ hash) .idempotencyConflict
  if previous.responseJson = rebuiltAppendResponse then do
    let record ← record previous.recordId
    return ⟨record, record.attention.length, true⟩
  else do
    let result ← okOr (P.decodeAppendResult previous.responseJson) .corruptJournal
    return { result with replayed := true }

/-- Titles are normalized after the hash was taken from the submitted bytes. -/
def storeAppend (token space path key hash : String) (input : RecordInput) :
    Tx AppendResult := do
  let actor ← journalActor P token
  permitted actor space true
  let _ ← cursorCodec P
  let recipients ← input.attention.mapM (resolveRecipient space)
  let title := normalizeTitle input.title
  attempt (match RecordInput.validate { input with attention := recipients, title := title } with
    | .ok _ => .ok ()
    | .error _ => .error .invalidJournal)
  let last ← query fun c => c.maxSpaceSeq space
  let seq ← integerColumn (last + 1)
  checkpoint "append-sequence"
  input.relations.forM (requireTarget actor space seq)
  let time ← instant
  let now ← attempt (timestamp P time)
  let id ← recordId time
  let _ ← insert fun c => c.insertRecord ⟨id, space, seq, actor, input.kind, input.content,
    input.runId, input.routingKey, title, now⟩
  checkpoint "append-record"
  input.relations.zipIdx.forM (storeRelation id now)
  checkpoint "append-relations"
  let attention := sortTexts recipients
  attention.forM (deliver id now)
  let _ ← insert fun c => c.insertIdempotencyKey
    ⟨actor, "POST", path, key, hash, id, rebuiltAppendResponse, now⟩
  checkpoint "append-idempotency"
  return ⟨⟨id, space, seq, actor, input.kind, input.content, input.runId, now, attention,
    input.routingKey, input.relations, title⟩, recipients.length, false⟩

def appendPath (space : String) : String := "/v1/spaces/" ++ space ++ "/records"

/-- The durable idempotency hash preserves the submitted handle spelling and ordering; names
are resolved only after the append is known to be new. -/
def appendRecord (token space key : String) (input : RecordInput) : Tx AppendResult := do
  refuse (¬(1 ≤ charCount key ∧ charCount key ≤ 255)) .invalidJournal
  let actor ← appendReplayActor P token
  let previous ← query fun c => findIdempotencyKey c actor (appendPath space) key
  match previous with
  | some row => replayAppend P (P.payloadHash input) row
  | none => storeAppend P token space (appendPath space) key (P.payloadHash input) input

end Operations
end AgentJournal.Service
