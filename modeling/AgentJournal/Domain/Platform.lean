import AgentJournal.Domain.Wire

/-! # What the program takes from outside the repository

The hash, JSON, base64, timestamp and SQLite date functions are library code. They are
parameters of the model; what a result relies on is a hypothesis of that result.
-/

namespace AgentJournal.Domain

structure Platform where
  /-- `Sha256::digest`. -/
  sha256 : List UInt8 → List UInt8
  /-- HMAC-SHA-256 of a message under a key. -/
  hmacSha256 : List UInt8 → List UInt8 → List UInt8
  /-- `URL_SAFE_NO_PAD`. -/
  base64Encode : List UInt8 → String
  base64Decode : String → Option (List UInt8)
  /-- `jiff::Timestamp::from_second(..).to_string()`. -/
  timestampText : ℤ → Option String
  /-- `julianday(a) > julianday(b)`. -/
  juliandayAfter : String → String → Bool
  /-- `json_valid(x)=1 AND json_type(x)='object'`. -/
  jsonObject : String → Bool
  /-- `serde_json` encodings and the strict decoder of the protocol crate. -/
  recordInputJson : RecordInput → List UInt8
  registrationRequestJson : RegistrationRequest → String
  registrationReceiptJson : RegistrationReceipt → String
  decodeRegistrationReceipt : String → Option RegistrationReceipt
  profileUpdateJson : ProfileUpdateRequest → String
  principalJson : Principal → String
  decodePrincipal : String → Option Principal
  decodeAppendResult : String → Option AppendResult
  profileDetailJson : String → String → ℤ → ℤ → String
  recoveryDetailJson : Option String → String
  inboxFilterJson : String → InboxState → ℤ → List UInt8
  spacesFilterJson : String → List UInt8
  principalsFilterJson : String → String → List UInt8
  recordsFilterJson : String → String → UInt64 → Option String → Option String → Option String →
    Option RelationType → List UInt8
  searchFilterJson : String → String → String → Option String → Option String → Option String →
    List UInt8
  threadFilterJson : String → String → List UInt8
  cursorPayloadJson : CursorPayload → List UInt8
  decodeCursorPayload : List UInt8 → Option CursorPayload
  /-- `jiff::Timestamp` in nanoseconds. -/
  parseTimestamp : String → Option ℤ
  /-- `unixepoch(created_at)`. -/
  unixepoch : String → Option ℤ
  /-- The contents that a full-text query matches, unless its syntax is rejected. -/
  ftsQuery : String → Option (String → Bool)
  /-- The number of highlighted spans of a content. -/
  ftsScore : String → String → Score
  ftsSnippet : String → String → String

namespace Platform
variable (P : Platform)

/-- `hex(&Sha256::digest(secret.as_bytes()))`. -/
def digest (secret : String) : String := hex (P.sha256 (asBytes secret))

/-- The durable idempotency hash of an append. -/
def payloadHash (input : RecordInput) : String := hex (P.sha256 (P.recordInputJson input))

/-- A platform for concrete runs. Its texts are those of the libraries for the epoch and for
objects without members; hashes are the identity. -/
def plain : Platform where
  sha256 bytes := bytes
  hmacSha256 key message := key ++ message
  base64Encode := hex
  base64Decode _ := none
  timestampText seconds := if seconds = 0 then some "1970-01-01T00:00:00Z" else none
  juliandayAfter a b := b < a
  jsonObject text := text.toList.head? = some '\x7b'
  recordInputJson input := asBytes input.content
  registrationRequestJson _ := "\x7b\x7d"
  registrationReceiptJson _ := "\x7b\x7d"
  decodeRegistrationReceipt _ := none
  profileUpdateJson _ := "\x7b\x7d"
  principalJson _ := "\x7b\x7d"
  decodePrincipal _ := none
  decodeAppendResult _ := none
  profileDetailJson _ _ _ _ := "\x7b\x7d"
  recoveryDetailJson _ := "\x7b\x7d"
  inboxFilterJson principal _ _ := asBytes principal
  spacesFilterJson actor := asBytes actor
  principalsFilterJson actor _ := asBytes actor
  recordsFilterJson actor _ _ _ _ _ _ := asBytes actor
  searchFilterJson actor _ _ _ _ _ := asBytes actor
  threadFilterJson actor _ := asBytes actor
  cursorPayloadJson payload := asBytes payload.filter
  decodeCursorPayload _ := none
  parseTimestamp _ := none
  unixepoch text := if text = "1970-01-01T00:00:00Z" then some 0 else none
  ftsQuery _ := none
  ftsScore _ _ := .max
  ftsSnippet _ content := content

end Platform
end AgentJournal.Domain
