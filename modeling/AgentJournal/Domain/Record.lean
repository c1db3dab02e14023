import AgentJournal.Domain.Text

/-! # Journal domain types and their validation

The records a principal appends, what a reader gets back, and the checks that every
append passes before it is stored.
-/

namespace AgentJournal.Domain
open Foundation

structure Principal where
  id : String
  handle : String
  displayName : String
  description : Option String
  profileRevision : ℤ
  createdAt : String
  disabled : Bool
deriving DecidableEq, Repr

inductive RelationType where
  | replyTo
  | supersedes
  | tombstones
  | refersTo
  | acknowledges
deriving DecidableEq, Repr

def RelationType.asStr : RelationType → String
  | .replyTo => "reply-to"
  | .supersedes => "supersedes"
  | .tombstones => "tombstones"
  | .refersTo => "refers-to"
  | .acknowledges => "acknowledges"

def relationTypes : List RelationType :=
  [.replyTo, .supersedes, .tombstones, .refersTo, .acknowledges]

structure Relation where
  relationType : RelationType
  recordId : String
deriving DecidableEq, Repr

structure RecordInput where
  kind : String
  content : String
  runId : Option String
  attention : List String
  routingKey : Option String
  relations : List Relation
  title : Option String
deriving DecidableEq, Repr

structure Record where
  id : String
  spaceId : String
  seq : ℤ
  author : String
  kind : String
  content : String
  runId : Option String
  createdAt : String
  attention : List String
  routingKey : Option String
  relations : List Relation
  title : Option String
deriving DecidableEq, Repr

structure AppendResult where
  record : Record
  mailboxCreated : ℕ
  replayed : Bool
deriving DecidableEq, Repr

def maxContentBytes : ℕ := 64 * 1024
def maxRelations : ℕ := 32
def maxAttentionRecipients : ℕ := 16
def maxPageSize : ℕ := 100
def maxIdentifierChars : ℕ := 128
def maxTitleChars : ℕ := 200

inductive ValidationError where
  | invalidIdentifier (field : String)
  | emptyContent
  | contentTooLarge (max : ℕ)
  | tooManyRelations (max : ℕ)
  | tooManyAttention (max : ℕ)
  | duplicateAttention (principal : String)
  | multipleReplyTo (relationType : RelationType)
  | invalidPageSize (max : ℕ)
  | invalidTitle
  | titleControlCharacters
deriving DecidableEq, Repr

def validateIdentifier (field value : String) : Except ValidationError Unit :=
  failIf (value = "" ∨ charCount value > maxIdentifierChars) (.invalidIdentifier field)

def validatePageSize (size : ℕ) : Except ValidationError Unit :=
  failIf (¬(1 ≤ size ∧ size ≤ maxPageSize)) (.invalidPageSize maxPageSize)

/-- Trim Unicode whitespace; an empty title is no title. -/
def normalizeTitle (raw : Option String) : Option String :=
  raw.bind fun title => if trim title = "" then none else some (trim title)

def validateTitle (title : String) : Except ValidationError Unit := do
  failIf (charCount title > maxTitleChars) .invalidTitle
  failIf (title.toList.any isControl) .titleControlCharacters

/-- The loop over `attention`: each recipient is an identifier not seen before. -/
def validateAttention : List String → List String → Except ValidationError Unit
  | _, [] => .ok ()
  | seen, principal :: rest => do
    validateIdentifier "attention principal" principal
    failIf (principal ∈ seen) (.duplicateAttention principal)
    validateAttention (principal :: seen) rest

/-- The loop over `relations`, counting the reply-to edges. -/
def validateRelations : ℕ → List Relation → Except ValidationError Unit
  | _, [] => .ok ()
  | replyToCount, relation :: rest => do
    validateIdentifier "relation record" relation.recordId
    let count := if relation.relationType = .replyTo then replyToCount + 1 else replyToCount
    failIf (relation.relationType = .replyTo ∧ count > 1) (.multipleReplyTo .replyTo)
    validateRelations count rest

/-- An optional text is checked only when it is present and not empty. -/
def validateOptional (field : String) : Option String → Except ValidationError Unit
  | none => .ok ()
  | some text => if text = "" then .ok () else validateIdentifier field text

def validateOptionalTitle : Option String → Except ValidationError Unit
  | none => .ok ()
  | some title => validateTitle title

def RecordInput.validate (input : RecordInput) : Except ValidationError Unit := do
  validateIdentifier "kind" input.kind
  failIf (input.content = "") .emptyContent
  failIf (input.content.utf8ByteSize > maxContentBytes) (.contentTooLarge maxContentBytes)
  failIf (input.relations.length > maxRelations) (.tooManyRelations maxRelations)
  failIf (input.attention.length > maxAttentionRecipients)
    (.tooManyAttention maxAttentionRecipients)
  validateAttention [] input.attention
  validateOptional "run_id" input.runId
  validateRelations 0 input.relations
  validateOptional "routing_key" input.routingKey
  validateOptionalTitle (normalizeTitle input.title)

end AgentJournal.Domain
