import AgentJournal.Foundation.Numerals
import AgentJournal.Storage.Statements

/-! # The probes of a recovery verification

`verify` refuses a database whose tables disagree with each other and otherwise returns
row counts, hashes of every ordinary table and the newest sequence of every space.
-/

namespace AgentJournal.Foundation.Schema
variable {α κ : Type*} [DecidableEq κ] (T : Schema α κ)

theorem valid_iff (rows : List α) : T.Valid rows ↔ (∀ r ∈ rows, T.check r = true) ∧
    (rows.Pairwise fun a b => T.key a ≠ T.key b) ∧
    (rows.Pairwise fun a b => T.collides a b = false) :=
  ⟨fun h => ⟨h.checked, h.keys, h.uniques⟩, fun ⟨h₁, h₂, h₃⟩ => ⟨h₁, h₂, h₃⟩⟩

instance (rows : List α) : Decidable (T.Valid rows) := decidable_of_iff _ (T.valid_iff rows).symm

end AgentJournal.Foundation.Schema

namespace AgentJournal.Storage
open Domain Foundation

/-- `PRAGMA integrity_check`: every table meets the constraints of its schema. -/
structure Central.TablesValid (P : Platform) (c : Central) : Prop where
  principals : Storage.principals.Valid c.principals
  principalNames : Storage.principalNames.Valid c.principalNames
  credentials : Storage.credentials.Valid c.credentials
  registrationReceipts : (Storage.registrationReceipts P).Valid c.registrationReceipts
  spaces : Storage.spaces.Valid c.spaces
  memberships : Storage.memberships.Valid c.memberships
  profileIdempotencyKeys : Storage.profileIdempotencyKeys.Valid c.profileIdempotencyKeys
  credentialAudit : Storage.credentialAudit.Valid c.credentialAudit
  auditEvents : Storage.auditEvents.Valid c.auditEvents
  records : Storage.records.Valid c.records
  recordRelations : Storage.recordRelations.Valid c.recordRelations
  attention : Storage.attention.Valid c.attention
  idempotencyKeys : Storage.idempotencyKeys.Valid c.idempotencyKeys
  inboxSequences : Storage.inboxSequences.Valid c.inboxSequences
  mailboxItems : Storage.mailboxItems.Valid c.mailboxItems
  journalSecret : ∀ secret ∈ c.journalSecret, secret.length = 32

namespace Central
variable (c : Central)

def integrityCheck (P : Platform) : Bool :=
  decide (Storage.principals.Valid c.principals) &&
  decide (Storage.principalNames.Valid c.principalNames) &&
  decide (Storage.credentials.Valid c.credentials) &&
  decide ((Storage.registrationReceipts P).Valid c.registrationReceipts) &&
  decide (Storage.spaces.Valid c.spaces) &&
  decide (Storage.memberships.Valid c.memberships) &&
  decide (Storage.profileIdempotencyKeys.Valid c.profileIdempotencyKeys) &&
  decide (Storage.credentialAudit.Valid c.credentialAudit) &&
  decide (Storage.auditEvents.Valid c.auditEvents) &&
  decide (Storage.records.Valid c.records) &&
  decide (Storage.recordRelations.Valid c.recordRelations) &&
  decide (Storage.attention.Valid c.attention) &&
  decide (Storage.idempotencyKeys.Valid c.idempotencyKeys) &&
  decide (Storage.inboxSequences.Valid c.inboxSequences) &&
  decide (Storage.mailboxItems.Valid c.mailboxItems) &&
  (c.journalSecret.all fun secret => secret.length = 32)

theorem integrityCheck_iff (P : Platform) : c.integrityCheck P = true ↔ c.TablesValid P := by
  simp only [integrityCheck, Bool.and_eq_true, decide_eq_true_eq, Option.all_eq_true]
  constructor
  · rintro ⟨⟨⟨⟨⟨⟨⟨⟨⟨⟨⟨⟨⟨⟨⟨h₁, h₂⟩, h₃⟩, h₄⟩, h₅⟩, h₆⟩, h₇⟩, h₈⟩, h₉⟩, h₁₀⟩, h₁₁⟩, h₁₂⟩, h₁₃⟩, h₁₄⟩,
      h₁₅⟩, h₁₆⟩
    exact ⟨h₁, h₂, h₃, h₄, h₅, h₆, h₇, h₈, h₉, h₁₀, h₁₁, h₁₂, h₁₃, h₁₄, h₁₅, h₁₆⟩
  · intro h
    exact ⟨⟨⟨⟨⟨⟨⟨⟨⟨⟨⟨⟨⟨⟨⟨h.principals, h.principalNames⟩, h.credentials⟩, h.registrationReceipts⟩,
      h.spaces⟩, h.memberships⟩, h.profileIdempotencyKeys⟩, h.credentialAudit⟩, h.auditEvents⟩,
      h.records⟩, h.recordRelations⟩, h.attention⟩, h.idempotencyKeys⟩, h.inboxSequences⟩,
      h.mailboxItems⟩, h.journalSecret⟩

/-- `pragma_foreign_key_check` reports no row. -/
def foreignKeyCheck : Bool :=
  (c.credentials.all fun r =>
    c.hasPrincipal r.principalId && r.replacementCredentialId.all c.hasCredential) &&
  (c.registrationReceipts.all fun r =>
    c.hasTokenHash r.tokenHash && c.hasCredential r.credentialId && c.hasPrincipal r.principalId) &&
  (c.memberships.all fun r => c.hasSpace r.spaceId && c.hasPrincipal r.principalId) &&
  (c.records.all fun r => c.hasSpace r.spaceId && c.hasPrincipal r.authorPrincipalId) &&
  (c.recordRelations.all fun r => c.hasRecord r.sourceRecordId && c.hasRecord r.targetRecordId) &&
  (c.attention.all fun r => c.hasRecord r.recordId && c.hasPrincipal r.recipientPrincipalId) &&
  (c.idempotencyKeys.all fun r => c.hasPrincipal r.principalId && c.hasRecord r.recordId) &&
  (c.inboxSequences.all fun r => c.hasPrincipal r.recipientPrincipalId) &&
  (c.mailboxItems.all fun r => c.hasRecord r.recordId && c.hasPrincipal r.recipientPrincipalId) &&
  (c.credentialAudit.all fun r => c.hasCredential r.credentialId) &&
  (c.principalNames.all fun r => c.hasPrincipal r.principalId) &&
  (c.profileIdempotencyKeys.all fun r => c.hasPrincipal r.principalId)

/-- "FTS content probe failed" when false. -/
def ftsProbe : Bool :=
  (c.records.all fun r => r.fts ∈ c.recordsFts) &&
  (c.recordsFts.all fun f => c.records.any fun r => r.fts = f) &&
  c.records.length = c.recordsFts.length

/-- "sequence probe failed" when false: in every space with a record, `min(space_seq)=1` and
`max(space_seq)=count(*)`. -/
def sequenceProbe : Bool :=
  c.records.all fun r =>
    let seqs := (c.records.filter fun s => s.spaceId = r.spaceId).map (·.spaceSeq)
    seqs.foldl min r.spaceSeq = 1 && seqs.foldl max r.spaceSeq = seqs.length

/-- "mailbox attention probe failed" when false. -/
def mailboxAttentionProbe : Bool :=
  (c.attention.all fun a => c.mailboxItems.any fun m =>
    m.recordId = a.recordId && m.recipientPrincipalId = a.recipientPrincipalId) &&
  (c.mailboxItems.all fun m => c.attention.any fun a =>
    a.recordId = m.recordId && a.recipientPrincipalId = m.recipientPrincipalId)

/-- "inbox allocation probe failed" when false. -/
def inboxAllocationProbe : Bool :=
  (c.mailboxItems.all fun m =>
    ((c.inboxSequences.filter fun h => h.recipientPrincipalId = m.recipientPrincipalId) ≠ []) &&
    ((c.inboxSequences.filter fun h => h.recipientPrincipalId = m.recipientPrincipalId).all
      fun h => m.recipientSeq ≤ h.lastSeq && 0 < m.recipientSeq)) &&
  (c.inboxSequences.all fun h => 0 < h.lastSeq)

end Central

/-- A stored value as SQLite types it; a real is given by its bits. -/
inductive Value where
  | null
  | integer (value : ℤ)
  | real (bits : ℕ)
  | text (value : List UInt8)
  | blob (value : List UInt8)
deriving DecidableEq, Repr

def Cell.value : Cell → Value
  | .null => .null
  | .integer v => .integer v
  | .text s => .text (asBytes s)

/-- `u64::to_be_bytes`; an `i64` is first taken modulo 2^64. -/
def toBeBytes (n : ℕ) : List UInt8 :=
  (List.range 8).reverse.map fun i => UInt8.ofNat (n / 256 ^ i % 256)

theorem toBeBytes_eq_numeral (n : ℕ) : toBeBytes n = numeral 256 UInt8.ofNat 8 n := by
  simp only [toBeBytes, numeral, List.range_succ, List.range_zero, List.nil_append,
    List.reverse_cons, List.reverse_nil, List.map_cons, List.map_nil, Nat.div_div_eq_div_mul,
    List.cons_append, Nat.reducePow, Nat.reduceMul, Nat.div_one]

@[simp] theorem length_toBeBytes (n : ℕ) : (toBeBytes n).length = 8 := by
  simp [toBeBytes]

theorem ofNat_byte_inj (i j : ℕ) (hi : i < 256) (hj : j < 256) (h : UInt8.ofNat i = UInt8.ofNat j) :
    i = j := by
  have hnat := congrArg UInt8.toNat h
  rwa [UInt8.toNat_ofNat', UInt8.toNat_ofNat', Nat.mod_eq_of_lt hi, Nat.mod_eq_of_lt hj] at hnat

theorem toBeBytes_inj {n m : ℕ} (hn : n < 2 ^ 64) (hm : m < 2 ^ 64)
    (h : toBeBytes n = toBeBytes m) :
    n = m := by
  rw [toBeBytes_eq_numeral, toBeBytes_eq_numeral] at h
  exact numeral_inj ofNat_byte_inj (by simpa using hn) (by simpa using hm) h

/-- What `hash_table` feeds to the hash for one value. -/
def Value.stream : Value → List UInt8
  | .null => [0]
  | .integer v => 1 :: toBeBytes (v % 2 ^ 64).toNat
  | .real bits => 2 :: toBeBytes bits
  | .text bytes => 3 :: (toBeBytes bytes.length ++ bytes)
  | .blob bytes => 4 :: (toBeBytes bytes.length ++ bytes)

def rowStream (row : List Value) : List UInt8 := 0xff :: row.flatMap Value.stream

structure TableVerification where
  name : String
  rows : ℕ
  sha256 : String
deriving DecidableEq, Repr

structure RecoveryVerification where
  tables : List TableVerification
  spaceHeads : List (String × ℤ)
deriving DecidableEq, Repr

/-- `rows` are given in `ORDER BY 1,2,..` order. -/
def hashTable (P : Platform) (name : String) (rows : List (List Value)) : TableVerification :=
  ⟨name, rows.length, hex (P.sha256 (rows.flatMap rowStream))⟩

def listing {α : Type} [Row α] (rows : List α) : List (List Value) :=
  (ordered rows).map fun r => (Row.cells r).map Cell.value

/-- `records` with its three import columns, which are NULL in every row. -/
def recordListing (rows : List RecordRow) : List (List Value) :=
  (listing rows).map (· ++ [.null, .null, .null])

/-- Every ordinary table in name order. -/
def Central.tables (c : Central) : List (String × List (List Value)) :=
  let a := c.recoveryAnchor
  [("attention", listing c.attention), ("audit_events", listing c.auditEvents),
   ("credential_audit", listing c.credentialAudit), ("credentials", listing c.credentials),
   ("idempotency_keys", listing c.idempotencyKeys), ("inbox_sequences", listing c.inboxSequences),
   ("journal_secrets", c.journalSecret.toList.map fun s => [.text (asBytes "cursor"), .blob s]),
   ("mailbox_items", listing c.mailboxItems), ("memberships", listing c.memberships),
   ("principal_names", listing c.principalNames), ("principals", listing c.principals),
   ("profile_idempotency_keys", listing c.profileIdempotencyKeys),
   ("record_relations", listing c.recordRelations), ("records", recordListing c.records),
   ("recovery_anchor", [[.integer 1, .text (asBytes a.journalId), .integer a.revision,
      (Cell.ofBool a.auditRequired).value, .integer a.inboxEpoch]]),
   ("registration_receipts", listing c.registrationReceipts),
   ("schema_contract", [[.integer 1, .integer 13, .text (asBytes "uuid-native-v1")]]),
   ("spaces", listing c.spaces)]

end AgentJournal.Storage
