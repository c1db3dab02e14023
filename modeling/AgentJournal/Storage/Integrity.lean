import AgentJournal.Storage.Outcomes
import AgentJournal.Storage.Verify

/-! # Integrity that every statement keeps

The constraints of every table, the foreign keys, the reservation of names against ids, the
full-text index and the age of relation targets hold after each single statement. -/

namespace AgentJournal.Storage
open Domain Foundation Schema

/-- Every foreign key has its parent row. -/
structure References (c : Central) : Prop where
  credentials : ∀ r ∈ c.credentials, c.hasPrincipal r.principalId = true ∧
    r.replacementCredentialId.all c.hasCredential = true
  registrationReceipts : ∀ r ∈ c.registrationReceipts, c.hasTokenHash r.tokenHash = true ∧
    c.hasCredential r.credentialId = true ∧ c.hasPrincipal r.principalId = true
  memberships : ∀ r ∈ c.memberships,
    c.hasSpace r.spaceId = true ∧ c.hasPrincipal r.principalId = true
  records : ∀ r ∈ c.records,
    c.hasSpace r.spaceId = true ∧ c.hasPrincipal r.authorPrincipalId = true
  recordRelations : ∀ r ∈ c.recordRelations,
    c.hasRecord r.sourceRecordId = true ∧ c.hasRecord r.targetRecordId = true
  attention : ∀ r ∈ c.attention,
    c.hasRecord r.recordId = true ∧ c.hasPrincipal r.recipientPrincipalId = true
  idempotencyKeys : ∀ r ∈ c.idempotencyKeys,
    c.hasPrincipal r.principalId = true ∧ c.hasRecord r.recordId = true
  inboxSequences : ∀ r ∈ c.inboxSequences, c.hasPrincipal r.recipientPrincipalId = true
  mailboxItems : ∀ r ∈ c.mailboxItems,
    c.hasRecord r.recordId = true ∧ c.hasPrincipal r.recipientPrincipalId = true
  credentialAudit : ∀ r ∈ c.credentialAudit, c.hasCredential r.credentialId = true
  principalNames : ∀ r ∈ c.principalNames, c.hasPrincipal r.principalId = true
  profileIdempotencyKeys : ∀ r ∈ c.profileIdempotencyKeys, c.hasPrincipal r.principalId = true

theorem foreignKeyCheck_iff (c : Central) : c.foreignKeyCheck = true ↔ References c := by
  simp only [Central.foreignKeyCheck, Bool.and_eq_true, List.all_eq_true, and_assoc]
  constructor
  · rintro ⟨h₁, h₂, h₃, h₄, h₅, h₆, h₇, h₈, h₉, h₁₀, h₁₁, h₁₂⟩
    exact ⟨h₁, h₂, h₃, h₄, h₅, h₆, h₇, h₈, h₉, h₁₀, h₁₁, h₁₂⟩
  · intro h
    exact ⟨h.credentials, h.registrationReceipts, h.memberships, h.records, h.recordRelations,
      h.attention, h.idempotencyKeys, h.inboxSequences, h.mailboxItems, h.credentialAudit,
      h.principalNames, h.profileIdempotencyKeys⟩

/-- No parent row of the first database is missing in the second. -/
structure Parents (c d : Central) : Prop where
  principal : ∀ id, c.hasPrincipal id = true → d.hasPrincipal id = true
  space : ∀ id, c.hasSpace id = true → d.hasSpace id = true
  credential : ∀ id, c.hasCredential id = true → d.hasCredential id = true
  tokenHash : ∀ hash, c.hasTokenHash hash = true → d.hasTokenHash hash = true
  record : ∀ id, c.hasRecord id = true → d.hasRecord id = true

theorem Parents.refl (c : Central) : Parents c c := by constructor <;> exact fun _ => id

theorem Parents.replacement {c d : Central} (h : Parents c d) {r : CredentialRow}
    (hr : r.replacementCredentialId.all c.hasCredential = true) :
    r.replacementCredentialId.all d.hasCredential = true := by
  cases hid : r.replacementCredentialId with
  | none => rfl
  | some id =>
    rw [hid] at hr
    exact h.credential id hr

/-- Foreign keys survive a change of the parent tables that loses no parent. -/
theorem References.reparent {c : Central} {p : List PrincipalRow} {q : List CredentialRow}
    {s : List SpaceRow} {r : List RecordRow} {f : List FtsRow} (h : References c)
    (hp : Parents c { c with principals := p, credentials := q, spaces := s, records := r,
                             recordsFts := f })
    (hq : ∀ x ∈ q, x ∈ c.credentials ∨ (p.any (·.id = x.principalId) = true ∧
      x.replacementCredentialId.all (fun id => q.any (·.id = id)) = true))
    (hr : ∀ x ∈ r, x ∈ c.records ∨
      (s.any (·.id = x.spaceId) = true ∧ p.any (·.id = x.authorPrincipalId) = true)) :
    References { c with principals := p, credentials := q, spaces := s, records := r,
                        recordsFts := f } where
  credentials x hx := (hq x hx).elim
    (fun hx => ⟨hp.principal _ (h.credentials x hx).1, hp.replacement (h.credentials x hx).2⟩) id
  registrationReceipts x hx := ⟨hp.tokenHash _ (h.registrationReceipts x hx).1,
    hp.credential _ (h.registrationReceipts x hx).2.1,
    hp.principal _ (h.registrationReceipts x hx).2.2⟩
  memberships x hx := ⟨hp.space _ (h.memberships x hx).1, hp.principal _ (h.memberships x hx).2⟩
  records x hx := (hr x hx).elim
    (fun hx => ⟨hp.space _ (h.records x hx).1, hp.principal _ (h.records x hx).2⟩) id
  recordRelations x hx := ⟨hp.record _ (h.recordRelations x hx).1,
    hp.record _ (h.recordRelations x hx).2⟩
  attention x hx := ⟨hp.record _ (h.attention x hx).1, hp.principal _ (h.attention x hx).2⟩
  idempotencyKeys x hx := ⟨hp.principal _ (h.idempotencyKeys x hx).1,
    hp.record _ (h.idempotencyKeys x hx).2⟩
  inboxSequences x hx := hp.principal _ (h.inboxSequences x hx)
  mailboxItems x hx := ⟨hp.record _ (h.mailboxItems x hx).1, hp.principal _ (h.mailboxItems x hx).2⟩
  credentialAudit x hx := hp.credential _ (h.credentialAudit x hx)
  principalNames x hx := hp.principal _ (h.principalNames x hx)
  profileIdempotencyKeys x hx := hp.principal _ (h.profileIdempotencyKeys x hx)

/-- A relation points to an older record of the same space. -/
def RelationsOlder (c : Central) : Prop := ∀ r ∈ c.recordRelations, ∃ s ∈ c.records,
  ∃ t ∈ c.records, s.id = r.sourceRecordId ∧ t.id = r.targetRecordId ∧ t.spaceId = s.spaceId ∧
    t.spaceSeq < s.spaceSeq

/-- What every single statement keeps. -/
structure WellFormed (P : Platform) (c : Central) : Prop where
  tables : c.TablesValid P
  references : References c
  /-- No principal name is the id of a principal. -/
  names : ∀ n ∈ c.principalNames, c.hasPrincipal n.name = false
  indexed : c.recordsFts = c.records.map RecordRow.fts
  relations : RelationsOlder c

theorem wellFormed_baseline (P : Platform) (journalId : String) :
    WellFormed P (.baseline journalId) where
  tables :=
    ⟨.nil, .nil, .nil, .nil, .nil, .nil, .nil, .nil, .nil, .nil, .nil, .nil, .nil, .nil, .nil,
    by simp [Central.baseline]⟩
  references := by constructor <;> simp [Central.baseline]
  names := by simp [Central.baseline]
  indexed := rfl
  relations := by simp [RelationsOlder, Central.baseline]

end AgentJournal.Storage
