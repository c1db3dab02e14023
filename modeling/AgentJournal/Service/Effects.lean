import AgentJournal.Domain.Validation
import AgentJournal.Recovery.Restore
import AgentJournal.Recovery.World
import AgentJournal.Service.Inbox

/-! # What a service call writes

Every call is an audited closure and a counted sequence of the writes below; nothing else in the
database changes. The properties of the store are proved once for each write and hold for every
call.
-/

namespace AgentJournal.Service
open Domain Foundation Storage Recovery

/-- The transactions of the service that may write, and the two statements an operator runs. -/
inductive Call where
  | createPrincipal (request : PrincipalCreateRequest)
  | register (token : String) (request : RegistrationRequest)
  | updateOwnProfile (actor : AuthenticatedCredential) (key : String)
      (request : ProfileUpdateRequest)
  | createSpace (request : SpaceCreateRequest)
  | resolveMember (request : MembershipRequest)
  | storeMembership (request : MembershipRequest) (principalId : String)
  | rotate (request : CredentialRotateRequest)
  | revoke (credentialId : String) (reason : Option String)
  | recoverPrincipal (request : PrincipalRecoveryRequest)
  | appendRecord (token space key : String) (input : RecordInput)
  | acknowledgeInboxItem (token item : String)
  | initializeCursorKey (identity : ReadIdentity) (space : Option String)
  | disablePrincipal (id disabledAt : String)
  | archiveSpace (id archivedAt : String)

/-- The transaction of a call; what it returns to its caller is left out. -/
def Call.perform (P : Platform) : Call → Tx Unit
  | .createPrincipal request => do let _ ← Service.createPrincipal P request
  | .register token request => do let _ ← Service.register P token request
  | .updateOwnProfile actor key request => do let _ ← Service.updateOwnProfile P actor key request
  | .createSpace request => do let _ ← Service.createSpace P request
  | .resolveMember request => do let _ ← Service.resolveMember request
  | .storeMembership request principalId => do
    let _ ← Service.storeMembership P request principalId
  | .rotate request => do let _ ← Service.rotate P request
  | .revoke credentialId reason => do let _ ← Service.revoke P credentialId reason
  | .recoverPrincipal request => do let _ ← Service.recoverPrincipal P request
  | .appendRecord token space key input => do let _ ← Service.appendRecord P token space key input
  | .acknowledgeInboxItem token item => Service.acknowledgeInboxItem P token item
  | .initializeCursorKey identity space => do
    let _ ← Service.initializeCursorKey P identity space
  | .disablePrincipal id disabledAt => do let _ ← Service.disablePrincipal id disabledAt
  | .archiveSpace id archivedAt => do let _ ← Service.archiveSpace id archivedAt

/-- A text that the clock wrote. -/
def IsInstant (P : Platform) (text : String) : Prop :=
  ∃ seconds, P.timestampText seconds = some text

section Generated
variable {P : Platform} {s t : Session} {id text : String}

theorem isInstant_of_timestamp {time : ℤ} (h : timestamp P time = .ok text) : IsInstant P text := by
  simp only [timestamp, bind_eq_ok] at h
  obtain ⟨_, -, _, -, h⟩ := h
  split at h
  · rename_i written hwritten
    exact ⟨_, hwritten.trans (congrArg some (Except.ok.inj h))⟩
  · cases h

theorem isInstant_of_now (h : (now P).run s = .ok (text, t)) : IsInstant P text := by
  simp only [now, run_bind_eq_ok, attempt_eq_ok] at h
  obtain ⟨time, _, -, htext, -⟩ := h
  exact isInstant_of_timestamp htext

theorem isIdentifier_uuidText {bytes : List UInt8} (hlength : bytes.length = 16) :
    IsIdentifier (uuidText bytes) := by
  refine ⟨uuidText_ne_empty bytes, ?_⟩
  rw [charCount, uuidText_toList]
  simp [hexChars_length, hlength, maxIdentifierChars]

theorem isIdentifier_of_principalId (h : principalId.run s = .ok (id, t)) : IsIdentifier id := by
  simp only [principalId, run_bind_eq_ok, run_pure_eq_ok] at h
  obtain ⟨_, _, -, _, _, -, _, _, -, _, _, -, rfl, -⟩ := h
  exact isIdentifier_uuidText length_uuidBytes

theorem isIdentifier_of_recordId {time : ℤ} (h : (recordId time).run s = .ok (id, t)) :
    IsIdentifier id := by
  simp only [recordId, run_bind_eq_ok, run_pure_eq_ok] at h
  obtain ⟨_, _, -, _, _, -, rfl, -⟩ := h
  exact isIdentifier_uuidText length_uuidBytes

/-- The id of a mailbox item. -/
theorem isIdentifier_item (h : secret.run s = .ok (text, t)) : IsIdentifier ("item-" ++ text) := by
  simp only [secret, run_bind_eq_ok, run_pure_eq_ok] at h
  obtain ⟨bytes, _, -, rfl, -⟩ := h
  have hprefix : "item-".toList = ['i', 't', 'e', 'm', '-'] := by decide
  refine ⟨fun hempty => ?_, ?_⟩
  · have hlength := congrArg (fun s : String => s.toList.length) hempty
    have hnone : "".toList.length = 0 := rfl
    simp only [String.toList_append, List.length_append, hprefix, List.length_cons] at hlength
    omega
  · rw [charCount, String.toList_append, List.length_append, hprefix]
    simp [hex, hexChars_length, maxIdentifierChars]

end Generated

/-- One statement on the identity, authority and history tables, the cursor key, or an
acknowledgment. -/
inductive Write (P : Platform) (c : Central) : Central → Prop
  | principal {d : Central} (row : PrincipalRow) : IsIdentifier row.id →
      c.insertPrincipal row = .ok d → Write P c d
  | profile {d : Central} {n : ℕ} (p : PrincipalRow → Bool) (f : PrincipalRow → PrincipalRow) :
      (∀ r, (f r).id = r.id) → c.updatePrincipals p f = .ok (n, d) → Write P c d
  | name {d : Central} (row : PrincipalNameRow) : c.insertPrincipalName row = .ok d → Write P c d
  | retired {d : Central} (p : PrincipalNameRow → Bool) : c.retireNames p = .ok d → Write P c d
  | credential {d : Central} (row : CredentialRow) : row.replacementCredentialId = none →
      c.insertCredential row = .ok d → Write P c d
  | revoked {d : Central} (p : CredentialRow → Bool) (f : CredentialRow → CredentialRow) :
      (∀ r, (f r).identity = r.identity ∧ (f r).revokedAt ≠ none) →
      c.updateCredentials p f = .ok d → Write P c d
  | credentialAudit {d : Central} (credentialId : String) (operation : CredentialOperation)
      (occurredAt : String) (reason : Option String) :
      c.insertCredentialAudit credentialId operation occurredAt reason = .ok d → Write P c d
  | receipt {d : Central} (row : RegistrationReceiptRow) :
      c.insertRegistrationReceipt P row = .ok d → Write P c d
  | space {d : Central} (row : SpaceRow) : IsIdentifier row.id → c.insertSpace row = .ok d →
      Write P c d
  | archived {d : Central} (p : SpaceRow → Bool) (f : SpaceRow → SpaceRow) :
      (∀ r, (f r).id = r.id ∧ (f r).name = r.name) → c.updateSpaces p f = .ok d → Write P c d
  | membership {d : Central} (merge : MembershipRow → MembershipRow → MembershipRow)
      (row : MembershipRow) :
      (∀ old new, (merge old new).spaceId = old.spaceId ∧
        (merge old new).principalId = old.principalId) →
      c.upsertMembership merge row = .ok d → Write P c d
  | profileKey {d : Central} (row : ProfileIdempotencyKeyRow) :
      c.insertProfileIdempotencyKey row = .ok d → Write P c d
  | auditEvent {d : Central} (row : AuditEventRow) : c.insertAuditEvent row = .ok d → Write P c d
  | secret {d : Central} (secret : List UInt8) : secret.length = 32 →
      c.insertJournalSecret secret = .ok d → Write P c d
  | acknowledged (item now : String) : IsInstant P now →
      Write P c (c.acknowledgeMailboxItem item now).2

/-- One statement on the tables of records and their delivery. -/
inductive JournalWrite (c : Central) : Central → Prop
  | record {d : Central} (row : RecordRow) : row.id ≠ "" ∧ row.spaceSeq < 2 ^ 63 →
      c.insertRecord row = .ok d → JournalWrite c d
  | relation {d : Central} (row : RecordRelationRow) :
      c.insertRecordRelation row = .ok d → JournalWrite c d
  | attention {d : Central} (row : AttentionRow) : c.insertAttention row = .ok d → JournalWrite c d
  | inboxSequence {d : Central} (recipient : String) :
      c.upsertInboxSequence (fun last _ => last + 1) ⟨recipient, 1⟩ = .ok d → JournalWrite c d
  | mailboxItem {d : Central} (row : MailboxItemRow) : IsIdentifier row.id →
      c.insertMailboxItem row = .ok d → JournalWrite c d
  | idempotencyKey {d : Central} (row : IdempotencyKeyRow) :
      c.insertIdempotencyKey row = .ok d → JournalWrite c d

def StoreWrite (P : Platform) (c d : Central) : Prop := Write P c d ∨ JournalWrite c d

/-- A statement on spaces, memberships, the cursor key or an acknowledgment. -/
inductive SpaceWrite (P : Platform) (c : Central) : Central → Prop
  | space {d : Central} (row : SpaceRow) : IsIdentifier row.id → c.insertSpace row = .ok d →
      SpaceWrite P c d
  | archived {d : Central} (p : SpaceRow → Bool) (f : SpaceRow → SpaceRow) :
      (∀ r, (f r).id = r.id ∧ (f r).name = r.name) → c.updateSpaces p f = .ok d → SpaceWrite P c d
  | membership {d : Central} (merge : MembershipRow → MembershipRow → MembershipRow)
      (row : MembershipRow) :
      (∀ old new, (merge old new).spaceId = old.spaceId ∧
        (merge old new).principalId = old.principalId) →
      c.upsertMembership merge row = .ok d → SpaceWrite P c d
  | secret {d : Central} (secret : List UInt8) : secret.length = 32 →
      c.insertJournalSecret secret = .ok d → SpaceWrite P c d
  | acknowledged (item now : String) : IsInstant P now →
      SpaceWrite P c (c.acknowledgeMailboxItem item now).2

theorem SpaceWrite.write {P : Platform} {c d : Central} (h : SpaceWrite P c d) : Write P c d := by
  cases h with
  | space row hid h => exact .space row hid h
  | archived p f hf h => exact .archived p f hf h
  | membership merge row hmerge h => exact .membership merge row hmerge h
  | secret secret hlength h => exact .secret secret hlength h
  | acknowledged item now hnow => exact .acknowledged item now hnow

/-- A mailbox item without its acknowledgment. -/
def allocation (m : MailboxItemRow) : String × String × String × String × ℤ :=
  (m.id, m.recordId, m.recipientPrincipalId, m.createdAt, m.recipientSeq)

/-- A mailbox item as it is kept: at most acknowledged, once. -/
def ItemKept (m m' : MailboxItemRow) : Prop :=
  allocation m' = allocation m ∧ ∀ time, m.acknowledgedAt = some time →
    m'.acknowledgedAt = some time

theorem ItemKept.refl (m : MailboxItemRow) : ItemKept m m := ⟨rfl, fun _ => id⟩

theorem ItemKept.trans {m m' m'' : MailboxItemRow} (h : ItemKept m m') (h' : ItemKept m' m'') :
    ItemKept m m'' := ⟨h'.1.trans h.1, fun time ht => h'.2 time (h.2 time ht)⟩

/-- The journal is untouched, up to acknowledgments and the creation of the cursor key. -/
structure SameJournal (c d : Central) : Prop where
  recoveryAnchor : d.recoveryAnchor = c.recoveryAnchor
  records : d.records = c.records
  recordsFts : d.recordsFts = c.recordsFts
  recordRelations : d.recordRelations = c.recordRelations
  attention : d.attention = c.attention
  idempotencyKeys : d.idempotencyKeys = c.idempotencyKeys
  inboxSequences : d.inboxSequences = c.inboxSequences
  mailboxItems : d.mailboxItems.map allocation = c.mailboxItems.map allocation
  acknowledged : List.Forall₂ ItemKept c.mailboxItems d.mailboxItems
  journalSecret : ∀ secret ∈ c.journalSecret, d.journalSecret = some secret

/-- Identities, authority and history are untouched. -/
structure SameSecurity (c d : Central) : Prop where
  recoveryAnchor : d.recoveryAnchor = c.recoveryAnchor
  principals : d.principals = c.principals
  principalNames : d.principalNames = c.principalNames
  credentials : d.credentials = c.credentials
  registrationReceipts : d.registrationReceipts = c.registrationReceipts
  spaces : d.spaces = c.spaces
  memberships : d.memberships = c.memberships
  profileIdempotencyKeys : d.profileIdempotencyKeys = c.profileIdempotencyKeys
  credentialAudit : d.credentialAudit = c.credentialAudit
  auditEvents : d.auditEvents = c.auditEvents
  journalSecret : d.journalSecret = c.journalSecret

section Frames
variable {P : Platform} {c d e : Central}

/-- Rows that are kept one by one twice are kept. -/
theorem forall₂_trans {α : Type} {R : α → α → Prop} (hR : ∀ a b c, R a b → R b c → R a c)
    {l m n : List α} (h : List.Forall₂ R l m) (h' : List.Forall₂ R m n) : List.Forall₂ R l n := by
  induction h generalizing n with
  | nil =>
    cases h'
    exact .nil
  | cons hhead _ ih =>
    cases h' with
    | cons hhead' htail => exact .cons (hR _ _ _ hhead hhead') (ih htail)

theorem SameJournal.refl (c : Central) : SameJournal c c :=
  ⟨rfl, rfl, rfl, rfl, rfl, rfl, rfl, rfl, List.forall₂_same.mpr fun m _ => .refl m, fun _ h => h⟩

theorem SameJournal.trans (h : SameJournal c d) (h' : SameJournal d e) : SameJournal c e where
  recoveryAnchor := h'.recoveryAnchor.trans h.recoveryAnchor
  records := h'.records.trans h.records
  recordsFts := h'.recordsFts.trans h.recordsFts
  recordRelations := h'.recordRelations.trans h.recordRelations
  attention := h'.attention.trans h.attention
  idempotencyKeys := h'.idempotencyKeys.trans h.idempotencyKeys
  inboxSequences := h'.inboxSequences.trans h.inboxSequences
  mailboxItems := h'.mailboxItems.trans h.mailboxItems
  acknowledged :=
    forall₂_trans (R := ItemKept) (fun _ _ _ => ItemKept.trans) h.acknowledged h'.acknowledged
  journalSecret secret hs := h'.journalSecret secret (h.journalSecret secret hs)

theorem Write.sameJournal (h : Write P c d) : SameJournal c d := by
  cases h with
  | principal row _ h =>
    obtain ⟨-, -, rfl⟩ := Central.insertPrincipal_eq_ok.mp h
    exact { SameJournal.refl c with }
  | profile p f hf h =>
    obtain ⟨-, -, rfl⟩ := Central.updatePrincipals_eq_ok.mp h
    exact { SameJournal.refl c with }
  | name row h =>
    obtain ⟨-, -, -, rfl⟩ := Central.insertPrincipalName_eq_ok.mp h
    exact { SameJournal.refl c with }
  | retired p h =>
    obtain ⟨-, -, rfl⟩ := Central.retireNames_eq_ok.mp h
    exact { SameJournal.refl c with }
  | credential row hrow h =>
    obtain ⟨-, -, rfl⟩ := Central.insertCredential_eq_ok.mp h
    exact { SameJournal.refl c with }
  | revoked p f hf h =>
    obtain ⟨-, rfl⟩ := Central.updateCredentials_eq_ok.mp h
    exact { SameJournal.refl c with }
  | credentialAudit credentialId operation occurredAt reason h =>
    obtain ⟨-, -, rfl⟩ := Central.insertCredentialAudit_eq_ok.mp h
    exact { SameJournal.refl c with }
  | receipt row h =>
    obtain ⟨-, -, rfl⟩ := Central.insertRegistrationReceipt_eq_ok.mp h
    exact { SameJournal.refl c with }
  | space row _ h =>
    obtain ⟨-, rfl⟩ := Central.insertSpace_eq_ok.mp h
    exact { SameJournal.refl c with }
  | archived p f hf h =>
    obtain ⟨-, rfl⟩ := Central.updateSpaces_eq_ok.mp h
    exact { SameJournal.refl c with }
  | membership merge row hmerge h =>
    obtain ⟨rows, -, -, rfl⟩ := Central.upsertMembership_eq_ok.mp h
    exact { SameJournal.refl c with }
  | profileKey row h =>
    obtain ⟨-, -, rfl⟩ := Central.insertProfileIdempotencyKey_eq_ok.mp h
    exact { SameJournal.refl c with }
  | auditEvent row h =>
    obtain ⟨-, rfl⟩ := Central.insertAuditEvent_eq_ok.mp h
    exact { SameJournal.refl c with }
  | secret secret _ h =>
    obtain ⟨-, hnone, rfl⟩ := Central.insertJournalSecret_eq_ok.mp h
    exact { SameJournal.refl c with journalSecret := by simp [hnone] }
  | acknowledged item now _ =>
    have hitems : (c.acknowledgeMailboxItem item now).2.mailboxItems.map allocation =
        c.mailboxItems.map allocation := by
      rw [Central.acknowledgeMailboxItem, List.map_map]
      refine List.map_congr_left fun m _ => ?_
      rw [Function.comp_apply]
      split <;> rfl
    have hkept : List.Forall₂ ItemKept c.mailboxItems
        (c.acknowledgeMailboxItem item now).2.mailboxItems := by
      rw [Central.acknowledgeMailboxItem, List.forall₂_map_right_iff, List.forall₂_same]
      intro m _
      split
      · rename_i hopen
        simp only [Bool.and_eq_true, Option.isNone_iff_eq_none] at hopen
        exact ⟨rfl, fun time ht => absurd (hopen.2.symm.trans ht) (by simp)⟩
      · exact .refl m
    exact { SameJournal.refl c with mailboxItems := hitems, acknowledged := hkept }

theorem JournalWrite.sameSecurity (h : JournalWrite c d) : SameSecurity c d := by
  have hrefl : SameSecurity c c := ⟨rfl, rfl, rfl, rfl, rfl, rfl, rfl, rfl, rfl, rfl, rfl⟩
  cases h with
  | record row _ h =>
    obtain ⟨-, -, rfl⟩ := Central.insertRecord_eq_ok.mp h
    exact { hrefl with }
  | relation row h =>
    obtain ⟨-, -, -, -, rfl⟩ := Central.insertRecordRelation_eq_ok.mp h
    exact { hrefl with }
  | attention row h =>
    obtain ⟨-, -, -, rfl⟩ := Central.insertAttention_eq_ok.mp h
    exact { hrefl with }
  | inboxSequence recipient h =>
    obtain ⟨-, rows, -, -, rfl⟩ := Central.upsertInboxSequence_eq_ok.mp h
    exact { hrefl with }
  | mailboxItem row _ h =>
    obtain ⟨-, -, rfl⟩ := Central.insertMailboxItem_eq_ok.mp h
    exact { hrefl with }
  | idempotencyKey row h =>
    obtain ⟨-, -, rfl⟩ := Central.insertIdempotencyKey_eq_ok.mp h
    exact { hrefl with }

theorem StoreWrite.recoveryAnchor (h : StoreWrite P c d) : d.recoveryAnchor = c.recoveryAnchor :=
  h.elim (·.sameJournal.recoveryAnchor) (·.sameSecurity.recoveryAnchor)

end Frames

/-- What the session wrote since the transaction began. -/
def Wrote (W : Central → Central → Prop) (c : Central) (s : Session) : Prop :=
  Effects W c s.changes s.central

variable {P : Platform} {W : Central → Central → Prop} {c : Central}

theorem Wrote.ofStore : OfStore (Wrote W c) := by
  intro s t hcentral hchanges hs
  unfold Wrote at hs ⊢
  rw [hcentral, hchanges]
  exact hs

theorem execute_keeps {rows : Central → ℕ} {statement : Central → Sql Central}
    (hzero : ∀ d e, rows d = 0 → statement d = .ok e → e = d)
    (hwrite : ∀ d e, statement d = .ok e → W d e) :
    Keeps (Wrote W c) (execute rows statement) := by
  intro s n t hs hrun
  obtain ⟨d, hstatement, -, rfl⟩ := execute_eq_ok.mp hrun
  unfold Wrote at hs ⊢
  cases hrows : rows s.central with
  | zero =>
    obtain rfl := hzero _ _ hrows hstatement
    exact hs
  | succ k => exact .write k hs (hwrite _ _ hstatement)

theorem insert_keeps {statement : Central → Sql Central}
    (hwrite : ∀ d e, statement d = .ok e → W d e) : Keeps (Wrote W c) (insert statement) :=
  execute_keeps (fun _ _ h => by simp at h) hwrite

section Reads
variable {I : Session → Prop}

theorem activePrincipal_keeps (selector : String) : Keeps (I) (activePrincipal selector) :=
  (query_keeps _).bind fun _ => okOr_keeps

theorem replayRegistration_keeps (existing : ExistingRegistration) (requestJson : String) :
    Keeps (I) (replayRegistration P existing requestJson) :=
  (queryRow_keeps _).bind fun _ => refuse_keeps.bind fun _ => okOr_keeps.bind fun _ =>
    okOr_keeps.bind fun _ => refuse_keeps.bind fun _ => okOr_keeps.bind fun _ => .pure _

theorem resolveMember_keeps (request : MembershipRequest) :
    Keeps (I) (resolveMember request) :=
  validated_keeps.bind fun _ => activePrincipal_keeps _

end Reads

section Issue

theorem issuePrincipal_eq_ok {principal now : String} {s t : Session} {issued : OneTimeSecret}
    (hrun : (issuePrincipal P principal now).run s = .ok (issued, t)) :
    ∃ b d : Central, s.central.insertCredential ⟨issued.credentialId, principal, .principalClient,
        P.digest issued.secret, now, none, none, none, none⟩ = .ok b ∧
      b.insertCredentialAudit issued.credentialId .issued now none = .ok d ∧
      t.central = d ∧ t.changes = s.changes + 2 := by
  simp only [issuePrincipal, secret, insert, run_bind_eq_ok, run_pure_eq_ok, fill_eq_ok,
    execute_eq_ok] at hrun
  obtain ⟨_, _, ⟨_, _, ⟨-, rfl⟩, rfl, rfl⟩, _, _, ⟨_, _, ⟨-, rfl⟩, rfl, rfl⟩, _, _,
    ⟨b, hinsert, -, rfl⟩, _, _, ⟨d, haudit, -, rfl⟩, rfl, rfl⟩ := hrun
  exact ⟨b, d, hinsert, haudit, rfl, rfl⟩

/-- A credential whose expiry is set in the transaction that issues it is a credential
inserted with that expiry. -/
theorem insertCredential_expiring {row : CredentialRow} {now : String} {expiry : Option String}
    {a b d e : Central} (hinsert : a.insertCredential row = .ok b)
    (haudit : b.insertCredentialAudit row.id .issued now none = .ok d)
    (hupdate : d.updateCredentials (fun r => r.id = row.id)
      (fun r => { r with expiresAt := expiry }) = .ok e) :
    ∃ b', a.insertCredential { row with expiresAt := expiry } = .ok b' ∧
      b'.insertCredentialAudit row.id .issued now none = .ok e := by
  obtain ⟨haccepts, hprincipal, rfl⟩ := Central.insertCredential_eq_ok.mp hinsert
  obtain ⟨hfresh, hcredential, rfl⟩ := Central.insertCredentialAudit_eq_ok.mp haudit
  obtain ⟨-, rfl⟩ := Central.updateCredentials_eq_ok.mp hupdate
  have haccepts' : Storage.credentials.Accepts { row with expiresAt := expiry } a.credentials :=
    ⟨rfl, haccepts.key, haccepts.unique⟩
  have hkept : (a.credentials.map fun r =>
      if decide (r.id = row.id) then { r with expiresAt := expiry } else r) = a.credentials := by
    apply Schema.map_ite_eq_self
    rw [List.countP_eq_zero]
    intro r hr heq
    exact haccepts.key r hr (by simpa [Storage.credentials] using heq)
  refine ⟨_, Central.insertCredential_eq_ok.mpr ⟨haccepts', hprincipal, rfl⟩, ?_⟩
  refine Central.insertCredentialAudit_eq_ok.mpr ⟨hfresh, ?_, ?_⟩
  · simp [Central.hasCredential]
  · simp only [List.map_append, hkept]
    simp [Central.nextCredentialAuditId]

end Issue

section Statements
variable (P) (hW : ∀ d e, Write P d e → W d e)
include hW

theorem updatePrincipals_keeps {p : PrincipalRow → Bool} {f : PrincipalRow → PrincipalRow}
    (hid : ∀ r, (f r).id = r.id) :
    Keeps (Wrote W c) (execute (fun c => c.principals.countP p) fun c =>
      Prod.snd <$> c.updatePrincipals p f) := by
  refine execute_keeps (fun d e hzero h => ?_) fun d e h => ?_
  · obtain ⟨x, hx, rfl⟩ := map_eq_ok.mp h
    obtain ⟨-, -, hd⟩ := Central.updatePrincipals_eq_ok.mp hx
    rw [← hd, Schema.map_ite_eq_self hzero]
  · obtain ⟨x, hx, rfl⟩ := map_eq_ok.mp h
    exact hW _ _ (.profile p f hid hx)

theorem retireNames_keeps (p : PrincipalNameRow → Bool) :
    Keeps (Wrote W c) (execute (fun c => c.principalNames.countP p) fun c => c.retireNames p) := by
  refine execute_keeps (fun d e hzero h => ?_) fun d e h => hW _ _ (.retired p h)
  obtain ⟨-, -, rfl⟩ := Central.retireNames_eq_ok.mp h
  rw [Schema.map_ite_eq_self hzero]

theorem revokeCredentials_keeps {p : CredentialRow → Bool} {f : CredentialRow → CredentialRow}
    (hf : ∀ r, (f r).identity = r.identity ∧ (f r).revokedAt ≠ none) :
    Keeps (Wrote W c) (updateCredentials p f) := by
  refine execute_keeps (fun d e hzero h => ?_) fun d e h => hW _ _ (.revoked p f hf h)
  obtain ⟨-, rfl⟩ := Central.updateCredentials_eq_ok.mp h
  rw [Schema.map_ite_eq_self hzero]

theorem createPrincipal_keeps (request : PrincipalCreateRequest) :
    Keeps (Wrote W c) (createPrincipal P request) := by
  refine validated_keeps.bind fun _ => (now_keeps Wrote.ofStore P).bind fun now => ?_
  refine (principalId_keeps Wrote.ofStore).bind_ok fun s id t hid => ?_
  refine (insert_keeps fun d e h => hW d e (.principal _ (isIdentifier_of_principalId hid) h)).bind
    fun _ => ?_
  exact (insert_keeps fun d e h => hW d e (.name _ h)).bind fun _ => .pure _

theorem registerPrincipal_keeps (tokenHash now : String) (request : RegistrationRequest) :
    Keeps (Wrote W c) (registerPrincipal P tokenHash now request) := by
  refine (checkpoint_keeps _).bind fun _ =>
    (principalId_keeps Wrote.ofStore).bind_ok fun s id t hid => ?_
  refine (insert_keeps fun d e h => hW d e (.principal _ (isIdentifier_of_principalId hid) h)).bind
    fun _ => ?_
  refine (checkpoint_keeps _).bind fun _ => ?_
  refine (insert_keeps fun d e h => hW d e (.name _ h)).bind fun _ => ?_
  refine (checkpoint_keeps _).bind fun _ => (secret_keeps Wrote.ofStore).bind fun suffix => ?_
  refine (insert_keeps fun d e h => hW d e (.credential _ rfl h)).bind fun _ => ?_
  refine (insert_keeps fun d e h => hW d e (.credentialAudit _ _ _ _ h)).bind fun _ => ?_
  refine (checkpoint_keeps _).bind fun _ => (queryRow_keeps _).bind fun principal => ?_
  refine (insert_keeps fun d e h => hW d e (.receipt _ h)).bind fun _ => ?_
  exact (checkpoint_keeps _).bind fun _ => .pure _

theorem register_keeps (token : String) (request : RegistrationRequest) :
    Keeps (Wrote W c) (register P token request) := by
  refine validated_keeps.bind fun _ => refuse_keeps.bind fun _ => ?_
  refine (now_keeps Wrote.ofStore P).bind fun now => (query_keeps _).bind fun existing => ?_
  cases existing with
  | some existing => exact replayRegistration_keeps existing _
  | none => exact registerPrincipal_keeps P hW _ now request

theorem renamePrincipal_keeps (principal current handle now : String) :
    Keeps (Wrote W c) (renamePrincipal principal current handle now) := by
  unfold renamePrincipal
  split
  · refine (retireNames_keeps P hW _).bind fun _ => ?_
    exact (insert_keeps fun d e h => hW d e (.name _ h)).bind fun _ => .pure _
  · exact .pure _

theorem storeProfile_keeps (actor : AuthenticatedCredential) (key payloadHash now : String)
    (request : ProfileUpdateRequest) :
    Keeps (Wrote W c) (storeProfile P actor key payloadHash now request) := by
  refine (queryRow_keeps _).bind fun x => refuse_keeps.bind fun _ => ?_
  refine (renamePrincipal_keeps P hW _ _ _ _).bind fun _ => ?_
  refine Keeps.bind (updatePrincipals_keeps P hW ?_) fun changed => refuse_keeps.bind fun _ => ?_
  · exact fun _ => rfl
  refine (queryRow_keeps _).bind fun principal => (integerColumn_keeps _).bind fun _ => ?_
  refine (secret_keeps Wrote.ofStore).bind fun suffix => ?_
  refine (insert_keeps fun d e h => hW d e (.auditEvent _ h)).bind fun _ => ?_
  exact (insert_keeps fun d e h => hW d e (.profileKey _ h)).bind fun _ => .pure _

theorem updateOwnProfile_keeps (actor : AuthenticatedCredential) (key : String)
    (request : ProfileUpdateRequest) :
    Keeps (Wrote W c) (updateOwnProfile P actor key request) := by
  refine validated_keeps.bind fun _ => refuse_keeps.bind fun _ => ?_
  refine (now_keeps Wrote.ofStore P).bind fun now => ?_
  refine (activePrincipal_keeps _).bind fun _ => (query_keeps _).bind fun valid => ?_
  refine refuse_keeps.bind fun _ => (query_keeps _).bind fun replay => ?_
  cases replay with
  | some row => exact refuse_keeps.bind fun _ => okOr_keeps
  | none => exact storeProfile_keeps P hW actor key _ now request

theorem issuePrincipal_keeps (principal now : String) :
    Keeps (Wrote W c) (issuePrincipal P principal now) := by
  refine (secret_keeps Wrote.ofStore).bind fun suffix => ?_
  refine (secret_keeps Wrote.ofStore).bind fun token => ?_
  refine (insert_keeps fun d e h => hW d e (.credential _ rfl h)).bind fun _ => ?_
  exact (insert_keeps fun d e h => hW d e (.credentialAudit _ _ _ _ h)).bind fun _ => .pure _

theorem revoke_keeps (credentialId : String) (reason : Option String) :
    Keeps (Wrote W c) (revoke P credentialId reason) := by
  refine validated_keeps.bind fun _ => (now_keeps Wrote.ofStore P).bind fun now => ?_
  refine (query_keeps _).bind fun _ => okOr_keeps.bind fun row => ?_
  have hrevoke : Keeps (Wrote W c) (revokeLive credentialId now reason) := by
    refine Keeps.bind (revokeCredentials_keeps P hW ?_) fun _ => ?_
    · exact fun _ => ⟨rfl, by simp⟩
    exact (insert_keeps fun d e h => hW d e (.credentialAudit _ _ _ _ h)).bind fun _ => .pure _
  split
  · exact hrevoke.bind fun _ => (checkpoint_keeps _).bind fun _ => .pure _
  · exact (checkpoint_keeps _).bind fun _ => .pure _

theorem rotate_keeps (request : CredentialRotateRequest) :
    Keeps (Wrote W c) (rotate P request) := by
  refine validated_keeps.bind fun _ => (now_keeps Wrote.ofStore P).bind fun now => ?_
  refine (query_keeps _).bind fun _ => okOr_keeps.bind fun row => ?_
  refine (activePrincipal_keeps _).bind fun _ => ?_
  refine Keeps.bind_bind ?_ fun replacement _ => (checkpoint_keeps _).bind fun _ => ?_
  · intro s issued t n u hs hissue hexpire
    obtain ⟨b, d, hinsert, haudit, rfl, hchanges⟩ := issuePrincipal_eq_ok hissue
    obtain ⟨e, hupdate, -, rfl⟩ := execute_eq_ok.mp hexpire
    obtain ⟨b', hinsert', haudit'⟩ := insertCredential_expiring hinsert haudit hupdate
    have hfirst := Effects.write 0 hs (hW _ _ (.credential _ rfl hinsert'))
    unfold Wrote
    rw [hchanges, show s.changes + 2 = s.changes + (0 + 1) + 1 from rfl, Nat.add_assoc _ 1,
      Nat.add_comm 1]
    exact hfirst.write _ (hW _ _ (.credentialAudit _ _ _ _ haudit'))
  refine Keeps.bind (revokeCredentials_keeps P hW ?_) fun _ => ?_
  · exact fun _ => ⟨rfl, by simp⟩
  refine (insert_keeps fun d e h => hW d e (.credentialAudit _ _ _ _ h)).bind fun _ => ?_
  exact (checkpoint_keeps _).bind fun _ => .pure _

theorem auditRecovered_keeps (p : CredentialRow → Bool) (now : String) (reason : Option String) :
    Keeps (Wrote W c) (auditRecovered p now reason) := by
  intro s n t hs hrun
  obtain ⟨d, hfold, -, rfl⟩ := execute_eq_ok.mp hrun
  have hrows : ∀ (rows : List CredentialRow) (n : ℕ) (b : Central), Effects W c n b →
      rows.foldlM (fun c r => c.insertCredentialAudit r.id .recovered now reason) b = .ok d →
      Effects W c (n + rows.length) d := by
    intro rows
    induction rows with
    | nil =>
      intro n b hb h
      cases h
      exact hb
    | cons r rows ih =>
      intro n b hb h
      rw [List.foldlM_cons, bind_eq_ok] at h
      obtain ⟨b', hinsert, hrest⟩ := h
      have hnext : Effects W c (n + 1) b' := hb.write 0 (hW _ _ (.credentialAudit _ _ _ _ hinsert))
      rw [List.length_cons, Nat.add_comm rows.length, ← Nat.add_assoc]
      exact ih _ _ hnext hrest
  unfold Wrote at hs ⊢
  rw [List.countP_eq_length_filter]
  exact hrows _ _ _ hs hfold

theorem recoverPrincipal_keeps (request : PrincipalRecoveryRequest) :
    Keeps (Wrote W c) (recoverPrincipal P request) := by
  refine validated_keeps.bind fun _ => (now_keeps Wrote.ofStore P).bind fun now => ?_
  refine (query_keeps _).bind fun _ => okOr_keeps.bind fun principal => ?_
  refine (auditRecovered_keeps P hW _ now _).bind fun _ => ?_
  refine Keeps.bind (revokeCredentials_keeps P hW ?_) fun _ => (checkpoint_keeps _).bind fun _ => ?_
  · exact fun _ => ⟨rfl, by simp⟩
  refine (issuePrincipal_keeps P hW _ now).bind fun replacement => ?_
  refine (checkpoint_keeps _).bind fun _ => (secret_keeps Wrote.ofStore).bind fun suffix => ?_
  exact (insert_keeps fun d e h => hW d e (.auditEvent _ h)).bind fun _ => .pure _

theorem disablePrincipal_keeps (id disabledAt : String) :
    Keeps (Wrote W c) (disablePrincipal id disabledAt) := updatePrincipals_keeps P hW fun _ => rfl

end Statements

section Spaces
variable (P) (hW : ∀ d e, SpaceWrite P d e → W d e)
include hW

theorem createSpace_keeps (request : SpaceCreateRequest) :
    Keeps (Wrote W c) (createSpace P request) := by
  refine validated_keeps.bind_ok fun s _ t hvalid => (now_keeps Wrote.ofStore P).bind fun now => ?_
  have hid : IsIdentifier request.id := by
    have hok := (validated_eq_ok.mp hvalid).1
    simp only [SpaceCreateRequest.validate, bind_eq_ok, liftDomain_eq_ok] at hok
    obtain ⟨_, hid, -⟩ := hok
    exact validateIdentifier_eq_ok.mp hid
  exact (insert_keeps fun d e h => hW d e (.space _ hid h)).bind fun _ => .pure _

theorem storeMembership_keeps (request : MembershipRequest) (principalId : String) :
    Keeps (Wrote W c) (storeMembership P request principalId) := by
  refine (query_keeps _).bind fun _ => refuse_keeps.bind fun _ => ?_
  refine (now_keeps Wrote.ofStore P).bind fun now => ?_
  refine (insert_keeps fun d e h => hW d e (.membership _ _ ?_ h)).bind fun _ => .pure _
  exact fun _ _ => ⟨rfl, rfl⟩

theorem archiveSpace_keeps (id archivedAt : String) :
    Keeps (Wrote W c) (archiveSpace id archivedAt) := by
  refine execute_keeps (fun d e hzero h => ?_) fun d e h => hW d e (.archived _ _ ?_ h)
  · obtain ⟨-, rfl⟩ := Central.updateSpaces_eq_ok.mp h
    rw [Schema.map_ite_eq_self hzero]
  · exact fun _ => ⟨rfl, rfl⟩

theorem cursorCodec_keeps : Keeps (Wrote W c) (cursorCodec P) := by
  refine (query_keeps _).bind fun stored => Keeps.bind ?_ fun _ => attempt_keeps _
  cases stored with
  | some secret => exact .pure _
  | none =>
    refine (fill_keeps Wrote.ofStore).bind fun bytes => ?_
    exact (insert_keeps fun d e h => hW d e (.secret _ (by simp) h)).bind fun _ => .pure _

end Spaces

section Actors
variable {I : Session → Prop} (hI : OfStore I)

theorem permitted_keeps (principal space : String) (append : Bool) :
    Keeps I (permitted principal space append) := (query_keeps _).bind fun _ => refuse_keeps

theorem permittedSearch_keeps (actor : String) (space : Option String) :
    Keeps I (permittedSearch actor space) := by
  cases space with
  | some space => exact permitted_keeps actor space false
  | none => exact .pure _

theorem record_keeps (id : String) : Keeps I (record id) := (query_keeps _).bind fun _ => okOr_keeps

include hI

theorem journalActor_keeps (token : String) : Keeps I (journalActor P token) :=
  refuse_keeps.bind fun _ => (now_keeps hI P).bind fun _ => (query_keeps _).bind fun _ =>
    okOr_keeps.bind fun _ => .pure _

theorem appendReplayActor_keeps (token : String) : Keeps I (appendReplayActor P token) :=
  refuse_keeps.bind fun _ => (now_keeps hI P).bind fun _ => (query_keeps _).bind fun _ =>
    okOr_keeps.bind fun _ => .pure _

theorem readActor_keeps (identity : ReadIdentity) : Keeps I (readActor P identity) := by
  cases identity with
  | bearer token => exact journalActor_keeps hI token
  | configuredViewer principal => exact (attempt_keeps _).bind fun _ => activePrincipal_keeps _

end Actors

section Journal

theorem acknowledgeInboxItem_keeps (hW : ∀ d e, SpaceWrite P d e → W d e) (token item : String) :
    Keeps (Wrote W c) (acknowledgeInboxItem P token item) := by
  refine validated_keeps.bind fun _ => (journalActor_keeps Wrote.ofStore token).bind fun actor => ?_
  refine (query_keeps _).bind fun _ => okOr_keeps.bind fun space => ?_
  refine (permitted_keeps _ _ _).bind fun _ =>
    (now_keeps Wrote.ofStore P).bind_ok fun s now t hnow => ?_
  refine Keeps.bind (execute_keeps ?_ ?_) fun _ => checkpoint_keeps _
  · intro d e hzero h
    cases h
    simp only [Central.acknowledgeMailboxItem] at hzero ⊢
    rw [Schema.map_ite_eq_self hzero]
  · intro d e h
    cases h
    exact hW _ _ (.acknowledged item now (isInstant_of_now hnow))

theorem initializeCursorKey_keeps (hW : ∀ d e, SpaceWrite P d e → W d e) (identity : ReadIdentity)
    (space : Option String) : Keeps (Wrote W c) (initializeCursorKey P identity space) := by
  refine (readActor_keeps Wrote.ofStore identity).bind fun actor => ?_
  exact (permittedSearch_keeps actor space).bind fun _ => cursorCodec_keeps P hW

variable {I : Session → Prop}

theorem resolveRecipient_keeps (space recipient : String) :
    Keeps I (resolveRecipient space recipient) :=
  (activePrincipal_keeps _).bind fun _ => (permitted_keeps _ _ _).bind fun _ => .pure _

theorem requireTarget_keeps (actor space : String) (seq : ℤ) (relation : Relation) :
    Keeps I (requireTarget actor space seq relation) :=
  (permitted_keeps _ _ _).bind fun _ => (query_keeps _).bind fun _ => refuse_keeps

theorem replayAppend_keeps (hash : String) (previous : IdempotencyKeyRow) :
    Keeps I (replayAppend P hash previous) := by
  refine refuse_keeps.bind fun _ => ?_
  split
  · exact (record_keeps _).bind fun _ => .pure _
  · exact okOr_keeps.bind fun _ => .pure _

section Append
variable (hJ : ∀ d e, JournalWrite d e → W d e)
include hJ

theorem storeRelation_keeps (id now : String) (relation : Relation × ℕ) :
    Keeps (Wrote W c) (storeRelation id now relation) :=
  (insert_keeps fun d e h => hJ d e (.relation _ h)).bind fun _ => .pure _

theorem deliver_keeps (id now recipient : String) :
    Keeps (Wrote W c) (deliver id now recipient) := by
  refine (insert_keeps fun d e h => hJ d e (.attention _ h)).bind fun _ => ?_
  refine (checkpoint_keeps _).bind fun _ => ?_
  refine (insert_keeps fun d e h => hJ d e (.inboxSequence recipient h)).bind fun _ => ?_
  refine (queryRow_keeps _).bind fun seq => (checkpoint_keeps _).bind fun _ => ?_
  refine (secret_keeps Wrote.ofStore).bind_ok fun s suffix t hsuffix => ?_
  exact (insert_keeps fun d e h => hJ d e (.mailboxItem _ (isIdentifier_item hsuffix) h)).bind
    fun _ => checkpoint_keeps _

variable (hW : ∀ d e, SpaceWrite P d e → W d e)
include hW

theorem storeAppend_keeps (token space path key hash : String) (input : RecordInput) :
    Keeps (Wrote W c) (storeAppend P token space path key hash input) := by
  refine (journalActor_keeps Wrote.ofStore token).bind fun actor => ?_
  refine (permitted_keeps _ _ _).bind fun _ => (cursorCodec_keeps P hW).bind fun _ => ?_
  refine (Keeps.mapM (resolveRecipient_keeps space) _).bind fun recipients => ?_
  refine (attempt_keeps _).bind fun _ => (query_keeps _).bind fun last => ?_
  refine (integerColumn_keeps _).bind_ok fun s seq t hseq => ?_
  have hbound : seq < 2 ^ 63 := integerColumn_lt hseq
  refine (checkpoint_keeps _).bind fun _ => ?_
  refine (Keeps.forM (requireTarget_keeps actor space seq) _).bind fun _ => ?_
  refine (instant_keeps Wrote.ofStore).bind fun time => (attempt_keeps _).bind fun now => ?_
  refine (recordId_keeps Wrote.ofStore time).bind_ok fun s id t hid => ?_
  refine (insert_keeps fun d e h => hJ d e (.record _ ⟨recordId_ne_empty hid, hbound⟩ h)).bind
    fun _ => ?_
  refine (checkpoint_keeps _).bind fun _ => ?_
  refine (Keeps.forM (storeRelation_keeps hJ id now) _).bind fun _ =>
    (checkpoint_keeps _).bind fun _ => ?_
  refine (Keeps.forM (deliver_keeps hJ id now) _).bind fun _ => ?_
  refine (insert_keeps fun d e h => hJ d e (.idempotencyKey _ h)).bind fun _ => ?_
  exact (checkpoint_keeps _).bind fun _ => .pure _

theorem appendRecord_keeps (token space key : String) (input : RecordInput) :
    Keeps (Wrote W c) (appendRecord P token space key input) := by
  refine refuse_keeps.bind fun _ => (appendReplayActor_keeps Wrote.ofStore token).bind fun actor =>
    ?_
  refine (query_keeps _).bind fun previous => ?_
  cases previous with
  | some row => exact replayAppend_keeps _ row
  | none => exact storeAppend_keeps hJ hW token space _ key _ input

end Append

end Journal

namespace Call

/-- Only an append writes records and their delivery. -/
def isAppend : Call → Bool
  | .appendRecord .. => true
  | _ => false

theorem perform_keeps {call : Call} (hcall : call.isAppend = false) :
    Keeps (Wrote (Write P) c) (call.perform P) := by
  have hW : ∀ d e, Write P d e → Write P d e := fun _ _ h => h
  have hS : ∀ d e, SpaceWrite P d e → Write P d e := fun _ _ h => h.write
  cases call with
  | createPrincipal request => exact (createPrincipal_keeps P hW request).bind fun _ => .pure _
  | register token request => exact (register_keeps P hW token request).bind fun _ => .pure _
  | updateOwnProfile actor key request =>
    exact (updateOwnProfile_keeps P hW actor key request).bind fun _ => .pure _
  | createSpace request => exact (createSpace_keeps P hS request).bind fun _ => .pure _
  | resolveMember request => exact (resolveMember_keeps request).bind fun _ => .pure _
  | storeMembership request principalId =>
    exact (storeMembership_keeps P hS request principalId).bind fun _ => .pure _
  | rotate request => exact (rotate_keeps P hW request).bind fun _ => .pure _
  | revoke credentialId reason =>
      exact (revoke_keeps P hW credentialId reason).bind fun _ => .pure _
  | recoverPrincipal request => exact (recoverPrincipal_keeps P hW request).bind fun _ => .pure _
  | appendRecord token space key input => cases hcall
  | acknowledgeInboxItem token item => exact acknowledgeInboxItem_keeps hS token item
  | initializeCursorKey identity space =>
    exact (initializeCursorKey_keeps hS identity space).bind fun _ => .pure _
  | disablePrincipal id disabledAt =>
    exact (disablePrincipal_keeps P hW id disabledAt).bind fun _ => .pure _
  | archiveSpace id archivedAt =>
      exact (archiveSpace_keeps P hS id archivedAt).bind fun _ => .pure _

/-- Every call is a sequence of store writes. -/
theorem perform_writes (call : Call) {s t : Session} {u : Unit} (hs : s.changes = 0)
    (hrun : (call.perform P).run s = .ok (u, t)) :
    Effects (StoreWrite P) s.central t.changes t.central := by
  have hstart : ∀ {W : Central → Central → Prop}, Wrote W s.central s := by
    intro W
    unfold Wrote
    rw [hs]
    exact .none
  cases hcall : call.isAppend with
  | false => exact (perform_keeps hcall s u t hstart hrun).mono fun _ _ => .inl
  | true =>
    cases call with
    | appendRecord token space key input =>
      have hkeeps :=
        (appendRecord_keeps (P := P) (W := StoreWrite P) (fun _ _ => .inr)
          (fun _ _ h => .inl h.write)
        token space key input).bind fun _ => Keeps.pure (I := Wrote (StoreWrite P) s.central) ()
      exact hkeeps s u t hstart hrun
    | _ => cases hcall

theorem perform_anchored (call : Call) {s t : Session} {u : Unit} (hs : s.changes = 0)
    (hrun : (call.perform P).run s = .ok (u, t)) :
    t.central.recoveryAnchor = s.central.recoveryAnchor :=
  (perform_writes call hs hrun).invariant
    (I := fun d => d.recoveryAnchor = s.central.recoveryAnchor)
    (fun _ _ hd hw => hw.recoveryAnchor.trans hd) rfl

/-- The call as an audited closure. -/
def operation (P : Platform) (host : Host) (call : Call) : Operation where
  run c := (succeeded ((call.perform P).run (.start host c))).map fun x =>
    (x.2.central, x.2.changes)
  counted c d h := by
    simp only [Option.map_eq_some_iff, succeeded_eq_some, Prod.mk.injEq] at h
    obtain ⟨⟨u, t⟩, hrun, rfl, hzero⟩ := h
    have hwrites := perform_writes call rfl hrun
    rw [hzero] at hwrites
    exact hwrites.eq_of_zero
  anchored c d n h := by
    simp only [Option.map_eq_some_iff, succeeded_eq_some, Prod.mk.injEq] at h
    obtain ⟨⟨u, t⟩, hrun, rfl, -⟩ := h
    exact perform_anchored call rfl hrun

theorem operation_run {call : Call} {host : Host} {n : ℕ} {d : Central} :
    (call.operation P host).run c = some (d, n) ↔
      ∃ t, (call.perform P).run (.start host c) = .ok ((), t) ∧ t.central = d ∧ t.changes = n := by
  simp only [operation, Option.map_eq_some_iff, succeeded_eq_some, Prod.mk.injEq]
  constructor
  · rintro ⟨⟨⟨⟩, t⟩, hrun, hcentral, hchanges⟩
    exact ⟨t, hrun, hcentral, hchanges⟩
  · rintro ⟨t, hrun, hcentral, hchanges⟩
    exact ⟨((), t), hrun, hcentral, hchanges⟩

end Call

/-- The closures of the service, with any clock and any random source. -/
def operations (P : Platform) : Set Operation := {op | ∃ host call, op = Call.operation P host call}

end AgentJournal.Service
