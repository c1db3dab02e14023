import AgentJournal.Service.Inbox
import AgentJournal.Storage.Outcomes

/-! # What a call can be refused with

A statement fails for a collision with a stored row, or because server code or stored data broke
an invariant. Each statement is given the two conditions under which it does one or the other;
the readings of the host and the checks of a call do neither.
-/

namespace AgentJournal.Service
open Domain Foundation Storage

/-- Errors where a conflict needs the first condition, and a storage failure the second. -/
def Faults (C B : Prop) (e : BootstrapError) : Prop := (e = .conflict → C) ∧ ∀ x, e = .sqlite x → B

/-- As `Faults`, for one statement. -/
def Blames (C B : Prop) {α : Type} (x : Sql α) : Prop :=
  ∀ e, x = .error e → (isStateCollision e = true → C) ∧ (isStateCollision e = false → B)

/-- A row that breaks its table's check only under `B`, and collides only under `C`. -/
structure Suits {ρ κ : Type} [DecidableEq κ] (C B : Prop) (T : Schema ρ κ) (row : ρ)
    (rows : List ρ) :
    Prop where
  check : T.check row = false → B
  key : ∀ r ∈ rows, T.key r = T.key row → C
  unique : ∀ r ∈ rows, T.collides row r = true → C

section Statements
variable {C B : Prop} {α β ρ κ : Type} [DecidableEq κ] {T : Schema ρ κ} {row : ρ} {rows : List ρ}

namespace Blames

theorem pure (a : α) : Blames C B (Pure.pure a : Sql α) := by
  intro e h
  cases h

theorem bind {x : Sql α} {f : α → Sql β} (hx : Blames C B x) (hf : ∀ a, Blames C B (f a)) :
    Blames C B (x >>= f) := by
  intro e h
  cases x with
  | error e' =>
    cases h
    exact hx e rfl
  | ok a => exact hf a e h

theorem references {parent : Bool} (h : parent = true) : Blames C B (references parent) := by
  intro e he
  rw [Storage.references, h] at he
  cases he

theorem abortWhen {fires : Bool} {message : String} (h : fires = false) :
    Blames C B (abortWhen fires message) := by
  intro e he
  rw [Storage.abortWhen, h] at he
  cases he

/-- The two triggers that reserve names and ids against each other. -/
theorem reserved {fires : Bool} {message : String}
    (h : isStateCollision (.trigger message) = true) (hC : fires = true → C) :
    Blames C B (Storage.abortWhen fires message) := by
  intro e he
  unfold Storage.abortWhen failIf at he
  split at he
  · rename_i hfires
    cases he
    refine ⟨fun _ => hC hfires, fun hn => ?_⟩
    rw [h] at hn
    cases hn
  · cases he

theorem insert (h : Suits C B T row rows) : Blames C B (constrain (T.insert row rows)) := by
  intro e he
  cases hinsert : T.insert row rows with
  | ok rows' =>
    rw [hinsert] at he
    cases he
  | error v =>
    rw [hinsert] at he
    cases he
    rcases Schema.insert_error
      hinsert with ⟨rfl, hcheck⟩ | ⟨rfl, r, hr, hkey⟩ | ⟨rfl, r, hr, hunique⟩
    · exact ⟨fun hn => (by cases hn), fun _ => h.check hcheck⟩
    · exact ⟨fun _ => h.key r hr hkey, fun hn => (by cases hn)⟩
    · exact ⟨fun _ => h.unique r hr hunique, fun hn => (by cases hn)⟩

theorem upsert {merge : ρ → ρ → ρ} (hv : T.Valid rows)
    (hindex : ∀ u ∈ T.uniques, ∀ old, u (merge old row) = u old) (hcheck : T.check row = false → B)
    (hmerged : ∀ old ∈ rows, T.key old = T.key row → T.check (merge old row) = false → B)
    (hunique : ∀ r ∈ rows, T.collides row r = true → C) :
    Blames C B (constrain (T.upsert merge row rows)) := by
  intro e he
  cases hupsert : T.upsert merge row rows with
  | ok rows' =>
    rw [hupsert] at he
    cases he
  | error v =>
    rw [hupsert] at he
    cases he
    rcases Schema.upsert_error hupsert hv hindex with ⟨rfl, hfails⟩ | ⟨rfl, r, hr, hcollides⟩
    · refine ⟨fun hn => (by cases hn), fun _ => ?_⟩
      rcases hfails with hrow | ⟨old, hold, hkey, hold'⟩
      · exact hcheck hrow
      · exact hmerged old hold hkey hold'
    · exact ⟨fun _ => hunique r hr hcollides, fun hn => (by cases hn)⟩

omit [DecidableEq κ] in
theorem update {p : ρ → Bool} {f : ρ → ρ}
    (h : ∀ r ∈ rows, p r = true → T.check (f r) = false → B) :
    Blames C B (constrain (T.update p f rows)) := by
  intro e he
  unfold Schema.update at he
  split at he
  · rename_i hfails
    cases he
    simp only [List.any_eq_true, Bool.and_eq_true, Bool.not_eq_true'] at hfails
    obtain ⟨r, hr, hp, hcheck⟩ := hfails
    exact ⟨fun hn => (by cases hn), fun _ => h r hr hp hcheck⟩
  · cases he

end Blames
end Statements

section Central
variable {C B : Prop} {c : Central}

theorem insertPrincipal_blames {row : PrincipalRow}
    (h : Suits C B Storage.principals row c.principals)
    (hname : ∀ n ∈ c.principalNames, n.name = row.id → C) : Blames C B (c.insertPrincipal row) := by
  refine (Blames.reserved rfl fun hfires => ?_).bind fun _ => (Blames.insert h).bind fun _ =>
    .pure _
  obtain ⟨n, hn, hid⟩ := List.any_eq_true.mp hfires
  exact hname n hn (by simpa using hid)

theorem updatePrincipals_blames {p : PrincipalRow → Bool} {f : PrincipalRow → PrincipalRow}
    (h : ∀ r ∈ c.principals, p r = true → Storage.principals.check (f r) = false → B) :
    Blames C B (Prod.snd <$> c.updatePrincipals p f) := by
  have hrows : Blames C B (c.updatePrincipals p f) := (Blames.update h).bind fun _ => .pure _
  intro e he
  cases hupdate : c.updatePrincipals p f with
  | ok x =>
    rw [hupdate] at he
    cases he
  | error e' =>
    rw [hupdate] at he
    cases he
    exact hrows e hupdate

theorem insertPrincipalName_blames {row : PrincipalNameRow}
    (h : Suits C B Storage.principalNames row c.principalNames)
    (hid : c.hasPrincipal row.name = true → C)
    (hparent : c.hasPrincipal row.principalId = true) : Blames C B (c.insertPrincipalName row) :=
  (Blames.reserved rfl hid).bind fun _ => (Blames.insert h).bind fun _ =>
    (Blames.references hparent).bind fun _ => .pure _

/-- Only current names are retired, and a stored name passes its check. -/
theorem retireNames_blames {p : PrincipalNameRow → Bool}
    (hv : Storage.principalNames.Valid c.principalNames)
    (hcurrent : ∀ r ∈ c.principalNames, p r = true → r.kind = .current) :
    Blames C B (c.retireNames p) := by
  refine (Blames.abortWhen ?_).bind fun _ => (Blames.update fun r hr _ hcheck => ?_).bind fun _ =>
    .pure _
  · rw [List.any_eq_false]
    intro r hr
    by_cases hp : p r = true
    · simp [hcurrent r hr hp]
    · simp [hp]
  · exact absurd ((hv.checked r hr).symm.trans hcheck) (by simp)

theorem insertCredential_blames {row : CredentialRow}
    (h : Suits C B Storage.credentials row c.credentials)
    (hparent : c.hasPrincipal row.principalId = true) : Blames C B (c.insertCredential row) :=
  (Blames.insert h).bind fun _ => (Blames.references hparent).bind fun _ => .pure _

theorem updateCredentials_blames {p : CredentialRow → Bool} {f : CredentialRow → CredentialRow}
    (h : ∀ r ∈ c.credentials, p r = true →
      (f r).replacementCredentialId.all c.hasCredential = true) :
    Blames C B (c.updateCredentials p f) := by
  refine (Blames.update fun _ _ _ hcheck => by cases hcheck).bind fun _ =>
    (Blames.references ?_).bind fun _ => .pure _
  rw [List.all_eq_true]
  intro r hr
  by_cases hp : p r = true
  · simp [hp, h r hr hp]
  · simp [hp]

theorem insertCredentialAudit_blames {credentialId occurredAt : String}
    {operation : CredentialOperation} {reason : Option String} (hC : C)
    (hparent : c.hasCredential credentialId = true) :
    Blames C B (c.insertCredentialAudit credentialId operation occurredAt reason) :=
  (Blames.insert ⟨fun hcheck => (by cases hcheck), fun _ _ _ => hC, fun _ _ _ => hC⟩).bind fun _ =>
    (Blames.references hparent).bind fun _ => .pure _

theorem insertRegistrationReceipt_blames {P : Platform} {row : RegistrationReceiptRow}
    (h : Suits C B (Storage.registrationReceipts P) row c.registrationReceipts)
    (hhash : c.hasTokenHash row.tokenHash = true)
    (hcredential : c.hasCredential row.credentialId = true)
    (hprincipal : c.hasPrincipal row.principalId = true) :
    Blames C B (c.insertRegistrationReceipt P row) :=
  (Blames.insert h).bind fun _ =>
    (Blames.references (by simp [hhash, hcredential, hprincipal])).bind fun _ => .pure _

theorem insertSpace_blames {row : SpaceRow} (h : Suits C B Storage.spaces row c.spaces) :
    Blames C B (c.insertSpace row) := (Blames.insert h).bind fun _ => .pure _

/-- A membership has no check and no index. -/
theorem upsertMembership_blames {merge : MembershipRow → MembershipRow → MembershipRow}
    {row : MembershipRow} (hv : Storage.memberships.Valid c.memberships)
    (hspace : c.hasSpace row.spaceId = true) (hprincipal : c.hasPrincipal row.principalId = true) :
    Blames C B (c.upsertMembership merge row) := by
  refine (Blames.upsert hv (by simp [Storage.memberships]) (fun hcheck => by cases hcheck)
    (fun _ _ _ hcheck => by cases hcheck) fun r _ hcollides => ?_).bind fun _ =>
      (Blames.references (by simp [hspace, hprincipal])).bind fun _ => .pure _
  simp [Schema.collides, Storage.memberships] at hcollides

theorem insertProfileIdempotencyKey_blames {row : ProfileIdempotencyKeyRow}
    (h : Suits C B Storage.profileIdempotencyKeys row c.profileIdempotencyKeys)
    (hparent : c.hasPrincipal row.principalId = true) :
    Blames C B (c.insertProfileIdempotencyKey row) :=
  (Blames.insert h).bind fun _ => (Blames.references hparent).bind fun _ => .pure _

theorem insertAuditEvent_blames {row : AuditEventRow} (hC : C) :
    Blames C B (c.insertAuditEvent row) :=
  (Blames.insert ⟨fun hcheck => (by cases hcheck), fun _ _ _ => hC, fun _ _ _ => hC⟩).bind fun _ =>
    .pure _

theorem insertRecord_blames {row : RecordRow} (h : Suits C B Storage.records row c.records)
    (hspace : c.hasSpace row.spaceId = true)
    (hauthor : c.hasPrincipal row.authorPrincipalId = true) :
    Blames C B (c.insertRecord row) :=
  (Blames.insert h).bind fun _ => (Blames.references (by simp [hspace, hauthor])).bind fun _ =>
    .pure _

theorem insertRecordRelation_blames {row : RecordRelationRow}
    (h : Suits C B Storage.recordRelations row c.recordRelations)
    (hcount : (c.recordRelations.countP fun r => r.sourceRecordId = row.sourceRecordId) < 32)
    (htarget : c.relationTargetInvalid row.sourceRecordId row.targetRecordId = false)
    (hrecords : c.hasRecord row.sourceRecordId = true ∧ c.hasRecord row.targetRecordId = true) :
    Blames C B (c.insertRecordRelation row) :=
  (Blames.abortWhen (by simpa using hcount)).bind fun _ => (Blames.abortWhen htarget).bind fun _ =>
    (Blames.insert h).bind fun _ =>
      (Blames.references (by simp [hrecords.1, hrecords.2])).bind fun _ => .pure _

theorem insertAttention_blames {row : AttentionRow}
    (h : Suits C B Storage.attention row c.attention)
    (hcount : (c.attention.countP fun r => r.recordId = row.recordId) < 16)
    (hrecord : c.hasRecord row.recordId = true)
    (hprincipal : c.hasPrincipal row.recipientPrincipalId = true) :
    Blames C B (c.insertAttention row) :=
  (Blames.abortWhen (by simpa using hcount)).bind fun _ => (Blames.insert h).bind fun _ =>
    (Blames.references (by simp [hrecord, hprincipal])).bind fun _ => .pure _

/-- A head is raised by one unless it is the last that fits. -/
theorem upsertInboxSequence_blames {recipient : String}
    (hv : Storage.inboxSequences.Valid c.inboxSequences)
    (hlast : ∀ r ∈ c.inboxSequences, r.recipientPrincipalId = recipient → 2 ^ 63 - 1 ≤ r.lastSeq →
      B)
    (hprincipal : c.hasPrincipal recipient = true) :
    Blames C B (c.upsertInboxSequence (fun last _ => last + 1) ⟨recipient, 1⟩) := by
  refine (Blames.abortWhen ?_).bind fun _ => (Blames.upsert hv (by simp [Storage.inboxSequences])
    (fun hcheck => ?_) (fun old hold hkey hcheck => ?_) fun r _ hcollides => ?_).bind fun _ =>
      (Blames.references hprincipal).bind fun _ => .pure _
  · simp only [List.any_eq_false, Bool.and_eq_true, decide_eq_true_eq, not_and, not_lt]
    intro r _ _
    omega
  · simp [Storage.inboxSequences] at hcheck
  · have hpositive := hv.checked old hold
    simp only [Storage.inboxSequences, Bool.and_eq_true, decide_eq_true_eq, Bool.and_eq_false_iff,
      decide_eq_false_iff_not, List.cons.injEq, Cell.text.injEq, and_true] at hpositive hkey hcheck
    exact hlast old hold hkey (by omega)
  · simp [Schema.collides, Storage.inboxSequences] at hcollides

theorem insertMailboxItem_blames {row : MailboxItemRow}
    (h : Suits C B Storage.mailboxItems row c.mailboxItems)
    (hrecord : c.hasRecord row.recordId = true)
    (hprincipal : c.hasPrincipal row.recipientPrincipalId = true) :
    Blames C B (c.insertMailboxItem row) :=
  (Blames.insert h).bind fun _ =>
    (Blames.references (by simp [hrecord, hprincipal])).bind fun _ => .pure _

theorem insertIdempotencyKey_blames {row : IdempotencyKeyRow}
    (h : Suits C B Storage.idempotencyKeys row c.idempotencyKeys)
    (hprincipal : c.hasPrincipal row.principalId = true)
    (hrecord : c.hasRecord row.recordId = true) :
    Blames C B (c.insertIdempotencyKey row) :=
  (Blames.insert h).bind fun _ =>
    (Blames.references (by simp [hprincipal, hrecord])).bind fun _ => .pure _

end Central

section Readings
variable {P : Platform} {C B : Prop} {α : Type} {s : Session}

theorem faults_of_ne {e : BootstrapError} (hconflict : e ≠ .conflict)
    (hsqlite : ∀ x, e ≠ .sqlite x) :
    Faults C B e := by
  exact ⟨fun h => absurd h hconflict, fun x h => absurd h (hsqlite x)⟩

theorem faults_sqlite {e : SqlError} (h : B) : Faults C B (.sqlite e) :=
  ⟨fun hconflict => (by cases hconflict), fun _ _ => h⟩

theorem attempt_fails {x : Except BootstrapError α} (h : ∀ e, x = .error e → Faults C B e) :
    Fails (Faults C B) (attempt x) s := by
  intro e he
  cases x with
  | ok a => cases he
  | error e' =>
    cases he
    exact h e rfl

theorem refuse_fails {condition : Prop} [Decidable condition] {error : BootstrapError}
    (h : condition → Faults C B error) : Fails (Faults C B) (refuse condition error) s := by
  refine attempt_fails fun e he => ?_
  unfold failIf at he
  split at he
  · cases he
    exact h ‹_›
  · cases he

theorem okOr_fails {x : Option α} {error : BootstrapError} (h : x = none → Faults C B error) :
    Fails (Faults C B) (okOr x error) s := by
  refine attempt_fails fun e he => ?_
  cases x with
  | none =>
    cases he
    exact h rfl
  | some a => cases he

theorem query_fails (f : Central → α) : Fails (Faults C B) (query f) s := by
  intro e he
  cases he

theorem queryRow_fails {f : Central → Option α} (h : f s.central = none → B) :
    Fails (Faults C B) (queryRow f) s := by
  refine (query_fails f).bind fun row t hquery => ?_
  obtain ⟨rfl, rfl⟩ := query_eq_ok.mp hquery
  exact okOr_fails fun hnone => faults_sqlite (h hnone)

theorem integerColumn_fails {value : ℤ} (h : 2 ^ 63 ≤ value → B) :
    Fails (Faults C B) (integerColumn value) s :=
  (refuse_fails fun hlarge => faults_sqlite (h hlarge)).bind fun _ _ _ => .pure _

theorem execute_fails {rows : Central → ℕ} {statement : Central → Sql Central}
    (h : Blames C B (statement s.central)) : Fails (Faults C B) (execute rows statement) s := by
  intro e he
  cases hstatement : statement s.central with
  | ok c =>
    simp only [execute, StateT.run, hstatement] at he
    cases he
  | error x =>
    simp only [execute, StateT.run, hstatement] at he
    cases he
    obtain ⟨hC, hB⟩ := h x hstatement
    unfold BootstrapError.ofSql
    cases hcollides : isStateCollision x with
    | true => exact ⟨fun _ => hC hcollides, fun _ h => (by cases h)⟩
    | false => exact ⟨fun h => (by cases h), fun _ _ => hB hcollides⟩

theorem insert_fails {statement : Central → Sql Central} (h : Blames C B (statement s.central)) :
    Fails (Faults C B) (insert statement) s := execute_fails h

theorem checkpoint_fails (boundary : String) : Fails (Faults C B) (checkpoint boundary) s := by
  intro e he
  simp only [checkpoint, StateT.run] at he
  split at he
  · cases he
    exact faults_of_ne (by simp) (by simp)
  · cases he

theorem instant_fails : Fails (Faults C B) instant s := by
  intro e he
  cases he

theorem fill_fails : Fails (Faults C B) fill s := by
  intro e he
  simp only [fill, StateT.run] at he
  split at he
  · cases he
  · cases he
    exact faults_of_ne (by simp) (by simp)

theorem timestamp_faults {time : ℤ} {e : BootstrapError} (h : timestamp P time = .error e) :
    Faults C B e := by
  have hclock : e = .clock := by
    unfold timestamp failIf at h
    split at h
    · exact (Except.error.inj h).symm
    · simp only [ok_bind] at h
      split at h
      · exact (Except.error.inj h).symm
      · simp only [ok_bind] at h
        split at h
        · cases h
        · exact (Except.error.inj h).symm
  rw [hclock]
  exact faults_of_ne (by simp) (by simp)

theorem millis_faults {time : ℤ} {e : BootstrapError} (h : millis time = .error e) :
    Faults C B e := by
  have hclock : e = .clock := by
    unfold millis failIf at h
    split at h
    · exact (Except.error.inj h).symm
    · simp only [ok_bind] at h
      split at h
      · exact (Except.error.inj h).symm
      · cases h
  rw [hclock]
  exact faults_of_ne (by simp) (by simp)

theorem now_fails : Fails (Faults C B) (now P) s :=
  instant_fails.bind fun _ _ _ => attempt_fails fun _ => timestamp_faults

theorem secret_fails : Fails (Faults C B) secret s := fill_fails.bind fun _ _ _ => .pure _

theorem recordId_fails (time : ℤ) : Fails (Faults C B) (recordId time) s :=
  (attempt_fails fun _ => millis_faults).bind fun _ _ _ => fill_fails.bind fun _ _ _ => .pure _

theorem nextPrincipal_fails : Fails (Faults C B) nextPrincipal s := by
  intro e he
  cases he

theorem principalId_fails : Fails (Faults C B) principalId s :=
  instant_fails.bind fun _ _ _ => (attempt_fails fun _ => millis_faults).bind fun _ _ _ =>
    fill_fails.bind fun _ _ _ => nextPrincipal_fails.bind fun _ _ _ => .pure _

theorem activePrincipal_fails (selector : String) :
    Fails (Faults C B) (activePrincipal selector) s :=
  (query_fails _).bind fun _ _ _ => okOr_fails fun _ => faults_of_ne (by simp) (by simp)

theorem permitted_fails (principal space : String) (append : Bool) :
    Fails (Faults C B) (permitted principal space append) s :=
  (query_fails _).bind fun _ _ _ => refuse_fails fun _ => faults_of_ne (by simp) (by simp)

theorem journalActor_fails (token : String) : Fails (Faults C B) (journalActor P token) s :=
  (refuse_fails fun _ => faults_of_ne (by simp) (by simp)).bind fun _ _ _ =>
    now_fails.bind fun _ _ _ =>
    (query_fails _).bind fun _ _ _ => (okOr_fails fun _ => faults_of_ne (by simp) (by simp)).bind
      fun _ _ _ => .pure _

theorem appendReplayActor_fails (token : String) :
    Fails (Faults C B) (appendReplayActor P token) s :=
  (refuse_fails fun _ => faults_of_ne (by simp) (by simp)).bind fun _ _ _ =>
    now_fails.bind fun _ _ _ =>
    (query_fails _).bind fun _ _ _ => (okOr_fails fun _ => faults_of_ne (by simp) (by simp)).bind
      fun _ _ _ => .pure _

theorem validated_fails (x : Except WireValidationError Unit) :
    Fails (Faults C B) (validated x) s := by
  cases x with
  | ok => exact attempt_fails fun e he => (by cases he)
  | error e =>
    refine attempt_fails fun e he => ?_
    cases he
    exact faults_of_ne (by simp) (by simp)

/-- The cursor key is inserted only where none is stored. -/
theorem cursorCodec_fails : Fails (Faults C B) (cursorCodec P) s := by
  refine (query_fails _).bind fun stored t hstored => ?_
  obtain ⟨rfl, rfl⟩ := query_eq_ok.mp hstored
  refine Fails.bind ?_ fun secret t _ => attempt_fails fun e he => ?_
  · cases hsecret : s.central.journalSecret with
    | some secret => exact .pure _
    | none =>
      refine fill_fails.bind fun bytes t hfill => ?_
      obtain ⟨-, rfl⟩ := fill_eq_ok.mp hfill
      refine (insert_fails fun e he => ?_).bind fun _ _ _ => .pure _
      have hok := Central.insertJournalSecret_eq_ok.mpr
        ⟨(by simp : bytes.toList.length = 32), hsecret, rfl⟩
      exact absurd (he.symm.trans hok) (by simp)
  · split at he
    · cases he
    · cases he
      exact faults_of_ne (by simp) (by simp)

end Readings
end AgentJournal.Service
