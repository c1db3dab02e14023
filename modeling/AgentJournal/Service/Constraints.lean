import AgentJournal.Service.Collisions

/-! # What the schema refuses

The limits of the requests are written twice, in the validation and in the schema. A request that
passes the one passes the other, apart from texts that SQLite sees as empty because they begin with
NUL, and apart from counters at their end. So a call fails in its transaction for a collision with a
stored row or not at all.
-/

namespace AgentJournal.Service
open Domain Foundation Storage Recovery

variable {P : Platform} {B : Prop} {c d : Central} {s t : Session} {host : Host}

/-- Only the check decides where any collision may happen. -/
theorem Suits.of_check {ρ κ : Type} [DecidableEq κ] {T : Schema ρ κ} {row : ρ} {rows : List ρ}
    (h : T.check row = false → B) : Suits True B T row rows :=
  ⟨h, fun _ _ _ => trivial, fun _ _ _ => trivial⟩

section Texts

/-- Names that SQLite does not see as empty. -/
def NamesFit (handle displayName : String) : Prop := ¬BeginsNul handle ∧ ¬BeginsNul displayName

theorem principalNames_check {row : PrincipalNameRow} (h : IsIdentifier row.name)
    (hfits : ¬B → ¬BeginsNul row.name) (hcheck : Storage.principalNames.check row = false) : B := by
  by_contra hB
  have hwithin := sqlLength_within h.chars (hfits hB)
  simp [Storage.principalNames, hwithin] at hcheck

/-- A new principal, or one with a new display name and description. -/
theorem principals_check {row : PrincipalRow} (hid : principalIdCheck row.id = true)
    (hname : 1 ≤ charCount row.displayName ∧ charCount row.displayName ≤ 128)
    (hdescription : ∀ text ∈ row.description, charCount text ≤ 512)
    (hrevision : 1 ≤ row.profileRevision)
    (hfits : ¬B → ¬BeginsNul row.displayName) (hcheck : Storage.principals.check row = false) :
    B := by
  by_contra hB
  have hwithin := sqlLength_within hname (hfits hB)
  have hshort : (row.description.all fun text => decide (sqlLength text ≤ 512)) = true := by
    rw [Option.all_eq_true]
    exact fun text htext => decide_eq_true ((sqlLength_le text).trans (hdescription text htext))
  simp [Storage.principals, hid, hwithin, hshort, hrevision] at hcheck

end Texts

section Introductions
variable {request : PrincipalCreateRequest}

theorem principalId_check {id : String} (h : principalId.run s = .ok (id, t)) :
    principalIdCheck id = true := by
  simp only [principalId, run_bind_eq_ok, run_pure_eq_ok] at h
  obtain ⟨_, _, -, ms, _, -, bytes, _, -, sequence, _, -, rfl, -⟩ := h
  exact principalIdCheck_uuidBytes ms bytes sequence

theorem hasPrincipal_append (c : Central) (row : PrincipalRow) :
    { c with principals := c.principals ++ [row] }.hasPrincipal row.id = true := by
  simp [Central.hasPrincipal]

variable (hvalid : request.validate = .ok ())
  (hfits : ¬B → NamesFit request.handle request.displayName)
include hvalid hfits

theorem introducePrincipal_fails {id now : String} (hid : principalIdCheck id = true) :
    Fails (Faults True B)
      (insert fun c => c.insertPrincipal ⟨id, request.displayName, now, none, none, 1⟩) s :=
  insert_fails (insertPrincipal_blames (.of_check (principals_check hid
    (PrincipalCreateRequest.validate_eq_ok.mp hvalid).2 (by simp) le_rfl fun hB => (hfits hB).2))
    fun _ _ _ => trivial)

theorem introduceName_fails {id now : String} (hparent : s.central.hasPrincipal id = true) :
    Fails (Faults True B)
    (insert fun c => c.insertPrincipalName ⟨request.handle, id, .current, now⟩) s :=
  insert_fails (insertPrincipalName_blames (.of_check (principalNames_check
    (PrincipalCreateRequest.validate_eq_ok.mp hvalid).1 fun hB => (hfits hB).1))
    (fun _ => trivial) hparent)

end Introductions

theorem createPrincipal_fails {request : PrincipalCreateRequest}
    (hfits : ¬B → NamesFit request.handle request.displayName) :
    Fails (Faults True B) (createPrincipal P request) s := by
  refine (validated_fails _).bind fun _ s₁ h₁ => ?_
  obtain ⟨hvalid, rfl⟩ := validated_eq_ok.mp h₁
  refine now_fails.bind fun now s₂ _ => principalId_fails.bind fun id s₃ hid => ?_
  refine (introducePrincipal_fails hvalid hfits (principalId_check hid)).bind fun _ s₄ h₄ => ?_
  obtain ⟨-, -, h₄⟩ := Central.insertPrincipal_eq_ok.mp (insert_eq_ok h₄)
  refine (introduceName_fails hvalid hfits ?_).bind fun _ _ _ => .pure _
  rw [← h₄]
  exact hasPrincipal_append s₃.central _

theorem principalDescriptor_ne_none {id : String} (hid : c.hasPrincipal id = true)
    (hname : ∃ n ∈ c.principalNames, n.principalId = id ∧ n.kind = .current) :
    principalDescriptor c id ≠ none := by
  intro hnone
  obtain ⟨p, hp, hsame⟩ := List.any_eq_true.mp hid
  obtain ⟨n, hn, hprincipal, hcurrent⟩ := hname
  have hrow : (c.principals.find? fun p => p.id = id).isSome = true :=
    List.find?_isSome.mpr ⟨p, hp, hsame⟩
  have hhandle : (currentName c id).isSome = true := by
    rw [currentName, Option.isSome_map, List.find?_isSome]
    exact ⟨n, hn, by simp [hprincipal, hcurrent]⟩
  obtain ⟨row, hrow⟩ := Option.isSome_iff_exists.mp hrow
  obtain ⟨handle, hhandle⟩ := Option.isSome_iff_exists.mp hhandle
  simp [principalDescriptor, hrow, hhandle] at hnone

section Credentials

theorem hasCredential_append (c : Central) (row : CredentialRow) :
    { c with credentials := c.credentials ++ [row] }.hasCredential row.id = true := by
  simp [Central.hasCredential]

/-- A new credential and its history entry. -/
theorem issueCredential_fails {row : CredentialRow} {now : String} {α : Type} {a : α}
    (hparent : s.central.hasPrincipal row.principalId = true) :
    Fails (Faults True B) (do
      let _ ← insert fun c => c.insertCredential row
      let _ ← insert fun c => c.insertCredentialAudit row.id .issued now none
      return a) s := by
  refine (insert_fails
    (insertCredential_blames (.of_check fun hcheck => by cases hcheck) hparent)).bind
    fun _ s₁ h₁ => ?_
  obtain ⟨-, -, h₁⟩ := Central.insertCredential_eq_ok.mp (insert_eq_ok h₁)
  refine (insert_fails (insertCredentialAudit_blames trivial ?_)).bind fun _ _ _ => .pure _
  rw [← h₁]
  exact hasCredential_append s.central row

theorem issuePrincipal_fails {principal now : String}
    (hparent : s.central.hasPrincipal principal = true) :
    Fails (Faults True B) (issuePrincipal P principal now) s := by
  refine secret_fails.bind fun suffix s₁ h₁ => secret_fails.bind fun token s₂ h₂ => ?_
  refine issueCredential_fails ?_
  rw [(secret_eq_ok h₂).2, (secret_eq_ok h₁).2]
  exact hparent

/-- What the statements of a new credential leave: the credential is there, and the store is well
formed. -/
theorem issuePrincipal_leaves {principal now : String} {issued : OneTimeSecret}
    (hwell : WellFormed P s.central)
    (h : (issuePrincipal P principal now).run s = .ok (issued, t)) :
    WellFormed P t.central ∧ t.central.hasCredential issued.credentialId = true ∧
      ∀ id, s.central.hasCredential id = true → t.central.hasCredential id = true := by
  obtain ⟨b, d, hinsert, haudit, rfl, -⟩ := issuePrincipal_eq_ok h
  have hb : WellFormed P b := StoreWrite.wellFormed hwell (.inl (.credential _ rfl hinsert))
  have hd := StoreWrite.wellFormed hb (.inl (.credentialAudit _ _ _ _ haudit))
  obtain ⟨-, -, rfl⟩ := Central.insertCredential_eq_ok.mp hinsert
  obtain ⟨-, -, hd'⟩ := Central.insertCredentialAudit_eq_ok.mp haudit
  refine ⟨hd, ?_, fun id hid => ?_⟩
  · rw [← hd']
    exact hasCredential_append s.central _
  · rw [← hd']
    exact any_append_left hid _

theorem updateCredentials_fails {p : CredentialRow → Bool} {f : CredentialRow → CredentialRow}
    (h : ∀ r ∈ s.central.credentials, p r = true →
      (f r).replacementCredentialId.all s.central.hasCredential = true) :
    Fails (Faults True B) (updateCredentials p f) s := execute_fails (updateCredentials_blames h)

/-- An update of other columns keeps every reference. -/
theorem updateCredentials_kept_fails {p : CredentialRow → Bool} {f : CredentialRow → CredentialRow}
    (hwell : WellFormed P s.central)
    (hf : ∀ r, (f r).replacementCredentialId = r.replacementCredentialId) :
    Fails (Faults True B) (updateCredentials p f) s :=
  updateCredentials_fails fun r hr _ => by
    rw [hf r]
    exact (hwell.references.credentials r hr).2

theorem updateCredentials_hasCredential {p : CredentialRow → Bool}
    {f : CredentialRow → CredentialRow}
    {n : ℕ} (h : (updateCredentials p f).run s = .ok (n, t)) (hf : ∀ r, (f r).id = r.id)
    (id : String) :
    t.central.hasCredential id = s.central.hasCredential id := by
  obtain ⟨d, hupdate, -, rfl⟩ := execute_eq_ok.mp h
  obtain ⟨-, rfl⟩ := Central.updateCredentials_eq_ok.mp hupdate
  exact any_map_ite (fun r => by rw [hf r]) _

/-- A change of credentials is checked and dated and looks a row up before it writes anything. -/
theorem dated_fails {α ρ : Type} {check : Except WireValidationError Unit}
    {find : String → Central → Option ρ} {rest : String → ρ → Tx α}
    (hwell : WellFormed P s.central)
    (h : ∀ now row u, WellFormed P u.central → find now u.central = some row →
      Fails (Faults C B) (rest now row) u) :
    Fails (Faults C B) (do
      validated check
      let now ← Service.now P
      let row ← query (find now)
      let row ← okOr row .notFound
      rest now row) s := by
  refine (validated_fails _).bind fun _ s₁ h₁ => ?_
  obtain ⟨-, rfl⟩ := validated_eq_ok.mp h₁
  refine now_fails.bind fun now s₂ h₂ => ?_
  have hcentral : s₂.central = s.central := now_central h₂
  refine (query_fails _).bind fun row s₃ h₃ => ?_
  obtain ⟨rfl, rfl⟩ := query_eq_ok.mp h₃
  refine (okOr_fails fun _ => faults_of_ne (by simp) (by simp)).bind fun row s₄ h₄ => ?_
  obtain ⟨hfind, rfl⟩ := okOr_eq_ok.mp h₄
  exact h now row _ (hcentral ▸ hwell) hfind

theorem rotate_fails {request : CredentialRotateRequest} (hwell : WellFormed P s.central) :
    Fails (Faults True B) (rotate P request) s := by
  refine dated_fails hwell fun now row s₂ hwell hfind => ?_
  have hrow := List.mem_of_find?_eq_some hfind
  have hid : row.id = request.credentialId := by
    have hfound := List.find?_some hfind
    simp only [Bool.and_eq_true, decide_eq_true_eq] at hfound
    exact hfound.1
  refine (activePrincipal_fails _).bind fun _ s₅ h₅ => ?_
  obtain rfl := activePrincipal_central h₅
  refine (issuePrincipal_fails (hwell.references.credentials row hrow).1).bind
    fun replacement s₆ h₆ => ?_
  obtain ⟨hwell₆, hissued, hkept⟩ := issuePrincipal_leaves hwell h₆
  refine (updateCredentials_kept_fails hwell₆ ?_).bind fun _ s₇ h₇ => ?_
  · exact fun _ => rfl
  have hsame := updateCredentials_hasCredential h₇ fun _ => rfl
  refine (checkpoint_fails _).bind fun _ s₈ h₈ => ?_
  obtain rfl := checkpoint_same h₈
  refine (updateCredentials_fails fun r _ _ => ?_).bind fun _ s₉ h₉ => ?_
  · simpa [hsame] using hissued
  refine (insert_fails (insertCredentialAudit_blames trivial ?_)).bind fun _ _ _ =>
    (checkpoint_fails _).bind fun _ _ _ => .pure _
  rw [updateCredentials_hasCredential h₉ fun _ => rfl, hsame]
  exact hkept _ (List.any_eq_true.mpr ⟨row, hrow, by simpa using hid⟩)

theorem revoke_fails {credentialId : String} {reason : Option String}
    (hwell : WellFormed P s.central) :
    Fails (Faults True B) (revoke P credentialId reason) s := by
  refine dated_fails hwell fun now row s₂ hwell hfind => ?_
  have hrow := List.mem_of_find?_eq_some hfind
  have hid := List.find?_some hfind
  have hrevoke : Fails (Faults True B) (revokeLive credentialId now reason) s₂ := by
    refine (updateCredentials_kept_fails hwell ?_).bind fun _ s₅ h₅ => ?_
    · exact fun _ => rfl
    refine (insert_fails (insertCredentialAudit_blames trivial ?_)).bind fun _ _ _ => .pure _
    rw [updateCredentials_hasCredential h₅ fun _ => rfl]
    exact List.any_eq_true.mpr ⟨row, hrow, hid⟩
  split
  · exact hrevoke.bind fun _ _ _ => (checkpoint_fails _).bind fun _ _ _ => .pure _
  · exact (checkpoint_fails _).bind fun _ _ _ => .pure _

/-- One entry for each credential of a list. -/
theorem auditAll_blames {rows : List CredentialRow} {now : String} {reason : Option String}
    (h : ∀ r ∈ rows, c.hasCredential r.id = true) :
    Blames True B
    (rows.foldlM (fun c r => c.insertCredentialAudit r.id .recovered now reason) c) := by
  induction rows generalizing c with
  | nil => exact .pure _
  | cons r rest ih =>
    intro e he
    rw [List.foldlM_cons] at he
    cases hinsert : c.insertCredentialAudit r.id .recovered now reason with
    | error x =>
      rw [hinsert] at he
      cases he
      exact insertCredentialAudit_blames trivial (h r List.mem_cons_self) e hinsert
    | ok d =>
      rw [hinsert] at he
      obtain ⟨-, -, rfl⟩ := Central.insertCredentialAudit_eq_ok.mp hinsert
      exact ih (by exact fun q hq => h q (List.mem_cons_of_mem r hq)) e he

/-- Entries change no other table. -/
theorem auditAll_kept {rows : List CredentialRow} {now : String} {reason : Option String}
    (h : rows.foldlM (fun c r => c.insertCredentialAudit r.id .recovered now reason) c = .ok d) :
    d.credentials = c.credentials ∧ d.principals = c.principals := by
  induction rows generalizing c with
  | nil =>
    cases h
    exact ⟨rfl, rfl⟩
  | cons r rest ih =>
    rw [List.foldlM_cons] at h
    obtain ⟨b, hinsert, hrest⟩ := bind_eq_ok.mp h
    obtain ⟨-, -, rfl⟩ := Central.insertCredentialAudit_eq_ok.mp hinsert
    obtain ⟨hcredentials, hprincipals⟩ := ih hrest
    exact ⟨hcredentials, hprincipals⟩

theorem recoverPrincipal_fails {request : PrincipalRecoveryRequest}
    (hwell : WellFormed P s.central) :
    Fails (Faults True B) (recoverPrincipal P request) s := by
  refine dated_fails hwell fun now principal s₂ hwell hfound => ?_
  have hparent : s₂.central.hasPrincipal request.principalId = true := by
    simp only [principalDescriptor, Option.bind_eq_bind, Option.bind_eq_some_iff] at hfound
    obtain ⟨row, hrow, -⟩ := hfound
    exact List.any_eq_true.mpr
      ⟨row, List.mem_of_find?_eq_some hrow, by simpa using List.find?_some hrow⟩
  refine (execute_fails (auditAll_blames fun r hr => ?_)).bind fun _ s₅ h₅ => ?_
  · exact List.any_eq_true.mpr ⟨r, (List.mem_filter.mp hr).1, by simp⟩
  obtain ⟨d, haudit, -, rfl⟩ := execute_eq_ok.mp h₅
  obtain ⟨hcredentials, hprincipals⟩ := auditAll_kept haudit
  refine (updateCredentials_fails fun r hr _ => ?_).bind fun _ s₆ h₆ => ?_
  · have hkept := (hwell.references.credentials r (hcredentials ▸ hr)).2
    unfold Central.hasCredential at hkept ⊢
    rw [hcredentials]
    exact hkept
  obtain ⟨e, hupdate, -, rfl⟩ := execute_eq_ok.mp h₆
  obtain ⟨-, rfl⟩ := Central.updateCredentials_eq_ok.mp hupdate
  refine (checkpoint_fails _).bind fun _ s₇ h₇ => ?_
  obtain rfl := checkpoint_same h₇
  refine (issuePrincipal_fails ?_).bind fun _ _ _ => (checkpoint_fails _).bind fun _ _ _ =>
    secret_fails.bind fun _ _ _ => (insert_fails (insertAuditEvent_blames trivial)).bind
      fun _ _ _ => .pure _
  change d.principals.any _ = true
  rw [hprincipals]
  exact hparent

end Credentials

section Registration
variable {request : RegistrationRequest} {token : String}

/-- The texts of a receipt are JSON objects. -/
def WritesObjects (P : Platform) : Prop :=
  (∀ request, P.jsonObject (P.registrationRequestJson request) = true) ∧
    ∀ receipt, P.jsonObject (P.registrationReceiptJson receipt) = true

theorem replayRegistration_fails {existing : ExistingRegistration} {requestJson : String}
    (hparent : s.central.hasPrincipal existing.principalId = true) :
    Fails (Faults True B) (replayRegistration P existing requestJson) s := by
  refine (queryRow_fails fun hnone => ?_).bind fun _ _ _ =>
    (refuse_fails fun _ => faults_of_ne (by simp) (by simp)).bind fun _ _ _ =>
    (okOr_fails fun _ => faults_of_ne (by simp) (by simp)).bind fun _ _ _ =>
    (okOr_fails fun _ => faults_of_ne (by simp) (by simp)).bind fun _ _ _ =>
    (refuse_fails fun _ => ⟨fun _ => trivial, fun _ h => by cases h⟩).bind fun _ _ _ =>
    (okOr_fails fun _ => faults_of_ne (by simp) (by simp)).bind fun _ _ _ => .pure _
  obtain ⟨row, hrow, hid⟩ := List.any_eq_true.mp hparent
  exact absurd hid (List.find?_eq_none.mp hnone row hrow)

theorem registerPrincipal_fails {tokenHash now : String} (hjson : WritesObjects P)
    (hvalid : request.validate = .ok ())
    (hfits : ¬B → NamesFit request.handle request.displayName) :
    Fails (Faults True B) (registerPrincipal P tokenHash now request) s := by
  refine (checkpoint_fails _).bind fun _ s₁ h₁ => principalId_fails.bind fun id s₂ hid => ?_
  refine (introducePrincipal_fails hvalid hfits (principalId_check hid)).bind fun _ s₃ h₃ => ?_
  obtain ⟨-, -, h₃⟩ := Central.insertPrincipal_eq_ok.mp (insert_eq_ok h₃)
  have hparent : s₃.central.hasPrincipal id = true := by
    rw [← h₃]
    exact hasPrincipal_append s₂.central _
  refine (checkpoint_fails _).bind fun _ s₄ h₄ => ?_
  obtain rfl := checkpoint_same h₄
  refine (introduceName_fails hvalid hfits hparent).bind fun _ s₅ h₅ => ?_
  obtain ⟨-, -, -, h₅⟩ := Central.insertPrincipalName_eq_ok.mp (insert_eq_ok h₅)
  refine (checkpoint_fails _).bind fun _ s₆ h₆ => secret_fails.bind fun suffix s₇ h₇ => ?_
  obtain rfl := checkpoint_same h₆
  have h₇ := (secret_eq_ok h₇).2
  rw [← h₅] at h₇
  refine (insert_fails (insertCredential_blames (.of_check fun hcheck => by cases hcheck) ?_)).bind
    fun _ s₈ h₈ => ?_
  · rw [h₇]
    exact hparent
  obtain ⟨-, -, h₈⟩ := Central.insertCredential_eq_ok.mp (insert_eq_ok h₈)
  refine (insert_fails (insertCredentialAudit_blames trivial ?_)).bind fun _ s₉ h₉ => ?_
  · rw [← h₈]
    exact hasCredential_append s₇.central _
  obtain ⟨-, -, h₉⟩ := Central.insertCredentialAudit_eq_ok.mp (insert_eq_ok h₉)
  refine (checkpoint_fails _).bind fun _ s₁₀ h₁₀ => ?_
  obtain rfl := checkpoint_same h₁₀
  rw [h₇] at h₈
  rw [← h₈] at h₉
  refine (queryRow_fails fun hnone => ?_).bind fun principal s₁₁ h₁₁ => ?_
  · rw [← h₉] at hnone
    exact absurd hnone (principalDescriptor_ne_none hparent
      ⟨_, List.mem_append_right _ (List.mem_singleton_self _), rfl, rfl⟩)
  simp only [queryRow, okOr, run_bind_eq_ok, query_eq_ok, attempt_eq_ok] at h₁₁
  obtain ⟨_, _, ⟨-, rfl⟩, -, rfl⟩ := h₁₁
  refine (insert_fails
    (insertRegistrationReceipt_blames (.of_check fun hcheck => ?_) ?_ ?_ ?_)).bind
    fun _ _ _ => (checkpoint_fails _).bind fun _ _ _ => .pure _
  · simp [registrationReceipts, hjson.1, hjson.2] at hcheck
  · rw [← h₉]
    simp [Central.hasTokenHash]
  · rw [← h₉]
    simp [Central.hasCredential]
  · rw [← h₉]
    exact hparent

theorem register_fails (hjson : WritesObjects P) (hwell : WellFormed P s.central)
    (hfits : ¬B → NamesFit request.handle request.displayName) :
    Fails (Faults True B) (register P token request) s := by
  refine (validated_fails _).bind fun _ s₁ h₁ => ?_
  obtain ⟨hvalid, rfl⟩ := validated_eq_ok.mp h₁
  refine (refuse_fails fun _ => faults_of_ne (by simp) (by simp)).bind fun _ s₂ h₂ => ?_
  obtain ⟨-, rfl⟩ := attempt_eq_ok.mp h₂
  refine now_fails.bind fun now s₃ h₃ => ?_
  have hcentral : s₃.central = s.central := now_central h₃
  rw [← hcentral] at hwell
  refine (query_fails _).bind fun existing s₄ h₄ => ?_
  obtain ⟨rfl, rfl⟩ := query_eq_ok.mp h₄
  cases hfound : existingRegistration P s₃.central now (P.digest token) with
  | some existing =>
    refine replayRegistration_fails ?_
    simp only [existingRegistration, Option.map_eq_some_iff] at hfound
    obtain ⟨row, hrow, rfl⟩ := hfound
    exact (hwell.references.credentials row (List.mem_of_find?_eq_some hrow)).1
  | none => exact registerPrincipal_fails hjson hvalid hfits

end Registration

section Profiles
variable {actor : AuthenticatedCredential} {key now : String} {request : ProfileUpdateRequest}

theorem renamePrincipal_fails {principal current handle : String} (hwell : WellFormed P s.central)
    (hparent : s.central.hasPrincipal principal = true) (hvalid : IsIdentifier handle)
    (hfits : ¬B → ¬BeginsNul handle) :
    Fails (Faults True B) (renamePrincipal principal current handle now) s := by
  unfold renamePrincipal
  split
  · refine (execute_fails (retireNames_blames hwell.tables.principalNames fun r _ hr => ?_)).bind
      fun _ s₁ h₁ => ?_
    · simp only [Bool.and_eq_true, decide_eq_true_eq] at hr
      exact hr.2
    obtain ⟨d, hretired, -, rfl⟩ := execute_eq_ok.mp h₁
    obtain ⟨-, -, rfl⟩ := Central.retireNames_eq_ok.mp hretired
    exact (insert_fails (insertPrincipalName_blames (.of_check (principalNames_check hvalid hfits))
      (fun _ => trivial) hparent)).bind fun _ _ _ => .pure _
  · exact .pure _

theorem profileKeys_check {row : ProfileIdempotencyKeyRow}
    (hkey : 1 ≤ charCount row.idempotencyKey ∧ charCount row.idempotencyKey ≤ 255)
    (hprintable : row.idempotencyKey.toList.any isControl = false) :
    Storage.profileIdempotencyKeys.check row = true := by
  simp [Storage.profileIdempotencyKeys, sqlLength_of_printable hprintable, hkey]

theorem storeProfile_fails {payloadHash : String} (hwell : WellFormed P s.central)
    (hnamed : Named (identities s.central))
    (hparent : s.central.hasPrincipal actor.principalId = true)
    (hvalid : request.validate = .ok ())
    (hkey : (1 ≤ charCount key ∧ charCount key ≤ 255) ∧ key.toList.any isControl = false)
    (hfits : ¬B → NamesFit request.handle request.displayName ∧
      ∀ p ∈ s.central.principals, p.id = actor.principalId → p.profileRevision < 2 ^ 63 - 1) :
    Fails (Faults True B) (storeProfile P actor key payloadHash now request) s := by
  obtain ⟨hhandle, hdisplay, hdescription, -⟩ := ProfileUpdateRequest.validate_eq_ok.mp hvalid
  refine (queryRow_fails fun hnone => ?_).bind fun x s₁ h₁ => ?_
  · obtain ⟨p, hp, hid⟩ := List.any_eq_true.mp hparent
    obtain ⟨n, hn, hprincipal, hcurrent⟩ := hnamed p hp
    have hsome :=
      principalDescriptor_ne_none hparent ⟨n, hn, by simpa [hprincipal] using hid, hcurrent⟩
    refine absurd ?_ hsome
    simp only [principalDescriptor, Option.bind_eq_bind, Option.bind_eq_none_iff, Option.pure_def,
      reduceCtorEq, imp_false] at hnone ⊢
    exact fun row hrow handle hhandle => hnone handle hhandle row hrow
  simp only [queryRow, okOr, run_bind_eq_ok, query_eq_ok, attempt_eq_ok] at h₁
  obtain ⟨_, _, ⟨-, rfl⟩, -, rfl⟩ := h₁
  obtain ⟨current, revision⟩ := x
  refine (refuse_fails fun _ => ⟨fun _ => trivial, fun _ h => by cases h⟩).bind fun _ s₂ h₂ => ?_
  obtain ⟨-, rfl⟩ := attempt_eq_ok.mp h₂
  refine (renamePrincipal_fails hwell hparent hhandle fun hB => (hfits hB).1.1).bind fun _ s₃ h₃ =>
    ?_
  obtain ⟨names, hcentral, hidentities⟩ := renamePrincipal_eq_ok h₃
  have hnamed₃ : Named (identities s₃.central) := by
    rw [hidentities]
    exact hnamed.renamed _ _ _ _
  have hparent₃ : s₃.central.hasPrincipal actor.principalId = true := by
    rw [hcentral]
    exact hparent
  have hroom : ¬B → ∀ p ∈ s₃.central.principals, p.id = actor.principalId →
      p.profileRevision < 2 ^ 63 - 1 := by
    rw [hcentral]
    exact fun hB => (hfits hB).2
  have hprincipals : Storage.principals.Valid s₃.central.principals := by
    rw [hcentral]
    exact hwell.tables.principals
  refine (execute_fails (updatePrincipals_blames fun r hr _ hcheck => ?_)).bind fun changed s₄ h₄ =>
    ?_
  · have hchecked := hprincipals.checked r hr
    simp only [Storage.principals, Bool.and_eq_true, decide_eq_true_eq] at hchecked
    refine principals_check ?_ ?_ ?_ ?_ ?_ hcheck
    · exact hchecked.1.1.1
    · exact hdisplay
    · exact hdescription
    · exact hchecked.2.trans (Int.le_add_one le_rfl)
    · exact fun hB => (hfits hB).1.2
  obtain ⟨d, hupdated, -, rfl⟩ := execute_eq_ok.mp h₄
  obtain ⟨x, hx, rfl⟩ := map_eq_ok.mp hupdated
  obtain ⟨-, -, hd⟩ := Central.updatePrincipals_eq_ok.mp hx
  refine (refuse_fails fun _ => ⟨fun _ => trivial, fun _ h => by cases h⟩).bind fun _ s₅ h₅ => ?_
  obtain ⟨-, rfl⟩ := attempt_eq_ok.mp h₅
  have hparent₄ : x.2.hasPrincipal actor.principalId = true := by
    rw [← hd]
    refine (any_map_ite (fun r => ?_) _).trans hparent₃
    rfl
  refine (queryRow_fails fun hnone => ?_).bind fun principal s₆ h₆ => ?_
  · obtain ⟨p, hp, hid⟩ := List.any_eq_true.mp hparent₃
    obtain ⟨n, hn, hprincipal, hcurrent⟩ := hnamed₃ p hp
    refine absurd hnone
      (principalDescriptor_ne_none hparent₄ ⟨n, ?_, by simpa [hprincipal] using hid, hcurrent⟩)
    rw [← hd]
    exact hn
  simp only [queryRow, okOr, run_bind_eq_ok, query_eq_ok, attempt_eq_ok, required_eq_ok] at h₆
  obtain ⟨_, _, ⟨rfl, rfl⟩, hdescriptor, rfl⟩ := h₆
  refine (integerColumn_fails fun hlarge => ?_).bind fun _ s₇ h₇ => ?_
  · by_contra hB
    simp only [principalDescriptor, Option.bind_eq_bind, Option.bind_eq_some_iff, Option.pure_def,
      Option.some.injEq] at hdescriptor
    obtain ⟨row, hrow, handle, -, rfl⟩ := hdescriptor
    have hmem := List.mem_of_find?_eq_some hrow
    have hid : row.id = actor.principalId := by simpa using List.find?_some hrow
    rw [← hd] at hmem
    obtain ⟨r, hr, hr'⟩ := List.mem_map.mp hmem
    split at hr'
    · obtain rfl := hr'
      have hsmall := hroom hB r hr hid
      simp only at hlarge
      omega
    · obtain rfl := hr'
      have hsmall := hroom hB r hr hid
      simp only at hlarge
      omega
  simp only [integerColumn, refuse, run_bind_eq_ok, attempt_eq_ok, run_pure_eq_ok] at h₇
  obtain ⟨_, _, ⟨-, rfl⟩, -, rfl⟩ := h₇
  refine secret_fails.bind fun suffix s₈ h₈ => ?_
  refine (insert_fails (insertAuditEvent_blames trivial)).bind fun _ s₉ h₉ => ?_
  obtain ⟨-, h₉⟩ := Central.insertAuditEvent_eq_ok.mp (insert_eq_ok h₉)
  refine (insert_fails (insertProfileIdempotencyKey_blames (.of_check fun hcheck => ?_) ?_)).bind
    fun _ _ _ => .pure _
  · exact absurd ((profileKeys_check hkey.1 hkey.2).symm.trans hcheck) (by simp)
  · rw [← h₉, (secret_eq_ok h₈).2]
    exact hparent₄

theorem updateOwnProfile_fails (hwell : WellFormed P s.central)
    (hnamed : Named (identities s.central))
    (hfits : ¬B → NamesFit request.handle request.displayName ∧
      ∀ p ∈ s.central.principals, p.id = actor.principalId → p.profileRevision < 2 ^ 63 - 1) :
    Fails (Faults True B) (updateOwnProfile P actor key request) s := by
  refine (validated_fails _).bind fun _ s₁ h₁ => ?_
  obtain ⟨hvalid, rfl⟩ := validated_eq_ok.mp h₁
  refine (refuse_fails fun _ => faults_of_ne (by simp) (by simp)).bind fun _ s₂ h₂ => ?_
  obtain ⟨hshape, rfl⟩ := attempt_eq_ok.mp h₂
  rw [failIf_eq_ok, not_or, not_or, not_not, Bool.not_eq_true] at hshape
  refine now_fails.bind fun now s₃ h₃ => ?_
  have hcentral : s₃.central = s.central := now_central h₃
  rw [← hcentral] at hwell hnamed hfits
  refine (activePrincipal_fails _).bind fun id s₄ h₄ => ?_
  obtain rfl := activePrincipal_central h₄
  refine (query_fails _).bind fun valid s₅ h₅ => ?_
  obtain ⟨rfl, rfl⟩ := query_eq_ok.mp h₅
  refine (refuse_fails fun _ => faults_of_ne (by simp) (by simp)).bind fun _ s₆ h₆ => ?_
  obtain ⟨hcredential, rfl⟩ := attempt_eq_ok.mp h₆
  rw [failIf_eq_ok, Bool.not_eq_false] at hcredential
  refine (query_fails _).bind fun replay s₇ h₇ => ?_
  obtain ⟨rfl, rfl⟩ := query_eq_ok.mp h₇
  cases hreplay : s₄.central.profileIdempotencyKeys.find? fun r =>
      r.principalId = actor.principalId && r.idempotencyKey = key with
  | some row =>
    exact (refuse_fails fun _ => faults_of_ne (by simp) (by simp)).bind fun _ _ _ =>
      okOr_fails fun _ => faults_of_ne (by simp) (by simp)
  | none =>
    refine storeProfile_fails hwell hnamed ?_ hvalid ⟨not_not.mp hshape.2.1, hshape.2.2⟩ hfits
    simp only [credentialValid, List.any_eq_true, Bool.and_eq_true,
      decide_eq_true_eq] at hcredential
    obtain ⟨r, hr, ⟨⟨-, hprincipal⟩, -⟩, -⟩ := hcredential
    rw [← hprincipal]
    exact (hwell.references.credentials r hr).1

end Profiles

section Spaces

theorem createSpace_fails {request : SpaceCreateRequest} (hfits : ¬B → ¬BeginsNul request.name) :
    Fails (Faults True B) (createSpace P request) s := by
  refine (validated_fails _).bind fun _ s₁ h₁ => now_fails.bind fun now s₂ h₂ => ?_
  obtain ⟨hvalid, rfl⟩ := validated_eq_ok.mp h₁
  refine (insert_fails (insertSpace_blames (.of_check fun hcheck => ?_))).bind fun _ _ _ => .pure _
  by_contra hB
  have hwithin := sqlLength_within (SpaceCreateRequest.validate_eq_ok.mp hvalid).2 (hfits hB)
  simp [Storage.spaces, hwithin] at hcheck

theorem resolveMember_fails {request : MembershipRequest} :
    Fails (Faults True B) (resolveMember request) s :=
  (validated_fails _).bind fun _ _ _ => activePrincipal_fails _

theorem storeMembership_fails {request : MembershipRequest} {principalId : String}
    (hwell : WellFormed P s.central) (hparent : s.central.hasPrincipal principalId = true) :
    Fails (Faults True B) (storeMembership P request principalId) s := by
  refine (query_fails _).bind fun known s₁ h₁ => ?_
  obtain ⟨rfl, rfl⟩ := query_eq_ok.mp h₁
  refine (refuse_fails fun _ => faults_of_ne (by simp) (by simp)).bind fun _ s₂ h₂ => ?_
  obtain ⟨hspace, rfl⟩ := attempt_eq_ok.mp h₂
  rw [failIf_eq_ok, Bool.not_eq_false] at hspace
  refine now_fails.bind fun now s₃ h₃ => ?_
  refine (insert_fails ?_).bind fun _ _ _ => .pure _
  rw [now_central h₃]
  exact upsertMembership_blames hwell.tables.memberships hspace hparent

end Spaces

section Rest

theorem acknowledgeInboxItem_fails {token item : String} :
    Fails (Faults True B) (acknowledgeInboxItem P token item) s :=
  (validated_fails _).bind fun _ _ _ => (journalActor_fails _).bind fun _ _ _ =>
    (query_fails _).bind fun _ _ _ => (okOr_fails fun _ => faults_of_ne (by simp) (by simp)).bind
      fun _ _ _ => (permitted_fails _ _ _).bind fun _ _ _ => now_fails.bind fun _ _ _ =>
        (execute_fails fun _ h => by cases h).bind fun _ _ _ => checkpoint_fails _

theorem initializeCursorKey_fails {identity : ReadIdentity} {space : Option String} :
    Fails (Faults True B) (initializeCursorKey P identity space) s := by
  have hactor : Fails (Faults True B) (readActor P identity) s := by
    cases identity with
    | bearer token => exact journalActor_fails token
    | configuredViewer principal =>
      refine (attempt_fails fun e he => ?_).bind fun _ _ _ => activePrincipal_fails _
      split at he
      · cases he
      · cases he
        exact faults_of_ne (by simp) (by simp)
  refine hactor.bind fun actor s₁ _ => Fails.bind ?_ fun _ _ _ => cursorCodec_fails
  cases space with
  | some space => exact permitted_fails _ _ _
  | none => exact .pure _

/-- The two statements of an operator write columns that no check reads. -/
theorem disablePrincipal_fails {id disabledAt : String} (hwell : WellFormed P s.central) :
    Fails (Faults True B) (disablePrincipal id disabledAt) s :=
  execute_fails (updatePrincipals_blames fun r hr _ hcheck =>
    absurd ((hwell.tables.principals.checked r hr).symm.trans hcheck) (by simp))

theorem archiveSpace_fails {id archivedAt : String} (hwell : WellFormed P s.central) :
    Fails (Faults True B) (archiveSpace id archivedAt) s := by
  refine execute_fails ((Blames.update fun r hr _ hcheck => ?_).bind fun _ => .pure _)
  exact absurd ((hwell.tables.spaces.checked r hr).symm.trans hcheck) (by simp)

end Rest

/-- What the schema takes of a call: texts that do not begin with NUL, and counters that are not at
their end. -/
def Call.Fits (c : Central) : Call → Prop
  | .createPrincipal request | .register _ request => NamesFit request.handle request.displayName
  | .updateOwnProfile actor _ request => NamesFit request.handle request.displayName ∧
    ∀ p ∈ c.principals, p.id = actor.principalId → p.profileRevision < 2 ^ 63 - 1
  | .createSpace request => ¬BeginsNul request.name
  | .appendRecord _ space key input => Service.Fits c space key input
  | _ => True

/-- A membership is stored for the principal that its first transaction resolved. -/
def Call.Issued (P : Platform) (c : Central) : Call → Prop
  | .storeMembership request principalId => ∃ d host t, Served P d ∧ Serves P d c ∧
    (Service.resolveMember request).run (.start host d) = .ok (principalId, t)
  | _ => True

theorem resolved_hasPrincipal {request : MembershipRequest} {principalId : String} (hd : Served P d)
    (hserves : Serves P d c)
    (h : (resolveMember request).run (.start host d) = .ok (principalId, t)) :
    c.hasPrincipal principalId = true := by
  simp only [resolveMember, activePrincipal, okOr, run_bind_eq_ok, validated_eq_ok, query_eq_ok,
    attempt_eq_ok, required_eq_ok] at h
  obtain ⟨_, _, ⟨-, rfl⟩, _, _, ⟨rfl, rfl⟩, hfound, -⟩ := h
  obtain ⟨⟨p, hp, rfl, -⟩, -⟩ := findActive_denotes hfound
  obtain ⟨p', hp', hid⟩ := (hserves.extended hd.wellFormed hd.sound).principals p hp
  exact List.any_eq_true.mpr ⟨p', hp', by simpa using hid⟩

/-- In every served store, a call whose texts and counters fit the schema fails for no check, no
reference and no trigger: what an SQL statement of it can fail for is a collision with a stored row,
which is answered as a conflict. -/
theorem call_fits_schema {call : Call} (hjson : WritesObjects P) (hc : Served P c)
    (hissued : call.Issued P c) (hfits : call.Fits c) {e : BootstrapError}
    (h : (call.perform P).run (.start host c) = .error e) (x : SqlError) : e ≠ .sqlite x := by
  have hwell : WellFormed P (Session.start host c).central := hc.wellFormed
  have hnamed : Named (identities (Session.start host c).central) :=
    hc.invariant (named_invariant P)
  have hspaces := (hc.invariant (sized_invariant P)).spaces
  have hfails : Fails (Faults True (¬call.Fits c)) (call.perform P) (.start host c) := by
    cases call with
    | createPrincipal request => exact (createPrincipal_fails not_not.mp).bind fun _ _ _ => .pure _
    | register token request =>
        exact (register_fails hjson hwell not_not.mp).bind fun _ _ _ => .pure _
    | updateOwnProfile actor key request =>
      exact (updateOwnProfile_fails hwell hnamed not_not.mp).bind fun _ _ _ => .pure _
    | createSpace request => exact (createSpace_fails not_not.mp).bind fun _ _ _ => .pure _
    | resolveMember request => exact resolveMember_fails.bind fun _ _ _ => .pure _
    | storeMembership request principalId =>
      obtain ⟨d, host', t, hd, hserves, hresolved⟩ := hissued
      exact (storeMembership_fails hwell (resolved_hasPrincipal hd hserves hresolved)).bind
        fun _ _ _ => .pure _
    | rotate request => exact (rotate_fails hwell).bind fun _ _ _ => .pure _
    | revoke credentialId reason => exact (revoke_fails hwell).bind fun _ _ _ => .pure _
    | recoverPrincipal request => exact (recoverPrincipal_fails hwell).bind fun _ _ _ => .pure _
    | appendRecord token space key input =>
      exact (appendRecord_fails hwell hc.sound hspaces (fun hfalse => absurd trivial hfalse)
        not_not.mp).bind fun _ _ _ => .pure _
    | acknowledgeInboxItem token item => exact acknowledgeInboxItem_fails
    | initializeCursorKey identity space =>
        exact initializeCursorKey_fails.bind fun _ _ _ => .pure _
    | disablePrincipal id disabledAt =>
        exact (disablePrincipal_fails hwell).bind fun _ _ _ => .pure _
    | archiveSpace id archivedAt => exact (archiveSpace_fails hwell).bind fun _ _ _ => .pure _
  rintro rfl
  exact (hfails _ h).2 x rfl hfits

section Sample

/-- A registration under a handle that SQLite sees as empty. -/
def emptyHandle : PrincipalCreateRequest := ⟨"\x00", "Empty"⟩

set_option maxRecDepth 20000 in
theorem emptyHandle_facts : succeeded emptyHandle.validate = some () ∧
    refused ((Call.perform .sample (.createPrincipal emptyHandle)).run
      (.start freshHost sampleStore)) =
      some (.sqlite (.constraint .check)) := by decide +kernel

/-- A request that passes its validation fails a check of the schema. -/
theorem nul_handle_breaks_check : WritesObjects .sample ∧ Served .sample sampleStore ∧
    emptyHandle.validate = .ok () ∧
    (Call.perform .sample (.createPrincipal emptyHandle)).run (.start freshHost sampleStore) =
      .error (.sqlite (.constraint .check)) :=
  ⟨⟨fun _ => rfl, fun _ => rfl⟩, sampleStore_served, succeeded_eq_some.mp emptyHandle_facts.1,
    refused_eq_some.mp emptyHandle_facts.2⟩

set_option maxRecDepth 20000 in
theorem sampleHandle_taken :
    refused ((Call.perform .sample (.createPrincipal sampleRequest)).run
      (.start freshHost sampleStore)) =
      some .conflict := by decide +kernel

theorem call_fits_schema_sample :
    refused ((Call.perform .sample (.createPrincipal sampleRequest)).run
      (.start freshHost sampleStore)) = some .conflict ∧
        ∀ x : SqlError, BootstrapError.conflict ≠ .sqlite x :=
  ⟨sampleHandle_taken, fun x => @call_fits_schema .sample _ _ (.createPrincipal sampleRequest)
    ⟨fun _ => rfl, fun _ => rfl⟩ sampleStore_served trivial
    (show ¬BeginsNul _ ∧ ¬BeginsNul _ by decide) _
    (refused_eq_some.mp sampleHandle_taken) x⟩

end Sample

end AgentJournal.Service
