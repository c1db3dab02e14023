import AgentJournal.Service.Authentication
import AgentJournal.Service.Transaction

/-! # Registration of a token

A token registers one identity. Whatever is committed in between, its receipt answers every retry,
another body conflicts, and once its credential has ended the token is refused for good.
-/

namespace AgentJournal.Service
open Domain Foundation Storage Recovery

variable {P : Platform} {c d : Central} {token : String} {request : RegistrationRequest}

section Sources

/-- The clock and the random source of a call work and no failpoint is set. -/
structure Working (P : Platform) (host : Host) : Prop where
  timestamp : ∀ i, ∃ text, timestamp P (host.clock i) = .ok text
  millis : ∀ i, ∃ ms, millis (host.clock i) = .ok ms
  random : ∀ i, ∃ bytes, host.random i = some bytes
  failpoint : host.failpoint = none

namespace Working
variable {s : Session} (h : Working P s.host)
include h

theorem now_run :
    ∃ now, (Service.now P).run s = .ok (now, { s with readings := s.readings + 1 }) := by
  obtain ⟨text, htext⟩ := h.timestamp s.readings
  exact ⟨text,
    run_bind_eq_ok.mpr ⟨_, _, instant_eq_ok.mpr ⟨rfl, rfl⟩, attempt_eq_ok.mpr ⟨htext, rfl⟩⟩⟩

theorem checkpoint_run (boundary : String) : (checkpoint boundary).run s = .ok ((), s) :=
  checkpoint_eq_ok.mpr ⟨by simp [h.failpoint], rfl⟩

/-- A fresh id is one that the schema accepts. -/
theorem principalId_run :
    ∃ id t, principalId.run s = .ok (id, t) ∧ t.central = s.central ∧ t.host = s.host ∧
    principalIdCheck id = true := by
  obtain ⟨ms, hms⟩ := h.millis s.readings
  obtain ⟨bytes, hbytes⟩ := h.random s.fills
  refine ⟨uuidText
    (uuidBytes ms bytes (s.host.principalSequence + UInt64.ofNat s.principalIds).toNat),
    { s with
      readings := s.readings + 1
      fills := s.fills + 1
      principalIds := s.principalIds + 1 }, ?_, rfl, rfl, principalIdCheck_uuidBytes ms bytes _⟩
  exact run_bind_eq_ok.mpr ⟨_, _, instant_eq_ok.mpr ⟨rfl, rfl⟩, run_bind_eq_ok.mpr ⟨ms, _,
    attempt_eq_ok.mpr ⟨hms, rfl⟩, run_bind_eq_ok.mpr ⟨bytes, _, fill_eq_ok.mpr ⟨hbytes, rfl⟩, rfl⟩⟩⟩

end Working
end Sources

section Refusals
variable {s s' : Session} {now : String}

/-- A row that passes its check is refused for a collision only. -/
theorem insertPrincipal_collides {row : PrincipalRow}
    (hcheck : Storage.principals.check row = true) :
    (∃ d, c.insertPrincipal row = .ok d) ∨ ∃ e, c.insertPrincipal row = .error e ∧
    isStateCollision e = true := by
  unfold Central.insertPrincipal abortWhen
  by_cases hshadow : (c.principalNames.any fun n => n.name = row.id) = true
  · exact .inr ⟨_, by rw [failIf_pos hshadow]; rfl, rfl⟩
  · unfold Schema.insert failIf
    rw [if_neg hshadow, hcheck]
    by_cases hkey : (c.principals.any fun r =>
      decide (Storage.principals.key r = Storage.principals.key row)) = true
    · exact .inr
        ⟨_, by simp only [Bool.not_true, Bool.false_eq_true, if_false, hkey, if_true]; rfl, rfl⟩
    · have hunique : ¬(c.principals.any fun r => Storage.principals.collides row r) = true := by
        simp [Schema.collides, Storage.principals]
      exact .inl ⟨_, by simp only [Bool.not_true, Bool.false_eq_true, if_false, hkey, hunique]; rfl⟩

/-- A name that is taken collides with its row or with an id. -/
theorem insertPrincipalName_occupied {row n : PrincipalNameRow}
    (hnames : Storage.principalNames.Valid c.principalNames) (hn : n ∈ c.principalNames)
    (hname : n.name = row.name) :
    ∃ e, c.insertPrincipalName row = .error e ∧ isStateCollision e = true := by
  unfold Central.insertPrincipalName abortWhen
  by_cases hshadow : c.hasPrincipal row.name = true
  · exact ⟨_, by rw [failIf_pos hshadow]; rfl, rfl⟩
  · have hcheck : Storage.principalNames.check row = true := by
      have hchecked := hnames.checked n hn
      simp only [Storage.principalNames, hname] at hchecked ⊢
      exact hchecked
    have hkey : (c.principalNames.any fun r =>
        decide (Storage.principalNames.key r = Storage.principalNames.key row)) = true :=
      List.any_eq_true.mpr ⟨n, hn, by simp [Storage.principalNames, hname]⟩
    unfold Schema.insert failIf
    rw [if_neg hshadow, hcheck]
    exact ⟨_, by simp only [Bool.not_true, Bool.false_eq_true, if_false, hkey, if_true]; rfl, rfl⟩

theorem ofSql_collision {e : SqlError} (h : isStateCollision e = true) :
    BootstrapError.ofSql e = .conflict :=
  if_pos h

/-- A registration is decided by the credential of its digest. -/
theorem register_run (hvalid : request.validate = .ok ()) (htoken : IsToken token)
    (hnow : (Service.now P).run s = .ok (now, s')) :
    (register P token request).run s = ((existingRegistration P s.central now (P.digest token)).elim
      (registerPrincipal P (P.digest token) now request)
      fun existing => replayRegistration P existing (P.registrationRequestJson request)).run
        s' := by
  have hvalidated : (validated request.validate).run s = .ok ((), s) :=
    validated_eq_ok.mpr ⟨hvalid, rfl⟩
  have hshape : (refuse ((asBytes token).length ≠ 64 ∨ (asBytes token).all isLowerHexdigit = false)
      .invalidJournal).run s = .ok ((), s) := by
    refine refuse_pass ?_
    rw [not_or, not_not]
    exact ⟨htoken.1, by simp [htoken.2]⟩
  have hquery : (query fun c => existingRegistration P c now (P.digest token)).run s' =
      .ok (existingRegistration P s.central now (P.digest token), s') :=
    query_eq_ok.mpr ⟨by rw [now_central hnow], rfl⟩
  rw [register, run_bind_of_ok hvalidated, run_bind_of_ok hshape, run_bind_of_ok hnow,
    run_bind_of_ok hquery]
  cases existingRegistration P s.central now (P.digest token) with
  | none => rfl
  | some existing => rfl

/-- The row of a digest is the one that is found. -/
theorem find_credential (hc : WellFormed P c) {row : CredentialRow} (hrow : row ∈ c.credentials) :
    c.credentials.find? (fun r => r.tokenHash = row.tokenHash) = some row := by
  refine find?_of_distinct (hc.tables.credentials.uniques.imp fun hapart heq => ?_) hrow
  simp [Schema.collides, Storage.credentials, heq] at hapart

theorem find_receipt (hc : WellFormed P c) {x : RegistrationReceiptRow}
    (hx : x ∈ c.registrationReceipts) :
    c.registrationReceipts.find? (fun r => r.tokenHash = x.tokenHash) = some x := by
  refine find?_of_distinct (hc.tables.registrationReceipts.keys.imp fun hapart heq => ?_) hx
  simp [Storage.registrationReceipts, heq] at hapart

theorem existingRegistration_of_mem (hc : WellFormed P c) {row : CredentialRow}
    (hrow : row ∈ c.credentials)
    (now : String) : existingRegistration P c now row.tokenHash = some ⟨row.principalId,
      row.revokedAt.isNone, unexpired P now row,
      (c.registrationReceipts.find? fun r => r.tokenHash = row.tokenHash).map (·.requestJson),
      (c.registrationReceipts.find? fun r => r.tokenHash = row.tokenHash).map
      (·.responseJson)⟩ := by
  rw [existingRegistration, find_credential hc hrow]
  rfl

/-- The principal of a credential, as a replay looks it up. -/
theorem queryRow_principal (hc : WellFormed P s.central) {row : CredentialRow}
    (hrow : row ∈ s.central.credentials) : ∃ p ∈ s.central.principals, p.id = row.principalId ∧
      (queryRow fun c => c.principals.find? fun p => p.id = row.principalId).run s =
      .ok (p, s) := by
  obtain ⟨p, hp, hid⟩ : ∃ p ∈ s.central.principals, p.id = row.principalId := by
    simpa [Central.hasPrincipal] using (hc.references.credentials row hrow).1
  refine ⟨p, hp, hid,
    run_bind_eq_ok.mpr ⟨_, _, query_eq_ok.mpr ⟨rfl, rfl⟩, attempt_eq_ok.mpr ⟨?_, rfl⟩⟩⟩
  rw [← hid]
  exact required_eq_ok.mpr (find_principal hc hp)

/-- A credential that has ended is refused before anything else is looked at. -/
theorem register_dead (hc : Served P s.central) (hhost : Working P s.host) (htoken : IsToken token)
    (hvalid : request.validate = .ok ()) (hdead : Dead P (P.digest token) s.central) :
    (register P token request).run s = .error .unauthorized := by
  obtain ⟨row, hrow, hhash, hended⟩ := hdead
  obtain ⟨now, hnow⟩ := hhost.now_run
  obtain ⟨p, hp, hid, hprincipal⟩ :=
    queryRow_principal (s := { s with readings := s.readings + 1 }) hc.wellFormed hrow
  have hrefused : row.revokedAt.isNone = false ∨ unexpired P now row = false ∨
    p.disabledAt ≠ none := by
    rcases hended with ⟨time, hended⟩ | ⟨q, hq, hqid, hdisabled⟩
    · rw [(hc.standing hrow).live] at hended
      exact .inl hended
    · obtain rfl : q = p := hc.wellFormed.tables.principals.eq_of_key hq hp
        (by simp [Storage.principals, hqid, hid])
      exact .inr (.inr hdisabled)
  rw [register_run hvalid htoken hnow, ← hhash, existingRegistration_of_mem hc.wellFormed hrow now,
    Option.elim_some, replayRegistration, run_bind_of_ok hprincipal]
  exact run_bind_of_error (refuse_error hrefused)

/-- While the credential is live, a request other than the one it registered with conflicts. -/
theorem register_other (hc : Served P s.central) (hhost : Working P s.host) (htoken : IsToken token)
    (hvalid : request.validate = .ok ()) (hlive : ¬Dead P (P.digest token) s.central)
    {x : RegistrationReceiptRow} (hx : x ∈ s.central.registrationReceipts)
    (hhash : x.tokenHash = P.digest token)
    (hother : x.requestJson ≠ P.registrationRequestJson request) :
    (register P token request).run s = .error .conflict := by
  obtain ⟨row, hrow, hrowHash⟩ : ∃ r ∈ s.central.credentials, r.tokenHash = P.digest token := by
    rw [← hhash]
    simpa [Central.hasTokenHash] using (hc.wellFormed.references.registrationReceipts x hx).1
  obtain ⟨now, hnow⟩ := hhost.now_run
  obtain ⟨p, hp, hid, hprincipal⟩ :=
    queryRow_principal (s := { s with readings := s.readings + 1 }) hc.wellFormed hrow
  have hactive : p.disabledAt = none := by
    by_contra hdisabled
    exact hlive ⟨row, hrow, hrowHash, .inr ⟨p, hp, hid, hdisabled⟩⟩
  have hunrevoked : row.revokedAt.isNone = true := by
    rw [← (hc.standing hrow).live now, ← Bool.not_eq_false]
    exact fun hended => hlive ⟨row, hrow, hrowHash, .inl ⟨now, hended⟩⟩
  have hfound := find_receipt hc.wellFormed hx
  rw [hhash, ← hrowHash] at hfound
  rw [register_run hvalid htoken hnow, ← hrowHash,
    existingRegistration_of_mem hc.wellFormed hrow now, Option.elim_some, replayRegistration,
    run_bind_of_ok hprincipal, hfound]
  simp [refuse, okOr, attempt, failIf, required, hunrevoked, (hc.standing hrow).unexpired, hactive,
    hother, StateT.run, Except.map, bind, StateT.bind, Except.bind]

/-- A new token with a name that is taken conflicts, unless SQLite counts no character of its
display name. -/
theorem register_occupied (hc : Served P s.central) (hhost : Working P s.host)
    (htoken : IsToken token)
    (hvalid : request.validate = .ok ()) (hnew : s.central.hasTokenHash (P.digest token) = false)
    {n : PrincipalNameRow} (hn : n ∈ s.central.principalNames) (hname : n.name = request.handle)
    (hdisplay : 1 ≤ sqlLength request.displayName) :
    (register P token request).run s = .error .conflict := by
  obtain ⟨now, hnow⟩ := hhost.now_run
  have hnone : existingRegistration P s.central now (P.digest token) = none := by
    simp only [Central.hasTokenHash, List.any_eq_false, decide_eq_true_eq] at hnew
    rw [existingRegistration, Option.map_eq_none_iff, List.find?_eq_none]
    simpa using hnew
  rw [register_run hvalid htoken hnow, hnone, Option.elim_none, registerPrincipal,
    run_bind_of_ok (Working.checkpoint_run (s := { s with readings := s.readings + 1 }) hhost _)]
  obtain ⟨id, t, hid, hcentral, hhost', hidCheck⟩ :=
    Working.principalId_run (s := { s with readings := s.readings + 1 }) hhost
  rw [run_bind_of_ok hid]
  have hcheck : Storage.principals.check ⟨id, request.displayName, now, none, none, 1⟩ = true := by
    simp only [PrincipalCreateRequest.validate, validateChars, bind_eq_ok, failIf_eq_ok,
      not_not] at hvalid
    obtain ⟨_, -, -, hmax⟩ := hvalid
    have hle := sqlLength_le request.displayName
    simp [Storage.principals, hidCheck, hdisplay]
    omega
  rcases insertPrincipal_collides (c := t.central) hcheck with ⟨d, hd⟩ | ⟨e, he, hcollision⟩
  · obtain ⟨-, -, rfl⟩ := Central.insertPrincipal_eq_ok.mp hd
    rw [run_bind_of_ok (insert_ok hd),
      run_bind_of_ok (Working.checkpoint_run (P := P) (by rw [hhost']; exact hhost) _)]
    have hnames : Storage.principalNames.Valid t.central.principalNames := by
      rw [hcentral]
      exact hc.wellFormed.tables.principalNames
    have htaken : n ∈ t.central.principalNames := by
      rw [hcentral]
      exact hn
    have htarget : n.name = (⟨request.handle, id, .current, now⟩ : PrincipalNameRow).name := hname
    obtain ⟨e, he, hcollision⟩ := insertPrincipalName_occupied
      (c := { t.central with principals := t.central.principals ++ [_] }) hnames htaken htarget
    rw [run_bind_of_error (insert_error he), ofSql_collision hcollision]
  · rw [run_bind_of_error (insert_error he), ofSql_collision hcollision]

end Refusals

section Histories

/-- The store answers the token with a receipt for one request. -/
structure Answers (P : Platform) (token : String) (request : RegistrationRequest)
    (receipt : RegistrationReceipt) (c : Central) : Prop where
  stored : ∃ x ∈ c.registrationReceipts, x.tokenHash = P.digest token ∧
    x.requestJson = P.registrationRequestJson request ∧
    P.decodeRegistrationReceipt x.responseJson = some receipt

theorem Answers.extended {receipt : RegistrationReceipt} (h : Answers P token request receipt c)
    (hd : Extends c d) : Answers P token request receipt d := by
  obtain ⟨x, hx, hanswer⟩ := h.stored
  exact ⟨x, hd.registrationReceipts x hx, hanswer⟩

theorem Answers.unique {request' : RegistrationRequest} {receipt receipt' : RegistrationReceipt}
    (hc : WellFormed P c) (h : Answers P token request receipt c)
    (h' : Answers P token request' receipt' c) :
    receipt = receipt' := by
  obtain ⟨x, hx, hhash, -, hdecode⟩ := h.stored
  obtain ⟨y, hy, hhash', -, hdecode'⟩ := h'.stored
  obtain rfl : x = y := hc.tables.registrationReceipts.eq_of_key hx hy
    (by simp [Storage.registrationReceipts, hhash, hhash'])
  exact Option.some.inj (hdecode.symm.trans hdecode')

theorem Answers.known {receipt : RegistrationReceipt} (hc : WellFormed P c)
    (h : Answers P token request receipt c) : c.hasTokenHash (P.digest token) = true := by
  obtain ⟨x, hx, hhash, -⟩ := h.stored
  rw [← hhash]
  exact (hc.references.registrationReceipts x hx).1

/-- Exactly one principal, one credential and one receipt are added, for a token that was
unknown. -/
def Creates (P : Platform) (token : String) (request : RegistrationRequest)
    (receipt : RegistrationReceipt)
    (c d : Central) : Prop :=
  c.hasTokenHash (P.digest token) = false ∧ ∃ row name entry now, Introduces row name ∧
    receipt.principal.id = row.id ∧
    identities d = (((identities c).introduce row name).issue
      ⟨receipt.credentialId, row.id, .principalClient, P.digest token, now, none, none, none, none⟩
      entry).receive
        ⟨P.digest token, receipt.credentialId, row.id, P.registrationRequestJson request,
        P.registrationReceiptJson receipt, now⟩

/-- A registration that succeeds replays and writes nothing, or creates the identity of its
token. -/
theorem register_cases {host : Host} {outcome : RegistrationOutcome} {t : Session}
    (h : (register P token request).run (.start host c) = .ok (outcome, t)) :
    (outcome.replayed = true ∧ t.central = c ∧ Answers P token request outcome.receipt c) ∨
      (outcome.replayed = false ∧ Creates P token request outcome.receipt c t.central) := by
  obtain ⟨-, now, s', -, ⟨hcentral, hreplayed, hreplays⟩ | ⟨hfresh, s₁, hcentral, hnew⟩⟩ :=
    register_eq_ok h
  · obtain ⟨row, x, p, -, -, -, -, hx, hrequest, hdecode⟩ := hreplays.stored
    have hhash : x.tokenHash = P.digest token := by simpa using List.find?_some hx
    exact .inl ⟨hreplayed, hcentral, x, List.mem_of_find?_eq_some hx, hhash, hrequest, hdecode⟩
  · obtain ⟨row, name, entry, hintroduces, hid, hreplayed, -, -, heq⟩ :=
      registerPrincipal_eq_ok hnew
    refine .inr ⟨hreplayed, ?_, row, name, entry, now, hintroduces, hid, ?_⟩
    · simp only [Central.hasTokenHash, List.any_eq_false]
      exact List.find?_eq_none.mp hfresh
    · rw [heq, hcentral]
      rfl

theorem Creates.answers {receipt : RegistrationReceipt}
    (hreceipt : ∀ r, P.decodeRegistrationReceipt (P.registrationReceiptJson r) = some r)
    (h : Creates P token request receipt c d) : Answers P token request receipt d := by
  obtain ⟨-, row, name, entry, now, -, -, heq⟩ := h
  refine ⟨⟨P.digest token, receipt.credentialId, row.id, P.registrationRequestJson request,
    P.registrationReceiptJson receipt, now⟩, ?_, rfl, rfl, hreceipt receipt⟩
  change _ ∈ (identities d).registrationReceipts
  rw [heq]
  exact List.mem_append_right _ (List.mem_singleton_self _)

/-- Receipts are written by registrations only. -/
theorem Call.perform_receipts (call : Call) {host : Host} {t : Session}
    (hrun : (call.perform P).run (.start host c) = .ok ((), t)) :
    t.central.registrationReceipts = c.registrationReceipts ∨
      ∃ token request outcome, call = .register token request ∧
        (Service.register P token request).run (.start host c) = .ok (outcome, t) := by
  have hof : ∀ {i : Identities}, Service.identities t.central = i →
      i.registrationReceipts = c.registrationReceipts →
      t.central.registrationReceipts = c.registrationReceipts := fun h hi =>
    (congrArg Identities.registrationReceipts h).trans hi
  cases hcall : call.identifies with
  | false => exact .inl (hof (Call.perform_identities hcall hrun) rfl)
  | true =>
    cases call with
    | createPrincipal request =>
      obtain ⟨p, t', hcreate, hpure⟩ := run_bind_eq_ok.mp hrun
      obtain ⟨-, rfl⟩ := run_pure_eq_ok.mp hpure
      obtain ⟨row, name, -, heq⟩ := createPrincipal_eq_ok hcreate
      exact .inl (hof heq rfl)
    | register token request =>
      obtain ⟨outcome, t', hregister, hpure⟩ := run_bind_eq_ok.mp hrun
      obtain ⟨-, rfl⟩ := run_pure_eq_ok.mp hpure
      exact .inr ⟨token, request, outcome, rfl, hregister⟩
    | updateOwnProfile actor key request =>
      obtain ⟨profile, t', hupdate, hpure⟩ := run_bind_eq_ok.mp hrun
      obtain ⟨-, rfl⟩ := run_pure_eq_ok.mp hpure
      obtain ⟨now, s', -, -, ⟨hcentral, -⟩ | ⟨-, s₁, hcentral, hnew⟩⟩ :=
        updateOwnProfile_eq_ok hupdate
      · exact .inl (congrArg Central.registrationReceipts hcentral)
      · obtain ⟨current, row, -, -, -, -, -, heq⟩ := storeProfile_eq_ok hnew
        obtain ⟨names, hnames⟩ :=
          (Service.identities s₁.central).renamed_eq actor.principalId current request.handle now
        rw [hnames, hcentral] at heq
        exact .inl (hof heq rfl)
    | rotate request =>
      obtain ⟨rotation, t', hrotate, hpure⟩ := run_bind_eq_ok.mp hrun
      obtain ⟨-, rfl⟩ := run_pure_eq_ok.mp hpure
      obtain ⟨now, s', row, issued, rotated, -, -, -, -, -, -, -, -, heq⟩ := rotate_eq_ok hrotate
      exact .inl (hof heq rfl)
    | revoke credentialId reason =>
      obtain ⟨metadata, t', hrevoke, hpure⟩ := run_bind_eq_ok.mp hrun
      obtain ⟨-, rfl⟩ := run_pure_eq_ok.mp hpure
      obtain ⟨row, -, ⟨-, hcentral⟩ | ⟨-, now, revoked, -, -, heq⟩⟩ := revoke_eq_ok hrevoke
      · exact .inl (congrArg Central.registrationReceipts hcentral)
      · exact .inl (hof heq rfl)
    | recoverPrincipal request =>
      obtain ⟨response, t', hrecover, hpure⟩ := run_bind_eq_ok.mp hrun
      obtain ⟨-, rfl⟩ := run_pure_eq_ok.mp hpure
      obtain ⟨now, s', issued, entries, -, -, -, -, -, -, heq⟩ := recoverPrincipal_eq_ok hrecover
      exact .inl (hof heq rfl)
    | disablePrincipal id disabledAt =>
      obtain ⟨n, t', hdisable, hpure⟩ := run_bind_eq_ok.mp hrun
      obtain ⟨-, rfl⟩ := run_pure_eq_ok.mp hpure
      exact .inl (hof (disablePrincipal_eq_ok hdisable) rfl)
    | _ => cases hcall

/-- A history of committed calls of any clients, with every committed registration of one token,
whether or not its answer arrived. -/
inductive Registering (P : Platform) (token : String) (c : Central) :
    List (RegistrationRequest × RegistrationOutcome) → Central → Prop
  | start : Registering P token c [] c
  | call {history d host} {t : Session} (call : Call) : Registering P token c history d →
      (∀ request, call ≠ .register token request) →
      (call.perform P).run (.start host d) = .ok ((), t) → Registering P token c history t.central
  | anchor {history d} (a : RecoveryAnchor) : Registering P token c history d →
      a.inboxEpoch = d.recoveryAnchor.inboxEpoch →
      Registering P token c history { d with recoveryAnchor := a }
  | register {history d host request outcome} {t : Session} : Registering P token c history d →
      (register P token request).run (.start host d) = .ok (outcome, t) →
      Registering P token c (history ++ [(request, outcome)]) t.central

namespace Registering
variable {history : List (RegistrationRequest × RegistrationOutcome)}

theorem serves (h : Registering P token c history d) : Serves P c d := by
  induction h with
  | start => exact .refl
  | call call _ _ hrun ih => exact ih.call call hrun
  | anchor a _ hepoch ih => exact ih.anchor a hepoch
  | register _ hregister ih =>
    exact ih.call (.register token _) (run_bind_eq_ok.mpr ⟨_, _, hregister, rfl⟩)

/-- Every registration of the history is still answered as it was. -/
theorem answers (hreceipt : ∀ r, P.decodeRegistrationReceipt (P.registrationReceiptJson r) = some r)
    (hc : Served P c) (h : Registering P token c history d) :
    ∀ x ∈ history, Answers P token x.1 x.2.receipt d := by
  induction h with
  | start => simp
  | @call history d host t call h _ hrun ih =>
    have hextends := (call.perform_extends rfl (hc.later h.serves).wellFormed hrun).2
    exact fun x hx => (ih x hx).extended hextends
  | @anchor history d a h hepoch ih =>
    exact fun x hx => ⟨(ih x hx).stored⟩
  | @register history d host request outcome t h hregister ih =>
    have hrun : ((Call.register token request).perform P).run (.start host d) = .ok ((), t) :=
      run_bind_eq_ok.mpr ⟨_, _, hregister, rfl⟩
    have hextends := (Call.perform_extends _ rfl (hc.later h.serves).wellFormed hrun).2
    intro x hx
    rcases List.mem_append.mp hx with hold | hnew
    · exact (ih x hold).extended hextends
    · rw [List.mem_singleton.mp hnew]
      rcases register_cases hregister with ⟨-, hcentral, hanswers⟩ | ⟨-, hcreates⟩
      · exact hanswers.extended hextends
      · exact hcreates.answers hreceipt

/-- All registrations but the first are replays. -/
theorem replayed
    (hreceipt : ∀ r, P.decodeRegistrationReceipt (P.registrationReceiptJson r) = some r)
    (hc : Served P c) (h : Registering P token c history d) :
    ∀ x ∈ history.tail, x.2.replayed = true := by
  induction h with
  | start => simp
  | call call _ _ _ ih => exact ih
  | anchor a _ _ ih => exact ih
  | @register history d host request outcome t h hregister ih =>
    cases history with
    | nil => simp
    | cons first rest =>
      intro x hx
      rcases List.mem_append.mp hx with hold | hnew
      · exact ih x hold
      · rw [List.mem_singleton.mp hnew]
        rcases register_cases hregister with ⟨hreplayed, -⟩ | ⟨-, hunknown, -⟩
        · exact hreplayed
        · have hknown :=
            (h.answers hreceipt hc first List.mem_cons_self).known (hc.later h.serves).wellFormed
          simp [hknown] at hunknown

/-- Until the token registers, no receipt of it is stored. -/
theorem unanswered (hsha : Set.InjOn P.digest { t | IsToken t }) (htoken : IsToken token)
    (hc : WellFormed P c) (hunknown : c.hasTokenHash (P.digest token) = false)
    (h : Registering P token c history d) :
    history = [] → ∀ x ∈ d.registrationReceipts, x.tokenHash ≠ P.digest token := by
  induction h with
  | start =>
    intro _ x hx hhash
    have hknown := (hc.references.registrationReceipts x hx).1
    rw [hhash, hunknown] at hknown
    cases hknown
  | @call history d host t call h hother hrun ih =>
    intro hempty x hx
    rcases call.perform_receipts hrun with hsame | ⟨token', request, outcome, rfl, hregister⟩
    · rw [hsame] at hx
      exact ih hempty x hx
    · rcases register_cases
        hregister with ⟨-, hcentral, -⟩ | ⟨-, -, row, name, entry, now, -, -, heq⟩
      · rw [hcentral] at hx
        exact ih hempty x hx
      · have hreceipts := congrArg Identities.registrationReceipts heq
        change x ∈ (identities t.central).registrationReceipts at hx
        rw [hreceipts] at hx
        rcases List.mem_append.mp hx with hold | hnew
        · exact ih hempty x hold
        · rw [List.mem_singleton.mp hnew]
          intro hsame
          have heq : token' = token := hsha (register_eq_ok hregister).1 htoken hsame
          exact hother request (by rw [heq])
  | anchor a _ _ ih => exact ih
  | register => simp

/-- A token that was unknown is created by its first registration. -/
theorem created (hsha : Set.InjOn P.digest { t | IsToken t }) (hc : Served P c)
    (hunknown : c.hasTokenHash (P.digest token) = false) (h : Registering P token c history d) :
    ∀ x ∈ history.head?, x.2.replayed = false := by
  induction h with
  | start => simp
  | call call _ _ _ ih => exact ih
  | anchor a _ _ ih => exact ih
  | @register history d host request outcome t h hregister ih =>
    cases history with
    | cons first rest => exact ih
    | nil =>
      intro x hx
      obtain rfl : (request, outcome) = x := by simpa using hx
      rcases register_cases hregister with ⟨-, -, hanswers⟩ | ⟨hcreated, -⟩
      · obtain ⟨y, hy, hhash, -⟩ := hanswers.stored
        have htoken := (register_eq_ok hregister).1
        exact absurd hhash (h.unanswered hsha htoken hc.wellFormed hunknown rfl y hy)
      · exact hcreated

end Registering

/-- Rows with distinct keys hold a key at most once. -/
theorem countP_le_one {α κ : Type} [DecidableEq κ] {rows : List α} {key : α → κ}
    (h : rows.Pairwise fun a b => key a ≠ key b) (k : κ) :
    (rows.countP fun r => key r = k) ≤ 1 := by
  induction h with
  | nil => simp
  | @cons a rows hapart _ ih =>
    by_cases hk : key a = k
    · have hnone : (rows.countP fun r => key r = k) = 0 := by
        rw [List.countP_eq_zero]
        intro b hb hkb
        exact hapart b hb (hk.trans (of_decide_eq_true hkb).symm)
      rw [List.countP_cons, hnone, if_pos (decide_eq_true hk)]
    · rw [List.countP_cons, if_neg (by simpa using hk)]
      exact ih

/-- In every history of committed calls a token creates one identity, by its first registration, and
each later one returns the receipt of the first. A different body of a live token conflicts, so does
a new token with a name that is taken and a display name in which SQLite counts a character; a
token whose credential has ended, by any of the calls that end it, is refused in every later store.
What is refused changes nothing. -/
theorem registration_once (hsha : Set.InjOn P.digest { t | IsToken t })
    (hreceipt : ∀ r, P.decodeRegistrationReceipt (P.registrationReceiptJson r) = some r)
    (hrequest : Function.Injective P.registrationRequestJson) (hc : Served P c)
    {history : List (RegistrationRequest × RegistrationOutcome)}
    (hhistory : Registering P token c history d) :
    (c.hasTokenHash (P.digest token) = false → ∀ x ∈ history.head?, x.2.replayed = false) ∧
    (∀ x ∈ history.tail, x.2.replayed = true) ∧
    (∀ x ∈ history, ∀ y ∈ history, x.2.receipt = y.2.receipt) ∧
    ((d.credentials.countP fun r => r.tokenHash = P.digest token) ≤ 1 ∧
      (d.registrationReceipts.countP fun r => r.tokenHash = P.digest token) ≤ 1) ∧
    (∀ host request outcome t, (register P token request).run (.start host d) = .ok (outcome, t) →
      outcome.replayed = true ∧ t.central = d ∨
        outcome.replayed = false ∧ Creates P token request outcome.receipt d t.central) ∧
    (∀ host request, Working P host → IsToken token → request.validate = .ok () →
      (¬Dead P (P.digest token) d → (∃ x ∈ history, x.1 ≠ request) →
        (register P token request).run (.start host d) = .error .conflict) ∧
      (d.hasTokenHash (P.digest token) = false → (∃ n ∈ d.principalNames, n.name = request.handle) →
        1 ≤ sqlLength request.displayName →
        (register P token request).run (.start host d) = .error .conflict) ∧
      (Dead P (P.digest token) d → ∀ e, Serves P d e →
        (register P token request).run (.start host e) = .error .unauthorized)) ∧
    (∀ (call : Call) host row t, row ∈ d.credentials → row.tokenHash = P.digest token →
      call.ends row →
      (call.perform P).run (.start host d) = .ok ((), t) → Dead P (P.digest token) t.central) ∧
    ∀ fails host request e (h : Handle), (register P token request).run (.start host h.central) =
    .error e →
      (withTransactionFor fails host (register P token request) h).handle = h := by
  have hd : Served P d := hc.later hhistory.serves
  have hanswers := hhistory.answers hreceipt hc
  refine ⟨fun hunknown => hhistory.created hsha hc hunknown, hhistory.replayed hreceipt hc,
    fun x hx y hy => (hanswers x hx).unique hd.wellFormed (hanswers y hy), ⟨?_, ?_⟩, ?_, ?_, ?_, ?_⟩
  · refine countP_le_one (hd.wellFormed.tables.credentials.uniques.imp fun hapart heq => ?_) _
    simp [Schema.collides, Storage.credentials, heq] at hapart
  · refine countP_le_one (hd.wellFormed.tables.registrationReceipts.keys.imp fun hapart heq => ?_) _
    simp [Storage.registrationReceipts, heq] at hapart
  · intro host request outcome t h
    rcases register_cases h with ⟨hreplayed, hcentral, -⟩ | hcreates
    · exact .inl ⟨hreplayed, hcentral⟩
    · exact .inr hcreates
  · intro host request hhost htoken hvalid
    refine ⟨fun hlive hother => ?_, fun hnew hname hdisplay => ?_, fun hdead e hserves => ?_⟩
    · obtain ⟨x, hx, hne⟩ := hother
      obtain ⟨stored, hstored, hhash, hjson, -⟩ := (hanswers x hx).stored
      refine register_other (s := .start host d) hd hhost htoken hvalid hlive hstored hhash ?_
      rw [hjson]
      exact fun heq => hne (hrequest heq)
    · obtain ⟨n, hn, hname⟩ := hname
      exact register_occupied (s := .start host d) hd hhost htoken hvalid hnew hn hname hdisplay
    · exact register_dead (s := .start host e) (hd.later hserves) hhost htoken hvalid
        (hdead.serves hd hserves)
  · intro call host row t hrow hhash hends hrun
    rw [← hhash]
    exact call.perform_dead hd hrow hends hrun
  · intro fails host request e h hrefused
    exact (withTransactionFor_refused hrefused).1

section Sample

/-- Registered, renamed by its owner and registered again. -/
def sampleRetry (c : Central) :
    Option (RegistrationOutcome × Central × RegistrationOutcome × Central) := do
  let first ← succeeded ((register .sample sampleToken sampleRequest).run (.start sampleHost c))
  let renamed ← sampleRename first.2.central
  let second ← succeeded
    ((register .sample sampleToken sampleRequest).run (.start sampleHost renamed.2.2))
  return (first.1, first.2.central, second.1, second.2.central)

/-- No credential is revoked and no principal disabled. -/
def allActive (c : Central) : Bool :=
  (c.credentials.all fun r => r.revokedAt.isNone) && c.principals.all fun p => p.disabledAt.isNone

theorem not_dead_of_allActive {hash : String} (hc : Served P c) (h : allActive c = true) :
    ¬Dead P hash c := by
  simp only [allActive, Bool.and_eq_true, List.all_eq_true, Option.isNone_iff_eq_none] at h
  rintro ⟨r, hr, -, ⟨now, hended⟩ | ⟨p, hp, -, hdisabled⟩⟩
  · simp [(hc.standing hr).live, h.1 r hr] at hended
  · exact hdisabled (h.2 p hp)

theorem sampleHost_working : Working .sample sampleHost where
  timestamp _ := ⟨"1970-01-01T00:00:00Z", rfl⟩
  millis _ := ⟨0, rfl⟩
  random i := ⟨Vector.replicate 32 (UInt8.ofNat i), rfl⟩
  failpoint := rfl

set_option maxRecDepth 20000 in
theorem sampleRetry_facts : ((sampleRetry (.baseline "journal")).map fun x =>
    (x.1.replayed, x.2.2.1.replayed, allActive x.2.2.2)) = some (false, true, true) := by
      decide +kernel

theorem sampleRetry_registering {x : RegistrationOutcome × Central × RegistrationOutcome × Central}
    (h : sampleRetry c = some x) :
    Registering .sample sampleToken c [(sampleRequest, x.1), (sampleRequest, x.2.2.1)] x.2.2.2 := by
  simp only [sampleRetry, Option.bind_eq_bind, Option.bind_eq_some_iff, succeeded_eq_some,
    Option.pure_def, Option.some.injEq] at h
  obtain ⟨⟨first, s⟩, hfirst, renamed, hrename, ⟨second, t⟩, hsecond, rfl⟩ := h
  obtain ⟨u, hcall, hcentral⟩ := sampleRename_call hrename
  have hrenamed : Registering .sample sampleToken c [(sampleRequest, first)] renamed.2.2 :=
    hcentral ▸ (Registering.start.register hfirst).call _ (by simp) hcall
  exact hrenamed.register hsecond

/-- A retry after a rename returns the first receipt, and another body conflicts. -/
theorem registration_once_sample : ∃ first second d,
    Registering .sample sampleToken (.baseline "journal")
    [(sampleRequest, first), (sampleRequest, second)] d ∧
    first.replayed = false ∧ second.replayed = true ∧ first.receipt = second.receipt ∧
    (register .sample sampleToken ⟨"ada", "Other"⟩).run (.start sampleHost d) =
    .error .conflict := by
  obtain ⟨x, hx, hfacts⟩ := Option.map_eq_some_iff.mp sampleRetry_facts
  obtain ⟨hfirst, hsecond, hactive⟩ : x.1.replayed = false ∧ x.2.2.1.replayed = true ∧
      allActive x.2.2.2 = true := by simpa using hfacts
  have hbaseline : Served .sample (.baseline "journal") := .of_content (.inr (.baseline "journal"))
  have hregistering := sampleRetry_registering hx
  have hdead : ¬Dead .sample (Platform.sample.digest sampleToken) x.2.2.2 :=
    not_dead_of_allActive (hbaseline.later hregistering.serves) hactive
  obtain ⟨-, -, hsame, -, -, hrefusals, -, -⟩ := registration_once
    (Platform.digest_injective (Platform.coded_sha256_injective _ _)).injOn
    (Platform.coded_registrationReceipt _ _) (Platform.coded_registrationRequestJson_injective _ _)
    hbaseline hregistering
  refine ⟨x.1, x.2.2.1, x.2.2.2, hregistering, hfirst, hsecond,
    hsame _ List.mem_cons_self _ (List.mem_cons_of_mem _ List.mem_cons_self), ?_⟩
  exact (hrefusals sampleHost ⟨"ada", "Other"⟩ sampleHost_working (by decide) (by decide)).1 hdead
    ⟨(sampleRequest, x.1), List.mem_cons_self, by simp [sampleRequest]⟩

def nulRequest : RegistrationRequest := ⟨"ada", "\x00"⟩

set_option maxRecDepth 20000 in
theorem nulRequest_facts : sampleStore.hasTokenHash (Platform.sample.digest otherToken) = false ∧
    (sampleStore.principalNames.any fun n => n.name = nulRequest.handle) = true ∧
    refused ((register .sample otherToken nulRequest).run (.start sampleHost sampleStore)) =
      some (.sqlite (.constraint .check)) := by decide +kernel

/-- A display name of one NUL passes the validation, which counts one character, and fails the CHECK
of SQLite, which counts none: a taken name is then answered with the database error and not as a
conflict. -/
theorem registration_nul :
    Served .sample sampleStore ∧ Working .sample sampleHost ∧ IsToken otherToken ∧
    nulRequest.validate = .ok () ∧ sampleStore.hasTokenHash (Platform.sample.digest otherToken) =
    false ∧
    (∃ n ∈ sampleStore.principalNames, n.name = nulRequest.handle) ∧
    (register .sample otherToken nulRequest).run (.start sampleHost sampleStore) =
      .error (.sqlite (.constraint .check)) := by
  obtain ⟨hunknown, htaken, hrefused⟩ := nulRequest_facts
  refine ⟨.of_content (.inr sampleStore_unadopted), sampleHost_working, by decide, by decide,
    hunknown, ?_,
    refused_eq_some.mp hrefused⟩
  simpa using htaken

end Sample

end Histories
end AgentJournal.Service
