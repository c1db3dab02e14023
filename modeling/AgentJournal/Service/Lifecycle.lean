import AgentJournal.Service.Authentication

/-! # The life of a credential

A credential is issued once and terminated at most once, and the audit says so. Once it is
terminated no path accepts it again; after a recovery only the new secret stands for the principal.
-/

namespace AgentJournal.Service
open Domain Foundation Storage Recovery

variable {P : Platform} {c d : Central} {host : Host} {token : String}

section Audit

/-- The audit rows of a credential that say it was issued. -/
def issuedRows (audit : List CredentialAuditRow) (id : String) : ℕ :=
  audit.countP fun e => e.credentialId = id && e.operation = .issued

/-- The audit rows of a credential that say it was rotated, revoked or recovered. -/
def terminatingRows (audit : List CredentialAuditRow) (id : String) : ℕ :=
  audit.countP fun e => e.credentialId = id && e.operation ≠ .issued

structure AuditedRow (audit : List CredentialAuditRow) (r : CredentialRow) : Prop where
  issued : issuedRows audit r.id = 1
  terminated : terminatingRows audit r.id ≤ 1
  live : r.revokedAt = none → terminatingRows audit r.id = 0

/-- Each credential is issued once and terminated at most once, an unrevoked one not at all. -/
def Audited (i : Identities) : Prop := ∀ r ∈ i.credentials, AuditedRow i.credentialAudit r

/-- The ids of credentials are distinct, and audit rows are about credentials. -/
structure Accounted (i : Identities) : Prop where
  ids : (i.credentials.map (·.id)).Nodup
  audited : ∀ e ∈ i.credentialAudit, ∃ r ∈ i.credentials, r.id = e.credentialId

theorem accounted_of_wellFormed (hc : WellFormed P c) : Accounted (identities c) where
  ids := by
    rw [List.Nodup, List.pairwise_map]
    exact hc.tables.credentials.keys.imp fun hapart heq =>
      hapart (by simp [Storage.credentials, heq])
  audited e he := by
    have hcredential := hc.references.credentialAudit e he
    simp only [Central.hasCredential, List.any_eq_true, decide_eq_true_eq] at hcredential
    exact hcredential

variable {i : Identities} {audit entries : List CredentialAuditRow}

/-- Rows for other credentials count for nothing. -/
theorem AuditedRow.append {r : CredentialRow} (h : AuditedRow audit r)
    (hother : ∀ e ∈ entries, e.credentialId ≠ r.id) : AuditedRow (audit ++ entries) r := by
  have hnone : ∀ p : CredentialAuditRow → Bool,
      (entries.countP fun e => e.credentialId = r.id && p e) = 0 := by
    intro p
    rw [List.countP_eq_zero]
    intro e he
    simp [hother e he]
  have hissued : issuedRows (audit ++ entries) r.id = issuedRows audit r.id := by
    simp only [issuedRows, List.countP_append, hnone, Nat.add_zero]
  have hterminated : terminatingRows (audit ++ entries) r.id = terminatingRows audit r.id := by
    simp only [terminatingRows, List.countP_append, hnone, Nat.add_zero]
  exact ⟨hissued.trans h.issued, hterminated ▸ h.terminated, fun hlive =>
    hterminated.trans (h.live hlive)⟩

theorem Audited.issue {row : CredentialRow} {entry : CredentialAuditRow} (h : Audited i)
    (hi : Accounted i)
    (hids : ((i.credentials ++ [row]).map (·.id)).Nodup) (hentry : entry.credentialId = row.id)
    (hoperation : entry.operation = .issued) : Audited (i.issue row entry) := by
  have hfresh : ∀ r ∈ i.credentials, r.id ≠ row.id := by
    rw [List.map_append, List.nodup_append] at hids
    exact fun r hr => hids.2.2 r.id (List.mem_map_of_mem hr) row.id (by simp)
  intro r hr
  rcases List.mem_append.mp hr with hold | hnew
  · refine (h r hold).append fun e he => ?_
    rw [List.mem_singleton.mp he, hentry]
    exact (hfresh r hold).symm
  · rw [List.mem_singleton.mp hnew]
    have hnone : ∀ p : CredentialAuditRow → Bool,
        (i.credentialAudit.countP fun e => e.credentialId = row.id && p e) = 0 := by
      intro p
      rw [List.countP_eq_zero]
      intro e he
      obtain ⟨r', hr', hid⟩ := hi.audited e he
      simp [← hid, hfresh r' hr']
    have hissued : issuedRows (i.credentialAudit ++ [entry]) row.id = 1 := by
      simp only [issuedRows, List.countP_append, hnone, Nat.zero_add]
      simp [hentry, hoperation]
    have hterminated : terminatingRows (i.credentialAudit ++ [entry]) row.id = 0 := by
      simp only [terminatingRows, List.countP_append, hnone, Nat.zero_add]
      simp [hoperation]
    exact ⟨hissued, hterminated.trans_le (Nat.zero_le 1), fun _ => hterminated⟩

/-- The rows that a termination writes name each terminated credential once. -/
theorem Audits.count {operation : CredentialOperation} {ids : List String}
    (h : Audits operation ids entries)
    (hne : operation ≠ .issued) (id : String) :
    issuedRows entries id = 0 ∧ terminatingRows entries id = ids.count id := by
  have hcount : ∀ p : String × CredentialOperation → Bool,
      (entries.countP fun e => p (e.credentialId, e.operation)) =
        ids.countP fun x => p (x, operation) := by
    intro p
    have hmap := congrArg (List.countP p) h
    rw [List.countP_map, List.countP_map] at hmap
    exact hmap
  refine ⟨?_, ?_⟩
  · refine (hcount fun x => x.1 = id && x.2 = .issued).trans ?_
    simp [hne]
  · refine (hcount fun x => x.1 = id && x.2 ≠ .issued).trans ?_
    simp [hne, List.count, BEq.beq]

theorem Audited.terminate {p : CredentialRow → Bool} {f : CredentialRow → CredentialRow}
    {operation : CredentialOperation} (h : Audited i) (hids : (i.credentials.map (·.id)).Nodup)
    (hlive : ∀ r ∈ i.credentials, p r = true → r.revokedAt = none)
    (hentries : Audits operation ((i.credentials.filter p).map (·.id)) entries)
    (hoperation : operation ≠ .issued)
    (hf : ∀ r, (f r).identity = r.identity ∧ (f r).revokedAt ≠ none) :
    Audited (i.terminate p f entries) := by
  intro r hr
  obtain ⟨r', hr', rfl⟩ := List.mem_map.mp hr
  have hcounts := hentries.count hoperation r'.id
  by_cases hp : p r' = true
  · rw [if_pos hp]
    obtain ⟨hidentity, hrevoked⟩ := hf r'
    have hid : (f r').id = r'.id := congrArg (fun x => x.1) hidentity
    have hissued : issuedRows (i.credentialAudit ++ entries) r'.id = 1 := by
      have hold := (h r' hr').issued
      rw [issuedRows] at hold hcounts ⊢
      rw [List.countP_append, hold, hcounts.1]
    have hterminated : terminatingRows (i.credentialAudit ++ entries) r'.id ≤ 1 := by
      have hold := (h r' hr').live (hlive r' hr' hp)
      rw [terminatingRows] at hold hcounts ⊢
      rw [List.countP_append, hold, hcounts.2, Nat.zero_add]
      exact List.nodup_iff_count_le_one.mp ((List.filter_sublist.map _).nodup hids) _
    exact ⟨hid ▸ hissued, hid ▸ hterminated, fun hnone => absurd hnone hrevoked⟩
  · rw [if_neg hp]
    refine (h r' hr').append fun e he heq => ?_
    have hmem : (e.credentialId, e.operation) ∈ ((i.credentials.filter p).map (·.id)).map
        fun id => (id, operation) := hentries ▸ List.mem_map_of_mem he
    simp only [List.mem_map, List.mem_filter, Prod.mk.injEq] at hmem
    obtain ⟨id, ⟨x, ⟨hx, hpx⟩, rfl⟩, hid, -⟩ := hmem
    have hsame : x = r' := List.inj_on_of_nodup_map hids hx hr' (hid.trans heq)
    exact hp (hsame ▸ hpx)

/-- A termination keeps the ids. -/
theorem terminate_ids {p : CredentialRow → Bool} {f : CredentialRow → CredentialRow}
    (hf : ∀ r, (f r).identity = r.identity) (rows : List CredentialRow) :
    (rows.map fun r => if p r then f r else r).map (·.id) = rows.map (·.id) := by
  rw [List.map_map]
  refine List.map_congr_left fun r _ => ?_
  simp only [Function.comp_apply]
  split
  · exact congrArg (fun x => x.1) (hf r)
  · rfl

/-- The credential of an id is the only one that a termination by id matches. -/
theorem filter_id {rows : List CredentialRow} (hids : (rows.map (·.id)).Nodup) {row : CredentialRow}
    (hrow : row ∈ rows) : rows.filter (fun r => r.id = row.id) = [row] := by
  have hnodup : (rows.filter fun r => r.id = row.id).Nodup := (List.Nodup.of_map _ hids).filter _
  refine List.perm_singleton.mp
    ((List.perm_ext_iff_of_nodup hnodup (List.nodup_singleton row)).mpr fun r => ?_)
  simp only [List.mem_filter, decide_eq_true_eq, List.mem_singleton]
  constructor
  · exact fun hr => List.inj_on_of_nodup_map hids hr.1 hrow hr.2
  · rintro rfl
    exact ⟨hrow, rfl⟩

theorem audited_invariant (P : Platform) : Invariant P fun c => Audited (identities c) := by
  refine Invariant.of_steps (by simp [Audited])
    (fun {c d} hc hd h hstep => ?_) fun {clock l d} hmerged h => ?_
  · have haccounted := accounted_of_wellFormed hc
    have hlater := (accounted_of_wellFormed hd).ids
    generalize identities d = i at hstep hlater
    cases hstep with
    | same | created | disabled => exact h
    | @updated principal current handle now _ _ _ _ _ =>
      obtain ⟨names, hnames⟩ := (identities c).renamed_eq principal current handle now
      rw [hnames]
      exact h
    | registered _ _ _ hissues =>
      exact h.issue haccounted hlater hissues.credentialId hissues.operation
    | @rotated _ row credential entry rotated f hrow hlive hissues hexpires haudits hf =>
      have hids : (((identities c).credentials ++ [credential]).map (·.id)).Nodup := by
        rw [← terminate_ids (p := fun r => r.id = row.id) fun r => (hf r).1]
        exact hlater
      have hmem : row ∈ (identities c).credentials ++ [credential] := List.mem_append_left _ hrow
      have hentries : Audits .rotated ((((identities c).credentials ++ [credential]).filter fun r =>
          r.id = row.id).map (·.id)) [rotated] := by
        rw [filter_id hids hmem]
        exact haudits
      refine (h.issue haccounted hids hissues.credentialId hissues.operation).terminate hids
        (fun r hr hp => ?_) hentries (by simp) hf
      rw [List.inj_on_of_nodup_map hids hr hmem (of_decide_eq_true hp)]
      exact hlive
    | @revoked row entry f hrow hlive haudits hf =>
      have hentries : Audits .revoked
        (((identities c).credentials.filter fun r => r.id = row.id).map
          (·.id)) [entry] := by
        rw [filter_id haccounted.ids hrow]
        exact haudits
      refine h.terminate haccounted.ids (fun r hr hp => ?_) hentries (by simp) hf
      rw [List.inj_on_of_nodup_map haccounted.ids hr hrow (of_decide_eq_true hp)]
      exact hlive
    | @recovered _ credential entry entries p f hlive haudits hf hissues hexpires =>
      have hterminated := h.terminate haccounted.ids (fun r _ => hlive r) haudits (by simp) hf
      refine hterminated.issue ⟨?_, fun e he => ?_⟩ hlater hissues.credentialId hissues.operation
      · rw [show ((identities c).terminate p f entries).credentials.map (·.id) = _ from
          terminate_ids (fun r => (hf r).1) _]
        exact haccounted.ids
      · have hid : ∃ r ∈ (identities c).credentials, r.id = e.credentialId := by
          rcases List.mem_append.mp he with hold | hnew
          · exact haccounted.audited e hold
          · have hmem : (e.credentialId, e.operation) ∈
              (((identities c).credentials.filter p).map (·.id)).map
                fun id => (id, CredentialOperation.recovered) := haudits ▸ List.mem_map_of_mem hnew
            simp only [List.mem_map, List.mem_filter, Prod.mk.injEq] at hmem
            obtain ⟨id, ⟨x, ⟨hx, -⟩, rfl⟩, hid, -⟩ := hmem
            exact ⟨x, hx, hid⟩
        obtain ⟨r, hr, hid⟩ := hid
        refine ⟨_, List.mem_map_of_mem hr, ?_⟩
        split
        · exact (congrArg (fun x => x.1) (hf r).1).trans hid
        · exact hid
  · intro r hr
    obtain ⟨r', hr', rfl⟩ := List.mem_map.mp (hmerged.credentials.mem_iff.mp hr)
    have hid : (writtenCredential clock r').id = r'.id := rfl
    have hrow := h r' hr'
    have hissued : issuedRows d.credentialAudit r'.id = 1 :=
      (hmerged.credentialAudit.countP_eq _).trans hrow.issued
    have hterminated : terminatingRows d.credentialAudit r'.id =
      terminatingRows l.credentialAudit r'.id :=
      hmerged.credentialAudit.countP_eq _
    refine ⟨hid ▸ hissued, ?_, fun hnone => ?_⟩
    · rw [hid, hterminated]
      exact hrow.terminated
    · simp [writtenCredential, revokedCredential] at hnone

end Audit

section Terminated
variable {row : CredentialRow}

theorem Terminated.serves (hc : Served P c) (h : Serves P c d) (hrow : Terminated row c) :
    Terminated row d := by
  obtain ⟨r, hr, hidentity, hrevoked⟩ := hrow
  obtain ⟨r', hr', hidentity', hkept⟩ := (h.extended hc.wellFormed hc.sound).credentials r hr
  exact ⟨r', hr', hidentity'.trans hidentity, hkept hrevoked⟩

theorem Terminated.fenced (hc : WellFormed P c) (h : Terminated row c) :
    Fenced row.tokenHash c := by
  obtain ⟨r, hr, hidentity, hrevoked⟩ := h
  have hhash : r.tokenHash = row.tokenHash := congrArg (fun x => x.2.2.2.1) hidentity
  refine ⟨⟨r, hr, hhash⟩, fun x hx hxhash => ?_⟩
  obtain rfl : x = r := hc.tables.credentials.eq_of_collides hx hr
    (by simp [Schema.collides, Storage.credentials, hxhash, hhash])
  exact hrevoked

/-- A path that looks for the live credential of its actor. -/
theorem Terminated.not_valid (hc : Served P c) (h : Terminated row c)
    {actor : AuthenticatedCredential}
    (hactor : actor.credentialId = row.id) (now : String) :
    credentialValid P c now actor = false := by
  rw [← Bool.not_eq_true]
  intro hvalid
  obtain ⟨x, hx, hid, -, hlive⟩ := (credentialValid_iff hc).mp hvalid
  obtain ⟨r, hr, hidentity, hrevoked⟩ := h
  have hrid : r.id = row.id := congrArg (fun x => x.1) hidentity
  obtain rfl : x = r := hc.wellFormed.tables.credentials.eq_of_key hx hr
    (by simp [Storage.credentials, hid, hactor, hrid])
  exact hrevoked hlive

theorem authenticateAppendReplay_fenced {s : Session} (hf : Fenced (P.digest token) s.central) :
    succeeded ((authenticateAppendReplay P token).run s) = none :=
  lookup_fenced hf (by simp +contextual)

/-- No path accepts the credential, by its token or by its id. -/
structure Shut (P : Platform) (row : CredentialRow) (c : Central) : Prop where
  byToken : ∀ host token, P.digest token = row.tokenHash →
    succeeded ((authenticate P token .principalClient).run (.start host c)) = none ∧
    succeeded ((authenticateAppendReplay P token).run (.start host c)) = none ∧
    succeeded ((journalActor P token).run (.start host c)) = none ∧
    succeeded ((appendReplayActor P token).run (.start host c)) = none ∧
    ∀ request, succeeded ((register P token request).run (.start host c)) = none
  byId : ∀ host (actor : AuthenticatedCredential), actor.credentialId = row.id →
    succeeded ((me P actor).run (.start host c)) = none ∧
    ∀ key request, succeeded ((updateOwnProfile P actor key request).run (.start host c)) = none

theorem Terminated.shut (hc : Served P c) (h : Terminated row c) : Shut P row c where
  byToken host token hhash := by
    have hfenced : Fenced (P.digest token) (Session.start host c).central :=
      hhash ▸ h.fenced hc.wellFormed
    exact ⟨authenticate_fenced hfenced _, authenticateAppendReplay_fenced hfenced,
      journalActor_fenced hfenced, appendReplayActor_fenced hfenced, register_fenced hfenced⟩
  byId host actor hactor := by
    refine ⟨?_, fun key request => ?_⟩
    · rw [Option.eq_none_iff_forall_ne_some]
      rintro ⟨profile, t⟩ hrun
      simp only [succeeded_eq_some, me, refuse, run_bind_eq_ok, query_eq_ok, attempt_eq_ok,
        failIf_eq_ok] at hrun
      obtain ⟨_, _, ⟨-, rfl⟩, now, s, hnow, _, _, ⟨rfl, rfl⟩, _, _, ⟨hvalid, -⟩, -⟩ := hrun
      rw [now_central hnow] at hvalid
      exact hvalid (h.not_valid hc hactor now)
    · rw [Option.eq_none_iff_forall_ne_some]
      rintro ⟨profile, t⟩ hrun
      obtain ⟨now, s, -, hvalid, -⟩ := updateOwnProfile_eq_ok (succeeded_eq_some.mp hrun)
      have hinvalid := h.not_valid hc hactor now
      change credentialValid P c now actor = true at hvalid
      simp [hinvalid] at hvalid

end Terminated

section Recovered
variable {request : PrincipalRecoveryRequest} {response : PrincipalRecoveryResponse} {t : Session}

/-- The only unrevoked credential of a recovered principal is the new one. -/
theorem recoverPrincipal_bears (hc : Served P c)
    (h : (recoverPrincipal P request).run (.start host c) = .ok (response, t)) {row : CredentialRow}
    (hrow : row ∈ t.central.credentials) (hprincipal : row.principalId = request.principalId)
    (hlive : row.revokedAt = none) :
    row.id = response.replacementSecret.credentialId ∧
      row.tokenHash = P.digest response.replacementSecret.secret := by
  obtain ⟨now, s', issued, entries, -, -, -, -, -, -, heq⟩ := recoverPrincipal_eq_ok h
  change row ∈ (identities t.central).credentials at hrow
  rw [heq] at hrow
  rcases List.mem_append.mp hrow with hold | hnew
  · obtain ⟨r, hr, rfl⟩ := List.mem_map.mp hold
    have hmem : r ∈ c.credentials := hr
    by_cases htarget : (r.principalId = request.principalId && live P now r) = true
    · rw [if_pos htarget] at hlive
      cases hlive
    · rw [if_neg htarget] at hlive hprincipal
      rw [(hc.standing hmem).live, hlive] at htarget
      simp [hprincipal] at htarget
  · rw [List.mem_singleton.mp hnew]
    exact ⟨rfl, rfl⟩

theorem recoverPrincipal_issued
    (h : (recoverPrincipal P request).run (.start host c) = .ok (response, t)) :
    ∃ row, Bears P t.central response.replacementSecret.secret row ∧
      row.id = response.replacementSecret.credentialId ∧ row.principalId = request.principalId := by
  obtain ⟨now, s', issued, entries, -, -, -, -, -, -, heq⟩ := recoverPrincipal_eq_ok h
  refine ⟨⟨response.replacementSecret.credentialId, request.principalId, .principalClient,
    P.digest response.replacementSecret.secret, now, none, none, none, none⟩, ⟨?_, rfl, rfl⟩, rfl,
      rfl⟩
  change _ ∈ (identities t.central).credentials
  rw [heq]
  exact List.mem_append_right _ (List.mem_singleton_self _)

end Recovered

/-- A terminated credential is shut on every path from then on. Right after a recovery the new
secret is the only one that any path takes for the principal, and it authenticates exactly while the
principal is active. A rotation passes principal, class and expiry on. The audit holds one row for
the issue of a credential and at most one for its end. -/
theorem credential_lifecycle (hsha : Function.Injective P.sha256) (hc : Served P c) :
    (∀ (call : Call) host row t, row ∈ c.credentials → call.terminates row →
      (call.perform P).run (.start host c) = .ok ((), t) → ∀ d, Serves P t.central d →
      Shut P row d) ∧
    (∀ host request response t,
      (recoverPrincipal P request).run (.start host c) = .ok (response, t) → ∀ host' token,
        (∀ actor u, (authenticate P token .principalClient).run (.start host' t.central) =
          .ok (actor, u) →
          actor.principalId = request.principalId → token = response.replacementSecret.secret) ∧
        (∀ u, (journalActor P token).run (.start host' t.central) = .ok (request.principalId, u) →
          token = response.replacementSecret.secret) ∧
        (∀ actor u, (authenticateAppendReplay P token).run (.start host' t.central) =
          .ok (actor, u) →
          actor.principalId = request.principalId → token = response.replacementSecret.secret) ∧
        (∀ u, (appendReplayActor P token).run (.start host' t.central) =
          .ok (request.principalId, u) →
          token = response.replacementSecret.secret) ∧
        ((∃ u, (authenticate P response.replacementSecret.secret .principalClient).run
            (.start host' t.central) =
            .ok (⟨response.replacementSecret.credentialId, request.principalId,
              .principalClient⟩, u)) ↔ Reads P host' ∧ Active t.central request.principalId)) ∧
    (∀ host request rotation t, (rotate P request).run (.start host c) = .ok (rotation, t) →
      ∃ row ∈ c.credentials, row.id = request.credentialId ∧
        ∃ row' ∈ t.central.credentials, row'.id = rotation.replacementSecret.credentialId ∧
          row'.tokenHash = P.digest rotation.replacementSecret.secret ∧
          row'.principalId = row.principalId ∧ row'.credentialClass = row.credentialClass ∧
          row'.expiresAt = row.expiresAt) ∧
    ∀ r ∈ c.credentials, issuedRows c.credentialAudit r.id = 1 ∧
    terminatingRows c.credentialAudit r.id ≤ 1 := by
  refine ⟨fun call host row t hrow hterminates hrun d hserves => ?_,
    fun host request response t hrecover host' token => ?_, fun host request rotation t hrotate =>
    ?_,
    fun r hr => ?_⟩
  · have ht : Served P t.central := hc.later (Serves.refl.call call hrun)
    exact ((call.perform_terminated hc hrow hterminates hrun).serves ht hserves).shut
      (ht.later hserves)
  · have ht : Served P t.central := hc.later (Serves.refl.call (.recoverPrincipal request)
      (run_bind_eq_ok.mpr ⟨response, t, hrecover, rfl⟩))
    have honly : ∀ row, Bears P t.central token row → row.principalId = request.principalId →
        token = response.replacementSecret.secret := by
      intro row hbears hprincipal
      have hhash := (recoverPrincipal_bears hc hrecover hbears.mem hprincipal hbears.unrevoked).2
      exact Platform.digest_injective hsha (hbears.tokenHash.symm.trans hhash)
    refine ⟨fun actor u hrun hprincipal => ?_, fun u hrun => ?_, fun actor u hrun hprincipal => ?_,
      fun u hrun => ?_, ?_⟩
    · obtain ⟨-, row, hbears, -, rfl⟩ := (authenticate_accepts hsha ht).mp ⟨u, hrun⟩
      exact honly row hbears hprincipal
    · obtain ⟨-, row, hbears, -, hprincipal⟩ := (journalActor_accepts hsha ht).mp ⟨u, hrun⟩
      exact honly row hbears hprincipal
    · obtain ⟨-, row, hbears, -, rfl⟩ := (authenticateAppendReplay_accepts hsha ht).mp ⟨u, hrun⟩
      exact honly row hbears hprincipal
    · obtain ⟨-, row, hbears, -, hprincipal⟩ := (appendReplayActor_accepts hsha ht).mp ⟨u, hrun⟩
      exact honly row hbears hprincipal
    · rw [authenticate_accepts hsha ht]
      obtain ⟨row, hbears, hid, hprincipal⟩ := recoverPrincipal_issued hrecover
      constructor
      · rintro ⟨hreads, row', hbears', hactive, heq⟩
        obtain rfl := hbears'.unique ht.wellFormed hbears
        exact ⟨hreads, hprincipal ▸ hactive⟩
      · rintro ⟨hreads, hactive⟩
        exact ⟨hreads, row, hbears, hprincipal ▸ hactive, by rw [hid, hprincipal]⟩
  · obtain ⟨now, s', row, issued, rotated, -, hrow, -, -, -, -, -, -, heq⟩ := rotate_eq_ok hrotate
    have hmem : row ∈ c.credentials := List.mem_of_find?_eq_some hrow
    have hfound := List.find?_some hrow
    simp only [Bool.and_eq_true, decide_eq_true_eq] at hfound
    have hissued : ∀ x ∈ (identities c).credentials ++ [⟨rotation.replacementSecret.credentialId,
        row.principalId, .principalClient, P.digest rotation.replacementSecret.secret, now,
        row.expiresAt,
        none, none, none⟩], ∃ x' ∈ t.central.credentials, x'.identity = x.identity := by
      intro x hx
      change ∃ x' ∈ (identities t.central).credentials, _
      rw [heq]
      refine ⟨_, List.mem_map_of_mem hx, ?_⟩
      split
      · rfl
      · rfl
    obtain ⟨row', hrow', hidentity⟩ :=
      hissued _ (List.mem_append_right _ (List.mem_singleton_self _))
    simp only [CredentialRow.identity, Prod.mk.injEq] at hidentity
    obtain ⟨hid, hprincipal, -, hhash, -, hexpires⟩ := hidentity
    exact ⟨row, hmem, hfound.1, row', hrow', hid, hhash, hprincipal, credentialClass_eq _ _,
      hexpires⟩
  · have hrow := hc.invariant (audited_invariant P) r hr
    exact ⟨hrow.issued, hrow.terminated⟩

section Sample

def sampleRecovery : Except BootstrapError (PrincipalRecoveryResponse × Session) :=
  (recoverPrincipal .sample ⟨samplePrincipal, none⟩).run (.start sampleHost sampleStore)

set_option maxRecDepth 20000 in
theorem sampleRecovery_facts : ((succeeded sampleRecovery).map fun x =>
    (decide (x.1.replacementSecret.secret ≠ sampleToken), sampleStore.credentials.any fun r =>
      r.tokenHash = Platform.sample.digest sampleToken && r.principalId = samplePrincipal)) =
        some (true, true) := by decide +kernel

/-- After a recovery the sample token is shut and only the new secret stands for the principal. -/
theorem credential_lifecycle_sample : ∃ response t, sampleRecovery = .ok (response, t) ∧
    response.replacementSecret.secret ≠ sampleToken ∧
    succeeded ((journalActor .sample sampleToken).run (.start sampleHost t.central)) = none ∧
    ∀ token actor u, (authenticate .sample token .principalClient).run
    (.start sampleHost t.central) =
      .ok (actor, u) → actor.principalId = samplePrincipal →
      token = response.replacementSecret.secret := by
  have hserved : Served .sample sampleStore := .of_content (.inr sampleStore_unadopted)
  obtain ⟨⟨response, t⟩, hrecover, hfacts⟩ := Option.map_eq_some_iff.mp sampleRecovery_facts
  rw [succeeded_eq_some] at hrecover
  simp only [Prod.mk.injEq, decide_eq_true_eq, List.any_eq_true, Bool.and_eq_true] at hfacts
  obtain ⟨hne, row, hrow, hhash, hprincipal⟩ := hfacts
  obtain ⟨hshut, honly, -⟩ := credential_lifecycle (Platform.coded_sha256_injective _ _) hserved
  have hrun : ((Call.recoverPrincipal ⟨samplePrincipal, none⟩).perform .sample).run
      (.start sampleHost sampleStore) = .ok ((), t) :=
        run_bind_eq_ok.mpr ⟨response, t, hrecover, rfl⟩
  have hdead := hshut (.recoverPrincipal ⟨samplePrincipal, none⟩) sampleHost row t hrow
    hprincipal.symm hrun _ .refl
  refine ⟨response, t, hrecover, hne, (hdead.byToken sampleHost sampleToken hhash.symm).2.2.1,
    fun token actor u hactor hsame => ?_⟩
  exact (honly sampleHost _ response t hrecover sampleHost token).1 actor u hactor hsame

end Sample

end AgentJournal.Service
