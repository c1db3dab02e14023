import AgentJournal.Service.Identity
import AgentJournal.Service.Traversal

/-! # What a credential is and when it ends

Every credential was issued for a token and none of them expires. A credential ends when it is
revoked or its principal is disabled, and nothing brings it back.
-/

namespace AgentJournal.Service
open Domain Foundation Storage Recovery

variable {P : Platform} {c d : Central} {hash : String}

section Standing

/-- A credential as every path issues it. -/
structure Standing (P : Platform) (r : CredentialRow) : Prop where
  token : ∃ token, IsToken token ∧ r.tokenHash = P.digest token
  unexpiring : r.expiresAt = none

variable {r r' : CredentialRow}

theorem Standing.of_identity (h : Standing P r) (hidentity : r'.identity = r.identity) :
    Standing P r' := by
  simp only [CredentialRow.identity, Prod.mk.injEq] at hidentity
  obtain ⟨-, -, -, hhash, -, hexpires⟩ := hidentity
  exact ⟨hhash ▸ h.token, hexpires.trans h.unexpiring⟩

theorem Issues.standing {token : String} {entry : CredentialAuditRow} (h : Issues P token r entry)
    (hexpires : r.expiresAt = none) : Standing P r := ⟨⟨token, h.isToken, h.tokenHash⟩, hexpires⟩

theorem Standing.unexpired (h : Standing P r) (now : String) : unexpired P now r = true := by
  simp [Service.unexpired, h.unexpiring]

/-- The clock plays no part in whether a credential is live. -/
theorem Standing.live (h : Standing P r) (now : String) : live P now r = r.revokedAt.isNone := by
  rw [Service.live, h.unexpired, Bool.and_true]

variable {i : Identities}

theorem standing_terminate {p : CredentialRow → Bool} {f : CredentialRow → CredentialRow}
    {entries : List CredentialAuditRow} (h : ∀ r ∈ i.credentials, Standing P r)
    (hf : ∀ r, (f r).identity = r.identity) :
    ∀ r ∈ (i.terminate p f entries).credentials, Standing P r := by
  intro r hr
  obtain ⟨r', hr', rfl⟩ := List.mem_map.mp hr
  split
  · exact (h r' hr').of_identity (hf r')
  · exact h r' hr'

theorem standing_issue (h : ∀ r ∈ i.credentials, Standing P r) (hr : Standing P r) :
    ∀ x ∈ i.credentials ++ [r], Standing P x := by
  intro x hx
  rcases List.mem_append.mp hx with hold | hnew
  · exact h x hold
  · rw [List.mem_singleton.mp hnew]
    exact hr

theorem standing_invariant (P : Platform) :
    Invariant P fun c => ∀ r ∈ (identities c).credentials, Standing P r := by
  refine Invariant.of_steps (J := fun i => ∀ r ∈ i.credentials, Standing P r) (by simp)
    (fun {c d} _ _ h hstep => ?_) fun {clock l d} hmerged h => ?_
  · generalize identities d = i at hstep
    cases hstep with
    | same | created | disabled => exact h
    | @updated principal current handle now _ _ _ _ _ =>
      obtain ⟨names, hnames⟩ := (identities c).renamed_eq principal current handle now
      rw [hnames]
      exact h
    | registered _ _ _ hissues => exact standing_issue h (hissues.standing rfl)
    | rotated hrow _ hissues hexpires _ hf =>
      exact standing_terminate
        (standing_issue h (hissues.standing (hexpires.trans (h _ hrow).unexpiring)))
        fun r => (hf r).1
    | revoked _ _ _ hf => exact standing_terminate h fun r => (hf r).1
    | recovered _ _ hf hissues hexpires =>
      exact standing_issue (standing_terminate h fun r => (hf r).1) (hissues.standing hexpires)
  · intro r hr
    obtain ⟨r', hr', rfl⟩ := List.mem_map.mp (hmerged.credentials.mem_iff.mp hr)
    exact (h r' hr').of_identity (writtenCredential_identity r')

theorem Served.standing (hc : Served P c) (hr : r ∈ c.credentials) : Standing P r :=
  hc.invariant (standing_invariant P) r hr

end Standing

section Dead

/-- The digest is that of a credential that is revoked or expired, or whose principal is
disabled. -/
def Dead (P : Platform) (hash : String) (c : Central) : Prop :=
  ∃ r ∈ c.credentials, r.tokenHash = hash ∧ ((∃ now, live P now r = false) ∨
    ∃ p ∈ c.principals, p.id = r.principalId ∧ p.disabledAt ≠ none)

theorem live_of_revoked {r : CredentialRow} (h : r.revokedAt ≠ none) (now : String) :
    live P now r = false := by
  simp [live, h]

/-- A principal is never deleted, and a disabled one stays disabled. -/
def PrincipalKept (p p' : PrincipalRow) : Prop :=
  p'.id = p.id ∧ (p.disabledAt ≠ none → p'.disabledAt ≠ none)

theorem IdentityStep.principals {i : Identities} (h : IdentityStep P c i) :
    ∀ p ∈ c.principals, ∃ p' ∈ i.principals, PrincipalKept p p' := by
  have hkept : ∀ (q : PrincipalRow → Bool) (f : PrincipalRow → PrincipalRow),
    (∀ r, PrincipalKept r (f r)) →
      ∀ p ∈ c.principals, ∃ p' ∈ c.principals.map (fun r => if q r then f r else r),
      PrincipalKept p p' := by
    intro q f hf p hp
    refine ⟨_, List.mem_map_of_mem hp, ?_⟩
    split
    · exact hf p
    · exact ⟨rfl, id⟩
  intro p hp
  cases h with
  | same | rotated | revoked | recovered => exact ⟨p, hp, rfl, id⟩
  | created | registered => exact ⟨p, List.mem_append_left _ hp, rfl, id⟩
  | @updated principal current handle now q f key _ hf =>
    obtain ⟨names, hnames⟩ := (identities c).renamed_eq principal current handle now
    rw [hnames]
    exact hkept q f hf p hp
  | disabled hf => exact hkept _ _ hf p hp

theorem Serves.principals (hc : WellFormed P c) (hsound : JournalSound c) (h : Serves P c d) :
    ∀ p ∈ c.principals, ∃ p' ∈ d.principals, PrincipalKept p p' := by
  refine (h.invariant (I := fun d => ∀ p ∈ c.principals, ∃ p' ∈ d.principals, PrincipalKept p p')
    (fun _ _ h => h) (fun call _ d t _ _ hd hrun p hp => ?_) hc hsound fun p hp =>
    ⟨p, hp, rfl, id⟩).2.2
  obtain ⟨p₁, hp₁, hid₁, hdisabled₁⟩ := hd p hp
  obtain ⟨p₂, hp₂, hid₂, hdisabled₂⟩ := (call.perform_step hrun).principals p₁ hp₁
  exact ⟨p₂, hp₂, hid₂.trans hid₁, hdisabled₂ ∘ hdisabled₁⟩

/-- What is dead stays dead. -/
theorem Dead.serves (hc : Served P c) (h : Serves P c d) (hdead : Dead P hash c) :
    Dead P hash d := by
  obtain ⟨r, hr, hhash, hended⟩ := hdead
  obtain ⟨r', hr', hidentity, hrevoked⟩ := (h.extended hc.wellFormed hc.sound).credentials r hr
  simp only [CredentialRow.identity, Prod.mk.injEq] at hidentity
  obtain ⟨-, hprincipal, -, hhash', -⟩ := hidentity
  refine ⟨r', hr', hhash'.trans hhash, ?_⟩
  rcases hended with ⟨now, hended⟩ | ⟨p, hp, hid, hdisabled⟩
  · rw [(hc.standing hr).live, Option.isNone_eq_false_iff, Option.isSome_iff_ne_none] at hended
    exact .inl ⟨now, live_of_revoked (hrevoked hended) now⟩
  · obtain ⟨p', hp', hid', hdisabled'⟩ := h.principals hc.wellFormed hc.sound p hp
    exact .inr ⟨p', hp', hid'.trans (hid.trans hprincipal.symm), hdisabled' hdisabled⟩

/-- The calls that end a credential. -/
def Call.ends (row : CredentialRow) : Call → Prop
  | .rotate request => request.credentialId = row.id
  | .revoke credentialId _ => credentialId = row.id
  | .recoverPrincipal request => request.principalId = row.principalId
  | .disablePrincipal id _ => id = row.principalId
  | _ => False

/-- The calls that revoke a credential. -/
def Call.terminates (row : CredentialRow) : Call → Prop
  | .rotate request => request.credentialId = row.id
  | .revoke credentialId _ => credentialId = row.id
  | .recoverPrincipal request => request.principalId = row.principalId
  | _ => False

/-- The credential is there, revoked. -/
def Terminated (row : CredentialRow) (c : Central) : Prop :=
  ∃ r ∈ c.credentials, r.identity = row.identity ∧ r.revokedAt ≠ none

/-- After a rewrite of the credentials that match, one that matched is revoked. -/
theorem terminated_of_matching {row : CredentialRow} {p : CredentialRow → Bool}
    {f : CredentialRow → CredentialRow} (hrow : row ∈ c.credentials) (hp : p row = true)
    (hidentity : (f row).identity = row.identity) (hrevoked : (f row).revokedAt ≠ none)
    (hd : ∀ r ∈ c.credentials, (if p r then f r else r) ∈ d.credentials) : Terminated row d := by
  have hmem := hd row hrow
  rw [if_pos hp] at hmem
  exact ⟨f row, hmem, hidentity, hrevoked⟩

theorem Call.perform_terminated {call : Call} {row : CredentialRow} {host : Host} {t : Session}
    (hc : Served P c) (hrow : row ∈ c.credentials) (hterminates : call.terminates row)
    (hrun : (call.perform P).run (.start host c) = .ok ((), t)) : Terminated row t.central := by
  cases call with
  | rotate request =>
    obtain ⟨rotation, t', hrotate, hpure⟩ := run_bind_eq_ok.mp hrun
    obtain ⟨-, rfl⟩ := run_pure_eq_ok.mp hpure
    obtain ⟨now, s', found, issued, rotated, -, -, -, -, -, -, -, -, heq⟩ := rotate_eq_ok hrotate
    have hcredentials := congrArg Identities.credentials heq
    refine terminated_of_matching hrow (p := fun r => r.id = request.credentialId)
      (f := fun r => { r with
        revokedAt := some now
        replacementCredentialId := some rotation.replacementSecret.credentialId
        revocationReason := request.reason }) (by simp [hterminates.symm]) rfl (by simp) fun r hr =>
          ?_
    change _ ∈ (Service.identities t'.central).credentials
    rw [hcredentials]
    exact List.mem_map.mpr ⟨r, List.mem_append_left _ hr, rfl⟩
  | revoke credentialId reason =>
    obtain ⟨metadata, t', hrevoke, hpure⟩ := run_bind_eq_ok.mp hrun
    obtain ⟨-, rfl⟩ := run_pure_eq_ok.mp hpure
    obtain ⟨found, hfound, ⟨hrevoked, hcentral⟩ | ⟨-, now, revoked, -, -, heq⟩⟩ :=
      revoke_eq_ok hrevoke
    · have hid : found.id = credentialId := by simpa using List.find?_some hfound
      obtain rfl : found = row := hc.wellFormed.tables.credentials.eq_of_key
        (List.mem_of_find?_eq_some hfound) hrow
        (by simp [Storage.credentials, hid, hterminates.symm])
      exact ⟨found, hcentral ▸ hrow, rfl, hrevoked⟩
    · have hcredentials := congrArg Identities.credentials heq
      refine terminated_of_matching hrow (p := fun r => r.id = credentialId)
        (f := fun r => { r with revokedAt := some now, revocationReason := reason })
        (by simp [hterminates.symm]) rfl (by simp) fun r hr => ?_
      change _ ∈ (Service.identities t'.central).credentials
      rw [hcredentials]
      exact List.mem_map.mpr ⟨r, hr, rfl⟩
  | recoverPrincipal request =>
    obtain ⟨response, t', hrecover, hpure⟩ := run_bind_eq_ok.mp hrun
    obtain ⟨-, rfl⟩ := run_pure_eq_ok.mp hpure
    obtain ⟨now, s', issued, entries, -, -, -, -, -, -, heq⟩ := recoverPrincipal_eq_ok hrecover
    have hkept : ∀ r ∈ c.credentials, (if r.principalId = request.principalId && live P now r then
        { r with revokedAt := some now, revocationReason := some (request.reason.getD
          "principal recovery") }
          else r) ∈ t'.central.credentials := by
      intro r hr
      have hcredentials := congrArg Identities.credentials heq
      change _ ∈ (Service.identities t'.central).credentials
      rw [hcredentials]
      exact List.mem_append_left _ (List.mem_map.mpr ⟨r, hr, rfl⟩)
    cases hlive : live P now row with
    | true =>
      exact terminated_of_matching hrow
        (p := fun r => r.principalId = request.principalId && live P now r)
        (f := fun r => { r with
          revokedAt := some now
          revocationReason := some (request.reason.getD "principal recovery") })
        (by simp [hterminates.symm, hlive]) rfl (by simp) hkept
    | false =>
      -- The sweep skips what is not live; nothing expires, so that was revoked before.
      have hmem := hkept row hrow
      rw [if_neg (by simp [hlive])] at hmem
      rw [(hc.standing hrow).live, Option.isNone_eq_false_iff, Option.isSome_iff_ne_none] at hlive
      exact ⟨row, hmem, rfl, hlive⟩
  | _ => cases hterminates

theorem Terminated.dead {row : CredentialRow} (h : Terminated row c) : Dead P row.tokenHash c := by
  obtain ⟨r, hr, hidentity, hrevoked⟩ := h
  simp only [CredentialRow.identity, Prod.mk.injEq] at hidentity
  exact ⟨r, hr, hidentity.2.2.2.1, .inl ⟨"", live_of_revoked hrevoked ""⟩⟩

theorem Call.perform_dead {call : Call} {row : CredentialRow} {host : Host} {t : Session}
    (hc : Served P c)
    (hrow : row ∈ c.credentials) (hends : call.ends row)
    (hrun : (call.perform P).run (.start host c) = .ok ((), t)) :
    Dead P row.tokenHash t.central := by
  cases call with
  | rotate | revoke | recoverPrincipal =>
      exact (Call.perform_terminated hc hrow (by exact hends) hrun).dead
  | disablePrincipal id disabledAt =>
    obtain ⟨n, t', hdisable, hpure⟩ := run_bind_eq_ok.mp hrun
    obtain ⟨-, rfl⟩ := run_pure_eq_ok.mp hpure
    have heq := disablePrincipal_eq_ok hdisable
    have hprincipals := congrArg Identities.principals heq
    obtain ⟨p, hp, hid⟩ : ∃ p ∈ c.principals, p.id = row.principalId := by
      simpa [Central.hasPrincipal] using (hc.wellFormed.references.credentials row hrow).1
    refine ⟨row, ?_, rfl, .inr ⟨{ p with disabledAt := some disabledAt }, ?_, hid, by simp⟩⟩
    · rw [show t'.central.credentials = c.credentials from congrArg Identities.credentials heq]
      exact hrow
    · change _ ∈ (Service.identities t'.central).principals
      rw [hprincipals]
      refine List.mem_map.mpr ⟨p, hp, if_pos ?_⟩
      rw [hends]
      simpa using hid
  | _ => cases hends

end Dead

end AgentJournal.Service
