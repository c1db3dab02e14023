import AgentJournal.Recovery.Names

/-! # A merge with an earlier content of the journal always succeeds

For a backup whose identities the newest content extends, every validation of `restoreSecurity`
accepts, no constraint or trigger aborts it, and it leaves the identity tables of the newest
content with every credential revoked.
-/

namespace AgentJournal.Recovery
open Domain Foundation Storage Schema

section Validation
variable {α : Type} [Row α] {existing audited : List α}

/-- Rows with distinct first columns are found by it. -/
theorem find?_binding (hdistinct : audited.Pairwise fun a b => binding 1 a ≠ binding 1 b) {a e : α}
    (ha : a ∈ audited) (hkey : binding 1 a = binding 1 e) :
    (audited.find? fun x => binding 1 x = binding 1 e) = some a := by
  have hsymm : Std.Symm fun a b : α => binding 1 a ≠ binding 1 b := ⟨fun _ _ => Ne.symm⟩
  cases hfind : audited.find? fun x => binding 1 x = binding 1 e with
  | none =>
    have := List.find?_eq_none.mp hfind a ha
    simp [hkey] at this
  | some x =>
    have hx : binding 1 x = binding 1 e := by simpa using List.find?_some hfind
    by_contra hne
    have hxa : x ≠ a := fun heq => hne (by rw [heq])
    exact hdistinct.forall (List.mem_of_find?_eq_some hfind) ha hxa (hx.trans hkey.symm)

theorem validateBindings_ok {immutable : ℕ} {conflicts : α → α → Bool}
    (hdistinct : audited.Pairwise fun a b => binding 1 a ≠ binding 1 b)
    (hexisting : ∀ e ∈ existing, ∃ a ∈ audited, binding 1 a = binding 1 e ∧
      binding immutable a = binding immutable e)
    (hconflicts : audited.Pairwise fun prior row => conflicts prior row = false) :
    validateBindings immutable conflicts existing audited = .ok () := by
  have hall : ∀ e ∈ existing, ((audited.find? fun a => binding 1 a = binding 1 e).any fun a =>
      binding immutable a = binding immutable e) = true := by
    intro e he
    obtain ⟨a, ha, hkey, himmutable⟩ := hexisting e he
    rw [find?_binding hdistinct ha hkey]
    simpa using himmutable
  simp only [validateBindings, bind_eq_ok, refuseIf_eq_ok, not_not]
  exact ⟨(), hall, hconflicts⟩

theorem validateHistory_ok [DecidableEq α]
    (hdistinct : audited.Pairwise fun a b => binding 1 a ≠ binding 1 b)
    (hexisting : ∀ e ∈ existing, e ∈ audited) : validateHistory existing audited = .ok () := by
  have hall : ∀ e ∈ existing, ((audited.find? fun a => binding 1 a = binding 1 e).any fun a =>
      a = e) = true := by
    intro e he
    rw [find?_binding hdistinct (hexisting e he) rfl]
    simp
  simp only [validateHistory, bind_eq_ok, refuseIf_eq_ok, not_not]
  exact ⟨(), hdistinct, hall⟩

end Validation

variable {P : Platform} {clock : RestoreClock} {b l : Central}

/-- The recovery tool's preliminary checks accept every earlier content. -/
theorem validateCredentialHistory_complete (hl : WellFormed P l) (h : Extends b l) :
    validateCredentialHistory b (snapshot l) = .ok () := by
  have hcredentials := hl.tables.credentials.perm (ordered_perm _).symm
  have hreceipts := hl.tables.registrationReceipts.perm (ordered_perm _).symm
  simp only [validateCredentialHistory, bind_eq_ok]
  refine ⟨(), validateBindings_ok hcredentials.keys ?_ ?_,
    validateBindings_ok hreceipts.keys ?_ ?_⟩
  · intro e he
    obtain ⟨a, ha, hidentity, -⟩ := h.credentials e he
    simp only [CredentialRow.identity, Prod.mk.injEq] at hidentity
    obtain ⟨h₁, h₂, -, h₄, h₅, h₆⟩ := hidentity
    refine ⟨a, mem_ordered.mpr ha, ?_, ?_⟩
    · simp [binding, Row.cells, h₁]
    · simp [binding, Row.cells, h₁, h₂, h₄, h₅, h₆]
  · refine (hcredentials.keys.and hcredentials.uniques).imp ?_
    rintro x y ⟨hkey, hunique⟩
    simp only [Storage.credentials, collides] at hkey hunique
    simpa using ⟨by simpa using hkey, by simpa using hunique⟩
  · exact fun e he => ⟨e, mem_ordered.mpr (h.registrationReceipts e he), rfl, rfl⟩
  · refine (hreceipts.keys.and hreceipts.uniques).imp ?_
    rintro x y ⟨hkey, hunique⟩
    simp only [Storage.registrationReceipts, collides] at hkey hunique
    simp at hkey hunique
    simpa using ⟨hkey, hunique⟩

theorem validateSecurityHistory_complete (hl : WellFormed P l) (h : Extends b l) :
    validateSecurityHistory b (snapshot l) = .ok () := by
  simp only [validateSecurityHistory, bind_eq_ok]
  refine ⟨(), validateHistory_ok (hl.tables.credentialAudit.perm (ordered_perm _).symm).keys ?_,
    validateHistory_ok (hl.tables.auditEvents.perm (ordered_perm _).symm).keys ?_⟩
  · exact fun e he => mem_ordered.mpr (h.credentialAudit e he)
  · exact fun e he => mem_ordered.mpr (h.auditEvents e he)

section Phases
variable {c : Central}

theorem upsertPrincipals_complete (hb : b.TablesValid P) (hl : WellFormed P l) (h : Extends b l)
    (hprincipals : c.principals = b.principals) (hnames : c.principalNames = b.principalNames) :
    ∃ rows, (ordered l.principals).foldlM upsertPrincipal c = .ok { c with principals := rows } ∧
      rows.Perm l.principals := by
  have hc : Storage.principals.Compatible (ordered l.principals) b.principals := by
    refine .of_keys rfl (hl.tables.principals.perm (ordered_perm _).symm) hb.principals fun r hr =>
      ?_
    obtain ⟨r', hr', hid⟩ := h.principals r hr
    exact ⟨r', mem_ordered.mpr hr', by simp [Storage.principals, hid]⟩
  have hfree : ∀ row ∈ l.principals, (c.principalNames.any fun n => n.name = row.id) = false := by
    intro row hrow
    simp only [hnames, List.any_eq_false, decide_eq_true_eq]
    intro n hn heq
    obtain ⟨n', hn', hname, -⟩ := h.principalNames n hn
    have hunused := hl.names n' hn'
    simp only [Central.hasPrincipal, List.any_eq_false, decide_eq_true_eq] at hunused
    exact hunused row hrow (by rw [hname, heq])
  obtain ⟨rows, hfold, hperm⟩ := hc.fold (g := fun rows => { c with principals := rows })
    (f := upsertPrincipal) (by
      intro done row rows hrow hmerged
      have hput := upsert_eq_put hc hmerged hrow (m := fun _ new => new) fun _ _ _ => rfl
      simp only [upsertPrincipal, hfree row (mem_ordered.mp hrow), hput]
      rfl)
  rw [← hprincipals] at hfold
  exact ⟨rows, hfold, hperm.trans (ordered_perm _)⟩

theorem upsertSpaces_complete (hb : b.TablesValid P) (hl : WellFormed P l) (h : Extends b l)
    (hspaces : c.spaces = b.spaces) :
    ∃ rows, (ordered l.spaces).foldlM upsertSpace c = .ok { c with spaces := rows } ∧
      rows.Perm l.spaces := by
  have hc : Storage.spaces.Compatible (ordered l.spaces) b.spaces := by
    have hv := hl.tables.spaces.perm (ordered_perm _).symm
    refine ⟨hv, hb.spaces.keys, fun r hr => ?_, fun n hn r hr hne => ?_⟩
    · obtain ⟨r', hr', hid, -⟩ := h.spaces r hr
      exact ⟨r', mem_ordered.mpr hr', by simp [Storage.spaces, hid]⟩
    · obtain ⟨r', hr', hid, hname⟩ := h.spaces r hr
      cases hcol : Storage.spaces.collides n r with
      | false => rfl
      | true =>
        have hcol' : Storage.spaces.collides n r' = true := by
          simpa [Storage.spaces, collides, hname] using hcol
        obtain rfl := hv.eq_of_collides hn (mem_ordered.mpr hr') hcol'
        exact absurd (by simp [Storage.spaces, hid]) hne
  obtain ⟨rows, hfold, hperm⟩ := hc.fold (g := fun rows => { c with spaces := rows })
    (f := upsertSpace) (by
      intro done row rows hrow hmerged
      have hput := upsert_eq_put hc hmerged hrow (m := fun _ new => new) fun _ _ _ => rfl
      simp only [upsertSpace, hput]
      rfl)
  rw [← hspaces] at hfold
  exact ⟨rows, hfold, hperm.trans (ordered_perm _)⟩

theorem upsertMemberships_complete (hl : WellFormed P l) (hempty : c.memberships = [])
    (hprincipals : c.principals.Perm l.principals) (hspaces : c.spaces.Perm l.spaces) :
    ∃ rows, (ordered l.memberships).foldlM
        (fun c row => c.upsertMembership (fun _ new => new) row) c =
          .ok { c with memberships := rows } ∧ rows.Perm l.memberships := by
  have hc : Storage.memberships.Compatible (ordered l.memberships) [] :=
    .of_subset (hl.tables.memberships.perm (ordered_perm _).symm) .nil (by simp)
  obtain ⟨rows, hfold, hperm⟩ := hc.fold (g := fun rows => { c with memberships := rows })
    (f := fun c row => c.upsertMembership (fun _ new => new) row) (by
      intro done row rows hrow hmerged
      have hput := upsert_eq_put hc hmerged hrow (m := fun _ new => new) fun _ _ _ => rfl
      have hparents := hl.references.memberships row (mem_ordered.mp hrow)
      have hspace : c.hasSpace row.spaceId = true := hspaces.any_eq.trans hparents.1
      have hprincipal : c.hasPrincipal row.principalId = true := hprincipals.any_eq.trans hparents.2
      exact Central.upsertMembership_eq_ok.mpr ⟨_, hput, ⟨hspace, hprincipal⟩, rfl⟩)
  rw [← hempty] at hfold
  exact ⟨rows, hfold, hperm.trans (ordered_perm _)⟩

theorem upsertProfileIdempotencyKeys_complete (hb : b.TablesValid P) (hl : WellFormed P l)
    (h : Extends b l) (hkeys : c.profileIdempotencyKeys = b.profileIdempotencyKeys)
    (hprincipals : c.principals.Perm l.principals) :
    ∃ rows, (ordered l.profileIdempotencyKeys).foldlM upsertProfileIdempotencyKey c =
        .ok { c with profileIdempotencyKeys := rows } ∧ rows.Perm l.profileIdempotencyKeys := by
  have hc : Storage.profileIdempotencyKeys.Compatible (ordered l.profileIdempotencyKeys)
      b.profileIdempotencyKeys :=
    .of_subset (hl.tables.profileIdempotencyKeys.perm (ordered_perm _).symm)
      hb.profileIdempotencyKeys fun r hr => mem_ordered.mpr (h.profileIdempotencyKeys r hr)
  obtain ⟨rows, hfold, hperm⟩ :=
    hc.fold (g := fun rows => { c with profileIdempotencyKeys := rows })
    (f := upsertProfileIdempotencyKey) (by
      intro done row rows hrow hmerged
      have hput := upsert_eq_put hc hmerged hrow (m := fun _ new => new) fun _ _ _ => rfl
      have hprincipal : c.hasPrincipal row.principalId = true :=
        hprincipals.any_eq.trans (hl.references.profileIdempotencyKeys row (mem_ordered.mp hrow))
      have hparent : references (Central.hasPrincipal { c with profileIdempotencyKeys := rows }
          row.principalId) = .ok () := references_eq_ok.mpr hprincipal
      simp only [upsertProfileIdempotencyKey, hput, hparent]
      rfl)
  rw [← hkeys] at hfold
  exact ⟨rows, hfold, hperm.trans (ordered_perm _)⟩

/-- A stored credential after every stored credential was revoked. -/
def fencedCredential (clock : RestoreClock) (r : CredentialRow) : CredentialRow :=
  { r with
    revokedAt := some (r.revokedAt.getD clock.sweep)
    revocationReason := some centralRestore }

/-- An audited credential as the merge writes it. -/
def writtenCredential (clock : RestoreClock) (r : CredentialRow) : CredentialRow :=
  revokedCredential (clock.written r.id) r

@[simp] theorem fencedCredential_identity (r : CredentialRow) :
    (fencedCredential clock r).identity = r.identity := rfl

@[simp] theorem writtenCredential_identity (r : CredentialRow) :
    (writtenCredential clock r).identity = r.identity := rfl

theorem valid_map_credentials {f : CredentialRow → CredentialRow} {rows : List CredentialRow}
    (hf : ∀ r, (f r).identity = r.identity) (hv : Storage.credentials.Valid rows) :
    Storage.credentials.Valid (rows.map f) := by
  have hid : ∀ r, (f r).id = r.id := fun r => congrArg Prod.fst (hf r)
  have hhash : ∀ r, (f r).tokenHash = r.tokenHash := fun r => congrArg (fun x => x.2.2.2.1) (hf r)
  have hmap := hv.update (p := fun _ => true) (f := f) (fun _ _ _ => rfl)
    (by simp [Storage.credentials, hid]) (by simp [Storage.credentials, hhash])
  simpa using hmap

theorem upsertCredentials_complete (clock : RestoreClock) (hb : b.TablesValid P)
    (hl : WellFormed P l) (h : Extends b l)
    (hcredentials : c.credentials = b.credentials.map (fencedCredential clock)) :
    ∃ rows, (ordered l.credentials).foldlM (upsertCredential clock) c =
        .ok { c with credentials := rows } ∧
      rows.Perm (l.credentials.map (writtenCredential clock)) := by
  have hv : Storage.credentials.Valid ((ordered l.credentials).map (writtenCredential clock)) :=
    valid_map_credentials writtenCredential_identity
      (hl.tables.credentials.perm (ordered_perm _).symm)
  have hkept : ∀ r ∈ b.credentials, ∃ n ∈ (ordered l.credentials).map (writtenCredential clock),
      n.identity = r.identity := by
    intro r hr
    obtain ⟨r', hr', hidentity, -⟩ := h.credentials r hr
    exact ⟨writtenCredential clock r', List.mem_map_of_mem (mem_ordered.mpr hr'), hidentity⟩
  have hc : Storage.credentials.Compatible ((ordered l.credentials).map (writtenCredential clock))
      (b.credentials.map (fencedCredential clock)) := by
    refine ⟨hv, (valid_map_credentials fencedCredential_identity hb.credentials).keys, ?_, ?_⟩
    · intro r hr
      obtain ⟨r₀, hr₀, rfl⟩ := List.mem_map.mp hr
      obtain ⟨n, hn, hidentity⟩ := hkept r₀ hr₀
      have hid : n.id = r₀.id := congrArg Prod.fst hidentity
      exact ⟨n, hn, by simp [Storage.credentials, hid, fencedCredential]⟩
    · intro n hn r hr hne
      obtain ⟨r₀, hr₀, rfl⟩ := List.mem_map.mp hr
      obtain ⟨n', hn', hidentity⟩ := hkept r₀ hr₀
      have hid : n'.id = r₀.id := congrArg Prod.fst hidentity
      have hhash : n'.tokenHash = r₀.tokenHash := congrArg (fun x => x.2.2.2.1) hidentity
      cases hcol : Storage.credentials.collides n (fencedCredential clock r₀) with
      | false => rfl
      | true =>
        have hcol' : Storage.credentials.collides n n' = true := by
          simpa [Storage.credentials, collides, fencedCredential, hhash] using hcol
        obtain rfl := hv.eq_of_collides hn hn' hcol'
        exact absurd (by simp [Storage.credentials, hid, fencedCredential]) hne
  have hmerge : ∀ row ∈ (ordered l.credentials).map (writtenCredential clock), ∀ r,
      r ∈ (ordered l.credentials).map (writtenCredential clock) ∨
        r ∈ b.credentials.map (fencedCredential clock) →
      Storage.credentials.key r = Storage.credentials.key row →
      { r with
        revokedAt := row.revokedAt
        replacementCredentialId := row.replacementCredentialId
        revocationReason := row.revocationReason } = row := by
    intro row hrow r hr hkey
    rcases hr with hr | hr
    · rw [hv.eq_of_key hr hrow hkey]
    · obtain ⟨r₀, hr₀, rfl⟩ := List.mem_map.mp hr
      obtain ⟨n, hn, hidentity⟩ := hkept r₀ hr₀
      have hid : n.id = r₀.id := congrArg Prod.fst hidentity
      have hn' : Storage.credentials.key n = Storage.credentials.key row := by
        rw [← hkey]
        simp [Storage.credentials, hid, fencedCredential]
      obtain rfl := hv.eq_of_key hn hrow hn'
      simp only [CredentialRow.identity, Prod.mk.injEq] at hidentity
      obtain ⟨h₁, h₂, h₃, h₄, h₅, h₆⟩ := hidentity
      cases n
      simp_all [fencedCredential]
  obtain ⟨rows, hfold, hperm⟩ := hc.fold (g := fun rows => { c with credentials := rows })
    (f := fun c row => do
      let rows ← constrain (Storage.credentials.upsert
        (fun old new => { old with
          revokedAt := new.revokedAt
          replacementCredentialId := new.replacementCredentialId
          revocationReason := new.revocationReason }) row c.credentials)
      return { c with credentials := rows }) (by
      intro done row rows hrow hmerged
      have hput := upsert_eq_put hc hmerged hrow (m := fun old new => { old with
          revokedAt := new.revokedAt
          replacementCredentialId := new.replacementCredentialId
          revocationReason := new.revocationReason }) (hmerge row hrow)
      simp only [hput]
      rfl)
  rw [← hcredentials, List.foldlM_map] at hfold
  exact ⟨rows, hfold, hperm.trans ((ordered_perm _).map _)⟩

theorem restoreReceipts_complete (hb : b.TablesValid P) (hl : WellFormed P l) (h : Extends b l)
    (hreceipts : c.registrationReceipts = b.registrationReceipts) :
    ∃ rows, (ordered l.registrationReceipts).foldlM (restoreReceipt P) c =
        .ok { c with registrationReceipts := rows } ∧ rows.Perm l.registrationReceipts := by
  have hv := hl.tables.registrationReceipts.perm (ordered_perm _).symm
  have hsubset : ∀ r ∈ b.registrationReceipts, r ∈ ordered l.registrationReceipts :=
    fun r hr => mem_ordered.mpr (h.registrationReceipts r hr)
  have hc := Compatible.of_subset hv hb.registrationReceipts hsubset
  obtain ⟨rows, hfold, hperm⟩ := hc.fold (g := fun rows => { c with registrationReceipts := rows })
    (f := restoreReceipt P) (by
      intro done row rows hrow hmerged
      have hput := insert_or_skip hc hmerged hrow fun r hr hkey =>
        hv.eq_of_key (hsubset r hr) hrow hkey
      have hkeys : (rows.any fun r => decide ((Storage.registrationReceipts P).key r =
          (Storage.registrationReceipts P).key row)) = rows.any fun r =>
            r.tokenHash = row.tokenHash := by
        simp [Storage.registrationReceipts]
      rw [hkeys] at hput
      unfold restoreReceipt
      split
      · rename_i hany
        rw [if_pos hany, Except.ok.injEq] at hput
        rw [← hput]
        rfl
      · rename_i hany
        rw [if_neg hany] at hput
        simp only [hput]
        rfl)
  rw [← hreceipts] at hfold
  exact ⟨rows, hfold, hperm.trans (ordered_perm _)⟩

theorem insertMissing_complete {α : Type} [Row α] {T : Schema α (List Cell)} {older newer : List α}
    (holder : T.Valid older) (hnewer : T.Valid newer) (h : ∀ r ∈ older, r ∈ newer) :
    ∃ rows, (ordered newer).foldlM (fun rows row => insertMissing T row rows) older = .ok rows ∧
      rows.Perm newer := by
  have hv := hnewer.perm (ordered_perm _).symm
  have hsubset : ∀ r ∈ older, r ∈ ordered newer := fun r hr => mem_ordered.mpr (h r hr)
  have hc := Compatible.of_subset hv holder hsubset
  obtain ⟨rows, hfold, hperm⟩ := hc.fold (g := id)
    (f := fun rows row => insertMissing T row rows) (by
      intro done row rows hrow hmerged
      have hput := insert_or_skip hc hmerged hrow fun r hr hkey =>
        hv.eq_of_key (hsubset r hr) hrow hkey
      unfold insertMissing
      rw [id_eq, id_eq]
      split
      · rename_i hany
        rw [if_pos hany, Except.ok.injEq] at hput
        rw [← hput]
        rfl
      · rename_i hany
        rw [if_neg hany] at hput
        rw [hput]
        rfl)
  exact ⟨rows, hfold, hperm.trans (ordered_perm _)⟩

theorem restoreSecurityHistory_complete (hb : b.TablesValid P) (hl : WellFormed P l)
    (h : Extends b l) (haudit : c.credentialAudit = b.credentialAudit)
    (hevents : c.auditEvents = b.auditEvents) :
    ∃ audit events, restoreSecurityHistory c (snapshot l) =
        .ok { c with credentialAudit := audit, auditEvents := events } ∧
      audit.Perm l.credentialAudit ∧ events.Perm l.auditEvents := by
  obtain ⟨audit, haudits, hauditPerm⟩ := insertMissing_complete hb.credentialAudit
    hl.tables.credentialAudit h.credentialAudit
  obtain ⟨events, hevent, heventPerm⟩ := insertMissing_complete hb.auditEvents
    hl.tables.auditEvents h.auditEvents
  refine ⟨audit, events, ?_, hauditPerm, heventPerm⟩
  simp only [restoreSecurityHistory, snapshot, haudit, hevents, bind_eq_ok]
  exact ⟨audit, haudits, events, hevent, rfl⟩

theorem restoreInboxHeads_complete (hb : b.TablesValid P) (hl : WellFormed P l) (h : Extends b l)
    (hheads : c.inboxSequences = b.inboxSequences) :
    ∃ rows, (snapshot l).inboxHeads.foldlM restoreInboxHead c =
        .ok { c with inboxSequences := rows } ∧ rows.Perm l.inboxSequences := by
  have hv := hl.tables.inboxSequences.perm (ordered_perm _).symm
  have hc : Storage.inboxSequences.Compatible (ordered l.inboxSequences) b.inboxSequences := by
    refine .of_keys rfl hv hb.inboxSequences fun r hr => ?_
    obtain ⟨r', hr', hrecipient, -⟩ := h.inboxSequences r hr
    exact ⟨r', mem_ordered.mpr hr', by simp [Storage.inboxSequences, hrecipient]⟩
  have hmerge : ∀ row ∈ ordered l.inboxSequences, ∀ r,
      r ∈ ordered l.inboxSequences ∨ r ∈ b.inboxSequences →
      Storage.inboxSequences.key r = Storage.inboxSequences.key row →
      { r with lastSeq := max r.lastSeq row.lastSeq } = row := by
    intro row hrow r hr hkey
    rcases hr with hr | hr
    · obtain rfl := hv.eq_of_key hr hrow hkey
      simp
    · obtain ⟨r', hr', hrecipient, hle⟩ := h.inboxSequences r hr
      have hkey' : Storage.inboxSequences.key r' = Storage.inboxSequences.key row := by
        rw [← hkey]
        simp [Storage.inboxSequences, hrecipient]
      obtain rfl := hv.eq_of_key (mem_ordered.mpr hr') hrow hkey'
      rw [max_eq_right hle, ← hrecipient]
  obtain ⟨rows, hfold, hperm⟩ := hc.fold (g := fun rows => { c with inboxSequences := rows })
    (f := fun c row => restoreInboxHead c (row.recipientPrincipalId, row.lastSeq)) (by
      intro done row rows hrow hmerged
      have hput := upsert_eq_put hc hmerged hrow
        (m := fun old new => { old with lastSeq := max old.lastSeq new.lastSeq }) (hmerge row hrow)
      have hpositive := hv.checked row hrow
      simp only [Storage.inboxSequences, Bool.and_eq_true, decide_eq_true_eq] at hpositive
      simp only [restoreInboxHead, bind_eq_ok, refuseIf_eq_ok, sqlite_eq_ok, abortWhen_eq_ok,
        constrain_eq_ok]
      exact ⟨(), by omega, (), by simp, _, hput, rfl⟩)
  rw [← hheads] at hfold
  refine ⟨rows, ?_, hperm.trans (ordered_perm _)⟩
  simp only [snapshot, List.foldlM_map]
  exact hfold

end Phases

/-- The identity tables of the newest content over the journal of the backup, with every
credential revoked. -/
structure Restored (clock : RestoreClock) (b l d : Central) : Prop where
  sameRecords : SameRecords b d
  principals : d.principals.Perm l.principals
  principalNames : d.principalNames.Perm l.principalNames
  spaces : d.spaces.Perm l.spaces
  memberships : d.memberships.Perm l.memberships
  profileIdempotencyKeys : d.profileIdempotencyKeys.Perm l.profileIdempotencyKeys
  credentials : d.credentials.Perm (l.credentials.map (writtenCredential clock))
  registrationReceipts : d.registrationReceipts.Perm l.registrationReceipts
  credentialAudit : d.credentialAudit.Perm l.credentialAudit
  auditEvents : d.auditEvents.Perm l.auditEvents
  inboxSequences : d.inboxSequences.Perm l.inboxSequences

theorem restoreSecurity_complete (clock : RestoreClock) (hb : WellFormed P b) (hl : WellFormed P l)
    (h : Extends b l) :
    ∃ d, restoreSecurity P clock b (snapshot l) = .ok d ∧ Restored clock b l d := by
  obtain ⟨principals, h₁, hprincipals⟩ := upsertPrincipals_complete
    (c := fenceAuthority clock b) hb.tables hl h rfl rfl
  obtain ⟨names, h₂, hnames⟩ := restorePrincipalNames_complete
    (c := { fenceAuthority clock b with principals := principals }) hb.tables hl h rfl hprincipals
  obtain ⟨spaces, h₃, hspaces⟩ := upsertSpaces_complete
    (c := { fenceAuthority clock b with principals := principals, principalNames := names })
    hb.tables hl h rfl
  obtain ⟨memberships, h₄, hmemberships⟩ := upsertMemberships_complete
    (c := { fenceAuthority clock b with
      principals := principals, principalNames := names, spaces := spaces })
    hl rfl hprincipals hspaces
  obtain ⟨keys, h₅, hkeys⟩ := upsertProfileIdempotencyKeys_complete
    (c := { fenceAuthority clock b with
      principals := principals, principalNames := names, spaces := spaces,
      memberships := memberships }) hb.tables hl h rfl hprincipals
  obtain ⟨credentials, h₆, hcredentials⟩ := upsertCredentials_complete clock
    (c := { fenceAuthority clock b with
      principals := principals, principalNames := names, spaces := spaces,
      memberships := memberships, profileIdempotencyKeys := keys }) hb.tables hl h rfl
  obtain ⟨receipts, h₇, hreceipts⟩ := restoreReceipts_complete
    (c := { fenceAuthority clock b with
      principals := principals, principalNames := names, spaces := spaces,
      memberships := memberships, profileIdempotencyKeys := keys, credentials := credentials })
    hb.tables hl h rfl
  obtain ⟨audit, events, h₈, haudit, hevents⟩ := restoreSecurityHistory_complete
    (c := { fenceAuthority clock b with
      principals := principals, principalNames := names, spaces := spaces,
      memberships := memberships, profileIdempotencyKeys := keys, credentials := credentials,
      registrationReceipts := receipts }) hb.tables hl h rfl rfl
  obtain ⟨heads, h₉, hheads⟩ := restoreInboxHeads_complete
    (c := { fenceAuthority clock b with
      principals := principals, principalNames := names, spaces := spaces,
      memberships := memberships, profileIdempotencyKeys := keys, credentials := credentials,
      registrationReceipts := receipts, credentialAudit := audit, auditEvents := events })
    hb.tables hl h rfl
  have hrestore : restoreSecurity P clock b (snapshot l) = .ok { fenceAuthority clock b with
      principals := principals, principalNames := names, spaces := spaces,
      memberships := memberships, profileIdempotencyKeys := keys, credentials := credentials,
      registrationReceipts := receipts, credentialAudit := audit, auditEvents := events,
      inboxSequences := heads } := by
    simp only [restoreSecurity, restoreCredentialHistory, bind_eq_ok, sqlite_eq_ok, refuseIf_eq_ok]
    exact ⟨(), not_not.mpr rfl, (), validateCredentialHistory_complete hl h, (),
      validateSecurityHistory_complete hl h, _, h₁, _, h₂, _, h₃, _, h₄, _, h₅, _, ⟨_, h₆, h₇⟩, _,
      h₈,
      h₉⟩
  exact ⟨_, hrestore, restoreSecurity_sameRecords hrestore, hprincipals, hnames, hspaces,
    hmemberships, hkeys, hcredentials, hreceipts, haudit, hevents, hheads⟩

namespace Restored
variable {d : Central} (hr : Restored clock b l d)
include hr

theorem hasPrincipal (id : String) : d.hasPrincipal id = l.hasPrincipal id := hr.principals.any_eq

theorem hasSpace (id : String) : d.hasSpace id = l.hasSpace id := hr.spaces.any_eq

theorem hasCredential (id : String) : d.hasCredential id = l.hasCredential id := by
  refine hr.credentials.any_eq.trans ?_
  rw [List.any_map]
  rfl

theorem hasTokenHash (hash : String) : d.hasTokenHash hash = l.hasTokenHash hash := by
  refine hr.credentials.any_eq.trans ?_
  rw [List.any_map]
  rfl

/-- No identity of the newest content is lost. -/
theorem extended : Extends l d where
  principals r hmem := ⟨r, hr.principals.mem_iff.mpr hmem, rfl⟩
  principalNames r hmem := ⟨r, hr.principalNames.mem_iff.mpr hmem, rfl, rfl, rfl, .inl rfl⟩
  credentials r hmem := ⟨writtenCredential clock r,
    hr.credentials.mem_iff.mpr (List.mem_map_of_mem hmem), rfl,
    fun _ => by simp [writtenCredential, revokedCredential]⟩
  registrationReceipts _ := hr.registrationReceipts.mem_iff.mpr
  spaces r hmem := ⟨r, hr.spaces.mem_iff.mpr hmem, rfl, rfl⟩
  profileIdempotencyKeys _ := hr.profileIdempotencyKeys.mem_iff.mpr
  credentialAudit _ := hr.credentialAudit.mem_iff.mpr
  auditEvents _ := hr.auditEvents.mem_iff.mpr
  inboxSequences r hmem := ⟨r, hr.inboxSequences.mem_iff.mpr hmem, rfl, le_rfl⟩

theorem tablesValid (hb : b.TablesValid P) (hl : l.TablesValid P) : d.TablesValid P where
  principals := hl.principals.perm hr.principals.symm
  principalNames := hl.principalNames.perm hr.principalNames.symm
  credentials := (valid_map_credentials writtenCredential_identity hl.credentials).perm
    hr.credentials.symm
  registrationReceipts := hl.registrationReceipts.perm hr.registrationReceipts.symm
  spaces := hl.spaces.perm hr.spaces.symm
  memberships := hl.memberships.perm hr.memberships.symm
  profileIdempotencyKeys := hl.profileIdempotencyKeys.perm hr.profileIdempotencyKeys.symm
  credentialAudit := hl.credentialAudit.perm hr.credentialAudit.symm
  auditEvents := hl.auditEvents.perm hr.auditEvents.symm
  records := hr.sameRecords.records ▸ hb.records
  recordRelations := hr.sameRecords.recordRelations ▸ hb.recordRelations
  attention := hr.sameRecords.attention ▸ hb.attention
  idempotencyKeys := hr.sameRecords.idempotencyKeys ▸ hb.idempotencyKeys
  inboxSequences := hl.inboxSequences.perm hr.inboxSequences.symm
  mailboxItems := hr.sameRecords.mailboxItems ▸ hb.mailboxItems
  journalSecret := hr.sameRecords.journalSecret ▸ hb.journalSecret

/-- The identities of the backup are among those of the newest content. -/
theorem principal_of_backup (h : Extends b l) {id : String} (hid : b.hasPrincipal id = true) :
    d.hasPrincipal id = true := by
  rw [hr.hasPrincipal]
  simp only [Central.hasPrincipal, List.any_eq_true, decide_eq_true_eq] at hid ⊢
  obtain ⟨r, hmem, rfl⟩ := hid
  exact h.principals r hmem

theorem space_of_backup (h : Extends b l) {id : String} (hid : b.hasSpace id = true) :
    d.hasSpace id = true := by
  rw [hr.hasSpace]
  simp only [Central.hasSpace, List.any_eq_true, decide_eq_true_eq] at hid ⊢
  obtain ⟨r, hmem, rfl⟩ := hid
  obtain ⟨r', hmem', hid', -⟩ := h.spaces r hmem
  exact ⟨r', hmem', hid'⟩

theorem references (hb : References b) (hl : References l) (h : Extends b l) : References d := by
  have hrecord : ∀ id, d.hasRecord id = b.hasRecord id := by
    intro id
    unfold Central.hasRecord
    rw [hr.sameRecords.records]
  constructor
  · intro r hmem
    obtain ⟨r₀, hmem₀, rfl⟩ := List.mem_map.mp (hr.credentials.mem_iff.mp hmem)
    rw [hr.hasPrincipal, show d.hasCredential = l.hasCredential from funext hr.hasCredential]
    exact hl.credentials r₀ hmem₀
  · intro r hmem
    rw [hr.hasTokenHash, hr.hasCredential, hr.hasPrincipal]
    exact hl.registrationReceipts r (hr.registrationReceipts.mem_iff.mp hmem)
  · intro r hmem
    rw [hr.hasSpace, hr.hasPrincipal]
    exact hl.memberships r (hr.memberships.mem_iff.mp hmem)
  · intro r hmem
    rw [hr.sameRecords.records] at hmem
    have hparents := hb.records r hmem
    exact ⟨hr.space_of_backup h hparents.1, hr.principal_of_backup h hparents.2⟩
  · intro r hmem
    rw [hr.sameRecords.recordRelations] at hmem
    rw [hrecord, hrecord]
    exact hb.recordRelations r hmem
  · intro r hmem
    rw [hr.sameRecords.attention] at hmem
    rw [hrecord]
    have hparents := hb.attention r hmem
    exact ⟨hparents.1, hr.principal_of_backup h hparents.2⟩
  · intro r hmem
    rw [hr.sameRecords.idempotencyKeys] at hmem
    rw [hrecord]
    have hparents := hb.idempotencyKeys r hmem
    exact ⟨hr.principal_of_backup h hparents.1, hparents.2⟩
  · intro r hmem
    rw [hr.hasPrincipal]
    exact hl.inboxSequences r (hr.inboxSequences.mem_iff.mp hmem)
  · intro r hmem
    rw [hr.sameRecords.mailboxItems] at hmem
    rw [hrecord]
    have hparents := hb.mailboxItems r hmem
    exact ⟨hparents.1, hr.principal_of_backup h hparents.2⟩
  · intro r hmem
    rw [hr.hasCredential]
    exact hl.credentialAudit r (hr.credentialAudit.mem_iff.mp hmem)
  · intro r hmem
    rw [hr.hasPrincipal]
    exact hl.principalNames r (hr.principalNames.mem_iff.mp hmem)
  · intro r hmem
    rw [hr.hasPrincipal]
    exact hl.profileIdempotencyKeys r (hr.profileIdempotencyKeys.mem_iff.mp hmem)

/-- A merged database is well formed. -/
theorem wellFormed (hb : WellFormed P b) (hl : WellFormed P l) (h : Extends b l) :
    WellFormed P d where
  tables := hr.tablesValid hb.tables hl.tables
  references := hr.references hb.references hl.references h
  names n hn := by
    rw [hr.hasPrincipal]
    exact hl.names n (hr.principalNames.mem_iff.mp hn)
  indexed := by
    rw [hr.sameRecords.recordsFts, hr.sameRecords.records]
    exact hb.indexed
  relations := by
    unfold RelationsOlder
    rw [hr.sameRecords.recordRelations, hr.sameRecords.records]
    exact hb.relations

end Restored
end AgentJournal.Recovery
