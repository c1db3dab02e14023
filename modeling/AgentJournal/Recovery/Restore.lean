import AgentJournal.Recovery.Ledger
import AgentJournal.Storage.Outcomes

/-! # What a merge leaves alone

`restoreSecurity` writes identities, histories and allocation heads. The records, their
index, the mailboxes, the append keys, the secret and the anchor are those of the backup.
-/

namespace AgentJournal.Recovery
open Domain Foundation Storage

/-- The tables no merge writes are the same in both databases. -/
structure SameRecords (c d : Central) : Prop where
  recoveryAnchor : d.recoveryAnchor = c.recoveryAnchor
  records : d.records = c.records
  recordsFts : d.recordsFts = c.recordsFts
  recordRelations : d.recordRelations = c.recordRelations
  attention : d.attention = c.attention
  idempotencyKeys : d.idempotencyKeys = c.idempotencyKeys
  mailboxItems : d.mailboxItems = c.mailboxItems
  journalSecret : d.journalSecret = c.journalSecret

namespace SameRecords
variable {c d e : Central}

theorem refl (c : Central) : SameRecords c c := ⟨rfl, rfl, rfl, rfl, rfl, rfl, rfl, rfl⟩

theorem trans (h : SameRecords c d) (h' : SameRecords d e) : SameRecords c e where
  recoveryAnchor := h'.recoveryAnchor.trans h.recoveryAnchor
  records := h'.records.trans h.records
  recordsFts := h'.recordsFts.trans h.recordsFts
  recordRelations := h'.recordRelations.trans h.recordRelations
  attention := h'.attention.trans h.attention
  idempotencyKeys := h'.idempotencyKeys.trans h.idempotencyKeys
  mailboxItems := h'.mailboxItems.trans h.mailboxItems
  journalSecret := h'.journalSecret.trans h.journalSecret

theorem fold {α : Type} {f : Central → α → Sql Central} {l : List α}
    (hstep : ∀ s a s', f s a = .ok s' → SameRecords s s') (h : l.foldlM f c = .ok d) :
    SameRecords c d := foldlM_ok_relation refl trans hstep h

end SameRecords

section Frame
variable {c d : Central}

theorem upsertPrincipal_sameRecords {row : PrincipalRow} (h : upsertPrincipal c row = .ok d) :
    SameRecords c d := by
  simp only [upsertPrincipal, bind_eq_ok, pure_eq_ok, Except.ok.injEq] at h
  obtain ⟨_, -, rows, -, rfl⟩ := h
  exact ⟨rfl, rfl, rfl, rfl, rfl, rfl, rfl, rfl⟩

theorem retireNames_sameRecords {p : PrincipalNameRow → Bool} (h : c.retireNames p = .ok d) :
    SameRecords c d := by
  simp only [Central.retireNames, bind_eq_ok, pure_eq_ok, Except.ok.injEq] at h
  obtain ⟨_, -, rows, -, rfl⟩ := h
  exact ⟨rfl, rfl, rfl, rfl, rfl, rfl, rfl, rfl⟩

theorem insertPrincipalName_sameRecords {row : PrincipalNameRow}
    (h : c.insertPrincipalName row = .ok d) : SameRecords c d := by
  simp only [Central.insertPrincipalName, bind_eq_ok, pure_eq_ok, Except.ok.injEq] at h
  obtain ⟨_, -, rows, -, _, -, rfl⟩ := h
  exact ⟨rfl, rfl, rfl, rfl, rfl, rfl, rfl, rfl⟩

theorem retireStaleCurrent_sameRecords {row : PrincipalNameRow}
    (h : retireStaleCurrent c row = .ok d) : SameRecords c d := by
  unfold retireStaleCurrent at h
  split at h
  · exact retireNames_sameRecords h
  · cases h
    exact .refl _

theorem mergePrincipalName_sameRecords {row : PrincipalNameRow}
    (h : mergePrincipalName c row = .ok d) : SameRecords c d := by
  unfold mergePrincipalName closed at h
  split at h
  · split at h
    · cases h
      exact .refl _
    · split at h
      · exact retireNames_sameRecords (sqlite_eq_ok.mp h)
      · cases h
  · exact insertPrincipalName_sameRecords (sqlite_eq_ok.mp h)

theorem restorePrincipalName_sameRecords {row : PrincipalNameRow}
    (h : restorePrincipalName c row = .ok d) : SameRecords c d := by
  simp only [restorePrincipalName, bind_eq_ok, sqlite_eq_ok] at h
  obtain ⟨c', hretire, hmerge⟩ := h
  exact (retireStaleCurrent_sameRecords hretire).trans (mergePrincipalName_sameRecords hmerge)

theorem upsertSpace_sameRecords {row : SpaceRow} (h : upsertSpace c row = .ok d) :
    SameRecords c d := by
  simp only [upsertSpace, bind_eq_ok, pure_eq_ok, Except.ok.injEq] at h
  obtain ⟨rows, -, rfl⟩ := h
  exact ⟨rfl, rfl, rfl, rfl, rfl, rfl, rfl, rfl⟩

theorem upsertMembership_sameRecords {merge : MembershipRow → MembershipRow → MembershipRow}
    {row : MembershipRow} (h : c.upsertMembership merge row = .ok d) : SameRecords c d := by
  simp only [Central.upsertMembership, bind_eq_ok, pure_eq_ok, Except.ok.injEq] at h
  obtain ⟨rows, -, _, -, rfl⟩ := h
  exact ⟨rfl, rfl, rfl, rfl, rfl, rfl, rfl, rfl⟩

theorem upsertProfileIdempotencyKey_sameRecords {row : ProfileIdempotencyKeyRow}
    (h : upsertProfileIdempotencyKey c row = .ok d) : SameRecords c d := by
  simp only [upsertProfileIdempotencyKey, bind_eq_ok, pure_eq_ok, Except.ok.injEq] at h
  obtain ⟨rows, -, _, -, rfl⟩ := h
  exact ⟨rfl, rfl, rfl, rfl, rfl, rfl, rfl, rfl⟩

theorem upsertCredential_sameRecords {clock : RestoreClock} {row : CredentialRow}
    (h : upsertCredential clock c row = .ok d) : SameRecords c d := by
  simp only [upsertCredential, bind_eq_ok, pure_eq_ok, Except.ok.injEq] at h
  obtain ⟨rows, -, rfl⟩ := h
  exact ⟨rfl, rfl, rfl, rfl, rfl, rfl, rfl, rfl⟩

theorem restoreReceipt_sameRecords {P : Platform} {row : RegistrationReceiptRow}
    (h : restoreReceipt P c row = .ok d) : SameRecords c d := by
  unfold restoreReceipt at h
  split at h
  · cases h
    exact .refl _
  · simp only [bind_eq_ok, pure_eq_ok, Except.ok.injEq] at h
    obtain ⟨rows, -, rfl⟩ := h
    exact ⟨rfl, rfl, rfl, rfl, rfl, rfl, rfl, rfl⟩

theorem restoreCredentialHistory_sameRecords {P : Platform} {clock : RestoreClock}
    {latest : Snapshot} (h : restoreCredentialHistory P clock c latest = .ok d) :
    SameRecords c d := by
  simp only [restoreCredentialHistory, bind_eq_ok] at h
  obtain ⟨c', hcredentials, hreceipts⟩ := h
  exact (SameRecords.fold (fun _ _ _ => upsertCredential_sameRecords) hcredentials).trans
    (SameRecords.fold (fun _ _ _ => restoreReceipt_sameRecords) hreceipts)

theorem restoreSecurityHistory_sameRecords {latest : Snapshot}
    (h : restoreSecurityHistory c latest = .ok d) : SameRecords c d := by
  simp only [restoreSecurityHistory, bind_eq_ok, pure_eq_ok, Except.ok.injEq] at h
  obtain ⟨audit, -, events, -, rfl⟩ := h
  exact ⟨rfl, rfl, rfl, rfl, rfl, rfl, rfl, rfl⟩

theorem restoreInboxHead_sameRecords {head : String × ℤ} (h : restoreInboxHead c head = .ok d) :
    SameRecords c d := by
  simp only [restoreInboxHead, bind_eq_ok, pure_eq_ok, Except.ok.injEq] at h
  obtain ⟨_, -, _, -, rows, -, rfl⟩ := h
  exact ⟨rfl, rfl, rfl, rfl, rfl, rfl, rfl, rfl⟩

theorem restoreSecurity_sameRecords {P : Platform} {clock : RestoreClock} {latest : Snapshot}
    (h : restoreSecurity P clock c latest = .ok d) : SameRecords c d := by
  simp only [restoreSecurity, restorePrincipalNames, bind_eq_ok, sqlite_eq_ok] at h
  obtain ⟨_, -, _, -, _, -, c₁, h₁, c₂, h₂, c₃, h₃, c₄, h₄, c₅, h₅, c₆, h₆, c₇, h₇, h₈⟩ := h
  have hfence : SameRecords c (fenceAuthority clock c) := ⟨rfl, rfl, rfl, rfl, rfl, rfl, rfl, rfl⟩
  have hprincipals := hfence.trans (.fold (fun _ _ _ => upsertPrincipal_sameRecords) h₁)
  have hnames := hprincipals.trans
    (foldlM_ok_relation SameRecords.refl SameRecords.trans
      (fun _ _ _ => restorePrincipalName_sameRecords) h₂)
  have hspaces := hnames.trans (.fold (fun _ _ _ => upsertSpace_sameRecords) h₃)
  have hmemberships := hspaces.trans (.fold (fun _ _ _ => upsertMembership_sameRecords) h₄)
  have hkeys := hmemberships.trans (.fold (fun _ _ _ => upsertProfileIdempotencyKey_sameRecords) h₅)
  have hcredentials := hkeys.trans (restoreCredentialHistory_sameRecords h₆)
  have hhistory := hcredentials.trans (restoreSecurityHistory_sameRecords h₇)
  exact hhistory.trans
    (foldlM_ok_relation SameRecords.refl SameRecords.trans
      (fun _ _ _ => restoreInboxHead_sameRecords) h₈)

end Frame
end AgentJournal.Recovery
