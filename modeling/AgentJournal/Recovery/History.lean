import AgentJournal.Recovery.Restore
import AgentJournal.Storage.Integrity

/-! # How the identities of a journal grow

A later content of a journal keeps every identity of an earlier one: rows are added, names are
retired, credentials are revoked and allocation heads rise. This is all that a merge of the
later listing into the earlier database relies on.
-/

namespace AgentJournal.Recovery
open Domain Foundation Storage

/-- A name as it is kept: at most retired. -/
def NameKept (r r' : PrincipalNameRow) : Prop :=
  r'.name = r.name ∧ r'.principalId = r.principalId ∧ r'.createdAt = r.createdAt ∧
    (r'.kind = r.kind ∨ r'.kind = .aliased)

/-- A credential as it is kept: at most revoked. -/
def CredentialKept (r r' : CredentialRow) : Prop :=
  r'.identity = r.identity ∧ (r.revokedAt ≠ none → r'.revokedAt ≠ none)

structure Extends (c d : Central) : Prop where
  principals : ∀ r ∈ c.principals, ∃ r' ∈ d.principals, r'.id = r.id
  principalNames : ∀ r ∈ c.principalNames, ∃ r' ∈ d.principalNames, NameKept r r'
  credentials : ∀ r ∈ c.credentials, ∃ r' ∈ d.credentials, CredentialKept r r'
  registrationReceipts : ∀ r ∈ c.registrationReceipts, r ∈ d.registrationReceipts
  spaces : ∀ r ∈ c.spaces, ∃ r' ∈ d.spaces, r'.id = r.id ∧ r'.name = r.name
  profileIdempotencyKeys : ∀ r ∈ c.profileIdempotencyKeys, r ∈ d.profileIdempotencyKeys
  credentialAudit : ∀ r ∈ c.credentialAudit, r ∈ d.credentialAudit
  auditEvents : ∀ r ∈ c.auditEvents, r ∈ d.auditEvents
  inboxSequences : ∀ r ∈ c.inboxSequences, ∃ r' ∈ d.inboxSequences,
    r'.recipientPrincipalId = r.recipientPrincipalId ∧ r.lastSeq ≤ r'.lastSeq

namespace Extends
variable {c d e : Central}

theorem refl (c : Central) : Extends c c where
  principals r hr := ⟨r, hr, rfl⟩
  principalNames r hr := ⟨r, hr, rfl, rfl, rfl, .inl rfl⟩
  credentials r hr := ⟨r, hr, rfl, id⟩
  registrationReceipts _ := id
  spaces r hr := ⟨r, hr, rfl, rfl⟩
  profileIdempotencyKeys _ := id
  credentialAudit _ := id
  auditEvents _ := id
  inboxSequences r hr := ⟨r, hr, rfl, le_rfl⟩

theorem trans (h : Extends c d) (h' : Extends d e) : Extends c e where
  principals r hr := by
    obtain ⟨r₁, hr₁, hid₁⟩ := h.principals r hr
    obtain ⟨r₂, hr₂, hid₂⟩ := h'.principals r₁ hr₁
    exact ⟨r₂, hr₂, hid₂.trans hid₁⟩
  principalNames r hr := by
    obtain ⟨r₁, hr₁, hname₁, hprincipal₁, hcreated₁, hkind₁⟩ := h.principalNames r hr
    obtain ⟨r₂, hr₂, hname₂, hprincipal₂, hcreated₂, hkind₂⟩ := h'.principalNames r₁ hr₁
    refine ⟨r₂, hr₂, hname₂.trans hname₁, hprincipal₂.trans hprincipal₁,
      hcreated₂.trans hcreated₁, ?_⟩
    rcases hkind₂ with hkind₂ | hkind₂
    · rw [hkind₂]
      exact hkind₁
    · exact .inr hkind₂
  credentials r hr := by
    obtain ⟨r₁, hr₁, hidentity₁, hrevoked₁⟩ := h.credentials r hr
    obtain ⟨r₂, hr₂, hidentity₂, hrevoked₂⟩ := h'.credentials r₁ hr₁
    exact ⟨r₂, hr₂, hidentity₂.trans hidentity₁, fun hr => hrevoked₂ (hrevoked₁ hr)⟩
  registrationReceipts r hr := h'.registrationReceipts r (h.registrationReceipts r hr)
  spaces r hr := by
    obtain ⟨r₁, hr₁, hid₁, hname₁⟩ := h.spaces r hr
    obtain ⟨r₂, hr₂, hid₂, hname₂⟩ := h'.spaces r₁ hr₁
    exact ⟨r₂, hr₂, hid₂.trans hid₁, hname₂.trans hname₁⟩
  profileIdempotencyKeys r hr := h'.profileIdempotencyKeys r (h.profileIdempotencyKeys r hr)
  credentialAudit r hr := h'.credentialAudit r (h.credentialAudit r hr)
  auditEvents r hr := h'.auditEvents r (h.auditEvents r hr)
  inboxSequences r hr := by
    obtain ⟨r₁, hr₁, hrecipient₁, hle₁⟩ := h.inboxSequences r hr
    obtain ⟨r₂, hr₂, hrecipient₂, hle₂⟩ := h'.inboxSequences r₁ hr₁
    exact ⟨r₂, hr₂, hrecipient₂.trans hrecipient₁, hle₁.trans hle₂⟩

end Extends
end AgentJournal.Recovery
