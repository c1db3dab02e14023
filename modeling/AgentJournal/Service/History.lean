import AgentJournal.Recovery.History
import AgentJournal.Service.Integrity

/-! # Every write extends the identities of the journal -/

namespace AgentJournal.Service
open Domain Foundation Storage Recovery

variable {P : Platform} {c d : Central}

/-- Each row of a table is kept when matching rows are rewritten in place. -/
theorem exists_mem_map_ite {α : Type} {p : α → Bool} {f : α → α} {R : α → α → Prop} {l : List α}
    (hrefl : ∀ r, R r r) (hf : ∀ r, p r = true → R r (f r)) :
    ∀ r ∈ l, ∃ r' ∈ l.map (fun r => if p r then f r else r), R r r' := by
  intro r hr
  refine ⟨if p r then f r else r, List.mem_map_of_mem hr, ?_⟩
  split
  · exact hf r ‹_›
  · exact hrefl r

theorem exists_mem_append {α : Type} {R : α → α → Prop} {l m : List α} (hrefl : ∀ r, R r r) :
    ∀ r ∈ l, ∃ r' ∈ l ++ m, R r r' := fun r hr => ⟨r, List.mem_append_left _ hr, hrefl r⟩

theorem Write.extended (h : Write P c d) : Extends c d := by
  cases h with
  | principal row _ h =>
    obtain ⟨-, -, rfl⟩ := Central.insertPrincipal_eq_ok.mp h
    exact { Extends.refl c with principals := exists_mem_append fun _ => rfl }
  | profile p f hf h =>
    obtain ⟨-, -, rfl⟩ := Central.updatePrincipals_eq_ok.mp h
    exact { Extends.refl c with principals := exists_mem_map_ite (fun _ => rfl) fun r _ => hf r }
  | name row h =>
    obtain ⟨-, -, -, rfl⟩ := Central.insertPrincipalName_eq_ok.mp h
    exact { Extends.refl c with
      principalNames := exists_mem_append fun _ => ⟨rfl, rfl, rfl, .inl rfl⟩ }
  | retired p h =>
    obtain ⟨-, -, rfl⟩ := Central.retireNames_eq_ok.mp h
    exact { Extends.refl c with
      principalNames := exists_mem_map_ite (fun _ => ⟨rfl, rfl, rfl, .inl rfl⟩)
        fun _ _ => ⟨rfl, rfl, rfl, .inr rfl⟩ }
  | credential row hrow h =>
    obtain ⟨-, -, rfl⟩ := Central.insertCredential_eq_ok.mp h
    exact { Extends.refl c with credentials := exists_mem_append fun _ => ⟨rfl, id⟩ }
  | revoked p f hf h =>
    obtain ⟨-, rfl⟩ := Central.updateCredentials_eq_ok.mp h
    exact { Extends.refl c with
      credentials := exists_mem_map_ite (fun _ => ⟨rfl, id⟩)
        fun r _ => ⟨(hf r).1, fun _ => (hf r).2⟩ }
  | credentialAudit credentialId operation occurredAt reason h =>
    obtain ⟨-, -, rfl⟩ := Central.insertCredentialAudit_eq_ok.mp h
    exact { Extends.refl c with credentialAudit := fun _ => List.mem_append_left _ }
  | receipt row h =>
    obtain ⟨-, -, rfl⟩ := Central.insertRegistrationReceipt_eq_ok.mp h
    exact { Extends.refl c with registrationReceipts := fun _ => List.mem_append_left _ }
  | space row _ h =>
    obtain ⟨-, rfl⟩ := Central.insertSpace_eq_ok.mp h
    exact { Extends.refl c with spaces := exists_mem_append fun _ => ⟨rfl, rfl⟩ }
  | archived p f hf h =>
    obtain ⟨-, rfl⟩ := Central.updateSpaces_eq_ok.mp h
    exact { Extends.refl c with
      spaces := exists_mem_map_ite (fun _ => ⟨rfl, rfl⟩) fun r _ => hf r }
  | membership merge row hmerge h =>
    obtain ⟨rows, -, -, rfl⟩ := Central.upsertMembership_eq_ok.mp h
    exact { Extends.refl c with }
  | profileKey row h =>
    obtain ⟨-, -, rfl⟩ := Central.insertProfileIdempotencyKey_eq_ok.mp h
    exact { Extends.refl c with profileIdempotencyKeys := fun _ => List.mem_append_left _ }
  | auditEvent row h =>
    obtain ⟨-, rfl⟩ := Central.insertAuditEvent_eq_ok.mp h
    exact { Extends.refl c with auditEvents := fun _ => List.mem_append_left _ }
  | secret secret _ h =>
    obtain ⟨-, -, rfl⟩ := Central.insertJournalSecret_eq_ok.mp h
    exact { Extends.refl c with }
  | acknowledged item now _ => exact { Extends.refl c with }

/-- Allocating a sequence raises the head of its recipient only. -/
theorem JournalWrite.inboxSequences (hv : c.TablesValid P) (h : JournalWrite c d) :
    ∀ r ∈ c.inboxSequences, ∃ r' ∈ d.inboxSequences,
      r'.recipientPrincipalId = r.recipientPrincipalId ∧ r.lastSeq ≤ r'.lastSeq := by
  have hrefl : ∀ r ∈ c.inboxSequences, ∃ r' ∈ c.inboxSequences,
      r'.recipientPrincipalId = r.recipientPrincipalId ∧ r.lastSeq ≤ r'.lastSeq :=
    fun r hr => ⟨r, hr, rfl, le_rfl⟩
  cases h with
  | record row _ h =>
    obtain ⟨-, -, rfl⟩ := Central.insertRecord_eq_ok.mp h
    exact hrefl
  | relation row h =>
    obtain ⟨-, -, -, -, rfl⟩ := Central.insertRecordRelation_eq_ok.mp h
    exact hrefl
  | attention row h =>
    obtain ⟨-, -, -, rfl⟩ := Central.insertAttention_eq_ok.mp h
    exact hrefl
  | inboxSequence recipient h =>
    obtain ⟨-, rows, hupsert, -, rfl⟩ := Central.upsertInboxSequence_eq_ok.mp h
    intro r hr
    rcases Schema.upsert_cases hupsert with ⟨-, rfl⟩ | ⟨old, hold, hkey, -, -, rfl⟩
    · exact ⟨r, List.mem_append_left _ hr, rfl, le_rfl⟩
    · refine ⟨_, List.mem_map_of_mem hr, ?_⟩
      split
      · rename_i hrow
        obtain rfl : old = r := hv.inboxSequences.eq_of_key hold hr (hkey.trans hrow.symm)
        exact ⟨rfl, by simp⟩
      · exact ⟨rfl, le_rfl⟩
  | mailboxItem row _ h =>
    obtain ⟨-, -, rfl⟩ := Central.insertMailboxItem_eq_ok.mp h
    exact hrefl
  | idempotencyKey row h =>
    obtain ⟨-, -, rfl⟩ := Central.insertIdempotencyKey_eq_ok.mp h
    exact hrefl

theorem StoreWrite.extended (hc : WellFormed P c) (h : StoreWrite P c d) : Extends c d := by
  rcases h with h | h
  · exact h.extended
  · have hsame := h.sameSecurity
    have hrefl := Extends.refl c
    exact
      { principals := hsame.principals.symm ▸ hrefl.principals
        principalNames := hsame.principalNames.symm ▸ hrefl.principalNames
        credentials := hsame.credentials.symm ▸ hrefl.credentials
        registrationReceipts := hsame.registrationReceipts.symm ▸ hrefl.registrationReceipts
        spaces := hsame.spaces.symm ▸ hrefl.spaces
        profileIdempotencyKeys := hsame.profileIdempotencyKeys.symm ▸ hrefl.profileIdempotencyKeys
        credentialAudit := hsame.credentialAudit.symm ▸ hrefl.credentialAudit
        auditEvents := hsame.auditEvents.symm ▸ hrefl.auditEvents
        inboxSequences := h.inboxSequences hc.tables }

/-- A call keeps the store well formed and extends its identities. -/
theorem Call.perform_extends (call : Call) {s t : Session} {u : Unit} (hs : s.changes = 0)
    (hc : WellFormed P s.central) (hrun : (call.perform P).run s = .ok (u, t)) :
    WellFormed P t.central ∧ Extends s.central t.central :=
  (perform_writes call hs hrun).invariant (I := fun d => WellFormed P d ∧ Extends s.central d)
    (fun _ _ hd hw => ⟨hw.wellFormed hd.1, hd.2.trans (hw.extended hd.1)⟩) ⟨hc, .refl _⟩

end AgentJournal.Service
