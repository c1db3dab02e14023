import AgentJournal.Service.Listings

/-! # What a stored record holds

Only validated input becomes a record, so every record of a served store is within the bounds of the
domain. The ids beside it are those the service generated, and its times those the clock wrote.
-/

namespace AgentJournal.Service
open Domain Foundation Storage Recovery

variable {P : Platform} {c d : Central}

section Ids

/-- The ids that the service generated. -/
structure Identified (c : Central) : Prop where
  principals : ∀ p ∈ c.principals, IsIdentifier p.id
  mailboxItems : ∀ m ∈ c.mailboxItems, IsIdentifier m.id

/-- A statement outside the journal inserts a principal under an identifier or keeps the ids of the
others. It acknowledges an item or leaves the items alone. -/
theorem Write.shows (hw : Write P c d) :
    (∀ p ∈ d.principals, IsIdentifier p.id ∨ ∃ p' ∈ c.principals, p'.id = p.id) ∧
      (d.mailboxItems = c.mailboxItems ∨ ∃ item now, IsInstant P now ∧
        d.mailboxItems = (c.acknowledgeMailboxItem item now).2.mailboxItems) := by
  have hkept : ∀ p ∈ c.principals, IsIdentifier p.id ∨ ∃ p' ∈ c.principals, p'.id = p.id :=
    fun p hp => .inr ⟨p, hp, rfl⟩
  cases hw with
  | principal row hid hinsert =>
    obtain ⟨-, -, rfl⟩ := Central.insertPrincipal_eq_ok.mp hinsert
    exact ⟨forall_mem_append_singleton hkept (.inl hid), .inl rfl⟩
  | profile p f hf hupdate =>
    obtain ⟨-, -, rfl⟩ := Central.updatePrincipals_eq_ok.mp hupdate
    refine ⟨fun r hr => ?_, .inl rfl⟩
    obtain ⟨r', hr', rfl⟩ := List.mem_map.mp hr
    refine .inr ⟨r', hr', ?_⟩
    split
    · exact (hf r').symm
    · rfl
  | name row hinsert =>
    obtain ⟨-, -, -, rfl⟩ := Central.insertPrincipalName_eq_ok.mp hinsert
    exact ⟨hkept, .inl rfl⟩
  | retired p hupdate =>
    obtain ⟨-, -, rfl⟩ := Central.retireNames_eq_ok.mp hupdate
    exact ⟨hkept, .inl rfl⟩
  | credential row hrow hinsert =>
    obtain ⟨-, -, rfl⟩ := Central.insertCredential_eq_ok.mp hinsert
    exact ⟨hkept, .inl rfl⟩
  | revoked p f hf hupdate =>
    obtain ⟨-, rfl⟩ := Central.updateCredentials_eq_ok.mp hupdate
    exact ⟨hkept, .inl rfl⟩
  | credentialAudit credentialId operation occurredAt reason hinsert =>
    obtain ⟨-, -, rfl⟩ := Central.insertCredentialAudit_eq_ok.mp hinsert
    exact ⟨hkept, .inl rfl⟩
  | receipt row hinsert =>
    obtain ⟨-, -, rfl⟩ := Central.insertRegistrationReceipt_eq_ok.mp hinsert
    exact ⟨hkept, .inl rfl⟩
  | space row hid hinsert =>
    obtain ⟨-, rfl⟩ := Central.insertSpace_eq_ok.mp hinsert
    exact ⟨hkept, .inl rfl⟩
  | archived p f hf hupdate =>
    obtain ⟨-, rfl⟩ := Central.updateSpaces_eq_ok.mp hupdate
    exact ⟨hkept, .inl rfl⟩
  | membership merge row hmerge hinsert =>
    obtain ⟨rows, -, -, rfl⟩ := Central.upsertMembership_eq_ok.mp hinsert
    exact ⟨hkept, .inl rfl⟩
  | profileKey row hinsert =>
    obtain ⟨-, -, rfl⟩ := Central.insertProfileIdempotencyKey_eq_ok.mp hinsert
    exact ⟨hkept, .inl rfl⟩
  | auditEvent row hinsert =>
    obtain ⟨-, rfl⟩ := Central.insertAuditEvent_eq_ok.mp hinsert
    exact ⟨hkept, .inl rfl⟩
  | secret secret hlength hinsert =>
    obtain ⟨-, -, rfl⟩ := Central.insertJournalSecret_eq_ok.mp hinsert
    exact ⟨hkept, .inl rfl⟩
  | acknowledged item now hnow => exact ⟨hkept, .inr ⟨item, now, hnow, rfl⟩⟩

theorem Identified.write (h : Identified c) (hw : Write P c d) : Identified d := by
  refine ⟨fun p hp => ?_, fun m hm => ?_⟩
  · rcases hw.shows.1 p hp with hid | ⟨p', hp', heq⟩
    · exact hid
    · exact heq ▸ h.principals p' hp'
  · have hmem : allocation m ∈ d.mailboxItems.map allocation := List.mem_map_of_mem hm
    rw [hw.sameJournal.mailboxItems] at hmem
    obtain ⟨m', hm', heq⟩ := List.mem_map.mp hmem
    rw [← (allocation_inj heq).1]
    exact h.mailboxItems m' hm'

theorem Identified.journalWrite (h : Identified c) (hw : JournalWrite c d) : Identified d := by
  refine ⟨hw.sameSecurity.principals ▸ h.principals, ?_⟩
  cases hw with
  | record row _ hinsert =>
    obtain ⟨-, -, rfl⟩ := Central.insertRecord_eq_ok.mp hinsert
    exact h.mailboxItems
  | relation row hinsert =>
    obtain ⟨-, -, -, -, rfl⟩ := Central.insertRecordRelation_eq_ok.mp hinsert
    exact h.mailboxItems
  | attention row hinsert =>
    obtain ⟨-, -, -, rfl⟩ := Central.insertAttention_eq_ok.mp hinsert
    exact h.mailboxItems
  | inboxSequence recipient hinsert =>
    obtain ⟨-, rows, -, -, rfl⟩ := Central.upsertInboxSequence_eq_ok.mp hinsert
    exact h.mailboxItems
  | mailboxItem row hid hinsert =>
    obtain ⟨-, -, rfl⟩ := Central.insertMailboxItem_eq_ok.mp hinsert
    exact forall_mem_append_singleton h.mailboxItems hid
  | idempotencyKey row hinsert =>
    obtain ⟨-, -, rfl⟩ := Central.insertIdempotencyKey_eq_ok.mp hinsert
    exact h.mailboxItems

theorem identified_invariant (P : Platform) : Invariant P Identified where
  baseline _ := by constructor <;> simp [Central.baseline]
  anchor _ _ h := { h with }
  call call host c t _ _ h hrun := (Call.perform_writes call rfl hrun).invariant
    (fun _ _ hd hw => hw.elim hd.write hd.journalWrite) h
  merged _ _ _ hr hb hl :=
    ⟨fun p hp =>
      hl.principals p (hr.principals.mem_iff.mp hp), hr.sameRecords.mailboxItems ▸ hb.mailboxItems⟩

end Ids

section Records

/-- What an append was given. -/
def inputOf (r : Record) : RecordInput :=
  ⟨r.kind, r.content, r.runId, r.attention, r.routingKey, r.relations, r.title⟩

/-- A record as an append stores it. -/
structure LegalRecord (P : Platform) (r : Record) : Prop where
  id : IsIdentifier r.id
  input : (inputOf r).Valid
  title : ∀ t ∈ r.title, IsTitle t
  createdAt : IsInstant P r.createdAt

theorem storeAppend_legal {token space path key hash : String} {input : RecordInput} {s t : Session}
    {result : AppendResult}
    (h : (storeAppend P token space path key hash input).run s = .ok (result, t)) :
    LegalRecord P result.record := by
  unfold storeAppend at h
  obtain ⟨actor, s₁, -, h⟩ := run_bind_eq_ok.mp h
  obtain ⟨_, s₂, -, h⟩ := run_bind_eq_ok.mp h
  obtain ⟨codec, s₃, -, h⟩ := run_bind_eq_ok.mp h
  obtain ⟨recipients, s₄, -, h⟩ := run_bind_eq_ok.mp h
  obtain ⟨_, s₅, hvalid, h⟩ := run_bind_eq_ok.mp h
  obtain ⟨last, s₆, -, h⟩ := run_bind_eq_ok.mp h
  obtain ⟨seq, s₇, -, h⟩ := run_bind_eq_ok.mp h
  obtain ⟨_, s₈, -, h⟩ := run_bind_eq_ok.mp h
  obtain ⟨_, s₉, -, h⟩ := run_bind_eq_ok.mp h
  obtain ⟨time, s₁₀, -, h⟩ := run_bind_eq_ok.mp h
  obtain ⟨now, s₁₁, hnow, h⟩ := run_bind_eq_ok.mp h
  obtain ⟨id, s₁₂, hid, h⟩ := run_bind_eq_ok.mp h
  obtain ⟨_, s₁₃, -, h⟩ := run_bind_eq_ok.mp h
  obtain ⟨_, s₁₄, -, h⟩ := run_bind_eq_ok.mp h
  obtain ⟨_, s₁₅, -, h⟩ := run_bind_eq_ok.mp h
  obtain ⟨_, s₁₆, -, h⟩ := run_bind_eq_ok.mp h
  obtain ⟨_, s₁₇, -, h⟩ := run_bind_eq_ok.mp h
  obtain ⟨_, s₁₈, -, h⟩ := run_bind_eq_ok.mp h
  obtain ⟨_, s₁₉, -, hresult⟩ := run_bind_eq_ok.mp h
  obtain ⟨rfl, -⟩ := run_pure_eq_ok.mp hresult
  have hchecked := (attempt_eq_ok.mp hvalid).1
  split at hchecked
  · rename_i u hok
    have hinput := RecordInput.validate_eq_ok.mp hok
    have hperm := sortTexts_perm recipients
    refine ⟨isIdentifier_of_recordId hid, ?_, ?_, isInstant_of_timestamp (attempt_eq_ok.mp hnow).1⟩
    · exact { hinput with
        attentionCount := hperm.length_eq.trans_le hinput.attentionCount
        attention := fun p hp => hinput.attention p (hperm.mem_iff.mp hp)
        distinct := hperm.nodup_iff.mpr hinput.distinct }
    · intro title htitle
      have hnormal : normalizeTitle (normalizeTitle input.title) = some title := by
        rw [show normalizeTitle input.title = some title from htitle]
        exact (normalizeTitle_some htitle).2
      exact hinput.title title hnormal
  · cases hchecked

theorem appendRecord_legal {token space key : String} {input : RecordInput} {s t : Session}
    {result : AppendResult}
    (h : (appendRecord P token space key input).run s = .ok (result, t))
    (hnew : t.central ≠ s.central) :
    LegalRecord P result.record := by
  simp only [appendRecord, run_bind_eq_ok] at h
  obtain ⟨_, s₁, hkey, actor, s₂, hactor, previous, s₃, hprevious, hrest⟩ := h
  obtain ⟨-, rfl⟩ := attempt_eq_ok.mp hkey
  obtain ⟨-, rfl⟩ := query_eq_ok.mp hprevious
  cases previous with
  | some row =>
    have hsame := central_eq (fun _ => replayAppend_keeps _ row) hrest
    exact absurd
      (hsame.trans (central_eq (fun c => appendReplayActor_keeps (ofStore_central c) token) hactor))
      hnew
  | none => exact storeAppend_legal hrest

/-- The times of a mailbox item. -/
def Dated (P : Platform) (m : MailboxItemRow) : Prop :=
  IsInstant P m.createdAt ∧ ∀ time ∈ m.acknowledgedAt, IsInstant P time

/-- What the store shows as records and as mailbox items. -/
structure Legal (P : Platform) (c : Central) : Prop where
  records : ∀ id r, recordOf c id = some r → LegalRecord P r
  mailboxItems : ∀ m ∈ c.mailboxItems, Dated P m

theorem Legal.write (h : Legal P c) (hw : Write P c d) : Legal P d := by
  have hsame := hw.sameJournal
  have hshown : ∀ id, recordOf d id = recordOf c id := by
    intro id
    rw [recordOf, Central.findRecord, attentionOf, relationsOf, hsame.records, hsame.attention,
      hsame.recordRelations]
    rfl
  refine ⟨fun id r hr => h.records id r ((hshown id).symm.trans hr), ?_⟩
  rcases hw.shows.2 with hitems | ⟨item, now, hnow, hitems⟩
  · exact hitems ▸ h.mailboxItems
  · rw [hitems]
    intro m hm
    obtain ⟨m', hm', rfl⟩ := List.mem_map.mp hm
    split
    · refine ⟨(h.mailboxItems m' hm').1, ?_⟩
      rintro time htime
      rw [← Option.mem_some_iff.mp htime]
      exact hnow
    · exact h.mailboxItems m' hm'

theorem Legal.appended {space path key hash : String} {result : AppendResult} (h : Legal P c)
    (hc : WellFormed P c) (hd : WellFormed P d)
    (happended : Appended space path key hash c d result)
    (hlegal : LegalRecord P result.record) : Legal P d := by
  have hdiff := happended.diff hc hd
  obtain ⟨items, htables, hitems⟩ := hdiff.tables
  have hmailbox : d.mailboxItems = c.mailboxItems ++ items := by rw [htables]
  refine ⟨fun id r hr => ?_, fun m hm => ?_⟩
  · by_cases hid : id = result.record.id
    · rw [hid, hdiff.recordOf hc happended.fresh_id] at hr
      exact Option.some.inj hr ▸ hlegal
    · have hknown : c.hasRecord id = true := by
        obtain ⟨row, hfind, -⟩ := Option.map_eq_some_iff.mp hr
        have hrow := List.mem_of_find?_eq_some hfind
        have hrowId : row.id = id := by simpa using List.find?_some hfind
        have hrecords : d.records = c.records ++ [AppendResult.row result] := by rw [htables]
        rw [hrecords, List.mem_append, List.mem_singleton] at hrow
        rcases hrow with hrow | rfl
        · simpa [Central.hasRecord] using ⟨row, hrow, hrowId⟩
        · exact absurd hrowId.symm hid
      exact h.records id r ((happended.journaled.recordOf hknown).symm.trans hr)
  · rw [hmailbox, List.mem_append] at hm
    rcases hm with hm | hm
    · exact h.mailboxItems m hm
    · obtain ⟨i, hi, rfl⟩ := List.mem_iff_getElem.mp hm
      have hlength := hitems.length_eq
      obtain ⟨-, -, hcreated, hopen, -⟩ := (List.forall₂_iff_get.mp hitems).2 i (by omega) hi
      refine ⟨(congrArg (IsInstant P) hcreated).mpr hlegal.createdAt, ?_⟩
      intro time htime
      simp only [List.get_eq_getElem] at hopen
      rw [hopen] at htime
      cases htime

theorem Legal.call (call : Call) {host : Host} {t : Session} (hc : WellFormed P c) (h : Legal P c)
    (hrun : (call.perform P).run (.start host c) = .ok ((), t)) : Legal P t.central := by
  cases hcall : call.isAppend with
  | false =>
    have hwrites :=
      Call.perform_keeps hcall (.start host c) () t (Effects.none : Effects _ c 0 c) hrun
    exact hwrites.invariant (fun _ _ hd hw => hd.write hw) h
  | true =>
    have hd := (call.perform_extends rfl hc hrun).1
    cases call with
    | appendRecord token space key input =>
      obtain ⟨result, t', happend, hpure⟩ := run_bind_eq_ok.mp hrun
      obtain ⟨-, rfl⟩ := run_pure_eq_ok.mp hpure
      by_cases hsame : t'.central = c
      · exact hsame ▸ h
      · rcases appendRecord_cases happend with hsame' | happended
        · exact absurd hsame' hsame
        · exact h.appended hc hd happended (appendRecord_legal happend hsame)
    | _ => cases hcall

theorem legal_invariant (P : Platform) : Invariant P (Legal P) where
  baseline _ := by
    refine ⟨fun id r hr => ?_, by simp [Central.baseline]⟩
    cases hr
  anchor _ _ h := ⟨h.records, h.mailboxItems⟩
  call call _ _ _ hc _ h hrun := h.call call hc hrun
  merged _ _ _ hr hb _ := by
    have hsame := hr.sameRecords
    refine ⟨fun id r h => hb.records id r ?_, hsame.mailboxItems ▸ hb.mailboxItems⟩
    rw [← h, recordOf, recordOf, Central.findRecord, Central.findRecord, attentionOf, attentionOf,
      relationsOf, relationsOf, hsame.records, hsame.attention, hsame.recordRelations]

end Records

section Shown

/-- A record that a served store shows. -/
structure ShownRecord (P : Platform) (r : Record) : Prop where
  legal : LegalRecord P r
  spaceId : IsIdentifier r.spaceId
  author : IsIdentifier r.author
  seq : 0 < r.seq ∧ r.seq < 2 ^ 63

theorem isIdentifier_of_hasPrincipal (hc : Served P c) {id : String}
    (h : c.hasPrincipal id = true) :
    IsIdentifier id := by
  obtain ⟨p, hp, hid⟩ := List.any_eq_true.mp h
  rw [← decide_eq_true_eq.mp hid]
  exact (hc.invariant (identified_invariant P)).principals p hp

theorem Served.shown (hc : Served P c) {id : String} {r : Record} (h : recordOf c id = some r) :
    ShownRecord P r := by
  have hlegal := (hc.invariant (legal_invariant P)).records id r h
  obtain ⟨row, hfind, rfl⟩ := Option.map_eq_some_iff.mp h
  have hrow := List.mem_of_find?_eq_some hfind
  obtain ⟨hspace, hauthor⟩ := hc.wellFormed.references.records row hrow
  have hsized := hc.invariant (sized_invariant P)
  refine ⟨hlegal, ?_, isIdentifier_of_hasPrincipal hc hauthor,
    (position_start_lt hc.wellFormed hrow).1,
    (hsized.records row hrow).2⟩
  obtain ⟨s, hs, hid⟩ := List.any_eq_true.mp hspace
  rw [← decide_eq_true_eq.mp hid]
  exact hsized.spaces s hs

/-- A mailbox item that a served store shows. -/
structure ShownItem (P : Platform) (item : InboxItem) : Prop where
  id : IsIdentifier item.inboxItemId
  recipient : IsIdentifier item.recipient
  seq : 0 < item.seq ∧ item.seq < 2 ^ 63
  createdAt : IsInstant P item.createdAt
  acknowledgedAt : ∀ time ∈ item.acknowledgedAt, IsInstant P time
  record : ShownRecord P item.record

theorem Served.shownItem (hc : Served P c) {actor : String} {m : MailboxItemRow} {item : InboxItem}
    (hm : m ∈ c.mailboxItems) (hrecipient : m.recipientPrincipalId = actor)
    (h : Shows c actor m item) :
    ShownItem P item := by
  obtain ⟨hid, hactor, hseq, hcreated, hacknowledged, hrecord⟩ := h
  have hdated := (hc.invariant (legal_invariant P)).mailboxItems m hm
  have hchecked := hc.wellFormed.tables.mailboxItems.checked m hm
  simp only [Storage.mailboxItems, Bool.and_eq_true, decide_eq_true_eq] at hchecked
  refine ⟨?_, ?_, ?_, hcreated ▸ hdated.1, hacknowledged ▸ hdated.2, hc.shown hrecord⟩
  · exact hid ▸ (hc.invariant (identified_invariant P)).mailboxItems m hm
  · rw [hactor, ← hrecipient]
    exact isIdentifier_of_hasPrincipal hc (hc.wellFormed.references.mailboxItems m hm).2
  · rw [hseq]
    exact hchecked

end Shown

section Routes
variable {identity : ReadIdentity} {codec : CursorCodec} {s t : Session}

/-- A page as a route returns it. -/
structure LegalPage {α : Type} (shown : α → Prop) (items : List α) (nextCursor : Option String) :
    Prop where
  count : items.length ≤ maxPageSize
  items : ∀ x ∈ items, shown x
  cursor : ∀ cursor ∈ nextCursor, cursor.utf8ByteSize ≤ maxCursorChars

theorem limit_le {q : PageQuery} (h : q.validate = .ok ()) : q.effectiveLimit ≤ maxPageSize := by
  simp only [PageQuery.validate, bind_eq_ok, liftDomain_eq_ok, validatePageSize, failIf_eq_ok,
    not_not] at h
  obtain ⟨_, -, -, hle⟩ := h
  exact hle

theorem finishPage_legal {α : Type} {shown : α → Prop} {items : List α} {q : PageQuery}
    {scope : CursorScope}
    {position : α → CursorPosition} {page : Page α} (hvalid : q.validate = .ok ())
    (hitems : ∀ x ∈ items, shown x)
    (h : (finishPage P items q codec scope position).run s = .ok (page, t)) :
    LegalPage shown page.items page.nextCursor := by
  have hlimit := limit_le hvalid
  unfold finishPage at h
  split at h
  · simp only [okOr, run_bind_eq_ok, attempt_eq_ok, run_pure_eq_ok, required_eq_ok,
      succeeded_eq_some] at h
    obtain ⟨last, _, ⟨-, -⟩, cursor, _, ⟨hencode, -⟩, rfl, -⟩ := h
    refine ⟨(List.length_take_le _ _).trans hlimit, fun x hx =>
      hitems x (List.mem_of_mem_take hx), ?_⟩
    intro issued hissued
    rw [← Option.mem_some_iff.mp hissued]
    exact (CursorCodec.encode_eq_ok.mp hencode).2.1
  · rename_i hshort
    obtain ⟨rfl, -⟩ := run_pure_eq_ok.mp h
    exact ⟨(not_lt.mp hshort).trans hlimit, hitems, fun cursor hcursor => by cases hcursor⟩

/-- Records that are read one by one. -/
theorem shown_of_rendered {ρ : Type} {f : ρ → String} {rows : List ρ} {items : List Record}
    (hc : Served P c) (h : List.Forall₂ (fun row x => recordOf c (f row) = some x) rows items) :
    ∀ x ∈ items, ShownRecord P x := by
  intro x hx
  obtain ⟨row, -, hrow⟩ := forall₂_mem_right h hx
  exact hc.shown hrow

theorem listRecords_legal {space : String} {q : ListRecordsQuery} {page : Page Record}
    (hc : Served P s.central)
    (h : (listRecords P identity space q codec).run s = .ok (page, t)) :
    LegalPage (ShownRecord P) page.items page.nextCursor := by
  obtain ⟨hvalid, actor, u, sequence, id, xs, -, -, -, hrendered, hfinish⟩ := listRecords_eq_ok h
  have hpage : q.page.validate = .ok () := by
    simp only [ListRecordsQuery.validate, bind_eq_ok] at hvalid
    exact hvalid.choose_spec.1
  exact finishPage_legal hpage (shown_of_rendered hc hrendered) hfinish

theorem getThread_legal {anchor : String} {q : PageQuery} {page : Page Record}
    (hc : Served P s.central)
    (h : (getThread P identity anchor q codec).run s = .ok (page, t)) :
    LegalPage (ShownRecord P) page.items page.nextCursor := by
  obtain ⟨hvalid, row, scope, after, ids, u, xs, -, -, -, hrendered, hfinish⟩ := getThread_eq_ok h
  exact finishPage_legal hvalid (shown_of_rendered hc hrendered) hfinish

/-- A result as a search shows it. -/
def ShownResult (P : Platform) (r : SearchResult) : Prop :=
  ShownRecord P r.record ∧ ∀ text ∈ r.snippet, charCount text ≤ 1024

theorem searchRecords_legal {space : String} {q : SearchRecordsQuery} {page : SearchPage}
    (hc : Served P s.central)
    (h : (searchRecords P identity space q codec).run s = .ok (page, t)) :
    LegalPage (ShownResult P) page.items page.nextCursor := by
  obtain ⟨hvalid, since, matched, scope, decoded, sequence, score, id, u, xs, -, -, -, -, hrendered,
    hfinish⟩ := searchRecords_eq_ok h
  have hpage : q.page.validate = .ok () := by
    simp only [SearchRecordsQuery.validate, bind_eq_ok] at hvalid
    obtain ⟨_, -, _, hpage, -⟩ := hvalid
    exact hpage
  refine finishPage_legal hpage (fun x hx => ?_) hfinish
  obtain ⟨m, -, hrecord, -, hsnippet⟩ := forall₂_mem_right hrendered hx
  refine ⟨hc.shown hrecord, fun text htext => ?_⟩
  rw [hsnippet] at htext
  rw [← Option.mem_some_iff.mp htext, charCount, String.toList_ofList]
  exact List.length_take_le _ _

theorem inbox_legal {token : String} {q : InboxQuery} {page : Page InboxItem}
    (hc : Served P s.central)
    (h : (inbox P token q).run s = .ok (page, t)) :
    LegalPage (ShownItem P) page.items page.nextCursor := by
  obtain ⟨actor, s', -, after, upper, hpage⟩ := inbox_page h
  have hvalid : q.page.validate = .ok () := by
    simp only [inbox, run_bind_eq_ok, validated_eq_ok] at h
    obtain ⟨_, _, ⟨hvalid, -⟩, -⟩ := h
    simp only [InboxQuery.validate, bind_eq_ok] at hvalid
    exact hvalid.choose_spec.1
  refine ⟨?_, fun item hitem => ?_, fun cursor hcursor => ?_⟩
  · rw [← hpage.items.length_eq]
    exact (inboxRows_length_le ..).trans (limit_le hvalid)
  · obtain ⟨m, hm, hshows⟩ := hpage.mem hitem
    obtain ⟨hmem, hrecipient, -⟩ := mem_inboxRows hm
    exact hc.shownItem hmem hrecipient hshows
  · rcases hpage.next with ⟨hnone, -⟩ | ⟨issued, codec, last, hissued, -, -, -, hencode⟩
    · rw [hnone] at hcursor
      cases hcursor
    · rw [hissued] at hcursor
      rw [← Option.mem_some_iff.mp hcursor]
      exact (CursorCodec.encode_eq_ok.mp hencode).2.1

end Routes

end AgentJournal.Service
