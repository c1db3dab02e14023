import AgentJournal.Service.Traversal

/-! # What the listings show

Each listing of the service is a keyset listing of a plain filtered list. Sequence listings are
followed by sequence alone: sequences are unique in a space, so the id of a cursor never decides.
-/

namespace AgentJournal.Service
open Domain Foundation Storage Recovery

variable {P : Platform} {c d e : Central}

section Sizes

/-- What the calls write fits its columns and its cursors. -/
structure Sized (c : Central) : Prop where
  spaces : ∀ s ∈ c.spaces, IsIdentifier s.id
  records : ∀ r ∈ c.records, r.id ≠ "" ∧ r.spaceSeq < 2 ^ 63
  journalSecret : ∀ secret ∈ c.journalSecret, secret.length = 32

theorem Sized.write (h : Sized c) (hw : Write P c d) : Sized d := by
  cases hw with
  | space row hid hinsert =>
    obtain ⟨-, rfl⟩ := Central.insertSpace_eq_ok.mp hinsert
    exact { h with spaces := forall_mem_append_singleton h.spaces hid }
  | archived p f hf hupdate =>
    obtain ⟨-, rfl⟩ := Central.updateSpaces_eq_ok.mp hupdate
    refine { h with spaces := fun s hs => ?_ }
    obtain ⟨s', hs', rfl⟩ := List.mem_map.mp hs
    split
    · rw [(hf s').1]
      exact h.spaces s' hs'
    · exact h.spaces s' hs'
  | secret secret hlength hinsert =>
    obtain ⟨-, -, rfl⟩ := Central.insertJournalSecret_eq_ok.mp hinsert
    exact { h with journalSecret := by simpa using hlength }
  | principal row _ hinsert =>
    obtain ⟨-, -, rfl⟩ := Central.insertPrincipal_eq_ok.mp hinsert
    exact { h with }
  | profile p f hf hupdate =>
    obtain ⟨-, -, rfl⟩ := Central.updatePrincipals_eq_ok.mp hupdate
    exact { h with }
  | name row hinsert =>
    obtain ⟨-, -, -, rfl⟩ := Central.insertPrincipalName_eq_ok.mp hinsert
    exact { h with }
  | retired p hupdate =>
    obtain ⟨-, -, rfl⟩ := Central.retireNames_eq_ok.mp hupdate
    exact { h with }
  | credential row hrow hinsert =>
    obtain ⟨-, -, rfl⟩ := Central.insertCredential_eq_ok.mp hinsert
    exact { h with }
  | revoked p f hf hupdate =>
    obtain ⟨-, rfl⟩ := Central.updateCredentials_eq_ok.mp hupdate
    exact { h with }
  | credentialAudit credentialId operation occurredAt reason hinsert =>
    obtain ⟨-, -, rfl⟩ := Central.insertCredentialAudit_eq_ok.mp hinsert
    exact { h with }
  | receipt row hinsert =>
    obtain ⟨-, -, rfl⟩ := Central.insertRegistrationReceipt_eq_ok.mp hinsert
    exact { h with }
  | membership merge row hmerge hinsert =>
    obtain ⟨rows, -, -, rfl⟩ := Central.upsertMembership_eq_ok.mp hinsert
    exact { h with }
  | profileKey row hinsert =>
    obtain ⟨-, -, rfl⟩ := Central.insertProfileIdempotencyKey_eq_ok.mp hinsert
    exact { h with }
  | auditEvent row hinsert =>
    obtain ⟨-, rfl⟩ := Central.insertAuditEvent_eq_ok.mp hinsert
    exact { h with }
  | acknowledged item now _ => exact { h with }

theorem Sized.journalWrite (h : Sized c) (hw : JournalWrite c d) : Sized d := by
  have hsame := hw.sameSecurity
  refine ⟨hsame.spaces ▸ h.spaces, ?_, hsame.journalSecret ▸ h.journalSecret⟩
  cases hw with
  | record row hseq hinsert =>
    obtain ⟨-, -, rfl⟩ := Central.insertRecord_eq_ok.mp hinsert
    exact forall_mem_append_singleton h.records hseq
  | relation row hinsert =>
    obtain ⟨-, -, -, -, rfl⟩ := Central.insertRecordRelation_eq_ok.mp hinsert
    exact h.records
  | attention row hinsert =>
    obtain ⟨-, -, -, rfl⟩ := Central.insertAttention_eq_ok.mp hinsert
    exact h.records
  | inboxSequence recipient hinsert =>
    obtain ⟨-, rows, -, -, rfl⟩ := Central.upsertInboxSequence_eq_ok.mp hinsert
    exact h.records
  | mailboxItem row _ hinsert =>
    obtain ⟨-, -, rfl⟩ := Central.insertMailboxItem_eq_ok.mp hinsert
    exact h.records
  | idempotencyKey row hinsert =>
    obtain ⟨-, -, rfl⟩ := Central.insertIdempotencyKey_eq_ok.mp hinsert
    exact h.records

theorem sized_invariant (P : Platform) : Invariant P Sized where
  baseline _ := by constructor <;> simp [Central.baseline]
  anchor _ _ h := { h with }
  call call host c t _ _ h hrun := (Call.perform_writes call rfl hrun).invariant
    (fun _ _ hd hw => hw.elim hd.write hd.journalWrite) h
  merged _ _ _ hr hb hl := by
    refine ⟨fun s hs => hl.spaces s (hr.spaces.mem_iff.mp hs), hr.sameRecords.records ▸ hb.records,
      ?_⟩
    exact hr.sameRecords.journalSecret ▸ hb.journalSecret

end Sizes

section Cursors
variable {codec : CursorCodec} {scope : CursorScope} {page : PageQuery} {s t : Session}
  {cursor : String}

theorem cursorPosition_eq_ok {decoded : Option CursorPosition}
    (h : (cursorPosition P codec scope page).run s = .ok (decoded, t)) : t = s ∧
      ((continuation page = none ∧ decoded = none) ∨ ∃ cursor position,
        continuation page = some cursor ∧ codec.decode P scope cursor = .ok position ∧
          decoded = some position) := by
  unfold cursorPosition at h
  cases hcontinuation : continuation page with
  | none =>
    rw [hcontinuation] at h
    obtain ⟨rfl, rfl⟩ := run_pure_eq_ok.mp h
    exact ⟨rfl, .inl ⟨rfl, rfl⟩⟩
  | some cursor =>
    rw [hcontinuation] at h
    simp only [okOr, run_bind_eq_ok, attempt_eq_ok, required_eq_ok, succeeded_eq_some,
      run_pure_eq_ok] at h
    obtain ⟨position, _, ⟨hdecode, rfl⟩, rfl, rfl⟩ := h
    exact ⟨rfl, .inr ⟨cursor, position, rfl, hdecode, rfl⟩⟩

/-- The position of a cursor the service issued is the position it was issued at. -/
theorem cursorPosition_issued (hP : P.EncodesCursors) {codec' : CursorCodec} {scope' : CursorScope}
    {issued : CursorPosition} {decoded : Option CursorPosition} (hfits : issued.Fits)
    (hencode : codec'.encode P scope' issued = .ok cursor) (hcursor : page.cursor = some cursor)
    (h : (cursorPosition P codec scope page).run s = .ok (decoded, t)) :
    t = s ∧ decoded = some issued := by
  have hcontinued := continuation_issued hcursor hencode
  obtain ⟨rfl, ⟨hnone, -⟩ | ⟨cursor', position, hcontinuation, hdecode, rfl⟩⟩ :=
    cursorPosition_eq_ok h
  · simp [hcontinued] at hnone
  · obtain rfl : cursor = cursor' := Option.some.inj (hcontinued.symm.trans hcontinuation)
    exact ⟨rfl, by rw [(CursorCodec.decode_encode hP hfits hencode hdecode).1]⟩

theorem cursorPosition_start {decoded : Option CursorPosition} (hcursor : page.cursor = none)
    (h : (cursorPosition P codec scope page).run s = .ok (decoded, t)) :
    t = s ∧ decoded = none := by
  obtain ⟨rfl, ⟨-, rfl⟩ | ⟨cursor', position, hcontinuation, -, -⟩⟩ := cursorPosition_eq_ok h
  · exact ⟨rfl, rfl⟩
  · simp [continuation, hcursor] at hcontinuation

/-- A cursor that stands for an id. -/
def IdentifierCursor (P : Platform) (cursor id : String) : Prop :=
  ∃ codec scope, CursorCodec.encode P codec scope (.identifier id) = .ok cursor

/-- A cursor that stands for a known sequence with its id. -/
def SequenceCursor (P : Platform) (known : ℤ → String → Prop) (cursor : String) (k : ℤ ×ₗ String) :
    Prop :=
  ∃ seq id codec scope, k = position seq id ∧ known seq id ∧ 0 ≤ seq ∧ seq < 2 ^ 63 ∧
    CursorCodec.encode P codec scope (.sequence seq.toNat id) = .ok cursor

/-- A cursor that stands for a score with the id of its record. -/
def RankCursor (P : Platform) (cursor : String) (k : ℤᵒᵈ ×ₗ String) : Prop :=
  ∃ score id codec scope, k = rankPosition score id ∧
    CursorCodec.encode P codec scope (.rank score.bits id) = .ok cursor

theorem identifierPosition_eq_ok (hP : P.EncodesCursors) {after : String}
    (h : (identifierPosition P codec scope page).run s = .ok (after, t)) :
    t = s ∧ (page.cursor = none → after = "") ∧
      ∀ cursor id, page.cursor = some cursor → IdentifierCursor P cursor id → after = id := by
  simp only [identifierPosition, okOr, run_bind_eq_ok, attempt_eq_ok, required_eq_ok] at h
  obtain ⟨decoded, _, hdecoded, hafter, rfl⟩ := h
  refine ⟨(cursorPosition_eq_ok hdecoded).1, fun hcursor => ?_, fun cursor id hcursor hissued => ?_⟩
  · obtain ⟨-, rfl⟩ := cursorPosition_start hcursor hdecoded
    exact (Option.some.inj hafter).symm
  · obtain ⟨codec', scope', hencode⟩ := hissued
    have hfits : (CursorPosition.identifier id).Fits := trivial
    obtain ⟨-, rfl⟩ := cursorPosition_issued hP hfits hencode hcursor hdecoded
    exact (Option.some.inj hafter).symm

theorem sequence_fits {seq : ℤ} {id : String} (hbound : seq < 2 ^ 63) :
    (CursorPosition.sequence seq.toNat id).Fits := by
  change seq.toNat < 2 ^ 64
  omega

theorem sequenceOf_toNat {seq : ℤ} {id : String} (hnonneg : 0 ≤ seq) (hbound : seq < 2 ^ 63) :
    sequenceOf (some (.sequence seq.toNat id)) = some (seq, id) := by
  simp only [sequenceOf, Int.toNat_of_nonneg hnonneg]
  rw [if_pos (by omega)]

theorem sequencePosition_state {after : ℤ × String}
    (h : (sequencePosition P codec scope page).run s = .ok (after, t)) : t = s := by
  simp only [sequencePosition, okOr, run_bind_eq_ok, attempt_eq_ok, required_eq_ok] at h
  obtain ⟨decoded, _, hdecoded, -, rfl⟩ := h
  exact (cursorPosition_eq_ok hdecoded).1

theorem sequencePosition_eq_ok (hP : P.EncodesCursors) {after : ℤ × String}
    (h : (sequencePosition P codec scope page).run s = .ok (after, t)) :
    t = s ∧ (page.cursor = none → after = (0, "")) ∧
      ∀ known cursor k, page.cursor = some cursor → SequenceCursor P known cursor k →
        k = position after.1 after.2 ∧ known after.1 after.2 := by
  simp only [sequencePosition, okOr, run_bind_eq_ok, attempt_eq_ok, required_eq_ok] at h
  obtain ⟨decoded, _, hdecoded, hafter, rfl⟩ := h
  refine ⟨(cursorPosition_eq_ok hdecoded).1, fun hcursor =>
    ?_, fun known cursor k hcursor hissued => ?_⟩
  · obtain ⟨-, rfl⟩ := cursorPosition_start hcursor hdecoded
    exact (Option.some.inj hafter).symm
  · obtain ⟨seq, id, codec', scope', rfl, hknown, hnonneg, hbound, hencode⟩ := hissued
    obtain ⟨-, rfl⟩ := cursorPosition_issued hP (sequence_fits hbound) hencode hcursor hdecoded
    rw [sequenceOf_toNat hnonneg hbound] at hafter
    cases hafter
    exact ⟨rfl, hknown⟩

end Cursors

/-- A paged read: the codec comes from a store that was served into the one the snapshot shows. -/
def PagedRead {β : Type} (P : Platform) (identity : ReadIdentity) (space : Option String)
    (route : CursorCodec → Tx β) (c : Central) (value : β) : Prop :=
  ∃ host host' k codec t t', (pagedCodec P identity space).run (.start host k) = .ok (codec, t) ∧
    Serves P t.central c ∧ (route codec).run (.start host' c) = .ok (value, t')

theorem empty_lt_iff {text : String} : "" < text ↔ text ≠ "" := by
  rw [String.lt_iff_toList_lt]
  cases h : text.toList with
  | nil => simp [String.toList_eq_nil_iff.mp h]
  | cons a l =>
    have hne : text ≠ "" := by
      rintro rfl
      simp at h
    simpa using hne

section Spaces

/-- The public spaces. -/
def publicSpaces (c : Central) : List SpaceRow := c.spaces.filter fun s => s.access = .publicAccess

def spacesRoute (P : Platform) (c : Central) (q : PageQuery) (page : Page Space) : Prop :=
  ∃ identity, PagedRead P identity none (listSpaces P identity q) c page

theorem spaces_distinct (hc : WellFormed P c) : c.spaces.Pairwise fun a b => a.id ≠ b.id := by
  refine hc.tables.spaces.keys.imp fun {a b} hkey heq => hkey ?_
  simp [Storage.spaces, heq]

theorem publicSpaces_distinct (hc : WellFormed P c) :
    (publicSpaces c).Pairwise fun a b => a.id ≠ b.id :=
      (spaces_distinct hc).sublist List.filter_sublist

theorem findSpace_eq_ok {id : String} {space : Space} {s t : Session}
    (h : (findSpace id).run s = .ok (space, t)) :
    t = s ∧ ∃ row, s.central.spaces.find? (fun r => r.id = id) = some row ∧
    space = spaceOf row := by
  simp only [findSpace, queryRow, okOr, run_bind_eq_ok, query_eq_ok, attempt_eq_ok, required_eq_ok,
    run_pure_eq_ok] at h
  obtain ⟨row, _, ⟨_, _, ⟨rfl, rfl⟩, hrow, rfl⟩, rfl, rfl⟩ := h
  exact ⟨rfl, row, hrow, rfl⟩

theorem limit_of_page {q : PageQuery} (h : q.validate = .ok ()) : 1 ≤ q.effectiveLimit := by
  simp only [PageQuery.validate, bind_eq_ok] at h
  obtain ⟨_, -, hlimit⟩ := h
  by_contra hnot
  simp [liftDomain, validatePageSize, failIf, hnot] at hlimit

theorem spaceRows_eq (after : String) (limit : ℕ) : spaceRows c after limit =
    firstRows SpaceRow.id limit ((publicSpaces c).filter fun r => after < r.id) := by
  simp only [spaceRows, publicSpaces, List.filter_filter, Bool.and_comm]

/-- A page of the spaces after an id. -/
theorem spaces_page (hP : P.EncodesCursors) {f : Fetched Space} (hc : Served P f.central)
    (hroute : spacesRoute P f.central f.query f.page) :
    ∃ after, PageOf Space.id SpaceRow.id publicSpaces (fun _ r x => x = spaceOf r)
    (IdentifierCursor P)
        f after ∧
      (f.query.cursor = none → ∀ r ∈ publicSpaces f.central, after r = true) ∧
      ∀ cursor p, f.query.cursor = some cursor → IdentifierCursor P cursor p →
        ∀ r ∈ publicSpaces f.central, after r = true ↔ p < r.id := by
  have hwell := hc.wellFormed
  obtain ⟨identity, _, host, _, codec, _, t, -, -, h⟩ := hroute
  simp only [listSpaces, run_bind_eq_ok, validated_eq_ok, query_eq_ok] at h
  obtain ⟨_, _, ⟨hvalid, rfl⟩, actor, s₁, hactor, after, s₂, hafter, _, _, ⟨rfl, rfl⟩, xs, s₃, hxs,
    hfinish⟩ := h
  have h₁ : s₁.central = f.central :=
    central_eq (fun c => readActor_keeps (ofStore_central c) identity) hactor
  obtain ⟨rfl, hstart, hissued⟩ := identifierPosition_eq_ok hP hafter
  refine ⟨fun r => after < r.id, ?_, fun hcursor r hr => ?_, fun cursor p hcursor hp r _ => ?_⟩
  · obtain ⟨rfl, hrendered⟩ := mapM_reads (fun row s x t => findSpace_eq_ok) _ hxs
    rw [h₁, spaceRows_eq] at hrendered
    refine PageOf.of_finishPage (publicSpaces_distinct hwell) (fun r x hx => by rw [hx]; rfl)
      (limit_of_page hvalid) ?_ hfinish fun r _ x cursor hx hencode => ⟨codec, _, hencode⟩
    refine List.Forall₂.imp ?_ ((List.forall₂_and_left _ _).mpr ⟨fun _ hr => hr, hrendered⟩)
    rintro r x ⟨hr, row, hfind, rfl⟩
    have hmem := (List.mem_filter.mp (List.mem_filter.mp (mem_of_mem_firstRows hr)).1).1
    rw [find?_of_distinct (spaces_distinct hwell) hmem] at hfind
    rw [Option.some.inj hfind]
  · rw [decide_eq_true_eq, hstart hcursor, empty_lt_iff]
    exact ((hc.invariant (sized_invariant P)).spaces r (List.mem_filter.mp hr).1).1
  · rw [decide_eq_true_eq, hissued cursor p hcursor hp]

end Spaces

section Principals

def principalsRoute (P : Platform) (space : String) (c : Central) (q : PageQuery)
    (page : Page Principal) :
    Prop :=
  ∃ token, PagedRead P (.bearer token) none (listPrincipals P token ⟨space, q⟩) c page

theorem principals_distinct (hc : WellFormed P c) :
    c.principals.Pairwise fun a b => a.id ≠ b.id := by
  refine hc.tables.principals.keys.imp fun {a b} hkey heq => hkey ?_
  simp [Storage.principals, heq]

theorem principal_id_ne_empty (hc : WellFormed P c) {row : PrincipalRow}
    (hrow : row ∈ c.principals) :
    row.id ≠ "" := by
  intro hempty
  have hchecked := hc.tables.principals.checked row hrow
  simp only [Storage.principals, hempty, Bool.and_eq_true] at hchecked
  exact absurd hchecked.1.1.1 (by decide)

theorem mem_activePrincipals {p : Principal} (h : p ∈ activePrincipals c) :
    ∃ row ∈ c.principals, row.id = p.id := by
  obtain ⟨row, hrow, hp⟩ := List.mem_flatMap.mp h
  obtain ⟨n, -, rfl⟩ := List.mem_map.mp hp
  exact ⟨row, (List.mem_filter.mp hrow).1, rfl⟩

/-- A principal has one current name, so it is listed once. -/
theorem activePrincipals_distinct (hc : WellFormed P c) :
    (activePrincipals c).Pairwise fun a b => a.id ≠ b.id := by
  unfold activePrincipals
  rw [List.pairwise_flatMap]
  constructor
  · intro p _
    rw [List.pairwise_map]
    refine (hc.tables.principalNames.uniques.sublist List.filter_sublist).imp_of_mem ?_
    intro a b ha hb hapart _
    have hcurrent : ∀ n ∈ c.principalNames.filter
      (fun n => n.principalId = p.id && n.kind = .current),
        n.principalId = p.id ∧ n.kind = .current := by
      intro n hn
      simpa using (List.mem_filter.mp hn).2
    simp [Schema.collides, Storage.principalNames, hcurrent a ha, hcurrent b hb] at hapart
  · refine ((principals_distinct hc).sublist List.filter_sublist).imp ?_
    intro p q hne x hx y hy
    obtain ⟨_, -, rfl⟩ := List.mem_map.mp hx
    obtain ⟨_, -, rfl⟩ := List.mem_map.mp hy
    exact hne

theorem limit_of_principals {q : ListPrincipalsQuery} (h : q.validate = .ok ()) :
    1 ≤ q.page.effectiveLimit := by
  simp only [ListPrincipalsQuery.validate, bind_eq_ok] at h
  obtain ⟨_, -, hpage⟩ := h
  exact limit_of_page hpage

/-- A page of the active principals after an id. -/
theorem principals_page (hP : P.EncodesCursors) {space : String} {f : Fetched Principal}
    (hc : Served P f.central) (hroute : principalsRoute P space f.central f.query f.page) :
    ∃ after, PageOf Principal.id Principal.id activePrincipals (fun _ r x => x = r)
    (IdentifierCursor P)
        f after ∧
      (f.query.cursor = none → ∀ r ∈ activePrincipals f.central, after r = true) ∧
      ∀ cursor p, f.query.cursor = some cursor → IdentifierCursor P cursor p →
        ∀ r ∈ activePrincipals f.central, after r = true ↔ p < r.id := by
  have hwell := hc.wellFormed
  obtain ⟨token, _, host, _, codec, _, t, -, -, h⟩ := hroute
  simp only [listPrincipals, run_bind_eq_ok, validated_eq_ok, query_eq_ok] at h
  obtain ⟨_, _, ⟨hvalid, rfl⟩, actor, s₁, hactor, _, s₂, hpermitted, after, s₃, hafter, _, _,
    ⟨rfl, rfl⟩,
    hfinish⟩ := h
  have h₂ : s₂.central = f.central := (central_eq (fun _ => permitted_keeps _ _ _) hpermitted).trans
    (central_eq (fun c => journalActor_keeps (ofStore_central c) token) hactor)
  obtain ⟨rfl, hstart, hissued⟩ := identifierPosition_eq_ok hP hafter
  refine ⟨fun r => after < r.id, ?_, fun hcursor r hr => ?_, fun cursor p hcursor hp r _ => ?_⟩
  · rw [h₂] at hfinish
    refine PageOf.of_finishPage (activePrincipals_distinct hwell) (fun r x hx => by rw [hx])
      (limit_of_principals hvalid) ?_ hfinish fun r _ x cursor _ hencode => ⟨codec, _, hencode⟩
    exact List.forall₂_same.mpr fun _ _ => rfl
  · obtain ⟨row, hrow, hid⟩ := mem_activePrincipals hr
    rw [decide_eq_true_eq, hstart hcursor, empty_lt_iff, ← hid]
    exact principal_id_ne_empty hwell hrow
  · rw [decide_eq_true_eq, hissued cursor p hcursor hp]

end Principals

section Sequences

/-- The record of a row, as it is read. -/
def RendersRecord (c : Central) (r : RecordRow) (x : Record) : Prop :=
  r ∈ c.records ∧ recordOf c r.id = some x

theorem records_distinct (hc : WellFormed P c) : c.records.Pairwise fun a b => a.id ≠ b.id := by
  refine hc.tables.records.keys.imp fun {a b} hkey heq => hkey ?_
  simp [Storage.records, heq]

theorem positions_distinct (hc : WellFormed P c) :
    c.records.Pairwise fun a b => RecordRow.position a ≠ RecordRow.position b := by
  refine (records_distinct hc).imp fun {a b} hne heq => hne ?_
  exact congrArg (fun k : ℤ ×ₗ String => (ofLex k).2) heq

theorem RendersRecord.position (hc : WellFormed P c) {r : RecordRow} {x : Record}
    (h : RendersRecord c r x) : Service.position x.seq x.id = RecordRow.position r := by
  obtain ⟨hr, hx⟩ := h
  obtain ⟨row, hfind, rfl⟩ := Option.map_eq_some_iff.mp hx
  rw [Central.findRecord, find?_of_distinct (records_distinct hc) hr] at hfind
  rw [Option.some.inj hfind]
  rfl

/-- A record of a space under a sequence and an id. -/
def KnownRecord (e : Central) (space : String) (seq : ℤ) (id : String) : Prop :=
  ∃ r ∈ e.records, r.spaceId = space ∧ r.spaceSeq = seq ∧ r.id = id

/-- Sequences are unique in a space, so behind a known record the sequence alone decides. -/
theorem position_lt_iff (he : WellFormed P e) (hrecords : c.records <+: e.records) {space : String}
    {seq : ℤ} {id : String} (hknown : KnownRecord e space seq id) {r : RecordRow}
    (hr : r ∈ c.records)
    (hspace : r.spaceId = space) : position seq id < RecordRow.position r ↔ seq < r.spaceSeq := by
  rw [RecordRow.position, position, position, Prod.Lex.toLex_lt_toLex]
  refine ⟨?_, .inl⟩
  rintro (hlt | ⟨hseq, hid⟩)
  · exact hlt
  · -- the row of the cursor itself
    simp only at hseq hid
    obtain ⟨k, hk, hspace', hseq', rfl⟩ := hknown
    have hsame : k = r := he.tables.records.eq_of_collides hk (hrecords.subset hr) (by
      simp [Schema.collides, Storage.records, hspace, hspace', hseq', hseq])
    rw [hsame] at hid
    exact absurd hid (lt_irrefl _)

theorem position_start_lt (hc : WellFormed P c) {r : RecordRow} (hr : r ∈ c.records) :
    0 < r.spaceSeq ∧ position 0 "" < RecordRow.position r := by
  have hchecked := hc.tables.records.checked r hr
  simp only [Storage.records, Bool.and_eq_true, decide_eq_true_eq] at hchecked
  have hpositive : 0 < r.spaceSeq := hchecked.1.1.1.1
  refine ⟨hpositive, ?_⟩
  rw [RecordRow.position, position, position, Prod.Lex.toLex_lt_toLex]
  exact .inl hpositive

/-- The cursor of a record stands for its position. -/
theorem sequenceCursor_of_encode {known : ℤ → String → Prop} (hc : Served P c) {r : RecordRow}
    {x : Record}
    (h : RendersRecord c r x) (hknown : known r.spaceSeq r.id) {codec : CursorCodec}
    {scope : CursorScope}
    {cursor : String} (hencode : codec.encode P scope (.sequence x.seq.toNat x.id) = .ok cursor) :
    SequenceCursor P known cursor (position x.seq x.id) := by
  have hposition := h.position hc.wellFormed
  obtain ⟨hseq, hid⟩ : x.seq = r.spaceSeq ∧ x.id = r.id := Prod.mk.inj hposition
  have hpositive := (position_start_lt hc.wellFormed h.1).1
  have hbound := ((hc.invariant (sized_invariant P)).records r h.1).2
  rw [hseq, hid] at hencode ⊢
  exact ⟨r.spaceSeq, r.id, codec, scope, rfl, hknown, hpositive.le, hbound, hencode⟩

theorem record_eq_ok {id : String} {x : Record} {s t : Session}
    (h : (record id).run s = .ok (x, t)) : t = s ∧ recordOf s.central id = some x := by
  simp only [record, okOr, run_bind_eq_ok, query_eq_ok, attempt_eq_ok, required_eq_ok] at h
  obtain ⟨_, _, ⟨rfl, rfl⟩, hx, rfl⟩ := h
  exact ⟨rfl, hx⟩

section Records
variable {space : String} {q : ListRecordsQuery}

/-- The scope of the cursors of a listing in a store. -/
def recordsScope (P : Platform) (c : Central) (actor space : String) (q : ListRecordsQuery) :
    CursorScope :=
  .new P .records
    (P.recordsFilterJson actor space (q.afterSeq.getD 0) (resolveSpacePrincipal c space q.author)
    (resolveSpacePrincipal c space q.attention) q.kind q.relation) .sequence

/-- A page of records is made of the rows that its filters and the position of its cursor leave. -/
theorem listRecords_eq_ok {identity : ReadIdentity} {codec : CursorCodec} {s t : Session}
    {page : Page Record} (h : (listRecords P identity space q codec).run s = .ok (page, t)) :
    q.validate = .ok () ∧ ∃ actor u sequence id xs,
      (readActor P identity).run s = .ok (actor, u) ∧ u.central = s.central ∧
      (sequencePosition P codec (recordsScope P s.central actor space q) q.page).run u =
        .ok ((sequence, id), u) ∧
      List.Forall₂ (fun r x => recordOf s.central r.id = some x)
        (listRecordRows s.central (listed s.central space
            (resolveSpacePrincipal s.central space q.author)
            (resolveSpacePrincipal s.central space q.attention) q.kind q.relation)
          (recordSequenceLowerBound q.afterSeq sequence) sequence id
          (q.page.effectiveLimit + 1)) xs ∧
      (finishPage P xs q.page codec (recordsScope P s.central actor space q) fun r =>
        .sequence r.seq.toNat r.id).run u = .ok (page, t) := by
  simp only [listRecords, run_bind_eq_ok, validated_eq_ok, query_eq_ok, permitted_eq_ok] at h
  obtain ⟨_, _, ⟨hvalid, rfl⟩, actor, _, hactor, _, _, ⟨-, rfl⟩, _, _, ⟨rfl, rfl⟩, _, _,
    ⟨rfl, rfl⟩, ⟨sequence, id⟩, _, hafter, _, _, ⟨rfl, rfl⟩, xs, u, hxs, hfinish⟩ := h
  obtain rfl := sequencePosition_state hafter
  obtain ⟨rfl, hrendered⟩ := mapM_reads (fun row s x t => record_eq_ok) _ hxs
  have hcentral : u.central = s.central :=
    central_eq (fun c => readActor_keeps (ofStore_central c) identity) hactor
  rw [hcentral] at hafter hrendered hfinish
  exact ⟨hvalid, actor, u, sequence, id, xs, hactor, hcentral, hafter, hrendered, hfinish⟩

/-- The records of a space that pass the filters, after a sequence. -/
def filteredRecords (space : String) (q : ListRecordsQuery) (c : Central) : List RecordRow :=
  c.records.filter fun r => listed c space (resolveSpacePrincipal c space q.author)
    (resolveSpacePrincipal c space q.attention) q.kind q.relation r &&
    ((q.afterSeq.getD 0).toNat : ℤ) < r.spaceSeq

def recordsRoute (P : Platform) (space : String) (q : ListRecordsQuery) (c : Central)
    (page : PageQuery)
    (result : Page Record) : Prop :=
  ∃ identity,
    PagedRead P identity none (listRecords P identity space { q with page := page }) c result

/-- The clamped bound of the index seek, for sequences that an `i64` can hold. -/
theorem lowerBound_lt_iff {afterSeq : Option UInt64} {sequence seq : ℤ} (hbound : seq < 2 ^ 63) :
    recordSequenceLowerBound afterSeq sequence < seq ↔
      ((afterSeq.getD 0).toNat : ℤ) < seq ∧ sequence < seq := by
  unfold recordSequenceLowerBound
  simp only [max_lt_iff]
  refine and_congr_left fun _ => ?_
  split <;> omega

theorem listRecordRows_eq (hc : Served P c) (sequence : ℤ) (id : String) (limit : ℕ) :
    listRecordRows c (listed c space (resolveSpacePrincipal c space q.author)
        (resolveSpacePrincipal c space q.attention) q.kind q.relation)
      (recordSequenceLowerBound q.afterSeq sequence) sequence id limit =
    firstRows RecordRow.position limit ((filteredRecords space q c).filter fun r =>
      sequence < r.spaceSeq && position sequence id < RecordRow.position r) := by
  unfold listRecordRows filteredRecords
  rw [List.filter_filter]
  congr 1
  refine List.filter_congr fun r hr => ?_
  have hbound := ((hc.invariant (sized_invariant P)).records r hr).2
  rw [Bool.eq_iff_iff]
  simp only [Bool.and_eq_true, decide_eq_true_eq, lowerBound_lt_iff hbound]
  tauto

theorem limit_of_records (h : q.validate = .ok ()) : 1 ≤ q.page.effectiveLimit := by
  simp only [ListRecordsQuery.validate, bind_eq_ok] at h
  obtain ⟨_, hpage, -⟩ := h
  exact limit_of_page hpage

theorem mem_filteredRecords {r : RecordRow} (h : r ∈ filteredRecords space q c) :
    r ∈ c.records ∧ r.spaceId = space := by
  simp only [filteredRecords, listed, List.mem_filter, Bool.and_eq_true, decide_eq_true_eq] at h
  exact ⟨h.1, h.2.1.1.1.1.1⟩

/-- A page of the filtered records after a position. -/
theorem records_page (hP : P.EncodesCursors) {f : Fetched Record} (hc : Served P f.central)
    (he : WellFormed P e) (hjournaled : Journaled f.central e)
    (hroute : recordsRoute P space q f.central f.query f.page) :
    ∃ after, PageOf (fun x => position x.seq x.id) RecordRow.position (filteredRecords space q)
        RendersRecord (SequenceCursor P (KnownRecord e space)) f after ∧
      (f.query.cursor = none → ∀ r ∈ filteredRecords space q f.central, after r = true) ∧
      ∀ cursor p, f.query.cursor = some cursor → SequenceCursor P (KnownRecord e space) cursor p →
        ∀ r ∈ filteredRecords space q f.central, after r = true ↔ p < RecordRow.position r := by
  have hwell := hc.wellFormed
  obtain ⟨identity, _, host, _, codec, _, t, -, -, h⟩ := hroute
  obtain ⟨hvalid, actor, u, sequence, id, xs, -, -, hafter, hrendered, hfinish⟩ :=
    listRecords_eq_ok h
  obtain ⟨-, hstart, hissued⟩ := sequencePosition_eq_ok hP hafter
  refine ⟨fun r => sequence < r.spaceSeq && position sequence id < RecordRow.position r, ?_,
    fun hcursor r hr => ?_, fun cursor p hcursor hp r hr => ?_⟩
  · have hcentral : (Session.start host f.central).central = f.central := rfl
    dsimp only at hrendered
    rw [hcentral, listRecordRows_eq hc] at hrendered
    refine PageOf.of_finishPage ((positions_distinct hwell).sublist List.filter_sublist)
      (fun r x hx => hx.position hwell) (limit_of_records hvalid) ?_ hfinish
      fun r hr x cursor hx hencode => ?_
    · refine List.Forall₂.imp ?_ ((List.forall₂_and_left _ _).mpr ⟨fun _ hr => hr, hrendered⟩)
      rintro r x ⟨hr, hx⟩
      exact ⟨(mem_filteredRecords (List.mem_filter.mp (mem_of_mem_firstRows hr)).1).1, hx⟩
    · obtain ⟨hmem, hspace⟩ := mem_filteredRecords hr
      exact sequenceCursor_of_encode hc hx ⟨r, hjournaled.records.subset hmem, hspace, rfl, rfl⟩
        hencode
  · obtain ⟨rfl, rfl⟩ := Prod.mk.inj (hstart hcursor)
    simp [position_start_lt hwell (mem_filteredRecords hr).1]
  · obtain ⟨rfl, hknown⟩ := hissued _ cursor p hcursor hp
    obtain ⟨hmem, hspace⟩ := mem_filteredRecords hr
    have hlt := position_lt_iff he hjournaled.records hknown hmem hspace
    simp [hlt]

/-- The index seek shows exactly the rows of the plain condition, for every cursor that a page of
this listing issued in a store served into this one. -/
theorem seek_eq_plain (hP : P.EncodesCursors) {f : Fetched Record} {cursor : String}
    (hf : Served P f.central)
    (hroute : recordsRoute P space q f.central f.query f.page)
    (hcursor : f.page.nextCursor = some cursor)
    (hserves : Serves P f.central c) {codec : CursorCodec} {scope : CursorScope}
    {decoded : CursorPosition} (hdecode : codec.decode P scope cursor = .ok decoded) :
    ∃ sequence id, sequenceOf (some decoded) = some (sequence, id) ∧ ∀ filter limit,
      (∀ r, filter r = true → r.spaceId = space) →
      listRecordRows c filter (recordSequenceLowerBound q.afterSeq sequence) sequence id limit =
        firstRows RecordRow.position limit (c.records.filter fun r => filter r &&
          ((q.afterSeq.getD 0).toNat : ℤ) < r.spaceSeq &&
          position sequence id < RecordRow.position r) := by
  have hc := hf.later hserves
  obtain ⟨after, hpage, -⟩ := records_page hP hf hc.wellFormed hserves.journaled hroute
  rcases hpage.next with ⟨hnone, -⟩ | ⟨cursor', last, hsome, -, -, hissued⟩
  · rw [hnone] at hcursor
    cases hcursor
  · obtain rfl : cursor = cursor' := Option.some.inj (hcursor.symm.trans hsome)
    obtain ⟨seq, id, codec', scope', -, hknown, hnonneg, hbound, hencode⟩ := hissued
    obtain ⟨rfl, -⟩ := CursorCodec.decode_encode hP (sequence_fits hbound) hencode hdecode
    refine ⟨seq, id, sequenceOf_toNat hnonneg hbound, fun filter limit hfilter => ?_⟩
    unfold listRecordRows
    congr 1
    refine List.filter_congr fun r hr => ?_
    have hsized := ((hc.invariant (sized_invariant P)).records r hr).2
    rw [Bool.eq_iff_iff]
    simp only [Bool.and_eq_true, decide_eq_true_eq, lowerBound_lt_iff hsized]
    constructor
    · rintro ⟨⟨hr, hafter, -⟩, hposition⟩
      exact ⟨⟨hr, hafter⟩, hposition⟩
    · rintro ⟨⟨hpasses, hafter⟩, hposition⟩
      have hlt :=
        (position_lt_iff hc.wellFormed List.prefix_rfl hknown hr (hfilter r hpasses)).mp hposition
      exact ⟨⟨hpasses, hafter, hlt⟩, hposition⟩

section Progress
variable {identity : ReadIdentity} {actor : String} {codec : CursorCodec} {s t : Session}

theorem record_succeeds {id : String} (h : s.central.hasRecord id = true) :
    ∃ x, (record id).run s = .ok (x, s) := by
  obtain ⟨r, hr⟩ := recordOf_isSome h
  simp only [record, okOr, run_bind_eq_ok, query_eq_ok, attempt_eq_ok, required_eq_ok]
  exact ⟨r, _, s, ⟨rfl, rfl⟩, hr, rfl⟩

/-- The cursor of a record is short. -/
theorem sequence_encodes (hP : P.BoundsCursors) (hc : Served P c) {scope : CursorScope}
    {r : RecordRow} {x : Record}
    (h : RendersRecord c r x) (hid : r.id.utf8ByteSize ≤ 36) (horder : scope.order = .sequence)
    (hfingerprint : scope.filterFingerprint.length ≤ 128) :
    ∃ cursor, codec.encode P scope (.sequence x.seq.toNat x.id) = .ok cursor := by
  obtain ⟨hseq, hsame⟩ : x.seq = r.spaceSeq ∧ x.id = r.id := Prod.mk.inj (h.position hc.wellFormed)
  have hbound := ((hc.invariant (sized_invariant P)).records r h.1).2
  rw [hseq, hsame]
  exact codec.encode_of_short hP (by rw [horder]; rfl) (sequence_fits hbound) hfingerprint hid

/-- A fetch of the records behind a known position succeeds. -/
theorem listRecords_succeeds (hP : P.BoundsCursors) (hc : Served P t.central)
    (hids : ∀ r ∈ t.central.records, r.id.utf8ByteSize ≤ 36) (hvalid : q.validate = .ok ())
    (hactor : (readActor P identity).run s = .ok (actor, t))
    (hpermits : permits t.central actor space false = true) {after : ℤ × String}
    (hafter : (sequencePosition P codec (recordsScope P t.central actor space q) q.page).run t =
      .ok (after, t))
    (hfingerprint : (recordsScope P t.central actor space q).filterFingerprint.length ≤ 128) :
    ∃ page, (listRecords P identity space q codec).run s = .ok (page, t) := by
  obtain ⟨rows, hrows⟩ : ∃ rows, listRecordRows t.central (listed t.central space
      (resolveSpacePrincipal t.central space q.author)
      (resolveSpacePrincipal t.central space q.attention)
      q.kind q.relation) (recordSequenceLowerBound q.afterSeq after.1) after.1 after.2
      (q.page.effectiveLimit + 1) = rows := ⟨_, rfl⟩
  have hmem : ∀ r ∈ rows, r ∈ t.central.records := by
    rintro r hr
    rw [← hrows] at hr
    exact (List.mem_filter.mp (mem_of_mem_firstRows hr)).1
  obtain ⟨items, hitems⟩ := mapM_succeeds (x := fun row : RecordRow => record row.id) rows
    fun r hr => record_succeeds (List.any_eq_true.mpr ⟨r, hmem r hr, by simp⟩)
  obtain ⟨-, hrendered⟩ := mapM_reads (fun row s x t => record_eq_ok) _ hitems
  have hencode : ∀ x ∈ items, ∃ cursor, codec.encode P (recordsScope P t.central actor space q)
      (.sequence x.seq.toNat x.id) = .ok cursor := by
    intro x hx
    obtain ⟨r, hr, hrow⟩ := forall₂_mem_right hrendered hx
    exact sequence_encodes hP hc ⟨hmem r hr, hrow⟩ (hids r (hmem r hr)) rfl hfingerprint
  obtain ⟨page, hpage⟩ := finishPage_succeeds (s := t) (limit_of_records hvalid) hencode
  refine ⟨page, ?_⟩
  have hpermitted : (permitted actor space false).run t = .ok ((), t) := by
    simp only [permitted, refuse, run_bind_eq_ok, query_eq_ok, attempt_eq_ok, failIf_eq_ok]
    exact ⟨_, t, ⟨rfl, rfl⟩, by simp [hpermits], rfl⟩
  simp only [listRecords, run_bind_eq_ok, validated_eq_ok, query_eq_ok]
  exact ⟨(), s, ⟨hvalid, rfl⟩, actor, t, hactor, (), t, hpermitted, _, t, ⟨rfl, rfl⟩, _, t,
    ⟨rfl, rfl⟩,
    after, t, hafter, _, t, ⟨hrows, rfl⟩, items, t, hitems, hpage⟩

/-- The cursor of a fetch stands for a position in the scope of its store. -/
theorem listRecords_issued (hc : Served P t.central)
    (hactor : (readActor P identity).run s = .ok (actor, t))
    {u : Session} {page : Page Record} {cursor : String}
    (h : (listRecords P identity space q codec).run s = .ok (page, u))
    (hcursor : page.nextCursor = some cursor) :
    ∃ (seq : ℤ) (id : String), 0 ≤ seq ∧ seq < 2 ^ 63 ∧
      codec.encode P (recordsScope P t.central actor space q)
      (.sequence seq.toNat id) = .ok cursor := by
  obtain ⟨-, actor', u', sequence, id, xs, hactor', hcentral, -, hrendered, hfinish⟩ :=
    listRecords_eq_ok h
  obtain ⟨rfl, rfl⟩ := Prod.mk.inj (Except.ok.inj (hactor.symm.trans hactor'))
  rw [← hcentral] at hrendered hfinish
  obtain ⟨x, hx, hencode⟩ := finishPage_issued hfinish hcursor
  obtain ⟨r, hr, hrow⟩ := forall₂_mem_right hrendered hx
  have hmem : r ∈ t.central.records := (List.mem_filter.mp (mem_of_mem_firstRows hr)).1
  have hrenders : RendersRecord t.central r x := ⟨hmem, hrow⟩
  obtain ⟨hseq, -⟩ : x.seq = r.spaceSeq ∧ x.id = r.id :=
    Prod.mk.inj (hrenders.position hc.wellFormed)
  refine ⟨x.seq, x.id, ?_, ?_, hencode⟩
  · rw [hseq]
    exact (position_start_lt hc.wellFormed hmem).1.le
  · rw [hseq]
    exact ((hc.invariant (sized_invariant P)).records r hmem).2

theorem pagedCodec_of_keyed {space : Option String} (h : KeyedBy P s.central codec) :
    (pagedCodec P identity space).run s = .ok (codec, s) := by
  obtain ⟨secret, hsecret, hnew⟩ := h
  simp only [pagedCodec, run_bind_eq_ok, query_eq_ok]
  refine ⟨_, s, ⟨rfl, rfl⟩, ?_⟩
  rw [hsecret]
  exact attempt_eq_ok.mpr ⟨required_eq_ok.mpr (succeeded_eq_some.mpr hnew), rfl⟩

/-- A page that a bearer reads of a store. -/
structure ReadsRecords (P : Platform) (host : Host) (token space : String) (q : ListRecordsQuery)
    (codec : CursorCodec) (limit : Option ℕ) (d : Central) (f : Fetched Record) : Prop where
  central : f.central = d
  limit : f.query.limit = limit
  run : ∃ u, (listRecords P (.bearer token) space { q with page := f.query } codec).run
    (.start host d) =
    .ok (f.page, u)

namespace ReadsRecords
variable {host : Host} {token : String} {limit : Option ℕ} {f : Fetched Record}

theorem route (h : ReadsRecords P host token space q codec limit d f) (hkey : KeyedBy P d codec) :
    recordsRoute P space q f.central f.query f.page := by
  obtain ⟨rfl, -, u, hrun⟩ := h
  exact ⟨.bearer token, host, host, f.central, codec, _, u, pagedCodec_of_keyed hkey, .refl, hrun⟩

theorem first (hP : P.BoundsCursors) (hc : Served P d)
    (hids : ∀ r ∈ d.records, r.id.utf8ByteSize ≤ 36)
    (hactor : (readActor P (.bearer token)).run (.start host d) = .ok (actor, t))
    (hpermits : permits d actor space false = true)
    (hfingerprint : (recordsScope P d actor space q).filterFingerprint.length ≤ 128)
    (hvalid : ListRecordsQuery.validate { q with page := ⟨none, limit⟩ } = .ok ()) :
    ∃ g, ReadsRecords P host token space q codec limit d g ∧ g.query.cursor = none := by
  have hcentral : t.central = d :=
    central_eq (fun c => readActor_keeps (ofStore_central c) (.bearer token)) hactor
  subst hcentral
  have hafter : (sequencePosition P codec
    (recordsScope P t.central actor space { q with page := ⟨none, limit⟩ })
      ⟨none, limit⟩).run t = .ok ((0, ""), t) := rfl
  obtain ⟨page, hpage⟩ := listRecords_succeeds hP hc hids hvalid hactor hpermits hafter hfingerprint
  exact ⟨⟨t.central, ⟨none, limit⟩, page⟩, ⟨rfl, rfl, t, hpage⟩, rfl⟩

/-- A page that issued a cursor is followed by another one. -/
theorem next (hP : P.BoundsCursors) (hc : Served P d)
    (hids : ∀ r ∈ d.records, r.id.utf8ByteSize ≤ 36)
    (hactor : (readActor P (.bearer token)).run (.start host d) = .ok (actor, t))
    (hpermits : permits d actor space false = true)
    (hfingerprint : (recordsScope P d actor space q).filterFingerprint.length ≤ 128)
    {cursor : String}
    (h : ReadsRecords P host token space q codec limit d f)
    (hcursor : f.page.nextCursor = some cursor) :
    ∃ g, ReadsRecords P host token space q codec limit d g ∧ g.query.cursor = some cursor := by
  obtain ⟨rfl, rfl, u, hrun⟩ := h
  have hcentral : t.central = f.central :=
    central_eq (fun c => readActor_keeps (ofStore_central c) (.bearer token)) hactor
  rw [← hcentral] at hc hids hpermits hfingerprint
  obtain ⟨seq, id, hnonneg, hbound, hencode⟩ := listRecords_issued hc hactor hrun hcursor
  have hdecode := CursorCodec.decode_of_encode hP.toSignsCursors (sequence_fits hbound) hencode
  have hvalid : ListRecordsQuery.validate
    { q with page := { f.query with cursor := some cursor } } = .ok () := by
    obtain ⟨_, _, hvalid, -⟩ := run_bind_eq_ok.mp hrun
    have hvalid := (validated_eq_ok.mp hvalid).1
    simp only [ListRecordsQuery.validate, bind_eq_ok] at hvalid ⊢
    obtain ⟨_, hpage, hrest⟩ := hvalid
    exact ⟨(), validate_issued hpage hencode, hrest⟩
  have hafter : (sequencePosition P codec (recordsScope P t.central actor space
      { q with page := { f.query with cursor := some cursor } })
        { f.query with cursor := some cursor }).run t =
      .ok ((seq, id), t) := by
    have hcontinued : continuation { f.query with cursor := some cursor } = some cursor :=
      continuation_issued rfl hencode
    have hposition : (cursorPosition P codec (recordsScope P t.central actor space
        { q with page := { f.query with cursor := some cursor } })
          { f.query with cursor := some cursor }).run t =
        .ok (some (.sequence seq.toNat id), t) := by
      rw [cursorPosition, hcontinued]
      simp only [okOr, run_bind_eq_ok, attempt_eq_ok, required_eq_ok, succeeded_eq_some,
        run_pure_eq_ok]
      exact ⟨_, t, ⟨hdecode, rfl⟩, rfl, rfl⟩
    rw [sequencePosition, run_bind_of_ok hposition]
    exact attempt_eq_ok.mpr ⟨required_eq_ok.mpr (sequenceOf_toNat hnonneg hbound), rfl⟩
  obtain ⟨page, hpage⟩ := listRecords_succeeds hP hc hids hvalid hactor hpermits hafter hfingerprint
  exact ⟨⟨f.central, { f.query with cursor := some cursor }, page⟩, ⟨rfl, rfl, t, hpage⟩, rfl⟩

/-- A bearer that reads an unchanged store comes to the end of the listing. -/
theorem whole (hP : P.BoundsCursors) (hc : Served P d)
    (hids : ∀ r ∈ d.records, r.id.utf8ByteSize ≤ 36)
    (hactor : (readActor P (.bearer token)).run (.start host d) = .ok (actor, t))
    (hpermits : permits d actor space false = true) (hkey : KeyedBy P d codec)
    (hfingerprint : (recordsScope P d actor space q).filterFingerprint.length ≤ 128)
    (hvalid : ListRecordsQuery.validate { q with page := ⟨none, limit⟩ } = .ok ()) :
    ∃ f fetches, Traversal P (recordsRoute P space q) d none (f :: fetches) ∧ Ended (f :: fetches) ∧
      ∀ g ∈ f :: fetches, ReadsRecords P host token space q codec limit d g := by
  obtain ⟨f, hf, hcursor⟩ : ∃ g, ReadsRecords P host token space q codec limit d g ∧
    g.query.cursor = none :=
    first hP hc hids hactor hpermits hfingerprint hvalid
  have hone : Traversal P (recordsRoute P space q) d none [f] :=
    .cons (hf.central ▸ .refl) hcursor (hf.route hkey) (by simp) (.nil _ _)
  have hends := hone.ends (I := ReadsRecords P host token space q codec limit d)
    (n := (filteredRecords space q d).length) (fun g cursor hg hcursor => ?_)
    (fun fetches h hreads => ?_)
    (by simpa using hf)
  · obtain ⟨rest, hrest, hended, hreads⟩ := hends
    exact ⟨f, rest, hrest, hended, List.forall_mem_cons.mpr ⟨hf, hreads⟩⟩
  · obtain ⟨g', hg', hquery⟩ := next hP hc hids hactor hpermits hfingerprint hg hcursor
    exact ⟨g', hg', by rw [hg.central, hg'.central]; exact .refl, hquery, hg'.route hkey⟩
  · have hmem := h.mem hc
    have hsame : ∀ g ∈ f :: fetches, g.central = d := fun g hg => (hreads g hg).central
    have hlength :=
      h.length_le (fun g hg => records_page hP.toEncodesCursors (hmem g hg).1 hc.wellFormed
      (by rw [hsame g hg]; exact .refl d) (hmem g hg).2) hsame
    rw [List.length_cons] at hlength
    omega

end ReadsRecords

end Progress

end Records

/-- A page of a thread is made of the records that the traversal found. -/
theorem getThread_eq_ok {identity : ReadIdentity} {anchor : String} {q : PageQuery}
    {codec : CursorCodec} {s t : Session} {page : Page Record}
    (h : (getThread P identity anchor q codec).run s = .ok (page, t)) :
    q.validate = .ok () ∧ ∃ row scope after ids u xs,
      s.central.findRecord anchor = some row ∧
      threadIds s.central row.spaceId threadMaxDepth threadMaxNodes threadMaxEdges anchor =
        .ok ids ∧
      (sequencePosition P codec scope q).run u = .ok (after, u) ∧
      List.Forall₂ (fun x r => recordOf s.central x.2 = some r)
        (threadRows ids after (q.effectiveLimit + 1)) xs ∧
      (finishPage P xs q codec scope fun r => .sequence r.seq.toNat r.id).run u =
        .ok (page, t) := by
  simp only [getThread, okOr, run_bind_eq_ok, validated_eq_ok, query_eq_ok, attempt_eq_ok,
    required_eq_ok, permitted_eq_ok] at h
  obtain ⟨_, _, ⟨hvalid, rfl⟩, actor, _, hactor, _, _, ⟨rfl, rfl⟩, row, _, ⟨hrow, rfl⟩, _, _,
    ⟨-, rfl⟩, after, _, hafter, _, _, ⟨rfl, rfl⟩, ids, _, ⟨hids, rfl⟩, xs, u, hxs, hfinish⟩ := h
  obtain rfl := sequencePosition_state hafter
  obtain ⟨rfl, hrendered⟩ := mapM_reads (fun x s r t => record_eq_ok) _ hxs
  have hcentral : u.central = s.central :=
    central_eq (fun c => readActor_keeps (ofStore_central c) identity) hactor
  rw [hcentral] at hrow hids hrendered
  exact ⟨hvalid, row, _, after, ids, u, xs, hrow, hids, hafter, hrendered, hfinish⟩

section Search
variable {space : String} {q : SearchRecordsQuery} {matched : String → Bool} {since : Option ℤ}

/-- The matches of a space that pass the filters. -/
def filteredMatches (P : Platform) (space : String) (q : SearchRecordsQuery)
    (matched : String → Bool)
    (since : Option ℤ) (c : Central) : List Match :=
  searchFiltered P c space matched (resolveSpacePrincipal c space q.author)
    (resolveSpacePrincipal c space q.attention) since

def searchRoute (P : Platform) (space : String) (q : SearchRecordsQuery) (c : Central)
    (page : PageQuery)
    (result : Page SearchResult) : Prop :=
  ∃ identity order consistency, PagedRead P identity (some space)
    (searchRecords P identity space { q with page := page }) c
      ⟨result.items, result.nextCursor, order, consistency⟩

/-- The result of a match, as it is read. -/
def RendersMatch (P : Platform) (q : String) (c : Central) (m : Match) (x : SearchResult) : Prop :=
  RendersRecord c m.row x.record ∧ x.score = matchScore P q m ∧
    x.snippet = some (String.ofList ((P.ftsSnippet q m.fts.content).toList.take 1024))

theorem mem_filteredMatches {m : Match} (h : m ∈ filteredMatches P space q matched since c) :
    m.row ∈ c.records ∧ m.row.spaceId = space := by
  simp only [filteredMatches, searchFiltered, List.mem_flatMap, List.mem_map, List.mem_filter,
    Bool.and_eq_true, decide_eq_true_eq] at h
  obtain ⟨f, -, r, ⟨hr, ⟨⟨⟨-, hspace⟩, -⟩, -⟩, -⟩, rfl⟩ := h
  exact ⟨hr, hspace⟩

/-- A record is indexed once, so it is matched once. -/
theorem filteredMatches_distinct (hc : WellFormed P c) :
    (filteredMatches P space q matched since c).Pairwise fun a b => a.row.id ≠ b.row.id := by
  unfold filteredMatches searchFiltered
  rw [List.pairwise_flatMap]
  constructor
  · intro f _
    rw [List.pairwise_map]
    exact (records_distinct hc).sublist List.filter_sublist
  · have hfts : c.recordsFts.Pairwise fun a b => a.recordId ≠ b.recordId := by
      rw [hc.indexed, List.pairwise_map]
      exact records_distinct hc
    refine (hfts.sublist List.filter_sublist).imp ?_
    intro f g hne x hx y hy
    simp only [List.mem_map, List.mem_filter, Bool.and_eq_true, decide_eq_true_eq] at hx hy
    obtain ⟨r, ⟨-, ⟨⟨⟨hrid, -⟩, -⟩, -⟩, -⟩, rfl⟩ := hx
    obtain ⟨r', ⟨-, ⟨⟨⟨hrid', -⟩, -⟩, -⟩, -⟩, rfl⟩ := hy
    simpa [hrid, hrid'] using hne

theorem renderMatch_eq_ok {text : String} {m : Match} {x : SearchResult} {s t : Session}
    (h : (renderMatch P text m).run s = .ok (x, t)) :
    t = s ∧ recordOf s.central m.row.id = some x.record ∧
      x.score = matchScore P text m ∧
      x.snippet = some (String.ofList ((P.ftsSnippet text m.fts.content).toList.take 1024)) := by
  simp only [renderMatch, run_bind_eq_ok, run_pure_eq_ok] at h
  obtain ⟨r, _, hrecord, rfl, rfl⟩ := h
  obtain ⟨rfl, hr⟩ := record_eq_ok hrecord
  exact ⟨rfl, hr, rfl, rfl⟩

/-- A reader who is permitted in the space searches all of its matches. -/
theorem searchMatches_of_permitted {actor : String} {author attention : Option String}
    {s t : Session}
    {u : Unit} (h : (permitted actor space false).run s = .ok (u, t)) :
    searchMatches P s.central actor space matched author attention since =
      searchFiltered P s.central space matched author attention since := by
  simp only [permitted, refuse, run_bind_eq_ok, query_eq_ok, attempt_eq_ok, failIf_eq_ok] at h
  obtain ⟨_, _, ⟨rfl, rfl⟩, hallowed, -⟩ := h
  rw [Bool.not_eq_false] at hallowed
  simp only [permits, List.any_eq_true, Bool.and_eq_true, decide_eq_true_eq] at hallowed
  obtain ⟨p, hp, ⟨hid, hactive⟩, r, hr, ⟨hspace, haccess⟩, -⟩ := hallowed
  unfold searchMatches
  rw [if_pos]
  simp only [publicSpace, Bool.and_eq_true, List.any_eq_true, decide_eq_true_eq]
  exact ⟨⟨p, hp, hid, hactive⟩, r, hr, hspace, haccess⟩

/-- The position a result is continued from. -/
def resultPosition (order : SearchOrder) (r : SearchResult) : CursorPosition :=
  match order with
  | .rank => .rank r.score.bits r.record.id
  | .seq => .sequence r.record.seq.toNat r.record.id

/-- A page of a search is made of the matches that its filters and the position of its cursor
leave. -/
theorem searchRecords_eq_ok {identity : ReadIdentity} {codec : CursorCodec} {s t : Session}
    {page : SearchPage} (h : (searchRecords P identity space q codec).run s = .ok (page, t)) :
    q.validate P.parseTimestamp = .ok () ∧
    ∃ since matched scope decoded sequence score id u xs,
      searchSince P q.since = .ok since ∧ P.ftsQuery q.q = some matched ∧
      (cursorPosition P codec scope q.page).run u = .ok (decoded, u) ∧
      searchPosition decoded = some (sequence, score, id) ∧
      List.Forall₂ (fun m x => recordOf s.central m.row.id = some x.record ∧
          x.score = matchScore P q.q m ∧
          x.snippet = some (String.ofList ((P.ftsSnippet q.q m.fts.content).toList.take 1024)))
        (searchRows P q.order q.q (filteredMatches P space q matched since s.central) sequence score
          id (q.page.effectiveLimit + 1)) xs ∧
      (finishPage P xs q.page codec scope (resultPosition q.order)).run u =
        .ok (⟨page.items, page.nextCursor⟩, t) := by
  unfold searchRecords at h
  obtain ⟨_, _, hran, h⟩ := run_bind_eq_ok.mp h
  obtain ⟨hvalid, rfl⟩ := validated_eq_ok.mp hran
  obtain ⟨actor, s₁, hactor, h⟩ := run_bind_eq_ok.mp h
  obtain ⟨_, s₂, hpermitted, h⟩ := run_bind_eq_ok.mp h
  obtain ⟨since, _, hran, h⟩ := run_bind_eq_ok.mp h
  obtain ⟨hsince, rfl⟩ := attempt_eq_ok.mp hran
  obtain ⟨_, _, hauthor, h⟩ := run_bind_eq_ok.mp h
  obtain ⟨rfl, rfl⟩ := query_eq_ok.mp hauthor
  obtain ⟨_, _, hattention, h⟩ := run_bind_eq_ok.mp h
  obtain ⟨rfl, rfl⟩ := query_eq_ok.mp hattention
  obtain ⟨decoded, s₃, hdecoded, h⟩ := run_bind_eq_ok.mp h
  obtain ⟨⟨sequence, score, id⟩, _, hran, h⟩ := run_bind_eq_ok.mp h
  obtain ⟨hposition, rfl⟩ := okOr_eq_ok.mp hran
  obtain ⟨matched, _, hran, h⟩ := run_bind_eq_ok.mp h
  obtain ⟨hmatched, rfl⟩ := okOr_eq_ok.mp hran
  obtain ⟨_, _, hfound, h⟩ := run_bind_eq_ok.mp h
  obtain ⟨rfl, rfl⟩ := query_eq_ok.mp hfound
  obtain ⟨xs, s₄, hxs, h⟩ := run_bind_eq_ok.mp h
  obtain ⟨shown, s₅, hfinish, h⟩ := run_bind_eq_ok.mp h
  obtain ⟨rfl, rfl⟩ := run_pure_eq_ok.mp h
  have h₂ : s₂.central = s₁.central := central_eq (fun _ => permitted_keeps _ _ _) hpermitted
  have h₁ : s₁.central = s.central :=
    central_eq (fun c => readActor_keeps (ofStore_central c) identity) hactor
  have hkept := (cursorPosition_eq_ok hdecoded).1
  subst hkept
  obtain ⟨rfl, hrendered⟩ := mapM_reads (fun m s x t => renderMatch_eq_ok) _ hxs
  have hall : searchMatches P s₄.central actor space matched
      (resolveSpacePrincipal s₄.central space q.author)
      (resolveSpacePrincipal s₄.central space q.attention)
      since = filteredMatches P space q matched since s.central := by
    rw [h₂, searchMatches_of_permitted hpermitted, h₁]
    rfl
  rw [hall, h₂, h₁] at hrendered
  exact ⟨hvalid, since, matched, _, decoded, sequence, score, id, s₄, xs, hsince, hmatched,
    hdecoded, hposition, hrendered, hfinish⟩

theorem limit_of_search (h : q.validate P.parseTimestamp = .ok ()) :
    1 ≤ q.page.effectiveLimit := by
  simp only [SearchRecordsQuery.validate, bind_eq_ok] at h
  obtain ⟨_, -, _, hpage, -⟩ := h
  exact limit_of_page hpage

/-- A page of a search: the decoded cursor, the rendered look-ahead rows and the page made of
them. -/
theorem search_eq_ok {f : Fetched SearchResult} (hmatched : P.ftsQuery q.q = some matched)
    (hsince : searchSince P q.since = .ok since)
    (hroute : searchRoute P space q f.central f.query f.page) :
    1 ≤ f.query.effectiveLimit ∧ ∃ codec scope decoded sequence score id xs s s' t t',
      (cursorPosition P codec scope f.query).run s = .ok (decoded, s') ∧
      searchPosition decoded = some (sequence, score, id) ∧
      List.Forall₂ (fun m x => recordOf f.central m.row.id = some x.record ∧
          x.score = matchScore P q.q m ∧
          x.snippet = some (String.ofList ((P.ftsSnippet q.q m.fts.content).toList.take 1024)))
        (searchRows P q.order q.q (filteredMatches P space q matched since f.central) sequence score
          id (f.query.effectiveLimit + 1)) xs ∧
      (finishPage P xs f.query codec scope (resultPosition q.order)).run t = .ok (f.page, t') := by
  obtain ⟨identity, order, consistency, _, host, _, codec, _, t, -, -, h⟩ := hroute
  obtain ⟨hvalid, since', matched', scope, decoded, sequence, score, id, u, xs, hsince', hmatched',
    hdecoded, hposition, hrendered, hfinish⟩ := searchRecords_eq_ok h
  obtain rfl : since = since' := Except.ok.inj (hsince.symm.trans hsince')
  obtain rfl : matched = matched' := Option.some.inj (hmatched.symm.trans hmatched')
  exact ⟨limit_of_search hvalid, codec, scope, decoded, sequence, score, id, xs, u, u, u, t,
    hdecoded, hposition, hrendered, hfinish⟩

/-- A page of the matches in sequence order, after a sequence. -/
theorem search_seq_page (hP : P.EncodesCursors) {f : Fetched SearchResult} (hc : Served P f.central)
    (he : WellFormed P e) (hjournaled : Journaled f.central e) (horder : q.order = .seq)
    (hmatched : P.ftsQuery q.q = some matched) (hsince : searchSince P q.since = .ok since)
    (hroute : searchRoute P space q f.central f.query f.page) :
    ∃ after, PageOf (fun x => position x.record.seq x.record.id) (fun m => RecordRow.position m.row)
        (filteredMatches P space q matched since) (RendersMatch P q.q)
        (SequenceCursor P (KnownRecord e space)) f after ∧
      (f.query.cursor = none → ∀ m ∈ filteredMatches P space q matched since f.central, after m =
        true) ∧
      ∀ cursor p, f.query.cursor = some cursor → SequenceCursor P (KnownRecord e space) cursor p →
        ∀ m ∈ filteredMatches P space q matched since f.central,
          after m = true ↔ p < RecordRow.position m.row := by
  have hwell := hc.wellFormed
  obtain ⟨hlimit, codec, scope, decoded, sequence, score, id, xs, s, s', t, t', hdecoded, hposition,
    hrows,
    hfinish⟩ := search_eq_ok hmatched hsince hroute
  rw [horder] at hrows hfinish
  refine ⟨fun m => sequence < m.row.spaceSeq, ?_, fun hcursor m hm =>
    ?_, fun cursor p hcursor hp m hm => ?_⟩
  · refine PageOf.of_finishPage ?_ (fun m x hx => hx.1.position hwell) hlimit ?_ hfinish
      fun m hm x cursor hx hencode => ?_
    · refine (filteredMatches_distinct hwell).imp fun {a b} hne heq => hne ?_
      exact congrArg (fun k : ℤ ×ₗ String => (ofLex k).2) heq
    · refine List.Forall₂.imp ?_ ((List.forall₂_and_left _ _).mpr ⟨fun _ hr => hr, hrows⟩)
      rintro m x ⟨hm, hx, hscore, hsnippet⟩
      have hmem := (List.mem_filter.mp (mem_of_mem_firstRows hm)).1
      exact ⟨⟨(mem_filteredMatches hmem).1, hx⟩, hscore, hsnippet⟩
    · obtain ⟨hmem, hspace⟩ := mem_filteredMatches hm
      exact sequenceCursor_of_encode hc hx.1
        ⟨m.row, hjournaled.records.subset hmem, hspace, rfl, rfl⟩ hencode
  · obtain ⟨-, rfl⟩ := cursorPosition_start hcursor hdecoded
    cases hposition
    simpa using (position_start_lt hwell (mem_filteredMatches hm).1).1
  · obtain ⟨seq, id', codec', scope', rfl, hknown, hnonneg, hbound, hencode⟩ := hp
    obtain ⟨-, rfl⟩ := cursorPosition_issued hP (sequence_fits hbound) hencode hcursor hdecoded
    obtain ⟨hmem, hspace⟩ := mem_filteredMatches hm
    have hlt := position_lt_iff he hjournaled.records hknown hmem hspace
    simp only [searchPosition, Int.toNat_of_nonneg hnonneg, Option.ite_none_right_eq_some,
      Option.some.injEq, Prod.mk.injEq] at hposition
    obtain ⟨-, rfl, -⟩ := hposition
    rw [decide_eq_true_eq, hlt]

theorem max_scaled : Score.max.scaled = ((2 ^ 52 - 1 + 2 ^ 52) * 2 ^ 2045 : ℕ) := by decide +kernel

/-- No finite score is above `f64::MAX`. -/
theorem Score.scaled_le_max (score : Score) : score.scaled ≤ Score.max.scaled := by
  have hfinite := score.finite
  simp only [isFinite, ne_eq, decide_not, Bool.not_eq_true', decide_eq_false_iff_not] at hfinite
  have hexponent : score.bits / 2 ^ 52 % 2 ^ 11 - 1 ≤ 2045 := by
    have := Nat.mod_lt (score.bits / 2 ^ 52) (by decide : 2 ^ 11 > 0)
    omega
  have hfraction : score.bits % 2 ^ 52 ≤ 2 ^ 52 - 1 :=
    Nat.le_sub_one_of_lt (Nat.mod_lt _ (by decide))
  have hmagnitude : ∀ bound, score.bits / 2 ^ 52 % 2 ^ 11 - 1 ≤ bound →
      (if score.bits / 2 ^ 52 % 2 ^ 11 = 0 then score.bits % 2 ^ 52 else
        (score.bits % 2 ^ 52 + 2 ^ 52) * 2 ^ (score.bits / 2 ^ 52 % 2 ^ 11 - 1)) ≤
      (2 ^ 52 - 1 + 2 ^ 52) * 2 ^ bound := by
    intro bound hbound
    split
    · exact (hfraction.trans (Nat.le_add_right _ _)).trans
        (Nat.le_mul_of_pos_right _ (Nat.two_pow_pos bound))
    · exact Nat.mul_le_mul (Nat.add_le_add_right hfraction _)
        (Nat.pow_le_pow_right (by decide) hbound)
  rw [max_scaled]
  unfold Score.scaled
  split
  · exact Int.ofNat_le.mpr (hmagnitude 2045 hexponent)
  · exact (Int.neg_nonpos_of_nonneg (Int.natCast_nonneg _)).trans (Int.natCast_nonneg _)

/-- Every match comes after the start of a ranked search. -/
theorem rankPosition_start_lt (hc : Served P c) {r : RecordRow} (hr : r ∈ c.records)
    (score : Score) :
    rankPosition .max "" < rankPosition score r.id := by
  have hid := ((hc.invariant (sized_invariant P)).records r hr).1
  rw [rankPosition, rankPosition, Prod.Lex.toLex_lt_toLex]
  rcases (Score.scaled_le_max score).lt_or_eq with hlt | heq
  · exact .inl (OrderDual.toDual_lt_toDual.mpr hlt)
  · exact .inr ⟨congrArg OrderDual.toDual heq.symm, empty_lt_iff.mpr hid⟩

/-- A page of the matches in rank order, after a score and an id. -/
theorem search_rank_page (hP : P.EncodesCursors) {f : Fetched SearchResult}
    (hc : Served P f.central)
    (horder : q.order = .rank) (hmatched : P.ftsQuery q.q = some matched)
    (hsince : searchSince P q.since = .ok since)
    (hroute : searchRoute P space q f.central f.query f.page) :
    ∃ after, PageOf (fun x => rankPosition x.score x.record.id)
        (fun m => rankPosition (matchScore P q.q m) m.row.id)
        (filteredMatches P space q matched since)
        (RendersMatch P q.q) (RankCursor P) f after ∧
      (f.query.cursor = none → ∀ m ∈ filteredMatches P space q matched since f.central, after m =
        true) ∧
      ∀ cursor p, f.query.cursor = some cursor → RankCursor P cursor p →
        ∀ m ∈ filteredMatches P space q matched since f.central,
          after m = true ↔ p < rankPosition (matchScore P q.q m) m.row.id := by
  have hwell := hc.wellFormed
  obtain ⟨hlimit, codec, scope, decoded, sequence, score, id, xs, s, s', t, t', hdecoded, hposition,
    hrows,
    hfinish⟩ := search_eq_ok hmatched hsince hroute
  rw [horder] at hrows hfinish
  refine ⟨fun m => rankPosition score id < rankPosition (matchScore P q.q m) m.row.id, ?_,
    fun hcursor m hm => ?_, fun cursor p hcursor hp m hm => ?_⟩
  · refine PageOf.of_finishPage ?_ (fun m x hx => ?_) hlimit ?_ hfinish
      fun m hm x cursor hx hencode => ⟨x.score, x.record.id, codec, scope, rfl, hencode⟩
    · refine (filteredMatches_distinct hwell).imp fun {a b} hne heq => hne ?_
      exact congrArg (fun k : ℤᵒᵈ ×ₗ String => (ofLex k).2) heq
    · rw [hx.2.1, ← (Prod.mk.inj (hx.1.position hwell)).2]
    · refine List.Forall₂.imp ?_ ((List.forall₂_and_left _ _).mpr ⟨fun _ hr => hr, hrows⟩)
      rintro m x ⟨hm, hx, hscore, hsnippet⟩
      have hmem := (List.mem_filter.mp (mem_of_mem_firstRows hm)).1
      exact ⟨⟨(mem_filteredMatches hmem).1, hx⟩, hscore, hsnippet⟩
  · obtain ⟨-, rfl⟩ := cursorPosition_start hcursor hdecoded
    cases hposition
    simpa using rankPosition_start_lt hc (mem_filteredMatches hm).1 _
  · obtain ⟨score', id', codec', scope', rfl, hencode⟩ := hp
    have hfits : (CursorPosition.rank score'.bits id').Fits := score'.bounded
    obtain ⟨-, rfl⟩ := cursorPosition_issued hP hfits hencode hcursor hdecoded
    have hsome : Score.fromBits score'.bits = some score' := dif_pos ⟨score'.bounded, score'.finite⟩
    simp only [searchPosition, hsome, Option.map_some, Option.some.injEq,
      Prod.mk.injEq] at hposition
    obtain ⟨-, rfl, rfl⟩ := hposition
    rw [decide_eq_true_eq]

end Search
end Sequences
end AgentJournal.Service
