import AgentJournal.Service.Stored

/-! # Append idempotency

One record for each principal, space and key. A retry under any live credential of the
principal is answered from the rows of that record, whatever happened in between, and another
request under the same key is refused.
-/

namespace AgentJournal.Service
open Domain Foundation Storage Recovery

variable {P : Platform} {c d : Central} {token space key : String} {input : RecordInput}
  {host : Host} {actor : String} {s s' t : Session} {result : AppendResult}

section Actors

theorem journalActor_eq_ok (h : (journalActor P token).run s = .ok (actor, t)) :
    ∃ row ∈ s.central.credentials, row.tokenHash = P.digest token ∧ row.principalId = actor := by
  simp only [journalActor, refuse, okOr, run_bind_eq_ok, attempt_eq_ok, query_eq_ok, required_eq_ok,
    run_pure_eq_ok] at h
  obtain ⟨_, _, ⟨-, rfl⟩, now, s₁, hnow, _, _, ⟨rfl, rfl⟩, row, _, ⟨hfind, -⟩, rfl, -⟩ := h
  rw [now_central hnow] at hfind
  have hrow := List.find?_some hfind
  simp only [Bool.and_eq_true, decide_eq_true_eq] at hrow
  exact ⟨row, List.mem_of_find?_eq_some hfind, hrow.1.1.1, rfl⟩

theorem appendReplayActor_eq_ok (h : (appendReplayActor P token).run s = .ok (actor, t)) :
    ∃ row ∈ s.central.credentials, row.tokenHash = P.digest token ∧ row.principalId = actor := by
  simp only [appendReplayActor, refuse, okOr, run_bind_eq_ok, attempt_eq_ok, query_eq_ok,
    required_eq_ok, run_pure_eq_ok] at h
  obtain ⟨_, _, ⟨-, rfl⟩, now, s₁, hnow, _, _, ⟨rfl, rfl⟩, row, _, ⟨hfind, -⟩, rfl, -⟩ := h
  rw [now_central hnow] at hfind
  have hrow := List.find?_some hfind
  simp only [Bool.and_eq_true, decide_eq_true_eq] at hrow
  exact ⟨row, List.mem_of_find?_eq_some hfind, hrow.1.1, rfl⟩

/-- Both lookups of a token find the same principal. -/
theorem actors_agree {a b : String} (hv : Storage.credentials.Valid s.central.credentials)
    (hsame : s'.central = s.central) (ha : (appendReplayActor P token).run s = .ok (a, t))
    {u : Session} (hb : (journalActor P token).run s' = .ok (b, u)) : a = b := by
  obtain ⟨r, hr, hhash, rfl⟩ := appendReplayActor_eq_ok ha
  obtain ⟨r', hr', hhash', rfl⟩ := journalActor_eq_ok hb
  rw [hsame] at hr'
  have heq : r = r' := hv.eq_of_collides hr hr'
    (by simp [Schema.collides, Storage.credentials, hhash, hhash'])
  rw [heq]

end Actors

/-- Every record was stored with one key, which is answered from the rows of the record. -/
structure KeyedRecords (c : Central) : Prop where
  keys : c.idempotencyKeys.map (·.recordId) = c.records.map (·.id)
  rebuilt : ∀ row ∈ c.idempotencyKeys, row.responseJson = rebuiltAppendResponse

theorem keyedRecords_invariant (P : Platform) : Invariant P KeyedRecords where
  baseline _ := ⟨rfl, by simp [Central.baseline]⟩
  anchor _ _ h := ⟨h.keys, h.rebuilt⟩
  call call host c t hc hsound h hrun := by
    cases hcall : call.isAppend with
    | false =>
      have hsame := Call.perform_sameJournal hcall hrun
      exact ⟨by rw [hsame.idempotencyKeys, hsame.records, h.keys],
        hsame.idempotencyKeys ▸ h.rebuilt⟩
    | true =>
      cases call with
      | appendRecord token space key input =>
        obtain ⟨result, t', happend, hpure⟩ := run_bind_eq_ok.mp hrun
        obtain ⟨-, rfl⟩ := run_pure_eq_ok.mp hpure
        have hwell := (Call.perform_extends _ rfl hc hrun).1
        rcases appendRecord_cases happend with hsame | happended
        · rw [hsame]
          exact h
        · obtain ⟨items, htables, -⟩ := (happended.diff hc hwell).tables
          rw [htables]
          refine ⟨?_, ?_⟩
          · simp [h.keys, AppendResult.row]
          · exact forall_mem_append_singleton h.rebuilt rfl
      | _ => cases hcall
  merged _ _ _ hr hb _ :=
    ⟨by rw [hr.sameRecords.idempotencyKeys, hr.sameRecords.records, hb.keys],
      hr.sameRecords.idempotencyKeys ▸ hb.rebuilt⟩

/-- The stored key of a request with the response it stands for. -/
structure Answered (P : Platform) (c : Central) (actor space key : String) (input : RecordInput)
    (result : AppendResult) (row : IdempotencyKeyRow) : Prop where
  found : findIdempotencyKey c actor (appendPath space) key = some row
  hash : row.payloadHash = P.payloadHash input
  rebuilt : row.responseJson = rebuiltAppendResponse
  known : c.hasRecord row.recordId = true
  record : recordOf c row.recordId = some result.record
  mailboxCreated : result.mailboxCreated = result.record.attention.length

/-- A success leaves the key of its request behind. -/
theorem answered_of_append (hc : WellFormed P c) (hkeys : KeyedRecords c)
    (hactor : (appendReplayActor P token).run (.start host c) = .ok (actor, s'))
    (h : (appendRecord P token space key input).run (.start host c) = .ok (result, t)) :
    ∃ row, Answered P t.central actor space key input result row := by
  obtain ⟨actor', s₁, hactor', hcentral,
    ⟨row, hfind, hreplay⟩ | ⟨hnone, happended, -, s₂, hauthor⟩⟩ :=
    appendRecord_eq_ok h
  · obtain ⟨rfl, rfl⟩ : actor' = actor ∧ s₁ = s' := by simpa [hactor] using hactor'.symm
    have hrow := List.mem_of_find?_eq_some hfind
    obtain ⟨hhash, rfl, r, hr, rfl⟩ := (replayAppend_eq_ok (hkeys.rebuilt row hrow)).mp hreplay
    rw [hcentral] at hr ⊢
    exact ⟨row, hfind, hhash, hkeys.rebuilt row hrow, (hc.references.idempotencyKeys row hrow).2,
      hr, rfl⟩
  · obtain ⟨rfl, rfl⟩ : actor' = actor ∧ s₁ = s' := by simpa [hactor] using hactor'.symm
    have hsame : result.record.author = actor' :=
      (actors_agree hc.tables.credentials hcentral hactor hauthor).symm
    have hwell : WellFormed P t.central := by
      have hrun : ((Call.appendRecord token space key input).perform P).run (.start host c) =
          .ok ((), t) := run_bind_eq_ok.mpr ⟨result, t, h, rfl⟩
      exact (Call.perform_extends _ rfl hc hrun).1
    have hdiff := happended.diff hc hwell
    have hrecord := hdiff.recordOf hc happended.fresh_id
    obtain ⟨items, htables, -⟩ := hdiff.tables
    have hstored : t.central.idempotencyKeys = c.idempotencyKeys ++ [⟨result.record.author, "POST",
        appendPath space, key, P.payloadHash input, result.record.id, rebuiltAppendResponse,
        result.record.createdAt⟩] := by rw [htables]
    have hrecords : t.central.records = c.records ++ [AppendResult.row result] := by rw [htables]
    refine ⟨⟨result.record.author, "POST", appendPath space, key, P.payloadHash input,
      result.record.id,
      rebuiltAppendResponse, result.record.createdAt⟩, ?_, rfl, rfl, ?_, hrecord,
        hdiff.mailboxCreated⟩
    · have hnone' : c.idempotencyKeys.find? (fun r => r.principalId = actor' && r.method = "POST" &&
          r.path = appendPath space && r.idempotencyKey = key) = none := hnone
      rw [findIdempotencyKey, hstored, List.find?_append, hnone', Option.none_or]
      simp [hsame]
    · simp [Central.hasRecord, hrecords, AppendResult.row]

/-- The answer of a key never changes. -/
theorem Answered.later {row : IdempotencyKeyRow} (h : Answered P c actor space key input result row)
    (hd : Journaled c d) : Answered P d actor space key input result row := by
  refine { h with found := ?_, known := hd.hasRecord h.known, record := ?_ }
  · obtain ⟨new, hnew⟩ := hd.idempotencyKeys
    have hfound := h.found
    unfold findIdempotencyKey at hfound ⊢
    rw [← hnew, List.find?_append, hfound, Option.some_or]
  · rw [hd.recordOf h.known]
    exact h.record

section Retry
variable {row : IdempotencyKeyRow} {input' : RecordInput}

theorem key_length_of_append (h : (appendRecord P token space key input).run s = .ok (result, t)) :
    1 ≤ charCount key ∧ charCount key ≤ 255 := by
  simp only [appendRecord, refuse, run_bind_eq_ok, attempt_eq_ok, failIf_eq_ok, not_not] at h
  obtain ⟨_, _, ⟨hkey, -⟩, -⟩ := h
  exact hkey

/-- A call with a stored key is decided by the hash of its request. -/
theorem appendRecord_stored (hkey : 1 ≤ charCount key ∧ charCount key ≤ 255)
    (hactor : (appendReplayActor P token).run s = .ok (actor, s'))
    (hfound : findIdempotencyKey s.central actor (appendPath space) key = some row) :
    (appendRecord P token space key input).run s =
      (replayAppend P (P.payloadHash input) row).run s' := by
  have hcentral : s'.central = s.central :=
    central_eq (fun c => appendReplayActor_keeps (ofStore_central c) token) hactor
  have hvalid : (refuse (¬(1 ≤ charCount key ∧ charCount key ≤ 255)) .invalidJournal).run s =
      .ok ((), s) := attempt_eq_ok.mpr ⟨failIf_eq_ok.mpr (not_not.mpr hkey), rfl⟩
  have hquery : (query fun c => findIdempotencyKey c actor (appendPath space) key).run s' =
      .ok (some row, s') := query_eq_ok.mpr ⟨by rw [hcentral]; exact hfound, rfl⟩
  rw [appendRecord, run_bind_of_ok hvalid, run_bind_of_ok hactor, run_bind_of_ok hquery]

theorem Answered.retry (h : Answered P s.central actor space key input result row)
    (hkey : 1 ≤ charCount key ∧ charCount key ≤ 255)
    (hactor : (appendReplayActor P token).run s = .ok (actor, s')) :
    (appendRecord P token space key input).run s = .ok ({ result with replayed := true }, s') := by
  have hcentral : s'.central = s.central :=
    central_eq (fun c => appendReplayActor_keeps (ofStore_central c) token) hactor
  rw [appendRecord_stored hkey hactor h.found, replayAppend_eq_ok h.rebuilt]
  refine ⟨h.hash, rfl, result.record, by rw [hcentral]; exact h.record, ?_⟩
  rw [← h.mailboxCreated]

theorem Answered.conflict (h : Answered P s.central actor space key input result row)
    (hinjective : Function.Injective P.payloadHash)
    (hkey : 1 ≤ charCount key ∧ charCount key ≤ 255)
    (hactor : (appendReplayActor P token).run s = .ok (actor, s')) (hne : input' ≠ input) :
    (appendRecord P token space key input').run s = .error .idempotencyConflict := by
  have hhash : row.payloadHash ≠ P.payloadHash input' := by
    rw [h.hash]
    exact fun heq => hne (hinjective heq).symm
  rw [appendRecord_stored hkey hactor h.found, replayAppend]
  exact run_bind_of_error (by simp [refuse, attempt, failIf, hhash, StateT.run, Except.map])

end Retry

/-- For every served store, once an append of a principal succeeded under a key: whatever calls are
committed afterwards, under every live credential of the principal the same request returns the
same response as a replay and changes nothing, any other request is a conflict, and the key
stands for one record. -/
theorem append_idempotent (hsha : Function.Injective P.sha256)
    (hjson : Function.Injective P.recordInputJson) (hc : Content P c)
    (hactor : (appendReplayActor P token).run (.start host c) = .ok (actor, s'))
    (hfirst : (appendRecord P token space key input).run (.start host c) = .ok (result, t))
    (hserves : Serves P t.central d) :
    (∀ host' token' u, (appendReplayActor P token').run (.start host' d) = .ok (actor, u) →
      (∃ t', (appendRecord P token' space key input).run (.start host' d) =
        .ok ({ result with replayed := true }, t') ∧ t'.central = d) ∧
      ∀ input', input' ≠ input →
        (appendRecord P token' space key input').run (.start host' d) =
        .error .idempotencyConflict) ∧
    (∃ row ∈ d.idempotencyKeys, row.recordId = result.record.id ∧
      ∀ row' ∈ d.idempotencyKeys, row'.principalId = actor → row'.method = "POST" →
        row'.path = appendPath space → row'.idempotencyKey = key → row' = row) ∧
    d.idempotencyKeys.map (·.recordId) = d.records.map (·.id) := by
  have hwell := hc.wellFormed
  have hkeys := (keyedRecords_invariant P).content hc
  have hkey := key_length_of_append hfirst
  obtain ⟨row, hanswered⟩ := answered_of_append hwell hkeys hactor hfirst
  have hrun : ((Call.appendRecord token space key input).perform P).run (.start host c) =
      .ok ((), t) := run_bind_eq_ok.mpr ⟨result, t, hfirst, rfl⟩
  have hfromStart : Serves P c d := (Serves.refl.call _ hrun).trans hserves
  obtain ⟨hwellD, -, hkeysD⟩ := hfromStart.invariant (I := KeyedRecords)
    (keyedRecords_invariant P).anchor (fun call _ _ _ => (keyedRecords_invariant P).call call) hwell
    hc.sound hkeys
  have hlater := hanswered.later hserves.journaled
  refine ⟨fun host' token' u htoken => ⟨?_, fun input' hne => ?_⟩, ⟨row, ?_, ?_, ?_⟩, hkeysD.keys⟩
  · have hcentral : u.central = d :=
      central_eq (fun c => appendReplayActor_keeps (ofStore_central c) token') htoken
    exact ⟨u, Answered.retry (s := .start host' d) hlater hkey htoken, hcentral⟩
  · exact Answered.conflict (s := .start host' d) hlater (Platform.payloadHash_injective hsha hjson)
      hkey htoken hne
  · exact List.mem_of_find?_eq_some hlater.found
  · exact (recordOf_id hlater.record).symm
  · intro row' hrow' hprincipal hmethod hpath hidempotency
    have hfound := List.find?_some hlater.found
    simp only [Bool.and_eq_true, decide_eq_true_eq] at hfound
    obtain ⟨⟨⟨hprincipal', hmethod'⟩, hpath'⟩, hidempotency'⟩ := hfound
    refine hwellD.tables.idempotencyKeys.eq_of_key hrow' (List.mem_of_find?_eq_some hlater.found) ?_
    simp [Storage.idempotencyKeys, hprincipal, hmethod, hpath, hidempotency, hprincipal', hmethod',
      hpath', hidempotency']

section Sample

/-- The principal of the sample token. -/
def sampleActor (c : Central) : Option String :=
  (succeeded ((appendReplayActor .sample sampleToken).run (.start sampleHost c))).map (·.1)

/-- A second append to the sample store. -/
def sampleAppend (c : Central) : Except BootstrapError (AppendResult × Session) :=
  (appendRecord .sample sampleToken "lab" "second" sampleInput).run (.start sampleHost c)

theorem exists_sampleActor (h : sampleActor c = some samplePrincipal) : ∃ s,
    (appendReplayActor .sample sampleToken).run (.start sampleHost c) =
    .ok (samplePrincipal, s) := by
  simp only [sampleActor, Option.map_eq_some_iff, succeeded_eq_some] at h
  obtain ⟨⟨_, s⟩, hrun, rfl⟩ := h
  exact ⟨s, hrun⟩

set_option maxRecDepth 20000 in
theorem sampleAppend_facts : sampleActor sampleStore = some samplePrincipal ∧
    ((succeeded (sampleAppend sampleStore)).bind fun x => sampleActor x.2.central) =
      some samplePrincipal := by decide +kernel

theorem append_idempotent_sample : ∃ result t, sampleAppend sampleStore = .ok (result, t) ∧
    (∃ t', sampleAppend t.central = .ok ({ result with replayed := true }, t') ∧
      t'.central = t.central) ∧
    (appendRecord .sample sampleToken "lab" "second" { sampleInput with title := some " " }).run
      (.start sampleHost t.central) = .error .idempotencyConflict := by
  obtain ⟨hactor, hlater⟩ := sampleAppend_facts
  obtain ⟨⟨result, t⟩, hfirst, hactor'⟩ := Option.bind_eq_some_iff.mp hlater
  obtain ⟨s, hactor⟩ := exists_sampleActor hactor
  obtain ⟨s', hactor'⟩ := exists_sampleActor hactor'
  rw [succeeded_eq_some] at hfirst
  have hidempotent := (append_idempotent (Platform.coded_sha256_injective _ _)
    (Platform.coded_recordInputJson_injective _ _)
    (.inr sampleStore_unadopted) hactor hfirst .refl).1
    sampleHost sampleToken s' hactor'
  exact ⟨result, t, hfirst, hidempotent.1, hidempotent.2 _ (by decide)⟩

end Sample

end AgentJournal.Service
