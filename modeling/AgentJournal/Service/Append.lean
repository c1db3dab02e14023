import AgentJournal.Service.Effects

/-! # The exact effect of an append

A new append stores one record under the next sequence of its space, its relations in their
order, one attention row and one mailbox item for each recipient in id order, and its
idempotency key.
-/

namespace AgentJournal.Service
open Domain Foundation Storage Recovery

variable {P : Platform}

/-- The cursor key exists afterwards and nothing else changed. -/
def Keyed (c d : Central) : Prop :=
  d.journalSecret.isSome = true ∧ d = { c with journalSecret := d.journalSecret } ∧
    ∀ secret ∈ c.journalSecret, d.journalSecret = some secret

/-- One recipient's attention row, raised head and mailbox item. -/
def Delivery (id now recipient : String) (c d : Central) : Prop :=
  ∃ (heads : List InboxSequenceRow) (item : MailboxItemRow),
    item.recordId = id ∧ item.recipientPrincipalId = recipient ∧
    (item.createdAt = now ∧ item.acknowledgedAt = none) ∧
    Storage.inboxSequences.upsert (fun old _ => { old with lastSeq := old.lastSeq + 1 })
      ⟨recipient, 1⟩ c.inboxSequences = .ok heads ∧
    (heads.find? fun r => r.recipientPrincipalId = recipient).map (·.lastSeq) =
      some item.recipientSeq ∧
    d = { c with
      attention := c.attention ++ [⟨id, recipient, now⟩]
      inboxSequences := heads
      mailboxItems := c.mailboxItems ++ [item] }

/-- One relation at its position. -/
def Related (id now : String) (relation : Relation × ℕ) (c d : Central) : Prop :=
  c.insertRecordRelation ⟨id, relation.1.relationType, relation.1.recordId, now, relation.2⟩ = .ok d

theorem central_eq {α : Type} {x : Tx α} (hx : ∀ c, Keeps (fun s : Session => s.central = c) x)
    {s t : Session} {a : α} (h : x.run s = .ok (a, t)) : t.central = s.central :=
  hx s.central s a t rfl h

theorem ofStore_central (c : Central) : OfStore fun s => s.central = c :=
  fun _ _ hcentral _ hs => hcentral.trans hs

theorem cursorCodec_eq_ok {s t : Session} {codec : CursorCodec}
    (h : (cursorCodec P).run s = .ok (codec, t)) : Keyed s.central t.central := by
  simp only [cursorCodec, run_bind_eq_ok, query_eq_ok, attempt_eq_ok] at h
  obtain ⟨stored, _, ⟨rfl, rfl⟩, secret, t', hsecret, -, rfl⟩ := h
  cases hstored : s.central.journalSecret with
  | some stored =>
    rw [hstored] at hsecret
    obtain ⟨-, rfl⟩ := run_pure_eq_ok.mp hsecret
    refine ⟨by simp [hstored], ?_, fun x hx => ?_⟩
    · rfl
    · rw [← hx, hstored]
  | none =>
    rw [hstored] at hsecret
    simp only [cursorSecret, insert, run_bind_eq_ok, fill_eq_ok, execute_eq_ok,
      run_pure_eq_ok] at hsecret
    obtain ⟨bytes, _, ⟨-, rfl⟩, _, _, ⟨d, hinsert, -, rfl⟩, -, rfl⟩ := hsecret
    obtain ⟨-, -, rfl⟩ := Central.insertJournalSecret_eq_ok.mp hinsert
    exact ⟨rfl, rfl, by simp [hstored]⟩

theorem storeRelation_eq_ok {id now : String} {relation : Relation × ℕ} {s t : Session} {u : Unit}
    (h : (storeRelation id now relation).run s = .ok (u, t)) :
    Related id now relation s.central t.central := by
  simp only [storeRelation, insert, run_bind_eq_ok, execute_eq_ok, run_pure_eq_ok] at h
  obtain ⟨_, _, ⟨d, hinsert, -, rfl⟩, -, rfl⟩ := h
  exact hinsert

theorem deliver_eq_ok {id now recipient : String} {s t : Session} {u : Unit}
    (h : (deliver id now recipient).run s = .ok (u, t)) :
    Delivery id now recipient s.central t.central := by
  simp only [deliver, insert, queryRow, okOr, secret, run_bind_eq_ok, execute_eq_ok,
    checkpoint_eq_ok, query_eq_ok, attempt_eq_ok, required_eq_ok, fill_eq_ok, run_pure_eq_ok] at h
  obtain ⟨_, _, ⟨c₁, hattention, -, rfl⟩, _, _, ⟨-, rfl⟩, _, _, ⟨c₂, hhead, -, rfl⟩, seq, _,
    ⟨_, _, ⟨rfl, rfl⟩, hseq, rfl⟩, _, _, ⟨-, rfl⟩, suffix, _, ⟨_, _, ⟨-, rfl⟩, -, rfl⟩, _, _,
    ⟨c₃, hitem, -, rfl⟩, -, rfl⟩ := h
  obtain ⟨-, -, -, rfl⟩ := Central.insertAttention_eq_ok.mp hattention
  obtain ⟨-, heads, hupsert, -, rfl⟩ := Central.upsertInboxSequence_eq_ok.mp hhead
  obtain ⟨-, -, rfl⟩ := Central.insertMailboxItem_eq_ok.mp hitem
  exact ⟨heads, ⟨"item-" ++ suffix, id, recipient, now, seq, none⟩, rfl, rfl, ⟨rfl, rfl⟩, hupsert,
    hseq,
    rfl⟩

theorem permitted_eq_ok {principal space : String} {append : Bool} {s t : Session} {u : Unit} :
    (permitted principal space append).run s = .ok (u, t) ↔
      permits s.central principal space append = true ∧ s = t := by
  simp only [permitted, refuse, run_bind_eq_ok, query_eq_ok, attempt_eq_ok, failIf_eq_ok,
    Bool.not_eq_false]
  constructor
  · rintro ⟨_, _, ⟨rfl, rfl⟩, hallowed, rfl⟩
    exact ⟨hallowed, rfl⟩
  · rintro ⟨hallowed, rfl⟩
    exact ⟨_, s, ⟨rfl, rfl⟩, hallowed, rfl⟩

/-- A handle or an id stands for an active principal that may read the space. -/
def Resolves (c : Central) (space selector principal : String) : Prop :=
  findActive c selector = some principal ∧ permits c principal space false = true

theorem resolveRecipient_eq_ok {space selector principal : String} {s t : Session}
    (h : (resolveRecipient space selector).run s = .ok (principal, t)) :
    t = s ∧ Resolves s.central space selector principal := by
  simp only [resolveRecipient, activePrincipal, okOr, run_bind_eq_ok, query_eq_ok, attempt_eq_ok,
    required_eq_ok, run_pure_eq_ok, permitted_eq_ok] at h
  obtain ⟨_, _, ⟨_, _, ⟨rfl, rfl⟩, hfound, rfl⟩, _, _, ⟨hpermits, rfl⟩, rfl, rfl⟩ := h
  exact ⟨rfl, hfound, hpermits⟩

theorem resolveRecipients_eq_ok {space : String} {selectors recipients : List String}
    {s t : Session}
    (h : (selectors.mapM (resolveRecipient space)).run s = .ok (recipients, t)) :
    t = s ∧ List.Forall₂ (Resolves s.central space) selectors recipients :=
  mapM_reads (R := fun s => Resolves s.central space) (fun _ _ _ _ => resolveRecipient_eq_ok) _ h

/-- The record of a request: its relations in their order, and the principals that its recipients
stand for. -/
structure Requested (c : Central) (space : String) (input : RecordInput) (r : Record) : Prop where
  kind : r.kind = input.kind
  content : r.content = input.content
  runId : r.runId = input.runId
  routingKey : r.routingKey = input.routingKey
  title : r.title = normalizeTitle input.title
  relations : r.relations = input.relations
  attention : ∃ recipients, List.Forall₂ (Resolves c space) input.attention recipients ∧
    r.attention = sortTexts recipients

/-- The row of a new record. -/
def AppendResult.row (r : AppendResult) : RecordRow :=
  ⟨r.record.id, r.record.spaceId, r.record.seq, r.record.author, r.record.kind, r.record.content,
    r.record.runId, r.record.routingKey, r.record.title, r.record.createdAt⟩

/-- What a new append stored, in the order of its statements. -/
structure Appended (space path key hash : String) (c d : Central) (result : AppendResult) :
    Prop where
  spaceId : result.record.spaceId = space
  seq : result.record.seq = c.maxSpaceSeq space + 1
  recipients : result.record.attention.Pairwise (· ≤ ·)
  mailboxCreated : result.mailboxCreated = result.record.attention.length
  fresh : result.replayed = false
  statements : ∃ c₀ c₁ c₂ c₃, Keyed c c₀ ∧ c₀.insertRecord (AppendResult.row result) = .ok c₁ ∧
    Rounds (Related result.record.id result.record.createdAt) result.record.relations.zipIdx c₁ c₂ ∧
    Rounds (Delivery result.record.id result.record.createdAt) result.record.attention c₂ c₃ ∧
    c₃.insertIdempotencyKey ⟨result.record.author, "POST", path, key, hash, result.record.id,
      rebuiltAppendResponse, result.record.createdAt⟩ = .ok d

theorem sortTexts_perm (l : List String) : (sortTexts l).Perm l := List.perm_insertionSort _ l

theorem storeAppend_eq_ok {token space path key hash : String} {input : RecordInput} {s t : Session}
    {result : AppendResult}
    (h : (storeAppend P token space path key hash input).run s = .ok (result, t)) :
    Appended space path key hash s.central t.central result ∧
      Requested s.central space input result.record ∧
      ∃ s', (journalActor P token).run s = .ok (result.record.author, s') := by
  unfold storeAppend at h
  obtain ⟨actor, s₁, hactor, h⟩ := run_bind_eq_ok.mp h
  obtain ⟨_, s₂, hpermitted, h⟩ := run_bind_eq_ok.mp h
  obtain ⟨codec, s₃, hcodec, h⟩ := run_bind_eq_ok.mp h
  obtain ⟨recipients, s₄, hrecipients, h⟩ := run_bind_eq_ok.mp h
  obtain ⟨_, s₅, hvalid, h⟩ := run_bind_eq_ok.mp h
  obtain ⟨last, s₆, hlast, h⟩ := run_bind_eq_ok.mp h
  obtain ⟨seq, s₇, hseq, h⟩ := run_bind_eq_ok.mp h
  obtain ⟨_, s₈, hcheck₁, h⟩ := run_bind_eq_ok.mp h
  obtain ⟨_, s₉, htargets, h⟩ := run_bind_eq_ok.mp h
  obtain ⟨time, s₁₀, htime, h⟩ := run_bind_eq_ok.mp h
  obtain ⟨now, s₁₁, hnow, h⟩ := run_bind_eq_ok.mp h
  obtain ⟨id, s₁₂, hid, h⟩ := run_bind_eq_ok.mp h
  obtain ⟨_, s₁₃, hrecord, h⟩ := run_bind_eq_ok.mp h
  obtain ⟨_, s₁₄, hcheck₂, h⟩ := run_bind_eq_ok.mp h
  obtain ⟨_, s₁₅, hrelations, h⟩ := run_bind_eq_ok.mp h
  obtain ⟨_, s₁₆, hcheck₃, h⟩ := run_bind_eq_ok.mp h
  obtain ⟨_, s₁₇, hdeliveries, h⟩ := run_bind_eq_ok.mp h
  obtain ⟨_, s₁₈, hkey, h⟩ := run_bind_eq_ok.mp h
  obtain ⟨_, s₁₉, hcheck₄, hresult⟩ := run_bind_eq_ok.mp h
  have h₁ : s₁.central = s.central :=
    central_eq (fun c => journalActor_keeps (ofStore_central c) token) hactor
  have h₂ : s₂.central = s₁.central := central_eq (fun _ => permitted_keeps _ _ _) hpermitted
  obtain ⟨h₄, hresolved⟩ := resolveRecipients_eq_ok hrecipients
  obtain ⟨-, rfl⟩ := attempt_eq_ok.mp hvalid
  obtain ⟨rfl, rfl⟩ := query_eq_ok.mp hlast
  simp only [integerColumn, refuse, run_bind_eq_ok, attempt_eq_ok, run_pure_eq_ok] at hseq
  obtain ⟨_, _, ⟨-, rfl⟩, rfl, rfl⟩ := hseq
  obtain ⟨-, rfl⟩ := checkpoint_eq_ok.mp hcheck₁
  have h₉ : s₉.central = s₄.central :=
    central_eq (fun _ => Keeps.forM (requireTarget_keeps actor space _) _) htargets
  obtain ⟨-, rfl⟩ := instant_eq_ok.mp htime
  obtain ⟨-, rfl⟩ := attempt_eq_ok.mp hnow
  have h₁₂ := central_eq (fun c => recordId_keeps (ofStore_central c) time) hid
  obtain ⟨c₁, hinsert, -, rfl⟩ := execute_eq_ok.mp hrecord
  obtain ⟨-, rfl⟩ := checkpoint_eq_ok.mp hcheck₂
  have hrelated := forM_rounds (v := Session.central) (R := Related id now)
    (fun _ _ _ _ => storeRelation_eq_ok) _ hrelations
  obtain ⟨-, rfl⟩ := checkpoint_eq_ok.mp hcheck₃
  have hdelivered := forM_rounds (v := Session.central) (R := Delivery id now)
    (fun _ _ _ _ => deliver_eq_ok) _ hdeliveries
  obtain ⟨d, hidempotency, -, rfl⟩ := execute_eq_ok.mp hkey
  obtain ⟨-, rfl⟩ := checkpoint_eq_ok.mp hcheck₄
  obtain ⟨rfl, rfl⟩ := run_pure_eq_ok.mp hresult
  have hkeyed := cursorCodec_eq_ok hcodec
  rw [h₂, h₁] at hkeyed
  have hrecords : s₄.central.maxSpaceSeq space = s.central.maxSpaceSeq space := by
    rw [h₄, hkeyed.2.1]
    rfl
  refine ⟨⟨rfl, by rw [hrecords], ?_, ?_, rfl, ?_⟩,
    ⟨rfl, rfl, rfl, rfl, rfl, rfl, recipients, ?_, rfl⟩,
    s₁, hactor⟩
  · exact List.pairwise_insertionSort _ _
  · exact (sortTexts_perm recipients).length_eq.symm
  · have hread : s₁₂.central = s₃.central := h₁₂.trans (h₉.trans (congrArg Session.central h₄))
    rw [hread] at hinsert
    exact ⟨s₃.central, c₁, _, _, hkeyed, hinsert, hrelated, hdelivered, hidempotency⟩
  · -- the cursor key does not show in a resolution
    rw [hkeyed.2.1] at hresolved
    exact hresolved

/-- A stored key answers with its record as the rows give it now. -/
theorem replayAppend_eq_ok {hash : String} {row : IdempotencyKeyRow} {s t : Session}
    {result : AppendResult} (hrow : row.responseJson = rebuiltAppendResponse) :
    (replayAppend P hash row).run s = .ok (result, t) ↔
      row.payloadHash = hash ∧ s = t ∧ ∃ r, recordOf s.central row.recordId = some r ∧
        result = ⟨r, r.attention.length, true⟩ := by
  simp only [replayAppend, hrow, if_true, refuse, record, okOr, run_bind_eq_ok, attempt_eq_ok,
    query_eq_ok, run_pure_eq_ok, required_eq_ok, failIf_eq_ok, not_not]
  constructor
  · rintro ⟨_, _, ⟨hhash, rfl⟩, r, _, ⟨_, _, ⟨rfl, rfl⟩, hr, rfl⟩, rfl, rfl⟩
    exact ⟨hhash, rfl, r, hr, rfl⟩
  · rintro ⟨hhash, rfl, r, hr, rfl⟩
    exact ⟨(), s, ⟨hhash, rfl⟩, r, s, ⟨_, s, ⟨rfl, rfl⟩, hr, rfl⟩, rfl, rfl⟩

/-- An append replays the key of its caller or stores a new record. -/
theorem appendRecord_eq_ok {token space key : String} {input : RecordInput} {s t : Session}
    {result : AppendResult} (h : (appendRecord P token space key input).run s = .ok (result, t)) :
    ∃ actor s', (appendReplayActor P token).run s = .ok (actor, s') ∧ s'.central = s.central ∧
      ((∃ row, findIdempotencyKey s.central actor (appendPath space) key = some row ∧
          (replayAppend P (P.payloadHash input) row).run s' = .ok (result, t)) ∨
        (findIdempotencyKey s.central actor (appendPath space) key = none ∧
          Appended space (appendPath space) key (P.payloadHash input) s.central t.central result ∧
          Requested s.central space input result.record ∧
          ∃ s'', (journalActor P token).run s' = .ok (result.record.author, s''))) := by
  simp only [appendRecord, run_bind_eq_ok] at h
  obtain ⟨_, s₁, hkey, actor, s₂, hactor, previous, s₃, hprevious, hrest⟩ := h
  obtain ⟨-, rfl⟩ := attempt_eq_ok.mp hkey
  obtain ⟨rfl, rfl⟩ := query_eq_ok.mp hprevious
  have hcentral : s₂.central = s.central :=
    central_eq (fun c => appendReplayActor_keeps (ofStore_central c) token) hactor
  refine ⟨actor, s₂, hactor, hcentral, ?_⟩
  rw [← hcentral]
  cases hfind : findIdempotencyKey s₂.central actor (appendPath space) key with
  | some row =>
    rw [hfind] at hrest
    exact .inl ⟨row, rfl, hrest⟩
  | none =>
    rw [hfind] at hrest
    obtain ⟨happended, hrequested, hauthor⟩ := storeAppend_eq_ok hrest
    exact .inr ⟨rfl, happended, hrequested, hauthor⟩

end AgentJournal.Service
