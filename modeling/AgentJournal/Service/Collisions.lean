import AgentJournal.Service.Authentication
import AgentJournal.Service.Faults
import AgentJournal.Service.Idempotency
import AgentJournal.Service.Listings

/-! # What an append can collide with

The statements of a new append, one after the other, with what each of them can fail for. The
loops over the relations and over the recipients carry what the rounds before have stored of this
record, so that a failure is put down to a stored row, to an id that is not fresh, to a relation
that the request repeats, or to a text or a counter that the schema does not take.
-/

namespace AgentJournal.Service
open Domain Foundation Storage Recovery

variable {P : Platform} {C B : Prop} {c : Central} {s t : Session} {host : Host}

section Readings
variable {u : Unit}

/-- Who is permitted in a space is stored, and so is the space. -/
theorem known_of_permits {principal space : String} {append : Bool}
    (h : permits c principal space append = true) :
    c.hasPrincipal principal = true ∧ ∃ r ∈ c.spaces, r.id = space := by
  simp only [permits, List.any_eq_true, Bool.and_eq_true, decide_eq_true_eq] at h
  obtain ⟨p, hp, ⟨hid, -⟩, r, hr, ⟨⟨hspace, -⟩, -⟩⟩ := h
  exact ⟨List.any_eq_true.mpr ⟨p, hp, by simpa using hid⟩, r, hr, hspace⟩

theorem requireTargets_eq_ok {actor space : String} {seq : ℤ} {relations : List Relation}
    (h : (relations.forM (requireTarget actor space seq)).run s = .ok (u, t)) :
    t = s ∧ ∀ r ∈ relations, hasOlder s.central r.recordId space seq = true := by
  induction relations generalizing s with
  | nil =>
    obtain ⟨-, rfl⟩ := run_pure_eq_ok.mp h
    exact ⟨rfl, by simp⟩
  | cons r rest ih =>
    obtain ⟨_, s₁, hr, hrest⟩ := run_bind_eq_ok.mp h
    simp only [requireTarget, refuse, run_bind_eq_ok, query_eq_ok, attempt_eq_ok,
      failIf_eq_ok] at hr
    obtain ⟨_, _, hpermitted, _, _, ⟨rfl, rfl⟩, hknown, rfl⟩ := hr
    obtain ⟨-, rfl⟩ := permitted_eq_ok.mp hpermitted
    obtain ⟨rfl, holder⟩ := ih hrest
    exact ⟨rfl, List.forall_mem_cons.mpr ⟨by simpa using hknown, holder⟩⟩

end Readings

section Hosts
variable {α : Type}

theorem instant_host : Keeps (fun s => s.host = host) instant := by
  intro s a t hs h
  obtain ⟨-, rfl⟩ := instant_eq_ok.mp h
  exact hs

theorem fill_host : Keeps (fun s => s.host = host) fill := by
  intro s a t hs h
  obtain ⟨-, rfl⟩ := fill_eq_ok.mp h
  exact hs

theorem insert_host (statement : Central → Sql Central) :
    Keeps (fun s => s.host = host) (insert statement) := by
  intro s a t hs h
  obtain ⟨_, -, -, rfl⟩ := execute_eq_ok.mp h
  exact hs

theorem now_host : Keeps (fun s => s.host = host) (now P) :=
  instant_host.bind fun _ => attempt_keeps _

theorem journalActor_host (token : String) :
    Keeps (fun s => s.host = host) (journalActor P token) :=
  refuse_keeps.bind fun _ => now_host.bind fun _ => (query_keeps _).bind fun _ =>
    okOr_keeps.bind fun _ => .pure _

theorem appendReplayActor_host (token : String) :
    Keeps (fun s => s.host = host) (appendReplayActor P token) :=
  refuse_keeps.bind fun _ => now_host.bind fun _ => (query_keeps _).bind fun _ =>
    okOr_keeps.bind fun _ => .pure _

theorem cursorCodec_host : Keeps (fun s => s.host = host) (cursorCodec P) := by
  refine (query_keeps _).bind fun stored => Keeps.bind ?_ fun _ => attempt_keeps _
  cases stored with
  | some secret => exact .pure _
  | none => exact fill_host.bind fun _ => (insert_host _).bind fun _ => .pure _

end Hosts

/-- The ids that a host can generate for a request are not those of stored rows, and no two of its
random values are the same. -/
structure FreshIds (host : Host) (c : Central) : Prop where
  record : ∀ i bytes n ms, host.random i = some bytes → millis (host.clock n) = .ok ms →
    c.hasRecord (uuidText (uuidBytes ms bytes 0)) = false
  item : ∀ i bytes, host.random i = some bytes →
    ∀ m ∈ c.mailboxItems, m.id ≠ "item-" ++ hex bytes.toList
  distinct : ∀ i j bytes, host.random i = some bytes → host.random j = some bytes → i = j

/-- No relation is named twice, reply-to aside, which validation counts. -/
def Unrepeated (relations : List Relation) : Prop :=
  (relations.filter fun r => r.relationType ≠ .replyTo).Nodup

theorem nodup_of_unrepeated {relations : List Relation} (hreplies : replies relations ≤ 1)
    (h : Unrepeated relations) : relations.Nodup := by
  induction relations with
  | nil => exact List.nodup_nil
  | cons r rest ih =>
    unfold Unrepeated at h ih
    simp only [replies, List.countP_cons] at hreplies ih
    by_cases hreply : r.relationType = .replyTo
    · rw [List.filter_cons_of_neg (by simp [hreply])] at h
      simp only [hreply, decide_true, if_true] at hreplies
      refine List.nodup_cons.mpr ⟨fun hmem => ?_, ih (by omega) h⟩
      have hpositive : 0 < rest.countP fun q => q.relationType = .replyTo :=
        List.countP_pos_iff.mpr ⟨r, hmem, by simp [hreply]⟩
      omega
    · rw [List.filter_cons_of_pos (by simp [hreply]), List.nodup_cons] at h
      refine List.nodup_cons.mpr ⟨fun hmem => h.1 ?_, ih (by omega) h.2⟩
      exact List.mem_filter.mpr ⟨hmem, by simp [hreply]⟩

section Relations
variable {id now : String} {relations : List Relation} {done rest : List (Relation × ℕ)}
  {r : Relation × ℕ}

/-- The first relations of a new record are stored after the rows of the database it was added
to. -/
structure Relating (id now : String) (relations : List Relation) (r₀ : Session)
    (rest : List (Relation × ℕ)) (s : Session) : Prop where
  host : s.host = r₀.host
  fills : s.fills = r₀.fills
  stored : ∃ done, done ++ rest = relations.zipIdx ∧ s.central = { r₀.central with
    recordRelations := r₀.central.recordRelations ++ done.map (relationRow id now) }

theorem position_lt (h : done ++ r :: rest = relations.zipIdx) : r.2 < relations.length := by
  have hmem : r ∈ relations.zipIdx := by simp [← h]
  have hlt := (List.mem_zipIdx (x := r.1) (i := r.2) hmem).2.1
  omega

theorem relations_split (h : done ++ r :: rest = relations.zipIdx) :
    relations = done.map Prod.fst ++ r.1 :: rest.map Prod.fst := by
  rw [← List.zipIdx_map_fst 0 relations, ← h, List.map_append, List.map_cons]

/-- A relation of a new record collides with another one of the request, or with none. -/
theorem relationRow_suits (hold : ∀ x ∈ c.recordRelations, x.sourceRecordId ≠ id)
    (hsplit : done ++ r :: rest = relations.zipIdx) (hcount : relations.length ≤ maxRelations)
    (hreplies : replies relations ≤ 1) (hself : id ≠ r.1.recordId)
    (hnodup : ¬C → relations.Nodup) :
    Suits C B Storage.recordRelations (relationRow id now r)
      (c.recordRelations ++ done.map (relationRow id now)) where
  check hcheck := by
    have hposition := position_lt hsplit
    simp only [maxRelations] at hcount
    simp only [Storage.recordRelations, relationRow, Bool.and_eq_false_iff, decide_eq_false_iff_not,
      ne_eq, hself, not_false_eq_true, not_true_eq_false, or_false] at hcheck
    omega
  key x hx hkey := by
    by_contra hC
    have hdistinct := hnodup hC
    rw [relations_split hsplit] at hdistinct
    rcases List.mem_append.mp hx with hx | hx
    · simp only [Storage.recordRelations, relationRow, List.cons.injEq, Cell.text.injEq] at hkey
      exact hold x hx hkey.1
    · obtain ⟨y, hy, rfl⟩ := List.mem_map.mp hx
      simp only [Storage.recordRelations, relationRow, List.cons.injEq, Cell.text.injEq,
        relationType_asStr_inj] at hkey
      have hsame : y.1 = r.1 := by
        obtain ⟨⟨type, target⟩, _⟩ := y
        obtain ⟨⟨type', target'⟩, _⟩ := r
        simp_all
      exact (List.nodup_append.mp hdistinct).2.2 y.1 (List.mem_map_of_mem hy) r.1 (by simp) hsame
  unique x hx hcollides := by
    simp only [Schema.collides, Storage.recordRelations, relationRow, List.any_cons, List.any_nil,
      Bool.or_false, Bool.and_eq_true, decide_eq_true_eq] at hcollides
    obtain ⟨hreply, hsame⟩ := hcollides
    by_cases hr : r.1.relationType = .replyTo
    · rw [if_pos hr] at hsame
      split at hsame
      · rename_i hx'
        rcases List.mem_append.mp hx with hx | hx
        · simp only [Option.some.injEq, List.cons.injEq, Cell.text.injEq] at hsame
          exact absurd hsame.1.symm (hold x hx)
        · obtain ⟨y, hy, rfl⟩ := List.mem_map.mp hx
          have hfirst : 0 < (done.map Prod.fst).countP fun q => q.relationType = .replyTo :=
            List.countP_pos_iff.mpr ⟨y.1, List.mem_map_of_mem hy, by simpa [relationRow] using hx'⟩
          rw [relations_split hsplit] at hreplies
          simp only [replies, List.countP_append, List.countP_cons, hr, decide_true,
            if_true] at hreplies
          omega
      · cases hsame
    · simp [hr] at hreply

variable {r₀ : Session}

theorem Relating.start : Relating id now relations r₀ relations.zipIdx r₀ :=
  ⟨rfl, rfl, [], by simp, by simp⟩

theorem Relating.step {u : Unit} (h : Relating id now relations r₀ (r :: rest) s)
    (hrun : (storeRelation id now r).run s = .ok (u, t)) : Relating id now relations r₀ rest t := by
  obtain ⟨done, hsplit, hcentral⟩ := h.stored
  simp only [storeRelation, insert, run_bind_eq_ok, execute_eq_ok, run_pure_eq_ok] at hrun
  obtain ⟨_, _, ⟨d, hinsert, -, rfl⟩, -, rfl⟩ := hrun
  obtain ⟨-, -, -, -, rfl⟩ := Central.insertRecordRelation_eq_ok.mp hinsert
  refine ⟨h.host, h.fills, done ++ [r], by simpa using hsplit, ?_⟩
  simp [hcentral, relationRow]

/-- The row of a relation fails only for a repetition in the request. -/
theorem Relating.fails (hold : ∀ x ∈ r₀.central.recordRelations, x.sourceRecordId ≠ id)
    (hrecord : r₀.central.hasRecord id = true) (hcount : relations.length ≤ maxRelations)
    (hreplies : replies relations ≤ 1) (hnodup : ¬C → relations.Nodup)
    (htargets : ∀ q ∈ relations, r₀.central.relationTargetInvalid id q.recordId = false ∧
      r₀.central.hasRecord q.recordId = true ∧ id ≠ q.recordId)
    (h : Relating id now relations r₀ (r :: rest) s) :
    Fails (Faults C B) (storeRelation id now r) s := by
  obtain ⟨done, hsplit, hcentral⟩ := h.stored
  have hmem : r.1 ∈ relations := by simp [relations_split hsplit]
  obtain ⟨htarget, hknown, hself⟩ := htargets r.1 hmem
  refine (insert_fails (show Blames C B (s.central.insertRecordRelation (relationRow id now r)) from
    insertRecordRelation_blames ?_ ?_ ?_ ?_)).bind
    fun _ _ _ => .pure _
  · rw [hcentral]
    exact relationRow_suits hold hsplit hcount hreplies hself hnodup
  · have hnone : r₀.central.recordRelations.countP (fun x => x.sourceRecordId = id) = 0 :=
      List.countP_eq_zero.mpr fun x hx => by simpa using hold x hx
    have hdone := congrArg List.length hsplit
    have hle : (done.map (relationRow id now)).countP (fun x => x.sourceRecordId = id) ≤
      done.length :=
      List.countP_le_length.trans (List.length_map _).le
    simp only [List.length_append, List.length_cons, List.length_zipIdx] at hdone
    simp only [maxRelations] at hcount
    rw [hcentral, List.countP_append]
    change _ + (done.map (relationRow id now)).countP (fun x => x.sourceRecordId = id) < 32
    change r₀.central.recordRelations.countP (fun x => x.sourceRecordId = id) + _ < 32
    omega
  · rw [hcentral]
    exact htarget
  · rw [hcentral]
    exact ⟨hrecord, hknown⟩

end Relations

section Deliveries
variable {id now recipient : String} {rest : List String}

/-- Recipients that nothing of this record has reached, in a database whose heads are above its
items. -/
structure Delivering (C B : Prop) (host : Host) (id : String) (rest : List String) (s : Session) :
    Prop where
  sameHost : s.host = host
  heads : Storage.inboxSequences.Valid s.central.inboxSequences
  record : s.central.hasRecord id = true
  principals : ∀ p ∈ rest, s.central.hasPrincipal p = true
  distinct : rest.Nodup
  few : (s.central.attention.countP fun a => a.recordId = id) + rest.length ≤ maxAttentionRecipients
  attention : ∀ a ∈ s.central.attention, a.recordId = id → a.recipientPrincipalId ∉ rest
  items : ∀ m ∈ s.central.mailboxItems, m.recordId = id → m.recipientPrincipalId ∉ rest
  allocated : ∀ m ∈ s.central.mailboxItems, ∃ n, s.central.lastSeq m.recipientPrincipalId = some n ∧
    m.recipientSeq ≤ n
  room : ¬B → ∀ p ∈ rest, ∀ n ∈ s.central.lastSeq p, n < 2 ^ 63 - 1
  fresh : ¬C → ∀ i ≥ s.fills, ∀ bytes, host.random i = some bytes →
    ∀ m ∈ s.central.mailboxItems, m.id ≠ "item-" ++ hex bytes.toList

/-- What one delivery does to its session. -/
theorem deliver_session {u : Unit} (h : (deliver id now recipient).run s = .ok (u, t)) :
    t.host = s.host ∧ t.fills = s.fills + 1 ∧ t.central.principals = s.central.principals ∧
      t.central.records = s.central.records ∧
      t.central.attention = s.central.attention ++ [⟨id, recipient, now⟩] ∧
      ∃ bytes seq, s.host.random s.fills = some bytes ∧ t.central.mailboxItems =
        s.central.mailboxItems ++
        [⟨"item-" ++ hex bytes.toList, id, recipient, now, seq, none⟩] := by
  simp only [deliver, insert, queryRow, okOr, secret, run_bind_eq_ok, execute_eq_ok,
    checkpoint_eq_ok, query_eq_ok, attempt_eq_ok, required_eq_ok, fill_eq_ok, run_pure_eq_ok] at h
  obtain ⟨_, _, ⟨c₁, hattention, -, rfl⟩, _, _, ⟨-, rfl⟩, _, _, ⟨c₂, hhead, -, rfl⟩, seq, _,
    ⟨_, _, ⟨rfl, rfl⟩, hseq, rfl⟩, _, _, ⟨-, rfl⟩, suffix, _, ⟨bytes, _, ⟨hbytes, rfl⟩, rfl, rfl⟩,
    _,
    _, ⟨c₃, hitem, -, rfl⟩, -, rfl⟩ := h
  obtain ⟨-, -, -, rfl⟩ := Central.insertAttention_eq_ok.mp hattention
  obtain ⟨-, heads, hupsert, -, rfl⟩ := Central.upsertInboxSequence_eq_ok.mp hhead
  obtain ⟨-, -, rfl⟩ := Central.insertMailboxItem_eq_ok.mp hitem
  exact ⟨rfl, rfl, rfl, rfl, rfl, bytes, seq, hbytes, rfl⟩

/-- A delivery leaves the later recipients as they were. -/
theorem Delivering.step {u : Unit}
    (hdraws : ¬C → ∀ i j bytes, host.random i = some bytes → host.random j = some bytes → i = j)
    (h : Delivering C B host id (recipient :: rest) s)
    (hrun : (deliver id now recipient).run s = .ok (u, t)) : Delivering C B host id rest t := by
  obtain ⟨hhost, hfills, hprincipals, hrecords, hattention, bytes, seq, hbytes, hitems⟩ :=
    deliver_session hrun
  obtain ⟨hheads, item, hitems', -, hrecipient, hseq, hhead, hother⟩ :=
    (deliver_eq_ok hrun).allocates h.heads
  obtain ⟨hnot, hdistinct⟩ := List.nodup_cons.mp h.distinct
  have hitem := List.append_cancel_left (hitems'.symm.trans hitems)
  have hrest : ∀ p ∈ rest, p ≠ recipient := fun p hp heq => hnot (heq ▸ hp)
  refine ⟨hhost.trans h.sameHost, hheads, ?_, fun p hp => ?_, hdistinct, ?_, ?_, ?_, ?_,
    fun hB p hp n hn => ?_, fun hC i hi bytes' hbytes' => ?_⟩
  · unfold Central.hasRecord
    rw [hrecords]
    exact h.record
  · unfold Central.hasPrincipal
    rw [hprincipals]
    exact h.principals p (List.mem_cons_of_mem _ hp)
  · have hfew := h.few
    rw [hattention, List.countP_append]
    simp only [List.length_cons, List.countP_cons, List.countP_nil, decide_true, if_true] at hfew ⊢
    omega
  · rw [hattention]
    refine forall_mem_append_singleton (fun a ha hid hp => ?_) fun _ => hnot
    exact h.attention a ha hid (List.mem_cons_of_mem _ hp)
  · rw [hitems]
    refine forall_mem_append_singleton (fun m hm hid hp => ?_) fun _ => hnot
    exact h.items m hm hid (List.mem_cons_of_mem _ hp)
  · rw [hitems']
    refine forall_mem_append_singleton (fun m hm => ?_)
      ⟨item.recipientSeq, hrecipient ▸ hhead, le_rfl⟩
    obtain ⟨n, hn, hle⟩ := h.allocated m hm
    by_cases hsame : m.recipientPrincipalId = recipient
    · refine ⟨item.recipientSeq, hsame ▸ hhead, ?_⟩
      rw [hseq, ← hsame, hn, Option.getD_some]
      omega
    · exact ⟨n, (hother _ hsame).trans hn, hle⟩
  · rw [hother p (hrest p hp)] at hn
    exact h.room hB p (List.mem_cons_of_mem _ hp) n hn
  · rw [hitems]
    refine forall_mem_append_singleton (h.fresh hC i (by omega) bytes' hbytes') fun heq => ?_
    -- the item was made from an earlier draw
    have hsame : bytes = bytes' :=
      Vector.toList_inj.mp (hex_injective ((String.append_right_inj _).mp heq))
    have hdraw := hdraws hC i s.fills bytes' hbytes' (h.sameHost ▸ hsame ▸ hbytes)
    omega

/-- A delivery to a recipient that nothing of the record has reached fails only for an id that is
not fresh, or for a head that is at its end. -/
theorem Delivering.fails (h : Delivering C B host id (recipient :: rest) s) :
    Fails (Faults C B) (deliver id now recipient) s := by
  have hprincipal := h.principals recipient List.mem_cons_self
  have hfew := h.few
  simp only [maxAttentionRecipients, List.length_cons] at hfew
  refine (insert_fails
    (insertAttention_blames ⟨fun hcheck => (by cases hcheck), fun a ha hkey => ?_,
    fun a ha hcollides => ?_⟩ (by simpa using (by omega)) h.record hprincipal)).bind fun _ s₁ h₁ =>
      ?_
  · simp only [Storage.attention, List.cons.injEq, Cell.text.injEq, and_true] at hkey
    exact absurd (hkey.2 ▸ List.mem_cons_self) (h.attention a ha hkey.1)
  · simp [Schema.collides, Storage.attention] at hcollides
  obtain ⟨_, hattention, -, rfl⟩ := execute_eq_ok.mp h₁
  obtain ⟨-, -, -, rfl⟩ := Central.insertAttention_eq_ok.mp hattention
  refine (checkpoint_fails _).bind fun _ s₂ h₂ => ?_
  obtain ⟨-, rfl⟩ := checkpoint_eq_ok.mp h₂
  refine (insert_fails (upsertInboxSequence_blames ?_ (fun r hr hsame hlast => ?_) ?_)).bind
    fun _ s₃ h₃ => ?_
  · exact h.heads
  · by_contra hB
    have hroom := h.room hB recipient List.mem_cons_self r.lastSeq
      ((lastSeq_eq_some h.heads).mpr (hsame ▸ hr))
    omega
  · exact hprincipal
  obtain ⟨_, hraise, -, rfl⟩ := execute_eq_ok.mp h₃
  obtain ⟨-, heads, hupsert, -, rfl⟩ := Central.upsertInboxSequence_eq_ok.mp hraise
  obtain ⟨hheads, hhead⟩ := lastSeq_of_upsert h.heads hupsert
  refine (queryRow_fails fun hnone => ?_).bind fun seq s₄ h₄ => ?_
  · exact absurd (hhead.symm.trans hnone) (by simp)
  simp only [queryRow, okOr, run_bind_eq_ok, query_eq_ok, attempt_eq_ok, required_eq_ok] at h₄
  obtain ⟨_, _, ⟨rfl, rfl⟩, hseq, rfl⟩ := h₄
  obtain rfl := Option.some.inj (hseq.symm.trans hhead)
  refine (checkpoint_fails _).bind fun _ s₅ h₅ => ?_
  obtain ⟨-, rfl⟩ := checkpoint_eq_ok.mp h₅
  refine secret_fails.bind fun suffix s₆ h₆ => ?_
  simp only [secret, run_bind_eq_ok, fill_eq_ok, run_pure_eq_ok] at h₆
  obtain ⟨bytes, _, ⟨hbytes, rfl⟩, rfl, rfl⟩ := h₆
  refine (insert_fails (insertMailboxItem_blames ⟨fun hcheck => ?_, fun m hm hkey => ?_,
    fun m hm hcollides => ?_⟩ h.record hprincipal)).bind fun _ _ _ => checkpoint_fails _
  · obtain ⟨r, hr, hrow⟩ : ∃ r ∈ heads, r.lastSeq = (s.central.lastSeq recipient).getD 0 + 1 :=
      ⟨_, (lastSeq_eq_some (c := { s.central with inboxSequences := heads }) hheads).mp hhead, rfl⟩
    have hchecked := hheads.checked r hr
    simp only [Storage.inboxSequences, hrow] at hchecked
    exact absurd (hchecked.symm.trans hcheck) (by simp)
  · by_contra hC
    simp only [Storage.mailboxItems, List.cons.injEq, Cell.text.injEq, and_true] at hkey
    exact h.fresh hC s.fills le_rfl bytes (h.sameHost ▸ hbytes) m hm hkey
  · simp only [Schema.collides, Storage.mailboxItems, List.any_cons, List.any_nil, Bool.or_false,
      Bool.or_eq_true, Bool.and_eq_true, decide_eq_true_eq, Option.some.injEq, List.cons.injEq,
      Cell.text.injEq, Cell.integer.injEq, and_true, Option.isSome_some, true_and] at hcollides
    rcases hcollides with ⟨hsame, hnext⟩ | ⟨hid, hsame⟩
    · obtain ⟨n, hn, hle⟩ := h.allocated m hm
      rw [← hsame] at hn
      rw [hn, Option.getD_some] at hnext
      omega
    · exact absurd (hsame ▸ List.mem_cons_self) (h.items m hm hid.symm)

end Deliveries

section Rows
variable {space key : String} {input : RecordInput} {recipients : List String}

/-- What the schema takes of an append: a kind and a key that SQLite does not see as empty, and
counters of its space and its recipients that are not at their end. -/
structure Fits (c : Central) (space key : String) (input : RecordInput) : Prop where
  kind : ¬BeginsNul input.kind
  key : ¬BeginsNul key
  sequences : ∀ r ∈ c.records, r.spaceId = space → r.spaceSeq < 2 ^ 63 - 1
  heads : ∀ r ∈ c.inboxSequences, ∀ selector ∈ input.attention,
    findActive c selector = some r.recipientPrincipalId → r.lastSeq < 2 ^ 63 - 1

theorem utf8ByteSize_pos {s : String} (h : s ≠ "") : 1 ≤ s.utf8ByteSize := by
  by_contra hzero
  exact h (String.utf8ByteSize_eq_zero_iff.mp (by omega))

/-- A valid record breaks its check only through a kind that begins with NUL. -/
theorem records_check {row : RecordRow}
    (h : { input with attention := recipients, title := normalizeTitle input.title }.Valid)
    (hseq : 0 < row.spaceSeq) (hkind : row.kind = input.kind)
    (hcontent : row.content = input.content)
    (hrun : row.runId = input.runId) (htitle : row.title = normalizeTitle input.title)
    (hcheck : Storage.records.check row = false) : BeginsNul input.kind := by
  by_contra hnul
  have hkindChars : 1 ≤ sqlLength input.kind := one_le_sqlLength h.kind.1 hnul
  have hkindMax := (sqlLength_le input.kind).trans h.kind.2
  have hbytes : 1 ≤ input.content.utf8ByteSize := utf8ByteSize_pos h.content
  have hbytesMax := h.contentBytes
  have hrunMax : (input.runId.all fun id => decide (sqlLength id ≤ 128)) = true := by
    rw [Option.all_eq_true]
    intro id hid
    by_cases hempty : id = ""
    · simp [hempty, sqlLength, sqlChars]
    · exact decide_eq_true ((sqlLength_le id).trans (h.runId id hid hempty).2)
  have htitleMax : ((normalizeTitle input.title).all fun t =>
      decide (1 ≤ sqlLength t) && decide (sqlLength t ≤ 200)) = true := by
    rw [Option.all_eq_true]
    intro t ht
    obtain ⟨hne, hsame⟩ := normalizeTitle_some ht
    obtain ⟨hchars, hprintable⟩ := h.title t (by rw [ht, hsame]; rfl)
    have hpositive : charCount t ≠ 0 := fun hzero =>
      hne (String.toList_eq_nil_iff.mp (List.length_eq_zero_iff.mp hzero))
    rw [sqlLength_of_printable hprintable]
    simp only [maxTitleChars] at hchars
    simp only [Bool.and_eq_true, decide_eq_true_eq]
    omega
  simp only [maxIdentifierChars, maxContentBytes] at hkindMax hbytesMax
  simp only [Storage.records, hkind, hcontent, hrun, htitle, hrunMax, htitleMax, Bool.and_true,
    Bool.and_eq_false_iff, decide_eq_false_iff_not] at hcheck
  omega

theorem appendPath_chars (space : String) :
    charCount (appendPath space) = charCount space + 19 := by
  simp only [charCount, appendPath, String.toList_append, List.length_append]
  have hfront : "/v1/spaces/".toList.length = 11 := rfl
  have hback : "/records".toList.length = 8 := rfl
  omega

/-- The key of an append breaks its check only by beginning with NUL. -/
theorem idempotencyKeys_check {row : IdempotencyKeyRow} (hspace : IsIdentifier space)
    (hkey : 1 ≤ charCount key ∧ charCount key ≤ 255) (hmethod : row.method = "POST")
    (hpath : row.path = appendPath space) (hrow : row.idempotencyKey = key)
    (hcheck : Storage.idempotencyKeys.check row = false) : BeginsNul key := by
  by_contra hnul
  have hne : key ≠ "" := by
    rintro rfl
    exact absurd hkey.1 (by decide)
  have hkeyChars := one_le_sqlLength hne hnul
  have hkeyMax := (sqlLength_le key).trans hkey.2
  have hslash : (appendPath space).toList.head? = some '/' := by
    simp [appendPath, String.toList_append]
  have hpathChars : 1 ≤ sqlLength (appendPath space) := by
    refine one_le_sqlLength ?_ ?_
    · intro hempty
      rw [hempty] at hslash
      cases hslash
    · unfold BeginsNul
      rw [hslash]
      decide
  have hpathMax := (sqlLength_le (appendPath space)).trans_eq (appendPath_chars space)
  have hspaceMax := hspace.2
  have hpost : sqlLength "POST" = 4 := by decide
  simp only [maxIdentifierChars] at hspaceMax
  simp only [Storage.idempotencyKeys, hmethod, hpath, hrow, hpost, Bool.and_eq_false_iff,
    decide_eq_false_iff_not] at hcheck
  omega

/-- The next sequence of a space is above its records, and fits unless one of them is the last
that does. -/
theorem nextSeq_above (h : JournalSound c) (space : String) :
    (∀ r ∈ c.records, r.spaceId = space → r.spaceSeq < c.maxSpaceSeq space + 1) ∧
      0 < c.maxSpaceSeq space + 1 ∧
      ((∀ r ∈ c.records, r.spaceId = space → r.spaceSeq < 2 ^ 63 - 1) →
        c.maxSpaceSeq space + 1 < 2 ^ 63) := by
  have hmax : c.maxSpaceSeq space = (spaceSeqs c space).length := (h.sequences space).foldl_max
  have hmem : ∀ {r}, r ∈ c.records → r.spaceId = space → r.spaceSeq ∈ spaceSeqs c space :=
    fun hr hspace => List.mem_map_of_mem (List.mem_filter.mpr ⟨hr, by simpa using hspace⟩)
  refine ⟨fun r hr hspace => ?_, by omega, fun hroom => ?_⟩
  · have hle := ((h.sequences space).mem_iff.mp (hmem hr hspace)).2
    omega
  · by_cases hempty : (spaceSeqs c space).length = 0
    · omega
    · have hlast : ((spaceSeqs c space).length : ℤ) ∈ spaceSeqs c space :=
        (h.sequences space).mem_iff.mpr (by omega)
      obtain ⟨r, hr, hseq⟩ := List.mem_map.mp hlast
      have hlt := hroom r (List.mem_filter.mp hr).1 (by simpa using (List.mem_filter.mp hr).2)
      omega

/-- An older record of the space is an allowed target of the new one. -/
theorem target_of_hasOlder {id target : String} {row : RecordRow} (hid : row.id = id)
    (hv : Storage.records.Valid c.records) (hnew : c.hasRecord id = false)
    (holder : hasOlder c target row.spaceId row.spaceSeq = true) :
    { c with records := c.records ++ [row], recordsFts := c.recordsFts ++
      [row.fts] }.relationTargetInvalid
        id target = false ∧
      { c with records := c.records ++ [row], recordsFts := c.recordsFts ++ [row.fts] }.hasRecord
      target =
        true ∧ id ≠ target := by
  simp only [hasOlder, List.any_eq_true, Bool.and_eq_true, decide_eq_true_eq] at holder
  obtain ⟨r, hr, ⟨rfl, hspace⟩, hseq⟩ := holder
  have hknown : c.hasRecord r.id = true := List.any_eq_true.mpr ⟨r, hr, by simp⟩
  have hne : id ≠ r.id := by
    rintro rfl
    exact absurd (hnew.symm.trans hknown) (by simp)
  have hsource : (c.records ++ [row]).find? (fun x => x.id = id) = some row := by
    rw [List.find?_append, List.find?_eq_none.mpr fun x hx => ?_, Option.none_or]
    · simp [hid]
    · exact List.any_eq_false.mp hnew x hx
  have htarget : (c.records ++ [row]).find? (fun x => x.id = r.id) = some r := by
    refine find?_of_distinct ?_ (List.mem_append_left _ hr)
    refine List.pairwise_append.mpr
      ⟨hv.keys.imp fun hapart heq => ?_, List.pairwise_singleton _ _, ?_⟩
    · simp [Storage.records, heq] at hapart
    · intro x hx y hy heq
      rw [List.mem_singleton.mp hy, hid] at heq
      exact List.any_eq_false.mp hnew x hx (by simpa using heq)
  refine ⟨?_, any_append_left hknown _, hne⟩
  simp only [Central.relationTargetInvalid, Central.findRecord, hsource, htarget, hspace,
    decide_false, Bool.false_or, decide_eq_false_iff_not, ne_eq, not_true_eq_false, not_le]
  exact hseq

end Rows

section Append
variable {token space key hash : String} {input : RecordInput}

theorem resolveRecipient_fails (space recipient : String) :
    Fails (Faults C B) (resolveRecipient space recipient) s :=
  (activePrincipal_fails _).bind fun _ _ _ => (permitted_fails _ _ _).bind fun _ _ _ => .pure _

theorem requireTargets_fails (actor space : String) (seq : ℤ) (relations : List Relation) :
    Fails (Faults C B) (relations.forM (requireTarget actor space seq)) s :=
  Fails.forM (I := fun _ _ => True)
    (fun _ _ _ _ => (permitted_fails _ _ _).bind fun _ _ _ => (query_fails _).bind fun _ _ _ =>
      refuse_fails fun _ => faults_of_ne (by simp) (by simp))
    (fun _ _ _ _ _ _ _ => trivial) _ trivial

/-- The tables that deliveries leave alone. -/
theorem delivered_kept {id now : String} {recipients : List String} {d : Central}
    (h : Rounds (Delivery id now) recipients c d) : d.idempotencyKeys = c.idempotencyKeys ∧
      d.principals = c.principals ∧ d.records = c.records := by
  refine h.invariant (I := fun e => e.idempotencyKeys = c.idempotencyKeys ∧
    e.principals = c.principals ∧ e.records = c.records) ?_ ⟨rfl, rfl, rfl⟩
  rintro recipient x y ⟨hkeys, hprincipals, hrecords⟩ ⟨heads, item, -, -, -, -, -, rfl⟩
  exact ⟨hkeys, hprincipals, hrecords⟩

/-- The rows of a new append, in the order of its statements. -/
theorem storeRows_fails {row : RecordRow} {keyRow : IdempotencyKeyRow} {now : String}
    {relations : List Relation} {recipients : List String} {secret : Option (List UInt8)} {α : Type}
    {a : α}
    (hwell : WellFormed P c) (hsound : JournalSound c)
    (hcentral : s.central = { c with journalSecret := secret })
    (hrow : Suits C B Storage.records row c.records)
    (hspace : c.hasSpace row.spaceId = true) (hauthor : c.hasPrincipal row.authorPrincipalId = true)
    (hcount : relations.length ≤ maxRelations) (hreplies : replies relations ≤ 1)
    (htargets : ∀ q ∈ relations, hasOlder c q.recordId row.spaceId row.spaceSeq = true)
    (hprincipals : ∀ p ∈ recipients, c.hasPrincipal p = true) (hdistinct : recipients.Nodup)
    (hfew : recipients.length ≤ maxAttentionRecipients)
    (hkeyRow : Suits C B Storage.idempotencyKeys keyRow c.idempotencyKeys)
    (hactor : c.hasPrincipal keyRow.principalId = true) (hid : keyRow.recordId = row.id)
    (hfresh : ¬C → FreshIds s.host c ∧ relations.Nodup)
    (hroom : ¬B → ∀ r ∈ c.inboxSequences, r.recipientPrincipalId ∈ recipients →
      r.lastSeq < 2 ^ 63 - 1) :
    Fails (Faults C B) (do
      let _ ← insert fun c => c.insertRecord row
      checkpoint "append-record"
      relations.zipIdx.forM (storeRelation row.id now)
      checkpoint "append-relations"
      recipients.forM (deliver row.id now)
      let _ ← insert fun c => c.insertIdempotencyKey keyRow
      checkpoint "append-idempotency"
      return a) s := by
  refine (insert_fails (insertRecord_blames ?_ ?_ ?_)).bind fun _ s₁ h₁ => ?_
  · rw [hcentral]
    exact hrow
  · rw [hcentral]
    exact hspace
  · rw [hcentral]
    exact hauthor
  obtain ⟨d, hinsert, -, hs₁⟩ := execute_eq_ok.mp h₁
  obtain ⟨haccepts, -, hd⟩ := Central.insertRecord_eq_ok.mp hinsert
  rw [hcentral] at haccepts hd
  have hhost₁ : s₁.host = s.host := by rw [hs₁]
  have hfills₁ : s₁.fills = s.fills := by rw [hs₁]
  have hcentral₁ : s₁.central = { c with
      records := c.records ++ [row]
      recordsFts := c.recordsFts ++ [row.fts]
      journalSecret := secret } := by rw [hs₁, ← hd]
  have hnew : c.hasRecord row.id = false := by
    refine List.any_eq_false.mpr fun r hr => ?_
    have hne := haccepts.key r hr
    simpa [Storage.records] using hne
  have hapart : ∀ id, c.hasRecord id = true → id ≠ row.id := by
    rintro id hknown rfl
    exact absurd (hnew.symm.trans hknown) (by simp)
  have hknown : s₁.central.hasRecord row.id = true := by
    rw [hcentral₁]
    simp [Central.hasRecord]
  refine (checkpoint_fails _).bind fun _ s₂ h₂ => ?_
  obtain ⟨-, rfl⟩ := checkpoint_eq_ok.mp h₂
  refine (Fails.forM (I := Relating row.id now relations s₁)
    (fun _ _ _ h => h.fails (fun x hx => ?_)
    hknown hcount hreplies (fun hC => (hfresh hC).2) fun q hq => ?_)
    (fun _ _ _ _ _ h hrun => h.step hrun) _ .start).bind fun _ s₃ h₃ => ?_
  · rw [hcentral₁] at hx
    exact hapart _ (hwell.references.recordRelations x hx).1
  · rw [hcentral₁]
    exact target_of_hasOlder rfl hwell.tables.records hnew (htargets q hq)
  obtain ⟨hhost₃, hfills₃, done, -, hcentral₃⟩ :=
    forM_invariant (I := Relating row.id now relations s₁)
    (fun _ _ _ _ _ h hrun => h.step hrun) _ .start h₃
  rw [hcentral₁] at hcentral₃
  refine (checkpoint_fails _).bind fun _ s₄ h₄ => ?_
  obtain ⟨-, rfl⟩ := checkpoint_eq_ok.mp h₄
  have hdraws : ¬C → ∀ i j bytes, s.host.random i = some bytes → s.host.random j = some bytes →
    i = j :=
    fun hC => (hfresh hC).1.distinct
  have hstart : Delivering C B s.host row.id recipients s₃ := by
    refine ⟨hhost₃.trans hhost₁, ?_, ?_, ?_, hdistinct, ?_, ?_, ?_, ?_, ?_, ?_⟩
    all_goals rw [hcentral₃]
    · exact hwell.tables.inboxSequences
    · simp [Central.hasRecord]
    · exact hprincipals
    · have hnone : c.attention.countP (fun a => a.recordId = row.id) = 0 :=
        List.countP_eq_zero.mpr fun a ha => by
          simpa using hapart _ (hwell.references.attention a ha).1
      exact (congrArg (· + recipients.length) hnone).trans_le (by simpa using hfew)
    · exact fun a ha heq => absurd heq (hapart _ (hwell.references.attention a ha).1)
    · exact fun m hm heq => absurd heq (hapart _ (hwell.references.mailboxItems m hm).1)
    · exact hsound.allocated
    · intro hB p hp n hn
      exact hroom hB _ ((lastSeq_eq_some hwell.tables.inboxSequences).mp hn) hp
    · exact fun hC i _ bytes hbytes => (hfresh hC).1.item i bytes hbytes
  refine (Fails.forM (I := Delivering C B s.host row.id) (fun _ _ _ h => h.fails)
    (fun _ _ _ _ _ h hrun => h.step hdraws hrun) _ hstart).bind fun _ s₅ h₅ => ?_
  obtain ⟨hkeys, hprincipals', hrecords⟩ := delivered_kept (forM_rounds (v := Session.central)
    (R := Delivery row.id now) (fun _ _ _ _ => deliver_eq_ok) _ h₅)
  rw [hcentral₃] at hkeys hprincipals' hrecords
  refine (insert_fails (insertIdempotencyKey_blames ?_ ?_ ?_)).bind fun _ _ _ =>
    (checkpoint_fails _).bind fun _ _ _ => .pure _
  · rw [hkeys]
    exact hkeyRow
  · rw [Central.hasPrincipal, hprincipals']
    exact hactor
  · rw [Central.hasRecord, hrecords, hid]
    simp

/-- A new append fails with a conflict only when an id is not fresh or a relation is repeated, and
for the schema only when it does not fit. -/
theorem storeAppend_fails (hwell : WellFormed P s.central) (hsound : JournalSound s.central)
    (hspaces : ∀ r ∈ s.central.spaces, IsIdentifier r.id)
    (hkey : 1 ≤ charCount key ∧ charCount key ≤ 255)
    (hprevious : ∀ row ∈ s.central.credentials, row.tokenHash = P.digest token →
      findIdempotencyKey s.central row.principalId (appendPath space) key = none)
    (hfresh : ¬C → FreshIds s.host s.central ∧ Unrepeated input.relations)
    (hfits : ¬B → Fits s.central space key input) :
    Fails (Faults C B) (storeAppend P token space (appendPath space) key hash input) s := by
  refine (journalActor_fails _).bind fun actor s₁ hactor => ?_
  obtain ⟨row, hrow, hhash, rfl⟩ := journalActor_eq_ok hactor
  have h₁ : s₁.central = s.central :=
    central_eq (fun c => journalActor_keeps (ofStore_central c) token) hactor
  have hhost₁ : s₁.host = s.host := journalActor_host token _ _ _ rfl hactor
  refine (permitted_fails _ _ _).bind fun _ s₂ hpermitted => ?_
  obtain ⟨hpermits, rfl⟩ := permitted_eq_ok.mp hpermitted
  obtain ⟨hauthor, r, hr, rfl⟩ := known_of_permits hpermits
  refine cursorCodec_fails.bind fun _ s₃ hcodec => ?_
  obtain ⟨-, hcentral, -⟩ := cursorCodec_eq_ok hcodec
  have hhost₃ : s₃.host = s.host := (cursorCodec_host _ _ _ rfl hcodec).trans hhost₁
  rw [h₁] at hauthor hr hcentral
  refine (Fails.mapM (resolveRecipient_fails r.id)
    (fun _ _ _ h => (resolveRecipient_eq_ok h).1) _).bind fun recipients s₄ hrecipients => ?_
  obtain ⟨rfl, hresolved⟩ := resolveRecipients_eq_ok hrecipients
  refine (attempt_fails fun e he => ?_).bind fun _ s₅ hvalidated => ?_
  · split at he
    · cases he
    · cases he
      exact faults_of_ne (by simp) (by simp)
  obtain ⟨hok, rfl⟩ := attempt_eq_ok.mp hvalidated
  have hvalid :
    { input with attention := recipients, title := normalizeTitle input.title }.Valid := by
    split at hok
    · exact RecordInput.validate_eq_ok.mp ‹_›
    · cases hok
  refine (query_fails _).bind fun last s₆ hlast => ?_
  obtain ⟨rfl, rfl⟩ := query_eq_ok.mp hlast
  have hmax : s₄.central.maxSpaceSeq r.id = s.central.maxSpaceSeq r.id := by
    rw [hcentral]
    rfl
  obtain ⟨habove, hpositive, hroom⟩ := nextSeq_above hsound r.id
  rw [hmax]
  refine (integerColumn_fails fun hlarge => ?_).bind fun seq s₇ hseq => ?_
  · by_contra hB
    have hsmall := hroom (hfits hB).sequences
    omega
  simp only [integerColumn, refuse, run_bind_eq_ok, attempt_eq_ok, run_pure_eq_ok] at hseq
  obtain ⟨_, _, ⟨-, rfl⟩, rfl, rfl⟩ := hseq
  refine (checkpoint_fails _).bind fun _ s₈ hcheck => ?_
  obtain ⟨-, rfl⟩ := checkpoint_eq_ok.mp hcheck
  refine (requireTargets_fails _ _ _ _).bind fun _ s₉ htargets => ?_
  obtain ⟨rfl, holder⟩ := requireTargets_eq_ok htargets
  refine instant_fails.bind fun time s₁₀ htime => ?_
  obtain ⟨rfl, rfl⟩ := instant_eq_ok.mp htime
  refine (attempt_fails fun _ => timestamp_faults).bind fun now s₁₁ hnow => ?_
  obtain ⟨-, rfl⟩ := attempt_eq_ok.mp hnow
  refine (recordId_fails _).bind fun id s₁₂ hid => ?_
  simp only [recordId, run_bind_eq_ok, attempt_eq_ok, fill_eq_ok, run_pure_eq_ok] at hid
  obtain ⟨ms, _, ⟨hms, rfl⟩, bytes, _, ⟨hbytes, rfl⟩, rfl, rfl⟩ := hid
  have hprincipal : s.central.hasPrincipal row.principalId = true :=
    (hwell.references.credentials row hrow).1
  have hattention : (sortTexts recipients).Perm recipients := sortTexts_perm recipients
  refine storeRows_fails hwell hsound hcentral
    ⟨fun hcheck => ?_, fun x hx hkey => ?_, fun x hx hcollides => ?_⟩
    (List.any_eq_true.mpr ⟨r, hr, by simp⟩) hauthor hvalid.relationCount hvalid.replies ?_ ?_ ?_ ?_
    ⟨fun hcheck => ?_, fun x hx hkey => ?_, fun x hx hcollides => ?_⟩ hprincipal rfl ?_ ?_
  · by_contra hB
    exact (hfits hB).kind (records_check hvalid hpositive rfl rfl rfl rfl hcheck)
  · by_contra hC
    simp only [Storage.records, List.cons.injEq, Cell.text.injEq, and_true] at hkey
    have hnew := (hfresh hC).1.record _ bytes _ ms (hhost₃ ▸ hbytes) (hhost₃ ▸ hms)
    exact absurd hkey (by simpa using List.any_eq_false.mp hnew x hx)
  · simp only [Schema.collides, Storage.records, List.any_cons, List.any_nil, Bool.or_false,
      Option.isSome_some, Bool.true_and, decide_eq_true_eq, Option.some.injEq, List.cons.injEq,
      Cell.text.injEq, Cell.integer.injEq, and_true] at hcollides
    have hlt := habove x hx hcollides.1.symm
    omega
  · intro q hq
    have hknown := holder q hq
    rw [hcentral] at hknown
    exact hknown
  · intro p hp
    obtain ⟨_, -, -, hpermits⟩ := forall₂_mem_right hresolved (hattention.mem_iff.mp hp)
    have hknown := (known_of_permits hpermits).1
    rw [hcentral] at hknown
    exact hknown
  · exact hattention.nodup_iff.mpr hvalid.distinct
  · exact hattention.length_eq.trans_le hvalid.attentionCount
  · by_contra hB
    exact (hfits hB).key (idempotencyKeys_check (hspaces r hr) hkey rfl rfl rfl hcheck)
  · have hnone := hprevious row hrow hhash
    simp only [findIdempotencyKey, List.find?_eq_none, Bool.and_eq_true, decide_eq_true_eq,
      not_and] at hnone
    simp only [Storage.idempotencyKeys, List.cons.injEq, Cell.text.injEq, and_true] at hkey
    exact absurd hkey.2.2.2 (hnone x hx ⟨⟨hkey.1, hkey.2.1⟩, hkey.2.2.1⟩)
  · simp [Schema.collides, Storage.idempotencyKeys] at hcollides
  · intro hC
    rw [show _ = s.host from hhost₃]
    exact ⟨(hfresh hC).1, nodup_of_unrepeated hvalid.replies (hfresh hC).2⟩
  · intro hB x hx hrecipient
    obtain ⟨selector, hselector, hfound, -⟩ :=
      forall₂_mem_right hresolved (hattention.mem_iff.mp hrecipient)
    rw [hcentral] at hfound
    exact (hfits hB).heads x hx selector hselector hfound

theorem replayAppend_fails (previous : IdempotencyKeyRow) :
    Fails (Faults C B) (replayAppend P hash previous) s := by
  refine (refuse_fails fun _ => faults_of_ne (by simp) (by simp)).bind fun _ _ _ => ?_
  split
  · exact ((query_fails _).bind fun _ _ _ => okOr_fails fun _ =>
      faults_of_ne (by simp) (by simp)).bind
      fun _ _ _ => .pure _
  · exact (okOr_fails fun _ => faults_of_ne (by simp) (by simp)).bind fun _ _ _ => .pure _

/-- A digest is stored with one credential. -/
theorem credential_of_hash {row row' : CredentialRow} (hv : Storage.credentials.Valid c.credentials)
    (hrow : row ∈ c.credentials) (hrow' : row' ∈ c.credentials)
    (hhash : row.tokenHash = row'.tokenHash) :
    row = row' :=
  hv.eq_of_collides hrow hrow' (by simp [Schema.collides, Storage.credentials, hhash])

/-- As for a new append: a replay changes nothing. -/
theorem appendRecord_fails (hwell : WellFormed P s.central) (hsound : JournalSound s.central)
    (hspaces : ∀ r ∈ s.central.spaces, IsIdentifier r.id)
    (hfresh : ¬C → FreshIds s.host s.central ∧ Unrepeated input.relations)
    (hfits : ¬B → Fits s.central space key input) :
    Fails (Faults C B) (appendRecord P token space key input) s := by
  refine (refuse_fails fun _ => faults_of_ne (by simp) (by simp)).bind fun _ s₁ h₁ => ?_
  obtain ⟨hkey, rfl⟩ := attempt_eq_ok.mp h₁
  rw [failIf_eq_ok, not_not] at hkey
  refine (appendReplayActor_fails _).bind fun actor s₂ hactor => ?_
  obtain ⟨row, hrow, hhash, rfl⟩ := appendReplayActor_eq_ok hactor
  have hcentral : s₂.central = s.central :=
    central_eq (fun c => appendReplayActor_keeps (ofStore_central c) token) hactor
  have hhost : s₂.host = s.host := appendReplayActor_host token _ _ _ rfl hactor
  refine (query_fails _).bind fun previous s₃ hprevious => ?_
  obtain ⟨rfl, rfl⟩ := query_eq_ok.mp hprevious
  rw [← hcentral] at hwell hsound hspaces hfresh hfits hrow
  rw [← hhost] at hfresh
  cases hfind : findIdempotencyKey s₂.central row.principalId (appendPath space) key with
  | some found => exact replayAppend_fails found
  | none =>
    refine storeAppend_fails hwell hsound hspaces hkey (fun row' hrow' hhash' => ?_) hfresh hfits
    rw [credential_of_hash hwell.tables.credentials hrow' hrow (hhash'.trans hhash.symm)]
    exact hfind

end Append

section Repetitions
variable {token space key hash : String} {input : RecordInput}

/-- What a new append does before it checks its request: the caller, the space and the key are
found, and every recipient is resolved. -/
def resolveAppend (P : Platform) (token space : String) (input : RecordInput) :
    Tx (List String) := do
  let actor ← journalActor P token
  permitted actor space true
  let _ ← cursorCodec P
  input.attention.mapM (resolveRecipient space)

/-- Recipients that resolve to one principal and a second reply-to are refused with nothing stored
but the cursor key. -/
theorem storeAppend_repeated (path key hash : String) {recipients : List String}
    (h : (resolveAppend P token space input).run s = .ok (recipients, t))
    (hrepeated : ¬recipients.Nodup ∨ 1 < replies input.relations) :
    (storeAppend P token space path key hash input).run s = .error .invalidJournal ∧
      t.central = { s.central with journalSecret := t.central.journalSecret } := by
  simp only [resolveAppend, run_bind_eq_ok] at h
  obtain ⟨actor, s₁, hactor, _, s₂, hpermitted, codec, s₃, hcodec, hrecipients⟩ := h
  have h₁ : s₁.central = s.central :=
    central_eq (fun c => journalActor_keeps (ofStore_central c) token) hactor
  have h₃ : t.central = s₃.central :=
    central_eq (fun _ => Keeps.mapM (resolveRecipient_keeps space) _) hrecipients
  obtain ⟨-, hcentral, -⟩ := cursorCodec_eq_ok hcodec
  obtain ⟨-, rfl⟩ := permitted_eq_ok.mp hpermitted
  have hinvalid : ∀ u,
    { input with attention := recipients, title := normalizeTitle input.title }.validate ≠
      .ok u := by
    intro u hok
    have hvalid := RecordInput.validate_eq_ok.mp hok
    rcases hrepeated with hrecipient | hreply
    · exact hrecipient hvalid.distinct
    · exact Nat.not_lt.mpr hvalid.replies hreply
  constructor
  · rw [storeAppend, run_bind_of_ok hactor, run_bind_of_ok hpermitted, run_bind_of_ok hcodec,
      run_bind_of_ok hrecipients]
    refine run_bind_of_error ?_
    split
    · exact absurd ‹_› (hinvalid _)
    · rfl
  · rw [h₃, hcentral, h₁]

/-- Relations that were stored one after the other have different keys. -/
theorem related_distinct {id now : String} {relations : List (Relation × ℕ)} {d : Central}
    (h : Rounds (Related id now) relations c d) :
    (∀ r ∈ relations, ∀ x ∈ c.recordRelations,
      Storage.recordRelations.key x ≠ Storage.recordRelations.key (relationRow id now r)) ∧
    relations.Pairwise fun a b => Storage.recordRelations.key (relationRow id now a) ≠
      Storage.recordRelations.key (relationRow id now b) := by
  induction h with
  | nil => exact ⟨by simp, .nil⟩
  | @cons r rest x y z hfirst _ ih =>
    obtain ⟨-, -, haccepts, -, rfl⟩ := Central.insertRecordRelation_eq_ok.mp hfirst
    obtain ⟨hrows, hrest⟩ := ih
    refine ⟨List.forall_mem_cons.mpr ⟨haccepts.key, fun q hq row hrow => ?_⟩,
      List.pairwise_cons.mpr ⟨fun q hq => ?_, hrest⟩⟩
    · exact hrows q hq row (List.mem_append_left _ hrow)
    · exact hrows q hq _ (List.mem_append_right _ (List.mem_singleton_self _))

/-- A new append stores no relation twice. -/
theorem storeAppend_nodup {path : String} {result : AppendResult}
    (h : (storeAppend P token space path key hash input).run s = .ok (result, t)) :
    input.relations.Nodup := by
  unfold storeAppend at h
  obtain ⟨_, _, -, h⟩ := run_bind_eq_ok.mp h
  obtain ⟨_, _, -, h⟩ := run_bind_eq_ok.mp h
  obtain ⟨_, _, -, h⟩ := run_bind_eq_ok.mp h
  obtain ⟨recipients, _, -, h⟩ := run_bind_eq_ok.mp h
  obtain ⟨_, _, -, h⟩ := run_bind_eq_ok.mp h
  obtain ⟨_, _, -, h⟩ := run_bind_eq_ok.mp h
  obtain ⟨seq, _, -, h⟩ := run_bind_eq_ok.mp h
  obtain ⟨_, _, -, h⟩ := run_bind_eq_ok.mp h
  obtain ⟨_, _, -, h⟩ := run_bind_eq_ok.mp h
  obtain ⟨_, _, -, h⟩ := run_bind_eq_ok.mp h
  obtain ⟨now, _, -, h⟩ := run_bind_eq_ok.mp h
  obtain ⟨id, _, -, h⟩ := run_bind_eq_ok.mp h
  obtain ⟨_, _, -, h⟩ := run_bind_eq_ok.mp h
  obtain ⟨_, _, -, h⟩ := run_bind_eq_ok.mp h
  obtain ⟨_, _, hrelations, -⟩ := run_bind_eq_ok.mp h
  obtain ⟨-, hdistinct⟩ :=
    related_distinct (forM_rounds (v := Session.central) (R := Related id now)
    (fun _ _ _ _ => storeRelation_eq_ok) _ hrelations)
  rw [← List.zipIdx_map_fst 0 input.relations, List.Nodup, List.pairwise_map]
  refine hdistinct.imp fun hapart heq => hapart ?_
  simp [Storage.recordRelations, relationRow, heq]

theorem replayAppend_replayed {row : IdempotencyKeyRow} {result : AppendResult}
    (h : (replayAppend P hash row).run s = .ok (result, t)) : result.replayed = true := by
  simp only [replayAppend, run_bind_eq_ok] at h
  obtain ⟨_, _, -, h⟩ := h
  split at h
  · simp only [run_bind_eq_ok, run_pure_eq_ok] at h
    obtain ⟨_, _, -, rfl, -⟩ := h
    rfl
  · simp only [run_bind_eq_ok, run_pure_eq_ok] at h
    obtain ⟨_, _, -, rfl, -⟩ := h
    rfl

end Repetitions

/-- In every served store an append that repeats no relation, reply-to aside, reports no conflict,
as long as the generated ids are fresh. Recipients that are, or resolve to, one principal and a
second reply-to are refused as an invalid request before any row is stored. A request that repeats a
relation is never stored. -/
theorem append_collides {token space key : String} {input : RecordInput} (hc : Served P c)
    (hfresh : FreshIds host c) :
    (Unrepeated input.relations →
      (appendRecord P token space key input).run (.start host c) ≠ .error .conflict) ∧
    (¬Unrepeated input.relations → ∀ result t,
      (appendRecord P token space key input).run (.start host c) = .ok (result, t) →
      result.replayed = true) ∧
    ∀ actor s recipients t, (appendReplayActor P token).run (.start host c) = .ok (actor, s) →
      findIdempotencyKey c actor (appendPath space) key = none →
      (resolveAppend P token space input).run s = .ok (recipients, t) →
      ¬recipients.Nodup ∨ 1 < replies input.relations →
      (appendRecord P token space key input).run (.start host c) = .error .invalidJournal ∧
        t.central = { c with journalSecret := t.central.journalSecret } := by
  have hspaces := (hc.invariant (sized_invariant P)).spaces
  refine ⟨fun hunrepeated herror => ?_, fun hrepeated result t hrun => ?_, ?_⟩
  · have hfails : Fails (Faults (¬(FreshIds host c ∧ Unrepeated input.relations)) True)
        (appendRecord P token space key input) (.start host c) :=
      appendRecord_fails hc.wellFormed hc.sound hspaces not_not.mp fun hfalse =>
        absurd trivial hfalse
    exact (hfails _ herror).1 rfl ⟨hfresh, hunrepeated⟩
  · simp only [appendRecord, run_bind_eq_ok] at hrun
    obtain ⟨_, _, -, _, _, -, previous, _, -, hrest⟩ := hrun
    cases previous with
    | some row => exact replayAppend_replayed hrest
    | none => exact absurd ((storeAppend_nodup hrest).sublist List.filter_sublist) hrepeated
  · intro actor s recipients t hactor hnone hresolve hrepeated
    have hcentral : s.central = c :=
      central_eq (fun c => appendReplayActor_keeps (ofStore_central c) token) hactor
    obtain ⟨hinvalid, hkeyed⟩ :=
      storeAppend_repeated (appendPath space) key (P.payloadHash input) hresolve
      hrepeated
    rw [hcentral] at hkeyed
    refine ⟨?_, hkeyed⟩
    by_cases hkey : ¬(1 ≤ charCount key ∧ charCount key ≤ 255)
    · exact run_bind_of_error (refuse_error hkey)
    · rw [appendRecord, run_bind_of_ok (refuse_pass hkey), run_bind_of_ok hactor,
        run_bind_of_ok (query_eq_ok.mpr ⟨by rw [hcentral, hnone], rfl⟩)]
      exact hinvalid

section Sample

/-- A host that draws eight different values. -/
def freshHost : Host :=
  ⟨fun _ => 0, fun i => if i < 8 then some (Vector.replicate 32 (UInt8.ofNat (100 + i))) else none,
    0, none⟩

/-- A record input that refers to one record twice. -/
def repeatingInput : RecordInput :=
  { sampleInput with relations := [⟨.refersTo, sampleTarget⟩, ⟨.refersTo, sampleTarget⟩] }

theorem freshHost_draw {i : ℕ} {bytes : Vector UInt8 32} (h : freshHost.random i = some bytes) :
    i < 8 ∧ bytes = Vector.replicate 32 (UInt8.ofNat (100 + i)) := by
  simp only [freshHost] at h
  split at h
  · exact ⟨‹_›, (Option.some.inj h).symm⟩
  · cases h

set_option maxRecDepth 20000 in
theorem freshHost_facts : (∀ i : Fin 8, sampleStore.hasRecord
      (uuidText (uuidBytes 0 (Vector.replicate 32 (UInt8.ofNat (100 + i))) 0)) = false) ∧
    ∀ i : Fin 8, (sampleStore.mailboxItems.any fun m => m.id =
      "item-" ++ hex (Vector.replicate 32 (UInt8.ofNat (100 + i))).toList) = false := by
        decide +kernel

theorem freshHost_fresh : FreshIds freshHost sampleStore where
  record i bytes n ms h hms := by
    obtain ⟨hi, rfl⟩ := freshHost_draw h
    obtain rfl : ms = 0 := (Except.ok.inj hms).symm
    exact freshHost_facts.1 ⟨i, hi⟩
  item i bytes h m hm := by
    obtain ⟨hi, rfl⟩ := freshHost_draw h
    simpa using List.any_eq_false.mp (freshHost_facts.2 ⟨i, hi⟩) m hm
  distinct i j bytes hi hj := by
    obtain ⟨hi, rfl⟩ := freshHost_draw hi
    obtain ⟨hj, heq⟩ := freshHost_draw hj
    have hbyte := congrArg (fun v => v[0].toNat) heq
    simp at hbyte
    omega

theorem sampleStore_served : Served .sample sampleStore := .of_content (.inr sampleStore_unadopted)

set_option maxRecDepth 20000 in
theorem repeatingInput_facts : succeeded repeatingInput.validate = some () ∧
    sampleStore.recordRelations = [] ∧
    refused ((appendRecord .sample sampleToken "lab" "again" repeatingInput).run
      (.start freshHost sampleStore)) = some .conflict := by decide +kernel

/-- A valid input with fresh ids, in a store without relations, is told of a conflict. -/
theorem repeated_relation_conflicts : Served .sample sampleStore ∧ FreshIds freshHost sampleStore ∧
    repeatingInput.validate = .ok () ∧ sampleStore.recordRelations = [] ∧
    (appendRecord .sample sampleToken "lab" "again" repeatingInput).run
    (.start freshHost sampleStore) =
      .error .conflict :=
  ⟨sampleStore_served, freshHost_fresh, succeeded_eq_some.mp repeatingInput_facts.1,
    repeatingInput_facts.2.1, refused_eq_some.mp repeatingInput_facts.2.2⟩

/-- One recipient by its handle and by its id. -/
def doubledInput : RecordInput := { relatedInput with attention := ["ada", samplePrincipal] }

/-- Two replies to one record. -/
def answeringInput : RecordInput :=
  { sampleInput with relations := [⟨.replyTo, sampleTarget⟩, ⟨.replyTo, sampleTarget⟩] }

/-- The recipients of a new append to the sample store. -/
def sampleRecipients (input : RecordInput) : Option (List String) := do
  let (actor, s) ← succeeded
    ((appendReplayActor .sample sampleToken).run (.start freshHost sampleStore))
  let (recipients, _) ← succeeded ((resolveAppend .sample sampleToken "lab" input).run s)
  if findIdempotencyKey sampleStore actor (appendPath "lab") "again" = none then some recipients
  else none

theorem sampleRecipients_eq_some {input : RecordInput} {recipients : List String}
    (h : sampleRecipients input = some recipients) :
    ∃ actor s t, (appendReplayActor .sample sampleToken).run (.start freshHost sampleStore) =
        .ok (actor, s) ∧
      findIdempotencyKey sampleStore actor (appendPath "lab") "again" = none ∧
      (resolveAppend .sample sampleToken "lab" input).run s = .ok (recipients, t) := by
  simp only [sampleRecipients, Option.bind_eq_bind, Option.bind_eq_some_iff, Prod.exists,
    succeeded_eq_some, Option.ite_none_right_eq_some, Option.some.injEq] at h
  obtain ⟨actor, s, hactor, _, t, hresolve, hnone, rfl⟩ := h
  exact ⟨actor, s, t, hactor, hnone, hresolve⟩

set_option maxRecDepth 20000 in
theorem sampleRecipients_facts :
    sampleRecipients doubledInput = some [samplePrincipal, samplePrincipal] ∧
    sampleRecipients answeringInput = some [samplePrincipal] := by decide +kernel

theorem append_collides_sample :
    (appendRecord .sample sampleToken "lab" "again" relatedInput).run
    (.start freshHost sampleStore) ≠
      .error .conflict ∧
    (appendRecord .sample sampleToken "lab" "again" doubledInput).run
    (.start freshHost sampleStore) =
      .error .invalidJournal ∧
    (appendRecord .sample sampleToken "lab" "again" answeringInput).run
    (.start freshHost sampleStore) =
      .error .invalidJournal := by
  obtain ⟨hdoubled, hanswering⟩ := sampleRecipients_facts
  obtain ⟨actor, s, t, hactor, hnone, hresolve⟩ := sampleRecipients_eq_some hdoubled
  obtain ⟨actor', s', t', hactor', hnone', hresolve'⟩ := sampleRecipients_eq_some hanswering
  refine ⟨(append_collides sampleStore_served freshHost_fresh).1
    (by simp [Unrepeated, relatedInput]), ?_, ?_⟩
  · exact ((append_collides sampleStore_served freshHost_fresh).2.2 actor s _ t hactor hnone
      hresolve
      (.inl (by simp))).1
  · exact ((append_collides sampleStore_served freshHost_fresh).2.2 actor' s' _ t' hactor' hnone'
      hresolve' (.inr (by decide))).1

end Sample

end AgentJournal.Service
