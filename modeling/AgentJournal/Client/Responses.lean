import AgentJournal.Client.Headers
import AgentJournal.Domain.Json
import AgentJournal.Service.Legal

/-! # The size of a response

The client reads a response up to a limit. A page of the service stays below it: every field of a
record is bounded before it is stored, and a page has a bounded number of records.
-/

namespace AgentJournal.Client
open Domain Foundation Storage Service

def maxResponse : ℕ := 64 * 1024 * 1024

/-- The body of a response, up to one byte above the limit. -/
def readBody (incoming : List UInt8) : Except TransportError (List UInt8) := do
  let body := incoming.take (maxResponse + 1)
  failIf (body.length > maxResponse) (.protocol "invalid HTTP transport configuration or response")
  return body

theorem readBody_eq_ok {incoming : List UInt8} (h : incoming.length ≤ maxResponse) :
    readBody incoming = .ok incoming := by
  have hall : incoming.take (maxResponse + 1) = incoming := List.take_of_length_le (by omega)
  simp only [readBody, hall, bind_eq_ok, failIf_eq_ok, pure_eq_ok]
  exact ⟨(), by omega, trivial⟩

/-- How long the texts of the libraries are. -/
structure WritesShort (P : Platform) (scoreText : Score → List Char) : Prop where
  time : ∀ seconds text, P.timestampText seconds = some text → charCount text ≤ 32
  score : ∀ score, utf8Bytes (scoreText score) ≤ 24

variable {P : Platform} {c : Central} {scoreText : Score → List Char}

section Fields

theorem size_str_le {text : String} {n : ℕ} (h : charCount text ≤ n) :
    (Json.str text).size ≤ 6 * n + 2 :=
  (size_str_chars text).trans (Nat.add_le_add_right (Nat.mul_le_mul_left 6 h) 2)

theorem size_identifier {id : String} (h : IsIdentifier id) :
    (Json.str id).size ≤ 770 := size_str_le h.2

theorem size_instant (hP : WritesShort P scoreText) {time : String} (h : IsInstant P time) :
    (Json.str time).size ≤ 194 := by
  obtain ⟨seconds, htext⟩ := h
  exact size_str_le (hP.time seconds time htext)

theorem size_seq {seq : ℤ} (h : 0 < seq ∧ seq < 2 ^ 63) : (Json.num seq).size ≤ 19 :=
  size_num h.1.le (by decide) (h.2.trans_le (by decide))

/-- An optional identifier may be empty. -/
theorem size_optional {value : Option String} (h : ∀ id ∈ value, id ≠ "" → IsIdentifier id) :
    ∀ id ∈ value, (Json.str id).size ≤ 770 := by
  intro id hid
  by_cases hempty : id = ""
  · rw [hempty]
    decide
  · exact size_identifier (h id hid hempty)

theorem size_relation {r : Relation} (h : IsIdentifier r.recordId) : r.toJson.size ≤ 1100 := by
  have htype : charCount r.relationType.asStr ≤ 12 := by
    cases r.relationType <;> decide
  have hmembers : membersSize
    [("type", .str r.relationType.asStr), ("record_id", .str r.recordId)] ≤
    94 + 74 + (94 + 770) := by
    rw [membersSize_cons, membersSize_cons, membersSize_nil]
    exact Nat.add_le_add (memberSize_le _ 15 (by decide) (size_str_le htype))
      (memberSize_le _ 15 (by decide) (size_identifier h))
  exact (size_obj _).trans ((Nat.add_le_add_right hmembers 2).trans (by decide))

end Fields

section Items

theorem size_attention {attention : List String}
    (hcount : attention.length ≤ maxAttentionRecipients)
    (h : ∀ p ∈ attention, IsIdentifier p) :
    (Json.arr (attention.map .str)).size ≤ 16 * 771 + 2 := by
  have hitems : ∀ j ∈ attention.map Json.str, j.size ≤ 770 := by
    intro j hj
    obtain ⟨p, hp, rfl⟩ := List.mem_map.mp hj
    exact size_identifier (h p hp)
  refine (size_arr_le hitems).trans (Nat.add_le_add_right ?_ 2)
  rw [List.length_map]
  exact Nat.mul_le_mul_right 771 hcount

theorem size_relations {relations : List Relation} (hcount : relations.length ≤ maxRelations)
    (h : ∀ r ∈ relations, IsIdentifier r.recordId) :
    (Json.arr (relations.map Relation.toJson)).size ≤ 32 * 1101 + 2 := by
  have hitems : ∀ j ∈ relations.map Relation.toJson, j.size ≤ 1100 := by
    intro j hj
    obtain ⟨r, hr, rfl⟩ := List.mem_map.mp hj
    exact size_relation (h r hr)
  refine (size_arr_le hitems).trans (Nat.add_le_add_right ?_ 2)
  rw [List.length_map]
  exact Nat.mul_le_mul_right 1101 hcount

/-- Every field at its bound, with its name. -/
theorem membersSize_record (hP : WritesShort P scoreText) {r : Record} (h : ShownRecord P r) :
    membersSize r.members ≤ 450000 := by
  have hinput := h.legal.input
  have hcontent : (Json.str r.content).size ≤ 6 * maxContentBytes + 2 :=
    (size_str_bytes _).trans (Nat.add_le_add_right (Nat.mul_le_mul_left 6
      ((utf8Bytes_toList r.content).trans_le hinput.contentBytes)) 2)
  have hattention : membersSize
    (if r.attention.isEmpty then [] else [("attention", Json.arr (r.attention.map .str))]) ≤
      94 + (16 * 771 + 2) := by
    split
    · exact Nat.zero_le _
    · rw [membersSize_cons, membersSize_nil]
      exact memberSize_le _ 15 (by decide) (size_attention hinput.attentionCount hinput.attention)
  have hrelations := memberSize_le "relations" 15 (by decide)
    (size_relations hinput.relationCount hinput.relations)
  have hrun := membersSize_optional "run_id" 15 (by decide) (size_optional hinput.runId)
  have hrouting :=
    membersSize_optional "routing_key" 15 (by decide) (size_optional hinput.routingKey)
  have htitle := membersSize_optional "title" 15 (by decide)
    fun t ht => size_str_le (h.legal.title t ht).1
  have hid := memberSize_le "id" 15 (by decide) (size_identifier h.legal.id)
  have hspace := memberSize_le "space_id" 15 (by decide) (size_identifier h.spaceId)
  have hseq := memberSize_le "seq" 15 (by decide) (size_seq h.seq)
  have hauthor := memberSize_le "author" 15 (by decide) (size_identifier h.author)
  have hkind := memberSize_le "kind" 15 (by decide) (size_identifier hinput.kind)
  have htext := memberSize_le "content" 15 (by decide) hcontent
  have hcreated := memberSize_le "created_at" 15 (by decide) (size_instant hP h.legal.createdAt)
  simp only [Record.members, membersSize_append, membersSize_cons, membersSize_nil]
  refine (Nat.add_le_add
    (Nat.add_le_add (Nat.add_le_add (Nat.add_le_add (Nat.add_le_add (Nat.add_le_add
    (Nat.add_le_add hid
      (Nat.add_le_add hspace (Nat.add_le_add hseq (Nat.add_le_add hauthor (Nat.add_le_add hkind
      (Nat.add_le_add_right htext 0)))))) hrun) (Nat.add_le_add_right hcreated 0)) hattention)
        hrouting)
    (Nat.add_le_add_right hrelations 0)) htitle).trans ?_
  decide

theorem size_record (hP : WritesShort P scoreText) {r : Record} (h : ShownRecord P r) :
    r.toJson.size ≤ 460000 :=
  (size_obj _).trans ((Nat.add_le_add_right (membersSize_record hP h) 2).trans (by decide))

theorem size_result (hP : WritesShort P scoreText) {r : SearchResult} (h : ShownRecord P r.record)
    (hsnippet : ∀ text ∈ r.snippet, charCount text ≤ 1024) :
    (r.toJson scoreText).size ≤ 460000 := by
  have hscore : (Json.real (scoreText r.score)).size ≤ 24 := by
    rw [Json.size, Json.text]
    exact hP.score r.score
  have hrecord := membersSize_record hP h
  have hmember := memberSize_le "score" 15 (by decide) hscore
  have hshown := membersSize_optional "snippet" 15 (by decide)
    fun text htext => size_str_le (hsnippet text htext)
  refine (size_obj _).trans ?_
  change membersSize _ + 2 ≤ _
  simp only [membersSize_append, membersSize_cons, membersSize_nil]
  refine (Nat.add_le_add_right
    (Nat.add_le_add (Nat.add_le_add hrecord (Nat.add_le_add_right hmember 0)) hshown) 2).trans ?_
  decide

theorem size_item (hP : WritesShort P scoreText) {item : InboxItem} (h : ShownItem P item) :
    item.toJson.size ≤ 460000 := by
  have hid := memberSize_le "inbox_item_id" 15 (by decide) (size_identifier h.id)
  have hrecipient := memberSize_le "recipient" 15 (by decide) (size_identifier h.recipient)
  have hseq := memberSize_le "seq" 15 (by decide) (size_seq h.seq)
  have hcreated := memberSize_le "created_at" 15 (by decide) (size_instant hP h.createdAt)
  have hacknowledged := memberSize_le "acknowledged_at" 15 (by decide)
    (size_option (fun time ht => size_instant hP (h.acknowledgedAt time ht)) (by decide))
  have hrecord : memberSize ("record", item.record.toJson) ≤ 94 + (450000 + 2) :=
    memberSize_le _ 15 (by decide)
    ((size_obj _).trans (Nat.add_le_add_right (membersSize_record hP h.record) 2))
  refine (size_obj _).trans ?_
  change membersSize _ + 2 ≤ _
  simp only [membersSize_cons, membersSize_nil]
  refine (Nat.add_le_add_right
    (Nat.add_le_add hid (Nat.add_le_add hrecipient (Nat.add_le_add hseq (Nat.add_le_add hcreated
    (Nat.add_le_add hacknowledged (Nat.add_le_add_right hrecord 0)))))) 2).trans ?_
  decide

end Items

section Pages
variable {α : Type}

theorem size_items {shown : α → Prop} {items : List α} {nextCursor : Option String}
    {itemJson : α → Json}
    (h : LegalPage shown items nextCursor) (hitem : ∀ x, shown x → (itemJson x).size ≤ 460000) :
    memberSize ("items", .arr (items.map itemJson)) ≤ 94 + (100 * 460001 + 2) := by
  have hitems : ∀ j ∈ items.map itemJson, j.size ≤ 460000 := by
    intro j hj
    obtain ⟨x, hx, rfl⟩ := List.mem_map.mp hj
    exact hitem x (h.items x hx)
  refine memberSize_le _ 15 (by decide) ((size_arr_le hitems).trans (Nat.add_le_add_right ?_ 2))
  rw [List.length_map]
  exact Nat.mul_le_mul_right 460001 h.count

theorem size_cursor {shown : α → Prop} {items : List α} {nextCursor : Option String}
    (h : LegalPage shown items nextCursor) :
    memberSize ("next_cursor", .option nextCursor) ≤ 94 + (6 * maxCursorChars + 2) := by
  refine memberSize_le _ 15 (by decide) (size_option (fun cursor hcursor => ?_) (by decide))
  exact (size_str_bytes cursor).trans (Nat.add_le_add_right (Nat.mul_le_mul_left 6
    ((utf8Bytes_toList cursor).trans_le (h.cursor cursor hcursor))) 2)

theorem size_page {shown : α → Prop} {page : Page α} {itemJson : α → Json}
    (h : LegalPage shown page.items page.nextCursor)
    (hitem : ∀ x, shown x → (itemJson x).size ≤ 460000) :
    (page.toJson itemJson).size ≤ maxResponse := by
  refine (size_obj _).trans ?_
  change membersSize _ + 2 ≤ _
  simp only [membersSize_cons, membersSize_nil]
  refine (Nat.add_le_add_right
    (Nat.add_le_add (size_items h hitem) (Nat.add_le_add_right (size_cursor h) 0)) 2).trans ?_
  decide

theorem size_searchPage {shown : SearchResult → Prop} {page : SearchPage}
    (h : LegalPage shown page.items page.nextCursor)
    (hitem : ∀ x, shown x → (x.toJson scoreText).size ≤ 460000) :
    (page.toJson scoreText).size ≤ maxResponse := by
  have horder : charCount page.order.asStr ≤ 4 := by
    cases page.order <;> decide
  have hconsistency : ∀ text ∈ page.consistency.map SearchConsistency.asStr, charCount text ≤
    13 := by
    intro text htext
    obtain ⟨consistency, -, rfl⟩ := Option.mem_map.mp htext
    cases consistency <;> decide
  have hmember := memberSize_le "order" 15 (by decide) (size_str_le horder)
  have hoption := membersSize_optional "consistency" 15 (by decide)
    fun text htext => size_str_le (hconsistency text htext)
  refine (size_obj _).trans ?_
  change membersSize _ + 2 ≤ _
  simp only [membersSize_append, membersSize_cons, membersSize_nil]
  refine (Nat.add_le_add_right
    (Nat.add_le_add (Nat.add_le_add (size_items h hitem) (Nat.add_le_add (size_cursor h)
    (Nat.add_le_add_right hmember 0))) hoption) 2).trans ?_
  decide

end Pages

section Routes

/-- The client reads the body of a value. -/
def Readable (value : Json) : Prop := readBody (jsonBytes value) = .ok (jsonBytes value)

theorem readable_of_size {value : Json} (h : value.size ≤ maxResponse) : Readable value :=
  readBody_eq_ok ((length_jsonBytes value).trans_le h)

/-- The page of a listing goes through a value of its own, which orders its members. -/
theorem readable_ordered {value : Json} (h : value.size ≤ maxResponse) : Readable value.ordered :=
  readable_of_size ((size_ordered value).trans_le h)

/-- The client reads every page of records, of search results, of a thread and of an inbox. -/
theorem pages_readable (hP : WritesShort P scoreText) {s : Session} (hc : Served P s.central) :
    (∀ identity space q codec page t, (listRecords P identity space q codec).run s = .ok (page, t) →
      Readable (page.toJson Record.toJson).ordered) ∧
    (∀ identity space q codec page t, (searchRecords P identity space q codec).run s =
      .ok (page, t) →
      Readable (page.toJson scoreText).ordered) ∧
    (∀ identity anchor q codec page t, (getThread P identity anchor q codec).run s = .ok (page, t) →
      Readable (page.toJson Record.toJson).ordered) ∧
    ∀ token q page t, (inbox P token q).run s = .ok (page, t) →
    Readable (page.toJson InboxItem.toJson) := by
  refine ⟨?_, ?_, ?_, ?_⟩
  · intro identity space q codec page t h
    exact readable_ordered (size_page (listRecords_legal hc h) fun r hr => size_record hP hr)
  · intro identity space q codec page t h
    exact readable_ordered
      (size_searchPage (searchRecords_legal hc h) fun r hr => size_result hP hr.1 hr.2)
  · intro identity anchor q codec page t h
    exact readable_ordered (size_page (getThread_legal hc h) fun r hr => size_record hP hr)
  · intro token q page t h
    exact readable_of_size (size_page (inbox_legal hc h) fun item hitem => size_item hP hitem)

/-- Every score of the sample platform is one. -/
theorem writesShort_sample : WritesShort .sample fun _ => ['1', '.', '0'] where
  time seconds text h := by
    have htext : (if seconds = 0 then some "1970-01-01T00:00:00Z" else none) = some text := h
    clear h
    split at htext
    · rw [← Option.some.inj htext]
      decide
    · cases htext
  score _ := by decide

set_option maxRecDepth 20000 in
theorem sampleInbox_read : ((succeeded ((inbox .sample sampleToken ⟨.all, ⟨none, none⟩, 0⟩).run
    (.start sampleHost sampleStore))).any fun x => x.1.items.length = 1) = true := by decide +kernel

theorem served_start (host : Host) (hc : Served P c) : Served P (Session.start host c).central := hc

theorem pages_readable_sample : ((succeeded ((inbox .sample sampleToken ⟨.all, ⟨none, none⟩, 0⟩).run
    (.start sampleHost sampleStore))).any fun x => x.1.items.length = 1) = true ∧
    ∀ page t, (inbox .sample sampleToken ⟨.all, ⟨none, none⟩, 0⟩).run
    (.start sampleHost sampleStore) = .ok (page, t) →
      Readable (page.toJson InboxItem.toJson) := by
  have hserved : Served .sample sampleStore := .of_content (.inr sampleStore_unadopted)
  have hread := (pages_readable writesShort_sample (served_start sampleHost hserved)).2.2.2
  exact ⟨sampleInbox_read, fun page t => hread sampleToken _ page t⟩

end Routes

end AgentJournal.Client
