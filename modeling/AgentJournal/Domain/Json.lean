import AgentJournal.Domain.Wire
import AgentJournal.Foundation.Json

/-! # The JSON of the wire types

What `serde` writes for the pages of the service. A missing option is left out, except where the
type asks for `null`.
-/

namespace AgentJournal.Domain
open Foundation

/-- `serde_json::to_vec`. -/
def jsonBytes (value : Json) : List UInt8 := asBytes (String.ofList value.text)

theorem length_jsonBytes (value : Json) : (jsonBytes value).length = value.size := by
  rw [jsonBytes, asBytes_ofList, Json.size, utf8Bytes, List.length_flatMap]
  congr 1
  exact List.map_congr_left fun c _ => String.length_utf8EncodeChar c

theorem utf8Bytes_toList (s : String) : utf8Bytes s.toList = s.utf8ByteSize := by
  have hsize : (asBytes s).length = s.utf8ByteSize := rfl
  rw [← hsize, ← String.ofList_toList (s := s), asBytes_ofList, String.toList_ofList, utf8Bytes,
    List.length_flatMap]
  congr 1
  exact (List.map_congr_left fun c _ => String.length_utf8EncodeChar c).symm

def Relation.toJson (r : Relation) : Json :=
  .obj [("type", .str r.relationType.asStr), ("record_id", .str r.recordId)]

def Record.members (r : Record) : List (String × Json) :=
  [("id", Json.str r.id), ("space_id", Json.str r.spaceId), ("seq", Json.num r.seq),
    ("author", Json.str r.author), ("kind", Json.str r.kind), ("content", Json.str r.content)] ++
      optionalMember "run_id" r.runId ++ [("created_at", Json.str r.createdAt)] ++
  (if r.attention.isEmpty then [] else [("attention", Json.arr (r.attention.map Json.str))]) ++
  optionalMember "routing_key" r.routingKey ++
  [("relations", Json.arr (r.relations.map Relation.toJson))] ++
  optionalMember "title" r.title

def Record.toJson (r : Record) : Json := .obj r.members

/-- The record is flattened. A score is finite, and written as the formatter does. -/
def SearchResult.toJson (scoreText : Score → List Char) (r : SearchResult) : Json :=
  .obj (r.record.members ++ [("score", Json.real (scoreText r.score))] ++
    optionalMember "snippet" r.snippet)

def InboxItem.toJson (item : InboxItem) : Json :=
  .obj [("inbox_item_id", .str item.inboxItemId), ("recipient", .str item.recipient),
    ("seq", .num item.seq), ("created_at", .str item.createdAt),
    ("acknowledged_at", .option item.acknowledgedAt), ("record", item.record.toJson)]

def Page.toJson {α : Type} (itemJson : α → Json) (page : Page α) : Json :=
  .obj [("items", .arr (page.items.map itemJson)), ("next_cursor", .option page.nextCursor)]

def SearchOrder.asStr : SearchOrder → String
  | .rank => "rank"
  | .seq => "seq"

def SearchConsistency.asStr : SearchConsistency → String
  | .bestEffort => "best-effort"
  | .deterministic => "deterministic"

def SearchPage.toJson (scoreText : Score → List Char) (page : SearchPage) : Json :=
  .obj ([("items", Json.arr (page.items.map (SearchResult.toJson scoreText))),
    ("next_cursor", Json.option page.nextCursor), ("order", Json.str page.order.asStr)] ++
      optionalMember "consistency" (page.consistency.map SearchConsistency.asStr))

end AgentJournal.Domain
