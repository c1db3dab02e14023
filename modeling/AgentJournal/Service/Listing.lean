import AgentJournal.Foundation.Paging
import AgentJournal.Service.Inbox
import Mathlib.Data.Prod.Lex
import Mathlib.Order.OrderDual

/-! # The listings of the service

Spaces, principals, records, search results and threads, each in pages that follow a cursor.
-/

namespace AgentJournal.Service
open Domain Foundation Storage

def threadMaxDepth : ℕ := 64
def threadMaxNodes : ℕ := 4096
def threadMaxEdges : ℕ := 8192

/-- The position of a record in its space. -/
def position (seq : ℤ) (id : String) : ℤ ×ₗ String := toLex (seq, id)

def RecordRow.position (r : RecordRow) : ℤ ×ₗ String := Service.position r.spaceSeq r.id

/-- `score DESC, id`. -/
def rankPosition (score : Score) (id : String) : ℤᵒᵈ ×ₗ String :=
  toLex (OrderDual.toDual score.scaled, id)

/-- A sequence without an index seek is compared as it is; beyond `i64` nothing is later. -/
def recordSequenceLowerBound (afterSeq : Option UInt64) (sequence : ℤ) : ℤ :=
  let after : ℕ := (afterSeq.getD 0).toNat
  max (if after < 2 ^ 63 then (after : ℤ) else 2 ^ 63 - 1) sequence

section Queries
variable (P : Platform) (c : Central)

def publicSpace (space : String) : Bool :=
  c.spaces.any fun s => s.id = space && s.access = .publicAccess

/-- Names win over ids, both only of active principals and in a public space. -/
def spacePrincipals (space selector : String) : List String :=
  if publicSpace c space then
    (c.principalNames.filter fun n => n.name = selector).flatMap (fun n =>
      (c.principals.filter fun p => p.id = n.principalId && p.disabledAt.isNone).map (·.id)) ++
    (c.principals.filter fun p => p.id = selector && p.disabledAt.isNone &&
      !(c.principalNames.any fun n => n.name = selector)).map (·.id)
  else []

/-- A selector that resolves to nobody filters everything out. -/
def resolveSpacePrincipal (space : String) (selector : Option String) : Option String :=
  selector.map fun selector => (spacePrincipals c space selector).head?.getD ""

def hasAttention (id recipient : String) : Bool :=
  c.attention.any fun a => a.recordId = id && a.recipientPrincipalId = recipient

def hasRelation (id : String) (relationType : RelationType) : Bool :=
  c.recordRelations.any fun r => r.sourceRecordId = id && r.relationType = relationType

/-- The filters of `list_records`. -/
def listed (space : String) (author attention kind : Option String)
    (relation : Option RelationType) (r : RecordRow) : Bool :=
  r.spaceId = space && author.all (fun a => r.authorPrincipalId = a) &&
    kind.all (fun k => r.kind = k) &&
    attention.all (hasAttention c r.id) && relation.all (hasRelation c r.id)

/-- `LIST_RECORD_IDS`. -/
def listRecordRows (filter : RecordRow → Bool) (lower sequence : ℤ) (id : String) (limit : ℕ) :
    List RecordRow :=
  firstRows RecordRow.position limit (c.records.filter fun r => filter r && lower < r.spaceSeq &&
    position sequence id < RecordRow.position r)

def spaceRows (after : String) (limit : ℕ) : List SpaceRow :=
  firstRows SpaceRow.id limit (c.spaces.filter fun s => s.access = .publicAccess && after < s.id)

/-- Active principals with their current names. -/
def activePrincipals : List Principal :=
  (c.principals.filter fun p => p.disabledAt.isNone).flatMap fun p =>
    (c.principalNames.filter fun n => n.principalId = p.id && n.kind = .current).map fun n =>
      ⟨p.id, n.name, p.displayName, p.description, p.profileRevision, p.createdAt, false⟩

def principalRows (after : String) (limit : ℕ) : List Principal :=
  firstRows Principal.id limit ((activePrincipals c).filter fun p => after < p.id)

/-- A match of a search: its row in the index and its record. -/
structure Match where
  fts : FtsRow
  row : RecordRow
deriving DecidableEq, Repr

/-- The matching records of a space that pass the filters, joined on the record id. -/
def searchFiltered (space : String) (matched : String → Bool) (author attention : Option String)
    (since : Option ℤ) : List Match :=
  (c.recordsFts.filter fun f => matched f.content).flatMap fun f =>
    (c.records.filter fun r => r.id = f.recordId && r.spaceId = space &&
      author.all (fun a => r.authorPrincipalId = a) && attention.all (hasAttention c r.id) &&
      since.all fun bound => (P.unixepoch r.createdAt).any fun time => bound ≤ time).map (⟨f, ·⟩)

/-- `SEARCH_FROM`: an active reader in a public space. -/
def searchMatches (actor space : String) (matched : String → Bool)
    (author attention : Option String)
    (since : Option ℤ) : List Match :=
  if (c.principals.any fun p => p.id = actor && p.disabledAt.isNone) && publicSpace c space then
    searchFiltered P c space matched author attention since
  else []

def matchScore (q : String) (m : Match) : Score := P.ftsScore q m.fts.content

def sequenceRows (found : List Match) (sequence : ℤ) (limit : ℕ) : List Match :=
  firstRows (fun m => RecordRow.position m.row) limit
    (found.filter fun m => sequence < m.row.spaceSeq)

def rankRows (q : String) (found : List Match) (score : Score) (id : String) (limit : ℕ) :
    List Match :=
  firstRows (fun m => rankPosition (matchScore P q m) m.row.id) limit
    (found.filter fun m => rankPosition score id < rankPosition (matchScore P q m) m.row.id)

end Queries

section Threads
variable (c : Central) (space : String)

/-- The parent of a reply, when it is in the same space. -/
def parentOf (id : String) : Option String :=
  (c.recordRelations.find? fun r => r.sourceRecordId = id && r.relationType = .replyTo &&
    c.records.any fun t => t.id = r.targetRecordId && t.spaceId = space).map (·.targetRecordId)

/-- The replies to a record in its space, in id order. -/
def repliesTo (id : String) : List String :=
  sortTexts
    ((c.recordRelations.filter fun r => r.targetRecordId = id && r.relationType = .replyTo &&
    c.records.any fun t => t.id = r.sourceRecordId && t.spaceId = space).map (·.sourceRecordId))

section Bounded
variable (maxDepth maxNodes maxEdges : ℕ)

/-- The ascent to the root. Every round adds an ancestor, so `fuel` rounds beyond the node bound
are never used. -/
def ascend : ℕ → String → List String → ℕ → Except BootstrapError (String × ℕ)
  | 0, _, _, _ => .error .invalidJournal
  | fuel + 1, root, ancestors, edges => do
    failIf (root ∈ ancestors) .corruptJournal
    failIf (ancestors.length + 1 > maxNodes) .invalidJournal
    match parentOf c space root with
    | none => .ok (root, edges)
    | some parent =>
      failIf (ancestors.length + 1 > maxDepth ∨ edges + 1 > maxEdges) .invalidJournal
      ascend fuel parent (root :: ancestors) (edges + 1)

/-- The root of a thread, the edges on the way to it and whether it is a root of its own. -/
def threadRootId (anchor : String) : Except BootstrapError (String × ℕ × Bool) := do
  let (root, edges) ← ascend c space maxDepth maxNodes maxEdges (maxNodes + 1) anchor [] 0
  return (root, edges, !hasRelation c root .replyTo)

/-- The descent from the root. The last reply is visited first. -/
def descend : ℕ → List (String × ℕ) → List String → ℕ → List (ℤ × String) →
    Except BootstrapError (List (ℤ × String))
  | _, [], _, _, result => .ok result
  | 0, _ :: _, _, _, _ => .error .invalidJournal
  | fuel + 1, (id, depth) :: pending, seen, edges, result => do
    failIf (id ∈ seen) .corruptJournal
    failIf (seen.length + 1 > maxNodes ∨ depth > maxDepth) .invalidJournal
    let row ← required (c.records.find? fun r => r.id = id && r.spaceId = space)
      (.sqlite .queryReturnedNoRows)
    let remaining := min (maxNodes - (seen.length + 1) - pending.length) (maxEdges - edges)
    let children := (repliesTo c space id).take (remaining + 1)
    failIf (children.length > remaining ∨ (depth = maxDepth ∧ children ≠ [])) .invalidJournal
    descend fuel ((children.map fun child => (child, depth + 1)).reverse ++ pending) (id :: seen)
      (edges + children.length) (result ++ [(row.spaceSeq, id)])

def threadIds (anchor : String) : Except BootstrapError (List (ℤ × String)) := do
  let (root, edges, _) ← threadRootId c space maxDepth maxNodes maxEdges anchor
  descend c space maxDepth maxNodes maxEdges (maxNodes + 1) [(root, 0)] [] edges []

end Bounded

/-- The sorted part of a thread after a position. -/
def threadRows (ids : List (ℤ × String)) (after : ℤ × String) (limit : ℕ) : List (ℤ × String) :=
  firstRows (fun x => position x.1 x.2) limit
    (ids.filter fun x => position after.1 after.2 < position x.1 x.2)

end Threads

section Positions
variable (P : Platform) (codec : CursorCodec) (scope : CursorScope)

/-- The decoded cursor of a page query; an empty cursor is none. -/
def cursorPosition (page : PageQuery) : Tx (Option CursorPosition) :=
  match continuation page with
  | none => return none
  | some cursor => do
    let position ← okOr (succeeded (codec.decode P scope cursor)) .invalidJournal
    return some position

def identifierOf : Option CursorPosition → Option String
  | none => some ""
  | some (.identifier id) => some id
  | _ => none

/-- A sequence position; `i64::try_from` refuses larger sequences. -/
def sequenceOf : Option CursorPosition → Option (ℤ × String)
  | none => some (0, "")
  | some (.sequence sequence id) => if sequence < 2 ^ 63 then some (sequence, id) else none
  | _ => none

/-- The sequence, score and id a search goes on from. -/
def searchPosition : Option CursorPosition → Option (ℤ × Score × String)
  | none => some (0, .max, "")
  | some (.sequence sequence id) => if sequence < 2 ^ 63 then some (sequence, .zero, id) else none
  | some (.rank bits id) => (Score.fromBits bits).map fun score => (0, score, id)
  | _ => none

def identifierPosition (page : PageQuery) : Tx String := do
  let position ← cursorPosition P codec scope page
  okOr (identifierOf position) .invalidJournal

def sequencePosition (page : PageQuery) : Tx (ℤ × String) := do
  let position ← cursorPosition P codec scope page
  okOr (sequenceOf position) .invalidJournal

end Positions

section Routes
variable (P : Platform)

/-- The codec of a paged read, from a transaction of its own before the snapshot opens. -/
def pagedCodec (identity : ReadIdentity) (space : Option String) : Tx CursorCodec := do
  let stored ← query (·.journalSecret)
  match stored with
  | some secret => okOr (succeeded (CursorCodec.new P secret)) .corruptJournal
  | none => initializeCursorKey P identity space

def spaceOf (row : SpaceRow) : Space :=
  ⟨row.id, row.name, row.access, row.archivedAt, row.createdAt⟩

/-- `space`, by id. -/
def findSpace (id : String) : Tx Space := do
  let row ← queryRow fun c => c.spaces.find? fun s => s.id = id
  return spaceOf row

def listSpaces (identity : ReadIdentity) (page : PageQuery) (codec : CursorCodec) :
    Tx (Page Space) := do
  validated page.validate
  let actor ← readActor P identity
  let scope := CursorScope.new P .spaces (P.spacesFilterJson actor) .identifier
  let after ← identifierPosition P codec scope page
  let rows ← query fun c => spaceRows c after (page.effectiveLimit + 1)
  let items ← rows.mapM fun row => findSpace row.id
  finishPage P items page codec scope fun s => .identifier s.id

def listPrincipals (token : String) (q : ListPrincipalsQuery) (codec : CursorCodec) :
    Tx (Page Principal) := do
  validated q.validate
  let actor ← journalActor P token
  permitted actor q.space false
  let scope := CursorScope.new P .principals (P.principalsFilterJson actor q.space) .identifier
  let after ← identifierPosition P codec scope q.page
  let items ← query fun c => principalRows c after (q.page.effectiveLimit + 1)
  finishPage P items q.page codec scope fun p => .identifier p.id

def listRecords (identity : ReadIdentity) (space : String) (q : ListRecordsQuery)
    (codec : CursorCodec) : Tx (Page Record) := do
  validated q.validate
  let actor ← readActor P identity
  permitted actor space false
  let author ← query fun c => resolveSpacePrincipal c space q.author
  let attention ← query fun c => resolveSpacePrincipal c space q.attention
  let scope :=
    CursorScope.new P .records (P.recordsFilterJson actor space (q.afterSeq.getD 0) author
    attention q.kind q.relation) .sequence
  let (sequence, id) ← sequencePosition P codec scope q.page
  let lower := recordSequenceLowerBound q.afterSeq sequence
  let rows ← query fun c =>
    listRecordRows c (listed c space author attention q.kind q.relation) lower
    sequence id (q.page.effectiveLimit + 1)
  let items ← rows.mapM fun row => record row.id
  finishPage P items q.page codec scope fun r => .sequence r.seq.toNat r.id

def getThread (identity : ReadIdentity) (id : String) (page : PageQuery) (codec : CursorCodec) :
    Tx (Page Record) := do
  validated page.validate
  let actor ← readActor P identity
  let row ← query fun c => c.findRecord id
  let row ← okOr row .notFound
  permitted actor row.spaceId false
  let scope := CursorScope.new P .recordThread (P.threadFilterJson actor id) .sequence
  let after ← sequencePosition P codec scope page
  let ids ← query fun c => threadIds c row.spaceId threadMaxDepth threadMaxNodes threadMaxEdges id
  let ids ← attempt ids
  let items ← (threadRows ids after (page.effectiveLimit + 1)).mapM fun x => record x.2
  finishPage P items page codec scope fun r => .sequence r.seq.toNat r.id

/-- Whole seconds, rounded up. -/
def sinceSeconds (since : String) : Except BootstrapError ℤ := do
  let nanos ← required (P.parseTimestamp since) .invalidJournal
  let seconds := nanos / 10 ^ 9 + (if nanos % 10 ^ 9 ≠ 0 then 1 else 0)
  failIf (¬(-2 ^ 63 ≤ seconds ∧ seconds < 2 ^ 63)) .invalidJournal
  return seconds

def searchSince : Option String → Except BootstrapError (Option ℤ)
  | none => .ok none
  | some since => some <$> sinceSeconds P since

def cursorOrder : SearchOrder → CursorOrder
  | .rank => .rank
  | .seq => .sequence

def renderMatch (q : String) (m : Match) : Tx SearchResult := do
  let record ← record m.row.id
  return ⟨record, matchScore P q m,
    some (String.ofList ((P.ftsSnippet q m.fts.content).toList.take 1024))⟩

def searchRows (order : SearchOrder) (q : String) (found : List Match) (sequence : ℤ)
    (score : Score)
    (id : String) (limit : ℕ) : List Match :=
  match order with
  | .rank => rankRows P q found score id limit
  | .seq => sequenceRows found sequence limit

def searchRecords (identity : ReadIdentity) (space : String) (q : SearchRecordsQuery)
    (codec : CursorCodec) : Tx SearchPage := do
  validated (q.validate P.parseTimestamp)
  let actor ← readActor P identity
  permitted actor space false
  let since ← attempt (searchSince P q.since)
  let author ← query fun c => resolveSpacePrincipal c space q.author
  let attention ← query fun c => resolveSpacePrincipal c space q.attention
  let scope := CursorScope.new P .search
    (P.searchFilterJson actor space q.q author attention q.since) (cursorOrder q.order)
  let position ← cursorPosition P codec scope q.page
  let (sequence, score, id) ← okOr (searchPosition position) .invalidJournal
  let matched ← okOr (P.ftsQuery q.q) .invalidJournal
  let found ← query fun c => searchMatches P c actor space matched author attention since
  let items ← (searchRows P q.order q.q found sequence score id
    (q.page.effectiveLimit + 1)).mapM (renderMatch P q.q)
  let page ← finishPage P items q.page codec scope fun r => match q.order with
    | .rank => .rank r.score.bits r.record.id
    | .seq => .sequence r.record.seq.toNat r.record.id
  return ⟨page.items, page.nextCursor, q.order, some (match q.order with
    | .rank => .bestEffort
    | .seq => .deterministic)⟩

end Routes
end AgentJournal.Service
