import AgentJournal.Service.Records

/-! # The durable inbox -/

namespace AgentJournal.Service
open Domain Foundation Storage

def stateMatches : InboxState → MailboxItemRow → Bool
  | .unacknowledged, m => m.acknowledgedAt.isNone
  | .acknowledged, m => m.acknowledgedAt.isSome
  | .all, _ => true

section Queries
variable (c : Central)

/-- `coalesce(max(recipient_seq),0)` of one recipient. -/
def newestItem (recipient : String) : ℤ :=
  ((c.mailboxItems.filter fun m => m.recipientPrincipalId = recipient).map
    (·.recipientSeq)).foldl max 0

/-- The page of a recipient's items above `after` and up to `upper`, in sequence order. -/
def inboxRows (recipient : String) (state : InboxState) (after upper : ℤ) (limit : ℕ) :
    List MailboxItemRow :=
  ((c.mailboxItems.filter fun m => m.recipientPrincipalId = recipient &&
    (after < m.recipientSeq && m.recipientSeq ≤ upper) && stateMatches state m &&
    c.records.any fun r => r.id = m.recordId && c.spaces.any fun s => s.id = r.spaceId &&
      s.access = .publicAccess).insertionSort
    fun a b => a.recipientSeq ≤ b.recipientSeq).take limit

/-- The space of a recipient's item. -/
def itemSpace (item recipient : String) : Option String := do
  let m ← c.mailboxItems.find? fun m => m.id = item && m.recipientPrincipalId = recipient
  let r ← c.findRecord m.recordId
  return r.spaceId

end Queries

section Operations
variable (P : Platform)

/-- The cursor scope of one principal, state filter and inbox epoch. -/
def inboxScope (actor : String) (state : InboxState) (epoch : ℤ) : CursorScope :=
  .new P .inbox (P.inboxFilterJson actor state epoch) .boundedSequence

/-- An empty cursor is no cursor. -/
def continuation (page : PageQuery) : Option String := page.cursor.filter (· ≠ "")

def boundedPosition : CursorPosition → Option (ℤ × ℤ)
  | .boundedSequence sequence upper =>
    if sequence ≤ upper ∧ upper ≤ 2 ^ 63 - 1 then some (sequence, upper) else none
  | _ => none

/-- Where the page starts and the newest sequence it may show. -/
def inboxBounds (codec : CursorCodec) (scope : CursorScope) (actor : String) :
    Option String → Tx (ℤ × ℤ)
  | some cursor => do
    let position ← okOr (succeeded (codec.decode P scope cursor)) .invalidJournal
    okOr (boundedPosition position) .invalidJournal
  | none => do
    let upper ← query fun c => newestItem c actor
    return (0, upper)

def inboxItem (actor : String) (m : MailboxItemRow) : Tx InboxItem := do
  let record ← record m.recordId
  return ⟨m.id, actor, m.recipientSeq, m.createdAt, m.acknowledgedAt, record⟩

def finishPage {α : Type} (items : List α) (page : PageQuery) (codec : CursorCodec)
    (scope : CursorScope) (position : α → CursorPosition) : Tx (Page α) :=
  if page.effectiveLimit < items.length then do
    let shown := items.take page.effectiveLimit
    let last ← okOr shown.getLast? .corruptJournal
    let cursor ← okOr (succeeded (codec.encode P scope (position last))) .corruptJournal
    return ⟨shown, some cursor⟩
  else return ⟨items, none⟩

/-- Without a key there is no item yet and no cursor can have been issued. -/
def keylessInbox (page : PageQuery) : Tx (Page InboxItem) := do
  refuse (continuation page ≠ none) .invalidJournal
  let any ← query fun c => !c.mailboxItems.isEmpty
  refuse (any = true) .corruptJournal
  return ⟨[], none⟩

def keyedInbox (secret : List UInt8) (actor : String) (epoch : ℤ) (q : InboxQuery) :
    Tx (Page InboxItem) := do
  let codec ← okOr (succeeded (CursorCodec.new P secret)) .corruptJournal
  let scope := inboxScope P actor q.state epoch
  let (after, upper) ← inboxBounds P codec scope actor (continuation q.page)
  let rows ← query fun c => inboxRows c actor q.state after upper (q.page.effectiveLimit + 1)
  let items ← rows.mapM (inboxItem actor)
  finishPage P items q.page codec scope fun item => .boundedSequence item.seq.toNat upper.toNat

def inbox (token : String) (q : InboxQuery) : Tx (Page InboxItem) := do
  validated q.validate
  let actor ← journalActor P token
  let epoch ← query fun c => c.recoveryAnchor.inboxEpoch
  let secret ← query fun c => c.journalSecret
  match secret with
  | none => keylessInbox q.page
  | some secret => keyedInbox P secret actor epoch q

def acknowledgeInboxItem (token item : String) : Tx Unit := do
  validated (liftDomain (validateIdentifier "item_id" item))
  let actor ← journalActor P token
  let space ← query fun c => itemSpace c item actor
  let space ← okOr space .notFound
  permitted actor space false
  let now ← now P
  let _ ← execute (fun c => (c.acknowledgeMailboxItem item now).1) fun c =>
    .ok (c.acknowledgeMailboxItem item now).2
  checkpoint "inbox-acknowledged"

end Operations
end AgentJournal.Service
