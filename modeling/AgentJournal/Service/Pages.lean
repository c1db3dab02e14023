import AgentJournal.Foundation.Paging
import AgentJournal.Service.Store

/-! # What a page of the inbox shows

A successful fetch shows the first rows of its window in sequence order, and issues a cursor
exactly when the window goes on.
-/

namespace AgentJournal.Service
open Domain Foundation Storage Recovery

variable {P : Platform} {c : Central}

/-- The item of a mailbox row. -/
def Shows (c : Central) (actor : String) (m : MailboxItemRow) (item : InboxItem) : Prop :=
  item.inboxItemId = m.id ∧ item.recipient = actor ∧ item.seq = m.recipientSeq ∧
    item.createdAt = m.createdAt ∧ item.acknowledgedAt = m.acknowledgedAt ∧
    recordOf c m.recordId = some item.record

/-- The codec of the key that a store keeps. -/
def KeyedBy (P : Platform) (c : Central) (codec : CursorCodec) : Prop :=
  ∃ secret, c.journalSecret = some secret ∧ CursorCodec.new P secret = .ok codec

theorem keyedBy_of_secret (hc : WellFormed P c) {secret : List UInt8}
    (h : c.journalSecret = some secret) :
    KeyedBy P c ⟨P.sha256 secret⟩ := by
  have hlength := hc.tables.journalSecret secret h
  exact ⟨secret, h, by simp [CursorCodec.new, failIf, hlength, minKeyBytes]⟩

/-- One page over the window `(after, upper]` of a recipient. -/
structure InboxPage (P : Platform) (c : Central) (actor : String) (q : InboxQuery)
    (page : Page InboxItem) (after upper : ℤ) : Prop where
  limit : 1 ≤ q.page.effectiveLimit
  bounds : (continuation q.page = none ∧ after = 0 ∧ upper = newestItem c actor) ∨
    ∃ cursor codec position, continuation q.page = some cursor ∧ KeyedBy P c codec ∧
      CursorCodec.decode P codec (inboxScope P actor q.state c.recoveryAnchor.inboxEpoch) cursor =
        .ok position ∧ boundedPosition position = some (after, upper)
  items : List.Forall₂ (Shows c actor)
    (inboxRows c actor q.state after upper q.page.effectiveLimit) page.items
  next : (page.nextCursor = none ∧
      inboxRows c actor q.state after upper (q.page.effectiveLimit + 1) =
        inboxRows c actor q.state after upper q.page.effectiveLimit) ∨
    ∃ cursor codec last, page.nextCursor = some cursor ∧ KeyedBy P c codec ∧
      page.items.getLast? = some last ∧
      (inboxRows c actor q.state after upper (q.page.effectiveLimit + 1)).length =
        q.page.effectiveLimit + 1 ∧
      CursorCodec.encode P codec (inboxScope P actor q.state c.recoveryAnchor.inboxEpoch)
        (.boundedSequence last.seq.toNat upper.toNat) = .ok cursor

section Fetch
variable {token : String} {q : InboxQuery} {s t : Session} {page : Page InboxItem}

theorem limit_of_validate {q : InboxQuery} (h : q.validate = .ok ()) :
    1 ≤ q.page.effectiveLimit := by
  simp only [InboxQuery.validate, PageQuery.validate, bind_eq_ok] at h
  obtain ⟨_, ⟨_, -, hlimit⟩, -⟩ := h
  by_contra hnot
  simp [liftDomain, validatePageSize, failIf, hnot] at hlimit

theorem inboxItem_eq_ok {actor : String} {m : MailboxItemRow} {item : InboxItem}
    (h : (inboxItem actor m).run s = .ok (item, t)) : t = s ∧ Shows s.central actor m item := by
  simp only [inboxItem, record, okOr, run_bind_eq_ok, query_eq_ok, attempt_eq_ok, required_eq_ok,
    run_pure_eq_ok] at h
  obtain ⟨r, _, ⟨_, _, ⟨rfl, rfl⟩, hr, rfl⟩, rfl, rfl⟩ := h
  exact ⟨rfl, rfl, rfl, rfl, rfl, rfl, hr⟩

theorem inboxRows_take (c : Central) (actor : String) (state : InboxState) (after upper : ℤ)
    (n : ℕ) : (inboxRows c actor state after upper (n + 1)).take n =
      inboxRows c actor state after upper n := by
  unfold inboxRows
  rw [List.take_take, Nat.min_eq_left (Nat.le_succ n)]

theorem inboxRows_length_le (c : Central) (actor : String) (state : InboxState) (after upper : ℤ)
    (n : ℕ) : (inboxRows c actor state after upper n).length ≤ n := List.length_take_le _ _

theorem inboxRows_of_empty (hc : c.mailboxItems = []) (actor : String) (state : InboxState)
    (after upper : ℤ) (n : ℕ) : inboxRows c actor state after upper n = [] := by
  simp [inboxRows, hc]

/-- A page shows the first rows of its window and continues when there are more. -/
theorem finishPage_eq_ok {ρ α : Type} {R : ρ → α → Prop} {w : ℕ → List ρ} {items : List α}
    {r : PageQuery} {codec : CursorCodec} {scope : CursorScope} {position : α → CursorPosition}
    {page : Page α} (hrows : (w (r.effectiveLimit + 1)).take r.effectiveLimit = w r.effectiveLimit)
    (hlength : (w (r.effectiveLimit + 1)).length ≤ r.effectiveLimit + 1)
    (hitems : List.Forall₂ R (w (r.effectiveLimit + 1)) items)
    (h : (finishPage P items r codec scope position).run s = .ok (page, t)) :
    List.Forall₂ R (w r.effectiveLimit) page.items ∧
      ((page.nextCursor = none ∧ w (r.effectiveLimit + 1) = w r.effectiveLimit) ∨
        ∃ cursor last, page.nextCursor = some cursor ∧ page.items.getLast? = some last ∧
          (w (r.effectiveLimit + 1)).length = r.effectiveLimit + 1 ∧
          codec.encode P scope (position last) = .ok cursor) := by
  unfold finishPage at h
  split at h
  · rename_i hlonger
    simp only [okOr, run_bind_eq_ok, attempt_eq_ok, run_pure_eq_ok, required_eq_ok,
      succeeded_eq_some] at h
    obtain ⟨last, _, ⟨hlast, -⟩, cursor, _, ⟨hencode, -⟩, rfl, -⟩ := h
    rw [← hitems.length_eq] at hlonger
    refine ⟨?_, .inr ⟨cursor, last, rfl, hlast, by omega, hencode⟩⟩
    rw [← hrows]
    exact List.forall₂_take _ hitems
  · rename_i hshort
    obtain ⟨rfl, -⟩ := run_pure_eq_ok.mp h
    rw [← hitems.length_eq] at hshort
    have hall : w (r.effectiveLimit + 1) = w r.effectiveLimit := by
      rw [← hrows, List.take_of_length_le (by omega)]
    exact ⟨hall ▸ hitems, .inl ⟨rfl, hall⟩⟩

theorem inbox_page (h : (inbox P token q).run s = .ok (page, t)) :
    ∃ actor s', (journalActor P token).run s = .ok (actor, s') ∧
      ∃ after upper, InboxPage P s.central actor q page after upper := by
  simp only [inbox, run_bind_eq_ok, query_eq_ok, validated_eq_ok] at h
  obtain ⟨_, _, ⟨hvalid, rfl⟩, actor, s₂, hactor, _, _, ⟨rfl, rfl⟩, _, _, ⟨rfl, rfl⟩, h⟩ := h
  have hcentral : s₂.central = s.central :=
    central_eq (fun c => journalActor_keeps (ofStore_central c) token) hactor
  have hlimit := limit_of_validate hvalid
  refine ⟨actor, s₂, hactor, ?_⟩
  rw [hcentral] at h
  cases hsecret : s.central.journalSecret with
  | none =>
    rw [hsecret] at h
    simp only [keylessInbox, refuse, run_bind_eq_ok, attempt_eq_ok, query_eq_ok, run_pure_eq_ok,
      failIf_eq_ok, not_not] at h
    obtain ⟨_, _, ⟨hnone, rfl⟩, _, _, ⟨rfl, rfl⟩, _, _, ⟨hempty, -⟩, rfl, -⟩ := h
    have hitems : s.central.mailboxItems = [] := by
      rw [hcentral] at hempty
      simpa using hempty
    refine ⟨0, newestItem s.central actor, hlimit, .inl ⟨hnone, rfl, rfl⟩, ?_, .inl ⟨rfl, ?_⟩⟩
    · rw [inboxRows_of_empty hitems]
      exact .nil
    · rw [inboxRows_of_empty hitems, inboxRows_of_empty hitems]
  | some secret =>
    rw [hsecret] at h
    simp only [keyedInbox, okOr, run_bind_eq_ok, attempt_eq_ok, query_eq_ok, required_eq_ok,
      succeeded_eq_some] at h
    obtain ⟨codec, _, ⟨hcodec, rfl⟩, ⟨after, upper⟩, s₃, hbounds, _, _, ⟨rfl, rfl⟩, items, s₄,
      hitems, h⟩ := h
    have hkey : KeyedBy P s.central codec := ⟨secret, hsecret, hcodec⟩
    obtain ⟨hcentral₃, hwindow⟩ : s₃.central = s.central ∧
        ((continuation q.page = none ∧ after = 0 ∧ upper = newestItem s.central actor) ∨
        ∃ cursor codec position, continuation q.page = some cursor ∧ KeyedBy P s.central codec ∧
          CursorCodec.decode P codec
            (inboxScope P actor q.state s.central.recoveryAnchor.inboxEpoch) cursor = .ok position ∧
          boundedPosition position = some (after, upper)) := by
      cases hcontinuation : continuation q.page with
      | none =>
        rw [hcontinuation] at hbounds
        simp only [inboxBounds, run_bind_eq_ok, query_eq_ok, run_pure_eq_ok,
          Prod.mk.injEq] at hbounds
        obtain ⟨_, _, ⟨rfl, rfl⟩, ⟨rfl, rfl⟩, rfl⟩ := hbounds
        exact ⟨hcentral, .inl ⟨rfl, rfl, by rw [hcentral]⟩⟩
      | some cursor =>
        rw [hcontinuation] at hbounds
        simp only [inboxBounds, okOr, run_bind_eq_ok, attempt_eq_ok, required_eq_ok,
          succeeded_eq_some] at hbounds
        obtain ⟨position, _, ⟨hdecode, rfl⟩, hposition, rfl⟩ := hbounds
        exact ⟨hcentral, .inr ⟨cursor, codec, position, rfl, hkey, hdecode, hposition⟩⟩
    obtain ⟨rfl, hshown⟩ := mapM_reads (fun m s item t => inboxItem_eq_ok) _ hitems
    rw [hcentral₃] at hshown
    obtain ⟨hpage, hnext⟩ := finishPage_eq_ok
      (w := inboxRows s.central actor q.state after upper) (inboxRows_take ..)
      (inboxRows_length_le ..) hshown h
    refine ⟨after, upper, hlimit, hwindow, hpage, hnext.imp_right ?_⟩
    rintro ⟨cursor, last, hcursor, hlast, hlength, hencode⟩
    exact ⟨cursor, codec, last, hcursor, hkey, hlast, hlength, hencode⟩

end Fetch

section Bounds
variable {actor : String} {q : InboxQuery} {page : Page InboxItem} {after upper : ℤ}

theorem mem_inboxRows {state : InboxState} {n : ℕ} {m : MailboxItemRow}
    (h : m ∈ inboxRows c actor state after upper n) : m ∈ c.mailboxItems ∧
      m.recipientPrincipalId = actor ∧ after < m.recipientSeq ∧ m.recipientSeq ≤ upper ∧
      stateMatches state m = true := by
  have hmem := (List.perm_insertionSort _ _).mem_iff.mp (List.mem_of_mem_take h)
  simp only [List.mem_filter, Bool.and_eq_true, decide_eq_true_eq] at hmem
  obtain ⟨hitem, ⟨⟨hrecipient, hafter, hupper⟩, hstate⟩, -⟩ := hmem
  exact ⟨hitem, hrecipient, hafter, hupper, hstate⟩

/-- Every shown item is an eligible row of the window. -/
theorem InboxPage.mem (h : InboxPage P c actor q page after upper) {item : InboxItem}
    (hitem : item ∈ page.items) :
    ∃ m ∈ inboxRows c actor q.state after upper q.page.effectiveLimit, Shows c actor m item := by
  obtain ⟨i, hi, rfl⟩ := List.mem_iff_getElem.mp hitem
  have hlength := h.items.length_eq
  exact ⟨_, List.getElem_mem (by omega), (List.forall₂_iff_get.mp h.items).2 i (by omega) hi⟩

theorem newestItem_lt (hv : Storage.mailboxItems.Valid c.mailboxItems) (recipient : String) :
    newestItem c recipient < 2 ^ 63 := by
  have hfold : ∀ (l : List ℤ) (x : ℤ), x < 2 ^ 63 → (∀ y ∈ l, y < 2 ^ 63) →
    l.foldl max x < 2 ^ 63 := by
    intro l
    induction l with
    | nil => exact fun x hx _ => hx
    | cons y l ih =>
      intro x hx hl
      have hy := hl y List.mem_cons_self
      exact ih _ (max_lt hx hy) fun z hz => hl z (List.mem_cons_of_mem _ hz)
  refine hfold _ 0 (by omega) fun y hy => ?_
  obtain ⟨m, hm, rfl⟩ := List.mem_map.mp hy
  have hitem := hv.checked m (List.mem_filter.mp hm).1
  simp only [Storage.mailboxItems, Bool.and_eq_true, decide_eq_true_eq] at hitem
  exact hitem.2

theorem InboxPage.upper_lt (h : InboxPage P c actor q page after upper)
    (hv : Storage.mailboxItems.Valid c.mailboxItems) : upper < 2 ^ 63 := by
  rcases h.bounds with ⟨-, -, rfl⟩ | ⟨_, _, position, -, -, -, hposition⟩
  · exact newestItem_lt hv actor
  · unfold boundedPosition at hposition
    split at hposition
    · split at hposition
      · cases hposition
        omega
      · cases hposition
    · cases hposition

/-- The cursor of a page holds its bounds. -/
theorem InboxPage.fits (h : InboxPage P c actor q page after upper)
    (hv : Storage.mailboxItems.Valid c.mailboxItems) {item : InboxItem}
    (hitem : item ∈ page.items) :
    (CursorPosition.boundedSequence item.seq.toNat upper.toNat).Fits := by
  obtain ⟨m, hm, -, -, hseq, -⟩ := h.mem hitem
  obtain ⟨hmem, -, -, hle, -⟩ := mem_inboxRows hm
  have hrow := hv.checked m hmem
  simp only [Storage.mailboxItems, Bool.and_eq_true, decide_eq_true_eq] at hrow
  have hupper := h.upper_lt hv
  constructor <;> omega

end Bounds

theorem continuation_issued {q : PageQuery} {cursor : String} {codec : CursorCodec}
    {scope : CursorScope}
    {position : CursorPosition} (hcursor : q.cursor = some cursor)
    (hencode : codec.encode P scope position = .ok cursor) : continuation q = some cursor := by
  simp [continuation, hcursor, CursorCodec.encode_ne_empty hencode]

/-- An issued cursor is no longer than a query allows. -/
theorem validate_issued {q : PageQuery} {cursor : String} {codec : CursorCodec}
    {scope : CursorScope}
    {position : CursorPosition} (hvalid : q.validate = .ok ())
    (hencode : codec.encode P scope position = .ok cursor) :
    PageQuery.validate { q with cursor := some cursor } = .ok () := by
  have hsize : charCount cursor ≤ maxCursorChars := by
    have hchars := length_le_utf8 cursor.toList
    rw [String.length_toList, length_utf8_toList] at hchars
    exact hchars.trans (CursorCodec.encode_eq_ok.mp hencode).2.1
  simp only [PageQuery.validate, bind_eq_ok] at hvalid ⊢
  obtain ⟨_, -, hlimit⟩ := hvalid
  exact ⟨(), by simp [validateOptionalChars, validateChars, failIf, hsize], hlimit⟩

section Progress
variable {token actor : String} {q : InboxQuery} {s t : Session} {codec : CursorCodec}
  {after upper : ℤ}

theorem recordOf_isSome {id : String} (h : c.hasRecord id = true) :
    ∃ r, recordOf c id = some r := by
  obtain ⟨r, hr, hid⟩ := List.any_eq_true.mp h
  have hfound : (c.findRecord id).isSome = true := List.find?_isSome.mpr ⟨r, hr, hid⟩
  obtain ⟨row, hrow⟩ := Option.isSome_iff_exists.mp hfound
  exact ⟨_, congrArg (Option.map _) hrow⟩

/-- Every item of a sound store is rendered. -/
theorem inboxItem_succeeds (hc : References s.central) {m : MailboxItemRow}
    (hm : m ∈ s.central.mailboxItems) : ∃ item, (inboxItem actor m).run s = .ok (item, s) := by
  obtain ⟨r, hr⟩ := recordOf_isSome (hc.mailboxItems m hm).1
  refine ⟨⟨m.id, actor, m.recipientSeq, m.createdAt, m.acknowledgedAt, r⟩, ?_⟩
  simp only [inboxItem, record, okOr, run_bind_eq_ok, query_eq_ok, attempt_eq_ok, required_eq_ok,
    run_pure_eq_ok]
  exact ⟨r, s, ⟨_, s, ⟨rfl, rfl⟩, hr, rfl⟩, rfl, rfl⟩

/-- An issued cursor is that of an item. -/
theorem finishPage_issued {α : Type} {items : List α} {r : PageQuery} {scope : CursorScope}
    {position : α → CursorPosition} {page : Page α} {cursor : String}
    (h : (finishPage P items r codec scope position).run s = .ok (page, t))
    (hcursor : page.nextCursor = some cursor) :
    ∃ x ∈ items, codec.encode P scope (position x) = .ok cursor := by
  unfold finishPage at h
  split at h
  · simp only [okOr, run_bind_eq_ok, attempt_eq_ok, run_pure_eq_ok, required_eq_ok,
      succeeded_eq_some] at h
    obtain ⟨last, _, ⟨hlast, -⟩, issued, _, ⟨hencode, -⟩, rfl, -⟩ := h
    obtain rfl : issued = cursor := Option.some.inj hcursor
    exact ⟨last, List.mem_of_mem_take (List.mem_of_getLast? hlast), hencode⟩
  · obtain ⟨rfl, -⟩ := run_pure_eq_ok.mp h
    cases hcursor

/-- A page is finished when its cursor is short. -/
theorem finishPage_succeeds {α : Type} {items : List α} {r : PageQuery} {scope : CursorScope}
    {position : α → CursorPosition} (hlimit : 1 ≤ r.effectiveLimit)
    (hencode : ∀ x ∈ items, ∃ cursor, codec.encode P scope (position x) = .ok cursor) :
    ∃ page, (finishPage P items r codec scope position).run s = .ok (page, s) := by
  unfold finishPage
  split
  · rename_i hlonger
    have hshown : items.take r.effectiveLimit ≠ [] := by
      simp only [ne_eq, List.take_eq_nil_iff, not_or]
      exact ⟨by omega, List.ne_nil_of_length_pos (by omega)⟩
    obtain ⟨last, hlast⟩ := Option.isSome_iff_exists.mp (List.getLast?_isSome.mpr hshown)
    obtain ⟨cursor, hcursor⟩ := hencode last (List.mem_of_mem_take (List.mem_of_getLast? hlast))
    refine ⟨⟨items.take r.effectiveLimit, some cursor⟩, ?_⟩
    simp only [okOr, run_bind_eq_ok, attempt_eq_ok, run_pure_eq_ok, required_eq_ok,
      succeeded_eq_some]
    exact ⟨last, s, ⟨hlast, rfl⟩, cursor, s, ⟨hcursor, rfl⟩, rfl, rfl⟩
  · exact ⟨_, run_pure_eq_ok.mpr ⟨rfl, rfl⟩⟩

/-- A fetch with a valid query and a known window succeeds. -/
theorem inbox_succeeds (hP : P.BoundsCursors) (hc : References s.central)
    (hvalid : q.validate = .ok ())
    (hactor : (journalActor P token).run s = .ok (actor, t)) (hkey : KeyedBy P s.central codec)
    (hbounds : (inboxBounds P codec (inboxScope P actor q.state s.central.recoveryAnchor.inboxEpoch)
      actor
      (continuation q.page)).run t = .ok ((after, upper), t)) (hupper : upper < 2 ^ 63)
    (hfingerprint : (inboxScope P actor q.state
      s.central.recoveryAnchor.inboxEpoch).filterFingerprint.length ≤ 128) :
    ∃ page, (inbox P token q).run s = .ok (page, t) := by
  have hcentral : t.central = s.central :=
    central_eq (fun c => journalActor_keeps (ofStore_central c) token) hactor
  obtain ⟨secret, hsecret, hnew⟩ := hkey
  rw [← hcentral] at hc hsecret hbounds hfingerprint
  obtain ⟨items, hitems⟩ := mapM_succeeds (x := inboxItem actor)
    (inboxRows t.central actor q.state after upper (q.page.effectiveLimit + 1))
    fun m hm => inboxItem_succeeds hc (mem_inboxRows hm).1
  obtain ⟨-, hshown⟩ := mapM_reads (fun m s item t => inboxItem_eq_ok) _ hitems
  have hencode : ∀ item ∈ items, ∃ cursor, codec.encode P
      (inboxScope P actor q.state t.central.recoveryAnchor.inboxEpoch)
      (.boundedSequence item.seq.toNat upper.toNat) = .ok cursor := by
    intro item hitem
    obtain ⟨m, hm, -, -, hseq, -⟩ := forall₂_mem_right hshown hitem
    obtain ⟨-, -, -, hle, -⟩ := mem_inboxRows hm
    exact codec.encode_of_short hP rfl ⟨by omega, by omega⟩ hfingerprint (Nat.zero_le _)
  obtain ⟨page, hpage⟩ := finishPage_succeeds (s := t) (limit_of_validate hvalid) hencode
  refine ⟨page, ?_⟩
  simp only [inbox, run_bind_eq_ok, query_eq_ok, validated_eq_ok]
  refine ⟨(), s, ⟨hvalid, rfl⟩, actor, t, hactor, _, t, ⟨rfl, rfl⟩, _, t, ⟨rfl, rfl⟩, ?_⟩
  rw [hsecret]
  simp only [keyedInbox, okOr, run_bind_eq_ok, attempt_eq_ok, query_eq_ok, required_eq_ok,
    succeeded_eq_some]
  exact ⟨codec, t, ⟨hnew, rfl⟩, (after, upper), t, hbounds, _, t, ⟨rfl, rfl⟩, items, t, hitems,
    hpage⟩

end Progress
end AgentJournal.Service
