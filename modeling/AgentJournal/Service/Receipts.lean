import AgentJournal.Foundation.Alike
import AgentJournal.Service.Legal

/-! # The receipts of a record

The author of a record sees the receipts of all its recipients, a recipient only its own. Nobody
learns from a page, a cursor or an error when somebody else acknowledged.
-/

namespace AgentJournal.Service
open Domain Foundation Storage Recovery

section Route
variable (P : Platform)

inductive ReceiptState where
  | unacknowledged
  | acknowledged
deriving DecidableEq, Repr

structure ReceiptSummary where
  inboxItemId : String
  recipient : String
  state : ReceiptState
  createdAt : String
  acknowledgedAt : Option String
deriving DecidableEq, Repr

def receiptSummary (m : MailboxItemRow) : ReceiptSummary :=
  ⟨m.id, m.recipientPrincipalId, if m.acknowledgedAt.isSome then .acknowledged else .unacknowledged,
    m.createdAt,
    m.acknowledgedAt⟩

/-- The items of a record after an id, all of them or those of one recipient. -/
def receiptRows (c : Central) (id : String) (all : Bool) (actor after : String) (limit : ℕ) :
    List MailboxItemRow :=
  firstRows MailboxItemRow.id limit (c.mailboxItems.filter fun m =>
    m.recordId = id && (all || m.recipientPrincipalId = actor) && after < m.id)

/-- Somebody who is not the author has to be a recipient. -/
def requireAddressed (id author actor : String) : Tx Unit :=
  if author ≠ actor then do
    let addressed ← query fun c => c.mailboxItems.any fun m => m.recordId = id &&
      m.recipientPrincipalId = actor
    refuse (addressed = false) .notFound
  else return ()

def deliveryStatus (identity : ReadIdentity) (id : String) (q : PageQuery) :
    Tx (Page ReceiptSummary) := do
  validated (liftDomain (validateIdentifier "record_id" id))
  validated q.validate
  let actor ← readActor P identity
  let row ← query fun c => c.findRecord id
  let row ← okOr row .notFound
  permitted actor row.spaceId false
  requireAddressed id row.authorPrincipalId actor
  let secret ← queryRow (·.journalSecret)
  let codec ← okOr (succeeded (CursorCodec.new P secret)) .corruptJournal
  -- the filters of a thread are the same pair
  let scope := CursorScope.new P .recordDeliveryStatus (P.threadFilterJson actor id) .identifier
  let after ← identifierPosition P codec scope q
  let rows ← query fun c =>
    receiptRows c id (row.authorPrincipalId = actor) actor after (q.effectiveLimit + 1)
  finishPage P (rows.map receiptSummary) q codec scope fun item => .identifier item.inboxItemId

end Route

variable {P : Platform} {c d : Central} {q : String}

section Unseen

/-- The same store, but for the times at which others than `q` acknowledged. -/
structure Unseen (q : String) (c d : Central) : Prop where
  store : d = { c with mailboxItems := d.mailboxItems }
  items : List.Forall₂
    (fun m m' : MailboxItemRow => m' = { m with acknowledgedAt := m'.acknowledgedAt } ∧
    (m.recipientPrincipalId = q → m = m')) c.mailboxItems d.mailboxItems

/-- Two sessions on such stores. -/
def Peers (q : String) (s t : Session) : Prop :=
  t = { s with central := t.central } ∧ Unseen q s.central t.central

/-- The items of `q` are filtered alike, whatever the filter asks of them. -/
theorem Unseen.filter (h : Unseen q c d) {p : MailboxItemRow → Bool}
    (hp : ∀ m, p m = true → m.recipientPrincipalId = q) :
    c.mailboxItems.filter p = d.mailboxItems.filter p := by
  refine filter_eq_of_forall₂ h.items (fun m m' hm => ?_) fun m m' hm hpm => hm.2 (hp m hpm)
  by_cases hq : m.recipientPrincipalId = q
  · rw [hm.2 hq]
  · have hq' : m'.recipientPrincipalId ≠ q := by
      rw [hm.1]
      exact hq
    rw [Bool.eq_false_iff.mpr fun htrue => hq (hp m htrue), Bool.eq_false_iff.mpr fun htrue =>
      hq' (hp m' htrue)]

theorem Unseen.any (h : Unseen q c d) {p : MailboxItemRow → Bool}
    (hp : ∀ m, p m = true → m.recipientPrincipalId = q) :
    c.mailboxItems.any p = d.mailboxItems.any p := by
  have hfilter : ∀ l : List MailboxItemRow, l.any p = !(l.filter p).isEmpty := by
    intro l
    induction l with
    | nil => rfl
    | cons m l ih =>
      rw [List.any_cons, List.filter_cons, ih]
      cases p m <;> simp
  rw [hfilter, hfilter, h.filter hp]

theorem Unseen.newestItem (h : Unseen q c d) : Service.newestItem c q = Service.newestItem d q := by
  unfold Service.newestItem
  rw [h.filter fun m hm => of_decide_eq_true hm]

theorem Unseen.inboxRows (h : Unseen q c d) (state : InboxState) (after upper : ℤ) (limit : ℕ) :
    Service.inboxRows c q state after upper limit =
    Service.inboxRows d q state after upper limit := by
  unfold Service.inboxRows
  rw [h.filter fun m hm => ?_]
  · rw [h.store]
  · simp only [Bool.and_eq_true, decide_eq_true_eq] at hm
    exact hm.1.1.1

theorem Unseen.receiptRows (h : Unseen q c d) (id after : String) (limit : ℕ) :
    Service.receiptRows c id false q after limit =
    Service.receiptRows d id false q after limit := by
  unfold Service.receiptRows
  rw [h.filter fun m hm => ?_]
  simp only [Bool.false_or, Bool.and_eq_true, decide_eq_true_eq] at hm
  exact hm.1.2

end Unseen

section Steps
variable {α : Type} {s t : Session}

theorem alike_attempt (x : Except BootstrapError α) (h : Peers q s t) :
    Alike (Peers q) ((attempt x).run s) ((attempt x).run t) := by
  cases x with
  | ok a => exact .ok h
  | error e => exact .error

theorem alike_okOr (x : Option α) (e : BootstrapError) (h : Peers q s t) :
    Alike (Peers q) ((okOr x e).run s) ((okOr x e).run t) := alike_attempt _ h

theorem alike_refuse (p : Prop) [Decidable p] (e : BootstrapError) (h : Peers q s t) :
    Alike (Peers q) ((refuse p e).run s) ((refuse p e).run t) := alike_attempt _ h

theorem alike_validated (x : Except WireValidationError Unit) (h : Peers q s t) :
    Alike (Peers q) ((validated x).run s) ((validated x).run t) := by
  cases x <;> exact alike_attempt _ h

theorem alike_query {f : Central → α} (hf : f s.central = f t.central) (h : Peers q s t) :
    Alike (Peers q) ((query f).run s) ((query f).run t) := by
  change Alike (Peers q) (.ok (f s.central, s)) (.ok (f t.central, t))
  rw [hf]
  exact .ok h

theorem alike_now (h : Peers q s t) : Alike (Peers q) ((now P).run s) ((now P).run t) := by
  refine .bind (s := s) (t := t) (x := instant) ?_ fun time s' t' _ h' => alike_attempt _ h'
  obtain ⟨ht, hunseen⟩ := h
  rw [ht]
  exact .ok ⟨rfl, hunseen⟩

theorem alike_permitted (actor space : String) (h : Peers q s t) :
    Alike (Peers q) ((permitted actor space false).run s)
    ((permitted actor space false).run t) := by
  refine .bind (alike_query ?_ h) fun allowed s' t' _ h' => alike_refuse _ _ h'
  rw [h.2.store]
  rfl

theorem alike_journalActor (token : String) (h : Peers q s t) :
    Alike (Peers q) ((journalActor P token).run s) ((journalActor P token).run t) := by
  refine .bind (alike_refuse _ _ h) fun _ s₁ t₁ _ h₁ => ?_
  refine .bind (alike_now h₁) fun time s₂ t₂ _ h₂ => ?_
  refine .bind (alike_query ?_ h₂) fun row s₃ t₃ _ h₃ => ?_
  · rw [h₂.2.store]
  · exact .bind (alike_okOr _ _ h₃) fun row s₄ t₄ _ h₄ => .pure _ h₄

theorem alike_readActor (identity : ReadIdentity) (h : Peers q s t) :
    Alike (Peers q) ((readActor P identity).run s) ((readActor P identity).run t) := by
  cases identity with
  | bearer token => exact alike_journalActor token h
  | configuredViewer principal =>
    refine .bind (alike_attempt _ h) fun _ s₁ t₁ _ h₁ => ?_
    refine .bind (alike_query ?_ h₁) fun found s₂ t₂ _ h₂ => alike_okOr _ _ h₂
    rw [h₁.2.store]
    rfl

theorem alike_identifierPosition (codec : CursorCodec) (scope : CursorScope) (page : PageQuery)
    (h : Peers q s t) :
    Alike (Peers q) ((identifierPosition P codec scope page).run s)
    ((identifierPosition P codec scope page).run t) := by
  refine .bind ?_ fun position s₁ t₁ _ h₁ => alike_okOr _ _ h₁
  unfold cursorPosition
  cases continuation page with
  | none => exact .pure _ h
  | some cursor => exact .bind (alike_okOr _ _ h) fun position s₁ t₁ _ h₁ => .pure _ h₁

theorem alike_finishPage (items : List α) (page : PageQuery) (codec : CursorCodec)
    (scope : CursorScope)
    (position : α → CursorPosition) (h : Peers q s t) :
    Alike (Peers q) ((finishPage P items page codec scope position).run s)
      ((finishPage P items page codec scope position).run t) := by
  unfold finishPage
  split
  · refine .bind (alike_okOr _ _ h) fun last s₁ t₁ _ h₁ => ?_
    exact .bind (alike_okOr _ _ h₁) fun cursor s₂ t₂ _ h₂ => .pure _ h₂
  · exact .pure _ h

theorem alike_record (id : String) (h : Peers q s t) :
    Alike (Peers q) ((record id).run s) ((record id).run t) := by
  refine .bind (alike_query ?_ h) fun found s₁ t₁ _ h₁ => alike_okOr _ _ h₁
  rw [h.2.store]
  rfl

theorem alike_inboxItem (m : MailboxItemRow) (h : Peers q s t) :
    Alike (Peers q) ((inboxItem q m).run s) ((inboxItem q m).run t) :=
  .bind (alike_record _ h) fun _ _ _ _ h₁ => .pure _ h₁

theorem alike_inboxBounds (codec : CursorCodec) (scope : CursorScope) (cursor : Option String)
    (h : Peers q s t) :
    Alike (Peers q) ((inboxBounds P codec scope q cursor).run s)
    ((inboxBounds P codec scope q cursor).run t) := by
  cases cursor with
  | some cursor => exact .bind (alike_okOr _ _ h) fun position s₁ t₁ _ h₁ => alike_okOr _ _ h₁
  | none => exact .bind (alike_query h.2.newestItem h) fun upper s₁ t₁ _ h₁ => .pure _ h₁

theorem alike_keylessInbox (page : PageQuery) (h : Peers q s t) :
    Alike (Peers q) ((keylessInbox page).run s) ((keylessInbox page).run t) := by
  refine .bind (alike_refuse _ _ h) fun _ s₁ t₁ _ h₁ => ?_
  refine .bind (alike_query ?_ h₁) fun any s₂ t₂ _ h₂ =>
    .bind (alike_refuse _ _ h₂) fun _ s₃ t₃ _ h₃ => .pure _ h₃
  rw [Bool.not_inj_iff, Bool.eq_iff_iff, List.isEmpty_iff_length_eq_zero,
    List.isEmpty_iff_length_eq_zero, h₁.2.items.length_eq]

theorem alike_keyedInbox (secret : List UInt8) (epoch : ℤ) (query : InboxQuery) (h : Peers q s t) :
    Alike (Peers q) ((keyedInbox P secret q epoch query).run s)
    ((keyedInbox P secret q epoch query).run t) := by
  refine .bind (alike_okOr _ _ h) fun codec s₁ t₁ _ h₁ => ?_
  refine .bind (alike_inboxBounds codec _ _ h₁) fun bounds s₂ t₂ _ h₂ => ?_
  refine .bind (alike_query (h₂.2.inboxRows ..) h₂) fun rows s₃ t₃ _ h₃ => ?_
  refine .bind (.mapM (fun m s t hst => alike_inboxItem m hst) h₃ rows) fun items s₄ t₄ _ h₄ => ?_
  exact alike_finishPage items _ codec _ _ h₄

/-- Somebody else than the author asks for its own items only. -/
theorem alike_requireAddressed (id author : String) (h : Peers q s t) :
    Alike (Peers q) ((requireAddressed id author q).run s)
    ((requireAddressed id author q).run t) := by
  unfold requireAddressed
  split
  · refine .bind (alike_query (h.2.any fun m hm => ?_) h) fun addressed s₁ t₁ _ h₁ =>
      alike_refuse _ _ h₁
    simp only [Bool.and_eq_true, decide_eq_true_eq] at hm
    exact hm.2
  · exact .pure _ h

end Steps

section Readers
variable {s t : Session}

/-- An authentication that accepts nobody but `q`. -/
def Speaks (q : String) (x : Tx String) (s : Session) : Prop :=
  ∀ actor t, x.run s = .ok (actor, t) → actor = q

theorem alike_deliveryStatus {identity : ReadIdentity} (id : String) (page : PageQuery)
    (h : Peers q s t)
    (hspeaks : Speaks q (readActor P identity) s)
    (hauthor : ∀ row, s.central.findRecord id = some row →
      row.authorPrincipalId ≠ q) :
    Alike (Peers q) ((deliveryStatus P identity id page).run s)
    ((deliveryStatus P identity id page).run t) := by
  refine .bind (alike_validated _ h) fun _ s₁ t₁ hs₁ h₁ => ?_
  obtain ⟨-, rfl⟩ := validated_eq_ok.mp hs₁
  refine .bind (alike_validated _ h₁) fun _ s₂ t₂ hs₂ h₂ => ?_
  obtain ⟨-, rfl⟩ := validated_eq_ok.mp hs₂
  refine .bind (alike_readActor identity h₂) fun actor s₃ t₃ hs₃ h₃ => ?_
  obtain rfl := hspeaks actor s₃ hs₃
  have hcentral := central_eq (fun c => readActor_keeps (ofStore_central c) identity) hs₃
  refine .bind (alike_query ?_ h₃) fun found s₄ t₄ hs₄ h₄ => ?_
  · rw [h₃.2.store]
    rfl
  obtain ⟨hfound, rfl⟩ := query_eq_ok.mp hs₄
  refine .bind (alike_okOr _ _ h₄) fun row s₅ t₅ hs₅ h₅ => ?_
  have hrow := required_eq_ok.mp (attempt_eq_ok.mp hs₅).1
  have hother : row.authorPrincipalId ≠ actor := hauthor row (by rw [← hcentral, hfound, hrow])
  refine .bind (alike_permitted _ _ h₅) fun _ s₆ t₆ _ h₆ => ?_
  refine .bind (alike_requireAddressed _ _ h₆) fun _ s₇ t₇ _ h₇ => ?_
  refine .bind (.bind (alike_query ?_ h₇) fun secret s t _ h => alike_okOr _ _ h)
    fun secret s₈ t₈ _ h₈ => ?_
  · rw [h₇.2.store]
  refine .bind (alike_okOr _ _ h₈) fun codec s₉ t₉ _ h₉ => ?_
  refine .bind (alike_identifierPosition codec _ page h₉) fun after s₁₀ t₁₀ _ h₁₀ => ?_
  refine .bind (alike_query ?_ h₁₀) fun rows s₁₁ t₁₁ _ h₁₁ => alike_finishPage _ page codec _ _ h₁₁
  rw [decide_eq_false hother]
  exact h₁₀.2.receiptRows ..

theorem alike_inbox {token : String} (query : InboxQuery) (h : Peers q s t)
    (hspeaks : Speaks q (journalActor P token) s) :
    Alike (Peers q) ((inbox P token query).run s) ((inbox P token query).run t) := by
  refine .bind (alike_validated _ h) fun _ s₁ t₁ hs₁ h₁ => ?_
  obtain ⟨-, rfl⟩ := validated_eq_ok.mp hs₁
  refine .bind (alike_journalActor token h₁) fun actor s₂ t₂ hs₂ h₂ => ?_
  obtain rfl := hspeaks actor s₂ hs₂
  refine .bind (alike_query ?_ h₂) fun epoch s₃ t₃ _ h₃ => ?_
  · rw [h₂.2.store]
  refine .bind (alike_query ?_ h₃) fun secret s₄ t₄ _ h₄ => ?_
  · rw [h₃.2.store]
  cases secret with
  | none => exact alike_keylessInbox _ h₄
  | some secret => exact alike_keyedInbox secret epoch query h₄

end Readers

section Hidden
variable {s : Session}

/-- What a reader gets who is neither the author nor a recipient. -/
def unaddressed (P : Platform) (identity : ReadIdentity) (page : PageQuery) :
    Tx (Page ReceiptSummary) := do
  validated page.validate
  let _ ← readActor P identity
  attempt (.error .notFound)

theorem permitted_cases (principal space : String) (append : Bool) (s : Session) :
    (permitted principal space append).run s = .ok ((), s) ∨
      (permitted principal space append).run s = .error .notFound := by
  rw [permitted, run_bind_of_ok (query_eq_ok.mpr ⟨rfl, rfl⟩)]
  cases permits s.central principal space append with
  | true => exact .inl rfl
  | false => exact .inr rfl

theorem deliveryStatus_unaddressed {identity : ReadIdentity} {id : String} (page : PageQuery)
    (hid : IsIdentifier id)
    (hspeaks : Speaks q (readActor P identity) s)
    (hrow : ∀ row, s.central.findRecord id = some row →
      row.authorPrincipalId ≠ q ∧ ∀ m ∈ s.central.mailboxItems, m.recordId = id →
      m.recipientPrincipalId ≠ q) :
    (deliveryStatus P identity id page).run s = (unaddressed P identity page).run s := by
  have hvalid : (validated (liftDomain (validateIdentifier "record_id" id))).run s = .ok ((), s) :=
    validated_eq_ok.mpr ⟨liftDomain_eq_ok.mpr (validateIdentifier_eq_ok.mpr hid), rfl⟩
  unfold deliveryStatus unaddressed
  rw [run_bind_of_ok hvalid]
  cases hpage : (validated page.validate).run s with
  | error e => rw [run_bind_of_error hpage, run_bind_of_error hpage]
  | ok x =>
    obtain ⟨-, hs⟩ := validated_eq_ok.mp hpage
    rw [run_bind_of_ok hpage, run_bind_of_ok hpage, ← hs]
    cases hactor : (readActor P identity).run s with
    | error e => rw [run_bind_of_error hactor, run_bind_of_error hactor]
    | ok y =>
      obtain ⟨actor, t⟩ := y
      obtain rfl := hspeaks actor t hactor
      have hcentral := central_eq (fun c => readActor_keeps (ofStore_central c) identity) hactor
      rw [run_bind_of_ok hactor, run_bind_of_ok hactor]
      have hfound : (query fun c => c.findRecord id).run t = .ok (s.central.findRecord id, t) :=
        query_eq_ok.mpr ⟨by rw [hcentral], rfl⟩
      rw [run_bind_of_ok hfound]
      cases hfind : s.central.findRecord id with
      | none => rfl
      | some row =>
        obtain ⟨hauthor, hitems⟩ := hrow row hfind
        have hnone : ¬ (t.central.mailboxItems.any fun m =>
            m.recordId = id && m.recipientPrincipalId = actor) = true := by
          rw [hcentral, List.any_eq_true]
          rintro ⟨m, hm, hmatch⟩
          simp only [Bool.and_eq_true, decide_eq_true_eq] at hmatch
          exact hitems m hm hmatch.1 hmatch.2
        have hrefused : (requireAddressed id row.authorPrincipalId actor).run t =
          .error .notFound := by
          rw [requireAddressed, if_pos hauthor,
            run_bind_of_ok (query_eq_ok.mpr ⟨Bool.eq_false_iff.mpr hnone, rfl⟩)]
          rfl
        have hok : (okOr (some row) .notFound).run t = .ok (row, t) := attempt_eq_ok.mpr ⟨rfl, rfl⟩
        rw [run_bind_of_ok hok]
        rcases permitted_cases actor row.spaceId false t with hpermitted | hpermitted
        · rw [run_bind_of_ok hpermitted, run_bind_of_error hrefused]
          rfl
        · rw [run_bind_of_error hpermitted]
          rfl

/-- A record that `q` neither wrote nor was addressed by. -/
def Foreign (q : String) (c : Central) (id : String) : Prop :=
  ∃ r, recordOf c id = some r ∧ r.author ≠ q ∧ q ∉ r.attention

theorem Foreign.hidden {id : String} (hc : Served P c) (h : Foreign q c id) : IsIdentifier id ∧
    ∀ row, c.findRecord id = some row → row.authorPrincipalId ≠ q ∧
      ∀ m ∈ c.mailboxItems, m.recordId = id → m.recipientPrincipalId ≠ q := by
  obtain ⟨r, hr, hauthor, hattention⟩ := h
  have hshown := hc.shown hr
  obtain ⟨row, hrow, rfl⟩ := Option.map_eq_some_iff.mp hr
  have hid : row.id = id := by
    simpa using List.find?_some (show c.records.find? (fun r => r.id = id) = some row from hrow)
  refine ⟨hid ▸ hshown.legal.id, fun row' hrow' => ?_⟩
  obtain rfl := Option.some.inj (hrow.symm.trans hrow')
  refine ⟨hauthor, fun m hm hrecord hrecipient => hattention ?_⟩
  have hpair : (id, q) ∈ c.attention.map fun a => (a.recordId, a.recipientPrincipalId) := by
    rw [← hc.sound.delivered, ← hrecord, ← hrecipient]
    exact List.mem_map_of_mem hm
  obtain ⟨a, ha, heq⟩ := List.mem_map.mp hpair
  obtain ⟨hid', hq⟩ := Prod.mk.inj heq
  refine (sortTexts_perm _).mem_iff.mpr (List.mem_map.mpr ⟨a, List.mem_filter.mpr ⟨ha, ?_⟩, hq⟩)
  exact decide_eq_true hid'

end Hidden

section Privacy

/-- What a call answers at a time of the host. -/
def answer {α : Type} (x : Tx α) (host : Host) (c : Central) : Except BootstrapError α :=
  (x.run (.start host c)).map Prod.fst

theorem Unseen.peers (h : Unseen q c d) (host : Host) :
    Peers q (.start host c) (.start host d) := ⟨rfl, h⟩

/-- Nobody but the author and the recipient sees when an item is acknowledged. A record that is not
one's own looks like one that does not exist. -/
theorem receipt_privacy (P : Platform) (q : String) (host : Host) :
    (∀ {c d : Central} {identity : ReadIdentity} (id : String) (page : PageQuery), Unseen q c d →
      Speaks q (readActor P identity) (.start host c) →
      (∀ row, c.findRecord id = some row → row.authorPrincipalId ≠ q) →
      answer (deliveryStatus P identity id page) host c =
      answer (deliveryStatus P identity id page) host d) ∧
    (∀ {c d : Central} {token : String} (query : InboxQuery), Unseen q c d →
      Speaks q (journalActor P token) (.start host c) →
      answer (inbox P token query) host c = answer (inbox P token query) host d) ∧
    ∀ {c : Central} {identity : ReadIdentity} {id missing : String} (page : PageQuery), Served P c →
      Speaks q (readActor P identity) (.start host c) → Foreign q c id → IsIdentifier missing →
      c.hasRecord missing = false →
      answer (deliveryStatus P identity id page) host c =
      answer (deliveryStatus P identity missing page) host c ∧
      (page.validate = .ok () → (∃ t, (readActor P identity).run (.start host c) = .ok (q, t)) →
        answer (deliveryStatus P identity id page) host c = .error .notFound) := by
  refine ⟨fun id page h hspeaks hauthor => ?_, fun query h hspeaks => ?_, ?_⟩
  · exact (alike_deliveryStatus id page (h.peers host) hspeaks hauthor).map_fst
  · exact (alike_inbox query (h.peers host) hspeaks).map_fst
  · intro c identity id missing page hc hspeaks hforeign hmissing hnone
    obtain ⟨hid, hrow⟩ := hforeign.hidden hc
    have hnorow : c.findRecord missing = none :=
      List.find?_eq_none.mpr fun row hrow hmatch => by
        have hfound : c.hasRecord missing = true := List.any_eq_true.mpr ⟨row, hrow, hmatch⟩
        rw [hfound] at hnone
        cases hnone
    unfold answer
    rw [deliveryStatus_unaddressed page hid hspeaks hrow,
      deliveryStatus_unaddressed page hmissing hspeaks]
    · refine ⟨rfl, fun hpage hactor => ?_⟩
      obtain ⟨t, ht⟩ := hactor
      have hvalid : (validated page.validate).run (.start host c) = .ok ((), .start host c) :=
        validated_eq_ok.mpr ⟨hpage, rfl⟩
      rw [unaddressed, run_bind_of_ok hvalid, run_bind_of_ok ht]
      rfl
    · intro row hfind
      rw [show (Session.start host c).central = c from rfl, hnorow] at hfind
      cases hfind

/-- What others acknowledge is unseen. -/
theorem unseen_of_acknowledged {token item : String} {host : Host} {u : Unit} {t : Session}
    (hc : WellFormed P c)
    (h : (acknowledgeInboxItem P token item).run (.start host c) = .ok (u, t))
    (hother : ∀ actor s, (journalActor P token).run (.start host c) = .ok (actor, s) → actor ≠ q) :
    Unseen q c t.central := by
  simp only [acknowledgeInboxItem, okOr, run_bind_eq_ok, validated_eq_ok, query_eq_ok,
    attempt_eq_ok] at h
  obtain ⟨_, _, ⟨-, rfl⟩, actor, s₁, hactor, _, _, ⟨hspace, rfl⟩, space, _, ⟨hfound, rfl⟩, _, s₂,
    hpermitted, time, s₃,
    htime, n, s₄, hstored, hchecked⟩ := h
  have hne := hother actor s₁ hactor
  have hs₁ : s₁.central = c :=
    central_eq (fun c => journalActor_keeps (ofStore_central c) token) hactor
  have hs₂ : s₂.central = c := (central_eq (fun _ => permitted_keeps _ _ _) hpermitted).trans hs₁
  have hs₃ : s₃.central = c :=
    (central_eq (fun c => now_keeps (ofStore_central c) P) htime).trans hs₂
  obtain ⟨e, he, -, rfl⟩ := execute_eq_ok.mp hstored
  obtain ⟨-, rfl⟩ := checkpoint_eq_ok.mp hchecked
  obtain rfl := Except.ok.inj he
  rw [hs₃]
  -- the row the statement meets is the one the lookup found for the actor
  have hrows : ∀ m ∈ c.mailboxItems, m.id = item → m.recipientPrincipalId = actor := by
    rw [hs₁] at hspace
    rw [← hspace, required_eq_ok] at hfound
    obtain ⟨m', hm', -⟩ := Option.bind_eq_some_iff.mp hfound
    have hmatch := List.find?_some hm'
    simp only [Bool.and_eq_true, decide_eq_true_eq] at hmatch
    intro m hm hid
    have heq : m = m' := hc.tables.mailboxItems.eq_of_key hm (List.mem_of_find?_eq_some hm') (by
      simp [Storage.mailboxItems, hid, hmatch.1])
    rw [heq]
    exact hmatch.2
  refine ⟨rfl, ?_⟩
  refine List.forall₂_map_right_iff.mpr (List.forall₂_same.mpr fun m hm => ?_)
  by_cases hmatch : (m.id = item && m.acknowledgedAt.isNone) = true
  · rw [if_pos hmatch]
    rw [Bool.and_eq_true, decide_eq_true_eq] at hmatch
    exact ⟨rfl, fun hq => absurd ((hrows m hm hmatch.1).symm.trans hq) hne⟩
  · rw [if_neg hmatch]
    exact ⟨rfl, fun _ => rfl⟩

end Privacy

section Sample

def readerToken : String := "ffeeddccbbaa99887766554433221100ffeeddccbbaa99887766554433221100"

def readerHost : Host :=
  ⟨fun _ => 0, fun i => some (Vector.replicate 32 (UInt8.ofNat (i + 64))), 0, none⟩

set_option maxRecDepth 20000 in
theorem reader_registered :
    (performed .sample sampleStore [(readerHost, .register readerToken ⟨"bob", "Bob"⟩)]).isSome =
    true := by decide +kernel

/-- A second principal beside the author of the only record. -/
def readerStore : Central :=
  (performed .sample sampleStore [(readerHost, .register readerToken ⟨"bob", "Bob"⟩)]).get
    reader_registered

def readerPrincipal : String := (readerStore.principals.getLast?.map (·.id)).getD ""

def readerRecord : String := (readerStore.records.head?.map (·.id)).getD ""

def readerItem : String := (readerStore.mailboxItems.head?.map (·.id)).getD ""

set_option maxRecDepth 20000 in
theorem reader_acknowledged : (succeeded ((acknowledgeInboxItem .sample sampleToken readerItem).run
    (.start sampleHost readerStore))).isSome = true := by decide +kernel

/-- The author has acknowledged its own item. -/
def acknowledgedStore : Central :=
  ((succeeded ((acknowledgeInboxItem .sample sampleToken readerItem).run
  (.start sampleHost readerStore))).get reader_acknowledged).2.central

/-- Whom a token of the sample authenticates. -/
def actorOf (token : String) (c : Central) : Option String :=
  (succeeded ((journalActor .sample token).run (.start sampleHost c))).map Prod.fst

theorem speaks_of_actorOf {token : String} (h : actorOf token c = some q) :
    Speaks q (journalActor .sample token) (.start sampleHost c) := by
  intro actor t hrun
  unfold actorOf at h
  rw [hrun] at h
  exact Option.some.inj h

set_option maxRecDepth 20000 in
theorem reader_facts : actorOf readerToken readerStore = some readerPrincipal ∧
    actorOf sampleToken readerStore = some samplePrincipal ∧ samplePrincipal ≠ readerPrincipal ∧
    (recordOf readerStore readerRecord).any
    (fun r => r.author ≠ readerPrincipal && readerPrincipal ∉ r.attention) = true ∧
    readerStore.hasRecord "missing" = false := by decide +kernel

set_option maxRecDepth 20000 in
theorem author_sees :
    (succeeded (answer (deliveryStatus .sample (.bearer sampleToken) readerRecord ⟨none, none⟩)
    sampleHost readerStore)).map (fun page => page.items.map (·.state)) = some [.unacknowledged] ∧
    (succeeded (answer (deliveryStatus .sample (.bearer sampleToken) readerRecord ⟨none, none⟩)
      sampleHost acknowledgedStore)).map (fun page => page.items.map (·.state)) =
        some [.acknowledged] := by
  decide +kernel

theorem served_of_acknowledged {token item : String} {host : Host} {u : Unit} {t : Session}
    (hc : Served P c)
    (h : (acknowledgeInboxItem P token item).run (.start host c) = .ok (u, t)) :
    Served P t.central :=
  hc.later (Serves.refl.call (.acknowledgeInboxItem token item) h)

theorem actorOf_run {token : String} (h : actorOf token c = some q) :
    ∃ t, (journalActor .sample token).run (.start sampleHost c) = .ok (q, t) := by
  obtain ⟨x, hx, hactor⟩ := Option.map_eq_some_iff.mp h
  exact ⟨x.2, by rw [succeeded_eq_some.mp hx, ← hactor]⟩

theorem reader_acknowledges {x : Unit × Session}
    (hx : succeeded ((acknowledgeInboxItem .sample sampleToken
    readerItem).run (.start sampleHost c)) = some x)
      (hauthor : actorOf sampleToken c = some samplePrincipal)
    (hne : samplePrincipal ≠ q) (hc : Served .sample c) :
    Served .sample x.2.central ∧ Unseen q c x.2.central := by
  have hrun := succeeded_eq_some.mp hx
  refine ⟨served_of_acknowledged hc hrun,
    unseen_of_acknowledged hc.wellFormed hrun fun actor s hactor heq => hne ?_⟩
  rw [← heq]
  exact (speaks_of_actorOf hauthor actor s hactor).symm

theorem readerStore_served : Served .sample readerStore :=
  .of_content (.inr (sampleStore_unadopted.performed (Option.some_get reader_registered).symm))

theorem receipt_privacy_sample : Served .sample readerStore ∧ Served .sample acknowledgedStore ∧
    Unseen readerPrincipal readerStore acknowledgedStore ∧
    answer (deliveryStatus .sample (.bearer sampleToken) readerRecord ⟨none, none⟩) sampleHost
    readerStore ≠
      answer (deliveryStatus .sample (.bearer sampleToken) readerRecord ⟨none, none⟩) sampleHost
      acknowledgedStore ∧
    answer (inbox .sample readerToken ⟨.all, ⟨none, none⟩, 0⟩) sampleHost readerStore =
      answer (inbox .sample readerToken ⟨.all, ⟨none, none⟩, 0⟩) sampleHost acknowledgedStore ∧
    answer (deliveryStatus .sample (.bearer readerToken) readerRecord ⟨none, none⟩) sampleHost
    readerStore =
      .error .notFound := by
  obtain ⟨hreader, hauthor, hne, hforeign, hmissing⟩ := reader_facts
  obtain ⟨hbefore, hafter⟩ := author_sees
  have hserved := readerStore_served
  obtain ⟨hserved', hunseen⟩ :=
    reader_acknowledges (Option.some_get reader_acknowledged).symm hauthor hne hserved
  change Served .sample acknowledgedStore at hserved'
  change Unseen readerPrincipal readerStore acknowledgedStore at hunseen
  -- nothing below may compute with the stores
  generalize acknowledgedStore = d at *
  generalize readerStore = c at *
  have hspeaks := speaks_of_actorOf hreader
  obtain ⟨r, hr, hothers⟩ := Option.any_eq_true _ _ |>.mp hforeign
  simp only [Bool.and_eq_true, decide_eq_true_eq] at hothers
  obtain ⟨-, hinbox, hhidden⟩ := receipt_privacy .sample readerPrincipal sampleHost
  refine ⟨hserved, hserved', hunseen, fun heq => ?_, hinbox _ hunseen hspeaks, ?_⟩
  · rw [heq, hafter] at hbefore
    cases hbefore
  · have hid : IsIdentifier "missing" := ⟨by decide, by decide⟩
    have hspeaks' : Speaks readerPrincipal (readActor .sample (.bearer readerToken))
      (.start sampleHost c) := hspeaks
    exact (hhidden ⟨none, none⟩ hserved hspeaks' ⟨r, hr, hothers⟩ hid hmissing).2 rfl
      (actorOf_run hreader)

end Sample

end AgentJournal.Service
