import AgentJournal.InboxWorker.Views

/-! # Stale copies of an item

Once an acknowledgment is resolved, the item is handed off again only when a later page brings
it. The success branch prunes the copies that are still buffered; the branch for an inaccessible
item does not, so the law needs that no copy is buffered there.
-/

namespace AgentJournal.InboxWorker
open Domain Client Foundation
variable {log : List Entry} {entry : Entry} {id : String}

/-- The entry resolves the acknowledgment: success, or 404. -/
def Entry.Resolves (id : String) : Entry → Prop
  | .acknowledged id' response => id' = id ∧ (response = .ok () ∨ response = .error (.http 404))
  | _ => False

/-- The entry is a page with the item. -/
def Entry.Brings (id : String) : Entry → Prop
  | .fetched _ (.ok page) => ∃ item ∈ page.items, item.inboxItemId = id
  | _ => False

/-- The acknowledgment is resolved, and no page has brought the item since. -/
def Settled (log : List Entry) (id : String) : Prop :=
  ∃ before entry after, log = before ++ entry :: after ∧ entry.Resolves id ∧
    ∀ e ∈ after, ¬e.Brings id

/-- An acknowledgment answered with 404 leaves no copy of its item behind. -/
def Clears (before : List Entry) (entry : Entry) : Prop :=
  ∀ id, entry = .acknowledged id (.error (.http 404)) →
    ∀ item ∈ buffered before, item.inboxItemId ≠ id

theorem settled_snoc (h : Settled (log ++ [entry]) id) :
    (Settled log id ∧ ¬entry.Brings id) ∨ entry.Resolves id := by
  obtain ⟨before, e, after, heq, hresolves, hafter⟩ := h
  rcases List.eq_nil_or_concat after with rfl | ⟨init, last, rfl⟩
  · obtain ⟨rfl, he⟩ := List.append_inj' heq rfl
    obtain rfl : entry = e := by simpa using he
    exact .inr hresolves
  · rw [List.concat_eq_append, ← List.cons_append, ← List.append_assoc] at heq
    obtain ⟨hinit, hlast⟩ := List.append_inj' heq rfl
    obtain rfl : entry = last := by simpa using hlast
    refine .inl ⟨⟨before, e, init, hinit, hresolves, fun x hx => ?_⟩, ?_⟩
    · exact hafter x (by simp [hx])
    · exact hafter entry (by simp)

/-- No copy of a settled item is buffered. -/
theorem unbuffered_of_settled (hclears : Lawful Clears log) (h : Settled log id) :
    ∀ item ∈ buffered log, item.inboxItemId ≠ id := by
  induction log using List.reverseRecOn with
  | nil => simp [buffered]
  | append_singleton log entry ih =>
    have hclear : Clears log entry := hclears log entry [] rfl
    intro item hitem
    rw [buffered_snoc] at hitem
    rcases settled_snoc h with ⟨hsettled, hbrings⟩ | hresolves
    · have hprior := ih hclears.prefix_of hsettled
      -- Only a page can add to what is buffered, and this one does not bring the item.
      unfold Entry.buffer at hitem
      split at hitem
      · split_ifs at hitem
        · exact hprior item hitem
        · exact fun hid => hbrings ⟨item, hitem, hid⟩
      · exact hprior item (List.mem_of_mem_tail hitem)
      · exact hprior item (List.mem_of_mem_tail hitem)
      · exact hprior item (List.mem_of_mem_filter hitem)
      · exact hprior item hitem
    · unfold Entry.Resolves at hresolves
      split at hresolves
      · obtain ⟨rfl, rfl | rfl⟩ := hresolves
        · simpa using (List.mem_filter.mp hitem).2
        · exact hclear _ rfl item hitem
      · exact hresolves.elim

/-- In a run where no acknowledgment is answered with 404 while a copy of its item is buffered,
a resolved item is handed off again only after a later page brought it. -/
theorem no_stale_handoff (O : Outside) (routes : StaticRoutes) (clock : List Duration)
    (hclears : ∀ (before : List Entry) (id : String) (after : List Entry),
      (run O routes clock {}).2.log =
        before ++ Entry.acknowledged id (.error (.http 404)) :: after →
      ∀ item ∈ buffered before, item.inboxItemId ≠ id) :
    ∀ (before : List Entry) (id : String) (response : Except ClientError Unit) (middle : List Entry)
    (route : Route)
      (envelope : Envelope) (rendered : String) (result : Except RuntimeError String)
      (after : List Entry),
      (run O routes clock {}).2.log = before ++ Entry.acknowledged id response :: middle ++
        Entry.injected route envelope rendered result :: after →
      (response = .ok () ∨ response = .error (.http 404)) → envelope.inboxItemId = id →
      ∃ cursor page, Entry.fetched cursor (.ok page) ∈ middle ∧
      ∃ item ∈ page.items, item.inboxItemId = id := by
  intro before id response middle route envelope rendered result after hlog hresponse hid
  have hview := reachable_view (run_reachable O routes clock)
  have hlawful : Lawful Clears (run O routes clock {}).2.log := by
    intro before' entry after' heq id' hentry
    subst hentry
    exact hclears before' id' after' heq
  obtain ⟨init, now, item, hinit, rfl⟩ := hview.orderly _ _ after hlog
  by_contra hnone
  have hbrings : ∀ e ∈ middle, ¬e.Brings id := by
    intro e he hbrought
    unfold Entry.Brings at hbrought
    split at hbrought
    · exact hnone ⟨_, _, he, hbrought⟩
    · exact hbrought
  have hsettled : Settled (init ++ [Entry.attempted now item]) id :=
    ⟨before, _, middle, hinit.symm, ⟨rfl, hresponse⟩, hbrings⟩
  rw [hinit, List.append_assoc] at hlog
  obtain ⟨hhead, -, -⟩ := hview.orderly init (.attempted now item) _ hlog
  rcases settled_snoc hsettled with ⟨hprior, -⟩ | hresolves
  · have hclear : Lawful Clears init := by
      rw [hlog] at hlawful
      exact hlawful.prefix_of
    exact unbuffered_of_settled hclear hprior item (List.mem_of_head? hhead) hid
  · exact hresolves

section Sample

def sampleItem (id : String) : InboxItem where
  inboxItemId := id
  recipient := "recipient"
  seq := 1
  createdAt := "2026-01-01T00:00:00Z"
  acknowledgedAt := none
  record := ⟨"record", "public", 1, "author", "message", "untrusted content", none,
    "2026-01-01T00:00:00Z", ["recipient"], none, [], none⟩

def sampleRoutes : StaticRoutes := fun key =>
  if key = "public/default" then some ⟨"default", "private-target", true⟩ else none

/-- An inbox that serves one page again and again, and a runtime that accepts everything. -/
def sampleOutside (items : List InboxItem) (answer : Except ClientError Unit) : Outside where
  quote text := text
  fetch _ _ := .ok ⟨items, none⟩
  acknowledge _ _ := answer
  inject _ _ _ _ := .ok "accepted"

/-- The handoff of the sample item and the answer to its acknowledgment. -/
def sampleHandoff (answer : Except ClientError Unit) : List Entry :=
  [.attempted 0 (sampleItem "stable"),
    .injected ⟨"default", "private-target", true⟩ (.fromItem (sampleItem "stable"))
      ((Envelope.fromItem (sampleItem "stable")).render fun text => text) (.ok "accepted"),
    .acknowledged "stable" answer]

/-- A page with two copies of an item, whose first handoff is acknowledged with 404. -/
theorem sampleInaccessible_log :
    (run (sampleOutside [sampleItem "stable", sampleItem "stable"] (.error (.http 404)))
      sampleRoutes [0, 0] {}).2.log =
      [Entry.ticked 0,
        Entry.fetched none (.ok ⟨[sampleItem "stable", sampleItem "stable"], none⟩)] ++
        sampleHandoff (.error (.http 404)) ++ [Entry.ticked 0] ++
        sampleHandoff (.error (.http 404)) := by
  rfl

/-- The second copy is handed off after the acknowledgment of the first was resolved. -/
theorem inaccessible_stale_handoff :
    ¬∀ (before : List Entry) (id : String) (response : Except ClientError Unit)
    (middle : List Entry) (route : Route)
      (envelope : Envelope) (rendered : String) (result : Except RuntimeError String)
      (after : List Entry),
      (run (sampleOutside [sampleItem "stable", sampleItem "stable"] (.error (.http 404)))
        sampleRoutes [0, 0] {}).2.log = before ++ Entry.acknowledged id response :: middle ++
        Entry.injected route envelope rendered result :: after →
      (response = .ok () ∨ response = .error (.http 404)) → envelope.inboxItemId = id →
      ∃ cursor page, Entry.fetched cursor (.ok page) ∈ middle ∧
        ∃ item ∈ page.items, item.inboxItemId = id := by
  intro h
  obtain ⟨cursor, page, hmem, -⟩ := h
    ([.ticked 0, .fetched none (.ok ⟨[sampleItem "stable", sampleItem "stable"], none⟩)] ++
      (sampleHandoff (.error (.http 404))).dropLast) "stable" (.error (.http 404))
    [.ticked 0, .attempted 0 (sampleItem "stable")] _ _ _ _ _ sampleInaccessible_log (.inr rfl) rfl
  simp at hmem

theorem sampleRepeated_log :
    (run (sampleOutside [sampleItem "stable", sampleItem "stable"] (.ok ())) sampleRoutes [0, 0]
      {}).2.log =
      [Entry.ticked 0,
        Entry.fetched none (.ok ⟨[sampleItem "stable", sampleItem "stable"], none⟩)] ++
        sampleHandoff (.ok ()) ++
        [Entry.ticked 0,
          Entry.fetched none (.ok ⟨[sampleItem "stable", sampleItem "stable"], none⟩)] ++
        sampleHandoff (.ok ()) := by
  rfl

/-- The copy of an acknowledged item is pruned; the next page brings it back. -/
theorem no_stale_handoff_sample : ∃ cursor page, Entry.fetched cursor (.ok page) ∈
    [.ticked 0, .fetched none (.ok ⟨[sampleItem "stable", sampleItem "stable"], none⟩),
      .attempted 0 (sampleItem "stable")] ∧ ∃ item ∈ page.items, item.inboxItemId = "stable" := by
  refine no_stale_handoff (sampleOutside [sampleItem "stable", sampleItem "stable"] (.ok ()))
    sampleRoutes
    [0, 0] ?_
    ([.ticked 0, .fetched none (.ok ⟨[sampleItem "stable", sampleItem "stable"], none⟩)] ++
      (sampleHandoff (.ok ())).dropLast) "stable" (.ok ()) _ _ _ _ _ _ sampleRepeated_log
        (.inl rfl) rfl
  intro before id after hlog
  have hmem : .acknowledged id (.error (.http 404)) ∈ before ++
      .acknowledged id (.error (.http 404)) :: after := by simp
  rw [← hlog, sampleRepeated_log] at hmem
  simp [sampleHandoff] at hmem

end Sample

end AgentJournal.InboxWorker
