import AgentJournal.Foundation.Machine
import AgentJournal.InboxWorker.Moves
import Mathlib.Data.List.Nodup

/-! # Safety of the inbox worker

An acknowledgment follows a handoff that succeeded, an item whose acknowledgment is pending is
not handed off again, and only the route of the item's own key is used. After a failed
acknowledgment nothing is called until the central backoff has elapsed.
-/

namespace AgentJournal.InboxWorker
open Domain Client Foundation
variable {O : Outside} {routes : StaticRoutes} {now : Duration} {s t : Session} {w : Worker}
  {log more : List Entry} {id : String} {response : Except ClientError Unit}

section Logs

/-- The runtime accepted an item with this id. -/
def Handed (log : List Entry) (id : String) : Prop :=
  ∃ route envelope rendered receipt, .injected route envelope rendered (.ok receipt) ∈ log ∧
    envelope.inboxItemId = id

/-- Some page brought the item. -/
def Fetched (log : List Entry) (item : InboxItem) : Prop :=
  ∃ cursor page, .fetched cursor (.ok page) ∈ log ∧ item ∈ page.items

/-- The answer to an acknowledgment of this id. -/
def Entry.answer (id : String) : Entry → Option (Except ClientError Unit)
  | .acknowledged id' response => if id' = id then some response else none
  | _ => none

def lastAnswer (log : List Entry) (id : String) : Option (Except ClientError Unit) :=
  (log.filterMap (Entry.answer id)).getLast?

/-- The last acknowledgment of this id is to be tried again. -/
def Awaiting (log : List Entry) (id : String) : Prop :=
  (lastAnswer log id).any unanswered = true

/-- The item's own key names the route, and the route may be used. -/
structure UsesRoute (routes : StaticRoutes) (item : InboxItem) (route : Route) : Prop where
  looked : routes (item.record.spaceId ++ "/" ++ item.record.routingKey.getD "default") = some route
  key : route.key = item.record.routingKey.getD "default"
  enabled : route.enabled = true
  target : route.runtimeTarget ≠ ""

theorem Handed.append (h : Handed log id) : Handed (log ++ more) id := by
  obtain ⟨route, envelope, rendered, receipt, hmem, hid⟩ := h
  exact ⟨route, envelope, rendered, receipt, List.mem_append_left _ hmem, hid⟩

theorem Fetched.append {item : InboxItem} (h : Fetched log item) : Fetched (log ++ more) item := by
  obtain ⟨cursor, page, hmem, hitem⟩ := h
  exact ⟨cursor, page, List.mem_append_left _ hmem, hitem⟩

theorem awaiting_append (hmore : ∀ entry ∈ more, entry.answer id = none) :
    Awaiting (log ++ more) id ↔ Awaiting log id := by
  have hnone : more.filterMap (Entry.answer id) = [] := List.filterMap_eq_nil_iff.mpr hmore
  unfold Awaiting lastAnswer
  rw [List.filterMap_append, hnone, List.append_nil]

theorem awaiting_acknowledged {other : String} :
    Awaiting (log ++ [Entry.acknowledged id response]) other ↔
      if id = other then unanswered response = true else Awaiting log other := by
  unfold Awaiting lastAnswer
  by_cases h : id = other
  · simp [Entry.answer, h]
  · simp [Entry.answer, h]

theorem usesRoute_of_routeFor {item : InboxItem} {route : Route}
    (h : routeFor routes item.record.spaceId (item.record.routingKey.getD "default") = some route) :
    UsesRoute routes item route := by
  unfold routeFor at h
  rw [Option.filter_eq_some_iff] at h
  obtain ⟨hlooked, hroute⟩ := h
  simp only [Bool.and_eq_true, decide_eq_true_eq] at hroute
  exact ⟨hlooked, hroute.1.2, hroute.1.1.2, hroute.2⟩

end Logs

/-- What may stand in the log after the given entries. -/
def Allowed (routes : StaticRoutes) (before : List Entry) : Entry → Prop
  | .acknowledged id _ => Handed before id
  | .injected route envelope _ _ => ¬Awaiting before envelope.inboxItemId ∧
      ∃ item, Fetched before item ∧ envelope = .fromItem item ∧ UsesRoute routes item route
  | _ => True

structure Safe (routes : StaticRoutes) (s : Session) : Prop where
  pendingBound : s.worker.pending.length ≤ pendingLimit
  failureBound : s.worker.failures.size ≤ failureLimit
  pendingIds : (s.worker.pending.map (·.id)).Nodup
  awaiting : ∀ id, Awaiting s.log id ↔ id ∈ s.worker.pending.map (·.id)
  handed : ∀ id ∈ s.worker.pending.map (·.id), Handed s.log id
  fetched : ∀ item ∈ s.worker.page, Fetched s.log item
  lawful : Lawful (Allowed routes) s.log

/-- Entries other than answers and handoffs, with a worker that holds no more than before. -/
theorem Safe.quiet (h : Safe routes ⟨w, log⟩) {w' : Worker} (hpending : w'.pending = w.pending)
    (hfailures : w'.failures.size ≤ failureLimit)
    (hpage : ∀ item ∈ w'.page, Fetched (log ++ more) item)
    (hmore : ∀ entry ∈ more, (∀ id, entry.answer id = none) ∧
      ∀ before, Allowed routes before entry) :
    Safe routes ⟨w', log ++ more⟩ where
  pendingBound := hpending ▸ h.pendingBound
  failureBound := hfailures
  pendingIds := hpending ▸ h.pendingIds
  awaiting id := by
    rw [awaiting_append fun entry hentry => (hmore entry hentry).1 id, hpending]
    exact h.awaiting id
  handed id hid := (h.handed id (hpending ▸ hid)).append
  fetched := hpage
  lawful := h.lawful.append fun entry hentry => (hmore entry hentry).2

/-- The answer to an acknowledgment of an item that was handed off, with the rest of the queue. -/
theorem Safe.settle (h : Safe routes ⟨w, log⟩) {pending : Pending} {rest : List Pending}
    (hhanded : Handed log pending.id) (hrest : rest.Sublist w.pending)
    (hother : ∀ id, id ≠ pending.id → id ∈ w.pending.map (·.id) → id ∈ rest.map (·.id))
    (hfree : pending.id ∉ rest.map (·.id)) (hroom : rest.length < pendingLimit) :
    Safe routes ⟨Worker.settle { w with pending := rest } pending now response,
      log ++ [Entry.acknowledged pending.id response]⟩ := by
  have hids : (rest.map (·.id)).Sublist (w.pending.map (·.id)) := hrest.map _
  have hnodup : (rest.map (·.id)).Nodup := h.pendingIds.sublist hids
  have hawaiting : ∀ id, Awaiting (log ++ [Entry.acknowledged pending.id response]) id ↔
      id ∈ (Worker.settle { w with pending := rest } pending now response).pending.map (·.id) := by
    intro id
    rw [awaiting_acknowledged, Worker.settle_pending]
    by_cases hid : pending.id = id
    · subst hid
      by_cases hun : unanswered response = true
      · simp [hun]
      · simpa [hun] using hfree
    · have hprior : Awaiting log id ↔ id ∈ rest.map (·.id) := by
        rw [h.awaiting id]
        exact ⟨hother id (Ne.symm hid), fun hmem => hids.subset hmem⟩
      rw [if_neg hid, hprior]
      by_cases hun : unanswered response = true
      · simp [hun, Ne.symm hid]
      · simp [hun]
  refine ⟨?_, ?_, ?_, hawaiting, ?_, ?_, h.lawful.snoc hhanded⟩
  · rw [Worker.settle_pending]
    split_ifs
    · rw [List.length_append, List.length_singleton]
      exact hroom
    · exact hroom.le
  · rw [Worker.settle_failures]
    exact h.failureBound
  · rw [Worker.settle_pending]
    split_ifs
    · rw [List.map_append, List.nodup_append']
      exact ⟨hnodup, List.nodup_singleton _, List.disjoint_singleton.mpr hfree⟩
    · exact hnodup
  · intro id hid
    rw [Worker.settle_pending] at hid
    split_ifs at hid
    · rw [List.map_append, List.mem_append] at hid
      rcases hid with hid | hid
      · exact (h.handed id (hids.subset hid)).append
      · obtain rfl : id = pending.id := by simpa using hid
        exact hhanded.append
    · exact (h.handed id (hids.subset hid)).append
  · intro item hitem
    rw [Worker.settle_page] at hitem
    split_ifs at hitem
    · exact (h.fetched item (List.mem_of_mem_filter hitem)).append
    · exact (h.fetched item hitem).append

theorem size_erase_le (failures : Std.TreeMap String Retry) (id : String) :
    (failures.erase id).size ≤ failures.size := by
  rw [Std.TreeMap.size_erase]
  split_ifs <;> omega

/-- After the eviction there is room for one more entry. -/
theorem size_evict_lt {failures : Std.TreeMap String Retry} (h : failures.size ≤ failureLimit) :
    (evict failures).size < failureLimit := by
  unfold evict evictSoonest
  by_cases hfull : failureLimit ≤ failures.size
  · rw [if_pos hfull]
    cases hsoonest : failures.toList.argmin fun e => e.2.after with
    | none =>
      have hempty : failures.toList = [] := List.argmin_eq_none.mp hsoonest
      have hsize : failures.size = 0 := by
        rw [← Std.TreeMap.length_toList, hempty, List.length_nil]
      exact absurd hfull (by rw [hsize]; decide)
    | some e =>
      have hmem : e ∈ failures.toList := List.argmin_mem hsoonest
      have hcontains : failures.contains e.1 = true := by
        rw [Std.TreeMap.contains_eq_isSome_getElem?,
          Std.TreeMap.mem_toList_iff_getElem?_eq_some.mp (show (e.1, e.2) ∈ _ from hmem)]
        rfl
      simp only [Option.map_some, Std.TreeMap.size_erase, hcontains, if_true]
      have hpositive : 0 < failureLimit := by decide
      omega
  · rw [if_neg hfull]
    exact not_le.mp hfull

theorem size_insert_le (failures : Std.TreeMap String Retry) (id : String) (retry : Retry) :
    (failures.insert id retry).size ≤ failures.size + 1 := by
  rw [Std.TreeMap.size_insert]
  split_ifs <;> omega

theorem Refusal.answer {envelope : Envelope} {calls : List Entry}
    (h : Refusal routes envelope calls) :
    ∀ entry ∈ calls, entry.answer id = none := by
  cases h with
  | unrouted => simp
  | answered hroute => simp [Entry.answer]

theorem evictions_quiet (failures : Std.TreeMap String Retry) (routes : StaticRoutes) :
    ∀ entry ∈ evictions failures, (∀ id, entry.answer id = none) ∧
      ∀ before, Allowed routes before entry := by
  intro entry hentry
  unfold evictions at hentry
  rw [Option.mem_toList, Option.map_eq_some_iff] at hentry
  obtain ⟨soonest, -, rfl⟩ := hentry
  exact ⟨fun _ => rfl, fun _ => trivial⟩

theorem not_mem_pending_of_holdsBack (h : w.holdsBack now id = false) :
    id ∉ w.pending.map (·.id) := by
  unfold Worker.holdsBack at h
  rw [Bool.or_eq_false_iff, List.any_eq_false] at h
  rw [List.mem_map]
  rintro ⟨pending, hmem, hid⟩
  exact h.1 pending hmem (by simpa using hid)

/-- The item that is taken may be handed off. -/
theorem Safe.attempted (h : Safe routes ⟨w, log⟩) (now : Duration) {item : InboxItem}
    {rest : List InboxItem}
    (hpage : w.page = item :: rest) :
    Safe routes ⟨{ w with page := rest }, log ++ [Entry.attempted now item]⟩ ∧
      Fetched (log ++ [Entry.attempted now item]) item := by
  have hfetched : ∀ x ∈ item :: rest, Fetched (log ++ [Entry.attempted now item]) x := by
    intro x hx
    exact (h.fetched x (by rw [hpage]; exact hx)).append
  refine ⟨h.quiet rfl h.failureBound (fun x hx => hfetched x (List.mem_cons_of_mem _ hx)) ?_,
    hfetched item List.mem_cons_self⟩
  intro entry hentry
  rw [List.mem_singleton] at hentry
  subst hentry
  exact ⟨fun _ => rfl, fun _ => trivial⟩

/-- A handoff through the route of the item's key. -/
theorem Safe.injected (h : Safe routes ⟨w, log⟩) {item : InboxItem} {route : Route}
    {rendered : String} {result : Except RuntimeError String} (hitem : Fetched log item)
    (hfree : item.inboxItemId ∉ w.pending.map (·.id))
    (hroute : routeFor routes item.record.spaceId (item.record.routingKey.getD "default") =
      some route) :
    Safe routes ⟨w, log ++ [Entry.injected route (.fromItem item) rendered result]⟩ where
  pendingBound := h.pendingBound
  failureBound := h.failureBound
  pendingIds := h.pendingIds
  awaiting id := by
    rw [awaiting_append fun entry hentry => by rw [List.mem_singleton.mp hentry]; rfl]
    exact h.awaiting id
  handed id hid := (h.handed id hid).append
  fetched x hx := (h.fetched x hx).append
  lawful := by
    refine h.lawful.snoc ⟨?_, item, hitem, rfl, usesRoute_of_routeFor hroute⟩
    exact fun hawaiting => hfree ((h.awaiting _).mp hawaiting)

theorem Safe.refused (h : Safe routes ⟨w, log⟩) {item : InboxItem} {calls : List Entry}
    (hitem : Fetched log item) (hfree : item.inboxItemId ∉ w.pending.map (·.id))
    (hrefusal : Refusal routes (.fromItem item) calls) : Safe routes ⟨w, log ++ calls⟩ := by
  cases hrefusal with
  | unrouted => simpa using h
  | answered hroute => exact h.injected hitem hfree hroute

theorem Safe.noteFailure (h : Safe routes s) : Safe routes (noteFailure now id s) := by
  rw [noteFailure_eq, List.append_assoc]
  apply h.quiet
  · rfl
  · have hevict := size_evict_lt ((size_erase_le s.worker.failures id).trans h.failureBound)
    exact (size_insert_le _ _ _).trans hevict
  · exact fun x hx => (h.fetched x hx).append
  · intro entry hentry
    rcases List.mem_append.mp hentry with hentry | hentry
    · exact evictions_quiet _ routes entry hentry
    · rw [List.mem_singleton.mp hentry]
      exact ⟨fun _ => rfl, fun _ => trivial⟩

/-- The failures of a safe session without one of them. -/
theorem Safe.erase (h : Safe routes ⟨w, log⟩) (id : String) :
    Safe routes ⟨{ w with failures := w.failures.erase id }, log⟩ :=
  { h with failureBound := (size_erase_le w.failures id).trans h.failureBound }

/-- The queue without the acknowledgment that is due. -/
theorem pending_split {p : Pending → Bool} {l : List Pending} {pending : Pending}
    (h : l.find? p = some pending) :
    ∃ before after, l = before ++ pending :: after ∧ l.eraseP p = before ++ after := by
  obtain ⟨hp, before, after, rfl, hbefore⟩ := List.find?_eq_some_iff_append.mp h
  refine ⟨before, after, rfl, ?_⟩
  rw [List.eraseP_append_right _ fun b hb => by simpa using hbefore b hb,
    List.eraseP_cons_of_pos hp]

theorem Safe.settled (h : Safe routes ⟨w, log⟩) {pending : Pending}
    (hdue : w.pending.find? (Pending.due now) = some pending) :
    Safe routes
    ⟨Worker.settle { w with pending := w.pending.eraseP (Pending.due now) } pending now response,
      log ++ [Entry.acknowledged pending.id response]⟩ := by
  obtain ⟨before, after, hpending, herase⟩ := pending_split hdue
  have hmem : pending ∈ w.pending := List.mem_of_find?_eq_some hdue
  have hnodup : ((before ++ pending :: after).map (·.id)).Nodup := hpending ▸ h.pendingIds
  have hbound : (before ++ pending :: after).length ≤ pendingLimit := hpending ▸ h.pendingBound
  rw [List.map_append, List.map_cons, List.nodup_middle, List.nodup_cons] at hnodup
  refine h.settle (h.handed _ (List.mem_map_of_mem hmem)) List.eraseP_sublist ?_ ?_ ?_
  · intro id hid hqueued
    rw [herase]
    rw [hpending] at hqueued
    simp only [List.map_append, List.map_cons, List.mem_append, List.mem_cons] at hqueued ⊢
    rcases hqueued with hqueued | rfl | hqueued
    · exact .inl hqueued
    · exact absurd rfl hid
    · exact .inr hqueued
  · rw [herase, List.map_append]
    exact hnodup.1
  · rw [herase]
    rw [List.length_append, List.length_cons] at hbound
    rw [List.length_append]
    omega

/-- Every move of the worker is safe. -/
theorem Safe.move (h : Safe routes s) (hmove : Move routes now s t) : Safe routes t := by
  have hsingle : ∀ {w w' : Worker} {log : List Entry} {entry : Entry}, Safe routes ⟨w, log⟩ →
      w'.pending = w.pending → w'.failures = w.failures →
      (∀ item ∈ w'.page, Fetched (log ++ [entry]) item) → (∀ id, entry.answer id = none) →
      (∀ before, Allowed routes before entry) → Safe routes ⟨w', log ++ [entry]⟩ := by
    intro w w' log entry h hpending hfailures hpage hanswer hallowed
    refine h.quiet hpending (hfailures ▸ h.failureBound) hpage fun e he => ?_
    rw [List.mem_singleton.mp he]
    exact ⟨hanswer, hallowed⟩
  cases hmove with
  | @settled w log pending response hcentral hdue =>
    exact h.settled hdue
  | @loaded w log page hcentral hpending hpage hvalid =>
    refine hsingle h rfl rfl (fun item hitem => ?_) (fun _ => rfl) fun _ => trivial
    exact ⟨w.cursor, page, by simp, hitem⟩
  | @restarted w log hcentral hpending hpage hunused =>
    have hfetched : Safe routes ⟨w, log ++ [Entry.fetched w.cursor (.error (.http 400))]⟩ :=
      hsingle h rfl rfl (fun item hitem => (h.fetched item hitem).append) (fun _ => rfl)
        fun _ => trivial
    exact hsingle hfetched rfl rfl (fun item hitem => (hfetched.fetched item hitem).append)
      (fun _ => rfl) fun _ => trivial
  | unavailable hcentral hpending hpage =>
    exact hsingle h rfl rfl (fun item hitem => (h.fetched item hitem).append) (fun _ => rfl)
      fun _ => trivial
  | rejected hcentral hpending hpage hrefused =>
    exact hsingle h rfl rfl (fun item hitem => (h.fetched item hitem).append) (fun _ => rfl)
      fun _ => trivial
  | @skipped w log item rest hcentral hpending hpage hheld =>
    refine hsingle h rfl rfl (fun x hx => ?_) (fun _ => rfl) fun _ => trivial
    exact (h.fetched x (by rw [hpage]; exact List.mem_cons_of_mem _ hx)).append
  | @refused w log item rest calls hcentral hpending hpage hfree hrefusal =>
    obtain ⟨hattempted, hitem⟩ := h.attempted now hpage
    have hcalled := hattempted.refused hitem (not_mem_pending_of_holdsBack hfree) hrefusal
    exact hcalled.noteFailure
  | @handed w log item rest route rendered receipt response hcentral hpending hpage hfree hroute =>
    obtain ⟨hattempted, hitem⟩ := h.attempted now hpage
    have hnotPending := not_mem_pending_of_holdsBack hfree
    have hinjected : Safe routes ⟨{ w with page := rest }, log ++ [Entry.attempted now item] ++
        [.injected route (.fromItem item) rendered (.ok receipt)]⟩ :=
      hattempted.injected hitem hnotPending hroute
    exact (hinjected.erase item.inboxItemId).settle
      ⟨route, .fromItem item, rendered, receipt, by simp, rfl⟩ (.refl _) (fun _ _ hid => hid)
      hnotPending hpending

theorem reachable_safe (h : (machine routes).Reachable s) : Safe routes s := by
  refine h.invariant (I := Safe routes) ?_ ?_
  · rintro s rfl
    have hempty : (∅ : Std.TreeMap String Retry).size ≤ failureLimit := Nat.zero_le _
    exact ⟨Nat.zero_le _, hempty, List.nodup_nil, fun id => by simp [Awaiting, lastAnswer],
      by simp, by simp, .nil⟩
  · rintro s now t h (rfl | hmove)
    · refine h.quiet rfl h.failureBound (fun x hx => (h.fetched x hx).append) fun entry hentry => ?_
      rw [List.mem_singleton.mp hentry]
      exact ⟨fun _ => rfl, fun _ => trivial⟩
    · exact h.move hmove

section Backoff
variable {event : Event} {events : List Event}

theorem acknowledge_pending {pending : Pending} (h : acknowledge O pending now s = (.ok event, t))
    (hevent : event.kind = .ackPending) : t.worker.central = s.worker.central.fail now := by
  unfold acknowledge at h
  simp only [Session.record, Session.update] at h
  split at h
  · obtain ⟨rfl, -⟩ : _ ∧ _ := by simpa using h
    cases hevent
  · split at h
    · obtain ⟨rfl, -⟩ : _ ∧ _ := by simpa using h
      cases hevent
    · split at h
      · cases h
      · obtain ⟨-, rfl⟩ := Prod.mk.inj h
        rfl

theorem retryDue_pending {stop : Bool} (h : retryDue O now s = (.ok (events, stop), t))
    (hmem : event ∈ events) (hevent : event.kind = .ackPending) :
    stop = true ∧ t.worker.central = s.worker.central.fail now := by
  unfold retryDue at h
  split at h
  · obtain ⟨⟨rfl, -⟩, -⟩ : (_ ∧ _) ∧ _ := by simpa using h
    simp at hmem
  · simp only at h
    split at h
    · cases h
    · rename_i hacknowledged
      obtain ⟨⟨rfl, rfl⟩, rfl⟩ : (_ ∧ _) ∧ _ := by simpa using h
      obtain rfl := List.mem_singleton.mp hmem
      have hcentral := acknowledge_pending hacknowledged hevent
      exact ⟨by simpa using hevent, hcentral⟩

theorem refill_pending {stop : Bool} (h : refill O now s = (.ok (events, stop), t))
    (hmem : event ∈ events) : event.kind ≠ .ackPending := by
  unfold refill at h
  simp only at h
  split at h
  · obtain ⟨⟨rfl, -⟩, -⟩ : (_ ∧ _) ∧ _ := by simpa using h
    simp at hmem
  · split at h
    · split at h
      · cases h
      · obtain ⟨⟨rfl, -⟩, -⟩ : (_ ∧ _) ∧ _ := by simpa using h
        simp at hmem
    · split at h
      · obtain ⟨⟨rfl, -⟩, -⟩ : (_ ∧ _) ∧ _ := by simpa using h
        rw [List.mem_singleton.mp hmem]
        simp
      · split at h
        · cases h
        · obtain ⟨⟨rfl, -⟩, -⟩ : (_ ∧ _) ∧ _ := by simpa using h
          rw [List.mem_singleton.mp hmem]
          simp

theorem handOff_kind {envelope : Envelope} {kind : EventKind}
    (h : handOff O routes envelope s = (.error kind, t)) : kind ≠ .ackPending := by
  unfold handOff at h
  split at h
  · obtain ⟨rfl, -⟩ : _ ∧ _ := by simpa using h
    simp
  · simp only at h
    split at h
    · cases h
    all_goals
      obtain ⟨rfl, -⟩ : _ ∧ _ := by simpa using h
      simp

theorem takeNext_pending (h : takeNext O routes now s = (.ok events, t)) (hmem : event ∈ events)
    (hevent : event.kind = .ackPending) : ∃ retry : Retry, t.worker.central = retry.fail now := by
  unfold takeNext at h
  split at h
  · obtain ⟨rfl, -⟩ : _ ∧ _ := by simpa using h
    simp at hmem
  · simp only at h
    split at h
    · obtain ⟨rfl, -⟩ : _ ∧ _ := by simpa using h
      simp at hmem
    · split at h
      · rename_i hhanded
        obtain ⟨rfl, -⟩ : _ ∧ _ := by simpa using h
        rw [List.mem_singleton.mp hmem] at hevent
        exact absurd hevent (handOff_kind hhanded)
      · split at h
        · cases h
        · rename_i hacknowledged
          obtain ⟨rfl, rfl⟩ : _ ∧ _ := by simpa using h
          rw [List.mem_singleton.mp hmem] at hevent
          exact ⟨_, acknowledge_pending hacknowledged hevent⟩

/-- A tick with a failed acknowledgment leaves a central backoff from its own time on. -/
theorem tick_pending (h : tick O routes now s = (.ok events, t)) (hmem : event ∈ events)
    (hevent : event.kind = .ackPending) : ∃ retry : Retry, t.worker.central = retry.fail now := by
  unfold tick at h
  simp only at h
  split at h
  · obtain ⟨rfl, -⟩ : _ ∧ _ := by simpa using h
    simp at hmem
  · split at h
    · cases h
    · rename_i hretried
      obtain ⟨rfl, rfl⟩ : _ ∧ _ := by simpa using h
      exact ⟨_, (retryDue_pending hretried hmem hevent).2⟩
    · rename_i hretried
      have hnotRetried : event ∉ _ := fun hearly =>
        absurd (retryDue_pending hretried hearly hevent).1 (by simp)
      split at h
      · obtain ⟨rfl, -⟩ : _ ∧ _ := by simpa using h
        exact absurd hmem hnotRetried
      · split at h
        · cases h
        · rename_i hrefilled
          obtain ⟨rfl, -⟩ : _ ∧ _ := by simpa using h
          rcases List.mem_append.mp hmem with hmem | hmem
          · exact absurd hmem hnotRetried
          · exact absurd hevent (refill_pending hrefilled hmem)
        · rename_i hrefilled
          split at h
          · cases h
          · rename_i htaken
            obtain ⟨rfl, rfl⟩ : _ ∧ _ := by simpa using h
            rw [List.mem_append, List.mem_append] at hmem
            rcases hmem with hmem | hmem | hmem
            · exact absurd hmem hnotRetried
            · exact absurd hevent (refill_pending hrefilled hmem)
            · exact takeNext_pending htaken hmem hevent

/-- Ticks before the central backoff has elapsed call nothing. -/
theorem run_before_backoff (O : Outside) (routes : StaticRoutes) :
    ∀ (clock : List Duration) (s : Session), (∀ now ∈ clock, now < s.worker.central.after) →
      run O routes clock s = (none, ⟨s.worker, s.log ++ clock.map .ticked⟩)
  | [], s, _ => by simp [run]
  | now :: rest, s, h => by
    have htick : tick O routes now s = (.ok [], s.record (.ticked now)) :=
      if_pos (h now List.mem_cons_self)
    have hrest := run_before_backoff O routes rest (s.record (.ticked now))
      fun later hlater => h later (List.mem_cons_of_mem _ hlater)
    unfold run
    rw [htick]
    simpa [Session.record] using hrest

end Backoff

/-- The worker is safe in every run: what is acknowledged was handed off, what awaits its
acknowledgment is not handed off, each handoff uses the route of the item's own key, the queues
are bounded, and a failed acknowledgment stops every call until the central backoff elapses. -/
theorem worker_safety (O : Outside) (routes : StaticRoutes) (clock : List Duration) :
    let s := (run O routes clock {}).2
    (∀ (before : List Entry) (id : String) (response : Except ClientError Unit)
      (after : List Entry),
      s.log = before ++ Entry.acknowledged id response :: after → Handed before id) ∧
    (∀ (before : List Entry) (route : Route) (envelope : Envelope) (rendered : String)
      (result : Except RuntimeError String) (after : List Entry),
      s.log = before ++ Entry.injected route envelope rendered result :: after →
      ¬Awaiting before envelope.inboxItemId ∧
      ∃ item, Fetched before item ∧ envelope = .fromItem item ∧ UsesRoute routes item route) ∧
    (∀ id, Awaiting s.log id ↔ ∃ pending ∈ s.worker.pending, pending.id = id) ∧
    s.worker.pending.length ≤ pendingLimit ∧ s.worker.failures.size ≤ failureLimit ∧
    ∀ now events t, (run O routes clock {}).1 = none → tick O routes now s = (.ok events, t) →
      (∃ event ∈ events, event.kind = .ackPending) →
      (∃ retry : Retry, t.worker.central = retry.fail now) ∧
      ∀ more, (∀ later ∈ more, later < t.worker.central.after) →
        run O routes more t = (none, ⟨t.worker, t.log ++ more.map .ticked⟩) := by
  have hsafe := reachable_safe (run_reachable O routes clock)
  refine ⟨?_, ?_, ?_, hsafe.pendingBound, hsafe.failureBound, ?_⟩
  · intro before id response after hlog
    exact hsafe.lawful before _ after hlog
  · intro before route envelope rendered result after hlog
    exact hsafe.lawful before _ after hlog
  · intro id
    rw [hsafe.awaiting id, List.mem_map]
  · intro now events t _ htick ⟨event, hmem, hevent⟩
    exact ⟨tick_pending htick hmem hevent, fun more hmore =>
      run_before_backoff O routes more t hmore⟩

end AgentJournal.InboxWorker
