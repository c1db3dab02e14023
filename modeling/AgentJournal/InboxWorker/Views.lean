import AgentJournal.InboxWorker.Safety

/-! # What the log shows of the worker

The page, the failure delays and the restart flag can be read off the log. In every run the
worker holds exactly what the log shows, so the order of its steps is a law of the log.
-/

namespace AgentJournal.InboxWorker
open Domain Client Foundation
variable {O : Outside} {routes : StaticRoutes} {now : Duration} {s t : Session} {w : Worker}
  {log more : List Entry} {entry : Entry} {id : String} {response : Except ClientError Unit}

/-- The page after an entry. -/
def Entry.buffer (page : List InboxItem) : Entry → List InboxItem
  | .fetched _ (.ok next) => if invalidPage next then page else next.items
  | .skipped _ _ | .attempted _ _ => page.tail
  | .acknowledged id (.ok ()) => page.filter fun item => item.inboxItemId ≠ id
  | _ => page

/-- The items of the last page that are not yet taken. -/
def buffered (log : List Entry) : List InboxItem := log.foldl Entry.buffer []

/-- The failure delay of an item after an entry. -/
def Entry.delay (id : String) (retry : Option Retry) : Entry → Option Retry
  | .failed now id' => if id' = id then some ((retry.getD {}).fail now) else retry
  | .evicted id' => if id' = id then none else retry
  | .injected _ envelope _ (.ok _) => if envelope.inboxItemId = id then none else retry
  | _ => retry

/-- The delay after the last failures of an item, unless its entry gave way. -/
def backoff (log : List Entry) (id : String) : Option Retry := log.foldl (Entry.delay id) none

/-- The restart flag after an entry. -/
def Entry.restarts (used : Bool) : Entry → Bool
  | .fetched _ (.ok page) => if !invalidPage page && page.nextCursor.isNone then false else used
  | .restarted => true
  | _ => used

def restartUsed (log : List Entry) : Bool := log.foldl Entry.restarts false

@[simp] theorem buffered_snoc : buffered (log ++ [entry]) = entry.buffer (buffered log) := by
  simp [buffered]

@[simp] theorem backoff_snoc : backoff (log ++ [entry]) id = entry.delay id (backoff log id) := by
  simp [backoff]

@[simp] theorem restartUsed_snoc :
    restartUsed (log ++ [entry]) = entry.restarts (restartUsed log) := by
  simp [restartUsed]

/-- The worker holds what the log shows. -/
structure Shown (s : Session) : Prop where
  page : s.worker.page = buffered s.log
  failures : ∀ id, s.worker.failures[id]? = backoff s.log id
  restart : s.worker.cursorRestartUsed = restartUsed s.log

/-- The other failures are at their limit, and none of them is due before the given one. -/
def Crowded (log : List Entry) (id soonest : String) : Prop :=
  ∃ held : List String, held.Nodup ∧ held.length = failureLimit ∧ soonest ∈ held ∧
    (∀ x, x ∈ held ↔ x ≠ id ∧ (backoff log x).isSome) ∧
    ∀ x ∈ held, ∀ first other, backoff log soonest = some first → backoff log x = some other →
      first.after ≤ other.after

/-- The order in which the worker proceeds. -/
def Orderly (routes : StaticRoutes) (before : List Entry) : Entry → Prop
  | .fetched _ _ => buffered before = []
  | .skipped now item => (buffered before).head? = some item ∧
      (Awaiting before item.inboxItemId ∨
        ∃ retry, backoff before item.inboxItemId = some retry ∧ now < retry.after)
  | .attempted now item => (buffered before).head? = some item ∧
      ¬Awaiting before item.inboxItemId ∧
      ∀ retry, backoff before item.inboxItemId = some retry → retry.after ≤ now
  | .injected _ envelope _ _ => ∃ init now item, before = init ++ [Entry.attempted now item] ∧
      envelope = .fromItem item
  | .evicted soonest => ∃ init now item calls, before = init ++ Entry.attempted now item :: calls ∧
      Refusal routes (.fromItem item) calls ∧ Crowded before item.inboxItemId soonest
  | .restarted => restartUsed before = false
  | _ => True

section Evictions
variable {failures : Std.TreeMap String Retry} {soonest : String}

theorem getElem?_erase_eq (id x : String) :
    (failures.erase id)[x]? = if id = x then none else failures[x]? := by
  rw [Std.TreeMap.getElem?_erase]
  simp only [Std.LawfulEqCmp.compare_eq_iff_eq]

theorem getElem?_insert_eq (id x : String) (retry : Retry) :
    (failures.insert id retry)[x]? = if id = x then some retry else failures[x]? := by
  rw [Std.TreeMap.getElem?_insert]
  simp only [Std.LawfulEqCmp.compare_eq_iff_eq]

theorem getElem?_evict (x : String) :
    (evict failures)[x]? = if evictSoonest failures = some x then none else failures[x]? := by
  unfold evict
  cases evictSoonest failures with
  | none => simp
  | some soonest => simp [getElem?_erase_eq]

/-- What gives way is held, and nothing held is due before it. -/
theorem evictSoonest_spec (h : evictSoonest failures = some soonest) :
    failureLimit ≤ failures.size ∧ ∃ first : Retry, failures[soonest]? = some first ∧
      ∀ (x : String) (other : Retry), failures[x]? = some other → first.after ≤ other.after := by
  unfold evictSoonest at h
  split_ifs at h with hfull
  obtain ⟨e, hargmin, rfl⟩ := Option.map_eq_some_iff.mp h
  have hmem : (e.1, e.2) ∈ failures.toList := List.argmin_mem hargmin
  refine ⟨hfull, e.2, Std.TreeMap.mem_toList_iff_getElem?_eq_some.mp hmem, fun x other hx => ?_⟩
  have hother : (x, other) ∈ failures.toList := Std.TreeMap.mem_toList_iff_getElem?_eq_some.mpr hx
  have hle := List.le_of_mem_argmin hother hargmin
  exact hle

theorem crowded_of_evictSoonest (hbound : failures.size ≤ failureLimit)
    (hshown : ∀ x, failures[x]? = backoff log x)
    (h : evictSoonest (failures.erase id) = some soonest) : Crowded log id soonest := by
  obtain ⟨hfull, first, hfirst, hdue⟩ := evictSoonest_spec h
  have hmem : ∀ x, x ∈ (failures.erase id).keys ↔ x ≠ id ∧ (backoff log x).isSome := by
    intro x
    rw [Std.TreeMap.mem_keys, Std.TreeMap.mem_iff_isSome_getElem?, getElem?_erase_eq, hshown]
    by_cases hx : id = x
    · simp [hx]
    · simp [hx, Ne.symm hx]
  have hcontains : soonest ∈ (failures.erase id).keys := by
    rw [Std.TreeMap.mem_keys, Std.TreeMap.mem_iff_isSome_getElem?, hfirst]
    rfl
  refine ⟨(failures.erase id).keys, ?_, ?_, hcontains, hmem, ?_⟩
  · exact (Std.TreeMap.distinct_keys (t := failures.erase id)).imp fun hne heq =>
      hne (by simp [heq])
  · rw [Std.TreeMap.length_keys]
    exact le_antisymm ((size_erase_le failures id).trans hbound) hfull
  · intro x hx first' other hfirst' hother
    have hfound : ∀ y ∈ (failures.erase id).keys, (failures.erase id)[y]? = backoff log y := by
      intro y hy
      rw [getElem?_erase_eq, if_neg (Ne.symm ((hmem y).mp hy).1), hshown]
    rw [hfound soonest hcontains, hfirst'] at hfirst
    obtain rfl := Option.some.inj hfirst
    exact hdue x other ((hfound x hx).trans hother)

end Evictions

/-- Calls that were refused change nothing that the log shows. -/
theorem Refusal.shown {envelope : Envelope} {calls : List Entry} (h : Refusal routes envelope calls)
    (log : List Entry) :
    buffered (log ++ calls) = buffered log ∧ (∀ id, backoff (log ++ calls) id = backoff log id) ∧
      restartUsed (log ++ calls) = restartUsed log := by
  cases h with
  | unrouted => simp
  | answered hroute => simp [Entry.buffer, Entry.delay, Entry.restarts]

theorem Shown.settle (h : Shown ⟨w, log⟩) {pending : Pending} {rest : List Pending} :
    Shown ⟨Worker.settle { w with pending := rest } pending now response,
      log ++ [Entry.acknowledged pending.id response]⟩ where
  page := by
    rw [Worker.settle_page, buffered_snoc, ← h.page]
    rcases response with error | u <;> rfl
  failures id := by
    rw [Worker.settle_failures, backoff_snoc, ← h.failures]
    rfl
  restart := by
    rw [Worker.settle_cursorRestartUsed, restartUsed_snoc, ← h.restart]
    rfl

theorem Shown.noteFailure (h : Shown s) : Shown (noteFailure now id s) := by
  rw [noteFailure_eq]
  have hevictions : buffered (s.log ++ evictions (s.worker.failures.erase id)) = buffered s.log ∧
      (∀ x, backoff (s.log ++ evictions (s.worker.failures.erase id)) x =
        if evictSoonest (s.worker.failures.erase id) = some x then none else backoff s.log x) ∧
      restartUsed (s.log ++ evictions (s.worker.failures.erase id)) = restartUsed s.log := by
    unfold evictions
    cases evictSoonest (s.worker.failures.erase id) with
    | none => simp
    | some soonest => simp [Entry.buffer, Entry.delay, Entry.restarts]
  obtain ⟨hbuffered, hbackoff, hrestart⟩ := hevictions
  refine ⟨?_, fun x => ?_, ?_⟩
  · rw [buffered_snoc, hbuffered]
    exact h.page
  · rw [backoff_snoc, hbackoff, getElem?_insert_eq, getElem?_evict, getElem?_erase_eq, h.failures,
      h.failures]
    by_cases hx : id = x
    · subst hx
      -- The item's own entry is taken out first, so it never gives way to itself.
      have hkept : evictSoonest (s.worker.failures.erase id) ≠ some id := by
        intro hsoonest
        obtain ⟨-, first, hfirst, -⟩ := evictSoonest_spec hsoonest
        simp at hfirst
      simp [Entry.delay, hkept]
    · simp [Entry.delay, hx]
  · rw [restartUsed_snoc, hrestart]
    exact h.restart

/-- An item is held back exactly when the log shows it pending or backing off. -/
theorem holdsBack_iff (hsafe : Safe routes ⟨w, log⟩) (h : Shown ⟨w, log⟩) :
    w.holdsBack now id = true ↔
      Awaiting log id ∨ ∃ retry, backoff log id = some retry ∧ now < retry.after := by
  unfold Worker.holdsBack
  have hfailures : w.failures[id]? = backoff log id := h.failures id
  rw [hsafe.awaiting id, Bool.or_eq_true, List.any_eq_true, hfailures, Option.any_eq_true,
    List.mem_map]
  simp

/-- A session as the log shows it, after an orderly run. -/
structure View (routes : StaticRoutes) (s : Session) : Prop where
  shown : Shown s
  orderly : Lawful (Orderly routes) s.log

/-- Taking an item off the page, held back or not. -/
theorem Shown.take (h : Shown ⟨w, log⟩) (now : Duration) {item : InboxItem} {rest : List InboxItem}
    (hpage : w.page = item :: rest) :
    Shown ⟨{ w with page := rest }, log ++ [Entry.attempted now item]⟩ ∧
    Shown ⟨{ w with page := rest }, log ++ [Entry.skipped now item]⟩ ∧
    (buffered log).head? = some item := by
  have hbuffered : buffered log = item :: rest := h.page.symm.trans hpage
  refine ⟨⟨?_, fun id => ?_, ?_⟩, ⟨?_, fun id => ?_, ?_⟩, by rw [hbuffered]; rfl⟩
  · simp [hbuffered, Entry.buffer]
  · simpa [Entry.delay] using h.failures id
  · simpa [Entry.restarts] using h.restart
  · simp [hbuffered, Entry.buffer]
  · simpa [Entry.delay] using h.failures id
  · simpa [Entry.restarts] using h.restart

theorem orderly_evictions (hsafe : Safe routes s) (hshown : Shown s)
    (horderly : Lawful (Orderly routes) s.log) {init calls : List Entry} {item : InboxItem}
    (hlog : s.log = init ++ Entry.attempted now item :: calls)
    (hrefusal : Refusal routes (.fromItem item) calls) :
    Lawful (Orderly routes) (noteFailure now item.inboxItemId s).log := by
  rw [noteFailure_eq]
  unfold evictions
  cases hsoonest : evictSoonest (s.worker.failures.erase item.inboxItemId) with
  | none =>
    simp only [Option.map_none, Option.toList_none, List.append_nil]
    exact horderly.snoc trivial
  | some soonest =>
    refine (horderly.snoc ?_).snoc trivial
    exact ⟨init, now, item, calls, hlog, hrefusal,
      crowded_of_evictSoonest hsafe.failureBound hshown.failures hsoonest⟩

theorem Shown.refused (h : Shown ⟨w, log⟩) {envelope : Envelope} {calls : List Entry}
    (hrefusal : Refusal routes envelope calls) : Shown ⟨w, log ++ calls⟩ := by
  obtain ⟨hbuffered, hbackoff, hrestart⟩ := hrefusal.shown log
  exact ⟨h.page.trans hbuffered.symm, fun id => (h.failures id).trans (hbackoff id).symm,
    h.restart.trans hrestart.symm⟩

theorem Refusal.orderly {item : InboxItem} {calls : List Entry}
    (h : Refusal routes (.fromItem item) calls)
    (hlog : Lawful (Orderly routes) (log ++ [Entry.attempted now item])) :
    Lawful (Orderly routes) (log ++ [Entry.attempted now item] ++ calls) := by
  cases h with
  | unrouted => simpa using hlog
  | answered hroute => exact hlog.snoc ⟨log, now, item, rfl, rfl⟩

theorem orderly_attempted (hsafe : Safe routes ⟨w, log⟩) (hshown : Shown ⟨w, log⟩)
    {item : InboxItem}
    (hhead : (buffered log).head? = some item) (hfree : w.holdsBack now item.inboxItemId = false) :
    Orderly routes log (.attempted now item) := by
  have hnot : ¬w.holdsBack now item.inboxItemId = true := by simp [hfree]
  rw [holdsBack_iff hsafe hshown, not_or] at hnot
  exact ⟨hhead, hnot.1, fun retry hretry => not_lt.mp fun hlt => hnot.2 ⟨retry, hretry, hlt⟩⟩

theorem View.move (hsafe : Safe routes s) (h : View routes s) (hmove : Move routes now s t) :
    View routes t := by
  obtain ⟨hshown, horderly⟩ := h
  cases hmove with
  | settled response hcentral hdue => exact ⟨hshown.settle, horderly.snoc trivial⟩
  | @loaded w log page hcentral hpending hpage hvalid =>
    refine ⟨⟨?_, fun id => ?_, ?_⟩, horderly.snoc ?_⟩
    · simp [Worker.load, Entry.buffer, hvalid]
    · simpa [Worker.load, Entry.delay] using hshown.failures id
    · have hrestart : w.cursorRestartUsed = restartUsed log := hshown.restart
      simp [Worker.load, Entry.restarts, hvalid, hrestart]
    · exact hshown.page.symm.trans hpage
  | @restarted w log hcentral hpending hpage hunused =>
    have hempty : buffered log = [] := hshown.page.symm.trans hpage
    have hrestart : restartUsed log = false := hshown.restart.symm.trans hunused
    have hfetch : Orderly routes log (.fetched w.cursor (.error (.http 400))) := hempty
    refine ⟨⟨?_, fun id => ?_, ?_⟩, (horderly.snoc hfetch).snoc ?_⟩
    · rw [buffered_snoc, buffered_snoc]
      exact hshown.page
    · rw [backoff_snoc, backoff_snoc]
      exact hshown.failures id
    · rw [restartUsed_snoc]
      rfl
    · rw [Orderly, restartUsed_snoc]
      exact hrestart
  | @unavailable w log error hcentral hpending hpage =>
    have hempty : buffered log = [] := hshown.page.symm.trans hpage
    refine ⟨⟨?_, fun id => ?_, ?_⟩, horderly.snoc hempty⟩
    · simpa [Entry.buffer] using hshown.page
    · simpa [Entry.delay] using hshown.failures id
    · simpa [Entry.restarts] using hshown.restart
  | @rejected w log response hcentral hpending hpage hrefused =>
    have hempty : buffered log = [] := hshown.page.symm.trans hpage
    refine ⟨⟨?_, fun id => ?_, ?_⟩, horderly.snoc hempty⟩
    · rcases response with error | page
      · simpa [Entry.buffer] using hshown.page
      · simpa [Entry.buffer, hrefused page rfl] using hshown.page
    · simpa [Entry.delay] using hshown.failures id
    · rcases response with error | page
      · simpa [Entry.restarts] using hshown.restart
      · simpa [Entry.restarts, hrefused page rfl] using hshown.restart
  | @skipped w log item rest hcentral hpending hpage hheld =>
    obtain ⟨-, htaken, hhead⟩ := hshown.take now hpage
    exact ⟨htaken, horderly.snoc ⟨hhead, (holdsBack_iff hsafe hshown).mp hheld⟩⟩
  | @refused w log item rest calls hcentral hpending hpage hfree hrefusal =>
    obtain ⟨htaken, -, hhead⟩ := hshown.take now hpage
    obtain ⟨hattempted, hitem⟩ := hsafe.attempted now hpage
    have hcalled := hattempted.refused hitem (not_mem_pending_of_holdsBack hfree) hrefusal
    have hordered := hrefusal.orderly (horderly.snoc (orderly_attempted hsafe hshown hhead hfree))
    have hrefused := htaken.refused hrefusal
    have hlog : log ++ [Entry.attempted now item] ++ calls =
      log ++ Entry.attempted now item :: calls := by simp
    exact ⟨hrefused.noteFailure, orderly_evictions hcalled hrefused hordered hlog hrefusal⟩
  | @handed w log item rest route rendered receipt response hcentral hpending hpage hfree hroute =>
    obtain ⟨htaken, -, hhead⟩ := hshown.take now hpage
    have hordered := horderly.snoc (orderly_attempted hsafe hshown hhead hfree)
    have hinjected : Shown ⟨{ w with page := rest, failures := w.failures.erase item.inboxItemId },
        log ++ [Entry.attempted now item] ++
        [Entry.injected route (.fromItem item) rendered (.ok receipt)]⟩ := by
      refine ⟨?_, fun x => ?_, ?_⟩
      · rw [buffered_snoc]
        exact htaken.page
      · have hbackoff : w.failures[x]? = backoff (log ++ [Entry.attempted now item]) x :=
          htaken.failures x
        rw [backoff_snoc, getElem?_erase_eq, hbackoff]
        rfl
      · rw [restartUsed_snoc]
        exact htaken.restart
    have hinject : Orderly routes (log ++ [Entry.attempted now item])
        (.injected route (.fromItem item) rendered (.ok receipt)) := ⟨log, now, item, rfl, rfl⟩
    exact ⟨hinjected.settle, (hordered.snoc hinject).snoc trivial⟩

theorem reachable_view (h : (machine routes).Reachable s) : View routes s := by
  obtain ⟨s₀, hstart, hlater⟩ := h
  refine hlater.stable (I := View routes) ?_ (.of_start hstart) ?_
  · rintro s now t hs hview (rfl | hmove)
    · obtain ⟨hshown, horderly⟩ := hview
      refine ⟨⟨?_, fun id => ?_, ?_⟩, horderly.snoc trivial⟩
      · rw [Session.record, buffered_snoc]
        exact hshown.page
      · rw [Session.record, backoff_snoc]
        exact hshown.failures id
      · rw [Session.record, restartUsed_snoc]
        exact hshown.restart
    · exact hview.move (reachable_safe hs) hmove
  · obtain rfl : s₀ = {} := hstart
    exact ⟨⟨rfl, fun id => by simp [backoff], rfl⟩, .nil⟩

end AgentJournal.InboxWorker
