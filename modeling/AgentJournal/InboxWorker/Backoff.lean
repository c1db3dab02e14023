import AgentJournal.InboxWorker.Handoff

/-! # Passes and backoff of the inbox worker

The timing law of failures, the eviction rule, the order in which a page is worked off and the
bound on cursor restarts, each read off the log of a run.
-/

namespace AgentJournal.InboxWorker
open Domain Client Foundation
variable {O : Outside} {routes : StaticRoutes} {now : Duration} {s t : Session}
  {log before segment middle : List Entry} {entry : Entry} {id : String}

section Delays

/-- The time of a failure of this item. -/
def Entry.failure (id : String) : Entry → Option Duration
  | .failed now id' => if id' = id then some now else none
  | _ => none

/-- The entry neither lets the item's failure entry give way nor hands the item off. -/
def Entry.Continues (id : String) : Entry → Prop
  | .evicted id' => id' ≠ id
  | .injected _ envelope _ (.ok _) => envelope.inboxItemId ≠ id
  | _ => True

/-- The delay in nanoseconds after so many failures in a row. -/
def delayAfter (failures : ℕ) : Duration := .fromSecs (2 ^ min (failures - 1) 8)

theorem delayAfter_mono {k n : ℕ} (h : k ≤ n) : delayAfter k ≤ delayAfter n := by
  unfold delayAfter Duration.fromSecs
  apply Nat.mul_le_mul_right
  apply Nat.pow_le_pow_right (by decide)
  omega

theorem delayAfter_min (k : ℕ) : delayAfter (min k (2 ^ 32 - 1)) = delayAfter k := by
  have h : min (min k (2 ^ 32 - 1) - 1) 8 = min (k - 1) 8 := by omega
  unfold delayAfter
  rw [h]

/-- The failures in a row are counted in the entry, and its delay runs from the last of them. -/
theorem backoff_row (h : ∀ entry ∈ segment, entry.Continues id) :
    min (segment.filterMap (Entry.failure id)).length (2 ^ 32 - 1) ≤
      ((backoff (before ++ segment) id).getD {}).failures ∧
    ∀ last, (segment.filterMap (Entry.failure id)).getLast? = some last →
      ∃ retry, backoff (before ++ segment) id = some retry ∧
        retry.after = Duration.saturatingAdd last (delayAfter retry.failures) := by
  induction segment using List.reverseRecOn with
  | nil => simp
  | append_singleton segment entry ih =>
    obtain ⟨hcount, hlast⟩ := ih fun e he => h e (List.mem_append_left _ he)
    have hentry : entry.Continues id := h entry (by simp)
    rw [← List.append_assoc, backoff_snoc, List.filterMap_append]
    by_cases hfailed : ∃ now, entry = .failed now id
    · obtain ⟨now, rfl⟩ := hfailed
      simp only [Entry.delay, if_true, Entry.failure, List.filterMap_cons, List.filterMap_nil,
        List.length_append, List.length_singleton, Option.getD_some, Retry.fail]
      refine ⟨by omega, fun last hlast' => ?_⟩
      obtain rfl : now = last := by simpa using hlast'
      exact ⟨_, rfl, rfl⟩
    · -- Any other entry leaves both the count and the delay as they are.
      have hfailure : entry.failure id = none := by
        unfold Entry.failure
        split
        · rename_i now id'
          rw [if_neg fun heq => hfailed ⟨now, by rw [heq]⟩]
        · rfl
      have hdelay : entry.delay id (backoff (before ++ segment) id) =
        backoff (before ++ segment) id := by
        unfold Entry.delay
        split
        · rename_i now id'
          rw [if_neg fun heq => hfailed ⟨now, by rw [heq]⟩]
        · rw [if_neg hentry]
        · rw [if_neg hentry]
        · rfl
      have hnothing : [entry].filterMap (Entry.failure id) = [] := by simp [hfailure]
      rw [hdelay, hnothing, List.append_nil]
      exact ⟨hcount, hlast⟩

end Delays

section Restarts

def Entry.isRestart : Entry → Bool
  | .restarted => true
  | _ => false

/-- The entry is not a page without a continuation. -/
def Entry.KeepsPass : Entry → Prop
  | .fetched _ (.ok page) => page.nextCursor ≠ none
  | _ => True

/-- One restart uses up the pass. -/
theorem restarts_in_pass (horderly : Lawful (Orderly routes) (before ++ segment))
    (h : ∀ entry ∈ segment, entry.KeepsPass) :
    segment.countP Entry.isRestart ≤ 1 ∧
      (0 < segment.countP Entry.isRestart → restartUsed (before ++ segment) = true) := by
  induction segment using List.reverseRecOn with
  | nil => simp
  | append_singleton segment entry ih =>
    rw [← List.append_assoc] at horderly ⊢
    obtain ⟨hcount, hused⟩ := ih horderly.prefix_of fun e he => h e (List.mem_append_left _ he)
    have hkeeps : entry.KeepsPass := h entry (by simp)
    have hlaw : Orderly routes (before ++ segment) entry := horderly _ entry [] rfl
    rw [List.countP_append, restartUsed_snoc]
    by_cases hrestart : entry = .restarted
    · subst hrestart
      have hfresh : restartUsed (before ++ segment) = false := hlaw
      have hnone : segment.countP Entry.isRestart = 0 := by
        by_contra hpositive
        simp [hused (Nat.pos_of_ne_zero hpositive)] at hfresh
      simp [hnone, Entry.isRestart, Entry.restarts]
    · have hsame : entry.restarts (restartUsed (before ++ segment)) =
        restartUsed (before ++ segment) := by
        unfold Entry.restarts
        split
        · rw [if_neg]
          simp only [Bool.and_eq_true, Option.isNone_iff_eq_none, not_and]
          exact fun _ => hkeeps
        · exact absurd rfl hrestart
        · rfl
      have hnot : entry.isRestart = false := by
        unfold Entry.isRestart
        split
        · exact absurd rfl hrestart
        · rfl
      have hnothing : [entry].countP Entry.isRestart = 0 := by simp [hnot]
      rw [hsame, hnothing, Nat.add_zero]
      exact ⟨hcount, hused⟩

end Restarts

section Pages

/-- The item that the entry takes off the page. -/
def Entry.taken : Entry → Option InboxItem
  | .skipped _ item | .attempted _ item => some item
  | _ => none

def Entry.isFetch : Entry → Bool
  | .fetched _ _ => true
  | _ => false

/-- The first item that is left, with the dropped ones before it. -/
theorem first_left {back : List (InboxItem × Bool)} {item : InboxItem} {rest : List InboxItem}
    (h : (back.filter Prod.snd).map Prod.fst = item :: rest) :
    ∃ skipped back', back = skipped ++ (item, true) :: back' ∧ (∀ mark ∈ skipped, mark.2 = false) ∧
      (back'.filter Prod.snd).map Prod.fst = rest := by
  obtain ⟨mark, marks, hfilter, rfl, hrest⟩ := List.map_eq_cons_iff.mp h
  obtain ⟨skipped, back', rfl, hskipped, htrue, hmarks⟩ := List.filter_eq_cons_iff.mp hfilter
  refine ⟨skipped, back', ?_, fun m hm => by simpa using hskipped m hm, by rw [hmarks, hrest]⟩
  rw [← htrue]

/-- How far a page is worked off: each item was taken in its turn, was dropped by its own
acknowledgment (the mark `false`), or is left; what is left comes after everything taken. -/
def WorkedOff (items : List InboxItem) (middle : List Entry) (left : List InboxItem) : Prop :=
  ∃ front back : List (InboxItem × Bool),
    front.map Prod.fst ++ back.map Prod.fst = items ∧
    (front.filter Prod.snd).map Prod.fst = middle.filterMap Entry.taken ∧
    (back.filter Prod.snd).map Prod.fst = left ∧
    ∀ mark ∈ front ++ back, mark.2 = false → .acknowledged mark.1.inboxItemId (.ok ()) ∈ middle

namespace WorkedOff
variable {items left : List InboxItem} {item : InboxItem}

theorem start : WorkedOff items [] items := by
  refine ⟨[], items.map (·, true), ?_, by simp, ?_, by simp⟩
  · simp [Function.comp_def]
  · simp [List.filter_map, Function.comp_def]

theorem keep (h : WorkedOff items middle left) (hentry : entry.taken = none) :
    WorkedOff items (middle ++ [entry]) left := by
  obtain ⟨front, back, hitems, hfront, hback, hdropped⟩ := h
  refine ⟨front, back, hitems, ?_, hback, fun mark hmark hfalse => ?_⟩
  · simp [hfront, hentry]
  · exact List.mem_append_left _ (hdropped mark hmark hfalse)

theorem take (h : WorkedOff items middle (item :: left)) (hentry : entry.taken = some item) :
    WorkedOff items (middle ++ [entry]) left := by
  obtain ⟨front, back, hitems, hfront, hback, hdropped⟩ := h
  obtain ⟨skipped, back', rfl, hskipped, hrest⟩ := first_left hback
  have hnone : skipped.filter Prod.snd = [] := by
    rw [List.filter_eq_nil_iff]
    exact fun mark hmark => by simp [hskipped mark hmark]
  refine ⟨front ++ skipped ++ [(item, true)], back', ?_, ?_, hrest, fun mark hmark hfalse => ?_⟩
  · simpa using hitems
  · simp [hnone, hfront, hentry]
  · exact List.mem_append_left _ (hdropped mark (by simpa using hmark) hfalse)

theorem drop (h : WorkedOff items middle left) (id : String) :
    WorkedOff items (middle ++ [Entry.acknowledged id (.ok ())])
      (left.filter fun item => item.inboxItemId ≠ id) := by
  obtain ⟨front, back, hitems, hfront, hback, hdropped⟩ := h
  let drops : InboxItem × Bool → InboxItem × Bool := fun mark =>
    (mark.1, mark.2 && decide (mark.1.inboxItemId ≠ id))
  have hfst : (back.map drops).map Prod.fst = back.map Prod.fst := by
    simp [drops, Function.comp_def]
  refine ⟨front, back.map drops, ?_, ?_, ?_, ?_⟩
  · rw [hfst, hitems]
  · simp [hfront, Entry.taken]
  · rw [← hback, List.filter_map, List.map_map, List.filter_map, List.filter_filter]
    congr 1
    apply List.filter_congr
    intro mark _
    simp [drops, Bool.and_comm]
  · intro mark hmark hfalse
    rcases List.mem_append.mp hmark with hmark | hmark
    · exact List.mem_append_left _ (hdropped mark (List.mem_append_left _ hmark) hfalse)
    · obtain ⟨mark', hmark', rfl⟩ := List.mem_map.mp hmark
      by_cases hid : mark'.1.inboxItemId = id
      · simp [drops, hid]
      · have hfalse' : mark'.2 = false := by simpa [drops, hid] using hfalse
        exact List.mem_append_left _ (hdropped mark' (List.mem_append_right _ hmark') hfalse')

end WorkedOff

/-- Between two fetches a page is worked off in its order. -/
theorem worked_off {items : List InboxItem} (horderly : Lawful (Orderly routes) (before ++ middle))
    (hstart : buffered before = items) (hmiddle : ∀ entry ∈ middle, entry.isFetch = false) :
    WorkedOff items middle (buffered (before ++ middle)) := by
  induction middle using List.reverseRecOn with
  | nil =>
    rw [List.append_nil, hstart]
    exact .start
  | append_singleton middle entry ih =>
    rw [← List.append_assoc] at horderly ⊢
    have hprior := ih horderly.prefix_of fun e he => hmiddle e (List.mem_append_left _ he)
    have hlaw : Orderly routes (before ++ middle) entry := horderly _ entry [] rfl
    have hnotFetch : entry.isFetch = false := hmiddle entry (by simp)
    have htake : ∀ item, (buffered (before ++ middle)).head? = some item → entry.taken = some item →
        WorkedOff items (middle ++ [entry]) (buffered (before ++ middle)).tail := by
      intro item hhead htaken
      rw [List.eq_cons_of_mem_head? hhead] at hprior
      exact hprior.take htaken
    rw [buffered_snoc]
    cases entry with
    | fetched cursor response => cases hnotFetch
    | skipped now item => exact htake item hlaw.1 rfl
    | attempted now item => exact htake item hlaw.1 rfl
    | acknowledged id response =>
      rcases response with error | u
      · exact hprior.keep rfl
      · exact hprior.drop id
    | _ => exact hprior.keep rfl

end Pages

section Accepted

/-- Every page of the log was accepted. -/
def AllValid (log : List Entry) : Prop :=
  ∀ cursor page, .fetched cursor (.ok page) ∈ log → invalidPage page = false

theorem AllValid.append {more : List Entry} (h : AllValid log)
    (hmore : ∀ entry ∈ more, entry.isFetch = false) : AllValid (log ++ more) := by
  intro cursor page hmem
  rcases List.mem_append.mp hmem with hmem | hmem
  · exact h cursor page hmem
  · cases hmore _ hmem

theorem retryDue_valid (h : AllValid s.log) : AllValid (retryDue O now s).2.log := by
  unfold retryDue
  split
  · exact h
  · rename_i pending hdue
    simp only
    generalize hresult : acknowledge O pending now _ = result
    have hlog := congrArg (fun r => r.2.log) hresult
    rw [acknowledge_session] at hlog
    obtain ⟨result, t⟩ := result
    have ht : AllValid t.log := by
      rw [← show _ = t.log from hlog]
      exact h.append fun e he => by rw [List.mem_singleton.mp he]; rfl
    cases result <;> exact ht

theorem noteFailure_valid (h : AllValid s.log) : AllValid (noteFailure now id s).log := by
  rw [noteFailure_eq, List.append_assoc]
  apply h.append
  intro entry hentry
  unfold evictions at hentry
  rw [List.mem_append, Option.mem_toList, Option.map_eq_some_iff, List.mem_singleton] at hentry
  rcases hentry with ⟨soonest, -, rfl⟩ | rfl <;> rfl

theorem handOff_valid {envelope : Envelope} (h : AllValid s.log) :
    AllValid (handOff O routes envelope s).2.log := by
  have hcall : ∀ route rendered response,
      AllValid (s.log ++ [Entry.injected route envelope rendered response]) := by
    intro route rendered response
    exact h.append fun e he => by rw [List.mem_singleton.mp he]; rfl
  unfold handOff
  split
  · exact h
  · simp only [Session.record]
    split <;> exact hcall _ _ _

theorem takeNext_valid (h : AllValid s.log) : AllValid (takeNext O routes now s).2.log := by
  unfold takeNext
  split
  · exact h
  · simp only [Session.update, Session.record]
    split
    · exact h.append fun e he => by rw [List.mem_singleton.mp he]; rfl
    · rename_i item rest hpage hheld
      have hattempted : AllValid (s.log ++ [Entry.attempted now item]) :=
        h.append fun e he => by rw [List.mem_singleton.mp he]; rfl
      generalize hhanded : handOff O routes _ _ = handed
      have hvalid : AllValid handed.2.log := hhanded ▸ handOff_valid hattempted
      obtain ⟨result, t⟩ := handed
      cases result with
      | error kind => exact noteFailure_valid hvalid
      | ok u =>
        simp only
        generalize hresult : acknowledge O _ now _ = result
        have hlog := congrArg (fun r => r.2.log) hresult
        rw [acknowledge_session] at hlog
        obtain ⟨result, u⟩ := result
        have hu : AllValid u.log := by
          rw [← show _ = u.log from hlog]
          exact hvalid.append fun e he => by rw [List.mem_singleton.mp he]; rfl
        cases result <;> exact hu

/-- A fetch either brings an accepted page or ends the run. -/
theorem refill_valid {result : Except WorkerError (List Event × Bool)} (h : AllValid s.log)
    (hrefill : refill O now s = (result, t)) :
    AllValid t.log ∨ (∃ e, result = .error e) ∧ ∃ last, t.log = s.log ++ [last] := by
  unfold refill at hrefill
  simp only [Session.record, Session.update] at hrefill
  have hother : ∀ entry : Entry, (∀ cursor page, entry ≠ .fetched cursor (.ok page)) →
      AllValid (s.log ++ [entry]) := by
    intro entry hentry cursor page hmem
    rcases List.mem_append.mp hmem with hmem | hmem
    · exact h cursor page hmem
    · exact absurd (List.mem_singleton.mp hmem).symm (hentry cursor page)
  split at hrefill
  · obtain ⟨-, rfl⟩ := Prod.mk.inj hrefill
    exact .inl h
  · split at hrefill
    · rename_i page hpage
      split at hrefill
      · obtain ⟨rfl, rfl⟩ := Prod.mk.inj hrefill
        exact .inr ⟨⟨_, rfl⟩, _, rfl⟩
      · rename_i hvalid
        obtain ⟨-, rfl⟩ := Prod.mk.inj hrefill
        refine .inl fun cursor page' hmem => ?_
        rcases List.mem_append.mp hmem with hmem | hmem
        · exact h cursor page' hmem
        · rw [hpage, List.mem_singleton, Entry.fetched.injEq, Except.ok.injEq] at hmem
          rw [hmem.2]
          exact eq_false_of_ne_true hvalid
    · rename_i error herror
      split at hrefill
      · obtain ⟨-, rfl⟩ := Prod.mk.inj hrefill
        refine .inl ((hother _ ?_).append fun e he => by rw [List.mem_singleton.mp he]; rfl)
        simp [herror]
      · split at hrefill
        all_goals
          obtain ⟨-, rfl⟩ := Prod.mk.inj hrefill
          exact .inl (hother _ (by simp [herror]))

theorem tick_valid {result : Except WorkerError (List Event)} (h : AllValid s.log)
    (htick : tick O routes now s = (result, t)) :
    AllValid t.log ∨ (∃ e, result = .error e) ∧ ∃ init last, t.log = init ++ [last] ∧
    AllValid init := by
  have hticked : AllValid (s.record (.ticked now)).log :=
    h.append fun e he => by rw [List.mem_singleton.mp he]; rfl
  unfold tick at htick
  simp only at htick
  split at htick
  · obtain ⟨-, rfl⟩ := Prod.mk.inj htick
    exact .inl hticked
  · have hretried := @retryDue_valid O now _ hticked
    generalize retryDue O now _ = retried at hretried htick
    rcases retried with ⟨_ | ⟨events, _ | _⟩, s₁⟩
    · obtain ⟨-, rfl⟩ := Prod.mk.inj htick
      exact .inl hretried
    · simp only at htick
      split at htick
      · obtain ⟨-, rfl⟩ := Prod.mk.inj htick
        exact .inl hretried
      · generalize hrefilled : refill O now s₁ = refilled at htick
        rcases refilled with ⟨result', s₂⟩
        have hrefill := refill_valid hretried hrefilled
        rcases result' with e | ⟨more, _ | _⟩
        · obtain ⟨rfl, rfl⟩ := Prod.mk.inj htick
          rcases hrefill with hvalid | ⟨-, last, hlast⟩
          · exact .inl hvalid
          · exact .inr ⟨⟨e, rfl⟩, s₁.log, last, hlast, hretried⟩
        · have hvalid : AllValid s₂.log := hrefill.resolve_right (by simp)
          have htaken := @takeNext_valid O routes now _ hvalid
          simp only at htick
          generalize takeNext O routes now s₂ = taken at htaken htick
          rcases taken with ⟨_ | _, s₃⟩
          all_goals
            obtain ⟨-, rfl⟩ := Prod.mk.inj htick
            exact .inl htaken
        · obtain ⟨-, rfl⟩ := Prod.mk.inj htick
          exact .inl (hrefill.resolve_right (by simp))
    · obtain ⟨-, rfl⟩ := Prod.mk.inj htick
      exact .inl hretried

theorem run_valid (O : Outside) (routes : StaticRoutes) (clock : List Duration) (s : Session)
    (h : AllValid s.log) : AllValid (run O routes clock s).2.log ∨
      ∃ init last, (run O routes clock s).2.log = init ++ [last] ∧ AllValid init := by
  induction clock generalizing s with
  | nil => exact .inl h
  | cons now rest ih =>
    unfold run
    generalize htick : tick O routes now s = ticked
    rcases ticked with ⟨result, t⟩
    have hvalid := tick_valid h htick
    cases result with
    | error e => exact hvalid.imp id fun hlast => hlast.2
    | ok events => exact ih t (hvalid.resolve_right (by simp))

/-- A page that is refused is the last thing that happens. -/
theorem valid_of_followed {cursor : Option String} {page : Page InboxItem} {after : List Entry}
    (hlog : (run O routes clock {}).2.log = before ++ Entry.fetched cursor (.ok page) :: after)
    (hafter : after ≠ []) : invalidPage page = false := by
  have hempty : AllValid ({} : Session).log := fun cursor page hmem => by simp at hmem
  rcases run_valid O routes clock {} hempty with hvalid | ⟨init, last, heq, hvalid⟩
  · exact hvalid cursor page (by rw [hlog]; simp)
  · obtain ⟨rest, final, rfl⟩ := List.eq_nil_or_concat after |>.resolve_left hafter
    rw [heq, List.concat_eq_append, ← List.cons_append, ← List.append_assoc] at hlog
    obtain ⟨rfl, -⟩ := List.append_inj' hlog rfl
    exact hvalid cursor page (by simp)

end Accepted

/-- Passes and backoff in every run: an item that failed `k` times in a row is not attempted
before its delay has passed, an entry gives way only to a full table and only when it is due
first, a page is worked off in its order before the next fetch, and a pass restarts its cursor
at most once. -/
theorem worker_passes (O : Outside) (routes : StaticRoutes) (clock : List Duration) :
    let s := (run O routes clock {}).2
    (∀ (before segment : List Entry) (now : Duration) (item : InboxItem) (after : List Entry)
      (last : Duration),
      s.log = before ++ segment ++ Entry.attempted now item :: after →
      (∀ entry ∈ segment, entry.Continues item.inboxItemId) →
      (segment.filterMap (Entry.failure item.inboxItemId)).getLast? = some last →
      Duration.saturatingAdd last (.fromSecs
        (2 ^ min ((segment.filterMap (Entry.failure item.inboxItemId)).length - 1) 8)) ≤ now) ∧
    (∀ id, s.worker.failures[id]? = backoff s.log id) ∧
    (∀ (before : List Entry) (soonest : String) (after : List Entry), s.log =
      before ++ Entry.evicted soonest :: after →
      ∃ (init : List Entry) (now : Duration) (item : InboxItem) (calls : List Entry),
        before = init ++ Entry.attempted now item :: calls ∧
        Refusal routes (.fromItem item) calls ∧ Crowded before item.inboxItemId soonest) ∧
    (∀ (before : List Entry) (cursor : Option String) (page : Page InboxItem) (middle : List Entry)
      (cursor' : Option String) (response : Except ClientError (Page InboxItem))
      (after : List Entry),
      s.log = before ++ Entry.fetched cursor (.ok page) :: middle ++
      Entry.fetched cursor' response :: after →
      (∀ entry ∈ middle, entry.isFetch = false) → WorkedOff page.items middle []) ∧
    (∀ (before : List Entry) (now : Duration) (item : InboxItem) (after : List Entry),
      s.log = before ++ Entry.skipped now item :: after →
      Awaiting before item.inboxItemId ∨
        ∃ retry, backoff before item.inboxItemId = some retry ∧ now < retry.after) ∧
    ∀ before segment after : List Entry, s.log = before ++ segment ++ after →
      (∀ entry ∈ segment, entry.KeepsPass) → segment.countP Entry.isRestart ≤ 1 := by
  obtain ⟨hshown, horderly⟩ := reachable_view (run_reachable O routes clock)
  refine ⟨?_, hshown.failures, ?_, ?_, ?_, ?_⟩
  · intro before segment now item after last hlog hcontinues hlast
    obtain ⟨hcount, hretry⟩ := @backoff_row before _ _ hcontinues
    obtain ⟨retry, hbackoff, hafter⟩ := hretry last hlast
    obtain ⟨-, -, hdue⟩ := horderly _ (.attempted now item) after hlog
    rw [hbackoff, Option.getD_some] at hcount
    have hdelay := delayAfter_mono hcount
    rw [delayAfter_min] at hdelay
    calc Duration.saturatingAdd last (delayAfter _)
        ≤ Duration.saturatingAdd last (delayAfter retry.failures) :=
          min_le_min_right _ (Nat.add_le_add_left hdelay last)
      _ = retry.after := hafter.symm
      _ ≤ now := hdue retry hbackoff
  · intro before soonest after hlog
    exact horderly before _ after hlog
  · intro before cursor page middle cursor' response after hlog hmiddle
    have hsplit : (run O routes clock {}).2.log = before ++ Entry.fetched cursor (.ok page) ::
        (middle ++ Entry.fetched cursor' response :: after) := by rw [hlog]; simp
    have hvalid : invalidPage page = false := valid_of_followed hsplit (by simp)
    have hstart : buffered (before ++ [Entry.fetched cursor (.ok page)]) = page.items := by
      rw [buffered_snoc]
      simp [Entry.buffer, hvalid]
    have hjoin : before ++ Entry.fetched cursor (.ok page) :: middle =
        before ++ [Entry.fetched cursor (.ok page)] ++ middle := by simp
    rw [hjoin] at hlog
    have hempty : buffered (before ++ [Entry.fetched cursor (.ok page)] ++ middle) = [] :=
      horderly _ _ after hlog
    rw [hlog] at horderly
    exact hempty ▸ worked_off horderly.prefix_of hstart hmiddle
  · intro before now item after hlog
    exact (horderly before _ after hlog).2
  · intro before segment after hlog hkeeps
    rw [hlog] at horderly
    exact (restarts_in_pass horderly.prefix_of hkeeps).1

section Sample

/-- The clock at its largest value: the delay saturates, and the item is attempted again at once. -/
theorem backoff_saturates : ([.max, .max] : List Duration).Pairwise (· ≤ ·) ∧
    ¬∀ (before segment : List Entry) (now : Duration) (item : InboxItem) (after : List Entry)
    (last : Duration),
      (run (sampleOutside [sampleItem "stable"] (.ok ())) (fun _ => none) [.max, .max] {}).2.log =
        before ++ segment ++ Entry.attempted now item :: after →
      (∀ entry ∈ segment, entry.Continues item.inboxItemId) →
      (segment.filterMap (Entry.failure item.inboxItemId)).getLast? = some last →
      last + .fromSecs
      (2 ^ min ((segment.filterMap (Entry.failure item.inboxItemId)).length - 1) 8) ≤ now := by
  refine ⟨by simp, fun h => ?_⟩
  have hdue := h [] [.ticked .max, .fetched none (.ok ⟨[sampleItem "stable"], none⟩),
    .attempted .max (sampleItem "stable"), .failed .max "stable", .ticked .max,
    .fetched none (.ok ⟨[sampleItem "stable"], none⟩)] .max (sampleItem "stable")
    [.failed .max "stable"] .max rfl (by simp [Entry.Continues]) rfl
  exact absurd hdue (by decide)

end Sample

end AgentJournal.InboxWorker
