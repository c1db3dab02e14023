import AgentJournal.Foundation.Machine
import AgentJournal.InboxWorker.Tick

/-! # Everything that a tick can do

A tick is a sequence of moves, each made when the central backoff has elapsed. Every property
of runs is proved of one move and carried to the ticks from there.
-/

namespace AgentJournal.InboxWorker
open Domain Client Foundation
variable {O : Outside} {routes : StaticRoutes} {now : Duration} {s t : Session}
  {pending : Pending}

/-- The answer leaves the acknowledgment to be tried again. -/
def unanswered : Except ClientError Unit → Bool
  | .ok () => false
  | .error error => (unlessTransient error).isOk

/-- The worker after an acknowledgment was answered. -/
def Worker.settle (w : Worker) (pending : Pending) (now : Duration)
    (response : Except ClientError Unit) : Worker :=
  if response.isOk then w.prune pending.id
  else if unanswered response then w.defer pending now
  else w

section Settled
variable (w : Worker) (response : Except ClientError Unit)

@[simp] theorem Worker.settle_failures : (w.settle pending now response).failures = w.failures := by
  unfold Worker.settle Worker.prune Worker.defer
  split_ifs <;> rfl

@[simp] theorem Worker.settle_cursorRestartUsed :
    (w.settle pending now response).cursorRestartUsed = w.cursorRestartUsed := by
  unfold Worker.settle Worker.prune Worker.defer
  split_ifs <;> rfl

theorem Worker.settle_pending : (w.settle pending now response).pending =
    if unanswered response then w.pending ++ [⟨pending.id, pending.retry.fail now⟩]
    else w.pending := by
  unfold Worker.settle Worker.prune Worker.defer
  rcases response with error | u
  · simp only [Except.isOk, Except.toBool, Bool.false_eq_true, if_false]
    split_ifs <;> rfl
  · rfl

theorem Worker.settle_page : (w.settle pending now response).page =
    if response.isOk then w.page.filter fun item => item.inboxItemId ≠ pending.id else w.page := by
  unfold Worker.settle Worker.prune Worker.defer
  split_ifs <;> rfl

end Settled

theorem acknowledge_session (s : Session) : (acknowledge O pending now s).2 =
    ⟨s.worker.settle pending now (O.acknowledge s.log pending.id),
      s.log ++ [Entry.acknowledged pending.id (O.acknowledge s.log pending.id)]⟩ := by
  unfold acknowledge Worker.settle
  simp only [Session.record, Session.update]
  generalize O.acknowledge s.log pending.id = response
  cases response with
  | ok u => rfl
  | error error =>
    by_cases hmissing : error = .http 404
    · subst hmissing
      rfl
    · cases htransient : unlessTransient error with
      | error e => simp [hmissing, htransient, unanswered, Except.toBool]
      | ok u => simp [hmissing, htransient, unanswered, Except.toBool]

/-- An acknowledgment that does not end the tick leaves no central backoff. -/
theorem acknowledge_central {event : Event} (hcentral : s.worker.central.after ≤ now)
    (h : (acknowledge O pending now s).1 = .ok event) (hevent : event.kind ≠ .ackPending) :
    (acknowledge O pending now s).2.worker.central.after ≤ now := by
  unfold acknowledge at h ⊢
  simp only [Session.record, Session.update] at h ⊢
  generalize O.acknowledge s.log pending.id = response at h ⊢
  cases response with
  | ok u => exact Nat.zero_le _
  | error error =>
    by_cases hmissing : error = .http 404
    · simp only [if_pos hmissing]
      exact hcentral
    · simp only [if_neg hmissing] at h ⊢
      cases htransient : unlessTransient error with
      | error e => simp [htransient] at h
      | ok u =>
        simp only [htransient, Except.ok.injEq] at h
        exact absurd (h ▸ rfl) hevent

/-- How a handoff failed: no usable route, or an answer of the runtime. -/
inductive Refusal (routes : StaticRoutes) (envelope : Envelope) : List Entry → Prop
  | unrouted : Refusal routes envelope []
  | answered {route : Route} {rendered : String} {error : RuntimeError} :
      routeFor routes envelope.spaceId (envelope.routingKey.getD "default") = some route →
      Refusal routes envelope [.injected route envelope rendered (.error error)]

theorem handOff_error {envelope : Envelope} {kind : EventKind}
    (h : handOff O routes envelope s = (.error kind, t)) :
    ∃ calls, Refusal routes envelope calls ∧ t = ⟨s.worker, s.log ++ calls⟩ := by
  unfold handOff at h
  split at h
  · obtain ⟨-, rfl⟩ := Prod.mk.inj h
    exact ⟨[], .unrouted, by simp⟩
  · rename_i route hroute
    simp only [Session.record] at h
    split at h
    · cases h
    all_goals
      obtain ⟨-, rfl⟩ := Prod.mk.inj h
      rename_i hresponse
      rw [hresponse]
      exact ⟨_, .answered hroute, rfl⟩

theorem handOff_ok {envelope : Envelope} {u : Unit} (h : handOff O routes envelope s = (.ok u, t)) :
    ∃ route rendered receipt,
      routeFor routes envelope.spaceId (envelope.routingKey.getD "default") = some route ∧
      t = ⟨s.worker, s.log ++ [Entry.injected route envelope rendered (.ok receipt)]⟩ := by
  unfold handOff at h
  split at h
  · cases h
  · rename_i route hroute
    simp only [Session.record] at h
    split at h
    · obtain ⟨-, rfl⟩ := Prod.mk.inj h
      rename_i receipt hresponse
      rw [hresponse]
      exact ⟨route, _, receipt, hroute, rfl⟩
    all_goals cases h

/-- The failures without the entry that gives way, and the note of it. -/
def evict (failures : Std.TreeMap String Retry) : Std.TreeMap String Retry :=
  match evictSoonest failures with
  | some soonest => failures.erase soonest
  | none => failures

def evictions (failures : Std.TreeMap String Retry) : List Entry :=
  ((evictSoonest failures).map Entry.evicted).toList

theorem noteFailure_eq (id : String) (s : Session) : noteFailure now id s =
    ⟨{ s.worker with
        failures := (evict (s.worker.failures.erase id)).insert id
          (((s.worker.failures[id]?).getD {}).fail now) },
      s.log ++ evictions (s.worker.failures.erase id) ++ [Entry.failed now id]⟩ := by
  unfold noteFailure evict evictions
  cases hsoonest : evictSoonest (s.worker.failures.erase id) with
  | none => simp [Session.record, Session.update, hsoonest]
  | some soonest => simp [Session.record, Session.update, hsoonest]

/-- One move of a tick at the given time. -/
inductive Move (routes : StaticRoutes) (now : Duration) : Session → Session → Prop
  | settled {w : Worker} {log : List Entry} {pending : Pending}
      (response : Except ClientError Unit) :
      w.central.after ≤ now → w.pending.find? (Pending.due now) = some pending →
      Move routes now ⟨w, log⟩
        ⟨Worker.settle { w with pending := w.pending.eraseP (Pending.due now) } pending now
          response,
          log ++ [Entry.acknowledged pending.id response]⟩
  | loaded {w : Worker} {log : List Entry} {page : Page InboxItem} :
      w.central.after ≤ now → w.pending.length < pendingLimit → w.page = [] →
      invalidPage page = false →
      Move routes now ⟨w, log⟩ ⟨w.load page, log ++ [Entry.fetched w.cursor (.ok page)]⟩
  | restarted {w : Worker} {log : List Entry} : w.central.after ≤ now →
      w.pending.length < pendingLimit → w.page = [] →
      w.cursorRestartUsed = false →
      Move routes now ⟨w, log⟩ ⟨{ w with cursor := none, cursorRestartUsed := true },
        log ++ [Entry.fetched w.cursor (.error (.http 400))] ++ [Entry.restarted]⟩
  | unavailable {w : Worker} {log : List Entry} {error : ClientError} : w.central.after ≤ now →
      w.pending.length < pendingLimit → w.page = [] →
      Move routes now ⟨w, log⟩ ⟨{ w with central := w.central.fail now },
        log ++ [Entry.fetched w.cursor (.error error)]⟩
  /-- The answer stops the worker. -/
  | rejected {w : Worker} {log : List Entry} {response : Except ClientError (Page InboxItem)} :
      w.central.after ≤ now → w.pending.length < pendingLimit → w.page = [] →
      (∀ page, response = .ok page → invalidPage page = true) →
      Move routes now ⟨w, log⟩ ⟨w, log ++ [Entry.fetched w.cursor response]⟩
  | skipped {w : Worker} {log : List Entry} {item : InboxItem} {rest : List InboxItem} :
      w.central.after ≤ now → w.pending.length < pendingLimit → w.page = item :: rest →
      w.holdsBack now item.inboxItemId = true →
      Move routes now ⟨w, log⟩ ⟨{ w with page := rest }, log ++ [Entry.skipped now item]⟩
  | refused {w : Worker} {log : List Entry} {item : InboxItem} {rest : List InboxItem}
      {calls : List Entry} :
      w.central.after ≤ now → w.pending.length < pendingLimit → w.page = item :: rest →
      w.holdsBack now item.inboxItemId = false → Refusal routes (.fromItem item) calls →
      Move routes now ⟨w, log⟩ (noteFailure now item.inboxItemId
        ⟨{ w with page := rest }, log ++ [Entry.attempted now item] ++ calls⟩)
  | handed {w : Worker} {log : List Entry} {item : InboxItem} {rest : List InboxItem}
      {route : Route} {rendered receipt : String} (response : Except ClientError Unit) :
      w.central.after ≤ now → w.pending.length < pendingLimit → w.page = item :: rest →
      w.holdsBack now item.inboxItemId = false →
      routeFor routes item.record.spaceId (item.record.routingKey.getD "default") = some route →
      Move routes now ⟨w, log⟩
        ⟨Worker.settle { w with page := rest, failures := w.failures.erase item.inboxItemId }
            ⟨item.inboxItemId, {}⟩ now response,
          log ++ [Entry.attempted now item] ++
          [Entry.injected route (.fromItem item) rendered (.ok receipt)] ++
            [.acknowledged item.inboxItemId response]⟩

/-- The worker as a machine: the start of a tick and the moves at its time. -/
def machine (routes : StaticRoutes) : Machine Session Duration where
  start s := s = {}
  step s now t := t = s.record (.ticked now) ∨ Move routes now s t

theorem Move.later (h : Move routes now s t) : (machine routes).Later s t :=
  Machine.Later.refl.tail (.inr h)

theorem retryDue_moves (hcentral : s.worker.central.after ≤ now) :
    (machine routes).Later s (retryDue O now s).2 ∧
      ∀ events, (retryDue O now s).1 = .ok (events, false) →
        (retryDue O now s).2.worker.central.after ≤ now := by
  unfold retryDue
  split
  · exact ⟨.refl, fun _ _ => hcentral⟩
  · rename_i pending hdue
    simp only
    generalize hresult : acknowledge O pending now _ = result
    have hmove : Move routes now s result.2 := by
      rw [← hresult, acknowledge_session]
      exact .settled _ hcentral hdue
    obtain ⟨result, t⟩ := result
    cases result with
    | error e => exact ⟨hmove.later, fun _ h => by cases h⟩
    | ok event =>
      refine ⟨hmove.later, fun events h => ?_⟩
      have hpending : event.kind ≠ .ackPending := by
        simp only [Except.ok.injEq, Prod.mk.injEq, decide_eq_false_iff_not] at h
        exact h.2
      have hafter := acknowledge_central (s := s.update _) (by exact hcentral)
        (congrArg Prod.fst hresult) hpending
      rwa [hresult] at hafter

theorem refill_moves {result : Except WorkerError (List Event × Bool)}
    (hcentral : s.worker.central.after ≤ now) (hpending : s.worker.pending.length < pendingLimit)
    (h : refill O now s = (result, t)) : (machine routes).Later s t ∧
      ∀ events, result = .ok (events, false) →
        t.worker.central.after ≤ now ∧ t.worker.pending.length < pendingLimit := by
  unfold refill at h
  simp only [Session.record, Session.update] at h
  split at h
  · obtain ⟨rfl, rfl⟩ := Prod.mk.inj h
    exact ⟨.refl, fun _ _ => ⟨hcentral, hpending⟩⟩
  · rename_i hpage
    have hempty : s.worker.page = [] := not_not.mp hpage
    generalize O.fetch s.log s.worker.cursor = response at h
    cases response with
    | ok page =>
      simp only at h
      split at h
      · rename_i hinvalid
        obtain ⟨rfl, rfl⟩ := Prod.mk.inj h
        have hrefused : ∀ p, (.ok page : Except ClientError (Page InboxItem)) = .ok p →
            invalidPage p = true := fun p h => by cases h; exact hinvalid
        exact ⟨Move.later (.rejected hcentral hpending hempty hrefused), fun _ h => by cases h⟩
      · rename_i hinvalid
        obtain ⟨rfl, rfl⟩ := Prod.mk.inj h
        have hvalid : invalidPage page = false := eq_false_of_ne_true hinvalid
        exact ⟨Move.later (.loaded hcentral hpending hempty hvalid),
          fun _ _ => ⟨Nat.zero_le _, hpending⟩⟩
    | error error =>
      simp only at h
      split at h
      · rename_i hrestart
        obtain ⟨rfl, rfl⟩ := Prod.mk.inj h
        obtain ⟨rfl, -, hunused⟩ := hrestart
        exact ⟨Move.later (.restarted hcentral hpending hempty hunused), fun _ h => by simp at h⟩
      · split at h
        · obtain ⟨rfl, rfl⟩ := Prod.mk.inj h
          have hnone : ∀ page, (.error error : Except ClientError (Page InboxItem)) = .ok page →
              invalidPage page = true := fun page h => by cases h
          exact ⟨Move.later (.rejected hcentral hpending hempty hnone), fun _ h => by cases h⟩
        · obtain ⟨rfl, rfl⟩ := Prod.mk.inj h
          exact ⟨Move.later (.unavailable hcentral hpending hempty), fun _ h => by simp at h⟩

theorem takeNext_moves (hcentral : s.worker.central.after ≤ now)
    (hpending : s.worker.pending.length < pendingLimit) :
    (machine routes).Later s (takeNext O routes now s).2 := by
  unfold takeNext
  split
  · exact .refl
  · rename_i item rest hpage
    simp only [Session.record, Session.update]
    split
    · rename_i hheld
      exact Move.later (.skipped hcentral hpending hpage hheld)
    · rename_i hheld
      have hfree : s.worker.holdsBack now item.inboxItemId = false := eq_false_of_ne_true hheld
      generalize hhanded : handOff O routes _ _ = handed
      obtain ⟨result, t⟩ := handed
      cases result with
      | error kind =>
        obtain ⟨calls, hrefusal, rfl⟩ := handOff_error hhanded
        exact Move.later (.refused hcentral hpending hpage hfree hrefusal)
      | ok u =>
        obtain ⟨route, rendered, receipt, hroute, rfl⟩ := handOff_ok hhanded
        simp only
        generalize hresult : acknowledge O _ now _ = result
        have hmove : Move routes now s result.2 := by
          rw [← hresult, acknowledge_session]
          exact .handed _ hcentral hpending hpage hfree hroute
        obtain ⟨result, t⟩ := result
        cases result <;> exact hmove.later

theorem tick_later (O : Outside) (routes : StaticRoutes) (now : Duration) (s : Session) :
    (machine routes).Later s (tick O routes now s).2 := by
  have hstart : (machine routes).Later s (s.record (.ticked now)) :=
    Machine.Later.refl.tail (i := now) (.inl rfl)
  unfold tick
  simp only
  by_cases hbackoff : now < (s.record (.ticked now)).worker.central.after
  · rw [if_pos hbackoff]
    exact hstart
  · rw [if_neg hbackoff]
    have hretry := @retryDue_moves O routes now _ (not_lt.mp hbackoff)
    generalize retryDue O now _ = retried at hretry
    rcases retried with ⟨_ | ⟨events, _ | _⟩, s₁⟩
    · exact hstart.trans hretry.1
    · have hcentral := hretry.2 events rfl
      by_cases hfull : pendingLimit ≤ s₁.worker.pending.length
      · simp only [if_pos hfull]
        exact hstart.trans hretry.1
      · simp only [if_neg hfull]
        generalize hrefilled : refill O now s₁ = refilled
        rcases refilled with ⟨result, s₂⟩
        have hrefill := @refill_moves O routes now _ _ _ hcentral (not_le.mp hfull) hrefilled
        rcases result with _ | ⟨more, _ | _⟩
        · exact (hstart.trans hretry.1).trans hrefill.1
        · obtain ⟨hcentral', hpending⟩ := hrefill.2 more rfl
          simp only
          have htake := @takeNext_moves O routes now _ hcentral' hpending
          generalize takeNext O routes now s₂ = taken at htake
          rcases taken with ⟨_ | _, s₃⟩ <;>
            exact ((hstart.trans hretry.1).trans hrefill.1).trans htake
        · exact (hstart.trans hretry.1).trans hrefill.1
    · exact hstart.trans hretry.1

theorem run_later (O : Outside) (routes : StaticRoutes) (clock : List Duration) (s : Session) :
    (machine routes).Later s (run O routes clock s).2 := by
  induction clock generalizing s with
  | nil => exact .refl
  | cons now rest ih =>
    have htick := tick_later O routes now s
    unfold run
    generalize tick O routes now s = ticked at htick
    rcases ticked with ⟨_ | _, t⟩
    · exact htick
    · exact htick.trans (ih t)

/-- Every session that ticks lead to is reachable in the machine. -/
theorem run_reachable (O : Outside) (routes : StaticRoutes) (clock : List Duration) :
    (machine routes).Reachable (run O routes clock {}).2 :=
  (Machine.Reachable.of_start rfl).later (run_later O routes clock {})

end AgentJournal.InboxWorker
