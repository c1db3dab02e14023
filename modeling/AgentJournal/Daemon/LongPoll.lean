import AgentJournal.Foundation.Machine
import Mathlib.Data.Nat.Notation
import Mathlib.Logic.Function.Basic

/-! # Held inbox polls and the appends that wake them

A poll subscribes, reads, and is held when it finds nothing; an append commits in a blocking job and
its handler then wakes the polls of the recipients. The handler can be dropped while the job runs
on.
-/

namespace AgentJournal.Daemon.LongPoll
open Foundation

/-- A poll reads in a blocking job; `read` is the number of appends that its snapshot has. -/
inductive PollPhase where
  | fetching
  | fetched (read : ℕ) (empty : Bool)
  | waiting (read : ℕ)
deriving DecidableEq, Repr

/-- One `inbox_long_poll`, with its receiver: a channel and the version it has seen. -/
structure Poll where
  principal : String
  channel : ℕ
  seen : ℕ
  phase : PollPhase
  last : Bool
deriving DecidableEq, Repr

/-- A replayed append finds the record of its key; the items of that record count as created. The
record of an errored one is committed, and its answer is an error: `audit.committed` fails last. -/
inductive Job where
  | running
  | created
  | replayed
  | errored
deriving DecidableEq, Repr

/-- The handler notifies after an answer that is no error. -/
def Job.notifies : Job → Bool
  | .created | .replayed => true
  | .running | .errored => false

/-- One append whose blocking job was started; its handler attends to it until it is dropped. -/
structure Append where
  attention : List String
  job : Job
  attended : Bool
deriving DecidableEq, Repr

/-- Requests are numbered; one that is over leaves nothing behind but its number. -/
structure World where
  waiters : String → Option ℕ
  versions : ℕ → ℕ
  channels : ℕ
  polls : List (Option Poll)
  appends : List (Option Append)
  log : List (List String)

inductive Event where
  | subscribe (principal : String)
  | read (i : ℕ) (empty : Bool)
  | hold (i : ℕ)
  | changed (i : ℕ)
  | deadline (i : ℕ)
  | leave (i : ℕ)
  | submit (attention : List String)
  | commit (j : ℕ)
  | commitError (j : ℕ)
  | replay (j : ℕ)
  | refuse (j : ℕ)
  | notify (j : ℕ)
  | answerError (j : ℕ)
  | drop (j : ℕ)
deriving DecidableEq, Repr

namespace InboxArrivals

/-- `receiver_count() > 0`. -/
def received (polls : List (Option Poll)) (channel : ℕ) : Bool :=
  polls.any fun poll => poll.any (·.channel = channel)

/-- `waiters.retain`. -/
def retain (polls : List (Option Poll)) (waiters : String → Option ℕ) : String → Option ℕ :=
  fun principal => (waiters principal).filter (received polls)

def subscribe (w : World) (principal : String) : World :=
  let waiters := retain w.polls w.waiters
  match waiters principal with
  | some channel =>
    { w with waiters := waiters
             polls := w.polls ++ [some ⟨principal, channel, w.versions channel, .fetching, false⟩] }
  | none =>
    { w with waiters := Function.update waiters principal (some w.channels)
             channels := w.channels + 1
             polls := w.polls ++
             [some ⟨principal, w.channels, w.versions w.channels, .fetching, false⟩] }

/-- `send_modify` for each recipient that has a signal. -/
def bump (waiters : String → Option ℕ) : List String → (ℕ → ℕ) → ℕ → ℕ
  | [], versions => versions
  | recipient :: recipients, versions =>
    bump waiters recipients (match waiters recipient with
      | some channel => Function.update versions channel (versions channel + 1)
      | none => versions)

def notify (w : World) (recipients : List String) : World :=
  { w with versions := bump w.waiters recipients w.versions
           waiters := retain w.polls w.waiters }

end InboxArrivals

namespace World

def poll (w : World) (i : ℕ) : Option Poll := w.polls[i]?.join

def append (w : World) (j : ℕ) : Option Append := w.appends[j]?.join

def setPoll (w : World) (i : ℕ) (p : Option Poll) : World := { w with polls := w.polls.set i p }

def setAppend (w : World) (j : ℕ) (a : Option Append) : World :=
  { w with appends := w.appends.set j a }

end World

/-- One step of a handler or of a blocking job. -/
def World.step (w : World) : Event → Option World
  | .subscribe principal => some (InboxArrivals.subscribe w principal)
  | .read i empty => do
    let p ← w.poll i
    if p.phase = .fetching then w.setPoll i (some { p with phase := .fetched w.log.length empty })
    else none
  | .hold i => do
    let p ← w.poll i
    match p.phase, p.last with
    | .fetched read true, false => w.setPoll i (some { p with phase := .waiting read })
    | _, _ => none
  | .changed i => do
    let p ← w.poll i
    match p.phase with
    | .waiting _ =>
      if w.versions p.channel ≠ p.seen then
        w.setPoll i (some { p with seen := w.versions p.channel, phase := .fetching })
      else none
    | _ => none
  | .deadline i => do
    let p ← w.poll i
    match p.phase with
    | .waiting _ => w.setPoll i (some { p with phase := .fetching, last := true })
    | _ => none
  -- answered, told of the shutdown, or dropped with its client
  | .leave i => do
    let _ ← w.poll i
    w.setPoll i none
  | .submit attention => some { w with appends := w.appends ++ [some ⟨attention, .running, true⟩] }
  | .commit j => do
    let a ← w.append j
    if a.job = .running then
      some { w.setAppend j (some { a with job := .created }) with log := w.log ++ [a.attention] }
    else none
  | .commitError j => do
    let a ← w.append j
    if a.job = .running then
      some { w.setAppend j (some { a with job := .errored }) with log := w.log ++ [a.attention] }
    else none
  | .replay j => do
    let a ← w.append j
    if a.job = .running then w.setAppend j (some { a with job := .replayed }) else none
  | .refuse j => do
    let a ← w.append j
    if a.job = .running then w.setAppend j none else none
  | .notify j => do
    let a ← w.append j
    if a.job.notifies ∧ a.attended then
      let woken := if a.attention.length > 0 then InboxArrivals.notify w a.attention else w
      woken.setAppend j none
    else none
  | .answerError j => do
    let a ← w.append j
    if a.job = .errored ∧ a.attended then w.setAppend j none else none
  | .drop j => do
    let a ← w.append j
    w.setAppend j (some { a with attended := false })

/-- No request is there at first. -/
def World.start : World := ⟨fun _ => none, fun _ => 0, 0, [], [], []⟩

def journalHttp : Machine World Event where
  start w := w = World.start
  step s e t := s.step e = some t

/-- An append that creates items commits without an error and is notified before its handler is
dropped. -/
def Harmless (w : World) : Event → Prop
  | .commit j => ∀ a, w.append j = some a → a.attended = true ∨ a.attention = []
  | .commitError j => ∀ a, w.append j = some a → a.attention = []
  | .drop j => ∀ a, w.append j = some a → a.job = .created → a.attention = []
  | _ => True

/-- The runs of harmless steps. -/
def attentiveHttp : Machine World Event where
  start := journalHttp.start
  step s e t := journalHttp.step s e t ∧ Harmless s e

section Wakeups
variable {w t : World} {i j k read : ℕ} {p q : Poll} {a : Append} {v : Option Append} {x : String}

/-- A handler that is still there is going to notify the principal. -/
def Pending (w : World) (x : String) : Prop :=
  ∃ j a, w.append j = some a ∧ a.job.notifies = true ∧ a.attended = true ∧ x ∈ a.attention

/-- An append after the first `read` ones is addressed to the principal. -/
def Arrived (w : World) (read : ℕ) (x : String) : Prop :=
  ∃ k attention, read ≤ k ∧ w.log[k]? = some attention ∧ x ∈ attention

/-- A held poll that missed an append is going to be woken. -/
def NoLostWakeup (w : World) : Prop :=
  ∀ i p read, w.poll i = some p → p.phase = .waiting read → Arrived w read p.principal →
    w.versions p.channel ≠ p.seen ∨ Pending w p.principal

def PollPhase.snapshot : PollPhase → Option ℕ
  | .fetching => none
  | .fetched read _ => some read
  | .waiting read => some read

/-- The handler of an append that created items is going to notify the principal. -/
def Append.Owes (a : Append) (x : String) : Prop :=
  a.job = .created ∧ a.attended = true ∧ x ∈ a.attention

theorem Append.not_owes (h : a.job ≠ .created) (x : String) : ¬a.Owes x := fun howes => h howes.1

def Owed (w : World) (x : String) : Prop := ∃ j a, w.append j = some a ∧ a.Owes x

/-- What holds of each poll while its receiver is there. -/
structure Watched (w : World) (p : Poll) : Prop where
  signal : w.waiters p.principal = some p.channel
  seen : p.seen ≤ w.versions p.channel
  woken : ∀ read, p.phase.snapshot = some read → Arrived w read p.principal →
    p.seen < w.versions p.channel ∨ Owed w p.principal

def AllWatched (w : World) : Prop := ∀ i p, w.poll i = some p → Watched w p

theorem Owed.pending (h : Owed w x) : Pending w x := by
  obtain ⟨j, a, ha, hjob, hattended, hx⟩ := h
  exact ⟨j, a, ha, by rw [hjob]; rfl, hattended, hx⟩

theorem AllWatched.noLostWakeup (h : AllWatched w) : NoLostWakeup w := by
  intro i p read hp hphase harrived
  rcases (h i p hp).woken read (by rw [hphase]; rfl) harrived with hlt | howed
  · exact .inl (Nat.ne_of_gt hlt)
  · exact .inr howed.pending

/-- A poll stays watched while its signal stays and what is owed to it is paid. -/
theorem Watched.mono (h : Watched w p) (hsignal : t.waiters p.principal = some p.channel)
    (hversion : w.versions p.channel ≤ t.versions p.channel) (hlog : t.log = w.log)
    (howed : Owed w p.principal → p.seen < t.versions p.channel ∨ Owed t p.principal) :
    Watched t p := by
  refine ⟨hsignal, Nat.le_trans h.seen hversion, fun read hread harrived => ?_⟩
  rw [Arrived, hlog] at harrived
  rcases h.woken read hread harrived with hlt | hprior
  · exact .inl (Nat.lt_of_lt_of_le hlt hversion)
  · exact howed hprior

theorem poll_setPoll {v : Option Poll} (h : (w.setPoll i v).poll k = some q) :
    v = some q ∨ w.poll k = some q := by
  rw [World.poll, World.setPoll, List.getElem?_set] at h
  split at h
  · split at h
    · exact .inl h
    · cases h
  · exact .inr h

theorem AllWatched.setPoll {v : Option Poll} (h : AllWatched w)
    (hv : ∀ q, v = some q → Watched w q) :
    AllWatched (w.setPoll i v) := by
  intro k q hq
  have hwatched : Watched w q := by
    rcases poll_setPoll hq with hnew | hold
    · exact hv q hnew
    · exact h k q hold
  exact ⟨hwatched.signal, hwatched.seen, hwatched.woken⟩

theorem append_setAppend (hne : j ≠ k) : (w.setAppend j v).append k = w.append k := by
  rw [World.append, World.setAppend, List.getElem?_set_ne hne]
  rfl

theorem append_setAppend_self (h : w.append j = some a) : (w.setAppend j v).append j = v := by
  have hlt : j < w.appends.length := by
    by_contra hge
    rw [World.append, List.getElem?_eq_none (Nat.not_lt.mp hge)] at h
    cases h
  rw [World.append, World.setAppend, List.getElem?_set_self hlt]
  rfl

/-- What another append owes is not changed. -/
theorem Owed.setAppend (h : Owed w x) (ha : w.append j = some a) (hpaid : ¬a.Owes x) :
    Owed (w.setAppend j v) x := by
  obtain ⟨k, b, hb, howes⟩ := h
  have hne : j ≠ k := by
    rintro rfl
    rw [ha] at hb
    cases hb
    exact hpaid howes
  exact ⟨k, b, (append_setAppend hne).trans hb, howes⟩

theorem received_of_poll (h : w.poll i = some p) :
    InboxArrivals.received w.polls p.channel = true := by
  rw [World.poll, Option.join_eq_some_iff] at h
  refine List.any_eq_true.mpr ⟨some p, List.mem_of_getElem? h, ?_⟩
  simp

theorem Watched.retained (h : Watched w p) (hp : w.poll i = some p) :
    InboxArrivals.retain w.polls w.waiters p.principal = some p.channel := by
  rw [InboxArrivals.retain, h.signal, Option.filter_some, if_pos (received_of_poll hp)]

theorem le_bump (waiters : String → Option ℕ) (recipients : List String) (versions : ℕ → ℕ)
    (channel : ℕ) :
    versions channel ≤ InboxArrivals.bump waiters recipients versions channel := by
  induction recipients generalizing versions with
  | nil => exact Nat.le_refl _
  | cons recipient recipients ih =>
    refine Nat.le_trans ?_ (ih _)
    cases waiters recipient with
    | none => exact Nat.le_refl _
    | some woken =>
      change versions channel ≤ Function.update versions woken (versions woken + 1) channel
      rw [Function.update_apply]
      split
      · rename_i heq
        rw [heq]
        exact Nat.le_succ _
      · exact Nat.le_refl _

/-- The signal of a recipient is advanced. -/
theorem lt_bump {waiters : String → Option ℕ} {recipients : List String} {channel : ℕ}
    (hsignal : waiters x = some channel) (hx : x ∈ recipients) (versions : ℕ → ℕ) :
    versions channel < InboxArrivals.bump waiters recipients versions channel := by
  induction recipients generalizing versions with
  | nil => cases hx
  | cons recipient recipients ih =>
    rcases List.mem_cons.mp hx with rfl | hx
    · refine Nat.lt_of_lt_of_le ?_ (le_bump waiters recipients _ channel)
      rw [hsignal]
      simp
    · refine Nat.lt_of_le_of_lt ?_ (ih hx _)
      exact le_bump waiters [recipient] versions channel

theorem AllWatched.subscribe (h : AllWatched w) (x : String) :
    AllWatched (InboxArrivals.subscribe w x) := by
  have hpolls : ∀ {new : Poll} {k q}, (w.polls ++ [some new])[k]?.join = some q → q = new ∨
    w.poll k = some q := by
    intro new k q hq
    rw [Option.join_eq_some_iff, List.getElem?_append] at hq
    split at hq
    · exact .inr (Option.join_eq_some_iff.mpr hq)
    · have hmem := List.mem_of_getElem? hq
      exact .inl (Option.some.inj (List.mem_singleton.mp hmem))
  unfold InboxArrivals.subscribe
  dsimp only
  split <;> rename_i hfound <;> intro k q hq
  · rcases hpolls hq with rfl | hold
    · exact ⟨hfound, Nat.le_refl _, fun read hread => by cases hread⟩
    · have hwatched := h k q hold
      exact hwatched.mono (hwatched.retained hold) (Nat.le_refl _) rfl .inr
  · rcases hpolls hq with rfl | hold
    · exact ⟨Function.update_self .., Nat.le_refl _, fun read hread => by cases hread⟩
    · have hwatched := h k q hold
      have hne : q.principal ≠ x := by
        rintro rfl
        rw [hwatched.retained hold] at hfound
        cases hfound
      refine hwatched.mono ?_ (Nat.le_refl _) rfl .inr
      exact (Function.update_of_ne hne ..).trans (hwatched.retained hold)

theorem AllWatched.notify (h : AllWatched w) (ha : w.append j = some a) :
    AllWatched ((InboxArrivals.notify w a.attention).setAppend j none) := by
  intro k q hq
  have hwatched := h k q hq
  refine hwatched.mono (hwatched.retained hq) (le_bump ..) rfl fun howed => ?_
  by_cases hx : q.principal ∈ a.attention
  · exact .inl (Nat.lt_of_le_of_lt hwatched.seen (lt_bump hwatched.signal hx _))
  · exact .inr (howed.setAppend ha fun howes => hx howes.2.2)

theorem AllWatched.setAppend (h : AllWatched w) (ha : w.append j = some a)
    (hpaid : ∀ x, ¬a.Owes x) :
    AllWatched (w.setAppend j v) := by
  intro k q hq
  have hwatched := h k q hq
  exact hwatched.mono hwatched.signal (Nat.le_refl _) rfl fun howed =>
    .inr (howed.setAppend ha (hpaid _))

/-- The log grows by an append that owes its wakeups or has none to give. -/
theorem AllWatched.commit {job : Job} (h : AllWatched w) (ha : w.append j = some a)
    (hjob : a.job ≠ .created)
    (hattended : job = .created ∧ a.attended = true ∨ a.attention = []) :
    AllWatched
    { w.setAppend j (some { a with job := job }) with log := w.log ++ [a.attention] } := by
  intro k q hq
  have hwatched := h k q hq
  refine ⟨hwatched.signal, hwatched.seen, fun read hread harrived => ?_⟩
  obtain ⟨n, attention, hn, hlog, hx⟩ := harrived
  rw [List.getElem?_append] at hlog
  split at hlog
  · rcases hwatched.woken read hread ⟨n, attention, hn, hlog, hx⟩ with hlt | howed
    · exact .inl hlt
    · exact .inr (howed.setAppend ha (Append.not_owes hjob _))
  · obtain rfl := List.mem_singleton.mp (List.mem_of_getElem? hlog)
    rcases hattended with ⟨rfl, hattended⟩ | hnone
    · exact .inr ⟨j, _, append_setAppend_self ha, rfl, hattended, hx⟩
    · rw [hnone] at hx
      cases hx

theorem AllWatched.submit (h : AllWatched w) (new : Append) :
    AllWatched { w with appends := w.appends ++ [some new] } := by
  intro k q hq
  have hwatched := h k q hq
  refine hwatched.mono hwatched.signal (Nat.le_refl _) rfl fun howed => .inr ?_
  obtain ⟨n, b, hb, howes⟩ := howed
  refine ⟨n, b, ?_, howes⟩
  rw [World.append, Option.join_eq_some_iff] at hb ⊢
  rw [List.getElem?_append_left (List.getElem?_eq_some_iff.mp hb).1, hb]

/-- A step on an entry that is there, under a guard. -/
theorem guarded_eq_some {α β : Type} {x : Option α} {guard : α → Prop} [DecidablePred guard]
    {f : α → Option β} {t : β} :
    (x >>= fun a => if guard a then f a else none) = some t ↔
      ∃ a, x = some a ∧ guard a ∧ f a = some t := by
  simp only [Option.bind_eq_bind, Option.bind_eq_some_iff, Option.ite_none_right_eq_some]

/-- Every harmless step keeps the polls watched. -/
theorem AllWatched.step {e : Event} (h : AllWatched w) (hstep : w.step e = some t)
    (hharmless : Harmless w e) :
    AllWatched t := by
  cases e with
  | subscribe x =>
    cases hstep
    exact h.subscribe x
  | read i empty =>
    obtain ⟨p, hp, -, ht⟩ := guarded_eq_some.mp hstep
    cases ht
    have hwatched := h i p hp
    refine h.setPoll fun q hq => ?_
    cases hq
    refine ⟨hwatched.signal, hwatched.seen, fun read hread harrived => ?_⟩
    -- nothing is after the snapshot yet
    cases hread
    obtain ⟨n, attention, hn, hlog, -⟩ := harrived
    rw [List.getElem?_eq_none hn] at hlog
    cases hlog
  | hold i =>
    obtain ⟨p, hp, ht⟩ := Option.bind_eq_some_iff.mp hstep
    split at ht
    · rename_i read hphase hlast
      cases ht
      have hwatched := h i p hp
      refine h.setPoll fun q hq => ?_
      cases hq
      refine ⟨hwatched.signal, hwatched.seen, fun read' hread harrived => ?_⟩
      exact hwatched.woken read' (by rw [hphase]; exact hread) harrived
    · cases ht
  | changed i =>
    obtain ⟨p, hp, ht⟩ := Option.bind_eq_some_iff.mp hstep
    split at ht
    · rw [Option.ite_none_right_eq_some] at ht
      obtain ⟨-, ht⟩ := ht
      cases ht
      refine h.setPoll fun q hq => ?_
      cases hq
      exact ⟨(h i p hp).signal, Nat.le_refl _, fun read hread => by cases hread⟩
    · cases ht
  | deadline i =>
    obtain ⟨p, hp, ht⟩ := Option.bind_eq_some_iff.mp hstep
    split at ht
    · cases ht
      refine h.setPoll fun q hq => ?_
      cases hq
      exact ⟨(h i p hp).signal, (h i p hp).seen, fun read hread => by cases hread⟩
    · cases ht
  | leave i =>
    obtain ⟨-, -, ht⟩ := Option.bind_eq_some_iff.mp hstep
    cases ht
    exact h.setPoll fun q hq => by cases hq
  | submit attention =>
    cases hstep
    exact h.submit _
  | commit j =>
    obtain ⟨a, ha, hjob, ht⟩ := guarded_eq_some.mp hstep
    cases ht
    refine h.commit ha (by rw [hjob]; exact Job.noConfusion) ?_
    exact (hharmless a ha).imp_left fun hattended => ⟨rfl, hattended⟩
  | commitError j =>
    obtain ⟨a, ha, hjob, ht⟩ := guarded_eq_some.mp hstep
    cases ht
    exact h.commit ha (by rw [hjob]; exact Job.noConfusion) (.inr (hharmless a ha))
  | replay j =>
    obtain ⟨a, ha, hjob, ht⟩ := guarded_eq_some.mp hstep
    cases ht
    exact h.setAppend ha (Append.not_owes (by rw [hjob]; exact Job.noConfusion))
  | refuse j =>
    obtain ⟨a, ha, hjob, ht⟩ := guarded_eq_some.mp hstep
    cases ht
    exact h.setAppend ha (Append.not_owes (by rw [hjob]; exact Job.noConfusion))
  | notify j =>
    obtain ⟨a, ha, -, ht⟩ := guarded_eq_some.mp hstep
    cases ht
    split
    · exact h.notify ha
    · rename_i hnone
      refine h.setAppend ha fun x howes => hnone ?_
      exact List.length_pos_of_mem howes.2.2
  | answerError j =>
    obtain ⟨a, ha, ⟨hjob, -⟩, ht⟩ := guarded_eq_some.mp hstep
    cases ht
    exact h.setAppend ha (Append.not_owes (by rw [hjob]; exact Job.noConfusion))
  | drop j =>
    obtain ⟨a, ha, ht⟩ := Option.bind_eq_some_iff.mp hstep
    cases ht
    refine h.setAppend ha fun x howes => ?_
    have hx := howes.2.2
    rw [hharmless a ha howes.1] at hx
    cases hx

/-- While handlers see their appends through, no held poll sleeps through an append. -/
theorem no_lost_wakeup (h : attentiveHttp.Reachable w) : NoLostWakeup w := by
  refine AllWatched.noLostWakeup (h.invariant (I := AllWatched) ?_ ?_)
  · rintro s rfl i p hp
    cases hp
  · rintro s e t hs ⟨hstep, hharmless⟩
    exact hs.step hstep hharmless

theorem journalHttp_next (h : journalHttp.Reachable w) (e : Event) (hstep : w.step e = some t) :
    journalHttp.Reachable t := h.tail (i := e) hstep

theorem attentiveHttp_next (h : attentiveHttp.Reachable w) (e : Event) (hstep : w.step e = some t)
    (hharmless : Harmless w e) : attentiveHttp.Reachable t := h.tail (i := e) ⟨hstep, hharmless⟩

/-- A poll is held, an append to its principal commits, and its handler is about to notify. -/
theorem no_lost_wakeup_sample : ∃ w, attentiveHttp.Reachable w ∧ w.log = [["reader"]] ∧
    w.poll 0 = some ⟨"reader", 0, 0, .waiting 0, false⟩ ∧ NoLostWakeup w := by
  have hstart : attentiveHttp.Reachable World.start := .of_start rfl
  have hsubscribed := attentiveHttp_next hstart (.subscribe "reader") rfl trivial
  have hread := attentiveHttp_next hsubscribed (.read 0 true) rfl trivial
  have hheld := attentiveHttp_next hread (.hold 0) rfl trivial
  have hsubmitted := attentiveHttp_next hheld (.submit ["reader"]) rfl trivial
  have hcommitted :=
    attentiveHttp_next hsubmitted (.commit 0) rfl (fun a ha => by cases ha; exact .inl rfl)
  exact ⟨_, hcommitted, rfl, rfl, no_lost_wakeup hcommitted⟩

/-- The client of an append disconnects while the blocking job runs: the held poll is not woken. -/
theorem dropped_handler_loses_wakeup : ∃ w, journalHttp.Reachable w ∧ ¬NoLostWakeup w := by
  have hstart : journalHttp.Reachable World.start := .of_start rfl
  have hsubscribed := journalHttp_next hstart (.subscribe "reader") rfl
  have hread := journalHttp_next hsubscribed (.read 0 true) rfl
  have hheld := journalHttp_next hread (.hold 0) rfl
  have hsubmitted := journalHttp_next hheld (.submit ["reader"]) rfl
  have hdropped := journalHttp_next hsubmitted (.drop 0) rfl
  have hcommitted := journalHttp_next hdropped (.commit 0) rfl
  refine ⟨_, hcommitted, fun h => ?_⟩
  rcases h 0 ⟨"reader", 0, 0, .waiting 0, false⟩ 0 rfl rfl
    ⟨0, ["reader"], Nat.le_refl 0, rfl, List.mem_singleton_self _⟩
    with hunseen | ⟨j, a, ha, -, hattended, -⟩
  · exact hunseen rfl
  · cases j with
    | zero =>
      cases ha
      cases hattended
    | succ j => cases ha

end Wakeups
end AgentJournal.Daemon.LongPoll
