import AgentJournal.Service.Idempotency

/-! # The transaction wrapper of the service

Every mutation runs as a closure inside `with_transaction_for`, which decides between rollback,
plain commit and the audited commit with its intent. The wrapper is modelled with a failure
possible at each of its own steps, and every execution of it is a run of the store.
-/

namespace AgentJournal.Service
open Domain Foundation Storage Recovery

/-- The durable state behind a handle: the audit of a protected store and the central file. -/
structure Handle where
  audit : Option Audit
  central : Central

/-- The steps of the wrapper around the closure that can fail by themselves. -/
inductive WrapperStep where
  | lock
  | connect
  | beginImmediate
  | rollback
  | connectAudit
  | insertIntent
  | updateAnchor
  | commit
  | complete
deriving DecidableEq, Repr

inductive CallError where
  | service (error : BootstrapError)
  | storage (error : StorageError)
deriving DecidableEq, Repr

/-- The newest durable write of a call when it returned. -/
inductive Reached where
  | nothing
  | intent
  | commit
deriving DecidableEq, Repr

structure Outcome (α : Type) where
  result : Except CallError α
  reached : Reached
  handle : Handle

variable {α : Type} {P : Platform}

section Wrapper
variable (fails : WrapperStep → Bool) (host : Host)

def attemptStep (step : WrapperStep) (operation : String) : Fallible Unit :=
  failIf (fails step = true) (.io operation)

/-- The gate and the immediate transaction. -/
def openTransaction (h : Handle) : Fallible Unit := do
  attemptStep fails .lock "lock"
  match h.audit with
  | some a => a.ensureOpen h.central
  | none => .ok ()
  attemptStep fails .connect "connect"
  attemptStep fails .beginImmediate "begin"

/-- A commit without an intent: the handle has no audit, or no row changed. -/
def commitPlain (value : α) (tx : Central) (h : Handle) : Outcome α :=
  match attemptStep fails .commit "commit" with
  | .error e => ⟨.error (.storage e), .nothing, h⟩
  | .ok () => ⟨.ok value, .commit, { h with central := tx }⟩

/-- `committed`, after the central commit. -/
def completeIntent (value : α) (tx : Central) (revision : ℤ) (b : Audit) : Outcome α :=
  match attemptStep fails .complete "complete" >>= fun _ => b.committed revision with
  | .error e => ⟨.error (.storage e), .commit, ⟨some b, setRevision revision tx⟩⟩
  | .ok b' => ⟨.ok value, .commit, ⟨some b', setRevision revision tx⟩⟩

/-- The anchor and the commit, after the intent was inserted. -/
def commitIntent (value : α) (tx : Central) (revision : ℤ) (b : Audit) (h : Handle) : Outcome α :=
  match attemptStep fails .updateAnchor "anchor" >>= fun _ =>
    attemptStep fails .commit "commit" with
  | .error e => ⟨.error (.storage e), .intent, { h with audit := some b }⟩
  | .ok () => completeIntent fails value tx revision b

/-- `prepare` up to its insert. -/
def insertIntent (a : Audit) (tx : Central) : Fallible (ℤ × Audit) := do
  attemptStep fails .connectAudit "audit"
  attemptStep fails .insertIntent "intent"
  a.prepareIntent tx

def commitAudited (a : Audit) (value : α) (tx : Central) (h : Handle) : Outcome α :=
  match insertIntent fails a tx with
  | .error e => ⟨.error (.storage e), .nothing, h⟩
  | .ok (revision, b) => commitIntent fails value tx revision b h

def withTransactionFor (operation : Tx α) (h : Handle) : Outcome α :=
  match openTransaction fails h with
  | .error e => ⟨.error (.storage e), .nothing, h⟩
  | .ok () =>
    match operation.run (.start host h.central) with
    | .error e =>
      match attemptStep fails .rollback "rollback" with
      | .error lost => ⟨.error (.storage lost), .nothing, h⟩
      | .ok () => ⟨.error (.service e), .nothing, h⟩
    | .ok (value, s) =>
      match h.audit with
      | some a =>
        if s.changes ≠ 0 then commitAudited fails a value s.central h
        else commitPlain fails value s.central h
      | none => commitPlain fails value s.central h

end Wrapper

section Outcomes
variable {fails : WrapperStep → Bool} {host : Host} {h : Handle} {operation : Tx α} {value : α}
  {tx : Central} {a b : Audit} {revision : ℤ}

/-- What an outcome may have changed: nothing, the audit, or the file. -/
def Atomic (h : Handle) (o : Outcome α) : Prop :=
  (o.reached ≠ .commit → o.handle.central = h.central ∧ ∃ e, o.result = .error e) ∧
    (o.reached = .nothing → o.handle = h)

theorem commitPlain_atomic : Atomic h (commitPlain fails value tx h) := by
  unfold commitPlain
  split
  · exact ⟨fun _ => ⟨rfl, _, rfl⟩, fun _ => rfl⟩
  · exact ⟨fun hnot => absurd rfl hnot, fun hnone => by cases hnone⟩

theorem commitIntent_atomic : Atomic h (commitIntent fails value tx revision b h) := by
  unfold commitIntent completeIntent
  split
  · exact ⟨fun _ => ⟨rfl, _, rfl⟩, fun hnone => by cases hnone⟩
  · split
    · exact ⟨fun hnot => absurd rfl hnot, fun hnone => by cases hnone⟩
    · exact ⟨fun hnot => absurd rfl hnot, fun hnone => by cases hnone⟩

/-- A call that did not reach its commit left the file alone, and before its intent the audit. -/
theorem withTransactionFor_atomic (fails : WrapperStep → Bool) (host : Host) (operation : Tx α)
    (h : Handle) : Atomic h (withTransactionFor fails host operation h) := by
  have hnothing : ∀ e : CallError, Atomic h (⟨.error e, .nothing, h⟩ : Outcome α) :=
    fun e => ⟨fun _ => ⟨rfl, e, rfl⟩, fun _ => rfl⟩
  unfold withTransactionFor
  split
  · exact hnothing _
  · split
    · split
      · exact hnothing _
      · exact hnothing _
    · split
      · split
        · unfold commitAudited
          split
          · exact hnothing _
          · exact commitIntent_atomic
        · exact commitPlain_atomic
      · exact commitPlain_atomic

/-- A closure that fails leaves no trace. -/
theorem withTransactionFor_refused {e : BootstrapError}
    (hrefused : operation.run (.start host h.central) = .error e) :
    (withTransactionFor fails host operation h).handle = h ∧
      ∃ lost, (withTransactionFor fails host operation h).result = .error lost := by
  unfold withTransactionFor
  split
  · exact ⟨rfl, _, rfl⟩
  · rw [hrefused]
    simp only
    split
    · exact ⟨rfl, _, rfl⟩
    · exact ⟨rfl, _, rfl⟩

theorem openTransaction_eq_ok (hopen : openTransaction fails h = .ok ()) :
    ∀ a, h.audit = some a → a.ensureOpen h.central = .ok () := by
  intro a ha
  simp only [openTransaction, ha, bind_eq_ok] at hopen
  obtain ⟨_, -, _, hensure, -⟩ := hopen
  exact hensure

/-- What a success committed. -/
theorem withTransactionFor_eq_ok
    (hok : (withTransactionFor fails host operation h).result = .ok value) :
    ∃ s, operation.run (.start host h.central) = .ok (value, s) ∧
      ((h.audit = none ∨ s.changes = 0) ∧
          (withTransactionFor fails host operation h).handle = { h with central := s.central } ∨
        ∃ a b b' revision, h.audit = some a ∧ s.changes ≠ 0 ∧ a.ensureOpen h.central = .ok () ∧
          a.prepareIntent s.central = .ok (revision, b) ∧ b.committed revision = .ok b' ∧
          (withTransactionFor fails host operation h).handle =
            ⟨some b', setRevision revision s.central⟩) := by
  cases hopen : openTransaction fails h with
  | error e => simp [withTransactionFor, hopen] at hok
  | ok u =>
    cases hrun : operation.run (.start host h.central) with
    | error e =>
      cases hroll : attemptStep fails .rollback "rollback" <;>
        simp [withTransactionFor, hopen, hrun, hroll] at hok
    | ok x =>
      obtain ⟨value', s⟩ := x
      have hplain : withTransactionFor fails host operation h =
        commitPlain fails value' s.central h →
          value' = value ∧ (withTransactionFor fails host operation h).handle =
            { h with central := s.central } := by
        intro heq
        rw [heq] at hok ⊢
        unfold commitPlain at hok ⊢
        split at hok
        · cases hok
        · cases hok
          exact ⟨rfl, rfl⟩
      cases haudit : h.audit with
      | none =>
        obtain ⟨rfl, hhandle⟩ := hplain (by simp only [withTransactionFor, hopen, hrun, haudit])
        exact ⟨s, rfl, .inl ⟨.inl rfl, haudit ▸ hhandle⟩⟩
      | some a =>
        by_cases hchanges : s.changes = 0
        · obtain ⟨rfl, hhandle⟩ := hplain (by
            simp only [withTransactionFor, hopen, hrun, haudit, hchanges, ne_eq, not_true_eq_false,
              if_false])
          exact ⟨s, rfl, .inl ⟨.inr hchanges, haudit ▸ hhandle⟩⟩
        · have haudited : withTransactionFor fails host operation h =
              commitAudited fails a value' s.central h := by
            simp only [withTransactionFor, hopen, hrun, haudit, ne_eq, hchanges, not_false_eq_true,
              if_true]
          rw [haudited] at hok ⊢
          cases hintent : insertIntent fails a s.central with
          | error e => simp [commitAudited, hintent] at hok
          | ok x =>
            obtain ⟨revision, b⟩ := x
            simp only [commitAudited, hintent, commitIntent] at hok ⊢
            split at hok
            · cases hok
            · unfold completeIntent at hok ⊢
              split at hok
              · cases hok
              · rename_i b' hcomplete
                cases hok
                simp only [insertIntent, bind_eq_ok] at hintent
                obtain ⟨_, -, _, -, hprepare⟩ := hintent
                obtain ⟨_, -, hcommitted⟩ := bind_eq_ok.mp hcomplete
                refine ⟨s, rfl, .inr ⟨a, b, b', revision, rfl, hchanges,
                  openTransaction_eq_ok hopen a haudit, hprepare, hcommitted, rfl⟩⟩

end Outcomes

section Runs
variable {fails : WrapperStep → Bool} {host : Host} {call : Call} {w : World} {file : String}
  {a b : Audit} {c tx : Central} {revision : ℤ} {n : ℕ}

/-- A handle on a file of the world. -/
structure Holds (w : World) (file : String) (h : Handle) : Prop where
  task : w.task = .serving file
  audit : w.audit = h.audit
  file : w.files file = some h.central

/-- A prepared head closes the store to every call and to every start. -/
theorem withTransactionFor_prepared {h : Handle} {e : Event} (haudit : h.audit = some a)
    (hl : a.Ledger e) (hprepared : e.outcome = .prepared) (fails : WrapperStep → Bool) (host : Host)
    (operation : Tx α) : (withTransactionFor fails host operation h).handle = h ∧
      (∃ lost, (withTransactionFor fails host operation h).result = .error lost) ∧
      ∀ lineage, a.readOpenLineage ≠ .ok lineage := by
  have hclosed : ∀ u, openTransaction fails h ≠ .ok u := fun u hopen =>
    ((Audit.ensureOpen_eq_ok hl).mp (openTransaction_eq_ok hopen a haudit)).2.1 hprepared
  refine ⟨?_, ?_, fun lineage hread => (Audit.readOpenLineage_eq_ok hl hread).2.1 hprepared⟩
  all_goals
    unfold withTransactionFor
    cases hopen : openTransaction fails h with
    | ok u => exact absurd hopen (hclosed u)
    | error lost => simp

/-- A commit that was answered with an error is in place under a prepared head. -/
theorem withTransactionFor_uncertain {h : Handle} {lost : CallError} {operation : Tx α}
    (hl : ∀ a, h.audit = some a → ∃ e, a.Ledger e)
    (hreached : (withTransactionFor fails host operation h).reached = .commit)
    (herror : (withTransactionFor fails host operation h).result = .error lost) :
    ∃ value s revision b e, operation.run (.start host h.central) = .ok (value, s) ∧
      (withTransactionFor fails host operation h).handle =
        ⟨some b, setRevision revision s.central⟩ ∧ b.Ledger e ∧ e.outcome = .prepared := by
  have hplain : ∀ value tx, ¬((commitPlain (α := α) fails value tx h).reached = .commit ∧
      (commitPlain fails value tx h).result = .error lost) := by
    intro value tx
    unfold commitPlain
    split <;> simp
  unfold withTransactionFor at hreached herror ⊢
  cases hopen : openTransaction fails h with
  | error e => simp [hopen] at hreached
  | ok u =>
    simp only [hopen] at hreached herror ⊢
    cases hrun : operation.run (.start host h.central) with
    | error e =>
      simp only [hrun] at hreached
      split at hreached <;> simp at hreached
    | ok x =>
      obtain ⟨value, s⟩ := x
      simp only [hrun] at hreached herror ⊢
      cases haudit : h.audit with
      | none =>
        simp only [haudit] at hreached herror
        exact absurd ⟨hreached, herror⟩ (hplain value s.central)
      | some a =>
        simp only [haudit] at hreached herror ⊢
        obtain ⟨e, hledger⟩ := hl a haudit
        by_cases hchanges : s.changes ≠ 0
        · simp only [hchanges, ne_eq, not_false_eq_true, if_true] at hreached herror ⊢
          unfold commitAudited at hreached herror ⊢
          cases hintent : insertIntent fails a s.central with
          | error e => simp [hintent] at hreached
          | ok x =>
            obtain ⟨revision, b⟩ := x
            simp only [hintent] at hreached herror ⊢
            obtain ⟨_, -, _, -, hprepare⟩ := by
              simpa only [insertIntent, bind_eq_ok] using hintent
            obtain ⟨hresolved, hrevision, hb⟩ := Audit.prepareIntent_eq_ok hledger hprepare
            have hnext : b.Ledger ⟨revision, some (snapshot s.central), .prepared⟩ :=
              hledger.append hresolved hrevision (by rw [hb])
            unfold commitIntent at hreached herror ⊢
            split at hreached
            · cases hreached
            · rename_i hcommit
              simp only [hcommit] at herror ⊢
              unfold completeIntent at herror ⊢
              split at herror
              · rename_i hcomplete
                simp only
                exact ⟨value, s, revision, b, _, rfl, rfl, hnext, rfl⟩
              · cases herror
        · simp only [hchanges, if_false] at hreached herror
          exact absurd ⟨hreached, herror⟩ (hplain value s.central)

theorem Holds.ledger {h : Handle} (hw : (store P).Reachable w) (hh : Holds w file h) :
    ∀ a, h.audit = some a → ∃ e, a.Ledger e := by
  intro a ha
  obtain ⟨e, _, _, hcoherent⟩ := coherent_of_reachable hw (hh.audit.trans ha)
  exact ⟨e, hcoherent.ledger⟩

/-- The steps of a call up to its intent. -/
theorem run_intent (hserving : w.task = .serving file) (haudit : w.audit = some a)
    (hfile : w.files file = some c) (hopen : a.ensureOpen c = .ok ())
    (hrun : (call.operation P host).run c = some (tx, n + 1))
    (hprepare : a.prepareIntent tx = .ok (revision, b)) :
    (store P).Run w [.operate (call.operation P host), .intend]
      (w.allocate b revision .ordinary (.intended file tx revision)) := by
  have hoperate : (store P).Run w [.operate (call.operation P host)]
      { w with task := .operated file tx } := by
    refine .single ⟨fun op heq => ?_, ?_⟩
    · cases heq
      exact ⟨host, call, rfl⟩
    · simp [step, hserving, haudit, hfile, hopen, hrun, succeeded]
  exact hoperate.append
    (.single ⟨by simp, by simp [step, haudit, hprepare, succeeded, World.allocate]⟩)

theorem commitIntent_handle (fails : WrapperStep → Bool) (value : α) (tx : Central) (revision : ℤ)
    (b : Audit) (h : Handle) :
    (commitIntent fails value tx revision b h).handle = { h with audit := some b } ∨
      (commitIntent fails value tx revision b h).handle = ⟨some b, setRevision revision tx⟩ ∨
      ∃ b', b.committed revision = .ok b' ∧
        (commitIntent fails value tx revision b h).handle = ⟨some b', setRevision revision tx⟩ := by
  unfold commitIntent completeIntent
  split
  · exact .inl rfl
  · split
    · exact .inr (.inl rfl)
    · rename_i b' hcomplete
      obtain ⟨_, -, hcommitted⟩ := bind_eq_ok.mp hcomplete
      exact .inr (.inr ⟨b', hcommitted, rfl⟩)

/-- What a call leaves behind a protected handle. -/
theorem withTransactionFor_handle (fails : WrapperStep → Bool) (host : Host) (operation : Tx α)
    {h : Handle} (haudit : h.audit = some a) :
    (withTransactionFor fails host operation h).handle = h ∨
      ∃ value s, operation.run (.start host h.central) = .ok (value, s) ∧
        ((s.changes = 0 ∧
            (withTransactionFor fails host operation h).handle = { h with central := s.central }) ∨
          (s.changes ≠ 0 ∧ a.ensureOpen h.central = .ok () ∧ ∃ revision b,
            a.prepareIntent s.central = .ok (revision, b) ∧
            (withTransactionFor fails host operation h).handle =
              (commitIntent fails value s.central revision b h).handle)) := by
  cases hopen : openTransaction fails h with
  | error e => exact .inl (by simp only [withTransactionFor, hopen])
  | ok u =>
    cases hrun : operation.run (.start host h.central) with
    | error e =>
      refine .inl ?_
      cases hroll : attemptStep fails .rollback "rollback" <;>
        simp only [withTransactionFor, hopen, hrun, hroll]
    | ok x =>
      obtain ⟨value, s⟩ := x
      by_cases hchanges : s.changes = 0
      · simp only [withTransactionFor, hopen, hrun, haudit, hchanges, ne_eq, not_true_eq_false,
          if_false, commitPlain]
        cases attemptStep fails .commit "commit" with
        | error e => exact .inl rfl
        | ok u => exact .inr ⟨value, s, rfl, .inl ⟨hchanges, haudit ▸ rfl⟩⟩
      · simp only [withTransactionFor, hopen, hrun, haudit, ne_eq, hchanges, not_false_eq_true,
          if_true, commitAudited]
        cases hintent : insertIntent fails a s.central with
        | error e => exact .inl rfl
        | ok x =>
          obtain ⟨revision, b⟩ := x
          simp only [insertIntent, bind_eq_ok] at hintent
          obtain ⟨_, -, _, -, hprepare⟩ := hintent
          exact .inr
            ⟨value, s, rfl, .inr ⟨hchanges, openTransaction_eq_ok hopen a haudit, revision, b,
            hprepare, rfl⟩⟩

/-- Every call of the service on a protected handle, with any failure, is a run of the store. -/
theorem withTransactionFor_runs {h : Handle} (hw : Holds w file h) (haudit : h.audit = some a) :
    ∃ labels w', (store P).Run w labels w' ∧
      Holds w' file (withTransactionFor fails host (call.perform P) h).handle ∧
      ∀ other, other ≠ file → w'.files other = w.files other := by
  obtain ⟨htask, hwaudit, hfile⟩ := hw
  rcases withTransactionFor_handle fails host (call.perform P) haudit
    with hsame | ⟨value, s, hrun,
      ⟨hchanges, hhandle⟩ | ⟨hchanges, hopen, revision, b, hprepare, hhandle⟩⟩
  · rw [hsame]
    exact ⟨[], w, .nil, ⟨htask, hwaudit, hfile⟩, fun _ _ => rfl⟩
  · have hcounted : s.central = h.central := (call.operation P host).counted _ _
      (Call.operation_run.mpr ⟨s, hrun, rfl, hchanges⟩)
    rw [hhandle, hcounted]
    exact ⟨[], w, .nil, ⟨htask, hwaudit, hfile⟩, fun _ _ => rfl⟩
  · have hoperation : (call.operation P host).run h.central = some (s.central, s.changes - 1 + 1) :=
      Call.operation_run.mpr ⟨s, hrun, rfl, by omega⟩
    have hintended := run_intent htask (hwaudit.trans haudit) hfile hopen hoperation hprepare
    have hanchored := hintended.snoc (i := .anchor) ⟨by simp, rfl⟩
    have hput : ∀ {d : Central} {g : String}, g ≠ file → w.put file d g = w.files g :=
      fun hne => if_neg hne
    rw [hhandle]
    rcases commitIntent_handle fails value s.central revision b
      h with heq | heq | ⟨b', hcommitted, heq⟩
    · rw [heq]
      have haborted := hintended.snoc (i := .abort) ⟨by simp, rfl⟩
      exact ⟨_, _, haborted, ⟨rfl, rfl, hfile⟩, fun _ _ => rfl⟩
    · rw [heq]
      have hlost := hanchored.snoc (i := .commitLost) ⟨by simp, rfl⟩
      exact ⟨_, _, hlost, ⟨rfl, rfl, if_pos rfl⟩, fun _ => hput⟩
    · rw [heq]
      have hlanded := hanchored.snoc (i := .commit) ⟨by simp, rfl⟩
      have hcomplete := hlanded.snoc (i := .complete) ⟨by simp, by
        simp only [step, World.land, World.allocate, Option.bind_eq_bind, Option.bind_some,
          hcommitted, succeeded]
        rfl⟩
      exact ⟨_, _, hcomplete, ⟨rfl, rfl, if_pos rfl⟩, fun _ => hput⟩

end Runs

section Mutations
variable {h : Handle}

/-- For every served store and every failure of the wrapper. A call that returns an error before its
central commit leaves every table as it was, and before its intent the audit as well. A new append
changes the tables exactly by its rows, and a protected handle also moves the anchor by one. -/
theorem mutation_atomicity (hc : Content P h.central) (fails : WrapperStep → Bool) (host : Host) :
    (∀ (α : Type) (operation : Tx α),
      (withTransactionFor fails host operation h).reached ≠ .commit →
      (∃ e, (withTransactionFor fails host operation h).result = .error e) ∧
      (withTransactionFor fails host operation h).handle.central = h.central ∧
      ((withTransactionFor fails host operation h).reached = .nothing →
        (withTransactionFor fails host operation h).handle.audit = h.audit)) ∧
    ∀ token space key input result,
      (withTransactionFor fails host (appendRecord P token space key input) h).result = .ok result →
      result.replayed = false →
      Requested h.central space input result.record ∧
      ∃ d, AppendDiff space (appendPath space) key (P.payloadHash input) h.central d result ∧
        (withTransactionFor fails host (appendRecord P token space key input) h).handle.central =
          if h.audit = none then d else setRevision (h.central.recoveryAnchor.revision + 1) d := by
  refine ⟨fun α operation hreached => ?_, fun token space key input result hok hfresh => ?_⟩
  · have hatomic := withTransactionFor_atomic fails host operation h
    exact ⟨(hatomic.1 hreached).2, (hatomic.1 hreached).1, fun hnothing =>
      congrArg Handle.audit (hatomic.2 hnothing)⟩
  · obtain ⟨s, hrun, hcommit⟩ := withTransactionFor_eq_ok hok
    have hperform : ((Call.appendRecord token space key input).perform P).run
      (.start host h.central) =
        .ok ((), s) := run_bind_eq_ok.mpr ⟨result, s, hrun, rfl⟩
    have hwell := (Call.perform_extends _ rfl hc.wellFormed hperform).1
    obtain ⟨actor, s', -, hcentral, ⟨row, hfind, hreplay⟩ | ⟨-, happended, hrequested, -⟩⟩ :=
      appendRecord_eq_ok hrun
    · -- a replayed key says so
      have hrow := List.mem_of_find?_eq_some hfind
      have hrebuilt := ((keyedRecords_invariant P).content hc).rebuilt row hrow
      obtain ⟨-, -, r, -, rfl⟩ := (replayAppend_eq_ok hrebuilt).mp hreplay
      cases hfresh
    · have hdiff := happended.diff hc.wellFormed hwell
      refine ⟨hrequested, s.central, hdiff, ?_⟩
      rcases hcommit with ⟨hnone | hzero, hhandle⟩ | ⟨a, b, b', revision, ha, -, hopen, hprepare, -,
        hhandle⟩
      · rw [hhandle, if_pos hnone]
      · -- an append writes at least its record
        exfalso
        have hsame : s.central = h.central := (Call.operation P host (.appendRecord token space key
          input)).counted _ _ (Call.operation_run.mpr ⟨s, hperform, rfl, hzero⟩)
        obtain ⟨items, htables, -⟩ := hdiff.tables
        have hlength := congrArg (fun c : Central => c.records.length) htables
        simp [hsame] at hlength
      · rw [hhandle, if_neg (by simp [ha])]
        obtain ⟨e, hhead, hrest⟩ := bind_eq_ok.mp hopen
        rw [refuseIf_eq_ok, not_or, not_or, not_not, not_not] at hrest
        obtain ⟨_, hhead', hrest'⟩ := bind_eq_ok.mp hprepare
        obtain rfl := Except.ok.inj (hhead.symm.trans hhead')
        simp only [bind_eq_ok, pure_eq_ok, Except.ok.injEq, Prod.mk.injEq] at hrest'
        obtain ⟨_, -, next, hnext, _, -, rfl, -⟩ := hrest'
        rw [checkedSucc_eq_ok hnext, hrest.2.2]

/-- The sample store under its audit. -/
def sampleHandle : Handle := ⟨some (.initial sampleStore), setRequired sampleStore⟩

/-- A second append through the wrapper, with two relations and a recipient. -/
def sampleMutation : Outcome AppendResult :=
  withTransactionFor (fun _ => false) sampleHost
    (appendRecord .sample sampleToken "lab" "second" relatedInput) sampleHandle

theorem sampleHandle_content : Content .sample sampleHandle.central := by
  refine .inl ⟨_, sampleStore_reachable, ?_⟩
  simp [sampleHandle, World.baseline]

set_option maxRecDepth 20000 in
theorem sampleMutation_facts : ((succeeded sampleMutation.result).map (·.replayed)) = some false ∧
    sampleMutation.handle.central.recoveryAnchor ≠ sampleHandle.central.recoveryAnchor ∧
    sampleMutation.handle.central.recordsFts ≠ sampleHandle.central.recordsFts := by decide +kernel

/-- An audited append changes two rows besides its own: the anchor and the search index. -/
theorem append_changes_anchor : ∃ result, sampleMutation.result = .ok result ∧
    result.replayed = false ∧
    sampleMutation.handle.central.recoveryAnchor ≠ sampleHandle.central.recoveryAnchor ∧
    sampleMutation.handle.central.recordsFts ≠ sampleHandle.central.recordsFts := by
  obtain ⟨hfresh, hchanged⟩ := sampleMutation_facts
  simp only [Option.map_eq_some_iff, succeeded_eq_some] at hfresh
  obtain ⟨result, hok, hfresh⟩ := hfresh
  exact ⟨result, hok, hfresh, hchanged⟩

theorem mutation_atomicity_sample : ∃ result d, sampleMutation.result = .ok result ∧
    Requested sampleHandle.central "lab" relatedInput result.record ∧
    AppendDiff "lab" (appendPath "lab") "second" (Platform.sample.payloadHash relatedInput)
      sampleHandle.central d result ∧
    sampleMutation.handle.central =
    setRevision (sampleHandle.central.recoveryAnchor.revision + 1) d := by
  obtain ⟨hfresh, -⟩ := sampleMutation_facts
  simp only [Option.map_eq_some_iff, succeeded_eq_some] at hfresh
  obtain ⟨result, hok, hfresh⟩ := hfresh
  unfold sampleMutation at hok ⊢
  obtain ⟨hrequested, d, hdiff, hcentral⟩ :=
    (mutation_atomicity sampleHandle_content (fun _ => false) sampleHost).2 sampleToken "lab"
      "second"
      relatedInput result hok hfresh
  rw [if_neg (by simp [sampleHandle])] at hcentral
  exact ⟨result, d, hok, hrequested, hdiff, hcentral⟩

end Mutations

end AgentJournal.Service
