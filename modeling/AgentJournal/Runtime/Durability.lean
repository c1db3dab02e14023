import AgentJournal.Runtime.Publication
import AgentJournal.Runtime.Sizes

/-! # Durable publication

What readers, other publishers and a retry may rely on, over every run of any number of calls.
-/

namespace AgentJournal.Runtime
open Domain Foundation InboxWorker

/-- The call that an action belongs to. -/
def Action.caller : Action → Option ℕ
  | .start c .. | .advance c | .write c _ | .fault c | .kill c => some c
  | .delete _ => none

variable {R : Publisher} {quote : String → String} {d₀ d d' : Files} {call : Call} {stage : Stage}
  {w w' : World} {action : Action} {c : ℕ}

/-- A file that an operation removes or changes is the staging file of the call. -/
theorem Touch.own (htouch : Touch call d d') (htidy : Tidy d call) (hnumbered : d.Numbered)
    {n : String} {i : ℕ} (hi : d.entry n = some i) :
    d'.entry n = some i ∧ d'.file i = d.file i ∨
      ∃ own, call.stage.own = some own ∧ n = own.name ∧ i = own.inode := by
  cases htouch with
  | same => exact .inl ⟨hi, rfl⟩
  | @create k hstage hk hfree =>
    have hname : n ≠ call.candidate k := by
      rintro rfl
      rw [hfree] at hi
      cases hi
    rw [Directory.create_entry, if_neg hname, Directory.create_file,
      if_neg (Nat.ne_of_lt (hnumbered n i hi))]
    exact .inl ⟨hi, rfl⟩
  | @write own node hstage =>
    by_cases hown : i = own.inode
    · subst hown
      exact .inr ⟨own, by rw [hstage]; rfl, htidy.secret own hstage n hi, rfl⟩
    · rw [Directory.write_entry, Directory.write_file, if_neg hown]
      exact .inl ⟨hi, rfl⟩
  | @link own hstage hfree hfile =>
    have hname : n ≠ call.file := by
      rintro rfl
      rw [hfree] at hi
      cases hi
    rw [Directory.link_entry, if_neg hname]
    exact .inl ⟨hi, rfl⟩
  | @unlink own hown =>
    by_cases hname : n = own.name
    · subst hname
      exact .inr ⟨own, hown, rfl, htidy.unique own i hown hi⟩
    · rw [Directory.unlink_entry, if_neg hname]
      exact .inl ⟨hi, rfl⟩

/-- What one step does to the directory. -/
theorem Step.files (hsound : Sound R quote d₀ w) (h : Step R quote w action w') :
    w'.files = w.files ∨
      (∃ n, action = .delete n ∧ isStaging n = false ∧ w'.files = w.files.unlink n) ∨
      ∃ c call, action.caller = some c ∧ w.calls c = some call ∧ call.stage.live = true ∧
        Touch call w.files w'.files := by
  cases h with
  | start => exact .inl rfl
  | @advance c call hc hlive =>
    exact .inr (.inr ⟨c, call, rfl, hc, hlive, (advance_tidy (hsound.tidy c call hc hlive)
      hsound.numbered (hsound.visible c call hc) hlive).1⟩)
  | @write c count call own hc hwriting =>
    exact .inr (.inr ⟨c, call, rfl, hc, Stage.live_of_writing hwriting, .write hwriting⟩)
  | fault => exact .inl rfl
  | kill => exact .inl rfl
  | delete hname => exact .inr (.inl ⟨_, rfl, hname, rfl⟩)

/-- A published file stays as it is until a reader removes its name. -/
theorem Sound.kept (hsound : Sound R quote d₀ w) (h : Step R quote w action w') {n : String} {i : ℕ}
    (hn : isStaging n = false) (haction : action ≠ .delete n) (hi : w.files.entry n = some i) :
    w'.files.entry n = some i ∧ w'.files.file i = w.files.file i := by
  rcases h.files hsound with hsame | ⟨m, rfl, -, hunlink⟩ | ⟨c, call, -, hc, hlive, htouch⟩
  · rw [hsame]
    exact ⟨hi, rfl⟩
  · have hne : n ≠ m := fun heq => haction (heq ▸ rfl)
    rw [hunlink, Directory.unlink_entry, if_neg hne]
    exact ⟨hi, rfl⟩
  · have htidy := hsound.tidy c call hc hlive
    rcases htouch.own htidy hsound.numbered hi with hkept | ⟨own, hown, rfl, -⟩
    · exact hkept
    · rw [htidy.name_isStaging hown] at hn
      cases hn

theorem Sound.read_kept (hsound : Sound R quote d₀ w) (h : Step R quote w action w') {n : String}
    {node : Node} (hn : isStaging n = false) (haction : action ≠ .delete n)
    (hread : w.files.read n = some node) : w'.files.read n = some node := by
  obtain ⟨i, hi, hfile⟩ := Option.map_eq_some_iff.mp hread
  obtain ⟨hi', hfile'⟩ := hsound.kept h hn haction hi
  rw [Directory.read, hi', Option.map_some, hfile', hfile]

section Ownership

/-- The step that created a staging file. -/
def Created (c : ℕ) (own : Staged) (u : World) (action : Action) (v : World) : Prop :=
  action = .advance c ∧ u.files.entry own.name = none ∧ own.inode = u.files.next ∧
    v.files = u.files.create own.name (.regular [])

theorem advance_own {own : Staged} (h : (advance R d call).2.own = some own) :
    call.stage.own = some own ∨ d.entry own.name = none ∧ own.inode = d.next ∧
      (advance R d call).1 = d.create own.name (.regular []) := by
  obtain ⟨file, payload, pid, time, seq, stage⟩ := call
  unfold advance at h ⊢
  cases stage <;> simp only at h ⊢ <;> (repeat' split at h) <;> simp_all [Stage.own]
  case h_1 hfree =>
    subst h
    exact ⟨hfree, rfl, rfl⟩

theorem fault_own {own : Staged} (h : (fault R stage).own = some own) : stage.own = some own := by
  cases stage <;> simp_all [fault, Stage.own]

/-- A call's staging file was there before the step, or the step created it. -/
theorem Step.owned (h : Step R quote w action w') {call' : Call} {own : Staged}
    (hc' : w'.calls c = some call') (hown : call'.stage.own = some own) :
    (∃ call, w.calls c = some call ∧ call.stage.own = some own) ∨ Created c own w action w' := by
  cases h with
  | @start x pid time seq route e rendered hx hseparate =>
    rcases World.set_calls_eq_some hc' with ⟨-, rfl⟩ | ⟨-, hold⟩
    · rcases newCall_stage R quote pid time seq route e rendered with hs | ⟨error, hs⟩ <;>
        rw [hs] at hown <;> cases hown
    · exact .inl ⟨call', hold, hown⟩
  | @advance x call hx hlive =>
    rcases World.set_calls_eq_some hc' with ⟨rfl, rfl⟩ | ⟨-, hold⟩
    · rcases advance_own hown with hprior | ⟨hfree, hnext, hcreate⟩
      · exact .inl ⟨call, hx, hprior⟩
      · exact .inr ⟨rfl, hfree, hnext, hcreate⟩
    · exact .inl ⟨call', hold, hown⟩
  | write => exact .inl ⟨call', hc', hown⟩
  | @fault x call hx hlive =>
    rcases World.set_calls_eq_some hc' with ⟨rfl, rfl⟩ | ⟨-, hold⟩
    · exact .inl ⟨call, hx, fault_own hown⟩
    · exact .inl ⟨call', hold, hown⟩
  | @kill x call hx hlive =>
    rcases World.set_calls_eq_some hc' with ⟨-, rfl⟩ | ⟨-, hold⟩
    · cases hown
    · exact .inl ⟨call', hold, hown⟩
  | delete => exact .inl ⟨call', hc', hown⟩

end Ownership

section Evidence

/-- The call has seen its payload under the published name, or put it there. -/
def Stage.seen (d : Files) (payload : List UInt8) : Stage → Prop
  | .comparing i | .compareTaken _ i => d.file i = .regular payload
  | .syncFile | .syncParent | .syncTaken _ | .syncTakenParent _ | .removing _ | .syncDirectory _ =>
      True
  | .done (.ok _) => True
  | _ => False

theorem Stage.seen_of_found {payload : List UInt8} {i : ℕ} (hfound : stage.found = some i) :
    stage.seen d payload ↔ d.file i = .regular payload := by
  cases stage <;> simp_all [Stage.found, Stage.seen]

theorem Stage.seen_of_not_found {payload : List UInt8} (hfound : stage.found = none) :
    stage.seen d payload ↔ stage.seen d' payload := by
  cases stage with
  | done result => cases result <;> rfl
  | _ => simp_all [Stage.found, Stage.seen]

/-- A call that goes on with evidence had it, or has its payload under the name right now. -/
theorem advance_seen (htidy : Tidy d call)
    (h : (advance R d call).2.seen (advance R d call).1 call.payload) :
    call.stage.seen d call.payload ∨
      (advance R d call).2.live = true ∧
      (advance R d call).1.read call.file = some (.regular call.payload) := by
  unfold advance at h ⊢
  cases hstage : call.stage with
  | opening =>
    simp only [hstage] at h ⊢
    split at h
    · exact h.elim
    · rename_i i hi
      refine .inr ⟨rfl, ?_⟩
      rw [Directory.read, hi, Option.map_some]
      exact congrArg some h
  | linking own =>
    have hown : call.stage.own = some own := by rw [hstage]; rfl
    have hwritten := htidy.written own hown (by rw [hstage]; rfl)
    simp only [hstage] at h ⊢
    split at h
    · exact h.elim
    · rename_i i hi
      obtain rfl := htidy.unique own i hown hi
      split at h
      · rename_i hfree
        refine .inr ⟨rfl, ?_⟩
        simp [Directory.read, hwritten]
      · exact h.elim
  | openTaken own =>
    simp only [hstage] at h ⊢
    split at h
    · exact h.elim
    · rename_i i hi
      refine .inr ⟨rfl, ?_⟩
      rw [Directory.read, hi, Option.map_some]
      exact congrArg some h
  | done result => cases result <;> simp_all [Stage.seen]
  | _ =>
    refine .inl ?_
    simp only [hstage] at h
    (repeat' split at h) <;> simp_all [Stage.seen]

theorem fault_seen {payload : List UInt8} (h : (fault R stage).seen d payload) :
    stage.seen d payload := by
  cases stage with
  | done result => exact h
  | _ => exact h.elim

/-- A file that nobody writes keeps its bytes. -/
theorem Touch.file (h : Touch call d d') {i : ℕ} (hi : i < d.next)
    (hquiet : ∀ own, call.stage = .writing own → i ≠ own.inode) : d'.file i = d.file i := by
  cases h with
  | same => rfl
  | create => rw [Directory.create_file, if_neg (Nat.ne_of_lt hi)]
  | @write own node hstage => rw [Directory.write_file, if_neg (hquiet own hstage)]
  | link => rfl
  | unlink => rfl

theorem Stage.live_of_found {i : ℕ} (h : stage.found = some i) : stage.live = true := by
  cases stage <;> first | rfl | cases h

/-- What one call does leaves what another one saw. -/
theorem Sound.seen_frame (hsound : Sound R quote d₀ w) {x : ℕ} {actor : Call}
    (hc : w.calls c = some call) (hx : w.calls x = some actor)
    (htouch : Touch actor w.files d') {payload : List UInt8} (h : call.stage.seen d' payload) :
    call.stage.seen w.files payload := by
  cases hfound : call.stage.found with
  | none => exact (Stage.seen_of_not_found hfound).mp h
  | some i =>
    have hcallLive := Stage.live_of_found hfound
    have hfile : d'.file i = w.files.file i := by
      refine htouch.file ((hsound.tidy c call hc hcallLive).found i hfound) fun own hwriting heq =>
        ?_
      exact hsound.quiet x c actor call own hx hc hwriting hcallLive (heq ▸ hfound)
    rw [Stage.seen_of_found hfound] at h ⊢
    exact hfile.symm.trans h

def Seen (c : ℕ) (file : String) (payload : List UInt8) (w : World) : Prop :=
  ∃ call, w.calls c = some call ∧ call.file = file ∧ call.payload = payload ∧
    call.stage.seen w.files payload

/-- The payload is under the name while the call runs. -/
def Present (c : ℕ) (file : String) (payload : List UInt8) (w : World) : Prop :=
  ∃ call, w.calls c = some call ∧ call.stage.live = true ∧
    w.files.read file = some (.regular payload)

theorem Step.seen (hsound : Sound R quote d₀ w) (h : Step R quote w action w') {file : String}
    {payload : List UInt8} (hseen : Seen c file payload w') :
    Seen c file payload w ∨ Present c file payload w' := by
  obtain ⟨call', hc', rfl, rfl, hstage⟩ := hseen
  cases h with
  | @start x pid time seq route e rendered hx hseparate =>
    rcases World.set_calls_eq_some hc' with ⟨-, rfl⟩ | ⟨-, hold⟩
    · rcases newCall_stage R quote pid time seq route e rendered with hs | ⟨error, hs⟩ <;>
        rw [hs] at hstage <;> exact hstage.elim
    · exact .inl ⟨call', hold, rfl, rfl, hstage⟩
  | @advance x call hx hlive =>
    have htidy := hsound.tidy x call hx hlive
    rcases World.set_calls_eq_some hc' with ⟨rfl, rfl⟩ | ⟨-, hold⟩
    · rcases advance_seen htidy hstage with hprior | ⟨hlive', hread⟩
      · exact .inl ⟨call, hx, rfl, rfl, hprior⟩
      · exact .inr ⟨_, hc', hlive', hread⟩
    · have htouch :=
        (advance_tidy (R := R) htidy hsound.numbered (hsound.visible x call hx) hlive).1
      exact .inl ⟨call', hold, rfl, rfl, hsound.seen_frame hold hx htouch hstage⟩
  | @write x count call own hx hwriting =>
    have htouch : Touch call w.files (w.files.write own.inode
        (.regular (call.payload.take count))) :=
      .write hwriting
    exact .inl ⟨call', hc', rfl, rfl, hsound.seen_frame hc' hx htouch hstage⟩
  | @fault x call hx hlive =>
    rcases World.set_calls_eq_some hc' with ⟨rfl, rfl⟩ | ⟨-, hold⟩
    · exact .inl ⟨call, hx, rfl, rfl, fault_seen hstage⟩
    · exact .inl ⟨call', hold, rfl, rfl, hstage⟩
  | @kill x call hx hlive =>
    rcases World.set_calls_eq_some hc' with ⟨-, rfl⟩ | ⟨-, hold⟩
    · exact hstage.elim
    · exact .inl ⟨call', hold, rfl, rfl, hstage⟩
  | @delete name hname => exact .inl ⟨call', hc', rfl, rfl, by
      cases hfound : call'.stage.found with
      | none => exact (Stage.seen_of_not_found hfound).mp hstage
      | some i => exact (Stage.seen_of_found hfound).mpr ((Stage.seen_of_found hfound).mp hstage)⟩

/-- The name and the payload of a call stay. -/
theorem Step.identity (h : Step R quote w action w') {call : Call} (hc : w.calls c = some call) :
    ∃ call', w'.calls c = some call' ∧ call'.file = call.file ∧ call'.payload = call.payload := by
  have hset : ∀ x actor stage, w.calls x = some actor →
      ∃ call', (w.set x { actor with stage := stage }).calls c = some call' ∧
        call'.file = call.file ∧ call'.payload = call.payload := by
    intro x actor stage hx
    by_cases hcx : c = x
    · obtain rfl : call = actor := Option.some.inj (hc.symm.trans (hcx ▸ hx))
      exact ⟨_, (World.set_calls _ _ _ _).trans (if_pos hcx), rfl, rfl⟩
    · exact ⟨call, ((World.set_calls _ _ _ _).trans (if_neg hcx)).trans hc, rfl, rfl⟩
  cases h with
  | @start x pid time seq route e rendered hx hseparate =>
    have hcx : c ≠ x := by
      rintro rfl
      rw [hx] at hc
      cases hc
    exact ⟨call, ((World.set_calls _ _ _ _).trans (if_neg hcx)).trans hc, rfl, rfl⟩
  | advance hx => exact hset _ _ _ hx
  | write => exact ⟨call, hc, rfl, rfl⟩
  | fault hx => exact hset _ _ _ hx
  | kill hx => exact hset _ _ _ hx
  | delete => exact ⟨call, hc, rfl, rfl⟩

theorem advance_ok {name : String} (hlive : call.stage.live = true)
    (h : (advance R d call).2 = .done (.ok name)) : name = call.file := by
  unfold advance at h
  cases hstage : call.stage <;> simp only [hstage] at h <;> (repeat' split at h) <;>
    simp_all [Stage.live]

theorem fault_not_ok {name : String} (hlive : stage.live = true) :
    fault R stage ≠ .done (.ok name) := by
  cases stage <;> simp_all [fault, Stage.live]

theorem Step.ok (h : Step R quote w action w')
    (hok : ∀ call name, w.calls c = some call → call.stage = .done (.ok name) → name = call.file) :
    ∀ call name, w'.calls c = some call → call.stage = .done (.ok name) → name = call.file := by
  intro call' name hc' hdone
  cases h with
  | @start x pid time seq route e rendered hx hseparate =>
    rcases World.set_calls_eq_some hc' with ⟨-, rfl⟩ | ⟨-, hold⟩
    · rcases newCall_stage R quote pid time seq route e rendered with hs | ⟨error, hs⟩ <;>
        rw [hs] at hdone <;> cases hdone
    · exact hok call' name hold hdone
  | @advance x call hx hlive =>
    rcases World.set_calls_eq_some hc' with ⟨-, rfl⟩ | ⟨-, hold⟩
    · have hname : name = call.file := advance_ok hlive hdone
      exact hname
    · exact hok call' name hold hdone
  | write => exact hok call' name hc' hdone
  | @fault x call hx hlive =>
    rcases World.set_calls_eq_some hc' with ⟨-, rfl⟩ | ⟨-, hold⟩
    · exact absurd hdone (fault_not_ok hlive)
    · exact hok call' name hold hdone
  | @kill x call hx hlive =>
    rcases World.set_calls_eq_some hc' with ⟨-, rfl⟩ | ⟨-, hold⟩
    · cases hdone
    · exact hok call' name hold hdone
  | delete => exact hok call' name hc' hdone

end Evidence

section Solo

/-- A call that runs alone takes one operation after another. -/
inductive Solo (R : Publisher) (call : Call) : Files → Stage → Files → Stage → Prop
  | refl {d : Files} {stage : Stage} : Solo R call d stage d stage
  | head {d d₁ d' : Files} {stage stage₁ stage' : Stage} : stage.live = true →
      advance R d { call with stage := stage } = (d₁, stage₁) → Solo R call d₁ stage₁ d' stage' →
      Solo R call d stage d' stage'

/-- The world in which one call has come this far. -/
def World.at (w : World) (c : ℕ) (call : Call) (d : Files) (stage : Stage) : World :=
  { (w.set c { call with stage := stage }) with files := d }

theorem Solo.run {stage' : Stage} (h : Solo R call d stage d' stage') :
    ∃ labels, (∀ action ∈ labels, action = .advance c) ∧
      (machine R quote).Run (w.at c call d stage) labels (w.at c call d' stage') := by
  induction h with
  | refl => exact ⟨[], by simp, .nil⟩
  | @head d d₁ d' stage stage₁ stage' hlive hadvance hsolo ih =>
    obtain ⟨labels, hlabels, hrun⟩ := ih
    refine ⟨.advance c :: labels, by simpa using hlabels, ?_⟩
    have hc : (w.at c call d stage).calls c = some { call with stage := stage } :=
      (World.set_calls _ _ _ _).trans (if_pos rfl)
    have hstep : Step R quote (w.at c call d stage) (.advance c) (w.at c call d₁ stage₁) := by
      have hnext : Step R quote (w.at c call d stage) (.advance c) _ := .advance hc hlive
      have hworld : ({ ((w.at c call d stage).set c { call with stage := stage₁ }) with
          files := d₁ } : World) = w.at c call d₁ stage₁ := by
        simp only [World.at, World.set, Function.update_idem]
      rw [← hworld]
      have hfiles : (w.at c call d stage).files = d := rfl
      rw [hfiles, hadvance] at hnext
      exact hnext
    exact Machine.Run.append (Machine.Run.single hstep) hrun

theorem Solo.trans {d₁ d₂ : Files} {stage₁ stage₂ : Stage} (h : Solo R call d stage d₁ stage₁)
    (h' : Solo R call d₁ stage₁ d₂ stage₂) : Solo R call d stage d₂ stage₂ := by
  induction h with
  | refl => exact h'
  | head hlive hadvance _ ih => exact .head hlive hadvance (ih h')

section Staging
variable {j : ℕ}

theorem advance_staging_free (h : d.entry (call.candidate j) = none) :
    advance R d { call with stage := .staging j } =
      (d.create (call.candidate j) (.regular []), .writing ⟨call.candidate j, d.next⟩) := by
  have hcandidate : Call.candidate { call with stage := .staging j } j = call.candidate j := rfl
  simp only [advance, hcandidate, h]

theorem advance_staging_taken {i : ℕ} (h : d.entry (call.candidate j) = some i)
    (hmore : j + 1 < stagingCreateAttempts) :
    advance R d { call with stage := .staging j } = (d, .staging (j + 1)) := by
  have hcandidate : Call.candidate { call with stage := .staging j } j = call.candidate j := rfl
  simp only [advance, hcandidate, h, if_pos hmore]

theorem advance_staging_last {i : ℕ} (h : d.entry (call.candidate j) = some i)
    (hlast : ¬ j + 1 < stagingCreateAttempts) :
    advance R d { call with stage := .staging j } =
      (d, .done (.error (.runtimeUnavailable R.unavailable))) := by
  have hcandidate : Call.candidate { call with stage := .staging j } j = call.candidate j := rfl
  simp only [advance, hcandidate, h, if_neg hlast]

end Staging

/-- The search for a free staging name ends, with a file or after all candidates failed. -/
theorem staging_solo (R : Publisher) (call : Call) (d : Files) (m : ℕ) :
    ∀ j, j + m + 1 = stagingCreateAttempts →
      (∃ k < stagingCreateAttempts, d.entry (call.candidate k) = none ∧
        Solo R call d (.staging j) (d.create (call.candidate k) (.regular []))
          (.writing ⟨call.candidate k, d.next⟩)) ∨
      (∀ k, j ≤ k → k < stagingCreateAttempts → (d.entry (call.candidate k)).isSome) ∧
        Solo R call d (.staging j) d (.done (.error (.runtimeUnavailable R.unavailable))) := by
  induction m with
  | zero =>
    intro j hj
    cases hentry : d.entry (call.candidate j) with
    | none =>
      refine .inl ⟨j, by omega, hentry, .head rfl ?_ .refl⟩
      exact advance_staging_free hentry
    | some i =>
      refine .inr ⟨fun k hjk hk => ?_, .head rfl ?_ .refl⟩
      · obtain rfl : k = j := by omega
        rw [hentry]
        rfl
      · exact advance_staging_last hentry (by omega)
  | succ m ih =>
    intro j hj
    cases hentry : d.entry (call.candidate j) with
    | none =>
      refine .inl ⟨j, by omega, hentry, .head rfl ?_ .refl⟩
      exact advance_staging_free hentry
    | some i =>
      have hmore := advance_staging_taken (R := R) hentry (by omega)
      rcases ih (j + 1) (by omega) with ⟨k, hk, hfree, hsolo⟩ | ⟨htaken, hsolo⟩
      · exact .inl ⟨k, hk, hfree, .head rfl hmore hsolo⟩
      · refine .inr ⟨fun k hjk hk => ?_, .head rfl hmore hsolo⟩
        by_cases hkj : k = j
        · rw [hkj, hentry]
          rfl
        · exact htaken k (by omega) hk

/-- A staged payload is published where the name is free. -/
theorem publish_solo {k : ℕ} (hpublic : isStaging call.file = false)
    (hfree : d.entry call.file = none) :
    ∃ d', Solo R call (d.create (call.candidate k) (.regular []))
    (.writing ⟨call.candidate k, d.next⟩) d'
        (.done (.ok call.file)) ∧ d'.read call.file = some (.regular call.payload) := by
  have hname : call.file ≠ call.candidate k := by
    intro heq
    rw [heq, candidate_isStaging] at hpublic
    cases hpublic
  let own : Staged := ⟨call.candidate k, d.next⟩
  let written := (d.create (call.candidate k) (.regular [])).write d.next (.regular call.payload)
  let linked := written.link d.next call.file
  have hown : written.entry own.name = some d.next := by simp [written, own]
  have hfile : written.entry call.file = none := by simp [written, hname, hfree]
  have hlinked : linked.entry own.name = some d.next := by
    simp [linked, written, own, hname.symm]
  have hwrite : advance R (d.create (call.candidate k) (.regular []))
    { call with stage := .writing own } =
      (written, .syncing own) := rfl
  have hsync : advance R written { call with stage := .syncing own } =
    (written, .linking own) := rfl
  have hlink : advance R written { call with stage := .linking own } = (linked, .removing own) := by
    simp only [advance, hown, hfile, linked]
  have hremove : advance R linked { call with stage := .removing own } =
      (linked.unlink own.name, .syncDirectory own) := by
    simp only [advance, hlinked]
  refine ⟨linked.unlink own.name, ?_, ?_⟩
  · exact .head rfl hwrite
      (.head rfl hsync (.head rfl hlink (.head rfl hremove (.head rfl rfl .refl))))
  · simp [Directory.read, linked, written, own, hname]

/-- What a call that runs alone comes to. -/
theorem look_solo (hpublic : isStaging call.file = false)
    (hbytes : call.payload.length ≤ R.maxBytes) :
    ∃ d' result, Solo R call d .look d' (.done result) ∧
      (result = .ok call.file ∧ d'.read call.file = some (.regular call.payload) ∨
        result = .error .runtimeRejected ∧ d' = d ∧
          (∃ node, d.read call.file = some node ∧ node ≠ .regular call.payload) ∨
        result = .error (.runtimeUnavailable R.unavailable) ∧ d' = d ∧ d.read call.file = none ∧
          ∀ k < stagingCreateAttempts, (d.entry (call.candidate k)).isSome) := by
  cases hentry : d.entry call.file with
  | none =>
    have hread : d.read call.file = none := by simp [Directory.read, hentry]
    have hlook : advance R d { call with stage := .look } = (d, .staging 0) := by
      simp [advance, hread]
    rcases staging_solo R call d 127 0 rfl with ⟨k, hk, hfree, hsolo⟩ | ⟨htaken, hsolo⟩
    · obtain ⟨d', hpublish, hread⟩ := publish_solo (R := R) (k := k) hpublic hentry
      exact ⟨d', .ok call.file, .head rfl hlook (hsolo.trans hpublish), .inl ⟨rfl, hread⟩⟩
    · exact ⟨d, _, .head rfl hlook hsolo,
        .inr (.inr ⟨rfl, rfl, hread, fun k hk => htaken k (Nat.zero_le _) hk⟩)⟩
  | some i =>
    have hread : d.read call.file = some (d.file i) := by simp [Directory.read, hentry]
    have hopen : advance R d { call with stage := .opening } = (d, .comparing i) := by
      simp [advance, hentry]
    cases hnode : d.file i with
    | irregular =>
      rw [hnode] at hread
      have hlook : advance R d { call with stage := .look } =
          (d, .done (.error .runtimeRejected)) := by simp [advance, hread]
      exact ⟨d, _, .head rfl hlook .refl, .inr (.inl ⟨rfl, rfl, _, hread, by simp⟩)⟩
    | regular bytes =>
      rw [hnode] at hread
      by_cases hlong : R.maxBytes < bytes.length
      · have hlook : advance R d { call with stage := .look } =
            (d, .done (.error .runtimeRejected)) := by simp [advance, hread, hlong]
        refine ⟨d, _, .head rfl hlook .refl, .inr (.inl ⟨rfl, rfl, _, hread, fun hsame => ?_⟩)⟩
        rw [Node.regular.inj hsame] at hlong
        exact absurd hlong (Nat.not_lt.mpr hbytes)
      · have hlook : advance R d { call with stage := .look } = (d, .opening) := by
          simp [advance, hread, hlong]
        by_cases hsame : bytes = call.payload
        · subst hsame
          have hcompare : advance R d { call with stage := .comparing i } = (d, .syncFile) := by
            simp [advance, hnode]
          have hsync : advance R d { call with stage := .syncFile } = (d, .syncParent) := by
            simp [advance, hentry]
          refine ⟨d, .ok call.file, ?_, .inl ⟨rfl, hread⟩⟩
          exact .head rfl hlook (.head rfl hopen (.head rfl hcompare
            (.head rfl hsync (.head rfl rfl .refl))))
        · have hcompare : advance R d { call with stage := .comparing i } =
              (d, .done (.error .runtimeRejected)) := by simp [advance, hnode, hsame]
          refine ⟨d, _, ?_,
            .inr (.inl ⟨rfl, rfl, _, hread, fun heq => hsame (Node.regular.inj heq)⟩)⟩
          exact .head rfl hlook (.head rfl hopen (.head rfl hcompare .refl))

end Solo

/-- What publication promises, over all runs from any directory. -/
structure Durable (R : Publisher) (quote : String → String) : Prop where
  /-- A published name is absent, has all bytes of the payload of one call, or is the file that was
  there before the first call. -/
  whole : ∀ w₀ labels w n, (machine R quote).start w₀ → (machine R quote).Run w₀ labels w →
    isStaging n = false →
    w.files.read n = none ∨
      (∃ c call, w.calls c = some call ∧ call.file = n ∧
        w.files.read n = some (.regular call.payload) ∧ Prepared R quote n call.payload) ∨
      ∃ i, w₀.files.entry n = some i ∧ w.files.entry n = some i ∧ w.files.file i = w₀.files.file i
  /-- Only a reader's removal ends what a name holds. -/
  kept : ∀ w labels w' n node, (machine R quote).Reachable w → (machine R quote).Run w labels w' →
    .delete n ∉ labels → isStaging n = false → w.files.read n = some node →
    w'.files.read n = some node
  /-- `Ok`: the payload was under the item's name while the call ran. -/
  present : ∀ w c pid time seq route e rendered w₁ labels w' call name,
    (machine R quote).Reachable w →
    (machine R quote).step w (.start c pid time seq route e rendered) w₁ →
    (machine R quote).Run w₁ labels w' → w'.calls c = some call → call.stage = .done (.ok name) →
    name = R.fileName e.inboxItemId ∧ ∃ before after u, labels = before ++ after ∧
      (machine R quote).Run w₁ before u ∧ (machine R quote).Run u after w' ∧
      Present c name (R.encode route.runtimeTarget e rendered) u
  /-- A call removes and changes only what it created itself. -/
  own : ∀ w₀ labels w action w' c n i, (machine R quote).start w₀ →
    (machine R quote).Run w₀ labels w → (machine R quote).step w action w' →
    action.caller = some c → w.files.entry n = some i →
    w'.files.entry n = some i ∧ w'.files.file i = w.files.file i ∨
      ∃ before after u v, labels = before ++ .advance c :: after ∧
      (machine R quote).Run w₀ before u ∧
        Created c ⟨n, i⟩ u (.advance c) v ∧ (machine R quote).Run v after w
  /-- A call that runs alone publishes, replays, or finds something else under the name; or all its
  staging names are taken, and nothing is published. -/
  retry : ∀ w c pid time seq route e rendered file payload w₁, (machine R quote).Reachable w →
    prepare R quote route e rendered = .ok (file, payload) →
    (machine R quote).step w (.start c pid time seq route e rendered) w₁ →
    ∃ labels w' call result, (∀ action ∈ labels, action = .advance c) ∧
      (machine R quote).Run w₁ labels w' ∧ w'.calls c = some call ∧ call.stage = .done result ∧
      (result = .ok file ∧ w'.files.read file = some (.regular payload) ∨
        result = .error .runtimeRejected ∧ w'.files = w.files ∧
          (∃ node, w.files.read file = some node ∧ node ≠ .regular payload) ∨
        result = .error (.runtimeUnavailable R.unavailable) ∧ w'.files = w.files ∧
          w.files.read file = none ∧ ∀ k < stagingCreateAttempts,
            (w.files.entry (stagingName file pid time ((seq + k) % 2 ^ 64))).isSome)

/-- The name of a call stays, and `Ok` names the published file. -/
theorem ok_file {labels : List Action} (h : (machine R quote).Reachable w)
    (hrun : (machine R quote).Run w labels w') {call : Call} (hc : w.calls c = some call)
    (hok : ∀ name, call.stage ≠ .done (.ok name)) :
    ∃ call', w'.calls c = some call' ∧ call'.file = call.file ∧ call'.payload = call.payload ∧
      ∀ name, call'.stage = .done (.ok name) → name = call.file := by
  refine Machine.Later.stable (I := fun v => ∃ call', v.calls c = some call' ∧
    call'.file = call.file ∧ call'.payload = call.payload ∧
      ∀ name, call'.stage = .done (.ok name) → name = call.file) ?_ h ⟨labels, hrun⟩
    ⟨call, hc, rfl, rfl, fun name hdone => absurd hdone (hok name)⟩
  rintro s action t hs ⟨call', hc', hfile, hpayload, hname⟩ hstep
  obtain ⟨call'', hc'', hfile'', hpayload''⟩ := Step.identity hstep hc'
  refine ⟨call'', hc'', hfile''.trans hfile, hpayload''.trans hpayload, fun name hdone => ?_⟩
  rw [← hfile, ← hfile'']
  refine Step.ok hstep (fun k name hk hdone => ?_) call'' name hc'' hdone
  obtain rfl := Option.some.inj (hc'.symm.trans hk)
  exact (hname name hdone).trans hfile.symm

/-- A call that is over stays as it is. -/
theorem done_stays {labels : List Action} (h : (machine R quote).Reachable w)
    (hrun : (machine R quote).Run w labels w') {call : Call} (hc : w.calls c = some call)
    {result : Except RuntimeError String} (hdone : call.stage = .done result) :
    ∃ call', w'.calls c = some call' ∧ call'.stage = .done result := by
  refine Machine.Later.stable (I := fun v => ∃ call', v.calls c = some call' ∧
    call'.stage = .done result) ?_ h ⟨labels, hrun⟩ ⟨call, hc, hdone⟩
  rintro s action t - ⟨call', hc', hdone'⟩ hstep
  have hother : ∀ x k, s.calls x = some k → k.stage.live = true → c ≠ x := by
    rintro x k hx hlive rfl
    obtain rfl := Option.some.inj (hc'.symm.trans hx)
    rw [hdone'] at hlive
    cases hlive
  have hkept : ∀ x k, c ≠ x → (s.set x k).calls c = some call' := fun x k hne =>
    ((World.set_calls _ _ _ _).trans (if_neg hne)).trans hc'
  cases hstep with
  | start hx =>
    refine ⟨call', hkept _ _ ?_, hdone'⟩
    rintro rfl
    rw [hx] at hc'
    cases hc'
  | advance hx hlive => exact ⟨call', hkept _ _ (hother _ _ hx hlive), hdone'⟩
  | write => exact ⟨call', hc', hdone'⟩
  | fault hx hlive => exact ⟨call', hkept _ _ (hother _ _ hx hlive), hdone'⟩
  | kill hx hlive => exact ⟨call', hkept _ _ (hother _ _ hx hlive), hdone'⟩
  | delete => exact ⟨call', hc', hdone'⟩

section Durability
variable {R : Publisher} (hR : ∀ id, isStaging (R.fileName id) = false)
include hR

theorem published_whole {w₀ : World} {labels : List Action} {n : String}
    (hstart : (machine R quote).start w₀) (hrun : (machine R quote).Run w₀ labels w)
    (hn : isStaging n = false) :
    w.files.read n = none ∨
      (∃ c call, w.calls c = some call ∧ call.file = n ∧
        w.files.read n = some (.regular call.payload) ∧ Prepared R quote n call.payload) ∨
      ∃ i, w₀.files.entry n = some i ∧ w.files.entry n = some i ∧
        w.files.file i = w₀.files.file i := by
  cases hentry : w.files.entry n with
  | none => exact .inl (by rw [Directory.read, hentry, Option.map_none])
  | some i =>
    rcases (run_sound hR hstart hrun).published n i hn hentry with
      ⟨hfirst, hfile⟩ | ⟨c, call, hc, hname, hfile, hprepared⟩
    · exact .inr (.inr ⟨i, hfirst, rfl, hfile⟩)
    · refine .inr (.inl ⟨c, call, hc, hname, ?_, hprepared⟩)
      rw [Directory.read, hentry, Option.map_some, hfile]

theorem published_kept {labels : List Action} {n : String} {node : Node}
    (h : (machine R quote).Reachable w) (hrun : (machine R quote).Run w labels w')
    (hlabels : .delete n ∉ labels) (hn : isStaging n = false)
    (hread : w.files.read n = some node) : w'.files.read n = some node := by
  refine hrun.stable (Q := fun action : Action => action ≠ .delete n)
    (I := fun v => v.files.read n = some node) ?_ h ?_ hread
  · intro s action t hs haction hread' hstep
    obtain ⟨d₀, hsound⟩ := reachable_sound hR hs
    exact hsound.read_kept hstep hn haction hread'
  · rintro action hmem rfl
    exact hlabels hmem

theorem ok_present {pid time seq : ℕ} {route : Route} {e : Envelope} {rendered name : String}
    {w₁ : World} {labels : List Action} (h : (machine R quote).Reachable w)
    (hstart : (machine R quote).step w (.start c pid time seq route e rendered) w₁)
    (hrun : (machine R quote).Run w₁ labels w') {call : Call} (hc : w'.calls c = some call)
    (hdone : call.stage = .done (.ok name)) :
    name = R.fileName e.inboxItemId ∧ ∃ before after u, labels = before ++ after ∧
      (machine R quote).Run w₁ before u ∧ (machine R quote).Run u after w' ∧
      Present c name (R.encode route.runtimeTarget e rendered) u := by
  have h₁ := h.tail hstart
  cases hstart with
  | start hfree hseparate =>
    have hnew : (w.set c (newCall R quote pid time seq route e rendered)).calls c =
        some (newCall R quote pid time seq route e rendered) :=
      (World.set_calls _ _ _ _).trans (if_pos rfl)
    -- A call whose checks failed is over before it begins.
    cases hprepare : prepare R quote route e rendered with
    | error error =>
      have hover : newCall R quote pid time seq route e rendered =
          ⟨R.fileName e.inboxItemId, [], pid, time, seq, .done (.error error)⟩ := by
        simp only [newCall, hprepare]
      obtain ⟨call', hc', hstage⟩ := done_stays h₁ hrun hnew (by rw [hover])
      obtain rfl := Option.some.inj (hc.symm.trans hc')
      rw [hdone] at hstage
      cases hstage
    | ok prepared =>
      obtain rfl := prepare_eq_ok hprepare
      have hcall : newCall R quote pid time seq route e rendered =
          ⟨R.fileName e.inboxItemId, R.encode route.runtimeTarget e rendered, pid, time, seq,
            .look⟩ := by
        simp only [newCall, hprepare]
      replace hnew := hnew.trans (congrArg some hcall)
      obtain ⟨call', hc', hfile, hpayload, hname⟩ :=
        ok_file h₁ hrun hnew (fun name hdone => by cases hdone)
      obtain rfl := Option.some.inj (hc.symm.trans hc')
      obtain rfl := hname name hdone
      refine ⟨rfl, ?_⟩
      have hseen : Seen c (R.fileName e.inboxItemId) (R.encode route.runtimeTarget e rendered) w' :=
        ⟨call, hc, hfile, hpayload, by rw [hdone]; trivial⟩
      rcases hrun.origin
        (E := Seen c (R.fileName e.inboxItemId) (R.encode route.runtimeTarget e rendered))
          (Q := fun _ _ v =>
            Present c (R.fileName e.inboxItemId) (R.encode route.runtimeTarget e rendered) v)
          (fun s i t hs hstep ht => Step.seen (reachable_sound hR hs).choose_spec hstep ht) h₁
          hseen with
        hfirst | ⟨before, after, u, i, v, rfl, hbefore, hstep, hpresent, hafter⟩
      · obtain ⟨call₁, hc₁, -, -, hstage⟩ := hfirst
        obtain rfl := Option.some.inj (hc₁.symm.trans hnew)
        exact hstage.elim
      · exact ⟨before ++ [i], after, v, by simp, hbefore.snoc hstep, hafter, hpresent⟩

theorem owns_what_it_changes {w₀ : World} {labels : List Action} {n : String} {i : ℕ}
    (hstart : (machine R quote).start w₀) (hrun : (machine R quote).Run w₀ labels w)
    (hstep : (machine R quote).step w action w') (hcaller : action.caller = some c)
    (hi : w.files.entry n = some i) :
    w'.files.entry n = some i ∧ w'.files.file i = w.files.file i ∨
      ∃ before after u v, labels = before ++ .advance c :: after ∧
      (machine R quote).Run w₀ before u ∧
        Created c ⟨n, i⟩ u (.advance c) v ∧ (machine R quote).Run v after w := by
  have h₀ := Machine.Reachable.of_start hstart
  have hsound := run_sound hR hstart hrun
  rcases Step.files hsound hstep with hsame | ⟨m, rfl, -, -⟩ | ⟨x, call, hx, hc, hlive, htouch⟩
  · rw [hsame]
    exact .inl ⟨hi, rfl⟩
  · cases hcaller
  · obtain rfl : x = c := Option.some.inj (hx.symm.trans hcaller)
    rcases htouch.own (hsound.tidy x call hc hlive) hsound.numbered hi with
      hkept | ⟨own, hown, rfl, rfl⟩
    · exact .inl hkept
    · refine .inr ?_
      rcases hrun.origin (E := fun v => ∃ call, v.calls x = some call ∧ call.stage.own = some own)
          (Q := fun u a v => Created x own u a v)
          (fun s a t _ hstep ⟨call', hc', hown'⟩ => Step.owned hstep hc' hown') h₀
          ⟨call, hc, hown⟩ with
        ⟨call₀, hc₀, -⟩ | ⟨before, after, u, a, v, rfl, hbefore, -, hcreated, hafter⟩
      · rw [hstart.2 x] at hc₀
        cases hc₀
      · obtain rfl := hcreated.1
        exact ⟨before, after, u, v, rfl, hbefore, hcreated, hafter⟩

theorem retry_alone {pid time seq : ℕ} {route : Route} {e : Envelope} {rendered file : String}
    {payload : List UInt8} {w₁ : World}
    (hprepare : prepare R quote route e rendered = .ok (file, payload))
    (hstart : (machine R quote).step w (.start c pid time seq route e rendered) w₁) :
    ∃ labels w' call result, (∀ action ∈ labels, action = .advance c) ∧
      (machine R quote).Run w₁ labels w' ∧ w'.calls c = some call ∧ call.stage = .done result ∧
      (result = .ok file ∧ w'.files.read file = some (.regular payload) ∨
        result = .error .runtimeRejected ∧ w'.files = w.files ∧
          (∃ node, w.files.read file = some node ∧ node ≠ .regular payload) ∨
        result = .error (.runtimeUnavailable R.unavailable) ∧ w'.files = w.files ∧
          w.files.read file = none ∧ ∀ k < stagingCreateAttempts,
            (w.files.entry (stagingName file pid time ((seq + k) % 2 ^ 64))).isSome) := by
  cases hstart with
  | start hfree hseparate =>
    have hcall : newCall R quote pid time seq route e rendered =
        ⟨file, payload, pid, time, seq, .look⟩ := by
      simp only [newCall, hprepare]
    have hfile : file = R.fileName e.inboxItemId := congrArg Prod.fst (prepare_eq_ok hprepare)
    have hlook : ∃ d' result, Solo R ⟨file, payload, pid, time, seq, .look⟩ w.files .look d'
        (.done result) ∧ _ := look_solo (by rw [hfile]; exact hR _) (prepare_length hprepare)
    obtain ⟨d', result, hsolo, hresult⟩ := hlook
    have hrun : ∃ labels, (∀ action ∈ labels, action = .advance c) ∧ (machine R quote).Run
        (w.at c _ w.files .look) labels (w.at c _ d' (.done result)) := hsolo.run
    obtain ⟨labels, hlabels, hrun⟩ := hrun
    rw [hcall]
    exact ⟨labels, _, _, result, hlabels, hrun, (World.set_calls _ _ _ _).trans (if_pos rfl), rfl,
      hresult⟩

end Durability

/-- The two runtimes of the repository, each with its JSON encoding. -/
inductive Kind where
  | file (json : SpoolEnvelope → List UInt8)
  | muse (json : DropPayload → List UInt8)

def Kind.publisher (P : Platform) : Kind → Publisher
  | .file json => fileRuntime P json
  | .muse json => museRuntime P json

theorem publication_durable (P : Platform) (kind : Kind) (quote : String → String) :
    Durable (kind.publisher P) quote := by
  have hR : ∀ id, isStaging ((kind.publisher P).fileName id) = false := by
    cases kind with
    | file json => exact isStaging_fileRuntime json
    | muse json => exact isStaging_museRuntime json
  exact {
    whole := fun _ _ _ _ => published_whole hR
    kept := fun _ _ _ _ _ => published_kept hR
    present := fun _ _ _ _ _ _ _ _ _ _ _ _ _ h hstart hrun hc => ok_present hR h hstart hrun hc
    own := fun _ _ _ _ _ _ _ _ => owns_what_it_changes hR
    retry := fun _ _ _ _ _ _ _ _ _ _ _ _ => retry_alone hR }

section Exhausted

/-- A directory that another program filled with the staging names of a call. -/
def occupied (file : String) (pid time : ℕ) : Files where
  entry n := ((List.range stagingCreateAttempts).map fun k => stagingName file pid time k).idxOf? n
  file _ := .regular []
  next := stagingCreateAttempts

theorem occupied_numbered (file : String) (pid time : ℕ) : (occupied file pid time).Numbered := by
  intro n i hi
  obtain ⟨hlt, -⟩ := List.idxOf?_eq_some_iff.mp hi
  simpa [occupied] using hlt

theorem occupied_taken (file : String) (pid time : ℕ) {k : ℕ} (hk : k < stagingCreateAttempts) :
    ((occupied file pid time).entry (stagingName file pid time k)).isSome := by
  refine List.isSome_idxOf?.mpr (List.mem_map.mpr ⟨k, List.mem_range.mpr hk, rfl⟩)

theorem occupied_published {file name : String} {pid time : ℕ} (hname : isStaging name = false) :
    (occupied file pid time).entry name = none := by
  refine List.idxOf?_eq_none_iff.mpr fun hmem => ?_
  obtain ⟨k, -, rfl⟩ := List.mem_map.mp hmem
  rw [isStaging_stagingName] at hname
  cases hname

/-- A call whose staging names are all taken ends without an operation that fails. -/
theorem exhausted_run (hfree : w.files.read call.file = none)
    (htaken : ∀ k < stagingCreateAttempts, (w.files.entry (call.candidate k)).isSome)
    (hlook : call.stage = .look) :
    ∃ labels w' call', (∀ action ∈ labels, action = .advance c) ∧
      (machine R quote).Run (w.set c call) labels w' ∧ w'.calls c = some call' ∧
      call'.stage = .done (.error (.runtimeUnavailable R.unavailable)) ∧ w'.files = w.files := by
  have hfirst : w.at c call w.files .look = w.set c call := by
    rw [World.at, ← hlook]
    rfl
  have hadvance : advance R w.files { call with stage := .look } = (w.files, .staging 0) := by
    simp [advance, hfree]
  have hsolo : Solo R call w.files .look w.files
      (.done (.error (.runtimeUnavailable R.unavailable))) := by
    refine .head rfl hadvance ?_
    rcases staging_solo R call w.files 127 0 rfl with ⟨k, hk, hnone, -⟩ | ⟨-, hsolo⟩
    · have hsome := htaken k hk
      rw [hnone] at hsome
      cases hsome
    · exact hsolo
  obtain ⟨labels, hlabels, hrun⟩ : ∃ labels, (∀ action ∈ labels, action = .advance c) ∧
      (machine R quote).Run (w.at c call w.files .look) labels _ := hsolo.run
  rw [hfirst] at hrun
  exact ⟨labels, _, _, hlabels, hrun, (World.set_calls _ _ _ _).trans (if_pos rfl), rfl, rfl⟩

/-- From a directory with its staging names a call that runs alone publishes nothing. -/
theorem occupied_run {route : Route} {e : Envelope} {rendered file : String} {payload : List UInt8}
    (hpublic : isStaging file = false)
    (hprepare : prepare R quote route e rendered = .ok (file, payload)) :
    ∃ w₀ w₁ w call, ∃ labels : List Action, (machine R quote).start w₀ ∧
      w₀.files.read file = none ∧
      (machine R quote).step w₀ (.start 0 1 2 0 route e rendered) w₁ ∧
      (∀ action ∈ labels, action = .advance 0) ∧ (machine R quote).Run w₁ labels w ∧
      w.calls 0 = some call ∧ call.stage = .done (.error (.runtimeUnavailable R.unavailable)) ∧
      w.files.read file = none := by
  let w₀ : World := ⟨occupied file 1 2, fun _ => none⟩
  have hfree : w₀.files.read file = none := by
    rw [Directory.read, occupied_published hpublic, Option.map_none]
  have hnew : newCall R quote 1 2 0 route e rendered = ⟨file, payload, 1, 2, 0, .look⟩ := by
    simp only [newCall, hprepare]
  have htaken : ∀ k < stagingCreateAttempts, (w₀.files.entry
      (Call.candidate ⟨file, payload, 1, 2, 0, .look⟩ k)).isSome := by
    intro k hk
    rw [Call.candidate, Nat.zero_add, Nat.mod_eq_of_lt (hk.trans (by decide))]
    exact occupied_taken file 1 2 hk
  obtain ⟨labels, w, call, hlabels, hrun, hcall, hdone, hfiles⟩ :=
    exhausted_run (R := R) (c := 0) hfree htaken rfl
  have hstart : Step R quote w₀ (.start 0 1 2 0 route e rendered) _ :=
    .start rfl fun _ _ hnone => by cases hnone
  rw [hnew] at hstart
  exact ⟨w₀, _, w, call, labels, ⟨occupied_numbered _ _ _, fun _ => rfl⟩, hfree, hstart, hlabels,
    hrun,
    hcall, hdone, hfiles ▸ hfree⟩

/-- No operation fails, no other call and no reader runs, the name is free, and the call publishes
nothing. -/
theorem publication_exhausted :
    ∃ w₀ w₁ w call, ∃ labels : List Action,
      let R := fileRuntime samplePlatform spoolJson
      let e := forgedEnvelope
      (∃ payload, prepare R jsonText sampleRoute e (e.render jsonText) =
        .ok (R.fileName "item", payload)) ∧
      (machine R jsonText).start w₀ ∧ w₀.files.read (R.fileName "item") = none ∧
      (machine R jsonText).step w₀ (.start 0 1 2 0 sampleRoute e (e.render jsonText)) w₁ ∧
      (∀ action ∈ labels, action = .advance 0) ∧ (machine R jsonText).Run w₁ labels w ∧
      w.calls 0 = some call ∧ call.stage = .done (.error (.runtimeUnavailable R.unavailable)) ∧
      w.files.read (R.fileName "item") = none := by
  have haccepts : Accepts (fileRuntime samplePlatform spoolJson) sampleRoute forgedEnvelope :=
    accepts_fileRuntime samplePlatform_sha256 deliverable_forgedEnvelope rfl
      validateLabel_sampleRoute
  obtain ⟨w₀, w₁, w, call, labels, hrun⟩ :=
    occupied_run (isStaging_fileRuntime _ _) haccepts.prepared
  exact ⟨w₀, w₁, w, call, labels, ⟨_, haccepts.prepared⟩, hrun⟩

end Exhausted

end AgentJournal.Runtime
