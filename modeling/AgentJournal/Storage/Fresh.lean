import AgentJournal.Foundation.Machine
import Mathlib.Data.Nat.Notation
import Mathlib.Logic.Function.Basic

/-! # Racing for a fresh database

Processes open one path. The one that creates the marker may create the database; the others wait
for the marker to go, or take the file as it is when there is none.
-/

namespace AgentJournal.Storage.Fresh
open Foundation

/-- Where a process leaves the block of the marker for. -/
inductive Outcome where
  | ok
  | failed
  | retry
deriving DecidableEq, Repr

/-- Where a process is in `Database::open`. -/
inductive Pc where
  | idle
  | probing
  | seen
  | waiting (polls : ℕ)
  | acquiring
  | holding
  | rechecked
  | clear
  | connected
  | applied
  | verified
  | closed
  | leaving (outcome : Outcome)
  | opening
  | checked
  | done
  | failed
  | dead
deriving DecidableEq, Repr

def Outcome.pc : Outcome → Pc
  | .ok => .done
  | .failed => .failed
  | .retry => .probing

/-- A database file, who created it and who committed the baseline in it. -/
structure Db where
  creator : ℕ
  appliedBy : List ℕ
deriving DecidableEq, Repr

/-- The marker is known by the process that created it. -/
structure World where
  marker : Option ℕ
  file : Option Db
  pc : ℕ → Pc

/-- `misread` is a probe that fails and is taken for an absence; `stall` is one that is taken for a
presence. -/
inductive Action where
  | start
  | probe
  | misread
  | stall
  | acquire
  | sidecars
  | connect
  | apply
  | verify
  | close
  | admission
  | release
  | fail
  | die
deriving DecidableEq, Repr

def World.goto (w : World) (i : ℕ) (p : Pc) : World := { w with pc := Function.update w.pc i p }

/-- One step of one process. -/
def World.step (w : World) (i : ℕ) : Action → Option World
  | .start => if w.pc i = .idle then some (w.goto i .probing) else none
  | .probe =>
    match w.pc i with
    | .probing => some (w.goto i (if w.file.isSome then .seen else .acquiring))
    | .seen => some (w.goto i (if w.marker.isSome then .waiting 0 else .opening))
    | .waiting polls =>
      some (w.goto i
        (if polls ≥ 100 then .failed else if w.marker.isNone then .probing else .waiting
          (polls + 1)))
    | .holding => some (w.goto i (if w.file.isSome then .leaving .retry else .rechecked))
    | _ => none
  | .misread =>
    match w.pc i with
    | .probing => some (w.goto i .acquiring)
    | .seen => some (w.goto i .opening)
    | .holding => some (w.goto i .rechecked)
    | _ => none
  | .stall =>
    match w.pc i with
    | .waiting polls => some (w.goto i (if polls ≥ 100 then .failed else .waiting (polls + 1)))
    | _ => none
  | .acquire =>
    if w.pc i = .acquiring then
      if w.marker = none then some { w.goto i .holding with marker := some i }
      else some (w.goto i (.waiting 0))
    else none
  | .sidecars => if w.pc i = .rechecked then some (w.goto i .clear) else none
  | .connect =>
    if w.pc i = .clear then some { w.goto i .connected with file := w.file.or (some ⟨i, []⟩) }
    else none
  -- the transaction fails where the tables are there already
  | .apply =>
    match w.pc i, w.file with
    | .connected, some ⟨creator, []⟩ => some { w.goto i .applied with file := some ⟨creator, [i]⟩ }
    | _, _ => none
  | .verify =>
    match w.pc i with
    | .applied => some (w.goto i .verified)
    | .opening =>
      some (w.goto i (if w.file.any (·.appliedBy ≠ []) then .checked else .failed))
    | _ => none
  | .close => if w.pc i = .verified then some (w.goto i .closed) else none
  | .admission =>
    match w.pc i with
    | .closed => some (w.goto i (.leaving .ok))
    | .checked => some (w.goto i .done)
    | _ => none
  | .release =>
    match w.pc i with
    | .leaving outcome => some { w.goto i outcome.pc with marker := none }
    | _ => none
  -- an error drops the connection first; the marker that cannot be removed stays
  | .fail =>
    match w.pc i with
    | .acquiring | .opening | .checked => some (w.goto i .failed)
    | .holding | .rechecked | .clear | .connected | .applied | .verified | .closed =>
      some (w.goto i (.leaving .failed))
    | .leaving outcome => some (w.goto i outcome.pc)
    | _ => none
  | .die =>
    match w.pc i with
    | .idle | .done | .failed | .dead => none
    | _ => some (w.goto i .dead)

/-- The path is absent at first. -/
def World.start : World := ⟨none, none, fun _ => .idle⟩

def databaseOpen : Machine World (ℕ × Action) where
  start w := w = World.start
  step s e t := s.step e.1 e.2 = some t

/-- The runs in which no probe takes a file for absent that is there. -/
def truthfulOpen : Machine World (ℕ × Action) where
  start := databaseOpen.start
  step s e t := databaseOpen.step s e t ∧ e.2 ≠ .misread

namespace Pc

/-- The process has created the marker. -/
def owns : Pc → Bool
  | .holding | .rechecked | .clear | .connected | .applied | .verified | .closed | .leaving _ =>
      true
  | _ => false

def absent : Pc → Bool
  | .rechecked | .clear => true
  | _ => false

def committed : Pc → Bool
  | .applied | .verified | .closed | .leaving .ok => true
  | _ => false

/-- The connection of an initializer is open. -/
def building : Pc → Bool
  | .connected | .applied | .verified => true
  | _ => false

def opens : Pc → Bool
  | .opening | .checked | .done => true
  | _ => false

def complete : Pc → Bool
  | .checked | .done => true
  | _ => false

/-- Where a process can be that has met a marker whenever it looked. -/
def late : Pc → Bool
  | .idle | .probing | .seen | .waiting _ | .acquiring | .failed | .dead => true
  | _ => false

/-- How many steps such a process has left. -/
def remaining : Pc → ℕ
  | .idle => 104
  | .probing => 103
  | .seen | .acquiring => 102
  | .waiting polls => 100 - polls + 1
  | _ => 0

end Pc

section Race
variable {w t : World} {i j k : ℕ} {p : Pc} {f : Db}

/-- What holds of a process where it is. -/
structure Fits (w : World) (i : ℕ) (p : Pc) : Prop where
  owns : p.owns = true → w.marker = some i
  absent : p.absent = true → w.file = none
  created : p = .connected → w.file = some ⟨i, []⟩
  committed : p.committed = true → w.file = some ⟨i, [i]⟩
  seen : p = .seen → ∃ f, w.file = some f
  opens : p.opens = true → ∃ f, w.file = some f ∧ (w.pc f.creator).building = false
  complete : p.complete = true → ∃ f, w.file = some f ∧ f.appliedBy = [f.creator]

structure Inv (w : World) : Prop where
  fits : ∀ i, Fits w i (w.pc i)
  once : ∀ f, w.file = some f → f.appliedBy = [] ∨ f.appliedBy = [f.creator]

theorem goto_self : (w.goto i p).pc i = p := Function.update_self ..

theorem goto_other (h : k ≠ i) : (w.goto i p).pc k = w.pc k := Function.update_of_ne h ..

theorem Pc.owns_of_building (h : p.building = true) : p.owns = true := by
  cases p <;> first | rfl | cases h

theorem Pc.owns_of_absent (h : p.absent = true) : p.owns = true := by
  cases p <;> first | rfl | cases h

theorem Pc.owns_of_committed (h : p.committed = true) : p.owns = true := by
  cases p <;> first | rfl | cases h

theorem building_goto (hb : p.building = true → (w.pc i).building = true)
    (h : (w.pc k).building = false) :
    ((w.goto i p).pc k).building = false := by
  by_cases hk : k = i
  · subst hk
    rw [goto_self, Bool.eq_false_iff]
    intro hp
    rw [hb hp] at h
    cases h
  · rw [goto_other hk]
    exact h

/-- A process moves on; its surroundings stay as they are. -/
theorem Inv.goto (h : Inv w) (hb : p.building = true → (w.pc i).building = true)
    (hfits : Fits (w.goto i p) i p) :
    Inv (w.goto i p) := by
  refine ⟨fun k => ?_, h.once⟩
  by_cases hk : k = i
  · subst hk
    rw [goto_self]
    exact hfits
  · rw [goto_other hk]
    have hk := h.fits k
    refine ⟨hk.owns, hk.absent, hk.created, hk.committed, hk.seen, fun hopens => ?_, hk.complete⟩
    obtain ⟨f, hf, hbuilding⟩ := hk.opens hopens
    exact ⟨f, hf, building_goto hb hbuilding⟩

/-- A process that is nowhere in particular. -/
theorem Fits.of_plain (howns : p.owns = false) (hopens : p.opens = false) (hseen : p ≠ .seen) :
    Fits w i p := by
  have hcomplete : p.complete = false := by cases p <;> first | rfl | cases hopens
  constructor <;> intro hp
  · rw [howns] at hp
    cases hp
  · rw [Pc.owns_of_absent hp] at howns
    cases howns
  · subst hp
    cases howns
  · rw [Pc.owns_of_committed hp] at howns
    cases howns
  · exact absurd hp hseen
  · rw [hopens] at hp
    cases hp
  · rw [hcomplete] at hp
    cases hp

theorem Fits.of_seen (h : ∃ f, w.file = some f) : Fits w i .seen := by
  constructor <;> intro hp <;> first | exact h | cases hp

theorem Inv.plain (h : Inv w) (howns : p.owns = false) (hopens : p.opens = false)
    (hseen : p ≠ .seen) :
    Inv (w.goto i p) := by
  refine h.goto (fun hp => ?_) (.of_plain howns hopens hseen)
  rw [Pc.owns_of_building hp] at howns
  cases howns

/-- The owner moves on. -/
theorem Fits.of_owner (hopens : p.opens = false) (hseen : p ≠ .seen) (hmarker : w.marker = some i)
    (habsent : p.absent = true → w.file = none) (hcreated : p = .connected → w.file = some ⟨i, []⟩)
    (hcommitted : p.committed = true → w.file = some ⟨i, [i]⟩) : Fits w i p := by
  have hcomplete : p.complete = false := by cases p <;> first | rfl | cases hopens
  refine ⟨fun _ => hmarker, habsent, hcreated, hcommitted, fun hp => absurd hp hseen, fun hp =>
    ?_, fun hp => ?_⟩
  · rw [hopens] at hp
    cases hp
  · rw [hcomplete] at hp
    cases hp

/-- The processes besides the owner of the marker have no mark on it. -/
theorem Inv.not_owns (h : Inv w) (hmarker : w.marker = some i) (hk : k ≠ i) :
    (w.pc k).owns = false := by
  rw [Bool.eq_false_iff]
  intro howns
  have hsame := (h.fits k).owns howns
  rw [hmarker] at hsame
  exact hk (Option.some.inj hsame).symm

theorem Inv.not_owns_of_none (h : Inv w) (hmarker : w.marker = none) (k : ℕ) :
    (w.pc k).owns = false := by
  rw [Bool.eq_false_iff]
  intro howns
  have hsame := (h.fits k).owns howns
  rw [hmarker] at hsame
  cases hsame

/-- The marker comes and goes among processes that do not own it. -/
theorem Inv.marked (h : Inv w) (m : Option ℕ) (hothers : ∀ k, k ≠ i → (w.pc k).owns = false)
    (hb : p.building = true → (w.pc i).building = true)
    (hfits : Fits { w.goto i p with marker := m } i p) :
    Inv { w.goto i p with marker := m } := by
  refine ⟨fun k => ?_, h.once⟩
  change Fits _ k ((w.goto i p).pc k)
  by_cases hk : k = i
  · subst hk
    rw [goto_self]
    exact hfits
  · rw [goto_other hk]
    have hold := h.fits k
    have hnot := hothers k hk
    refine ⟨fun hp => ?_, hold.absent, hold.created, hold.committed, hold.seen, fun hopens =>
      ?_, hold.complete⟩
    · rw [hnot] at hp
      cases hp
    · obtain ⟨f, hf, hbuilding⟩ := hold.opens hopens
      exact ⟨f, hf, building_goto hb hbuilding⟩

/-- The owner changes the file while nobody has opened it. -/
theorem Inv.written (h : Inv w) (hmarker : w.marker = some i)
    (hunopened : ∀ k, k ≠ i → (w.pc k).opens = false)
    (hf : f.appliedBy = [] ∨ f.appliedBy = [f.creator])
    (hfits : Fits { w.goto i p with file := some f } i p) :
    Inv { w.goto i p with file := some f } := by
  refine ⟨fun k => ?_, fun g hg => ?_⟩
  · change Fits _ k ((w.goto i p).pc k)
    by_cases hk : k = i
    · subst hk
      rw [goto_self]
      exact hfits
    · rw [goto_other hk]
      have hnot := h.not_owns hmarker hk
      by_cases hseen : w.pc k = .seen
      · rw [hseen]
        exact .of_seen ⟨f, rfl⟩
      · exact .of_plain hnot (hunopened k hk) hseen
  · cases hg
    exact hf

theorem Inv.owner (h : Inv w) (hpc : (w.pc i).owns = true) (hopens : p.opens = false)
    (hseen : p ≠ .seen)
    (hb : p.building = true → (w.pc i).building = true) (habsent : p.absent = true → w.file = none)
    (hcreated : p = .connected → w.file = some ⟨i, []⟩)
    (hcommitted : p.committed = true → w.file = some ⟨i, [i]⟩) :
    Inv (w.goto i p) :=
  h.goto hb (.of_owner hopens hseen ((h.fits i).owns hpc) habsent hcreated hcommitted)

/-- An owner that gives up. -/
theorem Inv.leave (h : Inv w) (hpc : (w.pc i).owns = true) : Inv (w.goto i (.leaving .failed)) := by
  refine h.owner hpc rfl Pc.noConfusion ?_ ?_ ?_ ?_ <;> intro hp <;> cases hp

/-- What is left when the block of the marker is left. -/
theorem Fits.of_outcome {outcome : Outcome} (hpc : t.pc i = outcome.pc)
    (hcommitted : (Pc.leaving outcome).committed = true → t.file = some ⟨i, [i]⟩) :
    Fits t i outcome.pc := by
  cases outcome with
  | ok =>
    have hfile := hcommitted rfl
    constructor <;> intro hp
    · cases hp
    · cases hp
    · cases hp
    · cases hp
    · cases hp
    · exact ⟨_, hfile, by rw [hpc]; rfl⟩
    · exact ⟨_, hfile, rfl⟩
  | failed => exact .of_plain rfl rfl Pc.noConfusion
  | retry => exact .of_plain rfl rfl Pc.noConfusion

theorem outcome_not_building (outcome : Outcome) : outcome.pc.building = false := by
  cases outcome <;> rfl

theorem Inv.probe (h : Inv w) (hstep : w.step i .probe = some t) : Inv t := by
  simp only [World.step] at hstep
  split at hstep
  · cases hstep
    split
    · rename_i hfile
      exact h.goto (fun hp => by cases hp) (.of_seen (Option.isSome_iff_exists.mp hfile))
    · exact h.plain rfl rfl Pc.noConfusion
  · rename_i hpc
    cases hstep
    split
    · exact h.plain rfl rfl Pc.noConfusion
    · rename_i hmarker
      -- with no marker there is no initializer
      rw [Option.not_isSome_iff_eq_none] at hmarker
      obtain ⟨f, hf⟩ := (h.fits i).seen hpc
      have hbuilding : (w.pc f.creator).building = false := by
        rw [Bool.eq_false_iff]
        intro hb
        have howns := Pc.owns_of_building hb
        rw [h.not_owns_of_none hmarker] at howns
        cases howns
      refine h.goto (fun hp => by cases hp) ?_
      constructor <;> intro hp <;>
        first | exact ⟨f, hf, building_goto (fun hb => by cases hb) hbuilding⟩ | cases hp
  · cases hstep
    split
    · exact h.plain rfl rfl Pc.noConfusion
    · split <;> exact h.plain rfl rfl Pc.noConfusion
  · rename_i hpc
    have howns : (w.pc i).owns = true := by rw [hpc]; rfl
    cases hstep
    split
    · refine h.owner howns rfl Pc.noConfusion ?_ ?_ ?_ ?_ <;> intro hp <;> cases hp
    · rename_i hfile
      rw [Option.not_isSome_iff_eq_none] at hfile
      refine h.owner howns rfl Pc.noConfusion ?_ (fun _ => hfile) ?_ ?_ <;> intro hp <;> cases hp
  · cases hstep

theorem Inv.connect (h : Inv w) (hpc : w.pc i = .clear) :
    Inv { w.goto i .connected with file := w.file.or (some ⟨i, []⟩) } := by
  have hfile : w.file = none := (h.fits i).absent (by rw [hpc]; rfl)
  have hmarker : w.marker = some i := (h.fits i).owns (by rw [hpc]; rfl)
  rw [hfile]
  refine h.written (f := ⟨i, []⟩) hmarker (fun k _ => ?_) (.inl rfl) ?_
  · rw [Bool.eq_false_iff]
    intro hopens
    obtain ⟨f, hf, -⟩ := (h.fits k).opens hopens
    rw [hfile] at hf
    cases hf
  · exact .of_owner rfl Pc.noConfusion hmarker (fun hp => by cases hp)
      (fun _ => rfl) fun hp => by cases hp

theorem Inv.apply (h : Inv w) (hpc : w.pc i = .connected) {creator : ℕ}
    (hfile : w.file = some ⟨creator, []⟩) :
    Inv { w.goto i .applied with file := some ⟨creator, [i]⟩ } := by
  have hmarker : w.marker = some i := (h.fits i).owns (by rw [hpc]; rfl)
  have hcreated := (h.fits i).created hpc
  rw [hfile] at hcreated
  cases hcreated
  refine h.written (f := ⟨i, [i]⟩) hmarker (fun k _ => ?_) (.inr rfl) ?_
  · rw [Bool.eq_false_iff]
    intro hopens
    obtain ⟨f, hf, hbuilding⟩ := (h.fits k).opens hopens
    rw [hfile] at hf
    cases hf
    rw [hpc] at hbuilding
    cases hbuilding
  · exact .of_owner rfl Pc.noConfusion hmarker (fun hp => by cases hp)
      (fun hp => by cases hp) fun _ => rfl

theorem Inv.verify (h : Inv w) (hstep : w.step i .verify = some t) : Inv t := by
  simp only [World.step] at hstep
  split at hstep
  · rename_i hpc
    cases hstep
    refine h.owner (by rw [hpc]; rfl) rfl Pc.noConfusion (fun _ => by rw [hpc]; rfl)
      (fun hp => by cases hp)
      (fun hp => by cases hp) fun _ => (h.fits i).committed (by rw [hpc]; rfl)
  · rename_i hpc
    cases hstep
    split
    · rename_i hany
      obtain ⟨f, hf, hbuilding⟩ := (h.fits i).opens (by rw [hpc]; rfl)
      have hcomplete : f.appliedBy = [f.creator] := by
        rw [hf] at hany
        exact (h.once f hf).resolve_left (of_decide_eq_true hany)
      refine h.goto (fun hp => by cases hp) ?_
      constructor <;> intro hp <;>
        first
          | exact ⟨f, hf, building_goto (fun hb => by cases hb) hbuilding⟩
          | exact ⟨f, hf, hcomplete⟩
          | cases hp
    · exact h.plain rfl rfl Pc.noConfusion
  · cases hstep

theorem Inv.admission (h : Inv w) (hstep : w.step i .admission = some t) : Inv t := by
  simp only [World.step] at hstep
  split at hstep
  · rename_i hpc
    cases hstep
    refine h.owner (by rw [hpc]; rfl) rfl Pc.noConfusion (fun hp => by cases hp)
      (fun hp => by cases hp)
      (fun hp => by cases hp) fun _ => (h.fits i).committed (by rw [hpc]; rfl)
  · rename_i hpc
    cases hstep
    obtain ⟨f, hf, hbuilding⟩ := (h.fits i).opens (by rw [hpc]; rfl)
    obtain ⟨g, hg, hcomplete⟩ := (h.fits i).complete (by rw [hpc]; rfl)
    refine h.goto (fun hp => by cases hp) ?_
    constructor <;> intro hp <;>
      first
        | exact ⟨f, hf, building_goto (fun hb => by cases hb) hbuilding⟩
        | exact ⟨g, hg, hcomplete⟩
        | cases hp
  · cases hstep

theorem Inv.release (h : Inv w) {outcome : Outcome} (hpc : w.pc i = .leaving outcome) :
    Inv { w.goto i outcome.pc with marker := none } := by
  have hmarker : w.marker = some i := (h.fits i).owns (by rw [hpc]; rfl)
  refine h.marked none (fun k hk => h.not_owns hmarker hk) (fun hp => ?_)
    (.of_outcome goto_self fun hc => ?_)
  · rw [outcome_not_building] at hp
    cases hp
  · exact (h.fits i).committed (by rw [hpc]; exact hc)

theorem Inv.fail (h : Inv w) (hstep : w.step i .fail = some t) : Inv t := by
  simp only [World.step] at hstep
  split at hstep
  iterate 3
    · cases hstep
      exact h.plain rfl rfl Pc.noConfusion
  iterate 7
    · rename_i hpc
      cases hstep
      exact h.leave (by rw [hpc]; rfl)
  · rename_i outcome hpc
    cases hstep
    refine h.goto (fun hp => ?_) (.of_outcome goto_self fun hc => ?_)
    · rw [outcome_not_building] at hp
      cases hp
    · exact (h.fits i).committed (by rw [hpc]; exact hc)
  · cases hstep

/-- Every step of a process that reads the directory as it is keeps the invariant. -/
theorem Inv.step {a : Action} (h : Inv w) (hstep : w.step i a = some t) (ha : a ≠ .misread) :
    Inv t := by
  cases a with
  | start =>
    rw [World.step, Option.ite_none_right_eq_some] at hstep
    cases hstep.2
    exact h.plain rfl rfl Pc.noConfusion
  | probe => exact h.probe hstep
  | misread => exact absurd rfl ha
  | stall =>
    simp only [World.step] at hstep
    split at hstep
    · cases hstep
      split <;> exact h.plain rfl rfl Pc.noConfusion
    · cases hstep
  | acquire =>
    rw [World.step, Option.ite_none_right_eq_some] at hstep
    obtain ⟨-, ht⟩ := hstep
    split at ht
    · rename_i hmarker
      cases ht
      refine h.marked (some i) (fun k _ => h.not_owns_of_none hmarker k) (fun hp => by cases hp) ?_
      exact .of_owner rfl Pc.noConfusion rfl (fun hp => by cases hp)
        (fun hp => by cases hp) fun hp => by cases hp
    · cases ht
      exact h.plain rfl rfl Pc.noConfusion
  | sidecars =>
    rw [World.step, Option.ite_none_right_eq_some] at hstep
    obtain ⟨hpc, ht⟩ := hstep
    cases ht
    exact h.owner (by rw [hpc]; rfl) rfl Pc.noConfusion (fun hp => by cases hp)
      (fun _ => (h.fits i).absent (by rw [hpc]; rfl)) (fun hp => by cases hp) fun hp => by cases hp
  | connect =>
    rw [World.step, Option.ite_none_right_eq_some] at hstep
    obtain ⟨hpc, ht⟩ := hstep
    cases ht
    exact h.connect hpc
  | apply =>
    simp only [World.step] at hstep
    split at hstep
    · rename_i hpc hfile
      cases hstep
      exact h.apply hpc hfile
    · cases hstep
  | verify => exact h.verify hstep
  | close =>
    rw [World.step, Option.ite_none_right_eq_some] at hstep
    obtain ⟨hpc, ht⟩ := hstep
    cases ht
    exact h.owner (by rw [hpc]; rfl) rfl Pc.noConfusion (fun hp => by cases hp)
      (fun hp => by cases hp)
      (fun hp => by cases hp) fun _ => (h.fits i).committed (by rw [hpc]; rfl)
  | admission => exact h.admission hstep
  | release =>
    simp only [World.step] at hstep
    split at hstep
    · rename_i hpc
      cases hstep
      exact h.release hpc
    · cases hstep
  | fail => exact h.fail hstep
  | die =>
    simp only [World.step] at hstep
    split at hstep
    iterate 4
      · cases hstep
    · cases hstep
      exact h.plain rfl rfl Pc.noConfusion

theorem Inv.of_reachable (h : truthfulOpen.Reachable w) : Inv w := by
  refine h.invariant (I := Inv) ?_ ?_
  · rintro s rfl
    exact ⟨fun i => .of_plain rfl rfl Pc.noConfusion, fun f hf => by cases hf⟩
  · rintro s e t hs ⟨hstep, ha⟩
    exact hs.step hstep ha

/-- What a step of one process leaves alone. -/
theorem step_frame {a : Action} (hstep : w.step i a = some t) :
    (∀ k, k ≠ i → t.pc k = w.pc k) ∧
    ((w.pc i).owns = true ∨ t.file = w.file ∧ (w.marker = none ∨ t.marker = w.marker)) ∧
      ((w.pc i).owns = true ∨ w.pc i ≠ .dead) := by
  have hlocal : ∀ p, w.pc i ≠ .dead → w.goto i p = t → (∀ k, k ≠ i → t.pc k = w.pc k) ∧
      ((w.pc i).owns = true ∨ t.file = w.file ∧ (w.marker = none ∨ t.marker = w.marker)) ∧
        ((w.pc i).owns = true ∨ w.pc i ≠ .dead) := by
    rintro p hpc rfl
    exact ⟨fun k hk => goto_other hk, .inr ⟨rfl, .inr rfl⟩, .inr hpc⟩
  cases a <;> simp only [World.step] at hstep
  case acquire =>
    split at hstep
    · rename_i hpc
      split at hstep
      · rename_i hmarker
        cases hstep
        exact ⟨fun k hk =>
          goto_other hk, .inr ⟨rfl, .inl hmarker⟩, .inr (by rw [hpc]; exact Pc.noConfusion)⟩
      · exact hlocal _ (by rw [hpc]; exact Pc.noConfusion) (Option.some.inj hstep)
    · cases hstep
  case connect =>
    split at hstep
    · rename_i hpc
      cases hstep
      exact ⟨fun k hk => goto_other hk, .inl (by rw [hpc]; rfl), .inl (by rw [hpc]; rfl)⟩
    · cases hstep
  case apply =>
    split at hstep
    · rename_i hpc _
      cases hstep
      exact ⟨fun k hk => goto_other hk, .inl (by rw [hpc]; rfl), .inl (by rw [hpc]; rfl)⟩
    · cases hstep
  case release =>
    split at hstep
    · rename_i hpc
      cases hstep
      exact ⟨fun k hk => goto_other hk, .inl (by rw [hpc]; rfl), .inl (by rw [hpc]; rfl)⟩
    · cases hstep
  case die =>
    split at hstep
    iterate 4
      · cases hstep
    · rename_i hdead
      exact hlocal _ (fun hpc => hdead hpc) (Option.some.inj hstep)
  all_goals
    split at hstep <;>
      first
        | cases hstep; done
        | rename_i hpc; exact hlocal _ (by rw [hpc]; exact Pc.noConfusion) (Option.some.inj hstep)

/-- The marker goes only with the process that created it. -/
theorem Inv.marker_removed {a : Action} (h : Inv w) (hstep : w.step i a = some t)
    (hmarker : w.marker = some j)
    (hgone : t.marker ≠ some j) : i = j := by
  obtain ⟨-, howns | ⟨-, hnone | hsame⟩, -⟩ := step_frame hstep
  · have hown := (h.fits i).owns howns
    rw [hmarker] at hown
    exact (Option.some.inj hown).symm
  · rw [hmarker] at hnone
    cases hnone
  · rw [hsame] at hgone
    exact absurd hmarker hgone

/-- With its creator dead, a marker stays, and nobody writes the file. -/
theorem Inv.orphaned {a : Action} (h : Inv w) (hstep : w.step i a = some t)
    (hmarker : w.marker = some j)
    (hdead : w.pc j = .dead) : t.file = w.file ∧ t.marker = some j ∧ t.pc j = .dead := by
  have hnot : (w.pc i).owns = true → False := by
    intro howns
    have hown := (h.fits i).owns howns
    rw [hmarker] at hown
    cases hown
    rw [hdead] at howns
    cases howns
  obtain ⟨hothers, hfile, halive⟩ := step_frame hstep
  obtain ⟨hfile, hnone | hsame⟩ := hfile.resolve_left hnot
  · rw [hmarker] at hnone
    cases hnone
  · refine ⟨hfile, hsame.trans hmarker, (hothers j fun heq => ?_).trans hdead⟩
    subst heq
    exact halive.resolve_left hnot hdead

/-- A process that meets a marker comes closer to its end. -/
theorem late_step {a : Action} (hlate : (w.pc i).late = true) (hmarker : w.marker = some j)
    (hstep : w.step i a = some t) (ha : a ≠ .misread) :
    (t.pc i).late = true ∧ (t.pc i).remaining < (w.pc i).remaining := by
  have hlocal : ∀ p, w.goto i p = t → p.late = true → p.remaining < (w.pc i).remaining →
      (t.pc i).late = true ∧ (t.pc i).remaining < (w.pc i).remaining := by
    rintro p rfl hp hless
    rw [goto_self]
    exact ⟨hp, hless⟩
  generalize hpc : w.pc i = p at *
  cases p <;> cases hlate
  all_goals
    cases a <;>
    simp only [World.step, hpc, reduceCtorEq, if_false, if_true, hmarker, Option.isSome_some,
      Option.isNone_some, Option.some.injEq] at hstep
  all_goals
    first
      | cases hstep; done
      | exact absurd rfl ha
      | refine hlocal _ hstep ?_ ?_ <;> (try split) <;>
          first | rfl | simp only [Pc.remaining]; omega

/-- What is left of a race that was won by a process that died: the marker, and openers that
fail. -/
theorem orphaned_run {labels : List (ℕ × Action)} (hreachable : truthfulOpen.Reachable w)
    (hrun : truthfulOpen.Run w labels t) (hmarker : w.marker = some j) (hdead : w.pc j = .dead) :
    t.file = w.file ∧ t.marker = some j ∧ t.pc j = .dead ∧
      ∀ k, w.pc k = .idle →
        (t.pc k).late = true ∧ labels.countP (fun e => e.1 = k) + (t.pc k).remaining ≤ 104 := by
  induction hrun with
  | nil => exact ⟨rfl, hmarker, hdead, fun k hk => by rw [hk]; exact ⟨rfl, Nat.le_refl _⟩⟩
  | @snoc labels s t e hrun hstep ih =>
    obtain ⟨hfile, hmark, hstill, hlate⟩ := ih
    have hinv := Inv.of_reachable (hreachable.later ⟨_, hrun⟩)
    obtain ⟨hfile', hmark', hstill'⟩ := hinv.orphaned hstep.1 hmark hstill
    refine ⟨hfile'.trans hfile, hmark', hstill', fun k hk => ?_⟩
    obtain ⟨hk, hcount⟩ := hlate k hk
    rw [List.countP_append, List.countP_singleton]
    by_cases hactor : e.1 = k
    · subst hactor
      obtain ⟨hnext, hless⟩ := late_step hk hmark hstep.1 hstep.2
      refine ⟨hnext, ?_⟩
      simp only [decide_true, if_true]
      omega
    · rw [(step_frame hstep.1).1 k (Ne.symm hactor)]
      simp only [hactor, decide_false, Bool.false_eq_true, if_false]
      exact ⟨hk, hcount⟩

/-- Where no probe misses what is there, the baseline is committed once, by the creator of the file,
before anybody has it open; a marker goes with its creator, and one that a dead process left fails
all later openers. -/
theorem fresh_open (h : truthfulOpen.Reachable w) :
    (∀ f, w.file = some f → f.appliedBy.length ≤ 1) ∧
    (∀ i, w.pc i = .done → ∃ f, w.file = some f ∧ f.appliedBy = [f.creator] ∧
      (w.pc f.creator).building = false) ∧
    (∀ i a t j, truthfulOpen.step w (i, a) t → w.marker = some j → t.marker ≠ some j → i = j) ∧
    ∀ j, w.marker = some j → w.pc j = .dead → ∀ labels t, truthfulOpen.Run w labels t →
    t.file = w.file ∧
      ∀ k, w.pc k = .idle →
        (t.pc k).late = true ∧ labels.countP (fun e => e.1 = k) + (t.pc k).remaining ≤ 104 := by
  have hinv := Inv.of_reachable h
  refine ⟨fun f hf => ?_, fun i hi => ?_, fun i a t j hstep hmarker hgone =>
    ?_, fun j hmarker hdead labels t hrun => ?_⟩
  · rcases hinv.once f hf with hnone | hone
    · rw [hnone]
      exact Nat.zero_le 1
    · rw [hone]
      exact Nat.le_refl 1
  · obtain ⟨f, hf, hbuilding⟩ := (hinv.fits i).opens (by rw [hi]; rfl)
    obtain ⟨g, hg, hcomplete⟩ := (hinv.fits i).complete (by rw [hi]; rfl)
    rw [hf] at hg
    cases hg
    exact ⟨f, hf, hcomplete, hbuilding⟩
  · exact hinv.marker_removed hstep.1 hmarker hgone
  · obtain ⟨hfile, -, -, hlate⟩ := orphaned_run h hrun hmarker hdead
    exact ⟨hfile, hlate⟩

theorem databaseOpen_next (h : databaseOpen.Reachable w) (i : ℕ) (a : Action)
    (hstep : w.step i a = some t) :
    databaseOpen.Reachable t := h.tail (i := (i, a)) hstep

theorem truthfulOpen_next (h : truthfulOpen.Reachable w) (i : ℕ) (a : Action)
    (hstep : w.step i a = some t)
    (ha : a ≠ .misread) : truthfulOpen.Reachable t := h.tail (i := (i, a)) ⟨hstep, ha⟩

/-- The creator of a marker dies before it creates the database. -/
theorem fresh_open_sample : ∃ w, truthfulOpen.Reachable w ∧ w.marker = some 0 ∧ w.pc 0 = .dead ∧
    ∀ labels t, truthfulOpen.Run w labels t → t.file = none ∧ (t.pc 1).late = true := by
  have hstart : truthfulOpen.Reachable World.start := .of_start rfl
  have hprobing := truthfulOpen_next hstart 0 .start rfl Action.noConfusion
  have hacquiring := truthfulOpen_next hprobing 0 .probe rfl Action.noConfusion
  have hholding := truthfulOpen_next hacquiring 0 .acquire rfl Action.noConfusion
  have hdead := truthfulOpen_next hholding 0 .die rfl Action.noConfusion
  refine ⟨_, hdead, rfl, rfl, fun labels t hrun => ?_⟩
  obtain ⟨hfile, hlate⟩ := (fresh_open hdead).2.2.2 0 rfl rfl labels t hrun
  exact ⟨hfile, (hlate 1 rfl).1⟩

/-- An initializer fails and leaves an empty file; another takes the file for absent and hands it
out. -/
theorem misread_reuses_file : ∃ w f, databaseOpen.Reachable w ∧ w.pc 1 = .done ∧ w.file = some f ∧
    f.creator = 0 ∧ 0 ∉ f.appliedBy := by
  have hstart : databaseOpen.Reachable World.start := .of_start rfl
  have hprobing := databaseOpen_next hstart 0 .start rfl
  have hacquiring := databaseOpen_next hprobing 0 .probe rfl
  have hholding := databaseOpen_next hacquiring 0 .acquire rfl
  have hrechecked := databaseOpen_next hholding 0 .probe rfl
  have hclear := databaseOpen_next hrechecked 0 .sidecars rfl
  have hconnected := databaseOpen_next hclear 0 .connect rfl
  have hleaving := databaseOpen_next hconnected 0 .fail rfl
  have hfailed := databaseOpen_next hleaving 0 .release rfl
  have hprobing' := databaseOpen_next hfailed 1 .start rfl
  have hacquiring' := databaseOpen_next hprobing' 1 .misread rfl
  have hholding' := databaseOpen_next hacquiring' 1 .acquire rfl
  have hrechecked' := databaseOpen_next hholding' 1 .misread rfl
  have hclear' := databaseOpen_next hrechecked' 1 .sidecars rfl
  have hconnected' := databaseOpen_next hclear' 1 .connect rfl
  have happlied := databaseOpen_next hconnected' 1 .apply rfl
  have hverified := databaseOpen_next happlied 1 .verify rfl
  have hclosed := databaseOpen_next hverified 1 .close rfl
  have hadmitted := databaseOpen_next hclosed 1 .admission rfl
  have hdone := databaseOpen_next hadmitted 1 .release rfl
  exact ⟨_, ⟨0, [1]⟩, hdone, rfl, rfl, rfl, by decide⟩

end Race
end AgentJournal.Storage.Fresh
