import Mathlib.Data.List.Basic

/-! # Runs of a labelled transition system

A machine is a set of start states with one labelled step relation. Safety of whole runs is
reduced to one step, once, for every machine of this development. A log is the list of what
happened, oldest entry first; a law of a log says of every entry what the entries before it must
have been.
-/

namespace AgentJournal.Foundation

structure Machine (σ ι : Type*) where
  start : σ → Prop
  step : σ → ι → σ → Prop

namespace Machine
variable {σ ι : Type*} {M : Machine σ ι} {s t u : σ} {i : ι} {labels : List ι}

/-- The labels, in order, lead from the first state to the second. -/
inductive Run (M : Machine σ ι) (s : σ) : List ι → σ → Prop
  | nil : Run M s [] s
  | snoc {labels : List ι} {t u : σ} {i : ι} :
      Run M s labels t → M.step t i u → Run M s (labels ++ [i]) u

/-- The second state is reached from the first by finitely many steps. -/
def Later (M : Machine σ ι) (s t : σ) : Prop := ∃ labels, M.Run s labels t

/-- Some run from a start state passes through this state. -/
def Reachable (M : Machine σ ι) (s : σ) : Prop := ∃ s₀, M.start s₀ ∧ M.Later s₀ s

theorem Run.append (h : M.Run s labels t) {more : List ι} (h' : M.Run t more u) :
    M.Run s (labels ++ more) u := by
  induction h' with
  | nil => simpa using h
  | snoc _ hstep ih =>
    rw [← List.append_assoc]
    exact ih.snoc hstep

theorem Run.single (h : M.step s i t) : M.Run s [i] t := Run.nil.snoc h

/-- A run passes through every one of its labels. -/
theorem Run.split {before after : List ι} (h : M.Run s (before ++ i :: after) t) :
    ∃ u v, M.Run s before u ∧ M.step u i v ∧ M.Run v after t := by
  generalize hlabels : before ++ i :: after = labels at h
  induction h generalizing after with
  | nil => simp at hlabels
  | @snoc labels t' t j hrun hj ih =>
    rcases List.eq_nil_or_concat after with rfl | ⟨init, last, rfl⟩
    · obtain ⟨rfl, hij⟩ := List.append_inj' hlabels rfl
      obtain rfl : i = j := by simpa using hij
      exact ⟨t', t, hrun, hj, .nil⟩
    · rw [List.concat_eq_append, ← List.cons_append, ← List.append_assoc] at hlabels
      obtain ⟨hinit, hlast⟩ := List.append_inj' hlabels rfl
      obtain rfl : last = j := by simpa using hlast
      obtain ⟨u, v, hbefore, hi, hafter⟩ := ih hinit
      exact ⟨u, v, hbefore, hi, by simpa using hafter.snoc hj⟩

theorem Later.refl : M.Later s s := ⟨[], .nil⟩

theorem Later.tail (h : M.Later s t) (hstep : M.step t i u) : M.Later s u := by
  obtain ⟨labels, hrun⟩ := h
  exact ⟨labels ++ [i], hrun.snoc hstep⟩

theorem Later.trans (h : M.Later s t) (h' : M.Later t u) : M.Later s u := by
  obtain ⟨labels, hrun⟩ := h
  obtain ⟨more, hmore⟩ := h'
  exact ⟨labels ++ more, hrun.append hmore⟩

theorem Reachable.of_start (h : M.start s) : M.Reachable s := ⟨s, h, .refl⟩

theorem Reachable.later (hs : M.Reachable s) (h : M.Later s t) : M.Reachable t := by
  obtain ⟨s₀, h₀, hl⟩ := hs
  exact ⟨s₀, h₀, hl.trans h⟩

theorem Reachable.tail (hs : M.Reachable s) (h : M.step s i t) : M.Reachable t :=
  hs.later ⟨[i], .single h⟩

/-- What every step with an allowed label keeps, every run of allowed labels keeps. -/
theorem Run.stable {Q : ι → Prop} {I : σ → Prop}
    (hstep : ∀ s i t, M.Reachable s → Q i → I s → M.step s i t → I t)
    (hs : M.Reachable s) (h : M.Run s labels t) (hlabels : ∀ i ∈ labels, Q i) (hI : I s) :
    I t := by
  induction h with
  | nil => exact hI
  | snoc hrun hi ih =>
    have hprior : I _ := ih fun j hj => hlabels j (List.mem_append_left _ hj)
    exact hstep _ _ _ (hs.later ⟨_, hrun⟩) (hlabels _ (by simp)) hprior hi

/-- What holds at the end of a run and not at its beginning came with one of its steps. -/
theorem Run.origin {E : σ → Prop} {Q : σ → ι → σ → Prop}
    (hstep : ∀ s i t, M.Reachable s → M.step s i t → E t → E s ∨ Q s i t)
    (hs : M.Reachable s) (h : M.Run s labels t) (hE : E t) :
    E s ∨ ∃ before after u i v, labels = before ++ i :: after ∧ M.Run s before u ∧ M.step u i v ∧
      Q u i v ∧ M.Run v after t := by
  induction h with
  | nil => exact .inl hE
  | @snoc labels t u i hrun hi ih =>
    rcases hstep t i u (hs.later ⟨_, hrun⟩) hi hE with hprior | hnow
    · rcases ih hprior with hfirst | ⟨before, after, v, j, v', hlabels, hbefore, hj, hQ, hafter⟩
      · exact .inl hfirst
      · exact .inr
          ⟨before, after ++ [i], v, j, v', by simp [hlabels], hbefore, hj, hQ, hafter.snoc hi⟩
    · exact .inr ⟨labels, [], t, i, u, rfl, hrun, hi, hnow, .nil⟩

/-- A property that every step from a reachable state keeps holds from then on. -/
theorem Later.stable {I : σ → Prop} (hstep : ∀ s i t, M.Reachable s → I s → M.step s i t → I t)
    (hs : M.Reachable s) (h : M.Later s t) (hI : I s) : I t := by
  obtain ⟨labels, hrun⟩ := h
  exact hrun.stable (Q := fun _ => True) (fun s i t hr _ => hstep s i t hr) hs
    (fun _ _ => trivial) hI

/-- What starts true and survives every step is true in every reachable state. -/
theorem Reachable.invariant {I : σ → Prop} (h₀ : ∀ s, M.start s → I s)
    (hstep : ∀ s i t, I s → M.step s i t → I t) (hs : M.Reachable s) : I s := by
  obtain ⟨s₀, hstart, hl⟩ := hs
  exact hl.stable (fun s i t _ => hstep s i t) (.of_start hstart) (h₀ s₀ hstart)

/-- A reflexive and transitive relation that contains every step relates the ends of a run. -/
theorem Later.relation {R : σ → σ → Prop} (hrefl : ∀ s, R s s)
    (htrans : ∀ {a b c}, R a b → R b c → R a c)
    (hstep : ∀ s i t, M.Reachable s → M.step s i t → R s t)
    (hs : M.Reachable s) (h : M.Later s t) : R s t := by
  obtain ⟨labels, hrun⟩ := h
  induction hrun with
  | nil => exact hrefl _
  | snoc hrun hi ih => exact htrans ih (hstep _ _ _ (hs.later ⟨_, hrun⟩) hi)

end Machine

section Logs
variable {α : Type*} {law law' : List α → α → Prop} {log more : List α} {entry : α}

/-- Every entry of the log meets the law, given the entries before it. -/
def Lawful (law : List α → α → Prop) (log : List α) : Prop :=
  ∀ before entry after, log = before ++ entry :: after → law before entry

namespace Lawful

theorem nil : Lawful law [] := by
  intro before entry after h
  simp at h

theorem snoc (h : Lawful law log) (hentry : law log entry) : Lawful law (log ++ [entry]) := by
  intro before e after heq
  rcases List.eq_nil_or_concat after with rfl | ⟨init, last, rfl⟩
  · obtain ⟨rfl, he⟩ := List.append_inj' heq rfl
    obtain rfl : entry = e := by simpa using he
    exact hentry
  · rw [List.concat_eq_append, ← List.cons_append, ← List.append_assoc] at heq
    obtain ⟨hinit, -⟩ := List.append_inj' heq rfl
    exact h before e init hinit

/-- Entries of no concern to the law can be added at will. -/
theorem append (h : Lawful law log) (hmore : ∀ entry ∈ more, ∀ before, law before entry) :
    Lawful law (log ++ more) := by
  induction more generalizing log with
  | nil => simpa using h
  | cons e rest ih =>
    have hstep : Lawful law (log ++ [e]) := h.snoc (hmore e List.mem_cons_self log)
    simpa using ih hstep fun entry hentry => hmore entry (List.mem_cons_of_mem _ hentry)

theorem prefix_of (h : Lawful law (log ++ more)) : Lawful law log := by
  intro before e after heq
  exact h before e (after ++ more) (by rw [heq]; simp)

end Lawful

end Logs

end AgentJournal.Foundation
