import Mathlib.Data.Nat.Init
import Mathlib.Logic.Relator

/-! # Climbing to a top

The steps of a relation, counted. Where every element has at most one step, a climb that ends at a
top is the only one and goes through no element twice.
-/

namespace AgentJournal.Foundation
variable {α : Type} {R : α → α → Prop} {a b t : α} {m n : ℕ}

/-- A climb of a number of steps. -/
inductive Climbs (R : α → α → Prop) : ℕ → α → α → Prop
  | refl (a : α) : Climbs R 0 a a
  | step {n : ℕ} {a b t : α} : R a b → Climbs R n b t → Climbs R (n + 1) a t

/-- Nothing is above a top. -/
def Topmost (R : α → α → Prop) (t : α) : Prop := ∀ b, ¬ R t b

namespace Climbs

theorem eq_of_zero (h : Climbs R 0 a t) : a = t := by
  cases h
  rfl

theorem trans (h : Climbs R m a b) (h' : Climbs R n b t) : Climbs R (m + n) a t := by
  induction h with
  | refl => simpa using h'
  | step hstep _ ih =>
    rw [Nat.add_right_comm]
    exact .step hstep (ih h')

theorem tail (h : Climbs R n a b) (hstep : R b t) :
    Climbs R (n + 1) a t := h.trans (.step hstep (.refl t))

/-- What holds of the start and is kept by steps holds all along. -/
theorem keeps {I : α → Prop} (h : Climbs R n a t) (ha : I a) (hstep : ∀ x y, I x → R x y → I y) :
    I t := by
  induction h with
  | refl => exact ha
  | step hxy _ ih => exact ih (hstep _ _ ha hxy)

theorem unique (hR : Relator.RightUnique R) (h : Climbs R n a b) (h' : Climbs R n a t) : b = t := by
  induction h with
  | refl => exact h'.eq_of_zero
  | step hstep _ ih =>
    cases h' with
    | step hstep' h' =>
      rw [hR hstep' hstep] at h'
      exact ih h'

/-- Whatever is met on the way to a top leads on to it. -/
theorem onward (hR : Relator.RightUnique R) (h : Climbs R n a t) (ht : Topmost R t)
    (h' : Climbs R m a b) :
    m ≤ n ∧ Climbs R (n - m) b t := by
  induction h' generalizing n with
  | refl => exact ⟨Nat.zero_le n, h⟩
  | step hstep _ ih =>
    cases h with
    | refl => exact absurd hstep (ht _)
    | step hstep' h =>
      rw [hR hstep' hstep] at h
      obtain ⟨hle, honward⟩ := ih h
      refine ⟨Nat.succ_le_succ hle, ?_⟩
      rwa [Nat.add_sub_add_right]

theorem top_unique (hR : Relator.RightUnique R) (h : Climbs R n a t) (ht : Topmost R t)
    (h' : Climbs R m a b)
    (hb : Topmost R b) : m = n ∧ b = t := by
  obtain ⟨hle, -⟩ := h.onward hR ht h'
  obtain ⟨hge, -⟩ := h'.onward hR hb h
  obtain rfl := Nat.le_antisymm hle hge
  exact ⟨rfl, h'.unique hR h⟩

/-- A climb to a top passes each element once. -/
theorem once (hR : Relator.RightUnique R) (h : Climbs R n a t) (ht : Topmost R t) {k : ℕ}
    (h₁ : Climbs R m a b)
    (h₂ : Climbs R k a b) : m = k := by
  obtain ⟨hm, honward⟩ := h.onward hR ht h₁
  obtain ⟨hk, honward'⟩ := h.onward hR ht h₂
  have := (honward.top_unique hR ht honward' ht).1
  omega

/-- The elements on the way to a top are distinct. -/
theorem exists_path (hR : Relator.RightUnique R) (h : Climbs R n a t) (ht : Topmost R t) :
    ∃ path : List α, path.length = n + 1 ∧ path.Nodup ∧ ∀ x ∈ path, ∃ k ≤ n, Climbs R k x t := by
  induction h with
  | refl a => exact ⟨[a], rfl, List.pairwise_singleton _ _, by simpa using .refl a⟩
  | @step n a b t hstep h ih =>
    obtain ⟨path, hlength, hnodup, hpath⟩ := ih ht
    refine ⟨a :: path, by rw [List.length_cons, hlength], List.nodup_cons.mpr ⟨?_, hnodup⟩, ?_⟩
    · intro hmem
      obtain ⟨k, hk, hclimb⟩ := hpath a hmem
      have := (hclimb.top_unique hR ht (.step hstep h) ht).1
      omega
    · intro x hx
      rcases List.mem_cons.mp hx with rfl | hold
      · exact ⟨n + 1, Nat.le_refl _, .step hstep h⟩
      · obtain ⟨k, hk, hclimb⟩ := hpath x hold
        exact ⟨k, Nat.le_succ_of_le hk, hclimb⟩

end Climbs

end AgentJournal.Foundation
