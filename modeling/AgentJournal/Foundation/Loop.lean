import Mathlib.Data.Nat.Init

/-! # Loops of rounds

A loop repeats its body on a state. A subtraction of machine words that would go below zero stops
it without a result, so a loop that ends has made none.
-/

namespace AgentJournal.Foundation
variable {σ ρ : Type}

/-- What one round of a loop comes to. -/
inductive Round (σ ρ : Type) where
  | again (s : σ)
  | done (r : ρ)
  | underflow

/-- `a - b` on machine words. -/
def Round.sub (a b : ℕ) (k : ℕ → Round σ ρ) : Round σ ρ := if b ≤ a then k (a - b) else .underflow

theorem Round.sub_of_le {a b : ℕ} (h : b ≤ a) (k : ℕ → Round σ ρ) : Round.sub a b k = k (a - b) :=
  if_pos h

/-- The loop ends from a state with a result. -/
inductive Finishes (body : σ → Round σ ρ) : σ → ρ → Prop
  | done {s : σ} {r : ρ} : body s = .done r → Finishes body s r
  | again {s t : σ} {r : ρ} : body s = .again t → Finishes body t r → Finishes body s r

namespace Finishes
variable {body : σ → Round σ ρ}

theorem unique {s : σ} {r r' : ρ} (h : Finishes body s r) (h' : Finishes body s r') : r = r' := by
  induction h with
  | done hbody =>
    cases h' with
    | done hbody' => simpa [hbody] using hbody'
    | again hbody' _ => simp [hbody] at hbody'
  | again hbody _ ih =>
    cases h' with
    | done hbody' => simp [hbody] at hbody'
    | again hbody' h' =>
      obtain rfl : _ = _ := by simpa [hbody] using hbody'
      exact ih h'

/-- What every round keeps holds in the last one. -/
theorem invariant {I : σ → Prop} {s : σ} {r : ρ} (h : Finishes body s r) (hI : I s)
    (hround : ∀ s t, I s → body s = .again t → I t) : ∃ t, I t ∧ body t = .done r := by
  induction h with
  | done hbody => exact ⟨_, hI, hbody⟩
  | again hbody _ ih => exact ih (hround _ _ hI hbody)

/-- A loop ends as its last round says when an invariant leaves every round with a way to go on that
decreases a measure, or with a result. -/
theorem of_measure {I : σ → Prop} {Q : ρ → Prop} (measure : σ → ℕ)
    (hround : ∀ s, I s → (∃ t, body s = .again t ∧ I t ∧ measure t < measure s) ∨
      ∃ r, body s = .done r ∧ Q r) {s : σ} (hs : I s) : ∃ r, Finishes body s r ∧ Q r := by
  induction hn : measure s using Nat.strongRecOn generalizing s with
  | ind n ih =>
    subst hn
    rcases hround s hs with ⟨t, hbody, ht, hlt⟩ | ⟨r, hbody, hr⟩
    · obtain ⟨r, hends, hr⟩ := ih (measure t) hlt ht rfl
      exact ⟨r, .again hbody hends, hr⟩
    · exact ⟨r, .done hbody, hr⟩

end Finishes

end AgentJournal.Foundation
