import Mathlib.Init

/-! # Fallible computations

A check that returns early is an action of its own, so that a computation which succeeds
can be taken apart one step at a time.
-/

namespace AgentJournal.Foundation
variable {ε α β : Type}

/-- Return the error when the condition holds, as an early `return Err(..)` does. -/
def failIf (condition : Prop) [Decidable condition] (error : ε) : Except ε Unit :=
  if condition then .error error else .ok ()

@[simp] theorem failIf_eq_ok {condition : Prop} [Decidable condition] {error : ε} {u : Unit} :
    failIf condition error = .ok u ↔ ¬condition := by
  unfold failIf
  split <;> simp_all

theorem failIf_pos {condition : Prop} [Decidable condition] {error : ε} (h : condition) :
    failIf condition error = .error error := if_pos h

theorem failIf_neg {condition : Prop} [Decidable condition] {error : ε} (h : ¬condition) :
    failIf condition error = .ok () := if_neg h

@[simp] theorem bind_eq_ok {x : Except ε α} {f : α → Except ε β} {b : β} :
    (x >>= f) = .ok b ↔ ∃ a, x = .ok a ∧ f a = .ok b := by
  cases x <;> simp [bind, Except.bind]

@[simp] theorem ok_bind (a : α) (f : α → Except ε β) : (Except.ok a >>= f) = f a := rfl

@[simp] theorem error_bind (e : ε) (f : α → Except ε β) : (Except.error e >>= f) = .error e := rfl

@[simp] theorem pure_eq_ok (a : α) : (pure a : Except ε α) = .ok a := rfl

theorem map_eq_ok {f : α → β} {x : Except ε α} {b : β} :
    f <$> x = .ok b ↔ ∃ a, x = .ok a ∧ f a = b := by
  cases x <;> simp [Functor.map, Except.map]

/-- `Option::ok_or`. -/
def required (x : Option α) (error : ε) : Except ε α :=
  match x with
  | some a => .ok a
  | none => .error error

@[simp] theorem required_eq_ok {x : Option α} {error : ε} {a : α} :
    required x error = .ok a ↔ x = some a := by
  cases x <;> simp [required]

/-- Keep the value of a success. -/
def succeeded : Except ε α → Option α
  | .ok a => some a
  | .error _ => none

@[simp] theorem succeeded_eq_some {x : Except ε α} {a : α} : succeeded x = some a ↔ x = .ok a := by
  cases x <;> simp [succeeded]

/-- Keep the error of a failure. -/
def refused : Except ε α → Option ε
  | .ok _ => none
  | .error e => some e

theorem refused_eq_some {x : Except ε α} {e : ε} : refused x = some e ↔ x = .error e := by
  cases x <;> simp [refused]

@[simp] theorem guard_eq_some {p : Prop} [Decidable p] {u : Unit} :
    (guard p : Option Unit) = some u ↔ p := by
  change (if p then some () else none) = some u ↔ p
  split <;> simp_all

/-- A fold that fails at no element keeps a relation which every step keeps. -/
theorem foldlM_ok_induction {σ : Type} {f : σ → α → Except ε σ} {I : List α → σ → Prop}
    (hstep : ∀ a rest s s', I (a :: rest) s → f s a = .ok s' → I rest s') :
    ∀ (l : List α) (s s' : σ), I l s → l.foldlM f s = .ok s' → I [] s'
  | [], s, s', hI, h => by
    rw [List.foldlM_nil, pure_eq_ok] at h
    cases h
    exact hI
  | a :: l, s, s', hI, h => by
    rw [List.foldlM_cons, bind_eq_ok] at h
    obtain ⟨t, ht, h⟩ := h
    exact foldlM_ok_induction hstep l t s' (hstep a l s t hI ht) h

/-- The ends of a fold that fails at no element are related by what relates each step. -/
theorem foldlM_ok_relation {σ : Type} {f : σ → α → Except ε σ} {R : σ → σ → Prop}
    (hrefl : ∀ s, R s s) (htrans : ∀ {a b c}, R a b → R b c → R a c)
    (hstep : ∀ s a s', f s a = .ok s' → R s s') {l : List α} {s s' : σ}
    (h : l.foldlM f s = .ok s') : R s s' :=
  foldlM_ok_induction (I := fun _ t => R s t)
    (fun a _ t t' ht hf => htrans ht (hstep t a t' hf)) l s s' (hrefl s) h

/-- A fold succeeds when every round succeeds on what the rounds before it left. -/
theorem foldlM_ok_of_rounds {σ : Type} {f : σ → α → Except ε σ} {I : List α → σ → Prop} :
    ∀ (rest done : List α) (s : σ), I done s →
      (∀ before a after s, done ++ rest = before ++ a :: after → I before s →
        ∃ s', f s a = .ok s' ∧ I (before ++ [a]) s') →
      ∃ s', rest.foldlM f s = .ok s' ∧ I (done ++ rest) s'
  | [], done, s, hI, _ => ⟨s, rfl, by simpa using hI⟩
  | a :: rest, done, s, hI, hround => by
    obtain ⟨t, ht, hIt⟩ := hround done a rest s rfl hI
    have hrest : done ++ [a] ++ rest = done ++ a :: rest := by simp
    obtain ⟨s', hs', hI'⟩ := foldlM_ok_of_rounds rest (done ++ [a]) t hIt
      fun before b after u heq => hround before b after u (hrest ▸ heq)
    refine ⟨s', ?_, hrest ▸ hI'⟩
    rw [List.foldlM_cons, ht]
    exact hs'

end AgentJournal.Foundation
