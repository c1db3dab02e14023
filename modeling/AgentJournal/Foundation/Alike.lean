import AgentJournal.Foundation.Program

/-! # Two runs

Two runs from related states are alike when they return the same value in related states or fail
alike. What a reader cannot tell apart is a relation that every step it takes keeps.
-/

namespace AgentJournal.Foundation
variable {σ ε α β : Type}

inductive Alike (R : σ → σ → Prop) : Except ε (α × σ) → Except ε (α × σ) → Prop
  | ok {a : α} {s t : σ} : R s t → Alike R (.ok (a, s)) (.ok (a, t))
  | error {e : ε} : Alike R (.error e) (.error e)

namespace Alike
variable {R : σ → σ → Prop} {s t : σ}

theorem pure (a : α) (h : R s t) :
    Alike R ((Pure.pure a : StateT σ (Except ε) α).run s)
    ((Pure.pure a : StateT σ (Except ε) α).run t) := .ok h

/-- The second step may rely on what the first returned. -/
theorem bind {x : StateT σ (Except ε) α} {f : α → StateT σ (Except ε) β}
    (hx : Alike R (x.run s) (x.run t))
    (hf : ∀ a s' t', x.run s = .ok (a, s') → R s' t' → Alike R ((f a).run s') ((f a).run t')) :
    Alike R ((x >>= f).run s) ((x >>= f).run t) := by
  generalize hs : x.run s = y at hx
  generalize ht : x.run t = z at hx
  cases hx with
  | ok h =>
    rw [run_bind_of_ok hs, run_bind_of_ok ht]
    exact hf _ _ _ hs h
  | error =>
    rw [run_bind_of_error hs, run_bind_of_error ht]
    exact .error

theorem mapM {f : β → StateT σ (Except ε) α}
    (hf : ∀ b s t, R s t → Alike R ((f b).run s) ((f b).run t)) (h : R s t) :
    ∀ l : List β, Alike R ((l.mapM f).run s) ((l.mapM f).run t) := by
  intro l
  induction l generalizing s t with
  | nil =>
    rw [List.mapM_nil]
    exact .pure [] h
  | cons b l ih =>
    rw [List.mapM_cons]
    refine .bind (hf b s t h) fun a s' t' _ h' => ?_
    exact .bind (ih h') fun rest s'' t'' _ h'' => .pure _ h''

/-- What is answered is the same. -/
theorem map_fst {x y : Except ε (α × σ)} (h : Alike R x y) : x.map Prod.fst = y.map Prod.fst := by
  cases h <;> rfl

end Alike

/-- Rows that differ where no filter looks are filtered alike. -/
theorem filter_eq_of_forall₂ {r : α → α → Prop} {p : α → Bool} {l m : List α}
    (h : List.Forall₂ r l m)
    (hp : ∀ a b, r a b → p a = p b) (heq : ∀ a b, r a b → p a = true → a = b) :
    l.filter p = m.filter p := by
  induction h with
  | nil => rfl
  | @cons a b l m hab _ ih =>
    rw [List.filter_cons, List.filter_cons, hp a b hab, ih]
    split
    · rename_i hb
      rw [heq a b hab ((hp a b hab).trans hb)]
    · rfl

end AgentJournal.Foundation
