import Mathlib.Data.List.Infix

/-! # Separated items

A list of items as one text, each between two separators. An item is found in it by its text with
the separators around it.
-/

namespace AgentJournal.Foundation
variable {α : Type} {sep : α}

/-- The items, each followed by the separator, behind a first separator. -/
def separated (sep : α) (items : List (List α)) : List α := sep :: items.flatMap (· ++ [sep])

theorem separated_cons (x : List α) (items : List (List α)) :
    separated sep (x :: items) = sep :: x ++ separated sep items := by
  simp [separated]

theorem separated_concat (items : List (List α)) (x : List α) :
    separated sep (items ++ [x]) = separated sep items ++ (x ++ [sep]) := by
  simp [separated]

/-- Two texts without the separator that are followed by it. -/
theorem append_sep_inj {x y rest rest' : List α} (hx : sep ∉ x) (hy : sep ∉ y)
    (h : x ++ sep :: rest = y ++ sep :: rest') : x = y ∧ rest = rest' := by
  induction x generalizing y with
  | nil =>
    cases y with
    | nil => exact ⟨rfl, by simpa using h⟩
    | cons b y =>
      rw [List.nil_append, List.cons_append, List.cons.injEq] at h
      exact absurd (h.1 ▸ List.mem_cons_self) hy
  | cons a x ih =>
    cases y with
    | nil =>
      rw [List.nil_append, List.cons_append, List.cons.injEq] at h
      exact absurd (h.1 ▸ List.mem_cons_self) hx
    | cons b y =>
      rw [List.cons_append, List.cons_append, List.cons.injEq] at h
      obtain ⟨rfl, h⟩ := h
      obtain ⟨rfl, hrest⟩ := ih (mt (List.mem_cons_of_mem _) hx) (mt (List.mem_cons_of_mem _) hy) h
      exact ⟨rfl, hrest⟩

/-- Items without the separator are found as they are. -/
theorem infix_separated_iff {items : List (List α)} {x : List α} (hitems : ∀ y ∈ items, sep ∉ y)
    (hx : sep ∉ x) : sep :: x ++ [sep] <:+: separated sep items ↔ x ∈ items := by
  induction items with
  | nil =>
    simp only [List.not_mem_nil, iff_false]
    intro h
    have := h.length_le
    simp [separated] at this
  | cons y items ih =>
    have hy := hitems y List.mem_cons_self
    rw [List.mem_cons, ← ih fun z hz => hitems z (List.mem_cons_of_mem _ hz), separated_cons]
    constructor
    · rintro ⟨before, after, h⟩
      cases before with
      | nil =>
        simp only [List.nil_append, List.cons_append, List.append_assoc, List.cons.injEq, true_and,
          separated] at h
        exact .inl (append_sep_inj hx hy h).1
      | cons b before =>
        refine .inr ?_
        simp only [List.cons_append, List.append_assoc, List.cons.injEq] at h
        rcases List.append_eq_append_iff.mp h.2 with ⟨middle, rfl, hmiddle⟩ | ⟨middle, rfl, hmiddle⟩
        · cases middle with
          | nil => exact ⟨[], after, by simpa using hmiddle⟩
          | cons m middle =>
            rw [List.cons_append, List.cons.injEq] at hmiddle
            exact absurd (by simp [hmiddle.1]) hy
        · exact ⟨middle, after, by simpa using hmiddle.symm⟩
    · rintro (rfl | h)
      · exact ⟨[], items.flatMap (· ++ [sep]), by simp [separated]⟩
      · exact h.trans (List.suffix_append _ _).isInfix

end AgentJournal.Foundation
