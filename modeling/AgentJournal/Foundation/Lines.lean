import Mathlib.Algebra.Ring.Nat
import Mathlib.Data.List.Basic
import Mathlib.Data.List.Infix

/-! # Terminated lines

A text whose every line ends in a newline, and what is left of it when its writing stops early.
-/

namespace AgentJournal.Foundation

abbrev Text := List Char

/-- Each line with its newline. -/
def unlines : List Text → Text
  | [] => []
  | l :: ls => l ++ '\n' :: unlines ls

/-- The lines of a text that ends in a newline. -/
def lines (text : Text) : List Text :=
  if text.getLast? = some '\n' then text.dropLast.splitOn '\n' else []

def Line (l : Text) : Prop := '\n' ∉ l

instance (l : Text) : Decidable (Line l) := inferInstanceAs (Decidable ('\n' ∉ l))

theorem unlines_append (ls ms : List Text) : unlines (ls ++ ms) = unlines ls ++ unlines ms := by
  induction ls with
  | nil => rfl
  | cons l ls ih => simp [unlines, ih]

theorem length_unlines (ls : List Text) :
    (unlines ls).length = (ls.map fun l => l.length + 1).sum := by
  induction ls with
  | nil => rfl
  | cons l ls ih => simp [unlines, ih]; omega

theorem unlines_getLast? {ls : List Text} (h : ls ≠ []) : (unlines ls).getLast? = some '\n' := by
  induction ls with
  | nil => exact absurd rfl h
  | cons l ls ih =>
    cases ls with
    | nil => simp [unlines]
    | cons m ms =>
      have htail := ih (List.cons_ne_nil _ _)
      rw [unlines, List.getLast?_append, List.getLast?_cons, htail]
      rfl

theorem unlines_ne_nil {ls : List Text} (h : ls ≠ []) : unlines ls ≠ [] := by
  intro hnil
  have hlast := unlines_getLast? h
  rw [hnil] at hlast
  cases hlast

theorem splitOn_line {l : Text} (hl : Line l) : l.splitOn '\n' = [l] := by
  rw [List.splitOn_eq_splitOnP]
  refine List.splitOnP_eq_singleton fun c hc => ?_
  simp only [beq_eq_false_iff_ne, ne_eq]
  rintro rfl
  exact hl hc

theorem splitOn_line_cons {l : Text} (hl : Line l) (rest : Text) :
    (l ++ '\n' :: rest).splitOn '\n' = l :: rest.splitOn '\n' := by
  rw [List.splitOn_eq_splitOnP, List.splitOn_eq_splitOnP]
  refine List.splitOnP_append_cons_of_forall_mem (fun c hc => ?_) '\n' (by simp) rest
  simp only [beq_eq_false_iff_ne, ne_eq]
  rintro rfl
  exact hl hc

theorem lines_unlines {ls : List Text} (hne : ls ≠ []) (hlines : ∀ l ∈ ls, Line l) :
    lines (unlines ls) = ls := by
  rw [lines, if_pos (unlines_getLast? hne)]
  induction ls with
  | nil => exact absurd rfl hne
  | cons l ls ih =>
    have hl := hlines l (List.mem_cons_self ..)
    cases ls with
    | nil =>
      rw [unlines, unlines, List.dropLast_append_of_ne_nil (List.cons_ne_nil _ _)]
      simpa using splitOn_line hl
    | cons m ms =>
      have hrest := ih (List.cons_ne_nil _ _) fun l' h' => hlines l' (List.mem_cons_of_mem _ h')
      have hne' := unlines_ne_nil (List.cons_ne_nil m ms)
      rw [unlines, List.dropLast_append_of_ne_nil (List.cons_ne_nil _ _),
        List.dropLast_cons_of_ne_nil hne', splitOn_line_cons hl, hrest]

theorem splitOn_unlines_append {ls : List Text} (hlines : ∀ l ∈ ls, Line l) (rest : Text) :
    (unlines ls ++ rest).splitOn '\n' = ls ++ rest.splitOn '\n' := by
  induction ls with
  | nil => rfl
  | cons l ls ih =>
    rw [unlines, List.append_assoc, List.cons_append,
      splitOn_line_cons (hlines l List.mem_cons_self), ih fun m hm =>
      hlines m (List.mem_cons_of_mem _ hm)]
    rfl

/-- The lines of a text, put together again. -/
theorem unlines_splitOn (text : Text) : unlines (text.splitOn '\n') = text ++ ['\n'] := by
  induction text with
  | nil => rfl
  | cons c text ih =>
    have hne := List.splitOn_ne_nil '\n' text
    rw [List.splitOn_cons_eq_if_modifyHead]
    split
    · rename_i hc
      rw [unlines, ih, beq_iff_eq.mp hc]
      rfl
    · cases hlines : text.splitOn '\n' with
      | nil => exact absurd hlines hne
      | cons l ls =>
        rw [hlines] at ih
        rw [List.modifyHead_cons, unlines, List.cons_append, List.cons_append, ← ih]
        rfl

theorem unlines_lines {text : Text} (h : lines text ≠ []) : unlines (lines text) = text := by
  unfold lines at h ⊢
  by_cases hlast : text.getLast? = some '\n'
  · rw [if_pos hlast, unlines_splitOn]
    obtain ⟨init, rfl⟩ := List.getLast?_eq_some_iff.mp hlast
    rw [List.dropLast_concat]
  · exact absurd (if_neg hlast) h

/-- A text cut short ends in the middle of a line, or has some of the lines. -/
theorem prefix_unlines {ls : List Text} (hlines : ∀ l ∈ ls, Line l) {p : Text}
    (hp : p <+: unlines ls) : lines p = [] ∨ ∃ k, k ≠ 0 ∧ p = unlines (ls.take k) := by
  induction ls generalizing p with
  | nil =>
    obtain rfl := List.prefix_nil.mp hp
    exact .inl rfl
  | cons l ls ih =>
    have hl := hlines l (List.mem_cons_self ..)
    rcases le_or_gt p.length l.length with hshort | hlong
    · -- No newline was written yet.
      have hpl : p <+: l := List.prefix_of_prefix_length_le hp (List.prefix_append _ _) hshort
      refine .inl (if_neg fun hlast => hl (hpl.subset ?_))
      exact List.mem_of_getLast? hlast
    · have hlp : l ++ ['\n'] <+: p := by
        refine List.prefix_of_prefix_length_le ⟨unlines ls, by simp [unlines]⟩ hp ?_
        rw [List.length_append]
        exact hlong
      obtain ⟨q, rfl⟩ := hlp
      have hq : q <+: unlines ls := by
        have hsplit : unlines (l :: ls) = (l ++ ['\n']) ++ unlines ls := by simp [unlines]
        rw [hsplit] at hp
        exact (List.prefix_append_right_inj _).mp hp
      rcases ih (fun l' h' => hlines l' (List.mem_cons_of_mem _ h')) hq with hnone | ⟨k, hk, rfl⟩
      · cases q with
        | nil => exact .inr ⟨1, Nat.one_ne_zero, by simp [unlines]⟩
        | cons c q =>
          refine .inl (if_neg fun hlast => ?_)
          rw [List.getLast?_append_of_ne_nil _ (List.cons_ne_nil _ _)] at hlast
          rw [lines, if_pos hlast] at hnone
          exact List.splitOn_ne_nil _ _ hnone
      · exact .inr ⟨k + 1, by omega, by simp [unlines]⟩

end AgentJournal.Foundation
