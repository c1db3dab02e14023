import Mathlib.Data.List.Basic
import Mathlib.Data.Nat.Notation
import Mathlib.Logic.Function.Defs

/-! # Streams of delimited items

An encoding that says itself where it ends can be followed by anything. Items of one kind, each
group behind a mark that no item begins with, make a stream that reads back in one way only.
-/

namespace AgentJournal.Foundation
variable {α β : Type*} {encode : α → List β} {mark : β}

/-- Where one encoding ends is where any other one does. -/
def Delimited (encode : α → List β) : Prop :=
  ∀ a b rest rest', encode a ++ rest = encode b ++ rest' → a = b ∧ rest = rest'

/-- What follows a group of items: nothing, or the mark of another group. -/
def Ends (mark : β) (rest : List β) : Prop := ∀ b ∈ rest.head?, b = mark

theorem ends_nil : Ends mark [] := by
  intro b hb
  cases hb

theorem ends_cons (rest : List β) : Ends mark (mark :: rest) := by
  intro b hb
  exact (Option.some.inj hb).symm

/-- An item cannot stand where a group ends. -/
theorem not_ends_encode (hmark : ∀ a, ∃ b ∈ (encode a).head?, b ≠ mark) (a : α) (rest : List β) :
    ¬ Ends mark (encode a ++ rest) := by
  intro h
  obtain ⟨b, hb, hne⟩ := hmark a
  refine hne (h b ?_)
  rw [List.head?_append, hb]
  rfl

theorem Delimited.flatMap (h : Delimited encode) (hmark : ∀ a, ∃ b ∈ (encode a).head?, b ≠ mark) :
    ∀ (xs ys : List α) (rest rest' : List β), Ends mark rest → Ends mark rest' →
      xs.flatMap encode ++ rest = ys.flatMap encode ++ rest' → xs = ys ∧ rest = rest'
  | [], [], _, _, _, _, heq => ⟨rfl, heq⟩
  | [], y :: ys, rest, rest', hrest, _, heq => by
    rw [List.flatMap_nil, List.nil_append, List.flatMap_cons, List.append_assoc] at heq
    exact absurd (heq ▸ hrest) (not_ends_encode hmark y _)
  | x :: xs, [], rest, rest', _, hrest', heq => by
    rw [List.flatMap_nil, List.nil_append, List.flatMap_cons, List.append_assoc] at heq
    exact absurd (heq ▸ hrest') (not_ends_encode hmark x _)
  | x :: xs, y :: ys, rest, rest', hrest, hrest', heq => by
    rw [List.flatMap_cons, List.flatMap_cons, List.append_assoc, List.append_assoc] at heq
    obtain ⟨rfl, htail⟩ := h x y _ _ heq
    obtain ⟨rfl, hend⟩ := Delimited.flatMap h hmark xs ys rest rest' hrest hrest' htail
    exact ⟨rfl, hend⟩

/-- Groups of items, each behind the mark. -/
def groups (encode : α → List β) (mark : β) (rows : List (List α)) : List β :=
  rows.flatMap fun row => mark :: row.flatMap encode

theorem ends_groups (rows : List (List α)) : Ends mark (groups encode mark rows) := by
  cases rows with
  | nil => exact ends_nil
  | cons row rows => exact ends_cons _

theorem Delimited.groups_injective (h : Delimited encode)
    (hmark : ∀ a, ∃ b ∈ (encode a).head?, b ≠ mark) : Function.Injective (groups encode mark) := by
  intro rows
  induction rows with
  | nil =>
    intro rows' heq
    cases rows' with
    | nil => rfl
    | cons => cases heq
  | cons row rows ih =>
    intro rows' heq
    cases rows' with
    | nil => cases heq
    | cons row' rows' =>
      have htail := List.tail_eq_of_cons_eq heq
      obtain ⟨rfl, hrest⟩ := h.flatMap hmark row row' (groups encode mark rows)
        (groups encode mark rows') (ends_groups rows) (ends_groups rows') htail
      rw [ih hrest]

end AgentJournal.Foundation
