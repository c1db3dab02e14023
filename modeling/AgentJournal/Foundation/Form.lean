import AgentJournal.Foundation.Percent
import Mathlib.Data.List.TakeWhile

/-! # Forms

A form is a list of pairs. A blank is written as a plus sign, other bytes that are not kept are
escaped, so neither of the two separators stands in what was encoded.
-/

namespace AgentJournal.Foundation

def formByte (keep : UInt8 → Bool) (b : UInt8) : List UInt8 :=
  if b = 0x20 then [0x2b] else percentByte keep b

def formEncode (keep : UInt8 → Bool) (bytes : List UInt8) : List UInt8 :=
  bytes.flatMap (formByte keep)

def plusToBlank (b : UInt8) : UInt8 := if b = 0x2b then 0x20 else b

def formDecode (bytes : List UInt8) : List UInt8 := percentDecode (bytes.map plusToBlank)

/-- The two sides of the first equality sign. -/
def formPair (piece : List UInt8) : List UInt8 × List UInt8 :=
  (piece.takeWhile (· ≠ 0x3d), (piece.dropWhile (· ≠ 0x3d)).tail)

/-- The pairs of a form, not yet decoded; empty pieces do not count. -/
def formPairs (bytes : List UInt8) : List (List UInt8 × List UInt8) :=
  ((bytes.splitOn 0x26).filter (· ≠ [])).map formPair

def formText (keep : UInt8 → Bool) (pairs : List (List UInt8 × List UInt8)) : List UInt8 :=
  [0x26].intercalate
    (pairs.map fun pair => formEncode keep pair.1 ++ 0x3d :: formEncode keep pair.2)

/-- Neither escapes nor separators are kept. -/
structure KeepsForm (keep : UInt8 → Bool) : Prop where
  percent : keep 0x25 = false
  plus : keep 0x2b = false
  ampersand : keep 0x26 = false
  equals : keep 0x3d = false

variable {keep : UInt8 → Bool} {a b : UInt8} {l : List UInt8}

theorem formEncode_cons (b : UInt8) (l : List UInt8) :
    formEncode keep (b :: l) = formByte keep b ++ formEncode keep l := List.flatMap_cons ..

theorem hexByte_ne_plus {n : ℕ} (hn : n < 16) : hexByte n ≠ 0x2b := by
  have hall : ∀ i : Fin 16, hexByte i ≠ 0x2b := by decide
  exact hall ⟨n, hn⟩

theorem hexByte_ne_separator {n : ℕ} (hn : n < 16) : hexByte n ≠ 0x26 ∧ hexByte n ≠ 0x3d := by
  have hall : ∀ i : Fin 16, hexByte i ≠ 0x26 ∧ hexByte i ≠ 0x3d := by decide
  exact hall ⟨n, hn⟩

/-- An escape has no plus sign. -/
theorem plus_notMem_percentByte (hkeep : KeepsForm keep) (b : UInt8) :
    0x2b ∉ percentByte keep b := by
  intro hmem
  rcases mem_percentByte hmem with ⟨heq, hkept⟩ | h | ⟨n, hn, h⟩
  · rw [← heq, hkeep.plus] at hkept
    cases hkept
  · exact absurd h (by decide)
  · exact hexByte_ne_plus hn h.symm

theorem map_plusToBlank {l : List UInt8} (h : 0x2b ∉ l) : l.map plusToBlank = l := by
  refine (List.map_congr_left fun b hb => ?_).trans (List.map_id l)
  exact if_neg fun heq : b = 0x2b => h (heq ▸ hb)

/-- What was encoded is decoded. -/
theorem formDecode_formEncode (hkeep : KeepsForm keep) (l rest : List UInt8) :
    formDecode (formEncode keep l ++ rest) = l ++ formDecode rest := by
  induction l with
  | nil => rfl
  | cons b l ih =>
    simp only [formDecode, List.map_append] at ih
    rw [formDecode, formEncode_cons, List.map_append, List.map_append, List.append_assoc]
    unfold formByte
    split
    · rename_i hblank
      subst hblank
      exact (percentDecode_cons (by decide) _).trans (congrArg (0x20 :: ·) ih)
    · rw [map_plusToBlank (plus_notMem_percentByte hkeep b),
        percentDecode_percentByte hkeep.percent, ih]
      rfl

/-- Encoded bytes are kept ones, plus signs, percent signs and digits. -/
theorem mem_formEncode (h : a ∈ formEncode keep l) :
    keep a = true ∨ a = 0x2b ∨ a = 0x25 ∨ ∃ n < 16, a = hexByte n := by
  obtain ⟨b, hb, ha⟩ := List.mem_flatMap.mp h
  unfold formByte at ha
  split at ha
  · exact .inr (.inl (List.mem_singleton.mp ha))
  · rcases mem_percentByte ha with ⟨rfl, hkept⟩ | h | h
    · exact .inl hkept
    · exact .inr (.inr (.inl h))
    · exact .inr (.inr (.inr h))

theorem separator_notMem_formEncode (hkeep : KeepsForm keep) (l : List UInt8) :
    0x26 ∉ formEncode keep l ∧ 0x3d ∉ formEncode keep l := by
  constructor <;> intro hmem
  · rcases mem_formEncode hmem with h | h | h | ⟨n, hn, h⟩
    · rw [hkeep.ampersand] at h
      cases h
    · exact absurd h (by decide)
    · exact absurd h (by decide)
    · exact (hexByte_ne_separator hn).1 h.symm
  · rcases mem_formEncode hmem with h | h | h | ⟨n, hn, h⟩
    · rw [hkeep.equals] at h
      cases h
    · exact absurd h (by decide)
    · exact absurd h (by decide)
    · exact (hexByte_ne_separator hn).2 h.symm

theorem formPair_append {name value : List UInt8} (h : 0x3d ∉ name) :
    formPair (name ++ 0x3d :: value) = (name, value) := by
  have hne : ∀ b ∈ name, (decide (b ≠ 0x3d)) = true := by
    intro b hb
    simpa using fun heq : b = 0x3d => h (heq ▸ hb)
  rw [formPair, List.takeWhile_append_of_pos hne, List.dropWhile_append_of_pos hne]
  simp

/-- A form is taken apart where it was put together. -/
theorem formPairs_formText (hkeep : KeepsForm keep) (pairs : List (List UInt8 × List UInt8)) :
    formPairs (formText keep pairs) = pairs.map fun pair =>
    (formEncode keep pair.1, formEncode keep pair.2) := by
  cases pairs with
  | nil => rfl
  | cons first rest =>
    have hpieces : ∀ piece ∈ (first :: rest).map fun pair =>
      formEncode keep pair.1 ++ 0x3d :: formEncode keep pair.2,
        0x26 ∉ piece := by
      intro piece hpiece
      obtain ⟨pair, -, rfl⟩ := List.mem_map.mp hpiece
      simp only [List.mem_append, List.mem_cons, not_or]
      exact ⟨(separator_notMem_formEncode hkeep _).1, by decide,
        (separator_notMem_formEncode hkeep _).1⟩
    have hsome : ((first :: rest).map fun pair =>
      formEncode keep pair.1 ++ 0x3d :: formEncode keep pair.2).filter
        (· ≠ []) = (first :: rest).map fun pair =>
        formEncode keep pair.1 ++ 0x3d :: formEncode keep pair.2 := by
      refine List.filter_eq_self.mpr fun piece hpiece => ?_
      obtain ⟨pair, -, rfl⟩ := List.mem_map.mp hpiece
      simp
    rw [formPairs, formText, List.splitOn_intercalate 0x26 hpieces (by simp), hsome, List.map_map]
    exact List.map_congr_left fun pair _ => formPair_append (separator_notMem_formEncode hkeep _).2

end AgentJournal.Foundation
