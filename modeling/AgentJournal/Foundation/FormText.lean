import AgentJournal.Foundation.Form
import AgentJournal.Foundation.Utf8

/-! # Forms of texts

A form is checked as one text and decoded piece by piece. No escape and no character reaches over a
separator, so the check of the whole is the check of its pieces.
-/

namespace AgentJournal.Foundation

/-- The bytes of some characters. -/
def IsText (bytes : List UInt8) : Prop := ∃ text : List Char, bytes = utf8 text

variable {b c : UInt8} {x y l : List UInt8}

theorem isText_nil : IsText [] := ⟨[], rfl⟩

theorem octet_left (h : hexValue c = none) (b : UInt8) : octet c b = none := by
  simp [octet, h]

theorem octet_right (h : hexValue c = none) (b : UInt8) : octet b c = none := by
  simp [octet, h]

theorem percentDecode_literal {high low : UInt8} (h : octet high low = none) (rest : List UInt8) :
    percentDecode (0x25 :: high :: low :: rest) = 0x25 :: percentDecode (high :: low :: rest) := by
  rw [percentDecode, if_pos rfl, h]

/-- No escape reaches over a byte that is neither a percent sign nor a digit. -/
theorem percentDecode_separator (hpercent : c ≠ 0x25) (hdigit : hexValue c = none)
    (l rest : List UInt8) :
    percentDecode (l ++ c :: rest) = percentDecode l ++ c :: percentDecode rest := by
  have hone : ∀ a, percentDecode (a :: c :: rest) = a :: c :: percentDecode rest := by
    intro a
    by_cases ha : a = 0x25
    · subst ha
      cases rest with
      | nil => rfl
      | cons d rest => rw [percentDecode_literal (octet_left hdigit d), percentDecode_cons hpercent]
    · rw [percentDecode_cons ha, percentDecode_cons hpercent]
  fun_induction percentDecode l with
  | case1 high low tail byte h ih =>
    exact (percentDecode_escape h _).trans (congrArg (byte :: ·) ih)
  | case2 high low tail h ih =>
    exact (percentDecode_literal h _).trans (congrArg (0x25 :: ·) ih)
  | case3 a high low tail ha ih =>
    exact (percentDecode_cons ha _).trans (congrArg (a :: ·) ih)
  | case4 l hshort =>
    cases l with
    | nil => exact percentDecode_cons hpercent rest
    | cons a l =>
      cases l with
      | nil => exact hone a
      | cons b l =>
        cases l with
        | nil =>
          by_cases ha : a = 0x25
          · subst ha
            exact (percentDecode_literal (octet_right hdigit b) rest).trans
              (congrArg (0x25 :: ·) (hone b))
          · exact (percentDecode_cons ha _).trans (congrArg (a :: ·) (hone b))
        | cons d l => exact absurd rfl (hshort a b d l)

/-- A text is cut at an ASCII byte into two texts. -/
theorem isText_append_cons (hb : b < 0x80) : IsText (x ++ b :: y) ↔ IsText x ∧ IsText y := by
  constructor
  · rintro ⟨text, htext⟩
    obtain ⟨left, -, right, -, -, hleft, hright⟩ := utf8_split hb htext.symm
    exact ⟨⟨left, hleft⟩, ⟨right, hright⟩⟩
  · rintro ⟨⟨left, rfl⟩, ⟨right, rfl⟩⟩
    have hlow : b.toNat < 128 := UInt8.lt_iff_toNat_lt.mp hb
    have hvalid : b.toNat.isValidChar := .inl (by omega)
    have hnat : (Char.ofNat b.toNat).toNat = b.toNat := by
      rw [Char.ofNat, dif_pos hvalid]
      rfl
    have hsingle : String.utf8EncodeChar (Char.ofNat b.toNat) = [b] := by
      rw [String.utf8EncodeChar]
      have hval : (Char.ofNat b.toNat).val.toNat = b.toNat := hnat
      simp only [hval]
      rw [if_pos (by omega), UInt8.ofNat_toNat]
    refine ⟨left ++ Char.ofNat b.toNat :: right, ?_⟩
    rw [utf8_append, utf8_cons, hsingle]
    rfl

/-- The pieces around a separator are checked apart. -/
theorem isText_separator (hlow : c < 0x80) (hpercent : c ≠ 0x25) (hdigit : hexValue c = none) :
    IsText (percentDecode (x ++ c :: y)) ↔ IsText (percentDecode x) ∧ IsText (percentDecode y) := by
  rw [percentDecode_separator hpercent hdigit, isText_append_cons hlow]

theorem isText_formDecode (l : List UInt8) : IsText (formDecode l) ↔ IsText (percentDecode l) := by
  induction hn : l.length using Nat.strong_induction_on generalizing l with
  | _ n ih =>
    by_cases h : 0x2b ∈ l
    · obtain ⟨x, y, rfl, hx⟩ := List.eq_append_cons_of_mem h
      have hy := ih y.length (by simp at hn; omega) y rfl
      rw [formDecode] at hy
      rw [formDecode, List.map_append, List.map_cons, map_plusToBlank hx, show plusToBlank 0x2b =
        0x20 from rfl, isText_separator (by decide) (by decide)
        (by decide), isText_separator (by decide) (by decide) (by decide), hy]
    · rw [formDecode, map_plusToBlank h]

theorem isText_splitOn (l : List UInt8) :
    IsText (percentDecode l) ↔ ∀ piece ∈ l.splitOn 0x26, IsText (percentDecode piece) := by
  induction hn : l.length using Nat.strong_induction_on generalizing l with
  | _ n ih =>
    by_cases h : 0x26 ∈ l
    · obtain ⟨x, y, rfl, hx⟩ := List.eq_append_cons_of_mem h
      have hy := ih y.length (by simp at hn; omega) y rfl
      rw [List.splitOn_append_cons_self_of_not_mem hx,
        isText_separator (by decide) (by decide) (by decide), hy, List.forall_mem_cons]
    · rw [List.splitOn_eq_singleton h, List.forall_mem_singleton]

theorem isText_formPair (piece : List UInt8) :
    IsText (percentDecode piece) ↔
      IsText (formDecode (formPair piece).1) ∧ IsText (formDecode (formPair piece).2) := by
  rw [isText_formDecode, isText_formDecode]
  by_cases h : 0x3d ∈ piece
  · obtain ⟨x, y, rfl, hx⟩ := List.eq_append_cons_of_mem h
    rw [formPair_append hx, isText_separator (by decide) (by decide) (by decide)]
  · have hne : ∀ b ∈ piece, (decide (b ≠ 0x3d)) = true := by
      intro b hb
      simpa using fun heq : b = 0x3d => h (heq ▸ hb)
    have hwhole : formPair piece = (piece, []) := by
      rw [formPair, List.takeWhile_eq_self_iff.mpr hne, List.dropWhile_eq_nil_iff.mpr hne]
      rfl
    rw [hwhole]
    exact ⟨fun htext => ⟨htext, isText_nil⟩, And.left⟩

/-- A form decodes to a text exactly when every name and every value in it does. -/
theorem isText_formPairs (l : List UInt8) :
    IsText (percentDecode l) ↔
      ∀ pair ∈ formPairs l, IsText (formDecode pair.1) ∧ IsText (formDecode pair.2) := by
  rw [isText_splitOn, formPairs, List.forall_mem_map]
  constructor
  · intro h piece hpiece
    exact (isText_formPair piece).mp (h piece (List.mem_filter.mp hpiece).1)
  · intro h piece hpiece
    by_cases hne : piece = []
    · subst hne
      exact isText_nil
    · exact (isText_formPair piece).mpr (h piece (List.mem_filter.mpr ⟨hpiece, decide_eq_true hne⟩))

end AgentJournal.Foundation
