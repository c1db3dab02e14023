import Mathlib.Data.List.Basic
import Mathlib.Data.Nat.Notation

/-! # UTF-8 and its ASCII bytes

A byte below 128 in an encoded text is a character of its own, so a text can be cut at such a byte
before it is decoded or after.
-/

namespace AgentJournal.Foundation

/-- The bytes of a text. -/
def utf8 (text : List Char) : List UInt8 := text.flatMap String.utf8EncodeChar

variable {c : Char} {b : UInt8} {text : List Char}

theorem utf8_cons (c : Char) (text : List Char) :
    utf8 (c :: text) = String.utf8EncodeChar c ++ utf8 text :=
  List.flatMap_cons ..

theorem utf8_append (text rest : List Char) : utf8 (text ++ rest) = utf8 text ++ utf8 rest :=
  List.flatMap_append

/-- A character takes at least one byte. -/
theorem length_le_utf8 (text : List Char) : text.length ≤ (utf8 text).length := by
  induction text with
  | nil => simp
  | cons c text ih =>
    have hc := c.utf8Size_pos
    rw [utf8_cons, List.length_append, String.length_utf8EncodeChar, List.length_cons]
    omega

/-- A character is one byte below 128 or has only bytes from there on. -/
theorem utf8EncodeChar_cases (c : Char) :
    (c.toNat < 128 ∧ String.utf8EncodeChar c = [UInt8.ofNat c.toNat]) ∨
      ∀ b ∈ String.utf8EncodeChar c, 0x80 ≤ b := by
  have hbyte : ∀ m k n : ℕ, 0 < k → 128 ≤ n → k + n ≤ 256 → 0x80 ≤ UInt8.ofNat (m % k + n) := by
    intro m k n hk hn hsum
    have hmod := Nat.mod_lt m hk
    rw [UInt8.le_iff_toNat_le, UInt8.toNat_ofNat', Nat.mod_eq_of_lt (by omega)]
    exact Nat.le_add_left_of_le hn
  fun_cases String.utf8EncodeChar c
  · rename_i v h
    exact .inl ⟨Nat.lt_succ_of_le h, rfl⟩
  all_goals
    refine .inr fun b hb => ?_
    simp only [List.mem_cons, List.not_mem_nil, or_false] at hb
  · rcases hb with rfl | rfl <;> exact hbyte _ _ _ (by decide) (by decide) (by decide)
  · rcases hb with rfl | rfl | rfl <;> exact hbyte _ _ _ (by decide) (by decide) (by decide)
  · rcases hb with rfl | rfl | rfl | rfl <;> exact hbyte _ _ _ (by decide) (by decide) (by decide)

theorem utf8EncodeChar_low (hb : b < 0x80) (h : b ∈ String.utf8EncodeChar c) :
    String.utf8EncodeChar c = [b] ∧ c.toNat = b.toNat := by
  rcases utf8EncodeChar_cases c with ⟨hc, hbytes⟩ | hhigh
  · rw [hbytes, List.mem_singleton] at h
    subst h
    refine ⟨hbytes, ?_⟩
    rw [UInt8.toNat_ofNat', Nat.mod_eq_of_lt (by omega)]
  · exact absurd (hhigh b h) (UInt8.not_le.mpr hb)

/-- Where a byte below 128 stands, the text has that character. -/
theorem utf8_split {before after : List UInt8} (hb : b < 0x80)
    (h : utf8 text = before ++ b :: after) :
    ∃ left c right, text = left ++ c :: right ∧ c.toNat = b.toNat ∧ before = utf8 left ∧
    after = utf8 right := by
  induction text generalizing before with
  | nil => simp [utf8] at h
  | cons d text ih =>
    rw [utf8_cons] at h
    have hrest : ∀ tail, before = String.utf8EncodeChar d ++ tail → utf8 text = tail ++ b :: after →
        ∃ left c right, d :: text = left ++ c :: right ∧ c.toNat = b.toNat ∧ before = utf8 left ∧
          after = utf8 right := by
      rintro tail rfl htail
      obtain ⟨left, c, right, rfl, hc, rfl, rfl⟩ := ih htail
      exact ⟨d :: left, c, right, rfl, hc, (utf8_cons d left).symm, rfl⟩
    rcases List.append_eq_append_iff.mp h with ⟨tail, hbefore, htail⟩ | ⟨head, hd, hhead⟩
    · exact hrest tail hbefore htail
    · cases head with
      | nil => exact hrest [] (by simpa using hd.symm) hhead.symm
      | cons a head =>
        obtain ⟨rfl, hafter⟩ := List.cons.inj hhead
        obtain ⟨hsingle, hnat⟩ := utf8EncodeChar_low hb (hd ▸ by simp : b ∈ String.utf8EncodeChar d)
        rw [hsingle] at hd
        cases before with
        | nil =>
          obtain ⟨-, rfl⟩ := List.cons.inj hd
          exact ⟨[], d, text, rfl, hnat, rfl, hafter⟩
        | cons => simp at hd

end AgentJournal.Foundation
