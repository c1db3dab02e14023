import Mathlib.Data.List.Basic
import Mathlib.Data.Nat.Digits.Defs
import Mathlib.Order.Basic

/-! # Numerals of a fixed width

The numerals of a width, in any base and any digits, are ordered as the numbers they stand for.
-/

namespace AgentJournal.Foundation
variable {α : Type} {b : ℕ} {digit : ℕ → α} {j k m n : ℕ}

/-- The last `k` digits of a number. -/
def numeral (b : ℕ) (digit : ℕ → α) : ℕ → ℕ → List α
  | 0, _ => []
  | k + 1, n => numeral b digit k (n / b) ++ [digit (n % b)]

@[simp] theorem length_numeral : (numeral b digit k n).length = k := by
  induction k generalizing n with
  | zero => rfl
  | succ k ih => rw [numeral, List.length_append, ih, List.length_singleton]

theorem numeral_congr {digit' : ℕ → α} (hb : 0 < b) (h : ∀ i < b, digit i = digit' i) :
    numeral b digit k n = numeral b digit' k n := by
  induction k generalizing n with
  | zero => rfl
  | succ k ih => rw [numeral, numeral, ih, h _ (Nat.mod_lt _ hb)]

theorem numeral_add :
    numeral b digit (j + k) n = numeral b digit j (n / b ^ k) ++ numeral b digit k n := by
  induction k generalizing n with
  | zero => rw [Nat.add_zero, pow_zero, Nat.div_one, numeral, List.append_nil]
  | succ k ih =>
    rw [← Nat.add_assoc, numeral, ih, numeral, Nat.div_div_eq_div_mul, pow_succ', List.append_assoc]

theorem numeral_mod : numeral b digit k (n % b ^ k) = numeral b digit k n := by
  induction k generalizing n with
  | zero => rfl
  | succ k ih =>
    rw [numeral, numeral, pow_succ', Nat.mod_mul_right_div_self, ih, Nat.mod_mul_right_mod]

/-- What follows two texts of one length does not change their order. -/
theorem append_lt_append [LT α] {l l' : List α} (h : l < l') (hlength : l.length = l'.length)
    (x y : List α) :
    l ++ x < l' ++ y := by
  induction h with
  | nil => cases hlength
  | cons _ ih => exact List.Lex.cons (ih (Nat.succ.inj hlength))
  | rel h => exact List.Lex.rel h

theorem base_pos (h : n < b ^ (k + 1)) : 0 < b := by
  rcases Nat.eq_zero_or_pos b with rfl | hb
  · rw [zero_pow (Nat.succ_ne_zero k)] at h
    omega
  · exact hb

/-- With the digits in order, the numerals are. -/
theorem numeral_lt [LT α] (hdigit : ∀ i j, i < j → j < b → digit i < digit j) (h : n < m)
    (hm : m < b ^ k) :
    numeral b digit k n < numeral b digit k m := by
  induction k generalizing n m with
  | zero =>
    rw [pow_zero] at hm
    omega
  | succ k ih =>
    have hb : 0 < b := base_pos hm
    have hdiv : m / b < b ^ k := Nat.div_lt_of_lt_mul (by rwa [← pow_succ'])
    rw [numeral, numeral]
    rcases Nat.lt_or_ge (n / b) (m / b) with hlt | hge
    · exact append_lt_append (ih hlt hdiv) (by simp) _ _
    · have hsame : n / b = m / b := Nat.le_antisymm (Nat.div_le_div_right h.le) hge
      have hlast : n % b < m % b := by
        have hn := Nat.div_add_mod n b
        have hm := Nat.div_add_mod m b
        rw [hsame] at hn
        omega
      rw [hsame]
      exact List.append_left_lt (List.Lex.rel (hdigit _ _ hlast (Nat.mod_lt _ hb)))

/-- With digits that differ, so do the numerals. -/
theorem numeral_inj (hdigit : ∀ i j, i < b → j < b → digit i = digit j → i = j) (hn : n < b ^ k)
    (hm : m < b ^ k)
    (h : numeral b digit k n = numeral b digit k m) : n = m := by
  induction k generalizing n m with
  | zero =>
    rw [pow_zero] at hn hm
    omega
  | succ k ih =>
    have hb : 0 < b := base_pos hm
    obtain ⟨hfront, hlast⟩ := List.append_inj h (by simp)
    have hdiv :=
      ih (Nat.div_lt_of_lt_mul (by rwa [← pow_succ']))
      (Nat.div_lt_of_lt_mul (by rwa [← pow_succ'])) hfront
    have hmod := hdigit _ _ (Nat.mod_lt _ hb) (Nat.mod_lt _ hb) (List.cons.inj hlast).1
    rw [← Nat.div_add_mod n b, ← Nat.div_add_mod m b, hdiv, hmod]

theorem numeral_zero : numeral b digit k 0 = List.replicate k (digit 0) := by
  induction k with
  | zero => rfl
  | succ k ih => rw [numeral, Nat.zero_div, Nat.zero_mod, ih, List.replicate_succ']

/-- The numeral is the shortest one with zeros in front. -/
theorem numeral_eq_leftpad (hb : 1 < b) (hk : 1 ≤ k) (h : n < b ^ k) :
    numeral b Nat.digitChar k n = (Nat.toDigits b n).leftpad k '0' := by
  induction k generalizing n with
  | zero => omega
  | succ k ih =>
    rcases Nat.lt_or_ge n b with hsmall | hlarge
    · rw [numeral, Nat.div_eq_of_lt hsmall, Nat.mod_eq_of_lt hsmall, numeral_zero,
        Nat.toDigits_of_lt_base hsmall]
      rfl
    · have hdiv : n / b < b ^ k := Nat.div_lt_of_lt_mul (by rwa [← pow_succ'])
      have hpos : 1 ≤ k := by
        rcases k with _ | k
        · rw [Nat.zero_add, pow_one] at h
          omega
        · omega
      rw [numeral, ih hpos hdiv, Nat.toDigits_of_base_le hb hlarge]
      simp only [List.leftpad, List.length_append, List.length_singleton, List.append_assoc]
      congr 2
      omega

end AgentJournal.Foundation
