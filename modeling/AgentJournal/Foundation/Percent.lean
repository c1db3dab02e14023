import Mathlib.Data.List.Basic
import Mathlib.Data.Nat.Notation

/-! # Percent encoding

Bytes that are not kept are written as a percent sign and two digits. A reader takes an escape back,
and leaves a percent sign that begins none.
-/

namespace AgentJournal.Foundation

/-- An uppercase digit. -/
def hexByte (n : ℕ) : UInt8 := UInt8.ofNat (if n < 10 then 0x30 + n else 0x37 + n)

def hexValue (b : UInt8) : Option ℕ :=
  if 0x30 ≤ b ∧ b ≤ 0x39 then some (b.toNat - 0x30)
  else if 0x41 ≤ b ∧ b ≤ 0x46 then some (b.toNat - 0x37)
  else if 0x61 ≤ b ∧ b ≤ 0x66 then some (b.toNat - 0x57)
  else none

def percentByte (keep : UInt8 → Bool) (b : UInt8) : List UInt8 :=
  if keep b then [b] else [0x25, hexByte (b.toNat / 16), hexByte (b.toNat % 16)]

def percentEncode (keep : UInt8 → Bool) (bytes : List UInt8) : List UInt8 :=
  bytes.flatMap (percentByte keep)

/-- The byte of two digits. -/
def octet (high low : UInt8) : Option UInt8 := do
  let h ← hexValue high
  let l ← hexValue low
  some (UInt8.ofNat (h * 16 + l))

def percentDecode : List UInt8 → List UInt8
  | b :: high :: low :: rest =>
    if b = 0x25 then
      match octet high low with
      | some byte => byte :: percentDecode rest
      | none => b :: percentDecode (high :: low :: rest)
    else b :: percentDecode (high :: low :: rest)
  | bytes => bytes

variable {keep : UInt8 → Bool} {a b : UInt8} {l rest : List UInt8}

theorem hexValue_hexByte {n : ℕ} (hn : n < 16) : hexValue (hexByte n) = some n := by
  have hall : ∀ i : Fin 16, hexValue (hexByte i) = some i.val := by decide
  exact hall ⟨n, hn⟩

theorem octet_hexByte (b : UInt8) :
    octet (hexByte (b.toNat / 16)) (hexByte (b.toNat % 16)) = some b := by
  have hb := b.toNat_lt
  have hsum : b.toNat / 16 * 16 + b.toNat % 16 = b.toNat := by omega
  simp only [octet, hexValue_hexByte (show b.toNat / 16 < 16 by omega),
    hexValue_hexByte (show b.toNat % 16 < 16 by omega), Option.bind_eq_bind, Option.bind_some, hsum,
    UInt8.ofNat_toNat]

/-- A byte that is no percent sign stands for itself. -/
theorem percentDecode_cons (hb : b ≠ 0x25) (rest : List UInt8) :
    percentDecode (b :: rest) = b :: percentDecode rest := by
  match rest with
  | [] => rfl
  | [_] => rfl
  | _ :: _ :: _ => rw [percentDecode, if_neg hb]

theorem percentDecode_escape {high low : UInt8} (h : octet high low = some b) (rest : List UInt8) :
    percentDecode (0x25 :: high :: low :: rest) = b :: percentDecode rest := by
  rw [percentDecode, if_pos rfl, h]

theorem percentDecode_percentByte (hkeep : keep 0x25 = false) (b : UInt8) (rest : List UInt8) :
    percentDecode (percentByte keep b ++ rest) = b :: percentDecode rest := by
  unfold percentByte
  split
  · rename_i hkept
    have hb : b ≠ 0x25 := by
      rintro rfl
      rw [hkeep] at hkept
      cases hkept
    exact percentDecode_cons hb rest
  · exact percentDecode_escape (octet_hexByte b) rest

/-- What was encoded is read back. -/
theorem percentDecode_percentEncode (hkeep : keep 0x25 = false) (l rest : List UInt8) :
    percentDecode (percentEncode keep l ++ rest) = l ++ percentDecode rest := by
  induction l with
  | nil => rfl
  | cons b l ih =>
    rw [percentEncode, List.flatMap_cons, List.append_assoc, percentDecode_percentByte hkeep]
    exact congrArg (b :: ·) ih

theorem percentEncode_append (l m : List UInt8) :
    percentEncode keep (l ++ m) = percentEncode keep l ++ percentEncode keep m :=
      List.flatMap_append

theorem percentEncode_cons (b : UInt8) (l : List UInt8) :
    percentEncode keep (b :: l) = percentByte keep b ++ percentEncode keep l := List.flatMap_cons ..

/-- The bytes of an encoding are kept ones, percent signs and digits. -/
theorem mem_percentByte (h : a ∈ percentByte keep b) :
    (a = b ∧ keep b = true) ∨ a = 0x25 ∨ ∃ n < 16, a = hexByte n := by
  have hb := b.toNat_lt
  unfold percentByte at h
  split at h
  · rename_i hkept
    exact .inl ⟨List.mem_singleton.mp h, hkept⟩
  · simp only [List.mem_cons, List.not_mem_nil, or_false] at h
    rcases h with h | h | h
    · exact .inr (.inl h)
    · exact .inr (.inr ⟨_, by omega, h⟩)
    · exact .inr (.inr ⟨_, by omega, h⟩)

theorem mem_percentEncode (h : a ∈ percentEncode keep l) :
    (a ∈ l ∧ keep a = true) ∨ a = 0x25 ∨ ∃ n < 16, a = hexByte n := by
  obtain ⟨b, hb, ha⟩ := List.mem_flatMap.mp h
  rcases mem_percentByte ha with ⟨rfl, hkept⟩ | h
  · exact .inl ⟨hb, hkept⟩
  · exact .inr h

/-- A byte that is neither a percent sign nor a digit comes from itself alone. -/
theorem notMem_percentEncode (hpercent : a ≠ 0x25) (hdigit : ∀ i : Fin 16, a ≠ hexByte i)
    (ha : a ∉ l ∨ keep a = false) :
    a ∉ percentEncode keep l := by
  intro hmem
  rcases mem_percentEncode hmem with ⟨hl, hkept⟩ | h | ⟨n, hn, h⟩
  · rcases ha with ha | ha
    · exact ha hl
    · rw [hkept] at ha
      cases ha
  · exact hpercent h
  · exact hdigit ⟨n, hn⟩ h

end AgentJournal.Foundation
