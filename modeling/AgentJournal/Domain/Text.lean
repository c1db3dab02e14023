import AgentJournal.Foundation.Result
import Mathlib.Data.Int.Notation
import Mathlib.Data.List.Basic
import Mathlib.Data.List.TakeWhile

/-! # Text as the program and SQLite count it -/

namespace AgentJournal.Domain

/-- `str::as_bytes`. -/
def asBytes (s : String) : List UInt8 := s.toUTF8.data.toList

/-- `str::chars().count()`. -/
def charCount (s : String) : ℕ := s.toList.length

/-- `char::is_control`, the general category Cc. -/
def isControl (c : Char) : Bool := c.toNat < 0x20 || (0x7f ≤ c.toNat && c.toNat < 0xa0)

/-- `char::is_whitespace`, the Unicode White_Space property. -/
def isWhitespace (c : Char) : Bool :=
  (0x09 ≤ c.toNat && c.toNat ≤ 0x0d) || (0x2000 ≤ c.toNat && c.toNat ≤ 0x200a) ||
    c.toNat ∈ [0x20, 0x85, 0xa0, 0x1680, 0x2028, 0x2029, 0x202f, 0x205f, 0x3000]

/-- `str::trim`. -/
def trim (s : String) : String :=
  String.ofList (((s.toList.dropWhile isWhitespace).reverse.dropWhile isWhitespace).reverse)

/-- SQLite's `length` of a text stops at the first NUL. -/
def sqlChars (s : String) : List Char := s.toList.takeWhile (· ≠ '\x00')

def sqlLength (s : String) : ℕ := (sqlChars s).length

def hexDigits : List Char :=
  ['0', '1', '2', '3', '4', '5', '6', '7', '8', '9', 'a', 'b', 'c', 'd', 'e', 'f']

def hexDigit (n : ℕ) : Char := hexDigits.getD n '0'

/-- Two lowercase digits for each byte. -/
def hexChars (bytes : List UInt8) : List Char :=
  bytes.flatMap fun b => [hexDigit (b.toNat / 16), hexDigit (b.toNat % 16)]

def hex (bytes : List UInt8) : String := String.ofList (hexChars bytes)

/-- `b.is_ascii_hexdigit()` on a byte of the text. -/
def isAsciiHexdigit (b : UInt8) : Bool :=
  (0x30 ≤ b && b ≤ 0x39) || (0x61 ≤ b && b ≤ 0x66) || (0x41 ≤ b && b ≤ 0x46)

/-- `b.is_ascii_digit() || (b'a'..=b'f').contains(b)`. -/
def isLowerHexdigit (b : UInt8) : Bool := (0x30 ≤ b && b ≤ 0x39) || (0x61 ≤ b && b ≤ 0x66)

theorem asBytes_ofList (l : List Char) :
    asBytes (String.ofList l) = l.flatMap String.utf8EncodeChar := by
  simp only [asBytes, String.toUTF8_eq_toByteArray, String.toByteArray_ofList, List.utf8Encode,
    List.data_toByteArray]

theorem utf8EncodeChar_ascii {c : Char} (hc : c.toNat < 128) :
    String.utf8EncodeChar c = [UInt8.ofNat c.toNat] := by
  have hsize : c.utf8Size = 1 :=
    Char.utf8Size_eq_one_iff.mpr (UInt32.le_iff_toNat_le.mpr (by simpa using by omega))
  rw [String.utf8EncodeChar_eq_singleton hsize]
  rfl

/-- One byte for each character. -/
theorem asBytes_ascii {l : List Char} (h : ∀ c ∈ l, c.toNat < 128) :
    asBytes (String.ofList l) = l.map fun c => UInt8.ofNat c.toNat := by
  rw [asBytes_ofList]
  induction l with
  | nil => rfl
  | cons c l ih =>
    rw [List.flatMap_cons, utf8EncodeChar_ascii (h c List.mem_cons_self),
      ih fun d hd => h d (List.mem_cons_of_mem _ hd)]
    rfl

/-- A hexadecimal digit is one lowercase byte. -/
theorem hexDigit_byte {n : ℕ} (hn : n < 16) :
    ∃ b, String.utf8EncodeChar (hexDigit n) = [b] ∧ isLowerHexdigit b = true := by
  have hall : ∀ i : Fin 16, (String.utf8EncodeChar (hexDigit i)).length = 1 ∧
      (String.utf8EncodeChar (hexDigit i)).all isLowerHexdigit = true := by decide
  obtain ⟨hlength, hdigit⟩ := hall ⟨n, hn⟩
  obtain ⟨b, hb⟩ := List.length_eq_one_iff.mp hlength
  simp only at hb hdigit
  rw [hb] at hdigit
  exact ⟨b, hb, by simpa using hdigit⟩

theorem asBytes_hex (bytes : List UInt8) : (asBytes (hex bytes)).length = 2 * bytes.length ∧
    (asBytes (hex bytes)).all isLowerHexdigit = true := by
  unfold hex
  rw [asBytes_ofList]
  induction bytes with
  | nil => exact ⟨rfl, rfl⟩
  | cons b bytes ih =>
    have hb := b.toNat_lt
    obtain ⟨x, hx, hxdigit⟩ := hexDigit_byte (n := b.toNat / 16) (by omega)
    obtain ⟨y, hy, hydigit⟩ := hexDigit_byte (n := b.toNat % 16) (by omega)
    obtain ⟨hlength, hdigits⟩ := ih
    simp only [hexChars, List.flatMap_cons, List.flatMap_append, List.flatMap_nil, hx,
      hy] at hlength hdigits ⊢
    constructor
    · simp [hlength]
      omega
    · simp [hxdigit, hydigit, hdigits]

theorem hexChars_length (bytes : List UInt8) : (hexChars bytes).length = 2 * bytes.length := by
  induction bytes with
  | nil => rfl
  | cons b bytes ih =>
    simp only [hexChars, List.flatMap_cons] at ih ⊢
    simp [ih]
    omega

/-- The first digit of each byte. -/
theorem hexChars_high (bytes : List UInt8) (i : ℕ) :
    (hexChars bytes)[2 * i]? = bytes[i]?.map fun b => hexDigit (b.toNat / 16) := by
  induction bytes generalizing i with
  | nil => simp [hexChars]
  | cons b bytes ih =>
    cases i with
    | zero => simp [hexChars]
    | succ i =>
      have hrest := ih i
      simp only [hexChars, List.flatMap_cons] at hrest ⊢
      rw [Nat.mul_succ]
      simpa using hrest

theorem nul_notMem_hexChars (bytes : List UInt8) : '\x00' ∉ hexChars bytes := by
  have hdigit : ∀ i : Fin 16, hexDigit i ≠ '\x00' := by decide
  intro hmem
  simp only [hexChars, List.mem_flatMap, List.mem_cons, List.not_mem_nil, or_false] at hmem
  obtain ⟨b, -, heq⟩ := hmem
  have hb := b.toNat_lt
  rcases heq with heq | heq
  · exact hdigit ⟨b.toNat / 16, by omega⟩ heq.symm
  · exact hdigit ⟨b.toNat % 16, by omega⟩ heq.symm

/-- Without a NUL, SQLite sees the whole text. -/
theorem sqlChars_of_notMem {s : String} (h : '\x00' ∉ s.toList) : sqlChars s = s.toList := by
  unfold sqlChars
  rw [List.takeWhile_eq_self_iff]
  intro x hx
  have hne : x ≠ '\x00' := fun heq => h (heq ▸ hx)
  simpa using hne

theorem sqlLength_le (s : String) : sqlLength s ≤ charCount s := (List.takeWhile_prefix _).length_le

end AgentJournal.Domain
