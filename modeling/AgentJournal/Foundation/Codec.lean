import AgentJournal.Foundation.Result
import Mathlib.Data.Int.Notation
import Mathlib.Data.List.Basic
import Mathlib.Data.Nat.Notation

/-! # Self-delimiting codecs

A codec writes a value as characters and reads it back from the front of any text. Codecs of
parts give the codec of the whole.
-/

namespace AgentJournal.Foundation
variable {α β : Type}

structure Codec (α : Type) where
  encode : α → List Char
  decode : List Char → Option (α × List Char)
  decode_encode : ∀ a rest, decode (encode a ++ rest) = some (a, rest)

namespace Codec

def print (C : Codec α) (a : α) : String := String.ofList (C.encode a)

def parse (C : Codec α) (text : String) : Option α := (C.decode text.toList).map (·.1)

theorem parse_print (C : Codec α) (a : α) : C.parse (C.print a) = some a := by
  have h := C.decode_encode a []
  rw [List.append_nil] at h
  simp [parse, print, h]

theorem print_injective (C : Codec α) : Function.Injective C.print := by
  intro a b h
  have hparse := congrArg C.parse h
  rw [parse_print, parse_print] at hparse
  exact Option.some.inj hparse

/-- A type read back from its code in another one. -/
def via (C : Codec β) (f : α → β) (g : β → Option α) (h : ∀ a, g (f a) = some a) : Codec α where
  encode a := C.encode (f a)
  decode text := do
    let (b, rest) ← C.decode text
    let a ← g b
    return (a, rest)
  decode_encode a rest := by simp [C.decode_encode, h]

def char : Codec Char where
  encode c := [c]
  decode
    | [] => none
    | c :: rest => some (c, rest)
  decode_encode _ _ := rfl

/-- The decimal digits of the number, closed by a colon. -/
def nat : Codec ℕ where
  encode n := Nat.toDigits 10 n ++ [':']
  decode text :=
    match text.dropWhile (· ≠ ':') with
    | [] => none
    | _ :: rest => some (Nat.ofDigitChars 10 (text.takeWhile (· ≠ ':')) 0, rest)
  decode_encode n rest := by
    have hdigits : ∀ c ∈ Nat.toDigits 10 n, decide (c ≠ ':') = true := by
      intro c hc
      have hdigit := Nat.isDigit_of_mem_toDigits (by decide) (by decide) hc
      exact decide_eq_true fun heq => by simp [heq] at hdigit
    rw [List.append_assoc, List.dropWhile_append_of_pos hdigits,
      List.takeWhile_append_of_pos hdigits]
    simp [Nat.ofDigitChars_toDigits]

def pair (C : Codec α) (D : Codec β) : Codec (α × β) where
  encode x := C.encode x.1 ++ D.encode x.2
  decode text := do
    let (a, rest) ← C.decode text
    let (b, rest) ← D.decode rest
    return ((a, b), rest)
  decode_encode x rest := by simp [List.append_assoc, C.decode_encode, D.decode_encode]

def decodeItems (C : Codec α) : ℕ → List Char → Option (List α × List Char)
  | 0, text => some ([], text)
  | n + 1, text => do
    let (a, rest) ← C.decode text
    let (items, rest) ← decodeItems C n rest
    return (a :: items, rest)

theorem decodeItems_encode (C : Codec α) (rest : List Char) : ∀ items : List α,
    decodeItems C items.length (items.flatMap C.encode ++ rest) = some (items, rest)
  | [] => rfl
  | a :: items => by
    rw [List.flatMap_cons, List.append_assoc, List.length_cons, decodeItems, C.decode_encode]
    simp [decodeItems_encode C rest items]

/-- The items behind their number. -/
def list (C : Codec α) : Codec (List α) where
  encode items := nat.encode items.length ++ items.flatMap C.encode
  decode text := do
    let (n, rest) ← nat.decode text
    decodeItems C n rest
  decode_encode items rest := by
    rw [List.append_assoc, nat.decode_encode]
    exact decodeItems_encode C rest items

def option (C : Codec α) : Codec (Option α) :=
  C.list.via Option.toList (fun l => some l.head?) fun x => by cases x <;> rfl

def string : Codec String :=
  char.list.via String.toList (fun l => some (String.ofList l)) fun s => by simp

def int : Codec ℤ :=
  (nat.pair nat).via (fun z => (z.toNat, (-z).toNat)) (fun x => some ((x.1 : ℤ) - x.2)) fun z => by
    simp only [Option.some.injEq]
    omega

def bool : Codec Bool :=
  nat.via Bool.toNat (fun n => some (decide (n = 1))) fun b => by cases b <;> rfl

/-- A finite enumeration by its position in a listing. -/
def enum [DecidableEq α] (all : List α) (h : ∀ a, a ∈ all) : Codec α :=
  nat.via all.idxOf (fun n => all[n]?) fun a => by
    rw [List.getElem?_idxOf (h a)]

end Codec
end AgentJournal.Foundation
