import AgentJournal.Domain.Wire
import AgentJournal.Foundation.Table
import Mathlib.Data.String.Basic
import Mathlib.Data.Prod.Lex
import Mathlib.Data.List.Lex
import Mathlib.Order.Lattice

/-! # Cells and the order of rows

A snapshot lists every security table by all of its columns, so two equal tables have one
listing. SQLite orders NULL before integers and integers before text.
-/

namespace AgentJournal.Storage

inductive Cell where
  | null
  | integer (value : ℤ)
  | text (value : String)
deriving DecidableEq, Repr

namespace Cell

def ofOption : Option String → Cell
  | none => .null
  | some value => .text value

def ofBool (b : Bool) : Cell := .integer (if b then 1 else 0)

def sortKey : Cell → ℕ ×ₗ ℤ ×ₗ String
  | null => toLex (0, toLex (0, ""))
  | integer v => toLex (1, toLex (v, ""))
  | text v => toLex (2, toLex (0, v))

theorem sortKey_injective : Function.Injective sortKey := by
  intro a b h
  cases a <;> cases b <;> simp_all [sortKey, Prod.ext_iff]

instance : LinearOrder Cell := LinearOrder.lift' sortKey sortKey_injective

@[simp] theorem ofOption_inj {a b : Option String} : ofOption a = ofOption b ↔ a = b := by
  cases a <;> cases b <;> simp [ofOption]

@[simp] theorem ofBool_inj {a b : Bool} : ofBool a = ofBool b ↔ a = b := by
  cases a <;> cases b <;> simp [ofBool]

end Cell

/-- A row type with its columns in table order. -/
class Row (α : Type) where
  cells : α → List Cell
  cells_injective : Function.Injective cells

/-- `SELECT * FROM t ORDER BY 1,2,..`. -/
def ordered {α : Type} [Row α] (rows : List α) : List α :=
  rows.insertionSort fun a b => Row.cells a ≤ Row.cells b

theorem ordered_perm {α : Type} [Row α] (rows : List α) : (ordered rows).Perm rows :=
  List.perm_insertionSort _ rows

@[simp] theorem mem_ordered {α : Type} [Row α] {rows : List α} {r : α} :
    r ∈ ordered rows ↔ r ∈ rows := (ordered_perm rows).mem_iff

/-- Two tables with the same rows have the same listing. -/
theorem ordered_eq_of_perm {α : Type} [Row α] {a b : List α} (h : a.Perm b) :
    ordered a = ordered b := by
  have : IsTrans α fun a b => Row.cells a ≤ Row.cells b := ⟨fun _ _ _ => le_trans⟩
  have : Std.Total fun a b : α => Row.cells a ≤ Row.cells b := ⟨fun _ _ => le_total _ _⟩
  have hp : (ordered a).Perm (ordered b) :=
    (ordered_perm a).trans (h.trans (ordered_perm b).symm)
  refine hp.eq_of_pairwise ?_ (List.pairwise_insertionSort _ a) (List.pairwise_insertionSort _ b)
  intro x y _ _ hxy hyx
  exact Row.cells_injective (le_antisymm hxy hyx)

end AgentJournal.Storage
