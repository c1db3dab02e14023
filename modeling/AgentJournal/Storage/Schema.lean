import AgentJournal.Storage.Tokens
import Mathlib.Data.Bool.AllAny
import Mathlib.Data.List.Sort
import Mathlib.Data.Prod.Lex
import Mathlib.Data.String.Basic

/-! # Schema admission

The normal form of a schema text keeps the tokens that SQLite finds in it, as long as no identifier
has a blank beyond ASCII.
-/

namespace AgentJournal.Storage
open Domain Foundation

variable {whitespace started : Bool} {f : Lexeme} {t rest : List Char}

section Steps

attribute [local simp] Lexeme.next normalize

end Steps

section Tokens

end Tokens

section Dense

/-- The states of tokens without quotes, blanks and comments. -/
def Lexeme.dense : Lexeme → Bool
  | .space | .line | .opened | .block | .star | .comment
  | .quoted _ | .quote _ | .bracket | .bracketed
  | .blob _ | .bytes | .illegal => false
  | _ => true

end Dense

section Texts

end Texts

section Verify

/-- A row of `sqlite_schema`. -/
@[ext]
structure SchemaRow where
  objectType : String
  name : String
  tableName : String
  sql : Option String
deriving DecidableEq, Repr

def currentSchemaVersion : ℤ := 13

/-- `ORDER BY type,name,tbl_name`. -/
def SchemaRow.position (r : SchemaRow) : String ×ₗ String ×ₗ String :=
  toLex (r.objectType, toLex (r.name, r.tableName))

end Verify

end AgentJournal.Storage
