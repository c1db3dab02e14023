import AgentJournal.Domain.Text
import AgentJournal.Foundation.Lexer

/-! # The tokens of SQLite and the schema normaliser

The tokenizer of SQLite as its documentation gives it, character by character: every byte from
`0x80` on is one of an identifier, so a character beyond ASCII is too. Beside it the scanner that
the storage crate compares schemas with.
-/

namespace AgentJournal.Storage
open Domain Foundation

section Tokenizer

/-- `sqlite3Isspace`. -/
def isSqlSpace (c : Char) : Bool := (0x09 ≤ c.toNat && c.toNat ≤ 0x0d) || c.toNat = 0x20

def isSqlDigit (c : Char) : Bool := '0'.toNat ≤ c.toNat && c.toNat ≤ '9'.toNat

def isSqlLetter (c : Char) : Bool :=
  ('a'.toNat ≤ c.toNat && c.toNat ≤ 'z'.toNat) || ('A'.toNat ≤ c.toNat && c.toNat ≤ 'Z'.toNat)

def isSqlHex (c : Char) : Bool :=
  isSqlDigit c || ('a'.toNat ≤ c.toNat && c.toNat ≤ 'f'.toNat) ||
    ('A'.toNat ≤ c.toNat && c.toNat ≤ 'F'.toNat)

/-- `IdChar`. -/
def isIdChar (c : Char) : Bool :=
  isSqlDigit c || isSqlLetter c || c = '_' || c = '$' || 0x80 ≤ c.toNat

/-- How far a token of SQL is read. -/
inductive Lexeme where
  | space | minus | line | slash
  /-- `/*` with nothing behind it yet. -/
  | opened
  /-- Inside a block comment, and behind a star there. -/
  | block | star | comment
  | quoted (delimiter : Char)
  /-- Behind a delimiter, which ends the token or is doubled. -/
  | quote (delimiter : Char)
  | bracket | bracketed
  /-- An identifier or a keyword, and the letter that may begin a blob. -/
  | word | x
  | blob (even : Bool) | bytes
  | zero | hexMark | hex | digits | point | fraction | exponent | sign | power
  | arrow | equals | less | greater | bang | bar
  /-- Punctuation that nothing is added to. -/
  | symbol
  | illegal
deriving DecidableEq, Repr

/-- The punctuation of SQL. -/
def punctuation : List (Char × Lexeme) :=
  [('-', .minus), ('/', .slash), ('.', .point), ('=', .equals), ('<', .less), ('>', .greater),
    ('!', .bang), ('|', .bar), ('(', .symbol), (')', .symbol), (';', .symbol), ('+', .symbol),
    ('*', .symbol),
    ('%', .symbol), (',', .symbol), ('&', .symbol), ('~', .symbol)]

/-- A parameter begins an illegal token, as a schema cannot have one. -/
def Lexeme.start (c : Char) : Lexeme :=
  if c ∈ [' ', '\t', '\n', '\x0c', '\r'] then .space
  else if c ∈ ['\'', '"', '`'] then .quoted c
  else if c = '[' then .bracket
  else if isSqlDigit c then if c = '0' then .zero else .digits
  else if isSqlLetter c || c = '_' || 0x80 ≤ c.toNat then if c ∈ ['x', 'X'] then .x else .word
  else (punctuation.lookup c).getD .illegal

def goOn (condition : Bool) (q : Lexeme) : Option Lexeme := if condition then some q else none

/-- A number goes on with digits and separators, and is illegal with another character of a name. -/
def Lexeme.number (q : Lexeme) (c : Char) : Option Lexeme :=
  if isSqlDigit c || c = '_' then some q else goOn (isIdChar c) .illegal

def Lexeme.next : Lexeme → Char → Option Lexeme
  | .space, c => goOn (isSqlSpace c) .space
  | .minus, c => if c = '-' then some .line else goOn (c = '>') .arrow
  | .line, c => goOn (c ≠ '\n') .line
  | .slash, c => goOn (c = '*') .opened
  | .opened, c | .block, c => some (if c = '*' then .star else .block)
  | .star, c => some (if c = '/' then .comment else if c = '*' then .star else .block)
  | .comment, _ => none
  | .quoted d, c => some (if c = d then .quote d else .quoted d)
  | .quote d, c => goOn (c = d) (.quoted d)
  | .bracket, c => some (if c = ']' then .bracketed else .bracket)
  | .bracketed, _ => none
  | .word, c => goOn (isIdChar c) .word
  | .x, c => if c = '\'' then some (.blob true) else goOn (isIdChar c) .word
  | .blob even, c =>
    some (if isSqlHex c then .blob (!even) else if c = '\'' && even then .bytes else .illegal)
  | .bytes, _ => none
  | .zero, c =>
    if c ∈ ['x', 'X'] then some .hexMark
    else if c = '.' then some .fraction
    else if c ∈ ['e', 'E'] then some .exponent
    else Lexeme.number .digits c
  | .hexMark, c => goOn (isSqlHex c) .hex
  | .hex, c => if isSqlHex c then some .hex else Lexeme.number .hex c
  | .digits, c =>
    if c = '.' then some .fraction
    else if c ∈ ['e', 'E'] then some .exponent
    else Lexeme.number .digits c
  | .point, c => goOn (isSqlDigit c) .fraction
  | .fraction, c => if c ∈ ['e', 'E'] then some .exponent else Lexeme.number .fraction c
  | .exponent, c => if c ∈ ['+', '-'] then some .sign else goOn (isSqlDigit c) .power
  | .sign, c => goOn (isSqlDigit c) .power
  | .power, c => Lexeme.number .power c
  | .arrow, c => goOn (c = '>') .symbol
  | .equals, c => goOn (c = '=') .symbol
  | .less, c => goOn (c ∈ ['=', '>', '<']) .symbol
  | .greater, c => goOn (c ∈ ['=', '>']) .symbol
  | .bang, c => goOn (c = '=') .symbol
  | .bar, c => goOn (c = '|') .symbol
  | .symbol, _ | .illegal, _ => none

/-- The ends of tokens. `/*` at the end of a text is a slash and a star, which end no statement. -/
def Lexeme.legal : Lexeme → Bool
  | .opened | .quoted _ | .bracket | .blob _ | .hexMark | .exponent | .sign | .bang | .illegal =>
      false
  | _ => true

def sqlLexer : Lexer Char Lexeme := ⟨Lexeme.start, Lexeme.next⟩

@[simp] theorem goOn_eq_none {condition : Bool} {q : Lexeme} :
    goOn condition q = none ↔ condition = false := by
  simp [goOn]

/-- What SQLite can have in `sqlite_schema` has no illegal token. -/
def Storable (text : List Char) : Prop := ∀ x ∈ sqlLexer.tokens text, x.1.legal = true

end Tokenizer

section Normaliser

/-- Where the scanner of `normalize_schema_sql` is. -/
inductive Scan where
  | code
  | quoted (delimiter : Char)
  | block
  | line
  /-- Before a character that was peeked and is taken, kept or not. -/
  | peeked (keep : Bool) (after : Scan)
deriving DecidableEq, Repr

/-- The pending blank before a character that is kept. -/
def blank (whitespace started : Bool) : List Char := if whitespace && started then [' '] else []

/-- The loop of `normalize_schema_sql`; `started` says that the result is not empty. -/
def normalize : Scan → Bool → Bool → List Char → List Char
  | _, _, _, [] => []
  | .peeked keep after, whitespace, started, c :: characters =>
    (if keep then [c] else []) ++ normalize after whitespace started characters
  | .quoted d, whitespace, _, c :: characters =>
    c :: (if c = d then
      if characters.head? = some d then
        normalize (.peeked true (.quoted d)) whitespace true characters
      else normalize .code whitespace true characters
    else normalize (.quoted d) whitespace true characters)
  | .block, whitespace, started, c :: characters =>
    if c = '*' ∧ characters.head? = some '/' then
      normalize (.peeked false .code) true started characters
    else normalize .block whitespace started characters
  | .line, whitespace, started, c :: characters =>
    if c = '\n' then normalize .code true started characters
    else normalize .line whitespace started characters
  | .code, whitespace, started, c :: characters =>
    if c ∈ ['\'', '"', '`'] then
      blank whitespace started ++ c :: normalize (.quoted c) false true characters
    else if c = '[' then
      blank whitespace started ++ c :: normalize (.quoted ']') false true characters
    else if c = '/' ∧ characters.head? = some '*' then
      normalize (.peeked false .block) whitespace started characters
    else if c = '-' ∧ characters.head? = some '-' then
      normalize (.peeked false .line) whitespace started characters
    else if isWhitespace c then normalize .code true started characters
    else blank whitespace started ++ c :: normalize .code false true characters

end Normaliser

end AgentJournal.Storage
