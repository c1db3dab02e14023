import Mathlib.Data.List.Basic

/-! # Markup

A strict reader of tags and escaped text, one character at a time, and the nesting of what it has
read. Text that is contained opens and closes its own elements only.
-/

namespace AgentJournal.Foundation

inductive Token where
  | char (c : Char)
  | opening (name : List Char) (attributes : List (List Char × List Char))
  | closing (name : List Char)
deriving DecidableEq

/-- Where the reader stands. -/
inductive Reading where
  | ground
  | entity (name : List Char)
  | tag
  | opening (name : List Char)
  | closing (name : List Char)
  | key (name : List Char) (attributes : List (List Char × List Char)) (key : List Char)
  | equals (name : List Char) (attributes : List (List Char × List Char)) (key : List Char)
  | value (name : List Char) (attributes : List (List Char × List Char)) (key text : List Char)
  | valueEntity (name : List Char) (attributes : List (List Char × List Char))
      (key text entity : List Char)
  | afterValue (name : List Char) (attributes : List (List Char × List Char))
deriving DecidableEq

def entityChar : List Char → Option Char
  | ['a', 'm', 'p'] => some '&'
  | ['l', 't'] => some '<'
  | ['g', 't'] => some '>'
  | ['q', 'u', 'o', 't'] => some '"'
  | ['#', '3', '9'] => some '\''
  | _ => none

def isNameChar (c : Char) : Bool := c.isLower || c.isDigit

/-- The characters that stand for themselves neither in text nor in a value. -/
def isSpecial (c : Char) : Bool := c ∈ ['&', '<', '>', '"', '\'']

def readChar : Reading → Char → Option (Reading × List Token)
  | .ground, c =>
    if c = '<' then some (.tag, [])
    else if c = '&' then some (.entity [], [])
    else if isSpecial c then none
    else some (.ground, [.char c])
  | .entity name, c =>
    if c = ';' then (entityChar name).map fun decoded => (.ground, [.char decoded])
    else some (.entity (name ++ [c]), [])
  | .tag, c =>
    if c = '/' then some (.closing [], [])
    else if isNameChar c then some (.opening [c], [])
    else none
  | .opening name, c =>
    if c = '>' then some (.ground, [.opening name []])
    else if c = ' ' then some (.key name [] [], [])
    else if isNameChar c then some (.opening (name ++ [c]), [])
    else none
  | .closing name, c =>
    if c = '>' then (if name = [] then none else some (.ground, [.closing name]))
    else if isNameChar c then some (.closing (name ++ [c]), [])
    else none
  | .key name attributes key, c =>
    if c = '=' then some (.equals name attributes key, [])
    else if isNameChar c then some (.key name attributes (key ++ [c]), [])
    else none
  | .equals name attributes key, c =>
    if c = '"' then some (.value name attributes key [], [])
    else none
  | .value name attributes key text, c =>
    if c = '"' then some (.afterValue name (attributes ++ [(key, text)]), [])
    else if c = '&' then some (.valueEntity name attributes key text [], [])
    else if isSpecial c then none
    else some (.value name attributes key (text ++ [c]), [])
  | .valueEntity name attributes key text entity, c =>
    if c = ';' then
      (entityChar entity).map fun decoded => (.value name attributes key (text ++ [decoded]), [])
    else some (.valueEntity name attributes key text (entity ++ [c]), [])
  | .afterValue name attributes, c =>
    if c = '>' then some (.ground, [.opening name attributes])
    else if c = ' ' then some (.key name attributes [], [])
    else none

def readText : Reading → List Char → Option (Reading × List Token)
  | s, [] => some (s, [])
  | s, c :: text => do
    let (s', tokens) ← readChar s c
    let (s'', rest) ← readText s' text
    return (s'', tokens ++ rest)

/-- Between tags before and after. -/
def Tokenizes (text : List Char) (tokens : List Token) : Prop :=
  readText .ground text = some (.ground, tokens)

instance (text : List Char) (tokens : List Token) :
    Decidable (Tokenizes text tokens) := inferInstanceAs (Decidable (_ = _))

section Reader
variable {s s' s'' : Reading} {a b text : List Char} {t u : List Token} {c : Char}

theorem readText_append (ha : readText s a = some (s', t)) (hb : readText s' b = some (s'', u)) :
    readText s (a ++ b) = some (s'', t ++ u) := by
  induction a generalizing s t with
  | nil =>
    cases ha
    exact hb
  | cons c a ih =>
    simp only [readText, Option.bind_eq_bind, Option.bind_eq_some_iff, Option.pure_def,
      Option.some.injEq] at ha
    obtain ⟨⟨s₁, t₁⟩, hc, ⟨s₂, t₂⟩, hrest, hsum⟩ := ha
    obtain ⟨rfl, rfl⟩ := Prod.mk.inj hsum
    simp only [List.cons_append, readText, hc, ih hrest, Option.bind_eq_bind, Option.bind_some,
      Option.pure_def, List.append_assoc]

theorem Tokenizes.append (ha : Tokenizes a t) (hb : Tokenizes b u) :
    Tokenizes (a ++ b) (t ++ u) := readText_append ha hb

theorem reads_nil : Tokenizes [] [] := rfl

theorem not_special (h : isSpecial c = false) : c ≠ '&' ∧ c ≠ '<' ∧ c ≠ '"' := by
  refine ⟨?_, ?_, ?_⟩ <;> rintro rfl <;> simp [isSpecial] at h

/-- A character that is not special stands for itself. -/
theorem reads_plain (h : isSpecial c = false) : Tokenizes [c] [.char c] := by
  obtain ⟨hamp, hopen, -⟩ := not_special h
  simp [Tokenizes, readText, readChar, hamp, hopen, h]

theorem readText_value_plain {name key v : List Char} {attributes : List (List Char × List Char)}
    (h : isSpecial c = false) :
    readText (.value name attributes key v)
    [c] = some (.value name attributes key (v ++ [c]), []) := by
  obtain ⟨hamp, -, hquote⟩ := not_special h
  simp [readText, readChar, hamp, hquote, h]

end Reader

section Nesting
variable {void : List Char → Bool}

/-- The elements that are open after a token. -/
def nest (void : List Char → Bool) : List (List Char) → Token → Option (List (List Char))
  | stack, .char _ => some stack
  | stack, .opening name _ => if void name then some stack else some (name :: stack)
  | top :: stack, .closing name => if top = name then some stack else none
  | [], .closing _ => none

/-- Every element that is opened is closed, in order, and no other. -/
def Balanced (void : List Char → Bool) (tokens : List Token) : Prop :=
  ∀ stack, tokens.foldlM (nest void) stack = some stack

variable {a b : List Token} {name : List Char} {attributes : List (List Char × List Char)}
  {stack opened : List (List Char)}

theorem Balanced.nil : Balanced void [] := fun _ => rfl

theorem Balanced.append (ha : Balanced void a) (hb : Balanced void b) : Balanced void (a ++ b) := by
  intro stack
  rw [List.foldlM_append, ha stack]
  exact hb stack

theorem Balanced.char (c : Char) : Balanced void [.char c] := fun _ => rfl

theorem Balanced.single (h : void name = true) : Balanced void [.opening name attributes] := by
  intro stack
  simp [nest, h]

theorem Balanced.element (h : void name = false) (ha : Balanced void a) :
    Balanced void (.opening name attributes :: (a ++ [.closing name])) := by
  intro stack
  rw [List.foldlM_cons, nest, h]
  simp only [Bool.false_eq_true, if_false, Option.bind_eq_bind, Option.bind_some]
  rw [List.foldlM_append, ha (name :: stack)]
  simp [nest]

/-- What is open below does not matter to what was read without it. -/
theorem foldlM_nest_below (h : a.foldlM (nest void) stack = some opened)
    (below : List (List Char)) :
    a.foldlM (nest void) (stack ++ below) = some (opened ++ below) := by
  induction a generalizing stack with
  | nil =>
    cases h
    rfl
  | cons token a ih =>
    rw [List.foldlM_cons, Option.bind_eq_bind, Option.bind_eq_some_iff] at h
    obtain ⟨next, hnext, hrest⟩ := h
    have hstep : nest void (stack ++ below) token = some (next ++ below) := by
      cases token with
      | char c =>
        cases hnext
        rfl
      | opening name attributes =>
        simp only [nest] at hnext ⊢
        split at hnext <;> cases hnext
        · rw [if_pos ‹_›]
        · rw [if_neg ‹_›, List.cons_append]
      | closing name =>
        cases stack with
        | nil => cases hnext
        | cons top stack =>
          simp only [nest, List.cons_append] at hnext ⊢
          split at hnext <;> cases hnext
          rw [if_pos ‹_›]
    rw [List.foldlM_cons, hstep]
    exact ih hrest

/-- What is open was open before or has been opened. -/
theorem mem_of_foldlM_nest (h : a.foldlM (nest void) stack = some opened) :
    ∀ n ∈ opened, n ∈ stack ∨ ∃ attributes, .opening n attributes ∈ a := by
  induction a generalizing stack with
  | nil =>
    cases h
    exact fun n hn => .inl hn
  | cons token a ih =>
    rw [List.foldlM_cons, Option.bind_eq_bind, Option.bind_eq_some_iff] at h
    obtain ⟨next, hnext, hrest⟩ := h
    intro n hn
    rcases ih hrest n hn with hmem | ⟨attributes, hmem⟩
    · cases token with
      | char c =>
        cases hnext
        exact .inl hmem
      | opening name attributes =>
        simp only [nest] at hnext
        split at hnext <;> cases hnext
        · exact .inl hmem
        · rcases List.mem_cons.mp hmem with rfl | hmem
          · exact .inr ⟨attributes, List.mem_cons_self⟩
          · exact .inl hmem
      | closing name =>
        cases stack with
        | nil => cases hnext
        | cons top stack =>
          simp only [nest] at hnext
          split at hnext <;> cases hnext
          exact .inl (List.mem_cons_of_mem _ hmem)
    · exact .inr ⟨attributes, List.mem_cons_of_mem _ hmem⟩

/-- All the way through, the elements that were open stay open under those it opened itself. -/
theorem Balanced.within (h : Balanced void (a ++ b)) (stack : List (List Char)) :
    ∃ opened, a.foldlM (nest void) stack = some (opened ++ stack) ∧
      ∀ n ∈ opened, ∃ attributes, .opening n attributes ∈ a := by
  have hall := h []
  rw [List.foldlM_append, Option.bind_eq_bind, Option.bind_eq_some_iff] at hall
  obtain ⟨opened, hopened, -⟩ := hall
  refine ⟨opened, foldlM_nest_below hopened stack, fun n hn => ?_⟩
  rcases mem_of_foldlM_nest hopened n hn with hmem | hmem
  · cases hmem
  · exact hmem

end Nesting

section Containment
variable {void : List Char → Bool} {P : Token → Prop} {x y : List Char} {name : List Char}
  {attributes : List (List Char × List Char)}

/-- The text is read as tokens of a kind that are balanced. -/
def Contained (void : List Char → Bool) (P : Token → Prop) (text : List Char) : Prop :=
  ∃ tokens, Tokenizes text tokens ∧ Balanced void tokens ∧ ∀ t ∈ tokens, P t

theorem Contained.nil : Contained void P [] := ⟨[], reads_nil, .nil, by simp⟩

theorem Contained.append (hx : Contained void P x) (hy : Contained void P y) :
    Contained void P (x ++ y) := by
  obtain ⟨t, hreads, hbalanced, hall⟩ := hx
  obtain ⟨u, hreads', hbalanced', hall'⟩ := hy
  refine ⟨t ++ u, hreads.append hreads', hbalanced.append hbalanced', fun token htoken => ?_⟩
  rcases List.mem_append.mp htoken with htoken | htoken
  · exact hall token htoken
  · exact hall' token htoken

theorem Contained.flatMap {α : Type} {f : α → List Char} (l : List α)
    (h : ∀ a ∈ l, Contained void P (f a)) :
    Contained void P (l.flatMap f) := by
  induction l with
  | nil => exact .nil
  | cons a l ih =>
    rw [List.flatMap_cons]
    exact (h a List.mem_cons_self).append (ih fun b hb => h b (List.mem_cons_of_mem _ hb))

theorem Contained.char {c : Char} (hreads : Tokenizes x [.char c]) (hP : P (.char c)) :
    Contained void P x :=
  ⟨_, hreads, .char c, by simpa using hP⟩

theorem Contained.plains (h : ∀ c ∈ x, isSpecial c = false) (hP : ∀ c, P (.char c)) :
    Contained void P x := by
  have hchars : Contained void P (x.flatMap fun c => [c]) := .flatMap x
    fun c hc => .char (reads_plain (h c hc)) (hP c)
  rwa [List.flatMap_singleton'] at hchars

theorem Contained.single (hreads : Tokenizes x [.opening name attributes]) (h : void name = true)
    (hP : P (.opening name attributes)) : Contained void P x :=
  ⟨_, hreads, .single h, by simpa using hP⟩

theorem Contained.element {start stop : List Char}
    (hstart : Tokenizes start [.opening name attributes])
    (hstop : Tokenizes stop [.closing name]) (h : void name = false)
    (hP : P (.opening name attributes))
    (hP' : P (.closing name)) (hx : Contained void P x) :
    Contained void P (start ++ (x ++ stop)) := by
  obtain ⟨t, hreads, hbalanced, hall⟩ := hx
  refine ⟨_, hstart.append (hreads.append hstop), hbalanced.element h, fun token htoken => ?_⟩
  simp only [List.singleton_append, List.mem_cons, List.mem_append, List.not_mem_nil,
    or_false] at htoken
  rcases htoken with rfl | htoken | rfl
  · exact hP
  · exact hall token htoken
  · exact hP'

/-- Text that is read leads from the elements that are open before to those that are open after. -/
def Leads (void : List Char → Bool) (stack : List (List Char)) (text : List Char)
    (opened : List (List Char)) : Prop :=
  ∃ tokens, Tokenizes text tokens ∧ tokens.foldlM (nest void) stack = some opened

variable {stack opened next : List (List Char)}

theorem Leads.append (hx : Leads void stack x opened) (hy : Leads void opened y next) :
    Leads void stack (x ++ y) next := by
  obtain ⟨t, hreads, hopened⟩ := hx
  obtain ⟨u, hreads', hnext⟩ := hy
  refine ⟨t ++ u, hreads.append hreads', ?_⟩
  rw [List.foldlM_append, hopened]
  exact hnext

theorem Contained.leads (hx : Contained void P x) (stack : List (List Char)) :
    Leads void stack x stack := by
  obtain ⟨t, hreads, hbalanced, -⟩ := hx
  exact ⟨t, hreads, hbalanced stack⟩

end Containment

end AgentJournal.Foundation
