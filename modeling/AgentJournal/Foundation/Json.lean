import Mathlib.Algebra.Order.BigOperators.Group.List
import Mathlib.Data.List.Basic
import Mathlib.Data.List.Sort
import Mathlib.Data.Nat.Notation
import Mathlib.Data.Bool.AllAny
import Mathlib.Tactic.IntervalCases

/-! # JSON texts

Compact JSON: strings with the shortest escapes, no blanks, members in the order they are given. A
string says where it ends, has no control character, and its size is bounded by what it quotes.
-/

namespace AgentJournal.Foundation

section Strings

/-- A character in a JSON string. -/
def jsonEscape (c : Char) : List Char :=
  if c = '"' then ['\\', '"']
  else if c = '\\' then ['\\', '\\']
  else if c = '\x08' then ['\\', 'b']
  else if c = '\t' then ['\\', 't']
  else if c = '\n' then ['\\', 'n']
  else if c = '\x0c' then ['\\', 'f']
  else if c = '\r' then ['\\', 'r']
  else if c.toNat < 0x20 then
    ['\\', 'u', '0', '0', Nat.digitChar (c.toNat / 16), Nat.digitChar (c.toNat % 16)]
  else [c]

def jsonQuote (text : List Char) : List Char := '"' :: (text.flatMap jsonEscape ++ ['"'])

def hexDigitValue (c : Char) : ℕ := if c.isDigit then c.toNat - 48 else c.toNat - 87

/-- The character that a backslash and what follows it stand for. -/
def escaped : List Char → Option (Char × List Char)
  | 'b' :: rest => some ('\x08', rest)
  | 't' :: rest => some ('\t', rest)
  | 'n' :: rest => some ('\n', rest)
  | 'f' :: rest => some ('\x0c', rest)
  | 'r' :: rest => some ('\r', rest)
  | 'u' :: '0' :: '0' :: high :: low :: rest =>
      some (Char.ofNat (hexDigitValue high * 16 + hexDigitValue low), rest)
  | c :: rest => some (c, rest)
  | [] => none

/-- Read one character of a JSON string. -/
def unescape : List Char → Option (Char × List Char)
  | [] => none
  | c :: rest => if c = '\\' then escaped rest else some (c, rest)

variable {c d : Char} {a b x y : List Char}

theorem unescape_control {n : ℕ} (hn : n < 32) (rest : List Char) :
    unescape (jsonEscape (Char.ofNat n) ++ rest) = some (Char.ofNat n, rest) := by
  interval_cases n <;> rfl

/-- A character above the controls that is neither a quote nor a backslash stands for itself. -/
theorem jsonEscape_self (hc : 0x20 ≤ c.toNat) (hquote : c ≠ '"') (hslash : c ≠ '\\') :
    jsonEscape c = [c] := by
  have hne : ∀ d : Char, d.toNat < 0x20 → c ≠ d := by
    rintro d hd rfl
    omega
  simp only [jsonEscape, hquote, hslash, hne '\x08' (by decide), hne '\t' (by decide),
    hne '\n' (by decide), hne '\x0c' (by decide), hne '\r' (by decide), show ¬ c.toNat <
    0x20 by omega, if_false]

/-- What holds of the controls, of a quote, of a backslash and of every other character. -/
theorem jsonEscape_cases {P : Char → List Char → Prop}
    (hcontrol : ∀ n < 32, P (Char.ofNat n) (jsonEscape (Char.ofNat n)))
    (hquote : P '"' ['\\', '"']) (hslash : P '\\' ['\\', '\\'])
    (hself : ∀ c : Char, 0x20 ≤ c.toNat → c ≠ '"' → c ≠ '\\' → P c [c]) (c : Char) :
    P c (jsonEscape c) := by
  by_cases hlow : c.toNat < 32
  · have h := hcontrol c.toNat hlow
    rwa [Char.ofNat_toNat] at h
  · by_cases hc : c = '"'
    · rw [hc]
      exact hquote
    · by_cases hc' : c = '\\'
      · rw [hc']
        exact hslash
      · rw [jsonEscape_self (by omega) hc hc']
        exact hself c (by omega) hc hc'

theorem unescape_jsonEscape (c : Char) (rest : List Char) :
    unescape (jsonEscape c ++ rest) = some (c, rest) := by
  refine jsonEscape_cases (P := fun c l => unescape (l ++ rest) = some (c, rest))
    (fun n hn => unescape_control hn rest)
    rfl rfl (fun c _ _ hslash => if_neg hslash) c

theorem jsonEscape_head (c : Char) : ∃ d l, jsonEscape c = d :: l ∧ d ≠ '"' := by
  refine jsonEscape_cases (P := fun _ l => ∃ d m, l = d :: m ∧ d ≠ '"') ?_ ⟨_, _, rfl, by decide⟩
    ⟨_, _, rfl, by decide⟩ (fun c _ hquote _ => ⟨_, _, rfl, hquote⟩) c
  intro n hn
  interval_cases n <;> exact ⟨_, _, rfl, by decide⟩

/-- No control character is left. -/
theorem jsonEscape_printable (c : Char) : ∀ d ∈ jsonEscape c, 0x20 ≤ d.toNat := by
  refine jsonEscape_cases (P := fun _ l => ∀ d ∈ l, 0x20 ≤ d.toNat) ?_
    (List.all_iff_forall_prop.mp (by decide))
    (List.all_iff_forall_prop.mp (by decide)) ?_ c
  · intro n hn
    have hcontrols : ∀ n < 32, ((jsonEscape (Char.ofNat n)).all fun d => 0x20 ≤ d.toNat) =
      true := by decide +kernel
    exact List.all_iff_forall_prop.mp (hcontrols n hn)
  · intro c hc _ _ d hd
    rwa [List.mem_singleton.mp hd]

theorem jsonQuote_cons (c : Char) (text : List Char) :
    jsonQuote (c :: text) = '"' :: (jsonEscape c ++ (text.flatMap jsonEscape ++ ['"'])) := by
  rw [jsonQuote, List.flatMap_cons, List.append_assoc]

/-- A string says where it ends. -/
theorem jsonQuote_append_inj (h : jsonQuote a ++ x = jsonQuote b ++ y) : a = b ∧ x = y := by
  induction a generalizing b with
  | nil =>
    cases b with
    | nil => exact ⟨rfl, List.append_cancel_left h⟩
    | cons d b =>
      obtain ⟨e, l, hd, hne⟩ := jsonEscape_head d
      rw [jsonQuote_cons, hd] at h
      exact absurd (List.cons.inj (List.cons.inj h).2).1.symm hne
  | cons c a ih =>
    cases b with
    | nil =>
      obtain ⟨e, l, hc, hne⟩ := jsonEscape_head c
      rw [jsonQuote_cons, hc] at h
      exact absurd (List.cons.inj (List.cons.inj h).2).1 hne
    | cons d b =>
      simp only [jsonQuote_cons, List.cons_append, List.append_assoc] at h
      have hread := congrArg unescape (List.cons.inj h).2
      rw [unescape_jsonEscape, unescape_jsonEscape, Option.some.injEq, Prod.mk.injEq] at hread
      obtain ⟨rfl, hrest⟩ := hread
      have hshort : jsonQuote a ++ x = jsonQuote b ++ y := by
        simp only [jsonQuote, List.cons_append, List.append_assoc]
        exact congrArg ('"' :: ·) hrest
      obtain ⟨rfl, hxy⟩ := ih hshort
      exact ⟨rfl, hxy⟩

theorem jsonQuote_injective : Function.Injective jsonQuote := by
  intro a b h
  exact (jsonQuote_append_inj (congrArg (· ++ []) h)).1

theorem jsonQuote_printable (text : List Char) : ∀ d ∈ jsonQuote text, 0x20 ≤ d.toNat := by
  intro d hd
  simp only [jsonQuote, List.mem_cons, List.mem_append, List.mem_flatMap, List.not_mem_nil,
    or_false] at hd
  rcases hd with rfl | ⟨c, -, hd⟩ | rfl
  · decide
  · exact jsonEscape_printable c d hd
  · decide

end Strings

section Sizes

/-- The size of a text in UTF-8. -/
def utf8Bytes (text : List Char) : ℕ := (text.map Char.utf8Size).sum

variable {a b text : List Char}

@[simp] theorem utf8Bytes_nil : utf8Bytes [] = 0 := rfl

@[simp] theorem utf8Bytes_cons (c : Char) (text : List Char) :
    utf8Bytes (c :: text) = c.utf8Size + utf8Bytes text := by
  rw [utf8Bytes, List.map_cons, List.sum_cons, utf8Bytes]

@[simp] theorem utf8Bytes_append (a b : List Char) :
    utf8Bytes (a ++ b) = utf8Bytes a + utf8Bytes b := by
  rw [utf8Bytes, List.map_append, List.sum_append, utf8Bytes, utf8Bytes]

/-- An escape takes six bytes for each character, and for each byte of it. -/
theorem utf8Bytes_jsonEscape (c : Char) :
    utf8Bytes (jsonEscape c) ≤ 6 ∧ utf8Bytes (jsonEscape c) ≤ 6 * c.utf8Size := by
  refine jsonEscape_cases (P := fun c l => utf8Bytes l ≤ 6 ∧ utf8Bytes l ≤ 6 * c.utf8Size) ?_
    (by decide) (by decide) ?_ c
  · intro n hn
    interval_cases n <;> decide
  · intro c _ _ _
    have hpos := c.utf8Size_pos
    have hle := c.utf8Size_le_four
    rw [utf8Bytes_cons, utf8Bytes_nil]
    omega

theorem utf8Bytes_jsonQuote_chars (text : List Char) :
    utf8Bytes (jsonQuote text) ≤ 6 * text.length + 2 := by
  induction text with
  | nil => decide
  | cons c text ih =>
    have hc := (utf8Bytes_jsonEscape c).1
    rw [jsonQuote, utf8Bytes_cons] at ih
    rw [jsonQuote_cons, utf8Bytes_cons, utf8Bytes_append, List.length_cons]
    omega

theorem utf8Bytes_jsonQuote_bytes (text : List Char) :
    utf8Bytes (jsonQuote text) ≤ 6 * utf8Bytes text + 2 := by
  induction text with
  | nil => decide
  | cons c text ih =>
    have hc := (utf8Bytes_jsonEscape c).2
    rw [jsonQuote, utf8Bytes_cons] at ih
    rw [jsonQuote_cons, utf8Bytes_cons, utf8Bytes_append, utf8Bytes_cons]
    omega

/-- The size of a text between quotes. -/
def escapedBytes (text : List Char) : ℕ := utf8Bytes (text.flatMap jsonEscape)

theorem escapedBytes_append (a b : List Char) :
    escapedBytes (a ++ b) = escapedBytes a + escapedBytes b := by
  rw [escapedBytes, List.flatMap_append, utf8Bytes_append, escapedBytes, escapedBytes]

theorem escapedBytes_cons (c : Char) (text : List Char) :
    escapedBytes (c :: text) = utf8Bytes (jsonEscape c) + escapedBytes text := by
  rw [escapedBytes, List.flatMap_cons, utf8Bytes_append, escapedBytes]

theorem utf8Bytes_jsonQuote (text : List Char) :
    utf8Bytes (jsonQuote text) = escapedBytes text + 2 := by
  have hquote : Char.utf8Size '"' = 1 := by decide
  rw [jsonQuote, utf8Bytes_cons, utf8Bytes_append, escapedBytes, utf8Bytes_cons, utf8Bytes_nil,
    hquote]
  omega

/-- What holds of every character, in sum. -/
theorem escapedBytes_le {k : ℕ} {f : Char → ℕ}
    (h : ∀ c ∈ text, utf8Bytes (jsonEscape c) ≤ k * f c) :
    escapedBytes text ≤ k * (text.map f).sum := by
  induction text with
  | nil => exact Nat.zero_le _
  | cons c text ih =>
    have hc := h c List.mem_cons_self
    have hrest := ih fun d hd => h d (List.mem_cons_of_mem _ hd)
    rw [escapedBytes_cons, List.map_cons, List.sum_cons, Nat.mul_add]
    omega

/-- An escape that is quoted again takes seven bytes. -/
theorem escapedBytes_jsonEscape (c : Char) : escapedBytes (jsonEscape c) ≤ 7 := by
  refine jsonEscape_cases (P := fun _ l => escapedBytes l ≤ 7) ?_ (by decide) (by decide) ?_ c
  · intro n hn
    interval_cases n <;> decide
  · intro c hc hquote hslash
    have hle := c.utf8Size_le_four
    rw [escapedBytes_cons, jsonEscape_self hc hquote hslash, utf8Bytes_cons, utf8Bytes_nil]
    exact Nat.le_trans (Nat.add_le_add_right hle 0) (by decide)

theorem escapedBytes_jsonQuote (text : List Char) :
    escapedBytes (jsonQuote text) ≤ 7 * text.length + 4 := by
  have hquote : utf8Bytes (jsonEscape '"') = 2 := by decide
  have hinner : escapedBytes (text.flatMap jsonEscape) ≤ 7 * text.length := by
    induction text with
    | nil => exact Nat.zero_le _
    | cons c text ih =>
      have hc := escapedBytes_jsonEscape c
      rw [List.flatMap_cons, escapedBytes_append, List.length_cons]
      omega
  have hlast : escapedBytes ['"'] = 2 := by decide
  rw [jsonQuote, escapedBytes_cons, escapedBytes_append, hquote, hlast]
  omega

end Sizes

section Values

inductive Json where
  | null
  | bool (value : Bool)
  | num (value : ℤ)
  /-- A number as its formatter writes it. -/
  | real (digits : List Char)
  | str (value : String)
  | arr (items : List Json)
  | obj (members : List (String × Json))

def intText : ℤ → List Char
  | .ofNat n => Nat.toDigits 10 n
  | .negSucc n => '-' :: Nat.toDigits 10 (n + 1)

mutual

def Json.text : Json → List Char
  | .null => "null".toList
  | .bool value => if value then "true".toList else "false".toList
  | .num value => intText value
  | .real digits => digits
  | .str value => jsonQuote value.toList
  | .arr items => '[' :: (itemTexts items ++ [']'])
  | .obj members => '\x7b' :: (memberTexts members ++ ['\x7d'])

/-- The items with commas between them. -/
def itemTexts : List Json → List Char
  | [] => []
  | item :: items => item.text ++ (if items.isEmpty then [] else ',' :: itemTexts items)

/-- The members with commas between them. -/
def memberTexts : List (String × Json) → List Char
  | [] => []
  | (key, value) :: members =>
    jsonQuote key.toList ++
      ':' :: (value.text ++ (if members.isEmpty then [] else ',' :: memberTexts members))

end

/-- The size of a value in UTF-8. -/
def Json.size (value : Json) : ℕ := utf8Bytes value.text

def Json.option (value : Option String) : Json := (value.map Json.str).getD .null

/-- What a member takes, with its colon and a comma. -/
def memberSize (member : String × Json) : ℕ :=
  utf8Bytes (jsonQuote member.1.toList) + member.2.size + 2

mutual

/-- The members of every object in the order of their names. -/
def Json.ordered : Json → Json
  | .null => .null
  | .bool value => .bool value
  | .num value => .num value
  | .real digits => .real digits
  | .str value => .str value
  | .arr items => .arr (orderedItems items)
  | .obj members => .obj ((orderedMembers members).insertionSort fun a b => a.1 ≤ b.1)

def orderedItems : List Json → List Json
  | [] => []
  | item :: items => item.ordered :: orderedItems items

def orderedMembers : List (String × Json) → List (String × Json)
  | [] => []
  | (key, value) :: members => (key, value.ordered) :: orderedMembers members

end

variable {items : List Json} {members : List (String × Json)} {bound : ℕ}

theorem utf8Bytes_itemTexts (items : List Json) :
    utf8Bytes (itemTexts items) = (items.map fun j => j.size + 1).sum - 1 := by
  induction items with
  | nil => rfl
  | cons item items ih =>
    have hcomma : Char.utf8Size ',' = 1 := by decide
    rw [itemTexts, utf8Bytes_append, List.map_cons, List.sum_cons, Json.size]
    cases items with
    | nil =>
      simp only [List.isEmpty_nil, if_true, utf8Bytes_nil, List.map_nil, List.sum_nil]
      omega
    | cons next rest =>
      simp only [List.isEmpty_cons, Bool.false_eq_true, if_false, utf8Bytes_cons, hcomma, ih,
        List.map_cons, List.sum_cons]
      omega

theorem utf8Bytes_memberTexts (members : List (String × Json)) :
    utf8Bytes (memberTexts members) = (members.map memberSize).sum - 1 := by
  induction members with
  | nil => rfl
  | cons member members ih =>
    have hcomma : Char.utf8Size ',' = 1 := by decide
    have hcolon : Char.utf8Size ':' = 1 := by decide
    rw [memberTexts, utf8Bytes_append, utf8Bytes_cons, utf8Bytes_append, hcolon, List.map_cons,
      List.sum_cons, memberSize, Json.size]
    cases members with
    | nil =>
      simp only [List.isEmpty_nil, if_true, utf8Bytes_nil, List.map_nil, List.sum_nil]
      omega
    | cons next rest =>
      simp only [List.isEmpty_cons, Bool.false_eq_true, if_false, utf8Bytes_cons, hcomma, ih,
        List.map_cons, List.sum_cons, memberSize]
      omega

theorem size_arr_eq (items : List Json) :
    (Json.arr items).size = (items.map fun j => j.size + 1).sum - 1 + 2 := by
  have hopen : Char.utf8Size '[' = 1 := by decide
  have hclose : Char.utf8Size ']' = 1 := by decide
  rw [Json.size, Json.text, utf8Bytes_cons, utf8Bytes_append, utf8Bytes_cons, utf8Bytes_nil,
    utf8Bytes_itemTexts]
  omega

theorem size_obj_eq (members : List (String × Json)) :
    (Json.obj members).size = (members.map memberSize).sum - 1 + 2 := by
  have hopen : Char.utf8Size '\x7b' = 1 := by decide
  have hclose : Char.utf8Size '\x7d' = 1 := by decide
  rw [Json.size, Json.text, utf8Bytes_cons, utf8Bytes_append, utf8Bytes_cons, utf8Bytes_nil,
    utf8Bytes_memberTexts]
  omega

theorem size_arr (items : List Json) :
    (Json.arr items).size ≤ (items.map fun j => j.size + 1).sum + 2 := by
  rw [size_arr_eq]
  omega

theorem size_obj (members : List (String × Json)) :
    (Json.obj members).size ≤ (members.map memberSize).sum + 2 := by
  rw [size_obj_eq]
  omega

mutual

/-- The order of the members does not change the size. -/
theorem size_ordered : ∀ value : Json, value.ordered.size = value.size
  | .null | .bool _ | .num _ | .real _ | .str _ => by rw [Json.ordered]
  | .arr items => by
    rw [Json.ordered, size_arr_eq, size_arr_eq, sizes_orderedItems items]
  | .obj members => by
    have hperm := ((orderedMembers members).perm_insertionSort fun a b => a.1 ≤ b.1).map memberSize
    rw [Json.ordered, size_obj_eq, size_obj_eq, hperm.sum_eq, sizes_orderedMembers members]

theorem sizes_orderedItems : ∀ items : List Json,
    ((orderedItems items).map fun j => j.size + 1) = items.map fun j => j.size + 1
  | [] => rfl
  | item :: items => by
    rw [orderedItems, List.map_cons, List.map_cons, size_ordered item, sizes_orderedItems items]

theorem sizes_orderedMembers : ∀ members : List (String × Json),
    (orderedMembers members).map memberSize = members.map memberSize
  | [] => rfl
  | (key, value) :: members => by
    rw [orderedMembers, List.map_cons, List.map_cons, memberSize, memberSize, size_ordered value,
      sizes_orderedMembers members]

end

/-- What the names of members take, with their colons and commas. -/
def keysSize (keys : List String) : ℕ :=
  (keys.map fun key => utf8Bytes (jsonQuote key.toList) + 2).sum

theorem size_members (members : List (String × Json)) :
    (Json.obj members).size ≤
    keysSize (members.map Prod.fst) + (members.map fun m => m.2.size).sum + 2 := by
  refine (size_obj members).trans (Nat.add_le_add_right ?_ 2)
  induction members with
  | nil => exact Nat.le_refl 0
  | cons member members ih =>
    simp only [keysSize, List.map_cons, List.sum_cons, memberSize] at ih ⊢
    omega

/-- Items of a bounded size. -/
theorem size_arr_le (h : ∀ j ∈ items, j.size ≤ bound) :
    (Json.arr items).size ≤ items.length * (bound + 1) + 2 := by
  refine (size_arr items).trans (Nat.add_le_add_right ?_ 2)
  refine (List.sum_le_card_nsmul _ (bound + 1) ?_).trans_eq (by simp)
  intro n hn
  obtain ⟨j, hj, rfl⟩ := List.mem_map.mp hn
  exact Nat.succ_le_succ (h j hj)

theorem size_str_chars (value : String) : (Json.str value).size ≤ 6 * value.toList.length + 2 := by
  rw [Json.size, Json.text]
  exact utf8Bytes_jsonQuote_chars _

theorem size_str_bytes (value : String) :
    (Json.str value).size ≤ 6 * utf8Bytes value.toList + 2 := by
  rw [Json.size, Json.text]
  exact utf8Bytes_jsonQuote_bytes _

/-- What members take together. -/
def membersSize (members : List (String × Json)) : ℕ := (members.map memberSize).sum

@[simp] theorem membersSize_nil : membersSize [] = 0 := rfl

@[simp] theorem membersSize_cons (member : String × Json) (members : List (String × Json)) :
    membersSize (member :: members) = memberSize member + membersSize members := by
  rw [membersSize, List.map_cons, List.sum_cons, membersSize]

@[simp] theorem membersSize_append (members more : List (String × Json)) :
    membersSize (members ++ more) = membersSize members + membersSize more := by
  rw [membersSize, List.map_append, List.sum_append, membersSize, membersSize]

theorem memberSize_le (key : String) {value : Json} (n : ℕ) (hkey : key.toList.length ≤ n)
    (h : value.size ≤ bound) :
    memberSize (key, value) ≤ 6 * n + 4 + bound := by
  have hquote := utf8Bytes_jsonQuote_chars key.toList
  change utf8Bytes (jsonQuote key.toList) + value.size + 2 ≤ 6 * n + 4 + bound
  omega

/-- A member that is left out when it has no value. -/
def optionalMember (key : String) (value : Option String) : List (String × Json) :=
  value.toList.map fun text => (key, .str text)

theorem membersSize_optional (key : String) {value : Option String} (n : ℕ)
    (hkey : key.toList.length ≤ n)
    (h : ∀ text ∈ value, (Json.str text).size ≤ bound) :
    membersSize (optionalMember key value) ≤ 6 * n + 4 + bound := by
  cases value with
  | none => exact Nat.zero_le _
  | some text =>
    rw [optionalMember, Option.toList_some, List.map_cons, List.map_nil, membersSize_cons,
      membersSize_nil]
    exact memberSize_le key n hkey (h text rfl)

theorem utf8Bytes_digits {text : List Char} (h : ∀ c ∈ text, c.isDigit = true) :
    utf8Bytes text = text.length := by
  induction text with
  | nil => rfl
  | cons c text ih =>
    have hdigit := h c List.mem_cons_self
    have hone : c.utf8Size = 1 := by
      simp only [Char.isDigit, Bool.and_eq_true, decide_eq_true_eq] at hdigit
      exact Char.utf8Size_eq_one_iff.mpr (UInt32.le_trans hdigit.2 (by decide))
    rw [utf8Bytes_cons, hone, ih fun d hd => h d (List.mem_cons_of_mem _ hd), List.length_cons,
      Nat.add_comm]

/-- A counter below ten to the `k`. -/
theorem size_num {n : ℤ} {k : ℕ} (hn : 0 ≤ n) (hk : 0 < k) (h : n < 10 ^ k) :
    (Json.num n).size ≤ k := by
  obtain ⟨n, rfl⟩ := Int.eq_ofNat_of_zero_le hn
  have hdigits : ∀ c ∈ Nat.toDigits 10 n, c.isDigit = true :=
    fun c hc => Nat.isDigit_of_mem_toDigits (by decide) (by decide) hc
  rw [Json.size, Json.text]
  change utf8Bytes (Nat.toDigits 10 n) ≤ k
  rw [utf8Bytes_digits hdigits, Nat.length_toDigits_le_iff (by decide) hk]
  exact_mod_cast h

theorem size_option {value : Option String} (h : ∀ v ∈ value, (Json.str v).size ≤ bound)
    (hnull : 4 ≤ bound) :
    (Json.option value).size ≤ bound := by
  cases value with
  | none =>
    have hsize : Json.null.size = 4 := by
      rw [Json.size, Json.text]
      decide
    exact hsize.trans_le hnull
  | some v => exact h v rfl

end Values

end AgentJournal.Foundation
