import AgentJournal.Domain.Json
import AgentJournal.Domain.Query
import AgentJournal.Domain.Coded
import AgentJournal.Domain.Validation
import AgentJournal.Foundation.FormText

/-! # Queries of the listings

A listing reads its arguments from the query of a request. What cannot be read exactly is refused: a
percent sign without its digits, bytes that are no text, a name that is unknown or comes twice.
-/

namespace AgentJournal.Domain
open Foundation

structure InvalidQuery where
deriving DecidableEq, Repr

section Lossy

/-- The bounds of the bytes after the first of a character. -/
def followers (b : UInt8) : Option (List (UInt8 × UInt8)) :=
  if b < 0x80 then some []
  else if 0xc2 ≤ b ∧ b ≤ 0xdf then some [(0x80, 0xbf)]
  else if b = 0xe0 then some [(0xa0, 0xbf), (0x80, 0xbf)]
  else if b = 0xed then some [(0x80, 0x9f), (0x80, 0xbf)]
  else if 0xe1 ≤ b ∧ b ≤ 0xef then some [(0x80, 0xbf), (0x80, 0xbf)]
  else if b = 0xf0 then some [(0x90, 0xbf), (0x80, 0xbf), (0x80, 0xbf)]
  else if 0xf1 ≤ b ∧ b ≤ 0xf3 then some [(0x80, 0xbf), (0x80, 0xbf), (0x80, 0xbf)]
  else if b = 0xf4 then some [(0x80, 0x8f), (0x80, 0xbf), (0x80, 0xbf)]
  else none

/-- The bytes that keep within the bounds, and the rest. -/
def takeFollowers : List (UInt8 × UInt8) → List UInt8 → List UInt8 × List UInt8
  | (low, high) :: bounds, b :: rest =>
    if low ≤ b ∧ b ≤ high then
      let (taken, left) := takeFollowers bounds rest
      (b :: taken, left)
    else ([], b :: rest)
  | _, rest => ([], rest)

/-- A replacement character stands for each longest beginning of a character that is not one. -/
def lossyChars : ℕ → List UInt8 → List Char
  | fuel + 1, b :: rest =>
    let (taken, left) := takeFollowers ((followers b).getD []) rest
    match ofBytes (b :: taken) with
    | some s => s.toList ++ lossyChars fuel left
    | none => Char.ofNat 0xfffd :: lossyChars fuel left
  | _, _ => []

/-- `String::from_utf8_lossy`. -/
def decodeUtf8Lossy (bytes : List UInt8) : String :=
  match ofBytes bytes with
  | some s => s
  | none => String.ofList (lossyChars bytes.length bytes)

theorem decodeUtf8Lossy_asBytes (s : String) : decodeUtf8Lossy (asBytes s) = s := by
  rw [decodeUtf8Lossy, ofBytes_asBytes]

theorem isText_iff {bytes : List UInt8} : IsText bytes ↔ ∃ s, bytes = asBytes s := by
  constructor
  · rintro ⟨text, rfl⟩
    exact ⟨String.ofList text, (asBytes_ofList text).symm⟩
  · rintro ⟨s, rfl⟩
    exact ⟨s.toList, asBytes_eq s⟩

theorem ofBytes_eq_none {bytes : List UInt8} : ofBytes bytes = none ↔ ¬IsText bytes := by
  rw [isText_iff]
  constructor
  · rintro h ⟨s, rfl⟩
    rw [ofBytes_asBytes] at h
    cases h
  · intro h
    cases hread : ofBytes bytes with
    | none => rfl
    | some s => exact absurd ⟨s, (ofBytes_eq_some.mp hread).symm⟩ h

end Lossy

section Parse

/-- The loop over the percent signs. -/
def percentsEscaped : List UInt8 → Bool
  | [] => true
  | b :: high :: low :: rest =>
    (b ≠ 0x25 || (isAsciiHexdigit high && isAsciiHexdigit low)) &&
      percentsEscaped (high :: low :: rest)
  | b :: rest => b ≠ 0x25 && percentsEscaped rest

/-- The loop over the pairs. -/
def collect (allowed : List String) :
    List (List UInt8 × List UInt8) → List (String × String) →
    Except InvalidQuery (List (String × String))
  | [], result => .ok result
  | (name, value) :: rest, result => do
    let key := decodeUtf8Lossy (formDecode name)
    failIf (key ∉ allowed ∨ key ∈ result.map Prod.fst) ⟨⟩
    collect allowed rest (result ++ [(key, decodeUtf8Lossy (formDecode value))])

def parse (query : String) (allowed : List String) :
    Except InvalidQuery (List (String × String)) := do
  let bytes := asBytes query
  failIf (percentsEscaped bytes = false) ⟨⟩
  failIf (ofBytes (percentDecode bytes) = none) ⟨⟩
  collect allowed (formPairs bytes) []

/-- Every percent sign is followed by two digits. -/
def WellEscaped (bytes : List UInt8) : Prop :=
  ∀ before after, bytes = before ++ 0x25 :: after →
    ∃ high low rest, after = high :: low :: rest ∧ isAsciiHexdigit high = true ∧
    isAsciiHexdigit low = true

/-- The names and the values are the decoded components of the form, byte by byte. -/
def DecodesTo (bytes : List UInt8) (pairs : List (String × String)) : Prop :=
  (formPairs bytes).map (fun pair => (formDecode pair.1, formDecode pair.2)) =
    pairs.map fun pair => (asBytes pair.1, asBytes pair.2)

variable {allowed keys : List String} {pairs result m : List (String × String)} {bytes : List UInt8}

theorem wellEscaped_nil : WellEscaped [] := by
  intro before after h
  simp at h

theorem wellEscaped_cons {b : UInt8} {rest : List UInt8} :
    WellEscaped (b :: rest) ↔
      (b = 0x25 → ∃ high low tail, rest = high :: low :: tail ∧ isAsciiHexdigit high = true ∧
        isAsciiHexdigit low = true) ∧ WellEscaped rest := by
  constructor
  · intro h
    refine ⟨fun hb => h [] rest (by rw [hb]; rfl), fun before after hrest => ?_⟩
    exact h (b :: before) after (by rw [hrest]; rfl)
  · rintro ⟨hfirst, hrest⟩ before after h
    cases before with
    | nil =>
      obtain ⟨hb, rfl⟩ := List.cons.inj h
      exact hfirst hb
    | cons a before =>
      obtain ⟨-, htail⟩ := List.cons.inj h
      exact hrest before after htail

theorem escaped_iff (bytes : List UInt8) : percentsEscaped bytes = true ↔ WellEscaped bytes := by
  fun_induction percentsEscaped bytes with
  | case1 => exact ⟨fun _ => wellEscaped_nil, fun _ => rfl⟩
  | case2 b high low rest ih =>
    rw [Bool.and_eq_true, ih, wellEscaped_cons (b := b)]
    refine and_congr_left' ?_
    simp only [ne_eq, decide_not, Bool.or_eq_true, Bool.not_eq_true', decide_eq_false_iff_not,
      Bool.and_eq_true, List.cons.injEq]
    constructor
    · rintro (hb | hdigits) heq
      · exact absurd heq hb
      · exact ⟨high, low, rest, ⟨rfl, rfl, rfl⟩, hdigits⟩
    · intro h
      by_cases hb : b = 0x25
      · obtain ⟨_, _, _, ⟨rfl, rfl, rfl⟩, hdigits⟩ := h hb
        exact .inr hdigits
      · exact .inl hb
  | case3 b rest hshort ih =>
    rw [Bool.and_eq_true, ih, wellEscaped_cons]
    refine and_congr_left' ?_
    rw [decide_eq_true_eq]
    constructor
    · exact fun hb heq => absurd heq hb
    · rintro h rfl
      obtain ⟨high, low, tail, rfl, -⟩ := h rfl
      exact hshort high low tail rfl

theorem collect_eq_ok {pieces : List (List UInt8 × List UInt8)}
    (h : pieces.map (fun pair => (formDecode pair.1, formDecode pair.2)) =
      pairs.map fun pair => (asBytes pair.1, asBytes pair.2)) :
    collect allowed pieces result = .ok m ↔
      m = result ++ pairs ∧ (∀ pair ∈ pairs, pair.1 ∈ allowed ∧ pair.1 ∉ result.map Prod.fst) ∧
        (pairs.map Prod.fst).Nodup := by
  induction pieces generalizing pairs result with
  | nil =>
    obtain rfl := List.map_eq_nil_iff.mp h.symm
    simp [collect, eq_comm]
  | cons piece pieces ih =>
    cases pairs with
    | nil => cases h
    | cons pair pairs =>
      obtain ⟨name, value⟩ := piece
      obtain ⟨key, text⟩ := pair
      rw [List.map_cons, List.map_cons] at h
      obtain ⟨hpair, hrest⟩ := List.cons.inj h
      obtain ⟨hname, hvalue⟩ := Prod.mk.inj hpair
      simp only [collect, hname, hvalue, decodeUtf8Lossy_asBytes, bind_eq_ok, failIf_eq_ok, not_or,
        not_not, exists_const, ih hrest, List.append_assoc, List.singleton_append, List.map_append,
        List.map_cons, List.map_nil,
        List.mem_append, List.mem_singleton, List.forall_mem_cons, List.nodup_cons]
      constructor
      · rintro ⟨⟨hallowed, hfresh⟩, rfl, hpairs, hnodup⟩
        refine ⟨rfl, ⟨⟨hallowed, hfresh⟩, fun p hp => ⟨(hpairs p hp).1, (hpairs p hp).2.1⟩⟩, ?_,
          hnodup⟩
        intro hmem
        obtain ⟨p, hp, hkey⟩ := List.mem_map.mp hmem
        exact (hpairs p hp).2.2 hkey
      · rintro ⟨rfl, ⟨⟨hallowed, hfresh⟩, hpairs⟩, hkey, hnodup⟩
        refine ⟨⟨hallowed, hfresh⟩, rfl, fun p hp => ⟨(hpairs p hp).1, (hpairs p hp).2, ?_⟩, hnodup⟩
        rintro rfl
        exact hkey (List.mem_map_of_mem hp)

theorem exists_texts {pieces : List (List UInt8 × List UInt8)}
    (h : ∀ pair ∈ pieces, IsText (formDecode pair.1) ∧ IsText (formDecode pair.2)) :
    ∃ pairs : List (String × String),
    pieces.map (fun pair => (formDecode pair.1, formDecode pair.2)) =
      pairs.map fun pair => (asBytes pair.1, asBytes pair.2) := by
  induction pieces with
  | nil => exact ⟨[], rfl⟩
  | cons piece pieces ih =>
    rw [List.forall_mem_cons] at h
    obtain ⟨⟨hname, hvalue⟩, hrest⟩ := h
    obtain ⟨name, hname⟩ := isText_iff.mp hname
    obtain ⟨value, hvalue⟩ := isText_iff.mp hvalue
    obtain ⟨pairs, hpairs⟩ := ih hrest
    exact ⟨(name, value) :: pairs, by rw [List.map_cons, List.map_cons, hpairs, hname, hvalue]⟩

theorem DecodesTo.isText (h : DecodesTo bytes pairs) : IsText (percentDecode bytes) := by
  rw [isText_formPairs]
  intro pair hpair
  have hmem := List.mem_map_of_mem (f := fun pair => (formDecode pair.1, formDecode pair.2)) hpair
  rw [h] at hmem
  obtain ⟨texts, -, htexts⟩ := List.mem_map.mp hmem
  obtain ⟨hname, hvalue⟩ := Prod.mk.inj htexts
  exact ⟨isText_iff.mpr ⟨_, hname.symm⟩, isText_iff.mpr ⟨_, hvalue.symm⟩⟩

/-- What is read from a query and what is refused. -/
theorem parse_eq_ok {query : String} :
    parse query allowed = .ok m ↔
      WellEscaped (asBytes query) ∧ DecodesTo (asBytes query) m ∧ (∀ pair ∈ m, pair.1 ∈ allowed) ∧
        (m.map Prod.fst).Nodup := by
  simp only [parse, bind_eq_ok, failIf_eq_ok, exists_const, Bool.not_eq_false, escaped_iff,
    ofBytes_eq_none, not_not]
  refine and_congr_right fun _ => ?_
  constructor
  · rintro ⟨htext, hcollect⟩
    obtain ⟨pairs, hpairs⟩ := exists_texts ((isText_formPairs _).mp htext)
    obtain ⟨rfl, hallowed, hnodup⟩ := (collect_eq_ok hpairs).mp hcollect
    exact ⟨hpairs, fun pair hpair => (hallowed pair hpair).1, hnodup⟩
  · rintro ⟨hdecodes, hallowed, hnodup⟩
    refine ⟨hdecodes.isText,
      (collect_eq_ok hdecodes).mpr ⟨rfl, fun pair hpair => ⟨hallowed pair hpair, ?_⟩, hnodup⟩⟩
    exact List.not_mem_nil

/-- A written form is percentsEscaped well. -/
theorem wellEscaped_append {x y : List UInt8} (hx : WellEscaped x) (hy : WellEscaped y) :
    WellEscaped (x ++ y) := by
  induction x with
  | nil => exact hy
  | cons b x ih =>
    obtain ⟨hb, hrest⟩ := wellEscaped_cons.mp hx
    refine wellEscaped_cons.mpr ⟨fun heq => ?_, ih hrest⟩
    obtain ⟨high, low, tail, rfl, hdigits⟩ := hb heq
    exact ⟨high, low, tail ++ y, rfl, hdigits⟩

theorem wellEscaped_single {b : UInt8} (hb : b ≠ 0x25) : WellEscaped [b] :=
  wellEscaped_cons.mpr ⟨fun heq => absurd heq hb, wellEscaped_nil⟩

theorem wellEscaped_formByte (b : UInt8) : WellEscaped (formByte formKeeps b) := by
  have hb := b.toNat_lt
  have hall : ∀ i : Fin 16, isAsciiHexdigit (hexByte i) = true ∧ hexByte i ≠ 0x25 := by decide
  have hhigh := hall ⟨b.toNat / 16, by omega⟩
  have hlow := hall ⟨b.toNat % 16, by omega⟩
  unfold formByte percentByte
  split
  · exact wellEscaped_single (by decide)
  · split
    · rename_i hkept
      refine wellEscaped_single ?_
      rintro rfl
      rw [keepsForm_formKeeps.percent] at hkept
      cases hkept
    · refine wellEscaped_cons.mpr ⟨fun _ => ⟨_, _, [], rfl, hhigh.1, hlow.1⟩, ?_⟩
      exact wellEscaped_append (x := [_]) (wellEscaped_single hhigh.2) (wellEscaped_single hlow.2)

theorem wellEscaped_formEncode (text : List UInt8) : WellEscaped (formEncode formKeeps text) := by
  induction text with
  | nil => exact wellEscaped_nil
  | cons b text ih =>
    rw [formEncode_cons]
    exact wellEscaped_append (wellEscaped_formByte b) ih

theorem wellEscaped_formText (pieces : List (List UInt8 × List UInt8)) :
    WellEscaped (formText formKeeps pieces) := by
  have hpair : ∀ pair : List UInt8 × List UInt8,
      WellEscaped (formEncode formKeeps pair.1 ++ 0x3d :: formEncode formKeeps pair.2) := by
    intro pair
    refine wellEscaped_append (wellEscaped_formEncode _) ?_
    exact wellEscaped_append (x := [0x3d]) (wellEscaped_single (by decide))
      (wellEscaped_formEncode _)
  induction pieces with
  | nil => exact wellEscaped_nil
  | cons piece rest ih =>
    cases rest with
    | nil =>
      rw [formText, List.map_singleton, List.intercalate_singleton]
      exact hpair piece
    | cons next rest =>
      rw [formText, List.map_cons, List.map_cons, List.intercalate_cons_cons, List.append_assoc]
      exact wellEscaped_append (hpair piece)
        (wellEscaped_append (wellEscaped_single (by decide)) ih)

theorem decodesTo_queryString (pairs : List (String × String)) :
    DecodesTo (asBytes (queryString pairs)) pairs := by
  have hdecode : ∀ text : List UInt8, formDecode (formEncode formKeeps text) = text := by
    intro text
    have h := formDecode_formEncode keepsForm_formKeeps text []
    simpa [formDecode, percentDecode] using h
  rw [DecodesTo, asBytes_queryString, formPairs_formText keepsForm_formKeeps, List.map_map,
    List.map_map]
  refine List.map_congr_left fun pair _ => ?_
  simp only [Function.comp_apply, hdecode]

/-- Pairs with some of the allowed names, each once, are read back. -/
theorem parse_queryString (hkeys : (pairs.map Prod.fst).Sublist keys) (hnodup : keys.Nodup)
    (hallowed : ∀ key ∈ keys, key ∈ allowed) : parse (queryString pairs) allowed = .ok pairs := by
  refine parse_eq_ok.mpr
    ⟨?_, decodesTo_queryString pairs, fun pair hpair => ?_, hnodup.sublist hkeys⟩
  · rw [asBytes_queryString]
    exact wellEscaped_formText _
  · exact hallowed _ (hkeys.subset (List.mem_map_of_mem hpair))

end Parse

section Numbers

/-- `char::to_digit(10)` and the checked arithmetic of a `u64`. -/
def digitStep (number : ℕ) (c : Char) : Option ℕ :=
  if c.isDigit ∧ 10 * number + (c.toNat - 48) < UInt64.size then some (10 * number + (c.toNat - 48))
  else none

/-- `str::parse::<u64>`; one plus sign may stand before the digits. -/
def parseU64 (s : String) : Option ℕ :=
  match s.toList with
  | [] => none
  | '+' :: c :: rest => (c :: rest).foldlM digitStep 0
  | digits => digits.foldlM digitStep 0

theorem foldlM_digitStep {digits : List Char} {number : ℕ}
    (hdigits : ∀ c ∈ digits, c.isDigit = true)
    (hsize : Nat.ofDigitChars 10 digits number < UInt64.size) :
    digits.foldlM digitStep number = some (Nat.ofDigitChars 10 digits number) := by
  induction digits generalizing number with
  | nil => rfl
  | cons c digits ih =>
    rw [List.forall_mem_cons] at hdigits
    rw [Nat.ofDigitChars_cons] at hsize
    have hle : 10 * number + (c.toNat - 48) ≤
      Nat.ofDigitChars 10 digits (10 * number + (c.toNat - 48)) := by
      rw [Nat.ofDigitChars_eq_ofDigitChars_zero]
      exact le_trans (Nat.le_mul_of_pos_left _ (Nat.pow_pos (by decide))) (Nat.le_add_right _ _)
    have hstep : digitStep number c = some (10 * number + (c.toNat - 48)) :=
      if_pos ⟨hdigits.1, lt_of_le_of_lt hle hsize⟩
    rw [List.foldlM_cons, hstep]
    exact ih hdigits.2 hsize

theorem parseU64_toString {n : ℕ} (h : n < UInt64.size) : parseU64 (toString n) = some n := by
  have hdigits : ∀ c ∈ Nat.toDigits 10 n, c.isDigit = true := fun c hc =>
    Nat.isDigit_of_mem_toDigits (by decide) (by decide) hc
  have hvalue : Nat.ofDigitChars 10 (Nat.toDigits 10 n) 0 = n := Nat.ofDigitChars_ten_toDigits
  have hfold := foldlM_digitStep hdigits (by rw [hvalue]; exact h)
  rw [hvalue] at hfold
  have hlist : (toString n).toList = Nat.toDigits 10 n := by
    rw [Nat.toString_eq_ofList_toDigits, String.toList_ofList]
  rw [parseU64, hlist]
  split
  · rename_i hnil
    exact absurd hnil Nat.toDigits_ne_nil
  · rename_i c rest hplus
    have hc := hdigits '+' (by rw [hplus]; exact List.mem_cons_self)
    exact absurd hc (by decide)
  · exact hfold

end Numbers

section Values

/-- The value of a name, where there is one. -/
def optional (key : String) (value : Option String) : List (String × String) :=
  value.toList.map (key, ·)

def number (values : List (String × String)) (key : String) : Except InvalidQuery (Option ℕ) :=
  match values.lookup key with
  | none => .ok none
  | some text => some <$> required (parseU64 text) ⟨⟩

/-- `map_err(|_| InvalidQuery)`. -/
def valid : Except WireValidationError Unit → Except InvalidQuery Unit
  | .ok () => .ok ()
  | .error _ => .error ⟨⟩

def page (values : List (String × String)) : Except InvalidQuery PageQuery := do
  let limit ← number values "limit"
  let page := PageQuery.mk (values.lookup "cursor") limit
  valid page.validate
  return page

def PageQuery.pairs (q : PageQuery) : List (String × String) :=
  optional "cursor" q.cursor ++ optional "limit" (q.limit.map toString)

def PageQuery.fromQuery (query : String) : Except InvalidQuery PageQuery := do
  let values ← parse query ["cursor", "limit"]
  page values

def InboxState.asStr : InboxState → String
  | .unacknowledged => "unacknowledged"
  | .acknowledged => "acknowledged"
  | .all => "all"

def InboxState.ofValue : Option String → Except InvalidQuery InboxState
  | none => .ok .unacknowledged
  | some "unacknowledged" => .ok .unacknowledged
  | some "acknowledged" => .ok .acknowledged
  | some "all" => .ok .all
  | some _ => .error ⟨⟩

def InboxQuery.pairs (q : InboxQuery) : List (String × String) :=
  q.page.pairs ++ [("state", q.state.asStr)] ++
    if q.waitSeconds > 0 then [("wait_seconds", toString q.waitSeconds)] else []

def InboxQuery.fromQuery (query : String) : Except InvalidQuery InboxQuery := do
  let values ← parse query ["state", "cursor", "limit", "wait_seconds"]
  let waitSeconds ← number values "wait_seconds"
  failIf (waitSeconds.getD 0 > maxInboxWaitSeconds) ⟨⟩
  let state ← InboxState.ofValue (values.lookup "state")
  let page ← Domain.page values
  return ⟨state, page, waitSeconds.getD 0⟩

def ListPrincipalsQuery.pairs (q : ListPrincipalsQuery) : List (String × String) :=
  q.page.pairs ++ [("space", q.space)]

def ListPrincipalsQuery.fromQuery (query : String) : Except InvalidQuery ListPrincipalsQuery := do
  let values ← parse query ["space", "cursor", "limit"]
  let space ← required (values.lookup "space") ⟨⟩
  let page ← Domain.page values
  let result := ListPrincipalsQuery.mk space page
  valid result.validate
  return result

def RelationType.ofValue : Option String → Except InvalidQuery (Option RelationType)
  | none => .ok none
  | some text => some <$> required (relationTypes.find? fun r => r.asStr = text) ⟨⟩

def ListRecordsQuery.pairs (q : ListRecordsQuery) : List (String × String) :=
  q.page.pairs ++ optional "after_seq" (q.afterSeq.map fun seq => toString seq.toNat) ++
    (optional "author" q.author ++ optional "attention" q.attention ++ optional "kind" q.kind) ++
    optional "relation" (q.relation.map RelationType.asStr)

def ListRecordsQuery.fromQuery (query : String) : Except InvalidQuery ListRecordsQuery := do
  let values ← parse query
    ["cursor", "limit", "after_seq", "author", "attention", "kind", "relation"]
  let relation ← RelationType.ofValue (values.lookup "relation")
  let page ← Domain.page values
  let afterSeq ← number values "after_seq"
  let result := ListRecordsQuery.mk page (afterSeq.map UInt64.ofNat) (values.lookup "author")
    (values.lookup "attention") (values.lookup "kind") relation
  valid result.validate
  return result

def SearchOrder.ofValue : Option String → Except InvalidQuery SearchOrder
  | none => .ok .rank
  | some "rank" => .ok .rank
  | some "seq" => .ok .seq
  | some _ => .error ⟨⟩

def SearchRecordsQuery.pairs (q : SearchRecordsQuery) : List (String × String) :=
  q.page.pairs ++ [("q", q.q)] ++ [("order", q.order.asStr)] ++
    (optional "author" q.author ++ optional "attention" q.attention ++ optional "since" q.since)

def SearchRecordsQuery.fromQuery (read : String → Option ℤ) (query : String) :
    Except InvalidQuery SearchRecordsQuery := do
  let values ← parse query ["q", "cursor", "limit", "author", "attention", "since", "order"]
  let q ← required (values.lookup "q") ⟨⟩
  let page ← Domain.page values
  let order ← SearchOrder.ofValue (values.lookup "order")
  let result := SearchRecordsQuery.mk q page (values.lookup "author") (values.lookup "attention")
    (values.lookup "since") order
  valid (result.validate read)
  return result

variable {values rest : List (String × String)} {key other : String} {value : Option String}

@[simp] theorem lookup_optional :
    (optional key value ++ rest).lookup other =
    if other = key then value.or (rest.lookup other) else rest.lookup other := by
  cases value with
  | none => simp [optional]
  | some text =>
    by_cases h : other = key
    · simp [optional, h]
    · simp [optional, h, List.lookup_cons, beq_false_of_ne h]

@[simp] theorem lookup_optional_last :
    (optional key value).lookup other = if other = key then value else none := by
  have h : (optional key value ++ []).lookup other = _ := lookup_optional
  simpa using h

theorem optional_keys (key : String) (value : Option String) :
    ((optional key value).map Prod.fst).Sublist [key] := by
  cases value with
  | none => exact List.nil_sublist _
  | some text => exact List.Sublist.refl _

theorem number_eq {n : Option ℕ} (h : values.lookup key = n.map toString)
    (hsize : ∀ m ∈ n, m < UInt64.size) :
    number values key = .ok n := by
  rw [number, h]
  cases n with
  | none => rfl
  | some m =>
    change some <$> required (parseU64 (toString m)) InvalidQuery.mk = _
    rw [parseU64_toString (hsize m rfl)]
    rfl

theorem valid_of_ok {x : Except WireValidationError Unit} (h : x = .ok ()) : valid x = .ok () := by
  rw [h]
  rfl

theorem page_eq {q : PageQuery} (hcursor : values.lookup "cursor" = q.cursor)
    (hlimit : values.lookup "limit" = q.limit.map toString) (hvalid : q.validate = .ok ()) :
    page values = .ok q := by
  have hsize : ∀ m ∈ q.limit, m < UInt64.size := by
    intro m hm
    have h := hvalid
    simp only [PageQuery.validate, bind_eq_ok] at h
    obtain ⟨-, -, h⟩ := h
    simp only [liftDomain_eq_ok, validatePageSize, failIf_eq_ok, not_not, PageQuery.effectiveLimit,
      Option.mem_def.mp hm, Option.getD_some] at h
    exact lt_of_le_of_lt h.2 (by decide)
  simp only [page, number_eq hlimit hsize, hcursor, ok_bind, pure_eq_ok]
  rw [valid_of_ok hvalid]
  rfl

theorem InboxState.ofValue_asStr (state : InboxState) :
    InboxState.ofValue (some state.asStr) = .ok state := by
  cases state <;> rfl

theorem SearchOrder.ofValue_asStr (order : SearchOrder) :
    SearchOrder.ofValue (some order.asStr) = .ok order := by
  cases order <;> rfl

theorem RelationType.ofValue_asStr (relation : Option RelationType) :
    RelationType.ofValue (relation.map RelationType.asStr) = .ok relation := by
  cases relation with
  | none => rfl
  | some relation => cases relation <;> rfl

theorem page_keys (q : PageQuery) : (q.pairs.map Prod.fst).Sublist ["cursor", "limit"] := by
  rw [PageQuery.pairs, List.map_append]
  exact (optional_keys "cursor" _).append (optional_keys "limit" _)

theorem PageQuery.fromQuery_pairs {q : PageQuery} (h : q.validate = .ok ()) :
    PageQuery.fromQuery (queryString q.pairs) = .ok q := by
  rw [PageQuery.fromQuery, parse_queryString (page_keys q) (by decide) (by decide), ok_bind]
  refine page_eq ?_ ?_ h <;> simp [PageQuery.pairs]

theorem InboxQuery.fromQuery_pairs {q : InboxQuery} (h : q.validate = .ok ()) :
    InboxQuery.fromQuery (queryString q.pairs) = .ok q := by
  simp only [InboxQuery.validate, bind_eq_ok, failIf_eq_ok, gt_iff_lt, not_lt] at h
  obtain ⟨⟨⟩, hpage, hwait⟩ := h
  have hpairs : q.pairs = optional "cursor" q.page.cursor ++
    (optional "limit" (q.page.limit.map toString) ++
      (optional "state" (some q.state.asStr) ++
        optional "wait_seconds"
        (if q.waitSeconds > 0 then some (toString q.waitSeconds) else none))) := by
    rw [InboxQuery.pairs, PageQuery.pairs, List.append_assoc, List.append_assoc]
    split <;> rfl
  have hkeys : (q.pairs.map Prod.fst).Sublist ["cursor", "limit", "state", "wait_seconds"] := by
    rw [hpairs, List.map_append, List.map_append, List.map_append]
    exact (optional_keys _ _).append
      ((optional_keys _ _).append ((optional_keys _ _).append (optional_keys _ _)))
  have hseconds : number q.pairs "wait_seconds" =
      .ok (if q.waitSeconds > 0 then some q.waitSeconds else none) := by
    refine number_eq ?_ fun m hm => ?_
    · rw [hpairs]
      split <;> simp
    · split at hm
      · cases hm
        exact lt_of_le_of_lt hwait (by decide)
      · cases hm
  have hdefault : (if q.waitSeconds > 0 then some q.waitSeconds else none).getD 0 =
    q.waitSeconds := by
    split
    · rfl
    · rw [Option.getD_none]
      omega
  have hstate : q.pairs.lookup "state" = some q.state.asStr := by
    rw [hpairs]
    simp
  have hread : Domain.page q.pairs = .ok q.page := by
    refine page_eq ?_ ?_ hpage <;> rw [hpairs] <;> simp
  rw [InboxQuery.fromQuery, parse_queryString hkeys (by decide) (by decide)]
  simp only [ok_bind, hseconds, hdefault, gt_iff_lt, failIf_neg (not_lt.mpr hwait), hstate,
    InboxState.ofValue_asStr, hread, pure_eq_ok]

theorem ListPrincipalsQuery.fromQuery_pairs {q : ListPrincipalsQuery} (h : q.validate = .ok ()) :
    ListPrincipalsQuery.fromQuery (queryString q.pairs) = .ok q := by
  have hpage : q.page.validate = .ok () := by
    simp only [ListPrincipalsQuery.validate, bind_eq_ok] at h
    obtain ⟨-, -, h⟩ := h
    exact h
  have hpairs : q.pairs = optional "cursor" q.page.cursor ++
    (optional "limit" (q.page.limit.map toString) ++
      optional "space" (some q.space)) := List.append_assoc ..
  have hkeys : (q.pairs.map Prod.fst).Sublist ["cursor", "limit", "space"] := by
    rw [hpairs, List.map_append, List.map_append]
    exact (optional_keys _ _).append ((optional_keys _ _).append (optional_keys _ _))
  have hspace : q.pairs.lookup "space" = some q.space := by
    rw [hpairs]
    simp
  have hread : Domain.page q.pairs = .ok q.page := by
    refine page_eq ?_ ?_ hpage <;> rw [hpairs] <;> simp
  rw [ListPrincipalsQuery.fromQuery, parse_queryString hkeys (by decide) (by decide)]
  simp only [ok_bind, hspace, required, hread, valid_of_ok h, pure_eq_ok]

theorem ListRecordsQuery.fromQuery_pairs {q : ListRecordsQuery} (h : q.validate = .ok ()) :
    ListRecordsQuery.fromQuery (queryString q.pairs) = .ok q := by
  have hpage : q.page.validate = .ok () := by
    simp only [ListRecordsQuery.validate, bind_eq_ok] at h
    obtain ⟨⟨⟩, h, -⟩ := h
    exact h
  have hpairs : q.pairs = optional "cursor" q.page.cursor ++
    (optional "limit" (q.page.limit.map toString) ++
      (optional "after_seq" (q.afterSeq.map fun seq => toString seq.toNat) ++
        (optional "author" q.author ++
        (optional "attention" q.attention ++ (optional "kind" q.kind ++
          optional "relation" (q.relation.map RelationType.asStr)))))) := by
    simp only [ListRecordsQuery.pairs, PageQuery.pairs, List.append_assoc]
  have hkeys : (q.pairs.map Prod.fst).Sublist
      ["cursor", "limit", "after_seq", "author", "attention", "kind", "relation"] := by
    rw [hpairs]
    simp only [List.map_append]
    exact (optional_keys _ _).append ((optional_keys _ _).append ((optional_keys _ _).append
      ((optional_keys _ _).append
        ((optional_keys _ _).append ((optional_keys _ _).append (optional_keys _ _))))))
  have hvalues : q.pairs.lookup "author" = q.author ∧ q.pairs.lookup "attention" = q.attention ∧
      q.pairs.lookup "kind" = q.kind ∧
      q.pairs.lookup "relation" = q.relation.map RelationType.asStr := by
    rw [hpairs]
    simp
  have hseq : number q.pairs "after_seq" = .ok (q.afterSeq.map UInt64.toNat) := by
    refine number_eq ?_ fun m hm => ?_
    · rw [hpairs, Option.map_map]
      simp [Function.comp_def]
    · obtain ⟨seq, -, rfl⟩ := Option.map_eq_some_iff.mp hm
      exact seq.toNat_lt
  have hback : (q.afterSeq.map UInt64.toNat).map UInt64.ofNat = q.afterSeq := by
    rw [Option.map_map]
    refine (Option.map_congr fun seq _ => UInt64.ofNat_toNat).trans Option.map_id'
  have hread : Domain.page q.pairs = .ok q.page := by
    refine page_eq ?_ ?_ hpage <;> rw [hpairs] <;> simp
  rw [ListRecordsQuery.fromQuery, parse_queryString hkeys (by decide) (by decide)]
  simp only [ok_bind, hvalues, RelationType.ofValue_asStr, hread, hseq, hback, valid_of_ok h,
    pure_eq_ok]

theorem SearchRecordsQuery.fromQuery_pairs {read : String → Option ℤ} {q : SearchRecordsQuery}
    (h : q.validate read = .ok ()) :
    SearchRecordsQuery.fromQuery read (queryString q.pairs) = .ok q := by
  have hpage : q.page.validate = .ok () := by
    simp only [SearchRecordsQuery.validate, bind_eq_ok] at h
    obtain ⟨⟨⟩, -, ⟨⟩, h, -⟩ := h
    exact h
  have hpairs : q.pairs = optional "cursor" q.page.cursor ++
    (optional "limit" (q.page.limit.map toString) ++
      (optional "q" (some q.q) ++
        (optional "order" (some q.order.asStr) ++ (optional "author" q.author ++
        (optional "attention" q.attention ++ optional "since" q.since))))) := by
    simp only [SearchRecordsQuery.pairs, PageQuery.pairs, List.append_assoc]
    rfl
  have hkeys : (q.pairs.map Prod.fst).Sublist
      ["cursor", "limit", "q", "order", "author", "attention", "since"] := by
    rw [hpairs]
    simp only [List.map_append]
    exact (optional_keys _ _).append ((optional_keys _ _).append ((optional_keys _ _).append
      ((optional_keys _ _).append
        ((optional_keys _ _).append ((optional_keys _ _).append (optional_keys _ _))))))
  have hvalues : q.pairs.lookup "q" = some q.q ∧ q.pairs.lookup "order" = some q.order.asStr ∧
      q.pairs.lookup "author" = q.author ∧ q.pairs.lookup "attention" = q.attention ∧
      q.pairs.lookup "since" = q.since := by
    rw [hpairs]
    simp
  have hread : Domain.page q.pairs = .ok q.page := by
    refine page_eq ?_ ?_ hpage <;> rw [hpairs] <;> simp
  rw [SearchRecordsQuery.fromQuery, parse_queryString hkeys (by decide) (by decide)]
  simp only [ok_bind, hvalues, required, SearchOrder.ofValue_asStr, hread, valid_of_ok h,
    pure_eq_ok]

/-- The queries of the client are read back, and a query is read exactly or refused. -/
theorem query_codec (read : String → Option ℤ) :
    (∀ q : PageQuery, q.validate = .ok () → PageQuery.fromQuery (queryString q.pairs) = .ok q) ∧
    (∀ q : InboxQuery, q.validate = .ok () → InboxQuery.fromQuery (queryString q.pairs) = .ok q) ∧
    (∀ q : ListPrincipalsQuery, q.validate = .ok () →
      ListPrincipalsQuery.fromQuery (queryString q.pairs) = .ok q) ∧
    (∀ q : ListRecordsQuery, q.validate = .ok () →
      ListRecordsQuery.fromQuery (queryString q.pairs) = .ok q) ∧
    (∀ q : SearchRecordsQuery, q.validate read = .ok () →
      SearchRecordsQuery.fromQuery read (queryString q.pairs) = .ok q) ∧
    ∀ (query : String) (allowed : List String) (values : List (String × String)),
      parse query allowed = .ok values ↔
        WellEscaped (asBytes query) ∧ DecodesTo (asBytes query) values ∧
        (∀ pair ∈ values, pair.1 ∈ allowed) ∧
          (values.map Prod.fst).Nodup :=
  ⟨fun _ => PageQuery.fromQuery_pairs, fun _ => InboxQuery.fromQuery_pairs, fun _ =>
    ListPrincipalsQuery.fromQuery_pairs,
    fun _ => ListRecordsQuery.fromQuery_pairs, fun _ =>
    SearchRecordsQuery.fromQuery_pairs, fun _ _ _ => parse_eq_ok⟩

theorem query_codec_sample :
    InboxQuery.fromQuery (queryString (InboxQuery.mk .all ⟨some "a b&界", some 7⟩ 30).pairs) =
      .ok ⟨.all, ⟨some "a b&界", some 7⟩, 30⟩ :=
  (query_codec fun _ => none).2.1 _ (by decide)

end Values
end AgentJournal.Domain
