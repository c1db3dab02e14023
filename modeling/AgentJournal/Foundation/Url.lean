import AgentJournal.Foundation.Percent
import Mathlib.Data.List.DropRight
import Mathlib.Data.List.Infix

/-! # Paths of a URL

A reference that begins with one slash, read against a base with a special scheme: the parser cuts
the fragment and the query off, splits the rest into segments and resolves the dot segments, also
where a dot is escaped.
-/

namespace AgentJournal.Foundation.Url

def singleDots : List (List UInt8) := [[0x2e], [0x25, 0x32, 0x65], [0x25, 0x32, 0x45]]

def doubleDots : List (List UInt8) := singleDots.flatMap fun a => singleDots.map fun b => a ++ b

/-- The bytes that a path does not encode. -/
def pathKeeps (b : UInt8) : Bool :=
  0x20 < b && b < 0x7f && b ∉ [0x22, 0x23, 0x3c, 0x3e, 0x3f, 0x5e, 0x60, 0x7b, 0x7d]

/-- The bytes that a query does not encode under a special scheme. -/
def queryKeeps (b : UInt8) : Bool := 0x20 < b && b < 0x7f && b ∉ [0x22, 0x23, 0x27, 0x3c, 0x3e]

/-- A special scheme takes either slash for a separator. -/
def isSlash (b : UInt8) : Bool := b = 0x2f || b = 0x5c

/-- One segment of the path; after a dot segment at its end the path ends in a slash. -/
def pathStep (path : List (List UInt8)) (segment : List UInt8) (last : Bool) : List (List UInt8) :=
  if segment ∈ doubleDots then path.dropLast ++ if last then [[]] else []
  else if segment ∈ singleDots then path ++ if last then [[]] else []
  else path ++ [segment]

def walk (path : List (List UInt8)) : List (List UInt8) → List (List UInt8)
  | [] => path
  | segment :: rest => walk (pathStep path segment rest.isEmpty) rest

structure Target where
  path : List (List UInt8)
  query : Option (List UInt8)
deriving DecidableEq, Repr

/-- Blanks and controls at either end do not count, tabs and newlines nowhere. -/
def strip (reference : List UInt8) : List UInt8 :=
  ((reference.dropWhile (· ≤ 0x20)).rdropWhile (· ≤ 0x20)).filter fun b => b ∉ [0x09, 0x0a, 0x0d]

/-- What follows the first of a byte. -/
def behind (mark : UInt8) (text : List UInt8) : Option (List UInt8) :=
  match text.dropWhile (· ≠ mark) with
  | [] => none
  | _ :: rest => some rest

def parsePath (text : List UInt8) : List (List UInt8) :=
  walk [] ((text.splitOnP isSlash).map (percentEncode pathKeeps))

/-- A reference with two slashes names a host of its own, and one without a slash is relative. -/
def join (reference : List UInt8) : Option Target :=
  match (strip reference).takeWhile (· ≠ 0x23) with
  | 0x2f :: rest =>
    if rest.head?.any isSlash then none
    else some
      ⟨parsePath (rest.takeWhile (· ≠ 0x3f)), (behind 0x3f rest).map (percentEncode queryKeeps)⟩
  | _ => none

/-- The path of a request line. -/
def serialize (path : List (List UInt8)) : List UInt8 := path.flatMap fun segment => 0x2f :: segment

variable {path segs : List (List UInt8)} {segment reference : List UInt8}

/-- The bytes stay as they are and do not end the segment. -/
def Clean (segment : List UInt8) : Prop := ∀ b ∈ segment, pathKeeps b = true ∧ isSlash b = false

/-- The parser does not take the segment for a step to another directory. -/
def Named (segment : List UInt8) : Prop := segment ∉ singleDots ∧ segment ∉ doubleDots

theorem percentEncode_kept {keep : UInt8 → Bool} {l : List UInt8} (h : ∀ b ∈ l, keep b = true) :
    percentEncode keep l = l := by
  induction l with
  | nil => rfl
  | cons b l ih =>
    rw [percentEncode_cons, ih fun a ha => h a (List.mem_cons_of_mem _ ha), percentByte,
      if_pos (h b List.mem_cons_self)]
    rfl

theorem walk_named (h : ∀ segment ∈ segs, Named segment) : walk path segs = path ++ segs := by
  induction segs generalizing path with
  | nil => simp [walk]
  | cons segment rest ih =>
    obtain ⟨hsingle, hdouble⟩ := h segment List.mem_cons_self
    rw [walk, pathStep, if_neg hdouble, if_neg hsingle, ih fun s hs =>
      h s (List.mem_cons_of_mem _ hs), List.append_assoc, List.singleton_append]

theorem splitOnP_intercalate (hne : segs ≠ []) (h : ∀ segment ∈ segs, Clean segment) :
    ([0x2f].intercalate segs).splitOnP isSlash = segs := by
  induction segs with
  | nil => exact absurd rfl hne
  | cons segment rest ih =>
    have hhead : ∀ b ∈ segment, isSlash b = false :=
      fun b hb => (h segment List.mem_cons_self b hb).2
    cases rest with
    | nil => simpa using List.splitOnP_eq_singleton hhead
    | cons next rest =>
      have hrest := ih (List.cons_ne_nil _ _) fun s hs => h s (List.mem_cons_of_mem _ hs)
      rw [List.intercalate_cons_cons, List.append_assoc, List.singleton_append,
        List.splitOnP_append_cons_of_forall_mem hhead 0x2f (by decide), hrest]

/-- Segments that are clean are resolved, and otherwise stay. -/
theorem parsePath_intercalate (hne : segs ≠ []) (h : ∀ segment ∈ segs, Clean segment) :
    parsePath ([0x2f].intercalate segs) = walk [] segs := by
  have hkept : segs.map (percentEncode pathKeeps) = segs.map id :=
    List.map_congr_left fun segment hsegment => percentEncode_kept fun b hb =>
      (h segment hsegment b hb).1
  rw [parsePath, splitOnP_intercalate hne h, hkept, List.map_id]

theorem strip_eq (h : ∀ b ∈ reference, 0x20 < b) : strip reference = reference := by
  have hlow : ∀ b ∈ reference, ¬ b ≤ 0x20 := fun b hb => UInt8.not_le.mpr (h b hb)
  have hleft : reference.dropWhile (· ≤ 0x20) = reference := by
    cases reference with
    | nil => rfl
    | cons b rest => exact List.dropWhile_cons_of_neg (by simpa using hlow b List.mem_cons_self)
  have hright : reference.rdropWhile (· ≤ 0x20) = reference := by
    refine List.rdropWhile_eq_self_iff.mpr fun hne => ?_
    simpa using hlow _ (List.getLast_mem hne)
  rw [strip, hleft, hright]
  refine List.filter_eq_self.mpr fun b hb => ?_
  have hb := UInt8.lt_iff_toNat_lt.mp (h b hb)
  simp only [List.mem_cons, List.not_mem_nil, or_false, not_or, decide_eq_true_eq]
  refine ⟨?_, ?_, ?_⟩ <;> rintro rfl <;> exact absurd hb (by decide)

/-- The text of a query behind its mark. -/
def querySuffix (query : Option (List UInt8)) : List UInt8 := query.elim [] (0x3f :: ·)

theorem behind_querySuffix {text : List UInt8} (h : 0x3f ∉ text) (query : Option (List UInt8)) :
    behind 0x3f (text ++ querySuffix query) = query := by
  have hne : ∀ b ∈ text, (decide (b ≠ 0x3f)) = true := by
    intro b hb
    simpa using fun heq : b = 0x3f => h (heq ▸ hb)
  rw [behind, List.dropWhile_append_of_pos hne]
  cases query <;> rfl

theorem takeWhile_querySuffix {text : List UInt8} (h : 0x3f ∉ text) (query : Option (List UInt8)) :
    (text ++ querySuffix query).takeWhile (· ≠ 0x3f) = text := by
  have hne : ∀ b ∈ text, (decide (b ≠ 0x3f)) = true := by
    intro b hb
    simpa using fun heq : b = 0x3f => h (heq ▸ hb)
  rw [List.takeWhile_append_of_pos hne]
  cases query <;> simp [querySuffix]

theorem mem_intercalate {b : UInt8} (h : b ∈ [0x2f].intercalate segs) :
    b = 0x2f ∨ ∃ segment ∈ segs, b ∈ segment := by
  induction segs with
  | nil => cases h
  | cons segment rest ih =>
    cases rest with
    | nil => exact .inr ⟨segment, List.mem_cons_self, by simpa using h⟩
    | cons next rest =>
      rw [List.intercalate_cons_cons, List.append_assoc] at h
      rcases List.mem_append.mp h with hhead | htail
      · exact .inr ⟨segment, List.mem_cons_self, hhead⟩
      · rcases List.mem_cons.mp htail with rfl | htail
        · exact .inl rfl
        · obtain hslash | ⟨s, hs, hb⟩ := ih htail
          · exact .inl hslash
          · exact .inr ⟨s, List.mem_cons_of_mem _ hs, hb⟩

theorem serialize_eq (hne : segs ≠ []) : serialize segs = 0x2f :: [0x2f].intercalate segs := by
  induction segs with
  | nil => exact absurd rfl hne
  | cons segment rest ih =>
    cases rest with
    | nil => simp [serialize]
    | cons next rest =>
      have hrest := ih (List.cons_ne_nil _ _)
      rw [serialize] at hrest ⊢
      rw [List.flatMap_cons, hrest, List.intercalate_cons_cons, List.append_assoc]
      rfl

theorem of_pathKeeps {b : UInt8} (h : pathKeeps b = true) : 0x20 < b ∧ b ≠ 0x23 ∧ b ≠ 0x3f := by
  simp only [pathKeeps, Bool.and_eq_true, decide_eq_true_eq, List.mem_cons, List.not_mem_nil,
    or_false, not_or] at h
  exact ⟨h.1.1, h.2.2.1, h.2.2.2.2.2.1⟩

theorem of_queryKeeps {b : UInt8} (h : queryKeeps b = true) : 0x20 < b ∧ b ≠ 0x23 := by
  simp only [queryKeeps, Bool.and_eq_true, decide_eq_true_eq, List.mem_cons, List.not_mem_nil,
    or_false, not_or] at h
  exact ⟨h.1.1, h.2.2.1⟩

/-- A clean reference has no blank, no control and no fragment. -/
theorem mem_reference (hclean : ∀ segment ∈ segs, Clean segment) {query : Option (List UInt8)}
    (hquery : ∀ text ∈ query, ∀ b ∈ text, queryKeeps b = true) :
    ∀ b ∈ 0x2f :: ([0x2f].intercalate segs ++ querySuffix query), 0x20 < b ∧ b ≠ 0x23 := by
  intro b hb
  rcases List.mem_cons.mp hb with rfl | hb
  · decide
  · rcases List.mem_append.mp hb with hb | hb
    · obtain rfl | ⟨segment, hsegment, hb⟩ := mem_intercalate hb
      · decide
      · obtain ⟨hlow, hmark, -⟩ := of_pathKeeps (hclean segment hsegment b hb).1
        exact ⟨hlow, hmark⟩
    · cases query with
      | none => cases hb
      | some text =>
        rcases List.mem_cons.mp hb with rfl | hb
        · decide
        · exact of_queryKeeps (hquery text rfl b hb)

/-- A reference of clean segments and a clean query is taken apart where it was put together. -/
theorem join_intercalate (hhead : ∃ b first rest, segs = (b :: first) :: rest)
    (hclean : ∀ segment ∈ segs, Clean segment) {query : Option (List UInt8)}
    (hquery : ∀ text ∈ query, ∀ b ∈ text, queryKeeps b = true) :
    join (0x2f :: ([0x2f].intercalate segs ++ querySuffix query)) = some ⟨walk [] segs, query⟩ := by
  have hne : segs ≠ [] := by
    obtain ⟨b, first, rest, rfl⟩ := hhead
    exact List.cons_ne_nil _ _
  have hslash : ([0x2f].intercalate segs ++ querySuffix query).head?.any isSlash = false := by
    obtain ⟨b, first, rest, rfl⟩ := hhead
    have hb := (hclean (b :: first) List.mem_cons_self b List.mem_cons_self).2
    cases rest <;> simpa [List.intercalate_cons_cons] using hb
  have hmark : 0x3f ∉ [0x2f].intercalate segs := by
    intro hmem
    obtain heq | ⟨segment, hsegment, hb⟩ := mem_intercalate hmem
    · exact absurd heq (by decide)
    · exact (of_pathKeeps (hclean segment hsegment _ hb).1).2.2 rfl
  have hkept : query.map (percentEncode queryKeeps) = query := by
    cases query with
    | none => rfl
    | some text => rw [Option.map_some, percentEncode_kept (hquery text rfl)]
  have hall := mem_reference hclean hquery
  have hfragment : (0x2f :: ([0x2f].intercalate segs ++ querySuffix query)).takeWhile (· ≠ 0x23) =
      0x2f :: ([0x2f].intercalate segs ++ querySuffix query) := by
    refine List.takeWhile_eq_self_iff.mpr fun b hb => ?_
    simpa using (hall b hb).2
  rw [join, strip_eq fun b hb => (hall b hb).1, hfragment]
  simp only [hslash, Bool.false_eq_true, if_false, takeWhile_querySuffix hmark,
    behind_querySuffix hmark, parsePath_intercalate hne hclean, hkept]

end AgentJournal.Foundation.Url
