import AgentJournal.Domain.Wire
import Mathlib.Data.List.Nodup
import Mathlib.Data.List.DropRight
import Mathlib.Data.List.TakeWhile

/-! # What validation accepts

Each check of a record input as a statement about the input.
-/

namespace AgentJournal.Domain
open Foundation

/-- Between 1 and 128 characters. -/
def IsIdentifier (value : String) : Prop := value ≠ "" ∧ charCount value ≤ maxIdentifierChars

theorem validateIdentifier_eq_ok {field value : String} {u : Unit} :
    validateIdentifier field value = .ok u ↔ IsIdentifier value := by
  simp [validateIdentifier, IsIdentifier]

theorem liftDomain_eq_ok {α : Type} {x : Except ValidationError α} {a : α} :
    liftDomain x = .ok a ↔ x = .ok a := by
  cases x <;> simp [liftDomain]

theorem validateAttention_eq_ok {seen attention : List String} {u : Unit} :
    validateAttention seen attention = .ok u ↔
      (∀ p ∈ attention, IsIdentifier p ∧ p ∉ seen) ∧ attention.Nodup := by
  induction attention generalizing seen with
  | nil => simp [validateAttention]
  | cons p rest ih =>
    rw [List.forall_mem_cons, List.nodup_cons]
    simp only [validateAttention, bind_eq_ok, validateIdentifier_eq_ok, failIf_eq_ok, ih]
    constructor
    · rintro ⟨-, hp, -, hseen, hrest, hnodup⟩
      refine ⟨⟨⟨hp, hseen⟩, fun q hq => ⟨(hrest q hq).1, ?_⟩⟩, ?_, hnodup⟩
      · intro hmem
        exact (hrest q hq).2 (List.mem_cons_of_mem p hmem)
      · intro hmem
        exact (hrest p hmem).2 List.mem_cons_self
    · rintro ⟨⟨⟨hp, hseen⟩, hrest⟩, hfresh, hnodup⟩
      refine ⟨(), hp, (), hseen, fun q hq => ⟨(hrest q hq).1, ?_⟩, hnodup⟩
      intro hmem
      obtain rfl | hmem := List.mem_cons.mp hmem
      · exact hfresh hq
      · exact (hrest q hq).2 hmem

/-- The edges of a list of relations that reply. -/
def replies (relations : List Relation) : ℕ := relations.countP fun r => r.relationType = .replyTo

theorem validateRelations_eq_ok {count : ℕ} {relations : List Relation} {u : Unit} :
    validateRelations count relations = .ok u ↔ (∀ r ∈ relations, IsIdentifier r.recordId) ∧
      (replies relations = 0 ∨ count + replies relations ≤ 1) := by
  induction relations generalizing count with
  | nil => simp [validateRelations, replies]
  | cons r rest ih =>
    simp only [validateRelations, bind_eq_ok, validateIdentifier_eq_ok, failIf_eq_ok, ih,
      List.forall_mem_cons, replies, List.countP_cons]
    by_cases hreply : r.relationType = .replyTo
    · simp only [hreply, true_and, if_true, decide_true]
      constructor
      · rintro ⟨-, hr, -, hcount, hrest, hreplies⟩
        exact ⟨⟨hr, hrest⟩, by omega⟩
      · rintro ⟨⟨hr, hrest⟩, hreplies⟩
        exact ⟨(), hr, (), by omega, hrest, by omega⟩
    · simp only [hreply, false_and, not_false_eq_true, if_false, decide_false, Bool.false_eq_true,
        Nat.add_zero]
      constructor
      · rintro ⟨-, hr, -, -, hrest, hreplies⟩
        exact ⟨⟨hr, hrest⟩, hreplies⟩
      · rintro ⟨⟨hr, hrest⟩, hreplies⟩
        exact ⟨(), hr, (), trivial, hrest, hreplies⟩

theorem validateOptional_eq_ok {field : String} {value : Option String} {u : Unit} :
    validateOptional field value = .ok u ↔ ∀ text ∈ value, text ≠ "" → IsIdentifier text := by
  cases value with
  | none => simp [validateOptional]
  | some text =>
    by_cases h : text = "" <;> simp [validateOptional, h, validateIdentifier_eq_ok]

/-- No more than 200 characters, none of them a control character. -/
def IsTitle (title : String) : Prop :=
  charCount title ≤ maxTitleChars ∧ title.toList.any isControl = false

theorem validateOptionalTitle_eq_ok {title : Option String} {u : Unit} :
    validateOptionalTitle title = .ok u ↔ ∀ t ∈ title, IsTitle t := by
  cases title with
  | none => simp [validateOptionalTitle]
  | some t => simp [validateOptionalTitle, validateTitle, IsTitle]

/-- What a record input that passes validation satisfies. -/
structure RecordInput.Valid (input : RecordInput) : Prop where
  kind : IsIdentifier input.kind
  content : input.content ≠ ""
  contentBytes : input.content.utf8ByteSize ≤ maxContentBytes
  relationCount : input.relations.length ≤ maxRelations
  attentionCount : input.attention.length ≤ maxAttentionRecipients
  attention : ∀ p ∈ input.attention, IsIdentifier p
  distinct : input.attention.Nodup
  runId : ∀ id ∈ input.runId, id ≠ "" → IsIdentifier id
  relations : ∀ r ∈ input.relations, IsIdentifier r.recordId
  replies : replies input.relations ≤ 1
  routingKey : ∀ key ∈ input.routingKey, key ≠ "" → IsIdentifier key
  title : ∀ t ∈ normalizeTitle input.title, IsTitle t

theorem RecordInput.validate_eq_ok {input : RecordInput} {u : Unit} :
    input.validate = .ok u ↔ input.Valid := by
  simp only [RecordInput.validate, bind_eq_ok, failIf_eq_ok, validateIdentifier_eq_ok,
    validateAttention_eq_ok, validateRelations_eq_ok, validateOptional_eq_ok,
    validateOptionalTitle_eq_ok, not_lt, Nat.zero_add]
  constructor
  · rintro ⟨-, hkind, -, hcontent, -, hbytes, -, hrelations, -, hcount, -, ⟨hattention, hdistinct⟩,
      -,
      hrun, -, ⟨htargets, hreplies⟩, -, hkey, htitle⟩
    exact ⟨hkind, hcontent, hbytes, hrelations, hcount, fun p hp =>
      (hattention p hp).1, hdistinct, hrun,
      htargets, by omega, hkey, htitle⟩
  · intro h
    exact ⟨(), h.kind, (), h.content, (), h.contentBytes, (), h.relationCount, (), h.attentionCount,
      (),
      ⟨fun p hp => ⟨h.attention p hp, by simp⟩, h.distinct⟩, (), h.runId, (),
      ⟨h.relations, .inr h.replies⟩, (), h.routingKey, h.title⟩

section Lengths

/-- A text that is empty for SQLite. -/
def BeginsNul (s : String) : Prop := s.toList.head? = some '\x00'

instance (s : String) : Decidable (BeginsNul s) := inferInstanceAs (Decidable (_ = _))

theorem one_le_sqlLength {s : String} (hne : s ≠ "") (hnul : ¬BeginsNul s) : 1 ≤ sqlLength s := by
  unfold BeginsNul at hnul
  unfold sqlLength sqlChars
  cases hchars : s.toList with
  | nil => exact absurd (String.toList_eq_nil_iff.mp hchars) hne
  | cons c rest =>
    rw [hchars, List.head?_cons, Option.some_inj] at hnul
    rw [List.takeWhile_cons_of_pos (by simpa using hnul), List.length_cons]
    omega

/-- Without control characters SQLite sees the whole text. -/
theorem sqlLength_of_printable {s : String} (h : s.toList.any isControl = false) :
    sqlLength s = charCount s := by
  unfold sqlLength charCount
  rw [sqlChars_of_notMem]
  intro hnul
  exact absurd ((List.any_eq_false.mp h) _ hnul) (by decide)

theorem ne_empty_of_charCount {s : String} (h : 1 ≤ charCount s) : s ≠ "" := by
  rintro rfl
  exact absurd h (by decide)

/-- A text within its limits is within those of SQLite unless it begins with NUL. -/
theorem sqlLength_within {s : String} {max : ℕ} (h : 1 ≤ charCount s ∧ charCount s ≤ max)
    (hnul : ¬BeginsNul s) : 1 ≤ sqlLength s ∧ sqlLength s ≤ max :=
  ⟨one_le_sqlLength (ne_empty_of_charCount h.1) hnul, (sqlLength_le s).trans h.2⟩

theorem IsIdentifier.chars {s : String} (h : IsIdentifier s) :
    1 ≤ charCount s ∧ charCount s ≤ 128 := by
  refine ⟨?_, h.2⟩
  by_contra hzero
  unfold charCount at hzero
  exact h.1 (String.toList_eq_nil_iff.mp (List.length_eq_zero_iff.mp (by omega)))

end Lengths

section Requests
variable {u : Unit}

theorem validateChars_eq_ok {field value : String} {min max : ℕ} :
    validateChars field value min max = .ok u ↔ min ≤ charCount value ∧ charCount value ≤ max := by
  simp [validateChars]

theorem validateOptionalChars_eq_ok {field : String} {value : Option String} {min max : ℕ} :
    validateOptionalChars field value min max = .ok u ↔
      ∀ text ∈ value, min ≤ charCount text ∧ charCount text ≤ max := by
  cases value <;> simp [validateOptionalChars, validateChars_eq_ok]

theorem PrincipalCreateRequest.validate_eq_ok {request : PrincipalCreateRequest} :
    request.validate = .ok u ↔ IsIdentifier request.handle ∧
      1 ≤ charCount request.displayName ∧ charCount request.displayName ≤ 128 := by
  simp only [PrincipalCreateRequest.validate, bind_eq_ok, liftDomain_eq_ok,
    validateIdentifier_eq_ok, validateChars_eq_ok, exists_const]

theorem ProfileUpdateRequest.validate_eq_ok {request : ProfileUpdateRequest} :
    request.validate = .ok u ↔ IsIdentifier request.handle ∧
      (1 ≤ charCount request.displayName ∧ charCount request.displayName ≤ 128) ∧
      (∀ text ∈ request.description, charCount text ≤ 512) ∧
      1 ≤ request.expectedProfileRevision := by
  simp only [ProfileUpdateRequest.validate, bind_eq_ok, liftDomain_eq_ok, validateIdentifier_eq_ok,
    validateChars_eq_ok, validateOptionalChars_eq_ok, failIf_eq_ok, exists_and_left, exists_const,
    Nat.zero_le, true_and, Int.not_lt]

theorem SpaceCreateRequest.validate_eq_ok {request : SpaceCreateRequest} :
    request.validate = .ok u ↔ IsIdentifier request.id ∧
      1 ≤ charCount request.name ∧ charCount request.name ≤ 128 := by
  simp only [SpaceCreateRequest.validate, bind_eq_ok, liftDomain_eq_ok, validateIdentifier_eq_ok,
    validateChars_eq_ok, exists_const]

end Requests

section Titles

theorem dropWhile_prefix_dropWhile {p : Char → Bool} {l m : List Char} (h : m <+: l.dropWhile p) :
    m.dropWhile p = m := by
  cases m with
  | nil => rfl
  | cons c m =>
    obtain ⟨rest, hrest⟩ := h
    have hhead := List.head?_dropWhile_not p l
    rw [← hrest] at hhead
    rw [List.dropWhile_cons_of_neg (by simpa using hhead)]

theorem trim_trim (s : String) : trim (trim s) = trim s := by
  have hfront : (trim s).toList <+: s.toList.dropWhile isWhitespace := by
    rw [trim, String.toList_ofList, ← List.reverse_suffix, List.reverse_reverse]
    exact List.dropWhile_suffix _
  have hback : (trim s).toList.reverse = (s.toList.dropWhile isWhitespace).reverse.dropWhile
      isWhitespace := by
    rw [trim, String.toList_ofList, List.reverse_reverse]
  conv_lhs =>
    rw [trim, dropWhile_prefix_dropWhile hfront, hback, List.dropWhile_idempotent, ← hback,
      List.reverse_reverse, String.ofList_toList]

/-- A normalized title is its own normalization, and not empty. -/
theorem normalizeTitle_some {raw : Option String} {title : String}
    (h : normalizeTitle raw = some title) :
    title ≠ "" ∧ normalizeTitle (some title) = some title := by
  cases raw with
  | none => cases h
  | some text =>
    simp only [normalizeTitle, Option.bind_some] at h ⊢
    split at h
    · cases h
    · rename_i hne
      cases h
      rw [trim_trim, if_neg hne]
      exact ⟨hne, rfl⟩

end Titles
end AgentJournal.Domain
