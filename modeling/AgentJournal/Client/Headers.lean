import AgentJournal.Domain.Coded
import AgentJournal.Domain.Wire
import Mathlib.Data.List.DropRight

/-! # Idempotency keys in a header

The client sends the key of a request in a header field. HTTP does not count the blanks around the
value of a field, so the daemon stores a key without those at its ends. The failures of a client
call stand here too.
-/

namespace AgentJournal.Client
open Foundation Domain

inductive TransportError where
  | unavailable
  | protocol (message : String)
deriving DecidableEq, Repr

inductive ClientError where
  | http (status : ℕ)
  | json
  | invalidRequest
  | unavailable
  | transport (error : TransportError)
deriving DecidableEq, Repr

/-- The two requests with an `Idempotency-Key`. -/
inductive KeyedRequest where
  | append
  | updateProfile
deriving DecidableEq, Repr

/-- The client's check of a key, the same for both requests. -/
def acceptsKey (key : String) : Prop :=
  (1 ≤ charCount key ∧ charCount key ≤ 255) ∧ key.toList.any isControl = false

instance (key : String) : Decidable (acceptsKey key) := inferInstanceAs (Decidable (_ ∧ _))

/-- `token.len() == 64 && token.bytes().all(|b| b.is_ascii_hexdigit())`. -/
def acceptsToken (token : String) : Prop :=
  (asBytes token).length = 64 ∧ (asBytes token).all isAsciiHexdigit = true

instance (token : String) : Decidable (acceptsToken token) := inferInstanceAs (Decidable (_ ∧ _))

/-- The headers of the request, in the order of their map. -/
def requestHeaders (token key : String) : Except ClientError (List (String × String)) := do
  failIf (¬acceptsKey key) .invalidRequest
  failIf (¬acceptsToken token) .invalidRequest
  return [("Authorization", "Bearer " ++ token), ("Content-Type", "application/json"),
    ("Idempotency-Key", key)]

section Fields

/-- The bytes that the value of a header may have. -/
def isFieldByte (b : UInt8) : Bool := (0x20 ≤ b && b ≠ 0x7f) || b = 0x09

/-- `HeaderValue::try_from`. -/
def headerValue (value : String) : Option (List UInt8) :=
  if (asBytes value).all isFieldByte then some (asBytes value) else none

def fieldLine (name value : List UInt8) : List UInt8 := name ++ 0x3a :: 0x20 :: value

def isBlank (b : UInt8) : Bool := b = 0x20 || b = 0x09

def trimBlanks (value : List UInt8) : List UInt8 := (value.dropWhile isBlank).rdropWhile isBlank

/-- A field line of HTTP/1.1: blanks around the value do not belong to it. -/
def readField (line : List UInt8) : Option (List UInt8 × List UInt8) :=
  match line.dropWhile (· ≠ 0x3a) with
  | [] => none
  | _ :: value => some (line.takeWhile (· ≠ 0x3a), trimBlanks value)

/-- The fields that the daemon reads of a request. -/
def transmit (headers : List (String × String)) : Option (List (List UInt8 × List UInt8)) :=
  headers.mapM fun (name, value) => do
    let bytes ← headerValue value
    readField (fieldLine (asBytes name) bytes)

def asciiLower (b : UInt8) : UInt8 := if 0x41 ≤ b ∧ b ≤ 0x5a then b + 0x20 else b

/-- Exactly one field of the name, whose value is UTF-8. -/
def idempotencyKey (fields : List (List UInt8 × List UInt8)) : Option String :=
  match fields.filter fun field => field.1.map asciiLower = asBytes "idempotency-key" with
  | [field] => ofBytes field.2
  | _ => none

/-- The key that the daemon hands to the service. -/
def receivedKey (token key : String) : Option String := do
  let headers ← succeeded (requestHeaders token key)
  let fields ← transmit headers
  idempotencyKey fields

/-- The service's check of a key. -/
def KeyedRequest.serves : KeyedRequest → String → Prop
  | .append, key => 1 ≤ charCount key ∧ charCount key ≤ 255
  | .updateProfile, key => (1 ≤ charCount key ∧ charCount key ≤ 255) ∧
      key.toList.any isControl = false

instance : (request : KeyedRequest) → (key : String) → Decidable (request.serves key)
  | .append, _ => inferInstanceAs (Decidable (_ ∧ _))
  | .updateProfile, _ => inferInstanceAs (Decidable (_ ∧ _))

end Fields

section Blanks
variable {text : List Char}

/-- No blank stands at either end. -/
def Unpadded (key : String) : Prop := key.toList.head? ≠ some ' ' ∧ key.toList.getLast? ≠ some ' '

instance (key : String) : Decidable (Unpadded key) := inferInstanceAs (Decidable (_ ∧ _))

def trimSpaces (text : List Char) : List Char := (text.dropWhile (· = ' ')).rdropWhile (· = ' ')

theorem utf8_blank : String.utf8EncodeChar ' ' = [0x20] := by decide

/-- The bytes of a character that is neither blank nor tab are no blanks. -/
theorem isBlank_eq_false {c : Char} (hspace : c ≠ ' ') (htab : c ≠ '\t') {b : UInt8}
    (hb : b ∈ String.utf8EncodeChar c) : isBlank b = false := by
  by_contra h
  rw [Bool.not_eq_false, isBlank, Bool.or_eq_true, decide_eq_true_eq, decide_eq_true_eq] at h
  have hlow : b < 0x80 := by rcases h with rfl | rfl <;> decide
  have hnat := (utf8EncodeChar_low hlow hb).2
  rcases h with rfl | rfl
  · exact hspace (Char.toNat_inj.mp hnat)
  · exact htab (Char.toNat_inj.mp hnat)

theorem dropWhile_utf8 (h : '\t' ∉ text) :
    (utf8 text).dropWhile isBlank = utf8 (text.dropWhile (· = ' ')) := by
  induction text with
  | nil => rfl
  | cons c text ih =>
    rw [List.mem_cons, not_or] at h
    by_cases hc : c = ' '
    · subst hc
      rw [utf8_cons, utf8_blank]
      exact ih h.2
    · rw [List.dropWhile_cons_of_neg (by simpa using hc), utf8_cons]
      cases hbytes : String.utf8EncodeChar c with
      | nil => exact absurd hbytes String.utf8EncodeChar_ne_nil
      | cons b bytes =>
        have hb :=
          isBlank_eq_false hc (Ne.symm h.1)
          (hbytes ▸ List.mem_cons_self : b ∈ String.utf8EncodeChar c)
        exact List.dropWhile_cons_of_neg (by simp [hb])

theorem rdropWhile_utf8 (h : '\t' ∉ text) :
    (utf8 text).rdropWhile isBlank = utf8 (text.rdropWhile (· = ' ')) := by
  induction text using List.reverseRecOn with
  | nil => rfl
  | append_singleton text c ih =>
    rw [List.mem_append, List.mem_singleton, not_or] at h
    have hone : utf8 [c] = String.utf8EncodeChar c := by simp [utf8]
    by_cases hc : c = ' '
    · subst hc
      rw [utf8_append, hone, utf8_blank, List.rdropWhile_concat_pos _ _ _ (by decide),
        List.rdropWhile_concat_pos _ _ _ (by decide), ih h.1]
    · rw [List.rdropWhile_concat_neg _ _ _ (by simpa using hc), utf8_append, hone]
      obtain ⟨front, b, hbytes⟩ := List.eq_nil_or_concat (String.utf8EncodeChar c) |>.resolve_left
        String.utf8EncodeChar_ne_nil
      have hb := isBlank_eq_false hc (Ne.symm h.2) (hbytes ▸ by simp : b ∈ String.utf8EncodeChar c)
      rw [hbytes, List.concat_eq_append, ← List.append_assoc]
      exact List.rdropWhile_concat_neg _ _ _ (by simp [hb])

theorem trimBlanks_utf8 (h : '\t' ∉ text) : trimBlanks (utf8 text) = utf8 (trimSpaces text) := by
  rw [trimBlanks, dropWhile_utf8 h, rdropWhile_utf8 fun hmem =>
    h ((List.dropWhile_suffix _).subset hmem)]
  rfl

/-- Trimming leaves a text alone exactly when there is nothing to trim. -/
theorem trimSpaces_eq_iff :
    trimSpaces text = text ↔ text.head? ≠ some ' ' ∧ text.getLast? ≠ some ' ' := by
  have hlast : text.rdropWhile (· = ' ') = text ↔ text.getLast? ≠ some ' ' := by
    rw [List.rdropWhile_eq_self_iff]
    constructor
    · intro h hsome
      have hne : text ≠ [] := by rintro rfl; cases hsome
      rw [List.getLast?_eq_some_getLast hne, Option.some.injEq] at hsome
      exact h hne (by simpa using hsome)
    · intro h hne hspace
      rw [decide_eq_true_eq] at hspace
      exact h (by rw [List.getLast?_eq_some_getLast hne, hspace])
  have hhead : text.dropWhile (· = ' ') = text ↔ text.head? ≠ some ' ' := by
    cases text with
    | nil => simp
    | cons c text =>
      by_cases hc : c = ' '
      · subst hc
        have hshort : (text.dropWhile (· = ' ')).length ≤ text.length :=
          (List.dropWhile_suffix _).length_le
        have hne : (' ' :: text).dropWhile (· = ' ') ≠ ' ' :: text := by
          intro heq
          have hlength := congrArg List.length heq
          simp only [decide_true, List.dropWhile_cons_of_pos, List.length_cons] at hlength
          omega
        simpa using hne
      · simp [hc]
  constructor
  · intro h
    have hlength := congrArg List.length h
    have hdrop := (List.dropWhile_suffix (· = ' ') (l := text)).length_le
    have hrdrop := (List.rdropWhile_prefix (· = ' ') (text.dropWhile (· = ' '))).length_le
    have hfront : text.dropWhile (· = ' ') = text := by
      refine (List.dropWhile_suffix _).eq_of_length_le ?_
      rw [trimSpaces] at hlength
      omega
    rw [trimSpaces, hfront] at h
    exact ⟨hhead.mp hfront, hlast.mp h⟩
  · rintro ⟨hfirst, hend⟩
    rw [trimSpaces, hhead.mpr hfirst, hlast.mpr hend]

end Blanks

section Keys
variable {token key : String}

theorem tab_notMem (h : acceptsKey key) : '\t' ∉ key.toList := by
  intro hmem
  have hcontrol := List.any_eq_false.mp h.2 '\t' hmem
  exact hcontrol (by decide)

/-- Every key that the client accepts is the value of a header. -/
theorem headerValue_key (h : acceptsKey key) : headerValue key = some (utf8 key.toList) := by
  rw [headerValue, asBytes_eq, if_pos]
  refine List.all_eq_true.mpr fun b hb => ?_
  obtain ⟨c, hc, hb⟩ := List.mem_flatMap.mp hb
  have hcontrol : isControl c = false := by simpa using List.any_eq_false.mp h.2 c hc
  rcases utf8EncodeChar_cases c with ⟨hlow, hbytes⟩ | hhigh
  · rw [hbytes, List.mem_singleton] at hb
    subst hb
    have hnat : (UInt8.ofNat c.toNat).toNat = c.toNat := by rw [UInt8.toNat_ofNat']; omega
    simp only [isControl, Bool.or_eq_false_iff, decide_eq_false_iff_not,
      Bool.and_eq_false_iff] at hcontrol
    have hge : (0x20 : UInt8) ≤ UInt8.ofNat c.toNat := by
      rw [UInt8.le_iff_toNat_le, hnat]
      exact Nat.not_lt.mp hcontrol.1
    have hdelete : UInt8.ofNat c.toNat ≠ 0x7f := by
      intro heq
      have hval : c.toNat = 0x7f := by rw [← hnat, heq]; rfl
      omega
    simp [isFieldByte, hge, hdelete]
  · have hge : (0x20 : UInt8) ≤ b := UInt8.le_trans (by decide) (hhigh b hb)
    have hdelete : b ≠ 0x7f := by
      rintro rfl
      exact absurd (hhigh _ hb) (by decide)
    simp [isFieldByte, hge, hdelete]

/-- What is checked once of the names and the values that do not vary. -/
theorem constant_headers :
    (asBytes "Bearer ").all isFieldByte = true ∧
    (∀ n : Fin 256, isAsciiHexdigit (UInt8.ofNat n) = true → isFieldByte (UInt8.ofNat n) = true) ∧
    headerValue "application/json" = some (asBytes "application/json") ∧
    (0x3a ∉ asBytes "Authorization" ∧ 0x3a ∉ asBytes "Content-Type" ∧
      0x3a ∉ asBytes "Idempotency-Key") ∧
    ((asBytes "Authorization").map asciiLower ≠ asBytes "idempotency-key" ∧
      (asBytes "Content-Type").map asciiLower ≠ asBytes "idempotency-key" ∧
      (asBytes "Idempotency-Key").map asciiLower = asBytes "idempotency-key") := by
  decide +kernel

theorem headerValue_token (h : acceptsToken token) :
    headerValue ("Bearer " ++ token) = some (asBytes ("Bearer " ++ token)) := by
  rw [headerValue, if_pos]
  rw [asBytes_append, List.all_append, Bool.and_eq_true]
  obtain ⟨hbearer, hall, -⟩ := constant_headers
  refine ⟨hbearer, List.all_eq_true.mpr fun b hb => ?_⟩
  have hbyte := hall ⟨b.toNat, b.toNat_lt⟩
  rw [UInt8.ofNat_toNat] at hbyte
  exact hbyte (List.all_eq_true.mp h.2 b hb)

theorem readField_fieldLine {name : List UInt8} (h : 0x3a ∉ name) (value : List UInt8) :
    readField (fieldLine name value) = some (name, trimBlanks value) := by
  have hne : ∀ b ∈ name, (decide (b ≠ 0x3a)) = true := by
    intro b hb
    simpa using fun heq : b = 0x3a => h (heq ▸ hb)
  rw [readField, fieldLine, List.dropWhile_append_of_pos hne, List.takeWhile_append_of_pos hne]
  simp [trimBlanks, isBlank]

/-- The key arrives without the blanks at its ends. -/
theorem receivedKey_eq (htoken : acceptsToken token) (hkey : acceptsKey key) :
    receivedKey token key = some (String.ofList (trimSpaces key.toList)) := by
  have hheaders : requestHeaders token key = .ok [("Authorization", "Bearer " ++ token),
      ("Content-Type", "application/json"), ("Idempotency-Key", key)] := by
    simp [requestHeaders, failIf, htoken, hkey]
  obtain ⟨-, -, htype, hnames, hothers⟩ := constant_headers
  have hfields : transmit
    [("Authorization", "Bearer " ++ token), ("Content-Type", "application/json"),
      ("Idempotency-Key", key)] =
        some [(asBytes "Authorization", trimBlanks (asBytes ("Bearer " ++ token))),
          (asBytes "Content-Type", trimBlanks (asBytes "application/json")),
        (asBytes "Idempotency-Key", trimBlanks (utf8 key.toList))] := by
    simp only [transmit, List.mapM_cons, List.mapM_nil, headerValue_token htoken, htype,
      headerValue_key hkey, Option.bind_eq_bind, Option.bind_some, readField_fieldLine hnames.1,
      readField_fieldLine hnames.2.1,
      readField_fieldLine hnames.2.2, Option.pure_def]
  have hfound : idempotencyKey
    [(asBytes "Authorization", trimBlanks (asBytes ("Bearer " ++ token))),
      (asBytes "Content-Type", trimBlanks (asBytes "application/json")),
      (asBytes "Idempotency-Key", trimBlanks (utf8 key.toList))] =
        ofBytes (trimBlanks (utf8 key.toList)) := by
    simp [idempotencyKey, hothers]
  rw [trimBlanks_utf8 (tab_notMem hkey), ofBytes_utf8] at hfound
  rw [trimBlanks_utf8 (tab_notMem hkey)] at hfields
  simp only [receivedKey, hheaders, succeeded, Option.bind_eq_bind, Option.bind_some, hfields,
    hfound]

/-- The key that the daemon stores for a request that its service does not refuse for the key. -/
def storedKey (request : KeyedRequest) (token key : String) : Option String :=
  (receivedKey token key).filter fun received => decide (request.serves received)

theorem storedKey_eq_iff (request : KeyedRequest) (htoken : acceptsToken token)
    (hkey : acceptsKey key) :
    storedKey request token key = some key ↔ Unpadded key := by
  rw [storedKey, receivedKey_eq htoken hkey, Unpadded, ← trimSpaces_eq_iff]
  constructor
  · intro h
    have hsome := (Option.filter_eq_some_iff.mp h).1
    rw [Option.some.injEq] at hsome
    conv_rhs => rw [← hsome]
    rw [String.toList_ofList]
  · intro h
    rw [h, String.ofList_toList, Option.filter_some, if_pos]
    cases request
    · exact decide_eq_true hkey.1
    · exact decide_eq_true hkey

/-- A key that the client accepts is stored as it was given exactly when it has no blank at either
end, and two such keys stay two. -/
theorem keys_stored (htoken : acceptsToken token) (request : KeyedRequest) :
    (∀ key, acceptsKey key → (storedKey request token key = some key ↔ Unpadded key)) ∧
      ∀ k₁ k₂, acceptsKey k₁ → acceptsKey k₂ → Unpadded k₁ → Unpadded k₂ →
        storedKey request token k₁ = storedKey request token k₂ → k₁ = k₂ := by
  refine ⟨fun key hkey => storedKey_eq_iff request htoken hkey, ?_⟩
  intro k₁ k₂ h₁ h₂ hfirst hsecond hsame
  rw [(storedKey_eq_iff request htoken h₁).mpr hfirst,
    (storedKey_eq_iff request htoken h₂).mpr hsecond] at hsame
  exact Option.some.inj hsame

theorem sampleToken_accepted : acceptsToken sampleToken := by decide +kernel

theorem keys_stored_sample : storedKey .append sampleToken "k 1" = some "k 1" ∧
    storedKey .append sampleToken " k" ≠ some " k" := by
  have h := (keys_stored sampleToken_accepted .append).1
  refine ⟨(h "k 1" (by decide)).mpr (by decide), fun hstored => ?_⟩
  exact absurd ((h " k" (by decide)).mp hstored) (by decide)

/-- Two keys of the client become one, and a key of blanks becomes none. -/
theorem padded_keys_collide : acceptsKey " k" ∧ acceptsKey "k" ∧ acceptsKey " " ∧
    storedKey .append sampleToken " k" = some "k" ∧ storedKey .append sampleToken "k" = some "k" ∧
    storedKey .append sampleToken " " = none := by
  refine ⟨by decide, by decide, by decide, ?_, ?_, ?_⟩ <;>
    rw [storedKey, receivedKey_eq sampleToken_accepted (by decide)] <;>
    decide

end Keys
end AgentJournal.Client
