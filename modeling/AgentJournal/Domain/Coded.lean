import AgentJournal.Domain.Cursor
import AgentJournal.Foundation.Codec
import AgentJournal.Foundation.Utf8
import Mathlib.Algebra.Group.End
import Mathlib.Logic.Equiv.Basic

/-! # A platform with injective encodings

Hashes are permutations and encodings are codecs, so every assumption the results make about the
libraries holds of it. The two permutations are free: they can be chosen so that the hashes and
the JSON texts of given inputs are those of the real libraries.
-/

namespace AgentJournal.Domain
open Foundation

section Bytes

/-- `String::from_utf8`. -/
def ofBytes (bytes : List UInt8) : Option String := String.fromUTF8? ⟨bytes.toArray⟩

theorem ofBytes_asBytes (s : String) : ofBytes (asBytes s) = some s := by
  simp only [ofBytes, asBytes, Array.toArray_toList, String.fromUTF8?, String.toUTF8_eq_toByteArray]
  rw [dif_pos s.isValidUTF8]
  rfl

theorem asBytes_injective : Function.Injective asBytes := by
  intro a b h
  have hbytes := congrArg ofBytes h
  rw [ofBytes_asBytes, ofBytes_asBytes] at hbytes
  exact Option.some.inj hbytes

theorem asBytes_eq (s : String) : asBytes s = utf8 s.toList := by
  conv_lhs => rw [← String.ofList_toList (s := s)]
  exact asBytes_ofList s.toList

theorem asBytes_append (a b : String) : asBytes (a ++ b) = asBytes a ++ asBytes b := by
  simp [asBytes]

theorem ofBytes_eq_some {bytes : List UInt8} {s : String} :
    ofBytes bytes = some s ↔ asBytes s = bytes := by
  constructor
  · intro h
    rw [ofBytes, String.fromUTF8?] at h
    split at h
    · cases h
      simp [asBytes, String.fromUTF8]
    · cases h
  · rintro rfl
    exact ofBytes_asBytes s

/-- Bytes decode where they are those of some characters. -/
theorem ofBytes_utf8 (text : List Char) : ofBytes (utf8 text) = some (String.ofList text) :=
  ofBytes_eq_some.mpr (asBytes_ofList text)

theorem hexDigit_inj {m n : ℕ} (hm : m < 16) (hn : n < 16) (h : hexDigit m = hexDigit n) :
    m = n := by
  have hall : ∀ i : Fin 16, ∀ j : Fin 16, hexDigit i = hexDigit j → i = j := by decide
  exact congrArg Fin.val (hall ⟨m, hm⟩ ⟨n, hn⟩ h)

theorem hexChars_injective : Function.Injective hexChars := by
  intro a
  induction a with
  | nil =>
    intro b h
    cases b with
    | nil => rfl
    | cons y b => simp [hexChars] at h
  | cons x a ih =>
    intro b h
    cases b with
    | nil => simp [hexChars] at h
    | cons y b =>
      simp only [hexChars, List.flatMap_cons, List.cons_append, List.nil_append,
        List.cons.injEq] at h
      obtain ⟨hhigh, hlow, hrest⟩ := h
      have hx := x.toNat_lt
      have hy := y.toNat_lt
      have hdiv := hexDigit_inj (by omega) (by omega) hhigh
      have hmod := hexDigit_inj (by omega) (by omega) hlow
      have hbyte : x = y := UInt8.toNat_inj.mp (by omega)
      rw [hbyte, ih hrest]

theorem hex_injective : Function.Injective hex := fun _ _ h =>
  hexChars_injective (String.ofList_injective h)

theorem Platform.digest_injective {P : Platform} (h : Function.Injective P.sha256) :
    Function.Injective P.digest := fun _ _ hd => asBytes_injective (h (hex_injective hd))

theorem Platform.payloadHash_injective {P : Platform} (h : Function.Injective P.sha256)
    (hjson : Function.Injective P.recordInputJson) : Function.Injective P.payloadHash :=
  fun _ _ hd => hjson (h (hex_injective hd))

end Bytes

section Codecs
open Codec

def relationTypeCodec : Codec RelationType := enum relationTypes fun t => by cases t <;> decide

def relationCodec : Codec Relation :=
  (relationTypeCodec.pair string).via
    (fun r => (r.relationType, r.recordId)) (fun x => some ⟨x.1, x.2⟩) fun _ => rfl

def recordInputCodec : Codec RecordInput :=
  (string.pair (string.pair (string.option.pair (string.list.pair (string.option.pair
    (relationCodec.list.pair string.option)))))).via
    (fun r => (r.kind, r.content, r.runId, r.attention, r.routingKey, r.relations, r.title))
    (fun x => some ⟨x.1, x.2.1, x.2.2.1, x.2.2.2.1, x.2.2.2.2.1, x.2.2.2.2.2.1, x.2.2.2.2.2.2⟩)
    fun _ => rfl

def principalCodec : Codec Principal :=
  (string.pair (string.pair (string.pair (string.option.pair (int.pair (string.pair bool)))))).via
    (fun r => (r.id, r.handle, r.displayName, r.description, r.profileRevision, r.createdAt,
      r.disabled))
    (fun x => some ⟨x.1, x.2.1, x.2.2.1, x.2.2.2.1, x.2.2.2.2.1, x.2.2.2.2.2.1, x.2.2.2.2.2.2⟩)
    fun _ => rfl

def registrationReceiptCodec : Codec RegistrationReceipt :=
  (principalCodec.pair string).via (fun r => (r.principal, r.credentialId))
    (fun x => some ⟨x.1, x.2⟩) fun _ => rfl

def registrationRequestCodec : Codec RegistrationRequest :=
  (string.pair string).via (fun r => (r.handle, r.displayName))
    (fun x => some ⟨x.1, x.2⟩) fun _ => rfl

def profileUpdateCodec : Codec ProfileUpdateRequest :=
  (string.pair (string.pair (string.option.pair int))).via
    (fun r => (r.handle, r.displayName, r.description, r.expectedProfileRevision))
    (fun x => some ⟨x.1, x.2.1, x.2.2.1, x.2.2.2⟩) fun _ => rfl

def inboxStateCodec : Codec InboxState :=
  enum [.unacknowledged, .acknowledged, .all] fun s => by cases s <;> decide

def cursorRouteCodec : Codec CursorRoute :=
  enum [.principals, .spaces, .records, .search, .recordThread, .recordDeliveryStatus, .inbox]
    fun r => by cases r <;> decide

def cursorOrderCodec : Codec CursorOrder :=
  enum [.identifier, .sequence, .rank, .boundedSequence] fun o => by cases o <;> decide

/-- The order of a position with its two numbers and its id. -/
def CursorPosition.parts : CursorPosition → CursorOrder × ℕ × ℕ × String
  | .identifier id => (.identifier, 0, 0, id)
  | .sequence n id => (.sequence, n, 0, id)
  | .rank n id => (.rank, n, 0, id)
  | .boundedSequence n upper => (.boundedSequence, n, upper, "")

def CursorPosition.ofParts : CursorOrder × ℕ × ℕ × String → CursorPosition
  | (.identifier, _, _, id) => .identifier id
  | (.sequence, n, _, id) => .sequence n id
  | (.rank, n, _, id) => .rank n id
  | (.boundedSequence, n, upper, _) => .boundedSequence n upper

def cursorPositionCodec : Codec CursorPosition :=
  (cursorOrderCodec.pair (nat.pair (nat.pair string))).via CursorPosition.parts
    (fun x => some (.ofParts x)) fun p => by cases p <;> rfl

def cursorPayloadCodec : Codec CursorPayload :=
  (nat.pair (cursorRouteCodec.pair (string.pair (cursorOrderCodec.pair cursorPositionCodec)))).via
    (fun p => (p.version, p.route, p.filter, p.order, p.position))
    (fun x => some ⟨x.1, x.2.1, x.2.2.1, x.2.2.2.1, x.2.2.2.2⟩) fun _ => rfl

end Codecs

section Widths
open Codec

theorem length_utf8_digits (n : ℕ) :
    (utf8 (Nat.toDigits 10 n)).length = (Nat.toDigits 10 n).length := by
  have hdigits : ∀ c ∈ Nat.toDigits 10 n, (String.utf8EncodeChar c).length = 1 := by
    intro c hc
    have hdigit := Nat.isDigit_of_mem_toDigits (by decide) (by decide) hc
    simp only [Char.isDigit, Bool.and_eq_true, decide_eq_true_eq, ge_iff_le] at hdigit
    rw [String.length_utf8EncodeChar, Char.utf8Size_eq_one_iff]
    exact UInt32.le_trans hdigit.2 (by decide)
  rw [utf8, List.length_flatMap, List.map_congr_left hdigits]
  simp

/-- A number below a power of ten takes its digits and a colon. -/
theorem nat_width {n k : ℕ} (hk : 0 < k) (h : n < 10 ^ k) :
    (utf8 (nat.encode n)).length ≤ k + 1 := by
  have hdigits := (Nat.length_toDigits_le_iff (b := 10) (by decide) hk).mpr h
  have hcolon : (utf8 [':']).length = 1 := by decide
  change (utf8 (Nat.toDigits 10 n ++ [':'])).length ≤ k + 1
  rw [utf8_append, List.length_append, length_utf8_digits, hcolon]
  omega

theorem length_utf8_toList (s : String) : (utf8 s.toList).length = s.utf8ByteSize := by
  rw [← asBytes_eq]
  rfl

/-- A text takes its length and itself. -/
theorem string_width (s : String) :
    (utf8 (string.encode s)).length ≤ s.length + 2 + s.utf8ByteSize := by
  have hlength := nat_width (Nat.succ_pos s.length)
    ((Nat.lt_succ_self s.length).trans (Nat.lt_pow_self (by decide)))
  change (utf8 (nat.encode s.toList.length ++ s.toList.flatMap fun c => [c])).length ≤ _
  rw [utf8_append, List.length_append, String.length_toList, List.flatMap_singleton',
    length_utf8_toList]
  exact Nat.add_le_add_right hlength _

theorem enum_width [DecidableEq α] {all : List α} (h : ∀ a, a ∈ all) (hall : all.length < 10)
    (a : α) :
    (utf8 ((enum all h).encode a)).length ≤ 2 :=
  nat_width (by decide) ((List.idxOf_lt_length_of_mem (h a)).trans hall)

/-- A position takes its two numbers and its id. -/
theorem position_width {position : CursorPosition} (h : position.Fits) :
    (utf8 (cursorPositionCodec.encode position)).length ≤ 46 + 2 * position.idBytes := by
  obtain ⟨⟨order, n, upper, id⟩, hparts⟩ : ∃ parts, position.parts = parts := ⟨_, rfl⟩
  have hencode : cursorPositionCodec.encode position = cursorOrderCodec.encode order ++
      (nat.encode n ++ (nat.encode upper ++ string.encode id)) := by
    change (cursorOrderCodec.pair (nat.pair (nat.pair string))).encode position.parts = _
    rw [hparts]
    rfl
  have hnumbers : n < 10 ^ 20 ∧ upper < 10 ^ 20 ∧ id.utf8ByteSize = position.idBytes := by
    cases position <;> simp only [CursorPosition.parts, Prod.mk.injEq] at hparts <;>
      obtain ⟨-, rfl, rfl, rfl⟩ := hparts <;> simp only [CursorPosition.Fits] at h <;>
      refine ⟨by omega, by omega, rfl⟩
  have horder : (utf8 (cursorOrderCodec.encode order)).length ≤ 2 := enum_width _ (by decide) _
  have hn := nat_width (by decide) hnumbers.1
  have hupper := nat_width (by decide) hnumbers.2.1
  have hid := string_width id
  have hchars := length_le_utf8 id.toList
  rw [String.length_toList, length_utf8_toList] at hchars
  rw [hencode, utf8_append, utf8_append, utf8_append]
  simp only [List.length_append]
  omega

/-- A payload takes its filter and its position. -/
theorem payload_width {payload : CursorPayload} (hversion : payload.version = cursorVersion)
    (hfits : payload.position.Fits) : (utf8 (cursorPayloadCodec.encode payload)).length ≤
      64 + payload.filter.length + payload.filter.utf8ByteSize + 2 * payload.position.idBytes := by
  have hencode : cursorPayloadCodec.encode payload = nat.encode payload.version ++
    (cursorRouteCodec.encode payload.route ++ (string.encode payload.filter ++
      (cursorOrderCodec.encode payload.order ++
        cursorPositionCodec.encode payload.position))) := rfl
  have hnumber := nat_width (n := payload.version) (k := 1) (by decide) (by rw [hversion]; decide)
  have hroute : (utf8 (cursorRouteCodec.encode payload.route)).length ≤ 2 :=
    enum_width _ (by decide) _
  have hfilter := string_width payload.filter
  have horder : (utf8 (cursorOrderCodec.encode payload.order)).length ≤ 2 :=
    enum_width _ (by decide) _
  have hposition := position_width hfits
  rw [hencode, utf8_append, utf8_append, utf8_append, utf8_append]
  simp only [List.length_append]
  omega

end Widths

/-- A character beyond ASCII for each byte. -/
def byteChar (b : UInt8) : Char := Char.ofNat (b.toNat + 256)

def charByte (c : Char) : UInt8 := UInt8.ofNat (c.toNat - 256)

theorem byteChar_toNat (b : UInt8) : (byteChar b).toNat = b.toNat + 256 := by
  have hb := b.toNat_lt
  have hvalid : (b.toNat + 256).isValidChar := .inl (by omega)
  rw [byteChar, Char.ofNat, dif_pos hvalid]
  rfl

theorem charByte_byteChar (b : UInt8) : charByte (byteChar b) = b := by
  rw [charByte, byteChar_toNat, Nat.add_sub_cancel, UInt8.ofNat_toNat]

namespace Platform
variable (σ : Equiv.Perm (List UInt8)) (τ : Equiv.Perm String)

/-- The hash `σ`, and the texts of the codecs up to `τ`. -/
def coded : Platform where
  sha256 := σ
  hmacSha256 key message := (σ (key ++ message) ++ List.replicate 32 0).take 32
  base64Encode bytes := String.ofList (bytes.map byteChar)
  base64Decode text := some (text.toList.map charByte)
  timestampText seconds := if seconds = 0 then some "1970-01-01T00:00:00Z" else none
  juliandayAfter a b := b < a
  jsonObject _ := true
  recordInputJson input := asBytes (τ (recordInputCodec.print input))
  registrationRequestJson request := τ (registrationRequestCodec.print request)
  registrationReceiptJson receipt := τ (registrationReceiptCodec.print receipt)
  decodeRegistrationReceipt text := registrationReceiptCodec.parse (τ.symm text)
  profileUpdateJson request := τ (profileUpdateCodec.print request)
  principalJson principal := τ (principalCodec.print principal)
  decodePrincipal text := principalCodec.parse (τ.symm text)
  decodeAppendResult _ := none
  profileDetailJson previous current before after :=
    τ (profileUpdateCodec.print ⟨previous, current, some (Codec.int.print before), after⟩)
  recoveryDetailJson reason := τ (Codec.string.option.print reason)
  inboxFilterJson principal state epoch :=
    asBytes (τ
      ((Codec.string.pair (inboxStateCodec.pair Codec.int)).print (principal, state, epoch)))
  spacesFilterJson actor := asBytes (τ actor)
  principalsFilterJson actor space := asBytes (τ ((Codec.string.pair .string).print (actor, space)))
  recordsFilterJson actor space afterSeq author attention kind relation := asBytes (τ
    ((Codec.string.pair (.pair .string (.pair .nat (.pair (.option .string) (.pair (.option .string)
      (.pair (.option .string) (.option relationTypeCodec))))))).print
      (actor, space, afterSeq.toNat, author, attention, kind, relation)))
  searchFilterJson actor space q author attention since := asBytes (τ
    ((Codec.string.pair
      (.pair .string (.pair .string (.pair (.option .string) (.pair (.option .string)
      (.option .string)))))).print (actor, space, q, author, attention, since)))
  threadFilterJson actor id := asBytes (τ ((Codec.string.pair .string).print (actor, id)))
  cursorPayloadJson payload := asBytes (τ (cursorPayloadCodec.print payload))
  decodeCursorPayload bytes :=
    (ofBytes bytes).bind fun text => cursorPayloadCodec.parse (τ.symm text)
  parseTimestamp text := if text = "1970-01-01T00:00:00Z" then some 0 else none
  unixepoch text := if text = "1970-01-01T00:00:00Z" then some 0 else none
  ftsQuery q := if q = "hello" then some fun content => content = "hello" else none
  ftsScore _ _ := ⟨1023 * 2 ^ 52, by decide, by decide⟩
  ftsSnippet _ content := content

theorem coded_encodesCursors : (coded σ τ).EncodesCursors where
  base64 bytes := by
    simp only [coded, String.toList_ofList, List.map_map, Option.some.injEq]
    exact List.map_id'' charByte_byteChar bytes
  alphabet bytes h := by
    simp only [coded, String.toList_ofList, List.mem_map] at h
    obtain ⟨b, -, hdot⟩ := h
    have hnat := congrArg Char.toNat hdot
    rw [byteChar_toNat] at hnat
    simp at hnat
  payload payload _ _ := by
    simp [coded, ofBytes_asBytes, Codec.parse_print]

theorem coded_signsCursors (hτ : τ "" = "") : (coded σ τ).SignsCursors where
  toEncodesCursors := coded_encodesCursors σ τ
  signature key message := by simp [coded, hmacBytes]
  empty := rfl
  nothing := by
    have hempty : ofBytes [] = some "" := ofBytes_asBytes ""
    have hsymm : τ.symm "" = "" := τ.symm_apply_eq.mpr hτ.symm
    simp only [coded, hempty, Option.bind_some, hsymm]
    rfl

/-- A byte is encoded as a character of two. -/
theorem coded_width (bytes : List UInt8) :
    ((coded σ τ).base64Encode bytes).utf8ByteSize = 2 * bytes.length := by
  have hsize : ∀ b ∈ bytes, (String.utf8EncodeChar (byteChar b)).length = 2 := by
    intro b _
    have hb := b.toNat_lt
    have hnat : (byteChar b).val.toNat = b.toNat + 256 := byteChar_toNat b
    rw [String.length_utf8EncodeChar, Char.utf8Size_eq_two_iff]
    simp only [UInt32.lt_iff_toNat_lt, UInt32.le_iff_toNat_le, hnat]
    exact ⟨by simp, by simp; omega⟩
  have htext : (asBytes ((coded σ τ).base64Encode bytes)).length = 2 * bytes.length := by
    rw [asBytes_eq]
    simp only [coded, String.toList_ofList, utf8, List.flatMap_map, List.length_flatMap]
    rw [List.map_congr_left hsize]
    simp [Nat.mul_comm]
  exact htext

/-- The cursors are short where `τ` moves short texts only. -/
theorem coded_boundsCursors (hτ : τ "" = "")
    (hlength : ∀ s, (asBytes (τ s)).length ≤ max (asBytes s).length 256) :
    (coded σ τ).BoundsCursors where
  toSignsCursors := coded_signsCursors σ τ hτ
  width bytes := (coded_width σ τ bytes).le
  object payload bytes hversion hfilter hfits := by
    have hprint := hlength (cursorPayloadCodec.print payload)
    have hchars : payload.filter.length = bytes.length := by
      rw [hfilter]
      simp [coded]
    have hsize := coded_width σ τ bytes
    rw [← hfilter] at hsize
    have hpayload := payload_width hversion hfits
    have htext : asBytes (cursorPayloadCodec.print payload) =
      utf8 (cursorPayloadCodec.encode payload) := asBytes_ofList _
    rw [htext] at hprint
    change (asBytes (τ (cursorPayloadCodec.print payload))).length ≤ _
    omega

theorem coded_sha256_injective : Function.Injective (coded σ τ).sha256 := σ.injective

theorem coded_recordInputJson_injective : Function.Injective (coded σ τ).recordInputJson :=
  fun _ _ h => recordInputCodec.print_injective (τ.injective (asBytes_injective h))

theorem coded_registrationReceipt (receipt : RegistrationReceipt) :
    (coded σ τ).decodeRegistrationReceipt ((coded σ τ).registrationReceiptJson receipt) =
    some receipt := by
  simp [coded, Codec.parse_print]

theorem coded_registrationRequestJson_injective :
    Function.Injective (coded σ τ).registrationRequestJson :=
  fun _ _ h => registrationRequestCodec.print_injective (τ.injective h)

theorem coded_principal (principal : Principal) :
    (coded σ τ).decodePrincipal ((coded σ τ).principalJson principal) = some principal := by
  simp [coded, Codec.parse_print]

theorem coded_profileUpdateJson_injective : Function.Injective (coded σ τ).profileUpdateJson :=
  fun _ _ h => profileUpdateCodec.print_injective (τ.injective h)

theorem coded_inboxFilter {actor actor' : String} {state state' : InboxState} {epoch epoch' : ℤ}
    (h : (coded σ τ).inboxFilterJson actor state epoch =
      (coded σ τ).inboxFilterJson actor' state' epoch') :
    actor = actor' ∧ state = state' ∧ epoch = epoch' := by
  have heq := Codec.print_injective _ (τ.injective (asBytes_injective h))
  simpa using heq

end Platform

section Sample

def sampleToken : String := "00112233445566778899aabbccddeeff00112233445566778899aabbccddeeff"

def sampleTokenDigest : List UInt8 :=
  [42, 138, 191, 168, 203, 153, 6, 41, 4, 55, 133, 65, 147, 202, 107, 202, 65, 212, 212, 226, 109,
    29, 69, 75, 214, 106, 53, 21, 128, 149, 231, 55]

def sampleRequest : RegistrationRequest := ⟨"ada", "Ada"⟩

def sampleInput : RecordInput := ⟨"note", "hello", none, ["ada"], none, [], none⟩

def sampleInputJson : String :=
  "\x7b\"kind\":\"note\",\"content\":\"hello\",\"attention\":[\"ada\"]\x7d"

def sampleInputDigest : List UInt8 :=
  [122, 12, 73, 185, 185, 128, 194, 19, 106, 26, 55, 94, 215, 113, 107, 248, 76, 111, 160, 101, 172,
    216, 45, 72, 66, 220, 213, 213, 59, 240, 92, 82]

/-- The platform whose hashes and JSON texts of the sample are those of the libraries. -/
def Platform.sample : Platform :=
  coded (Equiv.swap (asBytes sampleToken) sampleTokenDigest *
      Equiv.swap (asBytes sampleInputJson) sampleInputDigest)
    (Equiv.swap (recordInputCodec.print sampleInput) sampleInputJson *
      Equiv.swap (registrationRequestCodec.print sampleRequest)
        "\x7b\"handle\":\"ada\",\"display_name\":\"Ada\"\x7d")

theorem swap_width {a b : String} (ha : (asBytes a).length ≤ 256) (hb : (asBytes b).length ≤ 256)
    (s : String) : (asBytes (Equiv.swap a b s)).length ≤ max (asBytes s).length 256 := by
  rw [Equiv.swap_apply_def]
  split
  · exact hb.trans (le_max_right ..)
  · split
    · exact ha.trans (le_max_right ..)
    · exact le_max_left ..

theorem sample_texts : (asBytes (recordInputCodec.print sampleInput)).length ≤ 256 ∧
    (asBytes sampleInputJson).length ≤ 256 ∧
    (asBytes (registrationRequestCodec.print sampleRequest)).length ≤ 256 ∧
    recordInputCodec.print sampleInput ≠ "" ∧
    registrationRequestCodec.print sampleRequest ≠ "" := by
  decide +kernel

theorem Platform.sample_boundsCursors : Platform.sample.BoundsCursors := by
  obtain ⟨hprint, hjson, hrequest, hprinted, hrequested⟩ := sample_texts
  refine Platform.coded_boundsCursors _ _ ?_ fun s => ?_
  · rw [Equiv.Perm.mul_apply, Equiv.swap_apply_of_ne_of_ne (Ne.symm hrequested) (by decide),
      Equiv.swap_apply_of_ne_of_ne (Ne.symm hprinted) (by decide)]
  · have houter :=
      swap_width hprint hjson (Equiv.swap (registrationRequestCodec.print sampleRequest)
      "\x7b\"handle\":\"ada\",\"display_name\":\"Ada\"\x7d" s)
    have hinner := swap_width hrequest
      (b := "\x7b\"handle\":\"ada\",\"display_name\":\"Ada\"\x7d") (by decide) s
    rw [Equiv.Perm.mul_apply]
    omega

example : Platform.sample.payloadHash sampleInput = hex sampleInputDigest := by decide +kernel

end Sample
end AgentJournal.Domain
