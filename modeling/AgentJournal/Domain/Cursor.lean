import AgentJournal.Domain.Platform

/-! # Continuation cursors

A cursor is a signed payload bound to its route, its filters and its ordering.
-/

namespace AgentJournal.Domain
open Foundation

inductive CursorError where
  | keyTooShort
  | tooLong
  | malformed
  | invalidEncoding
  | invalidSignature
  | invalidPayload
  | unsupportedVersion
  | wrongRoute
  | wrongFilter
  | wrongOrder
  | positionOrderMismatch
deriving DecidableEq, Repr

def cursorVersion : ℕ := 1
def minKeyBytes : ℕ := 32
def hmacBytes : ℕ := 32

def CursorPosition.matches : CursorOrder → CursorPosition → Bool
  | .identifier, .identifier _ => true
  | .sequence, .sequence _ _ => true
  | .rank, .rank _ _ => true
  | .boundedSequence, .boundedSequence _ _ => true
  | _, _ => false

structure CursorScope where
  route : CursorRoute
  filterFingerprint : List UInt8
  order : CursorOrder

structure CursorCodec where
  key : List UInt8

/-- `str::split_once`. -/
def splitOnce (separator : Char) (text : String) : Option (String × String) :=
  match text.toList.dropWhile (· ≠ separator) with
  | [] => none
  | _ :: rest => some (String.ofList (text.toList.takeWhile (· ≠ separator)), String.ofList rest)

variable (P : Platform)

def CursorScope.new (route : CursorRoute) (canonicalFilters : List UInt8) (order : CursorOrder) :
    CursorScope := ⟨route, P.sha256 canonicalFilters, order⟩

namespace CursorCodec

def new (key : List UInt8) : Except CursorError CursorCodec := do
  failIf (key.length < minKeyBytes) .keyTooShort
  return ⟨P.sha256 key⟩

variable (codec : CursorCodec)

def encodePayload (payload : CursorPayload) : Except CursorError String := do
  let bytes := P.cursorPayloadJson payload
  let token := P.base64Encode bytes ++ "." ++ P.base64Encode (P.hmacSha256 codec.key bytes)
  failIf (token.utf8ByteSize > maxCursorChars) .tooLong
  return token

def encode (scope : CursorScope) (position : CursorPosition) : Except CursorError String := do
  failIf (CursorPosition.matches scope.order position = false) .positionOrderMismatch
  encodePayload P codec ⟨cursorVersion, scope.route, P.base64Encode scope.filterFingerprint,
    scope.order, position⟩

/-- The checks of an authenticated payload against the scope of the request. -/
def checkPayload (scope : CursorScope) (payload : CursorPayload) :
    Except CursorError CursorPosition := do
  failIf (payload.version ≠ cursorVersion) .unsupportedVersion
  failIf (payload.route ≠ scope.route) .wrongRoute
  failIf (payload.filter ≠ P.base64Encode scope.filterFingerprint) .wrongFilter
  failIf (payload.order ≠ scope.order) .wrongOrder
  failIf (CursorPosition.matches payload.order payload.position = false) .positionOrderMismatch
  return payload.position

def decode (scope : CursorScope) (token : String) : Except CursorError CursorPosition := do
  failIf (token.utf8ByteSize > maxCursorChars) .tooLong
  let (payloadText, signatureText) ← required (splitOnce '.' token) .malformed
  failIf (payloadText = "" ∨ signatureText = "" ∨ '.' ∈ signatureText.toList) .malformed
  let payloadBytes ← required (P.base64Decode payloadText) .invalidEncoding
  let signature ← required (P.base64Decode signatureText) .invalidEncoding
  failIf (signature.length ≠ hmacBytes) .invalidEncoding
  failIf (P.hmacSha256 codec.key payloadBytes ≠ signature) .invalidSignature
  let payload ← required (P.decodeCursorPayload payloadBytes) .invalidPayload
  checkPayload P scope payload

end CursorCodec

/-- The numbers of a position are `u64`. -/
def CursorPosition.Fits : CursorPosition → Prop
  | .identifier _ => True
  | .sequence n _ => n < 2 ^ 64
  | .rank n _ => n < 2 ^ 64
  | .boundedSequence n upper => n < 2 ^ 64 ∧ upper < 2 ^ 64

/-- What the codec takes from its libraries: base64 decodes what it encodes and never writes a
dot, and a payload survives its JSON. -/
structure Platform.EncodesCursors (P : Platform) : Prop where
  base64 : ∀ bytes, P.base64Decode (P.base64Encode bytes) = some bytes
  alphabet : ∀ bytes, '.' ∉ (P.base64Encode bytes).toList
  payload : ∀ payload, payload.version = cursorVersion → payload.position.Fits →
    P.decodeCursorPayload (P.cursorPayloadJson payload) = some payload

/-- The bytes of the id in a position. -/
def CursorPosition.idBytes : CursorPosition → ℕ
  | .identifier id | .sequence _ id | .rank _ id => id.utf8ByteSize
  | .boundedSequence _ _ => 0

/-- What makes the codec accept its own cursors: a signature is as long as it must be, only nothing
is encoded as nothing, and nothing is no payload. -/
structure Platform.SignsCursors (P : Platform) : Prop extends P.EncodesCursors where
  signature : ∀ key message, (P.hmacSha256 key message).length = hmacBytes
  empty : P.base64Encode [] = ""
  nothing : P.decodeCursorPayload [] = none

/-- What keeps a cursor within its limit: base64 writes at most two bytes for a byte, and the JSON
of a payload is its filter and its id, escaped, between texts of bounded length. -/
structure Platform.BoundsCursors (P : Platform) : Prop extends P.SignsCursors where
  width : ∀ bytes, (P.base64Encode bytes).utf8ByteSize ≤ 2 * bytes.length
  object : ∀ payload bytes, payload.version = cursorVersion →
    payload.filter = P.base64Encode bytes →
    payload.position.Fits →
    (P.cursorPayloadJson payload).length ≤ 256 + 3 * bytes.length + 6 * payload.position.idBytes

section Scopes
variable {P}

theorem Platform.EncodesCursors.injective (hP : P.EncodesCursors) {a b : List UInt8}
    (h : P.base64Encode a = P.base64Encode b) : a = b := by
  have hdecode := congrArg P.base64Decode h
  rw [hP.base64, hP.base64] at hdecode
  exact Option.some.inj hdecode

theorem splitOnce_append {separator : Char} {a b : String} (ha : separator ∉ a.toList) :
    splitOnce separator (a ++ String.singleton separator ++ b) = some (a, b) := by
  have hne : ∀ c ∈ a.toList, (decide (c ≠ separator)) = true := by
    intro c hc
    simpa using fun heq : c = separator => ha (heq ▸ hc)
  have htext : (a ++ String.singleton separator ++ b).toList =
    a.toList ++ separator :: b.toList := by
    simp
  unfold splitOnce
  rw [htext, List.dropWhile_append_of_pos hne, List.takeWhile_append_of_pos hne]
  simp

/-- The payload of a position in a scope. -/
def CursorScope.payload (P : Platform) (scope : CursorScope) (position : CursorPosition) :
    CursorPayload :=
  ⟨cursorVersion, scope.route, P.base64Encode scope.filterFingerprint, scope.order, position⟩

theorem CursorCodec.encode_eq_ok {codec : CursorCodec} {scope : CursorScope}
    {position : CursorPosition}
    {token : String} : codec.encode P scope position = .ok token ↔
      CursorPosition.matches scope.order position = true ∧ token.utf8ByteSize ≤ maxCursorChars ∧
      P.base64Encode (P.cursorPayloadJson (scope.payload P position)) ++ "." ++ P.base64Encode
        (P.hmacSha256 codec.key (P.cursorPayloadJson (scope.payload P position))) = token := by
  simp only [encode, encodePayload, bind_eq_ok, failIf_eq_ok, not_lt, Bool.not_eq_false, pure_eq_ok,
    Except.ok.injEq]
  constructor
  · rintro ⟨_, hmatches, _, hsize, rfl⟩
    exact ⟨hmatches, hsize, rfl⟩
  · rintro ⟨hmatches, hsize, rfl⟩
    exact ⟨(), hmatches, (), hsize, rfl⟩

/-- A cursor is accepted only in the scope it was issued for, at the position it was issued at. -/
theorem CursorCodec.decode_encode (hP : P.EncodesCursors) {codec codec' : CursorCodec}
    {scope scope' : CursorScope} {issued position : CursorPosition} {token : String}
    (hfits : issued.Fits) (hencode : codec.encode P scope issued = .ok token)
    (hdecode : codec'.decode P scope' token = .ok position) :
    position = issued ∧ scope' = scope := by
  obtain ⟨-, -, rfl⟩ := encode_eq_ok.mp hencode
  simp only [decode, bind_eq_ok, failIf_eq_ok, required_eq_ok] at hdecode
  obtain ⟨_, -, ⟨payloadText, signatureText⟩, hsplit, _, -, bytes, hbytes, _, -, _, -, _, -,
    payload,
    hpayload, hcheck⟩ := hdecode
  rw [show "." = String.singleton '.' from rfl, splitOnce_append (hP.alphabet _), Option.some.injEq,
    Prod.mk.injEq] at hsplit
  obtain ⟨rfl, -⟩ := hsplit
  rw [hP.base64, Option.some.injEq] at hbytes
  subst hbytes
  simp only [checkPayload, bind_eq_ok, failIf_eq_ok, not_not, pure_eq_ok, Except.ok.injEq] at hcheck
  obtain ⟨_, -, _, hroute, _, hfilter, _, horder, _, -, rfl⟩ := hcheck
  rw [hP.payload _ rfl hfits, Option.some.injEq] at hpayload
  subst hpayload
  obtain ⟨route, fingerprint, order⟩ := scope
  obtain ⟨route', fingerprint', order'⟩ := scope'
  obtain rfl : fingerprint = fingerprint' := hP.injective hfilter
  obtain rfl : route = route' := hroute
  obtain rfl : order = order' := horder
  exact ⟨rfl, rfl⟩

theorem CursorCodec.encode_ne_empty {codec : CursorCodec} {scope : CursorScope}
    {position : CursorPosition} {token : String} (h : codec.encode P scope position = .ok token) :
    token ≠ "" := by
  obtain ⟨-, -, rfl⟩ := encode_eq_ok.mp h
  intro hempty
  have hlength := congrArg String.length hempty
  simp only [String.length_append] at hlength
  have hdot : ".".length = 1 := rfl
  have hnone : "".length = 0 := rfl
  omega

theorem Platform.SignsCursors.ne_empty (hP : P.SignsCursors) {bytes : List UInt8} (h : bytes ≠ []) :
    P.base64Encode bytes ≠ "" := by
  intro hempty
  exact h (hP.injective (hempty.trans hP.empty.symm))

/-- An issued cursor is accepted where it was issued. -/
theorem CursorCodec.decode_of_encode (hP : P.SignsCursors) {codec : CursorCodec}
    {scope : CursorScope}
    {position : CursorPosition} {token : String} (hfits : position.Fits)
    (hencode : codec.encode P scope position = .ok token) :
    codec.decode P scope token = .ok position := by
  obtain ⟨hmatches, hsize, rfl⟩ := encode_eq_ok.mp hencode
  have hpayload := hP.payload (scope.payload P position) rfl hfits
  have hbytes : P.cursorPayloadJson (scope.payload P position) ≠ [] := by
    intro hnil
    rw [hnil, hP.nothing] at hpayload
    cases hpayload
  have hsignature : ∀ message, P.hmacSha256 codec.key message ≠ [] := by
    intro message hnil
    have hlength := hP.signature codec.key message
    simp [hnil, hmacBytes] at hlength
  simp only [decode, bind_eq_ok, failIf_eq_ok, required_eq_ok]
  refine ⟨(), by simpa using hsize, _, splitOnce_append (hP.alphabet _), (), ?_, _, hP.base64 _, _,
    hP.base64 _, (), by simp [hP.signature], (), by simp, _, hpayload, ?_⟩
  · simp [hP.ne_empty hbytes, hP.ne_empty (hsignature _), hP.alphabet]
  · simp [checkPayload, CursorScope.payload, failIf, hmatches]

/-- A cursor of short parts is issued. -/
theorem CursorCodec.encode_of_short (hP : P.BoundsCursors) (codec : CursorCodec)
    {scope : CursorScope}
    {position : CursorPosition} (hmatches : CursorPosition.matches scope.order position = true)
    (hfits : position.Fits) (hscope : scope.filterFingerprint.length ≤ 128)
    (hid : position.idBytes ≤ 36) : ∃ token, codec.encode P scope position = .ok token := by
  have hobject : (P.cursorPayloadJson (scope.payload P position)).length ≤
      256 + 3 * scope.filterFingerprint.length + 6 * position.idBytes :=
    hP.object (scope.payload P position) _ rfl rfl hfits
  have hpayload := hP.width (P.cursorPayloadJson (scope.payload P position))
  have hsignature :=
    hP.width (P.hmacSha256 codec.key (P.cursorPayloadJson (scope.payload P position)))
  rw [hP.signature, hmacBytes] at hsignature
  have hdot : ".".utf8ByteSize = 1 := rfl
  refine ⟨_, encode_eq_ok.mpr ⟨hmatches, ?_, rfl⟩⟩
  simp only [String.utf8ByteSize_append, hdot, maxCursorChars]
  omega

end Scopes
end AgentJournal.Domain
