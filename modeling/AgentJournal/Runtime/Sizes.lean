import AgentJournal.Domain.Json
import AgentJournal.InboxWorker.Rendering
import AgentJournal.Runtime.Spool

/-! # The size of a published file

Every message that can be delivered fits into the file of either runtime, whatever its text is.
-/

namespace AgentJournal.Runtime
open Domain Foundation InboxWorker

section Json

/-- The members of an envelope file, in order. -/
def SpoolEnvelope.members (e : SpoolEnvelope) : List (String × Json) :=
  [("version", .num e.version), ("dedupe_key", .str e.dedupeKey),
    ("runtime_target", .str e.runtimeTarget), ("inbox_item_id", .str e.inboxItemId),
    ("record_id", .str e.recordId), ("space_id", .str e.spaceId),
    ("from_principal", .str e.fromPrincipal), ("source_run", .option e.sourceRun),
    ("reply_to", .option e.replyTo),
    ("addressed_to", .str e.addressedTo), ("routing_key", .option e.routingKey),
    ("body", .str e.body),
    ("rendered", .str e.rendered), ("content_sha256", .str e.contentSha256)]

def DropPayload.members (p : DropPayload) : List (String × Json) :=
  [("version", .num p.version), ("dedupe_key", .str p.dedupeKey),
    ("target_chat", .str p.targetChat), ("record_id", .str p.recordId),
    ("inbox_item_id", .str p.inboxItemId), ("space_id", .str p.spaceId),
    ("from_principal", .str p.fromPrincipal), ("addressed_to", .str p.addressedTo),
    ("routing_key", .option p.routingKey), ("body", .str p.body),
    ("content_sha256", .str p.contentSha256)]

def SpoolEnvelope.toJson (e : SpoolEnvelope) : Json := .obj e.members

def DropPayload.toJson (p : DropPayload) : Json := .obj p.members

def spoolJson (e : SpoolEnvelope) : List UInt8 := jsonBytes e.toJson

def dropJson (p : DropPayload) : List UInt8 := jsonBytes p.toJson

end Json

section Bounds
variable {e : Envelope} {target : String}

/-- A message whose metadata and body have the sizes that the service admits. -/
structure Deliverable (e : Envelope) : Prop where
  inboxItemId : charCount e.inboxItemId ≤ maxIdentifierChars
  recordId : charCount e.recordId ≤ maxIdentifierChars
  spaceId : charCount e.spaceId ≤ maxIdentifierChars
  fromPrincipal : charCount e.fromPrincipal ≤ maxIdentifierChars
  sourceRun : ∀ v ∈ e.sourceRun, charCount v ≤ maxIdentifierChars
  replyTo : ∀ v ∈ e.replyTo, charCount v ≤ maxIdentifierChars
  addressedTo : charCount e.addressedTo ≤ maxIdentifierChars
  routingKey : ∀ v ∈ e.routingKey, charCount v ≤ maxIdentifierChars
  body : e.body.utf8ByteSize ≤ maxContentBytes

/-- The header without the metadata. -/
def labels : List Text :=
  ["Agent Journal message".toList, "inbox_item_id: ".toList, "record_id: ".toList,
    "space_id: ".toList, "from_principal: ".toList, "source_run: ".toList, "addressed_to: ".toList,
    "routing_key: ".toList,
    "reply_to: ".toList, [], notice, beginMarker]

/-- A measure of texts that is a sum over their characters. -/
theorem measure_header {μ : Text → ℕ} {k : ℕ} (hadd : ∀ a b, μ (a ++ b) = μ a + μ b)
    (hquote : ∀ v : String, charCount v ≤ maxIdentifierChars → μ (jsonQuote v.toList) ≤ k)
    (hnull : μ "null".toList ≤ k) (h : Deliverable e) :
    μ (unlines e.header) ≤ μ (unlines labels) + 8 * k := by
  have hoption : ∀ v : Option String, (∀ x ∈ v, charCount x ≤ maxIdentifierChars) →
    μ (optionalText v) ≤ k := by
    intro v hv
    cases v with
    | none => exact hnull
    | some x =>
      rw [optionalText, Option.map_some, Option.getD_some, jsonText_toList]
      exact hquote x (hv x rfl)
  have hunlines : ∀ (l : Text) (ls : List Text), μ (unlines (l :: ls)) =
    μ l + μ ['\n'] + μ (unlines ls) := by
    intro l ls
    rw [unlines, ← List.singleton_append, hadd, hadd, Nat.add_assoc]
  have hitem := hquote _ h.inboxItemId
  have hrecord := hquote _ h.recordId
  have hspace := hquote _ h.spaceId
  have hfrom := hquote _ h.fromPrincipal
  have hrun := hoption _ h.sourceRun
  have hreply := hoption _ h.replyTo
  have hto := hquote _ h.addressedTo
  have hkey := hoption _ h.routingKey
  simp only [Envelope.header, labels, hunlines, hadd, -String.reduceToList]
  omega

theorem size_labels :
    utf8Bytes (unlines labels) ≤ 300 ∧ escapedBytes (unlines labels) ≤ 320 := by decide +kernel

theorem utf8Bytes_header (h : Deliverable e) :
    utf8Bytes (unlines e.header) ≤ 300 + 8 * (6 * maxIdentifierChars + 2) :=
  (measure_header utf8Bytes_append (fun v hv => (utf8Bytes_jsonQuote_chars v.toList).trans
    (Nat.add_le_add_right (Nat.mul_le_mul_left 6 hv) 2)) (by decide) h).trans
      (Nat.add_le_add_right size_labels.1 _)

theorem escapedBytes_header (h : Deliverable e) :
    escapedBytes (unlines e.header) ≤ 320 + 8 * (7 * maxIdentifierChars + 4) :=
  (measure_header escapedBytes_append (fun v hv => (escapedBytes_jsonQuote v.toList).trans
    (Nat.add_le_add_right (Nat.mul_le_mul_left 7 hv) 4)) (by decide) h).trans
      (Nat.add_le_add_right size_labels.2 _)

theorem size_identifier {v : String} (h : charCount v ≤ maxIdentifierChars) :
    (Json.str v).size ≤ 6 * maxIdentifierChars + 2 := by
  have hsize := size_str_chars v
  rw [← charCount] at hsize
  omega

theorem size_identifier_option {v : Option String} (h : ∀ x ∈ v, charCount x ≤ maxIdentifierChars) :
    (Json.option v).size ≤ 6 * maxIdentifierChars + 2 :=
  size_option (fun x hx => size_identifier (h x hx)) (by decide)

theorem validateTarget_chars {maxBytes : ℕ} (h : validateTarget maxBytes target = .ok ()) :
    (asBytes target).length ≤ maxBytes ∧ ∀ c ∈ target.toList, 0x20 ≤ c.toNat := by
  unfold validateTarget failIf at h
  dsimp only at h
  split at h
  · cases h
  · rename_i hlabel
    simp only [not_or, gt_iff_lt, not_lt] at hlabel
    refine ⟨hlabel.2.1, fun c hc => Nat.le_of_not_lt fun hlow => hlabel.2.2.1 ?_⟩
    have hbyte : UInt8.ofNat c.toNat ∈ asBytes target := by
      rw [← String.ofList_toList (s := target), asBytes_ofList, List.mem_flatMap]
      refine ⟨c, by simpa using hc, ?_⟩
      rw [utf8EncodeChar_ascii (by omega)]
      exact List.mem_singleton_self _
    refine List.any_eq_true.mpr ⟨_, hbyte, ?_⟩
    have hsmall : UInt8.ofNat c.toNat < 0x20 := by
      rw [UInt8.lt_iff_toNat_lt, UInt8.toNat_ofNat', Nat.mod_eq_of_lt (hlow.trans (by decide))]
      exact hlow
    simp [hsmall]

/-- A target has no control character, so a character is at most doubled. -/
theorem size_target {maxBytes : ℕ} (h : validateTarget maxBytes target = .ok ()) :
    (Json.str target).size ≤ 2 * maxBytes + 2 := by
  obtain ⟨hlength, hchars⟩ := validateTarget_chars h
  have hdouble : ∀ c ∈ target.toList, utf8Bytes (jsonEscape c) ≤ 2 * c.utf8Size := by
    intro c hc
    have hpos := c.utf8Size_pos
    by_cases hquote : c = '"'
    · rw [hquote]
      decide
    · by_cases hslash : c = '\\'
      · rw [hslash]
        decide
      · rw [jsonEscape_self (hchars c hc) hquote hslash, utf8Bytes_cons, utf8Bytes_nil]
        omega
  have hsize : utf8Bytes target.toList ≤ maxBytes := (utf8Bytes_toList target).trans_le hlength
  rw [Json.size, Json.text, utf8Bytes_jsonQuote]
  exact Nat.add_le_add_right ((escapedBytes_le hdouble).trans (Nat.mul_le_mul_left 2 hsize)) 2

theorem size_digest {P : Platform} (hsha : ∀ m, (P.sha256 m).length = 32) (text : String) :
    (Json.str (P.digest text)).size ≤ 6 * 64 + 2 := by
  refine (size_str_chars _).trans ?_
  rw [Platform.digest, hex, String.toList_ofList, hexChars_length, hsha]

/-- The text of a message, by its bytes and as it is quoted. -/
theorem size_rendered (h : Deliverable e) :
    (Json.str (e.render jsonText)).size ≤
    6 * (maxContentBytes + 8 * (6 * maxIdentifierChars + 2) + 512) + 2 ∧
    (Json.str (e.render jsonText)).size ≤
    6 * maxContentBytes + 8 * (7 * maxIdentifierChars + 4) + 400 := by
  have hend : utf8Bytes ('\n' :: endMarker) ≤ 27 ∧ escapedBytes ('\n' :: endMarker) ≤ 28 := by
    decide +kernel
  have hbody : utf8Bytes e.body.toList ≤ maxContentBytes :=
    (utf8Bytes_toList e.body).trans_le h.body
  constructor
  · have hsize : utf8Bytes (e.render jsonText).toList ≤
      maxContentBytes + 8 * (6 * maxIdentifierChars + 2) + 512 := by
      have hheader := utf8Bytes_header h
      rw [render_toList, utf8Bytes_append, utf8Bytes_append]
      refine (Nat.add_le_add hheader (Nat.add_le_add hbody hend.1)).trans ?_
      decide
    exact (size_str_bytes _).trans (Nat.add_le_add_right (Nat.mul_le_mul_left 6 hsize) 2)
  · have hheader := escapedBytes_header h
    have hescaped : escapedBytes e.body.toList ≤ 6 * maxContentBytes :=
      (escapedBytes_le fun c _ => (utf8Bytes_jsonEscape c).2).trans (Nat.mul_le_mul_left 6 hbody)
    rw [Json.size, Json.text, utf8Bytes_jsonQuote, render_toList, escapedBytes_append,
      escapedBytes_append]
    refine (Nat.add_le_add_right (Nat.add_le_add hheader (Nat.add_le_add hescaped hend.2)) 2).trans
      ?_
    decide

theorem size_body (h : Deliverable e) : (Json.str e.body).size ≤ 6 * maxContentBytes + 2 :=
  (size_str_bytes _).trans
    (Nat.add_le_add_right (Nat.mul_le_mul_left 6 ((utf8Bytes_toList e.body).trans_le h.body)) 2)

theorem size_spool {P : Platform} (hsha : ∀ m, (P.sha256 m).length = 32) (h : Deliverable e)
    (hlabel : validateLabel target = .ok ()) :
    (SpoolEnvelope.new P target e (e.render jsonText)).toJson.size ≤ maxSpoolBytes := by
  have hkeys : keysSize
    ["version", "dedupe_key", "runtime_target", "inbox_item_id", "record_id", "space_id",
      "from_principal", "source_run", "reply_to", "addressed_to", "routing_key", "body", "rendered",
      "content_sha256"] ≤ 250 := by decide +kernel
  have hversion : (Json.num 1).size ≤ 1 := by decide
  have hvalues : ((SpoolEnvelope.members (.new P target e (e.render jsonText))).map fun m =>
    m.2.size).sum ≤
      1 + ((6 * maxIdentifierChars + 2) * 9 + (2 * maxLabelBytes + 2) + (6 * maxContentBytes + 2) +
        (6 * (maxContentBytes + 8 * (6 * maxIdentifierChars + 2) + 512) + 2) + (6 * 64 + 2)) := by
    simp only [SpoolEnvelope.members, SpoolEnvelope.new, List.map_cons, List.map_nil, List.sum_cons,
      List.sum_nil]
    refine (Nat.add_le_add hversion <| Nat.add_le_add (size_identifier h.inboxItemId) <|
      Nat.add_le_add (size_target hlabel) <| Nat.add_le_add (size_identifier h.inboxItemId) <|
      Nat.add_le_add (size_identifier h.recordId) <| Nat.add_le_add (size_identifier h.spaceId) <|
      Nat.add_le_add (size_identifier h.fromPrincipal) <|
      Nat.add_le_add (size_identifier_option h.sourceRun) <|
      Nat.add_le_add (size_identifier_option h.replyTo) <|
      Nat.add_le_add (size_identifier h.addressedTo) <|
      Nat.add_le_add (size_identifier_option h.routingKey) <| Nat.add_le_add (size_body h) <|
      Nat.add_le_add (size_rendered h).1 <| Nat.add_le_add (size_digest hsha _)
      (Nat.le_refl 0)).trans ?_
    decide
  refine (size_members _).trans ?_
  refine (Nat.add_le_add_right (Nat.add_le_add hkeys hvalues) 2).trans ?_
  decide

theorem size_drop {P : Platform} (hsha : ∀ m, (P.sha256 m).length = 32) (h : Deliverable e)
    (hlabel : validateChatId target = .ok ()) :
    (DropPayload.new P target e (e.render jsonText)).toJson.size ≤ maxDropBytes := by
  have hkeys : keysSize
    ["version", "dedupe_key", "target_chat", "record_id", "inbox_item_id", "space_id",
      "from_principal", "addressed_to", "routing_key", "body", "content_sha256"] ≤ 200 := by
        decide +kernel
  have hversion : (Json.num 2).size ≤ 1 := by decide
  have hvalues : ((DropPayload.members (.new P target e (e.render jsonText))).map fun m =>
    m.2.size).sum ≤
      1 + ((6 * maxIdentifierChars + 2) * 7 + (2 * maxChatIdBytes + 2) +
        (6 * maxContentBytes + 8 * (7 * maxIdentifierChars + 4) + 400) + (6 * 64 + 2)) := by
    simp only [DropPayload.members, DropPayload.new, List.map_cons, List.map_nil, List.sum_cons,
      List.sum_nil]
    refine (Nat.add_le_add hversion <| Nat.add_le_add (size_identifier h.inboxItemId) <|
      Nat.add_le_add (size_target hlabel) <| Nat.add_le_add (size_identifier h.recordId) <|
      Nat.add_le_add (size_identifier h.inboxItemId) <|
      Nat.add_le_add (size_identifier h.spaceId) <|
      Nat.add_le_add (size_identifier h.fromPrincipal) <|
      Nat.add_le_add (size_identifier h.addressedTo) <|
      Nat.add_le_add (size_identifier_option h.routingKey) <| Nat.add_le_add (size_rendered h).2 <|
      Nat.add_le_add (size_digest hsha _) (Nat.le_refl 0)).trans ?_
    decide
  refine (size_members _).trans ?_
  refine (Nat.add_le_add_right (Nat.add_le_add hkeys hvalues) 2).trans ?_
  decide

end Bounds

section Acceptance
variable {e : Envelope} {route : Route} {R : Publisher}

/-- A runtime does not refuse a message for its size: not before it writes, and not the file of an
earlier call for the same message. -/
structure Accepts (R : Publisher) (route : Route) (e : Envelope) : Prop where
  size : (R.encode route.runtimeTarget e (e.render jsonText)).length ≤ R.maxBytes
  prepared : prepare R jsonText route e (e.render jsonText) =
    .ok (R.fileName e.inboxItemId, R.encode route.runtimeTarget e (e.render jsonText))
  replayed : ∀ (d : Files) (call : Call), call.stage = .look →
    call.payload = R.encode route.runtimeTarget e (e.render jsonText) →
    d.read call.file = some (.regular call.payload) →
      advance R d call = (d, .opening)

theorem accepts_of_size (henabled : route.enabled = true)
    (hlabel : R.validate route.runtimeTarget = .ok ())
    (hsize : (R.encode route.runtimeTarget e (e.render jsonText)).length ≤ R.maxBytes) :
    Accepts R route e where
  size := hsize
  prepared := by
    rw [prepare, failIf_neg (by simp [henabled]), hlabel]
    simp only [ok_bind,
      failIf_neg (show ¬ e.render jsonText ≠ e.render jsonText from fun h => h rfl),
      failIf_neg (Nat.not_lt.mpr hsize)]
  replayed := by
    intro d call hstage hpayload hread
    rw [advance, hstage]
    simp only [hread, hpayload, if_neg (Nat.not_lt.mpr hsize)]

theorem accepts_fileRuntime {P : Platform} (hsha : ∀ m, (P.sha256 m).length = 32)
    (h : Deliverable e)
    (henabled : route.enabled = true) (hlabel : validateLabel route.runtimeTarget = .ok ()) :
    Accepts (fileRuntime P spoolJson) route e :=
  accepts_of_size henabled hlabel ((length_jsonBytes _).trans_le (size_spool hsha h hlabel))

/-- Neither runtime refuses a message that the service admits, for a target that passes the
check. -/
theorem runtime_sizes {P : Platform} (hsha : ∀ m, (P.sha256 m).length = 32) (h : Deliverable e)
    (henabled : route.enabled = true) (hlabel : validateLabel route.runtimeTarget = .ok ()) :
    Accepts (fileRuntime P spoolJson) route e ∧ Accepts (museRuntime P dropJson) route e := by
  constructor
  · exact accepts_fileRuntime hsha h henabled hlabel
  · exact accepts_of_size henabled hlabel ((length_jsonBytes _).trans_le (size_drop hsha h hlabel))

/-- The digests of the one message that is sent here and of its item's identifier. -/
def samplePlatform : Platform :=
  { Platform.plain with
    sha256 := fun m =>
      if m = asBytes "item" then
        [74, 51, 234, 205, 95, 166, 95, 43, 46, 40, 113, 205, 19, 18, 134, 181, 60, 65, 91, 19, 22,
          102, 215, 17, 115, 187, 110, 63, 229, 147, 97, 179]
      else
        [227, 220, 27, 187, 65, 144, 222, 90, 13, 240, 253, 15, 175, 177, 126, 201, 61, 48, 22, 185,
          205, 40, 14, 111, 142, 253, 17, 202, 245, 164, 122, 13] }

theorem samplePlatform_sha256 (m : List UInt8) : (samplePlatform.sha256 m).length = 32 := by
  simp only [samplePlatform]
  split <;> rfl

def sampleRoute : Route := ⟨"default", "inbox", true⟩

theorem validateLabel_sampleRoute : validateLabel sampleRoute.runtimeTarget = .ok () := by
  decide +kernel

theorem deliverable_forgedEnvelope : Deliverable forgedEnvelope := by
  have hnone : ∀ v ∈ (none : Option String), charCount v ≤ maxIdentifierChars := by
    intro v hv
    cases hv
  exact ⟨by decide, by decide, by decide, by decide, hnone, hnone, by decide, hnone,
    by decide +kernel⟩

theorem runtime_sizes_sample :
    Accepts (fileRuntime samplePlatform spoolJson) ⟨"default", "inbox", true⟩ forgedEnvelope ∧
    Accepts (museRuntime samplePlatform dropJson) ⟨"default", "inbox", true⟩ forgedEnvelope :=
  runtime_sizes samplePlatform_sha256 deliverable_forgedEnvelope rfl validateLabel_sampleRoute

end Acceptance

end AgentJournal.Runtime
