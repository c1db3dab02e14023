import AgentJournal.Domain.Text
import AgentJournal.Foundation.Form

/-! # Paths and queries of a request -/

namespace AgentJournal.Domain
open Foundation

def isAsciiAlphanumeric (b : UInt8) : Bool :=
  (0x30 ≤ b && b ≤ 0x39) || (0x41 ≤ b && b ≤ 0x5a) || (0x61 ≤ b && b ≤ 0x7a)

/-- The bytes that a form does not encode: letters, digits and `*-._`. -/
def formKeeps (b : UInt8) : Bool := isAsciiAlphanumeric b || b ∈ [0x2a, 0x2d, 0x2e, 0x5f]

/-- `form_urlencoded::byte_serialize`; a blank is a plus sign. -/
def byteSerialize (bytes : List UInt8) : List UInt8 :=
  bytes.flatMap fun b => if b = 0x20 then [0x2b] else percentByte formKeeps b

/-- The characters of ASCII bytes. -/
def asciiText (bytes : List UInt8) : String := String.ofList (bytes.map fun b => Char.ofNat b.toNat)

def pathSegment (value : String) : String :=
  asciiText
    ((byteSerialize (asBytes value)).flatMap fun b => if b = 0x2b then [0x25, 0x32, 0x30] else [b])

/-- `Serializer::extend_pairs(values).finish()`. -/
def queryString (values : List (String × String)) : String :=
  asciiText (formText formKeeps (values.map fun value => (asBytes value.1, asBytes value.2)))

theorem keepsForm_formKeeps : KeepsForm formKeeps := by constructor <;> decide

theorem byteSerialize_eq (bytes : List UInt8) :
    byteSerialize bytes = formEncode formKeeps bytes := rfl

theorem formKeeps_lt {b : UInt8} (h : formKeeps b = true) : b < 0x80 := by
  simp only [formKeeps, isAsciiAlphanumeric, Bool.or_eq_true, Bool.and_eq_true, decide_eq_true_eq,
    List.mem_cons, List.not_mem_nil, or_false, UInt8.le_iff_toNat_le] at h
  rw [UInt8.lt_iff_toNat_lt]
  rcases h with ((h | h) | h) | (rfl | rfl | rfl | rfl)
  · exact lt_of_le_of_lt h.2 (by decide)
  · exact lt_of_le_of_lt h.2 (by decide)
  · exact lt_of_le_of_lt h.2 (by decide)
  all_goals decide

theorem asBytes_asciiText {bytes : List UInt8} (h : ∀ b ∈ bytes, b < 0x80) :
    asBytes (asciiText bytes) = bytes := by
  have hchar : ∀ b ∈ bytes, (Char.ofNat b.toNat).toNat = b.toNat := by
    intro b _
    have hb := b.toNat_lt
    rw [Char.ofNat, dif_pos (.inl (by omega))]
    rfl
  rw [asciiText, asBytes_ascii, List.map_map]
  · refine (List.map_congr_left fun b hb => ?_).trans (List.map_id bytes)
    rw [Function.comp_apply, hchar b hb, UInt8.ofNat_toNat, id_eq]
  · intro c hc
    obtain ⟨b, hb, rfl⟩ := List.mem_map.mp hc
    rw [hchar b hb]
    exact UInt8.lt_iff_toNat_lt.mp (h b hb)

theorem hexByte_lt {n : ℕ} (hn : n < 16) : hexByte n < 0x80 := by
  have hall : ∀ i : Fin 16, hexByte i < 0x80 := by decide
  exact hall ⟨n, hn⟩

theorem formEncode_lt {bytes : List UInt8} {b : UInt8} (h : b ∈ formEncode formKeeps bytes) :
    b < 0x80 := by
  rcases mem_formEncode h with h | rfl | rfl | ⟨n, hn, rfl⟩
  · exact formKeeps_lt h
  · decide
  · decide
  · exact hexByte_lt hn

/-- What `replace('+', "%20")` makes of a byte. -/
def escapePlus (b : UInt8) : List UInt8 := if b = 0x2b then [0x25, 0x32, 0x30] else [b]

theorem flatMap_escapePlus {bytes : List UInt8} (h : 0x2b ∉ bytes) :
    bytes.flatMap escapePlus = bytes := by
  induction bytes with
  | nil => rfl
  | cons b bytes ih =>
    rw [List.mem_cons, not_or] at h
    obtain ⟨hb, hrest⟩ := h
    rw [List.flatMap_cons, ih hrest, escapePlus, if_neg (Ne.symm hb)]
    rfl

/-- A blank is escaped like every other byte that is not kept. -/
theorem formEncode_escaped (bytes : List UInt8) :
    (formEncode formKeeps bytes).flatMap escapePlus = percentEncode formKeeps bytes := by
  induction bytes with
  | nil => rfl
  | cons b bytes ih =>
    rw [formEncode_cons, List.flatMap_append, ih, percentEncode_cons]
    congr 1
    unfold formByte
    split
    · rename_i hblank
      subst hblank
      decide
    · exact flatMap_escapePlus (plus_notMem_percentByte keepsForm_formKeeps b)

theorem asBytes_pathSegment (value : String) :
    asBytes (pathSegment value) = percentEncode formKeeps (asBytes value) := by
  rw [pathSegment, byteSerialize_eq]
  change asBytes (asciiText ((formEncode formKeeps (asBytes value)).flatMap escapePlus)) = _
  rw [formEncode_escaped]
  refine asBytes_asciiText fun b hb => ?_
  rcases mem_percentEncode hb with ⟨-, h⟩ | rfl | ⟨n, hn, rfl⟩
  · exact formKeeps_lt h
  · decide
  · exact hexByte_lt hn

theorem mem_formText {pairs : List (List UInt8 × List UInt8)} {b : UInt8}
    (h : b ∈ formText formKeeps pairs) :
    b = 0x26 ∨ b = 0x3d ∨ ∃ bytes, b ∈ formEncode formKeeps bytes := by
  induction pairs with
  | nil => cases h
  | cons pair rest ih =>
    have hpair : ∀ b ∈ formEncode formKeeps pair.1 ++ 0x3d :: formEncode formKeeps pair.2,
        b = 0x26 ∨ b = 0x3d ∨ ∃ bytes, b ∈ formEncode formKeeps bytes := by
      intro b hb
      rcases List.mem_append.mp hb with hb | hb
      · exact .inr (.inr ⟨_, hb⟩)
      · rcases List.mem_cons.mp hb with rfl | hb
        · exact .inr (.inl rfl)
        · exact .inr (.inr ⟨_, hb⟩)
    cases rest with
    | nil => exact hpair b (by simpa [formText] using h)
    | cons next rest =>
      rw [formText, List.map_cons, List.map_cons, List.intercalate_cons_cons,
        List.append_assoc] at h
      rcases List.mem_append.mp h with hb | hb
      · exact hpair b hb
      · rcases List.mem_append.mp hb with hb | hb
        · exact .inl (List.mem_singleton.mp hb)
        · exact ih hb

theorem asBytes_queryString (values : List (String × String)) :
    asBytes (queryString values) =
    formText formKeeps (values.map fun value => (asBytes value.1, asBytes value.2)) := by
  refine asBytes_asciiText fun b hb => ?_
  rcases mem_formText hb with rfl | rfl | ⟨bytes, hb⟩
  · decide
  · decide
  · exact formEncode_lt hb

end AgentJournal.Domain
