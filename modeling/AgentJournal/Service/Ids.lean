import AgentJournal.Domain.Wire
import AgentJournal.Service.Store

/-! # Generated ids

The ids of records and principals pass the validator of the wire and the check of the schema, begin
with the milliseconds of the clock and are ordered by them.
-/

namespace AgentJournal.Service
open Domain Foundation Storage

variable {bytes bytes' : List UInt8} {ms ms' sequence sequence' : ℕ}
  {random random' : Vector UInt8 32}

section Digits

theorem hexChars_append (a b : List UInt8) :
    hexChars (a ++ b) = hexChars a ++ hexChars b := List.flatMap_append

theorem hexChars_take (bytes : List UInt8) (k : ℕ) :
    (hexChars bytes).take (2 * k) = hexChars (bytes.take k) := by
  rcases Nat.le_total bytes.length k with h | h
  · rw [List.take_of_length_le h, List.take_of_length_le (by rw [hexChars_length]; omega)]
  · have hsplit : hexChars bytes = hexChars (bytes.take k) ++ hexChars (bytes.drop k) := by
      rw [← hexChars_append, List.take_append_drop]
    have hlength : (hexChars (bytes.take k)).length = 2 * k := by
      rw [hexChars_length, List.length_take, Nat.min_eq_left h]
    rw [hsplit, ← hlength, List.take_left]

/-- Two digits for each byte of a number are its digits. -/
theorem hexChars_numeral (k n : ℕ) :
    hexChars (numeral 256 UInt8.ofNat k n) = numeral 16 Domain.hexDigit (2 * k) n := by
  induction k generalizing n with
  | zero => rfl
  | succ k ih =>
    have hhigh : n % 256 / 16 = n / 16 % 16 := by omega
    have hlow : n % 256 % 16 = n % 16 := by omega
    rw [numeral, hexChars_append, ih, Nat.mul_succ, numeral_add, show 16 ^ 2 = 256 from rfl]
    simp [hexChars, numeral, hhigh, hlow]

theorem hexDigit_eq_digitChar : ∀ i < 16, Domain.hexDigit i = Nat.digitChar i := by decide

theorem hexDigit_lt (i j : ℕ) (h : i < j) (hj : j < 16) :
    Domain.hexDigit i < Domain.hexDigit j := by
  have hall : ∀ i j : Fin 16, i < j → Domain.hexDigit i < Domain.hexDigit j := by decide
  exact hall ⟨i, h.trans hj⟩ ⟨j, hj⟩ h

end Digits

section Layout

/-- The first six bytes are the milliseconds. -/
theorem take_uuidBytes : (uuidBytes ms random sequence).take 6 = numeral 256 UInt8.ofNat 6 ms := by
  have hstamp : (toBeBytes ms).drop 2 = numeral 256 UInt8.ofNat 6 ms := by
    rw [toBeBytes_eq_numeral, numeral_add (j := 2) (k := 6), List.drop_left' length_numeral]
  refine List.ext_getElem? fun i => ?_
  simp only [uuidBytes, hstamp]
  rcases Nat.lt_or_ge i 6 with hi | hi
  · rw [List.getElem?_take_of_lt hi, List.getElem?_modify_ne _ _ (by omega : 8 ≠ i),
      List.getElem?_modify_ne _ _ (by omega : 6 ≠ i)]
    simp [List.getElem?_append, hi, show i < 8 by omega]
  · rw [List.getElem?_eq_none (by simp; omega), List.getElem?_eq_none (by simpa using hi)]

/-- The digits of an id, without the hyphens. -/
def idDigits (id : String) : List Char := id.toList.filter (· ≠ '-')

theorem ne_hyphen {c : Char} (h : c ∈ hexChars bytes) : c ≠ '-' := by
  have hdigit : ∀ i : Fin 16, Domain.hexDigit i ≠ '-' := by decide
  simp only [hexChars, List.mem_flatMap, List.mem_cons, List.not_mem_nil, or_false] at h
  obtain ⟨b, -, heq⟩ := h
  have hb := b.toNat_lt
  rcases heq with rfl | rfl
  · exact hdigit ⟨b.toNat / 16, by omega⟩
  · exact hdigit ⟨b.toNat % 16, by omega⟩

theorem idDigits_uuidText (bytes : List UInt8) : idDigits (uuidText bytes) = hexChars bytes := by
  have hkeep : ∀ l : List Char, (∀ c ∈ l, c ∈ hexChars bytes) → l.filter (· ≠ '-') = l := by
    intro l hl
    refine List.filter_eq_self.mpr fun c hc => ?_
    simpa using ne_hyphen (hl c hc)
  have htake : ∀ k n, (((hexChars bytes).drop k).take n).filter (· ≠ '-') =
    ((hexChars bytes).drop k).take n :=
    fun k n => hkeep _ fun c hc => List.mem_of_mem_drop (List.mem_of_mem_take hc)
  have hsplit : ∀ k n, ((hexChars bytes).drop k).take n ++ (hexChars bytes).drop (k + n) =
    (hexChars bytes).drop k := by
    intro k n
    rw [← List.drop_drop, List.take_append_drop]
  have hfirst := htake 0 8
  have hlast := hkeep ((hexChars bytes).drop 20) fun c hc => List.mem_of_mem_drop hc
  rw [List.drop_zero] at hfirst
  rw [idDigits, uuidText_toList]
  simp only [List.filter_append, List.filter_cons, ne_eq, not_true_eq_false, decide_false,
    Bool.false_eq_true, if_false]
  simp only [ne_eq] at hfirst htake hlast
  rw [hfirst, htake, htake, htake, hlast, hsplit 16 4, hsplit 12 4, hsplit 8 4,
    List.take_append_drop]

/-- The first twelve digits of an id are the milliseconds. -/
theorem take_idDigits (h : ms < 2 ^ 48) :
    (idDigits (uuidText (uuidBytes ms random sequence))).take 12 =
    (Nat.toDigits 16 ms).leftpad 12 '0' := by
  rw [idDigits_uuidText, show 12 = 2 * 6 from rfl, hexChars_take, take_uuidBytes, hexChars_numeral,
    numeral_congr (by decide) hexDigit_eq_digitChar]
  exact numeral_eq_leftpad (by decide) (by decide) (h.trans_eq (by decide))

end Layout

section Validator

theorem hex_zipIdx {l : List UInt8} (h : l.all isLowerHexdigit = true) (n : ℕ) :
    (l.zipIdx n).all (fun x => decide (x.2 ∈ dashIndices) || isLowerHexdigit x.1) = true := by
  refine List.all_eq_true.mpr fun x hx => ?_
  have hmem : x.1 ∈ l := List.fst_mem_of_mem_zipIdx hx
  rw [List.all_eq_true.mp h _ hmem, Bool.or_true]

/-- Five groups of digits with hyphens between them. -/
theorem validate_groups {value : String} {a b r d e : List UInt8}
    (hvalue : asBytes value = a ++ 0x2d :: (b ++ 0x2d :: (r ++ 0x2d :: (d ++ 0x2d :: e))))
    (hlength : a.length = 8 ∧ b.length = 4 ∧ r.length = 4 ∧ d.length = 4 ∧ e.length = 12)
    (hdigits : ∀ l ∈ [a, b, r, d, e], l.all isLowerHexdigit = true) (hversion : r[0]? = some 0x37)
    (hvariant : d[0]?.any (fun b => decide (b ∈ [0x38, 0x39, 0x61, 0x62])) = true)
    (field : String) :
    validateUuidV7 field value = .ok () := by
  obtain ⟨ha, hb, hc, hd, he⟩ := hlength
  simp only [List.forall_mem_cons, List.not_mem_nil, false_implies, implies_true,
    and_true] at hdigits
  obtain ⟨hda, hdb, hdc, hdd, hde⟩ := hdigits
  rw [validateUuidV7, hvalue]
  refine failIf_neg (not_not.mpr ⟨?_, ?_, ?_, ?_, ?_⟩)
  · simp [ha, hb, hc, hd, he]
  · simp [dashIndices, List.getElem?_append, ha, hb, hc, hd]
  · simp [List.getElem?_append, ha, hb, hc, ← hversion]
  · have hget : (a ++ 0x2d :: (b ++ 0x2d :: (r ++ 0x2d :: (d ++ 0x2d :: e))))[19]? = d[0]? := by
      simp [List.getElem?_append, ha, hb, hc, hd]
    rw [hget]
    exact hvariant
  · simp only [List.zipIdx_append, List.zipIdx_cons, List.all_append, List.all_cons, hex_zipIdx hda,
      hex_zipIdx hdb, hex_zipIdx hdc, hex_zipIdx hdd, hex_zipIdx hde, ha, hb, hc, hd]
    decide

/-- The byte of a character. -/
def asciiByte (c : Char) : UInt8 := UInt8.ofNat c.toNat

theorem hexChars_digit {c : Char} (h : c ∈ hexChars bytes) :
    c.toNat < 128 ∧ isLowerHexdigit (asciiByte c) = true := by
  have hdigit : ∀ i : Fin 16, (Domain.hexDigit i).toNat < 128 ∧
      isLowerHexdigit (asciiByte (Domain.hexDigit i)) = true := by decide
  simp only [hexChars, List.mem_flatMap, List.mem_cons, List.not_mem_nil, or_false] at h
  obtain ⟨b, -, heq⟩ := h
  have hb := b.toNat_lt
  rcases heq with rfl | rfl
  · exact hdigit ⟨b.toNat / 16, by omega⟩
  · exact hdigit ⟨b.toNat % 16, by omega⟩

theorem map_asciiByte_digits {l : List Char} (h : ∀ c ∈ l, c ∈ hexChars bytes) :
    (l.map asciiByte).all isLowerHexdigit = true := by
  rw [List.all_map]
  exact List.all_eq_true.mpr fun c hc => (hexChars_digit (h c hc)).2

/-- Sixteen bytes with the version and variant bits make an id that the wire accepts. -/
theorem validateUuidV7_uuidText (hlength : bytes.length = 16)
    (hversion : ∀ b : UInt8, b ∈ bytes[6]? → b.toNat / 16 = 7)
    (hvariant : ∀ b : UInt8, b ∈ bytes[8]? → b.toNat / 16 ∈ [8, 9, 10, 11]) (field : String) :
    validateUuidV7 field (uuidText bytes) = .ok () := by
  have hhex := hexChars_length bytes
  rw [hlength] at hhex
  obtain ⟨b₆, hb₆⟩ : ∃ b, bytes[6]? = some b := ⟨bytes[6], List.getElem?_eq_getElem (by omega)⟩
  obtain ⟨b₈, hb₈⟩ : ∃ b, bytes[8]? = some b := ⟨bytes[8], List.getElem?_eq_getElem (by omega)⟩
  have h₁₂ : (hexChars bytes)[12]? = some (Domain.hexDigit (b₆.toNat / 16)) := by
    rw [show 12 = 2 * 6 by rfl, hexChars_high, hb₆]
    rfl
  have h₁₆ : (hexChars bytes)[16]? = some (Domain.hexDigit (b₈.toNat / 16)) := by
    rw [show 16 = 2 * 8 by rfl, hexChars_high, hb₈]
    rfl
  have hascii : ∀ c ∈ (uuidText bytes).toList, c.toNat < 128 := by
    intro c hc
    by_cases hne : c = '-'
    · rw [hne]
      decide
    · have hmem : c ∈ idDigits (uuidText bytes) := List.mem_filter.mpr ⟨hc, by simpa using hne⟩
      rw [idDigits_uuidText] at hmem
      exact (hexChars_digit hmem).1
  have hbytes : asBytes (uuidText bytes) = (uuidText bytes).toList.map asciiByte := by
    have hlist := asBytes_ascii hascii
    rwa [String.ofList_toList] at hlist
  rw [uuidText_toList] at hbytes
  simp only [List.map_append, List.map_cons] at hbytes
  have hdigits : ∀ k n, (((hexChars bytes).drop k).take n).map asciiByte |>.all isLowerHexdigit :=
    fun k n =>
    map_asciiByte_digits fun c hc => List.mem_of_mem_drop (List.mem_of_mem_take hc)
  refine validate_groups hbytes
    ⟨by simp [hhex], by simp [hhex], by simp [hhex], by simp [hhex], by simp [hhex]⟩
    ?_ ?_ ?_ field
  · simp only [List.forall_mem_cons, List.not_mem_nil, false_implies, implies_true, and_true]
    have hlast : (((hexChars bytes).drop 20).map asciiByte).all isLowerHexdigit = true :=
      map_asciiByte_digits fun c hc => List.mem_of_mem_drop hc
    exact ⟨hdigits 0 8, hdigits 8 4, hdigits 12 4, hdigits 16 4, hlast⟩
  · rw [List.getElem?_map, List.getElem?_take_of_lt (by decide), List.getElem?_drop, h₁₂,
      hversion b₆ hb₆]
    rfl
  · rw [List.getElem?_map, List.getElem?_take_of_lt (by decide), List.getElem?_drop, h₁₆]
    have hbits := hvariant b₈ hb₈
    simp only [List.mem_cons, List.not_mem_nil, or_false] at hbits
    rcases hbits with h | h | h | h <;> rw [h] <;> decide

end Validator

section Order

/-- Ids of later milliseconds are greater, whatever the rest of them is. -/
theorem uuidText_lt (h : ms < ms') (hms : ms' < 2 ^ 48) :
    uuidText (uuidBytes ms random sequence) < uuidText (uuidBytes ms' random' sequence') := by
  have hfirst : ∀ n (r : Vector UInt8 32) q, (hexChars (uuidBytes n r q)).take 12 =
      numeral 16 Domain.hexDigit 8 (n / 16 ^ 4) ++ numeral 16 Domain.hexDigit 4 n := by
    intro n r q
    rw [show 12 = 2 * 6 from rfl, hexChars_take, take_uuidBytes, hexChars_numeral]
    exact numeral_add (j := 8) (k := 4)
  have hgroups : ∀ n (r : Vector UInt8 32) q, ∃ rest, (uuidText (uuidBytes n r q)).toList =
      numeral 16 Domain.hexDigit 8 (n / 16 ^ 4) ++
      '-' :: (numeral 16 Domain.hexDigit 4 n ++ rest) := by
    intro n r q
    have hlow : (hexChars (uuidBytes n r q)).take 8 =
      numeral 16 Domain.hexDigit 8 (n / 16 ^ 4) := by
      have hcut := congrArg (List.take 8) (hfirst n r q)
      rwa [List.take_take, List.take_left' length_numeral] at hcut
    have hhigh : ((hexChars (uuidBytes n r q)).drop 8).take 4 = numeral 16 Domain.hexDigit 4 n := by
      rw [List.take_drop, hfirst, List.drop_left' length_numeral]
    rw [uuidText_toList, hlow, hhigh]
    exact ⟨_, rfl⟩
  obtain ⟨rest, hleft⟩ := hgroups ms random sequence
  obtain ⟨rest', hright⟩ := hgroups ms' random' sequence'
  rw [String.lt_iff, hleft, hright]
  rcases Nat.lt_or_ge (ms / 16 ^ 4) (ms' / 16 ^ 4) with hlt | hge
  · exact append_lt_append (numeral_lt hexDigit_lt hlt (by omega)) (by simp) _ _
  · have hsame : ms / 16 ^ 4 = ms' / 16 ^ 4 := Nat.le_antisymm (Nat.div_le_div_right h.le) hge
    have hlow : ms % 16 ^ 4 < ms' % 16 ^ 4 := by omega
    have hnumeral := numeral_lt hexDigit_lt hlow (Nat.mod_lt ms' (by decide : 0 < 16 ^ 4))
    rw [numeral_mod, numeral_mod] at hnumeral
    rw [hsame]
    exact List.append_left_lt (List.Lex.cons (append_lt_append hnumeral (by simp) _ _))

end Order

section Sequence

/-- The bits that the variant leaves of a byte mixed with the sequence. -/
theorem variant_cancel {r a b : UInt8} (ha : a.toNat < 64) (hb : b.toNat < 64)
    (h : ((r ^^^ a) &&& 0x3f) ||| 0x80 = ((r ^^^ b) &&& 0x3f) ||| 0x80) : a = b := by
  refine UInt8.toBitVec_inj.mp (BitVec.eq_of_getLsbD_eq fun i hi => ?_)
  have hbit := congrArg (fun x : UInt8 => x.toBitVec.getLsbD i) h
  have hhigh : ∀ x : UInt8, x.toNat < 64 → 6 ≤ i → x.toBitVec.getLsbD i = false := by
    intro x hx hi
    exact Nat.testBit_lt_two_pow (hx.trans_le (Nat.pow_le_pow_right (n := 2) (by decide) hi))
  rcases Nat.lt_or_ge i 6 with hlow | hlow
  · simp only [UInt8.toBitVec_or, UInt8.toBitVec_and, UInt8.toBitVec_xor, BitVec.getLsbD_or,
      BitVec.getLsbD_and, BitVec.getLsbD_xor] at hbit
    have hmask : (0x3f : UInt8).toBitVec.getLsbD i = true ∧
      (0x80 : UInt8).toBitVec.getLsbD i = false := by
      have hall : ∀ i < 6, (0x3f : UInt8).toBitVec.getLsbD i = true ∧
        (0x80 : UInt8).toBitVec.getLsbD i = false := by
        decide
      exact hall i hlow
    rw [hmask.1, hmask.2, Bool.and_true, Bool.and_true, Bool.or_false, Bool.or_false] at hbit
    exact Bool.xor_right_inj.mp hbit
  · rw [hhigh a ha hlow, hhigh b hb hlow]

/-- The last eight bytes are random ones, mixed with those of the sequence. -/
theorem getElem?_uuidBytes (ms : ℕ) (random : Vector UInt8 32) {j : ℕ} (hj : j < 8) :
    ∃ r : UInt8, ∀ q, ∀ b ∈ (toBeBytes q)[j]?,
    (uuidBytes ms random q)[8 + j]? =
      some (if j = 0 then ((r ^^^ b) &&& 0x3f) ||| 0x80 else r ^^^ b) := by
  obtain ⟨r, hr⟩ : ∃ r, random.toList[8 + j]? = some r :=
    ⟨_, List.getElem?_eq_getElem (by simp; omega)⟩
  refine ⟨r, fun q b hb => ?_⟩
  have hrandom : (((toBeBytes ms).drop 2 ++ (random.toList.take 16).drop 6).drop 8)[j]? =
    some r := by
    rw [List.getElem?_drop, List.getElem?_append_right (by simp; omega), List.getElem?_drop,
      List.getElem?_take_of_lt (by simp; omega), ← hr]
    congr 1
    simp
    omega
  have hmixed : (((toBeBytes ms).drop 2 ++ (random.toList.take 16).drop 6).take 8 ++
      List.zipWith (· ^^^ ·) (((toBeBytes ms).drop 2 ++ (random.toList.take 16).drop 6).drop 8)
      (toBeBytes q))[8 + j]? =
        some (r ^^^ b) := by
    rw [List.getElem?_append_right (by simp)]
    have hindex :
        8 + j - (((toBeBytes ms).drop 2 ++ (random.toList.take 16).drop 6).take 8).length = j := by
      simp
    rw [hindex, List.getElem?_zipWith, hrandom, hb]
  rw [uuidBytes, List.getElem?_modify, List.getElem?_modify_ne _ _ (by omega : 6 ≠ 8 + j), hmixed]
  by_cases hzero : j = 0
  · simp [hzero]
  · have hne : 8 ≠ 8 + j := by omega
    simp [hzero]

/-- With one instant and the same random bytes, the sequence makes the difference. -/
theorem uuidBytes_inj (hs : sequence < 2 ^ 62) (hs' : sequence' < 2 ^ 62)
    (h : uuidBytes ms random sequence = uuidBytes ms random sequence') : sequence = sequence' := by
  apply toBeBytes_inj (hs.trans (by decide)) (hs'.trans (by decide))
  refine List.ext_getElem (by simp) fun j hj hj' => ?_
  rw [length_toBeBytes] at hj
  obtain ⟨r, hr⟩ := getElem?_uuidBytes ms random hj
  have hleft := hr sequence _ (List.getElem?_eq_getElem (by rwa [length_toBeBytes]))
  have hright := hr sequence' _ (List.getElem?_eq_getElem (by rwa [length_toBeBytes]))
  rw [h, hright, Option.some.injEq] at hleft
  by_cases hzero : j = 0
  · rw [if_pos hzero, if_pos hzero] at hleft
    have hsmall : ∀ q < 2 ^ 62, ∀ b ∈ (toBeBytes q)[j]?, b.toNat < 64 := by
      intro q hq b hb
      rw [hzero, toBeBytes] at hb
      simp at hb
      rw [← hb, UInt8.toNat_ofNat']
      omega
    exact variant_cancel (hsmall _ hs _ (List.getElem?_eq_getElem (by rwa [length_toBeBytes])))
      (hsmall _ hs' _ (List.getElem?_eq_getElem (by rwa [length_toBeBytes]))) hleft.symm
  · rw [if_neg hzero, if_neg hzero] at hleft
    exact (UInt8.xor_right_inj r).mp hleft.symm

theorem uuidText_inj (h : uuidText bytes = uuidText bytes') : bytes = bytes' := by
  have hdigits := congrArg idDigits h
  rw [idDigits_uuidText, idDigits_uuidText] at hdigits
  exact hexChars_injective hdigits

end Sequence

section Sources
variable {s s' t t' : Session} {time time' : ℤ} {id id' : String}

theorem millis_eq_ok :
    millis time = .ok ms ↔ 0 ≤ time ∧ time / 10 ^ 6 < 2 ^ 48 ∧ ms = (time / 10 ^ 6).toNat := by
  simp only [millis, bind_eq_ok, failIf_eq_ok, not_lt, not_le, pure_eq_ok, Except.ok.injEq]
  constructor
  · rintro ⟨_, hpos, _, hlt, rfl⟩
    exact ⟨hpos, hlt, rfl⟩
  · rintro ⟨hpos, hlt, rfl⟩
    exact ⟨(), hpos, (), hlt, rfl⟩

/-- An instant before the epoch, or too late for 48 bits of milliseconds. -/
theorem millis_out_of_range (h : time < 0 ∨ 2 ^ 48 ≤ time / 10 ^ 6) :
    millis time = .error .clock := by
  unfold millis
  by_cases hneg : time < 0
  · rw [failIf_pos hneg]
    rfl
  · rw [failIf_neg hneg]
    simp only [ok_bind, failIf_pos (h.resolve_left hneg), error_bind]

/-- The number that the next principal id is mixed with. -/
def Session.principalNumber (s : Session) : ℕ :=
  (s.host.principalSequence + UInt64.ofNat s.principalIds).toNat

theorem recordId_eq_ok : (recordId time).run s = .ok (id, t) ↔ ∃ ms random, millis time = .ok ms ∧
    s.host.random s.fills = some random ∧ id = uuidText (uuidBytes ms random 0) ∧
      t = { s with fills := s.fills + 1 } := by
  simp only [recordId, run_bind_eq_ok, attempt_eq_ok, fill_eq_ok, run_pure_eq_ok]
  constructor
  · rintro ⟨ms, _, ⟨hms, rfl⟩, random, _, ⟨hrandom, rfl⟩, rfl, rfl⟩
    exact ⟨ms, random, hms, hrandom, rfl, rfl⟩
  · rintro ⟨ms, random, hms, hrandom, rfl, rfl⟩
    exact ⟨ms, _, ⟨hms, rfl⟩, random, _, ⟨hrandom, rfl⟩, rfl, rfl⟩

theorem principalId_eq_ok : principalId.run s = .ok (id, t) ↔ ∃ ms random,
    millis (s.host.clock s.readings) = .ok ms ∧ s.host.random s.fills = some random ∧
      id = uuidText (uuidBytes ms random s.principalNumber) ∧
      t = { s with readings := s.readings + 1, fills := s.fills + 1, principalIds :=
        s.principalIds + 1 } := by
  have hnext : ∀ (x : Session) n y, nextPrincipal.run x = .ok (n, y) ↔
      n = x.principalNumber ∧ y = { x with principalIds := x.principalIds + 1 } := by
    intro x n y
    simp [nextPrincipal, StateT.run, Session.principalNumber, eq_comm]
  simp only [principalId, run_bind_eq_ok, instant_eq_ok, attempt_eq_ok, fill_eq_ok, hnext,
    run_pure_eq_ok]
  constructor
  · rintro ⟨_, _, ⟨rfl, rfl⟩, ms, _, ⟨hms, rfl⟩, random, _, ⟨hrandom, rfl⟩, _, _, ⟨rfl, rfl⟩, rfl,
      rfl⟩
    exact ⟨ms, random, hms, hrandom, rfl, rfl⟩
  · rintro ⟨ms, random, hms, hrandom, rfl, rfl⟩
    exact ⟨_, _, ⟨rfl, rfl⟩, ms, _, ⟨hms, rfl⟩, random, _, ⟨hrandom, rfl⟩, _, _, ⟨rfl, rfl⟩, rfl,
      rfl⟩

/-- A well-formed id that was generated at some milliseconds. -/
structure GeneratedAt (ms : ℕ) (id : String) : Prop where
  chars : charCount id = 36
  wire : ∀ field, validateUuidV7 field id = .ok ()
  check : principalIdCheck id = true
  stamp : (idDigits id).take 12 = (Nat.toDigits 16 ms).leftpad 12 '0'

theorem generatedAt (h : ms < 2 ^ 48) :
    GeneratedAt ms (uuidText (uuidBytes ms random sequence)) where
  chars := by
    have hcheck := principalIdCheck_uuidBytes ms random sequence
    simp only [principalIdCheck, Bool.and_eq_true, decide_eq_true_eq,
      sqlChars_of_notMem (nul_notMem_uuidText _)]
      at hcheck
    exact hcheck.1.1
  wire := validateUuidV7_uuidText length_uuidBytes version_uuidBytes variant_uuidBytes
  check := principalIdCheck_uuidBytes ms random sequence
  stamp := take_idDigits h

theorem millis_lt {time : ℤ} (h : millis time = .ok ms) : ms < 2 ^ 48 := by
  obtain ⟨-, hlt, rfl⟩ := millis_eq_ok.mp h
  omega

/-- Ids are well formed, an instant out of range is refused, the sequence makes principal ids of one
instant differ, and ids of later milliseconds are greater, whatever the random bytes are. -/
theorem generated_ids :
    (∀ (s : Session) (time : ℤ) (random : Vector UInt8 32), s.host.random s.fills = some random →
      0 ≤ time → time / 10 ^ 6 < 2 ^ 48 →
        ∃ id t, (recordId time).run s = .ok (id, t) ∧ GeneratedAt (time / 10 ^ 6).toNat id) ∧
    (∀ (s : Session) (time : ℤ) (random : Vector UInt8 32), s.host.random s.fills = some random →
      s.host.clock s.readings = time → 0 ≤ time → time / 10 ^ 6 < 2 ^ 48 →
        ∃ id t, principalId.run s = .ok (id, t) ∧ GeneratedAt (time / 10 ^ 6).toNat id) ∧
    (∀ (s : Session) (time : ℤ), time < 0 ∨ 2 ^ 48 ≤ time / 10 ^ 6 →
      (recordId time).run s = .error .clock ∧
        (s.host.clock s.readings = time → principalId.run s = .error .clock)) ∧
    (∀ (s s' : Session) id t t', s.host.clock s.readings = s'.host.clock s'.readings →
      s.host.random s.fills = s'.host.random s'.fills → s.principalNumber < 2 ^ 62 →
      s'.principalNumber < 2 ^ 62 →
        principalId.run s = .ok (id, t) → principalId.run s' = .ok (id, t') →
          s.principalNumber = s'.principalNumber) ∧
    (∀ (s s' : Session) time time' id id' t t', time / 10 ^ 6 < time' / 10 ^ 6 →
      (recordId time).run s = .ok (id, t) → (recordId time').run s' = .ok (id', t') → id < id') ∧
    ∀ (s s' : Session) id id' t t', s.host.clock s.readings / 10 ^ 6 <
    s'.host.clock s'.readings / 10 ^ 6 →
      principalId.run s = .ok (id, t) → principalId.run s' = .ok (id', t') → id < id' := by
  have hlater : ∀ {time time' : ℤ} {ms ms' : ℕ}, time / 10 ^ 6 < time' / 10 ^ 6 →
    millis time = .ok ms →
      millis time' = .ok ms' → ms < ms' ∧ ms' < 2 ^ 48 := by
    intro time time' ms ms' h hms hms'
    obtain ⟨hpos, -, rfl⟩ := millis_eq_ok.mp hms
    obtain ⟨hpos', hlt', rfl⟩ := millis_eq_ok.mp hms'
    omega
  refine ⟨?_, ?_, ?_, ?_, ?_, ?_⟩
  · intro s time random hrandom hpos hlt
    have hms := millis_eq_ok.mpr ⟨hpos, hlt, rfl⟩
    exact ⟨_, _, recordId_eq_ok.mpr ⟨_, random, hms, hrandom, rfl, rfl⟩,
      generatedAt (millis_lt hms)⟩
  · rintro s time random hrandom rfl hpos hlt
    have hms := millis_eq_ok.mpr ⟨hpos, hlt, rfl⟩
    exact ⟨_, _, principalId_eq_ok.mpr ⟨_, random, hms, hrandom, rfl, rfl⟩,
      generatedAt (millis_lt hms)⟩
  · intro s time hrange
    have hms := millis_out_of_range hrange
    have hattempt : ∀ x : Session, (attempt (millis time)).run x = .error .clock := by
      intro x
      rw [hms]
      rfl
    constructor
    · exact run_bind_of_error (hattempt s)
    · intro hclock
      have hinstant := instant_eq_ok (s := s).mpr ⟨hclock.symm, rfl⟩
      rw [principalId, run_bind_of_ok hinstant]
      exact run_bind_of_error (hattempt _)
  · intro s s' id t t' hclock hsame hs hs' h h'
    obtain ⟨ms, random, hms, hrandom, rfl, -⟩ := principalId_eq_ok.mp h
    obtain ⟨ms', random', hms', hrandom', hid, -⟩ := principalId_eq_ok.mp h'
    rw [← hclock, hms, Except.ok.injEq] at hms'
    rw [← hsame, hrandom, Option.some.injEq] at hrandom'
    rw [← hms', ← hrandom'] at hid
    exact uuidBytes_inj hs hs' (uuidText_inj hid)
  · intro s s' time time' id id' t t' h hid hid'
    obtain ⟨ms, random, hms, -, rfl, -⟩ := recordId_eq_ok.mp hid
    obtain ⟨ms', random', hms', -, rfl, -⟩ := recordId_eq_ok.mp hid'
    obtain ⟨hlt, hbound⟩ := hlater h hms hms'
    exact uuidText_lt hlt hbound
  · intro s s' id id' t t' h hid hid'
    obtain ⟨ms, random, hms, -, rfl, -⟩ := principalId_eq_ok.mp hid
    obtain ⟨ms', random', hms', -, rfl, -⟩ := principalId_eq_ok.mp hid'
    obtain ⟨hlt, hbound⟩ := hlater h hms hms'
    exact uuidText_lt hlt hbound

theorem generated_ids_sample :
    ∃ id t, principalId.run (Session.start sampleHost sampleStore) = .ok (id, t) ∧
    GeneratedAt 0 id := by
  obtain ⟨-, hprincipal, -⟩ := generated_ids
  exact hprincipal (Session.start sampleHost sampleStore) 0 (Vector.replicate 32 0) rfl rfl
    (by decide) (by decide)

end Sources

end AgentJournal.Service
