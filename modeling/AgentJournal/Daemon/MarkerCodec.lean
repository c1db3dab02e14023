import AgentJournal.Daemon.Marker
import AgentJournal.Domain.Coded
import Mathlib.Data.Bool.AllAny

/-! # The codec of the marker

A marker file has one text for each state: what is parsed is what the state is written as.
-/

namespace AgentJournal.Daemon
open Domain Foundation

section Names

/-- The names that a marker can have. -/
def PendingName (name : Name) : Prop :=
  1 ≤ name.length ∧ name.length ≤ 256 ∧ ∀ c ∈ name, c ∈ adminPendingAlphabet

theorem markerName_of_pendingName {name : Name} (h : PendingName name) :
    markerName name = .ok (name.flatMap hexPair) := by
  obtain ⟨hpos, hlength, hall⟩ := h
  exact markerName_eq_ok.mpr ⟨List.length_pos_iff.mp hpos, hlength, hall, rfl⟩

/-- A digit that is accepted is the one that is written. -/
theorem hexDigit_eq_some {c : Char} {n : ℕ} (h : hexDigit c = some n) :
    n < 16 ∧ Nat.digitChar n = c := by
  have hdigits : ∀ n < 16, Nat.digitChar n = Char.ofNat (if n < 10 then n + 48 else n + 87) := by
    decide
  have hc : Char.ofNat c.toNat = c := Char.ofNat_toNat c
  unfold hexDigit at h
  split at h
  · rename_i hrange
    have hlow : 48 ≤ c.toNat := hrange.1
    have hhigh : c.toNat ≤ 57 := hrange.2
    have hn : n = c.toNat - 48 := (Option.some.inj h).symm
    refine ⟨by omega, ?_⟩
    rw [hdigits n (by omega), if_pos (by omega), hn, Nat.sub_add_cancel hlow, hc]
  · split at h
    · rename_i hrange
      have hlow : 97 ≤ c.toNat := hrange.1
      have hhigh : c.toNat ≤ 102 := hrange.2
      have hn : n = c.toNat - 97 + 10 := (Option.some.inj h).symm
      refine ⟨by omega, ?_⟩
      rw [hdigits n (by omega), if_neg (by omega), show n + 87 = c.toNat by omega, hc]
    · cases h

/-- The character for a byte. -/
theorem toNat_ofNat {n : ℕ} (h : n < 256) : (Char.ofNat n).toNat = n := by
  have hvalid : n.isValidChar := .inl (by omega)
  rw [Char.ofNat, dif_pos hvalid]
  exact UInt32.toNat_ofNatLT

theorem hexPair_ofNat {high low : ℕ} (hhigh : high < 16) (hlow : low < 16) :
    hexPair (Char.ofNat (high * 16 + low)) = [Nat.digitChar high, Nat.digitChar low] := by
  rw [hexPair, toNat_ofNat (by omega), show (high * 16 + low) / 16 =
    high by omega, show (high * 16 + low) % 16 = low by omega]

theorem decodePairs_eq_ok {encoded : Text} {name : Name} (heven : encoded.length % 2 = 0)
    (h : decodePairs encoded = .ok name) : encoded = name.flatMap hexPair := by
  induction encoded using decodePairs.induct generalizing name with
  | case1 high low rest ih =>
    simp only [decodePairs, bind_eq_ok, required_eq_ok, Except.ok.injEq] at h
    obtain ⟨h₁, hhigh, h₂, hlow, bytes, hbytes, rfl⟩ := h
    obtain ⟨hlt₁, rfl⟩ := hexDigit_eq_some hhigh
    obtain ⟨hlt₂, rfl⟩ := hexDigit_eq_some hlow
    have hrest : rest.length % 2 = 0 := by
      simp only [List.length_cons] at heven
      omega
    rw [List.flatMap_cons, hexPair_ofNat hlt₁ hlt₂, ← ih hrest hbytes]
    rfl
  | case2 encoded hshort =>
    cases encoded with
    | nil =>
      cases h
      rfl
    | cons c rest =>
      cases rest with
      | nil => simp at heven
      | cons c' rest => exact absurd rfl (hshort c c' rest)

theorem decodeMarkerName_eq_ok {encoded : Text} {name : Name} :
    decodeMarkerName encoded = .ok name ↔ markerName name = .ok encoded := by
  constructor
  · intro h
    simp only [decodeMarkerName, bind_eq_ok, failIf_eq_ok, not_or, not_not, Except.ok.injEq] at h
    obtain ⟨_, ⟨-, -, heven⟩, _, hdecoded, encoded', hencoded, rfl⟩ := h
    have heq := decodePairs_eq_ok heven hdecoded
    obtain ⟨-, -, -, rfl⟩ := markerName_eq_ok.mp hencoded
    rw [heq]
    exact hencoded
  · exact decodeMarkerName_encoded

end Names

section Numbers

theorem markerNumber_eq_ok {text : Text} {n : ℕ} :
    markerNumber text = .ok n ↔ n < 2 ^ 64 ∧ text = Nat.toDigits 10 n := by
  constructor
  · intro h
    simp only [markerNumber, bind_eq_ok, failIf_eq_ok, not_not, not_le, Except.ok.injEq] at h
    obtain ⟨_, -, _, hlt, _, heq, rfl⟩ := h
    exact ⟨hlt, heq.symm⟩
  · rintro ⟨hlt, rfl⟩
    exact markerNumber_toDigits hlt

theorem markerField_eq_ok {line rest : Text} {name : String} :
    markerField line name = .ok rest ↔ line = name.toList ++ rest := by
  unfold markerField
  constructor
  · intro h
    split at h
    · rename_i hprefix
      obtain ⟨rest', rfl⟩ := hprefix
      rw [List.drop_left] at h
      rw [Except.ok.inj h]
    · cases h
  · rintro rfl
    rw [if_pos (List.prefix_append _ _), List.drop_left]

theorem parseIdentity_eq_ok {devField inoField : String} {dev ino : Text} {i : ArtifactIdentity} :
    parseIdentity devField inoField dev ino = .ok i ↔
      i.Valid ∧ dev = numberLine devField i.device ∧ ino = numberLine inoField i.inode := by
  constructor
  · intro h
    simp only [parseIdentity, bind_eq_ok, markerField_eq_ok, markerNumber_eq_ok,
      Except.ok.injEq] at h
    obtain ⟨_, rfl, device, ⟨hdevice, rfl⟩, _, rfl, inode, ⟨hinode, rfl⟩, rfl⟩ := h
    exact ⟨⟨hdevice, hinode⟩, rfl, rfl⟩
  · rintro ⟨hvalid, rfl, rfl⟩
    exact parseIdentity_lines hvalid devField inoField

end Numbers

section Lines
variable {state : MarkerState} {ls : List Text}

theorem valid_pending {ownerLock identity : ArtifactIdentity} {name : Name}
    (hlock : ownerLock.Valid)
    (hidentity : identity.Valid) : (MarkerState.pending ownerLock identity name).Valid := by
  rintro lock id ⟨⟩
  exact ⟨hlock, hidentity⟩

theorem valid_published {ownerLock identity : ArtifactIdentity} {name : Option Name}
    (hlock : ownerLock.Valid)
    (hidentity : identity.Valid) : (MarkerState.published ownerLock identity name).Valid := by
  rintro lock id ⟨⟩
  exact ⟨hlock, hidentity⟩

/-- Lines that are parsed are those that the state is written with. -/
theorem parseLines_eq_ok :
    parseLines ls = .ok state ↔ state.Valid ∧ markerLines state = .ok ls := by
  constructor
  · intro h
    unfold parseLines at h
    split at h
    · simp only [bind_eq_ok, failIf_eq_ok, not_not, Except.ok.injEq, List.cons.injEq, and_true] at h
      obtain ⟨_, ⟨rfl, rfl⟩, rfl⟩ := h
      refine ⟨?_, rfl⟩
      rintro lock id ⟨⟩
    · simp only [bind_eq_ok, failIf_eq_ok, not_not, parseIdentity_eq_ok, markerField_eq_ok,
        decodeMarkerName_eq_ok, Except.ok.injEq, List.cons.injEq, and_true, not_and_or] at h
      obtain ⟨_, ⟨rfl, rfl⟩, _, hstate, encoded, rfl, ownerLock, ⟨hlock, rfl, rfl⟩, identity,
        ⟨hidentity, rfl, rfl⟩, name, hname, rfl⟩ := h
      rcases hstate with rfl | rfl
      · exact ⟨valid_pending hlock hidentity, by simp [markerLines, hname, identityLines]⟩
      · have hne : "state=published".toList ≠ "state=pending".toList := by decide
        rw [if_neg hne]
        exact ⟨valid_published hlock hidentity, by simp [markerLines, hname, identityLines]⟩
    · simp only [bind_eq_ok, failIf_eq_ok, not_not, parseIdentity_eq_ok, Except.ok.injEq,
        List.cons.injEq, and_true] at h
      obtain ⟨_, ⟨rfl, rfl, rfl⟩, ownerLock, ⟨hlock, rfl, rfl⟩, identity, ⟨hidentity, rfl, rfl⟩,
        rfl⟩ := h
      exact ⟨valid_published hlock hidentity, rfl⟩
    · cases h
  · rintro ⟨hvalid, h⟩
    exact parseLines_markerLines hvalid h

end Lines

section Bytes

/-- The character that stands for a byte. -/
def fileChar (b : UInt8) : Char := Char.ofNat b.toNat

/-- `parse_marker`. -/
def parseMarkerFile (bytes : List UInt8) : Except Failure MarkerState := do
  failIf (bytes.length > adminArtifactMaxBytes) (.invalidData "administrative marker is oversized")
  let _ ← required (ofBytes bytes) (Failure.invalidData "administrative marker is not ASCII")
  parseLines (lines (bytes.map fileChar))

/-- `marker_bytes`. -/
def markerFile (state : MarkerState) : Except Failure (List UInt8) :=
  (fun text => asBytes (String.ofList text)) <$> markerBytes state

def Ascii (text : Text) : Prop := ∀ c ∈ text, c.toNat < 128

theorem fileChar_toNat (b : UInt8) : (fileChar b).toNat = b.toNat := toNat_ofNat b.toNat_lt

theorem fileChar_injective : Function.Injective fileChar := by
  intro a b h
  have hnat := congrArg Char.toNat h
  rw [fileChar_toNat, fileChar_toNat] at hnat
  exact UInt8.toNat_inj.mp hnat

/-- The bytes of an ASCII text stand for its characters. -/
theorem map_fileChar_asBytes {text : Text} (h : Ascii text) :
    (asBytes (String.ofList text)).map fileChar = text := by
  rw [asBytes_ascii h, List.map_map]
  refine List.map_congr_left (fun c hc => ?_) |>.trans (List.map_id text)
  have hlt := h c hc
  simp only [Function.comp_apply, fileChar, UInt8.toNat_ofNat', id_eq]
  rw [Nat.mod_eq_of_lt (hlt.trans (by decide)), Char.ofNat_toNat]

theorem unlines_ascii {ls : List Text} (h : ∀ l ∈ ls, Graphic l) : Ascii (unlines ls) := by
  induction ls with
  | nil =>
    intro c hc
    cases hc
  | cons l ls ih =>
    intro c hc
    rcases List.mem_append.mp hc with hc | hc
    · have hgraphic := List.all_eq_true.mp (h l List.mem_cons_self) c hc
      simp only [graphic, Bool.and_eq_true, decide_eq_true_eq] at hgraphic
      omega
    · rcases List.mem_cons.mp hc with rfl | hc
      · decide
      · exact ih (fun m hm => h m (List.mem_cons_of_mem _ hm)) c hc

theorem markerBytes_ascii {state : MarkerState} {text : Text} (h : markerBytes state = .ok text) :
    Ascii text := by
  obtain ⟨ls, hls, rfl⟩ := map_eq_ok.mp h
  exact unlines_ascii (markerLines_graphic hls).2

theorem parseMarkerFile_eq_ok {bytes : List UInt8} {state : MarkerState} :
    parseMarkerFile bytes = .ok state ↔
    bytes.length ≤ adminArtifactMaxBytes ∧ (ofBytes bytes).isSome = true ∧
      parseLines (lines (bytes.map fileChar)) = .ok state := by
  simp only [parseMarkerFile, bind_eq_ok, failIf_eq_ok, required_eq_ok, Option.isSome_iff_exists,
    not_lt, gt_iff_lt]
  constructor
  · rintro ⟨_, hlength, text, htext, h⟩
    exact ⟨hlength, ⟨text, htext⟩, h⟩
  · rintro ⟨hlength, ⟨text, htext⟩, h⟩
    exact ⟨(), hlength, text, htext, h⟩

/-- A file that is accepted is what its state is written as. -/
theorem markerFile_of_parse {bytes : List UInt8} {state : MarkerState}
    (h : parseMarkerFile bytes = .ok state) :
    markerFile state = .ok bytes := by
  obtain ⟨-, -, hlines⟩ := parseMarkerFile_eq_ok.mp h
  obtain ⟨-, hls⟩ := parseLines_eq_ok.mp hlines
  have htext : markerBytes state = .ok (bytes.map fileChar) :=
    map_eq_ok.mpr ⟨_, hls, unlines_lines (markerLines_graphic hls).1⟩
  refine map_eq_ok.mpr ⟨_, htext, ?_⟩
  exact fileChar_injective.list_map (map_fileChar_asBytes (markerBytes_ascii htext))

/-- A state that can be recorded is written, in a file that is small enough, and read back. -/
theorem parse_markerFile {state : MarkerState} (hvalid : state.Valid)
    (hname : ∀ name ∈ state.pendingName, PendingName name) :
    ∃ bytes, markerFile state = .ok bytes ∧ bytes.length ≤ adminArtifactMaxBytes ∧
      parseMarkerFile bytes = .ok state := by
  obtain ⟨ls, hls⟩ : ∃ ls, markerLines state = .ok ls := by
    cases state with
    | empty => exact ⟨_, rfl⟩
    | pending ownerLock identity name =>
      exact ⟨_, bind_eq_ok.mpr ⟨_, markerName_of_pendingName (hname name rfl), rfl⟩⟩
    | published ownerLock identity pendingName =>
      cases pendingName with
      | none => exact ⟨_, rfl⟩
      | some name => exact ⟨_, bind_eq_ok.mpr ⟨_, markerName_of_pendingName (hname name rfl), rfl⟩⟩
  have htext : markerBytes state = .ok (unlines ls) := map_eq_ok.mpr ⟨ls, hls, rfl⟩
  have hmap := map_fileChar_asBytes (markerBytes_ascii htext)
  have hlength : (asBytes (String.ofList (unlines ls))).length ≤ adminArtifactMaxBytes := by
    rw [← List.length_map fileChar, hmap]
    exact length_markerBytes hvalid htext
  refine ⟨_, map_eq_ok.mpr ⟨_, htext, rfl⟩, hlength, parseMarkerFile_eq_ok.mpr ⟨hlength, ?_, ?_⟩⟩
  · rw [ofBytes_asBytes]
    rfl
  · obtain ⟨hne, hline⟩ := markerLines_line hls
    rw [hmap, lines_unlines hne hline]
    exact parseLines_markerLines hvalid hls

/-- Every state that can be recorded is written in at most 4096 bytes that read back as it, and
every file that is accepted is the one that its state is written as, so no two files are accepted as
one state. -/
theorem marker_codec :
    (∀ state : MarkerState, state.Valid → (∀ name ∈ state.pendingName, PendingName name) →
      ∃ bytes, markerFile state = .ok bytes ∧ bytes.length ≤ adminArtifactMaxBytes ∧
        parseMarkerFile bytes = .ok state) ∧
    (∀ bytes state, parseMarkerFile bytes = .ok state → markerFile state = .ok bytes) ∧
    ∀ bytes bytes' state, parseMarkerFile bytes = .ok state → parseMarkerFile bytes' = .ok state →
      bytes = bytes' := by
  refine ⟨fun state hvalid hname => parse_markerFile hvalid hname, fun bytes state h =>
    markerFile_of_parse h,
    fun bytes bytes' state h h' => ?_⟩
  have hsame := (markerFile_of_parse h).symm.trans (markerFile_of_parse h')
  exact Except.ok.inj hsame

/-- A published socket whose pending path was not yet removed. -/
def sampleMarker : MarkerState :=
  .published ⟨2 ^ 64 - 1, 0⟩ ⟨66306, 2 ^ 64 - 1⟩ (some "agent_Journal-0".toList)

theorem marker_codec_sample : ∃ bytes, markerFile sampleMarker = .ok bytes ∧ bytes.length ≤ 4096 ∧
    parseMarkerFile bytes = .ok sampleMarker ∧ markerFile sampleMarker = .ok bytes := by
  obtain ⟨hwritten, hread, -⟩ := marker_codec
  obtain ⟨bytes, hbytes, hlength, hparse⟩ := hwritten sampleMarker
    (by rintro lock id ⟨⟩; exact ⟨⟨by decide, by decide⟩, by decide, by decide⟩)
    (by rintro name ⟨⟩; exact ⟨by decide, by decide, List.all_iff_forall_prop.mp (by decide)⟩)
  exact ⟨bytes, hbytes, hlength, hparse, hread bytes sampleMarker hparse⟩

end Bytes

end AgentJournal.Daemon
