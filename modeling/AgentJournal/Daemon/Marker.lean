import AgentJournal.Foundation.Lines
import AgentJournal.Foundation.Result
import Mathlib.Data.Bool.AllAny
import Mathlib.Tactic.IntervalCases

/-! # The marker of the administrative socket

The text that names the owner lock, the socket and the pending path, and what a reader makes of
a text whose writing stopped early.
-/

namespace AgentJournal.Daemon
open Foundation

/-- A file name or a file's text, one character for each byte. -/
abbrev Name := List Char

inductive Failure where
  | invalidData (message : String)
  | io
deriving DecidableEq, Repr

structure ArtifactIdentity where
  device : ℕ
  inode : ℕ
deriving DecidableEq, Repr

inductive MarkerState where
  | empty
  | pending (ownerLock identity : ArtifactIdentity) (pendingName : Name)
  | published (ownerLock identity : ArtifactIdentity) (pendingName : Option Name)
deriving DecidableEq, Repr

def adminArtifactMaxBytes : ℕ := 4096

def adminPendingMaxNameBytes : ℕ := 256

def adminPendingAlphabet : List Char :=
  "abcdefghijklmnopqrstuvwxyzABCDEFGHIJKLMNOPQRSTUVWXYZ0123456789_-".toList

def invalidName : Failure := .invalidData "administrative marker has an invalid pending path"

def invalidIdentity : Failure := .invalidData "administrative marker has an invalid identity"

def invalidFormat : Failure := .invalidData "administrative marker format is invalid"

def hexPair (c : Char) : Text := [Nat.digitChar (c.toNat / 16), Nat.digitChar (c.toNat % 16)]

def markerName (name : Name) : Except Failure Text := do
  failIf (name = [] ∨ name.length > adminPendingMaxNameBytes ∨
    name.all (adminPendingAlphabet.contains ·) = false) invalidName
  .ok (name.flatMap hexPair)

def hexDigit (c : Char) : Option ℕ :=
  if '0' ≤ c ∧ c ≤ '9' then some (c.toNat - '0'.toNat)
  else if 'a' ≤ c ∧ c ≤ 'f' then some (c.toNat - 'a'.toNat + 10)
  else none

def decodePairs : Text → Except Failure Name
  | high :: low :: rest => do
    let high ← required (hexDigit high) (Failure.invalidData "invalid marker hex")
    let low ← required (hexDigit low) (Failure.invalidData "invalid marker hex")
    let bytes ← decodePairs rest
    .ok (Char.ofNat (high * 16 + low) :: bytes)
  | _ => .ok []

def decodeMarkerName (encoded : Text) : Except Failure Name := do
  failIf (encoded = [] ∨ encoded.length > 512 ∨ encoded.length % 2 ≠ 0) invalidName
  let name ← decodePairs encoded
  let _ ← markerName name
  .ok name

def markerNumber (text : Text) : Except Failure ℕ := do
  failIf (text = [] ∨ text.length > 20 ∨ text.all Char.isDigit = false) invalidIdentity
  let number := Nat.ofDigitChars 10 text 0
  failIf (2 ^ 64 ≤ number) invalidIdentity
  failIf (Nat.toDigits 10 number ≠ text) invalidIdentity
  .ok number

def markerField (line : Text) (name : String) : Except Failure Text :=
  if name.toList <+: line then .ok (line.drop name.toList.length) else .error invalidFormat

def parseIdentity (devField inoField : String) (dev ino : Text) :
    Except Failure ArtifactIdentity := do
  let device ← markerNumber (← markerField dev devField)
  let inode ← markerNumber (← markerField ino inoField)
  .ok ⟨device, inode⟩

def parseLines : List Text → Except Failure MarkerState
  | [version, state] => do
    failIf ([version, state] ≠ ["version=2".toList, "state=empty".toList]) invalidFormat
    .ok .empty
  | [version, state, type, lockDev, lockIno, dev, ino, pending] => do
    failIf ([version, type] ≠ ["version=2".toList, "type=socket".toList]) invalidFormat
    failIf (state ≠ "state=pending".toList ∧ state ≠ "state=published".toList) invalidFormat
    let encoded ← markerField pending "pending="
    let ownerLock ← parseIdentity "lock-dev=" "lock-ino=" lockDev lockIno
    let identity ← parseIdentity "dev=" "ino=" dev ino
    let pendingName ← decodeMarkerName encoded
    .ok (if state = "state=pending".toList then .pending ownerLock identity pendingName
      else .published ownerLock identity (some pendingName))
  | [version, state, type, lockDev, lockIno, dev, ino] => do
    failIf ([version, state, type] ≠
      ["version=2".toList, "state=published".toList, "type=socket".toList]) invalidFormat
    let ownerLock ← parseIdentity "lock-dev=" "lock-ino=" lockDev lockIno
    let identity ← parseIdentity "dev=" "ino=" dev ino
    .ok (.published ownerLock identity none)
  | _ => .error invalidFormat

def parseMarker (text : Text) : Except Failure MarkerState := do
  failIf (text.length > adminArtifactMaxBytes) (.invalidData "administrative marker is oversized")
  parseLines (lines text)

/-- A line of `name` and a number. -/
def numberLine (name : String) (n : ℕ) : Text := name.toList ++ Nat.toDigits 10 n

def identityLines (ownerLock identity : ArtifactIdentity) : List Text :=
  [numberLine "lock-dev=" ownerLock.device, numberLine "lock-ino=" ownerLock.inode,
    numberLine "dev=" identity.device, numberLine "ino=" identity.inode]

def markerLines : MarkerState → Except Failure (List Text)
  | .empty => .ok ["version=2".toList, "state=empty".toList]
  | .pending ownerLock identity pendingName => do
    let encoded ← markerName pendingName
    .ok (["version=2".toList, "state=pending".toList, "type=socket".toList] ++
      identityLines ownerLock identity ++ ["pending=".toList ++ encoded])
  | .published ownerLock identity (some pendingName) => do
    let encoded ← markerName pendingName
    .ok (["version=2".toList, "state=published".toList, "type=socket".toList] ++
      identityLines ownerLock identity ++ ["pending=".toList ++ encoded])
  | .published ownerLock identity none =>
    .ok (["version=2".toList, "state=published".toList, "type=socket".toList] ++
      identityLines ownerLock identity)

def markerBytes (state : MarkerState) : Except Failure Text := unlines <$> markerLines state

section Names

theorem hexPair_decodes : ∀ c ∈ adminPendingAlphabet,
    hexDigit (Nat.digitChar (c.toNat / 16)) = some (c.toNat / 16) ∧
      hexDigit (Nat.digitChar (c.toNat % 16)) = some (c.toNat % 16) ∧
      Char.ofNat (c.toNat / 16 * 16 + c.toNat % 16) = c :=
  List.all_iff_forall_prop.mp (by decide)

theorem markerName_eq_ok {name : Name} {encoded : Text} : markerName name = .ok encoded ↔
    name ≠ [] ∧ name.length ≤ adminPendingMaxNameBytes ∧ (∀ c ∈ name, c ∈ adminPendingAlphabet) ∧
      encoded = name.flatMap hexPair := by
  simp only [markerName, bind_eq_ok, failIf_eq_ok, Except.ok.injEq, not_or]
  constructor
  · rintro ⟨_, ⟨hne, hlength, hall⟩, rfl⟩
    exact ⟨hne, Nat.not_lt.mp hlength, by simpa using hall, rfl⟩
  · rintro ⟨hne, hlength, hall, rfl⟩
    exact ⟨(), ⟨hne, Nat.not_lt.mpr hlength, by simpa using hall⟩, rfl⟩

theorem decodePairs_encoded {name : Name} (h : ∀ c ∈ name, c ∈ adminPendingAlphabet) :
    decodePairs (name.flatMap hexPair) = .ok name := by
  induction name with
  | nil => rfl
  | cons c name ih =>
    obtain ⟨hhigh, hlow, hc⟩ := hexPair_decodes c (h c (List.mem_cons_self ..))
    have hrest := ih fun c' h' => h c' (List.mem_cons_of_mem _ h')
    simp [hexPair, decodePairs, hhigh, hlow, hc, hrest, required]

theorem length_encoded (name : Name) : (name.flatMap hexPair).length = 2 * name.length := by
  induction name with
  | nil => rfl
  | cons c name ih => simp [ih, hexPair]; omega

theorem decodeMarkerName_encoded {name : Name} {encoded : Text}
    (h : markerName name = .ok encoded) :
    decodeMarkerName encoded = .ok name := by
  have hok := h
  obtain ⟨hne, hlength, hall, rfl⟩ := markerName_eq_ok.mp h
  have hlen := length_encoded name
  have hpos := List.length_pos_iff.mpr hne
  have hbound : name.length ≤ 256 := hlength
  have hnonempty : name.flatMap hexPair ≠ [] := by
    rw [← List.length_pos_iff]
    omega
  simp only [decodeMarkerName, bind_eq_ok, failIf_eq_ok, not_or]
  exact ⟨(), ⟨hnonempty, by omega, by omega⟩, name, decodePairs_encoded hall, _, hok, rfl⟩

end Names

section Numbers

theorem length_toDigits {n : ℕ} (h : n < 2 ^ 64) : (Nat.toDigits 10 n).length ≤ 20 :=
  (Nat.length_toDigits_le_iff (by decide) (by decide)).mpr (h.trans (by decide))

theorem markerNumber_toDigits {n : ℕ} (h : n < 2 ^ 64) :
    markerNumber (Nat.toDigits 10 n) = .ok n := by
  have hall : (Nat.toDigits 10 n).all Char.isDigit = true :=
    List.all_eq_true.mpr fun c hc => Nat.isDigit_of_mem_toDigits (by decide) (by decide) hc
  simp only [markerNumber, bind_eq_ok, failIf_eq_ok, not_or, Nat.ofDigitChars_ten_toDigits]
  exact ⟨(), ⟨Nat.toDigits_ne_nil, Nat.not_lt.mpr (length_toDigits h), by simp [hall]⟩, (),
    Nat.not_le.mpr h, (), by simp⟩

theorem markerField_numberLine (name : String) (n : ℕ) :
    markerField (numberLine name n) name = .ok (Nat.toDigits 10 n) := by
  rw [markerField, numberLine, if_pos (List.prefix_append _ _), List.drop_left]

/-- Numbers that the system can give to a file. -/
def ArtifactIdentity.Valid (i : ArtifactIdentity) : Prop := i.device < 2 ^ 64 ∧ i.inode < 2 ^ 64

theorem parseIdentity_lines {i : ArtifactIdentity} (hi : i.Valid) (devField inoField : String) :
    parseIdentity devField inoField (numberLine devField i.device) (numberLine inoField i.inode) =
      .ok i := by
  simp [parseIdentity, markerField_numberLine, markerNumber_toDigits hi.1,
    markerNumber_toDigits hi.2]

end Numbers

/-- What a marker says about a socket: the owner lock and the socket. -/
def MarkerState.recorded : MarkerState → Option (ArtifactIdentity × ArtifactIdentity)
  | .empty => none
  | .pending ownerLock identity _ | .published ownerLock identity _ => some (ownerLock, identity)

def MarkerState.pendingName : MarkerState → Option Name
  | .empty => none
  | .pending _ _ name => some name
  | .published _ _ name => name

def MarkerState.Valid (state : MarkerState) : Prop :=
  ∀ ownerLock identity, state.recorded = some (ownerLock, identity) → ownerLock.Valid ∧
    identity.Valid

section Texts

/-- A visible character of ASCII. -/
def graphic (c : Char) : Bool := 0x20 < c.toNat && c.toNat < 0x7f

def Graphic (l : Text) : Prop := l.all graphic = true

instance (l : Text) : Decidable (Graphic l) := inferInstanceAs (Decidable (l.all graphic = true))

theorem Graphic.line {l : Text} (h : Graphic l) : Line l := fun hn =>
  absurd (List.all_eq_true.mp h _ hn) (by decide)

theorem Graphic.append {l m : Text} (hl : Graphic l) (hm : Graphic m) : Graphic (l ++ m) := by
  rw [Graphic, List.all_append, Bool.and_eq_true]
  exact ⟨hl, hm⟩

theorem numberLine_graphic {name : String} (hname : Graphic name.toList) (n : ℕ) :
    Graphic (numberLine name n) := by
  apply hname.append
  refine List.all_eq_true.mpr fun c hc => ?_
  have hdigit := Nat.isDigit_of_mem_toDigits (by decide) (by decide) hc
  simp only [Char.isDigit, Bool.and_eq_true, decide_eq_true_eq, UInt32.le_iff_toNat_le] at hdigit
  have hlow : 48 ≤ c.toNat := hdigit.1
  have hhigh : c.toNat ≤ 57 := hdigit.2
  simp only [graphic, Bool.and_eq_true, decide_eq_true_eq]
  omega

theorem identityLines_graphic (ownerLock identity : ArtifactIdentity) :
    ∀ l ∈ identityLines ownerLock identity, Graphic l := by
  intro l hl
  simp only [identityLines, List.mem_cons, List.not_mem_nil, or_false] at hl
  rcases hl with rfl | rfl | rfl | rfl <;> exact numberLine_graphic (by decide) _

theorem hexPair_graphic : ∀ c ∈ adminPendingAlphabet, Graphic (hexPair c) :=
  List.all_iff_forall_prop.mp (by decide)

theorem pending_graphic {name : Name} {encoded : Text} (h : markerName name = .ok encoded) :
    Graphic ("pending=".toList ++ encoded) := by
  obtain ⟨-, -, hall, rfl⟩ := markerName_eq_ok.mp h
  apply Graphic.append
  · decide
  · refine List.all_eq_true.mpr fun d hd => ?_
    obtain ⟨c, hc, hd⟩ := List.mem_flatMap.mp hd
    exact List.all_eq_true.mp (hexPair_graphic c (hall c hc)) d hd

/-- The lines of a state with a pending name. -/
theorem namedLines_graphic {heads : List Text} {ownerLock identity : ArtifactIdentity}
    {name : Name} {encoded : Text} (hheads : ∀ l ∈ heads, Graphic l)
    (h : markerName name = .ok encoded) :
    ∀ l ∈ heads ++ identityLines ownerLock identity ++ ["pending=".toList ++ encoded],
      Graphic l := by
  intro l hl
  simp only [List.append_assoc, List.mem_append, List.mem_singleton] at hl
  rcases hl with hl | hl | rfl
  · exact hheads l hl
  · exact identityLines_graphic _ _ l hl
  · exact pending_graphic h

theorem markerLines_graphic {state : MarkerState} {ls : List Text}
    (h : markerLines state = .ok ls) :
    ls ≠ [] ∧ ∀ l ∈ ls, Graphic l := by
  have hhead : ∀ l ∈ ["version=2".toList, "state=empty".toList, "state=pending".toList,
      "state=published".toList, "type=socket".toList], Graphic l :=
        List.all_iff_forall_prop.mp (by decide)
  cases state with
  | empty =>
    cases h
    exact ⟨List.cons_ne_nil _ _, fun l hl => hhead l (by simp at hl ⊢; tauto)⟩
  | pending ownerLock identity name =>
    obtain ⟨encoded, hencoded, h⟩ := bind_eq_ok.mp h
    cases h
    exact ⟨List.cons_ne_nil _ _,
      namedLines_graphic (fun l hl => hhead l (by simp at hl ⊢; tauto)) hencoded⟩
  | published ownerLock identity pendingName =>
    cases pendingName with
    | none =>
      cases h
      refine ⟨List.cons_ne_nil _ _, fun l hl => ?_⟩
      rcases List.mem_append.mp hl with hl | hl
      · exact hhead l (by simp at hl ⊢; tauto)
      · exact identityLines_graphic _ _ l hl
    | some name =>
      obtain ⟨encoded, hencoded, h⟩ := bind_eq_ok.mp h
      cases h
      exact ⟨List.cons_ne_nil _ _,
        namedLines_graphic (fun l hl => hhead l (by simp at hl ⊢; tauto)) hencoded⟩

theorem markerLines_line {state : MarkerState} {ls : List Text} (h : markerLines state = .ok ls) :
    ls ≠ [] ∧ ∀ l ∈ ls, Line l :=
  ⟨(markerLines_graphic h).1, fun l hl => ((markerLines_graphic h).2 l hl).line⟩

end Texts

section RoundTrip
variable {state : MarkerState} {ls : List Text}

theorem markerField_pending (encoded : Text) :
    markerField ("pending=".toList ++ encoded) "pending=" = .ok encoded := by
  rw [markerField, if_pos (List.prefix_append _ _), List.drop_left]

/-- The lines of a state, all of them, read back as the state. -/
theorem parseLines_markerLines (hvalid : state.Valid) (h : markerLines state = .ok ls) :
    parseLines ls = .ok state := by
  cases state with
  | empty =>
    cases h
    rfl
  | pending ownerLock identity name =>
    obtain ⟨encoded, hencoded, h⟩ := bind_eq_ok.mp h
    cases h
    obtain ⟨hlock, hidentity⟩ := hvalid _ _ rfl
    simp [parseLines, identityLines, parseIdentity_lines hlock, parseIdentity_lines hidentity,
      failIf]
    exact ⟨encoded, markerField_pending encoded, decodeMarkerName_encoded hencoded⟩
  | published ownerLock identity pendingName =>
    obtain ⟨hlock, hidentity⟩ := hvalid _ _ rfl
    cases pendingName with
    | none =>
      cases h
      simp [parseLines, identityLines, parseIdentity_lines hlock, parseIdentity_lines hidentity,
        failIf]
    | some name =>
      obtain ⟨encoded, hencoded, h⟩ := bind_eq_ok.mp h
      cases h
      simp [parseLines, identityLines, parseIdentity_lines hlock, parseIdentity_lines hidentity,
        failIf]
      exact ⟨encoded, markerField_pending encoded, decodeMarkerName_encoded hencoded⟩

/-- A part of a state's text that reads as a state at all. -/
inductive MarkerState.Part : MarkerState → MarkerState → Prop
  | whole {state : MarkerState} : Part state state
  /-- The last line, with the pending path, is missing. -/
  | pendingLost {ownerLock identity : ArtifactIdentity} {name : Name} :
      Part (.published ownerLock identity (some name)) (.published ownerLock identity none)

theorem parseLines_take (hvalid : state.Valid) (h : markerLines state = .ok ls) {k : ℕ}
    {state' : MarkerState} (hparse : parseLines (ls.take k) = .ok state') : state.Part state' := by
  have hwhole := parseLines_markerLines hvalid h
  by_cases hk : ls.length ≤ k
  · rw [List.take_of_length_le hk, hwhole] at hparse
    cases hparse
    exact .whole
  · have hlt := Nat.not_le.mp hk
    cases state with
    | empty =>
      cases h
      have hk2 : k < 2 := hlt
      interval_cases k <;> simp [parseLines] at hparse
    | pending ownerLock identity name =>
      obtain ⟨encoded, hencoded, h⟩ := bind_eq_ok.mp h
      cases h
      have hk8 : k < 8 := hlt
      interval_cases k <;> simp [parseLines, identityLines, failIf] at hparse
    | published ownerLock identity pendingName =>
      obtain ⟨hlock, hidentity⟩ := hvalid _ _ rfl
      cases pendingName with
      | none =>
        cases h
        have hk7 : k < 7 := hlt
        interval_cases k <;> simp [parseLines, identityLines, failIf] at hparse
      | some name =>
        obtain ⟨encoded, hencoded, h⟩ := bind_eq_ok.mp h
        cases h
        have hk8 : k < 8 := hlt
        interval_cases k <;>
          simp [parseLines, identityLines, failIf, parseIdentity_lines hlock,
            parseIdentity_lines hidentity] at hparse
        rw [← hparse]
        exact .pendingLost

theorem parseMarker_eq_ok {text : Text} : parseMarker text = .ok state ↔
    text.length ≤ adminArtifactMaxBytes ∧ parseLines (lines text) = .ok state := by
  simp only [parseMarker, bind_eq_ok, failIf_eq_ok, not_lt, gt_iff_lt]
  constructor
  · rintro ⟨-, hlength, h⟩
    exact ⟨hlength, h⟩
  · rintro ⟨hlength, h⟩
    exact ⟨(), hlength, h⟩

/-- What a state is written as reads back as the state. -/
theorem parseMarker_markerBytes (hvalid : state.Valid) {text : Text}
    (h : markerBytes state = .ok text)
    (hlength : text.length ≤ adminArtifactMaxBytes) : parseMarker text = .ok state := by
  obtain ⟨ls, hls, rfl⟩ := map_eq_ok.mp h
  obtain ⟨hne, hlines⟩ := markerLines_line hls
  rw [parseMarker_eq_ok, lines_unlines hne hlines]
  exact ⟨hlength, parseLines_markerLines hvalid hls⟩

/-- What is left of a marker whose writing stopped is refused, or is a part of the state. -/
theorem parseMarker_part (hvalid : state.Valid) {text p : Text} (h : markerBytes state = .ok text)
    (hp : p <+: text) {state' : MarkerState} (hparse : parseMarker p = .ok state') :
    state.Part state' := by
  obtain ⟨ls, hls, rfl⟩ := map_eq_ok.mp h
  obtain ⟨-, hlines⟩ := markerLines_line hls
  obtain ⟨-, hparse⟩ := parseMarker_eq_ok.mp hparse
  rcases prefix_unlines hlines hp with hnone | ⟨k, hk, rfl⟩
  · rw [hnone] at hparse
    cases hparse
  · by_cases hnil : ls.take k = []
    · rw [hnil] at hparse
      cases hparse
    · rw [lines_unlines hnil fun l hl => hlines l (List.mem_of_mem_take hl)] at hparse
      exact parseLines_take hvalid hls hparse

theorem parseMarker_nil : parseMarker [] = .error invalidFormat := rfl

theorem MarkerState.Part.recorded {state' : MarkerState} (h : state.Part state') :
    state'.recorded = state.recorded := by
  cases h <;> rfl

theorem MarkerState.Part.pendingName {state' : MarkerState} (h : state.Part state') :
    state'.pendingName = none ∨ state'.pendingName = state.pendingName := by
  cases h
  · exact .inr rfl
  · exact .inl rfl

/-- Every marker fits into a sidecar. -/
theorem length_markerBytes (hvalid : state.Valid) {text : Text} (h : markerBytes state = .ok text) :
    text.length ≤ adminArtifactMaxBytes := by
  obtain ⟨ls, hls, rfl⟩ := map_eq_ok.mp h
  have hnumber : ∀ (name : String) (n : ℕ), n < 2 ^ 64 →
      (numberLine name n).length ≤ name.toList.length + 20 := by
    intro name n hn
    rw [numberLine, List.length_append]
    exact Nat.add_le_add_left (length_toDigits hn) _
  have hidentity : ∀ ownerLock identity : ArtifactIdentity, ownerLock.Valid → identity.Valid →
      (unlines (identityLines ownerLock identity)).length ≤ 200 := by
    intro ownerLock identity hlock hid
    have h₁ := hnumber "lock-dev=" _ hlock.1
    have h₂ := hnumber "lock-ino=" _ hlock.2
    have h₃ := hnumber "dev=" _ hid.1
    have h₄ := hnumber "ino=" _ hid.2
    have hd : "lock-dev=".toList.length = 9 ∧ "lock-ino=".toList.length = 9 ∧
        "dev=".toList.length = 4 ∧ "ino=".toList.length = 4 := by decide
    simp only [length_unlines, identityLines, List.map_cons, List.map_nil, List.sum_cons,
      List.sum_nil]
    omega
  have hpending : ∀ name encoded, markerName name = .ok encoded →
      (unlines ["pending=".toList ++ encoded]).length ≤ 600 := by
    intro name encoded hencoded
    obtain ⟨-, hname, -, rfl⟩ := markerName_eq_ok.mp hencoded
    have hbound : name.length ≤ 256 := hname
    have hlen := length_encoded name
    have hp : "pending=".toList.length = 8 := by decide
    simp only [length_unlines, List.map_cons, List.map_nil, List.sum_cons, List.sum_nil,
      List.length_append]
    omega
  have hmax : adminArtifactMaxBytes = 4096 := rfl
  cases state with
  | empty =>
    cases hls
    decide
  | pending ownerLock identity name =>
    obtain ⟨encoded, hencoded, hls⟩ := bind_eq_ok.mp hls
    cases hls
    obtain ⟨hlock, hid⟩ := hvalid _ _ rfl
    have hhead : (unlines
      ["version=2".toList, "state=pending".toList, "type=socket".toList]).length ≤ 100 := by
      decide
    have h₁ := hidentity ownerLock identity hlock hid
    have h₂ := hpending name encoded hencoded
    rw [unlines_append, unlines_append, List.length_append, List.length_append]
    omega
  | published ownerLock identity pendingName =>
    obtain ⟨hlock, hid⟩ := hvalid _ _ rfl
    have hhead : (unlines
      ["version=2".toList, "state=published".toList, "type=socket".toList]).length ≤ 100 := by
      decide
    have h₁ := hidentity ownerLock identity hlock hid
    cases pendingName with
    | none =>
      cases hls
      rw [unlines_append, List.length_append]
      omega
    | some name =>
      obtain ⟨encoded, hencoded, hls⟩ := bind_eq_ok.mp hls
      cases hls
      have h₂ := hpending name encoded hencoded
      rw [unlines_append, unlines_append, List.length_append, List.length_append]
      omega

end RoundTrip

end AgentJournal.Daemon
