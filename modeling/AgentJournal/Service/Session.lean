import AgentJournal.Foundation.Program
import AgentJournal.Storage.Verify

/-! # A service call and its transaction

A call reads the clock and the random source of its host and runs statements in one
transaction. Its session holds the database of the open transaction with the number of rows
changed so far, and counts the readings taken from the host.
-/

namespace AgentJournal.Service
open Domain Foundation Storage

inductive BootstrapError where
  | idempotencyConflict
  | invalidJournal
  | corruptJournal
  | invalid (error : WireValidationError)
  | unauthorized
  | notFound
  | conflict
  | sqlite (error : SqlError)
  | random
  | clock
  | injected
deriving DecidableEq, Repr

/-- Only uniqueness and name-reservation failures mean that a request collided with existing
state. -/
def isStateCollision : SqlError → Bool
  | .constraint .unique | .constraint .primaryKey => true
  | .trigger message =>
    message = "principal name shadows a principal id" ||
      message = "principal id shadows a reserved name"
  | _ => false

def BootstrapError.ofSql (e : SqlError) : BootstrapError :=
  if isStateCollision e then .conflict else .sqlite e

/-- What a service instance takes from its surroundings during one call. -/
structure Host where
  /-- Nanoseconds since the Unix epoch at each reading of the clock. -/
  clock : ℕ → ℤ
  /-- Each filling of 32 random bytes, or its failure. -/
  random : ℕ → Option (Vector UInt8 32)
  principalSequence : UInt64
  failpoint : Option String

structure Session where
  host : Host
  readings : ℕ
  fills : ℕ
  principalIds : ℕ
  changes : ℕ
  central : Central

def Session.start (host : Host) (c : Central) : Session := ⟨host, 0, 0, 0, 0, c⟩

/-- A closure over an open transaction. -/
abbrev Tx (α : Type) := StateT Session (Except BootstrapError) α

variable {α : Type}

/-- `?` on a result that does not touch the database. -/
def attempt (x : Except BootstrapError α) : Tx α := fun s => x.map fun a => (a, s)

def refuse (condition : Prop) [Decidable condition] (error : BootstrapError) : Tx Unit :=
  attempt (failIf condition error)

/-- `ok_or(error)?`. -/
def okOr (x : Option α) (error : BootstrapError) : Tx α :=
  attempt (required x error)

def validated : Except WireValidationError Unit → Tx Unit
  | .ok () => attempt (.ok ())
  | .error e => attempt (.error (.invalid e))

def query (f : Central → α) : Tx α := fun s => .ok (f s.central, s)

/-- `query_row` of a row that must exist. -/
def queryRow (f : Central → Option α) : Tx α := do
  let row ← query f
  okOr row (.sqlite .queryReturnedNoRows)

/-- An `i64` column read from an integer expression; one that overflows is a real. -/
def integerColumn (value : ℤ) : Tx ℤ := do
  refuse (2 ^ 63 ≤ value) (.sqlite .invalidColumnType)
  return value

/-- Run one statement. `rows` is the number of rows it inserts or matches. -/
def execute (rows : Central → ℕ) (statement : Central → Sql Central) : Tx ℕ := fun s =>
  match statement s.central with
  | .ok c => .ok (rows s.central, { s with central := c, changes := s.changes + rows s.central })
  | .error e => .error (.ofSql e)

/-- Run a statement that writes one row. -/
def insert (statement : Central → Sql Central) : Tx ℕ := execute (fun _ => 1) statement

def checkpoint (boundary : String) : Tx Unit := fun s =>
  if s.host.failpoint = some boundary then .error .injected else .ok ((), s)

/-- `self.clock.now()`. -/
def instant : Tx ℤ := fun s => .ok (s.host.clock s.readings, { s with readings := s.readings + 1 })

/-- `self.random.fill(..)`. -/
def fill : Tx (Vector UInt8 32) := fun s =>
  match s.host.random s.fills with
  | some bytes => .ok (bytes, { s with fills := s.fills + 1 })
  | none => .error .random

section Sources
variable (P : Platform)

def timestamp (time : ℤ) : Except BootstrapError String := do
  failIf (time < 0) .clock
  let seconds := time / 10 ^ 9
  failIf (2 ^ 63 ≤ seconds) .clock
  match P.timestampText seconds with
  | some text => .ok text
  | none => .error .clock

def now : Tx String := do
  let time ← instant
  attempt (timestamp P time)

end Sources

def secret : Tx String := do
  let bytes ← fill
  return hex bytes.toList

/-- `duration_since(UNIX_EPOCH)` in milliseconds, below 2^48. -/
def millis (time : ℤ) : Except BootstrapError ℕ := do
  failIf (time < 0) .clock
  let ms := time / 10 ^ 6
  failIf (2 ^ 48 ≤ ms) .clock
  return ms.toNat

/-- Sixteen bytes: 48 bits of milliseconds, then random bytes whose second half is mixed with
the sequence, with the version and variant bits of a UUIDv7. -/
def uuidBytes (ms : ℕ) (random : Vector UInt8 32) (sequence : ℕ) : List UInt8 :=
  let stamped := (toBeBytes ms).drop 2 ++ (random.toList.take 16).drop 6
  let mixed := stamped.take 8 ++ List.zipWith (· ^^^ ·) (stamped.drop 8) (toBeBytes sequence)
  (mixed.modify 6 fun b => (b &&& 0x0f) ||| 0x70).modify 8 fun b => (b &&& 0x3f) ||| 0x80

def uuidText (bytes : List UInt8) : String :=
  let h := hexChars bytes
  String.ofList (h.take 8 ++ '-' :: ((h.drop 8).take 4 ++ '-' :: ((h.drop 12).take 4 ++
    '-' :: ((h.drop 16).take 4 ++ '-' :: h.drop 20))))

/-- `principal_sequence.fetch_add(1)`. -/
def nextPrincipal : Tx ℕ := fun s =>
  .ok ((s.host.principalSequence + UInt64.ofNat s.principalIds).toNat,
    { s with principalIds := s.principalIds + 1 })

def principalId : Tx String := do
  let time ← instant
  let ms ← attempt (millis time)
  let random ← fill
  let sequence ← nextPrincipal
  return uuidText (uuidBytes ms random sequence)

/-- As `principalId`, from a given instant and with nothing mixed in. -/
def recordId (time : ℤ) : Tx String := do
  let ms ← attempt (millis time)
  let random ← fill
  return uuidText (uuidBytes ms random 0)

section Ids

theorem uuidText_toList (bytes : List UInt8) : (uuidText bytes).toList =
    (hexChars bytes).take 8 ++ '-' :: (((hexChars bytes).drop 8).take 4 ++ '-' ::
      (((hexChars bytes).drop 12).take 4 ++ '-' :: (((hexChars bytes).drop 16).take 4 ++ '-' ::
        (hexChars bytes).drop 20))) := String.toList_ofList

theorem nul_notMem_uuidText (bytes : List UInt8) : '\x00' ∉ (uuidText bytes).toList := by
  intro hmem
  have hnul := nul_notMem_hexChars bytes
  rw [uuidText_toList] at hmem
  simp only [List.mem_append, List.mem_cons] at hmem
  rcases hmem with h | h | h | h | h | h | h | h | h
  · exact hnul (List.mem_of_mem_take h)
  · cases h
  · exact hnul (List.mem_of_mem_drop (List.mem_of_mem_take h))
  · cases h
  · exact hnul (List.mem_of_mem_drop (List.mem_of_mem_take h))
  · cases h
  · exact hnul (List.mem_of_mem_drop (List.mem_of_mem_take h))
  · cases h
  · exact hnul (List.mem_of_mem_drop h)

/-- Sixteen bytes with the version and variant bits make an id that the schema accepts. -/
theorem principalIdCheck_uuidText {bytes : List UInt8} (hlength : bytes.length = 16)
    (hversion : ∀ b : UInt8, b ∈ bytes[6]? → b.toNat / 16 = 7)
    (hvariant : ∀ b : UInt8, b ∈ bytes[8]? → b.toNat / 16 ∈ [8, 9, 10, 11]) :
    principalIdCheck (uuidText bytes) = true := by
  have hhex := hexChars_length bytes
  rw [hlength] at hhex
  obtain ⟨b₆, hb₆⟩ : ∃ b, bytes[6]? = some b := ⟨bytes[6], List.getElem?_eq_getElem (by omega)⟩
  obtain ⟨b₈, hb₈⟩ : ∃ b, bytes[8]? = some b := ⟨bytes[8], List.getElem?_eq_getElem (by omega)⟩
  have h₁₂ : (hexChars bytes)[12]? = some (hexDigit (b₆.toNat / 16)) := by
    rw [show 12 = 2 * 6 by rfl, hexChars_high, hb₆]
    rfl
  have h₁₆ : (hexChars bytes)[16]? = some (hexDigit (b₈.toNat / 16)) := by
    rw [show 16 = 2 * 8 by rfl, hexChars_high, hb₈]
    rfl
  have h₁₄ : (uuidText bytes).toList[14]? = (hexChars bytes)[12]? := by
    rw [uuidText_toList]
    simp [hhex]
  have h₁₉ : (uuidText bytes).toList[19]? = (hexChars bytes)[16]? := by
    rw [uuidText_toList]
    simp [hhex]
  have h₃₆ : (uuidText bytes).toList.length = 36 := by
    rw [uuidText_toList]
    simp [hhex]
  simp only [principalIdCheck, sqlChars_of_notMem (nul_notMem_uuidText bytes), h₁₄, h₁₉, h₃₆, h₁₂,
    h₁₆, hversion b₆ hb₆]
  have hbits := hvariant b₈ hb₈
  simp only [List.mem_cons, List.not_mem_nil, or_false] at hbits
  rcases hbits with h | h | h | h <;> rw [h] <;> decide

theorem version_bits (b : UInt8) : ((b &&& 0x0f) ||| 0x70).toNat / 16 = 7 := by
  have hall : ∀ i : Fin 256, (((UInt8.ofNat i) &&& 0x0f) ||| 0x70).toNat / 16 = 7 := by
    decide +kernel
  simpa using hall ⟨b.toNat, b.toNat_lt⟩

theorem variant_bits (b : UInt8) : ((b &&& 0x3f) ||| 0x80).toNat / 16 ∈ [8, 9, 10, 11] := by
  have hall : ∀ i : Fin 256, (((UInt8.ofNat i) &&& 0x3f) ||| 0x80).toNat / 16 ∈ [8, 9, 10, 11] := by
    decide +kernel
  simpa using hall ⟨b.toNat, b.toNat_lt⟩

variable {ms sequence : ℕ} {random : Vector UInt8 32}

theorem length_uuidBytes : (uuidBytes ms random sequence).length = 16 := by
  simp [uuidBytes]

theorem version_uuidBytes : ∀ b ∈ (uuidBytes ms random sequence)[6]?, b.toNat / 16 = 7 := by
  intro b hb
  simp only [uuidBytes, List.getElem?_modify] at hb
  simp at hb
  obtain ⟨_, -, rfl⟩ := hb
  exact version_bits _

theorem variant_uuidBytes :
    ∀ b ∈ (uuidBytes ms random sequence)[8]?, b.toNat / 16 ∈ [8, 9, 10, 11] := by
  intro b hb
  simp only [uuidBytes, List.getElem?_modify] at hb
  simp at hb
  obtain ⟨_, -, rfl⟩ := hb
  exact variant_bits _

theorem principalIdCheck_uuidBytes (ms : ℕ) (random : Vector UInt8 32) (sequence : ℕ) :
    principalIdCheck (uuidText (uuidBytes ms random sequence)) = true :=
  principalIdCheck_uuidText length_uuidBytes version_uuidBytes variant_uuidBytes

end Ids

section Keeps
variable {I : Session → Prop}

/-- The invariant looks at the database and the count of changed rows only. -/
def OfStore (I : Session → Prop) : Prop :=
  ∀ s t, t.central = s.central → t.changes = s.changes → I s → I t

theorem attempt_eq_ok {x : Except BootstrapError α} {s t : Session} {a : α} :
    (attempt x).run s = .ok (a, t) ↔ x = .ok a ∧ s = t := by
  cases x with
  | error e => simp [attempt, StateT.run, Except.map]
  | ok b => simp [attempt, StateT.run, Except.map]

theorem attempt_keeps (x : Except BootstrapError α) : Keeps I (attempt x) :=
  .of_reads fun _ _ _ h => (attempt_eq_ok.mp h).2.symm

theorem refuse_keeps {condition : Prop} [Decidable condition] {error : BootstrapError} :
    Keeps I (refuse condition error) := attempt_keeps _

theorem refuse_error {condition : Prop} [Decidable condition] {error : BootstrapError} {s : Session}
    (h : condition) : (refuse condition error).run s = .error error := by
  rw [refuse, failIf_pos h]
  rfl

theorem refuse_pass {condition : Prop} [Decidable condition] {error : BootstrapError} {s : Session}
    (h : ¬condition) : (refuse condition error).run s = .ok ((), s) :=
  attempt_eq_ok.mpr ⟨failIf_eq_ok.mpr h, rfl⟩

theorem refuse_eq_ok {condition : Prop} [Decidable condition] {error : BootstrapError}
    {s t : Session} {u : Unit} :
    (refuse condition error).run s = .ok (u, t) ↔ ¬condition ∧ s = t := by
  rw [refuse, attempt_eq_ok, failIf_eq_ok]

theorem okOr_eq_ok {x : Option α} {error : BootstrapError} {s t : Session} {a : α} :
    (okOr x error).run s = .ok (a, t) ↔ x = some a ∧ s = t := by
  rw [okOr, attempt_eq_ok, required_eq_ok]

theorem okOr_keeps {x : Option α} {error : BootstrapError} : Keeps I (okOr x error) :=
  attempt_keeps _

theorem validated_keeps {x : Except WireValidationError Unit} : Keeps I (validated x) := by
  cases x <;> exact attempt_keeps _

theorem validated_eq_ok {x : Except WireValidationError Unit} {s t : Session} {u : Unit} :
    (validated x).run s = .ok (u, t) ↔ x = .ok () ∧ s = t := by
  cases x with
  | ok a => simp [validated, attempt_eq_ok]
  | error e => simp [validated, attempt_eq_ok]

theorem query_eq_ok {f : Central → α} {s t : Session} {a : α} :
    (query f).run s = .ok (a, t) ↔ f s.central = a ∧ s = t := by
  simp [query, StateT.run]

theorem query_keeps (f : Central → α) : Keeps I (query f) :=
  .of_reads fun _ _ _ h => (query_eq_ok.mp h).2.symm

theorem queryRow_eq_ok {f : Central → Option α} {s t : Session} {a : α} :
    (queryRow f).run s = .ok (a, t) ↔ f s.central = some a ∧ s = t := by
  simp only [queryRow, run_bind_eq_ok, query_eq_ok, okOr_eq_ok]
  constructor
  · rintro ⟨_, _, ⟨rfl, rfl⟩, ha, rfl⟩
    exact ⟨ha, rfl⟩
  · rintro ⟨ha, rfl⟩
    exact ⟨_, s, ⟨rfl, rfl⟩, ha, rfl⟩

theorem integerColumn_eq_ok {value n : ℤ} {s t : Session} :
    (integerColumn value).run s = .ok (n, t) ↔ value < 2 ^ 63 ∧ value = n ∧ s = t := by
  simp only [integerColumn, run_bind_eq_ok, refuse_eq_ok, run_pure_eq_ok, not_le]
  constructor
  · rintro ⟨_, _, ⟨hlt, rfl⟩, rfl, rfl⟩
    exact ⟨hlt, rfl, rfl⟩
  · rintro ⟨hlt, rfl, rfl⟩
    exact ⟨(), s, ⟨hlt, rfl⟩, rfl, rfl⟩

theorem queryRow_keeps (f : Central → Option α) : Keeps I (queryRow f) :=
  (query_keeps f).bind fun _ => okOr_keeps

theorem integerColumn_keeps (value : ℤ) : Keeps I (integerColumn value) :=
  refuse_keeps.bind fun _ => .pure _

theorem integerColumn_lt {value seq : ℤ} {s t : Session}
    (h : (integerColumn value).run s = .ok (seq, t)) : seq < 2 ^ 63 := by
  simp only [integerColumn, refuse, run_bind_eq_ok, attempt_eq_ok, failIf_eq_ok,
    run_pure_eq_ok] at h
  obtain ⟨_, _, ⟨hbound, -⟩, rfl, -⟩ := h
  omega

theorem checkpoint_eq_ok {boundary : String} {s t : Session} {u : Unit} :
    (checkpoint boundary).run s = .ok (u, t) ↔ s.host.failpoint ≠ some boundary ∧ s = t := by
  by_cases h : s.host.failpoint = some boundary <;> simp [checkpoint, StateT.run, h]

theorem checkpoint_keeps (boundary : String) : Keeps I (checkpoint boundary) :=
  .of_reads fun _ _ _ h => (checkpoint_eq_ok.mp h).2.symm

theorem execute_eq_ok {rows : Central → ℕ} {statement : Central → Sql Central} {s t : Session}
    {n : ℕ} : (execute rows statement).run s = .ok (n, t) ↔
      ∃ c, statement s.central = .ok c ∧ n = rows s.central ∧
        t = { s with central := c, changes := s.changes + rows s.central } := by
  unfold execute StateT.run
  cases h : statement s.central <;> simp [h, eq_comm]

theorem insert_ok {statement : Central → Sql Central} {s : Session} {c : Central}
    (h : statement s.central = .ok c) :
    (insert statement).run s = .ok (1, { s with central := c, changes := s.changes + 1 }) :=
  execute_eq_ok.mpr ⟨c, h, rfl, rfl⟩

theorem insert_error {statement : Central → Sql Central} {s : Session} {e : SqlError}
    (h : statement s.central = .error e) : (insert statement).run s = .error (.ofSql e) := by
  simp [insert, execute, StateT.run, h]

theorem instant_eq_ok {s t : Session} {time : ℤ} : instant.run s = .ok (time, t) ↔
    time = s.host.clock s.readings ∧ t = { s with readings := s.readings + 1 } := by
  simp [instant, StateT.run, eq_comm]

theorem fill_eq_ok {s t : Session} {bytes : Vector UInt8 32} : fill.run s = .ok (bytes, t) ↔
    s.host.random s.fills = some bytes ∧ t = { s with fills := s.fills + 1 } := by
  unfold fill StateT.run
  cases h : s.host.random s.fills <;> simp [h, eq_comm]

theorem uuidText_ne_empty (bytes : List UInt8) : uuidText bytes ≠ "" := by
  intro hempty
  have hlength := congrArg (fun s : String => s.toList.length) hempty
  simp only [uuidText, String.toList_ofList, List.length_append, List.length_cons] at hlength
  have hnone : "".toList.length = 0 := rfl
  omega

theorem recordId_ne_empty {time : ℤ} {id : String} {s t : Session}
    (h : (recordId time).run s = .ok (id, t)) : id ≠ "" := by
  simp only [recordId, run_bind_eq_ok, run_pure_eq_ok] at h
  obtain ⟨_, _, -, _, _, -, rfl, -⟩ := h
  exact uuidText_ne_empty _

variable (hI : OfStore I)
include hI

theorem instant_keeps : Keeps I instant := by
  intro s a t hs hrun
  obtain ⟨-, rfl⟩ := instant_eq_ok.mp hrun
  exact hI s _ rfl rfl hs

theorem fill_keeps : Keeps I fill := by
  intro s a t hs hrun
  obtain ⟨-, rfl⟩ := fill_eq_ok.mp hrun
  exact hI s _ rfl rfl hs

theorem now_keeps (P : Platform) : Keeps I (now P) :=
  (instant_keeps hI).bind fun _ => attempt_keeps _

theorem secret_keeps : Keeps I secret := (fill_keeps hI).bind fun _ => .pure _

theorem nextPrincipal_keeps : Keeps I nextPrincipal := by
  intro s a t hs hrun
  simp only [nextPrincipal, StateT.run, Except.ok.injEq, Prod.mk.injEq] at hrun
  obtain ⟨-, rfl⟩ := hrun
  exact hI s _ rfl rfl hs

theorem principalId_keeps : Keeps I principalId :=
  (instant_keeps hI).bind fun _ => (attempt_keeps _).bind fun _ => (fill_keeps hI).bind fun _ =>
    (nextPrincipal_keeps hI).bind fun _ => .pure _

theorem recordId_keeps (time : ℤ) : Keeps I (recordId time) :=
  (attempt_keeps _).bind fun _ => (fill_keeps hI).bind fun _ => .pure _

end Keeps
end AgentJournal.Service
