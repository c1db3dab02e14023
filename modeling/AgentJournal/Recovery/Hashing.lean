import AgentJournal.Domain.Coded
import AgentJournal.Foundation.Delimited
import AgentJournal.Recovery.Audit
import Mathlib.Data.Set.List

/-! # What a verification says about the tables

Restore approval and crash recovery compare hashes of byte streams. A stream reads back as the
rows that were fed to it, so with a collision-free hash they compare the tables themselves.
-/

namespace AgentJournal.Storage
open Foundation

/-- What fits in the fields: an `i64`, an `f64` by its bits, a length in a `u64`. -/
def Value.Storable : Value → Prop
  | .null => True
  | .integer v => -2 ^ 63 ≤ v ∧ v < 2 ^ 63
  | .real bits => bits < 2 ^ 64
  | .text bytes | .blob bytes => bytes.length < 2 ^ 64

instance (v : Value) : Decidable v.Storable :=
  match v with
  | .null => inferInstanceAs (Decidable True)
  | .integer _ => inferInstanceAs (Decidable (_ ∧ _))
  | .real _ => inferInstanceAs (Decidable (_ < _))
  | .text _ => inferInstanceAs (Decidable (_ < _))
  | .blob _ => inferInstanceAs (Decidable (_ < _))

/-- A value as SQLite can store it. -/
abbrev StoredValue := { v : Value // v.Storable }

def StoredValue.stream (v : StoredValue) : List UInt8 := v.1.stream

/-- A fixed field says where it ends. -/
theorem toBeBytes_append_inj {n m : ℕ} {rest rest' : List UInt8} (hn : n < 2 ^ 64) (hm : m < 2 ^ 64)
    (h : toBeBytes n ++ rest = toBeBytes m ++ rest') : n = m ∧ rest = rest' := by
  obtain ⟨hhead, htail⟩ := List.append_inj h (by simp)
  exact ⟨toBeBytes_inj hn hm hhead, htail⟩

/-- A length in front of the bytes says where they end. -/
theorem lengthPrefixed_inj {a b rest rest' : List UInt8} (ha : a.length < 2 ^ 64)
    (hb : b.length < 2 ^ 64)
    (h : toBeBytes a.length ++ a ++ rest = toBeBytes b.length ++ b ++ rest') :
    a = b ∧ rest = rest' := by
  rw [List.append_assoc, List.append_assoc] at h
  obtain ⟨hlength, htail⟩ := toBeBytes_append_inj ha hb h
  exact List.append_inj htail hlength

/-- The tags tell the kinds apart, and every field says where it ends. -/
theorem stream_delimited : Delimited StoredValue.stream := by
  rintro ⟨a, ha⟩ ⟨b, hb⟩ rest rest' h
  cases a with
  | null =>
    cases b with
    | null => exact ⟨rfl, List.tail_eq_of_cons_eq h⟩
    | _ => exact absurd (List.head_eq_of_cons_eq h) (by decide)
  | integer v =>
    cases b with
    | integer w =>
      have hfield := toBeBytes_append_inj (by omega) (by omega) (List.tail_eq_of_cons_eq h)
      obtain ⟨hvalue, rfl⟩ := hfield
      have hbounds : -2 ^ 63 ≤ v ∧ v < 2 ^ 63 := ha
      have hbounds' : -2 ^ 63 ≤ w ∧ w < 2 ^ 63 := hb
      obtain rfl : v = w := by omega
      exact ⟨rfl, rfl⟩
    | _ => exact absurd (List.head_eq_of_cons_eq h) (by decide)
  | real bits =>
    cases b with
    | real bits' =>
      obtain ⟨rfl, rfl⟩ := toBeBytes_append_inj ha hb (List.tail_eq_of_cons_eq h)
      exact ⟨rfl, rfl⟩
    | _ => exact absurd (List.head_eq_of_cons_eq h) (by decide)
  | text bytes =>
    cases b with
    | text bytes' =>
      obtain ⟨rfl, rfl⟩ := lengthPrefixed_inj ha hb (List.tail_eq_of_cons_eq h)
      exact ⟨rfl, rfl⟩
    | _ => exact absurd (List.head_eq_of_cons_eq h) (by decide)
  | blob bytes =>
    cases b with
    | blob bytes' =>
      obtain ⟨rfl, rfl⟩ := lengthPrefixed_inj ha hb (List.tail_eq_of_cons_eq h)
      exact ⟨rfl, rfl⟩
    | _ => exact absurd (List.head_eq_of_cons_eq h) (by decide)

theorem stream_head (v : StoredValue) : ∃ b ∈ v.stream.head?, b ≠ 0xff := by
  obtain ⟨v, -⟩ := v
  cases v <;> exact ⟨_, rfl, by decide⟩

/-- What `hash_table` feeds to the hash. -/
def tableStream (rows : List (List StoredValue)) : List UInt8 :=
  (rows.map fun row => row.map Subtype.val).flatMap rowStream

theorem tableStream_eq (rows : List (List StoredValue)) :
    tableStream rows = groups StoredValue.stream 0xff rows := by
  simp [tableStream, groups, rowStream, List.flatMap_map, StoredValue.stream]

theorem tableStream_injective : Function.Injective tableStream := by
  intro rows rows' h
  rw [tableStream_eq, tableStream_eq] at h
  exact stream_delimited.groups_injective stream_head h

/-- Every value of every ordinary table. -/
def Central.Storable (c : Central) : Prop := ∀ t ∈ c.tables, ∀ row ∈ t.2, ∀ v ∈ row, v.Storable

instance (c : Central) : Decidable c.Storable := List.decidableBAll _ _

end AgentJournal.Storage

namespace AgentJournal.Recovery
open Domain Foundation Storage
variable {P : Platform}

theorem exists_stored {rows : List (List Value)} (h : ∀ row ∈ rows, ∀ v ∈ row, v.Storable) :
    ∃ stored : List (List StoredValue), stored.map (List.map Subtype.val) = rows :=
  CanLift.prf rows h

theorem hashTable_inj (hsha : Function.Injective P.sha256) {name name' : String}
    {rows rows' : List (List Value)} (hrows : ∀ row ∈ rows, ∀ v ∈ row, v.Storable)
    (hrows' : ∀ row ∈ rows', ∀ v ∈ row, v.Storable)
    (h : hashTable P name rows = hashTable P name' rows') : name = name' ∧ rows = rows' := by
  obtain ⟨stored, rfl⟩ := exists_stored hrows
  obtain ⟨stored', rfl⟩ := exists_stored hrows'
  obtain ⟨hname, -, hhash⟩ := TableVerification.mk.inj h
  have hstream : tableStream stored = tableStream stored' := hsha (hex_injective hhash)
  exact ⟨hname, by rw [tableStream_injective hstream]⟩

theorem hashTables_inj (hsha : Function.Injective P.sha256) :
    ∀ {ts ts' : List (String × List (List Value))},
      (∀ t ∈ ts, ∀ row ∈ t.2, ∀ v ∈ row, v.Storable) →
      (∀ t ∈ ts', ∀ row ∈ t.2, ∀ v ∈ row, v.Storable) →
      (ts.map fun t => hashTable P t.1 t.2) = (ts'.map fun t => hashTable P t.1 t.2) → ts = ts'
  | [], [], _, _, _ => rfl
  | [], _ :: _, _, _, h => by cases h
  | _ :: _, [], _, _, h => by cases h
  | t :: ts, t' :: ts', hts, hts', h => by
    obtain ⟨hhead, htail⟩ := List.cons.inj h
    obtain ⟨hname, hrows⟩ :=
      hashTable_inj hsha (hts t List.mem_cons_self) (hts' t' List.mem_cons_self) hhead
    rw [Prod.ext hname hrows, hashTables_inj hsha (fun u hu => hts u (List.mem_cons_of_mem _ hu))
      (fun u hu => hts' u (List.mem_cons_of_mem _ hu)) htail]

theorem tables_of_verify {c : Central} {v : RecoveryVerification} (h : verify P c = .ok v) :
    v.tables = c.tables.map fun t => hashTable P t.1 t.2 := by
  simp only [verify, refuseIf, bind_eq_ok, failIf_eq_ok, pure_eq_ok, Except.ok.injEq] at h
  obtain ⟨-, -, -, -, -, -, -, -, -, -, -, -, rfl⟩ := h
  rfl

/-- The stream of a table is that of no other rows, so equal verifications are of equal tables. -/
theorem table_verification_injective (hsha : Function.Injective P.sha256) :
    (∀ rows rows' : List (List StoredValue), tableStream rows = tableStream rows' ↔ rows = rows') ∧
    ∀ c c' v, c.Storable → c'.Storable → verify P c = .ok v → verify P c' = .ok v →
      c.tables = c'.tables := by
  refine ⟨fun rows rows' => tableStream_injective.eq_iff, fun c c' v hc hc' h h' => ?_⟩
  exact hashTables_inj hsha hc hc' ((tables_of_verify h).symm.trans (tables_of_verify h'))

/-- The digests of no rows, of the anchor and of the contract of the baseline. -/
def emptyDigest : List UInt8 :=
  [227, 176, 196, 66, 152, 252, 28, 20, 154, 251, 244, 200, 153, 111, 185, 36, 39, 174, 65, 228,
   100, 155, 147, 76, 164, 149, 153, 27, 120, 82, 184, 85]

def anchorDigest : List UInt8 :=
  [193, 138, 204, 210, 3, 19, 161, 178, 38, 255, 21, 208, 59, 42, 24, 119, 175, 130, 177, 137,
   56, 217, 139, 33, 152, 12, 210, 214, 215, 2, 240, 61]

def contractDigest : List UInt8 :=
  [223, 70, 194, 122, 171, 156, 71, 28, 123, 246, 246, 122, 175, 135, 142, 66, 237, 202, 151,
   135, 111, 25, 43, 206, 182, 73, 3, 204, 101, 216, 76, 188]

def anchorStream : List UInt8 :=
  rowStream [.integer 1, .text (asBytes "journal"), .integer 0, .integer 0, .integer 0]

def contractStream : List UInt8 :=
  rowStream [.integer 1, .integer 13, .text (asBytes "uuid-native-v1")]

/-- A platform whose hashes of these streams are those of SHA-256. -/
def hashingPlatform : Platform :=
  .coded (Equiv.swap [] emptyDigest * Equiv.swap anchorStream anchorDigest *
    Equiv.swap contractStream contractDigest) 1

example : hashingPlatform.sha256 [] = emptyDigest ∧
    hashingPlatform.sha256 anchorStream = anchorDigest ∧
    hashingPlatform.sha256 contractStream = contractDigest ∧
    (Central.baseline "journal").tables.map (fun t => t.2.flatMap rowStream) =
      List.replicate 14 [] ++ [anchorStream, [], contractStream, []] := by decide +kernel

/-- The baselines of two journals have different verifications, and only the tables of the first
have its own. -/
theorem table_verification_injective_baseline :
    (tableStream [[⟨.null, trivial⟩, ⟨.integer (-1), by decide⟩], []] ≠
      tableStream [[⟨.null, trivial⟩], [⟨.integer (-1), by decide⟩]]) ∧
    ∃ v, verify hashingPlatform (.baseline "journal") = .ok v ∧
      (∀ c, c.Storable → verify hashingPlatform c = .ok v →
        c.tables = (Central.baseline "journal").tables) ∧
      verify hashingPlatform (.baseline "other") ≠ .ok v := by
  obtain ⟨hstream, htables⟩ :=
    table_verification_injective
      (Platform.coded_sha256_injective _ _ : hashingPlatform.sha256.Injective)
  refine ⟨fun h => ?_, _, rfl, fun c hc h => htables c _ _ hc (by decide) h rfl, fun h => ?_⟩
  · have hlength := congrArg (List.map List.length) ((hstream _ _).mp h)
    simp at hlength
  · have hsame := htables (.baseline "other") (.baseline "journal") _ (by decide) (by decide) h rfl
    revert hsame
    decide +kernel

end AgentJournal.Recovery
