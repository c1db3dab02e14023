import AgentJournal.Foundation.Result
import Mathlib.Data.List.Nodup
import Mathlib.Data.List.Pairwise
import Mathlib.Data.List.Perm.Basic
import Mathlib.Data.List.Sort
import Mathlib.Order.Basic

/-! # Relational tables

A table is the list of its rows in insertion order. Its schema names the primary key,
the UNIQUE constraints (partial ones exempt the rows they map to `none`) and the CHECK
constraint. The statements reject a row that would break one of them, so every table
built by them stays valid.
-/

namespace AgentJournal.Foundation

inductive Violation where
  | check
  | primaryKey
  | unique
deriving DecidableEq, Repr

structure Schema (α κ : Type*) where
  key : α → κ
  uniques : List (α → Option κ)
  check : α → Bool

namespace Schema
variable {α κ : Type*} [DecidableEq κ] (T : Schema α κ)

/-- Two rows collide in a UNIQUE constraint when both are indexed under one value. -/
def collides (a b : α) : Bool := T.uniques.any fun u => (u a).isSome && decide (u a = u b)

/-- INSERT: CHECK first, then the primary key, then the other uniqueness constraints. -/
def insert (row : α) (rows : List α) : Except Violation (List α) :=
  if !T.check row then .error .check
  else if rows.any fun r => decide (T.key r = T.key row) then .error .primaryKey
  else if rows.any fun r => T.collides row r then .error .unique
  else .ok (rows ++ [row])

/-- INSERT .. ON CONFLICT(primary key) DO UPDATE. -/
def upsert (merge : α → α → α) (row : α) (rows : List α) : Except Violation (List α) :=
  if !T.check row then .error .check
  else match rows.find? fun r => decide (T.key r = T.key row) with
    | none => if rows.any fun r => T.collides row r then .error .unique else .ok (rows ++ [row])
    | some old =>
      if !T.check (merge old row) then .error .check
      else if rows.any fun r => !decide (T.key r = T.key row) && T.collides (merge old row) r then
        .error .unique
      else .ok (rows.map fun r => if T.key r = T.key row then merge old row else r)

/-- UPDATE .. SET of columns that are in no key and no unique index of the rows it leaves
indexed; the only constraint it can break is the CHECK. -/
def update (p : α → Bool) (f : α → α) (rows : List α) : Except Violation (List α) :=
  if rows.any fun r => p r && !T.check (f r) then .error .check
  else .ok (rows.map fun r => if p r then f r else r)

/-- Every constraint of the schema holds of the table. -/
structure Valid (rows : List α) : Prop where
  checked : ∀ r ∈ rows, T.check r = true
  keys : rows.Pairwise fun a b => T.key a ≠ T.key b
  uniques : rows.Pairwise fun a b => T.collides a b = false

/-- The row breaks no constraint beside these rows. -/
structure Accepts (row : α) (rows : List α) : Prop where
  checked : T.check row = true
  key : ∀ r ∈ rows, T.key r ≠ T.key row
  unique : ∀ r ∈ rows, T.collides row r = false

variable {T} {row : α} {rows rows' : List α}

theorem collides_comm (a b : α) : T.collides a b = T.collides b a := by
  unfold collides
  congr 1
  funext u
  by_cases h : u a = u b
  · simp [h]
  · simp [h, Ne.symm h]

/-- A row keeps or leaves its indexes. -/
theorem collides_eq_false_of_index {a b a' b' : α}
    (ha : ∀ u ∈ T.uniques, u a' = u a ∨ u a' = none)
    (hb : ∀ u ∈ T.uniques, u b' = u b ∨ u b' = none) (h : T.collides a b = false) :
    T.collides a' b' = false := by
  simp only [collides, List.any_eq_false, Bool.and_eq_true, decide_eq_true_eq, not_and] at h ⊢
  intro u hu hsome heq
  rcases ha u hu with ha | ha
  · rcases hb u hu with hb | hb
    · exact h u hu (ha ▸ hsome) (ha ▸ hb ▸ heq)
    · simp [heq, hb] at hsome
  · simp [ha] at hsome

theorem insert_eq_ok :
    T.insert row rows = .ok rows' ↔ T.Accepts row rows ∧ rows' = rows ++ [row] := by
  unfold insert
  constructor
  · intro h
    split at h
    · cases h
    · split at h
      · cases h
      · split at h
        · cases h
        · rename_i hcheck hkey hunique
          cases h
          simp only [Bool.not_eq_true, Bool.not_eq_false', List.any_eq_true, decide_eq_true_eq,
            not_exists, not_and, Bool.not_eq_true] at hcheck hkey hunique
          exact ⟨⟨by simpa using hcheck, hkey, hunique⟩, rfl⟩
  · rintro ⟨ha, rfl⟩
    have hkey : (rows.any fun r => decide (T.key r = T.key row)) = false := by
      simpa using ha.key
    have hunique : (rows.any fun r => T.collides row r) = false := by
      simpa using ha.unique
    simp [ha.checked, hkey, hunique]

/-- Why an insert is rejected. -/
theorem insert_error {v : Violation} (h : T.insert row rows = .error v) :
    (v = .check ∧ T.check row = false) ∨ (v = .primaryKey ∧ ∃ r ∈ rows, T.key r = T.key row) ∨
      (v = .unique ∧ ∃ r ∈ rows, T.collides row r = true) := by
  unfold insert at h
  split at h
  · rename_i hcheck
    cases h
    exact .inl ⟨rfl, by simpa using hcheck⟩
  · split at h
    · rename_i hkey
      cases h
      exact .inr (.inl ⟨rfl, by simpa using hkey⟩)
    · split at h
      · rename_i hunique
        cases h
        exact .inr (.inr ⟨rfl, by simpa using hunique⟩)
      · cases h

theorem Valid.append (hv : T.Valid rows) (ha : T.Accepts row rows) : T.Valid (rows ++ [row]) where
  checked := by
    intro r hr
    rcases List.mem_append.mp hr with hr | hr
    · exact hv.checked r hr
    · rw [List.mem_singleton.mp hr]
      exact ha.checked
  keys := List.pairwise_append.mpr ⟨hv.keys, List.pairwise_singleton _ _,
    fun a ha' b hb => List.mem_singleton.mp hb ▸ ha.key a ha'⟩
  uniques := List.pairwise_append.mpr ⟨hv.uniques, List.pairwise_singleton _ _,
    fun a ha' b hb => by
      rw [List.mem_singleton.mp hb, collides_comm]
      exact ha.unique a ha'⟩

theorem Valid.nil : T.Valid [] := ⟨by simp, .nil, .nil⟩

theorem Valid.perm (hv : T.Valid rows) (hp : rows.Perm rows') : T.Valid rows' where
  checked r hr := hv.checked r (hp.mem_iff.mpr hr)
  keys := (hp.pairwise_iff Ne.symm).mp hv.keys
  uniques := (hp.pairwise_iff fun h => (collides_comm _ _).trans h).mp hv.uniques

theorem Valid.eq_of_key (hv : T.Valid rows) {a b : α} (ha : a ∈ rows) (hb : b ∈ rows)
    (hkey : T.key a = T.key b) : a = b := by
  have : Std.Symm fun a b => T.key a ≠ T.key b := ⟨fun _ _ => Ne.symm⟩
  by_contra hne
  exact hv.keys.forall ha hb hne hkey

theorem Valid.eq_of_collides (hv : T.Valid rows) {a b : α} (ha : a ∈ rows) (hb : b ∈ rows)
    (hc : T.collides a b = true) : a = b := by
  have : Std.Symm fun a b => T.collides a b = false := ⟨fun _ _ h => (collides_comm _ _).trans h⟩
  by_contra hne
  have hfalse := hv.uniques.forall ha hb hne
  simp [hc] at hfalse

omit [DecidableEq κ] in
theorem update_eq_ok {p : α → Bool} {f : α → α} : T.update p f rows = .ok rows' ↔
    (∀ r ∈ rows, p r = true → T.check (f r) = true) ∧
      rows' = rows.map fun r => if p r then f r else r := by
  unfold update
  split
  · rename_i h
    simp only [List.any_eq_true, Bool.and_eq_true, Bool.not_eq_true'] at h
    obtain ⟨r, hr, hp, hcheck⟩ := h
    constructor
    · intro hok
      cases hok
    · rintro ⟨hall, -⟩
      simp [hall r hr hp] at hcheck
  · rename_i h
    simp only [List.any_eq_true, Bool.and_eq_true, Bool.not_eq_true', not_exists, not_and,
      Bool.not_eq_false] at h
    constructor
    · intro hok
      cases hok
      exact ⟨h, rfl⟩
    · rintro ⟨-, rfl⟩
      rfl

/-- An update that keeps keys, and keeps or leaves indexes, keeps the table valid. -/
theorem Valid.update (hv : T.Valid rows) {p : α → Bool} {f : α → α}
    (hcheck : ∀ r ∈ rows, p r = true → T.check (f r) = true) (hkey : ∀ r, T.key (f r) = T.key r)
    (hindex : ∀ u ∈ T.uniques, ∀ r, u (f r) = u r ∨ u (f r) = none) :
    T.Valid (rows.map fun r => if p r then f r else r) where
  checked := by
    intro r' hr'
    obtain ⟨r, hr, rfl⟩ := List.mem_map.mp hr'
    split
    · exact hcheck r hr ‹_›
    · exact hv.checked r hr
  keys := by
    refine List.pairwise_map.mpr (hv.keys.imp fun h => ?_)
    split <;> split <;> simpa [hkey] using h
  uniques := by
    have hkept : ∀ u ∈ T.uniques, ∀ r, u (if p r then f r else r) = u r ∨
        u (if p r then f r else r) = none := by
      intro u hu r
      split
      · exact hindex u hu r
      · exact .inl rfl
    exact List.pairwise_map.mpr (hv.uniques.imp fun h =>
      collides_eq_false_of_index (fun u hu => hkept u hu _) (fun u hu => hkept u hu _) h)

/-- An upsert inserts the row or rewrites the row of its key. -/
theorem upsert_cases {merge : α → α → α} (h : T.upsert merge row rows = .ok rows') :
    (T.Accepts row rows ∧ rows' = rows ++ [row]) ∨
      ∃ old ∈ rows, T.key old = T.key row ∧ T.check (merge old row) = true ∧
        (∀ r ∈ rows, T.key r ≠ T.key row → T.collides (merge old row) r = false) ∧
        rows' = rows.map fun r => if T.key r = T.key row then merge old row else r := by
  unfold Schema.upsert at h
  split at h
  · cases h
  · rename_i hcheck
    cases hfind : rows.find? fun r => decide (T.key r = T.key row) with
    | none =>
      simp only [hfind] at h
      split at h
      · cases h
      · rename_i hunique
        cases h
        exact .inl ⟨⟨by simpa using hcheck, by simpa using hfind, by simpa using hunique⟩, rfl⟩
    | some old =>
      simp only [hfind] at h
      split at h
      · cases h
      · rename_i hmerged
        split at h
        · cases h
        · rename_i hunique
          cases h
          simp only [List.any_eq_true, Bool.and_eq_true, Bool.not_eq_true', decide_eq_false_iff_not,
            not_exists, not_and, Bool.not_eq_true] at hunique
          exact .inr ⟨old, List.mem_of_find?_eq_some hfind, by simpa using List.find?_some hfind,
            by simpa using hmerged, hunique, rfl⟩

/-- An upsert whose merge keeps the check and the indexes is rejected as an insert is, but never
for its key. -/
theorem upsert_error {merge : α → α → α} {v : Violation} (h : T.upsert merge row rows = .error v)
    (hv : T.Valid rows) (hindex : ∀ u ∈ T.uniques, ∀ old, u (merge old row) = u old) :
    (v = .check ∧ (T.check row = false ∨ ∃ old ∈ rows, T.key old = T.key row ∧
      T.check (merge old row) = false)) ∨ (v = .unique ∧ ∃ r ∈ rows, T.collides row r = true) := by
  unfold Schema.upsert at h
  split at h
  · rename_i hcheck
    cases h
    exact .inl ⟨rfl, .inl (by simpa using hcheck)⟩
  · cases hfind : rows.find? fun r => decide (T.key r = T.key row) with
    | none =>
      simp only [hfind] at h
      split at h
      · rename_i hunique
        cases h
        exact .inr ⟨rfl, by simpa using hunique⟩
      · cases h
    | some old =>
      have hold := List.mem_of_find?_eq_some hfind
      have hkey : T.key old = T.key row := by simpa using List.find?_some hfind
      simp only [hfind] at h
      split at h
      · rename_i hmerged
        cases h
        exact .inl ⟨rfl, .inr ⟨old, hold, hkey, by simpa using hmerged⟩⟩
      · split at h
        · rename_i hunique
          -- The merged row has the old row's indexes, which collide with no other row.
          simp only [List.any_eq_true, Bool.and_eq_true, Bool.not_eq_true', decide_eq_false_iff_not]
            at hunique
          obtain ⟨r, hr, hne, hcollides⟩ := hunique
          have hsame : T.collides old r = true := by
            unfold collides at hcollides ⊢
            obtain ⟨u, hu, hindexed⟩ := List.any_eq_true.mp hcollides
            rw [hindex u hu] at hindexed
            exact List.any_eq_true.mpr ⟨u, hu, hindexed⟩
          exact absurd (hv.eq_of_collides hold hr hsame ▸ hkey) hne
        · cases h

theorem mem_of_upsert {merge : α → α → α} (h : T.upsert merge row rows = .ok rows') {r : α}
    (hr : r ∈ rows') :
    r ∈ rows ∨ r = row ∨ ∃ old ∈ rows, T.key old = T.key row ∧ r = merge old row := by
  rcases upsert_cases h with ⟨-, rfl⟩ | ⟨old, hold, hkey, -, -, rfl⟩
  · rcases List.mem_append.mp hr with hr | hr
    · exact .inl hr
    · exact .inr (.inl (List.mem_singleton.mp hr))
  · obtain ⟨r₀, hr₀, rfl⟩ := List.mem_map.mp hr
    split
    · exact .inr (.inr ⟨old, hold, hkey, rfl⟩)
    · exact .inl hr₀

/-- An upsert that keeps keys keeps the table valid. -/
theorem Valid.upsert (hv : T.Valid rows) {merge : α → α → α}
    (h : T.upsert merge row rows = .ok rows')
    (hkey : ∀ old new, T.key (merge old new) = T.key old) : T.Valid rows' := by
  rcases upsert_cases h with ⟨ha, rfl⟩ | ⟨old, -, hold, hcheck, hapart, rfl⟩
  · exact hv.append ha
  · refine ⟨?_, ?_, ?_⟩
    · intro r' hr'
      obtain ⟨r, hr, rfl⟩ := List.mem_map.mp hr'
      split
      · exact hcheck
      · exact hv.checked r hr
    · refine List.pairwise_map.mpr (hv.keys.imp fun {a b} hne => ?_)
      have hsame : ∀ r, T.key (if T.key r = T.key row then merge old row else r) = T.key r := by
        intro r
        split
        · rename_i hr
          rw [hkey, hold, hr]
        · rfl
      rw [hsame, hsame]
      exact hne
    · refine List.pairwise_map.mpr ((hv.keys.and hv.uniques).imp_of_mem ?_)
      rintro a b ha hb ⟨hne, hcol⟩
      by_cases hra : T.key a = T.key row <;> by_cases hrb : T.key b = T.key row
      · exact absurd (hra.trans hrb.symm) hne
      · rw [if_pos hra, if_neg hrb]
        exact hapart b hb hrb
      · rw [if_neg hra, if_pos hrb, collides_comm]
        exact hapart a ha hra
      · rw [if_neg hra, if_neg hrb]
        exact hcol

theorem map_ite_eq_self {p : α → Bool} {f : α → α} (h : rows.countP p = 0) :
    (rows.map fun r => if p r then f r else r) = rows := by
  rw [List.countP_eq_zero] at h
  conv_rhs => rw [← List.map_id rows]
  exact List.map_congr_left fun r hr => if_neg (h r hr)

end Schema
end AgentJournal.Foundation
