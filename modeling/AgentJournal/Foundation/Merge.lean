import AgentJournal.Foundation.Table

/-! # Merging a newer listing into an older table

The rows of the newer listing are written one by one, each over the stored row of its key if
there is one. While this goes on the table is a mixture of both; when every stored key occurs
in the listing, the merge ends with exactly the listing.
-/

namespace AgentJournal.Foundation
variable {α κ : Type} [DecidableEq κ]

/-- Write a row over the row of its key. -/
def put (key : α → κ) (row : α) (rows : List α) : List α :=
  if rows.any fun r => decide (key r = key row) then
    rows.map fun r => if key r = key row then row else r
  else rows ++ [row]

/-- A table between `older` and `newer`, in which the rows of `done` are written. -/
structure Merged (key : α → κ) (newer older done rows : List α) : Prop where
  mixed : ∀ r ∈ rows, r ∈ newer ∨ (r ∈ older ∧ ∀ d ∈ done, key d ≠ key r)
  written : ∀ d ∈ done, d ∈ rows
  keys : rows.Pairwise fun a b => key a ≠ key b

namespace Merged
variable {key : α → κ} {newer older done rows : List α} {row : α}

omit [DecidableEq κ] in
theorem start (hkeys : older.Pairwise fun a b => key a ≠ key b) :
    Merged key newer older [] older := ⟨fun r hr => .inr ⟨hr, by simp⟩, by simp, hkeys⟩

omit [DecidableEq κ] in
theorem mem_or (h : Merged key newer older done rows) {r : α} (hr : r ∈ rows) :
    r ∈ newer ∨ r ∈ older := (h.mixed r hr).imp_right And.left

theorem mem_put {r : α} (hr : r ∈ put key row rows) : r = row ∨ (r ∈ rows ∧ key r ≠ key row) := by
  unfold put at hr
  split at hr
  · obtain ⟨x, hx, rfl⟩ := List.mem_map.mp hr
    split
    · exact .inl rfl
    · exact .inr ⟨hx, ‹_›⟩
  · rename_i hany
    simp only [List.any_eq_true, decide_eq_true_eq, not_exists, not_and] at hany
    rcases List.mem_append.mp hr with hr | hr
    · exact .inr ⟨hr, hany r hr⟩
    · exact .inl (List.mem_singleton.mp hr)

theorem put_mem (row : α) (rows : List α) : row ∈ put key row rows := by
  unfold put
  split
  · rename_i hany
    simp only [List.any_eq_true, decide_eq_true_eq] at hany
    obtain ⟨r, hr, hkey⟩ := hany
    exact List.mem_map.mpr ⟨r, hr, if_pos hkey⟩
  · simp

theorem mem_put_of_ne {r : α} (hr : r ∈ rows) (hkey : key r ≠ key row) : r ∈ put key row rows := by
  unfold put
  split
  · exact List.mem_map.mpr ⟨r, hr, if_neg hkey⟩
  · exact List.mem_append_left _ hr

theorem put_keys (hkeys : rows.Pairwise fun a b => key a ≠ key b) :
    (put key row rows).Pairwise fun a b => key a ≠ key b := by
  unfold put
  split
  · refine List.pairwise_map.mpr (hkeys.imp fun {a b} h => ?_)
    by_cases ha : key a = key row <;> by_cases hb : key b = key row
    · exact absurd (ha.trans hb.symm) h
    · simpa [ha, hb] using Ne.symm hb
    · simp [ha, hb]
    · simpa [ha, hb] using h
  · rename_i hany
    simp only [List.any_eq_true, decide_eq_true_eq, not_exists, not_and] at hany
    exact List.pairwise_append.mpr ⟨hkeys, List.pairwise_singleton _ _,
      fun a ha b hb => List.mem_singleton.mp hb ▸ hany a ha⟩

/-- One more row of the listing is written. -/
theorem write (h : Merged key newer older done rows) (hrow : row ∈ newer)
    (hfresh : ∀ d ∈ done, key d ≠ key row) :
    Merged key newer older (done ++ [row]) (put key row rows) where
  mixed := by
    intro r hr
    rcases mem_put hr with rfl | ⟨hr, hne⟩
    · exact .inl hrow
    · refine (h.mixed r hr).imp_right fun ⟨hold, hdone⟩ => ⟨hold, ?_⟩
      intro d hd
      rcases List.mem_append.mp hd with hd | hd
      · exact hdone d hd
      · rw [List.mem_singleton.mp hd]
        exact hne.symm
  written := by
    intro d hd
    rcases List.mem_append.mp hd with hd | hd
    · exact mem_put_of_ne (h.written d hd) (hfresh d hd)
    · rw [List.mem_singleton.mp hd]
      exact put_mem row rows
  keys := put_keys h.keys

omit [DecidableEq κ] in
/-- The merge ends with the newer listing. -/
theorem perm (h : Merged key newer older newer rows)
    (hnewer : newer.Pairwise fun a b => key a ≠ key b)
    (hcovered : ∀ r ∈ older, ∃ n ∈ newer, key n = key r) : rows.Perm newer := by
  have hrows : rows.Nodup := h.keys.imp fun {a b} hne (heq : a = b) => hne (congrArg key heq)
  have hnodup : newer.Nodup := hnewer.imp fun {a b} hne (heq : a = b) => hne (congrArg key heq)
  refine (List.perm_ext_iff_of_nodup hrows hnodup).mpr fun r => ⟨fun hr => ?_, h.written r⟩
  rcases h.mixed r hr with hr | ⟨hold, hne⟩
  · exact hr
  · obtain ⟨n, hn, hkey⟩ := hcovered r hold
    exact absurd hkey (hne n hn)

omit [DecidableEq κ] in
/-- A fold that writes the listing row by row into a part of its state leaves the listing there. -/
theorem fold {σ ε : Type} {g : List α → σ} {f : σ → α → Except ε σ}
    (hnewer : newer.Pairwise fun a b => key a ≠ key b)
    (holder : older.Pairwise fun a b => key a ≠ key b)
    (hcovered : ∀ r ∈ older, ∃ n ∈ newer, key n = key r)
    (hround : ∀ done row rows, row ∈ newer → (∀ d ∈ done, d ∈ newer) →
      (∀ d ∈ done, key d ≠ key row) → Merged key newer older done rows →
      ∃ rows', f (g rows) row = .ok (g rows') ∧
        Merged key newer older (done ++ [row]) rows') :
    ∃ rows, newer.foldlM f (g older) = .ok (g rows) ∧ rows.Perm newer := by
  obtain ⟨s, hfold, rows, rfl, hmerged⟩ := foldlM_ok_of_rounds
    (I := fun done s => ∃ rows, s = g rows ∧ Merged key newer older done rows)
    newer [] (g older) ⟨older, rfl, .start holder⟩ (by
      rintro before row after s heq ⟨rows, rfl, hmerged⟩
      rw [List.nil_append] at heq
      have hrow : row ∈ newer := heq ▸ List.mem_append_right _ List.mem_cons_self
      have hdone : ∀ d ∈ before, d ∈ newer := fun d hd => heq ▸ List.mem_append_left _ hd
      have hfresh : ∀ d ∈ before, key d ≠ key row := fun d hd =>
        (List.pairwise_append.mp (heq ▸ hnewer)).2.2 d hd row List.mem_cons_self
      obtain ⟨rows', hstep, hnext⟩ := hround before row rows hrow hdone hfresh hmerged
      exact ⟨g rows', hstep, rows', rfl, hnext⟩)
  exact ⟨rows, hfold, hmerged.perm hnewer hcovered⟩

end Merged

namespace Schema
variable {T : Schema α κ} {newer older done rows : List α} {row : α}

/-- Mixed rows of a newer and an older table break no constraint. -/
structure Compatible (T : Schema α κ) (newer older : List α) : Prop where
  valid : T.Valid newer
  keys : older.Pairwise fun a b => T.key a ≠ T.key b
  covered : ∀ r ∈ older, ∃ n ∈ newer, T.key n = T.key r
  apart : ∀ n ∈ newer, ∀ r ∈ older, T.key r ≠ T.key n → T.collides n r = false

theorem Compatible.collides_eq_false (hc : T.Compatible newer older) (hrow : row ∈ newer) {r : α}
    (hr : r ∈ newer ∨ r ∈ older) (hne : T.key r ≠ T.key row) : T.collides row r = false := by
  rcases hr with hr | hr
  · cases hcol : T.collides row r with
    | false => rfl
    | true => exact absurd (congrArg T.key (hc.valid.eq_of_collides hrow hr hcol)).symm hne
  · exact hc.apart row hrow r hr hne

/-- The upsert of an audited row over a mixed table writes exactly that row. -/
theorem upsert_eq_put (hc : T.Compatible newer older)
    (h : Merged T.key newer older done rows) (hrow : row ∈ newer) {m : α → α → α}
    (hmerge : ∀ r, r ∈ newer ∨ r ∈ older → T.key r = T.key row → m r row = row) :
    T.upsert m row rows = .ok (put T.key row rows) := by
  have hapart : ∀ r ∈ rows, T.key r ≠ T.key row → T.collides row r = false :=
    fun r hr hne => hc.collides_eq_false hrow (h.mem_or hr) hne
  unfold upsert put
  rw [if_neg (by simp [hc.valid.checked row hrow])]
  cases hfind : rows.find? fun r => decide (T.key r = T.key row) with
  | none =>
    simp only [List.find?_eq_none, decide_eq_true_eq] at hfind
    have hany : (rows.any fun r => decide (T.key r = T.key row)) = false := by simpa using hfind
    have hcollides : (rows.any fun r => T.collides row r) = false := by
      simpa using fun r hr => hapart r hr (hfind r hr)
    simp [hany, hcollides]
  | some old =>
    have hold := List.mem_of_find?_eq_some hfind
    have hkey : T.key old = T.key row := by simpa using List.find?_some hfind
    have hany : (rows.any fun r => decide (T.key r = T.key row)) = true :=
      List.any_eq_true.mpr ⟨old, hold, by simpa using hkey⟩
    have hcollides : (rows.any fun r =>
        !decide (T.key r = T.key row) && T.collides row r) = false := by
      simp only [List.any_eq_false, Bool.and_eq_true, Bool.not_eq_true', decide_eq_false_iff_not,
        not_and, Bool.not_eq_true]
      exact hapart
    simp only [hmerge old (h.mem_or hold) hkey, hc.valid.checked row hrow, hcollides, hany]
    rfl

/-- A fold whose rounds each put one row leaves the newer listing. -/
theorem Compatible.fold {σ ε : Type} {g : List α → σ} {f : σ → α → Except ε σ}
    (hc : T.Compatible newer older)
    (hround : ∀ done row rows, row ∈ newer → Merged T.key newer older done rows →
      f (g rows) row = .ok (g (put T.key row rows))) :
    ∃ rows, newer.foldlM f (g older) = .ok (g rows) ∧ rows.Perm newer :=
  Merged.fold hc.valid.keys hc.keys hc.covered fun done row rows hrow _ hfresh hmerged =>
    ⟨_, hround done row rows hrow hmerged, hmerged.write hrow hfresh⟩

/-- The rows of an older table that are all in the newer one. -/
theorem Compatible.of_subset (hv : T.Valid newer) (holder : T.Valid older)
    (h : ∀ r ∈ older, r ∈ newer) : T.Compatible newer older where
  valid := hv
  keys := holder.keys
  covered r hr := ⟨r, h r hr, rfl⟩
  apart n hn r hr hne := by
    cases hcol : T.collides n r with
    | false => rfl
    | true => exact absurd (congrArg T.key (hv.eq_of_collides hn (h r hr) hcol)).symm hne

/-- Without unique indexes only the keys matter. -/
theorem Compatible.of_keys (huniques : T.uniques = []) (hv : T.Valid newer) (holder : T.Valid older)
    (h : ∀ r ∈ older, ∃ n ∈ newer, T.key n = T.key r) : T.Compatible newer older :=
  ⟨hv, holder.keys, h, fun n _ r _ _ => by simp [collides, huniques]⟩

/-- A row that is missing is inserted; a row that is there is the same row. -/
theorem insert_or_skip (hc : T.Compatible newer older) (h : Merged T.key newer older done rows)
    (hrow : row ∈ newer) (hsame : ∀ r ∈ older, T.key r = T.key row → r = row) :
    (if rows.any fun r => decide (T.key r = T.key row) then .ok rows else T.insert row rows) =
      .ok (put T.key row rows) := by
  unfold put
  split
  · congr 1
    conv_lhs => rw [← List.map_id rows]
    refine List.map_congr_left fun r hr => ?_
    split
    · rename_i hkey
      rcases h.mem_or hr with hr | hr
      · exact hc.valid.eq_of_key hr hrow hkey
      · exact hsame r hr hkey
    · rfl
  · rename_i hany
    simp only [List.any_eq_true, decide_eq_true_eq, not_exists, not_and] at hany
    exact insert_eq_ok.mpr ⟨⟨hc.valid.checked row hrow, hany,
      fun r hr => hc.collides_eq_false hrow (h.mem_or hr) (hany r hr)⟩, rfl⟩

end Schema
end AgentJournal.Foundation
