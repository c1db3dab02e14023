import AgentJournal.Foundation.Merge
import AgentJournal.Recovery.History

/-! # Merging the handles of a journal

The audited names are merged in name order. A current name first retires the stored current
name of its principal, which may come later in that order; since the newest content has that
name retired as well, the row written early is already the audited one.
-/

namespace AgentJournal.Recovery
open Domain Foundation Storage Schema

variable {P : Platform} {b l c : Central} {done rows : List PrincipalNameRow}
  {row : PrincipalNameRow}

abbrev NamesMerged (l b : Central) (done rows : List PrincipalNameRow) : Prop :=
  Merged Storage.principalNames.key (ordered l.principalNames) b.principalNames done rows

theorem name_eq_of_key {r r' : PrincipalNameRow}
    (h : Storage.principalNames.key r = Storage.principalNames.key r') : r.name = r'.name := by
  simpa [Storage.principalNames] using h

theorem key_of_name_eq {r r' : PrincipalNameRow} (h : r.name = r'.name) :
    Storage.principalNames.key r = Storage.principalNames.key r' := by
  simp [Storage.principalNames, h]

/-- A principal has one current name. -/
theorem eq_of_current (hv : Storage.principalNames.Valid l.principalNames)
    {r r' : PrincipalNameRow} (hr : r ∈ l.principalNames) (hr' : r' ∈ l.principalNames)
    (hprincipal : r.principalId = r'.principalId) (hkind : r.kind = .current)
    (hkind' : r'.kind = .current) : r = r' := by
  refine hv.eq_of_collides hr hr' ?_
  simp [Storage.principalNames, collides, hkind, hkind', hprincipal]

/-- The stored current name that a merged current name replaces is retired in the newest
content. -/
theorem retired_mem (hl : WellFormed P l) (h : Extends b l) (hrow : row ∈ l.principalNames)
    (hcurrent : row.kind = .current) {r : PrincipalNameRow}
    (hr : r ∈ l.principalNames ∨ r ∈ b.principalNames)
    (hprincipal : r.principalId = row.principalId)
    (hkind : r.kind = .current) (hname : r.name ≠ row.name) :
    r.retired ∈ l.principalNames ∧ r ∉ l.principalNames := by
  have hout : r ∉ l.principalNames := fun hmem =>
    hname (congrArg _ (eq_of_current hl.tables.principalNames hmem hrow hprincipal hkind hcurrent))
  refine ⟨?_, hout⟩
  obtain ⟨r', hr', hname', hprincipal', hcreated', hkind'⟩ :=
    h.principalNames r (hr.resolve_left hout)
  have haliased : r'.kind = .aliased := by
    rcases hkind' with hkind' | hkind'
    · have := eq_of_current hl.tables.principalNames hr' hrow (hprincipal'.trans hprincipal)
        (hkind'.trans hkind) hcurrent
      exact absurd (hname'.symm.trans (congrArg _ this)) hname
    · exact hkind'
  have heq : r' = r.retired := by
    cases r'
    simp_all [PrincipalNameRow.retired]
  exact heq ▸ hr'

/-- Rewriting rows to audited rows of the same name keeps the merge going. -/
theorem NamesMerged.rewrite (hm : NamesMerged l b done rows) {p : PrincipalNameRow → Bool}
    (hp : ∀ r ∈ rows, p r = true → r.retired ∈ l.principalNames)
    (hdone : ∀ d ∈ done, p d = false) :
    NamesMerged l b done (rows.map fun r => if p r then r.retired else r) where
  mixed := by
    intro r' hr'
    obtain ⟨r, hr, rfl⟩ := List.mem_map.mp hr'
    split
    · exact .inl (mem_ordered.mpr (hp r hr ‹_›))
    · exact hm.mixed r hr
  written d hd := List.mem_map.mpr ⟨d, hm.written d hd, by simp [hdone d hd]⟩
  keys := by
    refine List.pairwise_map.mpr (hm.keys.imp fun {x y} hne => ?_)
    have hsame : ∀ r : PrincipalNameRow, Storage.principalNames.key (if p r then r.retired else r) =
        Storage.principalNames.key r := by
      intro r
      split <;> rfl
    rw [hsame, hsame]
    exact hne

/-- The audited row is in the table, so it counts as written. -/
theorem NamesMerged.mark (hm : NamesMerged l b done rows) (hmem : row ∈ rows)
    (hrow : row ∈ l.principalNames) : NamesMerged l b (done ++ [row]) rows where
  mixed := by
    intro r hr
    by_cases hkey : Storage.principalNames.key row = Storage.principalNames.key r
    · have hsymm : Std.Symm fun a b : PrincipalNameRow =>
          Storage.principalNames.key a ≠ Storage.principalNames.key b := ⟨fun _ _ => Ne.symm⟩
      have heq : row = r := by
        by_contra hne
        exact hm.keys.forall hmem hr hne hkey
      exact .inl (mem_ordered.mpr (heq ▸ hrow))
    · refine (hm.mixed r hr).imp_right fun ⟨hold, hne⟩ => ⟨hold, fun d hd => ?_⟩
      rcases List.mem_append.mp hd with hd | hd
      · exact hne d hd
      · rw [List.mem_singleton.mp hd]
        exact hkey
  written := by
    intro d hd
    rcases List.mem_append.mp hd with hd | hd
    · exact hm.written d hd
    · rw [List.mem_singleton.mp hd]
      exact hmem
  keys := hm.keys

section Round
variable (hb : b.TablesValid P) (hl : WellFormed P l) (h : Extends b l)
include hb hl

theorem NamesMerged.checked (hm : NamesMerged l b done rows) :
    ∀ r ∈ rows, Storage.principalNames.check r = true := by
  intro r hr
  rcases hm.mem_or hr with hr | hr
  · exact hl.tables.principalNames.checked r (mem_ordered.mp hr)
  · exact hb.principalNames.checked r hr

include h

theorem retireStaleCurrent_round (hm : NamesMerged l b done rows) (hrow : row ∈ l.principalNames)
    (hdone : ∀ d ∈ done, d ∈ l.principalNames) :
    ∃ rows', retireStaleCurrent { c with principalNames := rows } row =
        .ok { c with principalNames := rows' } ∧ NamesMerged l b done rows' ∧
      (row.kind = .current → ∀ r ∈ rows', r.principalId = row.principalId → r.kind = .current →
        r.name = row.name) := by
  unfold retireStaleCurrent
  by_cases hcurrent : row.kind = .current
  · let p : PrincipalNameRow → Bool := fun r =>
      r.principalId = row.principalId && r.kind = .current && r.name ≠ row.name
    have hp : ∀ r, p r = true ↔
        r.principalId = row.principalId ∧ r.kind = .current ∧ r.name ≠ row.name := by
      intro r
      simp [p, and_assoc]
    have hstale : ∀ r, r ∈ l.principalNames ∨ r ∈ b.principalNames → p r = true →
        r.retired ∈ l.principalNames ∧ r ∉ l.principalNames := by
      intro r hr hpr
      obtain ⟨hprincipal, hkind, hname⟩ := (hp r).mp hpr
      exact retired_mem hl h hrow hcurrent hr hprincipal hkind hname
    refine ⟨rows.map fun r => if p r then r.retired else r, ?_, ?_, ?_⟩
    · rw [if_pos hcurrent]
      exact Central.retireNames_eq_ok.mpr ⟨fun r _ hpr => ((hp r).mp hpr).2.1,
        fun r hr _ => hm.checked hb hl r hr, rfl⟩
    · refine hm.rewrite (fun r hr hpr => (hstale r ?_ hpr).1) fun d hd => ?_
      · exact (hm.mem_or hr).imp_left mem_ordered.mp
      · cases hpd : p d with
        | false => rfl
        | true => exact absurd (hdone d hd) (hstale d (.inl (hdone d hd)) hpd).2
    · intro _ r' hr' hprincipal hkind
      obtain ⟨r, hr, rfl⟩ := List.mem_map.mp hr'
      by_cases hpr : p r = true
      · simp [hpr, PrincipalNameRow.retired] at hkind
      · rw [if_neg hpr] at hprincipal hkind ⊢
        by_contra hname
        exact hpr ((hp r).mpr ⟨hprincipal, hkind, hname⟩)
  · exact ⟨rows, if_neg hcurrent, hm, fun hkind => absurd hkind hcurrent⟩

theorem mergePrincipalName_round (hm : NamesMerged l b done rows) (hrow : row ∈ l.principalNames)
    (hfresh : ∀ d ∈ done, Storage.principalNames.key d ≠ Storage.principalNames.key row)
    (hprincipals : c.principals.Perm l.principals)
    (hcurrent : row.kind = .current → ∀ r ∈ rows, r.principalId = row.principalId →
      r.kind = .current → r.name = row.name) :
    ∃ rows', mergePrincipalName { c with principalNames := rows } row =
        .ok { c with principalNames := rows' } ∧ NamesMerged l b (done ++ [row]) rows' := by
  unfold mergePrincipalName
  cases hfind : rows.find? fun r => r.name = row.name with
  | none =>
    simp only [List.find?_eq_none, decide_eq_true_eq] at hfind
    have haccepts : Storage.principalNames.Accepts row rows := by
      refine ⟨hl.tables.principalNames.checked row hrow, fun r hr hkey =>
        hfind r hr (name_eq_of_key hkey), fun r hr => ?_⟩
      cases hcol : Storage.principalNames.collides row r with
      | false => rfl
      | true =>
        simp only [Storage.principalNames, collides, List.any_cons, List.any_nil, Bool.or_false,
          Bool.and_eq_true, decide_eq_true_eq] at hcol
        obtain ⟨hsome, heq⟩ := hcol
        by_cases hkind : row.kind = .current
        · by_cases hkind' : r.kind = .current
          · simp only [hkind, hkind', if_true, Option.some.injEq, List.cons.injEq,
              Cell.text.injEq, and_true] at heq
            exact absurd (hcurrent hkind r hr heq.symm hkind') (hfind r hr)
          · simp [hkind, hkind'] at heq
        · simp [hkind] at hsome
    have hshadow : c.hasPrincipal row.name = false :=
      hprincipals.any_eq.trans (hl.names row hrow)
    have hparent : c.hasPrincipal row.principalId = true :=
      hprincipals.any_eq.trans (hl.references.principalNames row hrow)
    have hinsert : Central.insertPrincipalName { c with principalNames := rows } row =
        .ok { c with principalNames := rows ++ [row] } :=
      Central.insertPrincipalName_eq_ok.mpr ⟨hshadow, haccepts, hparent, rfl⟩
    have hput : put Storage.principalNames.key row rows = rows ++ [row] := by
      refine if_neg ?_
      simp only [List.any_eq_true, decide_eq_true_eq, not_exists, not_and]
      exact haccepts.key
    refine ⟨rows ++ [row], by simp only [hinsert, sqlite], ?_⟩
    rw [← hput]
    exact hm.write (mem_ordered.mpr hrow) hfresh
  | some stored =>
    have hmem := List.mem_of_find?_eq_some hfind
    have hname : stored.name = row.name := by simpa using List.find?_some hfind
    have hunique : ∀ r ∈ rows, r.name = row.name → r = stored := by
      have hsymm : Std.Symm fun a b : PrincipalNameRow =>
        Storage.principalNames.key a ≠ Storage.principalNames.key b := ⟨fun _ _ => Ne.symm⟩
      intro r hr heq
      by_contra hne
      exact hm.keys.forall hr hmem hne (key_of_name_eq (heq.trans hname.symm))
    -- The stored row is the audited row, or its form before it was retired.
    have hform : stored = row ∨ (stored.kind = .current ∧ row = stored.retired) := by
      rcases hm.mem_or hmem with hstored | hstored
      · exact .inl (hl.tables.principalNames.eq_of_key (mem_ordered.mp hstored) hrow
          (key_of_name_eq hname))
      · obtain ⟨r', hr', hname', hprincipal', hcreated', hkind'⟩ := h.principalNames stored hstored
        obtain rfl := hl.tables.principalNames.eq_of_key hr' hrow
          (key_of_name_eq (hname'.trans hname))
        cases stored with
        | mk name principalId kind createdAt =>
          cases r' with
          | mk name' principalId' kind' createdAt' =>
            cases kind <;> cases kind' <;> simp_all [PrincipalNameRow.retired]
    rcases hform with rfl | ⟨hkind, rfl⟩
    · exact ⟨rows, by simp, hm.mark hmem hrow⟩
    · have hretire : Central.retireNames { c with principalNames := rows }
          (fun r => r.name = stored.retired.name) = .ok { c with
            principalNames := rows.map fun r =>
              if decide (r.name = stored.retired.name) then r.retired else r } := by
        refine Central.retireNames_eq_ok.mpr
          ⟨fun r hr hp => ?_, fun r hr _ => hm.checked hb hl r hr,
          rfl⟩
        rw [hunique r hr (by simpa using hp)]
        exact hkind
      have hnext := hm.rewrite (p := fun r => r.name = stored.retired.name)
        (fun r hr hp => hunique r hr (by simpa using hp) ▸ hrow)
        fun d hd => by simpa using fun heq => hfresh d hd (key_of_name_eq heq)
      refine ⟨_, ?_, hnext.mark ?_ hrow⟩
      · dsimp only
        rw [if_neg (by simp [hkind, PrincipalNameRow.retired]), if_pos ⟨rfl, hkind, rfl, rfl⟩,
          hretire]
        rfl
      · exact List.mem_map.mpr ⟨stored, hmem, by simp [hname]⟩

theorem restorePrincipalNames_complete (hnames : c.principalNames = b.principalNames)
    (hprincipals : c.principals.Perm l.principals) :
    ∃ rows, restorePrincipalNames c (snapshot l).principalNames =
        .ok { c with principalNames := rows } ∧ rows.Perm l.principalNames := by
  have hv := hl.tables.principalNames.perm (ordered_perm _).symm
  have hcovered : ∀ r ∈ b.principalNames, ∃ n ∈ ordered l.principalNames,
      Storage.principalNames.key n = Storage.principalNames.key r := by
    intro r hr
    obtain ⟨r', hr', hname, -⟩ := h.principalNames r hr
    exact ⟨r', mem_ordered.mpr hr', key_of_name_eq hname⟩
  obtain ⟨rows, hfold, hperm⟩ := Merged.fold (g := fun rows => { c with principalNames := rows })
    (f := restorePrincipalName) hv.keys hb.principalNames.keys hcovered (by
      intro done row rows hrow hdone hfresh hm
      have hrow' := mem_ordered.mp hrow
      have hdone' : ∀ d ∈ done, d ∈ l.principalNames := fun d hd => mem_ordered.mp (hdone d hd)
      obtain ⟨rows₁, hretire, hm₁, hcurrent⟩ :=
        retireStaleCurrent_round (c := c) hb hl h hm hrow' hdone'
      obtain ⟨rows₂, hmerge, hm₂⟩ :=
        mergePrincipalName_round hb hl h hm₁ hrow' hfresh hprincipals hcurrent
      refine ⟨rows₂, ?_, hm₂⟩
      simp only [restorePrincipalName, hretire, sqlite]
      exact hmerge)
  rw [← hnames] at hfold
  exact ⟨rows, hfold, hperm.trans (ordered_perm _)⟩

end Round
end AgentJournal.Recovery
