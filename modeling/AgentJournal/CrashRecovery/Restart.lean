import AgentJournal.CrashRecovery.Admission

/-! # Restarting an interrupted recovery

A directory left behind is recognised by its marker, by its tag, or by being empty. Directory
removal unlinks one entry at a time, so it can take the tag before the copy's files; the last
part of this module says exactly which removals keep the directory recognisable.
-/

namespace AgentJournal.CrashRecovery
open Domain Foundation Storage Recovery

variable {S : Sqlite} {P : Platform} {s s' : State} {action : Action}
variable {entries : List Entry} {name : String} {body : Body}

/-- A later start finds no directory, resumes from the marker, or may dispose of the directory. -/
def Scratch.restartable : Scratch → Bool
  | .absent => true
  | .directory entries => (Scratch.directory entries).pending || staleCopy entries
  | .other => false

def tagged (entries : List Entry) : Bool := entries.any fun e => e.name = provenance

/-- Only names of this procedure, as regular files. -/
def Own (entries : List Entry) : Prop :=
  ∀ e ∈ entries, e.regular = true ∧ (e.name = verifiedName ∨ e.name ∈ allowedNames)

section Directories

theorem Own.nil : Own [] := by simp [Own]

theorem Own.write (h : Own entries) (hname : name = verifiedName ∨ name ∈ allowedNames) :
    Own (writeEntry name body entries) := by
  intro e he
  rcases List.mem_append.mp he with he | he
  · exact h e (List.mem_filter.mp he).1
  · rw [List.mem_singleton.mp he]
    exact ⟨rfl, hname⟩

theorem Own.filter (h : Own entries) (p : Entry → Bool) : Own (entries.filter p) :=
  fun e he => h e (List.mem_filter.mp he).1

theorem Own.writeOptional {bytes : Option Bytes} (h : Own entries) (hname : name ∈ allowedNames) :
    Own (writeOptional name bytes entries) := by
  cases bytes with
  | none => exact h
  | some b => exact h.write (.inr hname)

/-- For files of this procedure, recognition is a matter of the marker and the tag. -/
theorem restartable_iff (h : Own entries) : (Scratch.directory entries).restartable = true ↔
    (Scratch.directory entries).pending = true ∨ tagged entries = true ∨ entries = [] := by
  simp only [Scratch.restartable, Bool.or_eq_true]
  constructor
  · rintro (hpending | hstale)
    · exact .inl hpending
    · simp only [staleCopy, Bool.and_eq_true, Bool.or_eq_true, List.isEmpty_iff] at hstale
      exact .inr hstale.2
  · intro hrecognised
    by_cases hpending : (Scratch.directory entries).pending = true
    · exact .inl hpending
    · refine .inr ?_
      have hunmarked : ∀ e ∈ entries, e.name ≠ verifiedName := by
        simpa [Scratch.pending, Scratch.markerEntry] using hpending
      simp only [staleCopy, Bool.and_eq_true, Bool.or_eq_true, List.isEmpty_iff, List.all_eq_true,
        decide_eq_true_eq]
      exact ⟨fun e he => ⟨(h e he).1, (h e he).2.resolve_left (hunmarked e he)⟩,
        hrecognised.resolve_left hpending⟩

theorem tagged_iff : tagged entries = true ↔ ∃ e ∈ entries, e.name = provenance := by
  simp [tagged]

theorem tagged_filter {p : Entry → Bool} (h : tagged entries = true)
    (hp : ∀ e, e.name = provenance → p e = true) : tagged (entries.filter p) = true := by
  obtain ⟨e, he, hname⟩ := tagged_iff.mp h
  exact tagged_iff.mpr ⟨e, List.mem_filter.mpr ⟨he, hp e hname⟩, hname⟩

theorem tagged_write_self : tagged (writeEntry provenance body entries) = true := by
  simp [tagged, writeEntry]

theorem tagged_write (h : tagged entries = true) :
    tagged (writeEntry name body entries) = true := by
  by_cases hname : name = provenance
  · rw [hname]
    exact tagged_write_self
  · have hkept : tagged (entries.filter fun e => e.name ≠ name) = true :=
      tagged_filter h fun e he => by simp [he, Ne.symm hname]
    obtain ⟨e, he, htag⟩ := tagged_iff.mp hkept
    exact tagged_iff.mpr ⟨e, List.mem_append_left _ he, htag⟩

theorem tagged_writeOptional {bytes : Option Bytes} (h : tagged entries = true) :
    tagged (writeOptional name bytes entries) = true := by
  cases bytes with
  | none => exact h
  | some b => exact tagged_write h

theorem tagged_unlink (h : tagged entries = true) (hname : name ≠ provenance) :
    tagged (unlinkEntry name entries) = true :=
  tagged_filter h fun e he => by simp [he, hname.symm]

theorem tagged_unlink_self : tagged (unlinkEntry provenance entries) = false := by
  simp [tagged, unlinkEntry]

end Directories

section Runs

/-- The removal of this entry keeps the directory recognisable: the tag does not go before the
marker and other files, and the marker does not go from an untagged directory with other files. -/
def keepsRecognition (name : String) (entries : List Entry) : Bool :=
  (name ≠ provenance || (Scratch.directory entries).pending ||
    (unlinkEntry name entries).isEmpty) &&
  (name ≠ verifiedName || tagged entries || (unlinkEntry name entries).isEmpty)

/-- The unlinking steps that keep the directory recognisable, and every other step. -/
def Careful (s : State) : Action → Prop
  | .unlink name => ∀ entries, s.scratch = .directory entries → keepsRecognition name entries = true
  | _ => True

/-- One removal keeps a recognised directory recognised exactly in these cases. -/
theorem unlink_restartable_iff (hown : Own entries)
    (h : (Scratch.directory entries).restartable = true) :
    (Scratch.directory (unlinkEntry name entries)).restartable = true ↔
      keepsRecognition name entries = true := by
  have hown' : Own (unlinkEntry name entries) := hown.filter _
  rw [restartable_iff hown']
  rw [restartable_iff hown] at h
  simp only [keepsRecognition, Bool.and_eq_true, Bool.or_eq_true, decide_eq_true_eq,
    List.isEmpty_iff, ne_eq]
  by_cases htag : name = provenance
  · subst htag
    have hpending : (Scratch.directory (unlinkEntry provenance entries)).pending =
        (Scratch.directory entries).pending := by
      rw [Scratch.pending, markerEntry_unlink (by decide), Scratch.pending]
    rw [hpending, tagged_unlink_self]
    have hne : provenance ≠ verifiedName := by decide
    simp [hne]
  · by_cases hmarker : name = verifiedName
    · subst hmarker
      have hgone : (Scratch.directory (unlinkEntry verifiedName entries)).pending = false := by
        rw [Scratch.pending, markerEntry_unlink_self]
        rfl
      have hkept : tagged (unlinkEntry verifiedName entries) = tagged entries := by
        by_cases ht : tagged entries = true
        · rw [ht, tagged_unlink ht (by decide)]
        · have hnone : ∀ e ∈ entries, e.name ≠ provenance := by simpa [tagged] using ht
          have : tagged (unlinkEntry verifiedName entries) = false := by
            simp only [tagged, unlinkEntry, List.any_eq_false, decide_eq_true_eq]
            exact fun e he => hnone e (List.mem_filter.mp he).1
          rw [this]
          simpa using ht
      rw [hgone, hkept]
      simp [htag]
    · have hpending : (Scratch.directory (unlinkEntry name entries)).pending =
          (Scratch.directory entries).pending := by
        rw [Scratch.pending, markerEntry_unlink hmarker, Scratch.pending]
      simp only [htag, hmarker, not_false_eq_true, true_or, and_self, iff_true]
      rcases h with h | h | h
      · exact .inl (hpending.trans h)
      · exact .inr (.inl (tagged_unlink h htag))
      · exact .inr (.inr (by simp [h, unlinkEntry]))

/-- The phases after the tag was written and before the marker. -/
def Phase.tags : Phase → Bool
  | .copyingMain | .copyingWal _ | .copyingJournal _ _ | .verifying _ _ _ | .publishing _ => true
  | _ => false

theorem Phase.tags_of_copying {phase : Phase} (h : phase.copying = some name) :
    phase.tags = true := by
  cases phase <;> first | rfl | cases h

theorem Phase.not_tags_of_removing {phase : Phase} (h : phase.removing = true) :
    phase.tags = false := by
  cases phase <;> first | rfl | cases h

/-- The directory is this procedure's, and tagged while its copy is being made. -/
def Recognised (s : State) : Prop :=
  s.scratch = .absent ∨ ∃ entries, s.scratch = .directory entries ∧ Own entries ∧
    (Scratch.directory entries).restartable = true ∧ (s.phase.tags = true → tagged entries = true)

theorem Recognised.directory (h : Recognised s) (hscratch : s.scratch = .directory entries) :
    Own entries ∧ (Scratch.directory entries).restartable = true ∧
      (s.phase.tags = true → tagged entries = true) := by
  rcases h with h | ⟨es, hes, hrest⟩
  · simp [hscratch] at h
  · obtain rfl : entries = es := by simpa [hscratch] using hes
    exact hrest

theorem Recognised.restartable (h : Recognised s) : s.scratch.restartable = true := by
  rcases h with h | ⟨es, hes, -, hrestartable, -⟩
  · rw [h]
    rfl
  · rw [hes]
    exact hrestartable

/-- A phase without a tag requirement keeps a recognised directory. -/
theorem Recognised.move (h : Recognised s) (hscratch : s'.scratch = s.scratch)
    (hphase : s'.phase.tags = true → s.phase.tags = true) : Recognised s' := by
  rcases h with h | ⟨es, hes, hown, hrestartable, htags⟩
  · exact .inl (hscratch.trans h)
  · exact .inr ⟨es, hscratch.trans hes, hown, hrestartable, fun ht => htags (hphase ht)⟩

theorem recognised_of_tagged (hscratch : s'.scratch = .directory entries) (hown : Own entries)
    (htagged : tagged entries = true) : Recognised s' :=
  .inr ⟨entries, hscratch, hown, (restartable_iff hown).mpr (.inr (.inl htagged)), fun _ => htagged⟩

theorem Recognised.step (h : Recognised s) (hstep : Step S P s action s')
    (hcareful : Careful s action) : Recognised s' := by
  cases hstep with
  | @unlink es e hremoving hscratch hmem =>
    obtain ⟨hown, hrestartable, -⟩ := h.directory hscratch
    refine .inr ⟨_, rfl, hown.filter _,
      (unlink_restartable_iff hown hrestartable).mpr (hcareful es hscratch), fun ht => ?_⟩
    rw [show State.phase _ = s.phase from rfl, Phase.not_tags_of_removing hremoving] at ht
    cases ht
  | rmdirDiscarding | rmdirDropping | rmdirCompleting => exact .inl rfl
  | mkdir => exact .inr ⟨[], rfl, .nil, rfl, by simp [Phase.tags]⟩
  | tag _ hscratch =>
    obtain ⟨hown, -⟩ := h.directory hscratch
    exact recognised_of_tagged rfl (hown.write (.inr (by decide))) tagged_write_self
  | @copyPart es name bytes hcopying hscratch =>
    obtain ⟨hown, -, htags⟩ := h.directory hscratch
    refine recognised_of_tagged rfl (hown.write (.inr ?_))
      (tagged_write (htags (Phase.tags_of_copying hcopying)))
    cases hphase : s.phase <;> simp only [hphase, Phase.copying, Option.some.injEq, reduceCtorEq]
      at hcopying <;> (rw [← hcopying]; decide)
  | copyMain hphase hscratch _ =>
    obtain ⟨hown, -, htags⟩ := h.directory hscratch
    exact recognised_of_tagged rfl (hown.write (.inr (by decide)))
      (tagged_write (htags (by rw [hphase]; rfl)))
  | copyWal hphase hscratch | copyJournal hphase hscratch =>
    obtain ⟨hown, -, htags⟩ := h.directory hscratch
    exact recognised_of_tagged rfl (hown.writeOptional (by decide))
      (tagged_writeOptional (htags (by rw [hphase]; rfl)))
  | @churn es _ _ _ name _ hphase hscratch hname =>
    obtain ⟨hown, -, htags⟩ := h.directory hscratch
    have hne : name ≠ provenance := by
      rintro rfl
      revert hname
      decide
    refine recognised_of_tagged rfl ((hown.filter _).writeOptional ?_)
      (tagged_writeOptional (tagged_unlink (htags (by rw [hphase]; rfl)) hne))
    exact List.mem_cons_of_mem _ (List.mem_cons_of_mem _ hname)
  | verifyCopy hphase hscratch _ _ _ _ =>
    obtain ⟨hown, -, htags⟩ := h.directory hscratch
    refine recognised_of_tagged rfl ((hown.filter _).write (.inr (by decide))) (tagged_write ?_)
    exact tagged_filter (htags (by rw [hphase]; rfl)) fun e he => by rw [he]; decide
  | stage hphase hscratch =>
    obtain ⟨hown, -, htags⟩ := h.directory hscratch
    exact recognised_of_tagged rfl (hown.write (.inr (by decide)))
      (tagged_write (htags (by rw [hphase]; rfl)))
  | rename hphase hscratch =>
    obtain ⟨hown, -, htags⟩ := h.directory hscratch
    exact recognised_of_tagged rfl ((hown.filter _).write (.inl rfl))
      (tagged_write (tagged_unlink (htags (by rw [hphase]; rfl)) (by decide)))
  | sqlite | inspect => exact h.move rfl id
  | @admitted recovered _ _ _ _ _ _ =>
    refine h.move rfl fun ht => ?_
    cases recovered <;> cases ht
  | _ => exact h.move rfl fun ht => by cases ht

/-- Protected starts from no scratch directory whose removals keep it recognisable. -/
def carefulMachine (S : Sqlite) (P : Platform) : Machine State Action where
  start s := s.phase = .idle ∧ s.scratch = .absent
  step s action s' := Step S P s action s' ∧ Careful s action

end Runs

/-- Along every run whose removals keep the directory recognisable, a later start finds no
directory, a pending one, or one it may dispose of. -/
theorem scratch_restartable (hs : (carefulMachine S P).Reachable s) :
    s.scratch.restartable = true ∧
      ∀ entries, s.scratch = .directory entries → s.scratch.pending = false →
        staleCopy entries = true := by
  have hrecognised : Recognised s := Machine.Reachable.invariant (M := carefulMachine S P)
    (fun _ hstart => .inl hstart.2) (fun _ _ _ hI hstep => hI.step hstep.1 hstep.2) hs
  have hrestartable := hrecognised.restartable
  refine ⟨hrestartable, fun entries hscratch hpending => ?_⟩
  rw [hscratch] at hrestartable hpending
  simpa [Scratch.restartable, hpending] using hrestartable

theorem scratch_restartable_copying : ∃ s entries,
    (carefulMachine (quietSqlite (setRequired (.baseline "journal"))) .plain).Reachable s ∧
      s.phase = .idle ∧ s.scratch = .directory entries ∧ entries ≠ [] ∧
      staleCopy entries = true := by
  have h₀ : (carefulMachine (quietSqlite (setRequired (.baseline "journal"))) .plain).Reachable
      stopped := .of_start ⟨rfl, rfl⟩
  have h₁ := h₀.tail ⟨Step.startHot rfl rfl (.inr ⟨rfl, rfl⟩) (fun _ => rfl)
    (readOpenLineage_initial _), trivial⟩
  have h₂ := h₁.tail ⟨Step.create rfl rfl rfl, trivial⟩
  have h₃ := h₂.tail ⟨Step.mkdir rfl rfl, trivial⟩
  have h₄ := h₃.tail ⟨Step.tag rfl rfl, trivial⟩
  have h₅ := h₄.tail ⟨Step.copyMain rfl rfl rfl, trivial⟩
  have h := h₅.tail ⟨Step.kill, trivial⟩
  exact ⟨_, _, h, rfl, rfl, by simp [writeEntry], (scratch_restartable h).2 _ rfl rfl⟩

section Interrupted

/-- A start is killed after copying the main file; the next one is killed while it removes that
copy, after the tag. The directory that is left is refused as unrecognised. -/
theorem interrupted_removal_refused :
    ∃ s, (machine (quietSqlite (setRequired (.baseline "journal"))) .plain (· = stopped)).Reachable
    s ∧
      s.phase = .idle ∧ s.scratch.pending = false ∧ s.scratch.restartable = false := by
  have h₀ : (machine (quietSqlite (setRequired (.baseline "journal"))) .plain
      (· = stopped)).Reachable stopped := .of_start ⟨rfl, rfl⟩
  have h₁ := h₀.tail (Step.startHot rfl rfl (.inr ⟨rfl, rfl⟩) (fun _ => rfl)
    (readOpenLineage_initial _))
  have h₂ := h₁.tail (Step.create rfl rfl rfl)
  have h₃ := h₂.tail (Step.mkdir rfl rfl)
  have h₄ := h₃.tail (Step.tag rfl rfl)
  have h₅ := h₄.tail (Step.copyMain rfl rfl rfl)
  have h₆ := h₅.tail Step.kill
  have h₇ := h₆.tail (Step.startHot rfl rfl (.inr ⟨rfl, rfl⟩) (fun _ => rfl)
    (readOpenLineage_initial _))
  have h₈ := h₇.tail (Step.discard rfl rfl rfl rfl (by decide))
  have h₉ := h₈.tail (Step.unlink rfl rfl (List.mem_cons_self ..))
  have h := h₉.tail Step.kill
  exact ⟨_, h, rfl, rfl, by decide⟩

end Interrupted

end AgentJournal.CrashRecovery
