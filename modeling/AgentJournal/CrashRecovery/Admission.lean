import AgentJournal.CrashRecovery.Procedure
import AgentJournal.Recovery.Admission

/-! # Admission after an abrupt stop

The marker separates two halves of a recovery: before it exists the original files are only
read, and while it exists a handle is returned only for a replay that was compared with it. An
invariant says for each phase what the directory, the audit and the files have to be.
-/

namespace AgentJournal.CrashRecovery
open Domain Foundation Storage Recovery

variable {S : Sqlite} {P : Platform} {s s' : State} {action : Action} {start : State → Prop}

section Marker
variable {entries : List Entry} {name : String} {body : Body} {v : Verified}

theorem marker_of_not_pending {d : Scratch} (h : d.pending = false) : d.marker = none := by
  have hnone : d.markerEntry = none := by simpa [Scratch.pending] using h
  simp [Scratch.marker, hnone]

theorem pending_of_marker {d : Scratch} (h : d.marker = some v) : d.pending = true := by
  by_contra hnot
  rw [marker_of_not_pending (by simpa using hnot)] at h
  cases h

/-- Another name does not touch the marker. -/
theorem markerEntry_unlink (hname : name ≠ verifiedName) :
    (Scratch.directory (unlinkEntry name entries)).markerEntry =
      (Scratch.directory entries).markerEntry := by
  simp only [Scratch.markerEntry, unlinkEntry, List.find?_filter]
  congr 1
  funext e
  by_cases he : e.name = verifiedName
  · simp [he, hname.symm]
  · simp [he]

theorem markerEntry_write (hname : name ≠ verifiedName) :
    (Scratch.directory (writeEntry name body entries)).markerEntry =
      (Scratch.directory entries).markerEntry := by
  refine Eq.trans ?_ (markerEntry_unlink hname)
  simp only [Scratch.markerEntry, writeEntry, unlinkEntry, List.find?_append]
  simp [hname]

theorem markerEntry_unlink_self :
    (Scratch.directory (unlinkEntry verifiedName entries)).markerEntry = none := by
  simp [Scratch.markerEntry, unlinkEntry]

theorem marker_publish :
    (Scratch.directory (writeEntry verifiedName (.verified v) entries)).marker = some v := by
  have hnone : ((unlinkEntry verifiedName entries).find? fun e => e.name = verifiedName) = none :=
    markerEntry_unlink_self
  unfold unlinkEntry at hnone
  simp only [Scratch.marker, Scratch.markerEntry, writeEntry, List.find?_append, hnone,
    Option.none_or]
  simp [Body.verified?]

theorem markerEntry_writeOptional {bytes : Option Bytes} (hname : name ≠ verifiedName) :
    (Scratch.directory (writeOptional name bytes entries)).markerEntry =
      (Scratch.directory entries).markerEntry := by
  cases bytes with
  | none => rfl
  | some b => exact markerEntry_write hname

theorem copyFiles_ne (hname : name ∈ copyFiles) : name ≠ verifiedName := by
  rintro rfl
  revert hname
  decide

theorem copying_ne {phase : Phase} (h : phase.copying = some name) : name ≠ verifiedName := by
  cases phase <;> simp only [Phase.copying, Option.some.injEq, reduceCtorEq] at h <;>
    (rw [← h]; decide)

theorem markerEntry_normalizedCopy {m : Bytes} :
    (Scratch.directory (normalizedCopy m entries)).markerEntry =
      (Scratch.directory entries).markerEntry := by
  unfold normalizedCopy
  rw [markerEntry_write (by decide)]
  simp only [Scratch.markerEntry, List.find?_filter]
  congr 1
  funext e
  by_cases he : e.name = verifiedName
  · simp only [he, decide_true, decide_eq_true_eq]
    decide
  · simp [he]

end Marker

section Invariant

/-- The opened files hold this adopted content, and the audit accepts it. -/
def Opened (S : Sqlite) (s : State) (c : Central) : Prop :=
  S.content s.files = some c ∧ c.recoveryAnchor.auditRequired = true ∧
    ∃ d, openProtected s.audit c = .ok d

/-- A standalone file in rollback-journal mode, which every connection leaves alone. -/
def Settled (S : Sqlite) (files : Files) : Prop :=
  ∃ m, files = .standalone m ∧ S.walMode m = false

/-- A replayed database whose verification is the marker's, before any adoption. -/
def Compared (P : Platform) (v : Verified) (c : Central) : Prop :=
  ∃ replayed, verify P replayed = .ok v.verification ∧ (c = replayed ∨ c = setRequired replayed)

/-- No marker was met, or the files hold what the recovery of the marker replayed. -/
def Replayed (S : Sqlite) (P : Platform) (s : State) (recovered : Option Verified) : Prop :=
  s.found = recovered ∧ ∀ v ∈ recovered, s.scratch.marker = some v ∧
    ∃ c, S.content s.files = some c ∧ Compared P v c

/-- What each phase can rely on. -/
def PhaseSound (S : Sqlite) (P : Platform) (s : State) : Phase → Prop
  | .idle => True
  | .recovering => s.found = s.scratch.marker
  | .discarding | .creating | .tagging | .copyingMain | .copyingWal _ | .copyingJournal _ _
  | .verifying _ _ _ | .publishing _ => s.scratch.pending = false
  | .dropping => True
  | .syncing v | .replaying v | .normalized v => s.scratch.marker = some v ∧ s.found = some v
  | .probed v original => s.scratch.marker = some v ∧ s.found = some v ∧
      ∃ c, S.content s.files = some c ∧ verify P c = .ok original
  | .opening recovered | .admitting recovered =>
      Replayed S P s recovered ∧ (recovered ≠ none → Settled S s.files)
  | .adopting recovered => Replayed S P s recovered
  | .recording v c => s.scratch.marker = some v ∧ s.found = some v ∧ Opened S s c ∧
      Compared P v c ∧ Settled S s.files
  | .completing v c => .crashRecovered v ∈ s.audit.recoveryEvents ∧ s.found = some v ∧
      (∀ u, s.scratch.marker = some u → u = v) ∧ Opened S s c ∧ Compared P v c ∧ Settled S s.files
  | .served recovered c => s.found = recovered ∧ Opened S s c ∧
      ∀ v ∈ recovered, Compared P v c ∧ Settled S s.files

/-- A standalone file that loads stands for what it loads. -/
theorem content_standalone {m : Bytes} {c : Central} (h : S.load m = some c) :
    S.content (.standalone m) = some c := by
  obtain ⟨r, hreplay, hload⟩ := S.standalone h
  simp [Sqlite.content, Sqlite.normalize, Files.standalone, hreplay, hload]

theorem settled_of_normalize {f : Files} {r : Bytes} (h : S.normalize f = some r) :
    Settled S (.standalone r) := by
  obtain ⟨m, -, hreplay⟩ := Option.bind_eq_some_iff.mp h
  exact ⟨r, rfl, S.rollback hreplay⟩

theorem load_of_content {f : Files} {r : Bytes} {c : Central} (h : S.content f = some c)
    (hr : S.normalize f = some r) : S.load r = some c := by
  simpa [Sqlite.content, hr] using h

/-- Adoption happens at most once on the way to a handle. -/
theorem Compared.adopted {v : Verified} {c d : Central} {a : Audit} (h : Compared P v c)
    (hnot : c.recoveryAnchor.auditRequired = false) (hadopt : adoptPublishedBaseline a c = .ok d) :
    Compared P v d := by
  obtain ⟨-, rfl⟩ := adoptPublishedBaseline_eq_ok hnot hadopt
  obtain ⟨replayed, hverify, rfl | rfl⟩ := h
  · exact ⟨c, hverify, .inr rfl⟩
  · cases hnot

/-- A write under another name keeps a directory without a marker. -/
theorem not_pending_of_markerEntry {entries written : List Entry}
    (hpending : s.scratch.pending = false)
    (hscratch : s.scratch = .directory entries)
    (hsame : (Scratch.directory written).markerEntry = (Scratch.directory entries).markerEntry) :
    (Scratch.directory written).pending = false := by
  rw [hscratch, Scratch.pending] at hpending
  rw [Scratch.pending, hsame]
  exact hpending

/-- Removing entries cannot bring a marker into view. -/
theorem marker_unlink {entries : List Entry} {name : String} {u : Verified}
    (h : (Scratch.directory (unlinkEntry name entries)).marker = some u) :
    (Scratch.directory entries).marker = some u := by
  by_cases hname : name = verifiedName
  · rw [hname, Scratch.marker, markerEntry_unlink_self] at h
    cases h
  · rw [Scratch.marker, markerEntry_unlink hname] at h
    exact h

theorem not_pending_unlink {entries : List Entry} {name : String}
    (h : (Scratch.directory entries).pending = false) :
    (Scratch.directory (unlinkEntry name entries)).pending = false := by
  by_cases hname : name = verifiedName
  · rw [hname, Scratch.pending, markerEntry_unlink_self]
    rfl
  · rw [Scratch.pending, markerEntry_unlink hname]
    exact h

theorem phaseSound_unlink {entries : List Entry} {name : String} (hs : PhaseSound S P s s.phase)
    (hremoving : s.phase.removing = true) (hscratch : s.scratch = .directory entries) :
    PhaseSound S P { s with scratch := .directory (unlinkEntry name entries) } s.phase := by
  cases hphase : s.phase with
  | discarding =>
    rw [hphase] at hs
    exact not_pending_unlink (hscratch ▸ hs)
  | dropping => trivial
  | completing v c =>
    rw [hphase] at hs
    obtain ⟨hevent, hfound, hmarker, hopened, hcompared⟩ := hs
    refine ⟨hevent, hfound, fun u hu => hmarker u ?_, hopened, hcompared⟩
    rw [hscratch]
    exact marker_unlink hu
  | _ => simp [hphase, Phase.removing] at hremoving

theorem phaseSound_copyPart {entries : List Entry} {name : String} {bytes : Bytes}
    (hs : PhaseSound S P s s.phase) (hcopying : s.phase.copying = some name)
    (hscratch : s.scratch = .directory entries) :
    PhaseSound S P { s with scratch := .directory (writeEntry name (.bytes bytes) entries) }
      s.phase := by
  have hsame : (Scratch.directory (writeEntry name (.bytes bytes) entries)).markerEntry =
      (Scratch.directory entries).markerEntry := markerEntry_write (copying_ne hcopying)
  cases hphase : s.phase with
  | copyingMain | copyingWal _ | copyingJournal _ _ =>
    rw [hphase] at hs
    exact not_pending_of_markerEntry hs hscratch hsame
  | _ => simp [hphase, Phase.copying] at hcopying

theorem phaseSound_step (hs : PhaseSound S P s s.phase) (hstep : Step S P s action s') :
    PhaseSound S P s' s'.phase := by
  cases hstep with
  | startHot => rfl
  | startCold => exact ⟨⟨rfl, by simp⟩, fun h => absurd rfl h⟩
  | resume hphase _ _ hmarker =>
    rw [hphase] at hs
    exact ⟨hmarker, hs.trans hmarker⟩
  | create _ _ habsent => simp [PhaseSound, habsent, Scratch.pending, Scratch.markerEntry]
  | discard _ _ hpending _ _ => exact hpending
  | unlink hremoving hscratch _ => exact phaseSound_unlink hs hremoving hscratch
  | rmdirDiscarding => rfl
  | rmdirDropping => trivial
  | rmdirCompleting hphase _ =>
    rw [hphase] at hs
    obtain ⟨-, hfound, -, hopened, hcompared, hsettled⟩ := hs
    exact ⟨hfound, hopened, by simpa using ⟨hcompared, hsettled⟩⟩
  | mkdir => rfl
  | tag hphase hscratch =>
    rw [hphase] at hs
    exact not_pending_of_markerEntry hs hscratch (markerEntry_write (by decide))
  | copyPart hcopying hscratch => exact phaseSound_copyPart hs hcopying hscratch
  | copyMain hphase hscratch _ =>
    rw [hphase] at hs
    exact not_pending_of_markerEntry hs hscratch (markerEntry_write (by decide))
  | copyWal hphase hscratch | copyJournal hphase hscratch =>
    rw [hphase] at hs
    exact not_pending_of_markerEntry hs hscratch (markerEntry_writeOptional (by decide))
  | churn hphase hscratch hname =>
    have hne := copyFiles_ne hname
    have hsound := hs
    rw [hphase] at hs
    dsimp only
    rw [hphase]
    exact not_pending_of_markerEntry hs hscratch
      ((markerEntry_writeOptional hne).trans (markerEntry_unlink hne))
  | verifyCopy hphase hscratch _ _ _ _ =>
    rw [hphase] at hs
    exact not_pending_of_markerEntry hs hscratch markerEntry_normalizedCopy
  | stage hphase hscratch =>
    rw [hphase] at hs
    dsimp only
    rw [hphase]
    exact not_pending_of_markerEntry hs hscratch (markerEntry_write (by decide))
  | rename _ _ => exact ⟨marker_publish, rfl⟩
  | syncDir hphase =>
    rw [hphase] at hs
    exact hs
  | failSync _ => trivial
  | failGuarded _ _ => trivial
  | fail _ => trivial
  | kill => trivial
  | sqlite hphase hcontent =>
    rcases hphase with hphase | ⟨original, hphase⟩
    · rw [hphase] at hs
      dsimp only
      rw [hphase]
      exact hs
    · rw [hphase] at hs
      dsimp only
      rw [hphase]
      obtain ⟨hmarker, hfound, c, hc, hverify⟩ := hs
      exact ⟨hmarker, hfound, c, hcontent.trans hc, hverify⟩
  | normalize hphase _ =>
    rw [hphase] at hs
    exact hs
  | probe hphase hfiles hload hverify =>
    rw [hphase] at hs
    exact ⟨hs.1, hs.2, _, by rw [hfiles]; exact content_standalone hload, hverify⟩
  | settle hphase hnormal heq =>
    rw [hphase] at hs
    obtain ⟨hmarker, hfound, c, hc, hverify⟩ := hs
    refine ⟨⟨hfound, fun u hu => ?_⟩, fun _ => settled_of_normalize hnormal⟩
    obtain rfl := Option.some.inj hu
    exact ⟨hmarker, c, content_standalone (load_of_content hc hnormal), c, heq ▸ hverify, .inl rfl⟩
  | openExisting hphase _ _ =>
    rw [hphase] at hs
    exact hs
  | @inspect recovered m _ hphase hfiles hmode =>
    rw [hphase] at hs
    dsimp only
    rw [hphase]
    obtain ⟨⟨hfound, -⟩, hsettled⟩ := hs
    have hcold : recovered = none := by
      by_contra hrecovered
      obtain ⟨m', hm', hrollback⟩ := hsettled hrecovered
      obtain rfl : m = m' := by simpa [Files.standalone] using hfiles.symm.trans hm'
      rw [hmode] at hrollback
      cases hrollback
    subst hcold
    exact ⟨⟨hfound, by simp⟩, fun h => absurd rfl h⟩
  | @adopt recovered _ _ _ _ hphase hcontent _ hnot hadopt hafter =>
    have hreplayed : Replayed S P s recovered := by
      rcases hphase with hphase | hphase <;> rw [hphase] at hs
      · exact hs.1
      · exact hs
    refine ⟨hreplayed.1, fun v hv => ?_⟩
    obtain ⟨hmarker, e, he, hcompared⟩ := hreplayed.2 v hv
    obtain rfl := Option.some.inj (hcontent.symm.trans he)
    rcases hafter with hafter | hafter
    · exact ⟨hmarker, _, hafter, hcompared⟩
    · exact ⟨hmarker, _, hafter, hcompared.adopted hnot hadopt⟩
  | standalone hphase hnormal =>
    rw [hphase] at hs
    refine ⟨⟨hs.1, fun v hv => ?_⟩, fun _ => settled_of_normalize hnormal⟩
    obtain ⟨hmarker, c, hc, hcompared⟩ := hs.2 v hv
    exact ⟨hmarker, c, content_standalone (load_of_content hc hnormal), hcompared⟩
  | @admitted recovered c d hphase hcontent hrequired hopen =>
    rw [hphase] at hs
    obtain ⟨⟨hfound, hreplayed⟩, hsettled⟩ := hs
    have hopened : Opened S s c := ⟨hcontent, hrequired, d, hopen⟩
    cases recovered with
    | none => exact ⟨hfound, hopened, by simp⟩
    | some v =>
      obtain ⟨hmarker, e, he, hcompared⟩ := hreplayed v rfl
      obtain rfl := Option.some.inj (hcontent.symm.trans he)
      exact ⟨hmarker, hfound, hopened, hcompared, hsettled (by simp)⟩
  | @record v c hphase =>
    rw [hphase] at hs
    obtain ⟨hmarker, hfound, ⟨hcontent, hrequired, d, hopen⟩, hcompared, hsettled⟩ := hs
    refine ⟨?_, hfound, fun u hu => Option.some.inj (hu.symm.trans hmarker),
      ⟨hcontent, hrequired, d, ?_⟩, hcompared, hsettled⟩ <;> dsimp only <;>
      unfold Audit.recordCrashRecovery <;> split
    · assumption
    · simp [Audit.record]
    · exact hopen
    · exact hopen

end Invariant

section BeforeMarker

/-- The phases that need no marker. -/
def Phase.unmarked : Phase → Bool
  | .syncing _ | .replaying _ | .normalized _ | .probed _ _ | .opening (some _)
  | .admitting (some _) | .adopting _ | .recording _ _ | .completing _ _ => false
  | _ => true

/-- No marker is there and nothing but the scratch directory was written. -/
structure Untouched (S : Sqlite) (files : Files) (audit : Audit) (s : State) : Prop where
  files : s.files = files
  audit : s.audit = audit
  pending : s.scratch.pending = false
  unmarked : s.phase.unmarked = true
  loaded : ∀ recovered, s.phase = .admitting recovered →
    ∃ m c, s.files = .standalone m ∧ S.load m = some c

/-- A file that matches the audit was adopted by it. -/
def Adopted (S : Sqlite) (files : Files) (audit : Audit) : Prop :=
  ∀ m c revision, files = .standalone m → S.load m = some c →
    audit.preflightExisting c = .ok revision → c.recoveryAnchor.auditRequired = true

/-- The main file without sidecars is not in WAL mode, as a clean shutdown leaves it. -/
def RollbackMode (S : Sqlite) (files : Files) : Prop :=
  ∀ m, files = .standalone m → S.walMode m = false

variable {files : Files} {audit : Audit}

/-- The directory of an unmarked step stays without a marker. -/
theorem Untouched.pending_step (h : Untouched S files audit s) (hstep : Step S P s action s')
    (hrename : action ≠ .rename) : s'.scratch.pending = false := by
  have hpending := h.pending
  cases hstep with
  | unlink _ hscratch _ => exact not_pending_unlink (hscratch ▸ hpending)
  | rmdirDiscarding | rmdirDropping | rmdirCompleting | mkdir => rfl
  | tag _ hscratch =>
    exact not_pending_of_markerEntry hpending hscratch (markerEntry_write (by decide))
  | copyPart hcopying hscratch =>
    exact not_pending_of_markerEntry hpending hscratch (markerEntry_write (copying_ne hcopying))
  | copyMain _ hscratch _ =>
    exact not_pending_of_markerEntry hpending hscratch (markerEntry_write (by decide))
  | copyWal _ hscratch | copyJournal _ hscratch =>
    exact not_pending_of_markerEntry hpending hscratch (markerEntry_writeOptional (by decide))
  | churn _ hscratch hname =>
    exact not_pending_of_markerEntry hpending hscratch
      ((markerEntry_writeOptional (copyFiles_ne hname)).trans
        (markerEntry_unlink (copyFiles_ne hname)))
  | verifyCopy _ hscratch _ _ _ _ =>
    exact not_pending_of_markerEntry hpending hscratch markerEntry_normalizedCopy
  | stage _ hscratch =>
    exact not_pending_of_markerEntry hpending hscratch (markerEntry_write (by decide))
  | rename => exact absurd rfl hrename
  | _ => exact hpending

theorem Untouched.step (hadopted : Adopted S files audit) (hmode : RollbackMode S files)
    (h : Untouched S files audit s) (hstep : Step S P s action s') (hrename : action ≠ .rename) :
    Untouched S files audit s' := by
  have hpending' := h.pending_step hstep hrename
  obtain ⟨hfiles, haudit, hpending, hunmarked, hloaded⟩ := h
  cases hstep with
  | resume _ _ hmarked _ => simp [hpending] at hmarked
  | rename => exact absurd rfl hrename
  | sqlite hphase _ =>
    rcases hphase with hphase | ⟨original, hphase⟩ <;> simp [hphase, Phase.unmarked] at hunmarked
  | syncDir hphase | failSync hphase | normalize hphase _ | probe hphase _ _ _ | settle hphase _ _
  | standalone hphase _ | record hphase | rmdirCompleting hphase _ =>
    simp [hphase, Phase.unmarked] at hunmarked
  | @openExisting recovered m c hphase hstandalone hload =>
    cases recovered with
    | none => exact ⟨hfiles, haudit, hpending', rfl, fun _ _ => ⟨m, c, hstandalone, hload⟩⟩
    | some v => simp [hphase, Phase.unmarked] at hunmarked
  | inspect _ hstandalone hwal =>
    rw [hmode _ (hfiles ▸ hstandalone)] at hwal
    cases hwal
  | @adopt recovered c d _ _ hphase hcontent hmatches hnot _ _ =>
    rcases hphase with hphase | hphase
    · -- the file is adopted, so there is nothing to bind
      obtain ⟨m, e, hstandalone, hload⟩ := hloaded recovered hphase
      rw [hstandalone, content_standalone hload] at hcontent
      obtain rfl := Option.some.inj hcontent
      rw [hadopted _ _ _ (hfiles ▸ hstandalone) hload (haudit ▸ hmatches)] at hnot
      cases hnot
    · simp [hphase, Phase.unmarked] at hunmarked
  | @admitted recovered c d hphase _ _ _ =>
    cases recovered with
    | none => exact ⟨hfiles, haudit, hpending', rfl, by simp⟩
    | some v => simp [hphase, Phase.unmarked] at hunmarked
  | startHot | startCold | create | discard | rmdirDiscarding | rmdirDropping | mkdir | tag
  | copyMain | copyWal | copyJournal | verifyCopy | failGuarded | fail | kill =>
    exact ⟨hfiles, haudit, hpending', rfl, by simp⟩
  | _ => exact ⟨hfiles, haudit, hpending', hunmarked, hloaded⟩

end BeforeMarker

section Events

/-- A start inserts the event of its marker once. -/
theorem count_step (hstep : Step S P s action s') (v : Verified) :
    s'.audit.recoveryEvents.count (.crashRecovered v) ≤
      max 1 (s.audit.recoveryEvents.count (.crashRecovered v)) := by
  cases hstep with
  | @record u c hphase =>
    dsimp only
    unfold Audit.recordCrashRecovery
    split
    · exact le_max_right _ _
    · rename_i habsent
      by_cases hu : u = v
      · subst hu
        simp [Audit.record, List.count_append, List.count_eq_zero_of_not_mem habsent]
      · simp [Audit.record, List.count_append, hu]
  | _ => exact le_max_right _ _

/-- What the guard removes is no marker, unless the sync after the rename failed. -/
theorem dropping_step (hs : PhaseSound S P s s.phase)
    (hdropping : s.phase = .dropping → s.scratch.pending = false) (hstep : Step S P s action s')
    (hsync : action ≠ .failSync) : s'.phase = .dropping → s'.scratch.pending = false := by
  intro hphase'
  cases hstep with
  | unlink _ hscratch _ => exact not_pending_unlink (hscratch ▸ hdropping hphase')
  | copyPart hcopying _ =>
    rw [show s.phase = .dropping from hphase'] at hcopying
    cases hcopying
  | churn hphase | stage hphase | inspect hphase => cases hphase.symm.trans hphase'
  | sqlite hphase _ =>
    rcases hphase with hphase | ⟨original, hphase⟩ <;> cases hphase.symm.trans hphase'
  | failSync => exact absurd rfl hsync
  | failGuarded hguarded hsyncing =>
    cases hphase : s.phase with
    | syncing v => exact absurd hphase (hsyncing v)
    | tagging | copyingMain | copyingWal | copyingJournal | verifying | publishing =>
      rw [hphase] at hs
      exact hs
    | _ => simp [hphase, Phase.guarded] at hguarded
  | @admitted recovered => cases recovered <;> cases hphase'
  | _ => cases hphase'

/-- A marker disappears only when its event is in the audit. -/
theorem marker_kept (hs : PhaseSound S P s s.phase)
    (hdropping : s.phase = .dropping → s.scratch.pending = false) (hstep : Step S P s action s')
    {v : Verified} (hmarker : s.scratch.marker = some v) (hgone : s'.scratch.marker ≠ some v) :
    .crashRecovered v ∈ s.audit.recoveryEvents := by
  have hpending : s.scratch.pending = true := pending_of_marker hmarker
  cases hstep with
  | unlink hremoving hscratch _ =>
    cases hphase : s.phase with
    | discarding =>
      rw [hphase] at hs
      exact absurd hpending (by rw [show s.scratch.pending = false from hs]; simp)
    | dropping => exact absurd hpending (by rw [hdropping hphase]; simp)
    | completing u c =>
      rw [hphase] at hs
      obtain rfl := hs.2.2.1 v hmarker
      exact hs.1
    | _ => simp [hphase, Phase.removing] at hremoving
  | rmdirDiscarding _ hscratch | rmdirDropping _ hscratch | rmdirCompleting _ hscratch
  | mkdir _ hscratch => simp [hscratch, Scratch.marker, Scratch.markerEntry] at hmarker
  | tag hphase | copyMain hphase | copyWal hphase | copyJournal hphase | churn hphase
  | verifyCopy hphase | stage hphase | rename hphase =>
    rw [hphase] at hs
    exact absurd hpending (by rw [show s.scratch.pending = false from hs]; simp)
  | copyPart hcopying hscratch =>
    rw [hscratch] at hmarker
    refine absurd ?_ hgone
    simp only [Scratch.marker, markerEntry_write (copying_ne hcopying)] at hmarker ⊢
    exact hmarker
  | _ => exact absurd hmarker hgone

end Events

/-- Before the marker the files are only read, unless a file in WAL mode is opened without its
sidecars. A handle is returned only for the content of the audit's open resolved head, and only
after the comparison with a marker that was found. Each marker leaves at most one event, and goes
only after it, unless the sync of the directory failed after the rename. -/
theorem crash_recovery_admission {s₀ : State} {labels : List Action}
    (hstart : (machine S P start).start s₀) (hrun : (machine S P start).Run s₀ labels s) :
    (Adopted S s₀.files s₀.audit → s₀.scratch.pending = false → RollbackMode S s₀.files →
      .rename ∉ labels → s.files = s₀.files) ∧
    (∀ recovered c, s.phase = .served recovered c → S.content s.files = some c ∧
      (recovered ≠ none → ∃ m, s.files = .standalone m) ∧ s.audit.state = .opened ∧
      s.audit.journalId = c.recoveryAnchor.journalId ∧ ∃ head, s.audit.head = .ok head ∧
        head.outcome ≠ .prepared ∧ head.revision = c.recoveryAnchor.revision ∧
        head.snapshot = some (snapshot c)) ∧
    (∀ recovered c v, s.phase = .served recovered c → s.found = some v →
      ∃ replayed, verify P replayed = .ok v.verification ∧ c = setRequired replayed) ∧
    (∀ v, s.audit.recoveryEvents.count (.crashRecovered v) ≤
      max 1 (s₀.audit.recoveryEvents.count (.crashRecovered v))) ∧
    (.failSync ∉ labels → ∀ action s' v, Step S P s action s' → s.scratch.marker = some v →
      s'.scratch.marker ≠ some v → .crashRecovered v ∈ s.audit.recoveryEvents) := by
  have hreachable : (machine S P start).Reachable s₀ := .of_start hstart
  have hlater : (machine S P start).Later s₀ s := ⟨labels, hrun⟩
  have hsound₀ : PhaseSound S P s₀ s₀.phase := by
    rw [hstart.1]
    trivial
  have hsound : PhaseSound S P s s.phase :=
    hlater.stable (I := fun s => PhaseSound S P s s.phase)
      (fun _ _ _ _ hI hstep => phaseSound_step hI hstep) hreachable hsound₀
  refine ⟨fun hadopted hpending hmode hrename => ?_, fun recovered c hserved => ?_,
    fun recovered c v hserved hfound => ?_, fun v =>
    ?_, fun hsync action s' v hstep hmarker hgone => ?_⟩
  · have huntouched : Untouched S s₀.files s₀.audit s := by
      refine hrun.stable (Q := fun action => action ≠ .rename)
        (I := Untouched S s₀.files s₀.audit)
        (fun _ _ _ _ hQ hI hstep => hI.step hadopted hmode hstep hQ) hreachable
        (fun action hmem heq => hrename (heq ▸ hmem)) ⟨rfl, rfl, hpending, ?_, ?_⟩
      · rw [hstart.1]
        rfl
      · simp [hstart.1]
    exact huntouched.files
  · rw [hserved] at hsound
    obtain ⟨-, ⟨hcontent, hrequired, d, hopen⟩, hcompared⟩ := hsound
    have hread : ∃ lineage, s.audit.readOpenLineage = .ok lineage := by
      simp only [openProtected, Audit.preflightExisting, bind_eq_ok] at hopen
      obtain ⟨_, ⟨lineage, hlineage, -⟩, -⟩ := hopen
      exact ⟨lineage, hlineage⟩
    obtain ⟨lineage, hlineage⟩ := hread
    obtain ⟨h, hl⟩ := Audit.ledger_of_readOpenLineage hlineage
    obtain ⟨hstate, hresolved, hrevision, hjournal, hsnapshot, -⟩ := openProtected_eq_ok hl hopen
    refine ⟨hcontent, fun hrecovered => ?_, hstate, hjournal, h, hl.head_eq, hresolved, hrevision,
      hsnapshot⟩
    obtain ⟨v, hv⟩ := Option.ne_none_iff_exists'.mp hrecovered
    obtain ⟨m, hm, -⟩ := (hcompared v hv).2
    exact ⟨m, hm⟩
  · rw [hserved] at hsound
    obtain ⟨hrecovered, ⟨-, hrequired, -⟩, hcompared⟩ := hsound
    obtain ⟨replayed, hverify, rfl | rfl⟩ := (hcompared v (hrecovered ▸ hfound)).1
    · exact ⟨c, hverify, (setRequired_eq hrequired).symm⟩
    · exact ⟨replayed, hverify, rfl⟩
  · exact hlater.stable (I := fun s => s.audit.recoveryEvents.count (.crashRecovered v) ≤
        max 1 (s₀.audit.recoveryEvents.count (.crashRecovered v)))
      (fun _ _ _ _ hI hstep => (count_step hstep v).trans (max_le (le_max_left _ _) hI))
      hreachable (le_max_right _ _)
  · have hguarded : PhaseSound S P s s.phase ∧
      (s.phase = .dropping → s.scratch.pending = false) := by
      refine hrun.stable (Q := fun action => action ≠ .failSync)
        (I := fun s => PhaseSound S P s s.phase ∧ (s.phase = .dropping → s.scratch.pending = false))
        (fun _ _ _ _ hQ hI hstep => ⟨phaseSound_step hI.1 hstep, dropping_step hI.1 hI.2 hstep hQ⟩)
        hreachable (fun action hmem heq => hsync (heq ▸ hmem)) ⟨hsound₀, ?_⟩
      simp [hstart.1]
    exact marker_kept hguarded.1 hguarded.2 hstep hmarker hgone

section Incident

/-- SQLite on a file whose log adds nothing; a file with a header is in WAL mode. -/
def quietSqlite (c : Central) : Sqlite where
  replay _ _ _ := some []
  load _ := some c
  walMode m := !m.isEmpty
  rollback h := by rw [← Option.some.inj h]; rfl
  standalone _ := ⟨_, rfl, by assumption⟩

/-- An abrupt stop of an adopted journal with an empty log. -/
def stopped : State where
  files := ⟨some [2], some ⟨[], true⟩, none, none⟩
  initializing := false
  scratch := .absent
  audit := .initial (.baseline "journal")
  phase := .idle
  found := none

/-- A place of the first start. -/
def starting (entries : List Entry) (phase : Phase) (found : Option Verified) : State :=
  ⟨stopped.files, false, .directory entries, stopped.audit, phase, found⟩

/-- A place of the next start, which found this marker. -/
def resuming (v : Verified) (scratch : Scratch) (phase : Phase) (audit : Audit) : State :=
  ⟨.standalone [], false, scratch, audit, phase, some v⟩

def tagEntry : Entry := ⟨provenance, true, .bytes (asBytes provenance)⟩

def copyEntry (bytes : Bytes) : Entry := ⟨copyName, true, .bytes bytes⟩

def verifiedEntry (v : Verified) : Entry := ⟨verifiedName, true, .verified v⟩

def stagingEntry : Entry := ⟨verifiedStaging, true, .bytes []⟩

def logEntry : Entry := ⟨copyName ++ "-wal", true, .bytes []⟩

variable {c : Central} {revision : ℤ} {lineage : AuditLineage} {verification : RecoveryVerification}

/-- The first start up to the rename. -/
theorem copying_run (hread : stopped.audit.readOpenLineage = .ok lineage)
    (hmatches : stopped.audit.preflightExisting c = .ok revision)
    (hverify : verify .plain c = .ok verification) : ∃ labels,
      (machine (quietSqlite c) .plain (· = stopped)).Run stopped labels
        (starting [tagEntry, copyEntry [], stagingEntry]
          (.publishing ⟨"0", revision, verification⟩) none) ∧
      .rename ∉ labels ∧ .failSync ∉ labels := by
  have h₁ : Step (quietSqlite c) .plain stopped .start { stopped with phase := .recovering } :=
    .startHot rfl rfl (.inr ⟨rfl, rfl⟩) (fun _ => rfl) hread
  have h₂ : Step (quietSqlite c) .plain { stopped with phase := .recovering } .enter
    { stopped with phase := .creating } := .create rfl rfl rfl
  have h₃ : Step (quietSqlite c) .plain { stopped with phase := .creating } .mkdir
    (starting [] .tagging none) := .mkdir rfl rfl
  have h₄ : Step (quietSqlite c) .plain (starting [] .tagging none) .tag
    (starting [tagEntry] .copyingMain none) := @Step.tag _ _ _ [] rfl rfl
  have h₅ : Step (quietSqlite c) .plain (starting [tagEntry] .copyingMain none) .copyFile
    (starting [tagEntry, copyEntry [2]] (.copyingWal [2]) none) :=
      @Step.copyMain _ _ _ [tagEntry] [2] rfl rfl rfl
  have h₆ : Step (quietSqlite c) .plain (starting [tagEntry, copyEntry [2]] (.copyingWal [2]) none)
    .copyFile
    (starting [tagEntry, copyEntry [2], logEntry] (.copyingJournal [2] (some [])) none) :=
    @Step.copyWal _ _ _ [tagEntry, copyEntry [2]] [2] rfl rfl
  have h₇ : Step (quietSqlite c) .plain
    (starting [tagEntry, copyEntry [2], logEntry] (.copyingJournal [2] (some [])) none) .copyFile
    (starting [tagEntry, copyEntry [2], logEntry] (.verifying [2] (some []) none) none) :=
    @Step.copyJournal _ _ _ [tagEntry, copyEntry [2], logEntry] [2] (some []) rfl rfl
  have h₈ : Step (quietSqlite c) .plain
    (starting [tagEntry, copyEntry [2], logEntry] (.verifying [2] (some []) none) none)
    (.verifyCopy "0")
    (starting [tagEntry, copyEntry []] (.publishing ⟨"0", revision, verification⟩) none) :=
    @Step.verifyCopy _ _ _ [tagEntry, copyEntry [2], logEntry] [2] []
      (some []) none _ c _ _ rfl rfl rfl rfl
      hmatches hverify
  have h₉ : Step (quietSqlite c) .plain
    (starting [tagEntry, copyEntry []] (.publishing ⟨"0", revision, verification⟩) none) (.stage [])
    (starting [tagEntry, copyEntry [], stagingEntry]
      (.publishing ⟨"0", revision, verification⟩) none) :=
    @Step.stage _ _ _ [tagEntry, copyEntry []] _ [] rfl rfl
  exact ⟨_,
    ((((((((Machine.Run.nil.snoc h₁).snoc h₂).snoc h₃).snoc h₄).snoc h₅).snoc h₆).snoc h₇).snoc
    h₈).snoc h₉, by simp, by simp⟩

/-- A start that finds the marker of the first one. -/
theorem resumed_run {v : Verified} (hread : stopped.audit.readOpenLineage = .ok lineage)
    (hverify : verify .plain c = .ok v.verification)
    (hrequired : c.recoveryAnchor.auditRequired = true)
    (hopen : openProtected stopped.audit c = .ok c) : ∃ labels,
      (machine (quietSqlite c) .plain (· = stopped)).Run
        (starting [tagEntry, copyEntry [], stagingEntry] (.publishing v) none) labels
        (resuming v .absent (.served (some v) c) (stopped.audit.recordCrashRecovery v)) ∧
      .failSync ∉ labels := by
  let entries : List Entry := [tagEntry, copyEntry [], verifiedEntry v]
  let audit : Audit := stopped.audit.recordCrashRecovery v
  have h₁ : Step (quietSqlite c) .plain
    (starting [tagEntry, copyEntry [], stagingEntry] (.publishing v) none) .rename
    (starting entries (.syncing v) (some v)) :=
    @Step.rename _ _ _ [tagEntry, copyEntry [], stagingEntry] v rfl rfl
  have h₂ : Step (quietSqlite c) .plain (starting entries (.syncing v) (some v)) .kill
    (starting entries .idle (some v)) := .kill
  have h₃ : Step (quietSqlite c) .plain (starting entries .idle (some v)) .start
    (starting entries .recovering (some v)) :=
    @Step.startHot _ _ _ [2] _ rfl rfl (.inl rfl) (fun _ => rfl) hread
  have h₄ : Step (quietSqlite c) .plain (starting entries .recovering (some v)) .enter
    (starting entries (.replaying v) (some v)) := .resume rfl rfl rfl rfl
  have h₅ : Step (quietSqlite c) .plain (starting entries (.replaying v) (some v)) .normalize
    (resuming v (.directory entries) (.normalized v) stopped.audit) := .normalize rfl rfl
  have h₆ : Step (quietSqlite c) .plain
    (resuming v (.directory entries) (.normalized v) stopped.audit) .probe
    (resuming v (.directory entries) (.probed v v.verification) stopped.audit) :=
    .probe rfl rfl rfl hverify
  have h₇ : Step (quietSqlite c) .plain
    (resuming v (.directory entries) (.probed v v.verification) stopped.audit) .settle
    (resuming v (.directory entries) (.opening (some v)) stopped.audit) := .settle rfl rfl rfl
  have h₈ : Step (quietSqlite c) .plain
    (resuming v (.directory entries) (.opening (some v)) stopped.audit) .openExisting
    (resuming v (.directory entries) (.admitting (some v)) stopped.audit) :=
    @Step.openExisting _ _ _ _ [] c rfl rfl rfl
  have h₉ : Step (quietSqlite c) .plain
    (resuming v (.directory entries) (.admitting (some v)) stopped.audit) .admitted
    (resuming v (.directory entries) (.recording v c) stopped.audit) :=
    @Step.admitted _ _ _ (some v) c c rfl rfl hrequired hopen
  have h₁₀ : Step (quietSqlite c) .plain
    (resuming v (.directory entries) (.recording v c) stopped.audit) .record
    (resuming v (.directory entries) (.completing v c) audit) := .record rfl
  have h₁₁ : Step (quietSqlite c) .plain
    (resuming v (.directory entries) (.completing v c) audit) (.unlink provenance)
    (resuming v (.directory [copyEntry [], verifiedEntry v]) (.completing v c) audit) :=
    @Step.unlink _ _ _ entries tagEntry rfl rfl List.mem_cons_self
  have h₁₂ : Step (quietSqlite c) .plain
    (resuming v (.directory [copyEntry [], verifiedEntry v]) (.completing v c) audit)
    (.unlink copyName)
    (resuming v (.directory [verifiedEntry v]) (.completing v c) audit) :=
    @Step.unlink _ _ _ [copyEntry [], verifiedEntry v] (copyEntry []) rfl rfl List.mem_cons_self
  have h₁₃ : Step (quietSqlite c) .plain
    (resuming v (.directory [verifiedEntry v]) (.completing v c) audit) (.unlink verifiedName)
    (resuming v (.directory []) (.completing v c) audit) :=
    @Step.unlink _ _ _ [verifiedEntry v] (verifiedEntry v) rfl rfl List.mem_cons_self
  have h₁₄ : Step (quietSqlite c) .plain (resuming v (.directory []) (.completing v c) audit) .rmdir
    (resuming v .absent (.served (some v) c) audit) := .rmdirCompleting rfl rfl
  exact ⟨_, (((((((((((((Machine.Run.nil.snoc h₁).snoc h₂).snoc h₃).snoc h₄).snoc h₅).snoc h₆).snoc
    h₇).snoc h₈).snoc h₉).snoc h₁₀).snoc h₁₁).snoc h₁₂).snoc h₁₃).snoc h₁₄, by simp⟩

/-- A hot start is killed right after the rename, and the next one is served: until the rename the
files are as they were, and the marker goes after its one event. -/
theorem crash_recovery_admission_resumed : ∃ c before after s t v,
    (machine (quietSqlite c) .plain (· = stopped)).Run stopped before s ∧ s.files = stopped.files ∧
    (machine (quietSqlite c) .plain (· = stopped)).Run stopped (before ++ after) t ∧
    t.phase = .served (some v) c ∧ (∃ m, t.files = .standalone m) ∧
    (∃ head, t.audit.head = .ok head ∧ head.snapshot = some (snapshot c)) ∧
    (∃ replayed, verify .plain replayed = .ok v.verification ∧ c = setRequired replayed) ∧
    t.audit.recoveryEvents.count (.crashRecovered v) ≤ 1 ∧
    ∀ action u, Step (quietSqlite c) .plain t action u → t.scratch.marker = some v →
      u.scratch.marker ≠ some v → .crashRecovered v ∈ t.audit.recoveryEvents := by
  obtain ⟨c, hc⟩ : ∃ c, c = setRequired (.baseline "journal") := ⟨_, rfl⟩
  obtain ⟨verification, hverify⟩ : ∃ x, verify .plain c = .ok x := by
    rw [hc]
    exact ⟨_, rfl⟩
  have hopen : openProtected stopped.audit c = .ok c := by
    rw [hc]
    exact openProtected_initial rfl
  have hmatches : ∃ revision, stopped.audit.preflightExisting c = .ok revision := by
    simp only [openProtected, bind_eq_ok] at hopen
    obtain ⟨revision, hmatches, -⟩ := hopen
    exact ⟨revision, hmatches⟩
  obtain ⟨revision, hmatches⟩ := hmatches
  have hread : stopped.audit.readOpenLineage = .ok _ := readOpenLineage_initial _
  have hrequired : c.recoveryAnchor.auditRequired = true := by rw [hc, setRequired_auditRequired]
  obtain ⟨before, hbefore, hrename, hsync⟩ := copying_run hread hmatches hverify
  obtain ⟨after, hafter, hsync'⟩ := resumed_run (v := ⟨"0", revision, verification⟩) hread hverify
    hrequired hopen
  have hstart : (machine (quietSqlite c) .plain (· = stopped)).start stopped := ⟨rfl, rfl⟩
  have hrun := hbefore.append hafter
  obtain ⟨-, hserved, hcompared, hcount, hkept⟩ := crash_recovery_admission hstart hrun
  obtain ⟨-, hstandalone, -, -, head, hhead, -, -, hsnapshot⟩ := hserved _ _ rfl
  refine ⟨c, before, after, _, _, ⟨"0", revision, verification⟩, hbefore, ?_, hrun, rfl,
    hstandalone (by simp), ⟨head, hhead, hsnapshot⟩, hcompared _ _ _ rfl rfl, ?_, ?_⟩
  · refine (crash_recovery_admission hstart hbefore).1 ?_ rfl ?_ hrename
    · rintro m d revision hstopped
      cases hstopped
    · rintro m hstopped
      cases hstopped
  · exact hcount _
  · exact fun action u => hkept (by simp [hsync, hsync']) action u _

/-- A place of a start on a main file without sidecars. -/
def cold (files : Files) (phase : Phase) : State :=
  ⟨files, false, .absent, stopped.audit, phase, none⟩

/-- When the directory sync fails after the rename, the guard removes the marker, and no event tells
of it. A start on a file in WAL mode with another journal is refused and leaves two sidecars. -/
theorem marker_removed_and_sidecars_left :
    (∃ c s s' v, (machine (quietSqlite c) .plain (· = stopped)).Reachable s ∧
      Step (quietSqlite c) .plain s (.unlink verifiedName) s' ∧ s.scratch.marker = some v ∧
      s'.scratch.marker = none ∧ .crashRecovered v ∉ s.audit.recoveryEvents) ∧
    ∃ c labels s, (machine (quietSqlite c) .plain (· = cold (.standalone [2]) .idle)).Run
        (cold (.standalone [2]) .idle) labels s ∧
      Adopted (quietSqlite c) (.standalone [2]) stopped.audit ∧ .rename ∉ labels ∧ s.phase = .idle ∧
      s.files = ⟨some [2], some ⟨[], true⟩, none, some ⟨[0], true⟩⟩ := by
  constructor
  · obtain ⟨c, hc⟩ : ∃ c, c = setRequired (.baseline "journal") := ⟨_, rfl⟩
    obtain ⟨verification, hverify⟩ : ∃ x, verify .plain c = .ok x := by
      rw [hc]
      exact ⟨_, rfl⟩
    have hopen : openProtected stopped.audit c = .ok c := by
      rw [hc]
      exact openProtected_initial rfl
    simp only [openProtected, bind_eq_ok] at hopen
    obtain ⟨revision, hmatches, -⟩ := hopen
    obtain ⟨before, hbefore, -⟩ := copying_run (readOpenLineage_initial _) hmatches hverify
    let v : Verified := ⟨"0", revision, verification⟩
    let entries : List Entry := [tagEntry, copyEntry [], verifiedEntry v]
    have h₁ : Step (quietSqlite c) .plain
      (starting [tagEntry, copyEntry [], stagingEntry] (.publishing v) none) .rename
      (starting entries (.syncing v) (some v)) :=
      @Step.rename _ _ _ [tagEntry, copyEntry [], stagingEntry] v rfl rfl
    have h₂ : Step (quietSqlite c) .plain (starting entries (.syncing v) (some v)) .failSync
      (starting entries .dropping (some v)) := .failSync rfl
    have h₃ : Step (quietSqlite c) .plain (starting entries .dropping (some v))
      (.unlink verifiedName)
      (starting [tagEntry, copyEntry []] .dropping (some v)) :=
      @Step.unlink _ _ _ entries (verifiedEntry v) rfl rfl (by simp [entries])
    have hstart : (machine (quietSqlite c) .plain (· = stopped)).start stopped := ⟨rfl, rfl⟩
    have hreachable :=
      (((Machine.Reachable.of_start hstart).later ⟨before, hbefore⟩).tail h₁).tail h₂
    exact ⟨c, _, _, v, hreachable, h₃, rfl, rfl, by simp [starting, stopped, Audit.initial]⟩
  · have h₁ : Step (quietSqlite (setRequired (.baseline "other"))) .plain
      (cold (.standalone [2]) .idle)
      .start (cold (.standalone [2]) (.opening none)) :=
      .startCold rfl rfl rfl (by simp [cold, Files.hot, Files.standalone])
    have h₂ : Step (quietSqlite (setRequired (.baseline "other"))) .plain
      (cold (.standalone [2]) (.opening none)) .openExisting
      (cold (.standalone [2]) (.admitting none)) := .openExisting rfl rfl rfl
    have h₃ : Step (quietSqlite (setRequired (.baseline "other"))) .plain
      (cold (.standalone [2]) (.admitting none)) (.inspect [0])
      (cold ⟨some [2], some ⟨[], true⟩, none, some ⟨[0], true⟩⟩ (.admitting none)) :=
      .inspect rfl rfl rfl
    have h₄ : Step (quietSqlite (setRequired (.baseline "other"))) .plain
      (cold ⟨some [2], some ⟨[], true⟩, none, some ⟨[0], true⟩⟩ (.admitting none)) .fail
      (cold ⟨some [2], some ⟨[], true⟩, none, some ⟨[0], true⟩⟩ .idle) := .fail rfl
    exact ⟨_, _, _, (((Machine.Run.nil.snoc h₁).snoc h₂).snoc h₃).snoc h₄,
      fun m c revision _ hload _ => Option.some.inj hload ▸ rfl, by simp, rfl, rfl⟩

end Incident

end AgentJournal.CrashRecovery
