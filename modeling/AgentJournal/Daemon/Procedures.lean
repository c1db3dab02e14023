import AgentJournal.Daemon.Ownership

/-! # What the procedures of a server keep to

One specification for each procedure, from the checks of a sidecar to the life of a server.
-/

namespace AgentJournal.Daemon
open Foundation

variable {c : Config} {s : ℕ} {P : Site → Prop}

section Rules

/-- A read: nothing changes, and the reply is of the state it leaves. -/
theorem Spec.read {op : Op} (hP : Stable c s P) (hready : ∀ x, Ready c s op x)
    (hop : ∀ i, op ≠ .unlock i) (hsame : ∀ x y, Effect s op x y → y = x) :
    Spec c s P (perform op) fun a x => P x ∧ (.ok a, x) = c.exec s op x := by
  refine Spec.operation (hP _) (fun x _ _ => hready x) hop ?_
  rintro x a y - hPx heffect - hexec
  obtain rfl := hsame x y heffect
  exact ⟨hPx, hexec⟩

/-- What the others may do is also what the server's own operations do, those that leave the
marker's text alone. -/
theorem own_rely {op : Op} {x y : Site} (hx : Inv c x) (hready : Ready c s op x)
    (h : Effect s op x y)
    (hop : ∀ i, op ≠ .unlock i) (htext : op.writes = false) : Rely c s (fun _ => false) x y where
  toFrame := effect_frame hx hready h s fun _ => hop
  text _ _ m hm := effect_text hready h htext (hx.numbered _ m hm)
  kept _ _ _ _ hguard := by cases hguard

theorem Spec.actStable {op : Op} (hP : Stable c s P) (hready : ∀ x, Inv c x → P x → Ready c s op x)
    (hop : ∀ i, op ≠ .unlock i) (htext : op.writes = false) :
    Spec c s P (perform op) fun _ => P := by
  refine Spec.operation (hP _) hready hop ?_
  intro x a y hx hPx heffect _ _
  exact hP _ x y (own_rely hx (hready x hx hPx) heffect hop htext) hPx

/-- An operation whose error is no matter. -/
theorem attempt_spec {op : Op} (hP : Stable c s P) (hready : ∀ x, Inv c x → P x → Ready c s op x)
    (hop : ∀ i, op ≠ .unlock i) (htext : op.writes = false) :
    Spec c s P (perform op).attempt fun _ => P := by
  intro x hx hPx
  rw [Process.safe_attempt, perform, Process.safe_perform]
  intro y hxy
  have hy := hxy.inv hx
  have hPy := hP _ x y hxy hPx
  refine ⟨hready y hy hPy, fun reply z hexec => ?_⟩
  have heffect := exec_cases hexec
  have hz := own_rely hy (hready y hy hPy) heffect hop htext
  refine ⟨fun _ => ⟨hready y hy hPy, heffect⟩, hz.inv hy, ?_⟩
  exact fun _ _ => hP _ y z hz hPy

theorem stat_spec (hP : Stable c s P) (n : Name) : Spec c s P (perform (.stat n)) fun a x =>
    P x ∧ a = (x.files.entry n).map fun i => (c.identity i, x.files.file i) := by
  have hread : Spec c s P (perform (.stat n)) _ := .read hP (fun _ => trivial) (by simp) ?_
  · refine hread.mono (fun _ h => h) ?_
    rintro a x - ⟨hPx, hexec⟩
    exact ⟨hPx, Except.ok.inj (congrArg Prod.fst hexec)⟩
  · rintro x y ⟨⟩
    rfl

theorem fstat_spec (hP : Stable c s P) (i : ℕ) : Spec c s P (perform (.fstat i)) fun a x =>
    P x ∧ a = (c.identity i, x.files.file i) := by
  have hread : Spec c s P (perform (.fstat i)) _ := .read hP (fun _ => trivial) (by simp) ?_
  · refine hread.mono (fun _ h => h) ?_
    rintro a x - ⟨hPx, hexec⟩
    exact ⟨hPx, Except.ok.inj (congrArg Prod.fst hexec)⟩
  · rintro x y ⟨⟩
    rfl

end Rules

section Sidecars

theorem validatePrivateFileMetadata_spec (hP : Stable c s P) (path : Name)
    (identity : ArtifactIdentity) (node : Node) (maxBytes : ℕ) :
    Spec c s P (validatePrivateFileMetadata path identity node maxBytes) fun a x =>
      P x ∧ a = identity := by
  refine .bind (.require fun x _ h _ => h) fun _ => .bind (.require fun x _ h _ => h) fun _ =>
    .bind (.require fun x _ h _ => h) fun _ => .bind (stat_spec hP path) fun reply => ?_
  match reply with
  | none => exact .fail
  | some (pathIdentity, pathNode) =>
    refine .bind (R := fun _ => P) (.require fun x _ h _ => h.1) fun _ => ?_
    exact .pure fun x _ h => ⟨h, rfl⟩

theorem validateOpenPrivateFile_spec (hP : Stable c s P) (path : Name) (file : ℕ) :
    Spec c s P (validateOpenPrivateFile path file) fun a x => P x ∧ a = c.identity file := by
  refine .bind (fstat_spec hP file) fun opened => ?_
  obtain ⟨openIdentity, openNode⟩ := opened
  refine .bind (R := fun a x => P x ∧ a = c.identity file) ?_ fun identity => ?_
  · intro x hx hPx
    obtain ⟨hPx, heq⟩ := hPx
    obtain rfl : openIdentity = c.identity file := congrArg Prod.fst heq
    exact validatePrivateFileMetadata_spec hP path _ openNode _ x hx hPx
  · refine .bind (R := fun _ x => P x ∧ identity = c.identity file) ?_ fun again => ?_
    · have hand : Stable c s fun x => P x ∧ identity = c.identity file :=
        hP.and fun _ _ _ _ h => h
      exact (fstat_spec hand file).mono (fun _ h => h) fun _ _ _ h => h.1
    · exact .bind (.require fun x _ h _ => h) fun _ => .pure fun x _ h => h

theorem verify_spec (hP : Stable c s P) (lock : OwnerLock) : Spec c s P lock.verify fun _ => P :=
  .bind (validateOpenPrivateFile_spec hP _ _) fun _ => .require fun _ _ h _ => h.1

theorem sidecarExists_spec (hP : Stable c s P) (path : Name) :
    Spec c s P (sidecarExists path) fun _ => P := by
  refine .bind (stat_spec hP path) fun reply => ?_
  match reply with
  | none => exact .pure fun _ _ h => h.1
  | some (identity, node) =>
    have hvalidate := validatePrivateFileMetadata_spec hP path identity node adminArtifactMaxBytes
    exact .bind (hvalidate.mono (fun _ h => h.1) fun _ _ _ h => h.1) fun _ => .pure fun _ _ h => h

theorem openSidecar_spec (hP : Stable c s P) {path : Name} (hpath : c.isSidecar path)
    (there : Bool) :
    Spec c s P (openSidecar path there) fun a x =>
      P x ∧ ∀ i, a = some i → x.files.entry path = some i := by
  cases there with
  | true =>
    refine .bind (R := fun i x => P x ∧ x.files.entry path = some i) ?_ fun i => ?_
    · have hread : Spec c s P (perform (.openFile path)) _ :=
        .read hP (fun _ => trivial) (by simp) ?_
      · refine hread.mono (fun _ h => h) ?_
        rintro i x - ⟨hPx, hexec⟩
        refine ⟨hPx, ?_⟩
        simp only [Config.exec] at hexec
        split at hexec
        · cases hexec
        · rename_i j hentry
          cases hexec
          exact hentry
      · rintro x y ⟨⟩
        rfl
    · refine .pure fun x _ h => ⟨h.1, ?_⟩
      rintro j ⟨⟩
      exact h.2
  | false =>
    refine Spec.operation (hP _) (fun _ _ _ => hpath) (by simp) ?_
    intro x a y hx hPx heffect _ hexec
    have hready : Ready c s (.createNew path) x := hpath
    refine ⟨hP _ x y (own_rely hx hready heffect (by simp) rfl) hPx, ?_⟩
    rintro i rfl
    simp only [Config.exec] at hexec
    split at hexec
    · cases hexec
    · split at hexec
      · cases hexec
        simp
      · cases hexec

theorem entry_steady {path : Name} (hpath : c.isSidecar path) (i : ℕ) :
    Steady c s fun x => x.files.entry path = some i :=
  fun _ _ hxy h => hxy.sidecars path i hpath h

/-- The owner lock, opened and locked. -/
def LockOf (c : Config) (s : ℕ) (lock : OwnerLock) (x : Site) : Prop :=
  lock.identity = c.identity lock.file ∧ Locked c s lock.file x

theorem lockOf_steady (lock : OwnerLock) : Steady c s (LockOf c s lock) :=
  fun x y hxy h => ⟨h.1, locked_steady x y hxy h.2⟩

theorem openOwnerLock_spec (attempts : ℕ) :
    Spec c s (fun _ => True) (openOwnerLock c.lockName attempts) (LockOf c s) := by
  have htrue : Stable c s fun _ => True := fun _ _ _ _ h => h
  induction attempts with
  | zero => exact .fail
  | succ attempts ih =>
    refine .bind (sidecarExists_spec htrue _) fun there => ?_
    refine .bind (openSidecar_spec htrue (.inl rfl) there) fun opened => ?_
    match opened with
    | none => exact ih.mono (fun _ _ => trivial) fun _ _ _ h => h
    | some file =>
      have hentry : Steady c s fun x => x.files.entry c.lockName = some file :=
        entry_steady (.inl rfl) file
      refine .bind (R := fun a x => x.files.entry c.lockName = some file ∧ a = c.identity file)
        ((validateOpenPrivateFile_spec hentry.stable _ _).mono (fun x h => h.2 file rfl)
          fun _ _ _ h => h) fun identity => ?_
      refine .bind (R := fun _ x => LockOf c s ⟨c.lockName, file, identity⟩ x) ?_ fun _ => ?_
      · refine Spec.operation (fun x y hxy h => ⟨hentry x y hxy.toFrame h.1, h.2⟩)
          (fun x _ h => h.1) (by simp) ?_
        intro x a y hx hPx heffect _ hexec
        refine ⟨hPx.2, ?_⟩
        simp only [Config.exec] at hexec
        split at hexec
        · cases hexec
          exact ⟨hPx.1, by simp⟩
        · cases hexec
      · refine .bind (verify_spec (lockOf_steady _).stable _) fun _ => ?_
        exact .pure fun x _ h => h

end Sidecars

section Markers

/-- The marker, opened under the owner lock. -/
def MarkerOf (c : Config) (s : ℕ) (lock : OwnerLock) (marker : MarkerFile) (x : Site) : Prop :=
  LockOf c s lock x ∧ marker.identity = c.identity marker.file ∧
    x.files.entry c.markerPath = some marker.file

/-- The marker reads as this state. -/
def ReadsAs (c : Config) (s : ℕ) (lock : OwnerLock) (marker : MarkerFile) (state : MarkerState)
    (x : Site) : Prop :=
  MarkerOf c s lock marker x ∧ parseMarker (x.files.file marker.file).text = .ok state

variable {lock : OwnerLock} {marker : MarkerFile} {state : MarkerState}

theorem markerOf_steady : Steady c s (MarkerOf c s lock marker) := fun x y hxy h =>
  ⟨lockOf_steady lock x y hxy h.1, h.2.1, hxy.sidecars _ _ (.inr rfl) h.2.2⟩

theorem MarkerOf.marked {x : Site} (h : MarkerOf c s lock marker x) :
    Marked c s lock.file marker.file x := ⟨h.1.2, h.2.2⟩

theorem text_stable {text : Text} : Stable c s fun x =>
    MarkerOf c s lock marker x ∧ (x.files.file marker.file).text = text := fun _ x y hxy h =>
  ⟨markerOf_steady x y hxy.toFrame h.1, (hxy.text _ h.1.1.2.holder _ h.1.2.2).trans h.2⟩

theorem readsAs_stable : Stable c s (ReadsAs c s lock marker state) := fun _ x y hxy h => by
  refine ⟨markerOf_steady x y hxy.toFrame h.1, ?_⟩
  rw [hxy.text _ h.1.1.2.holder _ h.1.2.2]
  exact h.2

theorem backed_steady : Steady c s fun x => Backed c x state := fun _ _ hxy h =>
  h.frame (fun i hi => hxy.sidecars _ i (.inl rfl) hi) hxy.next hxy.nodes

theorem Backed.valid {x : Site} (hx : Inv c x) (h : Backed c x state) : state.Valid := by
  intro ownerLock identity hrecorded
  obtain ⟨⟨l, hl, rfl⟩, i, rfl, hi, -⟩ := h ownerLock identity hrecorded
  exact ⟨Config.identity_valid ((hx.numbered _ l hl).trans_le hx.bounded),
    Config.identity_valid (hi.trans_le hx.bounded)⟩

theorem writeState_spec (hP : Steady c s P) :
    Spec c s (fun x => P x ∧ MarkerOf c s lock marker x ∧ Backed c x state)
      (marker.writeState state lock) fun _ x => P x ∧ ReadsAs c s lock marker state x := by
  have hK : Steady c s fun x => P x ∧ MarkerOf c s lock marker x ∧ Backed c x state :=
    hP.and (markerOf_steady.and backed_steady)
  refine .bind (R := fun bytes x => (P x ∧ MarkerOf c s lock marker x ∧ Backed c x state) ∧
    markerBytes state = .ok bytes) (.ofExcept fun bytes x hbytes _ h => ⟨h, hbytes⟩) fun bytes => ?_
  have hB : Steady c s fun x => (P x ∧ MarkerOf c s lock marker x ∧ Backed c x state) ∧
      markerBytes state = .ok bytes := hK.and fun _ _ _ h => h
  have hT : ∀ text, Stable c s fun x => ((P x ∧ MarkerOf c s lock marker x ∧ Backed c x state) ∧
      markerBytes state = .ok bytes) ∧ (x.files.file marker.file).text = text :=
    fun text g x y hxy h =>
      ⟨hB x y hxy.toFrame h.1, (text_stable g x y hxy ⟨h.1.1.2.1, h.2⟩).2⟩
  refine .bind (.require fun _ _ h _ => h) fun _ => .bind (verify_spec hB.stable _) fun _ =>
    .bind (validateOpenPrivateFile_spec hB.stable _ _) fun _ => .bind (.require fun _ _ h _ => h.1)
      fun _ => .bind (verify_spec hB.stable _) fun _ => ?_
  refine .bind (R := fun _ x => ((P x ∧ MarkerOf c s lock marker x ∧ Backed c x state) ∧
    markerBytes state = .ok bytes) ∧ (x.files.file marker.file).text = []) ?_ fun _ => ?_
  · have hready : ∀ x, Inv c x → (P x ∧ MarkerOf c s lock marker x ∧ Backed c x state) ∧
        markerBytes state = .ok bytes → Ready c s (.truncate marker.file) x := fun x _ h =>
      ⟨_, h.1.2.1.marked⟩
    refine .operation (fun x y hxy => hB x y hxy.toFrame) hready (by simp) ?_
    intro x a y hx h heffect _ hexec
    refine ⟨hB x y (effect_frame hx (hready x hx h) heffect s fun _ => by simp) h, ?_⟩
    cases hexec
    simp [Site.setNode]
  refine .bind (R := fun _ x => ((P x ∧ MarkerOf c s lock marker x ∧ Backed c x state) ∧
    markerBytes state = .ok bytes) ∧ (x.files.file marker.file).text = bytes) ?_ fun _ => ?_
  · have hready : ∀ x, Inv c x → ((P x ∧ MarkerOf c s lock marker x ∧ Backed c x state) ∧
        markerBytes state = .ok bytes) ∧ (x.files.file marker.file).text = [] →
        Ready c s (.write marker.file bytes) x := fun x hx h =>
      ⟨⟨_, h.1.1.2.1.marked⟩, h.2, state, h.1.1.2.2.valid hx, h.1.2, h.1.1.2.2⟩
    refine .operation (hT [] _) hready (by simp) ?_
    intro x a y hx h heffect _ hexec
    refine ⟨hB x y (effect_frame hx (hready x hx h) heffect s fun _ => by simp) h.1, ?_⟩
    cases hexec
    simp [Site.overwrite, Site.setNode, h.2]
  have hbytes := hT bytes
  refine .bind (.actStable hbytes (fun _ _ _ => trivial) (by simp) rfl) fun _ =>
    .bind (.actStable hbytes (fun _ _ _ => trivial) (by simp) rfl) fun _ =>
    .bind (verify_spec hbytes _) fun _ => .bind (validateOpenPrivateFile_spec hbytes _ _) fun _ =>
      ?_
  refine .require fun x hx h _ => ?_
  obtain ⟨⟨⟨⟨hPx, hmarker, hbacked⟩, htext⟩, heq⟩, -⟩ := h
  refine ⟨hPx, hmarker, ?_⟩
  rw [heq]
  exact parseMarker_markerBytes (hbacked.valid hx) htext
    (length_markerBytes (hbacked.valid hx) htext)

theorem backed_empty {x : Site} : Backed c x .empty := fun _ _ h => by cases h

theorem openMarker_spec (attempts : ℕ) : Spec c s (LockOf c s lock)
    (openMarker c.markerPath lock attempts) fun a => ReadsAs c s lock a.1 a.2 := by
  have hlock := (lockOf_steady (c := c) (s := s) lock)
  induction attempts with
  | zero => exact .fail
  | succ attempts ih =>
    refine .bind (sidecarExists_spec hlock.stable _) fun there => ?_
    refine .bind (openSidecar_spec hlock.stable (.inr rfl) there) fun opened => ?_
    match opened with
    | none => exact ih.mono (fun _ h => h.1) fun _ _ _ h => h
    | some file =>
      have hentry : Steady c s fun x => LockOf c s lock x ∧
        x.files.entry c.markerPath = some file :=
        hlock.and (entry_steady (.inr rfl) file)
      refine .bind (R := fun identity x => (LockOf c s lock x ∧
          x.files.entry c.markerPath = some file) ∧ identity = c.identity file)
        ((validateOpenPrivateFile_spec hentry.stable _ _).mono (fun x h => ⟨h.1, h.2 file rfl⟩)
          fun _ _ _ h => h) fun identity => ?_
      have hmarkerOf : ∀ x, (LockOf c s lock x ∧ x.files.entry c.markerPath = some file) ∧
          identity = c.identity file → MarkerOf c s lock ⟨c.markerPath, file, identity⟩ x :=
        fun x h => ⟨h.1.1, h.2, h.1.2⟩
      cases there with
      | true =>
        refine .bind (R := fun bytes x => MarkerOf c s lock ⟨c.markerPath, file, identity⟩ x ∧
          bytes = (x.files.file file).text) ?_ fun bytes => ?_
        · have hread : Spec c s (MarkerOf c s lock ⟨c.markerPath, file, identity⟩)
              (perform (.read file)) _ :=
            .read markerOf_steady.stable (fun _ => trivial) (by simp) (by rintro x y ⟨⟩; rfl)
          refine hread.mono hmarkerOf ?_
          rintro a x hx ⟨hmarker, hexec⟩
          refine ⟨hmarker, (Except.ok.inj (congrArg Prod.fst hexec)).trans ?_⟩
          refine List.take_of_length_le (Nat.le_succ_of_le ?_)
          exact (hx.sidecar _ file (.inr rfl) hmarker.2.2).2.1
        · refine .bind (R := fun state x => ReadsAs c s lock ⟨c.markerPath, file, identity⟩ state x)
            (.ofExcept fun state x hparse _ h => ⟨h.1, h.2 ▸ hparse⟩) fun state => ?_
          exact .pure fun _ _ h => h
      | false =>
        refine .bind (R := fun _ => ReadsAs c s lock ⟨c.markerPath, file, identity⟩ .empty) ?_
          fun _ => .pure fun _ _ h => h
        have hwrite : Spec c s _
          (Sidecar.writeState ⟨c.markerPath, file, identity⟩ .empty lock) _ :=
          writeState_spec fun _ _ _ (h : True) => h
        exact hwrite.mono (fun x h => ⟨trivial, hmarkerOf x h, backed_empty⟩) fun _ _ _ h => h.2

end Markers

section Sockets
variable {lock : OwnerLock} {marker : MarkerFile} {state : MarkerState}
  {expected : ArtifactIdentity}

theorem removeOwned_spec (hP : Stable c s P) {path : Name} (hpath : ¬ c.isSidecar path)
    (hrecorded : state.recorded = some (lock.identity, expected)) :
    Spec c s (fun x => ReadsAs c s lock marker state x ∧ P x) (removeOwned lock path expected)
      fun _ x => ReadsAs c s lock marker state x ∧ P x := by
  have hK : Stable c s fun x => ReadsAs c s lock marker state x ∧ P x := readsAs_stable.and hP
  refine .bind (verify_spec hK _) fun _ => .bind (stat_spec hK path) fun first => ?_
  match first with
  | none => exact .pure fun _ _ h => h.1
  | some actual =>
    refine .bind (.require fun _ _ h _ => h.1) fun _ => .bind (verify_spec hK _) fun _ =>
      .bind (stat_spec hK path) fun second => ?_
    match second with
    | none => exact .pure fun _ _ h => h.1
    | some actual =>
      refine .bind (R := fun _ x => (ReadsAs c s lock marker state x ∧ P x) ∧
        ∃ i, x.files.entry path = some i ∧ expected = c.identity i) ?_ fun _ => ?_
      · refine .require fun x _ h hc => ⟨h.1, ?_⟩
        obtain ⟨i, hi, hactual⟩ := Option.map_eq_some_iff.mp h.2.symm
        refine ⟨i, hi, ?_⟩
        rw [← hc.2, ← hactual]
      refine .bind (R := fun _ x => ReadsAs c s lock marker state x ∧ P x) ?_ fun _ =>
        .pure fun _ _ h => h
      have hready : ∀ x, Inv c x → ((ReadsAs c s lock marker state x ∧ P x) ∧
          ∃ i, x.files.entry path = some i ∧ expected = c.identity i) →
          Ready c s (.unlink path) x := by
        rintro x - ⟨⟨⟨hmarker, hparse⟩, -⟩, i, hi, hid⟩
        refine ⟨hpath, lock.file, marker.file, state, i, ⟨hmarker.marked, hparse⟩, hi, ?_⟩
        rw [hrecorded, hmarker.1.1, hid]
      refine .operation ?_ hready (by simp) ?_
      · rintro x y hxy ⟨h, i, hi, hid⟩
        refine ⟨hK _ x y hxy h, i, ?_, hid⟩
        exact hxy.kept _ h.1.1.1.2.holder path i (by simp [Op.guards]) hi
      · intro x a y hx h heffect _ _
        exact hK _ x y (own_rely hx (hready x hx h) heffect (by simp) rfl) h.1

theorem checkOwned_spec (hP : Stable c s P) (path : Name) :
    Spec c s P (checkOwned expected path) fun _ => P := by
  refine .bind (stat_spec hP path) fun reply => ?_
  match reply with
  | none => exact .pure fun _ _ h => h.1
  | some actual => exact .require fun _ _ h _ => h.1

theorem recoverNamed_spec {recordedLock identity : ArtifactIdentity} {pendingName : Option Name}
    (hrecorded : state.recorded = some (recordedLock, identity)) :
    Spec c s (ReadsAs c s lock marker state)
      (recoverNamed c lock marker recordedLock identity pendingName)
      fun _ => ReadsAs c s lock marker .empty := by
  have hK : Stable c s (ReadsAs c s lock marker state) := readsAs_stable
  have htrue : Stable c s fun _ => True := fun _ _ _ _ h => h
  refine .bind (R := fun _ x => ReadsAs c s lock marker state x ∧ recordedLock = lock.identity)
    (.require fun _ _ h hc => ⟨h, hc⟩) fun _ => ?_
  refine .bind (R := fun _ x => ReadsAs c s lock marker state x ∧ recordedLock = lock.identity)
    (.require fun _ _ h _ => h) fun _ => ?_
  refine .bind (R := fun _ x => ReadsAs c s lock marker state x ∧ recordedLock = lock.identity ∧
    ∀ name ∈ pendingName, name.length ≤ c.final.length)
    (.require fun _ _ h hc => ⟨h.1, h.2, hc⟩) fun _ => ?_
  intro x hx hPx
  obtain ⟨hreads, rfl, hbudget⟩ := hPx
  have hfinal : ¬ c.isSidecar c.final := Config.not_isSidecar le_rfl
  have hwrite : Spec c s (ReadsAs c s lock marker state) (do
      perform .sync
      marker.writeState .empty lock) fun _ => ReadsAs c s lock marker .empty := by
    refine .bind (.actStable hK (fun _ _ _ => trivial) (by simp) rfl) fun _ => ?_
    have hstate : Spec c s _ (marker.writeState .empty lock) _ :=
      writeState_spec fun _ _ _ (h : True) => h
    exact hstate.mono (fun x h => ⟨trivial, h.1, backed_empty⟩) fun _ _ _ h => h.2
  have hremove : ∀ (name : Name) (rest : Task Unit), ¬ c.isSidecar name →
      Spec c s (ReadsAs c s lock marker state) rest (fun _ => ReadsAs c s lock marker .empty) →
      Spec c s (ReadsAs c s lock marker state) (do
        let _ ← removeOwned lock name identity
        rest) fun _ => ReadsAs c s lock marker .empty := by
    intro name rest hname hrest
    refine .bind (R := fun _ => ReadsAs c s lock marker state) ?_ fun _ => hrest
    exact (removeOwned_spec htrue hname hrecorded).mono (fun _ h => ⟨h, trivial⟩) fun _ _ _ h => h.1
  refine (Spec.bind (checkOwned_spec hK _) fun _ => ?_) x hx hreads
  cases pendingName with
  | none => exact hremove c.final _ hfinal hwrite
  | some name =>
    have hname : ¬ c.isSidecar name := Config.not_isSidecar (hbudget name rfl)
    exact .bind (checkOwned_spec hK _) fun _ =>
      hremove c.final _ hfinal (hremove name _ hname hwrite)

theorem recoverMarker_spec : Spec c s (ReadsAs c s lock marker state)
    (recoverMarker c lock marker state) fun _ => ReadsAs c s lock marker .empty := by
  refine .bind (verify_spec readsAs_stable _) fun _ => ?_
  match state with
  | .empty =>
    refine .bind (stat_spec readsAs_stable _) fun reply => ?_
    match reply with
    | some _ => exact .fail
    | none => exact .pure fun _ _ h => h.1
  | .pending recordedLock identity name => exact recoverNamed_spec rfl
  | .published recordedLock identity name => exact recoverNamed_spec rfl

theorem pendingCandidate_length {index maxBytes : ℕ} {name : Name}
    (h : pendingCandidate index maxBytes = some name) : name.length ≤ maxBytes := by
  simp only [pendingCandidate] at h
  split at h
  · cases h
  · rename_i hlength
    cases h
    exact Nat.not_lt.mp fun hlt => hlength (.inl hlt)

/-- A socket that a server bound, under the name it was bound to. -/
def BoundAs (c : Config) (bound : Name × ArtifactIdentity) (x : Site) : Prop :=
  bound.1.length ≤ c.final.length ∧ ∃ i, bound.2 = c.identity i ∧ Bound c i x

theorem boundAs_steady (bound : Name × ArtifactIdentity) : Steady c s (BoundAs c bound) := by
  rintro x y hxy ⟨hlength, i, hid, hbound⟩
  exact ⟨hlength, i, hid, bound_steady x y hxy hbound⟩

theorem bindPending_spec (hP : Stable c s P) (hheld : ∀ x, P x → ∃ l, Locked c s l x) (left : ℕ) :
    ∀ index, Spec c s P (bindPending c left index) fun bound x => P x ∧ BoundAs c bound x := by
  induction left with
  | zero => exact fun _ => .fail
  | succ left ih =>
    intro index
    unfold bindPending
    split
    · exact .fail
    · rename_i name hname
      have hlength := pendingCandidate_length hname
      have hsidecar := Config.not_isSidecar hlength
      split
      · exact ih _
      refine .bind (stat_spec hP name) fun reply => ?_
      cases reply with
      | some _ => exact (ih _).mono (fun _ h => h.1) fun _ _ _ h => h
      | none =>
        refine .bind (R := fun b x => P x ∧ (b = true → ∃ i, x.files.entry name = some i ∧
          Bound c i x)) ?_ fun b => ?_
        · have hbind : Spec c s P (perform (.bind name)) fun b x => P x ∧ (b = true →
              ∃ i, x.files.entry name = some i ∧ Bound c i x) := by
            refine .operation (hP _) (fun _ _ _ => hsidecar) (by simp) ?_
            intro x b y hx hPx heffect _ hexec
            have hready : Ready c s (.bind name) x := hsidecar
            refine ⟨hP _ x y (own_rely hx hready heffect (by simp) rfl) hPx, ?_⟩
            rintro rfl
            simp only [Config.exec] at hexec
            split at hexec
            · cases hexec
            · split at hexec
              · cases hexec
                exact ⟨x.files.next, by simp, Nat.lt_succ_self _, by simp, by simp⟩
              · cases hexec
          exact hbind.mono (fun _ h => h.1) fun _ _ _ h => h
        cases b with
        | false => exact (ih _).mono (fun _ h => h.1) fun _ _ _ h => h
        | true =>
          refine .bind (R := fun reply x => P x ∧ ∃ i, Bound c i x ∧
            reply = some (c.identity i, x.files.file i)) ?_ fun reply => ?_
          · refine .operation (P := fun x => P x ∧ (true = true → ∃ i, x.files.entry name = some i ∧
              Bound c i x)) ?_ (fun _ _ _ => trivial) (by simp) ?_
            · -- Nobody replaces the path between `bind` and this operation.
              rintro x y hxy ⟨hPx, hentry⟩
              obtain ⟨i, hi, hbound⟩ := hentry rfl
              obtain ⟨l, hlocked⟩ := hheld x hPx
              exact ⟨hP _ x y hxy hPx, fun _ => ⟨i, hxy.kept l hlocked.holder name i
                (by simp [Op.guards]) hi, bound_steady x y hxy.toFrame hbound⟩⟩
            · rintro x reply y - ⟨hPx, hentry⟩ - - hexec
              obtain ⟨i, hi, hbound⟩ := hentry rfl
              cases hexec
              exact ⟨hPx, i, hbound, by rw [hi]; rfl⟩
          cases reply with
          | none => exact .fail
          | some found =>
            obtain ⟨identity, node⟩ := found
            refine .bind (R := fun _ x => P x ∧ BoundAs c (name, identity) x) ?_ fun _ =>
              .pure fun _ _ h => h
            refine .require fun x _ h _ => ?_
            obtain ⟨hPx, i, hbound, hreply⟩ := h
            obtain rfl := congrArg Prod.fst (Option.some.inj hreply)
            exact ⟨hPx, hlength, i, rfl, hbound⟩

theorem publishPending_spec {bound : Name × ArtifactIdentity} :
    Spec c s (fun x => ReadsAs c s lock marker state x ∧ BoundAs c bound x)
      (publishPending c lock marker bound.1 bound.2) fun guard x =>
        guard = ⟨c.final, marker, lock, bound.2⟩ ∧ BoundAs c bound x ∧
          ReadsAs c s lock marker (.published lock.identity bound.2 none) x := by
  have hfinal : ¬ c.isSidecar c.final := Config.not_isSidecar le_rfl
  have hK : ∀ state, Stable c s fun x => ReadsAs c s lock marker state x ∧ BoundAs c bound x :=
    fun state => readsAs_stable.and (boundAs_steady bound).stable
  have hbacked : ∀ state, state.recorded = some (lock.identity, bound.2) → ∀ x,
      MarkerOf c s lock marker x → BoundAs c bound x → Backed c x state := by
    rintro state hrecorded x hmarker ⟨-, i, hid, hi⟩ ownerLock identity h
    rw [hrecorded] at h
    obtain ⟨rfl, rfl⟩ := Prod.mk.inj (Option.some.inj h)
    exact ⟨⟨lock.file, hmarker.1.2.entry, hmarker.1.1⟩, i, hid, hi.lt, hi.kind, hi.maker⟩
  have hwrite : ∀ before after, after.recorded = some (lock.identity, bound.2) →
      Spec c s (fun x => ReadsAs c s lock marker before x ∧ BoundAs c bound x)
        (marker.writeState after lock) fun _ x =>
          ReadsAs c s lock marker after x ∧ BoundAs c bound x := by
    intro before after hrecorded
    refine (writeState_spec (boundAs_steady bound)).mono ?_ fun _ _ _ h => ⟨h.2, h.1⟩
    exact fun x h => ⟨h.2, h.1.1, hbacked after hrecorded x h.1.1 h.2⟩
  have hready : ∀ state x, Inv c x → ReadsAs c s lock marker state x ∧ BoundAs c bound x →
      ¬ c.isSidecar bound.1 := fun _ _ _ h => Config.not_isSidecar h.2.1
  refine .bind (verify_spec (hK _) _) fun _ =>
    .bind (.actStable (hK _) (hready state) (by simp) rfl)
    fun _ => .bind (hwrite state (.pending lock.identity bound.2 bound.1) rfl) fun _ =>
    .bind (verify_spec (hK _) _) fun _ => ?_
  refine .bind
    (.actStable (hK _) (fun x hx h => ⟨⟨_, h.1.1.1.2⟩, hready _ x hx h, hfinal⟩) (by simp)
    rfl) fun _ => .bind (.actStable (hK _) (fun _ _ _ => trivial) (by simp) rfl) fun _ =>
    .bind (hwrite _ (.published lock.identity bound.2 (some bound.1)) rfl) fun _ => ?_
  refine .bind (R := fun _ x => ReadsAs c s lock marker
    (.published lock.identity bound.2 (some bound.1)) x ∧ BoundAs c bound x) ?_ fun _ => ?_
  · intro x hx h
    exact removeOwned_spec (boundAs_steady bound).stable (hready _ x hx h) rfl x hx h
  refine .bind (.actStable (hK _) (fun _ _ _ => trivial) (by simp) rfl) fun _ =>
    .bind (R := fun _ x => ReadsAs c s lock marker (.published lock.identity bound.2 none) x ∧
      BoundAs c bound x) (hwrite _ _ rfl) fun _ => ?_
  exact .pure fun x _ h => ⟨rfl, h.2, h.1⟩

/-- A published socket: the marker names it under the lock that the server holds. -/
def GuardOf (c : Config) (s : ℕ) (guard : AdminSocketGuard) (x : Site) : Prop :=
  guard.path = c.final ∧
    ReadsAs c s guard.ownerLock guard.marker
    (.published guard.ownerLock.identity guard.identity none) x

theorem guardOf_stable (guard : AdminSocketGuard) : Stable c s (GuardOf c s guard) :=
  fun g x y hxy h => ⟨h.1, readsAs_stable g x y hxy h.2⟩

theorem bindAdminListener_spec :
    Spec c s (fun _ => True) (bindAdminListener c) (GuardOf c s) := by
  refine .bind (R := fun _ _ => True) (.require fun _ _ _ _ => trivial) fun _ =>
    .bind (openOwnerLock_spec 2) fun lock => .bind (openMarker_spec 2) fun opened => ?_
  obtain ⟨marker, state⟩ := opened
  refine .bind recoverMarker_spec fun _ => ?_
  refine .bind (bindPending_spec readsAs_stable (fun _ h => ⟨_, h.1.1.2⟩) _ 0) fun bound => ?_
  refine publishPending_spec.mono (fun _ h => h) ?_
  rintro guard x - ⟨rfl, -, hreads⟩
  exact ⟨rfl, hreads⟩

theorem unlock_spec (i : ℕ) :
    Spec c s P (perform (.unlock i)).attempt fun _ _ => True := by
  refine .attempt ?_ fun _ _ _ => trivial
  intro x hx hPx
  rw [perform, Process.safe_perform]
  intro y hxy
  have hy := hxy.inv hx
  refine ⟨trivial, fun reply z hexec => ?_⟩
  have heffect := exec_cases hexec
  have hready : Ready c s (.unlock i) y := trivial
  have hz := (effect_frame hy hready heffect (s + 1) fun heq => absurd heq (by simp)).inv hy
  exact ⟨fun _ => ⟨trivial, heffect⟩, hz, fun _ _ => trivial⟩

theorem drop_spec (guard : AdminSocketGuard) :
    Spec c s (GuardOf c s guard) guard.drop fun _ _ => True := by
  have hend : Spec c s (fun _ => True) (do
      let _ ← (perform (.unlock guard.ownerLock.file)).attempt
      pure ()) fun _ _ => True :=
    .bind (unlock_spec _) fun _ => .pure fun _ _ _ => trivial
  refine .bind (R := fun r x => (∃ u, r = .ok u) → GuardOf c s guard x)
    (.attempt ((verify_spec (guardOf_stable guard) _).mono (fun _ h => h) fun _ _ _ h _ => h) ?_)
    fun verified => ?_
  · rintro e x - ⟨u, hu⟩
    cases hu
  match verified with
  | .error _ => exact hend.mono (fun _ _ => trivial) fun _ _ _ h => h
  | .ok _ =>
    have hremove : Spec c s (GuardOf c s guard)
        (removeOwned guard.ownerLock guard.path guard.identity) fun _ x => GuardOf c s guard x := by
      intro x hx h
      have hpath : ¬ c.isSidecar guard.path := by
        rw [h.1]
        exact Config.not_isSidecar le_rfl
      have hspec : Spec c s (fun x => ReadsAs c s guard.ownerLock guard.marker
          (.published guard.ownerLock.identity guard.identity none) x ∧ guard.path = c.final)
          (removeOwned guard.ownerLock guard.path guard.identity) _ :=
        removeOwned_spec (fun _ _ _ _ h => h) hpath rfl
      exact (hspec x hx h.symm).mono fun r y hy => ⟨hy.1, fun a ha => (hy.2 a ha).symm⟩
    refine .bind (R := fun r x => (∃ b, r = .ok b) → GuardOf c s guard x)
      (.attempt (hremove.mono (fun _ h => h ⟨_, rfl⟩) fun _ _ _ h _ => h) ?_) fun removed => ?_
    · rintro e x - ⟨u, hu⟩
      cases hu
    match removed with
    | .ok true =>
      have hsync : Spec c s (GuardOf c s guard) (perform .sync).attempt _ :=
        attempt_spec (guardOf_stable guard) (fun _ _ _ => trivial) (by simp) rfl
      refine .bind (R := fun _ => GuardOf c s guard)
        (hsync.mono (fun _ h => h ⟨_, rfl⟩) fun _ _ _ h => h) fun _ => ?_
      refine .bind (R := fun _ _ => True) (.attempt ?_ fun _ _ _ => trivial) fun _ => hend
      have hwrite : Spec c s _ (guard.marker.writeState .empty guard.ownerLock) _ :=
        writeState_spec fun _ _ _ (h : True) => h
      exact hwrite.mono (fun x h => ⟨trivial, h.2.1, backed_empty⟩) fun _ _ _ _ => trivial
    | .ok false => exact hend.mono (fun _ _ => trivial) fun _ _ _ h => h
    | .error _ => exact hend.mono (fun _ _ => trivial) fun _ _ _ h => h

theorem server_spec : Spec c s (fun _ => True) (server c) fun _ _ => True := by
  refine .bind bindAdminListener_spec fun guard => .bind (R := fun _ => GuardOf c s guard) ?_
    fun _ => drop_spec guard
  exact attempt_spec (guardOf_stable guard) (fun x _ h => ⟨_, h.2.1.1.2⟩) (by simp) rfl

end Sockets

end AgentJournal.Daemon
