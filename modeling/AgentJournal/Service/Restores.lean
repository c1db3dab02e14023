import AgentJournal.Service.Store

/-! # What a restore keeps and what it fences

Any committed content of the journal can be merged with the newest snapshot, the merge keeps
every identity, and no token known before it is accepted again.
-/

namespace AgentJournal.Service
open Domain Foundation Storage Recovery

variable {P : Platform} {w w' : World} {a : Audit} {b c d : Central} {file : String}

section Completeness

/-- A credential after a restore: an unrevoked one is revoked with the restore as its reason. -/
def restoredCredential (clock : RestoreClock) (r : CredentialRow) : CredentialRow :=
  if r.revokedAt = none then
    { r with revokedAt := some (clock.written r.id), revocationReason := some "central restore" }
  else r

theorem writtenCredential_eq (clock : RestoreClock) (r : CredentialRow) :
    writtenCredential clock r = restoredCredential clock r := by
  unfold writtenCredential revokedCredential restoredCredential
  obtain ⟨id, principal, cls, hash, created, expires, revoked, replacement, reason⟩ := r
  cases revoked with
  | none => rfl
  | some time => rfl

theorem Restored.snapshot_eq {clock : RestoreClock} {l : Central} (hr : Restored clock b l d) :
    snapshot d = { snapshot l with
      credentials := ordered ((snapshot l).credentials.map (restoredCredential clock))
      spaceHeads := spaceHeads d } := by
  have hcredentials : d.credentials.Perm
      ((snapshot l).credentials.map (restoredCredential clock)) := by
    refine hr.credentials.trans ?_
    rw [show writtenCredential clock = restoredCredential clock from
      funext (writtenCredential_eq clock)]
    exact ((ordered_perm l.credentials).map _).symm
  simp only [snapshot, ordered_eq_of_perm hr.principals, ordered_eq_of_perm hr.principalNames,
    ordered_eq_of_perm hr.spaces, ordered_eq_of_perm hr.memberships,
    ordered_eq_of_perm hr.profileIdempotencyKeys, ordered_eq_of_perm hr.registrationReceipts,
    ordered_eq_of_perm hr.credentialAudit, ordered_eq_of_perm hr.auditEvents,
    ordered_eq_of_perm hr.inboxSequences, ordered_eq_of_perm hcredentials]

/-- Every committed content merges with the newest snapshot: no check refuses it, no constraint
or trigger aborts, foreign keys hold at the end and the result lists the identity tables of the
snapshot, with its unrevoked credentials revoked. -/
theorem restore_complete (hw : (store P).Reachable w) (haudit : w.audit = some a)
    (hresolved : a.requireResolvedRecoveryInput = .ok ()) (hb : b ∈ w.history)
    (clock : RestoreClock) :
    ∃ latest, a.headSnapshot = .ok latest ∧
      validateCredentialHistory b latest = .ok () ∧ validateSecurityHistory b latest = .ok () ∧
      ∃ d, restoreSecurity P clock b latest = .ok d ∧ d.foreignKeyCheck = true ∧
        snapshot d = { latest with
          credentials := ordered (latest.credentials.map (restoredCredential clock))
          spaceHeads := spaceHeads d } := by
  obtain ⟨h, top, older, hc⟩ := coherent_of_reachable hw haudit
  have hgrown := grown_of_lineage hc.lineage
  have hsnapshot := (hc.resolved ((Audit.requireResolved_eq_ok hc.ledger).mp hresolved)).2
  have hwell := hgrown.wellFormed top List.mem_cons_self
  have hwellBackup := wellFormed_of_reachable hw hb
  have hextends : Extends b top := extends_anchor (c := setRequired b) b.recoveryAnchor
    (hgrown.extends_top (hc.known b hb)) top.recoveryAnchor
  obtain ⟨d, hd, hrestored⟩ := restoreSecurity_complete clock hwellBackup hwell hextends
  refine ⟨snapshot top, (Audit.headSnapshot_eq_ok hc.ledger).mpr hsnapshot,
    validateCredentialHistory_complete hwell hextends,
    validateSecurityHistory_complete hwell hextends,
    d, hd, ?_, Restored.snapshot_eq hrestored⟩
  exact (foreignKeyCheck_iff d).mpr
    (hrestored.references hwellBackup.references hwell.references hextends)

/-- One call through an audited transaction. -/
def audited (k : ℕ) (call : Call) : List Action :=
  [.operate (call.operation .sample (sampleHostAt k)), .intend, .anchor, .commit, .complete]

def sampleClock : RestoreClock := ⟨"t₁", fun _ => "t₂"⟩

/-- A backup is copied, a record is appended and the principal renamed, and the backup is put in the
place of the live file. -/
def beforeRestore : List Action :=
  [.kill, .copy "central.db" "backup.db", .serve "central.db"] ++
    audited 1 (.appendRecord sampleToken "lab" "second" sampleInput) ++
    audited 2 (.updateOwnProfile ⟨"cred-" ++ hex (List.replicate 32 1),
      "00000000-0000-7000-8000-000000000000", .principalClient⟩ "rename"
        ⟨"renamed", "Ada", none, 1⟩) ++
    [.kill, .startTool, .reconcile "backup.db" true]

/-- Somebody new appends a record for the same principal. -/
def afterRestore : List Action :=
  [.kill, .serve "backup.db"] ++ audited 3 (.register otherToken ⟨"bea", "Bea"⟩) ++
    audited 4 (.appendRecord otherToken "lab" "third" sampleInput)

/-- A restore of an older backup: the world in front of it, the worlds around its commit, the world
once it is recorded with the head of its audit and its file, and the world after two more calls. -/
structure RestoreRun where
  fenced : World
  intended : World
  landed : World
  recorded : World
  audit : Audit
  head : Event
  merged : Central
  approval : RecoveryApproval
  served : World

def restoreRun : Option RestoreRun := do
  let fenced ← trace .sample (.baseline "central.db" sampleStore) beforeRestore
  let intended ← step .sample fenced (.reconcileIntend sampleClock)
  let landed ← step .sample intended .reconcileCommit
  let recorded ← step .sample landed .reconcileRecord
  let audit ← recorded.audit
  let head ← succeeded audit.head
  let merged ← recorded.files "backup.db"
  let approval ← audit.latestReconciled
  let served ← trace .sample { recorded with audit := some (audit.reopened head approval.attested) }
    afterRestore
  return ⟨fenced, intended, landed, recorded, audit, head, merged, approval, served⟩

/-- The file and the revision of a committed reconciliation. -/
def landedAt : Task → Option (String × ℤ)
  | .reconcileLanded f revision _ => some (f, revision)
  | _ => none

/-- What the run is about: its reopening compares equal revisions, the backup has one name and one
item, the lost content two of each and a live token, and the last content has handed out the third
sequence. -/
def RestoreRun.facts (r : RestoreRun) : Option Bool := do
  let (file, revision) ← landedAt r.landed.task
  let backup ← r.fenced.files "backup.db"
  let lost ← r.fenced.files "central.db"
  let audit ← r.fenced.audit
  let resumed ← r.served.audit
  let final ← r.served.files "backup.db"
  let last ← succeeded (openProtected resumed final)
  return file = "backup.db" && r.head.revision = revision &&
    r.head.revision = r.merged.recoveryAnchor.revision &&
    r.merged.credentials.all (·.revokedAt ≠ none) &&
    (succeeded audit.requireResolvedRecoveryInput).isSome && backup.principalNames.length = 1 &&
    lost.principalNames.length = 2 && sampleReader lost = some samplePrincipal &&
    lost.hasTokenHash (Platform.sample.digest sampleToken) && lost.recoveryAnchor.inboxEpoch = 0 &&
    addressed lost = [(samplePrincipal, 1), (samplePrincipal, 2)] &&
    addressed last = [(samplePrincipal, 1), (samplePrincipal, 3)]

set_option maxRecDepth 20000 in
theorem restoreRun_facts : restoreRun.bind RestoreRun.facts = some true := by
  decide +kernel

/-- What the facts of a run say about its worlds. -/
structure RestoreRun.Sound (r : RestoreRun) : Prop where
  fenced : (store .sample).Reachable r.fenced
  intended : (store .sample).Reachable r.intended
  known : ∀ c ∈ r.fenced.history, c ∈ r.intended.history
  landed : (store .sample).step r.intended .reconcileCommit r.landed
  served : (store .sample).Later r.landed r.served
  older : ∃ a b, r.fenced.audit = some a ∧ a.requireResolvedRecoveryInput = .ok () ∧
    b ∈ r.fenced.history ∧ b.principalNames.length = 1
  lost : ∃ e ∈ r.fenced.history, e.principalNames.length = 2 ∧
    sampleReader e = some samplePrincipal ∧
    e.hasTokenHash (Platform.sample.digest sampleToken) = true ∧ e.recoveryAnchor.inboxEpoch = 0 ∧
    addressed e = [(samplePrincipal, 1), (samplePrincipal, 2)]
  last : ∃ c, Admits r.served "backup.db" c ∧
    addressed c = [(samplePrincipal, 1), (samplePrincipal, 3)]

theorem audited_operations {k : ℕ} {call : Call} {op : Operation}
    (h : .operate op ∈ audited k call) :
    op ∈ operations .sample := ⟨_, _, by simpa [audited] using h⟩

theorem restoreRun_sound : ∃ r : RestoreRun, r.Sound := by
  obtain ⟨r, hrun, hfacts⟩ := Option.bind_eq_some_iff.mp restoreRun_facts
  simp only [restoreRun, Option.bind_eq_bind, Option.bind_eq_some_iff, Option.pure_def,
    Option.some.injEq, succeeded_eq_some] at hrun
  obtain ⟨fenced, hfenced, intended, hintended, landed, hlanded, recorded, hrecorded, audit, haudit,
    head, hhead, merged, hmerged, approval, happroval, served, hserved, rfl⟩ := hrun
  simp only [RestoreRun.facts, Option.bind_eq_bind, Option.bind_eq_some_iff, Option.pure_def,
    Option.some.injEq, succeeded_eq_some, Bool.and_eq_true, decide_eq_true_eq,
    List.all_eq_true] at hfacts
  obtain ⟨⟨file, revision⟩, htask, backup, hbackup, lost, hlost, old, hold, resumed, hresumed,
    final,
    hfinal, last, hlast,
    ⟨⟨⟨⟨⟨⟨⟨⟨⟨⟨hfile, hrevision⟩, hanchor⟩, hrevoked⟩, hresolved⟩, hnames⟩, hnames'⟩,
    hreader⟩, htoken⟩, hepoch⟩, hitems⟩, hitems'⟩ := hfacts
  subst hfile
  have hbefore : ∀ op, .operate op ∈ beforeRestore → op ∈ operations .sample := by
    intro op hop
    simp only [beforeRestore, List.mem_append] at hop
    rcases hop with ((hop | hop) | hop) | hop
    · simp at hop
    · exact audited_operations hop
    · exact audited_operations hop
    · simp at hop
  have hafter : ∀ op, .operate op ∈ afterRestore → op ∈ operations .sample := by
    intro op hop
    simp only [afterRestore, List.mem_append] at hop
    rcases hop with (hop | hop) | hop
    · simp at hop
    · exact audited_operations hop
    · exact audited_operations hop
  have hreachable := sampleStore_reachable.later ⟨_, run_of_trace _ hfenced hbefore⟩
  obtain ⟨_, _, _, hcoherent⟩ := coherent_of_reachable hreachable hold
  obtain ⟨latest, hlatest⟩ : ∃ latest, landed.task =
    .reconcileLanded "backup.db" head.revision latest := by
    cases hlandedTask : landed.task with
    | reconcileLanded f q latest =>
      rw [hlandedTask] at htask
      obtain ⟨rfl, rfl⟩ := by simpa [landedAt] using htask
      exact ⟨latest, congrArg (Task.reconcileLanded "backup.db" · latest) hrevision.symm⟩
    | _ => simp [hlandedTask, landedAt] at htask
  have hreopen :=
    reopen_of_recorded hrecorded hlatest haudit happroval hmerged hhead hanchor hrevoked
  have hintent : (store .sample).step fenced (.reconcileIntend sampleClock) intended :=
    ⟨by simp, hintended⟩
  have hrecord : (store .sample).Later landed recorded := ⟨_, .single ⟨by simp, hrecorded⟩⟩
  have hserve :=
    (hrecord.tail (i := .reopen "backup.db" approval.attested) ⟨by simp, hreopen⟩).trans
    ⟨_, run_of_trace _ hserved hafter⟩
  obtain ⟨_, hok⟩ := Option.isSome_iff_exists.mp hresolved
  exact ⟨⟨fenced, intended, landed, recorded, audit, head, merged, approval, served⟩, {
    fenced := hreachable
    intended := hreachable.tail hintent
    known := (history_suffix_of_later hreachable ⟨_, .single hintent⟩).subset
    landed := ⟨by simp, hlanded⟩
    served := hserve
    older := ⟨old, backup, hold, succeeded_eq_some.mp hok, hcoherent.stored _ _ hbackup, hnames⟩
    lost := ⟨lost, hcoherent.stored _ _ hlost, hnames', hreader, htoken, hepoch, hitems⟩
    last := ⟨last, ⟨resumed, final, hresumed, hfinal, .inl hlast⟩, hitems'⟩ }⟩

/-- A restore of a backup from before a record and a rename. -/
theorem restore_complete_sample : ∃ w a b latest d, (store .sample).Reachable w ∧ w.audit = some a ∧
    b ∈ w.history ∧ b.principalNames.length = 1 ∧ a.headSnapshot = .ok latest ∧
    restoreSecurity .sample sampleClock b latest = .ok d ∧ d.foreignKeyCheck = true := by
  obtain ⟨r, hr⟩ := restoreRun_sound
  obtain ⟨a, b, haudit, hresolved, hb, hnames⟩ := hr.older
  obtain ⟨latest, hlatest, -, -, d, hd, hforeign, -⟩ :=
    restore_complete hr.fenced haudit hresolved hb sampleClock
  exact ⟨r.fenced, a, b, latest, d, hr.fenced, haudit, hb, hnames, hlatest, hd, hforeign⟩

end Completeness

section Fences

/-- The digest is known and each of its credentials is revoked. -/
def Fenced (hash : String) (c : Central) : Prop :=
  (∃ r ∈ c.credentials, r.tokenHash = hash) ∧
    ∀ r ∈ c.credentials, r.tokenHash = hash → r.revokedAt ≠ none

variable {hash token : String}

/-- A fenced digest stays fenced in every content that extends this one. -/
theorem Fenced.extended (hd : Storage.credentials.Valid d.credentials) (h : Extends c d)
    (hf : Fenced hash c) : Fenced hash d := by
  obtain ⟨⟨r, hr, hhash⟩, hrevoked⟩ := hf
  obtain ⟨r', hr', hidentity, hkept⟩ := h.credentials r hr
  have hhash' : r'.tokenHash = hash := by
    rw [← hhash]
    exact congrArg (fun x => x.2.2.2.1) hidentity
  refine ⟨⟨r', hr', hhash'⟩, fun x hx hxhash => ?_⟩
  obtain rfl : x = r' := hd.eq_of_collides hx hr'
    (by simp [Schema.collides, Storage.credentials, hxhash, hhash'])
  exact hkept (hrevoked r hr hhash)

theorem Fenced.not_live (hf : Fenced hash c) {now : String} {r : CredentialRow}
    (hr : r ∈ c.credentials) (hhash : r.tokenHash = hash) : live P now r = false := by
  have hrevoked := hf.2 r hr hhash
  cases htime : r.revokedAt with
  | none => exact absurd htime hrevoked
  | some time => simp [live, htime]

variable {s : Session}

theorem now_central {text : String} {t : Session} (h : (now P).run s = .ok (text, t)) :
    t.central = s.central := central_eq (fun c => now_keeps (ofStore_central c) P) h

/-- No lookup of a live credential finds a fenced digest. -/
theorem lookup_fenced {α : Type} {condition : Prop} [Decidable condition]
    {p : String → Central → CredentialRow → Bool} {g : CredentialRow → α}
    (hf : Fenced hash s.central)
    (hp : ∀ now c r, p now c r = true → r.tokenHash = hash ∧ live P now r = true) :
    succeeded ((do
      refuse condition .unauthorized
      let now ← now P
      let row ← query fun c => c.credentials.find? (p now c)
      let row ← okOr row .unauthorized
      return g row : Tx α).run s) = none := by
  rw [Option.eq_none_iff_forall_ne_some]
  rintro ⟨actor, t⟩ h
  simp only [succeeded_eq_some, okOr, refuse, run_bind_eq_ok, query_eq_ok, attempt_eq_ok,
    required_eq_ok] at h
  obtain ⟨_, _, ⟨-, rfl⟩, now, s₁, hnow, found, _, ⟨rfl, rfl⟩, row, _, ⟨hrow, -⟩, -⟩ := h
  rw [now_central hnow] at hrow
  obtain ⟨hhash, hlive⟩ := hp now _ row (List.find?_some hrow)
  simp [hf.not_live (List.mem_of_find?_eq_some hrow) hhash] at hlive

theorem authenticate_fenced (hf : Fenced (P.digest token) s.central)
    (credentialClass : CredentialClass) :
    succeeded ((authenticate P token credentialClass).run s) = none :=
  lookup_fenced hf (by simp +contextual)

theorem journalActor_fenced (hf : Fenced (P.digest token) s.central) :
    succeeded ((journalActor P token).run s) = none :=
  lookup_fenced hf (by simp +contextual)

theorem appendReplayActor_fenced (hf : Fenced (P.digest token) s.central) :
    succeeded ((appendReplayActor P token).run s) = none :=
  lookup_fenced hf (by simp +contextual)

theorem existingRegistration_fenced (hf : Fenced hash c) (now : String) :
    ∃ existing, existingRegistration P c now hash = some existing ∧ existing.unrevoked = false := by
  obtain ⟨⟨r, hr, hhash⟩, hrevoked⟩ := hf
  cases hfind : c.credentials.find? fun r => r.tokenHash = hash with
  | none =>
    have := List.find?_eq_none.mp hfind r hr
    simp [hhash] at this
  | some row =>
    have hrow : row.tokenHash = hash := by simpa using List.find?_some hfind
    refine ⟨_, by rw [existingRegistration, hfind]; rfl, ?_⟩
    simpa [Option.isSome_iff_ne_none] using hrevoked row (List.mem_of_find?_eq_some hfind) hrow

/-- A fenced digest neither replays its registration nor registers again. -/
theorem register_fenced (hf : Fenced (P.digest token) s.central) (request : RegistrationRequest) :
    succeeded ((register P token request).run s) = none := by
  rw [Option.eq_none_iff_forall_ne_some]
  rintro ⟨outcome, t⟩ h
  simp only [succeeded_eq_some, register, refuse, run_bind_eq_ok, query_eq_ok, attempt_eq_ok] at h
  obtain ⟨_, s₁, hvalid, _, _, ⟨-, rfl⟩, now, s₂, hnow, found, _, ⟨rfl, rfl⟩, h⟩ := h
  have hcentral : s₂.central = s.central :=
    (now_central hnow).trans (central_eq (fun _ => validated_keeps) hvalid)
  obtain ⟨existing, hexisting, hunrevoked⟩ := existingRegistration_fenced (P := P) hf now
  rw [hcentral, hexisting] at h
  simp only [replayRegistration, refuse, run_bind_eq_ok, attempt_eq_ok, failIf_eq_ok, hunrevoked,
    true_or, not_true_eq_false, false_and] at h
  obtain ⟨_, _, _, _, _, ⟨⟩, _⟩ := h

/-- An admitted content is at least as new as everything committed before. -/
theorem Admits.newest (hw : (store P).Reachable w) (hadmits : Admits w file c)
    (hd : d ∈ w.history) : ∃ e ∈ w.history, c = setRequired e ∧
      d.recoveryAnchor.revision ≤ e.recoveryAnchor.revision := by
  obtain ⟨a, h, e, haudit, hl, -, -, hrevision, -, he, rfl⟩ := hadmits.content hw
  obtain ⟨h', top, older, hc⟩ := coherent_of_reachable hw haudit
  obtain rfl : h = h' := Option.some.inj (hl.last.symm.trans hc.ledger.last)
  have hle := hc.history_revision_le hd
  rw [setRequired_revision] at hrevision
  exact ⟨e, he, rfl, by omega⟩

theorem Admits.extended (hw : (store P).Reachable w) (hadmits : Admits w file c)
    (hd : d ∈ w.history) : WellFormed P c ∧ Extends d c := by
  obtain ⟨e, he, rfl, hle⟩ := Admits.newest hw hadmits hd
  exact ⟨wellFormed_anchor _ (wellFormed_of_reachable hw he),
    extends_anchor d.recoveryAnchor (extends_of_reachable hw hd he hle) _⟩

/-- A reconciliation that commits leaves no live credential, keeps every credential binding and
registration receipt of the newest content, and in every continuation no token known to any
earlier content authenticates, acts or registers. -/
theorem restore_revives_nothing {action : Action} (hw : (store P).Reachable w)
    (hstep : (store P).step w action w') (hmerges : action.merges = true) :
    ∃ backup ∈ w.history, ∃ latest ∈ w.history, ∃ clock tx d,
      (∀ e ∈ w.history, e.recoveryAnchor.revision ≤ latest.recoveryAnchor.revision) ∧
      restoreSecurity P clock backup (snapshot latest) = .ok tx ∧
      d = setReconciled (latest.recoveryAnchor.revision + 1) tx ∧ w'.history = d :: w.history ∧
      (∀ r ∈ d.credentials, r.revokedAt ≠ none) ∧
      (∀ r ∈ latest.credentials, ∃ r' ∈ d.credentials, r'.identity = r.identity) ∧
      (∀ r ∈ latest.registrationReceipts, r ∈ d.registrationReceipts) ∧
      ∀ w'', (store P).Later w' w'' → ∀ file c, Admits w'' file c →
        ∀ e ∈ w.history, ∀ r ∈ e.credentials, ∀ token, r.tokenHash = P.digest token → ∀ host,
          (∀ credentialClass,
            succeeded ((authenticate P token credentialClass).run (.start host c)) = none) ∧
          succeeded ((journalActor P token).run (.start host c)) = none ∧
          succeeded ((appendReplayActor P token).run (.start host c)) = none ∧
          ∀ request, succeeded ((register P token request).run (.start host c)) = none := by
  rcases landing_of_step hw hstep with ⟨-, hnot⟩ | ⟨d, top, older, hhistory, hl, hknown, hcommitted,
    hlanding⟩
  · simp [hmerges] at hnot
  obtain ⟨latest, hlatest, rfl⟩ := hcommitted
  cases hlanding with
  | adopted hnot _ _ => simp [hmerges] at hnot
  | operated hnot _ _ _ => simp [hmerges] at hnot
  | @reconciled backup tx clock _ hbackup hrestore hfk =>
    have hnewest : ∀ e ∈ w.history, e.recoveryAnchor.revision ≤ latest.recoveryAnchor.revision := by
      intro e he
      have hle := hl.revision_le (hknown e he)
      simpa using hle
    have hwell := wellFormed_of_reachable hw hlatest
    have hextends := extends_of_reachable hw hbackup hlatest (hnewest backup hbackup)
    obtain ⟨tx', htx', hrestored⟩ := restoreSecurity_complete clock
      (wellFormed_of_reachable hw hbackup) hwell hextends
    obtain rfl : tx' = tx := Except.ok.inj (htx'.symm.trans hrestore)
    have hrevoked : ∀ r ∈ tx'.credentials, r.revokedAt ≠ none := by
      intro r hr
      obtain ⟨r₀, -, rfl⟩ := List.mem_map.mp (hrestored.credentials.mem_iff.mp hr)
      simp [writtenCredential, revokedCredential]
    refine ⟨backup, hbackup, latest, hlatest, clock, tx', _, hnewest, hrestore, rfl, hhistory,
      hrevoked,
      fun r hr => ?_, fun r hr => hrestored.extended.registrationReceipts r hr, ?_⟩
    · obtain ⟨r', hr', hidentity, -⟩ := hrestored.extended.credentials r hr
      exact ⟨r', hr', hidentity⟩
    intro w'' hlater file c hadmits e he r hr token hdigest host
    have hw' := hw.tail hstep
    have hsuffix := history_suffix_of_later hw' hlater
    have hmem : setReconciled ((setRequired latest).recoveryAnchor.revision + 1) tx' ∈
      w''.history :=
      hsuffix.subset (by rw [hhistory]; exact List.mem_cons_self)
    obtain ⟨hwellC, hextendsC⟩ := Admits.extended (hw'.later hlater) hadmits hmem
    have hfenced : Fenced (P.digest token) c := by
      refine Fenced.extended hwellC.tables.credentials hextendsC ⟨?_, fun r hr _ => hrevoked r hr⟩
      -- the digest was carried from its content to the newest one and into the merge
      obtain ⟨r₁, hr₁, hidentity₁, -⟩ :=
        (extends_of_reachable hw he hlatest (hnewest e he)).credentials r hr
      obtain ⟨r₂, hr₂, hidentity₂, -⟩ := hrestored.extended.credentials r₁ hr₁
      refine ⟨r₂, hr₂, ?_⟩
      rw [← hdigest]
      exact congrArg (fun x => x.2.2.2.1) (hidentity₂.trans hidentity₁)
    exact ⟨authenticate_fenced hfenced, journalActor_fenced hfenced,
      appendReplayActor_fenced hfenced,
      register_fenced hfenced⟩

/-- After a restore of an older backup and more calls, the token of the lost content acts no
more. -/
theorem restore_revives_nothing_sample : ∃ w w' w'' d c, (store .sample).Reachable w ∧
    (store .sample).step w .reconcileCommit w' ∧ w'.history = d :: w.history ∧
    (∀ r ∈ d.credentials, r.revokedAt ≠ none) ∧
    (∃ e ∈ w.history, sampleReader e = some samplePrincipal) ∧
    (store .sample).Later w' w'' ∧ Admits w'' "backup.db" c ∧
    addressed c = [(samplePrincipal, 1), (samplePrincipal, 3)] ∧
    succeeded ((journalActor .sample sampleToken).run (.start sampleHost c)) = none := by
  obtain ⟨r, hr⟩ := restoreRun_sound
  obtain ⟨e, he, -, hreader, htoken, -, -⟩ := hr.lost
  obtain ⟨c, hadmits, hitems⟩ := hr.last
  obtain ⟨-, -, -, -, -, -, d, -, -, -, hhistory, hrevoked, -, -, hfenced⟩ :=
    restore_revives_nothing hr.intended hr.landed rfl
  obtain ⟨row, hrow, hhash⟩ := List.any_eq_true.mp htoken
  obtain ⟨-, hjournal, -⟩ :=
    hfenced r.served hr.served "backup.db" c hadmits e (hr.known e he) row hrow
    sampleToken (by simpa using hhash) sampleHost
  exact ⟨r.intended, r.landed, r.served, d, c, hr.intended, hr.landed, hhistory, hrevoked,
    ⟨e, hr.known e he, hreader⟩, hr.served, hadmits, hitems, hjournal⟩

end Fences
end AgentJournal.Service
