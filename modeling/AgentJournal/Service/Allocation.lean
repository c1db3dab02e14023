import AgentJournal.Service.Traversal

/-! # Inbox sequences and cursors across restores

A sequence is handed out once per recipient, whatever is restored in between, and a
continuation cursor is not accepted across a reconciliation.
-/

namespace AgentJournal.Service
open Domain Foundation Storage Recovery

variable {P : Platform} {w w' : World} {c d : Central} {file : String} {action : Action}

section Cursors
variable {token cursor : String} {q : InboxQuery} {s t : Session} {page : Page InboxItem}

/-- A cursor issued in one epoch is refused in every other one. -/
theorem inbox_refuses (hP : P.EncodesCursors)
    (hfilter : ∀ actor state epoch actor' state' epoch',
      P.sha256 (P.inboxFilterJson actor state epoch) =
        P.sha256 (P.inboxFilterJson actor' state' epoch') →
      actor = actor' ∧ state = state' ∧ epoch = epoch')
    {token' : String} {q' : InboxQuery} {s' : Session}
    (hv : Storage.mailboxItems.Valid s.central.mailboxItems)
    (h : (inbox P token q).run s = .ok (page, t)) (hcursor : page.nextCursor = some cursor)
    (hcontinues : q'.page.cursor = some cursor)
    (hepoch : s'.central.recoveryAnchor.inboxEpoch ≠ s.central.recoveryAnchor.inboxEpoch) :
    succeeded ((inbox P token' q').run s') = none := by
  rw [Option.eq_none_iff_forall_ne_some]
  rintro ⟨page', t'⟩ h'
  obtain ⟨actor, -, -, after, upper, hpage⟩ := inbox_page h
  obtain ⟨actor', -, -, after', upper', hpage'⟩ := inbox_page (succeeded_eq_some.mp h')
  rcases hpage.next with ⟨hnone, -⟩ | ⟨_, codec, last, hsome, -, hlast, -, hencode⟩
  · simp [hcursor] at hnone
  obtain rfl := Option.some.inj (hcursor.symm.trans hsome)
  have hcontinuation : continuation q'.page = some cursor := by
    simp [continuation, hcontinues, CursorCodec.encode_ne_empty hencode]
  rcases hpage'.bounds with ⟨hnone, -⟩ | ⟨_, codec', position, hsome', -, hdecode, -⟩
  · simp [hcontinuation] at hnone
  obtain rfl := Option.some.inj (hcontinuation.symm.trans hsome')
  have hfits := hpage.fits hv (List.mem_of_getLast? hlast)
  obtain ⟨-, hscope⟩ := CursorCodec.decode_encode hP hfits hencode hdecode
  have hfingerprint := congrArg CursorScope.filterFingerprint hscope
  exact hepoch (hfilter _ _ _ _ _ _ hfingerprint).2.2

end Cursors

section Allocation

/-- Every item a step commits was known before or is above everything known before. -/
theorem landed_items (hw : (store P).Reachable w) (hstep : (store P).step w action w')
    (hd : w'.history = d :: w.history) {m : MailboxItemRow} (hm : m ∈ d.mailboxItems) :
    (∃ c ∈ w.history, ∃ m' ∈ c.mailboxItems, allocation m' = allocation m) ∨
      ∀ c ∈ w.history, ∀ m' ∈ c.mailboxItems, m'.recipientPrincipalId = m.recipientPrincipalId →
        m'.recipientSeq < m.recipientSeq := by
  obtain ⟨top, older, hl, hknown, -, hlanding⟩ := landing_of_history hw hstep hd
  cases hlanding with
  | adopted _ hc _ => exact .inl ⟨_, hc, m, hm, rfl⟩
  | reconciled _ hbackup hrestore _ =>
    have hm' : m ∈ _ := (restoreSecurity_sameRecords hrestore).mailboxItems ▸ hm
    exact .inl ⟨_, hbackup, m, hm', rfl⟩
  | operated _ htop hop hrun =>
    rcases (operated_delivered hw htop hop hrun).allocates m hm with hold | habove
    · exact .inl ⟨top, htop, hold⟩
    · refine .inr fun c hc m' hm' hrecipient => ?_
      have hle := (grown_of_lineage hl).seq_le_top (hknown c hc) (m := m') hm'
      rw [hrecipient] at hle
      exact hle.trans_lt habove

theorem landed_revision (hw : (store P).Reachable w) (hstep : (store P).step w action w')
    (hd : w'.history = d :: w.history) :
    ∀ c ∈ w.history, c.recoveryAnchor.revision ≤ d.recoveryAnchor.revision := by
  obtain ⟨top, older, hl, hknown, -, hlanding⟩ := landing_of_history hw hstep hd
  intro c hc
  have hle := hl.revision_le (hknown c hc)
  rw [setRequired_revision] at hle
  cases hlanding with
  | adopted _ _ hnewest => exact hnewest c hc
  | operated _ _ _ _ => exact hle.trans (by change _ ≤ _ + 1; omega)
  | reconciled _ _ _ _ => exact hle.trans (by change _ ≤ _ + 1; omega)

/-- Contents are committed in the order of their revisions. -/
theorem history_ordered (hw : (store P).Reachable w) : w.history.Pairwise fun newer older =>
    older.recoveryAnchor.revision ≤ newer.recoveryAnchor.revision := by
  obtain ⟨w₀, hstart, hlater⟩ := hw
  refine hlater.stable (I := fun w => w.history.Pairwise fun newer older =>
    older.recoveryAnchor.revision ≤ newer.recoveryAnchor.revision) ?_ (.of_start hstart) ?_
  · intro w action w' hw hordered hstep
    rcases landing_of_step hw hstep with ⟨hsame, -⟩ | ⟨d, _, _, hhistory, -⟩
    · rw [hsame]
      exact hordered
    · rw [hhistory]
      exact List.pairwise_cons.mpr ⟨landed_revision hw hstep hhistory, hordered⟩
  · obtain ⟨file, c, -, -, -, rfl⟩ := hstart
    exact List.pairwise_singleton _ _

theorem epoch_le_revision (hw : (store P).Reachable w) (hc : c ∈ w.history) :
    c.recoveryAnchor.inboxEpoch ≤ c.recoveryAnchor.revision := by
  obtain ⟨contents, hl, hknown⟩ := contents_of_reachable hw
  exact (grown_of_lineage hl).epoch_le (setRequired c) (hknown c hc)

theorem epoch_le_of_revision_le (hw : (store P).Reachable w) (hc : c ∈ w.history)
    (hd : d ∈ w.history) (hle : c.recoveryAnchor.revision ≤ d.recoveryAnchor.revision) :
    c.recoveryAnchor.inboxEpoch ≤ d.recoveryAnchor.inboxEpoch := by
  obtain ⟨contents, hl, hknown⟩ := contents_of_reachable hw
  exact hl.rel_of_revision_le (c := setRequired c) (d := setRequired d)
    (R := fun c d => c.recoveryAnchor.inboxEpoch ≤ d.recoveryAnchor.inboxEpoch) (fun _ => le_rfl)
    (grown_of_lineage hl).epochs (hknown c hc) (hknown d hd) hle

/-- The epoch of a reconciliation is new. -/
theorem landed_epoch (hw : (store P).Reachable w) (hstep : (store P).step w action w')
    (hmerges : action.merges = true) (hd : w'.history = d :: w.history) :
    0 < d.recoveryAnchor.inboxEpoch ∧
      ∀ c ∈ w.history, c.recoveryAnchor.inboxEpoch < d.recoveryAnchor.inboxEpoch := by
  obtain ⟨top, older, hl, hknown, -, hlanding⟩ := landing_of_history hw hstep hd
  cases hlanding with
  | adopted hnot _ _ => simp [hmerges] at hnot
  | operated hnot _ _ _ => simp [hmerges] at hnot
  | reconciled _ _ _ _ =>
    change 0 < top.recoveryAnchor.revision + 1 ∧
      ∀ c ∈ w.history, c.recoveryAnchor.inboxEpoch < top.recoveryAnchor.revision + 1
    have hnonneg := hl.revision_nonneg top List.mem_cons_self
    refine ⟨by omega, fun c hc => ?_⟩
    have hle := hl.revision_le (hknown c hc)
    have hepoch := epoch_le_revision hw hc
    rw [setRequired_revision] at hle
    omega

/-- For every run of appends, acknowledgments and restores: no two items of a recipient that were
ever committed share a sequence, a new item is above all of them, heads never fall, and a
reconciliation starts a new epoch in which no earlier cursor is accepted. -/
theorem inbox_across_restores (hP : P.EncodesCursors)
    (hfilter : ∀ actor state epoch actor' state' epoch',
      P.sha256 (P.inboxFilterJson actor state epoch) =
        P.sha256 (P.inboxFilterJson actor' state' epoch') →
      actor = actor' ∧ state = state' ∧ epoch = epoch')
    (hw : (store P).Reachable w) :
    (∀ c ∈ w.history, ∀ d ∈ w.history, ∀ m ∈ c.mailboxItems, ∀ m' ∈ d.mailboxItems,
      m.recipientPrincipalId = m'.recipientPrincipalId → m.recipientSeq = m'.recipientSeq →
      allocation m = allocation m') ∧
    (w.history.Pairwise fun newer older => ∀ recipient last, older.lastSeq recipient = some last →
      ∃ last', newer.lastSeq recipient = some last' ∧ last ≤ last') ∧
    ∀ action w', (store P).step w action w' →
      (∀ d, w'.history = d :: w.history → ∀ m ∈ d.mailboxItems,
        (∃ c ∈ w.history, ∃ m' ∈ c.mailboxItems, allocation m' = allocation m) ∨
          ∀ c ∈ w.history, ∀ m' ∈ c.mailboxItems,
            m'.recipientPrincipalId = m.recipientPrincipalId → m'.recipientSeq < m.recipientSeq) ∧
      (action.merges = true → ∃ d, w'.history = d :: w.history ∧
        (∀ c ∈ w.history, c.recoveryAnchor.inboxEpoch < d.recoveryAnchor.inboxEpoch) ∧
        ∀ e, e ∈ w.history ∨ Unadopted P e →
          ∀ token q host page t cursor, (inbox P token q).run (.start host e) = .ok (page, t) →
            page.nextCursor = some cursor →
          ∀ w'', (store P).Later w' w'' → ∀ file c, Admits w'' file c →
          ∀ token' q' host', q'.page.cursor = some cursor →
            succeeded ((inbox P token' q').run (.start host' c)) = none) := by
  obtain ⟨contents, hl, hknown⟩ := contents_of_reachable hw
  have hgrown := grown_of_lineage hl
  refine ⟨fun c hc d hd => hgrown.once (setRequired c) (hknown c hc) (setRequired d) (hknown d hd),
    ?_, ?_⟩
  · refine (history_ordered hw).imp_of_mem
      fun {newer older} hnewer holder hle recipient last hlast => ?_
    exact lastSeq_le (wellFormed_of_reachable hw holder).tables.inboxSequences
      (wellFormed_of_reachable hw hnewer).tables.inboxSequences
      (extends_of_reachable hw holder hnewer hle) hlast
  intro action w' hstep
  refine ⟨fun d hd m hm => landed_items hw hstep hd hm, fun hmerges => ?_⟩
  rcases landing_of_step hw hstep with ⟨-, hnot⟩ | ⟨d, _, _, hhistory, -⟩
  · simp [hmerges] at hnot
  obtain ⟨hpositive, hepoch⟩ := landed_epoch hw hstep hmerges hhistory
  refine ⟨d, hhistory, hepoch, ?_⟩
  intro e he token q host page t cursor hissue hcursor w'' hlater file c hadmits token' q' host' hq
  have hw' := hw.tail hstep
  have hmem : d ∈ w''.history :=
    (history_suffix_of_later hw' hlater).subset (by rw [hhistory]; exact List.mem_cons_self)
  obtain ⟨x, hx, rfl, hle⟩ := Admits.newest (hw'.later hlater) hadmits hmem
  have hlater_epoch := epoch_le_of_revision_le (hw'.later hlater) hmem hx hle
  have hearlier : e.recoveryAnchor.inboxEpoch < d.recoveryAnchor.inboxEpoch := by
    rcases he with he | he
    · exact hepoch e he
    · rw [he.grown.2.2.2.2]
      exact hpositive
  have hitems : Storage.mailboxItems.Valid e.mailboxItems := by
    rcases he with he | he
    · exact (wellFormed_of_reachable hw he).tables.mailboxItems
    · exact he.grown.1.tables.mailboxItems
  refine inbox_refuses hP hfilter hitems hissue hcursor hq ?_
  exact (hearlier.trans_le hlater_epoch).ne'

/-- Two items, a restore of the backup from before the second one, and the next append: the sequence
2 is not handed out again, and a cursor of the lost content is refused. -/
theorem inbox_across_restores_sample : ∃ w w' w'' d e c page cursor, (store .sample).Reachable w ∧
    (store .sample).step w .reconcileCommit w' ∧ w'.history = d :: w.history ∧ e ∈ w.history ∧
    addressed e = [(samplePrincipal, 1), (samplePrincipal, 2)] ∧
    e.recoveryAnchor.inboxEpoch < d.recoveryAnchor.inboxEpoch ∧
    inboxRoute .sample samplePrincipal .all e ⟨none, some 1⟩ page ∧ page.nextCursor = some cursor ∧
    (store .sample).Later w' w'' ∧ Admits w'' "backup.db" c ∧
    addressed c = [(samplePrincipal, 1), (samplePrincipal, 3)] ∧
    (∀ token limit host, succeeded ((inbox .sample token ⟨.all, ⟨some cursor, limit⟩, 0⟩).run
      (.start host c)) = none) ∧
    ∀ x ∈ w''.history, ∀ y ∈ w''.history, ∀ m ∈ x.mailboxItems, ∀ m' ∈ y.mailboxItems,
      m.recipientPrincipalId = m'.recipientPrincipalId → m.recipientSeq = m'.recipientSeq →
      allocation m = allocation m' := by
  obtain ⟨r, hr⟩ := restoreRun_sound
  obtain ⟨e, he, -, hreader, -, hzero, hitems⟩ := hr.lost
  obtain ⟨c, hadmits, hitems'⟩ := hr.last
  have hfilter : ∀ actor state epoch actor' state' epoch',
      Platform.sample.sha256 (Platform.sample.inboxFilterJson actor state epoch) =
        Platform.sample.sha256 (Platform.sample.inboxFilterJson actor' state' epoch') →
      actor = actor' ∧ state = state' ∧ epoch = epoch' := fun _ _ _ _ _ _ h =>
    Platform.coded_inboxFilter _ _ (Platform.coded_sha256_injective _ _ h)
  obtain ⟨-, -, hsteps⟩ :=
    inbox_across_restores (Platform.coded_encodesCursors _ _) hfilter hr.intended
  obtain ⟨d, hhistory, hepoch, hrefused⟩ := (hsteps _ _ hr.landed).2 rfl
  have hknown := hr.known e he
  have hserved : Served .sample e := .of_content (.inl ⟨r.intended, hr.intended, hknown⟩)
  obtain ⟨_, hactor⟩ := exists_sampleReader hreader
  obtain ⟨page, hroute⟩ := inboxRoute_starts Platform.sample_boundsCursors hserved
    (by rw [hzero]; exact sampleFingerprint)
    (by decide : InboxQuery.validate ⟨.all, ⟨none, some 1⟩, 0⟩ = .ok ()) rfl hactor
  obtain ⟨cursor, hcursor⟩ := inboxRoute_issues (f := ⟨e, ⟨none, some 1⟩, page⟩) hroute rfl (by
    rw [length_inboxWindow hserved.wellFormed.references, newestItem_eq, hitems]
    simp [PageQuery.effectiveLimit])
  obtain ⟨host, token, waitSeconds, _, _, -, hissue⟩ := id hroute
  refine ⟨r.intended, r.landed, r.served, d, e, c, page, cursor, hr.intended, hr.landed, hhistory,
    hknown,
    hitems, hepoch e hknown, hroute, hcursor, hr.served, hadmits, hitems', fun token' limit host' =>
    ?_, ?_⟩
  · exact hrefused e (.inl hknown) token _ host page _ cursor hissue hcursor r.served hr.served
      "backup.db" c
      hadmits token' _ host' rfl
  · have hlater := (hr.intended.tail hr.landed).later hr.served
    exact (inbox_across_restores (Platform.coded_encodesCursors _ _) hfilter hlater).1

end Allocation
end AgentJournal.Service
