import AgentJournal.Service.Restores

/-! # Interleaved calls between restores

Committed calls of any clients, in any order, with the audit moving the anchor in between. What
the journal holds is only ever added to: records, their edges and their keys stay as they were
stored, and a mailbox item changes once, when it is acknowledged.
-/

namespace AgentJournal.Service
open Domain Foundation Storage Recovery

variable {P : Platform} {w w' : World} {c d e : Central}

/-- A database that a handle can serve: a committed content of some run, or a store that no
audit has adopted. -/
def Content (P : Platform) (c : Central) : Prop :=
  (∃ w, (store P).Reachable w ∧ c ∈ w.history) ∨ Unadopted P c

theorem Content.wellFormed (h : Content P c) : WellFormed P c := by
  rcases h with ⟨w, hw, hc⟩ | h
  · exact wellFormed_of_reachable hw hc
  · exact h.grown.1

theorem Content.sound (h : Content P c) : JournalSound c := by
  rcases h with ⟨w, hw, hc⟩ | h
  · exact journalSound_of_reachable hw hc
  · exact h.grown.2.1

/-- A property of databases that every call and every merge keeps. -/
structure Invariant (P : Platform) (I : Central → Prop) : Prop where
  baseline : ∀ journalId, I (.baseline journalId)
  anchor : ∀ (c : Central) a, I c → I { c with recoveryAnchor := a }
  call : ∀ (call : Call) {host : Host} {c : Central} {t : Session}, WellFormed P c →
    JournalSound c →
    I c → (call.perform P).run (.start host c) = .ok ((), t) → I t.central
  merged : ∀ {clock : RestoreClock} {b l d : Central}, WellFormed P b → WellFormed P l →
    Extends b l → Restored clock b l d → I b → I l → I d

namespace Invariant
variable {I : Central → Prop}

theorem unadopted (hI : Invariant P I) (h : Unadopted P c) : I c := by
  induction h with
  | baseline journalId => exact hI.baseline journalId
  | call call h hrun ih => exact hI.call call h.grown.1 h.grown.2.1 ih hrun

theorem lineage (hI : Invariant P I) {contents : List Central}
    (hl : Lineage P (operations P) (Unadopted P) contents) : ∀ c ∈ contents, I c := by
  induction hl with
  | fresh hstart _ =>
    intro d hd
    rw [List.mem_singleton.mp hd]
    exact hI.anchor _ _ (hI.unadopted hstart)
  | @operated c tx older op n hl hop hrun ih =>
    have hgrown := grown_of_lineage hl
    obtain ⟨host, call, rfl⟩ := hop
    obtain ⟨t, hperform, rfl, -⟩ := Call.operation_run.mp hrun
    refine List.forall_mem_cons.mpr ⟨hI.anchor _ _ ?_, ih⟩
    exact hI.call call (hgrown.wellFormed c List.mem_cons_self) (hgrown.sound c List.mem_cons_self)
      (ih c List.mem_cons_self) hperform
  | @reconciled c backup tx older clock hl hbackup hrestore hforeign ih =>
    have hgrown := grown_of_lineage hl
    have hwell := hgrown.wellFormed c List.mem_cons_self
    have hwellBackup : WellFormed P backup :=
      wellFormed_anchor (c := setRequired backup) backup.recoveryAnchor
        (hgrown.wellFormed _ hbackup)
    have hextends : Extends backup c :=
      extends_anchor (c := setRequired backup) backup.recoveryAnchor (hgrown.extends_top hbackup)
        c.recoveryAnchor
    have hbackupI : I backup := hI.anchor (setRequired backup) backup.recoveryAnchor (ih _ hbackup)
    obtain ⟨d, hd, hrestored⟩ := restoreSecurity_complete clock hwellBackup hwell hextends
    obtain rfl : d = tx := Except.ok.inj (hd.symm.trans hrestore)
    refine List.forall_mem_cons.mpr ⟨hI.anchor _ _ ?_, ih⟩
    exact hI.merged hwellBackup hwell hextends hrestored hbackupI (ih c List.mem_cons_self)

/-- It holds of everything that is ever served. -/
theorem content (hI : Invariant P I) (h : Content P c) : I c := by
  rcases h with ⟨w, hw, hc⟩ | h
  · obtain ⟨contents, hl, hknown⟩ := contents_of_reachable hw
    exact hI.anchor (setRequired c) c.recoveryAnchor (hI.lineage hl _ (hknown c hc))
  · exact hI.unadopted h

end Invariant

/-- The second database is reached from the first by committed calls. Between calls the audit may
move the anchor, but not into another epoch. -/
inductive Serves (P : Platform) (c : Central) : Central → Prop
  | refl : Serves P c c
  | call {d : Central} {host : Host} {t : Session} (call : Call) : Serves P c d →
      (call.perform P).run (.start host d) = .ok ((), t) → Serves P c t.central
  | anchor {d : Central} (a : RecoveryAnchor) : Serves P c d →
      a.inboxEpoch = d.recoveryAnchor.inboxEpoch → Serves P c { d with recoveryAnchor := a }

namespace Serves

theorem trans (h : Serves P c d) (h' : Serves P d e) : Serves P c e := by
  induction h' with
  | refl => exact h
  | call call _ hrun ih => exact ih.call call hrun
  | anchor a _ hepoch ih => exact ih.anchor a hepoch

/-- What every call from a sound store keeps holds from then on. -/
theorem invariant {I : Central → Prop} (hanchor : ∀ d a, I d → I { d with recoveryAnchor := a })
    (hcall : ∀ (call : Call) {host d t}, WellFormed P d → JournalSound d → I d →
      (call.perform P).run (.start host d) = .ok ((), t) → I t.central)
    (hc : WellFormed P c) (hsound : JournalSound c) (hI : I c) (h : Serves P c d) :
    WellFormed P d ∧ JournalSound d ∧ I d := by
  induction h with
  | refl => exact ⟨hc, hsound, hI⟩
  | @call d host t call _ hrun ih =>
    obtain ⟨hwell, hsound, hI⟩ := ih
    exact ⟨(call.perform_extends rfl hwell hrun).1,
      (call.perform_delivered rfl hwell.tables.inboxSequences hsound hrun).sound,
      hcall call hwell hsound hI hrun⟩
  | anchor a _ _ ih =>
    exact ⟨wellFormed_anchor _ ih.1, journalSound_anchor _ ih.2.1, hanchor _ _ ih.2.2⟩

theorem wellFormed (hc : WellFormed P c) (hsound : JournalSound c) (h : Serves P c d) :
    WellFormed P d ∧ JournalSound d :=
  have hkept :=
    h.invariant (I := fun _ => True) (fun _ _ _ => trivial) (fun _ _ _ _ _ _ _ _ => trivial)
    hc hsound trivial
  ⟨hkept.1, hkept.2.1⟩

theorem inboxEpoch (h : Serves P c d) :
    d.recoveryAnchor.inboxEpoch = c.recoveryAnchor.inboxEpoch := by
  induction h with
  | refl => rfl
  | call call _ hrun ih => exact (congrArg _ (call.perform_anchored rfl hrun)).trans ih
  | anchor a _ hepoch ih => exact hepoch.trans ih

end Serves

/-- The journal of the second database continues the journal of the first. -/
structure Journaled (c d : Central) : Prop where
  records : c.records <+: d.records
  relations : ∀ id, c.hasRecord id = true →
    d.recordRelations.filter (·.sourceRecordId = id) =
    c.recordRelations.filter (·.sourceRecordId = id)
  attention : ∀ id, c.hasRecord id = true →
    d.attention.filter (·.recordId = id) = c.attention.filter (·.recordId = id)
  idempotencyKeys : c.idempotencyKeys <+: d.idempotencyKeys
  mailboxItems : List.Forall₂ ItemKept c.mailboxItems (d.mailboxItems.take c.mailboxItems.length)
  journalSecret : ∀ secret ∈ c.journalSecret, d.journalSecret = some secret

namespace Journaled

theorem refl (c : Central) : Journaled c c where
  records := List.prefix_rfl
  relations _ _ := rfl
  attention _ _ := rfl
  idempotencyKeys := List.prefix_rfl
  mailboxItems := by
    rw [List.take_length]
    exact (SameJournal.refl c).acknowledged
  journalSecret _ := id

theorem hasRecord (h : Journaled c d) {id : String} (hid : c.hasRecord id = true) :
    d.hasRecord id = true := by
  obtain ⟨new, hnew⟩ := h.records
  unfold Central.hasRecord at hid ⊢
  rw [← hnew, List.any_append, hid, Bool.true_or]

theorem trans (h : Journaled c d) (h' : Journaled d e) : Journaled c e where
  records := h.records.trans h'.records
  relations id hid := (h'.relations id (h.hasRecord hid)).trans (h.relations id hid)
  attention id hid := (h'.attention id (h.hasRecord hid)).trans (h.attention id hid)
  idempotencyKeys := h.idempotencyKeys.trans h'.idempotencyKeys
  mailboxItems := by
    have hle : c.mailboxItems.length ≤ d.mailboxItems.length := by
      have := h.mailboxItems.length_eq
      rw [List.length_take] at this
      omega
    have hlater := List.forall₂_take c.mailboxItems.length h'.mailboxItems
    rw [List.take_take, Nat.min_eq_left hle] at hlater
    exact forall₂_trans (R := ItemKept) (fun _ _ _ => ItemKept.trans) h.mailboxItems hlater
  journalSecret secret hs := h'.journalSecret secret (h.journalSecret secret hs)

/-- What stays the same outside the journal continues it. -/
theorem sameJournal (h : Journaled c d) (hs : SameJournal d e) : Journaled c e := by
  refine h.trans ⟨hs.records ▸ List.prefix_rfl, fun _ _ => by rw [hs.recordRelations],
    fun _ _ => by rw [hs.attention], hs.idempotencyKeys ▸ List.prefix_rfl, ?_, hs.journalSecret⟩
  rw [hs.acknowledged.length_eq, List.take_length]
  exact hs.acknowledged

theorem anchor (h : Journaled c d) (a : RecoveryAnchor) :
    Journaled c { d with recoveryAnchor := a } :=
  { h with }

section Append
variable {id now : String}

theorem record {row : RecordRow} (h : Journaled c d) (hinsert : d.insertRecord row = .ok e) :
    Journaled c e := by
  obtain ⟨-, -, rfl⟩ := Central.insertRecord_eq_ok.mp hinsert
  exact { h with records := h.records.trans (List.prefix_append _ _) }

theorem relation {relation : Relation × ℕ} (h : Journaled c d) (hfresh : c.hasRecord id = false)
    (hinsert : Related id now relation d e) : Journaled c e := by
  obtain ⟨-, -, -, -, rfl⟩ := Central.insertRecordRelation_eq_ok.mp hinsert
  refine { h with relations := fun known hknown => ?_ }
  have hne : ¬id = known := by
    rintro rfl
    simp [hfresh] at hknown
  rw [← h.relations known hknown]
  simp [List.filter_append, hne]

theorem delivery {recipient : String} (h : Journaled c d) (hfresh : c.hasRecord id = false)
    (hd : Delivery id now recipient d e) : Journaled c e := by
  obtain ⟨heads, item, -, -, -, -, -, rfl⟩ := hd
  refine { h with attention := fun known hknown => ?_, mailboxItems := ?_ }
  · have hne : ¬id = known := by
      rintro rfl
      simp [hfresh] at hknown
    rw [← h.attention known hknown]
    simp [List.filter_append, hne]
  · have hle := h.mailboxItems.length_eq
    rw [List.length_take] at hle
    rw [List.take_append_of_le_length (by omega)]
    exact h.mailboxItems

theorem idempotencyKey {row : IdempotencyKeyRow} (h : Journaled c d)
    (hinsert : d.insertIdempotencyKey row = .ok e) : Journaled c e := by
  obtain ⟨-, -, rfl⟩ := Central.insertIdempotencyKey_eq_ok.mp hinsert
  exact { h with idempotencyKeys := h.idempotencyKeys.trans (List.prefix_append _ _) }

end Append
end Journaled

/-- The record of an append is new. -/
theorem Appended.fresh_id {space path key hash : String} {result : AppendResult}
    (h : Appended space path key hash c d result) : c.hasRecord result.record.id = false := by
  obtain ⟨c₀, c₁, -, -, hkeyed, hrecord, -, -, -⟩ := h.statements
  obtain ⟨haccepts, -, -⟩ := Central.insertRecord_eq_ok.mp hrecord
  rw [hkeyed.sameJournal.records] at haccepts
  simp only [Central.hasRecord, List.any_eq_false, decide_eq_true_eq]
  intro r hr heq
  exact haccepts.key r hr (by simp [Storage.records, AppendResult.row, heq])

theorem Appended.journaled {space path key hash : String} {result : AppendResult}
    (h : Appended space path key hash c d result) : Journaled c d := by
  have hfresh := h.fresh_id
  obtain ⟨c₀, c₁, c₂, c₃, hkeyed, hrecord, hrelations, hdeliveries, hkey⟩ := h.statements
  have h₁ := ((Journaled.refl c).sameJournal hkeyed.sameJournal).record hrecord
  have h₂ := hrelations.invariant (I := Journaled c) (fun _ _ _ hd => hd.relation hfresh) h₁
  have h₃ := hdeliveries.invariant (I := Journaled c) (fun _ _ _ hd => hd.delivery hfresh) h₂
  exact h₃.idempotencyKey hkey

/-- A call without an append leaves the journal alone. -/
theorem Call.perform_sameJournal {call : Call} (hcall : call.isAppend = false) {host : Host}
    {t : Session} (hrun : (call.perform P).run (.start host c) = .ok ((), t)) :
    SameJournal c t.central := by
  have hwrites := perform_keeps hcall (.start host c) () t (Effects.none : Effects _ c 0 c) hrun
  exact hwrites.invariant (fun _ _ hd hw => hd.trans hw.sameJournal) (.refl c)

/-- An append replays its key or stores a new record. -/
theorem appendRecord_cases {token space key : String} {input : RecordInput} {host : Host}
    {t : Session}
    {result : AppendResult}
    (h : (appendRecord P token space key input).run (.start host c) = .ok (result, t)) :
    t.central = c ∨
      Appended space (appendPath space) key (P.payloadHash input) c t.central result := by
  obtain ⟨actor, s', -, hcentral, ⟨row, -, hreplay⟩ | ⟨-, happended, -⟩⟩ := appendRecord_eq_ok h
  · exact .inl ((central_eq (fun _ => replayAppend_keeps _ row) hreplay).trans hcentral)
  · exact .inr happended

theorem Call.perform_journaled (call : Call) {host : Host} {t : Session}
    (hrun : (call.perform P).run (.start host c) = .ok ((), t)) : Journaled c t.central := by
  cases hcall : call.isAppend with
  | false => exact (Journaled.refl c).sameJournal (perform_sameJournal hcall hrun)
  | true =>
    cases call with
    | appendRecord token space key input =>
      obtain ⟨result, t', happend, hpure⟩ := run_bind_eq_ok.mp hrun
      obtain ⟨-, rfl⟩ := run_pure_eq_ok.mp hpure
      rcases appendRecord_cases happend with hsame | happended
      · rw [hsame]
        exact .refl c
      · exact happended.journaled
    | _ => cases hcall

theorem Serves.journaled (h : Serves P c d) : Journaled c d := by
  induction h with
  | refl => exact .refl c
  | call call _ hrun ih => exact ih.trans (call.perform_journaled hrun)
  | anchor a _ _ ih => exact ih.anchor a

theorem Serves.extended (hc : WellFormed P c) (hsound : JournalSound c) (h : Serves P c d) :
    Extends c d := by
  refine (h.invariant (I := Extends c) (fun d a hd => extends_anchor c.recoveryAnchor hd a)
    (fun call _ d t hwell hsound hd hrun => ?_) hc hsound (.refl c)).2.2
  exact hd.trans (call.perform_extends rfl hwell hrun).2

section Runs

/-- The newest committed content, adopted. -/
def Newest (w : World) (c : Central) : Prop :=
  (∃ e ∈ w.history, c = setRequired e) ∧
    ∀ d ∈ w.history, d.recoveryAnchor.revision ≤ c.recoveryAnchor.revision

theorem Newest.unique (hw : (store P).Reachable w) (hc : Newest w c) (hd : Newest w d) : c = d := by
  obtain ⟨contents, hl, hknown⟩ := contents_of_reachable hw
  obtain ⟨⟨x, hx, rfl⟩, hnewest⟩ := hc
  obtain ⟨⟨y, hy, rfl⟩, hnewest'⟩ := hd
  exact hl.eq_of_revision (hknown x hx) (hknown y hy) (le_antisymm (hnewest' x hx) (hnewest y hy))

theorem Admits.isNewest {file : String} (hw : (store P).Reachable w) (hadmits : Admits w file c) :
    Newest w c := by
  obtain ⟨a, -, e, -, -, -, -, -, -, he, rfl⟩ := hadmits.content hw
  refine ⟨⟨e, he, rfl⟩, fun d hd => ?_⟩
  obtain ⟨e', -, heq, hle⟩ := Admits.newest hw hadmits hd
  have hrevision := congrArg (fun x : Central => x.recoveryAnchor.revision) heq
  simp only [setRequired_revision] at hrevision
  rw [setRequired_revision, hrevision]
  exact hle

/-- A step that merges nothing commits at most one call. -/
theorem Newest.step {action : Action} (hw : (store P).Reachable w) (hc : Newest w c)
    (hmerges : action.merges = false) (hstep : (store P).step w action w') :
    ∃ c', Newest w' c' ∧ Serves P c c' := by
  rcases landing_of_step hw
    hstep with ⟨hhistory, -⟩ | ⟨d, top, older, hhistory, hl, hknown, -, hlanding⟩
  · refine ⟨c, ?_, .refl⟩
    unfold Newest
    rw [hhistory]
    exact hc
  · cases hlanding with
    | @adopted x _ hx _ =>
      refine ⟨c, ?_, .refl⟩
      unfold Newest
      rw [hhistory]
      obtain ⟨⟨e, he, heq⟩, hnewest⟩ := hc
      exact ⟨⟨e, List.mem_cons_of_mem _ he, heq⟩, List.forall_mem_cons.mpr ⟨hnewest x hx, hnewest⟩⟩
    | @operated op tx n _ htop hop hrun =>
      have hrequired := hl.required top List.mem_cons_self
      have htopNewest : Newest w top :=
        ⟨⟨top, htop, (setRequired_eq hrequired).symm⟩,
          fun x hx => hl.revision_le (d := setRequired x) (hknown x hx)⟩
      obtain rfl := hc.unique hw htopNewest
      obtain ⟨host, call, rfl⟩ := hop
      obtain ⟨t, hperform, rfl, -⟩ := Call.operation_run.mp hrun
      have hanchor := call.perform_anchored rfl hperform
      refine ⟨setRevision (c.recoveryAnchor.revision + 1) t.central,
        ⟨⟨setRevision (c.recoveryAnchor.revision + 1) t.central, ?_, ?_⟩, ?_⟩,
        (Serves.refl.call call hperform).anchor _ rfl⟩
      · rw [hhistory]
        exact List.mem_cons_self
      · refine (setRequired_eq ?_).symm
        exact (congrArg RecoveryAnchor.auditRequired hanchor).trans hrequired
      · rw [hhistory]
        refine List.forall_mem_cons.mpr ⟨le_rfl, fun x hx => (htopNewest.2 x hx).trans ?_⟩
        change c.recoveryAnchor.revision ≤ c.recoveryAnchor.revision + 1
        omega
    | reconciled hmerged _ _ _ => simp [hmerged] at hmerges

theorem Newest.run {labels : List Action} (hw : (store P).Reachable w) (hc : Newest w c)
    (hrun : (store P).Run w labels w') (hmerges : ∀ action ∈ labels, action.merges = false) :
    ∃ c', Newest w' c' ∧ Serves P c c' :=
  hrun.stable (Q := fun action => action.merges = false)
    (I := fun w => ∃ c', Newest w c' ∧ Serves P c c')
    (fun _ _ _ hw hmerges hprior hstep => by
      obtain ⟨c', hc', hserves⟩ := hprior
      obtain ⟨c'', hc'', hserves'⟩ := hc'.step hw hmerges hstep
      exact ⟨c'', hc'', hserves.trans hserves'⟩) hw hmerges ⟨c, hc, .refl⟩

/-- Whatever starts, stops and dies in between, the contents admitted before and after a run
without a merge are joined by committed calls: what is proved of `Serves` holds of such runs. -/
theorem serves_of_run {file file' : String} {labels : List Action} (hw : (store P).Reachable w)
    (hrun : (store P).Run w labels w') (hmerges : ∀ action ∈ labels, action.merges = false)
    (hc : Admits w file c) (hd : Admits w' file' d) : Serves P c d := by
  obtain ⟨c', hc', hserves⟩ := (Admits.isNewest hw hc).run hw hrun hmerges
  obtain rfl := hc'.unique (hw.later ⟨_, hrun⟩) (Admits.isNewest (hw.later ⟨_, hrun⟩) hd)
  exact hserves

end Runs

end AgentJournal.Service
