import AgentJournal.Service.Listings
import Mathlib.Logic.Relation

/-! # Threads

A thread is read by an ascent to its root and a descent over the replies. A descent that comes to
its end has seen exactly the records that are connected to the anchor.
-/

namespace AgentJournal.Service
open Domain Foundation Storage Recovery Relation

variable {P : Platform} {c : Central} {space anchor : String}

section Replies

def InSpace (c : Central) (space id : String) : Prop :=
  ∃ r ∈ c.records, r.id = id ∧ r.spaceId = space

/-- A reply and its parent in one space. -/
def RepliesTo (c : Central) (space reply parent : String) : Prop :=
  InSpace c space reply ∧ InSpace c space parent ∧ ∃ r ∈ c.recordRelations,
    r.sourceRecordId = reply ∧ r.relationType = .replyTo ∧ r.targetRecordId = parent

/-- Records that are connected by replies. -/
def SameThread (c : Central) (space : String) : String → String → Prop := EqvGen (RepliesTo c space)

theorem any_inSpace (id : String) :
    (c.records.any fun t => t.id = id && t.spaceId = space) = true ↔ InSpace c space id := by
  simp [InSpace]

/-- A record replies to at most one other. -/
theorem RepliesTo.unique (hc : WellFormed P c) {reply p q : String} (hp : RepliesTo c space reply p)
    (hq : RepliesTo c space reply q) : p = q := by
  obtain ⟨-, -, r, hr, rfl, htype, rfl⟩ := hp
  obtain ⟨-, -, r', hr', hsource, htype', rfl⟩ := hq
  have hsame : r = r' := hc.tables.recordRelations.eq_of_collides hr hr' (by
    simp [Schema.collides, Storage.recordRelations, htype, htype', hsource])
  rw [hsame]

theorem mem_repliesTo {id child : String} (hid : InSpace c space id) :
    child ∈ repliesTo c space id ↔ RepliesTo c space child id := by
  unfold repliesTo sortTexts
  simp only [(List.perm_insertionSort _ _).mem_iff, List.mem_map, List.mem_filter, Bool.and_eq_true,
    decide_eq_true_eq, any_inSpace]
  constructor
  · rintro ⟨r, ⟨hr, ⟨htarget, htype⟩, hspace⟩, rfl⟩
    exact ⟨hspace, hid, r, hr, rfl, htype, htarget⟩
  · rintro ⟨hspace, -, r, hr, rfl, htype, htarget⟩
    exact ⟨r, ⟨hr, ⟨htarget, htype⟩, hspace⟩, rfl⟩

theorem parentOf_eq_some {id parent : String} (hid : InSpace c space id)
    (h : parentOf c space id = some parent) : RepliesTo c space id parent := by
  obtain ⟨r, hfind, rfl⟩ := Option.map_eq_some_iff.mp h
  have hr := List.find?_some hfind
  simp only [Bool.and_eq_true, decide_eq_true_eq, any_inSpace] at hr
  exact ⟨hid, hr.2, r, List.mem_of_find?_eq_some hfind, hr.1.1, hr.1.2, rfl⟩

theorem parentOf_eq_none {id : String} (h : parentOf c space id = none) (parent : String) :
    ¬ RepliesTo c space id parent := by
  rintro ⟨-, hspace, r, hr, rfl, htype, rfl⟩
  have hnone := List.find?_eq_none.mp (Option.map_eq_none_iff.mp h) r hr
  simp only [Bool.and_eq_true, decide_eq_true_eq, any_inSpace] at hnone
  exact hnone ⟨⟨trivial, htype⟩, hspace⟩

end Replies

section Walk
variable {maxDepth maxNodes maxEdges : ℕ}

/-- The ascent ends at a record of the thread that replies to nothing. -/
theorem ascend_eq_ok {fuel : ℕ} {id root : String} {ancestors : List String} {edges edges' : ℕ}
    (hid : InSpace c space id)
    (h : ascend c space maxDepth maxNodes maxEdges fuel id ancestors edges = .ok (root, edges')) :
    InSpace c space root ∧ SameThread c space id root ∧
    ∀ parent, ¬ RepliesTo c space root parent := by
  induction fuel generalizing id ancestors edges with
  | zero => simp [ascend] at h
  | succ fuel ih =>
    simp only [ascend, bind_eq_ok] at h
    obtain ⟨_, -, _, -, h⟩ := h
    cases hparent : parentOf c space id with
    | none =>
      simp only [hparent, Except.ok.injEq, Prod.mk.injEq] at h
      obtain ⟨rfl, -⟩ := h
      exact ⟨hid, .refl _, parentOf_eq_none hparent⟩
    | some parent =>
      simp only [hparent, bind_eq_ok] at h
      obtain ⟨_, -, h⟩ := h
      have hreply := parentOf_eq_some hid hparent
      obtain ⟨hroot, hsame, hnone⟩ := ih hreply.2.1 h
      exact ⟨hroot, .trans _ _ _ (.rel _ _ hreply) hsame, hnone⟩

/-- The state of a descent: what is seen is a part of the thread whose replies are seen or
pending. -/
structure Descending (c : Central) (space root : String) (pending seen : List String)
    (result : List (ℤ × String)) : Prop where
  inSpace : ∀ id ∈ pending ++ seen, InSpace c space id
  connected : ∀ id ∈ pending ++ seen, SameThread c space root id
  rooted : root ∈ pending ++ seen
  parents : ∀ id ∈ pending ++ seen, id = root ∨ ∃ parent ∈ seen, RepliesTo c space id parent
  replies : ∀ id ∈ seen, ∀ reply, RepliesTo c space reply id → reply ∈ pending ++ seen
  nodup : seen.Nodup
  ids : result.map Prod.snd = seen.reverse
  rows : ∀ x ∈ result, ∃ r ∈ c.records, r.spaceId = space ∧ x = (r.spaceSeq, r.id)

theorem Descending.start {root : String} (hroot : InSpace c space root) :
    Descending c space root [root] [] [] where
  inSpace := by simpa using hroot
  connected id hid := by
    rw [List.append_nil, List.mem_singleton] at hid
    rw [hid]
    exact .refl root
  rooted := by simp
  parents := by simp
  replies := by simp
  nodup := .nil
  ids := rfl
  rows := by simp

/-- A round of a descent moves a pending record to the seen ones and its replies to the pending. -/
theorem Descending.visit {root id : String} {pending seen : List String}
    {result : List (ℤ × String)}
    (h : Descending c space root (id :: pending) seen result) (hid : id ∉ seen) {row : RecordRow}
    (hrow : row ∈ c.records) (hspace : row.spaceId = space) (hrowId : row.id = id)
    {replies : List String} (hreplies : ∀ reply, reply ∈ replies ↔ RepliesTo c space reply id) :
    Descending c space root (replies ++ pending) (id :: seen) (result ++ [(row.spaceSeq, id)]) := by
  have hmem : ∀ x, x ∈ (replies ++ pending) ++ id :: seen ↔
      x ∈ replies ∨ x ∈ id :: pending ++ seen := by
    intro x
    simp only [List.mem_append, List.mem_cons]
    tauto
  have hself : id ∈ id :: pending ++ seen := by simp
  constructor
  · intro x hx
    rcases (hmem x).mp hx with hreply | hold
    · exact ((hreplies x).mp hreply).1
    · exact h.inSpace x hold
  · intro x hx
    rcases (hmem x).mp hx with hreply | hold
    · exact .trans _ _ _ (h.connected id hself) (.symm _ _ (.rel _ _ ((hreplies x).mp hreply)))
    · exact h.connected x hold
  · exact (hmem root).mpr (.inr h.rooted)
  · intro x hx
    rcases (hmem x).mp hx with hreply | hold
    · exact .inr ⟨id, List.mem_cons_self, (hreplies x).mp hreply⟩
    · refine (h.parents x hold).imp_right ?_
      rintro ⟨parent, hparent, hreply⟩
      exact ⟨parent, List.mem_cons_of_mem _ hparent, hreply⟩
  · intro x hx reply hreply
    rw [hmem]
    rcases List.mem_cons.mp hx with rfl | hseen
    · exact .inl ((hreplies reply).mpr hreply)
    · exact .inr (h.replies x hseen reply hreply)
  · exact List.nodup_cons.mpr ⟨hid, h.nodup⟩
  · simp [h.ids]
  · intro x hx
    rcases List.mem_append.mp hx with hold | hnew
    · exact h.rows x hold
    · rw [List.mem_singleton] at hnew
      exact ⟨row, hrow, hspace, by rw [hnew, hrowId]⟩

theorem descend_eq_ok {fuel edges : ℕ} {root : String} {pending : List (String × ℕ)}
    {seen : List String}
    {result ids : List (ℤ × String)}
    (hstate : Descending c space root (pending.map Prod.fst) seen result)
    (h : descend c space maxDepth maxNodes maxEdges fuel pending seen edges result = .ok ids) :
    ∃ seen', Descending c space root [] seen' ids := by
  induction fuel generalizing pending seen edges result with
  | zero =>
    cases pending with
    | nil =>
      simp only [descend, Except.ok.injEq] at h
      exact ⟨seen, h ▸ hstate⟩
    | cons x pending => simp [descend] at h
  | succ fuel ih =>
    cases pending with
    | nil =>
      simp only [descend, Except.ok.injEq] at h
      exact ⟨seen, h ▸ hstate⟩
    | cons x pending =>
      obtain ⟨id, depth⟩ := x
      simp only [descend, bind_eq_ok, failIf_eq_ok, required_eq_ok] at h
      obtain ⟨_, hid, _, -, row, hrow, _, hchildren, h⟩ := h
      have hfound := List.find?_some hrow
      simp only [Bool.and_eq_true, decide_eq_true_eq] at hfound
      -- the look-ahead row was not there, so all replies were taken
      generalize hremaining : min (maxNodes - (seen.length + 1) - pending.length)
        (maxEdges - edges) =
        remaining at h hchildren
      have htaken : (repliesTo c space id).take (remaining + 1) = repliesTo c space id := by
        refine List.take_of_length_le ?_
        have := mt Or.inl hchildren
        rw [List.length_take] at this
        omega
      have hin : InSpace c space id := hstate.inSpace id (by simp)
      rw [htaken] at h
      refine ih ?_ h
      rw [List.map_append, List.map_reverse, List.map_map]
      refine hstate.visit hid (List.mem_of_find?_eq_some hrow) hfound.2 hfound.1 fun reply => ?_
      simpa using mem_repliesTo hin

/-- A set that is closed under replies in both directions holds whole threads. -/
theorem SameThread.mem_of_closed {seen : List String} {a b : String} (h : SameThread c space a b)
    (hclosed : ∀ x y, RepliesTo c space x y → (x ∈ seen ↔ y ∈ seen)) : a ∈ seen ↔ b ∈ seen := by
  induction h with
  | rel x y hreply => exact hclosed x y hreply
  | refl => rfl
  | symm _ _ _ ih => exact ih.symm
  | trans _ _ _ _ _ ih ih' => exact ih.trans ih'

theorem Descending.mem_iff (hc : WellFormed P c) {root : String} {seen : List String}
    {result : List (ℤ × String)} (h : Descending c space root [] seen result)
    (hroot : ∀ parent, ¬ RepliesTo c space root parent) (id : String) :
    id ∈ seen ↔ SameThread c space root id := by
  refine ⟨h.connected id, fun hsame => ?_⟩
  refine (SameThread.mem_of_closed hsame fun x y hreply => ?_).mp h.rooted
  refine ⟨fun hx => ?_, fun hy => h.replies y hy x hreply⟩
  rcases h.parents x hx with rfl | ⟨parent, hparent, hreply'⟩
  · exact absurd hreply (hroot y)
  · rw [hreply.unique hc hreply']
    exact hparent

/-- A thread that is read is read whole: it is the records connected to the anchor, each once. -/
theorem threadIds_eq_ok (hc : WellFormed P c) (hanchor : InSpace c space anchor)
    {ids : List (ℤ × String)}
    (h : threadIds c space maxDepth maxNodes maxEdges anchor = .ok ids) :
    (ids.map Prod.snd).Nodup ∧ ∀ x, x ∈ ids ↔
      ∃ r ∈ c.records, r.spaceId = space ∧ SameThread c space anchor r.id ∧
      x = (r.spaceSeq, r.id) := by
  simp only [threadIds, threadRootId, bind_eq_ok] at h
  obtain ⟨_, ⟨⟨root, edges⟩, hascend, hroot⟩, h⟩ := h
  cases hroot
  obtain ⟨hin, hsame, hnone⟩ := ascend_eq_ok hanchor hascend
  obtain ⟨seen, hseen⟩ := descend_eq_ok (Descending.start hin) h
  have hmem : ∀ id, id ∈ ids.map Prod.snd ↔ SameThread c space root id := by
    intro id
    rw [hseen.ids, List.mem_reverse, hseen.mem_iff hc hnone]
  refine ⟨by rw [hseen.ids]; exact List.nodup_reverse.mpr hseen.nodup, fun x => ⟨fun hx => ?_, ?_⟩⟩
  · obtain ⟨r, hr, hspace, rfl⟩ := hseen.rows x hx
    have hconnected := (hmem r.id).mp (List.mem_map_of_mem hx)
    exact ⟨r, hr, hspace, .trans _ _ _ hsame hconnected, rfl⟩
  · rintro ⟨r, hr, hspace, hconnected, rfl⟩
    have hid := (hmem r.id).mpr (.trans _ _ _ (.symm _ _ hsame) hconnected)
    obtain ⟨x, hx, hsnd⟩ := List.mem_map.mp hid
    obtain ⟨r', hr', -, rfl⟩ := hseen.rows x hx
    rwa [eq_of_distinct (records_distinct hc) hr' hr hsnd] at hx

end Walk

section Route

open Classical in
/-- The records that are connected to an anchor. -/
noncomputable def threadRecords (anchor : String) (c : Central) : List RecordRow :=
  c.records.filter fun r => ∃ a ∈ c.records, a.id = anchor ∧ r.spaceId = a.spaceId ∧
    SameThread c a.spaceId anchor r.id

def threadRoute (P : Platform) (anchor : String) (c : Central) (page : PageQuery)
    (result : Page Record) :
    Prop :=
  ∃ identity, PagedRead P identity none (getThread P identity anchor page) c result

theorem mem_threadRecords {r : RecordRow} : r ∈ threadRecords anchor c ↔ r ∈ c.records ∧
    ∃ a ∈ c.records, a.id = anchor ∧ r.spaceId = a.spaceId ∧
    SameThread c a.spaceId anchor r.id := by
  simp [threadRecords]

/-- The rows a thread is read from are the records of the thread. -/
theorem threadIds_perm (hc : WellFormed P c) {a : RecordRow} (ha : a ∈ c.records)
    {ids : List (ℤ × String)}
    (h : threadIds c a.spaceId threadMaxDepth threadMaxNodes threadMaxEdges a.id = .ok ids) :
    ids.Perm ((threadRecords a.id c).map fun r => (r.spaceSeq, r.id)) := by
  obtain ⟨hnodup, hmem⟩ := threadIds_eq_ok hc ⟨a, ha, rfl, rfl⟩ h
  have hdistinct : ((threadRecords a.id c).map fun r => (r.spaceSeq, r.id)).Nodup := by
    rw [List.Nodup, List.pairwise_map]
    refine ((records_distinct hc).sublist List.filter_sublist).imp fun {r r'} hne heq => hne ?_
    exact congrArg Prod.snd heq
  rw [List.perm_ext_iff_of_nodup (List.Nodup.of_map _ hnodup) hdistinct]
  intro x
  rw [hmem, List.mem_map]
  constructor
  · rintro ⟨r, hr, hspace, hsame, rfl⟩
    exact ⟨r, mem_threadRecords.mpr ⟨hr, a, ha, rfl, hspace, hsame⟩, rfl⟩
  · rintro ⟨r, hr, rfl⟩
    obtain ⟨hrecord, a', ha', hid, hspace, hsame⟩ := mem_threadRecords.mp hr
    rw [eq_of_distinct (records_distinct hc) ha' ha hid] at hspace hsame
    exact ⟨r, hrecord, hspace, hsame, rfl⟩

theorem threadRows_eq (hc : WellFormed P c) {a : RecordRow} (ha : a ∈ c.records)
    {ids : List (ℤ × String)}
    (h : threadIds c a.spaceId threadMaxDepth threadMaxNodes threadMaxEdges a.id = .ok ids)
    (after : ℤ × String) (limit : ℕ) : threadRows ids after limit =
      (firstRows RecordRow.position limit ((threadRecords a.id c).filter fun r =>
        position after.1 after.2 < RecordRow.position r)).map fun r => (r.spaceSeq, r.id) := by
  have hdistinct : (threadRecords a.id c).Pairwise fun r r' =>
    RecordRow.position r ≠ RecordRow.position r' :=
    (positions_distinct hc).sublist List.filter_sublist
  have hperm :=
    (threadIds_perm hc ha h).filter fun x => decide (position after.1 after.2 < position x.1 x.2)
  rw [List.filter_map] at hperm
  unfold threadRows
  rw [← firstRows_perm hperm.symm, firstRows_map]
  · rfl
  · rw [List.pairwise_map]
    exact hdistinct.sublist List.filter_sublist

/-- A page of a thread after a position. -/
theorem thread_page (hP : P.EncodesCursors) {f : Fetched Record} (hc : Served P f.central)
    (hroute : threadRoute P anchor f.central f.query f.page) :
    ∃ after, PageOf (fun x => position x.seq x.id) RecordRow.position (threadRecords anchor)
        RendersRecord (SequenceCursor P fun _ _ => True) f after ∧
      (f.query.cursor = none → ∀ r ∈ threadRecords anchor f.central, after r = true) ∧
      ∀ cursor p, f.query.cursor = some cursor → SequenceCursor P (fun _ _ => True) cursor p →
        ∀ r ∈ threadRecords anchor f.central, after r = true ↔ p < RecordRow.position r := by
  have hwell := hc.wellFormed
  obtain ⟨identity, _, host, _, codec, _, t, -, -, h⟩ := hroute
  obtain ⟨hvalid, a, scope, after, ids, u, xs, ha, hids, hafter, hrendered, hfinish⟩ :=
    getThread_eq_ok h
  have hcentral : (Session.start host f.central).central = f.central := rfl
  rw [hcentral] at ha hids hrendered
  obtain ⟨-, hstart, hissued⟩ := sequencePosition_eq_ok hP hafter
  obtain ⟨hmem, rfl⟩ : a ∈ f.central.records ∧ a.id = anchor :=
    ⟨List.mem_of_find?_eq_some ha, by simpa using List.find?_some ha⟩
  refine ⟨fun r => position after.1 after.2 < RecordRow.position r, ?_,
    fun hcursor r hr => ?_, fun cursor p hcursor hp r hr => ?_⟩
  · rw [threadRows_eq hwell hmem hids, List.forall₂_map_left_iff] at hrendered
    refine PageOf.of_finishPage ((positions_distinct hwell).sublist List.filter_sublist)
      (fun r x hx => hx.position hwell) (limit_of_page hvalid) ?_ hfinish
      fun r hr x cursor hx hencode => sequenceCursor_of_encode hc hx trivial hencode
    refine List.Forall₂.imp ?_ ((List.forall₂_and_left _ _).mpr ⟨fun _ hr => hr, hrendered⟩)
    rintro r x ⟨hr, hx⟩
    exact ⟨(mem_threadRecords.mp (List.mem_filter.mp (mem_of_mem_firstRows hr)).1).1, hx⟩
  · rw [hstart hcursor]
    simpa using (position_start_lt hwell (mem_threadRecords.mp hr).1).2
  · obtain ⟨rfl, -⟩ := hissued _ cursor p hcursor hp
    rw [decide_eq_true_eq]

end Route

/-- Every listing refines its plain filtered list, whatever calls are served between the pages: the
keys increase, no row is shown twice, a row that is listed at every fetch is shown exactly once, and
in an unchanged store the pages are the whole sorted list. The seek of the records listing shows the
rows of the plain condition. -/
theorem listing_pagination (hP : P.EncodesCursors) (hc : Served P c) :
    (∀ f fetches, Traversal P (spacesRoute P) c none (f :: fetches) →
      Paginates Space.id SpaceRow.id publicSpaces (fun _ r x => x = spaceOf r) (f :: fetches)) ∧
    (∀ space f fetches, Traversal P (principalsRoute P space) c none (f :: fetches) →
      Paginates Principal.id Principal.id activePrincipals (fun _ r x => x = r) (f :: fetches)) ∧
    (∀ space q f fetches, Traversal P (recordsRoute P space q) c none (f :: fetches) →
      Paginates (fun x => position x.seq x.id) RecordRow.position
      (filteredRecords space q) RendersRecord
        (f :: fetches)) ∧
    (∀ anchor f fetches, Traversal P (threadRoute P anchor) c none (f :: fetches) →
      Paginates (fun x => position x.seq x.id) RecordRow.position
      (threadRecords anchor) RendersRecord
        (f :: fetches)) ∧
    (∀ space q f fetches matched since, P.ftsQuery q.q = some matched →
      searchSince P q.since = .ok since →
      Traversal P (searchRoute P space q) c none (f :: fetches) →
      (q.order = .seq → Paginates (fun x => position x.record.seq x.record.id)
        (fun m => RecordRow.position m.row) (filteredMatches P space q matched since)
        (RendersMatch P q.q)
        (f :: fetches)) ∧
      (q.order = .rank → Paginates (fun x => rankPosition x.score x.record.id)
        (fun m => rankPosition (matchScore P q.q m) m.row.id)
        (filteredMatches P space q matched since)
        (RendersMatch P q.q) (f :: fetches))) ∧
    (∀ space q (f : Fetched Record) d cursor, Serves P c f.central →
      recordsRoute P space q f.central f.query f.page →
      f.page.nextCursor = some cursor → Serves P f.central d →
      ∀ codec scope decoded, CursorCodec.decode P codec scope cursor = .ok decoded →
        ∃ sequence id, sequenceOf (some decoded) = some (sequence, id) ∧ ∀ filter limit,
          (∀ r, filter r = true → r.spaceId = space) →
          listRecordRows d filter (recordSequenceLowerBound q.afterSeq sequence) sequence id limit =
            firstRows RecordRow.position limit (d.records.filter fun r => filter r &&
              ((q.afterSeq.getD 0).toNat : ℤ) < r.spaceSeq &&
              position sequence id < RecordRow.position r)) := by
  refine ⟨fun f fetches h => ?_, fun space f fetches h => ?_, fun space q f fetches h => ?_,
    fun anchor f fetches h => ?_, fun space q f fetches matched since hmatched hsince h => ?_,
    fun space q f d cursor hf hroute hcursor hserves codec scope decoded hdecode =>
      seek_eq_plain hP (hc.later hf) hroute hcursor hserves hdecode⟩
  · have hmem := h.mem hc
    exact .of_traversal h fun g hg => spaces_page hP (hmem g hg).1 (hmem g hg).2
  · have hmem := h.mem hc
    exact .of_traversal h fun g hg => principals_page hP (hmem g hg).1 (hmem g hg).2
  · have hmem := h.mem hc
    obtain ⟨e, he, hjoined⟩ := h.joined
    have hwell := (hc.later he).wellFormed
    exact .of_traversal h fun g hg =>
      records_page hP (hmem g hg).1 hwell (hjoined g hg).journaled (hmem g hg).2
  · have hmem := h.mem hc
    exact .of_traversal h fun g hg => thread_page hP (hmem g hg).1 (hmem g hg).2
  · have hmem := h.mem hc
    obtain ⟨e, he, hjoined⟩ := h.joined
    have hwell := (hc.later he).wellFormed
    refine ⟨fun horder => ?_, fun horder => ?_⟩
    · exact .of_traversal h fun g hg =>
        search_seq_page hP (hmem g hg).1 hwell (hjoined g hg).journaled
        horder hmatched hsince (hmem g hg).2
    · exact .of_traversal h fun g hg => search_rank_page hP (hmem g hg).1 horder hmatched hsince
        (hmem g hg).2

section Sample

def sampleListing : ListRecordsQuery := ⟨⟨none, none⟩, none, none, none, none, none⟩

/-- Without selectors the scope is the same in all stores. -/
theorem recordsScope_sampleListing (c d : Central) (actor space : String) :
    recordsScope P c actor space sampleListing = recordsScope P d actor space sampleListing := rfl

set_option maxRecDepth 20000 in
theorem sampleRecords_facts : sampleInboxes.map (fun x =>
      x.2.records.map (fun r => (r.spaceId, r.spaceSeq)) = [("lab", 1), ("lab", 2), ("lab", 3)] &&
      x.2.records.all (·.id.utf8ByteSize ≤ 36) && permits x.2 samplePrincipal "lab" false &&
      sampleReader x.2 = some samplePrincipal) = some true ∧
    (recordsScope .sample sampleStore samplePrincipal "lab"
      sampleListing).filterFingerprint.length ≤ 128 := by
  decide +kernel

theorem sampleRecords_served : ∃ c s, Served .sample c ∧
    c.records.map (fun r => (r.spaceId, r.spaceSeq)) = [("lab", 1), ("lab", 2), ("lab", 3)] ∧
    (∀ r ∈ c.records, r.id.utf8ByteSize ≤ 36) ∧ permits c samplePrincipal "lab" false = true ∧
    (readActor .sample (.bearer sampleToken)).run (.start sampleHost c) =
    .ok (samplePrincipal, s) := by
  obtain ⟨⟨c, d⟩, hstores, hfacts⟩ := Option.map_eq_some_iff.mp sampleRecords_facts.1
  simp only [Bool.and_eq_true, decide_eq_true_eq, List.all_eq_true] at hfacts
  obtain ⟨⟨⟨hrecords, hids⟩, hpermits⟩, hreader⟩ := hfacts
  obtain ⟨s, hactor⟩ := exists_sampleReader hreader
  obtain ⟨hserves, hserves'⟩ := serves_of_sampleInboxes hstores
  exact ⟨d, s, .later (.of_content (.inr sampleStore_unadopted)) (hserves.trans hserves'), hrecords,
    hids,
    hpermits, hactor⟩

theorem sampleRecords_filtered {c : Central}
    (h : c.records.map (fun r => (r.spaceId, r.spaceSeq)) = [("lab", 1), ("lab", 2), ("lab", 3)]) :
    filteredRecords "lab" sampleListing c = c.records := by
  refine List.filter_eq_self.mpr fun r hr => ?_
  have hmem : (r.spaceId, r.spaceSeq) ∈ [("lab", (1 : ℤ)), ("lab", 2), ("lab", 3)] :=
    h ▸ List.mem_map_of_mem hr
  have hspace : r.spaceId = "lab" ∧ 0 < r.spaceSeq := by
    simp only [List.mem_cons, Prod.mk.injEq, List.not_mem_nil, or_false] at hmem
    rcases hmem with ⟨hspace, hseq⟩ | ⟨hspace, hseq⟩ | ⟨hspace, hseq⟩ <;> exact ⟨hspace, by omega⟩
  simp [listed, sampleListing, resolveSpacePrincipal, hspace]

/-- Three records in pages of one. -/
theorem listing_pagination_sample : ∃ c fetches, Served .sample c ∧
    Traversal .sample (recordsRoute .sample "lab" sampleListing) c none fetches ∧
    3 ≤ fetches.length ∧
    Ended fetches ∧ (items fetches).map (·.seq) = [1, 2, 3] := by
  obtain ⟨c, s, hserved, hrecords, hids, hpermits, hactor⟩ := sampleRecords_served
  have hseqs : c.records.map (·.spaceSeq) = [1, 2, 3] := by
    have hmap := congrArg (List.map Prod.snd) hrecords
    rwa [List.map_map] at hmap
  have hkeyed := hserved.sound.keyed fun hnil => by simp [hnil] at hseqs
  obtain ⟨secret, hsecret⟩ := Option.isSome_iff_exists.mp hkeyed
  have hkey := keyedBy_of_secret hserved.wellFormed hsecret
  have hvalid : ListRecordsQuery.validate { sampleListing with page := ⟨none, some 1⟩ } =
    .ok () := by decide
  have hfingerprint := sampleRecords_facts.2
  rw [recordsScope_sampleListing sampleStore c] at hfingerprint
  obtain ⟨f, fetches, htraversal, hended, hreads⟩ :=
    ReadsRecords.whole Platform.sample_boundsCursors hserved
    hids hactor hpermits hkey hfingerprint hvalid
  have hpaginates :=
    (listing_pagination (Platform.coded_encodesCursors _ _) hserved).2.2.1 _ _ _ _ htraversal
  have hwhole := hpaginates.whole hended c fun g hg => (hreads g hg).central
  have hsorted : c.records.Pairwise fun a b => RecordRow.position a ≤ RecordRow.position b := by
    have hincreasing : (c.records.map (·.spaceSeq)).Pairwise (· < ·) := by
      rw [hseqs]
      decide
    exact (List.pairwise_map.mp hincreasing).imp fun hlt =>
      (Prod.Lex.toLex_lt_toLex.mpr (.inl hlt)).le
  rw [sampleRecords_filtered hrecords, hsorted.insertionSort_eq] at hwhole
  have hshown : (items (f :: fetches)).map (·.seq) = [1, 2, 3] := by
    rw [← hseqs]
    refine (List.forall₂_eq_eq_eq ▸ ?_ : c.records.map (·.spaceSeq) =
      (items (f :: fetches)).map (·.seq)).symm
    rw [List.forall₂_map_left_iff, List.forall₂_map_right_iff]
    exact hwhole.imp fun r x hx => (Prod.mk.inj (hx.position hserved.wellFormed)).1.symm
  have hpages : ∀ g ∈ f :: fetches, g.page.items.length ≤ 1 := by
    intro g hg
    obtain ⟨hserved', hroute⟩ := htraversal.mem hserved g hg
    obtain ⟨after, hpage, -⟩ :=
      records_page (Platform.coded_encodesCursors _ _) hserved' hserved'.wellFormed
      (.refl _) hroute
    simpa [PageQuery.effectiveLimit, (hreads g hg).limit] using hpage.length_le
  have hlength := length_items_le hpages
  have hthree := congrArg List.length hshown
  rw [List.length_map] at hthree
  refine ⟨c, f :: fetches, hserved, htraversal, ?_, hended, hshown⟩
  simpa [hthree] using hlength

/-- A reply to the record of the sample store, an answer to the reply, and the store with both. -/
def sampleReplies : Option (String × String × Central) := do
  let (reply, s) ← succeeded ((appendRecord .sample sampleToken "lab" "second" relatedInput).run
    (.start (sampleHostAt 1) sampleStore))
  let (answer, t) ← succeeded ((appendRecord .sample sampleToken "lab" "third"
    { sampleInput with relations := [⟨.replyTo, reply.record.id⟩] }).run
      (.start (sampleHostAt 2) s.central))
  return (reply.record.id, answer.record.id, t.central)

theorem sampleReplies_served {reply answer : String} (h : sampleReplies = some (reply, answer, c)) :
    Served .sample c := by
  simp only [sampleReplies, Option.bind_eq_bind, Option.bind_eq_some_iff, succeeded_eq_some,
    Option.pure_def, Option.some.injEq, Prod.mk.injEq] at h
  obtain ⟨⟨_, s⟩, hreply, ⟨_, t⟩, hanswer, -, -, rfl⟩ := h
  have hserves : Serves .sample sampleStore s.central :=
    Serves.refl.call (.appendRecord sampleToken "lab" "second" relatedInput)
      (run_bind_eq_ok.mpr ⟨_, s, hreply, rfl⟩)
  have hserves' : Serves .sample s.central t.central :=
    Serves.refl.call (.appendRecord sampleToken "lab" "third" _)
      (run_bind_eq_ok.mpr ⟨_, t, hanswer, rfl⟩)
  exact .later (.of_content (.inr sampleStore_unadopted)) (hserves.trans hserves')

end Sample

end AgentJournal.Service
