import AgentJournal.Service.Rounds

/-! # The budgets of a thread

A thread is read exactly when its tree fits the budgets. The invariant of the descent counts: every
record but the root was found along one edge, so the edges that are spent count what is found.
-/

namespace AgentJournal.Service
open Domain Foundation Storage

variable {P : Platform} {c : Central} {space : String} {maxDepth maxNodes maxEdges : ℕ}

section Trees

open Classical in
/-- The records whose replies lead to a root. -/
noncomputable def threadTree (c : Central) (space root : String) : List RecordRow :=
  c.records.filter fun r => r.spaceId = space ∧ ∃ n, Climbs (RepliesTo c space) n r.id root

open Classical in
/-- The replies inside a tree. -/
noncomputable def treeEdges (c : Central) (space root : String) : List RecordRelationRow :=
  c.recordRelations.filter fun e => e.relationType = .replyTo ∧
    e.sourceRecordId ∈ (threadTree c space root).map (·.id) ∧
    e.targetRecordId ∈ (threadTree c space root).map (·.id)

/-- The tree of an anchor that is some replies below the root fits the budgets. -/
structure FitsBudgets (c : Central) (space : String) (maxDepth maxNodes maxEdges : ℕ)
    (anchor root : String)
    (height : ℕ) : Prop where
  ascent : Climbs (RepliesTo c space) height anchor root
  top : Topmost (RepliesTo c space) root
  chain : height ≤ maxDepth
  depth : ∀ id n, Climbs (RepliesTo c space) n id root → n ≤ maxDepth
  nodes : (threadTree c space root).length ≤ maxNodes
  edges : height + (treeEdges c space root).length ≤ maxEdges

theorem repliesTo_unique (hc : WellFormed P c) : Relator.RightUnique (RepliesTo c space) :=
  fun _ _ _ h h' => h.unique hc h'

theorem inSpace_of_climbs {id root : String} {n : ℕ} (hroot : InSpace c space root)
    (h : Climbs (RepliesTo c space) n id root) : InSpace c space id := by
  cases h with
  | refl => exact hroot
  | step hreply _ => exact hreply.1

theorem mem_threadTree {id root : String} (hroot : InSpace c space root) :
    id ∈ (threadTree c space root).map (·.id) ↔ ∃ n, Climbs (RepliesTo c space) n id root := by
  simp only [threadTree, List.mem_map, List.mem_filter, decide_eq_true_eq]
  constructor
  · rintro ⟨r, ⟨-, -, hclimb⟩, rfl⟩
    exact hclimb
  · rintro ⟨n, hclimb⟩
    obtain ⟨r, hr, rfl, hspace⟩ := inSpace_of_climbs hroot hclimb
    exact ⟨r, ⟨hr, hspace, n, hclimb⟩, rfl⟩

theorem threadTree_nodup (hc : WellFormed P c) (root : String) :
    ((threadTree c space root).map (·.id)).Nodup := by
  rw [List.Nodup, List.pairwise_map]
  exact (records_distinct hc).sublist List.filter_sublist

/-- Replies are told apart by their sources. -/
theorem replies_nodup (hc : WellFormed P c) {p : RecordRelationRow → Bool}
    (hp : ∀ e, p e = true → e.relationType = .replyTo) :
    ((c.recordRelations.filter p).map (·.sourceRecordId)).Nodup := by
  rw [List.Nodup, List.pairwise_map]
  refine List.Pairwise.imp_of_mem ?_ (hc.tables.recordRelations.keys.sublist List.filter_sublist)
  intro e e' he he' hkey hsource
  have he := List.mem_filter.mp he
  have he' := List.mem_filter.mp he'
  refine hkey ?_
  rw [hc.tables.recordRelations.eq_of_collides he.1 he'.1 (by
    simp [Schema.collides, Storage.recordRelations, hp e he.2, hp e' he'.2, hsource])]

/-- A tree has an edge for every record but the root. -/
theorem treeEdges_length (hc : WellFormed P c) {root : String} (hroot : InSpace c space root)
    (htop : Topmost (RepliesTo c space) root) :
    (treeEdges c space root).length + 1 = (threadTree c space root).length := by
  have hmem : ∀ {id : String}, id ∈ (treeEdges c space root).map (·.sourceRecordId) ↔
      ∃ parent, RepliesTo c space id parent ∧ ∃ n, Climbs (RepliesTo c space) n parent root := by
    intro id
    simp only [treeEdges, List.mem_map (f := fun e : RecordRelationRow => e.sourceRecordId),
      List.mem_filter, decide_eq_true_eq, mem_threadTree hroot]
    constructor
    · rintro ⟨e, ⟨he, htype, ⟨_, hsource⟩, n, htarget⟩, rfl⟩
      exact ⟨_,
        ⟨inSpace_of_climbs hroot hsource, inSpace_of_climbs hroot htarget, e, he, rfl, htype, rfl⟩,
        n, htarget⟩
    · rintro ⟨parent, hreply, n, hclimb⟩
      have hstep := Climbs.step hreply hclimb
      obtain ⟨-, -, e, he, rfl, htype, rfl⟩ := hreply
      exact ⟨e, ⟨he, htype, ⟨n + 1, hstep⟩, n, hclimb⟩, rfl⟩
  have hperm : (root :: (treeEdges c space root).map (·.sourceRecordId)).Perm
      ((threadTree c space root).map (·.id)) := by
    have hnodup : ((treeEdges c space root).map (·.sourceRecordId)).Nodup :=
      replies_nodup hc fun e he => (of_decide_eq_true he).1
    refine (List.perm_ext_iff_of_nodup (List.nodup_cons.mpr ⟨?_, hnodup⟩)
      (threadTree_nodup hc root)).mpr ?_
    · intro hsource
      obtain ⟨parent, hreply, -⟩ := hmem.mp hsource
      exact htop parent hreply
    · intro id
      rw [List.mem_cons, hmem, mem_threadTree hroot]
      constructor
      · rintro (rfl | ⟨parent, hreply, n, hclimb⟩)
        · exact ⟨0, .refl _⟩
        · exact ⟨n + 1, .step hreply hclimb⟩
      · rintro ⟨n, hclimb⟩
        cases hclimb with
        | refl => exact .inl rfl
        | step hreply hclimb => exact .inr ⟨_, hreply, _, hclimb⟩
  simpa using hperm.length_eq

/-- A record is connected to a member of a tree when its replies lead to the root. -/
theorem sameThread_iff (hc : WellFormed P c) {anchor id root : String} {n : ℕ}
    (hanchor : Climbs (RepliesTo c space) n anchor root) (htop : Topmost (RepliesTo c space) root) :
    SameThread c space anchor id ↔ ∃ m, Climbs (RepliesTo c space) m id root := by
  have hclosed : ∀ x y, SameThread c space x y → ((∃ m, Climbs (RepliesTo c space) m x root) ↔
      ∃ m, Climbs (RepliesTo c space) m y root) := by
    intro x y h
    induction h with
    | rel x y hreply =>
      constructor
      · rintro ⟨m, hclimb⟩
        cases hclimb with
        | refl => exact absurd hreply (htop y)
        | step hreply' hclimb => exact ⟨_, hreply.unique hc hreply' ▸ hclimb⟩
      · rintro ⟨m, hclimb⟩
        exact ⟨m + 1, .step hreply hclimb⟩
    | refl => rfl
    | symm _ _ _ ih => exact ih.symm
    | trans _ _ _ _ _ ih ih' => exact ih.trans ih'
  have hto : ∀ {x : String} {m : ℕ}, Climbs (RepliesTo c space) m x root →
    SameThread c space x root := by
    intro x m h
    induction h with
    | refl => exact .refl _
    | step hreply _ ih => exact .trans _ _ _ (.rel _ _ hreply) (ih hanchor htop hclosed)
  constructor
  · intro h
    exact (hclosed _ _ h).mp ⟨n, hanchor⟩
  · rintro ⟨m, hclimb⟩
    exact .trans _ _ _ (hto hanchor) (.symm _ _ (hto hclimb))

end Trees

section Exploration
variable {root : String} {base : ℕ}

/-- What a descent that started with some edges knows: nothing is found twice, and every record but
the root was found along an edge. -/
structure Exploring (c : Central) (space : String) (maxDepth : ℕ) (root : String) (base : ℕ)
    (s : Descent) :
    Prop where
  state : Descending c space root (s.pending.map Prod.fst) s.seen s.result
  distinct : (s.pending.map Prod.fst ++ s.seen).Nodup
  depths : ∀ x ∈ s.pending, Climbs (RepliesTo c space) x.2 x.1 root
  shallow : ∀ id ∈ s.seen, ∃ n ≤ maxDepth, Climbs (RepliesTo c space) n id root
  spent : s.edges + 1 = base + s.pending.length + s.seen.length

theorem Exploring.start (hroot : InSpace c space root) (edges : ℕ) :
    Exploring c space maxDepth root edges ⟨[(root, 0)], [], edges, []⟩ where
  state := .start hroot
  distinct := by simp
  depths := by
    intro x hx
    obtain rfl := List.mem_singleton.mp hx
    exact .refl root
  shallow := by simp
  spent := by simp

theorem Exploring.visit (hc : WellFormed P c) (htop : Topmost (RepliesTo c space) root)
    {s : Descent}
    (h : Exploring c space maxDepth root base s) {id : String} {depth : ℕ}
    {pending : List (String × ℕ)}
    (hpending : s.pending = (id, depth) :: pending) (hdepth : depth ≤ maxDepth) {row : RecordRow}
    (hrow : (c.records.find? fun r => r.id = id && r.spaceId = space) = some row) :
    Exploring c space maxDepth root base
      ⟨((repliesTo c space id).map fun child => (child, depth + 1)).reverse ++
        pending, id :: s.seen,
        s.edges + (repliesTo c space id).length, s.result ++ [(row.spaceSeq, id)]⟩ := by
  obtain ⟨hstate, hdistinct, hdepths, hshallow, hspent⟩ := h
  rw [hpending] at hstate hdistinct hdepths hspent
  have hin : InSpace c space id := hstate.inSpace id (by simp)
  have hclimb : Climbs (RepliesTo c space) depth id root := hdepths _ List.mem_cons_self
  rw [List.map_cons, List.cons_append, List.nodup_cons, List.mem_append, not_or] at hdistinct
  obtain ⟨⟨hpassed, hseen⟩, hdistinct⟩ := hdistinct
  have hfound := List.find?_some hrow
  simp only [Bool.and_eq_true, decide_eq_true_eq] at hfound
  have hmap : (((repliesTo c space id).map fun child => (child, depth + 1)).reverse ++ pending).map
    Prod.fst =
      (repliesTo c space id).reverse ++ pending.map Prod.fst := by
    rw [List.map_append, List.map_reverse, List.map_map]
    exact congrArg (List.reverse · ++ _) (List.map_id _)
  constructor
  · rw [hmap]
    exact hstate.visit hseen (List.mem_of_find?_eq_some hrow) hfound.2 hfound.1 fun reply => by
      simpa using mem_repliesTo hin
  · have hnodup : (repliesTo c space id).Nodup := by
      refine ((List.perm_insertionSort _ _).nodup_iff).mpr (replies_nodup hc fun e he => ?_)
      simp only [Bool.and_eq_true, decide_eq_true_eq] at he
      exact he.1.2
    have hnew : ∀ reply ∈ repliesTo c space id, reply ∉ id :: (pending.map Prod.fst ++ s.seen) := by
      intro reply hmem hold
      have hreply := (mem_repliesTo hin).mp hmem
      rcases hstate.parents reply hold with rfl | ⟨parent, hparent, hreply'⟩
      · exact htop id hreply
      · exact hseen (hreply'.unique hc hreply ▸ hparent)
    rw [hmap, List.append_assoc, List.nodup_append']
    refine ⟨List.nodup_reverse.mpr hnodup, ?_, ?_⟩
    · exact List.perm_middle.nodup_iff.mpr
        (List.nodup_cons.mpr ⟨by simp [hpassed, hseen], hdistinct⟩)
    · intro reply hreply hold
      exact hnew reply (List.mem_reverse.mp hreply) (List.perm_middle.mem_iff.mp hold)
  · intro x hx
    rcases List.mem_append.mp hx with hnew | hold
    · obtain ⟨reply, hreply, rfl⟩ := List.mem_map.mp (List.mem_reverse.mp hnew)
      exact .step ((mem_repliesTo hin).mp hreply) hclimb
    · exact hdepths x (List.mem_cons_of_mem _ hold)
  · intro x hx
    rcases List.mem_cons.mp hx with rfl | hold
    · exact ⟨depth, hdepth, hclimb⟩
    · exact hshallow x hold
  · simp only [List.length_cons, List.length_append, List.length_reverse,
      List.length_map] at hspent ⊢
    omega

/-- What is found is a part of the tree. -/
theorem Exploring.found_le (hroot : InSpace c space root) {s : Descent}
    (h : Exploring c space maxDepth root base s) :
    s.pending.length + s.seen.length ≤ (threadTree c space root).length := by
  have hsub : s.pending.map Prod.fst ++ s.seen ⊆ (threadTree c space root).map (·.id) := by
    intro id hid
    rw [mem_threadTree hroot]
    rcases List.mem_append.mp hid with hpending | hseen
    · obtain ⟨x, hx, rfl⟩ := List.mem_map.mp hpending
      exact ⟨x.2, h.depths x hx⟩
    · obtain ⟨n, -, hclimb⟩ := h.shallow id hseen
      exact ⟨n, hclimb⟩
  simpa using (h.distinct.subperm hsub).length_le

/-- A tree within the budgets leaves a round nothing to refuse. -/
theorem Exploring.progress (hc : WellFormed P c) (htop : Topmost (RepliesTo c space) root)
    (hroot : InSpace c space root)
    (hdepth : ∀ id n, Climbs (RepliesTo c space) n id root → n ≤ maxDepth)
    (hnodes : (threadTree c space root).length ≤ maxNodes)
    (hedges : base + (treeEdges c space root).length ≤ maxEdges) {s : Descent}
    (h : Exploring c space maxDepth root base s)
    (hroom : Room maxNodes maxEdges s) (hbudget : maxNodes < 2 ^ 63) {id : String} {depth : ℕ}
    {pending : List (String × ℕ)} (hpending : s.pending = (id, depth) :: pending) :
    ∃ t, descentRound c space maxDepth maxNodes maxEdges s = .again t ∧
      Exploring c space maxDepth root base t := by
  have hmem : (id, depth) ∈ s.pending := hpending ▸ List.mem_cons_self
  have hshallow := hdepth id depth (h.depths _ hmem)
  obtain ⟨r, hr, hrid, hspace⟩ := h.state.inSpace id
    (List.mem_append_left _ (List.mem_map_of_mem (f := Prod.fst) hmem))
  have hisSome : (c.records.find? fun r => r.id = id && r.spaceId = space).isSome := by
    rw [List.find?_isSome]
    exact ⟨r, hr, by simp [hrid, hspace]⟩
  obtain ⟨row, hrow⟩ := Option.isSome_iff_exists.mp hisSome
  have hdistinct := h.distinct
  rw [hpending, List.map_cons, List.cons_append, List.nodup_cons, List.mem_append,
    not_or] at hdistinct
  have htree := treeEdges_length hc hroot htop
  have hnext := h.visit hc htop hpending hshallow hrow
  have hfound := hnext.found_le hroot
  have hspent := hnext.spent
  simp only [List.length_cons, List.length_append, List.length_reverse,
    List.length_map] at hfound hspent
  refine ⟨_,
    (descentRound_again hbudget hroom hpending).mpr ⟨hdistinct.1.2, hshallow, ?_, ?_, ?_, row, hrow,
    rfl⟩, hnext⟩
  · rw [hpending, List.length_cons]
    omega
  · omega
  · intro hdeepest
    refine List.eq_nil_iff_forall_not_mem.mpr fun reply hreply => ?_
    have hreply := (mem_repliesTo ⟨r, hr, hrid, hspace⟩).mp hreply
    have := hdepth _ _ (.step hreply (h.depths _ hmem))
    simp only at this
    omega

/-- A descent that has come to its end has seen the tree. -/
theorem Exploring.seen_perm (hc : WellFormed P c) (hroot : InSpace c space root) {s : Descent}
    (h : Exploring c space maxDepth root base s) (hpending : s.pending = []) :
    s.seen.Perm ((threadTree c space root).map (·.id)) := by
  have hstate := h.state
  rw [hpending, List.map_nil] at hstate
  refine (List.perm_ext_iff_of_nodup hstate.nodup (threadTree_nodup hc root)).mpr fun id => ?_
  rw [mem_threadTree hroot]
  constructor
  · intro hid
    obtain ⟨n, -, hclimb⟩ := h.shallow id hid
    exact ⟨n, hclimb⟩
  · rintro ⟨n, hclimb⟩
    have hrooted : root ∈ s.seen := by simpa using hstate.rooted
    clear hroot
    induction hclimb with
    | refl => exact hrooted
    | step hreply _ ih => exact hstate.replies _ (ih h hstate hrooted) _ hreply

end Exploration

section Projection

theorem parent_iff (hc : WellFormed P c) {id parent : String} (hid : InSpace c space id) :
    Parent c space id parent ↔ RepliesTo c space id parent := by
  refine ⟨parentOf_eq_some hid, fun hreply => ?_⟩
  cases hparent : parentOf c space id with
  | none => exact absurd hreply (parentOf_eq_none hparent parent)
  | some p =>
    rw [Parent, hparent, (parentOf_eq_some hid hparent).unique hc hreply]

theorem climbs_parent_iff (hc : WellFormed P c) {anchor root : String} {n : ℕ}
    (hanchor : InSpace c space anchor) :
    Climbs (Parent c space) n anchor root ↔ Climbs (RepliesTo c space) n anchor root := by
  constructor
  · intro h
    induction h with
    | refl => exact .refl _
    | step hparent _ ih =>
      have hreply := parentOf_eq_some hanchor hparent
      exact .step hreply (ih hreply.2.1)
  · intro h
    induction h with
    | refl => exact .refl _
    | step hreply _ ih => exact .step ((parent_iff hc hanchor).mpr hreply) (ih hreply.2.1)

theorem inSpace_of_climbs_to {anchor root : String} {n : ℕ} (hanchor : InSpace c space anchor)
    (h : Climbs (RepliesTo c space) n anchor root) : InSpace c space root :=
  h.keeps hanchor fun _ _ _ hreply => hreply.2.1

/-- A thread that is read fits the budgets. -/
theorem fits_of_threadIds (hc : WellFormed P c) (hbudget : maxNodes < 2 ^ 63) {anchor : String}
    (hanchor : InSpace c space anchor) {ids : List (ℤ × String)}
    (h : threadIds c space maxDepth maxNodes maxEdges anchor = .ok ids) :
    ∃ root height, FitsBudgets c space maxDepth maxNodes maxEdges anchor root height := by
  simp only [threadIds, threadRootId, bind_eq_ok] at h
  obtain ⟨_, ⟨⟨root, height⟩, hascend, hroot⟩, h⟩ := h
  cases hroot
  obtain ⟨hclimb, htop, hchain, hnodes, hedges⟩ := ascend_eq_ok_iff.mp hascend
  rw [climbs_parent_iff hc hanchor] at hclimb
  have hin := inSpace_of_climbs_to hanchor hclimb
  have htopmost : Topmost (RepliesTo c space) root := parentOf_eq_none htop
  have hends : Finishes (descentRound c space maxDepth maxNodes maxEdges)
    ⟨[(root, 0)], [], height, []⟩ (.ok ids) := by
    rw [← h]
    exact descend_ends hbudget (s := ⟨[(root, 0)], [], height, []⟩)
      ⟨by simpa using Nat.one_le_of_lt hnodes, hedges⟩ (by simp)
  obtain ⟨s, ⟨hroom, hs⟩, hdone⟩ := hends.invariant
    (I := fun s => Room maxNodes maxEdges s ∧ Exploring c space maxDepth root height s)
    ⟨⟨by simpa using Nat.one_le_of_lt hnodes, hedges⟩, .start hin height⟩ (by
      rintro s t ⟨hroom, hs⟩ hround
      refine ⟨hroom.round hbudget hround, ?_⟩
      cases hpending : s.pending with
      | nil => simp [descentRound, hpending] at hround
      | cons x pending =>
        obtain ⟨-, hdepth, -, -, -, row, hrow, rfl⟩ :=
          (descentRound_again hbudget hroom hpending).mp hround
        exact hs.visit hc htopmost hpending hdepth hrow)
  have hpending := descentRound_done hbudget hroom hdone
  have hseen := hs.seen_perm hc hin hpending
  have hlength : s.seen.length = (threadTree c space root).length := by simpa using hseen.length_eq
  have htree := treeEdges_length hc hin htopmost
  have hspent := hs.spent
  have hspentNodes := hroom.nodes
  have hspentEdges := hroom.edges
  rw [hpending, List.length_nil] at hspent hspentNodes
  refine ⟨root, height, hclimb, htopmost, hchain, ?_, by omega, by omega⟩
  intro id n hid
  have hmem := hseen.mem_iff.mpr ((mem_threadTree hin).mpr ⟨n, hid⟩)
  obtain ⟨m, hm, hclimb'⟩ := hs.shallow id hmem
  rwa [(hclimb'.top_unique (repliesTo_unique hc) htopmost hid htopmost).1]

/-- A thread that fits the budgets is read. -/
theorem threadIds_of_fits (hc : WellFormed P c) (hbudget : maxNodes < 2 ^ 63) {anchor root : String}
    {height : ℕ} (hanchor : InSpace c space anchor)
    (h : FitsBudgets c space maxDepth maxNodes maxEdges anchor root height) :
    ∃ ids, threadIds c space maxDepth maxNodes maxEdges anchor = .ok ids := by
  obtain ⟨hclimb, htop, hchain, hdepth, hnodes, hedges⟩ := h
  have hin := inSpace_of_climbs_to hanchor hclimb
  have htree := treeEdges_length hc hin htop
  have hheight : height < maxNodes := by
    obtain ⟨path, hlength, hnodup, hpath⟩ := hclimb.exists_path (repliesTo_unique hc) htop
    have hsub : path ⊆ (threadTree c space root).map (·.id) := by
      intro id hid
      obtain ⟨k, -, hclimb'⟩ := hpath id hid
      exact (mem_threadTree hin).mpr ⟨k, hclimb'⟩
    have hle := (hnodup.subperm hsub).length_le
    rw [List.length_map] at hle
    omega
  have hascend : ascend c space maxDepth maxNodes maxEdges (maxNodes + 1) anchor [] 0 =
    .ok (root, height) :=
    ascend_eq_ok_iff.mpr
      ⟨(climbs_parent_iff hc hanchor).mpr hclimb, Option.eq_none_iff_forall_ne_some.mpr
      fun parent hparent => htop parent (parentOf_eq_some hin hparent), hchain, hheight, by omega⟩
  have hroom : Room maxNodes maxEdges ⟨[(root, 0)], [], height, []⟩ :=
    ⟨by simpa using Nat.one_le_of_lt hheight, by simp only; omega⟩
  have hmeasured : ∃ r, Finishes (descentRound c space maxDepth maxNodes maxEdges)
      ⟨[(root, 0)], [], height, []⟩ r ∧ ∃ ids, r = .ok ids := by
    refine Finishes.of_measure (fun s => maxNodes - s.seen.length)
      (I := fun s => Room maxNodes maxEdges s ∧ Exploring c space maxDepth root height s) ?_
      ⟨hroom, .start hin height⟩
    rintro s ⟨hroom, hs⟩
    cases hpending : s.pending with
    | nil => exact .inr ⟨.ok s.result, by simp [descentRound, hpending], s.result, rfl⟩
    | cons x pending =>
      obtain ⟨id, depth⟩ := x
      obtain ⟨t, hround, ht⟩ := hs.progress hc htop hin hdepth hnodes hedges hroom hbudget hpending
      refine .inl ⟨t, hround, ⟨hroom.round hbudget hround, ht⟩, ?_⟩
      have hseen := descentRound_seen hbudget hroom hround
      have hfound := hroom.nodes
      rw [hpending, List.length_cons] at hfound
      omega
  obtain ⟨_, hends, ids, rfl⟩ := hmeasured
  refine ⟨ids, ?_⟩
  simp only [threadIds, threadRootId, hascend, ok_bind, pure_eq_ok]
  have hfuel : Finishes (descentRound c space maxDepth maxNodes maxEdges)
    ⟨[(root, 0)], [], height, []⟩
      (descend c space maxDepth maxNodes maxEdges (maxNodes + 1) [(root, 0)] [] height []) :=
    descend_ends hbudget hroom (by simp)
  exact hfuel.unique hends

theorem FitsBudgets.perm (hc : WellFormed P c) {anchor root : String} {height : ℕ}
    (hanchor : InSpace c space anchor)
    (hfits : FitsBudgets c space maxDepth maxNodes maxEdges anchor root height)
    {maxDepth' maxNodes' maxEdges' : ℕ}
    {ids : List (ℤ × String)}
    (h : threadIds c space maxDepth' maxNodes' maxEdges' anchor = .ok ids) :
    ids.Perm ((threadTree c space root).map fun r => (r.spaceSeq, r.id)) := by
  obtain ⟨hnodup, hmem⟩ := threadIds_eq_ok hc hanchor h
  have hdistinct : ((threadTree c space root).map fun r => (r.spaceSeq, r.id)).Nodup := by
    refine List.Nodup.of_map Prod.snd ?_
    rw [List.map_map]
    exact threadTree_nodup hc root
  refine (List.perm_ext_iff_of_nodup (List.Nodup.of_map _ hnodup) hdistinct).mpr fun x => ?_
  rw [hmem]
  simp only [threadTree, List.mem_map, List.mem_filter, decide_eq_true_eq,
    sameThread_iff hc hfits.ascent hfits.top]
  constructor
  · rintro ⟨r, hr, hspace, hclimb, rfl⟩
    exact ⟨r, ⟨hr, hspace, hclimb⟩, rfl⟩
  · rintro ⟨r, ⟨hr, hspace, hclimb⟩, rfl⟩
    exact ⟨r, hr, hspace, hclimb, rfl⟩

/-- With the budgets of the service a tree fits from each of its members or from none: the edges of
an ascent and of a tree are fewer than the edge budget. -/
theorem FitsBudgets.member {a b root : String} {height : ℕ}
    (h : FitsBudgets c space threadMaxDepth threadMaxNodes threadMaxEdges a root height)
    (hc : WellFormed P c) (hroot : InSpace c space root) {n : ℕ}
    (hb : Climbs (RepliesTo c space) n b root) :
    FitsBudgets c space threadMaxDepth threadMaxNodes threadMaxEdges b root n := by
  have htree := treeEdges_length hc hroot h.top
  have hdepth := h.depth b n hb
  have hnodes := h.nodes
  refine ⟨hb, h.top, hdepth, h.depth, hnodes, ?_⟩
  unfold threadMaxDepth threadMaxNodes threadMaxEdges at *
  omega

end Projection

/-- A thread is read exactly when its tree fits the budgets, and then it is every record whose
replies lead to the root, once. On any store the loops end without a subtraction below zero, and
show nothing twice. With the budgets of the service it does not matter which member is the
anchor. -/
theorem thread_projection (hnodes : maxNodes < 2 ^ 63) :
    (∀ c space anchor, (∀ r, ReadsThread c space maxDepth maxNodes maxEdges anchor r ↔
        r = threadIds c space maxDepth maxNodes maxEdges anchor) ∧
      (InSpace c space anchor → ∀ ids, threadIds c space maxDepth maxNodes maxEdges anchor =
        .ok ids →
        (ids.map Prod.snd).Nodup)) ∧
    ∀ c, Served P c → ∀ a ∈ c.records,
      ((∃ ids, threadIds c a.spaceId maxDepth maxNodes maxEdges a.id = .ok ids) ↔
        ∃ root height, FitsBudgets c a.spaceId maxDepth maxNodes maxEdges a.id root height) ∧
      (∀ ids, threadIds c a.spaceId maxDepth maxNodes maxEdges a.id = .ok ids →
        ∀ root height, FitsBudgets c a.spaceId maxDepth maxNodes maxEdges a.id root height →
          ids.Perm ((threadTree c a.spaceId root).map fun r => (r.spaceSeq, r.id)) ∧
            (ids.map Prod.snd).Nodup) ∧
      ∀ b ∈ c.records, b.spaceId = a.spaceId → SameThread c a.spaceId a.id b.id →
        ∀ ids, threadIds c a.spaceId threadMaxDepth threadMaxNodes threadMaxEdges a.id = .ok ids →
          ∃ ids', threadIds c b.spaceId threadMaxDepth threadMaxNodes threadMaxEdges b.id =
          .ok ids' ∧
            ids'.Perm ids := by
  refine ⟨fun c space anchor =>
    ⟨fun r => ⟨fun hr => hr.unique (readsThread hnodes anchor), ?_⟩, ?_⟩,
    fun c hserved a ha => ?_⟩
  · rintro rfl
    exact readsThread hnodes anchor
  · intro hanchor ids h
    simp only [threadIds, threadRootId, bind_eq_ok] at h
    obtain ⟨_, ⟨⟨root, edges⟩, hascend, hroot⟩, h⟩ := h
    cases hroot
    obtain ⟨seen, hseen⟩ := descend_eq_ok (Descending.start (ascend_eq_ok hanchor hascend).1) h
    rw [hseen.ids]
    exact List.nodup_reverse.mpr hseen.nodup
  have hc := hserved.wellFormed
  have hin : InSpace c a.spaceId a.id := ⟨a, ha, rfl, rfl⟩
  refine ⟨⟨?_, ?_⟩, fun ids h root height hfits =>
    ⟨hfits.perm hc hin h, (threadIds_eq_ok hc hin h).1⟩, ?_⟩
  · rintro ⟨ids, h⟩
    exact fits_of_threadIds hc hnodes hin h
  · rintro ⟨root, height, h⟩
    exact threadIds_of_fits hc hnodes hin h
  · intro b hb hspace hsame ids h
    obtain ⟨root, height, hfits⟩ := fits_of_threadIds hc (by decide) hin h
    obtain ⟨n, hclimb⟩ := (sameThread_iff hc hfits.ascent hfits.top).mp hsame
    have hfits' := hfits.member hc (inSpace_of_climbs_to hin hfits.ascent) hclimb
    have hinb : InSpace c a.spaceId b.id := ⟨b, hb, rfl, hspace⟩
    obtain ⟨ids', h'⟩ := threadIds_of_fits hc (by decide) hinb hfits'
    refine ⟨ids', hspace ▸ h', ?_⟩
    exact (hfits'.perm hc hinb h').trans (hfits.perm hc hin h).symm

set_option maxRecDepth 20000 in
theorem sampleReplies_facts : (sampleReplies.bind fun x =>
    (succeeded (threadIds x.2.2 "lab" threadMaxDepth threadMaxNodes threadMaxEdges x.2.1)).map
      fun ids =>
      ids.length = 3 && parentOf x.2.2 "lab" x.2.1 = some x.1 &&
      x.2.2.records.any (fun r => r.id = x.2.1 && r.spaceId = "lab") &&
      x.2.2.records.any fun r => r.id = x.1 && r.spaceId = "lab") = some true := by decide +kernel

/-- A record, a reply and an answer to the reply, read from the answer and from the reply. -/
theorem thread_projection_sample : ∃ c, Served .sample c ∧ ∃ reply answer ids ids',
    RepliesTo c "lab" answer reply ∧
    threadIds c "lab" threadMaxDepth threadMaxNodes threadMaxEdges answer = .ok ids ∧
    ids.length = 3 ∧
    (ids.map Prod.snd).Nodup ∧
    (∃ root height,
      FitsBudgets c "lab" threadMaxDepth threadMaxNodes threadMaxEdges answer root height) ∧
    threadIds c "lab" threadMaxDepth threadMaxNodes threadMaxEdges reply = .ok ids' ∧
    ids'.Perm ids := by
  obtain ⟨⟨reply, answer, c⟩, hreplies, hfacts⟩ := Option.bind_eq_some_iff.mp sampleReplies_facts
  obtain ⟨ids, hids, hfacts⟩ := Option.map_eq_some_iff.mp hfacts
  rw [succeeded_eq_some] at hids
  simp only [Bool.and_eq_true, decide_eq_true_eq, any_inSpace] at hfacts
  obtain ⟨⟨⟨hlength, hparent⟩, hanswer⟩, hreply⟩ := hfacts
  have hserved := sampleReplies_served hreplies
  have hsame := parentOf_eq_some hanswer hparent
  obtain ⟨a, ha, rfl, hspace⟩ := hanswer
  obtain ⟨b, hb, rfl, hspace'⟩ := hreply
  have hprojection := (@thread_projection .sample threadMaxDepth threadMaxNodes threadMaxEdges
    (by decide)).2 c hserved a ha
  rw [hspace] at hprojection
  obtain ⟨hfits, hperm, hanchor⟩ := hprojection
  obtain ⟨root, height, hfit⟩ := hfits.mp ⟨ids, hids⟩
  obtain ⟨ids', hids', hsorted⟩ := hanchor b hb hspace' (.rel _ _ hsame) ids hids
  rw [hspace'] at hids'
  exact ⟨c, hserved, b.id, a.id, ids, ids', hsame, hids, hlength,
    (hperm ids hids root height hfit).2,
    ⟨root, height, hfit⟩, hids', hsorted⟩

end AgentJournal.Service
