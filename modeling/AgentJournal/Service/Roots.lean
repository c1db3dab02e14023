import AgentJournal.Foundation.Separated
import AgentJournal.Service.Rounds
import Mathlib.Data.List.MinMax

/-! # The roots of many threads

The viewer resolves the roots of a page of records with one recursive query. It finds for every
record what the ascent of a single one finds.
-/

namespace AgentJournal.Service
open Domain Foundation Storage

/-- A row of the recursive query. -/
structure ChainRow where
  recordId : String
  nodeId : String
  spaceId : String
  depth : ℕ
  path : String
deriving DecidableEq, Repr

section Query
variable (c : Central)

/-- `instr(text, part) <> 0`. -/
def instr (text part : String) : Bool := decide (part.toList <:+: text.toList)

def chainStart (ids : List String) : List ChainRow :=
  (c.records.filter fun r => r.id ∈ ids).map fun r => ⟨r.id, r.id, r.spaceId, 0, "," ++ r.id ++ ","⟩

def chainStep (row : ChainRow) : List ChainRow :=
  (c.recordRelations.filter fun rel => rel.sourceRecordId = row.nodeId &&
    rel.relationType = .replyTo &&
    (c.records.any fun r => r.id = rel.targetRecordId && r.spaceId = row.spaceId) &&
    row.depth < threadMaxDepth && !instr row.path ("," ++ rel.targetRecordId ++ ",")).map fun rel =>
      ⟨row.recordId, rel.targetRecordId, row.spaceId, row.depth + 1,
        row.path ++ rel.targetRecordId ++ ","⟩

/-- The rows of the recursion, one generation after the other. -/
def chain : ℕ → List ChainRow → List ChainRow
  | 0, _ => []
  | fuel + 1, rows => rows ++ chain fuel (rows.flatMap (chainStep c))

/-- For each record the row of the greatest depth. -/
def deepest (rows : List ChainRow) : List ChainRow :=
  (rows.map (·.recordId)).dedup.filterMap fun id =>
    (rows.filter fun row => row.recordId = id).argmax ChainRow.depth

/-- The permitted ids; what is known of a space is kept. -/
def permittedIds (allowed : String → Bool) :
    List (String × String) → List (String × Bool) → List String
  | [], _ => []
  | (id, space) :: spaces, known =>
    match known.lookup space with
    | some permitted =>
      if permitted then id :: permittedIds allowed spaces known
      else permittedIds allowed spaces known
    | none =>
      let permitted := allowed space
      if permitted then id :: permittedIds allowed spaces ((space, permitted) :: known)
      else permittedIds allowed spaces ((space, permitted) :: known)

/-- The entries of a map, the last insertion first. -/
abbrev Roots := List (String × String × Option String)

def threadRoots (allowed : String → Bool) (ids : List String) : Roots :=
  if ids = [] then []
  else
    let spaces := (c.records.filter fun r => r.id ∈ ids).map fun r => (r.id, r.spaceId)
    let permitted := permittedIds allowed spaces []
    if permitted = [] then []
    else
      -- every generation is one deeper, so one more than the depth bound is empty
      let rows := chain c (threadMaxDepth + 1) (chainStart c permitted)
      let candidates :=
        (deepest rows).map fun d => (d.recordId, d.nodeId, hasRelation c d.nodeId .replyTo)
      let unresolved := candidates.filter fun x => x.2.2
      let resolved := candidates.filter fun x => !x.2.2
      let titles :=
        (c.records.filter fun r => r.id ∈ resolved.map (·.2.1)).map fun r => (r.id, r.title)
      (unresolved.map (fun x => (x.1, x.1, (none : Option String))) ++
        resolved.map (fun x => (x.1, x.2.1, (titles.lookup x.2.1).join))).reverse

end Query

def getThreadRoots (P : Platform) (identity : ReadIdentity) (ids : List String) : Tx Roots := do
  let actor ← readActor P identity
  query fun c => threadRoots c (fun space => permits c actor space false) ids

/-- What the ascent from a record makes of it: its root with the title, or the record itself without
one. -/
def rootEntry (c : Central) (space id : String) : String × Option String :=
  match threadRootId c space threadMaxDepth threadMaxNodes threadMaxEdges id with
  | .ok (root, _, true) => (root, (c.findRecord root).bind (·.title))
  | _ => (id, none)

variable {P : Platform} {c : Central}

section Chains

/-- What the tables promise the query: records have ids of their own without a comma, and a record
replies at most once. -/
structure Chained (c : Central) : Prop where
  records : c.records.Pairwise fun r r' => r.id ≠ r'.id
  replies : c.recordRelations.Pairwise fun e e' =>
    ¬(e.relationType = .replyTo ∧ e'.relationType = .replyTo ∧ e.sourceRecordId = e'.sourceRecordId)
  commas : ∀ r ∈ c.records, ',' ∉ r.id.toList

/-- Where at most one element passes a filter, it is the first. -/
theorem filter_of_unique {α : Type} {p : α → Bool} {xs : List α}
    (h : xs.Pairwise fun x y => ¬(p x = true ∧ p y = true)) :
    xs.filter p = (xs.find? p).toList := by
  induction xs with
  | nil => rfl
  | cons x xs ih =>
    rw [List.pairwise_cons] at h
    by_cases hx : p x = true
    · rw [List.filter_cons_of_pos hx, List.find?_cons_of_pos hx, Option.toList_some,
        List.filter_eq_nil_iff.mpr]
      intro y hy hpy
      exact h.1 y hy ⟨hx, hpy⟩
    · rw [List.filter_cons_of_neg hx, List.find?_cons_of_neg hx, ih h.2]

/-- A step goes to the parent of the node. -/
theorem mem_chainStep (hc : Chained c) {row next : ChainRow} : next ∈ chainStep c row ↔
    ∃ parent, parentOf c row.spaceId row.nodeId = some parent ∧ row.depth < threadMaxDepth ∧
      instr row.path ("," ++ parent ++ ",") = false ∧
      next = ⟨row.recordId, parent, row.spaceId, row.depth + 1, row.path ++ parent ++ ","⟩ := by
  have hunique : c.recordRelations.Pairwise fun e e' =>
      ¬((e.sourceRecordId = row.nodeId && e.relationType = .replyTo &&
          c.records.any fun t => t.id = e.targetRecordId && t.spaceId = row.spaceId) = true ∧
        (e'.sourceRecordId = row.nodeId && e'.relationType = .replyTo &&
          c.records.any fun t => t.id = e'.targetRecordId && t.spaceId = row.spaceId) = true) := by
    refine hc.replies.imp fun {e e'} hne h => hne ?_
    simp only [Bool.and_eq_true, decide_eq_true_eq] at h
    exact ⟨h.1.1.2, h.2.1.2, h.1.1.1.trans h.2.1.1.symm⟩
  have hfilter := filter_of_unique hunique
  have hmem : ∀ e, e ∈ c.recordRelations.filter (fun e => e.sourceRecordId = row.nodeId &&
        e.relationType = .replyTo &&
        c.records.any fun t => t.id = e.targetRecordId && t.spaceId = row.spaceId) ↔
      (c.recordRelations.find? fun e => e.sourceRecordId = row.nodeId &&
        e.relationType = .replyTo &&
        c.records.any fun t => t.id = e.targetRecordId && t.spaceId = row.spaceId) = some e := by
    intro e
    rw [hfilter, Option.mem_toList]
  simp only [chainStep, List.mem_map, List.mem_filter, parentOf, Option.map_eq_some_iff, ← hmem,
    Bool.and_eq_true, decide_eq_true_eq, Bool.not_eq_true']
  constructor
  · rintro ⟨e, ⟨he, ⟨hreply, hdepth⟩, hpath⟩, rfl⟩
    exact ⟨_, ⟨e, ⟨he, hreply⟩, rfl⟩, hdepth, hpath, rfl⟩
  · rintro ⟨_, ⟨e, ⟨he, hreply⟩, rfl⟩, hdepth, hpath, rfl⟩
    exact ⟨e, ⟨he, ⟨hreply, hdepth⟩, hpath⟩, rfl⟩

/-- The steps of the recursion. -/
def ChainSteps (c : Central) (row next : ChainRow) : Prop := next ∈ chainStep c row

theorem mem_chain {fuel : ℕ} {rows : List ChainRow} {row : ChainRow} :
    row ∈ chain c fuel rows ↔ ∃ k < fuel, ∃ first ∈ rows, Climbs (ChainSteps c) k first row := by
  induction fuel generalizing rows with
  | zero => simp [chain]
  | succ fuel ih =>
    rw [chain, List.mem_append, ih]
    constructor
    · rintro (hrow | ⟨k, hk, next, hnext, hclimb⟩)
      · exact ⟨0, Nat.succ_pos _, row, hrow, .refl row⟩
      · obtain ⟨first, hfirst, hstep⟩ := List.mem_flatMap.mp hnext
        exact ⟨k + 1, Nat.succ_lt_succ hk, first, hfirst, .step hstep hclimb⟩
    · rintro ⟨k, hk, first, hfirst, hclimb⟩
      cases hclimb with
      | refl => exact .inl hfirst
      | @step k _ next _ hstep hclimb =>
        exact .inr
          ⟨k, Nat.lt_of_succ_lt_succ hk, next, List.mem_flatMap.mpr ⟨first, hfirst, hstep⟩, hclimb⟩

/-- What a row of the recursion says of the ascent from its record. -/
structure Chain (c : Central) (r : RecordRow) (k : ℕ) (row : ChainRow) : Prop where
  recordId : row.recordId = r.id
  spaceId : row.spaceId = r.spaceId
  depth : row.depth = k
  bounded : k ≤ threadMaxDepth
  climbed : Climbs (Parent c r.spaceId) k r.id row.nodeId
  inSpace : InSpace c r.spaceId row.nodeId
  path : ∃ nodes : List String, row.path.toList = separated ',' (nodes.map String.toList) ∧
    ∀ id, id ∈ nodes ↔ ∃ j ≤ k, Climbs (Parent c r.spaceId) j r.id id

theorem Chain.start {r : RecordRow} (hr : r ∈ c.records) :
    Chain c r 0 ⟨r.id, r.id, r.spaceId, 0, "," ++ r.id ++ ","⟩ where
  recordId := rfl
  spaceId := rfl
  depth := rfl
  bounded := Nat.zero_le _
  climbed := .refl _
  inSpace := ⟨r, hr, rfl, rfl⟩
  path := by
    refine ⟨[r.id], by simp [separated], fun id => ?_⟩
    rw [List.mem_singleton]
    constructor
    · rintro rfl
      exact ⟨0, Nat.le_refl _, .refl _⟩
    · rintro ⟨j, hj, hclimb⟩
      obtain rfl := Nat.le_zero.mp hj
      exact hclimb.eq_of_zero.symm

/-- A climb of a step more ends at the parent, or is a climb of no more steps. -/
theorem climbs_succ {space id node parent : String} {k : ℕ} (h : Climbs (Parent c space) k id node)
    (hparent : parentOf c space node = some parent) (x : String) :
    (∃ j ≤ k + 1, Climbs (Parent c space) j id x) ↔
    x = parent ∨ ∃ j ≤ k, Climbs (Parent c space) j id x := by
  have htail : Climbs (Parent c space) (k + 1) id parent := h.tail hparent
  constructor
  · rintro ⟨j, hj, hclimb⟩
    rcases Nat.lt_or_eq_of_le hj with hlt | rfl
    · exact .inr ⟨j, Nat.le_of_lt_succ hlt, hclimb⟩
    · exact .inl (hclimb.unique parent_unique htail)
  · rintro (rfl | ⟨j, hj, hclimb⟩)
    · exact ⟨k + 1, Nat.le_refl _, htail⟩
    · exact ⟨j, Nat.le_succ_of_le hj, hclimb⟩

theorem Chain.next (hc : Chained c) {r : RecordRow} {k : ℕ} {row next : ChainRow}
    (h : Chain c r k row)
    (hstep : ChainSteps c row next) : Chain c r (k + 1) next := by
  obtain ⟨parent, hparent, hdepth, -, rfl⟩ := (mem_chainStep hc).mp hstep
  rw [h.spaceId] at hparent
  rw [h.depth] at hdepth
  obtain ⟨nodes, hpath, hnodes⟩ := h.path
  refine ⟨h.recordId, h.spaceId, by rw [h.depth], hdepth, h.climbed.tail hparent,
    (parentOf_eq_some h.inSpace hparent).2.1, nodes ++ [parent], ?_, fun id => ?_⟩
  · simp only [String.toList_append, hpath, List.map_append, List.map_cons, List.map_nil,
      separated_concat, List.append_assoc]
    rfl
  · rw [climbs_succ h.climbed hparent, List.mem_append, List.mem_singleton, hnodes, or_comm]

theorem Chain.of_climbs (hc : Chained c) {r : RecordRow} {j k : ℕ} {row last : ChainRow}
    (h : Chain c r j row) (hclimb : Climbs (ChainSteps c) k row last) : Chain c r (j + k) last := by
  induction hclimb generalizing j with
  | refl => exact h
  | step hstep _ ih =>
    rw [Nat.add_comm _ 1, ← Nat.add_assoc]
    exact ih (h.next hc hstep)

theorem Chained.comma (hc : Chained c) {space id : String} (h : InSpace c space id) :
    ',' ∉ id.toList := by
  obtain ⟨r, hr, rfl, -⟩ := h
  exact hc.commas r hr

/-- The path text tells the visited nodes. -/
theorem Chain.instr_iff (hc : Chained c) {r : RecordRow} {k : ℕ} {row : ChainRow}
    (h : Chain c r k row)
    {id : String} (hr : r ∈ c.records) (hid : InSpace c r.spaceId id) :
    instr row.path ("," ++ id ++ ",") = true ↔ ∃ j ≤ k, Climbs (Parent c r.spaceId) j r.id id := by
  obtain ⟨nodes, hpath, hnodes⟩ := h.path
  have hvisited : ∀ node ∈ nodes, InSpace c r.spaceId node := by
    intro node hnode
    obtain ⟨j, -, hclimb⟩ := (hnodes node).mp hnode
    exact hclimb.keeps ⟨r, hr, rfl, rfl⟩ fun x y hx hxy => (parentOf_eq_some hx hxy).2.1
  have hmem : id.toList ∈ nodes.map String.toList ↔ id ∈ nodes := by
    rw [List.mem_map]
    constructor
    · rintro ⟨node, hnode, heq⟩
      rwa [← String.toList_injective heq]
    · intro hid
      exact ⟨id, hid, rfl⟩
  rw [← hnodes, ← hmem, instr, decide_eq_true_eq, hpath, ← infix_separated_iff _ (hc.comma hid)]
  · simp
  · intro text htext
    obtain ⟨node, hnode, rfl⟩ := List.mem_map.mp htext
    exact hc.comma (hvisited node hnode)

end Chains

section Deepest
variable {rows : List ChainRow} {d : ChainRow}

theorem mem_deepest : d ∈ deepest rows ↔
    d ∈ (rows.filter fun row => row.recordId = d.recordId).argmax ChainRow.depth := by
  simp only [deepest, List.mem_filterMap, List.mem_dedup, List.mem_map]
  constructor
  · rintro ⟨id, -, hmax⟩
    have hmem := List.argmax_mem (Option.mem_def.mpr hmax)
    simp only [List.mem_filter, decide_eq_true_eq] at hmem
    rw [hmem.2]
    exact hmax
  · intro hmax
    exact ⟨d.recordId, ⟨d, (List.mem_filter.mp (List.argmax_mem hmax)).1, rfl⟩, hmax⟩

theorem deepest_sub (h : d ∈ deepest rows) :
    d ∈ rows ∧ ∀ row ∈ rows, row.recordId = d.recordId → row.depth ≤ d.depth := by
  rw [mem_deepest] at h
  refine ⟨(List.mem_filter.mp (List.argmax_mem h)).1, fun row hrow hid => ?_⟩
  exact List.le_of_mem_argmax (List.mem_filter.mpr ⟨hrow, by simpa using hid⟩) h

theorem exists_deepest {row : ChainRow} (h : row ∈ rows) :
    ∃ d ∈ deepest rows, d.recordId = row.recordId := by
  cases hmax : (rows.filter fun x => x.recordId = row.recordId).argmax ChainRow.depth with
  | none =>
    rw [List.argmax_eq_none, List.filter_eq_nil_iff] at hmax
    exact absurd (decide_eq_true rfl) (hmax row h)
  | some d =>
    have hmem := List.argmax_mem (Option.mem_def.mpr hmax)
    simp only [List.mem_filter, decide_eq_true_eq] at hmem
    refine ⟨d, mem_deepest.mpr ?_, hmem.2⟩
    rw [hmem.2]
    exact hmax

theorem deepest_distinct (rows : List ChainRow) : ((deepest rows).map (·.recordId)).Nodup := by
  refine List.Nodup.map_on ?_ ((List.nodup_dedup _).filterMap ?_)
  · intro d hd d' hd' hid
    rw [mem_deepest] at hd hd'
    rw [hid] at hd
    exact Option.some.inj (hd.symm.trans hd')
  · intro id id' d hd hd'
    have hmem := List.mem_filter.mp (List.argmax_mem hd)
    have hmem' := List.mem_filter.mp (List.argmax_mem hd')
    rw [← of_decide_eq_true hmem.2, ← of_decide_eq_true hmem'.2]

/-- The deepest row of a record is one the recursion does not go on from. -/
theorem chain_of_deepest (hc : Chained c) {ids : List String} {r : RecordRow} (hr : r ∈ c.records)
    (hd : d ∈ deepest (chain c (threadMaxDepth + 1) (chainStart c ids))) (hid : d.recordId = r.id) :
    ∃ k, Chain c r k d ∧ Topmost (ChainSteps c) d := by
  obtain ⟨hmem, hmax⟩ := deepest_sub hd
  obtain ⟨k, -, first, hfirst, hclimb⟩ := mem_chain.mp hmem
  obtain ⟨r', hr', rfl⟩ := List.mem_map.mp hfirst
  have hchain := (Chain.start (List.mem_filter.mp hr').1).of_climbs hc hclimb
  rw [Nat.zero_add] at hchain
  obtain rfl : r' = r :=
    eq_of_distinct hc.records (List.mem_filter.mp hr').1 hr (hchain.recordId.symm.trans hid)
  refine ⟨k, hchain, fun next hnext => ?_⟩
  have hdeeper := hchain.next hc hnext
  have hrow :=
    mem_chain.mpr ⟨k + 1, Nat.lt_succ_of_le hdeeper.bounded, _, hfirst, hclimb.tail hnext⟩
  have hle := hmax next hrow (hdeeper.recordId.trans hchain.recordId.symm)
  rw [hdeeper.depth, hchain.depth] at hle
  omega

theorem hasRelation_of_parent {space id parent : String} (h : parentOf c space id = some parent) :
    hasRelation c id .replyTo = true := by
  obtain ⟨e, he, -⟩ := Option.map_eq_some_iff.mp h
  have hreply := List.find?_some he
  simp only [Bool.and_eq_true, decide_eq_true_eq] at hreply
  simp only [hasRelation, List.any_eq_true, Bool.and_eq_true, decide_eq_true_eq]
  exact ⟨e, List.mem_of_find?_eq_some he, hreply.1⟩

/-- The query and the ascent stop at the same record, or neither finds a root. -/
theorem ascend_of_deepest (hc : Chained c) {ids : List String} {r : RecordRow} (hr : r ∈ c.records)
    (hd : d ∈ deepest (chain c (threadMaxDepth + 1) (chainStart c ids))) (hid : d.recordId = r.id) :
    (∃ k, ascend c r.spaceId threadMaxDepth threadMaxNodes threadMaxEdges (threadMaxNodes + 1) r.id
      [] 0 =
        .ok (d.nodeId, k)) ∨
      (refused (ascend c r.spaceId threadMaxDepth threadMaxNodes threadMaxEdges
        (threadMaxNodes + 1) r.id
        [] 0)).isSome = true ∧ hasRelation c d.nodeId .replyTo = true := by
  obtain ⟨k, hchain, htop⟩ := chain_of_deepest hc hr hd hid
  have hbounded := hchain.bounded
  cases hascend : ascend c r.spaceId threadMaxDepth threadMaxNodes threadMaxEdges
    (threadMaxNodes + 1)
      r.id [] 0 with
  | error e =>
    refine .inr ⟨rfl, ?_⟩
    cases hparent : parentOf c r.spaceId d.nodeId with
    | none =>
      rw [ascend_eq_ok_iff.mpr ⟨hchain.climbed, hparent, hbounded,
        lt_of_le_of_lt hbounded (by decide), hbounded.trans (by decide)⟩] at hascend
      simp at hascend
    | some parent => exact hasRelation_of_parent hparent
  | ok x =>
    obtain ⟨root, n⟩ := x
    obtain ⟨hclimb, hroot, hdepth, -, -⟩ := ascend_eq_ok_iff.mp hascend
    have htopmost := topmost_iff.mpr hroot
    obtain ⟨hle, honward⟩ := hclimb.onward parent_unique htopmost hchain.climbed
    rcases Nat.lt_or_eq_of_le hle with hlt | rfl
    · -- below the root there is a step, unless its end was visited before
      obtain ⟨m, hm⟩ : ∃ m, n - k = m + 1 := ⟨n - k - 1, by omega⟩
      rw [hm] at honward
      cases honward with
      | @step _ _ parent _ hparent _ =>
        have hin := (parentOf_eq_some hchain.inSpace hparent).2.1
        have hvisited : instr d.path ("," ++ parent ++ ",") = true := by
          by_contra hfresh
          refine htop _
            ((mem_chainStep hc).mpr
              ⟨parent, hchain.spaceId ▸ hparent, ?_, by simpa using hfresh, rfl⟩)
          rw [hchain.depth]
          exact lt_of_lt_of_le hlt hdepth
        obtain ⟨j, hj, hclimb'⟩ := (hchain.instr_iff hc hr hin).mp hvisited
        have := hclimb.once parent_unique htopmost hclimb' (hchain.climbed.tail hparent)
        omega
    · rw [Nat.sub_self] at honward
      exact .inl ⟨k, by rw [honward.eq_of_zero]⟩

end Deepest

section Entries

/-- What is kept of a space does not show. -/
theorem permittedIds_eq {allowed : String → Bool} {spaces : List (String × String)}
    {known : List (String × Bool)}
    (hknown : ∀ space b, known.lookup space = some b → b = allowed space) :
    permittedIds allowed spaces known = (spaces.filter fun x => allowed x.2).map Prod.fst := by
  induction spaces generalizing known with
  | nil => rfl
  | cons x spaces ih =>
    obtain ⟨id, space⟩ := x
    have hlearned : ∀ space' b, ((space, allowed space) :: known).lookup space' = some b →
        b = allowed space' := by
      intro space' b h
      rw [List.lookup_cons] at h
      split at h
      · next heq =>
        rw [beq_iff_eq] at heq
        rw [heq, ← Option.some.inj h]
      · exact hknown space' b h
    have hcases : permittedIds allowed ((id, space) :: spaces) known =
        if allowed space then id :: (spaces.filter fun x => allowed x.2).map Prod.fst
        else (spaces.filter fun x => allowed x.2).map Prod.fst := by
      rw [permittedIds]
      cases hlookup : known.lookup space with
      | some b =>
        simp only [ih hknown]
        rw [hknown space b hlookup]
      | none => simp only [ih hlearned]
    rw [hcases]
    by_cases hallowed : allowed space = true
    · simp [hallowed]
    · simp [hallowed]

/-- The entry of a key of its own is what a map gives for it. -/
theorem lookup_of_nodup {β : Type} {xs : List (String × β)} (h : (xs.map Prod.fst).Nodup)
    {key : String}
    {value : β} (hmem : (key, value) ∈ xs) : xs.lookup key = some value := by
  induction xs with
  | nil => simp at hmem
  | cons x xs ih =>
    obtain ⟨key', value'⟩ := x
    rw [List.map_cons, List.nodup_cons] at h
    rw [List.lookup_cons]
    rcases List.mem_cons.mp hmem with heq | hrest
    · obtain ⟨rfl, rfl⟩ := Prod.mk.inj heq
      simp
    · have hne : key ≠ key' := by
        rintro rfl
        have hkey := List.mem_map_of_mem (f := Prod.fst) hrest
        exact h.1 hkey
      rw [beq_false_of_ne hne]
      exact ih h.2 hrest

theorem mem_of_lookup {β : Type} {xs : List (String × β)} {key : String}
    {value : β} (h : xs.lookup key = some value) : (key, value) ∈ xs := by
  obtain ⟨before, after, rfl, -⟩ := List.lookup_eq_some_iff.mp h
  simp

theorem lookup_titles (hc : Chained c) {r : RecordRow} (hr : r ∈ c.records) {p : RecordRow → Bool}
    (hp : p r = true) :
    ((c.records.filter p).map fun r => (r.id, r.title)).lookup r.id = some r.title := by
  refine lookup_of_nodup ?_ (List.mem_map.mpr ⟨r, List.mem_filter.mpr ⟨hr, hp⟩, rfl⟩)
  rw [List.map_map, List.Nodup, List.pairwise_map]
  exact hc.records.sublist List.filter_sublist

/-- The entry of a candidate of the query. -/
theorem entry_of_deepest (hc : Chained c) {ids : List String} {d : ChainRow} {r : RecordRow}
    (hr : r ∈ c.records) (hd : d ∈ deepest (chain c (threadMaxDepth + 1) (chainStart c ids)))
    (hid : d.recordId = r.id) : rootEntry c r.spaceId r.id =
      if hasRelation c d.nodeId .replyTo then (r.id, none)
      else (d.nodeId, (c.findRecord d.nodeId).bind (·.title)) := by
  rcases ascend_of_deepest hc hr hd hid with ⟨k, hascend⟩ | ⟨hrefused, hrelation⟩
  · cases hrelation : hasRelation c d.nodeId .replyTo <;>
      simp [rootEntry, threadRootId, hascend, hrelation]
  · obtain ⟨e, herror⟩ := Option.isSome_iff_exists.mp hrefused
    rw [refused_eq_some] at herror
    simp [rootEntry, threadRootId, herror, hrelation]

/-- The entries of the candidates of the query. -/
theorem lookup_entries (hc : Chained c) {candidates : List (String × String × Bool)}
    (hdistinct : (candidates.map (·.1)).Nodup) {id node : String} {unresolved : Bool}
    (hmem : (id, node, unresolved) ∈ candidates) {r : RecordRow} (hr : r ∈ c.records)
    (hnode : r.id = node) :
    let resolved := candidates.filter fun x => !x.2.2
    let titles :=
      (c.records.filter fun r => r.id ∈ resolved.map (·.2.1)).map fun r => (r.id, r.title)
    ((candidates.filter fun x => x.2.2).map (fun x => (x.1, x.1, (none : Option String))) ++
        resolved.map (fun x => (x.1, x.2.1, (titles.lookup x.2.1).join))).reverse.lookup id =
      some (if unresolved then (id, none) else (node, r.title)) := by
  intro resolved titles
  refine lookup_of_nodup ?_ (List.mem_reverse.mpr (List.mem_append.mpr ?_))
  · rw [List.map_reverse, List.nodup_reverse, List.map_append, List.map_map, List.map_map]
    have hperm :=
      (List.filter_append_perm (fun x : String × String × Bool => x.2.2) candidates).map (·.1)
    rw [List.map_append] at hperm
    exact hperm.nodup_iff.mpr hdistinct
  · cases unresolved with
    | true => exact .inl (List.mem_map.mpr ⟨_, List.mem_filter.mpr ⟨hmem, rfl⟩, rfl⟩)
    | false =>
      have hresolved : (id, node, false) ∈ resolved := List.mem_filter.mpr ⟨hmem, rfl⟩
      refine .inr (List.mem_map.mpr ⟨_, hresolved, ?_⟩)
      have htitle := lookup_titles hc hr (p := fun r => r.id ∈ resolved.map (·.2.1))
        (by simpa [hnode] using ⟨id, .inl hresolved⟩)
      rw [hnode] at htitle
      simp only [titles, htitle, Option.join_some]
      rfl

theorem threadRoots_lookup (hc : Chained c) {allowed : String → Bool} {ids : List String}
    {r : RecordRow}
    (hr : r ∈ c.records) (hid : r.id ∈ ids) (hallowed : allowed r.spaceId = true) :
    (threadRoots c allowed ids).lookup r.id = some (rootEntry c r.spaceId r.id) := by
  unfold threadRoots
  rw [if_neg (List.ne_nil_of_mem hid)]
  dsimp only
  rw [permittedIds_eq (by simp)]
  generalize
    hpermitted : (((c.records.filter fun r => r.id ∈ ids).map fun r => (r.id, r.spaceId)).filter
    fun x => allowed x.2).map Prod.fst = permitted
  have hmem : r.id ∈ permitted := by
    rw [← hpermitted]
    refine List.mem_map.mpr ⟨(r.id, r.spaceId), List.mem_filter.mpr ⟨?_, hallowed⟩, rfl⟩
    exact List.mem_map.mpr ⟨r, List.mem_filter.mpr ⟨hr, by simpa using hid⟩, rfl⟩
  rw [if_neg (List.ne_nil_of_mem hmem)]
  have hfirst : ⟨r.id, r.id, r.spaceId, 0, "," ++ r.id ++ ","⟩ ∈ chain c (threadMaxDepth + 1)
      (chainStart c permitted) :=
    mem_chain.mpr
      ⟨0, Nat.succ_pos _, _,
        List.mem_map.mpr ⟨r, List.mem_filter.mpr ⟨hr, by simpa using hmem⟩, rfl⟩,
      .refl _⟩
  obtain ⟨d, hd, hrecord⟩ := exists_deepest hfirst
  obtain ⟨k, hchain, -⟩ := chain_of_deepest hc hr hd hrecord
  obtain ⟨root, hroot, hnode, -⟩ := hchain.inSpace
  have hcandidate : (r.id, d.nodeId, hasRelation c d.nodeId .replyTo) ∈
      (deepest (chain c (threadMaxDepth + 1) (chainStart c permitted))).map fun d =>
        (d.recordId, d.nodeId, hasRelation c d.nodeId .replyTo) :=
    List.mem_map.mpr ⟨d, hd, by rw [hrecord]⟩
  have hdistinct : (((deepest (chain c (threadMaxDepth + 1) (chainStart c permitted))).map fun d =>
      (d.recordId, d.nodeId, hasRelation c d.nodeId .replyTo)).map (·.1)).Nodup := by
    rw [List.map_map]
    exact deepest_distinct _
  rw [lookup_entries hc hdistinct hcandidate hroot hnode, entry_of_deepest hc hr hd hrecord,
    Central.findRecord, ← hnode, find?_of_distinct hc.records hroot]
  rfl

/-- Only records that were asked for are mapped. -/
theorem mem_of_threadRoots (hc : Chained c) {allowed : String → Bool} {ids : List String}
    {id : String}
    {entry : String × Option String} (h : (threadRoots c allowed ids).lookup id = some entry) :
    id ∈ ids := by
  have hmem := mem_of_lookup h
  unfold threadRoots at hmem
  split at hmem
  · simp at hmem
  dsimp only at hmem
  split at hmem
  · simp at hmem
  rw [permittedIds_eq (by simp)] at hmem
  have hcandidate : ∃ d ∈ deepest (chain c (threadMaxDepth + 1) (chainStart c
      ((((c.records.filter fun r => r.id ∈ ids).map fun r => (r.id, r.spaceId)).filter
        fun x => allowed x.2).map Prod.fst))), d.recordId = id := by
    rcases List.mem_append.mp (List.mem_reverse.mp hmem) with hentry | hentry
    all_goals
      obtain ⟨x, hx, heq⟩ := List.mem_map.mp hentry
      obtain ⟨d, hd, rfl⟩ := List.mem_map.mp (List.mem_filter.mp hx).1
      exact ⟨d, hd, (Prod.mk.inj heq).1⟩
  obtain ⟨d, hd, rfl⟩ := hcandidate
  obtain ⟨k, -, first, hfirst, hclimb⟩ := mem_chain.mp (deepest_sub hd).1
  obtain ⟨r, hr, rfl⟩ := List.mem_map.mp hfirst
  obtain ⟨hrecord, hpermitted⟩ := List.mem_filter.mp hr
  rw [((Chain.start hrecord).of_climbs hc hclimb).recordId]
  obtain ⟨x, hx, hid⟩ := List.mem_map.mp (of_decide_eq_true hpermitted)
  obtain ⟨r', hr', rfl⟩ := List.mem_map.mp (List.mem_filter.mp hx).1
  rw [← hid]
  exact of_decide_eq_true (List.mem_filter.mp hr').2

end Entries

theorem rootEntry_eq_iff {space id root : String} {title : Option String} :
    rootEntry c space id = (root, title) ↔
      ((∃ n, threadRootId c space threadMaxDepth threadMaxNodes threadMaxEdges id =
        .ok (root, n, true)) ∧
        title = (c.findRecord root).bind (·.title)) ∨
      (∀ root n, threadRootId c space threadMaxDepth threadMaxNodes threadMaxEdges id ≠
        .ok (root, n, true)) ∧
        root = id ∧ title = none := by
  unfold rootEntry
  cases threadRootId c space threadMaxDepth threadMaxNodes threadMaxEdges id with
  | error e => simp [eq_comm]
  | ok x =>
    obtain ⟨found, n, resolved⟩ := x
    cases resolved with
    | false => simp [eq_comm]
    | true =>
      constructor
      · intro h
        obtain ⟨rfl, rfl⟩ := Prod.mk.inj h
        exact .inl ⟨⟨n, rfl⟩, rfl⟩
      · rintro (⟨⟨m, hfound⟩, rfl⟩ | ⟨hnone, -⟩)
        · simp only [Except.ok.injEq, Prod.mk.injEq] at hfound
          rw [hfound.1]
        · exact absurd rfl (hnone found n)

/-- The roots of many records are those of the single ascents: a record whose ascent finds a root is
mapped to it with its title, any other record to itself without one. A record that is its own root
and has no title is mapped to the same pair. -/
theorem thread_roots (hc : Chained c) {identity : ReadIdentity} {ids : List String} {host : Host}
    {actor : String} {s : Session}
    (hactor : (readActor P identity).run (.start host c) = .ok (actor, s))
    (hids : ∀ id ∈ ids, ∃ r ∈ c.records, r.id = id ∧ permits c actor r.spaceId false = true) :
    ∃ roots, (getThreadRoots P identity ids).run (.start host c) = .ok (roots, s) ∧
      (∀ r ∈ c.records, r.id ∈ ids → roots.lookup r.id = some (rootEntry c r.spaceId r.id) ∧
        (∀ root title, root ≠ r.id ∨ title ≠ none → (roots.lookup r.id = some (root, title) ↔
          (∃ n, threadRootId c r.spaceId threadMaxDepth threadMaxNodes threadMaxEdges r.id =
            .ok (root, n, true)) ∧ title = (c.findRecord root).bind (·.title))) ∧
        (roots.lookup r.id = some (r.id, none) ↔
          (∀ root n, threadRootId c r.spaceId threadMaxDepth threadMaxNodes threadMaxEdges r.id ≠
            .ok (root, n, true)) ∨
          ((∃ n, threadRootId c r.spaceId threadMaxDepth threadMaxNodes threadMaxEdges r.id =
            .ok (r.id, n, true)) ∧ r.title = none))) ∧
      ∀ id, (roots.lookup id).isSome = true → id ∈ ids := by
  have hcentral : s.central = c :=
    central_eq (fun c => readActor_keeps (ofStore_central c) identity) hactor
  refine ⟨threadRoots c (fun space => permits c actor space false) ids, ?_, fun r hr hid => ?_, ?_⟩
  · simp only [getThreadRoots, run_bind_eq_ok, query_eq_ok]
    exact ⟨actor, s, hactor, by rw [hcentral], rfl⟩
  · have hallowed : permits c actor r.spaceId false = true := by
      obtain ⟨r', hr', hsame, hallowed⟩ := hids r.id hid
      rwa [eq_of_distinct hc.records hr' hr hsame] at hallowed
    have hlookup : (threadRoots c (fun space => permits c actor space false) ids).lookup r.id =
        some (rootEntry c r.spaceId r.id) := threadRoots_lookup hc hr hid hallowed
    have htitle : (c.findRecord r.id).bind (·.title) = r.title := by
      rw [Central.findRecord, find?_of_distinct hc.records hr]
      rfl
    refine ⟨hlookup, fun root title hother => ?_, ?_⟩
    · rw [hlookup, Option.some.injEq, rootEntry_eq_iff]
      refine or_iff_left ?_
      rintro ⟨-, rfl, rfl⟩
      exact hother.elim (· rfl) (· rfl)
    · have hnone : none = r.title ↔ r.title = none := eq_comm
      rw [hlookup, Option.some.injEq, rootEntry_eq_iff, htitle, or_comm, hnone]
      simp only [and_true]
  · intro id hid
    obtain ⟨entry, hentry⟩ := Option.isSome_iff_exists.mp hid
    exact mem_of_threadRoots hc hentry

section Sample

theorem chained_of_wellFormed (hc : WellFormed P c) (hcommas : ∀ r ∈ c.records, ',' ∉ r.id.toList) :
    Chained c where
  records := records_distinct hc
  replies := hc.tables.recordRelations.uniques.imp fun {e e'} hapart h => by
    simp [Schema.collides, Storage.recordRelations, h] at hapart
  commas := hcommas

/-- The roots of the first record of the sample, and what its ascent finds. -/
def sampleRoots : Option (String × Roots × String × ℕ × Bool) := do
  let r ← sampleStore.records.head?
  let roots ← succeeded
    ((getThreadRoots .sample (.bearer sampleToken) [r.id]).run (.start sampleHost sampleStore))
  let root ← succeeded
    (threadRootId sampleStore r.spaceId threadMaxDepth threadMaxNodes threadMaxEdges r.id)
  return (r.id, roots.1, root)

set_option maxRecDepth 20000 in
theorem sampleRoots_facts : (sampleRoots.any fun x =>
    x.2.1.lookup x.1 = some (x.1, none) && x.2.2.1 = x.1 && x.2.2.2.2) = true := by decide +kernel

/-- Three records of one thread, one whose parent is gone, and two that reply to each other. -/
def sampleForest : Central :=
  { sampleStore with
    records :=
      [("r", some "Root"), ("a", none), ("b", none), ("x", some "Lost"), ("y", none),
        ("z", none)].map
      fun r => ⟨r.1, "lab", 1, samplePrincipal, "note", "hello", none, none, r.2, ""⟩
    recordRelations := [("a", "r"), ("b", "a"), ("x", "gone"), ("y", "z"), ("z", "y")].map
      fun e => ⟨e.1, .replyTo, e.2, "", 0⟩ }

theorem sampleForest_chained : Chained sampleForest :=
  ⟨by simp [sampleForest], by simp [sampleForest], by simp [sampleForest]⟩

/-- The token reads this store, and may read the sample space. -/
def readsLab (c : Central) : Bool :=
  (succeeded ((readActor .sample (.bearer sampleToken)).run (.start sampleHost c))).any fun x =>
    permits c x.1 "lab" false

theorem exists_actor (h : readsLab c = true) : ∃ actor s,
    (readActor .sample (.bearer sampleToken)).run (.start sampleHost c) = .ok (actor, s) ∧
      permits c actor "lab" false = true := by
  obtain ⟨⟨actor, s⟩, hactor, hpermits⟩ := (Option.any_eq_true _ _).mp h
  exact ⟨actor, s, succeeded_eq_some.mp hactor, hpermits⟩

set_option maxRecDepth 20000 in
theorem sampleForest_facts : readsLab sampleForest = true ∧
    sampleReplies.map
    (fun x => readsLab x.2.2 && (x.2.2.records.all fun r => !r.id.toList.contains ',') &&
      x.2.2.records.any (fun r => r.id = x.2.1 && r.spaceId = "lab") &&
      rootEntry x.2.2 "lab" x.2.1 = (sampleTarget, none)) = some true := by decide +kernel

/-- An answer two replies below its root, and a forest asked for a thread, a broken chain and a
cycle. -/
theorem thread_roots_sample : (∃ c reply answer roots s, sampleReplies = some (reply, answer, c) ∧
      (getThreadRoots .sample (.bearer sampleToken) [answer]).run (.start sampleHost c) =
      .ok (roots, s) ∧
      roots.lookup answer = some (sampleTarget, none)) ∧
    ∃ roots s, (getThreadRoots .sample (.bearer sampleToken) ["b", "r", "x", "y"]).run
        (.start sampleHost sampleForest) = .ok (roots, s) ∧
      roots.lookup "b" = some ("r", some "Root") ∧ roots.lookup "r" = some ("r", some "Root") ∧
      roots.lookup "x" = some ("x", none) ∧ roots.lookup "y" = some ("y", none) := by
  obtain ⟨hforest, hreplies⟩ := sampleForest_facts
  constructor
  · obtain ⟨⟨reply, answer, c⟩, hreplies, hfacts⟩ := Option.map_eq_some_iff.mp hreplies
    simp only [Bool.and_eq_true, decide_eq_true_eq, any_inSpace, List.all_eq_true,
      Bool.not_eq_true', List.contains_eq_mem, decide_eq_false_iff_not] at hfacts
    obtain ⟨⟨⟨hreads, hcommas⟩, hanswer⟩, hroot⟩ := hfacts
    obtain ⟨actor, s, hactor, hpermits⟩ := exists_actor hreads
    obtain ⟨r, hr, rfl, hspace⟩ := hanswer
    have hchained := chained_of_wellFormed (sampleReplies_served hreplies).wellFormed hcommas
    have hids : ∀ id ∈ [r.id], ∃ r ∈ c.records, r.id = id ∧
      permits c actor r.spaceId false = true :=
      List.forall_mem_singleton.mpr ⟨r, hr, rfl, by rw [hspace]; exact hpermits⟩
    obtain ⟨roots, hroots, hentries, -⟩ := thread_roots hchained hactor hids
    refine ⟨c, reply, r.id, roots, s, hreplies, hroots, ?_⟩
    rw [(hentries r hr List.mem_cons_self).1, hspace, hroot]
  · obtain ⟨actor, s, hactor, hpermits⟩ := exists_actor hforest
    have hids : ∀ id ∈ ["b", "r", "x", "y"], ∃ r ∈ sampleForest.records, r.id = id ∧
        r.spaceId = "lab" := by simp [sampleForest]
    have hallowed : ∀ id ∈ ["b", "r", "x", "y"], ∃ r ∈ sampleForest.records, r.id = id ∧
        permits sampleForest actor r.spaceId false = true := by
      intro id hid
      obtain ⟨r, hr, hid, hspace⟩ := hids id hid
      exact ⟨r, hr, hid, by rw [hspace]; exact hpermits⟩
    obtain ⟨roots, hroots, hentries, -⟩ := thread_roots sampleForest_chained hactor hallowed
    have hentry : ∀ id ∈ ["b", "r", "x", "y"], roots.lookup id =
      some (rootEntry sampleForest "lab" id) := by
      intro id hid
      obtain ⟨r, hr, rfl, hspace⟩ := hids id hid
      rw [(hentries r hr hid).1, hspace]
    refine ⟨roots, s, hroots, (hentry "b" (by simp)).trans ?_, (hentry "r" (by simp)).trans ?_,
      (hentry "x" (by simp)).trans ?_, (hentry "y" (by simp)).trans ?_⟩ <;> decide +kernel

/-- A root without a title looks like a record whose chain is broken. -/
theorem untitled_root_unmarked : ∃ r ∈ sampleStore.records, ∃ roots s,
    (getThreadRoots .sample (.bearer sampleToken) [r.id]).run (.start sampleHost sampleStore) =
      .ok (roots, s) ∧
    ¬ (roots.lookup r.id = some (r.id, none) ↔
      ∀ root n, threadRootId sampleStore r.spaceId threadMaxDepth
      threadMaxNodes threadMaxEdges r.id ≠ .ok (root, n, true)) := by
  obtain ⟨x, hx, hfacts⟩ := (Option.any_eq_true _ _).mp sampleRoots_facts
  simp only [sampleRoots, Option.bind_eq_bind, Option.bind_eq_some_iff, succeeded_eq_some,
    Option.pure_def, Option.some.injEq] at hx
  obtain ⟨r, hr, ⟨roots, s⟩, hroots, ⟨root, n, resolved⟩, hroot, rfl⟩ := hx
  simp only [Bool.and_eq_true, decide_eq_true_eq] at hfacts
  obtain ⟨⟨hlookup, rfl⟩, rfl⟩ := hfacts
  refine ⟨r, List.mem_of_mem_head? hr, roots, s, hroots, fun h => ?_⟩
  exact h.mp hlookup _ n hroot

end Sample

end AgentJournal.Service
