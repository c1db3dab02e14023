import AgentJournal.Foundation.Climb
import AgentJournal.Foundation.Loop
import AgentJournal.Service.Threads

/-! # The loops of a thread read

The ascent and the descent on machine words. They end without a subtraction below zero, as the
recursions with fuel do.
-/

namespace AgentJournal.Service
open Domain Foundation Storage

section Rounds
variable (c : Central) (space : String) (maxDepth maxNodes maxEdges : ℕ)

/-- The state of the loop of `thread_root_id`. -/
structure Ascent where
  root : String
  ancestors : List String
  edges : ℕ

def ascentRound (s : Ascent) : Round Ascent (Except BootstrapError (String × ℕ)) :=
  if s.root ∈ s.ancestors then .done (.error .corruptJournal)
  else if s.ancestors.length + 1 > maxNodes then .done (.error .invalidJournal)
  else match parentOf c space s.root with
    | none => .done (.ok (s.root, s.edges))
    | some parent =>
      if s.ancestors.length + 1 > maxDepth ∨ s.edges + 1 > maxEdges then
        .done (.error .invalidJournal)
      else .again ⟨parent, s.root :: s.ancestors, s.edges + 1⟩

/-- `n as i64`. -/
def asI64 (n : ℕ) : ℤ := (BitVec.ofNat 64 n).toInt

/-- `LIMIT ?`; a limit below zero is none. -/
def limited (limit : ℤ) (rows : List String) : List String :=
  if limit < 0 then rows else rows.take limit.toNat

/-- The state of the loop of `thread_ids`, with the end of `pending` first. -/
structure Descent where
  pending : List (String × ℕ)
  seen : List String
  edges : ℕ
  result : List (ℤ × String)

def descentRound (s : Descent) : Round Descent (Except BootstrapError (List (ℤ × String))) :=
  match s.pending with
  | [] => .done (.ok s.result)
  | (id, depth) :: pending =>
    if id ∈ s.seen then .done (.error .corruptJournal)
    else if s.seen.length + 1 > maxNodes ∨ depth > maxDepth then .done (.error .invalidJournal)
    else match c.records.find? fun r => r.id = id && r.spaceId = space with
      | none => .done (.error (.sqlite .queryReturnedNoRows))
      | some row =>
        .sub maxNodes (s.seen.length + 1) fun unseen =>
        .sub unseen pending.length fun nodes =>
        .sub maxEdges s.edges fun edges =>
          let remaining := min nodes edges
          let children := limited (asI64 (remaining + 1)) (repliesTo c space id)
          if children.length > remaining ∨ (depth = maxDepth ∧ children ≠ []) then
            .done (.error .invalidJournal)
          else .again
            ⟨(children.map fun child => (child, depth + 1)).reverse ++ pending, id :: s.seen,
            s.edges + children.length, s.result ++ [(row.spaceSeq, id)]⟩

/-- A run of `thread_ids`: an ascent that fails, or an ascent and a descent. -/
inductive ReadsThread (anchor : String) : Except BootstrapError (List (ℤ × String)) → Prop
  | lost {e : BootstrapError} :
      Finishes (ascentRound c space maxDepth maxNodes maxEdges) ⟨anchor, [], 0⟩ (.error e) →
      ReadsThread anchor (.error e)
  | found {root : String} {edges : ℕ} {r : Except BootstrapError (List (ℤ × String))} :
      Finishes (ascentRound c space maxDepth maxNodes maxEdges) ⟨anchor, [], 0⟩
      (.ok (root, edges)) →
      Finishes (descentRound c space maxDepth maxNodes maxEdges) ⟨[(root, 0)], [], edges, []⟩ r →
      ReadsThread anchor r

end Rounds

variable {P : Platform} {c : Central} {space : String} {maxDepth maxNodes maxEdges : ℕ}

section Ascents

/-- The step of an ascent. -/
def Parent (c : Central) (space id parent : String) : Prop := parentOf c space id = some parent

theorem parent_unique : Relator.RightUnique (Parent c space) := fun _ _ _ h h' =>
  Option.some.inj (h.symm.trans h')

theorem topmost_iff {id : String} : Topmost (Parent c space) id ↔ parentOf c space id = none :=
  Option.eq_none_iff_forall_ne_some.symm

/-- The fuel of an ascent is never used up. -/
theorem ascend_ends {fuel edges : ℕ} {root : String} {ancestors : List String}
    (hroom : ancestors.length ≤ maxNodes) (hfuel : maxNodes + 1 ≤ fuel + ancestors.length) :
    Finishes (ascentRound c space maxDepth maxNodes maxEdges) ⟨root, ancestors, edges⟩
      (ascend c space maxDepth maxNodes maxEdges fuel root ancestors edges) := by
  induction fuel generalizing root ancestors edges with
  | zero => omega
  | succ fuel ih =>
    unfold ascend
    by_cases hcycle : root ∈ ancestors
    · rw [failIf_pos hcycle]
      exact .done (by simp [ascentRound, hcycle])
    by_cases hnodes : ancestors.length + 1 > maxNodes
    · rw [failIf_neg hcycle, failIf_pos hnodes]
      exact .done (by simp [ascentRound, hcycle, hnodes])
    rw [failIf_neg hcycle, failIf_neg hnodes]
    cases hparent : parentOf c space root with
    | none => exact .done (by simp [ascentRound, hcycle, hnodes, hparent])
    | some parent =>
      by_cases hbudget : ancestors.length + 1 > maxDepth ∨ edges + 1 > maxEdges
      · simp only [ok_bind, failIf_pos hbudget]
        refine .done ?_
        rw [ascentRound, if_neg hcycle, if_neg hnodes, hparent]
        exact if_pos hbudget
      · simp only [ok_bind, failIf_neg hbudget]
        refine .again (t := ⟨parent, root :: ancestors, edges + 1⟩) ?_ (ih ?_ ?_)
        · rw [ascentRound, if_neg hcycle, if_neg hnodes, hparent]
          exact if_neg hbudget
        · exact Nat.not_lt.mp hnodes
        · simp only [List.length_cons]
          omega

/-- What an ascent that has climbed some steps knows. -/
structure Ascending (c : Central) (space : String) (maxDepth maxEdges : ℕ) (anchor : String)
    (s : Ascent) :
    Prop where
  climbed : Climbs (Parent c space) s.edges anchor s.root
  counted : s.ancestors.length = s.edges
  passed : ∀ id ∈ s.ancestors, ∃ k < s.edges, Climbs (Parent c space) k anchor id
  shallow : s.edges ≤ maxDepth
  within : s.edges ≤ maxEdges

theorem Ascending.start (anchor : String) :
    Ascending c space maxDepth maxEdges anchor ⟨anchor, [], 0⟩ where
  climbed := .refl anchor
  counted := rfl
  passed := by simp
  shallow := Nat.zero_le _
  within := Nat.zero_le _

theorem Ascending.round {anchor : String} {s t : Ascent}
    (h : Ascending c space maxDepth maxEdges anchor s)
    (hround : ascentRound c space maxDepth maxNodes maxEdges s = .again t) :
    Ascending c space maxDepth maxEdges anchor t := by
  unfold ascentRound at hround
  split at hround
  · simp at hround
  split at hround
  · simp at hround
  split at hround
  · simp at hround
  next parent hparent =>
    split at hround
    · simp at hround
    next hbudget =>
      obtain rfl := Round.again.inj hround
      have hcounted := h.counted
      refine ⟨h.climbed.tail hparent, by simp [hcounted],
        ?_, by simp only; omega, by simp only; omega⟩
      intro id hid
      rcases List.mem_cons.mp hid with rfl | hold
      · exact ⟨s.edges, Nat.lt_succ_self _, h.climbed⟩
      · obtain ⟨k, hk, hclimb⟩ := h.passed id hold
        exact ⟨k, Nat.lt_succ_of_lt hk, hclimb⟩

/-- An ascent finds the top above the anchor when the way there is within the budgets. -/
theorem ascend_eq_ok_iff {anchor root : String} {n : ℕ} :
    ascend c space maxDepth maxNodes maxEdges (maxNodes + 1) anchor [] 0 = .ok (root, n) ↔
      Climbs (Parent c space) n anchor root ∧ parentOf c space root = none ∧ n ≤ maxDepth ∧
        n < maxNodes ∧ n ≤ maxEdges := by
  have hends : Finishes (ascentRound c space maxDepth maxNodes maxEdges) ⟨anchor, [], 0⟩
      (ascend c space maxDepth maxNodes maxEdges (maxNodes + 1) anchor [] 0) :=
    ascend_ends (Nat.zero_le _) (by simp)
  constructor
  · intro h
    rw [h] at hends
    obtain ⟨s, hs, hdone⟩ := hends.invariant (Ascending.start anchor) fun s t hs ht => hs.round ht
    unfold ascentRound at hdone
    split at hdone
    · simp at hdone
    split at hdone
    · simp at hdone
    next hnodes =>
      split at hdone
      next htop =>
        simp only [Round.done.injEq, Except.ok.injEq, Prod.mk.injEq] at hdone
        obtain ⟨rfl, rfl⟩ := hdone
        have hcounted := hs.counted
        exact ⟨hs.climbed, htop, hs.shallow, by omega, hs.within⟩
      next => split at hdone <;> simp at hdone
  · rintro ⟨hclimb, htop, hdepth, hnodes, hedges⟩
    have htopmost := topmost_iff.mpr htop
    suffices ∃ r, Finishes (ascentRound c space maxDepth maxNodes maxEdges) ⟨anchor, [], 0⟩ r ∧
        r = .ok (root, n) by
      obtain ⟨r, hr, rfl⟩ := this
      exact hends.unique hr
    refine Finishes.of_measure (I := Ascending c space maxDepth maxEdges anchor)
      (fun s => n - s.edges) ?_
      (Ascending.start anchor)
    intro s hs
    obtain ⟨hle, honward⟩ := hclimb.onward parent_unique htopmost hs.climbed
    have hcounted := hs.counted
    have hfresh : s.root ∉ s.ancestors := by
      intro hmem
      obtain ⟨k, hk, hpassed⟩ := hs.passed _ hmem
      have := hclimb.once parent_unique htopmost hpassed hs.climbed
      omega
    have hroom : ¬ s.ancestors.length + 1 > maxNodes := by omega
    cases hparent : parentOf c space s.root with
    | none =>
      obtain ⟨heq, hroot⟩ :=
        hclimb.top_unique parent_unique htopmost hs.climbed (topmost_iff.mpr hparent)
      exact .inr
        ⟨.ok (s.root, s.edges), by simp [ascentRound, hfresh, hroom, hparent], by rw [heq, hroot]⟩
    | some parent =>
      have hbelow : s.edges < n := by
        refine lt_of_le_of_ne hle fun heq => ?_
        rw [heq, Nat.sub_self] at honward
        rw [honward.eq_of_zero, htop] at hparent
        simp at hparent
      have hbudget : ¬ (s.ancestors.length + 1 > maxDepth ∨ s.edges + 1 > maxEdges) := by omega
      have hround : ascentRound c space maxDepth maxNodes maxEdges s =
          .again ⟨parent, s.root :: s.ancestors, s.edges + 1⟩ := by
        simp only [ascentRound, if_neg hfresh, if_neg hroom, hparent, if_neg hbudget]
      exact .inl ⟨_, hround, hs.round hround, by simp only; omega⟩

end Ascents

section Descents

theorem asI64_of_lt {n : ℕ} (h : n < 2 ^ 63) : asI64 n = n := by
  have hsmall : n % 2 ^ 64 = n := Nat.mod_eq_of_lt (by omega)
  rw [asI64, BitVec.toInt_eq_toNat_of_lt, BitVec.toNat_ofNat, hsmall]
  rw [BitVec.toNat_ofNat, hsmall]
  omega

theorem limited_asI64 {n : ℕ} (h : n < 2 ^ 63) (rows : List String) :
    limited (asI64 n) rows = rows.take n := by
  rw [asI64_of_lt h, limited, if_neg (by omega), Int.toNat_natCast]

/-- The room in the budgets that every round of a descent leaves. -/
structure Room (maxNodes maxEdges : ℕ) (s : Descent) : Prop where
  nodes : s.seen.length + s.pending.length ≤ maxNodes
  edges : s.edges ≤ maxEdges

/-- No subtraction goes below zero, and the limit of the query is positive. -/
theorem descentRound_cons (hbudget : maxNodes < 2 ^ 63) {s : Descent}
    (hroom : Room maxNodes maxEdges s)
    {id : String} {depth : ℕ} {pending : List (String × ℕ)}
    (hpending : s.pending = (id, depth) :: pending) :
    descentRound c space maxDepth maxNodes maxEdges s =
      if id ∈ s.seen then .done (.error .corruptJournal)
      else if depth > maxDepth then .done (.error .invalidJournal)
      else match c.records.find? fun r => r.id = id && r.spaceId = space with
        | none => .done (.error (.sqlite .queryReturnedNoRows))
        | some row =>
          let children := (repliesTo c space id).take
            (min (maxNodes - (s.seen.length + 1) - pending.length) (maxEdges - s.edges) + 1)
          if children.length > min (maxNodes - (s.seen.length + 1) - pending.length)
              (maxEdges - s.edges) ∨ (depth = maxDepth ∧ children ≠ []) then
            .done (.error .invalidJournal)
          else .again
            ⟨(children.map fun child => (child, depth + 1)).reverse ++ pending, id :: s.seen,
            s.edges + children.length, s.result ++ [(row.spaceSeq, id)]⟩ := by
  have hnodes := hroom.nodes
  rw [hpending, List.length_cons] at hnodes
  unfold descentRound
  rw [hpending]
  simp only [Round.sub_of_le (show s.seen.length + 1 ≤ maxNodes by omega),
    Round.sub_of_le (show pending.length ≤ maxNodes - (s.seen.length + 1) by omega),
    Round.sub_of_le hroom.edges, Nat.not_lt.mpr (show s.seen.length + 1 ≤ maxNodes by omega),
    false_or,
    limited_asI64
    (show min (maxNodes - (s.seen.length + 1) - pending.length) (maxEdges - s.edges) + 1 <
      2 ^ 63 by omega)]

/-- A round takes all replies or none. -/
theorem descentRound_again (hbudget : maxNodes < 2 ^ 63) {s : Descent}
    (hroom : Room maxNodes maxEdges s)
    {id : String} {depth : ℕ} {pending : List (String × ℕ)}
    (hpending : s.pending = (id, depth) :: pending)
    {t : Descent} : descentRound c space maxDepth maxNodes maxEdges s = .again t ↔
      id ∉ s.seen ∧ depth ≤ maxDepth ∧
      (repliesTo c space id).length + s.pending.length + s.seen.length ≤ maxNodes ∧
      s.edges + (repliesTo c space id).length ≤ maxEdges ∧
      (depth = maxDepth → repliesTo c space id = []) ∧
      ∃ row, (c.records.find? fun r => r.id = id && r.spaceId = space) = some row ∧
        t = ⟨((repliesTo c space id).map fun child => (child, depth + 1)).reverse ++
          pending, id :: s.seen,
          s.edges + (repliesTo c space id).length, s.result ++ [(row.spaceSeq, id)]⟩ := by
  have hnodes := hroom.nodes
  have hedges := hroom.edges
  rw [descentRound_cons hbudget hroom hpending]
  rw [hpending, List.length_cons] at hnodes ⊢
  generalize repliesTo c space id = replies
  by_cases hseen : id ∈ s.seen
  · simp [hseen]
  by_cases hdeep : depth > maxDepth
  · simp [hseen, hdeep]
  rw [if_neg hseen, if_neg hdeep]
  cases hrow : c.records.find? fun r => r.id = id && r.spaceId = space with
  | none => simp
  | some row =>
    by_cases hfits : replies.length ≤ min (maxNodes - (s.seen.length + 1) - pending.length)
        (maxEdges - s.edges)
    · rw [List.take_of_length_le (by omega)]
      by_cases hdeepest : depth = maxDepth ∧ replies ≠ []
      · simp [hdeepest]
      · have hlast : depth = maxDepth → replies = [] :=
          fun h => by_contra fun hne => hdeepest ⟨h, hne⟩
        simp only [Nat.not_lt.mpr hfits, hdeepest, or_self, if_false, Round.again.injEq, hseen,
          Option.some.injEq, exists_eq_left', not_false_eq_true, true_and]
        constructor
        · rintro rfl
          exact ⟨by omega, by omega, by omega, hlast, rfl⟩
        · rintro ⟨-, -, -, -, rfl⟩
          rfl
    · have htaken : (replies.take (min (maxNodes - (s.seen.length + 1) - pending.length)
          (maxEdges - s.edges) + 1)).length > min (maxNodes - (s.seen.length + 1) - pending.length)
            (maxEdges - s.edges) := by
        rw [List.length_take]
        omega
      simp only [htaken, true_or, if_true, reduceCtorEq, false_iff]
      rintro ⟨-, -, hroom', hedges', -⟩
      omega

theorem descentRound_done (hbudget : maxNodes < 2 ^ 63) {s : Descent}
    (hroom : Room maxNodes maxEdges s)
    {ids : List (ℤ × String)}
    (h : descentRound c space maxDepth maxNodes maxEdges s = .done (.ok ids)) :
    s.pending = [] := by
  cases hpending : s.pending with
  | nil => rfl
  | cons x pending =>
    rw [descentRound_cons hbudget hroom hpending] at h
    split at h
    · simp at h
    split at h
    · simp at h
    split at h
    · simp at h
    · dsimp only at h
      split at h <;> simp at h

/-- A round of the descent of the source is a round of the descent with fuel. -/
theorem descend_round (hbudget : maxNodes < 2 ^ 63) {s : Descent} (hroom : Room maxNodes maxEdges s)
    (fuel : ℕ) : (∃ t, descentRound c space maxDepth maxNodes maxEdges s = .again t ∧
        descend c space maxDepth maxNodes maxEdges (fuel + 1) s.pending s.seen s.edges s.result =
          descend c space maxDepth maxNodes maxEdges fuel t.pending t.seen t.edges t.result) ∨
      descentRound c space maxDepth maxNodes maxEdges s =
        .done (descend c space maxDepth maxNodes maxEdges
          (fuel + 1) s.pending s.seen s.edges s.result) := by
  cases hpending : s.pending with
  | nil => exact .inr (by simp [descentRound, hpending, descend])
  | cons x pending =>
    obtain ⟨id, depth⟩ := x
    have hnodes := hroom.nodes
    rw [hpending, List.length_cons] at hnodes
    rw [descentRound_cons hbudget hroom hpending, descend]
    by_cases hseen : id ∈ s.seen
    · exact .inr (by rw [if_pos hseen, failIf_pos hseen, error_bind])
    by_cases hdeep : depth > maxDepth
    · exact .inr
        (by rw [if_neg hseen, if_pos hdeep, failIf_neg hseen, failIf_pos (.inr hdeep)]; rfl)
    have hpassed : ¬ (s.seen.length + 1 > maxNodes ∨ depth > maxDepth) := by omega
    rw [if_neg hseen, if_neg hdeep, failIf_neg hseen, failIf_neg hpassed]
    cases c.records.find? fun r => r.id = id && r.spaceId = space with
    | none => exact .inr rfl
    | some row =>
      simp only [ok_bind, required]
      generalize min (maxNodes - (s.seen.length + 1) - pending.length) (maxEdges - s.edges) =
        remaining
      generalize (repliesTo c space id).take (remaining + 1) = children
      by_cases hover : children.length > remaining ∨ (depth = maxDepth ∧ children ≠ [])
      · exact .inr (by rw [if_pos hover, failIf_pos hover, error_bind])
      · exact .inl ⟨_, by rw [if_neg hover], by rw [failIf_neg hover, ok_bind]⟩

theorem Room.round (hbudget : maxNodes < 2 ^ 63) {s t : Descent} (hroom : Room maxNodes maxEdges s)
    (h : descentRound c space maxDepth maxNodes maxEdges s = .again t) :
    Room maxNodes maxEdges t := by
  cases hpending : s.pending with
  | nil => simp [descentRound, hpending] at h
  | cons x pending =>
    obtain ⟨-, -, hnodes, hedges, -, row, -, rfl⟩ :=
      (descentRound_again hbudget hroom hpending).mp h
    rw [hpending, List.length_cons] at hnodes
    refine ⟨?_, hedges⟩
    simp only [List.length_cons, List.length_append, List.length_reverse, List.length_map]
    omega

theorem descentRound_seen (hbudget : maxNodes < 2 ^ 63) {s t : Descent}
    (hroom : Room maxNodes maxEdges s)
    (h : descentRound c space maxDepth maxNodes maxEdges s = .again t) :
    t.seen.length = s.seen.length + 1 := by
  cases hpending : s.pending with
  | nil => simp [descentRound, hpending] at h
  | cons x pending =>
    obtain ⟨-, -, -, -, -, row, -, rfl⟩ := (descentRound_again hbudget hroom hpending).mp h
    rfl

/-- The fuel of a descent is never used up. -/
theorem descend_ends (hbudget : maxNodes < 2 ^ 63) {fuel : ℕ} {s : Descent}
    (hroom : Room maxNodes maxEdges s)
    (hfuel : maxNodes + 1 ≤ fuel + s.seen.length) :
    Finishes (descentRound c space maxDepth maxNodes maxEdges) s
      (descend c space maxDepth maxNodes maxEdges fuel s.pending s.seen s.edges s.result) := by
  induction fuel generalizing s with
  | zero =>
    have := hroom.nodes
    omega
  | succ fuel ih =>
    rcases descend_round hbudget hroom fuel with ⟨t, hagain, hrest⟩ | hdone
    · rw [hrest]
      refine .again hagain (ih (hroom.round hbudget hagain) ?_)
      rw [descentRound_seen hbudget hroom hagain]
      omega
    · exact .done hdone

end Descents

/-- The loops of a thread read end, without a subtraction below zero, as the bounded recursions
do. -/
theorem readsThread (hbudget : maxNodes < 2 ^ 63) (anchor : String) :
    ReadsThread c space maxDepth maxNodes maxEdges anchor
      (threadIds c space maxDepth maxNodes maxEdges anchor) := by
  have hascent : Finishes (ascentRound c space maxDepth maxNodes maxEdges) ⟨anchor, [], 0⟩
      (ascend c space maxDepth maxNodes maxEdges (maxNodes + 1) anchor [] 0) :=
    ascend_ends (Nat.zero_le _) (by simp)
  unfold threadIds threadRootId
  cases hfound : ascend c space maxDepth maxNodes maxEdges (maxNodes + 1) anchor [] 0 with
  | error e => exact .lost (hfound ▸ hascent)
  | ok x =>
    obtain ⟨root, edges⟩ := x
    obtain ⟨-, -, -, hnodes, hedges⟩ := ascend_eq_ok_iff.mp hfound
    refine .found (hfound ▸ hascent) ?_
    exact descend_ends hbudget (s := ⟨[(root, 0)], [], edges, []⟩)
      ⟨by simpa using Nat.one_le_of_lt hnodes, hedges⟩ (by simp)

theorem ReadsThread.unique {anchor : String} {r r' : Except BootstrapError (List (ℤ × String))}
    (h : ReadsThread c space maxDepth maxNodes maxEdges anchor r)
    (h' : ReadsThread c space maxDepth maxNodes maxEdges anchor r') : r = r' := by
  cases h with
  | lost hascent =>
    cases h' with
    | lost hascent' => simpa using hascent.unique hascent'
    | found hascent' _ => simpa using hascent.unique hascent'
  | found hascent hdescent =>
    cases h' with
    | lost hascent' => simpa using hascent.unique hascent'
    | found hascent' hdescent' =>
      have hsame := hascent.unique hascent'
      simp only [Except.ok.injEq, Prod.mk.injEq] at hsame
      obtain ⟨rfl, rfl⟩ := hsame
      exact hdescent.unique hdescent'

end AgentJournal.Service
