import Mathlib.Data.Finset.Card
import Mathlib.Data.List.Pairwise
import Mathlib.Data.List.Sort

/-! # Keyset paging

A listing is read in pages. Each page shows the first eligible keys after the position it starts
from, and is continued from its own last key exactly when something was left out. What is eligible
may be different at every fetch.
-/

namespace AgentJournal.Foundation
variable {κ : Type} [LinearOrder κ]

/-- The keys that were eligible when a page was fetched, the keys it showed, and whether it is
continued. -/
structure Fetch (κ : Type) where
  eligible : κ → Prop
  keys : List κ
  more : Bool

/-- Everything comes after no position. -/
def After (start : Option κ) (k : κ) : Prop := ∀ p ∈ start, p < k

/-- A page that starts from a position. -/
structure Fetch.From (start : Option κ) (f : Fetch κ) : Prop where
  sorted : f.keys.Pairwise (· < ·)
  sound : ∀ k ∈ f.keys, f.eligible k ∧ After start k
  complete : ∀ k, f.eligible k → After start k →
    k ∈ f.keys ∨ (f.more = true ∧ ∀ k' ∈ f.keys, k' < k)
  progress : f.more = true → f.keys ≠ []

/-- The first keys of a sorted window are a page; the look-ahead key tells whether it goes on. -/
theorem Fetch.from_take {start : Option κ} {eligible : κ → Prop} {window : List κ} {limit : ℕ}
    (hsorted : window.Pairwise (· < ·)) (hmem : ∀ k, k ∈ window ↔ eligible k ∧ After start k)
    (hlimit : 1 ≤ limit) :
    Fetch.From start ⟨eligible, window.take limit, decide (limit < window.length)⟩ where
  sorted := hsorted.sublist (List.take_sublist _ _)
  sound k hk := (hmem k).mp (List.mem_of_mem_take hk)
  complete k hk hstart := by
    have hwindow := (hmem k).mpr ⟨hk, hstart⟩
    rw [← List.take_append_drop limit window, List.mem_append] at hwindow
    refine hwindow.imp_right fun hdrop => ⟨?_, fun k' hk' => ?_⟩
    · have hne := List.length_pos_of_mem hdrop
      rw [List.length_drop] at hne
      simpa using by omega
    · rw [← List.take_append_drop limit window, List.pairwise_append] at hsorted
      exact hsorted.2.2 k' hk' k hdrop
  progress hmore hnil := by
    have hlonger : limit < window.length := by simpa using hmore
    rw [List.take_eq_nil_iff] at hnil
    rcases hnil with hzero | hempty
    · omega
    · simp [hempty] at hlonger

section Rows
variable {ρ : Type}

/-- `ORDER BY key LIMIT ?`. -/
def firstRows (key : ρ → κ) (limit : ℕ) (rows : List ρ) : List ρ :=
  (rows.insertionSort fun a b => key a ≤ key b).take limit

theorem firstRows_take (key : ρ → κ) (limit : ℕ) (rows : List ρ) :
    (firstRows key (limit + 1) rows).take limit = firstRows key limit rows := by
  unfold firstRows
  rw [List.take_take, Nat.min_eq_left (Nat.le_succ limit)]

theorem firstRows_length_le (key : ρ → κ) (limit : ℕ) (rows : List ρ) :
    (firstRows key limit rows).length ≤ limit := List.length_take_le _ _

theorem mem_of_mem_firstRows {key : ρ → κ} {limit : ℕ} {rows : List ρ} {r : ρ}
    (h : r ∈ firstRows key limit rows) : r ∈ rows :=
  (List.perm_insertionSort _ _).mem_iff.mp (List.mem_of_mem_take h)

theorem firstRows_map {σ : Type} (f : σ → ρ) (key : ρ → κ) (limit : ℕ) (rows : List σ) :
    firstRows key limit (rows.map f) = (firstRows (fun x => key (f x)) limit rows).map f := by
  unfold firstRows
  rw [List.map_take, List.map_insertionSort _ (fun a b => key a ≤ key b)]
  intro a _ b _
  rfl

/-- Sorting rows with distinct keys gives increasing keys. -/
theorem increasing_insertionSort {key : ρ → κ} {rows : List ρ}
    (hdistinct : rows.Pairwise fun a b => key a ≠ key b) :
    ((rows.insertionSort fun a b => key a ≤ key b).map key).Pairwise (· < ·) := by
  have hsorted := List.pairwise_insertionSort (fun a b : ρ => key a ≤ key b) rows
  have hapart : (rows.insertionSort fun a b => key a ≤ key b).Pairwise fun a b => key a ≠ key b :=
    ((List.perm_insertionSort _ rows).pairwise_iff fun h => h.symm).mpr hdistinct
  rw [List.pairwise_map]
  exact hsorted.imp₂ (fun _ _ hle hne => lt_of_le_of_ne hle hne) hapart

/-- The order of the table does not show. -/
theorem firstRows_perm {key : ρ → κ} {limit : ℕ} {rows rows' : List ρ} (hperm : rows.Perm rows')
    (hdistinct : rows.Pairwise fun a b => key a ≠ key b) :
    firstRows key limit rows = firstRows key limit rows' := by
  have hsorted : (rows.insertionSort fun a b => key a ≤ key b) =
      rows'.insertionSort fun a b => key a ≤ key b := by
    have hsame : (rows.insertionSort fun a b => key a ≤ key b).Perm
        (rows'.insertionSort fun a b => key a ≤ key b) :=
      ((List.perm_insertionSort _ _).trans hperm).trans (List.perm_insertionSort _ _).symm
    have hincreasing : ∀ {rows : List ρ}, rows.Pairwise (fun a b => key a ≠ key b) →
        (rows.insertionSort fun a b => key a ≤ key b).Pairwise fun a b => key a < key b :=
      fun h => List.pairwise_map.mp (increasing_insertionSort h)
    have hdistinct' := (hperm.pairwise_iff fun h => Ne.symm h).mp hdistinct
    exact hsame.eq_of_pairwise (fun a b _ _ hlt hgt => absurd hlt hgt.asymm) (hincreasing hdistinct)
      (hincreasing hdistinct')
  unfold firstRows
  rw [hsorted]

omit [LinearOrder κ] in
/-- Lists with the same keys, one by one. -/
theorem forall₂_of_keys {α : Type} {R : ρ → α → Prop} {rowKey : ρ → κ} {key : α → κ} {rows : List ρ}
    {xs : List α} (hkeys : xs.map key = rows.map rowKey)
    (hR : ∀ r ∈ rows, ∀ x ∈ xs, rowKey r = key x → R r x) : List.Forall₂ R rows xs := by
  induction rows generalizing xs with
  | nil =>
    rw [List.map_nil, List.map_eq_nil_iff] at hkeys
    rw [hkeys]
    exact .nil
  | cons r rows ih =>
    cases xs with
    | nil => simp at hkeys
    | cons x xs =>
      obtain ⟨hhead, htail⟩ := List.cons.inj hkeys
      exact .cons (hR r List.mem_cons_self x List.mem_cons_self hhead.symm)
        (ih htail fun r' hr' x' hx' =>
          hR r' (List.mem_cons_of_mem _ hr') x' (List.mem_cons_of_mem _ hx'))

theorem forall₂_mem_right {α : Type} {R : ρ → α → Prop} {rows : List ρ} {xs : List α}
    (h : List.Forall₂ R rows xs) {x : α} (hx : x ∈ xs) : ∃ r ∈ rows, R r x := by
  induction h with
  | nil => cases hx
  | @cons r y _ _ hhead _ ih =>
    rcases List.mem_cons.mp hx with rfl | hx
    · exact ⟨r, List.mem_cons_self, hhead⟩
    · obtain ⟨r', hr', hR⟩ := ih hx
      exact ⟨r', List.mem_cons_of_mem _ hr', hR⟩

omit [LinearOrder κ] in
/-- Rows with distinct keys are told apart by their keys. -/
theorem eq_of_distinct {key : ρ → κ} {rows : List ρ}
    (hdistinct : rows.Pairwise fun a b => key a ≠ key b) {a b : ρ} (ha : a ∈ rows) (hb : b ∈ rows)
    (h : key a = key b) : a = b := by
  have : Std.Symm fun a b => key a ≠ key b := ⟨fun _ _ => Ne.symm⟩
  by_contra hne
  exact hdistinct.forall ha hb hne h

omit [LinearOrder κ] in
/-- A row is found by its own key. -/
theorem find?_of_distinct [DecidableEq κ] {key : ρ → κ} {rows : List ρ}
    (hdistinct : rows.Pairwise fun a b => key a ≠ key b) {r : ρ} (hr : r ∈ rows) :
    rows.find? (fun x => key x = key r) = some r := by
  cases hfind : rows.find? fun x => key x = key r with
  | none => simpa using List.find?_eq_none.mp hfind r hr
  | some x =>
    have hkey := List.find?_some hfind
    rw [decide_eq_true_eq] at hkey
    rw [eq_of_distinct hdistinct (List.mem_of_find?_eq_some hfind) hr hkey]

/-- The first rows after a position are a page. -/
theorem Fetch.from_firstRows {start : Option κ} {eligible : κ → Prop} {key : ρ → κ} {rows : List ρ}
    {limit : ℕ} (hdistinct : rows.Pairwise fun a b => key a ≠ key b)
    (hmem : ∀ k, (∃ r ∈ rows, key r = k) ↔ eligible k ∧ After start k) (hlimit : 1 ≤ limit) :
    Fetch.From start
    ⟨eligible, (firstRows key limit rows).map key, decide (limit < rows.length)⟩ := by
  have hwindow : ∀ k, k ∈ (rows.insertionSort fun a b => key a ≤ key b).map key ↔
      eligible k ∧ After start k := by
    intro k
    rw [← hmem, List.mem_map]
    simp only [(List.perm_insertionSort _ rows).mem_iff]
  have hpage := Fetch.from_take (increasing_insertionSort hdistinct) hwindow hlimit
  rw [← List.map_take, List.length_map, List.length_insertionSort] at hpage
  exact hpage

end Rows

/-- Pages each of which starts from the last key of the page before it. -/
inductive Follows : Option κ → List (Fetch κ) → Prop
  | nil (start : Option κ) : Follows start []
  | cons {start : Option κ} {f : Fetch κ} {rest : List (Fetch κ)} : f.From start →
      (rest ≠ [] → f.more = true) → Follows f.keys.getLast? rest → Follows start (f :: rest)

/-- Everything the pages show, in order. -/
def shown (fetches : List (Fetch κ)) : List κ := fetches.flatMap (·.keys)

/-- The last page is not continued. -/
def Finished (fetches : List (Fetch κ)) : Prop := ∃ f, fetches.getLast? = some f ∧ f.more = false

namespace Follows
variable {start : Option κ} {fetches : List (Fetch κ)} {k : κ}

/-- In a sorted list nothing comes after the last key. -/
theorem le_of_getLast {keys : List κ} {last : κ} (hsorted : keys.Pairwise (· < ·))
    (hlast : keys.getLast? = some last) : ∀ k ∈ keys, k ≤ last := by
  obtain ⟨init, rfl⟩ := List.getLast?_eq_some_iff.mp hlast
  intro k hk
  rcases List.mem_append.mp hk with hinit | hlast
  · exact ((List.pairwise_append.mp hsorted).2.2 k hinit last (List.mem_singleton_self _)).le
  · exact (List.mem_singleton.mp hlast).le

theorem increasing (h : Follows start fetches) :
    (shown fetches).Pairwise (· < ·) ∧ ∀ k ∈ shown fetches, After start k := by
  induction h with
  | nil => exact ⟨.nil, by simp [shown]⟩
  | @cons start f rest hfrom hmore _ ih =>
    -- the later pages are after the last key of this one
    have hlater : ∀ k ∈ shown rest, ∃ last ∈ f.keys, (∀ k' ∈ f.keys, k' ≤ last) ∧ last < k := by
      intro k hk
      have hrest : rest ≠ [] := by
        rintro rfl
        simp [shown] at hk
      obtain ⟨last, hlast⟩ := Option.isSome_iff_exists.mp
        (List.getLast?_isSome.mpr (hfrom.progress (hmore hrest)))
      exact ⟨last, List.mem_of_getLast? hlast, le_of_getLast hfrom.sorted hlast,
        ih.2 k hk last hlast⟩
    refine ⟨List.pairwise_append.mpr ⟨hfrom.sorted, ih.1, fun k hk k' hk' => ?_⟩, fun k hk => ?_⟩
    · obtain ⟨last, -, hle, hlt⟩ := hlater k' hk'
      exact (hle k hk).trans_lt hlt
    · rcases List.mem_append.mp hk with hfirst | hrest
      · exact (hfrom.sound k hfirst).2
      · obtain ⟨last, hlast, -, hlt⟩ := hlater k hrest
        exact fun p hp => ((hfrom.sound last hlast).2 p hp).trans hlt

theorem nodup (h : Follows start fetches) : (shown fetches).Nodup :=
  h.increasing.1.imp fun hlt => hlt.ne

/-- What a page shows was eligible when it was fetched. -/
theorem sound (h : Follows start fetches) (hk : k ∈ shown fetches) :
    ∃ f ∈ fetches, k ∈ f.keys ∧ f.eligible k := by
  induction h with
  | nil => simp [shown] at hk
  | @cons start f rest hfrom _ _ ih =>
    rcases List.mem_append.mp hk with hfirst | hrest
    · exact ⟨f, List.mem_cons_self, hfirst, (hfrom.sound k hfirst).1⟩
    · obtain ⟨g, hg, hshown⟩ := ih hrest
      exact ⟨g, List.mem_cons_of_mem _ hg, hshown⟩

/-- A key that is eligible at every fetch is shown by the time the last page is reached. -/
theorem complete (h : Follows start fetches) (hfinished : Finished fetches)
    (hk : ∀ f ∈ fetches, f.eligible k) (hstart : After start k) : k ∈ shown fetches := by
  induction h with
  | nil => simp [Finished] at hfinished
  | @cons start f rest hfrom hmore _ ih =>
    obtain ⟨last, hlast, hdone⟩ := hfinished
    rcases hfrom.complete k (hk f List.mem_cons_self) hstart with hshown | ⟨hcontinued, hafter⟩
    · exact List.mem_append_left _ hshown
    · have hrest : rest ≠ [] := by
        rintro rfl
        obtain rfl : f = last := by simpa using hlast
        simp [hdone] at hcontinued
      rw [List.getLast?_cons_of_ne_nil hrest] at hlast
      refine List.mem_append_right _ (ih ⟨last, hlast, hdone⟩
        (fun g hg => hk g (List.mem_cons_of_mem _ hg)) fun p hp => ?_)
      exact hafter p (List.mem_of_getLast? hp)

theorem count_eq_one [BEq κ] [LawfulBEq κ] (h : Follows start fetches)
    (hfinished : Finished fetches)
    (hk : ∀ f ∈ fetches, f.eligible k) (hstart : After start k) : (shown fetches).count k = 1 :=
  List.count_eq_one_of_mem h.nodup (h.complete hfinished hk hstart)

/-- With finitely many keys the pages come to an end. -/
theorem length_le (h : Follows start fetches) (keys : Finset κ)
    (hkeys : ∀ f ∈ fetches, ∀ k, f.eligible k → k ∈ keys) : fetches.length ≤ keys.card + 1 := by
  have hpages : fetches.length ≤ (shown fetches).length + 1 := by
    clear hkeys
    induction h with
    | nil => simp
    | @cons start f rest hfrom hmore _ ih =>
      by_cases hrest : rest = []
      · simp [hrest]
      · have hshown := List.length_pos_iff.mpr (hfrom.progress (hmore hrest))
        simp only [shown, List.flatMap_cons, List.length_append, List.length_cons] at ih ⊢
        omega
  have hcard : (shown fetches).toFinset.card ≤ keys.card := by
    refine Finset.card_le_card fun k hk => ?_
    obtain ⟨f, hf, -, heligible⟩ := h.sound (List.mem_toFinset.mp hk)
    exact hkeys f hf k heligible
  rw [List.toFinset_card_of_nodup h.nodup] at hcard
  omega

/-- When nothing changes between the fetches, the pages are the whole sorted listing. -/
theorem eq_listing {listing : List κ} {eligible : κ → Prop} (h : Follows start fetches)
    (hfinished : Finished fetches) (hsame : ∀ f ∈ fetches, f.eligible = eligible)
    (hsorted : listing.Pairwise (· < ·))
    (hmem : ∀ k, k ∈ listing ↔ eligible k ∧ After start k) : shown fetches = listing := by
  refine h.increasing.1.eq_of_mem_iff hsorted fun k => ?_
  rw [hmem]
  constructor
  · intro hk
    obtain ⟨f, hf, -, heligible⟩ := h.sound hk
    exact ⟨hsame f hf ▸ heligible, h.increasing.2 k hk⟩
  · rintro ⟨heligible, hstart⟩
    exact h.complete hfinished (fun f hf => by rw [hsame f hf]; exact heligible) hstart

end Follows
end AgentJournal.Foundation
