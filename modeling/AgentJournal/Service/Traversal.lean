import AgentJournal.Service.Listing
import AgentJournal.Service.Pages
import AgentJournal.Service.Idempotency
import Mathlib.Algebra.Order.BigOperators.Group.List
import Mathlib.Data.Int.Interval

/-! # Following a listing

A client follows the cursors of a listing while any clients' calls are committed between its
fetches. Each route says what one page shows; what the whole traversal shows is the paging
library's.
-/

namespace AgentJournal.Service
open Domain Foundation Storage Recovery

variable {P : Platform} {c d : Central}

/-- A store that calls made from a content that can be served. -/
def Served (P : Platform) (c : Central) : Prop := ∃ c₀, Content P c₀ ∧ Serves P c₀ c

namespace Served

theorem of_content (h : Content P c) : Served P c := ⟨c, h, .refl⟩

theorem later (h : Served P c) (hserves : Serves P c d) : Served P d := by
  obtain ⟨c₀, hc₀, hserved⟩ := h
  exact ⟨c₀, hc₀, hserved.trans hserves⟩

theorem wellFormed (h : Served P c) : WellFormed P c := by
  obtain ⟨c₀, hc₀, hserved⟩ := h
  exact (hserved.wellFormed hc₀.wellFormed hc₀.sound).1

theorem sound (h : Served P c) : JournalSound c := by
  obtain ⟨c₀, hc₀, hserved⟩ := h
  exact (hserved.wellFormed hc₀.wellFormed hc₀.sound).2

/-- What every call and every merge keeps holds of it. -/
theorem invariant {I : Central → Prop} (hI : Invariant P I) (h : Served P c) : I c := by
  obtain ⟨c₀, hc₀, hserved⟩ := h
  exact (hserved.invariant hI.anchor (fun call _ _ _ => hI.call call) hc₀.wellFormed hc₀.sound
    (hI.content hc₀)).2.2

end Served

variable {α κ : Type}

/-- A page of a listing and the store it was read from. -/
structure Fetched (α : Type) where
  central : Central
  query : PageQuery
  page : Page α

/-- Pages of a route, each fetched with the cursor of the page before it. -/
inductive Traversal (P : Platform) (route : Central → PageQuery → Page α → Prop) :
    Central → Option String → List (Fetched α) → Prop
  | nil (c : Central) (cursor : Option String) : Traversal P route c cursor []
  | cons {c : Central} {cursor : Option String} {f : Fetched α} {rest : List (Fetched α)} :
      Serves P c f.central → f.query.cursor = cursor → route f.central f.query f.page →
      (rest ≠ [] → f.page.nextCursor ≠ none) →
      Traversal P route f.central f.page.nextCursor rest → Traversal P route c cursor (f :: rest)

namespace Traversal
variable {route : Central → PageQuery → Page α → Prop} {cursor : Option String}
  {fetches : List (Fetched α)}

/-- Every page is a page of the route in a served store. -/
theorem mem (hc : Served P c) (h : Traversal P route c cursor fetches) :
    ∀ f ∈ fetches, Served P f.central ∧ route f.central f.query f.page := by
  induction h with
  | nil => simp
  | @cons c cursor f rest hserves _ hroute _ _ ih =>
    have hserved := hc.later hserves
    exact List.forall_mem_cons.mpr ⟨⟨hserved, hroute⟩, ih hserved⟩

/-- Every store of a traversal is served from its first one. -/
theorem serves (h : Traversal P route c cursor fetches) : ∀ f ∈ fetches, Serves P c f.central := by
  induction h with
  | nil => simp
  | cons hserves _ _ _ _ ih =>
    exact List.forall_mem_cons.mpr ⟨hserves, fun f hf => hserves.trans (ih f hf)⟩

theorem serves_first {f : Fetched α} (h : Traversal P route c cursor (f :: fetches)) :
    ∀ g ∈ f :: fetches, Serves P f.central g.central := by
  cases h with
  | cons _ _ _ _ hrest => exact List.forall_mem_cons.mpr ⟨.refl, hrest.serves⟩

/-- All stores of a traversal are served into one. -/
theorem joined (h : Traversal P route c cursor fetches) :
    ∃ e, Serves P c e ∧ ∀ f ∈ fetches, Serves P f.central e := by
  induction h with
  | nil c => exact ⟨c, .refl, by simp⟩
  | cons hserves _ _ _ _ ih =>
    obtain ⟨e, hfirst, hrest⟩ := ih
    exact ⟨e, hserves.trans hfirst, List.forall_mem_cons.mpr ⟨hfirst, hrest⟩⟩

/-- A page fetched with the cursor of the last one goes on with the traversal. -/
theorem snoc {last f : Fetched α} (h : Traversal P route c cursor fetches)
    (hlast : fetches.getLast? = some last) (hnext : last.page.nextCursor ≠ none)
    (hserves : Serves P last.central f.central) (hcursor : f.query.cursor = last.page.nextCursor)
    (hroute : route f.central f.query f.page) : Traversal P route c cursor (fetches ++ [f]) := by
  induction h with
  | nil => cases hlast
  | @cons c cursor g rest hserved hq hpage hmore hrest ih =>
    by_cases hnil : rest = []
    · subst hnil
      obtain rfl : g = last := by simpa using hlast
      exact .cons hserved hq hpage (fun _ => hnext)
        (.cons hserves hcursor hroute (by simp) (.nil _ _))
    · rw [List.getLast?_cons_of_ne_nil hnil] at hlast
      exact .cons hserved hq hpage (fun _ => hmore hnil) (ih hlast)

end Traversal

/-- What the client was shown. -/
def items (fetches : List (Fetched α)) : List α := fetches.flatMap (·.page.items)

theorem length_items_le {fetches : List (Fetched α)} {limit : ℕ}
    (h : ∀ f ∈ fetches, f.page.items.length ≤ limit) :
    (items fetches).length ≤ fetches.length * limit := by
  have hsum :=
    List.sum_le_card_nsmul (fetches.map fun f => f.page.items.length) limit (by simpa using h)
  rwa [List.length_map, nsmul_eq_mul, Nat.cast_id, ← List.length_flatMap] at hsum

/-- The client followed the cursors to their end. -/
def Ended (fetches : List (Fetched α)) : Prop :=
  ∃ f, fetches.getLast? = some f ∧ f.page.nextCursor = none

/-- When every page that issues a cursor is answered by another one of its kind and only so many
pages can follow each other, following the cursors comes to an end. -/
theorem Traversal.ends {route : Central → PageQuery → Page α → Prop} {cursor : Option String}
    {I : Fetched α → Prop} {first : Fetched α} {n : ℕ}
    (hnext : ∀ f cursor, I f → f.page.nextCursor = some cursor →
      ∃ g, I g ∧ Serves P f.central g.central ∧ g.query.cursor = some cursor ∧
      route g.central g.query g.page)
    (hbound : ∀ fetches, Traversal P route c cursor (first :: fetches) →
      (∀ f ∈ first :: fetches, I f) →
      fetches.length ≤ n)
    {fetches : List (Fetched α)} (h : Traversal P route c cursor (first :: fetches))
    (hI : ∀ f ∈ first :: fetches, I f) :
    ∃ rest, Traversal P route c cursor (first :: (fetches ++ rest)) ∧
      Ended (first :: (fetches ++ rest)) ∧ ∀ f ∈ rest, I f := by
  -- by induction on the pages that the bound still leaves
  obtain ⟨k, hk⟩ : ∃ k, n + 1 ≤ fetches.length + k := ⟨_, Nat.le_add_left ..⟩
  induction k generalizing fetches with
  | zero =>
    have hlength := hbound fetches h hI
    omega
  | succ k ih =>
    obtain ⟨last, hlast⟩ := Option.isSome_iff_exists.mp
      (List.getLast?_isSome.mpr (List.cons_ne_nil first fetches))
    cases hcursor : last.page.nextCursor with
    | none => exact ⟨[], by simpa using h, by simpa using ⟨last, hlast, hcursor⟩, by simp⟩
    | some cursor =>
      obtain ⟨g, hg, hserves, hquery, hroute⟩ :=
        hnext last cursor (hI last (List.mem_of_getLast? hlast)) hcursor
      have hlonger := h.snoc hlast (by simp [hcursor]) hserves (hquery.trans hcursor.symm) hroute
      obtain ⟨rest, hrest, hended, hkept⟩ := ih hlonger
        (by simpa [or_imp, forall_and, hg] using hI) (by simpa using by omega)
      exact ⟨g :: rest, by simpa using hrest, by simpa using hended,
        List.forall_mem_cons.mpr ⟨hg, hkept⟩⟩

section Follow
variable [LinearOrder κ] (key : α → κ) (eligible : Central → κ → Prop) (Issued : String → κ → Prop)

/-- A page as a fetch of keys. -/
def Fetched.fetch (f : Fetched α) : Fetch κ :=
  ⟨eligible f.central, f.page.items.map key, f.page.nextCursor.isSome⟩

/-- A page that starts from a position and issues a cursor for its last key. -/
structure Shown (start : Option κ) (f : Fetched α) : Prop where
  from_start : (f.fetch key eligible).From start
  issued : ∀ cursor ∈ f.page.nextCursor,
    ∃ last, (f.page.items.map key).getLast? = some last ∧ Issued cursor last

variable {key eligible Issued} {route : Central → PageQuery → Page α → Prop}
  {cursor : Option String}
  {f : Fetched α} {fetches : List (Fetched α)}

/-- Each page of a traversal goes on where the page before it ended. -/
theorem Traversal.follows_issued (hpages : ∀ f ∈ fetches, ∀ cursor p, f.query.cursor = some cursor →
      Issued cursor p → Shown key eligible Issued (some p) f)
    (h : Traversal P route c cursor fetches) {start : Option κ}
    (hstart : fetches ≠ [] → ∃ token p, cursor = some token ∧ start = some p ∧ Issued token p) :
    Follows start (fetches.map (Fetched.fetch key eligible)) := by
  induction h generalizing start with
  | nil => exact .nil start
  | @cons c cursor f rest _ hcursor _ hmore _ ih =>
    obtain ⟨token, p, rfl, rfl, hissued⟩ := hstart (List.cons_ne_nil _ _)
    have hshown := hpages f List.mem_cons_self token p hcursor hissued
    refine .cons hshown.from_start (fun hrest => ?_)
      (ih (fun g hg => hpages g (List.mem_cons_of_mem _ hg)) fun hrest => ?_)
    · exact Option.isSome_iff_ne_none.mpr (hmore fun hnil => hrest (by rw [hnil, List.map_nil]))
    · obtain ⟨next, hnext⟩ := Option.ne_none_iff_exists'.mp (hmore hrest)
      obtain ⟨last, hlast, hissued'⟩ := hshown.issued next hnext
      exact ⟨next, last, hnext, hlast, hissued'⟩

theorem Traversal.follows (hpages : ∀ f ∈ fetches, ∀ cursor p, f.query.cursor = some cursor →
      Issued cursor p → Shown key eligible Issued (some p) f)
    (h : Traversal P route c cursor (f :: fetches)) {start : Option κ}
    (hfirst : Shown key eligible Issued start f) :
    Follows start ((f :: fetches).map (Fetched.fetch key eligible)) := by
  cases h with
  | cons _ _ _ hmore hrest =>
    refine .cons hfirst.from_start (fun hne => ?_) (hrest.follows_issued hpages fun hne => ?_)
    · exact Option.isSome_iff_ne_none.mpr (hmore fun hnil => hne (by rw [hnil, List.map_nil]))
    · obtain ⟨next, hnext⟩ := Option.ne_none_iff_exists'.mp (hmore hne)
      obtain ⟨last, hlast, hissued⟩ := hfirst.issued next hnext
      exact ⟨next, last, hnext, hlast, hissued⟩

omit [LinearOrder κ] in
theorem shown_fetches (key : α → κ) (eligible : Central → κ → Prop) (fetches : List (Fetched α)) :
    shown (fetches.map (Fetched.fetch key eligible)) = (items fetches).map key := by
  unfold shown items
  rw [List.flatMap_map, List.map_flatMap]
  rfl

omit [LinearOrder κ] in
theorem Ended.finished (h : Ended fetches) :
    Finished (fetches.map (Fetched.fetch key eligible)) := by
  obtain ⟨f, hlast, hnone⟩ := h
  exact ⟨_, by rw [List.getLast?_map, hlast]; rfl, by simp [Fetched.fetch, hnone]⟩

/-- A page of the first rows after a position, with a cursor when the look-ahead found one more. -/
theorem Fetched.from_rows {ρ : Type} {R : ρ → α → Prop} {rowKey : ρ → κ} {rows : List ρ} {limit : ℕ}
    {start : Option κ} (hkey : ∀ r x, R r x → key x = rowKey r)
    (hdistinct : rows.Pairwise fun a b => rowKey a ≠ rowKey b)
    (hmem : ∀ k, (∃ r ∈ rows, rowKey r = k) ↔ eligible f.central k ∧ After start k)
    (hlimit : 1 ≤ limit) (hitems : List.Forall₂ R (firstRows rowKey limit rows) f.page.items)
    (hnext : (f.page.nextCursor = none ∧
        firstRows rowKey (limit + 1) rows = firstRows rowKey limit rows) ∨
      ∃ cursor, f.page.nextCursor = some cursor ∧
        (firstRows rowKey (limit + 1) rows).length = limit + 1) :
    (f.fetch key eligible).From start := by
  have hkeys : f.page.items.map key = (firstRows rowKey limit rows).map rowKey := by
    refine (List.forall₂_eq_eq_eq ▸ ?_ : (firstRows rowKey limit rows).map rowKey =
      f.page.items.map key).symm
    rw [List.forall₂_map_left_iff, List.forall₂_map_right_iff]
    exact hitems.imp fun r x hx => (hkey r x hx).symm
  have hmore : f.page.nextCursor.isSome = decide (limit < rows.length) := by
    rcases hnext with ⟨hnone, hsame⟩ | ⟨cursor, hsome, hlength⟩
    · have hlength := congrArg List.length hsame
      simp only [firstRows, List.length_take, List.length_insertionSort] at hlength
      simpa [hnone] using by omega
    · simp only [firstRows, List.length_take, List.length_insertionSort] at hlength
      simpa [hsome] using by omega
  unfold Fetched.fetch
  rw [hkeys, hmore]
  exact Fetch.from_firstRows hdistinct hmem hlimit

/-- The keys of the rows that are listed in a store. -/
def Listed {ρ : Type} (rowKey : ρ → κ) (rows : Central → List ρ) (c : Central) (k : κ) : Prop :=
  ∃ r ∈ rows c, rowKey r = k

/-- Following a listing refines the plain filtered list of the rows: the keys increase, what is
shown was listed, a row that is listed at every fetch is shown exactly once, and in an unchanged
store the pages are the whole sorted list. -/
structure Paginates {ρ : Type} (key : α → κ) (rowKey : ρ → κ) (rows : Central → List ρ)
    (Renders : Central → ρ → α → Prop) (fetches : List (Fetched α)) : Prop where
  increasing : ((items fetches).map key).Pairwise (· < ·)
  listed : ∀ f ∈ fetches, ∀ x ∈ f.page.items,
    ∃ r ∈ rows f.central, rowKey r = key x ∧ Renders f.central r x
  once : Ended fetches → ∀ k, (∀ f ∈ fetches, ∃ r ∈ rows f.central, rowKey r = k) →
    ((items fetches).map key).count k = 1
  whole : Ended fetches → ∀ c, (∀ f ∈ fetches, f.central = c) →
    List.Forall₂ (Renders c) ((rows c).insertionSort fun a b => rowKey a ≤ rowKey b) (items fetches)

section Pages
variable {ρ : Type} {rowKey : ρ → κ} {rows : Central → List ρ} {Renders : Central → ρ → α → Prop}
  {after : ρ → Bool}

/-- A page of the rows of a listing that pass a start condition. -/
structure PageOf (key : α → κ) (rowKey : ρ → κ) (rows : Central → List ρ)
    (Renders : Central → ρ → α → Prop) (Issued : String → κ → Prop) (f : Fetched α)
    (after : ρ → Bool) :
    Prop where
  distinct : (rows f.central).Pairwise fun a b => rowKey a ≠ rowKey b
  keys : ∀ r x, Renders f.central r x → key x = rowKey r
  limit : 1 ≤ f.query.effectiveLimit
  items : List.Forall₂ (Renders f.central)
    (firstRows rowKey f.query.effectiveLimit ((rows f.central).filter after)) f.page.items
  next : (f.page.nextCursor = none ∧
      firstRows rowKey (f.query.effectiveLimit + 1) ((rows f.central).filter after) =
        firstRows rowKey f.query.effectiveLimit ((rows f.central).filter after)) ∨
    ∃ cursor last, f.page.nextCursor = some cursor ∧ f.page.items.getLast? = some last ∧
      (firstRows rowKey (f.query.effectiveLimit + 1) ((rows f.central).filter after)).length =
        f.query.effectiveLimit + 1 ∧ Issued cursor (key last)

namespace PageOf

theorem length_le (h : PageOf key rowKey rows Renders Issued f after) :
    f.page.items.length ≤ f.query.effectiveLimit := by
  rw [← h.items.length_eq]
  exact firstRows_length_le ..

theorem listed (h : PageOf key rowKey rows Renders Issued f after) : ∀ x ∈ f.page.items,
    ∃ r ∈ rows f.central, rowKey r = key x ∧ Renders f.central r x := by
  intro x hx
  obtain ⟨r, hr, hrenders⟩ := forall₂_mem_right h.items hx
  exact ⟨r, (List.mem_filter.mp (mem_of_mem_firstRows hr)).1, (h.keys r x hrenders).symm, hrenders⟩

theorem shown (h : PageOf key rowKey rows Renders Issued f after) {start : Option κ}
    (hafter : ∀ r ∈ rows f.central, after r = true ↔ After start (rowKey r)) :
    Shown key (Listed rowKey rows) Issued start f := by
  have hmem : ∀ k, (∃ r ∈ (rows f.central).filter after, rowKey r = k) ↔
      Listed rowKey rows f.central k ∧ After start k := by
    intro k
    constructor
    · rintro ⟨r, hr, rfl⟩
      obtain ⟨hr, hpasses⟩ := List.mem_filter.mp hr
      exact ⟨⟨r, hr, rfl⟩, (hafter r hr).mp hpasses⟩
    · rintro ⟨⟨r, hr, rfl⟩, hstart⟩
      exact ⟨r, List.mem_filter.mpr ⟨hr, (hafter r hr).mpr hstart⟩, rfl⟩
  refine ⟨Fetched.from_rows h.keys (h.distinct.sublist List.filter_sublist) hmem h.limit h.items ?_,
    fun cursor hcursor => ?_⟩
  · exact h.next.imp_right fun ⟨cursor, _, hsome, _, hlength, _⟩ => ⟨cursor, hsome, hlength⟩
  · rcases h.next with ⟨hnone, -⟩ | ⟨cursor', last, hsome, hlast, -, hissued⟩
    · exact absurd (hnone.symm.trans hcursor) (by simp)
    · obtain rfl : cursor = cursor' := Option.some.inj (hcursor.symm.trans hsome)
      exact ⟨key last, by rw [List.getLast?_map, hlast]; rfl, hissued⟩

/-- The page that is made from the look-ahead rows. -/
theorem of_finishPage {xs : List α} {codec : CursorCodec} {scope : CursorScope} {s t : Session}
    {position : α → CursorPosition}
    (hdistinct : (rows f.central).Pairwise fun a b => rowKey a ≠ rowKey b)
    (hkeys : ∀ r x, Renders f.central r x → key x = rowKey r) (hlimit : 1 ≤ f.query.effectiveLimit)
    (hrows : List.Forall₂ (Renders f.central)
      (firstRows rowKey (f.query.effectiveLimit + 1) ((rows f.central).filter after)) xs)
    (hfinish : (finishPage P xs f.query codec scope position).run s = .ok (f.page, t))
    (hissued : ∀ r ∈ rows f.central, ∀ x cursor, Renders f.central r x →
      codec.encode P scope (position x) = .ok cursor → Issued cursor (key x)) :
    PageOf key rowKey rows Renders Issued f after := by
  obtain ⟨hitems, hnext⟩ := finishPage_eq_ok
    (w := fun n => firstRows rowKey n ((rows f.central).filter after)) (firstRows_take ..)
    (firstRows_length_le ..) hrows hfinish
  refine ⟨hdistinct, hkeys, hlimit, hitems, hnext.imp_right ?_⟩
  rintro ⟨cursor, last, hsome, hlast, hlength, hencode⟩
  obtain ⟨r, hr, hrenders⟩ := forall₂_mem_right hitems (List.mem_of_getLast? hlast)
  exact ⟨cursor, last, hsome, hlast, hlength,
    hissued r (List.mem_filter.mp (mem_of_mem_firstRows hr)).1 last cursor hrenders hencode⟩

end PageOf

section Whole
variable (h : Traversal P route c none (f :: fetches))
  (hpages : ∀ g ∈ f :: fetches, ∃ after, PageOf key rowKey rows Renders Issued g after ∧
    (g.query.cursor = none → ∀ r ∈ rows g.central, after r = true) ∧
    ∀ cursor p, g.query.cursor = some cursor → Issued cursor p →
      ∀ r ∈ rows g.central, after r = true ↔ p < rowKey r)
include h hpages

/-- Every page starts where its cursor says. -/
theorem Traversal.follows_pages :
    Follows none ((f :: fetches).map (Fetched.fetch key (Listed rowKey rows))) := by
  have hcursor : f.query.cursor = none := by cases h; assumption
  obtain ⟨after, hpage, hfirst, -⟩ := hpages f List.mem_cons_self
  refine h.follows (fun g hg cursor p hq hissued => ?_)
    (hpage.shown fun r hr => by simp [hfirst hcursor r hr, After])
  obtain ⟨after, hpage, -, hnext⟩ := hpages g (List.mem_cons_of_mem _ hg)
  exact hpage.shown fun r hr => by simp [hnext cursor p hq hissued r hr, After]

/-- Every page but the last shows another row. -/
theorem Traversal.length_le (hsame : ∀ g ∈ f :: fetches, g.central = d) :
    (f :: fetches).length ≤ (rows d).length + 1 := by
  have hlength :=
    (h.follows_pages hpages).length_le ((rows d).map rowKey).toFinset fun g hg k hk => ?_
  · rw [List.length_map] at hlength
    have hcard := ((rows d).map rowKey).toFinset_card_le
    rw [List.length_map] at hcard
    omega
  · obtain ⟨g, hmem, rfl⟩ := List.mem_map.mp hg
    obtain ⟨r, hr, rfl⟩ := hk
    rw [hsame g hmem] at hr
    exact List.mem_toFinset.mpr (List.mem_map_of_mem hr)

theorem Paginates.of_traversal : Paginates key rowKey rows Renders (f :: fetches) := by
  have hfollows := h.follows_pages hpages
  refine ⟨?_, fun g hg => ?_, fun hended k hk => ?_, fun hended d hsame => ?_⟩
  · rw [← shown_fetches key (Listed rowKey rows)]
    exact hfollows.increasing.1
  · obtain ⟨after, hpage, -⟩ := hpages g hg
    exact hpage.listed
  · rw [← shown_fetches key (Listed rowKey rows)]
    refine hfollows.count_eq_one hended.finished (fun g hg => ?_) (by simp [After])
    obtain ⟨g, hmem, rfl⟩ := List.mem_map.mp hg
    exact hk g hmem
  · obtain ⟨_, hpage, -⟩ := hpages f List.mem_cons_self
    have hrows := hpage.distinct
    rw [hsame f List.mem_cons_self] at hrows
    have hkeys : shown ((f :: fetches).map (Fetched.fetch key (Listed rowKey rows))) =
        ((rows d).insertionSort fun a b => rowKey a ≤ rowKey b).map rowKey := by
      have heligible : ∀ g ∈ (f :: fetches).map (Fetched.fetch key (Listed rowKey rows)),
          g.eligible = Listed rowKey rows d := by
        intro g hg
        obtain ⟨g, hmem, rfl⟩ := List.mem_map.mp hg
        simp only [Fetched.fetch, hsame g hmem]
      refine hfollows.eq_listing hended.finished heligible (increasing_insertionSort hrows) fun k =>
        ?_
      simp [Listed, After, (List.perm_insertionSort _ (rows d)).mem_iff]
    rw [shown_fetches] at hkeys
    refine forall₂_of_keys hkeys fun r hr x hx hkey => ?_
    obtain ⟨g, hg, hitem⟩ := List.mem_flatMap.mp hx
    obtain ⟨_, hpage, -⟩ := hpages g hg
    obtain ⟨r', hr', hkey', hrenders⟩ := hpage.listed x hitem
    rw [hsame g hg] at hr' hrenders
    obtain rfl : r = r' := eq_of_distinct hrows ((List.perm_insertionSort _ _).mem_iff.mp hr) hr'
      (hkey.trans hkey'.symm)
    exact hrenders

end Whole

end Pages
end Follow

section Inbox
variable {actor : String} {state : InboxState} {upper : ℤ} {fetches : List (Fetched InboxItem)}

/-- A page of the inbox, fetched by a bearer of the principal. -/
def inboxRoute (P : Platform) (actor : String) (state : InboxState) (c : Central) (q : PageQuery)
    (page : Page InboxItem) : Prop :=
  ∃ host token waitSeconds s t, (journalActor P token).run (.start host c) = .ok (actor, s) ∧
    (inbox P token ⟨state, q, waitSeconds⟩).run (.start host c) = .ok (page, t)

/-- The sequence of an item that satisfies the state filter. -/
def HasItem (c : Central) (actor : String) (state : InboxState) (seq : ℤ) : Prop :=
  ∃ m ∈ c.mailboxItems, m.recipientPrincipalId = actor ∧ m.recipientSeq = seq ∧
    stateMatches state m = true

/-- A cursor of this inbox that was issued at a position under a bound. -/
def InboxCursor (P : Platform) (upper : ℤ) (cursor : String) (seq : ℤ) : Prop :=
  0 ≤ seq ∧ 0 ≤ upper ∧ (CursorPosition.boundedSequence seq.toNat upper.toNat).Fits ∧
    ∃ codec scope, CursorCodec.encode P codec scope (.boundedSequence seq.toNat upper.toNat) =
    .ok cursor

theorem mem_of_hasSpace {id : String} (h : c.hasSpace id = true) : ∃ s ∈ c.spaces, s.id = id := by
  simpa [Central.hasSpace] using h

/-- Every space is public, so every stored item is visible. -/
theorem visible_item (hc : References c) {m : MailboxItemRow} (hm : m ∈ c.mailboxItems) :
    (c.records.any fun r => r.id = m.recordId && c.spaces.any fun s => s.id = r.spaceId &&
      s.access = .publicAccess) = true := by
  obtain ⟨r, hr, hid⟩ := mem_of_hasRecord (hc.mailboxItems m hm).1
  obtain ⟨s, hs, hspace⟩ := mem_of_hasSpace (hc.records r hr).1
  simp only [List.any_eq_true, Bool.and_eq_true, decide_eq_true_eq]
  exact ⟨r, hr, hid, s, hs, hspace, trivial⟩

/-- The window of a page: the items above its start, up to its bound, that pass the filter. -/
def inboxWindow (c : Central) (actor : String) (state : InboxState) (after upper : ℤ) :
    List MailboxItemRow :=
  c.mailboxItems.filter fun m => m.recipientPrincipalId = actor &&
    (after < m.recipientSeq && m.recipientSeq ≤ upper) && stateMatches state m &&
    c.records.any fun r => r.id = m.recordId && c.spaces.any fun s => s.id = r.spaceId &&
      s.access = .publicAccess

theorem inboxRows_eq (after : ℤ) (limit : ℕ) : inboxRows c actor state after upper limit =
    firstRows MailboxItemRow.recipientSeq limit (inboxWindow c actor state after upper) := rfl

theorem inboxWindow_distinct (hc : WellFormed P c) (after : ℤ) :
    (inboxWindow c actor state after upper).Pairwise fun a b =>
    a.recipientSeq ≠ b.recipientSeq := by
  have hmem : ∀ m ∈ inboxWindow c actor state after upper, m.recipientPrincipalId = actor := by
    intro m hm
    have hrow := (List.mem_filter.mp hm).2
    simp only [Bool.and_eq_true, decide_eq_true_eq] at hrow
    exact hrow.1.1.1
  refine (hc.tables.mailboxItems.uniques.sublist List.filter_sublist).imp_of_mem ?_
  intro a b ha hb hapart hseq
  simp [Schema.collides, Storage.mailboxItems, hmem a ha, hmem b hb, hseq] at hapart

theorem mem_inboxWindow (hc : WellFormed P c) {after : ℤ} (seq : ℤ) :
    (∃ m ∈ inboxWindow c actor state after upper, m.recipientSeq = seq) ↔
      (seq ≤ upper ∧ HasItem c actor state seq) ∧ After (some after) seq := by
  simp only [inboxWindow, List.mem_filter, Bool.and_eq_true, decide_eq_true_eq, HasItem, After,
    Option.mem_def, Option.some.injEq, forall_eq']
  constructor
  · rintro ⟨m, ⟨hm, ⟨⟨hactor, hafter, hupper⟩, hstate⟩, -⟩, rfl⟩
    exact ⟨⟨hupper, m, hm, hactor, rfl, hstate⟩, hafter⟩
  · rintro ⟨⟨hupper, m, hm, hactor, rfl, hstate⟩, hafter⟩
    exact ⟨m, ⟨hm, ⟨⟨hactor, hafter, hupper⟩, hstate⟩, visible_item hc.references hm⟩, rfl⟩

/-- Items the traversal may show. -/
def inboxEligible (actor : String) (state : InboxState) (upper : ℤ) (c : Central) (seq : ℤ) :
    Prop :=
  seq ≤ upper ∧ HasItem c actor state seq

theorem inbox_shown {f : Fetched InboxItem} {q : InboxQuery} (hstate : q.state = state)
    {after : ℤ} (hafter : 0 ≤ after) (hc : Served P f.central)
    (hpage : InboxPage P f.central actor q f.page after upper) :
    Shown InboxItem.seq (inboxEligible actor state upper) (InboxCursor P upper) (some after) f := by
  subst hstate
  have hwell := hc.wellFormed
  constructor
  · refine Fetched.from_rows (R := Shows f.central actor) (fun r x hx => hx.2.2.1)
      (inboxWindow_distinct hwell after) (mem_inboxWindow hwell) hpage.limit hpage.items ?_
    exact hpage.next.imp_right fun ⟨cursor, _, _, hcursor, _, _, hlength, _⟩ =>
      ⟨cursor, hcursor, hlength⟩
  · intro cursor hcursor
    rcases hpage.next with ⟨hnone, -⟩ | ⟨cursor', codec, last, hsome, -, hlast, -, hencode⟩
    · rw [hnone] at hcursor
      cases hcursor
    · obtain rfl : cursor = cursor' := Option.some.inj (hcursor.symm.trans hsome)
      have hmem := List.mem_of_getLast? hlast
      obtain ⟨m, hm, -, -, hseq, -⟩ := hpage.mem hmem
      obtain ⟨-, -, habove, hbelow, -⟩ := mem_inboxRows hm
      refine ⟨last.seq, by rw [List.getLast?_map, hlast]; rfl, by omega, by omega, ?_, codec, _,
        hencode⟩
      exact hpage.fits hwell.tables.mailboxItems hmem

theorem boundedPosition_eq_some {sequence bound : ℕ} {after upper : ℤ}
    (h : boundedPosition (.boundedSequence sequence bound) = some (after, upper)) :
    after = sequence ∧ upper = bound := by
  simp only [boundedPosition, Option.ite_none_right_eq_some, Option.some.injEq, Prod.mk.injEq] at h
  exact ⟨h.2.1.symm, h.2.2.symm⟩

/-- The first page fixes the bound. -/
theorem inboxRoute_first {f : Fetched InboxItem} (hc : Served P f.central)
    (hroute : inboxRoute P actor state f.central f.query f.page) (hcursor : f.query.cursor = none) :
    Shown InboxItem.seq (inboxEligible actor state (newestItem f.central actor))
      (InboxCursor P (newestItem f.central actor)) (some 0) f := by
  obtain ⟨host, token, waitSeconds, s, t, hactor, hrun⟩ := hroute
  obtain ⟨actor', s', hactor', after, upper, hpage⟩ := inbox_page hrun
  obtain ⟨rfl, -⟩ := Prod.mk.inj (Except.ok.inj (hactor.symm.trans hactor'))
  rcases hpage.bounds with ⟨-, rfl, rfl⟩ | ⟨cursor, -, -, hcontinuation, -⟩
  · exact inbox_shown rfl le_rfl hc hpage
  · simp [continuation, hcursor] at hcontinuation

/-- A later page keeps the bound and goes on from its cursor. -/
theorem inboxRoute_next (hP : P.EncodesCursors) {f : Fetched InboxItem} {cursor : String} {seq : ℤ}
    (hc : Served P f.central) (hroute : inboxRoute P actor state f.central f.query f.page)
    (hcursor : f.query.cursor = some cursor) (hissued : InboxCursor P upper cursor seq) :
    Shown InboxItem.seq (inboxEligible actor state upper) (InboxCursor P upper) (some seq) f := by
  obtain ⟨host, token, waitSeconds, s, t, hactor, hrun⟩ := hroute
  obtain ⟨actor', s', hactor', after, upper', hpage⟩ := inbox_page hrun
  obtain ⟨rfl, -⟩ := Prod.mk.inj (Except.ok.inj (hactor.symm.trans hactor'))
  obtain ⟨hseq, hupper, hfits, codec, scope, hencode⟩ := hissued
  have hcontinued := continuation_issued hcursor hencode
  rcases hpage.bounds with ⟨hnone, -⟩ | ⟨cursor', codec', position, hcontinuation, -, hdecode,
    hposition⟩
  · simp [hcontinued] at hnone
  · obtain rfl : cursor = cursor' := Option.some.inj (hcontinued.symm.trans hcontinuation)
    obtain ⟨rfl, -⟩ := CursorCodec.decode_encode hP hfits hencode hdecode
    obtain ⟨rfl, rfl⟩ := boundedPosition_eq_some hposition
    rw [Int.toNat_of_nonneg hseq, Int.toNat_of_nonneg hupper] at hpage
    exact inbox_shown rfl hseq hc hpage

/-- An item keeps the time it was first acknowledged at. -/
theorem Journaled.acknowledged (h : Journaled c d) {m : MailboxItemRow} (hm : m ∈ c.mailboxItems) :
    ∃ m' ∈ d.mailboxItems, allocation m' = allocation m ∧
      ∀ time, m.acknowledgedAt = some time → m'.acknowledgedAt = some time := by
  obtain ⟨i, hi, rfl⟩ := List.mem_iff_getElem.mp hm
  have hlength := h.mailboxItems.length_eq
  have hkept := (List.forall₂_iff_get.mp h.mailboxItems).2 i hi (by omega)
  exact ⟨_, List.mem_of_mem_take (List.getElem_mem (by omega)), hkept⟩

/-- A shown item is a row of the store it was read from. -/
theorem inboxRoute_mem {f : Fetched InboxItem}
    (hroute : inboxRoute P actor state f.central f.query f.page)
    {item : InboxItem} (hitem : item ∈ f.page.items) :
    ∃ m ∈ f.central.mailboxItems, m.id = item.inboxItemId ∧ m.recipientSeq = item.seq := by
  obtain ⟨host, token, waitSeconds, s, t, -, hrun⟩ := hroute
  obtain ⟨actor', s', -, after, upper, hpage⟩ := inbox_page hrun
  obtain ⟨m, hm, hid, -, hseq, -⟩ := hpage.mem hitem
  exact ⟨m, (mem_inboxRows hm).1, hid.symm, hseq.symm⟩

/-- The first page issues a cursor when its window has more rows than it shows. -/
theorem inboxRoute_issues {f : Fetched InboxItem}
    (hroute : inboxRoute P actor state f.central f.query f.page) (hcursor : f.query.cursor = none)
    (hmore : f.query.effectiveLimit <
      (inboxWindow f.central actor state 0 (newestItem f.central actor)).length) :
    ∃ cursor, f.page.nextCursor = some cursor := by
  obtain ⟨host, token, waitSeconds, s, t, hactor, hrun⟩ := hroute
  obtain ⟨actor', s', hactor', after, upper, hpage⟩ := inbox_page hrun
  obtain ⟨rfl, -⟩ := Prod.mk.inj (Except.ok.inj (hactor.symm.trans hactor'))
  rcases hpage.bounds with ⟨-, rfl, rfl⟩ | ⟨cursor, -, -, hcontinuation, -⟩
  · rcases hpage.next with ⟨-, hsame⟩ | ⟨cursor, _, _, hsome, -⟩
    · have hlength := congrArg List.length hsame
      rw [inboxRows_eq, inboxRows_eq] at hlength
      simp only [firstRows, List.length_take, List.length_insertionSort, Session.start] at hlength
      omega
    · exact ⟨cursor, hsome⟩
  · simp [continuation, hcursor] at hcontinuation

theorem inboxRoute_pos {f : Fetched InboxItem} (hc : WellFormed P f.central)
    (hroute : inboxRoute P actor state f.central f.query f.page) {item : InboxItem}
    (hitem : item ∈ f.page.items) : 0 < item.seq := by
  obtain ⟨m, hm, -, hseq⟩ := inboxRoute_mem hroute hitem
  have hrow := hc.tables.mailboxItems.checked m hm
  simp only [Storage.mailboxItems, Bool.and_eq_true, decide_eq_true_eq] at hrow
  omega

/-- Increasing sequences belong to different items. -/
theorem Traversal.items_nodup {cursor : Option String} (hc : Served P c)
    (h : Traversal P (inboxRoute P actor state) c cursor fetches)
    (hincreasing : ((items fetches).map InboxItem.seq).Pairwise (· < ·)) :
    ((items fetches).map InboxItem.inboxItemId).Nodup := by
  obtain ⟨e, hserves, hjoined⟩ := h.joined
  have hrows : ∀ item ∈ items fetches,
      ∃ m ∈ e.mailboxItems, m.id = item.inboxItemId ∧ m.recipientSeq = item.seq := by
    intro item hitem
    obtain ⟨f, hf, hmem⟩ := List.mem_flatMap.mp hitem
    obtain ⟨m, hm, hid, hseq⟩ := inboxRoute_mem (h.mem hc f hf).2 hmem
    obtain ⟨m', hm', hkept, -⟩ := (hjoined f hf).journaled.acknowledged hm
    obtain ⟨hid', -, -, -, hseq'⟩ := allocation_inj hkept
    exact ⟨m', hm', hid'.trans hid, hseq'.trans hseq⟩
  rw [List.pairwise_map] at hincreasing
  rw [List.Nodup, List.pairwise_map]
  refine hincreasing.imp_of_mem fun {x y} hx hy hlt hid => ?_
  obtain ⟨m, hm, hmx, hsx⟩ := hrows x hx
  obtain ⟨m', hm', hmy, hsy⟩ := hrows y hy
  have hsame : m = m' := (hc.later hserves).wellFormed.tables.mailboxItems.eq_of_key hm hm'
    (by simp [Storage.mailboxItems, hmx, hmy, hid])
  rw [← hsx, ← hsy, hsame] at hlt
  exact lt_irrefl _ hlt

/-- The cursor of a page is one of its store, inside the bound of the page. -/
theorem inboxRoute_issued {f : Fetched InboxItem} {cursor : String} (hc : Served P f.central)
    (hroute : inboxRoute P actor state f.central f.query f.page)
    (hcursor : f.page.nextCursor = some cursor) :
    ∃ codec n bound, KeyedBy P f.central codec ∧ n ≤ bound ∧ bound < 2 ^ 63 ∧
      CursorCodec.encode P codec (inboxScope P actor state f.central.recoveryAnchor.inboxEpoch)
        (.boundedSequence n bound) = .ok cursor := by
  obtain ⟨host, token, waitSeconds, s, t, hactor, hrun⟩ := hroute
  obtain ⟨actor', s', hactor', after, upper, hpage⟩ := inbox_page hrun
  obtain ⟨rfl, -⟩ := Prod.mk.inj (Except.ok.inj (hactor.symm.trans hactor'))
  rcases hpage.next with ⟨hnone, -⟩ | ⟨cursor', codec, last, hsome, hkey, hlast, -, hencode⟩
  · simp [hcursor] at hnone
  · obtain rfl : cursor = cursor' := Option.some.inj (hcursor.symm.trans hsome)
    obtain ⟨m, hm, -, -, hseq, -⟩ := hpage.mem (List.mem_of_getLast? hlast)
    obtain ⟨-, -, -, hle, -⟩ := mem_inboxRows hm
    have hupper := hpage.upper_lt hc.wellFormed.tables.mailboxItems
    exact ⟨codec, _, _, hkey, by omega, by omega, hencode⟩

theorem KeyedBy.serves {codec : CursorCodec} (h : KeyedBy P c codec) (hserves : Serves P c d) :
    KeyedBy P d codec := by
  obtain ⟨secret, hsecret, hnew⟩ := h
  exact ⟨secret, hserves.journaled.journalSecret secret hsecret, hnew⟩

section Progress
variable {host : Host} {token : String} {q : PageQuery} {waitSeconds : ℕ} {s : Session}

/-- The first page is shown to any live bearer. -/
theorem inboxRoute_starts (hP : P.BoundsCursors) (hd : Served P d)
    (hfingerprint : (inboxScope P actor state
      d.recoveryAnchor.inboxEpoch).filterFingerprint.length ≤ 128)
    (hvalid : InboxQuery.validate ⟨state, q, waitSeconds⟩ = .ok ()) (hq : q.cursor = none)
    (hactor : (journalActor P token).run (.start host d) = .ok (actor, s)) :
    ∃ page, inboxRoute P actor state d q page := by
  have hcontinuation : continuation q = none := by simp [continuation, hq]
  have hcentral : s.central = d :=
    central_eq (fun c => journalActor_keeps (ofStore_central c) token) hactor
  cases hsecret : d.journalSecret with
  | none =>
    -- without a key there is no record, and so no item
    have hitems : d.mailboxItems = [] := by
      rw [List.eq_nil_iff_forall_not_mem]
      intro m hm
      obtain ⟨r, hr, -⟩ := mem_of_hasRecord (hd.wellFormed.references.mailboxItems m hm).1
      have hkeyed := hd.sound.keyed (List.ne_nil_of_mem hr)
      simp [hsecret] at hkeyed
    refine ⟨⟨[], none⟩, host, token, waitSeconds, s, s, hactor, ?_⟩
    simp only [inbox, run_bind_eq_ok, query_eq_ok, validated_eq_ok]
    refine ⟨(), _, ⟨hvalid, rfl⟩, actor, s, hactor, _, s, ⟨rfl, rfl⟩, _, s, ⟨rfl, rfl⟩, ?_⟩
    rw [hcentral, hsecret]
    simp only [keylessInbox, refuse, run_bind_eq_ok, attempt_eq_ok, query_eq_ok, run_pure_eq_ok,
      failIf_eq_ok, not_not]
    exact ⟨(), s, ⟨hcontinuation, rfl⟩, _, s, ⟨rfl, rfl⟩, (), s, ⟨by simp [hcentral, hitems], rfl⟩,
      trivial, rfl⟩
  | some secret =>
    have hbounds : (inboxBounds P ⟨P.sha256 secret⟩
      (inboxScope P actor state d.recoveryAnchor.inboxEpoch)
        actor (continuation q)).run s = .ok ((0, newestItem d actor), s) := by
      rw [hcontinuation]
      simp only [inboxBounds, run_bind_eq_ok, query_eq_ok, run_pure_eq_ok]
      exact ⟨_, s, ⟨by rw [hcentral], rfl⟩, rfl, rfl⟩
    obtain ⟨page, hpage⟩ := inbox_succeeds hP hd.wellFormed.references hvalid hactor
      (keyedBy_of_secret hd.wellFormed hsecret) hbounds
      (newestItem_lt hd.wellFormed.tables.mailboxItems actor) hfingerprint
    exact ⟨page, host, token, waitSeconds, s, s, hactor, hpage⟩

/-- The cursor of a page is accepted in every store that calls make from its own. -/
theorem inboxRoute_continues (hP : P.BoundsCursors) {f : Fetched InboxItem} {cursor : String}
    (hc : Served P f.central) (hroute : inboxRoute P actor state f.central f.query f.page)
    (hcursor : f.page.nextCursor = some cursor) (hserves : Serves P f.central d)
    (hfingerprint : (inboxScope P actor state
      d.recoveryAnchor.inboxEpoch).filterFingerprint.length ≤ 128)
    (hvalid : InboxQuery.validate ⟨state, q, waitSeconds⟩ = .ok ()) (hq : q.cursor = some cursor)
    (hactor : (journalActor P token).run (.start host d) = .ok (actor, s)) :
    ∃ page, inboxRoute P actor state d q page := by
  obtain ⟨codec, n, bound, hkey, hle, hbound, hencode⟩ := inboxRoute_issued hc hroute hcursor
  have hfits : (CursorPosition.boundedSequence n bound).Fits := ⟨by omega, by omega⟩
  have hdecode := CursorCodec.decode_of_encode hP.toSignsCursors hfits hencode
  rw [← hserves.inboxEpoch] at hdecode
  have hbounds : (inboxBounds P codec (inboxScope P actor state d.recoveryAnchor.inboxEpoch) actor
      (continuation q)).run s = .ok (((n : ℤ), (bound : ℤ)), s) := by
    have hposition : boundedPosition (.boundedSequence n bound) = some ((n : ℤ), (bound : ℤ)) :=
      if_pos ⟨hle, by omega⟩
    rw [continuation_issued hq hencode]
    simp only [inboxBounds, okOr, run_bind_eq_ok, attempt_eq_ok, required_eq_ok, succeeded_eq_some]
    exact ⟨_, s, ⟨hdecode, rfl⟩, hposition, rfl⟩
  obtain ⟨page, hpage⟩ := inbox_succeeds hP (hc.later hserves).wellFormed.references hvalid hactor
    (hkey.serves hserves) hbounds (by omega) hfingerprint
  exact ⟨page, host, token, waitSeconds, s, s, hactor, hpage⟩

theorem inboxRoute_validate {f : Fetched InboxItem} {cursor : String} (hc : Served P f.central)
    (hroute : inboxRoute P actor state f.central f.query f.page)
    (hcursor : f.page.nextCursor = some cursor)
    (hvalid : InboxQuery.validate ⟨state, q, waitSeconds⟩ = .ok ()) :
    InboxQuery.validate ⟨state, { q with cursor := some cursor }, waitSeconds⟩ = .ok () := by
  obtain ⟨codec, n, bound, -, -, -, hencode⟩ := inboxRoute_issued hc hroute hcursor
  simp only [InboxQuery.validate, bind_eq_ok] at hvalid ⊢
  obtain ⟨_, hpage, hwait⟩ := hvalid
  exact ⟨(), validate_issued hpage hencode, hwait⟩

/-- A page that issued a cursor can be followed where it was read. -/
theorem inboxRoute_again (hP : P.BoundsCursors) {f : Fetched InboxItem} {cursor : String}
    (hc : Served P f.central) (hroute : inboxRoute P actor state f.central f.query f.page)
    (hcursor : f.page.nextCursor = some cursor)
    (hfingerprint : (inboxScope P actor state
      f.central.recoveryAnchor.inboxEpoch).filterFingerprint.length ≤ 128) :
    ∃ page, inboxRoute P actor state f.central { f.query with cursor := some cursor } page := by
  obtain ⟨host, token, waitSeconds, s, t, hactor, hrun⟩ := id hroute
  obtain ⟨_, _, hvalid, -⟩ := run_bind_eq_ok.mp hrun
  exact inboxRoute_continues hP hc hroute hcursor .refl hfingerprint
    (inboxRoute_validate hc hroute hcursor (validated_eq_ok.mp hvalid).1) rfl hactor

end Progress

section Follow
variable {first : Fetched InboxItem}

theorem HasItem.pos (hc : WellFormed P c) {seq : ℤ} (h : HasItem c actor state seq) : 0 < seq := by
  obtain ⟨m, hm, -, rfl, -⟩ := h
  have hitem := hc.tables.mailboxItems.checked m hm
  simp only [Storage.mailboxItems, Bool.and_eq_true, decide_eq_true_eq] at hitem
  exact hitem.1

/-- The pages of an inbox under the bound of the first one. -/
theorem inbox_follows (hP : P.EncodesCursors) (hc : Served P c)
    (h : Traversal P (inboxRoute P actor state) c none (first :: fetches)) :
    Follows (some 0) ((first :: fetches).map (Fetched.fetch InboxItem.seq
      (inboxEligible actor state (newestItem first.central actor)))) := by
  have hmem := h.mem hc
  have hcursor : first.query.cursor = none := by cases h; assumption
  obtain ⟨hserved, hroute⟩ := hmem first List.mem_cons_self
  refine h.follows (fun f hf cursor seq hq hissued => ?_) (inboxRoute_first hserved hroute hcursor)
  obtain ⟨hserved, hroute⟩ := hmem f (List.mem_cons_of_mem _ hf)
  exact inboxRoute_next hP hserved hroute hq hissued

/-- Every page but the last shows another item under the bound. -/
theorem inbox_length_le (hP : P.EncodesCursors) (hc : Served P c)
    (h : Traversal P (inboxRoute P actor state) c none (first :: fetches)) :
    (first :: fetches).length ≤ (newestItem first.central actor).toNat + 1 := by
  have hlength :=
    (inbox_follows hP hc h).length_le (Finset.Icc 1 (newestItem first.central actor)) ?_
  · simpa using hlength
  · intro g hg seq heligible
    obtain ⟨f, hf, rfl⟩ := List.mem_map.mp hg
    exact Finset.mem_Icc.mpr ⟨heligible.2.pos (h.mem hc f hf).1.wellFormed, heligible.1⟩

/-- Following the cursors comes to an end. -/
theorem inbox_ends (hP : P.BoundsCursors) (hc : Served P c)
    (hfingerprint : (inboxScope P actor state
      c.recoveryAnchor.inboxEpoch).filterFingerprint.length ≤ 128)
    (h : Traversal P (inboxRoute P actor state) c none (first :: fetches)) :
    ∃ rest, Traversal P (inboxRoute P actor state) c none (first :: (fetches ++ rest)) ∧
      Ended (first :: (fetches ++ rest)) := by
  have hends :=
    h.ends (I := fun f => Serves P c f.central ∧ inboxRoute P actor state f.central f.query f.page)
    (n := (newestItem first.central actor).toNat) (fun f cursor hf hcursor => ?_)
    (fun fetches h _ => ?_)
    fun f hf => ⟨h.serves f hf, (h.mem hc f hf).2⟩
  · obtain ⟨rest, hrest, hended, -⟩ := hends
    exact ⟨rest, hrest, hended⟩
  · obtain ⟨hserves, hroute⟩ := hf
    have hepoch := hserves.inboxEpoch
    rw [← hepoch] at hfingerprint
    obtain ⟨page, hpage⟩ := inboxRoute_again hP (hc.later hserves) hroute hcursor hfingerprint
    exact ⟨⟨f.central, { f.query with cursor := some cursor }, page⟩, ⟨hserves, hpage⟩, .refl, rfl,
      hpage⟩
  · have hlength := inbox_length_le hP.toEncodesCursors hc h
    rw [List.length_cons] at hlength
    omega

end Follow

/-- The fetch of any live bearer with a cursor is answered. -/
def InboxAnswers (P : Platform) (actor : String) (state : InboxState) (d : Central)
    (cursor : Option String) :
    Prop :=
  ∀ host token waitSeconds q s, InboxQuery.validate ⟨state, q, waitSeconds⟩ = .ok () →
    q.cursor = cursor →
    (journalActor P token).run (.start host d) = .ok (actor, s) →
    ∃ page, inboxRoute P actor state d q page

/-- For every served store and every interleaving of calls between the fetches of an inbox: the
first fetch is answered, so is every next cursor wherever calls bring the store, following them
comes to an end within the bound of the first page, the sequences increase, nothing is above the
bound, every item that satisfies the filter at every fetch is shown exactly once, and no item twice.
An acknowledgment is never changed. -/
theorem inbox_traversal (hP : P.BoundsCursors) (hc : Served P c)
    (hfingerprint : (inboxScope P actor state
      c.recoveryAnchor.inboxEpoch).filterFingerprint.length ≤ 128)
    {first : Fetched InboxItem}
    (h : Traversal P (inboxRoute P actor state) c none (first :: fetches)) :
    (∀ d, Serves P c d → InboxAnswers P actor state d none) ∧
    (∀ f ∈ first :: fetches, ∀ cursor, f.page.nextCursor = some cursor →
      ∀ d, Serves P f.central d → InboxAnswers P actor state d (some cursor)) ∧
    (∃ rest, Traversal P (inboxRoute P actor state) c none (first :: (fetches ++ rest)) ∧
      Ended (first :: (fetches ++ rest))) ∧
    (first :: fetches).length ≤ (newestItem first.central actor).toNat + 1 ∧
    ((items (first :: fetches)).map InboxItem.seq).Pairwise (· < ·) ∧
    (∀ item ∈ items (first :: fetches), item.seq ≤ newestItem first.central actor) ∧
    (Ended (first :: fetches) → ∀ seq ≤ newestItem first.central actor,
      (∀ f ∈ first :: fetches, HasItem f.central actor state seq) →
      ((items (first :: fetches)).map InboxItem.seq).count seq = 1) ∧
    ((items (first :: fetches)).map InboxItem.inboxItemId).Nodup ∧
    (∀ d e, Serves P c d → Serves P d e → ∀ m ∈ d.mailboxItems, ∀ time, m.acknowledgedAt =
      some time →
      ∃ m' ∈ e.mailboxItems, m'.id = m.id ∧ m'.acknowledgedAt = some time) := by
  have hmem := h.mem hc
  have hfollows := inbox_follows hP.toEncodesCursors hc h
  have hincreasing := hfollows.increasing.1
  rw [shown_fetches] at hincreasing
  refine ⟨?_, ?_, inbox_ends hP hc hfingerprint h, inbox_length_le hP.toEncodesCursors hc h,
    hincreasing,
    fun item hitem => ?_, fun hended seq hle hall => ?_, h.items_nodup hc hincreasing,
    fun d e _ hserves m hm time htime => ?_⟩
  · intro d hserves host token waitSeconds q s hvalid hq hactor
    rw [← hserves.inboxEpoch] at hfingerprint
    exact inboxRoute_starts hP (hc.later hserves) hfingerprint hvalid hq hactor
  · intro f hf cursor hcursor d hserves host token waitSeconds q s hvalid hq hactor
    obtain ⟨hserved, hroute⟩ := hmem f hf
    rw [← ((h.serves f hf).trans hserves).inboxEpoch] at hfingerprint
    exact inboxRoute_continues hP hserved hroute hcursor hserves hfingerprint hvalid hq hactor
  · obtain ⟨g, hg, -, heligible⟩ := hfollows.sound (k := item.seq)
      (by rw [shown_fetches]; exact List.mem_map_of_mem hitem)
    obtain ⟨f, -, rfl⟩ := List.mem_map.mp hg
    exact heligible.1
  · have hcount := hfollows.count_eq_one (k := seq) hended.finished (fun g hg => ?_) ?_
    · rwa [shown_fetches] at hcount
    · obtain ⟨f, hf, rfl⟩ := List.mem_map.mp hg
      exact ⟨hle, hall f hf⟩
    · rintro p hp
      cases hp
      exact (hall first List.mem_cons_self).pos (hmem first List.mem_cons_self).1.wellFormed
  · obtain ⟨m', hm', hkept, hacknowledged⟩ := hserves.journaled.acknowledged hm
    exact ⟨m', hm', (allocation_inj hkept).1, hacknowledged time htime⟩

section Sample

/-- An item of the unfiltered inbox stays one. -/
theorem HasItem.serves (h : HasItem c actor .all seq) (hserves : Serves P c d) :
    HasItem d actor .all seq := by
  obtain ⟨m, hm, hactor, hseq, -⟩ := h
  obtain ⟨m', hm', hkept, -⟩ := hserves.journaled.acknowledged hm
  obtain ⟨-, -, hrecipient, -, hseq'⟩ := allocation_inj hkept
  exact ⟨m', hm', hrecipient.trans hactor, hseq'.trans hseq, rfl⟩

theorem hasItem_of_addressed {seq : ℤ} (h : (actor, seq) ∈ addressed c) :
    HasItem c actor .all seq := by
  obtain ⟨m, hm, heq⟩ := List.mem_map.mp h
  obtain ⟨rfl, rfl⟩ := Prod.mk.inj heq
  exact ⟨m, hm, rfl, rfl, rfl⟩

/-- The unfiltered window holds the items of the recipient. -/
theorem length_inboxWindow (hc : References c) (after upper : ℤ) :
    (inboxWindow c actor .all after upper).length =
      ((addressed c).filter fun x => x.1 = actor && (after < x.2 && x.2 ≤ upper)).length := by
  have hwindow : inboxWindow c actor .all after upper = c.mailboxItems.filter fun m =>
      m.recipientPrincipalId = actor && (after < m.recipientSeq && m.recipientSeq ≤ upper) := by
    refine List.filter_congr fun m hm => ?_
    rw [visible_item hc hm]
    simp [stateMatches]
  rw [hwindow, addressed, List.filter_map, List.length_map]
  rfl

theorem newestItem_eq (c : Central) (recipient : String) : newestItem c recipient =
    (((addressed c).filter fun x => x.1 = recipient).map (·.2)).foldl max 0 := by
  simp [newestItem, addressed, List.filter_map, Function.comp_def]

/-- The store after a second item, and after a third one. -/
def sampleInboxes : Option (Central × Central) := do
  let (_, s) ← succeeded ((appendRecord .sample sampleToken "lab" "second" sampleInput).run
    (.start (sampleHostAt 1) sampleStore))
  let (_, t) ← succeeded ((appendRecord .sample sampleToken "lab" "third" sampleInput).run
    (.start (sampleHostAt 2) s.central))
  return (s.central, t.central)

set_option maxRecDepth 20000 in
theorem sampleInboxes_facts : sampleInboxes.map (fun x =>
      addressed x.1 = [(samplePrincipal, 1), (samplePrincipal, 2)] &&
      addressed x.2 = [(samplePrincipal, 1), (samplePrincipal, 2), (samplePrincipal, 3)] &&
      sampleReader x.1 = some samplePrincipal && sampleReader x.2 = some samplePrincipal) = some
        true := by
  decide +kernel

theorem sampleFingerprint :
    (inboxScope .sample samplePrincipal .all 0).filterFingerprint.length ≤ 128 := by
  decide +kernel

theorem serves_of_sampleInboxes (h : sampleInboxes = some (c, d)) :
    Serves .sample sampleStore c ∧ Serves .sample c d := by
  simp only [sampleInboxes, Option.bind_eq_bind, Option.bind_eq_some_iff, succeeded_eq_some,
    Option.pure_def, Option.some.injEq, Prod.mk.injEq] at h
  obtain ⟨⟨_, s⟩, hsecond, ⟨_, t⟩, hthird, rfl, rfl⟩ := h
  exact ⟨Serves.refl.call (.appendRecord sampleToken "lab" "second" sampleInput)
      (run_bind_eq_ok.mpr ⟨_, s, hsecond, rfl⟩),
    Serves.refl.call (.appendRecord sampleToken "lab" "third" sampleInput)
      (run_bind_eq_ok.mpr ⟨_, t, hthird, rfl⟩)⟩

/-- Pages of one item: a third item comes in after the first page, and is above its bound. -/
theorem inbox_traversal_sample : ∃ first second rest,
    Traversal .sample (inboxRoute .sample samplePrincipal .all) sampleStore none
    (first :: second :: rest) ∧
    addressed first.central = [(samplePrincipal, 1), (samplePrincipal, 2)] ∧
    addressed second.central = [(samplePrincipal, 1), (samplePrincipal, 2), (samplePrincipal, 3)] ∧
    Ended (first :: second :: rest) ∧ (items (first :: second :: rest)).map InboxItem.seq =
    [1, 2] := by
  obtain ⟨⟨c, d⟩, hstores, hfacts⟩ := Option.map_eq_some_iff.mp sampleInboxes_facts
  simp only [Bool.and_eq_true, decide_eq_true_eq] at hfacts
  obtain ⟨⟨⟨hs, ht⟩, hreader⟩, hreader'⟩ := hfacts
  obtain ⟨hserves, hserves'⟩ := serves_of_sampleInboxes hstores
  have hfingerprint : (inboxScope .sample samplePrincipal .all
      sampleStore.recoveryAnchor.inboxEpoch).filterFingerprint.length ≤ 128 := by
    rw [sampleStore_unadopted.grown.2.2.2.2]
    exact sampleFingerprint
  obtain ⟨u, hactor⟩ := exists_sampleReader hreader
  obtain ⟨u', hactor'⟩ := exists_sampleReader hreader'
  have hserved : Served .sample sampleStore := .of_content (.inr sampleStore_unadopted)
  have hnewest : newestItem c samplePrincipal = 2 := by
    rw [newestItem_eq, hs]
    decide
  have hitem : ∀ seq ∈ [1, 2], seq ≤ newestItem c samplePrincipal ∧
    HasItem c samplePrincipal .all seq := by
    intro seq hseq
    refine ⟨?_, hasItem_of_addressed ?_⟩
    · rw [hnewest]
      revert seq
      decide
    · rw [hs]
      simpa using hseq
  have hvalid : InboxQuery.validate ⟨.all, ⟨none, some 1⟩, 0⟩ = .ok () := by decide
  have hfingerprint' := hfingerprint
  rw [← hserves.inboxEpoch] at hfingerprint'
  obtain ⟨page, hroute⟩ := inboxRoute_starts Platform.sample_boundsCursors (hserved.later hserves)
    hfingerprint' hvalid rfl hactor
  obtain ⟨first, hcentral, hquery, hfirst⟩ : ∃ first : Fetched InboxItem, first.central = c ∧
      first.query = ⟨none, some 1⟩ ∧
      inboxRoute .sample samplePrincipal .all first.central first.query first.page :=
    ⟨⟨c, _, page⟩, rfl, rfl, hroute⟩
  subst hcentral
  have hone : Traversal .sample (inboxRoute .sample samplePrincipal .all) sampleStore none
    [first] :=
    .cons hserves (by rw [hquery]) hfirst (by simp) (.nil _ _)
  obtain ⟨cursor, hcursor⟩ := inboxRoute_issues hfirst (by rw [hquery]) (by
    rw [hquery, length_inboxWindow (hserved.later hserves).wellFormed.references, hnewest, hs]
    decide)
  obtain ⟨-, hanswers, -⟩ := inbox_traversal Platform.sample_boundsCursors hserved hfingerprint hone
  obtain ⟨page', hroute'⟩ :=
    hanswers _ List.mem_cons_self cursor hcursor _ hserves' sampleHost sampleToken
    0 ⟨some cursor, some 1⟩ u'
    (inboxRoute_validate (hserved.later hserves) hfirst hcursor hvalid) rfl hactor'
  have htwo := hone.snoc (f := ⟨d, ⟨some cursor, some 1⟩, page'⟩) rfl (by simp [hcursor]) hserves'
    hcursor.symm hroute'
  obtain ⟨-, -, ⟨rest, hall, hended⟩, -⟩ :=
    inbox_traversal Platform.sample_boundsCursors hserved hfingerprint htwo
  obtain ⟨-, -, -, -, hincreasing, hbelow, honce, -⟩ :=
    inbox_traversal Platform.sample_boundsCursors hserved hfingerprint hall
  refine ⟨_, _, rest, hall, hs, ht, hended, hincreasing.eq_of_mem_iff (by decide) fun seq =>
    ⟨fun h => ?_,
    fun hseq => ?_⟩⟩
  · obtain ⟨item, hmem, rfl⟩ := List.mem_map.mp h
    have hle := hbelow item hmem
    obtain ⟨f, hf, hmem⟩ := List.mem_flatMap.mp hmem
    obtain ⟨hservedF, hrouteF⟩ := hall.mem hserved f hf
    have hpos := inboxRoute_pos hservedF.wellFormed hrouteF hmem
    rw [hnewest] at hle
    simp only [List.mem_cons, List.not_mem_nil, or_false]
    omega
  · have hcount := honce hended seq (hitem seq hseq).1
      fun f hf => (hitem seq hseq).2.serves (hall.serves_first f hf)
    exact List.count_pos_iff.mp (Nat.one_pos.trans_eq hcount.symm)

end Sample

end Inbox
end AgentJournal.Service
