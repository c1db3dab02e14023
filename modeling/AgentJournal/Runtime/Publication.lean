import AgentJournal.Runtime.Spool
import Std.Data.String.ToNat

/-! # Publication never tears, never clobbers

The invariant of every run: a staging file belongs to the call that created it, a call that
reached the link wrote its whole payload, and a published name refers to a file that nobody
writes any more.
-/

namespace AgentJournal.Runtime
open Domain Foundation InboxWorker

section Names

/-- The last separator splits a text in one way. -/
theorem append_separator_inj {α : Type*} {x : α} {a b u v : List α} (hu : x ∉ u) (hv : x ∉ v)
    (h : a ++ x :: u = b ++ x :: v) : a = b ∧ u = v := by
  classical
  have hsplit : ∀ {a u : List α}, x ∉ u →
      (a ++ x :: u).reverse.takeWhile (fun y => decide (y ≠ x)) = u.reverse := by
    intro a u hu
    have hall : ∀ y ∈ u.reverse, decide (y ≠ x) = true := by
      intro y hy
      rw [List.mem_reverse] at hy
      exact decide_eq_true fun heq => hu (heq ▸ hy)
    rw [List.reverse_append, List.reverse_cons, List.append_assoc,
      List.takeWhile_append_of_pos hall]
    simp
  have huv : u = v := by
    have hreverse : u.reverse = v.reverse := by rw [← hsplit (a := a) hu, h, hsplit hv]
    exact List.reverse_injective hreverse
  subst huv
  exact ⟨List.append_cancel_right h, rfl⟩

theorem dot_notMem_toString (n : ℕ) : '.' ∉ (toString n).toList := by
  intro h
  have hdigits : '.' ∈ Nat.toDigits 10 n := by simpa [Nat.toString_eq_ofList_toDigits] using h
  have hdigit := Nat.isDigit_of_mem_toDigits (by decide) (by decide) hdigits
  exact absurd hdigit (by decide)

theorem toString_inj {m n : ℕ} (h : (toString m).toList = (toString n).toList) : m = n :=
  Nat.repr_injective (String.toList_injective h)

theorem stagingName_toList (file : String) (pid time seq : ℕ) :
    (stagingName file pid time seq).toList =
    (('.' :: file.toList ++ ".tmp".toList ++ '.' :: (toString pid).toList) ++
      '.' :: (toString time).toList) ++ '.' :: (toString seq).toList := by
  have htmp : ".tmp.".toList = ".tmp".toList ++ ['.'] := rfl
  have hdot : ".".toList = ['.'] := rfl
  simp only [stagingName, String.toList_append, htmp, hdot, List.append_assoc, List.cons_append,
    List.nil_append]

/-- A staging name shows the process and the number that made it. -/
theorem stagingName_inj {file file' : String} {pid pid' time time' seq seq' : ℕ}
    (h : stagingName file pid time seq = stagingName file' pid' time' seq') :
    pid = pid' ∧ seq = seq' := by
  have hlist := congrArg String.toList h
  rw [stagingName_toList, stagingName_toList] at hlist
  obtain ⟨hstem, hseq⟩ := append_separator_inj (dot_notMem_toString _) (dot_notMem_toString _) hlist
  obtain ⟨hstem, -⟩ := append_separator_inj (dot_notMem_toString _) (dot_notMem_toString _) hstem
  obtain ⟨-, hpid⟩ := append_separator_inj (dot_notMem_toString _) (dot_notMem_toString _) hstem
  exact ⟨toString_inj hpid, toString_inj hseq⟩

theorem isStaging_stagingName (file : String) (pid time seq : ℕ) :
    isStaging (stagingName file pid time seq) = true := by
  rw [isStaging, stagingName_toList]
  rfl

variable {P : Platform}

theorem isStaging_fileRuntime (json : SpoolEnvelope → List UInt8) (id : String) :
    isStaging ((fileRuntime P json).fileName id) = false := by
  have hprefix : ("aj-" : String).toList = ['a', 'j', '-'] := rfl
  simp [isStaging, fileRuntime, String.toList_append, hprefix]

theorem isStaging_museRuntime (json : DropPayload → List UInt8) (id : String) :
    isStaging ((museRuntime P json).fileName id) = false := by
  have hprefix : ("muse-" : String).toList = ['m', 'u', 's', 'e', '-'] := rfl
  simp [isStaging, museRuntime, String.toList_append, hprefix]

end Names

section Stages

/-- The staging file of a call. -/
def Stage.own : Stage → Option Staged
  | .writing own | .syncing own | .linking own | .lookTaken own | .openTaken own
  | .compareTaken own _ | .syncTaken own | .syncTakenParent own | .removing own
  | .syncDirectory own | .cleanup own _ => some own
  | _ => none

/-- The staging name still refers to the staging file. -/
def Stage.holds : Stage → Bool
  | .writing _ | .syncing _ | .linking _ | .lookTaken _ | .openTaken _ | .compareTaken _ _
  | .syncTaken _ | .syncTakenParent _ | .removing _ => true
  | _ => false

/-- The staging file has all bytes of the payload. -/
def Stage.written : Stage → Bool
  | .syncing _ | .linking _ | .lookTaken _ | .openTaken _ | .compareTaken _ _ | .syncTaken _
  | .syncTakenParent _ | .removing _ | .syncDirectory _ => true
  | _ => false

/-- The file that the call opened under the published name. -/
def Stage.found : Stage → Option ℕ
  | .comparing i | .compareTaken _ i => some i
  | _ => none

end Stages

/-- What a call in progress may rely on. -/
structure Tidy (d : Files) (call : Call) : Prop where
  offset : ∀ k, call.stage = .staging k → k < stagingCreateAttempts
  bounded : ∀ own, call.stage.own = some own → own.inode < d.next
  named : ∀ own, call.stage.own = some own →
    ∃ k < stagingCreateAttempts, own.name = call.candidate k
  holds : ∀ own, call.stage.own = some own → call.stage.holds = true →
    d.entry own.name = some own.inode
  unique : ∀ own i, call.stage.own = some own → d.entry own.name = some i → i = own.inode
  secret : ∀ own, call.stage = .writing own → ∀ n, d.entry n = some own.inode → n = own.name
  written : ∀ own, call.stage.own = some own → call.stage.written = true →
    d.file own.inode = .regular call.payload
  found : ∀ i, call.stage.found = some i → i < d.next

/-- What an operation of a call can do to the directory. -/
inductive Touch (call : Call) (d : Files) : Files → Prop
  | same : Touch call d d
  | create {k : ℕ} : call.stage = .staging k → k < stagingCreateAttempts →
      d.entry (call.candidate k) = none → Touch call d (d.create (call.candidate k) (.regular []))
  | write {own : Staged} {node : Node} : call.stage = .writing own →
      Touch call d (d.write own.inode node)
  | link {own : Staged} : call.stage = .linking own → d.entry call.file = none →
      d.file own.inode = .regular call.payload → Touch call d (d.link own.inode call.file)
  | unlink {own : Staged} : call.stage.own = some own → Touch call d (d.unlink own.name)

variable {R : Publisher} {quote : String → String} {d d' : Files} {call other : Call}
  {stage : Stage}

/-- A call goes on with the same staging file in an unchanged directory. -/
theorem Tidy.keep (h : Tidy d call) (hown : ∀ own, stage.own = some own → call.stage.own = some own)
    (hholds : stage.holds = true → call.stage.holds = true)
    (hwritten : stage.written = true → call.stage.written = true)
    (hwriting : ∀ own, stage ≠ .writing own)
    (hoffset : ∀ k, stage = .staging k → k < stagingCreateAttempts)
    (hfound : ∀ i, stage.found = some i → i < d.next) : Tidy d { call with stage := stage } where
  offset := hoffset
  bounded own hso := h.bounded own (hown own hso)
  named own hso := h.named own (hown own hso)
  holds own hso hh := h.holds own (hown own hso) (hholds hh)
  unique own i hso := h.unique own i (hown own hso)
  secret own hw := absurd hw (hwriting own)
  written own hso hw := h.written own (hown own hso) (hwritten hw)
  found := hfound

/-- A call that finds its names and its file as they were. -/
theorem Tidy.frame (h : Tidy d other) (hnext : d.next ≤ d'.next)
    (hentry : ∀ own, other.stage.own = some own → d'.entry own.name = d.entry own.name)
    (hfile : ∀ own, other.stage.own = some own → d'.file own.inode = d.file own.inode)
    (hnames : ∀ own n, other.stage.own = some own → d'.entry n = some own.inode →
      d.entry n = some own.inode) : Tidy d' other where
  offset := h.offset
  bounded own hso := (h.bounded own hso).trans_le hnext
  named := h.named
  holds own hso hh := (hentry own hso).trans (h.holds own hso hh)
  unique own i hso hi := h.unique own i hso ((hentry own hso).symm.trans hi)
  secret own hw n hn := by
    have hso : other.stage.own = some own := by rw [hw]; rfl
    exact h.secret own hw n (hnames own n hso hn)
  written own hso hw := (hfile own hso).trans (h.written own hso hw)
  found i hi := (h.found i hi).trans_le hnext

theorem candidate_isStaging (call : Call) (k : ℕ) : isStaging (call.candidate k) = true :=
  isStaging_stagingName _ _ _ _

theorem Separate.candidate_ne (h : Separate call other) {k l : ℕ} (hk : k < stagingCreateAttempts)
    (hl : l < stagingCreateAttempts) : call.candidate k ≠ other.candidate l := by
  intro heq
  obtain ⟨hpid, hseq⟩ := stagingName_inj heq
  exact h hpid k l hk hl hseq

theorem Tidy.name_isStaging (h : Tidy d call) {own : Staged} (hown : call.stage.own = some own) :
    isStaging own.name = true := by
  obtain ⟨k, -, hname⟩ := h.named own hown
  rw [hname]
  exact candidate_isStaging call k

/-- What one call does to the directory leaves every other call its own. -/
theorem Tidy.touch (h : Tidy d other) (hcall : Tidy d call) (hpublic : isStaging call.file = false)
    (hseparate : Separate call other)
    (hinodes : ∀ own own', call.stage.own = some own → other.stage.own = some own' →
      own.inode ≠ own'.inode) (ht : Touch call d d') : Tidy d' other := by
  cases ht with
  | same => exact h
  | @create k hstage hk hfree =>
    have hname : ∀ own, other.stage.own = some own → own.name ≠ call.candidate k := by
      intro own hown
      obtain ⟨l, hl, hname⟩ := h.named own hown
      rw [hname]
      exact (hseparate.candidate_ne hk hl).symm
    refine h.frame (Nat.le_succ _) ?_ ?_ ?_
    · intro own hown
      rw [Directory.create_entry, if_neg (hname own hown)]
    · intro own hown
      rw [Directory.create_file, if_neg (Nat.ne_of_lt (h.bounded own hown))]
    · intro own n hown hn
      rw [Directory.create_entry] at hn
      split_ifs at hn
      · exact absurd (Option.some.inj hn).symm (Nat.ne_of_lt (h.bounded own hown))
      · exact hn
  | @write own node hstage =>
    have hcallOwn : call.stage.own = some own := by rw [hstage]; rfl
    refine h.frame le_rfl (fun _ _ => rfl) ?_ (fun _ _ _ hn => hn)
    intro own' hown'
    rw [Directory.write_file, if_neg (hinodes own own' hcallOwn hown').symm]
  | @link own hstage hfree hfile =>
    have hcallOwn : call.stage.own = some own := by rw [hstage]; rfl
    refine h.frame le_rfl ?_ (fun _ _ => rfl) ?_
    · intro own' hown'
      rw [Directory.link_entry, if_neg]
      intro heq
      have hstaging := h.name_isStaging hown'
      rw [heq, hpublic] at hstaging
      cases hstaging
    · intro own' n hown' hn
      rw [Directory.link_entry] at hn
      split_ifs at hn
      · exact absurd (Option.some.inj hn) (hinodes own own' hcallOwn hown')
      · exact hn
  | @unlink own hown =>
    obtain ⟨k, hk, hkname⟩ := hcall.named own hown
    refine h.frame le_rfl ?_ (fun _ _ => rfl) ?_
    · intro own' hown'
      obtain ⟨l, hl, hlname⟩ := h.named own' hown'
      rw [Directory.unlink_entry, if_neg]
      rw [hkname, hlname]
      exact (hseparate.candidate_ne hk hl).symm
    · intro own' n hown' hn
      rw [Directory.unlink_entry] at hn
      split_ifs at hn
      exact hn

/-- A call that gives up its staging file, or never had one. -/
theorem tidy_of_no_staged (hown : stage.own = none)
    (hoffset : ∀ k, stage = .staging k → k < stagingCreateAttempts)
    (hfound : ∀ i, stage.found = some i → i < d.next) : Tidy d { call with stage := stage } where
  offset := hoffset
  bounded own hso := by simp [hown] at hso
  named own hso := by simp [hown] at hso
  holds own hso := by simp [hown] at hso
  unique own i hso := by simp [hown] at hso
  secret own hw := by
    have hwriting : stage = .writing own := hw
    rw [hwriting] at hown
    cases hown
  written own hso := by simp [hown] at hso
  found := hfound

theorem tidy_create (hnumbered : d.Numbered) {k : ℕ} (hk : k < stagingCreateAttempts) :
    Tidy (d.create (call.candidate k) (.regular []))
      { call with stage := .writing ⟨call.candidate k, d.next⟩ } where
  offset l hl := by cases hl
  bounded own hso := by
    obtain rfl : ⟨call.candidate k, d.next⟩ = own := Option.some.inj hso
    exact Nat.lt_succ_self _
  named own hso := by
    obtain rfl : ⟨call.candidate k, d.next⟩ = own := Option.some.inj hso
    exact ⟨k, hk, rfl⟩
  holds own hso _ := by
    obtain rfl : ⟨call.candidate k, d.next⟩ = own := Option.some.inj hso
    simp
  unique own i hso hi := by
    obtain rfl : ⟨call.candidate k, d.next⟩ = own := Option.some.inj hso
    simpa using hi.symm
  secret own hw n hn := by
    obtain rfl : ⟨call.candidate k, d.next⟩ = own := Stage.writing.inj hw
    rw [Directory.create_entry] at hn
    split_ifs at hn with hname
    · exact hname
    · exact absurd (hnumbered n _ hn) (lt_irrefl _)
  written own _ hw := by cases hw
  found i hi := by cases hi

theorem Tidy.writeAll (h : Tidy d call) {own : Staged} (hstage : call.stage = .writing own) :
    Tidy (d.write own.inode (.regular call.payload)) { call with stage := .syncing own } where
  offset l hl := by cases hl
  bounded own' hso := h.bounded own' (by rw [hstage]; exact hso)
  named own' hso := h.named own' (by rw [hstage]; exact hso)
  holds own' hso _ := h.holds own' (by rw [hstage]; exact hso) (by rw [hstage]; rfl)
  unique own' i hso := h.unique own' i (by rw [hstage]; exact hso)
  secret own' hw := by cases hw
  written own' hso _ := by
    obtain rfl : own = own' := Option.some.inj hso
    simp
  found i hi := by cases hi

/-- A part of the payload is written. -/
theorem Tidy.writePart (h : Tidy d call) {own : Staged} (hstage : call.stage = .writing own)
    (node : Node) : Tidy (d.write own.inode node) call :=
  { h with written := fun own' _ hw => by rw [hstage] at hw; cases hw }

theorem Tidy.link (h : Tidy d call) (hpublic : isStaging call.file = false) {own : Staged}
    (hstage : call.stage = .linking own) :
    Tidy (d.link own.inode call.file) { call with stage := .removing own } := by
  have hname : ∀ own', call.stage.own = some own' → own'.name ≠ call.file := by
    intro own' hown' heq
    have hstaging := h.name_isStaging hown'
    rw [heq, hpublic] at hstaging
    cases hstaging
  refine ⟨fun l hl => (by cases hl), ?_, ?_, ?_, ?_, fun own' hw => (by cases hw), ?_,
    fun i hi => (by cases hi)⟩
  · exact fun own' hso => h.bounded own' (by rw [hstage]; exact hso)
  · exact fun own' hso => h.named own' (by rw [hstage]; exact hso)
  · intro own' hso _
    have hown' : call.stage.own = some own' := by rw [hstage]; exact hso
    rw [Directory.link_entry, if_neg (hname own' hown')]
    exact h.holds own' hown' (by rw [hstage]; rfl)
  · intro own' i hso hi
    have hown' : call.stage.own = some own' := by rw [hstage]; exact hso
    rw [Directory.link_entry, if_neg (hname own' hown')] at hi
    exact h.unique own' i hown' hi
  · exact fun own' hso _ => h.written own' (by rw [hstage]; exact hso) (by rw [hstage]; rfl)

theorem Tidy.remove (h : Tidy d call) {own : Staged} (hstage : call.stage = .removing own) :
    Tidy (d.unlink own.name) { call with stage := .syncDirectory own } where
  offset l hl := by cases hl
  bounded own' hso := h.bounded own' (by rw [hstage]; exact hso)
  named own' hso := h.named own' (by rw [hstage]; exact hso)
  holds own' _ hh := by cases hh
  unique own' i hso hi := by
    obtain rfl : own = own' := Option.some.inj hso
    simp at hi
  secret own' hw := by cases hw
  written own' hso _ := h.written own' (by rw [hstage]; exact hso) (by rw [hstage]; rfl)
  found i hi := by cases hi

/-- An operation of a call touches only what is its own, and the call goes on. -/
theorem advance_tidy (h : Tidy d call) (hnumbered : d.Numbered)
    (hpublic : isStaging call.file = false)
    (hlive : call.stage.live = true) :
    Touch call d (advance R d call).1 ∧
      Tidy (advance R d call).1 { call with stage := (advance R d call).2 } := by
  have hnone : ∀ stage : Stage, stage.own = none → (∀ k, stage ≠ .staging k) → stage.found = none →
      Touch call d d ∧ Tidy d { call with stage := stage } := by
    intro stage hown hstaging hfound
    exact ⟨.same, tidy_of_no_staged hown (fun k hk => absurd hk (hstaging k))
      (fun i hi => by simp [hfound] at hi)⟩
  have hfirst : Touch call d d ∧ Tidy d { call with stage := .staging 0 } :=
    ⟨.same, tidy_of_no_staged rfl (fun k hk => by cases hk; decide) (fun i hi => by cases hi)⟩
  have hsame : ∀ {own : Staged} {stage : Stage}, call.stage.own = some own → stage.own = some own →
      (stage.holds = true → call.stage.holds = true) →
      (stage.written = true → call.stage.written = true) → (∀ own, stage ≠ .writing own) →
      (∀ k, stage ≠ .staging k) → stage.found = none →
      Touch call d d ∧ Tidy d { call with stage := stage } := by
    intro own stage hown hown' hholds hwritten hwriting hstaging hfound
    refine ⟨.same, h.keep (fun own' ho => ?_) hholds hwritten hwriting
      (fun k hk => absurd hk (hstaging k)) (fun i hi => by simp [hfound] at hi)⟩
    rw [hown', Option.some.injEq] at ho
    rw [← ho, hown]
  unfold advance
  cases hstage : call.stage with
  | look =>
    simp only
    split
    · exact hfirst
    · exact hnone _ rfl (by simp) rfl
    · split
      · exact hnone _ rfl (by simp) rfl
      · exact hnone _ rfl (by simp) rfl
  | opening =>
    simp only
    split
    · exact hfirst
    · rename_i i hi
      refine ⟨.same, tidy_of_no_staged rfl (fun k hk => by cases hk) fun j hj => ?_⟩
      obtain rfl : i = j := Option.some.inj hj
      exact hnumbered _ _ hi
  | comparing i =>
    simp only
    split
    · exact hnone _ rfl (by simp) rfl
    · exact hnone _ rfl (by simp) rfl
  | syncFile =>
    simp only
    split
    · exact hnone _ rfl (by simp) rfl
    · exact hnone _ rfl (by simp) rfl
  | syncParent => exact hnone _ rfl (by simp) rfl
  | staging k =>
    simp only
    have hk := h.offset k hstage
    split
    · rename_i hfree
      exact ⟨.create hstage hk hfree, tidy_create hnumbered hk⟩
    · split
      · rename_i hmore
        refine ⟨.same, tidy_of_no_staged rfl (fun l hl => ?_) (fun i hi => by cases hi)⟩
        obtain rfl := Stage.staging.inj hl
        exact hmore
      · exact hnone _ rfl (by simp) rfl
  | writing own => exact ⟨.write hstage, h.writeAll hstage⟩
  | syncing own =>
    exact hsame (by rw [hstage]; rfl) rfl (fun _ => by rw [hstage]; rfl)
      (fun _ => by rw [hstage]; rfl)
      (by simp) (by simp) rfl
  | linking own =>
    have hown : call.stage.own = some own := by rw [hstage]; rfl
    simp only
    split
    · exact hsame hown rfl (by simp [Stage.holds]) (by simp [Stage.written]) (by simp) (by simp) rfl
    · rename_i i hi
      obtain rfl := h.unique own i hown hi
      split
      · rename_i hfree
        exact ⟨.link hstage hfree (h.written own hown (by rw [hstage]; rfl)), h.link hpublic hstage⟩
      · exact hsame hown rfl (fun _ => by rw [hstage]; rfl) (fun _ => by rw [hstage]; rfl) (by simp)
          (by simp) rfl
  | lookTaken own =>
    have hown : call.stage.own = some own := by rw [hstage]; rfl
    simp only
    split
    · exact hsame hown rfl (by simp [Stage.holds]) (by simp [Stage.written]) (by simp) (by simp) rfl
    · exact hsame hown rfl (by simp [Stage.holds]) (by simp [Stage.written]) (by simp) (by simp) rfl
    · split
      · exact hsame hown rfl (by simp [Stage.holds]) (by simp [Stage.written]) (by simp)
          (by simp) rfl
      · exact hsame hown rfl (fun _ => by rw [hstage]; rfl) (fun _ => by rw [hstage]; rfl) (by simp)
          (by simp) rfl
  | openTaken own =>
    have hown : call.stage.own = some own := by rw [hstage]; rfl
    simp only
    split
    · exact hsame hown rfl (by simp [Stage.holds]) (by simp [Stage.written]) (by simp) (by simp) rfl
    · rename_i i hi
      refine ⟨.same, h.keep (fun own' ho => ?_) (fun _ => by rw [hstage]; rfl)
        (fun _ => by rw [hstage]; rfl) (by simp) (by simp) fun j hj => ?_⟩
      · rw [hstage]
        exact ho
      · obtain rfl : i = j := Option.some.inj hj
        exact hnumbered _ _ hi
  | compareTaken own i =>
    have hown : call.stage.own = some own := by rw [hstage]; rfl
    simp only
    split
    · exact hsame hown rfl (fun _ => by rw [hstage]; rfl) (fun _ => by rw [hstage]; rfl) (by simp)
        (by simp) rfl
    · exact hsame hown rfl (by simp [Stage.holds]) (by simp [Stage.written]) (by simp) (by simp) rfl
  | syncTaken own =>
    have hown : call.stage.own = some own := by rw [hstage]; rfl
    simp only
    split
    · exact hsame hown rfl (by simp [Stage.holds]) (by simp [Stage.written]) (by simp) (by simp) rfl
    · exact hsame hown rfl (fun _ => by rw [hstage]; rfl) (fun _ => by rw [hstage]; rfl) (by simp)
        (by simp) rfl
  | syncTakenParent own =>
    exact hsame (by rw [hstage]; rfl) rfl (fun _ => by rw [hstage]; rfl)
      (fun _ => by rw [hstage]; rfl)
      (by simp) (by simp) rfl
  | removing own =>
    have hown : call.stage.own = some own := by rw [hstage]; rfl
    simp only
    split
    · exact hsame hown rfl (by simp [Stage.holds]) (by simp [Stage.written]) (by simp) (by simp) rfl
    · exact ⟨.unlink hown, h.remove hstage⟩
  | syncDirectory own => exact hnone _ rfl (by simp) rfl
  | cleanup own error =>
    have hown : call.stage.own = some own := by rw [hstage]; rfl
    refine ⟨.unlink hown, ?_⟩
    exact ⟨by
      simp, by simp [Stage.own], by simp [Stage.own], by simp [Stage.own], by simp [Stage.own],
      by simp, by simp [Stage.own], by simp [Stage.found]⟩
  | done result => simp [hstage, Stage.live] at hlive
  | dead => simp [hstage, Stage.live] at hlive

/-- Where the staging file and the opened file of the next stage come from. -/
structure Onward (d : Files) (call : Call) (stage : Stage) : Prop where
  own : ∀ own, stage.own = some own → call.stage.own = some own ∨ own.inode = d.next
  found : ∀ i, stage.found = some i → call.stage.found = some i ∨ d.entry call.file = some i
  writing : ∀ own, stage = .writing own → call.stage = .writing own ∨ own.inode = d.next

theorem advance_onward (R : Publisher) (d : Files) (call : Call) :
    Onward d call (advance R d call).2 := by
  obtain ⟨file, payload, pid, time, seq, stage⟩ := call
  unfold advance
  cases stage <;> simp only <;> (repeat' split) <;>
    exact ⟨by simp [Stage.own], by simp_all [Stage.found], by simp⟩

theorem fault_onward (R : Publisher) (d : Files) (call : Call) :
    Onward d call (fault R call.stage) := by
  obtain ⟨file, payload, pid, time, seq, stage⟩ := call
  cases stage <;> exact ⟨by simp [fault, Stage.own], by simp [fault, Stage.found], by simp [fault]⟩

theorem Tidy.fault (h : Tidy d call) : Tidy d { call with stage := fault R call.stage } := by
  refine h.keep ?_ ?_ ?_ ?_ ?_ ?_
  all_goals
    cases call.stage <;>
      simp [Runtime.fault, Stage.own, Stage.holds, Stage.written, Stage.found]

/-- The checks of `inject` let these bytes through for this name. -/
def Prepared (R : Publisher) (quote : String → String) (file : String) (payload : List UInt8) :
    Prop :=
  ∃ route e rendered, prepare R quote route e rendered = .ok (file, payload)

/-- Where the file under a published name comes from: it was there at first, or a call put it
there. -/
def Published (R : Publisher) (quote : String → String) (d₀ : Files) (w : World) (n : String)
    (i : ℕ) :
    Prop :=
  d₀.entry n = some i ∧ w.files.file i = d₀.file i ∨
    ∃ c call, w.calls c = some call ∧ call.file = n ∧ w.files.file i = .regular call.payload ∧
      Prepared R quote n call.payload

/-- The invariant of every run from a directory. -/
structure Sound (R : Publisher) (quote : String → String) (d₀ : Files) (w : World) : Prop where
  prepared : ∀ c call, w.calls c = some call → call.stage.live = true →
    Prepared R quote call.file call.payload
  numbered : w.files.Numbered
  visible : ∀ c call, w.calls c = some call → isStaging call.file = false
  tidy : ∀ c call, w.calls c = some call → call.stage.live = true → Tidy w.files call
  separate : ∀ c c' call call', c ≠ c' → w.calls c = some call → w.calls c' = some call' →
    call.stage.live = true → call'.stage.live = true → Separate call call'
  inodes : ∀ c c' call call' own own', c ≠ c' → w.calls c = some call → w.calls c' = some call' →
    call.stage.own = some own → call'.stage.own = some own' → own.inode ≠ own'.inode
  published : ∀ n i, isStaging n = false → w.files.entry n = some i → Published R quote d₀ w n i
  quiet : ∀ c c' call call' own, w.calls c = some call → w.calls c' = some call' →
    call.stage = .writing own → call'.stage.live = true → call'.stage.found ≠ some own.inode

theorem Touch.numbered (h : Touch call d d') (hcall : Tidy d call) (hnumbered : d.Numbered) :
    d'.Numbered := by
  cases h with
  | same => exact hnumbered
  | create => exact hnumbered.create _ _
  | write => exact hnumbered.write _ _
  | link hstage => exact hnumbered.link _ (hcall.bounded _ (by rw [hstage]; rfl))
  | unlink => exact hnumbered.unlink _

theorem Stage.live_of_own {stage : Stage} {own : Staged} (h : stage.own = some own) :
    stage.live = true := by
  cases stage <;> first | rfl | cases h

theorem Stage.live_of_writing {stage : Stage} {own : Staged} (h : stage = .writing own) :
    stage.live = true := by rw [h]; rfl

theorem World.set_calls (w : World) (c x : ℕ) (call : Call) :
    (w.set c call).calls x = if x = c then some call else w.calls x := Function.update_apply _ _ _ _

theorem World.set_calls_eq_some {w : World} {c x : ℕ} {k : Call}
    (h : (w.set c call).calls x = some k) : x = c ∧ k = call ∨ x ≠ c ∧ w.calls x = some k := by
  rw [World.set_calls] at h
  split_ifs at h with hx
  · exact .inl ⟨hx, (Option.some.inj h).symm⟩
  · exact .inr ⟨hx, h⟩

section Steps
variable {d₀ : Files} {w : World} {c : ℕ} (h : Sound R quote d₀ w)
include h

/-- Nobody writes a file under a published name. -/
theorem Sound.unwritten {x : ℕ} {n : String} {k : Call} {own : Staged} (hx : w.calls x = some k)
    (hwriting : k.stage = .writing own) (hn : isStaging n = false) :
    w.files.entry n ≠ some own.inode := by
  intro hentry
  have hkLive := Stage.live_of_writing hwriting
  have hown : k.stage.own = some own := by rw [hwriting]; rfl
  have htidy := h.tidy x k hx hkLive
  have hname := htidy.secret own hwriting n hentry
  have hstaging := htidy.name_isStaging hown
  rw [← hname, hn] at hstaging
  cases hstaging

variable (hc : w.calls c = some call) (hlive : call.stage.live = true)
include hc hlive

theorem Sound.touch_published (htouch : Touch call w.files d') {n : String} {i : ℕ}
    (hn : isStaging n = false) (hi : d'.entry n = some i) :
    Published R quote d₀ { w with files := d' } n i := by
  have htidy := h.tidy c call hc hlive
  cases htouch with
  | same => exact h.published n i hn hi
  | @create k hstage hk hfree =>
    rw [Directory.create_entry] at hi
    split_ifs at hi with hname
    · rw [hname, candidate_isStaging] at hn
      cases hn
    · unfold Published
      dsimp only
      rw [Directory.create_file, if_neg (Nat.ne_of_lt (h.numbered n i hi))]
      exact h.published n i hn hi
  | @write own node hstage =>
    have hother : i ≠ own.inode := fun heq =>
      h.unwritten hc hstage hn (heq ▸ hi)
    unfold Published
    dsimp only
    rw [Directory.write_file, if_neg hother]
    exact h.published n i hn hi
  | @link own hstage hfree hfile =>
    rw [Directory.link_entry] at hi
    split_ifs at hi with hname
    · obtain rfl := Option.some.inj hi
      exact .inr ⟨c, call, hc, hname.symm, hfile, hname ▸ h.prepared c call hc hlive⟩
    · exact h.published n i hn hi
  | unlink hown =>
    rw [Directory.unlink_entry] at hi
    split_ifs at hi
    exact h.published n i hn hi

/-- A step of one call keeps the invariant. -/
theorem Sound.touch (htouch : Touch call w.files d')
    (htidy : stage.live = true → Tidy d' { call with stage := stage })
    (honward : Onward w.files call stage) :
    Sound R quote d₀ { (w.set c { call with stage := stage }) with files := d' } := by
  have hcall := h.tidy c call hc hlive
  refine ⟨?_, htouch.numbered hcall h.numbered, ?_, ?_, ?_, ?_, ?_, ?_⟩
  · intro x k hx hk
    rcases World.set_calls_eq_some hx with ⟨-, rfl⟩ | ⟨-, hx'⟩
    · exact h.prepared c call hc hlive
    · exact h.prepared x k hx' hk
  · intro x k hx
    rcases World.set_calls_eq_some hx with ⟨-, rfl⟩ | ⟨-, hx⟩
    · exact h.visible c call hc
    · exact h.visible x k hx
  · intro x k hx hk
    rcases World.set_calls_eq_some hx with ⟨-, rfl⟩ | ⟨hne, hx⟩
    · exact htidy hk
    · exact (h.tidy x k hx hk).touch hcall (h.visible c call hc)
        (h.separate c x call k hne.symm hc hx hlive hk)
        (fun own own' => h.inodes c x call k own own' hne.symm hc hx) htouch
  · intro x y k l hne hx hy hk hl
    rcases World.set_calls_eq_some hx with ⟨hxc, rfl⟩ | ⟨hxc, hx'⟩
    · rcases World.set_calls_eq_some hy with ⟨hyc, rfl⟩ | ⟨hyc, hy'⟩
      · exact absurd (hxc.trans hyc.symm) hne
      · exact h.separate c y call l (Ne.symm hyc) hc hy' hlive hl
    · rcases World.set_calls_eq_some hy with ⟨hyc, rfl⟩ | ⟨hyc, hy'⟩
      · exact h.separate x c k call hxc hx' hc hk hlive
      · exact h.separate x y k l hne hx' hy' hk hl
  · -- A staging file is the call's old one, or a new one that nobody else has.
    have hfresh : ∀ y l own own', y ≠ c → w.calls y = some l → stage.own = some own →
        l.stage.own = some own' → own.inode ≠ own'.inode := by
      intro y l own own' hyc hy hown hown'
      rcases honward.own own hown with hold | hnew
      · exact h.inodes c y call l own own' hyc.symm hc hy hold hown'
      · rw [hnew]
        exact (Nat.ne_of_lt ((h.tidy y l hy (Stage.live_of_own hown')).bounded own' hown')).symm
    intro x y k l own own' hne hx hy hown hown'
    rcases World.set_calls_eq_some hx with ⟨hxc, rfl⟩ | ⟨hxc, hx'⟩
    · rcases World.set_calls_eq_some hy with ⟨hyc, rfl⟩ | ⟨hyc, hy'⟩
      · exact absurd (hxc.trans hyc.symm) hne
      · exact hfresh y l own own' hyc hy' hown hown'
    · rcases World.set_calls_eq_some hy with ⟨hyc, rfl⟩ | ⟨hyc, hy'⟩
      · exact (hfresh x k own' own hxc hx' hown' hown).symm
      · exact h.inodes x y k l own own' hne hx' hy' hown hown'
  · intro n i hn hi
    rcases h.touch_published hc hlive htouch hn hi with hfirst | ⟨x, k, hx, hname, hfile⟩
    · exact .inl hfirst
    refine .inr ?_
    by_cases hxc : x = c
    · have hk : call = k := Option.some.inj (hc.symm.trans (hxc ▸ hx))
      refine ⟨c, { call with stage := stage }, ?_, hk ▸ hname, hk ▸ hfile⟩
      exact (World.set_calls _ _ _ _).trans (if_pos rfl)
    · refine ⟨x, k, ?_, hname, hfile⟩
      exact ((World.set_calls _ _ _ _).trans (if_neg hxc)).trans hx
  · intro x y k l own hx hy hwriting hl hfound
    have hold : ∀ x k, w.calls x = some k → k.stage = .writing own → False := by
      intro x k hx hwriting
      rcases World.set_calls_eq_some hy with ⟨-, rfl⟩ | ⟨-, hy'⟩
      · rcases honward.found _ hfound with hseen | hseen
        · exact h.quiet x c k call own hx hc hwriting hlive hseen
        · exact h.unwritten hx hwriting (h.visible c call hc) hseen
      · exact h.quiet x y k l own hx hy' hwriting hl hfound
    rcases World.set_calls_eq_some hx with ⟨-, rfl⟩ | ⟨-, hx'⟩
    · rcases honward.writing own hwriting with hprior | hnew
      · exact hold c call hc hprior
      · -- The file is new, and nobody can have opened it.
        refine absurd (?_ : own.inode < w.files.next) (by rw [hnew]; exact lt_irrefl _)
        rcases World.set_calls_eq_some hy with ⟨-, rfl⟩ | ⟨-, hy'⟩
        · rcases honward.found _ hfound with hseen | hseen
          · exact hcall.found _ hseen
          · exact h.numbered _ _ hseen
        · exact (h.tidy y l hy' hl).found _ hfound
    · exact hold x k hx' hwriting

end Steps

theorem World.set_self {w : World} {c : ℕ} (hc : w.calls c = some call) : w.set c call = w := by
  have hcalls : Function.update w.calls c (some call) = w.calls := by
    rw [← hc]
    exact Function.update_eq_self c w.calls
  simp only [World.set, hcalls]

theorem prepare_eq_ok {route : Route} {e : Envelope} {rendered : String}
    {prepared : String × List UInt8} (h : prepare R quote route e rendered = .ok prepared) :
    prepared = (R.fileName e.inboxItemId, R.encode route.runtimeTarget e rendered) := by
  simp only [prepare, bind_eq_ok, Except.ok.injEq] at h
  obtain ⟨_, -, _, -, _, -, _, -, h⟩ := h
  exact h.symm

theorem prepare_length {route : Route} {e : Envelope} {rendered file : String}
    {payload : List UInt8}
    (h : prepare R quote route e rendered = .ok (file, payload)) : payload.length ≤ R.maxBytes := by
  simp only [prepare, bind_eq_ok, Except.ok.injEq, failIf_eq_ok] at h
  obtain ⟨_, -, _, -, _, -, _, hlong, h⟩ := h
  obtain rfl : _ = payload := congrArg Prod.snd h
  exact Nat.not_lt.mp hlong

theorem newCall_stage (R : Publisher) (quote : String → String) (pid time seq : ℕ) (route : Route)
    (e : Envelope) (rendered : String) :
    (newCall R quote pid time seq route e rendered).stage = .look ∨
      ∃ error, (newCall R quote pid time seq route e rendered).stage = .done (.error error) := by
  unfold newCall
  split
  · exact .inl rfl
  · exact .inr ⟨_, rfl⟩

theorem newCall_file (R : Publisher) (quote : String → String) (pid time seq : ℕ) (route : Route)
    (e : Envelope) (rendered : String) :
    (newCall R quote pid time seq route e rendered).file = R.fileName e.inboxItemId := by
  unfold newCall
  split
  · rename_i file payload hprepare
    exact congrArg Prod.fst (prepare_eq_ok hprepare)
  · rfl

theorem newCall_prepared {pid time seq : ℕ} {route : Route} {e : Envelope} {rendered : String}
    (h : (newCall R quote pid time seq route e rendered).stage.live = true) :
    Prepared R quote (newCall R quote pid time seq route e rendered).file
      (newCall R quote pid time seq route e rendered).payload := by
  unfold newCall at h ⊢
  split at h
  · rename_i file payload hprepare
    exact ⟨route, e, rendered, hprepare⟩
  · cases h

/-- A new call has no staging file, and finds nothing. -/
theorem Sound.start {d₀ : Files} {w : World} {c : ℕ} (h : Sound R quote d₀ w)
    (hc : w.calls c = none)
    (hvisible : isStaging call.file = false)
    (hprepared : call.stage.live = true → Prepared R quote call.file call.payload)
    (hstage : call.stage = .look ∨ ∃ error, call.stage = .done (.error error))
    (hseparate : ∀ x k, w.calls x = some k → k.stage.live = true → Separate call k) :
    Sound R quote d₀ (w.set c call) := by
  have hown : call.stage.own = none := by
    rcases hstage with hs | ⟨error, hs⟩ <;> rw [hs] <;> rfl
  have hfound : call.stage.found = none := by
    rcases hstage with hs | ⟨error, hs⟩ <;> rw [hs] <;> rfl
  have hstaging : ∀ k, call.stage ≠ .staging k := by
    rcases hstage with hs | ⟨error, hs⟩ <;> rw [hs] <;> simp
  refine ⟨?_, h.numbered, ?_, ?_, ?_, ?_, ?_, ?_⟩
  · intro x k hx hk
    rcases World.set_calls_eq_some hx with ⟨-, rfl⟩ | ⟨-, hx'⟩
    · exact hprepared hk
    · exact h.prepared x k hx' hk
  · intro x k hx
    rcases World.set_calls_eq_some hx with ⟨-, rfl⟩ | ⟨-, hx'⟩
    · exact hvisible
    · exact h.visible x k hx'
  · intro x k hx hk
    rcases World.set_calls_eq_some hx with ⟨-, rfl⟩ | ⟨-, hx'⟩
    · have htidy : Tidy w.files { k with stage := k.stage } :=
        tidy_of_no_staged hown (fun l hl => absurd hl (hstaging l))
          (fun i hi => by simp [hfound] at hi)
      exact htidy
    · exact h.tidy x k hx' hk
  · intro x y k l hne hx hy hk hl
    rcases World.set_calls_eq_some hx with ⟨hxc, rfl⟩ | ⟨hxc, hx'⟩
    · rcases World.set_calls_eq_some hy with ⟨hyc, rfl⟩ | ⟨hyc, hy'⟩
      · exact absurd (hxc.trans hyc.symm) hne
      · exact hseparate y l hy' hl
    · rcases World.set_calls_eq_some hy with ⟨hyc, rfl⟩ | ⟨hyc, hy'⟩
      · intro hpid i j hi hj heq
        exact hseparate x k hx' hk hpid.symm j i hj hi heq.symm
      · exact h.separate x y k l hne hx' hy' hk hl
  · intro x y k l own own' hne hx hy hko hlo
    rcases World.set_calls_eq_some hx with ⟨-, rfl⟩ | ⟨-, hx'⟩
    · simp [hown] at hko
    · rcases World.set_calls_eq_some hy with ⟨-, rfl⟩ | ⟨-, hy'⟩
      · simp [hown] at hlo
      · exact h.inodes x y k l own own' hne hx' hy' hko hlo
  · intro n i hn hi
    rcases h.published n i hn hi with hfirst | ⟨x, k, hx, hfile⟩
    · exact .inl hfirst
    refine .inr ⟨x, k, ?_, hfile⟩
    rw [World.set_calls, if_neg]
    · exact hx
    · rintro rfl
      rw [hc] at hx
      cases hx
  · intro x y k l own hx hy hwriting hl hseen
    rcases World.set_calls_eq_some hy with ⟨-, rfl⟩ | ⟨-, hy'⟩
    · simp [hfound] at hseen
    · rcases World.set_calls_eq_some hx with ⟨-, rfl⟩ | ⟨-, hx'⟩
      · simp [hwriting, Stage.own] at hown
      · exact h.quiet x y k l own hx' hy' hwriting hl hseen

/-- A reader removes a published name. -/
theorem Sound.delete {d₀ : Files} {w : World} (h : Sound R quote d₀ w) {name : String}
    (hname : isStaging name = false) :
    Sound R quote d₀ { w with files := w.files.unlink name } where
  prepared := h.prepared
  numbered := h.numbered.unlink _
  visible := h.visible
  tidy c call hc hlive := by
    have htidy := h.tidy c call hc hlive
    refine htidy.frame le_rfl ?_ (fun _ _ => rfl) ?_
    · intro own hown
      rw [Directory.unlink_entry, if_neg]
      intro heq
      have hstaging := htidy.name_isStaging hown
      rw [heq, hname] at hstaging
      cases hstaging
    · intro own n hown hn
      rw [Directory.unlink_entry] at hn
      split_ifs at hn
      exact hn
  separate := h.separate
  inodes := h.inodes
  published n i hn hi := by
    rw [Directory.unlink_entry] at hi
    split_ifs at hi
    exact h.published n i hn hi
  quiet := h.quiet

theorem Onward.refl : Onward d call call.stage := ⟨fun _ => .inl, fun _ => .inl, fun _ => .inl⟩

theorem Sound.step {d₀ : Files} {w w' : World} {action : Action}
    (hR : ∀ id, isStaging (R.fileName id) = false) (h : Sound R quote d₀ w)
    (hstep : Step R quote w action w') : Sound R quote d₀ w' := by
  cases hstep with
  | start hc hseparate =>
    exact h.start hc (by rw [newCall_file]; exact hR _) newCall_prepared
      (newCall_stage _ _ _ _ _ _ _ _) hseparate
  | @advance _ call hc hlive =>
    obtain ⟨htouch, htidy⟩ := advance_tidy (R := R) (h.tidy _ call hc hlive) h.numbered
      (h.visible _ call hc) hlive
    exact h.touch hc hlive htouch (fun _ => htidy) (advance_onward R _ call)
  | @write c count call own hc hwriting =>
    have hlive := Stage.live_of_writing hwriting
    have htidy := (h.tidy _ call hc hlive).writePart hwriting
      (.regular (call.payload.take count))
    have hsound : Sound R quote d₀
      { (w.set c { call with stage := call.stage }) with files := _ } :=
      h.touch hc hlive (.write hwriting) (fun _ => htidy) .refl
    rw [World.set_self hc] at hsound
    exact hsound
  | @fault c call hc hlive =>
    exact h.touch hc hlive .same (fun _ => (h.tidy _ call hc hlive).fault) (fault_onward R _ call)
  | @kill c call hc hlive =>
    refine h.touch hc hlive .same (fun hdead => by cases hdead) ⟨?_, ?_, ?_⟩
    · exact fun own ho => by cases ho
    · exact fun i hi => by cases hi
    · exact fun own ho => by cases ho
  | delete hname => exact h.delete hname

theorem sound_start {w : World} (h : (machine R quote).start w) : Sound R quote w.files w := by
  obtain ⟨hnumbered, hcalls⟩ := h
  refine ⟨?_, hnumbered, ?_, ?_, ?_, ?_, fun n i _ hi => .inl ⟨hi, rfl⟩, ?_⟩ <;> simp [hcalls]

theorem run_sound (hR : ∀ id, isStaging (R.fileName id) = false) {w₀ w : World}
    {labels : List Action}
    (hstart : (machine R quote).start w₀) (hrun : (machine R quote).Run w₀ labels w) :
    Sound R quote w₀.files w :=
  Machine.Later.stable (fun _ _ _ _ hs hstep => hs.step hR hstep) (.of_start hstart) ⟨labels, hrun⟩
    (sound_start hstart)

theorem reachable_sound (hR : ∀ id, isStaging (R.fileName id) = false) {w : World}
    (h : (machine R quote).Reachable w) : ∃ d₀, Sound R quote d₀ w := by
  obtain ⟨w₀, hstart, labels, hrun⟩ := h
  exact ⟨w₀.files, run_sound hR hstart hrun⟩

end AgentJournal.Runtime
