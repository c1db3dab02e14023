import Mathlib.Data.Nat.Notation
import Mathlib.Logic.Function.Basic
import Mathlib.Tactic.SplitIfs

/-! # Directories

Names refer to numbered files, and several names may refer to one file. Each operation is one
step of a file system; a number is given out once.
-/

namespace AgentJournal.Foundation

structure Directory (ν κ : Type*) where
  entry : ν → Option ℕ
  file : ℕ → κ
  next : ℕ

namespace Directory
variable {ν κ : Type*} [DecidableEq ν]

/-- The content under a name. -/
def read (d : Directory ν κ) (n : ν) : Option κ := (d.entry n).map d.file

/-- A new file under a name that is free. -/
def create (d : Directory ν κ) (n : ν) (c : κ) : Directory ν κ where
  entry := Function.update d.entry n (some d.next)
  file := Function.update d.file d.next c
  next := d.next + 1

def write (d : Directory ν κ) (i : ℕ) (c : κ) : Directory ν κ :=
  { d with file := Function.update d.file i c }

/-- One more name of a file. -/
def link (d : Directory ν κ) (i : ℕ) (n : ν) : Directory ν κ :=
  { d with entry := Function.update d.entry n (some i) }

def unlink (d : Directory ν κ) (n : ν) : Directory ν κ :=
  { d with entry := Function.update d.entry n none }

/-- The second name refers to the first one's file, and the first is free. -/
def rename (d : Directory ν κ) (old new : ν) : Directory ν κ :=
  { d with entry := Function.update (Function.update d.entry new (d.entry old)) old none }

/-- Every name refers to a number that was given out. -/
def Numbered (d : Directory ν κ) : Prop := ∀ n i, d.entry n = some i → i < d.next

variable (d : Directory ν κ) (n m : ν) (i j : ℕ) (c : κ)

@[simp] theorem create_entry : (d.create n c).entry m = if m = n then some d.next else d.entry m :=
  Function.update_apply _ _ _ _

@[simp] theorem create_file : (d.create n c).file j = if j = d.next then c else d.file j :=
  Function.update_apply _ _ _ _

omit [DecidableEq ν] in
@[simp] theorem write_entry : (d.write i c).entry = d.entry := rfl

omit [DecidableEq ν] in
@[simp] theorem write_file : (d.write i c).file j = if j = i then c else d.file j :=
  Function.update_apply _ _ _ _

@[simp] theorem link_entry : (d.link i n).entry m = if m = n then some i else d.entry m :=
  Function.update_apply _ _ _ _

@[simp] theorem link_file : (d.link i n).file = d.file := rfl

@[simp] theorem unlink_entry : (d.unlink n).entry m = if m = n then none else d.entry m :=
  Function.update_apply _ _ _ _

@[simp] theorem unlink_file : (d.unlink n).file = d.file := rfl

variable {d}

theorem Numbered.create (h : d.Numbered) : (d.create n c).Numbered := by
  intro m i hm
  rw [create_entry] at hm
  split_ifs at hm
  · obtain rfl := Option.some.inj hm
    exact Nat.lt_succ_self _
  · exact Nat.lt_succ_of_lt (h m i hm)

omit [DecidableEq ν] in
theorem Numbered.write (h : d.Numbered) : (d.write i c).Numbered := h

theorem Numbered.link {i : ℕ} (h : d.Numbered) (hi : i < d.next) : (d.link i n).Numbered := by
  intro m j hm
  rw [link_entry] at hm
  split_ifs at hm
  · obtain rfl := Option.some.inj hm
    exact hi
  · exact h m j hm

theorem Numbered.unlink (h : d.Numbered) : (d.unlink n).Numbered := by
  intro m j hm
  rw [unlink_entry] at hm
  split_ifs at hm
  exact h m j hm

end Directory
end AgentJournal.Foundation
