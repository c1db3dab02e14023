import Mathlib.Data.List.Basic
import Mathlib.Data.Nat.Notation

/-! # Maximal tokens

A lexer reads the longest token it can from every position. A token is read on from state to state,
and ends where its state does not go on. What follows it matters by its first symbol alone.
-/

namespace AgentJournal.Foundation
variable {α σ : Type}

/-- A state for the first symbol of a token, and how a token goes on. -/
structure Lexer (α σ : Type) where
  start : α → σ
  next : σ → α → Option σ

namespace Lexer
variable (L : Lexer α σ)

/-- Read on from a state: what is read, the last state and the rest. -/
def munch (q : σ) : List α → List α × σ × List α
  | [] => ([], q, [])
  | a :: as =>
    match L.next q a with
    | some r =>
      let x := munch r as
      (a :: x.1, x.2.1, x.2.2)
    | none => ([], q, a :: as)

def tokensWithin : ℕ → List α → List (σ × List α)
  | 0, _ => []
  | _, [] => []
  | n + 1, a :: as =>
    let x := L.munch (L.start a) as
    (x.2.1, a :: x.1) :: tokensWithin n x.2.2

/-- The tokens of a text, each with its last state. -/
def tokens (as : List α) : List (σ × List α) := L.tokensWithin as.length as

/-- The symbols lead from one state to another. -/
inductive Reads : σ → List α → σ → Prop
  | nil (q : σ) : Reads q [] q
  | cons {q r f : σ} {a : α} {t : List α} : L.next q a = some r → Reads r t f → Reads q (a :: t) f

/-- A state does not go on with what follows. -/
def Stops (q : σ) (rest : List α) : Prop := ∀ a ∈ rest.head?, L.next q a = none

variable {L} {q f : σ} {a : α} {t rest : List α}

theorem stops_nil : L.Stops q [] := by
  intro a ha
  cases ha

theorem stops_cons : L.Stops q (a :: rest) ↔ L.next q a = none := by
  constructor
  · intro h
    exact h a rfl
  · intro h b hb
    rwa [← Option.some.inj hb]

theorem munch_spec (q : σ) (as : List α) : as = (L.munch q as).1 ++ (L.munch q as).2.2 ∧
    L.Reads q (L.munch q as).1 (L.munch q as).2.1 ∧
    L.Stops (L.munch q as).2.1 (L.munch q as).2.2 := by
  induction as generalizing q with
  | nil => exact ⟨rfl, .nil q, stops_nil⟩
  | cons a as ih =>
    cases hnext : L.next q a with
    | none =>
      simp only [munch, hnext]
      exact ⟨rfl, .nil q, stops_cons.mpr hnext⟩
    | some r =>
      obtain ⟨happend, hreads, hstops⟩ := ih r
      simp only [munch, hnext]
      exact ⟨congrArg (a :: ·) happend, .cons hnext hreads, hstops⟩

/-- Induction over the tokens of a text. -/
theorem induction {motive : List α → Prop} (nil : motive [])
    (token : ∀ a t f rest, L.Reads (L.start a) t f → L.Stops f rest → motive rest →
      motive (a :: t ++ rest))
    (as : List α) : motive as := by
  induction hn : as.length using Nat.strongRecOn generalizing as with
  | ind n ih =>
    subst hn
    cases as with
    | nil => exact nil
    | cons a as =>
      obtain ⟨happend, hreads, hstops⟩ := L.munch_spec (L.start a) as
      generalize L.munch (L.start a) as = x at happend hreads hstops
      obtain ⟨t, f, rest⟩ := x
      subst happend
      have hshort : rest.length < (a :: t ++ rest).length := by
        rw [List.length_append, List.length_cons]
        omega
      exact token a t f rest hreads hstops (ih rest.length hshort rest rfl)

end Lexer

end AgentJournal.Foundation
