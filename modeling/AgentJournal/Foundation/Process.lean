import AgentJournal.Foundation.Machine
import Mathlib.Data.Nat.Notation
import Mathlib.Logic.Function.Basic

/-! # Processes that share a state

A process asks for one operation after another and goes on with each reply. `Safe` is what a
process keeps to, step by step, while its surroundings do only what it relies on; a pool of
processes that rely on each other's promises keeps to all of them.
-/

namespace AgentJournal.Foundation

/-- A program over operations whose replies may be errors. -/
inductive Process {ω : Type} (ρ : ω → Type) (ε α : Type) where
  | done (a : α)
  | fail (e : ε)
  | call (op : ω) (next : Except ε (ρ op) → Process ρ ε α)

namespace Process
variable {ω : Type} {ρ : ω → Type} {ε α β : Type}

def bind : Process ρ ε α → (α → Process ρ ε β) → Process ρ ε β
  | done a, f => f a
  | fail e, _ => fail e
  | call op next, f => call op fun reply => (next reply).bind f

instance : Monad (Process ρ ε) where
  pure := done
  bind := bind

/-- One operation, whose error ends the program. -/
def perform (op : ω) : Process ρ ε (ρ op) :=
  call op fun
    | .ok a => done a
    | .error e => fail e

/-- A program whose error is a result. -/
def attempt : Process ρ ε α → Process ρ ε (Except ε α)
  | done a => done (.ok a)
  | fail e => done (.error e)
  | call op next => call op fun reply => (next reply).attempt

def ofExcept : Except ε α → Process ρ ε α
  | .ok a => done a
  | .error e => fail e

def require (condition : Prop) [Decidable condition] (e : ε) : Process ρ ε Unit :=
  if condition then done () else fail e

/-- The operation that the process asks for next. -/
def head : Process ρ ε α → Option ω
  | call op _ => some op
  | _ => none

end Process

/-- The terms on which one process works: what operations do, what the others may do while an
operation is next, what holds then, and what the operation may do. -/
structure Terms {ω : Type} (ρ : ω → Type) (ε σ : Type) where
  exec : (op : ω) → σ → Except ε (ρ op) → σ → Prop
  rely : ω → σ → σ → Prop
  here : ω → σ → Prop
  good : ω → σ → σ → Prop

namespace Process
variable {ω : Type} {ρ : ω → Type} {ε σ α β : Type} {T : Terms ρ ε σ}

/-- Whatever the others do, every operation of the process keeps to the terms, and the
postcondition holds of the result. -/
def Safe (T : Terms ρ ε σ) : Process ρ ε α → (Except ε α → σ → Prop) → σ → Prop
  | done a, Q, x => Q (.ok a) x
  | fail e, Q, x => Q (.error e) x
  | call op next, Q, x => ∀ y, T.rely op x y → T.here op y ∧
      ∀ reply z, T.exec op y reply z → T.good op y z ∧ (next reply).Safe T Q z

/-- A postcondition for the end of the first of two programs. -/
def andThen (Q : Except ε β → σ → Prop) (P : α → σ → Prop) : Except ε α → σ → Prop
  | .ok a, x => P a x
  | .error e, x => Q (.error e) x

variable {p : Process ρ ε α} {f : α → Process ρ ε β} {Q Q' : Except ε α → σ → Prop} {x : σ}

theorem Safe.mono (h : p.Safe T Q x) (hQ : ∀ r y, Q r y → Q' r y) : p.Safe T Q' x := by
  induction p generalizing x with
  | done a => exact hQ _ _ h
  | fail e => exact hQ _ _ h
  | call op next ih =>
    intro y hy
    obtain ⟨hhere, hnext⟩ := h y hy
    refine ⟨hhere, fun reply z hz => ?_⟩
    obtain ⟨hgood, hsafe⟩ := hnext reply z hz
    exact ⟨hgood, ih reply hsafe⟩

theorem safe_bind {Q : Except ε β → σ → Prop} :
    (p.bind f).Safe T Q x ↔ p.Safe T (andThen Q fun a => (f a).Safe T Q) x := by
  induction p generalizing x with
  | done a => rfl
  | fail e => rfl
  | call op next ih => simp only [bind, Safe, ih]

theorem safe_attempt {Q : Except ε (Except ε α) → σ → Prop} :
    p.attempt.Safe T Q x ↔ p.Safe T (fun r => Q (.ok r)) x := by
  induction p generalizing x with
  | done a => rfl
  | fail e => rfl
  | call op next ih => simp only [attempt, Safe, ih]

theorem safe_perform {op : ω} {Q : Except ε (ρ op) → σ → Prop} :
    (perform op : Process ρ ε (ρ op)).Safe T Q x ↔ ∀ y, T.rely op x y → T.here op y ∧
      ∀ reply z, T.exec op y reply z → T.good op y z ∧ Q reply z := by
  simp only [perform, Safe]
  refine forall₂_congr fun y hy => and_congr_right fun _ => forall₃_congr fun reply z hz => ?_
  cases reply <;> rfl

theorem safe_ofExcept {a : Except ε α} : (ofExcept a : Process ρ ε α).Safe T Q x ↔ Q a x := by
  cases a <;> rfl

theorem safe_require {condition : Prop} [Decidable condition] {e : ε}
    {Q : Except ε Unit → σ → Prop} : (require condition e : Process ρ ε Unit).Safe T Q x ↔
      (condition → Q (.ok ()) x) ∧ (¬ condition → Q (.error e) x) := by
  unfold require
  split
  · rename_i h
    exact ⟨fun hQ => ⟨fun _ => hQ, fun hn => absurd h hn⟩, fun hQ => hQ.1 h⟩
  · rename_i h
    exact ⟨fun hQ => ⟨fun hc => absurd hc h, fun _ => hQ⟩, fun hQ => hQ.2 h⟩

/-- What a program comes to when it runs alone. -/
def run (exec : (op : ω) → σ → Except ε (ρ op) × σ) : Process ρ ε α → σ → Except ε α × σ
  | done a, x => (.ok a, x)
  | fail e, x => (.error e, x)
  | call op next, x => (next (exec op x).1).run exec (exec op x).2

/-- A program that keeps to its terms ends as they say. -/
theorem Safe.run {exec : (op : ω) → σ → Except ε (ρ op) × σ} (h : p.Safe T Q x)
    (hrely : ∀ op y, T.rely op y y) (hexec : ∀ op y, T.exec op y (exec op y).1 (exec op y).2) :
    Q (p.run exec x).1 (p.run exec x).2 := by
  induction p generalizing x with
  | done a => exact h
  | fail e => exact h
  | call op next ih => exact ih _ ((h x (hrely op x)).2 _ _ (hexec op x)).2

end Process

/-- Processes over a shared state; one that is over or dead has left. -/
structure Pool {ω : Type} (ρ : ω → Type) (ε σ : Type) where
  state : σ
  process : ℕ → Option (Process ρ ε Unit)

namespace Pool
variable {ω : Type} {ρ : ω → Type} {ε σ ι : Type}

/-- What a process does next, if it is there. -/
def head (w : Pool ρ ε σ) (s : ℕ) : Option ω := (w.process s).bind Process.head

def put (w : Pool ρ ε σ) (s : ℕ) (p : Option (Process ρ ε Unit)) (x : σ) : Pool ρ ε σ :=
  ⟨x, Function.update w.process s p⟩

theorem put_process (w : Pool ρ ε σ) (s t : ℕ) (p : Option (Process ρ ε Unit)) (x : σ) :
    (w.put s p x).process t = if t = s then p else w.process t := Function.update_apply _ _ _ _

end Pool

/-- A system of processes: its programs, what their operations do, how a process leaves the
state when it exits or dies, and what others may do while these operations are next. -/
structure System {ω : Type} (ρ : ω → Type) (ε σ ι : Type) where
  main : ℕ → Process ρ ε Unit
  exec : ℕ → (op : ω) → σ → Except ε (ρ op) → σ → Prop
  exit : ℕ → Option ω → σ → σ → Prop
  outside : ι → (ℕ → Option ω) → σ → σ → Prop

namespace System
variable {ω : Type} {ρ : ω → Type} {ε σ ι : Type}

inductive Label (ι : Type) where
  | start (s : ℕ)
  | op (s : ℕ)
  | exit (s : ℕ)
  | outside (i : ι)

inductive Step (S : System ρ ε σ ι) : Pool ρ ε σ → Label ι → Pool ρ ε σ → Prop
  | start {w : Pool ρ ε σ} {s : ℕ} : w.process s = none →
      Step S w (.start s) (w.put s (some (S.main s)) w.state)
  | op {w : Pool ρ ε σ} {s : ℕ} {op : ω} {next : Except ε (ρ op) → Process ρ ε Unit}
      {reply : Except ε (ρ op)} {y : σ} : w.process s = some (.call op next) →
      S.exec s op w.state reply y → Step S w (.op s) (w.put s (some (next reply)) y)
  | exit {w : Pool ρ ε σ} {s : ℕ} {p : Process ρ ε Unit} {y : σ} : w.process s = some p →
      S.exit s p.head w.state y → Step S w (.exit s) (w.put s none y)
  | outside {w : Pool ρ ε σ} {i : ι} {y : σ} : S.outside i w.head w.state y →
      Step S w (.outside i) ⟨y, w.process⟩

def machine (S : System ρ ε σ ι) (start : σ → Prop) : Machine (Pool ρ ε σ) (Label ι) where
  start w := start w.state ∧ ∀ s, w.process s = none
  step := S.Step

/-- The terms of every process fit together: each may rely on what the others do. -/
structure Fits (S : System ρ ε σ ι) (T : ℕ → Terms ρ ε σ) (I : σ → Prop) : Prop where
  refl : ∀ s op x, (T s).rely op x x
  trans : ∀ s op x y z, (T s).rely op x y → (T s).rely op y z → (T s).rely op x z
  exec : ∀ s op x reply y, S.exec s op x reply y → (T s).exec op x reply y
  main : ∀ s x, I x → (S.main s).Safe (T s) (fun _ _ => True) x
  good : ∀ s op x y, I x → (T s).good op x y → I y ∧ ∀ t, t ≠ s → ∀ op', (T t).rely op' x y
  exit : ∀ s op x y, I x → (∀ o, op = some o → (T s).here o x) → S.exit s op x y →
    I y ∧ ∀ t, t ≠ s → ∀ op', (T t).rely op' x y
  outside : ∀ i heads x y, I x → S.outside i heads x y →
    I y ∧ ∀ t op, heads t = some op → (T t).rely op x y

/-- The invariant of a pool: every process that has something to do keeps to its terms. -/
def Sound (T : ℕ → Terms ρ ε σ) (I : σ → Prop) (w : Pool ρ ε σ) : Prop :=
  I w.state ∧ ∀ s op next, w.process s = some (.call op next) →
    (Process.call op next).Safe (T s) (fun _ _ => True) w.state

variable {S : System ρ ε σ ι} {T : ℕ → Terms ρ ε σ} {I : σ → Prop} {w w' : Pool ρ ε σ}

/-- A process that waits keeps to its terms when the others do what it relies on. -/
theorem safe_rely {s : ℕ} {op : ω} {next : Except ε (ρ op) → Process ρ ε Unit}
    {Q : Except ε Unit → σ → Prop} {x y : σ} (hT : Fits S T I)
    (h : (Process.call op next).Safe (T s) Q x) (hy : (T s).rely op x y) :
    (Process.call op next).Safe (T s) Q y := by
  intro z hz
  exact h z (hT.trans s op x y z hy hz)

theorem Sound.here (hT : Fits S T I) (h : Sound T I w) {s : ℕ} {op : ω} (hs : w.head s = some op) :
    (T s).here op w.state := by
  unfold Pool.head at hs
  cases hp : w.process s with
  | none => simp [hp] at hs
  | some p =>
    cases p with
    | call o next =>
      obtain rfl : o = op := by simpa [hp, Process.head] using hs
      exact (h.2 s o next hp w.state (hT.refl _ _ _)).1
    | _ => simp [hp, Process.head] at hs

theorem Sound.good (hT : Fits S T I) (h : Sound T I w) {s : ℕ} {op : ω}
    {next : Except ε (ρ op) → Process ρ ε Unit} {reply : Except ε (ρ op)} {y : σ}
    (hs : w.process s = some (.call op next)) (hexec : S.exec s op w.state reply y) :
    (T s).good op w.state y ∧ (next reply).Safe (T s) (fun _ _ => True) y :=
  (h.2 s op next hs w.state (hT.refl _ _ _)).2 reply y (hT.exec s op _ reply y hexec)

theorem Sound.step (hT : Fits S T I) (h : Sound T I w) {label : Label ι}
    (hstep : S.Step w label w') : Sound T I w' := by
  obtain ⟨hI, hsafe⟩ := h
  -- The processes other than the one that moved rely on what it did.
  have hothers : ∀ s (p : Option (Process ρ ε Unit)) y, I y →
      (∀ t, t ≠ s → ∀ op, (T t).rely op w.state y) →
      (∀ q, p = some q → q.Safe (T s) (fun _ _ => True) y) → Sound T I (w.put s p y) := by
    intro s p y hIy hrely hp
    refine ⟨hIy, fun t op next ht => ?_⟩
    rw [Pool.put_process] at ht
    by_cases hts : t = s
    · rw [if_pos hts] at ht
      rw [hts]
      exact hp _ ht
    · rw [if_neg hts] at ht
      exact safe_rely hT (hsafe t op next ht) (hrely t hts op)
  cases hstep with
  | @start s hs =>
    refine hothers s _ w.state hI (fun t _ op => hT.refl t op _) ?_
    rintro q ⟨⟩
    exact hT.main s w.state hI
  | @op s op next reply y hs hexec =>
    obtain ⟨hgood, hnext⟩ := Sound.good hT ⟨hI, hsafe⟩ hs hexec
    obtain ⟨hIy, hrely⟩ := hT.good s op _ _ hI hgood
    refine hothers s _ y hIy hrely ?_
    rintro q ⟨⟩
    exact hnext
  | @exit s p y hs hexit =>
    have hhere : ∀ o, p.head = some o → (T s).here o w.state := fun o ho =>
      Sound.here hT ⟨hI, hsafe⟩ (by rw [Pool.head, hs, Option.bind_some, ho])
    obtain ⟨hIy, hrely⟩ := hT.exit s p.head _ _ hI hhere hexit
    exact hothers s none y hIy hrely (by simp)
  | @outside i y houtside =>
    obtain ⟨hIy, hrely⟩ := hT.outside i w.head _ _ hI houtside
    refine ⟨hIy, fun t op next ht => ?_⟩
    have hhead : w.head t = some op := by rw [Pool.head, ht]; rfl
    exact safe_rely hT (hsafe t op next ht) (hrely t op hhead)

theorem reachable_sound (hT : Fits S T I) {start : σ → Prop} (hstart : ∀ x, start x → I x)
    (h : (S.machine start).Reachable w) : Sound T I w := by
  refine h.invariant ?_ fun _ _ _ hs => hs.step hT
  rintro v ⟨hv, hnone⟩
  refine ⟨hstart _ hv, fun s op next hs => ?_⟩
  rw [hnone s] at hs
  cases hs

end System
end AgentJournal.Foundation
