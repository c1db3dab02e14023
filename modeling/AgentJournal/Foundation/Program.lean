import AgentJournal.Foundation.Result
import Mathlib.Data.List.Forall2
import Mathlib.Data.Nat.Notation

/-! # Stateful computations that may fail

An invariant rule for computations, and the counted sequence of writes a computation makes:
a computation that counts no write leaves its state as it was.
-/

namespace AgentJournal.Foundation
variable {σ ε α β : Type}

theorem run_bind_eq_ok {x : StateT σ (Except ε) α} {f : α → StateT σ (Except ε) β} {s u : σ}
    {b : β} :
    (x >>= f).run s = .ok (b, u) ↔
      ∃ a t, x.run s = .ok (a, t) ∧ (f a).run t = .ok (b, u) := by
  simp [StateT.run_bind]

theorem run_pure_eq_ok {s t : σ} {a b : α} :
    (pure a : StateT σ (Except ε) α).run s = .ok (b, t) ↔ a = b ∧ s = t := by
  simp [StateT.run_pure]

theorem run_bind_of_ok {x : StateT σ (Except ε) α} {f : α → StateT σ (Except ε) β} {s t : σ} {a : α}
    (h : x.run s = .ok (a, t)) : (x >>= f).run s = (f a).run t := by
  rw [StateT.run_bind, h]
  rfl

theorem run_bind_of_error {x : StateT σ (Except ε) α} {f : α → StateT σ (Except ε) β} {s : σ}
    {e : ε}
    (h : x.run s = .error e) : (x >>= f).run s = .error e := by
  rw [StateT.run_bind, h]
  rfl

/-- What holds before the computation holds after it, when it succeeds. -/
def Keeps (I : σ → Prop) (x : StateT σ (Except ε) α) : Prop :=
  ∀ s a t, I s → x.run s = .ok (a, t) → I t

namespace Keeps
variable {I : σ → Prop}

theorem pure (a : α) : Keeps (ε := ε) I (Pure.pure a) := by
  intro s b t hI hrun
  obtain ⟨-, rfl⟩ := run_pure_eq_ok.mp hrun
  exact hI

theorem bind {x : StateT σ (Except ε) α} {f : α → StateT σ (Except ε) β} (hx : Keeps I x)
    (hf : ∀ a, Keeps I (f a)) : Keeps I (x >>= f) := by
  intro s b u hI hrun
  obtain ⟨a, t, ha, hb⟩ := run_bind_eq_ok.mp hrun
  exact hf a t b u (hx s a t hI ha) hb

/-- As `bind`, where the second step may rely on what the first returned. -/
theorem bind_ok {x : StateT σ (Except ε) α} {f : α → StateT σ (Except ε) β} (hx : Keeps I x)
    (hf : ∀ s a t, x.run s = .ok (a, t) → Keeps I (f a)) : Keeps I (x >>= f) := by
  intro s b u hI hrun
  obtain ⟨a, t, ha, hb⟩ := run_bind_eq_ok.mp hrun
  exact hf s a t ha t b u (hx s a t hI ha) hb

/-- Two steps that keep the invariant together, though the first alone may not. -/
theorem bind_bind {γ : Type} {x : StateT σ (Except ε) α} {y : α → StateT σ (Except ε) β}
    {f : α → β → StateT σ (Except ε) γ}
    (hxy : ∀ s a t b u, I s → x.run s = .ok (a, t) → (y a).run t = .ok (b, u) → I u)
    (hf : ∀ a b, Keeps I (f a b)) : Keeps I (x >>= fun a => y a >>= f a) := by
  intro s g v hI hrun
  obtain ⟨a, t, ha, hrest⟩ := run_bind_eq_ok.mp hrun
  obtain ⟨b, u, hb, hg⟩ := run_bind_eq_ok.mp hrest
  exact hf a b u g v (hxy s a t b u hI ha hb) hg

/-- A computation that never changes the state. -/
theorem of_reads {x : StateT σ (Except ε) α} (hx : ∀ s a t, x.run s = .ok (a, t) → t = s) :
    Keeps I x := by
  intro s a t hI hrun
  obtain rfl := hx s a t hrun
  exact hI

/-- A loop keeps what each of its rounds keeps. -/
theorem forM {x : β → StateT σ (Except ε) PUnit} (hx : ∀ b, Keeps I (x b)) :
    ∀ l : List β, Keeps I (l.forM x)
  | [] => pure _
  | b :: l => (hx b).bind fun _ => forM hx l

theorem mapM {x : β → StateT σ (Except ε) α} (hx : ∀ b, Keeps I (x b)) :
    ∀ l : List β, Keeps I (l.mapM x)
  | [] => by
    rw [List.mapM_nil]
    exact pure _
  | b :: l => by
    rw [List.mapM_cons]
    exact (hx b).bind fun _ => (mapM hx l).bind fun _ => pure _

end Keeps

/-- Whatever error the computation ends in from this state is one of these. -/
def Fails (E : ε → Prop) (x : StateT σ (Except ε) α) (s : σ) : Prop := ∀ e, x.run s = .error e → E e

namespace Fails
variable {E : ε → Prop} {s : σ}

theorem pure (a : α) : Fails E (Pure.pure a) s := by
  intro e h
  rw [StateT.run_pure] at h
  cases h

/-- The second step may rely on what the first returned. -/
theorem bind {x : StateT σ (Except ε) α} {f : α → StateT σ (Except ε) β} (hx : Fails E x s)
    (hf : ∀ a t, x.run s = .ok (a, t) → Fails E (f a) t) : Fails E (x >>= f) s := by
  intro e h
  cases hrun : x.run s with
  | error e' =>
    rw [run_bind_of_error hrun] at h
    cases h
    exact hx e hrun
  | ok p =>
    rw [run_bind_of_ok hrun] at h
    exact hf p.1 p.2 hrun e h

/-- A loop whose rounds go from one invariant of what is left to the next. -/
theorem forM {I : List β → σ → Prop} {x : β → StateT σ (Except ε) PUnit}
    (hx : ∀ b l s, I (b :: l) s → Fails E (x b) s)
    (hI : ∀ b l s u t, I (b :: l) s → (x b).run s = .ok (u, t) → I l t) :
    ∀ (l : List β) {s : σ}, I l s → Fails E (l.forM x) s
  | [], _, _ => pure _
  | b :: l, s, h => (hx b l s h).bind fun u t hrun => forM hx hI l (hI b l s u t h hrun)

/-- A loop over rounds that leave the state as it is. -/
theorem mapM {x : β → StateT σ (Except ε) α} (hx : ∀ b, Fails E (x b) s)
    (hread : ∀ b a t, (x b).run s = .ok (a, t) → t = s) : ∀ l : List β, Fails E (l.mapM x) s
  | [] => by
    rw [List.mapM_nil]
    exact pure _
  | b :: l => by
    rw [List.mapM_cons]
    refine (hx b).bind fun a t hrun => ?_
    rw [hread b a t hrun]
    exact (mapM hx hread l).bind fun _ _ _ => pure _

end Fails

/-- What every round keeps, a loop that comes to its end keeps. -/
theorem forM_invariant {I : List β → σ → Prop} {x : β → StateT σ (Except ε) PUnit}
    (hI : ∀ b l s u t, I (b :: l) s → (x b).run s = .ok (u, t) → I l t) :
    ∀ (l : List β) {s t : σ} {u : PUnit}, I l s → (l.forM x).run s = .ok (u, t) → I [] t
  | [], s, t, u, h, hrun => by
    obtain ⟨-, rfl⟩ := run_pure_eq_ok.mp hrun
    exact h
  | b :: l, s, t, u, h, hrun => by
    obtain ⟨v, r, hb, hl⟩ := run_bind_eq_ok.mp hrun
    exact forM_invariant hI l (hI b l s v r h hb) hl

/-- The rounds of a loop, one after the other. -/
inductive Rounds {τ : Type} (R : β → τ → τ → Prop) : List β → τ → τ → Prop
  | nil {a : τ} : Rounds R [] a a
  | cons {b : β} {l : List β} {x y z : τ} : R b x y → Rounds R l y z → Rounds R (b :: l) x z

/-- A loop whose rounds each relate a part of the state. -/
theorem forM_rounds {τ : Type} {R : β → τ → τ → Prop} {v : σ → τ}
    {x : β → StateT σ (Except ε) PUnit}
    (hx : ∀ b s u t, (x b).run s = .ok (u, t) → R b (v s) (v t)) :
    ∀ (l : List β) {s t : σ} {u : PUnit}, (l.forM x).run s = .ok (u, t) →
      Rounds R l (v s) (v t)
  | [], s, t, u, h => by
    obtain ⟨-, rfl⟩ := run_pure_eq_ok.mp h
    exact .nil
  | b :: l, s, t, u, h => by
    obtain ⟨_, r, hb, hl⟩ := run_bind_eq_ok.mp h
    exact .cons (hx b s _ r hb) (forM_rounds hx l hl)

/-- What every round keeps, the loop keeps. -/
theorem Rounds.invariant {τ : Type} {R : β → τ → τ → Prop} {I : τ → Prop} {l : List β} {x y : τ}
    (hR : ∀ b x y, I x → R b x y → I y) (h : Rounds R l x y) (hI : I x) : I y := by
  induction h with
  | nil => exact hI
  | cons hb _ ih => exact ih (hR _ _ _ hI hb)

/-- A loop that reads the state and returns one result for each of its inputs. -/
theorem mapM_reads {R : σ → β → α → Prop} {x : β → StateT σ (Except ε) α}
    (hx : ∀ b s a t, (x b).run s = .ok (a, t) → t = s ∧ R s b a) :
    ∀ (l : List β) {s t : σ} {results : List α}, (l.mapM x).run s = .ok (results, t) →
      t = s ∧ List.Forall₂ (R s) l results
  | [], s, t, results, h => by
    rw [List.mapM_nil] at h
    obtain ⟨rfl, rfl⟩ := run_pure_eq_ok.mp h
    exact ⟨rfl, .nil⟩
  | b :: l, s, t, results, h => by
    rw [List.mapM_cons] at h
    obtain ⟨a, r, hb, h⟩ := run_bind_eq_ok.mp h
    obtain ⟨rest, u, hl, h⟩ := run_bind_eq_ok.mp h
    obtain ⟨rfl, rfl⟩ := run_pure_eq_ok.mp h
    obtain ⟨rfl, ha⟩ := hx b s a r hb
    obtain ⟨rfl, hrest⟩ := mapM_reads hx l hl
    exact ⟨rfl, .cons ha hrest⟩

/-- A loop whose every iteration reads. -/
theorem mapM_succeeds {x : β → StateT σ (Except ε) α} {s : σ} :
    ∀ l : List β, (∀ b ∈ l, ∃ a, (x b).run s = .ok (a, s)) →
      ∃ results, (l.mapM x).run s = .ok (results, s)
  | [], _ => ⟨[], by rw [List.mapM_nil]; exact run_pure_eq_ok.mpr ⟨rfl, rfl⟩⟩
  | b :: l, h => by
    obtain ⟨a, ha⟩ := h b List.mem_cons_self
    obtain ⟨rest, hrest⟩ := mapM_succeeds l fun b hb => h b (List.mem_cons_of_mem _ hb)
    refine ⟨a :: rest, ?_⟩
    rw [List.mapM_cons]
    exact run_bind_eq_ok.mpr
      ⟨a, s, ha, run_bind_eq_ok.mpr ⟨rest, s, hrest, run_pure_eq_ok.mpr ⟨rfl, rfl⟩⟩⟩

/-- A sequence of writes, each of which counts at least one changed row. -/
inductive Effects (W : σ → σ → Prop) (s : σ) : ℕ → σ → Prop
  | none : Effects W s 0 s
  | write {t u : σ} {n : ℕ} (k : ℕ) : Effects W s n t → W t u → Effects W s (n + (k + 1)) u

namespace Effects
variable {W : σ → σ → Prop} {s t : σ} {n : ℕ}

/-- Nothing counted, nothing changed. -/
theorem eq_of_zero (h : Effects W s 0 t) : t = s := by
  generalize hn : 0 = n at h
  cases h with
  | none => rfl
  | write k _ _ => omega

theorem mono {V : σ → σ → Prop} (hVW : ∀ t u, V t u → W t u) (h : Effects V s n t) :
    Effects W s n t := by
  induction h with
  | none => exact .none
  | write k _ hw ih => exact .write k ih (hVW _ _ hw)

/-- What every write keeps, the sequence keeps. -/
theorem invariant {I : σ → Prop} (hW : ∀ t u, I t → W t u → I u) (h : Effects W s n t)
    (hI : I s) : I t := by
  induction h with
  | none => exact hI
  | write k _ hw ih => exact hW _ _ ih hw

end Effects
end AgentJournal.Foundation
