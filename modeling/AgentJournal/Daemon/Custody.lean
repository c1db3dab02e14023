import AgentJournal.Daemon.Procedures

/-! # Administrative socket ownership

What holds of every run of any number of servers, deaths and others: one server has the owner
lock, only recorded sockets are unlinked, and what others made stays.
-/

namespace AgentJournal.Daemon
open Foundation

/-- The marker names this file as a server's socket, under the lock that this server holds. -/
def Recorded (c : Config) (s i : ℕ) (x : Site) : Prop :=
  (x.files.file i).kind = .socket ∧ (x.files.file i).maker.isSome ∧
    ∃ l m state, x.files.entry c.lockName = some l ∧ x.holder l = some s ∧
      x.files.entry c.markerPath = some m ∧ parseMarker (x.files.file m).text = .ok state ∧
      state.recorded = some (c.identity l, c.identity i)

/-- A step of a server, not of anybody else. -/
def isServerStep : System.Label Foreign → Prop
  | .outside _ => False
  | _ => True

/-- The promises of the socket protocol, where others keep away from what an operation guards. -/
structure Owned (c : Config) (guards : Op → Name → Bool) : Prop where
  /-- At most one server holds the owner lock, -/
  exclusive : ∀ w i j s t, ((system c guards).machine Site.fresh).Reachable w →
    w.state.holder i = some s → w.state.holder j = some t → s = t ∧ i = j
  /-- and whoever publishes or serves the final path holds it. -/
  publisher : ∀ w s op, ((system c guards).machine Site.fresh).Reachable w → w.head s = some op →
    op = .serve ∨ (∃ old, op = .link old c.final) → ∃ i, w.state.holder i = some s
  /-- A server takes away only the name of a recorded socket. -/
  unlinked : ∀ w label w' n i, ((system c guards).machine Site.fresh).Reachable w →
    ((system c guards).machine Site.fresh).step w label w' → isServerStep label →
    w.state.files.entry n = some i → w'.state.files.entry n = some i ∨
      ∃ s, label = .op s ∧ w.head s = some (.unlink n) ∧ Recorded c s i w.state
  /-- No server removes or overwrites what no server made. -/
  foreign : ∀ w label w' n i, ((system c guards).machine Site.fresh).Reachable w →
    ((system c guards).machine Site.fresh).step w label w' → isServerStep label →
    w.state.files.entry n = some i → (w.state.files.file i).maker = none →
    w'.state.files.entry n = some i ∧
      (w'.state.files.file i).kind = (w.state.files.file i).kind ∧
      (w'.state.files.file i).text = (w.state.files.file i).text

section Steps
variable {c : Config} {s : ℕ} {op : Op} {x y : Site}

theorem Recorded.of_ready {n : Name} {i : ℕ} (hx : Inv c x) (h : Ready c s (.unlink n) x)
    (hi : x.files.entry n = some i) : Recorded c s i x := by
  obtain ⟨-, l, m, state, j, hreads, hj, hrecorded⟩ := h
  obtain rfl : i = j := Option.some.inj (hi.symm.trans hj)
  obtain ⟨-, k, hid, -, hkind, hmaker⟩ := hx.record m state hreads.marker hreads.parse _ _ hrecorded
  obtain rfl := Config.identity_inj.mp hid
  exact ⟨hkind, hmaker, l, m, state, hreads.entry, hreads.holder, hreads.marker, hreads.parse,
    hrecorded⟩

/-- A file that is no sidecar keeps its text and its kind. -/
theorem effect_node (hx : Inv c x) (hready : Ready c s op x) (h : Effect s op x y) {i : ℕ}
    (hi : i < x.files.next) (hmaker : (x.files.file i).maker = none) :
    (y.files.file i).kind = (x.files.file i).kind ∧
    (y.files.file i).text = (x.files.file i).text := by
  have hmarker : ∀ m, x.files.entry c.markerPath = some m → i ≠ m := by
    rintro m hm rfl
    have hmade := (hx.sidecar _ i (.inr rfl) hm).1
    rw [hmaker] at hmade
    cases hmade
  have hframe := (effect_frame hx hready h (s + 1) fun heq => absurd heq (by simp)).nodes i hi
  refine ⟨hframe.1, ?_⟩
  cases h with
  | truncate =>
    obtain ⟨l, hmarked⟩ := hready
    rw [Site.setNode, Directory.write_file, if_neg (hmarker _ hmarked.marker)]
  | write =>
    obtain ⟨⟨l, hmarked⟩, -⟩ := hready
    rw [Site.overwrite, Site.setNode, Directory.write_file, if_neg (hmarker _ hmarked.marker)]
  | same => rfl
  | createNew hfree hnext => exact effect_text hready (.createNew hfree hnext) rfl hi
  | bind hfree hnext => exact effect_text hready (.bind hfree hnext) rfl hi
  | tryLock hfree => rfl
  | unlock hheld => rfl
  | chmod hentry => exact effect_text hready (.chmod hentry) rfl hi
  | link hold hnew hnode => exact effect_text hready (.link hold hnew hnode) rfl hi
  | unlink => exact effect_text hready .unlink rfl hi

end Steps

variable {c : Config}

theorem server_fits : System.Fits (system c Op.guards) (terms c) (Inv c) where
  refl _ _ _ := .refl
  trans _ _ _ _ _ h h' := h.trans h'
  exec _ _ _ _ _ h := h
  main s x hx := (server_spec x hx trivial).mono fun _ _ _ => trivial
  good s op x y hx hgood := by
    obtain ⟨hready, heffect⟩ := hgood hx
    exact ⟨(effect_frame hx hready heffect (s + 1) fun heq => absurd heq (by simp)).inv hx,
      fun t ht op' => effect_rely hx hready heffect ht _⟩
  exit s op x y hx hhere hexit := by
    obtain ⟨count, rfl⟩ := hexit
    -- The operation that was next may have left a part of a text, and then the locks go.
    have hcut : ∀ t, t ≠ s → ∀ guarded, Rely c t guarded x (Op.cut count op x) := by
      intro t ht guarded
      match op with
      | none => exact .refl
      | some op => exact effect_rely hx (hhere op rfl) (cut_effect s count op x) ht guarded
    have hrely : ∀ t, t ≠ s → ∀ guarded, Rely c t guarded x ((Op.cut count op x).release s) :=
      fun t ht guarded => (hcut t ht guarded).trans (release_rely ht guarded)
    exact ⟨(hrely (s + 1) (by simp) fun _ => false).inv hx, fun t ht op' => hrely t ht _⟩
  outside action heads x y hx houtside := by
    obtain ⟨hlock, hmarker, hguards, rfl⟩ := houtside
    have hquiet : Quiet c x (action.act x) := foreign_quiet fun h => h.elim hlock hmarker
    refine ⟨hquiet.inv hx, fun t op hop => hquiet.rely hx fun l _ n i hn hi => ?_⟩
    rw [foreign_entry, hi]
    rintro rfl
    rw [hguards t op hop] at hn
    cases hn

theorem fresh_inv {x : Site} (h : x.fresh) : Inv c x := by
  cases h
  refine ⟨?_, Nat.zero_le _, ?_, ?_, ?_⟩
  · intro n i hi
    cases hi
  · intro n i _ hi
    cases hi
  · intro i s hi
    cases hi
  · intro m state hm
    cases hm

theorem reachable_owned {w : Pool Reply Failure Site}
    (h : ((system c Op.guards).machine Site.fresh).Reachable w) :
    System.Sound (terms c) (Inv c) w :=
  System.reachable_sound server_fits (fun _ => fresh_inv) h

/-- What a step of a server, complete or cut short, does to a file that stays or goes. -/
theorem server_step {w w' : Pool Reply Failure Site} {label : System.Label Foreign}
    (h : System.Sound (terms c) (Inv c) w) (hstep : (system c Op.guards).Step w label w')
    (hserver : isServerStep label) :
    w'.state.files = w.state.files ∨ ∃ s op y, w.head s = some op ∧ Ready c s op w.state ∧
      Effect s op w.state y ∧ w'.state.files = y.files ∧ (label = .op s ∨ ∀ n, op ≠ .unlink n) := by
  cases hstep with
  | start => exact .inl rfl
  | @op s op next reply y hs hexec =>
    have hhead : w.head s = some op := by rw [Pool.head, hs]; rfl
    exact .inr ⟨s, op, y, hhead, h.here server_fits hhead, exec_cases hexec, rfl, .inl rfl⟩
  | @exit s p y hs hexit =>
    obtain ⟨count, rfl⟩ := hexit
    cases hp : p.head with
    | none => exact .inl rfl
    | some op =>
      have hhead : w.head s = some op := by rw [Pool.head, hs, Option.bind_some, hp]
      by_cases hunlink : ∃ n, op = .unlink n
      · obtain ⟨n, rfl⟩ := hunlink
        exact .inl rfl
      · exact .inr ⟨s, op, _, hhead, h.here server_fits hhead, cut_effect s count op _, rfl,
          .inr fun n hn => hunlink ⟨n, hn⟩⟩
  | outside => exact hserver.elim

theorem socket_owned (c : Config) : Owned c Op.guards where
  exclusive w i j s t h hi hj := by
    have hinv := (reachable_owned h).1
    have hst := hinv.exclusive hi hj
    exact ⟨hst, Option.some.inj ((hinv.locks i s hi).symm.trans (hinv.locks j t hj))⟩
  publisher w s op h hop hcases := by
    have hready := (reachable_owned h).here server_fits hop
    rcases hcases with rfl | ⟨old, rfl⟩
    · obtain ⟨l, hlocked⟩ := hready
      exact ⟨l, hlocked.holder⟩
    · obtain ⟨⟨l, hlocked⟩, -⟩ := hready
      exact ⟨l, hlocked.holder⟩
  unlinked w label w' n i h hstep hserver hi := by
    have hsound := reachable_owned h
    rcases server_step hsound hstep
      hserver with hsame | ⟨s, op, y, hhead, hready, heffect, hy, hlabel⟩
    · rw [hsame]
      exact .inl hi
    · by_cases hop : op = .unlink n
      · subst hop
        refine .inr ⟨s, ?_, hhead, Recorded.of_ready hsound.1 hready hi⟩
        exact hlabel.resolve_right fun hn => hn n rfl
      · rw [hy]
        exact .inl (effect_entry heffect hi hop)
  foreign w label w' n i h hstep hserver hi hmaker := by
    have hsound := reachable_owned h
    rcases server_step hsound hstep hserver with hsame | ⟨s, op, y, -, hready, heffect, hy, -⟩
    · rw [hsame]
      exact ⟨hi, rfl, rfl⟩
    · rw [hy]
      refine ⟨effect_entry heffect hi ?_, effect_node hsound.1 hready heffect
        (hsound.1.numbered n i hi) hmaker⟩
      rintro rfl
      have hmade := (Recorded.of_ready hsound.1 hready hi).2.1
      rw [hmaker] at hmade
      cases hmade

section Replacement

/-- The only path that others leave alone is the one that `remove_owned` checked last. -/
def Op.lastChecked : Op → Name → Bool
  | .unlink n, m => n == m
  | _, _ => false

/-- The next operation of a server, without an error. -/
def Config.advance (c : Config) (s : ℕ) (w : Pool Reply Failure Site) : Pool Reply Failure Site :=
  match w.process s with
  | some (.call op next) => w.put s (some (next (c.exec s op w.state).1)) (c.exec s op w.state).2
  | _ => w

/-- In a machine whose servers may go on without an error, one server goes on. -/
theorem later_advance {ι : Type} {M : Machine (Pool Reply Failure Site) ι} {c : Config} {s : ℕ}
    (hop : ∀ (w : Pool Reply Failure Site) op next, w.process s = some (.call op next) → ∃ label,
      M.step w label (w.put s (some (next (c.exec s op w.state).1)) (c.exec s op w.state).2))
    (n : ℕ) (w : Pool Reply Failure Site) : M.Later w ((c.advance s)^[n] w) := by
  induction n with
  | zero => exact .refl
  | succ n ih =>
    rw [Function.iterate_succ_apply']
    refine ih.trans ?_
    generalize (c.advance s)^[n] w = v
    cases hp : v.process s with
    | none =>
      rw [Config.advance, hp]
      exact .refl
    | some p =>
      cases p with
      | call op next =>
        obtain ⟨label, hstep⟩ := hop v op next hp
        rw [Config.advance, hp]
        exact ⟨[label], .single hstep⟩
      | _ =>
        rw [Config.advance, hp]
        exact .refl

/-- The other servers do not move. -/
theorem advance_process {c : Config} {w : Pool Reply Failure Site} {s t n : ℕ} (hts : t ≠ s) :
    ((c.advance s)^[n] w).process t = w.process t := by
  induction n with
  | zero => rfl
  | succ n ih =>
    rw [Function.iterate_succ_apply', Config.advance]
    split
    · rw [Pool.put_process, if_neg hts, ih]
    · exact ih

/-- A device, and the path `admin.sock`. -/
def plainConfig : Config := ⟨"admin.sock".toList, 1⟩

def emptyPool : Pool Reply Failure Site :=
  ⟨⟨⟨fun _ => none, fun _ => ⟨.other, 0, 0, [], none⟩, 0⟩, fun _ => none⟩, fun _ => none⟩

/-- A server that bound the pending name and is about to read its identity. -/
def boundPool : Pool Reply Failure Site :=
  (plainConfig.advance 0)^[39] (emptyPool.put 0 (some (server plainConfig)) emptyPool.state)

/-- A socket of somebody else takes the pending name. -/
def replacedPool : Pool Reply Failure Site :=
  ⟨(Foreign.place ['a'] .socket 0o777 []).act boundPool.state, boundPool.process⟩

/-- The server published the socket and checked the pending name for the last time. -/
def checkedPool : Pool Reply Failure Site := (plainConfig.advance 0)^[56] replacedPool

theorem replaced_later : ((system plainConfig Op.lastChecked).machine Site.fresh).Later emptyPool
    checkedPool := by
  have hstart : (system plainConfig Op.lastChecked).Step emptyPool (.start 0)
      (emptyPool.put 0 (some (server plainConfig)) emptyPool.state) := .start rfl
  have hplace : (system plainConfig Op.lastChecked).Step boundPool
      (.outside (.place ['a'] .socket 0o777 [])) replacedPool := by
    refine .outside ⟨by decide, by decide, fun s op hop => ?_, rfl⟩
    by_cases hs : s = 0
    · subst hs
      have hhead : boundPool.head 0 = some (.identify ['a']) := by decide +kernel
      obtain rfl := Option.some.inj (hhead.symm.trans hop)
      rfl
    · have hnone : boundPool.head s = none := by
        rw [Pool.head, boundPool, advance_process hs, Pool.put_process, if_neg hs]
        rfl
      rw [hnone] at hop
      cases hop
  have hop : ∀ (w : Pool Reply Failure Site) op next, w.process 0 = some (.call op next) → ∃ label,
      (system plainConfig Op.lastChecked).Step w label (w.put 0
        (some (next (plainConfig.exec 0 op w.state).1)) (plainConfig.exec 0 op w.state).2) :=
    fun w op next hp => ⟨.op 0, .op hp (.inl rfl)⟩
  exact ((Machine.Later.refl.tail hstart).trans
    ((later_advance hop _ _).tail hplace)).trans (later_advance hop _ _)

/-- Between `bind` and the reading of its identity, the pending path is anybody's. -/
theorem replaced_socket_unlinked : ¬ ∀ c, Owned c Op.lastChecked := by
  intro h
  have hreachable : ((system plainConfig Op.lastChecked).machine Site.fresh).Reachable
    checkedPool :=
    ⟨emptyPool, ⟨rfl, fun _ => rfl⟩, replaced_later⟩
  have hhead : checkedPool.head 0 = some (.unlink ['a']) := by decide +kernel
  obtain ⟨p, hp⟩ : ∃ p, checkedPool.process 0 = some p := by
    cases hprocess : checkedPool.process 0 with
    | none =>
      rw [Pool.head, hprocess] at hhead
      cases hhead
    | some p => exact ⟨p, rfl⟩
  have hentry : checkedPool.state.files.entry ['a'] = some 3 := by decide +kernel
  have hmaker : (checkedPool.state.files.file 3).maker = none := by decide +kernel
  have hgone : (plainConfig.advance 0 checkedPool).state.files.entry ['a'] = none := by
    decide +kernel
  cases p with
  | call op next =>
    have hstep : (system plainConfig Op.lastChecked).Step checkedPool (.op 0)
        (plainConfig.advance 0 checkedPool) := by
      have hadvance := System.Step.op (S := system plainConfig Op.lastChecked) (w := checkedPool)
        (s := 0) hp (.inl rfl)
      rw [Config.advance, hp]
      exact hadvance
    have hkept := ((h plainConfig).foreign _ _ _ ['a'] 3 hreachable hstep trivial hentry hmaker).1
    rw [hgone] at hkept
    cases hkept
  | done a =>
    rw [Pool.head, hp] at hhead
    cases hhead
  | fail e =>
    rw [Pool.head, hp] at hhead
    cases hhead

end Replacement

end AgentJournal.Daemon
