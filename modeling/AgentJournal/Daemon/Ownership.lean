import AgentJournal.Daemon.AdminSocket

/-! # Who may touch the administrative socket

Servers, others and deaths in any order. A server that holds the owner lock relies on nobody
else writing the marker, and a marker that names a socket names one that a server bound under
that lock.
-/

namespace AgentJournal.Daemon
open Foundation

namespace Config
variable {c : Config} {i j : ℕ} {n : Name}

def isSidecar (c : Config) (n : Name) : Prop := n = c.lockName ∨ n = c.markerPath

theorem identity_inj : c.identity i = c.identity j ↔ i = j := by
  simp [identity]

theorem identity_valid (hi : i < inodes) : (c.identity i).Valid := ⟨c.device.toNat_lt, hi⟩

theorem not_isSidecar (h : n.length ≤ c.final.length) : ¬ c.isSidecar n := by
  rintro (rfl | rfl) <;> simp [lockName, markerPath] at h

theorem lockName_ne_markerPath : c.lockName ≠ c.markerPath := by
  simp [lockName, markerPath]

end Config

section Effects

/-- What an operation of a server does to the directory, cut short or not. -/
inductive Effect (s : ℕ) : Op → Site → Site → Prop
  | same {op : Op} {x : Site} : Effect s op x x
  | createNew {n : Name} {x : Site} : x.files.entry n = none → x.files.next < inodes →
      Effect s (.createNew n) x
      { x with files := x.files.create n ⟨.regular, 0o600, 1, [], some s⟩ }
  | bind {n : Name} {x : Site} : x.files.entry n = none → x.files.next < inodes →
      Effect s (.bind n) x { x with files := x.files.create n ⟨.socket, 0o777, 1, [], some s⟩ }
  | tryLock {i : ℕ} {x : Site} : x.holder i = none →
      Effect s (.tryLock i) x { x with holder := Function.update x.holder i (some s) }
  | unlock {i : ℕ} {x : Site} : x.holder i = some s →
      Effect s (.unlock i) x { x with holder := Function.update x.holder i none }
  | truncate {i : ℕ} {x : Site} :
      Effect s (.truncate i) x (x.setNode i { x.files.file i with text := [] })
  | write {i count : ℕ} {text : Text} {x : Site} :
      Effect s (.write i text) x (x.overwrite i (text.take count))
  | chmod {n : Name} {i : ℕ} {x : Site} : x.files.entry n = some i →
      Effect s (.chmod n) x (x.setNode i { x.files.file i with mode := 0o600 })
  | link {old new : Name} {i : ℕ} {node : Node} {x : Site} : x.files.entry old = some i →
      x.files.entry new = none →
      node = { x.files.file i with links := (x.files.file i).links + 1 } →
      Effect s (.link old new) x { x with files := (x.files.link i new).write i node }
  | unlink {n : Name} {x : Site} : Effect s (.unlink n) x (x.remove n)

variable {c : Config} {s : ℕ} {op : Op} {x y : Site}

theorem exec_effect {reply : Except Failure (Reply op)} (h : (reply, y) = c.exec s op x) :
    Effect s op x y := by
  cases op with
  | createNew n =>
    simp only [Config.exec] at h
    split at h
    · cases h
      exact .same
    · rename_i hentry
      split at h
      · rename_i hnext
        cases h
        exact .createNew hentry hnext
      · cases h
        exact .same
  | bind n =>
    simp only [Config.exec] at h
    split at h
    · cases h
      exact .same
    · rename_i hentry
      split at h
      · rename_i hnext
        cases h
        exact .bind hentry hnext
      · cases h
        exact .same
  | openFile n =>
    simp only [Config.exec] at h
    split at h <;> cases h <;> exact .same
  | tryLock i =>
    simp only [Config.exec] at h
    split at h
    · rename_i hholder
      cases h
      exact .tryLock hholder
    · cases h
      exact .same
  | unlock i =>
    simp only [Config.exec] at h
    split at h
    · rename_i hholder
      cases h
      exact .unlock hholder
    · cases h
      exact .same
  | truncate i =>
    cases h
    exact .truncate
  | write i text =>
    cases h
    have hwhole : Effect s (.write i text) x (x.overwrite i (text.take text.length)) := .write
    rwa [List.take_length] at hwhole
  | chmod n =>
    simp only [Config.exec] at h
    split at h
    · cases h
      exact .same
    · rename_i i hentry
      cases h
      exact .chmod hentry
  | link old new =>
    simp only [Config.exec] at h
    split at h
    · rename_i i hold hnew
      cases h
      exact .link hold hnew rfl
    · cases h
      exact .same
  | unlink n =>
    simp only [Config.exec] at h
    split at h
    · cases h
      exact .same
    · cases h
      exact .unlink
  | _ =>
    cases h
    exact .same

theorem cut_effect (s count : ℕ) (op : Op) (x : Site) :
    Effect s op x (Op.cut count (some op) x) := by
  cases op with
  | write i text => exact .write
  | _ => exact .same

end Effects

/-- What the marker may say: the owner lock, and a socket that a server bound. -/
def Backed (c : Config) (x : Site) (state : MarkerState) : Prop :=
  ∀ lock identity, state.recorded = some (lock, identity) →
    (∃ l, x.files.entry c.lockName = some l ∧ lock = c.identity l) ∧
    ∃ i, identity = c.identity i ∧ i < x.files.next ∧ (x.files.file i).kind = .socket ∧
      (x.files.file i).maker.isSome

structure Inv (c : Config) (x : Site) : Prop where
  numbered : x.files.Numbered
  bounded : x.files.next ≤ inodes
  /-- The sidecars are files of servers, each with one name. -/
  sidecar : ∀ n i, c.isSidecar n → x.files.entry n = some i →
    (x.files.file i).maker.isSome ∧ (x.files.file i).text.length ≤ adminArtifactMaxBytes ∧
      ∀ m, x.files.entry m = some i → m = n
  locks : ∀ i s, x.holder i = some s → x.files.entry c.lockName = some i
  record : ∀ m state, x.files.entry c.markerPath = some m →
    parseMarker (x.files.file m).text = .ok state → Backed c x state

/-- What server `s` may rely on whatever it does next. -/
structure Frame (c : Config) (s : ℕ) (x y : Site) : Prop where
  inv : Inv c x → Inv c y
  next : x.files.next ≤ y.files.next
  sidecars : ∀ n i, c.isSidecar n → x.files.entry n = some i → y.files.entry n = some i
  nodes : ∀ i, i < x.files.next → (y.files.file i).kind = (x.files.file i).kind ∧
    (y.files.file i).maker = (x.files.file i).maker
  holds : ∀ i, x.holder i = some s → y.holder i = some s

/-- The marker is the lock holder's alone, and so is a path that its next operation guards. -/
structure Rely (c : Config) (s : ℕ) (guarded : Name → Bool) (x y : Site) :
    Prop extends Frame c s x y where
  text : ∀ l, x.holder l = some s → ∀ m, x.files.entry c.markerPath = some m →
    (y.files.file m).text = (x.files.file m).text
  kept : ∀ l, x.holder l = some s → ∀ n i, guarded n = true → x.files.entry n = some i →
    y.files.entry n = some i

section Relies
variable {c : Config} {s : ℕ} {guarded : Name → Bool} {x y z : Site}

theorem Frame.refl :
    Frame c s x x := ⟨id, le_rfl, fun _ _ _ => id, fun _ _ => ⟨rfl, rfl⟩, fun _ => id⟩

theorem Frame.trans (h : Frame c s x y) (h' : Frame c s y z) : Frame c s x z where
  inv hx := h'.inv (h.inv hx)
  next := h.next.trans h'.next
  sidecars n i hn hi := h'.sidecars n i hn (h.sidecars n i hn hi)
  nodes i hi := by
    obtain ⟨hkind, hmaker⟩ := h.nodes i hi
    obtain ⟨hkind', hmaker'⟩ := h'.nodes i (hi.trans_le h.next)
    exact ⟨hkind'.trans hkind, hmaker'.trans hmaker⟩
  holds i hi := h'.holds i (h.holds i hi)

theorem Rely.refl : Rely c s guarded x x := ⟨.refl, fun _ _ _ _ => rfl, fun _ _ _ _ _ => id⟩

theorem Rely.trans (h : Rely c s guarded x y) (h' : Rely c s guarded y z) :
    Rely c s guarded x z where
  toFrame := h.toFrame.trans h'.toFrame
  text l hl m hm := by
    have hm' := h.sidecars _ m (.inr rfl) hm
    exact (h'.text l (h.holds l hl) m hm').trans (h.text l hl m hm)
  kept l hl n i hn hi := h'.kept l (h.holds l hl) n i hn (h.kept l hl n i hn hi)

/-- The owner lock is held. -/
structure Locked (c : Config) (s l : ℕ) (x : Site) : Prop where
  entry : x.files.entry c.lockName = some l
  holder : x.holder l = some s

structure Marked (c : Config) (s l m : ℕ) (x : Site) : Prop extends Locked c s l x where
  marker : x.files.entry c.markerPath = some m

/-- The marker reads as this state. -/
structure Reads (c : Config) (s l m : ℕ) (state : MarkerState) (x : Site) : Prop
    extends Marked c s l m x where
  parse : parseMarker (x.files.file m).text = .ok state

/-- A socket that a server bound. -/
structure Bound (c : Config) (i : ℕ) (x : Site) : Prop where
  lt : i < x.files.next
  kind : (x.files.file i).kind = .socket
  maker : (x.files.file i).maker.isSome

/-- A fact that stays whatever the others do and whatever the server writes. -/
def Steady (c : Config) (s : ℕ) (P : Site → Prop) : Prop := ∀ x y, Frame c s x y → P x → P y

/-- A fact that stays while the server does not write the marker. -/
def Stable (c : Config) (s : ℕ) (P : Site → Prop) : Prop :=
  ∀ guarded x y, Rely c s guarded x y → P x → P y

theorem Steady.stable {P : Site → Prop} (h : Steady c s P) : Stable c s P :=
  fun _ x y hxy => h x y hxy.toFrame

theorem Steady.and {P Q : Site → Prop} (hP : Steady c s P) (hQ : Steady c s Q) :
    Steady c s fun x => P x ∧ Q x :=
  fun x y hxy h => ⟨hP x y hxy h.1, hQ x y hxy h.2⟩

theorem Stable.and {P Q : Site → Prop} (hP : Stable c s P) (hQ : Stable c s Q) :
    Stable c s fun x => P x ∧ Q x :=
  fun g x y hxy h => ⟨hP g x y hxy h.1, hQ g x y hxy h.2⟩

variable {l m i : ℕ} {state : MarkerState}

theorem locked_steady : Steady c s (Locked c s l) := fun _ _ hxy h =>
  ⟨hxy.sidecars _ _ (.inl rfl) h.entry, hxy.holds _ h.holder⟩

theorem bound_steady : Steady c s (Bound c i) := fun _ _ hxy h => by
  obtain ⟨hkind, hmaker⟩ := hxy.nodes i h.lt
  exact ⟨h.lt.trans_le hxy.next, hkind.trans h.kind, by rw [hmaker]; exact h.maker⟩

end Relies

section Operations
variable {c : Config} {s : ℕ} {x y : Site}

/-- What holds when a server does an operation. -/
def Ready (c : Config) (s : ℕ) : Op → Site → Prop
  | .createNew n, _ => c.isSidecar n
  | .tryLock i, x => x.files.entry c.lockName = some i
  | .truncate i, x => ∃ l, Marked c s l i x
  | .write i text, x => (∃ l, Marked c s l i x) ∧ (x.files.file i).text = [] ∧
      ∃ state, state.Valid ∧ markerBytes state = .ok text ∧ Backed c x state
  | .bind n, _ | .chmod n, _ => ¬ c.isSidecar n
  | .link old new, x => (∃ l, Locked c s l x) ∧ ¬ c.isSidecar old ∧ ¬ c.isSidecar new
  | .unlink n, x => ¬ c.isSidecar n ∧ ∃ l m state i, Reads c s l m state x ∧
      x.files.entry n = some i ∧ state.recorded = some (c.identity l, c.identity i)
  | .serve, x => ∃ l, Locked c s l x
  | _, _ => True

theorem Backed.frame {state : MarkerState} (h : Backed c x state)
    (hlock : ∀ i, x.files.entry c.lockName = some i → y.files.entry c.lockName = some i)
    (hnext : x.files.next ≤ y.files.next)
    (hnodes : ∀ i, i < x.files.next → (y.files.file i).kind = (x.files.file i).kind ∧
      (y.files.file i).maker = (x.files.file i).maker) : Backed c y state := by
  intro lock identity hrecorded
  obtain ⟨⟨l, hl, hlockId⟩, i, hid, hi, hkind, hmaker⟩ := h lock identity hrecorded
  obtain ⟨hkind', hmaker'⟩ := hnodes i hi
  exact ⟨⟨l, hlock l hl, hlockId⟩, i, hid, hi.trans_le hnext,
    hkind'.trans hkind, by rw [hmaker']; exact hmaker⟩

/-- A change that leaves the sidecars, the locks and all texts as they are. -/
structure Quiet (c : Config) (x y : Site) : Prop where
  numbered : x.files.Numbered → y.files.Numbered
  bounded : x.files.next ≤ inodes → y.files.next ≤ inodes
  next : x.files.next ≤ y.files.next
  sidecars : ∀ n, c.isSidecar n → y.files.entry n = x.files.entry n
  names : Inv c x → ∀ n i m, c.isSidecar n → x.files.entry n = some i → y.files.entry m = some i →
    x.files.entry m = some i
  nodes : ∀ i, i < x.files.next → (y.files.file i).kind = (x.files.file i).kind ∧
    (y.files.file i).maker = (x.files.file i).maker ∧ (y.files.file i).text = (x.files.file i).text
  holder : y.holder = x.holder

theorem Quiet.inv (h : Quiet c x y) (hx : Inv c x) : Inv c y where
  numbered := h.numbered hx.numbered
  bounded := h.bounded hx.bounded
  sidecar n i hn hi := by
    rw [h.sidecars n hn] at hi
    obtain ⟨hmaker, htext, halone⟩ := hx.sidecar n i hn hi
    obtain ⟨-, hmaker', htext'⟩ := h.nodes i (hx.numbered n i hi)
    rw [hmaker', htext']
    exact ⟨hmaker, htext, fun m hm => halone m (h.names hx n i m hn hi hm)⟩
  locks i s hi := by
    rw [h.holder] at hi
    rw [h.sidecars _ (.inl rfl)]
    exact hx.locks i s hi
  record m state hm hparse := by
    rw [h.sidecars _ (.inr rfl)] at hm
    rw [(h.nodes m (hx.numbered _ m hm)).2.2] at hparse
    refine (hx.record m state hm hparse).frame (fun i hi => ?_) h.next
      fun i hi => ⟨(h.nodes i hi).1, (h.nodes i hi).2.1⟩
    rw [h.sidecars _ (.inl rfl)]
    exact hi

theorem Quiet.frame (h : Quiet c x y) (t : ℕ) : Frame c t x y where
  inv := h.inv
  next := h.next
  sidecars n i hn hi := by rw [h.sidecars n hn, hi]
  nodes i hi := ⟨(h.nodes i hi).1, (h.nodes i hi).2.1⟩
  holds i hi := by rw [h.holder, hi]

theorem Quiet.rely (h : Quiet c x y) (hx : Inv c x) {t : ℕ} {guarded : Name → Bool}
    (hkept : ∀ l, x.holder l = some t → ∀ n i, guarded n = true → x.files.entry n = some i →
      y.files.entry n = some i) : Rely c t guarded x y where
  toFrame := h.frame t
  text _ _ m hm := (h.nodes m (hx.numbered _ m hm)).2.2
  kept := hkept

theorem Quiet.trans {z : Site} (h : Quiet c x y) (h' : Quiet c y z) : Quiet c x z where
  numbered hx := h'.numbered (h.numbered hx)
  bounded hx := h'.bounded (h.bounded hx)
  next := h.next.trans h'.next
  sidecars n hn := (h'.sidecars n hn).trans (h.sidecars n hn)
  names hx n i m hn hi hm :=
    h.names hx n i m hn hi (h'.names (h.inv hx) n i m hn (by rw [h.sidecars n hn, hi]) hm)
  nodes i hi := by
    obtain ⟨hkind, hmaker, htext⟩ := h.nodes i hi
    obtain ⟨hkind', hmaker', htext'⟩ := h'.nodes i (hi.trans_le h.next)
    exact ⟨hkind'.trans hkind, hmaker'.trans hmaker, htext'.trans htext⟩
  holder := h'.holder.trans h.holder

theorem Quiet.refl : Quiet c x x :=
  ⟨id, id, le_rfl, fun _ _ => rfl, fun _ _ _ _ _ _ => id, fun _ _ => ⟨rfl, rfl, rfl⟩, rfl⟩

theorem quiet_create {n : Name} {node : Node} (hn : ¬ c.isSidecar n)
    (hnext : x.files.next < inodes) :
    Quiet c x { x with files := x.files.create n node } where
  numbered hx := hx.create _ _
  bounded _ := hnext
  next := Nat.le_succ _
  sidecars m hm := by
    rw [Directory.create_entry, if_neg]
    rintro rfl
    exact hn hm
  names hx m i k _ hi hk := by
    rw [Directory.create_entry] at hk
    split_ifs at hk
    · obtain rfl := Option.some.inj hk
      exact absurd (hx.numbered m _ hi) (lt_irrefl _)
    · exact hk
  nodes i hi := by
    rw [Directory.create_file, if_neg (Nat.ne_of_lt hi)]
    exact ⟨rfl, rfl, rfl⟩
  holder := rfl

/-- Only the mode or the count of the names of a file changes. -/
theorem quiet_setNode {i : ℕ} {node : Node} (hkind : node.kind = (x.files.file i).kind)
    (hmaker : node.maker = (x.files.file i).maker) (htext : node.text = (x.files.file i).text) :
    Quiet c x (x.setNode i node) where
  numbered hx := hx.write _ _
  bounded hx := hx
  next := le_rfl
  sidecars _ _ := rfl
  names _ _ _ _ _ _ hm := hm
  nodes j _ := by
    rw [Site.setNode, Directory.write_file]
    split_ifs with hj
    · rw [hj]
      exact ⟨hkind, hmaker, htext⟩
    · exact ⟨rfl, rfl, rfl⟩
  holder := rfl

theorem quiet_unlink {n : Name} (hn : ¬ c.isSidecar n) :
    Quiet c x { x with files := x.files.unlink n } where
  numbered hx := hx.unlink _
  bounded hx := hx
  next := le_rfl
  sidecars m hm := by
    rw [Directory.unlink_entry, if_neg]
    rintro rfl
    exact hn hm
  names _ _ i m _ _ hm := by
    rw [Directory.unlink_entry] at hm
    split_ifs at hm
    exact hm
  nodes _ _ := ⟨rfl, rfl, rfl⟩
  holder := rfl

theorem quiet_remove {n : Name} (hn : ¬ c.isSidecar n) : Quiet c x (x.remove n) := by
  unfold Site.remove
  split
  · exact .refl
  · exact (quiet_unlink hn).trans (quiet_setNode rfl rfl rfl)

theorem quiet_link {old new : Name} {i : ℕ} (hx : Inv c x) (hold : ¬ c.isSidecar old)
    (hnew : ¬ c.isSidecar new) (hi : x.files.entry old = some i) :
    Quiet c x { x with files := x.files.link i new } where
  numbered h := h.link _ (h old i hi)
  bounded h := h
  next := le_rfl
  sidecars m hm := by
    rw [Directory.link_entry, if_neg]
    rintro rfl
    exact hnew hm
  names _ n j m hn hj hm := by
    rw [Directory.link_entry] at hm
    split_ifs at hm
    · -- The linked file is not a sidecar, whose name would be the only one.
      obtain rfl := Option.some.inj hm
      have hname := (hx.sidecar n i hn hj).2.2 old hi
      rw [hname] at hold
      exact absurd hn hold
    · exact hm
  nodes _ _ := ⟨rfl, rfl, rfl⟩
  holder := rfl

/-- A new text for the marker. -/
theorem frame_setText {m : ℕ} {text : Text} (hm : x.files.entry c.markerPath = some m)
    (hlength : text.length ≤ adminArtifactMaxBytes)
    (hbacked : ∀ state, parseMarker text = .ok state → Backed c x state) (t : ℕ) :
    Frame c t x (x.setNode m { x.files.file m with text := text }) := by
  have hnodes : ∀ i, i < x.files.next →
      ((x.setNode m { x.files.file m with text := text }).files.file i).kind =
      (x.files.file i).kind ∧
      ((x.setNode m { x.files.file m with text := text }).files.file i).maker =
        (x.files.file i).maker := by
    intro i _
    rw [Site.setNode, Directory.write_file]
    split_ifs with hi
    · rw [hi]
      exact ⟨rfl, rfl⟩
    · exact ⟨rfl, rfl⟩
  refine ⟨fun hx => ?_, le_rfl, fun _ _ _ hi => hi, hnodes, fun _ hi => hi⟩
  refine ⟨hx.numbered.write _ _, hx.bounded, ?_, hx.locks, ?_⟩
  · intro n i hn hi
    obtain ⟨hmaker, htext, halone⟩ := hx.sidecar n i hn hi
    rw [(hnodes i (hx.numbered n i hi)).2]
    refine ⟨hmaker, ?_, halone⟩
    rw [Site.setNode, Directory.write_file]
    split_ifs
    · exact hlength
    · exact htext
  · intro j state hj hparse
    obtain rfl : m = j := Option.some.inj (hm.symm.trans hj)
    rw [Site.setNode, Directory.write_file, if_pos rfl] at hparse
    exact (hbacked state hparse).frame (fun _ hi => hi) le_rfl hnodes

/-- A sidecar that was not there before. -/
theorem frame_createNew {n : Name} (hn : c.isSidecar n) (hfree : x.files.entry n = none)
    (hnext : x.files.next < inodes) (t : ℕ) :
    Frame c t x { x with files := x.files.create n ⟨.regular, 0o600, 1, [], some s⟩ } := by
  have hkept : ∀ m i, x.files.entry m = some i →
      (x.files.create n (⟨.regular, 0o600, 1, [], some s⟩ : Node)).entry m = some i := by
    intro m i hi
    rw [Directory.create_entry, if_neg]
    · exact hi
    · rintro rfl
      rw [hfree] at hi
      cases hi
  have hnodes : ∀ i, i < x.files.next →
      (x.files.create n (⟨.regular, 0o600, 1, [], some s⟩ : Node)).file i = x.files.file i := by
    intro i hi
    rw [Directory.create_file, if_neg (Nat.ne_of_lt hi)]
  refine ⟨fun hx => ?_, Nat.le_succ _, fun m i _ => hkept m i, ?_, fun _ hi => hi⟩
  · refine ⟨hx.numbered.create _ _, hnext, ?_, fun i u hi => hkept _ i (hx.locks i u hi), ?_⟩
    · intro m i hm hi
      rw [Directory.create_entry] at hi
      split_ifs at hi with hmn
      · obtain rfl := Option.some.inj hi
        rw [Directory.create_file, if_pos rfl]
        refine ⟨rfl, Nat.zero_le _, fun k hk => ?_⟩
        rw [Directory.create_entry] at hk
        split_ifs at hk with hkn
        · rw [hkn, hmn]
        · exact absurd (hx.numbered k _ hk) (lt_irrefl _)
      · rw [hnodes i (hx.numbered m i hi)]
        obtain ⟨hmaker, htext, halone⟩ := hx.sidecar m i hm hi
        refine ⟨hmaker, htext, fun k hk => ?_⟩
        rw [Directory.create_entry] at hk
        split_ifs at hk with hkn
        · obtain rfl := Option.some.inj hk
          exact absurd (hx.numbered m _ hi) (lt_irrefl _)
        · exact halone k hk
    · intro m state hm hparse
      rw [Directory.create_entry] at hm
      split_ifs at hm with hmn
      · obtain rfl := Option.some.inj hm
        rw [Directory.create_file, if_pos rfl, parseMarker_nil] at hparse
        cases hparse
      · rw [hnodes m (hx.numbered _ m hm)] at hparse
        refine (hx.record m state hm hparse).frame (fun i => hkept _ i) (Nat.le_succ _) fun i hi =>
          ?_
        rw [hnodes i hi]
        exact ⟨rfl, rfl⟩
  · intro i hi
    rw [hnodes i hi]
    exact ⟨rfl, rfl⟩

/-- Two servers cannot hold the owner lock. -/
theorem Inv.exclusive (hx : Inv c x) {i j t : ℕ} (hi : x.holder i = some s)
    (hj : x.holder j = some t) :
    s = t := by
  have hij : i = j := Option.some.inj ((hx.locks i s hi).symm.trans (hx.locks j t hj))
  rw [hij, hj] at hi
  exact (Option.some.inj hi).symm

theorem backed_cut {text p : Text} {state state' : MarkerState} (hvalid : state.Valid)
    (htext : markerBytes state = .ok text) (hbacked : Backed c x state) (hp : p <+: text)
    (hparse : parseMarker p = .ok state') : Backed c x state' := by
  have hpart := parseMarker_part hvalid htext hp hparse
  intro lock identity hrecorded
  exact hbacked lock identity (hpart.recorded ▸ hrecorded)

theorem frame_write {i count : ℕ} {text : Text} (h : Ready c s (.write i text) x) (t : ℕ) :
    Frame c t x (x.overwrite i (text.take count)) := by
  obtain ⟨⟨l, hmarked⟩, hempty, state, hvalid, htext, hbacked⟩ := h
  rw [Site.overwrite, hempty, List.drop_nil, List.append_nil]
  refine frame_setText hmarked.marker ?_ ?_ t
  · rw [List.length_take]
    exact (Nat.min_le_right _ _).trans (length_markerBytes hvalid htext)
  · intro state' hparse
    exact backed_cut hvalid htext hbacked (List.take_prefix _ _) hparse

/-- Whether the operation may change the text of the marker. -/
def Op.writes : Op → Bool
  | .truncate _ | .write .. => true
  | _ => false

/-- What a server does, others may rely on, and so may the server, unless it gives up its lock. -/
theorem effect_frame {op : Op} (hx : Inv c x) (hready : Ready c s op x) (h : Effect s op x y)
    (t : ℕ)
    (ht : t = s → ∀ i, op ≠ .unlock i) : Frame c t x y := by
  cases h with
  | same => exact .refl
  | createNew hfree hnext => exact frame_createNew hready hfree hnext t
  | bind hfree hnext => exact (quiet_create hready hnext).frame t
  | @tryLock i x hfree =>
    refine ⟨fun hx => ⟨hx.numbered, hx.bounded, hx.sidecar, ?_, hx.record⟩, le_rfl,
      fun _ _ _ hi => hi, fun _ _ => ⟨rfl, rfl⟩, ?_⟩
    · intro j u hj
      simp only [Function.update_apply] at hj
      split_ifs at hj with hji
      · rw [hji]
        exact hready
      · exact hx.locks j u hj
    · intro j hj
      simp only [Function.update_apply]
      split_ifs with hji
      · rw [hji, hfree] at hj
        cases hj
      · exact hj
  | @unlock i x hheld =>
    refine ⟨fun hx => ⟨hx.numbered, hx.bounded, hx.sidecar, ?_, hx.record⟩, le_rfl,
      fun _ _ _ hi => hi, fun _ _ => ⟨rfl, rfl⟩, ?_⟩
    · intro j u hj
      simp only [Function.update_apply] at hj
      split_ifs at hj
      exact hx.locks j u hj
    · intro j hj
      simp only [Function.update_apply]
      split_ifs with hji
      · rw [hji, hheld] at hj
        exact absurd rfl (ht (Option.some.inj hj).symm i)
      · exact hj
  | truncate =>
    obtain ⟨l, hmarked⟩ := hready
    refine frame_setText hmarked.marker (Nat.zero_le _) (fun state hparse => ?_) t
    rw [parseMarker_nil] at hparse
    cases hparse
  | write => exact frame_write hready t
  | @chmod n i _ hentry =>
    have hquiet : Quiet c x (x.setNode i { x.files.file i with mode := 0o600 }) :=
      quiet_setNode rfl rfl rfl
    exact hquiet.frame t
  | link hold hnew hnode =>
    obtain ⟨-, hsidecarOld, hsidecarNew⟩ := hready
    have hlink := quiet_link hx hsidecarOld hsidecarNew hold
    refine (hlink.trans (quiet_setNode ?_ ?_ ?_)).frame t <;> rw [hnode] <;> rfl
  | unlink => exact (quiet_remove hready.1).frame t

theorem effect_text {op : Op} (hready : Ready c s op x) (h : Effect s op x y)
    (hop : op.writes = false) {m : ℕ} (hm : m < x.files.next) :
    (y.files.file m).text = (x.files.file m).text := by
  cases h with
  | createNew => exact congrArg Node.text (by simp [Nat.ne_of_lt hm])
  | bind hfree hnext => exact ((quiet_create hready hnext).nodes m hm).2.2
  | truncate => cases hop
  | write => cases hop
  | @chmod n i _ hentry =>
    have hquiet : Quiet c x (x.setNode i { x.files.file i with mode := 0o600 }) :=
      quiet_setNode rfl rfl rfl
    exact (hquiet.nodes m hm).2.2
  | @link old new i node _ hold hnew hnode =>
    rw [Directory.write_file]
    split_ifs with hmi
    · rw [hmi, hnode]
    · rfl
  | unlink => exact ((quiet_remove (c := c) hready.1).nodes m hm).2.2
  | _ => rfl

theorem remove_entry {n m : Name} (h : m ≠ n) : (x.remove n).files.entry m = x.files.entry m := by
  unfold Site.remove
  split
  · rfl
  · simp [h]

/-- A name that an operation takes away is the one it unlinks. -/
theorem effect_entry {op : Op} (h : Effect s op x y) {n : Name} {i : ℕ}
    (hi : x.files.entry n = some i)
    (hop : op ≠ .unlink n) : y.files.entry n = some i := by
  have hne : ∀ m, x.files.entry m = none → n ≠ m := by
    rintro m hm rfl
    rw [hm] at hi
    cases hi
  cases h with
  | @createNew m x hfree => simp [hne m hfree, hi]
  | @bind m x hfree => simp [hne m hfree, hi]
  | @link old new j node x hold hnew hnode => simp [hne new hnew, hi]
  | @unlink m =>
    rw [remove_entry]
    · exact hi
    · rintro rfl
      exact hop rfl
  | _ => exact hi

/-- Every other server may rely on what a server does. -/
theorem effect_rely {op : Op} (hx : Inv c x) (hready : Ready c s op x) (h : Effect s op x y) {t : ℕ}
    (ht : t ≠ s) (guarded : Name → Bool) : Rely c t guarded x y := by
  have hheld : ∀ l, x.holder l = some t → ∀ k, ¬ Locked c s k x := by
    intro l hl k hlocked
    exact ht (hx.exclusive hl hlocked.holder)
  refine ⟨effect_frame hx hready h t fun heq => absurd heq ht, ?_, ?_⟩
  · intro l hl m hm
    refine effect_text hready h ?_ (hx.numbered _ m hm)
    cases op with
    | truncate i =>
      obtain ⟨k, hmarked⟩ := hready
      exact absurd hmarked.toLocked (hheld l hl k)
    | write i text =>
      obtain ⟨⟨k, hmarked⟩, -⟩ := hready
      exact absurd hmarked.toLocked (hheld l hl k)
    | _ => rfl
  · intro l hl n i _ hi
    refine effect_entry h hi ?_
    rintro rfl
    obtain ⟨-, k, m, state, j, hreads, -⟩ := hready
    exact hheld l hl k hreads.toLocked

/-- A process that is gone holds no lock. -/
theorem release_rely {t : ℕ} (ht : t ≠ s) (guarded : Name → Bool) :
    Rely c t guarded x (x.release s) := by
  refine ⟨⟨fun hx => ⟨hx.numbered, hx.bounded, hx.sidecar, ?_, hx.record⟩, le_rfl, fun _ _ _ hi =>
    hi,
    fun _ _ => ⟨rfl, rfl⟩, ?_⟩, fun _ _ _ _ => rfl, fun _ _ _ _ _ hi => hi⟩
  · intro i u hi
    simp only [Site.release] at hi
    split_ifs at hi
    exact hx.locks i u hi
  · intro i hi
    simp only [Site.release]
    rw [if_neg, hi]
    rw [hi]
    exact fun heq => ht (Option.some.inj heq)

theorem foreign_quiet {action : Foreign} (hname : ¬ c.isSidecar action.name) :
    Quiet c x (action.act x) := by
  cases action with
  | place n kind mode text =>
    simp only [Foreign.act]
    split
    · rename_i hnext
      have hremove : Quiet c x (x.remove n) := quiet_remove hname
      exact hremove.trans (quiet_create hname hnext)
    · exact .refl
  | remove n => exact quiet_remove hname

theorem foreign_entry {action : Foreign} {n : Name} (hn : n ≠ action.name) :
    (action.act x).files.entry n = x.files.entry n := by
  cases action with
  | place m kind mode text =>
    have hnm : n ≠ m := hn
    simp only [Foreign.act]
    split
    · rw [Directory.create_entry, if_neg hnm, remove_entry hnm]
    · rfl
  | remove m => exact remove_entry hn

end Operations

section Terms
variable (c : Config) (s : ℕ)

/-- While this operation is next, nobody else may touch the path: the unlink after the last check
of `remove_owned`, and the `artifact` after `bind`. -/
def Op.guards : Op → Name → Bool
  | .unlink n, m | .identify n, m => n == m
  | _, _ => false

def terms : Terms Reply Failure Site where
  exec := (system c Op.guards).exec s
  rely op := Rely c s op.guards
  here := Ready c s
  good op x y := Inv c x → Ready c s op x ∧ Effect s op x y

/-- From states with `P`, the program keeps to its terms, and `Q` holds of its result. -/
def Spec {α : Type} (P : Site → Prop) (p : Task α) (Q : α → Site → Prop) : Prop :=
  ∀ x, Inv c x → P x → p.Safe (terms c s) (fun r z => Inv c z ∧ ∀ a, r = .ok a → Q a z) x

variable {c s} {α β : Type} {P P' : Site → Prop} {p : Task α} {Q : α → Site → Prop}

theorem exec_cases {op : Op} {x y : Site} {reply : Except Failure (Reply op)}
    (h : (terms c s).exec op x reply y) : Effect s op x y := by
  rcases h with hwhole | ⟨-, count, rfl⟩
  · exact exec_effect hwhole
  · exact cut_effect s count op x

theorem Spec.bind {f : α → Task β} {R : α → Site → Prop} {Q : β → Site → Prop}
    (hp : Spec c s P p R) (hf : ∀ a, Spec c s (R a) (f a) Q) : Spec c s P (p.bind f) Q := by
  intro x hx hP
  rw [Process.safe_bind]
  refine (hp x hx hP).mono ?_
  rintro (e | a) y ⟨hy, hR⟩
  · exact ⟨hy, fun a ha => by cases ha⟩
  · exact hf a y hy (hR a rfl)

theorem Spec.pure {a : α} (h : ∀ x, Inv c x → P x → Q a x) : Spec c s P (Process.done a) Q := by
  intro x hx hP
  refine ⟨hx, ?_⟩
  rintro b ⟨⟩
  exact h x hx hP

theorem Spec.fail {e : Failure} : Spec c s P (Process.fail e : Task α) Q :=
  fun _ hx _ => ⟨hx, fun _ ha => by cases ha⟩

theorem Spec.mono {Q' : α → Site → Prop} (hp : Spec c s P p Q) (hP : ∀ x, P' x → P x)
    (hQ : ∀ a x, Inv c x → Q a x → Q' a x) : Spec c s P' p Q' := by
  intro x hx hx'
  refine (hp x hx (hP x hx')).mono ?_
  rintro r y ⟨hy, hr⟩
  exact ⟨hy, fun a ha => hQ a y hy (hr a ha)⟩

theorem Spec.attempt {Q : Except Failure α → Site → Prop}
    (hp : Spec c s P p fun a => Q (.ok a)) (he : ∀ e x, Inv c x → Q (.error e) x) :
    Spec c s P p.attempt Q := by
  intro x hx hP
  rw [Process.safe_attempt]
  refine (hp x hx hP).mono ?_
  rintro (e | a) y ⟨hy, hr⟩
  · refine ⟨hy, ?_⟩
    rintro b ⟨⟩
    exact he e y hy
  · refine ⟨hy, ?_⟩
    rintro b ⟨⟩
    exact hr a rfl

theorem Spec.require {condition : Prop} [Decidable condition] {e : Failure} {Q : Unit → Site → Prop}
    (h : ∀ x, Inv c x → P x → condition → Q () x) : Spec c s P (.require condition e) Q := by
  intro x hx hP
  rw [Process.safe_require]
  refine ⟨fun hc => ⟨hx, fun _ _ => h x hx hP hc⟩, fun _ => ⟨hx, fun a ha => by cases ha⟩⟩

theorem Spec.ofExcept {a : Except Failure α} (h : ∀ b x, a = .ok b → Inv c x → P x → Q b x) :
    Spec c s P (.ofExcept a) Q := by
  intro x hx hP
  rw [Process.safe_ofExcept]
  exact ⟨hx, fun b hb => h b x hb hx hP⟩

/-- One operation, which the server is ready for whatever the others did before. -/
theorem Spec.operation {op : Op} {Q : Reply op → Site → Prop}
    (hP : ∀ x y, Rely c s op.guards x y → P x → P y) (hready : ∀ x, Inv c x → P x → Ready c s op x)
    (hop : ∀ i, op ≠ .unlock i)
    (hQ : ∀ x a y, Inv c x → P x → Effect s op x y → Inv c y → (.ok a, y) = c.exec s op x → Q a y) :
    Spec c s P (perform op) Q := by
  intro x hx hPx
  rw [perform, Process.safe_perform]
  intro y hxy
  have hy := hxy.inv hx
  have hPy := hP x y hxy hPx
  refine ⟨hready y hy hPy, fun reply z hexec => ?_⟩
  have heffect := exec_cases hexec
  have hz := (effect_frame hy (hready y hy hPy) heffect s fun _ => hop).inv hy
  refine ⟨fun _ => ⟨hready y hy hPy, heffect⟩, hz, ?_⟩
  rintro a rfl
  rcases hexec with hwhole | ⟨herror, -⟩
  · exact hQ y a z hy hPy heffect hz hwhole
  · cases herror

end Terms

end AgentJournal.Daemon
