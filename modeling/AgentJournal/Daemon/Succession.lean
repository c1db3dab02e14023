import AgentJournal.Daemon.Custody

/-! # Servers one after the other

Nobody else touches the directory, and a server may die at any operation. What its successor
finds: a marker that reads as a state, with the paths that the state allows, or a marker whose
writing stopped early.
-/

namespace AgentJournal.Daemon
open Foundation

/-- Servers without errors and without others. -/
def successive (c : Config) : System Reply Failure Site Empty where
  main _ := server c
  exec s op x reply y := (reply, y) = c.exec s op x
  exit s op x y := ∃ count, y = (Op.cut count op x).release s
  outside i _ _ _ := nomatch i

/-- A server starts when none is left. -/
def succession (c : Config) : Machine (Pool Reply Failure Site) (System.Label Empty) where
  start w := w.state.fresh ∧ ∀ s, w.process s = none
  step w label w' :=
    (successive c).Step w label w' ∧ ∀ s, label = .start s → ∀ t, w.process t = none

/-- What a state of the marker allows at the two paths. -/
def Consistent (c : Config) (x : Site) : MarkerState → Prop
  | .empty => x.files.entry c.final = none
  | .pending lock identity name => ∃ l i, x.files.entry c.lockName = some l ∧ lock = c.identity l ∧
      identity = c.identity i ∧ i < x.files.next ∧ (x.files.file i).kind = .socket ∧
      (x.files.entry c.final = none ∨ x.files.entry c.final = some i) ∧
      name ≠ c.final ∧ name.length ≤ c.final.length ∧
      (x.files.entry name = none ∨ x.files.entry name = some i)
  | .published lock identity pendingName => ∃ l i, x.files.entry c.lockName = some l ∧
      lock = c.identity l ∧ identity = c.identity i ∧ i < x.files.next ∧
      (x.files.file i).kind = .socket ∧
      (x.files.entry c.final = none ∨ x.files.entry c.final = some i) ∧
      ∀ name ∈ pendingName, name ≠ c.final ∧ name.length ≤ c.final.length ∧
        (x.files.entry name = none ∨ x.files.entry name = some i)

/-- The marker is there and reads as no state. -/
def Torn (c : Config) (x : Site) : Prop :=
  ∃ m, x.files.entry c.markerPath = some m ∧ ∀ state, parseMarker (x.files.file m).text ≠ .ok state

structure Tidy (c : Config) (x : Site) : Prop where
  numbered : x.files.Numbered
  bounded : x.files.next ≤ inodes
  sidecar : ∀ n i, c.isSidecar n → x.files.entry n = some i → (x.files.file i).kind = .regular ∧
    (x.files.file i).isPrivate ∧ (x.files.file i).text.length ≤ adminArtifactMaxBytes ∧
    ∀ m, x.files.entry m = some i → m = n
  order : x.files.entry c.lockName = none → x.files.entry c.markerPath = none
  unmarked : x.files.entry c.markerPath = none → x.files.entry c.final = none
  /-- The marker's text is a state's, or the beginning of one. -/
  written : ∀ m, x.files.entry c.markerPath = some m →
    ∃ state text, markerBytes state = .ok text ∧ (x.files.file m).text <+: text
  consistent : ∀ m state, x.files.entry c.markerPath = some m →
    parseMarker (x.files.file m).text = .ok state → Consistent c x state

/-- Every candidate for the pending path is the final path or taken. -/
def Occupied (c : Config) (x : Site) : Prop :=
  ∀ index < adminPendingMaxCandidates, ∀ name,
    pendingCandidate index c.final.length = some name → name = c.final ∨ (x.files.entry name).isSome

section Alone
variable (c : Config) (s : ℕ)

/-- What a server leaves when it dies here: nobody but it has a lock. -/
def Leaves (x : Site) : Prop := Tidy c x ∧ ∀ i t, x.holder i = some t → t = s

/-- The terms of a server that is alone. -/
def alone : Terms Reply Failure Site where
  exec op x reply y := (reply, y) = c.exec s op x
  rely _ x y := y = x
  here op x := ∀ count, Leaves c s (Op.cut count (some op) x)
  good _ _ _ := True

/-- Why a server gives up when the marker is whole: no inode or no pending name is left. -/
def GivesUp (e : Failure) (x : Site) : Prop :=
  Leaves c s x ∧ (e = .io ∧ inodes ≤ x.files.next ∨ e = exhausted ∧ Occupied c x)

/-- From states with `P` the program comes to a result with `Q`, or to an error with `E`. -/
def Runs {α : Type} (E : Failure → Site → Prop) (P : Site → Prop) (p : Task α)
    (Q : α → Site → Prop) : Prop :=
  ∀ x, P x → p.Safe (alone c s) (fun r z => (∃ a, r = .ok a ∧ Q a z) ∨
    ∃ e, r = .error e ∧ E e z) x

variable {c s} {α β : Type} {E : Failure → Site → Prop} {P P' : Site → Prop} {p : Task α}
  {Q Q' : α → Site → Prop}

theorem Runs.bind {f : α → Task β} {R : α → Site → Prop} {Q : β → Site → Prop}
    (hp : Runs c s E P p R) (hf : ∀ a, Runs c s E (R a) (f a) Q) : Runs c s E P (p.bind f) Q := by
  intro x hP
  rw [Process.safe_bind]
  refine (hp x hP).mono ?_
  rintro r y (⟨a, rfl, hR⟩ | ⟨e, rfl, he⟩)
  · exact hf a y hR
  · exact .inr ⟨e, rfl, he⟩

theorem Runs.pure {a : α} (h : ∀ x, P x → Q a x) : Runs c s E P (Process.done a) Q :=
  fun x hP => .inl ⟨a, rfl, h x hP⟩

theorem Runs.fail {e : Failure} (h : ∀ x, P x → E e x) :
    Runs c s E P (Process.fail e : Task α) Q :=
  fun x hP => .inr ⟨e, rfl, h x hP⟩

theorem Runs.mono (hp : Runs c s E P p Q) (hP : ∀ x, P' x → P x) (hQ : ∀ a x, Q a x → Q' a x) :
    Runs c s E P' p Q' := by
  intro x hx
  refine (hp x (hP x hx)).mono ?_
  rintro r y (⟨a, rfl, hQa⟩ | he)
  · exact .inl ⟨a, rfl, hQ a y hQa⟩
  · exact .inr he

theorem Runs.require {condition : Prop} [Decidable condition] {e : Failure} {Q : Unit → Site → Prop}
    (h : ∀ x, P x → condition ∧ Q () x) : Runs c s E P (.require condition e) Q := by
  intro x hP
  obtain ⟨hc, hQ⟩ := h x hP
  rw [Process.safe_require]
  exact ⟨fun _ => .inl ⟨(), rfl, hQ⟩, fun hn => absurd hc hn⟩

theorem Runs.ofExcept {a : Except Failure α} (h : ∀ x, P x → ∃ b, a = .ok b ∧ Q b x) :
    Runs c s E P (.ofExcept a) Q := by
  intro x hP
  obtain ⟨b, rfl, hQ⟩ := h x hP
  exact .inl ⟨b, rfl, hQ⟩

/-- An operation, whole or cut short. -/
theorem Runs.operation {op : Op} {Q : Reply op → Site → Prop}
    (hhere : ∀ x, P x → ∀ count, Leaves c s (Op.cut count (some op) x))
    (hexec : ∀ x, P x → (∃ a, (c.exec s op x).1 = .ok a ∧ Q a (c.exec s op x).2) ∨
      ∃ e, (c.exec s op x).1 = .error e ∧ E e (c.exec s op x).2) :
    Runs c s E P (perform op) Q := by
  intro x hP
  rw [perform, Process.safe_perform]
  rintro y rfl
  refine ⟨hhere y hP, fun reply z h => ⟨trivial, ?_⟩⟩
  obtain ⟨rfl, rfl⟩ : reply = (c.exec s op y).1 ∧ z = (c.exec s op y).2 :=
    ⟨congrArg Prod.fst h, congrArg Prod.snd h⟩
  exact hexec y hP

/-- An operation that is not a write succeeds. -/
theorem Runs.act {op : Op} {Q : Reply op → Site → Prop} (hhere : ∀ x, P x → Leaves c s x)
    (hop : op.writes = false)
    (hexec : ∀ x, P x → ∃ a, (c.exec s op x).1 = .ok a ∧ Q a (c.exec s op x).2) :
    Runs c s E P (perform op) Q := by
  refine .operation (fun x hP count => ?_) fun x hP => .inl (hexec x hP)
  cases op with
  | write i text => cases hop
  | _ => exact hhere x hP

/-- A program without errors. -/
theorem Runs.attempt {Q : Except Failure α → Site → Prop}
    (hp : Runs c s (fun _ _ => False) P p fun a => Q (.ok a)) : Runs c s E P p.attempt Q := by
  intro x hP
  rw [Process.safe_attempt]
  refine (hp x hP).mono ?_
  rintro r y (⟨a, rfl, hQ⟩ | ⟨e, rfl, hnever⟩)
  · exact .inl ⟨_, rfl, hQ⟩
  · exact hnever.elim

end Alone

section Sidecars
variable {c : Config} {s : ℕ} {E : Failure → Site → Prop} {P : Site → Prop}

theorem stat_runs (hP : ∀ x, P x → Leaves c s x) (n : Name) :
    Runs c s E P (perform (.stat n)) fun a x =>
      P x ∧ a = (x.files.entry n).map fun i => (c.identity i, x.files.file i) :=
  .act hP rfl fun _ h => ⟨_, rfl, h, rfl⟩

theorem fstat_runs (hP : ∀ x, P x → Leaves c s x) (i : ℕ) :
    Runs c s E P (perform (.fstat i)) fun a x => P x ∧ a = (c.identity i, x.files.file i) :=
  .act hP rfl fun _ h => ⟨_, rfl, h, rfl⟩

theorem sync_runs (hP : ∀ x, P x → Leaves c s x) : Runs c s E P (perform .sync) fun _ => P :=
  .act hP rfl fun _ h => ⟨_, rfl, h⟩

variable {path : Name} {file : ℕ} (hpath : c.isSidecar path)
  (hP : ∀ x, P x → Leaves c s x ∧ x.files.entry path = some file)
include hpath hP

theorem validatePrivateFileMetadata_runs : ∀ node : Node, Runs c s E
    (fun x => P x ∧ node = x.files.file file)
    (validatePrivateFileMetadata path (c.identity file) node adminArtifactMaxBytes)
    fun a x => P x ∧ a = c.identity file := by
  intro node
  have hsidecar : ∀ x, P x ∧ node = x.files.file file → node.kind = .regular ∧ node.isPrivate ∧
      node.text.length ≤ adminArtifactMaxBytes := by
    rintro x ⟨hPx, rfl⟩
    obtain ⟨⟨htidy, -⟩, hentry⟩ := hP x hPx
    obtain ⟨hkind, hprivate, hlength, -⟩ := htidy.sidecar path file hpath hentry
    exact ⟨hkind, hprivate, hlength⟩
  refine .bind (.require fun x h => ⟨(hsidecar x h).1, h⟩) fun _ =>
    .bind (.require fun x h => ⟨(hsidecar x h).2.1, h⟩) fun _ =>
    .bind (R := fun _ x => P x ∧ node = x.files.file file)
      (.require fun x h => ⟨(hsidecar x h).2.2, h⟩) fun _ =>
    .bind (stat_runs (fun x h => (hP x h.1).1) path) fun reply => ?_
  match reply with
  | none =>
    refine .fail fun x h => ?_
    have hreply := h.2
    rw [(hP x h.1.1).2] at hreply
    cases hreply
  | some (pathIdentity, pathNode) =>
    refine .bind (R := fun _ => P) (.require fun x h => ?_) fun _ => .pure fun x h => ⟨h, rfl⟩
    have hreply := h.2
    rw [(hP x h.1.1).2] at hreply
    obtain ⟨rfl, rfl⟩ := Prod.mk.inj (Option.some.inj hreply)
    refine ⟨⟨?_, rfl⟩, h.1.1⟩
    rw [← h.1.2]
    exact (hsidecar x h.1).1

theorem validateOpenPrivateFile_runs :
    Runs c s E P (validateOpenPrivateFile path file) fun a x => P x ∧ a = c.identity file := by
  refine .bind (fstat_runs (fun x h => (hP x h).1) file) fun opened => ?_
  obtain ⟨openIdentity, openNode⟩ := opened
  refine .bind (R := fun a x => P x ∧ a = c.identity file) ?_ fun identity => ?_
  · intro x h
    obtain ⟨rfl, rfl⟩ := Prod.mk.inj h.2
    exact validatePrivateFileMetadata_runs hpath hP _ x ⟨h.1, rfl⟩
  · refine .bind (R := fun a x => (P x ∧ identity = c.identity file) ∧
      a = (c.identity file, x.files.file file))
        (fstat_runs (fun x h => (hP x h.1).1) file) fun again => ?_
    refine .bind (R := fun _ x => P x ∧ identity = c.identity file)
      (.require fun x h => ?_) fun _ =>
      .pure fun x h => h
    exact ⟨(congrArg Prod.fst h.2).trans h.1.2.symm, h.1⟩

theorem sidecarExists_runs : Runs c s E P (sidecarExists path) fun a x => P x ∧ a = true := by
  refine .bind (stat_runs (fun x h => (hP x h).1) path) fun reply => ?_
  match reply with
  | none =>
    refine .pure fun x h => ?_
    have hreply := h.2
    rw [(hP x h.1).2] at hreply
    cases hreply
  | some (identity, node) =>
    refine .bind (R := fun _ => P) ?_ fun _ => .pure fun x h => ⟨h, rfl⟩
    intro x h
    have hreply := h.2
    rw [(hP x h.1).2] at hreply
    obtain ⟨rfl, rfl⟩ := Prod.mk.inj (Option.some.inj hreply)
    exact (validatePrivateFileMetadata_runs hpath hP _ ).mono (fun _ h => h) (fun _ _ h => h.1) x
      ⟨h.1, rfl⟩

omit hpath in
theorem openSidecar_runs : Runs c s E P (openSidecar path true) fun a x => P x ∧ a = some file := by
  refine .bind (R := fun a x => P x ∧ a = file) (.act (fun x h => (hP x h).1) rfl fun x h => ?_)
    fun a => .pure fun x h => ⟨h.1, congrArg some h.2⟩
  exact ⟨file, by simp [Config.exec, (hP x h).2], by simpa [Config.exec, (hP x h).2] using h⟩

end Sidecars

section Changes
variable {c : Config} {s : ℕ} {x y : Site}

def Site.setText (x : Site) (m : ℕ) (text : Text) : Site :=
  x.setNode m { x.files.file m with text := text }

@[simp] theorem setText_text (m : ℕ) (text : Text) :
    ((x.setText m text).files.file m).text = text := by
  simp [Site.setText, Site.setNode]

@[simp] theorem setText_entry (m : ℕ) (text : Text) :
    (x.setText m text).files.entry = x.files.entry := rfl

@[simp] theorem setText_next (m : ℕ) (text : Text) :
    (x.setText m text).files.next = x.files.next := rfl

@[simp] theorem setText_holder (m : ℕ) (text : Text) : (x.setText m text).holder = x.holder := rfl

theorem setText_kind (m i : ℕ) (text : Text) :
    ((x.setText m text).files.file i).kind = (x.files.file i).kind := by
  simp only [Site.setText, Site.setNode, Directory.write_file]
  split_ifs with h
  · rw [h]
  · rfl

theorem overwrite_setText (m : ℕ) (text : Text) :
    (x.setText m []).overwrite m text = x.setText m text := by
  simp [Site.overwrite, Site.setText, Site.setNode, Directory.write]

/-- What the sidecars and their numbers are, whatever the marker says. -/
structure Kept (c : Config) (x y : Site) : Prop where
  numbered : x.files.Numbered → y.files.Numbered
  bounded : x.files.next ≤ inodes → y.files.next ≤ inodes
  next : x.files.next ≤ y.files.next
  sidecars : ∀ n, c.isSidecar n → y.files.entry n = x.files.entry n
  names : ∀ n i m, c.isSidecar n → x.files.entry n = some i → y.files.entry m = some i →
    (∀ k, x.files.entry k = some i → k = n) → m = n
  nodes : ∀ n i, c.isSidecar n → x.files.entry n = some i →
    (∀ k, x.files.entry k = some i → k = n) → y.files.file i = x.files.file i
  kinds : ∀ i, i < x.files.next → (y.files.file i).kind = (x.files.file i).kind
  holder : y.holder = x.holder

theorem Kept.tidy (h : Kept c x y) (hx : Tidy c x)
    (hunmarked : y.files.entry c.markerPath = none → y.files.entry c.final = none)
    (hconsistent : ∀ m state, x.files.entry c.markerPath = some m →
      parseMarker (x.files.file m).text = .ok state → Consistent c y state) : Tidy c y where
  numbered := h.numbered hx.numbered
  bounded := h.bounded hx.bounded
  sidecar n i hn hi := by
    rw [h.sidecars n hn] at hi
    obtain ⟨hkind, hprivate, hlength, halone⟩ := hx.sidecar n i hn hi
    rw [h.nodes n i hn hi halone]
    exact ⟨hkind, hprivate, hlength, fun m hm => h.names n i m hn hi hm halone⟩
  order hlock := by
    rw [h.sidecars _ (.inl rfl)] at hlock
    rw [h.sidecars _ (.inr rfl)]
    exact hx.order hlock
  unmarked := hunmarked
  written m hm := by
    rw [h.sidecars _ (.inr rfl)] at hm
    rw [h.nodes _ m (.inr rfl) hm (hx.sidecar _ m (.inr rfl) hm).2.2.2]
    exact hx.written m hm
  consistent m state hm hparse := by
    rw [h.sidecars _ (.inr rfl)] at hm
    rw [h.nodes _ m (.inr rfl) hm (hx.sidecar _ m (.inr rfl) hm).2.2.2] at hparse
    exact hconsistent m state hm hparse

/-- A change of one path other than the sidecars. -/
theorem kept_create {n : Name} {node : Node} (hx : Tidy c x) (hn : ¬ c.isSidecar n)
    (hnext : x.files.next < inodes) : Kept c x { x with files := x.files.create n node } where
  numbered h := h.create _ _
  bounded _ := hnext
  next := Nat.le_succ _
  sidecars m hm := by
    rw [Directory.create_entry, if_neg]
    rintro rfl
    exact hn hm
  names m i k _ hi hk halone := by
    rw [Directory.create_entry] at hk
    split_ifs at hk
    · obtain rfl := Option.some.inj hk
      exact absurd (hx.numbered m _ hi) (lt_irrefl _)
    · exact halone k hk
  nodes m i _ hi _ := by
    rw [Directory.create_file, if_neg (Nat.ne_of_lt (hx.numbered m i hi))]
  kinds i hi := by rw [Directory.create_file, if_neg (Nat.ne_of_lt hi)]
  holder := rfl

theorem kept_setNode {n : Name} {i : ℕ} {node : Node} (hn : ¬ c.isSidecar n)
    (hi : x.files.entry n = some i) (hkind : node.kind = (x.files.file i).kind) :
    Kept c x (x.setNode i node) where
  numbered h := h.write _ _
  bounded h := h
  next := le_rfl
  sidecars _ _ := rfl
  names _ _ m _ _ hm halone := halone m hm
  nodes m j hm _ halone := by
    rw [Site.setNode, Directory.write_file, if_neg]
    rintro rfl
    exact hn (halone n hi ▸ hm)
  kinds j _ := by
    rw [Site.setNode, Directory.write_file]
    split_ifs with hj
    · rw [hj, hkind]
    · rfl
  holder := rfl

theorem kept_remove {n : Name} (hn : ¬ c.isSidecar n) : Kept c x (x.remove n) := by
  unfold Site.remove
  split
  · exact ⟨id, id, le_rfl, fun _ _ => rfl, fun _ _ m _ _ hm halone => halone m hm, fun _ _ _ _ _ =>
      rfl,
      fun _ _ => rfl, rfl⟩
  · rename_i i hi
    refine ⟨fun h => (h.unlink _).write _ _, id, le_rfl, ?_, ?_, ?_, ?_, rfl⟩
    · intro m hm
      rw [Directory.write_entry, Directory.unlink_entry, if_neg]
      rintro rfl
      exact hn hm
    · intro m j k _ _ hk halone
      rw [Directory.write_entry, Directory.unlink_entry] at hk
      split_ifs at hk
      exact halone k hk
    · intro m j hm _ halone
      rw [Directory.write_file, Directory.unlink_file, if_neg]
      rintro rfl
      exact hn (halone n hi ▸ hm)
    · intro j _
      rw [Directory.write_file, Directory.unlink_file]
      split_ifs with hj
      · rw [hj]
      · rfl

theorem kept_link {old new : Name} {i : ℕ} {node : Node} (hold : ¬ c.isSidecar old)
    (hnew : ¬ c.isSidecar new) (hi : x.files.entry old = some i)
    (hkind : node.kind = (x.files.file i).kind) :
    Kept c x { x with files := (x.files.link i new).write i node } where
  numbered h := (h.link _ (h old i hi)).write _ _
  bounded h := h
  next := le_rfl
  sidecars m hm := by
    rw [Directory.write_entry, Directory.link_entry, if_neg]
    rintro rfl
    exact hnew hm
  names n j m hn _ hm halone := by
    rw [Directory.write_entry, Directory.link_entry] at hm
    split_ifs at hm
    · obtain rfl := Option.some.inj hm
      exact absurd (halone old hi ▸ hn) hold
    · exact halone m hm
  nodes n j hn _ halone := by
    rw [Directory.write_file, Directory.link_file, if_neg]
    rintro rfl
    exact hold (halone old hi ▸ hn)
  kinds j _ := by
    rw [Directory.write_file, Directory.link_file]
    split_ifs with hj
    · rw [hj, hkind]
    · rfl
  holder := rfl

theorem Consistent.setText {m : ℕ} {text : Text} {state : MarkerState} :
    Consistent c (x.setText m text) state ↔ Consistent c x state := by
  cases state <;> simp [Consistent, setText_kind]

/-- The marker's text is written, up to here. -/
theorem tidy_setText {m : ℕ} {text : Text} (hx : Tidy c x)
    (hm : x.files.entry c.markerPath = some m)
    (hlength : text.length ≤ adminArtifactMaxBytes)
    (hwritten : ∃ state whole, markerBytes state = .ok whole ∧ text <+: whole)
    (hconsistent : ∀ state, parseMarker text = .ok state → Consistent c x state) :
    Tidy c (x.setText m text) where
  numbered := hx.numbered.write _ _
  bounded := hx.bounded
  sidecar n i hn hi := by
    obtain ⟨hkind, hprivate, hold, halone⟩ := hx.sidecar n i hn hi
    simp only [Site.setText, Site.setNode, Directory.write_file]
    split_ifs with him
    · subst him
      exact ⟨hkind, hprivate, hlength, halone⟩
    · exact ⟨hkind, hprivate, hold, halone⟩
  order := hx.order
  unmarked := hx.unmarked
  written j hj := by
    obtain rfl : m = j := Option.some.inj (hm.symm.trans hj)
    rw [setText_text]
    exact hwritten
  consistent j state hj hparse := by
    obtain rfl : m = j := Option.some.inj (hm.symm.trans hj)
    rw [setText_text] at hparse
    exact Consistent.setText.mpr (hconsistent state hparse)

end Changes

section Procedures
variable {c : Config} {s l m i : ℕ} {E : Failure → Site → Prop} {P : Site → Prop}
  {state : MarkerState} {path : Name}

/-- The open owner lock of file `l`. -/
def Config.lockFile (c : Config) (l : ℕ) : OwnerLock := ⟨c.lockName, l, c.identity l⟩

def Config.markerFile (c : Config) (m : ℕ) : MarkerFile := ⟨c.markerPath, m, c.identity m⟩

/-- A server that has opened both sidecars. -/
structure Working (c : Config) (s l m : ℕ) (x : Site) : Prop where
  leaves : Leaves c s x
  lock : x.files.entry c.lockName = some l
  marker : x.files.entry c.markerPath = some m

theorem verify_runs (hP : ∀ x, P x → Leaves c s x ∧ x.files.entry c.lockName = some l) :
    Runs c s E P (c.lockFile l).verify fun _ => P :=
  .bind (validateOpenPrivateFile_runs (.inl rfl) hP) fun _ => .require fun _ h => ⟨h.2, h.1⟩

theorem Consistent.valid {x : Site} (hx : Tidy c x) (h : Consistent c x state) : state.Valid := by
  have hlock : ∀ l, x.files.entry c.lockName = some l → (c.identity l).Valid := fun l hl =>
    Config.identity_valid ((hx.numbered _ l hl).trans_le hx.bounded)
  have hnode : ∀ i, i < x.files.next → (c.identity i).Valid := fun i hi =>
    Config.identity_valid (hi.trans_le hx.bounded)
  rintro ownerLock identity hrecorded
  cases state with
  | empty => cases hrecorded
  | pending lock id name =>
    obtain ⟨rfl, rfl⟩ := Prod.mk.inj (Option.some.inj hrecorded)
    obtain ⟨l, i, hl, rfl, rfl, hi, -⟩ := h
    exact ⟨hlock l hl, hnode i hi⟩
  | published lock id name =>
    obtain ⟨rfl, rfl⟩ := Prod.mk.inj (Option.some.inj hrecorded)
    obtain ⟨l, i, hl, rfl, rfl, hi, -⟩ := h
    exact ⟨hlock l hl, hnode i hi⟩

theorem Consistent.part {x : Site} {state' : MarkerState} (h : Consistent c x state)
    (hpart : state.Part state') : Consistent c x state' := by
  cases hpart with
  | whole => exact h
  | pendingLost =>
    obtain ⟨l, i, hl, hlock, hid, hi, hkind, hfinal, -⟩ := h
    exact ⟨l, i, hl, hlock, hid, hi, hkind, hfinal, fun _ hname => by cases hname⟩

/-- The marker after its text was written, from a state that the new text is consistent with. -/
theorem writeState_runs {text : Text} (htext : markerBytes state = .ok text)
    (hP : ∀ x, P x → Working c s l m x ∧ Consistent c x state) :
    Runs c s E P ((c.markerFile m).writeState state (c.lockFile l)) fun _ y =>
      ∃ x, P x ∧ y = x.setText m text := by
  have hlength : ∀ x, P x → text.length ≤ adminArtifactMaxBytes := fun x h =>
    length_markerBytes ((hP x h).2.valid (hP x h).1.leaves.1) htext
  -- A death leaves a part of the text.
  have hcut : ∀ x, P x → ∀ p, p <+: text → Leaves c s (x.setText m p) := by
    intro x h p hp
    obtain ⟨hworking, hconsistent⟩ := hP x h
    refine ⟨tidy_setText hworking.leaves.1 hworking.marker
      (hp.length_le.trans (hlength x h)) ⟨state, text, htext, hp⟩ fun state' hparse => ?_,
      hworking.leaves.2⟩
    exact hconsistent.part (parseMarker_part (hconsistent.valid hworking.leaves.1) htext hp hparse)
  have hlock : ∀ x, P x → Leaves c s x ∧ x.files.entry c.lockName = some l := fun x h =>
    ⟨(hP x h).1.leaves, (hP x h).1.lock⟩
  have hmarker : ∀ x, P x → Leaves c s x ∧ x.files.entry c.markerPath = some m := fun x h =>
    ⟨(hP x h).1.leaves, (hP x h).1.marker⟩
  refine .bind (R := fun bytes x => P x ∧ bytes = text) (.ofExcept fun x h => ⟨text, htext, h, rfl⟩)
    fun bytes => ?_
  refine .bind (R := fun _ x => P x ∧ bytes = text)
    (.require fun x h => ⟨h.2 ▸ hlength x h.1, h⟩) fun _ => ?_
  intro x h
  obtain ⟨hPx, rfl⟩ := h
  refine (Runs.bind (verify_runs hlock) fun _ =>
    Runs.bind (validateOpenPrivateFile_runs (.inr rfl) hmarker)
    fun _ => .bind (R := fun _ => P) (.require fun x h => ⟨h.2, h.1⟩) fun _ =>
    .bind (verify_runs hlock) fun _ => ?_) x hPx
  refine .bind (R := fun _ y => ∃ x, P x ∧ y = x.setText m [])
    (.operation (fun x h _ => (hP x h).1.leaves) fun x h => .inl ⟨(), rfl, x, h, rfl⟩) fun _ => ?_
  refine .bind (R := fun _ y => ∃ x, P x ∧ y = x.setText m bytes) (.operation ?_ ?_) fun _ => ?_
  · rintro y ⟨x, h, rfl⟩ count
    have hcutText : Op.cut count (some (.write m bytes)) (x.setText m []) =
        x.setText m (bytes.take count) := overwrite_setText m _
    exact hcutText ▸ hcut x h _ (List.take_prefix _ _)
  · rintro y ⟨x, h, rfl⟩
    exact .inl ⟨(), rfl, x, h, overwrite_setText m _⟩
  have hwritten : ∀ y, (∃ x, P x ∧ y = x.setText m bytes) → Leaves c s y ∧
      y.files.entry c.lockName = some l ∧ y.files.entry c.markerPath = some m := by
    rintro y ⟨x, h, rfl⟩
    exact ⟨hcut x h _ (List.prefix_refl _), (hP x h).1.lock, (hP x h).1.marker⟩
  refine .bind (sync_runs fun y h => (hwritten y h).1) fun _ =>
    .bind (sync_runs fun y h => (hwritten y h).1) fun _ =>
    .bind (verify_runs fun y h => ⟨(hwritten y h).1, (hwritten y h).2.1⟩) fun _ =>
    .bind (validateOpenPrivateFile_runs (.inr rfl) fun y h =>
      ⟨(hwritten y h).1, (hwritten y h).2.2⟩)
      fun _ => ?_
  exact .require fun y h => ⟨h.2, h.1⟩

theorem remove_none {x : Site} (h : x.files.entry path = none) : x.remove path = x := by
  rw [Site.remove, h]

/-- A path that is free, or holds this socket, is free afterwards. -/
theorem removeOwned_runs (hP : ∀ x, P x → Leaves c s x ∧ x.files.entry c.lockName = some l ∧
      (x.files.entry path = none ∨ x.files.entry path = some i) ∧ (x.files.file i).kind = .socket) :
    Runs c s E P (removeOwned (c.lockFile l) path (c.identity i)) fun a y =>
      ∃ x, P x ∧ a = (x.files.entry path).isSome ∧ y = x.remove path := by
  have hleaves : ∀ x, P x → Leaves c s x := fun x h => (hP x h).1
  have hlock : ∀ x, P x → Leaves c s x ∧ x.files.entry c.lockName = some l := fun x h =>
    ⟨(hP x h).1, (hP x h).2.1⟩
  have hstat : ∀ x actual, P x → some actual = (x.files.entry path).map (fun i =>
      (c.identity i, x.files.file i)) → x.files.entry path = some i ∧
        actual.2.kind = .socket ∧ actual.1 = c.identity i := by
    intro x actual h hactual
    obtain ⟨-, -, hfree | hentry, hkind⟩ := hP x h
    · rw [hfree] at hactual
      cases hactual
    · rw [hentry] at hactual
      obtain rfl := Option.some.inj hactual
      exact ⟨hentry, hkind, rfl⟩
  have hnone : ∀ x, P x →
    none = (x.files.entry path).map (fun i => (c.identity i, x.files.file i)) →
      x.files.entry path = none := by
    intro x h hnone
    exact Option.map_eq_none_iff.mp hnone.symm
  have hfalse : Runs c s E (fun x => P x ∧ none = (x.files.entry path).map (fun i =>
      (c.identity i, x.files.file i))) (pure false) fun a y =>
      ∃ x, P x ∧ a = (x.files.entry path).isSome ∧ y = x.remove path := by
    refine .pure fun x h => ⟨x, h.1, ?_, ?_⟩
    · rw [hnone x h.1 h.2]
      rfl
    · rw [remove_none (hnone x h.1 h.2)]
  refine .bind (verify_runs hlock) fun _ => .bind (stat_runs hleaves path) fun first => ?_
  match first with
  | none => exact hfalse
  | some actual =>
    refine .bind (R := fun _ => P) (.require fun x h => ⟨(hstat x actual h.1 h.2).2, h.1⟩) fun _ =>
      .bind (verify_runs hlock) fun _ => .bind (stat_runs hleaves path) fun second => ?_
    match second with
    | none => exact hfalse
    | some actual =>
      refine .bind (R := fun _ x => P x ∧ x.files.entry path = some i) (.require fun x h =>
        ⟨(hstat x actual h.1 h.2).2, h.1, (hstat x actual h.1 h.2).1⟩) fun _ => ?_
      refine .bind (R := fun _ y => ∃ x, P x ∧ x.files.entry path = some i ∧ y = x.remove path)
        (.act (fun x h => hleaves x h.1) rfl fun x h => ?_) fun _ => .pure ?_
      · refine ⟨(), ?_, x, h.1, h.2, ?_⟩ <;> simp [Config.exec, h.2]
      · rintro y ⟨x, h, hentry, rfl⟩
        exact ⟨x, h, by rw [hentry]; rfl, rfl⟩

theorem checkOwned_runs (hP : ∀ x, P x → Leaves c s x ∧
      (x.files.entry path = none ∨ x.files.entry path = some i) ∧ (x.files.file i).kind = .socket) :
    Runs c s E P (checkOwned (c.identity i) path) fun _ => P := by
  refine .bind (stat_runs (fun x h => (hP x h).1) path) fun reply => ?_
  match reply with
  | none => exact .pure fun _ h => h.1
  | some actual =>
    refine .require fun x h => ?_
    obtain ⟨-, hfree | hentry, hkind⟩ := hP x h.1
    · have hactual := h.2
      rw [hfree] at hactual
      cases hactual
    · have hactual := h.2
      rw [hentry] at hactual
      obtain rfl := Option.some.inj hactual
      exact ⟨⟨hkind, rfl⟩, h.1⟩

end Procedures

section Recovery
variable {c : Config} {s l m i : ℕ} {E : Failure → Site → Prop} {x : Site} {state : MarkerState}
  {n : Name}

theorem remove_entry_self : (x.remove n).files.entry n = none := by
  unfold Site.remove
  split
  · assumption
  · simp

theorem remove_entry_or (k : Name) :
    (x.remove n).files.entry k = none ∨ (x.remove n).files.entry k = x.files.entry k := by
  by_cases hk : k = n
  · exact .inl (hk ▸ remove_entry_self)
  · exact .inr (remove_entry hk)

theorem remove_allows {k : Name} (h : x.files.entry k = none ∨ x.files.entry k = some i) :
    (x.remove n).files.entry k = none ∨ (x.remove n).files.entry k = some i := by
  rcases remove_entry_or k with hnone | hsame
  · exact .inl hnone
  · rw [hsame]
    exact h

theorem Consistent.remove (hn : ¬ c.isSidecar n) (h : Consistent c x state) :
    Consistent c (x.remove n) state := by
  have hkept := kept_remove (x := x) hn
  have hlock : ∀ l, x.files.entry c.lockName = some l →
    (x.remove n).files.entry c.lockName = some l :=
    fun l hl => (hkept.sidecars _ (.inl rfl)).trans hl
  cases state with
  | empty => exact (remove_entry_or c.final).elim id fun hsame => hsame.trans h
  | pending lock id name =>
    obtain ⟨l, i, hl, hlockId, hid, hi, hkind, hfinal, hne, hlength, hname⟩ := h
    exact ⟨l, i, hlock l hl, hlockId, hid, hi.trans_le hkept.next, (hkept.kinds i hi).trans hkind,
      remove_allows hfinal, hne, hlength, remove_allows hname⟩
  | published lock id pendingName =>
    obtain ⟨l, i, hl, hlockId, hid, hi, hkind, hfinal, hpending⟩ := h
    refine ⟨l, i, hlock l hl, hlockId, hid, hi.trans_le hkept.next, (hkept.kinds i hi).trans hkind,
      remove_allows hfinal, fun name hname => ?_⟩
    obtain ⟨hne, hlength, hentry⟩ := hpending name hname
    exact ⟨hne, hlength, remove_allows hentry⟩

theorem Tidy.remove (hx : Tidy c x) (hn : ¬ c.isSidecar n) : Tidy c (x.remove n) := by
  have hkept := kept_remove (x := x) hn
  refine hkept.tidy hx ?_ fun m state hm hparse => (hx.consistent m state hm hparse).remove hn
  intro hmarker
  rw [hkept.sidecars _ (.inr rfl)] at hmarker
  exact (remove_entry_or c.final).elim id fun hsame => hsame.trans (hx.unmarked hmarker)

theorem Leaves.remove (hx : Leaves c s x) (hn : ¬ c.isSidecar n) : Leaves c s (x.remove n) := by
  refine ⟨hx.1.remove hn, ?_⟩
  rw [(kept_remove (c := c) hn).holder]
  exact hx.2

theorem Working.remove (h : Working c s l m x) (hn : ¬ c.isSidecar n) :
    Working c s l m (x.remove n) where
  leaves := h.leaves.remove hn
  lock := ((kept_remove hn).sidecars _ (.inl rfl)).trans h.lock
  marker := ((kept_remove hn).sidecars _ (.inr rfl)).trans h.marker

/-- The marker is empty, and so is the final path. -/
structure Cleared (c : Config) (s l m : ℕ) (x : Site) : Prop extends Working c s l m x where
  parse : parseMarker (x.files.file m).text = .ok .empty

theorem Cleared.final (h : Cleared c s l m x) : x.files.entry c.final = none :=
  h.leaves.1.consistent m .empty h.marker h.parse

/-- A socket that the marker names: what may be at the two paths. -/
structure Named (c : Config) (s l m i : ℕ) (pendingName : Option Name) (x : Site) : Prop
    extends Working c s l m x where
  lt : i < x.files.next
  kind : (x.files.file i).kind = .socket
  final : x.files.entry c.final = none ∨ x.files.entry c.final = some i
  pending : ∀ name ∈ pendingName, name ≠ c.final ∧ name.length ≤ c.final.length ∧
    (x.files.entry name = none ∨ x.files.entry name = some i)

theorem Named.remove {pendingName : Option Name} (h : Named c s l m i pendingName x)
    (hn : ¬ c.isSidecar n) : Named c s l m i pendingName (x.remove n) where
  toWorking := h.toWorking.remove hn
  lt := h.lt.trans_le (kept_remove hn).next
  kind := ((kept_remove hn).kinds i h.lt).trans h.kind
  final := remove_allows h.final
  pending name hname := by
    obtain ⟨hne, hlength, hentry⟩ := h.pending name hname
    exact ⟨hne, hlength, remove_allows hentry⟩

theorem markerBytes_empty :
    markerBytes .empty = .ok (unlines ["version=2".toList, "state=empty".toList]) :=
  rfl

/-- The marker of a free final path is emptied. -/
theorem writeEmpty_runs {P : Site → Prop}
    (hP : ∀ x, P x → Working c s l m x ∧ x.files.entry c.final = none) :
    Runs c s E P ((c.markerFile m).writeState .empty (c.lockFile l)) fun _ => Cleared c s l m := by
  refine (writeState_runs markerBytes_empty fun x h => hP x h).mono (fun _ h => h) ?_
  rintro _ y ⟨x, hPx, rfl⟩
  obtain ⟨hworking, hfinal⟩ := hP x hPx
  have hparse : parseMarker (unlines ["version=2".toList, "state=empty".toList]) = .ok .empty := rfl
  refine ⟨⟨⟨tidy_setText hworking.leaves.1 hworking.marker (by decide)
    ⟨.empty, _, markerBytes_empty, List.prefix_refl _⟩ ?_, hworking.leaves.2⟩, hworking.lock,
    hworking.marker⟩, ?_⟩
  · intro state hstate
    rw [hparse] at hstate
    cases hstate
    exact hfinal
  · rw [setText_text]
    exact hparse

theorem recoverNamed_runs {pendingName : Option Name} :
    Runs c s E (Named c s l m i pendingName)
      (recoverNamed c (c.lockFile l) (c.markerFile m) (c.identity l) (c.identity i) pendingName)
      fun _ => Cleared c s l m := by
  have hfinal : ¬ c.isSidecar c.final := Config.not_isSidecar le_rfl
  have hleaves : ∀ x, Named c s l m i pendingName x → Leaves c s x := fun x h => h.leaves
  have hwrite : Runs c s E (fun x => Named c s l m i pendingName x ∧ x.files.entry c.final = none)
    (do
      perform .sync
      (c.markerFile m).writeState .empty (c.lockFile l)) fun _ => Cleared c s l m :=
    .bind (sync_runs fun x h => h.1.leaves) fun _ => writeEmpty_runs fun x h => ⟨h.1.toWorking, h.2⟩
  have hremove : ∀ rest : Task Unit,
      Runs c s E (fun x => Named c s l m i pendingName x ∧ x.files.entry c.final = none) rest
        (fun _ => Cleared c s l m) →
      Runs c s E (Named c s l m i pendingName) (do
        let _ ← removeOwned (c.lockFile l) c.final (c.identity i)
        rest) fun _ => Cleared c s l m := by
    intro rest hrest
    refine .bind (R := fun _ x => Named c s l m i pendingName x ∧ x.files.entry c.final = none) ?_
      fun _ => hrest
    refine (removeOwned_runs fun x h => ⟨h.leaves, h.lock, h.final, h.kind⟩).mono (fun _ h => h) ?_
    rintro _ y ⟨x, h, -, rfl⟩
    exact ⟨h.remove hfinal, remove_entry_self⟩
  refine .bind (.require fun x h => ⟨rfl, h⟩) fun _ => .bind (.require fun x h => ⟨?_, h⟩) fun _ =>
    .bind (R := fun _ => Named c s l m i pendingName) (.require fun x h => ⟨?_, h⟩) fun _ =>
    .bind (checkOwned_runs fun x h => ⟨h.leaves, h.final, h.kind⟩) fun _ => ?_
  · rintro rfl
    exact (h.pending c.final rfl).1 rfl
  · exact fun name hname => (h.pending name hname).2.1
  cases pendingName with
  | none => exact hremove _ hwrite
  | some name =>
    refine .bind (checkOwned_runs fun x h => ⟨h.leaves, (h.pending name rfl).2.2, h.kind⟩) fun _ =>
      hremove _
        (.bind (R := fun _ x => Named c s l m i (some name) x ∧ x.files.entry c.final = none) ?_
        fun _ => hwrite)
    refine (removeOwned_runs fun x h =>
      ⟨h.1.leaves, h.1.lock, (h.1.pending name rfl).2.2, h.1.kind⟩).mono
      (fun _ h => h) ?_
    rintro _ y ⟨x, ⟨h, hfree⟩, -, rfl⟩
    have hname : ¬ c.isSidecar name := Config.not_isSidecar (h.pending name rfl).2.1
    exact ⟨h.remove hname, (remove_entry_or c.final).elim id fun hsame => hsame.trans hfree⟩

theorem recoverMarker_runs : Runs c s E
    (fun x => Working c s l m x ∧ parseMarker (x.files.file m).text = .ok state)
    (recoverMarker c (c.lockFile l) (c.markerFile m) state) fun _ => Cleared c s l m := by
  refine .bind (verify_runs fun x h => ⟨h.1.leaves, h.1.lock⟩) fun _ => ?_
  have hconsistent : ∀ x, Working c s l m x ∧ parseMarker (x.files.file m).text = .ok state →
      Consistent c x state := fun x h => h.1.leaves.1.consistent m state h.1.marker h.2
  cases state with
  | empty =>
    refine .bind (stat_runs (fun x h => h.1.leaves) _) fun reply => ?_
    match reply with
    | none => exact .pure fun x h => ⟨h.1.1, h.1.2⟩
    | some _ =>
      refine .fail fun x h => ?_
      have hreply := h.2
      rw [(⟨h.1.1, h.1.2⟩ : Cleared c s l m x).final] at hreply
      cases hreply
  | pending lock id name =>
    intro x h
    obtain ⟨l', i, hl, rfl, rfl, hi, hkind, hfinal, hne, hlength, hname⟩ := hconsistent x h
    obtain rfl : l = l' := Option.some.inj (h.1.lock.symm.trans hl)
    refine recoverNamed_runs x ⟨h.1, hi, hkind, hfinal, ?_⟩
    rintro _ ⟨⟩
    exact ⟨hne, hlength, hname⟩
  | published lock id pendingName =>
    intro x h
    obtain ⟨l', i, hl, rfl, rfl, hi, hkind, hfinal, hpending⟩ := hconsistent x h
    obtain rfl : l = l' := Option.some.inj (h.1.lock.symm.trans hl)
    exact recoverNamed_runs x ⟨h.1, hi, hkind, hfinal, hpending⟩

end Recovery

section Candidates
variable {index maxBytes : ℕ} {name : Name}

theorem candidateDigits_mem (fuel value : ℕ) :
    ∀ d ∈ candidateDigits fuel value, d ∈ adminPendingAlphabet := by
  induction fuel generalizing value with
  | zero => simp [candidateDigits]
  | succ fuel ih =>
    intro d hd
    rw [candidateDigits, List.mem_cons] at hd
    rcases hd with rfl | hd
    · have hpos : 0 < adminPendingAlphabet.length := by decide
      rw [List.getD_eq_getElem?_getD, List.getElem?_eq_getElem (Nat.mod_lt _ hpos)]
      exact List.getElem_mem _
    · split_ifs at hd
      · cases hd
      · exact ih _ d hd

theorem length_candidateDigits (h : index < adminPendingMaxCandidates) :
    (candidateDigits (index + 1) index).length = if index < 64 then 1 else 2 := by
  have halphabet : adminPendingAlphabet.length = 64 := by decide
  have hbound : index < 4096 := h
  rw [candidateDigits, halphabet, List.length_cons]
  by_cases hsmall : index < 64
  · rw [if_pos (Nat.div_eq_of_lt hsmall), if_pos hsmall]
    rfl
  · have hdiv : index / 64 ≠ 0 := by omega
    obtain ⟨fuel, rfl⟩ : ∃ fuel, index = fuel + 1 := ⟨index - 1, by omega⟩
    rw [if_neg hdiv, if_neg hsmall, candidateDigits, halphabet, if_pos (by omega)]
    rfl

theorem pendingCandidate_markerName (h : pendingCandidate index maxBytes = some name) :
    ∃ encoded, markerName name = .ok encoded := by
  simp only [pendingCandidate] at h
  split at h
  · cases h
  · rename_i hlength
    cases h
    refine ⟨_, markerName_eq_ok.mpr ⟨?_, Nat.not_lt.mp fun hlt => hlength (.inr hlt), ?_, rfl⟩⟩
    · simp [candidateDigits]
    · intro d hd
      exact candidateDigits_mem _ _ d (List.mem_reverse.mp hd)

/-- Candidates get no shorter. -/
theorem pendingCandidate_none {j : ℕ} (h : pendingCandidate index maxBytes = none) (hij : index ≤ j)
    (hj : j < adminPendingMaxCandidates) : pendingCandidate j maxBytes = none := by
  have hindex := length_candidateDigits (hij.trans_lt hj)
  have hlength := length_candidateDigits hj
  have hname : adminPendingMaxNameBytes = 256 := by decide
  have hshorter : (if index < 64 then 1 else 2) ≤ if j < 64 then 1 else 2 := by
    split_ifs <;> omega
  simp only [pendingCandidate, List.length_reverse, hindex, hlength, hname] at h ⊢
  by_cases hlong : (if index < 64 then 1 else 2) > maxBytes ∨ (if index < 64 then 1 else 2) > 256
  · rw [if_pos]
    omega
  · rw [if_neg hlong] at h
    cases h

end Candidates

section Binding
variable {c : Config} {s l m : ℕ} {E : Failure → Site → Prop} {x : Site}

/-- A socket under a pending name, which the marker does not name yet. -/
def Fresh (c : Config) (bound : Name × ArtifactIdentity) (i : ℕ) (x : Site) : Prop :=
  bound.2 = c.identity i ∧ i < x.files.next ∧ (x.files.file i).kind = .socket ∧
    x.files.entry bound.1 = some i ∧ bound.1 ≠ c.final ∧ bound.1.length ≤ c.final.length ∧
    ∃ encoded, markerName bound.1 = .ok encoded

theorem Cleared.create {n : Name} {node : Node} (h : Cleared c s l m x) (hn : ¬ c.isSidecar n)
    (hfinal : n ≠ c.final) (hnext : x.files.next < inodes) :
    Cleared c s l m { x with files := x.files.create n node } := by
  have hkept : Kept c x { x with files := x.files.create n node } := kept_create h.leaves.1 hn hnext
  have hfree : (x.files.create n node).entry c.final = none := by
    rw [Directory.create_entry, if_neg (Ne.symm hfinal), h.final]
  have hmarker := (hkept.sidecars _ (.inr rfl)).trans h.marker
  have hfile :=
    hkept.nodes _ m (.inr rfl) h.marker (h.leaves.1.sidecar _ m (.inr rfl) h.marker).2.2.2
  refine ⟨⟨⟨hkept.tidy h.leaves.1 (fun _ => hfree) ?_, h.leaves.2⟩,
    (hkept.sidecars _ (.inl rfl)).trans h.lock, hmarker⟩, ?_⟩
  · intro k state hk hparse
    obtain rfl : m = k := Option.some.inj (h.marker.symm.trans hk)
    rw [h.parse] at hparse
    cases hparse
    exact hfree
  · rw [hfile]
    exact h.parse

theorem bindPending_runs (hE : ∀ e x, GivesUp c s e x → E e x) (left : ℕ) :
    ∀ index, left + index = adminPendingMaxCandidates →
    Runs c s E (fun x => Cleared c s l m x ∧ ∀ j < index, ∀ name,
      pendingCandidate j c.final.length = some name → name = c.final ∨ (x.files.entry name).isSome)
      (bindPending c left index) fun bound x => Cleared c s l m x ∧ ∃ i, Fresh c bound i x := by
  induction left with
  | zero =>
    intro index hindex
    refine .fail fun x h => hE _ _ ⟨h.1.leaves, .inr ⟨rfl, ?_⟩⟩
    intro j hj
    exact h.2 j (by omega)
  | succ left ih =>
    intro index hindex
    -- The next round finds one more candidate taken.
    have hnext : ∀ (x : Site) name, pendingCandidate index c.final.length = some name →
        (name = c.final ∨ (x.files.entry name).isSome) →
        (∀ j < index, ∀ name, pendingCandidate j c.final.length = some name →
          name = c.final ∨ (x.files.entry name).isSome) →
        ∀ j < index + 1, ∀ name, pendingCandidate j c.final.length = some name →
          name = c.final ∨ (x.files.entry name).isSome := by
      intro x name hname htaken hprior j hj other hother
      rcases Nat.lt_succ_iff_lt_or_eq.mp hj with hlt | rfl
      · exact hprior j hlt other hother
      · obtain rfl := Option.some.inj (hname.symm.trans hother)
        exact htaken
    have hrest := ih (index + 1) (by omega)
    unfold bindPending
    split
    · rename_i hnone
      refine .fail fun x h => hE _ _ ⟨h.1.leaves, .inr ⟨rfl, fun j hj name hname => ?_⟩⟩
      by_cases hlt : j < index
      · exact h.2 j hlt name hname
      · rw [pendingCandidate_none hnone (Nat.not_lt.mp hlt) hj] at hname
        cases hname
    · rename_i name hname
      have hlength := pendingCandidate_length hname
      have hsidecar := Config.not_isSidecar hlength
      split
      · rename_i hfinal
        exact hrest.mono (fun x h => ⟨h.1, hnext x name hname (.inl hfinal) h.2⟩) fun _ _ h => h
      rename_i hfinal
      refine .bind (stat_runs (fun x h => h.1.leaves) name) fun reply => ?_
      cases reply with
      | some _ =>
        refine hrest.mono (fun x h => ⟨h.1.1, hnext x name hname (.inr ?_) h.1.2⟩) fun _ _ h => h
        cases hentry : x.files.entry name with
        | none =>
          have hreply := h.2
          rw [hentry] at hreply
          cases hreply
        | some i => rfl
      | none =>
        have hfree : ∀ x : Site, none = (x.files.entry name).map (fun i =>
            (c.identity i, x.files.file i)) → x.files.entry name = none := fun x h =>
          Option.map_eq_none_iff.mp h.symm
        refine .bind
          (R := fun b x => b = true ∧ Cleared c s l m x ∧ ∃ i, x.files.entry name = some i ∧
          i < x.files.next ∧ (x.files.file i).kind = .socket) (.operation ?_ ?_) fun b => ?_
        · exact fun x h _ => h.1.1.leaves
        · intro x h
          by_cases hroom : x.files.next < inodes
          · refine .inl ⟨true, by simp [Config.exec, hfree x h.2, hroom], rfl, ?_⟩
            simp only [Config.exec, hfree x h.2, if_pos hroom]
            exact ⟨h.1.1.create hsidecar hfinal hroom, x.files.next, by simp,
              Nat.lt_succ_self _, by simp⟩
          · refine .inr ⟨.io, by simp [Config.exec, hfree x h.2, hroom], ?_⟩
            simp only [Config.exec, hfree x h.2, if_neg hroom]
            exact hE _ _ ⟨h.1.1.leaves, .inl ⟨rfl, Nat.not_lt.mp hroom⟩⟩
        cases b with
        | false =>
          intro x h
          cases h.1
        | true =>
          refine .bind (R := fun reply x => Cleared c s l m x ∧ ∃ i, x.files.entry name = some i ∧
            i < x.files.next ∧ (x.files.file i).kind = .socket ∧
            reply = some (c.identity i, x.files.file i)) (.act (fun x h => h.2.1.leaves) rfl ?_)
            fun reply => ?_
          · rintro x ⟨-, hcleared, i, hi, hlt, hkind⟩
            exact ⟨_, rfl, hcleared, i, hi, hlt, hkind, by rw [hi]; rfl⟩
          cases reply with
          | none =>
            rintro x ⟨-, i, -, -, -, hreply⟩
            cases hreply
          | some found =>
            obtain ⟨identity, node⟩ := found
            refine .bind (R := fun _ x => Cleared c s l m x ∧ ∃ i, Fresh c (name, identity) i x)
              (.require ?_) fun _ => .pure fun x h => h
            rintro x ⟨hcleared, i, hi, hlt, hkind, hreply⟩
            obtain ⟨rfl, rfl⟩ := Prod.mk.inj (Option.some.inj hreply)
            exact ⟨hkind, hcleared, i, rfl, hlt, hkind, hi, hfinal, hlength,
              pendingCandidate_markerName hname⟩

end Binding

section Publishing
variable {c : Config} {s l m i : ℕ} {E : Failure → Site → Prop} {x : Site} {name : Name}
  {state : MarkerState}

/-- The pending path holds the socket that this server bound. -/
structure Pending (c : Config) (s l m i : ℕ) (name : Name) (x : Site) :
    Prop extends Working c s l m x where
  lt : i < x.files.next
  kind : (x.files.file i).kind = .socket
  pending : x.files.entry name = some i
  ne_final : name ≠ c.final
  short : name.length ≤ c.final.length

/-- The marker reads as this state. -/
def Marks (m : ℕ) (state : MarkerState) (x : Site) : Prop :=
  parseMarker (x.files.file m).text = .ok state

/-- The marker is written, and nothing else changes. -/
theorem writeMarker_runs {P : Site → Prop} {text : Text} (htext : markerBytes state = .ok text)
    (hP : ∀ x, P x → Working c s l m x ∧ Consistent c x state) :
    Runs c s E P ((c.markerFile m).writeState state (c.lockFile l)) fun _ y =>
      (∃ x, P x ∧ y = x.setText m text) ∧ Working c s l m y ∧ Marks m state y := by
  refine (writeState_runs htext hP).mono (fun _ h => h) ?_
  rintro _ y ⟨x, hPx, rfl⟩
  obtain ⟨hworking, hconsistent⟩ := hP x hPx
  have hvalid := hconsistent.valid hworking.leaves.1
  have hlength := length_markerBytes hvalid htext
  have hparse := parseMarker_markerBytes hvalid htext hlength
  have htidy : Tidy c (x.setText m text) := by
    refine tidy_setText hworking.leaves.1 hworking.marker hlength
      ⟨state, text, htext, List.prefix_refl _⟩ fun state' hstate => ?_
    rw [hparse] at hstate
    cases hstate
    exact hconsistent
  refine ⟨⟨x, hPx, rfl⟩, ⟨⟨htidy, hworking.leaves.2⟩, hworking.lock, hworking.marker⟩, ?_⟩
  rw [Marks, setText_text]
  exact hparse

theorem Pending.setText {text : Text} (h : Pending c s l m i name x)
    (hw : Working c s l m (x.setText m text)) :
    Pending c s l m i name (x.setText m text) :=
  ⟨hw, h.lt, (setText_kind _ _ _).trans h.kind, h.pending, h.ne_final, h.short⟩

theorem Pending.not_isSidecar (h : Pending c s l m i name x) : ¬ c.isSidecar name :=
  Config.not_isSidecar h.short

/-- The marker still reads the same after a change of another path. -/
theorem Kept.marks {y : Site} (h : Kept c x y) (hw : Working c s l m x) (hmarks : Marks m state x) :
    Marks m state y := by
  rw [Marks, h.nodes _ m (.inr rfl) hw.marker (hw.leaves.1.sidecar _ m (.inr rfl) hw.marker).2.2.2]
  exact hmarks

/-- A change that keeps the sidecars, to a state that the marker allows. -/
theorem Kept.working {y : Site} (h : Kept c x y) (hw : Working c s l m x) (hmarks : Marks m state x)
    (hconsistent : Consistent c y state) : Working c s l m y := by
  have hmarker := (h.sidecars _ (.inr rfl)).trans hw.marker
  refine ⟨⟨h.tidy hw.leaves.1 (fun hnone => ?_) fun k state' hk hparse => ?_, ?_⟩,
    (h.sidecars _ (.inl rfl)).trans hw.lock, hmarker⟩
  · rw [hmarker] at hnone
    cases hnone
  · obtain rfl : m = k := Option.some.inj (hw.marker.symm.trans hk)
    rw [hmarks] at hparse
    cases hparse
    exact hconsistent
  · rw [h.holder]
    exact hw.leaves.2

theorem chmod_runs : Runs c s E
    (fun x => Pending c s l m i name x ∧ Marks m .empty x ∧ x.files.entry c.final = none)
    (perform (.chmod name)) fun _ x =>
      Pending c s l m i name x ∧ Marks m .empty x ∧ x.files.entry c.final = none := by
  refine .act (fun x h => h.1.leaves) rfl fun x h => ⟨(), ?_, ?_⟩
  · simp [Config.exec, h.1.pending]
  · have hkept : Kept c x (x.setNode i { x.files.file i with mode := 0o600 }) :=
      kept_setNode h.1.not_isSidecar h.1.pending rfl
    simp only [Config.exec, h.1.pending]
    exact ⟨⟨hkept.working h.1.toWorking h.2.1 h.2.2, h.1.lt, (hkept.kinds i h.1.lt).trans h.1.kind,
      h.1.pending, h.1.ne_final, h.1.short⟩, hkept.marks h.1.toWorking h.2.1, h.2.2⟩

theorem Pending.consistent_pending (h : Pending c s l m i name x)
    (hfinal : x.files.entry c.final = none ∨ x.files.entry c.final = some i) :
    Consistent c x (.pending (c.identity l) (c.identity i) name) :=
  ⟨l, i, h.lock, rfl, rfl, h.lt, h.kind, hfinal, h.ne_final, h.short, .inr h.pending⟩

theorem link_runs : Runs c s E
    (fun x => Pending c s l m i name x ∧ Marks m (.pending (c.identity l) (c.identity i) name) x ∧
      x.files.entry c.final = none)
    (perform (.link name c.final)) fun _ x =>
      Pending c s l m i name x ∧ x.files.entry c.final = some i := by
  refine .act (fun x h => h.1.leaves) rfl fun x h => ⟨(), ?_, ?_⟩
  · simp [Config.exec, h.1.pending, h.2.2]
  · have hkept : Kept c x ⟨(x.files.link i c.final).write i
        { x.files.file i with links := (x.files.file i).links + 1 }, x.holder⟩ :=
      kept_link h.1.not_isSidecar (Config.not_isSidecar le_rfl) h.1.pending rfl
    have hentry : ((x.files.link i c.final).write i
        { x.files.file i with links := (x.files.file i).links + 1 }).entry name = some i := by
      rw [Directory.write_entry, Directory.link_entry, if_neg h.1.ne_final, h.1.pending]
    have hfinal : ((x.files.link i c.final).write i
        { x.files.file i with links := (x.files.file i).links + 1 }).entry c.final = some i := by
      rw [Directory.write_entry, Directory.link_entry, if_pos rfl]
    have hkind := (hkept.kinds i h.1.lt).trans h.1.kind
    simp only [Config.exec, h.1.pending, h.2.2]
    refine ⟨⟨hkept.working h.1.toWorking h.2.1 ?_, h.1.lt, hkind, hentry, h.1.ne_final,
      h.1.short⟩, hfinal⟩
    exact ⟨l, i, (hkept.sidecars _ (.inl rfl)).trans h.1.lock, rfl, rfl, h.1.lt, hkind, .inr hfinal,
      h.1.ne_final, h.1.short, .inr hentry⟩

/-- The final path holds the socket, and the marker names no other. -/
structure Published (c : Config) (s l m i : ℕ) (x : Site) : Prop extends Working c s l m x where
  lt : i < x.files.next
  kind : (x.files.file i).kind = .socket
  final : x.files.entry c.final = some i

theorem Published.consistent (h : Published c s l m i x) :
    Consistent c x (.published (c.identity l) (c.identity i) none) :=
  ⟨l, i, h.lock, rfl, rfl, h.lt, h.kind, .inr h.final, fun _ hname => by cases hname⟩

theorem publishPending_runs {encoded : Text} (hencoded : markerName name = .ok encoded) : Runs c s E
    (fun x => Pending c s l m i name x ∧ Marks m .empty x ∧ x.files.entry c.final = none)
    (publishPending c (c.lockFile l) (c.markerFile m) name (c.identity i)) fun guard x =>
      guard = ⟨c.final, c.markerFile m, c.lockFile l, c.identity i⟩ ∧ Published c s l m i x := by
  have hpending : ∃ text, markerBytes (.pending (c.identity l) (c.identity i) name) = .ok text := by
    simp only [markerBytes, markerLines, hencoded]
    exact ⟨_, rfl⟩
  have hpublished : ∃ text,
      markerBytes (.published (c.identity l) (c.identity i) (some name)) = .ok text := by
    simp only [markerBytes, markerLines, hencoded]
    exact ⟨_, rfl⟩
  have hbytes : ∃ text, markerBytes (.published (c.identity l) (c.identity i) none) = .ok text :=
    ⟨_, rfl⟩
  obtain ⟨pending, hpending⟩ := hpending
  obtain ⟨published, hpublished⟩ := hpublished
  obtain ⟨text, htext⟩ := hbytes
  refine .bind (verify_runs fun x h => ⟨h.1.leaves, h.1.lock⟩) fun _ => .bind chmod_runs fun _ => ?_
  refine .bind (R := fun _ x => Pending c s l m i name x ∧
    Marks m (.pending (c.identity l) (c.identity i) name) x ∧ x.files.entry c.final = none) ?_
      fun _ => ?_
  · refine (writeMarker_runs hpending fun x h =>
      ⟨h.1.toWorking, h.1.consistent_pending (.inl h.2.2)⟩).mono
      (fun _ h => h) ?_
    rintro _ y ⟨⟨x, h, rfl⟩, hworking, hmarks⟩
    exact ⟨h.1.setText hworking, hmarks, h.2.2⟩
  refine .bind (verify_runs fun x h => ⟨h.1.leaves, h.1.lock⟩) fun _ => .bind link_runs fun _ =>
    .bind (sync_runs fun x h => h.1.leaves) fun _ => ?_
  refine .bind (R := fun _ x => Pending c s l m i name x ∧ x.files.entry c.final = some i) ?_
    fun _ => ?_
  · refine (writeMarker_runs hpublished fun x h => ⟨h.1.toWorking, ?_⟩).mono (fun _ h => h) ?_
    · refine ⟨l, i, h.1.lock, rfl, rfl, h.1.lt, h.1.kind, .inr h.2, ?_⟩
      rintro _ ⟨⟩
      exact ⟨h.1.ne_final, h.1.short, .inr h.1.pending⟩
    · rintro _ y ⟨⟨x, h, rfl⟩, hworking, -⟩
      exact ⟨h.1.setText hworking, h.2⟩
  refine .bind (R := fun _ => Published c s l m i) ?_ fun _ => ?_
  · refine (removeOwned_runs fun x h => ⟨h.1.leaves, h.1.lock, .inr h.1.pending, h.1.kind⟩).mono
      (fun _ h => h) ?_
    rintro _ y ⟨x, ⟨h, hfinal⟩, -, rfl⟩
    refine ⟨h.toWorking.remove h.not_isSidecar, h.lt.trans_le (kept_remove h.not_isSidecar).next,
      ((kept_remove h.not_isSidecar).kinds i h.lt).trans h.kind, ?_⟩
    rw [remove_entry h.ne_final.symm, hfinal]
  refine .bind (sync_runs fun x h => h.leaves) fun _ =>
    .bind (R := fun _ => Published c s l m i) ?_ fun _ =>
    .pure fun x h => ⟨rfl, h⟩
  refine (writeMarker_runs htext fun x h => ⟨h.toWorking, h.consistent⟩).mono (fun _ h => h) ?_
  rintro _ y ⟨⟨x, h, rfl⟩, hworking, -⟩
  exact ⟨hworking, h.lt, (setText_kind _ _ _).trans h.kind, h.final⟩

theorem Tidy.withHolder (h : Tidy c x) (holder : ℕ → Option ℕ) :
    Tidy c { x with holder := holder } :=
  ⟨h.numbered, h.bounded, h.sidecar, h.order, h.unmarked, h.written, h.consistent⟩

theorem unlock_leaves {j : ℕ} (h : Leaves c s x) : Leaves c s (c.exec s (.unlock j) x).2 := by
  simp only [Config.exec]
  split_ifs
  · refine ⟨h.1.withHolder _, fun k t ht => ?_⟩
    simp only [Function.update_apply] at ht
    split_ifs at ht
    exact h.2 k t ht
  · exact h

theorem drop_runs : Runs c s E (Published c s l m i)
    (AdminSocketGuard.drop ⟨c.final, c.markerFile m, c.lockFile l, c.identity i⟩) fun _ =>
    Leaves c s := by
  have hfinal : ¬ c.isSidecar c.final := Config.not_isSidecar le_rfl
  have hend : Runs c s E (Leaves c s) (do
      let _ ← (perform (.unlock l)).attempt
      pure ()) fun _ => Leaves c s :=
    .bind (R := fun _ => Leaves c s)
      (.attempt (.act (fun _ h => h) rfl fun x h => ⟨(), rfl, unlock_leaves h⟩))
      fun _ => .pure fun _ h => h
  refine .bind (R := fun r x => (∃ u, r = .ok u) ∧ Published c s l m i x)
    (.attempt
      ((verify_runs fun x h => ⟨h.leaves, h.lock⟩).mono (fun _ h => h) fun u _ h => ⟨⟨u, rfl⟩, h⟩))
    fun verified => ?_
  match verified with
  | .error _ =>
    rintro x ⟨⟨u, hu⟩, -⟩
    cases hu
  | .ok _ =>
    refine .bind
      (R := fun r x => (∃ b, r = .ok b) ∧ Working c s l m x ∧ x.files.entry c.final = none)
      (.attempt ((removeOwned_runs fun x h => ⟨h.leaves, h.lock, .inr h.final, h.kind⟩).mono
        (fun _ h => h.2) ?_)) fun removed => ?_
    · rintro b y ⟨x, h, -, rfl⟩
      exact ⟨⟨b, rfl⟩, h.toWorking.remove hfinal, remove_entry_self⟩
    match removed with
    | .ok true =>
      refine .bind (R := fun _ x => Working c s l m x ∧ x.files.entry c.final = none)
        (.attempt ((sync_runs fun x h => h.2.1.leaves).mono (fun _ h => h) fun _ _ h => h.2))
        fun _ => ?_
      refine .bind (R := fun _ => Leaves c s) (.attempt ?_) fun _ => hend
      exact (writeEmpty_runs fun _ h => h).mono (fun _ h => h) fun _ _ h => h.leaves
    | .ok false => exact hend.mono (fun _ h => h.2.1.leaves) fun _ _ h => h
    | .error _ => exact hend.mono (fun _ h => h.2.1.leaves) fun _ _ h => h

end Publishing

section Opening
variable {c : Config} {s l m i : ℕ} {E : Failure → Site → Prop} {x x₀ : Site}

/-- What `create_new` makes. -/
def sidecarNode (s : ℕ) : Node := ⟨.regular, 0o600, 1, [], some s⟩

theorem sidecarNode_private : (sidecarNode s).isPrivate :=
  ⟨(by decide : 0o600 &&& 0o077 = 0), rfl⟩

/-- A new sidecar is empty; there is no marker without an owner lock. -/
theorem tidy_create {n : Name} (hx : Tidy c x) (hn : c.isSidecar n) (hfree : x.files.entry n = none)
    (horder : n = c.markerPath → x.files.entry c.lockName ≠ none) (hnext : x.files.next < inodes) :
    Tidy c { x with files := x.files.create n (sidecarNode s) } := by
  have hmarker : n ≠ c.markerPath → x.files.entry c.markerPath = none := by
    intro hne
    exact hx.order ((hn.resolve_right hne) ▸ hfree)
  refine ⟨hx.numbered.create _ _, hnext, ?_, ?_, ?_, ?_, ?_⟩
  · intro k i hk hi
    rw [Directory.create_entry] at hi
    split_ifs at hi with hkn
    · obtain rfl := Option.some.inj hi
      refine ⟨by simp [sidecarNode], ?_, by simp [sidecarNode], fun m hm => ?_⟩
      · rw [Directory.create_file, if_pos rfl]
        exact sidecarNode_private
      · rw [Directory.create_entry] at hm
        split_ifs at hm with hmn
        · exact hmn.trans hkn.symm
        · exact absurd (hx.numbered m _ hm) (lt_irrefl _)
    · have hlt := hx.numbered k i hi
      obtain ⟨hkind, hprivate, hlength, halone⟩ := hx.sidecar k i hk hi
      rw [Directory.create_file, if_neg (Nat.ne_of_lt hlt)]
      refine ⟨hkind, hprivate, hlength, fun m hm => ?_⟩
      rw [Directory.create_entry] at hm
      split_ifs at hm
      · exact absurd (Option.some.inj hm) (Nat.ne_of_gt hlt)
      · exact halone m hm
  · intro hlock
    rw [Directory.create_entry] at hlock ⊢
    split_ifs at hlock with hne
    have hm : n = c.markerPath := (hn.resolve_left fun h => hne h.symm)
    exact absurd hlock (horder hm)
  · intro hnone
    have hfinal : c.final ≠ n := by
      rintro rfl
      exact Config.not_isSidecar le_rfl hn
    rw [Directory.create_entry] at hnone ⊢
    split_ifs at hnone
    rw [if_neg hfinal]
    exact hx.unmarked hnone
  · intro m hm
    rw [Directory.create_entry] at hm
    split_ifs at hm with hne
    · obtain rfl := Option.some.inj hm
      rw [Directory.create_file, if_pos rfl]
      exact ⟨.empty, _, markerBytes_empty, List.nil_prefix⟩
    · rw [hmarker fun h => hne h.symm] at hm
      cases hm
  · intro m state hm hparse
    rw [Directory.create_entry] at hm
    split_ifs at hm with hne
    · obtain rfl := Option.some.inj hm
      rw [Directory.create_file, if_pos rfl] at hparse
      cases hparse
    · rw [hmarker fun h => hne h.symm] at hm
      cases hm

theorem sidecarExists_free {path : Name} {P : Site → Prop}
    (hP : ∀ x, P x → Leaves c s x ∧ x.files.entry path = none) :
    Runs c s E P (sidecarExists path) fun a x => P x ∧ a = false := by
  refine .bind (stat_runs (fun x h => (hP x h).1) path) fun reply => ?_
  match reply with
  | none => exact .pure fun x h => ⟨h.1, rfl⟩
  | some _ =>
    rintro x ⟨hPx, hreply⟩
    rw [(hP x hPx).2] at hreply
    cases hreply

theorem openSidecar_free {path : Name} {P : Site → Prop}
    (hP : ∀ x, P x → Leaves c s x ∧ x.files.entry path = none)
    (hE : ∀ x, P x → inodes ≤ x.files.next → E .io x) :
    Runs c s E P (openSidecar path false) fun a y => ∃ x, P x ∧ x.files.next < inodes ∧
      a = some x.files.next ∧
      y = { x with files := x.files.create path (sidecarNode s) } := by
  refine .operation (fun x h _ => (hP x h).1) fun x h => ?_
  by_cases hnext : x.files.next < inodes
  · refine .inl ⟨some x.files.next, ?_, x, h, hnext, rfl, ?_⟩ <;>
      simp [Config.exec, (hP x h).2, hnext, sidecarNode]
  · refine .inr ⟨.io, by simp [Config.exec, (hP x h).2, hnext], ?_⟩
    simp only [Config.exec, (hP x h).2, if_neg hnext]
    exact hE x h (Nat.not_lt.mp hnext)

/-- The owner lock is open and locked; the marker is as it was. -/
structure Opened (c : Config) (s l : ℕ) (x₀ x : Site) : Prop where
  leaves : Leaves c s x
  lock : x.files.entry c.lockName = some l
  marker : x.files.entry c.markerPath = x₀.files.entry c.markerPath
  same : x₀.files.entry c.lockName ≠ none → x.files = x₀.files

/-- What is left of `open_owner_lock` when the file is there. -/
theorem lockOpened_runs {P : Site → Prop}
    (hP : ∀ x, P x → Opened c s l x₀ x ∧ ∀ i, x.holder i = none) :
    Runs c s E P (do
      let identity ← validateOpenPrivateFile c.lockName l
      perform (.tryLock l)
      let ownerLock : OwnerLock := ⟨c.lockName, l, identity⟩
      ownerLock.verify
      pure ownerLock) fun lock x => lock = c.lockFile l ∧ Opened c s l x₀ x := by
  refine .bind
    (validateOpenPrivateFile_runs (.inl rfl) fun x h => ⟨(hP x h).1.leaves, (hP x h).1.lock⟩)
    fun identity => ?_
  intro x h
  obtain ⟨hPx, rfl⟩ := h
  refine (Runs.bind (P := P) (R := fun _ => Opened c s l x₀)
    (.act (fun x h => (hP x h).1.leaves) rfl
    fun x h => ?_) fun _ => .bind (verify_runs fun x h => ⟨h.leaves, h.lock⟩) fun _ =>
      .pure fun x h => ⟨rfl, h⟩) x hPx
  obtain ⟨hopened, hfree⟩ := hP x h
  refine ⟨(), by simp [Config.exec, hfree l], ?_⟩
  simp only [Config.exec, hfree l]
  refine ⟨⟨hopened.leaves.1.withHolder _, fun k t ht => ?_⟩, hopened.lock, hopened.marker,
    hopened.same⟩
  simp only [Function.update_apply] at ht
  split_ifs at ht with hk
  · exact (Option.some.inj ht).symm
  · rw [hfree k] at ht
    cases ht

theorem openOwnerLock_runs (hE : ∀ e x, GivesUp c s e x → x₀.files.entry c.markerPath = none →
    E e x) :
    Runs c s E (fun x => x = x₀ ∧ Leaves c s x ∧ ∀ i, x.holder i = none)
    (openOwnerLock c.lockName 2)
      fun lock x => ∃ l, lock = c.lockFile l ∧ Opened c s l x₀ x := by
  cases hlock : x₀.files.entry c.lockName with
  | some l =>
    have hsite : ∀ x, (x = x₀ ∧ Leaves c s x ∧ ∀ i, x.holder i = none) →
        Opened c s l x₀ x ∧ ∀ i, x.holder i = none := by
      rintro x ⟨rfl, hleaves, hfree⟩
      exact ⟨⟨hleaves, hlock, rfl, fun _ => rfl⟩, hfree⟩
    have hpath : ∀ x, (x = x₀ ∧ Leaves c s x ∧ ∀ i, x.holder i = none) →
        Leaves c s x ∧ x.files.entry c.lockName = some l := fun x h =>
      ⟨(hsite x h).1.leaves, (hsite x h).1.lock⟩
    refine .bind (sidecarExists_runs (.inl rfl) hpath) fun there => ?_
    intro x h
    obtain ⟨hx, rfl⟩ := h
    refine (Runs.bind (openSidecar_runs hpath) fun reply => ?_) x hx
    intro y h
    obtain ⟨hy, rfl⟩ := h
    exact ((lockOpened_runs hsite).mono (fun _ h => h) fun lock z h => ⟨l, h⟩) y hy
  | none =>
    have hpath : ∀ x, (x = x₀ ∧ Leaves c s x ∧ ∀ i, x.holder i = none) →
        Leaves c s x ∧ x.files.entry c.lockName = none := by
      rintro x ⟨rfl, hleaves, -⟩
      exact ⟨hleaves, hlock⟩
    refine .bind (sidecarExists_free hpath) fun there => ?_
    intro x h
    obtain ⟨hx, rfl⟩ := h
    refine (Runs.bind (openSidecar_free hpath ?_) fun reply => ?_) x hx
    · rintro x ⟨rfl, hleaves, -⟩ hnext
      exact hE _ _ ⟨hleaves, .inl ⟨rfl, hnext⟩⟩ (hleaves.1.order hlock)
    rintro y ⟨x, ⟨rfl, hleaves, hfree⟩, hnext, rfl, rfl⟩
    have hne : c.markerPath ≠ c.lockName := c.lockName_ne_markerPath.symm
    refine ((lockOpened_runs (P := fun y => y = _) ?_).mono (fun _ h => h) fun lock z h =>
      ⟨_, h⟩) _ rfl
    rintro z rfl
    have htidy := tidy_create (s := s) hleaves.1 (.inl rfl) hlock (fun h => absurd h hne.symm) hnext
    refine ⟨⟨⟨htidy, hleaves.2⟩, ?_, ?_, fun h => absurd hlock h⟩, hfree⟩
    · rw [Directory.create_entry, if_pos rfl]
    · rw [Directory.create_entry, if_neg hne]

/-- The marker is open, and reads as this state. -/
def MarkerOpened (c : Config) (s l : ℕ) (x₀ : Site) (opened : MarkerFile × MarkerState) (x : Site) :
    Prop :=
  ¬ Torn c x₀ ∧ ∃ m, opened.1 = c.markerFile m ∧ Working c s l m x ∧ Marks m opened.2 x

theorem openMarker_runs (htidy : Tidy c x₀)
    (hE : ∀ e x, GivesUp c s e x → x₀.files.entry c.markerPath = none → E e x)
    (htorn : ∀ e x m, x₀.files.entry c.markerPath = some m →
      parseMarker (x₀.files.file m).text = .error e → Leaves c s x → x.files = x₀.files → E e x) :
    Runs c s E (Opened c s l x₀) (openMarker c.markerPath (c.lockFile l) 2)
    (MarkerOpened c s l x₀) := by
  cases hmarker : x₀.files.entry c.markerPath with
  | some m =>
    have hlock : x₀.files.entry c.lockName ≠ none := by
      intro hnone
      rw [htidy.order hnone] at hmarker
      cases hmarker
    have hpath : ∀ x, Opened c s l x₀ x → Leaves c s x ∧ x.files.entry c.markerPath = some m :=
      fun x h => ⟨h.leaves, h.marker.trans hmarker⟩
    refine .bind (sidecarExists_runs (.inr rfl) hpath) fun there => ?_
    intro x h
    obtain ⟨hx, rfl⟩ := h
    refine (Runs.bind (openSidecar_runs hpath) fun reply => ?_) x hx
    intro y h
    obtain ⟨hy, rfl⟩ := h
    refine (Runs.bind (validateOpenPrivateFile_runs (.inr rfl) hpath) fun identity => ?_) y hy
    intro z h
    obtain ⟨hz, rfl⟩ := h
    refine (Runs.bind (P := Opened c s l x₀) (R := fun bytes x => Opened c s l x₀ x ∧
      bytes = (x₀.files.file m).text) (.act (fun x h => h.leaves) rfl fun x h => ?_) fun bytes =>
        ?_) z hz
    · have hlength := (h.leaves.1.sidecar _ m (.inr rfl) (hpath x h).2).2.2.1
      refine ⟨_, rfl, h, ?_⟩
      rw [List.take_of_length_le (hlength.trans (Nat.le_succ _)), h.same hlock]
    intro x h
    obtain ⟨hx, rfl⟩ := h
    cases hparse : parseMarker (x₀.files.file m).text with
    | error e => exact .inr ⟨e, rfl, htorn e x m hmarker hparse hx.leaves (hx.same hlock)⟩
    | ok state =>
      refine .inl ⟨_, rfl, ?_, m, rfl, ⟨hx.leaves, hx.lock, (hpath x hx).2⟩, ?_⟩
      · rintro ⟨k, hk, hnever⟩
        obtain rfl : m = k := Option.some.inj (hmarker.symm.trans hk)
        exact hnever state hparse
      · rw [Marks, hx.same hlock]
        exact hparse
  | none =>
    have hwhole : ¬ Torn c x₀ := by
      rintro ⟨k, hk, -⟩
      rw [hmarker] at hk
      cases hk
    have hpath : ∀ x, Opened c s l x₀ x → Leaves c s x ∧ x.files.entry c.markerPath = none :=
      fun x h => ⟨h.leaves, h.marker.trans hmarker⟩
    refine .bind (sidecarExists_free hpath) fun there => ?_
    intro x h
    obtain ⟨hx, rfl⟩ := h
    refine (Runs.bind (openSidecar_free hpath fun x h hnext => ?_) fun reply => ?_) x hx
    · exact hE _ _ ⟨h.leaves, .inl ⟨rfl, hnext⟩⟩ hmarker
    rintro y ⟨x, h, hnext, rfl, rfl⟩
    have hlock : x.files.entry c.lockName ≠ none := by
      rw [h.lock]
      exact Option.some_ne_none l
    have hcreated := tidy_create (s := s) h.leaves.1 (.inr rfl) (hpath x h).2 (fun _ => hlock) hnext
    have hworking : Working c s l x.files.next
      { x with files := x.files.create c.markerPath (sidecarNode s) } := by
      refine ⟨⟨hcreated, h.leaves.2⟩, ?_, ?_⟩
      · rw [Directory.create_entry, if_neg c.lockName_ne_markerPath, h.lock]
      · rw [Directory.create_entry, if_pos rfl]
    have hfree : (x.files.create c.markerPath (sidecarNode s)).entry c.final = none := by
      have hfinal : c.final ≠ c.markerPath := fun heq => Config.not_isSidecar le_rfl (.inr heq)
      rw [Directory.create_entry, if_neg hfinal]
      exact h.leaves.1.unmarked (hpath x h).2
    refine (Runs.bind (P := fun y => y = _)
      (validateOpenPrivateFile_runs (.inr rfl) ?_) fun identity => ?_)
      _ rfl
    · rintro z rfl
      exact ⟨hworking.leaves, hworking.marker⟩
    rintro z ⟨rfl, rfl⟩
    refine (Runs.bind (P := fun y => y = _) (writeEmpty_runs ?_) fun _ => .pure fun z h => ?_) _ rfl
    · rintro z rfl
      exact ⟨hworking, hfree⟩
    · exact ⟨hwhole, _, rfl, h.toWorking, h.parse⟩

/-- What a bind comes to: a torn marker stops it, and nothing is changed. -/
def Stops (c : Config) (s : ℕ) (x₀ : Site) (e : Failure) (x : Site) : Prop :=
  ¬ Torn c x₀ ∧ GivesUp c s e x ∨ Torn c x₀ ∧ Leaves c s x ∧ x.files = x₀.files

theorem bindAdminListener_runs (hfinal : c.final ≠ []) (htidy : Tidy c x₀) :
    Runs c s (Stops c s x₀) (fun x => x = x₀ ∧ Leaves c s x ∧ ∀ i, x.holder i = none)
      (bindAdminListener c) fun guard x => ¬ Torn c x₀ ∧ ∃ l m i,
        guard = ⟨c.final, c.markerFile m, c.lockFile l, c.identity i⟩ ∧ Published c s l m i x := by
  have hwhole : x₀.files.entry c.markerPath = none → ¬ Torn c x₀ := by
    rintro hnone ⟨m, hm, -⟩
    rw [hnone] at hm
    cases hm
  have hE : ∀ e x, GivesUp c s e x → x₀.files.entry c.markerPath = none → Stops c s x₀ e x :=
    fun e x h hnone => .inl ⟨hwhole hnone, h⟩
  refine .bind (R := fun _ x => x = x₀ ∧ Leaves c s x ∧ ∀ i, x.holder i = none)
    (.require fun x h => ⟨hfinal, h⟩) fun _ => .bind (openOwnerLock_runs hE) fun lock => ?_
  rintro x ⟨l, rfl, hx⟩
  refine (Runs.bind (openMarker_runs htidy hE ?_) fun opened => ?_) x hx
  · intro e y m hm hparse hleaves hsame
    refine .inr ⟨⟨m, hm, fun state hstate => ?_⟩, hleaves, hsame⟩
    rw [hparse] at hstate
    cases hstate
  rintro y ⟨htorn, m, hm, hworking, hmarks⟩
  obtain ⟨marker, state⟩ := opened
  obtain rfl : marker = c.markerFile m := hm
  refine (Runs.bind recoverMarker_runs fun _ => Runs.bind (R := fun bound x => Cleared c s l m x ∧
    ∃ i, Fresh c bound i x) ((bindPending_runs (fun e x h => .inl ⟨htorn, h⟩) _ 0 rfl).mono
      (fun x h => ⟨h, by simp⟩) fun _ _ h => h) fun bound => ?_) y ⟨hworking, hmarks⟩
  obtain ⟨name, identity⟩ := bound
  rintro z ⟨hcleared, i, hid, hlt, hkind, hentry, hne, hshort, encoded, hencoded⟩
  obtain rfl : identity = c.identity i := hid
  refine ((publishPending_runs hencoded).mono (fun _ h => h) fun guard w h => ?_) z
    ⟨⟨hcleared.toWorking, hlt, hkind, hentry, hne, hshort⟩, hcleared.parse, hcleared.final⟩
  exact ⟨htorn, l, m, i, h⟩

theorem server_runs (hfinal : c.final ≠ []) (htidy : Tidy c x₀) :
    Runs c s (Stops c s x₀) (fun x => x = x₀ ∧ Leaves c s x ∧ ∀ i, x.holder i = none) (server c)
      fun _ => Leaves c s := by
  refine .bind (bindAdminListener_runs hfinal htidy) fun guard => ?_
  rintro x ⟨-, l, m, i, rfl, hx⟩
  refine (Runs.bind (R := fun _ => Published c s l m i) (.attempt (.act (fun x h => h.leaves) rfl
    fun x h => ⟨(), rfl, h⟩)) fun _ => drop_runs) x hx

end Opening

variable {c : Config} {w w' : Pool Reply Failure Site}

/-- One server at a time, and it keeps to the terms; the next one finds a tidy directory. -/
structure Settled (c : Config) (w : Pool Reply Failure Site) : Prop where
  single : ∀ s t, w.process s ≠ none → w.process t ≠ none → s = t
  works : ∀ s p, w.process s = some p → p.Safe (alone c s) (fun _ x => Leaves c s x) w.state
  idle : (∀ s, w.process s = none) → Tidy c w.state ∧ ∀ i, w.state.holder i = none

theorem Leaves.release {s : ℕ} {x : Site} (h : Leaves c s x) :
    Tidy c (x.release s) ∧ ∀ i, (x.release s).holder i = none := by
  refine ⟨h.1.withHolder _, fun i => ?_⟩
  simp only [Site.release]
  split_ifs with hi
  · rfl
  · cases ht : x.holder i with
    | none => rfl
    | some t =>
      obtain rfl := h.2 i t ht
      exact absurd ht hi

theorem settled_start (h : (succession c).start w) : Settled c w := by
  obtain ⟨hfresh, hnone⟩ := h
  refine ⟨fun s _ hs => absurd (hnone s) hs, fun s p hp => ?_, fun _ => ?_⟩
  · rw [hnone s] at hp
    cases hp
  · rw [hfresh]
    refine ⟨⟨?_, Nat.zero_le _, ?_, fun _ => rfl, fun _ => rfl, ?_, ?_⟩, fun _ => rfl⟩
    · intro n i hi
      cases hi
    · intro n i _ hi
      cases hi
    · intro m hm
      cases hm
    · intro m state hm
      cases hm

/-- A pool with one server at most. -/
theorem settled_put {s : ℕ} {p : Option (Process Reply Failure Unit)} {y : Site}
    (hothers : ∀ t, t ≠ s → w.process t = none)
    (hp : ∀ q, p = some q → q.Safe (alone c s) (fun _ x => Leaves c s x) y)
    (hnone : p = none → Tidy c y ∧ ∀ i, y.holder i = none) : Settled c (w.put s p y) := by
  have hprocess : ∀ t, (w.put s p y).process t ≠ none → t = s := by
    intro t ht
    by_contra hne
    rw [Pool.put_process, if_neg hne] at ht
    exact ht (hothers t hne)
  refine ⟨fun t u ht hu => (hprocess t ht).trans (hprocess u hu).symm, fun t q hq =>
    ?_, fun hidle => ?_⟩
  · obtain rfl := hprocess t (by rw [hq]; exact Option.some_ne_none q)
    rw [Pool.put_process, if_pos rfl] at hq
    exact hp q hq
  · have hs := hidle s
    rw [Pool.put_process, if_pos rfl] at hs
    exact hnone hs

theorem Settled.step {label : System.Label Empty} (hfinal : c.final ≠ []) (h : Settled c w)
    (hstep : (succession c).step w label w') : Settled c w' := by
  obtain ⟨hstep, hfirst⟩ := hstep
  have hothers : ∀ s, w.process s ≠ none → ∀ t, t ≠ s → w.process t = none := by
    intro s hs t hts
    by_contra ht
    exact hts (h.single t s ht hs)
  cases hstep with
  | @start s hs =>
    have hidle := hfirst s rfl
    obtain ⟨htidy, hfree⟩ := h.idle hidle
    have hleaves : Leaves c s w.state := by
      refine ⟨htidy, fun i t ht => ?_⟩
      rw [hfree i] at ht
      cases ht
    refine settled_put (fun t _ => hidle t) ?_ fun hnone => by cases hnone
    rintro _ ⟨⟩
    refine (server_runs hfinal htidy w.state ⟨rfl, hleaves, hfree⟩).mono ?_
    rintro r y (⟨-, -, hy⟩ | ⟨e, -, ⟨-, hy⟩ | ⟨-, hy, -⟩⟩)
    · exact hy
    · exact hy.1
    · exact hy
  | @op s op next reply y hs hexec =>
    refine settled_put (hothers s (by simp [hs])) ?_ fun hnone => by cases hnone
    rintro _ ⟨⟩
    exact ((h.works s _ hs w.state rfl).2 reply y hexec).2
  | @exit s p y hs hexit =>
    obtain ⟨count, rfl⟩ := hexit
    refine settled_put (hothers s (by simp [hs])) (fun q hq => by cases hq) fun _ => ?_
    have hsafe := h.works s p hs
    cases p with
    | done a => exact Leaves.release hsafe
    | fail e => exact Leaves.release hsafe
    | call op next => exact Leaves.release ((hsafe w.state rfl).1 count)
  | outside => contradiction

theorem reachable_settled (hfinal : c.final ≠ []) (h : (succession c).Reachable w) : Settled c w :=
  h.invariant (fun _ => settled_start) fun _ _ _ hw => hw.step hfinal

/-- Between two servers the marker holds the beginning of a state's text. A whole state never
stops the next bind; a torn one does, and is left as it is. -/
theorem bind_restartable (hfinal : c.final ≠ []) (hw : (succession c).Reachable w)
    (hidle : ∀ s, w.process s = none) (s : ℕ) :
    let r := (bindAdminListener c).run (c.exec s) w.state
    (∀ m, w.state.files.entry c.markerPath = some m → ∃ state text, markerBytes state = .ok text ∧
      (w.state.files.file m).text <+: text) ∧
    (¬ Torn c w.state → (∃ guard, r.1 = .ok guard) ∨ r.1 = .error exhausted ∧ Occupied c r.2 ∨
      r.1 = .error .io ∧ inodes ≤ r.2.files.next) ∧
    (Torn c w.state → (∃ e, r.1 = .error e) ∧ r.2.files = w.state.files) := by
  intro r
  obtain ⟨htidy, hfree⟩ := (reachable_settled hfinal hw).idle hidle
  have hleaves : Leaves c s w.state := by
    refine ⟨htidy, fun i t ht => ?_⟩
    rw [hfree i] at ht
    cases ht
  have hruns := Process.Safe.run
    (bindAdminListener_runs hfinal htidy w.state ⟨rfl, hleaves, hfree⟩)
    (fun _ _ => rfl) fun _ _ => rfl
  refine ⟨htidy.written, fun hwhole => ?_, fun htorn => ?_⟩
  · rcases hruns with ⟨guard, hguard, -⟩ | ⟨e, he, ⟨-, -, hio | hnames⟩ | ⟨htorn, -⟩⟩
    · exact .inl ⟨guard, hguard⟩
    · exact .inr (.inr ⟨hio.1 ▸ he, hio.2⟩)
    · exact .inr (.inl ⟨hnames.1 ▸ he, hnames.2⟩)
    · exact absurd htorn hwhole
  · rcases hruns with ⟨-, -, hwhole, -⟩ | ⟨e, he, ⟨hwhole, -⟩ | ⟨-, -, hsame⟩⟩
    · exact absurd htorn hwhole
    · exact absurd htorn hwhole
    · exact ⟨⟨e, he⟩, hsame⟩

/-- A server that has taken so many operations. -/
def servedPool (n : ℕ) : Pool Reply Failure Site :=
  (plainConfig.advance 0)^[n] (emptyPool.put 0 (some (server plainConfig)) emptyPool.state)

/-- It dies before the next one takes effect. -/
def diedPool (n : ℕ) : Pool Reply Failure Site :=
  (servedPool n).put 0 none
    ((((servedPool n).head 0).elim (servedPool n).state fun op =>
      Op.cut 0 op (servedPool n).state).release 0)

theorem diedPool_process (n s : ℕ) : (diedPool n).process s = none := by
  rw [diedPool, Pool.put_process]
  split_ifs with hs
  · rfl
  · rw [servedPool, advance_process hs, Pool.put_process, if_neg hs]
    rfl

theorem diedPool_reachable {n : ℕ} (hhead : ((servedPool n).head 0).isSome) :
    (succession plainConfig).Reachable (diedPool n) := by
  have hstart : (succession plainConfig).step emptyPool (.start 0)
      (emptyPool.put 0 (some (server plainConfig)) emptyPool.state) :=
    ⟨.start rfl, fun _ _ _ => rfl⟩
  have hop : ∀ (v : Pool Reply Failure Site) op next, v.process 0 = some (.call op next) → ∃ label,
      (succession plainConfig).step v label (v.put 0
        (some (next (plainConfig.exec 0 op v.state).1)) (plainConfig.exec 0 op v.state).2) :=
    fun v op next hp => ⟨.op 0, .op hp rfl, fun _ h => by cases h⟩
  have hserved : (succession plainConfig).Later emptyPool (servedPool n) :=
    (Machine.Later.refl.tail hstart).trans (later_advance hop _ _)
  obtain ⟨op, hop⟩ := Option.isSome_iff_exists.mp hhead
  obtain ⟨p, hp, -⟩ := Option.bind_eq_some_iff.mp hop
  have hexit : (succession plainConfig).step (servedPool n) (.exit 0) (diedPool n) := by
    refine ⟨.exit hp ⟨0, ?_⟩, fun _ h => by cases h⟩
    rw [Pool.head, hp, Option.bind_some] at hop
    rw [Pool.head, hp, Option.bind_some, hop]
    rfl
  exact ⟨emptyPool, ⟨rfl, fun _ => rfl⟩, hserved.tail hexit⟩

/-- What a bind finds that follows a death, and its outcome. -/
def restartFacts (n : ℕ) : Bool × Option Bool × Bool :=
  (((servedPool n).head 0).isSome,
    ((diedPool n).state.files.entry plainConfig.markerPath).map fun m =>
      (parseMarker ((diedPool n).state.files.file m).text).isOk,
    ((bindAdminListener plainConfig).run (plainConfig.exec 1) (diedPool n).state).1.isOk)

/-- The first death is behind the pending state, the second one in front of the first write. -/
theorem restartFacts_eq : restartFacts 70 = (true, some true, true) ∧
    restartFacts 11 = (true, some false, false) := by decide +kernel

theorem restartFacts_marker {n : ℕ} {ok bound : Bool}
    (h : restartFacts n = (true, some ok, bound)) :
    (succession plainConfig).Reachable (diedPool n) ∧
      (∃ m, (diedPool n).state.files.entry plainConfig.markerPath = some m ∧
        (parseMarker ((diedPool n).state.files.file m).text).isOk = ok) ∧
      ((bindAdminListener plainConfig).run (plainConfig.exec 1) (diedPool n).state).1.isOk =
      bound := by
  obtain ⟨hhead, hmarker, hbound⟩ := by simpa only [restartFacts, Prod.mk.injEq] using h
  exact ⟨diedPool_reachable hhead, Option.map_eq_some_iff.mp hmarker, hbound⟩

/-- A server that finds the pending socket of a dead one binds, and one that finds an empty marker
does not. -/
theorem bind_restartable_restarted :
    (∃ guard, ((bindAdminListener plainConfig).run (plainConfig.exec 1) (diedPool 70).state).1 =
      .ok guard) ∧
    (∃ e, ((bindAdminListener plainConfig).run (plainConfig.exec 1) (diedPool 11).state).1 =
      .error e) ∧
    ((bindAdminListener plainConfig).run (plainConfig.exec 1) (diedPool 11).state).2.files =
      (diedPool 11).state.files := by
  obtain ⟨hwhole, htorn⟩ := restartFacts_eq
  obtain ⟨hreachable, ⟨m, hm, hstate⟩, hbound⟩ := restartFacts_marker hwhole
  obtain ⟨hreachable', ⟨m', hm', hnone⟩, -⟩ := restartFacts_marker htorn
  have hrestart := bind_restartable (by decide) hreachable (diedPool_process 70) 1
  have hrefuse := bind_restartable (by decide) hreachable' (diedPool_process 11) 1
  refine ⟨?_, hrefuse.2.2 ⟨m', hm', fun state hparse => ?_⟩⟩
  · have hfine : ¬ Torn plainConfig (diedPool 70).state := by
      rintro ⟨k, hk, hbad⟩
      obtain rfl := Option.some.inj (hm.symm.trans hk)
      cases hparse : parseMarker ((diedPool 70).state.files.file m).text with
      | ok state => exact hbad state hparse
      | error e =>
        rw [hparse] at hstate
        cases hstate
    rcases hrestart.2.1 hfine with hguard | ⟨hexhausted, -⟩ | ⟨hio, -⟩
    · exact hguard
    · rw [hexhausted] at hbound
      cases hbound
    · rw [hio] at hbound
      cases hbound
  · rw [hparse] at hnone
    cases hnone

/-- An empty marker stops every bind. -/
theorem empty_marker_refused : ¬ ∀ c : Config, c.final ≠ [] → ∀ w, (succession c).Reachable w →
    (∀ s, w.process s = none) → ∀ s,
      (∃ guard, ((bindAdminListener c).run (c.exec s) w.state).1 = .ok guard) ∨
        ((bindAdminListener c).run (c.exec s) w.state).1 = .error exhausted := by
  intro h
  have hrefused : (((bindAdminListener plainConfig).run (plainConfig.exec 1)
    (diedPool 11).state).1.map
      fun _ => ()) = .error invalidFormat := by
    decide +kernel
  obtain ⟨hreachable, -⟩ := restartFacts_marker restartFacts_eq.2
  rcases h plainConfig (by decide) (diedPool 11) hreachable (diedPool_process 11) 1 with
    ⟨guard, hok⟩ | hbusy
  · rw [hok] at hrefused
    cases hrefused
  · rw [hbusy] at hrefused
    exact absurd (Except.error.inj hrefused) (by decide)

end AgentJournal.Daemon
