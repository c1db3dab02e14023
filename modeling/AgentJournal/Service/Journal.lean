import AgentJournal.Recovery.Completeness
import AgentJournal.Service.Append
import AgentJournal.Service.History

/-! # The journal invariant

Sequences of a space are 1..n in append order, every attention row has its mailbox item, no item
is above the head of its recipient, and the cursor key exists before the first record. The
invariant holds between transactions; an append restores it after its last statement.
-/

namespace AgentJournal.Service
open Domain Foundation Storage Recovery

/-- The list is 1, 2, .., n. -/
def Numbered (l : List ℤ) : Prop := l = (List.range l.length).map fun i : ℕ => (i : ℤ) + 1

theorem Numbered.append {l : List ℤ} (h : Numbered l) : Numbered (l ++ [(l.length : ℤ) + 1]) := by
  unfold Numbered at h ⊢
  rw [List.length_append, List.length_singleton, List.range_succ, List.map_append, ← h]
  rfl

theorem Numbered.mem_iff {l : List ℤ} (h : Numbered l) {x : ℤ} :
    x ∈ l ↔ 1 ≤ x ∧ x ≤ l.length := by
  conv_lhs => rw [h]
  simp only [List.mem_map, List.mem_range]
  constructor
  · rintro ⟨i, hi, rfl⟩
    omega
  · rintro ⟨hone, hlast⟩
    exact ⟨(x - 1).toNat, by omega, by omega⟩

/-- A bound that occurs is the maximum of a fold. -/
theorem foldl_max_of_mem {α : Type*} [LinearOrder α] {m : α} :
    ∀ {l : List α} {x : α}, (∀ y ∈ x :: l, y ≤ m) → m ∈ x :: l → l.foldl max x = m
  | [], x, _, hm => (List.mem_singleton.mp hm).symm
  | y :: l, x, hle, hm => by
    have hx : x ≤ m := hle x (by simp)
    have hy : y ≤ m := hle y (by simp)
    rw [List.foldl_cons]
    refine foldl_max_of_mem
      (List.forall_mem_cons.mpr ⟨max_le hx hy, fun z hz => hle z (by simp [hz])⟩) ?_
    rcases List.mem_cons.mp hm with rfl | hm
    · simp [hy]
    · rcases List.mem_cons.mp hm with rfl | hm
      · simp [hx]
      · exact List.mem_cons_of_mem _ hm

theorem foldl_min_of_mem {α : Type*} [LinearOrder α] {m x : α} {l : List α}
    (hle : ∀ y ∈ x :: l, m ≤ y) (hm : m ∈ x :: l) : l.foldl min x = m :=
  foldl_max_of_mem (α := αᵒᵈ) hle hm

theorem Numbered.foldl_max {l : List ℤ} (h : Numbered l) : l.foldl max 0 = l.length := by
  refine foldl_max_of_mem (List.forall_mem_cons.mpr ⟨by omega, fun y hy => (h.mem_iff.mp hy).2⟩) ?_
  rw [List.mem_cons, h.mem_iff]
  omega

/-- The sequences of one space in insertion order. -/
def spaceSeqs (c : Central) (space : String) : List ℤ :=
  (c.records.filter fun r => r.spaceId = space).map (·.spaceSeq)

/-- The sequences of one recipient in insertion order. -/
def recipientSeqs (c : Central) (recipient : String) : List ℤ :=
  (c.mailboxItems.filter fun m => m.recipientPrincipalId = recipient).map (·.recipientSeq)

structure JournalSound (c : Central) : Prop where
  sequences : ∀ space, Numbered (spaceSeqs c space)
  delivered : (c.mailboxItems.map fun m => (m.recordId, m.recipientPrincipalId)) =
    c.attention.map fun a => (a.recordId, a.recipientPrincipalId)
  allocated : ∀ m ∈ c.mailboxItems, ∃ n, c.lastSeq m.recipientPrincipalId = some n ∧
    m.recipientSeq ≤ n
  keyed : c.records ≠ [] → c.journalSecret.isSome = true

/-- Without a restore no sequence of a recipient is skipped. -/
def Dense (c : Central) : Prop :=
  ∀ recipient, Numbered (recipientSeqs c recipient) ∧
    (c.lastSeq recipient).getD 0 = (recipientSeqs c recipient).length

/-- Every item of the second database is one of the first or above the first one's head. -/
def Allocates (c d : Central) : Prop :=
  ∀ m ∈ d.mailboxItems, (∃ m' ∈ c.mailboxItems, allocation m' = allocation m) ∨
    (c.lastSeq m.recipientPrincipalId).getD 0 < m.recipientSeq

section Heads
variable {c d : Central}

theorem lastSeq_eq_some (hv : Storage.inboxSequences.Valid c.inboxSequences) {recipient : String}
    {n : ℤ} :
    c.lastSeq recipient = some n ↔ (⟨recipient, n⟩ : InboxSequenceRow) ∈ c.inboxSequences := by
  unfold Central.lastSeq
  constructor
  · intro h
    obtain ⟨r, hfind, rfl⟩ := Option.map_eq_some_iff.mp h
    have hrecipient : r.recipientPrincipalId = recipient := by simpa using List.find?_some hfind
    rw [← hrecipient]
    exact List.mem_of_find?_eq_some hfind
  · intro hr
    cases hfind : c.inboxSequences.find? fun x => x.recipientPrincipalId = recipient with
    | none =>
      have := List.find?_eq_none.mp hfind _ hr
      simp at this
    | some x =>
      have hx : x.recipientPrincipalId = recipient := by simpa using List.find?_some hfind
      have heq : x = ⟨recipient, n⟩ := hv.eq_of_key (List.mem_of_find?_eq_some hfind) hr
        (by simp [Storage.inboxSequences, hx])
      rw [heq]
      rfl

/-- Heads never fall along the history. -/
theorem lastSeq_le (hc : Storage.inboxSequences.Valid c.inboxSequences)
    (hd : Storage.inboxSequences.Valid d.inboxSequences) (h : Extends c d)
    {recipient : String} {n : ℤ} (hn : c.lastSeq recipient = some n) :
    ∃ n', d.lastSeq recipient = some n' ∧ n ≤ n' := by
  obtain ⟨r', hr', rfl, hle⟩ := h.inboxSequences _ ((lastSeq_eq_some hc).mp hn)
  exact ⟨r'.lastSeq, (lastSeq_eq_some hd).mpr hr', hle⟩

/-- The head of a recipient goes up by one. -/
theorem lastSeq_of_upsert {recipient : String} {heads : List InboxSequenceRow}
    (hv : Storage.inboxSequences.Valid c.inboxSequences)
    (h : Storage.inboxSequences.upsert (fun old _ => { old with lastSeq := old.lastSeq + 1 })
      ⟨recipient, 1⟩ c.inboxSequences = .ok heads) :
    Storage.inboxSequences.Valid heads ∧ { c with inboxSequences := heads }.lastSeq recipient =
      some ((c.lastSeq recipient).getD 0 + 1) := by
  have hheads : Storage.inboxSequences.Valid heads := hv.upsert h fun _ _ => rfl
  refine ⟨hheads, (lastSeq_eq_some (c := { c with inboxSequences := heads }) hheads).mpr ?_⟩
  rcases Schema.upsert_cases h with ⟨haccepts, rfl⟩ | ⟨⟨name, n⟩, hold, hkey, -, -, rfl⟩
  · have hnone : c.lastSeq recipient = none := by
      rw [Central.lastSeq, Option.map_eq_none_iff, List.find?_eq_none]
      intro r hr heq
      exact haccepts.key r hr (by simpa [Storage.inboxSequences] using heq)
    rw [hnone]
    exact List.mem_append_right _ (List.mem_singleton_self _)
  · obtain rfl : name = recipient := by simpa [Storage.inboxSequences] using hkey
    rw [(lastSeq_eq_some hv).mpr hold]
    exact List.mem_map.mpr ⟨_, hold, if_pos rfl⟩

/-- A delivery allocates the sequence above the head of its recipient. -/
theorem Delivery.allocates {id now recipient : String}
    (hv : Storage.inboxSequences.Valid c.inboxSequences) (h : Delivery id now recipient c d) :
    Storage.inboxSequences.Valid d.inboxSequences ∧
    ∃ item : MailboxItemRow, d.mailboxItems = c.mailboxItems ++ [item] ∧
      item.recordId = id ∧ item.recipientPrincipalId = recipient ∧
      item.recipientSeq = (c.lastSeq recipient).getD 0 + 1 ∧
      d.lastSeq recipient = some item.recipientSeq ∧
      ∀ other, other ≠ recipient → d.lastSeq other = c.lastSeq other := by
  obtain ⟨heads, item, hid, hrecipient, -, hupsert, hseq, rfl⟩ := h
  obtain ⟨hheads, hraised⟩ := lastSeq_of_upsert hv hupsert
  refine ⟨hheads, item, rfl, hid, hrecipient, Option.some.inj (hseq.symm.trans hraised), hseq, ?_⟩
  · intro other hother
    ext n
    rw [lastSeq_eq_some hv]
    refine (lastSeq_eq_some (c := { c with inboxSequences := heads }) hheads).trans ?_
    have hne : ∀ k : ℤ, (⟨other, n⟩ : InboxSequenceRow) ≠ ⟨recipient, k⟩ := by
      intro k heq
      exact hother (congrArg InboxSequenceRow.recipientPrincipalId heq)
    rcases Schema.upsert_cases hupsert with ⟨-, rfl⟩ | ⟨old, hold, hkey, -, -, rfl⟩
    · simp [hne]
    · have hold' : old.recipientPrincipalId = recipient := by
        simpa [Storage.inboxSequences] using hkey
      constructor
      · intro hmem
        obtain ⟨r, hr, heq⟩ := List.mem_map.mp hmem
        split at heq
        · exact absurd heq.symm (hold' ▸ hne _)
        · exact heq ▸ hr
      · intro hmem
        refine List.mem_map.mpr ⟨_, hmem, if_neg ?_⟩
        simpa [Storage.inboxSequences] using hother

end Heads

section Frame
variable {P : Platform} {c d e : Central}

theorem allocation_inj {m m' : MailboxItemRow} (h : allocation m = allocation m') :
    m.id = m'.id ∧ m.recordId = m'.recordId ∧ m.recipientPrincipalId = m'.recipientPrincipalId ∧
      m.createdAt = m'.createdAt ∧ m.recipientSeq = m'.recipientSeq := by
  simpa [allocation] using h

theorem SameJournal.item (h : SameJournal c d) {m : MailboxItemRow} (hm : m ∈ d.mailboxItems) :
    ∃ m' ∈ c.mailboxItems, allocation m' = allocation m := by
  rw [← List.mem_map, ← h.mailboxItems]
  exact List.mem_map_of_mem hm

theorem SameJournal.lastSeq (h : SameJournal c d) (recipient : String) :
    d.lastSeq recipient = c.lastSeq recipient := by
  unfold Central.lastSeq
  rw [h.inboxSequences]

theorem recipientSeqs_eq (c : Central) (recipient : String) : recipientSeqs c recipient =
    ((c.mailboxItems.map allocation).filter fun a => a.2.2.1 = recipient).map (·.2.2.2.2) := by
  rw [List.filter_map, List.map_map]
  rfl

theorem JournalSound.sameJournal (hc : JournalSound c) (h : SameJournal c d) : JournalSound d where
  sequences space := by
    unfold spaceSeqs
    rw [h.records]
    exact hc.sequences space
  delivered := by
    have hpairs : ∀ e : Central,
      (e.mailboxItems.map fun m => (m.recordId, m.recipientPrincipalId)) =
        (e.mailboxItems.map allocation).map fun a => (a.2.1, a.2.2.1) := by
      intro e
      rw [List.map_map]
      rfl
    rw [hpairs, h.mailboxItems, ← hpairs, h.attention]
    exact hc.delivered
  allocated m hm := by
    obtain ⟨m', hm', heq⟩ := h.item hm
    obtain ⟨-, -, hrecipient, -, hseq⟩ := allocation_inj heq
    rw [h.lastSeq, ← hrecipient, ← hseq]
    exact hc.allocated m' hm'
  keyed hne := by
    rw [h.records] at hne
    obtain ⟨secret, hsecret⟩ := Option.isSome_iff_exists.mp (hc.keyed hne)
    rw [h.journalSecret secret hsecret]
    rfl

theorem Dense.sameJournal (hc : Dense c) (h : SameJournal c d) : Dense d := by
  intro recipient
  rw [recipientSeqs_eq, h.mailboxItems, ← recipientSeqs_eq, h.lastSeq]
  exact hc recipient

theorem SameJournal.allocates (h : SameJournal c d) : Allocates c d := fun _ hm => .inl (h.item hm)

theorem Allocates.refl (c : Central) : Allocates c c := (SameJournal.refl c).allocates

theorem Keyed.sameJournal (h : Keyed c d) : SameJournal c d := by
  obtain ⟨-, heq, hsecret⟩ := h
  rw [heq]
  exact { SameJournal.refl c with journalSecret := hsecret }

end Frame

/-- What a run of statements made of the journal and the inbox heads of an earlier database. -/
structure Delivered (c d : Central) : Prop where
  heads : Storage.inboxSequences.Valid d.inboxSequences
  sound : JournalSound d
  allocates : Allocates c d
  raised : ∀ recipient, (c.lastSeq recipient).getD 0 ≤ (d.lastSeq recipient).getD 0
  dense : Dense c → Dense d

namespace Delivered
variable {c d e : Central}

theorem refl (hv : Storage.inboxSequences.Valid c.inboxSequences) (hc : JournalSound c) :
    Delivered c c := ⟨hv, hc, .refl c, fun _ => le_rfl, id⟩

theorem sameJournal (h : Delivered c d) (hs : SameJournal d e) : Delivered c e where
  heads := hs.inboxSequences ▸ h.heads
  sound := h.sound.sameJournal hs
  allocates m hm := by
    obtain ⟨m', hm', heq⟩ := hs.item hm
    obtain ⟨-, -, hrecipient, -, hseq⟩ := allocation_inj heq
    rw [← heq, ← hrecipient, ← hseq]
    exact h.allocates m' hm'
  raised recipient := by
    rw [hs.lastSeq]
    exact h.raised recipient
  dense hc := (h.dense hc).sameJournal hs

/-- The record of an append continues the sequences of its space. -/
theorem record {row : RecordRow} (h : Delivered c d) (hkey : d.journalSecret.isSome = true)
    (hseq : row.spaceSeq = d.maxSpaceSeq row.spaceId + 1) (hinsert : d.insertRecord row = .ok e) :
    Delivered c e := by
  obtain ⟨-, -, rfl⟩ := Central.insertRecord_eq_ok.mp hinsert
  refine { h with sound := { h.sound with sequences := fun space => ?_, keyed := fun _ => hkey } }
  have hold := h.sound.sequences space
  have hmax : d.maxSpaceSeq row.spaceId = (spaceSeqs d row.spaceId).length :=
    (h.sound.sequences row.spaceId).foldl_max
  unfold spaceSeqs at hold ⊢
  by_cases hspace : row.spaceId = space
  · subst hspace
    rw [List.filter_append, List.map_append]
    simp only [List.filter_cons, decide_true, if_true, List.filter_nil, List.map_cons, List.map_nil]
    rw [hseq, hmax]
    exact hold.append
  · simpa [List.filter_append, hspace] using hold

theorem relation {id now : String} {relation : Relation × ℕ} (h : Delivered c d)
    (hinsert : Related id now relation d e) : Delivered c e := by
  obtain ⟨-, -, -, -, rfl⟩ := Central.insertRecordRelation_eq_ok.mp hinsert
  exact { h with sound := { h.sound with } }

theorem idempotencyKey {row : IdempotencyKeyRow} (h : Delivered c d)
    (hinsert : d.insertIdempotencyKey row = .ok e) : Delivered c e := by
  obtain ⟨-, -, rfl⟩ := Central.insertIdempotencyKey_eq_ok.mp hinsert
  exact { h with sound := { h.sound with } }

/-- A delivery adds an item and its attention row under a new head. -/
theorem delivery {id now recipient : String} (h : Delivered c d)
    (hd : Delivery id now recipient d e) : Delivered c e := by
  obtain ⟨hv, item, hitems, hid, hrecipient, hseq, hhead, hother⟩ := hd.allocates h.heads
  have hraised : ∀ r, (d.lastSeq r).getD 0 ≤ (e.lastSeq r).getD 0 := by
    intro r
    by_cases hr : r = recipient
    · rw [hr, hhead, hseq, Option.getD_some]
      omega
    · rw [hother r hr]
  obtain ⟨heads, item', hid', hrecipient', -, -, -, hcentral⟩ := hd
  have hattention : e.attention = d.attention ++ [⟨id, recipient, now⟩] := by rw [hcentral]
  have hrecords : e.records = d.records := by rw [hcentral]
  have hsecret : e.journalSecret = d.journalSecret := by rw [hcentral]
  refine ⟨hv, ⟨?_, ?_, ?_, ?_⟩, ?_, fun r => (h.raised r).trans (hraised r), ?_⟩
  · intro space
    unfold spaceSeqs
    rw [hrecords]
    exact h.sound.sequences space
  · rw [hitems, hattention, List.map_append, List.map_append, h.sound.delivered]
    simp [hid, hrecipient]
  · intro m hm
    rw [hitems] at hm
    rcases List.mem_append.mp hm with hm | hm
    · obtain ⟨n, hn, hle⟩ := h.sound.allocated m hm
      by_cases hr : m.recipientPrincipalId = recipient
      · have hnew := hraised recipient
        rw [← hr, hn, hr, hhead, Option.getD_some, Option.getD_some] at hnew
        exact ⟨_, hr ▸ hhead, hle.trans hnew⟩
      · exact ⟨n, (hother _ hr).trans hn, hle⟩
    · rw [List.mem_singleton.mp hm, hrecipient]
      exact ⟨_, hhead, le_rfl⟩
  · rw [hrecords, hsecret]
    exact h.sound.keyed
  · intro m hm
    rw [hitems] at hm
    rcases List.mem_append.mp hm with hm | hm
    · exact h.allocates m hm
    · rw [List.mem_singleton.mp hm, hrecipient, hseq]
      have := h.raised recipient
      exact .inr (by omega)
  · intro hc r
    obtain ⟨hnumbered, hlast⟩ := h.dense hc r
    unfold recipientSeqs at hnumbered hlast ⊢
    rw [hitems, List.filter_append, List.map_append]
    by_cases hr : r = recipient
    · subst hr
      simp only [List.filter_cons, hrecipient, decide_true, if_true, List.filter_nil, List.map_cons,
        List.map_nil]
      rw [hhead, hseq, hlast]
      exact ⟨hnumbered.append, by simp⟩
    · have hne : ¬ item.recipientPrincipalId = r := by
        rw [hrecipient]
        exact Ne.symm hr
      rw [hother r hr]
      simpa [hne] using And.intro hnumbered hlast

end Delivered

section Calls
variable {P : Platform} {c d : Central}

theorem Appended.delivered {space path key hash : String} {result : AppendResult}
    (hv : Storage.inboxSequences.Valid c.inboxSequences) (hc : JournalSound c)
    (h : Appended space path key hash c d result) : Delivered c d := by
  obtain ⟨c₀, c₁, c₂, c₃, hkeyed, hrecord, hrelations, hdeliveries, hkey⟩ := h.statements
  have h₀ : Delivered c c₀ := (Delivered.refl hv hc).sameJournal hkeyed.sameJournal
  have hseq : (AppendResult.row result).spaceSeq =
      c₀.maxSpaceSeq (AppendResult.row result).spaceId + 1 := by
    rw [show c₀.maxSpaceSeq _ = c.maxSpaceSeq _ by rw [hkeyed.2.1]; rfl]
    exact h.seq.trans (by rw [AppendResult.row, h.spaceId])
  have h₁ := h₀.record hkeyed.1 hseq hrecord
  have h₂ := hrelations.invariant (I := Delivered c) (fun _ _ _ hd => hd.relation) h₁
  have h₃ := hdeliveries.invariant (I := Delivered c) (fun _ _ _ hd => hd.delivery) h₂
  exact h₃.idempotencyKey hkey

/-- Every call keeps the journal invariant and allocates above the heads it found. -/
theorem Call.perform_delivered (call : Call) {s t : Session} {u : Unit} (hs : s.changes = 0)
    (hv : Storage.inboxSequences.Valid s.central.inboxSequences) (hc : JournalSound s.central)
    (hrun : (call.perform P).run s = .ok (u, t)) : Delivered s.central t.central := by
  have hrefl := Delivered.refl hv hc
  cases hcall : call.isAppend with
  | false =>
    have hstart : Wrote (Write P) s.central s := by
      unfold Wrote
      rw [hs]
      exact .none
    have hwrites := perform_keeps hcall s u t hstart hrun
    exact hwrites.invariant (fun _ _ hd hw => hd.sameJournal hw.sameJournal) hrefl
  | true =>
    cases call with
    | appendRecord token space key input =>
      obtain ⟨result, t', happend, hpure⟩ := run_bind_eq_ok.mp hrun
      obtain ⟨-, rfl⟩ := run_pure_eq_ok.mp hpure
      obtain ⟨actor, s', -, hcentral, ⟨row, -, hreplay⟩ | ⟨-, happended, -⟩⟩ :=
        appendRecord_eq_ok happend
      · have hsame := central_eq (fun _ => replayAppend_keeps _ row) hreplay
        rw [hsame, hcentral]
        exact hrefl
      · exact happended.delivered hv hc
    | _ => cases hcall

end Calls
end AgentJournal.Service
