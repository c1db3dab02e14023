import AgentJournal.Service.Identity
import AgentJournal.Service.Listing
import AgentJournal.Service.Traversal

/-! # Handles and ids share one namespace

A selector is a name or an id. Names are permanent and never equal an id, so what a selector once
stood for it stands for as long as the journal lives, through renames and restores.
-/

namespace AgentJournal.Service
open Domain Foundation Storage Recovery

variable {P : Platform} {c d : Central} {selector principal : String}

section Current

/-- Every principal has a current name. -/
def Named (i : Identities) : Prop :=
  ∀ p ∈ i.principals, ∃ n ∈ i.principalNames, n.principalId = p.id ∧ n.kind = .current

theorem Named.introduce {i : Identities} {row : PrincipalRow} {name : PrincipalNameRow}
    (h : Named i)
    (hrow : Introduces row name) : Named (i.introduce row name) := by
  intro p hp
  rcases List.mem_append.mp hp with hold | hnew
  · obtain ⟨n, hn, hname⟩ := h p hold
    exact ⟨n, List.mem_append_left _ hn, hname⟩
  · rw [List.mem_singleton.mp hnew]
    exact ⟨name, List.mem_append_right _ (List.mem_singleton_self _), hrow.principalId,
      hrow.current⟩

theorem Named.updateProfiles {i : Identities} {p : PrincipalRow → Bool}
    {f : PrincipalRow → PrincipalRow}
    (h : Named i) (hf : ∀ r, (f r).id = r.id) : Named (i.updateProfiles p f) := by
  intro r hr
  obtain ⟨r', hr', rfl⟩ := List.mem_map.mp hr
  obtain ⟨n, hn, hprincipal, hcurrent⟩ := h r' hr'
  refine ⟨n, hn, ?_, hcurrent⟩
  split
  · rw [hprincipal, hf]
  · exact hprincipal

/-- The retired name is replaced by the new one of the same principal. -/
theorem Named.renamed {i : Identities} (h : Named i) (principal current handle now : String) :
    Named (i.renamed principal current handle now) := by
  unfold Identities.renamed
  split
  · exact h
  · intro p hp
    obtain ⟨n, hn, hprincipal, hcurrent⟩ := h p hp
    by_cases hretired : n.name = current ∧ n.principalId = principal
    · refine ⟨⟨handle, principal, .current, now⟩,
        List.mem_append_right _ (List.mem_singleton_self _), ?_, rfl⟩
      rw [← hprincipal, hretired.2]
    · refine ⟨n, List.mem_append_left _ (List.mem_map.mpr ⟨n, hn, if_neg ?_⟩), hprincipal, hcurrent⟩
      simp only [Bool.and_eq_true, decide_eq_true_eq]
      exact fun hall => hretired hall.1

theorem named_invariant (P : Platform) : Invariant P fun c => Named (identities c) := by
  refine Invariant.of_steps (by simp [Named]) (fun {c d} _ _ h hstep => ?_) fun hmerged h => ?_
  · generalize identities d = i at hstep
    cases hstep with
    | same => exact h
    | created hintroduces => exact h.introduce hintroduces
    | registered _ hintroduces _ _ => exact h.introduce hintroduces
    | @updated principal current handle now _ _ _ _ hf =>
      exact (h.renamed principal current handle now).updateProfiles fun r => (hf r).1
    | disabled hf => exact h.updateProfiles fun r => (hf r).1
    | rotated | revoked | recovered => exact h
  · intro p hp
    obtain ⟨n, hn, hname⟩ := h p (hmerged.principals.mem_iff.mp hp)
    exact ⟨n, hmerged.principalNames.mem_iff.mpr hn, hname⟩

end Current

section Selectors

/-- What a selector stands for: an active principal under one of its names or its id. -/
def Denotes (c : Central) (selector principal : String) : Prop :=
  (∃ p ∈ c.principals, p.id = principal ∧ p.disabledAt = none) ∧
    (selector = principal ∨ ∃ n ∈ c.principalNames, n.name = selector ∧ n.principalId = principal)

theorem names_ne (hc : WellFormed P c) {n : PrincipalNameRow} (hn : n ∈ c.principalNames)
    {p : PrincipalRow} (hp : p ∈ c.principals) : n.name ≠ p.id := by
  intro heq
  have hnone := hc.names n hn
  simp only [Central.hasPrincipal, List.any_eq_false, decide_eq_true_eq] at hnone
  exact hnone p hp heq.symm

/-- A principal is found by its id among the active ones. -/
theorem find_active {id : String} {found : String}
    (h : (c.principals.find? fun p => p.id = id && p.disabledAt.isNone).map (·.id) = some found) :
    found = id ∧ ∃ p ∈ c.principals, p.id = id ∧ p.disabledAt = none := by
  obtain ⟨p, hfind, rfl⟩ := Option.map_eq_some_iff.mp h
  have hp := List.find?_some hfind
  simp only [Bool.and_eq_true, decide_eq_true_eq, Option.isNone_iff_eq_none] at hp
  exact ⟨hp.1, p, List.mem_of_find?_eq_some hfind, hp⟩

theorem find_active_of_mem {p : PrincipalRow} (hp : p ∈ c.principals)
    (hactive : p.disabledAt = none) :
    (c.principals.find? fun r => r.id = p.id && r.disabledAt.isNone).map (·.id) = some p.id := by
  cases hfind : c.principals.find? fun r => r.id = p.id && r.disabledAt.isNone with
  | none => simpa [hactive] using List.find?_eq_none.mp hfind p hp
  | some r =>
    have hr := List.find?_some hfind
    simp only [Bool.and_eq_true, decide_eq_true_eq] at hr
    rw [Option.map_some, hr.1]

theorem findActive_denotes (h : findActive c selector = some principal) :
    Denotes c selector principal := by
  unfold findActive at h
  split at h
  · rename_i n hn
    obtain ⟨rfl, hp⟩ := find_active h
    exact ⟨hp, .inr ⟨n, List.mem_of_find?_eq_some hn, by simpa using List.find?_some hn, rfl⟩⟩
  · obtain ⟨rfl, hp⟩ := find_active h
    exact ⟨hp, .inl rfl⟩

theorem findActive_of_denotes (hc : WellFormed P c) (h : Denotes c selector principal) :
    findActive c selector = some principal := by
  obtain ⟨⟨p, hp, rfl, hactive⟩, rfl | ⟨n, hn, rfl, hprincipal⟩⟩ := h
  · have hnone : (c.principalNames.find? fun n => n.name = p.id) = none := by
      rw [List.find?_eq_none]
      intro n hn
      simpa using names_ne hc hn hp
    unfold findActive
    rw [hnone]
    exact find_active_of_mem hp hactive
  · have hfound : (c.principalNames.find? fun m => m.name = n.name) = some n := by
      have hdistinct : c.principalNames.Pairwise fun a b => a.name ≠ b.name :=
        hc.tables.principalNames.keys.imp fun hkey heq => hkey (key_of_name_eq heq)
      exact find?_of_distinct hdistinct hn
    unfold findActive
    rw [hfound]
    simp only [hprincipal]
    exact find_active_of_mem hp hactive

theorem spacePrincipals_denotes {space : String}
    (h : principal ∈ spacePrincipals c space selector) :
    Denotes c selector principal := by
  unfold spacePrincipals at h
  split at h
  · rcases List.mem_append.mp h with hname | hid
    · simp only [List.mem_flatMap, List.mem_map, List.mem_filter, Bool.and_eq_true,
        decide_eq_true_eq, Option.isNone_iff_eq_none] at hname
      obtain ⟨n, ⟨hn, hselector⟩, p, ⟨hp, hprincipal, hactive⟩, rfl⟩ := hname
      exact ⟨⟨p, hp, rfl, hactive⟩, .inr ⟨n, hn, hselector, hprincipal.symm⟩⟩
    · simp only [List.mem_map, List.mem_filter, Bool.and_eq_true, decide_eq_true_eq,
        Option.isNone_iff_eq_none] at hid
      obtain ⟨p, ⟨hp, ⟨hselector, hactive⟩, -⟩, rfl⟩ := hid
      exact ⟨⟨p, hp, rfl, hactive⟩, .inl hselector.symm⟩
  · cases h

/-- A filter resolves to a principal or to the empty id of nobody. -/
theorem resolveSpacePrincipal_denotes {space : String} (hne : principal ≠ "")
    (h : resolveSpacePrincipal c space (some selector) = some principal) :
    Denotes c selector principal := by
  simp only [resolveSpacePrincipal, Option.map_some, Option.some.injEq] at h
  cases hhead : (spacePrincipals c space selector).head? with
  | none =>
    rw [hhead] at h
    exact absurd h.symm hne
  | some found =>
    rw [hhead] at h
    obtain rfl : found = principal := h
    exact spacePrincipals_denotes (List.mem_of_head? hhead)

/-- A selector keeps its meaning: its name is kept, and no name can take an id. -/
theorem Denotes.agrees {q : String} (hd : WellFormed P d) (h : Extends c d)
    (hp : Denotes c selector principal) (hq : Denotes d selector q) : principal = q := by
  obtain ⟨⟨p, hp, rfl, -⟩, hselector⟩ := hp
  obtain ⟨⟨r, hr, rfl, -⟩, hselector'⟩ := hq
  obtain ⟨p', hp', hid⟩ := h.principals p hp
  have hkept : ∀ n ∈ c.principalNames, n.name = selector → n.principalId = p.id →
      ∃ n' ∈ d.principalNames, n'.name = selector ∧ n'.principalId = p.id := by
    intro n hn hname hprincipal
    obtain ⟨n', hn', hname', hprincipal', -⟩ := h.principalNames n hn
    exact ⟨n', hn', hname'.trans hname, hprincipal'.trans hprincipal⟩
  rcases hselector with rfl | ⟨n, hn, hname, hprincipal⟩ <;>
    rcases hselector' with hsame | ⟨m, hm, hmname, hmprincipal⟩
  · exact hsame
  · exact absurd (hmname.trans hid.symm) (names_ne hd hm hp')
  · obtain ⟨n', hn', hname', -⟩ := hkept n hn hname hprincipal
    exact absurd (hname'.trans hsame) (names_ne hd hn' hr)
  · obtain ⟨n', hn', hname', hprincipal'⟩ := hkept n hn hname hprincipal
    have hsame : n' = m := hd.tables.principalNames.eq_of_key hn' hm
      (key_of_name_eq (hname'.trans hmname.symm))
    rw [← hprincipal', ← hmprincipal, hsame]

end Selectors

/-- A content that is served after another: by committed calls, or as a committed content of the
same journal with a later revision, restores of any backups in between. -/
inductive Earlier (P : Platform) (c d : Central) : Prop
  | served : Served P c → Serves P c d → Earlier P c d
  | committed {w : World} : (store P).Reachable w → c ∈ w.history → d ∈ w.history →
      c.recoveryAnchor.revision ≤ d.recoveryAnchor.revision → Earlier P c d

theorem Earlier.extended (h : Earlier P c d) : WellFormed P d ∧ Extends c d := by
  cases h with
  | served hc hserves =>
    exact ⟨(hc.later hserves).wellFormed, hserves.extended hc.wellFormed hc.sound⟩
  | committed hw hc hd hle =>
    exact ⟨wellFormed_of_reachable hw hd, extends_of_reachable hw hc hd hle⟩

/-- In every served content each principal has exactly one current name, no name is an id and the id
of an active principal stands for it. Names are never deleted or moved, and whatever a selector
stood for in one content, it stands for nothing else in any later one. -/
theorem handle_namespace (P : Platform) :
    (∀ c, Served P c →
      (∀ p ∈ c.principals, ∃! n, n ∈ c.principalNames ∧ n.principalId = p.id ∧ n.kind = .current) ∧
      (∀ n ∈ c.principalNames, ∀ p ∈ c.principals, n.name ≠ p.id) ∧
      ∀ p ∈ c.principals, p.disabledAt = none → findActive c p.id = some p.id) ∧
    ∀ c d, Earlier P c d →
      (∀ n ∈ c.principalNames, ∃ n' ∈ d.principalNames, n'.name = n.name ∧
        n'.principalId = n.principalId) ∧
      ∀ selector p q,
        (findActive c selector = some p ∨
          p ≠ "" ∧ ∃ space, resolveSpacePrincipal c space (some selector) = some p) →
        (findActive d selector = some q ∨
          q ≠ "" ∧ ∃ space, resolveSpacePrincipal d space (some selector) = some q) →
        p = q := by
  refine ⟨fun c hserved => ⟨fun p hp => ?_, fun n hn p hp => names_ne hserved.wellFormed hn hp,
    fun p hp hactive => ?_⟩, fun c d hearlier => ⟨fun n hn => ?_, fun selector p q hp hq => ?_⟩⟩
  · obtain ⟨n, hn, hprincipal, hcurrent⟩ := hserved.invariant (named_invariant P) p hp
    refine ⟨n, ⟨hn, hprincipal, hcurrent⟩, ?_⟩
    rintro m ⟨hm, hmprincipal, hmcurrent⟩
    exact eq_of_current hserved.wellFormed.tables.principalNames hm hn
      (hmprincipal.trans hprincipal.symm) hmcurrent hcurrent
  · exact findActive_of_denotes hserved.wellFormed ⟨⟨p, hp, rfl, hactive⟩, .inl rfl⟩
  · obtain ⟨n', hn', hname, hprincipal, -⟩ := hearlier.extended.2.principalNames n hn
    exact ⟨n', hn', hname, hprincipal⟩
  · have hmeans : ∀ {c : Central} {p : String}, (findActive c selector = some p ∨
        p ≠ "" ∧ ∃ space, resolveSpacePrincipal c space (some selector) = some p) →
        Denotes c selector p := by
      rintro c p (hfind | ⟨hne, space, hresolve⟩)
      · exact findActive_denotes hfind
      · exact resolveSpacePrincipal_denotes hne hresolve
    exact (hmeans hp).agrees hearlier.extended.1 hearlier.extended.2 (hmeans hq)

section Sample

def sampleUpdate : ProfileUpdateRequest := ⟨"renamed", "Sample", none, 1⟩

/-- The sample principal, authenticated and renamed. -/
def sampleRename (c : Central) : Option (AuthenticatedCredential × Principal × Central) := do
  let actor ← succeeded
    ((authenticate .sample sampleToken .principalClient).run (.start sampleHost c))
  let updated ← succeeded
    ((updateOwnProfile .sample actor.1 "rename" sampleUpdate).run (.start sampleHost c))
  return (actor.1, updated.1, updated.2.central)

set_option maxRecDepth 20000 in
theorem sampleRename_facts : findActive sampleStore sampleRequest.handle = some samplePrincipal ∧
    ((sampleRename sampleStore).map fun x => findActive x.2.2 sampleRequest.handle) =
      some (some samplePrincipal) ∧
    ((sampleRename sampleStore).map fun x => findActive x.2.2 "renamed") =
      some (some samplePrincipal) := by decide +kernel

theorem sampleRename_call {x : AuthenticatedCredential × Principal × Central}
    (h : sampleRename c = some x) : ∃ t,
      ((Call.updateOwnProfile x.1 "rename" sampleUpdate).perform .sample).run
      (.start sampleHost c) =
        .ok ((), t) ∧ t.central = x.2.2 := by
  simp only [sampleRename, Option.bind_eq_bind, Option.bind_eq_some_iff, succeeded_eq_some,
    Option.pure_def, Option.some.injEq] at h
  obtain ⟨⟨actor, s⟩, -, ⟨profile, t⟩, hupdate, rfl⟩ := h
  exact ⟨t, run_bind_eq_ok.mpr ⟨profile, t, hupdate, rfl⟩, rfl⟩

/-- After a rename both names stand for the principal, and nothing else ever does. -/
theorem handle_namespace_sample : ∃ d, Earlier .sample sampleStore d ∧
    findActive sampleStore "ada" = some samplePrincipal ∧
    findActive d "ada" = some samplePrincipal ∧
    findActive d "renamed" = some samplePrincipal ∧
    (∀ q, findActive d "ada" = some q → q = samplePrincipal) ∧
    ∀ p ∈ d.principals, ∃! n, n ∈ d.principalNames ∧ n.principalId = p.id ∧ n.kind = .current := by
  obtain ⟨hold, hkept, hnew⟩ := sampleRename_facts
  obtain ⟨x, hx, hkept⟩ := Option.map_eq_some_iff.mp hkept
  rw [hx, Option.map_some, Option.some.injEq] at hnew
  have hserved : Served .sample sampleStore := .of_content (.inr sampleStore_unadopted)
  obtain ⟨t, hcall, hcentral⟩ := sampleRename_call hx
  have hserves : Serves .sample sampleStore x.2.2 := hcentral ▸ Serves.refl.call _ hcall
  have hearlier : Earlier .sample sampleStore x.2.2 := .served hserved hserves
  obtain ⟨hstates, hlater⟩ := handle_namespace .sample
  refine ⟨x.2.2, hearlier, hold, hkept, hnew, fun q hq => ?_, (hstates _ (hserved.later hserves)).1⟩
  exact ((hlater _ _ hearlier).2 "ada" samplePrincipal q (.inl hold) (.inl hq)).symm

end Sample

end AgentJournal.Service
