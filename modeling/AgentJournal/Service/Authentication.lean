import AgentJournal.Service.Credentials
import AgentJournal.Service.Handles

/-! # Who a bearer is

Seven checks of a credential are written out separately, with different ideas of what a token looks
like. Over the stores that can be served they are one: a token is borne by the unrevoked credential
of its digest, and it stands for that credential's principal while the principal is active.
-/

namespace AgentJournal.Service
open Domain Foundation Storage Recovery

structure Limits where
  contentBytes : ℕ
  relations : ℕ
  attentionRecipients : ℕ
  pageSize : ℕ
deriving DecidableEq, Repr

def defaultLimits : Limits := ⟨maxContentBytes, maxRelations, maxAttentionRecipients, maxPageSize⟩

structure Me where
  principal : Principal
  memberships : List Membership
  limits : Limits
deriving DecidableEq, Repr

/-- `ORDER BY space_id`. -/
def membershipsOf (c : Central) (principal : String) : List Membership :=
  ((c.memberships.filter fun r => r.principalId = principal).insertionSort
    fun a b => a.spaceId ≤ b.spaceId).map fun r =>
      ⟨r.spaceId, r.principalId, r.canRead, r.canAppend, r.canAdmin⟩

def me (P : Platform) (actor : AuthenticatedCredential) : Tx Me := do
  refuse (actor.credentialClass ≠ .principalClient) .unauthorized
  let now ← now P
  let valid ← query fun c => credentialValid P c now actor
  refuse (valid = false) .unauthorized
  let _ ← activePrincipal actor.principalId
  let principal ← queryRow fun c => principalDescriptor c actor.principalId
  let memberships ← query fun c => membershipsOf c actor.principalId
  return ⟨principal, memberships, defaultLimits⟩

variable {P : Platform} {c d : Central} {host : Host} {token : String}

/-- The clock reading of the call is a time. -/
def Reads (P : Platform) (host : Host) : Prop := ∃ now, timestamp P (host.clock 0) = .ok now

theorem now_reads :
    (∃ now t, (Service.now P).run (.start host c) = .ok (now, t)) ↔ Reads P host := by
  simp [Service.now, instant_eq_ok, attempt_eq_ok, Reads, Session.start]

/-- The unrevoked credential of a token's digest. -/
structure Bears (P : Platform) (c : Central) (token : String) (row : CredentialRow) : Prop where
  mem : row ∈ c.credentials
  tokenHash : row.tokenHash = P.digest token
  unrevoked : row.revokedAt = none

/-- The principal exists and is not disabled. -/
def Active (c : Central) (principal : String) : Prop :=
  ∃ p ∈ c.principals, p.id = principal ∧ p.disabledAt = none

theorem credentialClass_eq (a b : CredentialClass) : a = b := by cases a; cases b; rfl

theorem Bears.unique {row row' : CredentialRow} (hc : WellFormed P c) (h : Bears P c token row)
    (h' : Bears P c token row') : row = row' :=
  hc.tables.credentials.eq_of_collides h.mem h'.mem
    (by simp [Schema.collides, Storage.credentials, h.tokenHash, h'.tokenHash])

/-- A string whose digest is stored is a token. -/
theorem isToken_of_mem (hsha : Function.Injective P.sha256) (hc : Served P c) {row : CredentialRow}
    (hrow : row ∈ c.credentials) (hhash : row.tokenHash = P.digest token) : IsToken token := by
  obtain ⟨token', htoken, hhash'⟩ := (hc.standing hrow).token
  obtain rfl : token = token' := Platform.digest_injective hsha (hhash.symm.trans hhash')
  exact htoken

/-- A lookup of the live credential of a digest finds the one that bears the token. -/
theorem lookup_accepts (hsha : Function.Injective P.sha256) (hc : Served P c) {α : Type} {a : α}
    {condition : Prop} [Decidable condition] {p : String → Central → CredentialRow → Bool}
    {g : CredentialRow → α} {A : CredentialRow → Prop} (hshape : IsToken token → ¬condition)
    (hp : ∀ now r, p now c r = true ↔ r.tokenHash = P.digest token ∧ live P now r = true ∧ A r) :
    (∃ t, (do
      refuse condition .unauthorized
      let now ← now P
      let row ← query fun c => c.credentials.find? (p now c)
      let row ← okOr row .unauthorized
      return g row : Tx α).run (.start host c) = .ok (a, t)) ↔
    Reads P host ∧ ∃ row, Bears P c token row ∧ A row ∧ g row = a := by
  constructor
  · rintro ⟨t, h⟩
    simp only [okOr, refuse, run_bind_eq_ok, query_eq_ok, attempt_eq_ok, required_eq_ok,
      run_pure_eq_ok] at h
    obtain ⟨_, _, ⟨-, rfl⟩, now, s₁, hnow, found, _, ⟨rfl, rfl⟩, row, _, ⟨hrow, rfl⟩, hvalue, -⟩ :=
      h
    rw [now_central hnow] at hrow
    have hmem : row ∈ c.credentials := List.mem_of_find?_eq_some hrow
    obtain ⟨hhash, hlive, hA⟩ := (hp now row).mp (List.find?_some hrow)
    rw [(hc.standing hmem).live, Option.isNone_iff_eq_none] at hlive
    exact ⟨now_reads.mp ⟨now, _, hnow⟩, row, ⟨hmem, hhash, hlive⟩, hA, hvalue⟩
  · rintro ⟨hreads, row, hbears, hA, rfl⟩
    obtain ⟨now, s₁, hnow⟩ := now_reads (c := c).mpr hreads
    have hfound : c.credentials.find? (p now c) = some row := by
      have hmatch : p now c row = true := (hp now row).mpr
        ⟨hbears.tokenHash, by rw [(hc.standing hbears.mem).live, hbears.unrevoked]; rfl, hA⟩
      cases hfind : c.credentials.find? (p now c) with
      | none => exact absurd hmatch (List.find?_eq_none.mp hfind row hbears.mem)
      | some row' =>
        have hmem := List.mem_of_find?_eq_some hfind
        obtain ⟨hhash, hlive, -⟩ := (hp now row').mp (List.find?_some hfind)
        rw [(hc.standing hmem).live, Option.isNone_iff_eq_none] at hlive
        rw [hbears.unique hc.wellFormed ⟨hmem, hhash, hlive⟩]
    refine ⟨s₁,
      run_bind_eq_ok.mpr ⟨(), _, refuse_pass (hshape ?_), run_bind_eq_ok.mpr ⟨now, s₁, hnow, ?_⟩⟩⟩
    · exact isToken_of_mem hsha hc hbears.mem hbears.tokenHash
    · refine run_bind_eq_ok.mpr ⟨some row, s₁, query_eq_ok.mpr ⟨?_, rfl⟩, ?_⟩
      · rw [now_central hnow]
        exact hfound
      · exact run_bind_eq_ok.mpr ⟨row, s₁, attempt_eq_ok.mpr ⟨rfl, rfl⟩, rfl⟩

theorem bearerShape_of_isToken (h : IsToken token) : bearerShape token = true := by
  have hhex : ∀ b : UInt8, isLowerHexdigit b = true → isAsciiHexdigit b = true := by
    intro b hb
    simp only [isLowerHexdigit, isAsciiHexdigit, Bool.or_eq_true] at hb ⊢
    exact .inl hb
  have hall := h.2
  simp only [List.all_eq_true] at hall
  simp only [bearerShape, Bool.and_eq_true, decide_eq_true_eq, List.all_eq_true]
  exact ⟨h.1, fun b hb => hhex b (hall b hb)⟩

section Paths
variable (hsha : Function.Injective P.sha256) (hc : Served P c)
include hsha hc

theorem authenticate_accepts {credentialClass : CredentialClass} {actor : AuthenticatedCredential} :
    (∃ t, (authenticate P token credentialClass).run (.start host c) = .ok (actor, t)) ↔
      Reads P host ∧ ∃ row, Bears P c token row ∧ Active c row.principalId ∧
        ⟨row.id, row.principalId, credentialClass⟩ = actor :=
  lookup_accepts hsha hc (fun h => not_not.mpr h.1) fun now r => by
    simp [credentialClass_eq r.credentialClass credentialClass, and_assoc, Active]

theorem authenticateAppendReplay_accepts {actor : AuthenticatedCredential} :
    (∃ t, (authenticateAppendReplay P token).run (.start host c) = .ok (actor, t)) ↔
      Reads P host ∧ ∃ row, Bears P c token row ∧ True ∧
        ⟨row.id, row.principalId, .principalClient⟩ = actor :=
  lookup_accepts hsha hc (fun h => not_not.mpr h.1) fun now r => by
    simp [credentialClass_eq r.credentialClass .principalClient]

theorem journalActor_accepts {principal : String} :
    (∃ t, (journalActor P token).run (.start host c) = .ok (principal, t)) ↔
      Reads P host ∧ ∃ row, Bears P c token row ∧ Active c row.principalId ∧
      row.principalId = principal :=
  lookup_accepts hsha hc (fun h => by simp [bearerShape_of_isToken h]) fun now r => by
    simp [credentialClass_eq r.credentialClass .principalClient, and_assoc, Active]

theorem appendReplayActor_accepts {principal : String} :
    (∃ t, (appendReplayActor P token).run (.start host c) = .ok (principal, t)) ↔
      Reads P host ∧ ∃ row, Bears P c token row ∧ True ∧ row.principalId = principal :=
  lookup_accepts hsha hc (fun h => by simp [bearerShape_of_isToken h]) fun now r => by
    simp [credentialClass_eq r.credentialClass .principalClient]

end Paths

section Actors
variable {actor : AuthenticatedCredential} {now : String} {s s' : Session}

/-- The checks that `me` and `update_own_profile` make of an actor. -/
theorem credentialValid_iff (hc : Served P c) : credentialValid P c now actor = true ↔
    ∃ r ∈ c.credentials, r.id = actor.credentialId ∧ r.principalId = actor.principalId ∧
      r.revokedAt = none := by
  simp only [credentialValid, List.any_eq_true, Bool.and_eq_true, decide_eq_true_eq]
  constructor
  · rintro ⟨r, hr, ⟨⟨hid, hprincipal⟩, -⟩, hlive⟩
    rw [(hc.standing hr).live, Option.isNone_iff_eq_none] at hlive
    exact ⟨r, hr, hid, hprincipal, hlive⟩
  · rintro ⟨r, hr, hid, hprincipal, hunrevoked⟩
    refine ⟨r, hr, ⟨⟨hid, hprincipal⟩, trivial⟩, ?_⟩
    rw [(hc.standing hr).live, hunrevoked]
    rfl

theorem activePrincipal_of_active (hc : WellFormed P s.central) {principal : String}
    (h : Active s.central principal) : (activePrincipal principal).run s = .ok (principal, s) :=
  run_bind_eq_ok.mpr ⟨_, _, query_eq_ok.mpr ⟨rfl, rfl⟩, attempt_eq_ok.mpr
    ⟨required_eq_ok.mpr (findActive_of_denotes hc ⟨h, .inl rfl⟩), rfl⟩⟩

theorem find_principal (hc : WellFormed P c) {p : PrincipalRow} (hp : p ∈ c.principals) :
    c.principals.find? (fun r => r.id = p.id) = some p := by
  refine find?_of_distinct (hc.tables.principals.keys.imp fun hapart heq => ?_) hp
  simp [Storage.principals, heq] at hapart

/-- Every principal has a descriptor. -/
theorem principalDescriptor_of_mem (hc : Served P c) {p : PrincipalRow} (hp : p ∈ c.principals) :
    ∃ descriptor, principalDescriptor c p.id = some descriptor ∧ descriptor.id = p.id := by
  obtain ⟨n, hn, hprincipal, hcurrent⟩ := hc.invariant (named_invariant P) p hp
  have hname : (currentName c p.id).isSome = true := by
    rw [currentName, Option.isSome_map, List.find?_isSome]
    exact ⟨n, hn, by simp [hprincipal, hcurrent]⟩
  obtain ⟨handle, hhandle⟩ := Option.isSome_iff_exists.mp hname
  refine ⟨⟨p.id, handle, p.displayName, p.description, p.profileRevision, p.createdAt,
    p.disabledAt.isSome⟩,
    ?_, rfl⟩
  simp [principalDescriptor, find_principal hc.wellFormed hp, hhandle]

/-- What a call under an authenticated credential does once its checks have passed. -/
theorem updateOwnProfile_run {key : String} {request : ProfileUpdateRequest}
    (hvalid : request.validate = .ok ())
    (hkey : (1 ≤ charCount key ∧ charCount key ≤ 255) ∧ key.toList.any isControl = false)
    (hnow : (Service.now P).run s = .ok (now, s'))
    (hactive : (activePrincipal actor.principalId).run s' = .ok (actor.principalId, s'))
    (hcredential : credentialValid P s.central now actor = true) :
    (updateOwnProfile P actor key request).run s =
      ((s.central.profileIdempotencyKeys.find? fun r =>
          r.principalId = actor.principalId && r.idempotencyKey = key).elim
        (storeProfile P actor key (P.digest (P.profileUpdateJson request)) now request)
        (replayProfile P (P.digest (P.profileUpdateJson request)))).run s' := by
  have hcentral := now_central hnow
  have hshape : ¬(actor.credentialClass ≠ .principalClient ∨
      ¬(1 ≤ charCount key ∧ charCount key ≤ 255) ∨ key.toList.any isControl = true) := by
    simp [credentialClass_eq actor.credentialClass .principalClient, hkey]
  rw [updateOwnProfile, run_bind_of_ok (validated_eq_ok (u := ()).mpr ⟨hvalid, rfl⟩),
    run_bind_of_ok (refuse_pass hshape), run_bind_of_ok hnow, run_bind_of_ok hactive,
    run_bind_of_ok (query_eq_ok.mpr ⟨by rw [hcentral, hcredential], rfl⟩),
    run_bind_of_ok (refuse_pass (by simp)), run_bind_of_ok (query_eq_ok.mpr ⟨rfl, rfl⟩), hcentral]
  cases s.central.profileIdempotencyKeys.find? fun r =>
    r.principalId = actor.principalId && r.idempotencyKey = key with
  | none => rfl
  | some row => rfl

theorem me_accepts (hc : Served P c) (hreads : Reads P host)
    (hcredential : ∃ r ∈ c.credentials, r.id = actor.credentialId ∧
      r.principalId = actor.principalId ∧
      r.revokedAt = none) (hactive : Active c actor.principalId) :
    ∃ profile t, (me P actor).run (.start host c) = .ok (profile, t) ∧
      profile.principal.id = actor.principalId := by
  obtain ⟨now, s₁, hnow⟩ := now_reads (c := c).mpr hreads
  have hcentral : s₁.central = c := now_central hnow
  have hserved : Served P s₁.central := hcentral ▸ hc
  have hpass : (activePrincipal actor.principalId).run s₁ = .ok (actor.principalId, s₁) :=
    activePrincipal_of_active hserved.wellFormed (hcentral ▸ hactive)
  obtain ⟨p, hp, hid, -⟩ := hactive
  obtain ⟨descriptor, hdescriptor, hsame⟩ := principalDescriptor_of_mem hc hp
  rw [hid] at hdescriptor hsame
  have hvalid : credentialValid P s₁.central now actor = true := by
    rw [hcentral]
    exact (credentialValid_iff hc).mpr hcredential
  refine ⟨⟨descriptor, membershipsOf s₁.central actor.principalId, defaultLimits⟩, s₁, ?_, hsame⟩
  rw [me, run_bind_of_ok (refuse_pass (not_not.mpr (credentialClass_eq _ _))), run_bind_of_ok hnow,
    run_bind_of_ok (query_eq_ok.mpr ⟨hvalid, rfl⟩), run_bind_of_ok (refuse_pass (by simp)),
    run_bind_of_ok hpass]
  have hrow : (queryRow fun c => principalDescriptor c actor.principalId).run s₁ =
    .ok (descriptor, s₁) :=
    run_bind_eq_ok.mpr ⟨_, _, query_eq_ok.mpr ⟨rfl, rfl⟩, attempt_eq_ok.mpr
      ⟨required_eq_ok.mpr (by rw [hcentral, hdescriptor]), rfl⟩⟩
  rw [run_bind_of_ok hrow, run_bind_of_ok (query_eq_ok.mpr ⟨rfl, rfl⟩)]
  rfl

end Actors

/-- In every store that can be served and under every clock, the paths accept the same strings for
the same principals, the replay paths beside the check that the principal is active. Whoever
`authenticate` returns passes the checks of `me` and of `update_own_profile` and acts there for the
same principal. -/
theorem authentication_agrees (hsha : Function.Injective P.sha256) (hc : Served P c) (host : Host)
    (token : String) :
    (∀ principal,
      ((∃ actor t, (authenticate P token .principalClient).run (.start host c) = .ok (actor, t) ∧
          actor.principalId = principal) ↔
        ∃ t, (journalActor P token).run (.start host c) = .ok (principal, t)) ∧
      ((∃ t, (journalActor P token).run (.start host c) = .ok (principal, t)) ↔
        (∃ actor t, (authenticateAppendReplay P token).run (.start host c) = .ok (actor, t) ∧
          actor.principalId = principal) ∧ Active c principal) ∧
      ((∃ t, (journalActor P token).run (.start host c) = .ok (principal, t)) ↔
        (∃ t, (appendReplayActor P token).run (.start host c) = .ok (principal, t)) ∧
        Active c principal)) ∧
    ∀ actor t, (authenticate P token .principalClient).run (.start host c) = .ok (actor, t) →
      ∀ host', Reads P host' →
        (∃ profile t', (me P actor).run (.start host' c) = .ok (profile, t') ∧
          profile.principal.id = actor.principalId) ∧
        ∀ key request, request.validate = .ok () →
          (1 ≤ charCount key ∧ charCount key ≤ 255) ∧ key.toList.any isControl = false →
          ∃ now s', (Service.now P).run (.start host' c) = .ok (now, s') ∧
            (activePrincipal actor.principalId).run s' = .ok (actor.principalId, s') ∧
            credentialValid P c now actor = true ∧
            (updateOwnProfile P actor key request).run (.start host' c) =
              ((c.profileIdempotencyKeys.find? fun r =>
                  r.principalId = actor.principalId && r.idempotencyKey = key).elim
                (storeProfile P actor key (P.digest (P.profileUpdateJson request)) now request)
                (replayProfile P (P.digest (P.profileUpdateJson request)))).run s' := by
  refine ⟨fun principal => ?_, fun actor t hactor host' hreads => ?_⟩
  · have hauthenticate : (∃ actor t, (authenticate P token .principalClient).run (.start host c) =
        .ok (actor, t) ∧ actor.principalId = principal) ↔
          Reads P host ∧ ∃ row, Bears P c token row ∧
          Active c row.principalId ∧ row.principalId = principal := by
      constructor
      · rintro ⟨actor, t, hrun, rfl⟩
        obtain ⟨hreads, row, hbears, hactive, rfl⟩ := (authenticate_accepts hsha hc).mp ⟨t, hrun⟩
        exact ⟨hreads, row, hbears, hactive, rfl⟩
      · rintro ⟨hreads, row, hbears, hactive, rfl⟩
        obtain ⟨t, hrun⟩ := (authenticate_accepts hsha hc).mpr ⟨hreads, row, hbears, hactive, rfl⟩
        exact ⟨_, t, hrun, rfl⟩
    have hreplay : (∃ actor t, (authenticateAppendReplay P token).run (.start host c) =
        .ok (actor, t) ∧ actor.principalId = principal) ↔
          Reads P host ∧ ∃ row, Bears P c token row ∧
          row.principalId = principal := by
      constructor
      · rintro ⟨actor, t, hrun, rfl⟩
        obtain ⟨hreads, row, hbears, -, rfl⟩ :=
          (authenticateAppendReplay_accepts hsha hc).mp ⟨t, hrun⟩
        exact ⟨hreads, row, hbears, rfl⟩
      · rintro ⟨hreads, row, hbears, rfl⟩
        obtain ⟨t, hrun⟩ :=
          (authenticateAppendReplay_accepts hsha hc).mpr ⟨hreads, row, hbears, trivial, rfl⟩
        exact ⟨_, t, hrun, rfl⟩
    -- A row that bears the token for an active principal, split into its two parts.
    have hsplit : (Reads P host ∧ ∃ row, Bears P c token row ∧ Active c row.principalId ∧
          row.principalId = principal) ↔
        (Reads P host ∧ ∃ row, Bears P c token row ∧ row.principalId = principal) ∧
        Active c principal := by
      constructor
      · rintro ⟨hreads, row, hbears, hactive, rfl⟩
        exact ⟨⟨hreads, row, hbears, rfl⟩, hactive⟩
      · rintro ⟨⟨hreads, row, hbears, rfl⟩, hactive⟩
        exact ⟨hreads, row, hbears, hactive, rfl⟩
    rw [hauthenticate, hreplay, journalActor_accepts hsha hc, appendReplayActor_accepts hsha hc]
    simp only [true_and]
    exact ⟨hsplit, hsplit⟩
  · obtain ⟨-, row, hbears, hactive, rfl⟩ := (authenticate_accepts hsha hc).mp ⟨t, hactor⟩
    have hcredential : ∃ r ∈ c.credentials, r.id = row.id ∧ r.principalId = row.principalId ∧
        r.revokedAt = none := ⟨row, hbears.mem, rfl, rfl, hbears.unrevoked⟩
    refine ⟨me_accepts hc hreads hcredential hactive, fun key request hvalid hkey => ?_⟩
    obtain ⟨now, s', hnow⟩ := now_reads (c := c).mpr hreads
    have hcentral : s'.central = c := now_central hnow
    have hpass :=
      activePrincipal_of_active (s := s') (hcentral ▸ hc.wellFormed) (hcentral ▸ hactive)
    have hvalidCredential : credentialValid P c now ⟨row.id, row.principalId, .principalClient⟩ =
      true :=
      (credentialValid_iff hc).mpr hcredential
    exact ⟨now, s', hnow, hpass, hvalidCredential,
      updateOwnProfile_run (s := .start host' c) hvalid hkey hnow hpass hvalidCredential⟩

section Sample

set_option maxRecDepth 20000 in
theorem sampleAuthentication_facts :
    ((succeeded ((authenticate .sample sampleToken .principalClient).run
    (.start sampleHost sampleStore))).map fun x => x.1.principalId) = some samplePrincipal := by
  decide +kernel

/-- The sample token stands for the sample principal on every path. -/
theorem authentication_agrees_sample :
    (∃ t, (journalActor .sample sampleToken).run (.start sampleHost sampleStore) =
      .ok (samplePrincipal, t)) ∧
    (∃ t, (appendReplayActor .sample sampleToken).run (.start sampleHost sampleStore) =
      .ok (samplePrincipal, t)) ∧ Active sampleStore samplePrincipal := by
  have hserved : Served .sample sampleStore := .of_content (.inr sampleStore_unadopted)
  obtain ⟨⟨actor, t⟩, hactor, hprincipal⟩ := Option.map_eq_some_iff.mp sampleAuthentication_facts
  rw [succeeded_eq_some] at hactor
  obtain ⟨hjournal, -, happend⟩ :=
    (authentication_agrees (Platform.coded_sha256_injective _ _) hserved
    sampleHost sampleToken).1 samplePrincipal
  have haccepted := hjournal.mp ⟨actor, t, hactor, hprincipal⟩
  exact ⟨haccepted, happend.mp haccepted⟩

end Sample

end AgentJournal.Service
