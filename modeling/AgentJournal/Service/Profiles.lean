import AgentJournal.Service.Authentication
import AgentJournal.Service.Transaction

/-! # Profile updates

An update states the revision it saw and is applied at that revision only, so the updates of a
principal form one sequence however its clients interleave. Each key answers as it first did.
-/

namespace AgentJournal.Service
open Domain Foundation Storage Recovery

variable {P : Platform} {c d : Central} {principal : String}

section Held

/-- What an update writes. -/
structure Profile where
  handle : String
  displayName : String
  description : Option String
  revision : ℤ
deriving DecidableEq, Repr

def profileOf (p : Principal) : Profile :=
  ⟨p.handle, p.displayName, p.description, p.profileRevision⟩

/-- The profile that a request asks for, at the revision after the one it states. -/
def requestedProfile (request : ProfileUpdateRequest) : Profile :=
  ⟨request.handle, request.displayName, request.description, request.expectedProfileRevision + 1⟩

/-- A principal with its profile and its current name. -/
structure Held (i : Identities) (principal : String) (q : Profile) : Prop where
  row : ∃ r ∈ i.principals, r.id = principal ∧ r.displayName = q.displayName ∧
    r.description = q.description ∧ r.profileRevision = q.revision
  name : ∃ n ∈ i.principalNames, n.principalId = principal ∧ n.kind = .current ∧ n.name = q.handle

variable {i : Identities} {q : Profile}

theorem Held.unique {q' : Profile} (hc : WellFormed P c) (h : Held (identities c) principal q)
    (h' : Held (identities c) principal q') : q = q' := by
  obtain ⟨r, hr, hid, hdisplay, hdescription, hrevision⟩ := h.row
  obtain ⟨r', hr', hid', hdisplay', hdescription', hrevision'⟩ := h'.row
  obtain ⟨n, hn, hprincipal, hcurrent, hname⟩ := h.name
  obtain ⟨n', hn', hprincipal', hcurrent', hname'⟩ := h'.name
  obtain rfl : r = r' :=
    hc.tables.principals.eq_of_key hr hr' (by simp [Storage.principals, hid, hid'])
  obtain rfl : n = n' :=
    eq_of_current hc.tables.principalNames hn hn' (hprincipal.trans hprincipal'.symm)
    hcurrent hcurrent'
  cases q
  cases q'
  simp_all

theorem held_of_descriptor {p : Principal} (h : principalDescriptor c principal = some p) :
    Held (identities c) principal (profileOf p) := by
  simp only [principalDescriptor, currentName, Option.bind_eq_bind, Option.bind_eq_some_iff,
    Option.map_eq_some_iff, Option.pure_def, Option.some.injEq] at h
  obtain ⟨row, hrow, handle, ⟨n, hn, rfl⟩, rfl⟩ := h
  have hid : row.id = principal := by simpa using List.find?_some hrow
  have hname := List.find?_some hn
  simp only [Bool.and_eq_true, decide_eq_true_eq] at hname
  exact ⟨⟨row, List.mem_of_find?_eq_some hrow, hid, rfl, rfl, rfl⟩,
    n, List.mem_of_find?_eq_some hn, hname.1, hname.2, rfl⟩

theorem Held.introduce (h : Held i principal q) (row : PrincipalRow) (name : PrincipalNameRow) :
    Held (i.introduce row name) principal q := by
  obtain ⟨r, hr, hrow⟩ := h.row
  obtain ⟨n, hn, hname⟩ := h.name
  exact ⟨⟨r, List.mem_append_left _ hr, hrow⟩, n, List.mem_append_left _ hn, hname⟩

/-- An update of other rows, or of other columns. -/
theorem Held.updateProfiles {p : PrincipalRow → Bool} {f : PrincipalRow → PrincipalRow}
    (h : Held i principal q) (hf : ∀ r, r.id = principal → p r = true → (f r).id = r.id ∧
      (f r).displayName = r.displayName ∧ (f r).description = r.description ∧
      (f r).profileRevision = r.profileRevision) : Held (i.updateProfiles p f) principal q := by
  obtain ⟨r, hr, hid, hdisplay, hdescription, hrevision⟩ := h.row
  refine ⟨⟨_, List.mem_map_of_mem hr, ?_⟩, h.name⟩
  split
  · rename_i hp
    obtain ⟨hid', hdisplay', hdescription', hrevision'⟩ := hf r hid hp
    exact ⟨hid'.trans hid, hdisplay'.trans hdisplay, hdescription'.trans hdescription,
      hrevision'.trans hrevision⟩
  · exact ⟨hid, hdisplay, hdescription, hrevision⟩

/-- A rename of another principal. -/
theorem Held.renamed {other : String} (h : Held i principal q) (hne : other ≠ principal)
    (current handle now : String) :
    Held (i.renamed other current handle now) principal q := by
  unfold Identities.renamed
  split
  · exact h
  · obtain ⟨n, hn, hprincipal, hname⟩ := h.name
    refine ⟨h.row, n, List.mem_append_left _ (List.mem_map.mpr ⟨n, hn, if_neg ?_⟩), hprincipal,
      hname⟩
    rw [hprincipal]
    simp [Ne.symm hne]

/-- Only its own updates change a profile. -/
theorem Call.perform_held {call : Call} {host : Host} {t : Session}
    (h : Held (identities c) principal q)
    (hother : ∀ actor key request, call = .updateOwnProfile actor key request →
      actor.principalId ≠ principal)
    (hrun : (call.perform P).run (.start host c) = .ok ((), t)) :
    Held (Service.identities t.central) principal q := by
  have hsame : ∀ {d : Central}, d = c → Held (Service.identities d) principal q :=
    fun heq => heq ▸ h
  cases hcall : call.identifies with
  | false => exact (Call.perform_identities hcall hrun).symm ▸ h
  | true =>
    cases call with
    | createPrincipal request =>
      obtain ⟨p, t', hcreate, hpure⟩ := run_bind_eq_ok.mp hrun
      obtain ⟨-, rfl⟩ := run_pure_eq_ok.mp hpure
      obtain ⟨row, name, -, heq⟩ := createPrincipal_eq_ok hcreate
      rw [heq]
      exact h.introduce row name
    | register token request =>
      obtain ⟨outcome, t', hregister, hpure⟩ := run_bind_eq_ok.mp hrun
      obtain ⟨-, rfl⟩ := run_pure_eq_ok.mp hpure
      obtain ⟨-, now, s', -, ⟨hcentral, -⟩ | ⟨-, s₁, hcentral, hnew⟩⟩ := register_eq_ok hregister
      · exact hsame hcentral
      · obtain ⟨row, name, entry, -, -, -, -, -, heq⟩ := registerPrincipal_eq_ok hnew
        rw [heq, hcentral]
        exact ⟨(h.introduce row name).row, (h.introduce row name).name⟩
    | updateOwnProfile actor key request =>
      have hne := hother actor key request rfl
      obtain ⟨profile, t', hupdate, hpure⟩ := run_bind_eq_ok.mp hrun
      obtain ⟨-, rfl⟩ := run_pure_eq_ok.mp hpure
      obtain ⟨now, s', -, -, ⟨hcentral, -⟩ | ⟨-, s₁, hcentral, hnew⟩⟩ :=
        updateOwnProfile_eq_ok hupdate
      · exact hsame hcentral
      · obtain ⟨current, row, -, -, -, -, -, heq⟩ := storeProfile_eq_ok hnew
        rw [heq, hcentral]
        have hkept :=
          (h.renamed hne current request.handle now).updateProfiles
          (p := fun r => r.id = actor.principalId && r.disabledAt.isNone &&
            r.profileRevision = request.expectedProfileRevision) (f := fun r => { r with
              displayName := request.displayName
              description := request.description
              profileRevision := r.profileRevision + 1 }) fun r hid hp => by
            simp only [Bool.and_eq_true, decide_eq_true_eq] at hp
            exact absurd (hp.1.1.symm.trans hid) hne
        exact ⟨hkept.row, hkept.name⟩
    | rotate request =>
      obtain ⟨rotation, t', hrotate, hpure⟩ := run_bind_eq_ok.mp hrun
      obtain ⟨-, rfl⟩ := run_pure_eq_ok.mp hpure
      obtain ⟨now, s', row, issued, rotated, -, -, -, -, -, -, -, -, heq⟩ := rotate_eq_ok hrotate
      rw [heq]
      exact ⟨h.row, h.name⟩
    | revoke credentialId reason =>
      obtain ⟨metadata, t', hrevoke, hpure⟩ := run_bind_eq_ok.mp hrun
      obtain ⟨-, rfl⟩ := run_pure_eq_ok.mp hpure
      obtain ⟨row, -, ⟨-, hcentral⟩ | ⟨-, now, revoked, -, -, heq⟩⟩ := revoke_eq_ok hrevoke
      · exact hsame hcentral
      · rw [heq]
        exact ⟨h.row, h.name⟩
    | recoverPrincipal request =>
      obtain ⟨response, t', hrecover, hpure⟩ := run_bind_eq_ok.mp hrun
      obtain ⟨-, rfl⟩ := run_pure_eq_ok.mp hpure
      obtain ⟨now, s', issued, entries, -, -, -, -, -, -, heq⟩ := recoverPrincipal_eq_ok hrecover
      rw [heq]
      exact ⟨h.row, h.name⟩
    | disablePrincipal id disabledAt =>
      obtain ⟨n, t', hdisable, hpure⟩ := run_bind_eq_ok.mp hrun
      obtain ⟨-, rfl⟩ := run_pure_eq_ok.mp hpure
      rw [disablePrincipal_eq_ok hdisable]
      exact h.updateProfiles fun _ _ _ => ⟨rfl, rfl, rfl, rfl⟩
    | _ => cases hcall

end Held

section Updates
variable {actor : AuthenticatedCredential} {key : String} {request : ProfileUpdateRequest}
  {host : Host}
  {s t : Session} {profile : Principal} {now payloadHash : String}

/-- A new profile replaces the one that the caller saw and is the one that is returned. -/
theorem storeProfile_held (hc : WellFormed P s.central) (ht : WellFormed P t.central)
    (h : (storeProfile P actor key payloadHash now request).run s = .ok (profile, t)) :
    (∃ q, Held (identities s.central) actor.principalId q ∧
      q.revision = request.expectedProfileRevision) ∧
    Held (identities t.central) actor.principalId (requestedProfile request) ∧
    profileOf profile = requestedProfile request := by
  obtain ⟨current, row, hcurrent, hrow, hrevision, hcount, hdescriptor, heq⟩ := storeProfile_eq_ok h
  have hmem := List.mem_of_find?_eq_some hrow
  have hid : row.id = actor.principalId := by simpa using List.find?_some hrow
  obtain ⟨n, hn, rfl⟩ := Option.map_eq_some_iff.mp hcurrent
  have hname := List.find?_some hn
  simp only [Bool.and_eq_true, decide_eq_true_eq] at hname
  have hmatch : (row.id = actor.principalId && row.disabledAt.isNone &&
      row.profileRevision = request.expectedProfileRevision) = true := by
    obtain ⟨r, hr, hmatch⟩ := List.countP_pos_iff.mp (hcount ▸ Nat.one_pos)
    have hsame : r = row := hc.tables.principals.eq_of_key hr hmem (by
      simp only [Bool.and_eq_true, decide_eq_true_eq] at hmatch
      simp [Storage.principals, hmatch.1.1, hid])
    exact hsame ▸ hmatch
  have hheld : Held (identities t.central) actor.principalId (requestedProfile request) := by
    rw [heq]
    refine ⟨⟨{ row with
      displayName := request.displayName
      description := request.description
      profileRevision := row.profileRevision + 1 }, ?_, hid, rfl, rfl, ?_⟩, ?_⟩
    · obtain ⟨names, hnames⟩ :=
        (identities s.central).renamed_eq actor.principalId n.name request.handle now
      rw [hnames]
      exact List.mem_map.mpr ⟨row, hmem, if_pos hmatch⟩
    · rw [hrevision]
      rfl
    · change ∃ m ∈
        ((identities s.central).renamed actor.principalId n.name request.handle now).principalNames,
        _
      unfold Identities.renamed
      split
      · rename_i hsame
        exact ⟨n, List.mem_of_find?_eq_some hn, hname.1, hname.2, hsame⟩
      · exact ⟨⟨request.handle, actor.principalId, .current, now⟩,
          List.mem_append_right _ (List.mem_singleton_self _), rfl, rfl, rfl⟩
  refine ⟨⟨⟨n.name, row.displayName, row.description, row.profileRevision⟩,
    ⟨⟨row, hmem, hid, rfl, rfl, rfl⟩,
    n, List.mem_of_find?_eq_some hn, hname.1, hname.2, rfl⟩, hrevision⟩, hheld, ?_⟩
  exact (held_of_descriptor hdescriptor).unique ht hheld

/-- A committed update of a principal: its key and request, the profile it returned, and whether the
key was known. -/
structure Update where
  key : String
  request : ProfileUpdateRequest
  profile : Principal
  replayed : Bool

/-- The answer of a key. -/
def Remembers (P : Platform) (principal : String) (u : Update) (c : Central) : Prop :=
  ∃ row ∈ c.profileIdempotencyKeys, row.principalId = principal ∧ row.idempotencyKey = u.key ∧
    row.payloadHash = P.digest (P.profileUpdateJson u.request) ∧
    P.decodePrincipal row.responseJson = some u.profile

/-- A principal's key is known. -/
def knownKey (c : Central) (principal key : String) : Bool :=
  c.profileIdempotencyKeys.any fun r => r.principalId = principal && r.idempotencyKey = key

/-- An update replays a known key and changes nothing, or its key is new and it is applied. -/
theorem updateOwnProfile_cases (hdecode : ∀ p, P.decodePrincipal (P.principalJson p) = some p)
    (hc : WellFormed P c) (ht : WellFormed P t.central)
    (h : (updateOwnProfile P actor key request).run (.start host c) = .ok (profile, t)) :
    Remembers P actor.principalId ⟨key, request, profile, knownKey c actor.principalId key⟩
    t.central ∧
      ((knownKey c actor.principalId key = true ∧ t.central = c) ∨
        (knownKey c actor.principalId key = false ∧
          (∃ q, Held (identities c) actor.principalId q ∧
            q.revision = request.expectedProfileRevision) ∧
          Held (identities t.central) actor.principalId (requestedProfile request) ∧
          profileOf profile = requestedProfile request)) := by
  obtain ⟨now, s', -, -, ⟨hcentral, row, hfind, hhash, hprofile⟩ | ⟨hnone, s₁, hcentral, hnew⟩⟩ :=
    updateOwnProfile_eq_ok h
  · have hrow := List.mem_of_find?_eq_some hfind
    have hfound := List.find?_some hfind
    refine ⟨⟨row, ?_, ?_⟩, .inl ⟨List.any_eq_true.mpr ⟨row, hrow, hfound⟩, hcentral⟩⟩
    · rw [hcentral]
      exact hrow
    · simp only [Bool.and_eq_true, decide_eq_true_eq] at hfound
      exact ⟨hfound.1, hfound.2, hhash, hprofile⟩
  · have hc₁ : WellFormed P s₁.central := hcentral ▸ hc
    have hheld := storeProfile_held hc₁ ht hnew
    rw [hcentral] at hheld
    obtain ⟨current, row, -, -, -, -, -, heq⟩ := storeProfile_eq_ok hnew
    refine ⟨⟨⟨actor.principalId, key, P.digest (P.profileUpdateJson request),
      P.principalJson profile, now⟩,
      ?_, rfl, rfl, rfl, hdecode profile⟩, .inr ⟨?_, hheld⟩⟩
    · change _ ∈ (identities t.central).profileIdempotencyKeys
      rw [heq]
      exact List.mem_append_right _ (List.mem_singleton_self _)
    · rw [knownKey, List.any_eq_false]
      exact List.find?_eq_none.mp hnone

/-- A history of committed calls of any clients, with every committed update of one principal. -/
inductive Updating (P : Platform) (principal : String) (c : Central) : List Update → Central → Prop
  | start : Updating P principal c [] c
  | call {updates d host} {t : Session} (call : Call) : Updating P principal c updates d →
      (∀ actor key request, call = .updateOwnProfile actor key request →
        actor.principalId ≠ principal) →
      (call.perform P).run (.start host d) = .ok ((), t) → Updating P principal c updates t.central
  | anchor {updates d} (a : RecoveryAnchor) : Updating P principal c updates d →
      a.inboxEpoch = d.recoveryAnchor.inboxEpoch →
      Updating P principal c updates { d with recoveryAnchor := a }
  | update {updates d host actor key request profile}
      {t : Session} : Updating P principal c updates d →
      actor.principalId = principal →
      (updateOwnProfile P actor key request).run (.start host d) = .ok (profile, t) →
      Updating P principal c (updates ++ [⟨key, request, profile, knownKey d principal key⟩])
      t.central

/-- Updates one after the other: each new one was made at the revision of its predecessor, which it
raises by one, and returned what it wrote. -/
inductive Linear (q : Profile) : List Update → Profile → Prop
  | nil : Linear q [] q
  | replayed {updates q'} {u : Update} : Linear q updates q' → u.replayed = true →
      Linear q (updates ++ [u]) q'
  | applied {updates q'} {u : Update} : Linear q updates q' → u.replayed = false →
      u.request.expectedProfileRevision = q'.revision →
      profileOf u.profile = requestedProfile u.request →
      Linear q (updates ++ [u]) (profileOf u.profile)

theorem Linear.revision {q q' : Profile} {updates : List Update} (h : Linear q updates q') :
    q'.revision = q.revision + (updates.countP fun u => !u.replayed) := by
  induction h with
  | nil => simp
  | replayed _ hreplayed ih => simp [ih, hreplayed]
  | applied _ hfresh hexpected hprofile ih =>
    simp [hprofile, requestedProfile, hexpected, ih, hfresh, Int.add_assoc]

namespace Updating
variable {updates : List Update}

theorem serves (h : Updating P principal c updates d) : Serves P c d := by
  induction h with
  | start => exact .refl
  | call call _ _ hrun ih => exact ih.call call hrun
  | anchor a _ hepoch ih => exact ih.anchor a hepoch
  | @update updates d host actor key request profile t _ _ hupdate ih =>
    exact ih.call (.updateOwnProfile actor key request)
      (run_bind_eq_ok.mpr ⟨profile, t, hupdate, rfl⟩)

theorem linear (hdecode : ∀ p, P.decodePrincipal (P.principalJson p) = some p) (hc : Served P c)
    {q : Profile}
    (hq : Held (identities c) principal q) (h : Updating P principal c updates d) :
    ∃ q', Held (identities d) principal q' ∧ Linear q updates q' := by
  induction h with
  | start => exact ⟨q, hq, .nil⟩
  | call call _ hother hrun ih =>
    obtain ⟨q', hq', hlinear⟩ := ih
    exact ⟨q', Call.perform_held hq' hother hrun, hlinear⟩
  | anchor a _ _ ih => exact ih
  | @update updates d host actor key request profile t h hactor hupdate ih =>
    obtain ⟨q', hq', hlinear⟩ := ih
    have hd := (hc.later h.serves).wellFormed
    have ht := (hc.later (h.update hactor hupdate).serves).wellFormed
    subst hactor
    rcases (updateOwnProfile_cases hdecode hd ht hupdate).2 with ⟨hknown, hcentral⟩ |
      ⟨hnew, ⟨q'', hq'', hexpected⟩, hheld, hprofile⟩
    · rw [hcentral]
      exact ⟨q', hq', hlinear.replayed hknown⟩
    · obtain rfl := hq''.unique hd hq'
      exact ⟨profileOf profile, hprofile ▸ hheld, hlinear.applied hnew hexpected.symm hprofile⟩

theorem remembers (hdecode : ∀ p, P.decodePrincipal (P.principalJson p) = some p) (hc : Served P c)
    (h : Updating P principal c updates d) : ∀ u ∈ updates, Remembers P principal u d := by
  have hlater : ∀ {d e : Central} {u : Update}, Extends d e → Remembers P principal u d →
      Remembers P principal u e := by
    rintro d e u hextends ⟨row, hrow, hanswer⟩
    exact ⟨row, hextends.profileIdempotencyKeys row hrow, hanswer⟩
  induction h with
  | start => simp
  | call call h _ hrun ih =>
    have hextends := (call.perform_extends rfl (hc.later h.serves).wellFormed hrun).2
    exact fun u hu => hlater hextends (ih u hu)
  | anchor a _ _ ih => exact ih
  | @update updates d host actor key request profile t h hactor hupdate ih =>
    have hd := (hc.later h.serves).wellFormed
    have ht := (hc.later (h.update hactor hupdate).serves).wellFormed
    have hrun : ((Call.updateOwnProfile actor key request).perform P).run (.start host d) =
      .ok ((), t) :=
      run_bind_eq_ok.mpr ⟨profile, t, hupdate, rfl⟩
    have hextends := (Call.perform_extends _ rfl hd hrun).2
    intro u hu
    rcases List.mem_append.mp hu with hold | hnew
    · exact hlater hextends (ih u hold)
    · rw [List.mem_singleton.mp hnew]
      subst hactor
      exact (updateOwnProfile_cases hdecode hd ht hupdate).1

/-- What was committed had passed the validation. -/
theorem valid (h : Updating P principal c updates d) : ∀ u ∈ updates, u.request.validate = .ok () ∧
    (1 ≤ charCount u.key ∧ charCount u.key ≤ 255) ∧ u.key.toList.any isControl = false := by
  induction h with
  | start => simp
  | call call _ _ _ ih => exact ih
  | anchor a _ _ ih => exact ih
  | @update updates d host actor key request profile t _ _ hupdate ih =>
    intro u hu
    rcases List.mem_append.mp hu with hold | hnew
    · exact ih u hold
    · rw [List.mem_singleton.mp hnew]
      simp only [updateOwnProfile, refuse, run_bind_eq_ok, validated_eq_ok, attempt_eq_ok,
        failIf_eq_ok, not_or, not_not, Bool.not_eq_true] at hupdate
      obtain ⟨_, _, ⟨hvalid, rfl⟩, _, _, ⟨⟨-, hkey⟩, rfl⟩, -⟩ := hupdate
      exact ⟨hvalid, hkey⟩

end Updating

/-- A known key answers its own request as it first did and refuses every other one. -/
theorem Remembers.retry {u : Update} (hc : Served P c) (h : Remembers P actor.principalId u c)
    (hreads : Reads P host) (hactive : Active c actor.principalId)
    (hcredential : ∃ r ∈ c.credentials, r.id = actor.credentialId ∧
      r.principalId = actor.principalId ∧
      r.revokedAt = none) (hvalid : request.validate = .ok ())
    (hkey : (1 ≤ charCount u.key ∧ charCount u.key ≤ 255) ∧ u.key.toList.any isControl = false) :
    (request = u.request → ∃ t, (updateOwnProfile P actor u.key request).run (.start host c) =
        .ok (u.profile, t) ∧ t.central = c) ∧
      (P.digest (P.profileUpdateJson request) ≠ P.digest (P.profileUpdateJson u.request) →
        (updateOwnProfile P actor u.key request).run (.start host c) =
        .error .idempotencyConflict) := by
  obtain ⟨now, s', hnow⟩ := now_reads (c := c).mpr hreads
  have hcentral : s'.central = c := now_central hnow
  have hpass := activePrincipal_of_active (s := s') (hcentral ▸ hc.wellFormed) (hcentral ▸ hactive)
  have hrun := updateOwnProfile_run (s := .start host c) hvalid hkey hnow hpass
    ((credentialValid_iff hc).mpr hcredential)
  obtain ⟨row, hrow, hprincipal, hidempotency, hhash, hresponse⟩ := h
  have hfound : c.profileIdempotencyKeys.find? (fun r => r.principalId = actor.principalId &&
      r.idempotencyKey = u.key) = some row := by
    have hdistinct := hc.wellFormed.tables.profileIdempotencyKeys.keys
    have hfind := find?_of_distinct hdistinct hrow
    simpa [Storage.profileIdempotencyKeys, hprincipal, hidempotency, Bool.decide_and] using hfind
  have hstored : (Session.start host c).central.profileIdempotencyKeys.find? (fun r =>
      r.principalId = actor.principalId && r.idempotencyKey = u.key) = some row := hfound
  rw [hstored, Option.elim_some, replayProfile] at hrun
  refine ⟨fun hsame => ?_, fun hdiffers => ?_⟩
  · refine ⟨s', ?_, hcentral⟩
    rw [hrun, run_bind_of_ok (refuse_pass (by rw [hsame, hhash, not_not]))]
    exact attempt_eq_ok.mpr ⟨required_eq_ok.mpr hresponse, rfl⟩
  · rw [hrun]
    exact run_bind_of_error (refuse_error (by rw [hhash]; exact hdiffers.symm))

end Updates

/-- In every history of committed calls the updates of a principal are linear: each new one was made
at the revision its caller stated, which was the last one, and raised it by one. Whatever was
committed since, a key answers its own request as it first did and conflicts with every other
request. A call that fails in its closure, or before its central commit, leaves the store as it was.
An error behind the central commit has the update in place, and the store then refuses every call
and every start. -/
theorem profile_updates (hsha : Function.Injective P.sha256)
    (hjson : Function.Injective P.profileUpdateJson)
    (hdecode : ∀ p, P.decodePrincipal (P.principalJson p) = some p) (hc : Served P c) {q : Profile}
    (hq : Held (identities c) principal q) {updates : List Update}
    (hhistory : Updating P principal c updates d) :
    (∃ q', Held (identities d) principal q' ∧ Linear q updates q' ∧
      q'.revision = q.revision + (updates.countP fun u => !u.replayed)) ∧
    (∀ u ∈ updates, ∀ host (actor : AuthenticatedCredential), actor.principalId = principal →
      Reads P host →
      Active d principal → (∃ r ∈ d.credentials, r.id = actor.credentialId ∧
        r.principalId = actor.principalId ∧ r.revokedAt = none) →
      (∃ t, (updateOwnProfile P actor u.key u.request).run (.start host d) = .ok (u.profile, t) ∧
        t.central = d) ∧
      ∀ request, request.validate = .ok () → request ≠ u.request →
        (updateOwnProfile P actor u.key request).run (.start host d) =
        .error .idempotencyConflict) ∧
    ∀ fails host actor key request (h : Handle),
      let o := withTransactionFor fails host (updateOwnProfile P actor key request) h
      (∀ e, (updateOwnProfile P actor key request).run (.start host h.central) = .error e →
        o.handle = h ∧ ∃ e, o.result = .error e) ∧
      (o.reached ≠ .commit → o.handle.central = h.central ∧ ∃ e, o.result = .error e) ∧
      ∀ w file e, (store P).Reachable w → Holds w file h → o.reached = .commit →
      o.result = .error e →
        (∃ profile t revision,
          (updateOwnProfile P actor key request).run (.start host h.central) = .ok (profile, t) ∧
          o.handle.central = setRevision revision t.central) ∧
        ∃ b, o.handle.audit = some b ∧ (∀ lineage, b.readOpenLineage ≠ .ok lineage) ∧
          ∀ fails' host' (call : Call),
            (withTransactionFor fails' host' (call.perform P) o.handle).handle = o.handle ∧
            ∃ e, (withTransactionFor fails' host' (call.perform P) o.handle).result = .error e := by
  have hd : Served P d := hc.later hhistory.serves
  refine ⟨?_, fun u hu host actor hactor hreads hactive hcredential => ?_,
    fun fails host actor key request h => ⟨fun e hrefused => withTransactionFor_refused hrefused,
      (withTransactionFor_atomic fails host _ h).1, fun w file e hw hh hreached herror => ?_⟩⟩
  · obtain ⟨q', hq', hlinear⟩ := hhistory.linear hdecode hc hq
    exact ⟨q', hq', hlinear, hlinear.revision⟩
  · subst hactor
    have hremembers := hhistory.remembers hdecode hc u hu
    obtain ⟨hvalid, hkey⟩ := hhistory.valid u hu
    refine ⟨(hremembers.retry hd hreads hactive hcredential hvalid hkey).1 rfl,
      fun request hrequest hne =>
      (hremembers.retry hd hreads hactive hcredential hrequest hkey).2 ?_⟩
    exact fun heq => hne (hjson (Platform.digest_injective hsha heq))
  · obtain ⟨profile, t, revision, b, head, hrun, hhandle, hledger, hprepared⟩ :=
      withTransactionFor_uncertain (hh.ledger hw) hreached herror
    have hclosed := fun fails' host' (call : Call) => withTransactionFor_prepared
      (congrArg Handle.audit hhandle) hledger hprepared fails' host' (call.perform P)
    refine ⟨⟨profile, t, revision, hrun, congrArg Handle.central hhandle⟩, b,
      congrArg Handle.audit hhandle, (hclosed fails host (.updateOwnProfile actor key request)).2.2,
      fun fails' host' call => ?_⟩
    exact ⟨(hclosed fails' host' call).1, (hclosed fails' host' call).2.1⟩

section Sample

def sampleActorCredential : AuthenticatedCredential :=
  ⟨"cred-" ++ hex (List.replicate 32 1), samplePrincipal, .principalClient⟩

/-- A rename whose completion of the audit fails after the central commit. -/
def sampleLostAnswer : Outcome Principal :=
  withTransactionFor (fun step => step = .complete) sampleHost
    (updateOwnProfile .sample sampleActorCredential "rename" sampleUpdate) sampleHandle

set_option maxRecDepth 20000 in
theorem sampleLostAnswer_facts : (refused sampleLostAnswer.result).isSome = true ∧
    sampleLostAnswer.reached = .commit ∧
    sampleLostAnswer.handle.central.principalNames ≠ sampleHandle.central.principalNames ∧
    sampleLostAnswer.handle.central.profileIdempotencyKeys ≠
    sampleHandle.central.profileIdempotencyKeys := by
  decide +kernel

/-- A call that fails after its central commit has changed the profile, its names and its keys. -/
theorem profile_update_lost_answer : Content .sample sampleHandle.central ∧
    (∃ e, sampleLostAnswer.result = .error e) ∧
    sampleLostAnswer.handle.central.principalNames ≠ sampleHandle.central.principalNames ∧
    sampleLostAnswer.handle.central.profileIdempotencyKeys ≠
    sampleHandle.central.profileIdempotencyKeys := by
  obtain ⟨hfailed, -, hchanged⟩ := sampleLostAnswer_facts
  obtain ⟨e, he⟩ := Option.isSome_iff_exists.mp hfailed
  exact ⟨sampleHandle_content, ⟨e, refused_eq_some.mp he⟩, hchanged⟩

def sampleProfileUpdate (c : Central) : Option (Principal × Central) :=
  (succeeded ((updateOwnProfile .sample sampleActorCredential "rename" sampleUpdate).run
    (.start sampleHost c))).map fun x => (x.1, x.2.central)

set_option maxRecDepth 20000 in
theorem sampleProfileUpdate_facts : ((sampleProfileUpdate sampleStore).map fun x =>
    ((sampleStore.principals.any fun p => p.id = samplePrincipal),
      (x.2.principals.any fun p => p.id = samplePrincipal && p.disabledAt = none),
      x.2.credentials.any fun r => r.id = sampleActorCredential.credentialId &&
        (r.principalId = samplePrincipal && r.revokedAt = none))) = some (true, true, true) := by
  decide +kernel

theorem sampleProfileUpdate_updating {x : Principal × Central}
    (h : sampleProfileUpdate c = some x) :
    Updating .sample samplePrincipal c
      [⟨"rename", sampleUpdate, x.1, knownKey c samplePrincipal "rename"⟩] x.2 := by
  obtain ⟨⟨profile, t⟩, hupdate, rfl⟩ := Option.map_eq_some_iff.mp h
  rw [succeeded_eq_some] at hupdate
  exact Updating.start.update rfl hupdate

/-- After a rename its key returns the renamed profile and refuses another request, and the store
whose answer was lost refuses every call. -/
theorem profile_updates_sample : (∀ fails host (call : Call), ∃ e, (withTransactionFor fails host
      (call.perform .sample) sampleLostAnswer.handle).result = .error e) ∧
    ∃ profile d, sampleProfileUpdate sampleStore = some (profile, d) ∧
    (∃ t, (updateOwnProfile .sample sampleActorCredential "rename" sampleUpdate).run
      (.start sampleHost d) =
      .ok (profile, t) ∧ t.central = d) ∧
    (updateOwnProfile .sample sampleActorCredential "rename" ⟨"other", "Sample", none, 2⟩).run
      (.start sampleHost d) = .error .idempotencyConflict := by
  have hserved : Served .sample sampleStore := .of_content (.inr sampleStore_unadopted)
  obtain ⟨⟨profile, d⟩, hupdate, hfacts⟩ := Option.map_eq_some_iff.mp sampleProfileUpdate_facts
  simp only [Prod.mk.injEq, List.any_eq_true, Bool.and_eq_true, decide_eq_true_eq] at hfacts
  obtain ⟨⟨p, hp, hid⟩, ⟨p', hp', hactive⟩, ⟨r, hr, hcredential⟩⟩ := hfacts
  obtain ⟨descriptor, hdescriptor, -⟩ := principalDescriptor_of_mem hserved hp
  rw [hid] at hdescriptor
  obtain ⟨-, hretry, hfails⟩ := profile_updates (Platform.coded_sha256_injective _ _)
    (Platform.coded_profileUpdateJson_injective _ _) (Platform.coded_principal _ _) hserved
    (held_of_descriptor hdescriptor) (sampleProfileUpdate_updating hupdate)
  obtain ⟨hsame, hother⟩ := hretry _ List.mem_cons_self sampleHost sampleActorCredential rfl
    ⟨"1970-01-01T00:00:00Z", rfl⟩ ⟨p', hp', hactive⟩ ⟨r, hr, hcredential⟩
  obtain ⟨hfailed, hreached, -⟩ := sampleLostAnswer_facts
  obtain ⟨e, he⟩ := Option.isSome_iff_exists.mp hfailed
  rw [refused_eq_some] at he
  have hholds : Holds (.baseline "central.db" sampleStore) "central.db" sampleHandle := by
    refine ⟨rfl, ?_, ?_⟩
    · simp only [World.baseline, sampleHandle]
    · simp only [World.baseline, sampleHandle, if_true]
  unfold sampleLostAnswer at hreached he ⊢
  obtain ⟨-, b, -, -, hclosed⟩ :=
    (hfails (fun step => step = .complete) sampleHost sampleActorCredential
    "rename" sampleUpdate sampleHandle).2.2 _ _ e sampleStore_reachable hholds hreached he
  exact ⟨fun fails host call => (hclosed fails host call).2, profile, d, hupdate, hsame,
    hother _ (by decide) (by simp [sampleUpdate])⟩

end Sample

end AgentJournal.Service
