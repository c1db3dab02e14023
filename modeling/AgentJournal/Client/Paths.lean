import AgentJournal.Client.Headers
import AgentJournal.Domain.Query
import AgentJournal.Domain.Coded
import AgentJournal.Domain.Validation
import AgentJournal.Foundation.Url

/-! # From an identifier to its route

The client writes an identifier into a path, the transport resolves the path against its base, and
the router takes the segment out again. Dot segments do not survive the second step.
-/

namespace AgentJournal.Client
open Foundation Domain Url

inductive Method where
  | get
  | post
  | patch
deriving DecidableEq, Repr

inductive Piece where
  | literal (text : String)
  | parameter (name : String)
deriving DecidableEq, Repr

/-- The routes of `public_router_with_timeout`. -/
inductive PublicRoute where
  | live
  | ready
  | registrations
  | me
  | profile
  | principals
  | inbox
  | inboxAck
  | spaces
  | space
  | spaceRecords
  | spaceSearch
  | record
  | recordThread
  | recordDeliveryStatus
deriving DecidableEq, Repr

namespace PublicRoute

def template : PublicRoute → List Piece
  | live => [.literal "health", .literal "live"]
  | ready => [.literal "health", .literal "ready"]
  | registrations => [.literal "v1", .literal "registrations"]
  | me => [.literal "v1", .literal "me"]
  | profile => [.literal "v1", .literal "me", .literal "profile"]
  | principals => [.literal "v1", .literal "principals"]
  | inbox => [.literal "v1", .literal "inbox"]
  | inboxAck => [.literal "v1", .literal "inbox", .parameter "item_id", .literal "ack"]
  | spaces => [.literal "v1", .literal "spaces"]
  | space => [.literal "v1", .literal "spaces", .parameter "space"]
  | spaceRecords => [.literal "v1", .literal "spaces", .parameter "space", .literal "records"]
  | spaceSearch => [.literal "v1", .literal "spaces", .parameter "space", .literal "search"]
  | record => [.literal "v1", .literal "records", .parameter "record_id"]
  | recordThread => [.literal "v1", .literal "records", .parameter "record_id", .literal "thread"]
  | recordDeliveryStatus =>
    [.literal "v1", .literal "records", .parameter "record_id", .literal "delivery-status"]

def methods : PublicRoute → List Method
  | registrations => [.post]
  | profile => [.patch]
  | inboxAck => [.post]
  | spaceRecords => [.get, .post]
  | _ => [.get]

def all : List PublicRoute :=
  [live, ready, registrations, me, profile, principals, inbox, inboxAck, spaces, space,
    spaceRecords, spaceSearch, record, recordThread, recordDeliveryStatus]

end PublicRoute

/-- A parameter takes one segment that is not empty. -/
def matchTemplate : List Piece → List (List UInt8) → Option (List (String × List UInt8))
  | [], [] => some []
  | .literal text :: pieces, segment :: rest =>
    if segment = asBytes text then matchTemplate pieces rest else none
  | .parameter name :: pieces, segment :: rest =>
    if segment = [] then none else (matchTemplate pieces rest).map ((name, segment) :: ·)
  | _, _ => none

inductive RouteError where
  | notFound
  | methodNotAllowed
  | invalidRequest
deriving DecidableEq, Repr

/-- The parameters of `axum::extract::Path` are percent-decoded UTF-8. -/
def extract (parameters : List (String × List UInt8)) : Option (List (String × String)) :=
  parameters.mapM fun (name, value) => (ofBytes (percentDecode value)).map (name, ·)

def publicRouter (method : Method) (path : List (List UInt8)) :
    Except RouteError (PublicRoute × List (String × String)) := do
  let (route, parameters) ← required
    (PublicRoute.all.findSome? fun route => (matchTemplate route.template path).map (route, ·))
    .notFound
  failIf (method ∉ route.methods) .methodNotAllowed
  let values ← required (extract parameters) .invalidRequest
  return (route, values)

def invalid : TransportError :=
  .protocol "invalid HTTP transport configuration or response"

namespace HttpTransport

/-- Where `send` directs a request; a target on another host is no target. -/
def target (admin : Bool) (path : String) : Except TransportError Target := do
  let bytes := asBytes path
  failIf ((asBytes "/v1/").isPrefixOf bytes = false ∨ 0x0d ∈ bytes ∨ 0x0a ∈ bytes ∨ 0x23 ∈ bytes ∨
    (asBytes "/v1/admin/").isPrefixOf bytes ≠ admin) invalid
  let url ← required (join bytes) invalid
  failIf ((asBytes "/v1/admin/").isPrefixOf (serialize url.path) ≠ admin) invalid
  return url

end HttpTransport

/-- The operations of the client that place an identifier in a path. -/
inductive PathOperation where
  | space
  | append
  | get
  | list
  | search
  | thread
  | deliveryStatus
  | acknowledgeInboxItem
deriving DecidableEq, Repr

namespace PathOperation

def method : PathOperation → Method
  | append => .post
  | acknowledgeInboxItem => .post
  | _ => .get

def path (values : List (String × String)) (s : String) : PathOperation → String
  | space => "/v1/spaces/" ++ pathSegment s
  | append => "/v1/spaces/" ++ pathSegment s ++ "/records"
  | get => "/v1/records/" ++ pathSegment s
  | list => "/v1/spaces/" ++ pathSegment s ++ "/records?" ++ queryString values
  | search => "/v1/spaces/" ++ pathSegment s ++ "/search?" ++ queryString values
  | thread => "/v1/records/" ++ pathSegment s ++ "/thread?" ++ queryString values
  | deliveryStatus => "/v1/records/" ++ pathSegment s ++ "/delivery-status?" ++ queryString values
  | acknowledgeInboxItem => "/v1/inbox/" ++ pathSegment s ++ "/ack"

/-- The route an operation is meant for. -/
def route : PathOperation → PublicRoute
  | space => .space
  | append => .spaceRecords
  | get => .record
  | list => .spaceRecords
  | search => .spaceSearch
  | thread => .recordThread
  | deliveryStatus => .recordDeliveryStatus
  | acknowledgeInboxItem => .inboxAck

/-- The parameter of that route. -/
def parameter : PathOperation → String
  | space | append | list | search => "space"
  | get | thread | deliveryStatus => "record_id"
  | acknowledgeInboxItem => "item_id"

def query (values : List (String × String)) : PathOperation → Option (List UInt8)
  | list | search | thread | deliveryStatus => some (asBytes (queryString values))
  | _ => none

end PathOperation

/-- The route and the parameters that a request of the client arrives with. -/
def arrives (op : PathOperation) (s : String) (values : List (String × String)) :
    Option (PublicRoute × List (String × String)) := do
  let url ← succeeded (HttpTransport.target false (op.path values s))
  succeeded (publicRouter op.method url.path)

section Segments
variable {s : String}

def fill (segment : List UInt8) : Piece → List UInt8
  | .literal text => asBytes text
  | .parameter _ => segment

theorem asBytes_path (op : PathOperation) (values : List (String × String)) (s : String) :
    asBytes (op.path values s) =
      0x2f :: ([0x2f].intercalate (op.route.template.map (fill (asBytes (pathSegment s)))) ++
        querySuffix (op.query values)) := by
  have hspaces : asBytes "/v1/spaces/" =
    0x2f :: (asBytes "v1" ++ 0x2f :: (asBytes "spaces" ++ [0x2f])) := by
    decide +kernel
  have hrecords : asBytes "/v1/records/" =
    0x2f :: (asBytes "v1" ++ 0x2f :: (asBytes "records" ++ [0x2f])) := by
    decide +kernel
  have hinbox : asBytes "/v1/inbox/" =
    0x2f :: (asBytes "v1" ++ 0x2f :: (asBytes "inbox" ++ [0x2f])) := by
    decide +kernel
  have hlist : asBytes "/records?" = 0x2f :: (asBytes "records" ++ [0x3f]) := by decide +kernel
  have happend : asBytes "/records" = 0x2f :: asBytes "records" := by decide +kernel
  have hsearch : asBytes "/search?" = 0x2f :: (asBytes "search" ++ [0x3f]) := by decide +kernel
  have hthread : asBytes "/thread?" = 0x2f :: (asBytes "thread" ++ [0x3f]) := by decide +kernel
  have hstatus : asBytes "/delivery-status?" = 0x2f :: (asBytes "delivery-status" ++ [0x3f]) := by
    decide +kernel
  have hack : asBytes "/ack" = 0x2f :: asBytes "ack" := by decide +kernel
  cases op <;>
    unfold PathOperation.path <;>
    simp only [asBytes_append, hspaces, hrecords, hinbox, hlist, happend, hsearch, hthread, hstatus,
      hack, PathOperation.route, PathOperation.query, PublicRoute.template, fill, querySuffix,
      List.map_cons,
      List.map_nil, List.intercalate_cons_cons, List.intercalate_singleton, List.append_assoc,
      List.cons_append, List.nil_append, List.append_nil, Option.elim_some, Option.elim_none]

/-- What the form encoding keeps, paths and queries keep too. -/
theorem kept_of_formKeeps {b : UInt8} (h : formKeeps b = true) :
    (pathKeeps b = true ∧ isSlash b = false) ∧ queryKeeps b = true := by
  have hall : ∀ n : Fin 256, formKeeps (UInt8.ofNat n) = true →
      (pathKeeps (UInt8.ofNat n) = true ∧ isSlash (UInt8.ofNat n) = false) ∧
        queryKeeps (UInt8.ofNat n) = true := by decide +kernel
  have hb := hall ⟨b.toNat, b.toNat_lt⟩
  rw [UInt8.ofNat_toNat] at hb
  exact hb h

theorem clean_pathSegment (s : String) : Clean (asBytes (pathSegment s)) := by
  intro b hb
  rw [asBytes_pathSegment] at hb
  rcases mem_percentEncode hb with ⟨-, h⟩ | rfl | ⟨n, hn, rfl⟩
  · exact (kept_of_formKeeps h).1
  · decide
  · have hall : ∀ i : Fin 16, pathKeeps (hexByte i) = true ∧ isSlash (hexByte i) = false := by
      decide
    exact hall ⟨n, hn⟩

/-- The directories of the operations. -/
def names : List String :=
  ["v1", "spaces", "records", "search", "thread", "delivery-status", "inbox", "ack"]

/-- What the paths of the operations begin with. -/
def heads : List String :=
  ["/v1/spaces/", "/v1/records/", "/v1/inbox/"]

/-- No path is written from both templates. -/
def apart : List Piece → List Piece → Bool
  | [], [] => false
  | .literal a :: t, .literal b :: t' => a ≠ b || apart t t'
  | _ :: t, _ :: t' => apart t t'
  | _, _ => true

/-- Whether a directory is written as it stands and is no dot segment. -/
def plainName (text : String) : Bool :=
  ((asBytes text).all fun b => pathKeeps b && !isSlash b) &&
    (!singleDots.contains (asBytes text) && !doubleDots.contains (asBytes text))

/-- Whether the path that begins so is a public one, whatever follows. -/
def publicHead (head : String) : Bool :=
  (asBytes "/v1/admin/").length ≤ (asBytes head).length &&
    (asBytes "/v1/").length ≤ (asBytes head).length &&
    (asBytes "/v1/").isPrefixOf (asBytes head) && !(asBytes "/v1/admin/").isPrefixOf (asBytes head)

/-- What is checked once of the constants of the routes. -/
theorem constants_checked :
    names.all plainName = true ∧ heads.all publicHead = true ∧
    (∀ segment ∈ singleDots, percentDecode segment = asBytes ".") ∧
    (∀ segment ∈ doubleDots, percentDecode segment = asBytes "..") ∧
    (PublicRoute.all.all fun r => PublicRoute.all.all fun r' => r == r' ||
      apart r.template r'.template) = true := by
  decide +kernel

theorem forall_fill (op : PathOperation) {P : List UInt8 → Prop} {segment : List UInt8}
    (hliteral : ∀ text ∈ names, P (asBytes text)) (hsegment : P segment) :
    ∀ piece ∈ op.route.template.map (fill segment), P piece := by
  intro piece hpiece
  obtain ⟨p, hp, rfl⟩ := List.mem_map.mp hpiece
  cases p with
  | parameter name => exact hsegment
  | literal text =>
    have hall : (op.route.template.all fun
      | .literal text => names.contains text
      | .parameter _ => true) = true := by cases op <;> decide
    have hmem := List.all_eq_true.mp hall _ hp
    exact hliteral text (List.contains_iff_mem.mp hmem)

theorem clean_fill (op : PathOperation) {segment : List UInt8} (h : Clean segment) :
    ∀ piece ∈ op.route.template.map (fill segment), Clean piece := by
  refine forall_fill op (fun text htext b hb => ?_) h
  obtain ⟨hplain, -⟩ := constants_checked
  have htext := List.all_eq_true.mp hplain text htext
  rw [plainName, Bool.and_eq_true] at htext
  simpa using List.all_eq_true.mp htext.1 b hb

theorem query_kept (op : PathOperation) (values : List (String × String)) :
    ∀ text ∈ op.query values, ∀ b ∈ text, queryKeeps b = true := by
  have hform : ∀ b ∈ asBytes (queryString values), queryKeeps b = true := by
    intro b hb
    rw [asBytes_queryString] at hb
    rcases mem_formText hb with rfl | rfl | ⟨bytes, hb⟩
    · decide
    · decide
    · rcases mem_formEncode hb with h | rfl | rfl | ⟨n, hn, rfl⟩
      · exact (kept_of_formKeeps h).2
      · decide
      · decide
      · have hall : ∀ i : Fin 16, queryKeeps (hexByte i) = true := by decide
        exact hall ⟨n, hn⟩
  intro text htext
  cases op <;> cases htext <;> exact hform

/-- The segments that the client writes for an operation. -/
def segments (op : PathOperation) (s : String) : List (List UInt8) :=
  op.route.template.map (fill (asBytes (pathSegment s)))

/-- Every path begins with one of three directories, none of which is the administrator's. -/
theorem path_head (op : PathOperation) (values : List (String × String)) (s : String) :
    ∃ head ∈ heads, ∃ rest,
      asBytes (op.path values s) = asBytes head ++ rest := by
  cases op <;>
    unfold PathOperation.path <;>
    simp only [asBytes_append, List.append_assoc]
  all_goals
    first
      | exact ⟨"/v1/spaces/", by decide, _, rfl⟩
      | exact ⟨"/v1/records/", by decide, _, rfl⟩
      | exact ⟨"/v1/inbox/", by decide, _, rfl⟩

theorem isPrefixOf_append {p t : List UInt8} (hlength : p.length ≤ t.length) (rest : List UInt8) :
    p.isPrefixOf (t ++ rest) = p.isPrefixOf t := by
  rw [Bool.eq_iff_iff, List.isPrefixOf_iff_prefix, List.isPrefixOf_iff_prefix]
  constructor
  · intro h
    exact List.prefix_of_prefix_length_le h (List.prefix_append _ _) hlength
  · intro h
    exact h.trans (List.prefix_append _ _)

theorem head_facts {head : String} (h : head ∈ heads) (rest : List UInt8) :
    (asBytes "/v1/").isPrefixOf (asBytes head ++ rest) = true ∧
      (asBytes "/v1/admin/").isPrefixOf (asBytes head ++ rest) = false := by
  obtain ⟨-, hpublic, -⟩ := constants_checked
  have hhead := List.all_eq_true.mp hpublic head h
  simp only [publicHead, Bool.and_eq_true, decide_eq_true_eq, Bool.not_eq_true'] at hhead
  obtain ⟨⟨⟨hadmin, hshort⟩, hfits⟩, hnot⟩ := hhead
  exact ⟨(isPrefixOf_append hshort rest).trans hfits, (isPrefixOf_append hadmin rest).trans hnot⟩

/-- The transport sends every operation to the resolved segments. -/
theorem target_path (op : PathOperation) (values : List (String × String)) (s : String)
    (hadmin : (asBytes "/v1/admin/").isPrefixOf (serialize (walk [] (segments op s))) = false) :
    HttpTransport.target false (op.path values s) =
    .ok ⟨walk [] (segments op s), op.query values⟩ := by
  have hclean := clean_fill op (clean_pathSegment s)
  have hbytes := mem_reference hclean (query_kept op values)
  rw [← asBytes_path] at hbytes
  have hjoin : join (asBytes (op.path values s)) =
    some ⟨walk [] (segments op s), op.query values⟩ := by
    rw [asBytes_path]
    refine join_intercalate ?_ hclean (query_kept op values)
    cases op <;> exact ⟨0x76, [0x31], _, rfl⟩
  obtain ⟨head, hhead, rest, hpath⟩ := path_head op values s
  obtain ⟨hversion, hpublic⟩ := head_facts hhead rest
  have hcr : 0x0d ∉ asBytes (op.path values s) := fun h => absurd (hbytes _ h).1 (by decide)
  have hlf : 0x0a ∉ asBytes (op.path values s) := fun h => absurd (hbytes _ h).1 (by decide)
  have hfragment : 0x23 ∉ asBytes (op.path values s) := fun h => absurd rfl (hbytes _ h).2
  have hrefused : ¬ ((asBytes "/v1/").isPrefixOf (asBytes (op.path values s)) = false ∨
      0x0d ∈ asBytes (op.path values s) ∨ 0x0a ∈ asBytes (op.path values s) ∨
      0x23 ∈ asBytes (op.path values s) ∨
      (asBytes "/v1/admin/").isPrefixOf (asBytes (op.path values s)) ≠ false) := by
    rw [hpath] at hcr hlf hfragment ⊢
    rw [hversion, hpublic]
    simp [hcr, hlf, hfragment]
  simp only [HttpTransport.target, failIf_neg hrefused, ok_bind, hjoin, required, hadmin, ne_eq,
    not_true_eq_false, failIf_neg, not_false_eq_true, pure_eq_ok]

theorem percentDecode_pathSegment (s : String) :
    percentDecode (asBytes (pathSegment s)) = asBytes s := by
  have hdecode := percentDecode_percentEncode keepsForm_formKeeps.percent (asBytes s) []
  rw [asBytes_pathSegment]
  simpa [percentDecode] using hdecode

/-- An encoded identifier is a dot segment where the identifier is. -/
theorem named_pathSegment {s : String} (hone : s ≠ ".") (htwo : s ≠ "..") :
    Named (asBytes (pathSegment s)) := by
  obtain ⟨-, -, hsingle, hdouble, -⟩ := constants_checked
  constructor <;> intro hmem
  · have heq := hsingle _ hmem
    rw [percentDecode_pathSegment] at heq
    exact hone (asBytes_injective heq)
  · have heq := hdouble _ hmem
    rw [percentDecode_pathSegment] at heq
    exact htwo (asBytes_injective heq)

theorem named_segments (op : PathOperation) {s : String} (h : Named (asBytes (pathSegment s))) :
    ∀ segment ∈ segments op s, Named segment := by
  refine forall_fill op (fun text htext => ?_) h
  obtain ⟨hplain, -⟩ := constants_checked
  have htext := List.all_eq_true.mp hplain text htext
  rw [plainName, Bool.and_eq_true] at htext
  simpa [Named] using htext.2

theorem matchTemplate_apart {t t' : List Piece} (h : apart t t' = true) {path : List (List UInt8)}
    {parameters : List (String × List UInt8)} (hmatch : matchTemplate t path = some parameters) :
    matchTemplate t' path = none := by
  induction t generalizing t' path parameters with
  | nil =>
    cases path with
    | nil =>
      cases t' with
      | nil => cases h
      | cons piece t' => cases piece <;> rfl
    | cons => cases hmatch
  | cons piece t ih =>
    cases path with
    | nil => cases piece <;> cases hmatch
    | cons segment rest =>
      have htail : ∃ tail, matchTemplate t rest = some tail := by
        cases piece with
        | literal text =>
          rw [matchTemplate] at hmatch
          split at hmatch
          · exact ⟨_, hmatch⟩
          · cases hmatch
        | parameter name =>
          rw [matchTemplate] at hmatch
          split at hmatch
          · cases hmatch
          · obtain ⟨tail, htail, -⟩ := Option.map_eq_some_iff.mp hmatch
            exact ⟨tail, htail⟩
      obtain ⟨tail, htail⟩ := htail
      cases t' with
      | nil => rfl
      | cons piece' t' =>
        have hrest : apart t t' = true → matchTemplate (piece' :: t') (segment :: rest) = none := by
          intro hapart
          have hnone := ih hapart htail
          cases piece' <;> rw [matchTemplate, hnone] <;> simp
        cases piece with
        | parameter name =>
          cases piece' <;> exact hrest h
        | literal text =>
          cases piece' with
          | parameter name' => exact hrest h
          | literal text' =>
            rw [apart, Bool.or_eq_true, decide_eq_true_eq] at h
            rcases h with hne | hapart
            · rw [matchTemplate] at hmatch
              split at hmatch
              · rename_i heq
                rw [matchTemplate, if_neg]
                rw [heq]
                exact fun hsame => hne (asBytes_injective hsame)
              · cases hmatch
            · exact hrest hapart

/-- The parameters of a template, each with the segment. -/
def bindings (segment : List UInt8) : List Piece → List (String × List UInt8)
  | [] => []
  | .literal _ :: template => bindings segment template
  | .parameter name :: template => (name, segment) :: bindings segment template

theorem matchTemplate_fill (template : List Piece) {segment : List UInt8} (hne : segment ≠ []) :
    matchTemplate template (template.map (fill segment)) = some (bindings segment template) := by
  induction template with
  | nil => rfl
  | cons piece template ih =>
    cases piece with
    | literal text => rw [List.map_cons, fill, matchTemplate, if_pos rfl, ih, bindings]
    | parameter name =>
        rw [List.map_cons, fill, matchTemplate, if_neg hne, ih, Option.map_some, bindings]

theorem PublicRoute.mem_all (r : PublicRoute) : r ∈ PublicRoute.all := by cases r <;> decide

/-- The order of the routes does not matter: no path is that of two. -/
theorem route_unique {r r' : PublicRoute} {path : List (List UInt8)}
    {parameters parameters' : List (String × List UInt8)}
    (h : matchTemplate r.template path = some parameters)
    (h' : matchTemplate r'.template path = some parameters') : r' = r := by
  by_contra hne
  obtain ⟨-, -, -, -, hall⟩ := constants_checked
  have hapart :=
    List.all_eq_true.mp (List.all_eq_true.mp hall r (PublicRoute.mem_all r)) r'
    (PublicRoute.mem_all r')
  rw [Bool.or_eq_true, beq_iff_eq] at hapart
  rw [matchTemplate_apart (hapart.resolve_left (Ne.symm hne)) h] at h'
  cases h'

theorem findSome?_of_unique {α β : Type} {f : α → Option β} {l : List α} {a : α} {b : β}
    (ha : a ∈ l)
    (hb : f a = some b) (hunique : ∀ c ∈ l, f c ≠ none → c = a) : l.findSome? f = some b := by
  cases hfind : l.findSome? f with
  | none => rw [List.findSome?_eq_none_iff.mp hfind a ha] at hb; cases hb
  | some d =>
    obtain ⟨c, hc, hd⟩ := List.exists_of_findSome?_eq_some hfind
    rw [← hd, hunique c hc (by rw [hd]; exact Option.some_ne_none d), hb]

/-- The router finds the template that the segments were written from. -/
theorem publicRouter_segments (op : PathOperation) {s : String} (hs : s ≠ "") :
    publicRouter op.method (segments op s) = .ok (op.route, [(op.parameter, s)]) := by
  have hne : asBytes (pathSegment s) ≠ [] := by
    intro hnil
    have hdecode := percentDecode_pathSegment s
    rw [hnil] at hdecode
    exact hs (asBytes_injective hdecode.symm)
  have hvalue : ofBytes (percentDecode (asBytes (pathSegment s))) = some s := by
    rw [percentDecode_pathSegment, ofBytes_asBytes]
  have hmatch : matchTemplate op.route.template (segments op s) =
      some [(op.parameter, asBytes (pathSegment s))] := by
    rw [segments, matchTemplate_fill _ hne]
    cases op <;> rfl
  have hfind : PublicRoute.all.findSome?
    (fun route => (matchTemplate route.template (segments op s)).map (route, ·)) =
      some (op.route, [(op.parameter, asBytes (pathSegment s))]) := by
    refine findSome?_of_unique (PublicRoute.mem_all op.route)
      (by rw [hmatch, Option.map_some]) fun r' _ h' => ?_
    obtain ⟨parameters, hr, -⟩ :=
      Option.map_eq_some_iff.mp (Option.ne_none_iff_exists'.mp h').choose_spec
    exact route_unique hmatch hr
  have hmethod : op.method ∈ op.route.methods := by cases op <;> decide
  simp only [publicRouter, hfind, required, ok_bind, hmethod, not_true_eq_false, not_false_eq_true,
    failIf_neg, extract, List.mapM_cons, List.mapM_nil, hvalue, Option.map_some]
  rfl

theorem not_admin_segments (op : PathOperation) (values : List (String × String)) (s : String) :
    (asBytes "/v1/admin/").isPrefixOf (serialize (segments op s)) = false := by
  have hserialize : asBytes (op.path values s) = serialize (segments op s) ++
    querySuffix (op.query values) := by
    rw [asBytes_path, serialize_eq (by cases op <;> exact List.cons_ne_nil _ _)]
    rfl
  obtain ⟨head, hhead, rest, hpath⟩ := path_head op values s
  have hpublic := (head_facts hhead rest).2
  rw [← hpath, hserialize] at hpublic
  rw [Bool.eq_false_iff] at hpublic ⊢
  intro h
  refine hpublic (List.isPrefixOf_iff_prefix.mpr ?_)
  exact (List.isPrefixOf_iff_prefix.mp h).trans (List.prefix_append _ _)

/-- What a dot leaves of the path. -/
theorem arrives_dot (op : PathOperation) (values : List (String × String)) {s : String}
    (hs : s = "." ∨ s = "..") :
    arrives op s values ≠ some (op.route, [(op.parameter, s)]) := by
  have hadmin : (asBytes "/v1/admin/").isPrefixOf (serialize (walk [] (segments op s))) =
    false := by
    rcases hs with rfl | rfl <;> cases op <;> decide +kernel
  have hrouted : succeeded (publicRouter op.method (walk [] (segments op s))) ≠
    some (op.route, [(op.parameter, s)]) := by
    rcases hs with rfl | rfl <;> cases op <;> decide +kernel
  rw [arrives, target_path op values s hadmin]
  exact hrouted

/-- An identifier arrives at the route of the operation exactly when it is not one or two dots. -/
theorem identifier_arrives (op : PathOperation) {s : String} (hs : IsIdentifier s)
    (values : List (String × String)) :
    arrives op s values = some (op.route, [(op.parameter, s)]) ↔ s ≠ "." ∧ s ≠ ".." := by
  constructor
  · intro h
    constructor <;> rintro rfl
    · exact arrives_dot op values (.inl rfl) h
    · exact arrives_dot op values (.inr rfl) h
  · rintro ⟨hone, htwo⟩
    have hwalk : walk [] (segments op s) = segments op s := by
      rw [walk_named (named_segments op (named_pathSegment hone htwo)), List.nil_append]
    have hadmin : (asBytes "/v1/admin/").isPrefixOf (serialize (walk [] (segments op s))) =
      false := by
      rw [hwalk]
      exact not_admin_segments op values s
    rw [arrives, target_path op values s hadmin, hwalk]
    exact congrArg succeeded (publicRouter_segments op hs.1)

theorem identifier_arrives_sample : arrives .thread "a/b ?." [("limit", "5")] =
    some (.recordThread, [("record_id", "a/b ?.")]) :=
  (identifier_arrives .thread ⟨by decide, by decide⟩ _).mpr ⟨by decide, by decide⟩

/-- The space `.` passes validation; listing its records asks for the space `records`. -/
theorem dot_space_misses : (SpaceCreateRequest.mk "." "dot" .publicAccess).validate = .ok () ∧
    IsIdentifier "." ∧ arrives .space "." [] = none ∧
    arrives .list "." [] = some (.space, [("space", "records")]) ∧
    arrives .list "." [] ≠
    some (PathOperation.list.route, [(PathOperation.list.parameter, ".")]) := by
  refine ⟨by decide, ⟨by decide, by decide⟩, by decide +kernel, by decide +kernel, ?_⟩
  exact arrives_dot .list [] (.inl rfl)

end Segments
end AgentJournal.Client
