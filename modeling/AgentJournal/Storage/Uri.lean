import AgentJournal.Domain.Coded
import AgentJournal.Foundation.Percent
import Mathlib.Data.List.Infix

/-! # The URI of an immutable open

The path that the storage crate opens, the URI it is written as, and what SQLite reads from a URI.
Every text is given by its bytes.
-/

namespace AgentJournal.Storage
open Domain Foundation

section Paths

def slash : UInt8 := 0x2f

/-- `Path::components` without the root and a leading `.`. -/
def pathComponents (path : List UInt8) : List (List UInt8) :=
  (path.splitOn slash).filter fun c => c ≠ [] ∧ c ≠ asBytes "."

/-- `PathBuf::push` of a relative path. -/
def pushPath (base component : List UInt8) : List UInt8 :=
  if base ≠ [] ∧ base.getLast? ≠ some slash then base ++ slash :: component else base ++ component

/-- `std::path::absolute`, which keeps two leading slashes and makes one of more. -/
def absolutePath (currentDir : Option (List UInt8)) (path : List UInt8) : Option (List UInt8) := do
  if path = [] then none else
  let base ←
    if [slash] <+: path then
      if [slash, slash] <+: path ∧ ¬ [slash, slash, slash] <+: path then some [slash, slash]
      else some [slash]
    else currentDir
  let normalized := (pathComponents path).foldl pushPath base
  some (if path.getLast? = some slash then pushPath normalized [] else normalized)

end Paths

section Encoder

def uriKeeps (byte : UInt8) : Bool :=
  (0x41 ≤ byte && byte ≤ 0x5a) || (0x61 ≤ byte && byte ≤ 0x7a) || (0x30 ≤ byte && byte ≤ 0x39) ||
    byte ∈ asBytes "/.-_"

def immutableUri (path : List UInt8) : Option (List UInt8) := do
  let _ ← ofBytes path
  some (asBytes "file:" ++ percentEncode uriKeeps path ++ asBytes "?immutable=1")

end Encoder

section Reader

structure UriFile where
  name : List UInt8
  parameters : List (List UInt8 × List UInt8)
deriving DecidableEq, Repr

/-- A part of a URI without its escapes; a NUL ends it. -/
def uriText (part : List UInt8) : List UInt8 := (percentDecode part).takeWhile (· ≠ 0)

/-- One `name=value` of a query; one without a name is left out. -/
def uriParameter (part : List UInt8) : Option (List UInt8 × List UInt8) :=
  let name := uriText (part.takeWhile (· ≠ 0x3d))
  if name = [] then none else some (name, uriText ((part.dropWhile (· ≠ 0x3d)).drop 1))

/-- The path with its query, behind the scheme. An authority is empty or the local host, and goes on
to the next slash. -/
def uriPath (rest : List UInt8) : Option (List UInt8) :=
  if [slash, slash] <+: rest then
    let authority := (rest.drop 2).takeWhile (· ≠ slash)
    if authority = [] ∨ authority = asBytes "localhost" then
      some ((rest.drop 2).dropWhile (· ≠ slash))
    else none
  else some rest

/-- What `sqlite3_open_v2` makes of a name that may be a URI; nothing when it refuses the
authority. -/
def sqliteUri (uri : List UInt8) : Option UriFile :=
  if asBytes "file:" <+: uri then do
    let path ← uriPath (uri.drop 5)
    let whole := path.takeWhile (· ≠ 0x23)
    let query := whole.dropWhile (· ≠ 0x3f)
    some ⟨uriText (whole.takeWhile (· ≠ 0x3f)),
      if query = [] then [] else ((query.drop 1).splitOn 0x26).filterMap uriParameter⟩
  else some ⟨uri, []⟩

end Reader

section Encoding
variable {path rest : List UInt8}

/-- The query of an immutable open. -/
def immutableQuery : List UInt8 := asBytes "?immutable=1"

/-- Behind the scheme, as it is read when no authority is there. -/
theorem sqliteUri_file (rest : List UInt8) :
    sqliteUri (asBytes "file:" ++ rest) = (uriPath rest).map fun path =>
    let whole := path.takeWhile (· ≠ 0x23)
    let query := whole.dropWhile (· ≠ 0x3f)
    ⟨uriText (whole.takeWhile (· ≠ 0x3f)),
      if query = [] then [] else ((query.drop 1).splitOn 0x26).filterMap uriParameter⟩ := by
  have hlength : (asBytes "file:").length = 5 := by decide
  rw [sqliteUri, if_pos (List.prefix_append _ _), ← hlength, List.drop_left]
  cases uriPath rest <;> rfl

theorem notMem_uri {c : UInt8} (hpercent : c ≠ 0x25) (hdigit : ∀ i : Fin 16, c ≠ hexByte i)
    (hc : uriKeeps c = false) : c ∉ percentEncode uriKeeps path :=
  notMem_percentEncode hpercent hdigit (.inr hc)

theorem uriText_percentEncode (path : List UInt8) :
    uriText (percentEncode uriKeeps path) = path.takeWhile (· ≠ 0) := by
  have hpercent : uriKeeps 0x25 = false := by decide
  have hdecoded := percentDecode_percentEncode hpercent path []
  rw [List.append_nil] at hdecoded
  rw [uriText, hdecoded]
  exact congrArg _ (List.append_nil path)

/-- Without an authority the encoded path is read back, up to a NUL. -/
theorem sqliteUri_encoded {text : List UInt8}
    (h : uriPath text = some (percentEncode uriKeeps path ++ immutableQuery)) :
    sqliteUri (asBytes "file:" ++ text) =
      some ⟨path.takeWhile (· ≠ 0), [(asBytes "immutable", asBytes "1")]⟩ := by
  have hhash : ∀ c ∈ percentEncode uriKeeps path ++ immutableQuery, decide (c ≠ 0x23) = true := by
    intro c hc
    rw [decide_eq_true_eq]
    rintro rfl
    rcases List.mem_append.mp hc with hc | hc
    · exact notMem_uri (by decide) (by decide) (by decide) hc
    · exact absurd hc (by decide)
  have hquestion : ∀ c ∈ percentEncode uriKeeps path, decide (c ≠ 0x3f) = true := by
    intro c hc
    rw [decide_eq_true_eq]
    rintro rfl
    exact notMem_uri (by decide) (by decide) (by decide) hc
  have hname : immutableQuery.takeWhile (· ≠ 0x3f) = [] := by decide
  have hquery : immutableQuery.dropWhile (· ≠ 0x3f) = immutableQuery := by decide
  have hparameters : (if immutableQuery = [] then []
      else ((immutableQuery.drop 1).splitOn 0x26).filterMap uriParameter) =
      [(asBytes "immutable", asBytes "1")] := by decide
  rw [sqliteUri_file, h, Option.map_some, List.takeWhile_eq_self_iff.mpr hhash]
  simp only [List.takeWhile_append_of_pos hquestion, List.dropWhile_append_of_pos hquestion, hname,
    hquery, hparameters, List.append_nil, uriText_percentEncode]

theorem slash_begins {l : List UInt8} (hrest : rest.head? ≠ some slash) :
    slash :: l <+: percentEncode uriKeeps path ++ rest ↔
      ∃ path', path = slash :: path' ∧ l <+: percentEncode uriKeeps path' ++ rest := by
  cases path with
  | nil =>
    cases rest with
    | nil => simp [percentEncode]
    | cons c rest =>
      have hc : ¬ slash = c := fun heq => hrest (by rw [heq]; rfl)
      simp [percentEncode, List.cons_prefix_cons, hc]
  | cons b path =>
    rw [percentEncode_cons, List.append_assoc]
    by_cases hb : b = slash
    · rw [hb, show percentByte uriKeeps slash = [slash] from rfl, List.singleton_append,
        List.cons_prefix_cons]
      simp
    · have hhead : ∃ c cs, percentByte uriKeeps b = c :: cs ∧ c ≠ slash := by
        unfold percentByte
        split
        · exact ⟨b, [], rfl, hb⟩
        · exact ⟨_, _, rfl, by decide⟩
      obtain ⟨c, cs, hbyte, hc⟩ := hhead
      rw [hbyte, List.cons_append, List.cons_prefix_cons]
      constructor
      · rintro ⟨rfl, -⟩
        exact absurd rfl hc
      · rintro ⟨path', heq, -⟩
        exact absurd (List.cons.inj heq).1 hb

/-- Two slashes of the path are two of the URI. -/
theorem doubled_iff :
    [slash, slash] <+: percentEncode uriKeeps path ++ immutableQuery ↔ [slash, slash] <+: path := by
  have hquery : immutableQuery.head? ≠ some slash := by decide
  rw [slash_begins hquery]
  constructor
  · rintro ⟨path', rfl, h⟩
    obtain ⟨path'', rfl, -⟩ := (slash_begins hquery).mp h
    exact ⟨path'', rfl⟩
  · rintro ⟨path'', rfl⟩
    exact ⟨slash :: path'', rfl, (slash_begins hquery).mpr ⟨path'', rfl, List.nil_prefix⟩⟩

/-- Behind two slashes there is less than the path. -/
theorem uriPath_doubled {text : List UInt8}
    (h : uriPath (percentEncode uriKeeps (slash :: slash :: path) ++ immutableQuery) =
    some text) : text = [] ∨ ∃ path', path' <:+ path ∧
      text = percentEncode uriKeeps path' ++ immutableQuery := by
  have hencoded : percentEncode uriKeeps (slash :: slash :: path) ++ immutableQuery =
      slash :: slash :: (percentEncode uriKeeps path ++ immutableQuery) := rfl
  have htext : text = (percentEncode uriKeeps path ++ immutableQuery).dropWhile (· ≠ slash) := by
    rw [hencoded, uriPath, if_pos ⟨_, rfl⟩] at h
    simp only [List.drop_succ_cons, List.drop_zero] at h
    split at h
    · exact (Option.some.inj h).symm
    · cases h
  have hfront : ∀ c ∈ percentEncode uriKeeps (path.takeWhile (· ≠ slash)), decide (c ≠ slash) =
    true := by
    intro c hc
    rw [decide_eq_true_eq]
    rintro rfl
    refine notMem_percentEncode (by decide) (by decide) (.inl ?_) hc
    intro hmem
    simpa using List.mem_takeWhile_imp hmem
  rw [← List.takeWhile_append_dropWhile (p := (· ≠ slash)) (l := path), percentEncode_append,
    List.append_assoc, List.dropWhile_append_of_pos hfront] at htext
  cases hback : path.dropWhile (· ≠ slash) with
  | nil =>
    rw [hback] at htext
    exact .inl (htext.trans (by decide))
  | cons b back =>
    have hb : b = slash := by
      have hhead :=
        List.head_dropWhile_not (· ≠ slash) (l := path) (by rw [hback]; exact List.cons_ne_nil _ _)
      simp only [hback, List.head_cons, decide_eq_false_iff_not, not_not] at hhead
      exact hhead
    refine .inr ⟨slash :: back, ?_, ?_⟩
    · rw [← hb, ← hback]
      exact List.dropWhile_suffix _
    · rw [htext, hback, hb]
      rfl

end Encoding

/-- Behind two slashes another file is read, or none. -/
theorem sqliteUri_doubled (path : List UInt8) : sqliteUri (asBytes "file:" ++
    (percentEncode uriKeeps (slash :: slash :: path) ++ immutableQuery)) ≠
      some ⟨slash :: slash :: path, [(asBytes "immutable", asBytes "1")]⟩ := by
  intro hread
  cases htext : uriPath (percentEncode uriKeeps (slash :: slash :: path) ++ immutableQuery) with
  | none =>
    rw [sqliteUri_file, htext] at hread
    cases hread
  | some text =>
    rcases uriPath_doubled htext with rfl | ⟨path', hsuffix, rfl⟩
    · rw [sqliteUri_file, htext] at hread
      cases hread
    · rw [sqliteUri_encoded htext, Option.some.injEq, UriFile.mk.injEq] at hread
      have hcut := (List.takeWhile_prefix (· ≠ 0) (l := path')).length_le
      have hshort := hsuffix.length_le
      rw [hread.1, List.length_cons, List.length_cons] at hcut
      omega

/-- The file that is read is the one that is named exactly when the path has no NUL and does not
begin with two slashes. -/
theorem sqliteUri_immutableUri {path uri : List UInt8} (h : immutableUri path = some uri) :
    sqliteUri uri = some ⟨path, [(asBytes "immutable", asBytes "1")]⟩ ↔ ¬ [slash, slash] <+: path ∧
    0 ∉ path := by
  obtain ⟨_, -, huri⟩ := Option.bind_eq_some_iff.mp h
  cases huri
  rw [List.append_assoc]
  by_cases hdoubled : [slash, slash] <+: path
  · simp only [hdoubled, not_true_eq_false, false_and, iff_false]
    obtain ⟨path', rfl⟩ := hdoubled
    exact sqliteUri_doubled path'
  · have hpath : uriPath (percentEncode uriKeeps path ++ immutableQuery) =
        some (percentEncode uriKeeps path ++ immutableQuery) := by
      rw [uriPath, if_neg (fun hpos => hdoubled (doubled_iff.mp hpos))]
    rw [show asBytes "?immutable=1" = immutableQuery from rfl, sqliteUri_encoded hpath,
      Option.some.injEq, UriFile.mk.injEq]
    simp only [hdoubled, not_false_eq_true, true_and, and_true, List.takeWhile_eq_self_iff,
      decide_eq_true_eq]
    constructor
    · intro hall hmem
      exact hall 0 hmem rfl
    · intro hnul c hc hzero
      exact hnul (hzero ▸ hc)

section Absolute
variable {base path given : List UInt8} {components : List (List UInt8)}
  {currentDir : Option (List UInt8)}

/-- A path with one leading slash. -/
def Rooted (path : List UInt8) : Prop :=
  path = [slash] ∨ ∃ c rest, path = slash :: c :: rest ∧ c ≠ slash

theorem Rooted.not_doubled (h : Rooted path) : ¬ [slash, slash] <+: path := by
  rintro ⟨rest, heq⟩
  rcases h with rfl | ⟨c, rest', rfl, hc⟩
  · cases heq
  · exact hc (List.cons.inj (List.cons.inj heq).2).1.symm

theorem Rooted.push (h : Rooted base) {component : List UInt8} (hcomponent : slash ∉ component) :
    Rooted (pushPath base component) := by
  rcases h with rfl | ⟨c, rest, rfl, hc⟩
  · rw [pushPath, if_neg (fun hsep => hsep.2 rfl)]
    cases component with
    | nil => exact .inl rfl
    | cons c component =>
      exact .inr ⟨c, component, rfl, fun heq => hcomponent (heq ▸ List.mem_cons_self)⟩
  · unfold pushPath
    split
    · exact .inr ⟨c, _, rfl, hc⟩
    · exact .inr ⟨c, _, rfl, hc⟩

theorem prefix_pushPath (base component : List UInt8) : base <+: pushPath base component := by
  unfold pushPath
  split
  · exact List.prefix_append _ _
  · exact List.prefix_append _ _

theorem notMem_pathComponents {component : List UInt8} (h : component ∈ pathComponents path) :
    slash ∉ component := by
  have hmem := (List.mem_filter.mp h).1
  intro hslash
  have hall : ∀ l : List UInt8, ∀ c ∈ l.splitOn slash, slash ∉ c := by
    intro l
    induction l with
    | nil => simp
    | cons b l ih =>
      rw [List.splitOn_cons_eq_if_modifyHead]
      split
      · intro c hc
        rcases List.mem_cons.mp hc with rfl | hc
        · exact List.not_mem_nil
        · exact ih c hc
      · rename_i hb
        cases hsplit : l.splitOn slash with
        | nil => simp
        | cons first others =>
          rw [hsplit] at ih
          intro c hc
          rw [List.modifyHead_cons] at hc
          rcases List.mem_cons.mp hc with rfl | hc
          · rw [List.mem_cons, not_or]
            exact ⟨fun heq => hb (beq_iff_eq.mpr heq.symm), ih first List.mem_cons_self⟩
          · exact ih c (List.mem_cons_of_mem _ hc)
  exact hall path component hmem hslash

theorem Rooted.foldl (h : Rooted base) (hall : ∀ c ∈ components, slash ∉ c) :
    Rooted (components.foldl pushPath base) := by
  induction components generalizing base with
  | nil => exact h
  | cons component components ih =>
    exact ih (h.push (hall _ List.mem_cons_self)) fun c hc => hall c (List.mem_cons_of_mem _ hc)

theorem prefix_foldl (base : List UInt8) (components : List (List UInt8)) :
    base <+: components.foldl pushPath base := by
  induction components generalizing base with
  | nil => exact List.prefix_rfl
  | cons component components ih => exact (prefix_pushPath base component).trans (ih _)

/-- Two leading slashes stay, any other number becomes one. -/
theorem doubled_absolutePath (hgiven : [slash] <+: given)
    (h : absolutePath currentDir given = some path) :
    [slash, slash] <+: path ↔ [slash, slash] <+: given ∧ ¬ [slash, slash, slash] <+: given := by
  have hne : given ≠ [] := by
    rintro rfl
    simp at hgiven
  rw [absolutePath, if_neg hne, if_pos hgiven] at h
  by_cases hdoubled : [slash, slash] <+: given ∧ ¬ [slash, slash, slash] <+: given
  · refine iff_of_true ?_ hdoubled
    rw [if_pos hdoubled] at h
    have hpath := prefix_foldl [slash, slash] (pathComponents given)
    simp only [Option.bind_eq_bind, Option.bind_some, Option.some.injEq] at h
    rw [← h]
    split
    · exact hpath.trans (prefix_pushPath _ _)
    · exact hpath
  · refine iff_of_false ?_ hdoubled
    rw [if_neg hdoubled] at h
    have hroot : Rooted [slash] := .inl rfl
    have hnames : ∀ c ∈ pathComponents given, slash ∉ c := fun c hc => notMem_pathComponents hc
    have hpath := hroot.foldl hnames
    simp only [Option.bind_eq_bind, Option.bind_some, Option.some.injEq] at h
    rw [← h]
    split
    · exact (hpath.push List.not_mem_nil).not_doubled
    · exact hpath.not_doubled

end Absolute

/-- SQLite opens the path that was resolved, with the one parameter, exactly when that does not
begin with two slashes and has no NUL; and a given path keeps two slashes when it begins with
exactly two. -/
theorem immutable_open {currentDir : Option (List UInt8)} {given path uri : List UInt8}
    (hpath : absolutePath currentDir given = some path) (huri : immutableUri path = some uri) :
    (sqliteUri uri = some ⟨path, [(asBytes "immutable", asBytes "1")]⟩ ↔ ¬ [slash, slash] <+: path ∧
      0 ∉ path) ∧
    ([slash] <+: given →
      ([slash, slash] <+: path ↔ [slash, slash] <+: given ∧ ¬ [slash, slash, slash] <+: given)) :=
  ⟨sqliteUri_immutableUri huri, fun hgiven => doubled_absolutePath hgiven hpath⟩

/-- A name with every byte that a URI gives a meaning. -/
def oddPath : List UInt8 := asBytes "///srv//./a b%2f?c=d&e#f.db"

theorem immutable_open_sample :
    sqliteUri (asBytes "file:/srv/a%20b%252f%3Fc%3Dd%26e%23f.db?immutable=1") =
      some ⟨asBytes "/srv/a b%2f?c=d&e#f.db", [(asBytes "immutable", asBytes "1")]⟩ := by
  have hpath : absolutePath none oddPath = some (asBytes "/srv/a b%2f?c=d&e#f.db") := by
    decide +kernel
  have huri : immutableUri (asBytes "/srv/a b%2f?c=d&e#f.db") =
      some (asBytes "file:/srv/a%20b%252f%3Fc%3Dd%26e%23f.db?immutable=1") := by decide +kernel
  have hopen := immutable_open hpath huri
  exact hopen.1.mpr ⟨by decide +kernel, by decide +kernel⟩

/-- A path with two leading slashes is refused for its first name, or another file is opened. -/
theorem doubled_slashes_redirected :
    (∃ uri, absolutePath none (asBytes "//srv/agent.db") = some (asBytes "//srv/agent.db") ∧
      immutableUri (asBytes "//srv/agent.db") = some uri ∧ sqliteUri uri = none) ∧
    ∃ uri, absolutePath none (asBytes "//localhost/agent.db") =
    some (asBytes "//localhost/agent.db") ∧
      immutableUri (asBytes "//localhost/agent.db") = some uri ∧
      sqliteUri uri = some ⟨asBytes "/agent.db", [(asBytes "immutable", asBytes "1")]⟩ :=
  ⟨⟨asBytes "file://srv/agent.db?immutable=1", by decide +kernel, by decide +kernel,
      by decide +kernel⟩,
    asBytes "file://localhost/agent.db?immutable=1", by decide +kernel, by decide +kernel,
    by decide +kernel⟩

end AgentJournal.Storage
