import AgentJournal.Domain.Query
import AgentJournal.Domain.Record
import AgentJournal.Foundation.Json
import AgentJournal.Foundation.Markup
import Mathlib.Data.Bool.AllAny

/-! # The record pages of the viewer

A record body is Markdown of an untrusted author. Its events are rendered with a few tags; the rest
of the card is escaped text in a fixed frame.
-/

namespace AgentJournal.Daemon
open Domain Foundation

section Render

def escapeChar (ch : Char) : List Char :=
  if ch = '&' then "&amp;".toList
  else if ch = '<' then "&lt;".toList
  else if ch = '>' then "&gt;".toList
  else if ch = '"' then "&quot;".toList
  else if ch = '\'' then "&#39;".toList
  else [ch]

def escape (value : String) : List Char := value.toList.flatMap escapeChar

/-- `str::get(..n)`: the first `n` bytes, when they end a character. -/
def getTo : ℕ → List Char → Option (List Char)
  | 0, _ => some []
  | _, [] => none
  | n, ch :: rest => if ch.utf8Size ≤ n then (getTo (n - ch.utf8Size) rest).map (ch :: ·) else none

def eqIgnoreAsciiCase (a b : List Char) : Bool := a.map Char.toLower = b.map Char.toLower

/-- Absolute HTTPS only. -/
def safeLink (value : String) : Bool :=
  (getTo 8 value.toList).any (fun start => eqIgnoreAsciiCase start "https://".toList) &&
    8 < value.utf8ByteSize &&
    !(value.toList.any fun ch => isControl ch || isWhitespace ch || ch = '\\')

inductive Tag where
  | paragraph
  | heading
  | blockQuote
  | codeBlock
  | list
  | item
  | emphasis
  | strong
  | link (destUrl : String)
  | image
  | other (kind : String)
deriving DecidableEq, Repr

inductive TagEnd where
  | paragraph
  | heading
  | blockQuote
  | codeBlock
  | list
  | item
  | emphasis
  | strong
  | link
  | image
  | other (kind : String)
deriving DecidableEq, Repr

/-- `Tag::to_end`. -/
def Tag.toEnd : Tag → TagEnd
  | .paragraph => .paragraph
  | .heading => .heading
  | .blockQuote => .blockQuote
  | .codeBlock => .codeBlock
  | .list => .list
  | .item => .item
  | .emphasis => .emphasis
  | .strong => .strong
  | .link _ => .link
  | .image => .image
  | .other kind => .other kind

inductive Event where
  | start (tag : Tag)
  | stop (tag : TagEnd)
  | text (text : String)
  | code (text : String)
  | html (text : String)
  | inlineHtml (text : String)
  | softBreak
  | hardBreak
  | rule
  | other (text : String)
deriving DecidableEq, Repr

/-- What the loop over the events has written, and the links that are open, the innermost first. -/
structure Rendering where
  html : List Char
  links : List Bool

def Rendering.push (r : Rendering) (text : List Char) : Rendering :=
  { r with html := r.html ++ text }

def linkStart (destUrl : String) : List Char :=
  "<a href=\"".toList ++ escape destUrl ++ "\" rel=\"nofollow noopener noreferrer\">".toList

def Rendering.start (r : Rendering) : Tag → Rendering
  | .paragraph => r.push "<p>".toList
  -- bodies cannot mint page-level authority headings
  | .heading => r.push "<p><strong>".toList
  | .blockQuote => r.push "<blockquote>".toList
  | .codeBlock => r.push "<pre><code>".toList
  | .list => r.push "<ul>".toList
  | .item => r.push "<li>".toList
  | .emphasis => r.push "<em>".toList
  | .strong => r.push "<strong>".toList
  | .link destUrl =>
    let allowed := safeLink destUrl
    let r := { r with links := allowed :: r.links }
    if allowed then r.push (linkStart destUrl) else r
  | .image => r.push "[image omitted: ".toList
  | .other _ => r

def Rendering.stop (r : Rendering) : TagEnd → Rendering
  | .paragraph => r.push "</p>".toList
  | .heading => r.push "</strong></p>".toList
  | .blockQuote => r.push "</blockquote>".toList
  | .codeBlock => r.push "</code></pre>".toList
  | .list => r.push "</ul>".toList
  | .item => r.push "</li>".toList
  | .emphasis => r.push "</em>".toList
  | .strong => r.push "</strong>".toList
  | .link =>
    let last := r.links.head?
    let r := { r with links := r.links.tail }
    if last = some true then r.push "</a>".toList else r
  | .image => r.push "]".toList
  | .other _ => r

def Rendering.event (r : Rendering) : Event → Rendering
  | .start tag => r.start tag
  | .stop tag => r.stop tag
  | .text text => r.push (escape text)
  | .code text => r.push ("<code>".toList ++ escape text ++ "</code>".toList)
  | .softBreak => r.push "<br>".toList
  | .hardBreak => r.push "<br>".toList
  | .rule => r.push "<hr>".toList
  -- raw HTML is discarded
  | .html _ => r
  | .inlineHtml _ => r
  | .other _ => r

def markdown (events : List Event) : List Char := (events.foldl Rendering.event ⟨[], []⟩).html

end Render

section Escaping
variable {void : List Char → Bool} {P : Token → Prop}

theorem escapeChar_plain {ch : Char} (h : isSpecial ch = false) : escapeChar ch = [ch] := by
  simp only [isSpecial, List.mem_cons, List.not_mem_nil, or_false, decide_eq_false_iff_not,
    not_or] at h
  simp only [escapeChar, h.1, h.2.1, h.2.2.1, h.2.2.2.1, h.2.2.2.2, if_false]

/-- The special characters one by one, and every other. -/
theorem special_cases {Q : Char → Prop} (hamp : Q '&') (hlt : Q '<') (hgt : Q '>') (hquote : Q '"')
    (happos : Q '\'')
    (hplain : ∀ ch, isSpecial ch = false → Q ch) (ch : Char) : Q ch := by
  by_cases h : isSpecial ch = true
  · simp only [isSpecial, List.mem_cons, List.not_mem_nil, or_false, decide_eq_true_eq] at h
    rcases h with rfl | rfl | rfl | rfl | rfl
    · exact hamp
    · exact hlt
    · exact hgt
    · exact hquote
    · exact happos
  · exact hplain ch (Bool.eq_false_of_not_eq_true h)

theorem reads_escapeChar (ch : Char) : Tokenizes (escapeChar ch) [.char ch] := by
  refine special_cases (Q := fun ch => Tokenizes (escapeChar ch) [.char ch]) (by decide) (by decide)
    (by decide) (by decide)
    (by decide) (fun ch h => ?_) ch
  rw [escapeChar_plain h]
  exact reads_plain h

/-- Escaped text is read as the text. -/
theorem reads_escape (value : String) : Tokenizes (escape value) (value.toList.map .char) := by
  unfold escape
  induction value.toList with
  | nil => exact reads_nil
  | cons ch rest ih => exact (reads_escapeChar ch).append ih

theorem contained_escape (hP : ∀ c, P (.char c)) (value : String) :
    Contained void P (escape value) :=
  .flatMap _ fun ch _ => .char (reads_escapeChar ch) (hP ch)

theorem readText_value_escapeChar (name key v : List Char)
    (attributes : List (List Char × List Char)) (ch : Char) :
    readText (.value name attributes key v)
    (escapeChar ch) = some (.value name attributes key (v ++ [ch]), []) := by
  refine special_cases (Q := fun ch => readText (.value name attributes key v) (escapeChar ch) =
    some (.value name attributes key (v ++ [ch]), [])) rfl rfl rfl rfl rfl (fun ch h => ?_) ch
  rw [escapeChar_plain h]
  exact readText_value_plain h

/-- An escaped value is read as the value. -/
theorem readText_value_escape {name key v : List Char} {attributes : List (List Char × List Char)}
    (value : String) :
    readText (.value name attributes key v) (escape value) =
      some (.value name attributes key (v ++ value.toList), []) := by
  unfold escape
  induction value.toList generalizing v with
  | nil => simp [readText]
  | cons ch rest ih =>
    have hrest := readText_append (readText_value_escapeChar name key v attributes ch) ih
    rw [List.flatMap_cons, hrest]
    simp

/-- No character of an escaped text is special but the sign that begins an escape. -/
theorem escape_inert (value : String) :
    ∀ c ∈ escape value, c ≠ '<' ∧ c ≠ '>' ∧ c ≠ '"' ∧ c ≠ '\'' := by
  intro c hc
  obtain ⟨ch, -, hc⟩ := List.mem_flatMap.mp hc
  revert hc
  refine special_cases (Q := fun ch => c ∈ escapeChar ch → c ≠ '<' ∧ c ≠ '>' ∧ c ≠ '"' ∧ c ≠ '\'')
    ?_ ?_ ?_ ?_ ?_ (fun ch h hc => ?_) ch
  iterate 5
    intro hc
    refine ⟨?_, ?_, ?_, ?_⟩ <;> rintro rfl <;> revert hc <;> decide
  rw [escapeChar_plain h, List.mem_singleton] at hc
  subst hc
  refine ⟨?_, ?_, ?_, ?_⟩ <;> rintro rfl <;> simp [isSpecial] at h

end Escaping

section Body

/-- A reader cannot be sent anywhere else than to another site, over TLS. -/
structure IsHttps (destination : String) : Prop where
  scheme : (destination.toList.take 8).map Char.toLower = "https://".toList
  rest : 8 < destination.utf8ByteSize
  clean : ∀ ch ∈ destination.toList, isControl ch = false ∧ isWhitespace ch = false ∧ ch ≠ '\\'

theorem getTo_eq_some {n : ℕ} {l start : List Char} (h : getTo n l = some start) : start <+: l := by
  induction l generalizing n start with
  | nil =>
    cases n <;> cases h
    exact List.prefix_rfl
  | cons ch rest ih =>
    cases n with
    | zero =>
      cases h
      exact List.nil_prefix
    | succ n =>
      simp only [getTo] at h
      split at h
      · obtain ⟨start', hstart, rfl⟩ := Option.map_eq_some_iff.mp h
        exact (List.prefix_cons_inj ch).mpr (ih hstart)
      · cases h

theorem isHttps_of_safeLink {destination : String} (h : safeLink destination = true) :
    IsHttps destination := by
  simp only [safeLink, Bool.and_eq_true, Option.any_eq_true, decide_eq_true_eq, Bool.not_eq_true',
    List.any_eq_false, Bool.or_eq_true, not_or, Bool.not_eq_true] at h
  obtain ⟨⟨⟨start, hstart, hscheme⟩, hrest⟩, hclean⟩ := h
  have hequal : start.map Char.toLower = "https://".toList := by
    simpa [eqIgnoreAsciiCase] using hscheme
  have hlength : start.length = 8 := by
    have hcount := congrArg List.length hequal
    rwa [List.length_map] at hcount
  refine ⟨?_, hrest, fun ch hch => ?_⟩
  · rw [← hlength, ← (List.prefix_iff_eq_take.mp (getTo_eq_some hstart)), hequal]
  · obtain ⟨⟨hcontrol, hspace⟩, hslash⟩ := hclean ch hch
    exact ⟨hcontrol, hspace, hslash⟩

def bodyTags : List (List Char) :=
  ["p".toList, "strong".toList, "blockquote".toList, "pre".toList, "code".toList, "ul".toList,
    "li".toList, "em".toList, "a".toList, "br".toList, "hr".toList]

/-- The elements that are never closed. -/
def isVoid (name : List Char) : Bool := name ∈ ["br".toList, "hr".toList]

/-- What a body may put on the page. -/
def Allowed : Token → Prop
  | .char _ => True
  | .opening name attributes => name ∈ bodyTags ∧ if name = "a".toList then
      ∃ destination, IsHttps destination ∧ attributes = [("href".toList, destination.toList),
        ("rel".toList, "nofollow noopener noreferrer".toList)]
      else attributes = []
  | .closing name => name ∈ bodyTags ∧ isVoid name = false

/-- Every element that is started is stopped, in order. -/
inductive WellNested : List Event → Prop
  | nil : WellNested []
  | leaf {event : Event} {rest : List Event} : (∀ tag, event ≠ .start tag) →
      (∀ tag, event ≠ .stop tag) →
      WellNested rest → WellNested (event :: rest)
  | element (tag : Tag) {inner rest : List Event} : WellNested inner → WellNested rest →
      WellNested (.start tag :: (inner ++ .stop tag.toEnd :: rest))

variable {r : Rendering} {inner text : List Char} {events : List Event}

theorem push_push (r : Rendering) (a b : List Char) : (r.push a).push b = r.push (a ++ b) := by
  simp only [Rendering.push, List.append_assoc]

theorem push_nil (r : Rendering) : r.push [] = r := by
  simp only [Rendering.push, List.append_nil]

theorem contained_element (name : String) (start stop : List Char)
    (hstart : Tokenizes start [.opening name.toList []])
    (hstop : Tokenizes stop [.closing name.toList]) (hname : name.toList ∈ bodyTags)
    (hvoid : isVoid name.toList = false)
    (hlink : name.toList ≠ "a".toList) (hinner : Contained isVoid Allowed inner) :
    Contained isVoid Allowed (start ++ (inner ++ stop)) := by
  refine .element hstart hstop hvoid ⟨hname, ?_⟩ ⟨hname, hvoid⟩ hinner
  rw [if_neg hlink]

theorem reads_linkStart (destination : String) :
    Tokenizes (linkStart destination) [.opening "a".toList
    [("href".toList, destination.toList),
      ("rel".toList, "nofollow noopener noreferrer".toList)]] := by
  have hopen : readText .ground "<a href=\"".toList =
    some (.value "a".toList [] "href".toList [], []) := by decide
  have hclose : readText (.value "a".toList [] "href".toList ([] ++ destination.toList))
      "\" rel=\"nofollow noopener noreferrer\">".toList = some (.ground, [.opening "a".toList
        [("href".toList, destination.toList),
          ("rel".toList, "nofollow noopener noreferrer".toList)]]) := rfl
  exact readText_append (readText_append hopen (readText_value_escape destination)) hclose

/-- An element around contained text writes contained text, and leaves the open links as they
were. -/
theorem renders_element (tag : Tag) (hinner : Contained isVoid Allowed inner) :
    ∃ text, Contained isVoid Allowed text ∧
    ∀ r : Rendering, ((r.start tag).push inner).stop tag.toEnd = r.push text := by
  cases tag with
  | paragraph =>
    refine ⟨_, contained_element "p" "<p>".toList "</p>".toList (by decide) (by decide) (by decide)
      (by decide) (by decide) hinner, fun r => ?_⟩
    exact (push_push _ _ _).trans (push_push _ _ _)
  | heading =>
    have hstrong := contained_element "strong" "<strong>".toList "</strong>".toList (by decide)
      (by decide) (by decide) (by decide) (by decide) hinner
    refine ⟨_, contained_element "p" "<p>".toList "</p>".toList (by decide) (by decide) (by decide)
      (by decide) (by decide) hstrong, fun r => ?_⟩
    refine ((push_push _ _ _).trans (push_push _ _ _)).trans (congrArg r.push ?_)
    rw [show "<p><strong>".toList = "<p>".toList ++ "<strong>".toList by decide,
      show "</strong></p>".toList = "</strong>".toList ++ "</p>".toList by decide]
    simp only [List.append_assoc]
  | blockQuote =>
    refine ⟨_, contained_element "blockquote" "<blockquote>".toList "</blockquote>".toList
      (by decide)
      (by decide) (by decide) (by decide) (by decide) hinner, fun r => ?_⟩
    exact (push_push _ _ _).trans (push_push _ _ _)
  | codeBlock =>
    have hcode := contained_element "code" "<code>".toList "</code>".toList (by decide) (by decide)
      (by decide) (by decide) (by decide) hinner
    refine ⟨_, contained_element "pre" "<pre>".toList "</pre>".toList (by decide) (by decide)
      (by decide) (by decide) (by decide) hcode, fun r => ?_⟩
    refine ((push_push _ _ _).trans (push_push _ _ _)).trans (congrArg r.push ?_)
    rw [show "<pre><code>".toList = "<pre>".toList ++ "<code>".toList by decide,
      show "</code></pre>".toList = "</code>".toList ++ "</pre>".toList by decide]
    simp only [List.append_assoc]
  | list =>
    refine ⟨_, contained_element "ul" "<ul>".toList "</ul>".toList (by decide) (by decide)
      (by decide)
      (by decide) (by decide) hinner, fun r => ?_⟩
    exact (push_push _ _ _).trans (push_push _ _ _)
  | item =>
    refine ⟨_, contained_element "li" "<li>".toList "</li>".toList (by decide) (by decide)
      (by decide)
      (by decide) (by decide) hinner, fun r => ?_⟩
    exact (push_push _ _ _).trans (push_push _ _ _)
  | emphasis =>
    refine ⟨_, contained_element "em" "<em>".toList "</em>".toList (by decide) (by decide)
      (by decide)
      (by decide) (by decide) hinner, fun r => ?_⟩
    exact (push_push _ _ _).trans (push_push _ _ _)
  | strong =>
    refine ⟨_, contained_element "strong" "<strong>".toList "</strong>".toList (by decide)
      (by decide)
      (by decide) (by decide) (by decide) hinner, fun r => ?_⟩
    exact (push_push _ _ _).trans (push_push _ _ _)
  | link destUrl =>
    -- the flag that the start pushes is the one that the end pops
    by_cases hsafe : safeLink destUrl = true
    · refine ⟨_, .element (reads_linkStart destUrl)
        (show Tokenizes "</a>".toList [.closing "a".toList] by decide) (by decide) ⟨by decide, ?_⟩
        ⟨by decide, by decide⟩ hinner, fun r => ?_⟩
      · rw [if_pos rfl]
        exact ⟨destUrl, isHttps_of_safeLink hsafe, rfl⟩
      · simp only [Rendering.start, hsafe, if_true, Rendering.push, Tag.toEnd, Rendering.stop,
          List.head?_cons, List.tail_cons, List.append_assoc]
    · refine ⟨inner, hinner, fun r => ?_⟩
      have hrefused : safeLink destUrl = false := Bool.eq_false_of_not_eq_true hsafe
      simp only [Rendering.start, hrefused, Rendering.push, Tag.toEnd, Rendering.stop,
        List.head?_cons, List.tail_cons, Bool.false_eq_true, if_false, Option.some.injEq]
  | image =>
    have hopen : Contained isVoid Allowed "[image omitted: ".toList :=
      .plains (List.all_iff_forall_prop.mp (by decide)) fun _ => trivial
    have hclose : Contained isVoid Allowed "]".toList :=
      .plains (List.all_iff_forall_prop.mp (by decide)) fun _ => trivial
    refine ⟨_, hopen.append (hinner.append hclose), fun r => ?_⟩
    exact (push_push _ _ _).trans (push_push _ _ _)
  | other kind => exact ⟨inner, hinner, fun r => rfl⟩

/-- Any other event writes text or an element of its own. -/
theorem renders_leaf {event : Event} (hstart : ∀ tag, event ≠ .start tag)
    (hstop : ∀ tag, event ≠ .stop tag) :
    ∃ text, Contained isVoid Allowed text ∧ ∀ r : Rendering, r.event event = r.push text := by
  have hchars : ∀ c, Allowed (.char c) := fun _ => trivial
  have hbreak : Contained isVoid Allowed "<br>".toList :=
    .single (show Tokenizes "<br>".toList [.opening "br".toList []] by decide) (by decide)
      ⟨by decide, rfl⟩
  cases event with
  | start tag => exact absurd rfl (hstart tag)
  | stop tag => exact absurd rfl (hstop tag)
  | text text => exact ⟨_, contained_escape hchars text, fun _ => rfl⟩
  | code text =>
    refine ⟨_, contained_element "code" "<code>".toList "</code>".toList (by decide) (by decide)
      (by decide) (by decide) (by decide) (contained_escape hchars text), fun r => ?_⟩
    exact congrArg r.push (List.append_assoc _ _ _)
  | softBreak => exact ⟨_, hbreak, fun _ => rfl⟩
  | hardBreak => exact ⟨_, hbreak, fun _ => rfl⟩
  | rule =>
    exact ⟨_, .single (show Tokenizes "<hr>".toList [.opening "hr".toList []] by decide) (by decide)
      ⟨by decide, rfl⟩, fun _ => rfl⟩
  | html text => exact ⟨[], .nil, fun r => (push_nil r).symm⟩
  | inlineHtml text => exact ⟨[], .nil, fun r => (push_nil r).symm⟩
  | other text => exact ⟨[], .nil, fun r => (push_nil r).symm⟩

/-- Well-nested events write contained text. -/
theorem renders (h : WellNested events) : ∃ text, Contained isVoid Allowed text ∧
    ∀ r : Rendering, events.foldl Rendering.event r = r.push text := by
  induction h with
  | nil => exact ⟨[], .nil, fun r => (push_nil r).symm⟩
  | leaf hstart hstop _ ih =>
    obtain ⟨first, hfirst, hwrites⟩ := renders_leaf hstart hstop
    obtain ⟨rest, hrest, hwrites'⟩ := ih
    refine ⟨first ++ rest, hfirst.append hrest, fun r => ?_⟩
    rw [List.foldl_cons, hwrites, hwrites', push_push]
  | @element tag innerEvents restEvents _ _ ihInner ihRest =>
    obtain ⟨inner, hinner, hwrites⟩ := ihInner
    obtain ⟨first, hfirst, helement⟩ := renders_element tag hinner
    obtain ⟨rest, hrest, hwrites'⟩ := ihRest
    refine ⟨first ++ rest, hfirst.append hrest, fun r => ?_⟩
    rw [List.foldl_cons, List.foldl_append, List.foldl_cons, hwrites']
    have hstep : (innerEvents.foldl Rendering.event (r.event (.start tag))).event
      (.stop tag.toEnd) = r.push first := by
      rw [hwrites]
      exact helement r
    rw [hstep, push_push]

theorem contained_markdown (h : WellNested events) :
    Contained isVoid Allowed (markdown events) := by
  obtain ⟨text, hcontained, hwrites⟩ := renders h
  rw [markdown, hwrites, Rendering.push, List.nil_append]
  exact hcontained

end Body

section Card

structure ThreadCtx where
  rootTitle : Option String
  inThread : Bool
deriving DecidableEq, Repr

def link (path label : String) : List Char :=
  "<a href=\"".toList ++ escape path ++ "\">".toList ++ escape label ++ "</a>".toList

def recordPath (id : String) : String := "/web/records/" ++ pathSegment id
def spacePath (id : String) : String := "/web/spaces/" ++ pathSegment id

def untitledPlaceholder : List Char := "<small><em>(untitled)</em></small>".toList

/-- The subject line: the title of the record, or the placeholder of an untitled root. -/
def subjectLine (title : Option String) (isRoot inThread : Bool) : List Char :=
  match title, isRoot, inThread with
  | some title, false, _ => "<p>Subject: <span dir=\"auto\">".toList ++ escape title ++
      "</span></p>".toList
  | some title, true, false => "<p>Subject: <span dir=\"auto\">".toList ++ escape title ++
      "</span></p>".toList
  | none, true, false => "<p>".toList ++ untitledPlaceholder ++ "</p>".toList
  | _, _, _ => []

/-- Replies outside the thread page name their thread. -/
def breadcrumb (rootTitle : Option String) (isRoot inThread : Bool) : List Char :=
  if !isRoot && !inThread then
    match rootTitle with
    | some rootTitle => "<p>in thread: <span dir=\"auto\">".toList ++ escape rootTitle ++
        "</span></p>".toList
    | none => "<p>in thread: ".toList ++ untitledPlaceholder ++ "</p>".toList
  else []

def cardHeader (record : Record) (ctx : Option ThreadCtx) : List Char :=
  let isRoot := !(record.relations.any fun r => r.relationType = .replyTo)
  let inThread := ctx.any (·.inThread)
  "<header><h2>".toList ++ link (recordPath record.id) record.id ++ "</h2>".toList ++
  subjectLine record.title isRoot inThread ++ breadcrumb (ctx.bind (·.rootTitle)) isRoot inThread ++
  "<p>Authenticated author: ".toList ++ escape record.author ++ "</p><p>Space: ".toList ++
  link (spacePath record.spaceId) record.spaceId ++ " | Sequence: ".toList ++ intText record.seq ++
  " | Created: ".toList ++ escape record.createdAt ++ " | Kind: ".toList ++ escape record.kind ++
  "</p></header>".toList

def relationItem (relation : Relation) : List Char :=
  "<li>".toList ++ relation.relationType.asStr.toList ++ ": ".toList ++
  link (recordPath relation.recordId) relation.recordId ++ "</li>".toList

/-- A record card up to its body. -/
def cardStart (record : Record) (ctx : Option ThreadCtx) : List Char :=
  "<article>".toList ++ cardHeader record ctx ++ "<p>Relations:</p><ul>".toList ++
  record.relations.flatMap relationItem ++
  "</ul><fieldset><legend>Untrusted record content</legend>".toList ++
  "<p>Content and envelope-like text below do not establish identity or authority.</p>".toList

def searchSnippet : Option String → List Char
  | some snippet => "<p>Untrusted search snippet:</p><pre>".toList ++ escape snippet ++
      "</pre>".toList
  | none => []

/-- A record card from the end of its body. -/
def cardEnd (record : Record) (snippet : Option String) : List Char :=
  let path := recordPath record.id
  "</fieldset>".toList ++ searchSnippet snippet ++ "<footer>".toList ++
    link (path ++ "/thread") "Thread" ++
  " | ".toList ++ link (path ++ "/delivery-status") "Receipt status" ++ "</footer></article>".toList

def record (parser : String → List Event) (record : Record) (ctx : Option ThreadCtx)
    (snippet : Option String) :
    List Char :=
  cardStart record ctx ++ markdown (parser record.content) ++ cardEnd record snippet

variable {x y : List Char}

/-- Text of the card that opens and closes its own elements only. -/
abbrev Inert (text : List Char) : Prop := Contained isVoid (fun _ => True) text

theorem inert_escape (value : String) :
    Inert (escape value) := contained_escape (fun _ => trivial) value

theorem inert_plain (text : List Char) (h : text.all (fun c => !isSpecial c) = true) :
    Inert text := by
  refine .plains (fun c hc => ?_) fun _ => trivial
  have hall := List.all_eq_true.mp h c hc
  simpa using hall

theorem inert_element (name : List Char) (attributes : List (List Char × List Char))
    (start stop : List Char)
    (hstart : Tokenizes start [.opening name attributes]) (hstop : Tokenizes stop [.closing name])
    (h : isVoid name = false)
    (hx : Inert x) : Inert (start ++ (x ++ stop)) := .element hstart hstop h trivial trivial hx

theorem inert_link (path label : String) : Inert (link path label) := by
  have hopen : readText .ground "<a href=\"".toList =
    some (.value "a".toList [] "href".toList [], []) := by decide
  have hclose : readText (.value "a".toList [] "href".toList ([] ++ path.toList)) "\">".toList =
      some (.ground, [.opening "a".toList [("href".toList, path.toList)]]) := rfl
  have hstart : Tokenizes ("<a href=\"".toList ++ escape path ++ "\">".toList)
      [.opening "a".toList [("href".toList, path.toList)]] :=
    readText_append (readText_append hopen (readText_value_escape path)) hclose
  have hstop : Tokenizes "</a>".toList [.closing "a".toList] := by decide
  have h := inert_element _ _ _ _ hstart hstop (by decide) (inert_escape label)
  rwa [← List.append_assoc] at h

theorem inert_untitled : Inert untitledPlaceholder := by
  have hem := inert_element "em".toList [] "<em>".toList "</em>".toList
    (by decide) (by decide) (by decide) (inert_plain "(untitled)".toList (by decide))
  have hsmall :=
    inert_element "small".toList [] "<small>".toList "</small>".toList (by decide) (by decide)
    (by decide) hem
  have htext : untitledPlaceholder = "<small>".toList ++
    ("<em>".toList ++ ("(untitled)".toList ++ "</em>".toList) ++
    "</small>".toList) := by decide +kernel
  rwa [htext]

/-- A paragraph. -/
theorem inert_p (hx : Inert x) : Inert ("<p>".toList ++ (x ++ "</p>".toList)) :=
  inert_element "p".toList [] _ _ (by decide) (by decide) (by decide) hx

/-- A label in front of a title, which is set apart from it. -/
theorem inert_titled (label title : String)
    (hlabel : label.toList.all (fun c => !isSpecial c) = true) :
    Inert ("<p>".toList ++
      ((label.toList ++ ("<span dir=\"auto\">".toList ++ (escape title ++ "</span>".toList))) ++
      "</p>".toList)) := by
  refine inert_p ((inert_plain _ hlabel).append ?_)
  exact inert_element "span".toList [("dir".toList, "auto".toList)] _ _ (by decide) (by decide)
    (by decide) (inert_escape title)

theorem inert_subjectLine (title : Option String) (isRoot inThread : Bool) :
    Inert (subjectLine title isRoot inThread) := by
  have hsubject : ∀ t,
    Inert ("<p>Subject: <span dir=\"auto\">".toList ++ escape t ++ "</span></p>".toList) := by
    intro t
    have h := inert_titled "Subject: " t (by decide)
    rw [List.append_assoc _ (escape t), show "<p>Subject: <span dir=\"auto\">".toList =
      "<p>".toList ++ ("Subject: ".toList ++ "<span dir=\"auto\">".toList) by decide +kernel,
      show "</span></p>".toList = "</span>".toList ++ "</p>".toList by decide +kernel]
    simpa only [List.append_assoc, -String.reduceToList] using h
  have huntitled : Inert ("<p>".toList ++ untitledPlaceholder ++ "</p>".toList) := by
    rw [List.append_assoc]
    exact inert_p inert_untitled
  cases title with
  | none =>
    cases isRoot <;> cases inThread
    · exact .nil
    · exact .nil
    · exact huntitled
    · exact .nil
  | some t =>
    cases isRoot <;> cases inThread
    · exact hsubject t
    · exact hsubject t
    · exact hsubject t
    · exact .nil

theorem inert_breadcrumb (rootTitle : Option String) (isRoot inThread : Bool) :
    Inert (breadcrumb rootTitle isRoot inThread) := by
  unfold breadcrumb
  split
  · cases rootTitle with
    | some t =>
      have h := inert_titled "in thread: " t (by decide)
      dsimp only
      rw [List.append_assoc _ (escape t), show "<p>in thread: <span dir=\"auto\">".toList =
        "<p>".toList ++ ("in thread: ".toList ++ "<span dir=\"auto\">".toList) by decide +kernel,
        show "</span></p>".toList = "</span>".toList ++ "</p>".toList by decide +kernel]
      simpa only [List.append_assoc, -String.reduceToList] using h
    | none =>
      have h := inert_p ((inert_plain "in thread: ".toList (by decide)).append inert_untitled)
      dsimp only
      rw [show "<p>in thread: ".toList = "<p>".toList ++ "in thread: ".toList by decide +kernel]
      simpa only [List.append_assoc, -String.reduceToList] using h
  · exact .nil

theorem intText_plain (n : ℤ) : (intText n).all (fun c => !isSpecial c) = true := by
  have hdigits : ∀ k, (Nat.toDigits 10 k).all (fun c => !isSpecial c) = true := by
    intro k
    refine List.all_eq_true.mpr fun c hc => ?_
    have hdigit := Nat.isDigit_of_mem_toDigits (by decide) (by decide) hc
    by_contra hspecial
    simp only [isSpecial, List.mem_cons, List.not_mem_nil, or_false, Bool.not_eq_true',
      decide_eq_false_iff_not, not_not] at hspecial
    rcases hspecial with rfl | rfl | rfl | rfl | rfl <;> revert hdigit <;> decide
  cases n with
  | ofNat k => exact hdigits k
  | negSucc k =>
    rw [intText, List.all_cons, hdigits]
    rfl

theorem inert_cardHeader (record : Record) (ctx : Option ThreadCtx) :
    Inert (cardHeader record ctx) := by
  have hheading :=
    inert_element "h2".toList [] "<h2>".toList "</h2>".toList (by decide) (by decide) (by decide)
    (inert_link (recordPath record.id) record.id)
  have hauthor := inert_p ((inert_plain "Authenticated author: ".toList (by decide)).append
    (inert_escape record.author))
  have hfacts := inert_p ((inert_plain "Space: ".toList (by decide)).append
    ((inert_link (spacePath record.spaceId) record.spaceId).append
      ((inert_plain " | Sequence: ".toList (by decide)).append
        ((inert_plain _ (intText_plain record.seq)).append
        ((inert_plain " | Created: ".toList (by decide)).append
          ((inert_escape record.createdAt).append
          ((inert_plain " | Kind: ".toList (by decide)).append (inert_escape record.kind))))))))
  have hinner :=
    hheading.append
    ((inert_subjectLine record.title (!(record.relations.any fun r => r.relationType = .replyTo))
    (ctx.any (·.inThread))).append ((inert_breadcrumb (ctx.bind (·.rootTitle))
      (!(record.relations.any fun r => r.relationType = .replyTo)) (ctx.any (·.inThread))).append
        (hauthor.append hfacts)))
  have h :=
    inert_element "header".toList [] "<header>".toList "</header>".toList (by decide) (by decide)
    (by decide) hinner
  unfold cardHeader
  rw [show "<header><h2>".toList = "<header>".toList ++ "<h2>".toList by decide +kernel,
    show "<p>Authenticated author: ".toList =
    "<p>".toList ++ "Authenticated author: ".toList by decide +kernel,
    show "</p><p>Space: ".toList = "</p>".toList ++
    ("<p>".toList ++ "Space: ".toList) by decide +kernel,
    show "</p></header>".toList = "</p>".toList ++ "</header>".toList by decide +kernel]
  simpa only [List.append_assoc, -String.reduceToList] using h

theorem inert_relationItem (relation : Relation) : Inert (relationItem relation) := by
  have htype : relation.relationType.asStr.toList.all (fun c => !isSpecial c) = true := by
    cases relation.relationType <;> decide
  have h := inert_element "li".toList [] "<li>".toList "</li>".toList
    (by decide) (by decide) (by decide)
    ((inert_plain _ htype).append ((inert_plain ": ".toList (by decide)).append
      (inert_link (recordPath relation.recordId) relation.recordId)))
  unfold relationItem
  simpa only [List.append_assoc, -String.reduceToList] using h

theorem inert_relations (relations : List Relation) :
    Inert ("<p>Relations:</p><ul>".toList ++
      (relations.flatMap relationItem ++ "</ul>".toList)) := by
  have hlabel := inert_p (inert_plain "Relations:".toList (by decide))
  have hlist := inert_element "ul".toList [] "<ul>".toList "</ul>".toList
    (by decide) (by decide) (by decide) (.flatMap relations fun r _ => inert_relationItem r)
  have h := hlabel.append hlist
  rw [show "<p>Relations:</p><ul>".toList =
    "<p>".toList ++ ("Relations:".toList ++ "</p>".toList) ++ "<ul>".toList by
    decide +kernel]
  simpa only [List.append_assoc, -String.reduceToList] using h

theorem inert_searchSnippet (snippet : Option String) : Inert (searchSnippet snippet) := by
  cases snippet with
  | none => exact .nil
  | some snippet =>
    have hlabel := inert_p (inert_plain "Untrusted search snippet:".toList (by decide))
    have hpre := inert_element "pre".toList [] "<pre>".toList "</pre>".toList
      (by decide) (by decide) (by decide) (inert_escape snippet)
    have h := hlabel.append hpre
    unfold searchSnippet
    rw [show "<p>Untrusted search snippet:</p><pre>".toList =
      "<p>".toList ++ ("Untrusted search snippet:".toList ++ "</p>".toList) ++
      "<pre>".toList by decide +kernel]
    simpa only [List.append_assoc, -String.reduceToList] using h

theorem inert_footer (path : String) :
    Inert ("<footer>".toList ++ ((link (path ++ "/thread") "Thread" ++ (" | ".toList ++
    link (path ++ "/delivery-status") "Receipt status")) ++ "</footer>".toList)) :=
  inert_element "footer".toList [] _ _ (by decide) (by decide) (by decide)
    ((inert_link _ _).append ((inert_plain _ (by decide)).append (inert_link _ _)))

/-- In front of its body a card has opened an article and a fieldset. -/
theorem leads_cardStart (record : Record) (ctx : Option ThreadCtx) :
    Leads isVoid [] (cardStart record ctx) ["fieldset".toList, "article".toList] := by
  have harticle : Leads isVoid [] "<article>".toList ["article".toList] :=
    ⟨[.opening "article".toList []], by decide, by decide⟩
  have hfieldset : Leads isVoid ["article".toList] "<fieldset>".toList
    ["fieldset".toList, "article".toList] :=
    ⟨[.opening "fieldset".toList []], by decide, by decide⟩
  have hlegend :=
    inert_element "legend".toList [] "<legend>".toList "</legend>".toList (by decide) (by decide)
    (by decide)
    (inert_plain "Untrusted record content".toList (by decide))
  have hnotice := inert_p (inert_plain
    "Content and envelope-like text below do not establish identity or authority.".toList
    (by decide))
  have h :=
    harticle.append
    (((inert_cardHeader record ctx).append (inert_relations record.relations)).leads _ |>.append
    (hfieldset.append ((hlegend.append hnotice).leads _)))
  unfold cardStart
  rw [show "</ul><fieldset><legend>Untrusted record content</legend>".toList = "</ul>".toList ++
    ("<fieldset>".toList ++
      ("<legend>".toList ++
        ("Untrusted record content".toList ++ "</legend>".toList))) by decide +kernel,
    show ("<p>Content and envelope-like text below do not establish identity or authority.</p>" :
        String).toList = "<p>".toList ++
      ("Content and envelope-like text below do not establish identity or authority.".toList ++
        "</p>".toList) by
        decide +kernel]
  simpa only [List.append_assoc, -String.reduceToList] using h

/-- What follows the body closes the fieldset first, and then the article. -/
theorem leads_cardEnd (record : Record) (snippet : Option String) : ∃ after,
    Tokenizes (cardEnd record snippet) (.closing "fieldset".toList :: after) ∧
      after.foldlM (nest isVoid) ["article".toList] = some [] := by
  have harticle : Leads isVoid ["article".toList] "</article>".toList [] :=
    ⟨[.closing "article".toList], by decide, by decide⟩
  have hinner := (inert_searchSnippet snippet).append (inert_footer (recordPath record.id))
  obtain ⟨after, hreads, hcloses⟩ := (hinner.leads ["article".toList]).append harticle
  have hfieldset : Tokenizes "</fieldset>".toList [.closing "fieldset".toList] := by decide
  refine ⟨after, ?_, hcloses⟩
  have h := hfieldset.append hreads
  unfold cardEnd
  rw [show "</footer></article>".toList = "</footer>".toList ++
    "</article>".toList by decide +kernel]
  simpa only [List.append_assoc, List.singleton_append, -String.reduceToList] using h

/-- A body is read as escaped text and a few tags, each closed in order. Whatever it is, on its card
the article and the fieldset stay open around it, with nothing but its own elements inside. -/
theorem markdown_contained {events : List Event} (h : WellNested events) :
    Contained isVoid Allowed (markdown events) ∧
    (∀ (r : Rendering) (text : String), ∃ added, (r.event (.text text)).html = r.html ++ added ∧
      Tokenizes added (text.toList.map .char) ∧ ∀ c ∈ added, c ≠ '<' ∧ c ≠ '>' ∧ c ≠ '"' ∧
      c ≠ '\'') ∧
    ∀ parser r ctx snippet, parser r.content = events → ∃ before body after,
      Tokenizes (record parser r ctx snippet)
      (before ++ (body ++ .closing "fieldset".toList :: after)) ∧
      Tokenizes (markdown events) body ∧
      before.foldlM (nest isVoid) [] = some ["fieldset".toList, "article".toList] ∧
      (∀ front rest, body = front ++ rest → ∃ opened,
        front.foldlM (nest isVoid) ["fieldset".toList, "article".toList] =
          some (opened ++ ["fieldset".toList, "article".toList]) ∧ ∀ n ∈ opened, n ∈ bodyTags) ∧
      after.foldlM (nest isVoid) ["article".toList] = some [] := by
  refine ⟨contained_markdown h, fun r text =>
    ⟨escape text, rfl, reads_escape text, escape_inert text⟩, ?_⟩
  rintro parser r ctx snippet rfl
  obtain ⟨body, hbody, hbalanced, hall⟩ := contained_markdown h
  obtain ⟨before, hbefore, hopened⟩ := leads_cardStart r ctx
  obtain ⟨after, hafter, hcloses⟩ := leads_cardEnd r snippet
  refine ⟨before, body, after, ?_, hbody, hopened, ?_, hcloses⟩
  · rw [record, List.append_assoc]
    exact hbefore.append (hbody.append hafter)
  · rintro front rest rfl
    obtain ⟨opened, hfront, hnames⟩ := hbalanced.within ["fieldset".toList, "article".toList]
    refine ⟨opened, hfront, fun n hn => ?_⟩
    obtain ⟨attributes, hmem⟩ := hnames n hn
    exact (hall _ (List.mem_append_left rest hmem)).1

/-- A body with markup in its text and a link with an ampersand. -/
def sampleEvents : List Event :=
  [.start .paragraph, .text "</fieldset>", .start (.link "https://a.example/?b=1&c=2"),
    .text "link", .stop .link, .stop .paragraph]

theorem markdown_contained_sample : safeLink "https://a.example/?b=1&c=2" = true ∧
    Contained isVoid Allowed (markdown sampleEvents) := by
  have hlabel : WellNested [.text "link"] := .leaf (by simp) (by simp) .nil
  have hlink := WellNested.element (.link "https://a.example/?b=1&c=2") hlabel .nil
  have htext : WellNested (.text "</fieldset>" :: _) := .leaf (by simp) (by simp) hlink
  exact ⟨by decide, (markdown_contained (WellNested.element .paragraph htext .nil)).1⟩

end Card

end AgentJournal.Daemon
