import AgentJournal.Foundation.Directory
import AgentJournal.Foundation.Machine
import AgentJournal.InboxWorker.Tick
import AgentJournal.Domain.Platform
import Mathlib.Data.List.Infix

/-! # The file and Muse runtimes

Both publish one private file for each inbox item: look whether the name is taken, stage the
bytes under a name of their own, link that file to the published name, and remove the staging
name. Every file operation of every concurrent call is one step; a call may fail or die between
any two of them.
-/

namespace AgentJournal.Runtime
open Domain Foundation InboxWorker

/-- The check of a route target, which is recorded in the payload and is never a path segment. -/
def validateTarget (maxBytes : ℕ) (target : String) : Except RuntimeError Unit :=
  let bytes := asBytes target
  failIf (bytes = [] ∨ bytes.length > maxBytes ∨ bytes.any (fun b => b < 0x20 || b == 0x7f) = true ∨
    [0x2e, 0x2e] <:+: bytes ∨ bytes.any (fun b => b == 0x2f || b == 0x5c) = true ∨
    (2 ≤ bytes.length ∧
      (bytes.head?.any fun b => (0x41 ≤ b && b ≤ 0x5a) || (0x61 ≤ b && b ≤ 0x7a)) = true ∧
      bytes[1]? = some 0x3a)) .runtimeRejected

def maxLabelBytes : ℕ := 255

/-- The label of the file runtime. -/
def validateLabel (label : String) : Except RuntimeError Unit := validateTarget maxLabelBytes label

def maxChatIdBytes : ℕ := 255

/-- The chat id of the Muse runtime. -/
def validateChatId (chatId : String) : Except RuntimeError Unit :=
  validateTarget maxChatIdBytes chatId

structure SpoolEnvelope where
  version : ℕ
  dedupeKey : String
  runtimeTarget : String
  inboxItemId : String
  recordId : String
  spaceId : String
  fromPrincipal : String
  sourceRun : Option String
  replyTo : Option String
  addressedTo : String
  routingKey : Option String
  body : String
  rendered : String
  contentSha256 : String
deriving DecidableEq, Repr

def SpoolEnvelope.new (P : Platform) (target : String) (e : Envelope) (rendered : String) :
    SpoolEnvelope where
  version := 1
  dedupeKey := e.inboxItemId
  runtimeTarget := target
  inboxItemId := e.inboxItemId
  recordId := e.recordId
  spaceId := e.spaceId
  fromPrincipal := e.fromPrincipal
  sourceRun := e.sourceRun
  replyTo := e.replyTo
  addressedTo := e.addressedTo
  routingKey := e.routingKey
  body := e.body
  rendered := rendered
  contentSha256 := P.digest rendered

structure DropPayload where
  version : ℕ
  dedupeKey : String
  targetChat : String
  recordId : String
  inboxItemId : String
  spaceId : String
  fromPrincipal : String
  addressedTo : String
  routingKey : Option String
  body : String
  contentSha256 : String
deriving DecidableEq, Repr

def DropPayload.new (P : Platform) (target : String) (e : Envelope) (rendered : String) :
    DropPayload where
  version := 2
  dedupeKey := e.inboxItemId
  targetChat := target
  recordId := e.recordId
  inboxItemId := e.inboxItemId
  spaceId := e.spaceId
  fromPrincipal := e.fromPrincipal
  addressedTo := e.addressedTo
  routingKey := e.routingKey
  body := rendered
  contentSha256 := P.digest rendered

/-- What the two runtimes differ in. -/
structure Publisher where
  validate : String → Except RuntimeError Unit
  fileName : String → String
  maxBytes : ℕ
  unavailable : String
  encode : String → Envelope → String → List UInt8

def maxSpoolBytes : ℕ :=
  6 * maxContentBytes + 6 * (maxContentBytes + 8 * (6 * maxIdentifierChars + 2) + 512) +
    9 * (6 * maxIdentifierChars + 2) + 6 * maxLabelBytes + 1024

def maxDropBytes : ℕ :=
  6 * maxContentBytes + 8 * (7 * maxIdentifierChars + 4) + 7 * (6 * maxIdentifierChars + 2) +
    2 * maxChatIdBytes + 2 + 1024

/-- `FileRuntime`, given the JSON encoding of its envelope. -/
def fileRuntime (P : Platform) (json : SpoolEnvelope → List UInt8) : Publisher where
  validate := validateLabel
  fileName id := "aj-" ++ P.digest id ++ ".envelope.json"
  maxBytes := maxSpoolBytes
  unavailable := "file spool unavailable"
  encode target e rendered := json (.new P target e rendered)

/-- `MuseRuntime`, given the JSON encoding of its payload. -/
def museRuntime (P : Platform) (json : DropPayload → List UInt8) : Publisher where
  validate := validateChatId
  fileName id := "muse-" ++ P.digest id ++ ".drop.json"
  maxBytes := maxDropBytes
  unavailable := "muse drop point unavailable"
  encode target e rendered := json (.new P target e rendered)

/-- The checks of `inject` before it touches a file: the published name and the bytes. -/
def prepare (R : Publisher) (quote : String → String) (route : Route) (e : Envelope)
    (rendered : String) : Except RuntimeError (String × List UInt8) := do
  failIf (route.enabled = false) .runtimeRejected
  R.validate route.runtimeTarget
  failIf (rendered ≠ e.render quote) .runtimeRejected
  let bytes := R.encode route.runtimeTarget e rendered
  failIf (bytes.length > R.maxBytes) .runtimeRejected
  .ok (R.fileName e.inboxItemId, bytes)

def stagingCreateAttempts : ℕ := 128

/-- The staging file that a call created. -/
structure Staged where
  name : String
  inode : ℕ
deriving DecidableEq, Repr

/-- The next file operation of a call. -/
inductive Stage where
  /-- `symlink_metadata`, `File::open` and the read of `read_spool_file`. -/
  | look
  | opening
  | comparing (inode : ℕ)
  /-- The two syncs of `sync_spool_file`. -/
  | syncFile
  | syncParent
  /-- `create_new` of the candidate with this offset. -/
  | staging (offset : ℕ)
  | writing (own : Staged)
  | syncing (own : Staged)
  | linking (own : Staged)
  /-- The name was taken when it was to be linked: compare and sync what is there. -/
  | lookTaken (own : Staged)
  | openTaken (own : Staged)
  | compareTaken (own : Staged) (inode : ℕ)
  | syncTaken (own : Staged)
  | syncTakenParent (own : Staged)
  | removing (own : Staged)
  | syncDirectory (own : Staged)
  /-- `let _ = fs::remove_file(&staging)` after an error. -/
  | cleanup (own : Staged) (error : RuntimeError)
  | done (result : Except RuntimeError String)
  | dead

structure Call where
  file : String
  payload : List UInt8
  pid : ℕ
  timestamp : ℕ
  sequence : ℕ
  stage : Stage

def stagingName (file : String) (pid timestamp sequence : ℕ) : String :=
  "." ++ file ++ ".tmp." ++ toString pid ++ "." ++ toString timestamp ++ "." ++ toString sequence

def Call.candidate (call : Call) (offset : ℕ) : String :=
  stagingName call.file call.pid call.timestamp ((call.sequence + offset) % 2 ^ 64)

/-- What a name of the directory refers to. -/
inductive Node where
  | regular (bytes : List UInt8)
  /-- A symbolic link, a directory, or another kind that `is_file` refuses. -/
  | irregular
deriving DecidableEq, Repr

abbrev Files := Directory String Node

/-- The next operation of a call, when the operation itself does not fail. -/
def advance (R : Publisher) (d : Files) (call : Call) : Files × Stage :=
  match call.stage with
  | .look =>
    match d.read call.file with
    | none => (d, .staging 0)
    | some .irregular => (d, .done (.error .runtimeRejected))
    | some (.regular bytes) =>
      if bytes.length > R.maxBytes then (d, .done (.error .runtimeRejected)) else (d, .opening)
  | .opening =>
    match d.entry call.file with
    | none => (d, .staging 0)
    | some i => (d, .comparing i)
  | .comparing i =>
    if d.file i = .regular call.payload then (d, .syncFile)
    else (d, .done (.error .runtimeRejected))
  | .syncFile =>
    match d.entry call.file with
    | none => (d, .done (.error (.runtimeUnavailable R.unavailable)))
    | some _ => (d, .syncParent)
  | .syncParent => (d, .done (.ok call.file))
  | .staging offset =>
    match d.entry (call.candidate offset) with
    | none =>
        (d.create (call.candidate offset) (.regular []), .writing ⟨call.candidate offset, d.next⟩)
    | some _ =>
      if offset + 1 < stagingCreateAttempts then (d, .staging (offset + 1))
      else (d, .done (.error (.runtimeUnavailable R.unavailable)))
  | .writing own => (d.write own.inode (.regular call.payload), .syncing own)
  | .syncing own => (d, .linking own)
  | .linking own =>
    match d.entry own.name with
    | none => (d, .cleanup own (.runtimeUnavailable R.unavailable))
    | some i =>
      match d.entry call.file with
      | none => (d.link i call.file, .removing own)
      | some _ => (d, .lookTaken own)
  | .lookTaken own =>
    match d.read call.file with
    | none => (d, .cleanup own .runtimeRejected)
    | some .irregular => (d, .cleanup own .runtimeRejected)
    | some (.regular bytes) =>
      if bytes.length > R.maxBytes then (d, .cleanup own .runtimeRejected) else (d, .openTaken own)
  | .openTaken own =>
    match d.entry call.file with
    | none => (d, .cleanup own .runtimeRejected)
    | some i => (d, .compareTaken own i)
  | .compareTaken own i =>
    if d.file i = .regular call.payload then (d, .syncTaken own)
    else (d, .cleanup own .runtimeRejected)
  | .syncTaken own =>
    match d.entry call.file with
    | none => (d, .cleanup own (.runtimeUnavailable R.unavailable))
    | some _ => (d, .syncTakenParent own)
  | .syncTakenParent own => (d, .removing own)
  | .removing own =>
    match d.entry own.name with
    | none => (d, .cleanup own (.runtimeUnavailable R.unavailable))
    | some _ => (d.unlink own.name, .syncDirectory own)
  | .syncDirectory _ => (d, .done (.ok call.file))
  | .cleanup own error => (d.unlink own.name, .done (.error error))
  | .done result => (d, .done result)
  | .dead => (d, .dead)

/-- What follows when the next operation of a call fails. -/
def fault (R : Publisher) : Stage → Stage
  | .look | .opening | .comparing _ => .done (.error .runtimeRejected)
  | .syncFile | .syncParent | .staging _ => .done (.error (.runtimeUnavailable R.unavailable))
  | .writing own | .syncing own | .linking own | .syncTaken own | .syncTakenParent own
  | .removing own | .syncDirectory own => .cleanup own (.runtimeUnavailable R.unavailable)
  | .lookTaken own | .openTaken own | .compareTaken own _ => .cleanup own .runtimeRejected
  | .cleanup _ error => .done (.error error)
  | .done result => .done result
  | .dead => .dead

def Stage.live : Stage → Bool
  | .done _ | .dead => false
  | _ => true

structure World where
  files : Files
  calls : ℕ → Option Call

def World.set (w : World) (c : ℕ) (call : Call) : World :=
  { w with calls := Function.update w.calls c (some call) }

inductive Action where
  | start (c : ℕ) (pid timestamp sequence : ℕ) (route : Route) (envelope : Envelope)
      (rendered : String)
  | advance (c : ℕ)
  /-- A part of `write_all`. -/
  | write (c : ℕ) (count : ℕ)
  | fault (c : ℕ)
  | kill (c : ℕ)
  /-- A reader removes a published file. -/
  | delete (name : String)

/-- Readers ignore staging names. -/
def isStaging (name : String) : Bool := name.toList.head? = some '.'

/-- Two calls of one process have no staging number in common: `STAGING_SEQUENCE` gives each
call of a process a block of its own. -/
def Separate (a b : Call) : Prop :=
  a.pid = b.pid → ∀ i j, i < stagingCreateAttempts → j < stagingCreateAttempts →
    (a.sequence + i) % 2 ^ 64 ≠ (b.sequence + j) % 2 ^ 64

/-- The new call of `inject`, which may already be refused by the checks. -/
def newCall (R : Publisher) (quote : String → String) (pid timestamp sequence : ℕ) (route : Route)
    (e : Envelope) (rendered : String) : Call :=
  match prepare R quote route e rendered with
  | .ok (file, payload) => ⟨file, payload, pid, timestamp, sequence, .look⟩
  | .error error => ⟨R.fileName e.inboxItemId, [], pid, timestamp, sequence, .done (.error error)⟩

inductive Step (R : Publisher) (quote : String → String) : World → Action → World → Prop
  | start {w : World} {c pid timestamp sequence : ℕ} {route : Route} {e : Envelope}
      {rendered : String} :
      w.calls c = none →
      (∀ c' call', w.calls c' = some call' → call'.stage.live = true →
        Separate (newCall R quote pid timestamp sequence route e rendered) call') →
      Step R quote w (.start c pid timestamp sequence route e rendered)
        (w.set c (newCall R quote pid timestamp sequence route e rendered))
  | advance {w : World} {c : ℕ} {call : Call} : w.calls c = some call → call.stage.live = true →
      Step R quote w (.advance c) { (w.set c { call with stage := (advance R w.files call).2 }) with
        files := (advance R w.files call).1 }
  | write {w : World} {c count : ℕ} {call : Call} {own : Staged} : w.calls c = some call →
      call.stage = .writing own →
      Step R quote w (.write c count)
        { w with files := w.files.write own.inode (.regular (call.payload.take count)) }
  | fault {w : World} {c : ℕ} {call : Call} : w.calls c = some call → call.stage.live = true →
      Step R quote w (.fault c) (w.set c { call with stage := fault R call.stage })
  | kill {w : World} {c : ℕ} {call : Call} : w.calls c = some call → call.stage.live = true →
      Step R quote w (.kill c) (w.set c { call with stage := .dead })
  | delete {w : World} {name : String} : isStaging name = false →
      Step R quote w (.delete name) { w with files := w.files.unlink name }

/-- Any number of calls in one directory, whatever other programs left there before. -/
def machine (R : Publisher) (quote : String → String) : Machine World Action where
  start w := w.files.Numbered ∧ ∀ c, w.calls c = none
  step := Step R quote

end AgentJournal.Runtime
