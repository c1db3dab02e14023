import AgentJournal.Foundation.Machine
import AgentJournal.Recovery.World

/-! # Verified recovery of hot SQLite state

Protected startup at the level of files. A start that finds sidecars replays a private copy in
a scratch directory, checks it against the audit and publishes a marker; only then is the
original replayed in place, compared with the marker, recorded in the audit, and the directory
removed. Every step is a durable effect after which the process may fail or be killed.
-/

namespace AgentJournal.CrashRecovery
open Domain Foundation Storage Recovery

abbrev Bytes := List UInt8

/-- SQLite as this procedure uses it. -/
structure Sqlite where
  /-- The standalone file left after a main file is opened with its log and rollback journal. -/
  replay : Bytes → Option Bytes → Option Bytes → Option Bytes
  /-- The tables of a standalone file that passes `verify_schema`. -/
  load : Bytes → Option Central
  /-- The header of the main file asks for a write-ahead log. -/
  walMode : Bytes → Bool
  /-- A replayed file is in rollback-journal mode. -/
  rollback : ∀ {m wal journal r}, replay m wal journal = some r → walMode r = false
  /-- Opening and closing a standalone file keeps its tables. -/
  standalone : ∀ {m c}, load m = some c → ∃ r, replay m none none = some r ∧ load r = some c

/-- A file beside the main file; `regular` means one link and no alias. -/
structure Sidecar where
  bytes : Bytes
  regular : Bool
deriving DecidableEq, Repr

structure Files where
  main : Option Bytes
  wal : Option Sidecar
  journal : Option Sidecar
  shm : Option Sidecar
deriving DecidableEq, Repr

namespace Files

/-- `sqlite_sidecar_entries_exist`. -/
def hot (f : Files) : Bool := f.journal.isSome || f.wal.isSome || f.shm.isSome

/-- `validate_sidecar` accepts all three. -/
def regular (f : Files) : Bool :=
  f.journal.all (·.regular) && f.wal.all (·.regular) && f.shm.all (·.regular)

def standalone (m : Bytes) : Files := ⟨some m, none, none, none⟩

end Files

/-- What `normalize` leaves of a file with its sidecars. -/
def Sqlite.normalize (S : Sqlite) (f : Files) : Option Bytes := do
  let m ← f.main
  S.replay m (f.wal.map (·.bytes)) (f.journal.map (·.bytes))

/-- The tables a file and its sidecars stand for. -/
def Sqlite.content (S : Sqlite) (f : Files) : Option Central := do
  let m ← S.normalize f
  S.load m

def provenance : String := "agent-journal-crash-recovery-v1"
def verifiedName : String := "verified.json"
def verifiedStaging : String := "verified.json.tmp"
def copyName : String := "central.db"

/-- The copy and what SQLite may keep beside it. -/
def copyFiles : List String :=
  [copyName, copyName ++ "-wal", copyName ++ "-journal", copyName ++ "-shm"]

/-- The marker is written and read through one JSON encoding and is given by its value. -/
inductive Body where
  | bytes (bytes : Bytes)
  | verified (verified : Verified)
deriving DecidableEq, Repr

structure Entry where
  name : String
  regular : Bool
  body : Body
deriving DecidableEq, Repr

inductive Scratch where
  | absent
  | directory (entries : List Entry)
  | other
deriving DecidableEq, Repr

def writeEntry (name : String) (body : Body) (entries : List Entry) : List Entry :=
  entries.filter (fun e => e.name ≠ name) ++ [⟨name, true, body⟩]

def unlinkEntry (name : String) (entries : List Entry) : List Entry :=
  entries.filter fun e => e.name ≠ name

def Body.verified? : Body → Option Verified
  | .verified v => some v
  | .bytes _ => none

namespace Scratch

/-- The entry the marker's name refers to. -/
def markerEntry : Scratch → Option Entry
  | .directory entries => entries.find? fun e => e.name = verifiedName
  | _ => none

/-- Whether an interrupted or rejected in-place replay is pending. -/
def pending (d : Scratch) : Bool := d.markerEntry.isSome

def marker (d : Scratch) : Option Verified := d.markerEntry.bind fun e => e.body.verified?

end Scratch

/-- The names a disposable directory may hold. -/
def allowedNames : List String := provenance :: verifiedStaging :: copyFiles

/-- Only a directory this procedure created and never used to replay the original is
disposable: it is tagged or empty and holds nothing but the copy's files. -/
def staleCopy (entries : List Entry) : Bool :=
  (entries.all fun e => e.regular && e.name ∈ allowedNames) &&
    ((entries.any fun e => e.name = provenance) || entries.isEmpty)

/-- Where `open_protected` is. -/
inductive Phase where
  | idle
  /-- The owner lock is held and `recover` begins. -/
  | recovering
  /-- `Scratch::create` removes a stale directory. -/
  | discarding
  | creating
  /-- From here to the marker an error removes the directory. -/
  | tagging
  | copyingMain
  | copyingWal (main : Bytes)
  | copyingJournal (main : Bytes) (wal : Option Bytes)
  | verifying (main : Bytes) (wal journal : Option Bytes)
  | publishing (verified : Verified)
  /-- The marker has its name; the directory is still to be synced. -/
  | syncing (verified : Verified)
  | dropping
  /-- The original is replayed in place under its marker. -/
  | replaying (verified : Verified)
  | normalized (verified : Verified)
  | probed (verified : Verified) (original : RecoveryVerification)
  | opening (recovered : Option Verified)
  /-- The database is open and is compared with the audit. -/
  | admitting (recovered : Option Verified)
  /-- The unadopted baseline is bound to the audit. -/
  | adopting (recovered : Option Verified)
  | recording (verified : Verified) (content : Central)
  /-- `CrashRecovery::complete` removes the directory. -/
  | completing (verified : Verified) (content : Central)
  /-- `open_protected` returned a handle. -/
  | served (recovered : Option Verified) (content : Central)

namespace Phase

/-- The scratch guard is held and not retained. -/
def guarded : Phase → Bool
  | .tagging | .copyingMain | .copyingWal _ | .copyingJournal _ _ | .verifying _ _ _
  | .publishing _ | .syncing _ => true
  | _ => false

/-- `remove_dir_all` is running. -/
def removing : Phase → Bool
  | .discarding | .dropping | .completing _ _ => true
  | _ => false

end Phase

/-- `found` records, for the statements only, the marker this start met or published. -/
structure State where
  files : Files
  initializing : Bool
  scratch : Scratch
  audit : Audit
  phase : Phase
  found : Option Verified

inductive Action where
  | start
  | enter
  | unlink (name : String)
  | rmdir
  | mkdir
  | tag
  | copyPart (bytes : Bytes)
  | copyFile
  /-- SQLite writes or removes one of the copy's files. -/
  | churn (name : String) (bytes : Option Bytes)
  | verifyCopy (recoveryId : String)
  | stage (bytes : Bytes)
  | rename
  | syncDir
  /-- The directory sync after the rename fails. -/
  | failSync
  | fail
  | kill
  /-- SQLite is interrupted while it rewrites the original. -/
  | sqlite (files : Files)
  | normalize
  | probe
  | settle
  | openExisting
  /-- A read-only connection makes the log and its shared-memory index. -/
  | inspect (index : Bytes)
  | adopt (files : Files)
  | standalone
  | admitted
  | record

/-- The sources that are still to be copied, and the name of the entry being written. -/
def Phase.copying : Phase → Option String
  | .copyingMain => some copyName
  | .copyingWal _ => some (copyName ++ "-wal")
  | .copyingJournal _ _ => some (copyName ++ "-journal")
  | _ => none

def writeOptional (name : String) (bytes : Option Bytes) (entries : List Entry) : List Entry :=
  match bytes with
  | some b => writeEntry name (.bytes b) entries
  | none => entries

/-- The copy after it was replayed: one standalone file. -/
def normalizedCopy (m : Bytes) (entries : List Entry) : List Entry :=
  writeEntry copyName (.bytes m) (entries.filter fun e => e.name ∉ copyFiles)

variable (S : Sqlite) (P : Platform)

inductive Step : State → Action → State → Prop
  /-- Hot state or a pending marker is recovered under the owner lock. -/
  | startHot {s : State} {m : Bytes} {lineage : AuditLineage} : s.phase = .idle →
      s.files.main = some m → (s.scratch.pending ∨ (s.files.hot ∧ s.initializing = false)) →
      (s.scratch.pending = false → (S.load m).isSome) → s.audit.readOpenLineage = .ok lineage →
      Step s .start { s with phase := .recovering, found := s.scratch.marker }
  | startCold {s : State} {m : Bytes} : s.phase = .idle → s.files.main = some m →
      s.scratch.pending = false → ¬(s.files.hot ∧ s.initializing = false) →
      Step s .start { s with phase := .opening none, found := none }
  | resume {s : State} {v : Verified} : s.phase = .recovering → s.files.regular →
      s.scratch.pending → s.scratch.marker = some v →
      Step s .enter { s with phase := .replaying v }
  | create {s : State} : s.phase = .recovering → s.files.regular → s.scratch = .absent →
      Step s .enter { s with phase := .creating }
  | discard {s : State} {entries : List Entry} : s.phase = .recovering → s.files.regular →
      s.scratch.pending = false → s.scratch = .directory entries → staleCopy entries →
      Step s .enter { s with phase := .discarding }
  | unlink {s : State} {entries : List Entry} {e : Entry} : s.phase.removing →
      s.scratch = .directory entries → e ∈ entries →
      Step s (.unlink e.name) { s with scratch := .directory (unlinkEntry e.name entries) }
  | rmdirDiscarding {s : State} : s.phase = .discarding → s.scratch = .directory [] →
      Step s .rmdir { s with scratch := .absent, phase := .creating }
  | rmdirDropping {s : State} : s.phase = .dropping → s.scratch = .directory [] →
      Step s .rmdir { s with scratch := .absent, phase := .idle }
  | rmdirCompleting {s : State} {v : Verified} {c : Central} : s.phase = .completing v c →
      s.scratch = .directory [] →
      Step s .rmdir { s with scratch := .absent, phase := .served (some v) c }
  | mkdir {s : State} : s.phase = .creating → s.scratch = .absent →
      Step s .mkdir { s with scratch := .directory [], phase := .tagging }
  | tag {s : State} {entries : List Entry} : s.phase = .tagging → s.scratch = .directory entries →
      Step s .tag { s with
        scratch := .directory (writeEntry provenance (.bytes (asBytes provenance)) entries)
        phase := .copyingMain }
  | copyPart {s : State} {entries : List Entry} {name : String} {bytes : Bytes} :
      s.phase.copying = some name → s.scratch = .directory entries →
      Step s (.copyPart bytes)
        { s with scratch := .directory (writeEntry name (.bytes bytes) entries) }
  | copyMain {s : State} {entries : List Entry} {m : Bytes} : s.phase = .copyingMain →
      s.scratch = .directory entries → s.files.main = some m →
      Step s .copyFile { s with
        scratch := .directory (writeEntry copyName (.bytes m) entries), phase := .copyingWal m }
  | copyWal {s : State} {entries : List Entry} {m : Bytes} : s.phase = .copyingWal m →
      s.scratch = .directory entries →
      Step s .copyFile { s with
        scratch := .directory
          (writeOptional (copyName ++ "-wal") (s.files.wal.map (·.bytes)) entries)
        phase := .copyingJournal m (s.files.wal.map (·.bytes)) }
  | copyJournal {s : State} {entries : List Entry} {m : Bytes} {wal : Option Bytes} :
      s.phase = .copyingJournal m wal → s.scratch = .directory entries →
      Step s .copyFile { s with
        scratch := .directory
          (writeOptional (copyName ++ "-journal") (s.files.journal.map (·.bytes)) entries)
        phase := .verifying m wal (s.files.journal.map (·.bytes)) }
  | churn {s : State} {entries : List Entry} {m : Bytes} {wal journal : Option Bytes}
      {name : String} {bytes : Option Bytes} : s.phase = .verifying m wal journal →
      s.scratch = .directory entries → name ∈ copyFiles →
      Step s (.churn name bytes)
        { s with scratch := .directory (writeOptional name bytes (unlinkEntry name entries)) }
  | verifyCopy {s : State} {entries : List Entry} {m r : Bytes} {wal journal : Option Bytes}
      {recoveryId : String} {c : Central} {revision : ℤ} {verification : RecoveryVerification} :
      s.phase = .verifying m wal journal → s.scratch = .directory entries →
      S.replay m wal journal = some r → S.load r = some c →
      s.audit.preflightExisting c = .ok revision → verify P c = .ok verification →
      Step s (.verifyCopy recoveryId) { s with
        scratch := .directory (normalizedCopy r entries)
        phase := .publishing ⟨recoveryId, revision, verification⟩ }
  | stage {s : State} {entries : List Entry} {v : Verified} {bytes : Bytes} :
      s.phase = .publishing v → s.scratch = .directory entries →
      Step s (.stage bytes)
        { s with scratch := .directory (writeEntry verifiedStaging (.bytes bytes) entries) }
  | rename {s : State} {entries : List Entry} {v : Verified} : s.phase = .publishing v →
      s.scratch = .directory entries →
      Step s .rename { s with
        scratch := .directory
          (writeEntry verifiedName (.verified v) (unlinkEntry verifiedStaging entries))
        phase := .syncing v, found := some v }
  /-- The guard is retained. -/
  | syncDir {s : State} {v : Verified} : s.phase = .syncing v →
      Step s .syncDir { s with phase := .replaying v }
  /-- The error returns before the guard is retained, so the guard removes the marker too. -/
  | failSync {s : State} {v : Verified} : s.phase = .syncing v →
      Step s .failSync { s with phase := .dropping }
  /-- An error return; the guard removes what it made. -/
  | failGuarded {s : State} : s.phase.guarded → (∀ v, s.phase ≠ .syncing v) →
      Step s .fail { s with phase := .dropping }
  | fail {s : State} : s.phase.guarded = false → Step s .fail { s with phase := .idle }
  | kill {s : State} : Step s .kill { s with phase := .idle }
  /-- An interrupted SQLite leaves files that stand for the same tables. -/
  | sqlite {s : State} {v : Verified} {files : Files} :
      (s.phase = .replaying v ∨ ∃ original, s.phase = .probed v original) →
      S.content files = S.content s.files → Step s (.sqlite files) { s with files := files }
  | normalize {s : State} {v : Verified} {r : Bytes} : s.phase = .replaying v →
      S.normalize s.files = some r →
      Step s .normalize { s with files := .standalone r, phase := .normalized v }
  | probe {s : State} {v : Verified} {m : Bytes} {c : Central}
      {verification : RecoveryVerification} : s.phase = .normalized v → s.files = .standalone m →
      S.load m = some c → verify P c = .ok verification →
      Step s .probe { s with phase := .probed v verification }
  | settle {s : State} {v : Verified} {original : RecoveryVerification} {r : Bytes} :
      s.phase = .probed v original → S.normalize s.files = some r → original = v.verification →
      Step s .settle { s with files := .standalone r, phase := .opening (some v) }
  /-- The immutable connection of `open_existing` leaves no trace. -/
  | openExisting {s : State} {recovered : Option Verified} {m : Bytes} {c : Central} :
      s.phase = .opening recovered → s.files = .standalone m → S.load m = some c →
      Step s .openExisting { s with phase := .admitting recovered }
  /-- The preflight's connection is not immutable: in WAL mode it makes the sidecars and leaves
  them. -/
  | inspect {s : State} {recovered : Option Verified} {m index : Bytes} :
      s.phase = .admitting recovered → s.files = .standalone m → S.walMode m = true →
      Step s (.inspect index)
        { s with files := ⟨some m, some ⟨[], true⟩, none, some ⟨index, true⟩⟩ }
  /-- The writer switches to WAL mode and commits. -/
  | adopt {s : State} {recovered : Option Verified} {c d : Central} {files : Files} {revision : ℤ} :
      (s.phase = .admitting recovered ∨ s.phase = .adopting recovered) →
      S.content s.files = some c → s.audit.preflightExisting c = .ok revision →
      c.recoveryAnchor.auditRequired = false → adoptPublishedBaseline s.audit c = .ok d →
      (S.content files = some c ∨ S.content files = some d) →
      Step s (.adopt files) { s with files := files, phase := .adopting recovered }
  /-- `standalone_current_database`. -/
  | standalone {s : State} {recovered : Option Verified} {r : Bytes} :
      s.phase = .adopting recovered → S.normalize s.files = some r →
      Step s .standalone { s with files := .standalone r, phase := .admitting recovered }
  | admitted {s : State} {recovered : Option Verified} {c d : Central} :
      s.phase = .admitting recovered → S.content s.files = some c →
      c.recoveryAnchor.auditRequired = true → openProtected s.audit c = .ok d →
      Step s .admitted { s with phase := match recovered with
        | none => .served none c
        | some v => .recording v c }
  | record {s : State} {v : Verified} {c : Central} : s.phase = .recording v c →
      Step s .record
        { s with audit := s.audit.recordCrashRecovery v, phase := .completing v c }

/-- Sequences of protected starts over any files, directory and audit. -/
def machine (start : State → Prop) : Machine State Action where
  start s := s.phase = .idle ∧ start s
  step := Step S P

end AgentJournal.CrashRecovery
