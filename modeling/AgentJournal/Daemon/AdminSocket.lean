import AgentJournal.Daemon.Marker
import AgentJournal.Foundation.Directory
import AgentJournal.Foundation.Process

/-! # The administrative socket

A server locks the owner lock, recovers what the marker of a dead server names, binds a socket
under a pending name, publishes it by a hard link and removes the pending name; when it stops it
removes the published name. Each file-system operation is one step. Names are those of one
directory, whose path all of them share.
-/

namespace AgentJournal.Daemon
open Foundation

inductive FileKind where
  | regular
  | socket
  | other
deriving DecidableEq, Repr

structure Node where
  kind : FileKind
  mode : ℕ
  links : ℕ
  text : Text
  /-- The server that created the file, if it was one. -/
  maker : Option ℕ
deriving DecidableEq, Repr

/-- The directory of the socket, and who holds the lock of which file. -/
structure Site where
  files : Directory Name Node
  holder : ℕ → Option ℕ

/-- The path of the socket, without its directory, and the device that holds the directory. -/
structure Config where
  final : Name
  device : UInt64

namespace Config
variable (c : Config)

def lockName : Name := c.final ++ ".lock".toList

def markerPath : Name := c.final ++ ".marker".toList

def identity (i : ℕ) : ArtifactIdentity := ⟨c.device.toNat, i⟩

end Config

/-- File-system operations; files that are open are named by their numbers. -/
inductive Op where
  | stat (n : Name)
  | openFile (n : Name)
  | createNew (n : Name)
  | fstat (i : ℕ)
  | tryLock (i : ℕ)
  | unlock (i : ℕ)
  | truncate (i : ℕ)
  | write (i : ℕ) (text : Text)
  | read (i : ℕ)
  | sync
  | bind (n : Name)
  /-- The `artifact` that follows `bind`. -/
  | identify (n : Name)
  | chmod (n : Name)
  | link (old new : Name)
  | unlink (n : Name)
  /-- The server answers requests until it is told to stop. -/
  | serve
deriving DecidableEq, Repr

/-- What an operation returns. -/
abbrev Reply : Op → Type
  | .stat _ | .identify _ => Option (ArtifactIdentity × Node)
  | .openFile _ => ℕ
  | .createNew _ => Option ℕ
  | .fstat _ => ArtifactIdentity × Node
  | .read _ => Text
  | .bind _ => Bool
  | _ => Unit

abbrev Task := Process Reply Failure

def invalid (message : String) : Failure := .invalidData message

def perform (op : Op) : Task (Reply op) := Process.perform op

def Node.isPrivate (node : Node) : Prop := node.mode &&& 0o077 = 0 ∧ node.links = 1

instance (node : Node) : Decidable node.isPrivate := inferInstanceAs (Decidable (_ ∧ _))

def validatePrivateFileMetadata (path : Name) (identity : ArtifactIdentity) (node : Node)
    (maxBytes : ℕ) : Task ArtifactIdentity := do
  .require (node.kind = .regular) (invalid "administrative sidecar is not a regular file")
  .require node.isPrivate (invalid "administrative sidecar is not private")
  .require (node.text.length ≤ maxBytes) (invalid "administrative sidecar is oversized")
  match ← perform (.stat path) with
  | none => .fail .io
  | some (pathIdentity, pathNode) => do
    .require (pathNode.kind = .regular ∧ pathIdentity = identity)
      (invalid "administrative sidecar changed while opening")
    pure identity

def validateOpenPrivateFile (path : Name) (file : ℕ) : Task ArtifactIdentity := do
  let (openIdentity, openNode) ← perform (.fstat file)
  let identity ← validatePrivateFileMetadata path openIdentity openNode adminArtifactMaxBytes
  let (fileIdentity, _) ← perform (.fstat file)
  .require (fileIdentity = identity) (invalid "administrative sidecar changed while opening")
  pure identity

/-- An open sidecar: its path, its file, and the identity it had when it was opened. -/
structure Sidecar where
  path : Name
  file : ℕ
  identity : ArtifactIdentity

abbrev OwnerLock := Sidecar

abbrev MarkerFile := Sidecar

def Sidecar.verify (lock : OwnerLock) : Task Unit := do
  let identity ← validateOpenPrivateFile lock.path lock.file
  .require (identity = lock.identity) (invalid "administrative owner lock changed")

/-- Whether the sidecar is there, and private. -/
def sidecarExists (path : Name) : Task Bool := do
  match ← perform (.stat path) with
  | some (identity, node) => do
    let _ ← validatePrivateFileMetadata path identity node adminArtifactMaxBytes
    pure true
  | none => pure false

/-- Opens or creates, as `sidecarExists` said; `none` when somebody else created it first. -/
def openSidecar (path : Name) : Bool → Task (Option ℕ)
  | true => do
    let file ← perform (.openFile path)
    pure (some file)
  | false => perform (.createNew path)

def openOwnerLock (path : Name) : ℕ → Task OwnerLock
  | 0 => .fail (invalid "administrative owner lock creation raced")
  | attempts + 1 => do
    let there ← sidecarExists path
    match ← openSidecar path there with
    | none => openOwnerLock path attempts
    | some file => do
      let identity ← validateOpenPrivateFile path file
      perform (.tryLock file)
      let ownerLock : OwnerLock := ⟨path, file, identity⟩
      ownerLock.verify
      pure ownerLock

def Sidecar.writeState (marker : MarkerFile) (state : MarkerState) (ownerLock : OwnerLock) :
    Task Unit := do
  let bytes ← .ofExcept (markerBytes state)
  .require (bytes.length ≤ adminArtifactMaxBytes) (invalid "administrative marker is oversized")
  ownerLock.verify
  let identity ← validateOpenPrivateFile marker.path marker.file
  .require (identity = marker.identity) (invalid "administrative marker changed")
  ownerLock.verify
  perform (.truncate marker.file)
  perform (.write marker.file bytes)
  perform .sync
  perform .sync
  ownerLock.verify
  let identity ← validateOpenPrivateFile marker.path marker.file
  .require (identity = marker.identity) (invalid "administrative marker changed")

def openMarker (path : Name) (ownerLock : OwnerLock) : ℕ → Task (MarkerFile × MarkerState)
  | 0 => .fail (invalid "administrative marker creation raced")
  | attempts + 1 => do
    let there ← sidecarExists path
    match ← openSidecar path there with
    | none => openMarker path ownerLock attempts
    | some file => do
      let identity ← validateOpenPrivateFile path file
      let marker : MarkerFile := ⟨path, file, identity⟩
      if there then do
        let bytes ← perform (.read file)
        let state ← .ofExcept (parseMarker bytes)
        pure (marker, state)
      else do
        marker.writeState .empty ownerLock
        pure (marker, .empty)

def requireOwned (expected : ArtifactIdentity) (actual : ArtifactIdentity × Node) : Task Unit :=
  .require (actual.2.kind = .socket ∧ actual.1 = expected)
    (invalid "administrative socket identity changed")

def removeOwned (ownerLock : OwnerLock) (path : Name) (expected : ArtifactIdentity) :
    Task Bool := do
  ownerLock.verify
  match ← perform (.stat path) with
  | none => pure false
  | some actual => do
    requireOwned expected actual
    ownerLock.verify
    match ← perform (.stat path) with
    | none => pure false
    | some actual => do
      requireOwned expected actual
      perform (.unlink path)
      pure true

/-- A path that holds anything holds the recorded socket. -/
def checkOwned (expected : ArtifactIdentity) (path : Name) : Task Unit := do
  match ← perform (.stat path) with
  | none => pure ()
  | some actual => requireOwned expected actual

/-- `recover_marker` for a marker that names a socket. -/
def recoverNamed (c : Config) (ownerLock : OwnerLock) (marker : MarkerFile)
    (recordedLock identity : ArtifactIdentity) (pendingName : Option Name) : Task Unit := do
  .require (recordedLock = ownerLock.identity) (invalid "administrative marker owner lock changed")
  .require (pendingName ≠ some c.final) (invalid "administrative marker pending path is final path")
  .require (∀ name ∈ pendingName, name.length ≤ c.final.length)
    (invalid "administrative marker pending path exceeds final path budget")
  checkOwned identity c.final
  match pendingName with
  | some name => checkOwned identity name
  | none => pure ()
  let _ ← removeOwned ownerLock c.final identity
  match pendingName with
  | some name => do
    let _ ← removeOwned ownerLock name identity
    pure ()
  | none => pure ()
  perform .sync
  marker.writeState .empty ownerLock

def recoverMarker (c : Config) (ownerLock : OwnerLock) (marker : MarkerFile) (state : MarkerState) :
    Task Unit := do
  ownerLock.verify
  match state with
  | .empty => do
    match ← perform (.stat c.final) with
    | some _ => .fail (invalid "unmarked administrative socket is preserved")
    | none => pure ()
  | .pending recordedLock identity name =>
    recoverNamed c ownerLock marker recordedLock identity (some name)
  | .published recordedLock identity name =>
    recoverNamed c ownerLock marker recordedLock identity name

def adminPendingMaxCandidates : ℕ := 4096

/-- Digits of the index, the last one first, while there are any. -/
def candidateDigits : ℕ → ℕ → List Char
  | 0, _ => []
  | fuel + 1, value =>
    adminPendingAlphabet.getD (value % adminPendingAlphabet.length) 'a' ::
      if value / adminPendingAlphabet.length = 0 then []
      else candidateDigits fuel (value / adminPendingAlphabet.length)

def pendingCandidate (index maxBytes : ℕ) : Option Name :=
  let bytes := (candidateDigits (index + 1) index).reverse
  if bytes.length > maxBytes ∨ bytes.length > adminPendingMaxNameBytes then none else some bytes

def exhausted : Failure := .invalidData "administrative pending socket name candidates exhausted"

/-- Binds the first free candidate; the fuel counts the candidates that are left. -/
def bindPending (c : Config) : ℕ → ℕ → Task (Name × ArtifactIdentity)
  | 0, _ => .fail exhausted
  | left + 1, index =>
    match pendingCandidate index c.final.length with
    | none => .fail exhausted
    | some name =>
      if name = c.final then bindPending c left (index + 1)
      else do
        match ← perform (.stat name) with
        | some _ => bindPending c left (index + 1)
        | none => do
          match ← perform (.bind name) with
          | false => bindPending c left (index + 1)
          | true => do
            match ← perform (.identify name) with
            | none => .fail (invalid "pending administrative socket disappeared")
            | some (identity, node) => do
              .require (node.kind = .socket) (invalid "pending administrative path is not a socket")
              pure (name, identity)

structure AdminSocketGuard where
  path : Name
  marker : MarkerFile
  ownerLock : OwnerLock
  identity : ArtifactIdentity

/-- From the bound pending socket to the published one. -/
def publishPending (c : Config) (ownerLock : OwnerLock) (marker : MarkerFile) (pendingName : Name)
    (identity : ArtifactIdentity) : Task AdminSocketGuard := do
  ownerLock.verify
  perform (.chmod pendingName)
  marker.writeState (.pending ownerLock.identity identity pendingName) ownerLock
  ownerLock.verify
  perform (.link pendingName c.final)
  perform .sync
  marker.writeState (.published ownerLock.identity identity (some pendingName)) ownerLock
  let _ ← removeOwned ownerLock pendingName identity
  perform .sync
  marker.writeState (.published ownerLock.identity identity none) ownerLock
  pure ⟨c.final, marker, ownerLock, identity⟩

def bindAdminListener (c : Config) : Task AdminSocketGuard := do
  .require (c.final ≠ []) (invalid "administrative socket has no final name")
  let ownerLock ← openOwnerLock c.lockName 2
  let (marker, state) ← openMarker c.markerPath ownerLock 2
  recoverMarker c ownerLock marker state
  let (pendingName, identity) ← bindPending c adminPendingMaxCandidates 0
  publishPending c ownerLock marker pendingName identity

/-- `Drop for AdminSocketGuard`. -/
def AdminSocketGuard.drop (guard : AdminSocketGuard) : Task Unit := do
  match ← guard.ownerLock.verify.attempt with
  | .error _ => pure ()
  | .ok _ => do
    match ← (removeOwned guard.ownerLock guard.path guard.identity).attempt with
    | .ok true => do
      let _ ← (perform .sync).attempt
      let _ ← (guard.marker.writeState .empty guard.ownerLock).attempt
      pure ()
    | _ => pure ()
  let _ ← (perform (.unlock guard.ownerLock.file)).attempt
  pure ()

/-- The life of a server, as far as the socket goes. -/
def server (c : Config) : Task Unit := do
  let guard ← bindAdminListener c
  let _ ← (perform .serve).attempt
  guard.drop

namespace Site
variable (x : Site)

def setNode (i : ℕ) (node : Node) : Site := { x with files := x.files.write i node }

/-- A name goes, and its file has one name less. -/
def remove (n : Name) : Site :=
  match x.files.entry n with
  | none => x
  | some i =>
    let node := { x.files.file i with links := (x.files.file i).links - 1 }
    { x with files := (x.files.unlink n).write i node }

/-- The bytes land at the beginning of the file. -/
def overwrite (i : ℕ) (text : Text) : Site :=
  x.setNode i { x.files.file i with text := text ++ (x.files.file i).text.drop text.length }

/-- The locks of a process go with it. -/
def release (s : ℕ) : Site :=
  { x with holder := fun i => if x.holder i = some s then none else x.holder i }

end Site

/-- Numbers of files are below `2 ^ 64`. -/
def inodes : ℕ := 2 ^ 64

/-- What a server's operation does and returns. -/
def Config.exec (c : Config) (s : ℕ) : (op : Op) → Site → Except Failure (Reply op) × Site
  | .stat n, x | .identify n, x =>
    (.ok ((x.files.entry n).map fun i => (c.identity i, x.files.file i)), x)
  | .openFile n, x =>
    match x.files.entry n with
    | none => (.error .io, x)
    | some i => (.ok i, x)
  | .createNew n, x =>
    match x.files.entry n with
    | some _ => (.ok none, x)
    | none =>
      if x.files.next < inodes then
        (.ok (some x.files.next),
          { x with files := x.files.create n ⟨.regular, 0o600, 1, [], some s⟩ })
      else (.error .io, x)
  | .fstat i, x => (.ok (c.identity i, x.files.file i), x)
  | .tryLock i, x =>
    match x.holder i with
    | none => (.ok (), { x with holder := Function.update x.holder i (some s) })
    | some _ => (.error .io, x)
  | .unlock i, x =>
    (.ok (),
      if x.holder i = some s then { x with holder := Function.update x.holder i none } else x)
  | .truncate i, x => (.ok (), x.setNode i { x.files.file i with text := [] })
  | .write i text, x => (.ok (), x.overwrite i text)
  | .read i, x => (.ok ((x.files.file i).text.take (adminArtifactMaxBytes + 1)), x)
  | .sync, x | .serve, x => (.ok (), x)
  | .bind n, x =>
    match x.files.entry n with
    | some _ => (.ok false, x)
    | none =>
      if x.files.next < inodes then
        (.ok true, { x with files := x.files.create n ⟨.socket, 0o777, 1, [], some s⟩ })
      else (.error .io, x)
  | .chmod n, x =>
    match x.files.entry n with
    | none => (.error .io, x)
    | some i => (.ok (), x.setNode i { x.files.file i with mode := 0o600 })
  | .link old new, x =>
    match x.files.entry old, x.files.entry new with
    | some i, none =>
      let node := { x.files.file i with links := (x.files.file i).links + 1 }
      (.ok (), { x with files := (x.files.link i new).write i node })
    | _, _ => (.error .io, x)
  | .unlink n, x =>
    match x.files.entry n with
    | none => (.error .io, x)
    | some _ => (.ok (), x.remove n)

/-- What is left when an operation does not come to its end. -/
def Op.cut (count : ℕ) : Option Op → Site → Site
  | some (.write i text), x => x.overwrite i (text.take count)
  | _, x => x

/-- An artifact that is not this protocol's. -/
inductive Foreign where
  | place (n : Name) (kind : FileKind) (mode : ℕ) (text : Text)
  | remove (n : Name)

def Foreign.name : Foreign → Name
  | .place n .. | .remove n => n

/-- A file of its own takes the name, whatever the name held. -/
def Foreign.act : Foreign → Site → Site
  | .place n kind mode text, x =>
    let cleared := x.remove n
    if cleared.files.next < inodes then
      { cleared with files := cleared.files.create n ⟨kind, mode, 1, text, none⟩ }
    else x
  | .remove n, x => x.remove n

/-- Servers in one directory, and others who touch any path but the sidecars, though not while a
server's next operation guards that path. -/
def system (c : Config) (guards : Op → Name → Bool) : System Reply Failure Site Foreign where
  main _ := server c
  exec s op x reply y := (reply, y) = c.exec s op x ∨
    reply = .error .io ∧ ∃ count, y = Op.cut count (some op) x
  exit s op x y := ∃ count, y = (Op.cut count op x).release s
  outside action heads x y := action.name ≠ c.lockName ∧ action.name ≠ c.markerPath ∧
    (∀ s op, heads s = some op → guards op action.name = false) ∧ y = action.act x

/-- The directory is empty at first. -/
def Site.fresh (x : Site) : Prop :=
  x = ⟨⟨fun _ => none, fun _ => ⟨.other, 0, 0, [], none⟩, 0⟩, fun _ => none⟩

end AgentJournal.Daemon
