import WorkflowForge.Sqlite.Worker

/-!
# The Artifact Tables

Artifacts are uploaded chunk by chunk, published, and owned by the runs that declared them.
The chunks and the owners of an artifact are rows that go with it, and the owners of a run
go with the run, which is what the foreign keys with their cascades do.

A transaction that fails leaves the tables as they were, so each is a function from the
tables to an error or to the tables it commits. Where a transaction reads the clock more than
once, each reading is an argument.

## Main definitions

- `begin`, `append`, `publish`, `cleanup`: the transactions of an upload.
- `checkRead`: what a reader is allowed.
- `createRun`, `commitRun`, `collectRuns`: the transactions of runs, with what they pin and
  what they delete.
-/

namespace WorkflowForge.Sqlite

open Lib

/-! ## Tables -/

inductive ArtifactState where
  | staging
  | ready
deriving DecidableEq

structure ArtifactRow where
  scope : String
  mediaType : String
  state : ArtifactState
  bytes : Nat
  chunks : Nat
  orphanAfterMs : UInt64
  everOwned : Bool
deriving DecidableEq

structure ArtifactDb where
  artifacts : BTreeMap String ArtifactRow := ∅
  /-- The bodies of an artifact's chunks, by their sequence. -/
  chunks : BTreeMap String (BTreeMap Nat (List UInt8)) := ∅
  owners : List (String × RunId) := []

/-- The tables of runs and those of artifacts. -/
structure Tables where
  db : Db := {}
  files : ArtifactDb := {}

structure SqliteOptions where
  maxRecordBytes : Nat := 32 * 1024 * 1024
  maxArtifacts : Nat := 1000
  maxArtifactBytes : Nat := 64 * 1024 * 1024
  artifactGraceMs : UInt64 := 3600000

/-- What the engine issues to the attempts of a run. -/
structure ArtifactAccess where
  runtimeOwner : String
  runId : RunId
deriving DecidableEq

namespace Artifacts

def chunkBytes : Nat := 64 * 1024

def unavailable : ForgeError :=
  .new "not_found" "Artifact is unavailable or its metadata does not match"

def denied : ForgeError :=
  .new "access.denied" "Artifact is not owned by this run"

def exhausted : ForgeError :=
  .new "resource.limit" "Artifact storage budget is exhausted"

def chunksOf (files : ArtifactDb) (id : String) : BTreeMap Nat (List UInt8) :=
  files.chunks[id]?.getD ∅

def owned (files : ArtifactDb) (id : String) : Bool :=
  files.owners.any fun o => o.1 = id

/-- Deletes artifacts, and with them their chunks and their owners. -/
def deleteWhere (p : String → ArtifactRow → Bool) (files : ArtifactDb) : ArtifactDb where
  artifacts := files.artifacts.filter fun id row => !p id row
  chunks := files.chunks.filter fun id _ => !files.artifacts[id]?.any (p id)
  owners := files.owners.filter fun o => !files.artifacts[o.1]?.any (p o.1)

/-- Deletes what was published and nobody keeps. -/
def collect (files : ArtifactDb) (now : UInt64) : ArtifactDb :=
  deleteWhere (fun id row => row.state = .ready ∧ (row.everOwned ∨ row.orphanAfterMs ≤ now) ∧
    !owned files id) files

/-! ## Checks -/

def authorizeRun (db : Db) (access : ArtifactAccess) (scope : String) (writing : Bool) :
    Except ForgeError Unit :=
  match db.runs[access.runId]? with
  | none => .error denied
  | some row => do
    ensure (scope = row.scope) denied
    ensure (!(writing && (row.cancelRequested || terminalWords.contains row.state))) conflict

/-- Access may be absent: the host is not bound to a run. -/
def authorizeWriting (db : Db) (access : Option ArtifactAccess) (scope : String) :
    Except ForgeError Unit :=
  match access with
  | none => .ok ()
  | some access => authorizeRun db access scope true

/-- The row a reference names, if it can be read. -/
def readable (files : ArtifactDb) (reference : ArtifactRef) (now : UInt64) (row : ArtifactRow) :
    Bool :=
  row.scope = reference.scope ∧ row.mediaType = reference.mediaType ∧
    row.bytes = reference.bytes.toNat ∧ row.state = .ready ∧
    (owned files reference.id ∨ !row.everOwned ∧ now < row.orphanAfterMs)

def checkReference (files : ArtifactDb) (reference : ArtifactRef) (now : UInt64) :
    Except ForgeError Nat := do
  storable [reference.bytes.toNat, now.toNat]
  match files.artifacts[reference.id]? with
  | none => .error unavailable
  | some row => if readable files reference now row then .ok row.chunks else .error unavailable

def checkRead (t : Tables) (reference : ArtifactRef) (access : Option ArtifactAccess)
    (now : UInt64) : Except ForgeError Nat := do
  let chunks ← checkReference t.files reference now
  match access with
  | none => return chunks
  | some access =>
    authorizeRun t.db access reference.scope false
    ensure (t.files.owners.contains (reference.id, access.runId)) denied
    return chunks

/-! ## Uploads -/

section Upload

variable (options : SqliteOptions)

/-- The end of the time an artifact waits for an owner. -/
def expiry (now : UInt64) : UInt64 :=
  min (saturatingAdd now options.artifactGraceMs) (2 ^ 63 - 1)

def begin (t : Tables) (reference : ArtifactRef) (access : Option ArtifactAccess)
    (now later : UInt64) : Except ForgeError Tables := do
  let files := collect t.files now
  authorizeWriting t.db access reference.scope
  ensure (files.artifacts.size < options.maxArtifacts) exhausted
  ensure (!files.artifacts.contains reference.id) failed
  return { t with
    files := { files with
      artifacts := files.artifacts.insert reference.id {
        scope := reference.scope
        mediaType := reference.mediaType
        state := .staging
        bytes := 0
        chunks := 0
        orphanAfterMs := expiry options later
        everOwned := access.isSome }
      owners := files.owners ++ access.toList.map fun a => (reference.id, a.runId) } }

/-- The bytes of all artifacts. -/
def used (files : ArtifactDb) : Nat :=
  BTreeMap.sumValues ArtifactRow.bytes files.artifacts

/-- The row of an upload that stands where its writer believes it stands. -/
def staged (files : ArtifactDb) (reference : ArtifactRef) (sequence : Nat) :
    Option ArtifactRow :=
  files.artifacts[reference.id]?.filter fun row =>
    row.state = .staging ∧ row.bytes = reference.bytes.toNat ∧ row.chunks = sequence

def append (t : Tables) (reference : ArtifactRef) (access : Option ArtifactAccess)
    (sequence : Nat) (data : List UInt8) : Except ForgeError Tables := do
  authorizeWriting t.db access reference.scope
  ensure (data.length ≤ options.maxArtifactBytes - used t.files) exhausted
  match staged t.files reference sequence with
  | none => .error conflict
  | some row =>
    let rows := chunksOf t.files reference.id
    -- the key and the checks of the chunk table
    ensure (!rows.contains sequence ∧ 0 < data.length ∧ data.length ≤ chunkBytes) failed
    return { t with
      files := { t.files with
        artifacts := t.files.artifacts.insert reference.id
          { row with bytes := row.bytes + data.length, chunks := row.chunks + 1 }
        chunks := t.files.chunks.insert reference.id (rows.insert sequence data) } }

def publish (t : Tables) (reference : ArtifactRef) (access : Option ArtifactAccess)
    (sequence : Nat) (now : UInt64) : Except ForgeError Tables := do
  authorizeWriting t.db access reference.scope
  match staged t.files reference sequence with
  | none => .error conflict
  | some row =>
    return { t with
      files := { t.files with
        artifacts := t.files.artifacts.insert reference.id
          { row with state := .ready, orphanAfterMs := expiry options now } } }

/-- Deletes an upload that was not published. -/
def cleanup (t : Tables) (id : String) : Tables :=
  { t with files := deleteWhere (fun id' row => id' = id ∧ row.state = .staging) t.files }

/-- What a new owner deletes: no reference to a staging artifact was returned. -/
def deleteStaging (t : Tables) : Tables :=
  { t with files := deleteWhere (fun _ row => row.state = .staging) t.files }

end Upload

/-! ## Runs -/

section Runs

variable (hash : Value → String) (options : SqliteOptions)

/-- Pins references to a run, one after the other. -/
def pinReferences (clock : ArtifactRef → UInt64) (id : RunId) (scope : String) :
    List ArtifactRef → ArtifactDb → Except ForgeError ArtifactDb
  | [], files => .ok files
  | reference :: references, files => do
    ensure (reference.scope = scope) denied
    let _ ← checkReference files reference (clock reference)
    let owner := (reference.id, id)
    pinReferences clock id scope references { files with
      artifacts := files.artifacts.alter reference.id fun row =>
        row.map fun row => { row with everOwned := true }
      owners := if files.owners.contains owner then files.owners else files.owners ++ [owner] }

/-- The references of the deliveries that are new. -/
def newReferences (current next : RunSnapshot) : List ArtifactRef :=
  next.waits.toList.flatMap fun e =>
    match e.2.delivery with
    | none => []
    | some delivery =>
      if (current.waits[e.1]?.bind WaitRecord.delivery).isNone then delivery.command.artifacts
      else []

def createRun (t : Tables) (clock : ArtifactRef → UInt64) (run : RunSnapshot)
    (receipt : Option ReceiptReservation) (limits : Limits) :
    Except ForgeError (Tables × CreateOutcome) := do
  let (db, outcome) ←
    Sqlite.create hash options.maxRecordBytes t.db (fun _ => .ok ()) run receipt limits
  match outcome with
  | .duplicate .. => return ({ t with db := db }, outcome)
  | .created =>
    let files ← pinReferences clock run.id run.scope run.artifacts t.files
    return (⟨db, files⟩, outcome)

def commitRun (t : Tables) (clock : ArtifactRef → UInt64) (expected : UInt64)
    (next : RunSnapshot) : Except ForgeError Tables := do
  match ← Query.run hash t.db next.id options.maxRecordBytes with
  | none => .error (.new "not_found" "Run is unavailable")
  | some current =>
    let db ← Sqlite.commit hash options.maxRecordBytes t.db (fun _ => .ok ()) expected next
    let files ← pinReferences clock next.id next.scope (newReferences current next) t.files
    return ⟨db, files⟩

/-- Deletes the owners that are gone. -/
def releaseOwners (db : Db) (files : ArtifactDb) : ArtifactDb :=
  { files with owners := files.owners.filter fun o => db.runs.contains o.2 }

def collectRuns (t : Tables) (now : UInt64) (limits : Limits) : Except ForgeError Tables := do
  let db ← Sqlite.collect t.db now limits
  return ⟨db, collect (releaseOwners db t.files) now⟩

end Runs

end Artifacts

end WorkflowForge.Sqlite
