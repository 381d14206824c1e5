import WorkflowForge.Store.Memory
import WorkflowForge.Sqlite.Query

/-!
# The SQLite Store

The transactions that create a run and replace it, whole or one record at a time. A
transaction that fails leaves the tables as they were, so each is a function from the
tables to an error or to the tables it commits.

Artifacts are pinned through tables of their own; here a transaction only learns whether
each reference can be pinned.
-/

namespace WorkflowForge.Sqlite

open Lib

section Store

-- The digest of package bodies, and the budget of one record.
variable (hash : Value → String) (cap : Nat)

/-! ## Creation -/

/-- The answer a receipt already gives to a start request, if it gives one. -/
def reserved (db : Db) (scope : String) (receipt : Option ReceiptReservation)
    (limits : Limits) : Except ForgeError (Option CreateOutcome) :=
  match receipt with
  | none => .ok none
  | some reservation =>
    match db.receipts.find? fun r => r.scope = scope ∧ r.receiptKey = reservation.key with
    | some old => do
      let request : Value ← decode old.request cap
      ensure (Same .source request reservation.request) conflict
      return some (.duplicate old.runId old.expiresAtMs)
    | none =>
      if db.receipts.length ≥ limits.receiptCount then
        .error (.new "admission.full" "Receipt retention is full")
      else .ok none

/-- The tables with a package, named by its digest. A digest that names another body is a
corruption, not a replacement. -/
def internPackage (db : Db) (package : ResolvedPackage) : Except ForgeError (Db × String) := do
  let body ← encode package cap
  let id := hash body
  let packages := if db.packages.contains id then db.packages else db.packages.insert id body
  ensure (packages[id]? = some body) corrupt
  return ({ db with packages := packages }, id)

/-- The row of a run's header. -/
def runRow (run : RunSnapshot) (packageId : String) : Except ForgeError RunRow := do
  let head := run.head
  let body ← Query.headerBody run cap
  storable ([run.revision.toNat, run.deadlineAtMs.toNat, head.retainedDataBytes,
    head.invocationCount, head.unresolvedInvocations]
    ++ (run.finishedAtMs.map UInt64.toNat).toList ++ (head.nextWakeupAtMs.map UInt64.toNat).toList)
  return {
    scope := run.scope
    revision := run.revision
    state := run.state.word
    cancelRequested := run.cancelRequested
    deadlineAtMs := run.deadlineAtMs
    finishedAtMs := run.finishedAtMs
    retainedBytes := head.retainedDataBytes
    invocationCount := head.invocationCount
    unresolvedCount := head.unresolvedInvocations
    packageId := packageId
    body := body
    nextWakeupAtMs := head.nextWakeupAtMs }

/-- The references of a run or of a delivery, each of which must be available. -/
def pinReferences (available : ArtifactRef → Except ForgeError Unit) (scope : String)
    (references : List ArtifactRef) : Except ForgeError Unit :=
  references.forM fun reference =>
    if reference.scope ≠ scope then
      .error (.new "access.denied" "Artifact is not owned by this run")
    else available reference

/-- The row of a receipt. -/
def receiptRow (scope : String) (id : RunId) (reservation : ReceiptReservation) :
    Except ForgeError ReceiptRow := do
  let request ← encode reservation.request cap
  storable [reservation.expiresAtMs.toNat]
  return ⟨scope, reservation.key, id, reservation.expiresAtMs, request⟩

def create (db : Db) (available : ArtifactRef → Except ForgeError Unit) (run : RunSnapshot)
    (receipt : Option ReceiptReservation) (limits : Limits) :
    Except ForgeError (Db × CreateOutcome) := do
  storable [run.createdAtMs.toNat]
  let db := { db with receipts := db.receipts.filter fun r => run.createdAtMs < r.expiresAtMs }
  match ← reserved cap db run.scope receipt limits with
  | some outcome => return (db, outcome)
  | none =>
    let count := (BTreeMap.valueList db.runs).countP fun r => !terminalWords.contains r.state
    ensure (count < limits.activeRuns + limits.pendingRuns)
      (.new "admission.full" "Run capacity is full")
    run.validateInitial
    let previous ← Query.head db run.id
    ensure previous.isNone conflict
    let (db, packageId) ← internPackage hash cap db run.package
    let row ← runRow cap run packageId
    pinReferences available run.scope run.artifacts
    let receipts ← receipt.toList.mapM (receiptRow cap run.scope run.id)
    return ({ db with
      runs := db.runs.insert run.id row
      receipts := db.receipts ++ receipts }, .created)

/-! ## Replacement of a run -/

/-- Pins the artifacts of every delivery that is new. -/
def pinDeliveries (available : ArtifactRef → Except ForgeError Unit)
    (current next : RunSnapshot) : Except ForgeError Unit :=
  next.waits.toList.forM fun e =>
    match e.2.delivery with
    | none => .ok ()
    | some delivery =>
      if (current.waits[e.1]?.bind WaitRecord.delivery).isNone then
        pinReferences available next.scope delivery.command.artifacts
      else .ok ()

/-- Writes the records that do not compare equal to the current ones. -/
def writeNodes (current : BTreeMap String InvocationRecord) :
    List (String × InvocationRecord) → BTreeMap String InvocationRow →
      Except ForgeError (BTreeMap String InvocationRow)
  | [], rows => .ok rows
  | (path, record) :: rest, rows =>
    if Same .source current[path]? (some record) then writeNodes current rest rows
    else do
      let row ← Query.writeNode record cap
      writeNodes current rest (rows.insert path row)

/-- Deletes the rows of the current records that the next run no longer has. -/
def deleteNodes (next : BTreeMap String InvocationRecord) :
    List String → BTreeMap String InvocationRow → BTreeMap String InvocationRow
  | [], rows => rows
  | path :: rest, rows =>
    deleteNodes next rest (if next.contains path then rows else rows.erase path)

def commit (db : Db) (available : ArtifactRef → Except ForgeError Unit) (expected : UInt64)
    (next : RunSnapshot) : Except ForgeError Db := do
  match ← Query.run hash db next.id cap, db.runs[next.id]? with
  | some current, some old =>
    current.validateSuccessor expected next
    pinDeliveries available current next
    let row ← runRow cap next old.packageId
    ensure (old.revision = expected) conflict
    let rows ← writeNodes cap current.invocations next.invocations.toList (db.rowsOf next.id)
    let rows := deleteNodes next.invocations current.invocations.keys rows
    -- the scope and the deadline of a run are never updated
    return { db with
      runs := db.runs.insert next.id
        { row with scope := old.scope, deadlineAtMs := old.deadlineAtMs }
      invocations := db.invocations.insert next.id rows }
  | _, _ => .error (.new "not_found" "Run is unavailable")

/-! ## Replacement of one record -/

/-- What the narrow path refuses to replace. -/
def refusesNode (head : RunHead) (old : Option InvocationRecord) (expected : UInt64)
    (record : InvocationRecord) : Bool :=
  head.revision ≠ expected ∨ record.isWait ∨ old.any InvocationRecord.isWait ∨
    head.state.isTerminal ∨ old.any fun r => r.state = .succeeded ∧ ¬ Same .source r record

/-- The columns a replaced record changes. -/
def narrowRow (row : RunRow) (old : Option InvocationRecord) (record : InvocationRecord)
    (revision : UInt64) : RunRow :=
  { row with
    revision := revision
    retainedBytes := row.retainedBytes
      - (old.map InvocationRecord.retainedDataBytes).getD 0 + record.retainedDataBytes
    invocationCount := row.invocationCount + if old.isNone then 1 else 0
    unresolvedCount := row.unresolvedCount
      - (if old.any InvocationRecord.isUnresolved then 1 else 0)
      + if record.isUnresolved then 1 else 0 }

def commitNode (db : Db) (id : RunId) (expected : UInt64) (path : String)
    (record : InvocationRecord) : Except ForgeError (Db × ExecutionView) := do
  match ← Query.head db id, db.runs[id]? with
  | some head, some row =>
    let old ← Query.node db id path cap
    ensure (!refusesNode head old expected record) conflict
    match checkedAdd expected 1 with
    | none => .error conflict
    | some revision =>
      let row := narrowRow row old record revision
      storable [row.revision.toNat, row.retainedBytes, row.invocationCount, row.unresolvedCount]
      let node ← Query.writeNode record cap
      let db := { db with
        runs := db.runs.insert id row
        invocations := db.invocations.insert id ((db.rowsOf id).insert path node) }
      match ← Query.view db id (some path) cap with
      | none => .error corrupt
      | some view => return (db, view)
  | _, _ => .error (.new "not_found" "Run is unavailable")

end Store

end WorkflowForge.Sqlite
