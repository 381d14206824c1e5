import WorkflowForge.Lib.Word
import WorkflowForge.Sqlite.Codec

/-!
# Rows and Queries

The tables of the SQLite store, and the queries that rebuild a record, a head, a view or a
whole run from them. A reader recomputes the columns from the body it decoded and reports
`store.corrupt` when they differ.

The rows of a run's records are kept under the run, which is what the foreign key with its
cascade does. Text is ordered by its code points, as in a binary collation.
-/

namespace WorkflowForge.Sqlite

open Lib

/-! ## Tables -/

structure RunRow where
  scope : String
  revision : UInt64
  state : String
  cancelRequested : Bool
  deadlineAtMs : UInt64
  finishedAtMs : Option UInt64
  retainedBytes : Nat
  invocationCount : Nat
  unresolvedCount : Nat
  packageId : String
  body : Value
  nextWakeupAtMs : Option UInt64

structure InvocationRow where
  retainedBytes : Nat
  unresolved : Bool
  body : Value
deriving DecidableEq

structure ReceiptRow where
  scope : String
  receiptKey : String
  runId : RunId
  expiresAtMs : UInt64
  request : Value

structure Db where
  runs : BTreeMap RunId RunRow := ∅
  invocations : BTreeMap RunId (BTreeMap String InvocationRow) := ∅
  packages : BTreeMap String Value := ∅
  receipts : List ReceiptRow := []

/-- The record rows of a run. -/
def Db.rowsOf (db : Db) (id : RunId) : BTreeMap String InvocationRow :=
  db.invocations[id]?.getD ∅

/-- Integer columns are signed 64-bit: a larger value is refused before the statement runs. -/
def storable (columns : List Nat) : Except ForgeError Unit :=
  if columns.all (· < 2 ^ 63) then .ok () else .error failed

theorem storable_eq_ok {columns : List Nat} :
    storable columns = .ok () ↔ ∀ n ∈ columns, n < 2 ^ 63 := by
  unfold storable
  split
  next h => exact ⟨fun _ n hn => of_decide_eq_true (List.all_eq_true.mp h n hn), fun _ => rfl⟩
  next h =>
    refine ⟨nofun, fun hall => absurd (List.all_eq_true.mpr fun n hn => ?_) h⟩
    exact decide_eq_true (hall n hn)

/-- The words of the terminal states. -/
def terminalWords : List String := ["succeeded", "failed", "cancelled"]

/-! ## Queries -/

namespace Query

/-- A run's head, from its columns alone. -/
def headOf (id : RunId) (row : RunRow) : Except ForgeError RunHead :=
  match RunState.parse row.state with
  | none => .error corrupt
  | some state => .ok {
      nextWakeupAtMs := row.nextWakeupAtMs
      id := id
      scope := row.scope
      revision := row.revision
      state := state
      cancelRequested := row.cancelRequested
      deadlineAtMs := row.deadlineAtMs
      invocationCount := row.invocationCount
      retainedDataBytes := row.retainedBytes
      unresolvedInvocations := row.unresolvedCount }

def head (db : Db) (id : RunId) : Except ForgeError (Option RunHead) :=
  match db.runs[id]? with
  | none => .ok none
  | some row => (headOf id row).map some

/-- A record, with its columns recomputed from the decoded body. -/
def readRow (row : InvocationRow) (limit : Nat) : Except ForgeError InvocationRecord := do
  let record : InvocationRecord ← decode row.body limit
  ensure (record.retainedDataBytes = row.retainedBytes ∧ record.isUnresolved = row.unresolved)
    corrupt
  return record

def node (db : Db) (id : RunId) (path : String) (limit : Nat) :
    Except ForgeError (Option InvocationRecord) :=
  match (db.rowsOf id)[path]? with
  | none => .ok none
  | some row => (readRow row limit).map some

/-- Some row below `path` is marked unresolved. Every descendant of a path starts with a
slash, whose successor is the digit zero. -/
def unresolvedBelow (rows : BTreeMap String InvocationRow) (path : String) : Bool :=
  BTreeMap.any (fun key row => row.unresolved ∧ path ++ "/" ≤ key ∧ key < path ++ "0") rows

def view (db : Db) (id : RunId) (path : Option String) (limit : Nat) :
    Except ForgeError (Option ExecutionView) := do
  match ← head db id with
  | none => return none
  | some head =>
    match path with
    | some path =>
      return some ⟨head, ← node db id path limit, unresolvedBelow (db.rowsOf id) path⟩
    | none => return some ⟨head, none, head.unresolvedInvocations ≠ 0⟩

/-- The records of a run, row by row in path order. -/
def readRows (limit : Nat) (rows : List (String × InvocationRow))
    (records : BTreeMap String InvocationRecord) :
    Except ForgeError (BTreeMap String InvocationRecord) :=
  match rows with
  | [] => .ok records
  | (path, row) :: rows => do
    let record ← readRow row limit
    readRows limit rows (records.insert path record)

/-- The header body agrees with the columns, and holds no records and no package. -/
def headerAgrees (run : RunSnapshot) (head : RunHead) (finished : Option UInt64) : Bool :=
  run.id = head.id ∧ run.scope = head.scope ∧ run.state = head.state ∧
    run.cancelRequested = head.cancelRequested ∧ run.deadlineAtMs = head.deadlineAtMs ∧
    run.finishedAtMs = finished ∧ run.revision ≤ head.revision ∧ run.invocations = ∅ ∧
    run.package = {}

section Run

-- The digest of a package body names its row.
variable (hash : Value → String)

/-- The package a run refers to. -/
def package (db : Db) (id : String) (limit : Nat) : Except ForgeError ResolvedPackage :=
  match db.packages[id]? with
  | none => .error failed
  | some body => if hash body ≠ id then .error corrupt else decode body limit

/-- A whole run, rebuilt from its header, its package and its records. -/
def run (db : Db) (id : RunId) (limit : Nat) : Except ForgeError (Option RunSnapshot) :=
  match db.runs[id]? with
  | none => .ok none
  | some row => do
    let head ← headOf id row
    let run : RunSnapshot ← decode row.body limit
    ensure (run.checkpointFormat = checkpointFormat) unsupported
    ensure (headerAgrees run head row.finishedAtMs) corrupt
    let package ← package hash db row.packageId limit
    let records ← readRows limit (db.rowsOf id).toList ∅
    let run := { run with
      package := package, revision := head.revision, invocations := records }
    ensure (run.head = head) corrupt
    return some run

end Run

/-- The runs that are not terminal, in the order of their identities. -/
def unfinished (db : Db) : List RunId :=
  (db.runs.toList.filter fun e =>
    !terminalWords.contains e.2.state).map Prod.fst

/-- A run without its records and its package. -/
def header (run : RunSnapshot) : RunSnapshot :=
  { run with invocations := ∅, package := {} }

def headerBody (run : RunSnapshot) (limit : Nat) : Except ForgeError Value :=
  encode (header run) limit

/-- The row of a record. -/
def writeNode (record : InvocationRecord) (limit : Nat) : Except ForgeError InvocationRow := do
  let body ← encode record limit
  storable [record.retainedDataBytes]
  return ⟨record.retainedDataBytes, record.isUnresolved, body⟩

end Query

end WorkflowForge.Sqlite
