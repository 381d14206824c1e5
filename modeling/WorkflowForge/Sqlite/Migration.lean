import WorkflowForge.Lib.Paging
import WorkflowForge.Sqlite.Query

/-!
# Migration to Checkpoint Format Three

The tables as SQLite keeps them, each row under its rowid, and the transaction that rewrites
every body of a format-2 database in format 3. The upgrade pages through the rows of each
table by rowid; for packages it inserts, repoints and deletes rows of the table it pages
through.

A new row gets the rowid after the largest one. The tables of artifacts hold no checkpoint
and are left out, and so are the connection settings and the page scan around the upgrade.
-/

namespace WorkflowForge.Sqlite.Migration

open Lib Lib.Paging

/-! ## Tables -/

abbrev Table (ρ : Type) := BTreeMap Nat ρ

structure PackageRow where
  id : String
  body : Value
deriving DecidableEq

structure StoredRun where
  id : RunId
  row : RunRow

structure StoredInvocation where
  runId : RunId
  path : String
  row : InvocationRow

/-- The rows of each table, under their rowids. -/
structure Tables where
  packages : Table PackageRow := ∅
  runs : Table StoredRun := ∅
  invocations : Table StoredInvocation := ∅
  receipts : Table ReceiptRow := ∅

/-- The largest rowid, or zero. -/
def maxRowid {ρ : Type} (table : Table ρ) : Nat :=
  (table.toList.map Prod.fst).max?.getD 0

/-- The rows of a table under a key of their own. -/
def collect {ρ κ ν : Type} [Ord κ] (entry : ρ → κ × ν) (table : Table ρ) : BTreeMap κ ν :=
  Std.ExtTreeMap.ofList ((BTreeMap.valueList table).map entry) compare

namespace Tables

/-- The tables as the queries see them, by primary key. -/
def db (t : Tables) : Db where
  runs := collect (fun r => (r.id, r.row)) t.runs
  invocations := collect (fun r => (r.id,
    collect (fun i => (i.path, i.row)) (t.invocations.filter fun _ i => i.runId = r.id))) t.runs
  packages := collect (fun p => (p.id, p.body)) t.packages
  receipts := BTreeMap.valueList t.receipts

/-- The number of rows of all tables. -/
def rows (t : Tables) : Nat :=
  t.packages.size + t.runs.size + t.invocations.size + t.receipts.size

/-! ## Statements -/

def packageBody (t : Tables) (id : String) : Option Value :=
  ((BTreeMap.valueList t.packages).find? fun p => p.id = id).map PackageRow.body

/-- Inserts a package unless its identity is taken. -/
def insertPackage (t : Tables) (id : String) (body : Value) : Tables :=
  if (t.packageBody id).isSome then t
  else { t with packages := t.packages.insert (maxRowid t.packages + 1) ⟨id, body⟩ }

/-- Points the runs of one package to another. -/
def repoint (t : Tables) (old new : String) : Tables :=
  { t with
    runs := BTreeMap.mapValues (fun r =>
      if r.row.packageId = old then { r with row := { r.row with packageId := new } } else r)
      t.runs }

/-- Deletes a package that no run refers to. -/
def deletePackage (t : Tables) (id : String) : Except ForgeError Tables := do
  ensure (!BTreeMap.any (fun _ r => r.row.packageId = id) t.runs) failed
  return { t with packages := t.packages.filter fun _ p => p.id ≠ id }

/-- The new column of runs is null in every row. -/
def addWakeup (t : Tables) : Tables :=
  { t with
    runs := BTreeMap.mapValues (fun r => { r with row := { r.row with nextWakeupAtMs := none } })
      t.runs }

/-- A waiting run wakes up at its deadline. -/
def setWakeup (t : Tables) : Tables :=
  { t with
    runs := BTreeMap.mapValues (fun r =>
      if r.row.state = "waiting" then
        { r with row := { r.row with nextWakeupAtMs := some r.row.deadlineAtMs } }
      else r) t.runs }

end Tables

/-! ## One body -/

section Body

variable {α : Type} [Serialize α] [Deserialize α]

/-- The document that replaces a body of format 2; one of format 3 is left alone. -/
def upgradeBody (cap : Nat) (edit : α → Except ForgeError α) (body : Value) :
    Except ForgeError (Option Value) := do
  let format ← version body cap
  if format = checkpointFormat then return none
  else
    ensure (format = 2) unsupported
    let value : α ← decodeVersion body cap 2
    let edited ← edit value
    let document ← encode edited cap
    return some document

end Body

section Upgrade

-- The digest of package bodies, the budget of one record, and a bound on the rounds of a loop.
variable (hash : Value → String) (cap : Nat) (fuel : Nat)

/-! ## Packages -/

/-- Puts a package under the identity of its new body. -/
def replacePackage (id : String) (upgraded : Value) (t : Tables) : Except ForgeError Tables := do
  let newId := hash upgraded
  let t := t.insertPackage newId upgraded
  ensure (t.packageBody newId = some upgraded) corrupt
  -- the new identity exists by now, so the foreign key of the runs holds
  (t.repoint id newId).deletePackage id

def upgradePackage (_rowid : Nat) (row : PackageRow) (t : Tables) : Except ForgeError Tables := do
  ensure (hash row.body = row.id) corrupt
  match ← upgradeBody (α := ResolvedPackage) cap .ok row.body with
  | none => return t
  | some upgraded => replacePackage hash row.id upgraded t

/-- The packages there are when the loop starts; the ones it inserts are past the maximum. -/
def upgradePackages (t : Tables) : ExceptT ForgeError Option Tables :=
  let maximum := maxRowid t.packages
  page (· ≤ maximum) Tables.packages (upgradePackage hash cap) fuel 0 t

/-! ## Other rows -/

/-- The column of a table that holds encoded documents. -/
structure Column (ρ : Type) where
  body : ρ → Value
  setBody : ρ → Value → ρ

def runBody : Column StoredRun where
  body r := r.row.body
  setBody r body := { r with row := { r.row with body := body } }

def invocationBody : Column StoredInvocation where
  body r := r.row.body
  setBody r body := { r with row := { r.row with body := body } }

def receiptRequest : Column ReceiptRow where
  body r := r.request
  setBody r request := { r with request := request }

section Rows

variable {ρ α : Type} [Serialize α] [Deserialize α]

def upgradeRow (column : Column ρ) (edit : α → Except ForgeError α) (rowid : Nat) (row : ρ)
    (table : Table ρ) : Except ForgeError (Table ρ) := do
  match ← upgradeBody cap edit (column.body row) with
  | none => return table
  | some document => return table.insert rowid (column.setBody row document)

def upgradeRows (column : Column ρ) (edit : α → Except ForgeError α) (table : Table ρ) :
    ExceptT ForgeError Option (Table ρ) :=
  page (fun _ => true) id (upgradeRow cap column edit) fuel 0 table

end Rows

/-- A run of format 2 has no waits. -/
def upgradeRun (run : RunSnapshot) : Except ForgeError RunSnapshot :=
  if run.checkpointFormat ≠ 2 ∨ run.waits ≠ ∅ then .error unsupported
  else .ok { run with checkpointFormat := checkpointFormat }

/-! ## The whole upgrade -/

def checkpointThree (t : Tables) : ExceptT ForgeError Option Tables := do
  let t ← upgradePackages hash cap fuel t
  let runs ← upgradeRows cap fuel runBody upgradeRun t.runs
  let invocations ← upgradeRows (α := InvocationRecord) cap fuel invocationBody .ok t.invocations
  let receipts ← upgradeRows (α := Value) cap fuel receiptRequest .ok t.receipts
  let t := { t with runs := runs, invocations := invocations, receipts := receipts }
  return t.setWakeup

/-- A database of this store, by the version of its schema. -/
structure Database where
  userVersion : Nat
  tables : Tables

def schemaVersion : Nat := 3

/-- A transaction commits what its statements leave, or leaves the database as it was. -/
def transaction (db : Database) (body : ExceptT ForgeError Option Database) :
    Option (Database × Except ForgeError Unit) :=
  body.run.map fun
    | .ok next => (next, .ok ())
    | .error e => (db, .error e)

/-- Creates the tables of a new database, or upgrades the ones there are. -/
def upgrade (db : Database) : ExceptT ForgeError Option Database := do
  let tables := if db.userVersion = 0 then {} else db.tables
  let tables ← checkpointThree hash cap fuel tables.addWakeup
  return ⟨schemaVersion, tables⟩

/-- Opens a database, with its outcome and what it leaves. -/
def schemaInitialize (db : Database) : Option (Database × Except ForgeError Unit) :=
  if db.userVersion > schemaVersion then some (db, .error unsupported)
  else if db.userVersion < schemaVersion then transaction db (upgrade hash cap fuel db)
  else some (db, .ok ())

end Upgrade

end WorkflowForge.Sqlite.Migration
