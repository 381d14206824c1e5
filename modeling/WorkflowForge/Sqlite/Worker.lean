import WorkflowForge.Store.Trait
import WorkflowForge.Sqlite.Store

/-!
# The SQLite Worker

The single owner of the connection. Every call is one transaction, refused unless its owner
is the one that claimed the store; a failing transaction is rolled back. Collection deletes
what is out of its window, with the records of the runs it deletes.

## Main definitions

- `collect`: the transaction that collects receipts, runs and packages.
- `store`: the worker as a store.
-/

namespace WorkflowForge.Sqlite

open Lib

/-! ## Collection -/

/-- The terminal runs by finish time, then by identity. -/
def finished (db : Db) : List (UInt64 × RunId) :=
  (db.runs.toList.filterMap fun e =>
    if terminalWords.contains e.2.state then e.2.finishedAtMs.map (·, e.1) else none).mergeSort
    fun a b => decide (a.1 < b.1 ∨ a.1 = b.1 ∧ a.2 ≤ b.2)

/-- The runs whose retention has ended, by count or by age. -/
def expired (db : Db) (now : UInt64) (limits : Limits) : List RunId :=
  let finished := finished db
  let excess := finished.length - limits.terminalRuns
  (finished.zipIdx.filter fun e =>
    e.2 < excess ∨ limits.retentionMs ≤ saturatingSub now e.1.1).map fun e => e.1.2

/-- Deletes runs, and with them their records. -/
def deleteRuns (db : Db) (ids : List RunId) : Db :=
  { db with
    runs := ids.foldl (fun runs id => runs.erase id) db.runs
    invocations := ids.foldl (fun rows id => rows.erase id) db.invocations }

def collect (db : Db) (now : UInt64) (limits : Limits) : Except ForgeError Db := do
  storable [now.toNat]
  let db := { db with receipts := db.receipts.filter fun r => now < r.expiresAtMs }
  let db := deleteRuns db (expired db now limits)
  return { db with
    packages := db.packages.filter fun id _ =>
      (BTreeMap.valueList db.runs).any fun row => row.packageId = id }

/-! ## The worker -/

structure Worker where
  owner : Option String := none
  db : Db := {}

namespace Worker

/-- A reading transaction of the current owner. -/
def read {α : Type} (w : Worker) (action : Db → Except ForgeError α) : Except ForgeError α :=
  if w.owner.isNone then .error conflict else action w.db

/-- A writing transaction, rolled back when it fails. -/
def write {α : Type} (w : Worker) (owner : String) (action : Db → Except ForgeError (Db × α)) :
    Worker × Except ForgeError α :=
  if w.owner ≠ some owner then (w, .error conflict)
  else
    match action w.db with
    | .error e => (w, .error e)
    | .ok (db, a) => ({ w with db := db }, .ok a)

variable {α : Type} {w w' : Worker} {owner : String}
  {action : Db → Except ForgeError (Db × α)} {a : α}

theorem write_eq_ok :
    w.write owner action = (w', .ok a) ↔
      w.owner = some owner ∧ ∃ db, action w.db = .ok (db, a) ∧ w' = { w with db := db } := by
  unfold write
  by_cases ho : w.owner = some owner
  · rw [if_neg (not_not.mpr ho)]
    rcases action w.db with e | ⟨db, b⟩
    · simp
    · simp only [Prod.mk.injEq, Except.ok.injEq, ho, true_and]
      constructor
      · rintro ⟨rfl, rfl⟩
        exact ⟨db, ⟨rfl, rfl⟩, rfl⟩
      · rintro ⟨db', ⟨rfl, rfl⟩, rfl⟩
        exact ⟨rfl, rfl⟩
  · rw [if_pos ho]
    simp [ho]

theorem write_foreign (h : w.owner ≠ some owner) : w.write owner action = (w, .error conflict) := by
  unfold write
  rw [if_pos h]

theorem write_of_ok {db : Db} (h : w.owner = some owner) (ha : action w.db = .ok (db, a)) :
    w.write owner action = ({ w with db := db }, .ok a) :=
  write_eq_ok.mpr ⟨h, db, ha, rfl⟩

theorem write_of_error {e : ForgeError} (h : w.owner = some owner)
    (ha : action w.db = .error e) : w.write owner action = (w, .error e) := by
  unfold write
  rw [if_neg (not_not.mpr h), ha]

/-- A refused call changes nothing. -/
theorem write_eq_error {e : ForgeError} (h : w.write owner action = (w', .error e)) :
    w' = w ∧ (w.owner = some owner → action w.db = .error e) := by
  unfold write at h
  split at h
  next ho =>
    obtain ⟨rfl, _⟩ := Prod.mk.inj h
    exact ⟨rfl, fun hc => absurd hc ho⟩
  next =>
    split at h
    next e' he =>
      obtain ⟨rfl, heq⟩ := Prod.mk.inj h
      exact ⟨rfl, fun _ => by rw [he, Except.error.inj heq]⟩
    next => nomatch (Prod.mk.inj h).2

end Worker

/-! ## The store -/

section Store

-- The digest of package bodies, the budget of one record, and which artifacts can be pinned.
variable (hash : Value → String) (cap : Nat)
  (available : ArtifactRef → Except ForgeError Unit)

/-- The runs of a list, each of which must be there. -/
def readAll {α : Type} (query : RunId → Except ForgeError (Option α)) :
    List RunId → Except ForgeError (List α)
  | [] => .ok []
  | id :: ids => do
    let found ← query id
    match found with
    | none => .error corrupt
    | some value => return value :: (← readAll query ids)

/-- The worker as a store. -/
def store : ExecutionStore Worker where
  create w owner run receipt limits :=
    w.write owner fun db => create hash cap db available run receipt limits
  get w id := w.read fun db => Query.run hash db id cap
  view w id node := w.read fun db => Query.view db id node cap
  unfinished w :=
    w.read fun db => readAll (fun id => Query.run hash db id cap) (Query.unfinished db)
  unfinishedHeads w := w.read fun db => readAll (Query.head db) (Query.unfinished db)
  commit w owner expected next :=
    w.write owner fun db => (commit hash cap db available expected next).map (·, ())
  commitInvocation w owner id expected node record :=
    w.write owner fun db => commitNode cap db id expected node record
  collect w owner now limits := w.write owner fun db => (collect db now limits).map (·, ())

end Store

end WorkflowForge.Sqlite
