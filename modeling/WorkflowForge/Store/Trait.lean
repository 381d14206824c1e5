import WorkflowForge.Store.Memory

/-!
# The Store Trait

The calls of an execution store, as functions of its state. A provider implements them; the
replacement of one record and the view of a node have an implementation by the others,
which a provider may override.

## Main definitions

- `ExecutionStore`: the calls of a provider.
- `ExecutionStore.reference`: the calls the trait implements itself.
-/

namespace WorkflowForge

open Lib

/-- The calls of a store whose states are `S`. A reading call leaves the state alone. -/
structure ExecutionStore (S : Type) where
  create : S → String → RunSnapshot → Option ReceiptReservation → Limits →
    S × Except ForgeError CreateOutcome
  get : S → RunId → Except ForgeError (Option RunSnapshot)
  view : S → RunId → Option String → Except ForgeError (Option ExecutionView)
  unfinished : S → Except ForgeError (List RunSnapshot)
  unfinishedHeads : S → Except ForgeError (List RunHead)
  commit : S → String → UInt64 → RunSnapshot → S × Except ForgeError Unit
  commitInvocation : S → String → RunId → UInt64 → String → InvocationRecord →
    S × Except ForgeError ExecutionView
  collect : S → String → UInt64 → Limits → S × Except ForgeError Unit

namespace ExecutionStore

/-! ## What the trait implements itself -/

variable {S : Type}

/-- What the replacement of one record refuses. -/
def refusesRecord (run : RunSnapshot) (expected : UInt64) (record : InvocationRecord)
    (old : Option InvocationRecord) : Bool :=
  run.revision ≠ expected ∨ record.isWait ∨ old.any InvocationRecord.isWait ∨
    run.state.isTerminal ∨
    old.any fun old => old.state = .succeeded ∧ ¬ Same .source old record

/-- Replaces one record by a full commit. -/
def replaceByCommit (store : ExecutionStore S) (s : S) (owner : String) (id : RunId)
    (expected : UInt64) (node : String) (record : InvocationRecord) :
    S × Except ForgeError ExecutionView :=
  match store.get s id with
  | .error e => (s, .error e)
  | .ok none => (s, .error (.new "not_found" "Run is unavailable"))
  | .ok (some run) =>
    if refusesRecord run expected record run.invocations[node]? then
      (s, .error (.new "state.conflict"
        "Invocation replacement does not match the committed revision"))
    else
      match checkedAdd expected 1 with
      | none => (s, .error (.new "state.conflict" "Revision exhausted"))
      | some revision =>
        let run := run.insertRecord node record revision
        let view := run.view (some node)
        match store.commit s owner expected run with
        | (s, .error e) => (s, .error e)
        | (s, .ok ()) => (s, .ok view)

/-- A provider with the trait's own implementations. -/
def reference (store : ExecutionStore S) : ExecutionStore S :=
  { store with
    view := fun s id node => (store.get s id).map fun run => run.map fun run => run.view node
    unfinishedHeads := fun s => (store.unfinished s).map fun runs => runs.map RunSnapshot.head
    commitInvocation := store.replaceByCommit }

/-! ## Calls as data -/

/-- A call of a store. -/
inductive Call where
  | create (owner : String) (run : RunSnapshot) (receipt : Option ReceiptReservation)
      (limits : Limits)
  | get (id : RunId)
  | view (id : RunId) (node : Option String)
  | unfinished
  | unfinishedHeads
  | commit (owner : String) (expected : UInt64) (next : RunSnapshot)
  | commitInvocation (owner : String) (id : RunId) (expected : UInt64) (node : String)
      (record : InvocationRecord)
  | collect (owner : String) (now : UInt64) (limits : Limits)

inductive Answer where
  | created (outcome : CreateOutcome)
  | run (run : Option RunSnapshot)
  | view (view : Option ExecutionView)
  | runs (runs : List RunSnapshot)
  | heads (heads : List RunHead)
  | replaced (view : ExecutionView)
  | done
deriving DecidableEq

def perform (store : ExecutionStore S) (s : S) : Call → S × Except ForgeError Answer
  | .create owner run receipt limits =>
    ((store.create s owner run receipt limits).1,
      (store.create s owner run receipt limits).2.map .created)
  | .get id => (s, (store.get s id).map .run)
  | .view id node => (s, (store.view s id node).map .view)
  | .unfinished => (s, (store.unfinished s).map .runs)
  | .unfinishedHeads => (s, (store.unfinishedHeads s).map .heads)
  | .commit owner expected next =>
    ((store.commit s owner expected next).1,
      (store.commit s owner expected next).2.map fun _ => .done)
  | .commitInvocation owner id expected node record =>
    ((store.commitInvocation s owner id expected node record).1,
      (store.commitInvocation s owner id expected node record).2.map .replaced)
  | .collect owner now limits =>
    ((store.collect s owner now limits).1, (store.collect s owner now limits).2.map fun _ => .done)

/-- The time a call brings along, if it reads the clock. -/
def Call.time : Call → Option UInt64
  | .create _ run _ _ => some run.createdAtMs
  | .collect _ now _ => some now
  | _ => none

end ExecutionStore

/-- The memory store is a store. -/
def MemoryExecutionStore.store : ExecutionStore MemoryExecutionStore.State where
  create := State.create
  get s id := .ok (s.get id)
  view s id node := .ok (s.view id node)
  unfinished s := .ok s.unfinished
  unfinishedHeads s := .ok s.unfinishedHeads
  commit := State.commit
  commitInvocation := State.commitInvocation
  collect := State.collect

end WorkflowForge
