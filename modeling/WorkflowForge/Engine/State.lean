import WorkflowForge.Lib.Except
import WorkflowForge.Protocol.Limits
import WorkflowForge.Protocol.Checkpoint

/-!
# State Updates

Every change of a run is decided on what was read at one revision and is committed only if
that revision is still current. An update is the function of what was read: it answers the
replacement, or declines, or fails. The loop around it reads again when another commit came
in between, so what is committed was decided on the snapshot it replaces.

## Main results

- `updateNode_eq_some`: what the replacement of one record respects.
- `updateWithView_eq_some`: what the replacement of a run respects.
-/

namespace WorkflowForge

open Lib

/-- The same run at another revision. -/
def RunSnapshot.atRevision (s : RunSnapshot) (revision : UInt64) : RunSnapshot :=
  { s with revision := revision }

namespace Engine

/-! ## Failures the engine reports itself -/

def unknownError : ForgeError :=
  .new "effect.unknown" "An effect needs authoritative resolution before continuation"

/-- A failure in the form an operation would have reported it. -/
def operationFailure (code : String) (class_ : ErrorClass) (certainty : EffectCertainty)
    (message : String) : ForgeError where
  diagnostics :=
    [{ Diagnostic.new code message with
        operationError := some ⟨code, class_, certainty, message⟩ }]

def activationsExhausted : ForgeError :=
  .new "resource.limit" "Run activation budget is exhausted"

def retentionExceeded : ForgeError :=
  .new "resource.limit" "Node transition exceeds run retention budget"

def revisionExhausted : ForgeError :=
  .new "state.conflict" "Revision exhausted"

/-! ## One record -/

/-- A change of one record, decided on the head of its run; `none` declines. -/
abbrev NodeEdit := RunHead → Option InvocationRecord → Except ForgeError (Option InvocationRecord)

/-- The retained bytes of a run after one of its records was replaced. -/
def bytesAfter (view : ExecutionView) (record : InvocationRecord) : Nat :=
  view.head.retainedDataBytes
    - (view.invocation.map InvocationRecord.retainedDataBytes).getD 0
    + record.retainedDataBytes

/-- Decides the replacement of one record. Only the payload of the node is read. -/
def updateNode (limits : Limits) (checkBudget : Bool) (edit : NodeEdit) (view : ExecutionView) :
    Except ForgeError (Option InvocationRecord) :=
  if view.head.state.isTerminal then .ok none
  else
    match edit view.head view.invocation with
    | .error e => .error e
    | .ok none => .ok none
    | .ok (some record) =>
      if view.invocation.isNone ∧ limits.activations ≤ view.head.invocationCount then
        .error activationsExhausted
      else if checkBudget ∧ limits.runBytes < bytesAfter view record then
        .error retentionExceeded
      else .ok (some record)

variable {limits : Limits} {checkBudget : Bool} {edit : NodeEdit} {view : ExecutionView}
  {record : InvocationRecord}

/-- A record is replaced only in a live run and within the budgets that are checked. -/
theorem updateNode_eq_some (h : updateNode limits checkBudget edit view = .ok (some record)) :
    view.head.state.isTerminal = false ∧ edit view.head view.invocation = .ok (some record) ∧
      (view.invocation = none → view.head.invocationCount < limits.activations) ∧
      (checkBudget = true → bytesAfter view record ≤ limits.runBytes) := by
  unfold updateNode at h
  split at h
  · nomatch h
  next hlive =>
    split at h
    · nomatch h
    · nomatch h
    -- the edit wants a record, within the counts and the bytes
    next r he =>
      split at h
      · nomatch h
      next hcount =>
        split at h
        · nomatch h
        next hbytes =>
          obtain rfl : r = record := by simpa using h
          refine ⟨by simpa using hlive, he, ?_, ?_⟩
          · intro hnone
            simpa [hnone] using hcount
          · intro hcheck
            simpa [hcheck] using hbytes

/-! ## The whole run -/

/-- A change of a run, decided on its snapshot and its head; `none` declines. -/
abbrev RunEdit := RunSnapshot → RunHead → Except ForgeError (Option RunSnapshot)

/-- Decides the replacement of a run at its next revision. -/
def updateWithView (allowTerminalAudit : Bool) (edit : RunEdit) (run : RunSnapshot) :
    Except ForgeError (Option RunSnapshot) :=
  if run.state.isTerminal ∧ ¬allowTerminalAudit then .ok none
  else
    match edit run run.head with
    | .error e => .error e
    | .ok none => .ok none
    | .ok (some next) =>
      match checkedAdd run.revision 1 with
      | none => .error revisionExhausted
      | some revision => .ok (some (next.atRevision revision))

/-- The change can decline a stale completion or reject a quota at once. -/
def update (allowTerminalAudit : Bool)
    (edit : RunSnapshot → Except ForgeError (Option RunSnapshot)) (run : RunSnapshot) :
    Except ForgeError (Option RunSnapshot) :=
  updateWithView allowTerminalAudit (fun run _ => edit run) run

/-- A change that neither declines nor fails. -/
def transition (edit : RunSnapshot → RunSnapshot) (run : RunSnapshot) :
    Except ForgeError (Option RunSnapshot) :=
  update false (fun run => .ok (some (edit run))) run

variable {allow : Bool} {runEdit : RunEdit} {run next : RunSnapshot}

/-- A run is replaced only while it is live, unless its audit alone may grow. -/
theorem updateWithView_eq_some (h : updateWithView allow runEdit run = .ok (some next)) :
    (allow = false → run.state.isTerminal = false) ∧
      ∃ edited revision, runEdit run run.head = .ok (some edited) ∧
        checkedAdd run.revision 1 = some revision ∧
        next = edited.atRevision revision := by
  unfold updateWithView at h
  split at h
  · nomatch h
  next hlive =>
    refine ⟨fun ha => by simpa [ha] using hlive, ?_⟩
    split at h
    · nomatch h
    · nomatch h
    next edited he =>
      split at h
      · nomatch h
      next revision hrev =>
        exact ⟨edited, revision, he, hrev, by simpa using h.symm⟩

theorem update_eq_some {runEdit : RunSnapshot → Except ForgeError (Option RunSnapshot)}
    (h : update allow runEdit run = .ok (some next)) :
    (allow = false → run.state.isTerminal = false) ∧
      ∃ edited revision, runEdit run = .ok (some edited) ∧
        checkedAdd run.revision 1 = some revision ∧
        next = edited.atRevision revision :=
  updateWithView_eq_some h

theorem transition_eq_some {runEdit : RunSnapshot → RunSnapshot}
    (h : transition runEdit run = .ok (some next)) :
    run.state.isTerminal = false ∧
      ∃ revision, checkedAdd run.revision 1 = some revision ∧
        next = (runEdit run).atRevision revision := by
  obtain ⟨hlive, edited, revision, he, hrev, rfl⟩ := update_eq_some h
  obtain rfl : runEdit run = edited := by simpa using he
  exact ⟨hlive rfl, revision, hrev, rfl⟩

end Engine

end WorkflowForge
