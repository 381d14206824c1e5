import WorkflowForge.Engine.Steps

/-!
# Control Steps

The record of a control node: its activation, the durable progress of its frame, and how it
ends. A group that stops closes, in the same commit, every wait that is still open below it.

## Main results

- `activate_eq_some`, `updateFrame_eq_some`, `completeControl_eq_some`,
  `failControl_eq_some`: what each transition of a control record changes.
- `stopGroup_eq_some`: what the stop of a group changes.
-/

namespace WorkflowForge

open Lib

/-! ## Replacing one entry of a run -/

namespace RunSnapshot

/-- The run with the record of one node replaced. -/
def setRecord (s : RunSnapshot) (node : String) (record : InvocationRecord) : RunSnapshot :=
  { s with invocations := s.invocations.insert node record }

/-- The run with one wait replaced. -/
def setWait (s : RunSnapshot) (id : String) (wait : WaitRecord) : RunSnapshot :=
  { s with waits := s.waits.insert id wait }

variable {s : RunSnapshot} {node id : String} {record : InvocationRecord} {wait : WaitRecord}

@[simp] theorem setRecord_waits : (s.setRecord node record).waits = s.waits := rfl

@[simp] theorem setWait_invocations : (s.setWait id wait).invocations = s.invocations := rfl

@[simp] theorem setWait_state : (s.setWait id wait).state = s.state := rfl

@[simp] theorem setRecord_state : (s.setRecord node record).state = s.state := rfl

theorem setRecord_get (key : String) :
    (s.setRecord node record).invocations[key]? =
      if node = key then some record else s.invocations[key]? :=
  BTreeMap.get_insert s.invocations node key record

theorem setWait_get (key : String) :
    (s.setWait id wait).waits[key]? = if id = key then some wait else s.waits[key]? :=
  BTreeMap.get_insert s.waits id key wait

end RunSnapshot

namespace Engine

/-! ## Activation and outcome -/

/-- The code expects an entry it has committed before; without it the task would be lost. -/
def taskLost : ForgeError :=
  .new "runtime.failed" "Execution supervisor lost a task"

def activationUnavailable : ForgeError :=
  .new "state.conflict" "Control activation is unavailable"

/-- The record of a node that no worker calls: a control node, or a wait. -/
def controlRecord (logical : String) (state : InvocationState) (input : Value)
    (frame : ControlFrame) : InvocationRecord where
  id := logical
  attemptId := ""
  attempts := 0
  state := state
  input := input
  output := none
  error := none
  control := some frame

/-- The first worker that comes to a control node commits its record. -/
def activate (logical : String) (input : Value) (frame : ControlFrame) : NodeEdit :=
  fun _ current =>
    match current with
    | some _ => .ok none
    | none => .ok (some (controlRecord logical .running input frame))

/-- Saves the progress of a control node. -/
def updateFrame (frame : ControlFrame) : NodeEdit :=
  fun _ current =>
    match current with
    | none => .error activationUnavailable
    | some record => .ok (some { record with control := some frame })

/-- The record of a control node that returned a value. -/
def completedRecord (value : Value) (record : InvocationRecord) : InvocationRecord :=
  { record with state := .succeeded, output := some value, input := .null, error := none }

def completeControl (value : Value) : NodeEdit :=
  fun _ current =>
    match current with
    | none => .error taskLost
    | some record => .ok (some (completedRecord value record))

/-- The state an error leaves a record without an operation in. An unknown effect below it
keeps it open. -/
def erroredState (error : ForgeError) : InvocationState :=
  if error.code = "effect.unknown" then .pending
  else if error.code = "operation.cancelled" then .cancelled
  else .failed

/-- The record of a node that returned an error. -/
def erroredRecord (error : ForgeError) (record : InvocationRecord) : InvocationRecord :=
  { record with state := erroredState error, error := some error }

def failControl (error : ForgeError) : NodeEdit :=
  fun _ current =>
    match current with
    | none => .error taskLost
    | some record => .ok (some (erroredRecord error record))

theorem erroredState_ne_succeeded (error : ForgeError) : erroredState error ≠ .succeeded := by
  unfold erroredState
  split
  · simp
  · split <;> simp

theorem erroredState_ne_unknown (error : ForgeError) : erroredState error ≠ .unknown := by
  unfold erroredState
  split
  · simp
  · split <;> simp

section

variable {run : RunHead} {current : Option InvocationRecord} {record : InvocationRecord}

theorem activate_eq_some {logical : String} {input : Value} {frame : ControlFrame}
    (h : activate logical input frame run current = .ok (some record)) :
    current = none ∧ record = controlRecord logical .running input frame := by
  cases current with
  | some r => nomatch h
  | none => exact ⟨rfl, by simpa [activate] using h.symm⟩

theorem updateFrame_eq_some {frame : ControlFrame}
    (h : updateFrame frame run current = .ok (some record)) :
    ∃ old, current = some old ∧ record = { old with control := some frame } := by
  cases current with
  | none => nomatch h
  | some old => exact ⟨old, rfl, by simpa [updateFrame] using h.symm⟩

theorem completeControl_eq_some {value : Value}
    (h : completeControl value run current = .ok (some record)) :
    ∃ old, current = some old ∧ record = completedRecord value old := by
  cases current with
  | none => nomatch h
  | some old => exact ⟨old, rfl, by simpa [completeControl] using h.symm⟩

theorem failControl_eq_some {error : ForgeError}
    (h : failControl error run current = .ok (some record)) :
    ∃ old, current = some old ∧ record = erroredRecord error old := by
  cases current with
  | none => nomatch h
  | some old => exact ⟨old, rfl, by simpa [failControl] using h.symm⟩

end

/-! ## Groups -/

/-- The frame of a parallel or foreach node. -/
def isGroup : ControlFrame → Bool
  | .parallel .. | .foreach .. => true
  | _ => false

/-- What a group frame saves: the next child, whether it was stopped, and why. -/
def saved : ControlFrame → Option (Nat × Bool × Option ForgeError)
  | .parallel _ next stopped error => some (next, stopped, error)
  | .foreach _ next stopped error => some (next, stopped, error)
  | _ => none

/-- Moves a group frame on; the first reason to stop is kept. -/
def progress (frame : ControlFrame) (next : Nat) (stop : Option ForgeError) : ControlFrame :=
  match frame with
  | .parallel branches cursor stopped error =>
    .parallel branches (max cursor next) (stopped || stop.isSome) (error <|> stop)
  | .foreach total cursor stopped error =>
    .foreach total (max cursor next) (stopped || stop.isSome) (error <|> stop)
  | other => other

def groupStopExceeded : ForgeError :=
  .new "resource.limit" "Group stop exceeds the run retention budget"

/-- Closes a wait that is still open below a prefix of keys. -/
def closeBelow (pre : String) (wait : WaitRecord) : WaitRecord :=
  if wait.state = .open ∧ startsWith wait.node pre then { wait with state := .closed } else wait

/-- The run after a group was stopped. -/
def stoppedRun (key : String) (frame : ControlFrame) (record : InvocationRecord)
    (run : RunSnapshot) : RunSnapshot :=
  { run.setRecord key { record with control := some frame } with
    waits := BTreeMap.mapValues (closeBelow (key ++ "/")) run.waits }

/-- Saves the stop marker of a group. A suspended child has no worker left to observe the
cancellation, so its waits are closed here. -/
def stopGroup (limits : Limits) (key : String) (frame : ControlFrame) (run : RunSnapshot) :
    Except ForgeError (Option RunSnapshot) :=
  match run.invocations[key]? with
  | none => .error activationUnavailable
  | some record =>
    let next := stoppedRun key frame record run
    if limits.runBytes < next.retainedDataBytes then .error groupStopExceeded
    else .ok (some next)

theorem stopGroup_eq_some {limits : Limits} {key : String} {frame : ControlFrame}
    {run next : RunSnapshot} (h : stopGroup limits key frame run = .ok (some next)) :
    ∃ record, run.invocations[key]? = some record ∧ next = stoppedRun key frame record run ∧
      next.retainedDataBytes ≤ limits.runBytes := by
  unfold stopGroup at h
  split at h
  · nomatch h
  next record hr =>
    dsimp only at h
    split at h
    · nomatch h
    next hb =>
      obtain rfl : stoppedRun key frame record run = next := by simpa using h
      exact ⟨record, hr, rfl, Nat.not_lt.mp hb⟩

end Engine

end WorkflowForge
