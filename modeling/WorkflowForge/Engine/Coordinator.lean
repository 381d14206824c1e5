import WorkflowForge.Engine.Reconcile
import WorkflowForge.Engine.Waits

/-!
# Run Steps

The transitions of a run as a whole: taken up by the supervisor, suspended, ended with an
output or with an error, blocked where it cannot be recovered, and cancelled from outside.
A run that ends with an error is blocked instead while an effect may still be uncertain.

## Main results

- `finishError_blocked`, `finishError_ended`: the two ways a run is left by an error.
- `outcome_isTerminal`: a run that returned a value is over.
-/

namespace WorkflowForge.Engine

open Lib

/-! ## Supervision -/

/-- Whether the supervisor takes a run up at time `now`. -/
def runnable (run : RunHead) (now : UInt64) : Bool :=
  run.state = .accepted ∨ run.state = .running ∨ run.state = .cancelling ∨
    (run.state = .waiting ∧ run.nextWakeupAtMs.getD run.deadlineAtMs ≤ now)

/-- A cancelled run keeps its state while it is taken up. -/
def beginRun (run : RunSnapshot) : RunSnapshot :=
  if run.cancelRequested then run else { run with state := .running }

def suspendRun (run : RunSnapshot) : RunSnapshot :=
  if run.cancelRequested then run else { run with state := .waiting }

/-- A run whose plan cannot be recovered. -/
def blockRun (error : ForgeError) (run : RunSnapshot) : RunSnapshot :=
  { run with state := .blocked, error := some error }

/-! ## Outcomes -/

/-- An invocation that did not succeed becomes unknown unless it was not applied. -/
def markUnknown (record : InvocationRecord) : InvocationRecord :=
  if record.state ≠ .succeeded ∧ record.certainty ≠ .notApplied then
    { record with state := .unknown }
  else record

/-- The run with every uncertain record marked. -/
def markedRun (run : RunSnapshot) : RunSnapshot :=
  { run with invocations := BTreeMap.mapValues markUnknown run.invocations }

/-- The run ended by an error. -/
def endedByError (error : ForgeError) (cancelled : Bool) (now : UInt64) (run : RunSnapshot) :
    RunSnapshot :=
  { run.closeWaits with
    state := if cancelled then .cancelled else .failed
    error := some error
    finishedAtMs := some now }

/-- The run blocked by an uncertain effect. -/
def blockedByEffect (run : RunSnapshot) : RunSnapshot :=
  { run with state := .blocked, error := some unknownError, finishedAtMs := none }

/-- Ends a run with an error, or blocks it while an effect is uncertain. -/
def finishError (error : ForgeError) (cancelled : Bool) (now : UInt64) (run : RunSnapshot) :
    RunSnapshot :=
  let run := markedRun run
  if awaitsResolution run.invocations then blockedByEffect run
  else endedByError error cancelled now run

def runCancelled : ForgeError :=
  .new "operation.cancelled" "Run was cancelled"

def finalResultExceeded : ForgeError :=
  .new "resource.limit" "Final result exceeds the run retention budget"

/-- The end of a run that returned a value. -/
structure Outcome where
  state : RunState
  output : Option Value
  error : Option ForgeError

def outcome (limits : Limits) (value : Value) (now : UInt64) (cancelled : Bool)
    (run : RunSnapshot) (head : RunHead) : Outcome :=
  if run.cancelRequested ∨ cancelled then ⟨.cancelled, run.output, some runCancelled⟩
  else if run.deadlineAtMs ≤ now then ⟨.failed, run.output, some deadlineReached⟩
  else if limits.runBytes < head.retainedDataBytes + jsonBytes value then
    ⟨.failed, run.output, some finalResultExceeded⟩
  else ⟨.succeeded, some value, none⟩

/-- The run with its outcome. -/
def endedWith (o : Outcome) (now : UInt64) (run : RunSnapshot) : RunSnapshot :=
  { run.closeWaits with
    state := o.state, output := o.output, error := o.error, finishedAtMs := some now }

/-- Ends a run that returned a value. The clock is read twice. -/
def completeRun (limits : Limits) (value : Value) (now later : UInt64) (cancelled : Bool) :
    RunEdit :=
  fun run head => .ok (some (endedWith (outcome limits value now cancelled run head) later run))

/-! ## Commands -/

/-- Requests the cancellation of a run. -/
def cancelRun (run : RunSnapshot) : RunSnapshot :=
  { run.closeWaits with cancelRequested := true, state := .cancelling }

def cancel (run : RunSnapshot) : Except ForgeError (Option RunSnapshot) :=
  if run.state.isTerminal then .ok none else .ok (some (cancelRun run))

/-- What is kept of an answer that came after its attempt was given up. -/
def lateObservation (limits : Limits) (effect : EffectKind) (record attempt : String)
    (answer : Answer) (now : UInt64) : LateObservation :=
  match invoke effect answer with
  | .error error => ⟨record, attempt, now, none, some error⟩
  | .ok value =>
    match checkValue value limits.evidenceBytes limits.jsonDepth with
    | .ok _ => ⟨record, attempt, now, some value, none⟩
    | .error error => ⟨record, attempt, now, none, some error⟩

/-- Adds a late observation to the audit while there is room for it. -/
def observeLate (limits : Limits) (entry : AuditEntry) (run : RunSnapshot) :
    Except ForgeError (Option RunSnapshot) :=
  if limits.auditEntries ≤ run.audit.length ∨
      limits.runBytes < run.retainedDataBytes + jsonBytes entry then .ok none
  else .ok (some { run with audit := run.audit ++ [entry] })

/-! ## Recovery -/

/-- The run was blocked only because it could not be recovered. -/
def recoveryBlocked (run : RunSnapshot) : Bool :=
  run.state = .blocked ∧ run.error.any fun e => e.code = "recovery.unavailable"

/-- The run once it can be recovered again. -/
def recoveredRun (run : RunSnapshot) : RunSnapshot :=
  { run with state := if run.cancelRequested then .cancelling else .running, error := none }

/-- The attempts a crash left behind: they may have reached their destination. -/
def unfinishedAttempts (run : RunSnapshot) : List (String × InvocationRecord) :=
  run.invocations.toList.filter fun e => e.2.state = .running

/-- The report of an attempt found at boot. -/
def recovered (effect : EffectKind) (cancelled : Bool) : FailureReport :=
  interrupted effect "An unconfirmed attempt was recovered" cancelled

/-! ## What an ended run looks like -/

section

variable {run : RunSnapshot} {error : ForgeError} {cancelled : Bool} {now later : UInt64}

theorem awaitsResolution_iff {records : BTreeMap String InvocationRecord} :
    awaitsResolution records = true ↔
      ∃ (key : String) (r : InvocationRecord), records[key]? = some r ∧ r.state = .unknown := by
  simp [awaitsResolution, BTreeMap.any_iff]

theorem markedRun_get {key : String} {r : InvocationRecord}
    (h : (markedRun run).invocations[key]? = some r) :
    ∃ old, run.invocations[key]? = some old ∧ r = markUnknown old := by
  simp only [markedRun, BTreeMap.get_mapValues, Option.map_eq_some_iff] at h
  obtain ⟨old, hold, rfl⟩ := h
  exact ⟨old, hold, rfl⟩

/-- The marked record of an invocation that did not succeed is unknown or was not applied. -/
theorem markUnknown_cases (record : InvocationRecord) :
    (record.state = .succeeded ∧ markUnknown record = record) ∨
      (record.certainty = .notApplied ∧ markUnknown record = record) ∨
      (record.state ≠ .succeeded ∧ record.certainty ≠ .notApplied ∧
        markUnknown record = { record with state := .unknown }) := by
  unfold markUnknown
  split
  next h => exact .inr (.inr ⟨h.1, h.2, rfl⟩)
  next h =>
    by_cases hs : record.state = .succeeded
    · exact .inl ⟨hs, rfl⟩
    · refine .inr (.inl ⟨?_, rfl⟩)
      by_contra hc
      exact h ⟨hs, hc⟩

/-- While an effect is uncertain, an error blocks the run. -/
theorem finishError_blocked (h : awaitsResolution (markedRun run).invocations = true) :
    finishError error cancelled now run = blockedByEffect (markedRun run) := by
  rw [finishError, if_pos h]

/-- Otherwise the error ends it. -/
theorem finishError_ended (h : awaitsResolution (markedRun run).invocations = false) :
    finishError error cancelled now run =
      endedByError error cancelled now (markedRun run) := by
  rw [finishError, if_neg (by simp [h])]

/-- Every outcome is terminal. -/
theorem outcome_isTerminal {limits : Limits} {value : Value} {head : RunHead} :
    (outcome limits value now cancelled run head).state.isTerminal = true := by
  unfold outcome
  split
  · rfl
  · split
    · rfl
    · split <;> rfl

end

end WorkflowForge.Engine
