import WorkflowForge.Engine.Effects
import WorkflowForge.Engine.Schema
import WorkflowForge.Engine.State
import WorkflowForge.Lib.Word

/-!
# Operation Steps

One invocation of an operation: what its record authorizes when a worker comes to it, the
intent that is committed before the call, and the two ways its outcome is committed. A
failure is classified on the record as it is then; what earlier attempts left uncertain
stays uncertain.

## Main results

- `failedRecord_settled`: a write that fails or is cancelled for good was not applied.
- `failedRecord_certainty`: a failure never takes certainty back.
- `recordFailure_eq_some`: what recording a failure changes.
-/

namespace WorkflowForge.Engine

open Lib

/-! ## Errors of a step -/

/-- Why a step of a run returned no value. -/
inductive StepError where
  | suspended
  | execution (error : ForgeError)
  | infrastructure (error : ForgeError)
deriving DecidableEq

/-- The error of a refused transition: a limit, a cancellation or a deadline belongs to the
run, everything else to the runtime. -/
def transitionError (error : ForgeError) : StepError :=
  if error.code = "resource.limit" ∨ error.code = "operation.cancelled" ∨
      error.code = "operation.timeout" then .execution error
  else .infrastructure error

/-! ## Prepared operations -/

/-- An operation of the composition with its compiled contracts. -/
structure CompiledOperation where
  descriptor : OperationDescriptor
  config : CompiledSchema
  input : CompiledSchema
  output : CompiledSchema

/-- An operation as a plan calls it. -/
structure PreparedOperation where
  operation : CompiledOperation
  config : Value
  retry : RetryPolicy

/-- The command one attempt is called with. -/
structure Invocation where
  id : String
  attemptId : String
  operation : OperationRevision
  config : Value
  input : Value
  effectKey : Option String
deriving DecidableEq

/-! ## Certainty -/

/-- What is known of an effect after one more attempt. -/
def merged : EffectCertainty → EffectCertainty → EffectCertainty
  | .applied, _ | _, .applied => .applied
  | .unknown, _ | _, .unknown => .unknown
  | .notApplied, .notApplied => .notApplied

@[simp] theorem merged_eq_notApplied {a b : EffectCertainty} :
    merged a b = .notApplied ↔ a = .notApplied ∧ b = .notApplied := by
  cases a <;> cases b <;> simp [merged]

@[simp] theorem merged_applied (b : EffectCertainty) : merged .applied b = .applied := by
  cases b <;> rfl

/-- What is known of an attempt nobody heard from. -/
def possibleEffect (effect : EffectKind) : EffectCertainty :=
  if effect = .write then .unknown else .notApplied

/-! ## Before the dispatch -/

structure FailureReport where
  error : ForgeError
  invalidOutput : Bool
  cancelled : Bool
deriving DecidableEq

/-- What a worker does with the record it finds. -/
inductive Turn where
  | done (result : Except StepError Value)
  | recover (attempt : String) (report : FailureReport)
  | sleep (due : UInt64)
  | proceed

/-- A re-entered attempt has lost its worker: it may have been dispatched. -/
def interrupted (effect : EffectKind) (message : String) (cancelled : Bool) : FailureReport where
  error := operationFailure "operation.interrupted" .transient (possibleEffect effect) message
  invalidOutput := false
  cancelled := cancelled

/-- What the saved record of an invocation authorizes. The clock is read twice. -/
def resume (effect : EffectKind) (run : RunHead) (previous : Option InvocationRecord)
    (now later : UInt64) (cancelled : Bool) : Turn :=
  match previous with
  | none => .proceed
  | some record =>
    match record.state with
    | .succeeded =>
      .done (match record.output with
        | some value => .ok value
        | none => .error (.infrastructure
            (.new "store.failed" "Confirmed invocation has no output")))
    | .unknown => .done (.error (.execution unknownError))
    | .failed | .cancelled =>
      .done (.error (.execution
        (record.error.getD (.new "operation.failed" "Invocation did not succeed"))))
    | .running =>
      .recover record.attemptId
        (interrupted effect "Unfinished attempt requires recovery" cancelled)
    | .retryScheduled =>
      if run.cancelRequested ∨ cancelled ∨ run.deadlineAtMs ≤ now then
        .recover record.attemptId ⟨record.error.getD unknownError, false, cancelled⟩
      else
        match record.nextAttemptAtMs.filter (later < ·) with
        | some due => .sleep (min due run.deadlineAtMs)
        | none => .proceed
    | .pending => .proceed

section Resume

variable {effect : EffectKind} {run : RunHead} {previous : Option InvocationRecord}
  {now later : UInt64} {cancelled : Bool}

/-- A new attempt needs a first, a scheduled or a released record. -/
theorem resume_eq_proceed (h : resume effect run previous now later cancelled = .proceed) :
    previous = none ∨ ∃ record, previous = some record ∧
      (record.state = .pending ∨ record.state = .retryScheduled) := by
  cases previous with
  | none => exact .inl rfl
  | some record =>
    right
    refine ⟨record, rfl, ?_⟩
    cases hs : record.state with
    | pending => exact .inl rfl
    | retryScheduled => exact .inr rfl
    | _ => simp [resume, hs] at h

/-- A worker without an attempt of its own recovers an open attempt as interrupted, and a
scheduled one with the error it has. -/
theorem resume_eq_recover {attempt : String} {report : FailureReport}
    (h : resume effect run previous now later cancelled = .recover attempt report) :
    ∃ record, previous = some record ∧ attempt = record.attemptId ∧
      ((record.state = .running ∧
          report = interrupted effect "Unfinished attempt requires recovery" cancelled) ∨
        (record.state = .retryScheduled ∧
          report = ⟨record.error.getD unknownError, false, cancelled⟩)) := by
  cases previous with
  | none => simp [resume] at h
  | some record =>
    refine ⟨record, rfl, ?_⟩
    cases hs : record.state with
    -- the process went down during the attempt
    | running =>
      simp only [resume, hs, Turn.recover.injEq] at h
      exact ⟨h.1.symm, .inl ⟨rfl, h.2.symm⟩⟩
    -- or the run is cancelled or overdue, so that the retry is given up
    | retryScheduled =>
      simp only [resume, hs] at h
      split at h
      · obtain ⟨rfl, rfl⟩ := Turn.recover.inj h
        exact ⟨rfl, .inr ⟨rfl, rfl⟩⟩
      · split at h <;> nomatch h
    | _ => simp [resume, hs] at h

end Resume

def cancelledBeforeDispatch : ForgeError :=
  .new "operation.cancelled" "Run was cancelled before dispatch"

def deadlineBeforeDispatch : ForgeError :=
  .new "operation.timeout" "Run reached its deadline before dispatch"

/-- The checks before an attempt asks for capacity. -/
def admitAttempt (node : PreparedOperation) (run : RunHead) (previous : Option InvocationRecord)
    (now : UInt64) (cancelled : Bool) : Except ForgeError Unit :=
  if run.cancelRequested ∨ cancelled then .error cancelledBeforeDispatch
  else if run.deadlineAtMs ≤ now then .error deadlineBeforeDispatch
  else if previous.any fun r => node.retry.maxAttempts ≤ r.attempts then
    .error (.new "operation.failed" "Attempt budget is exhausted")
  else .ok ()

/-! ## Intent -/

/-- The record committed before an attempt is called. -/
def intentRecord (logical attemptId : String) (node : PreparedOperation) (input : Value)
    (previous : Option InvocationRecord) : InvocationRecord where
  id := logical
  attemptId := attemptId
  attempts := (previous.map fun r => saturatingAdd32 r.attempts 1).getD 1
  state := .running
  input := (previous.map InvocationRecord.input).getD input
  output := none
  error := none
  operation := some node.operation.descriptor.revision
  config := node.config
  effectKey := if node.operation.descriptor.effect = .write then some logical else none
  retry := node.retry
  nextAttemptAtMs := none
  certainty := (previous.map InvocationRecord.certainty).getD .notApplied
  control := none

/-- Commits an intent, unless the run was cancelled or reached its deadline meanwhile. -/
def intent (record : InvocationRecord) (now : UInt64) (cancelled : Bool) : NodeEdit :=
  fun run _ =>
    if run.cancelRequested ∨ cancelled then .error cancelledBeforeDispatch
    else if run.deadlineAtMs ≤ now then .error deadlineBeforeDispatch
    else .ok (some record)

/-- The command of the attempt a record stands for. -/
def command (record : InvocationRecord) (node : PreparedOperation) : Invocation where
  id := record.id
  attemptId := record.attemptId
  operation := node.operation.descriptor.revision
  config := record.config
  input := record.input
  effectKey := record.effectKey

theorem intent_eq_some {record r : InvocationRecord} {now : UInt64} {cancelled : Bool}
    {run : RunHead} {current : Option InvocationRecord}
    (h : intent record now cancelled run current = .ok (some r)) :
    r = record ∧ run.cancelRequested = false ∧ cancelled = false ∧ now < run.deadlineAtMs := by
  unfold intent at h
  split at h
  · nomatch h
  next hc =>
    split at h
    · nomatch h
    next hd =>
      obtain ⟨h₁, h₂⟩ := not_or.mp hc
      exact ⟨by simpa using h.symm, by simpa using h₁, by simpa using h₂,
        UInt64.not_le.mp hd⟩

/-! ## Calls -/

/-- What comes back from a call. -/
inductive Answer where
  | completed (value : Value)
  | failed (error : OperationError)
  | panicked
  | lost
  | timedOut
  | cancelled
deriving DecidableEq

/-- The texts of an operation are bounded before they are kept. -/
def sanitize (error : OperationError) : OperationError :=
  { error with
    message := String.ofList (error.message.toList.take 1024)
    code := String.ofList ((error.code.toList.filter fun c =>
      c.isAlphanum || c == '.' || c == '_' || c == '-').take 128) }

/-- The result of one authorized attempt. -/
def invoke (effect : EffectKind) : Answer → Except ForgeError Value
  | .completed value => .ok value
  | .failed error =>
    .error { diagnostics := [{ Diagnostic.new "operation.failed" (sanitize error).message with
      operationError := some (sanitize error) }] }
  | .panicked => .error (operationFailure "operation.failed" .internal (possibleEffect effect)
      "Operation panicked")
  | .lost => .error (operationFailure "operation.failed" .internal (possibleEffect effect)
      "Attempt task was lost")
  | .timedOut => .error (operationFailure "operation.timeout" .transient (possibleEffect effect)
      "Operation reached its deadline")
  | .cancelled => .error (operationFailure "operation.cancelled" .cancelled
      (possibleEffect effect) "Operation was cancelled")

/-- Marks every diagnostic of an error as being about one field. -/
def atField (field : String) (error : ForgeError) : ForgeError where
  diagnostics := error.diagnostics.map fun d =>
    { d with location := { d.location with field := field } }

/-- The report of an attempt, or its value once it satisfies the output contract. -/
def settle (node : PreparedOperation) (limits : Limits) (cancelled : Bool) (answer : Answer) :
    Except FailureReport Value :=
  match invoke node.operation.descriptor.effect answer with
  | .error error => .error ⟨error, false, cancelled⟩
  | .ok value =>
    match node.operation.output.validate value limits with
    | .error error => .error ⟨atField "/output" error, true, cancelled⟩
    | .ok () => .ok value

/-! ## Success -/

/-- The record of a confirmed attempt. -/
def succeededRecord (effect : EffectKind) (value : Value) (record : InvocationRecord) :
    InvocationRecord :=
  { record with
    output := some value
    state := .succeeded
    input := .null
    certainty := if effect = .write then .applied else .notApplied }

/-- Commits the value of an attempt, if the record still stands for it. -/
def success (attempt : String) (effect : EffectKind) (value : Value) : NodeEdit :=
  fun _ current =>
    .ok ((current.filter fun r => r.attemptId = attempt ∧ r.state = .running).map
      (succeededRecord effect value))

/-! ## Failure -/

/-- What the operation itself reported. -/
def FailureReport.cause (failure : FailureReport) : Option OperationError :=
  failure.error.diagnostics.findSome? Diagnostic.operationError

/-- Nobody heard from an interrupted write. -/
theorem interrupted_cause {effect : EffectKind} {message : String} {cancelled : Bool} :
    (interrupted effect message cancelled).cause.map OperationError.certainty =
      some (possibleEffect effect) := rfl

/-- What is known of the effect after the failure. -/
def failureCertainty (effect : EffectKind) (failure : FailureReport)
    (record : InvocationRecord) : EffectCertainty :=
  if effect ≠ .write then .notApplied
  else if failure.invalidOutput then .applied
  else merged record.certainty ((failure.cause.map OperationError.certainty).getD .unknown)

/-- The classification of a failure on the record it belongs to. -/
def failureDecision (descriptor : OperationDescriptor) (failure : FailureReport)
    (record : InvocationRecord) (run : RunHead) (now : UInt64) : FailureDecision :=
  classifyFailure descriptor.effect descriptor.repetition
    { class_ := (failure.cause.map OperationError.class_).getD .internal
      certainty := failureCertainty descriptor.effect failure record
      invalidOutput := failure.invalidOutput }
    { completedAttempts := record.attempts
      maxAttempts := record.retry.maxAttempts
      nowMs := now
      deadlineAtMs := run.deadlineAtMs
      cancelRequested := failure.cancelled || run.cancelRequested }

/-- A retry that would come too late is no retry. Answers the final decision and when the
next attempt is due. -/
def schedule (decision : FailureDecision) (certainty : EffectCertainty)
    (record : InvocationRecord) (run : RunHead) (later delay : UInt64) :
    FailureDecision × Option UInt64 :=
  if decision = .retry then
    let due := saturatingAdd later (min delay record.retry.maxDelayMs)
    if run.deadlineAtMs ≤ due then
      (if certainty = .notApplied then .fail else .block, none)
    else (.retry, some due)
  else (decision, none)

/-- A diagnostic as the record keeps it. -/
def failedDiagnostic (key : String) (retryable : Bool) (certainty : EffectCertainty)
    (d : Diagnostic) : Diagnostic :=
  { d with
    location := { d.location with node := some key }
    retryable := some retryable
    operationError := d.operationError.map fun e => { e with certainty := certainty } }

/-- The error a record keeps of a failure. -/
def failedError (key : String) (retryable : Bool) (certainty : EffectCertainty)
    (error : ForgeError) : ForgeError :=
  ⟨error.diagnostics.map (failedDiagnostic key retryable certainty)⟩

/-- The state a decision leaves a record in. -/
def FailureDecision.state : FailureDecision → InvocationState
  | .retry => .retryScheduled
  | .block => .unknown
  | .fail => .failed
  | .cancel => .cancelled

/-- The record after a failure was classified. -/
def failedRecord (key : String) (descriptor : OperationDescriptor) (failure : FailureReport)
    (run : RunHead) (now later delay : UInt64) (record : InvocationRecord) : InvocationRecord :=
  let certainty := failureCertainty descriptor.effect failure record
  let decision := schedule (failureDecision descriptor failure record run now) certainty record
    run later delay
  { record with
    error := some (failedError key (decision.1 = .retry) certainty failure.error)
    certainty := certainty
    nextAttemptAtMs := decision.2
    state := decision.1.state }

/-- Records a failed attempt. `delay` is the answer of the backoff strategy. -/
def recordFailure (key attempt : String) (descriptor : OperationDescriptor)
    (failure : FailureReport) (now later delay : UInt64) : NodeEdit :=
  fun run current =>
    .ok ((current.filter fun r =>
        r.attemptId = attempt ∧ (r.state = .running ∨ r.state = .retryScheduled)).map
      (failedRecord key descriptor failure run now later delay))

/-! ## What a failure leaves behind -/

section Failed

variable {key : String} {descriptor : OperationDescriptor} {failure : FailureReport}
  {run : RunHead} {now later delay : UInt64} {record : InvocationRecord}

/-- The final decision on a failure. -/
def finalDecision (descriptor : OperationDescriptor) (failure : FailureReport) (run : RunHead)
    (now later delay : UInt64) (record : InvocationRecord) : FailureDecision :=
  (schedule (failureDecision descriptor failure record run now)
    (failureCertainty descriptor.effect failure record) record run later delay).1

theorem failedRecord_state :
    (failedRecord key descriptor failure run now later delay record).state =
      (finalDecision descriptor failure run now later delay record).state := rfl

theorem failedRecord_certainty :
    (failedRecord key descriptor failure run now later delay record).certainty =
      failureCertainty descriptor.effect failure record := rfl

/-- A recorded failure is neither confirmed nor open. -/
theorem failedRecord_state_ne :
    (failedRecord key descriptor failure run now later delay record).state ≠ .succeeded ∧
      (failedRecord key descriptor failure run now later delay record).state ≠ .running ∧
      (failedRecord key descriptor failure run now later delay record).state ≠ .pending := by
  simp only [failedRecord_state]
  cases finalDecision descriptor failure run now later delay record <;>
    simp [FailureDecision.state]

/-- The final decision differs from the classification only where a retry came too late. -/
theorem finalDecision_cases (descriptor : OperationDescriptor) (failure : FailureReport)
    (run : RunHead) (now later delay : UInt64) (record : InvocationRecord) :
    let d := failureDecision descriptor failure record run now
    let certainty := failureCertainty descriptor.effect failure record
    finalDecision descriptor failure run now later delay record = d ∨
      (d = .retry ∧ finalDecision descriptor failure run now later delay record =
        if certainty = .notApplied then .fail else .block) := by
  intro d certainty
  unfold finalDecision schedule
  by_cases hd : failureDecision descriptor failure record run now = .retry
  · rw [if_pos hd]
    dsimp only
    split
    · exact .inr ⟨hd, rfl⟩
    · exact .inl hd.symm
  · rw [if_neg hd]
    exact .inl rfl

theorem failureCertainty_of_not_write (h : descriptor.effect ≠ .write) :
    failureCertainty descriptor.effect failure record = .notApplied := by
  rw [failureCertainty, if_pos h]

/-- A certainty reported for a write covers what was known before. -/
theorem failureCertainty_eq_notApplied (hw : descriptor.effect = .write)
    (h : failureCertainty descriptor.effect failure record = .notApplied) :
    record.certainty = .notApplied ∧ failure.invalidOutput = false ∧
      failure.cause.map OperationError.certainty = some .notApplied := by
  rw [failureCertainty, if_neg (not_not_intro hw)] at h
  split at h
  · nomatch h
  next hi =>
    obtain ⟨hr, hc⟩ := merged_eq_notApplied.mp h
    refine ⟨hr, by simpa using hi, ?_⟩
    cases hcause : failure.cause.map OperationError.certainty with
    | none => simp [hcause] at hc
    | some c => simpa [hcause] using hc

/-- What was applied stays applied. -/
theorem failureCertainty_applied (hw : descriptor.effect = .write)
    (h : record.certainty = .applied) :
    failureCertainty descriptor.effect failure record = .applied := by
  rw [failureCertainty, if_neg (not_not_intro hw)]
  split
  · rfl
  · rw [h, merged_applied]

/-- What is known of a write that was not found unresolved. -/
theorem certainty_of_resolved
    (h : (AttemptFailure.mk ((failure.cause.map OperationError.class_).getD .internal)
      (failureCertainty descriptor.effect failure record) failure.invalidOutput).unresolved
        descriptor.effect = false) :
    failureCertainty descriptor.effect failure record = .notApplied := by
  by_cases hw : descriptor.effect = .write
  · rw [hw] at h ⊢
    exact (AttemptFailure.unresolved_eq_false_iff.mp h).1
  · exact failureCertainty_of_not_write hw

/-- An invocation that fails or is cancelled for good was not applied. -/
theorem failedRecord_settled
    (h : (failedRecord key descriptor failure run now later delay record).state = .failed ∨
      (failedRecord key descriptor failure run now later delay record).state = .cancelled) :
    (failedRecord key descriptor failure run now later delay record).certainty = .notApplied := by
  rw [failedRecord_certainty]
  rw [failedRecord_state] at h
  obtain hd | ⟨-, hd⟩ := finalDecision_cases descriptor failure run now later delay record
  · -- the classification itself settled the attempt
    rw [hd] at h
    apply certainty_of_resolved
    cases hf : failureDecision descriptor failure record run now with
    | fail => exact classifyFailure_fail hf
    | cancel => exact classifyFailure_cancel hf
    | retry => simp [hf, FailureDecision.state] at h
    | block => simp [hf, FailureDecision.state] at h
  · -- a retry that came too late fails only what was not applied
    rw [hd] at h
    by_contra hc
    rw [if_neg hc] at h
    simp [FailureDecision.state] at h

/-- Only a write becomes unknown. -/
theorem failedRecord_unknown
    (h : (failedRecord key descriptor failure run now later delay record).state = .unknown) :
    descriptor.effect = .write := by
  by_contra hw
  rw [failedRecord_state] at h
  obtain hd | ⟨-, hd⟩ := finalDecision_cases descriptor failure run now later delay record
  · rw [hd] at h
    cases hf : failureDecision descriptor failure record run now with
    | block => exact hw (classifyFailure_block hf)
    | fail => simp [hf, FailureDecision.state] at h
    | cancel => simp [hf, FailureDecision.state] at h
    | retry => simp [hf, FailureDecision.state] at h
  · rw [hd, if_pos (failureCertainty_of_not_write hw)] at h
    simp [FailureDecision.state] at h

/-- An unsafe write is scheduled again only after an attempt that was not applied. -/
theorem failedRecord_retry_unsafe (hw : descriptor.effect = .write)
    (hu : descriptor.repetition = .unsafe_)
    (h : (failedRecord key descriptor failure run now later delay record).state =
      .retryScheduled) :
    (failedRecord key descriptor failure run now later delay record).certainty = .notApplied := by
  rw [failedRecord_certainty]
  rw [failedRecord_state] at h
  have hd : failureDecision descriptor failure record run now = .retry := by
    obtain hd | ⟨hd, -⟩ := finalDecision_cases descriptor failure run now later delay record
    · rw [hd] at h
      cases hf : failureDecision descriptor failure record run now <;>
        simp [hf, FailureDecision.state] at h ⊢
    · exact hd
  unfold failureDecision at hd
  rw [hw, hu] at hd
  rw [hw]
  exact classifyFailure_retry_unsafe hd

end Failed

/-- Recording a failure changes the record of the attempt it belongs to, and no other. -/
theorem recordFailure_eq_some {key attempt : String} {descriptor : OperationDescriptor}
    {failure : FailureReport} {now later delay : UInt64} {run : RunHead}
    {current : Option InvocationRecord} {r : InvocationRecord}
    (h : recordFailure key attempt descriptor failure now later delay run current =
      .ok (some r)) :
    ∃ record, current = some record ∧ record.attemptId = attempt ∧
      (record.state = .running ∨ record.state = .retryScheduled) ∧
      r = failedRecord key descriptor failure run now later delay record := by
  simp only [recordFailure, Except.ok.injEq, Option.map_eq_some_iff, Option.filter_eq_some_iff,
    decide_eq_true_eq] at h
  obtain ⟨record, ⟨hc, ha, hs⟩, rfl⟩ := h
  exact ⟨record, hc, ha, hs, rfl⟩

/-- Confirming a value changes the record of the attempt it belongs to, and no other. -/
theorem success_eq_some {attempt : String} {effect : EffectKind} {value : Value} {run : RunHead}
    {current : Option InvocationRecord} {r : InvocationRecord}
    (h : success attempt effect value run current = .ok (some r)) :
    ∃ record, current = some record ∧ record.attemptId = attempt ∧ record.state = .running ∧
      r = succeededRecord effect value record := by
  simp only [success, Except.ok.injEq, Option.map_eq_some_iff, Option.filter_eq_some_iff,
    decide_eq_true_eq] at h
  obtain ⟨record, ⟨hc, ha, hs⟩, rfl⟩ := h
  exact ⟨record, hc, ha, hs, rfl⟩

end WorkflowForge.Engine
