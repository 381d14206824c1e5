import WorkflowForge.Protocol.Operation

/-!
# Effect Classification

What a failed attempt authorizes: another attempt, an ordinary failure, a cancellation, or
a block until somebody finds out what happened. The decision is pure; it comes before any
delay is computed, and it is shared by dispatch failures, timeouts, cancellation and
recovery.

## Main results

- `classifyFailure_fail`, `classifyFailure_cancel`: an ordinary outcome of a write means
  that it was not applied.
- `classifyFailure_block`: only a write blocks.
- `classifyFailure_retry`: what an authorized retry guarantees.
-/

namespace WorkflowForge.Engine

open Lib

/-- What is known about a failed attempt. -/
structure AttemptFailure where
  class_ : ErrorClass
  certainty : EffectCertainty
  /-- The output contract failed after dispatch: a write may already have been applied. -/
  invalidOutput : Bool

/-- What is left for another attempt. -/
structure RetryBudget where
  completedAttempts : UInt32
  maxAttempts : UInt32
  nowMs : UInt64
  deadlineAtMs : UInt64
  cancelRequested : Bool

inductive FailureDecision where
  | fail
  | cancel
  | retry
  | block
deriving DecidableEq

/-- The effect of the attempt is not known to be absent. -/
def AttemptFailure.unresolved (f : AttemptFailure) (effect : EffectKind) : Bool :=
  effect = .write ∧ (f.certainty ≠ .notApplied ∨ f.invalidOutput)

/-- The failure may pass if the attempt is repeated. -/
def AttemptFailure.transient (f : AttemptFailure) : Bool :=
  f.class_ = .transient ∨ f.class_ = .resource

/-- An authorization, not a dispatch. -/
def classifyFailure (effect : EffectKind) (repetition : Repetition) (failure : AttemptFailure)
    (budget : RetryBudget) : FailureDecision :=
  -- a known effect without a conforming result needs reconciliation, even when keyed
  if effect = .write ∧ (failure.certainty = .applied ∨ failure.invalidOutput) then .block
  else if budget.cancelRequested ∨ failure.class_ = .cancelled then
    if failure.unresolved effect then .block else .cancel
  else if failure.transient ∧ ¬failure.invalidOutput ∧
      (¬failure.unresolved effect ∨ repetition = .safe ∨ repetition = .keyed) ∧
      budget.completedAttempts < budget.maxAttempts ∧ budget.nowMs < budget.deadlineAtMs then
    .retry
  else if failure.unresolved effect then .block
  else .fail

variable {effect : EffectKind} {repetition : Repetition} {failure : AttemptFailure}
  {budget : RetryBudget}

theorem AttemptFailure.unresolved_eq_false_iff {f : AttemptFailure} :
    f.unresolved .write = false ↔ f.certainty = .notApplied ∧ f.invalidOutput = false := by
  simp [unresolved]

/-- A write that fails for good was not applied. -/
theorem classifyFailure_fail
    (h : classifyFailure effect repetition failure budget = .fail) :
    failure.unresolved effect = false := by
  unfold classifyFailure at h
  split at h
  · nomatch h
  · split at h
    · split at h <;> nomatch h
    · split at h
      · nomatch h
      · split at h
        · nomatch h
        next hu => simpa using hu

/-- A write that is cancelled was not applied. -/
theorem classifyFailure_cancel
    (h : classifyFailure effect repetition failure budget = .cancel) :
    failure.unresolved effect = false := by
  unfold classifyFailure at h
  split at h
  · nomatch h
  · split at h
    · split at h
      · nomatch h
      next hu => simpa using hu
    · split at h
      · nomatch h
      · split at h <;> nomatch h

/-- Only a write is blocked. -/
theorem classifyFailure_block
    (h : classifyFailure effect repetition failure budget = .block) : effect = .write := by
  unfold classifyFailure at h
  -- every branch that blocks has asked for a write
  split at h
  next hw => exact hw.1
  · split at h
    · split at h
      next hu =>
        simp only [AttemptFailure.unresolved, decide_eq_true_eq] at hu
        exact hu.1
      · nomatch h
    · split at h
      · nomatch h
      · split at h
        next hu =>
          simp only [AttemptFailure.unresolved, decide_eq_true_eq] at hu
          exact hu.1
        · nomatch h

/-- An authorized retry is within its budget and its deadline, was not cancelled, and
repeats an uncertain effect only where the operation allows it. -/
theorem classifyFailure_retry
    (h : classifyFailure effect repetition failure budget = .retry) :
    ¬(effect = .write ∧ (failure.certainty = .applied ∨ failure.invalidOutput = true)) ∧
      budget.cancelRequested = false ∧
      (failure.unresolved effect = true → repetition = .safe ∨ repetition = .keyed) ∧
      budget.completedAttempts < budget.maxAttempts ∧ budget.nowMs < budget.deadlineAtMs := by
  unfold classifyFailure at h
  split at h
  · nomatch h
  next hw =>
    split at h
    · split at h <;> nomatch h
    next hc =>
      split at h
      next hr =>
        -- the one branch that retries
        obtain ⟨-, -, hrep, hbudget, hdeadline⟩ := hr
        refine ⟨hw, ?_, ?_, hbudget, hdeadline⟩
        · simpa using (not_or.mp hc).1
        · intro hu
          exact hrep.resolve_left (not_not_intro hu)
      · split at h <;> nomatch h

/-- An unsafe write is repeated only after an attempt that was not applied. -/
theorem classifyFailure_retry_unsafe
    (h : classifyFailure .write .unsafe_ failure budget = .retry) :
    failure.certainty = .notApplied := by
  have hrep := (classifyFailure_retry h).2.2.1
  cases hu : failure.unresolved .write with
  | false => exact (AttemptFailure.unresolved_eq_false_iff.mp hu).1
  | true =>
    obtain hs | hk := hrep hu
    · nomatch hs
    · nomatch hk

end WorkflowForge.Engine
