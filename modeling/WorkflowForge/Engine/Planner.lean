import WorkflowForge.Engine.Control
import WorkflowForge.Engine.Evaluate
import WorkflowForge.Engine.Waits

/-!
# Control Decisions

What a worker does next, as far as it is decided by what it read: whether a node still has to
be executed, which children of a group are admitted, and whether a condition holds. These
functions neither dispatch nor persist anything.

## Main results

- `planNode_eq_confirmed`, `planNode_eq_execute`: when a node is not executed again, and when
  it is.
- `mem_readyRange`: the children that are admitted.
-/

namespace WorkflowForge.Engine

open Lib

/-! ## Nodes -/

inductive NodeAction where
  | confirmed (value : Value)
  | execute
deriving DecidableEq

def unconfirmed : ForgeError :=
  .new "store.failed" "Confirmed node has no output"

def notSucceeded : ForgeError :=
  .new "operation.failed" "Node did not succeed"

def scopeCancelled : ForgeError :=
  .new "operation.cancelled" "Scope was cancelled"

/-- A node that has not settled is executed, unless its scope was cancelled or has expired. -/
def planOpen (cancelled expired : Bool) : Except StepError NodeAction :=
  if cancelled then .error (.execution scopeCancelled)
  else if expired then .error (.execution deadlineReached)
  else .ok .execute

/-- What the record of a node says about it. -/
def planNode (record : Option InvocationRecord) (cancelled expired : Bool) :
    Except StepError NodeAction :=
  match record with
  | none => planOpen cancelled expired
  | some r =>
    match r.state with
    | .succeeded =>
      match r.output with
      | some value => .ok (.confirmed value)
      | none => .error (.infrastructure unconfirmed)
    | .unknown => .error (.execution unknownError)
    | .failed | .cancelled => .error (.execution (r.error.getD notSucceeded))
    | .running | .pending | .retryScheduled => planOpen cancelled expired

theorem planOpen_eq_ok {cancelled expired : Bool} {action : NodeAction} :
    planOpen cancelled expired = .ok action ↔
      cancelled = false ∧ expired = false ∧ action = .execute := by
  cases cancelled <;> cases expired <;> simp [planOpen, eq_comm]

theorem planOpen_eq_error {cancelled expired : Bool} {e : StepError}
    (h : planOpen cancelled expired = .error e) :
    e = .execution scopeCancelled ∨ e = .execution deadlineReached := by
  cases cancelled <;> cases expired <;> simp_all [planOpen]

/-- A node is confirmed by the output of its record, which succeeded. -/
theorem planNode_eq_confirmed {record : Option InvocationRecord} {cancelled expired : Bool}
    {value : Value} : planNode record cancelled expired = .ok (.confirmed value) ↔
      ∃ r, record = some r ∧ r.state = .succeeded ∧ r.output = some value := by
  cases record with
  | none => simp [planNode, planOpen_eq_ok]
  | some r =>
    simp only [planNode, Option.some.injEq, exists_eq_left']
    cases r.state with
    | succeeded => cases r.output <;> simp
    | running | pending | retryScheduled => simp [planOpen_eq_ok]
    | unknown | failed | cancelled => simp

/-- A node is executed while its record has not settled, in a live scope. -/
theorem planNode_eq_execute {record : Option InvocationRecord} {cancelled expired : Bool} :
    planNode record cancelled expired = .ok .execute ↔
      (cancelled = false ∧ expired = false) ∧
        ∀ r, record = some r →
          r.state = .running ∨ r.state = .pending ∨ r.state = .retryScheduled := by
  cases record with
  | none => simp [planNode, planOpen_eq_ok]
  | some r =>
    simp only [planNode, Option.some.injEq, forall_eq']
    cases r.state with
    | succeeded => cases r.output <;> simp
    | running | pending | retryScheduled => simp [planOpen_eq_ok]
    | unknown | failed | cancelled => simp

/-! ## Groups -/

/-- The children that a group admits now, in order. -/
def readyRange (next total active concurrency : Nat) (halted : Bool) : List Nat :=
  let slots := if halted then 0 else concurrency - active
  List.range' next (min (next + slots) total - next)

theorem mem_readyRange {next total active concurrency i : Nat} {halted : Bool} :
    i ∈ readyRange next total active concurrency halted ↔
      halted = false ∧ next ≤ i ∧ i < total ∧ i < next + (concurrency - active) := by
  unfold readyRange
  rw [List.mem_range'_1]
  cases halted with
  | true =>
    rcases Nat.le_total next total with h | h
    · simp [min_eq_left h]
    · simp [min_eq_right h]
      omega
  | false =>
    simp only [Bool.false_eq_true, if_false, true_and]
    rcases Nat.le_total (next + (concurrency - active)) total with h | h
    · rw [min_eq_left h]
      omega
    · rw [min_eq_right h]
      omega

/-! ## Conditions -/

def notBoolean : ForgeError :=
  .new "data.invalid" "Control condition must be a boolean"

/-- A condition reads the input of its node only. -/
def boolean (binding : Binding) (input : Value) (limits : Limits) : Except ForgeError Bool := do
  let value ← binding.evaluate input ∅ limits
  okOr value.asBool notBoolean

end WorkflowForge.Engine
