import WorkflowForge.Engine.Group
import WorkflowForge.Engine.Loop
import WorkflowForge.Engine.Try

/-!
# The Executor of Control Nodes

A decision and a subworkflow run one body. With loops, handlers and groups they are all the
control nodes there are; the executor of a node is the construct of its instruction, over
points of one type.

## Main results

- `Construct.next_embed`: a construct over common points asks what it asks over its own.
-/

namespace WorkflowForge.Engine

open Lib

/-! ## Decisions -/

def noMatch : ForgeError :=
  .new "control.no_match" "Decision has no matching alternative or fallback"

def alternativeUnavailable : ForgeError :=
  .new "state.conflict" "Saved decision alternative is unavailable"

/-- The first alternative whose condition holds, or the fallback. -/
def choose (limits : Limits) (fallback : Option (String × PreparedBody)) (input : Value) :
    List PreparedCase → Except ForgeError String
  | [] => okOr (fallback.map Prod.fst) noMatch
  | case :: cases => do
    if ← boolean case.when input limits then return case.id
    choose limits fallback input cases

/-- The body of a saved alternative. -/
def alternative (cases : List PreparedCase) (fallback : Option (String × PreparedBody))
    (selected : String) : Option PreparedBody :=
  match cases.find? (·.id = selected) with
  | some case => some case.body
  | none => (fallback.filter (·.1 = selected)).map Prod.snd

def decisionOutcome (selected : String) (output : Value) : Value :=
  .object [("output", output), ("selected", .string selected)]

inductive DecisionPoint where
  | entering (selected : String)
  | after (selected : String) (result : Except StepError Value)

/-- `run_control` of a decision. -/
def decisionConstruct (limits : Limits) (cases : List PreparedCase)
    (fallback : Option (String × PreparedBody)) : Construct DecisionPoint where
  initial input := (choose limits fallback input cases).map .decision
  start _ frame :=
    match frame with
    | .decision selected => .ok (.entering selected)
    | _ => .error (.infrastructure planMismatch)
  next input point :=
    match point with
    | .entering selected =>
      match alternative cases fallback selected with
      | none => .finish (.error (.infrastructure alternativeUnavailable))
      | some body => .enter (.cases selected) body input (.after selected)
    | .after selected (.ok output) => .finish (.ok (decisionOutcome selected output))
    | .after _ (.error e) => .finish (.error e)

/-! ## Subworkflows -/

inductive SubworkflowPoint where
  | entering
  | after (result : Except StepError Value)

/-- How the body of a subworkflow is entered. -/
def workflowStep (plan : Plan) : ScopeStep :=
  .workflows plan.definition.id plan.definition.revision

/-- `run_control` of a subworkflow. Its contracts are checked on both sides. -/
def subworkflowConstruct (limits : Limits) (plan : Plan) : Construct SubworkflowPoint where
  initial _ := .ok (.subworkflow plan.definition.workflowRevision)
  start _ frame :=
    match frame with
    | .subworkflow _ => .ok .entering
    | _ => .error (.infrastructure planMismatch)
  next input point :=
    match point with
    | .entering =>
      match plan.input.validate input limits with
      | .error e => .finish (.error (.execution e))
      | .ok _ => .enter (workflowStep plan) plan.body input .after
    | .after (.ok output) =>
      match plan.output.validate output limits with
      | .error e => .finish (.error (.execution e))
      | .ok _ => .finish (.ok output)
    | .after (.error e) => .finish (.error e)

/-! ## Common points -/

/-- The points of all constructs. -/
inductive ControlPoint where
  | «try» (point : TryPoint)
  | decision (point : DecisionPoint)
  | group (point : GroupPoint)
  | loop (point : LoopPoint)
  | subworkflow (point : SubworkflowPoint)

namespace ControlPoint

def asTry : ControlPoint → Option TryPoint
  | .try point => some point
  | _ => none

def asDecision : ControlPoint → Option DecisionPoint
  | .decision point => some point
  | _ => none

def asGroup : ControlPoint → Option GroupPoint
  | .group point => some point
  | _ => none

def asLoop : ControlPoint → Option LoopPoint
  | .loop point => some point
  | _ => none

def asSubworkflow : ControlPoint → Option SubworkflowPoint
  | .subworkflow point => some point
  | _ => none

end ControlPoint

section

variable {σ τ : Type}

/-- The same request, over other points. -/
def Ask.map (f : σ → τ) : Ask σ → Ask τ
  | .finish result => .finish result
  | .check next => .check (f next)
  | .enter step body input next => .enter step body input fun result => f (next result)
  | .save frame refused next => .save frame refused (f next)
  | .permit next => .permit fun granted => f (next granted)
  | .spawn index step body input next => .spawn index step body input (f next)
  | .join active next => .join active fun index result cancelled => f (next index result cancelled)
  | .stop frame next => .stop frame (f next)
  | .survey next => .survey fun unresolved cancelled => f (next unresolved cancelled)

/-- A construct over points among others. -/
def Construct.embed (construct : Construct σ) (inject : σ → τ) (project : τ → Option σ) :
    Construct τ where
  initial := construct.initial
  start input frame := (construct.start input frame).map inject
  next input point :=
    match project point with
    | some point => (construct.next input point).map inject
    | none => .finish (.error (.infrastructure planMismatch))

theorem Construct.next_embed {construct : Construct σ} {inject : σ → τ} {project : τ → Option σ}
    {input : Value} {point : σ} (h : project (inject point) = some point) :
    (construct.embed inject project).next input (inject point) =
      (construct.next input point).map inject := by
  simp only [embed, h]

end

/-- The handlers of a try node, whose names and codes are distinct. -/
def Handlers.of (catches : List (String × String × PreparedBody))
    (fallback : String × PreparedBody) : Option Handlers :=
  if h : (fallback.1 :: catches.map Prod.fst).Nodup ∧ (catches.map (·.2.1)).Nodup then
    some ⟨catches, fallback, h.1, h.2⟩
  else none

/-- The construct of a control instruction, under the limits of a host. -/
def executor : PreparedInstruction → Option (Limits → Construct ControlPoint)
  | .try body catches fallback =>
    (Handlers.of catches fallback).map fun handlers _ =>
      (tryConstruct body handlers).embed .try ControlPoint.asTry
  | .decision cases fallback =>
    some fun limits =>
      (decisionConstruct limits cases fallback).embed .decision ControlPoint.asDecision
  | .parallel branches concurrency errors =>
    some fun limits =>
      (parallelConstruct concurrency errors limits branches).embed .group ControlPoint.asGroup
  | .foreach items body concurrency errors =>
    some fun limits =>
      (foreachConstruct concurrency errors limits items body).embed .group ControlPoint.asGroup
  | .loop condition body maxIterations onLimit =>
    some fun limits =>
      (loopConstruct condition body maxIterations onLimit limits).embed .loop ControlPoint.asLoop
  | .subworkflow plan =>
    some fun limits =>
      (subworkflowConstruct limits plan).embed .subworkflow ControlPoint.asSubworkflow
  | .operation _ | .timer _ | .awaitSignal .. => none

end WorkflowForge.Engine
