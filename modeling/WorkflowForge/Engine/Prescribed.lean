import WorkflowForge.Engine.Executor

/-!
# What a Plan Prescribes

The meaning of a prepared plan, without records, workers or restarts: which bodies are entered
with which inputs, what their nodes are given, and what bodies and nodes end with. Operations
and waits answer values that are given from outside, once for each activation. They may also
fail, and anything may be interrupted.

## Main definitions

- `Prescribes`: what is entered, and what nodes and bodies end with.
-/

namespace WorkflowForge.Engine

open Lib

/-! ## Places and answers -/

/-- The place of a body: the nodes it is inside of, each with the way it was entered. -/
abbrev Place := List (String × ScopeStep)

namespace PreparedNode

variable (node : PreparedNode) (place : Place)

/-- The activation of a node of the body at a place. -/
def activation : Activation :=
  ⟨place, node.id⟩

def key : String :=
  (node.activation place).key

/-- The place of a body that the node runs. -/
def inside (step : ScopeStep) : Place :=
  place ++ [(node.id, step)]

/-- The node is executed by an operation or by a message. -/
def isLeaf : Bool :=
  match node.instruction with
  | .operation _ | .timer _ | .awaitSignal .. => true
  | _ => false

/-- The node runs several bodies at a time. -/
def isGroup : Bool :=
  (groupMode node.instruction).isSome

/-- Operations answer inputs of their contract only. -/
def admits (input : Value) (limits : Limits) : Except ForgeError Unit :=
  match node.instruction with
  | .operation operation => operation.operation.input.validate input limits
  | _ => .ok ()

end PreparedNode

/-- The value that the operation or the wait at an activation has answered. -/
abbrev Answers := Activation → Value → Prop

/-! ## Errors -/

/-- A cancellation, a deadline, a limit or an unresolved effect may end anything. -/
def Interruption (error : ForgeError) : Prop :=
  error.code = "operation.cancelled" ∨ error.code = "operation.timeout" ∨
    error.code = "resource.limit" ∨ error.code = "effect.unknown"

/-- An error of the input of a node. -/
def locateError (node field : String) (error : ForgeError) : ForgeError where
  diagnostics := error.diagnostics.map fun d =>
    { d with location := { d.location with node := some node, field := field } }

/-- An error of the output of a body. -/
def locateOutput (error : ForgeError) : ForgeError where
  diagnostics := error.diagnostics.map fun d =>
    { d with location := { d.location with field := "/output" } }

/-! ## Groups -/

/-- The children of a group with the input of its node, and how their failures are taken. -/
def opened (limits : Limits) (input : Value) :
    PreparedInstruction → Except ForgeError (GroupSource × GroupErrors)
  | .parallel branches _ errors => .ok (.parallel branches input, errors)
  | .foreach items body _ errors => do
    let values ← foreachItems limits items input
    ensure (values.length ≤ limits.foreachItems) itemsExceeded
    return (.foreach values input body, errors)
  | _ => .error planMismatch

/-- The child of a node at an index. -/
def PreparedNode.ChildAt (node : PreparedNode) (input : Value) (index : Nat) (step : ScopeStep)
    (body : PreparedBody) (bodyInput : Value) : Prop :=
  ∃ limits source errors, opened limits input node.instruction = .ok (source, errors) ∧
    source.child index = some (step, body, bodyInput)

/-- The data of a child in the value of its group. -/
inductive Member (errors : GroupErrors) (source : GroupSource) (index : Nat) :
    Except ForgeError Value → Value → Prop where
  | succeeded (output : Value) :
      Member errors source index (.ok output) (source.succeeded index output)
  | failed (error : ForgeError) : errors = .collect → error.code ≠ "effect.unknown" →
      Member errors source index (.error error) (source.failed index error)

/-! ## Prescriptions -/

/-- What can be said of an execution. -/
inductive Judgment where
  /-- A body is entered. -/
  | entered (place : Place) (body : PreparedBody) (input : Value)
  /-- The nodes before the remaining ones have ended with outputs. -/
  | reached (place : Place) (body : PreparedBody) (input : Value)
      (outputs : BTreeMap String Value) (rest : List PreparedNode)
  /-- A node is executed with an input. -/
  | active (place : Place) (node : PreparedNode) (input : Value)
  /-- A control node runs a body. -/
  | child (place : Place) (node : PreparedNode) (input : Value) (step : ScopeStep)
      (body : PreparedBody) (bodyInput : Value)
  /-- A loop has come to an iteration with a state. -/
  | iterated (place : Place) (node : PreparedNode) (input : Value) (iteration : Nat)
      (state : Value)
  /-- The construct of a control node returns. -/
  | returned (place : Place) (node : PreparedNode) (input : Value)
      (result : Except ForgeError Value)
  | settled (place : Place) (node : PreparedNode) (input : Value)
      (result : Except ForgeError Value)
  | ended (place : Place) (body : PreparedBody) (input : Value)
      (result : Except ForgeError Value)

section

variable (root : PreparedBody) (given : Value) (answers : Answers)

open Judgment in
/-- What the execution of a root body with an input is prescribed to do. The limits belong to
the host that takes a step. -/
inductive Prescribes : Judgment → Prop where
  | root : Prescribes (entered [] root given)
  -- the nodes of a body, one after the other
  | begins {place body input} : Prescribes (entered place body input) →
      Prescribes (reached place body input ∅ body.sequence)
  | passes {limits : Limits} {place body input outputs node rest value output} :
      Prescribes (reached place body input outputs (node :: rest)) →
      node.input.evaluate input outputs limits = .ok value →
      Prescribes (settled place node value (.ok output)) →
      Prescribes (reached place body input (outputs.insert node.id output) rest)
  | finishes {limits : Limits} {place body input outputs output} :
      Prescribes (reached place body input outputs []) →
      body.output.evaluate input outputs limits = .ok output →
      Prescribes (ended place body input (.ok output))
  | outputFails {limits : Limits} {place body input outputs error} :
      Prescribes (reached place body input outputs []) →
      body.output.evaluate input outputs limits = .error error →
      Prescribes (ended place body input (.error (locateOutput error)))
  | inputFails {limits : Limits} {place body input outputs node rest error} :
      Prescribes (reached place body input outputs (node :: rest)) →
      node.input.evaluate input outputs limits = .error error →
      Prescribes (ended place body input (.error (locateError (node.key place) "/input" error)))
  | refused {limits : Limits} {place body input outputs node rest value error} :
      Prescribes (reached place body input outputs (node :: rest)) →
      node.input.evaluate input outputs limits = .ok value →
      node.admits value limits = .error error →
      Prescribes (ended place body input (.error (locateError (node.key place) "/input" error)))
  | nodeFails {limits : Limits} {place body input outputs node rest value error} :
      Prescribes (reached place body input outputs (node :: rest)) →
      node.input.evaluate input outputs limits = .ok value →
      Prescribes (settled place node value (.error error)) →
      Prescribes (ended place body input (.error error))
  | interrupted {place body input outputs rest error} :
      Prescribes (reached place body input outputs rest) →
      Interruption error →
      Prescribes (ended place body input (.error error))
  | activates {limits : Limits} {place body input outputs node rest value} :
      Prescribes (reached place body input outputs (node :: rest)) →
      node.input.evaluate input outputs limits = .ok value →
      Prescribes (active place node value)
  -- operations and waits
  | answered {limits : Limits} {place node input output} :
      Prescribes (active place node input) → node.isLeaf = true →
      node.admits input limits = .ok () → answers (node.activation place) output →
      Prescribes (settled place node input (.ok output))
  | leafFails {place node input} (error : ForgeError) :
      Prescribes (active place node input) → node.isLeaf = true →
      Prescribes (settled place node input (.error error))
  -- control nodes
  | enters {place node input step body bodyInput} :
      Prescribes (child place node input step body bodyInput) →
      Prescribes (entered (node.inside place step) body bodyInput)
  | childFails {place node input step body bodyInput error} :
      Prescribes (child place node input step body bodyInput) →
      Prescribes (ended (node.inside place step) body bodyInput (.error error)) →
      (step = .try → catchable error = false) →
      Prescribes (returned place node input (.error error))
  | stops {place node input error} : Prescribes (active place node input) →
      Interruption error → Prescribes (returned place node input (.error error))
  | oversized {limits : Limits} {place node input output error} :
      Prescribes (returned place node input (.ok output)) →
      checkValue output limits.valueBytes limits.jsonDepth = .error error →
      Prescribes (returned place node input (.error error))
  | succeeds {place node input output} :
      Prescribes (returned place node input (.ok output)) →
      Prescribes (settled place node input (.ok output))
  | fails {place node input error} :
      Prescribes (returned place node input (.error error)) →
      Prescribes (settled place node input (.error (attributed (node.key place) error)))
  -- decisions
  | chooses {limits : Limits} {place node input cases fallback selected body} :
      Prescribes (active place node input) →
      node.instruction = .decision cases fallback →
      choose limits fallback input cases = .ok selected →
      alternative cases fallback selected = some body →
      Prescribes (child place node input (.cases selected) body input)
  | unmatched {limits : Limits} {place node input cases fallback error} :
      Prescribes (active place node input) →
      node.instruction = .decision cases fallback →
      choose limits fallback input cases = .error error →
      Prescribes (settled place node input (.error error))
  | decides {place node input selected body bodyInput output} :
      Prescribes (child place node input (.cases selected) body bodyInput) →
      Prescribes (ended (node.inside place (.cases selected)) body bodyInput (.ok output)) →
      Prescribes (returned place node input (.ok (decisionOutcome selected output)))
  -- loops
  | loops {place node input condition body maxIterations onLimit} :
      Prescribes (active place node input) →
      node.instruction = .loop condition body maxIterations onLimit →
      Prescribes (iterated place node input 0 input)
  | iterates {limits : Limits}
      {place node input condition body maxIterations onLimit iteration state} :
      Prescribes (iterated place node input iteration state) →
      node.instruction = .loop condition body maxIterations onLimit →
      loopResult condition maxIterations onLimit limits iteration state = none →
      Prescribes (child place node input (.iterations iteration) body (loopInput state iteration))
  | advances {place node input iteration body bodyInput output} :
      Prescribes (child place node input (.iterations iteration) body bodyInput) →
      Prescribes (ended (node.inside place (.iterations iteration)) body bodyInput (.ok output)) →
      Prescribes (iterated place node input (iteration + 1) output)
  | loopEnds {limits : Limits}
      {place node input condition body maxIterations onLimit iteration state output} :
      Prescribes (iterated place node input iteration state) →
      node.instruction = .loop condition body maxIterations onLimit →
      loopResult condition maxIterations onLimit limits iteration state = some (.ok output) →
      Prescribes (returned place node input (.ok output))
  | loopFails {limits : Limits}
      {place node input condition body maxIterations onLimit iteration state error} :
      Prescribes (iterated place node input iteration state) →
      node.instruction = .loop condition body maxIterations onLimit →
      loopResult condition maxIterations onLimit limits iteration state =
        some (.error (.execution error)) →
      Prescribes (returned place node input (.error error))
  -- handlers
  | guards {place node input guarded catches fallback} :
      Prescribes (active place node input) →
      node.instruction = .try guarded catches fallback →
      Prescribes (child place node input .try guarded input)
  | guarded {place node input body bodyInput output} :
      Prescribes (child place node input .try body bodyInput) →
      Prescribes (ended (node.inside place .try) body bodyInput (.ok output)) →
      Prescribes (returned place node input (.ok (successOutcome output)))
  | handles {place node input guarded bodyInput error id body} {handlers : Handlers} :
      Prescribes (child place node input .try guarded bodyInput) →
      Prescribes (ended (node.inside place .try) guarded bodyInput (.error error)) →
      node.instruction = .try guarded handlers.catches handlers.fallback →
      catchable error = true → handlers.For error id body →
      Prescribes (child place node input (.catch id) body (handlerInput input error))
  | handled {place node input id body bodyInput output} :
      Prescribes (child place node input (.catch id) body bodyInput) →
      Prescribes (ended (node.inside place (.catch id)) body bodyInput (.ok output)) →
      Prescribes (returned place node input (.ok (handledOutcome id output)))
  -- subworkflows
  | calls {limits : Limits} {place node input plan} : Prescribes (active place node input) →
      node.instruction = .subworkflow plan → plan.input.validate input limits = .ok () →
      Prescribes (child place node input (workflowStep plan) plan.body input)
  | uncalled {limits : Limits} {place node input plan error} :
      Prescribes (active place node input) →
      node.instruction = .subworkflow plan → plan.input.validate input limits = .error error →
      Prescribes (returned place node input (.error error))
  | yields {limits : Limits} {place node input plan output} :
      Prescribes (child place node input (workflowStep plan) plan.body input) →
      node.instruction = .subworkflow plan →
      Prescribes (ended (node.inside place (workflowStep plan)) plan.body input (.ok output)) →
      plan.output.validate output limits = .ok () →
      Prescribes (returned place node input (.ok output))
  | breaks {limits : Limits} {place node input plan output error} :
      Prescribes (child place node input (workflowStep plan) plan.body input) →
      node.instruction = .subworkflow plan →
      Prescribes (ended (node.inside place (workflowStep plan)) plan.body input (.ok output)) →
      plan.output.validate output limits = .error error →
      Prescribes (returned place node input (.error error))
  -- groups: every child runs, in any order
  | opens {limits : Limits} {place node input source errors index step body bodyInput} :
      Prescribes (active place node input) →
      opened limits input node.instruction = .ok (source, errors) →
      source.child index = some (step, body, bodyInput) →
      Prescribes (child place node input step body bodyInput)
  | unopened {limits : Limits} {place node input error} :
      Prescribes (active place node input) →
      opened limits input node.instruction = .error error → node.isGroup = true →
      Prescribes (settled place node input (.error error))
  | reopens {limits : Limits} {place node input error} :
      Prescribes (active place node input) →
      opened limits input node.instruction = .error error → node.isGroup = true →
      Prescribes (returned place node input (.error error))
  | gathers {limits : Limits} {place node input source errors} (results : Nat →
      Except ForgeError Value)
      (values : List Value) :
      Prescribes (active place node input) →
      opened limits input node.instruction = .ok (source, errors) →
      (∀ index step body bodyInput, source.child index = some (step, body, bodyInput) →
        Prescribes (ended (node.inside place step) body bodyInput (results index))) →
      values.length = source.length →
      (∀ index value, values[index]? = some value →
        Member errors source index (results index) value) →
      Prescribes (returned place node input (.ok (source.value values)))

end

end WorkflowForge.Engine
