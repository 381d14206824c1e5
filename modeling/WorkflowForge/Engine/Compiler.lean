import WorkflowForge.Engine.Binding
import WorkflowForge.Engine.Plan
import WorkflowForge.Lib.Stateful

/-!
# The Compiler

Compiles a definition against a composition: nodes are put in the order of their edges,
bindings and schemas are checked, operations and subworkflows are looked up, and everything
that was consulted is collected into the package of the plan.

The compiler counts the nodes and the bytes of the expanded plan. Its counts go on when a
node fails, because the errors of a body are collected; so a failed computation keeps its
state. Nesting is bounded by the composition: a stage compiles with the levels that remain.

## Main definitions

- `ordered`: the nodes of a body along their edges.
- `Compiler.stage`: the compiler, by the levels of nesting that remain.
- `prepare`: the plan of a definition.
-/

namespace WorkflowForge.Engine

open Lib

def workflowFormat : String := "forge.workflow/2"

/-! ## Compositions -/

/-- A composition as the compiler sees it. -/
structure Catalog where
  id : String
  scope : String
  limits : Limits
  durable : Bool
  coordinatedArtifacts : Bool
  compile : List SchemaResource → Value → Except ForgeError CompiledSchema
  operations : BTreeMap OperationRevision CompiledOperation := ∅
  schemaResources : BTreeMap String SchemaResource := ∅
  workflows : BTreeMap WorkflowRevision WorkflowDefinition := ∅

/-- The descriptors under which operations are offered. -/
def Catalog.offer (c : Catalog) (revision : OperationRevision) : Option OperationDescriptor :=
  c.operations[revision]?.map CompiledOperation.descriptor

/-- What commands use of a composition. -/
def Catalog.composition (c : Catalog) : Composition where
  scope := c.scope
  limits := c.limits
  durable := c.durable
  coordinatedArtifacts := c.coordinatedArtifacts
  operations := c.offer
  compile := c.compile

def Catalog.schemas (c : Catalog) : List SchemaResource :=
  BTreeMap.valueList c.schemaResources

def Catalog.compileSchema (c : Catalog) (schema : Value) : Except ForgeError CompiledSchema := do
  let _ ← checkValue schema c.limits.documentBytes c.limits.jsonDepth
  c.compile c.schemas schema

/-! ## Order of nodes -/

/-- The nodes by their identity, with what is wrong about them. -/
def indexNode (index : BTreeMap String NodeDefinition × List Diagnostic)
    (node : NodeDefinition) : BTreeMap String NodeDefinition × List Diagnostic :=
  let invalid : Diagnostic :=
    { Diagnostic.new "definition.invalid" "Node identities must be nonempty and unique" with
      phase := "prepare", location := { node := some node.id, field := "/nodes" } }
  if node.id = "" then (index.1, index.2 ++ [invalid])
  else
    (index.1.insert node.id node,
      if index.1.contains node.id then index.2 ++ [invalid] else index.2)

/-- The edges of a body, as they are read one by one. -/
structure Links where
  next : BTreeMap String String := ∅
  previous : BTreeSet String := ∅
  unique : List Edge := []
  diagnostics : List Diagnostic

def linkEdge (nodes : BTreeMap String NodeDefinition) (links : Links) (edge : Edge) : Links :=
  if !nodes.contains edge.source || !nodes.contains edge.target then
    { links with
      diagnostics := links.diagnostics
        ++ [.new "reference.missing" "Edge references an unknown local node"] }
  else
    let repeated :=
      if links.unique.contains edge then [Diagnostic.new "definition.invalid" "Duplicate edge"]
      else []
    let forked := links.next.contains edge.source
    let joined := links.previous.contains edge.target
    let structured :=
      if forked || joined then
        [Diagnostic.new "capability.unsupported"
          "Use structured control instructions for forks and joins"]
      else []
    { next := links.next.insert edge.source edge.target
      -- a fork hides the join
      previous := if forked then links.previous else links.previous.insert edge.target
      unique := edge :: links.unique
      diagnostics := links.diagnostics ++ repeated ++ structured }

def cyclic : ForgeError :=
  .new "definition.invalid" "Control cycles are not supported"

/-- Follows the edges from a node. A chain visits no node twice, so the fuel covers it. -/
def walkChain (nodes : BTreeMap String NodeDefinition) (next : BTreeMap String String) :
    Nat → List String → String → Except ForgeError (List NodeDefinition)
  | 0, _, _ => .error cyclic
  | fuel + 1, visited, id => do
    ensure (!visited.contains id) cyclic
    -- the entry and the targets of edges are known
    let node ← okOr nodes[id]? cyclic
    match next[id]? with
    | none => return [node]
    | some id' => return node :: (← walkChain nodes next fuel (id :: visited) id')

def ordered (entry : String) (nodes : List NodeDefinition) (edges : List Edge) :
    Except ForgeError (List NodeDefinition) := do
  ensure (!nodes.isEmpty)
    (.new "definition.invalid" "A body must contain at least one node")
  let (index, invalid) := nodes.foldl indexNode (∅, [])
  let links := edges.foldl (linkEdge index) { diagnostics := invalid }
  let diagnostics := links.diagnostics ++
    if !index.contains entry || links.previous.contains entry then
      [Diagnostic.new "definition.invalid" "Entry must exist and have no predecessor"]
    else []
  ensure diagnostics.isEmpty ⟨diagnostics⟩
  let order ← walkChain index links.next (nodes.length + 1) [] entry
  ensure (order.length = nodes.length)
    (.new "definition.invalid" "All nodes must be reachable from entry")
  return order

/-! ## Checks -/

/-- Names the place of an error, unless a deeper part named it already. -/
def located (error : ForgeError) (node : Option String) (field : String) : ForgeError where
  diagnostics := error.diagnostics.map fun d =>
    if d.location.field = "" then
      { d with phase := "prepare", location := { d.location with node := node, field := field } }
    else { d with phase := "prepare" }

def RetryPolicy.validate (p : RetryPolicy) (hostMaxAttempts : UInt32) : Except ForgeError Unit :=
  ensure (p.maxAttempts ≠ 0 ∧ p.maxAttempts ≤ hostMaxAttempts ∧ p.initialDelayMs ≤ p.maxDelayMs)
    (.new "definition.invalid" "Retry policy exceeds host limits or has an invalid delay range")

/-- A binding that reads the input of its scope only. -/
def contextBinding (b : Binding) (limits : Limits) (boolean : Bool) : Except ForgeError Unit := do
  b.check ∅ limits
  match b with
  | .literal v =>
    ensure (!boolean || v.asBool.isSome) (.new "data.invalid" "Control condition must be boolean")
  | _ => return ()

def concurrencyLimit (requested : Nat) (limits : Limits) : Except ForgeError Nat := do
  ensure (requested ≠ 0) (.new "definition.invalid" "Group concurrency must be positive")
  return min requested limits.groupConcurrency

/-! ## State -/

/-- What the parts of a workflow consulted. -/
structure Metadata where
  warnings : List Diagnostic := []
  resources : BTreeSet String := ∅
  definitions : BTreeMap WorkflowRevision WorkflowDefinition := ∅
  operations : BTreeMap OperationRevision OperationDescriptor := ∅

/-- The counts of the plan, and those of the workflow that is being compiled. -/
structure Compiler where
  active : List WorkflowRevision := []
  nodes : Nat := 0
  bytes : Nat := 0
  documentNodes : Nat := 0
  metadata : Metadata := {}

abbrev CompileM (α : Type) := Stateful Compiler ForgeError α

namespace Compiler

open Stateful

/-- What compiles the parts one level deeper. -/
structure Stage where
  inline : BodyDefinition → CompileM PreparedBody
  workflow : WorkflowDefinition → CompileM Plan

section Parts

variable (limits : Limits)

/-- Counts nodes against the budgets of the document and of the plan. -/
def charge (n : Nat) (message : String) : CompileM Unit := do
  modify fun s => { s with documentNodes := s.documentNodes + n, nodes := s.nodes + n }
  let s ← get
  lift (ensure (s.documentNodes ≤ limits.nodes ∧ s.nodes ≤ limits.activations)
    (.new "resource.limit" message))

/-- Counts bytes against the budget of the plan. -/
def spend (n : Nat) : CompileM Unit := do
  modify fun s => { s with bytes := s.bytes + n }
  let s ← get
  lift (ensure (s.bytes ≤ limits.planBytes)
    (.new "resource.limit" "Expanded plan exceeds its byte budget"))

/-- Collects what a part consulted. -/
def collect (f : Metadata → Metadata) : CompileM Unit :=
  modify fun s => { s with metadata := f s.metadata }

end Parts

section Instructions

variable (c : Catalog) (deeper : Stage)

def operation (id : String) (input : Binding) (revision : OperationRevision) (config : Value)
    (retry : RetryPolicy) : CompileM PreparedOperation := do
  let operation ← lift (okOr c.operations[revision]?
    (located (.new "reference.missing" "Operation revision is unavailable") (some id)
      "/operation"))
  lift ((RetryPolicy.validate retry c.limits.maxRetryAttempts).mapError
    (located · (some id) "/retry"))
  lift ((operation.config.validate config c.limits).mapError (located · (some id) "/config"))
  match input with
  | .literal value =>
    lift ((operation.input.validate value c.limits).mapError
      (located · (some id) "/input/literal"))
  | _ =>
    collect fun m => { m with
      warnings := m.warnings ++ [
        { Diagnostic.new "compatibility.unknown"
            "Data compatibility will be validated at invocation" with
          phase := "prepare", location := { node := some id, field := "/input" } }] }
  collect fun m => { m with
    resources := m.resources ∪ operation.descriptor.requiredResources
    operations := m.operations.insert revision operation.descriptor }
  return { operation, config, retry }

/-- The operation that starts a signal wait, compiled as a node of its own. -/
def signalStart (id : String) (start : SignalStart) : CompileM (Binding × PreparedOperation) := do
  lift (contextBinding start.input c.limits false)
  charge c.limits 1 "Signal start exceeds the plan node budget"
  let operation ← mapError
    (fun e => { e with
      diagnostics := e.diagnostics.map fun d =>
        { d with location := { d.location with field := "/start" ++ d.location.field } } })
    (operation c id start.input start.operation start.config start.retry)
  return (start.input, operation)

def catches (ids codes : List String) :
    List ErrorCase → CompileM (List (String × String × PreparedBody))
  | [] => return []
  | ⟨id, code, body⟩ :: cases => do
    lift (ensure (id ≠ "" && code ≠ "" && !ids.contains id && !codes.contains code)
      (.new "definition.invalid" "Error handler identities and codes must be nonempty and unique"))
    let compiled ← deeper.inline body
    let rest ← catches (id :: ids) (code :: codes) cases
    return (id, code, compiled) :: rest

def cases (ids : List String) : List DecisionCase → CompileM (List PreparedCase)
  | [] => return []
  | ⟨id, condition, body⟩ :: rest => do
    lift (ensure (id ≠ "" && !ids.contains id)
      (.new "definition.invalid" "Decision alternative identities must be unique"))
    lift (contextBinding condition c.limits true)
    let compiled ← deeper.inline body
    let rest ← cases (id :: ids) rest
    return ⟨id, condition, compiled⟩ :: rest

def branches : List (String × BodyDefinition) → CompileM (List (String × PreparedBody))
  | [] => return []
  | (id, body) :: rest => do
    let compiled ← deeper.inline body
    let rest ← branches rest
    return (id, compiled) :: rest

/-- The fallback of a decision, whose identity no case has. -/
def decisionFallback (ids : List String) :
    Option FallbackCase → CompileM (Option (String × PreparedBody))
  | none => return none
  | some ⟨id, body⟩ => do
    lift (ensure (id ≠ "" && !ids.contains id)
      (.new "definition.invalid" "Decision fallback identity conflicts"))
    let compiled ← deeper.inline body
    return some (id, compiled)

/-- A correlation that is known when it is compiled. -/
def checkCorrelation : Binding → Except ForgeError Unit
  | .literal v =>
    ensure (v.asStr.any fun s => 0 < s.utf8ByteSize ∧ s.utf8ByteSize ≤ 256)
      (.new "data.invalid" "Signal correlation must contain 1 to 256 bytes")
  | _ => .ok ()

/-- Items that are known when they are compiled. -/
def checkItems (limits : Limits) : Binding → Except ForgeError Unit
  | .literal v =>
    ensure (v.asArray.any fun items => items.length ≤ limits.foreachItems)
      (.new "data.invalid" "Foreach items must be a bounded array")
  | _ => .ok ()

/-- An input that is known when it is compiled. -/
def checkInput (schema : CompiledSchema) (limits : Limits) : Binding → Except ForgeError Unit
  | .literal v => schema.validate v limits
  | _ => .ok ()

def instruction (node : NodeDefinition) : CompileM PreparedInstruction :=
  match node.instruction with
  | .try body catches fallback => do
    lift (ensure (catches.length + 1 ≤ c.limits.groupBranches && fallback.id ≠ "")
      (.new "definition.invalid" "Error handlers require a bounded set and a named fallback"))
    let body ← deeper.inline body
    let catches ← Compiler.catches deeper [fallback.id] [] catches
    let handler ← deeper.inline fallback.body
    return .try body catches (fallback.id, handler)
  | .timer durationMs => do
    lift (ensure (durationMs ≤ c.limits.waitTimeoutMs)
      (.new "resource.limit" "Timer exceeds the wait deadline budget"))
    return .timer durationMs
  | .awaitSignal correlation timeoutMs payloadSchema start => do
    lift (contextBinding correlation c.limits false)
    lift (checkCorrelation correlation)
    lift (ensure (timeoutMs ≠ 0 ∧ timeoutMs ≤ c.limits.waitTimeoutMs)
      (.new "resource.limit" "Signal deadline exceeds the wait budget"))
    let _ ← lift (c.compileSchema payloadSchema)
    match start with
    | none => return .awaitSignal correlation timeoutMs payloadSchema none
    | some start =>
      let start ← signalStart c node.id start
      return .awaitSignal correlation timeoutMs payloadSchema (some start)
  | .operation revision config retry => do
    let operation ← operation c node.id node.input revision config retry
    return .operation operation
  | .decision alternatives fallback => do
    lift (ensure (alternatives.length + fallback.toList.length ≤ c.limits.groupBranches &&
      !(alternatives.isEmpty && fallback.isNone))
      (.new "definition.invalid" "Decision needs a bounded set of alternatives"))
    let compiled ← cases c deeper [] alternatives
    let fallback ← decisionFallback deeper (alternatives.map DecisionCase.id) fallback
    return .decision compiled fallback
  | .parallel bodies concurrency errors .all => do
    lift (ensure (!bodies.isEmpty && bodies.length ≤ c.limits.groupBranches &&
      bodies.all (·.1 ≠ ""))
      (.new "definition.invalid" "Parallel group has invalid branches"))
    let concurrency ← lift (concurrencyLimit concurrency c.limits)
    let compiled ← branches deeper bodies
    return .parallel compiled concurrency errors
  | .foreach items body concurrency errors => do
    lift (contextBinding items c.limits false)
    lift (checkItems c.limits items)
    let concurrency ← lift (concurrencyLimit concurrency c.limits)
    let compiled ← deeper.inline body
    return .foreach items compiled concurrency errors
  | .loop condition body maxIterations onLimit => do
    lift (contextBinding condition c.limits true)
    lift (ensure (maxIterations ≠ 0 ∧ maxIterations ≤ c.limits.loopIterations)
      (.new "resource.limit" "Loop iteration budget is invalid"))
    let compiled ← deeper.inline body
    return .loop condition compiled maxIterations onLimit
  | .subworkflow workflow => do
    let definition ← lift (okOr c.workflows[workflow]?
      (.new "reference.missing" "Subworkflow revision is unavailable"))
    let child ← deeper.workflow definition
    lift (checkInput child.input c.limits node.input)
    collect fun m => {
      resources := m.resources ∪ child.resources
      warnings := m.warnings ++ child.warnings
      definitions := m.definitions ∪ child.definitions
      operations := child.package.operations.foldl (fun o d => o.insert d.revision d)
        m.operations }
    return .subworkflow child

end Instructions

/-! ## Bodies -/

section Bodies

variable (c : Catalog) (deeper : Stage)

/-- The diagnostics of a failed check, located. -/
def diagnosticsOf {α : Type} (result : Except ForgeError α) (node : Option String)
    (field : String) : List Diagnostic :=
  match result with
  | .ok _ => []
  | .error e => (located e node field).diagnostics

/-- Compiles nodes in order. The errors of one node do not hide those of the next. -/
def compileNodes (available : BTreeSet String) :
    List NodeDefinition → CompileM (List PreparedNode × List Diagnostic)
  | [] => return ([], [])
  | node :: rest => do
    spend c.limits (jsonBytes node)
    let prepared ← attempt (instruction c deeper node)
    let (sequence, diagnostics) ← compileNodes (available.insert node.id) rest
    return (
      match prepared with
      | .ok prepared => ⟨node.id, node.input, prepared⟩ :: sequence
      | .error _ => sequence,
      diagnosticsOf (node.input.check available c.limits) (some node.id) "/input"
        ++ diagnosticsOf prepared (some node.id) "/instruction" ++ diagnostics)

def body (b : BodyDefinition) : CompileM PreparedBody := do
  charge c.limits b.nodes.length "Prepared graph exceeds its node budget"
  let order ← lift (ordered b.entry b.nodes b.edges)
  let (sequence, diagnostics) ← compileNodes c deeper ∅ order
  let available : BTreeSet String := order.foldl (fun s (n : NodeDefinition) => s.insert n.id) ∅
  let diagnostics := diagnostics ++ diagnosticsOf (b.output.check available c.limits) none "/output"
  lift (ensure diagnostics.isEmpty ⟨diagnostics⟩)
  return ⟨sequence, b.output⟩

end Bodies

/-! ## Workflows -/

section Workflows

variable (c : Catalog)

/-- Compiles inside a workflow: its counts and what it consults are its own. -/
def within {α : Type} (revision : WorkflowRevision) (x : CompileM α) : CompileM α := fun s =>
  let r := x { s with active := revision :: s.active, documentNodes := 0, metadata := {} }
  (r.1, { r.2 with
    active := s.active, documentNodes := s.documentNodes, metadata := s.metadata })

def packageOf (m : Metadata) : ResolvedPackage where
  definitions := BTreeMap.valueList m.definitions
  operations := BTreeMap.valueList m.operations
  schemas := c.schemas

/-- The package has to fit what is left of the budget of the plan. -/
def resolve (m : Metadata) : CompileM ResolvedPackage := do
  let package := packageOf c m
  let s ← get
  lift (ensure (s.bytes + jsonBytes package ≤ c.limits.planBytes)
    (.new "resource.limit" "Resolved package exceeds the plan budget"))
  return package

/-- The parts of a workflow, after its identity was checked. -/
def parts (body : BodyDefinition → CompileM PreparedBody) (definition : WorkflowDefinition) :
    CompileM Plan := do
  spend c.limits (jsonBytes definition)
  let input ← lift ((c.compileSchema definition.inputSchema).mapError
    (located · none "/input_schema"))
  let output ← lift ((c.compileSchema definition.outputSchema).mapError
    (located · none "/output_schema"))
  let compiled ← body ⟨definition.entry, definition.nodes, definition.edges, definition.output⟩
  collect fun m => { m with
    definitions := m.definitions.insert definition.workflowRevision definition }
  let s ← get
  lift (ensure (!(c.durable && s.metadata.resources.contains "artifacts" &&
    !c.coordinatedArtifacts))
    (.new "capability.unsupported"
      "A durable workflow requires artifacts in its store coordination domain"))
  let package ← resolve c s.metadata
  return {
    composition := c.id
    definition := definition
    body := compiled
    input := input
    output := output
    warnings := s.metadata.warnings
    resources := s.metadata.resources
    definitions := s.metadata.definitions
    package := package }

/-- The checks of a definition on its own and against the catalog. -/
def checkDefinition (definition : WorkflowDefinition) : Except ForgeError Unit := do
  let _ ← checkValue (serialize definition) c.limits.documentBytes c.limits.jsonDepth
  ensure (definition.format = workflowFormat && definition.schemaDialect = schemaDialect &&
    definition.id ≠ "" && !inexact definition.revision)
    (.new "definition.invalid" "Workflow format, dialect and exact revision must be explicit")
  ensure (c.workflows[definition.workflowRevision]?.all fun stored =>
    Same .source stored.semanticValue definition.semanticValue)
    (.new "state.conflict" "Workflow revision differs from the frozen catalog")

def workflow (body : BodyDefinition → CompileM PreparedBody) (definition : WorkflowDefinition) :
    CompileM Plan := do
  lift (checkDefinition c definition)
  let s ← get
  lift (ensure (!s.active.contains definition.workflowRevision)
    (.new "definition.invalid" "Subworkflow dependency cycle"))
  within definition.workflowRevision (parts c body definition)

def tooDeep : ForgeError :=
  .new "resource.limit" "Control nesting exceeds the host limit"

/-- The compiler with the levels of nesting that remain. -/
def stage : Nat → Stage
  | 0 => { inline := fun _ => fail tooDeep, workflow := fun _ => fail tooDeep }
  | remaining + 1 =>
    let compileBody := body c (stage remaining)
    { inline := compileBody, workflow := workflow c compileBody }

end Workflows

end Compiler

/-- Compiles a definition; also answers the counts it ends with. -/
def compile (c : Catalog) (definition : WorkflowDefinition) : Except ForgeError Plan × Compiler :=
  (Compiler.stage c (c.limits.controlDepth + 1)).workflow definition {}

def prepare (c : Catalog) (definition : WorkflowDefinition) : Except ForgeError Plan :=
  (compile c definition).1

end WorkflowForge.Engine
