import WorkflowForge.Engine.Builder
import WorkflowForge.Engine.Closure
import WorkflowForge.Engine.RootId

/-!
# Building a Composition

A host registers operations, schemas and workflows, names its providers and builds. What is
built offers every operation and every workflow under its own revision, and its schema
compiler reports what it refuses. The validator of schemas, and what an operation answers as
its descriptor, are code of others.

## Main results

- `Assembled.keyed`: a composition offers nothing under a foreign revision.
- `Assembled.reports`: every error of its schema compiler carries a diagnostic.
-/

namespace WorkflowForge.Engine

open Lib

/-! ## The schema compiler -/

/-- The library that validates documents, given the resources a schema may reference. -/
abbrev Validator := BTreeMap String Value → Value → Option (Value → Option String)

def offlineSchemas (resources : List SchemaResource) : BTreeMap String Value :=
  resources.foldl (fun m r => m.insert r.uri r.schema) ∅

def CompiledSchema.compile (validator : Validator) (limits : Limits)
    (resources : List SchemaResource) (schema : Value) : Except ForgeError CompiledSchema := do
  let _ ← checkValue schema limits.documentBytes limits.jsonDepth
  let cost ← Inspect.expansionCost (offlineSchemas resources) schema
  let violation ← okOr (validator (offlineSchemas resources) schema)
    (.new "schema.invalid"
      "Schema or reference is invalid or unsupported by the validation profile")
  return ⟨cost, violation⟩

/-! ## What a host registers -/

def registerWorkflow (limits : Limits)
    (workflows : BTreeMap WorkflowRevision WorkflowDefinition) (definition : WorkflowDefinition) :
    Except ForgeError (BTreeMap WorkflowRevision WorkflowDefinition) := do
  let _ ← checkValue (serialize definition) limits.documentBytes limits.jsonDepth
  let revision := definition.workflowRevision
  ensure (!(revision.id = "" || revision.revision = "" || workflows.contains revision))
    (.new "state.conflict" "Workflow identity must be nonempty and registered once")
  ensure (workflows.size < 1000) (.new "resource.limit" "Definition catalog is full")
  return workflows.insert revision definition

/-- The workflows that some sequence of accepted calls registered. -/
inductive Catalogued : BTreeMap WorkflowRevision WorkflowDefinition → Prop where
  | empty : Catalogued ∅
  | call {limits : Limits} {workflows workflows' : BTreeMap WorkflowRevision WorkflowDefinition}
      {definition : WorkflowDefinition} : Catalogued workflows →
      registerWorkflow limits workflows definition = .ok workflows' → Catalogued workflows'

/-- What the providers of a host answer. -/
structure Providers where
  durable : Bool
  checkpointFormat : UInt32
  coordinatedArtifacts : Bool
  secrets : (scope name : String) → Bool

/-- What a host has registered. An operation is known by what it answers as its descriptor
when the composition is built. -/
structure EngineBuilder where
  scope : String
  limits : Limits := {}
  operations : BTreeMap OperationRevision OperationDescriptor := ∅
  resources : BTreeMap String SchemaResource := ∅
  workflows : BTreeMap WorkflowRevision WorkflowDefinition := ∅

/-! ## Building -/

/-- No limit is zero, and the runs in all can be counted. -/
def Limits.valid (l : Limits) : Bool :=
  [l.documentBytes, l.planBytes, l.schemaResources, l.nodes, l.jsonDepth, l.bindingDepth,
    l.bindingSteps, l.valueBytes, l.runBytes, l.activeRuns, l.concurrentAttempts, l.terminalRuns,
    l.receiptCount, l.controlDepth, l.groupBranches, l.groupConcurrency, l.activeScopes,
    l.foreachItems, l.loopIterations, l.activations, l.auditEntries, l.evidenceBytes,
    l.waitsPerRun, l.signalBytes].all (0 < ·) &&
  [l.attemptTimeoutMs, l.runTimeoutMs, l.retentionMs, l.receiptTtlMs, l.lateResponseGraceMs,
    l.waitTimeoutMs].all (· ≠ 0) &&
  l.maxRetryAttempts ≠ 0 && l.activeRuns + l.pendingRuns < 2 ^ 64

namespace EngineBuilder

/-- A resource of an operation that the providers have. -/
def provides (providers : Providers) (scope resource : String) : Bool :=
  resource = "artifacts" ||
    startsWith resource "secret:" && providers.secrets scope (.ofList (resource.toList.drop 7))

/-- Compiles an operation, whose descriptor may not have changed its revision. -/
def compileOperation (compile : Value → Except ForgeError CompiledSchema)
    (operations : BTreeMap OperationRevision CompiledOperation)
    (entry : OperationRevision × OperationDescriptor) :
    Except ForgeError (BTreeMap OperationRevision CompiledOperation) := do
  let compiled ← CompiledOperation.new compile entry.2
  ensure (compiled.descriptor.revision = entry.1)
    (.new "state.conflict" "An operation changed its descriptor during composition")
  return operations.insert entry.1 compiled

def build (validator : Validator) (providers : Providers) (id : String) (b : EngineBuilder) :
    Except ForgeError Catalog := do
  ensure (b.scope ≠ "" && Limits.valid b.limits)
    (.new "definition.invalid" "Composition scope and limits must be valid and nonzero")
  ensure (providers.checkpointFormat = checkpointFormat)
    (.new "capability.unsupported" "The store does not support the current checkpoint format")
  ensure ((BTreeMap.valueList b.operations).all fun d =>
      d.requiredResources.toList.all (provides providers b.scope))
    (.new "resource.missing" "A required module resource is unavailable")
  let compile := CompiledSchema.compile validator b.limits
  let operations ← b.operations.toList.foldlM
    (compileOperation (compile (BTreeMap.valueList b.resources))) ∅
  let composition : Catalog := {
    id := id
    scope := b.scope
    limits := b.limits
    durable := providers.durable
    coordinatedArtifacts := providers.coordinatedArtifacts
    compile := compile
    operations := operations
    schemaResources := b.resources
    workflows := b.workflows }
  (BTreeMap.valueList composition.workflows).forM fun definition => do
    let _ ← prepare composition definition
  return composition

end EngineBuilder

/-- A composition that a host has built. -/
def Assembled (validator : Validator) (c : Catalog) : Prop :=
  ∃ (providers : Providers) (id : String) (b : EngineBuilder),
    Catalogued b.workflows ∧ b.build validator providers id = .ok c

/-! ## Revisions -/

theorem registerWorkflow_eq_ok {limits : Limits}
    {workflows workflows' : BTreeMap WorkflowRevision WorkflowDefinition}
    {definition : WorkflowDefinition}
    (h : registerWorkflow limits workflows definition = .ok workflows') :
    workflows' = workflows.insert definition.workflowRevision definition := by
  obtain ⟨_, -, h⟩ := bind_eq_ok.mp h
  obtain ⟨_, -, h⟩ := bind_eq_ok.mp h
  obtain ⟨_, -, h⟩ := bind_eq_ok.mp h
  exact (Except.ok.inj h).symm

theorem Catalogued.keyed {workflows : BTreeMap WorkflowRevision WorkflowDefinition}
    (h : Catalogued workflows) :
    ∀ (k : WorkflowRevision) d, workflows[k]? = some d → d.workflowRevision = k := by
  induction h with
  | empty => intro k d hd; simp at hd
  | @call limits workflows workflows' definition _ hcall ih =>
    intro k d hd
    rw [registerWorkflow_eq_ok hcall, BTreeMap.get_insert] at hd
    split at hd
    next heq =>
      cases hd
      exact heq
    · exact ih k d hd

/-- What is built: the schema compiler, the operations and the registered workflows. -/
theorem EngineBuilder.build_eq_ok {validator : Validator} {providers : Providers} {id : String}
    {b : EngineBuilder} {c : Catalog} (h : b.build validator providers id = .ok c) :
    c.compile = CompiledSchema.compile validator c.limits ∧ c.workflows = b.workflows ∧
      b.operations.toList.foldlM (compileOperation (c.compile c.schemas)) ∅ =
        .ok c.operations := by
  obtain ⟨_, -, h⟩ := bind_eq_ok.mp h
  obtain ⟨_, -, h⟩ := bind_eq_ok.mp h
  obtain ⟨_, -, h⟩ := bind_eq_ok.mp h
  obtain ⟨operations, hoperations, h⟩ := bind_eq_ok.mp h
  obtain ⟨_, -, h⟩ := bind_eq_ok.mp h
  cases h
  exact ⟨rfl, rfl, hoperations⟩

/-- A composition offers nothing under a foreign revision. -/
theorem Assembled.keyed {validator : Validator} {c : Catalog} (h : Assembled validator c) :
    c.Keyed := by
  obtain ⟨providers, id, b, hworkflows, hbuild⟩ := h
  obtain ⟨-, heq, hoperations⟩ := EngineBuilder.build_eq_ok hbuild
  refine ⟨?_, heq ▸ hworkflows.keyed⟩
  refine foldlM_invariant (P := fun operations : BTreeMap OperationRevision CompiledOperation =>
    ∀ (k : OperationRevision) op, operations[k]? = some op → op.descriptor.revision = k)
    (fun operations entry operations' hops h k op hop => ?_) (fun k op hop => by simp at hop)
    hoperations
  obtain ⟨compiled, -, h⟩ := bind_eq_ok.mp h
  obtain ⟨_, hrevision, h⟩ := bind_eq_ok.mp h
  cases h
  rw [BTreeMap.get_insert] at hop
  split at hop
  next heq =>
    cases hop
    exact (of_decide_eq_true (ensure_eq_ok.mp hrevision)).trans heq
  · exact hops k op hop

/-! ## Errors of the schema compiler -/

section Inspect

open Inspect

variable {resources : BTreeMap String Value}

theorem admissible_reported {nested : Bool} {obj : Members} {e : ForgeError}
    (h : admissible nested obj = .error e) : Reported e := by
  rcases bind_eq_error.mp h with h | ⟨_, -, h⟩
  · exact ensure_reported (reported_new _ _) h
  rcases bind_eq_error.mp h with h | ⟨_, -, h⟩
  · exact ensure_reported (reported_new _ _) h
  rcases bind_eq_error.mp h with h | ⟨_, -, h⟩
  · exact ensure_reported (reported_new _ _) h
  · exact ensure_reported (reported_new _ _) h

theorem locate_reported {root : Document} {reference : Value} {e : ForgeError}
    (h : locate resources root reference = .error e) : Reported e := by
  rcases bind_eq_error.mp h with h | ⟨_, -, h⟩
  · exact (okOr_eq_error.mp h).2 ▸ reported_new _ _
  rcases bind_eq_error.mp h with h | ⟨_, -, h⟩
  · exact ensure_reported (reported_new _ _) h
  rcases bind_eq_error.mp h with h | ⟨_, -, h⟩
  · unfold document at h
    split at h
    · nomatch h
    · exact (okOr_eq_error.mp h).2 ▸ reported_new _ _
  · nomatch h

theorem follow_reported {root : Document} {active : BTreeSet Reference} {reference : Value}
    {e : ForgeError} (h : follow resources root active reference = .error e) : Reported e := by
  rcases bind_eq_error.mp h with h | ⟨_, -, h⟩
  · exact locate_reported h
  rcases bind_eq_error.mp h with h | ⟨_, -, h⟩
  · exact ensure_reported (reported_new _ _) h
  rcases bind_eq_error.mp h with h | ⟨_, -, h⟩
  · exact (okOr_eq_error.mp h).2 ▸ reported_new _ _
  · nomatch h

theorem branches_reported {p : Position} {e : ForgeError} (h : branches resources p = .error e) :
    Reported e := by
  unfold branches at h
  split at h
  · nomatch h
  · rcases bind_eq_error.mp h with h | ⟨_, -, h⟩
    · exact admissible_reported h
    rcases bind_eq_error.mp h with h | ⟨_, -, h⟩
    · unfold target at h
      split at h
      · nomatch h
      rcases bind_eq_error.mp h with h | ⟨_, -, h⟩
      · exact follow_reported h
      · nomatch h
    · nomatch h
  · exact Except.error.inj h ▸ reported_new _ _

/-- What is not expanded is refused by its budget or at one of its positions. -/
theorem expansionCost_reported {schema : Value} {e : ForgeError}
    (h : expansionCost resources schema = .error e) : Reported e := by
  have hinspect := map_eq_error.mp h
  have hvisit := @inspectWithin_eq resources _ _ 0 _ (@rfl _ (maxDepth + 1 - 0))
    (@rfl _ (Position.start schema ⟨none, schema⟩ ∅ false).nested)
  have hfails := map_eq_error.mp (hvisit.symm.trans hinspect)
  rcases trail_of_visit_error hfails with rfl | ⟨p, y, -, hy⟩
  · exact reported_new _ _
  · exact branches_reported hy

end Inspect

theorem CompiledSchema.compile_reported {validator : Validator} {limits : Limits}
    {resources : List SchemaResource} {schema : Value} {e : ForgeError}
    (h : CompiledSchema.compile validator limits resources schema = .error e) : Reported e := by
  rcases bind_eq_error.mp h with h | ⟨_, -, h⟩
  · exact checkValue_reported h
  rcases bind_eq_error.mp h with h | ⟨_, -, h⟩
  · exact expansionCost_reported h
  rcases bind_eq_error.mp h with h | ⟨_, -, h⟩
  · exact (okOr_eq_error.mp h).2 ▸ reported_new _ _
  · nomatch h

theorem Assembled.reports {validator : Validator} {c : Catalog} (h : Assembled validator c) :
    c.Reports := by
  obtain ⟨providers, id, b, -, hbuild⟩ := h
  intro resources schema e he
  rw [(EngineBuilder.build_eq_ok hbuild).1] at he
  exact CompiledSchema.compile_reported he

/-! ## A small composition -/

/-- A validator that accepts every document, for examples. -/
def sampleValidator : Validator := fun _ _ => some fun _ => none

/-- A payment that needs a secret, for examples. -/
def payDescriptor : OperationDescriptor where
  revision := ⟨"bank.pay", "1", "1"⟩
  schemaDialect := schemaDialect
  configSchema := .bool true
  inputSchema := .bool true
  outputSchema := .bool true
  effect := .write
  repetition := .unsafe_
  reconciliation := false
  requiredResources := {"secret:bank"}
  description := ""
  examples := []

/-- A definition of some nodes in a chain from the first, for examples. -/
def sampleDefinition (id : String) (nodes : List NodeDefinition) (edges : List Edge) :
    WorkflowDefinition where
  format := workflowFormat
  id := id
  revision := "1"
  schemaDialect := schemaDialect
  inputSchema := .bool true
  outputSchema := .bool true
  entry := (nodes.map NodeDefinition.id).headD ""
  nodes := nodes
  edges := edges
  output := .literal .null
  presentation := ∅

/-- One payment. -/
def leafDefinition : WorkflowDefinition :=
  sampleDefinition "leaf"
    [⟨"pay", .literal .null, .operation payDescriptor.revision .null {}⟩] []

/-- A payment in a workflow of its own, that is protected by a handler. -/
def mainDefinition : WorkflowDefinition :=
  sampleDefinition "main"
    [⟨"safe", .literal .null, .try
      ⟨"call", [⟨"call", .literal .null, .subworkflow ⟨"leaf", "1"⟩⟩], [], .literal .null⟩ []
      ⟨"otherwise", ⟨"rest", [⟨"rest", .literal .null, .timer 10⟩], [], .literal .null⟩⟩⟩] []

def sampleProviders : Providers where
  durable := true
  checkpointFormat := checkpointFormat
  coordinatedArtifacts := true
  secrets scope name := scope = "scope" && name = "bank"

def sampleBuilder : EngineBuilder where
  scope := "scope"
  operations := (∅ : BTreeMap OperationRevision OperationDescriptor).insert payDescriptor.revision
    payDescriptor
  workflows := (∅ : BTreeMap WorkflowRevision WorkflowDefinition).insert ⟨"leaf", "1"⟩
    leafDefinition

/-- What is computed of the sample composition holds of a composition that was built. -/
theorem sample_assembled {p : Catalog → Bool}
    (h : (sampleBuilder.build sampleValidator sampleProviders "sample").toOption.any p = true) :
    ∃ c, Assembled sampleValidator c ∧ p c = true := by
  have hregister : (registerWorkflow {} ∅ leafDefinition).toOption.any (fun _ => true) = true := by
    decide +kernel
  obtain ⟨workflows, hw, -⟩ := exists_ok hregister
  obtain ⟨c, hc, hp⟩ := exists_ok h
  have hworkflows : Catalogued sampleBuilder.workflows := by
    have h := Catalogued.call .empty hw
    rwa [registerWorkflow_eq_ok hw] at h
  exact ⟨c, ⟨_, _, _, hworkflows, hc⟩, hp⟩

end WorkflowForge.Engine
