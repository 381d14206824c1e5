import WorkflowForge.Engine.Closure

/-!
# Recovery

A run that is taken up again is compiled from its own package: the composition answers the
operations, under the contracts the run was accepted with, and everything else comes from
the package. The plan has to consult exactly what the package holds, and no resource the run
was not granted.

## Main results

- `recover_eq_ok`: what recovery answers.
- `recover_closed`: a recovered plan contains what it can run, and was granted its resources.
-/

namespace WorkflowForge.Engine

open Lib

/-! ## What a package restores -/

def restoreWorkflow (workflows : BTreeMap WorkflowRevision WorkflowDefinition)
    (definition : WorkflowDefinition) :
    Except ForgeError (BTreeMap WorkflowRevision WorkflowDefinition) := do
  ensure (!workflows.contains definition.workflowRevision)
    (recoveryUnavailable "Checkpoint contains duplicate workflow revisions")
  return workflows.insert definition.workflowRevision definition

def restoreOperation (c : Composition) (package : ResolvedPackage)
    (operations : BTreeMap OperationRevision CompiledOperation)
    (descriptor : OperationDescriptor) :
    Except ForgeError (BTreeMap OperationRevision CompiledOperation) := do
  let operation ← recoverOperation c package descriptor.revision
  ensure (!operations.contains descriptor.revision)
    (recoveryUnavailable "Checkpoint contains duplicate operation revisions")
  return operations.insert descriptor.revision operation

/-- The resources of a package by their identities. -/
def restoreSchemas (schemas : List SchemaResource) : BTreeMap String SchemaResource :=
  schemas.foldl (fun m r => m.insert r.uri r) ∅

/-- The composition with nothing but what the package of a run holds. -/
def restore (c : Catalog) (run : RunSnapshot) : Except ForgeError Catalog := do
  ensure (run.checkpointFormat = checkpointFormat)
    (recoveryUnavailable "Unsupported checkpoint format; dependencies cannot be inferred")
  ensure (run.package.definitions.length ≤ 1000 &&
      run.package.schemas.length ≤ c.limits.schemaResources &&
      jsonBytes run.package ≤ c.limits.planBytes)
    (recoveryUnavailable "Checkpoint package exceeds the host budget")
  let workflows ← run.package.definitions.foldlM restoreWorkflow ∅
  ensure (Same .source workflows[run.definition.workflowRevision]? (some run.definition))
    (recoveryUnavailable "Root definition differs from its accepted package")
  let schemas ← packageSchemas run.package
  let operations ← run.package.operations.foldlM (restoreOperation c.composition run.package) ∅
  return { c with
    workflows := workflows
    schemaResources := restoreSchemas schemas
    operations := operations }

def recover (c : Catalog) (run : RunSnapshot) : Except ForgeError Plan := do
  let restored ← restore c run
  let plan ← prepare restored run.definition
  ensure (Same .source plan.package.semanticValue run.package.semanticValue)
    (recoveryUnavailable "Checkpoint does not contain the exact resolved dependency set")
  ensure (plan.resources.toList.all fun r =>
      run.resources.contains "*" || run.resources.contains r)
    (recoveryUnavailable "Checkpoint lacks the resources required by its accepted plan")
  return plan

/-! ## What was restored -/

theorem recoverOperation_revision {c : Composition} {package : ResolvedPackage}
    {revision : OperationRevision} {op : CompiledOperation}
    (h : recoverOperation c package revision = .ok op) : op.descriptor.revision = revision := by
  obtain ⟨descriptor, hfound, h⟩ := bind_eq_ok.mp h
  obtain ⟨current, -, h⟩ := bind_eq_ok.mp h
  obtain ⟨_, hsame, h⟩ := bind_eq_ok.mp h
  obtain ⟨schemas, -, h⟩ := bind_eq_ok.mp h
  rw [CompiledOperation.new_descriptor h]
  -- the contract that is offered now names the revision it was accepted under
  have hsame := of_decide_eq_true (ensure_eq_ok.mp hsame)
  rw [← (OperationDescriptor.semanticValue_inj hsame).1]
  simpa using List.find?_some (okOr_eq_ok.mp hfound)

theorem restoreOperation_keyed {c : Composition} {package : ResolvedPackage}
    {ds : List OperationDescriptor} {operations : BTreeMap OperationRevision CompiledOperation}
    (h : ds.foldlM (restoreOperation c package) ∅ = .ok operations) :
    ∀ (k : OperationRevision) op, operations[k]? = some op → op.descriptor.revision = k := by
  refine foldlM_invariant (P := fun operations : BTreeMap OperationRevision CompiledOperation =>
    ∀ (k : OperationRevision) op, operations[k]? = some op → op.descriptor.revision = k)
    (fun operations d operations' hops h k op hop => ?_) (fun k op hop => by simp at hop) h
  obtain ⟨operation, hoperation, h⟩ := bind_eq_ok.mp h
  obtain ⟨_, -, h⟩ := bind_eq_ok.mp h
  cases h
  rw [BTreeMap.get_insert] at hop
  split at hop
  next heq =>
    cases hop
    exact (recoverOperation_revision hoperation).trans heq
  · exact hops k op hop

theorem restoreWorkflow_keyed {ds : List WorkflowDefinition}
    {workflows : BTreeMap WorkflowRevision WorkflowDefinition}
    (h : ds.foldlM restoreWorkflow ∅ = .ok workflows) :
    ∀ (k : WorkflowRevision) d, workflows[k]? = some d → d.workflowRevision = k := by
  refine foldlM_invariant (P := fun workflows : BTreeMap WorkflowRevision WorkflowDefinition =>
    ∀ (k : WorkflowRevision) d, workflows[k]? = some d → d.workflowRevision = k)
    (fun workflows definition workflows' hws h k d hd => ?_) (fun k d hd => by simp at hd) h
  obtain ⟨_, -, h⟩ := bind_eq_ok.mp h
  cases h
  rw [BTreeMap.get_insert] at hd
  split at hd
  next heq =>
    cases hd
    exact heq
  · exact hws k d hd

/-- What a package restores is filed under its own revisions. -/
theorem restore_keyed {c r : Catalog} {run : RunSnapshot} (h : restore c run = .ok r) :
    r.Keyed := by
  obtain ⟨_, -, h⟩ := bind_eq_ok.mp h
  obtain ⟨_, -, h⟩ := bind_eq_ok.mp h
  obtain ⟨workflows, hworkflows, h⟩ := bind_eq_ok.mp h
  obtain ⟨_, -, h⟩ := bind_eq_ok.mp h
  obtain ⟨schemas, -, h⟩ := bind_eq_ok.mp h
  obtain ⟨operations, hoperations, h⟩ := bind_eq_ok.mp h
  cases h
  exact ⟨restoreOperation_keyed hoperations, restoreWorkflow_keyed hworkflows⟩

/-- The schema compiler is that of the composition. -/
theorem restore_compile {c r : Catalog} {run : RunSnapshot} (h : restore c run = .ok r) :
    r.compile = c.compile := by
  obtain ⟨_, -, h⟩ := bind_eq_ok.mp h
  obtain ⟨_, -, h⟩ := bind_eq_ok.mp h
  obtain ⟨workflows, -, h⟩ := bind_eq_ok.mp h
  obtain ⟨_, -, h⟩ := bind_eq_ok.mp h
  obtain ⟨schemas, -, h⟩ := bind_eq_ok.mp h
  obtain ⟨operations, -, h⟩ := bind_eq_ok.mp h
  cases h
  rfl

/-- What recovery answers: the plan of the restored composition, if its package is that of
the run and its resources were granted. -/
theorem recover_eq_ok {c : Catalog} {run : RunSnapshot} {p : Plan} :
    recover c run = .ok p ↔
      ∃ r, restore c run = .ok r ∧ prepare r run.definition = .ok p ∧
        Same .source p.package.semanticValue run.package.semanticValue ∧
        ∀ x ∈ p.resources, "*" ∈ run.resources ∨ x ∈ run.resources := by
  constructor
  · intro h
    obtain ⟨r, hr, h⟩ := bind_eq_ok.mp h
    obtain ⟨plan, hp, h⟩ := bind_eq_ok.mp h
    obtain ⟨_, hsame, h⟩ := bind_eq_ok.mp h
    obtain ⟨_, hgranted, h⟩ := bind_eq_ok.mp h
    cases h
    refine ⟨r, hr, hp, of_decide_eq_true (ensure_eq_ok.mp hsame), fun x hx => ?_⟩
    have := List.all_eq_true.mp (ensure_eq_ok.mp hgranted) x (Std.ExtTreeSet.mem_toList.mpr hx)
    simpa using this
  · rintro ⟨r, hr, hp, hsame, hgranted⟩
    -- a wildcard grants everything
    have hall : (p.resources.toList.all fun x =>
        run.resources.contains "*" || run.resources.contains x) = true :=
      List.all_eq_true.mpr fun x hx => by
        simpa using hgranted x (Std.ExtTreeSet.mem_toList.mp hx)
    simp only [recover, hr, hp, ok_bind, hsame, decide_true, ensure_true, hall]
    rfl

/-- A recovered plan contains what it can run and enter, and was granted its resources. -/
theorem recover_closed {c : Catalog} (hc : c.Reports) {run : RunSnapshot} {p : Plan}
    (h : recover c run = .ok p) :
    p.Closed ∧ p.definition = run.definition ∧
      ∀ x ∈ p.resources, "*" ∈ run.resources ∨ x ∈ run.resources := by
  obtain ⟨r, hr, hp, -, hgranted⟩ := recover_eq_ok.mp h
  have hreports : r.Reports := by
    rw [Catalog.Reports, restore_compile hr]
    exact hc
  obtain ⟨hclosed, hdefinition⟩ := prepare_closed (restore_keyed hr) hreports hp
  exact ⟨hclosed, hdefinition, hgranted⟩

end WorkflowForge.Engine
