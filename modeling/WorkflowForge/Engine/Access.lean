import WorkflowForge.Engine.Steps

/-!
# Compositions and Callers

What the commands of a host are checked against: the caller, the phase of the runtime, and
the composition with its limits, its operations and its schema compiler. Commands that need
a contract of an accepted run compile it from the package of the run, never from what is
registered now.
-/

namespace WorkflowForge.Engine

open Lib

/-! ## Callers -/

inductive Permission where
  | prepare
  | start
  | read
  | cancel
  | signal
  | reconcile
  | stopTracking
deriving DecidableEq

/-- Constructed by the host for one caller. -/
structure AccessContext where
  scope : String
  actor : String
  permissions : List Permission
  resources : BTreeSet String
deriving DecidableEq

def AccessContext.permitsResource (self : AccessContext) (name : String) : Bool :=
  self.resources.contains "*" || self.resources.contains name

/-! ## The runtime -/

inductive Phase where
  | ready
  | draining
  | stopped
  | failed
deriving DecidableEq

/-- What the commands use of a composition. `compile` is the schema compiler. -/
structure Composition where
  scope : String
  limits : Limits
  durable : Bool
  coordinatedArtifacts : Bool
  operations : OperationRevision → Option OperationDescriptor
  compile : List SchemaResource → Value → Except ForgeError CompiledSchema

def unavailable : ForgeError :=
  .new "runtime.unavailable" "Runtime is not available for this command"

/-- Checks a command against the phase, the scope and the permissions. -/
def authorize (c : Composition) (phase : Phase) (access : AccessContext)
    (permission : Permission) (admission : Bool) : Except ForgeError Unit :=
  if phase = .stopped ∨ phase = .failed ∨ (admission ∧ phase ≠ .ready) then .error unavailable
  else if access.scope ≠ c.scope ∨ permission ∉ access.permissions then
    .error (.new "access.denied" "Command is not permitted in this scope")
  else .ok ()

theorem authorize_scope {c : Composition} {phase : Phase} {access : AccessContext}
    {permission : Permission} {admission : Bool}
    (h : authorize c phase access permission admission = .ok ()) : access.scope = c.scope := by
  unfold authorize at h
  split at h
  · nomatch h
  · split at h
    · nomatch h
    next hs => exact not_not.mp (not_or.mp hs).1

/-- A run of another scope is not visible. -/
def read (c : Composition) (run : RunSnapshot) : Except ForgeError RunSnapshot :=
  if run.scope = c.scope then .ok run else .error (.new "not_found" "Run is unavailable")

theorem read_eq_ok {c : Composition} {run run' : RunSnapshot} (h : read c run = .ok run') :
    run.scope = c.scope ∧ run' = run := by
  unfold read at h
  split at h
  next hs => exact ⟨hs, (Except.ok.inj h).symm⟩
  · nomatch h

/-! ## Contracts of an accepted run -/

def recoveryUnavailable (message : String) : ForgeError :=
  .new "recovery.unavailable" message

/-- The schema resources of a package, one for each identity. -/
def packageSchemas (package : ResolvedPackage) : Except ForgeError (List SchemaResource) :=
  if package.schemas.all (fun r => r.revision ≠ "") ∧ (package.schemas.map SchemaResource.uri).Nodup
  then .ok package.schemas
  else .error (recoveryUnavailable "Checkpoint contains conflicting schema identities")

/-- Compiles a schema under the resources of the accepted package. -/
def recoverSchema (c : Composition) (package : ResolvedPackage) (schema : Value) :
    Except ForgeError CompiledSchema := do
  ensure (package.schemas.length ≤ c.limits.schemaResources)
    (recoveryUnavailable "Accepted schemas exceed the host budget")
  c.compile (← packageSchemas package) schema

/-- The contract of an operation without what only documents it. -/
def OperationDescriptor.semanticValue (d : OperationDescriptor) : Value := .object
  [("revision", serialize d.revision), ("schema_dialect", serialize d.schemaDialect),
   ("config_schema", d.configSchema), ("input_schema", d.inputSchema),
   ("output_schema", d.outputSchema), ("effect", serialize d.effect),
   ("repetition", serialize d.repetition), ("reconciliation", serialize d.reconciliation),
   ("required_resources", serialize d.requiredResources)]

/-- A contract fixes the revision it is offered under, what is done and whether it may be
repeated. -/
theorem OperationDescriptor.semanticValue_inj {d d' : OperationDescriptor}
    (h : Same .source (OperationDescriptor.semanticValue d)
      (OperationDescriptor.semanticValue d')) :
    d.revision = d'.revision ∧ d.effect = d'.effect ∧ d.repetition = d'.repetition := by
  -- these parts hold no documents
  have hrevision : ∀ r : OperationRevision, signless (serialize r) = serialize r := fun _ => rfl
  have heffect : ∀ e : EffectKind, signless (serialize e) = serialize e := by
    intro e
    cases e <;> rfl
  have hrepetition : ∀ r : Repetition, signless (serialize r) = serialize r := by
    intro r
    cases r <;> rfl
  unfold OperationDescriptor.semanticValue at h
  rw [same_object] at h
  simp only [List.map_cons, List.map_nil, List.cons.injEq, Prod.mk.injEq, true_and, hrevision,
    heffect, hrepetition] at h
  exact ⟨serialize_injective h.1, serialize_injective h.2.2.2.2.2.1,
    serialize_injective h.2.2.2.2.2.2.1⟩

/-! ## Compiled operations -/

def schemaDialect : String := "https://json-schema.org/draft/2020-12/schema"

/-- An identity that does not name one exact version. -/
def inexact (s : String) : Bool :=
  s = "" || s = "latest" || s.toList.contains '*'

/-- An object schema names its dialect. -/
def declaresDialect : Value → Bool
  | .object members => (members.lookup "$schema").bind Value.asStr = some schemaDialect
  | _ => true

/-- Compiles the contracts of an operation, whose descriptor has to be coherent. -/
def CompiledOperation.new (compile : Value → Except ForgeError CompiledSchema)
    (d : OperationDescriptor) : Except ForgeError CompiledOperation := do
  ensure (d.revision.id.toList.contains '.' &&
    [d.revision.id, d.revision.contract, d.revision.implementation].all (!inexact ·) &&
    d.schemaDialect = schemaDialect && !(d.effect = .pure && d.repetition ≠ .safe))
    (.new "definition.invalid"
      "Operation descriptor has invalid identities, dialect or effect guarantees")
  ensure ([d.configSchema, d.inputSchema, d.outputSchema].all declaresDialect)
    (.new "schema.invalid"
      "Object schemas in operation descriptors must declare their dialect")
  return {
    config := ← compile d.configSchema
    input := ← compile d.inputSchema
    output := ← compile d.outputSchema
    descriptor := d }

theorem CompiledOperation.new_descriptor {compile : Value → Except ForgeError CompiledSchema}
    {d : OperationDescriptor} {op : CompiledOperation}
    (h : CompiledOperation.new compile d = .ok op) :
    op.descriptor = d := by
  obtain ⟨_, -, h⟩ := bind_eq_ok.mp h
  obtain ⟨_, -, h⟩ := bind_eq_ok.mp h
  obtain ⟨_, -, h⟩ := bind_eq_ok.mp h
  obtain ⟨_, -, h⟩ := bind_eq_ok.mp h
  obtain ⟨_, -, h⟩ := bind_eq_ok.mp h
  cases h
  rfl

/-- The operation a run was accepted with, compiled under its own package. -/
def recoverOperation (c : Composition) (package : ResolvedPackage)
    (revision : OperationRevision) : Except ForgeError CompiledOperation := do
  let descriptor ← okOr (package.operations.find? fun d => d.revision = revision)
    (recoveryUnavailable "Checkpoint is missing an operation descriptor")
  let current ← okOr (c.operations revision)
    (recoveryUnavailable "The accepted operation implementation is unavailable")
  ensure (Same .source (OperationDescriptor.semanticValue descriptor)
      (OperationDescriptor.semanticValue current))
    (recoveryUnavailable "Operation contract changed without a new revision")
  let schemas ← packageSchemas package
  CompiledOperation.new (c.compile schemas) current

end WorkflowForge.Engine
