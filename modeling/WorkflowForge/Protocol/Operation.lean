import WorkflowForge.Protocol.Definition

/-!
# Operations

The contract of a compiled operation, the resources a recovery package pins beside it,
and their persisted form.
-/

namespace WorkflowForge

open Lib

/-! ## Contracts -/

/-- What an operation may do to the outside. -/
inductive EffectKind where
  | pure
  | read
  | write
deriving DecidableEq

instance : Serialize EffectKind where
  serialize
    | .pure => .string "pure"
    | .read => .string "read"
    | .write => .string "write"

instance : Deserialize EffectKind where
  deserialize
    | .string "pure" => some .pure
    | .string "read" => some .read
    | .string "write" => some .write
    | _ => none

instance : LawfulSerde EffectKind := ⟨fun k => by cases k <;> rfl⟩

/-- Whether calling an operation again may apply its effect again. -/
inductive Repetition where
  | safe
  | keyed
  | unsafe_
deriving DecidableEq

instance : Serialize Repetition where
  serialize
    | .safe => .string "safe"
    | .keyed => .string "keyed"
    | .unsafe_ => .string "unsafe"

instance : Deserialize Repetition where
  deserialize
    | .string "safe" => some .safe
    | .string "keyed" => some .keyed
    | .string "unsafe" => some .unsafe_
    | _ => none

instance : LawfulSerde Repetition := ⟨fun r => by cases r <;> rfl⟩

structure OperationDescriptor where
  revision : OperationRevision
  schemaDialect : String
  configSchema : Value
  inputSchema : Value
  outputSchema : Value
  effect : EffectKind
  repetition : Repetition
  reconciliation : Bool
  requiredResources : BTreeSet String
  description : String
  examples : List Value
deriving DecidableEq

def OperationDescriptor.toValue (d : OperationDescriptor) : Value := .object
  [("revision", serialize d.revision), ("schema_dialect", serialize d.schemaDialect),
   ("config_schema", d.configSchema), ("input_schema", d.inputSchema),
   ("output_schema", d.outputSchema), ("effect", serialize d.effect),
   ("repetition", serialize d.repetition), ("reconciliation", serialize d.reconciliation),
   ("required_resources", serialize d.requiredResources),
   ("description", serialize d.description), ("examples", serialize d.examples)]

def OperationDescriptor.fromValue (v : Value) : Option OperationDescriptor := do
  let ms ← members v
  return {
    revision := ← required ms "revision"
    schemaDialect := ← required ms "schema_dialect"
    configSchema := ← required ms "config_schema"
    inputSchema := ← required ms "input_schema"
    outputSchema := ← required ms "output_schema"
    effect := ← required ms "effect"
    repetition := ← required ms "repetition"
    reconciliation := ← required ms "reconciliation"
    requiredResources := ← required ms "required_resources"
    description := ← required ms "description"
    examples := ← required ms "examples" }

instance : Serialize OperationDescriptor := ⟨OperationDescriptor.toValue⟩
instance : Deserialize OperationDescriptor := ⟨OperationDescriptor.fromValue⟩

instance : LawfulSerde OperationDescriptor where
  readsAs d := by
    change OperationDescriptor.fromValue d.toValue = some d
    simp [OperationDescriptor.toValue, OperationDescriptor.fromValue]

/-! ## Pinned resources -/

/-- An authorized reference to an immutable artifact. -/
structure ArtifactRef where
  id : String
  scope : String
  bytes : UInt64
  mediaType : String
deriving DecidableEq

def ArtifactRef.toValue (a : ArtifactRef) : Value := .object
  [("id", serialize a.id), ("scope", serialize a.scope), ("bytes", serialize a.bytes),
   ("media_type", serialize a.mediaType)]

def ArtifactRef.fromValue (v : Value) : Option ArtifactRef := do
  let ms ← members v
  guard (onlyFields ["id", "scope", "bytes", "media_type"] ms)
  return {
    id := ← required ms "id"
    scope := ← required ms "scope"
    bytes := ← required ms "bytes"
    mediaType := ← required ms "media_type" }

instance : Serialize ArtifactRef := ⟨ArtifactRef.toValue⟩
instance : Deserialize ArtifactRef := ⟨ArtifactRef.fromValue⟩

instance : LawfulSerde ArtifactRef where
  readsAs a := by
    change ArtifactRef.fromValue a.toValue = some a
    simp [ArtifactRef.toValue, ArtifactRef.fromValue, onlyFields]

structure SchemaResource where
  uri : String
  revision : String
  schema : Value
deriving DecidableEq

def SchemaResource.toValue (r : SchemaResource) : Value := .object
  [("uri", serialize r.uri), ("revision", serialize r.revision), ("schema", r.schema)]

def SchemaResource.fromValue (v : Value) : Option SchemaResource := do
  let ms ← members v
  guard (onlyFields ["uri", "revision", "schema"] ms)
  return {
    uri := ← required ms "uri"
    revision := ← required ms "revision"
    schema := ← required ms "schema" }

instance : Serialize SchemaResource := ⟨SchemaResource.toValue⟩
instance : Deserialize SchemaResource := ⟨SchemaResource.fromValue⟩

instance : LawfulSerde SchemaResource where
  readsAs r := by
    change SchemaResource.fromValue r.toValue = some r
    simp [SchemaResource.toValue, SchemaResource.fromValue, onlyFields]

/-- Serializable recovery state: everything a run needs to be compiled again. -/
structure ResolvedPackage where
  definitions : List WorkflowDefinition := []
  operations : List OperationDescriptor := []
  schemas : List SchemaResource := []
deriving DecidableEq

def ResolvedPackage.toValue (p : ResolvedPackage) : Value := .object
  [("definitions", serialize p.definitions), ("operations", serialize p.operations),
   ("schemas", serialize p.schemas)]

def ResolvedPackage.fromValue (v : Value) : Option ResolvedPackage := do
  let ms ← members v
  guard (onlyFields ["definitions", "operations", "schemas"] ms)
  return {
    definitions := ← required ms "definitions"
    operations := ← required ms "operations"
    schemas := ← required ms "schemas" }

instance : Serialize ResolvedPackage := ⟨ResolvedPackage.toValue⟩
instance : Deserialize ResolvedPackage := ⟨ResolvedPackage.fromValue⟩

instance : LawfulSerde ResolvedPackage where
  readsAs p := by
    change ResolvedPackage.fromValue p.toValue = some p
    simp [ResolvedPackage.toValue, ResolvedPackage.fromValue, onlyFields]

end WorkflowForge
