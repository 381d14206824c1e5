import WorkflowForge.Store.Trait
import WorkflowForge.Engine.Semantic
import WorkflowForge.Engine.Signals

/-!
# Starting a Run

The command that accepts a run. It is checked against its caller and its plan, then the
store is collected and asked to create the run, with a receipt if the caller named a key.
The identity of the run is fresh, so an equal request is told from a new one by its receipt
alone.
-/

namespace WorkflowForge.Engine

open Lib

/-! ## Requests -/

/-- What a start reads of a prepared plan. -/
structure PreparedWorkflow where
  composition : String
  definition : WorkflowDefinition
  input : CompiledSchema
  resources : BTreeSet String
  package : ResolvedPackage

structure StartOptions where
  requireDurable : Bool := false
  timeoutMs : Option UInt64 := none
  receiptKey : Option String := none
  artifacts : List ArtifactRef := []

structure StartRunRequest where
  plan : PreparedWorkflow
  input : Value
  options : StartOptions := {}

structure StartReceipt where
  runId : RunId
  durable : Bool
  duplicate : Bool
  deduplicatedUntilMs : Option UInt64
deriving DecidableEq

/-! ## Checks -/

def authorizeResources (plan : PreparedWorkflow) (access : AccessContext) :
    Except ForgeError Unit :=
  ensure (plan.resources.toList.all access.permitsResource)
    (.new "access.denied" "Plan requires a resource not granted to this caller")

/-- The declared artifacts in order, if the caller may declare them. -/
def checkStartArtifacts (c : Composition) (access : AccessContext)
    (artifacts : List ArtifactRef) : Except ForgeError (List ArtifactRef) :=
  if artifacts = [] then .ok []
  else do
    ensure (access.permitsResource "artifacts" ∧ artifacts.all fun a => a.scope = access.scope)
      (.new "access.denied" "Input artifacts are outside the caller's grants")
    ensure (!c.durable || c.coordinatedArtifacts)
      (.new "capability.unsupported" "Input artifacts require coordinated retention")
    let artifacts := sortArtifacts artifacts
    ensure (artifacts.length ≤ 1000 ∧ ¬repeatsIdentity artifacts ∧
      jsonBytes artifacts ≤ c.limits.valueBytes)
      (.new "resource.limit"
        "Input artifact declarations exceed their budget or contain duplicates")
    return artifacts

/-- The time a run is given. -/
def startTimeout (limits : Limits) (options : StartOptions) : UInt64 :=
  let requested := options.timeoutMs.getD limits.runTimeoutMs
  if requested ≤ limits.runTimeoutMs then requested else limits.runTimeoutMs

/-- The checks before the store is asked; answers the artifacts in order. -/
def checkStart (c : Composition) (owner : String) (phase : Phase) (access : AccessContext)
    (request : StartRunRequest) : Except ForgeError (List ArtifactRef) := do
  authorize c phase access .start true
  ensure (request.plan.composition = owner)
    (.new "state.conflict" "Plan belongs to another composition")
  authorizeResources request.plan access
  ensure (!request.options.requireDurable || c.durable)
    (.new "capability.unsupported" "This composition is ephemeral")
  let artifacts ← checkStartArtifacts c access request.options.artifacts
  ensure (startTimeout c.limits request.options ≠ 0 ∧
    request.options.receiptKey.all validCorrelation)
    (.new "definition.invalid" "Invalid start deadline or receipt key")
  request.plan.input.validate request.input c.limits
  return artifacts

/-! ## What the store is asked -/

/-- What makes two start requests equal. -/
def requestValue (limits : Limits) (access : AccessContext) (request : StartRunRequest)
    (artifacts : List ArtifactRef) : Value := .object
  [("package", request.plan.package.semanticValue), ("input", request.input),
   ("options", .object
     ([("require_durable", serialize request.options.requireDurable),
       ("timeout_ms", serialize (startTimeout limits request.options))]
      ++ if artifacts = [] then [] else [("artifacts", serialize artifacts)])),
   ("resources", serialize access.resources)]

/-- The receipt a request asks for. -/
def reservation (limits : Limits) (access : AccessContext) (request : StartRunRequest)
    (artifacts : List ArtifactRef) (now : UInt64) : Option ReceiptReservation :=
  request.options.receiptKey.map fun key =>
    ⟨key, requestValue limits access request artifacts,
      saturatingAdd now limits.receiptTtlMs⟩

/-- The run as it is accepted. -/
def acceptedRun (limits : Limits) (access : AccessContext) (request : StartRunRequest)
    (artifacts : List ArtifactRef) (now : UInt64) (id : RunId) : RunSnapshot where
  checkpointFormat := checkpointFormat
  id := id
  scope := access.scope
  actor := access.actor
  resources := access.resources
  revision := 0
  definition := request.plan.definition
  package := request.plan.package
  input := request.input
  artifacts := artifacts
  state := .accepted
  invocations := ∅
  output := none
  error := none
  createdAtMs := now
  deadlineAtMs := saturatingAdd now (startTimeout limits request.options)
  finishedAtMs := none
  cancelRequested := false

def startReceipt (c : Composition) (id : RunId) (reservation : Option ReceiptReservation) :
    CreateOutcome → StartReceipt
  | .duplicate runId expiresAtMs => ⟨runId, c.durable, true, some expiresAtMs⟩
  | .created => ⟨id, c.durable, false, reservation.map ReceiptReservation.expiresAtMs⟩

/-! ## The command -/

section Start

variable {S : Type} (store : ExecutionStore S) (c : Composition) (owner : String)

/-- The creation a checked start asks for, after the collection. -/
def createRun (access : AccessContext) (request : StartRunRequest)
    (artifacts : List ArtifactRef) (now : UInt64) (id : RunId) (s : S) :
    S × Except ForgeError StartReceipt :=
  let receipt := reservation c.limits access request artifacts now
  let run := acceptedRun c.limits access request artifacts now id
  if run.retainedDataBytes > c.limits.runBytes then
    (s, .error (.new "resource.limit" "Accepted data exceeds the run budget"))
  else
    match store.create s owner run receipt c.limits with
    | (s, answer) => (s, answer.map (startReceipt c id receipt))

def start (phase : Phase) (access : AccessContext) (request : StartRunRequest) (now : UInt64)
    (id : RunId) (s : S) : S × Except ForgeError StartReceipt :=
  match checkStart c owner phase access request with
  | .error e => (s, .error e)
  | .ok artifacts =>
    match store.collect s owner now c.limits with
    | (s, .error e) => (s, .error e)
    | (s, .ok ()) => createRun store c owner access request artifacts now id s

end Start

end WorkflowForge.Engine
