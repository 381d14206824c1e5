import Mathlib.Algebra.BigOperators.Group.List.Basic
import WorkflowForge.Lib.Comparison
import WorkflowForge.Protocol.Execution

/-!
# Comparing Records

Where a record of the protocol holds documents. The equality that the source derives for a
record compares its documents as documents and everything else exactly.
-/

namespace WorkflowForge

open Lib

/-! ## Definitions -/

mutual
def Binding.signless : Binding → Binding
  | .literal v => .literal v.signless
  | .select s => .select s.signless
  | .object fields => .object (Binding.signlessFields fields)
  | .array items => .array (Binding.signlessAll items)

def Selection.signless : Selection → Selection
  | ⟨source, node, pointer, fallback⟩ =>
    ⟨source, node, pointer, Binding.signlessOption fallback⟩

def Binding.signlessOption : Option Binding → Option Binding
  | none => none
  | some b => some b.signless

def Binding.signlessFields : List (String × Binding) → List (String × Binding)
  | [] => []
  | (k, b) :: fs => (k, b.signless) :: Binding.signlessFields fs

def Binding.signlessAll : List Binding → List Binding
  | [] => []
  | b :: bs => b.signless :: Binding.signlessAll bs
end

def SignalStart.signless (s : SignalStart) : SignalStart :=
  { s with config := s.config.signless, input := s.input.signless }

mutual
def Instruction.signless : Instruction → Instruction
  | .try body catches fallback =>
    .try body.signless (ErrorCase.signlessAll catches) fallback.signless
  | .operation operation config retry => .operation operation config.signless retry
  | .decision cases fallback =>
    .decision (DecisionCase.signlessAll cases) (FallbackCase.signlessOption fallback)
  | .parallel branches concurrency errors join =>
    .parallel (BodyDefinition.signlessAll branches) concurrency errors join
  | .foreach items body concurrency errors =>
    .foreach items.signless body.signless concurrency errors
  | .loop condition body maxIterations onLimit =>
    .loop condition.signless body.signless maxIterations onLimit
  | .subworkflow workflow => .subworkflow workflow
  | .timer durationMs => .timer durationMs
  | .awaitSignal correlation timeoutMs payloadSchema start =>
    .awaitSignal correlation.signless timeoutMs payloadSchema.signless
      (start.map SignalStart.signless)

def NodeDefinition.signless : NodeDefinition → NodeDefinition
  | ⟨id, input, instruction⟩ => ⟨id, input.signless, instruction.signless⟩

def BodyDefinition.signless : BodyDefinition → BodyDefinition
  | ⟨entry, nodes, edges, output⟩ =>
    ⟨entry, NodeDefinition.signlessAll nodes, edges, output.signless⟩

def DecisionCase.signless : DecisionCase → DecisionCase
  | ⟨id, condition, body⟩ => ⟨id, condition.signless, body.signless⟩

def ErrorCase.signless : ErrorCase → ErrorCase
  | ⟨id, code, body⟩ => ⟨id, code, body.signless⟩

def FallbackCase.signless : FallbackCase → FallbackCase
  | ⟨id, body⟩ => ⟨id, body.signless⟩

def FallbackCase.signlessOption : Option FallbackCase → Option FallbackCase
  | none => none
  | some c => some c.signless

def NodeDefinition.signlessAll : List NodeDefinition → List NodeDefinition
  | [] => []
  | n :: ns => n.signless :: NodeDefinition.signlessAll ns

def BodyDefinition.signlessAll : List (String × BodyDefinition) → List (String × BodyDefinition)
  | [] => []
  | (k, b) :: bs => (k, b.signless) :: BodyDefinition.signlessAll bs

def DecisionCase.signlessAll : List DecisionCase → List DecisionCase
  | [] => []
  | c :: cs => c.signless :: DecisionCase.signlessAll cs

def ErrorCase.signlessAll : List ErrorCase → List ErrorCase
  | [] => []
  | c :: cs => c.signless :: ErrorCase.signlessAll cs
end

instance : Signless WorkflowDefinition where
  signless d := { d with
    inputSchema := signless d.inputSchema
    outputSchema := signless d.outputSchema
    nodes := NodeDefinition.signlessAll d.nodes
    output := d.output.signless
    presentation := signless d.presentation }

instance : Signless OperationDescriptor where
  signless d := { d with
    configSchema := signless d.configSchema
    inputSchema := signless d.inputSchema
    outputSchema := signless d.outputSchema
    examples := signless d.examples }

instance : Signless SchemaResource where
  signless r := { r with schema := signless r.schema }

instance : Signless ResolvedPackage where
  signless p := {
    definitions := signless p.definitions
    operations := signless p.operations
    schemas := signless p.schemas }

/-! ## Waits -/

instance : Signless SignalCommand where
  signless c := { c with payload := signless c.payload }

instance : Signless SignalDelivery where
  signless d := { d with command := signless d.command }

instance : Signless WaitKind where
  signless
    | .timer => .timer
    | .signal correlation payloadSchema startNode =>
      .signal correlation (signless payloadSchema) startNode

instance : Signless WaitRecord where
  signless w := { w with kind := signless w.kind, delivery := signless w.delivery }

/-! ## Reconciliation -/

instance : Signless EffectResolution where
  signless
    | .confirmApplied output evidence => .confirmApplied (signless output) evidence
    | .confirmNotApplied evidence quiescent retry => .confirmNotApplied evidence quiescent retry
    | .recordInconclusive reason evidence => .recordInconclusive reason evidence
    | .stopTracking reason evidence => .stopTracking reason evidence

instance : Signless ReconcileCommand where
  signless c := { c with resolution := signless c.resolution }

instance : Signless ResolutionAudit where
  signless a := { a with command := signless a.command }

instance : Signless LateObservation where
  signless o := { o with output := signless o.output }

instance : Signless AuditEntry where
  signless
    | .resolution a => .resolution (signless a)
    | .late o => .late (signless o)

/-! ## Runs -/

instance : Signless ControlFrame where
  signless
    | .try handler error => .try handler error
    | .wait id => .wait id
    | .decision selected => .decision selected
    | .parallel branches nextIndex stopped error => .parallel branches nextIndex stopped error
    | .foreach total nextIndex stopped error => .foreach total nextIndex stopped error
    | .loop iteration state => .loop iteration (signless state)
    | .subworkflow workflow => .subworkflow workflow

instance : Signless InvocationRecord where
  signless r := { r with
    input := signless r.input
    output := signless r.output
    config := signless r.config
    control := signless r.control }

instance : Signless RunSnapshot where
  signless s := { s with
    waits := signless s.waits
    definition := signless s.definition
    package := signless s.package
    input := signless s.input
    invocations := signless s.invocations
    output := signless s.output
    audit := signless s.audit }

/-! ## What a comparison sees of a record -/

section

variable {c : Comparison}

theorem InvocationRecord.same_state {r r' : InvocationRecord} (h : Same c r r') :
    r.state = r'.state :=
  h.exact fun r => by cases c <;> rfl

theorem InvocationRecord.same_output {r r' : InvocationRecord} (h : Same c r r') :
    Same c r.output r'.output :=
  h.map fun r => by cases c <;> rfl

theorem WaitRecord.same_state {w w' : WaitRecord} (h : Same c w w') : w.state = w'.state :=
  h.exact fun w => by cases c <;> rfl

/-- A timer has no documents. -/
theorem WaitKind.same_timer {k : WaitKind} (h : Same c k .timer) : k = .timer := by
  cases c with
  | text => exact h
  | source =>
    cases k with
    | timer => rfl
    | signal => cases h

/-- An empty package has no documents. -/
theorem ResolvedPackage.same_empty {p : ResolvedPackage} (h : Same c p {}) : p = {} := by
  cases c with
  | text => exact h
  | source =>
    obtain ⟨definitions, operations, schemas⟩ := p
    obtain ⟨hdefinitions, hoperations, hschemas⟩ := ResolvedPackage.mk.inj h
    obtain rfl := List.map_eq_nil_iff.mp hdefinitions
    obtain rfl := List.map_eq_nil_iff.mp hoperations
    obtain rfl := List.map_eq_nil_iff.mp hschemas
    rfl

/-- A snapshot is compared field by field: other fields may be replaced. -/
theorem RunSnapshot.same_stable {s s' : RunSnapshot} (h : Same c s s') (revision : UInt64)
    (audit : List AuditEntry) :
    Same c { s with revision := revision, audit := audit }
      { s' with revision := revision, audit := audit } := by
  have := congrArg (fun s : RunSnapshot =>
    { s with revision := revision, audit := c.image audit }) h
  cases c <;> exact this

theorem RunSnapshot.same_withPackage {s s' : RunSnapshot} (h : Same c s s')
    {p p' : ResolvedPackage} (hp : Same c p p') :
    Same c { s with package := p } { s' with package := p' } := by
  have hs : c.image { s with package := p } = { c.image s with package := c.image p } := by
    cases c <;> rfl
  have hs' : c.image { s' with package := p' } = { c.image s' with package := c.image p' } := by
    cases c <;> rfl
  rw [Same, hs, hs', h, hp]

end

/-! ## Negative zeros in records -/

namespace ControlFrame

def negativeZeros : ControlFrame → Nat
  | .loop _ state => state.negativeZeros
  | _ => 0

theorem jsonBytes_eq (f : ControlFrame) :
    jsonBytes f = jsonBytes (signless f) + f.negativeZeros := by
  cases f with
  | loop iteration state =>
    have hstate := state.bytes_eq
    simp only [jsonBytes, serialize, signless, toValue, Value.bytes, Value.memberBytes,
      negativeZeros, hstate, List.length_cons]
    omega
  | _ => rfl

end ControlFrame

/-- How many negative float zeros the payload of a record holds. -/
def InvocationRecord.negativeZeros (r : InvocationRecord) : Nat :=
  r.input.negativeZeros + r.config.negativeZeros + (r.output.map Value.negativeZeros).getD 0
    + (r.control.map ControlFrame.negativeZeros).getD 0

theorem InvocationRecord.retainedDataBytes_eq (r : InvocationRecord) :
    r.retainedDataBytes = (signless r).retainedDataBytes + r.negativeZeros := by
  obtain ⟨_, _, _, _, input, output, error, _, config, _, _, _, _, control⟩ := r
  have hinput : jsonBytes input = jsonBytes (signless input) + input.negativeZeros :=
    input.bytes_eq
  have hconfig : jsonBytes config = jsonBytes (signless config) + config.negativeZeros :=
    config.bytes_eq
  have houtput : (output.map jsonBytes).getD 0 =
      ((signless output).map jsonBytes).getD 0 + (output.map Value.negativeZeros).getD 0 := by
    cases output with
    | none => rfl
    | some v => exact v.bytes_eq
  have hcontrol : (control.map jsonBytes).getD 0 =
      ((signless control).map jsonBytes).getD 0 +
        (control.map ControlFrame.negativeZeros).getD 0 := by
    cases control with
    | none => rfl
    | some f => exact f.jsonBytes_eq
  simp only [retainedDataBytes, negativeZeros, hinput, hconfig, houtput, hcontrol]
  change _ = jsonBytes (signless input) + jsonBytes (signless config)
    + ((signless output).map jsonBytes).getD 0 + (error.map jsonBytes).getD 0
    + ((signless control).map jsonBytes).getD 0 + _
  omega

namespace RunSnapshot

/-- How many negative float zeros the input of a run and its records hold. -/
def negativeZeros (s : RunSnapshot) : Nat :=
  s.input.negativeZeros + BTreeMap.sumValues InvocationRecord.negativeZeros s.invocations

theorem recordBytes_eq (m : BTreeMap String InvocationRecord) :
    recordBytes m =
      recordBytes (signless m) + BTreeMap.sumValues InvocationRecord.negativeZeros m := by
  change _ = BTreeMap.sumValues _ (BTreeMap.mapValues signless m) + _
  rw [recordBytes, BTreeMap.sumValues_mapValues]
  unfold BTreeMap.sumValues
  rw [← List.sum_map_add]
  exact congrArg List.sum (List.map_congr_left fun r _ => r.retainedDataBytes_eq)

/-- Equal inputs and equal records take the same room exactly when they hold the same number of
negative zeros. -/
theorem carriedBytes_eq_iff {s s' : RunSnapshot} (hinput : Same .source s.input s'.input)
    (hrecords : Same .source s.invocations s'.invocations) :
    jsonBytes s.input + recordBytes s.invocations =
        jsonBytes s'.input + recordBytes s'.invocations ↔ s.negativeZeros = s'.negativeZeros := by
  have hb : ∀ s : RunSnapshot, jsonBytes s.input = s.input.signless.bytes + s.input.negativeZeros :=
    fun s => s.input.bytes_eq
  have hi : s.input.signless = s'.input.signless := hinput
  have hr : signless s.invocations = signless s'.invocations := hrecords
  rw [hb, hb, recordBytes_eq s.invocations, recordBytes_eq s'.invocations, hi, hr,
    negativeZeros, negativeZeros]
  omega

end RunSnapshot

end WorkflowForge
