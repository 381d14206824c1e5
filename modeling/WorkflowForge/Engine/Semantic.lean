import WorkflowForge.Engine.Access

/-!
# Semantic Values

The part of a definition or a package that means something: presentation is left out, and
nodes and edges are put in order. Two documents with one semantic value are the same
workflow.
-/

namespace WorkflowForge

open Lib

/-! ## Definitions -/

def sortNodes (nodes : List NodeDefinition) : List NodeDefinition :=
  nodes.mergeSort fun a b => decide (a.id ≤ b.id)

/-- Edges by their source, then by their target. -/
def sortEdges (edges : List Edge) : List Edge :=
  edges.mergeSort fun a b =>
    decide (a.source < b.source ∨ a.source = b.source ∧ a.target ≤ b.target)

mutual
/-- Puts the bodies inside an instruction in order. -/
def Instruction.normalize : Instruction → Instruction
  | .try body catches fallback =>
    .try body.normalize (ErrorCase.normalizeAll catches) fallback.normalize
  | .decision cases fallback =>
    .decision (DecisionCase.normalizeAll cases) (FallbackCase.normalizeOption fallback)
  | .parallel branches concurrency errors join =>
    .parallel (BodyDefinition.normalizeAll branches) concurrency errors join
  | .foreach items body concurrency errors => .foreach items body.normalize concurrency errors
  | .loop condition body maxIterations onLimit =>
    .loop condition body.normalize maxIterations onLimit
  | .operation operation config retry => .operation operation config retry
  | .subworkflow workflow => .subworkflow workflow
  | .timer durationMs => .timer durationMs
  | .awaitSignal correlation timeoutMs payloadSchema start =>
    .awaitSignal correlation timeoutMs payloadSchema start

def NodeDefinition.normalize : NodeDefinition → NodeDefinition
  | ⟨id, input, instruction⟩ => ⟨id, input, instruction.normalize⟩

def BodyDefinition.normalize : BodyDefinition → BodyDefinition
  | ⟨entry, nodes, edges, output⟩ =>
    ⟨entry, sortNodes (NodeDefinition.normalizeAll nodes), sortEdges edges, output⟩

def DecisionCase.normalize : DecisionCase → DecisionCase
  | ⟨id, condition, body⟩ => ⟨id, condition, body.normalize⟩

def ErrorCase.normalize : ErrorCase → ErrorCase
  | ⟨id, code, body⟩ => ⟨id, code, body.normalize⟩

def FallbackCase.normalize : FallbackCase → FallbackCase
  | ⟨id, body⟩ => ⟨id, body.normalize⟩

def FallbackCase.normalizeOption : Option FallbackCase → Option FallbackCase
  | none => none
  | some c => some c.normalize

def NodeDefinition.normalizeAll : List NodeDefinition → List NodeDefinition
  | [] => []
  | n :: ns => n.normalize :: NodeDefinition.normalizeAll ns

def BodyDefinition.normalizeAll : List (String × BodyDefinition) → List (String × BodyDefinition)
  | [] => []
  | (k, b) :: bs => (k, b.normalize) :: BodyDefinition.normalizeAll bs

def DecisionCase.normalizeAll : List DecisionCase → List DecisionCase
  | [] => []
  | c :: cs => c.normalize :: DecisionCase.normalizeAll cs

def ErrorCase.normalizeAll : List ErrorCase → List ErrorCase
  | [] => []
  | c :: cs => c.normalize :: ErrorCase.normalizeAll cs
end

def WorkflowDefinition.semanticValue (d : WorkflowDefinition) : Value :=
  serialize { d with
    nodes := sortNodes (NodeDefinition.normalizeAll d.nodes)
    edges := sortEdges d.edges
    presentation := ∅ }

/-! ## Packages -/

/-- Receipt identity leaves presentation out, just like a definition. -/
def ResolvedPackage.semanticValue (p : ResolvedPackage) : Value := .object
  [("definitions", .array (p.definitions.map WorkflowDefinition.semanticValue)),
   ("operations", .array (p.operations.map Engine.OperationDescriptor.semanticValue)),
   ("schemas", serialize p.schemas)]

end WorkflowForge
