import WorkflowForge.Engine.Start

/-!
# Prepared Plans

What the compiler makes of a definition: bodies as sequences of nodes in the order of their
edges, operations with their compiled contracts, and subworkflows as plans of their own.
-/

namespace WorkflowForge

open Lib

/-! ## Revisions as keys -/

instance : Ord OperationRevision :=
  ⟨compareLex (compareOn OperationRevision.id)
    (compareLex (compareOn OperationRevision.contract)
      (compareOn OperationRevision.implementation))⟩

instance : Std.TransOrd OperationRevision :=
  inferInstanceAs (Std.TransCmp (compareLex (compareOn OperationRevision.id)
    (compareLex (compareOn OperationRevision.contract)
      (compareOn OperationRevision.implementation))))

instance : Std.LawfulEqOrd OperationRevision where
  eq_of_compare {a b} h := by
    obtain ⟨hid, h⟩ := Ordering.then_eq_eq.mp h
    obtain ⟨hcontract, himplementation⟩ := Ordering.then_eq_eq.mp h
    obtain ⟨id, contract, implementation⟩ := a
    obtain ⟨id', contract', implementation'⟩ := b
    obtain rfl : id = id' := Std.LawfulEqCmp.eq_of_compare hid
    obtain rfl : contract = contract' := Std.LawfulEqCmp.eq_of_compare hcontract
    obtain rfl : implementation = implementation' :=
      Std.LawfulEqCmp.eq_of_compare himplementation
    rfl

instance : Ord WorkflowRevision :=
  ⟨compareLex (compareOn WorkflowRevision.id) (compareOn WorkflowRevision.revision)⟩

instance : Std.TransOrd WorkflowRevision :=
  inferInstanceAs (Std.TransCmp
    (compareLex (compareOn WorkflowRevision.id) (compareOn WorkflowRevision.revision)))

instance : Std.LawfulEqOrd WorkflowRevision where
  eq_of_compare {a b} h := by
    obtain ⟨hid, hrevision⟩ := Ordering.then_eq_eq.mp h
    obtain ⟨id, revision⟩ := a
    obtain ⟨id', revision'⟩ := b
    obtain rfl : id = id' := Std.LawfulEqCmp.eq_of_compare hid
    obtain rfl : revision = revision' := Std.LawfulEqCmp.eq_of_compare hrevision
    rfl

def WorkflowDefinition.workflowRevision (d : WorkflowDefinition) : WorkflowRevision :=
  ⟨d.id, d.revision⟩

namespace Engine

/-! ## Plans -/

mutual
inductive PreparedInstruction where
  | «try» (body : PreparedBody) (catches : List (String × String × PreparedBody))
      (fallback : String × PreparedBody)
  | timer (durationMs : UInt64)
  | awaitSignal (correlation : Binding) (timeoutMs : UInt64) (payloadSchema : Value)
      (start : Option (Binding × PreparedOperation))
  | operation (operation : PreparedOperation)
  | decision (cases : List PreparedCase) (fallback : Option (String × PreparedBody))
  | parallel (branches : List (String × PreparedBody)) (concurrency : Nat)
      (errors : GroupErrors)
  | foreach (items : Binding) (body : PreparedBody) (concurrency : Nat) (errors : GroupErrors)
  | loop (condition : Binding) (body : PreparedBody) (maxIterations : Nat)
      (onLimit : LoopLimit)
  | subworkflow (plan : Plan)

structure PreparedNode where
  id : String
  input : Binding
  instruction : PreparedInstruction

structure PreparedBody where
  sequence : List PreparedNode
  output : Binding

structure PreparedCase where
  id : String
  «when» : Binding
  body : PreparedBody

/-- A compiled definition with everything it consulted. -/
structure Plan where
  composition : String
  definition : WorkflowDefinition
  body : PreparedBody
  input : CompiledSchema
  output : CompiledSchema
  warnings : List Diagnostic
  resources : BTreeSet String
  definitions : BTreeMap WorkflowRevision WorkflowDefinition
  package : ResolvedPackage
end

/-- What a start reads of a plan. -/
def Plan.prepared (p : Plan) : PreparedWorkflow where
  composition := p.composition
  definition := p.definition
  input := p.input
  resources := p.resources
  package := p.package

end Engine

end WorkflowForge
