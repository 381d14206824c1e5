import WorkflowForge.Engine.Schema
import WorkflowForge.Protocol.Binding

/-!
# Checking Bindings

A binding is checked once, where it is compiled: its pointers are well formed, the producers
it names come earlier, and its evaluation stays within a budget of steps.
-/

namespace WorkflowForge

open Lib

namespace Mapping

def invalid (message : String) : ForgeError :=
  .new "mapping.invalid" message

def overBudget : ForgeError :=
  invalid "Binding exceeds its evaluation budget"

/-- Decodes the escapes of a pointer token. -/
def decodeToken : List Char → Option (List Char)
  | [] => some []
  | '~' :: '0' :: cs => (decodeToken cs).map ('~' :: ·)
  | '~' :: '1' :: cs => (decodeToken cs).map ('/' :: ·)
  | '~' :: _ => none
  | c :: cs => (decodeToken cs).map (c :: ·)

/-- The tokens of a JSON Pointer. -/
def tokens (pointer : String) : Except ForgeError (List String) :=
  match pointer.toList with
  | [] => .ok []
  | '/' :: rest =>
    (rest.splitOn '/').mapM fun token =>
      okOr ((decodeToken token).map String.ofList) (invalid "Invalid JSON Pointer escape")
  | _ => .error (invalid "JSON Pointer must be empty or start with /")

/-- The producer a selection names can be read at this point. -/
def reads (available : BTreeSet String) (source : DataSource) (node : Option String) : Bool :=
  match source, node with
  | .input, none => true
  | .node, some node => available.contains node
  | _, _ => false

end Mapping

open Mapping Engine

mutual
/-- Visits a binding at its depth; answers the steps counted so far. -/
def Binding.visit (available : BTreeSet String) (limits : Limits) (depth steps : Nat)
    (b : Binding) : Except ForgeError Nat :=
  if limits.bindingDepth < depth ∨ limits.bindingSteps < steps + 1 then .error overBudget
  else do
    let steps ← match b with
      | .select s => s.visit available limits depth (steps + 1)
      | .object fields => Binding.visitFields available limits (depth + 1) (steps + 1) fields
      | .array items => Binding.visitItems available limits (depth + 1) (steps + 1) items
      | .literal v => (checkValue v limits.valueBytes limits.jsonDepth).map fun _ => steps + 1
    ensure (steps ≤ limits.bindingSteps) overBudget
    return steps

def Selection.visit (available : BTreeSet String) (limits : Limits) (depth steps : Nat) :
    Selection → Except ForgeError Nat
  | ⟨source, node, pointer, fallback⟩ => do
    let tokens ← tokens pointer
    ensure (reads available source node)
      (invalid "Producer is unknown or unavailable at this control point")
    Binding.visitFallback available limits (depth + 1) (steps + tokens.length) fallback

def Binding.visitFallback (available : BTreeSet String) (limits : Limits) (depth steps : Nat) :
    Option Binding → Except ForgeError Nat
  | none => .ok steps
  | some b => b.visit available limits depth steps

def Binding.visitFields (available : BTreeSet String) (limits : Limits) (depth steps : Nat) :
    List (String × Binding) → Except ForgeError Nat
  | [] => .ok steps
  | (_, b) :: fields => do
    let steps ← b.visit available limits depth steps
    Binding.visitFields available limits depth steps fields

def Binding.visitItems (available : BTreeSet String) (limits : Limits) (depth steps : Nat) :
    List Binding → Except ForgeError Nat
  | [] => .ok steps
  | b :: items => do
    let steps ← b.visit available limits depth steps
    Binding.visitItems available limits depth steps items
end

/-- Checks a binding where the given producers can be read. -/
def Binding.check (b : Binding) (available : BTreeSet String) (limits : Limits) :
    Except ForgeError Unit :=
  (b.visit available limits 1 0).map fun _ => ()

end WorkflowForge
