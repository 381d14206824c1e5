import WorkflowForge.Lib.Except
import WorkflowForge.Protocol.Limits
import WorkflowForge.Protocol.Error

/-!
# Data Checks

The bounds every document is checked against before it enters a run, and validation under a
compiled schema. The validator itself belongs to a library: a compiled schema is what the
engine uses of it, the cost it computed and where a document violates the schema.

## Main results

- `checkValue_bytes`: an admitted document respects its byte limit.
-/

namespace WorkflowForge.Engine

open Lib

/-! ## Size and depth -/

/-- A document is nested deeper than allowed. -/
def tooDeep : ForgeError :=
  .new "data.invalid" "JSON exceeds its depth limit"

mutual
/-- Counts the documents of a tree; `depth` is the level of `v` itself. -/
def walk (max depth : Nat) (v : Value) : Except ForgeError Nat :=
  if max < depth then .error tooDeep
  else
    match v with
    | .array items => (walkItems max (depth + 1) items).map (· + 1)
    | .object members => (walkMembers max (depth + 1) members).map (· + 1)
    | _ => .ok 1

def walkItems (max depth : Nat) : List Value → Except ForgeError Nat
  | [] => .ok 0
  | v :: rest => do return (← walk max depth v) + (← walkItems max depth rest)

def walkMembers (max depth : Nat) : List (String × Value) → Except ForgeError Nat
  | [] => .ok 0
  | (_, v) :: rest => do return (← walk max depth v) + (← walkMembers max depth rest)
end

/-- Checks the depth and the bytes of a document; answers the number of its parts. -/
def checkValue (value : Value) (maxBytes maxDepth : Nat) : Except ForgeError Nat := do
  let nodes ← walk maxDepth 1 value
  ensure (jsonBytes value ≤ maxBytes) (.new "data.invalid" "JSON exceeds its byte limit")
  return nodes

/-- An admitted document respects its byte limit. -/
theorem checkValue_bytes {value : Value} {maxBytes maxDepth nodes : Nat}
    (h : checkValue value maxBytes maxDepth = .ok nodes) : jsonBytes value ≤ maxBytes := by
  obtain ⟨n, -, h⟩ := bind_eq_ok.mp h
  obtain ⟨u, h, -⟩ := bind_eq_ok.mp h
  simpa using ensure_eq_ok.mp h

/-! ## Schemas -/

/-- A schema ready to validate: its cost, and the first place where a document violates it. -/
structure CompiledSchema where
  cost : Nat
  violation : Value → Option String

/-- Data that does not satisfy its schema, at the given place. -/
def schemaViolation (path : String) : ForgeError where
  diagnostics :=
    [{ Diagnostic.new "data.invalid" "Data does not satisfy its schema" with
        location := { data := some path } }]

/-- Validates a document within the work budget of the schema. -/
def CompiledSchema.validate (self : CompiledSchema) (value : Value) (limits : Limits) :
    Except ForgeError Unit := do
  let nodes ← checkValue value limits.valueBytes limits.jsonDepth
  let work := nodes + jsonBytes value / 64
  ensure (work * self.cost ≤ 1000000)
    (.new "data.invalid" "Schema evaluation exceeds its work budget")
  match self.violation value with
  | some path => .error (schemaViolation path)
  | none => .ok ()

end WorkflowForge.Engine
