import WorkflowForge.Protocol.Binding

/-!
# Workflow Definitions

The documents an author writes: nodes, instructions and bodies, with the persisted form
of each. A node flattens its instruction into its own object, so its decoder removes the
common fields before it reads the tagged instruction.

## Main results

- `BodyDefinition.fromValue_toValue`: every body reads back as itself, by induction
  on the size of the document.
- `LawfulSerde WorkflowDefinition`, and through it decidable equality of definitions.
-/

namespace WorkflowForge

open Lib

/-! ## Policies and flat parts -/

inductive GroupErrors where
  | failFast
  | collect
deriving DecidableEq

instance : Serialize GroupErrors where
  serialize
    | .failFast => .string "fail_fast"
    | .collect => .string "collect"

instance : Deserialize GroupErrors where
  deserialize
    | .string "fail_fast" => some .failFast
    | .string "collect" => some .collect
    | _ => none

instance : LawfulSerde GroupErrors := ⟨fun e => by cases e <;> rfl⟩

inductive JoinPolicy where
  | all
deriving DecidableEq

instance : Serialize JoinPolicy := ⟨fun _ => .string "all"⟩

instance : Deserialize JoinPolicy where
  deserialize
    | .string "all" => some .all
    | _ => none

instance : LawfulSerde JoinPolicy := ⟨fun p => by cases p; rfl⟩

inductive LoopLimit where
  | fail
  | returnLast
deriving DecidableEq

instance : Serialize LoopLimit where
  serialize
    | .fail => .string "fail"
    | .returnLast => .string "return_last"

instance : Deserialize LoopLimit where
  deserialize
    | .string "fail" => some .fail
    | .string "return_last" => some .returnLast
    | _ => none

instance : LawfulSerde LoopLimit := ⟨fun l => by cases l <;> rfl⟩

/-- The operation that starts the external work of a signal wait. -/
structure SignalStart where
  operation : OperationRevision
  config : Value
  input : Binding
  retry : RetryPolicy
deriving DecidableEq

def SignalStart.toValue (s : SignalStart) : Value := .object
  ([("operation", serialize s.operation), ("config", s.config), ("input", serialize s.input)]
    ++ retryMember s.retry)

def SignalStart.fromValue (v : Value) : Option SignalStart := do
  let ms ← members v
  guard (onlyFields ["operation", "config", "input", "retry"] ms)
  return {
    operation := ← required ms "operation"
    config := ← required ms "config"
    input := ← required ms "input"
    retry := ← defaulted ms "retry" {} }

instance : Serialize SignalStart := ⟨SignalStart.toValue⟩
instance : Deserialize SignalStart := ⟨SignalStart.fromValue⟩

instance : LawfulSerde SignalStart where
  readsAs s := by
    change SignalStart.fromValue s.toValue = some s
    obtain ⟨operation, config, input, retry⟩ := s
    by_cases h : retry = {} <;>
      simp [SignalStart.toValue, SignalStart.fromValue, retryMember, onlyFields, h]

structure Edge where
  source : String
  target : String
deriving DecidableEq

def Edge.toValue (e : Edge) : Value := .object
  [("from", serialize e.source), ("to", serialize e.target)]

def Edge.fromValue (v : Value) : Option Edge := do
  let ms ← members v
  guard (onlyFields ["from", "to"] ms)
  return { source := ← required ms "from", target := ← required ms "to" }

instance : Serialize Edge := ⟨Edge.toValue⟩
instance : Deserialize Edge := ⟨Edge.fromValue⟩

instance : LawfulSerde Edge where
  readsAs e := by
    change Edge.fromValue e.toValue = some e
    simp [Edge.toValue, Edge.fromValue, onlyFields]

/-! ## Instructions, nodes and bodies -/

mutual
inductive Instruction where
  | «try» (body : BodyDefinition) (catches : List ErrorCase) (fallback : FallbackCase)
  | operation (operation : OperationRevision) (config : Value) (retry : RetryPolicy)
  | decision (cases : List DecisionCase) (fallback : Option FallbackCase)
  | parallel (branches : List (String × BodyDefinition)) (concurrency : Nat)
      (errors : GroupErrors) (join : JoinPolicy)
  | foreach (items : Binding) (body : BodyDefinition) (concurrency : Nat)
      (errors : GroupErrors)
  | loop («while» : Binding) (body : BodyDefinition) (maxIterations : Nat) (onLimit : LoopLimit)
  | subworkflow (workflow : WorkflowRevision)
  | timer (durationMs : UInt64)
  | awaitSignal (correlation : Binding) (timeoutMs : UInt64) (payloadSchema : Value)
      (start : Option SignalStart)

structure NodeDefinition where
  id : String
  input : Binding
  instruction : Instruction

/-- A chain of nodes with its result; the edges, not the array order, order the nodes. -/
structure BodyDefinition where
  entry : String
  nodes : List NodeDefinition
  edges : List Edge
  output : Binding

structure DecisionCase where
  id : String
  «when» : Binding
  body : BodyDefinition

structure ErrorCase where
  id : String
  code : String
  body : BodyDefinition

structure FallbackCase where
  id : String
  body : BodyDefinition
end

mutual
/-- The members an instruction contributes to the object of its node. -/
def Instruction.toMembers : Instruction → List (String × Value)
  | .try body catches fallback =>
    [("kind", .string "try"), ("body", body.toValue),
     ("catches", .array (ErrorCase.toValues catches)), ("fallback", fallback.toValue)]
  | .operation operation config retry =>
    [("kind", .string "operation"), ("operation", serialize operation), ("config", config)]
      ++ retryMember retry
  | .decision cases fallback =>
    [("kind", .string "decision"), ("cases", .array (DecisionCase.toValues cases))]
      ++ FallbackCase.toMember fallback
  | .parallel branches concurrency errors join =>
    [("kind", .string "parallel"), ("branches", .object (BodyDefinition.toFields branches)),
     ("concurrency", serialize concurrency), ("errors", serialize errors),
     ("join", serialize join)]
  | .foreach items body concurrency errors =>
    [("kind", .string "foreach"), ("items", serialize items), ("body", body.toValue),
     ("concurrency", serialize concurrency), ("errors", serialize errors)]
  | .loop condition body maxIterations onLimit =>
    [("kind", .string "loop"), ("while", serialize condition), ("body", body.toValue),
     ("max_iterations", serialize maxIterations), ("on_limit", serialize onLimit)]
  | .subworkflow workflow =>
    [("kind", .string "subworkflow"), ("workflow", serialize workflow)]
  | .timer durationMs => [("kind", .string "timer"), ("duration_ms", serialize durationMs)]
  | .awaitSignal correlation timeoutMs payloadSchema start =>
    [("kind", .string "await_signal"), ("correlation", serialize correlation),
     ("timeout_ms", serialize timeoutMs), ("payload_schema", payloadSchema)]
      ++ optionalMember "start" start

def NodeDefinition.toValue : NodeDefinition → Value
  | ⟨id, input, instruction⟩ => .object
    (("id", serialize id) :: ("input", serialize input) :: instruction.toMembers)

def BodyDefinition.toValue : BodyDefinition → Value
  | ⟨entry, nodes, edges, output⟩ => .object
    [("entry", serialize entry), ("nodes", .array (NodeDefinition.toValues nodes)),
     ("edges", serialize edges), ("output", serialize output)]

def DecisionCase.toValue : DecisionCase → Value
  | ⟨id, condition, body⟩ => .object
    [("id", serialize id), ("when", serialize condition), ("body", body.toValue)]

def ErrorCase.toValue : ErrorCase → Value
  | ⟨id, code, body⟩ => .object
    [("id", serialize id), ("code", serialize code), ("body", body.toValue)]

def FallbackCase.toValue : FallbackCase → Value
  | ⟨id, body⟩ => .object [("id", serialize id), ("body", body.toValue)]

def FallbackCase.toMember : Option FallbackCase → List (String × Value)
  | none => []
  | some c => [("fallback", c.toValue)]

def NodeDefinition.toValues : List NodeDefinition → List Value
  | [] => []
  | n :: ns => n.toValue :: NodeDefinition.toValues ns

def BodyDefinition.toFields : List (String × BodyDefinition) → List (String × Value)
  | [] => []
  | (k, b) :: bs => (k, b.toValue) :: BodyDefinition.toFields bs

def DecisionCase.toValues : List DecisionCase → List Value
  | [] => []
  | c :: cs => c.toValue :: DecisionCase.toValues cs

def ErrorCase.toValues : List ErrorCase → List Value
  | [] => []
  | c :: cs => c.toValue :: ErrorCase.toValues cs
end

theorem NodeDefinition.toValues_eq_map (ns : List NodeDefinition) :
    NodeDefinition.toValues ns = ns.map NodeDefinition.toValue := by
  induction ns with
  | nil => rfl
  | cons n ns ih => simp [NodeDefinition.toValues, ih]

theorem BodyDefinition.toFields_eq_map (bs : List (String × BodyDefinition)) :
    BodyDefinition.toFields bs = bs.map fun b => (b.1, b.2.toValue) := by
  induction bs with
  | nil => rfl
  | cons b bs ih => simp [BodyDefinition.toFields, ih]

theorem DecisionCase.toValues_eq_map (cs : List DecisionCase) :
    DecisionCase.toValues cs = cs.map DecisionCase.toValue := by
  induction cs with
  | nil => rfl
  | cons c cs ih => simp [DecisionCase.toValues, ih]

theorem ErrorCase.toValues_eq_map (cs : List ErrorCase) :
    ErrorCase.toValues cs = cs.map ErrorCase.toValue := by
  induction cs with
  | nil => rfl
  | cons c cs ih => simp [ErrorCase.toValues, ih]

/-! ## Decoders -/

section Decoders

variable (body : Value → Option BodyDefinition)

def DecisionCase.fromValue (v : Value) : Option DecisionCase := do
  let ms ← members v
  guard (onlyFields ["id", "when", "body"] ms)
  return {
    id := ← required ms "id"
    «when» := ← required ms "when"
    body := ← requiredWith body ms "body" }

def ErrorCase.fromValue (v : Value) : Option ErrorCase := do
  let ms ← members v
  guard (onlyFields ["id", "code", "body"] ms)
  return {
    id := ← required ms "id"
    code := ← required ms "code"
    body := ← requiredWith body ms "body" }

def FallbackCase.fromValue (v : Value) : Option FallbackCase := do
  let ms ← members v
  guard (onlyFields ["id", "body"] ms)
  return { id := ← required ms "id", body := ← requiredWith body ms "body" }

/-- Reads the tagged instruction of a node, given a reader for nested bodies. Fields that
belong to another variant are refused. -/
def Instruction.fromMembers (ms : List (String × Value)) : Option Instruction :=
  match ms.lookup "kind" with
  | some (.string "try") => do
    guard (onlyFields ["kind", "body", "catches", "fallback"] ms)
    return .try (← requiredWith body ms "body")
      (← defaultedWith (itemsWith (ErrorCase.fromValue body)) ms "catches" [])
      (← requiredWith (FallbackCase.fromValue body) ms "fallback")
  | some (.string "operation") => do
    guard (onlyFields ["kind", "operation", "config", "retry"] ms)
    return .operation (← required ms "operation") (← required ms "config")
      (← defaulted ms "retry" {})
  | some (.string "decision") => do
    guard (onlyFields ["kind", "cases", "fallback"] ms)
    return .decision (← requiredWith (itemsWith (DecisionCase.fromValue body)) ms "cases")
      (← presentWith (FallbackCase.fromValue body) ms "fallback")
  | some (.string "parallel") => do
    guard (onlyFields ["kind", "branches", "concurrency", "errors", "join"] ms)
    return .parallel (← requiredWith (fieldsWith body) ms "branches")
      (← required ms "concurrency") (← required ms "errors") (← required ms "join")
  | some (.string "foreach") => do
    guard (onlyFields ["kind", "items", "body", "concurrency", "errors"] ms)
    return .foreach (← required ms "items") (← requiredWith body ms "body")
      (← required ms "concurrency") (← required ms "errors")
  | some (.string "loop") => do
    guard (onlyFields ["kind", "while", "body", "max_iterations", "on_limit"] ms)
    return .loop (← required ms "while") (← requiredWith body ms "body")
      (← required ms "max_iterations") (← required ms "on_limit")
  | some (.string "subworkflow") => do
    guard (onlyFields ["kind", "workflow"] ms)
    return .subworkflow (← required ms "workflow")
  | some (.string "timer") => do
    guard (onlyFields ["kind", "duration_ms"] ms)
    return .timer (← required ms "duration_ms")
  | some (.string "await_signal") => do
    guard (onlyFields ["kind", "correlation", "timeout_ms", "payload_schema", "start"] ms)
    return .awaitSignal (← required ms "correlation") (← required ms "timeout_ms")
      (← required ms "payload_schema") (← presentWith deserialize ms "start")
  | _ => none

/-- Reads a node: the common fields first, then the instruction from what is left. -/
def NodeDefinition.fromValue (v : Value) : Option NodeDefinition := do
  let ms ← members v
  return {
    id := ← required ms "id"
    input := ← required ms "input"
    instruction := ← Instruction.fromMembers body
      (ms.filter fun m => m.1 != "id" && m.1 != "input") }

end Decoders

/-- Reads a body; the fuel bounds the nesting of bodies. -/
def BodyDefinition.fromValue : Nat → Value → Option BodyDefinition
  | 0, _ => none
  | n + 1, v => do
    let ms ← members v
    guard (onlyFields ["entry", "nodes", "edges", "output"] ms)
    return {
      entry := ← required ms "entry"
      nodes := ← requiredWith (itemsWith (NodeDefinition.fromValue (fromValue n))) ms "nodes"
      edges := ← required ms "edges"
      output := ← required ms "output" }

/-! ## Reading definitions back -/

section ReadBack

variable {body : Value → Option BodyDefinition} {n : Nat}

/-- `body` reads back every body whose document has at most `n` positions. -/
def ReadsBodies (body : Value → Option BodyDefinition) (n : Nat) : Prop :=
  ∀ b : BodyDefinition, b.toValue.size ≤ n → body b.toValue = some b

theorem DecisionCase.fromValue_toValue (hb : ReadsBodies body n) (c : DecisionCase)
    (h : c.toValue.size ≤ n) : DecisionCase.fromValue body c.toValue = some c := by
  obtain ⟨id, condition, inner⟩ := c
  have hlt : inner.toValue.size ≤ n := by
    simp only [DecisionCase.toValue, Value.size, Value.membersSize] at h
    omega
  simp [DecisionCase.toValue, DecisionCase.fromValue, onlyFields, hb inner hlt]

theorem ErrorCase.fromValue_toValue (hb : ReadsBodies body n) (c : ErrorCase)
    (h : c.toValue.size ≤ n) : ErrorCase.fromValue body c.toValue = some c := by
  obtain ⟨id, code, inner⟩ := c
  have hlt : inner.toValue.size ≤ n := by
    simp only [ErrorCase.toValue, Value.size, Value.membersSize] at h
    omega
  simp [ErrorCase.toValue, ErrorCase.fromValue, onlyFields, hb inner hlt]

theorem FallbackCase.fromValue_toValue (hb : ReadsBodies body n) (c : FallbackCase)
    (h : c.toValue.size ≤ n) : FallbackCase.fromValue body c.toValue = some c := by
  obtain ⟨id, inner⟩ := c
  have hlt : inner.toValue.size ≤ n := by
    simp only [FallbackCase.toValue, Value.size, Value.membersSize] at h
    omega
  simp [FallbackCase.toValue, FallbackCase.fromValue, onlyFields, hb inner hlt]

/-- The items of an array that fits in `n` fit in `n`. -/
private theorem size_le_of_mem_map {α : Type} {enc : α → Value} {xs : List α} {x : α}
    (hx : x ∈ xs) (h : Value.itemsSize (xs.map enc) ≤ n) : (enc x).size ≤ n :=
  (Value.size_le_itemsSize (List.mem_map.mpr ⟨x, hx, rfl⟩)).trans h

private theorem size_le_of_mem_fields {α : Type} {enc : α → Value} {xs : List (String × α)}
    {x : String × α} (hx : x ∈ xs)
    (h : Value.membersSize (xs.map fun y => (y.1, enc y.2)) ≤ n) : (enc x.2).size ≤ n :=
  (Value.size_le_membersSize (List.mem_map.mpr ⟨x, hx, rfl⟩)).trans h

/-- Every instruction reads back when the bodies nested in it do. -/
theorem Instruction.fromMembers_toMembers (hb : ReadsBodies body n) (i : Instruction)
    (h : Value.membersSize i.toMembers ≤ n) :
    Instruction.fromMembers body i.toMembers = some i := by
  -- what is nested is smaller than the whole, so the fuel reaches it
  cases i with
  | «try» inner catches fallback =>
    simp only [toMembers, ErrorCase.toValues_eq_map, Value.membersSize, Value.size] at h
    have hc : itemsWith (ErrorCase.fromValue body)
        (.array (catches.map ErrorCase.toValue)) = some catches :=
      itemsWith_map _ catches fun c hc =>
        ErrorCase.fromValue_toValue hb c (size_le_of_mem_map hc (by omega))
    simp [toMembers, fromMembers, onlyFields, ErrorCase.toValues_eq_map, hc,
      hb inner (by omega), FallbackCase.fromValue_toValue hb fallback (by omega)]
  | operation revision config retry =>
    by_cases hr : retry = {} <;>
      simp [toMembers, fromMembers, onlyFields, retryMember, hr]
  | decision cases fallback =>
    simp only [toMembers, DecisionCase.toValues_eq_map, List.cons_append, List.nil_append,
      Value.membersSize, Value.size] at h
    have hc : itemsWith (DecisionCase.fromValue body)
        (.array (cases.map DecisionCase.toValue)) = some cases :=
      itemsWith_map _ cases fun c hc =>
        DecisionCase.fromValue_toValue hb c (size_le_of_mem_map hc (by omega))
    cases fallback with
    | none =>
      simp [toMembers, fromMembers, onlyFields, DecisionCase.toValues_eq_map,
        FallbackCase.toMember, hc]
    | some c =>
      simp only [FallbackCase.toMember, Value.membersSize] at h
      simp [toMembers, fromMembers, onlyFields, DecisionCase.toValues_eq_map,
        FallbackCase.toMember, hc,
        FallbackCase.fromValue_toValue hb c (by omega)]
  | parallel branches concurrency errors join =>
    simp only [toMembers, BodyDefinition.toFields_eq_map, Value.membersSize, Value.size] at h
    have hc : fieldsWith body
        (.object (branches.map fun b => (b.1, b.2.toValue))) = some branches :=
      fieldsWith_map _ branches fun b hbr =>
        hb b.2 (size_le_of_mem_fields hbr (by omega))
    simp [toMembers, fromMembers, onlyFields, BodyDefinition.toFields_eq_map,
      hc]
  | foreach items inner concurrency errors =>
    simp only [toMembers, Value.membersSize] at h
    simp [toMembers, fromMembers, onlyFields, hb inner (by omega)]
  | loop condition inner maxIterations onLimit =>
    simp only [toMembers, Value.membersSize] at h
    simp [toMembers, fromMembers, onlyFields, hb inner (by omega)]
  | subworkflow workflow => simp [toMembers, fromMembers, onlyFields]
  | timer durationMs => simp [toMembers, fromMembers, onlyFields]
  | awaitSignal correlation timeoutMs payloadSchema start =>
    cases start <;>
      simp [toMembers, fromMembers, onlyFields, optionalMember]

/-- No instruction has a field named like a common field of its node. -/
theorem Instruction.filter_toMembers (i : Instruction) :
    (i.toMembers.filter fun m => m.1 != "id" && m.1 != "input") = i.toMembers := by
  cases i with
  | operation revision config retry =>
    by_cases hr : retry = {} <;> simp [toMembers, retryMember, hr]
  | decision cases fallback => cases fallback <;> simp [toMembers, FallbackCase.toMember]
  | awaitSignal correlation timeoutMs payloadSchema start =>
    cases start <;> simp [toMembers, optionalMember]
  | _ => simp [toMembers]

theorem NodeDefinition.fromValue_toValue (hb : ReadsBodies body n) (d : NodeDefinition)
    (h : d.toValue.size ≤ n) : NodeDefinition.fromValue body d.toValue = some d := by
  obtain ⟨id, input, instruction⟩ := d
  have hi : Value.membersSize instruction.toMembers ≤ n := by
    simp only [NodeDefinition.toValue, Value.size, Value.membersSize] at h
    omega
  simp [NodeDefinition.toValue, NodeDefinition.fromValue,
    Instruction.filter_toMembers, Instruction.fromMembers_toMembers hb instruction hi]

end ReadBack

/-- Every body reads back as itself, with fuel for its size. -/
theorem BodyDefinition.fromValue_toValue (n : Nat) (b : BodyDefinition)
    (h : b.toValue.size ≤ n) : BodyDefinition.fromValue n b.toValue = some b := by
  induction n generalizing b with
  | zero => cases b; simp [BodyDefinition.toValue, Value.size] at h
  | succ n ih =>
    obtain ⟨entry, nodes, edges, output⟩ := b
    simp only [BodyDefinition.toValue, NodeDefinition.toValues_eq_map, Value.size,
      Value.membersSize] at h
    have hn : itemsWith (NodeDefinition.fromValue (BodyDefinition.fromValue n))
        (.array (nodes.map NodeDefinition.toValue)) = some nodes :=
      itemsWith_map _ nodes fun d hd =>
        NodeDefinition.fromValue_toValue (n := n) ih d (size_le_of_mem_map hd (by omega))
    simp [BodyDefinition.toValue, BodyDefinition.fromValue, onlyFields,
      NodeDefinition.toValues_eq_map, hn]

instance : Serialize NodeDefinition := ⟨NodeDefinition.toValue⟩
instance : Deserialize NodeDefinition :=
  ⟨fun v => NodeDefinition.fromValue (BodyDefinition.fromValue v.size) v⟩
instance : LawfulSerde NodeDefinition where
  readsAs d := NodeDefinition.fromValue_toValue (BodyDefinition.fromValue_toValue _) d le_rfl
instance : DecidableEq NodeDefinition := serialize_injective.decidableEq

/-! ## Workflows -/

structure WorkflowDefinition where
  format : String
  id : String
  revision : String
  schemaDialect : String
  inputSchema : Value
  outputSchema : Value
  entry : String
  nodes : List NodeDefinition
  edges : List Edge
  output : Binding
  presentation : BTreeMap String Value

/-- Presentation data is written only when there is some. -/
def presentationMember (p : BTreeMap String Value) : List (String × Value) :=
  if p = ∅ then [] else [("presentation", serialize p)]

def WorkflowDefinition.toValue (d : WorkflowDefinition) : Value := .object
  ([("format", serialize d.format), ("id", serialize d.id), ("revision", serialize d.revision),
    ("schema_dialect", serialize d.schemaDialect), ("input_schema", d.inputSchema),
    ("output_schema", d.outputSchema), ("entry", serialize d.entry),
    ("nodes", serialize d.nodes), ("edges", serialize d.edges), ("output", serialize d.output)]
    ++ presentationMember d.presentation)

def WorkflowDefinition.fromValue (v : Value) : Option WorkflowDefinition := do
  let ms ← members v
  guard (onlyFields ["format", "id", "revision", "schema_dialect", "input_schema",
    "output_schema", "entry", "nodes", "edges", "output", "presentation"] ms)
  return {
    format := ← required ms "format"
    id := ← required ms "id"
    revision := ← required ms "revision"
    schemaDialect := ← required ms "schema_dialect"
    inputSchema := ← required ms "input_schema"
    outputSchema := ← required ms "output_schema"
    entry := ← required ms "entry"
    nodes := ← required ms "nodes"
    edges := ← required ms "edges"
    output := ← required ms "output"
    presentation := ← defaulted ms "presentation" ∅ }

instance : Serialize WorkflowDefinition := ⟨WorkflowDefinition.toValue⟩
instance : Deserialize WorkflowDefinition := ⟨WorkflowDefinition.fromValue⟩

instance : LawfulSerde WorkflowDefinition where
  readsAs d := by
    change WorkflowDefinition.fromValue d.toValue = some d
    cases d with
    | mk _ _ _ _ _ _ _ _ _ _ presentation =>
      by_cases h : presentation = ∅ <;>
        simp [WorkflowDefinition.toValue, WorkflowDefinition.fromValue, presentationMember,
          onlyFields, h]

instance : DecidableEq WorkflowDefinition := serialize_injective.decidableEq

end WorkflowForge
