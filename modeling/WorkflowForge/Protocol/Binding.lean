import WorkflowForge.Protocol.Error

/-!
# Revisions, Retry Policies and Bindings

The parts of a definition that do not nest bodies. Decoding a binding recurses into its
parts, so the decoder carries a fuel that the size of the document always covers.

## Main results

- `Binding.fromValue_toValue`: every binding reads back as itself.
- `DecidableEq Binding`, through its lawful encoding.
-/

namespace WorkflowForge

open Lib

/-! ## Revisions and retry policies -/

structure OperationRevision where
  id : String
  contract : String
  implementation : String
deriving DecidableEq

def OperationRevision.toValue (r : OperationRevision) : Value := .object
  [("id", serialize r.id), ("contract", serialize r.contract),
   ("implementation", serialize r.implementation)]

def OperationRevision.fromValue (v : Value) : Option OperationRevision := do
  let ms ← members v
  guard (onlyFields ["id", "contract", "implementation"] ms)
  return {
    id := ← required ms "id"
    contract := ← required ms "contract"
    implementation := ← required ms "implementation" }

instance : Serialize OperationRevision := ⟨OperationRevision.toValue⟩
instance : Deserialize OperationRevision := ⟨OperationRevision.fromValue⟩

instance : LawfulSerde OperationRevision where
  readsAs r := by
    change OperationRevision.fromValue r.toValue = some r
    simp [OperationRevision.toValue, OperationRevision.fromValue, onlyFields]

instance : NeverNull OperationRevision :=
  ⟨fun r => by simp [serialize, OperationRevision.toValue]⟩

structure WorkflowRevision where
  id : String
  revision : String
deriving DecidableEq

def WorkflowRevision.toValue (r : WorkflowRevision) : Value := .object
  [("id", serialize r.id), ("revision", serialize r.revision)]

def WorkflowRevision.fromValue (v : Value) : Option WorkflowRevision := do
  let ms ← members v
  guard (onlyFields ["id", "revision"] ms)
  return { id := ← required ms "id", revision := ← required ms "revision" }

instance : Serialize WorkflowRevision := ⟨WorkflowRevision.toValue⟩
instance : Deserialize WorkflowRevision := ⟨WorkflowRevision.fromValue⟩

instance : LawfulSerde WorkflowRevision where
  readsAs r := by
    change WorkflowRevision.fromValue r.toValue = some r
    simp [WorkflowRevision.toValue, WorkflowRevision.fromValue, onlyFields]

/-- A total attempt budget, including the first call. -/
structure RetryPolicy where
  maxAttempts : UInt32 := 1
  initialDelayMs : UInt64 := 100
  maxDelayMs : UInt64 := 30000
  jitter : Bool := true
deriving DecidableEq

def RetryPolicy.toValue (p : RetryPolicy) : Value := .object
  [("max_attempts", serialize p.maxAttempts), ("initial_delay_ms", serialize p.initialDelayMs),
   ("max_delay_ms", serialize p.maxDelayMs), ("jitter", serialize p.jitter)]

def RetryPolicy.fromValue (v : Value) : Option RetryPolicy := do
  let ms ← members v
  guard (onlyFields ["max_attempts", "initial_delay_ms", "max_delay_ms", "jitter"] ms)
  return {
    maxAttempts := ← defaulted ms "max_attempts" 1
    initialDelayMs := ← defaulted ms "initial_delay_ms" 100
    maxDelayMs := ← defaulted ms "max_delay_ms" 30000
    jitter := ← defaulted ms "jitter" true }

instance : Serialize RetryPolicy := ⟨RetryPolicy.toValue⟩
instance : Deserialize RetryPolicy := ⟨RetryPolicy.fromValue⟩

instance : LawfulSerde RetryPolicy where
  readsAs p := by
    change RetryPolicy.fromValue p.toValue = some p
    simp [RetryPolicy.toValue, RetryPolicy.fromValue, onlyFields]

/-- A policy that is left out of the document because it is the default. -/
def retryMember (p : RetryPolicy) : List (String × Value) :=
  if p = {} then [] else [("retry", serialize p)]

/-! ## Bindings -/

inductive DataSource where
  | input
  | node
deriving DecidableEq

instance : Serialize DataSource where
  serialize
    | .input => .string "input"
    | .node => .string "node"

instance : Deserialize DataSource where
  deserialize
    | .string "input" => some .input
    | .string "node" => some .node
    | _ => none

instance : LawfulSerde DataSource := ⟨fun s => by cases s <;> rfl⟩

mutual
/-- How a value is built from the scope's input and the outputs of earlier nodes. -/
inductive Binding where
  | literal (v : Value)
  | select (s : Selection)
  | object (fields : List (String × Binding))
  | array (items : List Binding)

structure Selection where
  source : DataSource
  node : Option String
  pointer : String
  fallback : Option Binding
end

mutual
def Binding.toValue : Binding → Value
  | .literal v => .object [("literal", v)]
  | .select s => .object [("select", s.toValue)]
  | .object fields => .object [("object", .object (Binding.fieldValues fields))]
  | .array items => .object [("array", .array (Binding.itemValues items))]

def Selection.toValue : Selection → Value
  | ⟨source, node, pointer, fallback⟩ => .object
    ([("source", serialize source)] ++ optionalMember "node" node
      ++ [("pointer", serialize pointer)] ++ Binding.fallbackMember fallback)

def Binding.fallbackMember : Option Binding → List (String × Value)
  | none => []
  | some b => [("fallback", b.toValue)]

def Binding.fieldValues : List (String × Binding) → List (String × Value)
  | [] => []
  | (k, b) :: fs => (k, b.toValue) :: Binding.fieldValues fs

def Binding.itemValues : List Binding → List Value
  | [] => []
  | b :: bs => b.toValue :: Binding.itemValues bs
end

theorem Binding.fieldValues_eq_map (fs : List (String × Binding)) :
    Binding.fieldValues fs = fs.map fun f => (f.1, f.2.toValue) := by
  induction fs with
  | nil => rfl
  | cons f fs ih => simp [Binding.fieldValues, ih]

theorem Binding.itemValues_eq_map (bs : List Binding) :
    Binding.itemValues bs = bs.map Binding.toValue := by
  induction bs with
  | nil => rfl
  | cons b bs ih => simp [Binding.itemValues, ih]

/-- Reads a selection, given a reader for its fallback. -/
def Selection.fromValue (binding : Value → Option Binding) (v : Value) : Option Selection := do
  let ms ← members v
  guard (onlyFields ["source", "node", "pointer", "fallback"] ms)
  return {
    source := ← required ms "source"
    node := ← presentWith deserialize ms "node"
    pointer := ← required ms "pointer"
    fallback := ← presentWith binding ms "fallback" }

/-- Reads a binding; the fuel bounds the nesting. -/
def Binding.fromValue : Nat → Value → Option Binding
  | 0, _ => none
  | _ + 1, .object [("literal", v)] => some (.literal v)
  | n + 1, .object [("select", v)] => (Selection.fromValue (fromValue n) v).map .select
  | n + 1, .object [("object", v)] => (fieldsWith (fromValue n) v).map .object
  | n + 1, .object [("array", v)] => (itemsWith (fromValue n) v).map .array
  | _ + 1, _ => none

/-- A selection reads back when its fallback does. -/
theorem Selection.fromValue_toValue {binding : Value → Option Binding} (s : Selection)
    (h : ∀ b ∈ s.fallback, binding b.toValue = some b) :
    Selection.fromValue binding s.toValue = some s := by
  obtain ⟨source, node, pointer, fallback⟩ := s
  cases node <;> cases fallback <;>
    simp_all [Selection.toValue, Selection.fromValue, optionalMember, Binding.fallbackMember,
      onlyFields]

theorem Selection.fallback_size_lt {s : Selection} {b : Binding} (h : b ∈ s.fallback) :
    b.toValue.size < s.toValue.size := by
  obtain ⟨source, node, pointer, fallback⟩ := s
  obtain rfl : fallback = some b := h
  apply Value.size_lt_object (k := "fallback")
  simp [Binding.fallbackMember]

/-- Every binding reads back as itself, with fuel for its size. -/
theorem Binding.fromValue_toValue (n : Nat) (b : Binding) (h : b.toValue.size ≤ n) :
    Binding.fromValue n b.toValue = some b := by
  induction n generalizing b with
  | zero => cases b <;> simp [Binding.toValue, Value.size] at h
  | succ n ih =>
    cases b with
    | literal v => simp [Binding.toValue, Binding.fromValue]
    -- a fallback is smaller than its selection
    | select s =>
      have hs : Selection.fromValue (Binding.fromValue n) s.toValue = some s := by
        refine Selection.fromValue_toValue s fun b hb => ih b ?_
        have := Selection.fallback_size_lt hb
        simp only [Binding.toValue, Value.size, Value.membersSize] at h
        omega
      simp [Binding.toValue, Binding.fromValue, hs]
    -- so are fields and items than their whole
    | object fields =>
      have hf : fieldsWith (Binding.fromValue n)
          (.object (fields.map fun f => (f.1, f.2.toValue))) = some fields := by
        refine fieldsWith_map _ fields fun f hf => ih f.2 ?_
        have hlt : f.2.toValue.size <
            (Value.object (fields.map fun f => (f.1, f.2.toValue))).size :=
          Value.size_lt_object (k := f.1) (List.mem_map.mpr ⟨f, hf, rfl⟩)
        simp only [Binding.toValue, Binding.fieldValues_eq_map, Value.size,
          Value.membersSize] at h hlt
        omega
      simp [Binding.toValue, Binding.fromValue, Binding.fieldValues_eq_map, hf]
    | array items =>
      have hi : itemsWith (Binding.fromValue n) (.array (items.map Binding.toValue)) =
          some items := by
        refine itemsWith_map _ items fun b hb => ih b ?_
        have hlt : b.toValue.size < (Value.array (items.map Binding.toValue)).size :=
          Value.size_lt_array (List.mem_map.mpr ⟨b, hb, rfl⟩)
        simp only [Binding.toValue, Binding.itemValues_eq_map, Value.size,
          Value.membersSize] at h hlt
        omega
      simp [Binding.toValue, Binding.fromValue, Binding.itemValues_eq_map, hi]

instance : Serialize Binding := ⟨Binding.toValue⟩
instance : Deserialize Binding := ⟨fun v => Binding.fromValue v.size v⟩
instance : LawfulSerde Binding := ⟨fun b => Binding.fromValue_toValue _ b le_rfl⟩
instance : DecidableEq Binding := serialize_injective.decidableEq

end WorkflowForge
