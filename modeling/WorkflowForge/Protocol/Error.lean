import WorkflowForge.Lib.Json

/-!
# Errors

Structured failures of the engine and of operations, with their persisted form. An error
carries diagnostics; the first one gives its code. An operation's own failure travels
inside a diagnostic together with what is known about its effect.
-/

namespace WorkflowForge

open Lib

/-! ## Effect evidence and error classes -/

/-- What is known about the external effect of an attempt. -/
inductive EffectCertainty where
  | notApplied
  | applied
  | unknown
deriving DecidableEq

instance : Inhabited EffectCertainty := ⟨.notApplied⟩

instance : Serialize EffectCertainty where
  serialize
    | .notApplied => .string "not_applied"
    | .applied => .string "applied"
    | .unknown => .string "unknown"

instance : Deserialize EffectCertainty where
  deserialize
    | .string "not_applied" => some .notApplied
    | .string "applied" => some .applied
    | .string "unknown" => some .unknown
    | _ => none

instance : LawfulSerde EffectCertainty := ⟨fun c => by cases c <;> rfl⟩

/-- Class of an operation failure. -/
inductive ErrorClass where
  | invalidInput
  | rejected
  | transient
  | resource
  | internal
  | cancelled
deriving DecidableEq

instance : Serialize ErrorClass where
  serialize
    | .invalidInput => .string "invalid_input"
    | .rejected => .string "rejected"
    | .transient => .string "transient"
    | .resource => .string "resource"
    | .internal => .string "internal"
    | .cancelled => .string "cancelled"

instance : Deserialize ErrorClass where
  deserialize
    | .string "invalid_input" => some .invalidInput
    | .string "rejected" => some .rejected
    | .string "transient" => some .transient
    | .string "resource" => some .resource
    | .string "internal" => some .internal
    | .string "cancelled" => some .cancelled
    | _ => none

instance : LawfulSerde ErrorClass := ⟨fun c => by cases c <;> rfl⟩

/-- A failure reported by an operation. -/
structure OperationError where
  code : String
  class_ : ErrorClass
  certainty : EffectCertainty
  message : String
deriving DecidableEq

def OperationError.toValue (e : OperationError) : Value := .object
    [("code", serialize e.code), ("class", serialize e.class_),
     ("certainty", serialize e.certainty), ("message", serialize e.message)]

def OperationError.fromValue (v : Value) : Option OperationError := do
  let ms ← members v
  return {
    code := ← required ms "code"
    class_ := ← required ms "class"
    certainty := ← required ms "certainty"
    message := ← required ms "message" }

instance : Serialize OperationError := ⟨OperationError.toValue⟩
instance : Deserialize OperationError := ⟨OperationError.fromValue⟩

instance : LawfulSerde OperationError where
  readsAs e := by
    change OperationError.fromValue e.toValue = some e
    simp [OperationError.toValue, OperationError.fromValue]

instance : NeverNull OperationError := ⟨fun e => by simp [serialize, OperationError.toValue]⟩

/-! ## Diagnostics -/

/-- Where an error was found: paths and identities, never data. -/
structure Location where
  node : Option String := none
  field : String := ""
  data : Option String := none
deriving DecidableEq

def Location.toValue (l : Location) : Value := .object
    [("node", serialize l.node), ("field", serialize l.field), ("data", serialize l.data)]

def Location.fromValue (v : Value) : Option Location := do
  let ms ← members v
  return {
    node := ← defaulted ms "node" none
    field := ← required ms "field"
    data := ← defaulted ms "data" none }

instance : Serialize Location := ⟨Location.toValue⟩
instance : Deserialize Location := ⟨Location.fromValue⟩

instance : LawfulSerde Location where
  readsAs l := by
    change Location.fromValue l.toValue = some l
    simp [Location.toValue, Location.fromValue]

structure Diagnostic where
  code : String
  message : String
  phase : String
  location : Location
  operationError : Option OperationError
  retryable : Option Bool
deriving DecidableEq

def Diagnostic.toValue (d : Diagnostic) : Value := .object
    ([("code", serialize d.code), ("message", serialize d.message),
      ("phase", serialize d.phase), ("location", serialize d.location)]
      ++ optionalMember "operation_error" d.operationError
      ++ optionalMember "retryable" d.retryable)

def Diagnostic.fromValue (v : Value) : Option Diagnostic := do
  let ms ← members v
  return {
    code := ← required ms "code"
    message := ← required ms "message"
    phase := ← required ms "phase"
    location := ← required ms "location"
    operationError := ← defaulted ms "operation_error" none
    retryable := ← defaulted ms "retryable" none }

instance : Serialize Diagnostic := ⟨Diagnostic.toValue⟩
instance : Deserialize Diagnostic := ⟨Diagnostic.fromValue⟩

instance : LawfulSerde Diagnostic where
  readsAs d := by
    change Diagnostic.fromValue d.toValue = some d
    obtain ⟨code, message, phase, location, operationError, retryable⟩ := d
    cases operationError <;> cases retryable <;>
      simp [Diagnostic.toValue, Diagnostic.fromValue, optionalMember, deserialize_some]

/-- `Diagnostic::new`: a diagnostic of the execution phase without a location. -/
def Diagnostic.new (code message : String) : Diagnostic where
  code := code
  message := message
  phase := "execution"
  location := {}
  operationError := none
  retryable := none

/-! ## Errors -/

structure ForgeError where
  diagnostics : List Diagnostic
deriving DecidableEq

def ForgeError.toValue (e : ForgeError) : Value :=
  .object [("diagnostics", serialize e.diagnostics)]

def ForgeError.fromValue (v : Value) : Option ForgeError := do
  let ms ← members v
  return { diagnostics := ← required ms "diagnostics" }

instance : Serialize ForgeError := ⟨ForgeError.toValue⟩
instance : Deserialize ForgeError := ⟨ForgeError.fromValue⟩

instance : LawfulSerde ForgeError where
  readsAs e := by
    change ForgeError.fromValue e.toValue = some e
    simp [ForgeError.toValue, ForgeError.fromValue]

instance : NeverNull ForgeError := ⟨fun e => by simp [serialize, ForgeError.toValue]⟩

namespace ForgeError

/-- An error with a single diagnostic. -/
def new (code message : String) : ForgeError where
  diagnostics := [Diagnostic.new code message]

/-- The code of the first diagnostic. -/
def code (e : ForgeError) : String :=
  match e.diagnostics.head? with
  | none => "internal"
  | some d => d.code

@[simp] theorem code_new (c m : String) : (new c m).code = c := rfl

end ForgeError

end WorkflowForge
