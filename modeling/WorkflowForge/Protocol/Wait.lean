import WorkflowForge.Protocol.Operation

/-!
# Signals and Waits

The durable records of a wait: what is awaited, until when, and the one delivery it
accepted. A run identity is its text.
-/

namespace WorkflowForge

open Lib

/-- Identity of a run. -/
abbrev RunId := String

/-! ## Signals -/

structure SignalCommand where
  runId : RunId
  waitId : String
  messageId : String
  correlation : String
  payload : Value
  artifacts : List ArtifactRef := []
deriving DecidableEq

def SignalCommand.toValue (c : SignalCommand) : Value := .object
  [("run_id", serialize c.runId), ("wait_id", serialize c.waitId),
   ("message_id", serialize c.messageId), ("correlation", serialize c.correlation),
   ("payload", c.payload), ("artifacts", serialize c.artifacts)]

def SignalCommand.fromValue (v : Value) : Option SignalCommand := do
  let ms ← members v
  guard (onlyFields
    ["run_id", "wait_id", "message_id", "correlation", "payload", "artifacts"] ms)
  return {
    runId := ← required ms "run_id"
    waitId := ← required ms "wait_id"
    messageId := ← required ms "message_id"
    correlation := ← required ms "correlation"
    payload := ← required ms "payload"
    artifacts := ← defaulted ms "artifacts" [] }

instance : Serialize SignalCommand := ⟨SignalCommand.toValue⟩
instance : Deserialize SignalCommand := ⟨SignalCommand.fromValue⟩

instance : LawfulSerde SignalCommand where
  readsAs c := by
    change SignalCommand.fromValue c.toValue = some c
    simp [SignalCommand.toValue, SignalCommand.fromValue, onlyFields]

/-- The answer to a signal: when it was accepted, and whether it had been before. -/
structure SignalReceipt where
  runId : RunId
  waitId : String
  messageId : String
  acceptedAtMs : UInt64
  durable : Bool
  duplicate : Bool
deriving DecidableEq

def SignalReceipt.toValue (r : SignalReceipt) : Value := .object
  [("run_id", serialize r.runId), ("wait_id", serialize r.waitId),
   ("message_id", serialize r.messageId), ("accepted_at_ms", serialize r.acceptedAtMs),
   ("durable", serialize r.durable), ("duplicate", serialize r.duplicate)]

def SignalReceipt.fromValue (v : Value) : Option SignalReceipt := do
  let ms ← members v
  return {
    runId := ← required ms "run_id"
    waitId := ← required ms "wait_id"
    messageId := ← required ms "message_id"
    acceptedAtMs := ← required ms "accepted_at_ms"
    durable := ← required ms "durable"
    duplicate := ← required ms "duplicate" }

instance : Serialize SignalReceipt := ⟨SignalReceipt.toValue⟩
instance : Deserialize SignalReceipt := ⟨SignalReceipt.fromValue⟩

instance : LawfulSerde SignalReceipt where
  readsAs r := by
    change SignalReceipt.fromValue r.toValue = some r
    simp [SignalReceipt.toValue, SignalReceipt.fromValue]

/-- The command a wait accepted, with its actor and its receipt. -/
structure SignalDelivery where
  command : SignalCommand
  actor : String
  receipt : SignalReceipt
deriving DecidableEq

def SignalDelivery.toValue (d : SignalDelivery) : Value := .object
  [("command", serialize d.command), ("actor", serialize d.actor),
   ("receipt", serialize d.receipt)]

def SignalDelivery.fromValue (v : Value) : Option SignalDelivery := do
  let ms ← members v
  return {
    command := ← required ms "command"
    actor := ← required ms "actor"
    receipt := ← required ms "receipt" }

instance : Serialize SignalDelivery := ⟨SignalDelivery.toValue⟩
instance : Deserialize SignalDelivery := ⟨SignalDelivery.fromValue⟩

instance : LawfulSerde SignalDelivery where
  readsAs d := by
    change SignalDelivery.fromValue d.toValue = some d
    simp [SignalDelivery.toValue, SignalDelivery.fromValue]

instance : NeverNull SignalDelivery := ⟨fun d => by simp [serialize, SignalDelivery.toValue]⟩

/-! ## Waits -/

inductive WaitKind where
  | timer
  | signal (correlation : String) (payloadSchema : Value) (startNode : Option String)
deriving DecidableEq

def WaitKind.toValue : WaitKind → Value
  | .timer => .object [("kind", .string "timer")]
  | .signal correlation payloadSchema startNode => .object
    [("kind", .string "signal"), ("correlation", serialize correlation),
     ("payload_schema", payloadSchema), ("start_node", serialize startNode)]

def WaitKind.fromValue (v : Value) : Option WaitKind := do
  let ms ← members v
  match ms.lookup "kind" with
  | some (.string "timer") => return .timer
  | some (.string "signal") =>
    return .signal (← required ms "correlation") (← required ms "payload_schema")
      (← defaulted ms "start_node" none)
  | _ => none

instance : Serialize WaitKind := ⟨WaitKind.toValue⟩
instance : Deserialize WaitKind := ⟨WaitKind.fromValue⟩

instance : LawfulSerde WaitKind where
  readsAs k := by
    change WaitKind.fromValue k.toValue = some k
    cases k <;> simp [WaitKind.toValue, WaitKind.fromValue]

inductive WaitState where
  | «open»
  | consumed
  | expired
  | closed
deriving DecidableEq

instance : Serialize WaitState where
  serialize
    | .open => .string "open"
    | .consumed => .string "consumed"
    | .expired => .string "expired"
    | .closed => .string "closed"

instance : Deserialize WaitState where
  deserialize
    | .string "open" => some .open
    | .string "consumed" => some .consumed
    | .string "expired" => some .expired
    | .string "closed" => some .closed
    | _ => none

instance : LawfulSerde WaitState := ⟨fun s => by cases s <;> rfl⟩

structure WaitRecord where
  id : String
  node : String
  kind : WaitKind
  createdAtMs : UInt64
  deadlineAtMs : UInt64
  startConfirmed : Bool
  state : WaitState
  delivery : Option SignalDelivery
deriving DecidableEq

def WaitRecord.toValue (w : WaitRecord) : Value := .object
  [("id", serialize w.id), ("node", serialize w.node), ("kind", serialize w.kind),
   ("created_at_ms", serialize w.createdAtMs), ("deadline_at_ms", serialize w.deadlineAtMs),
   ("start_confirmed", serialize w.startConfirmed), ("state", serialize w.state),
   ("delivery", serialize w.delivery)]

def WaitRecord.fromValue (v : Value) : Option WaitRecord := do
  let ms ← members v
  return {
    id := ← required ms "id"
    node := ← required ms "node"
    kind := ← required ms "kind"
    createdAtMs := ← required ms "created_at_ms"
    deadlineAtMs := ← required ms "deadline_at_ms"
    startConfirmed := ← required ms "start_confirmed"
    state := ← required ms "state"
    delivery := ← defaulted ms "delivery" none }

instance : Serialize WaitRecord := ⟨WaitRecord.toValue⟩
instance : Deserialize WaitRecord := ⟨WaitRecord.fromValue⟩

instance : LawfulSerde WaitRecord where
  readsAs w := by
    change WaitRecord.fromValue w.toValue = some w
    simp [WaitRecord.toValue, WaitRecord.fromValue]

end WorkflowForge
