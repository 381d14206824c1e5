import WorkflowForge.Protocol.Reconcile

/-!
# Runs

The durable state of one run: its invocation records, its header, and the projections an
engine reads instead of the whole snapshot.

Two optional documents of a run are written so that a present `null` reads back as absent:
the output of a record and the output of the run. `InvocationRecord.stored` and
`RunSnapshot.stored` say what a store gives back.

## Main results

- `InvocationRecord.fromValue_toValue`, `RunSnapshot.fromValue_toValue`: what the persisted
  form reads back as.
- `InvocationRecord.stored_eq_self`, `RunSnapshot.stored_eq_self`: exactly when nothing is
  lost.
-/

namespace WorkflowForge

open Lib

/-! ## States -/

inductive RunState where
  | accepted
  | running
  | waiting
  | blocked
  | cancelling
  | succeeded
  | failed
  | cancelled
deriving DecidableEq

namespace RunState

/-- The persisted word of a state. -/
def word : RunState → String
  | accepted => "accepted"
  | running => "running"
  | waiting => "waiting"
  | blocked => "blocked"
  | cancelling => "cancelling"
  | succeeded => "succeeded"
  | failed => "failed"
  | cancelled => "cancelled"

def parse : String → Option RunState
  | "accepted" => some accepted
  | "running" => some running
  | "waiting" => some waiting
  | "blocked" => some blocked
  | "cancelling" => some cancelling
  | "succeeded" => some succeeded
  | "failed" => some failed
  | "cancelled" => some cancelled
  | _ => none

@[simp] theorem parse_word (s : RunState) : parse s.word = some s := by
  cases s <;> rfl

/-- A word that is read at all is the word of what it reads as. -/
theorem word_of_parse {text : String} {s : RunState} (h : parse text = some s) :
    text = s.word := by
  unfold parse at h
  split at h <;> cases h <;> rfl

def isTerminal : RunState → Bool
  | succeeded | failed | cancelled => true
  | _ => false

instance : Serialize RunState := ⟨fun s => .string s.word⟩
instance : Deserialize RunState := ⟨fun v => v.asStr.bind parse⟩
instance : LawfulSerde RunState := ⟨fun s => parse_word s⟩

end RunState

inductive InvocationState where
  | pending
  | running
  | retryScheduled
  | succeeded
  | failed
  | cancelled
  | unknown
deriving DecidableEq

instance : Serialize InvocationState where
  serialize
    | .pending => .string "pending"
    | .running => .string "running"
    | .retryScheduled => .string "retry_scheduled"
    | .succeeded => .string "succeeded"
    | .failed => .string "failed"
    | .cancelled => .string "cancelled"
    | .unknown => .string "unknown"

instance : Deserialize InvocationState where
  deserialize
    | .string "pending" => some .pending
    | .string "running" => some .running
    | .string "retry_scheduled" => some .retryScheduled
    | .string "succeeded" => some .succeeded
    | .string "failed" => some .failed
    | .string "cancelled" => some .cancelled
    | .string "unknown" => some .unknown
    | _ => none

instance : LawfulSerde InvocationState := ⟨fun s => by cases s <;> rfl⟩

/-! ## Control frames -/

/-- Durable progress of a control node. -/
inductive ControlFrame where
  | «try» (handler : Option String) (error : Option ForgeError)
  | wait (id : String)
  | decision (selected : String)
  | parallel (branches : List String) (nextIndex : Nat) (stopped : Bool)
      (error : Option ForgeError)
  | foreach (total nextIndex : Nat) (stopped : Bool) (error : Option ForgeError)
  | loop (iteration : Nat) (state : Value)
  | subworkflow (workflow : WorkflowRevision)
deriving DecidableEq

namespace ControlFrame

def toValue : ControlFrame → Value
  | .try handler error => .object
    [("kind", .string "try"), ("handler", serialize handler), ("error", serialize error)]
  | wait id => .object [("kind", .string "wait"), ("id", serialize id)]
  | decision selected => .object
    [("kind", .string "decision"), ("selected", serialize selected)]
  | parallel branches nextIndex stopped error => .object
    [("kind", .string "parallel"), ("branches", serialize branches),
     ("next_index", serialize nextIndex), ("stopped", serialize stopped),
     ("error", serialize error)]
  | foreach total nextIndex stopped error => .object
    [("kind", .string "foreach"), ("total", serialize total),
     ("next_index", serialize nextIndex), ("stopped", serialize stopped),
     ("error", serialize error)]
  | loop iteration state => .object
    [("kind", .string "loop"), ("iteration", serialize iteration), ("state", state)]
  | subworkflow workflow => .object
    [("kind", .string "subworkflow"), ("workflow", serialize workflow)]

def fromValue (v : Value) : Option ControlFrame := do
  let ms ← members v
  match ms.lookup "kind" with
  | some (.string "try") =>
    return .try (← defaulted ms "handler" none) (← defaulted ms "error" none)
  | some (.string "wait") => return .wait (← required ms "id")
  | some (.string "decision") => return .decision (← required ms "selected")
  | some (.string "parallel") =>
    return .parallel (← required ms "branches") (← required ms "next_index")
      (← required ms "stopped") (← defaulted ms "error" none)
  | some (.string "foreach") =>
    return .foreach (← required ms "total") (← required ms "next_index")
      (← required ms "stopped") (← defaulted ms "error" none)
  | some (.string "loop") => return .loop (← required ms "iteration") (← required ms "state")
  | some (.string "subworkflow") => return .subworkflow (← required ms "workflow")
  | _ => none

instance : Serialize ControlFrame := ⟨toValue⟩
instance : Deserialize ControlFrame := ⟨fromValue⟩

instance : LawfulSerde ControlFrame where
  readsAs f := by
    change fromValue f.toValue = some f
    cases f <;> simp [toValue, fromValue]

instance : NeverNull ControlFrame := ⟨fun f => by cases f <;> simp [serialize, toValue]⟩

end ControlFrame

/-! ## Invocation records -/

/-- The durable record of one invocation, with everything a retry needs. -/
structure InvocationRecord where
  id : String
  attemptId : String
  attempts : UInt32
  state : InvocationState
  input : Value
  output : Option Value
  error : Option ForgeError
  operation : Option OperationRevision := none
  config : Value := .null
  effectKey : Option String := none
  retry : RetryPolicy := {}
  nextAttemptAtMs : Option UInt64 := none
  certainty : EffectCertainty := .notApplied
  control : Option ControlFrame := none
deriving DecidableEq

namespace InvocationRecord

def toValue (r : InvocationRecord) : Value := .object
  [("id", serialize r.id), ("attempt_id", serialize r.attemptId),
   ("attempts", serialize r.attempts), ("state", serialize r.state), ("input", r.input),
   ("output", serialize r.output), ("error", serialize r.error),
   ("operation", serialize r.operation), ("config", r.config),
   ("effect_key", serialize r.effectKey), ("retry", serialize r.retry),
   ("next_attempt_at_ms", serialize r.nextAttemptAtMs), ("certainty", serialize r.certainty),
   ("control", serialize r.control)]

def fromValue (v : Value) : Option InvocationRecord := do
  let ms ← members v
  return {
    id := ← required ms "id"
    attemptId := ← required ms "attempt_id"
    attempts := ← required ms "attempts"
    state := ← required ms "state"
    input := ← required ms "input"
    output := ← defaulted ms "output" none
    error := ← defaulted ms "error" none
    operation := ← defaulted ms "operation" none
    config := ← defaulted ms "config" .null
    effectKey := ← defaulted ms "effect_key" none
    retry := ← defaulted ms "retry" {}
    nextAttemptAtMs := ← defaulted ms "next_attempt_at_ms" none
    certainty := ← defaulted ms "certainty" .notApplied
    control := ← defaulted ms "control" none }

instance : Serialize InvocationRecord := ⟨toValue⟩
instance : Deserialize InvocationRecord := ⟨fromValue⟩

/-- The record a store gives back: a `null` output is lost. -/
def stored (r : InvocationRecord) : InvocationRecord :=
  { r with output := dropNull r.output }

theorem fromValue_toValue (r : InvocationRecord) : ReadsAs r r.stored := by
  change fromValue r.toValue = some r.stored
  unfold fromValue toValue
  rw [members_object]
  refine (Option.bind_some _ _).trans ?_
  iterate 5 refine required_bind rfl (LawfulSerde.readsAs _) ?_
  refine defaulted_bind rfl (readsAs_optionValue _) ?_
  iterate 8 refine defaulted_bind rfl (LawfulSerde.readsAs _) ?_
  rfl

@[simp] theorem stored_eq_self {r : InvocationRecord} : r.stored = r ↔ r.output ≠ some .null := by
  obtain ⟨id, attemptId, attempts, state, input, output, error, operation, config, effectKey,
    retry, nextAttemptAtMs, certainty, control⟩ := r
  simp [stored]

/-- A decoded record lost its `null` when it was decoded, and reads back as itself. -/
theorem readsAs_decoded {v : Value} {r : InvocationRecord} (h : deserialize v = some r) :
    ReadsAs r r := by
  have hnull : r.output ≠ some .null := by
    change fromValue v = some r at h
    unfold fromValue at h
    iterate 6 obtain ⟨_, -, h⟩ := Option.bind_eq_some_iff.mp h
    obtain ⟨output, houtput, h⟩ := Option.bind_eq_some_iff.mp h
    iterate 8 obtain ⟨_, -, h⟩ := Option.bind_eq_some_iff.mp h
    cases h
    exact defaulted_option_ne_null houtput
  have := r.fromValue_toValue
  rwa [stored_eq_self.mpr hnull] at this

def isWait (r : InvocationRecord) : Bool :=
  match r.control with
  | some (.wait _) => true
  | _ => false

/-- The effect of the invocation is still uncertain. -/
def isUnresolved (r : InvocationRecord) : Bool :=
  r.state = .unknown ∨
    (r.operation.isSome ∧ r.state ≠ .succeeded ∧ r.certainty ≠ .notApplied)

/-- Serialized payload of a record. -/
def retainedDataBytes (r : InvocationRecord) : Nat :=
  jsonBytes r.input + jsonBytes r.config + (r.output.map jsonBytes).getD 0
    + (r.error.map jsonBytes).getD 0 + (r.control.map jsonBytes).getD 0

@[simp] theorem stored_isUnresolved (r : InvocationRecord) :
    r.stored.isUnresolved = r.isUnresolved := rfl

/-- The payload of the stored record misses the four bytes of a lost `null`. -/
theorem stored_retainedDataBytes (r : InvocationRecord) :
    r.retainedDataBytes =
      r.stored.retainedDataBytes + if r.output = some .null then 4 else 0 := by
  by_cases h : r.output = some .null
  · simp only [retainedDataBytes, stored, h, if_true]
    have hn : jsonBytes Value.null = 4 := rfl
    simp [dropNull, Option.filter, hn]
    omega
  · rw [stored_eq_self.mpr h]
    simp [h]

end InvocationRecord

/-! ## Run snapshots -/

/-- Supported version of the persisted format. -/
def checkpointFormat : UInt32 := 3

structure RunSnapshot where
  waits : BTreeMap String WaitRecord := ∅
  checkpointFormat : UInt32
  id : RunId
  scope : String
  actor : String
  resources : BTreeSet String
  revision : UInt64
  definition : WorkflowDefinition
  package : ResolvedPackage
  input : Value
  state : RunState
  artifacts : List ArtifactRef := []
  invocations : BTreeMap String InvocationRecord
  output : Option Value
  error : Option ForgeError
  createdAtMs : UInt64
  deadlineAtMs : UInt64
  finishedAtMs : Option UInt64
  cancelRequested : Bool
  audit : List AuditEntry := []
  unresolvedEffects : List UnresolvedEffect := []
deriving DecidableEq

/-- A coherent projection of one committed revision. -/
structure RunHead where
  nextWakeupAtMs : Option UInt64
  id : RunId
  scope : String
  revision : UInt64
  state : RunState
  cancelRequested : Bool
  deadlineAtMs : UInt64
  invocationCount : Nat
  retainedDataBytes : Nat
  unresolvedInvocations : Nat
deriving DecidableEq

structure ExecutionView where
  head : RunHead
  invocation : Option InvocationRecord
  unresolvedDescendants : Bool
deriving DecidableEq

/-- Whether the text `s` starts with `p`. -/
def startsWith (s p : String) : Bool :=
  p.toList.isPrefixOf s.toList

namespace RunSnapshot

def toValue (s : RunSnapshot) : Value := .object
  [("waits", serialize s.waits), ("checkpoint_format", serialize s.checkpointFormat),
   ("id", serialize s.id), ("scope", serialize s.scope), ("actor", serialize s.actor),
   ("resources", serialize s.resources), ("revision", serialize s.revision),
   ("definition", serialize s.definition), ("package", serialize s.package),
   ("input", s.input), ("state", serialize s.state), ("artifacts", serialize s.artifacts),
   ("invocations", serialize s.invocations), ("output", serialize s.output),
   ("error", serialize s.error), ("created_at_ms", serialize s.createdAtMs),
   ("deadline_at_ms", serialize s.deadlineAtMs),
   ("finished_at_ms", serialize s.finishedAtMs),
   ("cancel_requested", serialize s.cancelRequested), ("audit", serialize s.audit),
   ("unresolved_effects", serialize s.unresolvedEffects)]

def fromValue (v : Value) : Option RunSnapshot := do
  let ms ← members v
  return {
    waits := ← defaulted ms "waits" ∅
    checkpointFormat := ← required ms "checkpoint_format"
    id := ← required ms "id"
    scope := ← required ms "scope"
    actor := ← required ms "actor"
    resources := ← required ms "resources"
    revision := ← required ms "revision"
    definition := ← required ms "definition"
    package := ← required ms "package"
    input := ← required ms "input"
    state := ← required ms "state"
    artifacts := ← defaulted ms "artifacts" []
    invocations := ← required ms "invocations"
    output := ← defaulted ms "output" none
    error := ← defaulted ms "error" none
    createdAtMs := ← required ms "created_at_ms"
    deadlineAtMs := ← required ms "deadline_at_ms"
    finishedAtMs := ← defaulted ms "finished_at_ms" none
    cancelRequested := ← required ms "cancel_requested"
    audit := ← defaulted ms "audit" []
    unresolvedEffects := ← defaulted ms "unresolved_effects" [] }

instance : Serialize RunSnapshot := ⟨toValue⟩
instance : Deserialize RunSnapshot := ⟨fromValue⟩

/-- The snapshot a store gives back: `null` outputs are lost, wherever they are. -/
def stored (s : RunSnapshot) : RunSnapshot :=
  { s with
    invocations := BTreeMap.mapValues InvocationRecord.stored s.invocations
    output := dropNull s.output
    audit := s.audit.map AuditEntry.stored }

theorem fromValue_toValue (s : RunSnapshot) : ReadsAs s s.stored := by
  have hi : ReadsAs s.invocations (BTreeMap.mapValues InvocationRecord.stored s.invocations) :=
    readsAs_map s.invocations fun _ r _ => r.fromValue_toValue
  have ha : ReadsAs s.audit (s.audit.map AuditEntry.stored) :=
    readsAs_list s.audit fun e _ => e.fromValue_toValue
  change fromValue s.toValue = some s.stored
  unfold fromValue toValue
  rw [members_object]
  refine (Option.bind_some _ _).trans ?_
  refine defaulted_bind rfl (LawfulSerde.readsAs _) ?_
  iterate 10 refine required_bind rfl (LawfulSerde.readsAs _) ?_
  refine defaulted_bind rfl (LawfulSerde.readsAs _) ?_
  refine required_bind rfl hi ?_
  refine defaulted_bind rfl (readsAs_optionValue _) ?_
  refine defaulted_bind rfl (LawfulSerde.readsAs _) ?_
  iterate 2 refine required_bind rfl (LawfulSerde.readsAs _) ?_
  refine defaulted_bind rfl (LawfulSerde.readsAs _) ?_
  refine required_bind rfl (LawfulSerde.readsAs _) ?_
  refine defaulted_bind rfl ha ?_
  refine defaulted_bind rfl (LawfulSerde.readsAs _) ?_
  rfl

/-- Output, diagnostics and audit payload. -/
def retainedResultBytes (s : RunSnapshot) : Nat :=
  (s.output.map jsonBytes).getD 0 + (s.error.map jsonBytes).getD 0 + jsonBytes s.audit
    + jsonBytes s.unresolvedEffects + ((BTreeMap.valueList s.waits).map jsonBytes).sum

/-- Payload of all records. -/
def recordBytes (m : BTreeMap String InvocationRecord) : Nat :=
  BTreeMap.sumValues InvocationRecord.retainedDataBytes m

def retainedDataBytes (s : RunSnapshot) : Nat :=
  jsonBytes s.input + (s.artifacts.map jsonBytes).sum + s.retainedResultBytes
    + recordBytes s.invocations

/-- Number of records whose effect is still uncertain. -/
def unresolvedCount (m : BTreeMap String InvocationRecord) : Nat :=
  (BTreeMap.valueList m).countP InvocationRecord.isUnresolved

/-- When an open wait next needs its run: at once if it can be consumed. -/
def wakeup (w : WaitRecord) : Option UInt64 :=
  if w.state = .open then
    if w.delivery.isSome then
      if w.startConfirmed then some 0 else none
    else some w.deadlineAtMs
  else none

def nextWakeupAtMs (s : RunSnapshot) : Option UInt64 :=
  let pending := ((BTreeMap.valueList s.waits).filterMap wakeup).min?
  if s.state = .waiting then
    some (min (pending.getD s.deadlineAtMs) s.deadlineAtMs)
  else pending

def head (s : RunSnapshot) : RunHead where
  nextWakeupAtMs := s.nextWakeupAtMs
  id := s.id
  scope := s.scope
  revision := s.revision
  state := s.state
  cancelRequested := s.cancelRequested
  deadlineAtMs := s.deadlineAtMs
  invocationCount := s.invocations.size
  retainedDataBytes := s.retainedDataBytes
  unresolvedInvocations := unresolvedCount s.invocations

/-- Some record below `node`, or anywhere without one, is unresolved. -/
def unresolvedBelow (s : RunSnapshot) (node : Option String) : Bool :=
  BTreeMap.any (fun key r => r.isUnresolved &&
    (match node with
      | none => true
      | some n => startsWith key (n ++ "/"))) s.invocations

def view (s : RunSnapshot) (node : Option String) : ExecutionView where
  head := s.head
  invocation := node.bind fun key => s.invocations[key]?
  unresolvedDescendants := s.unresolvedBelow node

/-- Closes every wait that is still open. -/
def closeWait (w : WaitRecord) : WaitRecord :=
  if w.state = .open then { w with state := .closed } else w

def closeWaits (s : RunSnapshot) : RunSnapshot :=
  { s with waits := BTreeMap.mapValues closeWait s.waits }

/-! ### What is lost -/

/-- No optional document of the snapshot is a present `null`. -/
def NoNullOutput (s : RunSnapshot) : Prop :=
  s.output ≠ some .null ∧
    (∀ (key : String) (r : InvocationRecord), s.invocations[key]? = some r →
      r.output ≠ some .null) ∧
    ∀ e ∈ s.audit, e.lateOutput ≠ some .null

/-- A snapshot reads back as itself exactly when no such document is `null`. -/
theorem stored_eq_self {s : RunSnapshot} : s.stored = s ↔ s.NoNullOutput := by
  constructor
  · intro h
    refine ⟨?_, ?_, ?_⟩
    · have := congrArg RunSnapshot.output h
      exact dropNull_eq_self.mp this
    · intro key r hr
      have := congrArg (fun t : RunSnapshot => t.invocations[key]?) h
      simp only [stored, BTreeMap.get_mapValues, hr, Option.map_some, Option.some.injEq] at this
      exact InvocationRecord.stored_eq_self.mp this
    · have : s.audit.map AuditEntry.stored = s.audit.map fun e => e := by
        simpa [stored] using congrArg RunSnapshot.audit h
      intro e he
      exact AuditEntry.stored_eq_self.mp (List.map_inj_left.mp this e he)
  · rintro ⟨ho, hi, ha⟩
    have h₁ : dropNull s.output = s.output := dropNull_eq_self.mpr ho
    have h₂ : BTreeMap.mapValues InvocationRecord.stored s.invocations = s.invocations := by
      apply Std.ExtTreeMap.ext_getElem?
      intro key
      rw [BTreeMap.get_mapValues]
      cases hr : s.invocations[key]? with
      | none => rfl
      | some r => simp [InvocationRecord.stored_eq_self.mpr (hi key r hr)]
    have h₃ : s.audit.map AuditEntry.stored = s.audit := by
      conv_rhs => rw [← List.map_id s.audit]
      exact List.map_congr_left fun e he => AuditEntry.stored_eq_self.mpr (ha e he)
    simp only [stored, h₁, h₂, h₃]

/-- A decoded header has nothing left to lose. -/
theorem noNullOutput_decoded {v : Value} {s : RunSnapshot} (h : deserialize v = some s)
    (hheader : s.invocations = ∅) : s.NoNullOutput := by
  change fromValue v = some s at h
  unfold fromValue at h
  iterate 14 obtain ⟨_, -, h⟩ := Option.bind_eq_some_iff.mp h
  obtain ⟨output, houtput, h⟩ := Option.bind_eq_some_iff.mp h
  iterate 5 obtain ⟨_, -, h⟩ := Option.bind_eq_some_iff.mp h
  obtain ⟨audit, haudit, h⟩ := Option.bind_eq_some_iff.mp h
  obtain ⟨_, -, h⟩ := Option.bind_eq_some_iff.mp h
  cases h
  refine ⟨defaulted_option_ne_null houtput, fun key r hr => ?_, fun e he => ?_⟩
  · simp only at hheader
    simp [hheader] at hr
  · unfold defaulted defaultedWith at haudit
    split at haudit
    · cases haudit
      nomatch he
    · obtain ⟨w, hw⟩ := deserialize_list haudit e he
      exact AuditEntry.lateOutput_ne_null hw

end RunSnapshot

end WorkflowForge
