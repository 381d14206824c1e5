import WorkflowForge.Protocol.Wait

/-!
# Reconciliation Records

Commands that settle an uncertain effect, the audit they leave, and observations that
arrive after their attempt was given up. An observation keeps its output in an optional
document, so a present `null` is stored as an absent one.

## Main results

- `LateObservation.fromValue_toValue`, `AuditEntry.fromValue_toValue`: what an entry reads
  back as.
- `AuditEntry.stored_eq_self`: an entry reads back as itself unless its output is `null`.
-/

namespace WorkflowForge

open Lib

/-! ## Commands -/

/-- Attestation supplied by the host. -/
structure EffectEvidence where
  authority : String
  reference : String
  note : String
deriving DecidableEq

def EffectEvidence.toValue (e : EffectEvidence) : Value := .object
  [("authority", serialize e.authority), ("reference", serialize e.reference),
   ("note", serialize e.note)]

def EffectEvidence.fromValue (v : Value) : Option EffectEvidence := do
  let ms ← members v
  guard (onlyFields ["authority", "reference", "note"] ms)
  return {
    authority := ← required ms "authority"
    reference := ← required ms "reference"
    note := ← required ms "note" }

instance : Serialize EffectEvidence := ⟨EffectEvidence.toValue⟩
instance : Deserialize EffectEvidence := ⟨EffectEvidence.fromValue⟩

instance : LawfulSerde EffectEvidence where
  readsAs e := by
    change EffectEvidence.fromValue e.toValue = some e
    simp [EffectEvidence.toValue, EffectEvidence.fromValue, onlyFields]

instance : NeverNull EffectEvidence := ⟨fun e => by simp [serialize, EffectEvidence.toValue]⟩

inductive EffectResolution where
  | confirmApplied (output : Value) (evidence : EffectEvidence)
  | confirmNotApplied (evidence : EffectEvidence) (quiescent retry : Bool)
  | recordInconclusive (reason : String) (evidence : Option EffectEvidence)
  | stopTracking (reason : String) (evidence : Option EffectEvidence)
deriving DecidableEq

def EffectResolution.toValue : EffectResolution → Value
  | .confirmApplied output evidence => .object
    [("decision", .string "confirm_applied"), ("output", output),
     ("evidence", serialize evidence)]
  | .confirmNotApplied evidence quiescent retry => .object
    [("decision", .string "confirm_not_applied"), ("evidence", serialize evidence),
     ("quiescent", serialize quiescent), ("retry", serialize retry)]
  | .recordInconclusive reason evidence => .object
    [("decision", .string "record_inconclusive"), ("reason", serialize reason),
     ("evidence", serialize evidence)]
  | .stopTracking reason evidence => .object
    [("decision", .string "stop_tracking"), ("reason", serialize reason),
     ("evidence", serialize evidence)]

def EffectResolution.fromValue (v : Value) : Option EffectResolution := do
  let ms ← members v
  match ms.lookup "decision" with
  | some (.string "confirm_applied") => do
    guard (onlyFields ["decision", "output", "evidence"] ms)
    return .confirmApplied (← required ms "output") (← required ms "evidence")
  | some (.string "confirm_not_applied") => do
    guard (onlyFields ["decision", "evidence", "quiescent", "retry"] ms)
    return .confirmNotApplied (← required ms "evidence") (← required ms "quiescent")
      (← required ms "retry")
  | some (.string "record_inconclusive") => do
    guard (onlyFields ["decision", "reason", "evidence"] ms)
    return .recordInconclusive (← required ms "reason") (← defaulted ms "evidence" none)
  | some (.string "stop_tracking") => do
    guard (onlyFields ["decision", "reason", "evidence"] ms)
    return .stopTracking (← required ms "reason") (← defaulted ms "evidence" none)
  | _ => none

instance : Serialize EffectResolution := ⟨EffectResolution.toValue⟩
instance : Deserialize EffectResolution := ⟨EffectResolution.fromValue⟩

instance : LawfulSerde EffectResolution where
  readsAs r := by
    change EffectResolution.fromValue r.toValue = some r
    cases r <;> simp [EffectResolution.toValue, EffectResolution.fromValue, onlyFields]

structure ReconcileCommand where
  commandId : String
  runId : RunId
  invocationId : String
  expectedRevision : UInt64
  observedAttempt : String
  resolution : EffectResolution
deriving DecidableEq

def ReconcileCommand.toValue (c : ReconcileCommand) : Value := .object
  [("command_id", serialize c.commandId), ("run_id", serialize c.runId),
   ("invocation_id", serialize c.invocationId),
   ("expected_revision", serialize c.expectedRevision),
   ("observed_attempt", serialize c.observedAttempt), ("resolution", serialize c.resolution)]

def ReconcileCommand.fromValue (v : Value) : Option ReconcileCommand := do
  let ms ← members v
  guard (onlyFields ["command_id", "run_id", "invocation_id", "expected_revision",
    "observed_attempt", "resolution"] ms)
  return {
    commandId := ← required ms "command_id"
    runId := ← required ms "run_id"
    invocationId := ← required ms "invocation_id"
    expectedRevision := ← required ms "expected_revision"
    observedAttempt := ← required ms "observed_attempt"
    resolution := ← required ms "resolution" }

instance : Serialize ReconcileCommand := ⟨ReconcileCommand.toValue⟩
instance : Deserialize ReconcileCommand := ⟨ReconcileCommand.fromValue⟩

instance : LawfulSerde ReconcileCommand where
  readsAs c := by
    change ReconcileCommand.fromValue c.toValue = some c
    simp [ReconcileCommand.toValue, ReconcileCommand.fromValue, onlyFields]

/-! ## Receipts and audit -/

inductive ResolutionStatus where
  | applied
  | retryReady
  | failed
  | stillBlocked
  | stoppedTracking
deriving DecidableEq

instance : Serialize ResolutionStatus where
  serialize
    | .applied => .string "applied"
    | .retryReady => .string "retry_ready"
    | .failed => .string "failed"
    | .stillBlocked => .string "still_blocked"
    | .stoppedTracking => .string "stopped_tracking"

instance : Deserialize ResolutionStatus where
  deserialize
    | .string "applied" => some .applied
    | .string "retry_ready" => some .retryReady
    | .string "failed" => some .failed
    | .string "still_blocked" => some .stillBlocked
    | .string "stopped_tracking" => some .stoppedTracking
    | _ => none

instance : LawfulSerde ResolutionStatus := ⟨fun s => by cases s <;> rfl⟩

structure ReconcileReceipt where
  commandId : String
  runId : RunId
  revision : UInt64
  status : ResolutionStatus
  diagnostic : Option ForgeError
deriving DecidableEq

def ReconcileReceipt.toValue (r : ReconcileReceipt) : Value := .object
  [("command_id", serialize r.commandId), ("run_id", serialize r.runId),
   ("revision", serialize r.revision), ("status", serialize r.status),
   ("diagnostic", serialize r.diagnostic)]

def ReconcileReceipt.fromValue (v : Value) : Option ReconcileReceipt := do
  let ms ← members v
  return {
    commandId := ← required ms "command_id"
    runId := ← required ms "run_id"
    revision := ← required ms "revision"
    status := ← required ms "status"
    diagnostic := ← defaulted ms "diagnostic" none }

instance : Serialize ReconcileReceipt := ⟨ReconcileReceipt.toValue⟩
instance : Deserialize ReconcileReceipt := ⟨ReconcileReceipt.fromValue⟩

instance : LawfulSerde ReconcileReceipt where
  readsAs r := by
    change ReconcileReceipt.fromValue r.toValue = some r
    simp [ReconcileReceipt.toValue, ReconcileReceipt.fromValue]

structure ResolutionAudit where
  command : ReconcileCommand
  actor : String
  atMs : UInt64
  receipt : ReconcileReceipt
deriving DecidableEq

def ResolutionAudit.toMembers (a : ResolutionAudit) : List (String × Value) :=
  [("command", serialize a.command), ("actor", serialize a.actor), ("at_ms", serialize a.atMs),
   ("receipt", serialize a.receipt)]

def ResolutionAudit.fromMembers (ms : List (String × Value)) : Option ResolutionAudit := do
  return {
    command := ← required ms "command"
    actor := ← required ms "actor"
    atMs := ← required ms "at_ms"
    receipt := ← required ms "receipt" }

/-- An outcome observed after its attempt was recorded as uncertain. -/
structure LateObservation where
  invocationId : String
  attemptId : String
  atMs : UInt64
  output : Option Value
  error : Option ForgeError
deriving DecidableEq

def LateObservation.toMembers (o : LateObservation) : List (String × Value) :=
  [("invocation_id", serialize o.invocationId), ("attempt_id", serialize o.attemptId),
   ("at_ms", serialize o.atMs), ("output", serialize o.output), ("error", serialize o.error)]

def LateObservation.fromMembers (ms : List (String × Value)) : Option LateObservation := do
  return {
    invocationId := ← required ms "invocation_id"
    attemptId := ← required ms "attempt_id"
    atMs := ← required ms "at_ms"
    output := ← defaulted ms "output" none
    error := ← defaulted ms "error" none }

inductive AuditEntry where
  | resolution (audit : ResolutionAudit)
  | late (observation : LateObservation)
deriving DecidableEq

/-- The tag of an entry is a member of the entry's own object. -/
def AuditEntry.toValue : AuditEntry → Value
  | .resolution a => .object (("kind", .string "resolution") :: a.toMembers)
  | .late o => .object (("kind", .string "late") :: o.toMembers)

def AuditEntry.fromValue (v : Value) : Option AuditEntry := do
  let ms ← members v
  match ms.lookup "kind" with
  | some (.string "resolution") => (ResolutionAudit.fromMembers ms).map .resolution
  | some (.string "late") => (LateObservation.fromMembers ms).map .late
  | _ => none

instance : Serialize AuditEntry := ⟨AuditEntry.toValue⟩
instance : Deserialize AuditEntry := ⟨AuditEntry.fromValue⟩

/-- The observation a store keeps: a `null` output is lost. -/
def LateObservation.stored (o : LateObservation) : LateObservation :=
  { o with output := dropNull o.output }

/-- The entry a store keeps. -/
def AuditEntry.stored : AuditEntry → AuditEntry
  | .resolution a => .resolution a
  | .late o => .late o.stored

theorem AuditEntry.fromValue_toValue (e : AuditEntry) : ReadsAs e e.stored := by
  change AuditEntry.fromValue e.toValue = some e.stored
  cases e with
  | resolution a =>
    simp [toValue, fromValue, stored, ResolutionAudit.toMembers, ResolutionAudit.fromMembers]
  | late o =>
    simp [toValue, fromValue, stored, LateObservation.toMembers, LateObservation.fromMembers,
      LateObservation.stored]

/-- The output an entry observed late, if it observed one. -/
def AuditEntry.lateOutput : AuditEntry → Option Value
  | .resolution _ => none
  | .late o => o.output

@[simp] theorem AuditEntry.stored_eq_self {e : AuditEntry} :
    e.stored = e ↔ e.lateOutput ≠ some .null := by
  cases e with
  | resolution a => simp [stored, lateOutput]
  | late o =>
    obtain ⟨invocationId, attemptId, atMs, output, error⟩ := o
    simp [stored, LateObservation.stored, lateOutput]

/-- A decoded entry lost its `null` when it was decoded. -/
theorem AuditEntry.lateOutput_ne_null {v : Value} {e : AuditEntry}
    (h : deserialize v = some e) : e.lateOutput ≠ some .null := by
  change fromValue v = some e at h
  unfold fromValue at h
  obtain ⟨ms, -, h⟩ := Option.bind_eq_some_iff.mp h
  split at h
  · obtain ⟨a, -, rfl⟩ := Option.map_eq_some_iff.mp h
    exact nofun
  · obtain ⟨o, ho, rfl⟩ := Option.map_eq_some_iff.mp h
    unfold LateObservation.fromMembers at ho
    iterate 3 obtain ⟨_, -, ho⟩ := Option.bind_eq_some_iff.mp ho
    obtain ⟨output, houtput, ho⟩ := Option.bind_eq_some_iff.mp ho
    obtain ⟨_, -, ho⟩ := Option.bind_eq_some_iff.mp ho
    cases ho
    exact defaulted_option_ne_null houtput
  · nomatch h

/-- What a stopped run still does not know. -/
structure UnresolvedEffect where
  invocationId : String
  attemptId : String
  effectKey : Option String
  reason : String
deriving DecidableEq

def UnresolvedEffect.toValue (u : UnresolvedEffect) : Value := .object
  [("invocation_id", serialize u.invocationId), ("attempt_id", serialize u.attemptId),
   ("effect_key", serialize u.effectKey), ("reason", serialize u.reason)]

def UnresolvedEffect.fromValue (v : Value) : Option UnresolvedEffect := do
  let ms ← members v
  return {
    invocationId := ← required ms "invocation_id"
    attemptId := ← required ms "attempt_id"
    effectKey := ← defaulted ms "effect_key" none
    reason := ← required ms "reason" }

instance : Serialize UnresolvedEffect := ⟨UnresolvedEffect.toValue⟩
instance : Deserialize UnresolvedEffect := ⟨UnresolvedEffect.fromValue⟩

instance : LawfulSerde UnresolvedEffect where
  readsAs u := by
    change UnresolvedEffect.fromValue u.toValue = some u
    simp [UnresolvedEffect.toValue, UnresolvedEffect.fromValue]

end WorkflowForge
