import WorkflowForge.Engine.Access
import WorkflowForge.Engine.Control

/-!
# Reconciliation

The command that settles an uncertain effect of a blocked run. It names the attempt it is
about and the revision it was decided on; its resolution, its audit entry and its receipt
are committed together. Tracking can also be stopped: the run ends with the list of the
effects that stay unknown.

## Main results

- `resolve_eq_ok`: what each resolution changes.
- `reconcile_eq_some`: what an accepted command requires and changes.
-/

namespace WorkflowForge.Engine

open Lib

/-! ## Evidence -/

/-- White space in the sense of the text library, not only of its first page. -/
def isWhitespace (c : Char) : Bool :=
  let n := c.toNat
  (9 ≤ n ∧ n ≤ 13) ∨ n = 0x20 ∨ n = 0x85 ∨ n = 0xA0 ∨ n = 0x1680 ∨ (0x2000 ≤ n ∧ n ≤ 0x200A) ∨
    n = 0x2028 ∨ n = 0x2029 ∨ n = 0x202F ∨ n = 0x205F ∨ n = 0x3000

/-- Nothing is left of the text once it is trimmed. -/
def blank (s : String) : Bool :=
  s.toList.all isWhitespace

def evidenceValid (evidence : EffectEvidence) : Bool :=
  !blank evidence.authority && !blank evidence.reference

def evidenceInvalid (message : String) : ForgeError :=
  .new "effect.evidence_invalid" message

def evidenceRequired : ForgeError :=
  evidenceInvalid "Authoritative evidence reference is required"

def evidenceInsufficient : ForgeError :=
  .new "effect.evidence_insufficient"
    "Non-application needs quiescence and must not contradict a confirmed effect"

def stateConflict (message : String) : ForgeError :=
  .new "state.conflict" message

/-! ## Receipts -/

/-- The first resolution with the identity of a command. -/
def findResolution (audit : List AuditEntry) (commandId : String) : Option ResolutionAudit :=
  audit.findSome? fun
    | .resolution a => if a.command.commandId = commandId then some a else none
    | .late _ => none

/-- The receipt a command got before. -/
def previousReceipt (run : RunSnapshot) (command : ReconcileCommand) (actor : String) :
    Except ForgeError (Option ReconcileReceipt) :=
  match findResolution run.audit command.commandId with
  | none => .ok none
  | some a =>
    if Same .source a.command command ∧ a.actor = actor then .ok (some a.receipt)
    else .error (stateConflict
      "Command identity was used with different content or actor")

theorem previousReceipt_eq_none {run : RunSnapshot} {command : ReconcileCommand}
    {actor : String} (h : previousReceipt run command actor = .ok none) :
    findResolution run.audit command.commandId = none := by
  unfold previousReceipt at h
  split at h
  next hnone => exact hnone
  · split at h <;> simp at h

/-! ## Resolutions -/

/-- A record whose effect was confirmed. -/
def appliedRecord (output : Value) (record : InvocationRecord) : InvocationRecord :=
  { record with
    output := some output
    input := .null
    error := none
    nextAttemptAtMs := none
    certainty := .applied
    state := .succeeded }

/-- A record whose effect was confirmed, but without a conforming result. -/
def invalidRecord (error : ForgeError) (record : InvocationRecord) : InvocationRecord :=
  { record with certainty := .applied, error := some error }

/-- A record that may be attempted again. -/
def retryRecord (record : InvocationRecord) : InvocationRecord :=
  { record with
    certainty := .notApplied, nextAttemptAtMs := none, state := .pending, error := none }

def notAppliedError : ForgeError :=
  operationFailure "operation.failed" .rejected .notApplied
    "Effect was not applied and no new attempt was authorized"

/-- A record that failed without an effect. -/
def notAppliedRecord (record : InvocationRecord) : InvocationRecord :=
  { record with
    certainty := .notApplied
    nextAttemptAtMs := none
    state := .failed
    error := some notAppliedError }

/-- The records whose effect nobody can tell any more. -/
def unknownEffects (reason : String) (records : BTreeMap String InvocationRecord) :
    List UnresolvedEffect :=
  ((BTreeMap.valueList records).filter fun r => r.state = .unknown).map fun r =>
    ⟨r.id, r.attemptId, r.effectKey, String.ofList (reason.toList.take 1024)⟩

def trackingStopped : ForgeError :=
  .new "effect.unresolved" "Tracking stopped with unresolved external effects"

/-- The run after tracking was stopped. -/
def untrackedRun (reason : String) (now : UInt64) (run : RunSnapshot) : RunSnapshot :=
  { run.closeWaits with
    unresolvedEffects := unknownEffects reason run.invocations
    state := if run.cancelRequested then .cancelled else .failed
    error := some trackingStopped
    finishedAtMs := some now }

/-- A retry is ready while attempts and time are left and nobody cancelled. -/
def retryReady (run : RunSnapshot) (record : InvocationRecord) (retry : Bool) (now : UInt64) :
    Bool :=
  retry ∧ record.attempts < record.retry.maxAttempts ∧ now < run.deadlineAtMs ∧
    ¬run.cancelRequested

/-- The outcome of a resolution: the run it leaves, its status and its diagnostic. -/
abbrev Resolved := RunSnapshot × ResolutionStatus × Option ForgeError

/-- The outcome of a report that the effect was not applied. -/
def withdrawn (quiescent retry : Bool) (key : String) (record : InvocationRecord) (now : UInt64)
    (run : RunSnapshot) : Resolved :=
  if quiescent = false ∨ record.certainty = .applied then
    (run, .stillBlocked, some evidenceInsufficient)
  else if retryReady run record retry now then
    (run.setRecord key (retryRecord record), .retryReady, none)
  else (run.setRecord key (notAppliedRecord record), .failed, none)

/-- Applies a resolution to the record of `key`. -/
def resolve (c : Composition) (resolution : EffectResolution) (key : String)
    (record : InvocationRecord) (now : UInt64) (run : RunSnapshot) :
    Except ForgeError Resolved :=
  match resolution with
  | .confirmApplied output evidence => do
    ensure (evidenceValid evidence) evidenceRequired
    let revision ← okOr record.operation
      (.new "reference.missing" "Operation revision is unavailable")
    let operation ← recoverOperation c run.package revision
    match operation.output.validate output c.limits with
    | .ok () => return (run.setRecord key (appliedRecord output record), .applied, none)
    | .error error =>
      return (run.setRecord key (invalidRecord error record), .stillBlocked, some error)
  | .confirmNotApplied evidence quiescent retry => do
    ensure (evidenceValid evidence) evidenceRequired
    return withdrawn quiescent retry key record now run
  | .recordInconclusive reason _ => do
    ensure (!blank reason) (evidenceInvalid "Investigation reason is required")
    return (run, .stillBlocked, none)
  | .stopTracking reason _ => do
    ensure (!blank reason) (evidenceInvalid "Reason for stopping tracking is required")
    return (untrackedRun reason now run, .stoppedTracking, none)

/-- Whether some record awaits a resolution. -/
def awaitsResolution (records : BTreeMap String InvocationRecord) : Bool :=
  BTreeMap.any (fun _ r => r.state = .unknown) records

/-- A run with nothing left to resolve is handed back to the supervisor. -/
def unblock (run : RunSnapshot) : RunSnapshot :=
  if !run.state.isTerminal ∧ !awaitsResolution run.invocations then
    { run with state := if run.cancelRequested then .cancelling else .accepted, error := none }
  else run

/-! ## The command -/

def resolutionConflict : ForgeError :=
  stateConflict "Resolution must match the current blocked run revision"

/-- The record a command names, while it awaits a resolution. -/
def named (command : ReconcileCommand) (record : InvocationRecord) : Bool :=
  record.id = command.invocationId ∧ record.attemptId = command.observedAttempt ∧
    record.state = .unknown

def isStopTracking : EffectResolution → Bool
  | .stopTracking .. => true
  | _ => false

/-- The checks before the run is read. -/
def checkReconcile (c : Composition) (phase : Phase) (access : AccessContext)
    (command : ReconcileCommand) : Except ForgeError Unit := do
  authorize c phase access .reconcile true
  ensure (!isStopTracking command.resolution || .stopTracking ∈ access.permissions)
    (.new "access.denied" "Stopping effect tracking requires its own permission")
  ensure (command.commandId ≠ "" ∧ command.commandId.utf8ByteSize ≤ 256)
    (.new "definition.invalid" "Invalid reconciliation command identity")
  let _ ← checkValue (serialize command) c.limits.evidenceBytes c.limits.jsonDepth

/-- The caller holds every resource of the operation. -/
def requireResources (access : AccessContext) (descriptor : OperationDescriptor) :
    Except ForgeError Unit :=
  ensure (descriptor.requiredResources.toList.all access.permitsResource)
    (.new "access.denied" "Caller lacks effect resource permissions")

/-- The resources of the operation a record belongs to, if the package knows it. -/
def requireRecordResources (access : AccessContext) (package : ResolvedPackage)
    (record : InvocationRecord) : Except ForgeError Unit :=
  match record.operation.bind fun revision =>
      package.operations.find? fun d => d.revision = revision with
  | none => .ok ()
  | some descriptor => requireResources access descriptor

/-- The receipt and the audit entry of a resolution, on the run it leaves. -/
def audited (command : ReconcileCommand) (actor : String) (now revision : UInt64)
    (resolved : Resolved) : ReconcileReceipt × RunSnapshot :=
  let run := unblock resolved.1
  let receipt : ReconcileReceipt :=
    ⟨command.commandId, run.id, revision, resolved.2.1, resolved.2.2⟩
  (receipt, { run with
    revision := revision
    audit := run.audit ++ [.resolution ⟨command, actor, now, receipt⟩] })

/-- Decides a command on the run it names: the receipt, and the replacement unless the
command was accepted before. -/
def reconcile (c : Composition) (phase : Phase) (access : AccessContext)
    (command : ReconcileCommand) (now : UInt64) (run : RunSnapshot) :
    Except ForgeError (ReconcileReceipt × Option RunSnapshot) := do
  checkReconcile c phase access command
  let run ← read c run
  match ← previousReceipt run command access.actor with
  | some receipt => return (receipt, none)
  | none =>
    ensure (run.revision = command.expectedRevision ∧ run.state = .blocked) resolutionConflict
    ensure (run.audit.length < c.limits.auditEntries)
      (.new "resource.limit" "Investigation retention is full")
    let entry ← okOr (run.invocations.toList.find? fun e => named command e.2)
      (stateConflict "Invocation or observed attempt is no longer unresolved")
    requireRecordResources access run.package entry.2
    let resolved ← resolve c command.resolution entry.1 entry.2 now run
    let revision ← okOr (checkedAdd run.revision 1) revisionExhausted
    let result := audited command access.actor now revision resolved
    ensure (result.2.retainedDataBytes ≤ c.limits.runBytes)
      (.new "resource.limit" "Evidence or confirmed output exceeds run retention budget")
    return (result.1, some result.2)

/-! ## What an accepted command changes -/

/-- What a resolution makes of a run and of the record it names. -/
inductive ResolveLaw (c : Composition) (resolution : EffectResolution) (key : String)
    (record : InvocationRecord) (now : UInt64) (run : RunSnapshot) : Resolved → Prop where
  | applied {output : Value} {evidence : EffectEvidence}
      (command : resolution = .confirmApplied output evidence)
      (operation : record.operation.isSome = true) :
      ResolveLaw c resolution key record now run
        (run.setRecord key (appliedRecord output record), .applied, none)
  | invalid {output : Value} {evidence : EffectEvidence} {error : ForgeError}
      (command : resolution = .confirmApplied output evidence)
      (operation : record.operation.isSome = true) :
      ResolveLaw c resolution key record now run
        (run.setRecord key (invalidRecord error record), .stillBlocked, some error)
  | retry {evidence : EffectEvidence}
      (command : resolution = .confirmNotApplied evidence true true)
      (certainty : record.certainty ≠ .applied) (ready : retryReady run record true now = true) :
      ResolveLaw c resolution key record now run
        (run.setRecord key (retryRecord record), .retryReady, none)
  | failed {evidence : EffectEvidence} {retry : Bool}
      (command : resolution = .confirmNotApplied evidence true retry)
      (certainty : record.certainty ≠ .applied) :
      ResolveLaw c resolution key record now run
        (run.setRecord key (notAppliedRecord record), .failed, none)
  | blocked {diagnostic : Option ForgeError} (tracked : isStopTracking resolution = false) :
      ResolveLaw c resolution key record now run (run, .stillBlocked, diagnostic)
  | stopped {reason : String} {evidence : Option EffectEvidence}
      (command : resolution = .stopTracking reason evidence) :
      ResolveLaw c resolution key record now run
        (untrackedRun reason now run, .stoppedTracking, none)

section

variable {c : Composition} {resolution : EffectResolution} {key : String}
  {record : InvocationRecord} {now : UInt64} {run : RunSnapshot}

theorem resolveLaw_withdrawn {evidence : EffectEvidence} {quiescent retry : Bool}
    (command : resolution = .confirmNotApplied evidence quiescent retry) :
    ResolveLaw c resolution key record now run
      (withdrawn quiescent retry key record now run) := by
  unfold withdrawn
  split
  · exact .blocked (by rw [command]; rfl)
  next hq =>
    obtain ⟨hq, hc⟩ := not_or.mp hq
    obtain rfl : quiescent = true := by simpa using hq
    split
    next hready =>
      obtain rfl : retry = true := by
        simp only [retryReady, decide_eq_true_eq] at hready
        exact hready.1
      exact .retry command hc hready
    · exact .failed command hc

theorem resolve_eq_ok {resolved : Resolved}
    (h : resolve c resolution key record now run = .ok resolved) :
    ResolveLaw c resolution key record now run resolved := by
  cases resolution with
  | confirmApplied output evidence =>
    obtain ⟨u, -, h⟩ := bind_eq_ok.mp h
    obtain ⟨revision, hrev, h⟩ := bind_eq_ok.mp h
    obtain ⟨operation, -, h⟩ := bind_eq_ok.mp h
    have hop : record.operation.isSome = true := by
      rw [okOr_eq_ok.mp hrev]
      rfl
    split at h
    -- the output passes its schema, or the record fails
    · obtain rfl := Except.ok.inj h
      exact .applied rfl hop
    · obtain rfl := Except.ok.inj h
      exact .invalid rfl hop
  | confirmNotApplied evidence quiescent retry =>
    obtain ⟨u, -, h⟩ := bind_eq_ok.mp h
    obtain rfl := Except.ok.inj h
    exact resolveLaw_withdrawn rfl
  | recordInconclusive reason evidence =>
    obtain ⟨u, -, h⟩ := bind_eq_ok.mp h
    obtain rfl := Except.ok.inj h
    exact .blocked rfl
  | stopTracking reason evidence =>
    obtain ⟨u, -, h⟩ := bind_eq_ok.mp h
    obtain rfl := Except.ok.inj h
    exact .stopped rfl

/-- What an accepted command requires of the run, and what it changes. -/
structure ReconcileLaw (c : Composition) (access : AccessContext) (command : ReconcileCommand)
    (now : UInt64) (run : RunSnapshot) (receipt : ReconcileReceipt) (next : RunSnapshot)
    (key : String) (record : InvocationRecord) (resolved : Resolved) (revision : UInt64) :
    Prop where
  scope : run.scope = c.scope
  base : run.revision = command.expectedRevision
  blocked : run.state = .blocked
  room : run.audit.length < c.limits.auditEntries
  fresh : findResolution run.audit command.commandId = none
  found : run.invocations[key]? = some record
  named : named command record = true
  resolution : ResolveLaw c command.resolution key record now run resolved
  successor : checkedAdd run.revision 1 = some revision
  result : (receipt, next) = audited command access.actor now revision resolved
  budget : next.retainedDataBytes ≤ c.limits.runBytes

theorem reconcile_eq_some {phase : Phase} {access : AccessContext} {command : ReconcileCommand}
    {receipt : ReconcileReceipt} {next : RunSnapshot}
    (h : reconcile c phase access command now run = .ok (receipt, some next)) :
    ∃ key record resolved revision,
      ReconcileLaw c access command now run receipt next key record resolved revision := by
  unfold reconcile at h
  obtain ⟨u, -, h⟩ := bind_eq_ok.mp h
  obtain ⟨run', hread, h⟩ := bind_eq_ok.mp h
  obtain ⟨hscope, hrun⟩ := read_eq_ok hread
  rw [hrun] at h
  obtain ⟨previous, hprev, h⟩ := bind_eq_ok.mp h
  cases previous with
  -- a receipt answers without a new snapshot
  | some previous => simp [pure, Except.pure] at h
  | none =>
    obtain ⟨u, hbase, h⟩ := bind_eq_ok.mp h
    obtain ⟨u, hroom, h⟩ := bind_eq_ok.mp h
    obtain ⟨⟨key, record⟩, hfind, h⟩ := bind_eq_ok.mp h
    obtain ⟨u, -, h⟩ := bind_eq_ok.mp h
    obtain ⟨resolved, hres, h⟩ := bind_eq_ok.mp h
    obtain ⟨revision, hrev, h⟩ := bind_eq_ok.mp h
    obtain ⟨u, hbudget, h⟩ := bind_eq_ok.mp h
    have hbase := ensure_eq_ok.mp hbase
    simp only [decide_eq_true_eq] at hbase
    have hfind := okOr_eq_ok.mp hfind
    simp only [pure, Except.pure, Except.ok.injEq, Prod.mk.injEq, Option.some.injEq] at h
    obtain ⟨rfl, rfl⟩ := h
    exact ⟨key, record, resolved, revision, hscope, hbase.1, hbase.2,
      by simpa using ensure_eq_ok.mp hroom, previousReceipt_eq_none hprev,
      Std.ExtTreeMap.mem_toList_iff_getElem?_eq_some.mp (List.mem_of_find?_eq_some hfind),
      @List.find?_some _ _ (key, record) _ hfind, resolve_eq_ok hres, okOr_eq_ok.mp hrev, rfl,
      by simpa using ensure_eq_ok.mp hbudget⟩

end

end WorkflowForge.Engine
