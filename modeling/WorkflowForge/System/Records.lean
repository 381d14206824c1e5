import WorkflowForge.System.Edit

/-!
# Records of a Run

What a transition of a run makes of each invocation record. A transition changes one record,
or marks every uncertain record of a run that ends, or changes none.

## Main results

- `Edited.record`: what a transition makes of one record.
- `step_run`, `step_record`: what a step makes of the run and of one record.
-/

namespace WorkflowForge.Run

open Lib Engine

variable {s : Setup} {w w' : World} {a : Action} {key : String}

/-! ## One record -/

/-- A change of a record that no worker calls: its operation and its certainty stay. -/
structure OtherEdit (s : Setup) (w : World) (key : String) (r : InvocationRecord) : Prop where
  working : ∃ c, Working w c
  node : s.operation key = none
  kept : ∀ old, w.run.invocations[key]? = some old →
    r.operation = old.operation ∧ r.certainty = old.certainty ∧ r.attemptId = old.attemptId
  fresh : w.run.invocations[key]? = none → r.operation = none ∧ r.certainty = .notApplied
  known : r.state ≠ .unknown
  control : (∃ frame, s.isControl key = true ∧ r.control = some frame ∧
      World.controls frame = true) ∨
    (s.isWait key = true ∧ r.control = some (.wait (s.waitName w.run.id key))) ∨
    ∃ old, w.run.invocations[key]? = some old ∧ r.control = old.control

/-- What a resolution makes of the record it names. -/
inductive ResolvedRecord (resolution : EffectResolution) (old : InvocationRecord) :
    InvocationRecord → Prop where
  | applied {output : Value} {evidence : EffectEvidence}
      (command : resolution = .confirmApplied output evidence)
      (operation : old.operation.isSome = true) :
      ResolvedRecord resolution old (appliedRecord output old)
  | invalid {output : Value} {evidence : EffectEvidence} {error : ForgeError}
      (command : resolution = .confirmApplied output evidence)
      (operation : old.operation.isSome = true) :
      ResolvedRecord resolution old (invalidRecord error old)
  | retry {evidence : EffectEvidence} (command : resolution = .confirmNotApplied evidence true true)
      (certainty : old.certainty ≠ .applied) :
      ResolvedRecord resolution old (retryRecord old)
  | failed {evidence : EffectEvidence} {retry : Bool}
      (command : resolution = .confirmNotApplied evidence true retry)
      (certainty : old.certainty ≠ .applied) :
      ResolvedRecord resolution old (notAppliedRecord old)

/-- What a transition makes of one record of the run. -/
inductive RecordStep (s : Setup) (w : World) (a : Action) (key : String) :
    Option InvocationRecord → Prop where
  | same : RecordStep s w a key w.run.invocations[key]?
  | operation {r : InvocationRecord} (edit : OperationEdit s w key a r) :
      RecordStep s w a key (some r)
  | other {r : InvocationRecord} (edit : OtherEdit s w key r) : RecordStep s w a key (some r)
  | marked {old : InvocationRecord} {error : ForgeError} {cancelled : Bool}
      (action : a = .finish error cancelled) (found : w.run.invocations[key]? = some old)
      (working : ∃ c, Working w c) (quiet : w.workers = ∅) :
      RecordStep s w a key (some (markUnknown old))
  | resolved {c : Composition} {old r : InvocationRecord} {phase : Phase} {access : AccessContext}
      {command : ReconcileCommand} (action : a = .reconcile phase access command)
      (running : w.running = some c) (found : w.run.invocations[key]? = some old)
      (named : named command old = true)
      (blocked : w.run.state = .blocked) (edit : ResolvedRecord command.resolution old r) :
      RecordStep s w a key (some r)

theorem isControl_operation (h : s.isControl key = true) : s.operation key = none := by
  unfold Setup.isControl at h
  unfold Setup.operation
  split at h
  next heq => rw [heq]
  · nomatch h

theorem isWait_operation (h : s.isWait key = true) : s.operation key = none := by
  unfold Setup.isWait at h
  unfold Setup.operation
  split at h
  next heq => rw [heq]
  next heq => rw [heq]
  · nomatch h

theorem isWait_of_wait {correlation : String} {x : WaitKind × UInt64}
    (h : s.wait key correlation = some x) : s.isWait key = true := by
  unfold Setup.wait at h
  unfold Setup.isWait
  split at h
  · rfl
  · rfl
  · nomatch h

/-- A record edit changes one record and leaves the others. -/
theorem RecordStep.ofSet {node : String} {r : InvocationRecord}
    (h : RecordStep s w a node (some r)) (key : String) :
    RecordStep s w a key (w.run.setRecord node r).invocations[key]? := by
  rw [RunSnapshot.setRecord_get]
  split
  next heq =>
    subst heq
    exact h
  next => exact .same

theorem ControlEdit.record {c : Composition} {r : InvocationRecord} (working : Working w c)
    (node : s.isControl key = true) (h : ControlEdit w key a r) : OtherEdit s w key r := by
  have hop := isControl_operation node
  cases h with
  -- an activation is the first record of the node
  | activate frames fresh =>
    refine ⟨⟨c, working⟩, hop, ?_, fun _ => ⟨rfl, rfl⟩, by simp [controlRecord],
      .inl ⟨_, node, rfl, frames⟩⟩
    intro old hold
    rw [fresh] at hold
    nomatch hold
  | @progress old frame frames found unsettled =>
    refine ⟨⟨c, working⟩, hop, ?_, ?_, ?_, .inl ⟨_, node, rfl, frames⟩⟩
    · intro old' hold
      obtain rfl := Option.some.inj (found.symm.trans hold)
      exact ⟨rfl, rfl, rfl⟩
    · intro hnone
      rw [found] at hnone
      nomatch hnone
    · -- an unsettled record is running or pending
      simp only [World.unsettled, World.record, found, Option.any_some, decide_eq_true_eq]
        at unsettled
      rcases unsettled with h | h <;> simp [h]
  -- an end keeps the control frame of the record
  | @complete old value found unsettled =>
    refine ⟨⟨c, working⟩, hop, ?_, ?_, by simp [completedRecord], .inr (.inr ⟨old, found, rfl⟩)⟩
    · intro old' hold
      obtain rfl := Option.some.inj (found.symm.trans hold)
      exact ⟨rfl, rfl, rfl⟩
    · intro hnone
      rw [found] at hnone
      nomatch hnone
  | @error old error found unsettled =>
    refine ⟨⟨c, working⟩, hop, ?_, ?_, erroredState_ne_unknown error, .inr (.inr ⟨old, found, rfl⟩)⟩
    · intro old' hold
      obtain rfl := Option.some.inj (found.symm.trans hold)
      exact ⟨rfl, rfl, rfl⟩
    · intro hnone
      rw [found] at hnone
      nomatch hnone

/-- The record of a node that ends keeps everything but its state and what it returned. -/
theorem OtherEdit.ofSettled {c : Composition} {old r : InvocationRecord} (working : Working w c)
    (node : s.operation key = none)
    (found : w.run.invocations[key]? = some old)
    (kept : r.operation = old.operation ∧ r.certainty = old.certainty ∧
      r.attemptId = old.attemptId) (control : r.control = old.control)
    (known : r.state ≠ .unknown) : OtherEdit s w key r := by
  refine ⟨⟨c, working⟩, node, ?_, ?_, known, .inr (.inr ⟨old, found, control⟩)⟩
  · intro old' hold
    obtain rfl := Option.some.inj (found.symm.trans hold)
    exact kept
  · intro hnone
    rw [found] at hnone
    nomatch hnone

theorem WaitEdit.record {c : Composition} {node : String} {next : RunSnapshot}
    (working : Working w c) (h : WaitEdit s w c node a next) (key : String) :
    RecordStep s w a key next.invocations[key]? := by
  cases h with
  -- a wait is reserved for a node without a record
  | reserve wait fresh vacant =>
    have hnode := isWait_of_wait wait
    refine RecordStep.ofSet (.other ⟨⟨c, working⟩, isWait_operation hnode, ?_,
      fun _ => ⟨rfl, rfl⟩, by simp [controlRecord], .inr (.inl ⟨hnode, rfl⟩)⟩) key
    intro old hold
    rw [vacant] at hold
    nomatch hold
  -- opening and expiring concern the wait only
  | confirm => exact .same
  | expire => exact .same
  | overdue => exact .same
  | @consume cancelled wait record output isNode reserved =>
    have hedit : OtherEdit s w node (completedRecord output record) :=
      .ofSettled working (isWait_operation isNode) reserved ⟨rfl, rfl, rfl⟩ rfl
        (by simp [completedRecord])
    exact RecordStep.ofSet (.other hedit) key
  | @endWait error wait record isNode found unconsumed reserved =>
    have hedit : OtherEdit s w node (erroredRecord error record) :=
      .ofSettled working (isWait_operation isNode) reserved ⟨rfl, rfl, rfl⟩ rfl
        (erroredState_ne_unknown error)
    exact RecordStep.ofSet (.other hedit) key

/-- What a resolution makes of the records of a run. -/
theorem ReconcileLaw.record {c : Composition} {access : AccessContext}
    {command : ReconcileCommand} {now : UInt64} {run next : RunSnapshot}
    {receipt : ReconcileReceipt} {node : String} {old : InvocationRecord} {resolved : Resolved}
    {revision : UInt64}
    (law : ReconcileLaw c access command now run receipt next node old resolved revision) :
    next.invocations = run.invocations ∨
      ∃ r, ResolvedRecord command.resolution old r ∧
        next.invocations = (run.setRecord node r).invocations := by
  have hnext : next.invocations = resolved.1.invocations := by
    have h := congrArg (fun x : ReconcileReceipt × RunSnapshot => x.2.invocations) law.result
    simp only [audited, unblock] at h
    rw [h]
    split <;> rfl
  rw [hnext]
  -- four resolutions write the record, the others only the run
  cases law.resolution with
  | applied command operation => exact .inr ⟨_, .applied command operation, rfl⟩
  | invalid command operation => exact .inr ⟨_, .invalid command operation, rfl⟩
  | retry command certainty => exact .inr ⟨_, .retry command certainty, rfl⟩
  | failed command certainty => exact .inr ⟨_, .failed command certainty, rfl⟩
  | blocked => exact .inl rfl
  | stopped => exact .inl rfl

theorem beginRun_invocations (run : RunSnapshot) :
    (beginRun run).invocations = run.invocations := by
  unfold beginRun
  split <;> rfl

theorem suspendRun_invocations (run : RunSnapshot) :
    (suspendRun run).invocations = run.invocations := by
  unfold suspendRun
  split <;> rfl

theorem finishError_invocations (error : ForgeError) (cancelled : Bool) (now : UInt64)
    (run : RunSnapshot) :
    (finishError error cancelled now run).invocations = (markedRun run).invocations := by
  unfold finishError
  dsimp only
  split <;> rfl

/-- What a transition makes of one record. -/
theorem Edited.record {edited : RunSnapshot} (h : Edited s w a edited) (key : String) :
    RecordStep s w a key edited.invocations[key]? := by
  cases h with
  | recovered => exact .same
  | bootBlocked => exact .same
  | blocked => exact .same
  | begun =>
    rw [beginRun_invocations]
    exact .same
  | suspended =>
    rw [suspendRun_invocations]
    exact .same
  -- the end of a run marks what is not certain
  | finished working quiet =>
    rw [finishError_invocations]
    cases hr : (markedRun w.run).invocations[key]? with
    | none =>
      have hnone : w.run.invocations[key]? = none := by
        simpa [markedRun] using hr
      rw [← hnone]
      exact .same
    | some r =>
      obtain ⟨old, hold, rfl⟩ := markedRun_get hr
      exact .marked rfl hold ⟨_, working⟩ quiet
  | concluded => exact .same
  | cancelled => exact .same
  | signalled => exact .same
  | observed => exact .same
  -- a report resolves one record, or none
  | @reconciled c phase access command receipt next node old resolved revision running named law =>
    rcases ReconcileLaw.record law with h | ⟨r, hr, h⟩
    · rw [h]
      exact .same
    · rw [h]
      exact RecordStep.ofSet (.resolved rfl running law.found law.named law.blocked hr) key
  | operation live edit => exact RecordStep.ofSet (.operation edit) key
  | control working live node edit => exact RecordStep.ofSet (.other (edit.record working node)) key
  -- the record of a stopped group makes progress like any other
  | @stopped c node frame old working live isNode group found unsettled =>
    have hframe : World.controls frame = true := by
      cases frame <;> simp [isGroup, World.controls] at group ⊢
    exact RecordStep.ofSet (.other
      ((ControlEdit.progress hframe found unsettled).record working isNode)) key
  | waited working live edit => exact edit.record working key

/-! ## Steps -/

theorem after_run (w₁ : World) (before : World) (a : Action) :
    (w₁.after s before a).run = w₁.run := by
  cases a <;> simp only [World.after] <;> try rfl
  case boot => split <;> rfl
  case classify => split <;> rfl
  case ready => split <;> rfl
  case intend =>
    unfold World.startWorker
    split <;> rfl
  case call =>
    unfold World.callWorker
    split <;> rfl
  case answer =>
    unfold World.answerWorker
    split <;> rfl
  case exceed =>
    unfold World.exceedWorker
    split <;> rfl
  case signal => split <;> rfl
  case reconcile => split <;> rfl

theorem after_older (w₁ : World) (before : World) (a : Action) :
    (w₁.after s before a).older = w₁.older := by
  cases a <;> simp only [World.after] <;> try rfl
  case boot => split <;> rfl
  case classify => split <;> rfl
  case ready => split <;> rfl
  case intend =>
    unfold World.startWorker
    split <;> rfl
  case call =>
    unfold World.callWorker
    split <;> rfl
  case answer =>
    unfold World.answerWorker
    split <;> rfl
  case exceed =>
    unfold World.exceedWorker
    split <;> rfl
  case signal => split <;> rfl
  case reconcile => split <;> rfl

/-- A step leaves the run alone, or commits one transition of it. -/
theorem step_run (h : w.step s a = some w') :
    (w'.run = w.run ∧ w'.older = w.older) ∨
      ∃ edited revision, Edited s w a edited ∧ checkedAdd w.run.revision 1 = some revision ∧
        w'.run = edited.atRevision revision ∧ w'.older = w.run :: w.older := by
  obtain ⟨p, w₁, hp, ha, rfl⟩ := World.step_eq_some h
  rw [after_run, after_older]
  rcases accept_eq_some hp ha with ⟨-, rfl⟩ | ⟨edited, revision, hedit, hrev, rfl⟩
  · exact .inl ⟨rfl, rfl⟩
  · exact .inr ⟨edited, revision, hedit, hrev, rfl, rfl⟩

/-- What a step makes of one record. -/
theorem step_record (h : w.step s a = some w') (key : String) :
    RecordStep s w a key w'.run.invocations[key]? := by
  rcases step_run h with ⟨hrun, -⟩ | ⟨edited, revision, hedit, -, hrun, -⟩
  · rw [hrun]
    exact .same
  · rw [hrun]
    exact hedit.record key

end WorkflowForge.Run
