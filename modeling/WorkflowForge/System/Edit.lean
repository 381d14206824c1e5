import Mathlib.Data.Option.Basic
import WorkflowForge.System.World

/-!
# What a Step Changes

The transitions of a run, each with what it requires of the world it is taken in. Every
proposal to the store is one of them, so a property of all runs is a property of each
transition.

## Main results

- `proposal_edited`: every proposal is a transition of the list.
- `accept_eq_some`: an accepted proposal replaces the run by one transition of it.
-/

namespace WorkflowForge.Run

open Lib Engine

variable {s : Setup} {w : World}

/-! ## Transitions -/

/-- The nodes of the run are worked on. -/
def Working (w : World) (c : Composition) : Prop :=
  w.process = .up c true ∧ w.job = .body

/-- The worker of an invocation, or whoever finds its attempt without one, reports why the
attempt failed. -/
inductive Reported (s : Setup) (w : World) : Action → String → String → OperationDescriptor →
    FailureReport → Prop where
  | worker {c : Composition} {key attempt : String} {later delay : UInt64}
      {node : PreparedOperation} {report : FailureReport} (working : Working w c)
      (operation : s.operation key = some node)
      (worker : w.workers[key]? = some (.failed attempt report)) :
      Reported s w (.fail key later delay) key attempt node.operation.descriptor report
  | found {c : Composition} {key attempt : String} {cancelled : Bool} {later delay : UInt64}
      {node : PreparedOperation} {report : FailureReport} (working : Working w c)
      (operation : s.operation key = some node) (alone : w.workers[key]? = none)
      (turn : w.turn node key cancelled = .recover attempt report) :
      Reported s w (.recover key cancelled later delay) key attempt node.operation.descriptor
        report
  | boot {key : String} {later delay : UInt64} {c : Composition} {cancelled : Bool}
      {record : InvocationRecord} {rest : List (String × InvocationRecord)}
      {descriptor : OperationDescriptor}
      (process : w.process = .booting c ((key, record) :: rest) cancelled)
      (operation : record.operation.bind c.operations = some descriptor) :
      Reported s w (.classify later delay) key record.attemptId descriptor
        (recovered descriptor.effect cancelled)

/-- A change of the record of one control node. -/
inductive ControlEdit (w : World) (key : String) : Action → InvocationRecord → Prop where
  | activate {logical : String} {input : Value} {frame : ControlFrame}
      (frames : World.controls frame = true) (fresh : w.run.invocations[key]? = none) :
      ControlEdit w key (.activate key input frame)
        (controlRecord logical .running input frame)
  | progress {old : InvocationRecord} {frame : ControlFrame}
      (frames : World.controls frame = true) (found : w.run.invocations[key]? = some old)
      (unsettled : w.unsettled key = true) :
      ControlEdit w key (.progress key frame) { old with control := some frame }
  | complete {old : InvocationRecord} {value : Value}
      (found : w.run.invocations[key]? = some old) (unsettled : w.unsettled key = true) :
      ControlEdit w key (.complete key value) (completedRecord value old)
  | error {old : InvocationRecord} {error : ForgeError}
      (found : w.run.invocations[key]? = some old) (unsettled : w.unsettled key = true) :
      ControlEdit w key (.error key error) (erroredRecord error old)

/-- A change of the record of one invocation of an operation. -/
inductive OperationEdit (s : Setup) (w : World) (key : String) : Action → InvocationRecord →
    Prop where
  | intend {c : Composition} {attempt : String} {input : Value} {cancelled : Bool}
      {node : PreparedOperation} (working : Working w c)
      (operation : s.operation key = some node) (alone : w.workers[key]? = none)
      (unused : attempt ∉ w.issued) (turn : w.turn node key cancelled = .proceed)
      (admitted : admitAttempt node w.run.head (w.record key) w.now cancelled = .ok ())
      (uncancelled : w.run.cancelRequested = false) (inTime : w.now < w.run.deadlineAtMs) :
      OperationEdit s w key (.intend key attempt input cancelled)
        (intentRecord (s.logical w.run.id key) attempt node input (w.record key))
  | succeed {c : Composition} {attempt : String} {value : Value} {node : PreparedOperation}
      {old : InvocationRecord} (working : Working w c) (operation : s.operation key = some node)
      (worker : w.workers[key]? = some (.returned attempt value))
      (found : w.run.invocations[key]? = some old) (current : old.attemptId = attempt)
      (running : old.state = .running) :
      OperationEdit s w key (.succeed key)
        (succeededRecord node.operation.descriptor.effect value old)
  | fail {a : Action} {attempt : String} {descriptor : OperationDescriptor}
      {report : FailureReport} {later delay : UInt64} {old : InvocationRecord}
      (reported : Reported s w a key attempt descriptor report)
      (found : w.run.invocations[key]? = some old) (current : old.attemptId = attempt)
      (running : old.state = .running ∨ old.state = .retryScheduled) :
      OperationEdit s w key a
        (failedRecord key descriptor report w.run.head w.now later delay old)

/-- A change of one wait and of the record of its node. -/
inductive WaitEdit (s : Setup) (w : World) (c : Composition) (key : String) : Action →
    RunSnapshot → Prop where
  | reserve {correlation : String} {input : Value} {cancelled : Bool} {kind : WaitKind}
      {duration : UInt64} (wait : s.wait key correlation = some (kind, duration))
      (fresh : w.run.waits[s.waitName w.run.id key]? = none)
      (vacant : w.run.invocations[key]? = none) (uncancelled : w.run.cancelRequested = false)
      (inTime : w.now < w.run.deadlineAtMs) :
      WaitEdit s w c key (.reserve key correlation input cancelled)
        (reservedRun (s.logical w.run.id key) (s.waitName w.run.id key) key kind duration input
          w.now w.run)
  | confirm {startKey : String} {wait : WaitRecord} {started : InvocationRecord}
      (start : s.startOf key = some startKey)
      (succeeded : w.run.invocations[startKey]? = some started ∧ started.state = .succeeded)
      (found : w.run.waits[s.waitName w.run.id key]? = some wait) (opened : wait.state = .open) :
      WaitEdit s w c key (.confirm key)
        (w.run.setWait (s.waitName w.run.id key) { wait with startConfirmed := true })
  | expire {startKey : String} {wait : WaitRecord} (start : s.startOf key = some startKey)
      (found : w.run.waits[s.waitName w.run.id key]? = some wait) (opened : wait.state = .open)
      (undelivered : wait.delivery = none) (overdue : wait.deadlineAtMs ≤ w.now) :
      WaitEdit s w c key (.expire key)
        (w.run.setWait (s.waitName w.run.id key) { wait with state := .expired })
  | overdue {cancelled : Bool} {wait : WaitRecord} {record : InvocationRecord}
      (node : s.isWait key = true) (reserved : w.run.invocations[key]? = some record)
      (found : w.run.waits[s.waitName w.run.id key]? = some wait) (opened : wait.state = .open)
      (awaited : awaited w.run wait record.input w.now = .expired)
      (inTime : w.now < w.run.deadlineAtMs) :
      WaitEdit s w c key (.consume key cancelled)
        (w.run.setWait (s.waitName w.run.id key) { wait with state := .expired })
  | consume {cancelled : Bool} {wait : WaitRecord} {record : InvocationRecord} {output : Value}
      (node : s.isWait key = true) (reserved : w.run.invocations[key]? = some record)
      (found : w.run.waits[s.waitName w.run.id key]? = some wait) (opened : wait.state = .open)
      (awaited : awaited w.run wait record.input w.now = .ready output)
      (uncancelled : w.run.cancelRequested = false) (inTime : w.now < w.run.deadlineAtMs) :
      WaitEdit s w c key (.consume key cancelled)
        (consumedRun key (s.waitName w.run.id key) wait record output w.run)
  | endWait {error : ForgeError} {wait : WaitRecord} {record : InvocationRecord}
      (node : s.isWait key = true) (found : w.run.waits[s.waitName w.run.id key]? = some wait)
      (unconsumed : wait.state ≠ .consumed) (reserved : w.run.invocations[key]? = some record) :
      WaitEdit s w c key (.endWait key error)
        (endedRun key (s.waitName w.run.id key) wait record error w.run)

/-- A change of the run, before its revision grows. -/
inductive Edited (s : Setup) (w : World) : Action → RunSnapshot → Prop where
  | recovered {c : Composition} (down : w.process = .down)
      (blocked : recoveryBlocked w.run = true) :
      Edited s w (.boot c) (recoveredRun w.run)
  | bootBlocked {c : Composition} {error : ForgeError} (down : w.process = .down)
      (live : w.run.state.isTerminal = false) :
      Edited s w (.bootBlocked c error) (blockRun error w.run)
  | blocked {c : Composition} {error : ForgeError} (process : w.process = .up c false)
      (idle : w.job = .idle) (live : w.run.state.isTerminal = false) :
      Edited s w (.block error) (blockRun error w.run)
  | begun {c : Composition} (process : w.process = .up c true) (taken : w.job = .taken)
      (live : w.run.state.isTerminal = false) :
      Edited s w .begin (beginRun w.run)
  | suspended {c : Composition} (working : Working w c) (quiet : w.workers = ∅)
      (live : w.run.state.isTerminal = false) :
      Edited s w .suspend (suspendRun w.run)
  | finished {c : Composition} {error : ForgeError} {cancelled : Bool} (working : Working w c)
      (quiet : w.workers = ∅) (live : w.run.state.isTerminal = false) :
      Edited s w (.finish error cancelled) (finishError error cancelled w.now w.run)
  | concluded {c : Composition} {value : Value} {later : UInt64} {cancelled : Bool}
      (working : Working w c) (quiet : w.workers = ∅)
      (resolved : RunSnapshot.unresolvedCount w.run.invocations = 0)
      (live : w.run.state.isTerminal = false) :
      Edited s w (.conclude value later cancelled)
        (endedWith (outcome c.limits value w.now cancelled w.run w.run.head) later w.run)
  | cancelled {c : Composition} (running : w.running = some c)
      (live : w.run.state.isTerminal = false) :
      Edited s w .cancel (cancelRun w.run)
  | signalled {c : Composition} {phase : Phase} {access : AccessContext}
      {received command : SignalCommand} {receipt : SignalReceipt} {next : RunSnapshot}
      {wait : WaitRecord} (running : w.running = some c)
      (authorized : authorize c phase access .signal false = .ok ())
      (checked : checkSignal c access received = .ok command)
      (named : received.runId = w.run.id) (scope : w.run.scope = c.scope)
      (law : DeliverLaw c access.actor command w.now w.run receipt next wait) :
      Edited s w (.signal phase access received)
        (deliveredRun wait ⟨command, access.actor, receipt⟩ w.run)
  | observed {c : Composition} {observation : LateObservation} (running : w.running = some c) :
      Edited s w (.late observation) { w.run with audit := w.run.audit ++ [.late observation] }
  | reconciled {c : Composition} {phase : Phase} {access : AccessContext}
      {command : ReconcileCommand} {receipt : ReconcileReceipt} {next : RunSnapshot}
      {key : String} {record : InvocationRecord} {resolved : Resolved} {revision : UInt64}
      (running : w.running = some c) (named : command.runId = w.run.id)
      (law : ReconcileLaw c access command w.now w.run receipt next key record resolved revision) :
      Edited s w (.reconcile phase access command) next
  | operation {key : String} {a : Action} {record : InvocationRecord}
      (live : w.run.state.isTerminal = false) (edit : OperationEdit s w key a record) :
      Edited s w a (w.run.setRecord key record)
  | control {c : Composition} {key : String} {a : Action} {record : InvocationRecord}
      (working : Working w c) (live : w.run.state.isTerminal = false)
      (node : s.isControl key = true) (edit : ControlEdit w key a record) :
      Edited s w a (w.run.setRecord key record)
  | stopped {c : Composition} {key : String} {frame : ControlFrame} {record : InvocationRecord}
      (working : Working w c) (live : w.run.state.isTerminal = false)
      (node : s.isControl key = true) (group : isGroup frame = true)
      (found : w.run.invocations[key]? = some record) (unsettled : w.unsettled key = true) :
      Edited s w (.stop key frame) (stoppedRun key frame record w.run)
  | waited {c : Composition} {key : String} {a : Action} {next : RunSnapshot}
      (working : Working w c) (live : w.run.state.isTerminal = false)
      (edit : WaitEdit s w c key a next) :
      Edited s w a next

/-! ## Every proposal is a transition -/

/-- A proposal and the transition it comes from. -/
inductive Proposed (s : Setup) (w : World) (a : Action) : Proposal → Prop where
  | record {key : String} {record : InvocationRecord}
      (edit : Edited s w a (w.run.setRecord key record)) : Proposed s w a (.record key record)
  | run {edited : RunSnapshot} {revision : UInt64} (edit : Edited s w a edited)
      (successor : checkedAdd w.run.revision 1 = some revision) :
      Proposed s w a (.run (edited.atRevision revision))

/-- A change of one record proposes this record. -/
theorem ofNode_eq_some {key : String} {x : Except ForgeError (Option InvocationRecord)}
    {p : Proposal} (h : Proposal.ofNode key x = some (some p)) :
    ∃ record, x = .ok (some record) ∧ p = .record key record := by
  unfold Proposal.ofNode at h
  split at h
  · simp at h
  next r => exact ⟨r, rfl, by simpa using h.symm⟩
  · nomatch h

/-- A change of the run proposes the run. -/
theorem ofRun_eq_some {x : Except ForgeError (Option RunSnapshot)} {p : Proposal}
    (h : Proposal.ofRun x = some (some p)) : ∃ next, x = .ok (some next) ∧ p = .run next := by
  unfold Proposal.ofRun at h
  split at h
  · simp at h
  next next => exact ⟨next, rfl, by simpa using h.symm⟩
  · nomatch h

/-- A decision on one record is taken in a live run, on the record as it is. -/
theorem onNode_eq_some {c : Composition} {checkBudget : Bool} {key : String} {edit : NodeEdit}
    {p : Proposal} (h : w.onNode c checkBudget key edit = some (some p)) :
    ∃ record, p = .record key record ∧ w.run.state.isTerminal = false ∧
      edit w.run.head w.run.invocations[key]? = .ok (some record) := by
  obtain ⟨record, hu, rfl⟩ := ofNode_eq_some h
  obtain ⟨hlive, he, -, -⟩ := updateNode_eq_some hu
  exact ⟨record, rfl, hlive, he⟩

/-- A change of a live run is proposed with its next revision. -/
theorem onRun_eq_some {edit : RunSnapshot → Except ForgeError (Option RunSnapshot)}
    {p : Proposal} (h : w.onRun edit = some (some p)) :
    ∃ edited revision, p = .run (edited.atRevision revision) ∧
      w.run.state.isTerminal = false ∧ checkedAdd w.run.revision 1 = some revision ∧
      edit w.run = .ok (some edited) := by
  obtain ⟨next, hu, rfl⟩ := ofRun_eq_some h
  obtain ⟨hlive, edited, revision, he, hrev, rfl⟩ := update_eq_some hu
  exact ⟨edited, revision, rfl, hlive rfl, hrev, he⟩

/-- So is a transition, which always changes the run. -/
theorem onTransition_eq_some {edit : RunSnapshot → RunSnapshot} {p : Proposal}
    (h : w.onTransition edit = some (some p)) :
    ∃ revision, p = .run ((edit w.run).atRevision revision) ∧
      w.run.state.isTerminal = false ∧ checkedAdd w.run.revision 1 = some revision := by
  obtain ⟨next, hu, rfl⟩ := ofRun_eq_some h
  obtain ⟨hlive, revision, hrev, rfl⟩ := transition_eq_some hu
  exact ⟨revision, rfl, hlive, hrev⟩

/-- The host that executes the run is at work on its body. -/
theorem executing_eq_some {c : Composition} : w.executing = some c ↔ Working w c := by
  unfold World.executing Working
  constructor
  · intro h
    split at h
    next hp hj => exact ⟨by rw [hp, Option.some.inj h], hj⟩
    · nomatch h
  · rintro ⟨hp, hj⟩
    rw [hp, hj]

theorem isOk_eq_true {ε : Type} {x : Except ε Unit} (h : x.isOk = true) : x = .ok () := by
  cases x with
  | ok u => rfl
  | error e => nomatch h

/-! ### Operations -/

/-- An intent is proposed as the record with its new attempt. -/
theorem intend_edited {key attempt : String} {input : Value} {cancelled : Bool} {p : Proposal}
    (h : w.intend s key attempt input cancelled = some (some p)) :
    Proposed s w (.intend key attempt input cancelled) p := by
  obtain ⟨c, hc, h⟩ := Option.bind_eq_some_iff.mp h
  obtain ⟨node, hnode, h⟩ := Option.bind_eq_some_iff.mp h
  obtain ⟨u, hfree, h⟩ := Option.bind_eq_some_iff.mp h
  obtain ⟨u', hturn, h⟩ := Option.bind_eq_some_iff.mp h
  obtain ⟨u'', hadmit, h⟩ := Option.bind_eq_some_iff.mp h
  obtain ⟨record, rfl, hlive, he⟩ := onNode_eq_some h
  obtain ⟨rfl, hcancel, -, htime⟩ := intent_eq_some he
  have hfree := (Option.guard_eq_some' _).mp hfree
  have hturn := (Option.guard_eq_some' _).mp hturn
  have hadmit := (Option.guard_eq_some' _).mp hadmit
  refine .record (.operation hlive (.intend (executing_eq_some.mp hc) hnode hfree.1 hfree.2 ?_
    (isOk_eq_true hadmit) hcancel htime))
  split at hturn
  next heq => exact heq
  · nomatch hturn

/-- A value that was returned is proposed as the output of its attempt. -/
theorem succeed_edited {key : String} {p : Proposal}
    (h : w.succeed s key = some (some p)) : Proposed s w (.succeed key) p := by
  obtain ⟨c, hc, h⟩ := Option.bind_eq_some_iff.mp h
  obtain ⟨node, hnode, h⟩ := Option.bind_eq_some_iff.mp h
  split at h
  next attempt value hworker =>
    obtain ⟨record, rfl, hlive, he⟩ := onNode_eq_some h
    obtain ⟨old, hold, hattempt, hrun, rfl⟩ := success_eq_some he
    exact .record (.operation hlive
      (.succeed (executing_eq_some.mp hc) hnode hworker hold hattempt hrun))
  · nomatch h

/-- A failure of the worker is proposed with its report. -/
theorem fail_edited {key : String} {later delay : UInt64} {p : Proposal}
    (h : w.fail s key later delay = some (some p)) : Proposed s w (.fail key later delay) p := by
  obtain ⟨c, hc, h⟩ := Option.bind_eq_some_iff.mp h
  obtain ⟨node, hnode, h⟩ := Option.bind_eq_some_iff.mp h
  split at h
  next attempt report hworker =>
    obtain ⟨record, rfl, hlive, he⟩ := onNode_eq_some h
    obtain ⟨old, hold, hattempt, hrun, rfl⟩ := recordFailure_eq_some he
    exact .record (.operation hlive
      (.fail (.worker (executing_eq_some.mp hc) hnode hworker) hold hattempt hrun))
  · nomatch h

/-- An attempt that a worker finds open is failed with the report of its recovery. -/
theorem recover_edited {key : String} {cancelled : Bool} {later delay : UInt64} {p : Proposal}
    (h : w.recover s key cancelled later delay = some (some p)) :
    Proposed s w (.recover key cancelled later delay) p := by
  obtain ⟨c, hc, h⟩ := Option.bind_eq_some_iff.mp h
  obtain ⟨node, hnode, h⟩ := Option.bind_eq_some_iff.mp h
  obtain ⟨u, halone, h⟩ := Option.bind_eq_some_iff.mp h
  split at h
  next attempt report hturn =>
    obtain ⟨record, rfl, hlive, he⟩ := onNode_eq_some h
    obtain ⟨old, hold, hattempt, hrun, rfl⟩ := recordFailure_eq_some he
    have halone := (Option.guard_eq_some' _).mp halone
    exact .record (.operation hlive
      (.fail (.found (executing_eq_some.mp hc) hnode halone hturn) hold hattempt hrun))
  · nomatch h

/-- A boot classifies an attempt that it found. -/
theorem classify_edited {later delay : UInt64} {p : Proposal}
    (h : w.classify later delay = some (some p)) : Proposed s w (.classify later delay) p := by
  unfold World.classify at h
  split at h
  next c key record rest cancelled hprocess =>
    split at h
    · simp at h
    next descriptor hoperation =>
      obtain ⟨record', rfl, hlive, he⟩ := onNode_eq_some h
      obtain ⟨old, hold, hattempt, hrun, rfl⟩ := recordFailure_eq_some he
      exact .record (.operation hlive (.fail (.boot hprocess hoperation) hold hattempt hrun))
  · nomatch h

/-! ### Control nodes and waits -/

/-- A control node is activated with the frame of its input. -/
theorem activate_edited {key : String} {input : Value} {frame : ControlFrame} {p : Proposal}
    (h : w.activate s key input frame = some (some p)) :
    Proposed s w (.activate key input frame) p := by
  obtain ⟨c, hc, h⟩ := Option.bind_eq_some_iff.mp h
  obtain ⟨u, hguard, h⟩ := Option.bind_eq_some_iff.mp h
  obtain ⟨hnode, hframe⟩ := (Option.guard_eq_some' _).mp hguard
  obtain ⟨record, rfl, hlive, he⟩ := onNode_eq_some h
  obtain ⟨hfresh, rfl⟩ := activate_eq_some he
  exact .record (.control (executing_eq_some.mp hc) hlive hnode (.activate hframe hfresh))

/-- A change of a control record needs an unsettled record of a control node. -/
theorem control_eq_some {checkBudget : Bool} {key : String} {edit : NodeEdit} {p : Proposal}
    (h : w.control s checkBudget key edit = some (some p)) :
    ∃ c record, Working w c ∧ s.isControl key = true ∧ w.unsettled key = true ∧
      p = .record key record ∧ w.run.state.isTerminal = false ∧
      edit w.run.head w.run.invocations[key]? = .ok (some record) := by
  obtain ⟨c, hc, h⟩ := Option.bind_eq_some_iff.mp h
  obtain ⟨u, hguard, h⟩ := Option.bind_eq_some_iff.mp h
  obtain ⟨hnode, hopen⟩ := (Option.guard_eq_some' _).mp hguard
  obtain ⟨record, hp, hlive, he⟩ := onNode_eq_some h
  exact ⟨c, record, executing_eq_some.mp hc, hnode, hopen, hp, hlive, he⟩

/-- The stop of a group changes the record, and the descendants with it. -/
theorem stop_edited {key : String} {frame : ControlFrame} {p : Proposal}
    (h : w.stop s key frame = some (some p)) : Proposed s w (.stop key frame) p := by
  obtain ⟨c, hc, h⟩ := Option.bind_eq_some_iff.mp h
  obtain ⟨u, hguard, h⟩ := Option.bind_eq_some_iff.mp h
  obtain ⟨hnode, hopen, hgroup⟩ := (Option.guard_eq_some' _).mp hguard
  obtain ⟨edited, revision, rfl, hlive, hrev, he⟩ := onRun_eq_some h
  obtain ⟨record, hrecord, rfl, -⟩ := stopGroup_eq_some he
  exact .run (.stopped (executing_eq_some.mp hc) hlive hnode hgroup hrecord hopen) hrev

/-- A wait is reserved together with the record of its node. -/
theorem reserve_edited {key correlation : String} {input : Value} {cancelled : Bool}
    {p : Proposal} (h : w.reserve s key correlation input cancelled = some (some p)) :
    Proposed s w (.reserve key correlation input cancelled) p := by
  obtain ⟨c, hc, h⟩ := Option.bind_eq_some_iff.mp h
  obtain ⟨⟨kind, duration⟩, hwait, h⟩ := Option.bind_eq_some_iff.mp h
  obtain ⟨edited, revision, rfl, hlive, hrev, he⟩ := onRun_eq_some h
  obtain ⟨hfresh, hvacant, hcancel, -, -, -, htime, rfl, -⟩ := reserve_eq_some he
  exact .run (.waited (executing_eq_some.mp hc) hlive
    (.reserve hwait hfresh hvacant hcancel htime)) hrev

/-- A confirmation opens the reserved wait. -/
theorem confirm_edited {key : String} {p : Proposal} (h : w.confirm s key = some (some p)) :
    Proposed s w (.confirm key) p := by
  obtain ⟨c, hc, h⟩ := Option.bind_eq_some_iff.mp h
  obtain ⟨startKey, hstart, h⟩ := Option.bind_eq_some_iff.mp h
  obtain ⟨u, hguard, h⟩ := Option.bind_eq_some_iff.mp h
  obtain ⟨edited, revision, rfl, hlive, hrev, he⟩ := onRun_eq_some h
  obtain ⟨wait, hwait, hopen, -, rfl⟩ := confirmStart_eq_some he
  have hdone : ∃ started, w.run.invocations[startKey]? = some started ∧
      started.state = .succeeded := by
    have hany := (Option.guard_eq_some' _).mp hguard
    simpa [World.record, Option.any_eq_true] using hany
  obtain ⟨started, hdone⟩ := hdone
  exact .run (.waited (executing_eq_some.mp hc) hlive (.confirm hstart hdone hwait hopen)) hrev

/-- A wait that is due expires with a lease. -/
theorem expire_edited {key : String} {p : Proposal} (h : w.expire s key = some (some p)) :
    Proposed s w (.expire key) p := by
  obtain ⟨c, hc, h⟩ := Option.bind_eq_some_iff.mp h
  obtain ⟨startKey, hstart, h⟩ := Option.bind_eq_some_iff.mp h
  obtain ⟨edited, revision, rfl, hlive, hrev, he⟩ := onRun_eq_some h
  obtain ⟨wait, hwait, hopen, hnone, hdue, rfl⟩ := expire_eq_some he
  exact .run (.waited (executing_eq_some.mp hc) hlive
    (.expire hstart hwait hopen hnone hdue)) hrev

/-- The delivery of a wait completes its node. -/
theorem consume_edited {key : String} {cancelled : Bool} {p : Proposal}
    (h : w.consume s key cancelled = some (some p)) :
    Proposed s w (.consume key cancelled) p := by
  obtain ⟨c, hc, h⟩ := Option.bind_eq_some_iff.mp h
  obtain ⟨u, hguard, h⟩ := Option.bind_eq_some_iff.mp h
  obtain ⟨record, hrecord, h⟩ := Option.bind_eq_some_iff.mp h
  have hnode := (Option.guard_eq_some' _).mp hguard
  obtain ⟨edited, revision, rfl, hlive, hrev, he⟩ := onRun_eq_some h
  obtain ⟨hcancel, -, htime, wait, hwait, hopen, hcases⟩ := consume_eq_some he
  have hedit : WaitEdit s w c key (.consume key cancelled) edited := by
    rcases hcases with ⟨hexpired, rfl⟩ | ⟨output, record', hready, hrecord', rfl, -⟩
    · exact .overdue hnode hrecord hwait hopen hexpired htime
    · obtain rfl : record = record' := Option.some.inj (hrecord.symm.trans hrecord')
      exact .consume hnode hrecord hwait hopen hready hcancel htime
  exact .run (.waited (executing_eq_some.mp hc) hlive hedit) hrev

/-- An error ends the wait of a node. -/
theorem endWait_edited {key : String} {error : ForgeError} {p : Proposal}
    (h : w.endWait s key error = some (some p)) : Proposed s w (.endWait key error) p := by
  obtain ⟨c, hc, h⟩ := Option.bind_eq_some_iff.mp h
  obtain ⟨u, hguard, h⟩ := Option.bind_eq_some_iff.mp h
  have hnode := (Option.guard_eq_some' _).mp hguard
  obtain ⟨edited, revision, rfl, hlive, hrev, he⟩ := onRun_eq_some h
  obtain ⟨wait, record, hwait, hunconsumed, hrecord, rfl⟩ := endWait_eq_some he
  exact .run (.waited (executing_eq_some.mp hc) hlive
    (.endWait hnode hwait hunconsumed hrecord)) hrev

/-! ### The run and its callers -/

/-- A run is left only by a worker that has no call under way. -/
theorem leave_eq_some {q : Option (Option Proposal)} {p : Proposal}
    (h : w.leave q = some (some p)) :
    ∃ c, Working w c ∧ w.workers = ∅ ∧ q = some (some p) := by
  obtain ⟨c, hc, h⟩ := Option.bind_eq_some_iff.mp h
  obtain ⟨u, hguard, h⟩ := Option.bind_eq_some_iff.mp h
  exact ⟨c, executing_eq_some.mp hc, (Option.guard_eq_some' _).mp hguard, h⟩

/-- A value ends the run, or an error where the value is too large. -/
theorem conclude_edited {value : Value} {later : UInt64} {cancelled : Bool} {p : Proposal}
    (h : w.conclude value later cancelled = some (some p)) :
    Proposed s w (.conclude value later cancelled) p := by
  obtain ⟨c, hc, h⟩ := Option.bind_eq_some_iff.mp h
  obtain ⟨u, hguard, h⟩ := Option.bind_eq_some_iff.mp h
  obtain ⟨hquiet, hresolved⟩ := (Option.guard_eq_some' _).mp hguard
  obtain ⟨next, hu, rfl⟩ := ofRun_eq_some h
  obtain ⟨hlive, edited, revision, he, hrev, rfl⟩ := updateWithView_eq_some hu
  obtain rfl := Option.some.inj (Except.ok.inj he)
  exact .run (.concluded (executing_eq_some.mp hc) hquiet hresolved (hlive rfl)) hrev

/-- A boot that finds a stored wait or an older package proposes the run as it needs it. -/
theorem boot_edited {c : Composition} {p : Proposal} (h : w.boot c = some (some p)) :
    Proposed s w (.boot c) p := by
  unfold World.boot at h
  split at h
  next hdown =>
    split at h
    · nomatch h
    · split at h
      next hblocked =>
        obtain ⟨revision, rfl, hlive, hrev⟩ := onTransition_eq_some h
        exact .run (.recovered hdown hblocked) hrev
      · simp at h
  · nomatch h

/-- A boot without the plan blocks the run. -/
theorem bootBlocked_edited {c : Composition} {error : ForgeError} {p : Proposal}
    (h : w.bootBlocked c error = some (some p)) : Proposed s w (.bootBlocked c error) p := by
  unfold World.bootBlocked at h
  split at h
  next hdown =>
    split at h
    · nomatch h
    · obtain ⟨revision, rfl, hlive, hrev⟩ := onTransition_eq_some h
      exact .run (.bootBlocked hdown hlive) hrev
  · nomatch h

/-- A command that changes the run proposes it with its receipt. -/
theorem answered_eq_some {R : Type} {named : Bool}
    {answer : Except ForgeError (R × Option RunSnapshot)} {p : Proposal}
    (h : World.answered named answer = some (some p)) :
    ∃ receipt next, named = true ∧ answer = .ok (receipt, some next) ∧ p = .run next := by
  unfold World.answered at h
  split at h
  next receipt next =>
    split at h
    next hn =>
      obtain ⟨next', rfl, rfl⟩ := Option.map_eq_some_iff.mp (Option.some.inj h)
      exact ⟨receipt, next', hn, rfl, rfl⟩
    · nomatch h
  · nomatch h

/-- A signal delivers to the wait that it names. -/
theorem signal_edited {phase : Phase} {access : AccessContext} {received : SignalCommand}
    {p : Proposal}
    (h : World.answered (received.runId = w.run.id) (w.signal phase access received) =
      some (some p)) :
    Proposed s w (.signal phase access received) p := by
  obtain ⟨receipt, next, hn, ha, rfl⟩ := answered_eq_some h
  unfold World.signal at ha
  split at ha
  · nomatch ha
  next c hc =>
    obtain ⟨u, hauth, ha⟩ := bind_eq_ok.mp ha
    obtain ⟨command, hcheck, ha⟩ := bind_eq_ok.mp ha
    obtain ⟨run, hread, ha⟩ := bind_eq_ok.mp ha
    obtain ⟨hscope, hrun⟩ := read_eq_ok hread
    rw [hrun] at ha
    obtain ⟨wait, law⟩ := deliver_eq_some ha
    obtain ⟨revision, hrev, hnext⟩ := law.replaced
    rw [hnext]
    exact .run (.signalled hc hauth hcheck (of_decide_eq_true hn) hscope law) hrev

/-- A report resolves the attempt that it names. -/
theorem reconcile_edited {phase : Phase} {access : AccessContext} {command : ReconcileCommand}
    {p : Proposal}
    (h : World.answered (command.runId = w.run.id) (w.reconcile phase access command) =
      some (some p)) :
    Proposed s w (.reconcile phase access command) p := by
  obtain ⟨receipt, next, hn, ha, rfl⟩ := answered_eq_some h
  unfold World.reconcile at ha
  split at ha
  · nomatch ha
  next c hc =>
    obtain ⟨key, record, resolved, revision, law⟩ := reconcile_eq_some ha
    have hself : next = next.atRevision revision := by
      rw [(Prod.mk.inj law.result).2]
      rfl
    rw [hself]
    exact .run (.reconciled hc (of_decide_eq_true hn) law) law.successor

/-- A late observation is added to the audit. -/
theorem observe_edited {observation : LateObservation} {p : Proposal}
    (h : (w.running.bind fun c => Proposal.ofRun
      (update true (observeLate c.limits (.late observation)) w.run)) = some (some p)) :
    Proposed s w (.late observation) p := by
  obtain ⟨c, hc, h⟩ := Option.bind_eq_some_iff.mp h
  obtain ⟨next, hu, rfl⟩ := ofRun_eq_some h
  obtain ⟨-, edited, revision, he, hrev, rfl⟩ := update_eq_some hu
  unfold observeLate at he
  split at he
  · simp at he
  · obtain rfl := Option.some.inj (Except.ok.inj he)
    exact .run (.observed hc) hrev

/-- Every proposal is a transition of the list. -/
theorem proposal_edited {a : Action} {p : Proposal} (h : w.proposal s a = some (some p)) :
    Proposed s w a p := by
  cases a with
  | tick now =>
    simp only [World.proposal] at h
    split at h <;> simp at h
  | crash => simp [World.proposal] at h
  | boot c => exact boot_edited h
  | bootBlocked c error => exact bootBlocked_edited h
  | classify later delay => exact classify_edited h
  | ready =>
    simp only [World.proposal] at h
    split at h <;> simp at h
  | take =>
    simp only [World.proposal] at h
    split at h
    · split at h <;> simp at h
    · simp at h
  -- a worker without the plan blocks the run
  | block error =>
    simp only [World.proposal] at h
    split at h
    next c hp hj =>
      split at h
      · obtain ⟨revision, rfl, hlive, hrev⟩ := onTransition_eq_some h
        exact .run (.blocked hp hj hlive) hrev
      · nomatch h
    · nomatch h
  | begin =>
    simp only [World.proposal] at h
    split at h
    next c hp hj =>
      obtain ⟨revision, rfl, hlive, hrev⟩ := onTransition_eq_some h
      exact .run (.begun hp hj hlive) hrev
    · nomatch h
  | intend key attempt input cancelled => exact intend_edited h
  -- an operation that is called, or answers, changes nothing that is stored
  | call key =>
    obtain ⟨c, -, h⟩ := Option.bind_eq_some_iff.mp h
    obtain ⟨node, -, h⟩ := Option.bind_eq_some_iff.mp h
    split at h <;> simp [pure] at h
  | answer key answer cancelled =>
    obtain ⟨c, -, h⟩ := Option.bind_eq_some_iff.mp h
    obtain ⟨node, -, h⟩ := Option.bind_eq_some_iff.mp h
    split at h <;> simp [pure] at h
  | succeed key => exact succeed_edited h
  | exceed key cancelled =>
    simp only [World.proposal] at h
    obtain ⟨c, -, h⟩ := Option.bind_eq_some_iff.mp h
    obtain ⟨node, -, h⟩ := Option.bind_eq_some_iff.mp h
    split at h
    · obtain ⟨u, -, h⟩ := Option.bind_eq_some_iff.mp h
      simp [pure] at h
    · nomatch h
  | fail key later delay => exact fail_edited h
  | recover key cancelled later delay => exact recover_edited h
  | activate key input frame => exact activate_edited h
  -- a control node saves its frame, ends, or fails
  | progress key frame =>
    simp only [World.proposal] at h
    split at h
    next hframe =>
      obtain ⟨c, record, hw, hnode, hopen, rfl, hlive, he⟩ := control_eq_some h
      obtain ⟨old, hold, rfl⟩ := updateFrame_eq_some he
      exact .record (.control hw hlive hnode (.progress hframe hold hopen))
    · nomatch h
  | complete key value =>
    obtain ⟨c, record, hw, hnode, hopen, rfl, hlive, he⟩ := control_eq_some h
    obtain ⟨old, hold, rfl⟩ := completeControl_eq_some he
    exact .record (.control hw hlive hnode (.complete hold hopen))
  | error key error =>
    obtain ⟨c, record, hw, hnode, hopen, rfl, hlive, he⟩ := control_eq_some h
    obtain ⟨old, hold, rfl⟩ := failControl_eq_some he
    exact .record (.control hw hlive hnode (.error hold hopen))
  | stop key frame => exact stop_edited h
  | reserve key correlation input cancelled => exact reserve_edited h
  | confirm key => exact confirm_edited h
  | expire key => exact expire_edited h
  | consume key cancelled => exact consume_edited h
  | endWait key error => exact endWait_edited h
  -- the body of the run is left
  | suspend =>
    obtain ⟨c, hw, hquiet, h⟩ := leave_eq_some h
    obtain ⟨revision, rfl, hlive, hrev⟩ := onTransition_eq_some h
    exact .run (.suspended hw hquiet hlive) hrev
  | finish error cancelled =>
    obtain ⟨c, hw, hquiet, h⟩ := leave_eq_some h
    obtain ⟨revision, rfl, hlive, hrev⟩ := onTransition_eq_some h
    exact .run (.finished hw hquiet hlive) hrev
  | conclude value later cancelled => exact conclude_edited h
  -- a second cancellation changes nothing
  | cancel =>
    obtain ⟨c, hc, h⟩ := Option.bind_eq_some_iff.mp h
    obtain ⟨edited, revision, rfl, hlive, hrev, he⟩ := onRun_eq_some h
    unfold Engine.cancel at he
    split at he
    · simp at he
    · obtain rfl := Option.some.inj (Except.ok.inj he)
      exact .run (.cancelled hc hlive) hrev
  | signal phase access command => exact signal_edited h
  | late observation => exact observe_edited h
  | reconcile phase access command => exact reconcile_edited h

/-! ## What a step commits -/

/-- An accepted proposal replaces the run by a transition of it, at the next revision. -/
theorem accept_eq_some {a : Action} {p : Option Proposal} {w₁ : World}
    (hp : w.proposal s a = some p) (h : w.accept p = some w₁) :
    (p = none ∧ w₁ = w) ∨
      ∃ edited revision, Edited s w a edited ∧ checkedAdd w.run.revision 1 = some revision ∧
        w₁ = w.committed (edited.atRevision revision) := by
  cases p with
  | none =>
    obtain rfl := Option.some.inj h
    exact .inl ⟨rfl, rfl⟩
  | some p =>
    right
    cases proposal_edited hp with
    -- a record is replaced at the current revision
    | record edit =>
      simp only [World.accept] at h
      split at h
      · nomatch h
      · obtain ⟨revision, hrev, rfl⟩ := Option.map_eq_some_iff.mp h
        exact ⟨_, revision, edit, hrev, rfl⟩
    -- a run brings its own revision, which must be the next one
    | run edit hrev =>
      simp only [World.accept] at h
      split at h
      · obtain rfl := Option.some.inj h
        exact ⟨_, _, edit, hrev, rfl⟩
      · nomatch h

end WorkflowForge.Run
