import WorkflowForge.Lib.Guard
import WorkflowForge.System.Certainty

/-!
# Dispatch of Writes

An unsafe write is called again only after the last call was cleared: its operation said
that nothing was applied, or a caller who reported so allowed another attempt. The calls of
an invocation carry its name and its effect key, and each has an identity of its own.

The argument follows the record of the invocation. While it stands for an attempt, only that
attempt may be uncleared; where it allows another one, none is.

## Main results

- `Reachable.calls`: what the calls of an invocation carry.
- `Reachable.dispatch`: which calls are uncleared, by the state of the record.
- `unsafe_write_once`: between two calls of an unsafe write, the first was cleared.
-/

namespace WorkflowForge.Run

open Lib Engine Guard

variable {s : Setup} {w w' : World} {a : Action} {key : String}

/-! ## Calls -/

/-- The call of one invocation. -/
def callOf (key : String) : Event → Option Invocation
  | .called k invocation => if k = key then some invocation else none
  | _ => none

/-- The operation itself says that the attempt was not applied. -/
def Denies : Answer → Prop
  | .failed error => error.certainty = .notApplied
  | _ => False

/-- What allows another attempt after a call: the operation said that it was not applied, or
a committed report on it released the invocation. -/
inductive Clears (key : String) (invocation : Invocation) : Event → Prop where
  | denied {answer : Answer} (denies : Denies answer) :
      Clears key invocation (.answered key invocation.attemptId answer)
  | released {command : ReconcileCommand} {receipt : ReconcileReceipt} {evidence : EffectEvidence}
      (resolution : command.resolution = .confirmNotApplied evidence true true)
      (name : command.invocationId = invocation.id)
      (attempt : command.observedAttempt = invocation.attemptId) :
      Clears key invocation (.reconciled command receipt)

theorem callOf_eq_some {e : Event} {invocation : Invocation} (h : callOf key e = some invocation) :
    e = .called key invocation := by
  unfold callOf at h
  split at h
  next k i =>
    split at h
    next hk =>
      obtain rfl := Option.some.inj h
      rw [hk]
    · nomatch h
  · nomatch h

/-- The failure of a write that was not applied was denied by its operation. -/
theorem settle_denies {node : PreparedOperation} {limits : Limits} {cancelled : Bool}
    {answer : Answer} {report : FailureReport}
    (h : settle node limits cancelled answer = .error report)
    (hw : node.operation.descriptor.effect = .write) (hi : report.invalidOutput = false)
    (hc : report.cause.map OperationError.certainty = some .notApplied) : Denies answer := by
  unfold settle at h
  cases answer with
  | completed value =>
    simp only [invoke] at h
    split at h
    -- an output that its schema refuses
    · obtain rfl := Except.error.inj h
      nomatch hi
    · nomatch h
  | failed error =>
    obtain rfl := Except.error.inj h
    -- only the operation itself can say that nothing was applied
    exact Option.some.inj hc
  | panicked =>
    obtain rfl := Except.error.inj h
    simp [hw, FailureReport.cause, operationFailure, possibleEffect] at hc
  | lost =>
    obtain rfl := Except.error.inj h
    simp [hw, FailureReport.cause, operationFailure, possibleEffect] at hc
  | timedOut =>
    obtain rfl := Except.error.inj h
    simp [hw, FailureReport.cause, operationFailure, possibleEffect] at hc
  | cancelled =>
    obtain rfl := Except.error.inj h
    simp [hw, FailureReport.cause, operationFailure, possibleEffect] at hc

/-! ## What a call carries -/

/-- The calls of the operation of one key. -/
structure CallsInv (s : Setup) (w : World) (key : String) : Prop where
  carries : ∀ node invocation, s.operation key = some node → .called key invocation ∈ w.log →
    invocation.id = s.logical w.run.id key ∧ invocation.attemptId ∈ w.issued ∧
      invocation.effectKey =
        if node.operation.descriptor.effect = .write then some (s.logical w.run.id key) else none
  unauthorized : ∀ record, w.workers[key]? = some (.authorized record) → ∀ invocation,
    .called key invocation ∈ w.log → invocation.attemptId ≠ record.attemptId
  distinct : (w.log.filterMap (callOf key)).Pairwise fun i i' => i.attemptId ≠ i'.attemptId

/-- A step adds at most one event, and a call only for an authorized worker. -/
theorem step_calls (h : w.step s a = some w') (key : String) :
    (w'.log = w.log ∧ ∀ node, a ≠ .call node) ∨
      (∃ e, w'.log = e :: w.log ∧ callOf key e = none ∧ a ≠ .call key) ∨
      ∃ node record, a = .call key ∧ s.operation key = some node ∧
        w.workers[key]? = some (.authorized record) ∧
        w'.log = .called key (command record node) :: w.log := by
  have hlog := step_log h
  generalize hx : w'.log = x at hlog
  cases hlog with
  | same quiet => exact .inl ⟨rfl, quiet⟩
  | @called k node record operation worker =>
    right
    by_cases hk : k = key
    · subst hk
      exact .inr ⟨node, record, rfl, operation, worker, rfl⟩
    · exact .inl ⟨_, rfl, by simp [callOf, hk], by simpa using hk⟩
  | answered => exact .inr (.inl ⟨_, rfl, rfl, by simp⟩)
  | signalled => exact .inr (.inl ⟨_, rfl, rfl, by simp⟩)
  | reconciled => exact .inr (.inl ⟨_, rfl, rfl, by simp⟩)

theorem mem_of_callOf_none {e : Event} {log : List Event} {invocation : Invocation}
    (he : callOf key e = none) (h : .called key invocation ∈ e :: log) :
    .called key invocation ∈ log := by
  rcases List.mem_cons.mp h with rfl | h
  · simp [callOf] at he
  · exact h

/-- A step without a call. A worker that it authorizes has an identity that no call has had. -/
theorem CallsInv.quiet (inv : CallsInv s w key) (hreach : Reachable s w)
    (h : w.step s a = some w')
    (hcalled : ∀ invocation, .called key invocation ∈ w'.log → .called key invocation ∈ w.log)
    (hcalls : w'.log.filterMap (callOf key) = w.log.filterMap (callOf key)) :
    CallsInv s w' key := by
  have hid : w'.run.id = w.run.id := (hreach.step_extends h).id.symm
  refine ⟨fun node invocation hn hmem => ?_, fun record hw invocation hmem => ?_, ?_⟩
  · rw [hid]
    obtain ⟨h₁, h₂, h₃⟩ := inv.carries node invocation hn (hcalled invocation hmem)
    exact ⟨h₁, step_issued h h₂, h₃⟩
  · have hmem := hcalled invocation hmem
    have hstep := step_worker h key
    rw [hw] at hstep
    generalize hx : some (Worker.authorized record) = x at hstep
    cases hstep with
    | same => exact inv.unauthorized record hx.symm invocation hmem
    -- an attempt that was never issued has made no call
    | authorized working operation turn alone unused found own =>
      obtain rfl := Worker.authorized.inj (Option.some.inj hx)
      rw [own]
      rintro rfl
      exact unused (inv.carries _ invocation operation hmem).2.1
    | _ => simp at hx
  · rw [hcalls]
    exact inv.distinct

/-- A call carries the name of its node, and the attempt that its worker was authorized for. -/
theorem CallsInv.called (inv : CallsInv s w key) (hreach : Reachable s w)
    {node : PreparedOperation} {record : InvocationRecord}
    (h : w.step s (.call key) = some w') (hn : s.operation key = some node)
    (hw : w.workers[key]? = some (.authorized record))
    (hlog : w'.log = .called key (command record node) :: w.log) : CallsInv s w' key := by
  have hid : w'.run.id = w.run.id := (hreach.step_extends h).id.symm
  obtain ⟨r, hinv⟩ := hreach.worker hw
  obtain rfl := hinv.authorized record rfl
  obtain ⟨-, -, hname, hkey⟩ := (hreach.shape hinv.found).ofOperation hn
  refine ⟨fun node' invocation hn' hmem => ?_, fun record' hw' => ?_, ?_⟩
  · rw [hlog] at hmem
    rw [hid]
    rcases List.mem_cons.mp hmem with heq | hmem
    · obtain ⟨-, rfl⟩ := Event.called.inj heq
      obtain rfl := Option.some.inj (hn.symm.trans hn')
      exact ⟨hname, step_issued h hinv.issued, hkey⟩
    · obtain ⟨h₁, h₂, h₃⟩ := inv.carries node' invocation hn' hmem
      exact ⟨h₁, step_issued h h₂, h₃⟩
  -- the worker has called, so it is authorized no more
  · have hstep := step_worker h key
    rw [hw'] at hstep
    generalize hx : some (Worker.authorized record') = x at hstep
    cases hstep with
    | same _ other => exact absurd rfl other
    | called => simp at hx
  -- no call before has had its attempt
  · rw [hlog, List.filterMap_cons_some (b := command record node) (by simp [callOf]),
      List.pairwise_cons]
    refine ⟨fun invocation hmem => ?_, inv.distinct⟩
    obtain ⟨e, he, hcall⟩ := List.mem_filterMap.mp hmem
    obtain rfl := callOf_eq_some hcall
    exact (inv.unauthorized record hw invocation he).symm

/-- What the calls of an invocation carry. -/
theorem Reachable.calls (hr : Reachable s w) (key : String) : CallsInv s w key := by
  apply hr.invariant (P := fun w => CallsInv s w key)
  · intro w h
    obtain ⟨-, -, hworkers, -, hlog⟩ := h.fresh
    refine ⟨fun _ _ _ hmem => ?_, fun record hw => ?_, ?_⟩
    · rw [hlog] at hmem
      cases hmem
    · rw [hworkers, Std.ExtTreeMap.getElem?_empty] at hw
      cases hw
    · rw [hlog]
      exact List.Pairwise.nil
  · intro w a w' hreach inv _ h
    rcases step_calls h key with ⟨hlog, -⟩ | ⟨e, hlog, he, -⟩ | ⟨node, record, rfl, hn, hw, hlog⟩
    · exact inv.quiet hreach h (fun _ hmem => hlog ▸ hmem) (by rw [hlog])
    · refine inv.quiet hreach h (fun invocation hmem => ?_) ?_
      · rw [hlog] at hmem
        exact mem_of_callOf_none he hmem
      · rw [hlog, List.filterMap_cons_none he]
    · exact inv.called hreach h hn hw hlog

/-! ## Which calls are uncleared -/

/-- A write that must not be repeated while it may have been applied. -/
structure UnsafeWrite (s : Setup) (key : String) (node : PreparedOperation) : Prop where
  operation : s.operation key = some node
  effect : node.operation.descriptor.effect = .write
  repetition : node.operation.descriptor.repetition = .unsafe_

/-- Every call of an invocation was cleared. -/
def Cleared (key : String) (log : List Event) : Prop :=
  Quiet (callOf key) (Clears key) log

/-- Only the calls of one attempt may be uncleared. -/
def Standing (key attempt : String) (log : List Event) : Prop :=
  Held (callOf key) (Clears key) (fun i => i.attemptId = attempt) log

/-- A record that allows another attempt. -/
def Released (record : Option InvocationRecord) : Prop :=
  record = none ∨ ∃ r, record = some r ∧ (r.state = .pending ∨ r.state = .retryScheduled)

/-- Which calls of an unsafe write are uncleared, by the state of its record and its worker. -/
structure DispatchInv (w : World) (key : String) : Prop where
  released : Released w.run.invocations[key]? → Cleared key w.log
  standing : ∀ r, w.run.invocations[key]? = some r → r.state = .running ∨ r.state = .unknown →
    Standing key r.attemptId w.log
  authorized : ∀ record, w.workers[key]? = some (.authorized record) → Cleared key w.log
  denied : ∀ attempt report, w.workers[key]? = some (.failed attempt report) →
    report.invalidOutput = false →
    report.cause.map OperationError.certainty = some .notApplied → Cleared key w.log
  guarded : Guarded (callOf key) (Clears key) w.log

/-- An unsafe write whose attempt is still open, or unknown, is not released. -/
theorem not_released {r : InvocationRecord} (h : r.state = .running ∨ r.state = .unknown) :
    ¬Released (some r) := by
  rintro (hnone | ⟨r', heq, hs⟩)
  · nomatch hnone
  · obtain rfl := Option.some.inj heq
    rcases h with h | h <;> rcases hs with hs | hs <;> rw [h] at hs <;> nomatch hs

section Step

variable {node : PreparedOperation}

/-- What every event but a call leaves cleared. -/
theorem cleared_step (h : w.step s a = some w') (hc : a ≠ .call key) (hq : Cleared key w.log) :
    Cleared key w'.log := by
  rcases step_calls h key with ⟨hlog, -⟩ | ⟨e, hlog, he, -⟩ | ⟨node, record, ha, -⟩
  · rw [hlog]
    exact hq
  · rw [hlog]
    exact Held.other hq he
  · exact absurd ha hc

theorem standing_step (h : w.step s a = some w') (hc : a ≠ .call key) {attempt : String}
    (hq : Standing key attempt w.log) : Standing key attempt w'.log := by
  rcases step_calls h key with ⟨hlog, -⟩ | ⟨e, hlog, he, -⟩ | ⟨node, record, ha, -⟩
  · rw [hlog]
    exact hq
  · rw [hlog]
    exact Held.other hq he
  · exact absurd ha hc

/-- A failure that leaves an unsafe write released, or settled, was denied by its operation. -/
theorem reported_cleared (hr : Reachable s w) (hu : UnsafeWrite s key node)
    (inv : DispatchInv w key) {attempt : String} {descriptor : OperationDescriptor}
    {report : FailureReport} (reported : Reported s w a key attempt descriptor report)
    {old : InvocationRecord}
    (hcertainty : failureCertainty descriptor.effect report old = .notApplied) :
    Cleared key w.log := by
  obtain ⟨node', hn', heffect, -⟩ := hr.reported reported
  obtain rfl := Option.some.inj (hu.operation.symm.trans hn')
  have hwrite : descriptor.effect = .write := heffect ▸ hu.effect
  obtain ⟨-, hvalid, hcause⟩ := failureCertainty_eq_notApplied hwrite hcertainty
  -- an interrupted write is never known to be absent
  have hinterrupted :
      ∀ message cancelled, report ≠ interrupted descriptor.effect message cancelled := by
    rintro message cancelled rfl
    rw [interrupted_cause, hwrite] at hcause
    nomatch hcause
  cases reported with
  | worker working operation worker => exact inv.denied _ _ worker hvalid hcause
  | found working operation alone turn =>
    obtain ⟨record, hrecord, -, hcases⟩ := resume_eq_recover turn
    rcases hcases with ⟨-, hreport⟩ | ⟨hstate, -⟩
    · obtain rfl := Option.some.inj (operation.symm.trans hu.operation)
      exact absurd hreport (hinterrupted _ _)
    · exact inv.released (.inr ⟨record, hrecord, .inr hstate⟩)
  | boot => exact absurd rfl (hinterrupted _ _)

/-- A failure after which the write is retried was known not to have applied. -/
theorem failed_released (hr : Reachable s w) (hu : UnsafeWrite s key node)
    (inv : DispatchInv w key) (h : w.step s a = some w') {attempt : String}
    {descriptor : OperationDescriptor} {report : FailureReport} {old : InvocationRecord}
    {later delay : UInt64} (reported : Reported s w a key attempt descriptor report)
    (hreleased : Released
      (some (failedRecord key descriptor report w.run.head w.now later delay old))) :
    Cleared key w'.log := by
  rcases hreleased with hnone | ⟨r, heq, hs⟩
  · cases hnone
  obtain rfl := Option.some.inj heq
  rcases hs with hs | hs
  · exact absurd hs failedRecord_state_ne.2.2
  obtain ⟨node', hn', heffect, hrepetition⟩ := hr.reported reported
  obtain rfl := Option.some.inj (hu.operation.symm.trans hn')
  -- the record waits for a retry, which an unsafe write has only after a denial
  have hcertainty := failedRecord_retry_unsafe (heffect ▸ hu.effect)
    (hrepetition ▸ hu.repetition) hs
  rw [failedRecord_certainty] at hcertainty
  have hcleared := reported_cleared hr hu inv reported hcertainty
  refine cleared_step h ?_ hcleared
  rintro rfl
  cases reported

/-- The end of a run releases no record that was not released before. -/
theorem marked_released (inv : DispatchInv w key) {error : ForgeError} {cancelled : Bool}
    (h : w.step s (.finish error cancelled) = some w') {old : InvocationRecord}
    (found : w.run.invocations[key]? = some old)
    (hreleased : Released (some (markUnknown old))) : Cleared key w'.log := by
  rcases markUnknown_cases old with ⟨-, heq⟩ | ⟨-, heq⟩ | ⟨-, -, heq⟩
  · rw [heq, ← found] at hreleased
    exact cleared_step h (by simp) (inv.released hreleased)
  · rw [heq, ← found] at hreleased
    exact cleared_step h (by simp) (inv.released hreleased)
  · rw [heq] at hreleased
    exact absurd hreleased (not_released (.inr rfl))

/-- A command that allows another attempt names the only attempt that may be uncleared. -/
theorem confirmed_released (hr : Reachable s w) (hu : UnsafeWrite s key node)
    (inv : DispatchInv w key) {phase : Phase} {access : AccessContext}
    {command : ReconcileCommand} (h : w.step s (.reconcile phase access command) = some w')
    (hchanged : w'.run ≠ w.run) {old : InvocationRecord}
    (found : w.run.invocations[key]? = some old) (isNamed : named command old = true)
    {evidence : EffectEvidence}
    (hcommand : command.resolution = .confirmNotApplied evidence true true) :
    Cleared key w'.log := by
  simp only [named, decide_eq_true_eq] at isNamed
  obtain ⟨receipt, hlog⟩ := reconcile_committed h hchanged
  rw [hlog]
  refine Held.clear (inv.standing old found (.inr isNamed.2.2)) rfl ?_
  rintro invocation hattempt ⟨e, hmem, hcallOf⟩
  obtain rfl := callOf_eq_some hcallOf
  have hname := ((hr.calls key).carries node invocation hu.operation hmem).1
  have hid := ((hr.shape found).ofOperation hu.operation).2.2.1
  exact .released hcommand (isNamed.1.symm.trans (hid.trans hname.symm))
    (isNamed.2.1.symm.trans hattempt.symm)

/-- A record that allows another attempt after a step has no uncleared call behind it. -/
theorem released_step (hr : Reachable s w) (hu : UnsafeWrite s key node) (inv : DispatchInv w key)
    (h : w.step s a = some w') (hreleased : Released w'.run.invocations[key]?) :
    Cleared key w'.log := by
  have hrecord := step_record h key
  generalize hx : w'.run.invocations[key]? = x at hrecord hreleased
  cases hrecord with
  | same =>
    by_cases ha : a = .call key
    -- a call needs an open attempt, which is not released
    · subst ha
      rcases step_calls h key with ⟨-, hnone⟩ | ⟨e, -, -, hne⟩ | ⟨n, record, -, -, hw, -⟩
      · exact absurd rfl (hnone key)
      · exact absurd rfl hne
      · obtain ⟨r, hinv⟩ := hr.worker hw
        rw [hinv.found] at hreleased
        exact absurd hreleased (not_released (.inl hinv.running))
    · exact cleared_step h ha (inv.released hreleased)
  | operation edit =>
    cases edit with
    | intend => exact absurd hreleased (not_released (.inl rfl))
    | succeed =>
      rcases hreleased with hnone | ⟨r, heq, hs⟩
      · cases hnone
      · obtain rfl := Option.some.inj heq
        rcases hs with hs | hs <;> cases hs
    | fail reported => exact failed_released hr hu inv h reported hreleased
  | other edit =>
    -- the node of the record is no operation
    have hn := hu.operation
    rw [edit.node] at hn
    cases hn
  | marked action found =>
    subst action
    exact marked_released inv h found hreleased
  | @resolved c old r phase access command action running found isNamed blocked edit =>
    subst action
    have hunknown : old.state = .unknown := by
      simp only [named, decide_eq_true_eq] at isNamed
      exact isNamed.2.2
    rcases hreleased with hnone | ⟨r', heq, hs⟩
    · cases hnone
    obtain rfl := Option.some.inj heq
    cases edit with
    | applied => rcases hs with hs | hs <;> cases hs
    | invalid => exact absurd (.inr ⟨_, rfl, hs⟩) (not_released (.inr hunknown))
    | failed => rcases hs with hs | hs <;> cases hs
    | retry hcommand =>
      have hne : w'.run ≠ w.run := by
        intro heq
        rw [heq, found] at hx
        have hstate := congrArg InvocationRecord.state (Option.some.inj hx)
        rw [hunknown] at hstate
        cases hstate
      exact confirmed_released hr hu inv h hne found isNamed hcommand

/-- What stood behind a record stands behind it still, unless the step is the call itself. -/
theorem standing_kept (inv : DispatchInv w key) (h : w.step s a = some w') (hc : a ≠ .call key)
    {old : InvocationRecord} (hold : w.run.invocations[key]? = some old)
    (hfailed : old.state ≠ .failed) (hcancelled : old.state ≠ .cancelled)
    (hsucceeded : old.state ≠ .succeeded) : Standing key old.attemptId w'.log := by
  apply standing_step h hc
  cases hstate : old.state with
  | running => exact inv.standing old hold (.inl hstate)
  | unknown => exact inv.standing old hold (.inr hstate)
  | pending => exact (inv.released (.inr ⟨old, hold, .inl hstate⟩)).held
  | retryScheduled => exact (inv.released (.inr ⟨old, hold, .inr hstate⟩)).held
  | failed => exact absurd hstate hfailed
  | cancelled => exact absurd hstate hcancelled
  | succeeded => exact absurd hstate hsucceeded

/-- A record that the end of its run marks unknown keeps its attempt. -/
theorem marked_standing (hr : Reachable s w) (inv : DispatchInv w key) {error : ForgeError}
    {cancelled : Bool} (h : w.step s (.finish error cancelled) = some w')
    {old : InvocationRecord} (found : w.run.invocations[key]? = some old)
    (hs : (markUnknown old).state = .running ∨ (markUnknown old).state = .unknown) :
    Standing key (markUnknown old).attemptId w'.log := by
  rcases markUnknown_cases old with ⟨-, heq⟩ | ⟨-, heq⟩ | ⟨hsucceeded, hcertainty, heq⟩
  · rw [heq] at hs ⊢
    apply standing_kept inv h (by simp) found <;> rcases hs with hs | hs <;> simp [hs]
  · rw [heq] at hs ⊢
    apply standing_kept inv h (by simp) found <;> rcases hs with hs | hs <;> simp [hs]
  -- a settled record has its certainty, so it is not marked
  · rw [heq]
    change Standing key old.attemptId w'.log
    have hsettled := (hr.certain found).settled
    refine standing_kept inv h (by simp) found (fun hfailed => ?_) (fun hcancelled => ?_)
      hsucceeded
    · exact hcertainty (hsettled (.inl hfailed))
    · exact hcertainty (hsettled (.inr (.inl hcancelled)))

/-- An attempt that is open, or unknown, after a step. -/
theorem standing_of_step (hr : Reachable s w) (hu : UnsafeWrite s key node)
    (inv : DispatchInv w key) (h : w.step s a = some w') {r : InvocationRecord}
    (hr' : w'.run.invocations[key]? = some r) (hs : r.state = .running ∨ r.state = .unknown) :
    Standing key r.attemptId w'.log := by
  have hrecord := step_record h key
  rw [hr'] at hrecord
  generalize hx : some r = x at hrecord
  cases hrecord with
  | same =>
    rcases step_calls h key with ⟨-, hc⟩ | ⟨e, -, -, hc⟩ | ⟨n, record, rfl, -, hw, hlog⟩
    · apply standing_kept inv h (hc key) hx.symm <;> rcases hs with hs | hs <;> simp [hs]
    · apply standing_kept inv h hc hx.symm <;> rcases hs with hs | hs <;> simp [hs]
    -- the call of the authorized attempt is the first one uncleared
    · obtain ⟨r₀, hinv⟩ := hr.worker hw
      obtain rfl := hinv.authorized record rfl
      obtain rfl := Option.some.inj (hx.trans hinv.found)
      rw [hlog]
      exact Held.opened (inv.authorized r hw).held (i := command r n) (by simp [callOf]) rfl
  | operation edit =>
    obtain rfl := Option.some.inj hx
    cases edit with
    -- an intent is allowed only on a released record
    | intend working operation alone unused turn =>
      apply standing_step h (by simp)
      apply Quiet.held
      apply inv.released
      exact resume_eq_proceed turn
    | succeed => rcases hs with hs | hs <;> cases hs
    | @fail a attempt descriptor report later delay old reported found current running =>
      have hc : a ≠ .call key := by
        rintro rfl
        cases reported
      change Standing key old.attemptId w'.log
      apply standing_kept inv h hc found <;> rcases running with hstate | hstate <;> simp [hstate]
  | other edit =>
    have hn := hu.operation
    rw [edit.node] at hn
    cases hn
  | marked action found =>
    obtain rfl := Option.some.inj hx
    subst action
    exact marked_standing hr inv h found hs
  | @resolved c old r' phase access command action running found isNamed blocked edit =>
    obtain rfl := Option.some.inj hx
    subst action
    have hunknown : old.state = .unknown := by
      simp only [named, decide_eq_true_eq] at isNamed
      exact isNamed.2.2
    cases edit with
    | applied => rcases hs with hs | hs <;> cases hs
    | invalid => apply standing_kept inv h (by simp) found <;> simp [hunknown]
    | retry => rcases hs with hs | hs <;> cases hs
    | failed => rcases hs with hs | hs <;> cases hs

/-- A worker that is authorized after a step has nothing uncleared behind it. -/
theorem authorized_step (inv : DispatchInv w key)
    (h : w.step s a = some w') {record : InvocationRecord}
    (hw : w'.workers[key]? = some (.authorized record)) : Cleared key w'.log := by
  have hstep := step_worker h key
  rw [hw] at hstep
  generalize hx : some (Worker.authorized record) = x at hstep
  cases hstep with
  | same alive other =>
    refine cleared_step h ?_ (inv.authorized record hx.symm)
    rintro rfl
    exact other rfl
  | authorized working operation turn =>
    exact cleared_step h (by simp) (inv.released (resume_eq_proceed turn))
  | _ => simp at hx

/-- A failure that its operation denied leaves nothing uncleared. -/
theorem denied_step (hr : Reachable s w) (hu : UnsafeWrite s key node) (inv : DispatchInv w key)
    (h : w.step s a = some w') {attempt : String} {report : FailureReport}
    (hw : w'.workers[key]? = some (.failed attempt report)) (hi : report.invalidOutput = false)
    (hc : report.cause.map OperationError.certainty = some .notApplied) :
    Cleared key w'.log := by
  have hstep := step_worker h key
  rw [hw] at hstep
  generalize hx : some (Worker.failed attempt report) = x at hstep
  cases hstep with
  | same alive other =>
    refine cleared_step h ?_ (inv.denied attempt report hx.symm hi hc)
    rintro rfl
    exact other rfl
  -- the answer is logged in this very step, and denies the call of the attempt
  | @failed c n attempt' answer cancelled report' working operation worker settled =>
    obtain ⟨rfl, rfl⟩ := Worker.failed.inj (Option.some.inj hx)
    obtain rfl := Option.some.inj (operation.symm.trans hu.operation)
    have hdenies := settle_denies settled hu.effect hi hc
    obtain ⟨r, hinv⟩ := hr.worker worker
    have hlog := step_log h
    generalize hy : w'.log = y at hlog
    cases hlog with
    | same _ _ unanswered => exact absurd rfl (unanswered _ _ _)
    | answered worker' =>
      obtain rfl := Worker.called.inj (Option.some.inj (worker.symm.trans worker'))
      refine Held.clear (inv.standing r hinv.found (.inl hinv.running)) rfl ?_
      rintro invocation hattempt -
      rw [hinv.own] at hattempt
      change invocation.attemptId = attempt at hattempt
      rw [← hattempt]
      exact .denied hdenies
  -- an output too large is no denial
  | exceeded =>
    obtain ⟨-, rfl⟩ := Worker.failed.inj (Option.some.inj hx)
    nomatch hi
  | _ => simp at hx

theorem guarded_step (inv : DispatchInv w key) (h : w.step s a = some w') :
    Guarded (callOf key) (Clears key) w'.log := by
  rcases step_calls h key with ⟨hlog, -⟩ | ⟨e, hlog, he, -⟩ | ⟨n, record, -, -, hw, hlog⟩
  · rw [hlog]
    exact inv.guarded
  · rw [hlog]
    exact inv.guarded.other he
  · rw [hlog]
    exact inv.guarded.opened (inv.authorized record hw)

end Step

/-- Which calls of an unsafe write are uncleared. -/
theorem Reachable.dispatch (hr : Reachable s w) {node : PreparedOperation}
    (hu : UnsafeWrite s key node) : DispatchInv w key := by
  apply hr.invariant (P := fun w => DispatchInv w key)
  · intro w h
    obtain ⟨-, -, hworkers, -, hlog⟩ := h.fresh
    refine ⟨fun _ => ?_, fun r hr => ?_, fun record hw => ?_, fun attempt report hw => ?_, ?_⟩
    · rw [hlog]
      exact Held.nil
    · simp [h.initial.invocations] at hr
    · rw [hworkers, Std.ExtTreeMap.getElem?_empty] at hw
      nomatch hw
    · rw [hworkers, Std.ExtTreeMap.getElem?_empty] at hw
      nomatch hw
    · rw [hlog]
      exact Guarded.nil
  · intro w a w' hreach inv _ h
    exact ⟨released_step hreach hu inv h, fun r => standing_of_step hreach hu inv h,
      fun record => authorized_step inv h, fun attempt report => denied_step hreach hu inv h,
      guarded_step inv h⟩

/-! ## At most one uncertain call -/

/-- What the calls of an unsafe write satisfy. -/
structure DispatchLaw (s : Setup) (w : World) (key : String) : Prop where
  /-- Between two calls, the operation said that the first was not applied, or a committed
  report released it. -/
  cleared : ∀ newer second middle first older,
    w.log = newer ++ .called key second :: (middle ++ .called key first :: older) →
    ∃ e ∈ middle, Clears key first e
  /-- All calls carry the same name and the same effect key. -/
  shared : ∀ invocation, .called key invocation ∈ w.log →
    invocation.id = s.logical w.run.id key ∧
      invocation.effectKey = some (s.logical w.run.id key)
  /-- Each has an attempt identity of its own. -/
  distinct : (w.log.filterMap (callOf key)).Pairwise fun i i' => i.attemptId ≠ i'.attemptId

/-- An unsafe write is called again only after the call before was cleared. -/
theorem unsafe_write_once (hr : Reachable s w) {node : PreparedOperation}
    (hu : UnsafeWrite s key node) : DispatchLaw s w key where
  cleared newer second middle first older hlog :=
    (hr.dispatch hu).guarded newer _ middle _ older first second hlog (by simp [callOf])
      (by simp [callOf])
  shared invocation hmem := by
    obtain ⟨hid, -, heffect⟩ := (hr.calls key).carries node invocation hu.operation hmem
    rw [if_pos hu.effect] at heffect
    exact ⟨hid, heffect⟩
  distinct := (hr.calls key).distinct

/-- The lost attempt of the sample plan is called again after a report released it. -/
theorem unsafe_write_once_sample :
    ∃ w, (w.log.filterMap (callOf "pay")).map Invocation.attemptId = ["a2", "a1"] ∧
      DispatchLaw sampleSetup w "pay" := by
  obtain ⟨w₀, w, hr, hl, -, hw⟩ := @sample_run _ _ (fun _ => ())
    (fun w => (w.log.filterMap (callOf "pay")).map Invocation.attemptId) () ["a2", "a1"]
    sampleLost
    [sampleReconcile "c1" (.confirmNotApplied sampleEvidence true true), .take, .begin,
      .intend "pay" "a2" .null false, .call "pay"]
    (by simp [SampleActions, sampleLost, sampleReconcile]) (by decide +kernel)
    (by decide +kernel)
  exact ⟨w, hw, @unsafe_write_once _ _ _ (hr.leads hl) sampleNode ⟨rfl, rfl, rfl⟩⟩

end WorkflowForge.Run
