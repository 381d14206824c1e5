import WorkflowForge.Engine.Control

/-!
# Wait Steps

The life of a wait: its reservation together with the record of its node, the confirmation
of the operation that starts it, its expiry, its consumption, and its end when the node
returns an error. Each is decided on the whole run in one commit.

## Main results

- `reserve_eq_some`, `confirmStart_eq_some`, `consume_eq_some`, `expire_eq_some`,
  `endWait_eq_some`: what each transition requires and changes.
-/

namespace WorkflowForge.Engine

open Lib

/-! ## Errors -/

def waitExpired : ForgeError :=
  .new "wait.expired" "Signal reservation reached its deadline"

def waitCancelled : ForgeError :=
  .new "operation.cancelled" "Wait was cancelled"

def waitBudget : ForgeError :=
  .new "resource.limit" "Wait exceeds the run retention or reservation budget"

def deadlineReached : ForgeError :=
  .new "operation.timeout" "Run reached its deadline"

/-- A refused wait transition; invalid data belongs to the run as well. -/
def waitTransitionError (error : ForgeError) : StepError :=
  if error.code = "data.invalid" then .execution error else transitionError error

/-! ## Reservation -/

/-- A correlation has between 1 and 256 bytes. -/
def validCorrelation (s : String) : Bool :=
  s ≠ "" ∧ s.utf8ByteSize ≤ 256

/-- A wait without a start operation needs no confirmation. -/
def startsConfirmed : WaitKind → Bool
  | .timer => true
  | .signal _ _ startNode => startNode.isNone

/-- The wait a node reserves at time `now`, for at most `duration`. -/
def newWait (id key : String) (kind : WaitKind) (now duration deadline : UInt64) :
    WaitRecord where
  id := id
  node := key
  kind := kind
  createdAtMs := now
  deadlineAtMs := min (saturatingAdd now duration) deadline
  startConfirmed := startsConfirmed kind
  state := .open
  delivery := none

/-- The run with a wait and the record of its node. -/
def reservedRun (logical id key : String) (kind : WaitKind) (duration : UInt64) (input : Value)
    (now : UInt64) (run : RunSnapshot) : RunSnapshot :=
  (run.setWait id (newWait id key kind now duration run.deadlineAtMs)).setRecord key
    (controlRecord logical .pending input (.wait id))

/-- Reserves a wait, unless it was reserved before. -/
def reserve (limits : Limits) (logical id key : String) (kind : WaitKind) (duration : UInt64)
    (input : Value) (now : UInt64) (cancelled : Bool) (run : RunSnapshot) :
    Except ForgeError (Option RunSnapshot) :=
  match run.waits[id]? with
  | some old =>
    if old.node ≠ key ∨ old.kind ≠ kind then
      .error (.new "state.conflict" "Saved wait differs from its prepared instruction")
    else .ok none
  | none =>
    if run.cancelRequested ∨ cancelled then .error waitCancelled
    else if limits.waitsPerRun ≤ run.waits.size ∨ limits.activations ≤ run.invocations.size then
      .error waitBudget
    else if run.deadlineAtMs ≤ now then .error deadlineReached
    else if (run.invocations[key]?).isSome then
      .error (.new "state.conflict" "Wait activation has no reservation")
    else
      let next := reservedRun logical id key kind duration input now run
      if limits.runBytes < next.retainedDataBytes then .error waitBudget
      else .ok (some next)

/-! ## Confirmation and expiry -/

/-- Confirms that the start operation of an open wait has succeeded. -/
def confirmStart (id : String) (run : RunSnapshot) : Except ForgeError (Option RunSnapshot) :=
  match run.waits[id]? with
  | none => .error taskLost
  | some wait =>
    if wait.state ≠ .open ∨ wait.startConfirmed then .ok none
    else .ok (some (run.setWait id { wait with startConfirmed := true }))

/-- Expires an open wait nobody has signalled in time. -/
def expire (id : String) (now : UInt64) (run : RunSnapshot) :
    Except ForgeError (Option RunSnapshot) :=
  match run.waits[id]? with
  | none => .error taskLost
  | some wait =>
    if wait.state = .open ∧ wait.delivery.isNone ∧ wait.deadlineAtMs ≤ now then
      .ok (some (run.setWait id { wait with state := .expired }))
    else .ok none

/-! ## Consumption -/

/-- What an open wait has come to. -/
inductive Awaited where
  | pending
  | expired
  | ready (output : Value)
deriving DecidableEq

/-- What an open wait has come to at time `now`. A delivery waits for its confirmation. -/
def awaited (run : RunSnapshot) (wait : WaitRecord) (input : Value) (now : UInt64) : Awaited :=
  match wait.kind with
  | .timer => if wait.deadlineAtMs ≤ now then .ready input else .pending
  | .signal _ _ startNode =>
    match wait.delivery with
    | some delivery =>
      if wait.startConfirmed then
        .ready (WaitRecord.signalOutput startNode run delivery.command.payload)
      else .pending
    | none => if wait.deadlineAtMs ≤ now then .expired else .pending

/-- The run after a wait was consumed. -/
def consumedRun (key id : String) (wait : WaitRecord) (record : InvocationRecord)
    (output : Value) (run : RunSnapshot) : RunSnapshot :=
  (run.setWait id { wait with state := .consumed }).setRecord key (completedRecord output record)

/-- Consumes a wait that is ready, or expires one that is overdue. -/
def consume (limits : Limits) (key id : String) (input : Value) (now : UInt64)
    (cancelled : Bool) (run : RunSnapshot) : Except ForgeError (Option RunSnapshot) :=
  if run.cancelRequested ∨ cancelled then .error waitCancelled
  else if run.deadlineAtMs ≤ now then .error deadlineReached
  else
    match run.waits[id]? with
    | none => .error taskLost
    | some wait =>
      if wait.state ≠ .open then .ok none
      else
        match awaited run wait input now with
        | .pending => .ok none
        | .expired => .ok (some (run.setWait id { wait with state := .expired }))
        | .ready output =>
          match checkValue output limits.valueBytes limits.jsonDepth with
          | .error e => .error e
          | .ok _ =>
            match run.invocations[key]? with
            | none => .error taskLost
            | some record =>
              let next := consumedRun key id wait record output run
              if limits.runBytes < next.retainedDataBytes then .error waitBudget
              else .ok (some next)

/-! ## End -/

/-- The run after the node of a wait returned an error. Only an unknown effect leaves the
wait open. -/
def endedRun (key id : String) (wait : WaitRecord) (record : InvocationRecord)
    (error : ForgeError) (run : RunSnapshot) : RunSnapshot :=
  (run.setWait id
      (if error.code ≠ "effect.unknown" ∧ wait.state = .open then { wait with state := .closed }
        else wait)).setRecord key (erroredRecord error record)

/-- Ends a wait whose node returned an error, unless it was consumed before. -/
def endWait (key id : String) (error : ForgeError) (run : RunSnapshot) :
    Except ForgeError (Option RunSnapshot) :=
  match run.waits[id]? with
  | none => .ok none
  | some wait =>
    if wait.state = .consumed then .ok none
    else
      match run.invocations[key]? with
      | none => .error taskLost
      | some record => .ok (some (endedRun key id wait record error run))

/-! ## What each transition requires -/

variable {limits : Limits} {logical id key : String} {kind : WaitKind} {duration now : UInt64}
  {input : Value} {cancelled : Bool} {run next : RunSnapshot}

theorem reserve_eq_some
    (h : reserve limits logical id key kind duration input now cancelled run =
      .ok (some next)) :
    run.waits[id]? = none ∧ run.invocations[key]? = none ∧ run.cancelRequested = false ∧
      cancelled = false ∧ run.waits.size < limits.waitsPerRun ∧
      run.invocations.size < limits.activations ∧ now < run.deadlineAtMs ∧
      next = reservedRun logical id key kind duration input now run ∧
      next.retainedDataBytes ≤ limits.runBytes := by
  -- each check before the update fails, or finds the wait
  unfold reserve at h
  split at h
  · split at h <;> nomatch h
  next hnone =>
    split at h
    · nomatch h
    next hc =>
      split at h
      · nomatch h
      next hlimits =>
        split at h
        · nomatch h
        next hd =>
          split at h
          · nomatch h
          next hi =>
            dsimp only at h
            split at h
            · nomatch h
            next hb =>
              obtain rfl : reservedRun logical id key kind duration input now run = next := by
                simpa using h
              obtain ⟨h₁, h₂⟩ := not_or.mp hc
              obtain ⟨h₃, h₄⟩ := not_or.mp hlimits
              exact ⟨hnone, by simpa using hi, by simpa using h₁, by simpa using h₂,
                Nat.not_le.mp h₃, Nat.not_le.mp h₄, UInt64.not_le.mp hd, rfl, Nat.not_lt.mp hb⟩

theorem confirmStart_eq_some (h : confirmStart id run = .ok (some next)) :
    ∃ wait, run.waits[id]? = some wait ∧ wait.state = .open ∧ wait.startConfirmed = false ∧
      next = run.setWait id { wait with startConfirmed := true } := by
  unfold confirmStart at h
  split at h
  · nomatch h
  next wait hw =>
    split at h
    · nomatch h
    next hs =>
      obtain ⟨h₁, h₂⟩ := not_or.mp hs
      exact ⟨wait, hw, not_not.mp h₁, by simpa using h₂, by simpa using h.symm⟩

theorem expire_eq_some (h : expire id now run = .ok (some next)) :
    ∃ wait, run.waits[id]? = some wait ∧ wait.state = .open ∧ wait.delivery = none ∧
      wait.deadlineAtMs ≤ now ∧ next = run.setWait id { wait with state := .expired } := by
  unfold expire at h
  split at h
  · nomatch h
  next wait hw =>
    split at h
    next hs =>
      exact ⟨wait, hw, hs.1, by simpa using hs.2.1, hs.2.2, by simpa using h.symm⟩
    · nomatch h

/-- A consumption either expires an overdue signal or stores the output that is ready. -/
theorem consume_eq_some (h : consume limits key id input now cancelled run = .ok (some next)) :
    run.cancelRequested = false ∧ cancelled = false ∧ now < run.deadlineAtMs ∧
      ∃ wait, run.waits[id]? = some wait ∧ wait.state = .open ∧
        ((awaited run wait input now = .expired ∧
            next = run.setWait id { wait with state := .expired }) ∨
          ∃ output record, awaited run wait input now = .ready output ∧
            run.invocations[key]? = some record ∧
            next = consumedRun key id wait record output run ∧
            next.retainedDataBytes ≤ limits.runBytes) := by
  -- every check before the update answers nothing or fails
  unfold consume at h
  split at h
  · nomatch h
  next hc =>
    split at h
    · nomatch h
    next hd =>
      obtain ⟨h₁, h₂⟩ := not_or.mp hc
      refine ⟨by simpa using h₁, by simpa using h₂, UInt64.not_le.mp hd, ?_⟩
      split at h
      · nomatch h
      next wait hw =>
        split at h
        · nomatch h
        next hs =>
          refine ⟨wait, hw, not_not.mp hs, ?_⟩
          split at h
          · nomatch h
          next ha => exact .inl ⟨ha, by simpa using h.symm⟩
          next output ha =>
            split at h
            · nomatch h
            · split at h
              · nomatch h
              next record hr =>
                dsimp only at h
                split at h
                · nomatch h
                next hb =>
                  obtain rfl : consumedRun key id wait record output run = next := by
                    simpa using h
                  exact .inr ⟨output, record, ha, hr, rfl, Nat.not_lt.mp hb⟩

theorem endWait_eq_some {error : ForgeError} (h : endWait key id error run = .ok (some next)) :
    ∃ wait record, run.waits[id]? = some wait ∧ wait.state ≠ .consumed ∧
      run.invocations[key]? = some record ∧ next = endedRun key id wait record error run := by
  unfold endWait at h
  split at h
  · nomatch h
  next wait hw =>
    split at h
    · nomatch h
    next hs =>
      split at h
      · nomatch h
      next record hr => exact ⟨wait, record, hw, hs, hr, by simpa using h.symm⟩

theorem awaited_eq_expired {wait : WaitRecord} (h : awaited run wait input now = .expired) :
    (∃ correlation payloadSchema startNode,
      wait.kind = .signal correlation payloadSchema startNode) ∧
      wait.delivery = none ∧ wait.deadlineAtMs ≤ now := by
  unfold awaited at h
  split at h
  · split at h <;> cases h
  next correlation payloadSchema startNode hk =>
    split at h
    · split at h <;> cases h
    next hd =>
      split at h
      next hn => exact ⟨⟨correlation, payloadSchema, startNode, hk⟩, hd, hn⟩
      · cases h

/-- A ready wait is a timer whose time has come, or a signal that was delivered to a
confirmed start. -/
theorem awaited_eq_ready {wait : WaitRecord} {output : Value}
    (h : awaited run wait input now = .ready output) :
    (wait.kind = .timer ∧ wait.deadlineAtMs ≤ now ∧ output = input) ∨
      ∃ correlation payloadSchema startNode d,
        wait.kind = .signal correlation payloadSchema startNode ∧ wait.delivery = some d ∧
          wait.startConfirmed = true ∧
          output = WaitRecord.signalOutput startNode run d.command.payload := by
  unfold awaited at h
  split at h
  -- a timer that has elapsed hands on its input
  next hk =>
    split at h
    next hn => exact .inl ⟨hk, hn, by simpa using h.symm⟩
    · cases h
  -- a signal needs its delivery and a confirmed start
  next correlation payloadSchema startNode hk =>
    split at h
    next d hd =>
      split at h
      next hc =>
        exact .inr ⟨correlation, payloadSchema, startNode, d, hk, hd, hc, by simpa using h.symm⟩
      · cases h
    · split at h <;> cases h

end WorkflowForge.Engine
