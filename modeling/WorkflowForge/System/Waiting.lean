import WorkflowForge.System.Invariants

/-!
# Waits of a Run

What a transition of a run makes of each wait. A wait is reserved once, open and undelivered;
while it is open it is confirmed, delivered, consumed, expired or closed. The wait at a name
belongs to the node of that name.

## Main results

- `Edited.wait`, `step_wait`: what a transition, and a step, makes of one wait.
- `Reachable.waitShape`: what the wait at a name looks like.
-/

namespace WorkflowForge.Run

open Lib Engine

variable {s : Setup} {w w' : World} {a : Action} {key id : String}

/-! ## One wait -/

/-- What a transition makes of one wait of the run. -/
inductive WaitMove (s : Setup) (w : World) (id : String) : Action → Option WaitRecord → Prop where
  | same {a : Action} : WaitMove s w id a w.run.waits[id]?
  | reserved {key correlation : String} {input : Value} {cancelled : Bool} {kind : WaitKind}
      {duration : UInt64} (working : ∃ c, Working w c)
      (wait : s.wait key correlation = some (kind, duration))
      (name : id = s.waitName w.run.id key) (fresh : w.run.waits[id]? = none)
      (vacant : w.run.invocations[key]? = none) (uncancelled : w.run.cancelRequested = false)
      (inTime : w.now < w.run.deadlineAtMs) :
      WaitMove s w id (.reserve key correlation input cancelled)
        (some (newWait id key kind w.now duration w.run.deadlineAtMs))
  | confirmed {key startKey : String} {wait : WaitRecord} {started : InvocationRecord}
      (start : s.startOf key = some startKey)
      (succeeded : w.run.invocations[startKey]? = some started ∧ started.state = .succeeded)
      (name : id = s.waitName w.run.id key) (found : w.run.waits[id]? = some wait)
      (opened : wait.state = .open) :
      WaitMove s w id (.confirm key) (some { wait with startConfirmed := true })
  | delivered {c : Composition} {phase : Phase} {access : AccessContext}
      {received command : SignalCommand} {receipt : SignalReceipt} {next : RunSnapshot}
      {wait : WaitRecord} (checked : checkSignal c access received = .ok command)
      (named : received.runId = w.run.id) (target : command.waitId = id)
      (scope : w.run.scope = c.scope) (authorized : authorize c phase access .signal false = .ok ())
      (law : DeliverLaw c access.actor command w.now w.run receipt next wait) :
      WaitMove s w id (.signal phase access received)
        (some { wait with delivery := some ⟨command, access.actor, receipt⟩ })
  | consumed {key : String} {cancelled : Bool} {wait : WaitRecord} {record : InvocationRecord}
      {output : Value} (working : ∃ c, Working w c) (name : id = s.waitName w.run.id key)
      (reserved : w.run.invocations[key]? = some record)
      (found : w.run.waits[id]? = some wait) (opened : wait.state = .open)
      (awaited : awaited w.run wait record.input w.now = .ready output)
      (uncancelled : w.run.cancelRequested = false) (inTime : w.now < w.run.deadlineAtMs) :
      WaitMove s w id (.consume key cancelled) (some { wait with state := .consumed })
  | expired {key : String} {a : Action} {wait : WaitRecord}
      (name : id = s.waitName w.run.id key)
      (signal : (s.startOf key).isSome = true ∨ ∃ correlation payloadSchema startNode,
        wait.kind = .signal correlation payloadSchema startNode)
      (found : w.run.waits[id]? = some wait) (opened : wait.state = .open)
      (undelivered : wait.delivery = none) (overdue : wait.deadlineAtMs ≤ w.now) :
      WaitMove s w id a (some { wait with state := .expired })
  | closed {a : Action} {wait : WaitRecord} (found : w.run.waits[id]? = some wait)
      (opened : wait.state = .open) : WaitMove s w id a (some { wait with state := .closed })

/-- Closing every wait closes each wait that is open. -/
theorem WaitMove.ofClosed : WaitMove s w id a (w.run.closeWaits).waits[id]? := by
  simp only [RunSnapshot.closeWaits, BTreeMap.get_mapValues]
  cases hw : w.run.waits[id]? with
  | none =>
    rw [Option.map_none, ← hw]
    exact .same
  | some wait =>
    rw [Option.map_some]
    unfold RunSnapshot.closeWait
    split
    next hopen => exact .closed hw hopen
    · rw [← hw]
      exact .same

/-- A wait edit changes one wait and leaves the others. -/
theorem WaitMove.ofSet {node : String} {wait : WaitRecord}
    (h : WaitMove s w node a (some wait)) (id : String) :
    WaitMove s w id a (w.run.setWait node wait).waits[id]? := by
  rw [RunSnapshot.setWait_get]
  split
  next heq =>
    subst heq
    exact h
  next => exact .same

theorem WaitEdit.wait {c : Composition} {next : RunSnapshot} (working : Working w c)
    (h : WaitEdit s w c key a next) (id : String) : WaitMove s w id a next.waits[id]? := by
  cases h with
  | reserve wait fresh vacant uncancelled inTime =>
    exact WaitMove.ofSet (.reserved ⟨c, working⟩ wait rfl fresh vacant uncancelled inTime) id
  | confirm start succeeded found opened =>
    exact WaitMove.ofSet (.confirmed start succeeded rfl found opened) id
  | expire start found opened undelivered overdue =>
    have hsome : (s.startOf key).isSome = true := by
      rw [start]
      rfl
    exact WaitMove.ofSet (.expired rfl (.inl hsome) found opened undelivered overdue) id
  | overdue node reserved found opened awaited =>
    obtain ⟨hsignal, hnone, hdue⟩ := awaited_eq_expired awaited
    exact WaitMove.ofSet (.expired rfl (.inr hsignal) found opened hnone hdue) id
  | consume node reserved found opened awaited uncancelled inTime =>
    exact WaitMove.ofSet
      (.consumed ⟨c, working⟩ rfl reserved found opened awaited uncancelled inTime) id
  -- the end of a node closes its wait where that is open
  | @endWait error wait record node found unconsumed reserved =>
    refine WaitMove.ofSet (a := .endWait key error) ?_ id
    split
    next hopen => exact .closed found hopen.2
    · rw [← found]
      exact .same

/-- A resolution changes no wait, or closes all of them. -/
theorem ReconcileLaw.wait {c : Composition} {access : AccessContext} {command : ReconcileCommand}
    {receipt : ReconcileReceipt} {next : RunSnapshot} {node : String} {old : InvocationRecord}
    {resolved : Resolved} {revision : UInt64}
    (law : ReconcileLaw c access command w.now w.run receipt next node old resolved revision)
    (id : String) : WaitMove s w id a next.waits[id]? := by
  have hnext : next.waits = resolved.1.waits := by
    have h := congrArg (fun x : ReconcileReceipt × RunSnapshot => x.2.waits) law.result
    simp only [audited, unblock] at h
    rw [h]
    split <;> rfl
  rw [hnext]
  cases law.resolution with
  | stopped => exact .ofClosed
  | _ => exact .same

/-- What a transition makes of one wait. -/
theorem Edited.wait {edited : RunSnapshot} (h : Edited s w a edited) (id : String) :
    WaitMove s w id a edited.waits[id]? := by
  cases h with
  | recovered => exact .same
  | bootBlocked => exact .same
  | blocked => exact .same
  | begun =>
    have hkept : (beginRun w.run).waits = w.run.waits := by
      unfold beginRun
      split <;> rfl
    rw [hkept]
    exact .same
  | suspended =>
    have hkept : (suspendRun w.run).waits = w.run.waits := by
      unfold suspendRun
      split <;> rfl
    rw [hkept]
    exact .same
  -- the end of a run closes its waits, and a blocked run keeps them
  | @finished c error cancelled =>
    by_cases hr : awaitsResolution (markedRun w.run).invocations = true
    · rw [finishError_blocked hr]
      exact .same
    · rw [finishError_ended (by simpa using hr)]
      exact .ofClosed
  | concluded => exact .ofClosed
  | cancelled => exact .ofClosed
  -- a delivery changes the wait it names
  | signalled running authorized checked named scope law =>
    have hdelivered := WaitMove.delivered (s := s) checked named rfl scope authorized law
    exact WaitMove.ofSet hdelivered id
  | observed => exact .same
  | reconciled running named law => exact ReconcileLaw.wait law id
  | operation => exact .same
  | control => exact .same
  -- the stop of a group closes the open waits below it
  | @stopped c node frame record =>
    simp only [stoppedRun, BTreeMap.get_mapValues]
    cases hw : w.run.waits[id]? with
    | none =>
      rw [Option.map_none, ← hw]
      exact .same
    | some wait =>
      rw [Option.map_some]
      unfold closeBelow
      split
      next hopen => exact .closed hw hopen.1
      · rw [← hw]
        exact .same
  | waited working live edit => exact edit.wait working id

/-- What a step makes of one wait. -/
theorem step_wait (h : w.step s a = some w') (id : String) :
    WaitMove s w id a w'.run.waits[id]? := by
  rcases step_run h with ⟨hrun, -⟩ | ⟨edited, revision, hedit, -, hrun, -⟩
  · rw [hrun]
    exact .same
  · rw [hrun]
    exact hedit.wait id

/-- A move of a wait changes its state, its delivery and its confirmation at most. -/
theorem WaitMove.identity {old new : WaitRecord} {x : Option WaitRecord}
    (h : WaitMove s w id a x) (hx : x = some new) (hold : w.run.waits[id]? = some old) :
    ∃ state delivery confirmed, (old.startConfirmed = true → confirmed = true) ∧
      new = { old with state := state, delivery := delivery, startConfirmed := confirmed } := by
  cases h with
  | same =>
    obtain rfl := Option.some.inj (hold.symm.trans hx)
    exact ⟨_, _, _, fun h => h, rfl⟩
  | reserved _ _ _ fresh =>
    rw [hold] at fresh
    cases fresh
  | confirmed _ _ _ found =>
    obtain rfl := Option.some.inj (hold.symm.trans found)
    obtain rfl := Option.some.inj hx
    exact ⟨_, _, _, fun _ => rfl, rfl⟩
  -- the wait that a signal is for
  | delivered _ _ target _ _ law =>
    obtain rfl := Option.some.inj (hold.symm.trans (target ▸ law.found))
    obtain rfl := Option.some.inj hx
    exact ⟨_, _, _, fun h => h, rfl⟩
  | consumed _ _ _ found =>
    obtain rfl := Option.some.inj (hold.symm.trans found)
    obtain rfl := Option.some.inj hx
    exact ⟨_, _, _, fun h => h, rfl⟩
  | expired _ _ found =>
    obtain rfl := Option.some.inj (hold.symm.trans found)
    obtain rfl := Option.some.inj hx
    exact ⟨_, _, _, fun h => h, rfl⟩
  | closed found =>
    obtain rfl := Option.some.inj (hold.symm.trans found)
    obtain rfl := Option.some.inj hx
    exact ⟨_, _, _, fun h => h, rfl⟩

/-! ## The wait at a name -/

/-- The wait at a name belongs to the node of that name, and awaits what the node does. -/
structure WaitShape (s : Setup) (w : World) (id : String) (wait : WaitRecord) : Prop where
  name : id = s.waitName w.run.id wait.node
  awaits : ∃ correlation duration, s.wait wait.node correlation = some (wait.kind, duration) ∧
    wait.deadlineAtMs = min (saturatingAdd wait.createdAtMs duration) w.run.deadlineAtMs
  created : wait.createdAtMs ≤ w.now
  inTime : wait.createdAtMs < w.run.deadlineAtMs
  confirmed : startsConfirmed wait.kind = true → wait.startConfirmed = true

/-- A wait keeps its shape while its identity is kept. -/
theorem WaitShape.keep {old : WaitRecord} (h : WaitShape s w id old) {state : WaitState}
    {delivery : Option SignalDelivery} {confirmed : Bool}
    (hconfirmed : old.startConfirmed = true → confirmed = true) (hrun : w'.run.id = w.run.id)
    (hdeadline : w'.run.deadlineAtMs = w.run.deadlineAtMs) (hnow : w.now ≤ w'.now) :
    WaitShape s w' id
      { old with state := state, delivery := delivery, startConfirmed := confirmed } := by
  obtain ⟨correlation, duration, hwait, hlimit⟩ := h.awaits
  refine ⟨?_, ⟨correlation, duration, hwait, ?_⟩, UInt64.le_trans h.created hnow, ?_, ?_⟩
  · rw [hrun]
    exact h.name
  · rw [hdeadline]
    exact hlimit
  · rw [hdeadline]
    exact h.inTime
  · exact fun hk => hconfirmed (h.confirmed hk)

/-- Every wait belongs to the node of its name. -/
theorem Reachable.waitShape (hr : Reachable s w) {wait : WaitRecord}
    (h : w.run.waits[id]? = some wait) : WaitShape s w id wait := by
  have hall : ∀ (id : String) (wait : WaitRecord), w.run.waits[id]? = some wait →
      WaitShape s w id wait := by
    apply hr.invariant (P := fun w => ∀ (id : String) (wait : WaitRecord),
      w.run.waits[id]? = some wait → WaitShape s w id wait)
    · intro w h id wait hw
      simp [h.initial.waits] at hw
    · intro w a w' hreach inv _ h id wait hw
      have hext := hreach.step_extends h
      cases hold : w.run.waits[id]? with
      | some old =>
        -- a wait that was there is kept in its place
        obtain ⟨state, delivery, confirmed, hconfirmed, rfl⟩ := (step_wait h id).identity hw hold
        exact (inv id old hold).keep hconfirmed hext.id.symm hext.deadline.symm (step_now h)
      | none =>
        have hmove := step_wait h id
        rw [hw] at hmove
        generalize hx : some wait = x at hmove
        cases hmove with
        | same =>
          rw [hold] at hx
          nomatch hx
        | @reserved key correlation input cancelled kind duration working hwait name =>
          obtain rfl := Option.some.inj hx
          refine ⟨?_, ⟨correlation, duration, hwait, ?_⟩, step_now h, ?_, fun hk => hk⟩
          · rw [← hext.id]
            exact name
          · rw [← hext.deadline]
            rfl
          · rw [← hext.deadline]
            assumption
        | confirmed _ _ _ found =>
          rw [hold] at found
          nomatch found
        | delivered _ _ target _ _ law =>
          have hfound := law.found
          rw [target, hold] at hfound
          nomatch hfound
        | consumed _ _ _ found =>
          rw [hold] at found
          nomatch found
        | expired _ _ found =>
          rw [hold] at found
          nomatch found
        | closed found =>
          rw [hold] at found
          nomatch found
  exact hall id wait h

end WorkflowForge.Run
