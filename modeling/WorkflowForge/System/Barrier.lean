import WorkflowForge.System.Dispatch
import WorkflowForge.System.Waiting

/-!
# Cancellation

A committed cancellation is a barrier: from then on the run authorizes no attempt, reserves
no wait, accepts no delivery, and does not succeed. And no operation is called before the
intent of its attempt is committed, which was decided before the deadline.

## Main results

- `Reachable.step_cancelled`: what a step leaves of a cancelled run.
- `Reachable.admitted`: every call follows its committed intent.
- `cancellation_barrier`: both, over whole runs.
-/

namespace WorkflowForge.Run

open Lib Engine

variable {s : Setup} {w w' : World} {a : Action} {key : String}

/-! ## Outputs -/

/-- A live run has no output, and a cancelled one never gets one. -/
structure OutputInv (run : RunSnapshot) : Prop where
  live : run.state.isTerminal = false → run.output = none
  cancelled : run.cancelRequested = true → run.output = none ∧ run.state ≠ .succeeded

/-- A resolution leaves the output, and the run does not succeed by it. -/
theorem ReconcileLaw.output {c : Composition} {access : AccessContext} {command : ReconcileCommand}
    {now : UInt64} {run next : RunSnapshot} {receipt : ReconcileReceipt} {node : String}
    {old : InvocationRecord} {resolved : Resolved} {revision : UInt64}
    (law : ReconcileLaw c access command now run receipt next node old resolved revision) :
    next.output = run.output ∧ next.state ≠ .succeeded ∧
      next.cancelRequested = run.cancelRequested := by
  have hnext : next = (audited command access.actor now revision resolved).2 :=
    congrArg Prod.snd law.result
  have hresolved : resolved.1.output = run.output ∧ resolved.1.state ≠ .succeeded ∧
      resolved.1.cancelRequested = run.cancelRequested := by
    cases law.resolution with
    -- a run that stops tracking is cancelled or failed
    | stopped =>
      refine ⟨rfl, ?_, rfl⟩
      change (if run.cancelRequested = true then RunState.cancelled else .failed) ≠ _
      split <;> simp
    | _ => exact ⟨rfl, by simp [law.blocked], rfl⟩
  rw [hnext]
  simp only [audited, unblock]
  -- unblocking may set the state once more
  split
  · refine ⟨hresolved.1, ?_, hresolved.2.2⟩
    change (if resolved.1.cancelRequested = true then RunState.cancelling else .accepted) ≠ _
    split <;> simp
  · exact hresolved

/-- A transition leaves the output, and the run does not succeed by it, unless it concludes
the run. -/
theorem Edited.output {edited : RunSnapshot} (h : Edited s w a edited) :
    (edited.output = w.run.output ∧ (edited.state = .succeeded → w.run.state = .succeeded) ∧
      (edited.state.isTerminal = false → w.run.state.isTerminal = false) ∧
      (edited.cancelRequested = true → w.run.cancelRequested = true ∨
        w.run.state.isTerminal = false)) ∨
    ∃ (c : Composition) (value : Value) (later : UInt64) (cancelled : Bool),
      w.run.state.isTerminal = false ∧ edited =
        endedWith (outcome c.limits value w.now cancelled w.run w.run.head) later w.run := by
  cases h with
  -- these edits set the state, but not to succeeded
  | recovered down blocked =>
    have hblocked : w.run.state = .blocked := by
      simp only [recoveryBlocked, decide_eq_true_eq] at blocked
      exact blocked.1
    refine .inl ⟨rfl, ?_, fun _ => by rw [hblocked]; rfl, .inl⟩
    change (if w.run.cancelRequested = true then RunState.cancelling else .running) = _ → _
    split <;> simp
  | bootBlocked down live => exact .inl ⟨rfl, by simp [blockRun], fun _ => live, .inl⟩
  | blocked process idle live => exact .inl ⟨rfl, by simp [blockRun], fun _ => live, .inl⟩
  -- a resumed body keeps a state of its own
  | begun process taken live =>
    unfold beginRun
    split
    · exact .inl ⟨rfl, fun h => h, fun h => h, .inl⟩
    · exact .inl ⟨rfl, by simp, fun _ => live, .inl⟩
  | suspended working quiet live =>
    unfold suspendRun
    split
    · exact .inl ⟨rfl, fun h => h, fun h => h, .inl⟩
    · exact .inl ⟨rfl, by simp, fun _ => live, .inl⟩
  -- an error ends the run without output, or blocks it
  | @finished c error cancelled working quiet live =>
    by_cases hr : awaitsResolution (markedRun w.run).invocations = true
    · rw [finishError_blocked hr]
      exact .inl ⟨rfl, by simp [blockedByEffect], fun _ => live, .inl⟩
    · rw [finishError_ended (by simpa using hr)]
      refine .inl ⟨rfl, ?_, fun _ => live, .inl⟩
      change (if cancelled = true then RunState.cancelled else .failed) = _ → _
      split <;> simp
  | concluded working quiet resolved live => exact .inr ⟨_, _, _, _, live, rfl⟩
  | cancelled running live =>
    exact .inl ⟨rfl, by simp [cancelRun], fun _ => live, fun _ => .inr live⟩
  -- a delivery wakes a waiting run
  | signalled running authorized checked named scope law =>
    refine .inl ⟨rfl, ?_, fun _ => law.live, .inl⟩
    change (if w.run.state = .waiting then RunState.running else w.run.state) = _ → _
    split
    · simp
    · exact fun h => h
  | observed => exact .inl ⟨rfl, fun h => h, fun h => h, .inl⟩
  -- a report needs a blocked run
  | reconciled running named law =>
    have hlive : w.run.state.isTerminal = false := by
      rw [law.blocked]
      rfl
    obtain ⟨houtput, hstate, hcancel⟩ := ReconcileLaw.output law
    exact .inl ⟨houtput, fun h => absurd h hstate, fun _ => hlive, fun h => .inl (hcancel ▸ h)⟩
  -- the rest edits records and waits
  | operation live => exact .inl ⟨rfl, fun h => h, fun h => h, .inl⟩
  | control working live => exact .inl ⟨rfl, fun h => h, fun h => h, .inl⟩
  | stopped working live => exact .inl ⟨rfl, fun h => h, fun h => h, .inl⟩
  | waited working live edit =>
    cases edit with
    | _ => exact .inl ⟨rfl, fun h => h, fun h => h, .inl⟩

theorem OutputInv.edit {edited : RunSnapshot} (inv : OutputInv w.run) (h : Edited s w a edited) :
    OutputInv edited := by
  -- an edit keeps the output, or ends the run with its value
  rcases h.output with ⟨houtput, hstate, hlive, hcancel⟩ | ⟨c, value, later, cancelled, hlive, rfl⟩
  · refine ⟨fun hl => ?_, fun hc => ?_⟩
    · rw [houtput]
      exact inv.live (hlive hl)
    · rw [houtput]
      rcases hcancel hc with hc | hl
      · exact ⟨(inv.cancelled hc).1, fun hs => (inv.cancelled hc).2 (hstate hs)⟩
      · refine ⟨inv.live hl, fun hs => ?_⟩
        rw [hstate hs] at hl
        nomatch hl
  · refine ⟨fun hl => ?_, fun hc => ?_⟩
    · rw [show (endedWith (outcome c.limits value w.now cancelled w.run w.run.head) later
        w.run).state.isTerminal = true from outcome_isTerminal] at hl
      nomatch hl
    · -- a cancelled run that returned a value is cancelled
      have hc : w.run.cancelRequested = true := hc
      have houtcome : outcome c.limits value w.now cancelled w.run w.run.head =
          ⟨.cancelled, w.run.output, some runCancelled⟩ := by
        rw [outcome, if_pos (.inl hc)]
      rw [houtcome]
      exact ⟨inv.live hlive, by simp [endedWith]⟩

/-- A live run has no output, and a cancelled one never gets one. -/
theorem Reachable.output (hr : Reachable s w) : OutputInv w.run := by
  apply hr.invariant (P := fun w => OutputInv w.run)
  · intro w h
    refine ⟨fun _ => h.initial.output, fun hc => ?_⟩
    rw [h.initial.cancel] at hc
    nomatch hc
  · intro w a w' _ inv _ h
    rcases step_run h with ⟨hrun, -⟩ | ⟨edited, revision, hedit, -, hrun, -⟩
    · rw [hrun]
      exact inv
    · obtain ⟨hlive, hcancelled⟩ := inv.edit hedit
      rw [hrun]
      exact ⟨hlive, hcancelled⟩

/-! ## The barrier -/

/-- What stays of a cancelled run. -/
structure CancelledLaw (s : Setup) (w w' : World) : Prop where
  cancelled : w'.run.cancelRequested = true
  /-- No attempt is intended: an operation keeps the attempt it has, if any. -/
  attempts : ∀ key node, s.operation key = some node →
    (w'.record key).map InvocationRecord.attemptId = (w.record key).map InvocationRecord.attemptId
  /-- No wait is reserved. -/
  waits : ∀ id : String, w.run.waits[id]? = none → w'.run.waits[id]? = none
  /-- No wait gets a delivery. -/
  deliveries : ∀ (id : String) (wait' : WaitRecord), w'.run.waits[id]? = some wait' →
    ∃ wait, w.run.waits[id]? = some wait ∧ wait'.delivery = wait.delivery
  /-- The run does not succeed. -/
  unsuccessful : w'.run.state ≠ .succeeded ∧ w'.run.output = none

theorem RecordStep.attempt {x : Option InvocationRecord} (h : RecordStep s w a key x)
    (hc : w.run.cancelRequested = true) {node : PreparedOperation}
    (hn : s.operation key = some node) :
    x.map InvocationRecord.attemptId =
      (w.run.invocations[key]?).map InvocationRecord.attemptId := by
  cases h with
  | same => rfl
  | operation edit =>
    cases edit with
    -- an intent is not admitted once the run is cancelled
    | intend working operation alone unused turn admitted uncancelled =>
      rw [hc] at uncancelled
      nomatch uncancelled
    | succeed working operation worker found =>
      rw [found]
      rfl
    | fail reported found =>
      rw [found]
      rfl
  | other edit =>
    rw [edit.node] at hn
    nomatch hn
  -- the end of a run marks attempts without changing them
  | @marked old error cancelled action found =>
    rw [found]
    rcases markUnknown_cases old with ⟨-, heq⟩ | ⟨-, heq⟩ | ⟨-, -, heq⟩ <;> simp [heq]
  | resolved action running found isNamed blocked edit =>
    rw [found]
    cases edit <;> rfl

/-- A step of a cancelled run authorizes, reserves and delivers nothing. -/
theorem Reachable.step_cancelled (hr : Reachable s w) (hr' : Reachable s w')
    (h : w.step s a = some w') (hc : w.run.cancelRequested = true) : CancelledLaw s w w' := by
  have hc' : w'.run.cancelRequested = true := (hr.step_extends h).cancel hc
  -- one wait: it does not appear, and no delivery comes to it
  have hmove : ∀ (id : String) (x : Option WaitRecord), WaitMove s w id a x →
      (w.run.waits[id]? = none → x = none) ∧ ∀ wait', x = some wait' →
        ∃ wait, w.run.waits[id]? = some wait ∧ wait'.delivery = wait.delivery := by
    intro id x hmove
    -- an edit that keeps the delivery of a wait
    have hset : ∀ {wait wait' : WaitRecord}, w.run.waits[id]? = some wait →
        wait'.delivery = wait.delivery →
        (w.run.waits[id]? = none → some wait' = none) ∧ ∀ wait'', some wait' = some wait'' →
          ∃ wait, w.run.waits[id]? = some wait ∧ wait''.delivery = wait.delivery := by
      intro wait wait' hfound hd
      refine ⟨fun hnone => ?_, ?_⟩
      · rw [hfound] at hnone
        nomatch hnone
      · rintro _ ⟨⟩
        exact ⟨wait, hfound, hd⟩
    cases hmove with
    | same => exact ⟨fun h => h, fun wait hw => ⟨wait, hw, rfl⟩⟩
    | reserved working wait name fresh vacant uncancelled =>
      rw [hc] at uncancelled
      nomatch uncancelled
    | confirmed start succeeded name found => exact hset found rfl
    -- a signal is not accepted by a cancelled run
    | delivered checked named target scope authorized law =>
      have huncancelled := law.uncancelled
      rw [hc] at huncancelled
      nomatch huncancelled
    | consumed working name reserved found => exact hset found rfl
    | expired name signal found => exact hset found rfl
    | closed found => exact hset found rfl
  -- records, waits and the outcome, each by its law
  refine ⟨hc', fun key node hn => (step_record h key).attempt hc hn,
    fun id => (hmove id _ (step_wait h id)).1, fun id => (hmove id _ (step_wait h id)).2, ?_⟩
  obtain ⟨houtput, hstate⟩ := hr'.output.cancelled hc'
  exact ⟨hstate, houtput⟩

theorem CancelledLaw.trans {w₁ w₂ w₃ : World} (h : CancelledLaw s w₁ w₂)
    (h' : CancelledLaw s w₂ w₃) : CancelledLaw s w₁ w₃ where
  cancelled := h'.cancelled
  attempts key node hn := (h'.attempts key node hn).trans (h.attempts key node hn)
  waits id hw := h'.waits id (h.waits id hw)
  deliveries id wait hw := by
    obtain ⟨wait₂, hw₂, hd₂⟩ := h'.deliveries id wait hw
    obtain ⟨wait₁, hw₁, hd₁⟩ := h.deliveries id wait₂ hw₂
    exact ⟨wait₁, hw₁, hd₂.trans hd₁⟩
  unsuccessful := h'.unsuccessful

/-- From a cancelled run on, nothing is authorized, reserved or delivered. -/
theorem Reachable.cancelled (hr : Reachable s w) (hc : w.run.cancelRequested = true)
    (hl : (system s).Leads (Admissible s) w w') : CancelledLaw s w w' := by
  have hlaw : Reachable s w ∧ w.run.cancelRequested = true →
      CancelledLaw s w w' ∧ Reachable s w' := by
    apply hl.of_step (R := fun w w' => Reachable s w ∧ w.run.cancelRequested = true →
      CancelledLaw s w w' ∧ Reachable s w') hr
    · rintro w ⟨hr, hc⟩
      obtain ⟨houtput, hstate⟩ := hr.output.cancelled hc
      exact ⟨⟨hc, fun _ _ _ => rfl, fun _ h => h, fun _ wait hw => ⟨wait, hw, rfl⟩, hstate,
        houtput⟩, hr⟩
    · intro w w' w'' h h' hw
      obtain ⟨hlaw, hr'⟩ := h hw
      obtain ⟨hlaw', hr''⟩ := h' ⟨hr', hlaw.cancelled⟩
      exact ⟨hlaw.trans hlaw', hr''⟩
    · rintro w a w' - ha h ⟨hr, hc⟩
      exact ⟨hr.step_cancelled (hr.step ha h) h hc, hr.step ha h⟩
  exact (hlaw ⟨hr, hc⟩).1

/-! ## Calls follow their intents -/

/-- An earlier step committed the intent of an attempt, before the deadline of the run and
before any call of that attempt. -/
def Admitted (s : Setup) (w : World) (key attempt : String) : Prop :=
  ∃ before after input cancelled r, Reachable s before ∧
    before.step s (.intend key attempt input cancelled) = some after ∧
    (system s).Leads (Admissible s) after w ∧
    before.run.cancelRequested = false ∧ before.now < before.run.deadlineAtMs ∧
    after.older = before.run :: before.older ∧
    after.run.invocations[key]? = some r ∧ r.state = .running ∧ r.attemptId = attempt ∧
    ∀ invocation, .called key invocation ∈ after.log → invocation.attemptId ≠ attempt

theorem Admitted.leads {attempt : String} (h : Admitted s w key attempt)
    (hl : (system s).Leads (Admissible s) w w') : Admitted s w' key attempt := by
  obtain ⟨before, after, input, cancelled, r, hr, hstep, hlead, hrest⟩ := h
  exact ⟨before, after, input, cancelled, r, hr, hstep, hlead.trans hl, hrest⟩

/-- An intent that authorizes a worker was committed. -/
theorem Reachable.intended (hr : Reachable s w) {attempt : String} {input : Value}
    {cancelled : Bool} (h : w.step s (.intend key attempt input cancelled) = some w')
    {c : Composition} {node : PreparedOperation} {r : InvocationRecord} (working : Working w c)
    (operation : s.operation key = some node) (alone : w.workers[key]? = none)
    (unused : attempt ∉ w.issued) (found : w'.run.invocations[key]? = some r)
    (own : r.attemptId = attempt) (running : r.state = .running) :
    Admitted s w' key attempt := by
  -- an intent is no call
  have hlog : w'.log = w.log := by
    have hlog := step_log h
    generalize w'.log = x at hlog
    cases hlog with
    | same => rfl
  have hlive : w.run.state.isTerminal = false := (hr.phase.working (by simp [working.2])).2
  rcases step_run h with ⟨hrun, -⟩ | ⟨edited, revision, hedit, -, hrun, holder⟩
  · -- without a commit the record would be open, and an open record has a worker
    rw [hrun] at found
    have hsome := hr.owned.working hlive c working.1 key node r operation found running
    rw [alone] at hsome
    nomatch hsome
  -- the edit was made under the checks of an intent
  · have hchecked : w.run.cancelRequested = false ∧ w.now < w.run.deadlineAtMs := by
      cases hedit with
      | operation live edit =>
        cases edit with
        | intend _ _ _ _ _ _ uncancelled inTime => exact ⟨uncancelled, inTime⟩
        | fail reported => nomatch reported
      | control _ _ _ edit => nomatch edit
      | waited _ _ edit => nomatch edit
    refine ⟨w, w', input, cancelled, r, hr, h, .refl _, hchecked.1, hchecked.2, holder, found,
      running, own, ?_⟩
    rintro invocation hmem rfl
    rw [hlog] at hmem
    exact unused ((hr.calls key).carries node invocation operation hmem).2.1

/-- What a worker is authorized to call, and what was called, was admitted. -/
structure AdmittedInv (s : Setup) (w : World) : Prop where
  authorized : ∀ (key : String) (record : InvocationRecord),
    w.workers[key]? = some (.authorized record) → Admitted s w key record.attemptId
  called : ∀ (key : String) (invocation : Invocation), .called key invocation ∈ w.log →
    Admitted s w key invocation.attemptId

theorem Reachable.admitted (hr : Reachable s w) : AdmittedInv s w := by
  apply hr.invariant
  · intro w h
    obtain ⟨-, -, hworkers, -, hlog⟩ := h.fresh
    refine ⟨fun key record hw => ?_, fun key invocation hmem => ?_⟩
    · rw [hworkers, Std.ExtTreeMap.getElem?_empty] at hw
      nomatch hw
    · rw [hlog] at hmem
      nomatch hmem
  · intro w a w' hreach inv ha h
    have hlead : (system s).Leads (Admissible s) w w' := (System.Leads.refl w).step ha h
    refine ⟨fun key record hw => ?_, fun key invocation hmem => ?_⟩
    -- an authorized worker was admitted by the intent that authorized it
    · have hstep := step_worker h key
      rw [hw] at hstep
      generalize hx : some (Worker.authorized record) = x at hstep
      cases hstep with
      | same => exact (inv.authorized key record hx.symm).leads hlead
      | authorized working operation turn alone unused found own running =>
        obtain rfl := Worker.authorized.inj (Option.some.inj hx)
        rw [own]
        exact hreach.intended h working operation alone unused found own running
      | _ => simp at hx
    -- a call is made by an authorized worker, and a recorded one was admitted before
    · rcases step_calls h key with ⟨hlog, -⟩ | ⟨e, hlog, he, -⟩ | ⟨node, record, -, -, hw, hlog⟩
      · rw [hlog] at hmem
        exact (inv.called key invocation hmem).leads hlead
      · rw [hlog] at hmem
        exact (inv.called key invocation (mem_of_callOf_none he hmem)).leads hlead
      · rw [hlog] at hmem
        rcases List.mem_cons.mp hmem with heq | hmem
        · obtain ⟨-, rfl⟩ := Event.called.inj heq
          exact (inv.authorized key record hw).leads hlead
        · exact (inv.called key invocation hmem).leads hlead

/-! ## The law -/

/-- What a cancellation and the deadline guarantee of a run. -/
structure BarrierLaw (s : Setup) (w : World) : Prop where
  cancelled : w.run.cancelRequested = true → ∀ w', (system s).Leads (Admissible s) w w' →
    CancelledLaw s w w'
  admitted : ∀ key invocation, .called key invocation ∈ w.log →
    Admitted s w key invocation.attemptId

/-- After a cancellation nothing new is begun, and every call follows its intent. -/
theorem cancellation_barrier (hr : Reachable s w) : BarrierLaw s w where
  cancelled hc _ hl := hr.cancelled hc hl
  admitted := hr.admitted.called

/-- The sample run, cancelled after its first call. -/
theorem cancellation_barrier_sample :
    ∃ w, w.run.cancelRequested = true ∧
      (w.log.filterMap (callOf "pay")).map Invocation.attemptId = ["a1"] ∧
      BarrierLaw sampleSetup w := by
  obtain ⟨w₀, w, hr, hl, -, hw⟩ := @sample_run _ _ (fun _ => ())
    (fun w => (w.run.cancelRequested, (w.log.filterMap (callOf "pay")).map Invocation.attemptId))
    () (true, ["a1"]) [.take, .begin, .intend "pay" "a1" .null false, .call "pay"] [.cancel]
    (by simp [SampleActions]) (by decide +kernel) (by decide +kernel)
  obtain ⟨hc, hcalls⟩ := Prod.mk.inj hw
  exact ⟨w, hc, hcalls, cancellation_barrier (hr.leads hl)⟩

end WorkflowForge.Run
