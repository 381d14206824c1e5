import WorkflowForge.System.Barrier

/-!
# What a Run Shows

A caller sees a run through its state, its value and its error. The three fit together in
every reachable run: only a succeeded run has a value, only a run that is over has an end,
and a run that is blocked or that failed says why. So a result is never answered too early,
and an owned execution that waited for its run always finds a value or a reason.

## Main results

- `Reachable.coherent`: the state, the value, the error and the end of a run fit together.
- `result_answers`: what the result command answers, in every reachable run.
-/

namespace WorkflowForge.Run

open Lib Engine

variable {s : Setup} {w w' : World} {a : Action}

/-! ## Commands that read -/

def runUnavailable : ForgeError :=
  .new "not_found" "Run is unavailable"

/-- The run a caller asks for, as the store has it after the retention pass. -/
def status (c : Composition) (phase : Phase) (access : AccessContext)
    (stored : Option RunSnapshot) : Except ForgeError RunSnapshot := do
  authorize c phase access .read false
  okOr (stored.filter fun run => run.scope = access.scope) runUnavailable

def notReady : ForgeError :=
  .new "not_ready" "Run has not produced a final result"

/-- The value of a run, or the reason why it has none. -/
def result (c : Composition) (phase : Phase) (access : AccessContext)
    (stored : Option RunSnapshot) : Except ForgeError Value := do
  let run ← status c phase access stored
  match run.output with
  | some output => return output
  | none =>
    match run.error with
    | some error => .error error
    | none => .error notReady

/-- A run that a waiting caller is answered with. -/
def settles (state : RunState) : Bool :=
  state.isTerminal || state = .blocked

def noOutput : ForgeError :=
  .new "state.conflict" "Completed run has no output"

def incomplete : ForgeError :=
  .new "execution.incomplete" "Execution has no successful result"

/-- What an owned execution answers with the run it waited for. -/
def ownedResult (run : RunSnapshot) : Except ForgeError Value :=
  if run.state = .succeeded then okOr run.output noOutput
  else .error (run.error.getD incomplete)

/-! ## Coherent runs -/

/-- The state of a run fits its value, its error, its end and its cancellation. -/
structure Coherent (run : RunSnapshot) : Prop where
  finished : run.finishedAtMs.isSome = run.state.isTerminal
  output : run.output.isSome = decide (run.state = .succeeded)
  /-- A run that is blocked or that failed says why. -/
  failed : run.state = .blocked ∨ run.state = .failed ∨ run.state = .cancelled →
    run.error.isSome = true
  /-- A run that goes on, or that succeeded, has no error. A cancelled one may still show
  what blocked it. -/
  clean : run.state = .accepted ∨ run.state = .running ∨ run.state = .waiting ∨
    run.state = .succeeded → run.error = none
  cancelling : run.state = .cancelling → run.cancelRequested = true
  cancelled : run.cancelRequested = true → run.state = .cancelling ∨ run.state = .blocked ∨
    run.state = .failed ∨ run.state = .cancelled

namespace Coherent

variable {run next : RunSnapshot}

theorem ofInitial (h : run.InitialLaw) : Coherent run := by
  refine ⟨?_, ?_, ?_, fun _ => h.error, ?_, ?_⟩
  · rw [h.finished, h.state]
    rfl
  · rw [h.output, h.state]
    rfl
  · intro hs
    simp [h.state] at hs
  · intro hs
    simp [h.state] at hs
  · intro hc
    rw [h.cancel] at hc
    cases hc

/-- What else a transition changes does not matter. -/
theorem keep (h : Coherent run) (hstate : next.state = run.state)
    (hcancel : next.cancelRequested = run.cancelRequested) (houtput : next.output = run.output)
    (herror : next.error = run.error) (hfinished : next.finishedAtMs = run.finishedAtMs) :
    Coherent next := by
  refine ⟨?_, ?_, ?_, ?_, ?_, ?_⟩
  · rw [hstate, hfinished]
    exact h.finished
  · rw [hstate, houtput]
    exact h.output
  · rw [hstate, herror]
    exact h.failed
  · rw [hstate, herror]
    exact h.clean
  · rw [hstate, hcancel]
    exact h.cancelling
  · rw [hstate, hcancel]
    exact h.cancelled

/-- A run that is over for a reason. -/
theorem ofEnd (hstate : run.state = .failed ∨ run.state = .cancelled)
    (hfinished : run.finishedAtMs.isSome = true) (houtput : run.output = none)
    (herror : run.error.isSome = true) : Coherent run := by
  rcases hstate with hs | hs
  · refine ⟨?_, ?_, fun _ => herror, ?_, ?_, fun _ => .inr (.inr (.inl hs))⟩
    · rw [hs, hfinished]
      rfl
    · rw [hs, houtput]
      rfl
    · simp [hs]
    · simp [hs]
  · refine ⟨?_, ?_, fun _ => herror, ?_, ?_, fun _ => .inr (.inr (.inr hs))⟩
    · rw [hs, hfinished]
      rfl
    · rw [hs, houtput]
      rfl
    · simp [hs]
    · simp [hs]

/-- A run that is blocked for a reason. -/
theorem ofBlocked (hstate : run.state = .blocked) (hfinished : run.finishedAtMs = none)
    (houtput : run.output = none) (herror : run.error.isSome = true) : Coherent run := by
  refine ⟨?_, ?_, fun _ => herror, ?_, ?_, fun _ => .inr (.inl hstate)⟩
  · rw [hstate, hfinished]
    rfl
  · rw [hstate, houtput]
    rfl
  · simp [hstate]
  · simp [hstate]

/-- A run that goes on without a cancellation. -/
theorem ofLive (hstate : run.state = .accepted ∨ run.state = .running ∨ run.state = .waiting)
    (hfinished : run.finishedAtMs = none) (houtput : run.output = none)
    (herror : run.error = none) (hcancel : run.cancelRequested = false) : Coherent run := by
  refine ⟨?_, ?_, ?_, fun _ => herror, ?_, ?_⟩
  · rw [hfinished]
    rcases hstate with hs | hs | hs <;> rw [hs] <;> rfl
  · rw [houtput]
    rcases hstate with hs | hs | hs <;> rw [hs] <;> rfl
  · intro hf
    rcases hstate with hs | hs | hs <;> simp [hs] at hf
  · intro hf
    rcases hstate with hs | hs | hs <;> simp [hs] at hf
  · intro hc
    rw [hcancel] at hc
    cases hc

/-- A cancelled run that is still to be ended. -/
theorem ofCancelling (hstate : run.state = .cancelling) (hfinished : run.finishedAtMs = none)
    (houtput : run.output = none) (hcancel : run.cancelRequested = true) : Coherent run := by
  refine ⟨?_, ?_, ?_, ?_, fun _ => hcancel, fun _ => .inl hstate⟩
  · rw [hstate, hfinished]
    rfl
  · rw [hstate, houtput]
    rfl
  · simp [hstate]
  · simp [hstate]

/-- A run that is not over has no end and no value. -/
theorem live (h : Coherent run) (hl : run.state.isTerminal = false) :
    run.finishedAtMs = none ∧ run.output = none := by
  have hfinished := h.finished
  have houtput := h.output
  rw [hl] at hfinished
  refine ⟨by simpa using hfinished, ?_⟩
  have hs : run.state ≠ .succeeded := by
    intro hs
    rw [hs] at hl
    cases hl
  simpa [hs] using houtput

/-- A run that is worked on and not cancelled has no error. -/
theorem clean_of_open (h : Coherent run) (ho : Open run.state)
    (hc : run.cancelRequested = false) : run.error = none := by
  apply h.clean
  cases hs : run.state with
  | accepted => exact .inl rfl
  | running => exact .inr (.inl rfl)
  | waiting => exact .inr (.inr (.inl rfl))
  | blocked => exact absurd hs ho.1
  | cancelling =>
    rw [h.cancelling hs] at hc
    cases hc
  | succeeded => exact .inr (.inr (.inr rfl))
  | failed =>
    have hlive := ho.2
    rw [hs] at hlive
    cases hlive
  | cancelled =>
    have hlive := ho.2
    rw [hs] at hlive
    cases hlive

/-- A committed cancellation leaves nothing to wait for. -/
theorem not_waiting (h : Coherent run) (hw : run.state = .waiting) :
    run.cancelRequested = false := by
  rw [← Bool.not_eq_true]
  intro hc
  have hs := h.cancelled hc
  simp [hw] at hs

end Coherent

/-! ## Transitions -/

/-- A resolution keeps a blocked run blocked, ends it, or hands it back without its error. -/
theorem ReconcileLaw.coherent {c : Composition} {access : AccessContext}
    {command : ReconcileCommand} {now : UInt64} {run next : RunSnapshot}
    {receipt : ReconcileReceipt} {node : String} {old : InvocationRecord} {resolved : Resolved}
    {revision : UInt64} (h : Coherent run)
    (law : ReconcileLaw c access command now run receipt next node old resolved revision) :
    Coherent next := by
  have hnext : next = (audited command access.actor now revision resolved).2 :=
    congrArg Prod.snd law.result
  obtain ⟨hfinished, houtput⟩ := h.live (by rw [law.blocked]; rfl)
  have herror := h.failed (.inl law.blocked)
  -- the tracking is stopped and the run ends, or it stays blocked
  have hresolved : Coherent resolved.1 ∧ (resolved.1.state.isTerminal = false →
      resolved.1.finishedAtMs = none ∧ resolved.1.output = none) := by
    cases law.resolution with
    | stopped =>
      have hstate : (if run.cancelRequested = true then RunState.cancelled else .failed) =
            .failed ∨
          (if run.cancelRequested = true then RunState.cancelled else .failed) = .cancelled := by
        by_cases hc : run.cancelRequested = true
        · exact .inr (if_pos hc)
        · exact .inl (if_neg hc)
      refine ⟨Coherent.ofEnd hstate rfl houtput rfl, fun hl => ?_⟩
      have hl : (if run.cancelRequested = true then RunState.cancelled
        else .failed).isTerminal = false := hl
      rcases hstate with hs | hs <;> rw [hs] at hl <;> cases hl
    | _ => exact ⟨Coherent.ofBlocked law.blocked hfinished houtput herror,
        fun _ => ⟨hfinished, houtput⟩⟩
  rw [hnext]
  simp only [audited, unblock]
  split
  next hready =>
    -- a run without unknown attempts is handed back, without its error
    have hlive : resolved.1.state.isTerminal = false := by
      cases ht : resolved.1.state.isTerminal with
      | true => simp [ht] at hready
      | false => rfl
    obtain ⟨hfinished, houtput⟩ := hresolved.2 hlive
    by_cases hc : resolved.1.cancelRequested = true
    · exact Coherent.ofCancelling (if_pos hc) hfinished houtput hc
    · exact Coherent.ofLive (.inl (if_neg hc)) hfinished houtput rfl (by simpa using hc)
  · exact hresolved.1.keep rfl rfl rfl rfl rfl

/-- The end a run comes to with a value. -/
theorem coherent_endedWith {limits : Limits} {value : Value} {now later : UInt64}
    {cancelled : Bool} {run : RunSnapshot} {head : RunHead} (h : Coherent run)
    (hl : run.state.isTerminal = false) :
    Coherent (endedWith (outcome limits value now cancelled run head) later run) := by
  have houtput := (h.live hl).2
  unfold outcome
  split
  -- cancelled, by the request or by the host
  · exact Coherent.ofEnd (.inr rfl) rfl houtput rfl
  next hc =>
    have hcancel : run.cancelRequested = false := by
      rw [← Bool.not_eq_true]
      exact fun hcancel => hc (.inl hcancel)
    split
    · exact Coherent.ofEnd (.inl rfl) rfl houtput rfl
    · split
      · exact Coherent.ofEnd (.inl rfl) rfl houtput rfl
      -- a value in time and within its bytes
      · refine ⟨rfl, rfl, ?_, fun _ => rfl, ?_, fun hcancelled => ?_⟩
        · simp [endedWith]
        · simp [endedWith]
        · have hcancelled : run.cancelRequested = true := hcancelled
          rw [hcancel] at hcancelled
          cases hcancelled

/-- Every transition keeps a run coherent. A run is worked on only while it is open. -/
theorem Edited.coherent {edited : RunSnapshot} (h : Edited s w a edited) (inv : Coherent w.run)
    (phase : PhaseInv s w) : Coherent edited := by
  cases h with
  -- a recovered run goes on, or goes on being cancelled
  | recovered down blocked =>
    have hblocked : w.run.state = .blocked := by
      simp only [recoveryBlocked, decide_eq_true_eq] at blocked
      exact blocked.1
    obtain ⟨hfinished, houtput⟩ := inv.live (by rw [hblocked]; rfl)
    by_cases hc : w.run.cancelRequested = true
    · exact Coherent.ofCancelling (if_pos hc) hfinished houtput hc
    · exact Coherent.ofLive (.inr (.inl (if_neg hc))) hfinished houtput rfl
        (Bool.eq_false_iff.mpr hc)
  | bootBlocked down live =>
    obtain ⟨hfinished, houtput⟩ := inv.live live
    exact Coherent.ofBlocked rfl hfinished houtput rfl
  | blocked process idle live =>
    obtain ⟨hfinished, houtput⟩ := inv.live live
    exact Coherent.ofBlocked rfl hfinished houtput rfl
  -- a run that is worked on is open, and has no error
  | begun process taken live =>
    have hopen : Open w.run.state := phase.working (by simp [taken])
    obtain ⟨hfinished, houtput⟩ := inv.live live
    unfold beginRun
    split
    · exact inv
    next hc =>
      have hc : w.run.cancelRequested = false := by simpa using hc
      exact Coherent.ofLive (.inr (.inl rfl)) hfinished houtput (inv.clean_of_open hopen hc) hc
  | suspended working quiet live =>
    have hopen : Open w.run.state := phase.working (by simp [working.2])
    obtain ⟨hfinished, houtput⟩ := inv.live live
    unfold suspendRun
    split
    · exact inv
    next hc =>
      have hc : w.run.cancelRequested = false := by simpa using hc
      exact Coherent.ofLive (.inr (.inr rfl)) hfinished houtput (inv.clean_of_open hopen hc) hc
  -- an error ends the run, or blocks it until its effects are resolved
  | @finished c error cancelled working quiet live =>
    obtain ⟨-, houtput⟩ := inv.live live
    by_cases hr : awaitsResolution (markedRun w.run).invocations = true
    · rw [finishError_blocked hr]
      exact Coherent.ofBlocked rfl rfl houtput rfl
    · rw [finishError_ended (by simpa using hr)]
      refine Coherent.ofEnd ?_ rfl houtput rfl
      cases cancelled with
      | true => exact .inr rfl
      | false => exact .inl rfl
  | concluded working quiet resolved live => exact coherent_endedWith inv live
  | cancelled running live =>
    obtain ⟨hfinished, houtput⟩ := inv.live live
    exact Coherent.ofCancelling rfl hfinished houtput rfl
  -- a delivery wakes a run that waits
  | signalled running authorized checked named scope law =>
    by_cases hw : w.run.state = .waiting
    · obtain ⟨hfinished, houtput⟩ := inv.live law.live
      exact Coherent.ofLive (.inr (.inl (if_pos hw))) hfinished houtput
        (inv.clean (.inr (.inr (.inl hw)))) law.uncancelled
    · exact inv.keep (if_neg hw) rfl rfl rfl rfl
  | observed => exact inv.keep rfl rfl rfl rfl rfl
  | reconciled running named law => exact ReconcileLaw.coherent inv law
  -- the rest edits records and waits only
  | operation live => exact inv.keep rfl rfl rfl rfl rfl
  | control working live => exact inv.keep rfl rfl rfl rfl rfl
  | stopped working live => exact inv.keep rfl rfl rfl rfl rfl
  | waited working live edit =>
    cases edit with
    | _ => exact inv.keep rfl rfl rfl rfl rfl

/-- Every reachable run is coherent. -/
theorem Reachable.coherent (hr : Reachable s w) : Coherent w.run := by
  apply hr.invariant (P := fun w => Coherent w.run)
  · intro w h
    exact Coherent.ofInitial h.initial
  · intro w a w' hreach inv _ h
    rcases step_run h with ⟨hrun, -⟩ | ⟨edited, revision, hedit, -, hrun, -⟩
    · rw [hrun]
      exact inv
    · rw [hrun]
      exact (hedit.coherent inv hreach.phase).keep rfl rfl rfl rfl rfl

/-! ## What a caller is answered -/

/-- What the commands that read answer about one run. -/
structure ResultLaw (c : Composition) (phase : Phase) (access : AccessContext)
    (run : RunSnapshot) : Prop where
  /-- A value is answered exactly when the run succeeded with it. -/
  value : ∀ v, result c phase access (some run) = .ok v ↔
    run.state = .succeeded ∧ run.output = some v
  /-- A run that failed, or that is blocked, is answered with its error. -/
  failure : run.state ≠ .succeeded → settles run.state = true →
    ∃ e, run.error = some e ∧ result c phase access (some run) = .error e
  /-- Any other run is not ready, unless it is cancelled and shows what blocked it. -/
  early : settles run.state = false → run.error = none →
    result c phase access (some run) = .error notReady
  shown : settles run.state = false → ∀ e, run.error = some e → run.cancelRequested = true
  /-- An owned execution that waited for the run finds its value or its error. -/
  owned : settles run.state = true →
    (∀ v, ownedResult run = .ok v ↔ run.output = some v) ∧
      ∀ e, ownedResult run = .error e ↔ run.error = some e

section

variable {c : Composition} {phase : Phase} {access : AccessContext}

theorem result_eq {run : RunSnapshot} (ha : authorize c phase access .read false = .ok ())
    (hs : run.scope = access.scope) :
    result c phase access (some run) = match run.output with
      | some output => .ok output
      | none => .error (run.error.getD notReady) := by
  have hstatus : status c phase access (some run) = .ok run := by
    simp [status, ha, hs, Option.filter, okOr]
  unfold result
  rw [hstatus, ok_bind]
  cases run.output with
  | some output => rfl
  | none =>
    cases run.error with
    | some e => rfl
    | none => rfl

/-- What the result command answers about a reachable run, and what an owned execution ends
with. -/
theorem result_answers (hr : Reachable s w) (ha : authorize c phase access .read false = .ok ())
    (hs : w.run.scope = access.scope) : ResultLaw c phase access w.run := by
  have inv := hr.coherent
  have hresult := result_eq ha hs
  have hvalue := inv.output
  refine ⟨fun v => ?_, fun hne hsettled => ?_, fun hlive herror => ?_, fun hlive e he => ?_,
    fun hsettled => ?_⟩
  · rw [hresult]
    cases ho : w.run.output with
    | some output =>
      have hsucceeded : w.run.state = .succeeded := by simpa [ho] using hvalue
      simp [hsucceeded]
    | none => simp
  · have hnone : w.run.output = none := by simpa [hne] using hvalue
    have herror : w.run.error.isSome = true := by
      apply inv.failed
      cases hstate : w.run.state <;> simp [settles, RunState.isTerminal, hstate] at hsettled hne ⊢
    obtain ⟨e, he⟩ := Option.isSome_iff_exists.mp herror
    refine ⟨e, he, ?_⟩
    rw [hresult, hnone, he]
    rfl
  · have hnone : w.run.output = none := by
      cases hstate : w.run.state <;> simp [settles, RunState.isTerminal, hstate] at hlive hvalue ⊢
      all_goals exact hvalue
    rw [hresult, hnone, herror]
    rfl
  · cases hstate : w.run.state with
    | cancelling => exact inv.cancelling hstate
    | blocked => simp [settles, hstate] at hlive
    | succeeded | failed | cancelled => simp [settles, RunState.isTerminal, hstate] at hlive
    | accepted | running | waiting =>
      -- a run that goes on has no error
      have hclean := inv.clean (by simp [hstate])
      rw [he] at hclean
      cases hclean
  · unfold ownedResult
    by_cases hsucceeded : w.run.state = .succeeded
    · have herror := inv.clean (.inr (.inr (.inr hsucceeded)))
      have hsome : w.run.output.isSome = true := by simpa [hsucceeded] using hvalue
      obtain ⟨v, hv⟩ := Option.isSome_iff_exists.mp hsome
      simp [hsucceeded, hv, herror, okOr]
    · have hnone : w.run.output = none := by simpa [hsucceeded] using hvalue
      have herror : w.run.error.isSome = true := by
        apply inv.failed
        cases hstate : w.run.state <;>
          simp [settles, RunState.isTerminal, hstate] at hsettled hsucceeded ⊢
      obtain ⟨e, he⟩ := Option.isSome_iff_exists.mp herror
      simp [hsucceeded, hnone, he]

end

/-- The sample run, ended with a value. -/
theorem result_answers_sample :
    ∃ w : World, result sampleComposition .ready { sampleAccess with permissions := [.read] }
      (some w.run) = .ok (.string "done") ∧ ownedResult w.run = .ok (.string "done") := by
  obtain ⟨w₀, w, hr, hl, -, hw⟩ := @sample_run _ _ (fun _ => ())
    (fun w => (w.run.state, w.run.output, w.run.scope)) ()
    (.succeeded, some (.string "done"), sampleWorld.run.scope) [.take, .begin]
    [.conclude (.string "done") 9 false] (by simp [SampleActions]) (by decide +kernel)
    (by decide +kernel)
  obtain ⟨hstate, houtput, hscope⟩ := by simpa only [Prod.mk.injEq] using hw
  have law := @result_answers sampleSetup w sampleComposition .ready
    { sampleAccess with permissions := [.read] } (hr.leads hl) rfl hscope
  refine ⟨w, (law.value _).mpr ⟨hstate, houtput⟩, ?_⟩
  have hsettled : settles w.run.state = true := by
    rw [hstate]
    rfl
  exact ((law.owned hsettled).1 _).mpr houtput

end WorkflowForge.Run
