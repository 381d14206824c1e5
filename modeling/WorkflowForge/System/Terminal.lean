import WorkflowForge.System.Invariants

/-!
# Ended Runs

A run ends with a value, with an error, or because a caller stopped the tracking of effects
that nobody can tell any more. The first two leave no uncertain effect behind. The third
lists the invocations that are marked unknown; an attempt that a boot could not classify is
not among them.

## Main results

- `Edited.terminal`: the three ways a run ends.
- `terminal_lists_uncertain`: an ended run lists every uncertain effect, as long as tracking
  is stopped only where all of them are marked.
- `stop_hides_attempt`: otherwise it does not.
-/

namespace WorkflowForge.Run

open Lib Engine

variable {s : Setup} {w w' : World} {a : Action} {key : String}

/-! ## Uncertain effects -/

/-- The effect of an invocation is uncertain, or it is a write whose attempt is still open. -/
def Uncertain (s : Setup) (key : String) (r : InvocationRecord) : Prop :=
  r.isUnresolved = true ∨
    (r.state = .running ∧ ∃ node, s.operation key = some node ∧
      node.operation.descriptor.effect = .write)

theorem Uncertain.of_same {r r' : InvocationRecord} (h : Uncertain s key r)
    (hsame : Same .source r r') : Uncertain s key r' := by
  have hunresolved : r.isUnresolved = r'.isUnresolved := hsame.exact fun _ => rfl
  exact h.imp (hunresolved ▸ ·) (And.imp_left (InvocationRecord.same_state hsame ▸ ·))

/-- Tracking of the effects of the run was stopped. -/
def Untracked (log : List Event) : Prop :=
  ∃ command receipt, .reconciled command receipt ∈ log ∧ isStopTracking command.resolution = true

/-- A run that is over hides no uncertain effect. -/
structure Honest (s : Setup) (w : World) : Prop where
  /-- A run whose tracking was stopped lists every uncertain invocation. -/
  stopped : w.run.state.isTerminal = true → Untracked w.log →
    ∀ (key : String) (r : InvocationRecord), w.run.invocations[key]? = some r →
      Uncertain s key r →
      ∃ e ∈ w.run.unresolvedEffects, e.invocationId = r.id ∧ e.attemptId = r.attemptId
  /-- A run that ended in any other way has none. -/
  ended : w.run.state.isTerminal = true → ¬Untracked w.log →
    ∀ (key : String) (r : InvocationRecord), w.run.invocations[key]? = some r →
      ¬Uncertain s key r

/-! ## Resolutions that are committed -/

/-- A command changes nothing, or commits the replacement it decided. -/
theorem step_reconcile {phase : Phase} {access : AccessContext} {command : ReconcileCommand}
    (h : w.step s (.reconcile phase access command) = some w') :
    (w'.run = w.run ∧ w'.log = w.log) ∨
      ∃ c receipt key record resolved revision,
        ReconcileLaw c access command w.now w.run receipt w'.run key record resolved revision ∧
          w'.log = .reconciled command receipt :: w.log := by
  obtain ⟨p, w₁, hp, ha, rfl⟩ := World.step_eq_some h
  obtain ⟨receipt, next, -, hresult, rfl⟩ := answered_possible hp
  cases next with
  -- a command that was accepted before is answered again
  | none =>
    left
    rw [after_run, ← Option.some.inj ha]
    simp [World.after, hresult]
  -- a new one is committed and remembered
  | some next =>
    right
    have hrun : w₁.run = next := by
      change w.accept (some (.run next)) = some w₁ at ha
      simp only [World.accept] at ha
      split at ha
      · rw [← Option.some.inj ha]
        rfl
      · cases ha
    have hlog : w₁.log = w.log := by rw [accept_frame ha]
    have hanswer := hresult
    unfold World.reconcile at hanswer
    split at hanswer
    · cases hanswer
    next c hc =>
      obtain ⟨key, record, resolved, revision, law⟩ := reconcile_eq_some hanswer
      refine ⟨c, receipt, key, record, resolved, revision, ?_, ?_⟩
      · rw [after_run, hrun]
        exact law
      · simp only [World.after, hresult, World.remember, hlog]

/-- A run that was not stopped stays open after a resolution. -/
theorem ReconcileLaw.terminal {c : Composition} {access : AccessContext}
    {command : ReconcileCommand} {now : UInt64} {run next : RunSnapshot}
    {receipt : ReconcileReceipt} {node : String} {old : InvocationRecord} {resolved : Resolved}
    {revision : UInt64}
    (law : ReconcileLaw c access command now run receipt next node old resolved revision) :
    (isStopTracking command.resolution = true ∧ next.state.isTerminal = true ∧
        next.invocations = run.invocations ∧
        ∃ reason, next.unresolvedEffects = unknownEffects reason run.invocations) ∨
      (isStopTracking command.resolution = false ∧ next.state.isTerminal = false) := by
  have hnext : next = (audited command access.actor now revision resolved).2 :=
    congrArg Prod.snd law.result
  have hblocked : run.state.isTerminal = false := by
    rw [law.blocked]
    rfl
  -- a run that is unblocked goes on
  have hunblock : ∀ r : RunSnapshot, r.state.isTerminal = false →
      (unblock r).state.isTerminal = false := by
    intro r hr
    unfold unblock
    split
    · change (if r.cancelRequested = true then RunState.cancelling else
        RunState.accepted).isTerminal = false
      split <;> rfl
    · exact hr
  rw [hnext]
  cases law.resolution with
  | applied command => exact .inr ⟨by rw [command]; rfl, hunblock _ hblocked⟩
  | invalid command => exact .inr ⟨by rw [command]; rfl, hunblock _ hblocked⟩
  | retry command => exact .inr ⟨by rw [command]; rfl, hunblock _ hblocked⟩
  | failed command => exact .inr ⟨by rw [command]; rfl, hunblock _ hblocked⟩
  | blocked tracked => exact .inr ⟨tracked, hunblock _ hblocked⟩
  -- the tracking is stopped: the run ends, and stays ended when it is unblocked
  | @stopped reason evidence command =>
    have hterminal : (untrackedRun reason now run).state.isTerminal = true := by
      change (if run.cancelRequested = true then RunState.cancelled else
        RunState.failed).isTerminal = true
      split <;> rfl
    have hkept : unblock (untrackedRun reason now run) = untrackedRun reason now run := by
      unfold unblock
      rw [if_neg]
      simp [hterminal]
    refine .inl ⟨by rw [command]; rfl, ?_, ?_, reason, ?_⟩
    · simp only [audited, hkept]
      exact hterminal
    · simp only [audited, hkept]
      rfl
    · simp only [audited, hkept]
      rfl

/-! ## How a run ends -/

/-- The ways a live run ends. -/
inductive Ending (w : World) (a : Action) (edited : RunSnapshot) : Prop where
  | failed {c : Composition} {error : ForgeError} {cancelled : Bool} (working : Working w c)
      (quiet : w.workers = ∅) (resolved : awaitsResolution (markedRun w.run).invocations = false)
      (action : a = .finish error cancelled)
      (records : edited.invocations = (markedRun w.run).invocations)
  | concluded {c : Composition} {value : Value} {later : UInt64} {cancelled : Bool}
      (working : Working w c) (quiet : w.workers = ∅)
      (resolved : RunSnapshot.unresolvedCount w.run.invocations = 0)
      (action : a = .conclude value later cancelled)
      (records : edited.invocations = w.run.invocations)
  | stopped {phase : Phase} {access : AccessContext} {command : ReconcileCommand}
      (action : a = .reconcile phase access command)

/-- A live run ends in one of three ways. -/
theorem Edited.terminal {edited : RunSnapshot} (h : Edited s w a edited)
    (hl : w.run.state.isTerminal = false) (ht : edited.state.isTerminal = true) :
    Ending w a edited := by
  -- an edit that leaves a live state ends nothing
  have hkept : ∀ state : RunState, edited.state = state → state.isTerminal = false → False := by
    rintro state rfl hstate
    rw [ht] at hstate
    nomatch hstate
  cases h with
  | recovered =>
    refine (hkept _ rfl ?_).elim
    change (if w.run.cancelRequested = true then RunState.cancelling else
      RunState.running).isTerminal = false
    split <;> rfl
  | bootBlocked => nomatch ht
  | blocked => nomatch ht
  | begun =>
    unfold beginRun at hkept
    split at hkept
    · exact (hkept _ rfl hl).elim
    · exact (hkept _ rfl rfl).elim
  | suspended =>
    unfold suspendRun at hkept
    split at hkept
    · exact (hkept _ rfl hl).elim
    · exact (hkept _ rfl rfl).elim
  -- an error ends the run unless an effect awaits its resolution
  | @finished c error cancelled working quiet =>
    by_cases hr : awaitsResolution (markedRun w.run).invocations = true
    · rw [finishError_blocked hr] at ht
      nomatch ht
    · have hr : awaitsResolution (markedRun w.run).invocations = false := by simpa using hr
      rw [finishError_ended hr]
      exact .failed working quiet hr rfl rfl
  | concluded working quiet resolved => exact .concluded working quiet resolved rfl rfl
  | cancelled => nomatch ht
  | signalled =>
    refine (hkept _ rfl ?_).elim
    change (if w.run.state = .waiting then RunState.running else w.run.state).isTerminal = false
    split
    · rfl
    · exact hl
  | observed => exact (hkept _ rfl hl).elim
  | reconciled => exact .stopped rfl
  | operation => exact (hkept _ rfl hl).elim
  | control => exact (hkept _ rfl hl).elim
  | stopped => exact (hkept _ rfl hl).elim
  | waited working live edit => exact (hkept _ edit.state hl).elim

/-- A run that is left by its workers has no open attempt. -/
theorem Reachable.quiet_attempts (hr : Reachable s w) (hl : w.run.state.isTerminal = false)
    {c : Composition} (working : Working w c) (quiet : w.workers = ∅) {r : InvocationRecord}
    (h : w.run.invocations[key]? = some r) {node : PreparedOperation}
    (hn : s.operation key = some node) : r.state ≠ .running := by
  intro hrunning
  have hsome := hr.owned.working hl c working.1 key node r hn h hrunning
  rw [quiet, Std.ExtTreeMap.getElem?_empty] at hsome
  nomatch hsome

/-- A run that ends by an error, or by a value, leaves no uncertain effect. -/
theorem Reachable.ending_certain (hr : Reachable s w) (hl : w.run.state.isTerminal = false)
    {edited : RunSnapshot} (h : Ending w a edited)
    (ha : ∀ phase access command, a ≠ .reconcile phase access command) {r : InvocationRecord}
    (hr' : edited.invocations[key]? = some r) : ¬Uncertain s key r := by
  cases h with
  | @failed c error cancelled working quiet resolved action records =>
    rw [records] at hr'
    obtain ⟨old, hold, rfl⟩ := markedRun_get hr'
    have hknown : (markUnknown old).state ≠ .unknown := by
      intro hu
      rw [awaitsResolution_iff.mpr ⟨key, _, hr', hu⟩] at resolved
      nomatch resolved
    rintro (hu | ⟨hrunning, node, hn, -⟩)
    · simp only [InvocationRecord.isUnresolved, decide_eq_true_eq] at hu
      rcases hu with hu | ⟨-, hsucceeded, hcertainty⟩
      · exact hknown hu
      · -- whatever is uncertain was marked
        rcases markUnknown_cases old with ⟨hs, heq⟩ | ⟨hc, heq⟩ | ⟨-, -, heq⟩
        · rw [heq] at hsucceeded
          exact hsucceeded hs
        · rw [heq] at hcertainty
          exact hcertainty hc
        · rw [heq] at hknown
          exact hknown rfl
    · have hold' : old.state = .running := by
        rcases markUnknown_cases old with ⟨-, heq⟩ | ⟨-, heq⟩ | ⟨-, -, heq⟩
        · exact heq ▸ hrunning
        · exact heq ▸ hrunning
        · rw [heq] at hrunning
          nomatch hrunning
      exact hr.quiet_attempts hl working quiet hold hn hold'
  -- a value ends the run only when no record is unresolved
  | @concluded c value later cancelled working quiet resolved action records =>
    rw [records] at hr'
    rintro (hu | ⟨hrunning, node, hn, -⟩)
    · have hmem : r ∈ BTreeMap.valueList w.run.invocations := BTreeMap.mem_valueList.mpr ⟨key, hr'⟩
      have hzero := List.countP_eq_zero.mp resolved r hmem
      exact hzero hu
    -- and no attempt is open, as no worker is left
    · exact hr.quiet_attempts hl working quiet hr' hn hrunning
  | stopped action => exact absurd action (ha _ _ _)

/-! ## Runs that stop with care -/

/-- Every uncertain effect is marked unknown. -/
def Marked (s : Setup) (w : World) : Prop :=
  ∀ (key : String) (r : InvocationRecord), w.run.invocations[key]? = some r →
    Uncertain s key r → r.state = .unknown

/-- Tracking is stopped only where every uncertain effect is marked. -/
def Careful (s : Setup) (w : World) (a : Action) : Prop :=
  Admissible s w a ∧ ∀ phase access command, a = .reconcile phase access command →
    isStopTracking command.resolution = true → Marked s w

theorem mem_unknownEffects {reason : String} {records : BTreeMap String InvocationRecord}
    {r : InvocationRecord} (h : records[key]? = some r) (hs : r.state = .unknown) :
    ∃ e ∈ unknownEffects reason records, e.invocationId = r.id ∧ e.attemptId = r.attemptId := by
  refine ⟨⟨r.id, r.attemptId, r.effectKey, String.ofList (reason.toList.take 1024)⟩, ?_, rfl, rfl⟩
  unfold unknownEffects
  apply List.mem_map_of_mem (f := fun r : InvocationRecord =>
    (⟨r.id, r.attemptId, r.effectKey, String.ofList (reason.toList.take 1024)⟩ : UnresolvedEffect))
  rw [List.mem_filter]
  exact ⟨BTreeMap.mem_valueList.mpr ⟨key, h⟩, by simpa using hs⟩

/-- The memory only grows. -/
theorem step_memory (h : w.step s a = some w') {e : Event} (he : e ∈ w.log) : e ∈ w'.log := by
  have hlog := step_log h
  generalize w'.log = x at hlog
  cases hlog with
  | same => exact he
  | _ => exact List.mem_cons_of_mem _ he

/-- Only a committed command stops the tracking. -/
theorem step_untracked (h : w.step s a = some w') (hu : Untracked w'.log) :
    Untracked w.log ∨ ∃ phase access command, a = .reconcile phase access command ∧
      isStopTracking command.resolution = true := by
  obtain ⟨command, receipt, hmem, hstop⟩ := hu
  have hlog := step_log h
  generalize w'.log = x at hlog hmem
  -- a command that was committed before is no news
  have hold : .reconciled command receipt ∈ w.log → Untracked w.log :=
    fun hmem => ⟨command, receipt, hmem, hstop⟩
  cases hlog with
  | same => exact .inl (hold hmem)
  | called =>
    rcases List.mem_cons.mp hmem with heq | hmem
    · nomatch heq
    · exact .inl (hold hmem)
  | answered =>
    rcases List.mem_cons.mp hmem with heq | hmem
    · nomatch heq
    · exact .inl (hold hmem)
  | signalled =>
    rcases List.mem_cons.mp hmem with heq | hmem
    · nomatch heq
    · exact .inl (hold hmem)
  | @reconciled phase access command' receipt' next result =>
    rcases List.mem_cons.mp hmem with heq | hmem
    · obtain ⟨rfl, -⟩ := Event.reconciled.inj heq
      exact .inr ⟨phase, access, command, rfl, hstop⟩
    · exact .inl (hold hmem)

/-- A run whose tracking was stopped is over, and an ended run hides nothing. -/
structure EndedInv (s : Setup) (w : World) : Prop where
  terminal : Untracked w.log → w.run.state.isTerminal = true
  honest : Honest s w

/-- An ended run changes no more. -/
theorem EndedInv.ended_step (inv : EndedInv s w) (hr : Reachable s w)
    (h : w.step s a = some w') (ht : w.run.state.isTerminal = true) : EndedInv s w' := by
  -- what the reader sees of an ended run stays up to the comparison
  have hkept := (hr.step_extends h).terminal ht
  have hstate : w'.run.state = w.run.state := (hr.step_extends h).state_eq ht
  have hrecords : ∀ (key : String) (r : InvocationRecord), w'.run.invocations[key]? = some r →
      ∃ old, w.run.invocations[key]? = some old ∧ Same .source old r := by
    intro key r hr'
    have hget := (hkept.map (f := RunSnapshot.invocations) fun _ => rfl).symm.get key
    exact same_some_iff.mp (hr' ▸ hget)
  have heffects : w'.run.unresolvedEffects = w.run.unresolvedEffects :=
    hkept.exact (f := RunSnapshot.unresolvedEffects) fun _ => rfl
  -- no command is accepted any more, so that the tracking is stopped or not as before
  have hlog : Untracked w'.log ↔ Untracked w.log := by
    constructor
    · intro hu
      rcases step_untracked h hu with hu | ⟨phase, access, command, rfl, hstop⟩
      · exact hu
      · -- no command is accepted any more
        rcases step_reconcile h with ⟨-, hlog⟩ | ⟨c, receipt, key, r, resolved, revision, law, -⟩
        · exact hlog ▸ hu
        · rw [law.blocked] at ht
          nomatch ht
    · rintro ⟨command, receipt, hmem, hstop⟩
      exact ⟨command, receipt, step_memory h hmem, hstop⟩
  refine ⟨fun _ => hstate ▸ ht, fun _ hu key r hr' => ?_, fun _ hu key r hr' => ?_⟩
  · obtain ⟨old, hold, hsame⟩ := hrecords key r hr'
    intro hr
    obtain ⟨e, he, hid, hattempt⟩ :=
      inv.honest.stopped ht (hlog.mp hu) key old hold (hr.of_same hsame.symm)
    rw [heffects]
    exact ⟨e, he, hid.trans (hsame.exact (f := InvocationRecord.id) fun _ => rfl),
      hattempt.trans (hsame.exact (f := InvocationRecord.attemptId) fun _ => rfl)⟩
  · obtain ⟨old, hold, hsame⟩ := hrecords key r hr'
    exact fun hr => inv.honest.ended ht (fun hu' => hu (hlog.mpr hu')) key old hold
      (hr.of_same hsame.symm)

/-- The tracking of a live run is stopped only by the command that ends it. -/
theorem EndedInv.live_step (inv : EndedInv s w) (hr : Reachable s w)
    (h : w.step s a = some w') (hc : Careful s w a) (hl : w.run.state.isTerminal = false) :
    EndedInv s w' := by
  have hbefore : ¬Untracked w.log := by
    intro hu
    rw [inv.terminal hu] at hl
    nomatch hl
  -- the command that stops the tracking ends the run with its list
  have hstopped : ∀ phase access command, a = .reconcile phase access command →
      isStopTracking command.resolution = true → Untracked w'.log →
      w'.run.state.isTerminal = true ∧ w'.run.invocations = w.run.invocations ∧
        ∃ reason, w'.run.unresolvedEffects = unknownEffects reason w.run.invocations := by
    rintro phase access command rfl hstop hu
    rcases step_reconcile h with ⟨-, hlog⟩ | ⟨c, receipt, key, r, resolved, revision, law, -⟩
    · exact absurd (hlog ▸ hu) hbefore
    · rcases ReconcileLaw.terminal law with ⟨-, hrest⟩ | ⟨hnot, -⟩
      · exact hrest
      · rw [hstop] at hnot
        nomatch hnot
  refine ⟨fun hu => ?_, fun ht hu key r hr' hu' => ?_, fun ht hu key r hr' => ?_⟩
  · rcases step_untracked h hu with hu' | ⟨phase, access, command, ha, hstop⟩
    · exact absurd hu' hbefore
    · exact (hstopped phase access command ha hstop hu).1
  · rcases step_untracked h hu with hu' | ⟨phase, access, command, ha, hstop⟩
    · exact absurd hu' hbefore
    · obtain ⟨-, hrecords, reason, heffects⟩ := hstopped phase access command ha hstop hu
      rw [hrecords] at hr'
      rw [heffects]
      exact mem_unknownEffects hr' (hc.2 phase access command ha hstop key r hr' hu')
  · rcases step_run h with ⟨hrun, -⟩ | ⟨edited, revision, hedit, -, hrun, -⟩
    · rw [hrun, hl] at ht
      nomatch ht
    · rw [hrun] at ht hr'
      refine hr.ending_certain hl (hedit.terminal hl ht) ?_ hr'
      rintro phase access command rfl
      -- a committed command that ends the run has stopped the tracking
      rcases step_reconcile h with ⟨hsame, -⟩ | ⟨c, receipt, node, old, resolved, rev, law, hlog⟩
      · rw [← hrun, hsame, hl] at ht
        nomatch ht
      · rcases ReconcileLaw.terminal law with ⟨hstop, -⟩ | ⟨-, hlive⟩
        · apply hu
          rw [hlog]
          exact ⟨command, receipt, List.mem_cons_self .., hstop⟩
        · rw [hrun] at hlive
          rw [hlive] at ht
          nomatch ht

/-- An ended run hides no uncertain effect, if tracking is stopped only where all of them are
marked. -/
theorem terminal_lists_uncertain (hr : (system s).ReachableBy (Careful s) w) : Honest s w := by
  have inv : EndedInv s w := by
    apply hr.invariant
    · intro w h
      have hlive : w.run.state.isTerminal = false := by
        rw [h.initial.state]
        rfl
      refine ⟨?_, ⟨fun ht => ?_, fun ht => ?_⟩⟩
      · rintro ⟨command, receipt, hmem, -⟩
        rw [h.fresh.2.2.2.2] at hmem
        nomatch hmem
      · rw [hlive] at ht
        nomatch ht
      · rw [hlive] at ht
        nomatch ht
    · intro w a w' hreach inv hc h
      have hr : Reachable s w := hreach.mono fun _ _ h => h.1
      -- a step of an ended run, or one that may end it
      cases ht : w.run.state.isTerminal with
      | true => exact inv.ended_step hr h ht
      | false => exact inv.live_step hr h hc ht
  exact inv.honest

/-! ## The sample plan -/

/-- The effects of the sample run are given up. -/
def sampleStop (revision : UInt64) : Action :=
  .reconcile .ready sampleAccess ⟨"c1", "run", "pay", revision, "a1", .stopTracking "gone" none⟩

/-- One lost attempt, and one that a boot without recovery left open beside it. -/
def sampleBeside : List Action :=
  [.take, .begin, .intend "pay" "a1" .null false, .call "pay", .answer "pay" .lost false,
    .fail "pay" 5 10, .intend "ship" "a2" .null false, .crash,
    .bootBlocked sampleComposition unknownError]

theorem terminal_lists_uncertain_sample :
    ∃ w, w.run.state = .failed ∧ Honest sampleSetup w := by
  have hmarked : ((system sampleSetup).run sampleWorld sampleLost).map (fun w =>
      (BTreeMap.valueList w.run.invocations).all fun r => r.state = .unknown) = some true := by
    decide +kernel
  have hended : ((system sampleSetup).run sampleWorld (sampleLost ++ [sampleStop 4])).map (fun w =>
      w.run.state) = some .failed := by
    decide +kernel
  obtain ⟨w, hw, hall⟩ := Option.map_eq_some_iff.mp hmarked
  obtain ⟨w', hw', hstate⟩ := Option.map_eq_some_iff.mp hended
  have hcareful : (system sampleSetup).ReachableBy (Careful sampleSetup) w := by
    refine (System.ReachableBy.init sampleWorld_started).leads (System.run_leads ?_ hw)
    intro a ha _
    simp only [sampleLost, List.mem_cons, List.not_mem_nil, or_false] at ha
    rcases ha with rfl | rfl | rfl | rfl | rfl | rfl | rfl <;>
      exact ⟨trivial, fun _ _ _ h => nomatch h⟩
  rw [System.run_append, hw] at hw'
  obtain ⟨w₂, hstep, hlast⟩ := Option.bind_eq_some_iff.mp (show (((system sampleSetup).step w
    (sampleStop 4)).bind some) = some w' from hw')
  obtain rfl := Option.some.inj hlast
  have hstop : Careful sampleSetup w (sampleStop 4) := by
    refine ⟨trivial, fun _ _ _ _ _ key r hr _ => ?_⟩
    exact of_decide_eq_true (List.all_eq_true.mp hall r (BTreeMap.mem_valueList.mpr ⟨key, hr⟩))
  exact ⟨w₂, hstate, terminal_lists_uncertain (hcareful.step hstop hstep)⟩

/-- A run whose tracking was stopped can hide a write that is still open. -/
theorem stop_hides_attempt : ¬∀ w, Reachable sampleSetup w → Honest sampleSetup w := by
  intro hall
  have hrun : ((system sampleSetup).run sampleWorld (sampleBeside ++ [sampleStop 5])).map (fun w =>
      (w.run.state, w.run.unresolvedEffects.map UnresolvedEffect.attemptId,
        w.log.any fun e => e.command.any fun command => isStopTracking command.resolution,
        (w.record "ship").map fun r => (r.state, r.attemptId))) =
      some (.failed, ["a1"], true, some (.running, "a2")) := by
    decide +kernel
  obtain ⟨w, hw, hread⟩ := Option.map_eq_some_iff.mp hrun
  obtain ⟨hstate, heffects, hlog, hship⟩ := by simpa only [Prod.mk.injEq] using hread
  obtain ⟨r, hr, hship⟩ := Option.map_eq_some_iff.mp hship
  obtain ⟨hrunning, hattempt⟩ := Prod.mk.inj hship
  have hreach : Reachable sampleSetup w := by
    refine sampleWorld_reachable.leads (System.run_leads ?_ hw)
    exact sampleActions_admissible (by simp [SampleActions, sampleBeside, sampleStop])
  have huntracked : Untracked w.log := by
    obtain ⟨e, he, hmatch⟩ := List.any_eq_true.mp hlog
    obtain ⟨command, hcommand, hstop⟩ := (Option.any_eq_true _ _).mp hmatch
    obtain ⟨receipt, rfl⟩ := Event.command_eq_some.mp hcommand
    exact ⟨command, receipt, he, hstop⟩
  have hterminal : w.run.state.isTerminal = true := by
    rw [hstate]
    rfl
  obtain ⟨e, he, -, hnamed⟩ := (hall w hreach).stopped hterminal huntracked "ship" r hr
    (.inr ⟨hrunning, sampleNode, rfl, rfl⟩)
  -- the list names the other attempt only
  have hlisted := List.mem_map_of_mem (f := UnresolvedEffect.attemptId) he
  rw [heffects, hnamed, hattempt] at hlisted
  simp at hlisted

end WorkflowForge.Run
