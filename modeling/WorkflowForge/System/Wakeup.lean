import Mathlib.Data.List.MinMax
import WorkflowForge.System.Outcome
import WorkflowForge.System.Successor

/-!
# Waking a Waiting Run

A run waits until a message it can go on with has arrived, or until a wait or the run itself
has reached its deadline. The time of its next wakeup is computed from its waits whenever a
snapshot is stored; nobody keeps a timer. So a wakeup can be lost only if the computed time
is wrong, or if the waits change while nobody looks. Neither happens.

## Main results

- `runnable_waiting`: when the supervisor selects a waiting run.
- `Reachable.waiting_kept`: while a run waits, its waits stay as its worker left them.
- `waiting_wakes`: no wakeup is lost, in any run.
-/

namespace WorkflowForge.Run

open Lib Engine

variable {s : Setup} {w w' : World} {a : Action}

/-! ## The time of the next wakeup -/

/-- An open wait lets its run go on: its message is there and its start is confirmed, or
nobody answered until its deadline. -/
def Due (now : UInt64) (wait : WaitRecord) : Prop :=
  wait.state = .open ∧ (wait.delivery.isSome = true ∧ wait.startConfirmed = true ∨
    wait.delivery = none ∧ wait.deadlineAtMs ≤ now)

theorem wakeup_due {now : UInt64} {wait : WaitRecord} :
    (∃ t, RunSnapshot.wakeup wait = some t ∧ t ≤ now) ↔ Due now wait := by
  unfold RunSnapshot.wakeup Due
  by_cases hopen : wait.state = .open
  · rw [if_pos hopen]
    cases hd : wait.delivery with
    | none => simp [hopen]
    | some delivery =>
      by_cases hc : wait.startConfirmed = true
      · simp [hopen, hc]
      · simp [hopen, hc]
  · simp [hopen]

theorem earliest_due {xs : List UInt64} {now : UInt64} :
    (∃ t, xs.min? = some t ∧ t ≤ now) ↔ ∃ t ∈ xs, t ≤ now := by
  constructor
  · rintro ⟨t, ht, hle⟩
    exact ⟨t, List.min?_mem ht, hle⟩
  · rintro ⟨t, ht, hle⟩
    cases hm : xs.min? with
    | none =>
      rw [List.min?_eq_none_iff.mp hm] at ht
      cases ht
    | some m =>
      have hmin := (List.min?_eq_some_iff.mp hm).2 t ht
      exact ⟨m, rfl, UInt64.le_trans hmin hle⟩

/-- The supervisor selects a waiting run when its deadline has come, or when one of its waits
lets it go on. -/
theorem runnable_waiting {run : RunSnapshot} {now : UInt64} (hw : run.state = .waiting) :
    runnable run.head now = true ↔ run.deadlineAtMs ≤ now ∨
      ∃ (id : String) (wait : WaitRecord), run.waits[id]? = some wait ∧ Due now wait := by
  -- a wakeup that has come is that of a due wait
  have hpending : (∃ t ∈ (BTreeMap.valueList run.waits).filterMap RunSnapshot.wakeup, t ≤ now) ↔
      ∃ (id : String) (wait : WaitRecord), run.waits[id]? = some wait ∧ Due now wait := by
    simp only [List.mem_filterMap, ← wakeup_due]
    constructor
    · rintro ⟨t, ⟨wait, hmem, ht⟩, hle⟩
      obtain ⟨id, hid⟩ := BTreeMap.mem_valueList.mp hmem
      exact ⟨id, wait, hid, t, ht, hle⟩
    · rintro ⟨id, wait, hid, t, ht, hle⟩
      exact ⟨t, ⟨wait, BTreeMap.mem_valueList.mpr ⟨id, hid⟩, ht⟩, hle⟩
  rw [← hpending, ← earliest_due]
  -- the head wakes at the earliest of them, or at the deadline
  have hhead : runnable run.head now = true ↔
      min (((BTreeMap.valueList run.waits).filterMap RunSnapshot.wakeup).min?.getD
        run.deadlineAtMs) run.deadlineAtMs ≤ now := by
    simp [runnable, RunSnapshot.head, RunSnapshot.nextWakeupAtMs, hw]
  rw [hhead, Std.min_le]
  cases ((BTreeMap.valueList run.waits).filterMap RunSnapshot.wakeup).min? with
  | none => simp
  | some t => simp [or_comm]

/-! ## A waiting run -/

/-- A resolution never leaves a run waiting. -/
theorem ReconcileLaw.not_waiting {c : Composition} {access : AccessContext}
    {command : ReconcileCommand} {now : UInt64} {run next : RunSnapshot}
    {receipt : ReconcileReceipt} {node : String} {old : InvocationRecord} {resolved : Resolved}
    {revision : UInt64}
    (law : ReconcileLaw c access command now run receipt next node old resolved revision) :
    next.state ≠ .waiting := by
  have hnext : next = (audited command access.actor now revision resolved).2 :=
    congrArg Prod.snd law.result
  have hresolved : resolved.1.state ≠ .waiting := by
    cases law.resolution with
    | stopped =>
      show (if run.cancelRequested = true then RunState.cancelled else .failed) ≠ _
      split <;> simp
    | _ => simp [law.blocked]
  rw [hnext]
  simp only [audited, unblock]
  split
  · show (if resolved.1.cancelRequested = true then RunState.cancelling else .accepted) ≠ _
    split <;> simp
  · exact hresolved

/-- A run comes to wait only when its worker suspends it. Otherwise it waited before, with
the same waits unless its nodes were worked on. -/
theorem Edited.waiting {edited : RunSnapshot} (h : Edited s w a edited) (inv : Coherent w.run)
    (hw : edited.state = .waiting) :
    a = .suspend ∨ w.run.state = .waiting ∧ a ≠ .begin ∧
      (edited.waits = w.run.waits ∨ w.job = .body) := by
  cases h with
  | recovered down blocked =>
    have hw : (if w.run.cancelRequested = true then RunState.cancelling else .running) =
      .waiting := hw
    split at hw <;> cases hw
  | bootBlocked | blocked => cases hw
  -- a run that is begun runs, unless it is being cancelled
  | begun process taken live =>
    unfold beginRun at hw
    split at hw
    next hc =>
      have hcancel := inv.not_waiting hw
      rw [hc] at hcancel
      cases hcancel
    · cases hw
  | suspended => exact .inl rfl
  | @finished c error cancelled working quiet live =>
    by_cases hr : awaitsResolution (markedRun w.run).invocations = true
    · rw [finishError_blocked hr] at hw
      cases hw
    · rw [finishError_ended (by simpa using hr)] at hw
      cases cancelled <;> cases hw
  -- a value ends the run
  | @concluded c value later cancelled working quiet resolved live =>
    have hterminal : (outcome c.limits value w.now cancelled w.run w.run.head).state.isTerminal =
      true := outcome_isTerminal
    have hw : (outcome c.limits value w.now cancelled w.run w.run.head).state = .waiting := hw
    rw [hw] at hterminal
    cases hterminal
  | cancelled => cases hw
  -- a delivery wakes the run
  | signalled running authorized checked named scope law =>
    have hw : (if w.run.state = .waiting then RunState.running else w.run.state) = .waiting := hw
    split at hw
    · cases hw
    next hne => exact absurd hw hne
  | observed => exact .inr ⟨hw, by simp, .inl rfl⟩
  | reconciled running named law =>
    exact absurd hw (ReconcileLaw.not_waiting law)
  -- edits of records and waits keep the state
  | operation live edit =>
    refine .inr ⟨hw, ?_, .inl rfl⟩
    cases edit with
    | fail reported => cases reported <;> simp
    | _ => simp
  | control working live node edit =>
    refine .inr ⟨hw, ?_, .inl rfl⟩
    cases edit <;> simp
  | stopped working live => exact .inr ⟨hw, by simp, .inr working.2⟩
  | waited working live edit =>
    have hstate : w.run.state = .waiting := by
      rw [← edit.state]
      exact hw
    refine .inr ⟨hstate, ?_, .inr working.2⟩
    cases edit <;> simp

/-- A change of a live run is never declined. -/
theorem onTransition_ne_declined {edit : RunSnapshot → RunSnapshot}
    (hl : w.run.state.isTerminal = false) : w.onTransition edit ≠ some none := by
  unfold World.onTransition transition update updateWithView
  rw [if_neg (by simp [hl])]
  cases hrev : checkedAdd w.run.revision 1 with
  | none => simp [Proposal.ofRun]
  | some revision => simp [Proposal.ofRun]

/-- A run that is taken up begins. -/
theorem begin_commits (hr : Reachable s w) (h : w.step s .begin = some w') :
    w.job = .taken ∧ ∃ revision, w'.run = (beginRun w.run).atRevision revision := by
  obtain ⟨p, w₁, hp, ha, rfl⟩ := World.step_eq_some h
  obtain ⟨⟨c, hprocess⟩, hjob⟩ := begin_possible hp
  refine ⟨hjob, ?_⟩
  have hlive : w.run.state.isTerminal = false := (hr.phase.working (by simp [hjob])).2
  have hproposal : w.onTransition beginRun = some p := by
    simpa only [World.proposal, hprocess, hjob] using hp
  rw [after_run]
  rcases accept_eq_some hp ha with ⟨rfl, -⟩ | ⟨edited, revision, hedit, -, rfl⟩
  · exact absurd hproposal (onTransition_ne_declined hlive)
  · cases hedit with
    | begun => exact ⟨revision, rfl⟩
    | operation live edit =>
      cases edit with
      | fail reported => cases reported
    | control working live node edit => cases edit
    | waited working live edit => cases edit

/-- The worker of a run that now waits has just suspended it, or it waited before. -/
theorem Reachable.waiting_step (hr : Reachable s w) (h : w.step s a = some w')
    (hw : w'.run.state = .waiting) :
    a = .suspend ∨ w.run.state = .waiting ∧ a ≠ .begin ∧
      (w'.run.waits = w.run.waits ∨ w.job = .body) := by
  rcases step_run h with ⟨hrun, -⟩ | ⟨edited, revision, hedit, -, hrun, -⟩
  · rw [hrun] at hw ⊢
    refine .inr ⟨hw, ?_, .inl rfl⟩
    rintro rfl
    obtain ⟨-, revision, hbegun⟩ := begin_commits hr h
    have hstate : (beginRun w.run).state = .waiting := by
      rw [← hw]
      exact (congrArg RunSnapshot.state (hrun.symm.trans hbegun)).symm
    -- a run that begins runs, unless it is cancelled
    unfold beginRun at hstate
    split at hstate
    next hc =>
      rw [hr.coherent.not_waiting hw] at hc
      cases hc
    · cases hstate
  · rw [hrun] at hw ⊢
    exact hedit.waiting hr.coherent hw

/-- Nobody works on the nodes of a waiting run. -/
theorem Reachable.waiting_unworked (hr : Reachable s w) (hw : w.run.state = .waiting) :
    w.job ≠ .body := by
  suffices h : w.job = .body → w.run.state ≠ .waiting from fun hj => h hj hw
  clear hw
  apply hr.invariant (P := fun w => w.job = .body → w.run.state ≠ .waiting)
  · intro w h hj
    simp [h.fresh.2.1] at hj
  · intro w a w' hreach inv _ h hj hw'
    have hphase := step_phase h
    generalize w'.process = process at hphase
    generalize w'.job = job at hphase hj
    rcases hreach.waiting_step h hw' with rfl | ⟨hw, hbegin, -⟩
    · cases hphase with
      | same stays => cases stays
      | left => cases hj
    · cases hphase with
      | same | ended | booted | blocked | classified | ready => exact inv hj hw
      | crashed | taken | left => cases hj
      | begun => exact hbegin rfl

/-- While a run waits, its waits stay as its worker left them. -/
theorem Reachable.waiting_kept (hr : Reachable s w) (hw : w.run.state = .waiting)
    (h : w.step s a = some w') (hw' : w'.run.state = .waiting) : w'.run.waits = w.run.waits := by
  have hjob := hr.waiting_unworked hw
  rcases hr.waiting_step h hw' with rfl | ⟨-, -, hkept | hbody⟩
  · have hphase := step_phase h
    generalize w'.process = process at hphase
    generalize w'.job = job at hphase
    cases hphase with
    | same stays => cases stays
    | left working => exact absurd working.2 hjob
  · exact hkept
  · exact absurd hbody hjob

/-! ## No lost wakeup -/

/-- What holds of a run that waits. -/
structure WakeupLaw (s : Setup) (w : World) : Prop where
  /-- No cancellation is left waiting. -/
  uncancelled : w.run.cancelRequested = false
  /-- The supervisor selects the run as soon as its deadline has come, a wait can be consumed,
  or nobody answered a wait in time; and not before. -/
  selected : runnable w.run.head w.now = true ↔ w.run.deadlineAtMs ≤ w.now ∨
    ∃ (id : String) (wait : WaitRecord), w.run.waits[id]? = some wait ∧ Due w.now wait
  /-- No wait outlasts its run. -/
  bounded : ∀ (id : String) (wait : WaitRecord), w.run.waits[id]? = some wait →
    wait.deadlineAtMs ≤ w.run.deadlineAtMs
  /-- Whatever happens, the run goes on waiting for the same, or does not wait any more. -/
  kept : ∀ a w', w.step s a = some w' → w'.run.state = .waiting → w'.run.waits = w.run.waits
  /-- A run that is due, under a host that is up and has not taken it, is taken up and worked
  on again. -/
  resumed : ∀ c, w.process = .up c true → w.job = .idle → runnable w.run.head w.now = true →
    w.run.revision.toNat + 1 < UInt64.size →
    ∃ w₁ w₂, w.step s .take = some w₁ ∧ w₁.step s .begin = some w₂ ∧ Working w₂ c ∧
      w₂.run.state = .running ∧ w₂.run.waits = w.run.waits

/-- A run that is due can be taken up. -/
theorem take_begin {c : Composition} (hr : Reachable s w) (hw : w.run.state = .waiting)
    (hp : w.process = .up c true) (hj : w.job = .idle)
    (hdue : runnable w.run.head w.now = true) (hrev : w.run.revision.toNat + 1 < UInt64.size) :
    ∃ w₁ w₂, w.step s .take = some w₁ ∧ w₁.step s .begin = some w₂ ∧ Working w₂ c ∧
      w₂.run.state = .running ∧ w₂.run.waits = w.run.waits := by
  have hcancel := hr.coherent.not_waiting hw
  have hlive : w.run.state.isTerminal = false := by
    rw [hw]
    rfl
  -- a worker takes the run, which is due
  have htake : w.step s .take = some { w with job := .taken } := by
    simp [World.step, World.proposal, hp, hj, hdue, World.accept, World.after]
  have hrevision : checkedAdd w.run.revision 1 = some (w.run.revision + 1) := by
    rw [checkedAdd, if_pos]
    exact hrev
  have hbegun : beginRun w.run = { w.run with state := .running } := by
    simp [beginRun, hcancel]
  have hedit : Edited s { w with job := .taken } .begin (beginRun w.run) :=
    .begun hp rfl hlive
  have hr₁ : Reachable s { w with job := .taken } := hr.step (a := .take) trivial htake
  have hok := RunSnapshot.validateSuccessor_ok_iff.mpr (hedit.successor hr₁ hr₁.waitsInv hrevision)
  -- and begins it, which the store accepts as a successor
  have hbegin : ({ w with job := .taken } : World).step s .begin = some
      { w with
        run := (beginRun w.run).atRevision (w.run.revision + 1)
        older := w.run :: w.older
        job := .body } := by
    have hproposal : ({ w with job := .taken } : World).proposal s .begin =
        some (some (.run ((beginRun w.run).atRevision (w.run.revision + 1)))) := by
      simp [World.proposal, hp, World.onTransition, transition, update, updateWithView, hlive,
        hrevision, Proposal.ofRun]
    simp only [World.step, hproposal, Option.bind_some, World.accept, hok, Option.map_some,
      World.after, World.committed]
  refine ⟨_, _, htake, hbegin, ⟨hp, rfl⟩, ?_, ?_⟩
  · show (beginRun w.run).state = .running
    rw [hbegun]
  · show (beginRun w.run).waits = w.run.waits
    rw [hbegun]

/-- No wakeup of a waiting run is lost. -/
theorem waiting_wakes (hr : Reachable s w) (hw : w.run.state = .waiting) : WakeupLaw s w where
  uncancelled := hr.coherent.not_waiting hw
  selected := runnable_waiting hw
  bounded id wait h := by
    obtain ⟨correlation, duration, -, hdeadline⟩ := (hr.waitShape h).awaits
    rw [hdeadline]
    exact Std.min_le_right
  kept _ _ h hw' := hr.waiting_kept hw h hw'
  resumed _ hp hj hdue hrev := take_begin hr hw hp hj hdue hrev

/-- The sample run waits for its timer, and is worked on again when the time has come. -/
theorem waiting_wakes_sample :
    ∃ w w₁ w₂ : World, w.run.state = .waiting ∧ w.step sampleSetup .take = some w₁ ∧
      w₁.step sampleSetup .begin = some w₂ ∧ w₂.run.state = .running := by
  obtain ⟨w₀, w, hr, hl, -, hw⟩ := @sample_run _ _ (fun _ => ())
    (fun w => (w.run.state, w.process.recovers, w.job, runnable w.run.head w.now, w.run.revision))
    () (.waiting, true, .idle, true, 3)
    [.take, .begin, .reserve "pause" "" .null false] [.suspend, .tick 20]
    (by simp [SampleActions]) (by decide +kernel) (by decide +kernel)
  obtain ⟨hstate, hup, hjob, hdue, hrevision⟩ := by simpa only [Prod.mk.injEq] using hw
  obtain ⟨c, hprocess⟩ := Process.recovers_eq_true.mp hup
  have law := waiting_wakes (hr.leads hl) hstate
  obtain ⟨w₁, w₂, htake, hbegin, -, hrunning, -⟩ :=
    law.resumed c hprocess hjob hdue (by rw [hrevision]; decide)
  exact ⟨w, w₁, w₂, hstate, htake, hbegin, hrunning⟩

end WorkflowForge.Run
