import WorkflowForge.System.Phase

/-!
# Invariants of a Run

The invariants that tie what the process remembers to what is stored: which phases allow
work, which record a worker works on, and who owns an attempt that is still open.

## Main results

- `Reachable.phase`: work needs a recovered plan and a live run that is not blocked.
- `Reachable.shape`: every record belongs to the activity of its key.
- `Reachable.worker`: a worker works on the open attempt of its record.
- `Reachable.owned`: an open attempt of a recovered run has a worker, or is to be classified.
-/

namespace WorkflowForge.Run

open Lib Engine

variable {s : Setup} {w w' w₁ : World} {a : Action} {key : String}

/-! ## Phases -/

/-- A run that can be worked on. -/
def Open (state : RunState) : Prop :=
  state ≠ .blocked ∧ state.isTerminal = false

/-- What the process and the job say about the plan, the workers and the run. -/
structure PhaseInv (s : Setup) (w : World) : Prop where
  registered : ∀ c, w.process = .up c true → Registered c s
  booting : ∀ c attempts cancelled, w.process = .booting c attempts cancelled →
    Registered c s ∧ w.run.state.isTerminal = false
  employed : w.job ≠ .idle → ∃ c, w.process = .up c true
  working : w.job ≠ .idle → Open w.run.state
  quiet : w.job ≠ .body → w.workers = ∅

/-- While a run is booted, only its attempts are classified. -/
theorem Edited.of_booting {edited : RunSnapshot} (h : Edited s w a edited) {c : Composition}
    {attempts : List (String × InvocationRecord)} {cancelled : Bool}
    (hp : w.process = .booting c attempts cancelled) :
    ∃ key record, OperationEdit s w key a record ∧ edited = w.run.setRecord key record := by
  have hdown : w.process ≠ .down := by simp [hp]
  have hup : ∀ c' b, w.process ≠ .up c' b := by simp [hp]
  have hrunning : ∀ c', w.running ≠ some c' := by simp [World.running, hp]
  cases h with
  | recovered down => exact absurd down hdown
  | bootBlocked down => exact absurd down hdown
  | blocked process => exact absurd process (hup _ _)
  | begun process => exact absurd process (hup _ _)
  | suspended working => exact absurd working.1 (hup _ _)
  | finished working => exact absurd working.1 (hup _ _)
  | concluded working => exact absurd working.1 (hup _ _)
  | cancelled running => exact absurd running (hrunning _)
  | signalled running => exact absurd running (hrunning _)
  | observed running => exact absurd running (hrunning _)
  | reconciled running => exact absurd running (hrunning _)
  -- a boot only classifies attempts
  | operation live edit => exact ⟨_, _, edit, rfl⟩
  | control working => exact absurd working.1 (hup _ _)
  | stopped working => exact absurd working.1 (hup _ _)
  | waited working => exact absurd working.1 (hup _ _)

/-- A wait transition leaves the state of the run. -/
theorem WaitEdit.state {c : Composition} {next : RunSnapshot} (h : WaitEdit s w c key a next) :
    next.state = w.run.state := by
  cases h <;> rfl

/-- A run that is worked on stays open until its job is left. -/
theorem Edited.working {edited : RunSnapshot} (h : Edited s w a edited) {c : Composition}
    (hp : w.process = .up c true) (hj : w.job ≠ .idle) (ho : Open w.run.state)
    (hl : a.leaves = false) : Open edited.state := by
  have hdown : w.process ≠ .down := by simp [hp]
  cases h with
  -- a host that boots has no job
  | recovered down => exact absurd down hdown
  | bootBlocked down => exact absurd down hdown
  | blocked process idle => exact absurd idle hj
  | begun =>
    unfold beginRun
    split
    · exact ho
    · exact ⟨by simp, rfl⟩
  -- these three leave the job
  | suspended => nomatch hl
  | finished => nomatch hl
  | concluded => nomatch hl
  -- a run that is cancelled is worked on until its body ends
  | cancelled => exact ⟨by simp [cancelRun], rfl⟩
  | @signalled c phase access received command receipt next wait =>
    change Open (if w.run.state = .waiting then .running else w.run.state)
    split
    · exact ⟨by simp, rfl⟩
    · exact ho
  | observed => exact ho
  -- a report needs a blocked run
  | reconciled running named law => exact absurd law.blocked ho.1
  | operation => exact ho
  | control => exact ho
  | stopped => exact ho
  | waited working live edit =>
    rw [edit.state]
    exact ho

/-- A run that is due to be worked on is open. -/
theorem open_of_runnable {now : UInt64} (h : runnable w.run.head now = true) :
    Open w.run.state := by
  unfold runnable at h
  rw [decide_eq_true_eq] at h
  change w.run.state = .accepted ∨ w.run.state = .running ∨ w.run.state = .cancelling ∨
    (w.run.state = .waiting ∧ _) at h
  rcases h with h | h | h | h
  · exact ⟨by simp [h], by rw [h]; rfl⟩
  · exact ⟨by simp [h], by rw [h]; rfl⟩
  · exact ⟨by simp [h], by rw [h]; rfl⟩
  · exact ⟨by simp [h.1], by rw [h.1]; rfl⟩

/-- An accepted proposal leaves the revision aside. -/
theorem step_open (h : w.step s a = some w')
    (hedit : ∀ edited, Edited s w a edited → Open edited.state) (ho : Open w.run.state) :
    Open w'.run.state := by
  rcases step_run h with ⟨hrun, -⟩ | ⟨edited, revision, he, -, hrun, -⟩
  · rw [hrun]
    exact ho
  · rw [hrun]
    exact hedit edited he

/-- Without a body at work, no worker appears. -/
theorem step_quiet (h : w.step s a = some w') (hw : w.workers = ∅)
    (hb : ∀ c, ¬Working w c) : w'.workers = ∅ := by
  apply Std.ExtTreeMap.ext_getElem?
  intro key
  rw [Std.ExtTreeMap.getElem?_empty]
  have hs := step_worker h key
  generalize w'.workers[key]? = x at hs
  cases hs with
  | same =>
    rw [hw]
    exact Std.ExtTreeMap.getElem?_empty
  | crashed => rfl
  | authorized working => exact absurd working (hb _)
  | called working => exact absurd working (hb _)
  | returned working => exact absurd working (hb _)
  | failed working => exact absurd working (hb _)
  | exceeded working => exact absurd working (hb _)
  | succeeded => rfl
  | reported => rfl

namespace PhaseInv

theorem ofStarted (h : Started s w) : PhaseInv s w := by
  obtain ⟨-, hjob, hworkers, -⟩ := h.fresh
  obtain ⟨c, hprocess, -, hregistered⟩ := h.process
  refine ⟨fun c' hc => ?_, fun c' l b hc => ?_, fun hj => absurd hjob hj,
    fun hj => absurd hjob hj, fun _ => hworkers⟩
  · obtain ⟨rfl, -⟩ := Process.up.inj (hprocess.symm.trans hc)
    exact hregistered
  · rw [hprocess] at hc
    nomatch hc

/-- Only an accepted boot recovers a plan. -/
theorem registered_step (inv : PhaseInv s w) (h : w.step s a = some w')
    (ha : Admissible s w a) (c : Composition) (hc : w'.process = .up c true) :
    Registered c s := by
  have hphase := step_phase h
  generalize w'.job = job' at hphase
  rw [hc] at hphase
  generalize hx : Process.up c true = x at hphase
  cases hphase with
  | same => exact inv.registered c hx.symm
  | crashed => nomatch hx
  | ended =>
    obtain ⟨rfl, -⟩ := Process.up.inj hx
    exact ha
  | booted => nomatch hx
  | blocked => simp at hx
  | classified => nomatch hx
  -- a process comes up with the composition it booted with
  | ready process =>
    obtain ⟨rfl, -⟩ := Process.up.inj hx
    exact (inv.booting _ _ _ process).1
  | taken => exact inv.registered c hx.symm
  | begun => exact inv.registered c hx.symm
  | left => exact inv.registered c hx.symm

theorem booting_step (inv : PhaseInv s w) (h : w.step s a = some w') (ha : Admissible s w a)
    (c : Composition) (attempts : List (String × InvocationRecord)) (cancelled : Bool)
    (hc : w'.process = .booting c attempts cancelled) :
    Registered c s ∧ w'.run.state.isTerminal = false := by
  -- a commit while the run is booted changes one record
  have hlive : ∀ c' l b, w.process = .booting c' l b → w'.run.state.isTerminal = false := by
    intro c' l b hp
    rcases step_run h with ⟨hrun, -⟩ | ⟨edited, revision, he, -, hrun, -⟩
    · rw [hrun]
      exact (inv.booting c' l b hp).2
    · rw [hrun]
      obtain ⟨key, record, -, rfl⟩ := he.of_booting hp
      exact (inv.booting c' l b hp).2
  have hphase := step_phase h
  generalize w'.job = job' at hphase
  rw [hc] at hphase
  generalize hx : Process.booting c attempts cancelled = x at hphase
  cases hphase with
  | same => exact ⟨(inv.booting c _ _ hx.symm).1, hlive c _ _ hx.symm⟩
  | crashed => nomatch hx
  | ended => nomatch hx
  | booted down live =>
    obtain ⟨rfl, -, -⟩ := Process.booting.inj hx
    exact ⟨ha, live⟩
  | blocked => nomatch hx
  | classified process =>
    obtain ⟨rfl, -, -⟩ := Process.booting.inj hx
    exact ⟨(inv.booting c _ _ process).1, hlive c _ _ process⟩
  | ready => nomatch hx
  | taken => exact ⟨(inv.booting c _ _ hx.symm).1, hlive c _ _ hx.symm⟩
  | begun => exact ⟨(inv.booting c _ _ hx.symm).1, hlive c _ _ hx.symm⟩
  | left => exact ⟨(inv.booting c _ _ hx.symm).1, hlive c _ _ hx.symm⟩

theorem employed_step (inv : PhaseInv s w) (h : w.step s a = some w') (hj : w'.job ≠ .idle) :
    (∃ c, w'.process = .up c true) ∧ Open w'.run.state := by
  have hdown : w.process = .down → w.job = .idle := by
    intro hp
    by_contra hj
    obtain ⟨c, hc⟩ := inv.employed hj
    rw [hp] at hc
    nomatch hc
  have hbooting : ∀ c l b, w.process = .booting c l b → w.job = .idle := by
    intro c l b hp
    by_contra hj
    obtain ⟨c', hc⟩ := inv.employed hj
    rw [hp] at hc
    nomatch hc
  -- a job that is kept, or begun, leaves the run open
  have hopen : ∀ c, w.process = .up c true → w.job ≠ .idle → a.leaves = false →
      Open w'.run.state := fun c hp hj hl =>
    step_open h (fun edited he => he.working hp hj (inv.working hj) hl) (inv.working hj)
  have hphase := step_phase h
  generalize hprocess' : w'.process = process' at hphase
  generalize w'.job = job' at hphase hj
  cases hphase with
  | same stays =>
    obtain ⟨c, hc⟩ := inv.employed hj
    exact ⟨⟨c, hc⟩, hopen c hc hj stays⟩
  | crashed => exact absurd rfl hj
  | ended down => exact absurd (hdown down) hj
  | booted down => exact absurd (hdown down) hj
  | blocked down => exact absurd (hdown down) hj
  | classified process => exact absurd (hbooting _ _ _ process) hj
  | ready process => exact absurd (hbooting _ _ _ process) hj
  | taken process idle due kept =>
    rw [kept]
    exact ⟨⟨_, process⟩, open_of_runnable due⟩
  | begun process taken =>
    have hj' : w.job ≠ .idle := by simp [taken]
    exact ⟨⟨_, process⟩, hopen _ process hj' rfl⟩
  | left => exact absurd rfl hj

theorem quiet_step (inv : PhaseInv s w) (h : w.step s a = some w') (hj : w'.job ≠ .body) :
    w'.workers = ∅ := by
  -- a body that was at work has left, so no worker was left before
  have hleft : w.job = .body → a.leaves = true → w'.workers = ∅ := by
    intro hb hl
    apply Std.ExtTreeMap.ext_getElem?
    intro key
    have hphase := step_phase h
    have hs := step_worker h key
    generalize w'.workers[key]? = x at hs
    generalize w'.process = process' at hphase
    generalize w'.job = job' at hphase hj
    cases hs with
    | same alive =>
      cases hphase with
      | left working quiet =>
        rw [quiet]
      | same stays =>
        rw [stays] at hl
        nomatch hl
      | crashed => exact absurd rfl alive
      | _ => nomatch hl
    | crashed => exact Std.ExtTreeMap.getElem?_empty.symm
    | _ => nomatch hl
  by_cases hb : w.job = .body
  · by_cases hl : a.leaves = true
    · exact hleft hb hl
    · have hphase := step_phase h
      generalize w'.process = process' at hphase
      generalize hjob' : w'.job = job' at hphase hj
      -- every phase but a leaving one keeps the body at work
      cases hphase with
      | same => exact absurd hb hj
      | crashed => exact absurd rfl hl
      | ended => exact absurd hb hj
      | booted => exact absurd hb hj
      | blocked => exact absurd hb hj
      | classified => exact absurd hb hj
      | ready => exact absurd hb hj
      | taken process idle =>
        rw [hb] at idle
        nomatch idle
      | begun => exact absurd rfl hj
      | left working quiet leaves => exact absurd leaves hl
  · exact step_quiet h (inv.quiet hb) fun c hw => hb hw.2

end PhaseInv

/-- Work needs a recovered plan and a live run that is not blocked. -/
theorem Reachable.phase (hr : Reachable s w) : PhaseInv s w := by
  apply hr.invariant
  · intro w h
    exact .ofStarted h
  · intro w a w' _ inv ha h
    exact ⟨inv.registered_step h ha, inv.booting_step h ha,
      fun hj => (inv.employed_step h hj).1, fun hj => (inv.employed_step h hj).2,
      inv.quiet_step h⟩

/-! ## Attempts found at boot -/

/-- What a boot still has to classify is what is stored. -/
def AttemptsInv (w : World) : Prop :=
  ∀ c attempts cancelled, w.process = .booting c attempts cancelled →
    (∀ e ∈ attempts, w.run.invocations[e.1]? = some e.2) ∧ (attempts.map Prod.fst).Nodup

theorem mem_unfinishedAttempts {run : RunSnapshot} {e : String × InvocationRecord} :
    e ∈ unfinishedAttempts run ↔ run.invocations[e.1]? = some e.2 ∧ e.2.state = .running := by
  obtain ⟨key, r⟩ := e
  rw [unfinishedAttempts, List.mem_filter, Std.ExtTreeMap.mem_toList_iff_getElem?_eq_some,
    decide_eq_true_eq]

theorem nodup_unfinishedAttempts (run : RunSnapshot) :
    ((unfinishedAttempts run).map Prod.fst).Nodup := by
  have hd := Std.ExtTreeMap.distinct_keys_toList (t := run.invocations)
  have hf := hd.filter fun e : String × InvocationRecord => decide (e.2.state = .running)
  unfold unfinishedAttempts List.Nodup
  rw [List.pairwise_map]
  refine hf.imp ?_
  intro e e' h heq
  rw [heq] at h
  exact h Std.ReflCmp.compare_self

/-- While a run is booted, the next of its attempts is classified. -/
theorem OperationEdit.of_booting {r : InvocationRecord} (h : OperationEdit s w key a r)
    {c : Composition} {attempts : List (String × InvocationRecord)} {cancelled : Bool}
    (hp : w.process = .booting c attempts cancelled) :
    (∃ later delay, a = .classify later delay) ∧
      ∃ record rest, attempts = (key, record) :: rest := by
  have hup : ∀ c', ¬Working w c' := by
    intro c' hw
    rw [hw.1] at hp
    nomatch hp
  cases h with
  | intend working => exact absurd working (hup _)
  | succeed working => exact absurd working (hup _)
  | fail reported =>
    cases reported with
    | worker working => exact absurd working (hup _)
    | found working => exact absurd working (hup _)
    | boot process =>
      obtain ⟨-, rfl, -⟩ := Process.booting.inj (process.symm.trans hp)
      exact ⟨⟨_, _, rfl⟩, _, _, rfl⟩

/-- A step of a boot changes no record but the one it classifies. -/
theorem booting_record (h : w.step s a = some w') {c : Composition}
    {attempts : List (String × InvocationRecord)} {cancelled : Bool}
    (hp : w.process = .booting c attempts cancelled) {key : String}
    (hk : (∀ later delay, a ≠ .classify later delay) ∨
      ∀ record rest, attempts ≠ (key, record) :: rest) :
    w'.run.invocations[key]? = w.run.invocations[key]? := by
  rcases step_run h with ⟨hrun, -⟩ | ⟨edited, revision, he, -, hrun, -⟩
  · rw [hrun]
  · obtain ⟨node, record, hedit, rfl⟩ := he.of_booting hp
    obtain ⟨⟨later, delay, ha⟩, old, rest, hl⟩ := hedit.of_booting hp
    have hne : node ≠ key := by
      rintro rfl
      rcases hk with hk | hk
      · exact hk later delay ha
      · exact hk old rest hl
    rw [hrun]
    change (w.run.setRecord node record).invocations[key]? = _
    rw [RunSnapshot.setRecord_get, if_neg hne]

theorem Reachable.attempts (hr : Reachable s w) : AttemptsInv w := by
  apply hr.invariant
  · intro w h c l b hp
    obtain ⟨c', hprocess, -⟩ := h.process
    rw [hprocess] at hp
    nomatch hp
  · intro w a w' _ inv _ h c l b hp
    have hphase := step_phase h
    generalize w'.job = job' at hphase
    rw [hp] at hphase
    generalize hx : Process.booting c l b = x at hphase
    cases hphase with
    -- nothing that is stored changes while the boot goes on
    | same stays other =>
      obtain ⟨hstored, hnodup⟩ := inv c l b hx.symm
      refine ⟨fun e he => ?_, hnodup⟩
      rw [booting_record h hx.symm (.inl other)]
      exact hstored e he
    | crashed => nomatch hx
    | ended => nomatch hx
    -- a boot starts with what the stored run has unfinished
    | booted down live kept =>
      obtain ⟨-, rfl, -⟩ := Process.booting.inj hx
      refine ⟨fun e he => ?_, nodup_unfinishedAttempts w.run⟩
      rw [kept]
      exact (mem_unfinishedAttempts.mp he).1
    | blocked => nomatch hx
    -- the classified attempt leaves the list
    | @classified later delay c' e rest cancelled process =>
      obtain ⟨-, rfl, -⟩ := Process.booting.inj hx
      obtain ⟨hstored, hnodup⟩ := inv c' _ cancelled process
      rw [List.map_cons, List.nodup_cons] at hnodup
      refine ⟨fun e' he' => ?_, hnodup.2⟩
      rw [booting_record h process (.inr ?_)]
      · exact hstored e' (List.mem_cons_of_mem _ he')
      · -- the attempts left belong to other keys
        intro record rest' heq
        have hkey : e.1 = e'.1 := by rw [(List.cons.inj heq).1]
        apply hnodup.1
        rw [hkey]
        exact List.mem_map_of_mem he'
    | ready => nomatch hx
    | taken process =>
      rw [process] at hx
      nomatch hx
    | begun process =>
      rw [process] at hx
      nomatch hx
    | left working =>
      rw [working.1] at hx
      nomatch hx

/-! ## Records and activities -/

/-- Whoever reports a failure reports one of an operation. -/
theorem Reported.node {attempt : String} {descriptor : OperationDescriptor}
    {report : FailureReport} (h : Reported s w a key attempt descriptor report)
    (hattempts : AttemptsInv w)
    (hshape : ∀ key r, w.run.invocations[key]? = some r → Shape s w.run.id key r) :
    ∃ node, s.operation key = some node := by
  cases h with
  | worker working operation => exact ⟨_, operation⟩
  | found working operation => exact ⟨_, operation⟩
  | @boot key later delay c cancelled record rest descriptor process operation =>
    have hstored := (hattempts c _ cancelled process).1 (key, record) (List.mem_cons_self ..)
    have hsome : record.operation.isSome = true := by
      cases ho : record.operation with
      | none => simp [ho] at operation
      | some revision => rfl
    obtain ⟨node, hn, -⟩ := (hshape key record hstored).node_of_operation hsome
    exact ⟨node, hn⟩

/-- Every record belongs to the activity of its key. -/
theorem Reachable.shape (hr : Reachable s w) {r : InvocationRecord}
    (h : w.run.invocations[key]? = some r) : Shape s w.run.id key r := by
  have hall : ∀ key r, w.run.invocations[key]? = some r → Shape s w.run.id key r := by
    apply hr.invariant
      (P := fun w => ∀ key r, w.run.invocations[key]? = some r → Shape s w.run.id key r)
    · intro w h key r hr
      simp [h.initial.invocations] at hr
    · intro w a w' hw inv _ h key r hr
      have hid : w'.run.id = w.run.id := (hw.step_extends h).id.symm
      have hstep := step_record h key
      rw [hr] at hstep
      rw [hid]
      exact hstep.shape (inv key) fun hreported => hreported.node hw.attempts inv
  exact hall key r h

/-- A reported failure is classified under the contract of its operation. -/
theorem Reachable.reported (hr : Reachable s w) {attempt : String}
    {descriptor : OperationDescriptor} {report : FailureReport}
    (h : Reported s w a key attempt descriptor report) :
    ∃ node, s.operation key = some node ∧ node.operation.descriptor.effect = descriptor.effect ∧
      node.operation.descriptor.repetition = descriptor.repetition := by
  cases h with
  | worker working operation => exact ⟨_, operation, rfl, rfl⟩
  | found working operation => exact ⟨_, operation, rfl, rfl⟩
  | @boot key later delay c cancelled record rest descriptor process operation =>
    have hstored := (hr.attempts c _ cancelled process).1 (key, record) (List.mem_cons_self ..)
    have hsome : record.operation.isSome = true := by
      cases ho : record.operation with
      | none => simp [ho] at operation
      | some revision => rfl
    obtain ⟨node, hn, hrevision⟩ := (hr.shape hstored).node_of_operation hsome
    obtain ⟨current, hcurrent, hsame⟩ := (hr.phase.booting c _ cancelled process).1 key node hn
    rw [hrevision, Option.bind_some, hcurrent] at operation
    obtain rfl := Option.some.inj operation
    obtain ⟨-, heffect, hrepetition⟩ := OperationDescriptor.semanticValue_inj hsame
    exact ⟨node, hn, heffect, hrepetition⟩

/-! ## Workers -/

/-- The attempt a worker works on. -/
def Worker.attempt : Worker → String
  | .authorized record => record.attemptId
  | .called attempt | .returned attempt _ | .failed attempt _ => attempt

/-- A worker works on the open attempt of its record. -/
structure WorkerInv (s : Setup) (w : World) (key : String) (worker : Worker)
    (r : InvocationRecord) : Prop where
  operation : ∃ node, s.operation key = some node
  found : w.run.invocations[key]? = some r
  running : r.state = .running
  own : r.attemptId = worker.attempt
  authorized : ∀ record, worker = .authorized record → record = r
  issued : worker.attempt ∈ w.issued

/-- The actions that settle the attempt of a worker. -/
def Action.settles (key : String) (a : Action) : Prop :=
  a = .succeed key ∨ ∃ later delay, a = .fail key later delay

/-- While a worker has not settled its attempt, nobody changes its record. -/
theorem RecordStep.of_worker {x : Option InvocationRecord} (h : RecordStep s w a key x)
    (hphase : PhaseInv s w) {worker : Worker} (hw : w.workers[key]? = some worker)
    {r : InvocationRecord} (inv : WorkerInv s w key worker r) (hs : ¬a.settles key) :
    x = w.run.invocations[key]? := by
  -- only a body has workers
  have hbody : w.job = .body := by
    by_contra hj
    rw [hphase.quiet hj, Std.ExtTreeMap.getElem?_empty] at hw
    cases hw
  cases h with
  | same => rfl
  | operation edit =>
    cases edit with
    -- an intent needs a node without a worker
    | intend working operation alone =>
      rw [alone] at hw
      cases hw
    | succeed => exact absurd (.inl rfl) hs
    | fail reported =>
      cases reported with
      | worker => exact absurd (.inr ⟨_, _, rfl⟩) hs
      | found working operation alone =>
        rw [alone] at hw
        cases hw
      -- a boot finds no body
      | boot process =>
        obtain ⟨c, hc⟩ := hphase.employed (by simp [hbody])
        rw [hc] at process
        cases process
  -- the node of a worker is an operation
  | other edit =>
    obtain ⟨node, hn⟩ := inv.operation
    rw [edit.node] at hn
    cases hn
  -- a run ends without workers
  | marked action found working quiet =>
    rw [quiet, Std.ExtTreeMap.getElem?_empty] at hw
    cases hw
  -- a report is about an unknown attempt
  | @resolved c old r' phase access command action running found isNamed =>
    obtain rfl := Option.some.inj (inv.found.symm.trans found)
    simp only [named, decide_eq_true_eq] at isNamed
    rw [inv.running] at isNamed
    cases isNamed.2.2

/-- A worker works on the open attempt of its record. -/
theorem Reachable.worker (hr : Reachable s w) {worker : Worker}
    (h : w.workers[key]? = some worker) : ∃ r, WorkerInv s w key worker r := by
  have hall : ∀ key worker, w.workers[key]? = some worker → ∃ r, WorkerInv s w key worker r := by
    apply hr.invariant
      (P := fun w => ∀ key worker, w.workers[key]? = some worker → ∃ r, WorkerInv s w key worker r)
    · intro w h key worker hw
      rw [h.fresh.2.2.1, Std.ExtTreeMap.getElem?_empty] at hw
      nomatch hw
    · intro w a w' hreach inv _ h key worker hw
      have hrecord := step_record h key
      have hstep := step_worker h key
      rw [hw] at hstep
      -- a worker that was there before keeps its record
      have hkept : ∀ {old : Worker}, w.workers[key]? = some old → ¬a.settles key →
          worker.attempt = old.attempt →
          (∀ record, worker = .authorized record → old = .authorized record) →
          ∃ r, WorkerInv s w' key worker r := by
        intro old hold hsettles hattempt hauth
        obtain ⟨r, hinv⟩ := inv key old hold
        have hsame := hrecord.of_worker hreach.phase hold hinv hsettles
        refine ⟨r, hinv.operation, hsame.trans hinv.found, hinv.running, ?_, ?_, ?_⟩
        · rw [hattempt]
          exact hinv.own
        · intro record hrecord
          exact hinv.authorized record (hauth record hrecord)
        · rw [hattempt]
          exact step_issued h hinv.issued
      generalize hx : some worker = x at hstep
      cases hstep with
      | same alive other =>
        refine hkept hx.symm ?_ rfl fun _ h => h
        rintro (rfl | ⟨later, delay, rfl⟩)
        · exact other rfl
        · exact other rfl
      | crashed => nomatch hx
      | authorized working operation turn alone unused found own running issued =>
        obtain rfl := Option.some.inj hx
        refine ⟨_, ⟨_, operation⟩, found, running, rfl, ?_, ?_⟩
        · intro record hrecord
          exact (Worker.authorized.inj hrecord).symm
        · rw [issued]
          exact own ▸ List.mem_cons_self ..
      | called working operation old =>
        obtain rfl := Option.some.inj hx
        exact hkept old (by simp [Action.settles]) rfl (by simp)
      | returned working operation old =>
        obtain rfl := Option.some.inj hx
        exact hkept old (by simp [Action.settles]) rfl (by simp)
      | failed working operation old =>
        obtain rfl := Option.some.inj hx
        exact hkept old (by simp [Action.settles]) rfl (by simp)
      | exceeded working old =>
        obtain rfl := Option.some.inj hx
        exact hkept old (by simp [Action.settles]) rfl (by simp)
      | succeeded => nomatch hx
      | reported => nomatch hx
  exact hall key worker h

/-! ## Open attempts -/

/-- A decision on one record declines only in a run that is over, or by itself. -/
theorem onNode_declined {c : Composition} {checkBudget : Bool} {edit : NodeEdit}
    (h : w.onNode c checkBudget key edit = some none) (hl : w.run.state.isTerminal = false) :
    edit w.run.head w.run.invocations[key]? = .ok none := by
  unfold World.onNode Proposal.ofNode at h
  split at h
  next hu =>
    unfold updateNode at hu
    split at hu
    next hterminal =>
      change w.run.state.isTerminal = true at hterminal
      rw [hl] at hterminal
      nomatch hterminal
    · split at hu
      · nomatch hu
      next he => exact he
      · split at hu
        · nomatch hu
        · split at hu <;> nomatch hu
  · simp at h
  · nomatch h

/-- A worker that settles its attempt leaves no open attempt. -/
theorem settled_record (h : w.step s a = some w') (hs : a.settles key)
    (hl : w.run.state.isTerminal = false) {worker : Worker} {r r' : InvocationRecord}
    (hw : w.workers[key]? = some worker) (inv : WorkerInv s w key worker r)
    (hr' : w'.run.invocations[key]? = some r') : r'.state ≠ .running := by
  -- the record belongs to the attempt of its worker
  have hcurrent : ∀ attempt, worker.attempt = attempt → r.attemptId = attempt :=
    fun attempt ha => inv.own.trans ha
  rcases hs with rfl | ⟨later, delay, rfl⟩
  · obtain ⟨p, w₁, hp, ha, rfl⟩ := World.step_eq_some h
    rw [after_run] at hr'
    rcases accept_eq_some hp ha with ⟨rfl, -⟩ | ⟨edited, revision, he, -, rfl⟩
    · -- the commit of a current attempt is never declined
      obtain ⟨c, node, attempt, value, -, -, hworker, hnode⟩ := succeed_possible hp
      obtain rfl := Option.some.inj (hw.symm.trans hworker)
      have hnone := onNode_declined hnode hl
      rw [inv.found] at hnone
      simp [success, hcurrent attempt rfl, inv.running] at hnone
    · cases he with
      | operation live edit =>
        cases edit with
        | succeed =>
          change (w.run.setRecord key _).invocations[key]? = some r' at hr'
          rw [RunSnapshot.setRecord_get, if_pos rfl] at hr'
          obtain rfl := Option.some.inj hr'
          simp [succeededRecord]
        | fail reported => cases reported
      | control working live node edit => cases edit
      | waited working live edit => cases edit
  · obtain ⟨p, w₁, hp, ha, rfl⟩ := World.step_eq_some h
    rw [after_run] at hr'
    rcases accept_eq_some hp ha with ⟨rfl, -⟩ | ⟨edited, revision, he, -, rfl⟩
    · obtain ⟨c, node, attempt, report, -, -, hworker, hnode⟩ := fail_possible hp
      obtain rfl := Option.some.inj (hw.symm.trans hworker)
      have hnone := onNode_declined hnode hl
      rw [inv.found] at hnone
      simp [recordFailure, hcurrent attempt rfl, inv.running] at hnone
    · cases he with
      | operation live edit =>
        cases edit with
        | fail reported =>
          cases reported with
          | worker =>
            change (w.run.setRecord key _).invocations[key]? = some r' at hr'
            rw [RunSnapshot.setRecord_get, if_pos rfl] at hr'
            obtain rfl := Option.some.inj hr'
            exact failedRecord_state_ne.2.1
      | control working live node edit => cases edit
      | waited working live edit => cases edit

/-- A committed intent is what its worker is authorized by. -/
theorem intended_worker {attempt : String} {input : Value} {cancelled : Bool}
    (h : w.step s (.intend key attempt input cancelled) = some w') {r : InvocationRecord}
    (hr : w'.run.invocations[key]? = some r) (ha : r.attemptId = attempt)
    (hs : r.state = .running) : w'.workers[key]? = some (.authorized r) := by
  obtain ⟨p, -, h⟩ := step_eq_after h
  have hrecord : (({ w with run := w'.run, older := w'.older } : World).record key).filter
      (fun r => r.attemptId = attempt ∧ r.state = .running) = some r := by
    simp [World.record, hr, ha, hs]
  rw [h]
  simp only [World.after, World.startWorker, hrecord]
  rw [setWorker_get, if_pos rfl]

/-- A worker that has not settled its attempt stays, unless the process crashes. -/
theorem worker_stays (h : w.step s a = some w') (ha : a ≠ .crash) (hs : ¬a.settles key)
    (hw : w.workers[key]?.isSome = true) : w'.workers[key]?.isSome = true := by
  have hstep := step_worker h key
  generalize w'.workers[key]? = x at hstep
  cases hstep with
  | same => exact hw
  | crashed => exact absurd rfl ha
  | succeeded => exact absurd (.inl rfl) hs
  | reported => exact absurd (.inr ⟨_, _, rfl⟩) hs
  | _ => rfl

/-- The attempt a boot comes to is classified: it is open no more. -/
theorem Reachable.classified (hr : Reachable s w) {later delay : UInt64}
    (h : w.step s (.classify later delay) = some w') {c : Composition}
    {e : String × InvocationRecord} {rest : List (String × InvocationRecord)} {cancelled : Bool}
    (hp : w.process = .booting c (e :: rest) cancelled) {node : PreparedOperation}
    (hn : s.operation e.1 = some node) {r : InvocationRecord}
    (hr' : w'.run.invocations[e.1]? = some r) : r.state ≠ .running := by
  intro hrunning
  obtain ⟨hregistered, hlive⟩ := hr.phase.booting c _ cancelled hp
  have hstored := (hr.attempts c _ cancelled hp).1 e (List.mem_cons_self ..)
  obtain ⟨p, w₁, hprop, ha, rfl⟩ := World.step_eq_some h
  rw [after_run] at hr'
  rcases accept_eq_some hprop ha with ⟨rfl, rfl⟩ | ⟨edited, revision, he, -, rfl⟩
  · -- the plan offers the operation, so the attempt is found and is current
    obtain rfl := Option.some.inj (hstored.symm.trans hr')
    have hrevision := ((hr.shape hstored).ofOperation hn).1
    obtain ⟨current, hcurrent, -⟩ := hregistered e.1 node hn
    have hbind : e.2.operation.bind c.operations = some current := by
      rw [hrevision]
      exact hcurrent
    simp only [World.proposal, World.classify, hp, hbind] at hprop
    have hnone := onNode_declined hprop hlive
    rw [hstored] at hnone
    simp [recordFailure, hrunning] at hnone
  -- the edit of a boot is the failure of the attempt it came to
  · obtain ⟨key, record, hedit, rfl⟩ := he.of_booting hp
    obtain ⟨-, old, rest', heq⟩ := hedit.of_booting hp
    have hkey : key = e.1 := by rw [(List.cons.inj heq).1]
    change (w.run.setRecord key record).invocations[e.1]? = some r at hr'
    rw [RunSnapshot.setRecord_get, if_pos hkey] at hr'
    obtain rfl := Option.some.inj hr'
    cases hedit with
    | fail reported => exact failedRecord_state_ne.2.1 hrunning

/-- Who owns the open attempts of a recovered run. -/
structure OwnedInv (s : Setup) (w : World) : Prop where
  working : w.run.state.isTerminal = false → ∀ c, w.process = .up c true →
    ∀ key node r, s.operation key = some node → w.run.invocations[key]? = some r →
      r.state = .running → w.workers[key]?.isSome = true
  booting : ∀ c attempts cancelled, w.process = .booting c attempts cancelled →
    ∀ key node r, s.operation key = some node → w.run.invocations[key]? = some r →
      r.state = .running → (key, r) ∈ attempts

namespace OwnedInv

/-- While a recovered run is worked on, its open attempts keep their workers. -/
theorem working_keep (inv : OwnedInv s w) (hr : Reachable s w) (h : w.step s a = some w')
    {c : Composition} (hp : w.process = .up c true) (ha : a ≠ .crash)
    (hl : w'.run.state.isTerminal = false) {node : PreparedOperation}
    (hn : s.operation key = some node) {r : InvocationRecord}
    (hr' : w'.run.invocations[key]? = some r) (hs : r.state = .running) :
    w'.workers[key]?.isSome = true := by
  have hlive : w.run.state.isTerminal = false := by
    by_contra hterminal
    have hterminal : w.run.state.isTerminal = true := by simpa using hterminal
    rw [(hr.step_extends h).state_eq hterminal, hterminal] at hl
    cases hl
  -- an attempt that was open before has a worker, which stays or settles it
  have hkept : ∀ old, w.run.invocations[key]? = some old → old.state = .running →
      w'.workers[key]?.isSome = true := by
    intro old hold hrunning
    have hw := inv.working hlive c hp key node old hn hold hrunning
    obtain ⟨worker, hworker⟩ := Option.isSome_iff_exists.mp hw
    obtain ⟨r₀, hinv⟩ := hr.worker hworker
    by_cases hsettles : a.settles key
    · exact absurd hs (settled_record h hsettles hlive hworker hinv hr')
    · exact worker_stays h ha hsettles hw
  have hrecord := step_record h key
  rw [hr'] at hrecord
  generalize hx : some r = x at hrecord
  cases hrecord with
  | same => exact hkept r hx.symm hs
  | operation edit =>
    obtain rfl := Option.some.inj hx
    cases edit with
    | intend =>
      rw [intended_worker h hr' rfl hs]
      rfl
    | succeed => cases hs
    | fail => exact absurd hs failedRecord_state_ne.2.1
  | other edit =>
    rw [edit.node] at hn
    cases hn
  | @marked old error cancelled action found =>
    obtain rfl := Option.some.inj hx
    rcases markUnknown_cases old with ⟨-, heq⟩ | ⟨-, heq⟩ | ⟨-, -, heq⟩
    · exact hkept old found (heq ▸ hs)
    · exact hkept old found (heq ▸ hs)
    · rw [heq] at hs
      cases hs
  | @resolved c' old r' phase access command action running found isNamed blocked edit =>
    obtain rfl := Option.some.inj hx
    simp only [named, decide_eq_true_eq] at isNamed
    cases edit with
    | applied => cases hs
    | invalid =>
      have hboth : InvocationState.unknown = .running := isNamed.2.2.symm.trans hs
      cases hboth
    | retry => cases hs
    | failed => cases hs

end OwnedInv

/-- Open attempts of a recovered run have a worker, or are to be classified. -/
theorem Reachable.owned (hr : Reachable s w) : OwnedInv s w := by
  apply hr.invariant
  · intro w h
    refine ⟨fun _ c _ key node r _ hrecord => ?_, fun c l b _ key node r _ hrecord => ?_⟩
    · simp [h.initial.invocations] at hrecord
    · simp [h.initial.invocations] at hrecord
  · intro w a w' hreach inv _ h
    have hphase := step_phase h
    generalize w'.job = job' at hphase
    constructor
    · intro hl c hc key node r hn hr' hs
      rw [hc] at hphase
      generalize hx : Process.up c true = x at hphase
      cases hphase with
      | same stays =>
        refine inv.working_keep hreach h hx.symm ?_ hl hn hr' hs
        rintro rfl
        nomatch stays
      | crashed => nomatch hx
      | ended down terminal =>
        rw [(hreach.step_extends h).state_eq terminal, terminal] at hl
        nomatch hl
      | booted => nomatch hx
      | blocked => simp at hx
      | classified => nomatch hx
      | ready process kept =>
        -- nothing is left to classify, so nothing is open
        rw [kept] at hr'
        nomatch inv.booting _ _ _ process key node r hn hr' hs
      | taken => exact inv.working_keep hreach h hx.symm (by simp) hl hn hr' hs
      | begun => exact inv.working_keep hreach h hx.symm (by simp) hl hn hr' hs
      | left working quiet leaves alive =>
        exact inv.working_keep hreach h hx.symm alive hl hn hr' hs
    · intro c l b hc key node r hn hr' hs
      rw [hc] at hphase
      generalize hx : Process.booting c l b = x at hphase
      cases hphase with
      | same stays other =>
        rw [booting_record h hx.symm (.inl other)] at hr'
        exact inv.booting c l b hx.symm key node r hn hr' hs
      | crashed => nomatch hx
      | ended => nomatch hx
      | booted down live kept =>
        obtain ⟨-, rfl, -⟩ := Process.booting.inj hx
        rw [kept] at hr'
        exact mem_unfinishedAttempts.mpr ⟨hr', hs⟩
      | blocked => nomatch hx
      | @classified later delay c' e rest cancelled process =>
        obtain ⟨rfl, rfl, rfl⟩ := Process.booting.inj hx
        by_cases hkey : e.1 = key
        · subst hkey
          exact absurd hs (hreach.classified h process hn hr')
        · rw [booting_record h process (.inr ?_)] at hr'
          · have hmem := inv.booting _ _ _ process key node r hn hr' hs
            rcases List.mem_cons.mp hmem with heq | hmem
            · exact absurd (congrArg Prod.fst heq).symm hkey
            · exact hmem
          · intro record rest' heq
            exact hkey (congrArg Prod.fst (List.cons.inj heq).1)
      | ready => nomatch hx
      | taken process =>
        rw [process] at hx
        nomatch hx
      | begun process =>
        rw [process] at hx
        nomatch hx
      | left working =>
        rw [working.1] at hx
        nomatch hx

end WorkflowForge.Run
