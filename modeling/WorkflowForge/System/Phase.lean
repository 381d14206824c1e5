import WorkflowForge.System.Shape

/-!
# What the Process Remembers

The process, the job, the workers, the clock and the memory of a run, and what a step makes
of each. A crash forgets all of it but the clock and the memory.

## Main results

- `step_phase`, `step_worker`, `step_log`: what a step makes of the process and the job, of
  one worker, and of the memory.
-/

namespace WorkflowForge.Run

open Lib Engine

variable {s : Setup} {w w' w₁ : World} {a : Action} {key : String}

/-! ## Commits -/

/-- A commit changes the run and its history, and nothing the process remembers. -/
theorem accept_frame {p : Option Proposal} (h : w.accept p = some w₁) :
    w₁ = { w with run := w₁.run, older := w₁.older } := by
  cases p with
  | none =>
    obtain rfl := Option.some.inj h
    rfl
  | some p =>
    cases p with
    | run next =>
      simp only [World.accept] at h
      split at h
      · obtain rfl := Option.some.inj h
        rfl
      · cases h
    | record key record =>
      simp only [World.accept] at h
      split at h
      · cases h
      · obtain ⟨revision, -, rfl⟩ := Option.map_eq_some_iff.mp h
        rfl

/-- A step is a commit of the run, and what the process remembers of it. -/
theorem step_eq_after (h : w.step s a = some w') :
    ∃ p, w.proposal s a = some p ∧
      w' = ({ w with run := w'.run, older := w'.older } : World).after s w a := by
  obtain ⟨p, w₁, hp, ha, rfl⟩ := World.step_eq_some h
  refine ⟨p, hp, ?_⟩
  rw [after_run, after_older]
  have hframe := accept_frame ha
  rw [← hframe]

/-! ## The process and the job -/

/-- The actions after which no worker is left. -/
def Action.leaves : Action → Bool
  | .crash | .suspend | .finish .. | .conclude .. => true
  | _ => false

/-- What a step makes of the process and of the job. -/
inductive PhaseStep (w w' : World) : Action → Process → Job → Prop where
  | same {a : Action} (stays : a.leaves = false)
      (other : ∀ later delay, a ≠ .classify later delay) : PhaseStep w w' a w.process w.job
  | crashed : PhaseStep w w' .crash .down .idle
  | ended {c : Composition} (down : w.process = .down)
      (terminal : w.run.state.isTerminal = true) : PhaseStep w w' (.boot c) (.up c true) w.job
  | booted {c : Composition} (down : w.process = .down)
      (live : w'.run.state.isTerminal = false)
      (kept : w'.run.invocations = w.run.invocations) :
      PhaseStep w w' (.boot c)
        (.booting c (unfinishedAttempts w.run) w.run.cancelRequested) w.job
  | blocked {c : Composition} {error : ForgeError} (down : w.process = .down) :
      PhaseStep w w' (.bootBlocked c error) (.up c false) w.job
  | classified {later delay : UInt64} {c : Composition} {e : String × InvocationRecord}
      {rest : List (String × InvocationRecord)} {cancelled : Bool}
      (process : w.process = .booting c (e :: rest) cancelled) :
      PhaseStep w w' (.classify later delay) (.booting c rest cancelled) w.job
  | ready {c : Composition} {cancelled : Bool} (process : w.process = .booting c [] cancelled)
      (kept : w'.run = w.run) : PhaseStep w w' .ready (.up c true) w.job
  | taken {c : Composition} (process : w.process = .up c true) (idle : w.job = .idle)
      (due : runnable w.run.head w.now = true) (kept : w'.run = w.run) :
      PhaseStep w w' .take w.process .taken
  | begun {c : Composition} (process : w.process = .up c true) (taken : w.job = .taken) :
      PhaseStep w w' .begin w.process .body
  | left {a : Action} {c : Composition} (working : Working w c) (quiet : w.workers = ∅)
      (leaves : a.leaves = true) (alive : a ≠ .crash) : PhaseStep w w' a w.process .idle

/-! ### What is possible -/

theorem boot_possible {c : Composition} {p : Option Proposal} (h : w.boot c = some p) :
    w.process = .down := by
  unfold World.boot at h
  split at h
  next hdown => exact hdown
  · nomatch h

theorem bootBlocked_possible {c : Composition} {error : ForgeError} {p : Option Proposal}
    (h : w.bootBlocked c error = some p) : w.process = .down := by
  unfold World.bootBlocked at h
  split at h
  next hdown => exact hdown
  · nomatch h

theorem classify_possible {later delay : UInt64} {p : Option Proposal}
    (h : w.classify later delay = some p) :
    ∃ c e rest cancelled, w.process = .booting c (e :: rest) cancelled := by
  unfold World.classify at h
  split at h
  next c key record rest cancelled hprocess => exact ⟨c, _, rest, cancelled, hprocess⟩
  · nomatch h

theorem leave_possible {q p : Option (Option Proposal)} (h : w.leave q = p) (hp : p ≠ none) :
    ∃ c, Working w c ∧ w.workers = ∅ := by
  obtain ⟨x, rfl⟩ := Option.ne_none_iff_exists'.mp hp
  obtain ⟨c, hc, h⟩ := Option.bind_eq_some_iff.mp h
  obtain ⟨u, hguard, -⟩ := Option.bind_eq_some_iff.mp h
  exact ⟨c, executing_eq_some.mp hc, (Option.guard_eq_some' _).mp hguard⟩

theorem conclude_possible {value : Value} {later : UInt64} {cancelled : Bool}
    {p : Option Proposal} (h : w.conclude value later cancelled = some p) :
    ∃ c, Working w c ∧ w.workers = ∅ := by
  obtain ⟨c, hc, h⟩ := Option.bind_eq_some_iff.mp h
  obtain ⟨u, hguard, -⟩ := Option.bind_eq_some_iff.mp h
  exact ⟨c, executing_eq_some.mp hc, ((Option.guard_eq_some' _).mp hguard).1⟩

theorem take_possible {p : Option Proposal} (h : w.proposal s .take = some p) :
    (∃ c, w.process = .up c true) ∧ w.job = .idle ∧ runnable w.run.head w.now = true ∧
      p = none := by
  simp only [World.proposal] at h
  split at h
  next c hprocess hjob =>
    split at h
    next hdue => exact ⟨⟨c, hprocess⟩, hjob, hdue, (Option.some.inj h).symm⟩
    · cases h
  · cases h

theorem ready_possible {p : Option Proposal} (h : w.proposal s .ready = some p) :
    (∃ c cancelled, w.process = .booting c [] cancelled) ∧ p = none := by
  simp only [World.proposal] at h
  split at h
  next c cancelled hprocess => exact ⟨⟨c, cancelled, hprocess⟩, (Option.some.inj h).symm⟩
  · cases h

/-- A boot lifts the block of an earlier one, and changes no record. -/
theorem boot_commits {c : Composition} (h : w.step s (.boot c) = some w') :
    w'.run.invocations = w.run.invocations ∧
      (w.run.state.isTerminal = false → w'.run.state.isTerminal = false) := by
  rcases step_run h with ⟨hrun, -⟩ | ⟨edited, revision, hedit, -, hrun, -⟩
  · rw [hrun]
    exact ⟨rfl, fun hlive => hlive⟩
  · rw [hrun]
    cases hedit with
    | recovered down blocked =>
      refine ⟨rfl, fun _ => ?_⟩
      change (if w.run.cancelRequested = true then RunState.cancelling else
        RunState.running).isTerminal = false
      split <;> rfl
    | operation live edit =>
      cases edit with
      | fail reported => nomatch reported
    | control working live node edit => nomatch edit
    | waited working live edit => nomatch edit

/-- A step without a proposal leaves the run alone. -/
theorem step_declined (h : w.step s a = some w') (hp : w.proposal s a = some none) :
    w'.run = w.run := by
  obtain ⟨p, w₁, hp', ha, rfl⟩ := World.step_eq_some h
  obtain rfl := Option.some.inj (hp.symm.trans hp')
  rw [after_run, ← Option.some.inj ha]

theorem begin_possible {p : Option Proposal} (h : w.proposal s .begin = some p) :
    (∃ c, w.process = .up c true) ∧ w.job = .taken := by
  simp only [World.proposal] at h
  split at h
  next c hprocess hjob => exact ⟨⟨c, hprocess⟩, hjob⟩
  · cases h

/-- The actions that move the process or the job. -/
def Action.phase : Action → Bool
  | .crash | .boot _ | .bootBlocked .. | .classify .. | .ready | .take | .begin | .suspend
  | .finish .. | .conclude .. => true
  | _ => false

theorem after_phase {before : World} (h : a.phase = false) :
    (w₁.after s before a).process = w₁.process ∧ (w₁.after s before a).job = w₁.job := by
  -- what follows these actions concerns the workers and the answers
  cases a with
  | intend key attempt input cancelled =>
    simp only [World.after, World.startWorker]
    split <;> exact ⟨rfl, rfl⟩
  | call key =>
    simp only [World.after, World.callWorker]
    split <;> exact ⟨rfl, rfl⟩
  | answer key answer cancelled =>
    simp only [World.after, World.answerWorker]
    split <;> exact ⟨rfl, rfl⟩
  | exceed key cancelled =>
    simp only [World.after, World.exceedWorker]
    split <;> exact ⟨rfl, rfl⟩
  | signal phase access command =>
    simp only [World.after]
    split <;> exact ⟨rfl, rfl⟩
  | reconcile phase access command =>
    simp only [World.after]
    split <;> exact ⟨rfl, rfl⟩
  | _ => first | exact ⟨rfl, rfl⟩ | cases h

/-- What a step makes of the process and of the job. -/
theorem step_phase (h : w.step s a = some w') : PhaseStep w w' a w'.process w'.job := by
  have hstep := h
  obtain ⟨p, hp, h⟩ := step_eq_after h
  generalize hprocess' : w'.process = process'
  generalize hjob' : w'.job = job'
  rw [h] at hprocess' hjob'
  cases a with
  | crash =>
    subst hprocess' hjob'
    exact .crashed
  | boot c =>
    have hdown := boot_possible hp
    obtain ⟨hkept, hlive'⟩ := boot_commits hstep
    simp only [World.after] at hprocess' hjob'
    split at hprocess'
    -- a run that is over when it is found leaves nothing to do
    next hover =>
      rw [if_pos hover] at hjob'
      subst hprocess' hjob'
      exact .ended hdown hover
    -- what is booted has been committed before
    next hlive =>
      rw [if_neg hlive] at hjob'
      subst hprocess' hjob'
      exact .booted hdown (hlive' (by simpa using hlive)) hkept
  | bootBlocked c error =>
    subst hprocess' hjob'
    exact .blocked (bootBlocked_possible hp)
  | classify later delay =>
    obtain ⟨c, e, rest, cancelled, hprocess⟩ := classify_possible hp
    simp only [World.after, hprocess] at hprocess' hjob'
    subst hprocess' hjob'
    exact .classified hprocess
  | ready =>
    obtain ⟨⟨c, cancelled, hprocess⟩, rfl⟩ := ready_possible hp
    simp only [World.after, hprocess] at hprocess' hjob'
    subst hprocess' hjob'
    -- every unfinished attempt has been classified
    exact .ready hprocess (step_declined hstep hp)
  | take =>
    obtain ⟨⟨c, hprocess⟩, hjob, hdue, rfl⟩ := take_possible hp
    subst hprocess' hjob'
    exact .taken hprocess hjob hdue (step_declined hstep hp)
  | begin =>
    obtain ⟨⟨c, hprocess⟩, hjob⟩ := begin_possible hp
    subst hprocess' hjob'
    exact .begun hprocess hjob
  -- a job is left once no child and no call of it is in flight
  | suspend =>
    obtain ⟨c, hworking, hquiet⟩ := leave_possible hp (by simp)
    subst hprocess' hjob'
    exact .left hworking hquiet rfl (by simp)
  | finish error cancelled =>
    obtain ⟨c, hworking, hquiet⟩ := leave_possible hp (by simp)
    subst hprocess' hjob'
    exact .left hworking hquiet rfl (by simp)
  | conclude value later cancelled =>
    obtain ⟨c, hworking, hquiet⟩ := conclude_possible hp
    subst hprocess' hjob'
    exact .left hworking hquiet rfl (by simp)
  -- the other actions concern neither the process nor the job
  | _ =>
    rw [(after_phase rfl).1] at hprocess'
    rw [(after_phase rfl).2] at hjob'
    subst hprocess' hjob'
    exact .same rfl (by simp)

/-! ## Workers -/

/-- The worker an action moves on. -/
def Action.worker : Action → Option String
  | .call key | .answer key .. | .exceed key _ | .succeed key | .fail key .. => some key
  | _ => none

/-- What a step makes of the worker of one key. -/
inductive WorkerStep (s : Setup) (w w' : World) (key : String) : Action → Option Worker → Prop
    where
  | same {a : Action} (alive : a ≠ .crash) (other : a.worker ≠ some key) :
      WorkerStep s w w' key a w.workers[key]?
  | crashed : WorkerStep s w w' key .crash none
  | authorized {c : Composition} {node : PreparedOperation} {attempt : String} {input : Value}
      {cancelled : Bool} {record : InvocationRecord} (working : Working w c)
      (operation : s.operation key = some node) (turn : w.turn node key cancelled = .proceed)
      (alone : w.workers[key]? = none) (unused : attempt ∉ w.issued)
      (found : w'.run.invocations[key]? = some record) (own : record.attemptId = attempt)
      (running : record.state = .running) (issued : w'.issued = attempt :: w.issued) :
      WorkerStep s w w' key (.intend key attempt input cancelled) (some (.authorized record))
  | called {c : Composition} {node : PreparedOperation} {record : InvocationRecord}
      (working : Working w c) (operation : s.operation key = some node)
      (worker : w.workers[key]? = some (.authorized record)) :
      WorkerStep s w w' key (.call key) (some (.called record.attemptId))
  | returned {c : Composition} {node : PreparedOperation} {attempt : String} {answer : Answer}
      {cancelled : Bool} {value : Value} (working : Working w c)
      (operation : s.operation key = some node)
      (worker : w.workers[key]? = some (.called attempt))
      (settled : settle node c.limits cancelled answer = .ok value) :
      WorkerStep s w w' key (.answer key answer cancelled) (some (.returned attempt value))
  | failed {c : Composition} {node : PreparedOperation} {attempt : String} {answer : Answer}
      {cancelled : Bool} {report : FailureReport} (working : Working w c)
      (operation : s.operation key = some node)
      (worker : w.workers[key]? = some (.called attempt))
      (settled : settle node c.limits cancelled answer = .error report) :
      WorkerStep s w w' key (.answer key answer cancelled) (some (.failed attempt report))
  | exceeded {c : Composition} {attempt : String} {value : Value} {cancelled : Bool}
      (working : Working w c) (worker : w.workers[key]? = some (.returned attempt value)) :
      WorkerStep s w w' key (.exceed key cancelled)
        (some (.failed attempt ⟨retentionExceeded, true, cancelled⟩))
  | succeeded {c : Composition} {attempt : String} {value : Value} (working : Working w c)
      (worker : w.workers[key]? = some (.returned attempt value)) :
      WorkerStep s w w' key (.succeed key) none
  | reported {c : Composition} {attempt : String} {report : FailureReport}
      {later delay : UInt64} (working : Working w c)
      (worker : w.workers[key]? = some (.failed attempt report)) :
      WorkerStep s w w' key (.fail key later delay) none

/-! ### What is possible -/

theorem intend_possible {attempt : String} {input : Value} {cancelled : Bool}
    {p : Option Proposal} (h : w.intend s key attempt input cancelled = some p) :
    ∃ c node, Working w c ∧ s.operation key = some node ∧ w.workers[key]? = none ∧
      attempt ∉ w.issued ∧ w.turn node key cancelled = .proceed := by
  obtain ⟨c, hc, h⟩ := Option.bind_eq_some_iff.mp h
  obtain ⟨node, hnode, h⟩ := Option.bind_eq_some_iff.mp h
  obtain ⟨u, hfree, h⟩ := Option.bind_eq_some_iff.mp h
  obtain ⟨u', hturn, -⟩ := Option.bind_eq_some_iff.mp h
  have hfree := (Option.guard_eq_some' _).mp hfree
  have hturn := (Option.guard_eq_some' _).mp hturn
  refine ⟨c, node, executing_eq_some.mp hc, hnode, hfree.1, hfree.2, ?_⟩
  split at hturn
  next heq => exact heq
  · nomatch hturn

theorem call_possible {p : Option Proposal} (h : w.call s key = some p) :
    ∃ c node record, Working w c ∧ s.operation key = some node ∧
      w.workers[key]? = some (.authorized record) := by
  obtain ⟨c, hc, h⟩ := Option.bind_eq_some_iff.mp h
  obtain ⟨node, hnode, h⟩ := Option.bind_eq_some_iff.mp h
  split at h
  next record hworker => exact ⟨c, node, record, executing_eq_some.mp hc, hnode, hworker⟩
  · nomatch h

theorem answer_possible {p : Option Proposal} (h : w.answer s key = some p) :
    ∃ c node attempt, Working w c ∧ s.operation key = some node ∧
      w.workers[key]? = some (.called attempt) := by
  obtain ⟨c, hc, h⟩ := Option.bind_eq_some_iff.mp h
  obtain ⟨node, hnode, h⟩ := Option.bind_eq_some_iff.mp h
  split at h
  next attempt hworker => exact ⟨c, node, attempt, executing_eq_some.mp hc, hnode, hworker⟩
  · nomatch h

theorem succeed_possible {p : Option Proposal} (h : w.succeed s key = some p) :
    ∃ c node attempt value, Working w c ∧ s.operation key = some node ∧
      w.workers[key]? = some (.returned attempt value) ∧
      w.onNode c true key (success attempt node.operation.descriptor.effect value) = some p := by
  obtain ⟨c, hc, h⟩ := Option.bind_eq_some_iff.mp h
  obtain ⟨node, hnode, h⟩ := Option.bind_eq_some_iff.mp h
  split at h
  next attempt value hworker =>
    exact ⟨c, node, attempt, value, executing_eq_some.mp hc, hnode, hworker, h⟩
  · nomatch h

theorem exceed_possible {p : Option Proposal} (h : w.exceed s key = some p) :
    ∃ c attempt value, Working w c ∧ w.workers[key]? = some (.returned attempt value) := by
  obtain ⟨c, hc, h⟩ := Option.bind_eq_some_iff.mp h
  obtain ⟨node, hnode, h⟩ := Option.bind_eq_some_iff.mp h
  split at h
  next attempt value hworker => exact ⟨c, attempt, value, executing_eq_some.mp hc, hworker⟩
  · nomatch h

theorem fail_possible {later delay : UInt64} {p : Option Proposal}
    (h : w.fail s key later delay = some p) :
    ∃ c node attempt report, Working w c ∧ s.operation key = some node ∧
      w.workers[key]? = some (.failed attempt report) ∧
      w.onNode c false key (recordFailure key attempt node.operation.descriptor report w.now
        later delay) = some p := by
  obtain ⟨c, hc, h⟩ := Option.bind_eq_some_iff.mp h
  obtain ⟨node, hnode, h⟩ := Option.bind_eq_some_iff.mp h
  split at h
  next attempt report hworker =>
    exact ⟨c, node, attempt, report, executing_eq_some.mp hc, hnode, hworker, h⟩
  · nomatch h

/-- A worker other than the one that moves on stays where it is. -/
theorem setWorker_get {w : World} {node key : String} {worker : Worker} :
    (w.setWorker node worker).workers[key]? =
      if node = key then some worker else w.workers[key]? :=
  BTreeMap.get_insert w.workers node key worker

/-! ### The actions of a worker -/

section

variable {node : String} {cancelled : Bool}

/-- An intent whose record the run has taken leaves an authorized worker. Where a cancellation
or a deadline was recorded in its place, there is none. -/
theorem intend_worker {attempt : String} {input : Value}
    (h : w.step s (.intend node attempt input cancelled) = some w') (key : String) :
    WorkerStep s w w' key (.intend node attempt input cancelled) w'.workers[key]? := by
  obtain ⟨p, hp, h⟩ := step_eq_after h
  obtain ⟨c, n, hworking, hnode, halone, hunused, hturn⟩ := intend_possible hp
  have hw := h
  simp only [World.after, World.startWorker] at hw
  split at hw
  -- the committed record runs under the new attempt
  next record hrecord =>
    have hworkers : w'.workers[key]? =
        if node = key then some (.authorized record) else w.workers[key]? := by
      rw [hw]
      exact setWorker_get
    have hissued : w'.issued = attempt :: w.issued := by rw [hw]
    rw [hworkers]
    split
    next heq =>
      subst heq
      simp only [Option.filter_eq_some_iff, decide_eq_true_eq] at hrecord
      obtain ⟨hfound, hown, hrunning⟩ := hrecord
      exact .authorized hworking hnode hturn halone hunused hfound hown hrunning hissued
    next => exact .same (by simp) (by simp [Action.worker])
  · rw [hw]
    exact .same (by simp) (by simp [Action.worker])

/-- An authorized worker calls. -/
theorem call_worker (h : w.step s (.call node) = some w') (key : String) :
    WorkerStep s w w' key (.call node) w'.workers[key]? := by
  obtain ⟨p, hp, h⟩ := step_eq_after h
  obtain ⟨c, n, record, hworking, hnode, hworker⟩ := call_possible hp
  rw [h]
  simp only [World.after, World.callWorker, hnode, hworker]
  change WorkerStep s w _ key _ ((World.setWorker _ node _).workers[key]?)
  rw [setWorker_get]
  split
  next heq =>
    subst heq
    exact .called hworking hnode hworker
  next hne => exact .same (by simp) (by simpa [Action.worker] using hne)

/-- The answer of a call is settled once, as a value or as a failure. -/
theorem answer_worker {answer : Answer}
    (h : w.step s (.answer node answer cancelled) = some w') (key : String) :
    WorkerStep s w w' key (.answer node answer cancelled) w'.workers[key]? := by
  obtain ⟨p, hp, h⟩ := step_eq_after h
  obtain ⟨c, n, attempt, hworking, hnode, hworker⟩ := answer_possible hp
  have hexecuting : w.executing = some c := executing_eq_some.mpr hworking
  rw [h]
  -- the host that executes is not part of what was committed
  have hexecuting' :
      ({ w with run := w'.run, older := w'.older } : World).executing = some c := hexecuting
  simp only [World.after, World.answerWorker, hexecuting', hnode, hworker]
  change WorkerStep s w _ key _ ((World.setWorker _ node _).workers[key]?)
  cases hsettle : settle n c.limits cancelled answer with
  | ok value =>
    rw [setWorker_get]
    dsimp only
    split
    next heq =>
      subst heq
      exact .returned hworking hnode hworker hsettle
    next hne => exact .same (by simp) (by simpa [Action.worker] using hne)
  | error report =>
    rw [setWorker_get]
    dsimp only
    split
    next heq =>
      subst heq
      exact .failed hworking hnode hworker hsettle
    next hne => exact .same (by simp) (by simpa [Action.worker] using hne)

/-- A value that the run has no room for fails its attempt. -/
theorem exceed_worker (h : w.step s (.exceed node cancelled) = some w') (key : String) :
    WorkerStep s w w' key (.exceed node cancelled) w'.workers[key]? := by
  obtain ⟨p, hp, h⟩ := step_eq_after h
  obtain ⟨c, attempt, value, hworking, hworker⟩ := exceed_possible hp
  rw [h]
  simp only [World.after, World.exceedWorker, hworker]
  rw [setWorker_get]
  split
  next heq =>
    subst heq
    exact .exceeded hworking hworker
  next hne => exact .same (by simp) (by simpa [Action.worker] using hne)

/-- A worker is gone once its value is recorded. -/
theorem succeed_worker (h : w.step s (.succeed node) = some w') (key : String) :
    WorkerStep s w w' key (.succeed node) w'.workers[key]? := by
  obtain ⟨p, hp, h⟩ := step_eq_after h
  obtain ⟨c, n, attempt, value, hworking, -, hworker, -⟩ := succeed_possible hp
  rw [h]
  simp only [World.after, World.dropWorker, BTreeMap.get_erase]
  split
  next heq =>
    subst heq
    exact .succeeded hworking hworker
  next hne => exact .same (by simp) (by simpa [Action.worker] using hne)

/-- It is gone as well once its failure is recorded. -/
theorem fail_worker {later delay : UInt64} (h : w.step s (.fail node later delay) = some w')
    (key : String) : WorkerStep s w w' key (.fail node later delay) w'.workers[key]? := by
  obtain ⟨p, hp, h⟩ := step_eq_after h
  obtain ⟨c, n, attempt, report, hworking, -, hworker, -⟩ := fail_possible hp
  rw [h]
  simp only [World.after, World.dropWorker, BTreeMap.get_erase]
  split
  next heq =>
    subst heq
    exact .reported hworking hworker
  next hne => exact .same (by simp) (by simpa [Action.worker] using hne)

end

/-- What a step makes of the worker of one key. -/
theorem step_worker (h : w.step s a = some w') (key : String) :
    WorkerStep s w w' key a w'.workers[key]? := by
  cases a with
  | intend => exact intend_worker h key
  | call => exact call_worker h key
  | answer => exact answer_worker h key
  | exceed => exact exceed_worker h key
  | succeed => exact succeed_worker h key
  | fail => exact fail_worker h key
  | crash =>
    obtain ⟨p, -, h⟩ := step_eq_after h
    rw [h]
    simp only [World.after, Std.ExtTreeMap.getElem?_empty]
    exact .crashed
  -- the others keep every worker, also where they depend on the process before
  | boot | classify | ready | signal | reconcile =>
    obtain ⟨p, -, h⟩ := step_eq_after h
    rw [h]
    simp only [World.after]
    split <;> exact .same (by simp) (by simp [Action.worker])
  | _ =>
    obtain ⟨p, -, h⟩ := step_eq_after h
    rw [h]
    exact .same (by simp) (by simp [Action.worker])

/-! ## The memory and the clock -/

/-- What a step adds to the memory. -/
inductive LogStep (s : Setup) (w w' : World) : Action → List Event → Prop where
  | same {a : Action} (quiet : ∀ key, a ≠ .call key)
      (silent : ∀ phase access command, a ≠ .signal phase access command)
      (unanswered : ∀ key answer cancelled, a ≠ .answer key answer cancelled)
      (unresolved : ∀ phase access command, a = .reconcile phase access command →
        w'.run = w.run) : LogStep s w w' a w.log
  | called {key : String} {node : PreparedOperation} {record : InvocationRecord}
      (operation : s.operation key = some node)
      (worker : w.workers[key]? = some (.authorized record)) :
      LogStep s w w' (.call key) (.called key (command record node) :: w.log)
  | answered {key attempt : String} {answer : Answer} {cancelled : Bool}
      (worker : w.workers[key]? = some (.called attempt)) :
      LogStep s w w' (.answer key answer cancelled) (.answered key attempt answer :: w.log)
  | signalled {phase : Phase} {access : AccessContext} {received : SignalCommand}
      {receipt : SignalReceipt} {next : Option RunSnapshot}
      (result : w.signal phase access received = .ok (receipt, next))
      (named : received.runId = w.run.id) :
      LogStep s w w' (.signal phase access received)
        (.signalled access.actor received receipt :: w.log)
  | reconciled {phase : Phase} {access : AccessContext} {command : ReconcileCommand}
      {receipt : ReconcileReceipt} {next : RunSnapshot}
      (result : w.reconcile phase access command = .ok (receipt, some next)) :
      LogStep s w w' (.reconcile phase access command) (.reconciled command receipt :: w.log)

theorem answered_possible {R : Type} {named : Bool}
    {answer : Except ForgeError (R × Option RunSnapshot)} {p : Option Proposal}
    (h : World.answered named answer = some p) :
    ∃ receipt next, named = true ∧ answer = .ok (receipt, next) ∧ p = next.map .run := by
  unfold World.answered at h
  split at h
  next receipt next =>
    split at h
    next hn => exact ⟨receipt, next, hn, rfl, (Option.some.inj h).symm⟩
    · nomatch h
  · nomatch h

/-- What a step adds to the memory. -/
theorem step_log (h : w.step s a = some w') : LogStep s w w' a w'.log := by
  have hstep := h
  obtain ⟨p, hp, h⟩ := step_eq_after h
  cases a with
  | call key =>
    obtain ⟨c, node, record, -, hnode, hworker⟩ := call_possible hp
    rw [h]
    simp only [World.after, World.callWorker, hnode, hworker]
    exact .called hnode hworker
  | answer key answer cancelled =>
    obtain ⟨c, node, attempt, hworking, hnode, hworker⟩ := answer_possible hp
    have hexecuting :
        ({ w with run := w'.run, older := w'.older } : World).executing = some c :=
      executing_eq_some.mpr hworking
    rw [h]
    simp only [World.after, World.answerWorker, hexecuting, hnode, hworker]
    exact .answered hworker
  | signal phase access received =>
    obtain ⟨receipt, next, hnamed, hresult, -⟩ := answered_possible hp
    rw [h]
    simp only [World.after, hresult]
    exact .signalled hresult (of_decide_eq_true hnamed)
  | reconcile phase access command =>
    obtain ⟨receipt, next, -, hresult, hnext⟩ := answered_possible hp
    cases next with
    | some next =>
      rw [h]
      simp only [World.after, hresult]
      exact .reconciled hresult
    -- a command that was accepted before is answered without a change
    | none =>
      have hrun : w'.run = w.run := by
        obtain ⟨p', w₁, hp', ha, rfl⟩ := World.step_eq_some hstep
        obtain rfl := Option.some.inj (hp.symm.trans hp')
        rw [after_run]
        rw [hnext] at ha
        rw [← Option.some.inj ha]
      have hlog : w'.log = w.log := by
        rw [h]
        simp only [World.after, hresult]
      rw [hlog]
      exact .same (by simp) (by simp) (by simp) fun _ _ _ _ => hrun
  | intend key attempt input cancelled =>
    rw [h]
    simp only [World.after, World.startWorker]
    split <;> exact .same (by simp) (by simp) (by simp) (by simp)
  | exceed key cancelled =>
    rw [h]
    simp only [World.after, World.exceedWorker]
    split <;> exact .same (by simp) (by simp) (by simp) (by simp)
  | boot | classify | ready =>
    rw [h]
    simp only [World.after]
    split <;> exact .same (by simp) (by simp) (by simp) (by simp)
  | _ =>
    rw [h]
    exact .same (by simp) (by simp) (by simp) (by simp)

/-- The identities in use stay in use. -/
theorem step_issued (h : w.step s a = some w') {attempt : String} (hi : attempt ∈ w.issued) :
    attempt ∈ w'.issued := by
  obtain ⟨p, hp, h⟩ := step_eq_after h
  rw [h]
  cases a <;> simp only [World.after] <;> try exact hi
  case boot => split <;> exact hi
  case classify => split <;> exact hi
  case ready => split <;> exact hi
  -- an intent may issue one attempt more
  case intend =>
    unfold World.startWorker
    split
    · exact List.mem_cons_of_mem _ hi
    · exact hi
  case call =>
    unfold World.callWorker
    split <;> exact hi
  case answer =>
    unfold World.answerWorker
    split <;> exact hi
  case exceed =>
    unfold World.exceedWorker
    split <;> exact hi
  case signal => split <;> exact hi
  case reconcile => split <;> exact hi

/-- The clock does not go back, and only a tick moves it. -/
theorem step_now (h : w.step s a = some w') : w.now ≤ w'.now := by
  obtain ⟨p, hp, h⟩ := step_eq_after h
  rw [h]
  cases a with
  | tick now =>
    simp only [World.proposal] at hp
    split at hp
    -- the clock is monotone where it moves at all
    next hle => exact hle
    · cases hp
  | boot | classify | ready | signal | reconcile =>
    simp only [World.after]
    split <;> exact UInt64.le_refl _
  | intend key attempt input cancelled =>
    simp only [World.after, World.startWorker]
    split <;> exact UInt64.le_refl _
  | call key =>
    simp only [World.after, World.callWorker]
    split <;> exact UInt64.le_refl _
  | answer key answer cancelled =>
    simp only [World.after, World.answerWorker]
    split <;> exact UInt64.le_refl _
  | exceed key cancelled =>
    simp only [World.after, World.exceedWorker]
    split <;> exact UInt64.le_refl _
  | _ => exact UInt64.le_refl _

end WorkflowForge.Run
