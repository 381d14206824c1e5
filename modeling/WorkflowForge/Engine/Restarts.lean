import WorkflowForge.Engine.GroupSound

/-!
# Control Nodes Through Restarts

The worker of a control node may be gone after every step, on a host with other limits than the
one before, and the next one starts from the saved frame. Whatever the interruptions were, the
node enters the bodies that its plan prescribes, enters none of them again with another input,
and records and returns what the plan prescribes.

## Main results

- `Sound.holds_step`: every step of a node keeps what its construct has come to.
- `control_prescribed`: the histories of a control node.
-/

namespace WorkflowForge.Engine

open Lib

/-! ## Histories of a node with an input -/

section

variable {σ : Type}

/-- A worker that finds no record takes the input that its node is given. -/
def Takes (construct : Construct σ) (input : Value) (h h' : NodeHistory σ) : Prop :=
  h.stage = .idle → h.record = none →
    (∀ i frame, h'.stage = .activating i frame → i = input) ∧
    ∀ error, h'.stage = .gone (.error (.execution error)) →
      construct.initial input = .error error ∨
      ∃ cancelled expired, planNode none cancelled expired = .error (.execution error)

/-- A step of a node, under the limits of its host. -/
def HostStep (construct : Limits → Construct σ) (logical key : String) (input : Value)
    (h h' : NodeHistory σ) : Prop :=
  ∃ limits, (construct limits).Step limits logical key h h' ∧ Takes (construct limits) input h h'

/-- A history of a node with an input. -/
def HostHistory (construct : Limits → Construct σ) (logical key : String) (input : Value)
    (h : NodeHistory σ) : Prop :=
  Relation.ReflTransGen (HostStep construct logical key input) {} h

/-- A body has begun, by itself or as one of several children. -/
def Entered (log : List Occurrence) (step : ScopeStep) (body : PreparedBody) (bodyInput : Value) :
    Prop :=
  .entered step body bodyInput ∈ log ∨ ∃ index, .spawned index step body bodyInput ∈ log

/-- The history of a node only grows. -/
theorem log_prefix {construct : Construct σ} {limits : Limits} {logical key : String}
    {h h' : NodeHistory σ} (hstep : construct.Step limits logical key h h') :
    ∃ more, h'.log = h.log ++ more := by
  cases hstep with
  | dropped | settled | begun | undecided | unactivated | completed | oversized | incomplete
  | erred | passed => exact ⟨[], (List.append_nil _).symm⟩
  | activated | resumed | returned | checked | barred | entered | left | saved | unsaved
  | permitted | spawned | joined | stopped | surveyed => exact ⟨_, rfl⟩

theorem Entered.append {log more : List Occurrence} {step : ScopeStep} {body : PreparedBody}
    {bodyInput : Value} (h : Entered (log ++ more) step body bodyInput) :
    Entered log step body bodyInput ∨ Entered more step body bodyInput := by
  rcases h with h | ⟨index, h⟩
  · exact (List.mem_append.mp h).imp .inl .inl
  · exact (List.mem_append.mp h).imp (fun h => .inr ⟨index, h⟩) fun h => .inr ⟨index, h⟩

/-! ## What is prescribed of a history -/

variable (root : PreparedBody) (given : Value) (answers : Answers) (place : Place)
  (node : PreparedNode) (input : Value)

/-- Every body that was awaited has returned what is prescribed of it. -/
structure Attested (log : List Occurrence) : Prop where
  left : ∀ before step body bodyInput result after,
    log = before ++ .entered step body bodyInput :: .left step result :: after →
    Prescribes root given answers (.child place node input step body bodyInput) →
    Reading.Ended root given place node answers step body bodyInput result
  joined : ∀ index result cancelled, .joined index result cancelled ∈ log →
    ∀ step body bodyInput, node.ChildAt input index step body bodyInput →
    Prescribes root given answers (.child place node input step body bodyInput) →
    Reading.Ended root given place node answers step body bodyInput result

/-- What a node hands on. A cancellation, a deadline or a limit may stop it unrecorded. -/
def Handed : Except StepError Value → Prop :=
  Judged fun result => Prescribes root given answers (.settled place node input result) ∨
    ∃ error, result = .error error ∧ Interruption error

/-- What the record of a control node says of its end. -/
structure RecordAgrees (r : InvocationRecord) : Prop where
  input_eq : Construct.Unsettled r → r.input = input
  output : r.state = .succeeded → ∃ value, r.output = some value ∧
    Prescribes root given answers (.settled place node input (.ok value))
  error : ∀ e, r.error = some e →
    Prescribes root given answers (.settled place node input (.error e))
  failed : r.state = .failed ∨ r.state = .cancelled → r.error.isSome

/-- A history of a control node that does what is prescribed. -/
structure HistoryConforms (h : NodeHistory σ) : Prop where
  entered : ∀ step body bodyInput, Entered h.log step body bodyInput →
    Prescribes root given answers (.child place node input step body bodyInput)
  /-- A body is never entered again with another input. -/
  repeated : node.instruction.Labelled → ∀ step body body' bodyInput bodyInput',
    Entered h.log step body bodyInput → Entered h.log step body' bodyInput' →
    body = body' ∧ bodyInput = bodyInput'
  returned : ∀ result, .returned result ∈ h.log →
    Judged (fun result => Prescribes root given answers (.returned place node input result)) result
  recorded : ∀ r, h.record = some r → RecordAgrees root given answers place node input r
  handed : ∀ result, h.stage = .gone result →
    Handed root given answers place node input result

end

/-! ## The invariant of a history -/

section

variable {σ : Type} {construct : Limits → Construct σ} {root : PreparedBody} {given : Value}
  {answers : Answers} {place : Place} {node : PreparedNode} {input : Value}

theorem Attested.of_append {log more : List Occurrence}
    (h : Attested root given answers place node input (log ++ more)) :
    Attested root given answers place node input log where
  left before step body bodyInput result after hlog := by
    refine h.left before step body bodyInput result (after ++ more) ?_
    rw [hlog, List.append_assoc]
    rfl
  joined index result cancelled hmem :=
    h.joined index result cancelled (List.mem_append_left _ hmem)

/-- A refused transition interrupts its node, or fails the runtime. -/
theorem interruption_of_transitionError {error e : ForgeError}
    (h : transitionError error = .execution e) : Interruption e := by
  unfold transitionError at h
  split at h
  next hcode =>
    obtain rfl := StepError.execution.inj h
    rcases hcode with hcode | hcode | hcode
    · exact .inr (.inr (.inl hcode))
    · exact .inl hcode
    · exact .inr (.inl hcode)
  · cases h

theorem interruption_of_planOpen {cancelled expired : Bool} {e : ForgeError}
    (h : planOpen cancelled expired = .error (.execution e)) : Interruption e := by
  rcases planOpen_eq_error h with h | h
  · obtain rfl := StepError.execution.inj h
    exact .inl rfl
  · obtain rfl := StepError.execution.inj h
    exact .inr (.inl rfl)

/-- An error that is an interruption, a suspension or a failure of the runtime may be returned
at any time. -/
theorem judged_error {error : StepError}
    (hactive : Prescribes root given answers (.active place node input))
    (h : ∀ e, error = .execution e → Interruption e) :
    Judged (fun result => Prescribes root given answers (.returned place node input result))
      (.error error) := by
  cases error with
  | execution e => exact .stops hactive (h e rfl)
  | suspended => trivial
  | infrastructure => trivial

theorem handed_error {error : StepError} (h : ∀ e, error = .execution e → Interruption e) :
    Handed root given answers place node input (.error error) := by
  cases error with
  | execution e => exact .inr ⟨e, rfl, h e rfl⟩
  | suspended => trivial
  | infrastructure => trivial

namespace Sound

variable (S : Sound construct root given answers place node input)

/-- What a log says over a saved frame. -/
structure Logged (frame : ControlFrame) (log : List Occurrence) : Prop where
  entered : ∀ step body bodyInput, Entered log step body bodyInput →
    Prescribes root given answers (.child place node input step body bodyInput) ∧
      (S.Runs frame step body bodyInput ∨ S.Spent frame step)
  repeated : node.instruction.Labelled → ∀ step body body' bodyInput bodyInput',
    Entered log step body bodyInput → Entered log step body' bodyInput' →
    body = body' ∧ bodyInput = bodyInput'
  returned : ∀ result, .returned result ∈ log →
    Judged (fun result => Prescribes root given answers (.returned place node input result)) result

/-- What the stage of a worker adds, over an activated node. -/
def AtStage (r : InvocationRecord) (frame : ControlFrame) (log : List Occurrence) :
    WorkerStage σ → Prop
  | .idle => True
  | .activating i frame' => Construct.Unsettled r ∧ i = input ∧ frame' = frame
  | .at i point => Construct.Unsettled r ∧ i = input ∧ S.Live frame point
  | .within i step next => Construct.Unsettled r ∧ i = input ∧ ∃ before body bodyInput,
      log = before ++ [.entered step body bodyInput] ∧
      ∀ result, Reading.Ended root given place node answers step body bodyInput result →
        S.Live frame (next result)
  | .recording i result => Construct.Unsettled r ∧ i = input ∧ Judged
      (fun result => Prescribes root given answers (.returned place node input result)) result
  | .gone result => Handed root given answers place node input result

/-- A node before and after its activation. -/
def Holds (h : NodeHistory σ) : Prop :=
  match h.record with
  | none => h.log = [] ∧
    match h.stage with
    | .idle => True
    | .activating i frame => i = input ∧ ∃ limits, (construct limits).initial input = .ok frame
    | .gone result => Handed root given answers place node input result
    | _ => False
  | some r => ∃ frame, r.control = some frame ∧ S.Saved frame ∧
      RecordAgrees root given answers place node input r ∧ S.Logged frame h.log ∧
      S.AtStage r frame h.log h.stage

variable {S}

theorem Logged.nil {frame : ControlFrame} : S.Logged frame [] where
  entered _ _ _ h := by simp [Entered] at h
  repeated _ _ _ _ _ _ h := by simp [Entered] at h
  returned _ h := by simp at h

/-- An occurrence that enters no body, over the frame it leaves. -/
theorem Logged.quiet {frame next : ControlFrame} {log : List Occurrence} {x : Occurrence}
    (h : S.Logged frame log) (hadvances : S.toReading.Advances frame next)
    (hentered : ∀ step body bodyInput, ¬Entered [x] step body bodyInput)
    (hreturned : ∀ result, x = .returned result → Judged
      (fun result => Prescribes root given answers (.returned place node input result)) result) :
    S.Logged next (log ++ [x]) where
  entered step body bodyInput hmem := by
    have hmem := hmem.append.resolve_right (hentered _ _ _)
    obtain ⟨hchild, hruns⟩ := h.entered step body bodyInput hmem
    refine ⟨hchild, ?_⟩
    rcases hruns with hruns | hspent
    · exact (hadvances step).2 body bodyInput hruns
    · exact .inr ((hadvances step).1 hspent)
  repeated hlabels step body body' bodyInput bodyInput' hmem hmem' :=
    h.repeated hlabels step body body' bodyInput bodyInput'
      (hmem.append.resolve_right (hentered _ _ _)) (hmem'.append.resolve_right (hentered _ _ _))
  returned result hmem := by
    rcases List.mem_append.mp hmem with hmem | hmem
    · exact h.returned result hmem
    · exact hreturned result (List.mem_singleton.mp hmem).symm

theorem advances_refl {frame : ControlFrame} : S.toReading.Advances frame frame :=
  fun _ => ⟨id, fun _ _ hruns => .inl hruns⟩

/-- A body that is admitted now was entered in the same way, if it was entered before. -/
theorem Logged.admitted {frame : ControlFrame} {log : List Occurrence} {x : Occurrence}
    {step : ScopeStep} {body : PreparedBody} {bodyInput : Value} (h : S.Logged frame log)
    (hadmitted : S.toReading.Admitted root given place node input answers frame step body bodyInput)
    (hx : ∀ step' body' bodyInput', Entered [x] step' body' bodyInput' →
      step' = step ∧ body' = body ∧ bodyInput' = bodyInput)
    (hreturned : ∀ result, x ≠ .returned result) : S.Logged frame (log ++ [x]) := by
  -- the bodies entered before run still, as the admitted one is fresh
  have hbefore : node.instruction.Labelled → ∀ body' bodyInput', Entered log step body' bodyInput' →
      body' = body ∧ bodyInput' = bodyInput := by
    intro hlabels body' bodyInput' hmem
    rcases (h.entered step body' bodyInput' hmem).2 with hruns | hspent
    · exact S.runs_unique hlabels hruns hadmitted.runs
    · exact absurd hspent hadmitted.fresh
  refine ⟨fun step' body' bodyInput' hmem => ?_, fun hlabels step' b b' i i' hmem hmem' => ?_,
    fun result hmem => ?_⟩
  · rcases hmem.append with hmem | hmem
    · exact h.entered step' body' bodyInput' hmem
    · obtain ⟨rfl, rfl, rfl⟩ := hx step' body' bodyInput' hmem
      exact ⟨hadmitted.child, .inl hadmitted.runs⟩
  · rcases hmem.append with hmem | hmem
    · rcases hmem'.append with hmem' | hmem'
      · exact h.repeated hlabels step' b b' i i' hmem hmem'
      · obtain ⟨rfl, rfl, rfl⟩ := hx step' b' i' hmem'
        exact hbefore hlabels b i hmem
    · obtain ⟨rfl, rfl, rfl⟩ := hx step' b i hmem
      rcases hmem'.append with hmem' | hmem'
      · obtain ⟨rfl, rfl⟩ := hbefore hlabels b' i' hmem'
        exact ⟨rfl, rfl⟩
      · obtain ⟨-, rfl, rfl⟩ := hx step' b' i' hmem'
        exact ⟨rfl, rfl⟩
  · rcases List.mem_append.mp hmem with hmem | hmem
    · exact h.returned result hmem
    · exact absurd (List.mem_singleton.mp hmem).symm (hreturned result)

/-! ## Steps -/

/-- What the record of a node says to the next worker. -/
theorem handed_planNode {r : InvocationRecord} {cancelled expired : Bool} {e : StepError}
    (h : RecordAgrees root given answers place node input r)
    (hplan : planNode (some r) cancelled expired = .error e) :
    Handed root given answers place node input (.error e) := by
  -- a record that failed names its error, which is prescribed
  have hfailed : r.state = .failed ∨ r.state = .cancelled →
      Handed root given answers place node input
        (.error (.execution (r.error.getD notSucceeded))) := by
    intro hstate
    obtain ⟨error, herror⟩ := Option.isSome_iff_exists.mp (h.failed hstate)
    rw [herror]
    exact .inl (h.error error herror)
  have hopen : planOpen cancelled expired = .error e →
      Handed root given answers place node input (.error e) := by
    intro hopen
    refine handed_error fun error herror => ?_
    rw [herror] at hopen
    exact interruption_of_planOpen hopen
  unfold planNode at hplan
  cases hstate : r.state with
  | succeeded =>
    simp only [hstate] at hplan
    split at hplan
    · cases hplan
    · obtain rfl := Except.error.inj hplan
      trivial
  | unknown =>
    simp only [hstate] at hplan
    obtain rfl := Except.error.inj hplan
    exact .inr ⟨_, rfl, .inr (.inr (.inr rfl))⟩
  | failed =>
    simp only [hstate] at hplan
    obtain rfl := Except.error.inj hplan
    exact hfailed (.inl hstate)
  | cancelled =>
    simp only [hstate] at hplan
    obtain rfl := Except.error.inj hplan
    exact hfailed (.inr hstate)
  | running | pending | retryScheduled =>
    simp only [hstate] at hplan
    exact hopen hplan

/-- A worker that begins over a saved frame. -/
theorem atStage_entry {limits : Limits} {r : InvocationRecord} {frame : ControlFrame}
    {log : List Occurrence} (hr : Construct.Unsettled r) (hsaved : S.Saved frame) :
    S.AtStage r frame log ((construct limits).entry input frame) := by
  unfold Construct.entry
  split
  next point hpoint => exact ⟨hr, rfl, S.start hsaved hpoint⟩
  next e he => exact ⟨hr, rfl, S.start_error hsaved he⟩

variable {h h' : NodeHistory σ}

/-- What a worker at a point knows. -/
theorem Holds.at (hi : S.Holds h) {i : Value} {point : σ} (hs : h.stage = .at i point) :
    ∃ r frame, h.record = some r ∧ r.control = some frame ∧ Construct.Unsettled r ∧ i = input ∧
      RecordAgrees root given answers place node input r ∧ S.Logged frame h.log ∧
      S.Live frame point := by
  unfold Holds at hi
  split at hi
  · rw [hs] at hi
    exact hi.2.elim
  next r hr =>
    obtain ⟨frame, hcontrol, -, hagrees, hlogged, hstage⟩ := hi
    rw [hs] at hstage
    obtain ⟨hopen, hinput, hlive⟩ := hstage
    exact ⟨r, frame, hr, hcontrol, hopen, hinput, hagrees, hlogged, hlive⟩

/-- What a worker knows that has a result to record. -/
theorem Holds.recording (hi : S.Holds h) {i : Value} {result : Except StepError Value}
    (hs : h.stage = .recording i result) :
    ∃ r frame, h.record = some r ∧ r.control = some frame ∧ S.Saved frame ∧
      Construct.Unsettled r ∧ i = input ∧ RecordAgrees root given answers place node input r ∧
      S.Logged frame h.log ∧
      Judged (fun result => Prescribes root given answers (.returned place node input result))
        result := by
  unfold Holds at hi
  split at hi
  · rw [hs] at hi
    exact hi.2.elim
  next r hr =>
    obtain ⟨frame, hcontrol, hsaved, hagrees, hlogged, hstage⟩ := hi
    rw [hs] at hstage
    obtain ⟨hopen, hinput, hjudged⟩ := hstage
    exact ⟨r, frame, hr, hcontrol, hsaved, hopen, hinput, hagrees, hlogged, hjudged⟩

/-- A worker that is gone, or hands on a result. -/
theorem Holds.leave (hi : S.Holds h) {stage : WorkerStage σ}
    (hs : stage = .idle ∨ ∃ result, stage = .gone result ∧
      Handed root given answers place node input result) :
    S.Holds { h with stage := stage } := by
  obtain ⟨record, _, log⟩ := h
  cases record with
  | none =>
    refine ⟨hi.1, ?_⟩
    rcases hs with rfl | ⟨result, rfl, hhanded⟩
    · trivial
    · exact hhanded
  | some r =>
    obtain ⟨frame, hcontrol, hsaved, hagrees, hlogged, -⟩ := hi
    refine ⟨frame, hcontrol, hsaved, hagrees, hlogged, ?_⟩
    rcases hs with rfl | ⟨result, rfl, hhanded⟩
    · trivial
    · exact hhanded

/-- A saved frame replaces the one before. -/
theorem recordAgrees_withControl {r : InvocationRecord} {frame : ControlFrame}
    (h : RecordAgrees root given answers place node input r) :
    RecordAgrees root given answers place node input { r with control := some frame } :=
  ⟨h.input_eq, h.output, h.error, h.failed⟩

/-- What the construct asks for at a point is prescribed over its frame. -/
theorem Holds.asked (hi : S.Holds h) {limits : Limits} {i : Value} {point : σ} {ask : Ask σ}
    (hs : h.stage = .at i point) (hnext : (construct limits).next i point = ask) :
    ∃ r frame, h.record = some r ∧ r.control = some frame ∧ Construct.Unsettled r ∧ i = input ∧
      RecordAgrees root given answers place node input r ∧ S.Logged frame h.log ∧
      S.Saved frame ∧ S.toReading.Meets root given place node input answers frame ask := by
  obtain ⟨r, frame, hr, hcontrol, hopen, rfl, hagrees, hlogged, hlive⟩ := hi.at hs
  refine ⟨r, frame, hr, hcontrol, hopen, rfl, hagrees, hlogged, S.live_saved hlive, ?_⟩
  rw [← hnext]
  exact S.asks hlive

/-- An occurrence that neither enters a body nor returns leaves the log over its frame. -/
theorem Logged.beside {frame : ControlFrame} {log : List Occurrence} {x : Occurrence}
    (h : S.Logged frame log) (hentered : ∀ step body bodyInput, ¬Entered [x] step body bodyInput)
    (hreturned : ∀ result, x ≠ .returned result) : S.Logged frame (log ++ [x]) :=
  h.quiet advances_refl hentered fun result hx => absurd hx (hreturned result)

/-- The construct has returned what is prescribed. -/
theorem Logged.judged {frame : ControlFrame} {log : List Occurrence}
    {result : Except StepError Value} (h : S.Logged frame log)
    (hjudged : Judged (fun result => Prescribes root given answers
      (.returned place node input result)) result) :
    S.Logged frame (log ++ [.returned result]) := by
  refine h.quiet advances_refl (by simp [Entered]) fun result' hx => ?_
  obtain rfl := Occurrence.returned.inj hx
  exact hjudged

/-! ### A worker comes -/

/-- The worker of a settled node, or of one whose scope has ended, hands on what is recorded. -/
theorem Holds.settled (hi : S.Holds h) {cancelled expired : Bool}
    {result : Except StepError Value}
    (hplan : match planNode h.record cancelled expired with
      | .ok (.confirmed value) => result = .ok value
      | .ok .execute => False
      | .error e => result = .error e) : Handed root given answers place node input result := by
  obtain ⟨record, stage, log⟩ := h
  cases hp : planNode record cancelled expired with
  | error e =>
    simp only [hp] at hplan
    obtain rfl := hplan
    cases record with
    -- nothing is recorded, so the node was interrupted before it began
    | none => exact handed_error fun error herror => interruption_of_planOpen (herror ▸ hp)
    | some r =>
      obtain ⟨frame, -, -, hagrees, -⟩ := hi
      exact handed_planNode hagrees hp
  | ok action =>
    cases action with
    | execute => simp only [hp] at hplan
    | confirmed value =>
      simp only [hp] at hplan
      obtain rfl := hplan
      -- the record is confirmed: its output was settled before
      obtain ⟨r, hr, hstate, houtput⟩ := planNode_eq_confirmed.mp hp
      obtain rfl : record = some r := hr
      obtain ⟨frame, -, -, hagrees, -⟩ := hi
      obtain ⟨output, hsome, hsettled⟩ := hagrees.output hstate
      obtain rfl := Option.some.inj (houtput.symm.trans hsome)
      exact .inl hsettled

/-- The first worker starts from the frame of its input, a later one from the saved frame. -/
theorem Holds.begun (hi : S.Holds h) {limits : Limits} {cancelled expired : Bool} {i : Value}
    {frame : ControlFrame} (hplan : planNode h.record cancelled expired = .ok .execute)
    (hinput : ∀ r, h.record = some r → i = r.input)
    (hframe : match h.record.bind InvocationRecord.control with
      | some saved => frame = saved
      | none => (construct limits).initial i = .ok frame)
    (htakes : h.record = none → i = input) :
    S.Holds { h with stage := .activating i frame } := by
  obtain ⟨record, stage, log⟩ := h
  cases record with
  | none =>
    obtain rfl := htakes rfl
    exact ⟨hi.1, rfl, limits, hframe⟩
  | some r =>
    obtain ⟨frame', hcontrol, hsaved, hagrees, hlogged, -⟩ := hi
    have hopen : Construct.Unsettled r := (planNode_eq_execute.mp hplan).2 r rfl
    simp only [Option.bind_some, hcontrol] at hframe
    obtain rfl := hframe
    exact ⟨frame, hcontrol, hsaved, hagrees, hlogged, hopen,
      (hinput r rfl).trans (hagrees.input_eq hopen), rfl⟩

/-- The first worker commits the record of the node. -/
theorem Holds.activated (hactive : Prescribes root given answers (.active place node input))
    (hi : S.Holds h) {limits : Limits} {logical : String} {i : Value} {frame : ControlFrame}
    {r : InvocationRecord} (hs : h.stage = .activating i frame)
    (hcommit : Commits limits true (activate logical i frame) h.record r) :
    S.Holds { record := some r, stage := (construct limits).entry i frame,
              log := h.log ++ [.began i] } := by
  obtain ⟨record, stage, log⟩ := h
  obtain ⟨hrecord, rfl⟩ := Construct.Invariant.commits_activate hcommit
  obtain rfl : record = none := hrecord
  obtain rfl : stage = _ := hs
  obtain ⟨hlog, rfl, limits', hinitial⟩ := hi
  obtain rfl : log = [] := hlog
  have hsaved := S.initial hactive hinitial
  refine ⟨frame, rfl, hsaved, ⟨fun _ => rfl, fun hstate => ?_, fun e he => ?_, fun hstate => ?_⟩,
    Logged.nil.beside (by simp [Entered]) (by simp), atStage_entry (.inl rfl) hsaved⟩
  · cases hstate
  · cases he
  · rcases hstate with hstate | hstate <;> cases hstate

/-- A later worker finds the record, and begins from its frame. -/
theorem Holds.resumed (hi : S.Holds h) {limits : Limits} {i : Value} {frame : ControlFrame}
    (hs : h.stage = .activating i frame) (hsome : h.record.isSome) :
    S.Holds { h with stage := (construct limits).entry i frame, log := h.log ++ [.began i] } := by
  obtain ⟨record, stage, log⟩ := h
  obtain ⟨r, rfl⟩ := Option.isSome_iff_exists.mp hsome
  obtain rfl : stage = _ := hs
  obtain ⟨frame', hcontrol, hsaved, hagrees, hlogged, hopen, rfl, rfl⟩ := hi
  exact ⟨frame, hcontrol, hsaved, hagrees, hlogged.beside (by simp [Entered]) (by simp),
    atStage_entry hopen hsaved⟩

/-! ### A worker at a point -/

/-- A body that returns was entered as a prescribed child, so the worker goes on with a result
that is prescribed. -/
theorem Holds.left (hi : S.Holds h) {i : Value} {step : ScopeStep}
    {next : Except StepError Value → σ} {result : Except StepError Value}
    (hs : h.stage = .within i step next)
    (hattested : Attested root given answers place node input (h.log ++ [.left step result])) :
    S.Holds { h with stage := .at i (next result), log := h.log ++ [.left step result] } := by
  obtain ⟨record, stage, log⟩ := h
  obtain rfl : stage = _ := hs
  cases record with
  | none => exact hi.2.elim
  | some r =>
    obtain ⟨frame, hcontrol, hsaved, hagrees, hlogged, hopen, rfl, before, body, bodyInput, rfl,
      hlive⟩ := hi
    have hchild := (hlogged.entered step body bodyInput (.inl (by simp))).1
    have hended := hattested.left before step body bodyInput result [] (by simp) hchild
    exact ⟨frame, hcontrol, hsaved, hagrees, hlogged.beside (by simp [Entered]) (by simp), hopen,
      rfl, hlive result hended⟩

/-- A child that is joined was spawned as a prescribed one, whatever the order of the joins. -/
theorem Holds.joined (hactive : Prescribes root given answers (.active place node input))
    (hi : S.Holds h) {limits : Limits} {i : Value} {point : σ} {active : List Nat}
    {next : Nat → Except StepError Value → Bool → σ} {index : Nat}
    {result : Except StepError Value} {cancelled : Bool} (hs : h.stage = .at i point)
    (hnext : (construct limits).next i point = .join active next) (hmem : index ∈ active)
    (hattested : Attested root given answers place node input
      (h.log ++ [.joined index result cancelled])) :
    S.Holds { h with stage := .at i (next index result cancelled)
                     log := h.log ++ [.joined index result cancelled] } := by
  obtain ⟨r, frame, hr, hcontrol, hopen, rfl, hagrees, hlogged, hsaved, hlive⟩ := hi.asked hs hnext
  obtain ⟨record, stage, log⟩ := h
  obtain rfl : record = _ := hr
  refine ⟨frame, hcontrol, hsaved, hagrees, hlogged.beside (by simp [Entered]) (by simp), hopen,
    rfl, hlive index hmem result cancelled fun step body bodyInput hchild => ?_⟩
  obtain ⟨limits', children, errors, hopened, hsome⟩ := id hchild
  exact hattested.joined index result cancelled (by simp) step body bodyInput hchild
    (.opens hactive hopened hsome)

/-- A frame that is saved, alone or with the marker of its group, is the one of the next
point. -/
theorem Holds.replaced {r : InvocationRecord} {frame next : ControlFrame} {log : List Occurrence}
    {point : σ} {x : Occurrence} (hopen : Construct.Unsettled r)
    (hagrees : RecordAgrees root given answers place node input r) (hlogged : S.Logged frame log)
    (hlive : S.Live next point) (hadvances : S.toReading.Advances frame next)
    (hentered : ∀ step body bodyInput, ¬Entered [x] step body bodyInput)
    (hreturned : ∀ result, x ≠ .returned result) :
    S.Holds { record := some { r with control := some next }, stage := .at input point,
              log := log ++ [x] } :=
  ⟨next, rfl, S.live_saved hlive, recordAgrees_withControl hagrees,
    hlogged.quiet hadvances hentered fun result hx => absurd hx (hreturned result), hopen, rfl,
    hlive⟩

/-! ### The result is recorded -/

/-- A recorded output is the prescribed one. -/
theorem Holds.completed (hi : S.Holds h) {limits : Limits} {i value : Value}
    {r : InvocationRecord} (hs : h.stage = .recording i (.ok value))
    (hcommit : Commits limits true (completeControl value) h.record r) :
    S.Holds { h with record := some r, stage := .gone (.ok value) } := by
  obtain ⟨old, hold, rfl⟩ := Construct.Invariant.commits_completeControl hcommit
  obtain ⟨r, frame, hr, hcontrol, hsaved, -, rfl, hagrees, hlogged, hjudged⟩ := hi.recording hs
  obtain rfl := Option.some.inj (hold.symm.trans hr)
  have hsettled : Prescribes root given answers (.settled place node i (.ok value)) :=
    .succeeds hjudged
  refine ⟨frame, hcontrol, hsaved, ⟨fun hopen => ?_, fun _ => ⟨value, rfl, hsettled⟩,
    fun e he => ?_, fun hstate => ?_⟩, hlogged, .inl hsettled⟩
  · rcases hopen with hopen | hopen | hopen <;> cases hopen
  · cases he
  · rcases hstate with hstate | hstate <;> cases hstate

/-- So is a recorded error, attributed to its node. -/
theorem Holds.erred (hi : S.Holds h) {limits : Limits} {i : Value} {e : ForgeError}
    {r : InvocationRecord} (hs : h.stage = .recording i (.error (.execution e)))
    (hcommit : Commits limits false (failControl (attributed (node.key place) e))
      h.record r) :
    S.Holds { h with record := some r
                     stage := .gone (.error (.execution (attributed (node.key place) e))) } := by
  obtain ⟨old, hold, rfl⟩ := Construct.Invariant.commits_failControl hcommit
  obtain ⟨r, frame, hr, hcontrol, hsaved, hopen, rfl, hagrees, hlogged, hjudged⟩ :=
    hi.recording hs
  obtain rfl := Option.some.inj (hold.symm.trans hr)
  have hsettled : Prescribes root given answers
      (.settled place node i (.error (attributed (node.key place) e))) := .fails hjudged
  refine ⟨frame, hcontrol, hsaved, ⟨fun _ => hagrees.input_eq hopen, fun hstate => ?_,
    fun error herror => ?_, fun _ => rfl⟩, hlogged, .inl hsettled⟩
  · exact absurd hstate (erroredState_ne_succeeded _)
  · obtain rfl := Option.some.inj herror
    exact hsettled

/-! ### Every step -/

/-- Each step of a node keeps what its construct has come to. -/
theorem holds_step {logical : String}
    (hactive : Prescribes root given answers (.active place node input))
    (hstep : HostStep construct logical (node.key place) input h h')
    (hattested : Attested root given answers place node input h'.log) (hi : S.Holds h) :
    S.Holds h' := by
  obtain ⟨limits, hstep, htakes⟩ := hstep
  obtain ⟨record, stage, log⟩ := h
  cases hstep with
  -- a worker that comes, and the ones that are turned away
  | dropped => exact hi.leave (.inl rfl)
  | settled _ hplan => exact hi.leave (.inr ⟨_, rfl, hi.settled hplan⟩)
  | begun hs hplan hinput hframe =>
    exact hi.begun hplan hinput hframe fun hnone => (htakes hs hnone).1 _ _ rfl
  | @undecided cancelled expired i e hs hplan hnone hinitial =>
    cases record with
    | none =>
      refine hi.leave (.inr ⟨_, rfl, ?_⟩)
      rcases (htakes hs rfl).2 e rfl with herror | ⟨cancelled, expired, hopen⟩
      · exact .inl (S.initial_error hactive herror)
      · exact .inr ⟨e, rfl, interruption_of_planOpen hopen⟩
    | some r =>
      obtain ⟨frame, hcontrol, -⟩ := hi
      simp [hcontrol] at hnone
  | activated hs hcommit => exact hi.activated hactive hs hcommit
  | resumed hs hsome => exact hi.resumed hs hsome
  | unactivated hs =>
    exact hi.leave (.inr ⟨_, rfl, handed_error fun e he => interruption_of_transitionError he⟩)
  -- what the construct asks for at a point, over the same frame
  | returned hs hnext =>
    obtain ⟨r, frame, rfl, hcontrol, hopen, rfl, hagrees, hlogged, hsaved, hjudged⟩ :=
      hi.asked hs hnext
    exact ⟨frame, hcontrol, hsaved, hagrees, hlogged.judged hjudged, hopen, rfl, hjudged⟩
  | checked hs hnext hplan =>
    obtain ⟨r, frame, rfl, hcontrol, hopen, rfl, hagrees, hlogged, hsaved, hlive⟩ :=
      hi.asked hs hnext
    exact ⟨frame, hcontrol, hsaved, hagrees, hlogged.beside (by simp [Entered]) (by simp), hopen,
      rfl, hlive⟩
  | @barred i point next cancelled expired error hs hnext hplan =>
    obtain ⟨r, frame, rfl, hcontrol, hopen, rfl, hagrees, hlogged, hsaved, -⟩ := hi.asked hs hnext
    have hjudged : Judged
        (fun result => Prescribes root given answers (.returned place node i result))
        (.error error) :=
      judged_error hactive fun e he => interruption_of_planOpen (he ▸ hplan)
    exact ⟨frame, hcontrol, hsaved, hagrees, hlogged.judged hjudged, hopen, rfl, hjudged⟩
  | entered hs hnext =>
    obtain ⟨r, frame, rfl, hcontrol, hopen, rfl, hagrees, hlogged, hsaved, hadmitted, hlive⟩ :=
      hi.asked hs hnext
    exact ⟨frame, hcontrol, hsaved, hagrees,
      hlogged.admitted hadmitted (by simp [Entered]) (by simp), hopen, rfl, _, _, _, rfl, hlive⟩
  | left hs => exact hi.left hs hattested
  | @permitted _ _ _ granted hs hnext =>
    obtain ⟨r, frame, rfl, hcontrol, hopen, rfl, hagrees, hlogged, hsaved, hlive⟩ :=
      hi.asked hs hnext
    exact ⟨frame, hcontrol, hsaved, hagrees, hlogged.beside (by simp [Entered]) (by simp), hopen,
      rfl, hlive granted⟩
  | spawned hs hnext =>
    obtain ⟨r, frame, rfl, hcontrol, hopen, rfl, hagrees, hlogged, hsaved, hadmitted, -, hlive⟩ :=
      hi.asked hs hnext
    exact ⟨frame, hcontrol, hsaved, hagrees,
      hlogged.admitted hadmitted (by simp [Entered]) (by simp), hopen, rfl, hlive⟩
  | joined hs hnext hmem => exact hi.joined hactive hs hnext hmem hattested
  | @surveyed _ _ _ unresolved cancelled hs hnext =>
    obtain ⟨r, frame, rfl, hcontrol, hopen, rfl, hagrees, hlogged, hsaved, hlive⟩ :=
      hi.asked hs hnext
    exact ⟨frame, hcontrol, hsaved, hagrees, hlogged.beside (by simp [Entered]) (by simp), hopen,
      rfl, hlive unresolved cancelled⟩
  -- a frame is saved, or is refused
  | saved hs hnext hcommit =>
    obtain ⟨r, frame, rfl, -, hopen, rfl, hagrees, hlogged, -, hlive, hadvances, -⟩ :=
      hi.asked hs hnext
    obtain ⟨old, hold, rfl⟩ := Construct.Invariant.commits_updateFrame hcommit
    obtain rfl := Option.some.inj hold
    exact .replaced hopen hagrees hlogged hlive hadvances (by simp [Entered]) (by simp)
  | stopped hs hnext hbefore hupdate =>
    obtain ⟨r, frame, rfl, -, hopen, rfl, hagrees, hlogged, -, hlive, hadvances⟩ :=
      hi.asked hs hnext
    obtain ⟨old, hold, hafter⟩ := Construct.Invariant.stopped_record hupdate
    obtain rfl := Option.some.inj (hbefore.symm.trans hold)
    rw [hafter]
    exact .replaced hopen hagrees hlogged hlive hadvances (by simp [Entered]) (by simp)
  | @unsaved i point next frame' refused e hs hnext =>
    obtain ⟨r, frame, rfl, hcontrol, hopen, rfl, hagrees, hlogged, hsaved, -, -, hrefused⟩ :=
      hi.asked hs hnext
    refine ⟨frame, hcontrol, hsaved, hagrees, hlogged.beside (by simp [Entered]) (by simp), hopen,
      rfl, judged_error hactive fun error herror => ?_⟩
    rcases hrefused e with heq | heq
    · exact interruption_of_transitionError (heq.symm.trans herror)
    · cases heq.symm.trans herror
  -- the end of the construct
  | completed hs _ hcommit => exact hi.completed hs hcommit
  | oversized hs hcheck =>
    obtain ⟨r, frame, rfl, hcontrol, hsaved, hopen, rfl, hagrees, hlogged, hjudged⟩ :=
      hi.recording hs
    exact ⟨frame, hcontrol, hsaved, hagrees, hlogged, hopen, rfl, .oversized hjudged hcheck⟩
  | incomplete hs =>
    obtain ⟨r, frame, rfl, hcontrol, hsaved, hopen, rfl, hagrees, hlogged, -⟩ := hi.recording hs
    exact ⟨frame, hcontrol, hsaved, hagrees, hlogged, hopen, rfl,
      judged_error hactive fun e he => interruption_of_transitionError he⟩
  | erred hs hcommit => exact hi.erred hs hcommit
  | passed hs hother =>
    exact hi.leave (.inr ⟨_, rfl, handed_error fun error herror => absurd herror (hother error)⟩)

/-- The invariant holds in every history whose children did what is prescribed. -/
theorem holds_history {logical : String}
    (hactive : Prescribes root given answers (.active place node input))
    (hlives : HostHistory construct logical (node.key place) input h)
    (hattested : Attested root given answers place node input h.log) : S.Holds h := by
  induction hlives with
  | refl => exact ⟨rfl, trivial⟩
  | tail _ hstep ih =>
    obtain ⟨_, hlog, -⟩ := id hstep
    obtain ⟨more, hmore⟩ := log_prefix hlog
    exact holds_step hactive hstep hattested (ih (hmore ▸ hattested).of_append)

/-- What the invariant says of a history. -/
theorem Holds.conforms (hi : S.Holds h) :
    HistoryConforms root given answers place node input h := by
  obtain ⟨record, stage, log⟩ := h
  cases record with
  | none =>
    obtain ⟨hlog, hstage⟩ := hi
    obtain rfl : log = [] := hlog
    refine ⟨by simp [Entered], by simp [Entered], by simp, fun r hr => (by cases hr),
      fun result hresult => ?_⟩
    dsimp only at hresult
    subst hresult
    exact hstage
  | some r =>
    obtain ⟨frame, -, -, hagrees, hlogged, hstage⟩ := hi
    refine ⟨fun step body bodyInput hmem => (hlogged.entered step body bodyInput hmem).1,
      hlogged.repeated, hlogged.returned, fun r' hr => ?_, fun result hresult => ?_⟩
    · obtain rfl := Option.some.inj hr
      exact hagrees
    · dsimp only at hresult
      subst hresult
      exact hstage

end Sound

/-! ## Control nodes -/

/-- In every history of a control node that is given its prescribed input, by workers that are
dropped and begin again on any hosts, the node does what is prescribed as far as the bodies it
awaited did. -/
theorem control_prescribed {executes : Limits → Construct ControlPoint}
    (hexecutor : executor node.instruction = some executes) {logical : String}
    {h : NodeHistory ControlPoint}
    (hactive : Prescribes root given answers (.active place node input))
    (hhistory : HostHistory executes logical (node.key place) input h)
    (hattested : Attested root given answers place node input h.log) :
    HistoryConforms root given answers place node input h := by
  obtain ⟨S⟩ : Nonempty (Sound executes root given answers place node input) :=
    exists_sound hexecutor
  have hi : S.Holds h := Sound.holds_history hactive hhistory hattested
  exact hi.conforms

end

/-! ## An interrupted loop -/

def sampleRound : PreparedBody :=
  ⟨[], .literal .null⟩

def sampleRepeating : PreparedNode :=
  ⟨"a", .literal .null, .loop (.literal (.bool true)) sampleRound 1 .returnLast⟩

def sampleRepetition (limits : Limits) : Construct ControlPoint :=
  (loopConstruct (.literal (.bool true)) sampleRound 1 .returnLast limits).embed .loop
    ControlPoint.asLoop

/-- The first worker is dropped after the iteration, before its progress is saved. -/
def sampleInterrupted : List Occurrence :=
  [.began .null, .checked false false, .entered (.iterations 0) sampleRound (loopInput .null 0),
    .left (.iterations 0) (.ok .null), .began .null, .checked false false,
    .entered (.iterations 0) sampleRound (loopInput .null 0), .left (.iterations 0) (.ok .null),
    .saved (.loop 1 .null), .checked false false, .returned (.ok .null)]

def sampleRepeated : NodeHistory ControlPoint where
  record := some (completedRecord .null (controlRecord "i" .running .null (.loop 1 .null)))
  stage := .gone (.ok .null)
  log := sampleInterrupted

section

variable {key : String}

theorem sampleRepetition_top (i : Nat) :
    (sampleRepetition {}).next .null (.loop (.top i .null)) = .check (.loop (.decide i .null)) :=
  rfl

theorem sampleRepetition_enter :
    (sampleRepetition {}).next .null (.loop (.decide 0 .null)) =
      .enter (.iterations 0) sampleRound (loopInput .null 0) fun r => .loop (.after 0 r) := rfl

theorem sampleRepetition_save :
    (sampleRepetition {}).next .null (.loop (.after 0 (.ok .null))) =
      .save (.loop 1 .null) transitionError (.loop (.top 1 .null)) := rfl

theorem sampleRepetition_finish :
    (sampleRepetition {}).next .null (.loop (.decide 1 .null)) = .finish (.ok .null) := rfl

theorem sampleRepetition_left {h : NodeHistory ControlPoint}
    {next : Except StepError Value → ControlPoint}
    (hstage : h.stage = .within .null (.iterations 0) next) :
    (sampleRepetition {}).Step {} "i" key h { h with
      stage := .at .null (next (.ok .null))
      log := h.log ++ [.left (.iterations 0) (.ok .null)] } :=
  .left hstage

/-- A worker that is under way, or finds a record, takes no input. -/
theorem sampleRepetition_goes {h h' : NodeHistory ControlPoint}
    (hh : HostHistory sampleRepetition "i" key .null h)
    (hstep : (sampleRepetition {}).Step {} "i" key h h')
    (hbusy : h.stage = .idle → h.record ≠ none) :
    HostHistory sampleRepetition "i" key .null h' :=
  hh.tail ⟨{}, hstep, fun hs hr => absurd hr (hbusy hs)⟩

/-- The first worker activates the loop and enters its iteration. -/
theorem sampleRepetition_enters (key : String) :
    HostHistory sampleRepetition "i" key .null
      ⟨some (controlRecord "i" .running .null (.loop 0 .null)),
        .within .null (.iterations 0) fun r => .loop (.after 0 r),
        [.began .null, .checked false false,
          .entered (.iterations 0) sampleRound (loopInput .null 0)]⟩ := by
  have hlive : planNode none false false = .ok .execute := rfl
  have hactivate : Commits {} true (activate "i" .null (.loop 0 .null)) none
      (controlRecord "i" .running .null (.loop 0 .null)) :=
    Construct.commits_of_sampleRun (by decide +kernel)
  have h : HostHistory sampleRepetition "i" key .null {} := .refl
  have h := h.tail ⟨{}, .begun rfl hlive (by simp) rfl, fun _ _ =>
    ⟨fun i frame hi => (WorkerStage.activating.inj hi).1.symm, fun e he => by cases he⟩⟩
  have h := sampleRepetition_goes h (.activated rfl hactivate) (by simp)
  have h := sampleRepetition_goes h (.checked rfl (sampleRepetition_top 0) hlive) (by simp)
  exact sampleRepetition_goes h (.entered rfl sampleRepetition_enter) (by simp)

/-- A worker whose iteration has returned saves its progress and returns. -/
theorem sampleRepetition_ends {log : List Occurrence}
    (h : HostHistory sampleRepetition "i" key .null
      ⟨some (controlRecord "i" .running .null (.loop 0 .null)),
        .at .null (.loop (.after 0 (.ok .null))), log⟩) :
    HostHistory sampleRepetition "i" key .null
      ⟨some (completedRecord .null (controlRecord "i" .running .null (.loop 1 .null))),
        .gone (.ok .null),
        log ++ [.saved (.loop 1 .null)] ++ [.checked false false] ++ [.returned (.ok .null)]⟩ := by
  have hlive : planNode none false false = .ok .execute := rfl
  have hupdate : Commits {} true (updateFrame (.loop 1 .null))
      (some (controlRecord "i" .running .null (.loop 0 .null)))
      (controlRecord "i" .running .null (.loop 1 .null)) :=
    Construct.commits_of_sampleRun (by decide +kernel)
  have hcomplete : Commits {} true (completeControl .null)
      (some (controlRecord "i" .running .null (.loop 1 .null)))
      (completedRecord .null (controlRecord "i" .running .null (.loop 1 .null))) :=
    Construct.commits_of_sampleRun (by decide +kernel)
  have h := sampleRepetition_goes h (.saved rfl sampleRepetition_save hupdate) (by simp)
  have h := sampleRepetition_goes h (.checked rfl (sampleRepetition_top 1) hlive) (by simp)
  have h := sampleRepetition_goes h (.returned rfl sampleRepetition_finish) (by simp)
  exact sampleRepetition_goes h (.completed rfl rfl hcomplete) (by simp)

theorem sampleRepeated_history (key : String) :
    HostHistory sampleRepetition "i" key .null sampleRepeated := by
  have hlive : planNode none false false = .ok .execute := rfl
  have hagain : planNode (some (controlRecord "i" .running .null (.loop 0 .null))) false false =
      .ok .execute := rfl
  have h := sampleRepetition_enters key
  have h := sampleRepetition_goes h (sampleRepetition_left rfl) (by simp)
  have h := sampleRepetition_goes h (.dropped _) (by simp)
  have h := sampleRepetition_goes h (.begun rfl hagain (fun r hr => by cases hr; rfl) rfl)
    (by simp)
  have h := sampleRepetition_goes h (.resumed rfl rfl) (by simp)
  have h := sampleRepetition_goes h (.checked rfl (sampleRepetition_top 0) hlive) (by simp)
  have h := sampleRepetition_goes h (.entered rfl sampleRepetition_enter) (by simp)
  have h := sampleRepetition_goes h (sampleRepetition_left rfl) (by simp)
  exact sampleRepetition_ends h

end

/-- Both workers were told the same. -/
theorem sampleInterrupted_entered {before after : List Occurrence} {step : ScopeStep}
    {body : PreparedBody} {bodyInput : Value} {result : Except StepError Value}
    (h : sampleInterrupted = before ++ .entered step body bodyInput :: .left step result :: after) :
    body = sampleRound ∧ result = .ok .null := by
  have hentered : Occurrence.entered step body bodyInput ∈ sampleInterrupted := by simp [h]
  have hleft : Occurrence.left step result ∈ sampleInterrupted := by simp [h]
  simp only [sampleInterrupted, List.mem_cons, reduceCtorEq, Occurrence.entered.injEq,
    Occurrence.left.injEq, List.not_mem_nil, false_or, or_false] at hentered hleft
  constructor
  · rcases hentered with ⟨-, hbody, -⟩ | ⟨-, hbody, -⟩
    · exact hbody
    · exact hbody
  · rcases hleft with ⟨-, hresult⟩ | ⟨-, hresult⟩
    · exact hresult
    · exact hresult

def samplePlanned : PreparedBody :=
  ⟨[sampleRepeating], .literal .null⟩

theorem control_prescribed_sample :
    HistoryConforms samplePlanned .null (fun _ _ => False) [] sampleRepeating .null
      sampleRepeated := by
  have hinput : sampleRepeating.input.evaluate .null ∅ {} = .ok .null := rfl
  refine control_prescribed rfl (.activates (.begins .root) hinput) (sampleRepeated_history _)
    ⟨?_, ?_⟩
  · intro before step body bodyInput result after hlog hchild
    obtain ⟨rfl, rfl⟩ := sampleInterrupted_entered hlog
    have houtput : sampleRound.output.evaluate bodyInput ∅ {} = .ok .null := rfl
    exact Prescribes.finishes (.begins (.enters hchild)) houtput
  · intro index result cancelled hmem
    simp [sampleRepeated, sampleInterrupted] at hmem

end WorkflowForge.Engine
