import WorkflowForge.Engine.Plan
import WorkflowForge.Engine.Planner
import WorkflowForge.Engine.Scope

/-!
# Control Constructs

A control node is executed by a worker that enters child bodies, and saves its progress in the
frame of its record before what it did is relied on. The worker can be gone at any moment; the
next one starts from what the record says.

A construct is given by its points: `next` says what the worker asks for at a point, and where
it goes on with the answer. Everything outside is left open: what a child body returns, the
head of the run and the clock at each reading, and the cancellation of the scope.

## Main results

- `Construct.Invariant.reaches`: what holds when a frame is saved, and at every point of a
  worker that started from it, holds in every history of the node.
-/

namespace WorkflowForge.Engine

open Lib

/-! ## Errors as data -/

/-- The document of an error that a body reads; objects list their members in key order. -/
def operationErrorValue (e : OperationError) : Value := .object
  [("certainty", serialize e.certainty), ("class", serialize e.class_),
   ("code", .string e.code), ("message", .string e.message)]

def locationValue (l : Location) : Value := .object
  [("data", serialize l.data), ("field", .string l.field), ("node", serialize l.node)]

def diagnosticValue (d : Diagnostic) : Value := .object
  ([("code", .string d.code), ("location", locationValue d.location),
    ("message", .string d.message)]
    ++ (d.operationError.map fun e => ("operation_error", operationErrorValue e)).toList
    ++ [("phase", .string d.phase)]
    ++ optionalMember "retryable" d.retryable)

def errorValue (e : ForgeError) : Value :=
  .object [("diagnostics", .array (e.diagnostics.map diagnosticValue))]

/-! ## What a worker asks for -/

/-- What the worker of a control node does at a point of its construct. -/
inductive Ask (σ : Type) where
  /-- The construct returns. -/
  | finish (result : Except StepError Value)
  /-- A cancelled or expired scope ends here. -/
  | check (next : σ)
  /-- A child body is executed, and its result awaited. -/
  | enter (step : ScopeStep) (body : PreparedBody) (input : Value)
      (next : Except StepError Value → σ)
  /-- The frame is saved. -/
  | save (frame : ControlFrame) (refused : ForgeError → StepError) (next : σ)
  /-- A slot for one more concurrent child. -/
  | permit (next : Bool → σ)
  /-- The body of one of several children begins, and is not awaited yet. -/
  | spawn (index : Nat) (step : ScopeStep) (body : PreparedBody) (input : Value) (next : σ)
  /-- The next one of the active children to return, and the cancellation of the scope. -/
  | join (active : List Nat) (next : Nat → Except StepError Value → Bool → σ)
  /-- The frame is saved with its stop marker, and the waits below the node are closed. -/
  | stop (frame : ControlFrame) (next : σ)
  /-- The last look at the run: unresolved effects below the node, and its cancellation. -/
  | survey (next : Bool → Bool → σ)

/-- What only a worker with several children asks for. -/
def Ask.forGroup {σ : Type} : Ask σ → Bool
  | .permit _ | .spawn .. | .join .. | .stop .. | .survey _ => true
  | _ => false

def planMismatch : ForgeError :=
  .new "state.conflict" "Saved control instruction does not match the prepared plan"

/-- A control construct: where a worker starts from a saved frame, and what it asks for. -/
structure Construct (σ : Type) where
  /-- The frame of a node that is activated with an input. -/
  initial : Value → Except ForgeError ControlFrame
  start : Value → ControlFrame → Except StepError σ
  next : Value → σ → Ask σ

/-! ## The history of a node -/

/-- What happened at a control node. -/
inductive Occurrence where
  /-- A worker starts from the saved frame. -/
  | began (input : Value)
  | checked (cancelled expired : Bool)
  | entered (step : ScopeStep) (body : PreparedBody) (input : Value)
  | left (step : ScopeStep) (result : Except StepError Value)
  | saved (frame : ControlFrame)
  /-- The store or the limits refused to save the frame, and the construct ended. -/
  | refused (error : StepError)
  | permitted (granted : Bool)
  | spawned (index : Nat) (step : ScopeStep) (body : PreparedBody) (input : Value)
  | joined (index : Nat) (result : Except StepError Value) (cancelled : Bool)
  | stopped (frame : ControlFrame) (before after : RunSnapshot)
  | surveyed (unresolved cancelled : Bool)
  | returned (result : Except StepError Value)

/-- An occurrence in a history that has grown by one is the last one, or was there before. -/
theorem snoc_eq_append_cons {log pre post : List Occurrence} {e a : Occurrence}
    (h : log ++ [e] = pre ++ a :: post) :
    log = pre ∧ e = a ∧ post = [] ∨ ∃ post', post = post' ++ [e] ∧ log = pre ++ a :: post' := by
  rcases List.eq_nil_or_concat post with rfl | ⟨post', b, rfl⟩
  · obtain ⟨rfl, he⟩ := List.append_inj' h rfl
    exact .inl ⟨rfl, by simpa using he, rfl⟩
  · rw [List.concat_eq_append, ← List.cons_append, ← List.append_assoc] at h
    obtain ⟨rfl, he⟩ := List.append_inj' h rfl
    obtain rfl : e = b := by simpa using he
    exact .inr ⟨post', by simp, rfl⟩

/-- Every worker began with the same input. -/
def Begins (input : Value) (log : List Occurrence) : Prop :=
  ∀ i, .began i ∈ log → i = input

theorem Begins.append {input : Value} {log : List Occurrence} {x : Occurrence}
    (h : Begins input log) (hx : ∀ i, x = .began i → i = input) : Begins input (log ++ [x]) := by
  intro i hmem
  rcases List.mem_append.mp hmem with hmem | hmem
  · exact h i hmem
  · exact hx i (List.mem_singleton.mp hmem).symm

/-- How far the worker of a control node has come. -/
inductive WorkerStage (σ : Type) where
  | idle
  | activating (input : Value) (frame : ControlFrame)
  | at (input : Value) (point : σ)
  /-- A child body is executed. -/
  | within (input : Value) (step : ScopeStep) (next : Except StepError Value → σ)
  /-- The construct has returned; its result is to be recorded. -/
  | recording (input : Value) (result : Except StepError Value)
  | gone (result : Except StepError Value)

/-- A control node: its record, its worker, and what happened, oldest first. -/
structure NodeHistory (σ : Type) where
  record : Option InvocationRecord := none
  stage : WorkerStage σ := .idle
  log : List Occurrence := []

/-- An update of the record is committed. The rest of the view is open; a run ends only after
its workers have returned. -/
def Commits (limits : Limits) (checkBudget : Bool) (edit : NodeEdit)
    (record : Option InvocationRecord) (r : InvocationRecord) : Prop :=
  ∃ view : ExecutionView, view.invocation = record ∧ view.head.state.isTerminal = false ∧
    updateNode limits checkBudget edit view = .ok (some r)

/-- Names the node in the diagnostics that name none. -/
def attributed (key : String) (error : ForgeError) : ForgeError where
  diagnostics := error.diagnostics.map fun d =>
    if d.location.node = none then { d with location := { d.location with node := some key } }
    else d

namespace Construct

variable {σ : Type} (construct : Construct σ) (limits : Limits) (logical key : String)

/-- Where a worker begins that found or committed a frame. -/
def entry (input : Value) (frame : ControlFrame) : WorkerStage σ :=
  match construct.start input frame with
  | .ok point => .at input point
  | .error e => .recording input (.error e)

/-- One step of a node. Where an update fails for the runtime, or its answer is lost, the
worker is gone. -/
inductive Step : NodeHistory σ → NodeHistory σ → Prop where
  /-- The worker crashed, was dropped, or has returned. -/
  | dropped (h : NodeHistory σ) : Step h { h with stage := .idle }
  /-- A node that has settled, or whose scope has ended, is not executed. -/
  | settled {h : NodeHistory σ} {cancelled expired : Bool} {result : Except StepError Value} :
      h.stage = .idle →
      (match planNode h.record cancelled expired with
        | .ok (.confirmed value) => result = .ok value
        | .ok .execute => False
        | .error e => result = .error e) →
      Step h { h with stage := .gone result }
  /-- A new node takes the input its binding gives, an activated one the persisted input. -/
  | begun {h : NodeHistory σ} {cancelled expired : Bool} {input : Value} {frame : ControlFrame} :
      h.stage = .idle → planNode h.record cancelled expired = .ok .execute →
      (∀ r, h.record = some r → input = r.input) →
      (match h.record.bind InvocationRecord.control with
        | some saved => frame = saved
        | none => construct.initial input = .ok frame) →
      Step h { h with stage := .activating input frame }
  | undecided {h : NodeHistory σ} {cancelled expired : Bool} {input : Value} {e : ForgeError} :
      h.stage = .idle → planNode h.record cancelled expired = .ok .execute →
      h.record.bind InvocationRecord.control = none → construct.initial input = .error e →
      Step h { h with stage := .gone (.error (.execution e)) }
  | activated {h : NodeHistory σ} {input : Value} {frame : ControlFrame}
      {r : InvocationRecord} : h.stage = .activating input frame →
      Commits limits true (activate logical input frame) h.record r →
      Step h { h with
        record := some r, stage := construct.entry input frame, log := h.log ++ [.began input] }
  | resumed {h : NodeHistory σ} {input : Value} {frame : ControlFrame} :
      h.stage = .activating input frame → h.record.isSome →
      Step h { h with stage := construct.entry input frame, log := h.log ++ [.began input] }
  | unactivated {h : NodeHistory σ} {input : Value} {frame : ControlFrame} {e : ForgeError} :
      h.stage = .activating input frame →
      Step h { h with stage := .gone (.error (transitionError e)) }
  | returned {h : NodeHistory σ} {input : Value} {point : σ} {result : Except StepError Value} :
      h.stage = .at input point → construct.next input point = .finish result →
      Step h { h with stage := .recording input result, log := h.log ++ [.returned result] }
  | checked {h : NodeHistory σ} {input : Value} {point next : σ} {cancelled expired : Bool} :
      h.stage = .at input point → construct.next input point = .check next →
      planNode none cancelled expired = .ok .execute →
      Step h { h with
        stage := .at input next, log := h.log ++ [.checked cancelled expired] }
  | barred {h : NodeHistory σ} {input : Value} {point next : σ} {cancelled expired : Bool}
      {e : StepError} : h.stage = .at input point → construct.next input point = .check next →
      planNode none cancelled expired = .error e →
      Step h { h with
        stage := .recording input (.error e), log := h.log ++ [.returned (.error e)] }
  | entered {h : NodeHistory σ} {input childInput : Value} {point : σ} {step : ScopeStep}
      {body : PreparedBody} {next : Except StepError Value → σ} : h.stage = .at input point →
      construct.next input point = .enter step body childInput next →
      Step h { h with
        stage := .within input step next, log := h.log ++ [.entered step body childInput] }
  | left {h : NodeHistory σ} {input : Value} {step : ScopeStep}
      {next : Except StepError Value → σ} {result : Except StepError Value} :
      h.stage = .within input step next →
      Step h { h with stage := .at input (next result), log := h.log ++ [.left step result] }
  | saved {h : NodeHistory σ} {input : Value} {point next : σ} {frame : ControlFrame}
      {refused : ForgeError → StepError} {r : InvocationRecord} : h.stage = .at input point →
      construct.next input point = .save frame refused next →
      Commits limits true (updateFrame frame) h.record r →
      Step h { h with
        record := some r, stage := .at input next, log := h.log ++ [.saved frame] }
  | unsaved {h : NodeHistory σ} {input : Value} {point next : σ} {frame : ControlFrame}
      {refused : ForgeError → StepError} {e : ForgeError} : h.stage = .at input point →
      construct.next input point = .save frame refused next →
      Step h { h with
        stage := .recording input (.error (refused e))
        log := h.log ++ [.refused (refused e)] }
  | permitted {h : NodeHistory σ} {input : Value} {point : σ} {next : Bool → σ}
      {granted : Bool} : h.stage = .at input point →
      construct.next input point = .permit next →
      Step h { h with stage := .at input (next granted), log := h.log ++ [.permitted granted] }
  | spawned {h : NodeHistory σ} {input childInput : Value} {point next : σ} {index : Nat}
      {step : ScopeStep} {body : PreparedBody} : h.stage = .at input point →
      construct.next input point = .spawn index step body childInput next →
      Step h { h with
        stage := .at input next, log := h.log ++ [.spawned index step body childInput] }
  | joined {h : NodeHistory σ} {input : Value} {point : σ} {active : List Nat}
      {next : Nat → Except StepError Value → Bool → σ} {index : Nat}
      {result : Except StepError Value} {cancelled : Bool} : h.stage = .at input point →
      construct.next input point = .join active next → index ∈ active →
      Step h { h with
        stage := .at input (next index result cancelled)
        log := h.log ++ [.joined index result cancelled] }
  /-- The marker is committed with the whole run. -/
  | stopped {h : NodeHistory σ} {input : Value} {point next : σ} {frame : ControlFrame}
      {before after : RunSnapshot} : h.stage = .at input point →
      construct.next input point = .stop frame next → before.invocations[key]? = h.record →
      update false (stopGroup limits key frame) before = .ok (some after) →
      Step h { h with
        record := after.invocations[key]?
        stage := .at input next
        log := h.log ++ [.stopped frame before after] }
  | surveyed {h : NodeHistory σ} {input : Value} {point : σ} {next : Bool → Bool → σ}
      {unresolved cancelled : Bool} : h.stage = .at input point →
      construct.next input point = .survey next →
      Step h { h with
        stage := .at input (next unresolved cancelled)
        log := h.log ++ [.surveyed unresolved cancelled] }
  /-- A result within its limits is recorded. -/
  | completed {h : NodeHistory σ} {input value : Value} {n : Nat} {r : InvocationRecord} :
      h.stage = .recording input (.ok value) →
      checkValue value limits.valueBytes limits.jsonDepth = .ok n →
      Commits limits true (completeControl value) h.record r →
      Step h { h with record := some r, stage := .gone (.ok value) }
  | oversized {h : NodeHistory σ} {input value : Value} {e : ForgeError} :
      h.stage = .recording input (.ok value) →
      checkValue value limits.valueBytes limits.jsonDepth = .error e →
      Step h { h with stage := .recording input (.error (.execution e)) }
  | incomplete {h : NodeHistory σ} {input value : Value} {e : ForgeError} :
      h.stage = .recording input (.ok value) →
      Step h { h with stage := .recording input (.error (transitionError e)) }
  /-- An error of the run is recorded; a suspension or a failure of the runtime is not. -/
  | erred {h : NodeHistory σ} {input : Value} {e : ForgeError} {r : InvocationRecord} :
      h.stage = .recording input (.error (.execution e)) →
      Commits limits false (failControl (attributed key e)) h.record r →
      Step h { h with
        record := some r, stage := .gone (.error (.execution (attributed key e))) }
  | passed {h : NodeHistory σ} {input : Value} {e : StepError} :
      h.stage = .recording input (.error e) → (∀ f, e ≠ .execution f) →
      Step h { h with stage := .gone (.error e) }

/-- A history of the node, from before its activation. -/
def Reaches (h : NodeHistory σ) : Prop :=
  Relation.ReflTransGen (construct.Step limits logical key) {} h

/-! ## The invariant rule -/

/-- What holds of a saved frame, and at every point of a worker over its saved frame. Each
part of the construct keeps it. -/
structure Invariant where
  saved : Value → ControlFrame → List Occurrence → Prop
  live : Value → ControlFrame → σ → List Occurrence → Prop
  live_saved : ∀ {input frame point log}, live input frame point log → saved input frame log
  initial : ∀ {input frame}, construct.initial input = .ok frame → saved input frame []
  began : ∀ {input frame log}, saved input frame log → saved input frame (log ++ [.began input])
  start : ∀ {input frame point log}, saved input frame log →
    construct.start input frame = .ok point → live input frame point (log ++ [.began input])
  returned : ∀ {input frame point log result}, live input frame point log →
    construct.next input point = .finish result →
    saved input frame (log ++ [.returned result])
  barred : ∀ {input frame point next log cancelled expired e}, live input frame point log →
    construct.next input point = .check next → planNode none cancelled expired = .error e →
    saved input frame (log ++ [.returned (.error e)])
  refused : ∀ {input frame point f refused next log}, live input frame point log →
    construct.next input point = .save f refused next →
    ∀ e, saved input frame (log ++ [.refused (refused e)])
  checked : ∀ {input frame point next log}, live input frame point log →
    construct.next input point = .check next →
    live input frame next (log ++ [.checked false false])
  entered : ∀ {input frame point step body childInput next log}, live input frame point log →
    construct.next input point = .enter step body childInput next →
    saved input frame (log ++ [.entered step body childInput]) ∧
      ∀ result, live input frame (next result)
        (log ++ [.entered step body childInput] ++ [.left step result])
  save : ∀ {input frame point f refused next log}, live input frame point log →
    construct.next input point = .save f refused next → live input f next (log ++ [.saved f])
  permitted : ∀ {input frame point next log}, live input frame point log →
    construct.next input point = .permit next →
    ∀ granted, live input frame (next granted) (log ++ [.permitted granted])
  spawned : ∀ {input frame point index step body childInput next log},
    live input frame point log →
    construct.next input point = .spawn index step body childInput next →
    live input frame next (log ++ [.spawned index step body childInput])
  joined : ∀ {input frame point active next log}, live input frame point log →
    construct.next input point = .join active next → ∀ index ∈ active, ∀ result cancelled,
      live input frame (next index result cancelled) (log ++ [.joined index result cancelled])
  stopped : ∀ {input frame point f next log before after}, live input frame point log →
    construct.next input point = .stop f next →
    update false (stopGroup limits key f) before = .ok (some after) →
    live input f next (log ++ [.stopped f before after])
  surveyed : ∀ {input frame point next log}, live input frame point log →
    construct.next input point = .survey next → ∀ unresolved cancelled,
      live input frame (next unresolved cancelled) (log ++ [.surveyed unresolved cancelled])

/-- A record that its node may still change. -/
def Unsettled (r : InvocationRecord) : Prop :=
  r.state = .running ∨ r.state = .pending ∨ r.state = .retryScheduled

variable {construct limits logical key}

/-- A small run takes an update, for examples. -/
theorem commits_of_sampleRun {checkBudget : Bool} {edit : NodeEdit}
    {record : Option InvocationRecord} {r : InvocationRecord}
    (h : updateNode limits checkBudget edit ⟨sampleRun.head, record, false⟩ = .ok (some r)) :
    Commits limits checkBudget edit record r :=
  ⟨⟨sampleRun.head, record, false⟩, rfl, rfl, h⟩

namespace Invariant

section

variable (I : construct.Invariant limits key)

/-- What the stage of the worker adds, over an activated node. -/
def AtStage (r : InvocationRecord) (input : Value) (frame : ControlFrame)
    (log : List Occurrence) : WorkerStage σ → Prop
  | .idle | .gone _ => True
  | .activating input' frame' => Unsettled r ∧ input' = input ∧ frame' = frame
  | .at input' point => Unsettled r ∧ input' = input ∧ I.live input frame point log
  | .within input' step next => Unsettled r ∧ input' = input ∧
      ∀ result, I.live input frame (next result) (log ++ [.left step result])
  | .recording input' _ => Unsettled r ∧ input' = input

/-- A node before and after its activation. -/
def Holds (h : NodeHistory σ) : Prop :=
  match h.record with
  | none => h.log = [] ∧
    match h.stage with
    | .idle | .gone _ => True
    | .activating input frame => construct.initial input = .ok frame
    | _ => False
  | some r => ∃ input frame, r.control = some frame ∧
      (I.saved input frame h.log ∧ Begins input h.log) ∧
      (Unsettled r → r.input = input) ∧ I.AtStage r input frame h.log h.stage

end

variable {I : construct.Invariant limits key} {h h' : NodeHistory σ}

theorem commits_activate {input : Value} {frame : ControlFrame}
    {record : Option InvocationRecord} {r : InvocationRecord}
    (hc : Commits limits true (activate logical input frame) record r) :
    record = none ∧ r = controlRecord logical .running input frame := by
  obtain ⟨view, rfl, -, hu⟩ := hc
  exact activate_eq_some (updateNode_eq_some hu).2.1

theorem commits_updateFrame {frame : ControlFrame} {record : Option InvocationRecord}
    {r : InvocationRecord} (hc : Commits limits true (updateFrame frame) record r) :
    ∃ old, record = some old ∧ r = { old with control := some frame } := by
  obtain ⟨view, rfl, -, hu⟩ := hc
  exact updateFrame_eq_some (updateNode_eq_some hu).2.1

theorem commits_completeControl {value : Value} {record : Option InvocationRecord}
    {r : InvocationRecord} (hc : Commits limits true (completeControl value) record r) :
    ∃ old, record = some old ∧ r = completedRecord value old := by
  obtain ⟨view, rfl, -, hu⟩ := hc
  exact completeControl_eq_some (updateNode_eq_some hu).2.1

theorem commits_failControl {e : ForgeError} {record : Option InvocationRecord}
    {r : InvocationRecord} (hc : Commits limits false (failControl e) record r) :
    ∃ old, record = some old ∧ r = erroredRecord e old := by
  obtain ⟨view, rfl, -, hu⟩ := hc
  exact failControl_eq_some (updateNode_eq_some hu).2.1

/-- The stop of a group replaces the frame of its record. -/
theorem stopped_record {frame : ControlFrame} {before after : RunSnapshot}
    (hu : update false (stopGroup limits key frame) before = .ok (some after)) :
    ∃ old, before.invocations[key]? = some old ∧
      after.invocations[key]? = some { old with control := some frame } := by
  obtain ⟨-, edited, revision, he, -, rfl⟩ := update_eq_some hu
  obtain ⟨old, hold, rfl, -⟩ := stopGroup_eq_some he
  refine ⟨old, hold, ?_⟩
  change (before.invocations.insert key { old with control := some frame })[key]? = _
  rw [BTreeMap.get_insert_self]

/-- A worker that begins over a saved frame. -/
theorem atStage_entry {r : InvocationRecord} {input : Value} {frame : ControlFrame}
    {log : List Occurrence} (hr : Unsettled r) (hsaved : I.saved input frame log) :
    I.AtStage r input frame (log ++ [.began input]) (construct.entry input frame) := by
  unfold entry
  split
  next point hpoint => exact ⟨hr, rfl, I.start hsaved hpoint⟩
  · exact ⟨hr, rfl⟩

/-- What a worker at a point knows. -/
theorem Holds.at (hi : I.Holds h) {input : Value} {point : σ} (hs : h.stage = .at input point) :
    ∃ r frame, h.record = some r ∧ r.control = some frame ∧ Unsettled r ∧ r.input = input ∧
      I.live input frame point h.log ∧ Begins input h.log := by
  unfold Holds at hi
  split at hi
  · rw [hs] at hi
    exact hi.2.elim
  next r hr =>
    obtain ⟨input', frame, hcontrol, ⟨-, hbegins⟩, hinput, hstage⟩ := hi
    rw [hs] at hstage
    obtain ⟨hopen, rfl, hlive⟩ := hstage
    exact ⟨r, frame, hr, hcontrol, hopen, hinput hopen, hlive, hbegins⟩

/-- A step that leaves the record alone, and its worker at a point or elsewhere. -/
theorem holds_of_record {r : InvocationRecord} {input : Value} {frame : ControlFrame}
    {stage : WorkerStage σ} {log : List Occurrence} (hcontrol : r.control = some frame)
    (hinput : Unsettled r → r.input = input) (hsaved : I.saved input frame log)
    (hbegins : Begins input log) (hstage : I.AtStage r input frame log stage) :
    I.Holds ⟨some r, stage, log⟩ :=
  ⟨input, frame, hcontrol, ⟨hsaved, hbegins⟩, hinput, hstage⟩

/-- One more occurrence at a node whose worker began before. -/
theorem holds_append {r : InvocationRecord} {input : Value} {frame : ControlFrame}
    {stage : WorkerStage σ} {log : List Occurrence} {x : Occurrence}
    (hcontrol : r.control = some frame) (hinput : Unsettled r → r.input = input)
    (hbegins : Begins input log) (hx : ∀ i, x ≠ .began i)
    (hsaved : I.saved input frame (log ++ [x]))
    (hstage : I.AtStage r input frame (log ++ [x]) stage) :
    I.Holds ⟨some r, stage, log ++ [x]⟩ :=
  holds_of_record hcontrol hinput hsaved (hbegins.append fun _ h => absurd h (hx _)) hstage

/-- The worker goes on to another point over its frame. -/
theorem holds_next {r : InvocationRecord} {frame : ControlFrame} {point : σ}
    {log : List Occurrence} {x : Occurrence} (hcontrol : r.control = some frame)
    (hopen : Unsettled r) (hbegins : Begins r.input log) (hx : ∀ i, x ≠ .began i)
    (hlive : I.live r.input frame point (log ++ [x])) :
    I.Holds ⟨some r, .at r.input point, log ++ [x]⟩ :=
  holds_append hcontrol (fun _ => rfl) hbegins hx (I.live_saved hlive) ⟨hopen, rfl, hlive⟩

/-! ### A worker comes and goes -/

/-- A worker that is gone leaves what is saved. -/
theorem Holds.leave (hi : I.Holds h) {stage : WorkerStage σ}
    (hs : stage = .idle ∨ ∃ result, stage = .gone result) :
    I.Holds { h with stage := stage } := by
  obtain ⟨record, _, log⟩ := h
  cases record with
  | none => rcases hs with rfl | ⟨_, rfl⟩ <;> exact ⟨hi.1, trivial⟩
  | some r =>
    obtain ⟨input, frame, hcontrol, ⟨hsaved, hbegins⟩, hinput, -⟩ := hi
    refine holds_of_record hcontrol hinput hsaved hbegins ?_
    rcases hs with rfl | ⟨_, rfl⟩ <;> trivial

/-- The first worker has the frame of its input, a later one the saved frame and input. -/
theorem Holds.begun (hi : I.Holds h) {cancelled expired : Bool} {input : Value}
    {frame : ControlFrame} (hplan : planNode h.record cancelled expired = .ok .execute)
    (hin : ∀ r, h.record = some r → input = r.input)
    (hframe : match h.record.bind InvocationRecord.control with
      | some saved => frame = saved
      | none => construct.initial input = .ok frame) :
    I.Holds { h with stage := .activating input frame } := by
  obtain ⟨record, _, log⟩ := h
  cases record with
  | none => exact ⟨hi.1, hframe⟩
  | some r =>
    obtain ⟨input', frame', hcontrol, ⟨hsaved, hbegins⟩, hinput, -⟩ := hi
    have hopen : Unsettled r := (planNode_eq_execute.mp hplan).2 r rfl
    simp only [Option.bind_some, hcontrol] at hframe
    obtain rfl := hframe
    refine holds_of_record hcontrol hinput hsaved hbegins ⟨hopen, ?_, rfl⟩
    rw [hin r rfl, hinput hopen]

/-- The first worker commits the record, and nothing has happened before. -/
theorem Holds.activated (hi : I.Holds h) {input : Value} {frame : ControlFrame}
    {r : InvocationRecord} (hs : h.stage = .activating input frame)
    (hcommit : Commits limits true (activate logical input frame) h.record r) :
    I.Holds ⟨some r, construct.entry input frame, h.log ++ [.began input]⟩ := by
  obtain ⟨record, stage, log⟩ := h
  obtain ⟨hnone, rfl⟩ := commits_activate hcommit
  obtain rfl : record = none := hnone
  obtain rfl : stage = _ := hs
  obtain ⟨hlog, hinitial⟩ := hi
  obtain rfl : log = [] := hlog
  have hsaved := I.initial hinitial
  refine holds_of_record rfl (fun _ => rfl) (I.began hsaved) (fun i hmem => ?_)
    (atStage_entry (.inl rfl) hsaved)
  exact (by simpa using hmem : i = input)

/-- A later worker begins from the saved frame, with the input of the first one. -/
theorem Holds.resumed (hi : I.Holds h) {input : Value} {frame : ControlFrame}
    (hs : h.stage = .activating input frame) (hsome : h.record.isSome) :
    I.Holds { h with stage := construct.entry input frame, log := h.log ++ [.began input] } := by
  obtain ⟨record, stage, log⟩ := h
  obtain ⟨r, rfl⟩ := Option.isSome_iff_exists.mp hsome
  obtain rfl : stage = _ := hs
  obtain ⟨input', frame', hcontrol, ⟨hsaved, hbegins⟩, hinput, hopen, rfl, rfl⟩ := hi
  refine holds_of_record hcontrol hinput (I.began hsaved) (hbegins.append ?_)
    (atStage_entry hopen hsaved)
  rintro _ ⟨⟩
  rfl

/-! ### A worker returns -/

/-- The worker of a body goes on with any result of it. -/
theorem Holds.left (hi : I.Holds h) {input : Value} {step : ScopeStep}
    {next : Except StepError Value → σ} (hs : h.stage = .within input step next)
    (result : Except StepError Value) :
    I.Holds { h with stage := .at input (next result), log := h.log ++ [.left step result] } := by
  obtain ⟨record, stage, log⟩ := h
  obtain rfl : stage = _ := hs
  cases record with
  | none => exact hi.2.elim
  | some r =>
    obtain ⟨input', frame, hcontrol, ⟨-, hbegins⟩, hinput, hopen, rfl, hlive⟩ := hi
    exact holds_append hcontrol hinput hbegins (by simp) (I.live_saved (hlive result))
      ⟨hopen, rfl, hlive result⟩

/-- A worker that records a result may turn to another one. -/
theorem Holds.recording (hi : I.Holds h) {input : Value} {result result' : Except StepError Value}
    (hs : h.stage = .recording input result) :
    I.Holds { h with stage := .recording input result' } := by
  obtain ⟨record, stage, log⟩ := h
  obtain rfl : stage = _ := hs
  cases record with
  | none => exact hi.2.elim
  | some r => exact hi

/-- A completed record keeps its frame. -/
theorem Holds.completed (hi : I.Holds h) {value : Value} {r : InvocationRecord}
    (hcommit : Commits limits true (completeControl value) h.record r) :
    I.Holds { h with record := some r, stage := .gone (.ok value) } := by
  obtain ⟨record, _, log⟩ := h
  obtain ⟨old, hold, rfl⟩ := commits_completeControl hcommit
  obtain rfl : record = some old := hold
  obtain ⟨input', frame, hcontrol, ⟨hsaved, hbegins⟩, -, -⟩ := hi
  refine holds_of_record hcontrol (fun hopen => ?_) hsaved hbegins trivial
  rcases hopen with hopen | hopen | hopen <;> cases hopen

/-- So does one that records an error, with its input. -/
theorem Holds.erred (hi : I.Holds h) {input : Value} {e : ForgeError} {r : InvocationRecord}
    (hs : h.stage = .recording input (.error (.execution e)))
    (hcommit : Commits limits false (failControl (attributed key e)) h.record r) :
    I.Holds { h with
      record := some r, stage := .gone (.error (.execution (attributed key e))) } := by
  obtain ⟨record, stage, log⟩ := h
  obtain ⟨old, hold, rfl⟩ := commits_failControl hcommit
  obtain rfl : record = some old := hold
  obtain rfl : stage = _ := hs
  obtain ⟨input', frame, hcontrol, ⟨hsaved, hbegins⟩, hinput, hopen, -⟩ := hi
  exact holds_of_record hcontrol (fun _ => hinput hopen) hsaved hbegins trivial

/-! ### Every step -/

/-- Each step keeps the invariant. -/
theorem holds_step (hi : I.Holds h) (hstep : construct.Step limits logical key h h') :
    I.Holds h' := by
  obtain ⟨record, stage, log⟩ := h
  cases hstep with
  -- a worker comes, or is gone
  | dropped => exact hi.leave (.inl rfl)
  | settled | undecided | unactivated | passed => exact hi.leave (.inr ⟨_, rfl⟩)
  | begun _ hplan hin hframe => exact hi.begun hplan hin hframe
  | activated hs hcommit => exact hi.activated hs hcommit
  | resumed hs hsome => exact hi.resumed hs hsome
  -- what the construct asks for at a point: one clause of the invariant for each
  | returned hs hnext =>
    obtain ⟨r, frame, rfl, hcontrol, hopen, rfl, hlive, hbegins⟩ := hi.at hs
    exact holds_append hcontrol (fun _ => rfl) hbegins (by simp) (I.returned hlive hnext)
      ⟨hopen, rfl⟩
  | checked hs hnext hplan =>
    obtain ⟨r, frame, rfl, hcontrol, hopen, rfl, hlive, hbegins⟩ := hi.at hs
    obtain ⟨rfl, rfl, -⟩ := planOpen_eq_ok.mp hplan
    exact holds_next hcontrol hopen hbegins (by simp) (I.checked hlive hnext)
  | barred hs hnext hplan =>
    obtain ⟨r, frame, rfl, hcontrol, hopen, rfl, hlive, hbegins⟩ := hi.at hs
    exact holds_append hcontrol (fun _ => rfl) hbegins (by simp) (I.barred hlive hnext hplan)
      ⟨hopen, rfl⟩
  | entered hs hnext =>
    obtain ⟨r, frame, rfl, hcontrol, hopen, rfl, hlive, hbegins⟩ := hi.at hs
    obtain ⟨hsaved, hlive⟩ := I.entered hlive hnext
    exact holds_append hcontrol (fun _ => rfl) hbegins (by simp) hsaved ⟨hopen, rfl, hlive⟩
  | left hs => exact hi.left hs _
  | @permitted _ _ _ granted hs hnext =>
    obtain ⟨r, frame, rfl, hcontrol, hopen, rfl, hlive, hbegins⟩ := hi.at hs
    exact holds_next hcontrol hopen hbegins (by simp) (I.permitted hlive hnext granted)
  | spawned hs hnext =>
    obtain ⟨r, frame, rfl, hcontrol, hopen, rfl, hlive, hbegins⟩ := hi.at hs
    exact holds_next hcontrol hopen hbegins (by simp) (I.spawned hlive hnext)
  | @joined _ _ _ _ index result cancelled hs hnext hmem =>
    obtain ⟨r, frame, rfl, hcontrol, hopen, rfl, hlive, hbegins⟩ := hi.at hs
    exact holds_next hcontrol hopen hbegins (by simp)
      (I.joined hlive hnext index hmem result cancelled)
  | @surveyed _ _ _ unresolved cancelled hs hnext =>
    obtain ⟨r, frame, rfl, hcontrol, hopen, rfl, hlive, hbegins⟩ := hi.at hs
    exact holds_next hcontrol hopen hbegins (by simp) (I.surveyed hlive hnext unresolved cancelled)
  -- a saved frame replaces the one before, alone or with the whole run
  | saved hs hnext hcommit =>
    obtain ⟨r, frame, rfl, -, hopen, rfl, hlive, hbegins⟩ := hi.at hs
    obtain ⟨old, hold, rfl⟩ := commits_updateFrame hcommit
    obtain rfl := Option.some.inj hold
    have hlive := I.save hlive hnext
    exact holds_append rfl (fun _ => rfl) hbegins (by simp) (I.live_saved hlive)
      ⟨hopen, rfl, hlive⟩
  | stopped hs hnext hbefore hupdate =>
    obtain ⟨r, frame, rfl, -, hopen, rfl, hlive, hbegins⟩ := hi.at hs
    obtain ⟨old, hold, hafter⟩ := stopped_record hupdate
    obtain rfl := Option.some.inj (hbefore.symm.trans hold)
    have hlive := I.stopped hlive hnext hupdate
    rw [hafter]
    exact holds_append rfl (fun _ => rfl) hbegins (by simp) (I.live_saved hlive)
      ⟨hopen, rfl, hlive⟩
  | unsaved hs hnext =>
    obtain ⟨r, frame, rfl, hcontrol, hopen, rfl, hlive, hbegins⟩ := hi.at hs
    exact holds_append hcontrol (fun _ => rfl) hbegins (by simp) (I.refused hlive hnext _)
      ⟨hopen, rfl⟩
  -- the result is recorded, or another one in its place
  | completed _ _ hcommit => exact hi.completed hcommit
  | oversized hs => exact hi.recording hs
  | incomplete hs => exact hi.recording hs
  | erred hs hcommit => exact hi.erred hs hcommit

/-- The invariant holds in every history. -/
theorem reaches (hr : construct.Reaches limits logical key h) : I.Holds h := by
  induction hr with
  | refl => exact ⟨rfl, trivial⟩
  | tail _ hstep ih => exact holds_step ih hstep

end Invariant

end Construct

end WorkflowForge.Engine
