import WorkflowForge.Engine.Construct

/-!
# Groups

A parallel or foreach node runs several children, a bounded number of them at a time. The
worker admits children in order, saves how many before the last one begins, and collects
results as they come. A group that cannot go on saves a stop marker with its reason, and
admits no further child.

The worker cancels the scope of its children when it stops; what they then return is open, as
every result is.

## Main results

- `groupConstruct`: the executor of a group over its children.
- `saved_progress`: what a step of the progress changes.
- `groupNext_asks`: at which point a group asks for what.
-/

namespace WorkflowForge.Engine

open Lib

/-! ## Children -/

/-- Where the children of a group come from. -/
inductive GroupSource where
  | parallel (branches : List (String × PreparedBody)) (input : Value)
  | foreach (items : List Value) (context : Value) (body : PreparedBody)

namespace GroupSource

def length : GroupSource → Nat
  | .parallel branches _ => branches.length
  | .foreach items _ _ => items.length

/-- How a child is entered, with its body and its input. -/
def child : GroupSource → Nat → Option (ScopeStep × PreparedBody × Value)
  | .parallel branches input, index =>
    branches[index]?.map fun (label, body) => (.branches label, body, input)
  | .foreach items context body, index =>
    items[index]?.map fun item => (.items index, body,
      .object [("context", context), ("index", .number (.posInt index)), ("item", item)])

def label : GroupSource → Nat → String
  | .parallel branches _, index => (branches[index]?.map Prod.fst).getD ""
  | .foreach .., index => index.repr

/-- The data of a child that returned. -/
def succeeded (source : GroupSource) (index : Nat) (output : Value) : Value :=
  match source with
  | .parallel .. => .object [("output", output), ("status", .string "succeeded")]
  | .foreach .. => .object [("index", .number (.posInt index)), ("output", output),
      ("status", .string "succeeded")]

/-- The data of a child that failed. -/
def failed (source : GroupSource) (index : Nat) (error : ForgeError) : Value :=
  match source with
  | .parallel .. => .object [("error", errorValue error), ("status", .string "failed")]
  | .foreach .. => .object [("error", errorValue error), ("index", .number (.posInt index)),
      ("status", .string "failed")]

/-- The value of the node over the data of all children. -/
def value (source : GroupSource) (values : List Value) : Value :=
  match source with
  | .parallel branches _ => .object ((branches.map Prod.fst).zip values)
  | .foreach .. => .array values

theorem child_isSome {source : GroupSource} {index : Nat} (h : index < source.length) :
    ∃ c, source.child index = some c := by
  cases source with
  | parallel branches input =>
    have hi : index < branches.length := h
    simp [child, List.getElem?_eq_getElem hi]
  | «foreach» items context body =>
    have hi : index < items.length := h
    simp [child, List.getElem?_eq_getElem hi]

end GroupSource

/-! ## The worker -/

def slotsExhausted : ForgeError :=
  .new "resource.limit" "Concurrent child scope budget is exhausted"

def resultOversized : ForgeError :=
  .new "resource.limit" "Group result exceeds its JSON budget"

def groupCancelled : ForgeError :=
  .new "operation.cancelled" "Group was cancelled"

def childUnsettled : ForgeError :=
  .new "state.conflict" "Group has an unsettled activated child"

def itemsInvalid : ForgeError :=
  .new "data.invalid" "Foreach items must be an array"

def itemsExceeded : ForgeError :=
  .new "resource.limit" "Foreach item budget exceeded"

/-- The variables of the executor. -/
structure GroupState where
  source : GroupSource
  frame : ControlFrame
  total : Nat
  next : Nat := 0
  active : List Nat := []
  results : List (Option Value)
  failed : Option StepError
  halted : Bool := false
  suspended : Bool := false
  bytes : Nat := 2

/-- What the worker goes on with once its progress is saved. -/
inductive Resumption where
  | start (index : Nat) (window : List Nat)
  | exhausted
  | failed (index : Nat) (error : ForgeError)
  | oversized

inductive GroupPoint where
  /-- The children that are still to be admitted in this round. -/
  | admitting (s : GroupState) (window : List Nat)
  | saving (s : GroupState) (resumption : Resumption)
  | starting (s : GroupState) (index : Nat) (window : List Nat)
  | ended (result : Except StepError Value)

/-- The variables at the start, from a saved frame. -/
def GroupState.resume (source : GroupSource) (frame : ControlFrame) (admitted : Nat)
    (stopped : Bool) (error : Option ForgeError) : GroupState where
  source := source
  frame := frame
  total := if stopped then min admitted source.length else source.length
  results := List.replicate (if stopped then min admitted source.length else source.length) none
  failed := error.map .execution

section

variable (concurrency : Nat) (errors : GroupErrors) (limits : Limits)

/-- The next round of admissions. -/
def GroupState.round (s : GroupState) : GroupPoint :=
  .admitting s (readyRange s.next s.total s.active.length concurrency s.halted)

/-- Saves the stop of the group for a reason, and goes on. -/
def GroupState.stop (s : GroupState) (reason : ForgeError) (resumption : Resumption) :
    GroupPoint :=
  .saving { s with frame := progress s.frame s.next (some reason) } resumption

/-- Charges the data of a child, and keeps it within the budget. -/
def GroupState.settle (s : GroupState) (index : Nat) (value : Value) : GroupPoint :=
  let bytes := s.bytes + value.bytes + (s.source.label index).utf8ByteSize + 4
  if limits.valueBytes < bytes then
    { s with bytes := bytes }.stop resultOversized .oversized
  else
    { s with
      bytes := bytes
      results := s.results.set index (some value) }.round concurrency

/-- A child has returned. -/
def GroupState.join (s : GroupState) (index : Nat) (result : Except StepError Value)
    (cancelled : Bool) : GroupPoint :=
  let s := { s with active := s.active.erase index }
  match result with
  | .error .suspended => { s with suspended := true }.round concurrency
  | .ok output => s.settle concurrency limits index (s.source.succeeded index output)
  | .error (.infrastructure error) => .ended (.error (.infrastructure error))
  | .error (.execution error) =>
    if error.code = "effect.unknown" then
      -- other children may settle; a fail-fast group admits none until it is resolved
      { s with
        halted := s.halted || errors = GroupErrors.failFast
        failed := some (.execution unknownError) }.settle concurrency limits index
        (s.source.failed index error)
    else if errors = .failFast ∨ cancelled then s.stop error (.failed index error)
    else s.settle concurrency limits index (s.source.failed index error)

/-- Goes on with saved progress. -/
def GroupState.proceed (s : GroupState) : Resumption → GroupPoint
  | .start index window => .starting s index window
  | .exhausted =>
    .admitting { s with failed := some (.execution slotsExhausted), halted := true } []
  | .failed index error =>
    { s with failed := s.failed <|> some (StepError.execution error), halted := true }.settle
      concurrency limits index (s.source.failed index error)
  | .oversized =>
    { s with
      failed := s.failed <|> some (StepError.execution resultOversized)
      halted := true }.round concurrency

/-- The result of the group, with the last look at the run. -/
def GroupState.conclude (s : GroupState) (unresolved cancelled : Bool) :
    Except StepError Value :=
  if unresolved then .error (.execution unknownError)
  else
    match s.failed with
    | some failure => .error failure
    | none =>
      if cancelled then .error (.execution groupCancelled)
      else if s.suspended then .error .suspended
      else
        match s.results.mapM id with
        | some values => .ok (s.source.value values)
        | none => .error (.infrastructure childUnsettled)

/-- Losing the progress of a group fails the runtime, whatever refused it. -/
def saveProgress (frame : ControlFrame) (next : GroupPoint) : Ask GroupPoint :=
  if (saved frame).any (·.2.1) then .stop frame next
  else .save frame .infrastructure next

/-- A child takes its slot and is counted before it begins. -/
def GroupState.admitNext (s : GroupState) (index : Nat) (window : List Nat) (granted : Bool) :
    GroupPoint :=
  if granted then
    .saving { s with
      next := index + 1
      frame := progress s.frame (index + 1) none } (.start index window)
  else s.stop slotsExhausted .exhausted

/-- `groups::execute`. -/
def groupNext : GroupPoint → Ask GroupPoint
  | .admitting s (index :: window) => .permit (s.admitNext index window)
  | .admitting s [] =>
    if s.active = [] then
      .survey fun unresolved cancelled => .ended (s.conclude unresolved cancelled)
    else .join s.active (s.join concurrency errors limits)
  | .saving s resumption => saveProgress s.frame (s.proceed concurrency limits resumption)
  | .starting s index window =>
    match s.source.child index with
    | some (step, body, input) =>
      .spawn index step body input (.admitting { s with active := index :: s.active } window)
    | none => .finish (.error (.infrastructure taskLost))
  | .ended result => .finish result

/-- A group over a source and the first frame that its node's input gives. -/
def groupConstruct (initial : Value → Except ForgeError ControlFrame)
    (source : Value → ControlFrame → Except StepError GroupSource) : Construct GroupPoint where
  initial := initial
  start input frame := do
    let source ← source input frame
    match saved frame with
    | some (admitted, stopped, error) =>
      .ok ((GroupState.resume source frame admitted stopped error).round concurrency)
    | none => .error (.infrastructure planMismatch)
  next _ := groupNext concurrency errors limits

/-- `run_control` of a parallel node. -/
def parallelConstruct (branches : List (String × PreparedBody)) : Construct GroupPoint :=
  groupConstruct concurrency errors limits
    (fun _ => .ok (.parallel (branches.map Prod.fst) 0 false none))
    fun input frame =>
      match frame with
      | .parallel .. => .ok (.parallel branches input)
      | _ => .error (.infrastructure planMismatch)

/-- The items of a foreach node. -/
def foreachItems (items : Binding) (input : Value) : Except ForgeError (List Value) := do
  let value ← items.evaluate input ∅ limits
  okOr value.asArray itemsInvalid

/-- `run_control` of a foreach node. -/
def foreachConstruct (items : Binding) (body : PreparedBody) : Construct GroupPoint :=
  groupConstruct concurrency errors limits
    (fun input => do
      let values ← foreachItems limits items input
      ensure (values.length ≤ limits.foreachItems) itemsExceeded
      return .foreach values.length 0 false none)
    fun input frame =>
      match frame with
      | .foreach .. => (foreachItems limits items input).mapError .execution |>.map
          fun values => .foreach values input body
      | _ => .error (.infrastructure planMismatch)

end

/-- The executor of a group instruction. -/
def groupOf (limits : Limits) : PreparedInstruction → Option (Construct GroupPoint)
  | .parallel branches concurrency errors =>
    some (parallelConstruct concurrency errors limits branches)
  | .foreach items body concurrency errors =>
    some (foreachConstruct concurrency errors limits items body)
  | _ => none

/-- The children that the input of the node gives. -/
def groupSource (limits : Limits) (input : Value) :
    PreparedInstruction → Except ForgeError GroupSource
  | .parallel branches _ _ => .ok (.parallel branches input)
  | .foreach items body _ _ =>
    (foreachItems limits items input).map fun values => .foreach values input body
  | _ => .error planMismatch

/-- How many children run at a time, and what a failed one does to the others. -/
def groupMode : PreparedInstruction → Option (Nat × GroupErrors)
  | .parallel _ concurrency errors => some (concurrency, errors)
  | .foreach _ _ concurrency errors => some (concurrency, errors)
  | _ => none

/-! ## Saved progress -/

/-- The reason of a marker is kept, and the cursor never moves back. -/
theorem saved_progress {frame : ControlFrame} {n : Nat} {error : Option ForgeError}
    (h : saved frame = some (n, error.isSome, error)) (next : Nat) (stop : Option ForgeError) :
    saved (progress frame next stop) =
      some (max n next, (error <|> stop).isSome, error <|> stop) := by
  cases frame with
  | parallel branches cursor stopped e =>
    obtain ⟨rfl, rfl, rfl⟩ : cursor = n ∧ stopped = error.isSome ∧ e = error := by
      simpa [saved] using h
    cases e <;> simp [progress, saved]
  | «foreach» total cursor stopped e =>
    obtain ⟨rfl, rfl, rfl⟩ : cursor = n ∧ stopped = error.isSome ∧ e = error := by
      simpa [saved] using h
    cases e <;> simp [progress, saved]
  | _ => nomatch h

/-! ## What a group asks for -/

/-- The request of a group at each of its points. -/
inductive GroupAsks (concurrency : Nat) (errors : GroupErrors) (limits : Limits) :
    GroupPoint → Ask GroupPoint → Prop where
  | permit {s : GroupState} {index : Nat} {window : List Nat} :
      GroupAsks concurrency errors limits (.admitting s (index :: window))
        (.permit (s.admitNext index window))
  | survey {s : GroupState} : s.active = [] →
      GroupAsks concurrency errors limits (.admitting s [])
        (.survey fun unresolved cancelled => .ended (s.conclude unresolved cancelled))
  | join {s : GroupState} : s.active ≠ [] →
      GroupAsks concurrency errors limits (.admitting s [])
        (.join s.active (s.join concurrency errors limits))
  | save {s : GroupState} {resumption : Resumption} : (saved s.frame).any (·.2.1) = false →
      GroupAsks concurrency errors limits (.saving s resumption)
        (.save s.frame .infrastructure (s.proceed concurrency limits resumption))
  | stop {s : GroupState} {resumption : Resumption} : (saved s.frame).any (·.2.1) = true →
      GroupAsks concurrency errors limits (.saving s resumption)
        (.stop s.frame (s.proceed concurrency limits resumption))
  | spawn {s : GroupState} {index : Nat} {window : List Nat} {step : ScopeStep}
      {body : PreparedBody} {input : Value} : s.source.child index = some (step, body, input) →
      GroupAsks concurrency errors limits (.starting s index window)
        (.spawn index step body input (.admitting { s with active := index :: s.active } window))
  | lost {s : GroupState} {index : Nat} {window : List Nat} : s.source.child index = none →
      GroupAsks concurrency errors limits (.starting s index window)
        (.finish (.error (.infrastructure taskLost)))
  | finish {result : Except StepError Value} :
      GroupAsks concurrency errors limits (.ended result) (.finish result)

theorem groupNext_asks {concurrency : Nat} {errors : GroupErrors} {limits : Limits}
    {point : GroupPoint} {ask : Ask GroupPoint}
    (h : groupNext concurrency errors limits point = ask) :
    GroupAsks concurrency errors limits point ask := by
  subst h
  cases point with
  -- admission, until the window is empty and no child is active
  | admitting s window =>
    cases window with
    | cons => exact .permit
    | nil =>
      simp only [groupNext]
      split
      next hactive => exact .survey hactive
      next hactive => exact .join hactive
  | saving s resumption =>
    simp only [groupNext, saveProgress]
    split
    next hstopped => exact .stop hstopped
    next hopen => exact .save (by simpa using hopen)
  | starting s index window =>
    simp only [groupNext]
    split
    next hchild => exact .spawn hchild
    next hchild => exact .lost hchild
  | ended => exact .finish

end WorkflowForge.Engine
