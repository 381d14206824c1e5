import WorkflowForge.Engine.Construct
import WorkflowForge.Engine.Producers

/-!
# Error Handlers

A try node runs a protected body. Where the body fails with an error that a workflow may
recover from, the handler for the code of the error is selected, and the selection is saved
before the handler runs; a later worker goes on with the saved one.

## Main results

- `instruction_handlers`: the compiler gives the handlers distinct names and codes.
- `try_handles`: in every history, what is selected, saved, entered and returned.
-/

namespace WorkflowForge.Engine

open Lib

/-! ## Errors that a workflow may handle -/

/-- The certainty and the class of an operation's error leave the workflow nothing to handle. -/
def OperationError.bypasses (e : OperationError) : Bool :=
  e.certainty ≠ .notApplied ∨
    e.class_ = .cancelled ∨ e.class_ = .internal ∨ e.class_ = .resource

def Diagnostic.bypasses (d : Diagnostic) : Bool :=
  d.code = "effect.unknown" ∨ d.code = "operation.cancelled" ∨ d.code = "resource.limit" ∨
    d.code = "access.denied" ∨ d.operationError.any OperationError.bypasses

/-- Uncertain effects and host or resource boundaries cannot become workflow success. -/
def catchable (error : ForgeError) : Bool :=
  !error.diagnostics.any Diagnostic.bypasses

/-- The operation's code of the first diagnostic, or the engine's code. -/
def handlerCode (error : ForgeError) : String :=
  match error.diagnostics.head?.bind Diagnostic.operationError with
  | some e => e.code
  | none => error.code

/-! ## The construct -/

def handlerIncomplete : ForgeError :=
  .new "state.conflict" "Saved error handler is incomplete"

def handlerUnavailable : ForgeError :=
  .new "state.conflict" "Saved error handler is unavailable"

/-- The handlers of a protected body, by name and code, and the one for other codes. -/
structure Handlers where
  catches : List (String × String × PreparedBody)
  fallback : String × PreparedBody
  ids : (fallback.1 :: catches.map Prod.fst).Nodup
  codes : (catches.map (·.2.1)).Nodup

namespace Handlers

variable (handlers : Handlers)

/-- The handler for a code. -/
def select (code : String) : String :=
  match handlers.catches.find? (·.2.1 = code) with
  | some (id, _, _) => id
  | none => handlers.fallback.1

/-- The body of a saved handler. -/
def body (selected : String) : Option PreparedBody :=
  match handlers.catches.find? (·.1 = selected) with
  | some (_, _, body) => some body
  | none => if handlers.fallback.1 = selected then some handlers.fallback.2 else none

/-- The handler for an error, with its body. -/
def For (error : ForgeError) (id : String) (body : PreparedBody) : Prop :=
  (id, handlerCode error, body) ∈ handlers.catches ∨
    (∀ handler ∈ handlers.catches, handler.2.1 ≠ handlerCode error) ∧
      handlers.fallback = (id, body)

end Handlers

def handlerInput (input : Value) (error : ForgeError) : Value :=
  .object [("error", errorValue error), ("input", input)]

def successOutcome (output : Value) : Value :=
  .object [("outcome", .string "success"), ("output", output)]

def handledOutcome (handler : String) (output : Value) : Value :=
  .object [("handler", .string handler), ("outcome", .string "handled"), ("output", output)]

inductive TryPoint where
  | protecting
  | judging (result : Except StepError Value)
  /-- The scope is live. -/
  | selecting (error : ForgeError)
  | handling (selected : String) (error : ForgeError)
  | handled (selected : String) (result : Except StepError Value)

/-- `run_control` of a try node. -/
def tryConstruct (guarded : PreparedBody) (handlers : Handlers) : Construct TryPoint where
  initial _ := .ok (.try none none)
  start _ frame :=
    match frame with
    | .try (some handler) (some error) => .ok (.handling handler error)
    | .try none none => .ok .protecting
    | .try _ _ => .error (.infrastructure handlerIncomplete)
    | _ => .error (.infrastructure planMismatch)
  next input point :=
    match point with
    | .protecting => .enter .try guarded input .judging
    | .judging (.ok output) => .finish (.ok (successOutcome output))
    | .judging (.error (.execution error)) =>
      -- cancellation and the deadline of the run outrank the workflow's recovery
      if catchable error then .check (.selecting error)
      else .finish (.error (.execution error))
    | .judging (.error e) => .finish (.error e)
    | .selecting error =>
      let selected := handlers.select (handlerCode error)
      .save (.try (some selected) (some error)) transitionError (.handling selected error)
    | .handling selected error =>
      match handlers.body selected with
      | none => .finish (.error (.infrastructure handlerUnavailable))
      | some body => .enter (.catch selected) body (handlerInput input error) (.handled selected)
    | .handled selected (.ok output) => .finish (.ok (handledOutcome selected output))
    | .handled _ (.error e) => .finish (.error e)

/-! ## The handler for an error -/

/-- No diagnostic of the error is an unknown effect, a cancellation, a limit or a denial, or
carries an operation's error that leaves nothing to handle. -/
def Recoverable (error : ForgeError) : Prop :=
  ∀ d ∈ error.diagnostics, d.code ≠ "effect.unknown" ∧ d.code ≠ "operation.cancelled" ∧
    d.code ≠ "resource.limit" ∧ d.code ≠ "access.denied" ∧
    ∀ e, d.operationError = some e → e.certainty = .notApplied ∧
      e.class_ ≠ .cancelled ∧ e.class_ ≠ .internal ∧ e.class_ ≠ .resource

theorem bypasses_eq_false {d : Diagnostic} :
    Diagnostic.bypasses d = false ↔ d.code ≠ "effect.unknown" ∧ d.code ≠ "operation.cancelled" ∧
      d.code ≠ "resource.limit" ∧ d.code ≠ "access.denied" ∧
      ∀ e, d.operationError = some e → e.certainty = .notApplied ∧
        e.class_ ≠ .cancelled ∧ e.class_ ≠ .internal ∧ e.class_ ≠ .resource := by
  cases ho : d.operationError with
  | none => simp [Diagnostic.bypasses, ho]
  | some e => simp [Diagnostic.bypasses, OperationError.bypasses, ho]

theorem catchable_iff {error : ForgeError} : catchable error = true ↔ Recoverable error := by
  simp only [catchable, Bool.not_eq_true', List.any_eq_false, Bool.not_eq_true, Recoverable,
    bypasses_eq_false]

namespace Handlers

variable {handlers : Handlers}

/-- A name determines its handler. -/
theorem body_of_mem {id code : String} {b : PreparedBody}
    (hmem : (id, code, b) ∈ handlers.catches) : handlers.body id = some b := by
  unfold body
  split
  next id' code' b' hfind =>
    obtain rfl : id' = id := by simpa using List.find?_some hfind
    have hids := (List.nodup_cons.mp handlers.ids).2
    obtain ⟨-, -, rfl⟩ := List.inj_on_of_nodup_map hids hmem (List.mem_of_find?_eq_some hfind) rfl
    rfl
  next hnone =>
    have hne := List.find?_eq_none.mp hnone _ hmem
    simp at hne

theorem body_fallback : handlers.body handlers.fallback.1 = some handlers.fallback.2 := by
  unfold body
  split
  next id code b hfind =>
    have hid : id = handlers.fallback.1 := by simpa using List.find?_some hfind
    refine absurd ?_ (List.nodup_cons.mp handlers.ids).1
    exact List.mem_map.mpr ⟨_, List.mem_of_find?_eq_some hfind, hid⟩
  · simp

/-- The selected handler has a body, and is the one for the error. -/
theorem select_for (error : ForgeError) :
    ∃ b, handlers.body (handlers.select (handlerCode error)) = some b ∧
      handlers.For error (handlers.select (handlerCode error)) b := by
  unfold select
  split
  next id code b hfind =>
    obtain rfl : code = handlerCode error := by simpa using List.find?_some hfind
    have hmem := List.mem_of_find?_eq_some hfind
    exact ⟨b, body_of_mem hmem, .inl hmem⟩
  next hnone =>
    refine ⟨_, body_fallback, .inr ⟨fun handler hmem => ?_, rfl⟩⟩
    simpa using List.find?_eq_none.mp hnone handler hmem

/-- An error has one handler. -/
theorem For.unique {error : ForgeError} {id id' : String} {b b' : PreparedBody}
    (h : handlers.For error id b) (h' : handlers.For error id' b') : id = id' ∧ b = b' := by
  rcases h with hmem | ⟨hnone, h⟩ <;> rcases h' with hmem' | ⟨hnone', h'⟩
  · simpa using List.inj_on_of_nodup_map handlers.codes hmem hmem' rfl
  · exact absurd rfl (hnone' _ hmem)
  · exact absurd rfl (hnone _ hmem')
  · simpa using h.symm.trans h'

end Handlers

/-- The compiler accepts a name and a code once. -/
theorem catches_distinct {deeper : Compiler.Stage} {alternatives : List ErrorCase}
    {ids codes : List String} {r : List (String × String × PreparedBody)} {s s' : Compiler}
    (h : Compiler.catches deeper ids codes alternatives s = (.ok r, s')) :
    ((r.map Prod.fst).Nodup ∧ ∀ id ∈ r.map Prod.fst, id ∉ ids) ∧
      (r.map (·.2.1)).Nodup ∧ ∀ code ∈ r.map (·.2.1), code ∉ codes := by
  induction alternatives generalizing ids codes s r with
  | nil =>
    obtain ⟨rfl, -⟩ := Stateful.pure_eq_ok.mp h
    simp
  | cons alternative alternatives ih =>
    obtain ⟨id, code, b⟩ := alternative
    obtain ⟨_, s₁, hensure, h⟩ := Stateful.bind_eq_ok.mp h
    obtain ⟨compiled, s₂, -, h⟩ := Stateful.bind_eq_ok.mp h
    obtain ⟨rest, s₃, h₃, h⟩ := Stateful.bind_eq_ok.mp h
    obtain ⟨rfl, rfl⟩ := Stateful.pure_eq_ok.mp h
    obtain ⟨⟨hids, hfresh⟩, hcodes, hfresh'⟩ := ih h₃
    -- a handler is checked against the identities and codes before it
    have hnew : id ∉ ids ∧ code ∉ codes := by
      have hchecks := ensure_eq_ok.mp (Stateful.lift_eq_ok.mp hensure).1
      simp only [Bool.and_eq_true, Bool.not_eq_true', List.contains_eq_mem,
        decide_eq_false_iff_not] at hchecks
      exact ⟨hchecks.1.2, hchecks.2⟩
    refine ⟨⟨?_, ?_⟩, ?_, ?_⟩
    · exact List.nodup_cons.mpr ⟨fun hmem => hfresh id hmem List.mem_cons_self, hids⟩
    · intro id' hmem
      rcases List.mem_cons.mp hmem with rfl | hmem
      · exact hnew.1
      · exact fun hid => hfresh id' hmem (List.mem_cons_of_mem _ hid)
    · exact List.nodup_cons.mpr ⟨fun hmem => hfresh' code hmem List.mem_cons_self, hcodes⟩
    · intro code' hmem
      rcases List.mem_cons.mp hmem with rfl | hmem
      · exact hnew.2
      · exact fun hcode => hfresh' code' hmem (List.mem_cons_of_mem _ hcode)

/-- A try node is compiled to a guarded body with handlers. -/
theorem instruction_handlers {c : Catalog} {deeper : Compiler.Stage} {id : String}
    {input : Binding} {b : BodyDefinition} {alternatives : List ErrorCase}
    {fallback : FallbackCase} {i : PreparedInstruction} {s s' : Compiler}
    (h : Compiler.instruction c deeper ⟨id, input, .try b alternatives fallback⟩ s
      = (.ok i, s')) :
    ∃ guarded, ∃ handlers : Handlers, i = .try guarded handlers.catches handlers.fallback := by
  obtain ⟨_, s₁, -, h⟩ := Stateful.bind_eq_ok.mp h
  obtain ⟨guarded, s₂, -, h⟩ := Stateful.bind_eq_ok.mp h
  obtain ⟨catches, s₃, hcatches, h⟩ := Stateful.bind_eq_ok.mp h
  obtain ⟨handler, s₄, -, h⟩ := Stateful.bind_eq_ok.mp h
  obtain ⟨rfl, -⟩ := Stateful.pure_eq_ok.mp h
  obtain ⟨⟨hids, hfresh⟩, hcodes, -⟩ := catches_distinct hcatches
  refine ⟨guarded, ⟨catches, (fallback.id, handler), ?_, hcodes⟩, rfl⟩
  exact List.nodup_cons.mpr ⟨fun hmem => hfresh _ hmem (List.mem_singleton_self _), hids⟩

/-! ## What a history handles -/

/-- What only happens once a handler is selected. -/
inductive OfHandler : Occurrence → Prop where
  | entered (id : String) (body : PreparedBody) (input : Value) :
      OfHandler (.entered (.catch id) body input)
  | left (id : String) (result : Except StepError Value) : OfHandler (.left (.catch id) result)
  | saved (frame : ControlFrame) : OfHandler (.saved frame)

/-- How a try node returns: the outcome of its protected body, or of the handler it selected,
or the end of its scope. -/
inductive TryReturns (selection : Option (String × ForgeError)) (log : List Occurrence) :
    Except StepError Value → Prop where
  | success {output : Value} : .left .try (.ok output) ∈ log →
      TryReturns selection log (.ok (successOutcome output))
  | bypassed {e : StepError} : .left .try (.error e) ∈ log →
      (∀ error, e = .execution error → ¬ Recoverable error) → TryReturns selection log (.error e)
  | handled {id : String} {error : ForgeError} {output : Value} : selection = some (id, error) →
      .left (.catch id) (.ok output) ∈ log →
      TryReturns selection log (.ok (handledOutcome id output))
  | failed {id : String} {error : ForgeError} {e : StepError} : selection = some (id, error) →
      .left (.catch id) (.error e) ∈ log → TryReturns selection log (.error e)
  | cancelled : TryReturns selection log (.error (.execution scopeCancelled))
  | expired : TryReturns selection log (.error (.execution deadlineReached))

/-- What the history of a try node with an input says, with the handler and the error it
selected, if it has. -/
structure Handles (guarded : PreparedBody) (handlers : Handlers) (input : Value)
    (selection : Option (String × ForgeError)) (log : List Occurrence) : Prop where
  /-- A handler is entered with the body and the input that the selection gives, each time. -/
  entered : ∀ step b v, .entered step b v ∈ log →
    (step = .try ∧ b = guarded ∧ v = input) ∨
      ∃ id error, selection = some (id, error) ∧ step = .catch id ∧
        handlers.For error id b ∧ v = handlerInput input error
  unselected : selection = none → ∀ e ∈ log, ¬ OfHandler e
  selected : ∀ id error, selection = some (id, error) →
    .saved (.try (some id) (some error)) ∈ log
  /-- The selection is saved once, for an error of the protected body, in a live scope, and
  before anything of a handler; the protected body is not entered afterwards. -/
  saved : ∀ pre frame post, log = pre ++ .saved frame :: post → ∃ id error before b,
    selection = some (id, error) ∧ frame = .try (some id) (some error) ∧
    pre = before ++ [.left .try (.error (.execution error)), .checked false false] ∧
    Recoverable error ∧ handlers.For error id b ∧ (∀ e ∈ pre, ¬ OfHandler e) ∧
    ∀ b v, .entered .try b v ∉ post
  returned : ∀ result, .returned result ∈ log → TryReturns selection log result

section

variable {guarded : PreparedBody} {handlers : Handlers} {limits : Limits}

theorem TryReturns.mono {selection : Option (String × ForgeError)} {log : List Occurrence}
    {result : Except StepError Value} (e : Occurrence) (h : TryReturns selection log result) :
    TryReturns selection (log ++ [e]) result := by
  cases h with
  | success hmem => exact .success (List.mem_append_left _ hmem)
  | bypassed hmem hnot => exact .bypassed (List.mem_append_left _ hmem) hnot
  | handled hs hmem => exact .handled hs (List.mem_append_left _ hmem)
  | failed hs hmem => exact .failed hs (List.mem_append_left _ hmem)
  | cancelled => exact .cancelled
  | expired => exact .expired

/-- What returned before a handler is selected is not of a handler. -/
theorem TryReturns.select {log : List Occurrence} {result : Except StepError Value}
    {selection : Option (String × ForgeError)} (h : TryReturns none log result) :
    TryReturns selection log result := by
  cases h with
  | success hmem => exact .success hmem
  | bypassed hmem hnot => exact .bypassed hmem hnot
  | handled hs => nomatch hs
  | failed hs => nomatch hs
  | cancelled => exact .cancelled
  | expired => exact .expired

namespace Handles

variable {input : Value} {selection : Option (String × ForgeError)} {log : List Occurrence}

theorem nil (input : Value) : Handles guarded handlers input none [] where
  entered _ _ _ h := by simp at h
  unselected _ _ h := by simp at h
  selected _ _ h := nomatch h
  saved _ _ _ h := by simp at h
  returned _ h := by simp at h

/-- An occurrence that saves nothing. -/
theorem append {e : Occurrence} (h : Handles guarded handlers input selection log)
    (hentered : ∀ step b v, e = .entered step b v →
      (selection = none ∧ step = .try ∧ b = guarded ∧ v = input) ∨
        ∃ id error, selection = some (id, error) ∧ step = .catch id ∧
          handlers.For error id b ∧ v = handlerInput input error)
    (hhandler : OfHandler e → selection ≠ none) (hsaved : ∀ frame, e ≠ .saved frame)
    (hreturned : ∀ result, e = .returned result → TryReturns selection log result) :
    Handles guarded handlers input selection (log ++ [e]) where
  entered step b v hmem := by
    rcases List.mem_append.mp hmem with hmem | hmem
    · exact h.entered step b v hmem
    · rcases hentered step b v (List.mem_singleton.mp hmem).symm with ⟨-, hstep⟩ | hstep
      · exact .inl hstep
      · exact .inr hstep
  unselected hnone e' hmem := by
    rcases List.mem_append.mp hmem with hmem | hmem
    · exact h.unselected hnone e' hmem
    · rw [List.mem_singleton.mp hmem]
      exact fun hof => hhandler hof hnone
  selected id error hs := List.mem_append_left _ (h.selected id error hs)
  saved pre frame post hlog := by
    obtain ⟨-, he, -⟩ | ⟨post', rfl, hpre⟩ := snoc_eq_append_cons hlog
    · exact absurd he (hsaved frame)
    obtain ⟨id, error, before, b, hs, hframe, hbefore, hrec, hfor, hnone, hpost⟩ :=
      h.saved pre frame post' hpre
    refine ⟨id, error, before, b, hs, hframe, hbefore, hrec, hfor, hnone, fun b v hmem => ?_⟩
    rcases List.mem_append.mp hmem with hmem | hmem
    · exact hpost b v hmem
    -- the protected body is entered only while nothing is selected
    rcases hentered _ b v (List.mem_singleton.mp hmem).symm with ⟨hnone, -⟩ | ⟨_, _, -, hstep, -⟩
    · exact nomatch hs.symm.trans hnone
    · nomatch hstep
  returned result hmem := by
    rcases List.mem_append.mp hmem with hmem | hmem
    · exact (h.returned result hmem).mono e
    · exact (hreturned result (List.mem_singleton.mp hmem).symm).mono e

/-- The selection of a handler is saved. -/
theorem save {error : ForgeError} {before : List Occurrence} {id : String} {b : PreparedBody}
    (h : Handles guarded handlers input none log)
    (hlog : log = before ++ [.left .try (.error (.execution error)), .checked false false])
    (hrec : Recoverable error) (hfor : handlers.For error id b) :
    Handles guarded handlers input (some (id, error))
      (log ++ [.saved (.try (some id) (some error))]) where
  entered step b v hmem := by
    rcases h.entered step b v (by simpa using hmem) with hstep | ⟨_, _, hs, -⟩
    · exact .inl hstep
    · nomatch hs
  unselected hnone := nomatch hnone
  selected id' error' hs := by
    obtain ⟨rfl, rfl⟩ := Prod.mk.inj (Option.some.inj hs)
    simp
  saved pre frame post hsplit := by
    -- the save is the new occurrence, as nothing was selected before
    obtain ⟨rfl, he, rfl⟩ | ⟨post', rfl, hpre⟩ := snoc_eq_append_cons hsplit
    · obtain rfl := Occurrence.saved.inj he
      exact ⟨id, error, before, b, rfl, rfl, hlog, hrec, hfor, h.unselected rfl, by simp⟩
    · obtain ⟨_, _, _, _, hs, -⟩ := h.saved pre frame post' hpre
      nomatch hs
  returned result hmem :=
    ((h.returned result (by simpa using hmem)).select).mono _

end Handles

/-! ## The invariant -/

/-- What a worker at a point of the node adds to its history. -/
def TryPoint.Fits (selection : Option (String × ForgeError)) (log : List Occurrence) :
    TryPoint → Prop
  | .protecting => selection = none
  | .judging result => selection = none ∧ ∃ before, log = before ++ [.left .try result]
  | .selecting error => selection = none ∧ Recoverable error ∧ ∃ before,
      log = before ++ [.left .try (.error (.execution error)), .checked false false]
  | .handling id error => selection = some (id, error)
  | .handled id result => (∃ error, selection = some (id, error)) ∧
      .left (.catch id) result ∈ log

/-- The frame that carries a selection. -/
def tryFrame (selection : Option (String × ForgeError)) : ControlFrame :=
  .try (selection.map Prod.fst) (selection.map Prod.snd)

theorem try_not_group {input : Value} {point : TryPoint} {ask : Ask TryPoint}
    (h : (tryConstruct guarded handlers).next input point = ask) : ask.forGroup = false := by
  subst h
  cases point with
  | protecting => rfl
  | judging result =>
    rcases result with (_ | e | _) | _
    · rfl
    · simp only [tryConstruct]
      split <;> rfl
    · rfl
    · rfl
  | selecting => rfl
  | handling id error =>
    simp only [tryConstruct]
    split <;> rfl
  | handled id result => cases result <;> rfl

/-- The handler that was saved has a body. -/
theorem Handles.body_for {input : Value} {id : String} {error : ForgeError}
    {log : List Occurrence} (h : Handles guarded handlers input (some (id, error)) log) :
    ∃ b, handlers.body id = some b ∧ handlers.For error id b := by
  obtain ⟨pre, post, hlog⟩ := List.append_of_mem (h.selected id error rfl)
  obtain ⟨id', error', before, b, hs, -, -, -, hfor, -⟩ := h.saved pre _ post hlog
  obtain ⟨rfl, rfl⟩ := Prod.mk.inj (Option.some.inj hs)
  refine ⟨b, ?_, hfor⟩
  rcases hfor with hmem | ⟨-, hfallback⟩
  · exact Handlers.body_of_mem hmem
  · have := handlers.body_fallback
    rwa [hfallback] at this

variable (guarded handlers limits) in
/-- The frame carries the selection. -/
def tryInvariant (key : String) : (tryConstruct guarded handlers).Invariant limits key where
  saved input frame log := ∃ selection, frame = tryFrame selection ∧
    Handles guarded handlers input selection log
  live input frame point log := ∃ selection, frame = tryFrame selection ∧
    Handles guarded handlers input selection log ∧ point.Fits selection log
  live_saved := by
    rintro input frame point log ⟨selection, hframe, h, -⟩
    exact ⟨selection, hframe, h⟩
  initial := by
    intro input frame h
    obtain rfl : tryFrame none = frame := by simpa [tryConstruct, tryFrame] using h
    exact ⟨none, rfl, .nil input⟩
  began := by
    rintro input frame log ⟨selection, hframe, h⟩
    exact ⟨selection, hframe, h.append (fun _ _ _ he => nomatch he) (fun hof => nomatch hof)
      (fun _ he => nomatch he) (fun _ he => nomatch he)⟩
  start := by
    rintro input frame point log ⟨selection, rfl, h⟩ hstart
    refine ⟨selection, rfl, h.append (fun _ _ _ he => nomatch he) (fun hof => nomatch hof)
      (fun _ he => nomatch he) (fun _ he => nomatch he), ?_⟩
    cases selection with
    | none =>
      obtain rfl : .protecting = point := by simpa [tryConstruct, tryFrame] using hstart
      exact rfl
    | some selected =>
      obtain rfl : .handling selected.1 selected.2 = point := by
        simpa [tryConstruct, tryFrame] using hstart
      exact rfl
  returned := by
    rintro input frame point log result ⟨selection, rfl, h, hpoint⟩ hnext
    refine ⟨selection, rfl, h.append (fun _ _ _ he => nomatch he) (fun hof => nomatch hof)
      (fun _ he => nomatch he) ?_⟩
    rintro _ ⟨⟩
    cases point with
    | protecting => nomatch hnext
    | judging r =>
      obtain ⟨rfl, before, rfl⟩ := hpoint
      have hmem : .left .try r ∈ before ++ [Occurrence.left .try r] := by simp
      rcases r with (_ | e | e) | output
      · obtain rfl := Ask.finish.inj hnext
        exact .bypassed hmem (fun _ he => nomatch he)
      · simp only [tryConstruct] at hnext
        split at hnext
        · nomatch hnext
        next hcatch =>
          obtain rfl := Ask.finish.inj hnext
          refine .bypassed hmem fun error he hrec => hcatch (catchable_iff.mpr ?_)
          obtain rfl := StepError.execution.inj he
          exact hrec
      · obtain rfl := Ask.finish.inj hnext
        exact .bypassed hmem (fun _ he => nomatch he)
      · obtain rfl := Ask.finish.inj hnext
        exact .success hmem
    | selecting => nomatch hnext
    | handling id error =>
      obtain rfl : selection = some (id, error) := hpoint
      obtain ⟨b, hb, -⟩ := h.body_for
      simp only [tryConstruct, hb] at hnext
      nomatch hnext
    | handled id r =>
      obtain ⟨⟨error, rfl⟩, hmem⟩ := hpoint
      cases r with
      | ok output =>
        obtain rfl := Ask.finish.inj hnext
        exact .handled rfl hmem
      | error e =>
        obtain rfl := Ask.finish.inj hnext
        exact .failed rfl hmem
  barred := by
    rintro input frame point next log cancelled expired e ⟨selection, rfl, h, -⟩ - hplan
    refine ⟨selection, rfl, h.append (fun _ _ _ he => nomatch he) (fun hof => nomatch hof)
      (fun _ he => nomatch he) ?_⟩
    rintro _ ⟨⟩
    rcases planOpen_eq_error hplan with rfl | rfl
    · exact .cancelled
    · exact .expired
  refused := by
    rintro input frame point f refused next log ⟨selection, rfl, h, -⟩ - e
    exact ⟨selection, rfl, h.append (fun _ _ _ he => nomatch he) (fun hof => nomatch hof)
      (fun _ he => nomatch he) (fun _ he => nomatch he)⟩
  checked := by
    rintro input frame point next log ⟨selection, rfl, h, hpoint⟩ hnext
    refine ⟨selection, rfl, h.append (fun _ _ _ he => nomatch he) (fun hof => nomatch hof)
      (fun _ he => nomatch he) (fun _ he => nomatch he), ?_⟩
    cases point with
    | protecting => nomatch hnext
    | judging r =>
      obtain ⟨rfl, before, rfl⟩ := hpoint
      rcases r with (_ | e | e) | output
      · nomatch hnext
      · simp only [tryConstruct] at hnext
        split at hnext
        next hcatch =>
          obtain rfl := Ask.check.inj hnext
          exact ⟨rfl, catchable_iff.mp hcatch, before, by simp⟩
        · nomatch hnext
      · nomatch hnext
      · nomatch hnext
    | selecting => nomatch hnext
    | handling id error =>
      simp only [tryConstruct] at hnext
      split at hnext <;> nomatch hnext
    | handled id r => cases r <;> nomatch hnext
  entered := by
    rintro input frame point step b childInput next log ⟨selection, rfl, h, hpoint⟩ hnext
    cases point with
    | protecting =>
      obtain rfl : selection = none := hpoint
      obtain ⟨rfl, rfl, rfl, rfl⟩ := Ask.enter.inj hnext
      have hentered :
          Handles guarded handlers input none (log ++ [.entered .try guarded input]) := by
        refine h.append ?_ (fun hof => nomatch hof) (fun _ he => nomatch he)
          (fun _ he => nomatch he)
        rintro _ _ _ ⟨⟩
        exact .inl ⟨rfl, rfl, rfl, rfl⟩
      refine ⟨⟨none, rfl, hentered⟩, fun result => ⟨none, rfl, ?_, rfl, _, rfl⟩⟩
      exact hentered.append (fun _ _ _ he => nomatch he) (fun hof => nomatch hof)
        (fun _ he => nomatch he) (fun _ he => nomatch he)
    | judging r =>
      rcases r with (_ | e | e) | output
      · nomatch hnext
      · simp only [tryConstruct] at hnext
        split at hnext <;> nomatch hnext
      · nomatch hnext
      · nomatch hnext
    | selecting => nomatch hnext
    | handling id error =>
      obtain rfl : selection = some (id, error) := hpoint
      obtain ⟨b', hb, hfor⟩ := h.body_for
      simp only [tryConstruct, hb] at hnext
      obtain ⟨rfl, rfl, rfl, rfl⟩ := Ask.enter.inj hnext
      have hentered : Handles guarded handlers input (some (id, error))
          (log ++ [.entered (.catch id) b' (handlerInput input error)]) := by
        refine h.append ?_ (fun _ hs => nomatch hs) (fun _ he => nomatch he)
          (fun _ he => nomatch he)
        rintro _ _ _ ⟨⟩
        exact .inr ⟨id, error, rfl, rfl, hfor, rfl⟩
      refine ⟨⟨_, rfl, hentered⟩, fun result => ⟨_, rfl, ?_, ⟨error, rfl⟩, by simp⟩⟩
      exact hentered.append (fun _ _ _ he => nomatch he) (fun _ hs => nomatch hs)
        (fun _ he => nomatch he) (fun _ he => nomatch he)
    | handled id r => cases r <;> nomatch hnext
  save := by
    rintro input frame point f refused next log ⟨selection, rfl, h, hpoint⟩ hnext
    cases point with
    | protecting => nomatch hnext
    | judging r =>
      rcases r with (_ | e | e) | output
      · nomatch hnext
      · simp only [tryConstruct] at hnext
        split at hnext <;> nomatch hnext
      · nomatch hnext
      · nomatch hnext
    | selecting error =>
      obtain ⟨rfl, hrec, before, hlog⟩ := hpoint
      obtain ⟨rfl, -, rfl⟩ := Ask.save.inj hnext
      obtain ⟨b, -, hfor⟩ := handlers.select_for error
      exact ⟨some (_, error), rfl, h.save hlog hrec hfor, rfl⟩
    | handling id error =>
      simp only [tryConstruct] at hnext
      split at hnext <;> nomatch hnext
    | handled id r => cases r <;> nomatch hnext
  permitted _ h := nomatch try_not_group h
  spawned _ h := nomatch try_not_group h
  joined _ h := nomatch try_not_group h
  stopped _ h := nomatch try_not_group h
  surveyed _ h := nomatch try_not_group h

/-- **Error handlers.** Every history of a try node, over any crashes and resumptions, is one
that `Handles` describes, and its record carries the selection and, until it has settled, its
input. -/
theorem try_handles {logical key : String} {h : NodeHistory TryPoint}
    (hr : (tryConstruct guarded handlers).Reaches limits logical key h) :
    ∃ input selection, Handles guarded handlers input selection h.log ∧
      (∀ i, .began i ∈ h.log → i = input) ∧
        ∀ r, h.record = some r → r.control = some (tryFrame selection) ∧
        (Construct.Unsettled r → r.input = input) := by
  have hholds := (tryInvariant guarded handlers limits key).reaches hr
  unfold Construct.Invariant.Holds at hholds
  split at hholds
  next hnone =>
    rw [hholds.1]
    exact ⟨.null, none, .nil .null, fun _ hmem => (nomatch hmem),
      fun r hr => nomatch hnone.symm.trans hr⟩
  next r hsome =>
    obtain ⟨input, frame, hcontrol, ⟨⟨selection, rfl, hhandles⟩, hbegins⟩, hinput, -⟩ := hholds
    refine ⟨input, selection, hhandles, hbegins, fun r' hr' => ?_⟩
    obtain rfl := Option.some.inj (hsome.symm.trans hr')
    exact ⟨hcontrol, hinput⟩

end

/-! ## A small try node -/

def sampleHandlers (body : PreparedBody) : Handlers :=
  ⟨[("h", "x", body)], ("f", body), by simp, by simp⟩

/-- The protected body fails and its handler is selected; the worker is gone before it enters the
handler. -/
def sampleSelecting (body : PreparedBody) : List Occurrence :=
  [.began .null, .entered .try body .null, .left .try (.error (.execution (.new "x" ""))),
    .checked false false, .saved (.try (some "h") (some (.new "x" "")))]

/-- The next worker crashes in the handler, and the last one sees it return. -/
def sampleHandling (body : PreparedBody) : List Occurrence :=
  sampleSelecting body ++
    [.began .null, .entered (.catch "h") body (handlerInput .null (.new "x" "")),
      .began .null, .entered (.catch "h") body (handlerInput .null (.new "x" "")),
      .left (.catch "h") (.ok (.bool true)), .returned (.ok (handledOutcome "h" (.bool true)))]

def sampleTryNode (selection : Option (String × ForgeError)) : InvocationRecord :=
  controlRecord "i" .running .null (tryFrame selection)

section

variable (body : PreparedBody)

theorem sampleTry_selects :
    (tryConstruct body (sampleHandlers body)).Reaches {} "i" "/nodes/a"
      ⟨some (sampleTryNode (some ("h", .new "x" ""))), .idle, sampleSelecting body⟩ := by
  let construct := tryConstruct body (sampleHandlers body)
  let failure : ForgeError := .new "x" ""
  have hlive : planNode none false false = .ok .execute := rfl
  have hframe : construct.initial .null = .ok (.try none none) := rfl
  have hguard : construct.next .null .protecting = .enter .try body .null .judging := rfl
  have hcheck : construct.next .null (.judging (.error (.execution failure))) =
      .check (.selecting failure) := rfl
  have hselect : construct.next .null (.selecting failure) =
      .save (.try (some "h") (some failure)) transitionError (.handling "h" failure) := rfl
  have hactivate : Commits {} true (activate "i" .null (.try none none)) none
      (sampleTryNode none) := Construct.commits_of_sampleRun (by decide +kernel)
  have hupdate : Commits {} true (updateFrame (.try (some "h") (some failure)))
      (some (sampleTryNode none)) (sampleTryNode (some ("h", failure))) :=
    Construct.commits_of_sampleRun (by decide +kernel)
  have h := Relation.ReflTransGen.refl (r := construct.Step {} "i" "/nodes/a") (a := {})
  have h := h.tail (.begun rfl hlive (fun _ hr => by cases hr) hframe)
  have h := h.tail (.activated rfl hactivate)
  have h := h.tail (.entered rfl hguard)
  have h := h.tail
    (@Construct.Step.left _ construct _ _ _ _ _ _ _ (.error (.execution failure)) rfl)
  have h := h.tail (.checked rfl hcheck hlive)
  have h := h.tail (.saved rfl hselect hupdate)
  exact h.tail (.dropped _)

theorem sampleTry_reaches :
    (tryConstruct body (sampleHandlers body)).Reaches {} "i" "/nodes/a"
      ⟨some (sampleTryNode (some ("h", .new "x" ""))),
        .recording .null (.ok (handledOutcome "h" (.bool true))), sampleHandling body⟩ := by
  let construct := tryConstruct body (sampleHandlers body)
  let failure : ForgeError := .new "x" ""
  have hagain : planNode (some (sampleTryNode (some ("h", failure)))) false false = .ok .execute :=
    rfl
  have hinput : ∀ r, some (sampleTryNode (some ("h", failure))) = some r →
      Value.null = r.input := by
    rintro _ ⟨⟩
    rfl
  have henter : construct.next .null (.handling "h" failure) =
      .enter (.catch "h") body (handlerInput .null failure) (.handled "h") := rfl
  have hend : construct.next .null (.handled "h" (.ok (.bool true))) =
      .finish (.ok (handledOutcome "h" (.bool true))) := rfl
  have h := (sampleTry_selects body).tail (.begun rfl hagain hinput rfl)
  have h := h.tail (.resumed rfl rfl)
  have h := h.tail (.entered rfl henter)
  have h := h.tail (.dropped _)
  have h := h.tail (.begun rfl hagain hinput rfl)
  have h := h.tail (.resumed rfl rfl)
  have h := h.tail (.entered rfl henter)
  have h := h.tail (@Construct.Step.left _ construct _ _ _ _ _ _ _ (.ok (.bool true)) rfl)
  exact h.tail (.returned rfl hend)

end

/-- Crashes between the selection and its handler, and within the handler: the handler that was
selected is entered again, and the node returns what it returned. -/
theorem try_handles_sample :
    Handles ⟨[], .literal .null⟩ (sampleHandlers ⟨[], .literal .null⟩) .null
        (some ("h", .new "x" "")) (sampleHandling ⟨[], .literal .null⟩) ∧
      TryReturns (some ("h", .new "x" "")) (sampleHandling ⟨[], .literal .null⟩)
        (.ok (handledOutcome "h" (.bool true))) := by
  obtain ⟨input, selection, hhandles, hbegan, hrecord⟩ :=
    try_handles (sampleTry_reaches ⟨[], .literal .null⟩)
  obtain rfl : Value.null = input := hbegan .null (by simp [sampleHandling, sampleSelecting])
  obtain rfl : some ("h", .new "x" "") = selection := by
    have hcontrol := Option.some.inj (hrecord _ rfl).1
    cases selection with
    | none => cases hcontrol
    | some pair =>
      obtain ⟨hid, herror⟩ := ControlFrame.try.inj hcontrol
      exact congrArg some (Prod.ext (Option.some.inj hid) (Option.some.inj herror))
  exact ⟨hhandles, hhandles.returned _ (by simp [sampleHandling])⟩

end WorkflowForge.Engine
