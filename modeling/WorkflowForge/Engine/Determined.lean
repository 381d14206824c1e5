import WorkflowForge.Engine.Planned

/-!
# Interruptions Do Not Change a Result

A plan that handles no error and collects no failure has one result over given answers. So
however often its workers were dropped, and in whatever order children returned, two executions
that end with a value end with the same one.

## Main results

- `Prescribes.determined`: what is prescribed has one outcome.
- `execution_deterministic`: executions that end with a value end with the same one.
-/

namespace WorkflowForge.Engine

open Lib

/-! ## Plans with one result -/

/-- An instruction that goes on over no error, with names of its own for its branches. -/
def PreparedInstruction.Definite : PreparedInstruction → Prop
  | .try .. => False
  | .parallel branches _ errors => errors = .failFast ∧ (branches.map Prod.fst).Nodup
  | .foreach _ _ _ errors => errors = .failFast
  | _ => True

theorem PreparedInstruction.Definite.labelled {instruction : PreparedInstruction}
    (h : instruction.Definite) : instruction.Labelled := by
  cases instruction with
  | parallel => exact h.2
  | operation | timer | awaitSignal | decision | «foreach» | loop | «try» | subworkflow => trivial

theorem PreparedInstruction.Definite.failFast {instruction : PreparedInstruction} {limits : Limits}
    {input : Value} {source : GroupSource} {errors : GroupErrors} (h : instruction.Definite)
    (hopened : opened limits input instruction = .ok (source, errors)) : errors = .failFast := by
  cases instruction with
  | parallel branches concurrency mode =>
    obtain ⟨-, rfl⟩ := Prod.mk.inj (Except.ok.inj hopened)
    exact h.1
  | «foreach» items body concurrency mode =>
    obtain ⟨_, -, -, rfl⟩ := opened_foreach hopened
    exact h
  | operation | timer | awaitSignal | decision | loop | «try» | subworkflow => cases hopened

/-! ## Conditions and limits -/

theorem boolean_unique {b : Binding} {input : Value} {limits limits' : Limits} {x x' : Bool}
    (h : boolean b input limits = .ok x) (h' : boolean b input limits' = .ok x') : x = x' := by
  obtain ⟨v, hv, h⟩ := bind_eq_ok.mp h
  obtain ⟨v', hv', h'⟩ := bind_eq_ok.mp h'
  obtain rfl := Binding.evaluate_unique hv hv'
  exact Except.ok.inj (h.symm.trans h')

theorem choose_unique {fallback : Option (String × PreparedBody)} {input : Value}
    {limits limits' : Limits} {cases : List PreparedCase} {selected selected' : String}
    (h : choose limits fallback input cases = .ok selected)
    (h' : choose limits' fallback input cases = .ok selected') : selected = selected' := by
  induction cases with
  | nil => exact Except.ok.inj (h.symm.trans h')
  | cons case cases ih =>
    obtain ⟨x, hx, h⟩ := bind_eq_ok.mp h
    obtain ⟨x', hx', h'⟩ := bind_eq_ok.mp h'
    obtain rfl := boolean_unique hx hx'
    cases x with
    | true => exact Except.ok.inj (h.symm.trans h')
    | false => exact ih h h'

/-- A loop that goes on under some limits does not end under others. -/
theorem loopResult_none {condition : Binding} {maxIterations : Nat} {onLimit : LoopLimit}
    {limits limits' : Limits} {iteration : Nat} {state output : Value}
    (h : loopResult condition maxIterations onLimit limits iteration state = none) :
    loopResult condition maxIterations onLimit limits' iteration state ≠ some (.ok output) := by
  intro h'
  unfold loopResult at h h'
  cases hx : boolean condition (loopInput state iteration) limits with
  | error e => simp [hx] at h
  | ok x =>
    cases hx' : boolean condition (loopInput state iteration) limits' with
    | error e => simp [hx'] at h'
    | ok x' =>
      obtain rfl := boolean_unique hx hx'
      cases x with
      | false => simp [hx] at h
      | true =>
        simp only [hx, hx'] at h h'
        split at h
        · cases h
        next hbound => simp [hbound] at h'

theorem loopResult_some {condition : Binding} {maxIterations : Nat} {onLimit : LoopLimit}
    {limits : Limits} {iteration : Nat} {state output : Value}
    (h : loopResult condition maxIterations onLimit limits iteration state = some (.ok output)) :
    output = state := by
  unfold loopResult at h
  split at h
  · cases h
  · exact (Except.ok.inj (Option.some.inj h)).symm
  · split at h
    · split at h
      · exact (Except.ok.inj (Option.some.inj h)).symm
      · cases Option.some.inj h
    · cases h

section

variable {root : PreparedBody} {given : Value} {answers : Answers} {place : Place}
  {node : PreparedNode} {input : Value}

/-! ## Inversion -/

/-- Only decisions enter alternatives, only loops enter iterations, and only try nodes enter
guarded bodies and handlers. -/
theorem decision_of_enters {instruction : PreparedInstruction} {selected : String}
    {body : PreparedBody} (h : Enters instruction (.cases selected) body) :
    ∃ cases fallback, instruction = .decision cases fallback := by
  cases h with
  | cases => exact ⟨_, _, rfl⟩
  | decisionFallback => exact ⟨_, _, rfl⟩

theorem loop_of_enters {instruction : PreparedInstruction} {iteration : Nat} {body : PreparedBody}
    (h : Enters instruction (.iterations iteration) body) :
    ∃ condition inner maxIterations onLimit,
      instruction = .loop condition inner maxIterations onLimit := by
  cases h with
  | iterations => exact ⟨_, _, _, _, rfl⟩

theorem try_of_enters {instruction : PreparedInstruction} {step : ScopeStep}
    {body : PreparedBody} (h : Enters instruction step body)
    (hstep : step = .try ∨ ∃ id, step = .catch id) :
    ∃ guarded catches fallback, instruction = .try guarded catches fallback := by
  rcases hstep with rfl | ⟨id, rfl⟩
  · cases h with
    | «try» => exact ⟨_, _, _, rfl⟩
  · cases h with
    | «catch» => exact ⟨_, _, _, rfl⟩
    | fallback => exact ⟨_, _, _, rfl⟩

/-- How a control node comes to run a body. -/
theorem Prescribes.child_inv {step : ScopeStep} {body : PreparedBody} {bodyInput : Value}
    (h : Prescribes root given answers (.child place node input step body bodyInput)) :
    match node.instruction with
    | .decision cases fallback => ∃ selected limits, step = .cases selected ∧
        choose limits fallback input cases = .ok selected ∧
        alternative cases fallback selected = some body ∧ bodyInput = input
    | .loop condition inner maxIterations onLimit => ∃ limits iteration state,
        step = .iterations iteration ∧ body = inner ∧ bodyInput = loopInput state iteration ∧
        Prescribes root given answers (.iterated place node input iteration state) ∧
        loopResult condition maxIterations onLimit limits iteration state = none
    | .subworkflow plan => step = workflowStep plan ∧ body = plan.body ∧ bodyInput = input
    | .parallel .. | .foreach .. => ∃ index, node.ChildAt input index step body bodyInput
    | .try .. => True
    | _ => False := by
  cases h with
  | chooses _ hnode hchoose hbody =>
    rw [hnode]
    exact ⟨_, _, rfl, hchoose, hbody, rfl⟩
  | iterates hiterated hnode hresult =>
    rw [hnode]
    exact ⟨_, _, _, rfl, rfl, rfl, hiterated, hresult⟩
  -- of a try node the inversion says nothing
  | guards _ hnode =>
    rw [hnode]
    trivial
  | handles _ _ hnode =>
    rw [hnode]
    trivial
  | calls _ hnode =>
    rw [hnode]
    exact ⟨rfl, rfl, rfl⟩
  -- only groups are opened
  | opens _ hopened hchild =>
    have hat : ∃ index, node.ChildAt input index step body bodyInput :=
      ⟨_, _, _, _, hopened, hchild⟩
    cases hnode : node.instruction with
    | parallel | «foreach» => exact hat
    | operation | timer | awaitSignal | decision | loop | «try» | subworkflow =>
      rw [hnode] at hopened
      cases hopened

/-- How the construct of a control node returns a value. -/
theorem Prescribes.returned_inv {output : Value}
    (h : Prescribes root given answers (.returned place node input (.ok output))) :
    match node.instruction with
    | .decision .. => ∃ selected body bodyInput value,
        output = decisionOutcome selected value ∧
        Prescribes root given answers (.child place node input (.cases selected) body bodyInput) ∧
        Prescribes root given answers
          (.ended (node.inside place (.cases selected)) body bodyInput (.ok value))
    | .loop condition _ maxIterations onLimit => ∃ limits iteration state,
        Prescribes root given answers (.iterated place node input iteration state) ∧
        loopResult condition maxIterations onLimit limits iteration state = some (.ok output)
    | .subworkflow plan => Prescribes root given answers
        (.ended (node.inside place (workflowStep plan)) plan.body input (.ok output))
    | .parallel .. | .foreach .. => ∃ limits source errors,
        ∃ results : Nat → Except ForgeError Value,
        ∃ values, opened limits input node.instruction = .ok (source, errors) ∧
        (∀ index step body bodyInput, source.child index = some (step, body, bodyInput) →
          Prescribes root given answers
            (.ended (node.inside place step) body bodyInput (results index))) ∧
        values.length = source.length ∧ (∀ index value, values[index]? = some value →
          Member errors source index (results index) value) ∧ output = source.value values
    | .try .. => True
    | _ => False := by
  cases h with
  | @decides _ _ _ selected body bodyInput value hchild hended =>
    obtain ⟨cases, fallback, hnode⟩ := decision_of_enters hchild.planned.2
    rw [hnode]
    exact ⟨selected, body, bodyInput, value, rfl, hchild, hended⟩
  | loopEnds hiterated hnode hresult =>
    rw [hnode]
    exact ⟨_, _, _, hiterated, hresult⟩
  -- a guarded body says nothing about other nodes
  | guarded hchild =>
    obtain ⟨_, _, _, hnode⟩ := try_of_enters hchild.planned.2 (.inl rfl)
    rw [hnode]
    trivial
  | handled hchild =>
    obtain ⟨_, _, _, hnode⟩ := try_of_enters hchild.planned.2 (.inr ⟨_, rfl⟩)
    rw [hnode]
    trivial
  | yields _ hnode hended =>
    rw [hnode]
    exact hended
  -- only groups are opened
  | gathers results values _ hopened hended hlength hmember =>
    cases hnode : node.instruction with
    | parallel | «foreach» =>
      rw [hnode] at hopened
      exact ⟨_, _, _, results, values, hopened, hended, hlength, hmember, rfl⟩
    | operation | timer | awaitSignal | decision | loop | «try» | subworkflow =>
      rw [hnode] at hopened
      cases hopened

theorem Prescribes.child_at {limits : Limits} {source : GroupSource} {errors : GroupErrors}
    {step : ScopeStep} {body : PreparedBody} {bodyInput : Value}
    (hopened : opened limits input node.instruction = .ok (source, errors))
    (h : Prescribes root given answers (.child place node input step body bodyInput)) :
    ∃ index, node.ChildAt input index step body bodyInput := by
  have hinv := h.child_inv
  cases hnode : node.instruction with
  | parallel | «foreach» =>
    simp only [hnode] at hinv
    exact hinv
  | operation | timer | awaitSignal | decision | loop | «try» | subworkflow =>
    rw [hnode] at hopened
    cases hopened

/-- The nodes before the remaining ones have been passed. -/
theorem Prescribes.reached_inv {body : PreparedBody} {outputs : BTreeMap String Value}
    {rest : List PreparedNode}
    (h : Prescribes root given answers (.reached place body input outputs rest)) :
    rest = body.sequence ∧ outputs = ∅ ∨ ∃ limits before passed value output,
      outputs = before.insert passed.id output ∧
      Prescribes root given answers (.reached place body input before (passed :: rest)) ∧
      passed.input.evaluate input before limits = .ok value ∧
      Prescribes root given answers (.settled place passed value (.ok output)) := by
  cases h with
  | begins => exact .inl ⟨rfl, rfl⟩
  | passes hreached hvalue hsettled =>
    exact .inr ⟨_, _, _, _, _, rfl, hreached, hvalue, hsettled⟩

end

/-! ## One outcome -/

section

variable (root : PreparedBody) (given : Value) (answers : Answers)

/-- An iteration was left for the next one, from one state only. -/
def Continues (place : Place) (node : PreparedNode) (input : Value) (iteration : Nat) : Prop :=
  ∃ state, (∀ state', Prescribes root given answers
      (.iterated place node input iteration state') → state' = state) ∧
    ∃ limits condition inner maxIterations onLimit,
      node.instruction = .loop condition inner maxIterations onLimit ∧
      loopResult condition maxIterations onLimit limits iteration state = none

/-- There is no other outcome than this one. -/
def Judgment.Determined : Judgment → Prop
  | .entered .. | .active .. => True
  | .reached place b input outputs rest => ∀ outputs',
    Prescribes root given answers (.reached place b input outputs' rest) → outputs' = outputs
  | .child place n input step b bodyInput =>
    (∀ b' bodyInput', Prescribes root given answers (.child place n input step b' bodyInput') →
      b' = b ∧ bodyInput' = bodyInput) ∧
    ∀ iteration, step = .iterations iteration → ∀ earlier ≤ iteration,
      Continues root given answers place n input earlier
  | .iterated place n input iteration state =>
    (∀ state', Prescribes root given answers (.iterated place n input iteration state') →
      state' = state) ∧
    ∀ earlier < iteration, Continues root given answers place n input earlier
  | .returned place n input result => ∀ output output', result = .ok output →
    Prescribes root given answers (.returned place n input (.ok output')) → output' = output
  | .settled place n input result => ∀ output output', result = .ok output →
    Prescribes root given answers (.settled place n input (.ok output')) → output' = output
  | .ended place b input result => ∀ output output', result = .ok output →
    Prescribes root given answers (.ended place b input (.ok output')) → output' = output

end

section

variable {root : PreparedBody} {given : Value} {answers : Answers} {place : Place}
  {node : PreparedNode} {input : Value}

/-- A loop has come to an iteration through all earlier ones. -/
theorem iterated_before {iteration : Nat} {state : Value}
    (h : Prescribes root given answers (.iterated place node input iteration state)) :
    ∀ earlier < iteration, ∃ state', Prescribes root given answers
        (.iterated place node input earlier state') ∧
      ∃ limits condition inner maxIterations onLimit,
        node.instruction = .loop condition inner maxIterations onLimit ∧
        loopResult condition maxIterations onLimit limits earlier state' = none := by
  induction iteration generalizing state with
  | zero => exact fun earlier hlt => absurd hlt (Nat.not_lt_zero _)
  | succ iteration ih =>
    intro earlier hlt
    cases h with
    | advances hchild hended =>
      obtain ⟨condition, inner, maxIterations, onLimit, hnode⟩ := loop_of_enters hchild.planned.2
      have hinv := hchild.child_inv
      simp only [hnode] at hinv
      -- the iteration before was entered, so the loop had not ended there
      obtain ⟨limits, k, state', hstep, -, -, hiterated, hresult⟩ := hinv
      obtain rfl := ScopeStep.iterations.inj hstep
      rcases Nat.lt_succ_iff_lt_or_eq.mp hlt with hlt | rfl
      · exact ih hiterated earlier hlt
      · exact ⟨state', hiterated, limits, condition, inner, maxIterations, onLimit, hnode, hresult⟩

theorem not_leaf_of_returned {output : Value}
    (h : Prescribes root given answers (.returned place node input (.ok output))) :
    node.isLeaf ≠ true := by
  have hinv := h.returned_inv
  unfold PreparedNode.isLeaf
  cases hnode : node.instruction with
  | operation | timer | awaitSignal =>
    simp only [hnode] at hinv
  | decision | loop | «try» | subworkflow | parallel | «foreach» => simp

theorem returned_group {limits : Limits} {source : GroupSource} {errors : GroupErrors}
    {output : Value} (hopened : opened limits input node.instruction = .ok (source, errors))
    (h : Prescribes root given answers (.returned place node input (.ok output))) :
    ∃ limits source errors, ∃ results : Nat → Except ForgeError Value, ∃ values,
      opened limits input node.instruction = .ok (source, errors) ∧
      (∀ index step body bodyInput, source.child index = some (step, body, bodyInput) →
        Prescribes root given answers
          (.ended (node.inside place step) body bodyInput (results index))) ∧
      values.length = source.length ∧ (∀ index value, values[index]? = some value →
        Member errors source index (results index) value) ∧ output = source.value values := by
  have hinv := h.returned_inv
  cases hnode : node.instruction with
  | parallel | «foreach» =>
    simp only [hnode] at hinv
    exact hinv
  | operation | timer | awaitSignal | decision | loop | «try» | subworkflow =>
    rw [hnode] at hopened
    cases hopened

theorem Member.failFast {source : GroupSource} {index : Nat} {result : Except ForgeError Value}
    {value : Value} (h : Member .failFast source index result value) :
    ∃ output, result = .ok output ∧ value = source.succeeded index output := by
  cases h with
  | succeeded output => exact ⟨output, rfl, rfl⟩
  | failed _ hmode => cases hmode

/-! ### Bodies -/

/-- Two prescriptions that come to the same remaining nodes have passed the same node. -/
theorem Determined.passes {limits : Limits} {body : PreparedBody}
    {outputs : BTreeMap String Value} {rest : List PreparedNode} {value output : Value}
    (hreached : Prescribes root given answers (.reached place body input outputs (node :: rest)))
    (hvalue : node.input.evaluate input outputs limits = .ok value)
    (ih : (Judgment.reached place body input outputs (node :: rest)).Determined root given answers)
    (ihs : (Judgment.settled place node value (.ok output)).Determined root given answers) :
    (Judgment.reached place body input (outputs.insert node.id output) rest).Determined root given
      answers := by
  intro outputs' h'
  rcases h'.reached_inv with
    ⟨rfl, -⟩ | ⟨_, before, passed, _, _, rfl, hreached', hvalue', hsettled'⟩
  · have hlength := hreached.planned.2.length_le
    simp at hlength
  · have hsuffix := List.suffix_of_suffix_length_le hreached'.planned.2 hreached.planned.2 (by simp)
    obtain ⟨rfl, -⟩ := List.cons.inj (hsuffix.eq_of_length (by simp))
    obtain rfl := ih _ hreached'
    obtain rfl := Binding.evaluate_unique hvalue hvalue'
    obtain rfl := ihs _ _ rfl hsettled'
    rfl

/-- A body that begins has passed no node. -/
theorem determined_begins {body : PreparedBody} :
    (Judgment.reached place body input ∅ body.sequence).Determined root given answers := by
  intro outputs' h'
  rcases h'.reached_inv with ⟨-, rfl⟩ | ⟨_, _, passed, _, _, -, hreached, -, -⟩
  · rfl
  · have hlength := hreached.planned.2.length_le
    simp at hlength

/-! ### Decisions -/

/-- The alternative that was chosen runs on the input of its decision. -/
theorem determined_chooses {cases : List PreparedCase} {fallback : Option (String × PreparedBody)}
    {selected : String} {body : PreparedBody} (hnode : node.instruction = .decision cases fallback)
    (hbody : alternative cases fallback selected = some body) :
    (Judgment.child place node input (.cases selected) body input).Determined root given
      answers := by
  refine ⟨fun b' bodyInput' h' => ?_, fun iteration hstep => by cases hstep⟩
  have hinv := h'.child_inv
  simp only [hnode] at hinv
  obtain ⟨selected, _, hstep, -, hbody', rfl⟩ := hinv
  obtain rfl := ScopeStep.cases.inj hstep
  exact ⟨Option.some.inj (hbody'.symm.trans hbody), rfl⟩

/-- A decision chooses once, so it has the outcome of one alternative. -/
theorem Determined.decides {selected : String} {body : PreparedBody} {bodyInput output : Value}
    (hchild : Prescribes root given answers
      (.child place node input (.cases selected) body bodyInput))
    (ihc : (Judgment.child place node input (.cases selected) body bodyInput).Determined root given
      answers)
    (ihe : (Judgment.ended (node.inside place (.cases selected)) body bodyInput
      (.ok output)).Determined root given answers) :
    (Judgment.returned place node input (.ok (decisionOutcome selected output))).Determined root
      given answers := by
  intro output₀ output' heq h'
  obtain rfl := Except.ok.inj heq
  obtain ⟨cases, fallback, hnode⟩ := decision_of_enters hchild.planned.2
  have hinv := h'.returned_inv
  simp only [hnode] at hinv
  obtain ⟨selected', _, _, _, rfl, hchild', hended'⟩ := hinv
  have hchosen := hchild.child_inv
  have hchosen' := hchild'.child_inv
  simp only [hnode] at hchosen hchosen'
  obtain ⟨_, _, hstep, hchoose, -⟩ := hchosen
  obtain ⟨_, _, hstep', hchoose', -⟩ := hchosen'
  obtain rfl := ScopeStep.cases.inj hstep
  obtain rfl := ScopeStep.cases.inj hstep'
  -- limits decide whether there is a choice, not which one
  obtain rfl := choose_unique hchoose hchoose'
  obtain ⟨rfl, rfl⟩ := ihc.1 _ _ hchild'
  obtain rfl := ihe _ _ rfl hended'
  rfl

/-! ### Loops -/

section

variable {limits : Limits} {condition : Binding} {body : PreparedBody} {maxIterations : Nat}
  {onLimit : LoopLimit} {iteration : Nat} {state : Value}

/-- An iteration runs on the one state that its loop has come to. -/
theorem Determined.iterates
    (hnode : node.instruction = .loop condition body maxIterations onLimit)
    (hresult : loopResult condition maxIterations onLimit limits iteration state = none)
    (ih : (Judgment.iterated place node input iteration state).Determined root given answers) :
    (Judgment.child place node input (.iterations iteration) body
      (loopInput state iteration)).Determined root given answers := by
  refine ⟨fun b' bodyInput' h' => ?_, fun k hstep earlier hle => ?_⟩
  · have hinv := h'.child_inv
    simp only [hnode] at hinv
    obtain ⟨_, _, _, hstep, rfl, rfl, hiterated', -⟩ := hinv
    obtain rfl := ScopeStep.iterations.inj hstep
    obtain rfl := ih.1 _ hiterated'
    exact ⟨rfl, rfl⟩
  · obtain rfl := ScopeStep.iterations.inj hstep
    rcases Nat.lt_or_eq_of_le hle with hlt | rfl
    · exact ih.2 earlier hlt
    · exact ⟨state, ih.1, limits, condition, body, maxIterations, onLimit, hnode, hresult⟩

/-- The state of the next iteration is the output of this one. -/
theorem Determined.advances {bodyInput output : Value}
    (ihc : (Judgment.child place node input (.iterations iteration) body bodyInput).Determined root
      given answers)
    (ihe : (Judgment.ended (node.inside place (.iterations iteration)) body bodyInput
      (.ok output)).Determined root given answers) :
    (Judgment.iterated place node input (iteration + 1) output).Determined root given answers := by
  refine ⟨fun state' h' => ?_, fun earlier hlt => ?_⟩
  · cases h' with
    | advances hchild' hended' =>
      obtain ⟨rfl, rfl⟩ := ihc.1 _ _ hchild'
      exact ihe _ _ rfl hended'
  · exact ihc.2 iteration rfl earlier (Nat.le_of_lt_succ hlt)

/-- A loop that ends somewhere ends at no other iteration, as every earlier one went on. -/
theorem Determined.loopEnds {output : Value}
    (hnode : node.instruction = .loop condition body maxIterations onLimit)
    (hresult : loopResult condition maxIterations onLimit limits iteration state =
      some (.ok output))
    (ih : (Judgment.iterated place node input iteration state).Determined root given answers) :
    (Judgment.returned place node input (.ok output)).Determined root given answers := by
  intro output₀ output' heq h'
  obtain rfl := Except.ok.inj heq
  have hinv := h'.returned_inv
  simp only [hnode] at hinv
  obtain ⟨_, iteration', state', hiterated', hresult'⟩ := hinv
  rcases Nat.lt_trichotomy iteration' iteration with hlt | rfl | hlt
  -- this loop went on where the other one ends
  · obtain ⟨st, hunique, _, _, _, _, _, hnode', hnone⟩ := ih.2 iteration' hlt
    obtain rfl := hunique _ hiterated'
    rw [hnode] at hnode'
    obtain ⟨rfl, rfl, rfl, rfl⟩ := PreparedInstruction.loop.inj hnode'
    exact absurd hresult' (loopResult_none hnone)
  · obtain rfl := ih.1 _ hiterated'
    exact (loopResult_some hresult').trans (loopResult_some hresult).symm
  -- the other one went on where this loop ends
  · obtain ⟨st, hiterated, _, _, _, _, _, hnode', hnone⟩ := iterated_before hiterated' iteration hlt
    obtain rfl := ih.1 _ hiterated
    rw [hnode] at hnode'
    obtain ⟨rfl, rfl, rfl, rfl⟩ := PreparedInstruction.loop.inj hnode'
    exact absurd hresult (loopResult_none hnone)

end

/-! ### Subworkflows -/

theorem determined_calls {plan : Plan} (hnode : node.instruction = .subworkflow plan) :
    (Judgment.child place node input (workflowStep plan) plan.body input).Determined root given
      answers := by
  refine ⟨fun b' bodyInput' h' => ?_, fun iteration hstep => by cases hstep⟩
  have hinv := h'.child_inv
  simp only [hnode] at hinv
  obtain ⟨-, rfl, rfl⟩ := hinv
  exact ⟨rfl, rfl⟩

theorem Determined.yields {plan : Plan} {output : Value}
    (hnode : node.instruction = .subworkflow plan)
    (ihe : (Judgment.ended (node.inside place (workflowStep plan)) plan.body input
      (.ok output)).Determined root given answers) :
    (Judgment.returned place node input (.ok output)).Determined root given answers := by
  intro output₀ output' heq h'
  have hinv := h'.returned_inv
  simp only [hnode] at hinv
  exact ihe _ _ heq hinv

/-! ### Groups -/

section

variable {limits : Limits} {source : GroupSource} {errors : GroupErrors}

/-- A group whose branches have names of their own runs one body in a scope. -/
theorem determined_opens (hdefinite : node.instruction.Definite) {index : Nat} {step : ScopeStep}
    {body : PreparedBody} {bodyInput : Value}
    (hopened : opened limits input node.instruction = .ok (source, errors))
    (hchild : source.child index = some (step, body, bodyInput)) :
    (Judgment.child place node input step body bodyInput).Determined root given answers := by
  refine ⟨fun b' bodyInput' h' => ?_, fun iteration hstep => ?_⟩
  · obtain ⟨_, _, _, _, hopened', hchild'⟩ := Prescribes.child_at hopened h'
    obtain ⟨rfl, rfl⟩ := opened_unique hopened hopened'
    exact child_unique hdefinite.labelled hopened hchild' hchild
  · subst hstep
    obtain ⟨_, _, _, _, hnode⟩ := loop_of_enters (enters_child hopened hchild)
    rw [hnode] at hopened
    cases hopened

/-- A group that collects no failure gathers the values of its children, one for each. -/
theorem Determined.gathers (hdefinite : node.instruction.Definite)
    {results : Nat → Except ForgeError Value} {values : List Value}
    (hopened : opened limits input node.instruction = .ok (source, errors))
    (hlength : values.length = source.length)
    (hmember : ∀ index value, values[index]? = some value →
      Member errors source index (results index) value)
    (ihs : ∀ index step body bodyInput, source.child index = some (step, body, bodyInput) →
      (Judgment.ended (node.inside place step) body bodyInput (results index)).Determined root given
        answers) :
    (Judgment.returned place node input (.ok (source.value values))).Determined root given
      answers := by
  intro output output' heq h'
  obtain rfl := Except.ok.inj heq
  obtain rfl := hdefinite.failFast hopened
  obtain ⟨_, _, _, _, values', hopened', hended', hlength', hmember', rfl⟩ :=
    returned_group hopened h'
  obtain ⟨rfl, rfl⟩ := opened_unique hopened hopened'
  -- every child has succeeded, with the same output
  have hvalues : values' = values := by
    refine List.ext_getElem (hlength'.trans hlength.symm) fun i hi' hi => ?_
    obtain ⟨value, hresult, hvalue⟩ := (hmember i _ (List.getElem?_eq_getElem hi)).failFast
    obtain ⟨value', hresult', hvalue'⟩ := (hmember' i _ (List.getElem?_eq_getElem hi')).failFast
    obtain ⟨⟨step, body, bodyInput⟩, hchild⟩ :=
      GroupSource.child_isSome (hlength ▸ hi : i < source.length)
    have hended := hended' i step body bodyInput hchild
    rw [hresult'] at hended
    rw [hvalue, hvalue', ihs i step body bodyInput hchild value value' hresult hended]
  rw [hvalues]

end

/-! ### Every rule -/

/-- What is prescribed has one outcome, over answers that are given once, in a plan that goes on
over no error. -/
theorem Prescribes.determined (hdefinite : ∀ place node, root.At place node →
      node.instruction.Definite)
    (hanswers : ∀ a output output', answers a output → answers a output' → output = output')
    {J : Judgment} (h : Prescribes root given answers J) : J.Determined root given answers := by
  have htry : ∀ {place : Place} {node : PreparedNode} {guarded catches fallback},
      root.At place node → node.instruction = .try guarded catches fallback → False := by
    intro place node guarded catches fallback hat hnode
    have hnot := hdefinite place node hat
    rw [hnode] at hnot
    exact hnot
  -- by induction on one prescription, inverting the other one
  induction h with
  | root | enters | activates => trivial
  | begins => exact determined_begins
  | passes hreached hvalue _ ih ihs => exact Determined.passes hreached hvalue ih ihs
  | finishes _ houtput ih =>
    intro output output' heq h'
    obtain rfl := Except.ok.inj heq
    cases h' with
    | finishes hreached' houtput' =>
      obtain rfl := ih _ hreached'
      exact Binding.evaluate_unique houtput' houtput
  -- an error is no value, so it leaves open how another prescription ends
  | outputFails | inputFails | refused | nodeFails | interrupted | leafFails | childFails | stops
  | oversized | fails | unmatched | loopFails | uncalled | breaks | unopened | reopens =>
    intro _ _ heq
    cases heq
  | answered _ hleaf _ hanswer =>
    intro output output' heq h'
    obtain rfl := Except.ok.inj heq
    cases h' with
    | answered _ _ _ hanswer' => exact hanswers _ _ _ hanswer' hanswer
    | succeeds hreturned => exact absurd hleaf (not_leaf_of_returned hreturned)
  | succeeds hreturned ih =>
    intro output output' heq h'
    cases h' with
    | answered _ hleaf => exact absurd hleaf (not_leaf_of_returned hreturned)
    | succeeds hreturned' => exact ih output output' heq hreturned'
  | chooses _ hnode _ hbody => exact determined_chooses hnode hbody
  | decides hchild _ ihc ihe => exact Determined.decides hchild ihc ihe
  | loops =>
    refine ⟨fun state' h' => ?_, fun earlier hlt => absurd hlt (Nat.not_lt_zero _)⟩
    cases h' with
    | loops => rfl
  | iterates _ hnode hresult ih => exact Determined.iterates hnode hresult ih
  | advances _ _ ihc ihe => exact Determined.advances ihc ihe
  | loopEnds _ hnode hresult ih => exact Determined.loopEnds hnode hresult ih
  -- a definite plan has no handler
  | guards hactive hnode => exact (htry hactive.planned hnode).elim
  | guarded hchild =>
    obtain ⟨_, _, _, hnode⟩ := try_of_enters hchild.planned.2 (.inl rfl)
    exact (htry hchild.planned.1 hnode).elim
  | handles hchild _ hnode => exact (htry hchild.planned.1 hnode).elim
  | handled hchild =>
    obtain ⟨_, _, _, hnode⟩ := try_of_enters hchild.planned.2 (.inr ⟨_, rfl⟩)
    exact (htry hchild.planned.1 hnode).elim
  | calls _ hnode => exact determined_calls hnode
  | yields _ hnode _ _ _ ihe => exact Determined.yields hnode ihe
  | opens hactive hopened hchild =>
    exact determined_opens (hdefinite _ _ hactive.planned) hopened hchild
  | gathers results values hactive hopened _ hlength hmember _ ihs =>
    exact Determined.gathers (hdefinite _ _ hactive.planned) hopened hlength hmember ihs

end

/-! ## Executions -/

/-- Interruptions do not change the value of a run: two executions of a plan that goes on over
no error, on any hosts and with restarts at every level, end with the same value, if they end
with values and were given the same answers. -/
theorem execution_deterministic {root : PreparedBody} (hdefinite : ∀ place node,
      root.At place node → node.instruction.Definite) {answers : Answers}
    (hanswers : ∀ a output output', answers a output → answers a output' → output = output')
    {given output output' : Value} (h : Executes answers (.body [] root given (.ok output)))
    (h' : Executes answers (.body [] root given (.ok output'))) : output = output' := by
  have hmeans : Execution.Means root given answers (.body [] root given (.ok output)) := h.means
  have hmeans' : Execution.Means root given answers (.body [] root given (.ok output')) := h'.means
  have hended : Prescribes root given answers (.ended [] root given (.ok output)) := hmeans .root
  have hended' : Prescribes root given answers (.ended [] root given (.ok output')) :=
    hmeans' .root
  exact (hended.determined hdefinite hanswers output output' rfl hended').symm

/-- The loop, and a pause whose answer is the value of the plan. -/
def samplePausing : PreparedNode :=
  ⟨"b", .literal .null, .timer 10⟩

def sampleAnswered : PreparedBody :=
  ⟨[sampleRepeating, samplePausing], .select ⟨.node, some "b", "", none⟩⟩

def sampleAnswers : Answers := fun a output => a = ⟨[], "b"⟩ ∧ output = .bool true

theorem sampleAnswered_definite (place : Place) (node : PreparedNode)
    (h : sampleAnswered.At place node) : node.instruction.Definite := by
  have hnodes : ∀ n ∈ sampleAnswered.sequence, n = sampleRepeating ∨ n = samplePausing := by
    intro n hn
    simpa [sampleAnswered] using hn
  cases h with
  | here hmem =>
    rcases hnodes _ hmem with rfl | rfl
    · trivial
    · trivial
  | inside hmem henters hat =>
    rcases hnodes _ hmem with rfl | rfl
    · have henters : Enters (.loop (.literal (.bool true)) sampleRound 1 .returnLast) _ _ :=
        henters
      cases henters with
      | iterations =>
        cases hat with
        | here hmem => cases hmem
        | inside hmem => cases hmem
    · cases henters

/-- The plan ends with the answer of its pause once its loop has been executed. -/
theorem sampleAnswered_executes
    (h : Executes sampleAnswers (.node [] sampleRepeating .null (.ok .null))) :
    Executes sampleAnswers (.body [] sampleAnswered .null (.ok (.bool true))) := by
  have hrepeating : sampleRepeating.input.evaluate .null ∅ {} = .ok .null := rfl
  have hpausing : samplePausing.input.evaluate .null
      ((∅ : BTreeMap String Value).insert "a" .null) {} = .ok .null := rfl
  have hadmits : samplePausing.admits .null {} = .ok () := rfl
  have hpaused : Executes sampleAnswers (.node [] samplePausing .null (.ok (.bool true))) :=
    .answered rfl hadmits ⟨rfl, rfl⟩
  have houtput : sampleAnswered.output.evaluate .null
      (((∅ : BTreeMap String Value).insert "a" .null).insert "b" (.bool true)) {} =
        .ok (.bool true) := by
    decide +kernel
  exact .ends (.next (.next .enters hrepeating h) hpausing hpaused) houtput

/-- The loop without a crash. -/
def sampleUninterrupted : List Occurrence :=
  [.began .null, .checked false false, .entered (.iterations 0) sampleRound (loopInput .null 0),
    .left (.iterations 0) (.ok .null), .saved (.loop 1 .null), .checked false false,
    .returned (.ok .null)]

theorem sampleUninterrupted_history (key : String) :
    HostHistory sampleRepetition "i" key .null
      { sampleRepeated with log := sampleUninterrupted } := by
  have h := sampleRepetition_goes (sampleRepetition_enters key) (sampleRepetition_left rfl)
    (by simp)
  exact sampleRepetition_ends h

theorem sampleUninterrupted_executes (answers : Answers) :
    Executes answers (.node [] sampleRepeating .null (.ok .null)) := by
  refine .control rfl (sampleUninterrupted_history _) rfl ?_ ?_
  · intro before step body bodyInput result after hlog
    have hlog : sampleUninterrupted = _ := hlog
    have hentered : Occurrence.entered step body bodyInput ∈ sampleUninterrupted := by simp [hlog]
    have hleft : Occurrence.left step result ∈ sampleUninterrupted := by simp [hlog]
    simp only [sampleUninterrupted, List.mem_cons, reduceCtorEq, Occurrence.entered.injEq,
      Occurrence.left.injEq, List.not_mem_nil, false_or, or_false] at hentered hleft
    obtain ⟨-, rfl, -⟩ := hentered
    obtain ⟨-, rfl⟩ := hleft
    have hround : sampleRound.output.evaluate bodyInput ∅ {} = .ok .null := rfl
    exact .ends .enters hround
  · intro index result cancelled hmem
    simp [sampleUninterrupted] at hmem

/-- An execution whose loop crashed and one whose loop did not, over the same answer. -/
theorem execution_deterministic_sample : ∃ output output',
    Executes sampleAnswers (.body [] sampleAnswered .null (.ok output)) ∧
      Executes sampleAnswers (.body [] sampleAnswered .null (.ok output')) ∧
      output = output' :=
  have hinterrupted := sampleAnswered_executes (sampleRepeating_executes _)
  have huninterrupted := sampleAnswered_executes (sampleUninterrupted_executes _)
  ⟨_, _, hinterrupted, huninterrupted,
    execution_deterministic sampleAnswered_definite
      (fun _ _ _ h h' => h.2.trans h'.2.symm) hinterrupted huninterrupted⟩

end WorkflowForge.Engine
