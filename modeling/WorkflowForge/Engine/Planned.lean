import WorkflowForge.Engine.Registry
import WorkflowForge.Engine.Executions

/-!
# Executions Stay Inside the Plan

What is executed is a node of the plan, at its place; so all that an execution asks of the
outside, and all the workflows it enters, were collected when the plan was prepared.

## Main results

- `Prescribes.planned`: what is prescribed lies inside the plan.
- `execution_collected`: an execution of a prepared plan asks collected operations only.
-/

namespace WorkflowForge.Engine

open Lib

/-! ## Places of a plan -/

/-- A node of a body that a node enters. -/
theorem PreparedBody.At.enter {root inner : PreparedBody} {outer node : PreparedNode}
    {steps : Place} {step : ScopeStep} (h : root.At steps outer)
    (henters : Enters outer.instruction step inner) (hmem : node ∈ inner.sequence) :
    root.At (steps ++ [(outer.id, step)]) node := by
  induction h with
  | here houter => exact .inside houter henters (.here hmem)
  | inside houter henters' _ ih => exact .inside houter henters' (ih henters)

/-- The body of a saved alternative is one that the decision enters. -/
theorem enters_alternative {cases : List PreparedCase} {fallback : Option (String × PreparedBody)}
    {selected : String} {body : PreparedBody}
    (h : alternative cases fallback selected = some body) :
    Enters (.decision cases fallback) (.cases selected) body := by
  unfold alternative at h
  split at h
  next case hfind =>
    obtain rfl := Option.some.inj h
    obtain rfl : case.id = selected := by simpa using List.find?_some hfind
    exact .cases (List.mem_of_find?_eq_some hfind)
  · obtain ⟨⟨id, b⟩, hfallback, rfl⟩ := Option.map_eq_some_iff.mp h
    obtain ⟨rfl, hid⟩ := Option.filter_eq_some_iff.mp hfallback
    obtain rfl : id = selected := by simpa using hid
    exact .decisionFallback

theorem enters_handler {guarded body : PreparedBody} {handlers : Handlers} {error : ForgeError}
    {id : String} (h : handlers.For error id body) :
    Enters (.try guarded handlers.catches handlers.fallback) (.catch id) body := by
  rcases h with hmem | ⟨-, hfallback⟩
  · exact .catch hmem
  · rw [hfallback]
    exact .fallback

theorem enters_child {instruction : PreparedInstruction} {limits : Limits} {input : Value}
    {source : GroupSource} {errors : GroupErrors} {index : Nat} {step : ScopeStep}
    {body : PreparedBody} {bodyInput : Value}
    (h : opened limits input instruction = .ok (source, errors))
    (hchild : source.child index = some (step, body, bodyInput)) :
    Enters instruction step body := by
  cases instruction with
  | parallel branches concurrency mode =>
    obtain ⟨rfl, rfl⟩ := Prod.mk.inj (Except.ok.inj h)
    obtain ⟨⟨label, _⟩, hbranch, hsome⟩ := Option.map_eq_some_iff.mp hchild
    obtain ⟨rfl, rfl, rfl⟩ := by simpa using hsome
    exact .branches (List.mem_of_getElem? hbranch)
  | «foreach» items inner concurrency mode =>
    obtain ⟨values, -, rfl, -⟩ := opened_foreach h
    obtain ⟨item, -, hsome⟩ := Option.map_eq_some_iff.mp hchild
    obtain ⟨rfl, rfl, rfl⟩ := by simpa using hsome
    exact .items
  | operation | timer | awaitSignal | decision | loop | «try» | subworkflow => cases h

/-! ## What is prescribed -/

section

variable {root : PreparedBody} {given : Value} {answers : Answers}

/-- What is entered, and what is executed, is in the plan. -/
def Judgment.Planned (root : PreparedBody) : Judgment → Prop
  | .entered place b _ => ∀ n ∈ b.sequence, root.At place n
  | .reached place b _ _ rest => (∀ n ∈ b.sequence, root.At place n) ∧ rest <:+ b.sequence
  | .active place n _ | .iterated place n _ _ _ => root.At place n
  | .child place n _ step b _ => root.At place n ∧ Enters n.instruction step b
  | .returned .. | .settled .. | .ended .. => True

/-- What is prescribed lies inside the plan. -/
theorem Prescribes.planned {J : Judgment} (h : Prescribes root given answers J) :
    J.Planned root := by
  -- by induction on the prescription; a place grows by the body that a node enters
  induction h with
  | root => exact fun n hn => .here hn
  | begins _ ih => exact ⟨ih, List.suffix_refl _⟩
  | passes _ _ _ ih _ => exact ⟨ih.1, (List.suffix_cons _ _).trans ih.2⟩
  | activates _ _ ih => exact ih.1 _ (ih.2.subset List.mem_cons_self)
  | enters _ ih => exact fun n hn => ih.1.enter ih.2 hn
  | chooses _ hnode _ hbody ih =>
    refine ⟨ih, ?_⟩
    rw [hnode]
    exact enters_alternative hbody
  | loops _ _ ih => exact ih
  | iterates _ hnode _ ih =>
    refine ⟨ih, ?_⟩
    rw [hnode]
    exact .iterations
  | advances _ _ ih _ => exact ih.1
  | guards _ hnode ih =>
    refine ⟨ih, ?_⟩
    rw [hnode]
    exact .try
  | handles _ _ hnode _ hfor ih _ =>
    refine ⟨ih.1, ?_⟩
    rw [hnode]
    exact enters_handler hfor
  | calls _ hnode _ ih =>
    refine ⟨ih, ?_⟩
    rw [hnode]
    exact .workflows
  | opens _ hopened hchild ih => exact ⟨ih, enters_child hopened hchild⟩
  | finishes | outputFails | inputFails | refused | nodeFails | interrupted | answered | leafFails
  | childFails | stops | oversized | succeeds | fails | unmatched | decides | loopEnds | loopFails
  | guarded | handled | uncalled | yields | breaks | unopened | reopens | gathers => trivial

/-! ## Executions -/

/-- What an execution begins with is prescribed. -/
def Execution.Prepared (root : PreparedBody) (given : Value) (answers : Answers) :
    Execution → Prop
  | .upTo place b input _ _ => Prescribes root given answers (.entered place b input)
  | .node place n input _ => Prescribes root given answers (.active place n input)
  | .body place b input _ => Prescribes root given answers (.entered place b input)

/-- Only the leaves of the plan are asked for answers. -/
theorem Executes.planned {asked : Activation → Prop} (hasked : ∀ place node, root.At place node →
      node.isLeaf = true → asked (node.activation place))
    {e : Execution} (h : Executes answers e) (hprepared : e.Prepared root given answers) :
    Executes (fun a output => answers a output ∧ asked a) e := by
  induction h with
  | enters => exact .enters
  | next hupTo hvalue _ ih ihnode =>
    have hreached := hupTo.means hprepared
    exact .next (ih hprepared) hvalue (ihnode (.activates hreached hvalue))
  | ends _ houtput ih => exact .ends (ih hprepared) houtput
  | outputFails _ houtput ih => exact .outputFails (ih hprepared) houtput
  | inputFails _ hvalue ih => exact .inputFails (ih hprepared) hvalue
  | refused _ hvalue hadmits ih => exact .refused (ih hprepared) hvalue hadmits
  | nodeFails hupTo hvalue _ ih ihnode =>
    have hreached := hupTo.means hprepared
    exact .nodeFails (ih hprepared) hvalue (ihnode (.activates hreached hvalue))
  | barred _ hbarred ih => exact .barred (ih hprepared) hbarred
  | lost error _ ih => exact .lost error (ih hprepared)
  | answered hleaf hadmits hanswer =>
    exact .answered hleaf hadmits ⟨hanswer, hasked _ _ (Prescribes.planned hprepared) hleaf⟩
  | leafFails error hleaf => exact .leafFails error hleaf
  | @control executes logical place node input h result hexecutor hhistory hstage hleft hjoined
      ihleft ihjoined =>
    -- what children return is prescribed, by the means of their executions
    have hattested : Attested root given answers place node input h.log := by
      refine ⟨?_, ?_⟩
      · intro before step body bodyInput result after hlog hchild
        exact (hleft before step body bodyInput result after hlog).means (.enters hchild)
      · intro index result cancelled hmem step body bodyInput hat hchild
        exact (hjoined index result cancelled hmem step body bodyInput hat).means (.enters hchild)
    obtain ⟨S⟩ := exists_sound hexecutor
    -- so the construct enters the children of the plan only
    have hconforms := (Sound.holds_history (S := S) hprepared hhistory hattested).conforms
    refine .control hexecutor hhistory hstage ?_ ?_
    · intro before step body bodyInput result after hlog
      have hentered : Entered h.log step body bodyInput := .inl (by simp [hlog])
      have hchild := hconforms.entered step body bodyInput hentered
      exact ihleft before step body bodyInput result after hlog (.enters hchild)
    · intro index result cancelled hmem step body bodyInput hat
      obtain ⟨limits, source, errors, hopened, hsome⟩ := id hat
      exact ihjoined index result cancelled hmem step body bodyInput hat
        (.enters (.opens hprepared hopened hsome))

end

/-! ## Prepared plans -/

/-- An operation or a wait of the plan, collected with what it needs. -/
def Plan.Asks (p : Plan) (a : Activation) : Prop :=
  ∃ node, p.body.At a.within node ∧ node.id = a.id ∧ node.isLeaf = true ∧
    ∀ op, node.instruction.operation? = some op → op ∈ p.body.runs ∧
      (∃ d ∈ p.package.operations, d.revision = op.operation.descriptor.revision) ∧
      ∀ r ∈ op.operation.descriptor.requiredResources, r ∈ p.resources

/-- An execution of a prepared plan, with restarts at every level, asks only operations and
waits of the plan, at their places; their contracts are in its package, and the resources they
require are those that were authorized for the plan. -/
theorem execution_collected {validator : Validator} {c : Catalog} (hc : Assembled validator c)
    {d : WorkflowDefinition} {p : Plan} (hp : prepare c d = .ok p) {given : Value}
    {answers : Answers} {result : Except StepError Value}
    (h : Executes answers (.body [] p.body given result)) :
    Executes (fun a output => answers a output ∧ p.Asks a) (.body [] p.body given result) := by
  obtain ⟨hclosed, -⟩ := prepare_closed hc.keyed hc.reports hp
  have hprepared : Execution.Prepared p.body given answers (.body [] p.body given result) := .root
  refine h.planned (fun place node hat hleaf => ?_) hprepared
  refine ⟨node, hat, rfl, hleaf, fun op hop => ?_⟩
  have hruns : op ∈ p.body.runs := ⟨place, node, hat, hop⟩
  exact ⟨hruns, hclosed.operations op hruns, hclosed.resources op hruns⟩

/-- Whether every remaining node answers, for examples. -/
def sampleAnswering (input : Value) : BTreeMap String Value → List PreparedNode → Bool
  | _, [] => true
  | outputs, node :: rest => node.isLeaf &&
      ((node.input.evaluate input outputs {}).toOption.any fun v =>
        (node.admits v {}).toOption.any fun _ => true) &&
      sampleAnswering input (outputs.insert node.id .null) rest

theorem executes_answering {place : Place} {body : PreparedBody} {input : Value}
    {outputs : BTreeMap String Value} {rest : List PreparedNode}
    (h : Executes (fun _ _ => True) (.upTo place body input outputs rest))
    (hrest : sampleAnswering input outputs rest = true) :
    ∃ outputs', Executes (fun _ _ => True) (.upTo place body input outputs' []) := by
  induction rest generalizing outputs with
  | nil => exact ⟨outputs, h⟩
  | cons node rest ih =>
    simp only [sampleAnswering, Bool.and_eq_true] at hrest
    obtain ⟨⟨hleaf, hany⟩, hrest⟩ := hrest
    obtain ⟨value, hvalue, hadmits⟩ := exists_ok hany
    obtain ⟨_, hadmits, -⟩ := exists_ok hadmits
    exact ih (.next h hvalue (.answered hleaf hadmits trivial)) hrest

/-- Whether a node calls an operation that needs the secret, for examples. -/
def samplePaying (node : PreparedNode) : Bool :=
  node.instruction.operation?.any fun op =>
    op.operation.descriptor.requiredResources.contains "secret:bank"

/-- A payment is executed to the end of its body. It asks its operation alone, whose contract is
in the package and whose secret was authorized for the plan. -/
theorem execution_collected_sample : ∃ c p, prepare c leafDefinition = .ok p ∧
    (∃ node ∈ p.body.sequence, samplePaying node = true) ∧ ∃ result,
      Executes (fun a _ => True ∧ p.Asks a) (.body [] p.body .null result) := by
  obtain ⟨c, hc, hall⟩ := sample_assembled (p := fun c =>
    (prepare c leafDefinition).toOption.any fun p =>
      p.body.sequence.any samplePaying && sampleAnswering .null ∅ p.body.sequence)
    (by decide +kernel)
  obtain ⟨p, hp, hboth⟩ := exists_ok hall
  obtain ⟨hpaying, hanswering⟩ := Bool.and_eq_true_iff.mp hboth
  obtain ⟨outputs, hwalk⟩ : ∃ outputs, Executes (fun _ _ => True)
      (.upTo [] p.body .null outputs []) := executes_answering .enters hanswering
  refine ⟨c, p, hp, List.any_eq_true.mp hpaying, ?_⟩
  cases houtput : p.body.output.evaluate .null outputs {} with
  | ok output => exact ⟨_, execution_collected hc hp (.ends hwalk houtput)⟩
  | error e => exact ⟨_, execution_collected hc hp (.outputFails hwalk houtput)⟩

end WorkflowForge.Engine
