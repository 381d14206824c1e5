import WorkflowForge.Engine.Restarts

/-!
# Executions

A body is executed node by node, and the histories of its control nodes contain the executions
of the bodies they awaited. With restarts at every level, a run ends with what its plan
prescribes.

## Main results

- `Executes.means`: executions come to what is prescribed.
- `execution_prescribed`: so does the execution of a plan.
-/

namespace WorkflowForge.Engine

open Lib

/-! ## Executions -/

/-- What workers come to. -/
inductive Execution where
  /-- A body, with the outputs of its first nodes and the nodes that remain. -/
  | upTo (place : Place) (body : PreparedBody) (input : Value)
      (outputs : BTreeMap String Value) (rest : List PreparedNode)
  | node (place : Place) (node : PreparedNode) (input : Value)
      (result : Except StepError Value)
  | body (place : Place) (body : PreparedBody) (input : Value)
      (result : Except StepError Value)

open Execution in
/-- `execute_body`, with the histories of its nodes. The history of a control node is that of
all workers that came to it, and each of the bodies they awaited has been executed in turn. -/
inductive Executes (answers : Answers) : Execution → Prop where
  | enters {place body input} : Executes answers (upTo place body input ∅ body.sequence)
  | next {limits : Limits} {place body input outputs node rest value output} :
      Executes answers (upTo place body input outputs (node :: rest)) →
      node.input.evaluate input outputs limits = .ok value →
      Executes answers (.node place node value (.ok output)) →
      Executes answers (upTo place body input (outputs.insert node.id output) rest)
  | ends {limits : Limits} {place body input outputs output} :
      Executes answers (upTo place body input outputs []) →
      body.output.evaluate input outputs limits = .ok output →
      Executes answers (.body place body input (.ok output))
  | outputFails {limits : Limits} {place body input outputs error} :
      Executes answers (upTo place body input outputs []) →
      body.output.evaluate input outputs limits = .error error →
      Executes answers (.body place body input (.error (.execution (locateOutput error))))
  | inputFails {limits : Limits} {place body input outputs node rest error} :
      Executes answers (upTo place body input outputs (node :: rest)) →
      node.input.evaluate input outputs limits = .error error →
      Executes answers (.body place body input
        (.error (.execution (locateError (node.key place) "/input" error))))
  | refused {limits : Limits} {place body input outputs node rest value error} :
      Executes answers (upTo place body input outputs (node :: rest)) →
      node.input.evaluate input outputs limits = .ok value →
      node.admits value limits = .error error →
      Executes answers (.body place body input
        (.error (.execution (locateError (node.key place) "/input" error))))
  | nodeFails {limits : Limits} {place body input outputs node rest value} {error : StepError} :
      Executes answers (upTo place body input outputs (node :: rest)) →
      node.input.evaluate input outputs limits = .ok value →
      Executes answers (.node place node value (.error error)) →
      Executes answers (.body place body input (.error error))
  /-- The scope has ended at a node without a record, whose input is not evaluated any more. -/
  | barred {place body input outputs node rest cancelled expired} {error : StepError} :
      Executes answers (upTo place body input outputs (node :: rest)) →
      planNode none cancelled expired = .error error →
      Executes answers (.body place body input (.error error))
  /-- The run could not be read. -/
  | lost {place body input outputs rest} (error : ForgeError) :
      Executes answers (upTo place body input outputs rest) →
      Executes answers (.body place body input (.error (.infrastructure error)))
  | answered {limits : Limits} {place node input output} : node.isLeaf = true →
      node.admits input limits = .ok () → answers (node.activation place) output →
      Executes answers (.node place node input (.ok output))
  | leafFails {place node input} (error : StepError) : node.isLeaf = true →
      Executes answers (.node place node input (.error error))
  | control {executes : Limits → Construct ControlPoint} {logical : String} {place node input}
      {h : NodeHistory ControlPoint} {result : Except StepError Value} :
      executor node.instruction = some executes →
      HostHistory executes logical (node.key place) input h → h.stage = .gone result →
      (∀ before step body bodyInput result after,
        h.log = before ++ .entered step body bodyInput :: .left step result :: after →
        Executes answers (.body (node.inside place step) body bodyInput result)) →
      (∀ index result cancelled, .joined index result cancelled ∈ h.log →
        ∀ step body bodyInput, node.ChildAt input index step body bodyInput →
        Executes answers (.body (node.inside place step) body bodyInput result)) →
      Executes answers (.node place node input result)

section

variable {root : PreparedBody} {given : Value} {answers : Answers}

/-- What an execution is prescribed to come to, once it is prescribed at all. -/
def Execution.Means (root : PreparedBody) (given : Value) (answers : Answers) : Execution → Prop
  | .upTo place b input outputs rest =>
    Prescribes root given answers (.entered place b input) →
    Prescribes root given answers (.reached place b input outputs rest)
  | .node place n input result => Prescribes root given answers (.active place n input) →
    Handed root given answers place n input result
  | .body place b input result => Prescribes root given answers (.entered place b input) →
    Judged (fun result => Prescribes root given answers (.ended place b input result)) result

theorem settled_of_handed {place : Place} {node : PreparedNode} {input output : Value}
    (h : Handed root given answers place node input (.ok output)) :
    Prescribes root given answers (.settled place node input (.ok output)) := by
  rcases h with h | ⟨_, h, -⟩
  · exact h
  · cases h

/-- Executions come to what is prescribed, at every level. -/
theorem Executes.means {e : Execution} (h : Executes answers e) : e.Means root given answers := by
  -- by induction on the execution; the histories of control nodes are the main case
  induction h with
  | enters => exact fun hentered => .begins hentered
  | next _ hvalue _ ih ihnode =>
    intro hentered
    have hreached := ih hentered
    exact .passes hreached hvalue (settled_of_handed (ihnode (.activates hreached hvalue)))
  | ends _ houtput ih => exact fun hentered => .finishes (ih hentered) houtput
  | outputFails _ houtput ih => exact fun hentered => .outputFails (ih hentered) houtput
  | inputFails _ hvalue ih => exact fun hentered => .inputFails (ih hentered) hvalue
  | refused _ hvalue hadmits ih => exact fun hentered => .refused (ih hentered) hvalue hadmits
  | @nodeFails _ _ _ _ _ _ _ _ error _ hvalue _ ih ihnode =>
    intro hentered
    have hreached := ih hentered
    have hhanded := ihnode (.activates hreached hvalue)
    cases error with
    | execution error =>
      rcases hhanded with hsettled | ⟨_, heq, hinterruption⟩
      · exact .nodeFails hreached hvalue hsettled
      · obtain rfl := Except.error.inj heq
        exact .interrupted hreached hinterruption
    | suspended => trivial
    | infrastructure => trivial
  | barred _ hbarred ih =>
    intro hentered
    rcases planOpen_eq_error hbarred with rfl | rfl
    · exact .interrupted (ih hentered) (interruption_of_planOpen hbarred)
    · exact .interrupted (ih hentered) (interruption_of_planOpen hbarred)
  | lost => exact fun _ => trivial
  | answered hleaf hadmits hanswer =>
    exact fun hactive => .inl (.answered hactive hleaf hadmits hanswer)
  | leafFails error hleaf =>
    intro hactive
    cases error with
    | execution error => exact .inl (.leafFails error hactive hleaf)
    | suspended => trivial
    | infrastructure => trivial
  | control hexecutor hhistory hstage _ _ ihleft ihjoined =>
    intro hactive
    obtain ⟨S⟩ := exists_sound hexecutor
    refine (Sound.holds_history (S := S) hactive hhistory ⟨?_, ?_⟩).conforms.handed _ hstage
    · intro before step body bodyInput result after hlog hchild
      exact ihleft before step body bodyInput result after hlog (.enters hchild)
    · intro index result cancelled hmem step body bodyInput hat hchild
      exact ihjoined index result cancelled hmem step body bodyInput hat (.enters hchild)

/-! ## Runs -/

/-- A plan that is executed with restarts at every level, on hosts with any limits, ends with
what it prescribes, over what its operations and waits have answered. -/
theorem execution_prescribed {result : Except StepError Value}
    (h : Executes answers (.body [] root given result)) :
    Judged (fun result => Prescribes root given answers (.ended [] root given result)) result :=
  h.means .root

end

/-- The loop whose first worker was dropped, in a plan of its own. -/
theorem sampleRepeating_executes (answers : Answers) :
    Executes answers (.node [] sampleRepeating .null (.ok .null)) := by
  refine .control rfl (sampleRepeated_history _) rfl ?_ ?_
  · intro before step body bodyInput result after hlog
    obtain ⟨rfl, rfl⟩ := sampleInterrupted_entered hlog
    have hround : sampleRound.output.evaluate bodyInput ∅ {} = .ok .null := rfl
    exact .ends .enters hround
  · intro index result cancelled hmem
    simp [sampleRepeated, sampleInterrupted] at hmem

theorem samplePlanned_executes :
    Executes (fun _ _ => False) (.body [] samplePlanned .null (.ok .null)) := by
  have hinput : sampleRepeating.input.evaluate .null ∅ {} = .ok .null := rfl
  have houtput : samplePlanned.output.evaluate .null
      ((∅ : BTreeMap String Value).insert "a" .null) {} = .ok .null := rfl
  exact .ends (.next .enters hinput (sampleRepeating_executes _)) houtput

theorem execution_prescribed_sample :
    Prescribes samplePlanned .null (fun _ _ => False) (.ended [] samplePlanned .null (.ok .null)) :=
  execution_prescribed samplePlanned_executes

end WorkflowForge.Engine
