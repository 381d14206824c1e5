import Mathlib.Data.Set.Lattice
import WorkflowForge.Engine.Counts
import WorkflowForge.Engine.Scope

/-!
# Closure of Plans

Every operation that a plan can run, at any depth, was collected by the compiler with its
resources and its revision, and the definitions of the package are the workflows that the
plan can enter.

## Main results

- `instruction_collects`, `body_collects`: what a compiled part runs is collected.
- `prepare_closed`: a prepared plan is closed.
-/

namespace WorkflowForge.Engine

open Lib

/-! ## What a plan can run -/

/-- A control construct enters a body by a step of the scope path. -/
inductive Enters : PreparedInstruction → ScopeStep → PreparedBody → Prop where
  | «try» {body : PreparedBody} {catches : List (String × String × PreparedBody)}
      {fallback : String × PreparedBody} : Enters (.try body catches fallback) .try body
  | «catch» {guarded body : PreparedBody} {catches : List (String × String × PreparedBody)}
      {fallback : String × PreparedBody} {handler code : String} :
      (handler, code, body) ∈ catches →
      Enters (.try guarded catches fallback) (.catch handler) body
  | fallback {guarded body : PreparedBody} {catches : List (String × String × PreparedBody)}
      {handler : String} : Enters (.try guarded catches (handler, body)) (.catch handler) body
  | cases {alternatives : List PreparedCase} {fallback : Option (String × PreparedBody)}
      {alternative : PreparedCase} : alternative ∈ alternatives →
      Enters (.decision alternatives fallback) (.cases alternative.id) alternative.body
  | decisionFallback {alternatives : List PreparedCase} {id : String} {body : PreparedBody} :
      Enters (.decision alternatives (some (id, body))) (.cases id) body
  | branches {bodies : List (String × PreparedBody)} {concurrency : Nat} {errors : GroupErrors}
      {label : String} {body : PreparedBody} : (label, body) ∈ bodies →
      Enters (.parallel bodies concurrency errors) (.branches label) body
  | items {items : Binding} {body : PreparedBody} {concurrency : Nat} {errors : GroupErrors}
      {index : Nat} : Enters (.foreach items body concurrency errors) (.items index) body
  | iterations {condition : Binding} {body : PreparedBody} {maxIterations : Nat}
      {onLimit : LoopLimit} {iteration : Nat} :
      Enters (.loop condition body maxIterations onLimit) (.iterations iteration) body
  | workflows {plan : Plan} :
      Enters (.subworkflow plan) (.workflows plan.definition.id plan.definition.revision) plan.body

/-- A node of a body, or of a body that is entered from there. -/
inductive PreparedBody.At : PreparedBody → List (String × ScopeStep) → PreparedNode → Prop where
  | here {body : PreparedBody} {node : PreparedNode} : node ∈ body.sequence → At body [] node
  | inside {body inner : PreparedBody} {outer node : PreparedNode} {step : ScopeStep}
      {steps : List (String × ScopeStep)} : outer ∈ body.sequence →
      Enters outer.instruction step inner → At inner steps node →
      At body ((outer.id, step) :: steps) node

/-- The operation that an instruction calls, or that a wait starts with. -/
def PreparedInstruction.operation? : PreparedInstruction → Option PreparedOperation
  | .operation op => some op
  | .awaitSignal _ _ _ (some (_, op)) => some op
  | _ => none

/-- The workflow that an instruction runs. -/
def PreparedInstruction.workflow? : PreparedInstruction → Option WorkflowRevision
  | .subworkflow plan => some plan.definition.workflowRevision
  | _ => none

/-- The operations that a body can run. -/
def PreparedBody.runs (body : PreparedBody) : Set PreparedOperation :=
  {op | ∃ steps node, body.At steps node ∧ node.instruction.operation? = some op}

/-- The workflows that a body can enter. -/
def PreparedBody.includes (body : PreparedBody) : Set WorkflowRevision :=
  {rev | ∃ steps node, body.At steps node ∧ node.instruction.workflow? = some rev}

/-- The operations that an instruction can run. -/
def PreparedInstruction.runs (instruction : PreparedInstruction) : Set PreparedOperation :=
  {op | instruction.operation? = some op ∨
    ∃ step inner, Enters instruction step inner ∧ op ∈ inner.runs}

def PreparedInstruction.includes (instruction : PreparedInstruction) : Set WorkflowRevision :=
  {rev | instruction.workflow? = some rev ∨
    ∃ step inner, Enters instruction step inner ∧ rev ∈ inner.includes}

/-- A body runs the operations of its nodes. -/
theorem PreparedBody.mem_runs {body : PreparedBody} {op : PreparedOperation} :
    op ∈ body.runs ↔ ∃ node ∈ body.sequence, op ∈ node.instruction.runs := by
  constructor
  · rintro ⟨steps, node, hat, hop⟩
    cases hat with
    | here hmem => exact ⟨node, hmem, .inl hop⟩
    | inside hmem henters hat => exact ⟨_, hmem, .inr ⟨_, _, henters, _, node, hat, hop⟩⟩
  · rintro ⟨node, hmem, hop | ⟨step, inner, henters, steps, n, hat, hop⟩⟩
    · exact ⟨[], node, .here hmem, hop⟩
    · exact ⟨_, n, .inside hmem henters hat, hop⟩

/-- It includes the workflows of its nodes. -/
theorem PreparedBody.mem_includes {body : PreparedBody} {rev : WorkflowRevision} :
    rev ∈ body.includes ↔ ∃ node ∈ body.sequence, rev ∈ node.instruction.includes := by
  constructor
  · rintro ⟨steps, node, hat, hrev⟩
    cases hat with
    | here hmem => exact ⟨node, hmem, .inl hrev⟩
    | inside hmem henters hat => exact ⟨_, hmem, .inr ⟨_, _, henters, _, node, hat, hrev⟩⟩
  · rintro ⟨node, hmem, hrev | ⟨step, inner, henters, steps, n, hat, hrev⟩⟩
    · exact ⟨[], node, .here hmem, hrev⟩
    · exact ⟨_, n, .inside hmem henters hat, hrev⟩

/-- The bodies that an instruction enters. -/
def PreparedInstruction.bodies : PreparedInstruction → List PreparedBody
  | .try body catches fallback => body :: catches.map (·.2.2) ++ [fallback.2]
  | .decision alternatives fallback =>
    alternatives.map PreparedCase.body ++ fallback.toList.map Prod.snd
  | .parallel bodies _ _ => bodies.map Prod.snd
  | .foreach _ body _ _ => [body]
  | .loop _ body _ _ => [body]
  | .subworkflow plan => [plan.body]
  | _ => []

/-- The bodies of an instruction are those that it may enter. -/
theorem mem_bodies {instruction : PreparedInstruction} {body : PreparedBody} :
    body ∈ instruction.bodies ↔ ∃ step, Enters instruction step body := by
  constructor
  · intro h
    -- each body is listed under the step that enters it
    cases instruction with
    | «try» guarded catches fallback =>
      obtain ⟨handler, last⟩ := fallback
      simp only [PreparedInstruction.bodies, List.cons_append, List.mem_cons, List.mem_append,
        List.mem_map, List.not_mem_nil, or_false] at h
      rcases h with rfl | ⟨⟨id, code, b⟩, hmem, rfl⟩ | rfl
      · exact ⟨_, .try⟩
      · exact ⟨_, .catch hmem⟩
      · exact ⟨_, .fallback⟩
    | decision alternatives fallback =>
      simp only [PreparedInstruction.bodies, List.mem_append, List.mem_map,
        Option.mem_toList] at h
      rcases h with ⟨alternative, hmem, rfl⟩ | ⟨⟨id, b⟩, rfl, rfl⟩
      · exact ⟨_, .cases hmem⟩
      · exact ⟨_, .decisionFallback⟩
    | parallel bodies concurrency errors =>
      obtain ⟨⟨label, b⟩, hmem, rfl⟩ := List.mem_map.mp h
      exact ⟨_, .branches hmem⟩
    | «foreach» items b concurrency errors =>
      obtain rfl := List.mem_singleton.mp h
      exact ⟨.items 0, .items⟩
    | loop condition b maxIterations onLimit =>
      obtain rfl := List.mem_singleton.mp h
      exact ⟨.iterations 0, .iterations⟩
    | subworkflow plan =>
      obtain rfl := List.mem_singleton.mp h
      exact ⟨_, .workflows⟩
    | _ => nomatch h
  · rintro ⟨step, h⟩
    -- and every step enters a listed body
    cases h with
    | «try» => simp [PreparedInstruction.bodies]
    | «catch» hmem =>
      exact List.mem_append_left _ (List.mem_cons_of_mem _ (List.mem_map_of_mem hmem))
    | fallback => simp [PreparedInstruction.bodies]
    | cases hmem => exact List.mem_append_left _ (List.mem_map_of_mem hmem)
    | decisionFallback => simp [PreparedInstruction.bodies]
    | branches hmem => exact List.mem_map_of_mem hmem
    | items => exact List.mem_singleton_self _
    | iterations => exact List.mem_singleton_self _
    | workflows => exact List.mem_singleton_self _

/-- An instruction runs its own operation, and those of its bodies. -/
theorem PreparedInstruction.mem_runs {instruction : PreparedInstruction}
    {op : PreparedOperation} :
    op ∈ instruction.runs ↔
      instruction.operation? = some op ∨ ∃ body ∈ instruction.bodies, op ∈ body.runs := by
  simp only [runs, Set.mem_ofPred_eq, mem_bodies]
  constructor
  · rintro (h | ⟨step, inner, henters, hop⟩)
    · exact .inl h
    · exact .inr ⟨inner, ⟨step, henters⟩, hop⟩
  · rintro (h | ⟨inner, ⟨step, henters⟩, hop⟩)
    · exact .inl h
    · exact .inr ⟨step, inner, henters, hop⟩

/-- It includes its own workflow, and those of its bodies. -/
theorem PreparedInstruction.mem_includes {instruction : PreparedInstruction}
    {rev : WorkflowRevision} :
    rev ∈ instruction.includes ↔
      instruction.workflow? = some rev ∨ ∃ body ∈ instruction.bodies, rev ∈ body.includes := by
  simp only [includes, Set.mem_ofPred_eq, mem_bodies]
  constructor
  · rintro (h | ⟨step, inner, henters, hrev⟩)
    · exact .inl h
    · exact .inr ⟨inner, ⟨step, henters⟩, hrev⟩
  · rintro (h | ⟨inner, ⟨step, henters⟩, hrev⟩)
    · exact .inl h
    · exact .inr ⟨step, inner, henters, hrev⟩

/-- What some bodies can run. -/
def runsOf (bodies : List PreparedBody) : Set PreparedOperation :=
  {op | ∃ body ∈ bodies, op ∈ body.runs}

def includesOf (bodies : List PreparedBody) : Set WorkflowRevision :=
  {rev | ∃ body ∈ bodies, rev ∈ body.includes}

@[simp] theorem runsOf_nil : runsOf [] = ∅ := by
  ext op
  simp [runsOf]

@[simp] theorem includesOf_nil : includesOf [] = ∅ := by
  ext rev
  simp [includesOf]

/-- The operations of one body more. -/
theorem runsOf_cons (body : PreparedBody) (bodies : List PreparedBody) :
    runsOf (body :: bodies) = body.runs ∪ runsOf bodies := by
  ext op
  simp [runsOf]

theorem includesOf_cons (body : PreparedBody) (bodies : List PreparedBody) :
    includesOf (body :: bodies) = body.includes ∪ includesOf bodies := by
  ext rev
  simp [includesOf]

/-- The operations of two lists of bodies are those of both. -/
theorem runsOf_append (bodies bodies' : List PreparedBody) :
    runsOf (bodies ++ bodies') = runsOf bodies ∪ runsOf bodies' := by
  ext op
  simp [runsOf, or_and_right, exists_or]

/-- So are the workflows. -/
theorem includesOf_append (bodies bodies' : List PreparedBody) :
    includesOf (bodies ++ bodies') = includesOf bodies ∪ includesOf bodies' := by
  ext rev
  simp [includesOf, or_and_right, exists_or]

/-- An instruction without an operation of its own runs what its bodies run. -/
theorem PreparedInstruction.runs_eq {instruction : PreparedInstruction}
    (h : instruction.operation? = none) : instruction.runs = runsOf instruction.bodies := by
  ext op
  rw [mem_runs, h]
  simp [runsOf]

/-- An instruction other than a subworkflow includes what its bodies include. -/
theorem PreparedInstruction.includes_eq {instruction : PreparedInstruction}
    (h : instruction.workflow? = none) : instruction.includes = includesOf instruction.bodies := by
  ext rev
  rw [mem_includes, h]
  simp [includesOf]

/-! ## Collecting -/

/-- Entries are filed under their own revisions. -/
structure Metadata.Keyed (m : Metadata) : Prop where
  operations : ∀ (k : OperationRevision) d, m.operations[k]? = some d → d.revision = k
  definitions : ∀ (k : WorkflowRevision) d, m.definitions[k]? = some d → d.workflowRevision = k

/-- A catalog files operations and workflows under their own revisions. -/
structure Catalog.Keyed (c : Catalog) : Prop where
  operations : ∀ (k : OperationRevision) op, c.operations[k]? = some op →
    op.descriptor.revision = k
  workflows : ∀ (k : WorkflowRevision) d, c.workflows[k]? = some d → d.workflowRevision = k

/-- The requirements of an operation were collected, and it may be attempted. -/
structure Metadata.Covers (m : Metadata) (op : PreparedOperation) : Prop where
  resources : ∀ r ∈ op.operation.descriptor.requiredResources, r ∈ m.resources
  operation : op.operation.descriptor.revision ∈ m.operations
  attempts : op.retry.maxAttempts ≠ 0

/-- Between two states the requirements of some operations and exactly some workflows were
collected, and nothing was lost. -/
structure Collects (m m' : Metadata) (ops : Set PreparedOperation)
    (revs : Set WorkflowRevision) : Prop where
  keyed : m.Keyed → m'.Keyed
  resources : ∀ r ∈ m.resources, r ∈ m'.resources
  operations : ∀ k ∈ m.operations, k ∈ m'.operations
  covers : ∀ op ∈ ops, m'.Covers op
  definitions : ∀ rev, rev ∈ m'.definitions ↔ rev ∈ m.definitions ∨ rev ∈ revs

namespace Collects

variable {m m' m'' : Metadata} {ops ops' : Set PreparedOperation}
  {revs revs' : Set WorkflowRevision}

/-- Nothing is collected for nothing. -/
theorem refl (m : Metadata) : Collects m m ∅ ∅ where
  keyed h := h
  resources _ h := h
  operations _ h := h
  covers _ h := nomatch h
  definitions rev := (or_iff_left (Set.notMem_empty rev)).symm

/-- What two parts collect is what both of them need. -/
theorem trans (h : Collects m m' ops revs) (h' : Collects m' m'' ops' revs') :
    Collects m m'' (ops ∪ ops') (revs ∪ revs') where
  keyed hm := h'.keyed (h.keyed hm)
  resources r hr := h'.resources r (h.resources r hr)
  operations k hk := h'.operations k (h.operations k hk)
  covers op hop := by
    rcases hop with hop | hop
    · exact ⟨fun r hr => h'.resources r ((h.covers op hop).resources r hr),
        h'.operations _ (h.covers op hop).operation, (h.covers op hop).attempts⟩
    · exact h'.covers op hop
  definitions rev := by rw [h'.definitions, h.definitions, or_assoc, Set.mem_union]

/-- The collection may be stated for fewer operations. -/
theorem congr (h : Collects m m' ops revs) (hops : ops' ⊆ ops) (hrevs : revs' = revs) :
    Collects m m' ops' revs' where
  keyed := h.keyed
  resources := h.resources
  operations := h.operations
  covers op hop := h.covers op (hops hop)
  definitions := hrevs ▸ h.definitions

end Collects

/-- What a plan can run and enter is in it. -/
structure Plan.Closed (p : Plan) : Prop where
  resources : ∀ op ∈ p.body.runs, ∀ r ∈ op.operation.descriptor.requiredResources,
    r ∈ p.resources
  operations : ∀ op ∈ p.body.runs,
    ∃ d ∈ p.package.operations, d.revision = op.operation.descriptor.revision
  attempts : ∀ op ∈ p.body.runs, op.retry.maxAttempts ≠ 0
  definitions : ∀ rev, rev ∈ p.definitions ↔
    rev = p.definition.workflowRevision ∨ rev ∈ p.body.includes
  package : p.package.definitions = BTreeMap.valueList p.definitions
  keyed : ∀ (k : WorkflowRevision) d, p.definitions[k]? = some d → d.workflowRevision = k

/-- What the parts one level deeper collect. -/
structure Compiler.Stage.Closed (deeper : Compiler.Stage) : Prop where
  inline : ∀ {b s p s'}, deeper.inline b s = (.ok p, s') →
    Collects s.metadata s'.metadata p.runs p.includes
  workflow : ∀ {d s p s'}, deeper.workflow d s = (.ok p, s') →
    p.Closed ∧ p.definition = d ∧ s'.metadata = s.metadata

namespace Compiler

section Instructions

variable {c : Catalog} {deeper : Stage} {s s' : Compiler}

/-- An operation collects its descriptor and its resources. -/
theorem operation_collects (hc : c.Keyed) {id : String} {input : Binding}
    {revision : OperationRevision} {config : Value} {retry : RetryPolicy}
    {op : PreparedOperation}
    (h : operation c id input revision config retry s = (.ok op, s')) :
    Collects s.metadata s'.metadata {op} ∅ := by
  obtain ⟨compiled, s₁, h₁, h⟩ := Stateful.bind_eq_ok.mp h
  obtain ⟨hfound, rfl⟩ := Stateful.lift_eq_ok.mp h₁
  obtain ⟨_, s₂, h₂, h⟩ := Stateful.bind_eq_ok.mp h
  obtain ⟨hretry, rfl⟩ := Stateful.lift_eq_ok.mp h₂
  obtain ⟨_, s₃, h₃, h⟩ := Stateful.bind_eq_ok.mp h
  obtain ⟨-, rfl⟩ := Stateful.lift_eq_ok.mp h₃
  have hrevision := hc.operations revision compiled (okOr_eq_ok.mp hfound)
  have hattempts : retry.maxAttempts ≠ 0 := by
    cases hvalid : RetryPolicy.validate retry c.limits.maxRetryAttempts with
    | error e =>
      rw [hvalid] at hretry
      nomatch hretry
    | ok u =>
      have hchecked := ensure_eq_ok.mp hvalid
      simp only [decide_eq_true_eq] at hchecked
      exact hchecked.1
  -- only the warnings change before the operation is collected
  have hlast : ∃ s₄ w, s₄.metadata = { s.metadata with warnings := w } ∧
      (collect (fun m => { m with
        resources := m.resources ∪ compiled.descriptor.requiredResources
        operations := m.operations.insert revision compiled.descriptor }) >>= fun _ =>
        pure { operation := compiled, config, retry }) s₄ = (.ok op, s') := by
    split at h
    · obtain ⟨_, s₄, h₄, h⟩ := Stateful.bind_eq_ok.mp h
      obtain ⟨-, rfl⟩ := Stateful.lift_eq_ok.mp h₄
      exact ⟨s, _, rfl, h⟩
    · obtain ⟨_, s₄, h₄, h⟩ := Stateful.bind_eq_ok.mp h
      exact ⟨s₄, _, collect_metadata h₄, h⟩
  obtain ⟨s₄, w, hwarned, h⟩ := hlast
  obtain ⟨_, s₅, h₅, h⟩ := Stateful.bind_eq_ok.mp h
  obtain ⟨rfl, rfl⟩ := Stateful.pure_eq_ok.mp h
  rw [collect_metadata h₅, hwarned]
  refine ⟨fun hkeyed => ⟨fun k d hd => ?_, hkeyed.definitions⟩, fun r hr => ?_, fun k hk => ?_,
    fun o ho => ?_, fun rev => (or_iff_left (Set.notMem_empty rev)).symm⟩
  · rw [BTreeMap.get_insert] at hd
    split at hd
    next heq =>
      cases hd
      exact hrevision.trans heq
    · exact hkeyed.operations k d hd
  · exact Std.ExtTreeSet.mem_union_of_left hr
  · exact Std.ExtTreeMap.mem_insert.mpr (.inr hk)
  · obtain rfl := Set.mem_singleton_iff.mp ho
    refine ⟨fun r hr => Std.ExtTreeSet.mem_union_of_right hr, ?_, hattempts⟩
    exact Std.ExtTreeMap.mem_insert.mpr (.inl (by simp [hrevision]))

/-- So does the operation that announces a signal. -/
theorem signalStart_collects (hc : c.Keyed) {id : String} {start : SignalStart}
    {r : Binding × PreparedOperation} (h : signalStart c id start s = (.ok r, s')) :
    Collects s.metadata s'.metadata {r.2} ∅ := by
  obtain ⟨_, s₁, h₁, h⟩ := Stateful.bind_eq_ok.mp h
  obtain ⟨-, rfl⟩ := Stateful.lift_eq_ok.mp h₁
  obtain ⟨_, s₂, h₂, h⟩ := Stateful.bind_eq_ok.mp h
  obtain ⟨op, s₃, h₃, h⟩ := Stateful.bind_eq_ok.mp h
  obtain ⟨rfl, rfl⟩ := Stateful.pure_eq_ok.mp h
  rw [← charge_metadata h₂]
  exact operation_collects hc (Stateful.mapError_eq_ok.mp h₃)

/-- A plan of its own is merged into what its caller collects. -/
theorem subworkflow_collects {child : Plan} (hchild : child.Closed) (m : Metadata) :
    Collects m
      { resources := m.resources ∪ child.resources
        warnings := m.warnings ++ child.warnings
        definitions := m.definitions ∪ child.definitions
        operations := child.package.operations.foldl (fun o d => o.insert d.revision d)
          m.operations }
      (PreparedInstruction.subworkflow child).runs
      (PreparedInstruction.subworkflow child).includes := by
  -- by induction on the descriptors: the fold adds their revisions and keeps the keys
  have hops : ∀ (ds : List OperationDescriptor)
      (o : BTreeMap OperationRevision OperationDescriptor),
      (∀ k, k ∈ ds.foldl (fun o d => o.insert d.revision d) o ↔
        k ∈ o ∨ ∃ d ∈ ds, d.revision = k) ∧
      ((∀ (k : OperationRevision) d, o[k]? = some d → d.revision = k) →
        ∀ (k : OperationRevision) d,
          (ds.foldl (fun o d => o.insert d.revision d) o)[k]? = some d → d.revision = k) := by
    intro ds
    induction ds with
    | nil => simp
    | cons d ds ih =>
      intro o
      obtain ⟨hmem, hkeyed⟩ := ih (o.insert d.revision d)
      refine ⟨fun k => ?_, fun ho => hkeyed fun k d' hd' => ?_⟩
      · rw [List.foldl_cons, hmem, Std.ExtTreeMap.mem_insert]
        simp [or_assoc, or_left_comm]
      · rw [BTreeMap.get_insert] at hd'
        split at hd'
        next heq =>
          cases hd'
          exact heq
        · exact ho k d' hd'
  have hruns : (PreparedInstruction.subworkflow child).runs = child.body.runs := by
    rw [PreparedInstruction.runs_eq rfl]
    simp [PreparedInstruction.bodies, runsOf_cons]
  refine ⟨fun hm => ⟨(hops _ _).2 hm.operations, fun k d hk => ?_⟩, fun r hr => ?_,
    fun k hk => ((hops _ _).1 k).mpr (.inl hk), fun op hop => ?_, fun rev => ?_⟩
  -- a definition of the child or of the caller
  · rw [Std.ExtTreeMap.getElem?_union, Option.or_eq_some_iff] at hk
    rcases hk with hk | ⟨-, hk⟩
    · exact hchild.keyed k d hk
    · exact hm.definitions k d hk
  · exact Std.ExtTreeSet.mem_union_of_left hr
  · rw [hruns] at hop
    refine ⟨fun r hr => Std.ExtTreeSet.mem_union_of_right (hchild.resources op hop r hr), ?_,
      hchild.attempts op hop⟩
    exact ((hops _ _).1 _).mpr (.inr (hchild.operations op hop))
  · rw [Std.ExtTreeMap.mem_union_iff, hchild.definitions, PreparedInstruction.mem_includes]
    simp [PreparedInstruction.workflow?, PreparedInstruction.bodies, eq_comm]

variable (hd : deeper.Closed)
include hd

/-- Handlers collect what their bodies need. -/
theorem catches_collects {cases : List ErrorCase} {ids codes : List String} {s s' : Compiler}
    {r : List (String × String × PreparedBody)}
    (h : catches deeper ids codes cases s = (.ok r, s')) :
    Collects s.metadata s'.metadata (runsOf (r.map (·.2.2))) (includesOf (r.map (·.2.2))) := by
  induction cases generalizing ids codes s r with
  | nil =>
    obtain ⟨rfl, rfl⟩ := Stateful.pure_eq_ok.mp h
    simpa using Collects.refl s.metadata
  | cons case cases ih =>
    obtain ⟨id, code, body⟩ := case
    obtain ⟨_, s₁, h₁, h⟩ := Stateful.bind_eq_ok.mp h
    obtain ⟨-, rfl⟩ := Stateful.lift_eq_ok.mp h₁
    obtain ⟨compiled, s₂, h₂, h⟩ := Stateful.bind_eq_ok.mp h
    obtain ⟨rest, s₃, h₃, h⟩ := Stateful.bind_eq_ok.mp h
    obtain ⟨rfl, rfl⟩ := Stateful.pure_eq_ok.mp h
    rw [List.map_cons, runsOf_cons, includesOf_cons]
    exact (hd.inline h₂).trans (ih h₃)

/-- So do cases. -/
theorem cases_collects {alternatives : List DecisionCase} {ids : List String} {s s' : Compiler}
    {r : List PreparedCase} (h : cases c deeper ids alternatives s = (.ok r, s')) :
    Collects s.metadata s'.metadata (runsOf (r.map PreparedCase.body))
      (includesOf (r.map PreparedCase.body)) := by
  induction alternatives generalizing ids s r with
  | nil =>
    obtain ⟨rfl, rfl⟩ := Stateful.pure_eq_ok.mp h
    simpa using Collects.refl s.metadata
  | cons alternative alternatives ih =>
    obtain ⟨id, condition, body⟩ := alternative
    obtain ⟨_, s₁, h₁, h⟩ := Stateful.bind_eq_ok.mp h
    obtain ⟨-, rfl⟩ := Stateful.lift_eq_ok.mp h₁
    obtain ⟨_, s₂, h₂, h⟩ := Stateful.bind_eq_ok.mp h
    obtain ⟨-, rfl⟩ := Stateful.lift_eq_ok.mp h₂
    obtain ⟨compiled, s₃, h₃, h⟩ := Stateful.bind_eq_ok.mp h
    obtain ⟨rest, s₄, h₄, h⟩ := Stateful.bind_eq_ok.mp h
    obtain ⟨rfl, rfl⟩ := Stateful.pure_eq_ok.mp h
    rw [List.map_cons, runsOf_cons, includesOf_cons]
    exact (hd.inline h₃).trans (ih h₄)

/-- And branches. -/
theorem branches_collects {bodies : List (String × BodyDefinition)} {s s' : Compiler}
    {r : List (String × PreparedBody)} (h : branches deeper bodies s = (.ok r, s')) :
    Collects s.metadata s'.metadata (runsOf (r.map Prod.snd)) (includesOf (r.map Prod.snd)) := by
  induction bodies generalizing s r with
  | nil =>
    obtain ⟨rfl, rfl⟩ := Stateful.pure_eq_ok.mp h
    simpa using Collects.refl s.metadata
  | cons branch bodies ih =>
    obtain ⟨id, body⟩ := branch
    obtain ⟨compiled, s₁, h₁, h⟩ := Stateful.bind_eq_ok.mp h
    obtain ⟨rest, s₂, h₂, h⟩ := Stateful.bind_eq_ok.mp h
    obtain ⟨rfl, rfl⟩ := Stateful.pure_eq_ok.mp h
    rw [List.map_cons, runsOf_cons, includesOf_cons]
    exact (hd.inline h₁).trans (ih h₂)

/-- And the fallback of a decision. -/
theorem decisionFallback_collects {ids : List String} {fallback : Option FallbackCase}
    {r : Option (String × PreparedBody)}
    (h : decisionFallback deeper ids fallback s = (.ok r, s')) :
    Collects s.metadata s'.metadata (runsOf (r.toList.map Prod.snd))
      (includesOf (r.toList.map Prod.snd)) := by
  cases fallback with
  | none =>
    obtain ⟨rfl, rfl⟩ := Stateful.pure_eq_ok.mp h
    simpa using Collects.refl s.metadata
  | some fallback =>
    obtain ⟨id, body⟩ := fallback
    obtain ⟨_, s₁, h₁, h⟩ := Stateful.bind_eq_ok.mp h
    obtain ⟨-, rfl⟩ := Stateful.lift_eq_ok.mp h₁
    obtain ⟨compiled, s₂, h₂, h⟩ := Stateful.bind_eq_ok.mp h
    obtain ⟨rfl, rfl⟩ := Stateful.pure_eq_ok.mp h
    simpa [runsOf_cons, includesOf_cons] using hd.inline h₂

/-- What a compiled instruction runs and enters is collected. -/
theorem instruction_collects (hc : c.Keyed) {node : NodeDefinition} {i : PreparedInstruction}
    (h : instruction c deeper node s = (.ok i, s')) :
    Collects s.metadata s'.metadata i.runs i.includes := by
  obtain ⟨id, input, definition⟩ := node
  unfold instruction at h
  cases definition with
  -- the guarded body, the handlers and the fallback are compiled in place, one after the other
  | «try» body handlers fallback =>
    obtain ⟨_, s₁, h₁, h⟩ := Stateful.bind_eq_ok.mp h
    obtain ⟨-, rfl⟩ := Stateful.lift_eq_ok.mp h₁
    obtain ⟨compiled, s₂, h₂, h⟩ := Stateful.bind_eq_ok.mp h
    obtain ⟨catches, s₃, h₃, h⟩ := Stateful.bind_eq_ok.mp h
    obtain ⟨handler, s₄, h₄, h⟩ := Stateful.bind_eq_ok.mp h
    obtain ⟨rfl, rfl⟩ := Stateful.pure_eq_ok.mp h
    rw [PreparedInstruction.runs_eq rfl, PreparedInstruction.includes_eq rfl]
    simp only [PreparedInstruction.bodies, List.cons_append, runsOf_cons, includesOf_cons,
      runsOf_append, includesOf_append, runsOf_nil, includesOf_nil, Set.union_empty]
    exact (hd.inline h₂).trans ((catches_collects hd h₃).trans (hd.inline h₄))
  -- nothing is run and nothing is entered
  | timer durationMs =>
    obtain ⟨_, s₁, h₁, h⟩ := Stateful.bind_eq_ok.mp h
    obtain ⟨-, rfl⟩ := Stateful.lift_eq_ok.mp h₁
    obtain ⟨rfl, rfl⟩ := Stateful.pure_eq_ok.mp h
    rw [PreparedInstruction.runs_eq rfl, PreparedInstruction.includes_eq rfl]
    simpa [PreparedInstruction.bodies] using Collects.refl s.metadata
  | awaitSignal correlation timeoutMs payloadSchema start =>
    obtain ⟨_, s₁, h₁, h⟩ := Stateful.bind_eq_ok.mp h
    obtain ⟨-, rfl⟩ := Stateful.lift_eq_ok.mp h₁
    obtain ⟨_, s₂, h₂, h⟩ := Stateful.bind_eq_ok.mp h
    obtain ⟨-, rfl⟩ := Stateful.lift_eq_ok.mp h₂
    obtain ⟨_, s₃, h₃, h⟩ := Stateful.bind_eq_ok.mp h
    obtain ⟨-, rfl⟩ := Stateful.lift_eq_ok.mp h₃
    obtain ⟨_, s₄, h₄, h⟩ := Stateful.bind_eq_ok.mp h
    obtain ⟨-, rfl⟩ := Stateful.lift_eq_ok.mp h₄
    cases start with
    | none =>
      obtain ⟨rfl, rfl⟩ := Stateful.pure_eq_ok.mp h
      rw [PreparedInstruction.runs_eq rfl, PreparedInstruction.includes_eq rfl]
      simpa [PreparedInstruction.bodies] using Collects.refl s.metadata
    -- the start of a wait is its only operation
    | some start =>
      obtain ⟨r, s₅, h₅, h⟩ := Stateful.bind_eq_ok.mp h
      obtain ⟨rfl, rfl⟩ := Stateful.pure_eq_ok.mp h
      refine (signalStart_collects hc h₅).congr ?_ ?_
      · intro o ho
        rw [PreparedInstruction.mem_runs] at ho
        simpa [PreparedInstruction.operation?, PreparedInstruction.bodies, eq_comm] using ho
      · rw [PreparedInstruction.includes_eq rfl]
        simp [PreparedInstruction.bodies]
  -- one operation, no body
  | operation revision config retry =>
    obtain ⟨op, s₁, h₁, h⟩ := Stateful.bind_eq_ok.mp h
    obtain ⟨rfl, rfl⟩ := Stateful.pure_eq_ok.mp h
    refine (operation_collects hc h₁).congr ?_ ?_
    · intro o ho
      rw [PreparedInstruction.mem_runs] at ho
      simpa [PreparedInstruction.operation?, PreparedInstruction.bodies, eq_comm] using ho
    · rw [PreparedInstruction.includes_eq rfl]
      simp [PreparedInstruction.bodies]
  -- every alternative and the fallback may be entered
  | decision alternatives fallback =>
    obtain ⟨_, s₁, h₁, h⟩ := Stateful.bind_eq_ok.mp h
    obtain ⟨-, rfl⟩ := Stateful.lift_eq_ok.mp h₁
    obtain ⟨compiled, s₂, h₂, h⟩ := Stateful.bind_eq_ok.mp h
    obtain ⟨fallback, s₃, h₃, h⟩ := Stateful.bind_eq_ok.mp h
    obtain ⟨rfl, rfl⟩ := Stateful.pure_eq_ok.mp h
    rw [PreparedInstruction.runs_eq rfl, PreparedInstruction.includes_eq rfl]
    simp only [PreparedInstruction.bodies, runsOf_append, includesOf_append]
    exact (cases_collects hd h₂).trans (decisionFallback_collects hd h₃)
  | parallel bodies concurrency errors join =>
    cases join with
    | all =>
      obtain ⟨_, s₁, h₁, h⟩ := Stateful.bind_eq_ok.mp h
      obtain ⟨-, rfl⟩ := Stateful.lift_eq_ok.mp h₁
      obtain ⟨_, s₂, h₂, h⟩ := Stateful.bind_eq_ok.mp h
      obtain ⟨-, rfl⟩ := Stateful.lift_eq_ok.mp h₂
      obtain ⟨compiled, s₃, h₃, h⟩ := Stateful.bind_eq_ok.mp h
      obtain ⟨rfl, rfl⟩ := Stateful.pure_eq_ok.mp h
      rw [PreparedInstruction.runs_eq rfl, PreparedInstruction.includes_eq rfl]
      exact branches_collects hd h₃
  | «foreach» items body concurrency errors =>
    obtain ⟨_, s₁, h₁, h⟩ := Stateful.bind_eq_ok.mp h
    obtain ⟨-, rfl⟩ := Stateful.lift_eq_ok.mp h₁
    obtain ⟨_, s₂, h₂, h⟩ := Stateful.bind_eq_ok.mp h
    obtain ⟨-, rfl⟩ := Stateful.lift_eq_ok.mp h₂
    obtain ⟨_, s₃, h₃, h⟩ := Stateful.bind_eq_ok.mp h
    obtain ⟨-, rfl⟩ := Stateful.lift_eq_ok.mp h₃
    obtain ⟨compiled, s₄, h₄, h⟩ := Stateful.bind_eq_ok.mp h
    obtain ⟨rfl, rfl⟩ := Stateful.pure_eq_ok.mp h
    rw [PreparedInstruction.runs_eq rfl, PreparedInstruction.includes_eq rfl]
    simpa [PreparedInstruction.bodies, runsOf_cons, includesOf_cons] using hd.inline h₄
  | loop condition body maxIterations onLimit =>
    obtain ⟨_, s₁, h₁, h⟩ := Stateful.bind_eq_ok.mp h
    obtain ⟨-, rfl⟩ := Stateful.lift_eq_ok.mp h₁
    obtain ⟨_, s₂, h₂, h⟩ := Stateful.bind_eq_ok.mp h
    obtain ⟨-, rfl⟩ := Stateful.lift_eq_ok.mp h₂
    obtain ⟨compiled, s₃, h₃, h⟩ := Stateful.bind_eq_ok.mp h
    obtain ⟨rfl, rfl⟩ := Stateful.pure_eq_ok.mp h
    rw [PreparedInstruction.runs_eq rfl, PreparedInstruction.includes_eq rfl]
    simpa [PreparedInstruction.bodies, runsOf_cons, includesOf_cons] using hd.inline h₃
  -- the child has a plan of its own, merged after it is compiled
  | subworkflow workflow =>
    obtain ⟨definition, s₁, h₁, h⟩ := Stateful.bind_eq_ok.mp h
    obtain ⟨-, rfl⟩ := Stateful.lift_eq_ok.mp h₁
    obtain ⟨child, s₂, h₂, h⟩ := Stateful.bind_eq_ok.mp h
    obtain ⟨_, s₃, h₃, h⟩ := Stateful.bind_eq_ok.mp h
    obtain ⟨-, rfl⟩ := Stateful.lift_eq_ok.mp h₃
    obtain ⟨_, s₄, h₄, h⟩ := Stateful.bind_eq_ok.mp h
    obtain ⟨rfl, rfl⟩ := Stateful.pure_eq_ok.mp h
    obtain ⟨hchild, -, hmetadata⟩ := hd.workflow h₂
    rw [collect_metadata h₄, hmetadata]
    exact subworkflow_collects hchild s.metadata

end Instructions

section Bodies

variable {c : Catalog} {deeper : Stage} (hkeyed : c.Keyed) (hc : c.Reports)
  (ht : deeper.Tamed) (hd : deeper.Closed)
include hkeyed hc ht hd

/-- The nodes of a body collect one after the other. -/
theorem compileNodes_collects {available : BTreeSet String} {nodes : List NodeDefinition}
    {sequence : List PreparedNode} {s s' : Compiler}
    (h : compileNodes c deeper available nodes s = (.ok (sequence, []), s')) :
    Collects s.metadata s'.metadata {op | ∃ node ∈ sequence, op ∈ node.instruction.runs}
      {rev | ∃ node ∈ sequence, rev ∈ node.instruction.includes} := by
  induction nodes generalizing available sequence s with
  | nil =>
    obtain ⟨heq, rfl⟩ := Stateful.pure_eq_ok.mp h
    obtain ⟨rfl, -⟩ := Prod.mk.inj heq
    simpa [Set.ofPred_false] using Collects.refl s.metadata
  -- what the first node collects, then what the rest does
  | cons node nodes ih =>
    obtain ⟨i, rest, s₁, s₂, h₁, h₂, -, h₃, rfl⟩ := compileNodes_cons_eq_ok ht hc h
    have hnode := instruction_collects hd hkeyed h₂
    rw [spend_metadata h₁] at hnode
    refine (hnode.trans (ih h₃)).congr ?_ ?_
    · rintro op ⟨n, hn, hop⟩
      rcases List.mem_cons.mp hn with rfl | hn
      · exact .inl hop
      · exact .inr ⟨n, hn, hop⟩
    · ext rev
      simp

/-- A body collects what its nodes need. -/
theorem body_collects {b : BodyDefinition} {p : PreparedBody} {s s' : Compiler}
    (h : body c deeper b s = (.ok p, s')) :
    Collects s.metadata s'.metadata p.runs p.includes := by
  obtain ⟨order, s₁, h₁, -, h₂, -, -⟩ := body_eq_ok h
  have hnodes := compileNodes_collects hkeyed hc ht hd h₂
  rw [charge_metadata h₁] at hnodes
  refine hnodes.congr (fun op hop => PreparedBody.mem_runs.mp hop) ?_
  ext rev
  exact PreparedBody.mem_includes

end Bodies

section Workflows

variable {c : Catalog} {compileBody : BodyDefinition → CompileM PreparedBody}

/-- A compiled workflow is closed if its body is collected. -/
theorem workflow_closed
    (hbody : ∀ {b p s s'}, compileBody b s = (.ok p, s') →
      Collects s.metadata s'.metadata p.runs p.includes)
    {d : WorkflowDefinition} {p : Plan} {s s' : Compiler}
    (h : workflow c compileBody d s = (.ok p, s')) :
    p.Closed ∧ p.definition = d ∧ s'.metadata = s.metadata := by
  obtain ⟨-, -, s₁, hparts, rfl⟩ := workflow_eq_ok h
  obtain ⟨s₂, s₃, m, hspend, -, -, hcompiled, rfl, -, -, -, hp⟩ := parts_eq_ok hparts
  have hcollects := hbody hcompiled
  rw [spend_metadata hspend] at hcollects
  have hempty : (({} : Metadata).Keyed) :=
    ⟨fun k d hd => by simp at hd, fun k d hd => by simp at hd⟩
  have hkeyed := hcollects.keyed hempty
  rw [hp]
  refine ⟨⟨fun op hop r hr => (hcollects.covers op hop).resources r hr, fun op hop => ?_,
    fun op hop => (hcollects.covers op hop).attempts, fun rev => ?_, rfl, fun k d' hd' => ?_⟩,
    rfl, rfl⟩
  · -- an operation is filed under its own revision
    have hmem := (hcollects.covers op hop).operation
    have hget := Std.ExtTreeMap.getElem?_eq_some_getElem hmem
    exact ⟨_, BTreeMap.mem_valueList.mpr ⟨_, hget⟩, hkeyed.operations _ _ hget⟩
  -- the definitions are those of the subworkflows and the workflow's own
  · have hdefinitions := hcollects.definitions rev
    rw [or_iff_right Std.ExtTreeMap.not_mem_empty] at hdefinitions
    refine Std.ExtTreeMap.mem_insert.trans ?_
    rw [hdefinitions, Std.LawfulEqOrd.compare_eq_iff_eq, eq_comm]
  · rw [BTreeMap.get_insert] at hd'
    split at hd'
    next heq =>
      cases hd'
      exact heq
    · exact hkeyed.definitions k d' hd'

/-- What is compiled at any level of nesting is collected and closed. -/
theorem stage_closed (hkeyed : c.Keyed) (hc : c.Reports) (remaining : Nat) :
    (stage c remaining).Closed := by
  induction remaining with
  | zero => exact ⟨fun h => (nomatch h), fun h => (nomatch h)⟩
  | succ remaining ih =>
    have hbody : ∀ {b p s s'}, body c (stage c remaining) b s = (.ok p, s') →
        Collects s.metadata s'.metadata p.runs p.includes :=
      body_collects hkeyed hc (stage_tame hc remaining) ih
    exact ⟨hbody, workflow_closed hbody⟩

end Workflows

end Compiler

/-- A prepared plan contains what it can run and enter. -/
theorem prepare_closed {c : Catalog} (hkeyed : c.Keyed) (hc : c.Reports)
    {d : WorkflowDefinition} {p : Plan} (h : prepare c d = .ok p) :
    p.Closed ∧ p.definition = d := by
  have hcompile : compile c d = (.ok p, (compile c d).2) := Prod.ext h rfl
  have hclosed := (Compiler.stage_closed hkeyed hc (c.limits.controlDepth + 1)).workflow hcompile
  exact ⟨hclosed.1, hclosed.2.1⟩

end WorkflowForge.Engine
