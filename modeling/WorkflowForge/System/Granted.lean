import WorkflowForge.Engine.Assembly
import WorkflowForge.Engine.Recovery
import WorkflowForge.System.Dispatch
import WorkflowForge.System.Successor

/-!
# Granted Resources

A run is started under a plan whose resources its caller was granted, and after a restart it
is worked on under the plan that recovery answers for its snapshot. A plan is closed, so
nothing is ever dispatched that needs more.

## Main results

- `Lives.granted`: what is dispatched in a run was granted to its starter.
- `plan_closed`: a prepared plan with the workflows it can enter and the runs it serves.
-/

namespace WorkflowForge.Run

open Lib Engine

variable {access : AccessContext} {root p : Engine.Plan} {w w' : World}

/-- The operations of the nodes of a run are those of a body. -/
def Setup.Runs (s : Setup) (body : PreparedBody) : Prop :=
  ∀ (key : String) (op : PreparedOperation), s.operation key = some op → op ∈ body.runs

/-- A run of a plan from its start by a caller, with the plan it is worked on under now: the
plan it was started with, or one that was recovered from its snapshot. -/
inductive Lives (access : AccessContext) (root : Engine.Plan) : Engine.Plan → World → Prop where
  | started {validator : Validator} {c : Catalog} {d : WorkflowDefinition} {owner : String}
      {phase : Phase} {request : StartRunRequest} {artifacts : List ArtifactRef} {now : UInt64}
      {id : RunId} {w : World} :
      Assembled validator c → prepare c d = .ok root → request.plan = root.prepared →
      checkStart c.composition owner phase access request = .ok artifacts →
      w.run = acceptedRun c.limits access request artifacts now id → w.log = [] →
      Lives access root root w
  | step {p : Engine.Plan} {s : Setup} {a : Action} {w w' : World} :
      Lives access root p w → s.Runs p.body → w.step s a = some w' → Lives access root p w'
  | recovered {validator : Validator} {c : Catalog} {p p' : Engine.Plan} {w : World} :
      Lives access root p w → Assembled validator c → recover c w.run = .ok p' →
      Lives access root p' w

/-- The caller was granted everything that an operation needs. -/
def Grants (access : AccessContext) (op : PreparedOperation) : Prop :=
  ∀ r ∈ op.operation.descriptor.requiredResources, access.permitsResource r = true

theorem step_resources {s : Setup} {a : Action} (h : w.step s a = some w') :
    w'.run.resources = w.run.resources := by
  rcases step_run h with ⟨hrun, -⟩ | ⟨edited, revision, hedit, -, hrun, -⟩
  · rw [hrun]
  · rw [hrun]
    exact hedit.framed.resources.symm

theorem checkStart_authorized {c : Composition} {owner : String} {phase : Phase}
    {request : StartRunRequest} {artifacts : List ArtifactRef}
    (h : checkStart c owner phase access request = .ok artifacts) :
    ∀ r ∈ request.plan.resources, access.permitsResource r = true := by
  obtain ⟨_, -, h⟩ := bind_eq_ok.mp h
  obtain ⟨_, -, h⟩ := bind_eq_ok.mp h
  obtain ⟨_, hauthorized, -⟩ := bind_eq_ok.mp h
  intro r hr
  exact List.all_eq_true.mp (ensure_eq_ok.mp hauthorized) r (Std.ExtTreeSet.mem_toList.mpr hr)

/-- A run keeps the grants of its starter, and a plan it is worked on under needs no more. -/
structure Served (access : AccessContext) (p : Engine.Plan) (w : World) : Prop where
  resources : w.run.resources = access.resources
  plan : ∀ op ∈ p.body.runs, Grants access op
  dispatched : ∀ (key : String) (invocation : Invocation), .called key invocation ∈ w.log →
    ∃ record op, invocation = command record op ∧ Grants access op

theorem Lives.served (h : Lives access root p w) : Served access p w := by
  induction h with
  | started hc hp hplan hcheck hrun hlog =>
    have hclosed := (prepare_closed hc.keyed hc.reports hp).1
    refine ⟨hrun ▸ rfl, fun op hop r hr => ?_, fun key invocation h => ?_⟩
    · have hauthorized := checkStart_authorized hcheck r
      rw [hplan] at hauthorized
      exact hauthorized (hclosed.resources op hop r hr)
    · rw [hlog] at h
      nomatch h
  | step _ hruns hstep ih =>
    refine ⟨(step_resources hstep).trans ih.resources, ih.plan, fun key invocation h => ?_⟩
    -- a step logs nothing, something else, or one call
    rcases step_calls hstep key with ⟨hlog, -⟩ | ⟨e, hlog, he, -⟩ | ⟨op, record, -, hop, -, hlog⟩
    · exact ih.dispatched key invocation (hlog ▸ h)
    · exact ih.dispatched key invocation (mem_of_callOf_none he (hlog ▸ h))
    · -- a call is that of an operation of the plan
      rw [hlog] at h
      rcases List.mem_cons.mp h with heq | h
      · cases heq
        exact ⟨record, op, rfl, ih.plan op (hruns key op hop)⟩
      · exact ih.dispatched key invocation h
  | recovered _ hc hrecover ih =>
    -- the plan is compiled again from the package of the run
    obtain ⟨hclosed, -, hgranted⟩ := recover_closed hc.reports hrecover
    refine ⟨ih.resources, fun op hop r hr => ?_, ih.dispatched⟩
    have h := hgranted r (hclosed.resources op hop r hr)
    rw [ih.resources] at h
    simpa [AccessContext.permitsResource] using h

/-- The revisions of definitions that are filed under their own. -/
theorem revisions_valueList {m : BTreeMap WorkflowRevision WorkflowDefinition}
    (h : ∀ (k : WorkflowRevision) d, m[k]? = some d → d.workflowRevision = k) :
    (BTreeMap.valueList m).map WorkflowDefinition.workflowRevision = m.keys := by
  rw [BTreeMap.valueList, List.map_map, ← Std.ExtTreeMap.map_fst_toList_eq_keys]
  refine List.map_congr_left fun e he => ?_
  exact h e.1 e.2 (Std.ExtTreeMap.mem_toList_iff_getElem?_eq_some.mp he)

/-- What a prepared plan can run was collected with its resources and its revision, its
package names the workflows that it can enter, each once, and in every run of the plan only
operations are dispatched whose resources the starter was granted. -/
theorem plan_closed {validator : Validator} {c : Catalog} (hc : Assembled validator c)
    {d : WorkflowDefinition} (h : prepare c d = .ok root) :
    (∀ op ∈ root.body.runs,
      (∀ r ∈ op.operation.descriptor.requiredResources, r ∈ root.resources) ∧
        ∃ d ∈ root.package.operations, d.revision = op.operation.descriptor.revision) ∧
    ((root.package.definitions.map WorkflowDefinition.workflowRevision).Nodup ∧
      ∀ rev, rev ∈ root.package.definitions.map WorkflowDefinition.workflowRevision ↔
        rev = d.workflowRevision ∨ rev ∈ root.body.includes) ∧
    ∀ access p w, Lives access root p w → (∀ op ∈ p.body.runs, Grants access op) ∧
      ∀ (key : String) (invocation : Invocation), .called key invocation ∈ w.log →
        ∃ record op, invocation = command record op ∧ Grants access op := by
  obtain ⟨hclosed, rfl⟩ := prepare_closed hc.keyed hc.reports h
  refine ⟨fun op hop => ⟨hclosed.resources op hop, hclosed.operations op hop⟩, ?_,
    fun access p w hw => ⟨hw.served.plan, hw.served.dispatched⟩⟩
  rw [hclosed.package, revisions_valueList hclosed.keyed]
  refine ⟨Std.ExtTreeMap.nodup_keys, fun rev => ?_⟩
  rw [Std.ExtTreeMap.mem_keys, hclosed.definitions]

/-- A payment in a workflow of its own needs no more than the secret of its plan. -/
theorem plan_closed_sample : ∃ root : Engine.Plan,
    root.resources.toList = ["secret:bank"] ∧
      ∀ op ∈ root.body.runs, ∀ r ∈ op.operation.descriptor.requiredResources,
        r = "secret:bank" := by
  obtain ⟨c, hc, hall⟩ := sample_assembled (p := fun c =>
    (prepare c mainDefinition).toOption.any fun p => p.resources.toList = ["secret:bank"])
    (by decide +kernel)
  obtain ⟨root, h, hresources⟩ := exists_ok hall
  have hresources := of_decide_eq_true hresources
  refine ⟨root, hresources, fun op hop r hr => ?_⟩
  have hmem := Std.ExtTreeSet.mem_toList.mpr (((plan_closed hc h).1 op hop).1 r hr)
  rw [hresources] at hmem
  exact List.mem_singleton.mp hmem

end WorkflowForge.Run
