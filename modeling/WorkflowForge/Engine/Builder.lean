import WorkflowForge.Engine.Compiler

/-!
# Registration

What a host registers before it builds a composition. A call stages everything it was given
and changes the registry only when all of it is accepted. Whether an identity is an absolute
URI is decided by a library.

## Main results

- `Registered.identified`: the root identifier of a registered schema is its own URI.
-/

namespace WorkflowForge.Engine

open Lib

/-! ## Schema resources -/

/-- A member of an object document. -/
def member (v : Value) (name : String) : Option Value :=
  (members v).bind fun ms => ms.lookup name

/-- What a call has staged so far, with the bytes of it. -/
structure StagedSchemas where
  staged : BTreeMap String SchemaResource := ∅
  bytes : Nat := 0

def stageSchema (absolute : String → Bool) (limits : Limits)
    (registered : BTreeMap String SchemaResource) (s : StagedSchemas)
    (resource : SchemaResource) : Except ForgeError StagedSchemas := do
  ensure (!(resource.revision = "" || !absolute resource.uri || resource.uri.toList.contains '#' ||
      registered.contains resource.uri || s.staged.contains resource.uri))
    (.new "state.conflict" "Schema identities must be absolute, versioned and unique")
  let _ ← checkValue resource.schema limits.documentBytes limits.jsonDepth
  ensure ((member resource.schema "$id").all fun id => id.asStr = some resource.uri)
    (.new "schema.invalid" "Schema resource ID does not match its registered URI")
  return {
    staged := s.staged.insert resource.uri resource
    bytes := s.bytes + jsonBytes resource }

def registerSchemas (absolute : String → Bool) (limits : Limits)
    (registered : BTreeMap String SchemaResource) (resources : List SchemaResource) :
    Except ForgeError (BTreeMap String SchemaResource) := do
  let s ← resources.foldlM (stageSchema absolute limits registered) {}
  ensure (s.bytes ≤ limits.documentBytes &&
      s.staged.size + registered.size ≤ limits.schemaResources)
    (.new "schema.invalid" "Schema package exceeds limits")
  return registered ∪ s.staged

/-- The resources that some sequence of accepted calls registered, each under the limits of
its time. -/
inductive Registered (absolute : String → Bool) : BTreeMap String SchemaResource → Prop where
  | empty : Registered absolute ∅
  | call {limits : Limits} {registered registered' : BTreeMap String SchemaResource}
      {resources : List SchemaResource} :
      Registered absolute registered →
      registerSchemas absolute limits registered resources = .ok registered' →
      Registered absolute registered'

/-- A resource under its own URI, with no root identifier or with that URI as its own. -/
def Identified (uri : String) (resource : SchemaResource) : Prop :=
  resource.uri = uri ∧ resource.revision ≠ "" ∧
    ∀ id, member resource.schema "$id" = some id → id = .string uri

theorem asStr_eq_some {v : Value} {s : String} (h : v.asStr = some s) : v = .string s := by
  cases v with
  | string t => exact congrArg Value.string (Option.some.inj h)
  | _ => nomatch h

theorem stageSchema_identified {absolute : String → Bool} {limits : Limits}
    {registered : BTreeMap String SchemaResource} {s s' : StagedSchemas}
    {resource : SchemaResource}
    (h : stageSchema absolute limits registered s resource = .ok s')
    (hs : ∀ uri r, s.staged[uri]? = some r → Identified uri r) :
    ∀ uri r, s'.staged[uri]? = some r → Identified uri r := by
  obtain ⟨_, hfresh, h⟩ := bind_eq_ok.mp h
  obtain ⟨_, -, h⟩ := bind_eq_ok.mp h
  obtain ⟨_, hid, h⟩ := bind_eq_ok.mp h
  cases h
  have hfresh := ensure_eq_ok.mp hfresh
  have hid := ensure_eq_ok.mp hid
  intro uri r hr
  rw [BTreeMap.get_insert] at hr
  split at hr
  -- the resource that is staged now, checked just before
  next heq =>
    cases hr
    subst heq
    refine ⟨rfl, fun hrev => ?_, fun id hmember => ?_⟩
    · simp [hrev] at hfresh
    · rw [hmember] at hid
      exact asStr_eq_some (by simpa using hid)
  · exact hs uri r hr

/-- The root identifier of a registered schema is its own URI. -/
theorem Registered.identified {absolute : String → Bool}
    {registered : BTreeMap String SchemaResource} (h : Registered absolute registered) :
    ∀ uri r, registered[uri]? = some r → Identified uri r := by
  induction h with
  | empty => intro uri r hr; simp at hr
  | @call limits registered registered' resources _ hcall ih =>
    obtain ⟨s, hs, hcall⟩ := bind_eq_ok.mp hcall
    obtain ⟨_, -, hcall⟩ := bind_eq_ok.mp hcall
    cases hcall
    have hstaged := foldlM_invariant (P := fun s : StagedSchemas =>
      ∀ uri r, s.staged[uri]? = some r → Identified uri r)
      (fun _ _ _ hs h => stageSchema_identified h hs) (fun uri r hr => by simp at hr) hs
    intro uri r hr
    rw [Std.ExtTreeMap.getElem?_union, Option.or_eq_some_iff] at hr
    rcases hr with hr | ⟨-, hr⟩
    · exact hstaged uri r hr
    · exact ih uri r hr

end WorkflowForge.Engine
