import WorkflowForge.Engine.Access
import WorkflowForge.Lib.Pointer
import WorkflowForge.Lib.Unfolding

/-!
# Inspection of Schemas

A schema is expanded before it is handed to the validator: through the keywords that hold
schemas and through every reference, within a budget of depth and cost. A reference is
identified by the document it points into and by the text of its fragment, and may not be
entered again while it is being expanded.

## Main results

- `inspectWithin_eq`: inspection is the bounded traversal of the expansion, and leaves the
  active references as they were.
- `inspect_exact`: what is accepted expands to a finite tree within the bounds, the cost is
  exact, and only a reference that re-enters itself is called recursive.
-/

namespace WorkflowForge.Engine

open Lib

/-! ## Documents and references -/

/-- A document that references resolve in: a registered resource, or the schema itself. -/
structure Document where
  address : Option String
  content : Value

/-- The identity of a reference: its document and the text of its fragment. -/
structure Reference where
  document : Option String
  fragment : String
deriving DecidableEq

instance : Ord Reference :=
  ⟨compareLex (compareOn Reference.document) (compareOn Reference.fragment)⟩

instance : Std.TransOrd Reference :=
  inferInstanceAs (Std.TransCmp
    (compareLex (compareOn Reference.document) (compareOn Reference.fragment)))

instance : Std.LawfulEqOrd Reference where
  eq_of_compare {a b} h := by
    obtain ⟨hdocument, hfragment⟩ := Ordering.then_eq_eq.mp h
    obtain ⟨document, fragment⟩ := a
    obtain ⟨document', fragment'⟩ := b
    obtain rfl : document = document' := Std.LawfulEqCmp.eq_of_compare hdocument
    obtain rfl : fragment = fragment' := Std.LawfulEqCmp.eq_of_compare hfragment
    rfl

namespace Inspect

def unsupported (message : String) : ForgeError :=
  .new "capability.unsupported" message

def invalid (message : String) : ForgeError :=
  .new "schema.invalid" message

def missing (message : String) : ForgeError :=
  .new "reference.missing" message

def exceeded : ForgeError :=
  unsupported "Schema expansion exceeds the validation profile"

def recursive : ForgeError :=
  unsupported "Recursive schemas require a different validation profile"

def maxCost : Nat := 10000

def maxDepth : Nat := 64

def vocabularies : List String :=
  ["core", "applicator", "unevaluated", "validation", "meta-data", "format-annotation",
    "content"].map ("https://json-schema.org/draft/2020-12/vocab/" ++ ·)

/-! ## One schema -/

abbrev Members := List (String × Value)

def has (obj : Members) (key : String) : Bool :=
  (obj.lookup key).isSome

/-- The bytes of the pattern of a schema. -/
def patternBytes (obj : Members) : Nat :=
  match (obj.lookup "pattern").bind Value.asStr with
  | some pattern => pattern.utf8ByteSize
  | none => 0

/-- Every vocabulary that a schema requires is supported. -/
def vocabularySupported (obj : Members) : Bool :=
  match (obj.lookup "$vocabulary").bind members with
  | some required => required.all fun (uri, needed) =>
      decide (needed ≠ .bool true ∨ uri ∈ vocabularies)
  | none => true

/-- The checks of a schema object; `nested` unless it is the schema that is inspected. -/
def admissible (nested : Bool) (obj : Members) : Except ForgeError Unit := do
  ensure (!(nested && has obj "$id"))
    (unsupported "Nested schema identifiers are outside the initial validation profile")
  ensure (((obj.lookup "$schema").map Value.asStr).all (· = some schemaDialect))
    (unsupported "Unsupported schema dialect")
  ensure (!(has obj "$dynamicRef" || has obj "$dynamicAnchor"))
    (unsupported "Dynamic schema references are not in the initial validation profile")
  ensure (vocabularySupported obj) (unsupported "Required schema vocabulary is unsupported")

/-- `str::split_once` at the first `#`; all of the text where there is none. -/
def splitReference (reference : String) : String × String :=
  let chars := reference.toList
  (.ofList (chars.takeWhile (· ≠ '#')), .ofList ((chars.dropWhile (· ≠ '#')).drop 1))

/-- The document that a reference points into. -/
def document (resources : BTreeMap String Value) (root : Document) (uri : String) :
    Except ForgeError Document :=
  if uri = "" then .ok root
  else okOr (resources[uri]?.map fun content => ⟨some uri, content⟩)
    (missing "Schema resource is not registered")

/-- The document of a reference with its identity. -/
def locate (resources : BTreeMap String Value) (root : Document) (reference : Value) :
    Except ForgeError (Document × Reference) := do
  let reference ← okOr reference.asStr (invalid "Schema reference must be a string")
  let (uri, fragment) := splitReference reference
  ensure (fragment = "" || startsWith fragment "/")
    (unsupported "Named schema anchors are outside the initial validation profile")
  let document ← document resources root uri
  return (document, ⟨document.address, fragment⟩)

/-- The document, the identity and the target of a reference that is not active. -/
def follow (resources : BTreeMap String Value) (root : Document)
    (active : BTreeSet Reference) (reference : Value) :
    Except ForgeError (Document × Reference × Value) := do
  let (document, identity) ← locate resources root reference
  ensure (!active.contains identity) recursive
  let target ← okOr (document.content.pointer identity.fragment)
    (missing "Schema fragment does not exist")
  return (document, identity, target)

/-- The schemas that the keywords of a schema hold, in the order they are inspected. -/
def parts (obj : Members) : List Value :=
  (["properties", "patternProperties", "dependentSchemas"].flatMap fun key =>
    match (obj.lookup key).bind members with
    | some map => map.map Prod.snd
    | none => []) ++
  (["items", "additionalProperties", "contains", "propertyNames", "not", "if", "then", "else",
    "unevaluatedProperties", "unevaluatedItems"].filterMap fun key => obj.lookup key) ++
  (["prefixItems", "allOf", "anyOf", "oneOf"].flatMap fun key =>
    match (obj.lookup key).bind Value.asArray with
    | some items => items
    | none => [])

/-! ## Inspection -/

/-- Inspects one schema; the schemas below it are inspected by `deeper`. -/
def inspectLevel (resources : BTreeMap String Value)
    (deeper : Value → Document → BTreeSet Reference → Nat →
      Except ForgeError (BTreeSet Reference × Nat))
    (schema : Value) (root : Document) (active : BTreeSet Reference) (cost depth : Nat) :
    Except ForgeError (BTreeSet Reference × Nat) :=
  if maxCost < cost + 1 ∨ maxDepth < depth then .error exceeded
  else
    match schema with
    | .bool _ => .ok (active, cost + 1)
    | .object obj => do
      admissible (decide (0 < depth)) obj
      let cost := cost + 1 + patternBytes obj
      let (active, cost) ←
        match obj.lookup "$ref" with
        | none => pure (active, cost)
        | some reference => do
          let (document, identity, target) ← follow resources root active reference
          let (active, cost) ← deeper target document (active.insert identity) cost
          pure (active.erase identity, cost)
      (parts obj).foldlM (fun (active, cost) child => deeper child root active cost)
        (active, cost)
    | _ => .error (invalid "Expected a schema object or boolean")

/-- Inspects a schema at a depth; answers the active references and the cost so far. `room`
bounds the recursion and runs out where the depth is exceeded. -/
def inspectWithin (resources : BTreeMap String Value) :
    (room : Nat) → (schema : Value) → (root : Document) → (active : BTreeSet Reference) →
    (cost depth : Nat) → Except ForgeError (BTreeSet Reference × Nat)
  | 0, _, _, _, _, _ => .error exceeded
  | room + 1, schema, root, active, cost, depth =>
    inspectLevel resources (fun schema root active cost =>
      inspectWithin resources room schema root active cost (depth + 1)) schema root active cost
      depth

def inspect (resources : BTreeMap String Value) (schema : Value) (root : Document)
    (active : BTreeSet Reference) (cost depth : Nat) :
    Except ForgeError (BTreeSet Reference × Nat) :=
  inspectWithin resources (maxDepth + 1 - depth) schema root active cost depth

/-- Inspection goes on one level deeper, to any depth: the room is never what ends it. -/
theorem inspect_eq (resources : BTreeMap String Value) (schema : Value) (root : Document)
    (active : BTreeSet Reference) (cost depth : Nat) :
    inspect resources schema root active cost depth =
      inspectLevel resources (fun schema root active cost =>
        inspect resources schema root active cost (depth + 1)) schema root active cost
        depth := by
  unfold inspect
  by_cases hdepth : maxDepth < depth
  · have hroom : maxDepth + 1 - depth = 0 := by omega
    rw [hroom, inspectLevel.eq_def, if_pos (.inr hdepth)]
    rfl
  · have hroom : maxDepth + 1 - depth = (maxDepth + 1 - (depth + 1)) + 1 := by omega
    rw [hroom]
    rfl

/-- The cost of a schema by itself. -/
def expansionCost (resources : BTreeMap String Value) (schema : Value) : Except ForgeError Nat :=
  (inspect resources schema ⟨none, schema⟩ ∅ 0 0).map Prod.snd

/-! ## The expansion -/

/-- A schema in an expansion: where it stands, the references being expanded around it, and
the reference it was entered by, if it was. -/
structure Position where
  schema : Value
  root : Document
  active : BTreeSet Reference
  entered : Option Reference
  nested : Bool

/-- The position at which an inspection starts. -/
def Position.start (schema : Value) (root : Document) (active : BTreeSet Reference)
    (nested : Bool) : Position :=
  ⟨schema, root, active, none, nested⟩

/-- The bytes of the pattern at a position. -/
def Position.weight (p : Position) : Nat :=
  match p.schema with
  | .object obj => patternBytes obj
  | _ => 0

/-- The target of the reference at a position. -/
def target (resources : BTreeMap String Value) (p : Position) (obj : Members) :
    Except ForgeError (List Position) :=
  match obj.lookup "$ref" with
  | none => .ok []
  | some reference => do
    let (document, identity, target) ← follow resources p.root p.active reference
    return [⟨target, document, p.active.insert identity, some identity, true⟩]

/-- The schemas that the keywords at a position hold. -/
def keywords (p : Position) (obj : Members) : List Position :=
  (parts obj).map fun child => ⟨child, p.root, p.active, none, true⟩

/-- Where the expansion goes on from a position: the target of its reference, then what its
keywords hold. -/
def branches (resources : BTreeMap String Value) (p : Position) :
    Except ForgeError (List Position) :=
  match p.schema with
  | .bool _ => .ok []
  | .object obj => do
    admissible p.nested obj
    return (← target resources p obj) ++ keywords p obj
  | _ => .error (invalid "Expected a schema object or boolean")

theorem erase_insert {active : BTreeSet Reference} {r : Reference}
    (h : active.contains r = false) : (active.insert r).erase r = active := by
  refine Std.ExtTreeSet.ext_mem fun k => ?_
  rw [Std.ExtTreeSet.mem_erase, Std.ExtTreeSet.mem_insert]
  by_cases hk : r = k
  · subst hk
    simp [← Std.ExtTreeSet.contains_iff_mem, h]
  · simp [hk]

/-- A reference that is followed was not being expanded. -/
theorem follow_fresh {resources : BTreeMap String Value} {root document : Document}
    {active : BTreeSet Reference} {reference target : Value} {identity : Reference}
    (h : follow resources root active reference = .ok (document, identity, target)) :
    active.contains identity = false := by
  obtain ⟨⟨d, r⟩, -, h⟩ := bind_eq_ok.mp h
  obtain ⟨u, hfresh, h⟩ := bind_eq_ok.mp h
  obtain ⟨v, -, h⟩ := bind_eq_ok.mp h
  cases h
  simpa using ensure_eq_ok.mp hfresh

/-- Inspection is the bounded traversal of the expansion, and leaves the active references
as they were. -/
theorem inspectWithin_eq (resources : BTreeMap String Value) {room depth cost : Nat}
    {p : Position} (hroom : room = maxDepth + 1 - depth) (hnested : p.nested = decide (0 < depth)) :
    inspectWithin resources room p.schema p.root p.active cost depth =
      (visit Position.weight maxCost (branches resources) exceeded room p cost).map
        (p.active, ·) := by
  -- by induction on the levels that remain; a level spends the cost of one schema
  induction room generalizing p depth cost with
  | zero => rfl
  | succ room ih =>
    have hdepth : ¬ maxDepth < depth := by omega
    rw [inspectWithin, visit, inspectLevel.eq_def]
    by_cases hcost : maxCost < cost + 1
    · rw [if_pos (.inl hcost), if_pos hcost]
      rfl
    rw [if_neg (not_or.mpr ⟨hcost, hdepth⟩), if_neg hcost]
    have hroom' : room = maxDepth + 1 - (depth + 1) := by omega
    have hvisit : ∀ (q : Position) (cost : Nat), q.nested = true →
        inspectWithin resources room q.schema q.root q.active cost (depth + 1) =
          (visit Position.weight maxCost (branches resources) exceeded room q cost).map
            (q.active, ·) :=
      fun q cost hq => ih hroom' (by simp [hq])
    have hkeywords : ∀ (children : List Value) (cost : Nat),
        children.foldlM (fun (s : BTreeSet Reference × Nat) child =>
          inspectWithin resources room child p.root s.1 s.2 (depth + 1)) (p.active, cost) =
        ((children.map fun child => (⟨child, p.root, p.active, none, true⟩ : Position)).foldlM
          (fun cost q => visit Position.weight maxCost (branches resources) exceeded room q cost)
          cost).map (p.active, ·) := by
      intro children
      induction children with
      | nil => intro cost; rfl
      | cons child children ihc =>
        intro cost
        have hchild := hvisit ⟨child, p.root, p.active, none, true⟩ cost rfl
        rw [List.foldlM_cons, List.map_cons, List.foldlM_cons]
        dsimp only at hchild ⊢
        rw [hchild]
        cases visit Position.weight maxCost (branches resources) exceeded room
          ⟨child, p.root, p.active, none, true⟩ cost with
        | error e => rfl
        | ok c => exact ihc c
    obtain ⟨schema, root, active, entered, nested⟩ := p
    dsimp only at hnested hkeywords ⊢
    subst hnested
    cases schema with
    | bool b => rfl
    | object obj =>
      let p : Position := ⟨.object obj, root, active, entered, decide (0 < depth)⟩
      have hbranches : branches resources p = (do
        admissible (decide (0 < depth)) obj
        return (← target resources p obj) ++ keywords p obj) := rfl
      change _ = Except.map _ (branches resources p >>= _)
      rw [hbranches]
      dsimp only [Position.weight]
      cases admissible (decide (0 < depth)) obj with
      | error e => rfl
      | ok u =>
        simp only [ok_bind]
        cases href : obj.lookup "$ref" with
        | none =>
          have htarget : target resources p obj = .ok [] := by simp only [target, href]
          rw [htarget]
          exact hkeywords (parts obj) _
        | some reference =>
          dsimp only
          cases hfollow : follow resources root active reference with
          | error e =>
            have htarget : target resources p obj = .error e := by
              simp only [target, href, hfollow, p, error_bind]
            rw [htarget]
            rfl
          | ok followed =>
            obtain ⟨document, identity, target'⟩ := followed
            let q : Position :=
              ⟨target', document, active.insert identity, some identity, true⟩
            have htarget : target resources p obj = .ok [q] := by
              simp only [target, href, hfollow, p, ok_bind]
              rfl
            have hq := hvisit q (cost + 1 + patternBytes obj) rfl
            rw [htarget]
            simp only [ok_bind, q] at hq ⊢
            rw [hq, pure_bind, List.singleton_append, List.foldlM_cons]
            cases visit Position.weight maxCost (branches resources) exceeded room
              ⟨target', document, active.insert identity, some identity, true⟩
              (cost + 1 + patternBytes obj) with
            | error e => rfl
            | ok c =>
              change (parts obj).foldlM _ ((active.insert identity).erase identity, c) = _
              rw [erase_insert (follow_fresh hfollow)]
              exact hkeywords (parts obj) c
    | _ => rfl

theorem inspect_eq_visit (resources : BTreeMap String Value) (schema : Value) (root : Document)
    (active : BTreeSet Reference) (cost depth : Nat) :
    inspect resources schema root active cost depth =
      (visit Position.weight maxCost (branches resources) exceeded (maxDepth + 1 - depth)
        (.start schema root active (decide (0 < depth))) cost).map (active, ·) := by
  have h : ∀ p : Position, p.nested = decide (0 < depth) →
      inspect resources p.schema p.root p.active cost depth =
        (visit Position.weight maxCost (branches resources) exceeded (maxDepth + 1 - depth) p
          cost).map (p.active, ·) := fun p hp => inspectWithin_eq resources rfl hp
  exact h (.start schema root active (decide (0 < depth))) rfl

/-- What an inspection accepts is the unfolding of its position, within the bounds. -/
theorem inspect_eq_ok {resources : BTreeMap String Value} {schema : Value} {root : Document}
    {active active' : BTreeSet Reference} {cost cost' depth : Nat} :
    inspect resources schema root active cost depth = .ok (active', cost') ↔
      active' = active ∧ ∃ t, Unfolds (branches resources)
          (.start schema root active (decide (0 < depth))) t ∧
        t.height + depth ≤ maxDepth ∧ Fits Position.weight maxCost cost t.labels ∧
        cost' = cost + total Position.weight t.labels := by
  rw [inspect_eq_visit, map_eq_ok]
  constructor
  · rintro ⟨c, hc, heq⟩
    obtain ⟨t, ht, hheight, hfits, rfl⟩ := visit_eq_ok.mp hc
    cases heq
    exact ⟨rfl, t, ht, by omega, hfits, rfl⟩
  · rintro ⟨rfl, t, ht, hheight, hfits, rfl⟩
    exact ⟨_, visit_eq_ok.mpr ⟨t, ht, by omega, hfits, rfl⟩, rfl⟩

/-- A position that fits can be counted. -/
theorem cost_le_of_fits {resources : BTreeMap String Value} {p : Position}
    {t : Unfolding Position} {cost : Nat} (h : Unfolds (branches resources) p t)
    (hfits : Fits Position.weight maxCost cost t.labels) : cost ≤ maxCost := by
  cases h
  exact Nat.le_of_succ_le hfits.1

/-! ## References on the way -/

/-- The references entered along a path of an expansion. -/
def enteredOn (path : List Position) : List Reference :=
  path.filterMap Position.entered

/-- What a branch adds to the active references: the reference it is entered by. -/
theorem branch_active {resources : BTreeMap String Value} {p q : Position} {qs : List Position}
    (h : branches resources p = .ok qs) (hq : q ∈ qs) :
    (q.entered = none ∧ q.active = p.active) ∨
      ∃ r, q.entered = some r ∧ p.active.contains r = false ∧ q.active = p.active.insert r := by
  unfold branches at h
  split at h
  · cases h
    nomatch hq
  next obj =>
    obtain ⟨u, -, h⟩ := bind_eq_ok.mp h
    obtain ⟨ts, hts, h⟩ := bind_eq_ok.mp h
    cases h
    rcases List.mem_append.mp hq with hq | hq
    -- following a reference adds it
    · unfold target at hts
      split at hts
      · cases hts
        nomatch hq
      next reference _ =>
        obtain ⟨⟨document, identity, target⟩, hfollow, hts⟩ := bind_eq_ok.mp hts
        cases hts
        obtain rfl := List.mem_singleton.mp hq
        exact .inr ⟨identity, rfl, follow_fresh hfollow, rfl⟩
    · obtain ⟨child, -, rfl⟩ := List.mem_map.mp hq
      exact .inl ⟨rfl, rfl⟩
  · nomatch h

mutual
/-- Along a path of an expansion no reference is entered twice, and none that was active. -/
theorem entered_once {resources : BTreeMap String Value} {p : Position} {t : Unfolding Position}
    (h : Unfolds (branches resources) p t) :
    ∀ path ∈ t.paths, ∃ rest, path = p :: rest ∧ (enteredOn rest).Nodup ∧
      ∀ r ∈ enteredOn rest, p.active.contains r = false := by
  cases h with
  | node hp hts =>
    intro path hpath
    rcases List.mem_cons.mp hpath with rfl | hpath
    · exact ⟨[], rfl, List.nodup_nil, fun r hr => nomatch hr⟩
    · obtain ⟨rest, hrest, rfl⟩ := List.mem_map.mp hpath
      have hrest' := entered_once_all hts (fun q hq => branch_active hp hq) rest hrest
      exact ⟨rest, rfl, hrest'⟩

theorem entered_once_all {resources : BTreeMap String Value} {p : Position}
    {qs : List Position} {ts : List (Unfolding Position)}
    (h : UnfoldsAll (branches resources) qs ts)
    (hactive : ∀ q ∈ qs, (q.entered = none ∧ q.active = p.active) ∨
      ∃ r, q.entered = some r ∧ p.active.contains r = false ∧ q.active = p.active.insert r) :
    ∀ path ∈ Unfolding.pathsOf ts, (enteredOn path).Nodup ∧
      ∀ r ∈ enteredOn path, p.active.contains r = false := by
  cases h with
  | nil => exact fun path hpath => nomatch hpath
  | @cons q qs t ts ht hts =>
    intro path hpath
    rcases List.mem_append.mp hpath with hpath | hpath
    · obtain ⟨rest, rfl, hnodup, hfresh⟩ := entered_once ht path hpath
      rcases hactive q List.mem_cons_self with ⟨hnone, heq⟩ | ⟨r, hsome, hr, heq⟩
      -- a nested schema enters nothing
      · have hcons : enteredOn (q :: rest) = enteredOn rest := by simp [enteredOn, hnone]
        rw [hcons]
        exact ⟨hnodup, fun s hs => heq ▸ hfresh s hs⟩
      · have hcons : enteredOn (q :: rest) = r :: enteredOn rest := by
          simp [enteredOn, hsome]
        rw [heq] at hfresh
        -- what is entered below is neither r nor active before
        have hsplit : ∀ s ∈ enteredOn rest, r ≠ s ∧ p.active.contains s = false := by
          intro s hs
          have := hfresh s hs
          rw [Std.ExtTreeSet.contains_insert, Bool.or_eq_false_iff] at this
          exact ⟨fun hrs => by simp [hrs] at this, this.2⟩
        rw [hcons]
        refine ⟨List.nodup_cons.mpr ⟨fun hmem => (hsplit r hmem).1 rfl, hnodup⟩, ?_⟩
        intro s hs
        rcases List.mem_cons.mp hs with rfl | hs
        · exact hr
        · exact (hsplit s hs).2
    · exact entered_once_all hts (fun q hq => hactive q (List.mem_cons_of_mem _ hq)) path hpath
end

/-- The active references at the end of a trail are those it started with and those entered
on it. -/
theorem trail_active {resources : BTreeMap String Value} {p q : Position}
    {path : List Position} (h : Trail (branches resources) p path q) {r : Reference}
    (hr : q.active.contains r = true) :
    p.active.contains r = true ∨ r ∈ enteredOn path := by
  induction h with
  | refl => exact .inl hr
  | snoc hpath hnext hz ih =>
    have happend : ∀ (path : List Position) (z : Position), r ∈ enteredOn path →
        r ∈ enteredOn (path ++ [z]) := by
      intro path z hmem
      rw [enteredOn, List.filterMap_append]
      exact List.mem_append_left _ hmem
    -- a step of the trail enters nothing, or one reference
    rcases branch_active hnext hz with ⟨hnone, heq⟩ | ⟨s, hsome, -, heq⟩
    · exact (ih (heq ▸ hr)).imp_right (happend _ _)
    · rw [heq, Std.ExtTreeSet.contains_insert, Bool.or_eq_true] at hr
      rcases hr with hs | hr
      · have hs : s = r := by simpa using hs
        refine .inr ?_
        rw [enteredOn, List.filterMap_append]
        exact List.mem_append_right _ (by simp [hsome, hs])
      · exact (ih hr).imp_right (happend _ _)

/-- The reference that a schema makes. -/
def referenceOf (resources : BTreeMap String Value) (p : Position) : Option Reference :=
  match p.schema with
  | .object obj => (obj.lookup "$ref").bind fun reference =>
      match locate resources p.root reference with
      | .ok (_, identity) => some identity
      | .error _ => none
  | _ => none

theorem admissible_ne_recursive {nested : Bool} {obj : Members} :
    admissible nested obj ≠ .error recursive := by
  intro h
  unfold admissible at h
  -- each check has its own message
  rcases bind_eq_error.mp h with h | ⟨_, -, h⟩
  · exact absurd (ensure_eq_error.mp h).2 (by decide)
  rcases bind_eq_error.mp h with h | ⟨_, -, h⟩
  · exact absurd (ensure_eq_error.mp h).2 (by decide)
  rcases bind_eq_error.mp h with h | ⟨_, -, h⟩
  · exact absurd (ensure_eq_error.mp h).2 (by decide)
  exact absurd (ensure_eq_error.mp h).2 (by decide)

theorem locate_ne_recursive {resources : BTreeMap String Value} {root : Document}
    {reference : Value} : locate resources root reference ≠ .error recursive := by
  intro h
  unfold locate at h
  rcases bind_eq_error.mp h with h | ⟨text, -, h⟩
  · exact absurd (okOr_eq_error.mp h).2 (by decide)
  rcases bind_eq_error.mp h with h | ⟨_, -, h⟩
  · exact absurd (ensure_eq_error.mp h).2 (by decide)
  rcases bind_eq_error.mp h with h | ⟨_, -, h⟩
  · unfold document at h
    split at h
    · nomatch h
    · exact absurd (okOr_eq_error.mp h).2 (by decide)
  · nomatch h

/-- A position is refused as recursive only for a reference that is active there. -/
theorem branches_recursive {resources : BTreeMap String Value} {p : Position}
    (h : branches resources p = .error recursive) :
    ∃ r, referenceOf resources p = some r ∧ p.active.contains r = true := by
  unfold branches at h
  split at h
  · nomatch h
  next obj hobj =>
    rcases bind_eq_error.mp h with h | ⟨_, -, h⟩
    -- the other checks have errors of their own
    · exact absurd h admissible_ne_recursive
    rcases bind_eq_error.mp h with h | ⟨_, -, h⟩
    · unfold target at h
      split at h
      · nomatch h
      next reference href =>
        rcases bind_eq_error.mp h with h | ⟨_, -, h⟩
        · rcases bind_eq_error.mp h with h | ⟨⟨document, identity⟩, hlocate, h⟩
          · exact absurd h locate_ne_recursive
          · refine ⟨identity, ?_, ?_⟩
            · simp [referenceOf, hobj, href, hlocate]
            · rcases bind_eq_error.mp h with h | ⟨_, -, h⟩
              · simpa using (ensure_eq_error.mp h).1
              rcases bind_eq_error.mp h with h | ⟨_, -, h⟩
              · exact absurd (okOr_eq_error.mp h).2 (by decide)
              · nomatch h
        · nomatch h
    · nomatch h
  · exact absurd (Except.error.inj h) (by decide)

/-! ## Exactness -/

/-- An inspection that accepts leaves the active references as they were; the schema expands
to a finite tree within the bounds, its cost is the number of positions and the bytes of their
patterns, and no reference is entered again inside itself. A schema is called recursive only
where its expansion refers to a reference it is inside of. -/
theorem inspect_exact (resources : BTreeMap String Value) (schema : Value) (root : Document) :
    (∀ (active active' : BTreeSet Reference) (cost cost' depth : Nat),
      inspect resources schema root active cost depth = .ok (active', cost') →
      active' = active ∧ ∃ t, Unfolds (branches resources)
          (.start schema root active (decide (0 < depth))) t ∧
        t.height + depth ≤ maxDepth ∧ cost + t.labels.length ≤ maxCost ∧
        cost' = cost + (t.labels.length + (t.labels.map Position.weight).sum) ∧
        ∀ path ∈ t.paths, (enteredOn path).Nodup ∧
          ∀ r ∈ enteredOn path, active.contains r = false) ∧
    ∀ (active : BTreeSet Reference) (cost depth : Nat),
      inspect resources schema root active cost depth = .error recursive →
      ∃ path p r, Trail (branches resources)
          (.start schema root active (decide (0 < depth))) path p ∧
        referenceOf resources p = some r ∧ (active.contains r = true ∨ r ∈ enteredOn path) := by
  constructor
  · intro active active' cost cost' depth h
    obtain ⟨rfl, t, ht, hheight, hfits, rfl⟩ := inspect_eq_ok.mp h
    refine ⟨rfl, t, ht, hheight, hfits.length_le (cost_le_of_fits ht hfits), by rw [total_eq],
      fun path hpath => ?_⟩
    obtain ⟨rest, rfl, hnodup, hfresh⟩ := entered_once ht path hpath
    exact ⟨hnodup, hfresh⟩
  -- a refusal ends a trail, and a recursive one at a re-entered reference
  · intro active cost depth h
    rw [inspect_eq_visit] at h
    cases hvisit : visit Position.weight maxCost (branches resources) exceeded
        (maxDepth + 1 - depth) (.start schema root active (decide (0 < depth))) cost with
    | ok c => rw [hvisit] at h; nomatch h
    | error e =>
      rw [hvisit] at h
      cases h
      rcases trail_of_visit_error hvisit with hover | ⟨path, p, hpath, hp⟩
      · exact absurd hover (by decide)
      · obtain ⟨r, hr, hactive⟩ := branches_recursive hp
        exact ⟨path, p, r, hpath, hr, trail_active hpath hactive⟩

/-- A resource used twice side by side is expanded twice: five positions and two patterns. -/
theorem inspect_exact_sample :
    let resources : BTreeMap String Value := (∅ : BTreeMap String Value).insert "urn:name"
      (.object [("pattern", .string "ab"), ("type", .string "string")])
    let reference : Value := .object [("$ref", .string "urn:name")]
    let schema : Value := .object [("properties", .object [("a", reference), ("b", reference)])]
    ∃ t, Unfolds (branches resources) (.start schema ⟨none, schema⟩ ∅ false) t ∧
      9 = t.labels.length + (t.labels.map Position.weight).sum := by
  intro resources reference schema
  have hok : inspect resources schema ⟨none, schema⟩ ∅ 0 0 = .ok (∅, 9) := by decide +kernel
  obtain ⟨-, t, ht, -, -, hcost, -⟩ :=
    (inspect_exact resources schema ⟨none, schema⟩).1 ∅ ∅ 0 9 0 hok
  exact ⟨t, ht, by rw [hcost, Nat.zero_add]⟩

end Inspect

end WorkflowForge.Engine
