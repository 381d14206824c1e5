import Mathlib.Data.String.Basic
import WorkflowForge.Engine.Builder
import WorkflowForge.Engine.Inspect

/-!
# Root Identifiers of Schema Resources

Registration accepts a resource with its own URI as root identifier. Inspection refuses
identifiers below the schema it inspects, and the root of a resource that a reference enters
is below it. So the identifier decides whether the whole resource can be referenced.

## Main results

- `respelled_unfolds`: an expansion carries over to other spellings of the identifiers where
  no identified root is entered.
- `neutral_iff`: when the spelling of root identifiers does not matter.
-/

namespace WorkflowForge.Engine

open Lib Inspect

namespace RootId

/-! ## Spellings -/

def withoutId (ms : Members) : Members :=
  ms.filter fun m => m.1 ≠ "$id"

/-- The members with their own URI as identifier, in key order. -/
def withId (uri : String) (ms : Members) : Members :=
  (withoutId ms).takeWhile (fun m => m.1 < "$id") ++
    ("$id", .string uri) :: (withoutId ms).dropWhile fun m => m.1 < "$id"

/-- A resource as it is, or with its root identifier added or removed. -/
def Respelled (uri : String) (v v' : Value) : Prop :=
  v' = v ∨ ∃ ms, v = .object ms ∧ (v' = .object (withId uri ms) ∨ v' = .object (withoutId ms))

/-- The same resources, with root identifiers added to some and removed from some. -/
def Respellings (resources resources' : BTreeMap String Value) : Prop :=
  ∀ uri : String, Option.Rel (Respelled uri) resources[uri]? resources'[uri]?

/-- Inspection accepts a schema under some resources. -/
def Accepts (resources : BTreeMap String Value) (schema : Value) : Prop :=
  ∃ cost, expansionCost resources schema = .ok cost

/-- The schemas of the registered resources. -/
def offline (registered : BTreeMap String SchemaResource) : BTreeMap String Value :=
  BTreeMap.mapValues SchemaResource.schema registered

/-- No spelling of the root identifiers changes whether a schema is accepted. -/
def Neutral (resources : BTreeMap String Value) (schema : Value) : Prop :=
  ∀ resources', Respellings resources resources' →
    (Accepts resources schema ↔ Accepts resources' schema)

/-- The resources without their root identifiers. -/
def bare : Value → Value
  | .object ms => .object (withoutId ms)
  | v => v

/-- The resources that have their root identifiers. -/
def named (uri : String) : Value → Value
  | .object ms => .object (withId uri ms)
  | v => v

/-- A position is entered by a reference to all of a resource that is an object. -/
def EntersRoot (resources : BTreeMap String Value) (p : Position) : Prop :=
  ∃ uri ms, p.entered = some ⟨some uri, ""⟩ ∧ resources[uri]? = some (.object ms)

/-! ## Members besides the identifier -/

/-- Leaving out the identifier hides this member only. -/
theorem lookup_withoutId (ms : Members) (name : String) :
    (withoutId ms).lookup name = if name = "$id" then none else ms.lookup name := by
  induction ms with
  | nil => simp [withoutId]
  | cons m ms ih =>
    obtain ⟨k, v⟩ := m
    unfold withoutId at ih ⊢
    by_cases hk : k = "$id"
    · rw [List.filter_cons_of_neg (by simp [hk]), ih]
      split
      · rfl
      next hname => rw [List.lookup_cons, beq_false_of_ne (hk ▸ hname)]
    · rw [List.filter_cons_of_pos (by simp [hk]), List.lookup_cons, List.lookup_cons, ih]
      by_cases hname : name = k
      · subst hname
        simp [hk]
      · rw [beq_false_of_ne hname]

/-- Writing the identifier changes this member only. -/
theorem lookup_withId (uri : String) (ms : Members) (name : String) :
    (withId uri ms).lookup name = if name = "$id" then some (.string uri) else ms.lookup name := by
  have hrest := lookup_withoutId ms name
  rw [← List.takeWhile_append_dropWhile (p := fun m : String × Value => m.1 < "$id")
    (l := withoutId ms)] at hrest
  rw [withId]
  rw [List.lookup_append] at hrest ⊢
  rw [List.lookup_cons]
  split at hrest
  next heq =>
    subst heq
    have hnone := (Option.or_eq_none_iff.mp hrest).1
    rw [hnone, beq_self_eq_true, if_pos rfl]
    rfl
  next hne =>
    rw [beq_false_of_ne hne, hrest]
    simp [hne]

/-- Two objects that agree but for their root identifiers, which are their own URI if any. -/
structure Alike (uri : String) (ms ms' : Members) : Prop where
  agree : ∀ name, name ≠ "$id" → ms.lookup name = ms'.lookup name
  own : ∀ id, ms.lookup "$id" = some id → id = .string uri

/-- The parts of a schema object do not depend on its identifier. -/
theorem parts_congr {ms ms' : Members}
    (h : ∀ name, name ≠ "$id" → ms.lookup name = ms'.lookup name) : parts ms = parts ms' := by
  simp [parts, h, List.filterMap_cons]

theorem patternBytes_congr {ms ms' : Members}
    (h : ∀ name, name ≠ "$id" → ms.lookup name = ms'.lookup name) :
    patternBytes ms = patternBytes ms' := by
  rw [patternBytes, patternBytes, h "pattern" (by decide)]

/-- Without an identifier an object passes the checks that one alike passes. -/
theorem admissible_congr {nested : Bool} {ms ms' : Members}
    (h : ∀ name, name ≠ "$id" → ms.lookup name = ms'.lookup name)
    (hid : ms'.lookup "$id" = none) (hok : admissible nested ms = .ok ()) :
    admissible nested ms' = .ok () := by
  have hhas : ∀ name, name ≠ "$id" → has ms' name = has ms name :=
    fun name hname => congrArg Option.isSome (h name hname).symm
  have hvocabulary : vocabularySupported ms' = vocabularySupported ms := by
    rw [vocabularySupported, vocabularySupported, h "$vocabulary" (by decide)]
  have hnone : has ms' "$id" = false := by rw [has, hid]; rfl
  obtain ⟨_, -, hok⟩ := bind_eq_ok.mp hok
  unfold admissible
  rw [hnone, Bool.and_false, Bool.not_false, ensure_true, ok_bind, hvocabulary,
    hhas "$dynamicRef" (by decide), hhas "$dynamicAnchor" (by decide),
    ← h "$schema" (by decide)]
  exact hok

/-! ## Expansions under another spelling -/

section Spelling

variable {resources resources' : BTreeMap String Value}

/-- Contents at an address: the same, or objects alike but for the identifier. -/
def AlikeAt (address : Option String) (v v' : Value) : Prop :=
  v = v' ∨ ∃ uri ms ms', address = some uri ∧ v = .object ms ∧ v' = .object ms' ∧ Alike uri ms ms'

/-- The resources agree, but for their root identifiers. -/
def AlikeResources (resources resources' : BTreeMap String Value) : Prop :=
  ∀ uri : String, Option.Rel (AlikeAt (some uri)) resources[uri]? resources'[uri]?

/-- The same document under both spellings. -/
structure SameDocument (resources' : BTreeMap String Value) (d d' : Document) : Prop where
  address : d.address = d'.address
  content : AlikeAt d.address d.content d'.content
  registered : ∀ uri : String, d'.address = some uri → resources'[uri]? = some d'.content

/-- The same position under both spellings. Where the schemas differ, one of them is a root
that a reference entered, and the other spelling has no identifier there. -/
structure SamePosition (resources' : BTreeMap String Value) (p p' : Position) : Prop where
  active : p.active = p'.active
  entered : p.entered = p'.entered
  nested : p.nested = p'.nested
  root : SameDocument resources' p.root p'.root
  schema : p.schema = p'.schema ∨ ∃ uri ms ms', p.schema = .object ms ∧ p'.schema = .object ms' ∧
    Alike uri ms ms' ∧ ms'.lookup "$id" = none

/-- A root that is entered has no identifier under the other spelling. -/
def EntersBare (resources' : BTreeMap String Value) (p : Position) : Prop :=
  ∀ uri ms, p.entered = some ⟨some uri, ""⟩ → resources'[uri]? = some (.object ms) →
    ms.lookup "$id" = none

/-- A reference leads to the same place in both spellings of the resources. -/
theorem locate_same (halike : AlikeResources resources resources') {root root' d : Document}
    {reference : Value} {r : Reference} (hroot : SameDocument resources' root root')
    (h : locate resources root reference = .ok (d, r)) :
    r.document = d.address ∧ ∃ d', locate resources' root' reference = .ok (d', r) ∧
      SameDocument resources' d d' := by
  obtain ⟨text, htext, h⟩ := bind_eq_ok.mp h
  rcases hsplit : splitReference text with ⟨uri, fragment⟩
  rw [hsplit] at h
  obtain ⟨u, hanchor, h⟩ := bind_eq_ok.mp h
  obtain ⟨d₁, hdocument, h⟩ := bind_eq_ok.mp h
  cases h
  -- the document is the root, or found under the same address
  have hother : ∃ d', document resources' root' uri = .ok d' ∧ SameDocument resources' d d' := by
    unfold document at hdocument ⊢
    by_cases huri : uri = ""
    · rw [if_pos huri] at hdocument ⊢
      cases hdocument
      exact ⟨root', rfl, hroot⟩
    · rw [if_neg huri] at hdocument ⊢
      have hrel := halike uri
      obtain ⟨content, hcontent, rfl⟩ := Option.map_eq_some_iff.mp (okOr_eq_ok.mp hdocument)
      rw [hcontent] at hrel
      cases hcontent' : resources'[uri]? with
      | none =>
        rw [hcontent'] at hrel
        nomatch hrel
      | some content' =>
        rw [hcontent'] at hrel
        cases hrel with
        | some hrel =>
          refine ⟨⟨some uri, content'⟩, rfl, rfl, hrel, fun other hother => ?_⟩
          cases hother
          exact hcontent'
  obtain ⟨d', hd', hsame⟩ := hother
  refine ⟨rfl, d', ?_, hsame⟩
  unfold locate
  rw [htext, ok_bind, hsplit]
  dsimp only
  rw [hanchor, ok_bind, hd', ok_bind, hsame.address]
  rfl

/-- A pointer that is not empty finds the same in objects that are alike, or their
identifier. -/
theorem pointer_same {uri fragment : String} {ms ms' : Members} {target : Value}
    (halike : Alike uri ms ms') (hne : fragment ≠ "")
    (h : (Value.object ms).pointer fragment = some target) :
    (Value.object ms').pointer fragment = some target ∨ ∃ s, target = .string s := by
  obtain ⟨name, onwards, hstring, hpointer⟩ := Value.pointer_object hne
  rw [hpointer] at h ⊢
  by_cases hname : name = "$id"
  · subst hname
    obtain ⟨id, hid, hid'⟩ := Option.bind_eq_some_iff.mp h
    rw [halike.own id hid] at hid'
    rcases hstring uri with hs | hs
    · exact .inr ⟨uri, (Option.some.inj (hs.symm.trans hid')).symm⟩
    · rw [hs] at hid'
      nomatch hid'
  · rw [← halike.agree name hname]
    exact .inl h

/-- A string is no schema. -/
theorem not_unfolds_string {p : Position} {t : Unfolding Position} {s : String}
    (hp : p.schema = .string s) : ¬ Unfolds (branches resources) p t := by
  rintro (⟨hnext, -⟩)
  rw [branches, hp] at hnext
  nomatch hnext

/-- A reference is followed to the same target under both spellings. -/
theorem follow_same (halike : AlikeResources resources resources') {root root' d : Document}
    {active : BTreeSet Reference} {reference target : Value} {r : Reference}
    (hroot : SameDocument resources' root root')
    (h : follow resources root active reference = .ok (d, r, target)) :
    (∃ s, target = .string s) ∨ ∃ d' target', SameDocument resources' d d' ∧
      follow resources' root' active reference = .ok (d', r, target') ∧
      (target = target' ∨ ∃ uri ms ms', r = ⟨some uri, ""⟩ ∧ target = .object ms ∧
        target' = .object ms' ∧ Alike uri ms ms' ∧ resources'[uri]? = some target') := by
  obtain ⟨⟨d₁, r₁⟩, hlocate, h⟩ := bind_eq_ok.mp h
  obtain ⟨u, hfresh, h⟩ := bind_eq_ok.mp h
  obtain ⟨v, htarget, h⟩ := bind_eq_ok.mp h
  cases h
  obtain ⟨hdocument, d', hlocate', hsame⟩ := locate_same halike hroot hlocate
  have hpointer := okOr_eq_ok.mp htarget
  -- the other spelling follows the reference wherever its pointer leads
  have hgo : ∀ target', d'.content.pointer r.fragment = some target' →
      follow resources' root' active reference = .ok (d', r, target') := by
    intro target' htarget'
    unfold follow
    rw [hlocate', ok_bind]
    dsimp only
    rw [hfresh, ok_bind, htarget']
    rfl
  rcases hsame.content with heq | ⟨uri, ms, ms', haddress, hms, hms', hobjects⟩
  · exact .inr ⟨d', target, hsame, hgo target (heq ▸ hpointer), .inl rfl⟩
  · rw [hms] at hpointer
    -- an empty fragment leads to the resource itself, its root "$id" dropped
    by_cases hfragment : r.fragment = ""
    · rw [hfragment, Value.pointer_empty] at hpointer
      cases hpointer
      refine .inr ⟨d', .object ms', hsame, hgo _ ?_, .inr ⟨uri, ms, ms', ?_, rfl, rfl, hobjects,
        ?_⟩⟩
      · rw [hms', hfragment, Value.pointer_empty]
      · obtain ⟨document, fragment⟩ := r
        exact congrArg₂ Reference.mk (hdocument.trans haddress) hfragment
      · rw [← hms']
        exact hsame.registered uri (hsame.address ▸ haddress)
    · rcases pointer_same hobjects hfragment hpointer with hfound | hstring
      · exact .inr ⟨d', target, hsame, hgo target (hms' ▸ hfound), .inl rfl⟩
      · exact .inl hstring

/-- Each branching of an expansion is matched under the other spelling. -/
theorem branches_match (halike : AlikeResources resources resources') :
    Matches (branches resources) (branches resources') (EntersBare resources')
      (SamePosition resources') := by
  intro p p' qs ts hsame hp hts hbare
  obtain ⟨schema, root, active, entered, nested⟩ := p
  obtain ⟨schema', root', active', entered', nested'⟩ := p'
  obtain ⟨hactive, hentered, hnested, hroot, hschema⟩ := hsame
  dsimp only at hactive hentered hnested hroot hschema
  subst hactive hentered hnested
  cases schema with
  | bool b =>
    rcases hschema with rfl | ⟨_, _, _, hobj, -⟩
    · cases hp
      exact ⟨[], rfl, .nil⟩
    · nomatch hobj
  | object ms =>
    obtain ⟨u, hadmissible, hp⟩ := bind_eq_ok.mp hp
    obtain ⟨targets, htargets, hp⟩ := bind_eq_ok.mp hp
    cases hp
    have hother : ∃ ms', schema' = .object ms' ∧ admissible nested ms' = .ok () ∧
        ∀ name, name ≠ "$id" → ms.lookup name = ms'.lookup name := by
      rcases hschema with rfl | ⟨uri, _, ms', hobj, rfl, hobjects, hid⟩
      · exact ⟨ms, rfl, hadmissible, fun _ _ => rfl⟩
      · cases hobj
        exact ⟨ms', rfl, admissible_congr hobjects.agree hid hadmissible, hobjects.agree⟩
    obtain ⟨ms', rfl, hadmissible', hagree⟩ := hother
    -- the target of the reference is entered under both spellings
    have htarget : ∃ targets', target resources' ⟨.object ms', root', active, entered, nested⟩
        ms' = .ok targets' ∧ List.Forall₂ (SamePosition resources') targets targets' := by
      unfold target at htargets ⊢
      rw [← hagree "$ref" (by decide)]
      split at htargets
      next =>
        cases htargets
        exact ⟨[], rfl, .nil⟩
      next reference _ =>
        obtain ⟨⟨d, r, v⟩, hfollow, htargets⟩ := bind_eq_ok.mp htargets
        cases htargets
        have hmem : (⟨v, d, active.insert r, some r, true⟩ : Position) ∈
            [⟨v, d, active.insert r, some r, true⟩] ++
              keywords ⟨.object ms, root, active, entered, nested⟩ ms :=
          List.mem_append_left _ List.mem_cons_self
        obtain ⟨t, -, ht, hlabel⟩ := hts.mem_labels hmem
        rcases follow_same halike hroot hfollow with ⟨s, hs⟩ | ⟨d', v', hd, hfollow', hv⟩
        · exact absurd ht (not_unfolds_string hs)
        · refine ⟨[⟨v', d', active.insert r, some r, true⟩], ?_, .cons ?_ .nil⟩
          · rw [hfollow']
            rfl
          · refine ⟨rfl, rfl, rfl, hd, hv.imp_right ?_⟩
            rintro ⟨uri, ms₁, ms₂, rfl, rfl, rfl, hobjects, hregistered⟩
            exact ⟨uri, ms₁, ms₂, rfl, rfl, hobjects, hbare _ hlabel uri ms₂ rfl hregistered⟩
    obtain ⟨targets', htargets', hforall⟩ := htarget
    refine ⟨targets' ++ keywords ⟨.object ms', root', active, entered, nested⟩ ms', ?_,
      List.rel_append hforall ?_⟩
    · change (admissible nested ms' >>= fun _ => _) = _
      rw [hadmissible', ok_bind, htargets']
      rfl
    · unfold keywords
      rw [parts_congr hagree, List.forall₂_map_left_iff, List.forall₂_map_right_iff]
      exact List.forall₂_same.mpr fun child _ => ⟨rfl, rfl, rfl, hroot, .inl rfl⟩
  | _ => nomatch hp

/-- The weights and the references entered are the same under both spellings. -/
theorem SamePosition.weight {p p' : Position} (h : SamePosition resources' p p') :
    p.weight = p'.weight := by
  rcases h.schema with heq | ⟨uri, ms, ms', hms, hms', hobjects, -⟩
  · rw [Position.weight, Position.weight, heq]
  · rw [Position.weight, Position.weight, hms, hms']
    exact patternBytes_congr hobjects.agree

/-- An expansion that enters no identified root carries over to another spelling, and so does
its acceptance. -/
theorem respelled_accepts (halike : AlikeResources resources resources') {schema : Value}
    {t : Unfolding Position}
    (ht : Unfolds (branches resources) (.start schema ⟨none, schema⟩ ∅ false) t)
    (hbare : ∀ p ∈ t.labels, EntersBare resources' p) (hheight : t.height ≤ maxDepth)
    (hfits : Fits Position.weight maxCost 0 t.labels) :
    ∃ t', Unfolds (branches resources') (.start schema ⟨none, schema⟩ ∅ false) t' ∧
      t'.height ≤ maxDepth ∧ Fits Position.weight maxCost 0 t'.labels ∧
      List.Forall₂ (SamePosition resources') t.labels t'.labels := by
  have hstart : SamePosition resources' (.start schema ⟨none, schema⟩ ∅ false)
      (.start schema ⟨none, schema⟩ ∅ false) :=
    ⟨rfl, rfl, rfl, ⟨rfl, .inl rfl, fun uri huri => nomatch huri⟩, .inl rfl⟩
  obtain ⟨t', ht', hheight', hlabels⟩ := ht.simulate (branches_match halike) hbare hstart
  exact ⟨t', ht', hheight' ▸ hheight,
    (Fits.congr (hlabels.imp fun _ _ h => h.weight)).mp hfits, hlabels⟩

end Spelling

/-! ## Expansions within the bounds -/

/-- The expansion of a schema, within the bounds of inspection. -/
structure Expands (resources : BTreeMap String Value) (schema : Value)
    (t : Unfolding Position) : Prop where
  unfolds : Unfolds (branches resources) (.start schema ⟨none, schema⟩ ∅ false) t
  height : t.height ≤ maxDepth
  fits : Fits Position.weight maxCost 0 t.labels

/-- A schema is accepted exactly when it has an expansion. -/
theorem accepts_iff {resources : BTreeMap String Value} {schema : Value} :
    Accepts resources schema ↔ ∃ t, Expands resources schema t := by
  constructor
  · rintro ⟨cost, hcost⟩
    obtain ⟨⟨active, c⟩, hc, -⟩ := map_eq_ok.mp hcost
    obtain ⟨-, t, ht, hheight, hfits, -⟩ := inspect_eq_ok.mp hc
    exact ⟨t, ht, hheight, hfits⟩
  · rintro ⟨t, ht, hheight, hfits⟩
    exact ⟨_, map_eq_ok.mpr ⟨_, inspect_eq_ok.mpr ⟨rfl, t, ht, hheight, hfits, rfl⟩, rfl⟩⟩

/-- What an expansion knows of a position: its document is registered, and it is the target
of the reference that entered it. -/
structure Located (resources : BTreeMap String Value) (p : Position) : Prop where
  registered : ∀ uri : String, p.root.address = some uri → resources[uri]? = some p.root.content
  target : ∀ r, p.entered = some r → p.nested = true ∧ r.document = p.root.address ∧
    p.root.content.pointer r.fragment = some p.schema

/-- A document is the root, or the resource that is registered under its address. -/
theorem document_registered {resources : BTreeMap String Value} {root d : Document}
    {uri : String} (h : document resources root uri = .ok d)
    (hroot : ∀ u : String, root.address = some u → resources[u]? = some root.content) :
    ∀ u : String, d.address = some u → resources[u]? = some d.content := by
  unfold document at h
  split at h
  · cases h
    exact hroot
  · obtain ⟨content, hcontent, rfl⟩ := Option.map_eq_some_iff.mp (okOr_eq_ok.mp h)
    intro u hu
    cases hu
    exact hcontent

/-- From a located position a walk leads to located ones only. -/
theorem branches_located {resources : BTreeMap String Value} (p : Position) (qs : List Position)
    (hp : Located resources p) (h : branches resources p = .ok qs) :
    ∀ q ∈ qs, Located resources q := by
  intro q hq
  unfold branches at h
  split at h
  · cases h
    nomatch hq
  next obj _ =>
    obtain ⟨u, -, h⟩ := bind_eq_ok.mp h
    obtain ⟨ts, hts, h⟩ := bind_eq_ok.mp h
    cases h
    rcases List.mem_append.mp hq with hq | hq
    -- the target of a reference
    · unfold target at hts
      split at hts
      · cases hts
        nomatch hq
      next reference _ =>
        obtain ⟨⟨d, r, v⟩, hfollow, hts⟩ := bind_eq_ok.mp hts
        cases hts
        obtain rfl := List.mem_singleton.mp hq
        obtain ⟨⟨d₁, r₁⟩, hlocate, hfollow⟩ := bind_eq_ok.mp hfollow
        obtain ⟨_, -, hfollow⟩ := bind_eq_ok.mp hfollow
        obtain ⟨v₁, hv, hfollow⟩ := bind_eq_ok.mp hfollow
        cases hfollow
        obtain ⟨text, -, hlocate⟩ := bind_eq_ok.mp hlocate
        obtain ⟨_, -, hlocate⟩ := bind_eq_ok.mp hlocate
        obtain ⟨d₂, hdocument, hlocate⟩ := bind_eq_ok.mp hlocate
        cases hlocate
        refine ⟨document_registered hdocument hp.registered, fun r hr => ?_⟩
        cases hr
        exact ⟨rfl, rfl, okOr_eq_ok.mp hv⟩
    -- a nested schema is in the document of its parent
    · obtain ⟨child, -, rfl⟩ := List.mem_map.mp hq
      exact ⟨hp.registered, fun r hr => nomatch hr⟩
  · nomatch h

/-- The positions of an expansion are located. -/
theorem Expands.located {resources : BTreeMap String Value} {schema : Value}
    {t : Unfolding Position} (h : Expands resources schema t) :
    ∀ p ∈ t.labels, Located resources p :=
  h.unfolds.labels_invariant branches_located
    ⟨fun _ huri => (nomatch huri), fun _ hr => (nomatch hr)⟩

/-! ## When identifiers are neutral -/

def bareResources (resources : BTreeMap String Value) : BTreeMap String Value :=
  BTreeMap.mapValues bare resources

def namedResources (resources : BTreeMap String Value) : BTreeMap String Value :=
  resources.map named

/-- The root identifiers of resources are their own URIs. -/
def OwnIds (resources : BTreeMap String Value) : Prop :=
  ∀ (uri : String) (ms : Members), resources[uri]? = some (.object ms) →
    ∀ id, ms.lookup "$id" = some id → id = .string uri

/-- The schema expands without entering the root of a resource that is an object. -/
def AvoidsRoots (resources : BTreeMap String Value) (schema : Value) : Prop :=
  ∀ t, Expands (bareResources resources) schema t →
    ∀ p ∈ t.labels, ¬ EntersRoot (bareResources resources) p

/-- A registered resource that names itself bears its own address. -/
theorem offline_ownIds {absolute : String → Bool} {registered : BTreeMap String SchemaResource}
    (h : Registered absolute registered) : OwnIds (offline registered) := by
  intro uri ms hms id hid
  rw [offline, BTreeMap.get_mapValues] at hms
  obtain ⟨resource, hresource, hschema⟩ := Option.map_eq_some_iff.mp hms
  refine (h.identified uri resource hresource).2.2 id ?_
  rw [member, hschema]
  exact hid

/-- A respelled object agrees with the object but for its identifier, which is its own. -/
theorem Respelled.object {uri : String} {ms : Members} {v : Value}
    (h : Respelled uri (.object ms) v)
    (hown : ∀ id, ms.lookup "$id" = some id → id = .string uri) :
    ∃ ms', v = .object ms' ∧ (∀ name, name ≠ "$id" → ms'.lookup name = ms.lookup name) ∧
      ∀ id, ms'.lookup "$id" = some id → id = .string uri := by
  rcases h with rfl | ⟨ms₁, heq, rfl | rfl⟩
  · exact ⟨ms, rfl, fun _ _ => rfl, hown⟩
  · cases heq
    refine ⟨_, rfl, fun name hname => by rw [lookup_withId, if_neg hname], fun id hid => ?_⟩
    rw [lookup_withId, if_pos rfl] at hid
    exact (Option.some.inj hid).symm
  · cases heq
    refine ⟨_, rfl, fun name hname => by rw [lookup_withoutId, if_neg hname], fun id hid => ?_⟩
    rw [lookup_withoutId, if_pos rfl] at hid
    nomatch hid

/-- A resource that is no object has one spelling. -/
theorem Respelled.eq {uri : String} {v v' : Value} (h : Respelled uri v v')
    (hv : ∀ ms, v ≠ .object ms) : v' = v := by
  rcases h with rfl | ⟨ms, heq, -⟩
  · rfl
  · exact absurd heq (hv ms)

/-- Two spellings of one resource differ in the identifier of the root only. -/
theorem Respelled.alike {uri : String} {v v₁ v₂ : Value} (h₁ : Respelled uri v v₁)
    (h₂ : Respelled uri v v₂)
    (hown : ∀ ms, v = .object ms → ∀ id, ms.lookup "$id" = some id → id = .string uri) :
    AlikeAt (some uri) v₁ v₂ := by
  by_cases hobj : ∃ ms, v = .object ms
  · obtain ⟨ms, rfl⟩ := hobj
    obtain ⟨ms₁, rfl, hagree₁, hown₁⟩ := h₁.object (hown ms rfl)
    obtain ⟨ms₂, rfl, hagree₂, -⟩ := h₂.object (hown ms rfl)
    refine .inr ⟨uri, ms₁, ms₂, rfl, rfl, rfl, fun name hname => ?_, hown₁⟩
    rw [hagree₁ name hname, hagree₂ name hname]
  · have hv := not_exists.mp hobj
    exact .inl ((h₁.eq hv).trans (h₂.eq hv).symm)

/-- So do two spellings of all resources. -/
theorem Respellings.alike {resources r₁ r₂ : BTreeMap String Value}
    (h₁ : Respellings resources r₁) (h₂ : Respellings resources r₂) (hown : OwnIds resources) :
    AlikeResources r₁ r₂ := by
  intro uri
  have h₁ := h₁ uri
  have h₂ := h₂ uri
  -- both spellings have the resource, or neither
  cases hv : resources[uri]? with
  | none =>
    rw [hv] at h₁ h₂
    generalize r₁[uri]? = o₁ at h₁
    generalize r₂[uri]? = o₂ at h₂
    cases h₁
    cases h₂
    exact .none
  | some v =>
    rw [hv] at h₁ h₂
    generalize r₁[uri]? = o₁ at h₁
    generalize r₂[uri]? = o₂ at h₂
    cases h₁ with
    | some h₁ =>
      cases h₂ with
      | some h₂ => exact .some (h₁.alike h₂ fun ms hms => hown uri ms (hms ▸ hv))

theorem Respellings.refl (resources : BTreeMap String Value) :
    Respellings resources resources := by
  intro uri
  cases resources[uri]? with
  | none => exact .none
  | some v => exact .some (.inl rfl)

/-- Leaving out every identifier is a spelling. -/
theorem bare_respellings (resources : BTreeMap String Value) :
    Respellings resources (bareResources resources) := by
  intro uri
  rw [bareResources, BTreeMap.get_mapValues]
  cases resources[uri]? with
  | none => exact .none
  | some v =>
    refine .some ?_
    cases v with
    | object ms => exact .inr ⟨ms, rfl, .inr rfl⟩
    | _ => exact .inl rfl

/-- Writing each of them is one as well. -/
theorem named_respellings (resources : BTreeMap String Value) :
    Respellings resources (namedResources resources) := by
  intro uri
  rw [namedResources, Std.ExtTreeMap.getElem?_map]
  cases resources[uri]? with
  | none => exact .none
  | some v =>
    refine .some ?_
    cases v with
    | object ms => exact .inr ⟨ms, rfl, .inl rfl⟩
    | _ => exact .inl rfl

/-- Without identifiers every root is entered without one. -/
theorem entersBare_bare (resources : BTreeMap String Value) (p : Position) :
    EntersBare (bareResources resources) p := by
  intro uri ms _ hms
  rw [bareResources, BTreeMap.get_mapValues] at hms
  obtain ⟨v, -, hv⟩ := Option.map_eq_some_iff.mp hms
  cases v with
  | object ms' =>
    cases hv
    rw [lookup_withoutId, if_pos rfl]
  | _ => nomatch hv

/-- What is accepted under some spelling is accepted without identifiers. -/
theorem accepts_bare {resources r : BTreeMap String Value} {schema : Value}
    (hown : OwnIds resources) (hr : Respellings resources r) (h : Accepts r schema) :
    Accepts (bareResources resources) schema := by
  obtain ⟨t, ht⟩ := accepts_iff.mp h
  obtain ⟨t', ht', hheight, hfits, -⟩ :=
    respelled_accepts (hr.alike (bare_respellings resources) hown) ht.unfolds
      (fun p _ => entersBare_bare resources p) ht.height ht.fits
  exact accepts_iff.mpr ⟨t', ht', hheight, hfits⟩

/-- A root that a reference enters and that has its identifier is refused. -/
theorem named_root_refused {resources : BTreeMap String Value} {schema : Value}
    {t : Unfolding Position} {p : Position} {uri : String}
    (ht : Expands (namedResources resources) schema t) (hp : p ∈ t.labels)
    (hentered : p.entered = some ⟨some uri, ""⟩) :
    ∀ ms, (bareResources resources)[uri]? ≠ some (.object ms) := by
  intro ms hms
  rw [bareResources, BTreeMap.get_mapValues] at hms
  obtain ⟨v, hv, hbare⟩ := Option.map_eq_some_iff.mp hms
  obtain ⟨ms₀, rfl⟩ : ∃ ms₀, v = .object ms₀ := by
    cases v with
    | object ms₀ => exact ⟨ms₀, rfl⟩
    | _ => nomatch hbare
  have hlocated := ht.located p hp
  -- a target is a position below the root of the traversal
  obtain ⟨hnested, haddress, hschema⟩ := hlocated.target _ hentered
  have hcontent := hlocated.registered uri haddress.symm
  rw [namedResources, Std.ExtTreeMap.getElem?_map, hv] at hcontent
  rw [Value.pointer_empty, ← Option.some.inj hcontent] at hschema
  obtain ⟨zs, hbranches⟩ := ht.unfolds.branches_ok hp
  rw [branches, ← Option.some.inj hschema] at hbranches
  obtain ⟨u, hadmissible, -⟩ := bind_eq_ok.mp hbranches
  obtain ⟨_, hid, -⟩ := bind_eq_ok.mp hadmissible
  have hid := ensure_eq_ok.mp hid
  -- where "$id" is refused
  rw [hnested, has, lookup_withId, if_pos rfl] at hid
  nomatch hid

/-- An expansion that enters no root of an object is accepted under any spelling. -/
theorem accepts_of_bare {resources r : BTreeMap String Value} {schema : Value}
    (hown : OwnIds resources) (hr : Respellings resources r)
    (havoids : AvoidsRoots resources schema) (h : Accepts (bareResources resources) schema) :
    Accepts r schema := by
  obtain ⟨t, ht⟩ := accepts_iff.mp h
  have halike := (bare_respellings resources).alike hr hown
  have hbare : ∀ p ∈ t.labels, EntersBare r p := by
    intro p hp uri ms hentered hms
    refine absurd ?_ (havoids t ht p hp)
    have hrel := halike uri
    rw [hms] at hrel
    generalize hb : (bareResources resources)[uri]? = o at hrel
    cases hrel with
    | some hv =>
      rcases hv with rfl | ⟨_, ms₁, _, -, rfl, -⟩
      · exact ⟨uri, ms, hentered, hb⟩
      · exact ⟨uri, ms₁, hentered, hb⟩
  obtain ⟨t', ht', hheight, hfits, -⟩ :=
    respelled_accepts halike ht.unfolds hbare ht.height ht.fits
  exact accepts_iff.mpr ⟨t', ht', hheight, hfits⟩

/-- The spelling of root identifiers does not matter to a schema exactly when its expansion
enters no resource that is an object as a whole, or there is no expansion within the bounds
even without identifiers. -/
theorem neutral_iff {absolute : String → Bool} {registered : BTreeMap String SchemaResource}
    (h : Registered absolute registered) (schema : Value) :
    Neutral (offline registered) schema ↔ AvoidsRoots (offline registered) schema := by
  have hown := offline_ownIds h
  generalize offline registered = resources at hown
  constructor
  · intro hneutral t ht p hp
    rintro ⟨uri, ms, hentered, hms⟩
    -- accepted without identifiers, so accepted with all of them
    have hbare : Accepts (bareResources resources) schema := accepts_iff.mpr ⟨t, ht⟩
    have hnamed : Accepts (namedResources resources) schema :=
      (hneutral _ (named_respellings resources)).mp
        ((hneutral _ (bare_respellings resources)).mpr hbare)
    obtain ⟨t₁, ht₁⟩ := accepts_iff.mp hnamed
    obtain ⟨t', ht', -, -, hlabels⟩ :=
      respelled_accepts ((named_respellings resources).alike (bare_respellings resources) hown)
        ht₁.unfolds (fun p _ => entersBare_bare resources p) ht₁.height ht₁.fits
    obtain rfl := ht'.unique ht.unfolds
    -- the position of the named expansion that corresponds to the root has its identifier
    obtain ⟨p₁, hp₁, hsame⟩ := exists_related hlabels hp
    exact named_root_refused ht₁ hp₁ (hsame.entered.trans hentered) ms hms
  · intro havoids resources' hr
    constructor
    · intro haccepts
      exact accepts_of_bare hown hr havoids (accepts_bare hown (.refl resources) haccepts)
    · intro haccepts
      exact accepts_of_bare hown (.refl resources) havoids (accepts_bare hown hr haccepts)

/-! ## A resource that cannot be referenced -/

/-- A string, with and without the identifier of the resource. -/
def plainName : SchemaResource :=
  ⟨"urn:name", "1", .object [("type", .string "string")]⟩

def identifiedName : SchemaResource :=
  ⟨"urn:name", "1", .object [("$id", .string "urn:name"), ("type", .string "string")]⟩

def nameReference : Value :=
  .object [("$ref", .string "urn:name")]

def plainResources : BTreeMap String SchemaResource :=
  (∅ : BTreeMap String SchemaResource).insert "urn:name" plainName

def identifiedResources : BTreeMap String SchemaResource :=
  (∅ : BTreeMap String SchemaResource).insert "urn:name" identifiedName

theorem plain_registered : registerSchemas (startsWith · "urn:") {} ∅ [plainName] =
    .ok plainResources := by
  decide +kernel

/-- The reference to a resource without an identifier is accepted. -/
theorem plain_accepts : expansionCost (offline plainResources) nameReference = .ok 2 := by
  decide +kernel

/-- The same reference is refused once the resource names itself. -/
theorem identified_refuses : expansionCost (offline identifiedResources) nameReference =
    .error (unsupported
      "Nested schema identifiers are outside the initial validation profile") := by
  decide +kernel

theorem plain_not_neutral : ¬ Neutral (offline plainResources) nameReference := by
  intro hneutral
  have hrespelled : Respellings (offline plainResources) (offline identifiedResources) := by
    intro uri
    rw [offline, offline, BTreeMap.get_mapValues, BTreeMap.get_mapValues, plainResources,
      identifiedResources, BTreeMap.get_insert, BTreeMap.get_insert]
    split
    next heq =>
      subst heq
      exact .some (.inr ⟨_, rfl, .inl (by decide +kernel)⟩)
    · rw [Std.ExtTreeMap.getElem?_empty]
      exact .none
  obtain ⟨cost, hcost⟩ := (hneutral _ hrespelled).mp ⟨2, plain_accepts⟩
  rw [identified_refuses] at hcost
  nomatch hcost

theorem neutral_iff_sample : ¬ AvoidsRoots (offline plainResources) nameReference :=
  fun havoids => plain_not_neutral ((neutral_iff (.call .empty plain_registered) _).mpr havoids)

/-- Both spellings are registered, but only one of them can be referenced. -/
theorem root_id_not_neutral :
    registerSchemas (startsWith · "urn:") {} ∅ [plainName] = .ok plainResources ∧
      registerSchemas (startsWith · "urn:") {} ∅ [identifiedName] = .ok identifiedResources ∧
      Accepts (offline plainResources) nameReference ∧
      ¬ Accepts (offline identifiedResources) nameReference ∧
      ¬ ∀ registered schema, Registered (startsWith · "urn:") registered →
        Neutral (offline registered) schema := by
  refine ⟨plain_registered, by decide +kernel, ⟨2, plain_accepts⟩, ?_, fun hall => ?_⟩
  · rintro ⟨cost, hcost⟩
    rw [identified_refuses] at hcost
    nomatch hcost
  · exact plain_not_neutral (hall _ nameReference (.call .empty plain_registered))

end RootId

end WorkflowForge.Engine
