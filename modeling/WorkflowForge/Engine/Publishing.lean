import WorkflowForge.Engine.Ordering
import WorkflowForge.Engine.Producers
import WorkflowForge.Protocol.Readable

/-!
# Publishing Definitions

What the compiler accepts is written as a document that is valid under the published schema:
each rule of the schema is a check that some stage of the compiler makes. Together with the
decoders this is the agreement of the schema with the implementation.

## Main results

- `stage_publishes`: a compiled body is valid, by induction on the levels of nesting.
- `schema_agrees`: what is accepted is valid, and what is valid is read.
-/

namespace WorkflowForge.Engine

open Lib Lib.Schema Published Mapping

/-! ## Bindings -/

section Bindings

variable {available : BTreeSet String} {limits : Limits} {depth steps n : Nat}

/-- A token that decodes has only the escapes that the schema allows. -/
theorem escaped_of_decodeToken {cs ds : List Char} (h : decodeToken cs = some ds) :
    escaped cs = true := by
  fun_induction decodeToken cs generalizing ds with
  | case1 => rfl
  | case2 cs ih =>
    obtain ⟨ds, hds, -⟩ := Option.map_eq_some_iff.mp h
    exact ih hds
  | case3 cs ih =>
    obtain ⟨ds, hds, -⟩ := Option.map_eq_some_iff.mp h
    exact ih hds
  | case4 => cases h
  | case5 c cs _ _ hc ih =>
    obtain ⟨ds, hds, -⟩ := Option.map_eq_some_iff.mp h
    rw [escaped_cons fun heq => hc heq]
    exact ih hds

/-- A pointer with tokens has the published pattern. -/
theorem pointerPattern_of_tokens {pointer : String} {ts : List String}
    (h : tokens pointer = .ok ts) : pointerPattern pointer = true := by
  unfold tokens at h
  unfold pointerPattern
  generalize pointer.toList = characters at h ⊢
  split at h
  next => rfl
  next rest =>
    -- the slashes between the tokens are characters like others
    have hparts : ∀ part ∈ rest.splitOn '/', escaped part = true := by
      generalize rest.splitOn '/' = parts at h
      induction parts generalizing ts with
      | nil => exact fun part hpart => nomatch hpart
      | cons part parts ih =>
        rw [List.mapM_cons] at h
        obtain ⟨token, htoken, h⟩ := bind_eq_ok.mp h
        obtain ⟨tokens, htokens, -⟩ := bind_eq_ok.mp h
        obtain ⟨decoded, hdecoded, -⟩ := Option.map_eq_some_iff.mp (okOr_eq_ok.mp htoken)
        exact List.forall_mem_cons.mpr ⟨escaped_of_decodeToken hdecoded, ih htokens⟩
    have hjoin : ∀ {parts : List (List Char)}, (∀ part ∈ parts, escaped part = true) →
        escaped (['/'].intercalate parts) = true := by
      intro parts hparts
      induction parts with
      | nil => rfl
      | cons part parts ih =>
        obtain ⟨hpart, hparts⟩ := List.forall_mem_cons.mp hparts
        cases parts with
        | nil => simpa using hpart
        | cons next parts =>
          rw [List.intercalate_cons_cons, List.append_assoc, escaped_append hpart,
            List.singleton_append, escaped_cons (by decide)]
          exact ih hparts
    have hwhole := hjoin hparts
    rw [List.intercalate_splitOn] at hwhole
    exact hwhole
  · nomatch h

/-- A checked selection is valid when its fallback is. -/
theorem selection_valid {schema : Schema} {s : Selection} {ts : List String}
    (htokens : tokens s.pointer = .ok ts) (hreads : reads available s.source s.node = true)
    (hnamed : "" ∉ available) (hfallback : ∀ b ∈ s.fallback, schema b.toValue = true) :
    selection schema s.toValue = true := by
  obtain ⟨source, node, pointer, fallback⟩ := s
  have hpointer := pointerPattern_of_tokens htokens
  dsimp only at hpointer hreads hfallback
  cases source with
  -- a selection of the input names no node
  | input =>
    cases node with
    | some id => cases hreads
    | none =>
      cases fallback with
      | none =>
        simp [selection, allOf, record, Selection.toValue, optionalMember, serialize,
          Binding.fallbackMember, lookup_cons_ite, enumeration, pattern, hpointer, ifThenElse,
          properties, constant, excluded, has]
      | some b =>
        simp [selection, allOf, record, Selection.toValue, optionalMember, serialize,
          Binding.fallbackMember, lookup_cons_ite, enumeration, pattern, hpointer, ifThenElse,
          properties, constant, excluded, has, hfallback b rfl]
  | node =>
    cases node with
    | none => cases hreads
    | some id =>
      have hid : id ≠ "" := by
        -- no node that may be read has an empty identity
        rintro rfl
        exact hnamed (Std.ExtTreeSet.contains_iff_mem.mp hreads)
      cases fallback with
      | none =>
        simp [selection, allOf, record, Selection.toValue, optionalMember, serialize,
          Binding.fallbackMember, lookup_cons_ite, enumeration, pattern, hpointer, ifThenElse,
          properties, constant, has, identity, nonempty, hid]
      | some b =>
        simp [selection, allOf, record, Selection.toValue, optionalMember, serialize,
          Binding.fallbackMember, lookup_cons_ite, enumeration, pattern, hpointer, ifThenElse,
          properties, constant, has, identity, nonempty, hid, hfallback b rfl]

/-- An object of one member is a record of its name. -/
theorem record_singleton_iff {k : String} {schema : Schema} {v : Value} :
    record [k] [(k, schema)] (.object [(k, v)]) = true ↔ schema v = true := by
  simp [record]

/-- The name under which a binding is written. -/
def bindingTag (v : Value) : Option String :=
  (members v).bind fun ms => ms.head?.map Prod.fst

/-- Each alternative of bindings has its own name. -/
theorem bindingTag_eq {k : String} {schema : Schema} {v : Value}
    (h : record [k] [(k, schema)] v = true) : bindingTag v = some k := by
  obtain ⟨ms, rfl⟩ := record_object h
  obtain ⟨w, hw⟩ := record_present h List.mem_cons_self
  cases ms with
  | nil => nomatch hw
  | cons m ms =>
    obtain ⟨t, ht, -⟩ := (record_eq_true.mp h).2 m List.mem_cons_self
    rw [lookup_cons_ite] at ht
    split at ht
    next heq => exact congrArg some heq
    next => nomatch ht

/-- A binding is valid when one of its alternatives is. -/
theorem bindingWithin_of_mem {n : Nat} {k : String} {schema : Schema} {v : Value}
    (hmem : (k, record [k] [(k, schema)]) ∈ Published.bindings (bindingWithin n))
    (hv : schema v = true) : bindingWithin (n + 1) (.object [(k, v)]) = true := by
  refine @oneOf_of_tags _ bindingTag _ _ _ (by simp [Published.bindings]) (fun b hb h => ?_) hmem
    (record_singleton_iff.mpr hv)
  simp only [Published.bindings, List.mem_cons, List.not_mem_nil, or_false] at hb
  rcases hb with rfl | rfl | rfl | rfl
  all_goals exact bindingTag_eq h

/-- A checked binding is valid, with fuel for its size. -/
theorem bindingWithin_valid (n : Nat) {b : Binding} {m : Nat} (hnamed : "" ∉ available)
    (h : b.visit available limits depth steps = .ok m) (hn : b.toValue.size ≤ n) :
    bindingWithin n b.toValue = true := by
  induction n generalizing b depth steps m with
  | zero => cases b <;> simp [Binding.toValue, Value.size] at hn
  | succ n ih =>
    obtain ⟨-, -, -, h⟩ := Binding.visit_eq_ok h
    cases b with
    | literal v => exact bindingWithin_of_mem List.mem_cons_self rfl
    -- a selection, with its fallback one smaller
    | select s =>
      refine bindingWithin_of_mem (List.mem_cons_of_mem _ List.mem_cons_self) ?_
      obtain ⟨ts, htokens, hreads, hfallback⟩ := Selection.visit_eq_ok h
      refine selection_valid htokens hreads hnamed fun b hb => ?_
      have hsize := Selection.fallback_size_lt hb
      obtain ⟨source, node, pointer, fallback⟩ := s
      obtain rfl : fallback = some b := hb
      refine ih hfallback ?_
      simp only [Binding.toValue, Value.size, Value.membersSize] at hn
      omega
    -- each field is smaller than the whole
    | object fields =>
      refine bindingWithin_of_mem (v := .object (Binding.fieldValues fields))
        (List.mem_cons_of_mem _ (List.mem_cons_of_mem _ List.mem_cons_self)) ?_
      rw [Binding.fieldValues_eq_map]
      refine List.all_eq_true.mpr fun member hmember => ?_
      obtain ⟨field, hfield, rfl⟩ := List.mem_map.mp hmember
      obtain ⟨_, _, hvisit⟩ := Binding.visitFields_eq_ok h hfield
      refine ih hvisit ?_
      have hlt := Value.size_lt_object hmember
      simp only [Binding.toValue, Binding.fieldValues_eq_map, Value.size,
        Value.membersSize] at hn hlt
      omega
    -- and each item
    | array items =>
      refine bindingWithin_of_mem (v := .array (Binding.itemValues items))
        (List.mem_cons_of_mem _ (List.mem_cons_of_mem _
          (List.mem_cons_of_mem _ List.mem_cons_self))) ?_
      rw [Binding.itemValues_eq_map]
      refine List.all_eq_true.mpr fun item hitem => ?_
      obtain ⟨b, hb, rfl⟩ := List.mem_map.mp hitem
      obtain ⟨_, _, hvisit⟩ := Binding.visitItems_eq_ok h hb
      refine ih hvisit ?_
      have hlt := Value.size_lt_array hitem
      simp only [Binding.toValue, Binding.itemValues_eq_map, Value.size,
        Value.membersSize] at hn hlt
      omega

/-- A checked binding is valid. -/
theorem binding_valid {b : Binding} (hnamed : "" ∉ available)
    (h : b.check available limits = .ok ()) : Published.binding (serialize b) = true := by
  obtain ⟨m, hm, -⟩ := map_eq_ok.mp h
  exact bindingWithin_valid _ hnamed hm le_rfl

/-- A binding that the compiler accepted satisfies the published schema. -/
theorem contextBinding_valid {b : Binding} {boolean : Bool}
    (h : contextBinding b limits boolean = .ok ()) : Published.binding (serialize b) = true := by
  obtain ⟨_, hcheck, -⟩ := bind_eq_ok.mp h
  exact binding_valid (by simp) hcheck

end Bindings

/-! ## What is named -/

/-- An exact text is not empty. -/
theorem inexact_empty {s : String} (h : (!inexact s) = true) : s ≠ "" := by
  rintro rfl
  simp [inexact] at h

/-- A built composition offers operations with exact revisions only. -/
theorem Assembled.operation_valid {validator : Validator} {c : Catalog}
    (hc : Assembled validator c) {revision : OperationRevision} {op : CompiledOperation}
    (h : c.operations[revision]? = some op) : Published.operation (serialize revision) = true := by
  have hexact : [revision.id, revision.contract, revision.implementation].all (!inexact ·) =
      true := by
    obtain ⟨providers, id, b, -, hbuild⟩ := hc
    obtain ⟨-, -, hoperations⟩ := EngineBuilder.build_eq_ok hbuild
    -- the builder checks each operation that it files
    refine foldlM_invariant (P := fun operations : BTreeMap OperationRevision CompiledOperation =>
      ∀ (k : OperationRevision) op, operations[k]? = some op →
        [k.id, k.contract, k.implementation].all (!inexact ·) = true)
      (fun operations entry operations' hops hstep k op hop => ?_)
      (fun k op hop => by simp at hop) hoperations revision op h
    obtain ⟨compiled, hnew, hstep⟩ := bind_eq_ok.mp hstep
    obtain ⟨_, hrevision, hstep⟩ := bind_eq_ok.mp hstep
    cases hstep
    rw [BTreeMap.get_insert] at hop
    split at hop
    next heq =>
      have hsame : entry.2.revision = k := by
        rw [← CompiledOperation.new_descriptor hnew]
        exact (of_decide_eq_true (ensure_eq_ok.mp hrevision)).trans heq
      obtain ⟨_, hcoherent, -⟩ := bind_eq_ok.mp hnew
      have hall := ensure_eq_ok.mp hcoherent
      simp only [Bool.and_eq_true] at hall
      rw [← hsame]
      exact hall.1.1.2
    · exact hops k op hop
  simp only [List.all_cons, List.all_nil, Bool.and_eq_true, Bool.and_true] at hexact
  obtain ⟨hid, hcontract, himplementation⟩ := hexact
  simp [Published.operation, record, serialize, OperationRevision.toValue, lookup_cons_ite,
    identity, nonempty, inexact_empty hid, inexact_empty hcontract, inexact_empty himplementation]

/-- The schema compiler of a built composition accepts objects and booleans only. -/
theorem Assembled.schema_valid {validator : Validator} {c : Catalog}
    (hc : Assembled validator c) {v : Value} {compiled : CompiledSchema}
    (h : c.compileSchema v = .ok compiled) : Published.schema v = true := by
  obtain ⟨providers, id, b, -, hbuild⟩ := hc
  obtain ⟨_, -, h⟩ := bind_eq_ok.mp h
  rw [(EngineBuilder.build_eq_ok hbuild).1] at h
  obtain ⟨_, -, h⟩ := bind_eq_ok.mp h
  obtain ⟨cost, hcost, -⟩ := bind_eq_ok.mp h
  obtain ⟨r, hinspect, -⟩ := map_eq_ok.mp hcost
  rw [Inspect.inspect_eq, Inspect.inspectLevel.eq_def] at hinspect
  cases v with
  | bool b => rfl
  | object ms => rfl
  | _ =>
    split at hinspect
    · cases hinspect
    · cases hinspect

/-! ## Nodes -/

namespace Compiler

/-- The kind that a node names. -/
def nodeTag (v : Value) : Option String :=
  (members v).bind fun ms => (ms.lookup "kind").bind Value.asStr

/-- A node that satisfies the schema of one kind has the tag of this kind. -/
theorem nodeTag_eq {kind : String} {needed : List String} {known : List (String × Schema)}
    {v : Value} (h : nodeOf kind needed known v = true) : nodeTag v = some kind := by
  obtain ⟨ms, rfl⟩ := record_object h
  have hkind := record_constant (k := "kind") h (by simp) rfl
  simp [nodeTag, hkind, Value.asStr]

section Nodes

variable {integer : (most least : Nat) → Schema} {body : Schema}

/-- A node is valid when the alternative of its kind is. -/
theorem nodeWith_of_mem {a : String × Schema} {v : Value}
    (hmem : a ∈ Published.nodes integer body) (hv : a.2 v = true) :
    nodeWith integer body v = true := by
  refine @oneOf_of_tags _ nodeTag _ _ _ (by simp [Published.nodes]) (fun b hb h => ?_) hmem hv
  simp only [Published.nodes, List.mem_cons, List.not_mem_nil, or_false] at hb
  rcases hb with rfl | rfl | rfl | rfl | rfl | rfl | rfl | rfl | rfl
  all_goals exact nodeTag_eq h

/-- A node is valid when its own fields are, besides those that all nodes have. -/
theorem nodeOf_valid {kind : String} {needed : List String} {known : List (String × Schema)}
    {id : String} {input : Binding} {ms : List (String × Value)} (hid : id ≠ "")
    (hinput : Published.binding (serialize input) = true)
    (hneeded : ∀ k ∈ needed, (ms.lookup k).isSome)
    (hknown : ∀ m ∈ ms, m.1 ≠ "id" ∧ m.1 ≠ "kind" ∧ m.1 ≠ "input" ∧
      ∃ schema, known.lookup m.1 = some schema ∧ schema m.2 = true) :
    nodeOf kind needed known
      (.object (("id", serialize id) :: ("input", serialize input) ::
        ("kind", .string kind) :: ms)) = true := by
  -- the three members of every node, then those of its kind
  refine record_eq_true.mpr ⟨fun k hk => ?_, fun m hm => ?_⟩
  · simp only [List.mem_cons] at hk
    simp only [lookup_cons_ite]
    split
    · rfl
    split
    · rfl
    split
    · rfl
    rcases hk with rfl | rfl | rfl | hk
    · contradiction
    · contradiction
    · contradiction
    · exact hneeded k hk
  · rcases List.mem_cons.mp hm with rfl | hm
    · exact ⟨identity, by simp, decide_eq_true hid⟩
    rcases List.mem_cons.mp hm with rfl | hm
    · exact ⟨Published.binding, by simp [lookup_cons_ite], hinput⟩
    rcases List.mem_cons.mp hm with rfl | hm
    · exact ⟨constant kind, by simp [lookup_cons_ite], by simp [constant]⟩
    obtain ⟨hnid, hnkind, hninput, schema, hlookup, hholds⟩ := hknown m hm
    refine ⟨schema, ?_, hholds⟩
    simp only [lookup_cons_ite, if_neg hnid, if_neg hnkind, if_neg hninput, hlookup]

/-! ### One lemma for each kind -/

section Kinds

variable {id : String} {input : Binding}
variable (hid : id ≠ "") (hinput : Published.binding (serialize input) = true)
include hid hinput

/-- The schema of a try node asks for its body, its handlers and its fallback. -/
theorem tryNode_valid {inner : BodyDefinition} {catches : List ErrorCase} {otherwise : FallbackCase}
    (hbody : body inner.toValue = true)
    (hcatches : ∀ a ∈ catches, Published.errorCase body a.toValue = true)
    (hfallback : Published.fallback body otherwise.toValue = true) :
    nodeWith integer body (NodeDefinition.toValue ⟨id, input, .try inner catches otherwise⟩) =
      true := by
  have hitems : Schema.items (Published.errorCase body)
      (.array (ErrorCase.toValues catches)) = true := by
    rw [ErrorCase.toValues_eq_map]
    refine List.all_eq_true.mpr fun item hitem => ?_
    obtain ⟨a, ha, rfl⟩ := List.mem_map.mp hitem
    exact hcatches a ha
  have hnode : tryNode body
      (NodeDefinition.toValue ⟨id, input, .try inner catches otherwise⟩) = true :=
    nodeOf_valid hid hinput (by simp [lookup_cons_ite])
      (by simp [lookup_cons_ite, hbody, hitems, hfallback])
  exact nodeWith_of_mem (a := ("try", tryNode body)) (by simp [Published.nodes]) hnode

/-- That of a timer asks for a duration. -/
theorem timerNode_valid {durationMs : UInt64}
    (hduration : integer (2 ^ 64 - 1) 0 (serialize durationMs) = true) :
    nodeWith integer body (NodeDefinition.toValue ⟨id, input, .timer durationMs⟩) = true := by
  have hnode : timerNode integer (NodeDefinition.toValue ⟨id, input, .timer durationMs⟩) = true :=
    nodeOf_valid hid hinput (by simp [lookup_cons_ite]) (by simpa [lookup_cons_ite] using hduration)
  exact nodeWith_of_mem (a := ("timer", timerNode integer)) (by simp [Published.nodes]) hnode

/-- That of an operation asks for a revision and a retry policy. -/
theorem operationNode_valid {revision : OperationRevision} {config : Value}
    {policy : RetryPolicy} (hrevision : Published.operation (serialize revision) = true)
    (hpolicy : Published.retry integer (serialize policy) = true) :
    nodeWith integer body
      (NodeDefinition.toValue ⟨id, input, .operation revision config policy⟩) = true := by
  have hwritten : NodeDefinition.toValue ⟨id, input, .operation revision config policy⟩ =
      .object (("id", serialize id) :: ("input", serialize input) ::
        ("kind", .string "operation") :: ("operation", serialize revision) ::
        ("config", config) :: retryMember policy) := by
    simp [NodeDefinition.toValue, Instruction.toMembers]
  have hnode : operationNode integer
      (NodeDefinition.toValue ⟨id, input, .operation revision config policy⟩) = true := by
    rw [hwritten]
    by_cases hdefault : policy = {}
    · exact nodeOf_valid hid hinput (by simp [lookup_cons_ite])
        (by simp [lookup_cons_ite, retryMember, hdefault, hrevision, anything])
    · exact nodeOf_valid hid hinput (by simp [lookup_cons_ite])
        (by simp [lookup_cons_ite, retryMember, hdefault, hrevision, hpolicy, anything])
  exact nodeWith_of_mem (a := ("operation", operationNode integer)) (by simp [Published.nodes])
    hnode

/-- That of a subworkflow asks for a revision. -/
theorem subworkflowNode_valid {revision : WorkflowRevision}
    (hrevision : Published.workflow (serialize revision) = true) :
    nodeWith integer body (NodeDefinition.toValue ⟨id, input, .subworkflow revision⟩) = true := by
  have hnode : subworkflowNode
      (NodeDefinition.toValue ⟨id, input, .subworkflow revision⟩) = true :=
    nodeOf_valid hid hinput (by simp [lookup_cons_ite]) (by simp [lookup_cons_ite, hrevision])
  exact nodeWith_of_mem (a := ("subworkflow", subworkflowNode)) (by simp [Published.nodes]) hnode

/-- That of a decision asks for its cases, and for its fallback when there is one. -/
theorem decisionNode_valid {alternatives : List DecisionCase} {otherwise : Option FallbackCase}
    (hcases : ∀ a ∈ alternatives, Published.decisionCase body a.toValue = true)
    (hfallback : ∀ c ∈ otherwise, Published.fallback body c.toValue = true) :
    nodeWith integer body
      (NodeDefinition.toValue ⟨id, input, .decision alternatives otherwise⟩) = true := by
  have hitems : Schema.items (Published.decisionCase body)
      (.array (DecisionCase.toValues alternatives)) = true := by
    rw [DecisionCase.toValues_eq_map]
    refine List.all_eq_true.mpr fun item hitem => ?_
    obtain ⟨a, ha, rfl⟩ := List.mem_map.mp hitem
    exact hcases a ha
  have hnode : decisionNode body
      (NodeDefinition.toValue ⟨id, input, .decision alternatives otherwise⟩) = true := by
    -- a fallback that is absent is not written
    cases otherwise with
    | none =>
      exact nodeOf_valid hid hinput (by simp [lookup_cons_ite])
        (by simp [lookup_cons_ite, hitems, FallbackCase.toMember])
    | some c =>
      exact nodeOf_valid hid hinput (by simp [lookup_cons_ite])
        (by simp [lookup_cons_ite, hitems, FallbackCase.toMember, hfallback c rfl])
  exact nodeWith_of_mem (a := ("decision", decisionNode body)) (by simp [Published.nodes]) hnode

/-- That of a parallel node asks for named branches, one at least, and a concurrency. -/
theorem parallelNode_valid {bodies : List (String × BodyDefinition)} {limit : Nat}
    {errors : GroupErrors} {join : JoinPolicy} (hbodies : ∀ b ∈ bodies, body b.2.toValue = true)
    (hnamed : ∀ b ∈ bodies, b.1 ≠ "") (hnonempty : bodies ≠ [])
    (hlimit : Published.concurrency integer (serialize limit) = true) :
    nodeWith integer body
      (NodeDefinition.toValue ⟨id, input, .parallel bodies limit errors join⟩) = true := by
  -- at least one branch, each with a name
  have hbranches : Published.branches body (.object (BodyDefinition.toFields bodies)) = true := by
    rw [BodyDefinition.toFields_eq_map]
    have hlength : 1 ≤ bodies.length := List.length_pos_iff.mpr hnonempty
    simp only [Published.branches, allOf, List.all_cons, List.all_nil, Bool.and_true,
      Bool.and_eq_true, fields, minProperties, propertyNames, List.all_map, List.length_map,
      decide_eq_true_eq, List.all_eq_true]
    exact ⟨hbodies, hlength, fun b hb => decide_eq_true (hnamed b hb)⟩
  have herrors : Published.groupErrors (serialize errors) = true := by cases errors <;> rfl
  have hjoin : constant "all" (serialize join) = true := by cases join; rfl
  have hnode : parallelNode integer body
      (NodeDefinition.toValue ⟨id, input, .parallel bodies limit errors join⟩) = true :=
    nodeOf_valid hid hinput (by simp [lookup_cons_ite])
      (by simp [lookup_cons_ite, hbranches, hlimit, herrors, hjoin])
  exact nodeWith_of_mem (a := ("parallel", parallelNode integer body))
    (by simp [Published.nodes]) hnode

/-- That of a foreach node asks for its items, its body and a concurrency. -/
theorem foreachNode_valid {items : Binding} {inner : BodyDefinition} {limit : Nat}
    {errors : GroupErrors} (hitems : Published.binding (serialize items) = true)
    (hbody : body inner.toValue = true)
    (hlimit : Published.concurrency integer (serialize limit) = true) :
    nodeWith integer body
      (NodeDefinition.toValue ⟨id, input, .foreach items inner limit errors⟩) = true := by
  have herrors : Published.groupErrors (serialize errors) = true := by cases errors <;> rfl
  have hnode : foreachNode integer body
      (NodeDefinition.toValue ⟨id, input, .foreach items inner limit errors⟩) = true :=
    nodeOf_valid hid hinput (by simp [lookup_cons_ite])
      (by simp [lookup_cons_ite, hitems, hbody, hlimit, herrors])
  exact nodeWith_of_mem (a := ("foreach", foreachNode integer body))
    (by simp [Published.nodes]) hnode

/-- That of a loop asks for its condition, its body and a positive bound. -/
theorem loopNode_valid {condition : Binding} {inner : BodyDefinition} {maxIterations : Nat}
    {onLimit : LoopLimit} (hcondition : Published.binding (serialize condition) = true)
    (hbody : body inner.toValue = true)
    (hlimit : integer (2 ^ 64 - 1) 1 (serialize maxIterations) = true) :
    nodeWith integer body
      (NodeDefinition.toValue ⟨id, input, .loop condition inner maxIterations onLimit⟩) = true := by
  have honLimit : enumeration ["fail", "return_last"] (serialize onLimit) = true := by
    cases onLimit <;> rfl
  have hnode : loopNode integer body
      (NodeDefinition.toValue ⟨id, input, .loop condition inner maxIterations onLimit⟩) = true :=
    nodeOf_valid hid hinput (by simp [lookup_cons_ite])
      (by simpa [lookup_cons_ite, hcondition, hbody, honLimit] using hlimit)
  exact nodeWith_of_mem (a := ("loop", loopNode integer body)) (by simp [Published.nodes]) hnode

/-- That of a wait asks for a correlation, a positive timeout and the schema of its payload. -/
theorem awaitSignalNode_valid {correlation : Binding} {timeoutMs : UInt64}
    {payloadSchema : Value} {start : Option SignalStart}
    (hcorrelation : Published.binding (serialize correlation) = true)
    (htimeout : integer (2 ^ 64 - 1) 1 (serialize timeoutMs) = true)
    (hpayload : Published.schema payloadSchema = true)
    (hstart : ∀ s ∈ start, Published.signalStart integer (serialize s) = true) :
    nodeWith integer body (NodeDefinition.toValue
      ⟨id, input, .awaitSignal correlation timeoutMs payloadSchema start⟩) = true := by
  have hnode : awaitSignalNode integer (NodeDefinition.toValue
      ⟨id, input, .awaitSignal correlation timeoutMs payloadSchema start⟩) = true := by
    cases start with
    | none =>
      exact nodeOf_valid hid hinput (by simp [lookup_cons_ite])
        (by simpa [lookup_cons_ite, optionalMember, hcorrelation, hpayload] using htimeout)
    | some s =>
      exact nodeOf_valid hid hinput (by simp [lookup_cons_ite])
        (by simpa [lookup_cons_ite, optionalMember, hcorrelation, hpayload, hstart s rfl]
          using htimeout)
  exact nodeWith_of_mem (a := ("await_signal", awaitSignalNode integer))
    (by simp [Published.nodes]) hnode

end Kinds

end Nodes

section Instructions

variable {validator : Validator} {c : Catalog} {deeper : Stage} {n : Nat}
variable {integer : (most least : Nat) → Schema} {s s' : Compiler}

/-- What is compiled one level deeper is valid, when it fits in `n`. -/
structure Stage.Publishes (integer : (most least : Nat) → Schema) (n : Nat) (deeper : Stage) :
    Prop where
  inline : ∀ {b s p s'}, deeper.inline b s = (.ok p, s') → b.toValue.size ≤ n →
    bodyWithin integer n b.toValue = true
  workflow : ∀ {d s plan s'}, deeper.workflow d s = (.ok plan, s') → d.id ≠ "" ∧ d.revision ≠ ""

/-- The integers that the engine writes satisfy their entries. -/
def WritesIntegers (integer : (most least : Nat) → Schema) : Prop :=
  ∀ most least n : Nat, least ≤ n → integer most least (.number (.posInt n)) = true

/-- A retry policy that the compiler accepted satisfies its schema, in the integers and the jitter.
-/
theorem retry_valid (hi : WritesIntegers integer) {p : RetryPolicy} {hostMaxAttempts : UInt32}
    (h : RetryPolicy.validate p hostMaxAttempts = .ok ()) :
    Published.retry integer (serialize p) = true := by
  have hpositive : 1 ≤ p.maxAttempts.toNat := by
    have hne := (of_decide_eq_true (ensure_eq_ok.mp h)).1
    by_contra hlt
    exact hne (UInt32.toNat_inj.mp (by simp only [UInt32.toNat_zero]; omega))
  simp [Published.retry, record, serialize, RetryPolicy.toValue, lookup_cons_ite, Schema.boolean,
    hi _ 1 _ hpositive, hi _ 0 _ (Nat.zero_le _)]

/-- Every compiled handler has a name and a code, and its body was compiled. -/
theorem catches_publishes {alternatives : List ErrorCase} {ids codes : List String}
    {r : List (String × String × PreparedBody)}
    (h : catches deeper ids codes alternatives s = (.ok r, s')) :
    ∀ a ∈ alternatives, a.id ≠ "" ∧ a.code ≠ "" ∧
      ∃ s p s', deeper.inline a.body s = (.ok p, s') := by
  induction alternatives generalizing ids codes s r with
  | nil => exact fun a ha => nomatch ha
  | cons alternative alternatives ih =>
    obtain ⟨id, code, b⟩ := alternative
    obtain ⟨_, s₁, h₁, h⟩ := Stateful.bind_eq_ok.mp h
    obtain ⟨compiled, s₂, h₂, h⟩ := Stateful.bind_eq_ok.mp h
    obtain ⟨rest, s₃, h₃, h⟩ := Stateful.bind_eq_ok.mp h
    obtain ⟨rfl, rfl⟩ := Stateful.pure_eq_ok.mp h
    have hnamed := ensure_eq_ok.mp (Stateful.lift_eq_ok.mp h₁).1
    simp only [Bool.and_eq_true, decide_eq_true_eq] at hnamed
    exact List.forall_mem_cons.mpr ⟨⟨hnamed.1.1.1, hnamed.1.1.2, _, _, _, h₂⟩, ih h₃⟩

/-- Every compiled case has a name and a condition, and its body was compiled. -/
theorem cases_publishes {alternatives : List DecisionCase} {ids : List String}
    {r : List PreparedCase} (h : cases c deeper ids alternatives s = (.ok r, s')) :
    ∀ a ∈ alternatives, a.id ≠ "" ∧ Published.binding (serialize a.when) = true ∧
      ∃ s p s', deeper.inline a.body s = (.ok p, s') := by
  induction alternatives generalizing ids s r with
  | nil => exact fun a ha => nomatch ha
  | cons alternative alternatives ih =>
    obtain ⟨id, condition, b⟩ := alternative
    obtain ⟨_, s₁, h₁, h⟩ := Stateful.bind_eq_ok.mp h
    obtain ⟨_, s₂, h₂, h⟩ := Stateful.bind_eq_ok.mp h
    obtain ⟨compiled, s₃, h₃, h⟩ := Stateful.bind_eq_ok.mp h
    obtain ⟨rest, s₄, h₄, h⟩ := Stateful.bind_eq_ok.mp h
    obtain ⟨rfl, rfl⟩ := Stateful.pure_eq_ok.mp h
    have hnamed := ensure_eq_ok.mp (Stateful.lift_eq_ok.mp h₁).1
    simp only [Bool.and_eq_true, decide_eq_true_eq] at hnamed
    have hcondition := contextBinding_valid (Stateful.lift_eq_ok.mp h₂).1
    exact List.forall_mem_cons.mpr ⟨⟨hnamed.1, hcondition, _, _, _, h₃⟩, ih h₄⟩

/-- Every branch was compiled. -/
theorem branches_publishes {bodies : List (String × BodyDefinition)}
    {r : List (String × PreparedBody)} (h : branches deeper bodies s = (.ok r, s')) :
    ∀ b ∈ bodies, ∃ s p s', deeper.inline b.2 s = (.ok p, s') := by
  induction bodies generalizing s r with
  | nil => exact fun b hb => nomatch hb
  | cons branch bodies ih =>
    obtain ⟨id, b⟩ := branch
    obtain ⟨compiled, s₁, h₁, h⟩ := Stateful.bind_eq_ok.mp h
    obtain ⟨rest, s₂, h₂, h⟩ := Stateful.bind_eq_ok.mp h
    obtain ⟨rfl, rfl⟩ := Stateful.pure_eq_ok.mp h
    exact List.forall_mem_cons.mpr ⟨⟨_, _, _, h₁⟩, ih h₂⟩

/-- The fallback of a decision has a name, and its body was compiled. -/
theorem decisionFallback_publishes {ids : List String} {otherwise : FallbackCase}
    {r : Option (String × PreparedBody)}
    (h : decisionFallback deeper ids (some otherwise) s = (.ok r, s')) :
    otherwise.id ≠ "" ∧ ∃ s p s', deeper.inline otherwise.body s = (.ok p, s') := by
  obtain ⟨id, b⟩ := otherwise
  obtain ⟨_, s₁, h₁, h⟩ := Stateful.bind_eq_ok.mp h
  obtain ⟨compiled, s₂, h₂, h⟩ := Stateful.bind_eq_ok.mp h
  have hnamed := ensure_eq_ok.mp (Stateful.lift_eq_ok.mp h₁).1
  simp only [Bool.and_eq_true, decide_eq_true_eq] at hnamed
  exact ⟨hnamed.1, _, _, _, h₂⟩

theorem fallback_valid {body : Schema} {otherwise : FallbackCase} (hid : otherwise.id ≠ "")
    (hbody : body otherwise.body.toValue = true) :
    Published.fallback body otherwise.toValue = true := by
  obtain ⟨id, b⟩ := otherwise
  simp_all [Published.fallback, record, FallbackCase.toValue, serialize, lookup_cons_ite,
    identity, nonempty]

theorem errorCase_valid {body : Schema} {alternative : ErrorCase} (hid : alternative.id ≠ "")
    (hcode : alternative.code ≠ "") (hbody : body alternative.body.toValue = true) :
    Published.errorCase body alternative.toValue = true := by
  obtain ⟨id, code, b⟩ := alternative
  simp_all [Published.errorCase, record, ErrorCase.toValue, serialize, lookup_cons_ite,
    identity, nonempty]

theorem decisionCase_valid {body : Schema} {alternative : DecisionCase}
    (hid : alternative.id ≠ "") (hwhen : Published.binding (serialize alternative.when) = true)
    (hbody : body alternative.body.toValue = true) :
    Published.decisionCase body alternative.toValue = true := by
  obtain ⟨id, condition, b⟩ := alternative
  have hwhen' : Published.binding condition.toValue = true := hwhen
  simp_all [Published.decisionCase, record, DecisionCase.toValue, serialize, lookup_cons_ite,
    identity, nonempty]

/-- The revision and the policy of a compiled operation are valid. -/
theorem operation_publishes (hc : Assembled validator c) (hi : WritesIntegers integer)
    {id : String} {input : Binding} {revision : OperationRevision} {config : Value}
    {policy : RetryPolicy} {op : PreparedOperation}
    (h : operation c id input revision config policy s = (.ok op, s')) :
    Published.operation (serialize revision) = true ∧
      Published.retry integer (serialize policy) = true := by
  obtain ⟨compiled, s₁, h₁, h⟩ := Stateful.bind_eq_ok.mp h
  obtain ⟨_, s₂, h₂, -⟩ := Stateful.bind_eq_ok.mp h
  have hoffered := okOr_eq_ok.mp (Stateful.lift_eq_ok.mp h₁).1
  have hvalidated := (Stateful.lift_eq_ok.mp h₂).1
  refine ⟨hc.operation_valid hoffered, ?_⟩
  cases hr : RetryPolicy.validate policy c.limits.maxRetryAttempts with
  | ok u => exact retry_valid hi hr
  | error e =>
    rw [hr] at hvalidated
    nomatch hvalidated

/-- The operation that announces a signal satisfies the schema in its binding, revision and policy.
-/
theorem signalStart_valid (hc : Assembled validator c) (hi : WritesIntegers integer)
    {id : String} {start : SignalStart} {r : Binding × PreparedOperation}
    (h : signalStart c id start s = (.ok r, s')) :
    Published.signalStart integer (serialize start) = true := by
  obtain ⟨_, s₁, h₁, h⟩ := Stateful.bind_eq_ok.mp h
  obtain ⟨_, s₂, -, h⟩ := Stateful.bind_eq_ok.mp h
  obtain ⟨op, s₃, h₃, -⟩ := Stateful.bind_eq_ok.mp h
  have hinput := contextBinding_valid (Stateful.lift_eq_ok.mp h₁).1
  obtain ⟨hrevision, hpolicy⟩ := operation_publishes hc hi (Stateful.mapError_eq_ok.mp h₃)
  obtain ⟨revision, config, input, policy⟩ := start
  change Published.signalStart integer (SignalStart.toValue _) = true
  by_cases hdefault : policy = {}
  · simp [Published.signalStart, record, SignalStart.toValue, lookup_cons_ite, retryMember,
      anything, hdefault, hrevision, hinput]
  · simp [Published.signalStart, record, SignalStart.toValue, lookup_cons_ite, retryMember,
      anything, hdefault, hrevision, hinput, hpolicy]

/-- The items of an array that fits in `n` fit in `n`. -/
theorem size_le_of_mem {α : Type} (enc : α → Value) {xs : List α} {x : α} (hx : x ∈ xs)
    (h : Value.itemsSize (xs.map enc) ≤ n) : (enc x).size ≤ n :=
  (Value.size_le_itemsSize (List.mem_map.mpr ⟨x, hx, rfl⟩)).trans h

/-- A branch is smaller than the branches it is one of. -/
theorem size_le_of_mem_fields {bodies : List (String × BodyDefinition)}
    {b : String × BodyDefinition} (hb : b ∈ bodies) :
    b.2.toValue.size ≤ Value.membersSize (bodies.map fun b => (b.1, b.2.toValue)) :=
  Value.size_le_membersSize (k := b.1) (List.mem_map.mpr ⟨b, hb, rfl⟩)

/-- The body of a case is smaller than the case. -/
theorem fallback_body_size (otherwise : FallbackCase) :
    otherwise.body.toValue.size ≤ otherwise.toValue.size := by
  obtain ⟨id, b⟩ := otherwise
  simp only [FallbackCase.toValue, Value.size, Value.membersSize]
  omega

theorem errorCase_body_size (alternative : ErrorCase) :
    alternative.body.toValue.size ≤ alternative.toValue.size := by
  obtain ⟨id, code, b⟩ := alternative
  simp only [ErrorCase.toValue, Value.size, Value.membersSize]
  omega

theorem decisionCase_body_size (alternative : DecisionCase) :
    alternative.body.toValue.size ≤ alternative.toValue.size := by
  obtain ⟨id, condition, b⟩ := alternative
  simp only [DecisionCase.toValue, Value.size, Value.membersSize]
  omega

section

variable {id : String} {input : Binding} {i : PreparedInstruction}

/-- A try node names handlers with codes of their own, and every body in it fits. -/
theorem try_valid (hd : deeper.Publishes integer n) {inner : BodyDefinition}
    {handlers : List ErrorCase} {otherwise : FallbackCase} (hid : id ≠ "")
    (hinput : Published.binding (serialize input) = true)
    (h : instruction c deeper ⟨id, input, .try inner handlers otherwise⟩ s = (.ok i, s'))
    (hsize : Value.membersSize (Instruction.try inner handlers otherwise).toMembers ≤ n) :
    nodeWith integer (bodyWithin integer n)
      (NodeDefinition.mk id input (.try inner handlers otherwise)).toValue = true := by
  unfold instruction at h
  obtain ⟨_, s₁, h₁, h⟩ := Stateful.bind_eq_ok.mp h
  obtain ⟨compiled, s₂, h₂, h⟩ := Stateful.bind_eq_ok.mp h
  obtain ⟨catches, s₃, h₃, h⟩ := Stateful.bind_eq_ok.mp h
  obtain ⟨handler, s₄, h₄, -⟩ := Stateful.bind_eq_ok.mp h
  have hbounded := ensure_eq_ok.mp (Stateful.lift_eq_ok.mp h₁).1
  simp only [Bool.and_eq_true, decide_eq_true_eq] at hbounded
  simp only [Instruction.toMembers, ErrorCase.toValues_eq_map, Value.membersSize,
    Value.size] at hsize
  have hfallback := fallback_body_size otherwise
  refine tryNode_valid hid hinput (hd.inline h₂ (by omega)) (fun a ha => ?_)
    (fallback_valid hbounded.2 (hd.inline h₄ (by omega)))
  obtain ⟨haid, hacode, t, p, t', hinline⟩ := catches_publishes h₃ a ha
  -- a handler is smaller than the node it is in
  have hfits : a.toValue.size ≤ n :=
    (size_le_of_mem ErrorCase.toValue ha le_rfl).trans (by omega)
  exact errorCase_valid haid hacode (hd.inline hinline ((errorCase_body_size a).trans hfits))

/-- A wait for a signal has a positive timeout and a resolved schema. -/
theorem awaitSignal_valid (hc : Assembled validator c) (hi : WritesIntegers integer)
    {correlation : Binding} {timeoutMs : UInt64} {payloadSchema : Value}
    {start : Option SignalStart} (hid : id ≠ "")
    (hinput : Published.binding (serialize input) = true)
    (h : instruction c deeper
      ⟨id, input, .awaitSignal correlation timeoutMs payloadSchema start⟩ s = (.ok i, s')) :
    nodeWith integer (bodyWithin integer n)
      (NodeDefinition.mk id input
        (.awaitSignal correlation timeoutMs payloadSchema start)).toValue = true := by
  unfold instruction at h
  obtain ⟨_, s₁, h₁, h⟩ := Stateful.bind_eq_ok.mp h
  obtain ⟨_, s₂, -, h⟩ := Stateful.bind_eq_ok.mp h
  obtain ⟨_, s₃, h₃, h⟩ := Stateful.bind_eq_ok.mp h
  obtain ⟨_, s₄, h₄, h⟩ := Stateful.bind_eq_ok.mp h
  have hcorrelation := contextBinding_valid (Stateful.lift_eq_ok.mp h₁).1
  have hpayload := hc.schema_valid (Stateful.lift_eq_ok.mp h₄).1
  -- a timeout that is not zero is at least one
  have hpositive : 1 ≤ timeoutMs.toNat := by
    have hne := (of_decide_eq_true (ensure_eq_ok.mp (Stateful.lift_eq_ok.mp h₃).1)).1
    by_contra hlt
    exact hne (UInt64.toNat_inj.mp (by simp only [UInt64.toNat_zero]; omega))
  refine awaitSignalNode_valid hid hinput hcorrelation (hi _ 1 _ hpositive) hpayload ?_
  cases start with
  | none => exact fun start hstart => by cases hstart
  | some start =>
    obtain ⟨r, s₅, h₅, -⟩ := Stateful.bind_eq_ok.mp h
    intro start' hstart
    obtain rfl := Option.some.inj hstart
    exact signalStart_valid hc hi h₅

/-- A decision has named cases with context bindings, and a named fallback when it has one. -/
theorem decision_valid (hd : deeper.Publishes integer n) {alternatives : List DecisionCase}
    {otherwise : Option FallbackCase} (hid : id ≠ "")
    (hinput : Published.binding (serialize input) = true)
    (h : instruction c deeper ⟨id, input, .decision alternatives otherwise⟩ s = (.ok i, s'))
    (hsize : Value.membersSize (Instruction.decision alternatives otherwise).toMembers ≤ n) :
    nodeWith integer (bodyWithin integer n)
      (NodeDefinition.mk id input (.decision alternatives otherwise)).toValue = true := by
  unfold instruction at h
  obtain ⟨_, s₁, -, h⟩ := Stateful.bind_eq_ok.mp h
  obtain ⟨compiled, s₂, h₂, h⟩ := Stateful.bind_eq_ok.mp h
  obtain ⟨fallback, s₃, h₃, -⟩ := Stateful.bind_eq_ok.mp h
  simp only [Instruction.toMembers, DecisionCase.toValues_eq_map, List.cons_append,
    List.nil_append, Value.membersSize, Value.size] at hsize
  refine decisionNode_valid hid hinput (fun a ha => ?_) (fun b hb => ?_)
  · obtain ⟨haid, hwhen, t, p, t', hinline⟩ := cases_publishes h₂ a ha
    -- a case is smaller than the decision it is in
    have hfits : a.toValue.size ≤ n :=
      (size_le_of_mem DecisionCase.toValue ha le_rfl).trans (by omega)
    exact decisionCase_valid haid hwhen
      (hd.inline hinline ((decisionCase_body_size a).trans hfits))
  · obtain rfl : otherwise = some b := hb
    obtain ⟨hbid, t, p, t', hinline⟩ := decisionFallback_publishes h₃
    have hfallback := fallback_body_size b
    simp only [FallbackCase.toMember, Value.membersSize] at hsize
    exact fallback_valid hbid (hd.inline hinline (by omega))

/-- A concurrency that was checked to be positive satisfies its entry of the schema. -/
theorem concurrency_valid (hi : WritesIntegers integer) {requested result : Nat}
    {s s' : Compiler}
    (h : Stateful.lift (concurrencyLimit requested c.limits) s = (.ok result, s')) :
    Published.concurrency integer (serialize requested) = true := by
  obtain ⟨_, hpositive, -⟩ := bind_eq_ok.mp (Stateful.lift_eq_ok.mp h).1
  have hne : requested ≠ 0 := of_decide_eq_true (ensure_eq_ok.mp hpositive)
  exact hi _ 1 _ (by omega)

end

/-- A compiled node is valid when the bodies nested in it are. -/
theorem instruction_valid (hc : Assembled validator c) (hi : WritesIntegers integer)
    (hd : deeper.Publishes integer n) {node : NodeDefinition} (hid : node.id ≠ "")
    (hinput : Published.binding (serialize node.input) = true) {i : PreparedInstruction}
    (h : instruction c deeper node s = (.ok i, s')) (hn : node.toValue.size ≤ n) :
    nodeWith integer (bodyWithin integer n) node.toValue = true := by
  obtain ⟨id, input, definition⟩ := node
  dsimp only at hid hinput
  -- what is nested in the instruction fits below the node
  have hsize : Value.membersSize definition.toMembers ≤ n := by
    simp only [NodeDefinition.toValue, Value.size, Value.membersSize] at hn
    omega
  cases definition with
  | «try» inner handlers otherwise => exact try_valid hd hid hinput h hsize
  | timer durationMs => exact timerNode_valid hid hinput (hi _ 0 _ (Nat.zero_le _))
  | awaitSignal correlation timeoutMs payloadSchema start =>
    exact awaitSignal_valid hc hi hid hinput h
  | operation revision config policy =>
    unfold instruction at h
    obtain ⟨op, s₁, h₁, -⟩ := Stateful.bind_eq_ok.mp h
    obtain ⟨hrevision, hpolicy⟩ := operation_publishes hc hi h₁
    exact operationNode_valid hid hinput hrevision hpolicy
  | decision alternatives otherwise => exact decision_valid hd hid hinput h hsize
  | parallel bodies concurrency errors join =>
    unfold instruction at h
    cases join with
    | all =>
      obtain ⟨_, s₁, h₁, h⟩ := Stateful.bind_eq_ok.mp h
      obtain ⟨_, s₂, h₂, h⟩ := Stateful.bind_eq_ok.mp h
      obtain ⟨compiled, s₃, h₃, -⟩ := Stateful.bind_eq_ok.mp h
      have hbounded := ensure_eq_ok.mp (Stateful.lift_eq_ok.mp h₁).1
      simp only [Bool.and_eq_true, Bool.not_eq_true', List.isEmpty_eq_false_iff,
        List.all_eq_true, decide_eq_true_eq] at hbounded
      simp only [Instruction.toMembers, BodyDefinition.toFields_eq_map, Value.membersSize,
        Value.size] at hsize
      refine parallelNode_valid hid hinput (fun b hb => ?_) hbounded.2 hbounded.1.1
        (concurrency_valid hi h₂)
      obtain ⟨t, p, t', hinline⟩ := branches_publishes h₃ b hb
      have hfits := size_le_of_mem_fields hb
      exact hd.inline hinline (by omega)
  | «foreach» items inner concurrency errors =>
    unfold instruction at h
    obtain ⟨_, s₁, h₁, h⟩ := Stateful.bind_eq_ok.mp h
    obtain ⟨_, s₂, -, h⟩ := Stateful.bind_eq_ok.mp h
    obtain ⟨_, s₃, h₃, h⟩ := Stateful.bind_eq_ok.mp h
    obtain ⟨compiled, s₄, h₄, -⟩ := Stateful.bind_eq_ok.mp h
    simp only [Instruction.toMembers, Value.membersSize] at hsize
    exact foreachNode_valid hid hinput (contextBinding_valid (Stateful.lift_eq_ok.mp h₁).1)
      (hd.inline h₄ (by omega)) (concurrency_valid hi h₃)
  | loop condition inner maxIterations onLimit =>
    unfold instruction at h
    obtain ⟨_, s₁, h₁, h⟩ := Stateful.bind_eq_ok.mp h
    obtain ⟨_, s₂, h₂, h⟩ := Stateful.bind_eq_ok.mp h
    obtain ⟨compiled, s₃, h₃, -⟩ := Stateful.bind_eq_ok.mp h
    simp only [Instruction.toMembers, Value.membersSize] at hsize
    have hpositive := (of_decide_eq_true (ensure_eq_ok.mp (Stateful.lift_eq_ok.mp h₂).1)).1
    exact loopNode_valid hid hinput (contextBinding_valid (Stateful.lift_eq_ok.mp h₁).1)
      (hd.inline h₃ (by omega)) (hi _ 1 _ (by omega))
  | subworkflow revision =>
    unfold instruction at h
    obtain ⟨definition, s₁, h₁, h⟩ := Stateful.bind_eq_ok.mp h
    obtain ⟨child, s₂, h₂, -⟩ := Stateful.bind_eq_ok.mp h
    -- the workflow is found under its own revision, with a name and an exact version
    have hkeyed := hc.keyed.workflows revision definition
      (okOr_eq_ok.mp (Stateful.lift_eq_ok.mp h₁).1)
    obtain ⟨hnamed, hexact⟩ := hd.workflow h₂
    refine subworkflowNode_valid hid hinput ?_
    subst hkeyed
    simp [Published.workflow, record, serialize, WorkflowRevision.toValue, lookup_cons_ite,
      identity, nonempty, WorkflowDefinition.workflowRevision, hnamed, hexact]

end Instructions

/-! ## Bodies and definitions -/

section Bodies

variable {validator : Validator} {c : Catalog} {deeper : Stage} {n : Nat}
variable {integer : (most least : Nat) → Schema}

/-- Every compiled node of a body is valid. -/
theorem compileNodes_valid (hc : Assembled validator c) (hi : WritesIntegers integer)
    (ht : deeper.Tamed) (hd : deeper.Publishes integer n) {nodes : List NodeDefinition}
    (hnamed : ∀ node ∈ nodes, node.id ≠ "") {available : BTreeSet String}
    (havailable : "" ∉ available) {sequence : List PreparedNode} {s s' : Compiler}
    (h : compileNodes c deeper available nodes s = (.ok (sequence, []), s')) :
    ∀ node ∈ nodes, node.toValue.size ≤ n →
      nodeWith integer (bodyWithin integer n) node.toValue = true := by
  induction nodes generalizing available sequence s with
  | nil => exact fun node hnode => nomatch hnode
  | cons node nodes ih =>
    obtain ⟨i, rest, s₁, s₂, -, h₂, hinput, h₃, rfl⟩ := compileNodes_cons_eq_ok ht hc.reports h
    obtain ⟨hid, hnamed⟩ := List.forall_mem_cons.mp hnamed
    have havailable' : "" ∉ available.insert node.id := by
      simp [Std.ExtTreeSet.mem_insert, hid, havailable]
    exact List.forall_mem_cons.mpr
      ⟨fun hfits => instruction_valid hc hi hd hid (binding_valid havailable hinput) h₂ hfits,
        ih hnamed havailable' h₃⟩

theorem identity_valid {s : String} (h : s ≠ "") : identity (serialize s) = true :=
  decide_eq_true h

theorem edge_valid {e : Edge} (hsource : e.source ≠ "") (htarget : e.target ≠ "") :
    Published.edge (serialize e) = true := by
  obtain ⟨source, target⟩ := e
  change Published.edge (Edge.toValue _) = true
  simp_all [Published.edge, record, Edge.toValue, serialize, lookup_cons_ite, identity, nonempty]

/-- The parts of a compiled body are valid, when its nodes fit in `n`. -/
structure GraphValid (integer : (most least : Nat) → Schema) (n : Nat) (b : BodyDefinition) :
    Prop where
  entry : b.entry ≠ ""
  nodes : ∀ node ∈ b.nodes, node.toValue.size ≤ n →
    nodeWith integer (bodyWithin integer n) node.toValue = true
  nonempty : b.nodes ≠ []
  edges : ∀ e ∈ b.edges, Published.edge (serialize e) = true
  once : b.edges.Nodup
  output : Published.binding (serialize b.output) = true

/-- A compiled body is valid as a graph: it has an entry, and named nodes and edges, each edge once.
-/
theorem body_graphValid (hc : Assembled validator c) (hi : WritesIntegers integer)
    (ht : deeper.Tamed) (hd : deeper.Publishes integer n) {b : BodyDefinition}
    {p : PreparedBody} {s s' : Compiler} (h : body c deeper b s = (.ok p, s')) :
    GraphValid integer n b := by
  obtain ⟨order, s₁, -, horder, h₂, houtput, -⟩ := body_eq_ok h
  have hchain := ordered_eq_ok_iff.mp horder
  have hnamed : ∀ node ∈ order, node.id ≠ "" :=
    fun node hnode => hchain.named node (hchain.covers.subset hnode)
  have hidentities : ∀ id ∈ b.nodes.map NodeDefinition.id, id ≠ "" := by
    intro id hid
    obtain ⟨node, hnode, rfl⟩ := List.mem_map.mp hid
    exact hchain.named node hnode
  -- the producers of the output are the nodes of the body
  have havailable : ∀ (nodes : List NodeDefinition) (available : BTreeSet String),
      (∀ node ∈ nodes, node.id ≠ "") → "" ∉ available →
      "" ∉ nodes.foldl (fun s (n : NodeDefinition) => s.insert n.id) available := by
    intro nodes
    induction nodes with
    | nil => exact fun available _ h => h
    | cons node nodes ih =>
      intro available hnodes havailable
      obtain ⟨hid, hnodes⟩ := List.forall_mem_cons.mp hnodes
      exact ih _ hnodes (by simp [Std.ExtTreeSet.mem_insert, hid, havailable])
  refine ⟨?_, ?_, hchain.nonempty, fun e he => ?_, hchain.once, ?_⟩
  · have hhead := List.mem_of_mem_head? hchain.starts
    obtain ⟨node, hnode, heq⟩ := List.mem_map.mp hhead
    exact heq ▸ hnamed node hnode
  · intro node hnode
    exact compileNodes_valid hc hi ht hd hnamed (by simp) h₂ node (hchain.covers.symm.subset hnode)
  · obtain ⟨hsource, htarget⟩ := hchain.joined e he
    exact edge_valid (hidentities _ hsource) (hidentities _ htarget)
  · exact binding_valid (havailable order ∅ hnamed (by simp)) houtput

/-- Edges that are written once satisfy the schema of a set. -/
theorem serialize_edges {edges : List Edge}
    (hedges : ∀ e ∈ edges, Published.edge (serialize e) = true)
    (honce : edges.Nodup) :
    allOf [Schema.items Published.edge, uniqueItems] (serialize edges) = true := by
  have hunique : (edges.map serialize).Nodup := honce.map serialize_injective
  have hitems : (edges.map serialize).all Published.edge = true := by
    refine List.all_eq_true.mpr fun item hitem => ?_
    obtain ⟨e, he, rfl⟩ := List.mem_map.mp hitem
    exact hedges e he
  change allOf [Schema.items Published.edge, uniqueItems] (.array (edges.map serialize)) = true
  simp [allOf, Schema.items, uniqueItems, hunique, -List.all_eq_true, hitems]

theorem serialize_nodes {nodes : List NodeDefinition} {schema : Schema}
    (hnodes : ∀ node ∈ nodes, schema node.toValue = true) (hnonempty : nodes ≠ []) :
    allOf [Schema.items schema, minItems 1] (.array (nodes.map NodeDefinition.toValue)) = true := by
  have hitems : (nodes.map NodeDefinition.toValue).all schema = true := by
    refine List.all_eq_true.mpr fun item hitem => ?_
    obtain ⟨node, hnode, rfl⟩ := List.mem_map.mp hitem
    exact hnodes node hnode
  have hlength : 1 ≤ nodes.length := List.length_pos_iff.mpr hnonempty
  simp [allOf, Schema.items, minItems, hlength, -List.all_eq_true, hitems]

/-- A compiled body is valid, with fuel for its size. -/
theorem body_publishes (hc : Assembled validator c) (hi : WritesIntegers integer)
    (ht : deeper.Tamed) (hd : ∀ n, deeper.Publishes integer n) {b : BodyDefinition}
    {p : PreparedBody} {s s' : Compiler} (h : body c deeper b s = (.ok p, s'))
    (hn : b.toValue.size ≤ n) : bodyWithin integer n b.toValue = true := by
  obtain ⟨entry, nodes, edges, output⟩ := b
  simp only [BodyDefinition.toValue, NodeDefinition.toValues_eq_map, Value.size,
    Value.membersSize] at hn
  obtain ⟨n, rfl⟩ : ∃ m, n = m + 1 := ⟨n - 1, by omega⟩
  have hgraph := body_graphValid hc hi ht (hd n) h
  have hfits : Value.itemsSize (nodes.map NodeDefinition.toValue) ≤ n := by omega
  have hnodes := serialize_nodes (fun node hnode => hgraph.nodes node hnode
    (size_le_of_mem NodeDefinition.toValue hnode hfits)) hgraph.nonempty
  have hedges := serialize_edges hgraph.edges hgraph.once
  have hentry := identity_valid hgraph.entry
  have houtput := hgraph.output
  dsimp only at hnodes hedges hentry houtput
  simp only [bodyWithin, BodyDefinition.toValue, NodeDefinition.toValues_eq_map, record, graph]
  simp [lookup_cons_ite, hnodes, hedges, houtput, hentry]

/-- By induction on the nesting that is left, compiled bodies up to any size are valid. -/
theorem stage_publishes (hc : Assembled validator c) (hi : WritesIntegers integer)
    (remaining : Nat) : ∀ n, (stage c remaining).Publishes integer n := by
  induction remaining with
  | zero => exact fun n => ⟨fun h => (nomatch h), fun h => (nomatch h)⟩
  | succ remaining ih =>
    intro n
    refine ⟨body_publishes hc hi (stage_tame hc.reports remaining) ih, fun h => ?_⟩
    obtain ⟨hcheck, -⟩ := workflow_eq_ok h
    obtain ⟨_, -, hcheck⟩ := bind_eq_ok.mp hcheck
    obtain ⟨_, hexplicit, -⟩ := bind_eq_ok.mp hcheck
    have hexplicit := ensure_eq_ok.mp hexplicit
    simp only [Bool.and_eq_true, decide_eq_true_eq] at hexplicit
    exact ⟨hexplicit.1.2, inexact_empty hexplicit.2⟩

/-- What is compiled as a workflow is valid. -/
theorem workflow_publishes (hc : Assembled validator c) (hi : WritesIntegers integer)
    (remaining : Nat) {d : WorkflowDefinition} {p : Plan} {s s' : Compiler}
    (h : (stage c (remaining + 1)).workflow d s = (.ok p, s')) :
    definition integer (serialize d) = true := by
  obtain ⟨hcheck, -, s₁, hparts, -⟩ := workflow_eq_ok h
  obtain ⟨_, -, hcheck⟩ := bind_eq_ok.mp hcheck
  obtain ⟨_, hexplicit, -⟩ := bind_eq_ok.mp hcheck
  have hexplicit := ensure_eq_ok.mp hexplicit
  simp only [Bool.and_eq_true, decide_eq_true_eq] at hexplicit
  obtain ⟨⟨⟨hformat, hdialect⟩, hid⟩, hexact⟩ := hexplicit
  obtain ⟨s₂, s₃, m, -, hinput, houtput, hcompiled, -⟩ := parts_eq_ok hparts
  have hgraph : ∀ n, GraphValid integer n ⟨d.entry, d.nodes, d.edges, d.output⟩ := fun n =>
    body_graphValid hc hi (stage_tame hc.reports remaining) (stage_publishes hc hi remaining n)
      hcompiled
  obtain ⟨format, id, revision, dialect, inputSchema, outputSchema, entry, nodes, edges, output,
    presentation⟩ := d
  dsimp only at hformat hdialect hid hexact hinput houtput hgraph
  subst hformat hdialect
  -- the members of the definition, each valid by its own check
  have hnodes : allOf [Schema.items (node integer), minItems 1] (serialize nodes) = true :=
    serialize_nodes (fun n hn => (hgraph _).nodes n hn le_rfl) (hgraph 0).nonempty
  have hedges := serialize_edges (hgraph 0).edges (hgraph 0).once
  have hentry := identity_valid (hgraph 0).entry
  have hidentity := identity_valid hid
  have hrevision := identity_valid (inexact_empty hexact)
  have hinputs := hc.schema_valid hinput
  have houtputs := hc.schema_valid houtput
  have hresult := (hgraph 0).output
  have hconstant : ∀ s : String, constant s (serialize s) = true := fun s => decide_eq_true rfl
  dsimp only at hnodes hedges hentry hresult
  change definition integer (WorkflowDefinition.toValue _) = true
  have hpresentation : anyObject (serialize presentation) = true := rfl
  -- an empty presentation is not written
  by_cases hempty : presentation = ∅
  · simp [definition, record, graph, WorkflowDefinition.toValue, presentationMember,
      lookup_cons_ite, workflowFormat, schemaDialect, hconstant, hempty, hnodes, hedges, hentry,
      hidentity, hrevision, hinputs, houtputs, hresult]
  · simp [definition, record, graph, WorkflowDefinition.toValue, presentationMember,
      lookup_cons_ite, workflowFormat, schemaDialect, hconstant, hempty, hnodes, hedges, hentry,
      hidentity, hrevision, hinputs, houtputs, hresult, hpresentation]

end Bodies

end Compiler

/-! ## The schema and the implementation agree -/

/-- The published integers accept every number within their bounds as it is written. -/
theorem writesIntegers (integral : String → Option Int) :
    Compiler.WritesIntegers (integerAtLeast integral) :=
  fun _ _ _ h => decide_eq_true h

/-- What a built composition accepts is written as a valid document; and a valid document, whose
integers are literals in the range of their fields, is a definition that reads back as itself. -/
theorem schema_agrees {validator : Validator} {c : Catalog} (hc : Assembled validator c)
    (integral : String → Option Int) :
    (∀ (d : WorkflowDefinition) (p : Plan), prepare c d = .ok p →
      valid integral (serialize d) = true) ∧
    ∀ v : Value, v.distinct = true → valid integral v = true → literalIntegers v = true →
      ∃ d : WorkflowDefinition, deserialize v = some d ∧
        ∃ d' : WorkflowDefinition, deserialize (serialize d) = some d' ∧ d' = d ∧
          d'.semanticValue = d.semanticValue := by
  constructor
  · intro d p hp
    have hcompile : compile c d = (.ok p, (compile c d).2) := Prod.ext hp rfl
    exact Compiler.workflow_publishes hc (writesIntegers integral) c.limits.controlDepth hcompile
  · intro v hdistinct _ hliteral
    obtain ⟨d, hd⟩ := reads_definition v hdistinct hliteral
    exact ⟨d, hd, d, deserialize_serialize d, rfl, rfl⟩

/-- An accepted definition is written as a document that is read back. -/
theorem schema_agrees_sample : ∃ c p, prepare c mainDefinition = .ok p ∧
    valid (fun _ => none) (serialize mainDefinition) = true ∧
    ∃ d : WorkflowDefinition, deserialize (serialize mainDefinition) = some d := by
  obtain ⟨c, hc, hall⟩ := sample_assembled (p := fun c =>
    (prepare c mainDefinition).toOption.any fun _ => true) (by decide +kernel)
  obtain ⟨p, hp, -⟩ := exists_ok hall
  obtain ⟨hwrites, hreads⟩ := schema_agrees hc fun _ => none
  have hvalid := hwrites mainDefinition p hp
  obtain ⟨d, hd, -⟩ := hreads (serialize mainDefinition) (by decide +kernel) hvalid
    (by decide +kernel)
  exact ⟨c, p, hp, hvalid, d, hd⟩

end WorkflowForge.Engine
