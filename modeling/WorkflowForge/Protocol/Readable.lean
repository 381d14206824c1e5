import WorkflowForge.Protocol.Published

/-!
# Reading What Is Published

Every document that is valid under the published schema, with literal integers in the range of
their fields, is read as a definition: each decoder reads the entry of the schema for its type.

## Main results

- `reads_instruction`: the members of a node, less those all nodes have, are an instruction.
- `reads_definition`: a valid document is a definition.
-/

namespace WorkflowForge.Published

open Lib Lib.Schema

/-! ## Flat parts -/

theorem reads_nat {most least : Nat} :
    Reads (deserialize : Value → Option Nat) (literalUpTo most least) := by
  intro v _ hv
  cases v with
  | number n =>
    cases n with
    | posInt n => exact ⟨n, rfl⟩
    | _ => nomatch hv
  | _ => nomatch hv

/-- The published bounds of a 64-bit number are those of its type. -/
theorem reads_uint64 {least : Nat} :
    Reads (deserialize : Value → Option UInt64) (literalUpTo (2 ^ 64 - 1) least) := by
  intro v _ hv
  cases v with
  | number n =>
    cases n with
    | posInt n =>
      have hn : n ≤ 2 ^ 64 - 1 := of_decide_eq_true hv
      have hsize : n < UInt64.size := by
        simp only [UInt64.size]
        omega
      exact ⟨UInt64.ofNat n, by simp [deserialize, hsize]⟩
    | _ => nomatch hv
  | _ => nomatch hv

/-- Those of a 32-bit number as well. -/
theorem reads_uint32 {least : Nat} :
    Reads (deserialize : Value → Option UInt32) (literalUpTo (2 ^ 32 - 1) least) := by
  intro v _ hv
  cases v with
  | number n =>
    cases n with
    | posInt n =>
      have hn : n ≤ 2 ^ 32 - 1 := of_decide_eq_true hv
      have hsize : n < UInt32.size := by
        simp only [UInt32.size]
        omega
      exact ⟨UInt32.ofNat n, by simp [deserialize, hsize]⟩
    | _ => nomatch hv
  | _ => nomatch hv

/-- A text of an enumeration is read when each of its texts is. -/
theorem reads_enumeration {α : Type} [Deserialize α] {ss : List String}
    (h : ∀ s ∈ ss, ∃ a : α, deserialize (.string s) = some a) :
    Reads (deserialize : Value → Option α) (enumeration ss) := by
  intro v _ hv
  cases v with
  | string s => exact h s (List.contains_iff_mem.mp hv)
  | _ => nomatch hv

/-- The revision of an operation has three texts that are not empty. -/
theorem reads_operation :
    Reads (deserialize : Value → Option OperationRevision) operation := by
  intro v hd hv
  obtain ⟨ms, rfl⟩ := record_object hv
  have honly : onlyFields ["id", "contract", "implementation"] ms = true := record_onlyFields hv
  obtain ⟨id, hid⟩ := record_required (k := "id") hv hd reads_nonempty (by simp) rfl
  obtain ⟨contract, hcontract⟩ :=
    record_required (k := "contract") hv hd reads_nonempty (by simp) rfl
  obtain ⟨implementation, himplementation⟩ :=
    record_required (k := "implementation") hv hd reads_nonempty (by simp) rfl
  refine ⟨⟨id, contract, implementation⟩, ?_⟩
  change OperationRevision.fromValue _ = _
  simp [OperationRevision.fromValue, honly, hid, hcontract, himplementation]

theorem reads_edge : Reads (deserialize : Value → Option Edge) edge := by
  intro v hd hv
  obtain ⟨ms, rfl⟩ := record_object hv
  have honly : onlyFields ["from", "to"] ms = true := record_onlyFields hv
  obtain ⟨source, hsource⟩ := record_required (k := "from") hv hd reads_nonempty (by simp) rfl
  obtain ⟨target, htarget⟩ := record_required (k := "to") hv hd reads_nonempty (by simp) rfl
  refine ⟨⟨source, target⟩, ?_⟩
  change Edge.fromValue _ = _
  simp [Edge.fromValue, honly, hsource, htarget]

theorem reads_workflow : Reads (deserialize : Value → Option WorkflowRevision) workflow := by
  intro v hd hv
  obtain ⟨ms, rfl⟩ := record_object hv
  have honly : onlyFields ["id", "revision"] ms = true := record_onlyFields hv
  obtain ⟨id, hid⟩ := record_required (k := "id") hv hd reads_nonempty (by simp) rfl
  obtain ⟨revision, hrevision⟩ :=
    record_required (k := "revision") hv hd reads_nonempty (by simp) rfl
  refine ⟨⟨id, revision⟩, ?_⟩
  change WorkflowRevision.fromValue _ = _
  simp [WorkflowRevision.fromValue, honly, hid, hrevision]

/-- A retry policy may leave out any member, and every member in its bounds is read. -/
theorem reads_retry : Reads (deserialize : Value → Option RetryPolicy) (retry literalUpTo) := by
  intro v hd hv
  obtain ⟨ms, rfl⟩ := record_object hv
  have honly : onlyFields ["max_attempts", "initial_delay_ms", "max_delay_ms", "jitter"] ms =
    true := record_onlyFields hv
  obtain ⟨maxAttempts, h₁⟩ := record_defaulted (k := "max_attempts") hv hd reads_uint32 rfl 1
  obtain ⟨initialDelayMs, h₂⟩ :=
    record_defaulted (k := "initial_delay_ms") hv hd reads_uint64 rfl 100
  obtain ⟨maxDelayMs, h₃⟩ := record_defaulted (k := "max_delay_ms") hv hd reads_uint64 rfl 30000
  obtain ⟨jitter, h₄⟩ := record_defaulted (k := "jitter") hv hd reads_boolean rfl true
  refine ⟨⟨maxAttempts, initialDelayMs, maxDelayMs, jitter⟩, ?_⟩
  change RetryPolicy.fromValue _ = _
  simp [RetryPolicy.fromValue, honly, h₁, h₂, h₃, h₄]

/-- Both modes of a group are read. -/
theorem reads_groupErrors : Reads (deserialize : Value → Option GroupErrors) groupErrors := by
  apply reads_enumeration
  intro s hs
  obtain rfl | rfl : s = "fail_fast" ∨ s = "collect" := by simpa using hs
  · exact ⟨.failFast, rfl⟩
  · exact ⟨.collect, rfl⟩

theorem reads_loopLimit :
    Reads (deserialize : Value → Option LoopLimit) (enumeration ["fail", "return_last"]) := by
  apply reads_enumeration
  intro s hs
  obtain rfl | rfl : s = "fail" ∨ s = "return_last" := by simpa using hs
  · exact ⟨.fail, rfl⟩
  · exact ⟨.returnLast, rfl⟩

theorem reads_joinPolicy : Reads (deserialize : Value → Option JoinPolicy) (constant "all") := by
  intro v _ hv
  cases v with
  | string s =>
    obtain rfl : s = "all" := of_decide_eq_true hv
    exact ⟨.all, rfl⟩
  | _ => nomatch hv

/-! ## Bindings -/

theorem reads_source :
    Reads (deserialize : Value → Option DataSource) (enumeration ["input", "node"]) := by
  apply reads_enumeration
  intro s hs
  obtain rfl | rfl : s = "input" ∨ s = "node" := by simpa using hs
  · exact ⟨.input, rfl⟩
  · exact ⟨.node, rfl⟩

/-- A selection is read when its fallback is. -/
theorem reads_selection {dec : Value → Option Binding} {s : Schema} (h : Reads dec s) :
    Reads (Selection.fromValue dec) (selection s) := by
  intro v hd hv
  have hv := List.all_eq_true.mp hv _ List.mem_cons_self
  obtain ⟨ms, rfl⟩ := record_object hv
  have honly : onlyFields ["source", "node", "pointer", "fallback"] ms = true :=
    record_onlyFields hv
  obtain ⟨source, hsource⟩ := record_required (k := "source") hv hd reads_source (by simp) rfl
  obtain ⟨node, hnode⟩ := record_defaulted (k := "node") hv hd reads_nonempty.present rfl none
  obtain ⟨pointer, hpointer⟩ :=
    record_required (k := "pointer") hv hd reads_pattern (by simp) rfl
  obtain ⟨fallback, hfallback⟩ := record_defaulted (k := "fallback") hv hd h.present rfl none
  refine ⟨⟨source, node, pointer, fallback⟩, ?_⟩
  simp [Selection.fromValue, honly, hsource, hnode, hpointer, hfallback]

/-- A record of one name is an object of one member. -/
theorem record_singleton {k : String} {s : Schema} {v : Value} (hd : v.distinct = true)
    (h : record [k] [(k, s)] v = true) : ∃ w, v = .object [(k, w)] ∧ s w = true := by
  obtain ⟨ms, rfl⟩ := record_object h
  obtain ⟨w, hw⟩ := record_present h List.mem_cons_self
  have hkeys : ∀ m ∈ ms, m.1 = k := by
    intro m hm
    obtain ⟨t, ht, -⟩ := (record_eq_true.mp h).2 m hm
    by_contra hne
    have hnone : List.lookup m.1 [(k, s)] = none := by
      rw [List.lookup_cons, beq_false_of_ne hne, List.lookup_nil]
    rw [hnone] at ht
    nomatch ht
  have hholds : s w = true := record_lookup h hw (by simp)
  obtain ⟨hnodup, -⟩ := Value.distinct_object.mp hd
  cases ms with
  | nil => nomatch hw
  | cons m ms =>
    -- a second member would have the name of the first
    cases ms with
    | cons m' ms =>
      have hfirst := hkeys m (by simp)
      have hsecond := hkeys m' (by simp)
      simp [hfirst, hsecond] at hnodup
    | nil =>
      obtain ⟨l, u⟩ := m
      obtain rfl : l = k := hkeys _ List.mem_cons_self
      obtain rfl : u = w := by simpa using hw
      exact ⟨u, rfl, hholds⟩

/-- By induction on the nesting, bindings of any kind are read. -/
theorem reads_bindingWithin (n : Nat) : Reads (Binding.fromValue n) (bindingWithin n) := by
  induction n with
  | zero => exact fun v _ hv => nomatch hv
  | succ n ih =>
    refine Reads.oneOf fun s hs v hd hv => ?_
    simp only [bindings, List.map_cons, List.map_nil, List.mem_cons, List.not_mem_nil,
      or_false] at hs
    rcases hs with rfl | rfl | rfl | rfl
    · obtain ⟨w, rfl, -⟩ := record_singleton hd hv
      exact ⟨.literal w, rfl⟩
    · obtain ⟨w, rfl, hw⟩ := record_singleton hd hv
      obtain ⟨a, ha⟩ := reads_selection ih w (Value.distinct_member hd List.mem_cons_self) hw
      exact ⟨.select a, by simp [Binding.fromValue, ha]⟩
    · obtain ⟨w, rfl, hw⟩ := record_singleton hd hv
      obtain ⟨a, ha⟩ := ih.fields w (Value.distinct_member hd List.mem_cons_self) hw
      exact ⟨.object a, by simp [Binding.fromValue, ha]⟩
    · obtain ⟨w, rfl, hw⟩ := record_singleton hd hv
      obtain ⟨a, ha⟩ := ih.items w (Value.distinct_member hd List.mem_cons_self) hw
      exact ⟨.array a, by simp [Binding.fromValue, ha]⟩

theorem reads_binding : Reads (deserialize : Value → Option Binding) binding :=
  fun v hd hv => reads_bindingWithin v.size v hd hv

/-- The operation that announces a signal is read with all its members. -/
theorem reads_signalStart :
    Reads (deserialize : Value → Option SignalStart) (signalStart literalUpTo) := by
  intro v hd hv
  obtain ⟨ms, rfl⟩ := record_object hv
  have honly : onlyFields ["operation", "config", "input", "retry"] ms = true :=
    record_onlyFields hv
  obtain ⟨revision, h₁⟩ := record_required (k := "operation") hv hd reads_operation (by simp) rfl
  obtain ⟨config, h₂⟩ := record_required (k := "config") hv hd reads_anything (by simp) rfl
  obtain ⟨input, h₃⟩ := record_required (k := "input") hv hd reads_binding (by simp) rfl
  obtain ⟨policy, h₄⟩ := record_defaulted (k := "retry") hv hd reads_retry rfl {}
  refine ⟨⟨revision, config, input, policy⟩, ?_⟩
  change SignalStart.fromValue _ = _
  simp [SignalStart.fromValue, honly, h₁, h₂, h₃, h₄]

/-! ## Instructions and nodes -/

section Bodies

variable {dec : Value → Option BodyDefinition} {body : Schema}

/-- A case is read when its body is. -/
theorem reads_decisionCase (h : Reads dec body) :
    Reads (DecisionCase.fromValue dec) (decisionCase body) := by
  intro v hd hv
  obtain ⟨ms, rfl⟩ := record_object hv
  have honly : onlyFields ["id", "when", "body"] ms = true := record_onlyFields hv
  obtain ⟨id, hid⟩ := record_required (k := "id") hv hd reads_nonempty (by simp) rfl
  obtain ⟨condition, hwhen⟩ := record_required (k := "when") hv hd reads_binding (by simp) rfl
  obtain ⟨inner, hbody⟩ := record_required (k := "body") hv hd h (by simp) rfl
  exact ⟨⟨id, condition, inner⟩, by simp [DecisionCase.fromValue, honly, hid, hwhen, hbody]⟩

/-- So is a handler. -/
theorem reads_errorCase (h : Reads dec body) :
    Reads (ErrorCase.fromValue dec) (errorCase body) := by
  intro v hd hv
  obtain ⟨ms, rfl⟩ := record_object hv
  have honly : onlyFields ["id", "code", "body"] ms = true := record_onlyFields hv
  obtain ⟨id, hid⟩ := record_required (k := "id") hv hd reads_nonempty (by simp) rfl
  obtain ⟨code, hcode⟩ := record_required (k := "code") hv hd reads_nonempty (by simp) rfl
  obtain ⟨inner, hbody⟩ := record_required (k := "body") hv hd h (by simp) rfl
  exact ⟨⟨id, code, inner⟩, by simp [ErrorCase.fromValue, honly, hid, hcode, hbody]⟩

/-- And a fallback. -/
theorem reads_fallback (h : Reads dec body) :
    Reads (FallbackCase.fromValue dec) (fallback body) := by
  intro v hd hv
  obtain ⟨ms, rfl⟩ := record_object hv
  have honly : onlyFields ["id", "body"] ms = true := record_onlyFields hv
  obtain ⟨id, hid⟩ := record_required (k := "id") hv hd reads_nonempty (by simp) rfl
  obtain ⟨inner, hbody⟩ := record_required (k := "body") hv hd h (by simp) rfl
  exact ⟨⟨id, inner⟩, by simp [FallbackCase.fromValue, honly, hid, hbody]⟩

/-- A node without the fields that all nodes have is the record of its instruction. -/
def instructionOf (kind : String) (needed : List String) (known : List (String × Schema)) :
    Schema :=
  record ("kind" :: needed) (("kind", constant kind) :: known)

/-- The decoder of instructions reads the record of an instruction. -/
def ReadsInstruction (dec : Value → Option BodyDefinition) (kind : String)
    (needed : List String) (known : List (String × Schema)) : Prop :=
  ∀ ms : List (String × Value), Value.distinct (.object ms) = true →
    instructionOf kind needed known (.object ms) = true →
    ∃ i, Instruction.fromMembers dec ms = some i

/-- A node is read when its instruction is, whose fields are not among those all nodes have. -/
theorem reads_nodeOf {kind : String} {needed : List String} {known : List (String × Schema)}
    (hneeded : (needed.filter fun k => k != "id" && k != "input") = needed)
    (hknown : (known.filter fun m => m.1 != "id" && m.1 != "input") = known)
    (h : ReadsInstruction dec kind needed known) :
    Reads (NodeDefinition.fromValue dec) (nodeOf kind needed known) := by
  intro v hd hv
  obtain ⟨ms, rfl⟩ := record_object hv
  obtain ⟨id, hid⟩ := record_required (k := "id") hv hd reads_nonempty (by simp) rfl
  obtain ⟨input, hinput⟩ := record_required (k := "input") hv hd reads_binding (by simp) rfl
  -- what is flattened in the source is the rest of the members
  have hrest : instructionOf kind needed known
      (.object (ms.filter fun m => m.1 != "id" && m.1 != "input")) = true := by
    have hfilter := record_filter (fun k => k != "id" && k != "input") hv
    have hneeded' : (("id" :: "kind" :: "input" :: needed).filter fun k =>
        k != "id" && k != "input") = "kind" :: needed := by
      simpa using hneeded
    have hknown' : ((("id", identity) :: ("kind", constant kind) :: ("input", binding) ::
        known).filter fun m => m.1 != "id" && m.1 != "input") =
        ("kind", constant kind) :: known := by
      simpa using hknown
    rw [hneeded', hknown'] at hfilter
    exact hfilter
  have hdistinct : Value.distinct
      (.object (ms.filter fun m => m.1 != "id" && m.1 != "input")) = true := by
    obtain ⟨hnodup, hmembers⟩ := Value.distinct_object.mp hd
    refine Value.distinct_object.mpr ⟨?_, fun m hm => hmembers m (List.mem_of_mem_filter hm)⟩
    exact hnodup.sublist (List.filter_sublist.map Prod.fst)
  obtain ⟨i, hi⟩ := h _ hdistinct hrest
  exact ⟨⟨id, input, i⟩, by simp [NodeDefinition.fromValue, hid, hinput, hi]⟩

/-- The kind of an instruction is what its record says. -/
theorem lookup_kind {kind : String} {needed : List String} {known : List (String × Schema)}
    {ms : List (String × Value)} (h : instructionOf kind needed known (.object ms) = true) :
    ms.lookup "kind" = some (.string kind) :=
  record_constant h List.mem_cons_self rfl

/-- An operation may leave out its retry policy. -/
theorem readsInstruction_operation :
    ReadsInstruction dec "operation" ["operation", "config"]
      [("operation", operation), ("config", anything), ("retry", retry literalUpTo)] := by
  intro ms hd hv
  have honly : onlyFields ["kind", "operation", "config", "retry"] ms = true :=
    record_onlyFields hv
  obtain ⟨revision, h₁⟩ := record_required (k := "operation") hv hd reads_operation (by simp) rfl
  obtain ⟨config, h₂⟩ := record_required (k := "config") hv hd reads_anything (by simp) rfl
  obtain ⟨policy, h₃⟩ := record_defaulted (k := "retry") hv hd reads_retry rfl {}
  exact ⟨.operation revision config policy, by
    simp [Instruction.fromMembers, lookup_kind hv, honly, h₁, h₂, h₃]⟩

/-- A decision may leave out its fallback. -/
theorem readsInstruction_decision (h : Reads dec body) :
    ReadsInstruction dec "decision" ["cases"]
      [("cases", items (decisionCase body)), ("fallback", fallback body)] := by
  intro ms hd hv
  have honly : onlyFields ["kind", "cases", "fallback"] ms = true := record_onlyFields hv
  obtain ⟨cases, h₁⟩ :=
    record_required (k := "cases") hv hd (reads_decisionCase h).items (by simp) rfl
  obtain ⟨otherwise, h₂⟩ :=
    record_defaulted (k := "fallback") hv hd (reads_fallback h).present rfl none
  exact ⟨.decision cases otherwise, by
    simp [Instruction.fromMembers, lookup_kind hv, honly, h₁, h₂]⟩

/-- A parallel node gives all its members. -/
theorem readsInstruction_parallel (h : Reads dec body) :
    ReadsInstruction dec "parallel" ["branches", "concurrency", "errors", "join"]
      [("branches", branches body), ("concurrency", concurrency literalUpTo),
       ("errors", groupErrors), ("join", constant "all")] := by
  intro ms hd hv
  have honly : onlyFields ["kind", "branches", "concurrency", "errors", "join"] ms = true :=
    record_onlyFields hv
  obtain ⟨bodies, h₁⟩ :=
    record_required (k := "branches") hv hd (h.fields.allOf List.mem_cons_self) (by simp) rfl
  obtain ⟨limit, h₂⟩ := record_required (k := "concurrency") hv hd reads_nat (by simp) rfl
  obtain ⟨errors, h₃⟩ := record_required (k := "errors") hv hd reads_groupErrors (by simp) rfl
  obtain ⟨join, h₄⟩ := record_required (k := "join") hv hd reads_joinPolicy (by simp) rfl
  exact ⟨.parallel bodies limit errors join, by
    simp [Instruction.fromMembers, lookup_kind hv, honly, h₁, h₂, h₃, h₄]⟩

/-- So does a foreach node. -/
theorem readsInstruction_foreach (h : Reads dec body) :
    ReadsInstruction dec "foreach" ["items", "body", "concurrency", "errors"]
      [("items", binding), ("body", body), ("concurrency", concurrency literalUpTo),
       ("errors", groupErrors)] := by
  intro ms hd hv
  have honly : onlyFields ["kind", "items", "body", "concurrency", "errors"] ms = true :=
    record_onlyFields hv
  obtain ⟨items, h₁⟩ := record_required (k := "items") hv hd reads_binding (by simp) rfl
  obtain ⟨inner, h₂⟩ := record_required (k := "body") hv hd h (by simp) rfl
  obtain ⟨limit, h₃⟩ := record_required (k := "concurrency") hv hd reads_nat (by simp) rfl
  obtain ⟨errors, h₄⟩ := record_required (k := "errors") hv hd reads_groupErrors (by simp) rfl
  exact ⟨.foreach items inner limit errors, by
    simp [Instruction.fromMembers, lookup_kind hv, honly, h₁, h₂, h₃, h₄]⟩

/-- And a loop, with a bound that is positive. -/
theorem readsInstruction_loop (h : Reads dec body) :
    ReadsInstruction dec "loop" ["while", "body", "max_iterations", "on_limit"]
      [("while", binding), ("body", body), ("max_iterations", literalUpTo (2 ^ 64 - 1) 1),
       ("on_limit", enumeration ["fail", "return_last"])] := by
  intro ms hd hv
  have honly : onlyFields ["kind", "while", "body", "max_iterations", "on_limit"] ms = true :=
    record_onlyFields hv
  obtain ⟨condition, h₁⟩ := record_required (k := "while") hv hd reads_binding (by simp) rfl
  obtain ⟨inner, h₂⟩ := record_required (k := "body") hv hd h (by simp) rfl
  obtain ⟨limit, h₃⟩ := record_required (k := "max_iterations") hv hd reads_nat (by simp) rfl
  obtain ⟨onLimit, h₄⟩ := record_required (k := "on_limit") hv hd reads_loopLimit (by simp) rfl
  exact ⟨.loop condition inner limit onLimit, by
    simp [Instruction.fromMembers, lookup_kind hv, honly, h₁, h₂, h₃, h₄]⟩

/-- A subworkflow names its revision. -/
theorem readsInstruction_subworkflow :
    ReadsInstruction dec "subworkflow" ["workflow"] [("workflow", workflow)] := by
  intro ms hd hv
  have honly : onlyFields ["kind", "workflow"] ms = true := record_onlyFields hv
  obtain ⟨revision, h₁⟩ := record_required (k := "workflow") hv hd reads_workflow (by simp) rfl
  exact ⟨.subworkflow revision, by
    simp [Instruction.fromMembers, lookup_kind hv, honly, h₁]⟩

/-- A timer has a duration, which may be zero. -/
theorem readsInstruction_timer :
    ReadsInstruction dec "timer" ["duration_ms"]
      [("duration_ms", literalUpTo (2 ^ 64 - 1) 0)] := by
  intro ms hd hv
  have honly : onlyFields ["kind", "duration_ms"] ms = true := record_onlyFields hv
  obtain ⟨duration, h₁⟩ := record_required (k := "duration_ms") hv hd reads_uint64 (by simp) rfl
  exact ⟨.timer duration, by simp [Instruction.fromMembers, lookup_kind hv, honly, h₁]⟩

/-- A wait may leave out the operation that announces it. -/
theorem readsInstruction_awaitSignal :
    ReadsInstruction dec "await_signal" ["correlation", "timeout_ms", "payload_schema"]
      [("correlation", binding), ("timeout_ms", literalUpTo (2 ^ 64 - 1) 1),
       ("payload_schema", schema), ("start", signalStart literalUpTo)] := by
  intro ms hd hv
  have honly : onlyFields ["kind", "correlation", "timeout_ms", "payload_schema", "start"] ms =
    true := record_onlyFields hv
  obtain ⟨correlation, h₁⟩ :=
    record_required (k := "correlation") hv hd reads_binding (by simp) rfl
  obtain ⟨timeout, h₂⟩ := record_required (k := "timeout_ms") hv hd reads_uint64 (by simp) rfl
  obtain ⟨payload, h₃⟩ :=
    record_required (k := "payload_schema") hv hd reads_anything (by simp) rfl
  obtain ⟨start, h₄⟩ := record_defaulted (k := "start") hv hd reads_signalStart.present rfl none
  exact ⟨.awaitSignal correlation timeout payload start, by
    simp [Instruction.fromMembers, lookup_kind hv, honly, h₁, h₂, h₃, h₄]⟩

/-- A try node may leave out its handlers, but not its fallback. -/
theorem readsInstruction_try (h : Reads dec body) :
    ReadsInstruction dec "try" ["body", "fallback"]
      [("body", body), ("catches", items (errorCase body)), ("fallback", fallback body)] := by
  intro ms hd hv
  have honly : onlyFields ["kind", "body", "catches", "fallback"] ms = true :=
    record_onlyFields hv
  obtain ⟨inner, h₁⟩ := record_required (k := "body") hv hd h (by simp) rfl
  obtain ⟨catches, h₂⟩ :=
    record_defaulted (k := "catches") hv hd (reads_errorCase h).items rfl []
  obtain ⟨otherwise, h₃⟩ :=
    record_required (k := "fallback") hv hd (reads_fallback h) (by simp) rfl
  exact ⟨.try inner catches otherwise, by
    simp [Instruction.fromMembers, lookup_kind hv, honly, h₁, h₂, h₃]⟩

/-- A node of every kind is read, when the bodies nested in it are. -/
theorem reads_nodeWith (h : Reads dec body) :
    Reads (NodeDefinition.fromValue dec) (nodeWith literalUpTo body) := by
  refine Reads.oneOf fun s hs => ?_
  simp only [nodes, List.map_cons, List.map_nil, List.mem_cons, List.not_mem_nil,
    or_false] at hs
  rcases hs with rfl | rfl | rfl | rfl | rfl | rfl | rfl | rfl | rfl
  · exact reads_nodeOf (by decide) (by simp) readsInstruction_operation
  · exact reads_nodeOf (by decide) (by simp) (readsInstruction_decision h)
  · exact reads_nodeOf (by decide) (by simp) (readsInstruction_parallel h)
  · exact reads_nodeOf (by decide) (by simp) (readsInstruction_foreach h)
  · exact reads_nodeOf (by decide) (by simp) (readsInstruction_loop h)
  · exact reads_nodeOf (by decide) (by simp) readsInstruction_subworkflow
  · exact reads_nodeOf (by decide) (by simp) readsInstruction_timer
  · exact reads_nodeOf (by decide) (by simp) readsInstruction_awaitSignal
  · exact reads_nodeOf (by decide) (by simp) (readsInstruction_try h)

end Bodies

/-! ## Definitions -/

/-- By induction on the nesting of bodies, with the nodes of each kind. -/
theorem reads_bodyWithin (n : Nat) :
    Reads (BodyDefinition.fromValue n) (bodyWithin literalUpTo n) := by
  induction n with
  | zero => exact fun v _ hv => nomatch hv
  | succ n ih =>
    intro v hd hv
    obtain ⟨ms, rfl⟩ := record_object hv
    have honly : onlyFields ["entry", "nodes", "edges", "output"] ms = true :=
      record_onlyFields hv
    obtain ⟨entry, h₁⟩ := record_required (k := "entry") hv hd reads_nonempty (by simp) rfl
    obtain ⟨nodes, h₂⟩ := record_required (k := "nodes") hv hd
      ((reads_nodeWith ih).items.allOf List.mem_cons_self) (by simp) rfl
    obtain ⟨edges, h₃⟩ := record_required (k := "edges") hv hd
      (reads_edge.list.allOf List.mem_cons_self) (by simp) rfl
    obtain ⟨output, h₄⟩ := record_required (k := "output") hv hd reads_binding (by simp) rfl
    exact ⟨⟨entry, nodes, edges, output⟩, by
      simp [BodyDefinition.fromValue, honly, h₁, h₂, h₃, h₄]⟩

theorem reads_node : Reads (deserialize : Value → Option NodeDefinition) (node literalUpTo) :=
  fun v hd hv => reads_nodeWith (reads_bodyWithin v.size) v hd hv

/-- A valid document, whose integers are literals in range, is a definition. -/
theorem reads_definition :
    Reads (deserialize : Value → Option WorkflowDefinition) literalIntegers := by
  intro v hd hv
  obtain ⟨ms, rfl⟩ := record_object hv
  -- no member is unknown, and each known one reads
  have honly : onlyFields ["format", "id", "revision", "schema_dialect", "input_schema",
    "output_schema", "entry", "nodes", "edges", "output", "presentation"] ms = true :=
    record_onlyFields hv
  obtain ⟨format, h₁⟩ := record_required (k := "format") hv hd reads_constant (by simp) rfl
  obtain ⟨id, h₂⟩ := record_required (k := "id") hv hd reads_nonempty (by simp) rfl
  obtain ⟨revision, h₃⟩ := record_required (k := "revision") hv hd reads_nonempty (by simp) rfl
  obtain ⟨dialect, h₄⟩ :=
    record_required (k := "schema_dialect") hv hd reads_constant (by simp) rfl
  obtain ⟨input, h₅⟩ :=
    record_required (k := "input_schema") hv hd reads_anything (by simp) rfl
  obtain ⟨outputSchema, h₆⟩ :=
    record_required (k := "output_schema") hv hd reads_anything (by simp) rfl
  obtain ⟨entry, h₇⟩ := record_required (k := "entry") hv hd reads_nonempty (by simp) rfl
  obtain ⟨nodes, h₈⟩ := record_required (k := "nodes") hv hd
    (reads_node.list.allOf List.mem_cons_self) (by simp) rfl
  obtain ⟨edges, h₉⟩ := record_required (k := "edges") hv hd
    (reads_edge.list.allOf List.mem_cons_self) (by simp) rfl
  obtain ⟨output, h₁₀⟩ := record_required (k := "output") hv hd reads_binding (by simp) rfl
  obtain ⟨presentation, h₁₁⟩ :=
    record_defaulted (k := "presentation") hv hd reads_anyObject rfl ∅
  refine ⟨⟨format, id, revision, dialect, input, outputSchema, entry, nodes, edges, output,
    presentation⟩, ?_⟩
  change WorkflowDefinition.fromValue _ = _
  simp [WorkflowDefinition.fromValue, honly, h₁, h₂, h₃, h₄, h₅, h₆, h₇, h₈, h₉, h₁₀, h₁₁]

end WorkflowForge.Published
