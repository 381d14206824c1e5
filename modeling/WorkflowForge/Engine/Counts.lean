import WorkflowForge.Engine.Compiler

/-!
# Growing Counts and Reported Errors

Compiling only adds to the counts of a plan and to what was collected, also where it fails,
and every error of the compiler carries a diagnostic. So the compiler accepts a body only if
each of its nodes was compiled.

## Main results

- `stage_tame`: the compiler keeps to both, at every level of nesting.
- `compileNodes_eq_ok`: nodes that are accepted were compiled one after the other.
-/

namespace WorkflowForge.Engine

open Lib

/-- An error with something to report. -/
def Reported (e : ForgeError) : Prop :=
  e.diagnostics ≠ []

/-- An error that is made on the spot has its one diagnostic. -/
theorem reported_new (code message : String) : Reported (.new code message) :=
  List.cons_ne_nil _ _

/-- Naming the place of an error keeps its diagnostics. -/
theorem Reported.located {e : ForgeError} (h : Reported e) (node : Option String)
    (field : String) : Reported (located e node field) :=
  fun he => h (List.map_eq_nil_iff.mp he)

/-! ## Errors of checks -/

mutual
/-- Only the depth of a value makes its walk fail. -/
theorem walk_error {max depth : Nat} {v : Value} {e : ForgeError}
    (h : walk max depth v = .error e) : e = tooDeep := by
  unfold walk at h
  split at h
  · exact (Except.error.inj h).symm
  · cases v with
    | array items => exact walkItems_error (map_eq_error.mp h)
    | object members => exact walkMembers_error (map_eq_error.mp h)
    | _ => nomatch h

theorem walkItems_error {max depth : Nat} {items : List Value} {e : ForgeError}
    (h : walkItems max depth items = .error e) : e = tooDeep := by
  cases items with
  | nil => nomatch h
  | cons v rest =>
    rcases bind_eq_error.mp h with h | ⟨_, -, h⟩
    · exact walk_error h
    rcases bind_eq_error.mp h with h | ⟨_, -, h⟩
    · exact walkItems_error h
    · nomatch h

theorem walkMembers_error {max depth : Nat} {members : List (String × Value)} {e : ForgeError}
    (h : walkMembers max depth members = .error e) : e = tooDeep := by
  cases members with
  | nil => nomatch h
  | cons m rest =>
    obtain ⟨name, v⟩ := m
    rcases bind_eq_error.mp h with h | ⟨_, -, h⟩
    · exact walk_error h
    rcases bind_eq_error.mp h with h | ⟨_, -, h⟩
    · exact walkMembers_error h
    · nomatch h
end

/-- A value beyond its bytes or its depth is reported. -/
theorem checkValue_reported {v : Value} {bytes depth : Nat} {e : ForgeError}
    (h : checkValue v bytes depth = .error e) : Reported e := by
  rcases bind_eq_error.mp h with h | ⟨_, -, h⟩
  · exact walk_error h ▸ reported_new _ _
  rcases bind_eq_error.mp h with h | ⟨_, -, h⟩
  · exact (ensure_eq_error.mp h).2 ▸ reported_new _ _
  · nomatch h

/-- So is a value that its schema refuses. -/
theorem validate_reported {schema : CompiledSchema} {v : Value} {limits : Limits}
    {e : ForgeError} (h : schema.validate v limits = .error e) : Reported e := by
  rcases bind_eq_error.mp h with h | ⟨_, -, h⟩
  · exact checkValue_reported h
  rcases bind_eq_error.mp h with h | ⟨_, -, h⟩
  · exact (ensure_eq_error.mp h).2 ▸ reported_new _ _
  split at h
  · exact Except.error.inj h ▸ List.cons_ne_nil _ _
  · nomatch h

theorem mapping_reported (message : String) : Reported (Mapping.invalid message) :=
  reported_new _ _

theorem decodeTokens_reported {ts : List (List Char)} {e : ForgeError}
    (h : ts.mapM (fun token => okOr ((Mapping.decodeToken token).map String.ofList)
      (Mapping.invalid "Invalid JSON Pointer escape")) = .error e) : Reported e := by
  induction ts with
  | nil => nomatch h
  | cons t ts ih =>
    rw [List.mapM_cons] at h
    rcases bind_eq_error.mp h with h | ⟨_, -, h⟩
    · exact (okOr_eq_error.mp h).2 ▸ mapping_reported _
    rcases bind_eq_error.mp h with h | ⟨_, -, h⟩
    · exact ih h
    · nomatch h

/-- A pointer with a bad escape is reported. -/
theorem tokens_reported {pointer : String} {e : ForgeError}
    (h : Mapping.tokens pointer = .error e) : Reported e := by
  unfold Mapping.tokens at h
  split at h
  · nomatch h
  · exact decodeTokens_reported h
  · exact Except.error.inj h ▸ mapping_reported _

mutual
/-- Every check of a binding, at any depth of it, reports what it refuses. -/
theorem visit_reported {available : BTreeSet String} {limits : Limits} {depth steps : Nat}
    {b : Binding} {e : ForgeError} (h : b.visit available limits depth steps = .error e) :
    Reported e := by
  unfold Binding.visit at h
  split at h
  · exact Except.error.inj h ▸ mapping_reported _
  -- the steps are checked after the parts
  · have hlast : ∀ steps : Nat, (ensure (steps ≤ limits.bindingSteps) Mapping.overBudget >>=
        fun _ => (pure steps : Except ForgeError Nat)) = .error e → Reported e := by
      intro steps h
      rcases bind_eq_error.mp h with h | ⟨_, -, h⟩
      · exact (ensure_eq_error.mp h).2 ▸ mapping_reported _
      · nomatch h
    cases b with
    | select s =>
      rcases bind_eq_error.mp h with h | ⟨_, -, h⟩
      · exact selection_reported h
      · exact hlast _ h
    | object fields =>
      rcases bind_eq_error.mp h with h | ⟨_, -, h⟩
      · exact visitFields_reported h
      · exact hlast _ h
    | array items =>
      rcases bind_eq_error.mp h with h | ⟨_, -, h⟩
      · exact visitItems_reported h
      · exact hlast _ h
    | literal v =>
      rcases bind_eq_error.mp h with h | ⟨_, -, h⟩
      · exact checkValue_reported (map_eq_error.mp h)
      · exact hlast _ h

theorem selection_reported {available : BTreeSet String} {limits : Limits} {depth steps : Nat}
    {s : Selection} {e : ForgeError} (h : s.visit available limits depth steps = .error e) :
    Reported e := by
  obtain ⟨source, node, pointer, fallback⟩ := s
  unfold Selection.visit at h
  rcases bind_eq_error.mp h with h | ⟨_, -, h⟩
  · exact tokens_reported h
  rcases bind_eq_error.mp h with h | ⟨_, -, h⟩
  · exact (ensure_eq_error.mp h).2 ▸ mapping_reported _
  · cases fallback with
    | none => nomatch h
    | some b => exact visit_reported h

theorem visitFields_reported {available : BTreeSet String} {limits : Limits} {depth steps : Nat}
    {fields : List (String × Binding)} {e : ForgeError}
    (h : Binding.visitFields available limits depth steps fields = .error e) : Reported e := by
  cases fields with
  | nil => nomatch h
  | cons field fields =>
    obtain ⟨name, b⟩ := field
    rcases bind_eq_error.mp h with h | ⟨_, -, h⟩
    · exact visit_reported h
    · exact visitFields_reported h

theorem visitItems_reported {available : BTreeSet String} {limits : Limits} {depth steps : Nat}
    {items : List Binding} {e : ForgeError}
    (h : Binding.visitItems available limits depth steps items = .error e) : Reported e := by
  cases items with
  | nil => nomatch h
  | cons b items =>
    rcases bind_eq_error.mp h with h | ⟨_, -, h⟩
    · exact visit_reported h
    · exact visitItems_reported h
end

/-- The check of a whole binding reports what it refuses. -/
theorem check_reported {b : Binding} {available : BTreeSet String} {limits : Limits}
    {e : ForgeError} (h : b.check available limits = .error e) : Reported e :=
  visit_reported (map_eq_error.mp h)

/-- So does the check of a binding that has no nodes before it. -/
theorem contextBinding_reported {b : Binding} {limits : Limits} {boolean : Bool}
    {e : ForgeError} (h : contextBinding b limits boolean = .error e) : Reported e := by
  rcases bind_eq_error.mp h with h | ⟨_, -, h⟩
  · exact check_reported h
  split at h
  · exact (ensure_eq_error.mp h).2 ▸ reported_new _ _
  · nomatch h

/-- A failed check reports the error that it was given. -/
theorem ensure_reported {b : Bool} {e e' : ForgeError} (he : Reported e)
    (h : ensure b e = .error e') : Reported e' :=
  (ensure_eq_error.mp h).2 ▸ he

/-- Collected diagnostics are an error as soon as there are any. -/
theorem collected_reported {ds : List Diagnostic} {e : ForgeError}
    (h : ensure ds.isEmpty ⟨ds⟩ = .error e) : Reported e := by
  obtain ⟨hfalse, rfl⟩ := ensure_eq_error.mp h
  exact fun hempty => Bool.noConfusion ((List.isEmpty_iff.mpr hempty).symm.trans hfalse)

/-- A chain of nodes that cannot be walked is reported. -/
theorem walkChain_reported {nodes : BTreeMap String NodeDefinition}
    {next : BTreeMap String String} {fuel : Nat} {visited : List String} {id : String}
    {e : ForgeError} (h : walkChain nodes next fuel visited id = .error e) : Reported e := by
  induction fuel generalizing visited id with
  | zero => exact Except.error.inj h ▸ reported_new _ _
  | succ fuel ih =>
    rcases bind_eq_error.mp h with h | ⟨_, -, h⟩
    · exact ensure_reported (reported_new _ _) h
    rcases bind_eq_error.mp h with h | ⟨_, -, h⟩
    · exact (okOr_eq_error.mp h).2 ▸ reported_new _ _
    split at h
    · nomatch h
    · rcases bind_eq_error.mp h with h | ⟨_, -, h⟩
      · exact ih h
      · nomatch h

/-- Every way for a body to have no order is reported. -/
theorem ordered_reported {entry : String} {nodes : List NodeDefinition} {edges : List Edge}
    {e : ForgeError} (h : ordered entry nodes edges = .error e) : Reported e := by
  unfold ordered at h
  rcases bind_eq_error.mp h with h | ⟨_, -, h⟩
  · exact ensure_reported (reported_new _ _) h
  rcases bind_eq_error.mp h with h | ⟨_, -, h⟩
  · exact collected_reported h
  rcases bind_eq_error.mp h with h | ⟨_, -, h⟩
  · exact walkChain_reported h
  rcases bind_eq_error.mp h with h | ⟨_, -, h⟩
  · exact ensure_reported (reported_new _ _) h
  · nomatch h

/-! ## Growth -/

/-- The schema compiler reports its errors. -/
def Catalog.Reports (c : Catalog) : Prop :=
  ∀ resources schema e, c.compile resources schema = .error e → Reported e

/-- A schema is refused by the validator, which reports, or by the catalog. -/
theorem compileSchema_reported {c : Catalog} (hc : c.Reports) {schema : Value} {e : ForgeError}
    (h : c.compileSchema schema = .error e) : Reported e := by
  rcases bind_eq_error.mp h with h | ⟨_, -, h⟩
  · exact checkValue_reported h
  · exact hc _ _ _ h

/-- Counts and what was collected only grow. -/
structure Grows (s s' : Compiler) : Prop where
  active : s'.active = s.active
  nodes : s.nodes ≤ s'.nodes
  bytes : s.bytes ≤ s'.bytes
  resources : ∀ r ∈ s.metadata.resources, r ∈ s'.metadata.resources
  definitions : ∀ k ∈ s.metadata.definitions, k ∈ s'.metadata.definitions
  operations : ∀ k ∈ s.metadata.operations, k ∈ s'.metadata.operations

/-- A step that charges nothing lets nothing grow. -/
theorem Grows.refl (s : Compiler) : Grows s s :=
  ⟨rfl, le_refl _, le_refl _, fun _ h => h, fun _ h => h, fun _ h => h⟩

/-- Charges add up. -/
theorem Grows.trans {s s' s'' : Compiler} (h : Grows s s') (h' : Grows s' s'') : Grows s s'' :=
  ⟨h'.active.trans h.active, h.nodes.trans h'.nodes, h.bytes.trans h'.bytes,
    fun r hr => h'.resources r (h.resources r hr),
    fun k hk => h'.definitions k (h.definitions k hk),
    fun k hk => h'.operations k (h.operations k hk)⟩

/-- A concurrency of zero, or above the limit of the host, is reported. -/
theorem concurrencyLimit_reported {n : Nat} {limits : Limits} {e : ForgeError}
    (h : concurrencyLimit n limits = .error e) : Reported e := by
  rcases bind_eq_error.mp h with h | ⟨_, -, h⟩
  · exact ensure_reported (reported_new _ _) h
  · nomatch h

/-- A descriptor that was collected stays under its revision. -/
theorem mem_foldl_operations {ds : List OperationDescriptor}
    {o : BTreeMap OperationRevision OperationDescriptor} {k : OperationRevision} (hk : k ∈ o) :
    k ∈ ds.foldl (fun o d => o.insert d.revision d) o := by
  induction ds generalizing o with
  | nil => exact hk
  | cons d ds ih => exact ih (Std.ExtTreeMap.mem_insert.mpr (.inr hk))

abbrev Tame {α : Type} (x : CompileM α) : Prop :=
  Stateful.Tame Grows Reported x

namespace Compiler

section Combinators

variable {α β : Type} {x : CompileM α} {f : α → CompileM β}

/-- Compiling one part and then another reports errors and lets the counters grow. -/
theorem tame_bind (hx : Tame x) (hf : ∀ a, Tame (f a)) : Tame (x >>= f) :=
  Stateful.Tame.bind Grows.trans hx hf

/-- A result without a step is tame. -/
theorem tame_pure (a : α) : Tame (pure a : CompileM α) :=
  Stateful.Tame.pure Grows.refl a

/-- A check outside the compiler is tame when it reports its errors. -/
theorem tame_lift {r : Except ForgeError α} (hr : ∀ e, r = .error e → Reported e) :
    Tame (Stateful.lift r : CompileM α) :=
  Stateful.Tame.lift Grows.refl hr

/-- A condition with an error that reports is tame. -/
theorem tame_ensure {b : Bool} {e : ForgeError} (he : Reported e) :
    Tame (Stateful.lift (ensure b e) : CompileM Unit) :=
  tame_lift fun _ h => ensure_reported he h

/-- So is a lookup. -/
theorem tame_okOr {a : Option α} {e : ForgeError} (he : Reported e) :
    Tame (Stateful.lift (okOr a e) : CompileM α) :=
  tame_lift fun _ h => (okOr_eq_error.mp h).2 ▸ he

/-- A check whose errors are located reports them where the check does. -/
theorem tame_located {r : Except ForgeError α} {node : Option String} {field : String}
    (hr : ∀ e, r = .error e → Reported e) :
    Tame (Stateful.lift (r.mapError (located · node field)) : CompileM α) := by
  refine tame_lift fun e he => ?_
  cases r with
  | ok a => nomatch he
  | error e' => exact Except.error.inj he ▸ (hr e' rfl).located node field

end Combinators

/-- A charge either grows its counter or reports that there is no room. -/
theorem charge_tame (limits : Limits) (n : Nat) (message : String) :
    Tame (charge limits n message) := by
  refine tame_bind (Stateful.Tame.modify fun s => ?_) fun _ =>
    tame_bind (Stateful.Tame.get Grows.refl) fun s => tame_ensure (reported_new _ _)
  exact ⟨rfl, Nat.le_add_right _ _, le_refl _, fun _ h => h, fun _ h => h, fun _ h => h⟩

/-- The charge for one node is tame. -/
theorem spend_tame (limits : Limits) (n : Nat) : Tame (spend limits n) := by
  refine tame_bind (Stateful.Tame.modify fun s => ?_) fun _ =>
    tame_bind (Stateful.Tame.get Grows.refl) fun s => tame_ensure (reported_new _ _)
  exact ⟨rfl, le_refl _, Nat.le_add_right _ _, fun _ h => h, fun _ h => h, fun _ h => h⟩

/-- Collecting that loses nothing. -/
theorem collect_tame {f : Metadata → Metadata}
    (hresources : ∀ m, ∀ r ∈ m.resources, r ∈ (f m).resources)
    (hdefinitions : ∀ m, ∀ k ∈ m.definitions, k ∈ (f m).definitions)
    (hoperations : ∀ m, ∀ k ∈ m.operations, k ∈ (f m).operations) : Tame (collect f) :=
  Stateful.Tame.modify fun s => ⟨rfl, le_refl _, le_refl _, hresources s.metadata,
    hdefinitions s.metadata, hoperations s.metadata⟩

/-- The parts one level deeper keep to growth and reports. -/
structure Stage.Tamed (deeper : Stage) : Prop where
  inline : ∀ b, Tame (deeper.inline b)
  workflow : ∀ d, Tame (deeper.workflow d)

section Parts

variable {limits : Limits} {s s' : Compiler}

/-- A charge collects nothing. -/
theorem charge_metadata {n : Nat} {message : String} {u : Unit}
    (h : charge limits n message s = (.ok u, s')) : s'.metadata = s.metadata := by
  obtain ⟨_, s₁, h₁, h⟩ := Stateful.bind_eq_ok.mp h
  obtain ⟨_, s₂, h₂, h⟩ := Stateful.bind_eq_ok.mp h
  obtain ⟨-, rfl⟩ := Stateful.lift_eq_ok.mp h
  obtain ⟨-, rfl⟩ := Stateful.get_eq_ok.mp h₂
  rw [← Stateful.modify_eq_ok.mp h₁]

theorem spend_metadata {n : Nat} {u : Unit} (h : spend limits n s = (.ok u, s')) :
    s'.metadata = s.metadata := by
  obtain ⟨_, s₁, h₁, h⟩ := Stateful.bind_eq_ok.mp h
  obtain ⟨_, s₂, h₂, h⟩ := Stateful.bind_eq_ok.mp h
  obtain ⟨-, rfl⟩ := Stateful.lift_eq_ok.mp h
  obtain ⟨-, rfl⟩ := Stateful.get_eq_ok.mp h₂
  rw [← Stateful.modify_eq_ok.mp h₁]

/-- A collection changes the metadata only. -/
theorem collect_metadata {f : Metadata → Metadata} {u : Unit} (h : collect f s = (.ok u, s')) :
    s'.metadata = f s.metadata := by
  rw [← Stateful.modify_eq_ok.mp h]

end Parts

section Instructions

variable {c : Catalog} {deeper : Stage}

/-- Compiling an operation, which looks up its descriptor and checks its policy, is tame. -/
theorem operation_tame (id : String) (input : Binding) (revision : OperationRevision)
    (config : Value) (retry : RetryPolicy) :
    Tame (operation c id input revision config retry) := by
  refine tame_bind (tame_okOr ((reported_new _ _).located _ _)) fun op => ?_
  refine tame_bind (tame_located fun e he => ensure_reported (reported_new _ _) he) fun _ => ?_
  refine tame_bind (tame_located fun e he => validate_reported he) fun _ => ?_
  have hlast : Tame (collect (fun m => { m with
        resources := m.resources ∪ op.descriptor.requiredResources
        operations := m.operations.insert revision op.descriptor }) >>= fun _ =>
      (pure { operation := op, config, retry } : CompileM PreparedOperation)) := by
    refine tame_bind (collect_tame (fun m r hr => Std.ExtTreeSet.mem_union_of_left hr)
      (fun m k hk => hk) fun m k hk => Std.ExtTreeMap.mem_insert.mpr (.inr hk)) fun _ =>
      tame_pure _
  split
  · exact tame_bind (tame_located fun e he => validate_reported he) fun _ => hlast
  · exact tame_bind (collect_tame (fun m r hr => hr) (fun m k hk => hk) fun m k hk => hk)
      fun _ => hlast

/-- So is compiling the operation that announces a signal. -/
theorem signalStart_tame (id : String) (start : SignalStart) : Tame (signalStart c id start) := by
  refine tame_bind (tame_lift fun e he => contextBinding_reported he) fun _ => ?_
  refine tame_bind (charge_tame _ _ _) fun _ => ?_
  refine tame_bind ((operation_tame _ _ _ _ _).mapError fun e he => ?_) fun _ => tame_pure _
  exact fun hempty => he (List.map_eq_nil_iff.mp hempty)

variable (hd : deeper.Tamed)
include hd

/-- The handlers of a try node, one body for each, are tame when bodies are. -/
theorem catches_tame (ids codes : List String) (cases : List ErrorCase) :
    Tame (catches deeper ids codes cases) := by
  induction cases generalizing ids codes with
  | nil => exact tame_pure _
  | cons case cases ih =>
    obtain ⟨id, code, body⟩ := case
    exact tame_bind (tame_ensure (reported_new _ _)) fun _ => tame_bind (hd.inline body) fun _ =>
      tame_bind (ih _ _) fun _ => tame_pure _

/-- So are the cases of a decision. -/
theorem cases_tame (ids : List String) (alternatives : List DecisionCase) :
    Tame (cases c deeper ids alternatives) := by
  induction alternatives generalizing ids with
  | nil => exact tame_pure _
  | cons alternative alternatives ih =>
    obtain ⟨id, condition, body⟩ := alternative
    exact tame_bind (tame_ensure (reported_new _ _)) fun _ =>
      tame_bind (tame_lift fun e he => contextBinding_reported he) fun _ =>
      tame_bind (hd.inline body) fun _ => tame_bind (ih _) fun _ => tame_pure _

/-- And the branches of a parallel node. -/
theorem branches_tame (bodies : List (String × BodyDefinition)) :
    Tame (branches deeper bodies) := by
  induction bodies with
  | nil => exact tame_pure _
  | cons branch bodies ih =>
    obtain ⟨id, body⟩ := branch
    exact tame_bind (hd.inline body) fun _ => tame_bind ih fun _ => tame_pure _

theorem decisionFallback_tame (ids : List String) (fallback : Option FallbackCase) :
    Tame (decisionFallback deeper ids fallback) := by
  cases fallback with
  | none => exact tame_pure _
  | some fallback =>
    obtain ⟨id, body⟩ := fallback
    exact tame_bind (tame_ensure (reported_new _ _)) fun _ => tame_bind (hd.inline body)
      fun _ => tame_pure _

/-- Every instruction is tame when the bodies nested in it are. -/
theorem instruction_tame (hc : c.Reports) (node : NodeDefinition) :
    Tame (instruction c deeper node) := by
  obtain ⟨id, input, definition⟩ := node
  unfold instruction
  cases definition with
  | «try» body handlers fallback =>
    exact tame_bind (tame_ensure (reported_new _ _)) fun _ => tame_bind (hd.inline body) fun _ =>
      tame_bind (catches_tame hd _ _ _) fun _ => tame_bind (hd.inline fallback.body) fun _ =>
      tame_pure _
  -- reports its own complaint, compiles nothing
  | timer durationMs =>
    exact tame_bind (tame_ensure (reported_new _ _)) fun _ => tame_pure _
  | awaitSignal correlation timeoutMs payloadSchema start =>
    refine tame_bind (tame_lift fun e he => contextBinding_reported he) fun _ => ?_
    refine tame_bind (tame_lift fun e he => ?_) fun _ => ?_
    -- a missing correlation is checked by nothing
    · unfold checkCorrelation at he
      split at he
      · exact ensure_reported (reported_new _ _) he
      · nomatch he
    refine tame_bind (tame_ensure (reported_new _ _)) fun _ => ?_
    refine tame_bind (tame_lift fun e he => compileSchema_reported hc he) fun _ => ?_
    cases start with
    | none => exact tame_pure _
    | some start => exact tame_bind (signalStart_tame _ _) fun _ => tame_pure _
  | operation revision config retry =>
    exact tame_bind (operation_tame _ _ _ _ _) fun _ => tame_pure _
  | decision alternatives fallback =>
    exact tame_bind (tame_ensure (reported_new _ _)) fun _ => tame_bind (cases_tame hd _ _)
      fun _ => tame_bind (decisionFallback_tame hd _ _) fun _ => tame_pure _
  | parallel bodies concurrency errors join =>
    cases join with
    | all =>
      refine tame_bind (tame_ensure (reported_new _ _)) fun _ => ?_
      refine tame_bind (tame_lift fun e he => ?_) fun _ =>
        tame_bind (branches_tame hd _) fun _ => tame_pure _
      exact concurrencyLimit_reported he
  | «foreach» items body concurrency errors =>
    refine tame_bind (tame_lift fun e he => contextBinding_reported he) fun _ => ?_
    refine tame_bind (tame_lift fun e he => ?_) fun _ => ?_
    -- items that are no literal are checked by nothing here
    · unfold checkItems at he
      split at he
      · exact ensure_reported (reported_new _ _) he
      · nomatch he
    exact tame_bind (tame_lift fun e he => concurrencyLimit_reported he) fun _ =>
      tame_bind (hd.inline body) fun _ => tame_pure _
  | loop condition body maxIterations onLimit =>
    exact tame_bind (tame_lift fun e he => contextBinding_reported he) fun _ =>
      tame_bind (tame_ensure (reported_new _ _)) fun _ => tame_bind (hd.inline body) fun _ =>
      tame_pure _
  | subworkflow workflow =>
    refine tame_bind (tame_okOr (reported_new _ _)) fun d => tame_bind (hd.workflow d) fun child =>
      tame_bind (tame_lift fun e he => ?_) fun _ =>
      tame_bind (collect_tame (fun m r hr => Std.ExtTreeSet.mem_union_of_left hr)
        (fun m k hk => Std.ExtTreeMap.mem_union_of_left hk) fun m k hk => ?_) fun _ => tame_pure _
    -- only a literal input is validated against the child
    · unfold checkInput at he
      split at he
      · exact validate_reported he
      · nomatch he
    · exact mem_foldl_operations hk

end Instructions

section Bodies

variable {c : Catalog} {deeper : Stage} (hd : deeper.Tamed) (hc : c.Reports)
include hd hc

/-- The nodes of a body, with the bindings of each checked against the nodes before it. -/
theorem compileNodes_tame (available : BTreeSet String) (nodes : List NodeDefinition) :
    Tame (compileNodes c deeper available nodes) := by
  induction nodes generalizing available with
  | nil => exact tame_pure _
  | cons node nodes ih =>
    exact tame_bind (spend_tame _ _) fun _ =>
      tame_bind (instruction_tame hd hc node).attempt fun _ => tame_bind (ih _) fun _ =>
      tame_pure _

theorem body_tame (b : BodyDefinition) : Tame (body c deeper b) :=
  tame_bind (charge_tame _ _ _) fun _ =>
    tame_bind (tame_lift fun _ he => ordered_reported he) fun _ =>
    tame_bind (compileNodes_tame hd hc _ _) fun _ =>
    tame_bind (tame_lift fun _ he => collected_reported he) fun _ => tame_pure _

/-- Nodes without diagnostics were compiled one after the other. -/
theorem compileNodes_cons_eq_ok {available : BTreeSet String} {node : NodeDefinition}
    {nodes : List NodeDefinition} {sequence : List PreparedNode} {s s' : Compiler}
    (h : compileNodes c deeper available (node :: nodes) s = (.ok (sequence, []), s')) :
    ∃ i rest s₁ s₂, spend c.limits (jsonBytes node) s = (.ok (), s₁) ∧
      instruction c deeper node s₁ = (.ok i, s₂) ∧
      node.input.check available c.limits = .ok () ∧
      compileNodes c deeper (available.insert node.id) nodes s₂ = (.ok (rest, []), s') ∧
      sequence = ⟨node.id, node.input, i⟩ :: rest := by
  obtain ⟨_, s₁, h₁, h⟩ := Stateful.bind_eq_ok.mp h
  obtain ⟨result, s₂, h₂, h⟩ := Stateful.bind_eq_ok.mp h
  obtain ⟨⟨rest, diagnostics⟩, s₃, h₃, h⟩ := Stateful.bind_eq_ok.mp h
  obtain ⟨heq, rfl⟩ := Stateful.pure_eq_ok.mp h
  obtain ⟨hsequence, hdiagnostics⟩ := Prod.mk.inj heq
  obtain ⟨hnode, hrest⟩ := List.append_eq_nil_iff.mp hdiagnostics
  obtain ⟨hinput, hinstruction⟩ := List.append_eq_nil_iff.mp hnode
  obtain rfl : diagnostics = [] := hrest
  have h₂ := Stateful.attempt_eq_ok.mp h₂
  cases result with
  | error e =>
    -- an error would have been reported
    exact absurd hinstruction
      ((((instruction_tame hd hc node).reports h₂).located (some node.id) "/instruction"))
  | ok i =>
    refine ⟨i, rest, s₁, s₂, h₁, h₂, ?_, h₃, hsequence.symm⟩
    cases hcheck : node.input.check available c.limits with
    | ok u => rfl
    | error e =>
      rw [hcheck] at hinput
      exact absurd hinput ((check_reported hcheck).located (some node.id) "/input")

omit hd hc in
/-- A body is accepted with its nodes in order, each of them compiled. -/
theorem body_eq_ok {b : BodyDefinition} {p : PreparedBody} {s s' : Compiler}
    (h : body c deeper b s = (.ok p, s')) :
    ∃ order s₁, charge c.limits b.nodes.length "Prepared graph exceeds its node budget" s =
        (.ok (), s₁) ∧
      ordered b.entry b.nodes b.edges = .ok order ∧
      compileNodes c deeper ∅ order s₁ = (.ok (p.sequence, []), s') ∧
      b.output.check (order.foldl (fun s (n : NodeDefinition) => s.insert n.id) ∅) c.limits =
        .ok () ∧ p.output = b.output := by
  obtain ⟨_, s₁, h₁, h⟩ := Stateful.bind_eq_ok.mp h
  obtain ⟨order, s₂, h₂, h⟩ := Stateful.bind_eq_ok.mp h
  obtain ⟨horder, rfl⟩ := Stateful.lift_eq_ok.mp h₂
  obtain ⟨⟨sequence, diagnostics⟩, s₃, h₃, h⟩ := Stateful.bind_eq_ok.mp h
  obtain ⟨_, s₄, h₄, h⟩ := Stateful.bind_eq_ok.mp h
  obtain ⟨hempty, rfl⟩ := Stateful.lift_eq_ok.mp h₄
  obtain ⟨rfl, rfl⟩ := Stateful.pure_eq_ok.mp h
  have hempty := List.isEmpty_iff.mp (ensure_eq_ok.mp hempty)
  -- no complaint of the nodes and none of the output
  obtain ⟨rfl, houtput⟩ := List.append_eq_nil_iff.mp hempty
  refine ⟨order, s₁, h₁, horder, h₃, ?_, rfl⟩
  cases hcheck : b.output.check (order.foldl (fun s (n : NodeDefinition) => s.insert n.id) ∅)
      c.limits with
  | ok u => rfl
  | error e =>
    rw [hcheck] at houtput
    exact absurd houtput ((check_reported hcheck).located none "/output")

end Bodies

section Workflows

variable {c : Catalog}

/-- Charging what is below a definition is tame. -/
theorem resolve_tame (m : Metadata) : Tame (resolve c m) :=
  tame_bind (Stateful.Tame.get Grows.refl) fun _ =>
    tame_bind (tame_ensure (reported_new _ _)) fun _ => tame_pure _

variable {compileBody : BodyDefinition → CompileM PreparedBody}

/-- A definition is tame when its bodies are: schemas, root body and output binding. -/
theorem parts_tame (hc : c.Reports) (hbody : ∀ b, Tame (compileBody b))
    (d : WorkflowDefinition) : Tame (parts c compileBody d) := by
  refine tame_bind (spend_tame _ _) fun _ =>
    tame_bind (tame_located fun e he => compileSchema_reported hc he) fun _ =>
    tame_bind (tame_located fun e he => compileSchema_reported hc he) fun _ =>
    tame_bind (hbody _) fun _ =>
    tame_bind (collect_tame (fun m r hr => hr)
      (fun m k hk => Std.ExtTreeMap.mem_insert.mpr (.inr hk)) fun m k hk => hk) fun _ =>
    tame_bind (Stateful.Tame.get Grows.refl) fun _ =>
    tame_bind (tame_ensure (reported_new _ _)) fun _ =>
    tame_bind (resolve_tame _) fun _ => tame_pure _

/-- A definition without a name or an exact version is reported. -/
theorem checkDefinition_reported {d : WorkflowDefinition} {e : ForgeError}
    (h : checkDefinition c d = .error e) : Reported e := by
  rcases bind_eq_error.mp h with h | ⟨_, -, h⟩
  · exact checkValue_reported h
  rcases bind_eq_error.mp h with h | ⟨_, -, h⟩
  · exact ensure_reported (reported_new _ _) h
  · exact ensure_reported (reported_new _ _) h

/-- Compiling below one more definition keeps the counters that are shared. -/
theorem within_tame {α : Type} {revision : WorkflowRevision} {x : CompileM α} (hx : Tame x) :
    Tame (within revision x) where
  grows s := by
    have h := hx.grows
      { s with active := revision :: s.active, documentNodes := 0, metadata := {} }
    exact ⟨rfl, h.nodes, h.bytes, fun _ h => h, fun _ h => h, fun _ h => h⟩
  reports := by
    intro s e s' h
    obtain ⟨hr, -⟩ := Prod.mk.inj h
    exact hx.reports (Prod.ext hr rfl)

theorem workflow_tame (hc : c.Reports) (hbody : ∀ b, Tame (compileBody b))
    (d : WorkflowDefinition) : Tame (workflow c compileBody d) :=
  tame_bind (tame_lift fun _ he => checkDefinition_reported he) fun _ =>
    tame_bind (Stateful.Tame.get Grows.refl) fun _ =>
    tame_bind (tame_ensure (reported_new _ _)) fun _ => within_tame (parts_tame hc hbody d)

/-- Compiling only adds to the counts, and reports its errors, at every level of nesting. -/
theorem stage_tame (hc : c.Reports) (remaining : Nat) : (stage c remaining).Tamed := by
  induction remaining with
  | zero =>
    exact ⟨fun _ => Stateful.Tame.fail Grows.refl (reported_new _ _),
      fun _ => Stateful.Tame.fail Grows.refl (reported_new _ _)⟩
  | succ remaining ih =>
    exact ⟨body_tame ih hc, workflow_tame hc (body_tame ih hc)⟩

/-- What is compiled below a definition starts with counts of its own, and ends with those of the
definition. -/
theorem within_eq_ok {α : Type} {revision : WorkflowRevision} {x : CompileM α} {a : α}
    {s s' : Compiler} (h : within revision x s = (.ok a, s')) :
    ∃ s₁, x { s with active := revision :: s.active, documentNodes := 0, metadata := {} } =
        (.ok a, s₁) ∧
      s' = { s₁ with
        active := s.active, documentNodes := s.documentNodes, metadata := s.metadata } := by
  unfold within at h
  generalize x _ = r at h ⊢
  obtain ⟨hr, hs⟩ := Prod.mk.inj h
  obtain ⟨result, s₁⟩ := r
  subst hr
  exact ⟨s₁, rfl, hs.symm⟩

/-- What a workflow is accepted with: its parts, compiled on their own. -/
theorem workflow_eq_ok {d : WorkflowDefinition} {p : Plan} {s s' : Compiler}
    (h : workflow c compileBody d s = (.ok p, s')) :
    checkDefinition c d = .ok () ∧ d.workflowRevision ∉ s.active ∧
      ∃ s₁, parts c compileBody d
          { s with active := d.workflowRevision :: s.active, documentNodes := 0, metadata := {} } =
            (.ok p, s₁) ∧
        s' = { s₁ with
          active := s.active, documentNodes := s.documentNodes, metadata := s.metadata } := by
  obtain ⟨_, s₁, h₁, h⟩ := Stateful.bind_eq_ok.mp h
  obtain ⟨hcheck, rfl⟩ := Stateful.lift_eq_ok.mp h₁
  obtain ⟨_, s₂, h₂, h⟩ := Stateful.bind_eq_ok.mp h
  obtain ⟨rfl, rfl⟩ := Stateful.get_eq_ok.mp h₂
  obtain ⟨_, s₃, h₃, h⟩ := Stateful.bind_eq_ok.mp h
  obtain ⟨hactive, rfl⟩ := Stateful.lift_eq_ok.mp h₃
  exact ⟨hcheck, by simpa using ensure_eq_ok.mp hactive, within_eq_ok h⟩

/-- What the parts of a workflow are accepted with. -/
theorem parts_eq_ok {d : WorkflowDefinition} {p : Plan} {s s' : Compiler}
    (h : parts c compileBody d s = (.ok p, s')) :
    ∃ s₁ s₂ m, spend c.limits (jsonBytes d) s = (.ok (), s₁) ∧
      c.compileSchema d.inputSchema = .ok p.input ∧
      c.compileSchema d.outputSchema = .ok p.output ∧
      compileBody ⟨d.entry, d.nodes, d.edges, d.output⟩ s₁ = (.ok p.body, s₂) ∧
      m = { s₂.metadata with definitions := s₂.metadata.definitions.insert d.workflowRevision d } ∧
      (!(c.durable && m.resources.contains "artifacts" && !c.coordinatedArtifacts)) = true ∧
      s₂.bytes + jsonBytes (packageOf c m) ≤ c.limits.planBytes ∧
      s' = { s₂ with metadata := m } ∧
      p = ⟨c.id, d, p.body, p.input, p.output, m.warnings, m.resources, m.definitions,
        packageOf c m⟩ := by
  -- the place added to an error changes no answer
  have hlocated : ∀ {α : Type} {r : Except ForgeError α} {node : Option String}
      {field : String} {a : α}, r.mapError (located · node field) = .ok a → r = .ok a := by
    intro α r node field a hr
    cases r with
    | ok b => exact hr
    | error e => nomatch hr
  obtain ⟨_, s₁, h₁, h⟩ := Stateful.bind_eq_ok.mp h
  obtain ⟨input, s₂, h₂, h⟩ := Stateful.bind_eq_ok.mp h
  obtain ⟨hinput, rfl⟩ := Stateful.lift_eq_ok.mp h₂
  obtain ⟨output, s₃, h₃, h⟩ := Stateful.bind_eq_ok.mp h
  obtain ⟨houtput, rfl⟩ := Stateful.lift_eq_ok.mp h₃
  obtain ⟨compiled, s₂, h₄, h⟩ := Stateful.bind_eq_ok.mp h
  obtain ⟨_, s₅, h₅, h⟩ := Stateful.bind_eq_ok.mp h
  -- the definition is filed under its revision after its body
  have hs₅ := Stateful.modify_eq_ok.mp h₅
  obtain ⟨_, s₆, h₆, h⟩ := Stateful.bind_eq_ok.mp h
  obtain ⟨rfl, rfl⟩ := Stateful.get_eq_ok.mp h₆
  obtain ⟨_, s₇, h₇, h⟩ := Stateful.bind_eq_ok.mp h
  obtain ⟨hartifacts, rfl⟩ := Stateful.lift_eq_ok.mp h₇
  obtain ⟨package, s₈, h₈, h⟩ := Stateful.bind_eq_ok.mp h
  obtain ⟨rfl, rfl⟩ := Stateful.pure_eq_ok.mp h
  -- packaging reads the compiler's state and checks the size
  obtain ⟨_, s₉, h₉, h₈⟩ := Stateful.bind_eq_ok.mp h₈
  obtain ⟨rfl, rfl⟩ := Stateful.get_eq_ok.mp h₉
  obtain ⟨_, s₁₀, h₁₀, h₈⟩ := Stateful.bind_eq_ok.mp h₈
  obtain ⟨hfits, rfl⟩ := Stateful.lift_eq_ok.mp h₁₀
  obtain ⟨rfl, rfl⟩ := Stateful.pure_eq_ok.mp h₈
  subst hs₅
  exact ⟨s₁, s₂, _, h₁, hlocated hinput, hlocated houtput, h₄, rfl,
    ensure_eq_ok.mp hartifacts, by simpa using ensure_eq_ok.mp hfits, rfl, rfl⟩

end Workflows

end Compiler

end WorkflowForge.Engine
