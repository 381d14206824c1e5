import WorkflowForge.Engine.Assembly
import WorkflowForge.Engine.Planner

/-!
# Producers of a Body

The nodes of a body are executed in the order of its sequence, and each one reads the outputs
of those before it. The compiler checked every binding of the body against the nodes it had
put before it. So wherever a body is executed, a binding is evaluated with exactly the
producers that were available to its check.

## Main results

- `instruction_bodies`: the bodies of a compiled instruction were compiled one level deeper.
- `stage_checked`: the bindings of every compiled body were checked as `declared` lists them.
- `BodyPoint.Reaches.declared`: what an execution of a body evaluates is declared.
-/

namespace WorkflowForge.Engine

open Lib Mapping

/-! ## Execution of a body -/

/-- How far the execution of a body has come. -/
structure BodyPoint where
  outputs : BTreeMap String Value
  rest : List PreparedNode

def PreparedBody.entry (body : PreparedBody) : BodyPoint :=
  ⟨∅, body.sequence⟩

/-- A worker comes to the next node of a body. What it reads of the run, and what an operation
or a control construct returns, is left open. -/
inductive BodyPoint.Advances (input : Value) (limits : Limits) : BodyPoint → BodyPoint → Prop where
  | confirmed {outputs : BTreeMap String Value} {node : PreparedNode} {rest : List PreparedNode}
      {record : Option InvocationRecord} {cancelled expired : Bool} {value : Value} :
      planNode record cancelled expired = .ok (.confirmed value) →
      Advances input limits ⟨outputs, node :: rest⟩ ⟨outputs.insert node.id value, rest⟩
  /-- The input of an activated node was persisted. -/
  | resumed {outputs : BTreeMap String Value} {node : PreparedNode} {rest : List PreparedNode}
      {record : InvocationRecord} {cancelled expired : Bool} {value : Value} :
      planNode (some record) cancelled expired = .ok .execute →
      Advances input limits ⟨outputs, node :: rest⟩ ⟨outputs.insert node.id value, rest⟩
  | executed {outputs : BTreeMap String Value} {node : PreparedNode} {rest : List PreparedNode}
      {cancelled expired : Bool} {nodeInput value : Value} :
      planNode none cancelled expired = .ok .execute →
      node.input.evaluate input outputs limits = .ok nodeInput →
      Advances input limits ⟨outputs, node :: rest⟩ ⟨outputs.insert node.id value, rest⟩

/-- A point that the execution of a body comes to. -/
def PreparedBody.Reaches (body : PreparedBody) (input : Value) (limits : Limits)
    (point : BodyPoint) : Prop :=
  Relation.ReflTransGen (BodyPoint.Advances input limits) body.entry point

/-- The binding that is evaluated next: that of a node without a record, or in the end that of
the output. -/
inductive PreparedBody.Evaluates (body : PreparedBody) : BodyPoint → Binding → Prop where
  | input {outputs : BTreeMap String Value} {node : PreparedNode} {rest : List PreparedNode}
      {cancelled expired : Bool} : planNode none cancelled expired = .ok .execute →
      Evaluates body ⟨outputs, node :: rest⟩ node.input
  | output {outputs : BTreeMap String Value} : Evaluates body ⟨outputs, []⟩ body.output

/-! ## What the compiler declared -/

/-- The bindings of a body with the producers that are available to each. -/
def declaredFrom (available : BTreeSet String) (output : Binding) :
    List PreparedNode → List (Binding × BTreeSet String)
  | [] => [(output, available)]
  | node :: rest => (node.input, available) :: declaredFrom (available.insert node.id) output rest

def PreparedBody.declared (body : PreparedBody) : List (Binding × BTreeSet String) :=
  declaredFrom ∅ body.output body.sequence

/-- Every binding was checked with the producers available to it. -/
def Checked (limits : Limits) (declared : List (Binding × BTreeSet String)) : Prop :=
  ∀ entry ∈ declared, entry.1.check entry.2 limits = .ok ()

/-- A body, and the bodies its control constructs enter, at every level. -/
inductive PreparedBody.Within : PreparedBody → PreparedBody → Prop where
  | self (body : PreparedBody) : Within body body
  | inside {outer inner body : PreparedBody} {node : PreparedNode} {step : ScopeStep} :
      node ∈ outer.sequence → Enters node.instruction step inner → Within inner body →
      Within outer body

/-- An execution evaluates a declared binding, with the outputs of exactly its producers. -/
theorem PreparedBody.Reaches.declared {body : PreparedBody} {input : Value} {limits : Limits}
    {point : BodyPoint} (h : body.Reaches input limits point) {b : Binding}
    (hb : body.Evaluates point b) :
    ∃ available, (b, available) ∈ body.declared ∧ ∀ id, id ∈ available ↔ id ∈ point.outputs := by
  -- what remains of the sequence declares a tail of the list
  have hpoint : ∃ available, (∀ id, id ∈ available ↔ id ∈ point.outputs) ∧
      declaredFrom available body.output point.rest <:+ body.declared := by
    clear hb
    induction h with
    | refl => exact ⟨∅, fun id => by simp [PreparedBody.entry], List.suffix_refl _⟩
    | @tail p q _ hstep ih =>
      have hnext : ∃ node value, p.rest = node :: q.rest ∧
          q.outputs = p.outputs.insert node.id value := by
        cases hstep with
        | confirmed => exact ⟨_, _, rfl, rfl⟩
        | resumed => exact ⟨_, _, rfl, rfl⟩
        | executed => exact ⟨_, _, rfl, rfl⟩
      obtain ⟨node, value, hrest, houtputs⟩ := hnext
      obtain ⟨available, havailable, hsuffix⟩ := ih
      rw [hrest] at hsuffix
      refine ⟨available.insert node.id, fun id => ?_, ?_⟩
      · rw [houtputs, Std.ExtTreeSet.mem_insert, Std.ExtTreeMap.mem_insert, havailable]
      · exact (List.suffix_cons _ _).trans hsuffix
  obtain ⟨available, havailable, hsuffix⟩ := hpoint
  refine ⟨available, hsuffix.subset ?_, havailable⟩
  cases hb with
  | input => exact List.mem_cons_self
  | output => exact List.mem_singleton_self _

/-! ## Compiled bodies -/

namespace Compiler

section Instructions

variable {c : Catalog} {deeper : Stage} {s s' : Compiler}

/-- A body that was compiled one level deeper, in place or as a workflow of its own. -/
def Stage.Compiles (deeper : Stage) (body : PreparedBody) : Prop :=
  (∃ b s s', deeper.inline b s = (.ok body, s')) ∨
    ∃ d plan s s', deeper.workflow d s = (.ok plan, s') ∧ plan.body = body

theorem catches_compiles {alternatives : List ErrorCase} {ids codes : List String}
    {r : List (String × String × PreparedBody)} {s s' : Compiler}
    (h : catches deeper ids codes alternatives s = (.ok r, s')) :
    ∀ body ∈ r.map (·.2.2), deeper.Compiles body := by
  induction alternatives generalizing ids codes s r with
  | nil =>
    obtain ⟨rfl, -⟩ := Stateful.pure_eq_ok.mp h
    exact fun body hbody => nomatch hbody
  | cons alternative alternatives ih =>
    obtain ⟨id, code, b⟩ := alternative
    obtain ⟨_, s₁, -, h⟩ := Stateful.bind_eq_ok.mp h
    obtain ⟨compiled, s₂, h₂, h⟩ := Stateful.bind_eq_ok.mp h
    obtain ⟨rest, s₃, h₃, h⟩ := Stateful.bind_eq_ok.mp h
    obtain ⟨rfl, rfl⟩ := Stateful.pure_eq_ok.mp h
    intro body hbody
    rcases List.mem_cons.mp hbody with rfl | hbody
    · exact .inl ⟨_, _, _, h₂⟩
    · exact ih h₃ body hbody

theorem cases_compiles {alternatives : List DecisionCase} {ids : List String}
    {r : List PreparedCase} {s s' : Compiler}
    (h : cases c deeper ids alternatives s = (.ok r, s')) :
    ∀ body ∈ r.map PreparedCase.body, deeper.Compiles body := by
  induction alternatives generalizing ids s r with
  | nil =>
    obtain ⟨rfl, -⟩ := Stateful.pure_eq_ok.mp h
    exact fun body hbody => nomatch hbody
  | cons alternative alternatives ih =>
    obtain ⟨id, condition, b⟩ := alternative
    obtain ⟨_, s₁, -, h⟩ := Stateful.bind_eq_ok.mp h
    obtain ⟨_, s₂, -, h⟩ := Stateful.bind_eq_ok.mp h
    obtain ⟨compiled, s₃, h₃, h⟩ := Stateful.bind_eq_ok.mp h
    obtain ⟨rest, s₄, h₄, h⟩ := Stateful.bind_eq_ok.mp h
    obtain ⟨rfl, rfl⟩ := Stateful.pure_eq_ok.mp h
    intro body hbody
    rcases List.mem_cons.mp hbody with rfl | hbody
    · exact .inl ⟨_, _, _, h₃⟩
    · exact ih h₄ body hbody

theorem branches_compiles {bodies : List (String × BodyDefinition)}
    {r : List (String × PreparedBody)} {s s' : Compiler}
    (h : branches deeper bodies s = (.ok r, s')) :
    ∀ body ∈ r.map Prod.snd, deeper.Compiles body := by
  induction bodies generalizing s r with
  | nil =>
    obtain ⟨rfl, -⟩ := Stateful.pure_eq_ok.mp h
    exact fun body hbody => nomatch hbody
  | cons branch bodies ih =>
    obtain ⟨id, b⟩ := branch
    obtain ⟨compiled, s₁, h₁, h⟩ := Stateful.bind_eq_ok.mp h
    obtain ⟨rest, s₂, h₂, h⟩ := Stateful.bind_eq_ok.mp h
    obtain ⟨rfl, rfl⟩ := Stateful.pure_eq_ok.mp h
    intro body hbody
    rcases List.mem_cons.mp hbody with rfl | hbody
    · exact .inl ⟨_, _, _, h₁⟩
    · exact ih h₂ body hbody

theorem decisionFallback_compiles {ids : List String} {fallback : Option FallbackCase}
    {r : Option (String × PreparedBody)}
    (h : decisionFallback deeper ids fallback s = (.ok r, s')) :
    ∀ body ∈ r.toList.map Prod.snd, deeper.Compiles body := by
  cases fallback with
  | none =>
    obtain ⟨rfl, -⟩ := Stateful.pure_eq_ok.mp h
    exact fun body hbody => nomatch hbody
  | some fallback =>
    obtain ⟨id, b⟩ := fallback
    obtain ⟨_, s₁, -, h⟩ := Stateful.bind_eq_ok.mp h
    obtain ⟨compiled, s₂, h₂, h⟩ := Stateful.bind_eq_ok.mp h
    obtain ⟨rfl, -⟩ := Stateful.pure_eq_ok.mp h
    intro body hbody
    obtain rfl := List.mem_singleton.mp hbody
    exact .inl ⟨_, _, _, h₂⟩

/-- The bodies of a compiled instruction were compiled one level deeper. -/
theorem instruction_bodies {node : NodeDefinition} {i : PreparedInstruction}
    (h : instruction c deeper node s = (.ok i, s')) : ∀ body ∈ i.bodies, deeper.Compiles body := by
  obtain ⟨id, input, definition⟩ := node
  unfold instruction at h
  cases definition with
  -- three kinds of bodies, each compiled in the scope of the node
  | «try» b handlers fallback =>
    obtain ⟨_, s₁, -, h⟩ := Stateful.bind_eq_ok.mp h
    obtain ⟨compiled, s₂, h₂, h⟩ := Stateful.bind_eq_ok.mp h
    obtain ⟨catches, s₃, h₃, h⟩ := Stateful.bind_eq_ok.mp h
    obtain ⟨handler, s₄, h₄, h⟩ := Stateful.bind_eq_ok.mp h
    obtain ⟨rfl, -⟩ := Stateful.pure_eq_ok.mp h
    intro body hbody
    simp only [PreparedInstruction.bodies, List.cons_append, List.mem_cons, List.mem_append,
      List.not_mem_nil, or_false] at hbody
    rcases hbody with rfl | hbody | rfl
    · exact .inl ⟨_, _, _, h₂⟩
    · exact catches_compiles h₃ body hbody
    · exact .inl ⟨_, _, _, h₄⟩
  -- no body
  | timer durationMs =>
    obtain ⟨_, s₁, -, h⟩ := Stateful.bind_eq_ok.mp h
    obtain ⟨rfl, -⟩ := Stateful.pure_eq_ok.mp h
    exact fun body hbody => by cases hbody
  | awaitSignal correlation timeoutMs payloadSchema start =>
    obtain ⟨_, s₁, -, h⟩ := Stateful.bind_eq_ok.mp h
    obtain ⟨_, s₂, -, h⟩ := Stateful.bind_eq_ok.mp h
    obtain ⟨_, s₃, -, h⟩ := Stateful.bind_eq_ok.mp h
    obtain ⟨_, s₄, -, h⟩ := Stateful.bind_eq_ok.mp h
    cases start with
    | none =>
      obtain ⟨rfl, -⟩ := Stateful.pure_eq_ok.mp h
      exact fun body hbody => by cases hbody
    | some start =>
      obtain ⟨r, s₅, -, h⟩ := Stateful.bind_eq_ok.mp h
      obtain ⟨rfl, -⟩ := Stateful.pure_eq_ok.mp h
      exact fun body hbody => by cases hbody
  | operation revision config retry =>
    obtain ⟨op, s₁, -, h⟩ := Stateful.bind_eq_ok.mp h
    obtain ⟨rfl, -⟩ := Stateful.pure_eq_ok.mp h
    exact fun body hbody => by cases hbody
  | decision alternatives fallback =>
    obtain ⟨_, s₁, -, h⟩ := Stateful.bind_eq_ok.mp h
    obtain ⟨compiled, s₂, h₂, h⟩ := Stateful.bind_eq_ok.mp h
    obtain ⟨fallback, s₃, h₃, h⟩ := Stateful.bind_eq_ok.mp h
    obtain ⟨rfl, -⟩ := Stateful.pure_eq_ok.mp h
    intro body hbody
    rcases List.mem_append.mp hbody with hbody | hbody
    · exact cases_compiles h₂ body hbody
    · exact decisionFallback_compiles h₃ body hbody
  | parallel bodies concurrency errors join =>
    cases join with
    | all =>
      obtain ⟨_, s₁, -, h⟩ := Stateful.bind_eq_ok.mp h
      obtain ⟨_, s₂, -, h⟩ := Stateful.bind_eq_ok.mp h
      obtain ⟨compiled, s₃, h₃, h⟩ := Stateful.bind_eq_ok.mp h
      obtain ⟨rfl, -⟩ := Stateful.pure_eq_ok.mp h
      exact branches_compiles h₃
  | «foreach» items b concurrency errors =>
    obtain ⟨_, s₁, -, h⟩ := Stateful.bind_eq_ok.mp h
    obtain ⟨_, s₂, -, h⟩ := Stateful.bind_eq_ok.mp h
    obtain ⟨_, s₃, -, h⟩ := Stateful.bind_eq_ok.mp h
    obtain ⟨compiled, s₄, h₄, h⟩ := Stateful.bind_eq_ok.mp h
    obtain ⟨rfl, -⟩ := Stateful.pure_eq_ok.mp h
    intro body hbody
    obtain rfl := List.mem_singleton.mp hbody
    exact .inl ⟨_, _, _, h₄⟩
  | loop condition b maxIterations onLimit =>
    obtain ⟨_, s₁, -, h⟩ := Stateful.bind_eq_ok.mp h
    obtain ⟨_, s₂, -, h⟩ := Stateful.bind_eq_ok.mp h
    obtain ⟨compiled, s₃, h₃, h⟩ := Stateful.bind_eq_ok.mp h
    obtain ⟨rfl, -⟩ := Stateful.pure_eq_ok.mp h
    intro body hbody
    obtain rfl := List.mem_singleton.mp hbody
    exact .inl ⟨_, _, _, h₃⟩
  -- the body of a plan was compiled with the plan
  | subworkflow workflow =>
    obtain ⟨definition, s₁, -, h⟩ := Stateful.bind_eq_ok.mp h
    obtain ⟨child, s₂, h₂, h⟩ := Stateful.bind_eq_ok.mp h
    obtain ⟨_, s₃, -, h⟩ := Stateful.bind_eq_ok.mp h
    obtain ⟨_, s₄, -, h⟩ := Stateful.bind_eq_ok.mp h
    obtain ⟨rfl, -⟩ := Stateful.pure_eq_ok.mp h
    intro body hbody
    obtain rfl := List.mem_singleton.mp hbody
    exact .inr ⟨_, _, _, _, h₂, rfl⟩

end Instructions

section Bodies

variable {c : Catalog} {deeper : Stage}

/-- The nodes of a body with the producers that the compiler hands on. -/
theorem compileNodes_checked (hc : c.Reports) (ht : deeper.Tamed) {output : Binding}
    {nodes : List NodeDefinition} {available : BTreeSet String} {sequence : List PreparedNode}
    {s s' : Compiler} (h : compileNodes c deeper available nodes s = (.ok (sequence, []), s'))
    (houtput : output.check
      (nodes.foldl (fun s (n : NodeDefinition) => s.insert n.id) available) c.limits = .ok ()) :
    Checked c.limits (declaredFrom available output sequence) ∧
      ∀ node ∈ sequence, ∀ body ∈ node.instruction.bodies, deeper.Compiles body := by
  induction nodes generalizing available sequence s with
  -- after the last node all of them may be read
  | nil =>
    obtain ⟨heq, -⟩ := Stateful.pure_eq_ok.mp h
    obtain ⟨rfl, -⟩ := Prod.mk.inj heq
    refine ⟨fun entry hentry => ?_, fun node hnode => nomatch hnode⟩
    obtain rfl := List.mem_singleton.mp hentry
    exact houtput
  | cons node nodes ih =>
    obtain ⟨i, rest, s₁, s₂, -, h₂, hinput, h₃, rfl⟩ := compileNodes_cons_eq_ok ht hc h
    obtain ⟨hrest, hbodies⟩ := ih h₃ houtput
    constructor
    · intro entry hentry
      rcases List.mem_cons.mp hentry with rfl | hentry
      · exact hinput
      · exact hrest entry hentry
    · intro n hn
      rcases List.mem_cons.mp hn with rfl | hn
      · exact instruction_bodies h₂
      · exact hbodies n hn

/-- In every body within what a stage compiles, the bindings were checked as declared. -/
structure Stage.Checks (c : Catalog) (deeper : Stage) : Prop where
  inline : ∀ {b s p s'}, deeper.inline b s = (.ok p, s') →
    ∀ body, p.Within body → Checked c.limits body.declared
  workflow : ∀ {d s plan s'}, deeper.workflow d s = (.ok plan, s') →
    ∀ body, plan.body.Within body → Checked c.limits body.declared

theorem body_checks (hc : c.Reports) (ht : deeper.Tamed) (hd : deeper.Checks c)
    {b : BodyDefinition} {p : PreparedBody} {s s' : Compiler}
    (h : body c deeper b s = (.ok p, s')) :
    ∀ inner, p.Within inner → Checked c.limits inner.declared := by
  obtain ⟨order, s₁, -, -, h₂, houtput, heq⟩ := body_eq_ok h
  rw [← heq] at houtput
  obtain ⟨hchecked, hbodies⟩ := compileNodes_checked hc ht h₂ houtput
  intro inner hinner
  cases hinner with
  | self => exact hchecked
  | inside hnode henters hwithin =>
    rcases hbodies _ hnode _ (mem_bodies.mpr ⟨_, henters⟩) with
      ⟨b, s, s', hb⟩ | ⟨d, plan, s, s', hp, rfl⟩
    · exact hd.inline hb inner hwithin
    · exact hd.workflow hp inner hwithin

theorem stage_checks (hc : c.Reports) (remaining : Nat) : (stage c remaining).Checks c := by
  induction remaining with
  | zero => exact ⟨fun h => (nomatch h), fun h => (nomatch h)⟩
  | succ remaining ih =>
    have hbody : ∀ {b s p s'}, body c (stage c remaining) b s = (.ok p, s') →
        ∀ inner, p.Within inner → Checked c.limits inner.declared :=
      fun h => body_checks hc (stage_tame hc remaining) ih h
    refine ⟨hbody, fun h => ?_⟩
    obtain ⟨-, -, s₁, hparts, -⟩ := workflow_eq_ok h
    obtain ⟨s₂, s₃, m, -, -, -, hcompiled, -, -, -, -, hp⟩ := parts_eq_ok hparts
    rw [hp]
    exact hbody hcompiled

end Bodies

end Compiler

/-! ## The check is sound -/

/-- A checked binding, evaluated with the outputs of its producers, misses no producer and
fails for the data or for the size of the result only; and every body of a prepared plan, at
every level, evaluates its bindings with exactly the producers they were checked with. -/
theorem bindings_sound {validator : Validator} {c : Catalog} (hc : Assembled validator c) :
    (∀ (b : Binding) (available : BTreeSet String) (limits : Limits),
      b.check available limits = .ok () →
      ∀ (input : Value) (outputs : BTreeMap String Value), (∀ id ∈ available, id ∈ outputs) →
        (∀ e, b.evaluate input outputs limits = .error e →
          e = missing ∨ e = invalidIndex ∨ e = traversesScalar ∨ e = outOfBytes ∨ e = tooDeep) ∧
        ∀ s, b.Selects s → root input outputs s.source s.node ≠ none) ∧
    ∀ (d : WorkflowDefinition) (p : Plan), prepare c d = .ok p →
      ∀ body, p.body.Within body → ∀ (input : Value) (point : BodyPoint),
        body.Reaches input c.limits point → ∀ b, body.Evaluates point b →
          ∃ available, (b, available) ∈ body.declared ∧ b.check available c.limits = .ok () ∧
            ∀ id, id ∈ available ↔ id ∈ point.outputs := by
  constructor
  · intro b available limits hcheck input outputs houtputs
    exact ⟨fun e he => Binding.evaluate_error hcheck he,
      fun s hs => hs.root_ne_none hcheck houtputs⟩
  · intro d p hp body hbody input point hpoint b hb
    have hcompile : compile c d = (.ok p, (compile c d).2) := Prod.ext hp rfl
    have hchecks := (Compiler.stage_checks hc.reports (c.limits.controlDepth + 1)).workflow hcompile
    -- the point is one of those that the body declares
    obtain ⟨available, hmem, houtputs⟩ := hpoint.declared hb
    exact ⟨available, hmem, hchecks body hbody _ hmem, houtputs⟩

/-- A pause that reads the output of the pause before it, for examples. -/
def readingDefinition : WorkflowDefinition :=
  sampleDefinition "reading"
    [⟨"first", .literal .null, .timer 10⟩,
     ⟨"second", .select ⟨.node, some "first", "/state", some (.literal .null)⟩, .timer 10⟩]
    [⟨"first", "second"⟩]

theorem bindings_sound_sample : ∃ c p, prepare c readingDefinition = .ok p ∧
    ∀ (input : Value) (point : BodyPoint), p.body.Reaches input c.limits point →
      ∀ b, p.body.Evaluates point b → ∀ s, b.Selects s →
        root input point.outputs s.source s.node ≠ none := by
  obtain ⟨c, hc, hall⟩ := sample_assembled (p := fun c =>
    (prepare c readingDefinition).toOption.any fun _ => true) (by decide +kernel)
  obtain ⟨p, hp, -⟩ := exists_ok hall
  obtain ⟨hsound, hbodies⟩ := bindings_sound hc
  refine ⟨c, p, hp, fun input point hpoint b hb s hs => ?_⟩
  obtain ⟨available, -, hcheck, houtputs⟩ :=
    hbodies readingDefinition p hp p.body (.self _) input point hpoint b hb
  exact (hsound b available c.limits hcheck input point.outputs fun id hid =>
    (houtputs id).mp hid).2 s hs

end WorkflowForge.Engine
