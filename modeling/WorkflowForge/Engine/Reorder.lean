import Mathlib.Data.String.Basic
import WorkflowForge.Engine.Semantic
import WorkflowForge.Lib.Sorting

/-!
# Definitions up to Order

Two definitions mean the same if they differ only in the order of their nodes and edges, at
any depth, and in how they are presented. Where the nodes of every body have distinct
identities, the semantic value is a normal form for this.

## Main results

- `BodyDefinition.reordered_of_normalize`: bodies with one normal form differ only in order.
- `BodyDefinition.normalize_of_reordered`: bodies that differ only in order have one normal
  form.
- `WorkflowDefinition.semanticValue_eq_iff`: what the semantic value tells apart.
-/

namespace WorkflowForge

open Lib

/-! ## Reordering -/

mutual
/-- The same instruction, but for the order of nodes and edges in its bodies. -/
inductive Instruction.Reordered : Instruction → Instruction → Prop where
  | «try» {body body' : BodyDefinition} {catches catches' : List ErrorCase}
      {fallback fallback' : FallbackCase} : BodyDefinition.Reordered body body' →
      List.Forall₂ ErrorCase.Reordered catches catches' →
      FallbackCase.Reordered fallback fallback' →
      Instruction.Reordered (.try body catches fallback) (.try body' catches' fallback')
  | operation (operation : OperationRevision) (config : Value) (retry : RetryPolicy) :
      Instruction.Reordered (.operation operation config retry) (.operation operation config retry)
  | decision {cases cases' : List DecisionCase} {fallback fallback' : Option FallbackCase} :
      List.Forall₂ DecisionCase.Reordered cases cases' →
      Option.Rel FallbackCase.Reordered fallback fallback' →
      Instruction.Reordered (.decision cases fallback) (.decision cases' fallback')
  | parallel {branches branches' : List (String × BodyDefinition)} (concurrency : Nat)
      (errors : GroupErrors) (join : JoinPolicy) :
      List.Forall₂ BodyDefinition.BranchReordered branches branches' →
      Instruction.Reordered (.parallel branches concurrency errors join)
        (.parallel branches' concurrency errors join)
  | foreach {body body' : BodyDefinition} (items : Binding) (concurrency : Nat)
      (errors : GroupErrors) : BodyDefinition.Reordered body body' →
      Instruction.Reordered (.foreach items body concurrency errors)
        (.foreach items body' concurrency errors)
  | loop {body body' : BodyDefinition} (condition : Binding) (maxIterations : Nat)
      (onLimit : LoopLimit) : BodyDefinition.Reordered body body' →
      Instruction.Reordered (.loop condition body maxIterations onLimit)
        (.loop condition body' maxIterations onLimit)
  | subworkflow (workflow : WorkflowRevision) :
      Instruction.Reordered (.subworkflow workflow) (.subworkflow workflow)
  | timer (durationMs : UInt64) : Instruction.Reordered (.timer durationMs) (.timer durationMs)
  | awaitSignal (correlation : Binding) (timeoutMs : UInt64) (payloadSchema : Value)
      (start : Option SignalStart) :
      Instruction.Reordered (.awaitSignal correlation timeoutMs payloadSchema start)
        (.awaitSignal correlation timeoutMs payloadSchema start)

inductive NodeDefinition.Reordered : NodeDefinition → NodeDefinition → Prop where
  | mk {instruction instruction' : Instruction} (id : String) (input : Binding) :
      Instruction.Reordered instruction instruction' →
      NodeDefinition.Reordered ⟨id, input, instruction⟩ ⟨id, input, instruction'⟩

/-- The nodes, up to what is inside of them, and the edges in any order. -/
inductive BodyDefinition.Reordered : BodyDefinition → BodyDefinition → Prop where
  | mk {nodes between nodes' : List NodeDefinition} {edges edges' : List Edge} (entry : String)
      (output : Binding) : List.Forall₂ NodeDefinition.Reordered nodes between →
      between.Perm nodes' → edges.Perm edges' →
      BodyDefinition.Reordered ⟨entry, nodes, edges, output⟩ ⟨entry, nodes', edges', output⟩

inductive BodyDefinition.BranchReordered :
    String × BodyDefinition → String × BodyDefinition → Prop where
  | mk {body body' : BodyDefinition} (label : String) : BodyDefinition.Reordered body body' →
      BodyDefinition.BranchReordered (label, body) (label, body')

inductive DecisionCase.Reordered : DecisionCase → DecisionCase → Prop where
  | mk {body body' : BodyDefinition} (id : String) (condition : Binding) :
      BodyDefinition.Reordered body body' →
      DecisionCase.Reordered ⟨id, condition, body⟩ ⟨id, condition, body'⟩

inductive ErrorCase.Reordered : ErrorCase → ErrorCase → Prop where
  | mk {body body' : BodyDefinition} (id code : String) : BodyDefinition.Reordered body body' →
      ErrorCase.Reordered ⟨id, code, body⟩ ⟨id, code, body'⟩

inductive FallbackCase.Reordered : FallbackCase → FallbackCase → Prop where
  | mk {body body' : BodyDefinition} (id : String) : BodyDefinition.Reordered body body' →
      FallbackCase.Reordered ⟨id, body⟩ ⟨id, body'⟩
end

/-- The chain of nodes of a workflow. -/
def WorkflowDefinition.root (d : WorkflowDefinition) : BodyDefinition :=
  ⟨d.entry, d.nodes, d.edges, d.output⟩

/-- The same workflow, but for the order of nodes and edges and for its presentation. -/
structure WorkflowDefinition.Reordered (d d' : WorkflowDefinition) : Prop where
  format : d.format = d'.format
  id : d.id = d'.id
  revision : d.revision = d'.revision
  schemaDialect : d.schemaDialect = d'.schemaDialect
  inputSchema : d.inputSchema = d'.inputSchema
  outputSchema : d.outputSchema = d'.outputSchema
  root : d.root.Reordered d'.root

/-! ## Distinct identities -/

/-- The bodies inside an instruction. -/
def Instruction.bodies : Instruction → List BodyDefinition
  | .try body catches fallback => body :: catches.map ErrorCase.body ++ [fallback.body]
  | .decision cases fallback =>
    cases.map DecisionCase.body ++ fallback.toList.map FallbackCase.body
  | .parallel branches _ _ _ => branches.map Prod.snd
  | .foreach _ body _ _ => [body]
  | .loop _ body _ _ => [body]
  | _ => []

/-- The nodes of a body, and of the bodies inside of it, have distinct identities. -/
inductive BodyDefinition.Distinct : BodyDefinition → Prop where
  | mk {b : BodyDefinition} : (b.nodes.map NodeDefinition.id).Nodup →
      (∀ n ∈ b.nodes, ∀ inner ∈ n.instruction.bodies, Distinct inner) → Distinct b

def Instruction.Distinct (i : Instruction) : Prop :=
  ∀ b ∈ i.bodies, b.Distinct

/-! ## Normal forms -/

theorem NodeDefinition.normalizeAll_eq_map (ns : List NodeDefinition) :
    NodeDefinition.normalizeAll ns = ns.map NodeDefinition.normalize := by
  induction ns with
  | nil => rfl
  | cons n ns ih => simp [NodeDefinition.normalizeAll, ih]

/-- Normalizing renames no node. -/
theorem NodeDefinition.normalize_id (n : NodeDefinition) : n.normalize.id = n.id := by
  cases n
  rfl

/-- Nodes in any order are sorted to the same, if their identities are distinct. -/
theorem sortNodes_eq_of_perm {xs ys : List NodeDefinition} (h : xs.Perm ys)
    (hnodup : (xs.map NodeDefinition.id).Nodup) : sortNodes xs = sortNodes ys := by
  refine mergeSort_eq_of_perm h (fun a b c hab hbc => ?_) (fun a b => ?_)
    fun a ha b hb hab hba => ?_
  · exact decide_eq_true ((of_decide_eq_true hab).trans (of_decide_eq_true hbc))
  · simpa using le_total a.id b.id
  · exact eq_of_key_eq hnodup ha hb (le_antisymm (of_decide_eq_true hab) (of_decide_eq_true hba))

/-- Edges are sorted by all they have, so that their order before does not matter. -/
theorem sortEdges_eq_of_perm {xs ys : List Edge} (h : xs.Perm ys) :
    sortEdges xs = sortEdges ys := by
  -- the order of edges is transitive, total and antisymmetric
  refine mergeSort_eq_of_perm h (fun a b c hab hbc => ?_) (fun a b => ?_) fun a _ b _ hab hba => ?_
  · have hab := of_decide_eq_true hab
    have hbc := of_decide_eq_true hbc
    refine decide_eq_true ?_
    rcases hab with hab | ⟨hab, hab'⟩
    · rcases hbc with hbc | ⟨hbc, -⟩
      · exact .inl (hab.trans hbc)
      · exact .inl (hbc ▸ hab)
    · rcases hbc with hbc | ⟨hbc, hbc'⟩
      · exact .inl (hab ▸ hbc)
      · exact .inr ⟨hab.trans hbc, hab'.trans hbc'⟩
  · rcases lt_trichotomy a.source b.source with hs | hs | hs
    · simp [hs]
    · rcases le_total a.target b.target with ht | ht <;> simp [hs, ht]
    · simp [hs]
  · have hab := of_decide_eq_true hab
    have hba := of_decide_eq_true hba
    have heq : a.source = b.source ∧ a.target = b.target := by
      rcases hab with hab | ⟨hs, ht⟩
      · rcases hba with hba | ⟨hs, -⟩
        · exact absurd hba (lt_asymm hab)
        · exact absurd hab (hs ▸ lt_irrefl _)
      · rcases hba with hba | ⟨-, ht'⟩
        · exact absurd hba (hs ▸ lt_irrefl _)
        · exact ⟨hs, le_antisymm ht ht'⟩
    cases a
    cases b
    exact congrArg₂ Edge.mk heq.1 heq.2

/-! ## From normal forms to reorderings -/

mutual
/-- Equal normal forms come from reordered instructions: by induction on what is nested. -/
theorem Instruction.reordered_of_normalize (i i' : Instruction)
    (h : i.normalize = i'.normalize) : i.Reordered i' := by
  -- two instructions of different kinds have different normal forms
  cases i with
  | «try» body catches fallback =>
    cases i' with
    | «try» body' catches' fallback' =>
      simp only [Instruction.normalize, Instruction.try.injEq] at h
      exact .try (body.reordered_of_normalize body' h.1)
        (ErrorCase.reordered_of_normalizeAll catches catches' h.2.1)
        (fallback.reordered_of_normalize fallback' h.2.2)
    | _ => nomatch h
  | operation operation config retry =>
    cases i' with
    | operation operation' config' retry' =>
      simp only [Instruction.normalize] at h
      exact h ▸ .operation operation config retry
    | _ => nomatch h
  | decision cases fallback =>
    cases i' with
    | decision cases' fallback' =>
      simp only [Instruction.normalize, Instruction.decision.injEq] at h
      exact .decision (DecisionCase.reordered_of_normalizeAll cases cases' h.1)
        (FallbackCase.reordered_of_normalizeOption fallback fallback' h.2)
    | _ => nomatch h
  | parallel branches concurrency errors join =>
    cases i' with
    | parallel branches' concurrency' errors' join' =>
      simp only [Instruction.normalize, Instruction.parallel.injEq] at h
      obtain ⟨hbranches, rfl, rfl, -⟩ := h
      cases join
      cases join'
      exact .parallel concurrency errors .all
        (BodyDefinition.reordered_of_normalizeAll branches branches' hbranches)
    | _ => nomatch h
  | foreach items body concurrency errors =>
    cases i' with
    | foreach items' body' concurrency' errors' =>
      simp only [Instruction.normalize, Instruction.foreach.injEq] at h
      obtain ⟨rfl, hbody, rfl, rfl⟩ := h
      exact .foreach items concurrency errors (body.reordered_of_normalize body' hbody)
    | _ => nomatch h
  | loop condition body maxIterations onLimit =>
    cases i' with
    | loop condition' body' maxIterations' onLimit' =>
      simp only [Instruction.normalize, Instruction.loop.injEq] at h
      obtain ⟨rfl, hbody, rfl, rfl⟩ := h
      exact .loop condition maxIterations onLimit (body.reordered_of_normalize body' hbody)
    | _ => nomatch h
  | subworkflow workflow =>
    cases i' with
    | subworkflow workflow' =>
      simp only [Instruction.normalize] at h
      exact h ▸ .subworkflow workflow
    | _ => nomatch h
  | timer durationMs =>
    cases i' with
    | timer durationMs' =>
      simp only [Instruction.normalize] at h
      exact h ▸ .timer durationMs
    | _ => nomatch h
  | awaitSignal correlation timeoutMs payloadSchema start =>
    cases i' with
    | awaitSignal correlation' timeoutMs' payloadSchema' start' =>
      simp only [Instruction.normalize] at h
      exact h ▸ .awaitSignal correlation timeoutMs payloadSchema start
    | _ => nomatch h
termination_by structural i

/-- From nodes with the same name and input, reordered inside. -/
theorem NodeDefinition.reordered_of_normalize (n n' : NodeDefinition)
    (h : n.normalize = n'.normalize) : n.Reordered n' := by
  cases n with
  | mk id input instruction =>
    cases n' with
    | mk id' input' instruction' =>
      simp only [NodeDefinition.normalize, NodeDefinition.mk.injEq] at h
      obtain ⟨rfl, rfl, hinstruction⟩ := h
      exact .mk id input (instruction.reordered_of_normalize instruction' hinstruction)
termination_by structural n

/-- Bodies with one normal form differ only in order. -/
theorem BodyDefinition.reordered_of_normalize (b b' : BodyDefinition)
    (h : b.normalize = b'.normalize) : b.Reordered b' := by
  cases b with
  | mk entry nodes edges output =>
    cases b' with
    | mk entry' nodes' edges' output' =>
      simp only [BodyDefinition.normalize, BodyDefinition.mk.injEq] at h
      obtain ⟨rfl, hnodes, hedges, rfl⟩ := h
      -- the nodes on the left, matched with those on the right
      have hperm := perm_of_mergeSort_eq hnodes
      simp only [NodeDefinition.normalizeAll_eq_map] at hperm
      obtain ⟨between, hmap, hbetween⟩ := exists_forall₂_perm hperm
      refine .mk entry output (NodeDefinition.reordered_of_normalizeAll nodes between ?_) hbetween
        (perm_of_mergeSort_eq hedges)
      rw [NodeDefinition.normalizeAll_eq_map, NodeDefinition.normalizeAll_eq_map, hmap]
termination_by structural b

/-- From cases with the same name and condition. -/
theorem DecisionCase.reordered_of_normalize (c c' : DecisionCase)
    (h : c.normalize = c'.normalize) : c.Reordered c' := by
  cases c with
  | mk id condition body =>
    cases c' with
    | mk id' condition' body' =>
      simp only [DecisionCase.normalize, DecisionCase.mk.injEq] at h
      obtain ⟨rfl, rfl, hbody⟩ := h
      exact .mk id condition (body.reordered_of_normalize body' hbody)
termination_by structural c

/-- From handlers with the same name and code. -/
theorem ErrorCase.reordered_of_normalize (c c' : ErrorCase)
    (h : c.normalize = c'.normalize) : c.Reordered c' := by
  cases c with
  | mk id code body =>
    cases c' with
    | mk id' code' body' =>
      simp only [ErrorCase.normalize, ErrorCase.mk.injEq] at h
      obtain ⟨rfl, rfl, hbody⟩ := h
      exact .mk id code (body.reordered_of_normalize body' hbody)
termination_by structural c

theorem FallbackCase.reordered_of_normalize (c c' : FallbackCase)
    (h : c.normalize = c'.normalize) : c.Reordered c' := by
  cases c with
  | mk id body =>
    cases c' with
    | mk id' body' =>
      simp only [FallbackCase.normalize, FallbackCase.mk.injEq] at h
      obtain ⟨rfl, hbody⟩ := h
      exact .mk id (body.reordered_of_normalize body' hbody)
termination_by structural c

theorem FallbackCase.reordered_of_normalizeOption (c c' : Option FallbackCase)
    (h : FallbackCase.normalizeOption c = FallbackCase.normalizeOption c') :
    Option.Rel FallbackCase.Reordered c c' := by
  cases c with
  | none =>
    cases c' with
    | none => exact .none
    | some c' => nomatch h
  | some c =>
    cases c' with
    | none => nomatch h
    | some c' => exact .some (c.reordered_of_normalize c' (Option.some.inj h))
termination_by structural c

/-- In lists the nodes correspond one by one. -/
theorem NodeDefinition.reordered_of_normalizeAll (ns ns' : List NodeDefinition)
    (h : NodeDefinition.normalizeAll ns = NodeDefinition.normalizeAll ns') :
    List.Forall₂ NodeDefinition.Reordered ns ns' := by
  cases ns with
  | nil =>
    cases ns' with
    | nil => exact .nil
    | cons n' ns' => nomatch h
  | cons n ns =>
    cases ns' with
    | nil => nomatch h
    | cons n' ns' =>
      obtain ⟨hn, hns⟩ := List.cons.inj h
      exact .cons (n.reordered_of_normalize n' hn)
        (NodeDefinition.reordered_of_normalizeAll ns ns' hns)
termination_by structural ns

/-- Branches do so under the same names. -/
theorem BodyDefinition.reordered_of_normalizeAll (bs bs' : List (String × BodyDefinition))
    (h : BodyDefinition.normalizeAll bs = BodyDefinition.normalizeAll bs') :
    List.Forall₂ BodyDefinition.BranchReordered bs bs' := by
  cases bs with
  | nil =>
    cases bs' with
    | nil => exact .nil
    | cons b' bs' => nomatch h
  | cons b bs =>
    cases bs' with
    | nil => nomatch h
    | cons b' bs' =>
      obtain ⟨label, body⟩ := b
      obtain ⟨label', body'⟩ := b'
      obtain ⟨hb, hbs⟩ := List.cons.inj h
      obtain ⟨rfl, hbody⟩ := Prod.mk.inj hb
      exact .cons (.mk label (body.reordered_of_normalize body' hbody))
        (BodyDefinition.reordered_of_normalizeAll bs bs' hbs)
termination_by structural bs

theorem DecisionCase.reordered_of_normalizeAll (cs cs' : List DecisionCase)
    (h : DecisionCase.normalizeAll cs = DecisionCase.normalizeAll cs') :
    List.Forall₂ DecisionCase.Reordered cs cs' := by
  cases cs with
  | nil =>
    cases cs' with
    | nil => exact .nil
    | cons c' cs' => nomatch h
  | cons c cs =>
    cases cs' with
    | nil => nomatch h
    | cons c' cs' =>
      obtain ⟨hc, hcs⟩ := List.cons.inj h
      exact .cons (c.reordered_of_normalize c' hc)
        (DecisionCase.reordered_of_normalizeAll cs cs' hcs)
termination_by structural cs

theorem ErrorCase.reordered_of_normalizeAll (cs cs' : List ErrorCase)
    (h : ErrorCase.normalizeAll cs = ErrorCase.normalizeAll cs') :
    List.Forall₂ ErrorCase.Reordered cs cs' := by
  cases cs with
  | nil =>
    cases cs' with
    | nil => exact .nil
    | cons c' cs' => nomatch h
  | cons c cs =>
    cases cs' with
    | nil => nomatch h
    | cons c' cs' =>
      obtain ⟨hc, hcs⟩ := List.cons.inj h
      exact .cons (c.reordered_of_normalize c' hc)
        (ErrorCase.reordered_of_normalizeAll cs cs' hcs)
termination_by structural cs
end

/-! ## From reorderings to normal forms -/

mutual
/-- Reordered instructions with distinct nodes have one normal form: by the same induction. -/
theorem Instruction.normalize_of_reordered (i i' : Instruction) (h : i.Reordered i')
    (hi : i.Distinct) (hi' : i'.Distinct) : i.normalize = i'.normalize := by
  -- the bodies of both sides have distinct nodes, as the instructions have
  cases i with
  | «try» body catches fallback =>
    cases h with
    | «try» hbody hcatches hfallback =>
      simp only [Instruction.normalize, Instruction.try.injEq]
      refine ⟨body.normalize_of_reordered _ hbody (hi _ ?_) (hi' _ ?_),
        ErrorCase.normalizeAll_of_reordered catches _ hcatches (fun c hc => hi _ ?_)
          (fun c hc => hi' _ ?_),
        fallback.normalize_of_reordered _ hfallback (hi _ ?_) (hi' _ ?_)⟩
      · exact List.mem_append_left _ List.mem_cons_self
      · exact List.mem_append_left _ List.mem_cons_self
      · exact List.mem_append_left _ (List.mem_cons_of_mem _ (List.mem_map_of_mem hc))
      · exact List.mem_append_left _ (List.mem_cons_of_mem _ (List.mem_map_of_mem hc))
      · exact List.mem_append_right _ (List.mem_singleton_self _)
      · exact List.mem_append_right _ (List.mem_singleton_self _)
  | decision cases fallback =>
    cases h with
    | decision hcases hfallback =>
      simp only [Instruction.normalize, Instruction.decision.injEq]
      refine ⟨DecisionCase.normalizeAll_of_reordered cases _ hcases (fun c hc => hi _ ?_)
          (fun c hc => hi' _ ?_),
        FallbackCase.normalizeOption_of_reordered fallback _ hfallback (fun c hc => hi _ ?_)
          (fun c hc => hi' _ ?_)⟩
      · exact List.mem_append_left _ (List.mem_map_of_mem hc)
      · exact List.mem_append_left _ (List.mem_map_of_mem hc)
      · exact List.mem_append_right _ (List.mem_map_of_mem (Option.mem_toList.mpr hc))
      · exact List.mem_append_right _ (List.mem_map_of_mem (Option.mem_toList.mpr hc))
  | parallel branches concurrency errors join =>
    cases h with
    | parallel _ _ _ hbranches =>
      simp only [Instruction.normalize, Instruction.parallel.injEq, and_self, and_true]
      exact BodyDefinition.normalizeAll_of_reordered branches _ hbranches
        (fun b hb => hi _ (List.mem_map_of_mem hb)) (fun b hb => hi' _ (List.mem_map_of_mem hb))
  | foreach items body concurrency errors =>
    cases h with
    | foreach _ _ _ hbody =>
      simp only [Instruction.normalize, Instruction.foreach.injEq, true_and, and_true]
      exact body.normalize_of_reordered _ hbody (hi _ (List.mem_singleton_self _))
        (hi' _ (List.mem_singleton_self _))
  | loop condition body maxIterations onLimit =>
    cases h with
    | loop _ _ _ hbody =>
      simp only [Instruction.normalize, Instruction.loop.injEq, true_and, and_true]
      exact body.normalize_of_reordered _ hbody (hi _ (List.mem_singleton_self _))
        (hi' _ (List.mem_singleton_self _))
  | operation operation config retry => cases h; rfl
  | subworkflow workflow => cases h; rfl
  | timer durationMs => cases h; rfl
  | awaitSignal correlation timeoutMs payloadSchema start => cases h; rfl
termination_by structural i

/-- Reordered nodes have one, with their name and input. -/
theorem NodeDefinition.normalize_of_reordered (n n' : NodeDefinition) (h : n.Reordered n')
    (hn : n.instruction.Distinct) (hn' : n'.instruction.Distinct) :
    n.normalize = n'.normalize := by
  cases n with
  | mk id input instruction =>
    cases h with
    | mk _ _ hinstruction =>
      simp only [NodeDefinition.normalize, NodeDefinition.mk.injEq, true_and]
      exact instruction.normalize_of_reordered _ hinstruction hn hn'
termination_by structural n

/-- Bodies that differ only in order have one normal form. -/
theorem BodyDefinition.normalize_of_reordered (b b' : BodyDefinition) (h : b.Reordered b')
    (hb : b.Distinct) (hb' : b'.Distinct) : b.normalize = b'.normalize := by
  cases b with
  | mk entry nodes edges output =>
    cases h with
    | @mk _ between nodes' _ edges' _ _ hnodes hperm hedges =>
      cases hb with
      | mk hids hinner =>
        cases hb' with
        | mk hids' hinner' =>
          -- nodes are normalised first, then sorted by identities that are distinct
          have hbetween : NodeDefinition.normalizeAll nodes = NodeDefinition.normalizeAll between :=
            NodeDefinition.normalizeAll_of_reordered nodes between hnodes hinner
              fun n hn => hinner' n (hperm.mem_iff.mp hn)
          simp only [BodyDefinition.normalize, BodyDefinition.mk.injEq, true_and, and_true]
          refine ⟨?_, sortEdges_eq_of_perm hedges⟩
          rw [hbetween]
          simp only [NodeDefinition.normalizeAll_eq_map]
          refine sortNodes_eq_of_perm (hperm.map _) ?_
          rw [List.map_map,
            show NodeDefinition.id ∘ NodeDefinition.normalize = NodeDefinition.id from
              funext NodeDefinition.normalize_id]
          exact (hperm.map _).nodup_iff.mpr hids'
termination_by structural b

/-- So have reordered cases. -/
theorem DecisionCase.normalize_of_reordered (c c' : DecisionCase) (h : c.Reordered c')
    (hc : c.body.Distinct) (hc' : c'.body.Distinct) : c.normalize = c'.normalize := by
  cases c with
  | mk id condition body =>
    cases h with
    | mk _ _ hbody =>
      simp only [DecisionCase.normalize, DecisionCase.mk.injEq, true_and]
      exact body.normalize_of_reordered _ hbody hc hc'
termination_by structural c

/-- And reordered handlers. -/
theorem ErrorCase.normalize_of_reordered (c c' : ErrorCase) (h : c.Reordered c')
    (hc : c.body.Distinct) (hc' : c'.body.Distinct) : c.normalize = c'.normalize := by
  cases c with
  | mk id code body =>
    cases h with
    | mk _ _ hbody =>
      simp only [ErrorCase.normalize, ErrorCase.mk.injEq, true_and]
      exact body.normalize_of_reordered _ hbody hc hc'
termination_by structural c

theorem FallbackCase.normalize_of_reordered (c c' : FallbackCase) (h : c.Reordered c')
    (hc : c.body.Distinct) (hc' : c'.body.Distinct) : c.normalize = c'.normalize := by
  cases c with
  | mk id body =>
    cases h with
    | mk _ hbody =>
      simp only [FallbackCase.normalize, FallbackCase.mk.injEq, true_and]
      exact body.normalize_of_reordered _ hbody hc hc'
termination_by structural c

theorem FallbackCase.normalizeOption_of_reordered (c c' : Option FallbackCase)
    (h : Option.Rel FallbackCase.Reordered c c') (hc : ∀ x, c = some x → x.body.Distinct)
    (hc' : ∀ x, c' = some x → x.body.Distinct) :
    FallbackCase.normalizeOption c = FallbackCase.normalizeOption c' := by
  cases c with
  | none => cases h; rfl
  | some c =>
    cases h with
    | some h => exact congrArg some (c.normalize_of_reordered _ h (hc c rfl) (hc' _ rfl))
termination_by structural c

/-- And lists of nodes that correspond one by one. -/
theorem NodeDefinition.normalizeAll_of_reordered (ns ns' : List NodeDefinition)
    (h : List.Forall₂ NodeDefinition.Reordered ns ns')
    (hns : ∀ n ∈ ns, n.instruction.Distinct) (hns' : ∀ n ∈ ns', n.instruction.Distinct) :
    NodeDefinition.normalizeAll ns = NodeDefinition.normalizeAll ns' := by
  cases ns with
  | nil => cases h; rfl
  | cons n ns =>
    cases h with
    | cons hn h =>
      obtain ⟨hd, hns⟩ := List.forall_mem_cons.mp hns
      obtain ⟨hd', hns'⟩ := List.forall_mem_cons.mp hns'
      exact congrArg₂ List.cons (n.normalize_of_reordered _ hn hd hd')
        (NodeDefinition.normalizeAll_of_reordered ns _ h hns hns')
termination_by structural ns

/-- And branches. -/
theorem BodyDefinition.normalizeAll_of_reordered (bs bs' : List (String × BodyDefinition))
    (h : List.Forall₂ BodyDefinition.BranchReordered bs bs')
    (hbs : ∀ b ∈ bs, b.2.Distinct) (hbs' : ∀ b ∈ bs', b.2.Distinct) :
    BodyDefinition.normalizeAll bs = BodyDefinition.normalizeAll bs' := by
  cases bs with
  | nil => cases h; rfl
  | cons b bs =>
    obtain ⟨label, body⟩ := b
    cases h with
    | cons hb h =>
      cases hb with
      | mk _ hbody =>
        obtain ⟨hd, hbs⟩ := List.forall_mem_cons.mp hbs
        obtain ⟨hd', hbs'⟩ := List.forall_mem_cons.mp hbs'
        exact congrArg₂ List.cons
          (congrArg (Prod.mk label) (body.normalize_of_reordered _ hbody hd hd'))
          (BodyDefinition.normalizeAll_of_reordered bs _ h hbs hbs')
termination_by structural bs

theorem DecisionCase.normalizeAll_of_reordered (cs cs' : List DecisionCase)
    (h : List.Forall₂ DecisionCase.Reordered cs cs')
    (hcs : ∀ c ∈ cs, c.body.Distinct) (hcs' : ∀ c ∈ cs', c.body.Distinct) :
    DecisionCase.normalizeAll cs = DecisionCase.normalizeAll cs' := by
  cases cs with
  | nil => cases h; rfl
  | cons c cs =>
    cases h with
    | cons hc h =>
      obtain ⟨hd, hcs⟩ := List.forall_mem_cons.mp hcs
      obtain ⟨hd', hcs'⟩ := List.forall_mem_cons.mp hcs'
      exact congrArg₂ List.cons (c.normalize_of_reordered _ hc hd hd')
        (DecisionCase.normalizeAll_of_reordered cs _ h hcs hcs')
termination_by structural cs

theorem ErrorCase.normalizeAll_of_reordered (cs cs' : List ErrorCase)
    (h : List.Forall₂ ErrorCase.Reordered cs cs')
    (hcs : ∀ c ∈ cs, c.body.Distinct) (hcs' : ∀ c ∈ cs', c.body.Distinct) :
    ErrorCase.normalizeAll cs = ErrorCase.normalizeAll cs' := by
  cases cs with
  | nil => cases h; rfl
  | cons c cs =>
    cases h with
    | cons hc h =>
      obtain ⟨hd, hcs⟩ := List.forall_mem_cons.mp hcs
      obtain ⟨hd', hcs'⟩ := List.forall_mem_cons.mp hcs'
      exact congrArg₂ List.cons (c.normalize_of_reordered _ hc hd hd')
        (ErrorCase.normalizeAll_of_reordered cs _ h hcs hcs')
termination_by structural cs
end

/-! ## Semantic values -/

/-- Where identities are distinct, the semantic value tells two workflows apart exactly if
they differ in more than order and presentation. -/
theorem WorkflowDefinition.semanticValue_eq_iff {d d' : WorkflowDefinition}
    (hd : d.root.Distinct) (hd' : d'.root.Distinct) :
    d.semanticValue = d'.semanticValue ↔ d.Reordered d' := by
  constructor
  · intro h
    have heq := serialize_injective h
    simp only [WorkflowDefinition.mk.injEq] at heq
    obtain ⟨hformat, hid, hrevision, hdialect, hinput, houtput, hentry, hnodes, hedges, hout, -⟩ :=
      heq
    refine ⟨hformat, hid, hrevision, hdialect, hinput, houtput, ?_⟩
    refine BodyDefinition.reordered_of_normalize _ _ ?_
    simp only [WorkflowDefinition.root, BodyDefinition.normalize, hentry, hnodes, hedges, hout]
  · rintro ⟨hformat, hid, hrevision, hdialect, hinput, houtput, hroot⟩
    have h := BodyDefinition.normalize_of_reordered _ _ hroot hd hd'
    simp only [WorkflowDefinition.root, BodyDefinition.normalize, BodyDefinition.mk.injEq] at h
    obtain ⟨hentry, hnodes, hedges, hout⟩ := h
    simp only [WorkflowDefinition.semanticValue, hformat, hid, hrevision, hdialect, hinput,
      houtput, hentry, hnodes, hedges, hout]

/-- A body differs from itself in nothing. -/
theorem BodyDefinition.Reordered.refl (b : BodyDefinition) : b.Reordered b :=
  b.reordered_of_normalize b rfl

end WorkflowForge
