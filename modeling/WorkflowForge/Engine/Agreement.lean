import WorkflowForge.Engine.Counts
import WorkflowForge.Engine.Reorder

/-!
# Order and Compilation

The compiler follows the edges of a body, not the order in which its nodes and edges are
written. So it accepts only bodies whose nodes have distinct identities, and definitions that
differ in order and presentation alone compile to the same body.

## Main results

- `ordered_eq_ok`: the nodes of an accepted body are in the order of its edges.
- `prepare_distinct`: identities are distinct at every depth of an accepted definition.
- `prepare_agrees`: reordered definitions compile to one body.
-/

namespace WorkflowForge.Engine

open Lib

/-! ## The order of nodes -/

/-- Nodes without a complaint are filed by their identities, which are distinct. -/
theorem indexNodes_eq {nodes : List NodeDefinition} {index : BTreeMap String NodeDefinition}
    (h : nodes.foldl indexNode (∅, []) = (index, [])) :
    (nodes.map NodeDefinition.id).Nodup ∧
      ∀ (k : String) (n : NodeDefinition), index[k]? = some n ↔ n ∈ nodes ∧ n.id = k := by
  induction nodes using List.reverseRecOn generalizing index with
  | nil =>
    cases h
    simp
  | append_singleton nodes node ih =>
    rw [List.foldl_append, List.foldl_cons, List.foldl_nil, indexNode] at h
    split at h
    · simp at h
    obtain ⟨hindex, hdiagnostics⟩ := Prod.mk.inj h
    dsimp only at hdiagnostics
    split at hdiagnostics
    · simp at hdiagnostics
    -- no complaint, so the identity is new
    next hfresh =>
      obtain ⟨hnodup, hget⟩ := ih (Prod.ext rfl hdiagnostics)
      have hnew : node.id ∉ nodes.map NodeDefinition.id := by
        intro hmem
        obtain ⟨n, hn, hid⟩ := List.mem_map.mp hmem
        have hsome := (hget node.id n).mpr ⟨hn, hid⟩
        exact hfresh (Std.ExtTreeMap.contains_eq_isSome_getElem?.trans (by rw [hsome]; rfl))
      refine ⟨?_, fun k n => ?_⟩
      · rw [List.map_append, List.map_singleton]
        exact List.nodup_append.mpr ⟨hnodup, List.nodup_singleton _, fun a ha b hb =>
          List.mem_singleton.mp hb ▸ fun hab => hnew (hab ▸ ha)⟩
      · rw [← hindex, BTreeMap.get_insert]
        split
        -- the node under its own identity
        next heq =>
          subst heq
          constructor
          · intro hn
            cases hn
            simp
          · rintro ⟨hn, hid⟩
            rcases List.mem_append.mp hn with hn | hn
            · exact absurd (hid ▸ List.mem_map_of_mem hn) hnew
            · rw [List.mem_singleton.mp hn]
        -- the nodes before it
        next hne =>
          rw [hget k n, List.mem_append, List.mem_singleton]
          constructor
          · exact fun hn => ⟨.inl hn.1, hn.2⟩
          · rintro ⟨hn | rfl, hid⟩
            · exact ⟨hn, hid⟩
            · exact absurd hid hne

/-- Complaints about nodes are kept. -/
theorem linkEdges_invalid {index : BTreeMap String NodeDefinition} {edges : List Edge}
    {invalid : List Diagnostic} {links : Links}
    (h : edges.foldl (linkEdge index) { diagnostics := invalid } = links)
    (hd : links.diagnostics = []) : invalid = [] := by
  induction edges using List.reverseRecOn generalizing links with
  | nil =>
    subst h
    exact hd
  | append_singleton edges edge ih =>
    rw [List.foldl_append, List.foldl_cons, List.foldl_nil, linkEdge] at h
    split at h
    · subst h
      simp at hd
    · subst h
      dsimp only at hd
      obtain ⟨hd, -⟩ := List.append_eq_nil_iff.mp hd
      exact ih rfl (List.append_eq_nil_iff.mp hd).1

/-- Edges without a complaint lead on from their sources. -/
theorem linkEdges_eq {index : BTreeMap String NodeDefinition} {edges : List Edge}
    {links : Links} (h : edges.foldl (linkEdge index) { diagnostics := [] } = links)
    (hd : links.diagnostics = []) :
    ∀ k t : String, links.next[k]? = some t ↔ ⟨k, t⟩ ∈ edges := by
  induction edges using List.reverseRecOn generalizing links with
  | nil =>
    subst h
    simp
  | append_singleton edges edge ih =>
    rw [List.foldl_append, List.foldl_cons, List.foldl_nil, linkEdge] at h
    split at h
    · subst h
      simp at hd
    subst h
    dsimp only at hd ⊢
    obtain ⟨hd, hstructured⟩ := List.append_eq_nil_iff.mp hd
    obtain ⟨hd, -⟩ := List.append_eq_nil_iff.mp hd
    have hnext := ih rfl hd
    -- a second edge from one source is a complaint
    have hfresh : (edges.foldl (linkEdge index) { diagnostics := [] }).next.contains edge.source =
        false := by
      by_contra hfork
      simp [eq_true_of_ne_false hfork] at hstructured
    intro k t
    rw [BTreeMap.get_insert, List.mem_append, List.mem_singleton]
    split
    -- the edge under its own source
    next heq =>
      subst heq
      constructor
      · intro ht
        cases ht
        exact .inr rfl
      · rintro (ht | ht)
        · have hsome := (hnext edge.source t).mpr ht
          rw [Std.ExtTreeMap.contains_eq_isSome_getElem?, hsome] at hfresh
          nomatch hfresh
        · rw [← ht]
    -- the edges before it
    next hne =>
      rw [hnext k t]
      constructor
      · exact .inl
      · rintro (ht | rfl)
        · exact ht
        · exact absurd rfl hne

section Chain

variable {index index' : BTreeMap String NodeDefinition} {next next' : BTreeMap String String}

/-- A chain visits known nodes, none of them twice. -/
theorem walkChain_visits (hindex : ∀ (k : String) n, index[k]? = some n → n.id = k) {fuel : Nat}
    {visited : List String} {id : String} {order : List NodeDefinition}
    (h : walkChain index next fuel visited id = .ok order) :
    (order.map NodeDefinition.id).Nodup ∧
      ∀ n ∈ order, n.id ∉ visited ∧ index[n.id]? = some n := by
  induction fuel generalizing visited id order with
  | zero => nomatch h
  | succ fuel ih =>
    obtain ⟨_, hfresh, h⟩ := bind_eq_ok.mp h
    obtain ⟨node, hnode, h⟩ := bind_eq_ok.mp h
    have hfresh : id ∉ visited := by simpa using ensure_eq_ok.mp hfresh
    have hnode := okOr_eq_ok.mp hnode
    have hid := hindex id node hnode
    split at h
    · cases h
      refine ⟨List.nodup_singleton _, fun n hn => ?_⟩
      rw [List.mem_singleton.mp hn, hid]
      exact ⟨hfresh, hnode⟩
    · obtain ⟨rest, hrest, h⟩ := bind_eq_ok.mp h
      cases h
      obtain ⟨hnodup, hknown⟩ := ih hrest
      refine ⟨List.nodup_cons.mpr ⟨fun hmem => ?_, hnodup⟩, fun n hn => ?_⟩
      -- the rest is walked with the node among the visited
      · obtain ⟨n, hn, heq⟩ := List.mem_map.mp hmem
        exact (hknown n hn).1 (by rw [heq, hid]; exact List.mem_cons_self)
      · rcases List.mem_cons.mp hn with rfl | hn
        · rw [hid]
          exact ⟨hfresh, hnode⟩
        · exact ⟨fun hmem => (hknown n hn).1 (List.mem_cons_of_mem _ hmem), (hknown n hn).2⟩

/-- Chains along the same edges visit related nodes. -/
theorem walkChain_agrees {R : NodeDefinition → NodeDefinition → Prop}
    (hindex : ∀ k : String, Option.Rel R index[k]? index'[k]?)
    (hnext : ∀ k : String, next[k]? = next'[k]?) {fuel : Nat} {visited : List String} {id : String}
    {order order' : List NodeDefinition} (h : walkChain index next fuel visited id = .ok order)
    (h' : walkChain index' next' fuel visited id = .ok order') : List.Forall₂ R order order' := by
  induction fuel generalizing visited id order order' with
  | zero => nomatch h
  | succ fuel ih =>
    obtain ⟨_, -, h⟩ := bind_eq_ok.mp h
    obtain ⟨node, hnode, h⟩ := bind_eq_ok.mp h
    obtain ⟨_, -, h'⟩ := bind_eq_ok.mp h'
    obtain ⟨node', hnode', h'⟩ := bind_eq_ok.mp h'
    have hrel := hindex id
    rw [okOr_eq_ok.mp hnode, okOr_eq_ok.mp hnode'] at hrel
    have hrel : R node node' := by
      cases hrel
      assumption
    rw [← hnext id] at h'
    split at h
    -- both walks end
    next hlast =>
      rw [hlast] at h'
      cases h
      cases h'
      exact .cons hrel .nil
    -- both go on to the same identity
    next id' hlast =>
      rw [hlast] at h'
      obtain ⟨rest, hrest, h⟩ := bind_eq_ok.mp h
      obtain ⟨rest', hrest', h'⟩ := bind_eq_ok.mp h'
      cases h
      cases h'
      exact .cons hrel (ih hrest hrest')

end Chain

/-- The nodes of an accepted body are in the order of its edges. -/
theorem ordered_eq_ok {entry : String} {nodes order : List NodeDefinition} {edges : List Edge}
    (h : ordered entry nodes edges = .ok order) :
    ∃ (index : BTreeMap String NodeDefinition) (next : BTreeMap String String),
      (nodes.map NodeDefinition.id).Nodup ∧
      (∀ (k : String) (n : NodeDefinition), index[k]? = some n ↔ n ∈ nodes ∧ n.id = k) ∧
      (∀ k t : String, next[k]? = some t ↔ ⟨k, t⟩ ∈ edges) ∧
      walkChain index next (nodes.length + 1) [] entry = .ok order ∧
      order.length = nodes.length := by
  obtain ⟨_, -, h⟩ := bind_eq_ok.mp h
  generalize hindex : nodes.foldl indexNode (∅, []) = indexed at h
  obtain ⟨index, invalid⟩ := indexed
  dsimp only at h
  generalize hlinks : edges.foldl (linkEdge index) { diagnostics := invalid } = links at h
  obtain ⟨_, hdiagnostics, h⟩ := bind_eq_ok.mp h
  obtain ⟨order', hwalk, h⟩ := bind_eq_ok.mp h
  obtain ⟨_, hlength, h⟩ := bind_eq_ok.mp h
  cases h
  have hempty := List.isEmpty_iff.mp (ensure_eq_ok.mp hdiagnostics)
  obtain ⟨hempty, -⟩ := List.append_eq_nil_iff.mp hempty
  have hinvalid : invalid = [] := linkEdges_invalid hlinks hempty
  subst hinvalid
  obtain ⟨hnodup, hget⟩ := indexNodes_eq hindex
  exact ⟨index, links.next, hnodup, hget, linkEdges_eq hlinks hempty, hwalk,
    of_decide_eq_true (ensure_eq_ok.mp hlength)⟩

/-- The order of an accepted body leaves out no node. -/
theorem ordered_perm {entry : String} {nodes order : List NodeDefinition} {edges : List Edge}
    (h : ordered entry nodes edges = .ok order) : order.Perm nodes := by
  obtain ⟨index, next, hnodup, hget, -, hwalk, hlength⟩ := ordered_eq_ok h
  obtain ⟨hdistinct, hknown⟩ := walkChain_visits (fun k n hn => ((hget k n).mp hn).2) hwalk
  have hsub : order.Subperm nodes :=
    List.Nodup.subperm (.of_map _ hdistinct) fun n hn => ((hget _ n).mp (hknown n hn).2).1
  exact hsub.perm_of_length_le hlength.ge

/-- Bodies that differ only in order are put in one order. -/
theorem ordered_agrees {entry : String} {nodes between nodes' order order' : List NodeDefinition}
    {edges edges' : List Edge} (hnodes : List.Forall₂ NodeDefinition.Reordered nodes between)
    (hperm : between.Perm nodes') (hedges : edges.Perm edges')
    (h : ordered entry nodes edges = .ok order) (h' : ordered entry nodes' edges' = .ok order') :
    List.Forall₂ NodeDefinition.Reordered order order' := by
  obtain ⟨index, next, -, hget, hnext, hwalk, -⟩ := ordered_eq_ok h
  obtain ⟨index', next', -, hget', hnext', hwalk', -⟩ := ordered_eq_ok h'
  rw [← hperm.length_eq, ← hnodes.length_eq] at hwalk'
  have hid : ∀ n n' : NodeDefinition, n.Reordered n' → n.id = n'.id := fun n n' hn => by
    cases hn
    rfl
  refine walkChain_agrees (fun k => ?_) (fun k => ?_) hwalk hwalk'
  · -- a node and its partner are filed under one identity
    cases hk : index[k]? with
    | some n =>
      obtain ⟨hn, rfl⟩ := (hget k n).mp hk
      obtain ⟨n', hn', hrel⟩ := exists_of_forall₂_left hnodes hn
      rw [(hget' n.id n').mpr ⟨hperm.mem_iff.mp hn', (hid n n' hrel).symm⟩]
      exact .some hrel
    | none =>
      cases hk' : index'[k]? with
      | none => exact .none
      | some n' =>
        obtain ⟨hn', rfl⟩ := (hget' k n').mp hk'
        obtain ⟨n, hn, hrel⟩ := exists_of_forall₂_right hnodes (hperm.mem_iff.mpr hn')
        rw [(hget n'.id n).mpr ⟨hn, hid n n' hrel⟩] at hk
        nomatch hk
  · refine Option.ext fun t => ?_
    rw [hnext, hnext']
    exact hedges.mem_iff

/-! ## Distinct identities -/

namespace Compiler

/-- What the parts one level deeper accept has distinct identities. -/
def Stage.Separates (deeper : Stage) : Prop :=
  ∀ {b s p s'}, deeper.inline b s = (.ok p, s') → b.Distinct

section Separates

variable {c : Catalog} {deeper : Stage} (hd : deeper.Separates)
include hd

/-- Compiled handlers have bodies with distinct nodes. -/
theorem catches_distinct {handlers : List ErrorCase} {ids codes : List String} {s s' : Compiler}
    {r : List (String × String × PreparedBody)}
    (h : catches deeper ids codes handlers s = (.ok r, s')) : ∀ c ∈ handlers, c.body.Distinct := by
  induction handlers generalizing ids codes s s' r with
  | nil => exact fun c hc => (nomatch hc)
  | cons handler handlers ih =>
    obtain ⟨id, code, body⟩ := handler
    obtain ⟨_, s₁, -, h⟩ := Stateful.bind_eq_ok.mp h
    obtain ⟨compiled, s₂, h₂, h⟩ := Stateful.bind_eq_ok.mp h
    obtain ⟨rest, s₃, h₃, -⟩ := Stateful.bind_eq_ok.mp h
    exact List.forall_mem_cons.mpr ⟨hd h₂, ih h₃⟩

/-- So have compiled cases. -/
theorem cases_distinct {alternatives : List DecisionCase} {ids : List String} {s s' : Compiler}
    {r : List PreparedCase} (h : cases c deeper ids alternatives s = (.ok r, s')) :
    ∀ c ∈ alternatives, c.body.Distinct := by
  induction alternatives generalizing ids s s' r with
  | nil => exact fun c hc => (nomatch hc)
  | cons alternative alternatives ih =>
    obtain ⟨id, condition, body⟩ := alternative
    obtain ⟨_, s₁, -, h⟩ := Stateful.bind_eq_ok.mp h
    obtain ⟨_, s₂, -, h⟩ := Stateful.bind_eq_ok.mp h
    obtain ⟨compiled, s₃, h₃, h⟩ := Stateful.bind_eq_ok.mp h
    obtain ⟨rest, s₄, h₄, -⟩ := Stateful.bind_eq_ok.mp h
    exact List.forall_mem_cons.mpr ⟨hd h₃, ih h₄⟩

/-- And compiled branches. -/
theorem branches_distinct {bodies : List (String × BodyDefinition)} {s s' : Compiler}
    {r : List (String × PreparedBody)} (h : branches deeper bodies s = (.ok r, s')) :
    ∀ b ∈ bodies, b.2.Distinct := by
  induction bodies generalizing s s' r with
  | nil => exact fun c hc => (nomatch hc)
  | cons branch bodies ih =>
    obtain ⟨id, body⟩ := branch
    obtain ⟨compiled, s₁, h₁, h⟩ := Stateful.bind_eq_ok.mp h
    obtain ⟨rest, s₂, h₂, -⟩ := Stateful.bind_eq_ok.mp h
    exact List.forall_mem_cons.mpr ⟨hd h₁, ih h₂⟩

/-- What was compiled has distinct nodes in every body nested in it. -/
theorem instruction_distinct {node : NodeDefinition} {i : PreparedInstruction} {s s' : Compiler}
    (h : instruction c deeper node s = (.ok i, s')) : node.instruction.Distinct := by
  obtain ⟨id, input, definition⟩ := node
  unfold instruction at h
  intro b hb
  cases definition with
  -- the guarded body, a handler or the fallback
  | «try» body handlers fallback =>
    obtain ⟨_, s₁, -, h⟩ := Stateful.bind_eq_ok.mp h
    obtain ⟨compiled, s₂, h₂, h⟩ := Stateful.bind_eq_ok.mp h
    obtain ⟨caught, s₃, h₃, h⟩ := Stateful.bind_eq_ok.mp h
    obtain ⟨handler, s₄, h₄, -⟩ := Stateful.bind_eq_ok.mp h
    rcases List.mem_append.mp hb with hb | hb
    · rcases List.mem_cons.mp hb with rfl | hb
      · exact hd h₂
      · obtain ⟨handled, hmem, rfl⟩ := List.mem_map.mp hb
        exact catches_distinct hd h₃ handled hmem
    · rw [List.mem_singleton.mp hb]
      exact hd h₄
  -- an alternative or the fallback
  | decision alternatives fallback =>
    obtain ⟨_, s₁, -, h⟩ := Stateful.bind_eq_ok.mp h
    obtain ⟨compiled, s₂, h₂, h⟩ := Stateful.bind_eq_ok.mp h
    obtain ⟨last, s₃, h₃, -⟩ := Stateful.bind_eq_ok.mp h
    rcases List.mem_append.mp hb with hb | hb
    · obtain ⟨alternative, hmem, rfl⟩ := List.mem_map.mp hb
      exact cases_distinct hd h₂ alternative hmem
    · obtain ⟨⟨id, body⟩, hmem, rfl⟩ := List.mem_map.mp hb
      obtain rfl := Option.mem_toList.mp hmem
      obtain ⟨_, s₄, -, h₃⟩ := Stateful.bind_eq_ok.mp h₃
      obtain ⟨compiled, s₅, h₅, -⟩ := Stateful.bind_eq_ok.mp h₃
      exact hd h₅
  | parallel bodies concurrency errors join =>
    cases join with
    | all =>
      obtain ⟨_, s₁, -, h⟩ := Stateful.bind_eq_ok.mp h
      obtain ⟨_, s₂, -, h⟩ := Stateful.bind_eq_ok.mp h
      obtain ⟨compiled, s₃, h₃, -⟩ := Stateful.bind_eq_ok.mp h
      obtain ⟨branch, hmem, rfl⟩ := List.mem_map.mp hb
      exact branches_distinct hd h₃ branch hmem
  | «foreach» items body concurrency errors =>
    obtain ⟨_, s₁, -, h⟩ := Stateful.bind_eq_ok.mp h
    obtain ⟨_, s₂, -, h⟩ := Stateful.bind_eq_ok.mp h
    obtain ⟨_, s₃, -, h⟩ := Stateful.bind_eq_ok.mp h
    obtain ⟨compiled, s₄, h₄, -⟩ := Stateful.bind_eq_ok.mp h
    rw [List.mem_singleton.mp hb]
    exact hd h₄
  | loop condition body maxIterations onLimit =>
    obtain ⟨_, s₁, -, h⟩ := Stateful.bind_eq_ok.mp h
    obtain ⟨_, s₂, -, h⟩ := Stateful.bind_eq_ok.mp h
    obtain ⟨compiled, s₃, h₃, -⟩ := Stateful.bind_eq_ok.mp h
    rw [List.mem_singleton.mp hb]
    exact hd h₃
  | _ => nomatch hb

variable (hc : c.Reports) (ht : deeper.Tamed)
include hc ht

/-- The nodes of a body are compiled one by one. -/
theorem compileNodes_distinct {available : BTreeSet String} {nodes : List NodeDefinition}
    {sequence : List PreparedNode} {s s' : Compiler}
    (h : compileNodes c deeper available nodes s = (.ok (sequence, []), s')) :
    ∀ n ∈ nodes, n.instruction.Distinct := by
  induction nodes generalizing available sequence s with
  | nil => exact fun n hn => (nomatch hn)
  | cons node nodes ih =>
    obtain ⟨i, rest, s₁, s₂, -, h₂, -, h₃, -⟩ := compileNodes_cons_eq_ok ht hc h
    exact List.forall_mem_cons.mpr ⟨instruction_distinct hd h₂, ih h₃⟩

/-- A compiled body was ordered, which needs nodes of distinct names. -/
theorem body_distinct {b : BodyDefinition} {p : PreparedBody} {s s' : Compiler}
    (h : body c deeper b s = (.ok p, s')) : b.Distinct := by
  obtain ⟨order, s₁, -, horder, hnodes, -, -⟩ := body_eq_ok h
  obtain ⟨-, -, hnodup, -⟩ := ordered_eq_ok horder
  have hinner := compileNodes_distinct hd hc ht hnodes
  exact .mk hnodup fun n hn => hinner n ((ordered_perm horder).mem_iff.mpr hn)

end Separates

/-- By induction on the nesting that is left. -/
theorem stage_separates {c : Catalog} (hc : c.Reports) (remaining : Nat) :
    (stage c remaining).Separates := by
  induction remaining with
  | zero => exact fun h => (nomatch h)
  | succ remaining ih => exact body_distinct ih hc (stage_tame hc remaining)

end Compiler

/-- Identities are distinct at every depth of an accepted definition. -/
theorem prepare_distinct {c : Catalog} (hc : c.Reports) {d : WorkflowDefinition} {p : Plan}
    (h : prepare c d = .ok p) : d.root.Distinct := by
  have h : (Compiler.stage c (c.limits.controlDepth + 1)).workflow d {} =
      (.ok p, (compile c d).2) := Prod.ext h rfl
  obtain ⟨-, -, s₁, hparts, -⟩ := Compiler.workflow_eq_ok h
  obtain ⟨s₂, s₃, m, -, -, -, hbody, -⟩ := Compiler.parts_eq_ok hparts
  exact Compiler.body_distinct (Compiler.stage_separates hc _) hc (Compiler.stage_tame hc _) hbody

/-! ## One body for every order -/

namespace Compiler

/-- Two states that collected the same, whatever they counted. -/
def Collected (s t : Compiler) : Prop :=
  s.metadata = t.metadata

abbrev Agrees {α : Type} (x y : CompileM α) : Prop :=
  Stateful.Agrees Collected (· = ·) x y

/-- What the parts one level deeper make of reordered bodies, and of one workflow. -/
structure Stage.Agrees (deeper : Stage) : Prop where
  inline : ∀ {b b' : BodyDefinition}, b.Reordered b' →
    Compiler.Agrees (deeper.inline b) (deeper.inline b')
  workflow : ∀ d, Compiler.Agrees (deeper.workflow d) (deeper.workflow d)

section Combinators

variable {α β : Type}

theorem agrees_pure (a : α) : Agrees (pure a) (pure a) :=
  Stateful.Agrees.pure rfl

/-- The same check of both definitions agrees. -/
theorem agrees_lift (r : Except ForgeError α) : Agrees (Stateful.lift r) (Stateful.lift r) :=
  Stateful.Agrees.lift fun _ _ h h' => Except.ok.inj (h.symm.trans h')

/-- A check alone has nothing to answer. -/
theorem agrees_check (r r' : Except ForgeError Unit) :
    Agrees (Stateful.lift r) (Stateful.lift r') :=
  Stateful.Agrees.lift fun _ _ _ _ => rfl

/-- Parts that agree make wholes that agree. -/
theorem agrees_bind {x y : CompileM α} {f g : α → CompileM β} (hx : Agrees x y)
    (hf : ∀ a, Agrees (f a) (g a)) : Agrees (x >>= f) (y >>= g) :=
  Stateful.Agrees.bind hx fun a _ h => h ▸ hf a

theorem agrees_collect (f : Metadata → Metadata) : Agrees (collect f) (collect f) :=
  Stateful.Agrees.modify fun _ _ h => congrArg f (show _ = _ from h)

/-- A charge may differ in its amount, which only the counters show. -/
theorem agrees_charge (limits : Limits) (n n' : Nat) (message : String) :
    Agrees (charge limits n message) (charge limits n' message) where
  of_ok hst _ _ _ _ hx hy :=
    ⟨rfl, ((charge_metadata hx).trans hst).trans (charge_metadata hy).symm⟩

theorem agrees_spend (limits : Limits) (n n' : Nat) :
    Agrees (spend limits n) (spend limits n') where
  of_ok hst _ _ _ _ hx hy :=
    ⟨rfl, ((spend_metadata hx).trans hst).trans (spend_metadata hy).symm⟩

end Combinators

section Agreement

variable {c : Catalog} {deeper : Stage}

/-- An operation does not depend on the order of anything. -/
theorem operation_agrees (id : String) (input : Binding) (revision : OperationRevision)
    (config : Value) (retry : RetryPolicy) :
    Agrees (operation c id input revision config retry)
      (operation c id input revision config retry) := by
  refine agrees_bind (agrees_lift _) fun compiled => agrees_bind (agrees_lift _) fun _ =>
    agrees_bind (agrees_lift _) fun _ => ?_
  have hlast := agrees_bind (agrees_collect fun m => { m with
    resources := m.resources ∪ compiled.descriptor.requiredResources
    operations := m.operations.insert revision compiled.descriptor }) fun _ =>
      agrees_pure { operation := compiled, config, retry : PreparedOperation }
  split
  · exact agrees_bind (agrees_lift _) fun _ => hlast
  · exact agrees_bind (agrees_collect _) fun _ => hlast

theorem signalStart_agrees (id : String) (start : SignalStart) :
    Agrees (signalStart c id start) (signalStart c id start) :=
  agrees_bind (agrees_lift _) fun _ => agrees_bind (agrees_charge _ _ _ _) fun _ =>
    agrees_bind (Stateful.Agrees.mapError (operation_agrees id _ _ _ _)) fun _ => agrees_pure _

/-- Reordering a decision keeps the names of its cases. -/
theorem map_id_of_reordered {alternatives alternatives' : List DecisionCase}
    (h : List.Forall₂ DecisionCase.Reordered alternatives alternatives') :
    alternatives.map DecisionCase.id = alternatives'.map DecisionCase.id := by
  induction h with
  | nil => rfl
  | cons hcase _ ih =>
    obtain ⟨id, condition, -⟩ := hcase
    exact congrArg (List.cons id) ih

variable (hd : deeper.Agrees)
include hd

/-- Handlers that are reordered inside compile to the same handlers. -/
theorem catches_agrees {handlers handlers' : List ErrorCase}
    (h : List.Forall₂ ErrorCase.Reordered handlers handlers') (ids codes : List String) :
    Agrees (catches deeper ids codes handlers) (catches deeper ids codes handlers') := by
  induction h generalizing ids codes with
  | nil => exact agrees_pure []
  | cons hcase _ ih =>
    obtain ⟨id, code, hbody⟩ := hcase
    exact agrees_bind (agrees_lift _) fun _ => agrees_bind (hd.inline hbody) fun _ =>
      agrees_bind (ih _ _) fun _ => agrees_pure _

/-- So do cases. -/
theorem cases_agrees {alternatives alternatives' : List DecisionCase}
    (h : List.Forall₂ DecisionCase.Reordered alternatives alternatives') (ids : List String) :
    Agrees (cases c deeper ids alternatives) (cases c deeper ids alternatives') := by
  induction h generalizing ids with
  | nil => exact agrees_pure []
  | cons hcase _ ih =>
    obtain ⟨id, condition, hbody⟩ := hcase
    exact agrees_bind (agrees_lift _) fun _ => agrees_bind (agrees_lift _) fun _ =>
      agrees_bind (hd.inline hbody) fun _ => agrees_bind (ih _) fun _ => agrees_pure _

/-- And branches. -/
theorem branches_agrees {bodies bodies' : List (String × BodyDefinition)}
    (h : List.Forall₂ BodyDefinition.BranchReordered bodies bodies') :
    Agrees (branches deeper bodies) (branches deeper bodies') := by
  induction h with
  | nil => exact agrees_pure []
  | cons hbranch _ ih =>
    obtain ⟨label, hbody⟩ := hbranch
    exact agrees_bind (hd.inline hbody) fun _ => agrees_bind ih fun _ => agrees_pure _

/-- And the fallback of a decision. -/
theorem decisionFallback_agrees {fallback fallback' : Option FallbackCase}
    (h : Option.Rel FallbackCase.Reordered fallback fallback') (ids : List String) :
    Agrees (decisionFallback deeper ids fallback) (decisionFallback deeper ids fallback') := by
  cases h with
  | none => exact agrees_pure none
  | some hcase =>
    obtain ⟨id, hbody⟩ := hcase
    exact agrees_bind (agrees_lift _) fun _ => agrees_bind (hd.inline hbody) fun _ =>
      agrees_pure _

/-- Reordered nodes compile to one instruction. -/
theorem instruction_agrees {node node' : NodeDefinition} (h : node.Reordered node') :
    Agrees (instruction c deeper node) (instruction c deeper node') := by
  obtain ⟨id, input, h⟩ := h
  unfold instruction
  -- checks that do not read nested bodies are the same on both sides
  cases h with
  | «try» hbody hcatches hfallback =>
    obtain ⟨handler, hfallback⟩ := hfallback
    exact agrees_bind (agrees_check _ _) fun _ => agrees_bind (hd.inline hbody) fun _ =>
      agrees_bind (catches_agrees hd hcatches _ _) fun _ =>
      agrees_bind (hd.inline hfallback) fun _ => agrees_pure _
  | operation revision config retry =>
    exact agrees_bind (operation_agrees _ _ _ _ _) fun _ => agrees_pure _
  | decision hcases hfallback =>
    refine agrees_bind (agrees_check _ _) fun _ =>
      agrees_bind (cases_agrees hd hcases _) fun _ => ?_
    rw [map_id_of_reordered hcases]
    exact agrees_bind (decisionFallback_agrees hd hfallback _) fun _ => agrees_pure _
  | parallel concurrency errors join hbranches =>
    cases join with
    | all =>
      exact agrees_bind (agrees_check _ _) fun _ => agrees_bind (agrees_lift _) fun _ =>
        agrees_bind (branches_agrees hd hbranches) fun _ => agrees_pure _
  | «foreach» items concurrency errors hbody =>
    exact agrees_bind (agrees_lift _) fun _ => agrees_bind (agrees_lift _) fun _ =>
      agrees_bind (agrees_lift _) fun _ => agrees_bind (hd.inline hbody) fun _ => agrees_pure _
  | loop condition maxIterations onLimit hbody =>
    exact agrees_bind (agrees_lift _) fun _ => agrees_bind (agrees_lift _) fun _ =>
      agrees_bind (hd.inline hbody) fun _ => agrees_pure _
  | subworkflow workflow =>
    exact agrees_bind (agrees_lift _) fun _ => agrees_bind (hd.workflow _) fun _ =>
      agrees_bind (agrees_lift _) fun _ => agrees_bind (agrees_collect _) fun _ => agrees_pure _
  | timer durationMs => exact agrees_bind (agrees_lift _) fun _ => agrees_pure _
  | awaitSignal correlation timeoutMs payloadSchema start =>
    refine agrees_bind (agrees_lift _) fun _ => agrees_bind (agrees_lift _) fun _ =>
      agrees_bind (agrees_lift _) fun _ => agrees_bind (agrees_lift _) fun _ => ?_
    cases start with
    | none => exact agrees_pure _
    | some start => exact agrees_bind (signalStart_agrees _ _) fun _ => agrees_pure _

variable (hc : c.Reports) (ht : deeper.Tamed)
include hc ht

/-- Nodes that were brought into one order compile to the same nodes. -/
theorem compileNodes_agrees {nodes nodes' : List NodeDefinition}
    (h : List.Forall₂ NodeDefinition.Reordered nodes nodes') {available : BTreeSet String}
    {sequence sequence' : List PreparedNode} {s t s' t' : Compiler} (hst : Collected s t)
    (hx : compileNodes c deeper available nodes s = (.ok (sequence, []), s'))
    (hy : compileNodes c deeper available nodes' t = (.ok (sequence', []), t')) :
    sequence = sequence' ∧ Collected s' t' := by
  induction h generalizing available sequence sequence' s t with
  | nil =>
    obtain ⟨heq, rfl⟩ := Stateful.pure_eq_ok.mp hx
    obtain ⟨heq', rfl⟩ := Stateful.pure_eq_ok.mp hy
    cases heq
    cases heq'
    exact ⟨rfl, hst⟩
  -- both sides compile the node, and go on from collections that agree
  | cons hnode _ ih =>
    obtain ⟨i, rest, s₁, s₂, h₁, h₂, -, h₃, rfl⟩ := compileNodes_cons_eq_ok ht hc hx
    obtain ⟨i', rest', t₁, t₂, h₁', h₂', -, h₃', rfl⟩ := compileNodes_cons_eq_ok ht hc hy
    obtain ⟨-, hst₁⟩ := (agrees_spend _ _ _).of_ok hst h₁ h₁'
    obtain ⟨rfl, hst₂⟩ := (instruction_agrees hd hnode).of_ok hst₁ h₂ h₂'
    obtain ⟨id, input, -⟩ := hnode
    obtain ⟨rfl, hst₃⟩ := ih hst₂ h₃ h₃'
    exact ⟨rfl, hst₃⟩

/-- Bodies with the same nodes and edges come into the same order, and compile to the same body. -/
theorem body_agrees {b b' : BodyDefinition} (h : b.Reordered b') :
    Agrees (body c deeper b) (body c deeper b') := by
  obtain ⟨entry, output, hnodes, hperm, hedges⟩ := h
  constructor
  intro s t hst p p' s' t' hx hy
  obtain ⟨order, s₁, h₁, horder, h₂, -, hout⟩ := body_eq_ok hx
  obtain ⟨order', t₁, h₁', horder', h₂', -, hout'⟩ := body_eq_ok hy
  obtain ⟨-, hst₁⟩ := (agrees_charge _ _ _ _).of_ok hst h₁ h₁'
  obtain ⟨hsequence, hst₂⟩ := compileNodes_agrees hd hc ht
    (ordered_agrees hnodes hperm hedges horder horder') hst₁ h₂ h₂'
  refine ⟨?_, hst₂⟩
  cases p
  cases p'
  exact congrArg₂ PreparedBody.mk hsequence (hout.trans hout'.symm)

end Agreement

section Workflows

variable {c : Catalog} {compileBody : BodyDefinition → CompileM PreparedBody}

/-- One workflow compiles to one plan, whatever was counted before. -/
theorem workflow_agrees (hbody : ∀ b, Agrees (compileBody b) (compileBody b))
    (d : WorkflowDefinition) : Agrees (workflow c compileBody d) (workflow c compileBody d) := by
  constructor
  intro s t hst p p' s' t' hx hy
  obtain ⟨-, -, s₁, hparts, rfl⟩ := workflow_eq_ok hx
  obtain ⟨-, -, t₁, hparts', rfl⟩ := workflow_eq_ok hy
  obtain ⟨s₂, s₃, m, hspend, hin, hout, hcompiled, rfl, -, -, -, hp⟩ := parts_eq_ok hparts
  obtain ⟨t₂, t₃, m', hspend', hin', hout', hcompiled', rfl, -, -, -, hp'⟩ := parts_eq_ok hparts'
  have hst₂ : Collected s₂ t₂ := (spend_metadata hspend).trans (spend_metadata hspend').symm
  obtain ⟨hpbody, hst₃⟩ := (hbody _).of_ok hst₂ hcompiled hcompiled'
  refine ⟨?_, hst⟩
  have hinput := Except.ok.inj (hin.symm.trans hin')
  have houtput := Except.ok.inj (hout.symm.trans hout')
  rw [hp, hp', hpbody, hinput, houtput, show s₃.metadata = t₃.metadata from hst₃]

/-- By induction on the nesting that is left, through bodies and subworkflows. -/
theorem stage_agrees (hc : c.Reports) (remaining : Nat) : (stage c remaining).Agrees := by
  induction remaining with
  | zero =>
    exact ⟨fun _ => ⟨fun _ _ _ _ _ h => (nomatch h)⟩,
      fun _ => ⟨fun _ _ _ _ _ h => (nomatch h)⟩⟩
  | succ remaining ih =>
    have hbody : ∀ {b b' : BodyDefinition}, b.Reordered b' →
        Agrees (body c (stage c remaining) b) (body c (stage c remaining) b') :=
      body_agrees ih hc (stage_tame hc remaining)
    exact ⟨hbody, workflow_agrees fun b => hbody (.refl b)⟩

end Workflows

end Compiler

/-- Definitions that differ in order and presentation alone compile to one body. -/
theorem prepare_agrees {c : Catalog} (hc : c.Reports) {d d' : WorkflowDefinition} {p p' : Plan}
    (hd : d.Reordered d') (h : prepare c d = .ok p) (h' : prepare c d' = .ok p') :
    p.body = p'.body := by
  have h : (Compiler.stage c (c.limits.controlDepth + 1)).workflow d {} =
      (.ok p, (compile c d).2) := Prod.ext h rfl
  have h' : (Compiler.stage c (c.limits.controlDepth + 1)).workflow d' {} =
      (.ok p', (compile c d').2) := Prod.ext h' rfl
  obtain ⟨-, -, s₁, hparts, -⟩ := Compiler.workflow_eq_ok h
  obtain ⟨-, -, t₁, hparts', -⟩ := Compiler.workflow_eq_ok h'
  obtain ⟨s₂, s₃, m, hspend, -, -, hbody, -⟩ := Compiler.parts_eq_ok hparts
  obtain ⟨t₂, t₃, m', hspend', -, -, hbody', -⟩ := Compiler.parts_eq_ok hparts'
  have hst : Compiler.Collected s₂ t₂ :=
    (Compiler.spend_metadata hspend).trans (Compiler.spend_metadata hspend').symm
  exact ((Compiler.body_agrees (Compiler.stage_agrees hc _) hc (Compiler.stage_tame hc _)
    hd.root).of_ok hst hbody hbody').1

end WorkflowForge.Engine
