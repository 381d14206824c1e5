import WorkflowForge.Engine.Agreement

/-!
# The Order of a Body

The nodes of a body are put in the order of its edges. What the compiler accepts by maps of
successors and predecessors, an entry check and a walk, is a chain: the edges are the steps
from each node to the next, from the entry to the last node.

## Main results

- `ordered_eq_ok_iff`: the compiler answers an order exactly when it is the chain of the body.
- `walkRounds_some`: the walk ends on every body, cyclic and disconnected ones included.
- `body_order`: acceptance, order, invariance under permutations, and termination.
-/

namespace WorkflowForge.Engine

open Lib

/-! ## Chains -/

/-- The steps from each name of a list to the next. -/
def steps : List String → List Edge
  | a :: b :: rest => ⟨a, b⟩ :: steps (b :: rest)
  | _ => []

/-- The nodes in a chain along the edges, from the entry. -/
structure Chain (entry : String) (nodes : List NodeDefinition) (edges : List Edge)
    (order : List NodeDefinition) : Prop where
  nonempty : nodes ≠ []
  named : ∀ n ∈ nodes, n.id ≠ ""
  distinct : (nodes.map NodeDefinition.id).Nodup
  joined : ∀ e ∈ edges, e.source ∈ nodes.map NodeDefinition.id ∧
    e.target ∈ nodes.map NodeDefinition.id
  once : edges.Nodup
  starts : (order.map NodeDefinition.id).head? = some entry
  covers : order.Perm nodes
  follows : ∀ e, e ∈ edges ↔ e ∈ steps (order.map NodeDefinition.id)

theorem map_source_steps (ids : List String) : (steps ids).map Edge.source = ids.dropLast := by
  induction ids with
  | nil => rfl
  | cons a rest ih =>
    cases rest with
    | nil => rfl
    | cons b rest => simp [steps, ih]

theorem map_target_steps (ids : List String) : (steps ids).map Edge.target = ids.tail := by
  induction ids with
  | nil => rfl
  | cons a rest ih =>
    cases rest with
    | nil => rfl
    | cons b rest => simp [steps, ih]

theorem nodup_steps {ids : List String} (h : ids.Nodup) : (steps ids).Nodup := by
  refine .of_map Edge.target ?_
  rw [map_target_steps]
  exact h.tail

section Chain

variable {entry : String} {nodes order : List NodeDefinition} {edges : List Edge}

theorem Chain.distinct_order (h : Chain entry nodes edges order) :
    (order.map NodeDefinition.id).Nodup :=
  (h.covers.map NodeDefinition.id).nodup_iff.mpr h.distinct

theorem Chain.edges_perm (h : Chain entry nodes edges order) :
    edges.Perm (steps (order.map NodeDefinition.id)) :=
  (List.perm_ext_iff_of_nodup h.once (nodup_steps h.distinct_order)).mpr h.follows

theorem Chain.sources_nodup (h : Chain entry nodes edges order) :
    (edges.map Edge.source).Nodup := by
  refine (h.edges_perm.map Edge.source).nodup_iff.mpr ?_
  rw [map_source_steps]
  exact h.distinct_order.sublist (List.dropLast_sublist _)

theorem Chain.targets_nodup (h : Chain entry nodes edges order) :
    (edges.map Edge.target).Nodup := by
  refine (h.edges_perm.map Edge.target).nodup_iff.mpr ?_
  rw [map_target_steps]
  exact h.distinct_order.tail

/-- The entry of a chain has no predecessor. -/
theorem Chain.entry_first (h : Chain entry nodes edges order) :
    entry ∈ nodes.map NodeDefinition.id ∧ entry ∉ edges.map Edge.target := by
  have hstarts := h.starts
  have hdistinct := h.distinct_order
  have htargets := (h.edges_perm.map Edge.target).mem_iff (a := entry)
  have hmem := (h.covers.map NodeDefinition.id).mem_iff (a := entry)
  rw [map_target_steps] at htargets
  cases hids : order.map NodeDefinition.id with
  | nil => simp [hids] at hstarts
  | cons a rest =>
    rw [hids] at hstarts hdistinct htargets hmem
    obtain rfl : a = entry := by simpa using hstarts
    exact ⟨hmem.mp List.mem_cons_self, fun ht =>
      (List.nodup_cons.mp hdistinct).1 (htargets.mp ht)⟩

/-- A chain is a chain of the nodes and the edges in any order. -/
theorem Chain.perm {nodes' : List NodeDefinition} {edges' : List Edge}
    (h : Chain entry nodes edges order) (hnodes : nodes.Perm nodes') (hedges : edges.Perm edges') :
    Chain entry nodes' edges' order where
  nonempty hnil := h.nonempty (List.perm_nil.mp (hnil ▸ hnodes))
  named n hn := h.named n (hnodes.mem_iff.mpr hn)
  distinct := (hnodes.map _).nodup_iff.mp h.distinct
  joined e he := by
    obtain ⟨hsource, htarget⟩ := h.joined e (hedges.mem_iff.mpr he)
    exact ⟨(hnodes.map _).mem_iff.mp hsource, (hnodes.map _).mem_iff.mp htarget⟩
  once := hedges.nodup_iff.mp h.once
  starts := h.starts
  covers := h.covers.trans hnodes
  follows e := hedges.mem_iff.symm.trans (h.follows e)

end Chain

/-! ## What the maps hold -/

/-- Nodes without a complaint have names. -/
theorem indexNodes_named {nodes : List NodeDefinition} {index : BTreeMap String NodeDefinition}
    (h : nodes.foldl indexNode (∅, []) = (index, [])) : ∀ n ∈ nodes, n.id ≠ "" := by
  induction nodes using List.reverseRecOn generalizing index with
  | nil => exact nofun
  | append_singleton nodes node ih =>
    rw [List.foldl_append, List.foldl_cons, List.foldl_nil, indexNode] at h
    split at h
    · simp at h
    next hnamed =>
      obtain ⟨-, hdiagnostics⟩ := Prod.mk.inj h
      dsimp only at hdiagnostics
      split at hdiagnostics
      · simp at hdiagnostics
      · intro n hn
        rcases List.mem_append.mp hn with hn | hn
        · exact ih (Prod.ext rfl hdiagnostics) n hn
        · rw [List.mem_singleton.mp hn]
          exact hnamed

/-- Nodes with names of their own are indexed without a complaint. -/
theorem indexNodes_ok {nodes : List NodeDefinition} (hnamed : ∀ n ∈ nodes, n.id ≠ "")
    (hdistinct : (nodes.map NodeDefinition.id).Nodup) :
    ∃ index, nodes.foldl indexNode (∅, []) = (index, []) := by
  induction nodes using List.reverseRecOn with
  | nil => exact ⟨∅, rfl⟩
  | append_singleton nodes node ih =>
    rw [List.map_append, List.map_singleton] at hdistinct
    have hold := List.nodup_append.mp hdistinct
    obtain ⟨index, hindex⟩ := ih (fun n hn => hnamed n (by simp [hn])) hold.1
    obtain ⟨-, hget⟩ := indexNodes_eq hindex
    -- the identity is not that of a node before
    have hfresh : index.contains node.id = false := by
      by_contra hc
      rw [Std.ExtTreeMap.contains_eq_isSome_getElem?, Bool.not_eq_false,
        Option.isSome_iff_exists] at hc
      obtain ⟨n, hn⟩ := hc
      obtain ⟨hmem, hid⟩ := (hget node.id n).mp hn
      exact hold.2.2 n.id (List.mem_map_of_mem hmem) node.id (by simp) hid
    refine ⟨index.insert node.id node, ?_⟩
    rw [List.foldl_append, List.foldl_cons, List.foldl_nil, hindex, indexNode,
      if_neg (hnamed node (by simp))]
    simp [hfresh]

/-- The index holds no more names than there are nodes. -/
theorem length_keys_indexNodes (nodes : List NodeDefinition) :
    (nodes.foldl indexNode (∅, [])).1.keys.length ≤ nodes.length := by
  induction nodes using List.reverseRecOn with
  | nil => rw [List.foldl_nil, Std.ExtTreeMap.length_keys, Std.ExtTreeMap.size_empty]; rfl
  | append_singleton nodes node ih =>
    rw [List.foldl_append, List.foldl_cons, List.foldl_nil, indexNode, List.length_append,
      List.length_singleton]
    split
    · dsimp only
      omega
    · have hle := Std.ExtTreeMap.size_insert_le (t := (nodes.foldl indexNode (∅, [])).1)
        (k := node.id) (v := node)
      dsimp only
      rw [Std.ExtTreeMap.length_keys] at ih ⊢
      omega

/-- What the links of a body hold once its edges were read without a complaint. -/
structure Linked (index : BTreeMap String NodeDefinition) (edges : List Edge) (links : Links) :
    Prop where
  joined : ∀ e ∈ edges, index.contains e.source ∧ index.contains e.target
  sources : (edges.map Edge.source).Nodup
  targets : (edges.map Edge.target).Nodup
  next : ∀ k : String, links.next.contains k ↔ k ∈ edges.map Edge.source
  previous : ∀ k : String, links.previous.contains k ↔ k ∈ edges.map Edge.target
  unique : links.unique = edges.reverse

section Links

variable {index : BTreeMap String NodeDefinition} {edges : List Edge}

/-- Reading one more edge without a complaint. -/
theorem Linked.append {links : Links} {edge : Edge} (h : Linked index edges links)
    (hjoined : index.contains edge.source ∧ index.contains edge.target)
    (hsource : edge.source ∉ edges.map Edge.source)
    (htarget : edge.target ∉ edges.map Edge.target) :
    Linked index (edges ++ [edge]) (linkEdge index links edge) ∧
      (linkEdge index links edge).diagnostics = links.diagnostics := by
  -- no fork, no join and no repetition, so nothing is complained of
  have hfork : links.next.contains edge.source = false :=
    Bool.eq_false_iff.mpr fun hc => hsource ((h.next _).mp hc)
  have hjoin : links.previous.contains edge.target = false :=
    Bool.eq_false_iff.mpr fun hc => htarget ((h.previous _).mp hc)
  have hrepeat : edge ∉ links.unique := by
    intro hmem
    rw [h.unique, List.mem_reverse] at hmem
    exact hsource (List.mem_map_of_mem hmem)
  have hlinked : linkEdge index links edge =
      { next := links.next.insert edge.source edge.target
        previous := links.previous.insert edge.target
        unique := edge :: links.unique
        diagnostics := links.diagnostics } := by
    unfold linkEdge
    simp [hjoined.1, hjoined.2, hfork, hjoin, hrepeat]
  rw [hlinked]
  refine ⟨⟨fun e he => ?_, ?_, ?_, fun k => ?_, fun k => ?_, ?_⟩, rfl⟩
  · rcases List.mem_append.mp he with he | he
    · exact h.joined e he
    · rw [List.mem_singleton.mp he]
      exact hjoined
  · rw [List.map_append, List.map_singleton]
    exact List.nodup_append.mpr ⟨h.sources, List.nodup_singleton _, fun a ha b hb =>
      List.mem_singleton.mp hb ▸ fun hab => hsource (hab ▸ ha)⟩
  · rw [List.map_append, List.map_singleton]
    exact List.nodup_append.mpr ⟨h.targets, List.nodup_singleton _, fun a ha b hb =>
      List.mem_singleton.mp hb ▸ fun hab => htarget (hab ▸ ha)⟩
  · rw [List.map_append, List.map_singleton, List.mem_append, List.mem_singleton, ← h.next k,
      Std.ExtTreeMap.contains_insert, Bool.or_eq_true, or_comm, beq_iff_eq,
      Std.LawfulEqCmp.compare_eq_iff_eq]
    exact or_congr_right eq_comm
  · rw [List.map_append, List.map_singleton, List.mem_append, List.mem_singleton, ← h.previous k,
      Std.ExtTreeSet.contains_insert, Bool.or_eq_true, or_comm, beq_iff_eq,
      Std.LawfulEqCmp.compare_eq_iff_eq]
    exact or_congr_right eq_comm
  · simp [h.unique]

theorem Linked.empty : Linked index [] { diagnostics := [] } where
  joined := nofun
  sources := List.nodup_nil
  targets := List.nodup_nil
  next k := by simp
  previous k := by simp
  unique := rfl

/-- Edges without a complaint join known nodes, and none forks or joins. -/
theorem linkEdges_linked {links : Links}
    (h : edges.foldl (linkEdge index) { diagnostics := [] } = links)
    (hd : links.diagnostics = []) : Linked index edges links := by
  induction edges using List.reverseRecOn generalizing links with
  | nil =>
    subst h
    exact Linked.empty
  | append_singleton edges edge ih =>
    rw [List.foldl_append, List.foldl_cons, List.foldl_nil] at h
    generalize hbefore : edges.foldl (linkEdge index) { diagnostics := [] } = before at h
    -- the complaints of the edges before are kept
    have hparts : before.diagnostics = [] ∧
        (index.contains edge.source ∧ index.contains edge.target) ∧
        before.next.contains edge.source = false ∧
        before.previous.contains edge.target = false := by
      rw [← h, linkEdge] at hd
      split at hd
      · simp at hd
      next hknown =>
        dsimp only at hd
        obtain ⟨hd, hstructured⟩ := List.append_eq_nil_iff.mp hd
        refine ⟨(List.append_eq_nil_iff.mp hd).1, by simpa using hknown, ?_⟩
        by_contra hc
        rw [not_and_or, Bool.not_eq_false, Bool.not_eq_false] at hc
        rcases hc with hc | hc <;> simp [hc] at hstructured
    obtain ⟨hnone, hjoined, hfork, hjoin⟩ := hparts
    have hlinked := ih hbefore hnone
    have hsource : edge.source ∉ edges.map Edge.source := fun hmem => by
      rw [(hlinked.next _).mpr hmem] at hfork
      cases hfork
    have htarget : edge.target ∉ edges.map Edge.target := fun hmem => by
      rw [(hlinked.previous _).mpr hmem] at hjoin
      cases hjoin
    rw [← h]
    exact (hlinked.append hjoined hsource htarget).1

/-- Edges that join known nodes and neither fork nor join are read without a complaint. -/
theorem linkEdges_ok (hjoined : ∀ e ∈ edges, index.contains e.source ∧ index.contains e.target)
    (hsources : (edges.map Edge.source).Nodup) (htargets : (edges.map Edge.target).Nodup) :
    (edges.foldl (linkEdge index) { diagnostics := [] }).diagnostics = [] := by
  induction edges using List.reverseRecOn with
  | nil => rfl
  | append_singleton edges edge ih =>
    rw [List.map_append, List.map_singleton] at hsources htargets
    have hs := List.nodup_append.mp hsources
    have ht := List.nodup_append.mp htargets
    have hbefore := ih (fun e he => hjoined e (by simp [he])) hs.1 ht.1
    have hlinked := linkEdges_linked rfl hbefore
    have hstep := hlinked.append (hjoined edge (by simp))
      (fun hmem => hs.2.2 _ hmem _ (by simp) rfl) (fun hmem => ht.2.2 _ hmem _ (by simp) rfl)
    rw [List.foldl_append, List.foldl_cons, List.foldl_nil, hstep.2, hbefore]

end Links

/-! ## The walk -/

section Walk

variable {index : BTreeMap String NodeDefinition} {next : BTreeMap String String}

/-- A walk goes along the edges and ends where there is none. -/
theorem walkChain_steps (hindex : ∀ (k : String) n, index[k]? = some n → n.id = k) {fuel : Nat}
    {visited : List String} {id : String} {order : List NodeDefinition}
    (h : walkChain index next fuel visited id = .ok order) :
    (order.map NodeDefinition.id).head? = some id ∧
      (∀ e ∈ steps (order.map NodeDefinition.id), next[e.source]? = some e.target) ∧
      ∀ n ∈ order, ∀ t, next[n.id]? = some t →
        ⟨n.id, t⟩ ∈ steps (order.map NodeDefinition.id) := by
  induction fuel generalizing visited id order with
  | zero => nomatch h
  | succ fuel ih =>
    obtain ⟨_, -, h⟩ := bind_eq_ok.mp h
    obtain ⟨node, hnode, h⟩ := bind_eq_ok.mp h
    have hid := hindex id node (okOr_eq_ok.mp hnode)
    split at h
    -- no edge leads on: the walk ends here
    next hlast =>
      cases h
      refine ⟨by simp [hid], nofun, fun n hn t ht => ?_⟩
      rw [List.mem_singleton.mp hn, hid, hlast] at ht
      nomatch ht
    -- the walk goes on from the target
    next id' hid' =>
      obtain ⟨rest, hrest, h⟩ := bind_eq_ok.mp h
      cases h
      obtain ⟨hhead, hsteps, hclosed⟩ := ih hrest
      cases hids : rest.map NodeDefinition.id with
      | nil => simp [hids] at hhead
      | cons b ids =>
        rw [hids] at hhead hsteps hclosed
        obtain rfl : b = id' := by simpa using hhead
        rw [List.map_cons, hids, hid]
        refine ⟨rfl, fun e he => ?_, fun n hn t ht => ?_⟩
        · rcases List.mem_cons.mp he with rfl | he
          · exact hid'
          · exact hsteps e he
        · rcases List.mem_cons.mp hn with rfl | hn
          · rw [hid] at ht ⊢
            rw [hid'] at ht
            cases ht
            exact List.mem_cons_self
          · exact List.mem_cons_of_mem _ (hclosed n hn t ht)

/-- Along a chain the walk visits it. -/
theorem walkChain_chain {node : NodeDefinition} {rest : List NodeDefinition} {fuel : Nat}
    {visited : List String} (hfuel : rest.length < fuel)
    (hknown : ∀ n ∈ node :: rest, index[n.id]? = some n)
    (hdistinct : ((node :: rest).map NodeDefinition.id).Nodup)
    (hfresh : ∀ n ∈ node :: rest, n.id ∉ visited)
    (hnext : ∀ n ∈ node :: rest, ∀ t, next[n.id]? = some t ↔
      ⟨n.id, t⟩ ∈ steps ((node :: rest).map NodeDefinition.id)) :
    walkChain index next fuel visited node.id = .ok (node :: rest) := by
  induction rest generalizing node fuel visited with
  | nil =>
    obtain ⟨fuel, rfl⟩ := Nat.exists_eq_succ_of_ne_zero (Nat.ne_zero_of_lt hfuel)
    -- the last node leads nowhere
    have hlast : next[node.id]? = none := by
      cases ht : next[node.id]? with
      | none => rfl
      | some t => nomatch (hnext node List.mem_cons_self t).mp ht
    have hnew := hfresh node List.mem_cons_self
    simp [walkChain, hnew, hknown node List.mem_cons_self, okOr, hlast]
  | cons second rest ih =>
    obtain ⟨fuel, rfl⟩ := Nat.exists_eq_succ_of_ne_zero (Nat.ne_zero_of_lt hfuel)
    have hsecond : next[node.id]? = some second.id :=
      (hnext node List.mem_cons_self second.id).mpr (by simp [steps])
    have hnew := hfresh node List.mem_cons_self
    obtain ⟨hnot, hdistinct'⟩ := List.nodup_cons.mp hdistinct
    have hne : ∀ n ∈ second :: rest, n.id ≠ node.id := fun n hn heq =>
      hnot (heq ▸ List.mem_map_of_mem hn)
    -- the rest is a chain of its own, and does not come back to the node
    have hrest :
        walkChain index next fuel (node.id :: visited) second.id = .ok (second :: rest) := by
      refine ih (Nat.lt_of_succ_lt_succ hfuel) (fun n hn => hknown n (List.mem_cons_of_mem _ hn))
        hdistinct' (fun n hn => ?_) (fun n hn t => ?_)
      · simp only [List.mem_cons, not_or]
        exact ⟨hne n hn, hfresh n (List.mem_cons_of_mem _ hn)⟩
      · rw [hnext n (List.mem_cons_of_mem _ hn) t]
        simp only [List.map_cons, steps, List.mem_cons, Edge.mk.injEq]
        constructor
        · rintro (⟨heq, -⟩ | hmem)
          · exact absurd heq (hne n hn)
          · exact hmem
        · exact .inr
    simp [walkChain, hnew, hknown node List.mem_cons_self, okOr, hsecond, hrest]

/-- The walk with its rounds counted: `none` when they do not suffice. -/
def walkRounds (nodes : BTreeMap String NodeDefinition) (next : BTreeMap String String) :
    Nat → List String → String → Option (Except ForgeError (List NodeDefinition))
  | 0, _, _ => none
  | fuel + 1, visited, id =>
    if visited.contains id then some (.error cyclic)
    else
      match nodes[id]? with
      | none => some (.error cyclic)
      | some node =>
        match next[id]? with
        | none => some (.ok [node])
        | some id' => (walkRounds nodes next fuel (id :: visited) id').map (·.map (node :: ·))

/-- A walk visits known nodes, none of them twice, so it ends within one round more than there
are nodes. -/
theorem walkRounds_some {fuel : Nat} {visited : List String} {id : String}
    (hvisited : visited.Nodup) (hknown : ∀ v ∈ visited, v ∈ index.keys)
    (hfuel : index.keys.length < fuel + visited.length) :
    walkRounds index next fuel visited id = some (walkChain index next fuel visited id) := by
  induction fuel generalizing visited id with
  | zero =>
    -- more names than there are nodes
    have hle := (hvisited.subperm hknown).length_le
    omega
  | succ fuel ih =>
    unfold walkRounds walkChain
    by_cases hagain : visited.contains id = true
    · rw [if_pos hagain, hagain]
      rfl
    · rw [if_neg hagain]
      have hnew : id ∉ visited := by simpa using hagain
      cases hnode : index[id]? with
      | none => simp [hnew, okOr]
      | some node =>
        cases hnext : next[id]? with
        | none => simp [hnew, okOr]
        | some id' =>
          have hkey : id ∈ index.keys := by
            rw [Std.ExtTreeMap.mem_keys, Std.ExtTreeMap.mem_iff_isSome_getElem?, hnode]
            rfl
          have hrest := @ih (id :: visited) id' (List.nodup_cons.mpr ⟨hnew, hvisited⟩)
            (List.forall_mem_cons.mpr ⟨hkey, hknown⟩) (by simp only [List.length_cons]; omega)
          dsimp only
          rw [hrest]
          cases walkChain index next fuel (id :: visited) id' with
          | ok rest => simp [hnew, okOr, Except.map]
          | error e => simp [hnew, okOr, Except.map]

end Walk

/-! ## The order -/

variable {entry : String} {nodes order : List NodeDefinition} {edges : List Edge}

/-- What is accepted is a chain. -/
theorem chain_of_ordered (h : ordered entry nodes edges = .ok order) :
    Chain entry nodes edges order := by
  have hcovers := ordered_perm h
  obtain ⟨_, hnonempty, h⟩ := bind_eq_ok.mp h
  generalize hindex : nodes.foldl indexNode (∅, []) = indexed at h
  obtain ⟨index, invalid⟩ := indexed
  dsimp only at h
  generalize hlinks : edges.foldl (linkEdge index) { diagnostics := invalid } = links at h
  obtain ⟨_, hdiagnostics, h⟩ := bind_eq_ok.mp h
  obtain ⟨order', hwalk, h⟩ := bind_eq_ok.mp h
  obtain ⟨_, -, h⟩ := bind_eq_ok.mp h
  cases h
  obtain ⟨hempty, -⟩ := List.append_eq_nil_iff.mp
    (List.isEmpty_iff.mp (ensure_eq_ok.mp hdiagnostics))
  -- diagnostics of the edges come after those of the nodes
  have hinvalid : invalid = [] := linkEdges_invalid hlinks hempty
  subst hinvalid
  obtain ⟨hdistinct, hget⟩ := indexNodes_eq hindex
  have hlinked := linkEdges_linked hlinks hempty
  have hnext := linkEdges_eq hlinks hempty
  have hknown : ∀ k : String, index.contains k ↔ k ∈ nodes.map NodeDefinition.id := by
    intro k
    rw [Std.ExtTreeMap.contains_eq_isSome_getElem?, Option.isSome_iff_exists, List.mem_map]
    exact exists_congr fun n => hget k n
  obtain ⟨hstarts, hsteps, hclosed⟩ := walkChain_steps (fun k n hn => ((hget k n).mp hn).2) hwalk
  refine ⟨by simpa using ensure_eq_ok.mp hnonempty, indexNodes_named hindex, hdistinct,
    fun e he => ?_, .of_map _ hlinked.sources, hstarts, hcovers,
    fun e => ⟨fun he => ?_, fun he => ?_⟩⟩
  · obtain ⟨hsource, htarget⟩ := hlinked.joined e he
    exact ⟨(hknown _).mp hsource, (hknown _).mp htarget⟩
  · -- the source of an edge is in the order, and the walk followed the edge
    obtain ⟨n, hn, hid⟩ := List.mem_map.mp
      ((hcovers.map NodeDefinition.id).mem_iff.mpr ((hknown _).mp (hlinked.joined e he).1))
    have := hclosed n hn e.target ((hnext _ _).mpr (hid ▸ he))
    rwa [hid] at this
  · exact (hnext _ _).mp (hsteps e he)

/-- A chain is accepted. -/
theorem ordered_of_chain (h : Chain entry nodes edges order) :
    ordered entry nodes edges = .ok order := by
  obtain ⟨index, hindex⟩ := indexNodes_ok h.named h.distinct
  obtain ⟨-, hget⟩ := indexNodes_eq hindex
  have hknown : ∀ k : String, index.contains k ↔ k ∈ nodes.map NodeDefinition.id := by
    intro k
    rw [Std.ExtTreeMap.contains_eq_isSome_getElem?, Option.isSome_iff_exists, List.mem_map]
    exact exists_congr fun n => hget k n
  have hjoined : ∀ e ∈ edges, index.contains e.source ∧ index.contains e.target := fun e he =>
    ⟨(hknown _).mpr (h.joined e he).1, (hknown _).mpr (h.joined e he).2⟩
  -- neither the nodes nor the edges give a complaint
  have hdiagnostics := linkEdges_ok hjoined h.sources_nodup h.targets_nodup
  have hlinked := linkEdges_linked rfl hdiagnostics
  have hnext := linkEdges_eq rfl hdiagnostics
  obtain ⟨hentry, hfirst⟩ := h.entry_first
  have hprevious : (edges.foldl (linkEdge index) { diagnostics := [] }).previous.contains entry =
      false := Bool.eq_false_iff.mpr fun hc => hfirst ((hlinked.previous _).mp hc)
  -- and the walk visits the order of the chain
  have hwalk : walkChain index (edges.foldl (linkEdge index) { diagnostics := [] }).next
      (nodes.length + 1) [] entry = .ok order := by
    have hstarts := h.starts
    have hdistinct := h.distinct_order
    have hfollows := h.follows
    have hcovers := h.covers
    cases order with
    | nil => nomatch hstarts
    | cons node rest =>
      obtain rfl : node.id = entry := by simpa using hstarts
      refine walkChain_chain ?_ (fun n hn => ?_) hdistinct (fun n _ => List.not_mem_nil)
        (fun n hn t => ?_)
      · have := hcovers.length_eq
        simp only [List.length_cons] at this
        omega
      · exact (hget n.id n).mpr ⟨hcovers.mem_iff.mp hn, rfl⟩
      · exact (hnext n.id t).trans (hfollows ⟨n.id, t⟩)
  have hnonempty : nodes.isEmpty = false := by simpa using h.nonempty
  unfold ordered
  simp only [hnonempty, Bool.not_false, ensure_true, ok_bind, hindex]
  simp only [hdiagnostics, hprevious, (hknown entry).mpr hentry, Bool.not_true, Bool.or_false,
    Bool.false_eq_true, if_false, List.append_nil, List.isEmpty_nil, ensure_true, ok_bind, hwalk,
    h.covers.length_eq, decide_true]
  rfl

theorem ordered_eq_ok_iff : ordered entry nodes edges = .ok order ↔ Chain entry nodes edges order :=
  ⟨chain_of_ordered, ordered_of_chain⟩

/-- A body is accepted exactly when it is a chain, in the order of that chain. The answer does
not depend on how nodes and edges are listed, and the walk for it ends on every body. -/
theorem body_order (entry : String) (nodes : List NodeDefinition) (edges : List Edge) :
    (∀ order, ordered entry nodes edges = .ok order ↔ Chain entry nodes edges order) ∧
    (∀ nodes' edges', nodes.Perm nodes' → edges.Perm edges' → ∀ order,
      ordered entry nodes edges = .ok order ↔ ordered entry nodes' edges' = .ok order) ∧
    ∀ (links : Links) (id : String),
      walkRounds (nodes.foldl indexNode (∅, [])).1 links.next (nodes.length + 1) [] id =
        some (walkChain (nodes.foldl indexNode (∅, [])).1 links.next (nodes.length + 1) [] id) := by
  refine ⟨fun order => ordered_eq_ok_iff, fun nodes' edges' hnodes hedges order => ?_,
    fun links id => ?_⟩
  · rw [ordered_eq_ok_iff, ordered_eq_ok_iff]
    exact ⟨fun h => h.perm hnodes hedges, fun h => h.perm hnodes.symm hedges.symm⟩
  · refine walkRounds_some List.nodup_nil nofun ?_
    have hsize := length_keys_indexNodes nodes
    simp only [List.length_nil]
    omega

end WorkflowForge.Engine
