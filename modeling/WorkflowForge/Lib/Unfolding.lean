import Mathlib.Algebra.GroupWithZero.Nat
import Mathlib.Data.List.Forall2
import Mathlib.Data.List.Nodup
import WorkflowForge.Lib.Except

/-!
# Unfolding a Graph Within a Budget

A graph is given by the branches of a node, which may be refused. Its unfolding at a node is
the tree of all ways on from there. A depth-first traversal with a budget for its depth and
for what it visits accepts a node exactly when the unfolding is finite and fits the budget.

## Main results

- `visit_eq_ok`: the traversal accepts the unfoldings that fit, and counts them exactly.
- `trail_of_visit_error`: what the traversal refuses lies at the end of a trail.
- `Unfolds.simulate`: related nodes of two graphs have related unfoldings.
-/

namespace WorkflowForge.Lib

variable {ν μ ε : Type}

/-- A node with the unfoldings of its branches. -/
inductive Unfolding (ν : Type) where
  | node (label : ν) (branches : List (Unfolding ν))

namespace Unfolding

mutual
/-- The nodes, in the order of a depth-first traversal. -/
def labels : Unfolding ν → List ν
  | .node x branches => x :: labelsOf branches

def labelsOf : List (Unfolding ν) → List ν
  | [] => []
  | t :: ts => t.labels ++ labelsOf ts
end

mutual
/-- The most steps from the root to a node. -/
def height : Unfolding ν → Nat
  | .node _ branches => heightOf branches

/-- One more than the height of the highest branch. -/
def heightOf : List (Unfolding ν) → Nat
  | [] => 0
  | t :: ts => max (t.height + 1) (heightOf ts)
end

mutual
/-- The nodes on the way from the root to each node. -/
def paths : Unfolding ν → List (List ν)
  | .node x branches => [x] :: (pathsOf branches).map (x :: ·)

def pathsOf : List (Unfolding ν) → List (List ν)
  | [] => []
  | t :: ts => t.paths ++ pathsOf ts
end

end Unfolding

open Unfolding

mutual
/-- The unfolding at a node none of whose branches is refused. -/
inductive Unfolds (next : ν → Except ε (List ν)) : ν → Unfolding ν → Prop where
  | node {x : ν} {xs : List ν} {ts : List (Unfolding ν)} :
      next x = .ok xs → UnfoldsAll next xs ts → Unfolds next x (.node x ts)

inductive UnfoldsAll (next : ν → Except ε (List ν)) : List ν → List (Unfolding ν) → Prop where
  | nil : UnfoldsAll next [] []
  | cons {x : ν} {xs : List ν} {t : Unfolding ν} {ts : List (Unfolding ν)} :
      Unfolds next x t → UnfoldsAll next xs ts → UnfoldsAll next (x :: xs) (t :: ts)
end

/-! ## The traversal -/

section Budget

variable (weight : ν → Nat) (limit : Nat)

/-- What visiting some nodes costs: each counts for itself and by its weight. -/
def total (xs : List ν) : Nat :=
  (xs.map fun x => 1 + weight x).sum

/-- Each node can still be counted when it is visited. -/
def Fits : Nat → List ν → Prop
  | _, [] => True
  | cost, x :: xs => cost + 1 ≤ limit ∧ Fits (cost + 1 + weight x) xs

variable (next : ν → Except ε (List ν)) (exceeded : ε)

/-- Visits a node and its branches in order; answers the cost so far. -/
def visit : Nat → ν → Nat → Except ε Nat
  | 0, _, _ => .error exceeded
  | room + 1, x, cost =>
    if limit < cost + 1 then .error exceeded
    else do
      let xs ← next x
      xs.foldlM (fun cost x => visit room x cost) (cost + 1 + weight x)

end Budget

section Visit

variable {weight : ν → Nat} {limit : Nat} {next : ν → Except ε (List ν)} {exceeded : ε}

theorem total_append (xs ys : List ν) :
    total weight (xs ++ ys) = total weight xs + total weight ys := by
  simp [total]

theorem total_eq (xs : List ν) : total weight xs = xs.length + (xs.map weight).sum := by
  induction xs with
  | nil => rfl
  | cons x xs ih =>
    simp only [total, List.map_cons, List.sum_cons, List.length_cons] at ih ⊢
    omega

theorem fits_append {cost : Nat} {xs ys : List ν} :
    Fits weight limit cost (xs ++ ys) ↔
      Fits weight limit cost xs ∧ Fits weight limit (cost + total weight xs) ys := by
  induction xs generalizing cost with
  | nil => simp [Fits, total]
  | cons x xs ih =>
    simp only [List.cons_append, Fits, ih, total, List.map_cons, List.sum_cons, and_assoc,
      Nat.add_assoc]

/-- Nodes that fit are no more than the budget allows. -/
theorem Fits.length_le {cost : Nat} {xs : List ν} (h : Fits weight limit cost xs)
    (hc : cost ≤ limit) : cost + xs.length ≤ limit := by
  induction xs generalizing cost with
  | nil => simpa using hc
  | cons x xs ih =>
    obtain ⟨hx, hxs⟩ := h
    cases xs with
    | nil => simpa using hx
    | cons y ys =>
      have := ih hxs (by have := hxs.1; omega)
      simp only [List.length_cons] at this ⊢
      omega

theorem Fits.congr {weight' : μ → Nat} {xs : List ν} {ys : List μ}
    (h : List.Forall₂ (fun x y => weight x = weight' y) xs ys) {cost : Nat} :
    Fits weight limit cost xs ↔ Fits weight' limit cost ys := by
  induction h generalizing cost with
  | nil => rfl
  | cons hxy _ ih => rw [Fits, Fits, hxy, ih]

/-- The traversal accepts the unfoldings that fit the budget, and counts them exactly. -/
theorem visit_eq_ok {room cost cost' : Nat} {x : ν} :
    visit weight limit next exceeded room x cost = .ok cost' ↔
      ∃ t, Unfolds next x t ∧ t.height < room ∧ Fits weight limit cost t.labels ∧
        cost' = cost + total weight t.labels := by
  -- by induction on the levels that remain, and inside over the branches
  induction room generalizing x cost cost' with
  | zero => simp [visit]
  | succ room ih =>
    have hall : ∀ (xs : List ν) (cost cost' : Nat),
        xs.foldlM (fun cost x => visit weight limit next exceeded room x cost) cost = .ok cost' ↔
          ∃ ts, UnfoldsAll next xs ts ∧ heightOf ts ≤ room ∧
            Fits weight limit cost (labelsOf ts) ∧
            cost' = cost + total weight (labelsOf ts) := by
      intro xs
      induction xs with
      | nil =>
        intro cost cost'
        constructor
        · intro h
          cases h
          exact ⟨[], .nil, Nat.zero_le _, trivial, rfl⟩
        · rintro ⟨ts, hts, -, -, rfl⟩
          cases hts
          rfl
      | cons x xs ihxs =>
        intro cost cost'
        rw [List.foldlM_cons, bind_eq_ok]
        constructor
        · rintro ⟨c, hx, hxs⟩
          obtain ⟨t, ht, hheight, hfits, rfl⟩ := ih.mp hx
          obtain ⟨ts, hts, hheights, hfitss, rfl⟩ := (ihxs _ _).mp hxs
          refine ⟨t :: ts, .cons ht hts, ?_, ?_, ?_⟩
          · rw [heightOf]
            omega
          · exact fits_append.mpr ⟨hfits, hfitss⟩
          · rw [labelsOf, total_append]
            omega
        · rintro ⟨_, hts, hheight, hfits, rfl⟩
          cases hts with
          | cons ht hts =>
            rw [heightOf] at hheight
            obtain ⟨hfit, hfits⟩ := fits_append.mp hfits
            refine ⟨_, ih.mpr ⟨_, ht, by omega, hfit, rfl⟩,
              (ihxs _ _).mpr ⟨_, hts, by omega, hfits, ?_⟩⟩
            rw [labelsOf, total_append]
            omega
    rw [visit]
    split
    next hlimit =>
      constructor
      · intro h
        nomatch h
      · rintro ⟨t, ht, -, hfits, -⟩
        cases ht
        exact absurd hfits.1 (by omega)
    next hlimit =>
      rw [bind_eq_ok]
      constructor
      · rintro ⟨xs, hxs, h⟩
        obtain ⟨ts, hts, hheight, hfits, rfl⟩ := (hall _ _ _).mp h
        refine ⟨.node x ts, .node hxs hts, Nat.lt_succ_of_le hheight, ⟨by omega, hfits⟩, ?_⟩
        simp only [labels, total, List.map_cons, List.sum_cons]
        omega
      · rintro ⟨_, ht, hheight, hfits, rfl⟩
        cases ht with
        | @node _ xs ts hxs hts =>
          refine ⟨xs, hxs, (hall _ _ _).mpr
            ⟨ts, hts, Nat.le_of_lt_succ hheight, hfits.2, ?_⟩⟩
          simp only [labels, total, List.map_cons, List.sum_cons]
          omega

/-! ## Trails -/

/-- A way from one node along branches, with the nodes on it. -/
inductive Trail (next : ν → Except ε (List ν)) (x : ν) : List ν → ν → Prop where
  | refl : Trail next x [x] x
  | snoc {p : List ν} {y z : ν} {ys : List ν} :
      Trail next x p y → next y = .ok ys → z ∈ ys → Trail next x (p ++ [z]) z

/-- A trail continues one that ends where it starts. -/
theorem Trail.cons {x y z : ν} {xs p : List ν} (h : Trail next y p z) (hx : next x = .ok xs)
    (hy : y ∈ xs) : Trail next x (x :: p) z := by
  induction h with
  | refl => exact .snoc .refl hx hy
  | snoc _ hnext hz ih => exact .snoc ih hnext hz

/-- What the traversal refuses, apart from its budget, is a node at the end of a trail. -/
theorem trail_of_visit_error {room cost : Nat} {x : ν} {e : ε}
    (h : visit weight limit next exceeded room x cost = .error e) :
    e = exceeded ∨ ∃ p y, Trail next x p y ∧ next y = .error e := by
  induction room generalizing x cost with
  | zero => exact .inl (Except.error.inj h).symm
  | succ room ih =>
    rw [visit] at h
    split at h
    · exact .inl (Except.error.inj h).symm
    · cases hx : next x with
      | error e' =>
        rw [hx, error_bind] at h
        cases h
        exact .inr ⟨[x], x, .refl, hx⟩
      | ok xs =>
        rw [hx, ok_bind] at h
        -- by induction on the nodes that are next: the first one refused is on a trail
        have hall : ∀ (ys : List ν) (cost : Nat), (∀ y ∈ ys, y ∈ xs) →
            ys.foldlM (fun cost x => visit weight limit next exceeded room x cost) cost =
              .error e → e = exceeded ∨ ∃ p y, Trail next x p y ∧ next y = .error e := by
          intro ys
          induction ys with
          | nil => intro _ _ h; nomatch h
          | cons y ys ihys =>
            intro cost hmem h
            rw [List.foldlM_cons] at h
            cases hy : visit weight limit next exceeded room y cost with
            | ok c =>
              rw [hy, ok_bind] at h
              exact ihys c (fun z hz => hmem z (List.mem_cons_of_mem _ hz)) h
            | error e' =>
              rw [hy] at h
              cases h
              rcases ih hy with hover | ⟨p, z, hp, hz⟩
              · exact .inl hover
              · exact .inr ⟨x :: p, z, hp.cons hx (hmem y List.mem_cons_self), hz⟩
        exact hall xs _ (fun _ hy => hy) h

end Visit

/-! ## Comparing unfoldings -/

section Simulation

variable {next : ν → Except ε (List ν)} {next' : μ → Except ε (List μ)}

mutual
/-- A node has one unfolding. -/
theorem Unfolds.unique {x : ν} {t t' : Unfolding ν} (h : Unfolds next x t)
    (h' : Unfolds next x t') : t = t' := by
  cases h with
  | node hx hts =>
    cases h' with
    | node hx' hts' =>
      rw [hx] at hx'
      cases hx'
      rw [hts.unique hts']

theorem UnfoldsAll.unique {xs : List ν} {ts ts' : List (Unfolding ν)}
    (h : UnfoldsAll next xs ts) (h' : UnfoldsAll next xs ts') : ts = ts' := by
  cases h with
  | nil => cases h'; rfl
  | cons ht hts =>
    cases h' with
    | cons ht' hts' => rw [ht.unique ht', hts.unique hts']
end

mutual
/-- None of the nodes of an unfolding is refused. -/
theorem Unfolds.branches_ok {x z : ν} {t : Unfolding ν} (h : Unfolds next x t)
    (hz : z ∈ t.labels) : ∃ zs, next z = .ok zs := by
  cases h with
  | node hx hts =>
    rcases List.mem_cons.mp hz with rfl | hz
    · exact ⟨_, hx⟩
    · exact hts.branches_ok hz

theorem UnfoldsAll.branches_ok {xs : List ν} {z : ν} {ts : List (Unfolding ν)}
    (h : UnfoldsAll next xs ts) (hz : z ∈ labelsOf ts) : ∃ zs, next z = .ok zs := by
  cases h with
  | nil => nomatch hz
  | cons ht hts =>
    rcases List.mem_append.mp hz with hz | hz
    · exact ht.branches_ok hz
    · exact hts.branches_ok hz
end

mutual
/-- What the branches inherit holds of all nodes of an unfolding. -/
theorem Unfolds.labels_invariant {P : ν → Prop}
    (hstep : ∀ x xs, P x → next x = .ok xs → ∀ y ∈ xs, P y) {x : ν} {t : Unfolding ν}
    (h : Unfolds next x t) (hx : P x) : ∀ z ∈ t.labels, P z := by
  cases h with
  | node hnext hts =>
    intro z hz
    rcases List.mem_cons.mp hz with rfl | hz
    · exact hx
    · exact hts.labels_invariant hstep (hstep _ _ hx hnext) z hz

theorem UnfoldsAll.labels_invariant {P : ν → Prop}
    (hstep : ∀ x xs, P x → next x = .ok xs → ∀ y ∈ xs, P y) {xs : List ν}
    {ts : List (Unfolding ν)} (h : UnfoldsAll next xs ts) (hxs : ∀ x ∈ xs, P x) :
    ∀ z ∈ labelsOf ts, P z := by
  cases h with
  | nil => exact fun z hz => nomatch hz
  | cons ht hts =>
    intro z hz
    rcases List.mem_append.mp hz with hz | hz
    · exact ht.labels_invariant hstep (hxs _ List.mem_cons_self) z hz
    · exact hts.labels_invariant hstep (fun x hx => hxs x (List.mem_cons_of_mem _ hx)) z hz
end

/-- The branches of a node are nodes of its unfolding. -/
theorem UnfoldsAll.mem_labels {xs : List ν} {x : ν} {ts : List (Unfolding ν)}
    (h : UnfoldsAll next xs ts) (hx : x ∈ xs) : ∃ t ∈ ts, Unfolds next x t ∧ x ∈ labelsOf ts := by
  cases h with
  | nil => nomatch hx
  | @cons y ys t ts ht hts =>
    rcases List.mem_cons.mp hx with rfl | hx
    · refine ⟨t, List.mem_cons_self, ht, List.mem_append_left _ ?_⟩
      cases ht
      exact List.mem_cons_self
    · obtain ⟨t', hmem, ht', hlabel⟩ := hts.mem_labels hx
      exact ⟨t', List.mem_cons_of_mem _ hmem, ht', List.mem_append_right _ hlabel⟩

/-- In related lists each node on the right is related to one on the left. -/
theorem exists_related {R : ν → μ → Prop} {xs : List ν} {ys : List μ} {y : μ}
    (h : List.Forall₂ R xs ys) (hy : y ∈ ys) : ∃ x ∈ xs, R x y := by
  induction h with
  | nil => nomatch hy
  | cons hxy _ ih =>
    rcases List.mem_cons.mp hy with rfl | hy
    · exact ⟨_, List.mem_cons_self, hxy⟩
    · obtain ⟨x, hx, hr⟩ := ih hy
      exact ⟨x, List.mem_cons_of_mem _ hx, hr⟩

/-- A branching of an unfolding, all of whose nodes have a property, is matched by a related
node. -/
def Matches (next : ν → Except ε (List ν)) (next' : μ → Except ε (List μ)) (P : ν → Prop)
    (R : ν → μ → Prop) : Prop :=
  ∀ x y xs ts, R x y → next x = .ok xs → UnfoldsAll next xs ts → (∀ z ∈ labelsOf ts, P z) →
    ∃ ys, next' y = .ok ys ∧ List.Forall₂ R xs ys

mutual
/-- Related nodes have related unfoldings when each branching is matched. -/
theorem Unfolds.simulate {P : ν → Prop} {R : ν → μ → Prop} (hstep : Matches next next' P R)
    {x : ν} {y : μ} {t : Unfolding ν} (h : Unfolds next x t)
    (hP : ∀ z ∈ t.labels, P z) (hxy : R x y) :
    ∃ t', Unfolds next' y t' ∧ t'.height = t.height ∧ List.Forall₂ R t.labels t'.labels := by
  cases h with
  | node hx hts =>
    have hrest := fun z hz => hP z (List.mem_cons_of_mem _ hz)
    obtain ⟨ys, hy, hys⟩ := hstep _ _ _ _ hxy hx hts hrest
    obtain ⟨ts', hts', hheight, hlabels⟩ := hts.simulate hstep hrest hys
    exact ⟨.node y ts', .node hy hts', hheight, .cons hxy hlabels⟩

theorem UnfoldsAll.simulate {P : ν → Prop} {R : ν → μ → Prop}
    (hstep : Matches next next' P R) {xs : List ν} {ys : List μ} {ts : List (Unfolding ν)}
    (h : UnfoldsAll next xs ts) (hP : ∀ z ∈ labelsOf ts, P z) (hxy : List.Forall₂ R xs ys) :
    ∃ ts', UnfoldsAll next' ys ts' ∧ heightOf ts' = heightOf ts ∧
      List.Forall₂ R (labelsOf ts) (labelsOf ts') := by
  cases h with
  | nil =>
    cases hxy
    exact ⟨[], .nil, rfl, .nil⟩
  | cons ht hts =>
    cases hxy with
    | cons hr hrs =>
      obtain ⟨t', ht', hheight, hlabels⟩ :=
        ht.simulate hstep (fun z hz => hP z (List.mem_append_left _ hz)) hr
      obtain ⟨ts', hts', hheights, hlabelss⟩ :=
        hts.simulate hstep (fun z hz => hP z (List.mem_append_right _ hz)) hrs
      exact ⟨t' :: ts', .cons ht' hts', by rw [heightOf, heightOf, hheight, hheights],
        List.rel_append hlabels hlabelss⟩
end

end Simulation

end WorkflowForge.Lib
