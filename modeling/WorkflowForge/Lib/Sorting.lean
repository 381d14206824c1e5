import Mathlib.Data.List.Nodup
import Mathlib.Data.List.Perm.Basic
import Mathlib.Order.Basic

/-!
# Sorting as a Normal Form

A list sorted by a key that names its items is the same for every order of the items. A list
that is related to another item by item can take over the order of that other list.

## Main results

- `mergeSort_eq_of_perm`: sorting forgets the order, where items are told apart.
- `countP_eq_of_mem_zipIdx`: the index of an item is its rank.
- `exists_forall₂_perm`: the order of one side of a relation can be changed.
-/

namespace WorkflowForge.Lib

variable {α β κ : Type}

/-- Sorting forgets the order of items that the comparison tells apart. -/
theorem mergeSort_eq_of_perm {le : α → α → Bool} {xs ys : List α} (h : xs.Perm ys)
    (htrans : ∀ a b c : α, le a b → le b c → le a c) (htotal : ∀ a b : α, le a b || le b a)
    (hanti : ∀ a ∈ xs, ∀ b ∈ xs, le a b → le b a → a = b) :
    xs.mergeSort le = ys.mergeSort le := by
  refine List.Perm.eq_of_pairwise (fun a b ha hb => ?_) (List.pairwise_mergeSort htrans htotal xs)
    (List.pairwise_mergeSort htrans htotal ys)
    ((List.mergeSort_perm xs le).trans (h.trans (List.mergeSort_perm ys le).symm))
  exact hanti a (List.mem_mergeSort.mp ha) b (h.mem_iff.mpr (List.mem_mergeSort.mp hb))

/-- Lists that sort to the same have the same items. -/
theorem perm_of_mergeSort_eq {le : α → α → Bool} {xs ys : List α}
    (h : xs.mergeSort le = ys.mergeSort le) : xs.Perm ys :=
  (List.mergeSort_perm xs le).symm.trans (h ▸ List.mergeSort_perm ys le)

/-- In a list in strict order the index of an item is the number of items before it. -/
theorem countP_eq_of_mem_zipIdx {le : α → α → Bool} {xs : List α}
    (h : xs.Pairwise fun a b => le a b ∧ le b a = false) (hrefl : ∀ a : α, le a a) {a : α}
    {start i : Nat} (hmem : (a, i) ∈ xs.zipIdx start) :
    start + xs.countP (fun b => !le a b) = i := by
  induction xs generalizing start with
  | nil => nomatch hmem
  | cons x xs ih =>
    obtain ⟨hx, hxs⟩ := List.pairwise_cons.mp h
    rw [List.zipIdx_cons] at hmem
    rcases List.mem_cons.mp hmem with heq | hmem
    · -- every later item is at or after the first
      obtain ⟨rfl, rfl⟩ := Prod.mk.inj heq
      have hnone : (a :: xs).countP (fun b => !le a b) = 0 := by
        rw [List.countP_eq_zero]
        intro b hb
        rcases List.mem_cons.mp hb with rfl | hb
        · simp [hrefl b]
        · simp [(hx b hb).1]
      omega
    · have ha : a ∈ xs := List.fst_mem_of_mem_zipIdx hmem
      -- the head comes strictly before the item
      have hbefore : (!le a x) = true := by simp [(hx a ha).2]
      have hrest := ih hxs hmem
      rw [@List.countP_cons_of_pos _ (fun b => !le a b) x xs hbefore]
      omega

/-- Items with distinct keys are told apart by their keys. -/
theorem eq_of_key_eq {key : α → κ} {xs : List α} (h : (xs.map key).Nodup) {a b : α} (ha : a ∈ xs)
    (hb : b ∈ xs) (hkey : key a = key b) : a = b :=
  List.inj_on_of_nodup_map h ha hb hkey

/-- What is the same up to order on one side of a function is so on the other. -/
theorem exists_forall₂_perm {f : α → β} {xs ys : List α} (h : (xs.map f).Perm (ys.map f)) :
    ∃ zs : List α, xs.map f = zs.map f ∧ zs.Perm ys := by
  have himage : List.Forall₂ (fun b a => b = f a) (ys.map f) ys :=
    List.forall₂_map_left_iff.mpr (List.forall₂_same.mpr fun _ _ => rfl)
  obtain ⟨zs, hxs, hperm⟩ := List.perm_comp_forall₂ h himage
  refine ⟨zs, ?_, hperm⟩
  rw [← List.forall₂_eq_eq_eq, List.forall₂_map_right_iff]
  exact hxs

/-- A partner on the right of a relation item by item. -/
theorem exists_of_forall₂_left {R : α → β → Prop} {xs : List α} {ys : List β}
    (h : List.Forall₂ R xs ys) {x : α} (hx : x ∈ xs) : ∃ y ∈ ys, R x y := by
  induction h with
  | nil => nomatch hx
  | cons hxy _ ih =>
    rcases List.mem_cons.mp hx with rfl | hx
    · exact ⟨_, List.mem_cons_self, hxy⟩
    · obtain ⟨y, hy, hR⟩ := ih hx
      exact ⟨y, List.mem_cons_of_mem _ hy, hR⟩

/-- A partner on the left. -/
theorem exists_of_forall₂_right {R : α → β → Prop} {xs : List α} {ys : List β}
    (h : List.Forall₂ R xs ys) {y : β} (hy : y ∈ ys) : ∃ x ∈ xs, R x y :=
  exists_of_forall₂_left (R := fun y x => R x y) h.flip hy

end WorkflowForge.Lib
