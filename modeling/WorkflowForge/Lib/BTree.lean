import Std.Data.ExtTreeMap
import Std.Data.ExtTreeSet
import Mathlib.Data.List.Basic
import Mathlib.Data.Bool.AllAny
import Mathlib.Algebra.GroupWithZero.Nat

/-!
# Ordered Maps and Sets

`BTreeMap` and `BTreeSet` are the extensional trees of `Std`, with the queries that
state predicates about a whole map: `all` and `any` over the entries, a value-wise
rewrite, and decidable equality.

## Main results

- `all_iff`, `any_iff`: a quantifier over the entries is a quantifier over lookups.
- `get_mapValues`: a value-wise rewrite is seen pointwise.
- `ofList_toList`: listing the entries in order loses nothing.
-/

namespace WorkflowForge.Lib

/-- Ordered map with unique keys; two maps with the same lookups are equal. -/
abbrev BTreeMap (α β : Type) [Ord α] := Std.ExtTreeMap α β compare

/-- Ordered set. -/
abbrev BTreeSet (α : Type) [Ord α] := Std.ExtTreeSet α compare

namespace BTreeMap

variable {α β γ : Type} [Ord α] [Std.TransOrd α] [Std.LawfulEqOrd α]

/-! ## Lookup after an update -/

/-- The inserted entry is found. -/
@[simp] theorem get_insert_self (m : BTreeMap α β) (k : α) (v : β) :
    (m.insert k v)[k]? = some v := by
  simp

/-- The other entries stay. -/
theorem get_insert_ne (m : BTreeMap α β) {k k' : α} (v : β) (h : k ≠ k') :
    (m.insert k v)[k']? = m[k']? := by
  simp [Std.ExtTreeMap.getElem?_insert, h]

theorem get_insert [DecidableEq α] (m : BTreeMap α β) (k k' : α) (v : β) :
    (m.insert k v)[k']? = if k = k' then some v else m[k']? := by
  simp [Std.ExtTreeMap.getElem?_insert]

/-- Rewrites every value, keeping the keys. -/
def mapValues (f : β → γ) (m : BTreeMap α β) : BTreeMap α γ :=
  m.map fun _ v => f v

/-- An erased entry is gone, and the others stay. -/
theorem get_erase [DecidableEq α] (m : BTreeMap α β) (k k' : α) :
    (m.erase k)[k']? = if k = k' then none else m[k']? := by
  rw [Std.ExtTreeMap.getElem?_erase]
  simp [Std.LawfulEqCmp.compare_eq_iff_eq]

/-- Values are changed under their keys. -/
@[simp] theorem get_mapValues (f : β → γ) (m : BTreeMap α β) (k : α) :
    (mapValues f m)[k]? = m[k]?.map f := by
  simp [mapValues]

omit [Std.LawfulEqOrd α] in
/-- The order of the keys stays. -/
@[simp] theorem toList_mapValues (f : β → γ) (m : BTreeMap α β) :
    (mapValues f m).toList = m.toList.map fun e => (e.1, f e.2) := by
  simp [mapValues, Std.ExtTreeMap.toList_map]

@[simp] theorem mapValues_id (m : BTreeMap α β) : mapValues id m = m := by
  apply Std.ExtTreeMap.ext_getElem?
  simp

/-- Writing an entry is not seen through a rewrite that does not tell the values apart. -/
theorem mapValues_insert [DecidableEq α] {m : BTreeMap α β} {k : α} {v w : β} (f : β → γ)
    (hk : m[k]? = some w) (hf : f v = f w) :
    mapValues f (m.insert k v) = mapValues f m := by
  apply Std.ExtTreeMap.ext_getElem?
  intro k'
  rw [get_mapValues, get_mapValues, get_insert]
  split
  next heq =>
    subst heq
    rw [hk, Option.map_some, Option.map_some, hf]
  next => rfl

/-! ## Predicates on all entries -/

/-- The values in key order. -/
def valueList (m : BTreeMap α β) : List β :=
  m.toList.map Prod.snd

/-- The listed values are those of some key. -/
theorem mem_valueList {m : BTreeMap α β} {v : β} :
    v ∈ valueList m ↔ ∃ k : α, m[k]? = some v := by
  simp [valueList]

/-- Whether every entry satisfies `p`. -/
def all (p : α → β → Bool) (m : BTreeMap α β) : Bool :=
  m.toList.all fun e => p e.1 e.2

/-- Whether some entry satisfies `p`. -/
def any (p : α → β → Bool) (m : BTreeMap α β) : Bool :=
  m.toList.any fun e => p e.1 e.2

/-- A condition on all entries. -/
theorem all_iff {p : α → β → Bool} {m : BTreeMap α β} :
    all p m = true ↔ ∀ (k : α) (v : β), m[k]? = some v → p k v = true := by
  simp [all]

/-- A condition on some entry. -/
theorem any_iff {p : α → β → Bool} {m : BTreeMap α β} :
    any p m = true ↔ ∃ (k : α) (v : β), m[k]? = some v ∧ p k v = true := by
  simp [any]

/-! ## The values after an update -/

omit [Std.LawfulEqOrd α] in
/-- No entry is listed twice. -/
theorem nodup_toList (m : BTreeMap α β) : m.toList.Nodup := by
  have h := Std.ExtTreeMap.distinct_keys_toList (t := m)
  refine List.Pairwise.imp ?_ h
  intro a b hab heq
  exact hab (heq ▸ Std.ReflCmp.compare_self)

/-- The entries of an update are the new entry and the entries of the other keys. -/
theorem toList_insert_perm (m : BTreeMap α β) (k : α) (v : β) :
    (m.insert k v).toList.Perm ((k, v) :: (m.erase k).toList) := by
  have hfresh : (k, v) ∉ (m.erase k).toList := by
    simp
  refine (List.perm_ext_iff_of_nodup (nodup_toList _)
    (List.nodup_cons.mpr ⟨hfresh, nodup_toList _⟩)).mpr fun e => ?_
  obtain ⟨l, w⟩ := e
  by_cases hk : k = l
  · subst hk
    simp [eq_comm]
  · simp [Std.ExtTreeMap.getElem?_insert, Std.ExtTreeMap.getElem?_erase, hk, Ne.symm hk]

/-- Taking out an entry takes it from the list. -/
theorem toList_perm_erase {m : BTreeMap α β} {k : α} {v : β} (h : m[k]? = some v) :
    m.toList.Perm ((k, v) :: (m.erase k).toList) := by
  have hself : m.insert k v = m := by
    apply Std.ExtTreeMap.ext_getElem?
    intro l
    by_cases hk : k = l
    · subst hk
      rw [get_insert_self, h]
    · rw [get_insert_ne m v hk]
  have := toList_insert_perm m k v
  rwa [hself] at this

/-- Erasing nothing changes nothing. -/
theorem erase_of_get_none {m : BTreeMap α β} {k : α} (h : m[k]? = none) : m.erase k = m := by
  apply Std.ExtTreeMap.ext_getElem?
  intro l
  by_cases hk : k = l
  · subst hk
    simp [h]
  · simp [Std.ExtTreeMap.getElem?_erase, hk]

/-- The sum of a quantity over all values. -/
def sumValues (f : β → Nat) (m : BTreeMap α β) : Nat :=
  ((valueList m).map f).sum

/-- An update replaces the contribution of its key. -/
theorem sumValues_insert (f : β → Nat) (m : BTreeMap α β) (k : α) (v : β) :
    sumValues f (m.insert k v) + (m[k]?.map f).getD 0 = sumValues f m + f v := by
  have hi := (((toList_insert_perm m k v).map Prod.snd).map f).sum_nat
  simp only [List.map_cons, List.sum_cons] at hi
  cases hk : m[k]? with
  | none =>
    rw [erase_of_get_none hk] at hi
    simp only [sumValues, valueList, hi, Option.map_none, Option.getD_none]
    omega
  | some w =>
    have he := (((toList_perm_erase hk).map Prod.snd).map f).sum_nat
    simp only [List.map_cons, List.sum_cons] at he
    simp only [sumValues, valueList, hi, he, Option.map_some, Option.getD_some]
    omega

/-- The contribution of one key is part of the sum. -/
theorem get_le_sumValues (f : β → Nat) (m : BTreeMap α β) (k : α) :
    (m[k]?.map f).getD 0 ≤ sumValues f m := by
  cases hk : m[k]? with
  | none => simp
  | some w =>
    have he := (((toList_perm_erase hk).map Prod.snd).map f).sum_nat
    simp only [List.map_cons, List.sum_cons] at he
    simp only [sumValues, valueList, he, Option.map_some, Option.getD_some]
    omega

omit [Std.LawfulEqOrd α] in
/-- Some of the values sum to no more than all of them. -/
theorem sumValues_filter_le (f : β → Nat) (p : α → β → Bool) (m : BTreeMap α β) :
    sumValues f (m.filter p) ≤ sumValues f m := by
  unfold sumValues valueList
  rw [Std.ExtTreeMap.toList_filter]
  -- by induction on the entries: each is kept or dropped
  induction m.toList with
  | nil => simp
  | cons e entries ih =>
    rw [List.filter_cons]
    split <;> simp only [List.map_cons, List.sum_cons] <;> omega

omit [Std.LawfulEqOrd α] in
/-- A sum over changed values is a sum over the values. -/
theorem sumValues_mapValues (f : γ → Nat) (g : β → γ) (m : BTreeMap α β) :
    sumValues f (mapValues g m) = sumValues (f ∘ g) m := by
  simp [sumValues, valueList, Function.comp_def]

omit [Std.LawfulEqOrd α] in
@[simp] theorem size_mapValues (g : β → γ) (m : BTreeMap α β) : (mapValues g m).size = m.size :=
  Std.ExtTreeMap.size_map

omit [Std.LawfulEqOrd α] in
/-- Counting values is summing indicators. -/
theorem countP_valueList (p : β → Bool) (m : BTreeMap α β) :
    (valueList m).countP p = sumValues (fun v => if p v then 1 else 0) m := by
  unfold sumValues
  induction valueList m with
  | nil => rfl
  | cons v vs ih =>
    rw [List.countP_cons, ih, List.map_cons, List.sum_cons]
    omega

/-! ## Equality -/

omit [Std.TransOrd α] in
private theorem lawful_compare [DecidableEq α] :
    Std.LawfulBEqCmp (compare : α → α → Ordering) :=
  ⟨by simp⟩

/-- Rebuilding a map from its ordered entries gives the map back. -/
theorem ofList_toList [DecidableEq α] (m : BTreeMap α β) :
    Std.ExtTreeMap.ofList m.toList compare = m := by
  have := lawful_compare (α := α)
  apply Std.ExtTreeMap.ext_getElem?
  intro k
  cases hk : m[k]? with
  | none =>
    refine Std.ExtTreeMap.getElem?_ofList_of_contains_eq_false ?_
    rw [Std.ExtTreeMap.map_fst_toList_eq_keys, Std.ExtTreeMap.contains_keys]
    have hmem : k ∉ m := by simpa using hk
    exact Bool.eq_false_iff.mpr fun h => hmem (Std.ExtTreeMap.mem_iff_contains.mpr h)
  | some v =>
    exact Std.ExtTreeMap.getElem?_ofList_of_mem (k := k) Std.ReflCmp.compare_self
      Std.ExtTreeMap.distinct_keys_toList
      (Std.ExtTreeMap.mem_toList_iff_getElem?_eq_some.mpr hk)

/-- A map is what it lists. -/
theorem toList_injective [DecidableEq α] {m m' : BTreeMap α β} (h : m.toList = m'.toList) :
    m = m' := by
  rw [← ofList_toList m, h, ofList_toList]

instance [DecidableEq α] [DecidableEq β] : DecidableEq (BTreeMap α β) := fun m m' =>
  decidable_of_iff (m.toList = m'.toList) ⟨toList_injective, fun h => h ▸ rfl⟩

end BTreeMap

namespace BTreeSet

variable {α : Type} [Ord α] [Std.TransOrd α] [Std.LawfulEqOrd α]

/-- Rebuilding a set from its ordered elements gives the set back. -/
theorem ofList_toList [DecidableEq α] (s : BTreeSet α) :
    Std.ExtTreeSet.ofList s.toList compare = s := by
  have : Std.LawfulBEqCmp (compare : α → α → Ordering) := ⟨by simp⟩
  apply Std.ExtTreeSet.ext_mem
  intro k
  rw [Std.ExtTreeSet.mem_ofList]
  simp

theorem toList_injective [DecidableEq α] {s s' : BTreeSet α} (h : s.toList = s'.toList) :
    s = s' := by
  rw [← ofList_toList s, h, ofList_toList]

instance [DecidableEq α] : DecidableEq (BTreeSet α) := fun s s' =>
  decidable_of_iff (s.toList = s'.toList) ⟨toList_injective, fun h => h ▸ rfl⟩

end BTreeSet

end WorkflowForge.Lib
