import Mathlib.Order.Cover
import Mathlib.Data.Char
import Mathlib.Data.String.Basic

/-!
# Prefixes and Ranges

In a lexicographic order the words with a given prefix are an interval. Where the last
letter of the prefix has an immediate successor, the interval ends at the same prefix with
that successor.

## Main results

- `append_prefix_iff`: a prefix is a range.
- `find?_prefix_iff`: the first word of the range decides whether any word has the prefix.
-/

namespace WorkflowForge.Lib

section Words

variable {α : Type} [LinearOrder α]

/-- The words that continue `p ++ [a]` are those from it up to `p ++ [b]`. -/
theorem append_prefix_iff {a b : α} (h : a ⋖ b) (p k : List α) :
    p ++ [a] <+: k ↔ p ++ [a] ≤ k ∧ k < p ++ [b] := by
  rw [← not_lt]
  -- by induction on the common part: each of its letters must agree
  induction p generalizing k with
  | nil =>
    cases k with
    | nil => simp
    | cons c cs =>
      have hlow : (c :: cs < [a]) ↔ c < a := by
        simp [List.cons_lt_cons_iff]
      have hhigh : (c :: cs < [b]) ↔ c < b := by
        simp [List.cons_lt_cons_iff]
      rw [List.nil_append, List.nil_append, hlow, hhigh, not_lt]
      constructor
      · intro hp
        obtain ⟨rfl, _⟩ := List.cons_prefix_cons.mp hp
        exact ⟨le_refl a, h.lt⟩
      · rintro ⟨hac, hcb⟩
        obtain rfl := (eq_or_lt_of_le hac).resolve_right fun hlt => h.2 hlt hcb
        exact List.cons_prefix_cons.mpr ⟨rfl, List.nil_prefix⟩
  | cons x p ih =>
    cases k with
    | nil => simp
    | cons c cs =>
      rw [List.cons_append, List.cons_append, List.cons_prefix_cons, ih,
        List.cons_lt_cons_iff, List.cons_lt_cons_iff]
      constructor
      · rintro ⟨rfl, hlow, hhigh⟩
        refine ⟨?_, .inr ⟨rfl, hhigh⟩⟩
        rintro (hlt | ⟨_, hlt⟩)
        · exact lt_irrefl _ hlt
        · exact hlow hlt
      · rintro ⟨hlow, hcx | ⟨rfl, hhigh⟩⟩
        · exact absurd (.inl hcx) hlow
        · exact ⟨rfl, fun hlt => hlow (.inr ⟨rfl, hlt⟩), hhigh⟩

end Words

section Strings

/-- The digit zero follows the slash. -/
theorem slash_covBy : '/' ⋖ '0' := by
  refine ⟨by decide, fun c h₁ h₂ => ?_⟩
  have h₁' : 47 < c.toNat := h₁
  have h₂' : c.toNat < 48 := h₂
  omega

/-- The strings below a path are the range from its slash to its zero. -/
theorem prefix_slash_iff (p k : String) :
    (p ++ "/").toList <+: k.toList ↔ p ++ "/" ≤ k ∧ k < p ++ "0" := by
  rw [String.le_iff_toList_le, String.lt_iff_toList_lt, String.toList_append,
    String.toList_append]
  exact append_prefix_iff slash_covBy p.toList k.toList

/-- The first key of an ordered list from a path's slash on decides whether any key is below
the path. -/
theorem find?_prefix_iff {keys : List String} (h : keys.Pairwise (· ≤ ·)) (p : String) :
    (∃ k, keys.find? (fun k => p ++ "/" ≤ k) = some k ∧ (p ++ "/").toList <+: k.toList) ↔
      ∃ k ∈ keys, (p ++ "/").toList <+: k.toList := by
  constructor
  · rintro ⟨k, hk, hp⟩
    exact ⟨k, List.mem_of_find?_eq_some hk, hp⟩
  · rintro ⟨k, hk, hp⟩
    obtain ⟨hle, hlt⟩ := (prefix_slash_iff p k).mp hp
    -- by induction on the list: the first key from the slash on is at most `k`
    induction keys with
    | nil => simp at hk
    | cons l ls ih =>
      obtain ⟨hfirst, hrest⟩ := List.pairwise_cons.mp h
      by_cases hl : p ++ "/" ≤ l
      · refine ⟨l, by simp [hl], ?_⟩
        have hlk : l ≤ k := by
          rcases List.mem_cons.mp hk with rfl | hk
          · exact le_refl _
          · exact hfirst k hk
        exact (prefix_slash_iff p l).mpr ⟨hl, lt_of_le_of_lt hlk hlt⟩
      · have hne : k ≠ l := fun hc => hl (hc ▸ hle)
        obtain ⟨k', hf, hp'⟩ := ih hrest ((List.mem_cons.mp hk).resolve_left hne)
        exact ⟨k', by simpa [List.find?_cons, hl] using hf, hp'⟩

end Strings

end WorkflowForge.Lib
