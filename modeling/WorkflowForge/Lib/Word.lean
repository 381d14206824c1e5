import Mathlib.Data.UInt

/-!
# Machine Words

Checked and saturating arithmetic on unsigned words of 64 and 32 bits, and what each
operation computes on the natural numbers.
-/

namespace WorkflowForge.Lib

/-- Addition that reports overflow. -/
def checkedAdd (a b : UInt64) : Option UInt64 :=
  if a.toNat + b.toNat < UInt64.size then some (a + b) else none

/-- Addition that stops at the largest word. -/
def saturatingAdd (a b : UInt64) : UInt64 :=
  UInt64.ofNat (min (a.toNat + b.toNat) (UInt64.size - 1))

/-- Subtraction that stops at zero. -/
def saturatingSub (a b : UInt64) : UInt64 :=
  UInt64.ofNat (a.toNat - b.toNat)

/-- Multiplication that stops at the largest word. -/
def saturatingMul (a b : UInt64) : UInt64 :=
  UInt64.ofNat (min (a.toNat * b.toNat) (UInt64.size - 1))

/-- A shift by the width of a word or more is reported. -/
def checkedShl (a : UInt64) (bits : UInt32) : Option UInt64 :=
  if bits.toNat < 64 then some (a <<< UInt64.ofNat bits.toNat) else none

/-- 32-bit addition that stops at the largest word. -/
def saturatingAdd32 (a b : UInt32) : UInt32 :=
  UInt32.ofNat (min (a.toNat + b.toNat) (UInt32.size - 1))

theorem checkedAdd_eq_some {a b c : UInt64} :
    checkedAdd a b = some c ↔ a.toNat + b.toNat = c.toNat := by
  unfold checkedAdd
  constructor
  · intro h
    split at h
    · rename_i hlt
      obtain rfl : a + b = c := by simpa using h
      simp only [UInt64.toNat_add]
      exact (Nat.mod_eq_of_lt hlt).symm
    · nomatch h
  · intro h
    have hlt : a.toNat + b.toNat < UInt64.size := h ▸ c.toNat_lt
    rw [if_pos hlt]
    congr 1
    apply UInt64.toNat_inj.mp
    simp only [UInt64.toNat_add]
    rw [← h]
    exact Nat.mod_eq_of_lt hlt

@[simp] theorem toNat_saturatingAdd (a b : UInt64) :
    (saturatingAdd a b).toNat = min (a.toNat + b.toNat) (UInt64.size - 1) := by
  have : UInt64.size = 2 ^ 64 := rfl
  simp only [saturatingAdd, UInt64.toNat_ofNat']
  apply Nat.mod_eq_of_lt
  omega

@[simp] theorem toNat_saturatingSub (a b : UInt64) :
    (saturatingSub a b).toNat = a.toNat - b.toNat := by
  have := a.toNat_lt
  simp only [saturatingSub, UInt64.toNat_ofNat']
  apply Nat.mod_eq_of_lt
  omega

@[simp] theorem toNat_saturatingMul (a b : UInt64) :
    (saturatingMul a b).toNat = min (a.toNat * b.toNat) (UInt64.size - 1) := by
  have : UInt64.size = 2 ^ 64 := rfl
  simp only [saturatingMul, UInt64.toNat_ofNat']
  apply Nat.mod_eq_of_lt
  omega

/-- One shifted by fewer bits than a word has is a power of two. -/
theorem checkedShl_one {bits : UInt32} (h : bits.toNat < 64) :
    ∃ word, checkedShl 1 bits = some word ∧ word.toNat = 2 ^ bits.toNat := by
  refine ⟨1 <<< UInt64.ofNat bits.toNat, by rw [checkedShl, if_pos h], ?_⟩
  have hpow : 2 ^ bits.toNat < 2 ^ 64 := Nat.pow_lt_pow_right (by decide) h
  have hbits : bits.toNat % 2 ^ 64 = bits.toNat := Nat.mod_eq_of_lt (by omega)
  rw [UInt64.toNat_shiftLeft, UInt64.toNat_ofNat', hbits, Nat.mod_eq_of_lt h, Nat.shiftLeft_eq]
  simpa using Nat.mod_eq_of_lt hpow

theorem le_saturatingAdd (a b : UInt64) : a ≤ saturatingAdd a b := by
  have := a.toNat_lt
  have hs : UInt64.size = 2 ^ 64 := rfl
  rw [UInt64.le_iff_toNat_le, toNat_saturatingAdd]
  omega

end WorkflowForge.Lib
