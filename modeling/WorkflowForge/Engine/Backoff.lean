import WorkflowForge.Engine.Steps

/-!
# Exponential Backoff

The delay before the next attempt: doubled after every attempt up to a maximum, and drawn
uniformly below that by the entropy of the caller where the policy asks for jitter. The
source multiplies in machine words that saturate and in a wide product; over the integers it
is the plain formula.

## Main results

- `toNat_bound`, `toNat_delayMs`: the delay over the integers.
- `backoff_exact`: the formula, its growth, the range of jitter, and the retry time it gives.
-/

namespace WorkflowForge.Engine

open Lib

namespace ExponentialBackoff

/-! ## The strategy -/

/-- How many times the first delay fits into the delay after `completedAttempt` attempts. -/
def multiplier (completedAttempt : UInt32) : UInt64 :=
  (checkedShl 1 (UInt32.ofNat (completedAttempt.toNat - 1))).getD (UInt64.ofNat (2 ^ 64 - 1))

/-- The delay without jitter. -/
def bound (policy : RetryPolicy) (completedAttempt : UInt32) : UInt64 :=
  min (saturatingMul policy.initialDelayMs (multiplier completedAttempt)) policy.maxDelayMs

/-- The product of 128 bits that jitter divides. -/
def jitterProduct (bound entropy : UInt64) : Nat :=
  bound.toNat * entropy.toNat % 2 ^ 128

def delayMs (policy : RetryPolicy) (completedAttempt : UInt32) (entropy : UInt64) : UInt64 :=
  if policy.jitter then
    UInt64.ofNat (jitterProduct (bound policy completedAttempt) entropy / (2 ^ 64 - 1))
  else bound policy completedAttempt

/-! ## Over the integers -/

/-- The delay without jitter that the policy describes. -/
def exactDelay (policy : RetryPolicy) (completedAttempt : UInt32) : Nat :=
  min (policy.initialDelayMs.toNat * 2 ^ (completedAttempt.toNat - 1)) policy.maxDelayMs.toNat

theorem toNat_min (a b : UInt64) : (min a b).toNat = min a.toNat b.toNat := by
  by_cases h : a ≤ b
  · have h' : a.toNat ≤ b.toNat := UInt64.le_iff_toNat_le.mp h
    change (if a ≤ b then a else b).toNat = _
    rw [if_pos h, Nat.min_eq_left h']
  · have h' : b.toNat ≤ a.toNat := by
      rw [UInt64.le_iff_toNat_le] at h
      omega
    change (if a ≤ b then a else b).toNat = _
    rw [if_neg h, Nat.min_eq_right h']

variable (policy : RetryPolicy) (k : UInt32) (entropy : UInt64)

/-- The multiplier is the power of two, or more than any delay that is not zero. -/
theorem multiplier_cases :
    (multiplier k).toNat = 2 ^ (k.toNat - 1) ∨
      ((multiplier k).toNat = 2 ^ 64 - 1 ∧ 2 ^ 64 ≤ 2 ^ (k.toNat - 1)) := by
  have hk := k.toNat_lt
  have hbits : (UInt32.ofNat (k.toNat - 1)).toNat = k.toNat - 1 := by
    rw [UInt32.toNat_ofNat']
    exact Nat.mod_eq_of_lt (by omega)
  by_cases h : k.toNat - 1 < 64
  · obtain ⟨word, hword, hpow⟩ := checkedShl_one (hbits ▸ h)
    refine .inl ?_
    rw [multiplier, hword, Option.getD_some, hpow, hbits]
  · refine .inr ⟨?_, Nat.pow_le_pow_right (by decide) (Nat.le_of_not_lt h)⟩
    rw [multiplier, checkedShl, hbits, if_neg h]
    rfl

theorem toNat_bound : (bound policy k).toNat = exactDelay policy k := by
  have hmax := policy.maxDelayMs.toNat_lt
  have hsize : UInt64.size = 2 ^ 64 := rfl
  rw [bound, toNat_min, toNat_saturatingMul, exactDelay]
  obtain hmul | ⟨hmul, hpow⟩ := multiplier_cases k
  · rw [hmul]
    omega
  · rw [hmul]
    by_cases hzero : policy.initialDelayMs.toNat = 0
    · simp [hzero]
    · -- both products pass every word, so both are cut to the maximum
      have hleft : 2 ^ 64 - 1 ≤ policy.initialDelayMs.toNat * (2 ^ 64 - 1) :=
        Nat.le_mul_of_pos_left _ (Nat.pos_of_ne_zero hzero)
      have hright : 2 ^ (k.toNat - 1) ≤ policy.initialDelayMs.toNat * 2 ^ (k.toNat - 1) :=
        Nat.le_mul_of_pos_left _ (Nat.pos_of_ne_zero hzero)
      omega

theorem jitterProduct_eq (a b : UInt64) : jitterProduct a b = a.toNat * b.toNat := by
  have hmul : a.toNat * b.toNat < 2 ^ 64 * 2 ^ 64 :=
    Nat.mul_lt_mul_of_lt_of_lt a.toNat_lt b.toNat_lt
  exact Nat.mod_eq_of_lt (by omega)

/-- A word is a fraction of itself under jitter. -/
theorem jitter_le (a b : UInt64) : a.toNat * b.toNat / (2 ^ 64 - 1) ≤ a.toNat := by
  have hb := b.toNat_lt
  apply Nat.div_le_of_le_mul
  rw [Nat.mul_comm]
  exact Nat.mul_le_mul_right _ (by omega)

theorem toNat_delayMs :
    (delayMs policy k entropy).toNat =
      if policy.jitter then exactDelay policy k * entropy.toNat / (2 ^ 64 - 1)
      else exactDelay policy k := by
  unfold delayMs
  split
  · have hle := jitter_le (bound policy k) entropy
    have hlt := (bound policy k).toNat_lt
    rw [jitterProduct_eq, UInt64.toNat_ofNat', Nat.mod_eq_of_lt (by omega), toNat_bound]
  · exact toNat_bound policy k

theorem exactDelay_mono {k' : UInt32} (h : k ≤ k') :
    exactDelay policy k ≤ exactDelay policy k' := by
  have hk : k.toNat ≤ k'.toNat := UInt32.le_iff_toNat_le.mp h
  have hpow : 2 ^ (k.toNat - 1) ≤ 2 ^ (k'.toNat - 1) :=
    Nat.pow_le_pow_right (by decide) (by omega)
  have hmul := Nat.mul_le_mul_left policy.initialDelayMs.toNat hpow
  unfold exactDelay
  omega

theorem exactDelay_lt : exactDelay policy k < 2 ^ 64 := by
  have := policy.maxDelayMs.toNat_lt
  unfold exactDelay
  omega

end ExponentialBackoff

/-! ## The retry time -/

open ExponentialBackoff

/-- A retry is scheduled only before the deadline, at a time that did not saturate. -/
theorem schedule_eq_some {decision : FailureDecision} {certainty : EffectCertainty}
    {record : InvocationRecord} {run : RunHead} {later delay due : UInt64}
    (h : (schedule decision certainty record run later delay).2 = some due) :
    due.toNat = later.toNat + min delay.toNat record.retry.maxDelayMs.toNat ∧
      due.toNat < run.deadlineAtMs.toNat := by
  have hsize : UInt64.size = 2 ^ 64 := rfl
  unfold schedule at h
  split at h
  · dsimp only at h
    split at h
    · nomatch h
    next hbefore =>
      obtain rfl := Option.some.inj h
      have hdeadline := run.deadlineAtMs.toNat_lt
      rw [UInt64.le_iff_toNat_le, toNat_saturatingAdd, toNat_min] at hbefore
      rw [toNat_saturatingAdd, toNat_min]
      omega
  · nomatch h

/-- The delay is the formula of its policy over the integers: nothing overflows on the way.
It grows with the attempts, jitter stays at or below it and can reach it, and a retry is
scheduled only where the delay ends before the deadline of the run. -/
theorem backoff_exact (policy : RetryPolicy) (k : UInt32) (entropy : UInt64) :
    exactDelay policy k * entropy.toNat < 2 ^ 128 ∧
    (delayMs policy k entropy).toNat =
      (if policy.jitter then exactDelay policy k * entropy.toNat / (2 ^ 64 - 1)
        else exactDelay policy k) ∧
    (∀ k', k ≤ k' → exactDelay policy k ≤ exactDelay policy k') ∧
    (delayMs policy k entropy).toNat ≤ exactDelay policy k ∧
    (delayMs policy k (UInt64.ofNat (2 ^ 64 - 1))).toNat = exactDelay policy k ∧
    ∀ (key : String) (descriptor : OperationDescriptor) (failure : FailureReport) (run : RunHead)
      (now later due : UInt64) (record : InvocationRecord),
      (failedRecord key descriptor failure run now later
        (delayMs record.retry record.attempts entropy) record).nextAttemptAtMs = some due →
      due.toNat = later.toNat + (delayMs record.retry record.attempts entropy).toNat ∧
        later.toNat + (delayMs record.retry record.attempts entropy).toNat <
          run.deadlineAtMs.toNat := by
  -- jitter takes a fraction of the exact delay
  have hbelow : ∀ (p : RetryPolicy) (n : UInt32) (e : UInt64),
      (delayMs p n e).toNat ≤ exactDelay p n := by
    intro p n e
    rw [toNat_delayMs]
    split
    · rw [← toNat_bound]
      exact jitter_le _ _
    · exact Nat.le_refl _
  refine ⟨?_, toNat_delayMs policy k entropy, fun k' h => exactDelay_mono policy k h,
    hbelow policy k entropy, ?_, ?_⟩
  -- a product of two 64-bit numbers has 128 bits
  · have hmul : exactDelay policy k * entropy.toNat < 2 ^ 64 * 2 ^ 64 :=
      Nat.mul_lt_mul_of_lt_of_lt (exactDelay_lt policy k) entropy.toNat_lt
    omega
  · have hfull : (UInt64.ofNat (2 ^ 64 - 1)).toNat = 2 ^ 64 - 1 := rfl
    rw [toNat_delayMs, hfull, Nat.mul_div_cancel _ (by decide), ite_self]
  · intro key descriptor failure run now later due record h
    obtain ⟨hdue, hbefore⟩ := schedule_eq_some h
    have hle : (delayMs record.retry record.attempts entropy).toNat ≤
        record.retry.maxDelayMs.toNat :=
      Nat.le_trans (hbelow _ _ _) (Nat.min_le_right _ _)
    rw [Nat.min_eq_left hle] at hdue
    exact ⟨hdue, hdue ▸ hbefore⟩

end WorkflowForge.Engine
