import WorkflowForge.Engine.Backoff
import WorkflowForge.System.Granted

/-!
# Attempts

How often one invocation is attempted. A new attempt is admitted by the worker that comes to
the record, after a boot or a release as well, and only its committed intent raises the
counter of the record. A failure, a recovery or a resolution decides whether there may be
another attempt, but never takes an attempt back.

## Main results

- `intend_step`: an intent either changes nothing, or is the next attempt of its record.
- `attempt_bound`: calls, counter and schedule of an invocation in every run.
-/

namespace WorkflowForge.Run

open Lib Engine

variable {s : Setup} {w w' : World} {a : Action} {key : String} {node : PreparedOperation}

/-- Every operation of the plan may be attempted at least once. -/
def Setup.Attemptable (s : Setup) : Prop :=
  ∀ (key : String) (node : PreparedOperation), s.operation key = some node →
    node.retry.maxAttempts ≠ 0

/-- A plan is prepared only with policies that allow an attempt. -/
theorem attemptable_of_prepared {validator : Validator} {c : Catalog} (hc : Assembled validator c)
    {d : WorkflowDefinition} {root : Engine.Plan} (h : prepare c d = .ok root)
    (hs : s.Runs root.body) : s.Attemptable := by
  obtain ⟨hclosed, -⟩ := prepare_closed hc.keyed hc.reports h
  intro key node hnode
  exact hclosed.attempts node (hs key node hnode)

/-! ## Counting intents -/

/-- One for an intent of this key that was committed. -/
def intents (key : String) (w w' : World) : Action → Nat
  | .intend node .. => if node = key ∧ w'.run.revision ≠ w.run.revision then 1 else 0
  | _ => 0

/-- Runs in which `n` intents of a key were committed. -/
inductive Counted (s : Setup) (key : String) : Nat → World → Prop where
  | started {w : World} (h : Started s w) : Counted s key 0 w
  | step {n : Nat} {w w' : World} {a : Action} (h : Counted s key n w)
      (allowed : Admissible s w a) (hs : w.step s a = some w') :
      Counted s key (n + intents key w w' a) w'

theorem Counted.reachable {n : Nat} (h : Counted s key n w) : Reachable s w := by
  induction h with
  | started h => exact System.ReachableBy.init h
  | step _ allowed hs ih => exact ih.step allowed hs

/-- Every reachable world is counted. -/
theorem Reachable.counted (hr : Reachable s w) (key : String) : ∃ n, Counted s key n w := by
  apply hr.invariant (P := fun w => ∃ n, Counted s key n w)
  · intro w h
    exact ⟨0, .started h⟩
  · rintro w a w' - ⟨n, hn⟩ ha h
    exact ⟨_, .step hn ha h⟩

/-! ## The counter of a record -/

/-- An intent either changes nothing, or commits the next attempt of its record. -/
theorem intend_step {attempt : String} {input : Value} {cancelled : Bool}
    (h : w.step s (.intend key attempt input cancelled) = some w') :
    w'.run = w.run ∨ ∃ node, s.operation key = some node ∧ w.workers[key]? = none ∧
      admitAttempt node w.run.head (w.record key) w.now cancelled = .ok () ∧
      w'.run.revision ≠ w.run.revision ∧
      ∀ k : String, w'.run.invocations[k]? =
        if key = k then some (intentRecord (s.logical w.run.id key) attempt node input
          (w.record key))
        else w.run.invocations[k]? := by
  rcases step_run h with ⟨hrun, -⟩ | ⟨edited, revision, hedit, hrevision, hrun, -⟩
  · exact .inl hrun
  · right
    -- a commit raises the revision
    have hne : w'.run.revision ≠ w.run.revision := by
      intro heq
      have hadd := checkedAdd_eq_some.mp hrevision
      rw [hrun] at heq
      change revision = _ at heq
      rw [heq] at hadd
      change _ + 1 = _ at hadd
      omega
    rw [hrun] at hne ⊢
    generalize hx : Action.intend key attempt input cancelled = a at hedit
    -- the action is an intent, so the edit is one too
    cases hedit with
    | operation live edit =>
      cases edit with
      | intend working operation alone unused turn admitted =>
        obtain ⟨rfl, rfl, rfl, rfl⟩ := Action.intend.inj hx
        exact ⟨_, operation, alone, admitted, hne, fun k => RunSnapshot.setRecord_get k⟩
      | succeed => nomatch hx
      | fail reported => cases reported <;> nomatch hx
    | control _ _ _ edit => cases edit <;> nomatch hx
    | waited _ _ edit => cases edit <;> nomatch hx
    | _ => nomatch hx

theorem admitAttempt_eq_ok {run : RunHead} {previous : Option InvocationRecord} {now : UInt64}
    {cancelled : Bool} (h : admitAttempt node run previous now cancelled = .ok ()) :
    ∀ r, previous = some r → r.attempts < node.retry.maxAttempts := by
  unfold admitAttempt at h
  split at h
  · nomatch h
  · split at h
    · nomatch h
    · split at h
      · nomatch h
      next hbudget =>
        rintro r rfl
        simpa using hbudget

/-- An admitted attempt is one more than before, within the policy. -/
theorem intentRecord_attempts {logical attempt : String} {input : Value}
    {previous : Option InvocationRecord} (hmax : node.retry.maxAttempts ≠ 0)
    (h : ∀ r, previous = some r → r.attempts < node.retry.maxAttempts) :
    (intentRecord logical attempt node input previous).attempts.toNat =
        (previous.map fun r => r.attempts.toNat).getD 0 + 1 ∧
      (intentRecord logical attempt node input previous).attempts.toNat ≤
        node.retry.maxAttempts.toNat := by
  have hsize := node.retry.maxAttempts.toNat_lt
  have hpos : 0 < node.retry.maxAttempts.toNat :=
    Nat.pos_of_ne_zero fun h0 => hmax (UInt32.toNat_inj.mp h0)
  cases previous with
  | none => exact ⟨rfl, hpos⟩
  | some r =>
    have hlt := UInt32.lt_iff_toNat_lt.mp (h r rfl)
    -- the counter is below the bound of a 32-bit policy, so it does not saturate
    have hnext : (saturatingAdd32 r.attempts 1).toNat = r.attempts.toNat + 1 := by
      unfold saturatingAdd32
      have hone : (1 : UInt32).toNat = 1 := rfl
      rw [hone, UInt32.toNat_ofNat_of_lt' (by simp only [UInt32.size]; omega)]
      simp only [UInt32.size]
      omega
    change (saturatingAdd32 r.attempts 1).toNat = _ ∧ (saturatingAdd32 r.attempts 1).toNat ≤ _
    rw [hnext]
    exact ⟨rfl, by omega⟩

/-- Nothing but an intent changes the counter of an operation. -/
theorem RecordStep.attempts {r : InvocationRecord} (h : RecordStep s w a key (some r))
    (hnode : s.operation key = some node)
    (ha : ∀ attempt input cancelled, a ≠ .intend key attempt input cancelled) :
    ∃ old, w.run.invocations[key]? = some old ∧ r.attempts = old.attempts := by
  generalize hx : some r = x at h
  cases h with
  | same => exact ⟨r, hx.symm, rfl⟩
  | operation edit =>
    obtain rfl := Option.some.inj hx
    cases edit with
    -- only an intent counts
    | intend => exact absurd rfl (ha _ _ _)
    | succeed _ _ _ found => exact ⟨_, found, rfl⟩
    | fail _ found => exact ⟨_, found, rfl⟩
  | other edit =>
    rw [edit.node] at hnode
    nomatch hnode
  | @marked old _ _ _ found =>
    obtain rfl := Option.some.inj hx
    refine ⟨old, found, ?_⟩
    -- marking a record changes its state only
    unfold markUnknown
    split <;> rfl
  | @resolved c old r' _ _ _ _ _ found _ _ edit =>
    obtain rfl := Option.some.inj hx
    exact ⟨old, found, by cases edit <;> rfl⟩

/-- A retry is scheduled for a time before the deadline, or it was before. -/
theorem RecordStep.due {r : InvocationRecord} (h : RecordStep s w a key (some r))
    (hnode : s.operation key = some node) {due : UInt64} (hdue : r.nextAttemptAtMs = some due) :
    due < w.run.deadlineAtMs ∨
      ∃ old, w.run.invocations[key]? = some old ∧ old.nextAttemptAtMs = some due := by
  generalize hx : some r = x at h
  cases h with
  | same => exact .inr ⟨r, hx.symm, hdue⟩
  | operation edit =>
    obtain rfl := Option.some.inj hx
    cases edit with
    -- a new attempt is not scheduled
    | intend => nomatch hdue
    | succeed _ _ _ found => exact .inr ⟨_, found, hdue⟩
    -- a retry is scheduled only when it is due before the deadline
    | fail _ found =>
      exact .inl (UInt64.lt_iff_toNat_lt.mpr (schedule_eq_some hdue).2)
  -- the node is an operation
  | other edit =>
    rw [edit.node] at hnode
    nomatch hnode
  | @marked old _ _ _ found =>
    obtain rfl := Option.some.inj hx
    refine .inr ⟨old, found, ?_⟩
    unfold markUnknown at hdue
    split at hdue <;> exact hdue
  | @resolved c old r' _ _ _ _ _ found _ _ edit =>
    obtain rfl := Option.some.inj hx
    cases edit with
    | applied => nomatch hdue
    | invalid => exact .inr ⟨old, found, hdue⟩
    | retry => nomatch hdue
    | failed => nomatch hdue

theorem RecordStep.vacant (h : RecordStep s w a key none) : w.run.invocations[key]? = none := by
  generalize hx : (none : Option InvocationRecord) = x at h
  cases h with
  | same => rfl
  | _ => nomatch hx

/-! ## Calls -/

/-- One for a worker that is about to call. -/
def aboutToCall : Option Worker → Nat
  | some (.authorized _) => 1
  | _ => 0

/-- What was counted of an operation. -/
structure CountsInv (w : World) (key : String) (node : PreparedOperation) (n : Nat) : Prop where
  recorded : ∀ r, w.run.invocations[key]? = some r → r.attempts.toNat = n
  vacant : w.run.invocations[key]? = none → n = 0
  bounded : n ≤ node.retry.maxAttempts.toNat
  called : (w.log.filterMap (callOf key)).length + aboutToCall w.workers[key]? ≤ n
  timely : ∀ r due, w.run.invocations[key]? = some r → r.nextAttemptAtMs = some due →
    due < w.run.deadlineAtMs

section Step

variable {n : Nat} (inv : CountsInv w key node n) (h : w.step s a = some w')
include inv h

/-- A step that commits no intent of the key leaves its counter. -/
theorem counter_step (hnode : s.operation key = some node)
    (ha : ∀ attempt input cancelled, a ≠ .intend key attempt input cancelled) :
    (∀ r, w'.run.invocations[key]? = some r → r.attempts.toNat = n) ∧
      (w'.run.invocations[key]? = none → n = 0) := by
  have hrecord := step_record h key
  refine ⟨fun r hget => ?_, fun hget => ?_⟩
  · rw [hget] at hrecord
    obtain ⟨old, hold, hattempts⟩ := hrecord.attempts hnode ha
    rw [hattempts]
    exact inv.recorded old hold
  · rw [hget] at hrecord
    exact inv.vacant hrecord.vacant

theorem timely_step (hr : Reachable s w) (hnode : s.operation key = some node)
    (r : InvocationRecord) (due : UInt64)
    (hget : w'.run.invocations[key]? = some r) (hdue : r.nextAttemptAtMs = some due) :
    due < w'.run.deadlineAtMs := by
  rw [← (hr.step_extends h).deadline]
  have hrecord := step_record h key
  rw [hget] at hrecord
  rcases hrecord.due hnode hdue with hbefore | ⟨old, hold, hdue⟩
  · exact hbefore
  · exact inv.timely old due hold hdue

/-- A worker of a committed attempt may call it once. -/
theorem called_step (ha : ∀ attempt input cancelled, a ≠ .intend key attempt input cancelled) :
    (w'.log.filterMap (callOf key)).length + aboutToCall w'.workers[key]? ≤ n := by
  have hcalled := inv.called
  have hworker := step_worker h key
  generalize hx : w'.workers[key]? = x at hworker
  have hlog := step_calls h key
  -- nothing was called, or not here, or here
  rcases hlog with ⟨hlog, hno⟩ | ⟨e, hlog, he, hno⟩ | ⟨op, record, rfl, -, hauthorized, hlog⟩
  · rw [hlog]
    cases hworker with
    | same => exact hcalled
    | authorized => exact absurd rfl (ha _ _ _)
    | called => exact absurd rfl (hno key)
    | _ => simp only [aboutToCall]; omega
  · rw [hlog, List.filterMap_cons_none he]
    cases hworker with
    | same => exact hcalled
    | authorized => exact absurd rfl (ha _ _ _)
    | called => exact absurd rfl hno
    | _ => simp only [aboutToCall]; omega
  · -- the call of an authorized attempt
    rw [hauthorized] at hcalled
    have hone : callOf key (.called key (command record op)) = some (command record op) := by
      simp [callOf]
    rw [hlog, List.filterMap_cons_some hone, List.length_cons]
    cases hworker with
    | same _ other => exact absurd rfl other
    | called => simp only [aboutToCall] at hcalled ⊢; omega

end Step

/-- Every step keeps the counts. -/
theorem CountsInv.step {n : Nat} (inv : CountsInv w key node n) (hr : Reachable s w)
    (hnode : s.operation key = some node) (hmax : node.retry.maxAttempts ≠ 0)
    (h : w.step s a = some w') : CountsInv w' key node (n + intents key w w' a) := by
  by_cases ha : ∀ attempt input cancelled, a ≠ .intend key attempt input cancelled
  · have hnone : intents key w w' a = 0 := by
      cases a with
      | intend k attempt input cancelled =>
        have hk : k ≠ key := fun heq => ha attempt input cancelled (heq ▸ rfl)
        simp [intents, hk]
      | _ => rfl
    rw [hnone, Nat.add_zero]
    obtain ⟨hrecorded, hvacant⟩ := counter_step inv h hnode ha
    exact ⟨hrecorded, hvacant, inv.bounded, called_step inv h ha,
      timely_step inv h hr hnode⟩
  · simp only [ne_eq, not_forall, not_not] at ha
    obtain ⟨attempt, input, cancelled, rfl⟩ := ha
    have hcalled := inv.called
    have hlog : w'.log.filterMap (callOf key) = w.log.filterMap (callOf key) := by
      rcases step_calls h key with ⟨hlog, -⟩ | ⟨e, hlog, he, -⟩ | ⟨_, _, hcall, -⟩
      · rw [hlog]
      · rw [hlog, List.filterMap_cons_none he]
      · cases hcall
    rcases intend_step h with hrun | ⟨op, hop, halone, hadmitted, hne, hrecords⟩
    · -- the intent was declined
      have hnone : intents key w w' (.intend key attempt input cancelled) = 0 := by
        simp [intents, hrun]
      rw [hnone, Nat.add_zero]
      refine ⟨?_, ?_, inv.bounded, ?_, timely_step inv h hr hnode⟩
      · rw [hrun]
        exact inv.recorded
      · rw [hrun]
        exact inv.vacant
      · rw [hlog]
        have hworker := step_worker h key
        generalize hx : w'.workers[key]? = x at hworker
        cases hworker with
        | same => exact hcalled
        | authorized _ _ turn _ _ found _ running =>
          -- a record that may be attempted is not running yet
          rw [hrun] at found
          rcases resume_eq_proceed turn with hnew | ⟨old, hold, hstate⟩
          · rw [World.record, found] at hnew
            cases hnew
          · obtain rfl := Option.some.inj (found.symm.trans hold)
            rw [running] at hstate
            rcases hstate with hstate | hstate <;> cases hstate
    · obtain rfl : op = node := Option.some.inj (hop.symm.trans hnode)
      have hone : intents key w w' (.intend key attempt input cancelled) = 1 := by
        simp [intents, hne]
      rw [hone]
      obtain ⟨hnext, hle⟩ := @intentRecord_attempts op (s.logical w.run.id key) attempt input
        (w.record key) hmax (admitAttempt_eq_ok hadmitted)
      have hbefore : ((w.record key).map fun r => r.attempts.toNat).getD 0 = n := by
        change ((w.run.invocations[key]?).map fun r => r.attempts.toNat).getD 0 = n
        cases hold : w.run.invocations[key]? with
        | none => exact (inv.vacant hold).symm
        | some old => exact inv.recorded old hold
      rw [hbefore] at hnext
      have hget := hrecords key
      rw [if_pos rfl] at hget
      refine ⟨fun r hr' => ?_, fun hnone => ?_, ?_, ?_, timely_step inv h hr hnode⟩
      · rw [hget] at hr'
        obtain rfl := Option.some.inj hr'
        exact hnext
      · rw [hget] at hnone
        cases hnone
      · rw [← hnext]
        exact hle
      · rw [halone] at hcalled
        rw [hlog]
        have hle : aboutToCall w'.workers[key]? ≤ 1 := by
          unfold aboutToCall
          split <;> omega
        simp only [aboutToCall] at hcalled
        omega

theorem Counted.inv {n : Nat} (h : Counted s key n w) (hnode : s.operation key = some node)
    (hmax : node.retry.maxAttempts ≠ 0) : CountsInv w key node n := by
  induction h with
  | @started w h =>
    have hempty : w.run.invocations = ∅ := h.initial.invocations
    obtain ⟨-, -, hworkers, -, hlog⟩ := h.fresh
    refine ⟨fun r hget => ?_, fun _ => rfl, Nat.zero_le _, ?_, fun r due hget => ?_⟩
    · rw [hempty] at hget
      simp at hget
    · rw [hlog, hworkers]
      simp [aboutToCall]
    · rw [hempty] at hget
      simp at hget
  | step hcounted _ hs ih => exact ih.step hcounted.reachable hnode hmax hs

/-! ## The bound -/

/-- What holds of the attempts of every operation after a run in which `n` intents of it were
committed. -/
structure AttemptLaw (w : World) (key : String) (node : PreparedOperation) (n : Nat) : Prop where
  /-- An invocation is called at most once for each intent, and within its policy. -/
  dispatches : (w.log.filterMap (callOf key)).length ≤ n ∧ n ≤ node.retry.maxAttempts.toNat
  counter : (w.run.invocations[key]?).elim 0 (fun r => r.attempts.toNat) = n
  timely : ∀ r due, w.run.invocations[key]? = some r → r.nextAttemptAtMs = some due →
    due < w.run.deadlineAtMs

/-- In every run of a plan with any outcomes, crashes, boots, recoveries and commands, an
invocation is called at most as often as its policy allows attempts, the counter of its record
is the number of intents that were committed, and a retry is scheduled before the deadline. A
prepared plan has only policies that allow an attempt. -/
theorem attempt_bound (hs : s.Attemptable) :
    (∀ key n w, Counted s key n w → ∀ node, s.operation key = some node →
      AttemptLaw w key node n) ∧
    (∀ w, Reachable s w → ∀ key, ∃ n, Counted s key n w) ∧
    ∀ (validator : Validator) (c : Catalog) (d : WorkflowDefinition) (root : Engine.Plan),
      Assembled validator c → prepare c d = .ok root →
        ∀ s' : Setup, s'.Runs root.body → s'.Attemptable := by
  refine ⟨fun key n w hcounted node hnode => ?_, fun w hr key => hr.counted key,
    fun validator c d root hc hp s' hruns => attemptable_of_prepared hc hp hruns⟩
  have inv := hcounted.inv hnode (hs key node hnode)
  have hcalled := inv.called
  refine ⟨⟨by omega, inv.bounded⟩, ?_, inv.timely⟩
  cases hget : w.run.invocations[key]? with
  | none => exact (inv.vacant hget).symm
  | some r => exact inv.recorded r hget

/-- The lost attempt of the sample plan is attempted once more after a report released it. -/
theorem attempt_bound_sample :
    ∃ w n, (w.log.filterMap (callOf "pay")).length = 2 ∧ AttemptLaw w "pay" sampleNode n := by
  obtain ⟨w₀, w, hr, hl, -, hw⟩ := @sample_run _ _ (fun _ => ())
    (fun w => (w.log.filterMap (callOf "pay")).length) () 2 sampleLost
    [sampleReconcile "c1" (.confirmNotApplied sampleEvidence true true), .take, .begin,
      .intend "pay" "a2" .null false, .call "pay"]
    (by simp [SampleActions, sampleLost, sampleReconcile]) (by decide +kernel)
    (by decide +kernel)
  have hs : sampleSetup.Attemptable := by
    intro key node hnode
    rw [sample_operation hnode]
    decide
  obtain ⟨hlaw, hcounted, -⟩ := attempt_bound hs
  obtain ⟨n, hn⟩ := hcounted w (hr.leads hl) "pay"
  exact ⟨w, n, hw, hlaw "pay" n w hn sampleNode rfl⟩

end WorkflowForge.Run
