import WorkflowForge.System.Invariants

/-!
# Certainty of Effects

What is known of the effect of an invocation only grows: a record that may have been applied
is never taken back by another attempt, by a cancellation or by a recovery. Only a caller
who reports that nothing was applied, and that nothing is in flight any more, can do so, and
only before the effect was confirmed.

## Main results

- `Reachable.certain`: what the state of a record says about its effect.
- `RecordStep.certainty`: what one step makes of the certainty of a record.
- `certainty_ratchet`: what a whole run makes of it.
-/

namespace WorkflowForge.Run

open Lib Engine

variable {s : Setup} {w w' w₁ w₂ : World} {a : Action} {key : String}

/-! ## One record -/

/-- What the state of a record says about its effect. -/
structure Certain (s : Setup) (key : String) (r : InvocationRecord) : Prop where
  settled : r.state = .failed ∨ r.state = .cancelled ∨ r.state = .pending →
    r.certainty = .notApplied
  harmless : ∀ node, s.operation key = some node → node.operation.descriptor.effect ≠ .write →
    r.certainty = .notApplied ∧ r.state ≠ .unknown
  confirmed : ∀ node, s.operation key = some node → node.operation.descriptor.effect = .write →
    r.state = .succeeded → r.certainty = .applied
  scheduled : ∀ node, s.operation key = some node → node.operation.descriptor.effect = .write →
    node.operation.descriptor.repetition = .unsafe_ → r.state = .retryScheduled →
    r.certainty = .notApplied

/-- A record of a node that no worker calls. -/
theorem Plain.certain {r : InvocationRecord} (h : Plain r) (hn : s.operation key = none) :
    Certain s key r := by
  refine ⟨fun _ => h.certainty, fun node hnode => ?_, fun node hnode => ?_,
    fun node hnode => ?_⟩
  · rw [hn] at hnode
    nomatch hnode
  · rw [hn] at hnode
    nomatch hnode
  · rw [hn] at hnode
    nomatch hnode

/-- The record of a failed attempt. -/
theorem Certain.ofFailed {node : PreparedOperation} (hn : s.operation key = some node)
    {descriptor : OperationDescriptor}
    (heffect : node.operation.descriptor.effect = descriptor.effect)
    (hrepetition : node.operation.descriptor.repetition = descriptor.repetition)
    {report : FailureReport} {run : RunHead} {now later delay : UInt64}
    {old : InvocationRecord} :
    Certain s key (failedRecord key descriptor report run now later delay old) := by
  refine ⟨fun h => ?_, fun node' hn' hw => ?_, fun node' hn' hw h => ?_,
    fun node' hn' hw hu h => ?_⟩
  · rcases h with h | h | h
    · exact failedRecord_settled (.inl h)
    · exact failedRecord_settled (.inr h)
    · exact absurd h failedRecord_state_ne.2.2
  · obtain rfl := Option.some.inj (hn.symm.trans hn')
    rw [heffect] at hw
    refine ⟨?_, fun h => hw (failedRecord_unknown h)⟩
    -- what does not write leaves nothing unknown
    rw [failedRecord_certainty]
    exact failureCertainty_of_not_write hw
  · exact absurd h failedRecord_state_ne.1
  · obtain rfl := Option.some.inj (hn.symm.trans hn')
    exact failedRecord_retry_unsafe (heffect ▸ hw) (hrepetition ▸ hu) h

/-- A step keeps what the state of a record says about its effect. -/
theorem Reachable.step_certain (hr : Reachable s w) {r : InvocationRecord}
    (h : RecordStep s w a key (some r))
    (hold : ∀ old, w.run.invocations[key]? = some old → Certain s key old) :
    Certain s key r := by
  generalize hx : some r = x at h
  cases h with
  | same => exact hold r hx.symm
  | operation edit =>
    obtain rfl := Option.some.inj hx
    cases edit with
    | @intend c attempt input cancelled node working operation =>
      refine ⟨by simp [intentRecord], fun node' hn' hw => ⟨?_, by simp [intentRecord]⟩,
        by simp [intentRecord], by simp [intentRecord]⟩
      -- what earlier attempts left uncertain stays uncertain
      simp only [intentRecord, World.record]
      cases hprevious : w.run.invocations[key]? with
      | none => rfl
      | some old => exact ((hold old hprevious).harmless node' hn' hw).1
    | @succeed c attempt value node old working operation =>
      refine ⟨by simp [succeededRecord], fun node' hn' hw => ⟨?_, by simp [succeededRecord]⟩,
        fun node' hn' hw _ => ?_, by simp [succeededRecord]⟩
      · obtain rfl := Option.some.inj (operation.symm.trans hn')
        simp [succeededRecord, hw]
      · obtain rfl := Option.some.inj (operation.symm.trans hn')
        simp [succeededRecord, hw]
    | fail reported =>
      obtain ⟨node, hn, heffect, hrepetition⟩ := hr.reported reported
      exact .ofFailed hn heffect hrepetition
  | other edit =>
    obtain rfl := Option.some.inj hx
    exact (edit.plain fun old hold => hr.shape hold).certain edit.node
  | @marked old error cancelled action found =>
    obtain rfl := Option.some.inj hx
    have inv := hold old found
    rcases markUnknown_cases old with ⟨-, heq⟩ | ⟨-, heq⟩ | ⟨-, hc, heq⟩
    · rw [heq]
      exact inv
    · rw [heq]
      exact inv
    · rw [heq]
      refine ⟨by simp, fun node hn hw => ?_, by simp, by simp⟩
      exact absurd (inv.harmless node hn hw).1 hc
  | @resolved c old r' phase access command action running found isNamed blocked edit =>
    obtain rfl := Option.some.inj hx
    have inv := hold old found
    simp only [named, decide_eq_true_eq] at isNamed
    -- only a write is ever unknown
    have hwrite : ∀ node, s.operation key = some node →
        node.operation.descriptor.effect ≠ .write → False :=
      fun node hn hw => (inv.harmless node hn hw).2 isNamed.2.2
    cases edit with
    | applied =>
      refine ⟨by simp [appliedRecord], fun node hn hw => (hwrite node hn hw).elim,
        by simp [appliedRecord], by simp [appliedRecord]⟩
    | invalid =>
      have hstate : ∀ error, (invalidRecord error old).state = .unknown := fun _ => isNamed.2.2
      refine ⟨by simp [hstate], fun node hn hw => (hwrite node hn hw).elim, by simp [hstate],
        by simp [hstate]⟩
    | retry =>
      exact ⟨fun _ => rfl, fun node hn hw => (hwrite node hn hw).elim, by simp [retryRecord],
        by simp [retryRecord]⟩
    | failed =>
      exact ⟨fun _ => rfl, fun node hn hw => (hwrite node hn hw).elim,
        by simp [notAppliedRecord], by simp [notAppliedRecord]⟩

/-- What the state of a record of a reachable run says about its effect. -/
theorem Reachable.certain (hr : Reachable s w) {r : InvocationRecord}
    (h : w.run.invocations[key]? = some r) : Certain s key r := by
  have hall : ∀ key r, w.run.invocations[key]? = some r → Certain s key r := by
    apply hr.invariant (P := fun w => ∀ key r, w.run.invocations[key]? = some r → Certain s key r)
    · intro w h key r hr
      simp [h.initial.invocations] at hr
    · intro w a w' hreach inv _ h key r hr
      have hstep := step_record h key
      rw [hr] at hstep
      exact hreach.step_certain hstep (inv key)
  exact hall key r h

/-! ## One step -/

/-- A report that an effect was not applied, by somebody who holds that nothing of it is in
flight any more. -/
def Withdraws (command : ReconcileCommand) : Prop :=
  ∃ evidence retry, command.resolution = .confirmNotApplied evidence true retry

/-- What one step makes of the certainty of a record. -/
theorem Reachable.step_certainty (hr : Reachable s w) {old r : InvocationRecord}
    (hold : w.run.invocations[key]? = some old) (h : RecordStep s w a key (some r)) :
    (old.certainty = .applied → r.certainty = .applied) ∧
      (old.certainty ≠ .notApplied → r.certainty = .notApplied →
        ∃ phase access command, a = .reconcile phase access command ∧ Withdraws command ∧
          named command old = true ∧ old.certainty ≠ .applied) := by
  have inv := hr.certain hold
  generalize hx : some r = x at h
  cases h with
  | same =>
    obtain rfl := Option.some.inj (hx.trans hold)
    exact ⟨fun h => h, fun hne h => absurd h hne⟩
  | operation edit =>
    obtain rfl := Option.some.inj hx
    cases edit with
    -- an intent carries the certainty over to its attempt
    | intend =>
      have hkept : ∀ logical attempt node input,
          (intentRecord logical attempt node input (w.record key)).certainty = old.certainty := by
        intro logical attempt node input
        simp [intentRecord, World.record, hold]
      exact ⟨fun h => (hkept ..).trans h, fun hne h => absurd ((hkept ..).symm.trans h) hne⟩
    -- a write that succeeded was applied, and other effects have none
    | @succeed c attempt value node old' working operation worker found =>
      obtain rfl := Option.some.inj (hold.symm.trans found)
      by_cases hw : node.operation.descriptor.effect = .write
      · have happlied : (succeededRecord node.operation.descriptor.effect value old).certainty =
            .applied := by simp [succeededRecord, hw]
        exact ⟨fun _ => happlied, fun _ h => absurd (happlied.symm.trans h) (by simp)⟩
      · have hnone := (inv.harmless node operation hw).1
        exact ⟨fun h => absurd (hnone.symm.trans h) (by simp), fun hne => absurd hnone hne⟩
    -- a failed write becomes certain only as its report says
    | @fail a attempt descriptor report later delay old' reported found =>
      obtain rfl := Option.some.inj (hold.symm.trans found)
      obtain ⟨node, hn, heffect, -⟩ := hr.reported reported
      rw [failedRecord_certainty]
      by_cases hw : descriptor.effect = .write
      · refine ⟨fun h => failureCertainty_applied hw h, fun hne h => ?_⟩
        exact absurd (failureCertainty_eq_notApplied hw h).1 hne
      · have hnone := (inv.harmless node hn (heffect ▸ hw)).1
        exact ⟨fun h => absurd (hnone.symm.trans h) (by simp), fun hne => absurd hnone hne⟩
  | other edit =>
    obtain rfl := Option.some.inj hx
    have hkept := (edit.kept old hold).2.1
    exact ⟨fun h => hkept.trans h, fun hne h => absurd (hkept.symm.trans h) hne⟩
  -- the end of a run changes no certainty
  | @marked old' error cancelled action found =>
    obtain rfl := Option.some.inj hx
    obtain rfl := Option.some.inj (hold.symm.trans found)
    have hkept : (markUnknown old).certainty = old.certainty := by
      unfold markUnknown
      split <;> rfl
    exact ⟨fun h => hkept.trans h, fun hne h => absurd (hkept.symm.trans h) hne⟩
  | @resolved c old' r' phase access command action running found isNamed blocked edit =>
    obtain rfl := Option.some.inj hx
    obtain rfl := Option.some.inj (hold.symm.trans found)
    cases edit with
    | applied => exact ⟨fun _ => rfl, fun _ h => by cases h⟩
    | invalid => exact ⟨fun _ => rfl, fun _ h => by cases h⟩
    -- only these two reports withdraw an effect
    | @retry evidence hcommand certainty =>
      exact ⟨fun h => absurd h certainty,
        fun _ _ => ⟨phase, access, command, action, ⟨evidence, true, hcommand⟩, isNamed, certainty⟩⟩
    | @failed evidence retry hcommand certainty =>
      exact ⟨fun h => absurd h certainty,
        fun _ _ =>
          ⟨phase, access, command, action, ⟨evidence, retry, hcommand⟩, isNamed, certainty⟩⟩

/-! ## A whole run -/

/-- Between two worlds of a run, a report was committed that the effect of `key` was not
applied: it named the attempt of an uncertain record that was not confirmed. -/
def Withdrawn (s : Setup) (key : String) (w w' : World) : Prop :=
  ∃ w₁ w₂ phase access command receipt r,
    (system s).Leads (Admissible s) w w₁ ∧
      w₁.step s (.reconcile phase access command) = some w₂ ∧
      (system s).Leads (Admissible s) w₂ w' ∧ w₂.log = .reconciled command receipt :: w₁.log ∧
      Withdraws command ∧ w₁.run.invocations[key]? = some r ∧ named command r = true ∧
      r.certainty ≠ .applied

/-- What a run makes of what is known of its effects, from one world of it to a later one. -/
structure CertaintyLaw (s : Setup) (w w' : World) : Prop where
  /-- A confirmed effect stays confirmed. -/
  applied : ∀ (key : String) (r : InvocationRecord),
    w.run.invocations[key]? = some r → r.certainty = .applied →
    ∃ r', w'.run.invocations[key]? = some r' ∧ r'.certainty = .applied
  /-- An effect that may have been applied is taken back only by a committed report. -/
  withdrawn : ∀ (key : String) (r r' : InvocationRecord),
    w.run.invocations[key]? = some r → r.certainty ≠ .notApplied →
    w'.run.invocations[key]? = some r' → r'.certainty = .notApplied → Withdrawn s key w w'
  /-- An invocation that ended without success, or that waits to be tried, was not applied. -/
  settled : ∀ (key : String) (r : InvocationRecord), w'.run.invocations[key]? = some r →
    r.state = .failed ∨ r.state = .cancelled ∨ r.state = .pending → r.certainty = .notApplied
  /-- Only a write is ever uncertain. -/
  harmless : ∀ key node r, s.operation key = some node →
    node.operation.descriptor.effect ≠ .write → w'.run.invocations[key]? = some r →
    r.certainty = .notApplied ∧ r.state ≠ .unknown

/-- No step removes a record. -/
theorem RecordStep.isSome {x : Option InvocationRecord} (h : RecordStep s w a key x)
    {old : InvocationRecord} (hold : w.run.invocations[key]? = some old) : ∃ r, x = some r := by
  cases h with
  | same => exact ⟨old, hold⟩
  | _ => exact ⟨_, rfl⟩

/-- No run removes a record. -/
theorem leads_record (hl : (system s).Leads (Admissible s) w w') {r : InvocationRecord}
    (h : w.run.invocations[key]? = some r) : ∃ r', w'.run.invocations[key]? = some r' := by
  induction hl with
  | refl => exact ⟨r, h⟩
  | tail _ hn ih =>
    obtain ⟨r₁, h₁⟩ := ih
    obtain ⟨a, -, hs⟩ := hn
    exact (step_record hs key).isSome h₁

/-- A report that changed the certainty of a record was committed. -/
theorem reconcile_committed {phase : Phase} {access : AccessContext} {command : ReconcileCommand}
    (h : w.step s (.reconcile phase access command) = some w') (hne : w'.run ≠ w.run) :
    ∃ receipt, w'.log = .reconciled command receipt :: w.log := by
  have hlog := step_log h
  generalize hx : w'.log = x at hlog
  cases hlog with
  | same _ _ _ unresolved => exact absurd (unresolved phase access command rfl) hne
  | reconciled => exact ⟨_, rfl⟩

theorem Reachable.certainty_applied (hr : Reachable s w)
    (hl : (system s).Leads (Admissible s) w w') {r : InvocationRecord}
    (h : w.run.invocations[key]? = some r) (hc : r.certainty = .applied) :
    ∃ r', w'.run.invocations[key]? = some r' ∧ r'.certainty = .applied := by
  -- by induction on the run
  induction hl with
  | refl => exact ⟨r, h, hc⟩
  | @tail w₁ w₂ hl hn ih =>
    obtain ⟨r₁, h₁, hc₁⟩ := ih
    obtain ⟨a, -, hs⟩ := hn
    have hstep := step_record hs key
    obtain ⟨r₂, h₂⟩ := hstep.isSome h₁
    rw [h₂] at hstep
    exact ⟨r₂, h₂, ((hr.leads hl).step_certainty h₁ hstep).1 hc₁⟩

theorem Reachable.certainty_withdrawn (hr : Reachable s w)
    (hl : (system s).Leads (Admissible s) w w') {r r' : InvocationRecord}
    (h : w.run.invocations[key]? = some r) (hc : r.certainty ≠ .notApplied)
    (h' : w'.run.invocations[key]? = some r') (hc' : r'.certainty = .notApplied) :
    Withdrawn s key w w' := by
  -- the first step after which nothing was applied any more is the report
  induction hl generalizing r' with
  | refl =>
    obtain rfl := Option.some.inj (h.symm.trans h')
    exact absurd hc' hc
  | @tail w₁ w₂ hl hn ih =>
    have hn' := hn
    obtain ⟨a, hadmissible, hs⟩ := hn
    have hstep := step_record hs key
    rw [h'] at hstep
    obtain ⟨r₁, h₁⟩ := leads_record hl h
    by_cases hc₁ : r₁.certainty = .notApplied
    · obtain ⟨v₁, v₂, phase, access, command, receipt, old, hl₁, hv, hl₂, hrest⟩ := ih h₁ hc₁
      exact ⟨v₁, v₂, phase, access, command, receipt, old, hl₁, hv, hl₂.tail hn', hrest⟩
    · obtain ⟨phase, access, command, rfl, hwithdraws, hnamed, happlied⟩ :=
        ((hr.leads hl).step_certainty h₁ hstep).2 hc₁ hc'
      have hne : w₂.run ≠ w₁.run := by
        intro heq
        rw [heq, h₁] at h'
        obtain rfl := Option.some.inj h'
        exact hc₁ hc'
      obtain ⟨receipt, hlog⟩ := reconcile_committed hs hne
      exact ⟨w₁, w₂, phase, access, command, receipt, r₁, hl, hs, .refl w₂, hlog, hwithdraws, h₁,
        hnamed, happlied⟩

/-- The certainty of effects only grows along a run, unless a caller reports otherwise. -/
theorem certainty_ratchet (hr : Reachable s w) (hl : (system s).Leads (Admissible s) w w') :
    CertaintyLaw s w w' where
  applied _ _ h hc := hr.certainty_applied hl h hc
  withdrawn _ _ _ h hc h' hc' := hr.certainty_withdrawn hl h hc h' hc'
  settled _ _ h hs := ((hr.leads hl).certain h).settled hs
  harmless _ node _ hn hw h := ((hr.leads hl).certain h).harmless node hn hw

/-- The lost attempt of the sample plan, before and after it is reported as not applied. -/
theorem certainty_ratchet_sample :
    ∃ w w', (w.record "pay").map InvocationRecord.certainty = some .unknown ∧
      (w'.record "pay").map InvocationRecord.certainty = some .notApplied ∧
      CertaintyLaw sampleSetup w w' := by
  obtain ⟨w, w', hr, hl, hw, hw'⟩ := @sample_run _ _
    (fun w => (w.record "pay").map InvocationRecord.certainty)
    (fun w => (w.record "pay").map InvocationRecord.certainty) (some .unknown) (some .notApplied)
    sampleLost [sampleReconcile "c1" (.confirmNotApplied sampleEvidence true true)]
    (by simp [SampleActions, sampleLost, sampleReconcile]) (by decide +kernel)
    (by decide +kernel)
  exact ⟨w, w', hw, hw', certainty_ratchet hr hl⟩

end WorkflowForge.Run
