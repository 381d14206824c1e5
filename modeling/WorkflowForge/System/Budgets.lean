import WorkflowForge.Engine.Coordinator
import WorkflowForge.Engine.Waits
import WorkflowForge.System.Clients

/-!
# The Budgets of a Run

A run has at most so many invocation records, waits and audit entries. Each of them is added
by a call that counted them on the snapshot it read. Clients are interleaved in any way
between their reads and their commits, so two of them can find the same free slot; the count
still holds, because a commit is accepted on the snapshot its client had read and on no other.

## Main results

- `Call.OfEngine.on`, `stopGroup_on`: the updates of the engine leave alone what those of the
  clients have to.
- `RunChange.within`: no change of a whole run exceeds the budgets it starts within.
- `run_budgets`: every snapshot of a run is within the budgets.
-/

namespace WorkflowForge.Clients

open Lib Engine MemoryExecutionStore

/-! ## What the engine changes -/

/-- A replacement of a whole run as the engine decides it. Tokens, clocks and errors are
whatever the call found. -/
inductive RunChange (limits : Limits) (run : RunSnapshot) : RunSnapshot → Prop where
  | begun : RunChange limits run (beginRun run)
  | suspended : RunChange limits run (suspendRun run)
  | blocked {error : ForgeError} : RunChange limits run (blockRun error run)
  | recovered : RunChange limits run (recoveredRun run)
  | finished {error : ForgeError} {cancelled : Bool} {now : UInt64} :
      RunChange limits run (finishError error cancelled now run)
  | concluded {value : Value} {now later : UInt64} {cancelled : Bool} {head : RunHead}
      {next : RunSnapshot}
      (h : completeRun limits value now later cancelled run head = .ok (some next)) :
      RunChange limits run next
  | cancelled {next : RunSnapshot} (h : cancel run = .ok (some next)) : RunChange limits run next
  | stopped {key : String} {frame : ControlFrame} {next : RunSnapshot}
      (h : stopGroup limits key frame run = .ok (some next)) : RunChange limits run next
  | reserved {logical id key : String} {kind : WaitKind} {duration now : UInt64} {input : Value}
      {cancelled : Bool} {next : RunSnapshot}
      (h : reserve limits logical id key kind duration input now cancelled run =
        .ok (some next)) : RunChange limits run next
  | confirmed {id : String} {next : RunSnapshot} (h : confirmStart id run = .ok (some next)) :
      RunChange limits run next
  | expired {id : String} {now : UInt64} {next : RunSnapshot}
      (h : expire id now run = .ok (some next)) : RunChange limits run next
  | consumed {key id : String} {input : Value} {now : UInt64} {cancelled : Bool}
      {next : RunSnapshot}
      (h : consume limits key id input now cancelled run = .ok (some next)) :
      RunChange limits run next
  | ended {key id : String} {error : ForgeError} {next : RunSnapshot}
      (h : endWait key id error run = .ok (some next)) : RunChange limits run next
  | observed {observation : LateObservation} {next : RunSnapshot}
      (h : observeLate limits (.late observation) run = .ok (some next)) :
      RunChange limits run next

section

variable {limits : Limits} {run next : RunSnapshot} {key id : String}

/-- The frame of a group holds no document, nor does a frame that compares equal to it. -/
theorem zeros_of_group {old : Option ControlFrame} {frame : ControlFrame}
    (hgroup : (saved frame).isSome) (hsame : Same .source old (some frame)) :
    (old.map ControlFrame.negativeZeros).getD 0 = frame.negativeZeros := by
  obtain ⟨previous, rfl, hsame⟩ := same_some_iff.mp hsame
  rw [Option.map_some, Option.getD_some]
  cases frame with
  | parallel =>
    cases previous with
    | loop => cases hsame
    | _ => rfl
  | foreach =>
    cases previous with
    | loop => cases hsame
    | _ => rfl
  | _ => nomatch hgroup

/-- The stop of a group keeps the zeros: the frame it saves has none. -/
theorem keeps_of_stopGroup {frame : ControlFrame}
    (h : stopGroup limits key frame run = .ok (some next)) (hgroup : (saved frame).isSome) :
    Keeps run next := by
  obtain ⟨record, hr, rfl, -⟩ := stopGroup_eq_some h
  refine ⟨rfl, rfl, fun _ _ hsame => ?_⟩
  have hnew : (stoppedRun key frame record run).invocations[key]? =
      some { record with control := some frame } := BTreeMap.get_insert_self _ key _
  have hrecord := hsame.get key
  rw [hr, hnew] at hrecord
  obtain ⟨old, hold, hrecord⟩ := same_some_iff.mp hrecord
  obtain rfl := Option.some.inj hold
  have hcontrol : Same .source record.control (some frame) :=
    congrArg InvocationRecord.control hrecord
  refine KeepsZeros.of_record rfl hr rfl ?_ hsame
  simp only [InvocationRecord.negativeZeros, Option.map_some, Option.getD_some,
    zeros_of_group hgroup hcontrol]

/-- A wait is consumed under its own node, or the store refuses the replacement: a consumed wait
and the success of its record go together, and the record had not succeeded before. -/
theorem keeps_of_consume {input : Value} {now : UInt64} {cancelled : Bool}
    (h : consume limits key id input now cancelled run = .ok (some next))
    (inv : WaitsInv .source run) : Keeps run next := by
  obtain ⟨-, -, -, wait, hw, hopen, ⟨-, rfl⟩ | ⟨output, record, -, hr, rfl, -⟩⟩ :=
    consume_eq_some h
  · exact ⟨rfl, rfl, fun _ _ => .of_eq rfl rfl⟩
  · obtain ⟨owner, law⟩ := inv.wait id wait hw
    -- the wait is open, so its record has not succeeded
    have howner : owner.state ≠ .succeeded := by
      intro hstate
      have hconsumed := law.state.mp hstate
      rw [hopen] at hconsumed
      cases hconsumed
    refine ⟨rfl, rfl, fun revision accepted => ?_⟩
    by_cases hnode : wait.node = key
    · refine .of_state (BTreeMap.get_insert_self _ key _) fun old hold => ?_
      have hfound := law.found
      rw [hnode, hold] at hfound
      obtain rfl := Option.some.inj hfound
      exact howner
    -- under another node the record of the wait would have to have succeeded already
    · obtain ⟨after, hlaw⟩ := accepted.waits.wait id { wait with state := .consumed }
        (BTreeMap.get_insert_self _ id _)
      have hafter : after.state = .succeeded := hlaw.state.mpr rfl
      have hfound : run.invocations[wait.node]? = some after := by
        have hfound := hlaw.found
        simp only [RunSnapshot.atRevision, consumedRun, RunSnapshot.setWait,
          RunSnapshot.setRecord] at hfound
        rwa [BTreeMap.get_insert, if_neg (Ne.symm hnode)] at hfound
      rw [law.found] at hfound
      obtain rfl := Option.some.inj hfound
      exact absurd hafter howner

/-- An error marks records, which changes their state at most. -/
theorem keeps_finishError {error : ForgeError} {cancelled : Bool} {now : UInt64} :
    Keeps run (finishError error cancelled now run) := by
  have hmarked : ∀ key : String, run.invocations[key]?.map InvocationRecord.negativeZeros =
      (markedRun run).invocations[key]?.map InvocationRecord.negativeZeros := by
    intro key
    simp only [markedRun, BTreeMap.get_mapValues, Option.map_map]
    congr 1
    funext record
    simp only [Function.comp, markUnknown]
    split <;> rfl
  unfold finishError
  dsimp only
  split
  · exact ⟨rfl, rfl, fun _ _ => .of_records rfl hmarked⟩
  · exact ⟨rfl, rfl, fun _ _ => .of_records rfl hmarked⟩

/-- The changes of the engine keep the zeros, the stop of a group when it does. -/
theorem RunChange.keeps (hc : RunChange limits run next) (inv : WaitsInv .source run)
    (hstop : ∀ key frame, stopGroup limits key frame run = .ok (some next) → Keeps run next) :
    Keeps run next := by
  cases hc with
  -- a change of the state touches no record
  | begun =>
    unfold beginRun
    split <;> exact ⟨rfl, rfl, fun _ _ => .of_eq rfl rfl⟩
  | suspended =>
    unfold suspendRun
    split <;> exact ⟨rfl, rfl, fun _ _ => .of_eq rfl rfl⟩
  | blocked => exact ⟨rfl, rfl, fun _ _ => .of_eq rfl rfl⟩
  | recovered => exact ⟨rfl, rfl, fun _ _ => .of_eq rfl rfl⟩
  | finished => exact keeps_finishError
  | concluded hc =>
    obtain rfl := Option.some.inj (Except.ok.inj hc)
    exact ⟨rfl, rfl, fun _ _ => .of_eq rfl rfl⟩
  | cancelled hc =>
    unfold cancel at hc
    split at hc
    · cases hc
    · obtain rfl := Option.some.inj (Except.ok.inj hc)
      exact ⟨rfl, rfl, fun _ _ => .of_eq rfl rfl⟩
  | stopped hc => exact hstop _ _ hc
  -- the record of a reservation is new
  | reserved hc =>
    obtain ⟨-, hnone, -, -, -, -, -, rfl, -⟩ := reserve_eq_some hc
    refine ⟨rfl, rfl, fun _ _ => .of_state (BTreeMap.get_insert_self _ _ _) fun old hold => ?_⟩
    rw [hnone] at hold
    cases hold
  | confirmed hc =>
    obtain ⟨wait, hw, -, -, rfl⟩ := confirmStart_eq_some hc
    exact ⟨rfl, rfl, fun _ _ => .of_eq rfl rfl⟩
  | expired hc =>
    obtain ⟨wait, hw, -, -, -, rfl⟩ := expire_eq_some hc
    exact ⟨rfl, rfl, fun _ _ => .of_eq rfl rfl⟩
  | consumed hc => exact keeps_of_consume hc inv
  -- an ended wait keeps the data of its record
  | ended hc =>
    obtain ⟨wait, record, hw, -, hr, rfl⟩ := endWait_eq_some hc
    exact ⟨rfl, rfl, fun _ _ => .of_record rfl hr rfl rfl⟩
  | observed hc =>
    unfold observeLate at hc
    split at hc
    · cases hc
    · obtain rfl := Option.some.inj (Except.ok.inj hc)
      exact ⟨rfl, rfl, fun _ _ => .of_eq rfl rfl⟩

end

/-- A call the engine makes: an update of a whole run is one of its changes. -/
def Call.OfEngine (limits : Limits) : Call → Prop
  | .update _ edit => ∀ now run head next, edit now run head = .ok (some next) →
      RunChange limits run next
  | .updateNode .. | .signal .. | .reconcile .. => True

section

variable {limits : Limits} {id : RunId} {allow : Bool}

/-- The stop of a group is an update that clients may make. -/
theorem stopGroup_on {key : String} {frame : ControlFrame} (hgroup : (saved frame).isSome) :
    (Call.update allow fun _ run _ => stopGroup limits key frame run).On id :=
  fun _ _ _ _ _ hedit => keeps_of_stopGroup hedit hgroup

/-- So is every other change of a whole run by the engine. -/
theorem Call.OfEngine.on {edit : UInt64 → RunEdit} (h : (Call.update allow edit).OfEngine limits)
    (hstop : ∀ now run head next key frame, edit now run head = .ok (some next) →
      stopGroup limits key frame run = .ok (some next) → Keeps run next) :
    (Call.update allow edit).On id :=
  fun now run head next hwaits hedit => (h now run head next hedit).keeps hwaits
    fun key frame => hstop now run head next key frame hedit

end

/-! ## Budgets -/

/-- A run within its budgets. -/
structure Within (limits : Limits) (run : RunSnapshot) : Prop where
  activations : run.invocations.size ≤ limits.activations
  waits : run.waits.size ≤ limits.waitsPerRun
  audit : run.audit.length ≤ limits.auditEntries

section

variable {limits : Limits} {run next : RunSnapshot} {key id : String} {wait : WaitRecord}
  {record : InvocationRecord}

theorem Within.initial (h : run.InitialLaw) : Within limits run where
  activations := by simp [h.invocations]
  waits := by simp [h.waits]
  audit := by simp [h.audit]

/-- A run that grew in nothing. -/
theorem Within.same (h : Within limits run)
    (invocations : next.invocations.size ≤ run.invocations.size)
    (waits : next.waits.size ≤ run.waits.size) (audit : next.audit = run.audit) :
    Within limits next where
  activations := invocations.trans h.activations
  waits := waits.trans h.waits
  audit := audit ▸ h.audit

/-- A replaced entry takes no slot. -/
theorem size_insert_of_get {β : Type} {m : BTreeMap String β} {k : String} {old v : β}
    (h : m[k]? = some old) : (m.insert k v).size = m.size := by
  have hmem : m.contains k = true := by
    rw [Std.ExtTreeMap.contains_eq_isSome_getElem?, h]
    rfl
  rw [Std.ExtTreeMap.size_insert, if_pos hmem]

theorem size_setRecord (h : run.invocations[key]?.isSome) :
    (run.setRecord key record).invocations.size = run.invocations.size := by
  obtain ⟨old, hold⟩ := Option.isSome_iff_exists.mp h
  exact size_insert_of_get hold

theorem size_setWait (h : run.waits[id]?.isSome) :
    (run.setWait id wait).waits.size = run.waits.size := by
  obtain ⟨old, hold⟩ := Option.isSome_iff_exists.mp h
  exact size_insert_of_get hold

theorem size_finishError {error : ForgeError} {cancelled : Bool} {now : UInt64} :
    (finishError error cancelled now run).invocations.size = run.invocations.size ∧
      (finishError error cancelled now run).waits.size = run.waits.size ∧
      (finishError error cancelled now run).audit = run.audit := by
  unfold finishError
  dsimp only
  split
  · simp [blockedByEffect, markedRun]
  · simp [endedByError, markedRun, RunSnapshot.closeWaits]

/-- No change of a whole run exceeds the budgets: a reservation and a late observation count
before they add, every other change replaces what is there. -/
theorem RunChange.within (hc : RunChange limits run next) (h : Within limits run) :
    Within limits next := by
  cases hc with
  | begun =>
    unfold beginRun
    split
    · exact h
    · exact h.same le_rfl le_rfl rfl
  | suspended =>
    unfold suspendRun
    split
    · exact h
    · exact h.same le_rfl le_rfl rfl
  | blocked => exact h.same le_rfl le_rfl rfl
  | recovered => exact h.same le_rfl le_rfl rfl
  | finished =>
    obtain ⟨hi, hw, ha⟩ := size_finishError
    exact h.same hi.le hw.le ha
  | concluded hc =>
    obtain rfl := Option.some.inj (Except.ok.inj hc)
    exact h.same le_rfl (by simp [endedWith, RunSnapshot.closeWaits]) rfl
  | cancelled hc =>
    unfold cancel at hc
    split at hc
    · nomatch hc
    · obtain rfl := Option.some.inj (Except.ok.inj hc)
      exact h.same le_rfl (by simp [cancelRun, RunSnapshot.closeWaits]) rfl
  | stopped hc =>
    obtain ⟨record, hr, rfl, -⟩ := stopGroup_eq_some hc
    exact h.same (size_setRecord (by rw [hr]; rfl)).le (by simp [stoppedRun]) rfl
  | reserved hc =>
    -- the only change that adds a record or a wait, counted on the run it changes
    obtain ⟨-, -, -, -, hwaits, hactivations, -, rfl, -⟩ := reserve_eq_some hc
    exact ⟨Std.ExtTreeMap.size_insert_le.trans hactivations,
      Std.ExtTreeMap.size_insert_le.trans hwaits, h.audit⟩
  | confirmed hc =>
    obtain ⟨wait, hw, -, -, rfl⟩ := confirmStart_eq_some hc
    exact h.same le_rfl (size_setWait (by rw [hw]; rfl)).le rfl
  | expired hc =>
    obtain ⟨wait, hw, -, -, -, rfl⟩ := expire_eq_some hc
    exact h.same le_rfl (size_setWait (by rw [hw]; rfl)).le rfl
  | consumed hc =>
    obtain ⟨-, -, -, wait, hw, -, ⟨-, rfl⟩ | ⟨output, record, -, hr, rfl, -⟩⟩ := consume_eq_some hc
    · exact h.same le_rfl (size_setWait (by rw [hw]; rfl)).le rfl
    · exact h.same (size_insert_of_get hr).le (size_setWait (by rw [hw]; rfl)).le rfl
  | ended hc =>
    obtain ⟨wait, record, hw, -, hr, rfl⟩ := endWait_eq_some hc
    exact h.same (size_insert_of_get hr).le (size_setWait (by rw [hw]; rfl)).le rfl
  | observed hc =>
    -- the audit is counted on the run it is added to
    unfold observeLate at hc
    split at hc
    · nomatch hc
    next hroom =>
      obtain rfl := Option.some.inj (Except.ok.inj hc)
      refine ⟨h.activations, h.waits, ?_⟩
      have hcount := (not_or.mp hroom).1
      simp only [List.length_append, List.length_singleton]
      omega

end

section Commits

variable {c : Composition} {call : Call} {answer : Answer} {prev next : RunSnapshot}

/-- A resolution replaces the record it names. -/
theorem within_of_reconcile {access : AccessContext} {command : ReconcileCommand} {now : UInt64}
    {receipt : ReconcileReceipt} {key : String} {record : InvocationRecord}
    {resolved : Resolved} {revision : UInt64}
    (law : ReconcileLaw c access command now prev receipt next key record resolved revision)
    (h : Within c.limits prev) : Within c.limits next := by
  obtain ⟨-, hnext⟩ := Prod.mk.inj law.result
  -- a resolution replaces a record or closes waits, and adds none
  have hresolved : resolved.1.invocations.size ≤ prev.invocations.size ∧
      resolved.1.waits.size = prev.waits.size ∧ resolved.1.audit = prev.audit := by
    have hset : ∀ r, (prev.setRecord key r).invocations.size ≤ prev.invocations.size :=
      fun r => (size_insert_of_get law.found).le
    cases law.resolution with
    | applied => exact ⟨hset _, rfl, rfl⟩
    | invalid => exact ⟨hset _, rfl, rfl⟩
    | retry => exact ⟨hset _, rfl, rfl⟩
    | failed => exact ⟨hset _, rfl, rfl⟩
    | blocked => exact ⟨le_rfl, rfl, rfl⟩
    | stopped => exact ⟨le_rfl, by simp [untrackedRun, RunSnapshot.closeWaits], rfl⟩
  -- the run is unblocked beside them
  have hunblock : (unblock resolved.1).invocations = resolved.1.invocations ∧
      (unblock resolved.1).waits = resolved.1.waits ∧
      (unblock resolved.1).audit = resolved.1.audit := by
    unfold unblock
    split <;> exact ⟨rfl, rfl, rfl⟩
  obtain ⟨hi, hw, ha⟩ := hunblock
  subst hnext
  refine ⟨?_, ?_, ?_⟩
  · rw [hi]
    exact hresolved.1.trans h.activations
  · rw [hw, hresolved.2.1]
    exact h.waits
  -- one entry more in the audit, for which there was room
  · have hroom := law.room
    simp only [List.length_append, List.length_singleton]
    rw [ha, hresolved.2.2]
    omega

/-- A commit leaves a run within the budgets of the snapshot it was decided on. -/
theorem Applied.within (ha : Applied c call answer prev next) (hcall : call.OfEngine c.limits)
    (h : Within c.limits prev) : Within c.limits next := by
  cases ha with
  | update hdecided =>
    obtain ⟨-, edited, revision, hedit, -, rfl⟩ := updateWithView_eq_some hdecided
    obtain ⟨hi, hw, ha⟩ := (hcall _ _ _ _ hedit).within h
    exact ⟨hi, hw, ha⟩
  | @updateNode key checkBudget edit now prev next record revision hdecided hnext hcount =>
    subst hnext
    refine ⟨?_, h.waits, h.audit⟩
    -- a record of a new node was counted, any other one is replaced
    cases hr : prev.invocations[key]? with
    | none => exact Std.ExtTreeMap.size_insert_le.trans (hcount hr)
    | some old => exact (size_insert_of_get hr).le.trans h.activations
  | signal hdecided =>
    obtain ⟨_, _, hd⟩ := bind_eq_ok.mp hdecided
    obtain ⟨checked, _, hd⟩ := bind_eq_ok.mp hd
    obtain ⟨run', hread, hd⟩ := bind_eq_ok.mp hd
    obtain ⟨_, hrun⟩ := read_eq_ok hread
    rw [hrun] at hd
    obtain ⟨wait, law⟩ := deliver_eq_some hd
    obtain ⟨revision, -, rfl⟩ := law.replaced
    exact h.same le_rfl (size_insert_of_get law.found).le rfl
  | reconcile hdecided =>
    obtain ⟨key, record, resolved, revision, law⟩ := reconcile_eq_some hdecided
    exact within_of_reconcile law h

/-- Commits lead from a run within the budgets through runs within them. -/
theorem Linked.within {ι : Type} {first last : Option RunSnapshot} {ledger : List (Commit ι)}
    (hl : Linked c first ledger last) (hcalls : ∀ commit ∈ ledger, commit.call.OfEngine c.limits)
    (hfirst : ∀ s ∈ first, Within c.limits s) :
    (∀ s ∈ last, Within c.limits s) ∧
      ∀ commit ∈ ledger, ∀ s ∈ commit.after, Within c.limits s := by
  induction hl with
  | nil =>
    refine ⟨hfirst, ?_⟩
    intro commit hmem
    nomatch hmem
  -- the commits before lead to a run within the budgets, from which one more leads on
  | @cons ledger commit prev next _ hafter _ happlied _ ih =>
    have holder : ∀ x ∈ ledger, x.call.OfEngine c.limits := by
      intro x hx
      exact hcalls x (List.mem_cons_of_mem commit hx)
    obtain ⟨hprev, hledger⟩ := ih holder
    have hnext : Within c.limits next :=
      happlied.within (hcalls commit (List.mem_cons_self ..)) (hprev prev rfl)
    refine ⟨?_, ?_⟩
    · intro s hs
      obtain rfl := Option.some.inj hs
      exact hnext
    · intro x hx s hs
      rcases List.mem_cons.mp hx with rfl | hx
      · rw [hafter] at hs
        obtain rfl := Option.some.inj hs
        exact hnext
      · exact hledger x hx s hs

end Commits

section Runs

variable {ι : Type} [DecidableEq ι] {c : Composition} {owner : String} {id : RunId}
  {w₀ w w' : World ι}

/-- A client keeps its call. -/
theorem step_call {a : Action ι} (h : World.step c owner id w a = some w') (i : ι) :
    (w'.clients i).call = (w.clients i).call := by
  -- a settled call stays the same call
  have hsettle : ∀ store stage, ((w.settle a.client store stage).clients i).call =
      (w.clients i).call := by
    intro store stage
    by_cases hi : i = a.client
    · subst hi
      rw [settle_self]
    · rw [settle_other w a.client store stage hi]
  unfold World.step at h
  dsimp only at h
  split at h
  · obtain rfl := Option.some.inj h
    exact hsettle _ _
  · split at h
    · obtain rfl := Option.some.inj h
      exact hsettle _ _
    · nomatch h
  · split at h
    next store _ =>
      obtain rfl := Option.some.inj h
      exact hsettle store _
    next store e _ =>
      obtain rfl := Option.some.inj h
      exact hsettle store _
  · split at h
    next store after _ =>
      obtain rfl := Option.some.inj h
      exact hsettle store _
    next store e _ =>
      obtain rfl := Option.some.inj h
      exact hsettle store _
  · obtain rfl := Option.some.inj h
    exact hsettle _ _
  all_goals nomatch h

theorem leads_call (h : (clients c owner id).Leads (fun _ _ => True) w₀ w) (i : ι) :
    (w.clients i).call = (w₀.clients i).call := by
  induction h with
  | refl => rfl
  | tail _ hn ih =>
    obtain ⟨a, _, hs⟩ := hn
    exact (step_call hs i).trans ih

/-- Every commit is that of the call of a client. -/
theorem World.Inv.commit_call (h : World.Inv c id w₀ w) {commit : Commit ι}
    (hmem : commit ∈ w.ledger) : commit.call = (w.clients commit.client).call := by
  have hown : commit ∈ w.commits commit.client := by
    simpa [World.commits] using hmem
  have haccounted := h.accounted commit.client
  unfold Accounted at haccounted
  split at haccounted
  · obtain ⟨read, after, hcommits⟩ := haccounted
    rw [hcommits, List.mem_singleton] at hown
    rw [hown]
  · rw [haccounted] at hown
    cases hown

/-- In every interleaving of the calls of the engine on an accepted run, every snapshot that
was committed has at most as many invocation records, waits and audit entries as the limits
allow. -/
theorem run_budgets (h₀ : w₀.Starts id) (hfirst : ∀ s ∈ w₀.store.get id, s.InitialLaw)
    (hcalls : ∀ i, (w₀.clients i).call.OfEngine c.limits)
    (h : (clients c owner id).Leads (fun _ _ => True) w₀ w) :
    (∀ run ∈ w.store.get id, Within c.limits run) ∧
      ∀ commit ∈ w.ledger, ∀ run ∈ commit.after, Within c.limits run := by
  have hinv := leads_inv h₀ h
  refine hinv.linked.within ?_ fun s hs => .initial (hfirst s hs)
  intro commit hmem
  rw [hinv.commit_call hmem, leads_call h]
  exact hcalls commit.client

/-- Two branches that both found the one slot there was. -/
def sampleBranches : World Bool where
  store := sampleStore
  clients := fun i =>
    ⟨.updateNode (if i then "a" else "b") true fun _ _ _ => .ok (some sampleRecord), .idle⟩

/-- Both branches read the empty run, then both commit. -/
def sampleRace : List (Action Bool) :=
  [true, false, true, false, false, false].map (⟨·, 5, .ready⟩)

theorem run_budgets_sample :
    ∃ w, (clients { sampleComposition with limits := { activations := 1 } } "host" "run").run
        sampleBranches sampleRace = some w ∧
      ((w.store.get "run").map fun run => run.invocations.size) = some 1 ∧
      ∀ run ∈ w.store.get "run", run.invocations.size ≤ 1 := by
  have hrun : (((clients { sampleComposition with limits := { activations := 1 } } "host"
      "run").run sampleBranches sampleRace).map fun w =>
        (w.store.get "run").map fun run => run.invocations.size) = some (some 1) := by
    decide +kernel
  obtain ⟨w, hw, hsize⟩ := Option.map_eq_some_iff.mp hrun
  have hleads : (clients { sampleComposition with limits := { activations := 1 } } "host"
      "run").Leads (fun _ _ => True) sampleBranches w := System.run_leads (fun _ _ _ => trivial) hw
  have hstarts : sampleBranches.Starts "run" :=
    ⟨sampleStore_reached.any, sampleStore_reached.counted "run", fun i => by cases i <;> rfl,
      fun i => by cases i <;> trivial, rfl⟩
  have hinitial : ∀ s ∈ sampleBranches.store.get "run", s.InitialLaw := by
    intro s hs
    obtain rfl : sampleRun = s := Option.some.inj hs
    exact sampleRun_initial
  have h := (run_budgets hstarts hinitial (fun i => by cases i <;> trivial) hleads).1
  exact ⟨w, hw, hsize, fun run hrun => (h run hrun).activations⟩

end Runs

end WorkflowForge.Clients
