import WorkflowForge.System.Terminal
import WorkflowForge.System.Waiting

/-!
# Every Transition is a Successor

The store checks a replacement without knowing which transition proposed it. Every transition
of a reachable run passes these checks: about fifteen transitions, each closing, changing or
leaving alone the waits of the run, against one independently written law.

## Main results

- `WaitsInv.successor`: when a replacement of waits and records satisfies the wait law.
- `Edited.waitsLaw`: every transition satisfies the wait law.
- `Edited.successor`: every transition is a successor of the run it was decided on.
- `Reachable.textChain`: the snapshots of a run are a chain by their text, not only as the
  store compares them.
-/

namespace WorkflowForge.Run

open Lib Engine

variable {s : Setup} {w w' : World} {a : Action} {key id : String} {e : Comparison}

/-! ## What the wait law keeps -/

/-- The identity of a run stays, and so do the records that have succeeded. -/
structure KeepsSucceeded (prev next : RunSnapshot) : Prop where
  id : next.id = prev.id
  scope : next.scope = prev.scope
  deadline : next.deadlineAtMs = prev.deadlineAtMs
  succeeded : ∀ (key : String) (r : InvocationRecord), prev.invocations[key]? = some r →
    r.state = .succeeded → next.invocations[key]? = some r

section

variable {prev next : RunSnapshot} {wait new : WaitRecord} {r : InvocationRecord}

/-- An announcement that succeeded stays done. -/
theorem KeepsSucceeded.startDone (h : KeepsSucceeded prev next) {startNode : Option String}
    (hs : StartDone prev startNode) : StartDone next startNode := by
  intro key hkey
  obtain ⟨r, hr, hr'⟩ := hs key hkey
  exact ⟨r, h.succeeded key r hr hr', hr'⟩

/-- The output of a start that has succeeded stays. -/
theorem KeepsSucceeded.signalOutput (h : KeepsSucceeded prev next) {startNode : Option String}
    (hs : StartDone prev startNode) (payload : Value) :
    WaitRecord.signalOutput startNode next payload =
      WaitRecord.signalOutput startNode prev payload := by
  cases startNode with
  | none => rfl
  | some key =>
    obtain ⟨r, hr, hr'⟩ := hs key rfl
    simp only [WaitRecord.signalOutput, Option.bind_some]
    rw [h.succeeded key r hr hr', hr]

/-- So the demands of a kind stay met. -/
theorem KeepsSucceeded.kind (h : KeepsSucceeded prev next) (law : KindLaw prev wait) :
    KindLaw next wait := by
  cases law with
  | timer kind undelivered confirmed live => exact .timer kind undelivered confirmed live
  | signal kind nonempty size unstarted started delivery consumed =>
    exact .signal kind nonempty size unstarted (fun hc => h.startDone (started hc))
      (fun d hd => (delivery d hd).of_same h.id.symm h.scope.symm) consumed

/-- A wait that leaves its open state, but is not consumed or expired, keeps its kind law. -/
theorem KindLaw.close (law : KindLaw prev wait) :
    KindLaw prev { wait with state := .closed } := by
  cases law with
  | timer kind undelivered confirmed => exact .timer kind undelivered confirmed (by simp)
  | signal kind nonempty size unstarted started delivery =>
    refine .signal kind nonempty size unstarted started (fun d hd => ?_) (by simp)
    exact { delivery d hd with live := by simp }

/-- An open wait may leave its open state. -/
theorem waitStep_leave {state : WaitState} (opened : wait.state = .open) :
    WaitStep e wait { wait with state := state } :=
  ⟨rfl, rfl, rfl, rfl, rfl, fun h => h, fun hne => absurd opened hne, fun _ => rfl⟩

/-- An open wait may be confirmed. -/
theorem waitStep_confirm (opened : wait.state = .open) :
    WaitStep e wait { wait with startConfirmed := true } :=
  ⟨rfl, rfl, rfl, rfl, rfl, fun _ => rfl, fun hne => absurd opened hne, fun _ => rfl⟩

/-- A wait is left alone, or closed. -/
inductive Closes (wait : WaitRecord) : WaitRecord → Prop where
  | same : Closes wait wait
  | closed (opened : wait.state = .open) : Closes wait { wait with state := .closed }

/-- A wait that is closed makes one step of a wait. -/
theorem Closes.step (h : Closes wait new) : WaitStep e wait new := by
  cases h with
  | same => exact .refl wait
  | closed opened => exact waitStep_leave opened

/-- Closing renames no wait. -/
theorem Closes.named (h : Closes wait new) : wait.id = new.id :=
  (h.step (e := .text)).id

theorem Closes.node (h : Closes wait new) : wait.node = new.node :=
  (h.step (e := .text)).node

/-- The record of a wait is left alone, or ends without success. -/
inductive Unsettles (r : InvocationRecord) : InvocationRecord → Prop where
  | same : Unsettles r r
  | ended {r' : InvocationRecord} (control : r'.control = r.control)
      (before : r.state ≠ .succeeded) (after : r'.state ≠ .succeeded) : Unsettles r r'

/-- A wait that is kept or closed satisfies the wait law, if its record does not succeed. -/
theorem WaitInv.kept (inv : WaitInv e prev wait r) (named : prev.waits[wait.id]? = some wait)
    (h : KeepsSucceeded prev next) (hw : Closes wait new) {r' : InvocationRecord}
    (hr : Unsettles r r') (found : next.invocations[wait.node]? = some r') :
    WaitLaw e prev next new r' := by
  have hstep : WaitStep e wait new := hw.step
  have hfresh : prev.waits[new.id]? = none → new.state = .open ∧ new.delivery = none := by
    intro hnone
    rw [← hstep.id, named] at hnone
    nomatch hnone
  have hcontrol : r'.control = some (.wait new.id) := by
    rw [← hstep.id, ← inv.control]
    cases hr with
    | same => rfl
    | ended control => exact control
  have hstate : r'.state = .succeeded ↔ new.state = .consumed := by
    cases hr with
    | same =>
      cases hw with
      | same => exact inv.state
      | closed opened =>
        constructor
        · intro hs
          have hc := inv.state.mp hs
          rw [opened] at hc
          nomatch hc
        · intro hc
          nomatch hc
    | ended control before after =>
      refine ⟨fun hs => absurd hs after, fun hc => ?_⟩
      cases hw with
      | same => exact absurd (inv.state.mpr hc) before
      | closed => nomatch hc
  refine ⟨?_, ?_, ?_, hcontrol, hstate, ?_, hfresh, ?_, ?_⟩
  · rw [← hstep.created, ← hstep.deadline]
    exact inv.ordered
  · rw [← hstep.deadline, h.deadline]
    exact inv.bounded
  · rw [← hstep.node]
    exact found
  · intro old hold
    rw [← hstep.id, named] at hold
    obtain rfl := Option.some.inj hold
    exact hstep
  · cases hw with
    | same => exact h.kind inv.kind
    | closed => exact h.kind (KindLaw.close inv.kind)
  · intro hc
    cases hw with
    | closed => nomatch hc
    | same =>
      -- a consumed wait was consumed before, so its record has not changed
      have hsame : r' = r := by
        cases hr with
        | same => rfl
        | ended control before => exact absurd (inv.state.mpr hc) before
      cases hk : wait.kind with
      | timer =>
        refine .timer hk fun hopen => ?_
        rw [named] at hopen
        simp [hc] at hopen
      | signal correlation payloadSchema startNode =>
        obtain ⟨d, hd, houtput⟩ := inv.output hc correlation payloadSchema startNode hk
        refine .signal hk hd ?_
        rw [hsame, h.signalOutput (inv.kind.confirmed hc hk)]
        exact houtput

/-- When a replacement of waits and records satisfies the wait law: each wait is kept or
closed and its record does not succeed, or the wait satisfies its own law. -/
theorem WaitsInv.successor (inv : WaitsInv e prev) (h : KeepsSucceeded prev next)
    (kept : ∀ (id : String) (wait : WaitRecord), prev.waits[id]? = some wait →
      ∃ new, next.waits[id]? = some new ∧ new.node = wait.node ∧
        ((Closes wait new ∧ ∀ r, prev.invocations[wait.node]? = some r →
            ∃ r', next.invocations[wait.node]? = some r' ∧ Unsettles r r') ∨
          (new.id = id ∧ ∃ r', WaitLaw e prev next new r')))
    (fresh : ∀ (id : String) (new : WaitRecord), next.waits[id]? = some new →
      prev.waits[id]? = none → new.id = id ∧ ∃ r', WaitLaw e prev next new r')
    (owned : ∀ (key id : String) (r : InvocationRecord), next.invocations[key]? = some r →
      r.control = some (.wait id) → (∃ old, prev.invocations[key]? = some old ∧
        old.control = some (.wait id)) ∨ ∃ new, next.waits[id]? = some new ∧ new.node = key)
    (settled : next.state.isTerminal = true → ∀ (id : String) (new : WaitRecord),
      next.waits[id]? = some new → new.state ≠ .open) : WaitsLaw e prev next where
  kept id wait hw := by
    obtain ⟨new, hnew, -⟩ := kept id wait hw
    exact ⟨new, hnew⟩
  settled := settled
  owned key id r hr hc := by
    rcases owned key id r hr hc with ⟨old, hold, hcontrol⟩ | hwait
    · obtain ⟨wait, hw, hnode⟩ := inv.owned key id old hold hcontrol
      obtain ⟨new, hnew, hsame, -⟩ := kept id wait hw
      exact ⟨new, hnew, hsame.trans hnode⟩
    · exact hwait
  -- a wait is new, or was there under its name
  named id new hnew := by
    cases hw : prev.waits[id]? with
    | none => exact (fresh id new hnew hw).1
    | some wait =>
      obtain ⟨new', hnew', -, hcase⟩ := kept id wait hw
      obtain rfl := Option.some.inj (hnew.symm.trans hnew')
      rcases hcase with ⟨hcloses, -⟩ | ⟨hid, -⟩
      · exact hcloses.named.symm.trans (inv.named id wait hw)
      · exact hid
  wait id new hnew := by
    cases hw : prev.waits[id]? with
    | none => exact (fresh id new hnew hw).2
    | some wait =>
      obtain ⟨new', hnew', -, hcase⟩ := kept id wait hw
      obtain rfl := Option.some.inj (hnew.symm.trans hnew')
      rcases hcase with ⟨hcloses, hrecord⟩ | ⟨-, hlaw⟩
      -- a closed wait inherits the law, as its record did not succeed
      · obtain ⟨r, hinv⟩ := inv.wait id wait hw
        obtain ⟨r', hr', hunsettles⟩ := hrecord r hinv.found
        have hnamed : prev.waits[wait.id]? = some wait := by
          rw [inv.named id wait hw]
          exact hw
        exact ⟨r', WaitInv.kept hinv hnamed h hcloses hunsettles hr'⟩
      · exact hlaw

end

/-! ## What every transition keeps -/

/-- What no transition changes, or only in one direction. -/
structure Framed (prev next : RunSnapshot) : Prop where
  id : prev.id = next.id
  scope : prev.scope = next.scope
  actor : prev.actor = next.actor
  resources : prev.resources = next.resources
  definition : prev.definition = next.definition
  package : prev.package = next.package
  input : prev.input = next.input
  artifacts : prev.artifacts = next.artifacts
  created : prev.createdAtMs = next.createdAtMs
  deadline : prev.deadlineAtMs = next.deadlineAtMs
  format : prev.checkpointFormat = next.checkpointFormat
  cancel : prev.cancelRequested = true → next.cancelRequested = true
  audit : prev.audit <+: next.audit

/-- A transition that changes neither the identity, the cancellation nor the audit. -/
theorem Framed.ofEq {prev next : RunSnapshot} (hid : prev.id = next.id)
    (hscope : prev.scope = next.scope) (hactor : prev.actor = next.actor)
    (hresources : prev.resources = next.resources)
    (hdefinition : prev.definition = next.definition) (hpackage : prev.package = next.package)
    (hinput : prev.input = next.input) (hartifacts : prev.artifacts = next.artifacts)
    (hcreated : prev.createdAtMs = next.createdAtMs)
    (hdeadline : prev.deadlineAtMs = next.deadlineAtMs)
    (hformat : prev.checkpointFormat = next.checkpointFormat)
    (hcancel : prev.cancelRequested = next.cancelRequested) (haudit : prev.audit = next.audit) :
    Framed prev next :=
  ⟨hid, hscope, hactor, hresources, hdefinition, hpackage, hinput, hartifacts, hcreated,
    hdeadline, hformat, fun h => hcancel ▸ h, haudit ▸ List.prefix_refl _⟩

/-- A report leaves alone what no edit may change. -/
theorem ReconcileLaw.framed {c : Composition} {access : AccessContext}
    {command : ReconcileCommand} {now : UInt64} {run next : RunSnapshot}
    {receipt : ReconcileReceipt} {node : String} {old : InvocationRecord} {resolved : Resolved}
    {revision : UInt64}
    (law : ReconcileLaw c access command now run receipt next node old resolved revision) :
    Framed run next := by
  have hnext : next = (audited command access.actor now revision resolved).2 :=
    congrArg Prod.snd law.result
  have hresolved : Framed run resolved.1 := by
    cases law.resolution <;>
      exact .ofEq rfl rfl rfl rfl rfl rfl rfl rfl rfl rfl rfl rfl rfl
  have hunblocked : Framed run (unblock resolved.1) := by
    unfold unblock
    split
    · exact { hresolved with }
    · exact hresolved
  rw [hnext]
  exact { hunblocked with audit := hunblocked.audit.trans (List.prefix_append _ _) }

/-- Every edit does. -/
theorem Edited.framed {edited : RunSnapshot} (h : Edited s w a edited) : Framed w.run edited := by
  cases h with
  | begun =>
    unfold beginRun
    split <;> exact .ofEq rfl rfl rfl rfl rfl rfl rfl rfl rfl rfl rfl rfl rfl
  | suspended =>
    unfold suspendRun
    split <;> exact .ofEq rfl rfl rfl rfl rfl rfl rfl rfl rfl rfl rfl rfl rfl
  | finished =>
    unfold finishError
    dsimp only
    split <;> exact .ofEq rfl rfl rfl rfl rfl rfl rfl rfl rfl rfl rfl rfl rfl
  | cancelled =>
    exact ⟨rfl, rfl, rfl, rfl, rfl, rfl, rfl, rfl, rfl, rfl, rfl, fun _ => rfl,
      List.prefix_refl _⟩
  -- the audit grows
  | observed =>
    exact ⟨rfl, rfl, rfl, rfl, rfl, rfl, rfl, rfl, rfl, rfl, rfl, fun h => h,
      List.prefix_append _ _⟩
  | reconciled running named law => exact ReconcileLaw.framed law
  | waited working live edit =>
    cases edit <;> exact .ofEq rfl rfl rfl rfl rfl rfl rfl rfl rfl rfl rfl rfl rfl
  -- every other edit is of records, waits or the state
  | _ => exact .ofEq rfl rfl rfl rfl rfl rfl rfl rfl rfl rfl rfl rfl rfl

/-- A replaced record leaves the succeeded ones alone, if it had not succeeded. -/
theorem setRecord_succeeded (run : RunSnapshot) {node : String} {record : InvocationRecord}
    (h : ∀ old, run.invocations[node]? = some old → old.state ≠ .succeeded) {key : String}
    {r : InvocationRecord} (hr : run.invocations[key]? = some r) (hs : r.state = .succeeded) :
    (run.setRecord node record).invocations[key]? = some r := by
  rw [RunSnapshot.setRecord_get]
  split
  next heq =>
    subst heq
    exact absurd hs (h r hr)
  next => exact hr

/-- A succeeded record of an operation is never edited. -/
theorem OperationEdit.unsucceeded {r : InvocationRecord} (h : OperationEdit s w key a r)
    {old : InvocationRecord} (hold : w.run.invocations[key]? = some old) :
    old.state ≠ .succeeded := by
  intro hs
  cases h with
  | intend working operation alone unused turn =>
    rcases resume_eq_proceed turn with hnone | ⟨record, hrecord, hstate⟩
    · rw [World.record, hold] at hnone
      cases hnone
    · obtain rfl := Option.some.inj (hold.symm.trans hrecord)
      rcases hstate with h | h <;> simp [hs] at h
  | succeed working operation worker found current running =>
    obtain rfl := Option.some.inj (hold.symm.trans found)
    rw [hs] at running
    cases running
  | fail reported found current running =>
    obtain rfl := Option.some.inj (hold.symm.trans found)
    rcases running with h | h <;> simp [hs] at h

/-- A control node that has settled is not changed any more. -/
theorem unsettled_ne_succeeded {old : InvocationRecord} (h : w.unsettled key = true)
    (hold : w.run.invocations[key]? = some old) : old.state ≠ .succeeded := by
  intro hs
  simp [World.unsettled, World.record, hold, hs] at h

/-- Nor is one of a control node. -/
theorem ControlEdit.unsucceeded {r : InvocationRecord} (h : ControlEdit w key a r)
    {old : InvocationRecord} (hold : w.run.invocations[key]? = some old) :
    old.state ≠ .succeeded := by
  cases h with
  | activate frames fresh =>
    rw [fresh] at hold
    nomatch hold
  | progress frames found unsettled => exact unsettled_ne_succeeded unsettled hold
  | complete found unsettled => exact unsettled_ne_succeeded unsettled hold
  | error found unsettled => exact unsettled_ne_succeeded unsettled hold

/-- The record of the node of an open or failed wait has not succeeded. -/
theorem Reachable.wait_unsucceeded (hr : Reachable s w) {wait : WaitRecord}
    (hw : w.run.waits[s.waitName w.run.id key]? = some wait) (hs : wait.state ≠ .consumed) :
    wait.node = key ∧ ∀ old, w.run.invocations[key]? = some old → old.state ≠ .succeeded := by
  have hnode : wait.node = key := s.wait_distinct (hr.waitShape hw).name.symm
  refine ⟨hnode, fun old hold hsucceeded => ?_⟩
  obtain ⟨record, hinv⟩ := hr.waitsInv.wait _ wait hw
  have hfound := hinv.found
  rw [hnode, hold] at hfound
  obtain rfl := Option.some.inj hfound
  exact hs (hinv.state.mp hsucceeded)

/-- The edit of a wait touches no record that has succeeded. -/
theorem Reachable.waitEdit_succeeded (hr : Reachable s w) {c : Composition} {node : String}
    {next : RunSnapshot} (h : WaitEdit s w c node a next) {key : String} {r : InvocationRecord}
    (hold : w.run.invocations[key]? = some r) (hs : r.state = .succeeded) :
    next.invocations[key]? = some r := by
  cases h with
  | reserve wait fresh vacant =>
    refine setRecord_succeeded (w.run.setWait _ _) (fun old hfound => ?_) hold hs
    rw [RunSnapshot.setWait_invocations, vacant] at hfound
    nomatch hfound
  | confirm => exact hold
  | expire => exact hold
  | overdue => exact hold
  | consume isNode reserved found opened =>
    have hne := (hr.wait_unsucceeded found (by simp [opened])).2
    exact setRecord_succeeded (w.run.setWait _ _) hne hold hs
  | endWait isNode found unconsumed reserved =>
    have hne := (hr.wait_unsucceeded found unconsumed).2
    exact setRecord_succeeded (w.run.setWait _ _) hne hold hs

/-- No transition changes a record that has succeeded. -/
theorem Edited.succeeded {edited : RunSnapshot} (h : Edited s w a edited) (hr : Reachable s w)
    {key : String} {r : InvocationRecord} (hold : w.run.invocations[key]? = some r)
    (hs : r.state = .succeeded) : edited.invocations[key]? = some r := by
  cases h with
  | begun =>
    rw [beginRun_invocations]
    exact hold
  | suspended =>
    rw [suspendRun_invocations]
    exact hold
  -- the end of a run marks no succeeded record
  | finished =>
    rw [finishError_invocations]
    have hkept : markUnknown r = r := if_neg fun h => h.1 hs
    simp only [markedRun, BTreeMap.get_mapValues, hold, Option.map_some, hkept]
  -- a report is about an unknown attempt
  | reconciled running named law =>
    rcases ReconcileLaw.record law with heq | ⟨r', hr', heq⟩
    · rw [heq]
      exact hold
    · rw [heq]
      refine setRecord_succeeded w.run (fun old hfound => ?_) hold hs
      obtain rfl := Option.some.inj (hfound.symm.trans law.found)
      have hnamed := law.named
      simp only [Engine.named, decide_eq_true_eq] at hnamed
      simp [hnamed.2.2]
  -- the other edits are about unsettled records
  | operation live edit => exact setRecord_succeeded w.run (fun old => edit.unsucceeded) hold hs
  | control working live node edit =>
    exact setRecord_succeeded w.run (fun old => edit.unsucceeded) hold hs
  | stopped working live node group found unsettled =>
    exact setRecord_succeeded w.run (fun old => unsettled_ne_succeeded unsettled) hold hs
  | waited working live edit => exact hr.waitEdit_succeeded edit hold hs
  | _ => exact hold

/-- Whatever is edited, succeeded records stay. -/
theorem Edited.keepsSucceeded {edited : RunSnapshot} (h : Edited s w a edited)
    (hr : Reachable s w) : KeepsSucceeded w.run edited where
  id := h.framed.id.symm
  scope := h.framed.scope.symm
  deadline := h.framed.deadline.symm
  succeeded _ _ hold hs := h.succeeded hr hold hs

/-- Every record a transition leaves behind belongs to the activity of its key. -/
theorem Edited.shape {edited : RunSnapshot} (h : Edited s w a edited) (hr : Reachable s w)
    {r : InvocationRecord} (hfound : edited.invocations[key]? = some r) :
    Shape s w.run.id key r := by
  have hrecord := h.record key
  rw [hfound] at hrecord
  refine hrecord.shape (fun old hold => hr.shape hold) fun hreported => ?_
  obtain ⟨node, hn, -⟩ := hr.reported hreported
  exact ⟨node, hn⟩

/-! ## Transitions of no wait -/

/-- A transition that closes waits, or leaves them alone, and leaves their records alone. -/
structure QuietEdit (s : Setup) (w : World) (next : RunSnapshot) : Prop where
  kept : ∀ (id : String) (wait : WaitRecord), w.run.waits[id]? = some wait →
    ∃ new, next.waits[id]? = some new ∧ Closes wait new
  fresh : ∀ id : String, w.run.waits[id]? = none → next.waits[id]? = none
  records : ∀ key, s.isWait key = true → next.invocations[key]? = w.run.invocations[key]?
  settled : next.state.isTerminal = true → ∀ (id : String) (new : WaitRecord),
    next.waits[id]? = some new → new.state ≠ .open

/-- Below a transition that changes no wait record, the wait law holds. -/
theorem QuietEdit.waitsLaw {edited : RunSnapshot} (h : QuietEdit s w edited)
    (hedit : Edited s w a edited) (hr : Reachable s w) (inv : WaitsInv e w.run) :
    WaitsLaw e w.run edited := by
  refine WaitsInv.successor inv (hedit.keepsSucceeded hr) ?_ ?_ ?_ h.settled
  · intro id wait hw
    obtain ⟨new, hnew, hcloses⟩ := h.kept id wait hw
    refine ⟨new, hnew, hcloses.node.symm, .inl ⟨hcloses, fun r hfound => ?_⟩⟩
    obtain ⟨record, hinv⟩ := inv.wait id wait hw
    have hnode := ((hr.shape hinv.found).wait_of_control hinv.control).1
    exact ⟨r, (h.records _ hnode).trans hfound, .same⟩
  · intro id new hnew hnone
    rw [h.fresh id hnone] at hnew
    nomatch hnew
  · intro key id r hfound hcontrol
    have hnode := ((hedit.shape hr hfound).wait_of_control hcontrol).1
    rw [h.records key hnode] at hfound
    exact .inl ⟨r, hfound, hcontrol⟩

namespace QuietEdit

/-- The waits of a live run stay while it is live. -/
theorem ofSame {next : RunSnapshot} (waits : next.waits = w.run.waits)
    (records : ∀ key, s.isWait key = true →
      next.invocations[key]? = w.run.invocations[key]?)
    (live : next.state.isTerminal = false) : QuietEdit s w next := by
  refine ⟨fun id wait hw => ⟨wait, by rw [waits]; exact hw, .same⟩,
    fun id hnone => by rw [waits]; exact hnone, records, fun ht => ?_⟩
  rw [live] at ht
  nomatch ht

/-- All waits are closed. -/
theorem ofClosed {next : RunSnapshot} (waits : next.waits = (w.run.closeWaits).waits)
    (records : ∀ key, s.isWait key = true →
      next.invocations[key]? = w.run.invocations[key]?) : QuietEdit s w next := by
  have hget : ∀ id : String, next.waits[id]? = w.run.waits[id]?.map RunSnapshot.closeWait := by
    intro id
    rw [waits, RunSnapshot.closeWaits, BTreeMap.get_mapValues]
  have hcloses : ∀ wait, Closes wait (RunSnapshot.closeWait wait) := by
    intro wait
    unfold RunSnapshot.closeWait
    split
    next hopen => exact .closed hopen
    · exact .same
  refine ⟨fun id wait hw => ⟨_, by rw [hget, hw]; rfl, hcloses wait⟩,
    fun id hnone => by rw [hget, hnone]; rfl, records, fun _ id new hnew => ?_⟩
  rw [hget, Option.map_eq_some_iff] at hnew
  obtain ⟨wait, -, rfl⟩ := hnew
  unfold RunSnapshot.closeWait
  split
  · simp
  next hne => exact hne

end QuietEdit

/-- The node of an operation is no wait. -/
theorem isWait_ne_of_operation {node : PreparedOperation} {opKey : String}
    (hn : s.operation opKey = some node) (hw : s.isWait key = true) : opKey ≠ key := by
  rintro rfl
  rw [isWait_operation hw] at hn
  nomatch hn

/-- A control node is none either. -/
theorem isWait_ne_of_control {controlKey : String} (hc : s.isControl controlKey = true)
    (hw : s.isWait key = true) : controlKey ≠ key := by
  rintro rfl
  unfold Setup.isControl at hc
  unfold Setup.isWait at hw
  split at hw
  next heq => simp [heq] at hc
  next heq => simp [heq] at hc
  · nomatch hw

/-- Replacing a record at another key leaves the records of waits alone. -/
theorem setRecord_wait {run : RunSnapshot} {node : String} {record : InvocationRecord}
    (hne : node ≠ key) : (run.setRecord node record).invocations[key]? = run.invocations[key]? := by
  rw [RunSnapshot.setRecord_get, if_neg hne]

/-- The record that an operation edits belongs to an operation of the plan. -/
theorem Reachable.operationEdit_node (hr : Reachable s w) {r : InvocationRecord}
    (h : OperationEdit s w key a r) : ∃ node, s.operation key = some node := by
  cases h with
  | intend working operation => exact ⟨_, operation⟩
  | succeed working operation => exact ⟨_, operation⟩
  | fail reported =>
    obtain ⟨node, hn, -⟩ := hr.reported reported
    exact ⟨node, hn⟩

/-- A run that is ended by an error, or blocked by it, keeps the records of its waits. -/
theorem Reachable.marked_wait (hr : Reachable s w) (hw : s.isWait key = true) :
    (markedRun w.run).invocations[key]? = w.run.invocations[key]? := by
  simp only [markedRun, BTreeMap.get_mapValues]
  cases hold : w.run.invocations[key]? with
  | none => rfl
  | some r =>
    have hplain := (hr.shape hold).plain (isWait_operation hw)
    rw [Option.map_some, markUnknown, if_neg]
    exact fun h => h.2 hplain.certainty

/-- A report changes no wait. -/
theorem Reachable.reconcile_quiet (hr : Reachable s w) {c : Composition} {access : AccessContext}
    {command : ReconcileCommand} {receipt : ReconcileReceipt} {next : RunSnapshot} {node : String}
    {old : InvocationRecord} {resolved : Resolved} {revision : UInt64}
    (law : ReconcileLaw c access command w.now w.run receipt next node old resolved revision) :
    QuietEdit s w next := by
  have hrecords : ∀ key, s.isWait key = true →
      next.invocations[key]? = w.run.invocations[key]? := by
    intro key hkey
    rcases ReconcileLaw.record law with heq | ⟨r', hr', heq⟩
    · rw [heq]
    · -- what awaits a resolution is an operation
      have hnamed := law.named
      simp only [Engine.named, decide_eq_true_eq] at hnamed
      obtain ⟨op, hop⟩ := (hr.shape law.found).node_of_unknown hnamed.2.2
      rw [heq]
      exact setRecord_wait (isWait_ne_of_operation hop hkey)
  -- the audit is beside the waits
  have hwaits : next.waits = resolved.1.waits := by
    have h := congrArg (fun x : ReconcileReceipt × RunSnapshot => x.2.waits) law.result
    simp only [audited, unblock] at h
    rw [h]
    split <;> rfl
  -- the run ends and its waits are closed, or they stay
  rcases ReconcileLaw.terminal law with ⟨hstop, -⟩ | ⟨hgoes, hlive⟩
  · refine .ofClosed ?_ hrecords
    rw [hwaits]
    cases law.resolution with
    | stopped => rfl
    | blocked tracked =>
      rw [hstop] at tracked
      cases tracked
    | applied command =>
      rw [command] at hstop
      cases hstop
    | invalid command =>
      rw [command] at hstop
      cases hstop
    | retry command =>
      rw [command] at hstop
      cases hstop
    | failed command =>
      rw [command] at hstop
      cases hstop
  · refine .ofSame ?_ hrecords hlive
    rw [hwaits]
    cases law.resolution with
    | stopped command =>
      rw [command] at hgoes
      cases hgoes
    | _ => rfl

/-- A transition of one wait by its node. -/
def OfNode (s : Setup) (w : World) (a : Action) (edited : RunSnapshot) : Prop :=
  w.run.state.isTerminal = false ∧ ∃ c key, WaitEdit s w c key a edited

/-- A transition of one wait by a signal. -/
def OfSignal (w : World) (edited : RunSnapshot) : Prop :=
  ∃ c phase access received command receipt next wait,
    authorize c phase access .signal false = .ok () ∧
    checkSignal c access received = .ok command ∧ received.runId = w.run.id ∧
    w.run.scope = c.scope ∧ DeliverLaw c access.actor command w.now w.run receipt next wait ∧
    edited = deliveredRun wait ⟨command, access.actor, receipt⟩ w.run

/-- A transition is about one wait, or about none. -/
theorem Edited.quiet {edited : RunSnapshot} (h : Edited s w a edited) (hr : Reachable s w) :
    QuietEdit s w edited ∨ OfNode s w a edited ∨ OfSignal w edited := by
  cases h with
  | recovered down blocked =>
    refine .inl (.ofSame rfl (fun _ _ => rfl) ?_)
    change (if w.run.cancelRequested = true then RunState.cancelling else
      RunState.running).isTerminal = false
    split <;> rfl
  | bootBlocked => exact .inl (.ofSame rfl (fun _ _ => rfl) rfl)
  | blocked => exact .inl (.ofSame rfl (fun _ _ => rfl) rfl)
  | begun process taken live =>
    unfold beginRun
    split
    · exact .inl (.ofSame rfl (fun _ _ => rfl) live)
    · exact .inl (.ofSame rfl (fun _ _ => rfl) rfl)
  | suspended working quiet live =>
    unfold suspendRun
    split
    · exact .inl (.ofSame rfl (fun _ _ => rfl) live)
    · exact .inl (.ofSame rfl (fun _ _ => rfl) rfl)
  -- an ended run has closed waits, and a blocked run has the same
  | @finished c error cancelled =>
    by_cases hu : awaitsResolution (markedRun w.run).invocations = true
    · rw [finishError_blocked hu]
      exact .inl (.ofSame rfl (fun _ hkey => hr.marked_wait hkey) rfl)
    · rw [finishError_ended (by simpa using hu)]
      exact .inl (.ofClosed rfl fun _ hkey => hr.marked_wait hkey)
  | concluded => exact .inl (.ofClosed rfl fun _ _ => rfl)
  | cancelled => exact .inl (.ofClosed rfl fun _ _ => rfl)
  -- a delivery is about the wait it names
  | signalled running authorized checked named scope law =>
    exact .inr (.inr ⟨_, _, _, _, _, _, _, _, authorized, checked, named, scope, law, rfl⟩)
  | observed =>
    refine .inl ⟨fun id wait hw => ⟨wait, hw, .same⟩, fun _ hnone => hnone, fun _ _ => rfl, ?_⟩
    exact fun ht => hr.waitsInv.settled ht
  | reconciled running named law => exact .inl (hr.reconcile_quiet law)
  -- operations and control nodes are no waits
  | operation live edit =>
    obtain ⟨node, hn⟩ := hr.operationEdit_node edit
    exact .inl (.ofSame rfl (fun _ hkey => setRecord_wait (isWait_ne_of_operation hn hkey)) live)
  | control working live node edit =>
    exact .inl (.ofSame rfl (fun _ hkey => setRecord_wait (isWait_ne_of_control node hkey)) live)
  -- a stop closes the waits below its group
  | @stopped c node frame record working live isNode =>
    have hget : ∀ id : String, (stoppedRun node frame record w.run).waits[id]? =
        w.run.waits[id]?.map (closeBelow (node ++ "/")) := fun id => by
      simp only [stoppedRun, BTreeMap.get_mapValues]
    refine .inl ⟨fun id wait hw => ⟨_, by rw [hget, hw]; rfl, ?_⟩,
      fun id hnone => by rw [hget, hnone]; rfl,
      fun _ hkey => setRecord_wait (isWait_ne_of_control isNode hkey), fun ht => ?_⟩
    · unfold closeBelow
      split
      next hopen => exact .closed hopen.1
      · exact .same
    · rw [show (stoppedRun node frame record w.run).state = w.run.state from rfl, live] at ht
      cases ht
  | waited working live edit => exact .inr (.inl ⟨live, _, _, edit⟩)

/-! ## Transitions of one wait -/

/-- An open wait that changes, but is not consumed, and whose record stays. -/
theorem WaitInv.changed {prev next : RunSnapshot} {wait new : WaitRecord} {r : InvocationRecord}
    (inv : WaitInv e prev wait r) (named : prev.waits[wait.id]? = some wait)
    (hdeadline : next.deadlineAtMs = prev.deadlineAtMs)
    (found : next.invocations[wait.node]? = some r) (hstep : WaitStep e wait new)
    (before : wait.state ≠ .consumed) (after : new.state ≠ .consumed) (kind : KindLaw next new) :
    WaitLaw e prev next new r := by
  -- a wait that is not consumed has no output to check
  refine ⟨?_, ?_, ?_, ?_, ?_, ?_, ?_, kind, fun hc => absurd hc after⟩
  · rw [← hstep.created, ← hstep.deadline]
    exact inv.ordered
  · rw [← hstep.deadline, hdeadline]
    exact inv.bounded
  · rw [← hstep.node]
    exact found
  · rw [← hstep.id]
    exact inv.control
  · exact ⟨fun hs => absurd (inv.state.mp hs) before, fun hc => absurd hc after⟩
  · intro old hold
    rw [← hstep.id, named] at hold
    obtain rfl := Option.some.inj hold
    exact hstep
  · intro hnone
    rw [← hstep.id, named] at hnone
    nomatch hnone

/-- A transition that replaces the wait of one node, and at most the record of that node. -/
theorem Reachable.waitsLaw_set (hr : Reachable s w) (inv : WaitsInv e w.run) (key : String)
    {next : RunSnapshot}
    {v : WaitRecord} {r : InvocationRecord} (hedit : Edited s w a next)
    (waits : ∀ id' : String, next.waits[id']? =
      if s.waitName w.run.id key = id' then some v else w.run.waits[id']?)
    (law : WaitLaw e w.run next v r) (named : v.id = s.waitName w.run.id key)
    (node : v.node = key)
    (records : ∀ key', key ≠ key' → next.invocations[key']? = w.run.invocations[key']?)
    (live : next.state.isTerminal = false) : WaitsLaw e w.run next := by
  -- the replaced wait is the one whose node is the key
  have hother : ∀ (id' : String) (wait : WaitRecord), w.run.waits[id']? = some wait →
      (s.waitName w.run.id key = id' ↔ wait.node = key) := by
    intro id' wait hw
    have hname := (hr.waitShape hw).name
    constructor
    · intro heq
      exact (s.wait_distinct (heq.trans hname)).symm
    · intro heq
      rw [hname, heq]
  refine WaitsInv.successor inv (hedit.keepsSucceeded hr) ?_ ?_ ?_ fun ht => ?_
  · intro id' wait hw
    rw [waits]
    split
    next heq =>
      refine ⟨v, rfl, ?_, .inr ⟨named.trans heq, r, law⟩⟩
      rw [node, (hother id' wait hw).mp heq]
    next hne =>
      refine ⟨wait, hw, rfl, .inl ⟨.same, fun r' hr' => ⟨r', ?_, .same⟩⟩⟩
      rw [records wait.node fun heq => hne ((hother id' wait hw).mpr heq.symm)]
      exact hr'
  · intro id' new' hnew hnone
    rw [waits] at hnew
    split at hnew
    next heq =>
      obtain rfl := Option.some.inj hnew
      exact ⟨named.trans heq, r, law⟩
    · rw [hnone] at hnew
      nomatch hnew
  · intro key' id' r' hfound hcontrol
    obtain ⟨-, hid⟩ := (hedit.shape hr hfound).wait_of_control hcontrol
    by_cases hkey : key = key'
    · subst hkey
      refine .inr ⟨v, ?_, node⟩
      rw [waits, if_pos hid.symm]
    · rw [records key' hkey] at hfound
      exact .inl ⟨r', hfound, hcontrol⟩
  · rw [live] at ht
    nomatch ht

/-- The kind of the wait of a node that is started by an operation. -/
theorem WaitShape.started {wait : WaitRecord} (h : WaitShape s w id wait) {startKey : String}
    (hs : s.startOf wait.node = some startKey) : ∃ correlation payloadSchema,
      wait.kind = .signal correlation payloadSchema (some startKey) := by
  obtain ⟨correlation, duration, hwait, -⟩ := h.awaits
  unfold Setup.wait at hwait
  unfold Setup.startOf at hs
  split at hs
  next timeout payloadSchema start heq =>
    rw [heq] at hwait
    dsimp only at hwait
    split at hwait
    · obtain ⟨hkind, -⟩ := Prod.mk.inj (Option.some.inj hwait)
      exact ⟨correlation, payloadSchema, by rw [← hkind, hs]⟩
    · nomatch hwait
  · nomatch hs

/-- A signal that is waited for has a valid correlation. -/
theorem Setup.wait_signal {correlation correlation' : String} {payloadSchema : Value}
    {startNode : Option String} {duration : UInt64}
    (h : s.wait key correlation = some (.signal correlation' payloadSchema startNode, duration)) :
    validCorrelation correlation' = true := by
  unfold Setup.wait at h
  split at h
  · simp at h
  · split at h
    next hvalid =>
      simp only [Option.some.injEq, Prod.mk.injEq, WaitKind.signal.injEq] at h
      exact h.1.1 ▸ hvalid
    · nomatch h
  · nomatch h

/-- A new wait satisfies the law of its kind. -/
theorem newWait_kind {correlation : String} {kind : WaitKind} {duration now deadline : UInt64}
    {next : RunSnapshot} (h : s.wait key correlation = some (kind, duration)) :
    KindLaw next (newWait id key kind now duration deadline) := by
  cases kind with
  | timer => exact .timer rfl rfl rfl (by simp [newWait])
  | signal correlation' payloadSchema startNode =>
    have hvalid := Setup.wait_signal h
    simp only [validCorrelation, decide_eq_true_eq] at hvalid
    refine .signal rfl hvalid.1 hvalid.2 ?_ ?_ ?_ ?_
    · rintro rfl
      rfl
    · intro hconfirmed key hkey
      have hnone : startNode = none := by simpa [newWait, startsConfirmed] using hconfirmed
      rw [hnone] at hkey
      nomatch hkey
    · intro d hd
      nomatch hd
    · intro hc
      nomatch hc

/-- The deadline of a new wait lies between its creation and the end of the run. -/
theorem newWait_deadline {now deadline : UInt64} (duration : UInt64) (h : now < deadline) :
    now ≤ min (saturatingAdd now duration) deadline ∧
      min (saturatingAdd now duration) deadline ≤ deadline := by
  change now ≤ (if saturatingAdd now duration ≤ deadline then saturatingAdd now duration
    else deadline) ∧ (if saturatingAdd now duration ≤ deadline then saturatingAdd now duration
    else deadline) ≤ deadline
  split
  next hle => exact ⟨le_saturatingAdd now duration, hle⟩
  next => exact ⟨UInt64.le_of_lt h, UInt64.le_refl _⟩

/-- The wait of a node, with the record of the node. -/
theorem Reachable.wait_at (hr : Reachable s w) (inv : WaitsInv e w.run) {wait : WaitRecord}
    (hw : w.run.waits[s.waitName w.run.id key]? = some wait) :
    wait.node = key ∧ wait.id = s.waitName w.run.id key ∧ w.run.waits[wait.id]? = some wait ∧
      ∃ record, w.run.invocations[key]? = some record ∧ WaitInv e w.run wait record := by
  have hnode : wait.node = key := s.wait_distinct (hr.waitShape hw).name.symm
  have hid := inv.named _ wait hw
  obtain ⟨record, hinv⟩ := inv.wait _ wait hw
  have hfound := hinv.found
  rw [hnode] at hfound
  exact ⟨hnode, hid, by rw [hid]; exact hw, record, hfound, hinv⟩

theorem setWait_get_name {run : RunSnapshot} {wait : WaitRecord} (id id' : String) :
    (run.setWait id wait).waits[id']? = if id = id' then some wait else run.waits[id']? :=
  RunSnapshot.setWait_get id'

/-- A reservation satisfies the wait law. -/
theorem Reachable.reserve_waitsLaw (hr : Reachable s w) (inv : WaitsInv e w.run)
    {correlation : String} {input : Value}
    {cancelled : Bool} {kind : WaitKind} {duration : UInt64} {next : RunSnapshot}
    (hnext : next = reservedRun (s.logical w.run.id key) (s.waitName w.run.id key) key kind
      duration input w.now w.run)
    (hedit : Edited s w (.reserve key correlation input cancelled) next)
    (live : w.run.state.isTerminal = false) (wait : s.wait key correlation = some (kind, duration))
    (fresh : w.run.waits[s.waitName w.run.id key]? = none)
    (inTime : w.now < w.run.deadlineAtMs) : WaitsLaw e w.run next := by
  obtain ⟨hordered, hbounded⟩ := newWait_deadline duration inTime
  subst hnext
  refine hr.waitsLaw_set inv key hedit (setWait_get_name _)
    (r := controlRecord (s.logical w.run.id key) .pending input (.wait (s.waitName w.run.id key)))
    ⟨hordered, hbounded, ?_, rfl, ?_, ?_, fun _ => ⟨rfl, rfl⟩, newWait_kind wait, ?_⟩ rfl rfl
    (fun key' hne => setRecord_wait hne) live
  · change (RunSnapshot.setRecord _ key _).invocations[key]? = _
    rw [RunSnapshot.setRecord_get, if_pos rfl]
  · constructor <;> intro h <;> nomatch h
  -- the identity of the wait is fresh
  · intro old hold
    change w.run.waits[s.waitName w.run.id key]? = some old at hold
    rw [fresh] at hold
    nomatch hold
  · intro hc
    nomatch hc

/-- A transition that leaves the records alone and changes one open wait. -/
theorem Reachable.change_waitsLaw (hr : Reachable s w) (inv : WaitsInv e w.run) (key : String)
    {next : RunSnapshot}
    {wait new : WaitRecord} (hedit : Edited s w a next)
    (waits : ∀ id' : String, next.waits[id']? =
      if s.waitName w.run.id key = id' then some new else w.run.waits[id']?)
    (records : next.invocations = w.run.invocations)
    (found : w.run.waits[s.waitName w.run.id key]? = some wait) (opened : wait.state = .open)
    (step : WaitStep e wait new) (unconsumed : new.state ≠ .consumed) (kind : KindLaw next new)
    (live : next.state.isTerminal = false) : WaitsLaw e w.run next := by
  obtain ⟨hnode, hid, hnamed, record, hfound, hinv⟩ := hr.wait_at inv found
  have hrecord : next.invocations[wait.node]? = some record := by
    rw [records, hnode]
    exact hfound
  refine hr.waitsLaw_set inv key hedit waits
    (WaitInv.changed hinv hnamed hedit.framed.deadline.symm hrecord step (by simp [opened])
      unconsumed kind) (step.id ▸ hid) (step.node ▸ hnode) (fun key' _ => by rw [records]) live

/-- A signal wait that nobody has signalled may expire. -/
theorem KindLaw.expire {run : RunSnapshot} {wait : WaitRecord} (law : KindLaw run wait)
    {correlation : String} {payloadSchema : Value} {startNode : Option String}
    (hk : wait.kind = .signal correlation payloadSchema startNode) (hd : wait.delivery = none) :
    KindLaw run { wait with state := .expired } := by
  cases law with
  | timer kind =>
    rw [hk] at kind
    nomatch kind
  | signal kind nonempty size unstarted started delivery =>
    refine .signal kind nonempty size unstarted started (fun d hsome => ?_) (by simp)
    rw [show ({ wait with state := WaitState.expired } : WaitRecord).delivery = none from hd]
      at hsome
    nomatch hsome

/-- A wait may be confirmed once its start has succeeded. -/
theorem KindLaw.confirm {run : RunSnapshot} {wait : WaitRecord} (law : KindLaw run wait)
    {correlation : String} {payloadSchema : Value} {startNode : Option String}
    (hk : wait.kind = .signal correlation payloadSchema startNode) (hs : StartDone run startNode) :
    KindLaw run { wait with startConfirmed := true } := by
  cases law with
  | timer kind =>
    rw [hk] at kind
    nomatch kind
  | signal kind nonempty size unstarted started delivery consumed =>
    rw [hk] at kind
    obtain ⟨rfl, rfl, rfl⟩ := WaitKind.signal.inj kind
    exact .signal hk nonempty size (fun _ => rfl) (fun _ => hs)
      (fun d hd => { delivery d hd with }) (fun hc => ⟨(consumed hc).1, rfl⟩)

/-- A consumption satisfies the wait law. -/
theorem Reachable.consume_waitsLaw (hr : Reachable s w) (inv : WaitsInv e w.run) {cancelled : Bool}
    {wait : WaitRecord}
    {record : InvocationRecord} {output : Value} {next : RunSnapshot}
    (hnext : next = consumedRun key (s.waitName w.run.id key) wait record output w.run)
    (hedit : Edited s w (.consume key cancelled) next) (live : w.run.state.isTerminal = false)
    (reserved : w.run.invocations[key]? = some record)
    (found : w.run.waits[s.waitName w.run.id key]? = some wait) (opened : wait.state = .open)
    (ready : awaited w.run wait record.input w.now = .ready output) : WaitsLaw e w.run next := by
  obtain ⟨hnode, hid, hnamed, record', hfound, hinv⟩ := hr.wait_at inv found
  obtain rfl := Option.some.inj (reserved.symm.trans hfound)
  have hkeeps := hedit.keepsSucceeded hr
  -- an open wait is left as consumed, with a completed record
  have hstep : WaitStep e wait { wait with state := .consumed } := waitStep_leave opened
  have hrecord : next.invocations[key]? = some (completedRecord output record) := by
    rw [hnext]
    change (RunSnapshot.setRecord _ key _).invocations[key]? = _
    rw [RunSnapshot.setRecord_get, if_pos rfl]
  have hkind := hkeeps.kind hinv.kind
  refine hr.waitsLaw_set inv key hedit ?_
    (v := { wait with state := .consumed }) (r := completedRecord output record)
    ⟨hinv.ordered, ?_, hnode ▸ hrecord, hinv.control, by simp [completedRecord], ?_, ?_, ?_, ?_⟩
    hid hnode (fun key' hne => by rw [hnext]; exact setRecord_wait hne) (by rw [hnext]; exact live)
  · rw [hnext]
    exact setWait_get_name _
  · rw [hkeeps.deadline]
    exact hinv.bounded
  · intro old hold
    change w.run.waits[wait.id]? = some old at hold
    rw [hnamed] at hold
    obtain rfl := Option.some.inj hold
    exact hstep
  · intro hnone
    change w.run.waits[wait.id]? = none at hnone
    rw [hnamed] at hnone
    cases hnone
  -- a timer has no delivery, and a signal has its own
  · rcases awaited_eq_ready ready with ⟨hk, -, -⟩ | ⟨correlation, schema, start, d, hk, hd, hc, -⟩
    · cases hkind with
      | timer kind undelivered confirmed => exact .timer kind undelivered confirmed (by simp)
      | signal kind =>
        rw [hk] at kind
        cases kind
    · cases hkind with
      | timer kind =>
        rw [hk] at kind
        cases kind
      | signal kind nonempty size unstarted started delivery =>
        refine .signal kind nonempty size unstarted started (fun d' hd' => ?_) fun _ => ⟨?_, hc⟩
        · exact { delivery d' hd' with live := by simp }
        · change wait.delivery.isSome = true
          rw [hd]
          rfl
  -- the output is the input of a timer, or made from the payload of a signal
  · intro _
    rcases awaited_eq_ready ready with
      ⟨hk, -, rfl⟩ | ⟨correlation, schema, start, d, hk, hd, hc, rfl⟩
    · refine .timer hk fun _ => ?_
      apply Same.of_eq
      change some record.input = w.run.invocations[wait.node]?.map InvocationRecord.input
      rw [hnode, reserved]
      rfl
    · refine .signal hk hd ?_
      apply Same.of_eq
      change some (WaitRecord.signalOutput start w.run d.command.payload) = _
      cases hinv.kind with
      | timer kind =>
        rw [hk] at kind
        cases kind
      | signal kind nonempty size unstarted started =>
        rw [hk] at kind
        obtain ⟨rfl, rfl, rfl⟩ := WaitKind.signal.inj kind
        rw [hkeeps.signalOutput (started hc)]

/-- The end of a wait satisfies the wait law. -/
theorem Reachable.endWait_waitsLaw (hr : Reachable s w) (inv : WaitsInv e w.run)
    {error : ForgeError} {wait : WaitRecord}
    {record : InvocationRecord} {next : RunSnapshot}
    (hnext : next = endedRun key (s.waitName w.run.id key) wait record error w.run)
    (hedit : Edited s w (.endWait key error) next) (live : w.run.state.isTerminal = false)
    (found : w.run.waits[s.waitName w.run.id key]? = some wait)
    (unconsumed : wait.state ≠ .consumed) (reserved : w.run.invocations[key]? = some record) :
    WaitsLaw e w.run next := by
  obtain ⟨hnode, hid, hnamed, record', hfound, hinv⟩ := hr.wait_at inv found
  obtain rfl := Option.some.inj (reserved.symm.trans hfound)
  -- an error closes the wait, unless its effect is unknown
  have hcloses : Closes wait (if error.code ≠ "effect.unknown" ∧ wait.state = .open then
      { wait with state := .closed } else wait) := by
    split
    next hopen => exact .closed hopen.2
    · exact .same
  have hends : Unsettles record (erroredRecord error record) :=
    .ended rfl (fun hs => unconsumed (hinv.state.mp hs)) (erroredState_ne_succeeded error)
  have hrecord : next.invocations[wait.node]? = some (erroredRecord error record) := by
    rw [hnext, hnode]
    change (RunSnapshot.setRecord _ key _).invocations[key]? = _
    rw [RunSnapshot.setRecord_get, if_pos rfl]
  refine hr.waitsLaw_set inv key hedit ?_
    (WaitInv.kept hinv hnamed (hedit.keepsSucceeded hr) hcloses hends hrecord)
    (hcloses.named ▸ hid) (hcloses.node ▸ hnode)
    (fun key' hne => by rw [hnext]; exact setRecord_wait hne) (by rw [hnext]; exact live)
  rw [hnext]
  exact setWait_get_name _

/-- A transition of a wait by its node satisfies the wait law. -/
theorem Reachable.ofNode_waitsLaw (hr : Reachable s w) (inv : WaitsInv e w.run)
    {edited : RunSnapshot}
    (hedit : Edited s w a edited) (h : OfNode s w a edited) : WaitsLaw e w.run edited := by
  obtain ⟨live, c, key, h⟩ := h
  cases h with
  | reserve wait fresh vacant uncancelled inTime =>
    exact hr.reserve_waitsLaw inv rfl hedit live wait fresh inTime
  -- the wait of a signal is opened once its announcement has succeeded
  | @confirm startKey wait started start succeeded found opened =>
    obtain ⟨hnode, -, -, record, -, hinv⟩ := hr.wait_at inv found
    obtain ⟨correlation, payloadSchema, hk⟩ := (hr.waitShape found).started (hnode ▸ start)
    have hdone : StartDone w.run (some startKey) := by
      rintro key ⟨⟩
      exact ⟨started, succeeded⟩
    exact hr.change_waitsLaw inv key hedit (setWait_get_name _) rfl found opened
      (waitStep_confirm opened) (by simp [opened])
      ((hedit.keepsSucceeded hr).kind (KindLaw.confirm hinv.kind hk hdone)) live
  | expire start found opened undelivered =>
    obtain ⟨hnode, -, -, record, -, hinv⟩ := hr.wait_at inv found
    obtain ⟨correlation, payloadSchema, hk⟩ := (hr.waitShape found).started (hnode ▸ start)
    exact hr.change_waitsLaw inv key hedit (setWait_get_name _) rfl found opened
      (waitStep_leave opened) (by simp)
      ((hedit.keepsSucceeded hr).kind (KindLaw.expire hinv.kind hk undelivered)) live
  -- a signal that was not delivered in time expires
  | overdue isNode reserved found opened awaited =>
    obtain ⟨-, -, -, record, -, hinv⟩ := hr.wait_at inv found
    obtain ⟨⟨correlation, payloadSchema, startNode, hk⟩, hnone, -⟩ := awaited_eq_expired awaited
    exact hr.change_waitsLaw inv key hedit (setWait_get_name _) rfl found opened
      (waitStep_leave opened) (by simp)
      ((hedit.keepsSucceeded hr).kind (KindLaw.expire hinv.kind hk hnone)) live
  | consume isNode reserved found opened ready =>
    exact hr.consume_waitsLaw inv rfl hedit live reserved found opened ready
  | endWait isNode found unconsumed reserved =>
    exact hr.endWait_waitsLaw inv rfl hedit live found unconsumed reserved

/-- A delivery satisfies the wait law. -/
theorem Reachable.ofSignal_waitsLaw (hr : Reachable s w) (inv : WaitsInv e w.run)
    {edited : RunSnapshot}
    (hedit : Edited s w a edited) (h : OfSignal w edited) : WaitsLaw e w.run edited := by
  obtain ⟨c, phase, access, received, command, receipt, next, wait, hauth, hcheck, hnamed, hscope,
    law, rfl⟩ := h
  obtain ⟨hsignal, hrunId⟩ := checkSignal_eq_ok hcheck
  have hshape := hr.waitShape law.found
  have hname := hshape.name
  have hfound := law.found
  rw [hname] at hfound
  obtain ⟨-, hid, -, record, -, hinv⟩ := hr.wait_at inv hfound
  obtain ⟨payloadSchema, startNode, hk⟩ := law.kind
  have hrun : command.runId = w.run.id := hrunId.trans hnamed
  have hwaitId : command.waitId = wait.id := hname.trans hid.symm
  -- a wait without a delivery is neither consumed nor, by the checks, expired or closed
  have hopen : wait.state = .open := by
    have hconsumed : wait.state ≠ .consumed := by
      intro hs
      obtain ⟨d, hd, -⟩ := hinv.output hs _ _ _ hk
      rw [law.fresh] at hd
      nomatch hd
    cases hs : wait.state with
    | «open» => rfl
    | consumed => exact absurd hs hconsumed
    | expired => exact absurd hs law.unexpired
    | closed => exact absurd hs law.unclosed
  -- the delivery has the command, the actor and the receipt of the message
  have hdelivery : DeliveryLaw w.run { wait with delivery := some ⟨command, access.actor, receipt⟩ }
      command.correlation ⟨command, access.actor, receipt⟩ := by
    have hanswer := law.answer
    refine ⟨hrun, hwaitId, rfl, hsignal.message, hsignal.messageSize, ?_, ?_, ?_, ?_, ?_, ?_,
      law.unexpired, hsignal.artifactCount, ?_, hsignal.artifactOrder⟩
    · rw [hanswer]
      exact hrun
    · rw [hanswer]
      exact hwaitId
    · rw [hanswer]
      rfl
    · rw [hanswer]
      rfl
    · rw [hanswer]
      exact hshape.created
    · rw [hanswer]
      exact law.inTime
    · intro artifact hmem
      rw [hsignal.artifactScope artifact hmem, authorize_scope hauth, hscope]
  -- the wait is one for a signal, and its announcement stays done
  have hkind : KindLaw w.run { wait with delivery := some ⟨command, access.actor, receipt⟩ } := by
    cases hinv.kind with
    | timer kind =>
      rw [hk] at kind
      nomatch kind
    | signal kind nonempty size unstarted started =>
      rw [hk] at kind
      obtain ⟨rfl, rfl, rfl⟩ := WaitKind.signal.inj kind
      refine .signal hk nonempty size unstarted started (fun d hd => ?_) fun hc => ?_
      · obtain rfl := Option.some.inj (Option.mem_def.mp hd)
        exact hdelivery
      · change wait.state = .consumed at hc
        rw [hopen] at hc
        nomatch hc
  refine hr.change_waitsLaw inv wait.node hedit ?_ rfl hfound hopen ?_ (by simp [hopen])
    ((hedit.keepsSucceeded hr).kind hkind) ?_
  · intro id'
    rw [← hname]
    exact setWait_get_name _ id'
  · refine ⟨rfl, rfl, rfl, rfl, rfl, fun h => h, fun hne => absurd hopen hne, fun hd => ?_⟩
    rw [law.fresh] at hd
    nomatch hd
  · change (if w.run.state = .waiting then RunState.running else w.run.state).isTerminal = false
    split
    · rfl
    · exact law.live

/-- Every transition satisfies the wait law. -/
theorem Edited.waitsLaw {edited : RunSnapshot} (h : Edited s w a edited) (hr : Reachable s w)
    (inv : WaitsInv e w.run) : WaitsLaw e w.run edited := by
  rcases h.quiet hr with hquiet | hnode | hsignal
  · exact hquiet.waitsLaw h hr inv
  · exact hr.ofNode_waitsLaw inv h hnode
  · exact hr.ofSignal_waitsLaw inv h hsignal

/-! ## Successors -/

/-- A run that is over gets nothing but late observations. -/
theorem Edited.terminal_kept {edited : RunSnapshot} (h : Edited s w a edited)
    (ht : w.run.state.isTerminal = true) :
    { edited with revision := w.run.revision, audit := w.run.audit } = w.run := by
  have hdead : w.run.state.isTerminal ≠ false := by simp [ht]
  cases h with
  | recovered down blocked =>
    simp only [recoveryBlocked, decide_eq_true_eq] at blocked
    rw [blocked.1] at ht
    nomatch ht
  | bootBlocked down live => exact absurd live hdead
  | blocked process idle live => exact absurd live hdead
  | begun process taken live => exact absurd live hdead
  | suspended working quiet live => exact absurd live hdead
  | finished working quiet live => exact absurd live hdead
  | concluded working quiet resolved live => exact absurd live hdead
  | cancelled running live => exact absurd live hdead
  | signalled running authorized checked named scope law => exact absurd law.live hdead
  -- a late observation adds to the audit only
  | observed => rfl
  -- a run that is reconciled is blocked
  | reconciled running named law =>
    rw [law.blocked] at ht
    nomatch ht
  | operation live => exact absurd live hdead
  | control working live => exact absurd live hdead
  | stopped working live => exact absurd live hdead
  | waited working live => exact absurd live hdead

/-- Every transition is a successor of the run it was decided on, under either comparison. -/
theorem Edited.successor {edited : RunSnapshot} (h : Edited s w a edited) (hr : Reachable s w)
    (inv : WaitsInv e w.run) {revision : UInt64}
    (hrev : checkedAdd w.run.revision 1 = some revision) :
    SuccessorLaw e w.run w.run.revision (edited.atRevision revision) := by
  obtain ⟨id, scope, actor, resources, definition, package, input, artifacts, created, deadline,
    format, cancel, audit⟩ := h.framed
  refine ⟨?_, rfl, hrev, id, scope, actor, resources, .of_eq definition, .of_eq package,
    .of_eq input, artifacts, created, deadline, format, cancel,
    fun key r hold hs => .of_eq (h.succeeded hr hold hs), .of_isPrefix audit,
    fun ht => .of_eq (h.terminal_kept ht)⟩
  exact (h.waitsLaw hr inv).of_same ⟨rfl, rfl, rfl, rfl, rfl, rfl⟩ ⟨rfl, rfl, rfl, rfl, rfl, rfl⟩

/-! ## The text of a run -/

/-- A transition changes no text the store only compares by value. -/
theorem Reachable.step_text (hr : Reachable s w) (inv : WaitsInv .text w.run)
    (h : w.step s a = some w') :
    (w'.run = w.run ∧ w'.older = w.older) ∨
      (SuccessorLaw .text w.run w.run.revision w'.run ∧ w'.older = w.run :: w.older) := by
  rcases step_run h with ⟨hrun, holder⟩ | ⟨edited, revision, hedit, hrev, hrun, holder⟩
  · exact .inl ⟨hrun, holder⟩
  · rw [hrun]
    exact .inr ⟨hedit.successor hr inv hrev, holder⟩

/-- The snapshots of a run are a chain by their text. -/
theorem Reachable.textChain (hr : Reachable s w) : Chain .text (w.run :: w.older) := by
  apply hr.invariant (P := fun w => Chain .text (w.run :: w.older))
  · intro w h
    rw [h.fresh.1]
    exact .start h.initial
  · intro w a w' hr hc _ h
    rcases hr.step_text hc.head_inv h with ⟨hrun, holder⟩ | ⟨law, holder⟩
    · rw [hrun, holder]
      exact hc
    · rw [holder]
      exact .step hc law

/-- The waits of a reachable run are in order by their texts. -/
theorem Reachable.textWaits (hr : Reachable s w) : WaitsInv .text w.run :=
  hr.textChain.head_inv

/-- A step keeps what is never modified, down to its text. -/
theorem Reachable.step_extends_text (hr : Reachable s w) (h : w.step s a = some w') :
    Extends .text w.run w'.run := by
  rcases hr.step_text hr.textWaits h with ⟨hrun, -⟩ | ⟨law, -⟩
  · rw [hrun]
    exact .refl _
  · exact law.extends

/-- Later snapshots extend earlier ones by their text. -/
theorem Reachable.extends_text (hr : Reachable s w)
    (hl : (system s).Leads (Admissible s) w w') : Extends .text w.run w'.run := by
  apply hl.of_step (R := fun w w' => Extends .text w.run w'.run) hr
  · intro w
    exact .refl w.run
  · intro w w' w'' h h'
    exact Extends.trans h h'
  · intro w a w' hr _ h
    exact Reachable.step_extends_text hr h

end WorkflowForge.Run
