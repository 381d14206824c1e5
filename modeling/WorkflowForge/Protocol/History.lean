import WorkflowForge.Protocol.Checkpoint

/-!
# Histories of a Run

What the checks on two neighbouring snapshots say about a whole chain of them. The wait
checks leave an invariant of the single snapshot behind, `WaitsInv`; under it, replacing one
record that is not a wait satisfies the full wait law without checking it again.

## Main results

- `WaitsLaw.inv`: an accepted snapshot satisfies the wait invariant.
- `WaitsInv.insertRecord`: a narrow replacement is a full successor.
- `Chain.law`: the history law of every chain of accepted snapshots.
-/

namespace WorkflowForge

open Lib

/-! ## The invariant of one snapshot -/

/-- One wait of an accepted snapshot. -/
structure WaitInv (c : Comparison) (s : RunSnapshot) (w : WaitRecord)
    (record : InvocationRecord) : Prop where
  ordered : w.createdAtMs ≤ w.deadlineAtMs
  bounded : w.deadlineAtMs ≤ s.deadlineAtMs
  found : s.invocations[w.node]? = some record
  control : record.control = some (.wait w.id)
  state : record.state = .succeeded ↔ w.state = .consumed
  kind : KindLaw s w
  output : w.state = .consumed → ∀ correlation payloadSchema startNode,
    w.kind = .signal correlation payloadSchema startNode →
    ∃ d, w.delivery = some d ∧
      Same c record.output (some (WaitRecord.signalOutput startNode s d.command.payload))

/-- All waits of an accepted snapshot. -/
structure WaitsInv (c : Comparison) (s : RunSnapshot) : Prop where
  settled : s.state.isTerminal = true →
    ∀ (id : String) (w : WaitRecord), s.waits[id]? = some w → w.state ≠ .open
  owned : ∀ (key id : String) (r : InvocationRecord), s.invocations[key]? = some r →
    r.control = some (.wait id) → ∃ w, s.waits[id]? = some w ∧ w.node = key
  named : ∀ (id : String) (w : WaitRecord), s.waits[id]? = some w → w.id = id
  wait : ∀ (id : String) (w : WaitRecord), s.waits[id]? = some w →
    ∃ record, WaitInv c s w record

section

variable {c : Comparison}

/-- An accepted snapshot satisfies the wait invariant. -/
theorem WaitsLaw.inv {prev next : RunSnapshot} (law : WaitsLaw c prev next) :
    WaitsInv c next where
  settled := law.settled
  owned := law.owned
  named := law.named
  wait := by
    intro id w hw
    obtain ⟨record, h⟩ := law.wait id w hw
    refine ⟨record, h.ordered, h.bounded, h.found, h.control, h.state, h.kind, ?_⟩
    intro hc correlation payloadSchema startNode hk
    rcases h.output hc with ⟨hk', _⟩ | ⟨hk', hd, ho⟩
    · rw [hk] at hk'
      nomatch hk'
    · rw [hk] at hk'
      obtain ⟨rfl, rfl, rfl⟩ := WaitKind.signal.inj hk'
      exact ⟨_, hd, ho⟩

/-- A run without waits satisfies the invariant when no record is under wait control. -/
theorem WaitsInv.empty {s : RunSnapshot} (hw : s.waits = ∅) (hi : s.invocations = ∅) :
    WaitsInv c s where
  settled := by simp [hw]
  owned := by simp [hi]
  named := by simp [hw]
  wait := by simp [hw]

/-! ## What the wait law depends on -/

/-- Two snapshots that the wait checks cannot tell apart. -/
structure SameWaits (s s' : RunSnapshot) : Prop where
  id : s.id = s'.id
  scope : s.scope = s'.scope
  terminal : s.state.isTerminal = s'.state.isTerminal
  deadline : s.deadlineAtMs = s'.deadlineAtMs
  invocations : s.invocations = s'.invocations
  waits : s.waits = s'.waits

/-- A delivery is lawful for any snapshot of the run with this name and scope. -/
theorem DeliveryLaw.of_same {s s' : RunSnapshot} {w : WaitRecord} {correlation : String}
    {d : SignalDelivery} (law : DeliveryLaw s w correlation d) (hid : s.id = s'.id)
    (hscope : s.scope = s'.scope) : DeliveryLaw s' w correlation d :=
  { law with
    runId := hid ▸ law.runId
    receiptRun := hid ▸ law.receiptRun
    artifactScope := hscope ▸ law.artifactScope }

/-- The announcement of a signal is done in any snapshot with these records. -/
theorem StartDone.of_same {s s' : RunSnapshot} {startNode : Option String}
    (h : StartDone s startNode) (hi : s.invocations = s'.invocations) :
    StartDone s' startNode :=
  fun key hk => hi ▸ h key hk

theorem WaitRecord.signalOutput_of_same {s s' : RunSnapshot}
    (hi : s.invocations = s'.invocations) (startNode : Option String) (payload : Value) :
    signalOutput startNode s payload = signalOutput startNode s' payload := by
  simp only [signalOutput, hi]

/-- What the kind of a wait demands depends on the parts that waits read. -/
theorem KindLaw.of_same {s s' : RunSnapshot} {w : WaitRecord} (law : KindLaw s w)
    (h : SameWaits s s') : KindLaw s' w := by
  rcases law with ⟨hk, h₁, h₂, h₃⟩ | ⟨hk, h₁, h₂, h₃, h₄, h₅, h₆⟩
  · exact .timer hk h₁ h₂ h₃
  · exact .signal hk h₁ h₂ h₃ (fun hc => (h₄ hc).of_same h.invocations)
      (fun d hd => (h₅ d hd).of_same h.id h.scope) h₆

/-- So does what a change of a wait demands. -/
theorem WaitLaw.of_same {prev prev' next next' : RunSnapshot} {w : WaitRecord}
    {record : InvocationRecord} (law : WaitLaw c prev next w record) (hp : SameWaits prev prev')
    (hn : SameWaits next next') : WaitLaw c prev' next' w record where
  ordered := law.ordered
  bounded := hn.deadline ▸ law.bounded
  found := hn.invocations ▸ law.found
  control := law.control
  state := law.state
  step := hp.waits ▸ law.step
  fresh := hp.waits ▸ law.fresh
  kind := law.kind.of_same hn
  output hc := by
    rcases law.output hc with ⟨hk, ho⟩ | ⟨hk, hd, ho⟩
    · exact .timer hk (hp.invocations ▸ hp.waits ▸ ho)
    · exact .signal hk hd
        (WaitRecord.signalOutput_of_same hn.invocations _ _ ▸ ho)

/-- The wait law reads nothing but what `SameWaits` fixes. -/
theorem WaitsLaw.of_same {prev prev' next next' : RunSnapshot} (law : WaitsLaw c prev next)
    (hp : SameWaits prev prev') (hn : SameWaits next next') : WaitsLaw c prev' next' where
  kept := hn.waits ▸ hp.waits ▸ law.kept
  settled := hn.waits ▸ hn.terminal ▸ law.settled
  owned := hn.waits ▸ hn.invocations ▸ law.owned
  named := hn.waits ▸ law.named
  wait id w hw := by
    obtain ⟨record, h⟩ := law.wait id w (hn.waits ▸ hw)
    exact ⟨record, h.of_same hp hn⟩

/-! ## What stays of a start -/

/-- What a signal makes of a payload and of the output of its start. -/
theorem WaitRecord.same_signalOutput {payload payload' : Value} {started started' : Option Value}
    (hp : Same c payload payload') (hs : Same c started started') :
    Same c (Value.object [("signal", payload), ("start", started.getD .null)])
      (Value.object [("signal", payload'), ("start", started'.getD .null)]) := by
  have hstarted : Same c (started.getD .null) (started'.getD .null) := by
    cases started' with
    | none => rw [same_none.mp hs]; exact .refl _
    | some v' =>
      obtain ⟨v, rfl, hv⟩ := same_some_iff.mp hs
      exact hv
  have himage : ∀ p q : Value, c.image (Value.object [("signal", p), ("start", q)]) =
      .object [("signal", c.image p), ("start", c.image q)] := by
    intro p q
    cases c <;> rfl
  rw [Same, himage, himage, hp, hstarted]

/-- A start that has succeeded stays, if the succeeded records do. -/
theorem StartDone.of_kept {s s' : RunSnapshot} {startNode : Option String}
    (h : StartDone s startNode)
    (kept : ∀ (key : String) (r : InvocationRecord), s.invocations[key]? = some r →
      r.state = .succeeded → Same c s'.invocations[key]? (some r)) : StartDone s' startNode := by
  intro key hkey
  obtain ⟨r, hr, hs⟩ := h key hkey
  obtain ⟨r', hr', hsame⟩ := same_some_iff.mp (kept key r hr hs)
  exact ⟨r', hr', (InvocationRecord.same_state hsame).trans hs⟩

/-- And so does its output, and what a signal makes of it. -/
theorem StartDone.signalOutput {s s' : RunSnapshot} {startNode : Option String}
    (h : StartDone s startNode)
    (kept : ∀ (key : String) (r : InvocationRecord), s.invocations[key]? = some r →
      r.state = .succeeded → Same c s'.invocations[key]? (some r)) (payload : Value) :
    Same c (WaitRecord.signalOutput startNode s' payload)
      (WaitRecord.signalOutput startNode s payload) := by
  cases startNode with
  | none => exact .refl _
  | some key =>
    obtain ⟨r, hr, hs⟩ := h key rfl
    obtain ⟨r', hr', hsame⟩ := same_some_iff.mp (kept key r hr hs)
    simp only [WaitRecord.signalOutput, Option.bind_some, hr, hr']
    exact WaitRecord.same_signalOutput (.refl payload) (InvocationRecord.same_output hsame)

/-! ## Initial snapshots -/

namespace RunSnapshot

/-- A first snapshot: accepted, at revision zero, with nothing done yet. -/
structure InitialLaw (s : RunSnapshot) : Prop where
  revision : s.revision = 0
  format : s.checkpointFormat = WorkflowForge.checkpointFormat
  state : s.state = .accepted
  invocations : s.invocations = ∅
  waits : s.waits = ∅
  output : s.output = none
  error : s.error = none
  finished : s.finishedAtMs = none
  cancel : s.cancelRequested = false
  audit : s.audit = []
  unresolved : s.unresolvedEffects = []
  ordered : s.createdAtMs ≤ s.deadlineAtMs
  artifactCount : s.artifacts.length ≤ 1000
  artifactScope : ∀ a ∈ s.artifacts, a.scope = s.scope
  artifactIds : (s.artifacts.map ArtifactRef.id).Nodup

/-- A start passes its checks exactly when it obeys the law of initial runs. -/
theorem validateInitial_ok_iff {s : RunSnapshot} :
    s.validateInitial = .ok () ↔ s.InitialLaw := by
  unfold validateInitial
  constructor
  · intro h
    split at h
    next hc =>
      obtain ⟨h₁, h₂, h₃, h₄, h₅, h₆, h₇, h₈, h₉, h₁₀, h₁₁, h₁₂, h₁₃, h₁₄, h₁₅⟩ := hc
      exact ⟨h₁, h₂, h₃, h₄, h₅, h₆, h₇, h₈, h₉, h₁₀, h₁₁, h₁₂, h₁₃, h₁₄, h₁₅⟩
    next => nomatch h
  · rintro ⟨h₁, h₂, h₃, h₄, h₅, h₆, h₇, h₈, h₉, h₁₀, h₁₁, h₁₂, h₁₃, h₁₄, h₁₅⟩
    rw [if_pos ⟨h₁, h₂, h₃, h₄, h₅, h₆, h₇, h₈, h₉, h₁₀, h₁₁, h₁₂, h₁₃, h₁₄, h₁₅⟩]

/-- A run that starts has no wait to account for. -/
theorem InitialLaw.inv {s : RunSnapshot} (h : s.InitialLaw) : WaitsInv c s :=
  .empty h.waits h.invocations

/-! ## Replacing one record -/

/-- The snapshot with one record replaced, at the next revision. -/
def insertRecord (s : RunSnapshot) (node : String) (record : InvocationRecord)
    (revision : UInt64) : RunSnapshot :=
  { s with invocations := s.invocations.insert node record, revision := revision }

/-- What the narrow path checks before it replaces one record. -/
structure NarrowReplacement (c : Comparison) (s : RunSnapshot) (node : String)
    (record : InvocationRecord) : Prop where
  notWait : record.isWait = false
  oldNotWait : ∀ old, s.invocations[node]? = some old → old.isWait = false
  live : s.state.isTerminal = false
  succeeded : ∀ old, s.invocations[node]? = some old → old.state = .succeeded →
    Same c old record

variable {s : RunSnapshot} {node : String} {record : InvocationRecord} {revision : UInt64}

/-- A narrow commit replaces one record. -/
theorem insertRecord_invocations (key : String) :
    (s.insertRecord node record revision).invocations[key]? =
      if node = key then some record else s.invocations[key]? :=
  BTreeMap.get_insert s.invocations node key record

/-- The narrow path leaves every record that has succeeded as it is. -/
theorem NarrowReplacement.keeps (h : NarrowReplacement c s node record) {key : String}
    {r : InvocationRecord} (hr : s.invocations[key]? = some r) (hs : r.state = .succeeded) :
    Same c (s.insertRecord node record revision).invocations[key]? (some r) := by
  rw [insertRecord_invocations]
  split
  next heq =>
    subst heq
    exact same_some.mpr (h.succeeded r hr hs).symm
  next => exact .of_eq hr

/-- The narrow path leaves every record under wait control as it is. -/
theorem NarrowReplacement.keeps_wait (h : NarrowReplacement c s node record) {key : String}
    {r : InvocationRecord} (hr : s.invocations[key]? = some r) (hw : r.isWait = true) :
    (s.insertRecord node record revision).invocations[key]? = some r := by
  rw [insertRecord_invocations]
  split
  next heq =>
    subst heq
    rw [h.oldNotWait r hr] at hw
    nomatch hw
  next => exact hr

/-- It undoes no announcement, as a succeeded record stays. -/
theorem StartDone.insertRecord (h : NarrowReplacement c s node record)
    {startNode : Option String} (hs : StartDone s startNode) :
    StartDone (s.insertRecord node record revision) startNode :=
  hs.of_kept fun _ _ hr hr' => h.keeps hr hr'

/-- The start output of a confirmed wait is that of a succeeded record, so it stays. -/
theorem signalOutput_insertRecord (h : NarrowReplacement c s node record)
    {startNode : Option String} (hs : StartDone s startNode) (payload : Value) :
    Same c (WaitRecord.signalOutput startNode (s.insertRecord node record revision) payload)
      (WaitRecord.signalOutput startNode s payload) :=
  hs.signalOutput (fun _ _ hr hr' => h.keeps hr hr') payload

end RunSnapshot

theorem KindLaw.insertRecord {s : RunSnapshot} {node : String} {record : InvocationRecord}
    {revision : UInt64} (h : RunSnapshot.NarrowReplacement c s node record) {w : WaitRecord}
    (law : KindLaw s w) : KindLaw (s.insertRecord node record revision) w := by
  rcases law with ⟨hk, h₁, h₂, h₃⟩ | ⟨hk, h₁, h₂, h₃, h₄, h₅, h₆⟩
  · exact .timer hk h₁ h₂ h₃
  · exact .signal hk h₁ h₂ h₃ (fun hc => RunSnapshot.StartDone.insertRecord h (h₄ hc))
      (fun d hd => (h₅ d hd).of_same rfl rfl) h₆

/-- A consumed wait for a signal was announced. -/
theorem KindLaw.confirmed {s : RunSnapshot} {w : WaitRecord} (law : KindLaw s w)
    (hc : w.state = .consumed) {correlation : String} {payloadSchema : Value}
    {startNode : Option String} (hk : w.kind = .signal correlation payloadSchema startNode) :
    StartDone s startNode := by
  rcases law with ⟨hk', _⟩ | ⟨hk', _, _, _, h₄, _, h₆⟩
  · rw [hk] at hk'
    nomatch hk'
  · rw [hk] at hk'
    obtain ⟨rfl, rfl, rfl⟩ := WaitKind.signal.inj hk'
    exact h₄ (h₆ hc).2

/-- A wait that is left alone makes no step back. -/
theorem WaitStep.refl (w : WaitRecord) : WaitStep c w w :=
  ⟨rfl, rfl, .refl _, rfl, rfl, fun h => h, fun _ => .refl _, fun _ => .refl _⟩

/-- Under the invariant, a narrow replacement satisfies the full wait law. -/
theorem WaitsInv.insertRecord {s : RunSnapshot} (inv : WaitsInv c s) {node : String}
    {record : InvocationRecord} {revision : UInt64}
    (h : RunSnapshot.NarrowReplacement c s node record) :
    WaitsLaw c s (s.insertRecord node record revision) where
  kept id w hw := ⟨w, hw⟩
  -- a narrow replacement is for live runs
  settled ht := by
    have : s.state.isTerminal = true := ht
    rw [h.live] at this
    nomatch this
  owned key id r hr hc := by
    rw [RunSnapshot.insertRecord_invocations] at hr
    split at hr
    · obtain rfl := Option.some.inj hr
      have := h.notWait
      simp [InvocationRecord.isWait, hc] at this
    · exact inv.owned key id r hr hc
  named := inv.named
  wait id w hw := by
    have hw : s.waits[id]? = some w := hw
    obtain ⟨r, law⟩ := inv.wait id w hw
    have hw' : r.isWait = true := by simp [InvocationRecord.isWait, law.control]
    refine ⟨r, law.ordered, law.bounded, h.keeps_wait law.found hw', law.control, law.state, ?_,
      ?_, law.kind.insertRecord h, ?_⟩
    · intro old hold
      have hid := inv.named id w hw
      rw [hid, hw] at hold
      obtain rfl := Option.some.inj hold
      exact .refl w
    · intro hnone
      rw [inv.named id w hw, hw] at hnone
      nomatch hnone
    · intro hc
      cases hk : w.kind with
      | timer =>
        refine .timer hk fun hopen => ?_
        rw [inv.named id w hw, hw] at hopen
        simp [hc] at hopen
      | signal correlation payloadSchema startNode =>
        obtain ⟨d, hd, ho⟩ := law.output hc correlation payloadSchema startNode hk
        exact .signal hk hd (ho.trans (same_some.mpr
          (RunSnapshot.signalOutput_insertRecord h (law.kind.confirmed hc hk) _).symm))

/-- The narrow path is an accepted replacement of the full one. -/
theorem WaitsInv.insertRecord_successor {s : RunSnapshot} (inv : WaitsInv c s) {node : String}
    {record : InvocationRecord} {revision : UInt64}
    (h : RunSnapshot.NarrowReplacement c s node record)
    (hrev : checkedAdd s.revision 1 = some revision) :
    SuccessorLaw c s s.revision (s.insertRecord node record revision) where
  waits := inv.insertRecord h
  base := rfl
  revision := hrev
  id := rfl
  scope := rfl
  actor := rfl
  resources := rfl
  definition := .refl _
  package := .refl _
  input := .refl _
  artifacts := rfl
  created := rfl
  deadline := rfl
  format := rfl
  cancel h := h
  succeeded _ _ hr hs := h.keeps hr hs
  audit := .refl _
  terminal ht := by
    -- narrow replacements are for live runs
    rw [h.live] at ht
    nomatch ht

/-! ## What a later snapshot keeps -/

/-- A later snapshot of the same run. -/
structure Extends (c : Comparison) (older newer : RunSnapshot) : Prop where
  id : older.id = newer.id
  scope : older.scope = newer.scope
  actor : older.actor = newer.actor
  resources : older.resources = newer.resources
  definition : Same c older.definition newer.definition
  package : Same c older.package newer.package
  input : Same c older.input newer.input
  artifacts : older.artifacts = newer.artifacts
  created : older.createdAtMs = newer.createdAtMs
  deadline : older.deadlineAtMs = newer.deadlineAtMs
  format : older.checkpointFormat = newer.checkpointFormat
  cancel : older.cancelRequested = true → newer.cancelRequested = true
  audit : SamePrefix c older.audit newer.audit
  succeeded : ∀ (key : String) (r : InvocationRecord), older.invocations[key]? = some r →
    r.state = .succeeded → Same c newer.invocations[key]? (some r)
  terminal : older.state.isTerminal = true →
    Same c { newer with revision := older.revision, audit := older.audit } older
  waits : ∀ (id : String) (w : WaitRecord), older.waits[id]? = some w →
    ∃ w', newer.waits[id]? = some w' ∧ WaitStep c w w'

/-- Steps of a wait compose: a settled one stays as it settled. -/
theorem WaitStep.trans {w₁ w₂ w₃ : WaitRecord} (h₁ : WaitStep c w₁ w₂)
    (h₂ : WaitStep c w₂ w₃) : WaitStep c w₁ w₃ where
  id := h₁.id.trans h₂.id
  node := h₁.node.trans h₂.node
  kind := h₁.kind.trans h₂.kind
  created := h₁.created.trans h₂.created
  deadline := h₁.deadline.trans h₂.deadline
  confirmed h := h₂.confirmed (h₁.confirmed h)
  settled h := by
    have h' := h₁.settled h
    exact h'.trans (h₂.settled (WaitRecord.same_state h' ▸ h))
  delivered h := by
    have h' := h₁.delivered h
    exact h'.trans (h₂.delivered (h'.isSome ▸ h))

namespace Extends

/-- A snapshot extends itself. -/
theorem refl (s : RunSnapshot) : Extends c s s :=
  ⟨rfl, rfl, rfl, rfl, .refl _, .refl _, .refl _, rfl, rfl, rfl, rfl, fun h => h, .refl _,
    fun _ _ h _ => .of_eq h, fun _ => .refl _, fun _ w h => ⟨w, h, .refl w⟩⟩

/-- A terminal state is kept by whatever extends it. -/
theorem state_eq {s₁ s₂ : RunSnapshot} (h : Extends c s₁ s₂) (ht : s₁.state.isTerminal = true) :
    s₂.state = s₁.state :=
  (h.terminal ht).exact (f := RunSnapshot.state) fun s => by cases c <;> rfl

/-- What was never modified by two commits was modified by neither. -/
theorem trans {s₁ s₂ s₃ : RunSnapshot} (h₁ : Extends c s₁ s₂) (h₂ : Extends c s₂ s₃) :
    Extends c s₁ s₃ where
  id := h₁.id.trans h₂.id
  scope := h₁.scope.trans h₂.scope
  actor := h₁.actor.trans h₂.actor
  resources := h₁.resources.trans h₂.resources
  definition := h₁.definition.trans h₂.definition
  package := h₁.package.trans h₂.package
  input := h₁.input.trans h₂.input
  artifacts := h₁.artifacts.trans h₂.artifacts
  created := h₁.created.trans h₂.created
  deadline := h₁.deadline.trans h₂.deadline
  format := h₁.format.trans h₂.format
  cancel h := h₂.cancel (h₁.cancel h)
  audit := h₁.audit.trans h₂.audit
  succeeded key r hr hs := by
    obtain ⟨r', hr', hsame⟩ := same_some_iff.mp (h₁.succeeded key r hr hs)
    exact (h₂.succeeded key r' hr' ((InvocationRecord.same_state hsame).trans hs)).trans
      (same_some.mpr hsame)
  terminal ht := by
    -- a terminal run has the same state later
    have ht₂ : s₂.state.isTerminal = true := by rw [h₁.state_eq ht, ht]
    have hstable : Same c { s₃ with revision := s₁.revision, audit := s₁.audit }
        { s₂ with revision := s₁.revision, audit := s₁.audit } :=
      RunSnapshot.same_stable (h₂.terminal ht₂) s₁.revision s₁.audit
    exact hstable.trans (h₁.terminal ht)
  waits id w hw := by
    obtain ⟨w', hw', hs⟩ := h₁.waits id w hw
    obtain ⟨w'', hw'', hs'⟩ := h₂.waits id w' hw'
    exact ⟨w'', hw'', hs.trans hs'⟩

end Extends

/-- A lawful successor extends the snapshot that it replaces. -/
theorem SuccessorLaw.extends {prev next : RunSnapshot} {expected : UInt64}
    (law : SuccessorLaw c prev expected next) : Extends c prev next where
  id := law.id
  scope := law.scope
  actor := law.actor
  resources := law.resources
  definition := law.definition
  package := law.package
  input := law.input
  artifacts := law.artifacts
  created := law.created
  deadline := law.deadline
  format := law.format
  cancel := law.cancel
  audit := law.audit
  succeeded := law.succeeded
  terminal := law.terminal
  waits id w hw := by
    obtain ⟨w', hw'⟩ := law.waits.kept id w hw
    obtain ⟨record, h⟩ := law.waits.wait id w' hw'
    refine ⟨w', hw', h.step w ?_⟩
    rw [law.waits.named id w' hw']
    exact hw

/-! ## Chains of accepted snapshots -/

/-- The snapshots a run went through, newest first. -/
inductive Chain (c : Comparison) : List RunSnapshot → Prop where
  | nil : Chain c []
  | start {s : RunSnapshot} : s.InitialLaw → Chain c [s]
  | step {next prev : RunSnapshot} {older : List RunSnapshot} :
      Chain c (prev :: older) → SuccessorLaw c prev prev.revision next →
      Chain c (next :: prev :: older)

/-- A consumed timer returned the input its record had just before it was consumed. -/
def TimerConsumed (c : Comparison) (chain : List RunSnapshot) (w : WaitRecord)
    (record : InvocationRecord) : Prop :=
  ∃ (newer older : List RunSnapshot) (next prev : RunSnapshot) (w' : WaitRecord)
    (before : InvocationRecord),
    chain = newer ++ next :: prev :: older ∧
      prev.waits[w.id]? = some w' ∧ w'.state = .open ∧ Same c next.waits[w.id]? (some w) ∧
      prev.invocations[w.node]? = some before ∧ Same c record.output (some before.input)

/-- The law of a history: what every snapshot of it satisfies, and what any later snapshot
keeps of an earlier one. -/
structure HistoryLaw (c : Comparison) (chain : List RunSnapshot) : Prop where
  /-- One accepted call, one revision. -/
  revision : ∀ (older newer : List RunSnapshot) (s : RunSnapshot), chain = newer ++ s :: older →
    s.revision.toNat = older.length
  /-- Later snapshots extend earlier ones. -/
  extend : chain.Pairwise fun newer older => Extends c older newer
  /-- Every snapshot satisfies the wait invariant. -/
  waits : ∀ s ∈ chain, WaitsInv c s
  /-- Consumed timers returned their input. -/
  timers : ∀ (newer older : List RunSnapshot) (s : RunSnapshot), chain = newer ++ s :: older →
    ∀ (id : String) (w : WaitRecord) (record : InvocationRecord), s.waits[id]? = some w →
      w.kind = .timer → w.state = .consumed → s.invocations[w.node]? = some record →
      TimerConsumed c (s :: older) w record

namespace Chain

/-- The older snapshots form a chain themselves. -/
theorem tail {s : RunSnapshot} {older : List RunSnapshot} (h : Chain c (s :: older)) :
    Chain c older := by
  cases h with
  | start => exact .nil
  | step h' _ => exact h'

/-- Every suffix of a chain is a chain. -/
theorem suffix {newer older : List RunSnapshot} (h : Chain c (newer ++ older)) : Chain c older := by
  induction newer with
  | nil => exact h
  | cons s newer ih => exact ih h.tail

theorem head_inv {s : RunSnapshot} {older : List RunSnapshot} (h : Chain c (s :: older)) :
    WaitsInv c s := by
  cases h with
  | start h' => exact h'.inv
  | step _ law => exact law.waits.inv

/-- The revision counts the commits. -/
theorem head_revision {s : RunSnapshot} {older : List RunSnapshot} (h : Chain c (s :: older)) :
    s.revision.toNat = older.length := by
  induction older generalizing s with
  | nil =>
    cases h with
    | start h' => simp [h'.revision]
  | cons prev older ih =>
    cases h with
    | step h' law =>
      have hr := checkedAdd_eq_some.mp law.revision
      have := ih h'
      simp only [List.length_cons]
      rw [← hr, this]
      rfl

/-- The newest snapshot extends every older one. -/
theorem extends_all {s : RunSnapshot} {older : List RunSnapshot} (h : Chain c (s :: older)) :
    ∀ t ∈ older, Extends c t s := by
  induction older generalizing s with
  | nil => simp
  | cons prev older ih =>
    cases h with
    | step h' law =>
      have hs := law.extends
      intro t ht
      rcases List.mem_cons.mp ht with rfl | ht
      · exact hs
      · exact (ih h' t ht).trans hs

/-- The step that consumed a timer took the input of its record as the output. -/
theorem timer_consumed {s : RunSnapshot} {older : List RunSnapshot} (h : Chain c (s :: older))
    {id : String} {w : WaitRecord} {record : InvocationRecord} (hw : s.waits[id]? = some w)
    (hk : w.kind = .timer) (hc : w.state = .consumed)
    (hr : s.invocations[w.node]? = some record) : TimerConsumed c (s :: older) w record := by
  induction older generalizing s w record with
  | nil =>
    cases h with
    | start h' => simp [h'.waits] at hw
  | cons prev older ih =>
    cases h with
    | step h' law =>
      have hid := law.waits.named id w hw
      obtain ⟨record', hlaw⟩ := law.waits.wait id w hw
      obtain rfl : record' = record := Option.some.inj (hlaw.found.symm.trans hr)
      cases hp : prev.waits[id]? with
      | none =>
        have := (hlaw.fresh (hid ▸ hp)).1
        rw [hc] at this
        nomatch this
      | some w' =>
        have hstep := hlaw.step w' (hid ▸ hp)
        by_cases hopen : w'.state = .open
        · -- consumed right here: the output check compared with the open wait before
          rcases hlaw.output hc with ⟨_, ho⟩ | ⟨hk', _, _⟩
          · obtain ⟨before, hb⟩ := h'.head_inv.wait id w' hp
            have hnode : prev.invocations[w.node]? = some before := hstep.node ▸ hb.found
            refine ⟨[], older, s, prev, w', before, rfl, hid ▸ hp, hopen, .of_eq (hid ▸ hw),
              hnode, ?_⟩
            have := ho (by rw [hid, hp]; simp [hopen])
            rwa [hnode] at this
          · rw [hk] at hk'
            nomatch hk'
        · -- consumed before: neither the wait nor its record changed since
          have hsame := hstep.settled hopen
          have hc' : w'.state = .consumed := (WaitRecord.same_state hsame).trans hc
          obtain ⟨before, hb⟩ := h'.head_inv.wait id w' hp
          have hkept := law.succeeded _ before hb.found (hb.state.mpr hc')
          rw [hstep.node, hr, same_some] at hkept
          have hk' : w'.kind = .timer := WaitKind.same_timer (hk ▸ hstep.kind)
          obtain ⟨newer, rest, next, prev', w'', b, hsplit, hprev, hopen', hnext, hbefore, hout⟩ :=
            ih h' hp hk' hc' hb.found
          rw [hstep.id] at hprev hnext
          rw [hstep.node] at hbefore
          exact ⟨s :: newer, rest, next, prev', w'', b, by rw [hsplit]; rfl, hprev, hopen',
            hnext.trans (same_some.mpr hsame), hbefore,
            (InvocationRecord.same_output hkept).trans hout⟩

/-- The history law holds of every chain of accepted snapshots. -/
theorem law {chain : List RunSnapshot} (h : Chain c chain) : HistoryLaw c chain where
  revision older newer s hsplit := by
    subst hsplit
    exact h.suffix.head_revision
  extend := by
    induction chain with
    | nil => exact .nil
    | cons s older ih => exact .cons h.extends_all (ih h.tail)
  waits s hs := by
    obtain ⟨newer, older, rfl⟩ := List.append_of_mem hs
    exact h.suffix.head_inv
  timers newer older s hsplit id w record hw hk hc hr := by
    subst hsplit
    exact h.suffix.timer_consumed hw hk hc hr

end Chain

end

/-! ## A small run -/

/-- A small accepted run, for examples. -/
def sampleRun : RunSnapshot where
  checkpointFormat := checkpointFormat
  id := "run"
  scope := "scope"
  actor := "host"
  resources := ∅
  revision := 0
  definition := ⟨"2", "flow", "1", "", .null, .null, "a", [], [], .literal .null, ∅⟩
  package := {}
  input := .null
  state := .accepted
  invocations := ∅
  output := none
  error := none
  createdAtMs := 0
  deadlineAtMs := 1000
  finishedAtMs := none
  cancelRequested := false

theorem sampleRun_initial : sampleRun.InitialLaw :=
  ⟨rfl, rfl, rfl, rfl, rfl, rfl, rfl, rfl, rfl, rfl, rfl, by decide, by decide,
    by simp [sampleRun], by decide⟩

/-- A first attempt of an operation, for examples. -/
def sampleRecord : InvocationRecord where
  id := "i"
  attemptId := "t"
  attempts := 1
  state := .running
  input := .null
  output := none
  error := none

/-- The attempt with a float as its input, for examples. -/
def floatRecord (repr : String) : InvocationRecord :=
  { sampleRecord with input := .number (.float repr) }

end WorkflowForge
