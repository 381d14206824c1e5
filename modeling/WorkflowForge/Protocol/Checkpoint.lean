import WorkflowForge.Lib.Word
import WorkflowForge.Protocol.Comparison

/-!
# Checkpoint Validation

The checks a store makes in the same transaction as a replacement: what a first snapshot
looks like, and what a successor may change. Each check is the boolean the code computes;
beside it stands the law it decides, a structure with one field per clause, and the
equivalence of the two. A check compares documents as the source does, so the law it decides
is that of this comparison; transitions that change no text satisfy the law of texts.

## Main results

- `validateWaits_ok_iff`: a snapshot passes the wait checks exactly when `WaitsLaw` holds.
- `validateSuccessor_ok_iff`: a replacement is accepted exactly when `SuccessorLaw` holds.
- `validateSuccessor_error`: every refusal is a `state.conflict`.
-/

namespace WorkflowForge

open Lib

/-! ## One wait -/

/-- Artifact identities strictly increase along the list. -/
def idsIncrease : List ArtifactRef → Bool
  | a :: b :: rest => a.id < b.id && idsIncrease (b :: rest)
  | _ => true

namespace WaitRecord

/-- The wait names itself and ends within its run. -/
def boundedBy (w : WaitRecord) (id : String) (run : RunSnapshot) : Bool :=
  w.id = id ∧ w.createdAtMs ≤ w.deadlineAtMs ∧ w.deadlineAtMs ≤ run.deadlineAtMs

/-- What a wait may change of the wait before it; a new wait is open and undelivered. -/
def succeeds (w : WaitRecord) : Option WaitRecord → Bool
  | some old =>
    old.id = w.id ∧ old.node = w.node ∧ Same .source old.kind w.kind ∧
      old.createdAtMs = w.createdAtMs ∧ old.deadlineAtMs = w.deadlineAtMs ∧
      (old.startConfirmed → w.startConfirmed) ∧ (old.state ≠ .open → Same .source old w) ∧
      (old.delivery.isSome → Same .source old.delivery w.delivery)
  | none => w.state = .open ∧ w.delivery = none

/-- A recorded delivery answers this wait, in time. -/
def accepts (w : WaitRecord) (id correlation : String) (run : RunSnapshot)
    (d : SignalDelivery) : Bool :=
  d.command.runId = run.id ∧ d.command.waitId = id ∧ d.command.correlation = correlation ∧
    d.command.messageId ≠ "" ∧ d.command.messageId.utf8ByteSize ≤ 256 ∧
    d.receipt.runId = run.id ∧ d.receipt.waitId = id ∧
    d.receipt.messageId = d.command.messageId ∧ d.receipt.duplicate = false ∧
    w.createdAtMs ≤ d.receipt.acceptedAtMs ∧ d.receipt.acceptedAtMs < w.deadlineAtMs ∧
    w.state ≠ .expired ∧ d.command.artifacts.length ≤ 1000 ∧
    (∀ a ∈ d.command.artifacts, a.scope = run.scope) ∧ idsIncrease d.command.artifacts

/-- The start operation of a wait has succeeded, if it has one. -/
def startSucceeded (startNode : Option String) (run : RunSnapshot) : Bool :=
  match startNode with
  | none => true
  | some key => (run.invocations[key]?.map InvocationRecord.state) = some .succeeded

/-- The clauses that depend on what is awaited. -/
def kindValid (w : WaitRecord) (id : String) (run : RunSnapshot) : Bool :=
  match w.kind with
  | .timer => w.delivery = none ∧ w.startConfirmed ∧ w.state ≠ .expired
  | .signal correlation _ startNode =>
    correlation ≠ "" ∧ correlation.utf8ByteSize ≤ 256 ∧
      (startNode = none → w.startConfirmed) ∧
      (w.startConfirmed → startSucceeded startNode run) ∧
      w.delivery.all (w.accepts id correlation run) ∧
      (w.state = .consumed → w.delivery.isSome ∧ w.startConfirmed)

/-- The output of a consumed signal wait: what its start returned, and what was signalled.
An object lists its members in key order. -/
def signalOutput (startNode : Option String) (run : RunSnapshot) (payload : Value) : Value :=
  let started := ((startNode.bind fun key => run.invocations[key]?).bind
    InvocationRecord.output).getD .null
  .object [("signal", payload), ("start", started)]

/-- The output of a consumed wait. A timer returns the input it had while it was open. -/
def outputValid (w : WaitRecord) (id : String) (previous run : RunSnapshot)
    (record : InvocationRecord) : Bool :=
  match w.kind with
  | .signal _ _ startNode =>
    match w.delivery with
    | none => false
    | some d => Same .source record.output (some (signalOutput startNode run d.command.payload))
  | .timer =>
    (previous.waits[id]?.map WaitRecord.state) = some .open →
      Same .source record.output (previous.invocations[w.node]?.map InvocationRecord.input)

end WaitRecord

namespace RunSnapshot

/-- All checks on one wait against the record of its node. -/
def validWait (self previous : RunSnapshot) (id : String) (w : WaitRecord) : Bool :=
  w.boundedBy id self &&
    match self.invocations[w.node]? with
    | none => false
    | some record =>
      record.control = some (.wait id) &&
        decide (record.state = .succeeded → w.state = .consumed) &&
        w.succeeds previous.waits[id]? && w.kindValid id self &&
        decide (w.state = .consumed → record.state = .succeeded) &&
        (w.state ≠ .consumed || w.outputValid id previous self record)

/-- A record under wait control belongs to the wait it names. -/
def recordOwned (self : RunSnapshot) (key : String) (record : InvocationRecord) : Bool :=
  match record.control with
  | some (.wait id) => (self.waits[id]?.map WaitRecord.node) = some key
  | _ => true

def invalidWait : ForgeError :=
  .new "state.conflict" "Wait transition violates its accepted identity or receipt"

/-- Store-independent checks on the waits of a replacement. -/
def validateWaits (self previous : RunSnapshot) : Except ForgeError Unit :=
  if BTreeMap.all (fun id _ => self.waits.contains id) previous.waits &&
      (!self.state.isTerminal || BTreeMap.all (fun _ w => w.state ≠ .open) self.waits) &&
      BTreeMap.all self.recordOwned self.invocations &&
      BTreeMap.all (self.validWait previous) self.waits
  then .ok () else .error invalidWait

/-! ## Snapshots -/

def conflict : ForgeError :=
  .new "state.conflict" "Transition does not match the current run revision"

/-- Storage invariants of a first snapshot. -/
def validateInitial (self : RunSnapshot) : Except ForgeError Unit :=
  if self.revision = 0 ∧ self.checkpointFormat = WorkflowForge.checkpointFormat ∧
      self.state = .accepted ∧ self.invocations = ∅ ∧ self.waits = ∅ ∧ self.output = none ∧
      self.error = none ∧ self.finishedAtMs = none ∧ self.cancelRequested = false ∧
      self.audit = [] ∧ self.unresolvedEffects = [] ∧
      self.createdAtMs ≤ self.deadlineAtMs ∧ self.artifacts.length ≤ 1000 ∧
      (∀ a ∈ self.artifacts, a.scope = self.scope) ∧ (self.artifacts.map ArtifactRef.id).Nodup
  then .ok () else .error conflict

/-- A terminal run changes nothing but its revision and its audit. -/
def terminalChanged (self next : RunSnapshot) : Bool :=
  self.state.isTerminal &&
    !decide (Same .source { next with revision := self.revision, audit := self.audit } self)

/-- A succeeded record is kept as it is. -/
def keepsSucceeded (next : RunSnapshot) (key : String) (record : InvocationRecord) : Bool :=
  record.state = .succeeded → Same .source next.invocations[key]? (some record)

/-- Checks of a replacement, in the critical section of the replacement itself. -/
def validateSuccessor (self : RunSnapshot) (expected : UInt64) (next : RunSnapshot) :
    Except ForgeError Unit := do
  next.validateWaits self
  if self.revision ≠ expected ∨ some next.revision ≠ checkedAdd expected 1 ∨
      self.id ≠ next.id ∨ self.scope ≠ next.scope ∨ self.actor ≠ next.actor ∨
      self.resources ≠ next.resources ∨ ¬ Same .source self.definition next.definition ∨
      ¬ Same .source self.package next.package ∨ ¬ Same .source self.input next.input ∨
      self.artifacts ≠ next.artifacts ∨ self.createdAtMs ≠ next.createdAtMs ∨
      self.deadlineAtMs ≠ next.deadlineAtMs ∨
      self.checkpointFormat ≠ next.checkpointFormat ∨
      (self.cancelRequested ∧ next.cancelRequested = false) ∨
      BTreeMap.all next.keepsSucceeded self.invocations = false ∨
      (self.audit.map signless).isPrefixOf (next.audit.map signless) = false ∨
      self.terminalChanged next
  then .error conflict else .ok ()

end RunSnapshot

/-! ## The laws the checks decide -/

/-- What stays of a wait from one snapshot to the next. -/
structure WaitStep (c : Comparison) (old new : WaitRecord) : Prop where
  id : old.id = new.id
  node : old.node = new.node
  kind : Same c old.kind new.kind
  created : old.createdAtMs = new.createdAtMs
  deadline : old.deadlineAtMs = new.deadlineAtMs
  confirmed : old.startConfirmed = true → new.startConfirmed = true
  settled : old.state ≠ .open → Same c old new
  delivered : old.delivery.isSome = true → Same c old.delivery new.delivery

/-- A recorded delivery of a wait. -/
structure DeliveryLaw (run : RunSnapshot) (w : WaitRecord) (correlation : String)
    (d : SignalDelivery) : Prop where
  runId : d.command.runId = run.id
  waitId : d.command.waitId = w.id
  correlates : d.command.correlation = correlation
  message : d.command.messageId ≠ ""
  messageSize : d.command.messageId.utf8ByteSize ≤ 256
  receiptRun : d.receipt.runId = run.id
  receiptWait : d.receipt.waitId = w.id
  receiptMessage : d.receipt.messageId = d.command.messageId
  original : d.receipt.duplicate = false
  notEarly : w.createdAtMs ≤ d.receipt.acceptedAtMs
  inTime : d.receipt.acceptedAtMs < w.deadlineAtMs
  live : w.state ≠ .expired
  artifactCount : d.command.artifacts.length ≤ 1000
  artifactScope : ∀ a ∈ d.command.artifacts, a.scope = run.scope
  artifactOrder : idsIncrease d.command.artifacts = true

/-- The start operation of a wait is recorded as succeeded, if it has one. -/
def StartDone (run : RunSnapshot) (startNode : Option String) : Prop :=
  ∀ key ∈ startNode, ∃ r, run.invocations[key]? = some r ∧ r.state = .succeeded

/-- The clauses that depend on what is awaited. -/
inductive KindLaw (run : RunSnapshot) (w : WaitRecord) : Prop where
  | timer (kind : w.kind = .timer) (undelivered : w.delivery = none)
      (confirmed : w.startConfirmed = true) (live : w.state ≠ .expired)
  | signal {correlation : String} {payloadSchema : Value} {startNode : Option String}
      (kind : w.kind = .signal correlation payloadSchema startNode)
      (nonempty : correlation ≠ "") (size : correlation.utf8ByteSize ≤ 256)
      (unstarted : startNode = none → w.startConfirmed = true)
      (started : w.startConfirmed = true → StartDone run startNode)
      (delivery : ∀ d ∈ w.delivery, DeliveryLaw run w correlation d)
      (consumed : w.state = .consumed → w.delivery.isSome = true ∧ w.startConfirmed = true)

/-- The output of a consumed wait is determined by the wait. -/
inductive OutputLaw (c : Comparison) (prev next : RunSnapshot) (w : WaitRecord)
    (record : InvocationRecord) : Prop where
  | timer (kind : w.kind = .timer)
      (output : (prev.waits[w.id]?.map WaitRecord.state) = some .open →
        Same c record.output (prev.invocations[w.node]?.map InvocationRecord.input))
  | signal {correlation : String} {payloadSchema : Value} {startNode : Option String}
      {d : SignalDelivery} (kind : w.kind = .signal correlation payloadSchema startNode)
      (delivery : w.delivery = some d)
      (output : Same c record.output
        (some (WaitRecord.signalOutput startNode next d.command.payload)))

/-- One wait of a snapshot, with the record of its node. -/
structure WaitLaw (c : Comparison) (prev next : RunSnapshot) (w : WaitRecord)
    (record : InvocationRecord) : Prop where
  ordered : w.createdAtMs ≤ w.deadlineAtMs
  bounded : w.deadlineAtMs ≤ next.deadlineAtMs
  found : next.invocations[w.node]? = some record
  control : record.control = some (.wait w.id)
  state : record.state = .succeeded ↔ w.state = .consumed
  step : ∀ old, prev.waits[w.id]? = some old → WaitStep c old w
  fresh : prev.waits[w.id]? = none → w.state = .open ∧ w.delivery = none
  kind : KindLaw next w
  output : w.state = .consumed → OutputLaw c prev next w record

/-- All waits of a snapshot, against the snapshot before it. -/
structure WaitsLaw (c : Comparison) (prev next : RunSnapshot) : Prop where
  kept : ∀ (id : String) (w : WaitRecord), prev.waits[id]? = some w →
    ∃ w', next.waits[id]? = some w'
  settled : next.state.isTerminal = true →
    ∀ (id : String) (w : WaitRecord), next.waits[id]? = some w → w.state ≠ .open
  owned : ∀ (key id : String) (r : InvocationRecord), next.invocations[key]? = some r →
    r.control = some (.wait id) → ∃ w, next.waits[id]? = some w ∧ w.node = key
  named : ∀ (id : String) (w : WaitRecord), next.waits[id]? = some w → w.id = id
  wait : ∀ (id : String) (w : WaitRecord), next.waits[id]? = some w →
    ∃ record, WaitLaw c prev next w record

/-- An accepted replacement. -/
structure SuccessorLaw (c : Comparison) (prev : RunSnapshot) (expected : UInt64)
    (next : RunSnapshot) : Prop where
  waits : WaitsLaw c prev next
  base : prev.revision = expected
  revision : checkedAdd expected 1 = some next.revision
  id : prev.id = next.id
  scope : prev.scope = next.scope
  actor : prev.actor = next.actor
  resources : prev.resources = next.resources
  definition : Same c prev.definition next.definition
  package : Same c prev.package next.package
  input : Same c prev.input next.input
  artifacts : prev.artifacts = next.artifacts
  created : prev.createdAtMs = next.createdAtMs
  deadline : prev.deadlineAtMs = next.deadlineAtMs
  format : prev.checkpointFormat = next.checkpointFormat
  cancel : prev.cancelRequested = true → next.cancelRequested = true
  succeeded : ∀ (key : String) (r : InvocationRecord), prev.invocations[key]? = some r →
    r.state = .succeeded → Same c next.invocations[key]? (some r)
  audit : SamePrefix c prev.audit next.audit
  terminal : prev.state.isTerminal = true →
    Same c { next with revision := prev.revision, audit := prev.audit } prev

/-! ## Each check decides its law -/

namespace WaitRecord

theorem succeeds_iff {w : WaitRecord} {previous : Option WaitRecord} :
    w.succeeds previous = true ↔
      (∀ old, previous = some old → WaitStep .source old w) ∧
        (previous = none → w.state = .open ∧ w.delivery = none) := by
  cases previous with
  | none => simp [succeeds]
  | some old =>
    simp only [succeeds, decide_eq_true_eq, Option.some.injEq, forall_eq', reduceCtorEq,
      false_implies, and_true]
    constructor
    · rintro ⟨h₁, h₂, h₃, h₄, h₅, h₆, h₇, h₈⟩
      exact ⟨h₁, h₂, h₃, h₄, h₅, h₆, h₇, h₈⟩
    · rintro ⟨h₁, h₂, h₃, h₄, h₅, h₆, h₇, h₈⟩
      exact ⟨h₁, h₂, h₃, h₄, h₅, h₆, h₇, h₈⟩

theorem accepts_iff {w : WaitRecord} {id correlation : String} {run : RunSnapshot}
    {d : SignalDelivery} (h : w.id = id) :
    w.accepts id correlation run d = true ↔ DeliveryLaw run w correlation d := by
  subst h
  simp only [accepts, decide_eq_true_eq]
  constructor
  · rintro ⟨h₁, h₂, h₃, h₄, h₅, h₆, h₇, h₈, h₉, h₁₀, h₁₁, h₁₂, h₁₃, h₁₄, h₁₅⟩
    exact ⟨h₁, h₂, h₃, h₄, h₅, h₆, h₇, h₈, h₉, h₁₀, h₁₁, h₁₂, h₁₃, h₁₄, h₁₅⟩
  · rintro ⟨h₁, h₂, h₃, h₄, h₅, h₆, h₇, h₈, h₉, h₁₀, h₁₁, h₁₂, h₁₃, h₁₄, h₁₅⟩
    exact ⟨h₁, h₂, h₃, h₄, h₅, h₆, h₇, h₈, h₉, h₁₀, h₁₁, h₁₂, h₁₃, h₁₄, h₁₅⟩

theorem startSucceeded_iff {startNode : Option String} {run : RunSnapshot} :
    startSucceeded startNode run = true ↔ StartDone run startNode := by
  cases startNode <;> simp [startSucceeded, StartDone]

theorem kindValid_iff {w : WaitRecord} {id : String} {run : RunSnapshot} (h : w.id = id) :
    w.kindValid id run = true ↔ KindLaw run w := by
  unfold kindValid
  split
  -- a timer has neither correlation nor delivery
  next hk =>
    rw [decide_eq_true_eq]
    constructor
    · rintro ⟨h₁, h₂, h₃⟩
      exact .timer hk h₁ h₂ h₃
    · rintro (⟨_, h₁, h₂, h₃⟩ | ⟨hk', _, _, _, _, _, _⟩)
      · exact ⟨h₁, h₂, h₃⟩
      · rw [hk] at hk'
        cases hk'
  -- a signal is checked against its delivery and its start
  next correlation payloadSchema startNode hk =>
    have hd : w.delivery.all (w.accepts id correlation run) = true ↔
        ∀ d ∈ w.delivery, DeliveryLaw run w correlation d := by
      cases w.delivery <;> simp [accepts_iff h]
    rw [decide_eq_true_eq, hd, startSucceeded_iff]
    constructor
    · rintro ⟨h₁, h₂, h₃, h₄, h₅, h₆⟩
      exact .signal hk h₁ h₂ h₃ h₄ h₅ h₆
    · rintro (⟨hk', _, _, _⟩ | ⟨hk', h₁, h₂, h₃, h₄, h₅, h₆⟩)
      · rw [hk] at hk'
        cases hk'
      · rw [hk] at hk'
        obtain ⟨rfl, rfl, rfl⟩ := WaitKind.signal.inj hk'
        exact ⟨h₁, h₂, h₃, h₄, h₅, h₆⟩

theorem outputValid_iff {w : WaitRecord} {id : String} {prev next : RunSnapshot}
    {record : InvocationRecord} (h : w.id = id) :
    w.outputValid id prev next record = true ↔ OutputLaw .source prev next w record := by
  subst h
  unfold outputValid
  split
  -- a signal: the payload is the output
  next correlation payloadSchema startNode hk =>
    constructor
    · intro hv
      split at hv
      · nomatch hv
      next d hd => exact .signal hk hd (of_decide_eq_true hv)
    · rintro (⟨hk', _⟩ | ⟨hk', hd, ho⟩)
      · rw [hk] at hk'
        nomatch hk'
      · rw [hk] at hk'
        obtain ⟨rfl, rfl, rfl⟩ := WaitKind.signal.inj hk'
        rw [hd]
        exact decide_eq_true ho
  -- a timer: the input is the output
  next hk =>
    rw [decide_eq_true_eq]
    constructor
    · exact .timer hk
    · rintro (⟨_, ho⟩ | ⟨hk', _, _⟩)
      · exact ho
      · rw [hk] at hk'
        nomatch hk'

end WaitRecord

namespace RunSnapshot

theorem validWait_iff {prev next : RunSnapshot} {id : String} {w : WaitRecord} :
    next.validWait prev id w = true ↔ w.id = id ∧ ∃ record, WaitLaw .source prev next w record := by
  unfold validWait WaitRecord.boundedBy
  rw [Bool.and_eq_true, decide_eq_true_eq]
  constructor
  · rintro ⟨⟨rfl, hordered, hbounded⟩, hv⟩
    refine ⟨rfl, ?_⟩
    split at hv
    · nomatch hv
    next record hr =>
      simp only [Bool.and_eq_true, Bool.or_eq_true, decide_eq_true_eq, ne_eq,
        WaitRecord.succeeds_iff, WaitRecord.kindValid_iff rfl,
        WaitRecord.outputValid_iff rfl] at hv
      -- the two halves of the equivalence of states are two checks of the source
      obtain ⟨⟨⟨⟨⟨hcontrol, h₁⟩, hstep, hfresh⟩, hkind⟩, h₂⟩, hout⟩ := hv
      exact ⟨record, hordered, hbounded, hr, hcontrol, ⟨h₁, h₂⟩, hstep, hfresh, hkind,
        fun hc => hout.resolve_left fun hn => hn hc⟩
  · rintro ⟨rfl, record, law⟩
    refine ⟨⟨rfl, law.ordered, law.bounded⟩, ?_⟩
    rw [law.found]
    simp only [Bool.and_eq_true, Bool.or_eq_true, decide_eq_true_eq, ne_eq,
      WaitRecord.succeeds_iff, WaitRecord.kindValid_iff rfl, WaitRecord.outputValid_iff rfl]
    refine ⟨⟨⟨⟨⟨law.control, law.state.mp⟩, law.step, law.fresh⟩, law.kind⟩, law.state.mpr⟩, ?_⟩
    by_cases hc : w.state = .consumed
    · exact .inr (law.output hc)
    · exact .inl hc

theorem recordOwned_iff {next : RunSnapshot} {key : String} {r : InvocationRecord} :
    next.recordOwned key r = true ↔
      ∀ id, r.control = some (.wait id) → ∃ w, next.waits[id]? = some w ∧ w.node = key := by
  unfold recordOwned
  split
  next id hc =>
    rw [decide_eq_true_eq, Option.map_eq_some_iff]
    constructor
    · rintro h id' hid
      rw [hc] at hid
      obtain rfl : id = id' := by simpa using hid
      exact h
    · intro h
      exact h id hc
  next hc =>
    simp only [true_iff]
    intro id hid
    exact absurd hid (hc id)

/-- The wait checks decide the wait law. -/
theorem validateWaits_ok_iff {prev next : RunSnapshot} :
    next.validateWaits prev = .ok () ↔ WaitsLaw .source prev next := by
  unfold validateWaits
  -- the check has one error
  have hiff : ∀ {b : Bool}, (if b = true then Except.ok () else Except.error invalidWait) =
      (Except.ok () : Except ForgeError Unit) ↔ b = true := by
    intro b
    cases b <;> simp
  rw [hiff]
  simp only [Bool.and_eq_true, Bool.or_eq_true, Bool.not_eq_true', BTreeMap.all_iff,
    recordOwned_iff, validWait_iff, decide_eq_true_eq]
  constructor
  · rintro ⟨⟨⟨hkept, hsettled⟩, howned⟩, hwait⟩
    refine ⟨fun id w hw => ?_, fun ht => ?_, fun key id r hr => howned key r hr id,
      fun id w hw => (hwait id w hw).1, fun id w hw => (hwait id w hw).2⟩
    · have := hkept id w hw
      exact Option.isSome_iff_exists.mp (by simpa using this)
    · rcases hsettled with h | h
      · rw [ht] at h
        nomatch h
      · exact h
  · intro law
    refine ⟨⟨⟨fun id w hw => ?_, ?_⟩, fun key r hr id => law.owned key id r hr⟩,
      fun id w hw => ⟨law.named id w hw, law.wait id w hw⟩⟩
    · obtain ⟨w', hw'⟩ := law.kept id w hw
      rw [Std.ExtTreeMap.contains_eq_isSome_getElem?, hw']
      rfl
    · cases ht : next.state.isTerminal with
      | true => exact .inr (law.settled ht)
      | false => exact .inl rfl

theorem validateWaits_eq (prev next : RunSnapshot) :
    next.validateWaits prev = .ok () ∨ next.validateWaits prev = .error invalidWait := by
  unfold validateWaits
  split
  · exact .inl rfl
  · exact .inr rfl

theorem keepsSucceeded_iff {next : RunSnapshot} {key : String} {r : InvocationRecord} :
    next.keepsSucceeded key r = true ↔
      (r.state = .succeeded → Same .source next.invocations[key]? (some r)) := by
  rw [keepsSucceeded, decide_eq_true_eq]

/-- The replacement checks decide the successor law. -/
theorem validateSuccessor_ok_iff {prev : RunSnapshot} {expected : UInt64}
    {next : RunSnapshot} :
    prev.validateSuccessor expected next = .ok () ↔ SuccessorLaw .source prev expected next := by
  unfold validateSuccessor
  -- the waits are checked first
  rcases validateWaits_eq prev next with hw | hw
  · have hwaits := validateWaits_ok_iff.mp hw
    rw [hw]
    change (if _ then _ else _) = _ ↔ _
    constructor
    · intro h
      split at h
      · nomatch h
      next hn =>
        simp only [not_or, ne_eq, not_not, not_and, Bool.not_eq_true, Bool.not_eq_false,
          BTreeMap.all_iff, keepsSucceeded_iff] at hn
        obtain ⟨base, revision, id, scope, actor, resources, definition, package, input,
          artifacts, created, deadline, format, cancel, succeeded, audit, terminal⟩ := hn
        refine ⟨hwaits, base, revision.symm, id, scope, actor, resources, definition, package,
          input, artifacts, created, deadline, format, cancel, succeeded,
          List.isPrefixOf_iff_prefix.mp audit, fun ht => ?_⟩
        simpa [terminalChanged, ht] using terminal
    · intro law
      rw [if_neg]
      simp only [not_or, ne_eq, not_not, not_and, Bool.not_eq_true, Bool.not_eq_false,
        BTreeMap.all_iff, keepsSucceeded_iff]
      refine ⟨law.base, law.revision.symm, law.id, law.scope, law.actor, law.resources,
        law.definition, law.package, law.input, law.artifacts, law.created, law.deadline,
        law.format, law.cancel, law.succeeded, List.isPrefixOf_iff_prefix.mpr law.audit, ?_⟩
      cases ht : prev.state.isTerminal with
      | true => simp [terminalChanged, ht, law.terminal ht]
      | false => simp [terminalChanged, ht]
  -- no other check is made where the waits are refused
  · rw [hw]
    constructor
    · intro h
      nomatch h
    · intro law
      rw [validateWaits_ok_iff.mpr law.waits] at hw
      nomatch hw

/-- Every refusal of a replacement is a `state.conflict`. -/
theorem validateSuccessor_error {prev : RunSnapshot} {expected : UInt64} {next : RunSnapshot}
    {e : ForgeError} (h : prev.validateSuccessor expected next = .error e) :
    e.code = "state.conflict" := by
  unfold validateSuccessor at h
  rcases validateWaits_eq prev next with hw | hw
  · rw [hw] at h
    change (if _ then _ else _) = _ at h
    split at h
    · obtain rfl := Except.error.inj h
      rfl
    · nomatch h
  · rw [hw] at h
    obtain rfl := Except.error.inj h
    rfl

end RunSnapshot

end WorkflowForge
