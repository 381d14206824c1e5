import WorkflowForge.Engine.Access
import WorkflowForge.Engine.Waits

/-!
# Signals

The command that delivers a message to an open signal wait. The command is checked once,
then decided on the run at one revision; a wait that already accepted a message answers the
same command with the same receipt.

## Main results

- `deliver_duplicate`, `deliver_conflict`: what a wait answers once it has a delivery.
- `deliver_eq_some`: what a new delivery requires and changes.
- `checkSignal_eq_ok`: what an admitted command satisfies.
-/

namespace WorkflowForge.Engine

open Lib

/-! ## Checks on the command -/

def sortArtifacts (artifacts : List ArtifactRef) : List ArtifactRef :=
  artifacts.mergeSort fun a b => a.id ≤ b.id

/-- Neighbouring artifacts with one identity. -/
def repeatsIdentity : List ArtifactRef → Bool
  | a :: b :: rest => a.id = b.id || repeatsIdentity (b :: rest)
  | _ => false

def signalIdentity : ForgeError :=
  .new "data.invalid" "Signal identities must contain 1 to 256 bytes"

def signalArtifacts : ForgeError :=
  .new "resource.limit" "Signal artifact declarations exceed their budget"

/-- Artifacts need a grant of the caller, and a store that keeps them with the run. -/
def checkSignalArtifacts (c : Composition) (access : AccessContext) (command : SignalCommand) :
    Except ForgeError Unit :=
  if command.artifacts = [] then .ok ()
  else if !access.permitsResource "artifacts" ∨
      command.artifacts.any (fun a => a.scope ≠ access.scope) then
    .error (.new "access.denied" "Signal artifacts are outside the caller's grants")
  else if c.durable ∧ ¬c.coordinatedArtifacts then
    .error (.new "capability.unsupported" "Signal artifacts require coordinated retention")
  else .ok ()

/-- The checks before a run is read; answers the command with its artifacts in order. -/
def checkSignal (c : Composition) (access : AccessContext) (received : SignalCommand) :
    Except ForgeError SignalCommand := do
  ensure ([received.waitId, received.messageId, received.correlation].all validCorrelation)
    signalIdentity
  let _ ← checkValue received.payload (min c.limits.signalBytes c.limits.valueBytes)
    c.limits.jsonDepth
  let command := { received with artifacts := sortArtifacts received.artifacts }
  ensure (command.artifacts.length ≤ 1000 ∧ ¬repeatsIdentity command.artifacts ∧
    jsonBytes command.artifacts ≤ c.limits.valueBytes) signalArtifacts
  checkSignalArtifacts c access command
  return command

/-! ## Delivery -/

def reservationUnavailable : ForgeError :=
  .new "wait.not_found" "Signal reservation is unavailable"

def notASignal : ForgeError :=
  .new "wait.not_found" "Target is not a signal reservation"

def differentSignal : ForgeError :=
  .new "state.conflict" "Reservation already accepted a different signal"

def correlationMismatch : ForgeError :=
  .new "data.invalid" "Signal correlation does not match"

def signalsClosed : ForgeError :=
  .new "state.conflict" "Run no longer admits signals"

def signalRetention : ForgeError :=
  .new "resource.limit" "Signal exceeds the run retention budget"

/-- The receipt of a message accepted at time `now`. -/
def signalReceipt (c : Composition) (command : SignalCommand) (now : UInt64) : SignalReceipt where
  runId := command.runId
  waitId := command.waitId
  messageId := command.messageId
  acceptedAtMs := now
  durable := c.durable
  duplicate := false

/-- The run with a delivery. A blocked run stays blocked: a callback never resolves an
uncertain start. -/
def deliveredRun (wait : WaitRecord) (delivery : SignalDelivery) (run : RunSnapshot) :
    RunSnapshot :=
  { run.setWait delivery.command.waitId { wait with delivery := some delivery } with
    state := if run.state = .waiting then .running else run.state }

/-- Decides a checked command on one snapshot: the receipt, and the replacement if the
delivery is new. -/
def deliver (c : Composition) (actor : String) (command : SignalCommand) (now : UInt64)
    (run : RunSnapshot) : Except ForgeError (SignalReceipt × Option RunSnapshot) :=
  match run.waits[command.waitId]? with
  | none => .error reservationUnavailable
  | some wait =>
    match wait.kind with
    | .timer => .error notASignal
    | .signal correlation payloadSchema _ =>
      match wait.delivery with
      | some delivery =>
        if ¬ Same .source delivery.command command ∨ delivery.actor ≠ actor then
          .error differentSignal
        else .ok ({ delivery.receipt with duplicate := true }, none)
      | none =>
        if correlation ≠ command.correlation then .error correlationMismatch
        else if wait.state = .expired then .error waitExpired
        else if run.state.isTerminal ∨ run.cancelRequested ∨ wait.state = .closed then
          .error signalsClosed
        else
          match (recoverSchema c run.package payloadSchema).bind
              (·.validate command.payload c.limits) with
          | .error e => .error e
          | .ok () =>
            if wait.deadlineAtMs ≤ now then .error waitExpired
            else
              let receipt := signalReceipt c command now
              let next := deliveredRun wait ⟨command, actor, receipt⟩ run
              if c.limits.runBytes < next.retainedDataBytes then .error signalRetention
              else
                match checkedAdd run.revision 1 with
                | none => .error revisionExhausted
                | some revision => .ok (receipt, some (next.atRevision revision))

/-- One pass of the command on the run it names. -/
def signal (c : Composition) (phase : Phase) (access : AccessContext) (received : SignalCommand)
    (now : UInt64) (run : RunSnapshot) :
    Except ForgeError (SignalReceipt × Option RunSnapshot) := do
  authorize c phase access .signal false
  let command ← checkSignal c access received
  deliver c access.actor command now (← read c run)

/-! ## What an admitted command satisfies -/

theorem idsIncrease_of_sorted {artifacts : List ArtifactRef}
    (hs : artifacts.Pairwise fun a b => a.id ≤ b.id) (hr : repeatsIdentity artifacts = false) :
    idsIncrease artifacts = true := by
  induction artifacts with
  | nil => rfl
  | cons a rest ih =>
    cases rest with
    | nil => rfl
    | cons b rest =>
      simp only [repeatsIdentity, Bool.or_eq_false_iff, decide_eq_false_iff_not] at hr
      simp only [idsIncrease, Bool.and_eq_true, decide_eq_true_eq]
      have hab : a.id ≤ b.id := List.rel_of_pairwise_cons hs (List.mem_cons_self ..)
      refine ⟨?_, ih (List.pairwise_cons.mp hs).2 hr.2⟩
      by_contra hlt
      exact hr.1 (String.le_antisymm hab (String.not_lt.mp hlt))

theorem sortArtifacts_sorted (artifacts : List ArtifactRef) :
    (sortArtifacts artifacts).Pairwise fun a b => a.id ≤ b.id := by
  have htrans : ∀ a b c : ArtifactRef, decide (a.id ≤ b.id) = true →
      decide (b.id ≤ c.id) = true → decide (a.id ≤ c.id) = true := fun a b c hab hbc =>
    decide_eq_true (String.le_trans (of_decide_eq_true hab) (of_decide_eq_true hbc))
  have htotal : ∀ a b : ArtifactRef, (decide (a.id ≤ b.id) || decide (b.id ≤ a.id)) = true :=
    fun a b => by simpa using String.le_total a.id b.id
  simpa [sortArtifacts] using List.pairwise_mergeSort htrans htotal artifacts

/-- What an admitted command satisfies. -/
structure SignalLaw (access : AccessContext) (command : SignalCommand) : Prop where
  message : command.messageId ≠ ""
  messageSize : command.messageId.utf8ByteSize ≤ 256
  artifactCount : command.artifacts.length ≤ 1000
  artifactScope : ∀ a ∈ command.artifacts, a.scope = access.scope
  artifactOrder : idsIncrease command.artifacts = true

theorem checkSignal_eq_ok {c : Composition} {access : AccessContext}
    {received command : SignalCommand} (h : checkSignal c access received = .ok command) :
    SignalLaw access command ∧ command.runId = received.runId := by
  unfold checkSignal at h
  obtain ⟨u, hid, h⟩ := bind_eq_ok.mp h
  obtain ⟨nodes, -, h⟩ := bind_eq_ok.mp h
  obtain ⟨u', hbudget, h⟩ := bind_eq_ok.mp h
  obtain ⟨u'', hgrants, h⟩ := bind_eq_ok.mp h
  obtain rfl := Except.ok.inj h
  have hid := ensure_eq_ok.mp hid
  simp only [List.all_cons, List.all_nil, validCorrelation, Bool.and_true, Bool.and_eq_true,
    decide_eq_true_eq] at hid
  have hbudget := ensure_eq_ok.mp hbudget
  simp only [decide_eq_true_eq, Bool.not_eq_true] at hbudget
  refine ⟨⟨hid.2.1.1, hid.2.1.2, hbudget.1, ?_,
    idsIncrease_of_sorted (sortArtifacts_sorted received.artifacts) hbudget.2.1⟩, rfl⟩
  -- the grants speak of the artifacts only where there are any
  intro a ha
  unfold checkSignalArtifacts at hgrants
  split at hgrants
  next hnil =>
    rw [hnil] at ha
    nomatch ha
  · split at hgrants
    · nomatch hgrants
    next hg =>
      have hall := (not_or.mp hg).2
      simp only [ne_eq, List.any_eq_true, decide_eq_true_eq, not_exists, not_and, not_not] at hall
      exact hall a ha

/-! ## What a delivery requires -/

section Deliver

variable {c : Composition} {actor : String} {command : SignalCommand} {now : UInt64}
  {run : RunSnapshot} {wait : WaitRecord} {correlation : String} {payloadSchema : Value}
  {startNode : Option String} {delivery : SignalDelivery}

/-- A delivered wait answers the same command of the same actor with the same receipt. -/
theorem deliver_duplicate (hw : run.waits[command.waitId]? = some wait)
    (hk : wait.kind = .signal correlation payloadSchema startNode)
    (hd : wait.delivery = some delivery) (hc : Same .source delivery.command command)
    (ha : delivery.actor = actor) :
    deliver c actor command now run = .ok ({ delivery.receipt with duplicate := true }, none) := by
  simp only [deliver, hw, hk, hd]
  rw [if_neg]
  exact not_or.mpr ⟨not_not_intro hc, not_not_intro ha⟩

/-- A delivered wait refuses every other command, and every other actor. -/
theorem deliver_conflict (hw : run.waits[command.waitId]? = some wait)
    (hk : wait.kind = .signal correlation payloadSchema startNode)
    (hd : wait.delivery = some delivery)
    (hne : ¬ Same .source delivery.command command ∨ delivery.actor ≠ actor) :
    deliver c actor command now run = .error differentSignal := by
  simp only [deliver, hw, hk, hd]
  rw [if_pos hne]

/-- The receipt of a command that changes nothing is one the wait gave before. -/
theorem deliver_eq_none {receipt : SignalReceipt}
    (h : deliver c actor command now run = .ok (receipt, none)) :
    ∃ wait delivery, run.waits[command.waitId]? = some wait ∧ wait.delivery = some delivery ∧
      Same .source delivery.command command ∧ delivery.actor = actor ∧
      receipt = { delivery.receipt with duplicate := true } := by
  unfold deliver at h
  split at h
  · cases h
  next wait hw =>
    split at h
    · cases h
    · split at h
      next delivery hd =>
        split at h
        · cases h
        next hne =>
          -- the same command of the same actor
          obtain ⟨h₁, h₂⟩ := not_or.mp hne
          refine ⟨wait, delivery, hw, hd, not_not.mp h₁, not_not.mp h₂, ?_⟩
          simpa using h.symm
      · -- every other answer is an error, or carries a replacement
        dsimp only at h
        repeat' split at h
        all_goals simp at h

/-- What a new delivery requires of the wait and of the run, and what it changes. -/
structure DeliverLaw (c : Composition) (actor : String) (command : SignalCommand) (now : UInt64)
    (run : RunSnapshot) (receipt : SignalReceipt) (next : RunSnapshot) (wait : WaitRecord) :
    Prop where
  found : run.waits[command.waitId]? = some wait
  kind : ∃ payloadSchema startNode,
    wait.kind = .signal command.correlation payloadSchema startNode
  fresh : wait.delivery = none
  unexpired : wait.state ≠ .expired
  unclosed : wait.state ≠ .closed
  live : run.state.isTerminal = false
  uncancelled : run.cancelRequested = false
  inTime : now < wait.deadlineAtMs
  answer : receipt = signalReceipt c command now
  replaced : ∃ revision, checkedAdd run.revision 1 = some revision ∧
    next = (deliveredRun wait ⟨command, actor, receipt⟩ run).atRevision revision
  budget : next.retainedDataBytes ≤ c.limits.runBytes

theorem deliver_eq_some {receipt : SignalReceipt} {next : RunSnapshot}
    (h : deliver c actor command now run = .ok (receipt, some next)) :
    ∃ wait, DeliverLaw c actor command now run receipt next wait := by
  -- the checks one after the other, each of which answers without a new snapshot
  unfold deliver at h
  split at h
  · cases h
  next wait hw =>
    split at h
    · cases h
    next correlation payloadSchema startNode hk =>
      split at h
      · split at h <;> cases h
      next hd =>
        split at h
        · cases h
        next hcorr =>
          obtain rfl := not_not.mp hcorr
          split at h
          · cases h
          next he =>
            split at h
            · cases h
            next hopen =>
              obtain ⟨h₁, hopen⟩ := not_or.mp hopen
              obtain ⟨h₂, h₃⟩ := not_or.mp hopen
              split at h
              · cases h
              · split at h
                · cases h
                next htime =>
                  dsimp only at h
                  split at h
                  · cases h
                  next hbytes =>
                    split at h
                    · cases h
                    next revision hrev =>
                      obtain ⟨rfl, hnext⟩ := Prod.mk.inj (Except.ok.inj h)
                      obtain rfl := Option.some.inj hnext
                      exact ⟨wait, hw, ⟨payloadSchema, startNode, hk⟩, hd, he, h₃,
                        by simpa using h₁, by simpa using h₂, UInt64.not_le.mp htime, rfl,
                        ⟨revision, hrev, rfl⟩, Nat.not_lt.mp hbytes⟩

end Deliver

end WorkflowForge.Engine
