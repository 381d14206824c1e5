import WorkflowForge.Engine.Coordinator
import WorkflowForge.Engine.Signals
import WorkflowForge.Lib.Transition
import WorkflowForge.Store.Memory

/-!
# One Run and Its Runtime

Everything that happens to one run: the runtime that boots, takes the run up, works on its
nodes and may crash at any moment, the callers that signal, cancel and reconcile, and the
clock. A step either changes what only the process remembers, or proposes a replacement to
the store, decided on the current snapshot by one of the transitions of the engine.

The nodes of a run are worked on in any order: the activities of a plan are told apart by
their keys, and a key has at most one worker. The run itself ends only when no worker is
left. What a branch, a loop or a handler selects is left open, so a statement about this
system holds of every control flow.

The store answers the proposal as it would answer a caller. Snapshots that were replaced,
attempt identities, calls and receipts are remembered, so that a law can speak of them.

## Main results

- `World.step_eq_some`: a step is a proposal the store accepted.
-/

namespace WorkflowForge.Run

open Lib Engine

/-! ## Plans -/

/-- What a node of a compiled plan does, below all its control structure. -/
inductive Activity where
  | operation (node : PreparedOperation)
  | control
  | timer (duration : UInt64)
  /-- A signal wait, with the key of the operation that starts it. -/
  | awaitSignal (timeout : UInt64) (payloadSchema : Value) (start : Option String)

/-- The activities of a compiled plan by key. What starts a wait is an operation. -/
structure Plan where
  activity : String → Option Activity
  start_operation : ∀ {key startKey : String} {timeout : UInt64} {payloadSchema : Value},
    activity key = some (.awaitSignal timeout payloadSchema (some startKey)) →
    ∃ node, activity startKey = some (.operation node)

/-- A plan with the names its run derives: of an invocation and of a wait. A name is a hash
of the run and the key; the waits of a run are told apart by theirs. -/
structure Setup where
  plan : Plan
  logical : RunId → String → String
  waitName : RunId → String → String
  wait_distinct : ∀ {run : RunId} {key key' : String},
    waitName run key = waitName run key' → key = key'

namespace Setup

variable (s : Setup)

def operation (key : String) : Option PreparedOperation :=
  match s.plan.activity key with
  | some (.operation node) => some node
  | _ => none

def isControl (key : String) : Bool :=
  match s.plan.activity key with
  | some .control => true
  | _ => false

/-- What a wait node awaits and for how long. The correlation is evaluated when the node is
reached. -/
def wait (key correlation : String) : Option (WaitKind × UInt64) :=
  match s.plan.activity key with
  | some (.timer duration) => some (.timer, duration)
  | some (.awaitSignal timeout payloadSchema start) =>
    if validCorrelation correlation then
      some (.signal correlation payloadSchema start, timeout)
    else none
  | _ => none

def isWait (key : String) : Bool :=
  match s.plan.activity key with
  | some (.timer _) | some (.awaitSignal ..) => true
  | _ => false

/-- The key of the operation that starts a wait. -/
def startOf (key : String) : Option String :=
  match s.plan.activity key with
  | some (.awaitSignal _ _ start) => start
  | _ => none

end Setup

/-- A composition that offers every operation of a plan, with the contract it was accepted
with. Recovery answers a plan only under such a composition. -/
def Registered (c : Composition) (s : Setup) : Prop :=
  ∀ (key : String) (node : PreparedOperation), s.operation key = some node →
    ∃ current, c.operations node.operation.descriptor.revision = some current ∧
      Same .source (OperationDescriptor.semanticValue node.operation.descriptor)
        (OperationDescriptor.semanticValue current)

/-! ## The world -/

/-- How far the worker of an operation has come. -/
inductive Worker where
  | authorized (record : InvocationRecord)
  | called (attempt : String)
  | returned (attempt : String) (value : Value)
  | failed (attempt : String) (report : FailureReport)
deriving DecidableEq

inductive Process where
  | down
  /-- The store is claimed; attempts are left to classify as the run was read. -/
  | booting (c : Composition) (attempts : List (String × InvocationRecord)) (cancelled : Bool)
  | up (c : Composition) (recoverable : Bool)

/-- The host is up, and its boot did not block the run. -/
def Process.recovers : Process → Bool
  | .up _ recoverable => recoverable
  | _ => false

theorem Process.recovers_eq_true {p : Process} : p.recovers = true ↔ ∃ c, p = .up c true := by
  cases p <;> simp [recovers]

inductive Job where
  | idle
  | taken
  | body
deriving DecidableEq

/-- What is remembered of a run. -/
inductive Event where
  | called (key : String) (invocation : Invocation)
  | answered (key attempt : String) (answer : Answer)
  | signalled (actor : String) (command : SignalCommand) (receipt : SignalReceipt)
  | reconciled (command : ReconcileCommand) (receipt : ReconcileReceipt)
deriving DecidableEq

/-- The command that an event of a reconciliation committed. -/
def Event.command : Event → Option ReconcileCommand
  | .reconciled command _ => some command
  | _ => none

theorem Event.command_eq_some {e : Event} {command : ReconcileCommand} :
    e.command = some command ↔ ∃ receipt, e = .reconciled command receipt := by
  cases e <;> simp [Event.command]

structure World where
  run : RunSnapshot
  /-- The snapshots that were replaced, newest first. -/
  older : List RunSnapshot := []
  now : UInt64
  process : Process
  job : Job := .idle
  workers : BTreeMap String Worker := ∅
  /-- The attempt identities in use. -/
  issued : List String := []
  /-- What happened, newest first. -/
  log : List Event := []

/-- What happens next. An action carries what the step reads from outside: identities,
answers, bindings that were evaluated, tokens, and later readings of the clock. -/
inductive Action where
  | tick (now : UInt64)
  | crash
  | boot (c : Composition)
  | bootBlocked (c : Composition) (error : ForgeError)
  | classify (later delay : UInt64)
  | ready
  | take
  | block (error : ForgeError)
  | begin
  | intend (key attempt : String) (input : Value) (cancelled : Bool)
  | call (key : String)
  | answer (key : String) (answer : Answer) (cancelled : Bool)
  | succeed (key : String)
  | exceed (key : String) (cancelled : Bool)
  | fail (key : String) (later delay : UInt64)
  | recover (key : String) (cancelled : Bool) (later delay : UInt64)
  | activate (key : String) (input : Value) (frame : ControlFrame)
  | progress (key : String) (frame : ControlFrame)
  | complete (key : String) (value : Value)
  | error (key : String) (error : ForgeError)
  | stop (key : String) (frame : ControlFrame)
  | reserve (key correlation : String) (input : Value) (cancelled : Bool)
  | confirm (key : String)
  | expire (key : String)
  | consume (key : String) (cancelled : Bool)
  | endWait (key : String) (error : ForgeError)
  | suspend
  | finish (error : ForgeError) (cancelled : Bool)
  | conclude (value : Value) (later : UInt64) (cancelled : Bool)
  | cancel
  | signal (phase : Phase) (access : AccessContext) (command : SignalCommand)
  | late (observation : LateObservation)
  | reconcile (phase : Phase) (access : AccessContext) (command : ReconcileCommand)

/-- What a step asks the store to replace. -/
inductive Proposal where
  | run (next : RunSnapshot)
  | record (key : String) (record : InvocationRecord)

namespace Proposal

/-- The proposal of an update of one record: none where it declines, no step where it fails. -/
def ofNode (key : String) : Except ForgeError (Option InvocationRecord) → Option (Option Proposal)
  | .ok none => some none
  | .ok (some r) => some (some (.record key r))
  | .error _ => none

/-- The proposal of an update of the whole run. -/
def ofRun : Except ForgeError (Option RunSnapshot) → Option (Option Proposal)
  | .ok none => some none
  | .ok (some next) => some (some (.run next))
  | .error _ => none

end Proposal

namespace World

variable (s : Setup) (w : World)

/-! ## What a step reads -/

/-- The runtime, while it answers callers. -/
def running : Option Composition :=
  match w.process with
  | .up c _ => some c
  | _ => none

/-- The composition under which the nodes of the run are worked on. -/
def executing : Option Composition :=
  match w.process, w.job with
  | .up c true, .body => some c
  | _, _ => none

def record (key : String) : Option InvocationRecord :=
  w.run.invocations[key]?

def view (key : String) : ExecutionView :=
  w.run.view (some key)

/-- The decision on one record, on its current view. -/
def onNode (c : Composition) (checkBudget : Bool) (key : String) (edit : NodeEdit) :
    Option (Option Proposal) :=
  Proposal.ofNode key (updateNode c.limits checkBudget edit (w.view key))

/-- The decision on the whole run. -/
def onRun (edit : RunSnapshot → Except ForgeError (Option RunSnapshot)) :
    Option (Option Proposal) :=
  Proposal.ofRun (update false edit w.run)

def onTransition (edit : RunSnapshot → RunSnapshot) : Option (Option Proposal) :=
  Proposal.ofRun (transition edit w.run)

/-- A record its node has not settled yet. -/
def unsettled (key : String) : Bool :=
  (w.record key).any fun r => r.state = .running ∨ r.state = .pending

/-- What the record of an invocation authorizes now. -/
def turn (node : PreparedOperation) (key : String) (cancelled : Bool) : Turn :=
  resume node.operation.descriptor.effect w.run.head (w.record key) w.now w.now cancelled

/-! ## Operations -/

/-- The intent of a new attempt. Its identity has never been used. -/
def intend (key attempt : String) (input : Value) (cancelled : Bool) :
    Option (Option Proposal) := do
  let c ← w.executing
  let node ← s.operation key
  guard (w.workers[key]? = none ∧ attempt ∉ w.issued)
  guard (w.turn node key cancelled matches .proceed)
  guard (admitAttempt node w.run.head (w.record key) w.now cancelled).isOk
  w.onNode c true key
    (intent (intentRecord (s.logical w.run.id key) attempt node input (w.record key)) w.now
      cancelled)

/-- An authorized attempt is called. -/
def call (key : String) : Option (Option Proposal) := do
  let _ ← w.executing
  let _ ← s.operation key
  match w.workers[key]? with
  | some (.authorized _) => return none
  | _ => none

/-- A call is answered. -/
def answer (key : String) : Option (Option Proposal) := do
  let _ ← w.executing
  let _ ← s.operation key
  match w.workers[key]? with
  | some (.called _) => return none
  | _ => none

/-- The value of an attempt is committed, or found to be stale. -/
def succeed (key : String) : Option (Option Proposal) := do
  let c ← w.executing
  let node ← s.operation key
  match w.workers[key]? with
  | some (.returned attempt value) =>
    w.onNode c true key (success attempt node.operation.descriptor.effect value)
  | _ => none

/-- The value of an attempt cannot be committed within the budget of the run. -/
def exceed (key : String) : Option (Option Proposal) := do
  let c ← w.executing
  let node ← s.operation key
  match w.workers[key]? with
  | some (.returned attempt value) =>
    guard (!(updateNode c.limits true (success attempt node.operation.descriptor.effect value)
      (w.view key)).isOk)
    return none
  | _ => none

/-- The failure of an attempt is recorded, or found to be stale. -/
def fail (key : String) (later delay : UInt64) : Option (Option Proposal) := do
  let c ← w.executing
  let node ← s.operation key
  match w.workers[key]? with
  | some (.failed attempt report) =>
    w.onNode c false key
      (recordFailure key attempt node.operation.descriptor report w.now later delay)
  | _ => none

/-- A worker finds an attempt without an owner, or a retry that may not happen. -/
def recover (key : String) (cancelled : Bool) (later delay : UInt64) :
    Option (Option Proposal) := do
  let c ← w.executing
  let node ← s.operation key
  guard (w.workers[key]? = none)
  match w.turn node key cancelled with
  | .recover attempt report =>
    w.onNode c false key
      (recordFailure key attempt node.operation.descriptor report w.now later delay)
  | _ => none

/-! ## Control nodes and waits -/

/-- A control node changes its own record while it has not settled. -/
def control (checkBudget : Bool) (key : String) (edit : NodeEdit) : Option (Option Proposal) := do
  let c ← w.executing
  guard (s.isControl key ∧ w.unsettled key)
  w.onNode c checkBudget key edit

/-- Whether a frame belongs to a control node. -/
def controls : ControlFrame → Bool
  | .wait _ => false
  | _ => true

def activate (key : String) (input : Value) (frame : ControlFrame) :
    Option (Option Proposal) := do
  let c ← w.executing
  guard (s.isControl key ∧ controls frame)
  w.onNode c true key (Engine.activate (s.logical w.run.id key) input frame)

def stop (key : String) (frame : ControlFrame) : Option (Option Proposal) := do
  let c ← w.executing
  guard (s.isControl key ∧ w.unsettled key ∧ isGroup frame)
  w.onRun (stopGroup c.limits key frame)

def reserve (key correlation : String) (input : Value) (cancelled : Bool) :
    Option (Option Proposal) := do
  let c ← w.executing
  let (kind, duration) ← s.wait key correlation
  w.onRun (Engine.reserve c.limits (s.logical w.run.id key) (s.waitName w.run.id key) key kind
    duration input w.now cancelled)

/-- A start is confirmed once its operation has returned a value. -/
def confirm (key : String) : Option (Option Proposal) := do
  let _ ← w.executing
  let startKey ← s.startOf key
  guard ((w.record startKey).any fun r => r.state = .succeeded)
  w.onRun (confirmStart (s.waitName w.run.id key))

def expire (key : String) : Option (Option Proposal) := do
  let _ ← w.executing
  let _ ← s.startOf key
  w.onRun (Engine.expire (s.waitName w.run.id key) w.now)

/-- A wait is consumed with the input its record was reserved with. -/
def consume (key : String) (cancelled : Bool) : Option (Option Proposal) := do
  let c ← w.executing
  guard (s.isWait key)
  let record ← w.record key
  w.onRun (Engine.consume c.limits key (s.waitName w.run.id key) record.input w.now cancelled)

def endWait (key : String) (error : ForgeError) : Option (Option Proposal) := do
  let _ ← w.executing
  guard (s.isWait key)
  w.onRun (Engine.endWait key (s.waitName w.run.id key) error)

/-! ## The run -/

/-- The run is left once no worker is. -/
def leave (p : Option (Option Proposal)) : Option (Option Proposal) := do
  let _ ← w.executing
  guard (w.workers = ∅)
  p

/-- The body of the run returned a value and no effect is uncertain. -/
def conclude (value : Value) (later : UInt64) (cancelled : Bool) : Option (Option Proposal) := do
  let c ← w.executing
  guard (w.workers = ∅ ∧ RunSnapshot.unresolvedCount w.run.invocations = 0)
  Proposal.ofRun (updateWithView false (completeRun c.limits value w.now later cancelled) w.run)

/-- The classification of the next attempt a boot found. -/
def classify (later delay : UInt64) : Option (Option Proposal) :=
  match w.process with
  | .booting c ((key, record) :: _) cancelled =>
    match record.operation.bind c.operations with
    | none => some none
    | some descriptor =>
      w.onNode c false key (recordFailure key record.attemptId descriptor
        (recovered descriptor.effect cancelled) w.now later delay)
  | _ => none

/-- A boot that can recover the run lifts the block an earlier boot left. -/
def boot (c : Composition) : Option (Option Proposal) :=
  match w.process with
  | .down =>
    if c.scope ≠ w.run.scope then none
    else if recoveryBlocked w.run then w.onTransition recoveredRun
    else some none
  | _ => none

/-- A boot that cannot recover an unfinished run blocks it. -/
def bootBlocked (c : Composition) (error : ForgeError) : Option (Option Proposal) :=
  match w.process with
  | .down => if c.scope ≠ w.run.scope then none else w.onTransition (blockRun error)
  | _ => none

/-! ## Callers -/

def signal (phase : Phase) (access : AccessContext) (command : SignalCommand) :
    Except ForgeError (SignalReceipt × Option RunSnapshot) :=
  match w.running with
  | none => .error unavailable
  | some c => Engine.signal c phase access command w.now w.run

def reconcile (phase : Phase) (access : AccessContext) (command : ReconcileCommand) :
    Except ForgeError (ReconcileReceipt × Option RunSnapshot) :=
  match w.running with
  | none => .error unavailable
  | some c => Engine.reconcile c phase access command w.now w.run

/-- The proposal of an answered command. -/
def answered {R : Type} (named : Bool) (answer : Except ForgeError (R × Option RunSnapshot)) :
    Option (Option Proposal) :=
  match answer with
  | .ok (_, next) => if named then some (next.map .run) else none
  | .error _ => none

/-! ## Steps -/

/-- What an action asks of the store; `none` where the action is not possible. -/
def proposal : Action → Option (Option Proposal)
  | .tick now => if w.now ≤ now then some none else none
  | .crash => some none
  | .boot c => w.boot c
  | .bootBlocked c error => w.bootBlocked c error
  | .classify later delay => w.classify later delay
  | .ready =>
    match w.process with
    | .booting _ [] _ => some none
    | _ => none
  | .take =>
    match w.process, w.job with
    | .up _ true, .idle => if runnable w.run.head w.now then some none else none
    | _, _ => none
  | .block error =>
    match w.process, w.job with
    | .up _ false, .idle =>
      if runnable w.run.head w.now then w.onTransition (blockRun error) else none
    | _, _ => none
  | .begin =>
    match w.process, w.job with
    | .up _ true, .taken => w.onTransition beginRun
    | _, _ => none
  | .intend key attempt input cancelled => w.intend s key attempt input cancelled
  | .call key => w.call s key
  | .answer key _ _ => w.answer s key
  | .succeed key => w.succeed s key
  | .exceed key _ => w.exceed s key
  | .fail key later delay => w.fail s key later delay
  | .recover key cancelled later delay => w.recover s key cancelled later delay
  | .activate key input frame => w.activate s key input frame
  | .progress key frame =>
    if controls frame then w.control s true key (updateFrame frame) else none
  | .complete key value => w.control s true key (completeControl value)
  | .error key error => w.control s false key (failControl error)
  | .stop key frame => w.stop s key frame
  | .reserve key correlation input cancelled => w.reserve s key correlation input cancelled
  | .confirm key => w.confirm s key
  | .expire key => w.expire s key
  | .consume key cancelled => w.consume s key cancelled
  | .endWait key error => w.endWait s key error
  | .suspend => w.leave (w.onTransition suspendRun)
  | .finish error cancelled => w.leave (w.onTransition (finishError error cancelled w.now))
  | .conclude value later cancelled => w.conclude value later cancelled
  | .cancel => w.running.bind fun _ => w.onRun cancel
  | .signal phase access command =>
    answered (command.runId = w.run.id) (w.signal phase access command)
  | .late observation =>
    w.running.bind fun c =>
      Proposal.ofRun (update true (observeLate c.limits (.late observation)) w.run)
  | .reconcile phase access command =>
    answered (command.runId = w.run.id) (w.reconcile phase access command)

/-- The world with the next snapshot of the run. -/
def committed (next : RunSnapshot) : World :=
  { w with run := next, older := w.run :: w.older }

/-- The answer of the store to a proposal on the current revision. -/
def accept : Option Proposal → Option World
  | none => some w
  | some (.run next) =>
    match w.run.validateSuccessor w.run.revision next with
    | .ok () => some (w.committed next)
    | .error _ => none
  | some (.record key record) =>
    if MemoryExecutionStore.State.refusesRecord w.run w.run.revision key record then none
    else (checkedAdd w.run.revision 1).map fun revision =>
      w.committed (w.run.insertRecord key record revision)

/-- The worker of a node has moved on. -/
def setWorker (key : String) (worker : Worker) : World :=
  { w with workers := w.workers.insert key worker }

def dropWorker (key : String) : World :=
  { w with workers := w.workers.erase key }

def remember (event : Event) : World :=
  { w with log := event :: w.log }

/-- The worker goes on only if the record is that of its own attempt. -/
def startWorker (key attempt : String) : World :=
  match (w.record key).filter fun r => r.attemptId = attempt ∧ r.state = .running with
  | some record =>
    { w.setWorker key (.authorized record) with issued := attempt :: w.issued }
  | none => w

/-- The call of an authorized attempt. -/
def callWorker (key : String) : World :=
  match s.operation key, w.workers[key]? with
  | some node, some (.authorized record) =>
    (w.setWorker key (.called record.attemptId)).remember (.called key (command record node))
  | _, _ => w

/-- The answer to a call, under the output contract. -/
def answerWorker (key : String) (answer : Answer) (cancelled : Bool) : World :=
  match w.executing, s.operation key, w.workers[key]? with
  | some c, some node, some (.called attempt) =>
    (w.setWorker key (match settle node c.limits cancelled answer with
      | .ok value => .returned attempt value
      | .error report => .failed attempt report)).remember (.answered key attempt answer)
  | _, _, _ => w

/-- The value of an attempt exceeds what the run may retain. -/
def exceedWorker (key : String) (cancelled : Bool) : World :=
  match w.workers[key]? with
  | some (.returned attempt _) =>
    w.setWorker key (.failed attempt ⟨retentionExceeded, true, cancelled⟩)
  | _ => w

/-- What only the process remembers, after a step whose proposal was accepted. -/
def after (before : World) : Action → World
  | .tick now => { w with now := now }
  | .crash => { w with process := .down, job := .idle, workers := ∅ }
  | .boot c =>
    if before.run.state.isTerminal then { w with process := .up c true }
    else { w with process := .booting c (unfinishedAttempts before.run) before.run.cancelRequested }
  | .bootBlocked c _ => { w with process := .up c false }
  | .classify _ _ =>
    match before.process with
    | .booting c (_ :: rest) cancelled => { w with process := .booting c rest cancelled }
    | _ => w
  | .ready =>
    match before.process with
    | .booting c _ _ => { w with process := .up c true }
    | _ => w
  | .take => { w with job := .taken }
  | .begin => { w with job := .body }
  | .intend key attempt _ _ => w.startWorker key attempt
  | .call key => w.callWorker s key
  | .answer key answer cancelled => w.answerWorker s key answer cancelled
  | .exceed key cancelled => w.exceedWorker key cancelled
  | .succeed key | .fail key _ _ => w.dropWorker key
  | .suspend | .finish _ _ | .conclude _ _ _ => { w with job := .idle }
  | .signal phase access command =>
    match before.signal phase access command with
    | .ok (receipt, _) => w.remember (.signalled access.actor command receipt)
    | .error _ => w
  | .reconcile phase access command =>
    match before.reconcile phase access command with
    | .ok (receipt, some _) => w.remember (.reconciled command receipt)
    | _ => w
  | _ => w

/-- One step: what the action asks of the store, the answer, and what the process keeps. -/
def step (a : Action) : Option World :=
  (w.proposal s a).bind fun p => (w.accept p).map fun w' => w'.after s w a

theorem step_eq_some {s : Setup} {w w' : World} {a : Action} (h : w.step s a = some w') :
    ∃ p w₁, w.proposal s a = some p ∧ w.accept p = some w₁ ∧ w' = w₁.after s w a := by
  obtain ⟨p, hp, h⟩ := Option.bind_eq_some_iff.mp h
  obtain ⟨w₁, ha, rfl⟩ := Option.map_eq_some_iff.mp h
  exact ⟨p, w₁, hp, ha, rfl⟩

end World

/-! ## The system -/

/-- The world of a run that has just been accepted. -/
structure Started (s : Setup) (w : World) : Prop where
  initial : w.run.InitialLaw
  fresh : w.older = [] ∧ w.job = .idle ∧ w.workers = ∅ ∧ w.issued = [] ∧ w.log = []
  clock : w.run.createdAtMs ≤ w.now
  process : ∃ c, w.process = .up c true ∧ c.scope = w.run.scope ∧ Registered c s

/-- The runs of a plan. -/
def system (s : Setup) : System World Action where
  init := Started s
  step := World.step s

/-- A boot answers a plan only when the composition offers its operations. -/
def Admissible (s : Setup) (_ : World) : Action → Prop
  | .boot c => Registered c s
  | _ => True

/-- The reachable worlds of a plan. -/
def Reachable (s : Setup) (w : World) : Prop :=
  (system s).ReachableBy (Admissible s) w

/-! ## A small plan -/

/-- An unsafe write that accepts and returns anything, for examples. -/
def sampleDescriptor : OperationDescriptor where
  revision := ⟨"pay", "1", "1"⟩
  schemaDialect := ""
  configSchema := .null
  inputSchema := .null
  outputSchema := .null
  effect := .write
  repetition := .unsafe_
  reconciliation := true
  requiredResources := ∅
  description := ""
  examples := []

def sampleSchema : CompiledSchema := ⟨1, fun _ => none⟩

/-- A node of the sample operation, with attempts left. -/
def sampleNode : PreparedOperation where
  operation := ⟨sampleDescriptor, sampleSchema, sampleSchema, sampleSchema⟩
  config := .null
  retry := { maxAttempts := 3 }

/-- Two writes, a loop, a timer, and a signal wait that starts by itself. -/
def samplePlan : Plan where
  activity
    | "pay" | "ship" => some (.operation sampleNode)
    | "loop" => some .control
    | "pause" => some (.timer 10)
    | "reply" => some (.awaitSignal 50 .null none)
    | _ => none
  start_operation := by
    intro key startKey timeout payloadSchema h
    split at h <;> simp at h

/-- Names without a hash. -/
def sampleSetup : Setup where
  plan := samplePlan
  logical _ key := key
  waitName _ key := key
  wait_distinct h := h

def sampleComposition : Composition where
  scope := "scope"
  limits := {}
  durable := true
  coordinatedArtifacts := true
  operations revision := if revision = ⟨"pay", "1", "1"⟩ then some sampleDescriptor else none
  compile _ _ := .ok sampleSchema

/-- The sample plan, accepted and ready to run. -/
def sampleWorld : World where
  run := sampleRun
  now := 5
  process := .up sampleComposition true

/-- Every operation of the sample plan is the sample operation. -/
theorem sample_operation {key : String} {node : PreparedOperation}
    (h : sampleSetup.operation key = some node) : node = sampleNode := by
  unfold Setup.operation at h
  split at h
  next node' heq =>
    obtain rfl := Option.some.inj h
    simp only [sampleSetup, samplePlan] at heq
    split at heq <;> simp at heq <;> exact heq.symm
  · nomatch h

theorem sample_registered : Registered sampleComposition sampleSetup := by
  intro key node h
  rw [sample_operation h]
  exact ⟨sampleDescriptor, rfl, rfl⟩

theorem sampleWorld_started : Started sampleSetup sampleWorld where
  initial := sampleRun_initial
  fresh := ⟨rfl, rfl, rfl, rfl, rfl⟩
  clock := by decide
  process := ⟨sampleComposition, rfl, rfl, sample_registered⟩

/-- A caller who may do everything, for examples. -/
def sampleAccess : AccessContext where
  scope := "scope"
  actor := "host"
  permissions := [.signal, .reconcile, .stopTracking]
  resources := {"*"}

def sampleEvidence : EffectEvidence := ⟨"bank", "statement", ""⟩

/-- An attempt whose answer is lost, in a run that is blocked by it. -/
def sampleLost : List Action :=
  [.take, .begin, .intend "pay" "a1" .null false, .call "pay", .answer "pay" .lost false,
    .fail "pay" 5 10, .finish unknownError false]

/-- A resolution of the lost attempt, at the revision it left. -/
def sampleReconcile (id : String) (resolution : EffectResolution) : Action :=
  .reconcile .ready sampleAccess ⟨id, "run", "pay", 4, "a1", resolution⟩

/-- Every composition of the sample plan that boots it offers its operation. -/
def SampleActions (actions : List Action) : Prop :=
  ∀ a ∈ actions, ∀ c, a = .boot c → c = sampleComposition

theorem sampleActions_admissible {actions : List Action} (h : SampleActions actions) :
    ∀ a ∈ actions, ∀ w, Admissible sampleSetup w a := by
  intro a ha w
  cases a with
  | boot c =>
    rw [h _ ha c rfl]
    exact sample_registered
  | _ => trivial

theorem sampleWorld_reachable : Reachable sampleSetup sampleWorld :=
  System.ReachableBy.init sampleWorld_started

/-- What can be read off two points of a computed run of the sample plan. -/
theorem sample_run {β γ : Type} {f : World → β} {g : World → γ} {b : β} {c : γ}
    {first rest : List Action} (ha : SampleActions (first ++ rest))
    (hf : ((system sampleSetup).run sampleWorld first).map f = some b)
    (hg : ((system sampleSetup).run sampleWorld (first ++ rest)).map g = some c) :
    ∃ w w', Reachable sampleSetup w ∧ (system sampleSetup).Leads (Admissible sampleSetup) w w' ∧
      f w = b ∧ g w' = c := by
  obtain ⟨w, hw, rfl⟩ := Option.map_eq_some_iff.mp hf
  obtain ⟨w', hw', rfl⟩ := Option.map_eq_some_iff.mp hg
  have hadmissible := sampleActions_admissible ha
  rw [System.run_append, hw] at hw'
  refine ⟨w, w', sampleWorld_reachable.leads (System.run_leads ?_ hw),
    System.run_leads ?_ hw', rfl, rfl⟩
  · intro a h
    exact hadmissible a (List.mem_append_left _ h)
  · intro a h
    exact hadmissible a (List.mem_append_right _ h)

end WorkflowForge.Run
