import WorkflowForge.Lib.Transition
import WorkflowForge.Store.Reference
import WorkflowForge.Engine.State
import WorkflowForge.Engine.Signals
import WorkflowForge.Engine.Reconcile

/-!
# Concurrent Clients

Any number of clients that change one run, interleaved between their calls of the store. A
client reads, decides on what it read, and commits at the revision it read; when the commit
is refused although the revision moved on, it starts over. Locks that keep some of these
interleavings out are left out.

Each step is one call of the store with the local computation that follows it. The ledger
lists the commits, newest first, with what their clients had read.

## Main results

- `World.Inv`: the ledger leads from the first snapshot to the current one, and what a client
  holds was read along it.
- `no_lost_update`: every committed change was decided on its immediate predecessor and is
  applied once; every other call changes nothing.
-/

namespace WorkflowForge.Clients

open Lib Engine MemoryExecutionStore

/-! ## Calls -/

/-- A call on the run. The closure of an update may read the clock. -/
inductive Call where
  | update (allowTerminalAudit : Bool) (edit : UInt64 → RunEdit)
  | updateNode (key : String) (checkBudget : Bool) (edit : UInt64 → NodeEdit)
  | signal (access : AccessContext) (command : SignalCommand)
  | reconcile (access : AccessContext) (command : ReconcileCommand)

/-- What a replacement leaves alone: the identity and the package of a run and, where the store
accepts it, the signs of its float zeros. -/
structure Keeps (run next : RunSnapshot) : Prop where
  id : next.id = run.id
  package : next.package = run.package
  zeros : ∀ revision, SuccessorLaw .source run run.revision (next.atRevision revision) →
    KeepsZeros run next

/-- A call speaks of this run, and its closure leaves alone, on the runs a store holds, what the
closures of the engine do. -/
def Call.On (id : RunId) : Call → Prop
  | .update _ edit => ∀ now run head next, WaitsInv .source run →
      edit now run head = .ok (some next) → Keeps run next
  | .updateNode .. => True
  | .signal _ command => command.runId = id
  | .reconcile _ command => command.runId = id

/-- What a call answers. -/
inductive Answer where
  | run (run : RunSnapshot)
  | view (view : ExecutionView)
  | signal (receipt : SignalReceipt)
  | reconcile (receipt : ReconcileReceipt)

/-- Where a client stands between two calls of the store. -/
inductive Stage where
  /-- Before the first read of a pass. -/
  | idle
  /-- The snapshot was read, its head not yet. -/
  | holding (run : RunSnapshot)
  /-- Decided on `run`, before the commit. -/
  | writing (run next : RunSnapshot) (answer : Answer)
  /-- Decided on a view, before the commit of one record. -/
  | replacing (view : ExecutionView) (key : String) (record : InvocationRecord)
  /-- The commit met a conflict. -/
  | refused (expected : UInt64) (error : ForgeError)
  | committed (answer : Answer)
  | unchanged (answer : Answer)
  | failed (error : ForgeError)

structure Client where
  call : Call
  stage : Stage := .idle

/-- What a client decided on. -/
inductive Read where
  | run (run : RunSnapshot)
  | view (key : String) (view : ExecutionView)

/-- A commit: whose it is, what its client had read, what it was told, and what the store
held after it. -/
structure Commit (ι : Type) where
  client : ι
  call : Call
  read : Read
  answer : Answer
  after : Option RunSnapshot

structure World (ι : Type) where
  store : State
  clients : ι → Client
  ledger : List (Commit ι) := []

/-- A client moves; the clock and the phase of the runtime are what it finds. -/
structure Action (ι : Type) where
  client : ι
  now : UInt64
  phase : Phase

/-! ## The passes of a call -/

section Passes

variable (c : Composition) (owner : String) (id : RunId)

def notFound : ForgeError :=
  .new "not_found" "Run is unavailable"

/-- `state::read`. -/
def readRun (store : State) : Except ForgeError RunSnapshot :=
  match store.get id with
  | none => .error notFound
  | some run => read c run

/-- `state::view`. -/
def readView (store : State) (node : Option String) : Except ForgeError ExecutionView :=
  match store.view id node with
  | none => .error notFound
  | some view => if view.head.scope = c.scope then .ok view else .error notFound

/-- The decision of an update, once the head at the same revision was read. -/
def decideUpdate (edit : RunEdit) (run : RunSnapshot) (head : RunHead) : Stage :=
  match edit run head with
  | .error e => .failed e
  | .ok none => .unchanged (.run run)
  | .ok (some next) =>
    match checkedAdd run.revision 1 with
    | none => .failed revisionExhausted
    | some revision =>
      let next := next.atRevision revision
      .writing run next (.run next)

/-- The decision of a command that answers with a receipt. -/
def decideCommand {α : Type} (answer : α → Answer) (run : RunSnapshot) :
    Except ForgeError (α × Option RunSnapshot) → Stage
  | .error e => .failed e
  | .ok (receipt, none) => .unchanged (answer receipt)
  | .ok (receipt, some next) => .writing run next (answer receipt)

/-- The first read of a pass. -/
def begin (now : UInt64) (phase : Phase) (store : State) : Call → Stage
  | .update allow _ =>
    match readRun c id store with
    | .error e => .failed e
    | .ok run => if run.state.isTerminal ∧ ¬allow then .unchanged (.run run) else .holding run
  | .updateNode key checkBudget edit =>
    match readView c id store (some key) with
    | .error e => .failed e
    | .ok view =>
      match updateNode c.limits checkBudget (edit now) view with
      | .error e => .failed e
      | .ok none => .unchanged (.view view)
      | .ok (some record) => .replacing view key record
  | .signal access command =>
    match store.get id with
    | none =>
      .failed (match (do authorize c phase access .signal false
                         checkSignal c access command : Except ForgeError SignalCommand) with
        | .error e => e
        | .ok _ => notFound)
    | some run => decideCommand .signal run (Engine.signal c phase access command now run)
  | .reconcile access command =>
    match store.get id with
    | none =>
      .failed (match checkReconcile c phase access command with
        | .error e => e
        | .ok _ => notFound)
    | some run => decideCommand .reconcile run (Engine.reconcile c phase access command now run)

/-- The head of an update, read apart from the snapshot. -/
def readHead (now : UInt64) (store : State) (edit : UInt64 → RunEdit) (run : RunSnapshot) :
    Stage :=
  match readView c id store none with
  | .error e => .failed e
  | .ok view =>
    if view.head.revision ≠ run.revision then .idle else decideUpdate (edit now) run view.head

/-- A refused commit: only a conflict is looked at again. -/
def refuse (expected : UInt64) (error : ForgeError) : Stage :=
  if error.code = "state.conflict" then .refused expected error else .failed error

/-- After a conflict a call starts over, unless nobody else had moved the run. -/
def recheck (store : State) (expected : UInt64) (error : ForgeError) : Call → Stage
  | .update .. =>
    match readRun c id store with
    | .error e => .failed e
    | .ok run => if run.revision = expected then .failed error else .idle
  | .updateNode .. | .signal .. =>
    match readView c id store none with
    | .error e => .failed e
    | .ok view => if view.head.revision = expected then .failed error else .idle
  | .reconcile access command =>
    match readRun c id store with
    | .error e => .failed e
    | .ok run =>
      match previousReceipt run command access.actor with
      | .error e => .failed e
      | .ok none => .failed error
      | .ok (some receipt) => .unchanged (.reconcile receipt)

variable {ι : Type} [DecidableEq ι]

/-- The client moves on, and the store may have changed. -/
def World.settle (w : World ι) (i : ι) (store : State) (stage : Stage) : World ι :=
  { w with
    store := store
    clients := Function.update w.clients i { w.clients i with stage := stage } }

/-- The client is told of its commit. -/
def World.commit (id : RunId) (w : World ι) (i : ι) (store : State) (read : Read)
    (answer : Answer) :
    World ι :=
  { w.settle i store (.committed answer) with
    ledger := ⟨i, (w.clients i).call, read, answer, store.get id⟩ :: w.ledger }

def World.step (w : World ι) (a : Action ι) : Option (World ι) :=
  let client := w.clients a.client
  match client.stage with
  | .idle => some (w.settle a.client w.store (begin c id a.now a.phase w.store client.call))
  | .holding run =>
    match client.call with
    | .update _ edit => some (w.settle a.client w.store (readHead c id a.now w.store edit run))
    | _ => none
  | .writing run next answer =>
    match w.store.commit owner run.revision next with
    | (store, .ok ()) => some (w.commit id a.client store (.run run) answer)
    | (store, .error e) => some (w.settle a.client store (refuse run.revision e))
  | .replacing view key record =>
    match w.store.commitInvocation owner id view.head.revision key record with
    | (store, .ok after) => some (w.commit id a.client store (.view key view) (.view after))
    | (store, .error e) => some (w.settle a.client store (refuse view.head.revision e))
  | .refused expected error =>
    some (w.settle a.client w.store (recheck c id w.store expected error client.call))
  | .committed _ | .unchanged _ | .failed _ => none

/-- The clients have not begun, and the store is in a state that calls lead to, with the counters
of the run. -/
structure World.Starts (w : World ι) : Prop where
  reached : Reached w.store
  counted : ∀ r, w.store.runs[id]? = some r → Counted id r
  fresh : ∀ i, (w.clients i).stage = .idle
  calls : ∀ i, (w.clients i).call.On id
  ledger : w.ledger = []

/-- Clients in any interleaving. -/
def clients : System (World ι) (Action ι) where
  init := World.Starts id
  step := World.step c owner id

end Passes

/-! ## What a committed change is -/

/-- What a client read is of this snapshot. -/
def Read.Of (s : RunSnapshot) : Read → Prop
  | .run snapshot => snapshot = s
  | .view key coherent => coherent = s.view (some key)

/-- A call applied to a snapshot: its decision on that snapshot, with the budgets it checked,
on that snapshot and on the one it leaves. -/
inductive Applied (c : Composition) : Call → Answer → RunSnapshot → RunSnapshot → Prop where
  | update {allow : Bool} {edit : UInt64 → RunEdit} {now : UInt64} {prev next : RunSnapshot}
      (decided : updateWithView allow (edit now) prev = .ok (some next)) :
      Applied c (.update allow edit) (.run next) prev next
  | updateNode {key : String} {checkBudget : Bool} {edit : UInt64 → NodeEdit} {now : UInt64}
      {prev next : RunSnapshot} {record : InvocationRecord} {revision : UInt64}
      (decided : Engine.updateNode c.limits checkBudget (edit now) (prev.view (some key)) =
        .ok (some record))
      (replaced : next = prev.insertRecord key record revision)
      (activations : prev.invocations[key]? = none →
        prev.invocations.size < c.limits.activations)
      (budget : checkBudget = true → next.retainedDataBytes ≤ c.limits.runBytes) :
      Applied c (.updateNode key checkBudget edit) (.view (next.view (some key))) prev next
  | signal {access : AccessContext} {command : SignalCommand} {phase : Phase} {now : UInt64}
      {prev next : RunSnapshot} {receipt : SignalReceipt}
      (decided : Engine.signal c phase access command now prev = .ok (receipt, some next))
      (budget : next.retainedDataBytes ≤ c.limits.runBytes) :
      Applied c (.signal access command) (.signal receipt) prev next
  | reconcile {access : AccessContext} {command : ReconcileCommand} {phase : Phase}
      {now : UInt64} {prev next : RunSnapshot} {receipt : ReconcileReceipt}
      (decided : Engine.reconcile c phase access command now prev = .ok (receipt, some next))
      (room : prev.audit.length < c.limits.auditEntries)
      (budget : next.retainedDataBytes ≤ c.limits.runBytes) :
      Applied c (.reconcile access command) (.reconcile receipt) prev next

/-- The commits lead from a first snapshot to a last one, each by one accepted revision. -/
inductive Linked {ι : Type} (c : Composition) (first : Option RunSnapshot) :
    List (Commit ι) → Option RunSnapshot → Prop where
  | nil : Linked c first [] first
  | cons {ledger : List (Commit ι)} {commit : Commit ι} {prev next : RunSnapshot} :
      Linked c first ledger (some prev) → commit.after = some next → commit.read.Of prev →
      Applied c commit.call commit.answer prev next →
      SuccessorLaw .source prev prev.revision next →
      Linked c first (commit :: ledger) (some next)

/-- A snapshot the commits went through. -/
def Seen {ι : Type} (c : Composition) (first : Option RunSnapshot) (ledger : List (Commit ι))
    (s : RunSnapshot) : Prop :=
  ∃ newer older, ledger = newer ++ older ∧ Linked c first older (some s)

/-- A call that committed has exactly one commit, a call that did not has none. -/
def Accounted {ι : Type} (i : ι) (client : Client) (commits : List (Commit ι)) : Prop :=
  match client.stage with
  | .committed answer => ∃ read after, commits = [⟨i, client.call, read, answer, after⟩]
  | _ => commits = []

section Linked

variable {ι : Type} {c : Composition} {first : Option RunSnapshot} {ledger : List (Commit ι)}
  {s : RunSnapshot}

/-- The commits determine the snapshot they lead to. -/
theorem Linked.unique {a b : Option RunSnapshot} (ha : Linked c first ledger a)
    (hb : Linked c first ledger b) : a = b := by
  cases ha with
  | nil =>
    cases hb with
    | nil => rfl
  | cons _ hn _ _ _ =>
    cases hb with
    | cons _ hn' _ _ _ => exact hn.symm.trans hn'

/-- Every commit adds one to the revision. -/
theorem Linked.revision {newer older : List (Commit ι)} {t : RunSnapshot}
    (h : Linked c first (newer ++ older) (some s)) (ho : Linked c first older (some t)) :
    s.revision.toNat = t.revision.toNat + newer.length := by
  induction newer generalizing s with
  | nil =>
    obtain rfl := Option.some.inj (h.unique ho)
    rfl
  | cons commit newer ih =>
    cases h with
    | cons h' _ _ _ law =>
      have hr := checkedAdd_eq_some.mp law.revision
      have := ih h'
      simp only [List.length_cons]
      rw [← hr, this]
      change _ + 1 = _
      omega

/-- A snapshot seen at the current revision is the current one: revisions never repeat. -/
theorem Seen.current {t : RunSnapshot} (ht : Seen c first ledger t)
    (h : Linked c first ledger (some s)) (hr : t.revision = s.revision) : t = s := by
  obtain ⟨newer, older, rfl, ho⟩ := ht
  have hlen := h.revision ho
  rw [hr] at hlen
  obtain rfl := List.length_eq_zero_iff.mp (show newer.length = 0 by omega)
  exact Option.some.inj (ho.unique h)

/-- What is stored now was stored at some moment. -/
theorem Seen.now (h : Linked c first ledger (some s)) : Seen c first ledger s :=
  ⟨[], ledger, rfl, h⟩

/-- What was stored stays so when more is committed. -/
theorem Seen.cons (h : Seen c first ledger s) (commit : Commit ι) :
    Seen c first (commit :: ledger) s := by
  obtain ⟨newer, older, rfl, ho⟩ := h
  exact ⟨commit :: newer, older, rfl, ho⟩

/-- The identity of the run stays what it was at first. -/
theorem Linked.id {id : RunId} (h : Linked c first ledger (some s))
    (hf : ∀ s ∈ first, s.id = id) : s.id = id := by
  induction ledger generalizing s with
  | nil =>
    cases h with
    | nil => exact hf s rfl
  | cons commit ledger ih =>
    cases h with
    | cons h' _ _ _ law => exact law.id ▸ ih h'

/-- Every snapshot of a run bears its name. -/
theorem Seen.id {id : RunId} (h : Seen c first ledger s) (hf : ∀ s ∈ first, s.id = id) :
    s.id = id := by
  obtain ⟨_, _, _, ho⟩ := h
  exact ho.id hf

end Linked

/-! ## What a client holds -/

/-- What a client holds was read along the commits, and its decision is one of its call on
what it read. -/
def Held {ι : Type} (c : Composition) (first : Option RunSnapshot) (ledger : List (Commit ι))
    (call : Call) : Stage → Prop
  | .holding run => Seen c first ledger run ∧
      ∀ allow edit, call = .update allow edit → allow = false → run.state.isTerminal = false
  | .writing run next answer => Seen c first ledger run ∧ Keeps run next ∧
      Applied c call answer run next
  | .replacing view key record => ∃ run, Seen c first ledger run ∧
      view = run.view (some key) ∧ ∃ checkBudget edit now,
        call = .updateNode key checkBudget edit ∧
          updateNode c.limits checkBudget (edit now) view = .ok (some record)
  | .committed _ => False
  | _ => True

section Held

variable {ι : Type} {c : Composition} {first : Option RunSnapshot} {ledger : List (Commit ι)}
  {call : Call} {stage : Stage} {id : RunId} {store : State}

/-- A call that is under way holds what it read while others commit. -/
theorem Held.cons (h : Held c first ledger call stage) (commit : Commit ι) :
    Held c first (commit :: ledger) call stage := by
  cases stage with
  | holding run => exact ⟨h.1.cons commit, h.2⟩
  | writing run next answer => exact ⟨h.1.cons commit, h.2⟩
  | replacing view key record =>
    obtain ⟨run, hs, h⟩ := h
    exact ⟨run, hs.cons commit, h⟩
  | committed answer => exact h
  | idle => trivial
  | refused expected error => trivial
  | unchanged answer => trivial
  | failed error => trivial

theorem Held.open_ (h : Held c first ledger call stage) (answer : Answer) :
    stage ≠ .committed answer := by
  rintro rfl
  exact h

/-! ### Reads -/

/-- What a client reads is what is stored. -/
theorem readRun_eq_ok {run : RunSnapshot} (h : readRun c id store = .ok run) :
    store.get id = some run := by
  unfold readRun at h
  split at h
  · nomatch h
  next run' hget =>
    obtain ⟨_, rfl⟩ := read_eq_ok h
    exact hget

/-- A view is that of the stored snapshot. -/
theorem readView_eq_ok {node : Option String} {view : ExecutionView}
    (hr : ∀ r, store.runs[id]? = some r → Counted id r)
    (h : readView c id store node = .ok view) :
    ∃ run, store.get id = some run ∧ view = run.view node := by
  unfold readView at h
  rw [State.view_eq hr] at h
  cases hget : store.get id with
  | none => simp [hget] at h
  | some run =>
    simp only [hget, Option.map_some] at h
    split at h
    · exact ⟨run, rfl, (Except.ok.inj h).symm⟩
    · nomatch h

/-! ### Decisions -/

/-- An edit that leaves a run in the terms of its update is answered with the next revision. -/
theorem updateWithView_of_edit {allow : Bool} {edit : RunEdit} {run next : RunSnapshot}
    {revision : UInt64} (hlive : allow = false → run.state.isTerminal = false)
    (he : edit run run.head = .ok (some next)) (hrev : checkedAdd run.revision 1 = some revision) :
    updateWithView allow edit run = .ok (some (next.atRevision revision)) := by
  unfold updateWithView
  rw [if_neg, he, hrev]
  rintro ⟨ht, ha⟩
  rw [hlive (by simpa using ha)] at ht
  nomatch ht

/-- A delivery keeps what clients rely on and stays within the bytes of a run. -/
theorem signal_replacement {phase : Phase} {access : AccessContext} {command : SignalCommand}
    {now : UInt64} {run next : RunSnapshot} {receipt : SignalReceipt}
    (h : Engine.signal c phase access command now run = .ok (receipt, some next)) :
    Keeps run next ∧ next.retainedDataBytes ≤ c.limits.runBytes := by
  obtain ⟨_, _, h⟩ := bind_eq_ok.mp h
  obtain ⟨checked, _, h⟩ := bind_eq_ok.mp h
  obtain ⟨run', hread, h⟩ := bind_eq_ok.mp h
  obtain ⟨_, hrun⟩ := read_eq_ok hread
  rw [hrun] at h
  obtain ⟨wait, law⟩ := deliver_eq_some h
  obtain ⟨revision, _, hnext⟩ := law.replaced
  subst hnext
  exact ⟨⟨rfl, rfl, fun _ _ => .of_eq rfl rfl⟩, law.budget⟩

/-- A resolution that confirms a result ends its record; every other one keeps its documents. -/
theorem resolution_keeps {resolution : EffectResolution} {key : String}
    {record : InvocationRecord} {now : UInt64} {run : RunSnapshot} {resolved : Resolved}
    (h : ResolveLaw c resolution key record now run resolved)
    (hr : run.invocations[key]? = some record) (hstate : record.state = .unknown) :
    resolved.1.id = run.id ∧ resolved.1.package = run.package ∧ KeepsZeros run resolved.1 := by
  cases h with
  | applied =>
    refine ⟨rfl, rfl, .of_state (BTreeMap.get_insert_self _ key _) fun old hold => ?_⟩
    obtain rfl := Option.some.inj (hr.symm.trans hold)
    rw [hstate]
    intro h
    cases h
  | invalid => exact ⟨rfl, rfl, .of_record rfl hr rfl rfl⟩
  | retry => exact ⟨rfl, rfl, .of_record rfl hr rfl rfl⟩
  | failed => exact ⟨rfl, rfl, .of_record rfl hr rfl rfl⟩
  | blocked => exact ⟨rfl, rfl, .of_eq rfl rfl⟩
  | stopped => exact ⟨rfl, rfl, .of_eq rfl rfl⟩

/-- So does a resolution, within the entries of its audit. -/
theorem reconcile_replacement {phase : Phase} {access : AccessContext}
    {command : ReconcileCommand} {now : UInt64} {run next : RunSnapshot}
    {receipt : ReconcileReceipt}
    (h : Engine.reconcile c phase access command now run = .ok (receipt, some next)) :
    Keeps run next ∧ run.audit.length < c.limits.auditEntries ∧
      next.retainedDataBytes ≤ c.limits.runBytes := by
  obtain ⟨key, record, resolved, revision, law⟩ := reconcile_eq_some h
  refine ⟨?_, law.room, law.budget⟩
  obtain ⟨hrid, hrpackage, hrzeros⟩ :=
    resolution_keeps law.resolution law.found (of_decide_eq_true law.named).2.2
  -- unblocking writes neither records nor input
  have hunblock : ∀ s : RunSnapshot, (unblock s).id = s.id ∧ (unblock s).package = s.package ∧
      (unblock s).input = s.input ∧ (unblock s).invocations = s.invocations := by
    intro s
    unfold unblock
    split <;> exact ⟨rfl, rfl, rfl, rfl⟩
  obtain ⟨hid, hpackage, hinput, hrecords⟩ := hunblock resolved.1
  obtain ⟨_, rfl⟩ := Prod.mk.inj law.result
  refine ⟨hid.trans hrid, hpackage.trans hrpackage, fun _ _ hsame => ?_⟩
  rw [hrzeros (hrecords ▸ hsame)]
  simp only [RunSnapshot.negativeZeros, hinput, hrecords]

/-- A command holds what it decided on the snapshot it read. -/
theorem held_decideCommand {α : Type} {answer : α → Answer} {run : RunSnapshot}
    {decision : Except ForgeError (α × Option RunSnapshot)} (hs : Seen c first ledger run)
    (h : ∀ receipt next, decision = .ok (receipt, some next) →
      Keeps run next ∧ Applied c call (answer receipt) run next) :
    Held c first ledger call (decideCommand answer run decision) := by
  unfold decideCommand
  split
  · trivial
  · trivial
  next receipt next => exact ⟨hs, h receipt next rfl⟩

/-- A call that begins holds what it read. -/
theorem held_begin {now : UInt64} {phase : Phase}
    (hr : ∀ r, store.runs[id]? = some r → Counted id r)
    (hl : Linked c first ledger (store.get id)) :
    Held c first ledger call (begin c id now phase store call) := by
  cases call with
  -- the run is read first, and its head later
  | update allow edit =>
    dsimp only [begin]
    split
    · trivial
    next run hrun =>
      rw [readRun_eq_ok hrun] at hl
      split
      · trivial
      next hlive =>
        refine ⟨Seen.now hl, fun allow' edit' hcall ha => ?_⟩
        obtain ⟨rfl, _⟩ := Call.update.inj hcall
        simpa [ha] using hlive
  -- a view of the node is read at once
  | updateNode key checkBudget edit =>
    dsimp only [begin]
    split
    · trivial
    next view hview =>
      obtain ⟨run, hget, rfl⟩ := readView_eq_ok hr hview
      rw [hget] at hl
      split
      · trivial
      · trivial
      next record hdec =>
        exact ⟨run, Seen.now hl, rfl, checkBudget, edit, now, rfl, hdec⟩
  -- a delivery is decided on the whole run
  | signal access command =>
    dsimp only [begin]
    split
    · trivial
    next run hget =>
      rw [hget] at hl
      refine held_decideCommand (Seen.now hl) fun receipt next hdec => ?_
      obtain ⟨hkeeps, hbudget⟩ := signal_replacement hdec
      exact ⟨hkeeps, .signal hdec hbudget⟩
  -- so is a report
  | reconcile access command =>
    dsimp only [begin]
    split
    · trivial
    next run hget =>
      rw [hget] at hl
      refine held_decideCommand (Seen.now hl) fun receipt next hdec => ?_
      obtain ⟨hkeeps, hroom, hbudget⟩ := reconcile_replacement hdec
      exact ⟨hkeeps, .reconcile hdec hroom hbudget⟩

/-- The head at the revision of the snapshot is the head of the snapshot. -/
theorem held_readHead {allow : Bool} {edit : UInt64 → RunEdit} {run : RunSnapshot}
    {now : UInt64} (hr : ∀ r, store.runs[id]? = some r → Counted id r)
    (hl : Linked c first ledger (store.get id))
    (hon : (Call.update allow edit).On id) (hs : Seen c first ledger run)
    (hlive : allow = false → run.state.isTerminal = false) :
    Held c first ledger (.update allow edit) (readHead c id now store edit run) := by
  unfold readHead
  split
  · trivial
  next view hview =>
    obtain ⟨current, hget, rfl⟩ := readView_eq_ok hr hview
    rw [hget] at hl
    split
    · trivial
    next hrev =>
      have hrev : run.revision = current.revision := (not_not.mp hrev).symm
      -- at the same revision the run that was read is still stored
      obtain rfl := hs.current hl hrev
      -- so the edit is decided on its own head
      change Held c first ledger _ (decideUpdate (edit now) run run.head)
      unfold decideUpdate
      split
      · trivial
      · trivial
      next next hedit =>
        split
        · trivial
        next revision hadd =>
          have hwaits : WaitsInv .source run := by
            obtain ⟨r, hrun, rfl⟩ := Option.map_eq_some_iff.mp hget
            exact (hr r hrun).waits_materialize
          have hkeeps := hon now run run.head next hwaits hedit
          exact ⟨hs, ⟨hkeeps.id, hkeeps.package, fun later => hkeeps.zeros later⟩,
            .update (updateWithView_of_edit hlive hedit hadd)⟩

/-- A refused call holds the error it is answered with. -/
theorem held_refuse (expected : UInt64) (error : ForgeError) :
    Held c first ledger call (refuse expected error) := by
  unfold refuse
  split <;> trivial

/-- A call that lost its race reads again. -/
theorem held_recheck (expected : UInt64) (error : ForgeError) :
    Held c first ledger call (recheck c id store expected error call) := by
  -- reading again only looks at the store
  cases call with
  | update allow edit =>
    dsimp only [recheck]
    split
    · trivial
    · split <;> trivial
  | updateNode key checkBudget edit =>
    dsimp only [recheck]
    split
    · trivial
    · split <;> trivial
  | signal access command =>
    dsimp only [recheck]
    split
    · trivial
    · split <;> trivial
  | reconcile access command =>
    dsimp only [recheck]
    split
    · trivial
    · split <;> trivial

end Held

/-! ## The invariant -/

section Run

variable {ι : Type} [DecidableEq ι] {c : Composition} {owner : String} {id : RunId}

/-- The commits of one client. -/
def World.commits (w : World ι) (i : ι) : List (Commit ι) :=
  w.ledger.filter fun commit => commit.client = i

/-- Since the world `w₀`, the ledger leads to the current snapshot, every client holds what it
read along it, and every commit is told to its client. -/
structure World.Inv (c : Composition) (id : RunId) (w₀ w : World ι) : Prop where
  reached : Reached w.store
  counted : ∀ r, w.store.runs[id]? = some r → Counted id r
  named : ∀ s ∈ w₀.store.get id, s.id = id
  calls : ∀ i, (w.clients i).call.On id
  linked : Linked c (w₀.store.get id) w.ledger (w.store.get id)
  held : ∀ i, (∃ answer, (w.clients i).stage = .committed answer) ∨
    Held c (w₀.store.get id) w.ledger (w.clients i).call (w.clients i).stage
  accounted : ∀ i, Accounted i (w.clients i) (w.commits i)

variable {w₀ w : World ι} {i : ι} {stage : Stage}

omit [DecidableEq ι] in
/-- A call that has not committed has no commit in the ledger. -/
theorem Accounted.of_open {client : Client} {commits : List (Commit ι)}
    (h : Accounted i client commits) (ho : ∀ answer, client.stage ≠ .committed answer) :
    commits = [] := by
  unfold Accounted at h
  split at h
  next answer hs => exact absurd hs (ho answer)
  · exact h

omit [DecidableEq ι] in
/-- A client without a commit is accounted for while its call is open. -/
theorem accounted_nil {client : Client} (ho : ∀ answer, client.stage ≠ .committed answer) :
    Accounted (ι := ι) i client [] := by
  unfold Accounted
  split
  next answer hs => exact absurd hs (ho answer)
  · rfl

/-- A stored run bears the name it is stored under. -/
theorem reached_named {store : State} (h : Reached store) : ∀ s ∈ store.get id, s.id = id := by
  intro s hs
  obtain ⟨r, hr, rfl⟩ := Option.map_eq_some_iff.mp hs
  exact (h.kept id r hr).named

/-- At the start nobody has committed. -/
theorem World.Starts.inv (h : w₀.Starts id) : World.Inv c id w₀ w₀ where
  reached := h.reached
  counted := h.counted
  named := reached_named h.reached
  calls := h.calls
  linked := h.ledger ▸ .nil
  held i := .inr (by rw [h.fresh i]; trivial)
  accounted i := by
    unfold World.commits
    rw [h.ledger]
    exact accounted_nil fun answer hs => by simp [h.fresh i] at hs

/-! ### What a move changes -/

section Moves

variable (w : World ι) (i : ι) (store : State) (stage : Stage) (read : Read) (answer : Answer)

/-- A call that is settled changes its own stage. -/
@[simp] theorem settle_self :
    (w.settle i store stage).clients i = { w.clients i with stage := stage } := by
  simp [World.settle]

/-- The stages of the others stay. -/
@[simp] theorem settle_other {j : ι} (hj : j ≠ i) :
    (w.settle i store stage).clients j = w.clients j := by
  simp [World.settle, hj]

/-- It adds no commit. -/
@[simp] theorem settle_commits (j : ι) : (w.settle i store stage).commits j = w.commits j :=
  rfl

/-- A committed call has its answer. -/
@[simp] theorem commit_self :
    (w.commit id i store read answer).clients i =
      { w.clients i with stage := .committed answer } :=
  settle_self w i store (.committed answer)

@[simp] theorem commit_other {j : ι} (hj : j ≠ i) :
    (w.commit id i store read answer).clients j = w.clients j :=
  settle_other w i store (.committed answer) hj

/-- The commit is added to those of its client. -/
theorem commit_commits_self :
    (w.commit id i store read answer).commits i =
      ⟨i, (w.clients i).call, read, answer, store.get id⟩ :: w.commits i := by
  simp [World.commit, World.settle, World.commits]

theorem commit_commits_other {j : ι} (hj : j ≠ i) :
    (w.commit id i store read answer).commits j = w.commits j := by
  simp [World.commit, World.settle, World.commits, Ne.symm hj]

end Moves

/-- A client that moves without a commit. -/
theorem World.Inv.settle (h : World.Inv c id w₀ w)
    (ho : ∀ answer, (w.clients i).stage ≠ .committed answer)
    (hheld : Held c (w₀.store.get id) w.ledger (w.clients i).call stage) :
    World.Inv c id w₀ (w.settle i w.store stage) where
  reached := h.reached
  counted := h.counted
  named := h.named
  calls j := by
    by_cases hj : j = i
    · subst hj
      rw [settle_self]
      exact h.calls j
    · rw [settle_other w i w.store stage hj]
      exact h.calls j
  linked := h.linked
  -- the client holds its new stage, the others what they held
  held j := by
    by_cases hj : j = i
    · subst hj
      rw [settle_self]
      exact .inr hheld
    · rw [settle_other w i w.store stage hj]
      exact h.held j
  accounted j := by
    rw [settle_commits]
    by_cases hj : j = i
    · subst hj
      rw [settle_self, (h.accounted j).of_open ho]
      exact accounted_nil hheld.open_
    · rw [settle_other w i w.store stage hj]
      exact h.accounted j

/-- A client that commits what it decided on the current snapshot. -/
theorem World.Inv.commit (h : World.Inv c id w₀ w) {store : State} (hr : Reached store)
    (hcount : ∀ r, store.runs[id]? = some r → Counted id r)
    {prev next : RunSnapshot} (hprev : w.store.get id = some prev)
    (hnext : store.get id = some next)
    (ho : ∀ answer, (w.clients i).stage ≠ .committed answer) {read : Read} {answer : Answer}
    (hread : read.Of prev) (happlied : Applied c (w.clients i).call answer prev next)
    (law : SuccessorLaw .source prev prev.revision next) :
    World.Inv c id w₀ (w.commit id i store read answer) where
  reached := hr
  counted := hcount
  named := h.named
  calls j := by
    by_cases hj : j = i
    · subst hj
      rw [commit_self]
      exact h.calls j
    · rw [commit_other w i store read answer hj]
      exact h.calls j
  -- the commit replaces the snapshot that it was decided on
  linked := by
    have hl := h.linked
    rw [hprev] at hl
    change Linked c _ (⟨i, _, read, answer, store.get id⟩ :: w.ledger) (store.get id)
    rw [hnext]
    exact .cons hl rfl hread happlied law
  -- what the others read was read before this commit
  held j := by
    by_cases hj : j = i
    · subst hj
      exact .inl ⟨answer, by rw [commit_self]⟩
    · rw [commit_other w i store read answer hj]
      exact (h.held j).imp_right fun hheld => hheld.cons _
  -- each client has at most its own commit
  accounted j := by
    by_cases hj : j = i
    · subst hj
      rw [commit_self, commit_commits_self, (h.accounted j).of_open ho]
      exact ⟨read, store.get id, rfl⟩
    · rw [commit_other w i store read answer hj, commit_commits_other w i store read answer hj]
      exact h.accounted j

/-- The bytes checked before a record is replaced are those of the run after it. -/
theorem bytesAfter_view (prev : RunSnapshot) (key : String) (record : InvocationRecord)
    (revision : UInt64) :
    bytesAfter (prev.view (some key)) record =
      (prev.insertRecord key record revision).retainedDataBytes := by
  have hsum := BTreeMap.sumValues_insert InvocationRecord.retainedDataBytes
    prev.invocations key record
  have hle := BTreeMap.get_le_sumValues InvocationRecord.retainedDataBytes prev.invocations key
  have hres : (prev.insertRecord key record revision).retainedResultBytes =
      prev.retainedResultBytes := rfl
  simp only [bytesAfter, RunSnapshot.view, RunSnapshot.head, Option.bind_some,
    RunSnapshot.retainedDataBytes, hres, RunSnapshot.recordBytes]
  simp only [RunSnapshot.insertRecord]
  omega

/-- Every step of every client keeps the invariant. -/
theorem World.Inv.step (h : World.Inv c id w₀ w) {a : Action ι} {w' : World ι}
    (hs : World.step c owner id w a = some w') : World.Inv c id w₀ w' := by
  have hheld := h.held a.client
  unfold World.step at hs
  dsimp only at hs
  split at hs
  next hstage =>
    obtain rfl := Option.some.inj hs
    refine h.settle (by simp [hstage]) (held_begin h.counted h.linked)
  next run hstage =>
    rw [hstage] at hheld
    obtain ⟨hseen, hlive⟩ := hheld.resolve_left (by simp)
    split at hs
    next allow edit hcall =>
      obtain rfl := Option.some.inj hs
      refine h.settle (by simp [hstage]) ?_
      rw [hcall]
      exact held_readHead h.counted h.linked (hcall ▸ h.calls a.client) hseen
        (hlive allow edit hcall)
    · cases hs
  next run next answer hstage =>
    rw [hstage] at hheld
    obtain ⟨hseen, hkeeps, happlied⟩ := hheld.resolve_left (by simp)
    have hnext : next.id = id := hkeeps.id.trans (hseen.id h.named)
    split at hs
    next store hc =>
      obtain rfl := Option.some.inj hs
      have hr : Reached (w.store.perform (.commit owner run.revision next)).1 :=
        .called _ h.reached trivial
      obtain ⟨prev, hprev, law, hafter⟩ := State.commit_get hc
      rw [hnext] at hprev
      have hl := h.linked
      rw [hprev] at hl
      obtain rfl := hseen.current hl law.base.symm
      -- an accepted decision leaves the zeros alone, so the commit is a steady one
      have hsteady : Steady w.store (.commit owner run.revision next) := by
        intro current hcurrent
        rw [hnext] at hcurrent
        obtain rfl : current.materialize = run := by
          rw [State.get, hcurrent] at hprev
          exact Option.some.inj hprev
        exact hkeeps.zeros next.revision law
      have hcount := Counted.perform h.counted hsteady
      rw [State.perform, hc] at hr hcount
      have hsame : { next with package := run.package } = next := by rw [← hkeeps.package]
      rw [hsame, hnext] at hafter
      exact h.commit hr hcount hprev hafter (by simp [hstage]) rfl happlied law
    next store e hc =>
      obtain rfl := Option.some.inj hs
      rcases State.commit_wrote hc with ⟨_, rfl⟩ | ⟨hok, _⟩
      · exact h.settle (by simp [hstage]) (held_refuse _ _)
      · cases hok
  next view key record hstage =>
    rw [hstage] at hheld
    obtain ⟨run, hseen, rfl, checkBudget, edit, now, hcall, hdec⟩ :=
      hheld.resolve_left (by simp)
    split at hs
    next store after hc =>
      obtain rfl := Option.some.inj hs
      change w.store.commitInvocation owner id run.revision key record = (store, .ok after) at hc
      have hr : Reached
          (w.store.perform (.commitInvocation owner id run.revision key record)).1 :=
        .called _ h.reached trivial
      have hcounted := @Counted.perform w.store id h.counted
        (.commitInvocation owner id run.revision key record) trivial
      rw [State.perform, hc] at hr hcounted
      obtain ⟨prev, revision, hprev, hrev, hadd, law, hafter, rfl⟩ :=
        State.commitInvocation_get h.counted hc
      have hl := h.linked
      rw [hprev] at hl
      obtain rfl := hseen.current hl hrev.symm
      obtain ⟨_, _, hcount, hbytes⟩ := updateNode_eq_some hdec
      refine h.commit hr hcounted hprev hafter (by simp [hstage]) rfl ?_ law
      rw [hcall]
      refine .updateNode hdec rfl hcount fun hcheck => ?_
      rw [← bytesAfter_view]
      exact hbytes hcheck
    next store e hc =>
      obtain rfl := Option.some.inj hs
      rcases State.commitInvocation_wrote hc with ⟨_, rfl⟩ | ⟨⟨v, hok⟩, _⟩
      · exact h.settle (by simp [hstage]) (held_refuse _ _)
      · cases hok
  next expected error hstage =>
    obtain rfl := Option.some.inj hs
    exact h.settle (by simp [hstage]) (held_recheck _ _)
  · cases hs
  · cases hs
  · cases hs

/-- The invariant holds in every interleaving. -/
theorem leads_inv (h₀ : w₀.Starts id)
    (h : (clients c owner id).Leads (fun _ _ => True) w₀ w) : World.Inv c id w₀ w := by
  induction h with
  | refl => exact h₀.inv
  | tail _ hn ih =>
    obtain ⟨a, _, hs⟩ := hn
    exact ih.step hs

/-- In every interleaving the commits lead from the first snapshot to the current one, each
by the decision of one call on the snapshot it had read, its immediate predecessor; a call
that reports a change has exactly one commit, every other call has none. -/
theorem no_lost_update (h₀ : w₀.Starts id)
    (h : (clients c owner id).Leads (fun _ _ => True) w₀ w) :
    Linked c (w₀.store.get id) w.ledger (w.store.get id) ∧
      ∀ i, Accounted i (w.clients i) (w.commits i) := by
  have hinv := leads_inv h₀ h
  exact ⟨hinv.linked, hinv.accounted⟩

end Run

/-! ## Two clients -/

/-- A composition without operations and schemas, for examples. -/
def sampleComposition : Composition where
  scope := "scope"
  limits := {}
  durable := false
  coordinatedArtifacts := false
  operations := fun _ => none
  compile := fun _ _ => .error notFound

/-- One client records an attempt, the other starts the run. -/
def sampleClients : World Bool where
  store := sampleStore
  clients := fun i =>
    if i then ⟨.update false fun _ run _ => .ok (some { run with state := .running }), .idle⟩
    else ⟨.updateNode "a" true fun _ _ _ => .ok (some sampleRecord), .idle⟩

/-- The commit of the first client comes between the decision of the second and its commit,
which starts over. -/
def sampleMoves : List (Action Bool) :=
  [true, true, false, false, true, true, true, true, true].map (⟨·, 5, .ready⟩)

theorem sampleClients_starts : sampleClients.Starts "run" where
  reached := sampleStore_reached.any
  counted := sampleStore_reached.counted "run"
  fresh i := by cases i <;> rfl
  calls i := by
    cases i with
    | false => trivial
    | true =>
      rintro now run head next _ h
      obtain rfl := Option.some.inj (Except.ok.inj h)
      exact ⟨rfl, rfl, fun _ _ => .of_eq rfl rfl⟩
  ledger := rfl

/-- Two clients that read one revision: the second loses the race, reads again and commits after the
first. -/
theorem no_lost_update_sample :
    ∃ w, (clients sampleComposition "host" "run").run sampleClients sampleMoves = some w ∧
      w.ledger.map Commit.client = [true, false] ∧
      Linked sampleComposition (sampleClients.store.get "run") w.ledger (w.store.get "run") := by
  have hrun : (((clients sampleComposition "host" "run").run sampleClients sampleMoves).map
      fun w => w.ledger.map Commit.client) = some [true, false] := by decide +kernel
  obtain ⟨w, hw, hclients⟩ := Option.map_eq_some_iff.mp hrun
  have hleads : (clients sampleComposition "host" "run").Leads (fun _ _ => True)
      sampleClients w := System.run_leads (fun _ _ _ => trivial) hw
  exact ⟨w, hw, hclients, (no_lost_update sampleClients_starts hleads).1⟩

end WorkflowForge.Clients
