import WorkflowForge.System.Budgets

/-!
# Resolutions

Reconciliation commands among all other calls on a run, in any interleaving. A command that
is accepted leaves its resolution, its audit entry and its receipt in one revision. The audit
of a run is never shortened, so the receipt is found again whatever became of the run, also
by the caller whose own commit lost the race against its twin.

## Main results

- `reconcile_recorded`: what a run that keeps the receipt of a command answers.
- `reconcile_atomic`: every command takes effect at most once, at once, or not at all.
-/

namespace WorkflowForge.Clients

open Lib Engine MemoryExecutionStore

/-! ## Receipts in the audit -/

/-- The identities of the commands an audit resolves. -/
def resolutionIds (audit : List AuditEntry) : List String :=
  audit.filterMap fun
    | .resolution a => some a.command.commandId
    | .late _ => none

/-- The run keeps the receipt of a command of this actor, with content that compares equal. -/
structure Recorded (c : Composition) (run : RunSnapshot) (command : ReconcileCommand)
    (actor : String) (receipt : ReconcileReceipt) : Prop where
  scope : run.scope = c.scope
  found : ∃ saved atMs, Same .source saved command ∧
    findResolution run.audit command.commandId = some ⟨saved, actor, atMs, receipt⟩

section Audit

variable {c : Composition} {run next : RunSnapshot} {command : ReconcileCommand} {actor : String}
  {receipt : ReconcileReceipt} {id : String} {audit rest : List AuditEntry}

theorem findResolution_eq_none_iff : findResolution audit id = none ↔ id ∉ resolutionIds audit := by
  induction audit with
  | nil => simp [findResolution, resolutionIds]
  | cons entry audit ih =>
    unfold findResolution resolutionIds at *
    cases entry with
    | late observation => simpa using ih
    | resolution a =>
      by_cases ha : a.command.commandId = id
      · simp [ha]
      · simp only [List.findSome?_cons, if_neg ha, List.filterMap_cons, List.mem_cons, not_or]
        exact ⟨fun h => ⟨Ne.symm ha, ih.mp h⟩, fun h => ih.mpr h.2⟩

/-- What is found stays the first. -/
theorem findResolution_prefix {a : ResolutionAudit} (h : findResolution audit id = some a)
    (hp : audit <+: rest) : findResolution rest id = some a := by
  obtain ⟨added, rfl⟩ := hp
  unfold findResolution at h ⊢
  rw [List.findSome?_append, h]
  rfl

theorem findResolution_append {a : ResolutionAudit} (h : findResolution audit id = none)
    (ha : a.command.commandId = id) :
    findResolution (audit ++ [.resolution a]) id = some a := by
  unfold findResolution at h ⊢
  rw [List.findSome?_append, h]
  simp [ha]

theorem Recorded.extends (h : Recorded c run command actor receipt)
    (hscope : run.scope = next.scope) (haudit : run.audit <+: next.audit) :
    Recorded c next command actor receipt := by
  obtain ⟨saved, atMs, hsame, hfound⟩ := h.found
  exact ⟨hscope ▸ h.scope, saved, atMs, hsame, findResolution_prefix hfound haudit⟩

/-- A run that keeps a receipt answers the command with it, and refuses any other command of
that identity, in whatever state the run is. -/
theorem reconcile_recorded (h : Recorded c run command actor receipt) {phase : Phase}
    {access : AccessContext} {command' : ReconcileCommand} (now : UInt64)
    (hid : command'.commandId = command.commandId)
    (hchecked : checkReconcile c phase access command' = .ok ()) :
    Engine.reconcile c phase access command' now run =
      if Same .source command' command ∧ access.actor = actor then .ok (receipt, none)
      else .error (stateConflict
        "Command identity was used with different content or actor") := by
  obtain ⟨saved, atMs, hsaved, hfound⟩ := h.found
  unfold Engine.reconcile
  rw [hchecked, ok_bind]
  have hread : Engine.read c run = .ok run := by
    unfold Engine.read
    rw [if_pos h.scope]
  rw [hread, ok_bind]
  unfold previousReceipt
  rw [hid, hfound]
  dsimp only
  -- the receipt answers the same command of the same actor
  by_cases hsame : Same .source command' command ∧ access.actor = actor
  · rw [if_pos hsame, if_pos ⟨hsaved.trans hsame.1.symm, hsame.2.symm⟩]
    rfl
  · rw [if_neg hsame, if_neg fun h => hsame ⟨h.1.symm.trans hsaved, h.2.symm⟩]
    rfl

theorem recorded_of_previous (hscope : run.scope = c.scope)
    (h : previousReceipt run command actor = .ok (some receipt)) :
    Recorded c run command actor receipt := by
  unfold previousReceipt at h
  split at h
  · nomatch h
  next a hfound =>
    split at h
    next hsame =>
      obtain rfl := Option.some.inj (Except.ok.inj h)
      obtain ⟨hsaved, rfl⟩ := hsame
      exact ⟨hscope, a.command, a.atMs, hsaved, hfound⟩
    · nomatch h

/-- An answer without a replacement is a receipt the run keeps. -/
theorem recorded_of_reconcile {phase : Phase} {access : AccessContext} {now : UInt64}
    (h : Engine.reconcile c phase access command now run = .ok (receipt, none)) :
    Recorded c run command access.actor receipt := by
  unfold Engine.reconcile at h
  obtain ⟨_, -, h⟩ := bind_eq_ok.mp h
  obtain ⟨run', hread, h⟩ := bind_eq_ok.mp h
  obtain ⟨hscope, hrun⟩ := read_eq_ok hread
  rw [hrun] at h
  obtain ⟨previous, hprevious, h⟩ := bind_eq_ok.mp h
  cases previous with
  | some previous =>
    simp only [pure, Except.pure, Except.ok.injEq, Prod.mk.injEq, and_true] at h
    rw [h] at hprevious
    exact recorded_of_previous hscope hprevious
  -- a command without a receipt either fails or has a new snapshot
  | none =>
    obtain ⟨_, -, h⟩ := bind_eq_ok.mp h
    obtain ⟨_, -, h⟩ := bind_eq_ok.mp h
    obtain ⟨_, -, h⟩ := bind_eq_ok.mp h
    obtain ⟨_, -, h⟩ := bind_eq_ok.mp h
    obtain ⟨_, -, h⟩ := bind_eq_ok.mp h
    obtain ⟨_, -, h⟩ := bind_eq_ok.mp h
    obtain ⟨_, -, h⟩ := bind_eq_ok.mp h
    simp [pure, Except.pure] at h

end Audit

/-! ## What an accepted command leaves -/

section Accepted

variable {c : Composition} {access : AccessContext} {command : ReconcileCommand} {now : UInt64}
  {prev next : RunSnapshot} {receipt : ReconcileReceipt} {key : String}
  {record : InvocationRecord} {resolved : Resolved} {revision : UInt64}

theorem unblock_audit (run : RunSnapshot) :
    (unblock run).audit = run.audit ∧ (unblock run).id = run.id ∧ (unblock run).scope = run.scope ∧
      (unblock run).invocations = run.invocations := by
  unfold unblock
  split <;> exact ⟨rfl, rfl, rfl, rfl⟩

theorem ResolveLaw.kept {resolution : EffectResolution}
    (h : ResolveLaw c resolution key record now prev resolved) :
    resolved.1.audit = prev.audit ∧ resolved.1.id = prev.id ∧ resolved.1.scope = prev.scope := by
  cases h <;> exact ⟨rfl, rfl, rfl⟩

/-- The resolution, the entry and the receipt are those of one revision. -/
theorem accepted_audit
    (law : ReconcileLaw c access command now prev receipt next key record resolved revision) :
    next.audit = prev.audit ++ [.resolution ⟨command, access.actor, now, receipt⟩] ∧
      receipt.commandId = command.commandId ∧ receipt.runId = prev.id ∧
      receipt.revision = next.revision ∧ next.revision.toNat = prev.revision.toNat + 1 ∧
      next.scope = c.scope := by
  obtain ⟨haudit, hid, hscope⟩ := ResolveLaw.kept law.resolution
  obtain ⟨haudit', hid', hscope', -⟩ := unblock_audit resolved.1
  obtain ⟨hreceipt, hnext⟩ := Prod.mk.inj law.result
  have hrevision := checkedAdd_eq_some.mp law.successor
  subst hnext
  refine ⟨?_, ?_, ?_, ?_, hrevision.symm, ?_⟩
  · rw [hreceipt]
    simp only [haudit', haudit]
  · rw [hreceipt]
  · rw [hreceipt]
    exact hid'.trans hid
  · rw [hreceipt]
  · exact hscope'.trans (hscope.trans law.scope)

theorem recorded_of_accepted
    (law : ReconcileLaw c access command now prev receipt next key record resolved revision) :
    Recorded c next command access.actor receipt := by
  obtain ⟨haudit, -, -, -, -, hscope⟩ := accepted_audit law
  refine ⟨hscope, command, now, .refl command, ?_⟩
  rw [haudit]
  exact findResolution_append law.fresh rfl

/-- A blocked run is left only when nothing is unknown any more, or nobody tracks it. -/
theorem accepted_unblocks
    (law : ReconcileLaw c access command now prev receipt next key record resolved revision)
    (hleft : next.state ≠ .blocked) :
    isStopTracking command.resolution = true ∨
      ∀ (k : String) (r : InvocationRecord),
        next.invocations[k]? = some r → r.state ≠ .unknown := by
  obtain ⟨-, hnext⟩ := Prod.mk.inj law.result
  have hkept : isStopTracking command.resolution = true ∨ resolved.1.state = .blocked := by
    have hblocked := law.blocked
    cases law.resolution with
    | applied => exact .inr hblocked
    | invalid => exact .inr hblocked
    | retry => exact .inr hblocked
    | failed => exact .inr hblocked
    | blocked => exact .inr hblocked
    | stopped hcommand =>
      rw [hcommand]
      exact .inl rfl
  refine hkept.imp_right fun hblocked => ?_
  -- the state changes only where the run is handed back
  obtain ⟨-, -, -, hinvocations⟩ := unblock_audit resolved.1
  subst hnext
  intro k r hr hunknown
  apply hleft
  change (unblock resolved.1).state = .blocked
  unfold unblock
  rw [if_neg, hblocked]
  intro hfree
  simp only [Bool.not_eq_true'] at hfree
  have hawaits : awaitsResolution resolved.1.invocations = true :=
    awaitsResolution_iff.mpr ⟨k, r, hinvocations ▸ hr, hunknown⟩
  rw [hawaits] at hfree
  nomatch hfree.2

end Accepted

/-! ## The ledger -/

/-- The identity of the command a commit resolves. -/
def Commit.resolves {ι : Type} (commit : Commit ι) : Option String :=
  match commit.call with
  | .reconcile _ command => some command.commandId
  | _ => none

section Ledger

variable {ι : Type} {c : Composition} {first last : Option RunSnapshot}
  {ledger : List (Commit ι)} {s t : RunSnapshot}

/-- Only a late observation is added to the audit by a change of a whole run. -/
theorem RunChange.audit {limits : Limits} {run next : RunSnapshot}
    (h : RunChange limits run next) :
    next.audit = run.audit ∨ ∃ observation, next.audit = run.audit ++ [.late observation] := by
  cases h with
  | begun => unfold beginRun; split <;> exact .inl rfl
  | suspended => unfold suspendRun; split <;> exact .inl rfl
  | blocked => exact .inl rfl
  | recovered => exact .inl rfl
  -- the end of a run lists its effects beside the audit
  | finished => exact .inl size_finishError.2.2
  | concluded h =>
    obtain rfl := Option.some.inj (Except.ok.inj h)
    exact .inl rfl
  | cancelled h =>
    unfold cancel at h
    split at h
    · nomatch h
    · obtain rfl := Option.some.inj (Except.ok.inj h)
      exact .inl rfl
  -- the edits of records and waits leave it alone
  | stopped h =>
    obtain ⟨record, -, rfl, -⟩ := stopGroup_eq_some h
    exact .inl rfl
  | reserved h =>
    obtain ⟨-, -, -, -, -, -, -, rfl, -⟩ := reserve_eq_some h
    exact .inl rfl
  | confirmed h =>
    obtain ⟨wait, -, -, -, rfl⟩ := confirmStart_eq_some h
    exact .inl rfl
  | expired h =>
    obtain ⟨wait, -, -, -, -, rfl⟩ := expire_eq_some h
    exact .inl rfl
  | consumed h =>
    obtain ⟨-, -, -, wait, -, -, ⟨-, rfl⟩ | ⟨output, record, -, -, rfl, -⟩⟩ := consume_eq_some h
    · exact .inl rfl
    · exact .inl rfl
  | ended h =>
    obtain ⟨wait, record, -, -, -, rfl⟩ := endWait_eq_some h
    exact .inl rfl
  -- an attempt that was not interrupted leaves no observation
  | observed h =>
    unfold observeLate at h
    split at h
    · nomatch h
    · obtain rfl := Option.some.inj (Except.ok.inj h)
      exact .inr ⟨_, rfl⟩

/-- What a commit adds to the audit: nothing, a late observation, or the resolution of its
command, whose identity was not there before. -/
theorem Applied.audit {call : Call} {answer : Answer} {prev next : RunSnapshot}
    (ha : Applied c call answer prev next) (hcall : call.OfEngine c.limits) {x : Commit ι}
    (hx : x.call = call) :
    ∃ added, next.audit = prev.audit ++ added ∧ resolutionIds added = x.resolves.toList ∧
      ∀ id ∈ x.resolves, id ∉ resolutionIds prev.audit := by
  unfold Commit.resolves
  rw [hx]
  cases ha with
  -- a change of the engine adds a late observation at most
  | update hdecided =>
    obtain ⟨-, edited, revision, hedit, -, rfl⟩ := updateWithView_eq_some hdecided
    rcases (hcall _ _ _ _ hedit).audit with haudit | ⟨observation, haudit⟩
    · exact ⟨[], by simpa [RunSnapshot.atRevision] using haudit, rfl, fun _ h => by cases h⟩
    · exact ⟨_, haudit, rfl, fun _ h => by cases h⟩
  | updateNode hdecided hnext =>
    subst hnext
    exact ⟨[], by simp [RunSnapshot.insertRecord], rfl, fun _ h => by cases h⟩
  -- a delivery writes the wait
  | signal hdecided =>
    obtain ⟨_, _, hd⟩ := bind_eq_ok.mp hdecided
    obtain ⟨checked, _, hd⟩ := bind_eq_ok.mp hd
    obtain ⟨run', hread, hd⟩ := bind_eq_ok.mp hd
    obtain ⟨_, hrun⟩ := read_eq_ok hread
    rw [hrun] at hd
    obtain ⟨wait, law⟩ := deliver_eq_some hd
    obtain ⟨revision, -, rfl⟩ := law.replaced
    refine ⟨[], ?_, rfl, fun _ h => by cases h⟩
    simp [deliveredRun, RunSnapshot.setWait, RunSnapshot.atRevision]
  -- a report adds its own entry, under an identity that was not there
  | reconcile hdecided =>
    obtain ⟨key, record, resolved, revision, law⟩ := reconcile_eq_some hdecided
    refine ⟨_, (accepted_audit law).1, rfl, fun id hid => ?_⟩
    obtain rfl := Option.some.inj hid
    exact findResolution_eq_none_iff.mp law.fresh

/-- The audit resolves exactly the commands that were committed, each once. -/
theorem Linked.resolutions (hl : Linked c first ledger last)
    (hcalls : ∀ x ∈ ledger, x.call.OfEngine c.limits)
    (hfirst : ∀ s ∈ first, s.InitialLaw) :
    (ledger.filterMap Commit.resolves).Nodup ∧
      ∀ s ∈ last, ∀ id, id ∈ resolutionIds s.audit ↔ id ∈ ledger.filterMap Commit.resolves := by
  induction hl with
  | nil =>
    refine ⟨List.nodup_nil, fun s hs id => ?_⟩
    simp [(hfirst s hs).audit, resolutionIds]
  -- the newest commit adds its own resolution to those of the commits before
  | @cons ledger x prev next _ hafter _ happlied _ ih =>
    have holder : ∀ y ∈ ledger, y.call.OfEngine c.limits := by
      intro y hy
      exact hcalls y (List.mem_cons_of_mem x hy)
    obtain ⟨hnodup, hprev⟩ := ih holder
    obtain ⟨entries, haudit, hadded, hfresh⟩ :=
      happlied.audit (hcalls x (List.mem_cons_self ..)) rfl
    have hids : resolutionIds next.audit = resolutionIds prev.audit ++ x.resolves.toList := by
      rw [haudit, ← hadded]
      exact List.filterMap_append
    have hprev := hprev prev rfl
    cases hx : x.resolves with
    -- it is of no command
    | none =>
      rw [hx, Option.toList_none, List.append_nil] at hids
      rw [List.filterMap_cons_none hx]
      refine ⟨hnodup, fun s hs id => ?_⟩
      obtain rfl := Option.some.inj hs
      rw [hids]
      exact hprev id
    -- it is of a command that was not resolved before
    | some added =>
      rw [hx, Option.toList_some] at hids
      rw [List.filterMap_cons_some hx]
      refine ⟨List.nodup_cons.mpr ⟨fun hmem => ?_, hnodup⟩, fun s hs id => ?_⟩
      · exact hfresh added hx ((hprev added).mpr hmem)
      · obtain rfl := Option.some.inj hs
        rw [hids, List.mem_append, List.mem_singleton, List.mem_cons, hprev id, or_comm]

/-- The audit of later snapshots extends that of the ones the commits went through. -/
theorem Seen.audit (hs : Seen c first ledger s) (hl : Linked c first ledger (some t))
    (hcalls : ∀ x ∈ ledger, x.call.OfEngine c.limits) :
    s.scope = t.scope ∧ s.audit <+: t.audit := by
  obtain ⟨newer, older, rfl, ho⟩ := hs
  induction newer generalizing t with
  | nil =>
    obtain rfl := Option.some.inj (ho.unique hl)
    exact ⟨rfl, List.prefix_refl _⟩
  | cons x newer ih =>
    cases hl with
    | cons h _ _ happlied law =>
      obtain ⟨hscope, haudit⟩ := ih h fun y hy => hcalls y (List.mem_cons_of_mem x hy)
      obtain ⟨added, hadded, -⟩ := happlied.audit (hcalls x (List.mem_cons_self ..)) rfl
      exact ⟨hscope.trans law.scope, haudit.trans ⟨added, hadded.symm⟩⟩

/-- A run that commits went through is still there. -/
theorem Seen.present (hs : Seen c first ledger s) (hl : Linked c first ledger last) :
    ∃ t, last = some t := by
  obtain ⟨newer, older, rfl, ho⟩ := hs
  cases newer with
  | nil => exact ⟨s, hl.unique ho⟩
  | cons x newer =>
    cases hl with
    | @cons _ _ _ next => exact ⟨next, rfl⟩

/-- A commit in the ledger, with the snapshots around it. -/
theorem Linked.split {x : Commit ι} (hl : Linked c first ledger last) (hx : x ∈ ledger) :
    ∃ newer older prev next, ledger = newer ++ x :: older ∧ Linked c first older (some prev) ∧
      Linked c first (x :: older) (some next) ∧ x.after = some next ∧
      Applied c x.call x.answer prev next := by
  induction hl with
  | nil => nomatch hx
  | @cons ledger y prev next h hafter hread happlied law ih =>
    rcases List.mem_cons.mp hx with rfl | hx
    · exact ⟨[], ledger, prev, next, rfl, h, .cons h hafter hread happlied law, hafter, happlied⟩
    · obtain ⟨newer, older, prev', next', rfl, hrest⟩ := ih hx
      exact ⟨y :: newer, older, prev', next', rfl, hrest⟩

end Ledger

/-! ## What a client is told -/

/-- A client that changed nothing was told of a receipt the run kept when it was read. -/
def Told {ι : Type} (c : Composition) (first : Option RunSnapshot) (ledger : List (Commit ι))
    (client : Client) : Prop :=
  ∀ access command receipt, client.call = .reconcile access command →
    client.stage = .unchanged (.reconcile receipt) →
    ∃ s, Seen c first ledger s ∧ Recorded c s command access.actor receipt

section Told

variable {ι : Type} [DecidableEq ι] {c : Composition} {owner : String} {id : RunId}
  {first : Option RunSnapshot} {ledger : List (Commit ι)} {store : State} {w₀ w w' : World ι}

omit [DecidableEq ι] in
theorem Told.of_stage {client : Client}
    (h : ∀ answer, client.stage ≠ .unchanged answer) : Told c first ledger client :=
  fun _ _ receipt _ hstage => absurd hstage (h (.reconcile receipt))

omit [DecidableEq ι] in
theorem told_begin {now : UInt64} {phase : Phase} {call : Call}
    (hl : Linked c first ledger (store.get id)) :
    Told c first ledger ⟨call, begin c id now phase store call⟩ := by
  rintro access command receipt rfl hstage
  dsimp only [begin] at hstage
  split at hstage
  · nomatch hstage
  next run hget =>
    rw [hget] at hl
    refine ⟨run, .now hl, ?_⟩
    unfold decideCommand at hstage
    split at hstage
    · nomatch hstage
    next receipt' hdecided =>
      obtain rfl := Answer.reconcile.inj (Stage.unchanged.inj hstage)
      exact recorded_of_reconcile hdecided
    · nomatch hstage

omit [DecidableEq ι] in
/-- A caller who lost the race against its own twin is told the receipt of the twin. -/
theorem told_recheck {expected : UInt64} {error : ForgeError} {call : Call}
    (hl : Linked c first ledger (store.get id)) :
    Told c first ledger ⟨call, recheck c id store expected error call⟩ := by
  rintro access command receipt rfl hstage
  dsimp only [recheck] at hstage
  split at hstage
  · nomatch hstage
  next run hrun =>
    have hget := readRun_eq_ok hrun
    rw [hget] at hl
    refine ⟨run, .now hl, ?_⟩
    unfold readRun at hrun
    rw [hget] at hrun
    obtain ⟨hscope, -⟩ := read_eq_ok hrun
    split at hstage
    · nomatch hstage
    · nomatch hstage
    next receipt' hprevious =>
      obtain rfl := Answer.reconcile.inj (Stage.unchanged.inj hstage)
      exact recorded_of_previous hscope hprevious

omit [DecidableEq ι] in
theorem Told.mono {client : Client} (h : Told c first ledger client) {newer : List (Commit ι)}
    (hnewer : newer = ledger ∨ ∃ x, newer = x :: ledger) : Told c first newer client := by
  intro access command receipt hcall hstage
  obtain ⟨s, hs, hrecorded⟩ := h access command receipt hcall hstage
  rcases hnewer with rfl | ⟨x, rfl⟩
  · exact ⟨s, hs, hrecorded⟩
  · exact ⟨s, hs.cons x, hrecorded⟩

/-- A client that moves is told what its new stage says, every other one what it was told. -/
theorem told_update {i : ι} (w' : World ι) (store : State) (stage : Stage)
    (h : ∀ j, Told c first w.ledger (w.clients j))
    (hclients : w'.clients = (w.settle i store stage).clients)
    (hledger : w'.ledger = w.ledger ∨ ∃ x, w'.ledger = x :: w.ledger)
    (hstage : Told c first w.ledger ⟨(w.clients i).call, stage⟩) (j : ι) :
    Told c first w'.ledger (w'.clients j) := by
  rw [hclients]
  by_cases hj : j = i
  · subst hj
    rw [settle_self]
    exact hstage.mono hledger
  · rw [settle_other w i store stage hj]
    exact (h j).mono hledger

omit [DecidableEq ι] in
theorem refuse_open (expected : UInt64) (error : ForgeError) (answer : Answer) :
    refuse expected error ≠ .unchanged answer := by
  unfold refuse
  split
  · intro h
    nomatch h
  · intro h
    nomatch h

theorem told_step (hinv : World.Inv c id w₀ w)
    (h : ∀ j, Told c (w₀.store.get id) w.ledger (w.clients j)) {a : Action ι}
    (hs : World.step c owner id w a = some w') (j : ι) :
    Told c (w₀.store.get id) w'.ledger (w'.clients j) := by
  unfold World.step at hs
  dsimp only at hs
  split at hs
  · obtain rfl := Option.some.inj hs
    exact told_update _ w.store _ h rfl (.inl rfl) (told_begin hinv.linked) j
  next run hstage =>
    split at hs
    next allow edit hcall =>
      obtain rfl := Option.some.inj hs
      refine told_update _ w.store _ h rfl (.inl rfl) ?_ j
      -- an update is not told of a receipt
      intro access command receipt hcall'
      rw [hcall] at hcall'
      nomatch hcall'
    · nomatch hs
  next run next answer hstage =>
    split at hs
    next store _ =>
      obtain rfl := Option.some.inj hs
      exact told_update (w.commit id a.client store _ _) store (.committed _) h rfl
        (.inr ⟨_, rfl⟩) (.of_stage fun _ he => nomatch he) j
    next store e _ =>
      obtain rfl := Option.some.inj hs
      exact told_update _ store _ h rfl (.inl rfl) (.of_stage (refuse_open _ e)) j
  next view key record hstage =>
    split at hs
    next store after _ =>
      obtain rfl := Option.some.inj hs
      exact told_update (w.commit id a.client store _ _) store (.committed _) h rfl
        (.inr ⟨_, rfl⟩) (.of_stage fun _ he => nomatch he) j
    next store e _ =>
      obtain rfl := Option.some.inj hs
      exact told_update _ store _ h rfl (.inl rfl) (.of_stage (refuse_open _ e)) j
  next expected error hstage =>
    obtain rfl := Option.some.inj hs
    exact told_update _ w.store _ h rfl (.inl rfl) (told_recheck hinv.linked) j
  all_goals nomatch hs

theorem leads_told (h₀ : w₀.Starts id) (h : (clients c owner id).Leads (fun _ _ => True) w₀ w) :
    ∀ j, Told c (w₀.store.get id) w.ledger (w.clients j) := by
  induction h with
  | refl =>
    intro j
    refine .of_stage fun answer hstage => ?_
    rw [h₀.fresh j] at hstage
    nomatch hstage
  | tail hl hn ih =>
    obtain ⟨a, _, hs⟩ := hn
    exact told_step (leads_inv h₀ hl) ih hs

end Told

/-! ## Atomic and idempotent -/

/-- What holds of the reconciliation commands of all clients. -/
structure ReconcileSafety {ι : Type} [DecidableEq ι] (c : Composition) (id : RunId)
    (first : Option RunSnapshot) (w : World ι) : Prop where
  /-- A command that was rejected, or answered from the audit, committed nothing. -/
  rejected : ∀ i access command, (w.clients i).call = .reconcile access command →
    (∀ answer, (w.clients i).stage ≠ .committed answer) → w.commits i = []
  /-- A command that was accepted is one commit: its resolution, its audit entry and its
  receipt are those of one revision. -/
  accepted : ∀ i access command receipt, (w.clients i).call = .reconcile access command →
    (w.clients i).stage = .committed (.reconcile receipt) →
    ∃ newer older x prev next key record resolved revision now,
      w.ledger = newer ++ x :: older ∧ w.commits i = [x] ∧ Linked c first older (some prev) ∧
      x.after = some next ∧
      ReconcileLaw c access command now prev receipt next key record resolved revision ∧
      next.audit = prev.audit ++ [.resolution ⟨command, access.actor, now, receipt⟩] ∧
      receipt.revision = next.revision ∧ next.revision.toNat = prev.revision.toNat + 1
  /-- Whoever was told a receipt is told it again, and nobody else is. -/
  repeated : ∀ i access command receipt, (w.clients i).call = .reconcile access command →
    (w.clients i).stage = .committed (.reconcile receipt) ∨
      (w.clients i).stage = .unchanged (.reconcile receipt) →
    ∃ run, w.store.get id = some run ∧ ∀ phase access' command' now,
      command'.commandId = command.commandId →
      checkReconcile c phase access' command' = .ok () →
      Engine.reconcile c phase access' command' now run =
        if Same .source command' command ∧ access'.actor = access.actor then .ok (receipt, none)
        else .error (stateConflict
          "Command identity was used with different content or actor")
  /-- No identity takes effect twice. -/
  once : (w.ledger.filterMap Commit.resolves).Nodup
  /-- A command is accepted by a blocked run, which it leaves blocked while something is
  unknown and tracked. -/
  unblocks : ∀ x ∈ w.ledger, ∀ access command, x.call = .reconcile access command →
    ∃ newer older prev next, w.ledger = newer ++ x :: older ∧ Linked c first older (some prev) ∧
      x.after = some next ∧ prev.state = .blocked ∧
      (next.state ≠ .blocked → isStopTracking command.resolution = true ∨
        ∀ (k : String) (r : InvocationRecord), next.invocations[k]? = some r →
          r.state ≠ .unknown)

section Safety

variable {ι : Type} [DecidableEq ι] {c : Composition} {owner : String} {id : RunId}
  {w₀ w : World ι}

/-- A receipt a client was told of is kept by the current run. -/
theorem told_recorded (hinv : World.Inv c id w₀ w)
    (htold : ∀ j, Told c (w₀.store.get id) w.ledger (w.clients j))
    (hengine : ∀ x ∈ w.ledger, x.call.OfEngine c.limits) {i : ι}
    {access : AccessContext} {command : ReconcileCommand} {receipt : ReconcileReceipt}
    (hcall : (w.clients i).call = .reconcile access command)
    (hstage : (w.clients i).stage = .committed (.reconcile receipt) ∨
      (w.clients i).stage = .unchanged (.reconcile receipt)) :
    ∃ run, w.store.get id = some run ∧ Recorded c run command access.actor receipt := by
  have hseen : ∃ s, Seen c (w₀.store.get id) w.ledger s ∧
      Recorded c s command access.actor receipt := by
    -- the receipt comes from the own commit, or was found in the audit
    rcases hstage with hstage | hstage
    · have haccounted := hinv.accounted i
      unfold Accounted at haccounted
      rw [hstage] at haccounted
      obtain ⟨read, after, hcommits⟩ := haccounted
      have hmem : ⟨i, (w.clients i).call, read, .reconcile receipt, after⟩ ∈ w.ledger :=
        List.mem_of_mem_filter (hcommits ▸ List.mem_singleton_self _)
      obtain ⟨newer, older, prev, next, hledger, -, hnext, -, happlied⟩ := hinv.linked.split hmem
      rw [hcall] at happlied hnext hledger
      cases happlied with
      | reconcile hdecided =>
        obtain ⟨key, record, resolved, revision, law⟩ := reconcile_eq_some hdecided
        exact ⟨next, ⟨newer, _, hledger, hnext⟩, recorded_of_accepted law⟩
    · exact htold i access command receipt hcall hstage
  obtain ⟨s, hs, hrecorded⟩ := hseen
  obtain ⟨run, hget⟩ := hs.present hinv.linked
  have hl := hinv.linked
  rw [hget] at hl
  -- the audit of the snapshot is a part of the present one
  obtain ⟨hscope, haudit⟩ := hs.audit hl hengine
  exact ⟨run, hget, hrecorded.extends hscope haudit⟩

/-- Every reconciliation command takes effect once or not at all, in one revision with its
receipt, and the receipt is told again at any later time. -/
theorem reconcile_atomic (h₀ : w₀.Starts id) (hfirst : ∀ s ∈ w₀.store.get id, s.InitialLaw)
    (hcalls : ∀ i, (w₀.clients i).call.OfEngine c.limits)
    (h : (clients c owner id).Leads (fun _ _ => True) w₀ w) :
    ReconcileSafety c id (w₀.store.get id) w := by
  have hinv := leads_inv h₀ h
  have hengine : ∀ x ∈ w.ledger, x.call.OfEngine c.limits := by
    intro x hx
    rw [hinv.commit_call hx, leads_call h]
    exact hcalls x.client
  refine ⟨?_, ?_, ?_, (hinv.linked.resolutions hengine hfirst).1, ?_⟩
  -- a rejected command has no commit
  · intro i access command _ hopen
    exact (hinv.accounted i).of_open hopen
  -- an accepted one has the one commit that wrote its receipt
  · intro i access command receipt hcall hstage
    have haccounted := hinv.accounted i
    unfold Accounted at haccounted
    rw [hstage] at haccounted
    obtain ⟨read, after, hcommits⟩ := haccounted
    have hmem : ⟨i, (w.clients i).call, read, .reconcile receipt, after⟩ ∈ w.ledger :=
      List.mem_of_mem_filter (hcommits ▸ List.mem_singleton_self _)
    obtain ⟨newer, older, prev, next, hledger, hprev, -, hafter, happlied⟩ :=
      hinv.linked.split hmem
    rw [hcall] at happlied
    cases happlied with
    | @reconcile _ _ _ now _ _ _ hdecided =>
      obtain ⟨key, record, resolved, revision, law⟩ := reconcile_eq_some hdecided
      obtain ⟨haudit, -, -, hreceipt, hrevision, -⟩ := accepted_audit law
      exact ⟨newer, older, _, prev, next, key, record, resolved, revision, now, hledger,
        hcommits, hprev, hafter, law, haudit, hreceipt, hrevision⟩
  · intro i access command receipt hcall hstage
    obtain ⟨run, hget, hrecorded⟩ := told_recorded hinv (leads_told h₀ h) hengine hcall hstage
    refine ⟨run, hget, fun phase access' command' now hid hchecked => ?_⟩
    exact reconcile_recorded hrecorded now hid hchecked
  -- and its commit leaves the blocked state
  · intro x hx access command hcall
    obtain ⟨newer, older, prev, next, hledger, hprev, -, hafter, happlied⟩ := hinv.linked.split hx
    rw [hcall] at happlied
    generalize hanswer : x.answer = answer at happlied
    cases happlied with
    | reconcile hdecided =>
      obtain ⟨key, record, resolved, revision, law⟩ := reconcile_eq_some hdecided
      exact ⟨newer, older, prev, next, hledger, hprev, hafter, law.blocked,
        accepted_unblocks law⟩

end Safety

/-! ## A command and its twin -/

/-- A caller who may stop the tracking of an effect. -/
def sampleAccess : AccessContext where
  scope := "scope"
  actor := "host"
  permissions := [.reconcile, .stopTracking]
  resources := ∅

def sampleCommand : ReconcileCommand :=
  ⟨"c", "run", "i", 2, "t", .stopTracking "lost" none⟩

/-- An attempt is lost, the run is blocked by it, and everybody else sends one command. -/
def sampleTwins : World Nat where
  store := sampleStore
  clients
    | 0 => ⟨.updateNode "a" true fun _ _ _ =>
        .ok (some { sampleRecord with state := .unknown, certainty := .unknown }), .idle⟩
    | 1 => ⟨.update false fun now run _ => .ok (some (finishError unknownError false now run)),
        .idle⟩
    | _ => ⟨.reconcile sampleAccess sampleCommand, .idle⟩

/-- Two callers decide on the same snapshot; the second is refused and reads again. -/
def sampleTwinMoves : List (Action Nat) :=
  [0, 0, 1, 1, 1, 2, 3, 2, 3, 3].map (⟨·, 5, .ready⟩)

theorem sampleTwins_starts : sampleTwins.Starts "run" where
  reached := sampleStore_reached.any
  counted := sampleStore_reached.counted "run"
  fresh
    | 0 => rfl
    | 1 => rfl
    | _ + 2 => rfl
  calls
    | 0 => trivial
    | 1 => by
      rintro now run head next _ h
      obtain rfl := Option.some.inj (Except.ok.inj h)
      exact keeps_finishError
    | _ + 2 => rfl
  ledger := rfl

/-- The receipt a stage tells. -/
def Stage.receipt : Stage → Option ReconcileReceipt
  | .committed (.reconcile receipt) | .unchanged (.reconcile receipt) => some receipt
  | _ => none

theorem Stage.receipt_eq_some {stage : Stage} {receipt : ReconcileReceipt}
    (h : stage.receipt = some receipt) :
    stage = .committed (.reconcile receipt) ∨ stage = .unchanged (.reconcile receipt) := by
  unfold Stage.receipt at h
  split at h
  · exact .inl (by rw [Option.some.inj h])
  · exact .inr (by rw [Option.some.inj h])
  · nomatch h

/-- Both callers are told the receipt of the one commit, and would be told it again. -/
theorem reconcile_atomic_sample :
    ∃ w run, (clients sampleComposition "host" "run").run sampleTwins sampleTwinMoves = some w ∧
      w.ledger.filterMap Commit.resolves = ["c"] ∧ w.store.get "run" = some run ∧
      Engine.reconcile sampleComposition .ready sampleAccess sampleCommand 9 run =
        .ok (⟨"c", "run", 3, .stoppedTracking, none⟩, none) := by
  have hrun : (((clients sampleComposition "host" "run").run sampleTwins sampleTwinMoves).map
      fun w => (w.ledger.filterMap Commit.resolves, (w.clients 3).stage.receipt)) =
        some (["c"], some ⟨"c", "run", 3, .stoppedTracking, none⟩) := by
    decide +kernel
  obtain ⟨w, hw, hread⟩ := Option.map_eq_some_iff.mp hrun
  obtain ⟨hledger, hreceipt⟩ := Prod.mk.inj hread
  have hleads : (clients sampleComposition "host" "run").Leads (fun _ _ => True) sampleTwins w :=
    System.run_leads (fun _ _ _ => trivial) hw
  have hinitial : ∀ s ∈ sampleTwins.store.get "run", s.InitialLaw := by
    intro s hs
    obtain rfl : sampleRun = s := Option.some.inj hs
    exact sampleRun_initial
  -- the second caller ends the run, and the others report the same command
  have hcalls : ∀ i, (sampleTwins.clients i).call.OfEngine sampleComposition.limits
    | 0 => trivial
    | 1 => by
      rintro now run head next h
      obtain rfl := Option.some.inj (Except.ok.inj h)
      exact .finished
    | _ + 2 => trivial
  have hcall : (w.clients 3).call = .reconcile sampleAccess sampleCommand := leads_call hleads 3
  obtain ⟨run, hget, hrepeated⟩ :=
    (reconcile_atomic sampleTwins_starts hinitial hcalls hleads).repeated 3 _ _ _ hcall
      (Stage.receipt_eq_some hreceipt)
  refine ⟨w, run, hw, hledger, hget, ?_⟩
  rw [hrepeated .ready sampleAccess sampleCommand 9 rfl (by decide +kernel)]
  exact if_pos ⟨rfl, rfl⟩

end WorkflowForge.Clients
