import WorkflowForge.System.Successor

/-!
# Refused Proposals

Every transition is a successor of the run it was decided on, so the store refuses a proposal
only when another one was committed before it, or when the revisions are used up.

## Main results

- `Reachable.accepts`: a proposal passes every check but that of the revision counter.
- `conflict_means_commit`: what a refused proposal means.
- `last_revision_refuses`: at the last revision, a record is refused without another commit.
-/

namespace WorkflowForge.Run

open Lib Engine

variable {s : Setup} {w w' : World} {a : Action} {key id : String}

/-! ## Replacements of one record -/

/-- A decision that never proposes a record by itself. -/
def Whole (p : Option (Option Proposal)) : Prop :=
  ∀ key record, p ≠ some (some (.record key record))

namespace Whole

theorem bind {α : Type} {x : Option α} {f : α → Option (Option Proposal)}
    (h : ∀ v, Whole (f v)) : Whole (x.bind f) := by
  intro key record hp
  obtain ⟨v, -, hv⟩ := Option.bind_eq_some_iff.mp hp
  exact h v key record hv

theorem impossible : Whole none := fun _ _ h => by cases h

theorem declined : Whole (some none) := fun _ _ h => by cases h

theorem ite {condition : Prop} [Decidable condition] {p q : Option (Option Proposal)}
    (hp : Whole p) (hq : Whole q) : Whole (if condition then p else q) := by
  split
  · exact hp
  · exact hq

theorem ofRun {x : Except ForgeError (Option RunSnapshot)} : Whole (Proposal.ofRun x) := by
  intro key record h
  obtain ⟨next, -, heq⟩ := ofRun_eq_some h
  cases heq

theorem answered {R : Type} {isNamed : Bool} {answer : Except ForgeError (R × Option RunSnapshot)} :
    Whole (World.answered isNamed answer) := by
  intro key record h
  obtain ⟨receipt, next, -, -, heq⟩ := answered_eq_some h
  cases heq

end Whole

/-- The actions of operations and control nodes that change the record of their node. -/
def Action.recordsNode : Action → Bool
  | .intend .. | .succeed .. | .fail .. | .recover .. | .classify .. => true
  | .activate .. | .progress .. | .complete .. | .error .. => true
  | _ => false

/-- An admitted boot replaces the whole run. -/
theorem whole_boot (c : Composition) : Whole (w.boot c) := by
  unfold World.boot
  split
  · exact .ite .impossible (.ite .ofRun .declined)
  · exact .impossible

/-- So does one that blocks it. -/
theorem whole_bootBlocked (c : Composition) (error : ForgeError) :
    Whole (w.bootBlocked c error) := by
  unfold World.bootBlocked
  split
  · exact .ite .impossible .ofRun
  · exact .impossible

/-- A process that is up asks for a run without changing it. -/
theorem whole_take : Whole (w.proposal s .ready) ∧ Whole (w.proposal s .take) := by
  constructor
  · simp only [World.proposal]
    split
    · exact .declined
    · exact .impossible
  · simp only [World.proposal]
    split
    · exact .ite .declined .impossible
    · exact .impossible

/-- A host without the plan blocks the run. -/
theorem whole_block (error : ForgeError) : Whole (w.proposal s (.block error)) := by
  simp only [World.proposal]
  split
  · exact .ite .ofRun .impossible
  · exact .impossible

/-- A worker begins the run that it took. -/
theorem whole_begin : Whole (w.proposal s .begin) := by
  simp only [World.proposal]
  split
  · exact .ofRun
  · exact .impossible

/-- The worker of an operation only remembers that it calls and what is answered. -/
theorem whole_worker (key : String) :
    Whole (w.call s key) ∧ Whole (w.answer s key) ∧ Whole (w.exceed s key) := by
  refine ⟨.bind fun _ => .bind fun _ => ?_, .bind fun _ => .bind fun _ => ?_,
    .bind fun _ => .bind fun _ => ?_⟩
  · split
    · exact .declined
    · exact .impossible
  · split
    · exact .declined
    · exact .impossible
  · split
    · exact .bind fun _ => .declined
    · exact .impossible

/-- Every other action proposes the whole run, or nothing. -/
theorem whole_proposal (ha : a.recordsNode = false) : Whole (w.proposal s a) := by
  cases a with
  | tick => exact .ite .declined .impossible
  | crash => exact .declined
  | boot c => exact whole_boot c
  | bootBlocked c error => exact whole_bootBlocked c error
  | ready => exact whole_take.1
  | take => exact whole_take.2
  | block error => exact whole_block error
  | begin => exact whole_begin
  | call key => exact (whole_worker key).1
  | answer key => exact (whole_worker key).2.1
  | exceed key => exact (whole_worker key).2.2
  -- the edits of waits and of the run replace it as a whole
  | stop => exact .bind fun _ => .bind fun _ => .ofRun
  | reserve => exact .bind fun _ => .bind fun _ => .ofRun
  | confirm => exact .bind fun _ => .bind fun _ => .bind fun _ => .ofRun
  | expire => exact .bind fun _ => .bind fun _ => .ofRun
  | consume => exact .bind fun _ => .bind fun _ => .bind fun _ => .ofRun
  | endWait => exact .bind fun _ => .bind fun _ => .ofRun
  | suspend => exact .bind fun _ => .bind fun _ => .ofRun
  | finish => exact .bind fun _ => .bind fun _ => .ofRun
  | conclude => exact .bind fun _ => .bind fun _ => .ofRun
  | cancel => exact .bind fun _ => .ofRun
  | signal => exact .answered
  | late => exact .bind fun _ => .ofRun
  | reconcile => exact .answered
  | intend | succeed | fail | recover | classify | activate | progress | complete | error =>
    cases ha

/-- A decision on one record is about the node it was asked for, in a live run. -/
theorem onNode_record {c : Composition} {budget : Bool} {node : String} {edit : NodeEdit}
    {record : InvocationRecord}
    (h : w.onNode c budget node edit = some (some (.record key record))) :
    node = key ∧ w.run.state.isTerminal = false := by
  obtain ⟨r, heq, hlive, -⟩ := onNode_eq_some h
  exact ⟨(Proposal.record.inj heq).1.symm, hlive⟩

theorem isWait_of_operation {node : PreparedOperation} (hn : s.operation key = some node) :
    s.isWait key = false := by
  by_contra hw
  exact isWait_ne_of_operation hn (by simpa using hw) rfl

theorem isWait_of_control (hc : s.isControl key = true) : s.isWait key = false := by
  by_contra hw
  exact isWait_ne_of_control hc (by simpa using hw) rfl

theorem control_record {budget : Bool} {node : String} {edit : NodeEdit}
    {record : InvocationRecord}
    (h : w.control s budget node edit = some (some (.record key record))) :
    s.isWait key = false ∧ w.run.state.isTerminal = false := by
  obtain ⟨c, -, h⟩ := Option.bind_eq_some_iff.mp h
  obtain ⟨u, hguard, h⟩ := Option.bind_eq_some_iff.mp h
  obtain ⟨rfl, hlive⟩ := onNode_record h
  exact ⟨isWait_of_control ((Option.guard_eq_some' _).mp hguard).1, hlive⟩

/-- An attempt that a boot classifies is one of an operation. -/
theorem Reachable.classify_record (hr : Reachable s w) {later delay : UInt64}
    {record : InvocationRecord}
    (h : w.classify later delay = some (some (.record key record))) :
    s.isWait key = false ∧ w.run.state.isTerminal = false := by
  unfold World.classify at h
  split at h
  next c k r rest cancelled hp =>
    split at h
    · cases h
    next descriptor hbind =>
      obtain ⟨rfl, hlive⟩ := onNode_record h
      have hstored := (hr.attempts c _ cancelled hp).1 (k, r) (List.mem_cons_self ..)
      have hsome : r.operation.isSome = true := by
        cases ho : r.operation with
        | none => simp [ho] at hbind
        | some revision => rfl
      obtain ⟨n, hn, -⟩ := (hr.shape hstored).node_of_operation hsome
      exact ⟨isWait_of_operation hn, hlive⟩
  · cases h

/-- A record is proposed by itself only for a node that is no wait. -/
theorem proposal_record (hr : Reachable s w) {record : InvocationRecord}
    (h : w.proposal s a = some (some (.record key record))) :
    s.isWait key = false ∧ w.run.state.isTerminal = false := by
  cases ha : a.recordsNode with
  | false => exact absurd h (whole_proposal ha key record)
  | true =>
    cases a with
    -- the node of an operation
    | intend node attempt input cancelled =>
      obtain ⟨c, -, h⟩ := Option.bind_eq_some_iff.mp h
      obtain ⟨n, hn, h⟩ := Option.bind_eq_some_iff.mp h
      obtain ⟨u, -, h⟩ := Option.bind_eq_some_iff.mp h
      obtain ⟨u, -, h⟩ := Option.bind_eq_some_iff.mp h
      obtain ⟨u, -, h⟩ := Option.bind_eq_some_iff.mp h
      obtain ⟨rfl, hlive⟩ := onNode_record h
      exact ⟨isWait_of_operation hn, hlive⟩
    | succeed node =>
      obtain ⟨c, n, attempt, value, -, hn, -, h⟩ := succeed_possible h
      obtain ⟨rfl, hlive⟩ := onNode_record h
      exact ⟨isWait_of_operation hn, hlive⟩
    | fail node later delay =>
      obtain ⟨c, n, attempt, report, -, hn, -, h⟩ := fail_possible h
      obtain ⟨rfl, hlive⟩ := onNode_record h
      exact ⟨isWait_of_operation hn, hlive⟩
    | recover node cancelled later delay =>
      obtain ⟨c, -, h⟩ := Option.bind_eq_some_iff.mp h
      obtain ⟨n, hn, h⟩ := Option.bind_eq_some_iff.mp h
      obtain ⟨u, -, h⟩ := Option.bind_eq_some_iff.mp h
      split at h
      · obtain ⟨rfl, hlive⟩ := onNode_record h
        exact ⟨isWait_of_operation hn, hlive⟩
      · cases h
    | classify later delay => exact hr.classify_record h
    -- a control node
    | activate node input frame =>
      obtain ⟨c, -, h⟩ := Option.bind_eq_some_iff.mp h
      obtain ⟨u, hguard, h⟩ := Option.bind_eq_some_iff.mp h
      obtain ⟨rfl, hlive⟩ := onNode_record h
      exact ⟨isWait_of_control ((Option.guard_eq_some' _).mp hguard).1, hlive⟩
    | progress node frame =>
      simp only [World.proposal] at h
      split at h
      · exact control_record h
      · cases h
    | complete node value => exact control_record h
    | error node error => exact control_record h
    | _ => cases ha

/-! ## Refused proposals -/

/-- The store refuses a proposal that was decided at revision `expected`. -/
def Refuses (stored : RunSnapshot) (expected : UInt64) : Proposal → Prop
  | .run next => stored.validateSuccessor expected next ≠ .ok ()
  | .record key record =>
    MemoryExecutionStore.State.refusesRecord stored expected key record = true ∨
      checkedAdd expected 1 = none

/-- The proposals of a reachable run pass every check but that of the revision counter. -/
theorem Reachable.accepts (hr : Reachable s w) {p : Proposal}
    (h : w.proposal s a = some (some p)) (hrefused : Refuses w.run w.run.revision p) :
    checkedAdd w.run.revision 1 = none := by
  have hproposed := proposal_edited h
  cases hrev : checkedAdd w.run.revision 1 with
  | none => rfl
  | some revision =>
    exfalso
    cases hproposed with
    -- a whole run is a successor of the one it was decided on
    | run edit successor =>
      exact hrefused (RunSnapshot.validateSuccessor_ok_iff.mpr
        (edit.successor hr hr.waitsInv successor))
    -- a single record passes each check of the narrow path
    | @record key record edit =>
      rcases hrefused with hrefused | hnone
      · obtain ⟨hwait, hlive⟩ := proposal_record hr h
        have hget : (w.run.setRecord key record).invocations[key]? = some record := by
          rw [RunSnapshot.setRecord_get, if_pos rfl]
        -- neither the new record nor the stored one is a wait
        have hnot : ∀ r, Shape s w.run.id key r → r.isWait = false := by
          intro r hshape
          by_contra hr'
          simp only [InvocationRecord.isWait, Bool.not_eq_false] at hr'
          split at hr'
          next id hcontrol =>
            rw [(hshape.wait_of_control hcontrol).1] at hwait
            cases hwait
          · cases hr'
        simp only [MemoryExecutionStore.State.refusesRecord, decide_eq_true_eq] at hrefused
        -- the revision is the one that was read
        rcases hrefused with hne | hrefused
        · exact hne rfl
        rcases hrefused with hnew | hrefused
        · rw [hnot record (edit.shape hr hget)] at hnew
          cases hnew
        rcases hrefused with hold | hrefused
        · obtain ⟨old, hfound, hisWait⟩ := (Option.any_eq_true _ _).mp hold
          rw [hnot old (hr.shape hfound)] at hisWait
          cases hisWait
        -- the run is live, and no succeeded record changes
        rcases hrefused with hterminal | hsucceeded
        · rw [hlive] at hterminal
          cases hterminal
        · obtain ⟨old, hfound, hchanged⟩ := (Option.any_eq_true _ _).mp hsucceeded
          simp only [decide_eq_true_eq] at hchanged
          have hkept := edit.succeeded hr hfound hchanged.1
          rw [hget] at hkept
          exact hchanged.2 (.of_eq (Option.some.inj hkept).symm)
      · rw [hrev] at hnone
        cases hnone

/-- A run that is stored at the same revision later on is the same run. -/
theorem Reachable.same_of_revision (hr : Reachable s w)
    (hl : (system s).Leads (Admissible s) w w') (hrev : w'.run.revision = w.run.revision) :
    w'.run = w.run := by
  -- a step keeps the run or raises its revision
  have hgrows : w'.run = w.run ∨ w.run.revision.toNat < w'.run.revision.toNat := by
    apply hl.of_step
      (R := fun w w' => w'.run = w.run ∨ w.run.revision.toNat < w'.run.revision.toNat) hr
    · intro w
      exact .inl rfl
    · rintro w w' w'' (h | h) (h' | h')
      · exact .inl (h'.trans h)
      · exact .inr (h ▸ h')
      · exact .inr (h' ▸ h)
      · exact .inr (h.trans h')
    · intro w a w' _ _ h
      rcases step_run h with ⟨hrun, -⟩ | ⟨edited, revision, -, hsucc, hrun, -⟩
      · exact .inl hrun
      · right
        rw [hrun]
        have hsum := checkedAdd_eq_some.mp hsucc
        change w.run.revision.toNat < revision.toNat
        rw [← hsum]
        simp
  rcases hgrows with h | h
  · exact h
  · rw [hrev] at h
    exact absurd h (Nat.lt_irrefl _)

/-! ## The law -/

/-- A proposal is refused only when another one was committed since it was decided, or when
the revisions of the run are used up. -/
theorem conflict_means_commit (hr : Reachable s w) {p : Proposal}
    (h : w.proposal s a = some (some p)) (hl : (system s).Leads (Admissible s) w w')
    (hrefused : Refuses w'.run w.run.revision p) :
    w'.run.revision ≠ w.run.revision ∨ w.run.revision.toNat + 1 = UInt64.size := by
  by_cases hrev : w'.run.revision = w.run.revision
  · right
    rw [hr.same_of_revision hl hrev] at hrefused
    have hnone := hr.accepts h hrefused
    have hlt := w.run.revision.toNat_lt
    unfold checkedAdd at hnone
    split at hnone
    · nomatch hnone
    next hle =>
      have hpow : UInt64.size = 2 ^ 64 := rfl
      have hone : (1 : UInt64).toNat = 1 := rfl
      omega
  · exact .inl hrev

/-- A cancellation that comes second is refused, and the revision has changed. -/
theorem conflict_means_commit_sample :
    ∃ w' : World, Refuses w'.run 0 (.run ((cancelRun sampleRun).atRevision 1)) ∧
      (w'.run.revision ≠ 0 ∨ sampleRun.revision.toNat + 1 = UInt64.size) := by
  have hrun : ((system sampleSetup).run sampleWorld [.cancel]).map
      (fun w => (w.run.validateSuccessor 0 ((cancelRun sampleRun).atRevision 1)).isOk) =
      some false := by
    decide +kernel
  obtain ⟨w', hw', hread⟩ := Option.map_eq_some_iff.mp hrun
  have hl := System.run_leads (sampleActions_admissible (by simp [SampleActions])) hw'
  have hrefused : Refuses w'.run 0 (.run ((cancelRun sampleRun).atRevision 1)) := by
    intro hok
    rw [hok] at hread
    cases hread
  have hproposal : sampleWorld.proposal sampleSetup .cancel =
      some (some (.run ((cancelRun sampleRun).atRevision 1))) := rfl
  exact ⟨w', hrefused, conflict_means_commit sampleWorld_reachable hproposal hl hrefused⟩

/-! ## Exhausted revisions -/

/-- A cancelled run that is worked on, with an unsettled loop, at one revision. -/
def AtRevision (n : Nat) (w : World) : Prop :=
  Reachable sampleSetup w ∧ (∃ c, Working w c) ∧ w.run.state = .cancelling ∧
    (∃ r, w.run.invocations["loop"]? = some r ∧ r.state = .running) ∧ w.run.revision.toNat = n

/-- Another cancellation takes the run to its next revision. -/
theorem AtRevision.next {n : Nat} (h : AtRevision n w) (hn : n + 1 < UInt64.size) :
    ∃ w', AtRevision (n + 1) w' := by
  obtain ⟨hr, ⟨c, hworking⟩, hstate, ⟨r, hloop, hrunning⟩, hrevision⟩ := h
  have hlive : w.run.state.isTerminal = false := by
    rw [hstate]
    rfl
  have hrev : checkedAdd w.run.revision 1 = some (w.run.revision + 1) := by
    rw [checkedAdd, if_pos]
    have hone : (1 : UInt64).toNat = 1 := rfl
    omega
  have hrunningHost : w.running = some c := by simp [World.running, hworking.1]
  -- a cancellation is proposed although the run is cancelled already
  have hproposal : w.proposal sampleSetup .cancel =
      some (some (.run ((cancelRun w.run).atRevision (w.run.revision + 1)))) := by
    simp [World.proposal, hrunningHost, World.onRun, update, updateWithView, hlive, cancel, hrev,
      Proposal.ofRun]
  -- and accepted, as the state it writes is a successor
  have haccept : w.accept (some (.run ((cancelRun w.run).atRevision (w.run.revision + 1)))) =
      some (w.committed ((cancelRun w.run).atRevision (w.run.revision + 1))) := by
    have hedit : Edited sampleSetup w .cancel (cancelRun w.run) := .cancelled hrunningHost hlive
    have hok := RunSnapshot.validateSuccessor_ok_iff.mpr
      (hedit.successor hr hr.waitsInv hrev)
    simp only [World.accept, hok]
  have hstep : w.step sampleSetup .cancel =
      some (w.committed ((cancelRun w.run).atRevision (w.run.revision + 1))) := by
    simp only [World.step, hproposal, Option.bind_some, haccept, Option.map_some, World.after]
  refine ⟨_, hr.step (a := .cancel) trivial hstep, ⟨c, hworking⟩, rfl, ⟨r, hloop, hrunning⟩, ?_⟩
  change (w.run.revision + 1).toNat = n + 1
  have hsum := checkedAdd_eq_some.mp hrev
  have hone : (1 : UInt64).toNat = 1 := rfl
  omega

/-- The sample run comes to every revision. -/
theorem exists_atRevision {n : Nat} (h : 3 ≤ n) (hn : n < UInt64.size) : ∃ w, AtRevision n w := by
  induction n, h using Nat.le_induction with
  | base =>
    obtain ⟨w₀, w, hr, hl, -, hw⟩ := @sample_run _ _ (fun _ => ())
      (fun w => (w.process.recovers, w.job, w.run.state,
        (w.run.invocations["loop"]?).map InvocationRecord.state, w.run.revision)) ()
      (true, .body, .cancelling, some .running, 3)
      [.take, .begin] [.activate "loop" .null (.loop 0 .null), .cancel]
      (by simp [SampleActions]) (by decide +kernel) (by decide +kernel)
    obtain ⟨hup, hjob, hstate, hloop, hrevision⟩ := by simpa only [Prod.mk.injEq] using hw
    obtain ⟨c, hprocess⟩ := Process.recovers_eq_true.mp hup
    obtain ⟨r, hfound, hrunning⟩ := Option.map_eq_some_iff.mp hloop
    exact ⟨w, hr.leads hl, ⟨c, hprocess, hjob⟩, hstate, ⟨r, hfound, hrunning⟩,
      by rw [hrevision]; rfl⟩
  | succ n h ih =>
    obtain ⟨w, hw⟩ := ih (by omega)
    exact hw.next hn

/-- At the last revision, the store refuses a record although nothing else was committed. -/
theorem last_revision_refuses : ¬∀ w a p, Reachable sampleSetup w →
    w.proposal sampleSetup a = some (some p) → ¬Refuses w.run w.run.revision p := by
  intro hall
  obtain ⟨w, hr, ⟨c, hworking⟩, hstate, ⟨r, hloop, hrunning⟩, hrevision⟩ :=
    exists_atRevision (n := UInt64.size - 1) (by decide) (by decide)
  -- a run at the last revision with a running loop
  have hlive : w.run.state.isTerminal = false := by
    rw [hstate]
    rfl
  have hproposal : w.proposal sampleSetup (.error "loop" runCancelled) =
      some (some (.record "loop" (erroredRecord runCancelled r))) := by
    have hexecuting : w.executing = some c := executing_eq_some.mpr hworking
    have hguard : sampleSetup.isControl "loop" = true ∧ w.unsettled "loop" = true := by
      refine ⟨rfl, ?_⟩
      simp [World.unsettled, World.record, hloop, hrunning]
    have hview : (w.view "loop").invocation = some r := hloop
    have hterminal : (w.view "loop").head.state.isTerminal = false := hlive
    simp [World.proposal, World.control, hexecuting, hguard, World.onNode, updateNode, hterminal,
      hview, failControl, Proposal.ofNode]
  refine hall w _ _ hr hproposal (.inr ?_)
  -- there is no next revision
  rw [checkedAdd, if_neg]
  have hone : (1 : UInt64).toNat = 1 := rfl
  have hpow : UInt64.size = 2 ^ 64 := rfl
  omega

end WorkflowForge.Run
