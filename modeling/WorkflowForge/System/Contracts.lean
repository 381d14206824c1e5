import WorkflowForge.System.Delivery
import WorkflowForge.System.Dispatch
import WorkflowForge.System.Terminal

/-!
# Data Contracts of a Run

Data crosses the boundary of a run in four places: the input of an attempt, the value of an
attempt, the value that an operator reports, and the payload of a message. Each is checked
where it enters. The input of a repeated attempt is the stored one, so it needs no second
check; a reported value and a payload are checked under the package of the run, and not
under what the host has registered now.

## Main results

- `resolve_conforms`: a record that a report completes conforms to the pinned contract.
- `data_contracts`: in every run, what was dispatched, returned and delivered conforms.
-/

namespace WorkflowForge.Run

open Lib Engine

variable {s : Setup} {w w' : World} {a : Action} {key : String}

/-! ## Contracts -/

/-- The value satisfies the schema. -/
def Conforms (schema : CompiledSchema) (value : Value) : Prop :=
  schema.violation value = none

/-- What was validated conforms, whatever the limits were. -/
theorem conforms_of_validate {schema : CompiledSchema} {value : Value} {limits : Limits}
    (h : schema.validate value limits = .ok ()) : Conforms schema value := by
  obtain ⟨nodes, -, h⟩ := bind_eq_ok.mp h
  obtain ⟨_, -, h⟩ := bind_eq_ok.mp h
  unfold Conforms
  cases hv : schema.violation value with
  | none => rfl
  | some path => simp [hv] at h

/-- A value under the output contract of an operation: the one its node was compiled with,
or the same contract compiled from the package of the run. -/
inductive Output (package : ResolvedPackage) (node : PreparedOperation) (value : Value) : Prop
    where
  | returned (conforms : Conforms node.operation.output value) : Output package node value
  | reported {c : Composition} {operation : CompiledOperation}
      (pinned : recoverOperation c package node.operation.descriptor.revision = .ok operation)
      (conforms : Conforms operation.output value) : Output package node value

/-- The data that entered a run conforms to the contracts the run was accepted with. -/
structure ContractLaw (s : Setup) (w : World) : Prop where
  /-- An attempt is dispatched with an input of its operation. -/
  input : ∀ key invocation, .called key invocation ∈ w.log →
    ∃ node, s.operation key = some node ∧ Conforms node.operation.input invocation.input
  /-- A succeeded operation has a value of its operation. -/
  output : ∀ (key : String) (r : InvocationRecord) node, s.operation key = some node →
    w.run.invocations[key]? = some r → r.state = .succeeded →
    ∃ value, r.output = some value ∧ Output w.run.package node value
  /-- A message carries a payload of its wait, under the schemas of the package. -/
  payload : ∀ (id : String) (wait : WaitRecord) (delivery : SignalDelivery),
    w.run.waits[id]? = some wait → wait.delivery = some delivery →
    ∃ correlation payloadSchema start c compiled,
      wait.kind = .signal correlation payloadSchema start ∧
      recoverSchema c w.run.package payloadSchema = .ok compiled ∧
      Conforms compiled delivery.command.payload

/-- A body validates the input of an operation before its first attempt. Later attempts take
the stored input. -/
def Checked (s : Setup) (w : World) (a : Action) : Prop :=
  Admissible s w a ∧ ∀ key attempt input cancelled node,
    a = .intend key attempt input cancelled → s.operation key = some node →
    w.record key = none → ∃ limits, node.operation.input.validate input limits = .ok ()

/-! ## Reported values -/

/-- A record that does not succeed leaves every succeeded one. -/
theorem succeeded_of_setRecord {run : RunSnapshot} {node : String} {x r : InvocationRecord}
    (hx : x.state ≠ .succeeded) (h : (run.setRecord node x).invocations[key]? = some r)
    (hs : r.state = .succeeded) : run.invocations[key]? = some r := by
  rw [RunSnapshot.setRecord_get] at h
  split at h
  · obtain rfl := Option.some.inj h
    exact absurd hs hx
  · exact h

/-- A record that a resolution completes was confirmed with a value of the pinned contract. -/
theorem resolve_conforms {c : Composition} {resolution : EffectResolution} {node : String}
    {record r : InvocationRecord} {now : UInt64} {run : RunSnapshot} {resolved : Resolved}
    (h : resolve c resolution node record now run = .ok resolved)
    (hrecord : record.state ≠ .succeeded) (hkey : resolved.1.invocations[key]? = some r)
    (hs : r.state = .succeeded) :
    run.invocations[key]? = some r ∨ key = node ∧ ∃ value revision operation,
      r.output = some value ∧ record.operation = some revision ∧
      recoverOperation c run.package revision = .ok operation ∧
        Conforms operation.output value := by
  cases resolution with
  | confirmApplied output evidence =>
    obtain ⟨_, -, h⟩ := bind_eq_ok.mp h
    obtain ⟨revision, hrevision, h⟩ := bind_eq_ok.mp h
    obtain ⟨operation, hoperation, h⟩ := bind_eq_ok.mp h
    cases hv : operation.output.validate output c.limits with
    -- a value that conforms is written to the record it is about
    | ok u =>
      rw [hv] at h
      obtain rfl := Except.ok.inj h
      rw [RunSnapshot.setRecord_get] at hkey
      split at hkey
      next heq =>
        obtain rfl := Option.some.inj hkey
        exact .inr ⟨heq.symm, output, revision, operation, rfl, okOr_eq_ok.mp hrevision,
          hoperation, conforms_of_validate hv⟩
      · exact .inl hkey
    -- a value that does not leaves the record without success
    | error e =>
      rw [hv] at h
      obtain rfl := Except.ok.inj h
      have hinvalid : (invalidRecord e record).state ≠ .succeeded := hrecord
      exact .inl (succeeded_of_setRecord hinvalid hkey hs)
  -- the other reports write no success
  | confirmNotApplied evidence quiescent retry =>
    obtain ⟨_, -, h⟩ := bind_eq_ok.mp h
    obtain rfl := Except.ok.inj h
    refine .inl ?_
    unfold withdrawn at hkey
    split at hkey
    · exact hkey
    · split at hkey
      · exact succeeded_of_setRecord (by simp [retryRecord]) hkey hs
      · exact succeeded_of_setRecord (by simp [notAppliedRecord]) hkey hs
  | recordInconclusive reason evidence =>
    obtain ⟨_, -, h⟩ := bind_eq_ok.mp h
    obtain rfl := Except.ok.inj h
    exact .inl hkey
  | stopTracking reason evidence =>
    obtain ⟨_, -, h⟩ := bind_eq_ok.mp h
    obtain rfl := Except.ok.inj h
    exact .inl hkey

/-- A committed report leaves every record that had succeeded, and completes others with a
value of the pinned contract. -/
theorem reconcile_conforms {c : Composition} {phase : Phase} {access : AccessContext}
    {command : ReconcileCommand} {now : UInt64} {run next : RunSnapshot}
    {receipt : ReconcileReceipt} {r : InvocationRecord}
    (h : reconcile c phase access command now run = .ok (receipt, some next))
    (hkey : next.invocations[key]? = some r) (hs : r.state = .succeeded) :
    run.invocations[key]? = some r ∨ ∃ old value revision operation,
      run.invocations[key]? = some old ∧ r.output = some value ∧
      old.operation = some revision ∧ recoverOperation c run.package revision = .ok operation ∧
      Conforms operation.output value := by
  obtain ⟨_, -, h⟩ := bind_eq_ok.mp h
  obtain ⟨run', hread, h⟩ := bind_eq_ok.mp h
  obtain ⟨-, hrun⟩ := read_eq_ok hread
  rw [hrun] at h
  obtain ⟨previous, -, h⟩ := bind_eq_ok.mp h
  cases previous with
  -- a command that was accepted before changes nothing
  | some previous => simp [pure, Except.pure] at h
  | none =>
    obtain ⟨_, -, h⟩ := bind_eq_ok.mp h
    obtain ⟨_, -, h⟩ := bind_eq_ok.mp h
    obtain ⟨⟨node, old⟩, hfound, h⟩ := bind_eq_ok.mp h
    obtain ⟨_, -, h⟩ := bind_eq_ok.mp h
    obtain ⟨resolved, hresolved, h⟩ := bind_eq_ok.mp h
    obtain ⟨revision, -, h⟩ := bind_eq_ok.mp h
    obtain ⟨_, -, h⟩ := bind_eq_ok.mp h
    have hfind := okOr_eq_ok.mp hfound
    have hnamed : named command old = true := by simpa using List.find?_some hfind
    -- the report names an attempt in unknown state
    have hold : old.state ≠ .succeeded := by
      simp only [named, decide_eq_true_eq] at hnamed
      rw [hnamed.2.2]
      simp
    -- the audit and the state of the run are beside the records
    have hnext : next.invocations = resolved.1.invocations := by
      obtain ⟨-, hnext⟩ := Prod.mk.inj (Except.ok.inj h)
      rw [← Option.some.inj hnext]
      simp only [audited, unblock]
      split <;> rfl
    rw [hnext] at hkey
    rcases resolve_conforms hresolved hold hkey hs with hsame | ⟨rfl, value, revision, operation,
      hvalue, hrevision, hpinned, hconforms⟩
    · exact .inl hsame
    · refine .inr ⟨old, value, revision, operation, ?_, hvalue, hrevision, hpinned, hconforms⟩
      exact Std.ExtTreeMap.mem_toList_iff_getElem?_eq_some.mp (List.mem_of_find?_eq_some hfind)

/-- A new delivery carries a payload that was validated under the package of the run. -/
theorem deliver_conforms {c : Composition} {actor : String} {command : SignalCommand}
    {now : UInt64} {run next : RunSnapshot} {receipt : SignalReceipt}
    (h : deliver c actor command now run = .ok (receipt, some next)) {wait : WaitRecord}
    (hw : run.waits[command.waitId]? = some wait) :
    ∃ correlation payloadSchema start compiled,
      wait.kind = .signal correlation payloadSchema start ∧
      recoverSchema c run.package payloadSchema = .ok compiled ∧
      Conforms compiled command.payload := by
  unfold deliver at h
  rw [hw] at h
  cases hk : wait.kind with
  | timer => simp [hk] at h
  | signal correlation payloadSchema start =>
    refine ⟨correlation, payloadSchema, start, ?_⟩
    simp only [hk] at h
    cases hd : wait.delivery with
    -- a wait with a delivery answers with it, or refuses
    | some delivery =>
      simp only [hd] at h
      split at h <;> simp at h
    | none =>
      simp only [hd] at h
      cases hv : (recoverSchema c run.package payloadSchema).bind
          (·.validate command.payload c.limits) with
      | error e =>
        rw [hv] at h
        split at h
        · cases h
        · split at h
          · cases h
          · split at h <;> cases h
      -- the payload was validated before it was delivered
      | ok u =>
        obtain ⟨compiled, hcompiled, hvalidate⟩ := bind_eq_ok.mp hv
        exact ⟨compiled, rfl, hcompiled, conforms_of_validate hvalidate⟩

/-! ## Commands that commit -/

theorem accept_run {next : RunSnapshot} (h : w.accept (some (.run next)) = some w') :
    w'.run = next := by
  simp only [World.accept] at h
  split at h
  · obtain rfl := Option.some.inj h
    rfl
  · cases h

/-- A report changes nothing, or commits what was decided on the current run. -/
theorem step_reported {phase : Phase} {access : AccessContext} {command : ReconcileCommand}
    (h : w.step s (.reconcile phase access command) = some w') :
    w'.run = w.run ∨ ∃ c receipt,
      Engine.reconcile c phase access command w.now w.run = .ok (receipt, some w'.run) := by
  obtain ⟨p, w₁, hp, ha, rfl⟩ := World.step_eq_some h
  obtain ⟨receipt, next, -, hresult, rfl⟩ := answered_possible hp
  rw [after_run]
  cases next with
  | none =>
    obtain rfl := Option.some.inj ha
    exact .inl rfl
  | some next =>
    obtain rfl := accept_run ha
    unfold World.reconcile at hresult
    split at hresult
    · cases hresult
    next c hc => exact .inr ⟨c, receipt, hresult⟩

/-- A message changes nothing, or is delivered as was decided on the current run. -/
theorem step_delivered {phase : Phase} {access : AccessContext} {received : SignalCommand}
    (h : w.step s (.signal phase access received) = some w') :
    w'.run = w.run ∨ ∃ c receipt,
      deliver c access.actor (canonical received) w.now w.run = .ok (receipt, some w'.run) := by
  obtain ⟨p, w₁, hp, ha, rfl⟩ := World.step_eq_some h
  obtain ⟨receipt, next, -, hresult, rfl⟩ := answered_possible hp
  obtain ⟨c, -, -, -, -, hdeliver⟩ := signal_eq_ok hresult
  rw [after_run]
  cases next with
  | none =>
    obtain rfl := Option.some.inj ha
    exact .inl rfl
  | some next =>
    obtain rfl := accept_run ha
    exact .inr ⟨c, receipt, hdeliver⟩

/-! ## What is stored and what is held -/

/-- Next to the law itself: the input of every attempt that may still be dispatched, and the
value of every worker that has one, conform. -/
structure ContractInv (s : Setup) (w : World) : Prop where
  law : ContractLaw s w
  stored : ∀ (key : String) (r : InvocationRecord) node, s.operation key = some node →
    w.run.invocations[key]? = some r → r.state ≠ .succeeded → Conforms node.operation.input r.input
  held : ∀ (key attempt : String) value, w.workers[key]? = some (.returned attempt value) →
    ∃ node, s.operation key = some node ∧ Conforms node.operation.output value

namespace ContractInv

theorem ofStarted (h : Started s w) : ContractInv s w := by
  obtain ⟨-, -, hworkers, -, hlog⟩ := h.fresh
  refine ⟨⟨?_, ?_, ?_⟩, ?_, ?_⟩
  · intro key invocation hcall
    simp [hlog] at hcall
  · intro key r node _ hr
    simp [h.initial.invocations] at hr
  · intro id wait delivery hw
    simp [h.initial.waits] at hw
  · intro key r node _ hr
    simp [h.initial.invocations] at hr
  · intro key attempt value hw
    simp [hworkers] at hw

/-- The stored inputs. An attempt takes the input of its predecessor, and nothing but a
success takes the input away. -/
theorem stored_step (inv : ContractInv s w) (hc : Checked s w a) (h : w.step s a = some w')
    {node : PreparedOperation} (hn : s.operation key = some node) {r : InvocationRecord}
    (hr : w'.run.invocations[key]? = some r) (hs : r.state ≠ .succeeded) :
    Conforms node.operation.input r.input := by
  have hstep := step_record h key
  rw [hr] at hstep
  generalize hx : some r = x at hstep
  cases hstep with
  | same => exact inv.stored key r node hn hx.symm hs
  | operation edit =>
    obtain rfl := Option.some.inj hx
    cases edit with
    -- the first attempt was checked, and a later one takes the input of the record
    | @intend c attempt input cancelled node' working operation alone unused turn =>
      obtain rfl := Option.some.inj (hn.symm.trans operation)
      rcases resume_eq_proceed turn with hnone | ⟨old, hold, hstate⟩
      · obtain ⟨limits, hvalid⟩ := hc.2 key attempt input cancelled node rfl hn hnone
        simp only [intentRecord, hnone, Option.map_none, Option.getD_none]
        exact conforms_of_validate hvalid
      · have hlive : old.state ≠ .succeeded := by rcases hstate with hs | hs <;> simp [hs]
        simp only [intentRecord, hold, Option.map_some, Option.getD_some]
        exact inv.stored key old node hn hold hlive
    | succeed => exact absurd rfl hs
    | @fail a attempt descriptor report later delay old reported found current running =>
      have hlive : old.state ≠ .succeeded := by rcases running with hs | hs <;> simp [hs]
      exact inv.stored key old node hn found hlive
  | other edit =>
    rw [edit.node] at hn
    cases hn
  -- a mark keeps the input
  | @marked old error cancelled action found =>
    obtain rfl := Option.some.inj hx
    have hlive : old.state ≠ .succeeded := by
      intro hold
      apply hs
      simp [markUnknown, hold]
    have hinput : (markUnknown old).input = old.input := by
      unfold markUnknown
      split <;> rfl
    rw [hinput]
    exact inv.stored key old node hn found hlive
  -- so does a report that leaves the record without success
  | @resolved c old r' phase access command action running found isNamed blocked edit =>
    obtain rfl := Option.some.inj hx
    have hlive : old.state ≠ .succeeded := by
      simp only [named, decide_eq_true_eq] at isNamed
      simp [isNamed.2.2]
    have hold := inv.stored key old node hn found hlive
    cases edit with
    | applied => exact absurd rfl hs
    | invalid | retry | failed => exact hold

/-- The values that workers hold were validated when they were returned. -/
theorem held_step (inv : ContractInv s w) (h : w.step s a = some w') {attempt : String}
    {value : Value} (hw : w'.workers[key]? = some (.returned attempt value)) :
    ∃ node, s.operation key = some node ∧ Conforms node.operation.output value := by
  have hstep := step_worker h key
  rw [hw] at hstep
  generalize hx : some (Worker.returned attempt value) = x at hstep
  cases hstep with
  | same => exact inv.held key attempt value hx.symm
  | crashed | succeeded | reported => cases hx
  | authorized | called | failed | exceeded => cases hx
  -- a value is held only after its check
  | @returned c node attempt' answer cancelled value' working operation worker settled =>
    obtain ⟨rfl, rfl⟩ := Worker.returned.inj (Option.some.inj hx)
    refine ⟨node, operation, ?_⟩
    unfold settle at settled
    split at settled
    · cases settled
    · split at settled
      · cases settled
      next hvalid =>
        obtain rfl := Except.ok.inj settled
        exact conforms_of_validate hvalid

/-- An attempt is dispatched with the input that is stored for it. -/
theorem input_step (inv : ContractInv s w) (hr : Reachable s w) (h : w.step s a = some w')
    {invocation : Invocation} (hcall : .called key invocation ∈ w'.log) :
    ∃ node, s.operation key = some node ∧ Conforms node.operation.input invocation.input := by
  rcases step_calls h key with ⟨hlog, -⟩ | ⟨e, hlog, he, -⟩ | ⟨node, record, -, hn, hw, hlog⟩
  · exact inv.law.input key invocation (hlog ▸ hcall)
  · exact inv.law.input key invocation (mem_of_callOf_none he (hlog ▸ hcall))
  · rw [hlog] at hcall
    rcases List.mem_cons.mp hcall with heq | hcall
    · cases heq
      obtain ⟨r, hworker⟩ := hr.worker hw
      obtain rfl := hworker.authorized record rfl
      have hlive : record.state ≠ .succeeded := by simp [hworker.running]
      exact ⟨node, hn, inv.stored key record node hn hworker.found hlive⟩
    · exact inv.law.input key invocation hcall

/-- A value that a record succeeds with was validated by its worker, or when an operator
reported it. -/
theorem output_step (inv : ContractInv s w) (hr : Reachable s w) (h : w.step s a = some w')
    {node : PreparedOperation} (hn : s.operation key = some node) {r : InvocationRecord}
    (hkey : w'.run.invocations[key]? = some r) (hs : r.state = .succeeded) :
    ∃ value, r.output = some value ∧ Output w'.run.package node value := by
  rw [← same_text.mp (hr.step_extends_text h).package]
  have hstep := step_record h key
  rw [hkey] at hstep
  generalize hx : some r = x at hstep
  cases hstep with
  | same => exact inv.law.output key r node hn hx.symm hs
  | operation edit =>
    obtain rfl := Option.some.inj hx
    cases edit with
    | intend => cases hs
    -- the worker validated the value before it returned it
    | @succeed c attempt value node' old working operation worker =>
      obtain ⟨node'', hn'', hconforms⟩ := inv.held key attempt value worker
      obtain rfl := Option.some.inj (hn.symm.trans hn'')
      exact ⟨value, rfl, .returned hconforms⟩
    | fail => exact absurd hs failedRecord_state_ne.1
  | other edit =>
    rw [edit.node] at hn
    cases hn
  -- the end of a run marks no succeeded record
  | @marked old error cancelled action found =>
    obtain rfl := Option.some.inj hx
    unfold markUnknown at hs ⊢
    split at hs
    · cases hs
    next hkeep =>
      rw [if_neg hkeep]
      exact inv.law.output key old node hn found hs
  -- a reported value was validated against the pinned operation
  | @resolved c old r' phase access command action running found isNamed =>
    subst action
    rcases step_reported h with hrun | ⟨c, receipt, hreconcile⟩
    · rw [hrun] at hkey
      exact inv.law.output key r node hn hkey hs
    · rcases reconcile_conforms hreconcile hkey hs with hsame | ⟨old', value, revision, operation,
        hold, hvalue, hrevision, hpinned, hconforms⟩
      · exact inv.law.output key r node hn hsame hs
      · have hown := ((hr.shape hold).ofOperation hn).1
        obtain rfl := Option.some.inj (hrevision.symm.trans hown)
        exact ⟨value, hvalue, .reported hpinned hconforms⟩

/-- The payload of a new delivery was validated under the package. -/
theorem payload_step (inv : ContractInv s w) (hr : Reachable s w) (h : w.step s a = some w')
    {id : String} {wait : WaitRecord} {delivery : SignalDelivery}
    (hw : w'.run.waits[id]? = some wait) (hd : wait.delivery = some delivery) :
    ∃ correlation payloadSchema start c compiled,
      wait.kind = .signal correlation payloadSchema start ∧
      recoverSchema c w'.run.package payloadSchema = .ok compiled ∧
      Conforms compiled delivery.command.payload := by
  rw [← same_text.mp (hr.step_extends_text h).package]
  have hstep := step_wait h id
  rw [hw] at hstep
  generalize hx : some wait = x at hstep
  cases hstep with
  | same => exact inv.law.payload id wait delivery hx.symm hd
  | reserved =>
    obtain rfl := Option.some.inj hx
    cases hd
  | confirmed start succeeded name found =>
    obtain rfl := Option.some.inj hx
    obtain ⟨correlation, payloadSchema, start, c, compiled, hpayload⟩ :=
      inv.law.payload id _ delivery found hd
    exact ⟨correlation, payloadSchema, start, c, compiled, hpayload⟩
  -- a delivery is accepted when its payload conforms
  | @delivered c phase access received command receipt next old checked named target scope
      authorized law =>
    obtain rfl := Option.some.inj hx
    obtain rfl := Option.some.inj hd
    obtain rfl := checkSignal_canonical checked
    rcases step_delivered h with hrun | ⟨c', receipt', hdeliver⟩
    · rw [hrun] at hw
      exact inv.law.payload id _ _ hw rfl
    · obtain ⟨correlation, payloadSchema, start, compiled, hkind, hcompiled, hconforms⟩ :=
        deliver_conforms hdeliver law.found
      exact ⟨correlation, payloadSchema, start, c', compiled, hkind, hcompiled, hconforms⟩
  -- the other changes keep the delivery
  | consumed working name reserved found =>
    obtain rfl := Option.some.inj hx
    obtain ⟨correlation, payloadSchema, start, c, compiled, hpayload⟩ :=
      inv.law.payload id _ delivery found hd
    exact ⟨correlation, payloadSchema, start, c, compiled, hpayload⟩
  | expired name signal found opened undelivered =>
    obtain rfl := Option.some.inj hx
    obtain ⟨correlation, payloadSchema, start, c, compiled, hpayload⟩ :=
      inv.law.payload id _ delivery found hd
    exact ⟨correlation, payloadSchema, start, c, compiled, hpayload⟩
  | closed found =>
    obtain rfl := Option.some.inj hx
    obtain ⟨correlation, payloadSchema, start, c, compiled, hpayload⟩ :=
      inv.law.payload id _ delivery found hd
    exact ⟨correlation, payloadSchema, start, c, compiled, hpayload⟩

end ContractInv

/-- Data that enters a run conforms to the contracts the run was accepted with, across
retries, crashes, recoveries and reports. -/
theorem data_contracts (hr : (system s).ReachableBy (Checked s) w) : ContractLaw s w := by
  suffices h : ContractInv s w from h.law
  apply System.ReachableBy.invariant hr
  · intro w h
    exact ContractInv.ofStarted h
  · intro w a w' hreach inv hc h
    have hr : Reachable s w := hreach.mono fun _ _ h => h.1
    refine ⟨⟨?_, ?_, ?_⟩, ?_, ?_⟩
    · intro key invocation hcall
      exact inv.input_step hr h hcall
    · intro key r node hn hkey hs
      exact inv.output_step hr h hn hkey hs
    · intro id wait delivery hw hd
      exact inv.payload_step hr h hw hd
    · intro key r node hn hkey hs
      exact inv.stored_step hc h hn hkey hs
    · intro key attempt value hw
      exact inv.held_step h hw

/-- A payment, from its dispatch to its value. -/
def samplePayment : List Action :=
  [.take, .begin, .intend "pay" "a1" .null false, .call "pay",
    .answer "pay" (.completed (.string "paid")) false, .succeed "pay"]

theorem data_contracts_sample :
    ∃ w, (w.record "pay").map InvocationRecord.output = some (some (.string "paid")) ∧
      ContractLaw sampleSetup w := by
  have hpaid : ((system sampleSetup).run sampleWorld samplePayment).map (fun w =>
      (w.record "pay").map InvocationRecord.output) = some (some (some (.string "paid"))) := by
    decide +kernel
  obtain ⟨w, hw, hrecord⟩ := Option.map_eq_some_iff.mp hpaid
  refine ⟨w, hrecord, data_contracts ?_⟩
  refine (System.ReachableBy.init sampleWorld_started).leads (System.run_leads ?_ hw)
  intro a ha w₁
  have hactions : SampleActions samplePayment := by simp [SampleActions, samplePayment]
  refine ⟨sampleActions_admissible hactions a ha w₁, ?_⟩
  intro key attempt input cancelled node hintend hn hnone
  rw [sample_operation hn]
  have hinput : input = .null := by
    subst hintend
    simp only [samplePayment, List.mem_cons, Action.intend.injEq, reduceCtorEq,
      List.not_mem_nil, or_false, false_or] at ha
    exact ha.2.2.1
  subst hinput
  exact ⟨{}, by decide +kernel⟩

end WorkflowForge.Run
