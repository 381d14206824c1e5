import WorkflowForge.System.Successor

/-!
# Signal and Timer Waits

A wait accepts at most one message. The message may arrive before the operation that starts
the wait is confirmed, and at any moment until the deadline; the wait is consumed with the
message that was accepted, never expired with it. A timer is consumed when its time has come.

## Main results

- `step_signal`: what a signal command answers and changes.
- `Reachable.receipts`: an original receipt is the one of the delivery of its wait.
- `wait_safety`: what holds of every wait of every run.
-/

namespace WorkflowForge.Run

open Lib Engine

variable {s : Setup} {w w' : World} {a : Action} {key id : String}

/-! ## The command -/

/-- A command with its artifacts in order. -/
def canonical (received : SignalCommand) : SignalCommand :=
  { received with artifacts := sortArtifacts received.artifacts }

theorem checkSignal_canonical {c : Composition} {access : AccessContext}
    {received command : SignalCommand} (h : checkSignal c access received = .ok command) :
    command = canonical received := by
  unfold checkSignal at h
  obtain ⟨u, -, h⟩ := bind_eq_ok.mp h
  obtain ⟨nodes, -, h⟩ := bind_eq_ok.mp h
  obtain ⟨u', -, h⟩ := bind_eq_ok.mp h
  obtain ⟨u'', -, h⟩ := bind_eq_ok.mp h
  exact (Except.ok.inj h).symm

/-- An answered command passed the checks, and was decided on the run. -/
theorem signal_eq_ok {phase : Phase} {access : AccessContext} {received : SignalCommand}
    {answer : SignalReceipt × Option RunSnapshot}
    (h : w.signal phase access received = .ok answer) :
    ∃ c, w.running = some c ∧ authorize c phase access .signal false = .ok () ∧
      checkSignal c access received = .ok (canonical received) ∧ w.run.scope = c.scope ∧
      deliver c access.actor (canonical received) w.now w.run = .ok answer := by
  unfold World.signal at h
  split at h
  · nomatch h
  next c hc =>
    obtain ⟨u, hauth, h⟩ := bind_eq_ok.mp h
    obtain ⟨command, hcheck, h⟩ := bind_eq_ok.mp h
    obtain ⟨run, hread, h⟩ := bind_eq_ok.mp h
    obtain ⟨hscope, hrun⟩ := read_eq_ok hread
    obtain rfl := checkSignal_canonical hcheck
    rw [hrun] at h
    exact ⟨c, hc, hauth, hcheck, hscope, h⟩

/-- A command that passes the checks is decided on the run. -/
theorem signal_eq {c : Composition} {phase : Phase} {access : AccessContext}
    {received : SignalCommand} (hc : w.running = some c)
    (hauth : authorize c phase access .signal false = .ok ())
    (hcheck : checkSignal c access received = .ok (canonical received))
    (hscope : w.run.scope = c.scope) :
    w.signal phase access received =
      deliver c access.actor (canonical received) w.now w.run := by
  have hread : Engine.read c w.run = .ok w.run := if_pos hscope
  simp only [World.signal, hc, Engine.signal, hauth, hcheck, hread]
  rfl

/-! ## One step -/

/-- A signal repeats the receipt of its wait, or delivers the message. -/
theorem step_signal {phase : Phase} {access : AccessContext} {received : SignalCommand}
    (h : w.step s (.signal phase access received) = some w') :
    ∃ c receipt, w'.log = .signalled access.actor received receipt :: w.log ∧
      ((receipt.duplicate = true ∧ w'.run = w.run) ∨
        ∃ next wait, DeliverLaw c access.actor (canonical received) w.now w.run receipt next wait ∧
          w'.run = next) := by
  obtain ⟨p, w₁, hp, ha, rfl⟩ := World.step_eq_some h
  obtain ⟨receipt, next, -, hresult, rfl⟩ := answered_possible hp
  obtain ⟨c, -, -, -, -, hdeliver⟩ := signal_eq_ok hresult
  have hlog : (w₁.after s w (.signal phase access received)).log =
      .signalled access.actor received receipt :: w₁.log := by
    simp only [World.after, hresult, World.remember]
  rw [hlog, after_run]
  cases next with
  -- a repeated message is answered from the wait
  | none =>
    obtain rfl := Option.some.inj ha
    obtain ⟨wait, d, -, -, -, -, hreceipt⟩ := deliver_eq_none hdeliver
    exact ⟨c, receipt, rfl, .inl ⟨by rw [hreceipt], rfl⟩⟩
  -- a new one is delivered and committed
  | some next =>
    obtain ⟨wait, law⟩ := deliver_eq_some hdeliver
    have hlog₁ : w₁.log = w.log := by rw [accept_frame ha]
    have hrun : w₁.run = next := by
      change w.accept (some (.run next)) = some w₁ at ha
      simp only [World.accept] at ha
      split at ha
      · rw [← Option.some.inj ha]
        rfl
      · cases ha
    rw [hlog₁]
    exact ⟨c, receipt, rfl, .inr ⟨next, wait, law, hrun⟩⟩

/-- The original receipt a signal gave for one wait. -/
def originalOf (id : String) : Event → Option SignalReceipt
  | .signalled _ _ receipt =>
    if receipt.waitId = id ∧ receipt.duplicate = false then some receipt else none
  | _ => none

/-- The original receipt of a wait was given once, with its delivery. -/
structure ReceiptsInv (w : World) (id : String) : Prop where
  delivered : ∀ actor received receipt, .signalled actor received receipt ∈ w.log →
    originalOf id (.signalled actor received receipt) = some receipt →
    ∃ wait, w.run.waits[id]? = some wait ∧
      wait.delivery = some ⟨canonical received, actor, receipt⟩
  once : (w.log.filterMap (originalOf id)).length ≤ 1

theorem originalOf_signalled {actor : String} {received : SignalCommand} {receipt : SignalReceipt} :
    originalOf id (.signalled actor received receipt) = some receipt ↔
      receipt.waitId = id ∧ receipt.duplicate = false := by
  simp [originalOf]

/-- A wait that has no delivery gave no original receipt. -/
theorem ReceiptsInv.none_of_fresh (inv : ReceiptsInv w id) {wait : WaitRecord}
    (hw : w.run.waits[id]? = some wait) (hd : wait.delivery = none) :
    w.log.filterMap (originalOf id) = [] := by
  rw [List.filterMap_eq_nil_iff]
  intro e he
  cases e with
  | signalled actor received receipt =>
    cases ho : originalOf id (.signalled actor received receipt) with
    | none => rfl
    | some r =>
      have horiginal : originalOf id (.signalled actor received receipt) = some receipt := by
        have hyes : receipt.waitId = id ∧ receipt.duplicate = false := by
          by_contra hno
          simp [originalOf, hno] at ho
        exact originalOf_signalled.mpr hyes
      obtain ⟨wait', hw', hd'⟩ := inv.delivered actor received receipt he horiginal
      obtain rfl := Option.some.inj (hw.symm.trans hw')
      rw [hd] at hd'
      nomatch hd'
  | _ => rfl

/-- A delivery that was accepted stays. -/
theorem Extends.delivery {older newer : RunSnapshot} (h : Extends .text older newer)
    {wait : WaitRecord} {d : SignalDelivery} (hw : older.waits[id]? = some wait)
    (hd : wait.delivery = some d) :
    ∃ wait', newer.waits[id]? = some wait' ∧ wait'.delivery = some d := by
  obtain ⟨wait', hw', hstep⟩ := h.waits id wait hw
  refine ⟨wait', hw', ?_⟩
  rw [← same_text.mp (hstep.delivered (by rw [hd]; rfl)), hd]

/-- The original receipt of a wait was given once, with its delivery. -/
theorem Reachable.receipts (hr : Reachable s w) (id : String) : ReceiptsInv w id := by
  apply hr.invariant (P := fun w => ReceiptsInv w id)
  · intro w h
    obtain ⟨-, -, -, -, hlog⟩ := h.fresh
    constructor
    · intro actor received receipt hmem
      rw [hlog] at hmem
      nomatch hmem
    · simp [hlog]
  · intro w a w' hreach inv _ h
    have hold : ∀ actor received receipt, .signalled actor received receipt ∈ w.log →
        originalOf id (.signalled actor received receipt) = some receipt →
        ∃ wait, w'.run.waits[id]? = some wait ∧
          wait.delivery = some ⟨canonical received, actor, receipt⟩ := by
      intro actor received receipt hmem ho
      obtain ⟨wait, hw, hd⟩ := inv.delivered actor received receipt hmem ho
      exact Extends.delivery (Reachable.step_extends_text hreach h) hw hd
    -- any other event leaves the receipts as they are
    have hother : ∀ e, w'.log = e :: w.log → originalOf id e = none → ReceiptsInv w' id := by
      intro e hlog he
      refine ⟨fun actor received receipt hmem ho => ?_, ?_⟩
      · rw [hlog] at hmem
        rcases List.mem_cons.mp hmem with rfl | hmem
        · rw [he] at ho
          nomatch ho
        · exact hold actor received receipt hmem ho
      · rw [hlog, List.filterMap_cons_none he]
        exact inv.once
    have hstep := step_log h
    generalize hx : w'.log = x at hstep
    cases hstep with
    | same =>
      refine ⟨fun actor received receipt hmem ho => ?_, ?_⟩
      · rw [hx] at hmem
        exact hold actor received receipt hmem ho
      · rw [hx]
        exact inv.once
    | called => exact hother _ hx rfl
    | answered => exact hother _ hx rfl
    | reconciled => exact hother _ hx rfl
    | @signalled phase access received receipt next =>
      obtain ⟨c, receipt', hlog, hcase⟩ := step_signal h
      obtain ⟨heq, -⟩ := List.cons.inj (hx.symm.trans hlog)
      obtain ⟨-, -, rfl⟩ := Event.signalled.inj heq
      rcases hcase with ⟨hdup, hrun⟩ | ⟨next', wait, law, hrun⟩
      · exact hother _ hx (by simp [originalOf, hdup])
      · obtain ⟨revision, -, hnext⟩ := law.replaced
        by_cases hid : (canonical received).waitId = id
        · have hfound := law.found
          rw [hid] at hfound
          have hdelivered : w'.run.waits[id]? =
              some { wait with delivery := some ⟨canonical received, access.actor, receipt⟩ } := by
            rw [hrun, hnext]
            change (w.run.setWait (canonical received).waitId _).waits[id]? = _
            rw [RunSnapshot.setWait_get, if_pos hid]
          refine ⟨fun actor received' receipt' hmem ho => ?_, ?_⟩
          · rw [hx] at hmem
            rcases List.mem_cons.mp hmem with heq | hmem
            · obtain ⟨rfl, rfl, rfl⟩ := Event.signalled.inj heq
              exact ⟨_, hdelivered, rfl⟩
            · exact hold actor received' receipt' hmem ho
          · rw [hx]
            have hnone := inv.none_of_fresh hfound law.fresh
            rw [List.filterMap_cons, hnone]
            split <;> simp
        · refine hother _ hx ?_
          rw [law.answer]
          simp [originalOf, signalReceipt, hid]

/-! ## Waits in an accepted run -/

/-- A wait with a delivery awaits a signal and is not expired. -/
theorem WaitInv.delivered {e : Comparison} {run : RunSnapshot} {wait : WaitRecord}
    {record : InvocationRecord} (inv : WaitInv e run wait record) {d : SignalDelivery}
    (hd : wait.delivery = some d) :
    (∃ correlation payloadSchema startNode,
      wait.kind = .signal correlation payloadSchema startNode) ∧ wait.state ≠ .expired := by
  cases inv.kind with
  | timer kind undelivered =>
    rw [hd] at undelivered
    nomatch undelivered
  | signal kind nonempty size unstarted started delivery =>
    exact ⟨⟨_, _, _, kind⟩, (delivery d hd).live⟩

/-- A wait that has no delivery yet is not consumed by a signal. -/
theorem WaitInv.open_of_fresh {e : Comparison} {run : RunSnapshot} {wait : WaitRecord}
    {record : InvocationRecord} (inv : WaitInv e run wait record) (hd : wait.delivery = none)
    {correlation : String}
    {payloadSchema : Value} {startNode : Option String}
    (hk : wait.kind = .signal correlation payloadSchema startNode) (he : wait.state ≠ .expired)
    (hc : wait.state ≠ .closed) : wait.state = .open := by
  have hconsumed : wait.state ≠ .consumed := by
    intro hs
    obtain ⟨d, hsome, -⟩ := inv.output hs correlation payloadSchema startNode hk
    rw [hd] at hsome
    nomatch hsome
  cases hs : wait.state with
  | «open» => rfl
  | consumed => exact absurd hs hconsumed
  | expired => exact absurd hs he
  | closed => exact absurd hs hc

/-- What is consumed, is consumed by the signal that was accepted. -/
theorem WaitsInv.consumed {run : RunSnapshot} (inv : WaitsInv .text run) {wait : WaitRecord}
    (hw : run.waits[id]? = some wait) (hs : wait.state = .consumed) {correlation : String}
    {payloadSchema : Value} {startNode : Option String}
    (hk : wait.kind = .signal correlation payloadSchema startNode) :
    wait.startConfirmed = true ∧ StartDone run startNode ∧ ∃ d record, wait.delivery = some d ∧
      run.invocations[wait.node]? = some record ∧ record.state = .succeeded ∧
      record.output = some (WaitRecord.signalOutput startNode run d.command.payload) := by
  obtain ⟨record, hinv⟩ := inv.wait id wait hw
  obtain ⟨d, hd, houtput⟩ := hinv.output hs correlation payloadSchema startNode hk
  cases hinv.kind with
  | timer kind =>
    rw [hk] at kind
    nomatch kind
  | signal kind nonempty size unstarted started delivery consumed =>
    rw [hk] at kind
    obtain ⟨rfl, rfl, rfl⟩ := WaitKind.signal.inj kind
    have hconfirmed := (consumed hs).2
    exact ⟨hconfirmed, started hconfirmed, d, record, hd, hinv.found, hinv.state.mpr hs,
      same_text.mp houtput⟩

/-! ## Timers -/

/-- The time a timer was reserved for. -/
theorem Setup.wait_timer {correlation : String} {duration : UInt64}
    (h : s.wait key correlation = some (.timer, duration)) :
    s.plan.activity key = some (.timer duration) := by
  unfold Setup.wait at h
  split at h
  next d heq =>
    obtain ⟨-, rfl⟩ := Prod.mk.inj (Option.some.inj h)
    exact heq
  · split at h <;> simp at h
  · nomatch h

/-- A deadline that has come before that of the run is the whole duration away. -/
theorem due_of_overdue {created duration deadline now : UInt64}
    (h : min (saturatingAdd created duration) deadline ≤ now) (hnow : now < deadline) :
    created.toNat + duration.toNat ≤ now.toNat := by
  have hlt := UInt64.lt_iff_toNat_lt.mp hnow
  have hle : saturatingAdd created duration ≤ now := by
    by_contra hgt
    have hgt := UInt64.not_le.mp hgt
    change (if saturatingAdd created duration ≤ deadline then saturatingAdd created duration
      else deadline) ≤ now at h
    split at h
    · exact absurd h (UInt64.not_le.mpr hgt)
    · exact absurd h (UInt64.not_le.mpr hnow)
  have hle := UInt64.le_iff_toNat_le.mp hle
  rw [toNat_saturatingAdd] at hle
  have hsize := deadline.toNat_lt
  have hpow : UInt64.size = 2 ^ 64 := rfl
  omega

/-- A timer that was consumed has run for its whole duration. -/
def TimerInv (s : Setup) (w : World) : Prop :=
  ∀ (id : String) (wait : WaitRecord), w.run.waits[id]? = some wait → wait.kind = .timer →
    wait.state = .consumed → ∃ duration, s.plan.activity wait.node = some (.timer duration) ∧
      wait.createdAtMs.toNat + duration.toNat ≤ w.now.toNat

theorem Reachable.timers (hr : Reachable s w) : TimerInv s w := by
  apply hr.invariant
  · intro w h id wait hw
    simp [h.initial.waits] at hw
  · intro w a w' hreach inv _ h id wait hw hk hs
    have hnow := UInt64.le_iff_toNat_le.mp (step_now h)
    have hmove := step_wait h id
    rw [hw] at hmove
    generalize hx : some wait = x at hmove
    cases hmove with
    | same =>
      obtain ⟨duration, hactivity, hdue⟩ := inv id wait hx.symm hk hs
      exact ⟨duration, hactivity, hdue.trans hnow⟩
    | reserved =>
      obtain rfl := Option.some.inj hx
      nomatch hs
    -- a timer is not announced, and its wait receives no message
    | confirmed start succeeded name found opened =>
      obtain rfl := Option.some.inj hx
      rw [show _ = WaitState.open from opened] at hs
      nomatch hs
    | delivered checked named target scope authorized law =>
      obtain rfl := Option.some.inj hx
      obtain ⟨payloadSchema, startNode, hkind⟩ := law.kind
      rw [show _ = WaitKind.timer from hk] at hkind
      nomatch hkind
    -- a timer is consumed once it is due
    | @consumed node cancelled old record output working name reserved found opened awaited
        uncancelled inTime =>
      obtain rfl := Option.some.inj hx
      obtain ⟨correlation, duration, hwait, hdeadline⟩ := (hreach.waitShape found).awaits
      have hkind : old.kind = .timer := hk
      rw [hkind] at hwait
      rcases awaited_eq_ready awaited with ⟨-, hdue, -⟩ | ⟨c, p, n, d, hsignal, -⟩
      · rw [hdeadline] at hdue
        exact ⟨duration, Setup.wait_timer hwait, (due_of_overdue hdue inTime).trans hnow⟩
      · rw [hkind] at hsignal
        nomatch hsignal
    | expired =>
      obtain rfl := Option.some.inj hx
      nomatch hs
    | closed =>
      obtain rfl := Option.some.inj hx
      nomatch hs

/-! ## The law -/

/-- What holds of the waits of a run. -/
structure WaitSafety (s : Setup) (w : World) : Prop where
  /-- The delivery of a wait never changes. -/
  kept : ∀ w', (system s).Leads (Admissible s) w w' →
    ∀ (id : String) (wait : WaitRecord) (d : SignalDelivery), w.run.waits[id]? = some wait →
      wait.delivery = some d →
      ∃ wait', w'.run.waits[id]? = some wait' ∧ wait'.delivery = some d
  /-- An original receipt is that of the delivery of its wait. -/
  delivered : ∀ actor received receipt, .signalled actor received receipt ∈ w.log →
    receipt.duplicate = false → ∃ wait, w.run.waits[receipt.waitId]? = some wait ∧
      wait.delivery = some ⟨canonical received, actor, receipt⟩
  /-- A wait gives at most one original receipt. -/
  once : ∀ id : String, (w.log.filterMap (originalOf id)).length ≤ 1
  /-- An admitted command to a delivered wait is answered by the same receipt, if it compares
  equal to the delivered command of the same actor, and is a conflict otherwise. -/
  repeated : ∀ (c : Composition) (phase : Phase) (access : AccessContext)
    (received : SignalCommand) (wait : WaitRecord) (d : SignalDelivery),
    w.running = some c → authorize c phase access .signal false = .ok () →
    checkSignal c access received = .ok (canonical received) → w.run.scope = c.scope →
    w.run.waits[received.waitId]? = some wait → wait.delivery = some d →
    (Same .source d.command (canonical received) ∧ d.actor = access.actor →
      w.signal phase access received = .ok ({ d.receipt with duplicate := true }, none)) ∧
    (¬(Same .source d.command (canonical received) ∧ d.actor = access.actor) →
      ∃ e, w.signal phase access received = .error e ∧ e.code = "state.conflict")
  /-- A delivered wait is not expired. -/
  unexpired : ∀ (id : String) (wait : WaitRecord), w.run.waits[id]? = some wait →
    wait.delivery.isSome = true → wait.state ≠ .expired
  /-- A signal wait is consumed after its start, with the payload that was delivered. -/
  consumed : ∀ (id : String) (wait : WaitRecord) (correlation : String) (payloadSchema : Value)
    (startNode : Option String), w.run.waits[id]? = some wait → wait.state = .consumed →
    wait.kind = .signal correlation payloadSchema startNode →
    wait.startConfirmed = true ∧ StartDone w.run startNode ∧ ∃ d record, wait.delivery = some d ∧
      w.run.invocations[wait.node]? = some record ∧ record.state = .succeeded ∧
      record.output = some (WaitRecord.signalOutput startNode w.run d.command.payload)
  /-- A step delivers only to an open wait of a run that is not cancelled. -/
  admitted : ∀ a w', w.step s a = some w' → ∀ (id : String) (wait' : WaitRecord),
    w'.run.waits[id]? = some wait' → wait'.delivery.isSome = true →
    ∃ wait, w.run.waits[id]? = some wait ∧ (wait.delivery = wait'.delivery ∨
      (wait.state = .open ∧ w.run.cancelRequested = false ∧ w.run.state.isTerminal = false ∧
        w.now < wait.deadlineAtMs))
  /-- A timer is consumed no earlier than its duration after it was reserved. -/
  timer : ∀ (id : String) (wait : WaitRecord), w.run.waits[id]? = some wait →
    wait.kind = .timer → wait.state = .consumed →
    ∃ duration, s.plan.activity wait.node = some (.timer duration) ∧
      wait.createdAtMs.toNat + duration.toNat ≤ w.now.toNat

/-- An admitted command to a delivered wait. -/
theorem Reachable.repeated (hr : Reachable s w) {c : Composition} {phase : Phase}
    {access : AccessContext} {received : SignalCommand} {wait : WaitRecord} {d : SignalDelivery}
    (hc : w.running = some c) (hauth : authorize c phase access .signal false = .ok ())
    (hcheck : checkSignal c access received = .ok (canonical received))
    (hscope : w.run.scope = c.scope) (hw : w.run.waits[received.waitId]? = some wait)
    (hd : wait.delivery = some d) :
    (Same .source d.command (canonical received) ∧ d.actor = access.actor →
      w.signal phase access received = .ok ({ d.receipt with duplicate := true }, none)) ∧
    (¬(Same .source d.command (canonical received) ∧ d.actor = access.actor) →
      ∃ e, w.signal phase access received = .error e ∧ e.code = "state.conflict") := by
  obtain ⟨record, hinv⟩ := hr.waitsInv.wait _ wait hw
  obtain ⟨⟨correlation, payloadSchema, startNode, hk⟩, -⟩ := WaitInv.delivered hinv hd
  rw [signal_eq hc hauth hcheck hscope]
  have hw : w.run.waits[(canonical received).waitId]? = some wait := hw
  constructor
  · rintro ⟨hcommand, hactor⟩
    exact deliver_duplicate hw hk hd hcommand hactor
  · intro hne
    exact ⟨differentSignal, deliver_conflict hw hk hd (not_and_or.mp hne), rfl⟩

/-- A step delivers only to an open wait of a run that is not cancelled. -/
theorem Reachable.delivers (hr : Reachable s w) (h : w.step s a = some w') {wait' : WaitRecord}
    (hw : w'.run.waits[id]? = some wait') (hd : wait'.delivery.isSome = true) :
    ∃ wait, w.run.waits[id]? = some wait ∧ (wait.delivery = wait'.delivery ∨
      (wait.state = .open ∧ w.run.cancelRequested = false ∧ w.run.state.isTerminal = false ∧
        w.now < wait.deadlineAtMs)) := by
  have hmove := step_wait h id
  rw [hw] at hmove
  generalize hx : some wait' = x at hmove
  cases hmove with
  | same => exact ⟨wait', hx.symm, .inl rfl⟩
  | reserved =>
    obtain rfl := Option.some.inj hx
    nomatch hd
  | confirmed start succeeded name found =>
    obtain rfl := Option.some.inj hx
    exact ⟨_, found, .inl rfl⟩
  -- the wait of a new delivery is open, as it is announced and not closed
  | @delivered c phase access received command receipt next wait checked named target scope
      authorized law =>
    have hfound := law.found
    rw [target] at hfound
    obtain ⟨record, hinv⟩ := hr.waitsInv.wait _ wait hfound
    obtain ⟨payloadSchema, startNode, hk⟩ := law.kind
    have hopen := WaitInv.open_of_fresh hinv law.fresh hk law.unexpired law.unclosed
    exact ⟨wait, hfound, .inr ⟨hopen, law.uncancelled, law.live, law.inTime⟩⟩
  -- the other changes keep what was delivered
  | consumed working name reserved found =>
    obtain rfl := Option.some.inj hx
    exact ⟨_, found, .inl rfl⟩
  | expired name signal found =>
    obtain rfl := Option.some.inj hx
    exact ⟨_, found, .inl rfl⟩
  | closed found =>
    obtain rfl := Option.some.inj hx
    exact ⟨_, found, .inl rfl⟩

/-- What holds of the waits of every run. -/
theorem wait_safety (hr : Reachable s w) : WaitSafety s w where
  kept w' hl id wait d hw hd := Extends.delivery (hr.extends_text hl) hw hd
  delivered actor received receipt hmem horiginal :=
    (hr.receipts receipt.waitId).delivered actor received receipt hmem
      (originalOf_signalled.mpr ⟨rfl, horiginal⟩)
  once id := (hr.receipts id).once
  repeated c phase access received wait d hc hauth hcheck hscope hw hd :=
    hr.repeated hc hauth hcheck hscope hw hd
  unexpired id wait hw hd := by
    obtain ⟨d, hd⟩ := Option.isSome_iff_exists.mp hd
    obtain ⟨record, hinv⟩ := hr.waitsInv.wait id wait hw
    exact (WaitInv.delivered hinv hd).2
  consumed id wait correlation payloadSchema startNode hw hs hk :=
    WaitsInv.consumed hr.textWaits hw hs hk
  admitted a w' h id wait' hw hd := hr.delivers h hw hd
  timer id wait hw hk hs := hr.timers id wait hw hk hs

/-- A message for the signal wait of the sample plan. -/
def sampleSignal (message : String) : Action :=
  .signal .ready sampleAccess ⟨"run", "reply", message, "order", .string message, []⟩

/-- The sample wait gets a message twice and is consumed with it; a timer runs beside it. -/
theorem wait_safety_sample :
    ∃ w, (w.log.filterMap (originalOf "reply")).map SignalReceipt.messageId = ["m1"] ∧
      (w.record "reply").map InvocationRecord.output =
        some (some (.object [("signal", .string "m1"), ("start", .null)])) ∧
      (w.run.waits["pause"]?).map WaitRecord.state = some .consumed ∧
      WaitSafety sampleSetup w := by
  obtain ⟨w₀, w, hr, hl, -, hw⟩ := @sample_run _ _ (fun _ => ())
    (fun w => ((w.log.filterMap (originalOf "reply")).map SignalReceipt.messageId,
      (w.record "reply").map InvocationRecord.output,
      (w.run.waits["pause"]?).map WaitRecord.state)) ()
    (["m1"], some (some (.object [("signal", .string "m1"), ("start", .null)])), some .consumed)
    [.take, .begin, .reserve "reply" "order" .null false, .reserve "pause" "" .null false]
    [sampleSignal "m1", sampleSignal "m1", .tick 20, .consume "reply" false,
      .consume "pause" false]
    (by simp [SampleActions, sampleSignal]) (by decide +kernel) (by decide +kernel)
  obtain ⟨hreceipts, houtput, htimer⟩ := by simpa only [Prod.mk.injEq] using hw
  exact ⟨w, hreceipts, houtput, htimer, wait_safety (hr.leads hl)⟩

end WorkflowForge.Run
