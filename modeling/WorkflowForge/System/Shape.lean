import WorkflowForge.Store.History
import WorkflowForge.System.Records

/-!
# Reachable Runs

What every reachable run looks like: its snapshots form a chain of accepted snapshots, and
every record belongs to the activity of its key.

## Main results

- `Reachable.chain`: the snapshots of a run are a chain the store accepted.
- `Reachable.shape`: a record belongs to the activity of its key.
-/

namespace WorkflowForge.Run

open Lib Engine MemoryExecutionStore

variable {s : Setup} {w w' w₁ : World} {a : Action} {key : String}

/-- What holds at first and is kept by every step holds of every reachable world. -/
theorem Reachable.invariant {P : World → Prop} (hr : Reachable s w)
    (hinit : ∀ w, Started s w → P w)
    (hstep : ∀ w a w', Reachable s w → P w → Admissible s w a → w.step s a = some w' → P w') :
    P w :=
  System.ReachableBy.invariant hr hinit hstep

theorem Reachable.leads (hr : Reachable s w) (hl : (system s).Leads (Admissible s) w w') :
    Reachable s w' :=
  System.ReachableBy.leads hr hl

theorem Reachable.step (hr : Reachable s w) (ha : Admissible s w a)
    (h : w.step s a = some w') : Reachable s w' :=
  System.ReachableBy.step hr ha h

/-! ## The chain of a run -/

/-- What an accepted proposal leaves is a successor. -/
theorem accept_law {p : Proposal} (h : w.accept (some p) = some w₁) (inv : WaitsInv .source w.run) :
    SuccessorLaw .source w.run w.run.revision w₁.run ∧ w₁.older = w.run :: w.older := by
  cases p with
  | run next =>
    simp only [World.accept] at h
    split at h
    next hv =>
      obtain rfl := Option.some.inj h
      exact ⟨RunSnapshot.validateSuccessor_ok_iff.mp hv, rfl⟩
    · cases h
  | record key record =>
    simp only [World.accept] at h
    split at h
    · cases h
    next hn =>
      obtain ⟨revision, hrev, rfl⟩ := Option.map_eq_some_iff.mp h
      have hnarrow := (State.refusesRecord_eq_false_iff.mp (Bool.eq_false_iff.mpr hn)).2
      exact ⟨inv.insertRecord_successor hnarrow hrev, rfl⟩

/-- A step leaves the run alone, or commits a successor of it. -/
theorem step_successor (h : w.step s a = some w') (inv : WaitsInv .source w.run) :
    (w'.run = w.run ∧ w'.older = w.older) ∨
      (SuccessorLaw .source w.run w.run.revision w'.run ∧ w'.older = w.run :: w.older) := by
  obtain ⟨p, w₁, hp, ha, rfl⟩ := World.step_eq_some h
  rw [after_run, after_older]
  cases p with
  | none =>
    obtain rfl := Option.some.inj ha
    exact .inl ⟨rfl, rfl⟩
  | some p => exact .inr (accept_law ha inv)

/-- The snapshots of a run are a chain the store accepted. -/
theorem Reachable.chain (hr : Reachable s w) : Chain .source (w.run :: w.older) := by
  apply hr.invariant (P := fun w => Chain .source (w.run :: w.older))
  · intro w h
    rw [h.fresh.1]
    exact .start h.initial
  · intro w a w' _ hc _ h
    rcases step_successor h hc.head_inv with ⟨hrun, holder⟩ | ⟨law, holder⟩
    · rw [hrun, holder]
      exact hc
    · rw [holder]
      exact .step hc law

theorem Reachable.waitsInv (hr : Reachable s w) : WaitsInv .source w.run :=
  hr.chain.head_inv

theorem Reachable.step_extends (hr : Reachable s w) (h : w.step s a = some w') :
    Extends .source w.run w'.run := by
  rcases step_successor h hr.waitsInv with ⟨hrun, -⟩ | ⟨law, -⟩
  · rw [hrun]
    exact .refl _
  · exact law.extends

/-- Later snapshots extend earlier ones. -/
theorem Reachable.extends (hr : Reachable s w) (hl : (system s).Leads (Admissible s) w w') :
    Extends .source w.run w'.run := by
  apply hl.of_step (R := fun w w' => Extends .source w.run w'.run) hr
  · intro w
    exact .refl w.run
  · intro w w' w'' h h'
    exact Extends.trans h h'
  · intro w a w' hr _ h
    exact Reachable.step_extends hr h

/-! ## Records and activities -/

/-- A record that no worker calls. -/
structure Plain (r : InvocationRecord) : Prop where
  operation : r.operation = none
  certainty : r.certainty = .notApplied
  known : r.state ≠ .unknown

/-- The record at a key belongs to the activity of the key. -/
inductive Shape (s : Setup) (run : RunId) (key : String) (r : InvocationRecord) : Prop where
  | operation {node : PreparedOperation} (activity : s.operation key = some node)
      (revision : r.operation = some node.operation.descriptor.revision)
      (uncontrolled : r.control = none) (name : r.id = s.logical run key)
      (effectKey : r.effectKey =
        if node.operation.descriptor.effect = .write then some (s.logical run key) else none)
  | control {frame : ControlFrame} (activity : s.isControl key = true) (plain : Plain r)
      (control : r.control = some frame) (frames : World.controls frame = true)
  | wait (activity : s.isWait key = true) (plain : Plain r)
      (control : r.control = some (.wait (s.waitName run key)))

namespace Shape

variable {run : RunId} {r : InvocationRecord}

/-- A record at the key of an operation. -/
theorem ofOperation (h : Shape s run key r) {node : PreparedOperation}
    (hn : s.operation key = some node) :
    r.operation = some node.operation.descriptor.revision ∧ r.control = none ∧
      r.id = s.logical run key ∧ r.effectKey =
        if node.operation.descriptor.effect = .write then some (s.logical run key) else none := by
  cases h with
  | operation activity revision uncontrolled name effectKey =>
    obtain rfl := Option.some.inj (hn.symm.trans activity)
    exact ⟨revision, uncontrolled, name, effectKey⟩
  | control activity =>
    rw [isControl_operation activity] at hn
    nomatch hn
  | wait activity =>
    rw [isWait_operation activity] at hn
    nomatch hn

/-- A record at any other key. -/
theorem plain (h : Shape s run key r) (hn : s.operation key = none) : Plain r := by
  cases h with
  | operation activity =>
    rw [activity] at hn
    nomatch hn
  | control _ plain => exact plain
  | wait _ plain => exact plain

/-- Only the record of an operation becomes unknown. -/
theorem node_of_unknown (h : Shape s run key r) (hs : r.state = .unknown) :
    ∃ node, s.operation key = some node := by
  cases h with
  | operation activity => exact ⟨_, activity⟩
  | control _ plain => exact absurd hs plain.known
  | wait _ plain => exact absurd hs plain.known

/-- Only the record of an operation has a revision. -/
theorem node_of_operation (h : Shape s run key r) (hs : r.operation.isSome = true) :
    ∃ node, s.operation key = some node ∧
      r.operation = some node.operation.descriptor.revision := by
  cases h with
  | operation activity revision => exact ⟨_, activity, revision⟩
  | control _ plain => simp [plain.operation] at hs
  | wait _ plain => simp [plain.operation] at hs

/-- A record under wait control is that of a wait node. -/
theorem wait_of_control (h : Shape s run key r) {id : String}
    (hc : r.control = some (.wait id)) : s.isWait key = true ∧ id = s.waitName run key := by
  cases h with
  | operation _ _ uncontrolled => simp [uncontrolled] at hc
  | control _ _ control frames =>
    rw [control] at hc
    obtain rfl := Option.some.inj hc
    nomatch frames
  | wait activity _ control =>
    rw [control] at hc
    exact ⟨activity, by simpa using hc.symm⟩

/-- The shape of a record of an operation does not depend on its outcome. -/
theorem ofKept {old : InvocationRecord} (h : Shape s run key old) {node : PreparedOperation}
    (hn : s.operation key = some node)
    (hkept : r.operation = old.operation ∧ r.control = old.control ∧ r.id = old.id ∧
      r.effectKey = old.effectKey) : Shape s run key r := by
  obtain ⟨h₁, h₂, h₃, h₄⟩ := h.ofOperation hn
  exact .operation hn (hkept.1.trans h₁) (hkept.2.1.trans h₂) (hkept.2.2.1.trans h₃)
    (hkept.2.2.2.trans h₄)

end Shape

/-- What a resolution leaves of the record it names. -/
theorem ResolvedRecord.kept {resolution : EffectResolution} {old r : InvocationRecord}
    (h : ResolvedRecord resolution old r) :
    r.operation = old.operation ∧ r.control = old.control ∧ r.id = old.id ∧
      r.effectKey = old.effectKey := by
  cases h <;> exact ⟨rfl, rfl, rfl, rfl⟩

theorem OtherEdit.plain {r : InvocationRecord} (h : OtherEdit s w key r)
    (hold : ∀ old, w.run.invocations[key]? = some old → Shape s w.run.id key old) : Plain r := by
  cases hr : w.run.invocations[key]? with
  | none =>
    obtain ⟨ho, hc⟩ := h.fresh hr
    exact ⟨ho, hc, h.known⟩
  | some old =>
    have hp := (hold old hr).plain h.node
    obtain ⟨ho, hc, -⟩ := h.kept old hr
    exact ⟨ho.trans hp.operation, hc.trans hp.certainty, h.known⟩

/-- A step keeps the record of a key at its activity. -/
theorem RecordStep.shape {r : InvocationRecord} (h : RecordStep s w a key (some r))
    (hold : ∀ old, w.run.invocations[key]? = some old → Shape s w.run.id key old)
    (hreported : ∀ {attempt : String} {descriptor : OperationDescriptor} {report : FailureReport},
      Reported s w a key attempt descriptor report → ∃ node, s.operation key = some node) :
    Shape s w.run.id key r := by
  generalize hx : some r = x at h
  cases h with
  | same => exact hold r hx.symm
  | operation edit =>
    obtain rfl := Option.some.inj hx
    cases edit with
    -- an intent writes the shape of its operation
    | intend working operation => exact .operation operation rfl rfl rfl rfl
    | succeed working operation worker found =>
      exact (hold _ found).ofKept operation ⟨rfl, rfl, rfl, rfl⟩
    | fail reported found =>
      obtain ⟨node, hn⟩ := hreported reported
      exact (hold _ found).ofKept hn ⟨rfl, rfl, rfl, rfl⟩
  -- a record of another node has no operation, and the control of its kind
  | other edit =>
    obtain rfl := Option.some.inj hx
    have hplain := edit.plain hold
    rcases edit.control with ⟨frame, hc, hf, hcontrols⟩ | ⟨hw, hf⟩ | ⟨old, hr, hf⟩
    · exact .control hc hplain hf hcontrols
    · exact .wait hw hplain hf
    · cases hold old hr with
      | operation activity =>
        rw [edit.node] at activity
        nomatch activity
      | control activity _ control frames =>
        exact .control activity hplain (hf.trans control) frames
      | wait activity _ control => exact .wait activity hplain (hf.trans control)
  -- only the record of an operation is marked
  | @marked old error cancelled action found =>
    obtain rfl := Option.some.inj hx
    rcases markUnknown_cases old with ⟨-, h⟩ | ⟨-, h⟩ | ⟨-, hc, h⟩
    · rw [h]
      exact hold old found
    · rw [h]
      exact hold old found
    · rw [h]
      cases hn : s.operation key with
      | none => exact absurd ((hold old found).plain hn).certainty hc
      | some node => exact (hold old found).ofKept hn ⟨rfl, rfl, rfl, rfl⟩
  -- only an operation can be unknown
  | @resolved c old r' phase access command action running found isNamed blocked edit =>
    obtain rfl := Option.some.inj hx
    have hunknown : old.state = .unknown := by
      simp only [named, decide_eq_true_eq] at isNamed
      exact isNamed.2.2
    obtain ⟨node, hn⟩ := (hold old found).node_of_unknown hunknown
    exact (hold old found).ofKept hn edit.kept

end WorkflowForge.Run
