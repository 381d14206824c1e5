import WorkflowForge.Sqlite.Related

/-!
# The Tables Refine the Memory Store

The two stores run side by side from empty stores. A refused creation prunes the receipts of
the memory store alone, so they agree under a clock that does not go back.

## Main results

- `Related.perform`: related stores answer every call alike, and stay related.
- `refines_memory`: they do so in every run from an empty store.
- `refusal_prunes`: with a clock that goes back they do not.
-/

namespace WorkflowForge.Sqlite

open Lib
open MemoryExecutionStore (State StoredRun Receipt)
open ExecutionStore (Call Answer)

/-! ## Side by side -/

section Paired

variable (hash : Value → String) (cap : Nat) (available : ArtifactRef → Except ForgeError Unit)
  (owner : String) (clock : UInt64 → UInt64 → Prop)

/-- A call whose time the clock allows and whose effect reaches no limit of the tables; a full
commit changes no float zero's sign alone. -/
structure Admitted (now : UInt64) (m : State) (call : Call) : Prop where
  clock : ∀ t ∈ call.time, clock now t
  range : ∀ t ∈ call.time, t.toNat < 2 ^ 63
  settled : Settled m call
  fits : StateFits hash cap (MemoryExecutionStore.store.perform m call).1

/-- Both stores after the same calls, from empty stores with one owner. -/
inductive Paired : UInt64 → State → Worker → Prop where
  | start : Paired 0 { owner := some owner } { owner := some owner }
  | call {now : UInt64} {m : State} {w : Worker} (call : Call) :
      Paired now m w → Admitted hash cap clock now m call →
      Paired (call.time.getD now) (MemoryExecutionStore.store.perform m call).1
        ((store hash cap available).perform w call).1

/-- The columns of a run, and the range query over its records, agree with its snapshot. -/
structure ColumnsAgree (db : Db) (id : RunId) (s : RunSnapshot) : Prop where
  row : ∃ row, db.runs[id]? = some row ∧ row.retainedBytes = s.retainedDataBytes ∧
    row.invocationCount = s.invocations.size ∧
    row.unresolvedCount = s.head.unresolvedInvocations ∧ row.nextWakeupAtMs = s.nextWakeupAtMs
  below : ∀ path : String,
    Query.unresolvedBelow (db.rowsOf id) path = s.unresolvedBelow (some path)

variable {hash cap available owner clock}
variable {now : UInt64} {m : State} {w : Worker}

theorem Step.map {α β : Type} {memory : State × Except ForgeError α}
    {tables : Worker × Except ForgeError α} (h : Step hash cap owner now memory tables)
    (f : α → β) : Step hash cap owner now (memory.1, memory.2.map f) (tables.1, tables.2.map f) :=
  ⟨h.related, h.agree.map f⟩

/-- A reading call answers the same and changes neither store. -/
theorem Related.read {α : Type} (h : Related hash cap owner now m w) {a b : Except ForgeError α}
    (hab : a = b) : Step hash cap owner now (m, a) (w, b) :=
  ⟨h, fun _ => by rw [hab]⟩

theorem Related.readable (h : Related hash cap owner now m w) {α : Type}
    (action : Db → Except ForgeError α) : w.read action = action w.db := by
  simp [Worker.read, h.workerOwner]

/-- Related stores answer every call alike, and stay related. -/
theorem Related.perform (h : Related hash cap owner now m w) (call : Call)
    (hcall : Admitted hash cap (· ≤ ·) now m call) :
    Step hash cap owner (call.time.getD now) (MemoryExecutionStore.store.perform m call)
      ((store hash cap available).perform w call) := by
  have hfits := hcall.fits
  cases call with
  | create caller run receipt limits =>
    exact (h.create (hcall.clock _ rfl) (hcall.range _ rfl) hfits).map Answer.created
  -- reads answer alike and change nothing
  | get id =>
    refine h.read (congrArg (Except.map Answer.run) ?_)
    exact ((h.readable fun db => Query.run hash db id cap).trans (h.run_eq id)).symm
  | view id node =>
    refine h.read (congrArg (Except.map Answer.view) ?_)
    exact ((h.readable fun db => Query.view db id node cap).trans (h.view_eq id node)).symm
  | unfinished =>
    refine h.read (congrArg (Except.map Answer.runs) ?_)
    exact ((h.readable fun db => readAll (fun id => Query.run hash db id cap)
      (Query.unfinished db)).trans h.unfinished_eq).symm
  | unfinishedHeads =>
    refine h.read (congrArg (Except.map Answer.heads) ?_)
    exact ((h.readable fun db => readAll (Query.head db) (Query.unfinished db)).trans
      h.unfinishedHeads_eq).symm
  | commit caller expected next => exact (h.commit hcall.settled hfits).map fun _ => Answer.done
  | commitInvocation caller id expected node record =>
    exact (h.commitInvocation hfits).map Answer.replaced
  | collect caller time limits =>
    exact (h.collect (hcall.clock _ rfl) (hcall.range _ rfl) hfits).map fun _ => Answer.done

/-- Stores that run side by side stay related. -/
theorem Paired.related (h : Paired hash cap available owner (· ≤ ·) now m w) :
    Related hash cap owner now m w := by
  induction h with
  | start =>
    exact {
      memoryOwner := rfl
      workerOwner := rfl
      reached := .called (.claim owner) .empty trivial
      fits := ⟨fun id s hs => by simp [State.get] at hs, by simp,
        fun id id' s s' hs => by simp [State.get] at hs⟩
      holds := ⟨fun id s hs => by simp [State.get] at hs,
        fun id _ => ⟨by simp, by simp [Db.rowsOf]⟩⟩
      booked := ⟨.nil, by simp⟩
      receipts := rfl
      packages := fun packageId body hbody => by simp at hbody }
  | call call _ hcall ih => exact (ih.perform call hcall).related

/-- With a clock that does not go back, the worker accepts and refuses the same calls as the
memory store and answers them alike; its columns and its range query agree with the
snapshots the memory store holds. -/
theorem refines_memory (h : Paired hash cap available owner (· ≤ ·) now m w) :
    (∀ call, Admitted hash cap (· ≤ ·) now m call →
      Agree (MemoryExecutionStore.store.perform m call).2
        ((store hash cap available).perform w call).2) ∧
    ∀ (id : RunId) (s : RunSnapshot), m.get id = some s → ColumnsAgree w.db id s := by
  have hrelated := h.related
  refine ⟨fun call hcall => (hrelated.perform call hcall).agree, fun id s hs => ?_⟩
  have hrep := hrelated.represents hs
  obtain ⟨row, hrow, hheader, _⟩ := hrep.header
  exact ⟨⟨row, hrow, hheader.retained, hheader.count, hheader.unresolved, hheader.wakeup⟩,
    hrep.unresolvedBelow_eq⟩

end Paired

/-! ## A clock that goes back -/

section Clock

/-- A fresh run that fits, as far as its identity and its times do. -/
theorem sampleRun_fits {id : RunId} {time : UInt64}
    (h : (envelope (serialize (Query.header
      { sampleRun with id := id, createdAtMs := time }))).bytes ≤ 10000) :
    Fits 10000 { sampleRun with id := id, createdAtMs := time } where
  lossless := ⟨nofun, fun key r hr => by simp [sampleRun] at hr, nofun⟩
  artifacts := rfl
  deliveries id w d hw := by simp [sampleRun] at hw
  header := h
  records path r hr := by simp [sampleRun] at hr
  package := by
    change (packageBody sampleRun.package).bytes ≤ 10000
    decide +kernel
  revision := by
    change sampleRun.revision.toNat < 2 ^ 63
    decide
  deadline := by
    change sampleRun.deadlineAtMs.toNat < 2 ^ 63
    decide
  retained := by
    change sampleRun.retainedDataBytes < 2 ^ 63
    decide +kernel
  count := by simp [sampleRun]
  finished := nofun
  wakeup t ht := by
    have hnone : sampleRun.nextWakeupAtMs = none := by decide +kernel
    cases hnone ▸ (ht : t ∈ sampleRun.nextWakeupAtMs)

/-- A state still fits after a creation of a run that fits, with a package it knows. -/
theorem StateFits.create {hash : Value → String} {cap : Nat} {m m' : State} {owner : String}
    {run : RunSnapshot} {receipt : Option ReceiptReservation} {limits : Limits}
    {answer : Except ForgeError CreateOutcome} (h : StateFits hash cap m)
    (hm : m.create owner run receipt limits = (m', answer)) (hrun : Fits cap run)
    (hreceipt : ∀ r ∈ receipt, ReservationFits cap r)
    (hpackage : ∀ id s, m.get id = some s → s.package = run.package) :
    StateFits hash cap m' ∧ ∀ id s, m'.get id = some s → s.package = run.package := by
  rcases State.create_receipts hm with ⟨rfl | rfl, _⟩ | ⟨rfl, _, hreceipts, _⟩
  · exact ⟨h, hpackage⟩
  · exact ⟨⟨h.runs, fun r hr => h.receipts r (State.mem_pruneReceipts.mp hr).1, h.packages⟩,
      hpackage⟩
  · have hget : m'.get = Function.update m.get run.id (some run) := by
      obtain ⟨_, _, _, _, _, rfl⟩ := State.create_eq_created.mp hm
      exact get_insert run.id _ rfl
    -- the new run has the one package
    have hall : ∀ id s, m'.get id = some s → Fits cap s ∧ s.package = run.package := by
      intro id s hs
      rw [hget, Function.update_apply] at hs
      split at hs
      · obtain rfl := Option.some.inj hs
        exact ⟨hrun, rfl⟩
      · exact ⟨h.runs id s hs, hpackage id s hs⟩
    refine ⟨⟨fun id s hs => (hall id s hs).1, fun r hr => ?_, fun id id' s s' hs hs' _ => ?_⟩,
      fun id s hs => (hall id s hs).2⟩
    · rw [hreceipts] at hr
      rcases List.mem_append.mp hr with hr | hr
      · exact h.receipts r (State.mem_pruneReceipts.mp hr).1
      · obtain ⟨reservation, hres, rfl⟩ := List.mem_map.mp hr
        exact hreceipt reservation (Option.mem_toList.mp hres)
    · rw [(hall id s hs).2, (hall id' s' hs').2]

/-- The creation of an example run. -/
def creation (id : RunId) (time : UInt64) (receipt : Option ReceiptReservation) : Call :=
  .create "host" { sampleRun with id := id, createdAtMs := time } receipt {}

/-- The state fits, and all of its runs have the package of the example. -/
structure Sampled (m : State) : Prop where
  fits : StateFits sampleHash 10000 m
  package : ∀ (id : RunId) (s : RunSnapshot), m.get id = some s → s.package = sampleRun.package

theorem Sampled.creation {m : State} (h : Sampled m) (id : RunId) (time : UInt64)
    (receipt : Option ReceiptReservation)
    (hheader : (envelope (serialize (Query.header
      { sampleRun with id := id, createdAtMs := time }))).bytes ≤ 10000)
    (hreceipt : ∀ r ∈ receipt, ReservationFits 10000 r) :
    Sampled (MemoryExecutionStore.store.perform m (Sqlite.creation id time receipt)).1 := by
  obtain ⟨hfits, hpackage⟩ := h.fits.create (Prod.eta (m.create "host"
    { sampleRun with id := id, createdAtMs := time } receipt {})).symm (sampleRun_fits hheader)
    hreceipt h.package
  exact ⟨hfits, hpackage⟩

/-- A start under a key, in a window that ends at 100. -/
def firstStart : Call := creation "run" 10 (some ⟨"key", .null, 100⟩)

/-- A creation that is refused after that window. -/
def lateCreation : Call := creation "run" 200 none

/-- The start again, at a time inside the window. -/
def earlierStart : Call := creation "again" 50 (some ⟨"key", .null, 150⟩)

/-- Both stores of the example after some calls. -/
def memoryAfter (calls : List Call) : State :=
  calls.foldl (fun m call => (MemoryExecutionStore.store.perform m call).1)
    { owner := some "host" }

def tablesAfter (calls : List Call) : Worker :=
  calls.foldl (fun w call => ((store sampleHash 10000 fun _ => .ok ()).perform w call).1)
    { owner := some "host" }

theorem sampled_empty : Sampled { owner := some "host" } where
  fits := ⟨fun id s hs => by simp [State.get] at hs, by simp, fun id id' s s' hs => by
    simp [State.get] at hs⟩
  package id s hs := by simp [State.get] at hs

theorem sampled_first : Sampled (memoryAfter [firstStart]) :=
  sampled_empty.creation _ _ _ (by decide +kernel) fun r hr => by
    obtain rfl := Option.some.inj hr
    exact ⟨by decide +kernel, by decide⟩

theorem sampled_late : Sampled (memoryAfter [firstStart, lateCreation]) :=
  sampled_first.creation _ _ _ (by decide +kernel) nofun

theorem sampled_earlier : Sampled (memoryAfter [firstStart, lateCreation, earlierStart]) :=
  sampled_late.creation _ _ _ (by decide +kernel) fun r hr => by
    obtain rfl := Option.some.inj hr
    exact ⟨by decide +kernel, by decide⟩

/-- The stores of the example run side by side, by a clock that goes back at the end. -/
theorem paired_first {clock : UInt64 → UInt64 → Prop} (h : clock 0 10) :
    Paired sampleHash 10000 (fun _ => .ok ()) "host" clock 10 (memoryAfter [firstStart])
      (tablesAfter [firstStart]) :=
  .call firstStart .start ⟨fun t ht => by obtain rfl := Option.some.inj ht; exact h,
    fun t ht => by obtain rfl := Option.some.inj ht; decide, trivial, sampled_first.fits⟩

/-- The start again is answered by both stores with the run of the first. -/
theorem refines_memory_sample :
    ((store sampleHash 10000 fun _ => .ok ()).perform (tablesAfter [firstStart])
      earlierStart).2 = .ok (.created (.duplicate "run" 100)) := by
  have hfits := sampled_first.creation "again" 50 (some ⟨"key", .null, 150⟩)
    (by decide +kernel) fun r hr => by
      obtain rfl := Option.some.inj hr
      exact ⟨by decide +kernel, by decide⟩
  have hadmitted : Admitted sampleHash 10000 (· ≤ ·) 10 (memoryAfter [firstStart])
      earlierStart := ⟨fun t ht => by obtain rfl := Option.some.inj ht; decide,
        fun t ht => by obtain rfl := Option.some.inj ht; decide, trivial, hfits.fits⟩
  refine ((refines_memory (paired_first (by decide))).1 earlierStart hadmitted _).mp ?_
  decide +kernel

/-- A refused creation prunes the receipts of the memory store and not those of the tables: a
call with an earlier time is then answered differently. -/
theorem refusal_prunes :
    ∃ now m w call, Paired sampleHash 10000 (fun _ => .ok ()) "host" (fun _ _ => True) now m w ∧
      Admitted sampleHash 10000 (fun _ _ => True) now m call ∧
      ¬Agree (MemoryExecutionStore.store.perform m call).2
        ((store sampleHash 10000 fun _ => .ok ()).perform w call).2 := by
  refine ⟨200, memoryAfter [firstStart, lateCreation], tablesAfter [firstStart, lateCreation],
    earlierStart, ?_, ?_, ?_⟩
  · exact .call lateCreation (paired_first trivial) ⟨fun _ _ => trivial,
      fun t ht => by obtain rfl := Option.some.inj ht; decide, trivial, sampled_late.fits⟩
  · exact ⟨fun _ _ => trivial, fun t ht => by obtain rfl := Option.some.inj ht; decide,
      trivial, sampled_earlier.fits⟩
  · intro h
    have hmemory : (MemoryExecutionStore.store.perform (memoryAfter [firstStart, lateCreation])
        earlierStart).2 = .ok (.created .created) := by decide +kernel
    have htables := (h _).mp hmemory
    revert htables
    decide +kernel

end Clock

end WorkflowForge.Sqlite
