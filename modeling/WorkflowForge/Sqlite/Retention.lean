import WorkflowForge.Lib.Sorting
import WorkflowForge.Sqlite.Refines

/-!
# Retention

What a collection removes: the terminal runs whose age has come, the oldest terminal runs past
the number that is kept, and the receipts whose window has ended. The age and the rank of a run
are read off its own finish time and off those of the other runs, in no order of the store.

## Main results

- `mem_picked_iff`: the runs a collection picks from the sorted list are the expired ones.
- `retention`: what both stores keep and remove.
-/

namespace WorkflowForge.Sqlite

open Lib
open MemoryExecutionStore (State StoredRun Receipt Reached)

/-! ## Expired runs -/

/-- When each run ended, if it did. -/
abbrev Ends := BTreeMap RunId (Option UInt64)

/-- When a terminal run of the memory store ended. -/
def endOf (r : StoredRun) : Option UInt64 :=
  if r.snapshot.state.isTerminal then r.snapshot.finishedAtMs else none

/-- When a terminal run of the tables ended. -/
def rowEnd (row : RunRow) : Option UInt64 :=
  if terminalWords.contains row.state then row.finishedAtMs else none

def memoryEnds (m : State) : Ends :=
  BTreeMap.mapValues endOf m.runs

def Db.ends (db : Db) : Ends :=
  BTreeMap.mapValues rowEnd db.runs

section Expired

variable {ends : Ends} {m : State} {now : UInt64} {limits : Limits} {id : RunId}

/-- The order of retention: by finish time, then by identity. -/
def endsBefore (t : UInt64) (id : RunId) (t' : UInt64) (id' : RunId) : Bool :=
  t < t' ∨ t = t' ∧ id < id'

/-- How many runs ended. -/
def endedCount (ends : Ends) : Nat :=
  ends.toList.countP fun e => e.2.isSome

/-- How many runs ended before another one. -/
def endedBefore (ends : Ends) (t : UInt64) (id : RunId) : Nat :=
  ends.toList.countP fun e => e.2.any fun t' => endsBefore t' e.1 t id

/-- The run is terminal, and either it ended long enough ago, or so many runs that ended are
kept after it. -/
def Expired (ends : Ends) (now : UInt64) (limits : Limits) (id : RunId) : Prop :=
  ∃ t, ends[id]? = some (some t) ∧
    (limits.retentionMs.toNat ≤ now.toNat - t.toNat ∨
      endedBefore ends t id + limits.terminalRuns < endedCount ends)

/-- The order of the sorted list. -/
def endOrder (a b : UInt64 × RunId) : Bool :=
  decide (a.1 < b.1 ∨ a.1 = b.1 ∧ a.2 ≤ b.2)

theorem endOrder_iff {a b : UInt64 × RunId} :
    endOrder a b = true ↔ a.1.toNat < b.1.toNat ∨ a.1.toNat = b.1.toNat ∧ a.2 ≤ b.2 := by
  rw [endOrder, decide_eq_true_iff, UInt64.lt_iff_toNat_lt, UInt64.toNat_inj]

theorem endOrder_trans (a b c : UInt64 × RunId) (h : endOrder a b) (h' : endOrder b c) :
    endOrder a c := by
  rw [endOrder_iff] at *
  rcases h with h | ⟨h, hid⟩
  · rcases h' with h' | ⟨h', -⟩
    · exact .inl (h.trans h')
    · exact .inl (h' ▸ h)
  · rcases h' with h' | ⟨h', hid'⟩
    · exact .inl (h ▸ h')
    · exact .inr ⟨h.trans h', hid.trans hid'⟩

theorem endOrder_total (a b : UInt64 × RunId) : endOrder a b || endOrder b a := by
  rw [Bool.or_eq_true, endOrder_iff, endOrder_iff]
  rcases Nat.lt_trichotomy a.1.toNat b.1.toNat with h | h | h
  · exact .inl (.inl h)
  · rcases le_total a.2 b.2 with hid | hid
    · exact .inl (.inr ⟨h, hid⟩)
    · exact .inr (.inr ⟨h.symm, hid⟩)
  · exact .inr (.inl h)

/-- What is not at or after an end is strictly before it. -/
theorem not_endOrder (t t' : UInt64) (id id' : RunId) :
    (!endOrder (t, id) (t', id')) = endsBefore t' id' t id := by
  rw [Bool.eq_iff_iff, Bool.not_eq_true', ← Bool.not_eq_true, endOrder_iff, endsBefore,
    decide_eq_true_iff, UInt64.lt_iff_toNat_lt, ← UInt64.toNat_inj, not_or, not_and, not_le]
  dsimp only
  constructor
  · rintro ⟨hlt, hid⟩
    by_cases h : t.toNat = t'.toNat
    · exact .inr ⟨h.symm, hid h⟩
    · exact .inl (by omega)
  · rintro (hlt | ⟨heq, hid⟩)
    · exact ⟨by omega, fun h => by omega⟩
    · exact ⟨by omega, fun _ => hid⟩

/-- The ends of the runs, in the order of their identities. -/
def endList (ends : Ends) : List (UInt64 × RunId) :=
  ends.toList.filterMap fun e => e.2.map (·, e.1)

/-- The runs that a collection picks from the sorted list of ends. -/
def picked (ends : Ends) (now : UInt64) (limits : Limits) : List RunId :=
  let finished := (endList ends).mergeSort endOrder
  let excess := finished.length - limits.terminalRuns
  (finished.zipIdx.filter fun e =>
    e.2 < excess ∨ limits.retentionMs ≤ saturatingSub now e.1.1).map fun e => e.1.2

/-- The memory store picks from the ends of its runs. -/
theorem expired_memory (h : Reached m) (now : UInt64) (limits : Limits) :
    m.expired now limits = picked (memoryEnds m) now limits := by
  have hfinished : m.finished = (endList (memoryEnds m)).mergeSort endOrder := by
    unfold State.finished endList memoryEnds
    rw [BTreeMap.toList_mapValues, List.filterMap_map]
    refine congrArg (List.mergeSort · _) (List.filterMap_congr fun e he => ?_)
    have hr := Std.ExtTreeMap.mem_toList_iff_getElem?_eq_some.mp he
    rw [(h.kept e.1 e.2 hr).named]
    simp only [Function.comp_apply, endOf]
    split <;> rfl
  unfold State.expired picked
  rw [hfinished]

/-- The tables pick from the ends of their rows. -/
theorem expired_tables (db : Db) (now : UInt64) (limits : Limits) :
    expired db now limits = picked db.ends now limits := by
  have hfinished : finished db = (endList db.ends).mergeSort endOrder := by
    unfold finished endList Db.ends
    rw [BTreeMap.toList_mapValues, List.filterMap_map]
    refine congrArg (List.mergeSort · _) (List.filterMap_congr fun e _ => ?_)
    simp only [Function.comp_apply, rowEnd]
    split <;> rfl
  unfold expired picked
  rw [hfinished]

theorem mem_endList {t : UInt64} : (t, id) ∈ endList ends ↔ ends[id]? = some (some t) := by
  simp only [endList, List.mem_filterMap, Option.map_eq_some_iff, Prod.mk.injEq, Prod.exists]
  constructor
  · rintro ⟨id', _, hr, t', rfl, rfl, rfl⟩
    exact Std.ExtTreeMap.mem_toList_iff_getElem?_eq_some.mp hr
  · intro hr
    exact ⟨id, _, Std.ExtTreeMap.mem_toList_iff_getElem?_eq_some.mpr hr, t, rfl, rfl, rfl⟩

/-- Every run ends once. -/
theorem endList_nodup (ends : Ends) : (endList ends).Nodup := by
  have hkeys : ends.toList.Pairwise fun a b => a.1 ≠ b.1 := by
    have h := @Std.ExtTreeMap.nodup_keys _ _ _ ends _
    rw [← Std.ExtTreeMap.map_fst_toList_eq_keys] at h
    exact List.pairwise_map.mp h
  refine List.Pairwise.filterMap _ (fun a b hab x hx y hy => ?_) hkeys
  obtain ⟨t, -, rfl⟩ := Option.map_eq_some_iff.mp hx
  obtain ⟨t', -, rfl⟩ := Option.map_eq_some_iff.mp hy
  exact fun heq => hab (Prod.mk.inj heq).2

theorem sorted_ends (ends : Ends) :
    ((endList ends).mergeSort endOrder).Pairwise fun a b =>
      endOrder a b ∧ endOrder b a = false := by
  have hsorted := List.pairwise_mergeSort endOrder_trans endOrder_total (endList ends)
  have hnodup : ((endList ends).mergeSort endOrder).Nodup :=
    (List.mergeSort_perm (endList ends) endOrder).nodup_iff.mpr (endList_nodup ends)
  refine (hsorted.and hnodup).imp fun {a b} hab => ⟨hab.1, ?_⟩
  by_contra hback
  rw [Bool.not_eq_false] at hback
  obtain ⟨t, id⟩ := a
  obtain ⟨t', id'⟩ := b
  have hforth := endOrder_iff.mp hab.1
  have hback := endOrder_iff.mp hback
  apply hab.2
  rcases hforth with hlt | ⟨heq, hid⟩
  · rcases hback with hlt' | ⟨heq', -⟩ <;> omega
  · rcases hback with hlt' | ⟨-, hid'⟩
    · omega
    · rw [Prod.mk.injEq]
      exact ⟨UInt64.toNat_inj.mp heq, le_antisymm hid hid'⟩

/-- The index of an end in the sorted list is the number of runs that ended before. -/
theorem index_of_end {t : UInt64} {i : Nat}
    (h : ((t, id), i) ∈ ((endList ends).mergeSort endOrder).zipIdx) :
    endedBefore ends t id = i := by
  have hrank := countP_eq_of_mem_zipIdx (sorted_ends ends) (fun a => by
    simpa using endOrder_total a a) h
  rw [Nat.zero_add, (List.mergeSort_perm (endList ends) endOrder).countP_eq] at hrank
  rw [← hrank, endList, List.countP_filterMap]
  unfold endedBefore
  refine congrArg (List.countP · _) (funext fun e => ?_)
  cases e.2 with
  | none => rfl
  | some t' => simp [not_endOrder]

theorem length_ends (ends : Ends) :
    ((endList ends).mergeSort endOrder).length = endedCount ends := by
  rw [List.length_mergeSort, endList, ← List.countP_true, List.countP_filterMap]
  unfold endedCount
  refine congrArg (List.countP · _) (funext fun e => ?_)
  cases e.2 <;> rfl

/-- A collection picks exactly the expired runs. -/
theorem mem_picked_iff : id ∈ picked ends now limits ↔ Expired ends now limits id := by
  have hcount := length_ends ends
  simp only [picked, List.mem_map, List.mem_filter, decide_eq_true_eq,
    UInt64.le_iff_toNat_le, toNat_saturatingSub, Prod.exists]
  constructor
  · rintro ⟨t, id', i, ⟨hmem, hpicked⟩, rfl⟩
    have hend : (t, id') ∈ endList ends :=
      List.mem_mergeSort.mp (List.fst_mem_of_mem_zipIdx hmem)
    refine ⟨t, mem_endList.mp hend, ?_⟩
    rw [index_of_end hmem]
    -- picked by its place among the ends, or by its age
    rcases hpicked with hindex | hage
    · exact .inr (by omega)
    · exact .inl hage
  · rintro ⟨t, ht, hpicked⟩
    have hend : (t, id) ∈ (endList ends).mergeSort endOrder :=
      List.mem_mergeSort.mpr (mem_endList.mpr ht)
    obtain ⟨i, hi, hget⟩ := List.mem_iff_getElem.mp hend
    have hmem : ((t, id), i) ∈ ((endList ends).mergeSort endOrder).zipIdx :=
      List.mk_mem_zipIdx_iff_getElem?.mpr (List.getElem?_eq_some_iff.mpr ⟨hi, hget⟩)
    refine ⟨t, id, i, ⟨hmem, ?_⟩, rfl⟩
    rw [index_of_end hmem] at hpicked
    rcases hpicked with hage | hindex
    · exact .inr hage
    · exact .inl (by omega)

/-! ## The memory store -/

theorem mem_intern {package : ResolvedPackage} :
    package ∈ m.intern package ∧ ∀ p ∈ m.packages, p ∈ m.intern package := by
  unfold State.intern
  split
  next h => exact ⟨h, fun p hp => hp⟩
  · exact ⟨by simp, fun p hp => List.mem_append_left _ hp⟩

/-- Every run has its package in the pool. -/
def Pooled (m : State) : Prop :=
  ∀ (id : RunId) (r : StoredRun), m.runs[id]? = some r → r.package ∈ m.packages

/-- A stored run that is replaced keeps its package. -/
theorem Pooled.insert (h : Pooled m) {current r : StoredRun} (hcurrent : m.runs[id]? = some current)
    (hr : r.package = current.package) : Pooled { m with runs := m.runs.insert id r } := by
  intro key r' hr'
  rw [BTreeMap.get_insert] at hr'
  split at hr'
  · obtain rfl := Option.some.inj hr'
    rw [hr]
    exact h id current hcurrent
  · exact h key r' hr'

theorem Pooled.perform (h : Pooled m) (call : MemoryExecutionStore.Call) :
    Pooled (m.perform call).1 := by
  cases call with
  | claim owner =>
    simp only [State.perform, State.claim]
    split <;> exact h
  | release owner =>
    simp only [State.perform, State.release]
    split <;> exact h
  | create owner run receipt limits =>
    obtain ⟨m', answer, hc⟩ : ∃ m' answer, m.create owner run receipt limits = (m', answer) :=
      ⟨_, _, rfl⟩
    simp only [State.perform, hc]
    -- only a start that is created interns a package
    rcases State.create_receipts hc with ⟨rfl | rfl, -⟩ | ⟨rfl, -⟩
    · exact h
    · exact h
    · obtain ⟨_, _, _, _, _, rfl⟩ := State.create_eq_created.mp hc
      intro key r hr
      rw [BTreeMap.get_insert] at hr
      split at hr
      · obtain rfl := Option.some.inj hr
        exact mem_intern.1
      · exact mem_intern.2 _ (h key r hr)
  | commit owner expected next =>
    obtain ⟨m', answer, hc⟩ : ∃ m' answer, m.commit owner expected next = (m', answer) :=
      ⟨_, _, rfl⟩
    simp only [State.perform, hc]
    -- a commit writes nothing, or replaces a run with its package
    rcases State.commit_wrote hc with ⟨_, rfl⟩ | ⟨rfl, _⟩
    · exact h
    · obtain ⟨_, current, hcurrent, _, _, rfl⟩ := State.commit_eq_ok.mp hc
      exact h.insert hcurrent (State.after_package _ _)
  | commitInvocation owner run expected node record =>
    obtain ⟨m', answer, hc⟩ : ∃ m' answer,
        m.commitInvocation owner run expected node record = (m', answer) := ⟨_, _, rfl⟩
    simp only [State.perform, hc]
    rcases State.commitInvocation_wrote hc with ⟨_, rfl⟩ | ⟨⟨view, rfl⟩, _⟩
    · exact h
    · obtain ⟨_, current, revision, hcurrent, _, _, _, _, rfl⟩ :=
        State.commitInvocation_eq_ok.mp hc
      exact h.insert hcurrent rfl

theorem Pooled.collect (h : Pooled m) (owner : String) (now : UInt64) (limits : Limits) :
    Pooled (m.collect owner now limits).1 := by
  intro id r hr
  have hbefore := h id r (State.collect_get hr)
  unfold State.collect at hr ⊢
  split at hr
  · exact hbefore
  · -- the run that is left holds its package
    dsimp only at hr ⊢
    rw [List.mem_filter]
    refine ⟨hbefore, List.any_eq_true.mpr ⟨r, BTreeMap.mem_valueList.mpr ⟨id, hr⟩, ?_⟩⟩
    exact decide_eq_true rfl

theorem pooled (h : Reached m) : Pooled m := by
  induction h with
  | empty =>
    intro id r hr
    simp at hr
  | called call _ _ ih => exact ih.perform call
  | collected owner now limits _ ih => exact ih.collect owner now limits

/-- What a collection of the memory store leaves. -/
structure Collected (m m' : State) (now : UInt64) (limits : Limits) : Prop where
  /-- The expired runs are gone, all others stay as they are. -/
  runs : ∀ id, (Expired (memoryEnds m) now limits id → m'.get id = none) ∧
    (¬Expired (memoryEnds m) now limits id → m'.get id = m.get id)
  live : ∀ id s, m.get id = some s → s.state.isTerminal = false → m'.get id = some s
  receipts : m'.receipts = m.receipts.filter fun r => now < r.reservation.expiresAtMs
  packages : ∀ id s, m'.get id = some s → s.package ∈ m'.packages

theorem collected {owner : String} (h : Reached m) (howner : m.owner = some owner) :
    Collected m (m.collect owner now limits).1 now limits := by
  obtain ⟨hget, hreceipts⟩ := @collect_update owner m now limits howner
  have hexpired : ∀ id, id ∈ m.expired now limits ↔ Expired (memoryEnds m) now limits id :=
    fun id => expired_memory h now limits ▸ mem_picked_iff
  have hruns : ∀ id, (Expired (memoryEnds m) now limits id →
      (m.collect owner now limits).1.get id = none) ∧
      (¬Expired (memoryEnds m) now limits id →
        (m.collect owner now limits).1.get id = m.get id) := by
    intro id
    rw [hget]
    exact ⟨fun he => if_pos ((hexpired id).mpr he), fun he => if_neg fun hmem =>
      he ((hexpired id).mp hmem)⟩
  refine ⟨hruns, fun id s hs hlive => ?_, hreceipts, fun id s hs => ?_⟩
  · rw [(hruns id).2, hs]
    rintro ⟨t, ht, -⟩
    -- a run without a terminal state has no end
    obtain ⟨r, hr, rfl⟩ := Option.map_eq_some_iff.mp hs
    have hlive' : r.snapshot.state.isTerminal = false := hlive
    rw [memoryEnds, BTreeMap.get_mapValues, hr, Option.map_some, endOf, hlive'] at ht
    cases ht
  · obtain ⟨r, hr, rfl⟩ := Option.map_eq_some_iff.mp hs
    exact (pooled h).collect owner now limits id r hr

/-! ## The tables -/

/-- What a collection leaves in the tables. -/
structure CollectedTables (db db' : Db) (now : UInt64) (limits : Limits) : Prop where
  /-- The expired runs are gone with their records, all others stay as they are. -/
  runs : ∀ id, (Expired db.ends now limits id → db'.runs[id]? = none ∧ db'.rowsOf id = ∅) ∧
    (¬Expired db.ends now limits id →
      db'.runs[id]? = db.runs[id]? ∧ db'.rowsOf id = db.rowsOf id)
  live : ∀ (id : RunId) (row : RunRow), db.runs[id]? = some row →
    terminalWords.contains row.state = false → db'.runs[id]? = some row
  receipts : db'.receipts = db.receipts.filter fun r => now < r.expiresAtMs
  packages : ∀ (id : RunId) (row : RunRow), db'.runs[id]? = some row →
    db'.packages[row.packageId]? = db.packages[row.packageId]?

theorem collect_tables {db : Db} (ht : now.toNat < 2 ^ 63) :
    ∃ db', collect db now limits = .ok db' ∧ CollectedTables db db' now limits := by
  refine ⟨_, collect_eq ht, ?_⟩
  have hexpired : ∀ id, id ∈ expired (db.pruned now) now limits ↔
      Expired db.ends now limits id :=
    fun id => expired_tables (db.pruned now) now limits ▸ mem_picked_iff
  have hruns := fun id => (db.pruned now).without_runs (expired (db.pruned now) now limits) id
  have hrows := fun id => (db.pruned now).without_rowsOf (expired (db.pruned now) now limits) id
  refine ⟨fun id => ⟨fun he => ?_, fun he => ?_⟩, fun id row hrow hlive => ?_, rfl,
    fun id row hrow => ?_⟩
  · rw [hruns, hrows, if_pos ((hexpired id).mpr he), if_pos ((hexpired id).mpr he)]
    exact ⟨rfl, rfl⟩
  · have hnot := fun hmem => he ((hexpired id).mp hmem)
    rw [hruns, hrows, if_neg hnot, if_neg hnot]
    exact ⟨rfl, rfl⟩
  · rw [hruns, if_neg]
    · exact hrow
    · rw [hexpired]
      rintro ⟨t, ht, -⟩
      rw [Db.ends, BTreeMap.get_mapValues, hrow, Option.map_some, rowEnd, hlive] at ht
      cases ht
  · -- the row that is left names its package
    apply Option.ext
    intro body
    rw [Db.without_packages]
    exact ⟨fun h => h.1, fun h => ⟨h, id, row, hrow, rfl⟩⟩

end Expired

/-! ## Both stores -/

section Both

variable (hash : Value → String) (cap : Nat) (available : ArtifactRef → Except ForgeError Unit)

/-- The tables collect at every time they can store. -/
theorem worker_collect {w : Worker} {owner : String} (howner : w.owner = some owner)
    {t : UInt64} (ht : t.toNat < 2 ^ 63) (limits : Limits) :
    ∃ db', (store hash cap available).collect w owner t limits =
      ({ w with db := db' }, .ok ()) ∧ CollectedTables w.db db' t limits := by
  obtain ⟨db', hc, hcollected⟩ := @collect_tables t limits w.db ht
  refine ⟨db', ?_, hcollected⟩
  change w.write owner (fun db => (Sqlite.collect db t limits).map (·, ())) = _
  exact Worker.write_of_ok howner (by rw [hc]; rfl)

/-- A time that is no integer of the tables is refused, and nothing is removed. -/
theorem collect_late (w : Worker) (owner : String) {t : UInt64} (ht : ¬t.toNat < 2 ^ 63)
    (limits : Limits) :
    ∃ e, (store hash cap available).collect w owner t limits = (w, .error e) := by
  have hfails : (Sqlite.collect w.db t limits).map (·, ()) = .error failed := by
    unfold Sqlite.collect
    rw [storable_late ht]
    rfl
  change ∃ e, w.write owner (fun db => (Sqlite.collect db t limits).map (·, ())) = (w, .error e)
  by_cases howner : w.owner = some owner
  · exact ⟨_, Worker.write_of_error howner hfails⟩
  · exact ⟨_, Worker.write_foreign howner⟩

/-- Both stores keep the same runs and receipts. -/
structure KeptAlike (m : State) (w : Worker) : Prop where
  runs : memoryEnds m = w.db.ends
  receipts : w.receipts = m.receipts

/-- Stores that hold the same runs and receipts keep the same. -/
theorem KeptAlike.collect {m : State} {w : Worker} {owner : String} (h : KeptAlike m w)
    (hreached : Reached m) (hm : m.owner = some owner) (hw : w.owner = some owner) {t : UInt64}
    (ht : t.toNat < 2 ^ 63) (limits : Limits) :
    KeptAlike (m.collect owner t limits).1
      ((store hash cap available).collect w owner t limits).1 := by
  obtain ⟨db', hc, htables⟩ := worker_collect hash cap available hw ht limits
  have hmemory := @collected m t limits owner hreached hm
  have hget : ∀ (m : State) (id : RunId), (memoryEnds m)[id]? = (m.runs[id]?).map endOf :=
    fun m id => BTreeMap.get_mapValues _ _ _
  have hends : ∀ (db : Db) (id : RunId), db.ends[id]? = (db.runs[id]?).map rowEnd :=
    fun db id => BTreeMap.get_mapValues _ _ _
  have hkeys := fun id => MemoryExecutionStore.foldl_erase_get (m.expired t limits) m.runs id
  rw [hc]
  constructor
  · apply Std.ExtTreeMap.ext_getElem?
    intro id
    rw [hends, hget]
    by_cases he : Expired (memoryEnds m) t limits id
    · have hnone := (hmemory.runs id).1 he
      rw [State.get, Option.map_eq_none_iff] at hnone
      rw [((htables.runs id).1 (h.runs ▸ he)).1, hnone]
      rfl
    · rw [((htables.runs id).2 (h.runs ▸ he)).1, ← hends, ← h.runs, hget]
      -- a run that stays is the one that was there
      have hstays : (m.collect owner t limits).1.runs[id]? = m.runs[id]? := by
        have hnot : id ∉ m.expired t limits := by
          rw [expired_memory hreached, mem_picked_iff]
          exact he
        rw [State.collect, State.authorize_eq_ok.mpr hm]
        exact (hkeys id).trans (if_neg hnot)
      rw [hstays]
  · change ({ w with db := db' } : Worker).receipts = _
    rw [hmemory.receipts, ← h.receipts]
    change db'.receiptsOf = _
    rw [Db.receiptsOf, htables.receipts]
    exact Db.receiptsOf_pruned w.db t

/-- A collection removes exactly the expired runs and the receipts whose window has ended, and
keeps the packages of the runs it leaves: the memory store at every time, the tables at every
time they can store. A later time the tables refuse. Stores that hold the same runs and receipts
keep the same. -/
theorem retention (t : UInt64) (limits : Limits) :
    (∀ (m : State) (owner : String), Reached m → m.owner = some owner →
      (m.collect owner t limits).2 = .ok () ∧
        Collected m (m.collect owner t limits).1 t limits) ∧
    (t.toNat < 2 ^ 63 →
      (∀ (w : Worker) (owner : String), w.owner = some owner →
        ((store hash cap available).collect w owner t limits).2 = .ok () ∧
          CollectedTables w.db ((store hash cap available).collect w owner t limits).1.db t
            limits) ∧
      ∀ (m : State) (w : Worker) (owner : String), Reached m → m.owner = some owner →
        w.owner = some owner → KeptAlike m w →
        KeptAlike (m.collect owner t limits).1
          ((store hash cap available).collect w owner t limits).1) ∧
    (¬t.toNat < 2 ^ 63 → ∀ (w : Worker) (owner : String),
      ∃ e, (store hash cap available).collect w owner t limits = (w, .error e)) := by
  refine ⟨fun m owner hreached howner => ?_, fun ht => ⟨fun w owner howner => ?_,
    fun m w owner hreached hm hw h => h.collect hash cap available hreached hm hw ht limits⟩,
    fun ht w owner => collect_late hash cap available w owner ht limits⟩
  -- the map always collects
  · have hok : m.collect owner t limits = ((m.collect owner t limits).1, .ok ()) :=
      State.collect_eq_ok.mpr ⟨howner, rfl⟩
    exact ⟨congrArg Prod.snd hok, collected hreached howner⟩
  -- the tables do, at a time that their column can hold
  · obtain ⟨db', hc, hcollected⟩ := worker_collect hash cap available howner ht limits
    rw [hc]
    exact ⟨rfl, hcollected⟩

end Both

/-! ## Two stores with runs that ended -/

/-- The example run after its end. -/
def endedRun (id : RunId) (finished : UInt64) : RunSnapshot :=
  { sampleRun with
    id := id, createdAtMs := 10, revision := 1, state := .failed, finishedAtMs := some finished }

/-- Three runs, the first under a key; the second and the third have ended. -/
def endedCalls : List ExecutionStore.Call :=
  [creation "live" 10 (some ⟨"key", .null, 100⟩), creation "old" 10 none, creation "new" 10 none,
    .commit "host" 0 (endedRun "old" 20), .commit "host" 0 (endedRun "new" 900)]

theorem endedCalls_reached : Reached (memoryAfter endedCalls) :=
  .called (.commit "host" 0 (endedRun "new" 900)) (.called (.commit "host" 0 (endedRun "old" 20))
    (.called (.create "host" { sampleRun with id := "new", createdAtMs := 10 } none {})
    (.called (.create "host" { sampleRun with id := "old", createdAtMs := 10 } none {})
    (.called (.create "host" { sampleRun with id := "live", createdAtMs := 10 }
      (some ⟨"key", .null, 100⟩) {})
    (.called (.claim "host") .empty trivial) trivial) trivial) trivial) trivial) trivial

theorem endedCalls_alike : KeptAlike (memoryAfter endedCalls) (tablesAfter endedCalls) where
  runs := by
    apply Std.ExtTreeMap.toList_inj.mp
    decide +kernel
  receipts := by decide +kernel

/-- A collection of both stores removes the oldest run and leaves the two others. -/
structure OldestRemoved (limits : Limits) : Prop where
  memory : ((memoryAfter endedCalls).collect "host" 1100 limits).1.get "old" = none ∧
    ((memoryAfter endedCalls).collect "host" 1100 limits).1.get "new" =
      (memoryAfter endedCalls).get "new" ∧
    ((memoryAfter endedCalls).collect "host" 1100 limits).1.get "live" =
      (memoryAfter endedCalls).get "live"
  receipts : ((memoryAfter endedCalls).collect "host" 1100 limits).1.receipts = []
  alike : KeptAlike ((memoryAfter endedCalls).collect "host" 1100 limits).1
    ((store sampleHash 10000 fun _ => .ok ()).collect (tablesAfter endedCalls) "host" 1100
      limits).1

theorem oldest_expired {limits : Limits}
    (h : limits.retentionMs.toNat ≤ 1080 ∨ limits.terminalRuns = 1) :
    Expired (memoryEnds (memoryAfter endedCalls)) 1100 limits "old" := by
  refine ⟨20, by decide +kernel, h.imp (fun hage => hage) fun hcount => ?_⟩
  rw [hcount]
  decide +kernel

theorem newest_kept {limits : Limits} (hage : 200 < limits.retentionMs.toNat)
    (hcount : 1 ≤ limits.terminalRuns) :
    ¬Expired (memoryEnds (memoryAfter endedCalls)) 1100 limits "new" := by
  have hend : (memoryEnds (memoryAfter endedCalls))["new"]? = some (some 900) := by
    decide +kernel
  have hbefore : endedBefore (memoryEnds (memoryAfter endedCalls)) 900 "new" = 1 := by
    decide +kernel
  have hended : endedCount (memoryEnds (memoryAfter endedCalls)) = 2 := by decide +kernel
  have helapsed : (1100 : UInt64).toNat - (900 : UInt64).toNat = 200 := by decide
  rintro ⟨t, ht, hpicked⟩
  obtain rfl := Option.some.inj (Option.some.inj (hend.symm.trans ht))
  rw [hbefore, hended, helapsed] at hpicked
  omega

theorem live_kept (limits : Limits) :
    ¬Expired (memoryEnds (memoryAfter endedCalls)) 1100 limits "live" := by
  have hend : (memoryEnds (memoryAfter endedCalls))["live"]? = some none := by decide +kernel
  rintro ⟨t, ht, -⟩
  rw [hend] at ht
  cases ht

/-- The oldest run is removed by its age alone, and by the number of runs alone; the run that has
not ended stays, and the receipt is gone. -/
theorem retention_sample :
    OldestRemoved { retentionMs := 1000 } ∧ OldestRemoved { terminalRuns := 1 } := by
  have removed : ∀ limits : Limits, 200 < limits.retentionMs.toNat → 1 ≤ limits.terminalRuns →
      (limits.retentionMs.toNat ≤ 1080 ∨ limits.terminalRuns = 1) → OldestRemoved limits := by
    intro limits hage hcount hold
    have h := retention sampleHash 10000 (fun _ => .ok ()) 1100 limits
    have hmemory := (h.1 _ "host" endedCalls_reached (by decide +kernel)).2
    refine ⟨⟨(hmemory.runs "old").1 (oldest_expired hold),
      (hmemory.runs "new").2 (newest_kept hage hcount),
      (hmemory.runs "live").2 (live_kept limits)⟩, ?_, ?_⟩
    · rw [hmemory.receipts]
      decide +kernel
    · exact (h.2.1 (by decide)).2 _ _ "host" endedCalls_reached (by decide +kernel)
        (by decide +kernel) endedCalls_alike
  exact ⟨removed _ (by decide) (by decide) (.inl (by decide)),
    removed _ (by decide) (by decide) (.inr rfl)⟩

/-- At a time past the integers of the tables the memory store prunes a receipt that the tables
keep. -/
theorem collect_differs :
    ∃ (m : State) (w : Worker) (t : UInt64), Reached m ∧ m.owner = some "host" ∧
      w.owner = some "host" ∧ KeptAlike m w ∧ (m.collect "host" t {}).1.receipts = [] ∧
      ((store sampleHash 10000 fun _ => .ok ()).collect w "host" t {}).1.receipts ≠ [] := by
  refine ⟨memoryAfter endedCalls, tablesAfter endedCalls, 9223372036854775808,
    endedCalls_reached, by decide +kernel, by decide +kernel, endedCalls_alike,
    by decide +kernel, ?_⟩
  obtain ⟨e, he⟩ := collect_late sampleHash 10000 (fun _ => .ok ()) (tablesAfter endedCalls)
    "host" (by decide : ¬(9223372036854775808 : UInt64).toNat < 2 ^ 63) {}
  rw [he]
  change (tablesAfter endedCalls).receipts ≠ []
  decide +kernel

end WorkflowForge.Sqlite
