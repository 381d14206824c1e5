import WorkflowForge.Lib.Text
import WorkflowForge.Store.Trait
import WorkflowForge.Store.History

/-!
# The Reference Store

The store trait replaces one record by reading the run, writing the record into it and
committing the whole. The memory store does it in place and keeps the counters of a run by
differences. Both agree in every state that calls lead to.

A total is a natural number here: the saturating sums of the source are exact as long as
the totals fit in a machine word.

## Main results

- `Reached.counted`: the counters of every stored run are those of its snapshot.
- `fast_paths_match`: the narrow path is the trait's own, and a head or a view is the one
  recomputed from the snapshot.
-/

namespace WorkflowForge

open Lib

/-- Some record of the whole run is unresolved when their count is not zero. -/
theorem RunSnapshot.unresolvedBelow_none (s : RunSnapshot) :
    s.unresolvedBelow none = (unresolvedCount s.invocations != 0) := by
  rw [Bool.eq_iff_iff, bne_iff_ne, ← Nat.pos_iff_ne_zero, unresolvedCount, List.countP_pos_iff,
    unresolvedBelow, BTreeMap.any_iff]
  simp only [Bool.and_true, BTreeMap.mem_valueList]
  constructor
  · rintro ⟨key, r, hr, hu⟩
    exact ⟨r, ⟨key, hr⟩, hu⟩
  · rintro ⟨r, ⟨key, hr⟩, hu⟩
    exact ⟨key, r, hr, hu⟩

/-! ## The trait's own replacement of one record -/

/-- The trait's own replacement reads the run, checks the record against it, and commits the whole
run with the view of the node as the answer. -/
theorem ExecutionStore.replaceByCommit_eq_ok {S : Type} {store : ExecutionStore S} {s s' : S}
    {owner : String} {id : RunId} {expected : UInt64} {node : String} {record : InvocationRecord}
    {view : ExecutionView} :
    store.replaceByCommit s owner id expected node record = (s', .ok view) ↔
      ∃ run revision, store.get s id = .ok (some run) ∧ run.revision = expected ∧
        run.NarrowReplacement .source node record ∧ checkedAdd expected 1 = some revision ∧
        view = (run.insertRecord node record revision).view (some node) ∧
        store.commit s owner expected (run.insertRecord node record revision) = (s', .ok ()) := by
  have hrefuses : ∀ run : RunSnapshot, refusesRecord run expected record run.invocations[node]? =
      MemoryExecutionStore.State.refusesRecord run expected node record := fun _ => rfl
  unfold replaceByCommit
  -- without the run there is nothing to replace
  rcases hget : store.get s id with e | (_ | run)
  · simp
  · simp
  · simp only [Except.ok.injEq, Option.some.injEq, exists_and_left, exists_eq_left', hrefuses]
    by_cases hr : MemoryExecutionStore.State.refusesRecord run expected node record = true
    -- a record that is refused is not a lawful replacement
    · rw [if_pos hr]
      constructor
      · intro h
        nomatch (Prod.mk.inj h).2
      · rintro ⟨hrev, hn, _⟩
        rw [MemoryExecutionStore.State.refusesRecord_eq_false_iff.mpr ⟨hrev, hn⟩] at hr
        nomatch hr
    · obtain ⟨hrev, hn⟩ :=
        MemoryExecutionStore.State.refusesRecord_eq_false_iff.mp (Bool.eq_false_iff.mpr hr)
      rw [if_neg hr]
      cases hadd : checkedAdd expected 1 with
      | none => simp
      | some revision =>
        simp only [hrev, hn, true_and, Option.some.injEq, exists_eq_left']
        -- the answer is the one of the commit
        obtain ⟨t, r⟩ := store.commit s owner expected (run.insertRecord node record revision)
        cases r with
        | error e => simp
        | ok u =>
          simp only [Prod.mk.injEq, Except.ok.injEq]
          exact ⟨fun h => ⟨h.2.symm, h.1, trivial⟩, fun h => ⟨h.2.1, h.1.symm⟩⟩

namespace MemoryExecutionStore

/-! ## What an accepted replacement is -/

namespace State

variable {s s' : State} {owner : String} {id : RunId} {expected : UInt64}

/-- Only the owner that claimed the store last may write. -/
theorem authorize_eq_ok : s.authorize owner = .ok () ↔ s.owner = some owner := by
  unfold authorize
  split
  next h => simp [h]
  next h => simp [h]

/-- A store that refuses the owner is claimed by another one, or by none. -/
theorem ne_of_authorize {e : ForgeError} (h : s.authorize owner = .error e) :
    s.owner ≠ some owner := by
  intro hc
  rw [authorize_eq_ok.mpr hc] at h
  cases h

/-- A full commit needs a stored run with the same package and a lawful successor of it. -/
theorem commit_eq_ok {next : RunSnapshot} :
    s.commit owner expected next = (s', .ok ()) ↔
      s.owner = some owner ∧ ∃ current, s.runs[next.id]? = some current ∧
        Same .source current.package next.package ∧
        SuccessorLaw .source current.snapshot expected { next with package := {} } ∧
        s' = { s with
          runs := s.runs.insert next.id (current.after { next with package := {} }) } := by
  unfold commit
  cases ha : s.authorize owner with
  | error e => simp [ne_of_authorize ha]
  | ok u =>
    simp only [authorize_eq_ok.mp ha, true_and]
    cases hc : s.runs[next.id]? with
    | none => simp
    | some current =>
      simp only [Option.some.injEq, exists_eq_left']
      -- the packages are compared before the successor is checked
      by_cases hp : Same .source current.package next.package
      · rw [if_neg (not_not.mpr hp)]
        simp only [hp, true_and]
        cases hv : current.snapshot.validateSuccessor expected { next with package := {} } with
        | error e =>
          have hlaw :
              ¬ SuccessorLaw .source current.snapshot expected { next with package := {} } := by
            intro law
            rw [RunSnapshot.validateSuccessor_ok_iff.mpr law] at hv
            nomatch hv
          simp [hlaw]
        | ok u =>
          simp only [RunSnapshot.validateSuccessor_ok_iff.mp hv, true_and, Prod.mk.injEq]
          exact ⟨fun h => h.1.symm, fun h => ⟨h.symm, trivial⟩⟩
      · rw [if_pos hp]
        simp [hp]

/-- The narrow path checks the same record against the stored run, and inserts it in place. -/
theorem commitInvocation_eq_ok {node : String} {record : InvocationRecord}
    {view : ExecutionView} :
    s.commitInvocation owner id expected node record = (s', .ok view) ↔
      s.owner = some owner ∧ ∃ current revision, s.runs[id]? = some current ∧
        current.snapshot.revision = expected ∧
        current.snapshot.NarrowReplacement .source node record ∧
        checkedAdd expected 1 = some revision ∧
        view = (replaceRecord current node record revision).view (some node) ∧
        s' = { s with runs := s.runs.insert id (replaceRecord current node record revision) } := by
  unfold commitInvocation
  cases ha : s.authorize owner with
  | error e => simp [ne_of_authorize ha]
  | ok u =>
    simp only [authorize_eq_ok.mp ha, true_and]
    cases hc : s.runs[id]? with
    | none => simp
    | some current =>
      simp only [Option.some.injEq, exists_and_left, exists_eq_left']
      -- the check of one record stands for that of the whole successor
      by_cases hr : refusesRecord current.snapshot expected node record = true
      · rw [if_pos hr]
        constructor
        · intro h
          nomatch (Prod.mk.inj h).2
        · rintro ⟨hrev, hn, _⟩
          rw [refusesRecord_eq_false_iff.mpr ⟨hrev, hn⟩] at hr
          nomatch hr
      · obtain ⟨hrev, hn⟩ := refusesRecord_eq_false_iff.mp (Bool.eq_false_iff.mpr hr)
        rw [if_neg hr]
        cases hadd : checkedAdd expected 1 with
        | none => simp
        | some revision =>
          simp only [hrev, hn, true_and, Option.some.injEq, exists_eq_left', Prod.mk.injEq,
            Except.ok.injEq]
          exact ⟨fun h => ⟨h.2.symm, h.1.symm⟩, fun h => ⟨h.2.symm, h.1.symm⟩⟩

theorem after_snapshot (current : StoredRun) (next : RunSnapshot) :
    (current.after next).snapshot = next := by
  unfold StoredRun.after StoredRun.new
  split <;> rfl

/-- A commit keeps the package of the run. -/
theorem after_package (current : StoredRun) (next : RunSnapshot) :
    (current.after next).package = current.package := by
  unfold StoredRun.after StoredRun.new
  split <;> rfl

/-! ### What an accepted creation is -/

/-- The receipt that already answers a request under a key. -/
def receiptOf (s : State) (scope key : String) : Option Receipt :=
  s.receipts.find? fun r => r.scope = scope ∧ r.reservation.key = key

variable {run : RunSnapshot} {receipt : Option ReceiptReservation} {limits : Limits}

/-- Nothing is reserved where there is no live receipt under the key, and room for one more. -/
theorem reserved_eq_none {scope : String} :
    s.reserved scope receipt limits = .ok none ↔
      ∀ reservation ∈ receipt, s.receiptOf scope reservation.key = none ∧
        s.receipts.length < limits.receiptCount := by
  unfold reserved
  cases receipt with
  -- without a receipt of the key there must be room for one
  | none => simp
  | some reservation =>
    simp only [Option.mem_some_iff, forall_eq']
    cases hreceipt : s.receiptOf scope reservation.key with
    | some old =>
      rw [receiptOf] at hreceipt
      simp only [hreceipt, reduceCtorEq, false_and, iff_false]
      by_cases hr : Same .source old.reservation.request reservation.request
      · simp [hr]
      · simp [hr]
    | none =>
      rw [receiptOf] at hreceipt
      simp only [hreceipt]
      by_cases hfull : s.receipts.length ≥ limits.receiptCount
      · simp [hfull]
      · simp only [hfull, if_false, true_and, true_iff]
        omega

/-- A live receipt with the same request answers with its run. -/
theorem reserved_eq_some {scope : String} {outcome : CreateOutcome} :
    s.reserved scope receipt limits = .ok (some outcome) ↔
      ∃ reservation ∈ receipt, ∃ old, s.receiptOf scope reservation.key = some old ∧
        Same .source old.reservation.request reservation.request ∧
        outcome = .duplicate old.runId old.reservation.expiresAtMs := by
  unfold reserved
  cases receipt with
  | none => simp
  | some reservation =>
    simp only [Option.mem_some_iff, exists_eq_left']
    cases hreceipt : s.receiptOf scope reservation.key with
    -- a receipt of the key answers by its request
    | some old =>
      rw [receiptOf] at hreceipt
      simp only [hreceipt]
      by_cases hr : Same .source old.reservation.request reservation.request
      · simp [hr, eq_comm]
      · simp [hr]
    | none =>
      rw [receiptOf] at hreceipt
      simp only [hreceipt]
      by_cases hfull : s.receipts.length ≥ limits.receiptCount
      · simp [hfull]
      · simp [hfull]

/-- A start is a duplicate when its key is known with the same request, after the expired receipts
are gone. -/
theorem create_eq_duplicate {id : RunId} {expiresAtMs : UInt64} :
    s.create owner run receipt limits = (s', .ok (.duplicate id expiresAtMs)) ↔
      s.owner = some owner ∧ s' = s.pruneReceipts run.createdAtMs ∧
        ∃ reservation ∈ receipt, ∃ old,
          (s.pruneReceipts run.createdAtMs).receiptOf run.scope reservation.key = some old ∧
          Same .source old.reservation.request reservation.request ∧ id = old.runId ∧
          expiresAtMs = old.reservation.expiresAtMs := by
  unfold create
  cases ha : s.authorize owner with
  | error e => simp [ne_of_authorize ha]
  | ok u =>
    -- a duplicate is decided by the receipts, before the limits and the run are looked at
    have hsome := @reserved_eq_some (s.pruneReceipts run.createdAtMs) receipt limits run.scope
      (.duplicate id expiresAtMs)
    simp only [CreateOutcome.duplicate.injEq] at hsome
    rw [← hsome]
    simp only [authorize_eq_ok.mp ha, true_and]
    generalize (s.pruneReceipts run.createdAtMs).reserved run.scope receipt limits = answer
    cases answer with
    | error e => simp
    | ok outcome =>
      cases outcome with
      | some outcome => simp [eq_comm]
      | none =>
        simp only [Except.ok.injEq, reduceCtorEq, and_false, iff_false]
        split
        · simp
        split
        · simp
        split <;> simp

/-- A start is accepted under a free key and within the limits, and adds its run and its receipt. -/
theorem create_eq_created :
    s.create owner run receipt limits = (s', .ok .created) ↔
      s.owner = some owner ∧
        (∀ reservation ∈ receipt,
          (s.pruneReceipts run.createdAtMs).receiptOf run.scope reservation.key = none ∧
          (s.pruneReceipts run.createdAtMs).receipts.length < limits.receiptCount) ∧
        s.activeCount < limits.activeRuns + limits.pendingRuns ∧ run.InitialLaw ∧
        s.runs[run.id]? = none ∧
        s' = { s with
          packages := s.intern run.package
          receipts := (s.pruneReceipts run.createdAtMs).receipts
            ++ receipt.toList.map fun r => ⟨run.scope, run.id, r⟩
          runs := s.runs.insert run.id (.new { run with package := {} } run.package) } := by
  unfold create
  cases ha : s.authorize owner with
  | error e => simp [ne_of_authorize ha]
  | ok u =>
    refine Iff.trans ?_ (and_iff_right (authorize_eq_ok.mp ha)).symm
    rw [← reserved_eq_none]
    have hsome := @reserved_eq_some (s.pruneReceipts run.createdAtMs) receipt limits run.scope
      .created
    simp only [reduceCtorEq, and_false] at hsome
    dsimp only
    -- in the order of the source: the receipts, the limits, the run, its name
    generalize (s.pruneReceipts run.createdAtMs).reserved run.scope receipt limits = answer at *
    cases answer with
    | error e => simp
    | ok outcome =>
      cases outcome with
      | some outcome =>
        have hne : outcome ≠ .created := by
          rintro rfl
          obtain ⟨_, _, _, _, ⟨⟩⟩ := hsome.mp rfl
        simp [hne]
      | none =>
        have hactive : (s.pruneReceipts run.createdAtMs).activeCount = s.activeCount := rfl
        simp only [hactive, true_and]
        by_cases hfull : s.activeCount ≥ limits.activeRuns + limits.pendingRuns
        · simp only [hfull, if_true]
          simp
          omega
        rw [if_neg hfull]
        simp only [not_le.mp hfull, true_and]
        cases hv : run.validateInitial with
        | error e =>
          have hlaw : ¬ run.InitialLaw := by
            intro law
            rw [RunSnapshot.validateInitial_ok_iff.mpr law] at hv
            nomatch hv
          simp [hlaw]
        | ok u =>
          simp only [RunSnapshot.validateInitial_ok_iff.mp hv, true_and]
          by_cases hc : (s.pruneReceipts run.createdAtMs).runs.contains run.id = true
          · have hne : s.runs[run.id]? ≠ none := by
              simpa [pruneReceipts] using hc
            rw [if_pos hc]
            simp [hne]
          · have hnone : s.runs[run.id]? = none := by
              simpa [pruneReceipts] using hc
            rw [if_neg hc]
            simp only [hnone, true_and, Prod.mk.injEq, and_true]
            exact eq_comm

end State

/-! ## The index of unresolved records -/

namespace StoredRun

/-- The index holds the unresolved records. -/
theorem mem_unresolvedKeys {m : BTreeMap String InvocationRecord} {key : String} :
    key ∈ unresolvedKeys m ↔ ∃ r, m[key]? = some r ∧ r.isUnresolved = true := by
  unfold unresolvedKeys
  rw [Std.ExtTreeSet.mem_ofList, List.contains_iff_mem, List.mem_map]
  simp

/-- Replacing a record changes the membership of its own key only. -/
theorem unresolvedKeys_insert (m : BTreeMap String InvocationRecord) (node : String)
    (record : InvocationRecord) :
    unresolvedKeys (m.insert node record) =
      if record.isUnresolved then (unresolvedKeys m).insert node
      else (unresolvedKeys m).erase node := by
  apply Std.ExtTreeSet.ext_mem
  intro key
  by_cases hk : node = key
  · subst hk
    cases hu : record.isUnresolved <;> simp [mem_unresolvedKeys, hu]
  · cases hu : record.isUnresolved <;>
      simp [mem_unresolvedKeys, BTreeMap.get_insert_ne _ _ hk, hk]

/-- And as many keys as there are unresolved records. -/
theorem size_unresolvedKeys (m : BTreeMap String InvocationRecord) :
    (unresolvedKeys m).size = RunSnapshot.unresolvedCount m := by
  have hkeys : ((m.toList.filter fun e => e.2.isUnresolved).map Prod.fst).Pairwise
      fun a b => ¬ compare a b = .eq := by
    refine List.Pairwise.map _ (fun a b h => h) ?_
    exact List.Pairwise.sublist List.filter_sublist Std.ExtTreeMap.distinct_keys_toList
  unfold unresolvedKeys RunSnapshot.unresolvedCount BTreeMap.valueList
  rw [Std.ExtTreeSet.size_ofList hkeys, List.length_map, List.countP_map,
    List.countP_eq_length_filter]
  rfl

/-- The keys are listed in ascending order. -/
theorem toList_sorted (keys : BTreeSet String) : keys.toList.Pairwise (· ≤ ·) := by
  refine List.Pairwise.imp ?_ (Std.ExtTreeSet.ordered_toList (t := keys))
  intro a b h
  exact le_of_lt (compare_lt_iff_lt.mp h)

/-- The range query of the index finds a descendant exactly when some record below the node
is unresolved. -/
theorem index_below (m : BTreeMap String InvocationRecord) (node : String) :
    (match (unresolvedKeys m).toList.find? fun k => node ++ "/" ≤ k with
      | some k => startsWith k (node ++ "/")
      | none => false) =
    BTreeMap.any (fun key r => r.isUnresolved && startsWith key (node ++ "/")) m := by
  -- keys are sorted, so the first one from the bound on decides
  have hfirst := find?_prefix_iff (toList_sorted (unresolvedKeys m)) node
  rw [Bool.eq_iff_iff, BTreeMap.any_iff]
  simp only [Bool.and_eq_true, startsWith, List.isPrefixOf_iff_prefix]
  constructor
  · intro h
    split at h
    next k hk =>
      obtain ⟨key, hmem, hp⟩ := hfirst.mp ⟨k, hk, List.isPrefixOf_iff_prefix.mp h⟩
      obtain ⟨r, hr, hu⟩ := mem_unresolvedKeys.mp (Std.ExtTreeSet.mem_toList.mp hmem)
      exact ⟨key, r, hr, hu, hp⟩
    next => nomatch h
  · rintro ⟨key, r, hr, hu, hp⟩
    have hmem : key ∈ (unresolvedKeys m).toList :=
      Std.ExtTreeSet.mem_toList.mpr (mem_unresolvedKeys.mpr ⟨r, hr, hu⟩)
    obtain ⟨k, hk, hk'⟩ := hfirst.mpr ⟨key, hmem, hp⟩
    rw [hk]
    exact List.isPrefixOf_iff_prefix.mpr hk'

end StoredRun

/-! ## The counters -/

/-- A stored run under its own identity, with the index of its unresolved records. -/
structure Kept (id : RunId) (r : StoredRun) : Prop where
  named : r.snapshot.id = id
  bare : r.snapshot.package = {}
  waits : WaitsInv .source r.snapshot
  unresolved : r.unresolved = StoredRun.unresolvedKeys r.snapshot.invocations

/-- A stored run whose counters are those of its snapshot. -/
structure Counted (id : RunId) (r : StoredRun) : Prop extends Kept id r where
  bytes : r.bytes = r.snapshot.retainedDataBytes

/-- Records that compare equal hold as many negative zeros as before, with the input of their
run: no float zero changes its sign alone. -/
def KeepsZeros (prev next : RunSnapshot) : Prop :=
  Same .source prev.invocations next.invocations → prev.negativeZeros = next.negativeZeros

/-- A commit keeps the negative zeros when each record and the input keep theirs. -/
theorem KeepsZeros.of_records {prev next : RunSnapshot} (hinput : prev.input = next.input)
    (h : ∀ key : String, prev.invocations[key]?.map InvocationRecord.negativeZeros =
      next.invocations[key]?.map InvocationRecord.negativeZeros) : KeepsZeros prev next := by
  intro _
  have hmaps : BTreeMap.mapValues InvocationRecord.negativeZeros prev.invocations =
      BTreeMap.mapValues InvocationRecord.negativeZeros next.invocations := by
    apply Std.ExtTreeMap.ext_getElem?
    intro key
    rw [BTreeMap.get_mapValues, BTreeMap.get_mapValues, h]
  have hsums := congrArg (BTreeMap.sumValues id) hmaps
  rw [BTreeMap.sumValues_mapValues, BTreeMap.sumValues_mapValues] at hsums
  simp only [RunSnapshot.negativeZeros, hinput]
  exact congrArg _ hsums

theorem KeepsZeros.of_eq {prev next : RunSnapshot} (hinput : prev.input = next.input)
    (h : prev.invocations = next.invocations) : KeepsZeros prev next :=
  .of_records hinput fun key => by rw [h]

/-- A record that is replaced with as many zeros. -/
theorem KeepsZeros.of_record {prev next : RunSnapshot} {key : String} {r r' : InvocationRecord}
    (hinput : prev.input = next.input) (hr : prev.invocations[key]? = some r)
    (hnext : next.invocations = prev.invocations.insert key r')
    (hzeros : r'.negativeZeros = r.negativeZeros) : KeepsZeros prev next := by
  refine .of_records hinput fun key' => ?_
  rw [hnext, BTreeMap.get_insert]
  split
  next heq =>
    rw [← heq, hr, Option.map_some, Option.map_some, hzeros]
  next => rfl

/-- Records that do not compare equal leave nothing to keep. -/
theorem KeepsZeros.of_state {prev next : RunSnapshot} {key : String} {r : InvocationRecord}
    (hr : next.invocations[key]? = some r)
    (hstate : ∀ old, prev.invocations[key]? = some old → old.state ≠ r.state) :
    KeepsZeros prev next := by
  intro hsame
  obtain ⟨old, hold, hrecord⟩ := same_some_iff.mp (hr ▸ hsame.get key)
  exact absurd (InvocationRecord.same_state hrecord) (hstate old hold)

/-- Whether a record is unresolved is no question of its documents. -/
theorem isUnresolved_of_same {c : Comparison} {r r' : InvocationRecord} (h : Same c r r') :
    r.isUnresolved = r'.isUnresolved :=
  h.exact fun r => by cases c <;> rfl

/-- Records that compare equal are unresolved alike. -/
theorem unresolvedKeys_of_same {c : Comparison} {m m' : BTreeMap String InvocationRecord}
    (h : Same c m m') : StoredRun.unresolvedKeys m = StoredRun.unresolvedKeys m' := by
  apply Std.ExtTreeSet.ext_mem
  intro key
  rw [StoredRun.mem_unresolvedKeys, StoredRun.mem_unresolvedKeys]
  constructor
  · rintro ⟨r, hr, hu⟩
    obtain ⟨r', hr', hsame⟩ := same_some_iff.mp (hr ▸ (h.get key).symm)
    exact ⟨r', hr', (isUnresolved_of_same hsame).trans hu⟩
  · rintro ⟨r, hr, hu⟩
    obtain ⟨r', hr', hsame⟩ := same_some_iff.mp (hr ▸ h.get key)
    exact ⟨r', hr', (isUnresolved_of_same hsame).trans hu⟩

namespace Kept

variable {id : RunId} {r : StoredRun}

/-- A new run has no unresolved record to index. -/
theorem new {snapshot : RunSnapshot} {package : ResolvedPackage} (hid : snapshot.id = id)
    (hp : snapshot.package = {}) (hw : WaitsInv .source snapshot) :
    Kept id (.new snapshot package) :=
  ⟨hid, hp, hw, rfl⟩

/-- A full commit recomputes the index, or keeps it with records that compare equal. -/
theorem after (h : Kept id r) {expected : UInt64} {next : RunSnapshot}
    (law : SuccessorLaw .source r.snapshot expected next) : Kept id (r.after next) := by
  have hid : next.id = id := law.id ▸ h.named
  have hp : next.package = {} := ResolvedPackage.same_empty (h.bare ▸ law.package.symm)
  unfold StoredRun.after
  split
  next hsame =>
    exact ⟨hid, hp, law.waits.inv, h.unresolved.trans (unresolvedKeys_of_same hsame)⟩
  next => exact new hid hp law.waits.inv

/-- One record that is replaced keeps the run in order. -/
theorem replaceRecord (h : Kept id r) {node : String} {record : InvocationRecord}
    {revision : UInt64} (hn : r.snapshot.NarrowReplacement .source node record) :
    Kept id (State.replaceRecord r node record revision) where
  named := h.named
  bare := h.bare
  waits := (h.waits.insertRecord hn).inv
  unresolved := by
    simp only [State.replaceRecord, RunSnapshot.insertRecord,
      StoredRun.unresolvedKeys_insert, h.unresolved]

/-- The package of a run says nothing about its waits. -/
theorem waits_materialize (h : Kept id r) : WaitsInv .source r.materialize where
  settled := h.waits.settled
  owned := h.waits.owned
  named := h.waits.named
  wait id w hw := by
    obtain ⟨record, law⟩ := h.waits.wait id w hw
    exact ⟨record, law.ordered, law.bounded, law.found, law.control, law.state,
      law.kind.of_same ⟨rfl, rfl, rfl, rfl, rfl, rfl⟩, law.output⟩

end Kept

namespace Counted

variable {id : RunId} {r : StoredRun}

/-- And it has counted nothing but its input. -/
theorem new {snapshot : RunSnapshot} {package : ResolvedPackage} (hid : snapshot.id = id)
    (hp : snapshot.package = {}) (hw : WaitsInv .source snapshot) :
    Counted id (.new snapshot package) :=
  ⟨.new hid hp hw, rfl⟩

/-- The bytes after a full commit are those of its snapshot exactly when records that compare
equal hold as many negative zeros as before. -/
theorem bytes_after (h : Counted id r) {expected : UInt64} {next : RunSnapshot}
    (law : SuccessorLaw .source r.snapshot expected next) :
    (r.after next).bytes = next.retainedDataBytes ↔ KeepsZeros r.snapshot next := by
  unfold StoredRun.after KeepsZeros
  split
  next hsame =>
    have hbytes := h.bytes
    rw [← RunSnapshot.carriedBytes_eq_iff law.input hsame]
    simp only [RunSnapshot.retainedDataBytes, law.artifacts] at hbytes ⊢
    simp only [hsame, true_imp_iff, hbytes]
    omega
  next hsame => exact ⟨fun _ h => absurd h hsame, fun _ => rfl⟩

/-- A full commit keeps the counters exact when it keeps the zeros or recounts. -/
theorem after (h : Counted id r) {expected : UInt64} {next : RunSnapshot}
    (law : SuccessorLaw .source r.snapshot expected next) (hzeros : KeepsZeros r.snapshot next) :
    Counted id (r.after next) where
  toKept := h.toKept.after law
  bytes := by
    rw [(h.bytes_after law).mpr hzeros, State.after_snapshot]

/-- A narrow commit changes the counters by the difference of one record. -/
theorem replaceRecord (h : Counted id r) {node : String} {record : InvocationRecord}
    {revision : UInt64} (hn : r.snapshot.NarrowReplacement .source node record) :
    Counted id (State.replaceRecord r node record revision) where
  toKept := h.toKept.replaceRecord hn
  bytes := by
    have hsum := BTreeMap.sumValues_insert InvocationRecord.retainedDataBytes
      r.snapshot.invocations node record
    have hle := BTreeMap.get_le_sumValues InvocationRecord.retainedDataBytes
      r.snapshot.invocations node
    have hres : (r.snapshot.insertRecord node record revision).retainedResultBytes =
        r.snapshot.retainedResultBytes := rfl
    simp only [State.replaceRecord, h.bytes, RunSnapshot.retainedDataBytes, hres,
      RunSnapshot.recordBytes]
    simp only [RunSnapshot.insertRecord]
    omega

/-- The head from the counters is the head of the snapshot. -/
theorem head (h : Counted id r) : r.head = r.materialize.head := by
  simp only [StoredRun.head, RunSnapshot.head, h.bytes, h.unresolved,
    StoredRun.size_unresolvedKeys]
  rfl

/-- So is the view of any node. -/
theorem view (h : Counted id r) (node : Option String) :
    r.view node = r.materialize.view node := by
  have hb : (r.view node).unresolvedDescendants = r.materialize.unresolvedBelow node := by
    cases node with
    | none =>
      rw [RunSnapshot.unresolvedBelow_none, StoredRun.view, h.unresolved,
        Std.ExtTreeSet.isEmpty_eq_size_beq_zero, StoredRun.size_unresolvedKeys]
      rfl
    | some key =>
      simp only [StoredRun.view, h.unresolved, RunSnapshot.unresolvedBelow]
      exact StoredRun.index_below r.snapshot.invocations key
  unfold RunSnapshot.view
  rw [← h.head, ← hb]
  rfl

end Counted

/-! ## Reachable states -/

/-- The states that calls of any callers lead to, collection included, when each call is allowed
in the state it finds. -/
inductive ReachedBy (allowed : State → Call → Prop) : State → Prop where
  | empty : ReachedBy allowed {}
  | called {s : State} (call : Call) (h : ReachedBy allowed s) (hcall : allowed s call) :
      ReachedBy allowed (s.perform call).1
  | collected {s : State} (owner : String) (now : UInt64) (limits : Limits)
      (h : ReachedBy allowed s) : ReachedBy allowed (s.collect owner now limits).1

/-- No full commit changes the sign of a float zero alone. -/
def Steady (s : State) : Call → Prop
  | .commit _ _ next => ∀ current, s.runs[next.id]? = some current →
      KeepsZeros current.snapshot next
  | _ => True

/-- The states that any calls lead to. -/
abbrev Reached : State → Prop := ReachedBy fun _ _ => True

/-- The states that steady calls lead to. -/
abbrev SteadilyReached : State → Prop := ReachedBy Steady

/-- Runs that are erased are gone, and the others stay. -/
theorem foldl_erase_get {β : Type} (ids : List RunId) (runs : BTreeMap RunId β) (id : RunId) :
    (ids.foldl (fun runs id => runs.erase id) runs)[id]? =
      if id ∈ ids then none else runs[id]? := by
  induction ids generalizing runs with
  | nil => simp
  | cons first rest ih =>
    rw [List.foldl_cons, ih, BTreeMap.get_erase]
    by_cases hrest : id ∈ rest
    · simp [hrest]
    · by_cases hfirst : first = id
      · simp [hfirst]
      · simp [hrest, hfirst, Ne.symm hfirst]

namespace State

/-- A collection succeeds for the owner, whatever it removes. -/
theorem collect_eq_ok {s s' : State} {owner : String} {now : UInt64} {limits : Limits} :
    s.collect owner now limits = (s', .ok ()) ↔
      s.owner = some owner ∧ s' = (s.collect owner now limits).1 := by
  unfold collect
  cases ha : s.authorize owner with
  | error e => simp [ne_of_authorize ha]
  | ok u => simp [authorize_eq_ok.mp ha, eq_comm]

/-- A collection only removes runs. -/
theorem collect_get {s : State} {owner : String} {now : UInt64} {limits : Limits} {id : RunId}
    {r : StoredRun} (h : (s.collect owner now limits).1.runs[id]? = some r) :
    s.runs[id]? = some r := by
  unfold collect at h
  split at h
  · exact h
  · dsimp only at h
    rw [foldl_erase_get] at h
    split at h
    · cases h
    · exact h

end State

/-- What a call leaves under an identity: the run it found there, or the one it wrote. -/
inductive Leaves (s : State) (id : RunId) : Call → StoredRun → Prop where
  | found {call : Call} {r : StoredRun} (h : s.runs[id]? = some r) : Leaves s id call r
  | created {owner : String} {run : RunSnapshot} {receipt : Option ReceiptReservation}
      {limits : Limits} (hid : run.id = id) (hi : run.InitialLaw) :
      Leaves s id (.create owner run receipt limits) (.new { run with package := {} } run.package)
  | committed {owner : String} {expected : UInt64} {next : RunSnapshot} {current : StoredRun}
      (hid : next.id = id) (hr : s.runs[id]? = some current)
      (law : SuccessorLaw .source current.snapshot expected { next with package := {} }) :
      Leaves s id (.commit owner expected next) (current.after { next with package := {} })
  | replaced {owner : String} {expected revision : UInt64} {node : String}
      {record : InvocationRecord} {current : StoredRun} (hr : s.runs[id]? = some current)
      (hn : current.snapshot.NarrowReplacement .source node record) :
      Leaves s id (.commitInvocation owner id expected node record)
        (State.replaceRecord current node record revision)

/-- What a call leaves of one stored run. -/
theorem State.perform_leaves {s : State} {call : Call} {id : RunId} {r : StoredRun}
    (hr : (s.perform call).1.runs[id]? = some r) : Leaves s id call r := by
  cases call with
  | claim owner => exact .found (State.claim_runs s owner ▸ hr)
  | release owner => exact .found (State.release_runs s owner ▸ hr)
  -- a start adds its own run
  | create owner run receipt limits =>
    obtain ⟨s', answer, hc⟩ : ∃ s' answer, s.create owner run receipt limits = (s', answer) :=
      ⟨_, _, rfl⟩
    simp only [State.perform, hc] at hr
    rcases State.create_wrote hc with ⟨_, hruns⟩ | ⟨rfl, _⟩
    · exact .found (hruns ▸ hr)
    · obtain ⟨_, _, _, hi, _, rfl⟩ := State.create_eq_created.mp hc
      rw [BTreeMap.get_insert] at hr
      split at hr
      next heq =>
        obtain rfl := Option.some.inj hr
        exact .created heq hi
      next => exact .found hr
  -- a commit replaces the run it names
  | commit owner expected next =>
    obtain ⟨s', answer, hc⟩ : ∃ s' answer, s.commit owner expected next = (s', answer) :=
      ⟨_, _, rfl⟩
    simp only [State.perform, hc] at hr
    rcases State.commit_wrote hc with ⟨_, rfl⟩ | ⟨rfl, _⟩
    · exact .found hr
    · obtain ⟨_, current, hcur, _, law, rfl⟩ := State.commit_eq_ok.mp hc
      rw [BTreeMap.get_insert] at hr
      split at hr
      next heq =>
        obtain rfl := Option.some.inj hr
        exact .committed heq (heq ▸ hcur) law
      next => exact .found hr
  -- a narrow one changes a record of it
  | commitInvocation owner run expected node record =>
    obtain ⟨s', answer, hc⟩ :
        ∃ s' answer, s.commitInvocation owner run expected node record = (s', answer) :=
      ⟨_, _, rfl⟩
    simp only [State.perform, hc] at hr
    rcases State.commitInvocation_wrote hc with ⟨_, rfl⟩ | ⟨⟨view, rfl⟩, _⟩
    · exact .found hr
    · obtain ⟨_, current, revision, hcur, _, hn, _, _, rfl⟩ :=
        State.commitInvocation_eq_ok.mp hc
      rw [BTreeMap.get_insert] at hr
      split at hr
      next heq =>
        obtain rfl := Option.some.inj hr
        subst heq
        exact .replaced hcur hn
      next => exact .found hr

/-- Every stored run is under its own identity, whatever the calls. -/
theorem ReachedBy.kept {allowed : State → Call → Prop} {s : State} (h : ReachedBy allowed s) :
    ∀ id r, s.runs[id]? = some r → Kept id r := by
  induction h with
  | empty => simp
  | called call _ _ ih =>
    intro id r hr
    cases State.perform_leaves hr with
    | found hr => exact ih id r hr
    | created hid hi => exact .new hid rfl (.empty hi.waits hi.invocations)
    | committed _ hcur law => exact (ih id _ hcur).after law
    | replaced hcur hn => exact (ih id _ hcur).replaceRecord hn
  | collected owner now limits _ ih => exact fun id r hr => ih id r (State.collect_get hr)

/-- A steady call keeps the counters of a stored run those of its snapshot. -/
theorem Counted.perform {s : State} {id : RunId} (h : ∀ r, s.runs[id]? = some r → Counted id r)
    {call : Call} (hcall : Steady s call) :
    ∀ r, (s.perform call).1.runs[id]? = some r → Counted id r := by
  intro r hr
  cases State.perform_leaves hr with
  | found hr => exact h r hr
  | created hid hi => exact .new hid rfl (.empty hi.waits hi.invocations)
  | committed hid hcur law => exact (h _ hcur).after law (hcall _ (hid ▸ hcur))
  | replaced hcur hn => exact (h _ hcur).replaceRecord hn

/-- After steady calls the counters of every stored run are those of its snapshot. -/
theorem ReachedBy.counted {s : State} (h : SteadilyReached s) :
    ∀ id r, s.runs[id]? = some r → Counted id r := by
  induction h with
  | empty => simp
  | called call _ hcall ih => exact fun id => Counted.perform (ih id) hcall
  | collected owner now limits _ ih => exact fun id r hr => ih id r (State.collect_get hr)

/-- A state that restricted calls lead to is reached. -/
theorem ReachedBy.any {allowed : State → Call → Prop} {s : State} (h : ReachedBy allowed s) :
    Reached s := by
  induction h with
  | empty => exact .empty
  | called call _ _ ih => exact .called call ih trivial
  | collected owner now limits _ ih => exact .collected owner now limits ih

/-- An allowed call leads from a reached state to a reached one. -/
theorem ReachedBy.perform {allowed : State → Call → Prop} {s s' : State}
    (h : ReachedBy allowed s) {call : Call} {reply : Except ForgeError Reply}
    (hcall : allowed s call) (hp : s.perform call = (s', reply)) : ReachedBy allowed s' := by
  have hs := ReachedBy.called call h hcall
  rwa [hp] at hs

/-! ## A replacement in terms of whole snapshots -/

namespace State

variable {s s' : State} {owner : String} {id : RunId} {expected : UInt64}

/-- An accepted commit replaces the run read at the expected revision, with the package that is
already there. -/
theorem commit_get {next : RunSnapshot} (h : s.commit owner expected next = (s', .ok ())) :
    ∃ prev, s.get next.id = some prev ∧ SuccessorLaw .source prev expected next ∧
      s'.get next.id = some { next with package := prev.package } := by
  obtain ⟨_, current, hcur, hp, law, rfl⟩ := commit_eq_ok.mp h
  refine ⟨current.materialize, by rw [get, hcur]; rfl, ?_, ?_⟩
  · exact SuccessorLaw.withPackage law hp
  · rw [get, BTreeMap.get_insert_self, Option.map_some, StoredRun.materialize, after_snapshot,
      after_package]
    rfl

/-- A view is that of the stored snapshot. -/
theorem view_eq (hc : ∀ r, s.runs[id]? = some r → Counted id r) (node : Option String) :
    s.view id node = (s.get id).map fun run => run.view node := by
  unfold view get
  cases hr : s.runs[id]? with
  | none => rfl
  | some r => exact congrArg some ((hc r hr).view node)

/-- An accepted narrow commit replaces one record of the run at the expected revision. -/
theorem commitInvocation_get {node : String} {record : InvocationRecord} {view : ExecutionView}
    (hc : ∀ r, s.runs[id]? = some r → Counted id r)
    (h : s.commitInvocation owner id expected node record = (s', .ok view)) :
    ∃ prev revision, s.get id = some prev ∧ prev.revision = expected ∧
      checkedAdd expected 1 = some revision ∧
      SuccessorLaw .source prev expected (prev.insertRecord node record revision) ∧
      s'.get id = some (prev.insertRecord node record revision) ∧
      view = (prev.insertRecord node record revision).view (some node) := by
  obtain ⟨_, current, revision, hcur, rfl, hn, hadd, rfl, rfl⟩ := commitInvocation_eq_ok.mp h
  have hcount := hc current hcur
  have hn' : current.materialize.NarrowReplacement .source node record :=
    ⟨hn.notWait, hn.oldNotWait, hn.live, hn.succeeded⟩
  refine ⟨current.materialize, revision, by rw [get, hcur]; rfl, rfl, hadd, ?_, ?_, ?_⟩
  · exact hcount.waits_materialize.insertRecord_successor hn' hadd
  · rw [get, BTreeMap.get_insert_self]
    rfl
  · exact (hcount.replaceRecord hn).view (some node)

end State

/-! ## The narrow path is the reference path -/

/-- In a counted state a full commit of one replaced record is accepted exactly when the narrow
commit of it is. -/
theorem commit_insertRecord {s s' : State} {current : StoredRun} {owner : String} {id : RunId}
    {node : String} {record : InvocationRecord} {revision : UInt64}
    (hr : s.runs[id]? = some current) (hc : Kept id current)
    (hn : current.snapshot.NarrowReplacement .source node record)
    (hrev : checkedAdd current.snapshot.revision 1 = some revision) :
    s.commit owner current.snapshot.revision
        (current.materialize.insertRecord node record revision) = (s', .ok ()) ↔
      s.owner = some owner ∧
        s' = { s with
          runs := s.runs.insert id
            (current.after (current.snapshot.insertRecord node record revision)) } := by
  have hid : current.materialize.id = id := hc.named
  -- the package is kept apart from the snapshot
  have hbare : { current.materialize.insertRecord node record revision with
      package := ({} : ResolvedPackage) } =
      current.snapshot.insertRecord node record revision := by
    rw [← hc.bare]
    rfl
  have law := hc.waits.insertRecord_successor hn hrev
  rw [State.commit_eq_ok]
  change _ ∧ (∃ c, s.runs[current.materialize.id]? = some c ∧
    Same .source c.package current.package ∧ _ ∧
    s' = { s with runs := s.runs.insert current.materialize.id _ }) ↔ _
  rw [hid, hr, hbare]
  simp only [Option.some.injEq, exists_eq_left', true_and, law, Same.refl]

/-- What the trait's own replacement accepts, and what it leaves. -/
theorem reference_iff {s t : State} {owner : String} {id : RunId} {expected : UInt64}
    {node : String} {record : InvocationRecord} {view : ExecutionView}
    (hkept : ∀ id r, s.runs[id]? = some r → Kept id r) :
    store.reference.commitInvocation s owner id expected node record = (t, .ok view) ↔
      s.owner = some owner ∧ ∃ current revision, s.runs[id]? = some current ∧
        current.snapshot.revision = expected ∧
        current.snapshot.NarrowReplacement .source node record ∧
        checkedAdd expected 1 = some revision ∧
        view = (current.materialize.insertRecord node record revision).view (some node) ∧
        t = { s with
          runs := s.runs.insert id
            (current.after (current.snapshot.insertRecord node record revision)) } := by
  change store.replaceByCommit s owner id expected node record = _ ↔ _
  rw [ExecutionStore.replaceByCommit_eq_ok]
  simp only [store, State.get]
  cases hr : s.runs[id]? with
  | none => simp
  | some current =>
    have hc := hkept id current hr
    simp only [Option.map_some, Except.ok.injEq, Option.some.injEq, exists_and_left,
      exists_eq_left']
    constructor
    · rintro ⟨hrev, hn, revision, hadd, rfl, hcommit⟩
      subst hrev
      -- the package is no part of the check
      have hn' : current.snapshot.NarrowReplacement .source node record :=
        ⟨hn.notWait, hn.oldNotWait, hn.live, hn.succeeded⟩
      obtain ⟨howner, rfl⟩ := (commit_insertRecord hr hc hn' hadd).mp hcommit
      exact ⟨howner, rfl, hn', revision, hadd, rfl, rfl⟩
    · rintro ⟨howner, hrev, hn, revision, hadd, rfl, rfl⟩
      subst hrev
      exact ⟨rfl, ⟨hn.notWait, hn.oldNotWait, hn.live, hn.succeeded⟩, revision, hadd, rfl,
        (commit_insertRecord hr hc hn hadd).mpr ⟨howner, rfl⟩⟩

/-- What holds of the narrow path whatever the calls before: it accepts what the trait's own
accepts, with the same snapshots, and the index of unresolved records is that of the
snapshot. -/
structure SamePaths (s : State) : Prop where
  accepts : ∀ owner id expected node record,
    (∃ s' view, store.commitInvocation s owner id expected node record = (s', .ok view)) ↔
      ∃ t view, store.reference.commitInvocation s owner id expected node record = (t, .ok view)
  leaves : ∀ owner id expected node record s' t view view',
    store.commitInvocation s owner id expected node record = (s', .ok view) →
    store.reference.commitInvocation s owner id expected node record = (t, .ok view') →
      ∀ i, s'.get i = t.get i
  index : ∀ (id : RunId) (r : StoredRun), s.runs[id]? = some r → ∀ key, key ∈ r.unresolved ↔
    ∃ record, r.snapshot.invocations[key]? = some record ∧ record.isUnresolved = true

/-- The two paths agree on a store whose runs are in order, whatever their counters say. -/
theorem SamePaths.of_kept {s : State} (hkept : ∀ id r, s.runs[id]? = some r → Kept id r) :
    SamePaths s where
  -- both paths accept under one condition
  accepts owner id expected node record := by
    constructor
    · rintro ⟨s', view, h⟩
      obtain ⟨howner, current, revision, hr, hrev, hn, hadd, _⟩ :=
        State.commitInvocation_eq_ok.mp h
      exact ⟨_, _, (reference_iff hkept).mpr
        ⟨howner, current, revision, hr, hrev, hn, hadd, rfl, rfl⟩⟩
    · rintro ⟨t, view, h⟩
      obtain ⟨howner, current, revision, hr, hrev, hn, hadd, _⟩ := (reference_iff hkept).mp h
      exact ⟨_, _, State.commitInvocation_eq_ok.mpr
        ⟨howner, current, revision, hr, hrev, hn, hadd, rfl, rfl⟩⟩
  -- and leave the same snapshots, whatever the counters beside them
  leaves owner id expected node record s' t view view' h h' i := by
    obtain ⟨_, current, revision, hr, _, _, hadd, _, rfl⟩ := State.commitInvocation_eq_ok.mp h
    obtain ⟨_, current', revision', hr', _, _, hadd', _, rfl⟩ := (reference_iff hkept).mp h'
    obtain rfl := Option.some.inj (hr.symm.trans hr')
    obtain rfl := Option.some.inj (hadd.symm.trans hadd')
    unfold State.get
    simp only [BTreeMap.get_insert]
    split
    · simp only [Option.map_some, StoredRun.materialize, State.after_snapshot,
        State.after_package]
      rfl
    · rfl
  index id r hr key := by
    rw [(hkept id r hr).unresolved]
    exact StoredRun.mem_unresolvedKeys

/-- The fast paths are those of the trait, with the same answers: the counters, the views and
the heads are those recomputed from the snapshots. -/
structure FastPaths (s : State) : Prop extends SamePaths s where
  answers : ∀ owner id expected node record view,
    (∃ s', store.commitInvocation s owner id expected node record = (s', .ok view)) ↔
      ∃ t, store.reference.commitInvocation s owner id expected node record = (t, .ok view)
  bytes : ∀ (id : RunId) (r : StoredRun), s.runs[id]? = some r →
    r.bytes = r.materialize.retainedDataBytes
  views : ∀ id node, store.view s id node = store.reference.view s id node
  heads : store.unfinishedHeads s = store.reference.unfinishedHeads s

/-- With exact counters the views and heads agree as well. -/
theorem FastPaths.of_counted {s : State} (hcount : ∀ id r, s.runs[id]? = some r → Counted id r) :
    FastPaths s where
  toSamePaths := .of_kept fun id r hr => (hcount id r hr).toKept
  answers owner id expected node record view := by
    have hkept := fun id r hr => (hcount id r hr).toKept
    -- the narrow commit and the full one accept the same records
    constructor
    · rintro ⟨s', h⟩
      obtain ⟨howner, current, revision, hr, hrev, hn, hadd, rfl, rfl⟩ :=
        State.commitInvocation_eq_ok.mp h
      exact ⟨_, (reference_iff hkept).mpr ⟨howner, current, revision, hr, hrev, hn, hadd,
        ((hcount id current hr).replaceRecord hn).view (some node), rfl⟩⟩
    · rintro ⟨t, h⟩
      obtain ⟨howner, current, revision, hr, hrev, hn, hadd, rfl, rfl⟩ :=
        (reference_iff hkept).mp h
      exact ⟨_, State.commitInvocation_eq_ok.mpr ⟨howner, current, revision, hr, hrev, hn, hadd,
        (((hcount id current hr).replaceRecord hn).view (some node)).symm, rfl⟩⟩
  bytes id r hr := (hcount id r hr).bytes
  views id node := congrArg Except.ok (State.view_eq (hcount id) node)
  heads := by
    -- heads are computed from counters that the invariant keeps
    change Except.ok s.unfinishedHeads = .ok (s.unfinished.map RunSnapshot.head)
    unfold State.unfinishedHeads State.unfinished
    rw [List.map_map]
    refine congrArg _ (List.map_congr_left fun r hr => ?_)
    obtain ⟨id, hid⟩ := BTreeMap.mem_valueList.mp (List.mem_of_mem_filter hr)
    exact (hcount id r hid).head

/-- An accepted call keeps the fast paths exactly when it is steady. -/
theorem fastPaths_iff {s s' : State} {call : Call} {reply : Reply}
    (hcount : ∀ id r, s.runs[id]? = some r → Counted id r)
    (hp : s.perform call = (s', .ok reply)) : FastPaths s' ↔ Steady s call := by
  constructor
  · intro h
    cases call with
    | commit owner expected next =>
      intro current hcur
      obtain ⟨t, answer, hc⟩ : ∃ t answer, s.commit owner expected next = (t, answer) :=
        ⟨_, _, rfl⟩
      simp only [State.perform, hc] at hp
      obtain ⟨rfl, hanswer⟩ := Prod.mk.inj hp
      cases answer with
      | error e => cases hanswer
      | ok u =>
        obtain ⟨_, r, hr, _, law, rfl⟩ := State.commit_eq_ok.mp hc
        obtain rfl := Option.some.inj (hcur.symm.trans hr)
        -- the counter the commit left is recomputed from its snapshot
        have hbytes := h.bytes next.id _ (BTreeMap.get_insert_self _ _ _)
        have hsnapshot := State.after_snapshot current { next with package := {} }
        refine ((hcount next.id current hcur).bytes_after law).mp (hbytes.trans ?_)
        unfold StoredRun.materialize
        rw [hsnapshot]
        rfl
    | _ => trivial
  · intro hcall
    have hs' : (s.perform call).1 = s' := by rw [hp]
    exact .of_counted (hs' ▸ fun id => Counted.perform (hcount id) hcall)

/-- The narrow path accepts what the trait's own accepts and leaves the same snapshots in every
reachable state. The kept counters, the views and the heads are those recomputed from the
snapshots after steady calls, and an accepted call that is not steady breaks them. -/
theorem fast_paths_match (s : State) :
    (Reached s → SamePaths s) ∧
      (SteadilyReached s → FastPaths s ∧ ∀ s' call reply, s.perform call = (s', .ok reply) →
        (FastPaths s' ↔ Steady s call)) :=
  ⟨fun h => .of_kept h.kept, fun h =>
    ⟨.of_counted h.counted, fun _ _ _ hp => fastPaths_iff h.counted hp⟩⟩

/-- A claimed store that holds one run. -/
def sampleStore : State :=
  ((State.perform {} (.claim "host")).1.perform (.create "host" sampleRun none {})).1

theorem sampleStore_reached : SteadilyReached sampleStore :=
  .called _ (.called _ .empty trivial) trivial

/-- The first record of the run by the narrow path, and by the trait's own with the same view;
the counters after it are those of the snapshot. -/
theorem fast_paths_match_sample :
    ∃ s' t view,
      store.commitInvocation sampleStore "host" "run" 0 "a" sampleRecord = (s', .ok view) ∧
      store.reference.commitInvocation sampleStore "host" "run" 0 "a" sampleRecord =
        (t, .ok view) ∧
      view.invocation = some sampleRecord ∧ FastPaths s' := by
  obtain ⟨s', view, hc, hv⟩ : ∃ s' view,
      store.commitInvocation sampleStore "host" "run" 0 "a" sampleRecord = (s', .ok view) ∧
        view.invocation = some sampleRecord := ⟨_, _, rfl, rfl⟩
  obtain ⟨t, ht⟩ := (((fast_paths_match sampleStore).2 sampleStore_reached).1.answers
    "host" "run" 0 "a" sampleRecord view).mp ⟨s', hc⟩
  refine ⟨s', t, view, hc, ht, hv, ?_⟩
  have hp : sampleStore.perform (.commitInvocation "host" "run" 0 "a" sampleRecord) =
      (s', .ok (some "run")) := by
    change (_, (sampleStore.commitInvocation "host" "run" 0 "a" sampleRecord).2.map _) = _
    rw [show sampleStore.commitInvocation "host" "run" 0 "a" sampleRecord = _ from hc]
    rfl
  exact (((fast_paths_match sampleStore).2 sampleStore_reached).2 _ _ _ hp).mpr trivial

/-- A record with the input `0.0`, then a full commit of it with `-0.0`. -/
def resignedStore : State :=
  ((sampleStore.perform (.commitInvocation "host" "run" 0 "a" (floatRecord "0.0"))).1.perform
    (.commit "host" 1 (sampleRun.insertRecord "a" (floatRecord "-0.0") 2))).1

/-- The full commit is accepted and keeps the counter of the three bytes of `0.0`. -/
theorem resigned_counter : ¬ ∀ s, Reached s → FastPaths s := by
  intro h
  have hreached : Reached resignedStore :=
    .called _ (.called _ (.called _ (.called _ .empty trivial) trivial) trivial) trivial
  obtain ⟨r, hr, hbytes, htotal⟩ : ∃ r, resignedStore.runs["run"]? = some r ∧ r.bytes = 15 ∧
      r.materialize.retainedDataBytes = 16 := ⟨_, rfl, by decide +kernel, by decide +kernel⟩
  have := (h _ hreached).bytes "run" r hr
  omega

end MemoryExecutionStore

end WorkflowForge
