import WorkflowForge.Sqlite.Receipts

/-!
# What the Tables Accept

A snapshot fits when no part of it reaches a limit that only the tables have: the budget of
a record, the range of a column, the pinning of artifacts, a document the codec loses. A
transaction on a snapshot that fits fails only where its own checks fail.

## Main results

- `create_fits`, `commit_fits`, `commitNode_fits`: the transactions, reduced to their checks.
-/

namespace WorkflowForge.Sqlite

open Lib

/-- No part of a snapshot reaches a limit of the tables. -/
structure Fits (cap : Nat) (s : RunSnapshot) : Prop where
  lossless : s.NoNullOutput
  artifacts : s.artifacts = []
  deliveries : ∀ (id : String) (w : WaitRecord) (d : SignalDelivery), s.waits[id]? = some w →
    w.delivery = some d → d.command.artifacts = []
  header : (envelope (serialize (Query.header s))).bytes ≤ cap
  records : ∀ (path : String) (r : InvocationRecord), s.invocations[path]? = some r →
    (envelope (serialize r)).bytes ≤ cap
  package : (envelope (serialize s.package)).bytes ≤ cap
  revision : s.revision.toNat < 2 ^ 63
  deadline : s.deadlineAtMs.toNat < 2 ^ 63
  retained : s.retainedDataBytes < 2 ^ 63
  count : s.invocations.size < 2 ^ 63
  finished : ∀ t ∈ s.finishedAtMs, t.toNat < 2 ^ 63
  wakeup : ∀ t ∈ s.nextWakeupAtMs, t.toNat < 2 ^ 63

section Fit

variable {hash : Value → String} {cap : Nat} {db : Db} {s : RunSnapshot}

theorem unresolvedCount_le (m : BTreeMap String InvocationRecord) :
    RunSnapshot.unresolvedCount m ≤ m.size := by
  unfold RunSnapshot.unresolvedCount BTreeMap.valueList
  refine (List.countP_le_length).trans ?_
  rw [List.length_map, Std.ExtTreeMap.length_toList]

theorem Fits.record_bytes (h : Fits cap s) {path : String} {r : InvocationRecord}
    (hr : s.invocations[path]? = some r) : r.retainedDataBytes < 2 ^ 63 := by
  have hpart := BTreeMap.get_le_sumValues InvocationRecord.retainedDataBytes s.invocations path
  have htotal := h.retained
  rw [hr] at hpart
  simp only [Option.map_some, Option.getD_some] at hpart
  simp only [RunSnapshot.retainedDataBytes, RunSnapshot.recordBytes] at htotal
  omega

theorem Fits.runRow (h : Fits cap s) (packageId : String) :
    ∃ row, Sqlite.runRow cap s packageId = .ok row := by
  have hbody : Query.headerBody s cap = .ok (envelope (serialize (Query.header s))) :=
    encode_eq_ok.mpr ⟨rfl, h.header⟩
  -- every column is within the signed range
  have hcolumns : storable ([s.revision.toNat, s.deadlineAtMs.toNat, s.head.retainedDataBytes,
      s.head.invocationCount, s.head.unresolvedInvocations]
      ++ (s.finishedAtMs.map UInt64.toNat).toList
      ++ (s.head.nextWakeupAtMs.map UInt64.toNat).toList) = .ok () := by
    have hcount := Nat.lt_of_le_of_lt (unresolvedCount_le s.invocations) h.count
    refine storable_eq_ok.mpr fun n hn => ?_
    simp only [List.mem_append, List.mem_cons, List.not_mem_nil, or_false, Option.mem_toList,
      Option.map_eq_some_iff] at hn
    rcases hn with ((rfl | rfl | rfl | rfl | rfl) | ⟨t, ht, rfl⟩) | ⟨t, ht, rfl⟩
    · exact h.revision
    · exact h.deadline
    · exact h.retained
    · exact h.count
    · exact hcount
    · exact h.finished t ht
    · exact h.wakeup t ht
  unfold Sqlite.runRow
  rw [hbody, ok_bind, hcolumns, ok_bind]
  exact ⟨_, rfl⟩

theorem Fits.writeNode (h : Fits cap s) {path : String} {r : InvocationRecord}
    (hr : s.invocations[path]? = some r) : ∃ row, Query.writeNode r cap = .ok row := by
  unfold Query.writeNode
  rw [(encode_eq_ok.mpr ⟨rfl, h.records path r hr⟩ : encode r cap = .ok _), ok_bind,
    storable_eq_ok.mpr (by simpa using h.record_bytes hr)]
  exact ⟨_, rfl⟩

/-- A package is interned unless its digest names another body. -/
theorem Fits.internPackage (h : Fits cap s)
    (hpackages : ∀ body, db.packages[hash (envelope (serialize s.package))]? = some body →
      body = envelope (serialize s.package)) :
    ∃ result, Sqlite.internPackage hash cap db s.package = .ok result := by
  unfold Sqlite.internPackage
  rw [(encode_eq_ok.mpr ⟨rfl, h.package⟩ : encode s.package cap = .ok _), ok_bind]
  dsimp only
  cases hfound : db.packages[hash (envelope (serialize s.package))]? with
  | none =>
    have hc : db.packages.contains (hash (envelope (serialize s.package))) = false := by
      rw [Std.ExtTreeMap.contains_eq_isSome_getElem?, hfound]
      rfl
    simp [hc]
  | some body =>
    have hc : db.packages.contains (hash (envelope (serialize s.package))) = true := by
      rw [Std.ExtTreeMap.contains_eq_isSome_getElem?, hfound]
      rfl
    have heq := hpackages body hfound
    simp [hc, hfound, heq]

theorem Fits.pinReferences (h : Fits cap s) (available : ArtifactRef → Except ForgeError Unit) :
    Sqlite.pinReferences available s.scope s.artifacts = .ok () := by
  rw [h.artifacts]
  rfl

theorem forM_eq_ok {α : Type} {f : α → Except ForgeError Unit} (l : List α)
    (h : ∀ a ∈ l, f a = .ok ()) : l.forM f = .ok () := by
  induction l with
  | nil => rfl
  | cons a l ih =>
    simp only [List.forM_eq_forM, List.forM_cons, h a (by simp), ok_bind]
    exact ih fun b hb => h b (List.mem_cons_of_mem _ hb)

theorem Fits.pinDeliveries (h : Fits cap s) (available : ArtifactRef → Except ForgeError Unit)
    (current : RunSnapshot) : Sqlite.pinDeliveries available current s = .ok () := by
  refine forM_eq_ok _ fun e he => ?_
  have hw := Std.ExtTreeMap.mem_toList_iff_getElem?_eq_some.mp he
  cases hd : e.2.delivery with
  | none => rfl
  | some d =>
    dsimp only
    rw [h.deliveries e.1 e.2 d hw hd]
    split <;> rfl

theorem writeNodes_ok (current : BTreeMap String InvocationRecord)
    (entries : List (String × InvocationRecord)) (rows : BTreeMap String InvocationRow)
    (h : ∀ e ∈ entries, ∃ row, Query.writeNode e.2 cap = .ok row) :
    ∃ rows', writeNodes cap current entries rows = .ok rows' := by
  induction entries generalizing rows with
  | nil => exact ⟨rows, rfl⟩
  | cons e entries ih =>
    have hrest := fun rows => ih rows fun e' he => h e' (List.mem_cons_of_mem _ he)
    unfold writeNodes
    split
    · exact hrest rows
    · obtain ⟨row, hrow⟩ := h e List.mem_cons_self
      rw [hrow, ok_bind]
      exact hrest _

/-- A reservation fits when its request and its expiry do. -/
structure ReservationFits (cap : Nat) (r : ReceiptReservation) : Prop where
  request : (envelope r.request).bytes ≤ cap
  expires : r.expiresAtMs.toNat < 2 ^ 63

theorem ReservationFits.receiptRows {receipt : Option ReceiptReservation} {scope : String}
    {id : RunId} (h : ∀ r ∈ receipt, ReservationFits cap r) :
    ∃ rows, receipt.toList.mapM (receiptRow cap scope id) = .ok rows := by
  cases receipt with
  | none => exact ⟨[], rfl⟩
  | some r =>
    have hrow : ∃ row, receiptRow cap scope id r = .ok row := by
      unfold receiptRow
      rw [(encode_eq_ok.mpr ⟨rfl, (h r rfl).request⟩ : encode r.request cap = .ok _), ok_bind,
        storable_eq_ok.mpr (by simpa using (h r rfl).expires)]
      exact ⟨_, rfl⟩
    obtain ⟨row, hrow⟩ := hrow
    rw [Option.toList_some, List.mapM_cons, hrow]
    exact ⟨[row], rfl⟩

end Fit

/-! ## Creation -/

section Create

variable {hash : Value → String} {cap : Nat} {available : ArtifactRef → Except ForgeError Unit}
  {db db' : Db} {run : RunSnapshot} {receipt : Option ReceiptReservation} {limits : Limits}

/-- The runs that are not terminal. -/
def Db.activeCount (db : Db) : Nat :=
  (BTreeMap.valueList db.runs).countP fun r => !terminalWords.contains r.state

/-- What a creation checks beyond its receipt. -/
structure CreationLaw (db : Db) (run : RunSnapshot) (limits : Limits) : Prop where
  capacity : db.activeCount < limits.activeRuns + limits.pendingRuns
  initial : run.InitialLaw
  fresh : db.runs[run.id]? = none

/-- An accepted creation that no receipt answered passed every check. -/
theorem create_checked {outcome : CreateOutcome}
    (hr : reserved cap (db.pruned run.createdAtMs) run.scope receipt limits = .ok none)
    (h : create hash cap db available run receipt limits = .ok (db', outcome)) :
    outcome = .created ∧ CreationLaw db run limits := by
  -- the one way through all checks creates
  have hcreated : outcome = .created ∧
      db.activeCount < limits.activeRuns + limits.pendingRuns := by
    obtain ⟨_, _, h⟩ := bind_eq_ok.mp h
    obtain ⟨answer, hanswer, h⟩ := bind_eq_ok.mp h
    obtain rfl : answer = none := Except.ok.inj (hanswer.symm.trans hr)
    obtain ⟨_, hcapacity, h⟩ := bind_eq_ok.mp h
    obtain ⟨_, _, h⟩ := bind_eq_ok.mp h
    obtain ⟨_, _, h⟩ := bind_eq_ok.mp h
    obtain ⟨_, _, h⟩ := bind_eq_ok.mp h
    obtain ⟨_, _, h⟩ := bind_eq_ok.mp h
    obtain ⟨_, _, h⟩ := bind_eq_ok.mp h
    obtain ⟨_, _, h⟩ := bind_eq_ok.mp h
    obtain ⟨_, _, h⟩ := bind_eq_ok.mp h
    exact ⟨(Prod.mk.inj (Except.ok.inj h)).2.symm, of_decide_eq_true (ensure_eq_ok.mp hcapacity)⟩
  obtain ⟨rfl, hcapacity⟩ := hcreated
  obtain ⟨hinitial, hfresh, _⟩ := create_eq_created h
  exact ⟨rfl, hcapacity, hinitial, hfresh⟩

/-- A creation that fits fails only where a check fails. -/
theorem create_fits (available : ArtifactRef → Except ForgeError Unit)
    (hs : run.createdAtMs.toNat < 2 ^ 63)
    (hr : reserved cap (db.pruned run.createdAtMs) run.scope receipt limits = .ok none)
    (hlaw : CreationLaw db run limits) (hfits : Fits cap run)
    (hreceipt : ∀ r ∈ receipt, ReservationFits cap r)
    (hpackages : ∀ body, db.packages[hash (envelope (serialize run.package))]? = some body →
      body = envelope (serialize run.package)) :
    ∃ db', create hash cap db available run receipt limits = .ok (db', .created) := by
  have hcapacity : ensure ((BTreeMap.valueList db.runs).countP
      (fun r => !terminalWords.contains r.state) < limits.activeRuns + limits.pendingRuns)
      (ForgeError.new "admission.full" "Run capacity is full") = .ok () :=
    ensure_eq_ok.mpr (decide_eq_true hlaw.capacity)
  -- the identity is free
  have hhead : Query.head (db.pruned run.createdAtMs) run.id = .ok none := by
    unfold Query.head
    rw [show (db.pruned run.createdAtMs).runs[run.id]? = none from hlaw.fresh]
  obtain ⟨⟨interned, packageId⟩, hintern⟩ :=
    @Fits.internPackage hash cap (db.pruned run.createdAtMs) run hfits hpackages
  obtain ⟨row, hrow⟩ := hfits.runRow packageId
  obtain ⟨rows, hrows⟩ := @ReservationFits.receiptRows cap receipt run.scope run.id hreceipt
  unfold Db.pruned at hhead hintern
  unfold create
  rw [storable_time hs, ok_bind]
  change ∃ db', (reserved cap (db.pruned run.createdAtMs) run.scope receipt limits >>= _) = _
  rw [hr, ok_bind]
  dsimp only
  rw [hcapacity, ok_bind, RunSnapshot.validateInitial_ok_iff.mpr hlaw.initial, ok_bind, hhead,
    ok_bind, hintern]
  simp only [Option.isNone_none, ensure_true, ok_bind, hrow, hfits.pinReferences, hrows]
  exact ⟨_, rfl⟩

end Create

/-! ## Reading what is represented -/

section Read

variable {hash : Value → String} {cap : Nat} {db : Db} {id : RunId} {s : RunSnapshot}

theorem Represents.node_ok (h : Represents hash cap db id s) (hs : s.NoNullOutput)
    (path : String) : Query.node db id path cap = .ok s.invocations[path]? := by
  rw [h.node_eq path]
  cases hr : s.invocations[path]? with
  | none => rfl
  | some r => simp only [if_neg (hs.2.1 path r hr)]

/-- The range query finds a row exactly when a descendant is unresolved. -/
theorem Represents.unresolvedBelow_eq (h : Represents hash cap db id s) (path : String) :
    Query.unresolvedBelow (db.rowsOf id) path = s.unresolvedBelow (some path) := by
  have hbelow : ∀ key : String, startsWith key (path ++ "/") = true ↔
      path ++ "/" ≤ key ∧ key < path ++ "0" := fun key =>
    List.isPrefixOf_iff_prefix.trans (prefix_slash_iff path key)
  rw [Bool.eq_iff_iff, Query.unresolvedBelow, RunSnapshot.unresolvedBelow, BTreeMap.any_iff,
    BTreeMap.any_iff]
  simp only [decide_eq_true_eq, Bool.and_eq_true, hbelow]
  constructor
  · rintro ⟨key, row, hrow, hu, hrange⟩
    obtain ⟨r, hr, hwrite⟩ := h.rows_hold (key, row)
      (Std.ExtTreeMap.mem_toList_iff_getElem?_eq_some.mpr hrow)
    exact ⟨key, r, hr, (writeNode_eq_ok hwrite).2.2 ▸ hu, hrange⟩
  · rintro ⟨key, r, hr, hu, hrange⟩
    obtain ⟨row, hrow, hwrite⟩ := h.records key r hr
    exact ⟨key, row, hrow, (writeNode_eq_ok hwrite).2.2 ▸ hu, hrange⟩

theorem Represents.view_eq (h : Represents hash cap db id s) (hs : s.NoNullOutput)
    (node : Option String) : Query.view db id node cap = .ok (some (s.view node)) := by
  unfold Query.view
  rw [h.head_eq, ok_bind]
  cases node with
  | none =>
    have hcount : (s.head.unresolvedInvocations ≠ 0 : Bool) = s.unresolvedBelow none := by
      rw [s.unresolvedBelow_none, Bool.eq_iff_iff, decide_eq_true_eq, bne_iff_ne]
      rfl
    simp only [hcount]
    rfl
  | some path =>
    simp only [h.node_ok hs path, ok_bind, h.unresolvedBelow_eq path]
    rfl

end Read

/-! ## Replacement -/

section Replace

variable {hash : Value → String} {cap : Nat} {available : ArtifactRef → Except ForgeError Unit}
  {db db' : Db} {s next : RunSnapshot} {expected : UInt64}

/-- A commit that fits under some package fails only where its check fails. -/
theorem commit_fits (available : ArtifactRef → Except ForgeError Unit)
    (h : Represents hash cap db next.id s) (hs : s.NoNullOutput)
    (law : SuccessorLaw .source s expected next) {package : ResolvedPackage}
    (hfits : Fits cap { next with package := package }) :
    ∃ db', commit hash cap db available expected next = .ok db' := by
  obtain ⟨old, hold, hheader, _⟩ := h.header
  obtain ⟨row, hrow⟩ : ∃ row, runRow cap next old.packageId = .ok row :=
    hfits.runRow old.packageId
  have hpins : pinDeliveries available s next = .ok () :=
    hfits.pinDeliveries available s
  have hrevision : ensure (old.revision = expected) conflict = .ok () :=
    ensure_eq_ok.mpr (decide_eq_true (hheader.revision.trans law.base))
  obtain ⟨rows, hrows⟩ := writeNodes_ok s.invocations next.invocations.toList
    (db.rowsOf next.id) fun e he =>
      hfits.writeNode (Std.ExtTreeMap.mem_toList_iff_getElem?_eq_some.mp he)
  unfold commit
  rw [h.run_eq_iff.mpr hs, ok_bind, hold]
  simp only [RunSnapshot.validateSuccessor_ok_iff.mpr law, ok_bind, hpins, hrow, hrevision, hrows]
  exact ⟨_, rfl⟩

variable {id : RunId} {path : String} {record : InvocationRecord}

theorem refusesNode_eq_false_iff :
    refusesNode s.head s.invocations[path]? expected record = false ↔
      s.revision = expected ∧ s.NarrowReplacement .source path record :=
  MemoryExecutionStore.State.refusesRecord_eq_false_iff

/-- A replacement of one record, on a run that reads back, passed the narrow check. -/
theorem commitNode_checked {view : ExecutionView} (h : Represents hash cap db id s)
    (hs : s.NoNullOutput) (hc : commitNode cap db id expected path record = .ok (db', view)) :
    s.revision = expected ∧ s.NarrowReplacement .source path record ∧
      ∃ revision, checkedAdd expected 1 = some revision := by
  obtain ⟨head, _, old, revision, _, hhead, _, hold, hrefuses, hrevision, _⟩ := commitNode_eq_ok hc
  rw [h.head_eq] at hhead
  obtain rfl := Option.some.inj (Except.ok.inj hhead)
  rw [h.node_ok hs path] at hold
  obtain rfl := Except.ok.inj hold
  obtain ⟨hbase, hnarrow⟩ := refusesNode_eq_false_iff.mp hrefuses
  exact ⟨hbase, hnarrow, revision, hrevision⟩

/-- A replacement of one record that fits fails only where the narrow check fails. -/
theorem commitNode_fits {content : RunId → Option RunSnapshot} {revision : UInt64}
    (h : Holds hash cap db content) (hcontent : content id = some s) (hs : s.NoNullOutput)
    (hbase : s.revision = expected) (hnarrow : s.NarrowReplacement .source path record)
    (hrevision : checkedAdd expected 1 = some revision)
    (hfits : Fits cap (s.insertRecord path record revision)) :
    ∃ db', commitNode cap db id expected path record =
      .ok (db', (s.insertRecord path record revision).view (some path)) := by
  have hrep := h.represents id s hcontent
  obtain ⟨row, hrow, hheader, _⟩ := hrep.header
  have hrecord : (s.insertRecord path record revision).invocations[path]? = some record := by
    rw [RunSnapshot.insertRecord_invocations, if_pos rfl]
  obtain ⟨node, hnode⟩ := hfits.writeNode hrecord
  have hnext := h.replaced path hcontent hrow (hbase ▸ hrevision) hnode
  have hrep' := hnext.represents id _ (Function.update_self ..)
  -- the columns are those of the new snapshot, which fits
  have hcolumns : storable [revision.toNat,
      (narrowRow row s.invocations[path]? record revision).retainedBytes,
      (narrowRow row s.invocations[path]? record revision).invocationCount,
      (narrowRow row s.invocations[path]? record revision).unresolvedCount] = .ok () := by
    have hnarrowed : HeaderRow cap (narrowRow row s.invocations[path]? record revision)
        (s.insertRecord path record revision) := hheader.narrow (hbase ▸ hrevision)
    refine storable_eq_ok.mpr fun n hn => ?_
    rw [hnarrowed.retained, hnarrowed.count, hnarrowed.unresolved] at hn
    simp only [List.mem_cons, List.not_mem_nil, or_false] at hn
    rcases hn with rfl | rfl | rfl | rfl
    · exact hfits.revision
    · exact hfits.retained
    · exact hfits.count
    · exact Nat.lt_of_le_of_lt (unresolvedCount_le _) hfits.count
  -- the guard of the statement is the narrow check
  have hrefuses : ensure (!refusesNode s.head s.invocations[path]? expected record) conflict =
      .ok () := by
    rw [refusesNode_eq_false_iff.mpr ⟨hbase, hnarrow⟩]
    rfl
  unfold commitNode
  rw [hrep.head_eq, ok_bind, hrow]
  simp only [hrep.node_ok hs path, ok_bind, hrefuses, hrevision, hnode]
  rw [show (narrowRow row s.invocations[path]? record revision).revision = revision from rfl,
    hcolumns, ok_bind, hrep'.view_eq hfits.lossless]
  exact ⟨_, rfl⟩

end Replace

end WorkflowForge.Sqlite
