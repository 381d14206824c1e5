import WorkflowForge.Sqlite.Store

/-!
# Reading Back What Was Written

The tables represent, for every run they hold, the snapshot that the last accepted
transaction on it wrote. Reading a run back rebuilds that snapshot exactly when none of its
optional documents is a present `null`: such a document is decoded as an absent one, the
recomputed columns miss its four bytes, and the reader reports a corruption.

## Main results

- `Reachable.represents`: every accepted transaction keeps the tables a representation.
- `Represents.node_eq`, `Represents.run_eq_iff`: what a represented record and run read as.
- `checkpoint_readback_iff`: the codec and the queries lose nothing exactly when there is no
  present `null`.
-/

namespace WorkflowForge

open Lib

/-! ## A stored value encodes like the value itself -/

@[simp] theorem serialize_dropNull (o : Option Value) :
    serialize (dropNull o) = serialize o := by
  cases o with
  | none => rfl
  | some v => cases v <;> rfl

@[simp] theorem AuditEntry.serialize_stored (e : AuditEntry) :
    serialize e.stored = serialize e := by
  cases e with
  | resolution a => rfl
  | late o =>
    change AuditEntry.toValue _ = AuditEntry.toValue _
    simp [stored, LateObservation.stored, toValue, LateObservation.toMembers]

namespace RunSnapshot

theorem jsonBytes_audit_stored (s : RunSnapshot) :
    jsonBytes s.stored.audit = jsonBytes s.audit := by
  have h : serialize s.stored.audit = serialize s.audit := by
    change Value.array _ = Value.array _
    simp [stored, List.map_map, Function.comp_def]
  rw [jsonBytes, h, jsonBytes]

/-- The payload of the stored header misses the four bytes of a lost `null`. -/
theorem stored_retainedResultBytes (s : RunSnapshot) :
    s.retainedResultBytes =
      s.stored.retainedResultBytes + if s.output = some .null then 4 else 0 := by
  have ha := s.jsonBytes_audit_stored
  by_cases h : s.output = some .null
  · have hn : jsonBytes Value.null = 4 := rfl
    have hd : s.stored.output = none := by simp [stored, h, dropNull, Option.filter]
    simp only [retainedResultBytes, ha, h, hd, if_true, Option.map_some, Option.map_none,
      Option.getD_some, Option.getD_none, hn]
    simp only [stored]
    omega
  · have hd : s.stored.output = s.output := dropNull_eq_self.mpr h
    simp only [retainedResultBytes, ha, h, hd, if_false]
    rfl

/-- The snapshot with other records. -/
def withRecords (s : RunSnapshot) (records : BTreeMap String InvocationRecord) : RunSnapshot :=
  { s with invocations := records }

/-- Storing a snapshot whose records lose nothing changes the header alone. -/
theorem stored_withRecords {s : RunSnapshot}
    (h : ∀ (path : String) (r : InvocationRecord), s.invocations[path]? = some r →
      r.output ≠ some .null) : s.stored.withRecords s.invocations = s.stored := by
  have : BTreeMap.mapValues InvocationRecord.stored s.invocations = s.invocations := by
    apply Std.ExtTreeMap.ext_getElem?
    intro path
    rw [BTreeMap.get_mapValues]
    cases hr : s.invocations[path]? with
    | none => rfl
    | some r => simp [InvocationRecord.stored_eq_self.mpr (h path r hr)]
  simp only [stored, withRecords, this]

/-- The head recomputed from the stored header is the head of the snapshot unless the output
is `null`. -/
theorem head_stored_eq_iff {s : RunSnapshot} :
    (s.stored.withRecords s.invocations).head = s.head ↔ s.output ≠ some .null := by
  -- a null output that is lost takes its four bytes with it
  have hbytes : (s.stored.withRecords s.invocations).retainedDataBytes +
      (if s.output = some .null then 4 else 0) = s.retainedDataBytes := by
    have hr := s.stored_retainedResultBytes
    have ht : (s.stored.withRecords s.invocations).retainedResultBytes =
        s.stored.retainedResultBytes := rfl
    have hi : (s.stored.withRecords s.invocations).input = s.input := rfl
    have ha : (s.stored.withRecords s.invocations).artifacts = s.artifacts := rfl
    have hm : (s.stored.withRecords s.invocations).invocations = s.invocations := rfl
    simp only [retainedDataBytes, ht, hr, hi, ha, hm]
    omega
  constructor
  · intro h hn
    have hb : (s.stored.withRecords s.invocations).retainedDataBytes = s.retainedDataBytes :=
      congrArg RunHead.retainedDataBytes h
    rw [if_pos hn] at hbytes
    omega
  · intro hn
    rw [if_neg hn, Nat.add_zero] at hbytes
    simp only [head, hbytes]
    rfl

end RunSnapshot

namespace Sqlite

/-! ## Representation -/

section Representation

variable (hash : Value → String) (cap : Nat)

/-- The row of a run holds the head of a snapshot, and an encoding of its header at this
revision or an earlier one. -/
structure HeaderRow (row : RunRow) (s : RunSnapshot) : Prop where
  scope : row.scope = s.scope
  revision : row.revision = s.revision
  state : row.state = s.state.word
  cancel : row.cancelRequested = s.cancelRequested
  deadline : row.deadlineAtMs = s.deadlineAtMs
  finished : row.finishedAtMs = s.finishedAtMs
  retained : row.retainedBytes = s.retainedDataBytes
  count : row.invocationCount = s.invocations.size
  unresolved : row.unresolvedCount = RunSnapshot.unresolvedCount s.invocations
  wakeup : row.nextWakeupAtMs = s.nextWakeupAtMs
  body : ∃ revision, revision ≤ s.revision ∧
    encode (Query.header { s with revision := revision }) cap = .ok row.body

/-- The tables hold a snapshot of a run. -/
structure Represents (db : Db) (id : RunId) (s : RunSnapshot) : Prop where
  named : s.id = id
  format : s.checkpointFormat = checkpointFormat
  header : ∃ row, db.runs[id]? = some row ∧ HeaderRow cap row s ∧
    ∃ body, db.packages[row.packageId]? = some body ∧ hash body = row.packageId ∧
      encode s.package cap = .ok body
  records : ∀ (path : String) (r : InvocationRecord), s.invocations[path]? = some r →
    ∃ row, (db.rowsOf id)[path]? = some row ∧ Query.writeNode r cap = .ok row
  others : ∀ path : String, s.invocations[path]? = none → (db.rowsOf id)[path]? = none

end Representation

/-! ## Reading a record -/

theorem writeNode_eq_ok {cap : Nat} {r : InvocationRecord} {row : InvocationRow}
    (h : Query.writeNode r cap = .ok row) :
    encode r cap = .ok row.body ∧ row.retainedBytes = r.retainedDataBytes ∧
      row.unresolved = r.isUnresolved := by
  obtain ⟨body, hbody, h⟩ := bind_eq_ok.mp h
  obtain ⟨_, _, h⟩ := bind_eq_ok.mp h
  obtain rfl := Except.ok.inj h
  exact ⟨hbody, rfl, rfl⟩

/-- A written row reads back as its record, unless the record's output is `null`. -/
theorem readRow_writeNode {cap : Nat} {r : InvocationRecord} {row : InvocationRow}
    (h : Query.writeNode r cap = .ok row) :
    Query.readRow row cap =
      if r.output = some .null then .error corrupt else .ok r := by
  obtain ⟨hbody, hbytes, hunresolved⟩ := writeNode_eq_ok h
  have hdecode : decode row.body cap = .ok r.stored := decode_encode hbody r.fromValue_toValue
  have hsize := r.stored_retainedDataBytes
  unfold Query.readRow
  rw [hdecode, ok_bind]
  by_cases hn : r.output = some .null
  · rw [if_pos hn] at hsize ⊢
    have hne : r.stored.retainedDataBytes ≠ row.retainedBytes := by omega
    simp [hne]
  · rw [if_neg hn]
    have hs : r.stored = r := InvocationRecord.stored_eq_self.mpr hn
    simp [hs, hbytes, hunresolved]

section Read

variable {hash : Value → String} {cap : Nat} {db : Db} {id : RunId} {s : RunSnapshot}

/-- What a represented record reads as. -/
theorem Represents.node_eq (h : Represents hash cap db id s) (path : String) :
    Query.node db id path cap =
      match s.invocations[path]? with
      | none => .ok none
      | some r => if r.output = some .null then .error corrupt else .ok (some r) := by
  unfold Query.node
  cases hr : s.invocations[path]? with
  | none => rw [h.others path hr]
  | some r =>
    obtain ⟨row, hrow, hwrite⟩ := h.records path r hr
    rw [hrow]
    simp only [readRow_writeNode hwrite]
    split <;> rfl

/-! ## Reading a run -/

/-- The columns of a run's row are the head of the snapshot it holds. -/
theorem HeaderRow.headOf {row : RunRow} (h : HeaderRow cap row s) :
    Query.headOf s.id row = .ok s.head := by
  simp only [Query.headOf, h.state, RunState.parse_word, h.scope, h.revision, h.cancel, h.deadline,
    h.retained, h.count, h.unresolved, h.wakeup, RunSnapshot.head]

theorem Represents.head_eq (h : Represents hash cap db id s) :
    Query.head db id = .ok (some s.head) := by
  obtain ⟨row, hrow, hheader, _⟩ := h.header
  have hh := hheader.headOf
  rw [h.named] at hh
  unfold Query.head
  rw [hrow]
  simp only [hh]
  rfl

/-- Rows that each hold a record of the snapshot read as those records. -/
theorem readRows_ok (rows : List (String × InvocationRow))
    (records : BTreeMap String InvocationRecord)
    (hrows : ∀ e ∈ rows, ∃ r, s.invocations[e.1]? = some r ∧ Query.writeNode r cap = .ok e.2)
    (hnull : ∀ (path : String) (r : InvocationRecord), s.invocations[path]? = some r →
      r.output ≠ some .null) :
    ∃ m, Query.readRows cap rows records = .ok m ∧ ∀ path : String,
      m[path]? = if path ∈ rows.map Prod.fst then s.invocations[path]? else records[path]? := by
  induction rows generalizing records with
  | nil => exact ⟨records, rfl, fun path => by simp⟩
  | cons e rows ih =>
    obtain ⟨key, row⟩ := e
    obtain ⟨r, hr, hwrite⟩ := hrows (key, row) (by simp)
    have hread : Query.readRow row cap = .ok r := by
      rw [readRow_writeNode hwrite, if_neg (hnull key r hr)]
    obtain ⟨m, hm, hlookup⟩ := ih (records.insert key r) fun e he => hrows e (by simp [he])
    refine ⟨m, ?_, fun path => ?_⟩
    · simp only [Query.readRows, hread]
      exact hm
    · rw [hlookup, BTreeMap.get_insert]
      -- the record just read, or one of the others
      by_cases hk : key = path
      · subst hk
        simp [hr]
      · have hmem : path ∈ ((key, row) :: rows).map Prod.fst ↔ path ∈ rows.map Prod.fst := by
          simp [Ne.symm hk]
        simp only [hmem, if_neg hk]

/-- Rows that each hold a record read as a corruption when some record's output is `null`. -/
theorem readRows_corrupt (rows : List (String × InvocationRow))
    (records : BTreeMap String InvocationRecord)
    (hrows : ∀ e ∈ rows, ∃ r, s.invocations[e.1]? = some r ∧ Query.writeNode r cap = .ok e.2)
    {key : String} {row : InvocationRow} {r : InvocationRecord} (hmem : (key, row) ∈ rows)
    (hr : s.invocations[key]? = some r) (hnull : r.output = some .null) :
    Query.readRows cap rows records = .error corrupt := by
  induction rows generalizing records with
  | nil => nomatch hmem
  | cons e rows ih =>
    obtain ⟨key', row'⟩ := e
    obtain ⟨r', hr', hwrite⟩ := hrows (key', row') (by simp)
    have hread := readRow_writeNode hwrite
    by_cases hn : r'.output = some .null
    · -- the first lost `null` already stops the reader
      rw [if_pos hn] at hread
      simp only [Query.readRows, hread]
      rfl
    · rw [if_neg hn] at hread
      -- the row in question comes later
      have hmem' : (key, row) ∈ rows := by
        rcases List.mem_cons.mp hmem with heq | hmem'
        · obtain ⟨rfl, rfl⟩ := Prod.mk.inj heq
          obtain rfl := Option.some.inj (hr.symm.trans hr')
          exact absurd hnull hn
        · exact hmem'
      simp only [Query.readRows, hread]
      exact ih _ (fun e he => hrows e (by simp [he])) hmem'

/-- Reading a represented run: rebuild the records, then compare the heads. -/
theorem Represents.run_reduce (h : Represents hash cap db id s) :
    Query.run hash db id cap = do
      let records ← Query.readRows cap (db.rowsOf id).toList ∅
      let run := s.stored.withRecords records
      ensure (run.head = s.head) corrupt
      return some run := by
  obtain ⟨row, hrow, hheader, body, hbody, hhash, hpackage⟩ := h.header
  obtain ⟨revision, hle, hencode⟩ := hheader.body
  have hdecode := decode_encode hencode (RunSnapshot.fromValue_toValue _)
  have hhead : Query.headOf id row = .ok s.head := h.named ▸ hheader.headOf
  have hformat : ensure ((Query.header { s with revision := revision }).stored.checkpointFormat =
      checkpointFormat) unsupported = .ok () := ensure_eq_ok.mpr (decide_eq_true h.format)
  -- the body was written at an earlier revision, its columns are up to date
  have hagree : Query.headerAgrees (Query.header { s with revision := revision }).stored s.head
      row.finishedAtMs = true := by
    have hempty : BTreeMap.mapValues InvocationRecord.stored
        (∅ : BTreeMap String InvocationRecord) = ∅ := by
      apply Std.ExtTreeMap.ext_getElem?
      simp
    simp [Query.headerAgrees, Query.header, RunSnapshot.stored, RunSnapshot.head, hheader.finished,
      hle, hempty]
  -- the package is found under its hash
  have hp : Query.package hash db row.packageId cap = .ok s.package := by
    unfold Query.package
    rw [hbody]
    simp only [hhash, ne_eq, not_true_eq_false, if_false]
    exact decode_encode hpackage (LawfulSerde.readsAs _)
  unfold Query.run
  simp only [hrow, hhead, ok_bind]
  rw [hdecode]
  simp only [ok_bind, hformat, ensure_true, hagree, hp]
  rfl

/-- Each row of a represented run holds a record of the snapshot. -/
theorem Represents.rows_hold (h : Represents hash cap db id s) :
    ∀ e ∈ (db.rowsOf id).toList,
      ∃ r, s.invocations[e.1]? = some r ∧ Query.writeNode r cap = .ok e.2 := by
  intro e he
  have hrow := Std.ExtTreeMap.mem_toList_iff_getElem?_eq_some.mp he
  cases hr : s.invocations[e.1]? with
  | none =>
    rw [h.others e.1 hr] at hrow
    nomatch hrow
  | some r =>
    obtain ⟨row, hrow', hwrite⟩ := h.records e.1 r hr
    obtain rfl := Option.some.inj (hrow.symm.trans hrow')
    exact ⟨r, rfl, hwrite⟩

/-- The records of a represented run, when none of them is lost. -/
theorem Represents.readRows_eq (h : Represents hash cap db id s)
    (hrecords : ∀ (path : String) (r : InvocationRecord), s.invocations[path]? = some r →
      r.output ≠ some .null) :
    Query.readRows cap (db.rowsOf id).toList ∅ = .ok s.invocations := by
  obtain ⟨m, hm, hlookup⟩ := readRows_ok (db.rowsOf id).toList ∅ h.rows_hold hrecords
  have hinv : m = s.invocations := by
    apply Std.ExtTreeMap.ext_getElem?
    intro path
    rw [hlookup]
    split
    next => rfl
    next hnot =>
      cases hr : s.invocations[path]? with
      | none => simp
      | some r =>
        obtain ⟨row, hrow, _⟩ := h.records path r hr
        refine absurd ?_ hnot
        exact List.mem_map.mpr
          ⟨(path, row), Std.ExtTreeMap.mem_toList_iff_getElem?_eq_some.mpr hrow, rfl⟩
  rw [hm, hinv]

/-- A represented run reads as its stored snapshot when no record and no output is `null`. -/
theorem Represents.run_ok (h : Represents hash cap db id s)
    (hrecords : ∀ (path : String) (r : InvocationRecord), s.invocations[path]? = some r →
      r.output ≠ some .null) (houtput : s.output ≠ some .null) :
    Query.run hash db id cap = .ok (some s.stored) := by
  have hstored := RunSnapshot.stored_withRecords hrecords
  have hhead := RunSnapshot.head_stored_eq_iff.mpr houtput
  rw [hstored] at hhead
  rw [h.run_reduce, h.readRows_eq hrecords, ok_bind]
  simp only [hstored, hhead, decide_true, ensure_true, ok_bind]
  rfl

/-- A represented run reads as a corruption as soon as a record's output or the run's own is
`null`. -/
theorem Represents.run_corrupt (h : Represents hash cap db id s)
    (hnull : (∃ (path : String) (r : InvocationRecord), s.invocations[path]? = some r ∧
      r.output = some .null) ∨ s.output = some .null) :
    Query.run hash db id cap = .error corrupt := by
  rw [h.run_reduce]
  by_cases hrecords : ∃ (path : String) (r : InvocationRecord),
      s.invocations[path]? = some r ∧ r.output = some .null
  · obtain ⟨path, r, hr, hn⟩ := hrecords
    obtain ⟨row, hrow, _⟩ := h.records path r hr
    have hmem := Std.ExtTreeMap.mem_toList_iff_getElem?_eq_some.mpr hrow
    rw [readRows_corrupt _ ∅ h.rows_hold hmem hr hn]
    rfl
  · have houtput := hnull.resolve_left hrecords
    have hrecords' : ∀ (path : String) (r : InvocationRecord), s.invocations[path]? = some r →
        r.output ≠ some .null := fun path r hr hn => hrecords ⟨path, r, hr, hn⟩
    have hhead : ¬(s.stored.withRecords s.invocations).head = s.head := fun hc =>
      RunSnapshot.head_stored_eq_iff.mp hc houtput
    rw [h.readRows_eq hrecords', ok_bind]
    simp only [hhead, decide_false, ensure_false, error_bind]

/-- A represented run that reads at all reads as its stored snapshot. -/
theorem Represents.run_eq_ok (h : Represents hash cap db id s) {t : Option RunSnapshot}
    (ht : Query.run hash db id cap = .ok t) :
    t = some s.stored ∧ s.output ≠ some .null ∧
      ∀ (path : String) (r : InvocationRecord), s.invocations[path]? = some r →
        r.output ≠ some .null := by
  by_cases hnull : (∃ (path : String) (r : InvocationRecord), s.invocations[path]? = some r ∧
      r.output = some .null) ∨ s.output = some .null
  · rw [h.run_corrupt hnull] at ht
    nomatch ht
  · obtain ⟨hrecords, houtput⟩ := not_or.mp hnull
    have hrecords' : ∀ (path : String) (r : InvocationRecord), s.invocations[path]? = some r →
        r.output ≠ some .null := fun path r hr hn => hrecords ⟨path, r, hr, hn⟩
    rw [h.run_ok hrecords' houtput] at ht
    exact ⟨(Except.ok.inj ht).symm, houtput, hrecords'⟩

/-- A represented run reads back as itself exactly when it has no present `null`. -/
theorem Represents.run_eq_iff (h : Represents hash cap db id s) :
    Query.run hash db id cap = .ok (some s) ↔ s.NoNullOutput := by
  constructor
  · intro ht
    obtain ⟨heq, _, _⟩ := h.run_eq_ok ht
    exact RunSnapshot.stored_eq_self.mp (Option.some.inj heq).symm
  · intro hn
    rw [h.run_ok hn.2.1 hn.1, RunSnapshot.stored_eq_self.mpr hn]

end Read

/-! ## What each transaction writes -/

section Write

variable {hash : Value → String} {cap : Nat}

theorem runRow_eq_ok {run : RunSnapshot} {packageId : String} {row : RunRow}
    (h : runRow cap run packageId = .ok row) :
    HeaderRow cap row run ∧ row.packageId = packageId := by
  obtain ⟨body, hbody, h⟩ := bind_eq_ok.mp h
  obtain ⟨_, _, h⟩ := bind_eq_ok.mp h
  obtain rfl := Except.ok.inj h
  exact ⟨⟨rfl, rfl, rfl, rfl, rfl, rfl, rfl, rfl, rfl, rfl, run.revision, UInt64.le_refl _,
    hbody⟩, rfl⟩

/-- An interned package is found under its digest; other packages stay. -/
theorem internPackage_eq_ok {db db' : Db} {package : ResolvedPackage} {id : String}
    (h : internPackage hash cap db package = .ok (db', id)) :
    (∃ body, db'.packages[id]? = some body ∧ hash body = id ∧
      encode package cap = .ok body) ∧
      (∀ (id' : String) (body : Value), db.packages[id']? = some body →
        db'.packages[id']? = some body) ∧
      db'.runs = db.runs ∧ db'.invocations = db.invocations := by
  obtain ⟨body, hbody, h⟩ := bind_eq_ok.mp h
  obtain ⟨_, hcheck, h⟩ := bind_eq_ok.mp h
  obtain ⟨rfl, rfl⟩ := Prod.mk.inj (Except.ok.inj h)
  have hfound := of_decide_eq_true (ensure_eq_ok.mp hcheck)
  refine ⟨⟨body, hfound, rfl, hbody⟩, fun id' body' hb => ?_, rfl, rfl⟩
  dsimp only
  split
  · exact hb
  -- a new package is inserted beside the others
  next hfresh =>
    rw [BTreeMap.get_insert_ne _ _ fun heq => ?_]
    · exact hb
    · subst heq
      rw [Std.ExtTreeMap.contains_eq_isSome_getElem?, hb] at hfresh
      exact hfresh rfl

/-- Rewriting the records that differ: a listed record has its own row afterwards, or the row
that is there when it compares equal. -/
theorem writeNodes_eq_ok {current : BTreeMap String InvocationRecord}
    {records : List (String × InvocationRecord)} {rows rows' : BTreeMap String InvocationRow}
    (hkeys : (records.map Prod.fst).Nodup)
    (h : writeNodes cap current records rows = .ok rows') :
    (∀ e ∈ records,
      (Same .source current[e.1]? (some e.2) → rows'[e.1]? = rows[e.1]?) ∧
      (¬ Same .source current[e.1]? (some e.2) →
        ∃ row, rows'[e.1]? = some row ∧ Query.writeNode e.2 cap = .ok row)) ∧
      ∀ path : String, path ∉ records.map Prod.fst → rows'[path]? = rows[path]? := by
  induction records generalizing rows with
  | nil =>
    obtain rfl := Except.ok.inj h
    exact ⟨by simp, fun _ _ => rfl⟩
  | cons e records ih =>
    obtain ⟨path, record⟩ := e
    obtain ⟨hnot, hrest⟩ := List.nodup_cons.mp hkeys
    -- whichever way this record is handled, the rest leaves its row alone
    have finish : ∀ next : BTreeMap String InvocationRow,
        (Same .source current[path]? (some record) → next[path]? = rows[path]?) →
        (¬ Same .source current[path]? (some record) →
          ∃ row, next[path]? = some row ∧ Query.writeNode record cap = .ok row) →
        (∀ p : String, p ≠ path → next[p]? = rows[p]?) →
        writeNodes cap current records next = .ok rows' →
        (∀ e ∈ (path, record) :: records,
          (Same .source current[e.1]? (some e.2) → rows'[e.1]? = rows[e.1]?) ∧
          (¬ Same .source current[e.1]? (some e.2) →
            ∃ row, rows'[e.1]? = some row ∧ Query.writeNode e.2 cap = .ok row)) ∧
          ∀ p : String, p ∉ ((path, record) :: records).map Prod.fst →
            rows'[p]? = rows[p]? := by
      intro next hsame hself hother hnext
      obtain ⟨hin, hout⟩ := ih hrest hnext
      constructor
      · intro e he
        rcases List.mem_cons.mp he with rfl | he
        · rw [hout path hnot]
          exact ⟨hsame, hself⟩
        · have hne : e.1 ≠ path := fun heq => hnot (heq ▸ List.mem_map.mpr ⟨e, he, rfl⟩)
          rw [← hother e.1 hne]
          exact hin e he
      · intro p hp
        simp only [List.map_cons, List.mem_cons, not_or] at hp
        rw [hout p hp.2, hother p hp.1]
    unfold writeNodes at h
    split at h
    next hc => exact finish rows (fun _ => rfl) (fun hn => absurd hc hn) (fun _ _ => rfl) h
    next hc =>
      obtain ⟨row, hrow, h⟩ := bind_eq_ok.mp h
      exact finish (rows.insert path row) (fun hs => absurd hs hc) (fun _ => ⟨row, by simp, hrow⟩)
        (fun p hp => BTreeMap.get_insert_ne _ _ (Ne.symm hp)) h

theorem deleteNodes_get (next : BTreeMap String InvocationRecord) (paths : List String)
    (rows : BTreeMap String InvocationRow) (path : String) :
    (deleteNodes next paths rows)[path]? =
      if path ∈ paths ∧ next[path]? = none then none else rows[path]? := by
  induction paths generalizing rows with
  | nil => simp [deleteNodes]
  | cons p paths ih =>
    unfold deleteNodes
    rw [ih]
    have hc : next.contains p = next[p]?.isSome := Std.ExtTreeMap.contains_eq_isSome_getElem?
    by_cases hp : p = path
    · subst hp
      cases hn : next[p]? with
      | none => by_cases hm : p ∈ paths <;> simp [hc, hn, hm]
      | some r => simp [hc, hn]
    · have hp' : ¬path = p := fun h => hp h.symm
      cases hn : next.contains p <;> simp [hp, hp', Std.ExtTreeMap.getElem?_erase]

/-- What an accepted creation wrote. -/
theorem create_eq_created {db db' : Db} {available : ArtifactRef → Except ForgeError Unit}
    {run : RunSnapshot} {receipt : Option ReceiptReservation} {limits : Limits}
    (h : create hash cap db available run receipt limits = .ok (db', .created)) :
    run.InitialLaw ∧ db.runs[run.id]? = none ∧
      (∀ (id : String) (body : Value), db.packages[id]? = some body →
        db'.packages[id]? = some body) ∧
      ∃ packageId row body, db'.packages[packageId]? = some body ∧ hash body = packageId ∧
        encode run.package cap = .ok body ∧ runRow cap run packageId = .ok row ∧
        db'.runs = db.runs.insert run.id row ∧ db'.invocations = db.invocations := by
  obtain ⟨_, _, h⟩ := bind_eq_ok.mp h
  obtain ⟨outcome, hreserved, h⟩ := bind_eq_ok.mp h
  cases outcome with
  | some outcome =>
    -- a receipt answers with a duplicate, never with a creation
    obtain ⟨-, rfl⟩ := Prod.mk.inj (Except.ok.inj h)
    unfold reserved at hreserved
    split at hreserved
    · nomatch hreserved
    · split at hreserved
      · obtain ⟨_, _, hreserved⟩ := bind_eq_ok.mp hreserved
        obtain ⟨_, _, hreserved⟩ := bind_eq_ok.mp hreserved
        nomatch hreserved
      · split at hreserved <;> nomatch hreserved
  | none =>
    obtain ⟨_, _, h⟩ := bind_eq_ok.mp h
    obtain ⟨_, hinitial, h⟩ := bind_eq_ok.mp h
    obtain ⟨previous, hprevious, h⟩ := bind_eq_ok.mp h
    obtain ⟨_, hnone, h⟩ := bind_eq_ok.mp h
    obtain ⟨⟨interned, packageId⟩, hintern, h⟩ := bind_eq_ok.mp h
    obtain ⟨row, hrow, h⟩ := bind_eq_ok.mp h
    obtain ⟨_, _, h⟩ := bind_eq_ok.mp h
    obtain ⟨receipts, _, h⟩ := bind_eq_ok.mp h
    obtain ⟨rfl, -⟩ := Prod.mk.inj (Except.ok.inj h)
    obtain ⟨⟨body, hfound, hhash, hencode⟩, hkept, hruns, hinvocations⟩ :=
      internPackage_eq_ok hintern
    refine ⟨RunSnapshot.validateInitial_ok_iff.mp hinitial, ?_, hkept, packageId, row, body, hfound,
      hhash, hencode, hrow, ?_, ?_⟩
    · have hp : previous = none := by simpa using ensure_eq_ok.mp hnone
      subst hp
      unfold Query.head at hprevious
      split at hprevious
      next hn => exact hn
      next row' _ =>
        cases hh : Query.headOf run.id row' with
        | error e =>
          rw [hh] at hprevious
          nomatch hprevious
        | ok head =>
          rw [hh] at hprevious
          nomatch hprevious
    · exact congrArg (fun runs => Std.ExtTreeMap.insert runs run.id row) hruns
    · exact hinvocations

/-- A creation that found a receipt wrote no run. -/
theorem create_eq_duplicate {db db' : Db} {available : ArtifactRef → Except ForgeError Unit}
    {run : RunSnapshot} {receipt : Option ReceiptReservation} {limits : Limits} {id : RunId}
    {expiry : UInt64}
    (h : create hash cap db available run receipt limits = .ok (db', .duplicate id expiry)) :
    db'.runs = db.runs ∧ db'.invocations = db.invocations ∧ db'.packages = db.packages := by
  obtain ⟨_, _, h⟩ := bind_eq_ok.mp h
  obtain ⟨outcome, _, h⟩ := bind_eq_ok.mp h
  cases outcome with
  | some outcome =>
    obtain ⟨rfl, -⟩ := Prod.mk.inj (Except.ok.inj h)
    exact ⟨rfl, rfl, rfl⟩
  -- past the receipts a start is created or fails
  | none =>
    obtain ⟨_, _, h⟩ := bind_eq_ok.mp h
    obtain ⟨_, _, h⟩ := bind_eq_ok.mp h
    obtain ⟨_, _, h⟩ := bind_eq_ok.mp h
    obtain ⟨_, _, h⟩ := bind_eq_ok.mp h
    obtain ⟨_, _, h⟩ := bind_eq_ok.mp h
    obtain ⟨_, _, h⟩ := bind_eq_ok.mp h
    obtain ⟨_, _, h⟩ := bind_eq_ok.mp h
    obtain ⟨_, _, h⟩ := bind_eq_ok.mp h
    nomatch (Prod.mk.inj (Except.ok.inj h)).2

/-- What an accepted replacement read and wrote. -/
theorem commit_eq_ok {db db' : Db} {available : ArtifactRef → Except ForgeError Unit}
    {expected : UInt64} {next : RunSnapshot}
    (h : commit hash cap db available expected next = .ok db') :
    ∃ current old row rows, Query.run hash db next.id cap = .ok (some current) ∧
      db.runs[next.id]? = some old ∧ SuccessorLaw .source current expected next ∧
      runRow cap next old.packageId = .ok row ∧
      writeNodes cap current.invocations next.invocations.toList (db.rowsOf next.id) = .ok rows ∧
      db' = { db with
        runs := db.runs.insert next.id
          { row with scope := old.scope, deadlineAtMs := old.deadlineAtMs }
        invocations := db.invocations.insert next.id
          (deleteNodes next.invocations current.invocations.keys rows) } := by
  obtain ⟨current, hcurrent, h⟩ := bind_eq_ok.mp h
  split at h
  -- the row is rewritten, except for scope and deadline
  next current old hold =>
    obtain ⟨_, hvalid, h⟩ := bind_eq_ok.mp h
    obtain ⟨_, _, h⟩ := bind_eq_ok.mp h
    obtain ⟨row, hrow, h⟩ := bind_eq_ok.mp h
    obtain ⟨_, _, h⟩ := bind_eq_ok.mp h
    obtain ⟨rows, hrows, h⟩ := bind_eq_ok.mp h
    exact ⟨current, old, row, rows, hcurrent, hold, RunSnapshot.validateSuccessor_ok_iff.mp hvalid,
      hrow, hrows, (Except.ok.inj h).symm⟩
  next => nomatch h

/-- What an accepted replacement of one record read and wrote. -/
theorem commitNode_eq_ok {db db' : Db} {id : RunId} {expected : UInt64} {path : String}
    {record : InvocationRecord} {view : ExecutionView}
    (h : commitNode cap db id expected path record = .ok (db', view)) :
    ∃ head row old revision node, Query.head db id = .ok (some head) ∧
      db.runs[id]? = some row ∧ Query.node db id path cap = .ok old ∧
      refusesNode head old expected record = false ∧ checkedAdd expected 1 = some revision ∧
      Query.writeNode record cap = .ok node ∧
      db' = { db with
        runs := db.runs.insert id (narrowRow row old record revision)
        invocations := db.invocations.insert id ((db.rowsOf id).insert path node) } := by
  obtain ⟨head, hhead, h⟩ := bind_eq_ok.mp h
  split at h
  next head row hrow =>
    obtain ⟨old, hold, h⟩ := bind_eq_ok.mp h
    obtain ⟨_, hrefuses, h⟩ := bind_eq_ok.mp h
    split at h
    · nomatch h
    -- the revision has a successor, or nothing is written
    next revision hrevision =>
      obtain ⟨_, _, h⟩ := bind_eq_ok.mp h
      obtain ⟨node, hnode, h⟩ := bind_eq_ok.mp h
      obtain ⟨view', _, h⟩ := bind_eq_ok.mp h
      cases view' with
      | none => nomatch h
      | some view' =>
        obtain ⟨rfl, -⟩ := Prod.mk.inj (Except.ok.inj h)
        exact ⟨head, row, old, revision, node, hhead, hrow, hold,
          by simpa using ensure_eq_ok.mp hrefuses, hrevision, hnode, rfl⟩
  next => nomatch h

end Write

/-! ## Every accepted transaction keeps the representation -/

section Reach

variable {hash : Value → String} {cap : Nat}

/-- No record that compares equal to the one before has another text: no float zero of a record
changes its sign alone. -/
def KeepsTexts (prev next : BTreeMap String InvocationRecord) : Prop :=
  ∀ (path : String) (r r' : InvocationRecord), prev[path]? = some r → next[path]? = some r' →
    Same .source r r' → r = r'

/-- The tables after accepted transactions, with the snapshot last written for each run. A run
keeps the package it was created with. -/
inductive Reachable (hash : Value → String) (cap : Nat) :
    Db → (RunId → Option RunSnapshot) → Prop where
  | empty : Reachable hash cap {} fun _ => none
  | created {db db' : Db} {content : RunId → Option RunSnapshot}
      {available : ArtifactRef → Except ForgeError Unit} {run : RunSnapshot}
      {receipt : Option ReceiptReservation} {limits : Limits} :
      Reachable hash cap db content →
      create hash cap db available run receipt limits = .ok (db', .created) →
      Reachable hash cap db' (Function.update content run.id (some run))
  | duplicate {db db' : Db} {content : RunId → Option RunSnapshot}
      {available : ArtifactRef → Except ForgeError Unit} {run : RunSnapshot}
      {receipt : Option ReceiptReservation} {limits : Limits} {id : RunId} {expiry : UInt64} :
      Reachable hash cap db content →
      create hash cap db available run receipt limits = .ok (db', .duplicate id expiry) →
      Reachable hash cap db' content
  | committed {db db' : Db} {content : RunId → Option RunSnapshot}
      {available : ArtifactRef → Except ForgeError Unit} {expected : UInt64}
      {next s : RunSnapshot} :
      Reachable hash cap db content →
      commit hash cap db available expected next = .ok db' → content next.id = some s →
      KeepsTexts s.invocations next.invocations →
      Reachable hash cap db'
        (Function.update content next.id (some { next with package := s.package }))
  | narrowed {db db' : Db} {content : RunId → Option RunSnapshot} {id : RunId}
      {expected revision : UInt64} {path : String} {record : InvocationRecord}
      {view : ExecutionView} {s : RunSnapshot} :
      Reachable hash cap db content →
      commitNode cap db id expected path record = .ok (db', view) → content id = some s →
      checkedAdd expected 1 = some revision →
      Reachable hash cap db'
        (Function.update content id (some (s.insertRecord path record revision)))

/-- The tables hold exactly the runs that were written, each as it was last written. -/
structure Holds (hash : Value → String) (cap : Nat) (db : Db)
    (content : RunId → Option RunSnapshot) : Prop where
  represents : ∀ (id : RunId) (s : RunSnapshot), content id = some s →
    Represents hash cap db id s
  absent : ∀ id : RunId, content id = none → db.runs[id]? = none ∧ db.rowsOf id = ∅

/-- A run is represented as long as its row, its records and its package stay. -/
theorem Represents.frame {db db' : Db} {id : RunId} {s : RunSnapshot}
    (h : Represents hash cap db id s) (hrow : db'.runs[id]? = db.runs[id]?)
    (hrows : db'.rowsOf id = db.rowsOf id)
    (hpackages : ∀ (id' : String) (body : Value), db.packages[id']? = some body →
      db'.packages[id']? = some body) : Represents hash cap db' id s := by
  obtain ⟨row, hfound, hheader, body, hbody, hhash, hencode⟩ := h.header
  exact ⟨h.named, h.format,
    ⟨row, hrow.trans hfound, hheader, body, hpackages _ _ hbody, hhash, hencode⟩,
    fun path r hr => hrows ▸ h.records path r hr, fun path hr => hrows ▸ h.others path hr⟩

/-- Whatever happens to one run leaves the others as they were. -/
theorem Holds.update {db db' : Db} {content : RunId → Option RunSnapshot} {id : RunId}
    {s : RunSnapshot} (h : Holds hash cap db content) (hs : Represents hash cap db' id s)
    (hrow : ∀ id' : RunId, id' ≠ id → db'.runs[id']? = db.runs[id']?)
    (hrows : ∀ id' : RunId, id' ≠ id → db'.rowsOf id' = db.rowsOf id')
    (hpackages : ∀ (id' : String) (body : Value), db.packages[id']? = some body →
      db'.packages[id']? = some body) :
    Holds hash cap db' (Function.update content id (some s)) where
  represents id' s' hs' := by
    by_cases hid : id' = id
    · subst hid
      rw [Function.update_self] at hs'
      obtain rfl := Option.some.inj hs'
      exact hs
    · rw [Function.update_of_ne hid] at hs'
      exact (h.represents id' s' hs').frame (hrow id' hid) (hrows id' hid) hpackages
  absent id' hs' := by
    by_cases hid : id' = id
    · subst hid
      rw [Function.update_self] at hs'
      nomatch hs'
    · rw [Function.update_of_ne hid] at hs'
      rw [hrow id' hid, hrows id' hid]
      exact h.absent id' hs'

theorem Holds.created {db db' : Db} {content : RunId → Option RunSnapshot}
    {available : ArtifactRef → Except ForgeError Unit} {run : RunSnapshot}
    {receipt : Option ReceiptReservation} {limits : Limits} (h : Holds hash cap db content)
    (hc : create hash cap db available run receipt limits = .ok (db', .created)) :
    Holds hash cap db' (Function.update content run.id (some run)) := by
  obtain ⟨hinitial, hnone, hkept, packageId, row, body, hfound, hhash, hencode, hrow, hruns,
    hinvocations⟩ := create_eq_created hc
  obtain ⟨hheader, hpackage⟩ := runRow_eq_ok hrow
  -- no record is left under the identity of the new run
  have habsent : db.rowsOf run.id = ∅ := by
    cases hcontent : content run.id with
    | none => exact (h.absent _ hcontent).2
    | some s =>
      obtain ⟨row', hrow', _⟩ := (h.represents _ s hcontent).header
      rw [hnone] at hrow'
      nomatch hrow'
  have hrows : ∀ id : RunId, db'.rowsOf id = db.rowsOf id := fun id => by
    simp only [Db.rowsOf, hinvocations]
  refine h.update ?_ (fun id hid => ?_) (fun id _ => hrows id) hkept
  · refine ⟨rfl, hinitial.format, ⟨row, ?_, hheader, body, ?_, ?_, hencode⟩, ?_, ?_⟩
    · rw [hruns, BTreeMap.get_insert_self]
    · rw [hpackage, hfound]
    · rw [hpackage, hhash]
    · intro path r hr
      simp [hinitial.invocations] at hr
    · intro path _
      simp [hrows, habsent]
  · rw [hruns, BTreeMap.get_insert_ne _ _ (Ne.symm hid)]

/-- What an accepted replacement of a whole run leaves in the tables: the row of the run, the
rows of the records that do not compare equal, and everything else as it was. -/
structure CommitLeaves (hash : Value → String) (cap : Nat) (db db' : Db) (s next : RunSnapshot) :
    Prop where
  format : next.checkpointFormat = checkpointFormat
  header : ∃ row, db'.runs[next.id]? = some row ∧
    HeaderRow cap row { next with package := s.package } ∧
    ∃ body, db'.packages[row.packageId]? = some body ∧ hash body = row.packageId ∧
      encode s.package cap = .ok body
  same : ∀ (path : String) (r : InvocationRecord), next.invocations[path]? = some r →
    Same .source s.invocations[path]? (some r) →
      (db'.rowsOf next.id)[path]? = (db.rowsOf next.id)[path]?
  changed : ∀ (path : String) (r : InvocationRecord), next.invocations[path]? = some r →
    ¬ Same .source s.invocations[path]? (some r) →
      ∃ row, (db'.rowsOf next.id)[path]? = some row ∧ Query.writeNode r cap = .ok row
  deleted : ∀ path : String, next.invocations[path]? = none →
    (db'.rowsOf next.id)[path]? = none
  runs : ∀ id : RunId, id ≠ next.id → db'.runs[id]? = db.runs[id]?
  rows : ∀ id : RunId, id ≠ next.id → db'.rowsOf id = db.rowsOf id
  packages : db'.packages = db.packages

theorem Represents.commit_leaves {db db' : Db} {s : RunSnapshot}
    {available : ArtifactRef → Except ForgeError Unit} {expected : UInt64} {next : RunSnapshot}
    (hs : Represents hash cap db next.id s)
    (hc : commit hash cap db available expected next = .ok db') :
    CommitLeaves hash cap db db' s next := by
  obtain ⟨current, old, row, rows, hcurrent, hold, law, hrow, hrows, rfl⟩ := commit_eq_ok hc
  obtain ⟨hheader, hpackage⟩ := runRow_eq_ok hrow
  obtain ⟨row₀, hrow₀, hheader₀, body, hbody, hhash, hencode⟩ := hs.header
  obtain rfl := Option.some.inj (hold.symm.trans hrow₀)
  obtain ⟨heq, _, hrecords⟩ := hs.run_eq_ok hcurrent
  obtain rfl := Option.some.inj heq
  have hinv : s.stored.invocations = s.invocations := by
    have := congrArg RunSnapshot.invocations (RunSnapshot.stored_withRecords hrecords)
    exact this.symm
  rw [hinv] at hrows
  obtain ⟨hin, hout⟩ := writeNodes_eq_ok
    (by
      rw [Std.ExtTreeMap.map_fst_toList_eq_keys]
      exact Std.ExtTreeMap.nodup_keys) hrows
  have hrowsOf : ∀ id : RunId, Db.rowsOf { db with
      runs := db.runs.insert next.id
        { row with scope := old.scope, deadlineAtMs := old.deadlineAtMs }
      invocations := db.invocations.insert next.id
        (deleteNodes next.invocations s.stored.invocations.keys rows) } id =
      if next.id = id then deleteNodes next.invocations s.stored.invocations.keys rows
      else db.rowsOf id := by
    intro id
    simp only [Db.rowsOf, BTreeMap.get_insert]
    split <;> rfl
  -- a record that stays is not deleted
  have hkept : ∀ (path : String) (r : InvocationRecord), next.invocations[path]? = some r →
      (deleteNodes next.invocations s.stored.invocations.keys rows)[path]? = rows[path]? := by
    intro path r hr
    rw [deleteNodes_get, if_neg]
    simp [hr]
  refine ⟨law.format ▸ hs.format, ⟨_, BTreeMap.get_insert_self _ _ _, ?_, body, ?_, ?_, hencode⟩,
    fun path r hr hsame => ?_, fun path r hr hdiffers => ?_, fun path hr => ?_, fun id hid => ?_,
    fun id hid => ?_, rfl⟩
  · -- the scope and the deadline are those of the row before, which no run changes
    have hscope : old.scope = next.scope := hheader₀.scope.trans law.scope
    have hdeadline : old.deadlineAtMs = next.deadlineAtMs :=
      hheader₀.deadline.trans law.deadline
    exact ⟨hscope, hheader.revision, hheader.state, hheader.cancel, hdeadline, hheader.finished,
      hheader.retained, hheader.count, hheader.unresolved, hheader.wakeup, hheader.body⟩
  · rw [hpackage]
    exact hbody
  · rw [hpackage]
    exact hhash
  · rw [hrowsOf, if_pos rfl, hkept path r hr]
    exact (hin (path, r) (Std.ExtTreeMap.mem_toList_iff_getElem?_eq_some.mpr hr)).1 hsame
  · rw [hrowsOf, if_pos rfl, hkept path r hr]
    exact (hin (path, r) (Std.ExtTreeMap.mem_toList_iff_getElem?_eq_some.mpr hr)).2 hdiffers
  · rw [hrowsOf, if_pos rfl, deleteNodes_get]
    split
    next => rfl
    next hnot =>
      have hp : path ∉ next.invocations.toList.map Prod.fst := by
        rw [Std.ExtTreeMap.map_fst_toList_eq_keys, Std.ExtTreeMap.mem_keys,
          Std.ExtTreeMap.mem_iff_isSome_getElem?, hr]
        exact Bool.false_ne_true
      rw [hout path hp]
      apply hs.others
      have hkeys : path ∉ s.stored.invocations.keys := fun hk => hnot ⟨hk, hr⟩
      rw [Std.ExtTreeMap.mem_keys, Std.ExtTreeMap.mem_iff_isSome_getElem?, hinv] at hkeys
      simpa using hkeys
  · exact BTreeMap.get_insert_ne _ _ (Ne.symm hid)
  · rw [hrowsOf, if_neg (Ne.symm hid)]

/-- A replacement that keeps texts is a representation of what was committed. -/
theorem CommitLeaves.represents {db db' : Db} {s next : RunSnapshot}
    (h : CommitLeaves hash cap db db' s next) (hs : Represents hash cap db next.id s)
    (hkeeps : KeepsTexts s.invocations next.invocations) :
    Represents hash cap db' next.id { next with package := s.package } where
  named := rfl
  format := h.format
  header := h.header
  records path r hr := by
    by_cases hsame : Same .source s.invocations[path]? (some r)
    · -- the row before is that of the same text
      rw [h.same path r hr hsame]
      obtain ⟨r', hr', hsame'⟩ := same_some_iff.mp hsame
      exact hkeeps path r' r hr' hr hsame' ▸ hs.records path r' hr'
    · exact h.changed path r hr hsame
  others path hr := h.deleted path hr

/-- A record that compares equal is not written: its row reads as the record before. -/
theorem CommitLeaves.keeps_of_reads {db db' : Db} {s next : RunSnapshot}
    (h : CommitLeaves hash cap db db' s next) (hs : Represents hash cap db next.id s)
    (hreads : ∀ (path : String) (r : InvocationRecord), next.invocations[path]? = some r →
      Query.node db' next.id path cap = .ok (some r)) :
    KeepsTexts s.invocations next.invocations := by
  intro path r r' hr hr' hsame
  have hrow := h.same path r' hr' (same_some_iff.mpr ⟨r, hr, hsame⟩)
  have hnode : Query.node db' next.id path cap = Query.node db next.id path cap := by
    unfold Query.node
    rw [hrow]
  have hread := hreads path r' hr'
  rw [hnode, hs.node_eq path, hr] at hread
  by_cases hn : r.output = some .null
  · simp only [if_pos hn] at hread
    cases hread
  · simp only [if_neg hn] at hread
    exact Option.some.inj (Except.ok.inj hread)

theorem Holds.committed {db db' : Db} {content : RunId → Option RunSnapshot}
    {available : ArtifactRef → Except ForgeError Unit} {expected : UInt64} {next s : RunSnapshot}
    (h : Holds hash cap db content)
    (hc : commit hash cap db available expected next = .ok db')
    (hcontent : content next.id = some s)
    (hkeeps : KeepsTexts s.invocations next.invocations) :
    Holds hash cap db'
      (Function.update content next.id (some { next with package := s.package })) := by
  have hs := h.represents _ s hcontent
  have hleaves := hs.commit_leaves hc
  exact h.update (hleaves.represents hs hkeeps) (fun id hid => hleaves.runs id hid)
    (fun id hid => hleaves.rows id hid) fun _ _ hb => hleaves.packages ▸ hb

/-- The columns a replaced record changes are those of the new snapshot. -/
theorem HeaderRow.narrow {row : RunRow} {s : RunSnapshot} {path : String}
    {record : InvocationRecord} {revision : UInt64} (h : HeaderRow cap row s)
    (hrevision : checkedAdd s.revision 1 = some revision) :
    HeaderRow cap (narrowRow row s.invocations[path]? record revision)
      (s.insertRecord path record revision) where
  scope := h.scope
  revision := rfl
  state := h.state
  cancel := h.cancel
  deadline := h.deadline
  finished := h.finished
  retained := by
    -- bytes: less those of the old record, more those of the new
    have hsum := BTreeMap.sumValues_insert InvocationRecord.retainedDataBytes s.invocations path
      record
    have hpart := BTreeMap.get_le_sumValues InvocationRecord.retainedDataBytes s.invocations path
    have ht : (s.insertRecord path record revision).retainedResultBytes =
        s.retainedResultBytes := rfl
    simp only [narrowRow, h.retained, RunSnapshot.retainedDataBytes, ht]
    simp only [RunSnapshot.insertRecord, RunSnapshot.recordBytes] at hsum hpart ⊢
    omega
  count := by
    have hsize := Std.ExtTreeMap.size_insert (t := s.invocations) (k := path) (v := record)
    simp only [narrowRow, h.count, RunSnapshot.insertRecord, hsize]
    -- a new path adds one record, an old one none
    cases hr : s.invocations[path]? with
    | none =>
      have : path ∉ s.invocations := by simpa using hr
      simp [this]
    | some r =>
      have : path ∈ s.invocations := by
        rw [Std.ExtTreeMap.mem_iff_isSome_getElem?, hr]
        rfl
      simp [this]
  unresolved := by
    have hsum := BTreeMap.sumValues_insert
      (fun r : InvocationRecord => if r.isUnresolved then 1 else 0) s.invocations path record
    have hpart := BTreeMap.get_le_sumValues
      (fun r : InvocationRecord => if r.isUnresolved then 1 else 0) s.invocations path
    simp only [narrowRow, h.unresolved, RunSnapshot.insertRecord, RunSnapshot.unresolvedCount,
      BTreeMap.countP_valueList]
    cases hr : s.invocations[path]? with
    | none =>
      rw [hr] at hsum
      simpa using hsum.symm
    | some r =>
      rw [hr] at hsum hpart
      simp only [Option.map_some, Option.getD_some] at hsum hpart
      simp only [Option.any_some]
      omega
  wakeup := h.wakeup
  body := by
    -- the body is not written again, its revision stays behind
    obtain ⟨earlier, hle, hencode⟩ := h.body
    have hnext := checkedAdd_eq_some.mp hrevision
    refine ⟨earlier, ?_, hencode⟩
    rw [UInt64.le_iff_toNat_le] at hle ⊢
    change earlier.toNat ≤ revision.toNat
    omega

/-- Replacing one record by its row, with the columns it changes. -/
theorem Holds.replaced {db : Db} {content : RunId → Option RunSnapshot} {id : RunId}
    {revision : UInt64} (path : String) {record : InvocationRecord} {s : RunSnapshot}
    {row : RunRow} {node : InvocationRow} (h : Holds hash cap db content)
    (hcontent : content id = some s) (hrow : db.runs[id]? = some row)
    (hrevision : checkedAdd s.revision 1 = some revision)
    (hnode : Query.writeNode record cap = .ok node) :
    Holds hash cap { db with
        runs := db.runs.insert id (narrowRow row s.invocations[path]? record revision)
        invocations := db.invocations.insert id ((db.rowsOf id).insert path node) }
      (Function.update content id (some (s.insertRecord path record revision))) := by
  have hs := h.represents id s hcontent
  obtain ⟨row₀, hrow₀, hheader, body, hbody, hhash, hencode⟩ := hs.header
  obtain rfl := Option.some.inj (hrow.symm.trans hrow₀)
  -- rows of other runs are not touched
  have hrowsOf : ∀ id' : RunId, Db.rowsOf { db with
      runs := db.runs.insert id (narrowRow row s.invocations[path]? record revision)
      invocations := db.invocations.insert id ((db.rowsOf id).insert path node) } id' =
      if id = id' then (db.rowsOf id).insert path node else db.rowsOf id' := by
    intro id'
    simp only [Db.rowsOf, BTreeMap.get_insert]
    split <;> rfl
  refine h.update ?_ (fun id' hid => ?_) (fun id' hid => ?_) fun _ _ hb => hb
  · refine ⟨hs.named, hs.format, ⟨_, BTreeMap.get_insert_self _ _ _,
      hheader.narrow hrevision, body, hbody, hhash, hencode⟩, ?_, ?_⟩
    -- every record of the new snapshot has its row
    · intro p r hr
      rw [RunSnapshot.insertRecord_invocations] at hr
      rw [hrowsOf, if_pos rfl, BTreeMap.get_insert]
      split at hr
      next heq =>
        obtain rfl := Option.some.inj hr
        exact ⟨node, if_pos heq, hnode⟩
      next hne =>
        rw [if_neg hne]
        exact hs.records p r hr
    -- and there is no other row
    · intro p hr
      rw [RunSnapshot.insertRecord_invocations] at hr
      rw [hrowsOf, if_pos rfl, BTreeMap.get_insert]
      split at hr
      next => nomatch hr
      next hne =>
        rw [if_neg hne]
        exact hs.others p hr
  · exact BTreeMap.get_insert_ne _ _ (Ne.symm hid)
  · rw [hrowsOf, if_neg (Ne.symm hid)]

theorem Holds.narrowed {db db' : Db} {content : RunId → Option RunSnapshot} {id : RunId}
    {expected revision : UInt64} {path : String} {record : InvocationRecord}
    {view : ExecutionView} {s : RunSnapshot} (h : Holds hash cap db content)
    (hc : commitNode cap db id expected path record = .ok (db', view))
    (hcontent : content id = some s)
    (hrevision : checkedAdd expected 1 = some revision) :
    Holds hash cap db' (Function.update content id
      (some (s.insertRecord path record revision))) := by
  obtain ⟨head, row, old, revision', node, hhead, hrow, hold, hrefuses, hrevision', hnode, rfl⟩ :=
    commitNode_eq_ok hc
  obtain rfl := Option.some.inj (hrevision.symm.trans hrevision')
  have hs := h.represents id s hcontent
  -- the record before is the one the snapshot has, since it was readable
  have hold' : old = s.invocations[path]? := by
    rw [hs.node_eq path] at hold
    cases hr : s.invocations[path]? with
    | none =>
      rw [hr] at hold
      exact (Except.ok.inj hold).symm
    | some r =>
      rw [hr] at hold
      by_cases hn : r.output = some .null
      · simp only [if_pos hn] at hold
        nomatch hold
      · simp only [if_neg hn] at hold
        exact (Except.ok.inj hold).symm
  have hbase : s.revision = expected := by
    rw [hs.head_eq] at hhead
    obtain rfl := Option.some.inj (Except.ok.inj hhead)
    unfold refusesNode at hrefuses
    rw [decide_eq_false_iff_not] at hrefuses
    simp only [not_or, ne_eq, not_not] at hrefuses
    exact hrefuses.1
  subst hold'
  exact h.replaced path hcontent hrow (hbase ▸ hrevision) hnode

/-- Accepted transactions keep the tables a representation of what was written. -/
theorem Reachable.holds {db : Db} {content : RunId → Option RunSnapshot}
    (h : Reachable hash cap db content) : Holds hash cap db content := by
  induction h with
  | empty => exact ⟨nofun, fun id _ => ⟨by simp, by simp [Db.rowsOf]⟩⟩
  | created _ hc ih => exact ih.created hc
  | duplicate _ hc ih =>
    obtain ⟨hruns, hinvocations, hpackages⟩ := create_eq_duplicate hc
    refine ⟨fun id s hs => (ih.represents id s hs).frame (by rw [hruns]) ?_ ?_, fun id hn => ?_⟩
    · simp only [Db.rowsOf, hinvocations]
    · intro id' body hb
      rw [hpackages]
      exact hb
    · obtain ⟨h₁, h₂⟩ := ih.absent id hn
      exact ⟨hruns ▸ h₁, by simpa only [Db.rowsOf, hinvocations] using h₂⟩
  | committed _ hc hs hkeeps ih => exact ih.committed hc hs hkeeps
  | narrowed _ hc hs hr ih => exact ih.narrowed hc hs hr

/-! ## The codec and the queries lose nothing but a present `null` -/

/-- A stored run reads back: the run, each of its records, and the columns beside them. -/
structure ReadsBack (hash : Value → String) (cap : Nat) (db : Db) (id : RunId)
    (s : RunSnapshot) : Prop where
  run : Query.run hash db id cap = .ok (some s)
  head : Query.head db id = .ok (some s.head)
  node : ∀ (path : String) (r : InvocationRecord), s.invocations[path]? = some r →
    Query.node db id path cap = .ok (some r)

/-- A represented run reads back exactly when it has no present `null`. -/
theorem Represents.readsBack_iff {db : Db} {id : RunId} {s : RunSnapshot}
    (h : Represents hash cap db id s) : ReadsBack hash cap db id s ↔ s.NoNullOutput := by
  constructor
  · intro hread
    exact h.run_eq_iff.mp hread.run
  · intro hn
    refine ⟨h.run_eq_iff.mpr hn, h.head_eq, fun path r hr => ?_⟩
    rw [h.node_eq path, hr]
    simp only [if_neg (hn.2.1 path r hr)]

/-- Decoding an accepted encoding gives the record or the header back, and a stored run
reads back, exactly when none of their optional documents is a present `null`. A replaced run
reads back exactly when, besides, no record that compares equal to the one before has another
text: such a record is not written. -/
theorem checkpoint_readback_iff (hash : Value → String) (cap : Nat) :
    (∀ (r : InvocationRecord) (body : Value), encode r cap = .ok body →
      (decode body cap = .ok r ↔ r.output ≠ some .null)) ∧
    (∀ (header : RunSnapshot) (body : Value), encode header cap = .ok body →
      (decode body cap = .ok header ↔ header.NoNullOutput)) ∧
    ∀ (db : Db) (content : RunId → Option RunSnapshot), Reachable hash cap db content →
      (∀ (id : RunId) (s : RunSnapshot), content id = some s →
        (ReadsBack hash cap db id s ↔ s.NoNullOutput)) ∧
      ∀ (available : ArtifactRef → Except ForgeError Unit) (expected : UInt64)
        (next s : RunSnapshot) (db' : Db),
        commit hash cap db available expected next = .ok db' → content next.id = some s →
        (ReadsBack hash cap db' next.id { next with package := s.package } ↔
          next.NoNullOutput ∧ KeepsTexts s.invocations next.invocations) := by
  refine ⟨fun r body h => ?_, fun header body h => ?_, fun db content h => ⟨fun id s hs => ?_,
    fun available expected next s db' hc hs => ?_⟩⟩
  · rw [decode_encode h r.fromValue_toValue, ← InvocationRecord.stored_eq_self]
    exact ⟨fun heq => Except.ok.inj heq, congrArg Except.ok⟩
  · rw [decode_encode h header.fromValue_toValue, ← RunSnapshot.stored_eq_self]
    exact ⟨fun heq => Except.ok.inj heq, congrArg Except.ok⟩
  · exact (h.holds.represents id s hs).readsBack_iff
  -- rows that the comparison skips keep their old texts
  · have hrep := h.holds.represents next.id s hs
    have hleaves := hrep.commit_leaves hc
    constructor
    · intro hread
      have hkeeps := hleaves.keeps_of_reads hrep hread.node
      exact ⟨(hleaves.represents hrep hkeeps).readsBack_iff.mp hread, hkeeps⟩
    · rintro ⟨hn, hkeeps⟩
      exact (hleaves.represents hrep hkeeps).readsBack_iff.mpr hn

end Reach

/-! ## A timer whose input is `null` -/

section NullTimer

/-- A run that reserved a timer; the input of its node is `null`. -/
def reservedTimer : RunSnapshot :=
  { sampleRun with
    revision := 1
    state := .running
    invocations := (∅ : BTreeMap String InvocationRecord).insert "t"
      { sampleRecord with state := .pending, control := some (.wait "w") }
    waits := (∅ : BTreeMap String WaitRecord).insert "w"
      { id := "w", node := "t", kind := .timer, createdAtMs := 0, deadlineAtMs := 10,
        startConfirmed := true, state := .open, delivery := none } }

/-- The same run when the timer was consumed: the input is the output. -/
def consumedTimer : RunSnapshot :=
  { sampleRun with
    revision := 2
    state := .running
    invocations := (∅ : BTreeMap String InvocationRecord).insert "t"
      { sampleRecord with
        state := .succeeded, output := some .null, control := some (.wait "w") }
    waits := (∅ : BTreeMap String WaitRecord).insert "w"
      { id := "w", node := "t", kind := .timer, createdAtMs := 0, deadlineAtMs := 10,
        startConfirmed := true, state := .consumed, delivery := none } }

/-- A digest, for examples. -/
def sampleHash : Value → String := fun _ => "package"

/-- The transactions that create the run and reserve its timer. -/
def reservedDb : Except ForgeError Db := do
  let (db, _) ← create sampleHash 10000 {} (fun _ => .ok ()) sampleRun none {}
  commit sampleHash 10000 db (fun _ => .ok ()) 0 reservedTimer

theorem reservedDb_reachable {db : Db} (h : reservedDb = .ok db) :
    ∃ content, Reachable sampleHash 10000 db content ∧ content "run" = some reservedTimer := by
  obtain ⟨⟨db₀, outcome⟩, hcreate, hcommit⟩ := bind_eq_ok.mp h
  have hcreated : outcome = .created := by
    have hdecide : (create sampleHash 10000 {} (fun _ => .ok ()) sampleRun none {}).map Prod.snd =
        .ok .created := by decide +kernel
    rw [hcreate] at hdecide
    exact Except.ok.inj hdecide
  subst hcreated
  have hkeeps : KeepsTexts sampleRun.invocations reservedTimer.invocations := by
    intro path r r' hr
    simp [sampleRun] at hr
  exact ⟨_, .committed (.created .empty hcreate) hcommit (Function.update_self ..) hkeeps,
    Function.update_self ..⟩

theorem reservedDb_ok : ∃ db, reservedDb = .ok db := by
  have h : (reservedDb.map fun _ => ()) = .ok () := by decide +kernel
  cases hdb : reservedDb with
  | error e =>
    rw [hdb] at h
    nomatch h
  | ok db => exact ⟨db, rfl⟩

/-- The run has the record of its timer alone. -/
theorem reservedTimer_record {path : String} {r : InvocationRecord}
    (hr : reservedTimer.invocations[path]? = some r) : "t" = path ∧
      ({ sampleRecord with state := .pending, control := some (.wait "w") } :
        InvocationRecord) = r := by
  change ((∅ : BTreeMap String InvocationRecord).insert "t" _)[path]? = some r at hr
  rw [BTreeMap.get_insert] at hr
  split at hr
  next heq => exact ⟨heq, Option.some.inj hr⟩
  next => simp at hr

/-- The reserved timer reads back. -/
theorem checkpoint_readback_reserved :
    ∃ db, reservedDb = .ok db ∧ ReadsBack sampleHash 10000 db "run" reservedTimer := by
  obtain ⟨db, hdb⟩ := reservedDb_ok
  obtain ⟨content, hreach, hcontent⟩ := reservedDb_reachable hdb
  refine ⟨db, hdb, (((checkpoint_readback_iff sampleHash 10000).2.2 db content hreach).1 "run" _
    hcontent).mpr ⟨nofun, fun key r hr => ?_, nofun⟩⟩
  obtain ⟨-, rfl⟩ := reservedTimer_record hr
  nofun

/-- The store accepts the consumption of the timer, and can then read neither the record nor
the run. -/
theorem checkpoint_readback_consumed :
    ∃ db content, Reachable sampleHash 10000 db content ∧ content "run" = some consumedTimer ∧
      Query.node db "run" "t" 10000 = .error corrupt ∧
      Query.run sampleHash db "run" 10000 = .error corrupt := by
  obtain ⟨db, hdb⟩ := reservedDb_ok
  obtain ⟨content, hreach, hcontent⟩ := reservedDb_reachable hdb
  have haccepted : ((reservedDb >>= fun db =>
      commit sampleHash 10000 db (fun _ => .ok ()) 1 consumedTimer).map fun _ => ()) = .ok () := by
    decide +kernel
  rw [hdb, ok_bind] at haccepted
  cases hcommit : commit sampleHash 10000 db (fun _ => .ok ()) 1 consumedTimer with
  | error e =>
    rw [hcommit] at haccepted
    nomatch haccepted
  | ok db' =>
    -- the consumed record has another state, so it does not compare equal
    have hkeeps : KeepsTexts reservedTimer.invocations consumedTimer.invocations := by
      intro path r r' hr hr' hsame
      obtain ⟨rfl, rfl⟩ : "t" = path ∧ _ = r := reservedTimer_record hr
      obtain rfl := Option.some.inj ((BTreeMap.get_insert_self _ _ _).symm.trans hr')
      exact absurd (InvocationRecord.same_state hsame) (by decide)
    have hreach' := hreach.committed hcommit hcontent hkeeps
    have hrep := hreach'.holds.represents "run" consumedTimer (Function.update_self ..)
    have hrecord : consumedTimer.invocations["t"]? = some { sampleRecord with
        state := .succeeded, output := some .null, control := some (.wait "w") } :=
      BTreeMap.get_insert_self _ _ _
    refine ⟨db', _, hreach', Function.update_self .., ?_,
      hrep.run_corrupt (.inl ⟨_, _, hrecord, rfl⟩)⟩
    rw [hrep.node_eq "t", hrecord]
    rfl

end NullTimer

/-- The row of a record whose `0.0` became `-0.0` is not written, although the run counts the
longer text. -/
example : (do
    let (db, _) ← create sampleHash 10000 {} (fun _ => .ok ()) sampleRun none {}
    let (db, _) ← commitNode 10000 db "run" 0 "a" (floatRecord "0.0")
    let db ← commit sampleHash 10000 db (fun _ => .ok ()) 1
      (sampleRun.insertRecord "a" (floatRecord "-0.0") 2)
    (Query.run sampleHash db "run" 10000).map fun _ => ()) = .error corrupt := by decide +kernel

end Sqlite

end WorkflowForge
