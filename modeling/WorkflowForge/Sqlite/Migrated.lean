import WorkflowForge.Sqlite.Upgrade

/-!
# Reading a Migrated Database

A format-2 database is well formed when its keys are unique and every run in it can be read.
The reader of that format checks what the present one checks, except for the wakeup column,
which it does not have. A committed upgrade keeps what it reads.

## Main results

- `Migrated.run_eq`: a run that was readable in format 2 reads back the same in format 3.
- `checkpoint_migration`: opening a well-formed format-2 database ends, and either converts
  all of it or leaves it as it was.
-/

namespace WorkflowForge.Sqlite.Migration

open Lib Lib.Paging

/-! ## The reader of format 2 -/

section ReadTwo

variable (hash : Value → String)

def readRowTwo (row : InvocationRow) (limit : Nat) : Except ForgeError InvocationRecord := do
  let record : InvocationRecord ← decodeVersion row.body limit 2
  ensure (record.retainedDataBytes = row.retainedBytes ∧ record.isUnresolved = row.unresolved)
    corrupt
  return record

def readRowsTwo (limit : Nat) (rows : List (String × InvocationRow))
    (records : BTreeMap String InvocationRecord) :
    Except ForgeError (BTreeMap String InvocationRecord) :=
  match rows with
  | [] => .ok records
  | (path, row) :: rows => do
    let record ← readRowTwo row limit
    readRowsTwo limit rows (records.insert path record)

def packageTwo (db : Db) (id : String) (limit : Nat) : Except ForgeError ResolvedPackage :=
  match db.packages[id]? with
  | none => .error failed
  | some body => if hash body ≠ id then .error corrupt else decodeVersion body limit 2

/-- A head but for the wakeup time, which format 2 does not keep in a column. -/
def withoutWakeup (head : RunHead) : RunHead :=
  { head with nextWakeupAtMs := none }

/-- A whole run of format 2, rebuilt from its header, its package and its records. -/
def readTwo (db : Db) (id : RunId) (limit : Nat) : Except ForgeError (Option RunSnapshot) :=
  match db.runs[id]? with
  | none => .ok none
  | some row => do
    let head ← Query.headOf id row
    let run : RunSnapshot ← decodeVersion row.body limit 2
    ensure (run.checkpointFormat = 2) unsupported
    ensure (Query.headerAgrees run head row.finishedAtMs) corrupt
    let package ← packageTwo hash db row.packageId limit
    let records ← readRowsTwo limit (db.rowsOf id).toList ∅
    let run := { run with
      package := package, revision := head.revision, invocations := records }
    ensure (withoutWakeup run.head = withoutWakeup head) corrupt
    return some run

end ReadTwo

/-! ## Well-formed databases -/

/-- A row of the records table is named by its run and its path. -/
def StoredInvocation.key (row : StoredInvocation) : RunId × String :=
  (row.runId, row.path)

/-- The tables of a format-2 database: rowids are positive, primary keys are unique, records
belong to runs, every body says it is of format 2, and every run can be read and has no waits. -/
structure WellFormed (hash : Value → String) (cap : Nat) (t : Tables) : Prop where
  rowids : ∀ rowid : Nat, rowid ∈ t.packages ∨ rowid ∈ t.runs ∨ rowid ∈ t.invocations ∨
    rowid ∈ t.receipts → 0 < rowid
  packageIds : Unique PackageRow.id t.packages
  runIds : Unique StoredRun.id t.runs
  paths : Unique StoredInvocation.key t.invocations
  owned : ∀ (rowid : Nat) (row : StoredInvocation), t.invocations[rowid]? = some row →
    ∃ (run : Nat) (owner : StoredRun), t.runs[run]? = some owner ∧ owner.id = row.runId
  packages : ∀ (rowid : Nat) (row : PackageRow), t.packages[rowid]? = some row →
    version row.body cap = .ok 2
  receipts : ∀ (rowid : Nat) (row : ReceiptRow), t.receipts[rowid]? = some row →
    version row.request cap = .ok 2
  readable : ∀ (rowid : Nat) (row : StoredRun), t.runs[rowid]? = some row →
    ∃ run, readTwo hash t.db row.id cap = .ok (some run) ∧ run.waits = ∅

/-! ## Tables by key -/

section Keys

variable {t : Tables}

/-- The runs by name are the rows of the table, as names are unique. -/
theorem db_runs_get (h : Unique StoredRun.id t.runs) {id : RunId} {row : RunRow} :
    t.db.runs[id]? = some row ↔ ∃ rowid : Nat, t.runs[rowid]? = some ⟨id, row⟩ := by
  refine (collect_get h id row).trans ⟨?_, ?_⟩
  · rintro ⟨rowid, ⟨_, _⟩, hrow, heq⟩
    obtain ⟨rfl, rfl⟩ := Prod.mk.inj heq
    exact ⟨rowid, hrow⟩
  · rintro ⟨rowid, hrow⟩
    exact ⟨rowid, _, hrow, rfl⟩

/-- So are the packages by hash. -/
theorem db_packages_get (h : Unique PackageRow.id t.packages) {id : String} {body : Value} :
    t.db.packages[id]? = some body ↔ ∃ rowid : Nat, t.packages[rowid]? = some ⟨id, body⟩ := by
  refine (collect_get h id body).trans ⟨?_, ?_⟩
  · rintro ⟨rowid, ⟨_, _⟩, hrow, heq⟩
    obtain ⟨rfl, rfl⟩ := Prod.mk.inj heq
    exact ⟨rowid, hrow⟩
  · rintro ⟨rowid, hrow⟩
    exact ⟨rowid, _, hrow, rfl⟩

/-- The record rows of a run are the rows that name it. -/
theorem rowsOf_get (hruns : Unique StoredRun.id t.runs)
    (hpaths : Unique StoredInvocation.key t.invocations) {rowid : Nat} {owner : StoredRun}
    (howner : t.runs[rowid]? = some owner) {path : String} {row : InvocationRow} :
    (t.db.rowsOf owner.id)[path]? = some row ↔
      ∃ key : Nat, t.invocations[key]? = some ⟨owner.id, path, row⟩ := by
  have hrows : t.db.invocations[owner.id]? = some (collect (fun i => (i.path, i.row))
      (t.invocations.filter fun _ i => i.runId = owner.id)) :=
    (collect_get hruns owner.id _).mpr ⟨rowid, owner, howner, rfl⟩
  have hfiltered : ∀ (key : Nat) (i : StoredInvocation),
      (t.invocations.filter fun _ i => i.runId = owner.id)[key]? = some i ↔
        t.invocations[key]? = some i ∧ i.runId = owner.id := fun key i => by
    simp [Option.filter_eq_some_iff]
  -- among the rows of one run the path is a key
  have hunique : Unique StoredInvocation.path
      (t.invocations.filter fun _ i => i.runId = owner.id) := by
    intro i j a b hi hj heq
    obtain ⟨hi, ha⟩ := (hfiltered i a).mp hi
    obtain ⟨hj, hb⟩ := (hfiltered j b).mp hj
    exact hpaths i j a b hi hj (Prod.ext (ha.trans hb.symm) heq)
  rw [Db.rowsOf, hrows, Option.getD_some]
  refine (collect_get hunique path row).trans ⟨?_, ?_⟩
  · rintro ⟨key, ⟨_, _, _⟩, hkey, heq⟩
    obtain ⟨rfl, rfl⟩ := Prod.mk.inj heq
    obtain ⟨hkey, rfl⟩ := (hfiltered key _).mp hkey
    exact ⟨key, hkey⟩
  · rintro ⟨key, hkey⟩
    exact ⟨key, _, (hfiltered key _).mpr ⟨hkey, rfl⟩, rfl⟩

/-- Rows that correspond under the same keys have unique keys again. -/
theorem Matches.unique {ρ ρ' κ : Type} {R : ρ → ρ' → Prop} {table : Table ρ} {table' : Table ρ'}
    {key : ρ → κ} {key' : ρ' → κ} (h : Matches R table table')
    (hkey : ∀ a b, R a b → key' b = key a) (hunique : Unique key table) :
    Unique key' table' := by
  intro i j b b' hi hj heq
  obtain ⟨a, ha, hab⟩ := h.get_back hi
  obtain ⟨a', ha', hab'⟩ := h.get_back hj
  exact hunique i j a a' ha ha' (by rw [← hkey a b hab, ← hkey a' b' hab', heq])

end Keys

/-! ## What the upgrade leaves -/

section Upgraded

variable {hash : Value → String} {cap fuel : Nat} {t t' : Tables}

/-- A run and the row that replaces it: its package under the new identity, its body
converted, and a wakeup at the deadline when it waits. -/
def MovedRun (hash : Value → String) (cap : Nat) (t : Tables) (r r' : StoredRun) : Prop :=
  ∃ (rowid : Nat) (p : PackageRow) (package body : Value),
    t.packages[rowid]? = some p ∧ p.id = r.row.packageId ∧ Replaces cap p.body package ∧
    Converted cap upgradeRun r.row.body body ∧
    r' = ⟨r.id, { r.row with
      packageId := hash package
      body := body
      nextWakeupAtMs := if r.row.state = "waiting" then some r.row.deadlineAtMs else none }⟩

/-- Every row has been converted once, and packages are under the hashes of their bytes. -/
structure Upgraded (hash : Value → String) (cap : Nat) (t t' : Tables) : Prop where
  replaced : ∀ (rowid : Nat) (p : PackageRow), t.packages[rowid]? = some p →
    ∃ (rowid' : Nat) (body : Value), Replaces cap p.body body ∧
      t'.packages[rowid']? = some ⟨hash body, body⟩
  origin : ∀ (rowid' : Nat) (p' : PackageRow), t'.packages[rowid']? = some p' →
    p'.id = hash p'.body ∧
      ∃ (rowid : Nat) (p : PackageRow), t.packages[rowid]? = some p ∧ Replaces cap p.body p'.body
  packageIds : Unique PackageRow.id t'.packages
  runs : Matches (MovedRun hash cap t) t.runs t'.runs
  invocations : Matches (invocationBody.Rewrites (α := InvocationRecord) cap .ok)
    t.invocations t'.invocations
  receipts : Matches (receiptRequest.Rewrites (α := Value) cap .ok) t.receipts t'.receipts

/-- A run of the old format is read from its row, its package and its records. -/
theorem readTwo_eq_ok {db : Db} {id : RunId} {run : RunSnapshot}
    (h : readTwo hash db id cap = .ok (some run)) :
    ∃ row head header package records, db.runs[id]? = some row ∧
      Query.headOf id row = .ok head ∧ decodeVersion row.body cap 2 = .ok header ∧
      header.checkpointFormat = 2 ∧ Query.headerAgrees header head row.finishedAtMs = true ∧
      packageTwo hash db row.packageId cap = .ok package ∧
      readRowsTwo cap (db.rowsOf id).toList ∅ = .ok records ∧
      run = { header with
        package := package, revision := head.revision, invocations := records } ∧
      withoutWakeup run.head = withoutWakeup head := by
  unfold readTwo at h
  split at h
  · nomatch h
  -- each check of the reader, in its order
  next row hrow =>
    obtain ⟨head, hhead, h⟩ := bind_eq_ok.mp h
    obtain ⟨header, hheader, h⟩ := bind_eq_ok.mp h
    obtain ⟨_, hformat, h⟩ := bind_eq_ok.mp h
    obtain ⟨_, hagrees, h⟩ := bind_eq_ok.mp h
    obtain ⟨package, hpackage, h⟩ := bind_eq_ok.mp h
    obtain ⟨records, hrecords, h⟩ := bind_eq_ok.mp h
    obtain ⟨_, hsame, h⟩ := bind_eq_ok.mp h
    obtain rfl := Option.some.inj (Except.ok.inj h)
    exact ⟨row, head, header, package, records, hrow, hhead, hheader,
      of_decide_eq_true (ensure_eq_ok.mp hformat), ensure_eq_ok.mp hagrees, hpackage, hrecords,
      rfl, of_decide_eq_true (ensure_eq_ok.mp hsame)⟩

/-- A package of the old format is found under the hash of its document. -/
theorem packageTwo_eq_ok {db : Db} {id : String} {package : ResolvedPackage}
    (h : packageTwo hash db id cap = .ok package) :
    ∃ body, db.packages[id]? = some body ∧ hash body = id ∧
      decodeVersion body cap 2 = .ok package := by
  unfold packageTwo at h
  split at h
  · nomatch h
  next body hbody =>
    split at h
    · nomatch h
    next hhash => exact ⟨body, hbody, not_not.mp hhash, h⟩

/-! ### The rows of a well-formed database -/

/-- Every record of a readable run can be read. -/
theorem readRowsTwo_mem {rows : List (String × InvocationRow)}
    {records records' : BTreeMap String InvocationRecord}
    (h : readRowsTwo cap rows records = .ok records') :
    ∀ e ∈ rows, ∃ record, readRowTwo e.2 cap = .ok record := by
  induction rows generalizing records with
  | nil => exact nofun
  | cons e rows ih =>
    obtain ⟨record, hrecord, h⟩ := bind_eq_ok.mp h
    intro e' he'
    rcases List.mem_cons.mp he' with rfl | he'
    · exact ⟨record, hrecord⟩
    · exact ih h e' he'

/-- Every run of a well-formed database is in the old format. -/
theorem WellFormed.run_version (h : WellFormed hash cap t) {rowid : Nat} {row : StoredRun}
    (hrow : t.runs[rowid]? = some row) : version row.row.body cap = .ok 2 := by
  obtain ⟨run, hrun, -⟩ := h.readable rowid row hrow
  obtain ⟨found, _, _, _, _, hfound, -, hheader, -⟩ := readTwo_eq_ok hrun
  obtain rfl := Option.some.inj (((db_runs_get h.runIds).mpr ⟨rowid, hrow⟩).symm.trans hfound)
  exact (decodeVersion_eq_ok hheader).1

/-- And its package is there. -/
theorem WellFormed.run_package (h : WellFormed hash cap t) {rowid : Nat} {row : StoredRun}
    (hrow : t.runs[rowid]? = some row) :
    ∃ (key : Nat) (p : PackageRow), t.packages[key]? = some p ∧ p.id = row.row.packageId := by
  obtain ⟨run, hrun, -⟩ := h.readable rowid row hrow
  obtain ⟨found, _, _, _, _, hfound, -, -, -, -, hpackage, -⟩ := readTwo_eq_ok hrun
  obtain rfl := Option.some.inj (((db_runs_get h.runIds).mpr ⟨rowid, hrow⟩).symm.trans hfound)
  obtain ⟨body, hbody, -⟩ := packageTwo_eq_ok hpackage
  obtain ⟨key, hkey⟩ := (db_packages_get h.packageIds).mp hbody
  exact ⟨key, _, hkey, rfl⟩

/-- So is every record. -/
theorem WellFormed.record_version (h : WellFormed hash cap t) {rowid : Nat}
    {row : StoredInvocation} (hrow : t.invocations[rowid]? = some row) :
    version row.row.body cap = .ok 2 := by
  obtain ⟨key, owner, howner, hid⟩ := h.owned rowid row hrow
  obtain ⟨run, hrun, -⟩ := h.readable key owner howner
  obtain ⟨_, _, _, _, records, -, -, -, -, -, -, hrecords, -⟩ := readTwo_eq_ok hrun
  have hlisted : (t.db.rowsOf owner.id)[row.path]? = some row.row :=
    (rowsOf_get h.runIds h.paths howner).mpr ⟨rowid, by rw [hrow, hid]⟩
  obtain ⟨record, hrecord⟩ := readRowsTwo_mem hrecords (row.path, row.row)
    (Std.ExtTreeMap.mem_toList_iff_getElem?_eq_some.mpr hlisted)
  obtain ⟨value, hvalue, -⟩ := bind_eq_ok.mp hrecord
  exact (decodeVersion_eq_ok hvalue).1

/-! ### The passes -/

/-- The new column is added to every run. -/
theorem addWakeup_matches : Matches
    (fun r r' : StoredRun => r' = { r with row := { r.row with nextWakeupAtMs := none } })
    t.runs t.addWakeup.runs :=
  Matches.mapValues _ _

/-- Fuel above all the rows is fuel for each table. -/
theorem WellFormed.sizes (hfuel : t.rows < fuel) : t.packages.size < fuel ∧ t.runs.size < fuel ∧
    t.invocations.size < fuel ∧ t.receipts.size < fuel := by
  unfold Tables.rows at hfuel
  omega

/-- The loop over packages keeps the bodies of runs. -/
theorem Moving.bodies {done : List (Nat × PackageRow)} {now : Tables}
    (h : Moving hash cap t.addWakeup done [] now) :
    Matches (fun r r' : StoredRun => r'.row.body = r.row.body) t.runs now.runs := by
  refine Matches.trans (Matches.mapValues _ _) h.runs fun a b c hab hbc => ?_
  subst hab
  rcases hbc with ⟨_, _, _, _, _, rfl⟩ | ⟨_, rfl⟩ <;> rfl

/-- The upgrade of a well-formed database ends. -/
theorem checkpointThree_ends (h : WellFormed hash cap t) (hfuel : t.rows < fuel) :
    Ends (checkpointThree hash cap fuel t.addWakeup) := by
  obtain ⟨hp, hr, hi, hc⟩ := WellFormed.sizes hfuel
  refine Ends.bind ⟨_, upgradePackages_eq_pass h.packageIds hp⟩ fun now hnow => ?_
  obtain ⟨done, -, hmoving⟩ := upgradePackages_eq_ok (t := t.addWakeup) h.packageIds hp
    (fun rowid hmem => h.rowids rowid (.inl hmem)) h.packages hnow
  have hruns : now.runs.size < fuel := by rwa [hmoving.bodies.size_eq]
  have hinvocations : now.invocations.size < fuel := by rwa [hmoving.invocations]
  have hreceipts : now.receipts.size < fuel := by rwa [hmoving.receipts]
  refine Ends.bind ⟨_, upgradeRows_eq_pass hruns⟩ fun runs _ => ?_
  refine Ends.bind ⟨_, upgradeRows_eq_pass hinvocations⟩ fun invocations _ => ?_
  exact Ends.bind ⟨_, upgradeRows_eq_pass hreceipts⟩ fun receipts _ => ends_pure _

/-- The run that follows its package, has its body rewritten and its wakeup set. -/
theorem MovedRun.of_passes {done : List (Nat × PackageRow)} {r b c : StoredRun}
    (hdone : ∀ e ∈ done, ∃ rowid : Nat, t.packages[rowid]? = some e.2)
    (hpackage : ∃ e ∈ done, e.2.id = r.row.packageId)
    (hfollows : Follows hash cap done { r with row := { r.row with nextWakeupAtMs := none } } b)
    (hbody : runBody.Rewrites cap upgradeRun b c) :
    MovedRun hash cap t r (if c.row.state = "waiting" then
      { c with row := { c.row with nextWakeupAtMs := some c.row.deadlineAtMs } } else c) := by
  obtain ⟨body, hconverted, rfl⟩ := hbody
  rcases hfollows with ⟨e, he, hid, package, hreplaces, rfl⟩ | ⟨hnone, -⟩
  · obtain ⟨rowid, hrow⟩ := hdone e he
    refine ⟨rowid, e.2, package, body, hrow, hid, hreplaces, hconverted, ?_⟩
    by_cases hwaiting : r.row.state = "waiting"
    · simp [runBody, StoredRun.pointTo, hwaiting]
    · simp [runBody, StoredRun.pointTo, hwaiting]
  · obtain ⟨e, he, hid⟩ := hpackage
    exact absurd hid (hnone e he)

/-- An upgrade that succeeds has converted every row once. -/
theorem checkpointThree_eq_ok (h : WellFormed hash cap t) (hfuel : t.rows < fuel)
    (hok : (checkpointThree hash cap fuel t.addWakeup).run = some (.ok t')) :
    Upgraded hash cap t t' := by
  obtain ⟨hp, hr, hi, hc⟩ := WellFormed.sizes hfuel
  obtain ⟨now, hnow, hok⟩ := run_bind_eq_ok.mp hok
  obtain ⟨runs, hruns, hok⟩ := run_bind_eq_ok.mp hok
  obtain ⟨invocations, hinvocations, hok⟩ := run_bind_eq_ok.mp hok
  obtain ⟨receipts, hreceipts, hok⟩ := run_bind_eq_ok.mp hok
  obtain rfl := Except.ok.inj (Option.some.inj hok)
  -- packages first, as the runs refer to them
  obtain ⟨done, hlisted, hmoving⟩ := upgradePackages_eq_ok (t := t.addWakeup) h.packageIds hp
    (fun rowid hmem => h.rowids rowid (.inl hmem)) h.packages hnow
  rw [hmoving.invocations] at hinvocations
  rw [hmoving.receipts] at hreceipts
  -- then the runs, whose packages are new by now
  have hrunsMatch := upgradeRows_eq_ok (by rwa [hmoving.bodies.size_eq])
    (fun rowid hmem => h.rowids rowid (.inr (.inl (hmoving.bodies.mem_iff.mp hmem))))
    (fun rowid row hrow => by
      obtain ⟨old, hold, hbody⟩ := hmoving.bodies.get_back hrow
      change version row.row.body cap = _
      rw [hbody]
      exact h.run_version hold) hruns
  have hdone : ∀ e ∈ done, ∃ rowid : Nat, t.packages[rowid]? = some e.2 :=
    fun e he => ⟨e.1, (hlisted e.1 e.2).mp he⟩
  refine ⟨fun rowid p hrow => ?_, fun rowid' p' hrow => ?_, hmoving.unique, ?_, ?_, ?_⟩
  · obtain ⟨rowid', body, hbody, hrow'⟩ :=
      hmoving.replaced (rowid, p) ((hlisted rowid p).mpr hrow)
    exact ⟨rowid', body, hbody, hrow'⟩
  -- no package is left as it was
  · rcases hmoving.origin rowid' p' hrow with hnot | ⟨hid, e, he, hbody⟩
    · nomatch hnot
    · obtain ⟨rowid, hrowid⟩ := hdone e he
      exact ⟨hid, rowid, e.2, hrowid, hbody⟩
  -- a run follows its package, then its own body is rewritten
  · have hfollows : Matches (fun r b => Follows hash cap done
        { r with row := { r.row with nextWakeupAtMs := none } } b) t.runs now.runs :=
      addWakeup_matches.trans hmoving.runs fun _ _ _ hab hbc => hab ▸ hbc
    have hrewritten : Matches (fun r c => ∃ b, Follows hash cap done
        { r with row := { r.row with nextWakeupAtMs := none } } b ∧
          runBody.Rewrites cap upgradeRun b c) t.runs runs :=
      hfollows.trans hrunsMatch fun _ b _ hab hbc => ⟨b, hab, hbc⟩
    refine Matches.trans (hrewritten.imp fun rowid r c hr hrc => ?_) (Matches.mapValues _ runs)
      fun _ _ _ hab hbc => hbc ▸ hab
    obtain ⟨b, hfollow, hbody⟩ := hrc
    obtain ⟨key, p, hkey, hid⟩ := h.run_package hr
    exact MovedRun.of_passes hdone ⟨(key, p), (hlisted key p).mpr hkey, hid⟩ hfollow hbody
  · exact upgradeRows_eq_ok hi (fun rowid hmem => h.rowids rowid (.inr (.inr (.inl hmem))))
      (fun _ _ hrow => h.record_version hrow) hinvocations
  · exact upgradeRows_eq_ok hc (fun rowid hmem => h.rowids rowid (.inr (.inr (.inr hmem))))
      h.receipts hreceipts

/-! ### What is read afterwards -/

/-- The upgrade gives no run another name. -/
theorem Upgraded.runIds (hu : Upgraded hash cap t t') (h : WellFormed hash cap t) :
    Unique StoredRun.id t'.runs := by
  refine hu.runs.unique (fun a b hab => ?_) h.runIds
  obtain ⟨_, _, _, _, -, -, -, -, rfl⟩ := hab
  rfl

/-- And no record another path. -/
theorem Upgraded.paths (hu : Upgraded hash cap t t') (h : WellFormed hash cap t) :
    Unique StoredInvocation.key t'.invocations := by
  refine hu.invocations.unique (fun a b hab => ?_) h.paths
  obtain ⟨_, -, rfl⟩ := hab
  rfl

/-- A record row with its body converted, where it can be. -/
def convertRow (cap : Nat) (row : InvocationRow) : InvocationRow :=
  match upgradeBody (α := InvocationRecord) cap .ok row.body with
  | .ok (some body) => { row with body := body }
  | _ => row

/-- A convertible document is upgraded to its conversion. -/
theorem upgradeBody_of_converted {α : Type} [Serialize α] [Deserialize α]
    {edit : α → Except ForgeError α} {body body' : Value} (h : Converted cap edit body body') :
    upgradeBody cap edit body = .ok (some body') := by
  obtain ⟨value, edited, hdecode, hedit, hencode⟩ := h
  have hversion := (decodeVersion_eq_ok hdecode).1
  unfold upgradeBody
  rw [hversion, ok_bind, if_neg (by decide), hdecode]
  simp only [decide_true, ensure_true, ok_bind, hedit, hencode]
  rfl

/-- The record rows of a run are converted one by one. -/
theorem Upgraded.rowsOf_eq (hu : Upgraded hash cap t t') (h : WellFormed hash cap t)
    {rowid : Nat} {owner : StoredRun} (howner : t.runs[rowid]? = some owner) :
    t'.db.rowsOf owner.id = BTreeMap.mapValues (convertRow cap) (t.db.rowsOf owner.id) := by
  obtain ⟨owner', howner', hmoved⟩ := hu.runs.get howner
  have hid : owner'.id = owner.id := by
    obtain ⟨_, _, _, _, -, -, -, -, rfl⟩ := hmoved
    rfl
  have hold := @rowsOf_get t h.runIds h.paths rowid owner howner
  have hnew := @rowsOf_get t' (hu.runIds h) (hu.paths h) rowid owner' howner'
  rw [hid] at hnew
  -- what a row is converted to is a function of the row
  have hconvert : ∀ a b : StoredInvocation,
      invocationBody.Rewrites (α := InvocationRecord) cap .ok a b →
      b = { a with row := convertRow cap a.row } := by
    rintro a _ ⟨body, hbody, rfl⟩
    have hupgrade := upgradeBody_of_converted hbody
    change upgradeBody cap .ok a.row.body = _ at hupgrade
    simp [convertRow, hupgrade, invocationBody]
  apply Std.ExtTreeMap.ext_getElem?
  intro path
  rw [BTreeMap.get_mapValues]
  apply Option.ext
  intro row'
  rw [hnew]
  constructor
  · rintro ⟨key, hkey⟩
    obtain ⟨a, ha, hab⟩ := hu.invocations.get_back hkey
    obtain ⟨runId, path', row⟩ := a
    have heq := hconvert _ _ hab
    simp only [StoredInvocation.mk.injEq] at heq
    obtain ⟨rfl, rfl, rfl⟩ := heq
    rw [hold.mpr ⟨key, ha⟩]
    rfl
  · intro hmap
    obtain ⟨row, hrow, rfl⟩ := Option.map_eq_some_iff.mp hmap
    obtain ⟨key, hkey⟩ := hold.mp hrow
    obtain ⟨b, hb, hab⟩ := hu.invocations.get hkey
    exact ⟨key, hb.trans (congrArg some (hconvert _ _ hab))⟩

/-- A converted body decodes to the edited value, when that reads back as itself. -/
theorem Converted.decode {α : Type} [Serialize α] [Deserialize α] {edit : α → Except ForgeError α}
    {body body' : Value} {value edited : α} (h : Converted cap edit body body')
    (hdecode : decodeVersion body cap 2 = .ok value) (hedit : edit value = .ok edited)
    (hreads : ReadsAs edited edited) : Sqlite.decode body' cap = .ok edited := by
  obtain ⟨value', edited', hdecode', hedit', hencode⟩ := h
  obtain rfl := Except.ok.inj (hdecode.symm.trans hdecode')
  obtain rfl := Except.ok.inj (hedit.symm.trans hedit')
  exact decode_encode hencode hreads

/-- A record of format 2 reads the same from its converted row. -/
theorem readRow_convertRow {row : InvocationRow} {record : InvocationRecord}
    (h : readRowTwo row cap = .ok record)
    (hconverted : ∃ body, Converted (α := InvocationRecord) cap .ok row.body body) :
    Query.readRow (convertRow cap row) cap = .ok record := by
  obtain ⟨body, hbody⟩ := hconverted
  obtain ⟨value, hvalue, h⟩ := bind_eq_ok.mp h
  obtain ⟨_, hcolumns, h⟩ := bind_eq_ok.mp h
  obtain rfl := Except.ok.inj h
  obtain ⟨v, hv⟩ := exists_deserialize hvalue
  have hdecode := hbody.decode hvalue rfl (InvocationRecord.readsAs_decoded hv)
  have hrow : convertRow cap row = { row with body := body } := by
    simp [convertRow, upgradeBody_of_converted hbody]
  rw [hrow, Query.readRow, hdecode, ok_bind]
  dsimp only
  rw [hcolumns]
  rfl

/-- The converted rows of a run are read back as the same records. -/
theorem readRows_convertRow {rows : List (String × InvocationRow)}
    {records records' : BTreeMap String InvocationRecord}
    (h : readRowsTwo cap rows records = .ok records')
    (hconverted : ∀ e ∈ rows, ∃ body, Converted (α := InvocationRecord) cap .ok e.2.body body) :
    Query.readRows cap (rows.map fun e => (e.1, convertRow cap e.2)) records = .ok records' := by
  induction rows generalizing records with
  | nil => exact h
  | cons e rows ih =>
    obtain ⟨record, hrecord, h⟩ := bind_eq_ok.mp h
    have hread := readRow_convertRow hrecord (hconverted e List.mem_cons_self)
    simp only [List.map_cons, Query.readRows, hread, ok_bind]
    exact ih h fun e' he' => hconverted e' (List.mem_cons_of_mem _ he')

/-- The package of a run of format 2 is the package of its new row. -/
theorem Upgraded.package_eq (hu : Upgraded hash cap t t') (h : WellFormed hash cap t)
    {r r' : StoredRun} (hmoved : MovedRun hash cap t r r') {package : ResolvedPackage}
    (hpackage : packageTwo hash t.db r.row.packageId cap = .ok package) :
    Query.package hash t'.db r'.row.packageId cap = .ok package := by
  obtain ⟨rowid, p, document, body, hrow, hid, hreplaces, -, rfl⟩ := hmoved
  obtain ⟨old, hold, -, hdecode⟩ := packageTwo_eq_ok hpackage
  obtain ⟨key, hkey⟩ := (db_packages_get h.packageIds).mp hold
  obtain rfl := h.packageIds rowid key p _ hrow hkey hid
  obtain rfl := Option.some.inj (hrow.symm.trans hkey)
  obtain ⟨rowid', document', hreplaces', hrow'⟩ := hu.replaced rowid _ hrow
  obtain rfl := hreplaces.unique hreplaces'
  have hnew := (db_packages_get hu.packageIds).mpr ⟨rowid', hrow'⟩
  unfold Query.package
  dsimp only
  rw [hnew]
  simp only [ne_eq, not_true_eq_false, if_false]
  exact hreplaces.decode hdecode rfl (LawfulSerde.readsAs _)

/-- Without waits a run wakes up at its deadline while it waits, and not otherwise. -/
theorem nextWakeupAtMs_of_no_waits {run : RunSnapshot} (h : run.waits = ∅) :
    run.nextWakeupAtMs = if run.state = .waiting then some run.deadlineAtMs else none := by
  have hempty : (∅ : BTreeMap String WaitRecord).toList = [] := rfl
  have hmin : min run.deadlineAtMs run.deadlineAtMs = run.deadlineAtMs := ite_self _
  simp [RunSnapshot.nextWakeupAtMs, h, BTreeMap.valueList, hempty, hmin]

/-- Without waits the rest of a head says when its run wakes up. -/
theorem head_eq_of_no_waits {run : RunSnapshot} {head : RunHead} (hwaits : run.waits = ∅)
    (h : withoutWakeup run.head = withoutWakeup head) :
    run.head = { head with
      nextWakeupAtMs := if head.state = .waiting then some head.deadlineAtMs else none } := by
  obtain ⟨_, _, _, _, _, _, _, _, _, _⟩ := head
  have hwakeup := nextWakeupAtMs_of_no_waits hwaits
  simp only [withoutWakeup, RunSnapshot.head, RunHead.mk.injEq, true_and] at h ⊢
  obtain ⟨rfl, rfl, rfl, rfl, rfl, rfl, rfl, rfl, rfl⟩ := h
  simp [hwakeup]

/-- The head in the columns of a migrated row. -/
theorem MovedRun.headOf {r r' : StoredRun} (hmoved : MovedRun hash cap t r r') {head : RunHead}
    (hhead : Query.headOf r.id r.row = .ok head) :
    Query.headOf r'.id r'.row = .ok { head with
      nextWakeupAtMs := if head.state = .waiting then some head.deadlineAtMs else none } := by
  obtain ⟨_, _, package, body, -, -, -, -, rfl⟩ := hmoved
  unfold Query.headOf at hhead ⊢
  dsimp only
  cases hstate : RunState.parse r.row.state with
  | none =>
    rw [hstate] at hhead
    nomatch hhead
  | some state =>
    rw [hstate] at hhead
    obtain rfl := Except.ok.inj hhead
    have hword : r.row.state = "waiting" ↔ state = .waiting := by
      rw [RunState.word_of_parse hstate]
      cases state <;> decide
    simp only [hword]

/-- A run that was readable in format 2 reads back the same in format 3. -/
theorem Upgraded.run_eq (hu : Upgraded hash cap t t') (h : WellFormed hash cap t) {id : RunId}
    {run : RunSnapshot} (hrun : readTwo hash t.db id cap = .ok (some run))
    (hwaits : run.waits = ∅) :
    Query.run hash t'.db id cap =
      .ok (some { run with checkpointFormat := checkpointFormat }) := by
  obtain ⟨row, head, header, package, records, hrow, hhead, hheader, hformat, hagrees, hpackage,
    hrecords, rfl, hsame⟩ := readTwo_eq_ok hrun
  obtain ⟨rowid, hrowid⟩ := (db_runs_get h.runIds).mp hrow
  obtain ⟨r', hr', hmoved⟩ := hu.runs.get hrowid
  have hhead' := hmoved.headOf hhead
  have hpackage' := hu.package_eq h hmoved hpackage
  have hrows := hu.rowsOf_eq h hrowid
  obtain ⟨_, _, document, body, -, -, -, hconverted, rfl⟩ := hmoved
  -- the header decodes to the edited header
  have hempty : header.invocations = ∅ := by
    simp only [Query.headerAgrees, decide_eq_true_eq] at hagrees
    exact hagrees.2.2.2.2.2.2.2.1
  obtain ⟨v, hv⟩ := exists_deserialize hheader
  have hnull := RunSnapshot.noNullOutput_decoded hv hempty
  have hedit : upgradeRun header = .ok { header with checkpointFormat := checkpointFormat } := by
    simp only [upgradeRun, hformat, ne_eq, not_true_eq_false, false_or, ite_not]
    rw [if_pos]
    exact hwaits
  have hreads : ReadsAs { header with checkpointFormat := checkpointFormat }
      { header with checkpointFormat := checkpointFormat } := by
    have hstored : RunSnapshot.stored { header with checkpointFormat := checkpointFormat } =
        { header with checkpointFormat := checkpointFormat } := RunSnapshot.stored_eq_self.mpr hnull
    have := RunSnapshot.fromValue_toValue { header with checkpointFormat := checkpointFormat }
    rwa [hstored] at this
  have hdecode := hconverted.decode hheader hedit hreads
  -- the records are the converted rows
  have hreadRows : Query.readRows cap (t'.db.rowsOf id).toList ∅ = .ok records := by
    rw [hrows, BTreeMap.toList_mapValues]
    refine readRows_convertRow hrecords fun e he => ?_
    have hlisted := Std.ExtTreeMap.mem_toList_iff_getElem?_eq_some.mp he
    obtain ⟨key, hkey⟩ := (rowsOf_get h.runIds h.paths hrowid).mp hlisted
    obtain ⟨_, -, body, hbody, -⟩ := hu.invocations.get hkey
    exact ⟨body, hbody⟩
  have hrow' := (db_runs_get (hu.runIds h)).mpr ⟨rowid, hr'⟩
  have hagrees' : Query.headerAgrees { header with checkpointFormat := checkpointFormat }
      { head with nextWakeupAtMs := if head.state = .waiting then some head.deadlineAtMs else none }
      row.finishedAtMs = true := hagrees
  -- the recomputed head is the head in the columns, the wakeup time included
  have hfinal : RunSnapshot.head { header with
      package := package, revision := head.revision, invocations := records } =
      { head with
        nextWakeupAtMs := if head.state = .waiting then some head.deadlineAtMs else none } :=
    head_eq_of_no_waits hwaits hsame
  unfold Query.run
  rw [hrow']
  dsimp only at hhead' hpackage' ⊢
  rw [hhead', ok_bind, hdecode, ok_bind]
  simp only [decide_true, ensure_true, ok_bind, hagrees', hpackage', hreadRows]
  have hcheck : RunSnapshot.head { header with
      checkpointFormat := checkpointFormat
      package := package, revision := head.revision, invocations := records } =
      { head with
        nextWakeupAtMs := if head.state = .waiting then some head.deadlineAtMs else none } :=
    hfinal
  rw [hcheck, decide_eq_true rfl]
  rfl

end Upgraded

/-! ## Opening a format-2 database -/

section Open

variable (hash : Value → String) (cap : Nat)

/-- What a committed upgrade makes of the tables `t` of format 2. -/
structure Migrated (t t' : Tables) : Prop where
  rows : Upgraded hash cap t t'
  runs : ∀ (id : RunId) (run : RunSnapshot), readTwo hash t.db id cap = .ok (some run) →
    Query.run hash t'.db id cap = .ok (some { run with checkpointFormat := checkpointFormat })
  packages : ∀ (rowid : Nat) (r' : StoredRun), t'.runs[rowid]? = some r' →
    ∃ body, t'.db.packages[r'.row.packageId]? = some body ∧ hash body = r'.row.packageId
  requests : ∀ (rowid : Nat) (r r' : ReceiptRow), t.receipts[rowid]? = some r →
    t'.receipts[rowid]? = some r' →
      ∃ request : Value, decodeVersion r.request cap 2 = .ok request ∧
        decode r'.request cap = .ok request ∧ r' = { r with request := r'.request }

variable {hash cap}

/-- An upgraded database is migrated: its rows are converted once, and what was readable is read
back. -/
theorem Upgraded.migrated {t t' : Tables} (hu : Upgraded hash cap t t')
    (h : WellFormed hash cap t) : Migrated hash cap t t' := by
  refine ⟨hu, fun id run hrun => ?_, fun rowid r' hr' => ?_, fun rowid r r' hr hr' => ?_⟩
  · obtain ⟨row, _, _, _, _, hrow, -⟩ := readTwo_eq_ok hrun
    obtain ⟨rowid, hrowid⟩ := (db_runs_get h.runIds).mp hrow
    obtain ⟨run', hrun', hwaits⟩ := h.readable rowid _ hrowid
    obtain rfl := Option.some.inj (Except.ok.inj (hrun.symm.trans hrun'))
    exact hu.run_eq h hrun hwaits
  · obtain ⟨r, hr, key, p, package, _, hkey, _, hreplaces, _, rfl⟩ := hu.runs.get_back hr'
    obtain ⟨key', package', hreplaces', hkey'⟩ := hu.replaced key p hkey
    obtain rfl := hreplaces.unique hreplaces'
    exact ⟨package, (db_packages_get hu.packageIds).mpr ⟨key', hkey'⟩, rfl⟩
  · obtain ⟨r'', hr'', request, hconverted, rfl⟩ := hu.receipts.get hr
    obtain rfl := Option.some.inj (hr'.symm.trans hr'')
    obtain ⟨value, edited, hdecode, hedit, -⟩ := id hconverted
    exact ⟨value, hdecode, hconverted.decode hdecode rfl (LawfulSerde.readsAs _), rfl⟩

/-- Opening a well-formed format-2 database ends. Either every row of it has been converted,
once, and everything is read as before, or the database is the one it was. -/
theorem checkpoint_migration {db : Database} (hversion : db.userVersion = 1 ∨ db.userVersion = 2)
    (h : WellFormed hash cap db.tables) (fuel : Nat) (hfuel : db.tables.rows < fuel) :
    ∃ db' outcome, schemaInitialize hash cap fuel db = some (db', outcome) ∧
      (outcome = .ok () → db'.userVersion = schemaVersion ∧
        Migrated hash cap db.tables db'.tables) ∧
      ∀ e, outcome = .error e → db' = db := by
  have hupgrade : upgrade hash cap fuel db = (do
      let tables ← checkpointThree hash cap fuel db.tables.addWakeup
      return ⟨schemaVersion, tables⟩) := by
    unfold upgrade
    rw [if_neg (by omega)]
  have hopen : schemaInitialize hash cap fuel db = transaction db (upgrade hash cap fuel db) := by
    unfold schemaInitialize schemaVersion
    rw [if_neg (by omega), if_pos (by omega)]
  -- the upgrade ends, with a result or with an error that rolls back
  have hends : Ends (upgrade hash cap fuel db) := by
    rw [hupgrade]
    exact (checkpointThree_ends h hfuel).bind fun _ _ => ends_pure _
  obtain ⟨outcome, hrun⟩ := hends
  rw [hopen, transaction, hrun]
  cases outcome with
  | error e => exact ⟨db, .error e, rfl, nofun, fun _ _ => rfl⟩
  | ok db' =>
    refine ⟨db', .ok (), rfl, fun _ => ?_, nofun⟩
    rw [hupgrade] at hrun
    obtain ⟨tables, htables, hdb⟩ := run_bind_eq_ok.mp hrun
    obtain rfl := Except.ok.inj (Option.some.inj hdb)
    exact ⟨rfl, (checkpointThree_eq_ok h hfuel htables).migrated h⟩

end Open

/-! ## A waiting run of format 2 -/

section Sample

/-- A digest that tells the formats apart, for examples. -/
def sampleDigest (body : Value) : String :=
  match version body 10000 with
  | .ok 2 => "two"
  | _ => "three"

/-- The envelope of format 2. -/
def envelopeTwo (payload : Value) : Value :=
  .object [("format", serialize (2 : UInt32)), ("payload", payload)]

def sampleWaiting : RunSnapshot :=
  { sampleRun with
    checkpointFormat := 2
    state := .waiting
    invocations := (∅ : BTreeMap String InvocationRecord).insert "t" sampleRecord }

/-- One package, a waiting run with one record, and a receipt. -/
def sampleTables : Tables where
  packages := (∅ : Table PackageRow).insert 1 ⟨"two", envelopeTwo (serialize sampleRun.package)⟩
  runs := (∅ : Table StoredRun).insert 1 ⟨"run", {
    scope := sampleWaiting.scope
    revision := sampleWaiting.revision
    state := "waiting"
    cancelRequested := false
    deadlineAtMs := sampleWaiting.deadlineAtMs
    finishedAtMs := none
    retainedBytes := sampleWaiting.retainedDataBytes
    invocationCount := 1
    unresolvedCount := sampleWaiting.head.unresolvedInvocations
    packageId := "two"
    body := envelopeTwo (serialize (Query.header sampleWaiting))
    nextWakeupAtMs := none }⟩
  invocations := (∅ : Table StoredInvocation).insert 1 ⟨"run", "t",
    sampleRecord.retainedDataBytes, sampleRecord.isUnresolved, envelopeTwo (serialize sampleRecord)⟩
  receipts := (∅ : Table ReceiptRow).insert 1
    ⟨sampleWaiting.scope, "key", "run", 100, envelopeTwo (.string "request")⟩

/-- The only row of a table with one row. -/
theorem get_singleton {ρ : Type} {row row' : ρ} {rowid : Nat}
    (h : ((∅ : Table ρ).insert 1 row)[rowid]? = some row') : rowid = 1 ∧ row' = row := by
  rw [BTreeMap.get_insert] at h
  split at h
  next heq => exact ⟨heq.symm, (Option.some.inj h).symm⟩
  next => simp at h

theorem unique_singleton {ρ κ : Type} (key : ρ → κ) (row : ρ) :
    Unique key ((∅ : Table ρ).insert 1 row) := by
  intro i j a b hi hj _
  rw [(get_singleton hi).1, (get_singleton hj).1]

/-- The sample database holds a run of the old format. -/
theorem sampleTables_readable : ∃ run,
    readTwo sampleDigest sampleTables.db "run" 10000 = .ok (some run) ∧ run.waits = ∅ := by
  have hread : ((readTwo sampleDigest sampleTables.db "run" 10000).toOption.any
      fun found => found.any fun run => decide (run.waits = ∅)) = true := by decide +kernel
  obtain ⟨found, hfound, hwaits⟩ := exists_ok hread
  cases found with
  | none => nomatch hwaits
  | some run => exact ⟨run, hfound, of_decide_eq_true hwaits⟩

theorem sampleTables_wellFormed : WellFormed sampleDigest 10000 sampleTables where
  rowids rowid hmem := by
    simp only [sampleTables, Std.ExtTreeMap.mem_insert, Std.ExtTreeMap.not_mem_empty, or_false,
      Std.LawfulEqCmp.compare_eq_iff_eq, or_self] at hmem
    omega
  packageIds := unique_singleton _ _
  runIds := unique_singleton _ _
  paths := unique_singleton _ _
  owned rowid row hrow := by
    obtain ⟨-, rfl⟩ := get_singleton hrow
    exact ⟨1, _, BTreeMap.get_insert_self _ _ _, rfl⟩
  packages rowid row hrow := by
    obtain ⟨-, rfl⟩ := get_singleton hrow
    decide +kernel
  receipts rowid row hrow := by
    obtain ⟨-, rfl⟩ := get_singleton hrow
    decide +kernel
  readable rowid row hrow := by
    obtain ⟨-, rfl⟩ := get_singleton hrow
    exact sampleTables_readable

/-- The sample is migrated, and its run is still there. -/
theorem checkpoint_migration_sample :
    ∃ db', schemaInitialize sampleDigest 10000 5 ⟨2, sampleTables⟩ = some (db', .ok ()) ∧
      ∃ run, Query.run sampleDigest db'.tables.db "run" 10000 = .ok (some run) ∧
        run.checkpointFormat = checkpointFormat := by
  have hcommits : ((schemaInitialize sampleDigest 10000 5 ⟨2, sampleTables⟩).any
      fun result => result.2.isOk) = true := by decide +kernel
  obtain ⟨db', outcome, hopen, hok, -⟩ := @checkpoint_migration sampleDigest 10000
    ⟨2, sampleTables⟩ (.inr rfl) sampleTables_wellFormed 5 (by decide +kernel)
  rw [hopen] at hcommits
  cases outcome with
  | error e => nomatch hcommits
  | ok _ =>
    obtain ⟨run, hrun, -⟩ := sampleTables_readable
    exact ⟨db', hopen, _, (hok rfl).2.runs "run" run hrun, rfl⟩

end Sample

end WorkflowForge.Sqlite.Migration
