import WorkflowForge.Lib.Transition
import WorkflowForge.Sqlite.Artifacts
import WorkflowForge.Sqlite.ReadBack
import WorkflowForge.Store.Reference

/-!
# The Lifecycle of Artifacts

What each transaction of the worker makes of the artifact tables, beside a log of what was
appended to each identity. The log stays when the rows are gone.

## Main results

- `Kept`: the rows of artifacts are what their logs say, within the budgets.
- `Kept.apply`: every accepted transaction keeps them so.
- `Keeps.apply`: every accepted transaction keeps what retained runs own.
-/

namespace WorkflowForge.Sqlite.Artifacts

open Lib

/-! ## Transactions -/

/-- A transaction of the worker, with its arguments and what it reads of the clock. -/
inductive Request where
  | begin (reference : ArtifactRef) (access : Option ArtifactAccess) (now later : UInt64)
  | append (reference : ArtifactRef) (access : Option ArtifactAccess) (sequence : Nat)
      (data : List UInt8)
  | publish (reference : ArtifactRef) (access : Option ArtifactAccess) (sequence : Nat)
      (now : UInt64)
  | cleanup (id : String)
  | create (clock : ArtifactRef → UInt64) (run : RunSnapshot)
      (receipt : Option ReceiptReservation) (limits : Limits)
  | commit (clock : ArtifactRef → UInt64) (expected : UInt64) (next : RunSnapshot)
  | commitNode (id : RunId) (expected : UInt64) (path : String) (record : InvocationRecord)
  | collect (now : UInt64) (limits : Limits)

section Apply

variable (hash : Value → String) (options : SqliteOptions)

def Request.apply (t : Tables) : Request → Except ForgeError Tables
  | .begin reference access now later => Artifacts.begin options t reference access now later
  | .append reference access sequence data =>
    Artifacts.append options t reference access sequence data
  | .publish reference access sequence now =>
    Artifacts.publish options t reference access sequence now
  | .cleanup id => .ok (Artifacts.cleanup t id)
  | .create clock run receipt limits =>
    (createRun hash options t clock run receipt limits).map Prod.fst
  | .commit clock expected next => commitRun hash options t clock expected next
  | .commitNode id expected path record =>
    (Sqlite.commitNode options.maxRecordBytes t.db id expected path record).map fun r =>
      { t with db := r.1 }
  | .collect now limits => collectRuns t now limits

end Apply

/-- The identity a transaction draws. -/
def Request.draws : Request → Option String
  | .begin reference .. => some reference.id
  | _ => none

/-- The log after an accepted transaction. -/
def Request.logged (log : String → List (List UInt8)) : Request → String → List (List UInt8)
  | .append reference _ _ data => Function.update log reference.id (log reference.id ++ [data])
  | _ => log

/-! ## Rows and logs -/

/-- The rows of artifacts are what their logs say, within the budgets. -/
structure Kept (options : SqliteOptions) (drawn : List String)
    (log : String → List (List UInt8)) (t : Tables) : Prop where
  known : ∀ (id : String) (row : ArtifactRow), t.files.artifacts[id]? = some row → id ∈ drawn
  count : ∀ (id : String) (row : ArtifactRow), t.files.artifacts[id]? = some row →
    row.chunks = (log id).length
  bytes : ∀ (id : String) (row : ArtifactRow), t.files.artifacts[id]? = some row →
    row.bytes = (log id).flatten.length
  bodies : ∀ (id : String) (row : ArtifactRow), t.files.artifacts[id]? = some row →
    ∀ n : Nat, (chunksOf t.files id)[n]? = (log id)[n]?
  chunkless : ∀ id : String, t.files.artifacts[id]? = none → t.files.chunks[id]? = none
  ownerless : ∀ o ∈ t.files.owners, ∃ row, t.files.artifacts[o.1]? = some row
  retained : ∀ o ∈ t.files.owners, ∃ row, t.db.runs[o.2]? = some row
  fresh : ∀ id, id ∉ drawn → log id = []
  budget : used t.files ≤ options.maxArtifactBytes
  limit : t.files.artifacts.size ≤ options.maxArtifacts

section Delete

variable {p : String → ArtifactRow → Bool} {files : ArtifactDb} {id : String}

/-- A deletion leaves the rows that it is not about. -/
theorem get_deleteWhere :
    (deleteWhere p files).artifacts[id]? = files.artifacts[id]?.filter fun row => !p id row := by
  simp only [deleteWhere, Std.ExtTreeMap.getElem?_filter']

/-- The chunks of such a row stay. -/
theorem chunks_deleteWhere (h : ∀ row, files.artifacts[id]? = some row → p id row = false) :
    (deleteWhere p files).chunks[id]? = files.chunks[id]? := by
  simp only [deleteWhere, Std.ExtTreeMap.getElem?_filter']
  cases files.chunks[id]? with
  | none => rfl
  | some rows =>
    cases hr : files.artifacts[id]? with
    | none => rfl
    | some row => simp [h row hr]

/-- So do its owners, while the owners of a deleted row are deleted with it. -/
theorem mem_owners_deleteWhere {o : String × RunId} :
    o ∈ (deleteWhere p files).owners ↔
      o ∈ files.owners ∧ ∀ row, files.artifacts[o.1]? = some row → p o.1 row = false := by
  simp only [deleteWhere, List.mem_filter, Bool.not_eq_true']
  cases files.artifacts[o.1]? <;> simp

/-- Deleting artifacts keeps every row that is left as its log says. -/
theorem Kept.deleteWhere {options : SqliteOptions} {drawn : List String}
    {log : String → List (List UInt8)} {t : Tables} (h : Kept options drawn log t)
    (p : String → ArtifactRow → Bool) :
    Kept options drawn log { t with files := Artifacts.deleteWhere p t.files } := by
  -- a row that is left was there and was not chosen
  have hleft : ∀ {id row}, (Artifacts.deleteWhere p t.files).artifacts[id]? = some row →
      t.files.artifacts[id]? = some row ∧ p id row = false := by
    intro id row hr
    rw [get_deleteWhere] at hr
    simpa [Option.filter_eq_some_iff] using hr
  have hsame : ∀ {id row}, (Artifacts.deleteWhere p t.files).artifacts[id]? = some row →
      chunksOf (Artifacts.deleteWhere p t.files) id = chunksOf t.files id := by
    intro id row hr
    obtain ⟨hr, hp⟩ := hleft hr
    unfold chunksOf
    rw [chunks_deleteWhere fun row' hr' => ?_]
    obtain rfl := Option.some.inj (hr.symm.trans hr')
    exact hp
  exact {
    known := fun id row hr => h.known id row (hleft hr).1
    count := fun id row hr => h.count id row (hleft hr).1
    bytes := fun id row hr => h.bytes id row (hleft hr).1
    bodies := fun id row hr n => by
      rw [hsame hr]
      exact h.bodies id row (hleft hr).1 n
    chunkless := fun id hn => by
      rw [get_deleteWhere] at hn
      simp only [Artifacts.deleteWhere, Std.ExtTreeMap.getElem?_filter']
      -- either there was no row, or it went with its chunks
      cases hr : t.files.artifacts[id]? with
      | none => rw [h.chunkless id hr]; rfl
      | some row =>
        rw [hr] at hn
        have hp : p id row = true := by simpa [Option.filter] using hn
        cases t.files.chunks[id]? <;> simp [Option.filter, hp]
    ownerless := fun o ho => by
      obtain ⟨ho, hp⟩ := mem_owners_deleteWhere.mp ho
      obtain ⟨row, hr⟩ := h.ownerless o ho
      exact ⟨row, by rw [get_deleteWhere, hr]; simp [Option.filter, hp row hr]⟩
    retained := fun o ho => h.retained o (mem_owners_deleteWhere.mp ho).1
    fresh := h.fresh
    budget := (BTreeMap.sumValues_filter_le _ _ _).trans h.budget
    limit := Std.ExtTreeMap.size_filter_le_size.trans h.limit }

end Delete

section Upload

variable {hash : Value → String} {options : SqliteOptions} {drawn : List String}
  {log : String → List (List UInt8)} {t t' : Tables} {reference : ArtifactRef}
  {access : Option ArtifactAccess} {sequence : Nat} {data : List UInt8}

/-- Identities that are drawn and not used are used up as well. -/
theorem Kept.draw (h : Kept options drawn log t) (ids : List String) :
    Kept options (ids ++ drawn) log t :=
  { h with
    known := fun id row hr => List.mem_append_right _ (h.known id row hr)
    fresh := fun id hid => h.fresh id fun hmem => hid (List.mem_append_right _ hmem) }

/-- Who may write for a run writes for a run that is retained. -/
theorem authorizeWriting_run {db : Db} {a : ArtifactAccess} {scope : String}
    (h : authorizeWriting db (some a) scope = .ok ()) : ∃ row, db.runs[a.runId]? = some row := by
  unfold authorizeWriting authorizeRun at h
  dsimp only at h
  split at h
  · nomatch h
  next row hrow => exact ⟨row, hrow⟩

/-- What a beginning upload writes. -/
theorem begin_eq_ok {now later : UInt64}
    (h : Artifacts.begin options t reference access now later = .ok t') :
    (∀ a ∈ access, ∃ row, t.db.runs[a.runId]? = some row) ∧
    (collect t.files now).artifacts.size < options.maxArtifacts ∧
    (collect t.files now).artifacts[reference.id]? = none ∧ ∃ row : ArtifactRow,
      row.state = .staging ∧ row.bytes = 0 ∧ row.chunks = 0 ∧
      t' = { t with
        files := { collect t.files now with
          artifacts := (collect t.files now).artifacts.insert reference.id row
          owners := (collect t.files now).owners
            ++ access.toList.map fun a => (reference.id, a.runId) } } := by
  -- the run, the number of artifacts and the identity are checked
  obtain ⟨_, hwriting, h⟩ := bind_eq_ok.mp h
  obtain ⟨_, hcount, h⟩ := bind_eq_ok.mp h
  obtain ⟨_, hnone, h⟩ := bind_eq_ok.mp h
  have hnone := ensure_eq_ok.mp hnone
  rw [Bool.not_eq_true', Std.ExtTreeMap.contains_eq_isSome_getElem?, Option.isSome_eq_false_iff,
    Option.isNone_iff_eq_none] at hnone
  refine ⟨?_, of_decide_eq_true (ensure_eq_ok.mp hcount), hnone, _, rfl, rfl, rfl,
    (Except.ok.inj h).symm⟩
  rintro a rfl
  exact authorizeWriting_run hwriting

/-- An upload begins under a fresh identity, without a chunk. -/
theorem Kept.begin (h : Kept options drawn log t) {now later : UInt64}
    (hdrawn : reference.id ∉ drawn)
    (hb : Artifacts.begin options t reference access now later = .ok t') :
    Kept options (reference.id :: drawn) log t' := by
  obtain ⟨hrun, hcount, hnone, row, hstate, hbytes, hchunks, rfl⟩ := begin_eq_ok hb
  have hc : Kept options drawn log { t with files := collect t.files now } := h.deleteWhere _
  have hlog := h.fresh reference.id hdrawn
  -- the new row stands beside those that the clean-up leaves
  have hget : ∀ {id r}, ((collect t.files now).artifacts.insert reference.id row)[id]? = some r →
      id = reference.id ∧ r = row ∨ (collect t.files now).artifacts[id]? = some r := by
    intro id r hr
    rw [BTreeMap.get_insert] at hr
    split at hr
    next heq => exact .inl ⟨heq.symm, (Option.some.inj hr).symm⟩
    next => exact .inr hr
  -- no chunk is left under an identity without a row
  have hbare : chunksOf (collect t.files now) reference.id = ∅ := by
    rw [chunksOf, hc.chunkless reference.id hnone]
    rfl
  exact {
    known := fun id r hr => by
      rcases hget hr with ⟨rfl, _⟩ | hr
      · exact List.mem_cons_self
      · exact List.mem_cons_of_mem _ (hc.known id r hr)
    count := fun id r hr => by
      rcases hget hr with ⟨rfl, rfl⟩ | hr
      · rw [hchunks, hlog]; rfl
      · exact hc.count id r hr
    bytes := fun id r hr => by
      rcases hget hr with ⟨rfl, rfl⟩ | hr
      · rw [hbytes, hlog]; rfl
      · exact hc.bytes id r hr
    bodies := fun id r hr n => by
      rcases hget hr with ⟨rfl, rfl⟩ | hr
      · change (chunksOf (collect t.files now) reference.id)[n]? = _
        rw [hbare, hlog]
        simp
      · exact hc.bodies id r hr n
    chunkless := fun id hn => by
      rw [BTreeMap.get_insert] at hn
      split at hn
      · nomatch hn
      · exact hc.chunkless id hn
    ownerless := fun o ho => by
      rw [BTreeMap.get_insert]
      split
      · exact ⟨row, rfl⟩
      next hne =>
        rcases List.mem_append.mp ho with ho | ho
        · exact hc.ownerless o ho
        -- the owner added is of the new artifact
        · obtain ⟨a, _, rfl⟩ := List.mem_map.mp ho
          exact absurd rfl hne
    retained := fun o ho => by
      rcases List.mem_append.mp ho with ho | ho
      · exact hc.retained o ho
      · obtain ⟨a, ha, rfl⟩ := List.mem_map.mp ho
        exact hrun a (Option.mem_toList.mp ha)
    fresh := fun id hid => h.fresh id fun hmem => hid (List.mem_cons_of_mem _ hmem)
    budget := by
      have hsum := BTreeMap.sumValues_insert ArtifactRow.bytes (collect t.files now).artifacts
        reference.id row
      have hbudget := hc.budget
      simp only [hnone, hbytes, Option.map_none, Option.getD_none] at hsum
      simp only [used] at hbudget ⊢
      omega
    limit := by
      have hsize : ((collect t.files now).artifacts.insert reference.id row).size ≤
          (collect t.files now).artifacts.size + 1 := Std.ExtTreeMap.size_insert_le
      change ((collect t.files now).artifacts.insert reference.id row).size ≤ _
      omega }

/-- A chunk goes to the row that is staged under its reference, at its next position. -/
theorem staged_eq_some {files : ArtifactDb} {row : ArtifactRow} :
    staged files reference sequence = some row ↔
      files.artifacts[reference.id]? = some row ∧ row.state = .staging ∧
        row.bytes = reference.bytes.toNat ∧ row.chunks = sequence := by
  simp [staged, Option.filter_eq_some_iff]

/-- What an accepted chunk writes. -/
theorem append_eq_ok (h : Artifacts.append options t reference access sequence data = .ok t') :
    ∃ row, t.files.artifacts[reference.id]? = some row ∧ row.state = .staging ∧
      row.chunks = sequence ∧ data.length ≤ options.maxArtifactBytes - used t.files ∧
      0 < data.length ∧ data.length ≤ chunkBytes ∧
      t' = { t with
        files := { t.files with
          artifacts := t.files.artifacts.insert reference.id
            { row with bytes := row.bytes + data.length, chunks := row.chunks + 1 }
          chunks := t.files.chunks.insert reference.id
            ((chunksOf t.files reference.id).insert sequence data) } } := by
  obtain ⟨_, _, h⟩ := bind_eq_ok.mp h
  obtain ⟨_, hfits, h⟩ := bind_eq_ok.mp h
  split at h
  · nomatch h
  next row hstaged =>
    obtain ⟨hrow, hstate, _, hchunks⟩ := staged_eq_some.mp hstaged
    obtain ⟨_, hchunk, h⟩ := bind_eq_ok.mp h
    obtain ⟨_, hpos, hle⟩ := of_decide_eq_true (ensure_eq_ok.mp hchunk)
    exact ⟨row, hrow, hstate, hchunks, of_decide_eq_true (ensure_eq_ok.mp hfits), hpos, hle,
      (Except.ok.inj h).symm⟩

/-- A chunk of an upload that is accepted comes after the ones before it. -/
theorem Kept.append (h : Kept options drawn log t)
    (ha : Artifacts.append options t reference access sequence data = .ok t') :
    Kept options drawn (Function.update log reference.id (log reference.id ++ [data])) t' := by
  obtain ⟨row, hrow, _, hchunks, hfits, _, _, rfl⟩ := append_eq_ok ha
  have hcount := h.count reference.id row hrow
  have hbytes := h.bytes reference.id row hrow
  -- only the row of the upload changes
  have hget : ∀ {id r}, (t.files.artifacts.insert reference.id
      { row with bytes := row.bytes + data.length, chunks := row.chunks + 1 })[id]? = some r →
      id = reference.id ∧
          r = { row with bytes := row.bytes + data.length, chunks := row.chunks + 1 } ∨
        id ≠ reference.id ∧ t.files.artifacts[id]? = some r := by
    intro id r hr
    rw [BTreeMap.get_insert] at hr
    split at hr
    next heq => exact .inl ⟨heq.symm, (Option.some.inj hr).symm⟩
    next hne => exact .inr ⟨Ne.symm hne, hr⟩
  exact {
    known := fun id r hr => by
      rcases hget hr with ⟨rfl, _⟩ | ⟨_, hr⟩
      · exact h.known _ row hrow
      · exact h.known id r hr
    count := fun id r hr => by
      rcases hget hr with ⟨rfl, rfl⟩ | ⟨hne, hr⟩
      · rw [Function.update_self, List.length_append, ← hcount]
        rfl
      · rw [Function.update_of_ne hne]
        exact h.count id r hr
    bytes := fun id r hr => by
      rcases hget hr with ⟨rfl, rfl⟩ | ⟨hne, hr⟩
      · rw [Function.update_self, List.flatten_append, List.length_append, ← hbytes]
        simp
      · rw [Function.update_of_ne hne]
        exact h.bytes id r hr
    bodies := fun id r hr n => by
      rcases hget hr with ⟨rfl, rfl⟩ | ⟨hne, hr⟩
      · -- the new chunk stands right after the log
        rw [Function.update_self]
        simp only [chunksOf, BTreeMap.get_insert_self, Option.getD_some]
        change ((chunksOf t.files reference.id).insert sequence data)[n]? = _
        rw [BTreeMap.get_insert, h.bodies reference.id row hrow n, ← hchunks, hcount]
        -- before, at and after the position of the new chunk
        rcases Nat.lt_trichotomy n (log reference.id).length with hlt | rfl | hgt
        · rw [if_neg (Nat.ne_of_gt hlt), List.getElem?_append_left hlt]
        · rw [if_pos rfl, List.getElem?_concat_length]
        · rw [if_neg (Nat.ne_of_lt hgt), List.getElem?_eq_none (by omega),
            List.getElem?_eq_none (by simp; omega)]
      · rw [Function.update_of_ne hne]
        have hsame : chunksOf { t.files with
            artifacts := t.files.artifacts.insert reference.id
              { row with bytes := row.bytes + data.length, chunks := row.chunks + 1 }
            chunks := t.files.chunks.insert reference.id
              ((chunksOf t.files reference.id).insert sequence data) } id =
            chunksOf t.files id := by
          simp only [chunksOf, BTreeMap.get_insert, if_neg (Ne.symm hne)]
        exact hsame ▸ h.bodies id r hr n
    chunkless := fun id hn => by
      rw [BTreeMap.get_insert] at hn ⊢
      split at hn
      · cases hn
      next hne =>
        rw [if_neg hne]
        exact h.chunkless id hn
    ownerless := fun o ho => by
      rw [BTreeMap.get_insert]
      split
      · exact ⟨_, rfl⟩
      · exact h.ownerless o ho
    retained := h.retained
    fresh := fun id hid => by
      have hne : id ≠ reference.id := by
        rintro rfl
        exact hid (h.known _ row hrow)
      rw [Function.update_of_ne hne]
      exact h.fresh id hid
    budget := by
      have hsum := BTreeMap.sumValues_insert ArtifactRow.bytes t.files.artifacts reference.id
        { row with bytes := row.bytes + data.length, chunks := row.chunks + 1 }
      have hbudget := h.budget
      simp only [hrow, Option.map_some, Option.getD_some] at hsum
      simp only [used] at hbudget hfits ⊢
      omega
    limit := by
      have hmem : t.files.artifacts.contains reference.id = true := by
        rw [Std.ExtTreeMap.contains_eq_isSome_getElem?, hrow]
        rfl
      have hsize := Std.ExtTreeMap.size_insert (t := t.files.artifacts) (k := reference.id)
        (v := { row with bytes := row.bytes + data.length, chunks := row.chunks + 1 })
      rw [if_pos hmem] at hsize
      exact hsize ▸ h.limit }

/-- The counters of an artifact. -/
def ArtifactRow.counters (row : ArtifactRow) : Nat × Nat := (row.bytes, row.chunks)

/-- The rows stay what the logs say when only other columns change. -/
theorem Kept.of_counters (h : Kept options drawn log t)
    (hrows : BTreeMap.mapValues ArtifactRow.counters t'.files.artifacts =
      BTreeMap.mapValues ArtifactRow.counters t.files.artifacts)
    (hchunks : t'.files.chunks = t.files.chunks)
    (howners : ∀ o ∈ t'.files.owners, (∃ row, t'.files.artifacts[o.1]? = some row) ∧
      ∃ row, t'.db.runs[o.2]? = some row) : Kept options drawn log t' := by
  have hsame : ∀ id : String, t'.files.artifacts[id]?.map ArtifactRow.counters =
      t.files.artifacts[id]?.map ArtifactRow.counters := by
    intro id
    have := congrArg (fun m => m[id]?) hrows
    simpa only [BTreeMap.get_mapValues] using this
  -- every row comes from a row with the same counters
  have hback : ∀ {id : String} {row : ArtifactRow}, t'.files.artifacts[id]? = some row →
      ∃ row', t.files.artifacts[id]? = some row' ∧ row.bytes = row'.bytes ∧
        row.chunks = row'.chunks := by
    intro id row hr
    have hid := hsame id
    rw [hr, Option.map_some] at hid
    obtain ⟨row', hr', hc⟩ := Option.map_eq_some_iff.mp hid.symm
    obtain ⟨hb, hc⟩ := Prod.mk.inj hc
    exact ⟨row', hr', hb.symm, hc.symm⟩
  have hchunksOf : ∀ id, chunksOf t'.files id = chunksOf t.files id := fun id => by
    simp only [chunksOf, hchunks]
  exact {
    known := fun id row hr => by
      obtain ⟨row', hr', _⟩ := hback hr
      exact h.known id row' hr'
    count := fun id row hr => by
      obtain ⟨row', hr', _, hc⟩ := hback hr
      exact hc.trans (h.count id row' hr')
    bytes := fun id row hr => by
      obtain ⟨row', hr', hb, _⟩ := hback hr
      exact hb.trans (h.bytes id row' hr')
    bodies := fun id row hr n => by
      obtain ⟨row', hr', _⟩ := hback hr
      rw [hchunksOf]
      exact h.bodies id row' hr' n
    chunkless := fun id hn => by
      have hid := hsame id
      -- no row now, so none before
      rw [hn, Option.map_none, eq_comm, Option.map_eq_none_iff] at hid
      rw [hchunks]
      exact h.chunkless id hid
    ownerless := fun o ho => (howners o ho).1
    retained := fun o ho => (howners o ho).2
    fresh := h.fresh
    budget := by
      have hsum := congrArg (BTreeMap.sumValues Prod.fst) hrows
      rw [BTreeMap.sumValues_mapValues, BTreeMap.sumValues_mapValues] at hsum
      exact (show used t'.files = used t.files from hsum) ▸ h.budget
    limit := by
      have hsize := congrArg Std.ExtTreeMap.size hrows
      rw [BTreeMap.size_mapValues, BTreeMap.size_mapValues] at hsize
      exact hsize ▸ h.limit }

/-- What a publication writes. -/
theorem publish_eq_ok {now : UInt64}
    (h : Artifacts.publish options t reference access sequence now = .ok t') :
    ∃ row, t.files.artifacts[reference.id]? = some row ∧ row.state = .staging ∧
      t' = { t with
        files := { t.files with
          artifacts := t.files.artifacts.insert reference.id
            { row with state := .ready, orphanAfterMs := expiry options now } } } := by
  obtain ⟨_, _, h⟩ := bind_eq_ok.mp h
  split at h
  · nomatch h
  next row hstaged =>
    obtain ⟨hrow, hstate, _⟩ := staged_eq_some.mp hstaged
    exact ⟨row, hrow, hstate, (Except.ok.inj h).symm⟩

/-- A publication turns a staged upload with its declared size and digest into a readable one. -/
theorem Kept.publish (h : Kept options drawn log t) {now : UInt64}
    (hp : Artifacts.publish options t reference access sequence now = .ok t') :
    Kept options drawn log t' := by
  obtain ⟨row, hrow, _, rfl⟩ := publish_eq_ok hp
  refine h.of_counters (BTreeMap.mapValues_insert _ hrow rfl) rfl fun o ho => ⟨?_, h.retained o ho⟩
  rw [BTreeMap.get_insert]
  split
  · exact ⟨_, rfl⟩
  · exact h.ownerless o ho

end Upload

/-! ## Runs and what they pin -/

section Runs

variable {hash : Value → String} {options : SqliteOptions} {drawn : List String}
  {log : String → List (List UInt8)} {t t' : Tables} {clock : ArtifactRef → UInt64}

/-- A row without what a pin changes of it. -/
def ArtifactRow.forget (row : ArtifactRow) : ArtifactRow :=
  { row with everOwned := true }

/-- What pinning references to a run does. -/
structure Pinned (run : RunId) (files files' : ArtifactDb) : Prop where
  chunks : files'.chunks = files.chunks
  rows : BTreeMap.mapValues ArtifactRow.forget files'.artifacts =
    BTreeMap.mapValues ArtifactRow.forget files.artifacts
  owners : ∀ o ∈ files.owners, o ∈ files'.owners
  added : ∀ o ∈ files'.owners, o ∈ files.owners ∨
    o.2 = run ∧ ∃ row, files.artifacts[o.1]? = some row

/-- Rows that differ in their leases only are found under the same identities. -/
theorem forget_eq {files files' : ArtifactDb}
    (h : BTreeMap.mapValues ArtifactRow.forget files'.artifacts =
      BTreeMap.mapValues ArtifactRow.forget files.artifacts) (id : String) :
    files'.artifacts[id]?.map ArtifactRow.forget =
      files.artifacts[id]?.map ArtifactRow.forget := by
  have := congrArg (fun m => m[id]?) h
  simpa only [BTreeMap.get_mapValues] using this

/-- A pin finds and loses no row. -/
theorem Pinned.found {run : RunId} {files files' : ArtifactDb} (h : Pinned run files files')
    {id : String} : (∃ row, files'.artifacts[id]? = some row) ↔
      ∃ row, files.artifacts[id]? = some row := by
  have hid := congrArg Option.isSome (forget_eq h.rows id)
  simp only [Option.isSome_map] at hid
  rw [← Option.isSome_iff_exists, ← Option.isSome_iff_exists, hid]

/-- A reference that passes its check is one of a readable row. -/
theorem checkReference_found {files : ArtifactDb} {reference : ArtifactRef} {now : UInt64}
    {chunks : Nat} (h : checkReference files reference now = .ok chunks) :
    ∃ row, files.artifacts[reference.id]? = some row ∧
      readable files reference now row = true ∧ chunks = row.chunks := by
  obtain ⟨_, _, h⟩ := bind_eq_ok.mp h
  split at h
  · nomatch h
  next row hrow =>
    split at h
    next hreadable => exact ⟨row, hrow, hreadable, (Except.ok.inj h).symm⟩
    next => nomatch h

/-- Pinning references one after the other adds owners for the run, and renews leases at most. -/
theorem pinReferences_pinned {run : RunId} {scope : String} (references : List ArtifactRef)
    {files files' : ArtifactDb}
    (h : pinReferences clock run scope references files = .ok files') :
    Pinned run files files' := by
  -- by induction on the references: each pin leaves the rows but for who ever owned them
  induction references generalizing files with
  | nil =>
    obtain rfl := Except.ok.inj h
    exact ⟨rfl, rfl, fun _ ho => ho, fun _ ho => .inl ho⟩
  | cons reference references ih =>
    obtain ⟨_, _, h⟩ := bind_eq_ok.mp h
    obtain ⟨chunks, hcheck, h⟩ := bind_eq_ok.mp h
    obtain ⟨row, hrow, _⟩ := checkReference_found hcheck
    have hrest := ih h
    have hone : BTreeMap.mapValues ArtifactRow.forget (files.artifacts.alter reference.id fun row =>
        row.map fun row => { row with everOwned := true }) =
        BTreeMap.mapValues ArtifactRow.forget files.artifacts := by
      apply Std.ExtTreeMap.ext_getElem?
      intro id
      rw [BTreeMap.get_mapValues, BTreeMap.get_mapValues, Std.ExtTreeMap.getElem?_alter]
      split
      next heq =>
        obtain rfl := Std.LawfulEqCmp.eq_of_compare heq
        rw [hrow]
        rfl
      next => rfl
    refine ⟨hrest.chunks, hrest.rows.trans hone, fun o ho => hrest.owners o ?_, fun o ho => ?_⟩
    · dsimp only
      split
      · exact ho
      · exact List.mem_append_left _ ho
    · have hid : ∀ id : String, (files.artifacts.alter reference.id fun row =>
          row.map fun row => { row with everOwned := true })[id]?.isSome =
          files.artifacts[id]?.isSome := by
        intro id
        have := congrArg (fun m => m[id]?.isSome) hone
        simpa only [BTreeMap.get_mapValues, Option.isSome_map] using this
      rcases hrest.added o ho with ho | ⟨hrun, hfound⟩
      · dsimp only at ho
        split at ho
        · exact .inl ho
        · rcases List.mem_append.mp ho with ho | ho
          · exact .inl ho
          · obtain rfl := List.mem_singleton.mp ho
            exact .inr ⟨rfl, row, hrow⟩
      · refine .inr ⟨hrun, ?_⟩
        rw [← Option.isSome_iff_exists] at hfound ⊢
        rwa [hid] at hfound

/-- What a transaction of runs leaves of the run table. -/
structure RunsKept (db db' : Db) : Prop where
  stay : ∀ (id : RunId) (row : RunRow), db.runs[id]? = some row →
    ∃ row', db'.runs[id]? = some row'
  scope : ∀ (id : RunId) (row row' : RunRow), db.runs[id]? = some row →
    db'.runs[id]? = some row' → row'.scope = row.scope

/-- A row that is written for one run leaves the others, and no run changes its scope. -/
theorem RunsKept.of_insert {db db' : Db} {id : RunId} {row : RunRow}
    (hruns : db'.runs = db.runs.insert id row)
    (hscope : ∀ old, db.runs[id]? = some old → row.scope = old.scope) : RunsKept db db' where
  stay id' row' hr := by
    rw [hruns, BTreeMap.get_insert]
    split
    · exact ⟨_, rfl⟩
    · exact ⟨row', hr⟩
  scope id' old new hold hnew := by
    rw [hruns, BTreeMap.get_insert] at hnew
    split at hnew
    next heq =>
      subst heq
      obtain rfl := Option.some.inj hnew
      exact hscope old hold
    next =>
      obtain rfl := Option.some.inj (hold.symm.trans hnew)
      rfl

/-- Pins on retained runs keep the rows of artifacts what the logs say. -/
theorem Kept.pinned (h : Kept options drawn log t) {run : RunId} {db' : Db}
    {files' : ArtifactDb} (hp : Pinned run t.files files') (hruns : RunsKept t.db db')
    (hrun : ∃ row, db'.runs[run]? = some row) : Kept options drawn log ⟨db', files'⟩ := by
  refine h.of_counters ?_ hp.chunks fun o ho => ?_
  · have hcounters := congrArg (BTreeMap.mapValues ArtifactRow.counters) hp.rows
    have hcomp : ∀ m : BTreeMap String ArtifactRow,
        BTreeMap.mapValues ArtifactRow.counters (BTreeMap.mapValues ArtifactRow.forget m) =
          BTreeMap.mapValues ArtifactRow.counters m := by
      intro m
      apply Std.ExtTreeMap.ext_getElem?
      intro id
      simp only [BTreeMap.get_mapValues, Option.map_map]
      rfl
    rwa [hcomp, hcomp] at hcounters
  · rcases hp.added o ho with ho | ⟨rfl, hrow⟩
    · obtain ⟨row, hr⟩ := h.retained o ho
      exact ⟨hp.found.mpr (h.ownerless o ho), hruns.stay o.2 row hr⟩
    · exact ⟨hp.found.mpr hrow, hrun⟩

/-- A published artifact stays with the runs that own it, as long as they are retained. -/
structure Keeps (t t' : Tables) : Prop where
  owned : ∀ (id : String) (row : ArtifactRow) (run : RunId),
    t.files.artifacts[id]? = some row → row.state = .ready → (id, run) ∈ t.files.owners →
    (∃ r, t'.db.runs[run]? = some r) →
      (id, run) ∈ t'.files.owners ∧
        t'.files.artifacts[id]?.map ArtifactRow.forget = some (ArtifactRow.forget row) ∧
        t'.files.chunks[id]? = t.files.chunks[id]?
  scope : ∀ (run : RunId) (r r' : RunRow), t.db.runs[run]? = some r →
    t'.db.runs[run]? = some r' → r'.scope = r.scope

theorem scope_self (db : Db) (run : RunId) (r r' : RunRow) (h : db.runs[run]? = some r)
    (h' : db.runs[run]? = some r') : r'.scope = r.scope := by
  obtain rfl := Option.some.inj (h.symm.trans h')
  rfl

/-- Nothing is lost where nothing happens. -/
theorem Keeps.refl (t : Tables) : Keeps t t where
  owned id row run hr _ ho _ := ⟨ho, by rw [hr]; rfl, rfl⟩
  scope := scope_self t.db

/-- A clean-up that spares what is owned. -/
theorem Keeps.deleteWhere {p : String → ArtifactRow → Bool} (hp : ∀ id row run,
    t.files.artifacts[id]? = some row → row.state = .ready → (id, run) ∈ t.files.owners →
      p id row = false) : Keeps t { t with files := Artifacts.deleteWhere p t.files } where
  owned id row run hr hs ho _ := by
    have hid := hp id row run hr hs ho
    refine ⟨mem_owners_deleteWhere.mpr ⟨ho, fun row' hr' => ?_⟩, ?_, ?_⟩
    · obtain rfl := Option.some.inj (hr.symm.trans hr')
      exact hid
    · rw [get_deleteWhere, hr]
      simp [Option.filter, hid]
    · refine chunks_deleteWhere fun row' hr' => ?_
      obtain rfl := Option.some.inj (hr.symm.trans hr')
      exact hid
  scope := scope_self t.db

/-- An artifact with an owner is owned. -/
theorem owned_of_mem {files : ArtifactDb} {id : String} {run : RunId}
    (h : (id, run) ∈ files.owners) : owned files id = true :=
  List.any_eq_true.mpr ⟨_, h, decide_eq_true rfl⟩

/-- A collection deletes expired uploads and readable rows without an owner. -/
theorem Keeps.collect (t : Tables) (now : UInt64) :
    Keeps t { t with files := Artifacts.collect t.files now } :=
  Keeps.deleteWhere fun _ _ _ _ _ ho => by simp [owned_of_mem ho]

/-- The deletion of uploads is not about readable rows. -/
theorem Keeps.staging {p : String → ArtifactRow → Bool}
    (hp : ∀ id row, row.state = .ready → p id row = false) (t : Tables) :
    Keeps t { t with files := Artifacts.deleteWhere p t.files } :=
  Keeps.deleteWhere fun id row _ _ hs _ => hp id row hs

/-- What two steps keep, both of them keep, as no run comes back. -/
theorem Keeps.trans {t'' : Tables} (h : Keeps t t') (h' : Keeps t' t'')
    (hruns : ∀ run : RunId, (∃ r, t''.db.runs[run]? = some r) →
      ∃ r, t'.db.runs[run]? = some r) :
    Keeps t t'' where
  owned id row run hr hs ho hrun := by
    obtain ⟨ho', hr', hc'⟩ := h.owned id row run hr hs ho (hruns run hrun)
    obtain ⟨row', hr', hforget⟩ := Option.map_eq_some_iff.mp hr'
    have hs' : row'.state = .ready := (congrArg ArtifactRow.state hforget).trans hs
    obtain ⟨ho'', hr'', hc''⟩ := h'.owned id row' run hr' hs' ho' hrun
    exact ⟨ho'', hforget ▸ hr'', hc''.trans hc'⟩
  scope run r r'' hr hr'' := by
    obtain ⟨r', hr'⟩ := hruns run ⟨r'', hr''⟩
    exact (h'.scope run r' r'' hr' hr'').trans (h.scope run r r' hr hr')

/-- Changing the row and the chunks of one artifact that is not published. -/
theorem Keeps.update (id : String) {files' : ArtifactDb}
    (hid : ∀ row, t.files.artifacts[id]? = some row → row.state ≠ .ready)
    (hrows : ∀ id', id' ≠ id → files'.artifacts[id']? = t.files.artifacts[id']?)
    (hchunks : ∀ id', id' ≠ id → files'.chunks[id']? = t.files.chunks[id']?)
    (howners : ∀ o ∈ t.files.owners, o ∈ files'.owners) :
    Keeps t { t with files := files' } where
  owned id' row run hr hs ho _ := by
    have hne : id' ≠ id := by
      rintro rfl
      exact hid row hr hs
    exact ⟨howners _ ho, by rw [hrows id' hne, hr]; rfl, hchunks id' hne⟩
  scope := scope_self t.db

/-- A commit that pins its references keeps those of all other runs. -/
theorem Keeps.pinned {run : RunId} {db' : Db} {files' : ArtifactDb}
    (hp : Pinned run t.files files') (hruns : RunsKept t.db db') : Keeps t ⟨db', files'⟩ where
  owned id row run' hr _ ho _ :=
    ⟨hp.owners _ ho, by rw [forget_eq hp.rows, hr]; rfl, by rw [hp.chunks]⟩
  scope := hruns.scope

/-! ### Each transaction of runs -/

/-- A start adds at most its own run. -/
theorem create_runs {db db' : Db} {run : RunSnapshot} {receipt : Option ReceiptReservation}
    {limits : Limits} {outcome : CreateOutcome} {cap : Nat}
    {available : ArtifactRef → Except ForgeError Unit}
    (h : Sqlite.create hash cap db available run receipt limits = .ok (db', outcome)) :
    RunsKept db db' ∧ (outcome = .created → ∃ row, db'.runs[run.id]? = some row) := by
  cases outcome with
  | created =>
    obtain ⟨_, hnone, _, _, row, _, _, _, _, _, hruns, _⟩ := create_eq_created h
    refine ⟨.of_insert hruns fun old hold => ?_, fun _ => ⟨row, ?_⟩⟩
    · rw [hnone] at hold
      nomatch hold
    · rw [hruns, BTreeMap.get_insert_self]
  | duplicate id expiresAtMs =>
    obtain ⟨hruns, _⟩ := create_eq_duplicate h
    refine ⟨⟨fun id row hr => ⟨row, hruns ▸ hr⟩, fun id r r' hr hr' => ?_⟩, nofun⟩
    rw [hruns] at hr'
    exact scope_self db id r r' hr hr'

/-- A full commit replaces its own run. -/
theorem commit_runs {db db' : Db} {expected : UInt64} {next : RunSnapshot} {cap : Nat}
    {available : ArtifactRef → Except ForgeError Unit}
    (h : Sqlite.commit hash cap db available expected next = .ok db') :
    RunsKept db db' ∧ ∃ row, db'.runs[next.id]? = some row := by
  obtain ⟨_, old, row, _, _, hold, _, _, _, rfl⟩ := commit_eq_ok h
  refine ⟨.of_insert rfl fun old' hold' => ?_, ⟨_, BTreeMap.get_insert_self _ _ _⟩⟩
  obtain rfl := Option.some.inj (hold.symm.trans hold')
  rfl

/-- A narrow commit replaces a run within its scope. -/
theorem commitNode_runs {db db' : Db} {id : RunId} {expected : UInt64} {path : String}
    {record : InvocationRecord} {view : ExecutionView} {cap : Nat}
    (h : Sqlite.commitNode cap db id expected path record = .ok (db', view)) :
    RunsKept db db' := by
  obtain ⟨_, row, _, _, _, _, hrow, _, _, _, _, rfl⟩ := commitNode_eq_ok h
  refine .of_insert rfl fun old hold => ?_
  obtain rfl := Option.some.inj (hrow.symm.trans hold)
  rfl

/-- A start either changes no file, or pins what its run refers to. -/
theorem createRun_eq_ok {run : RunSnapshot} {receipt : Option ReceiptReservation}
    {limits : Limits} {outcome : CreateOutcome}
    (h : createRun hash options t clock run receipt limits = .ok (t', outcome)) :
    RunsKept t.db t'.db ∧ (t'.files = t.files ∨
      Pinned run.id t.files t'.files ∧ ∃ row, t'.db.runs[run.id]? = some row) := by
  obtain ⟨⟨db, outcome'⟩, hc, h⟩ := bind_eq_ok.mp h
  obtain ⟨hruns, hcreated⟩ := create_runs hc
  cases outcome' with
  | duplicate id expiresAtMs =>
    obtain ⟨rfl, -⟩ := Prod.mk.inj (Except.ok.inj h)
    exact ⟨hruns, .inl rfl⟩
  | created =>
    obtain ⟨files, hp, h⟩ := bind_eq_ok.mp h
    obtain ⟨rfl, -⟩ := Prod.mk.inj (Except.ok.inj h)
    exact ⟨hruns, .inr ⟨pinReferences_pinned _ hp, hcreated rfl⟩⟩

/-- A commit pins what its run refers to. -/
theorem commitRun_eq_ok {expected : UInt64} {next : RunSnapshot}
    (h : commitRun hash options t clock expected next = .ok t') :
    RunsKept t.db t'.db ∧ Pinned next.id t.files t'.files ∧
      ∃ row, t'.db.runs[next.id]? = some row := by
  obtain ⟨current, _, h⟩ := bind_eq_ok.mp h
  cases current with
  | none => nomatch h
  | some current =>
    obtain ⟨db, hc, h⟩ := bind_eq_ok.mp h
    obtain ⟨files, hp, h⟩ := bind_eq_ok.mp h
    obtain rfl := Except.ok.inj h
    obtain ⟨hruns, hrow⟩ := commit_runs hc
    exact ⟨hruns, pinReferences_pinned _ hp, hrow⟩

/-- A collection of runs only deletes runs. -/
theorem collect_runs {db db' : Db} {now : UInt64} {limits : Limits}
    (h : Sqlite.collect db now limits = .ok db') (id : RunId) (row : RunRow)
    (hr : db'.runs[id]? = some row) : db.runs[id]? = some row := by
  obtain ⟨_, _, h⟩ := bind_eq_ok.mp h
  obtain rfl := Except.ok.inj h
  have hget := MemoryExecutionStore.foldl_erase_get
    (expired { db with receipts := db.receipts.filter fun r => now < r.expiresAtMs } now limits)
    db.runs id
  have hget := hget.symm.trans hr
  split at hget
  · nomatch hget
  · exact hget

/-- A collection of runs releases the artifacts of those that are gone, and collects. -/
theorem collectRuns_eq_ok {now : UInt64} {limits : Limits}
    (h : collectRuns t now limits = .ok t') :
    (∀ (id : RunId) (row : RunRow), t'.db.runs[id]? = some row → t.db.runs[id]? = some row) ∧
      t' = ⟨t'.db, collect (releaseOwners t'.db t.files) now⟩ := by
  obtain ⟨db, hc, h⟩ := bind_eq_ok.mp h
  obtain rfl := Except.ok.inj h
  exact ⟨collect_runs hc, rfl⟩

/-- What runs leave behind when they are deleted. -/
theorem Kept.releaseOwners (h : Kept options drawn log t) (db : Db) :
    Kept options drawn log ⟨db, Artifacts.releaseOwners db t.files⟩ := by
  refine h.of_counters rfl rfl fun o ho => ?_
  obtain ⟨ho, hrun⟩ := List.mem_filter.mp ho
  rw [Std.ExtTreeMap.contains_eq_isSome_getElem?, Option.isSome_iff_exists] at hrun
  exact ⟨h.ownerless o ho, hrun⟩

/-- Only the owners that are no runs any more are released. -/
theorem Keeps.releaseOwners {db : Db} (hruns : ∀ (id : RunId) (row : RunRow),
    db.runs[id]? = some row → t.db.runs[id]? = some row) :
    Keeps t ⟨db, Artifacts.releaseOwners db t.files⟩ where
  owned id row run hr _ ho hrun := by
    have hkept : t.files.artifacts[id]?.map ArtifactRow.forget = some (ArtifactRow.forget row) := by
      rw [hr]
      rfl
    refine ⟨List.mem_filter.mpr ⟨ho, ?_⟩, hkept, rfl⟩
    rw [Std.ExtTreeMap.contains_eq_isSome_getElem?, Option.isSome_iff_exists]
    exact hrun
  scope run r r' hr hr' := by
    obtain rfl := Option.some.inj (hr.symm.trans (hruns run r' hr'))
    rfl

/-! ## Every transaction -/

/-- Every accepted transaction keeps the rows what the logs say. -/
theorem Kept.apply (h : Kept options drawn log t) (request : Request)
    (hfresh : ∀ id ∈ request.draws, id ∉ drawn)
    (ha : request.apply hash options t = .ok t') :
    Kept options (request.draws.toList ++ drawn) (request.logged log) t' := by
  cases request with
  | begin reference access now later => exact h.begin (hfresh _ rfl) ha
  | append reference access sequence data => exact h.append ha
  | publish reference access sequence now => exact h.publish ha
  | cleanup id =>
    obtain rfl := Except.ok.inj ha
    exact h.deleteWhere _
  | create clock run receipt limits =>
    obtain ⟨⟨t'', outcome⟩, hc, rfl⟩ := map_eq_ok.mp ha
    obtain ⟨hruns, hfiles | ⟨hp, hrow⟩⟩ := createRun_eq_ok hc
    -- a start answered from its receipt changes no file
    · refine h.of_counters (by rw [hfiles]) (by rw [hfiles]) fun o ho => ?_
      rw [hfiles] at ho ⊢
      obtain ⟨row, hr⟩ := h.retained o ho
      exact ⟨h.ownerless o ho, hruns.stay o.2 row hr⟩
    · exact h.pinned hp hruns hrow
  | commit clock expected next =>
    obtain ⟨hruns, hp, hrow⟩ := commitRun_eq_ok ha
    exact h.pinned hp hruns hrow
  | commitNode id expected path record =>
    obtain ⟨⟨db, view⟩, hc, rfl⟩ := map_eq_ok.mp ha
    refine h.of_counters rfl rfl fun o ho => ⟨h.ownerless o ho, ?_⟩
    obtain ⟨row, hr⟩ := h.retained o ho
    exact (commitNode_runs hc).stay o.2 row hr
  | collect now limits =>
    obtain ⟨_, heq⟩ := collectRuns_eq_ok ha
    rw [heq]
    exact (h.releaseOwners t'.db).deleteWhere _

/-- Every accepted transaction keeps what retained runs own. -/
theorem Keeps.apply (request : Request)
    (ha : request.apply hash options t = .ok t') : Keeps t t' := by
  cases request with
  | begin reference access now later =>
    obtain ⟨_, _, hnone, row, _, _, _, rfl⟩ := begin_eq_ok ha
    refine (Keeps.collect t now).trans (Keeps.update reference.id (fun row hr => ?_)
      (fun id hne => BTreeMap.get_insert_ne _ _ (Ne.symm hne)) (fun _ _ => rfl)
      fun o ho => List.mem_append_left _ ho) fun _ hrun => hrun
    -- an identity in use is not drawn again
    rw [show _ = some row from hr] at hnone
    nomatch hnone
  | append reference access sequence data =>
    obtain ⟨row, hrow, hstate, _, _, _, _, rfl⟩ := append_eq_ok ha
    refine Keeps.update reference.id (fun row' hr => ?_)
      (fun id hne => BTreeMap.get_insert_ne _ _ (Ne.symm hne))
      (fun id hne => BTreeMap.get_insert_ne _ _ (Ne.symm hne)) fun _ ho => ho
    obtain rfl := Option.some.inj (hrow.symm.trans hr)
    -- an upload that still writes is no one's
    rw [hstate]
    nofun
  | publish reference access sequence now =>
    obtain ⟨row, hrow, hstate, rfl⟩ := publish_eq_ok ha
    refine Keeps.update reference.id (fun row' hr => ?_)
      (fun id hne => BTreeMap.get_insert_ne _ _ (Ne.symm hne)) (fun _ _ => rfl) fun _ ho => ho
    obtain rfl := Option.some.inj (hrow.symm.trans hr)
    -- what is published now was written until now
    rw [hstate]
    nofun
  | cleanup id =>
    obtain rfl := Except.ok.inj ha
    exact Keeps.staging (fun id' row hs => by simp [hs]) t
  | create clock run receipt limits =>
    obtain ⟨⟨t'', outcome⟩, hc, rfl⟩ := map_eq_ok.mp ha
    obtain ⟨hruns, hfiles | ⟨hp, _⟩⟩ := createRun_eq_ok hc
    · refine ⟨fun id row run hr _ ho _ => ?_, hruns.scope⟩
      rw [hfiles, hr]
      exact ⟨ho, rfl, rfl⟩
    -- a new run pins its artifacts
    · exact Keeps.pinned hp hruns
  | commit clock expected next =>
    obtain ⟨hruns, hp, _⟩ := commitRun_eq_ok ha
    exact Keeps.pinned hp hruns
  | commitNode id expected path record =>
    obtain ⟨⟨db, view⟩, hc, rfl⟩ := map_eq_ok.mp ha
    refine ⟨fun id row run hr _ ho _ => ⟨ho, ?_, rfl⟩, (commitNode_runs hc).scope⟩
    change t.files.artifacts[id]?.map ArtifactRow.forget = some (ArtifactRow.forget row)
    rw [hr]
    rfl
  | collect now limits =>
    obtain ⟨hruns, heq⟩ := collectRuns_eq_ok ha
    -- runs go first, then the artifacts that nobody owns
    rw [heq]
    exact (Keeps.releaseOwners hruns).trans (Keeps.collect _ now) fun _ hrun => hrun

end Runs

end WorkflowForge.Sqlite.Artifacts
