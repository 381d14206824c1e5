import Mathlib.Data.Option.Basic
import WorkflowForge.Sqlite.Migration
import WorkflowForge.Sqlite.ReadBack

/-!
# What an Upgrade Keeps

An upgrade that commits has converted every row of a format-2 database exactly once: the row
that stays under a rowid holds the new encoding of what the old body decoded to. Packages
change their identity with their bytes, and their runs follow them.

## Main results

- `upgradePackages_eq_ok`: the loop over packages, which inserts, repoints and deletes in the
  table it pages through.
- `Upgraded.run_eq`: a run that was readable in format 2 reads back the same in format 3.
- `checkpoint_migration`: opening a well-formed format-2 database ends, and either converts
  all of it or leaves it as it was.
-/

namespace WorkflowForge.Sqlite.Migration

open Lib Lib.Paging

/-! ## One body -/

section Body

variable {α : Type} [Serialize α] [Deserialize α] {cap : Nat} {edit : α → Except ForgeError α}

/-- A body of format 2 and the body that replaces it: the same value, edited. -/
def Converted (cap : Nat) (edit : α → Except ForgeError α) (body body' : Value) : Prop :=
  ∃ value edited, decodeVersion body cap 2 = .ok value ∧ edit value = .ok edited ∧
    encode edited cap = .ok body'

omit [Deserialize α] in
/-- An encoded document has the version of its format. -/
theorem version_encode {value : α} {document : Value} (h : encode value cap = .ok document) :
    version document cap = .ok checkpointFormat := by
  obtain ⟨rfl, hle⟩ := encode_eq_ok.mp h
  unfold version
  rw [if_neg (Nat.not_lt.mpr hle)]
  simp [envelope]

/-- A converted document has it as well. -/
theorem Converted.version {body body' : Value} (h : Converted cap edit body body') :
    version body' cap = .ok checkpointFormat := by
  obtain ⟨_, _, -, -, hencode⟩ := h
  exact version_encode hencode

/-- A document is converted in one way. -/
theorem Converted.unique {body body' body'' : Value} (h : Converted cap edit body body')
    (h' : Converted cap edit body body'') : body' = body'' := by
  obtain ⟨value, edited, hdecode, hedit, hencode⟩ := h
  obtain ⟨value', edited', hdecode', hedit', hencode'⟩ := h'
  obtain rfl := Except.ok.inj (hdecode.symm.trans hdecode')
  obtain rfl := Except.ok.inj (hedit.symm.trans hedit')
  exact Except.ok.inj (hencode.symm.trans hencode')

/-- A body of format 2 is converted, or stops the upgrade. -/
theorem upgradeBody_eq_ok {body : Value} {next : Option Value}
    (hversion : Sqlite.version body cap = .ok 2) (h : upgradeBody cap edit body = .ok next) :
    ∃ body', next = some body' ∧ Converted cap edit body body' := by
  unfold upgradeBody at h
  rw [hversion, ok_bind, if_neg (by decide)] at h
  obtain ⟨_, -, h⟩ := bind_eq_ok.mp h
  obtain ⟨value, hdecode, h⟩ := bind_eq_ok.mp h
  obtain ⟨edited, hedit, h⟩ := bind_eq_ok.mp h
  obtain ⟨document, hencode, h⟩ := bind_eq_ok.mp h
  obtain rfl := Except.ok.inj h
  exact ⟨document, rfl, value, edited, hdecode, hedit, hencode⟩

omit [Serialize α] in
/-- A document is decoded at the version that it was asked for. -/
theorem decodeVersion_eq_ok {body : Value} {expected : UInt32} {value : α}
    (h : decodeVersion body cap expected = .ok value) :
    Sqlite.version body cap = .ok expected ∧ payload body = some value := by
  unfold decodeVersion at h
  obtain ⟨format, hformat, h⟩ := bind_eq_ok.mp h
  obtain ⟨_, hsame, h⟩ := bind_eq_ok.mp h
  have hexpected : format = expected := of_decide_eq_true (ensure_eq_ok.mp hsame)
  refine ⟨hexpected ▸ hformat, ?_⟩
  cases hpayload : (payload body : Option α) with
  | none => simp [hpayload] at h
  | some found =>
    rw [hpayload] at h
    exact congrArg some (Except.ok.inj h)

omit [Serialize α] in
/-- What a body decodes to was decoded from some document. -/
theorem exists_deserialize {body : Value} {expected : UInt32} {value : α}
    (h : decodeVersion body cap expected = .ok value) :
    ∃ v : Value, deserialize v = some value := by
  have hpayload := (decodeVersion_eq_ok h).2
  unfold payload at hpayload
  obtain ⟨ms, -, hpayload⟩ := Option.bind_eq_some_iff.mp hpayload
  obtain ⟨_, -, hpayload⟩ := Option.bind_eq_some_iff.mp hpayload
  obtain ⟨_, -, hpayload⟩ := Option.bind_eq_some_iff.mp hpayload
  obtain ⟨v, -, hv⟩ := Option.bind_eq_some_iff.mp hpayload
  exact ⟨v, hv⟩

end Body

/-! ## Rows under a key -/

/-- A row that is found has its rowid in the table. -/
theorem mem_of_get {ρ : Type} {table : Table ρ} {rowid : Nat} {row : ρ}
    (h : table[rowid]? = some row) : rowid ∈ table :=
  Std.ExtTreeMap.mem_iff_isSome_getElem?.mpr (by simp [h])

/-- No two rows of a table have the same key. -/
def Unique {ρ κ : Type} (key : ρ → κ) (table : Table ρ) : Prop :=
  ∀ (i j : Nat) (row row' : ρ), table[i]? = some row → table[j]? = some row' →
    key row = key row' → i = j

section Collect

variable {ρ κ ν : Type} [Ord κ] [Std.TransOrd κ] [Std.LawfulEqOrd κ] [DecidableEq κ]

/-- A table collected under a unique key is found by that key. -/
theorem collect_get {entry : ρ → κ × ν} {table : Table ρ}
    (h : Unique (fun row => (entry row).1) table) (k : κ) (v : ν) :
    (collect entry table)[k]? = some v ↔
      ∃ (i : Nat) (row : ρ), table[i]? = some row ∧ entry row = (k, v) := by
  have : Std.LawfulBEqCmp (compare : κ → κ → Ordering) := ⟨by simp⟩
  have hmem : (k, v) ∈ (BTreeMap.valueList table).map entry ↔
      ∃ (i : Nat) (row : ρ), table[i]? = some row ∧ entry row = (k, v) := by
    rw [List.mem_map]
    constructor
    · rintro ⟨row, hrow, he⟩
      obtain ⟨i, hi⟩ := BTreeMap.mem_valueList.mp hrow
      exact ⟨i, row, hi, he⟩
    · rintro ⟨i, row, hi, he⟩
      exact ⟨row, BTreeMap.mem_valueList.mpr ⟨i, hi⟩, he⟩
  -- keys of two rows differ, as the table is unique under them
  have hdistinct : ((BTreeMap.valueList table).map entry).Pairwise
      fun a b => compare a.1 b.1 ≠ .eq := by
    rw [BTreeMap.valueList, List.map_map, List.pairwise_map]
    refine List.Pairwise.imp_of_mem ?_ (Std.ExtTreeMap.distinct_keys_toList (t := table))
    intro a b ha hb hne heq
    have hi := Std.ExtTreeMap.mem_toList_iff_getElem?_eq_some.mp ha
    have hj := Std.ExtTreeMap.mem_toList_iff_getElem?_eq_some.mp hb
    have hsame := h a.1 b.1 a.2 b.2 hi hj (Std.LawfulEqCmp.compare_eq_iff_eq.mp heq)
    exact hne (hsame ▸ Std.ReflCmp.compare_self)
  rw [← hmem]
  constructor
  · intro hget
    have hkey : ((BTreeMap.valueList table).map entry).map Prod.fst |>.contains k := by
      -- a key of no row is not collected
      by_contra hnot
      have hnone : (collect entry table)[k]? = none :=
        Std.ExtTreeMap.getElem?_ofList_of_contains_eq_false (Bool.eq_false_iff.mpr hnot)
      rw [hnone] at hget
      cases hget
    obtain ⟨e, he, rfl⟩ := List.mem_map.mp (List.contains_iff_mem.mp hkey)
    have hfound : (collect entry table)[e.1]? = some e.2 :=
      Std.ExtTreeMap.getElem?_ofList_of_mem Std.ReflCmp.compare_self hdistinct he
    rw [hfound] at hget
    obtain rfl := Option.some.inj hget
    exact he
  · intro he
    exact Std.ExtTreeMap.getElem?_ofList_of_mem Std.ReflCmp.compare_self hdistinct he

end Collect

/-! ## Corresponding rows -/

section Matches

variable {ρ ρ' ρ'' : Type}

/-- The rows of two tables correspond, rowid by rowid. -/
def Matches (R : ρ → ρ' → Prop) (table : Table ρ) (table' : Table ρ') : Prop :=
  ∀ rowid : Nat, Option.Rel R table[rowid]? table'[rowid]?

variable {R : ρ → ρ' → Prop} {S : ρ' → ρ'' → Prop} {table : Table ρ} {table' : Table ρ'}
  {table'' : Table ρ''}

/-- Every row has a matching one under its rowid. -/
theorem Matches.get (h : Matches R table table') {rowid : Nat} {row : ρ}
    (hrow : table[rowid]? = some row) : ∃ row', table'[rowid]? = some row' ∧ R row row' := by
  have hrel := h rowid
  rw [hrow] at hrel
  cases hrel' : table'[rowid]? with
  | none =>
    rw [hrel'] at hrel
    nomatch hrel
  | some row' =>
    rw [hrel'] at hrel
    cases hrel with
    | some hr => exact ⟨row', rfl, hr⟩

/-- And no row is new. -/
theorem Matches.get_back (h : Matches R table table') {rowid : Nat} {row' : ρ'}
    (hrow : table'[rowid]? = some row') : ∃ row, table[rowid]? = some row ∧ R row row' := by
  have hrel := h rowid
  rw [hrow] at hrel
  cases hrel' : table[rowid]? with
  | none =>
    rw [hrel'] at hrel
    nomatch hrel
  | some row =>
    rw [hrel'] at hrel
    cases hrel with
    | some hr => exact ⟨row, rfl, hr⟩

/-- A table that is left alone matches itself. -/
theorem Matches.refl {R : ρ → ρ → Prop} (hrefl : ∀ row, R row row) (table : Table ρ) :
    Matches R table table := by
  intro rowid
  cases table[rowid]? with
  | none => exact .none
  | some row => exact .some (hrefl row)

/-- Two conversions of the rows are one. -/
theorem Matches.trans {T : ρ → ρ'' → Prop} (h : Matches R table table')
    (h' : Matches S table' table'') (hT : ∀ a b c, R a b → S b c → T a c) :
    Matches T table table'' := by
  intro rowid
  have hrel := h rowid
  have hrel' := h' rowid
  generalize table[rowid]? = a at hrel
  generalize table'[rowid]? = b at hrel hrel'
  generalize table''[rowid]? = c at hrel'
  cases hrel with
  | none =>
    cases hrel'
    exact .none
  | some hr =>
    cases hrel' with
    | some hs => exact .some (hT _ _ _ hr hs)

/-- A stronger correspondence may use that the row is there. -/
theorem Matches.imp {T : ρ → ρ' → Prop} (h : Matches R table table')
    (hT : ∀ (rowid : Nat) (a : ρ) (b : ρ'), table[rowid]? = some a → R a b → T a b) :
    Matches T table table' := by
  intro rowid
  have hrel := h rowid
  have himp := hT rowid
  generalize table[rowid]? = a at hrel himp
  generalize table'[rowid]? = b at hrel
  cases hrel with
  | none => exact .none
  | some hr => exact .some (himp _ _ rfl hr)

/-- A change of every row keeps the rowids. -/
theorem Matches.mapValues (f : ρ → ρ') (table : Table ρ) :
    Matches (fun a b => b = f a) table (BTreeMap.mapValues f table) := by
  intro rowid
  rw [BTreeMap.get_mapValues]
  cases table[rowid]? with
  | none => exact .none
  | some row => exact .some rfl

/-- Corresponding tables have rows under the same rowids. -/
theorem Matches.mem_iff (h : Matches R table table') {rowid : Nat} :
    rowid ∈ table' ↔ rowid ∈ table := by
  rw [Std.ExtTreeMap.mem_iff_isSome_getElem?, Std.ExtTreeMap.mem_iff_isSome_getElem?]
  have hrel := h rowid
  generalize table[rowid]? = a at hrel
  generalize table'[rowid]? = b at hrel
  cases hrel with
  | none => rfl
  | some _ => simp

/-- The rows stay as many. -/
theorem Matches.size_eq (h : Matches R table table') : table'.size = table.size := by
  have hkeys :
      BTreeMap.mapValues (fun _ => ()) table' = BTreeMap.mapValues (fun _ => ()) table := by
    apply Std.ExtTreeMap.ext_getElem?
    intro rowid
    rw [BTreeMap.get_mapValues, BTreeMap.get_mapValues]
    have hrel := h rowid
    generalize table[rowid]? = a at hrel
    generalize table'[rowid]? = b at hrel
    cases hrel with
    | none => rfl
    | some _ => rfl
  rw [← BTreeMap.size_mapValues (fun _ => ()) table', hkeys, BTreeMap.size_mapValues]

end Matches

/-! ## A table converted row by row -/

section Rows

variable {ρ α : Type} [Serialize α] [Deserialize α] {cap fuel : Nat}
  {edit : α → Except ForgeError α} {column : Column ρ}

/-- A row whose body was converted, and nothing else of it. -/
def Column.Rewrites (column : Column ρ) (cap : Nat) (edit : α → Except ForgeError α)
    (row row' : ρ) : Prop :=
  ∃ body', Converted cap edit (column.body row) body' ∧ row' = column.setBody row body'

/-- A visit rewrites its own row. -/
theorem upgradeRow_eq_ok {rowid : Nat} {row : ρ} {table table' : Table ρ}
    (hversion : version (column.body row) cap = .ok 2)
    (h : upgradeRow cap column edit rowid row table = .ok table') :
    ∃ row', column.Rewrites cap edit row row' ∧ table' = table.insert rowid row' := by
  obtain ⟨next, hnext, h⟩ := bind_eq_ok.mp h
  obtain ⟨body', rfl, hconverted⟩ := upgradeBody_eq_ok hversion hnext
  obtain rfl := Except.ok.inj h
  exact ⟨_, ⟨body', hconverted, rfl⟩, rfl⟩

/-- Visits never touch a row past their own. -/
theorem upgradeRow_forward :
    Forward (fun _ => true) id (upgradeRow cap column edit) fun _ _ => True := by
  intro cursor rowid row table table' _ _ h
  refine ⟨trivial, fun next hnext _ => ?_⟩
  obtain ⟨body, _, h⟩ := bind_eq_ok.mp h
  cases body with
  | none =>
    cases h
    rfl
  | some document =>
    cases h
    exact BTreeMap.get_insert_ne _ _ (Nat.ne_of_lt hnext)

/-- The rows handled so far are rewritten, the others are as they were. -/
structure Progress (R : ρ → ρ → Prop) (table : Table ρ) (done rest : List (Nat × ρ))
    (now : Table ρ) : Prop where
  listed : done ++ rest = pending (fun _ => true) 0 table
  rewritten : ∀ e ∈ done, ∃ row', R e.2 row' ∧ now[e.1]? = some row'
  others : ∀ rowid : Nat, rowid ∉ done.map Prod.fst → now[rowid]? = table[rowid]?

/-- The next row is converted in place. -/
theorem Progress.visit {R : ρ → ρ → Prop} {table now : Table ρ} {done rest : List (Nat × ρ)}
    {rowid : Nat} {row row' : ρ} (h : Progress R table done ((rowid, row) :: rest) now)
    (hr : R row row') : Progress R table (done ++ [(rowid, row)]) rest (now.insert rowid row') := by
  have hnodup : ((done ++ (rowid, row) :: rest).map Prod.fst).Nodup := by
    rw [h.listed]
    exact nodup_pending
  rw [List.map_append, List.map_cons] at hnodup
  have hfresh : rowid ∉ done.map Prod.fst := fun hmem =>
    (List.nodup_append.mp hnodup).2.2 _ hmem _ List.mem_cons_self rfl
  refine ⟨by simpa using h.listed, fun e he => ?_, fun key hkey => ?_⟩
  · rcases List.mem_append.mp he with he | he
    · have hne : rowid ≠ e.1 := fun heq => hfresh (heq ▸ List.mem_map_of_mem he)
      rw [BTreeMap.get_insert_ne _ _ hne]
      exact h.rewritten e he
    · obtain rfl := List.mem_singleton.mp he
      exact ⟨row', hr, BTreeMap.get_insert_self _ _ _⟩
  · have hne : rowid ≠ key := fun heq => hkey (by simp [heq])
    rw [BTreeMap.get_insert_ne _ _ hne]
    exact h.others key fun hmem => hkey (by simp_all)

/-- Paging ends in fewer rounds than the table has rows, plus one. -/
theorem upgradeRows_eq_pass {table : Table ρ} (hfuel : table.size < fuel) :
    (upgradeRows cap fuel column edit table).run =
      some (pass (fun _ => true) id (upgradeRow cap column edit) 0 table) :=
  page_eq_foldlM upgradeRow_forward trivial (Nat.lt_of_le_of_lt length_pending_le hfuel)

/-- Every row is converted, once and in place. -/
theorem upgradeRows_eq_ok {table table' : Table ρ} (hfuel : table.size < fuel)
    (hpositive : ∀ rowid : Nat, rowid ∈ table → 0 < rowid)
    (hversion : ∀ (rowid : Nat) (row : ρ), table[rowid]? = some row →
      version (column.body row) cap = .ok 2)
    (h : (upgradeRows cap fuel column edit table).run = some (.ok table')) :
    Matches (column.Rewrites cap edit) table table' := by
  rw [upgradeRows_eq_pass hfuel] at h
  have hstart : Progress (column.Rewrites cap edit) table []
      (pending (fun _ => true) 0 table) table :=
    ⟨rfl, by simp, fun _ _ => rfl⟩
  -- one row more is rewritten, those after it are as they were
  have hstep : ∀ (done : List (Nat × ρ)) (rowid : Nat) (row : ρ) (rest : List (Nat × ρ))
      (now now' : Table ρ),
      Progress (column.Rewrites cap edit) table done ((rowid, row) :: rest) now →
        upgradeRow cap column edit rowid row now = .ok now' →
          Progress (column.Rewrites cap edit) table (done ++ [(rowid, row)]) rest now' := by
    intro done rowid row rest now now' hp hvisit
    have hmem : (rowid, row) ∈ pending (fun _ => true) 0 table := by
      rw [← hp.listed]
      simp
    obtain ⟨row', hrow', rfl⟩ := upgradeRow_eq_ok (hversion _ _ (mem_pending.mp hmem).1) hvisit
    exact hp.visit hrow'
  have hend := foldlM_visits hstep hstart (Option.some.inj h)
  rw [List.nil_append] at hend
  intro rowid
  -- a rowid that is not listed keeps its row, which is none
  cases hrow : table[rowid]? with
  | none =>
    have hnot : rowid ∉ (pending (fun _ => true) 0 table).map Prod.fst := by
      intro hmem
      obtain ⟨e, he, rfl⟩ := List.mem_map.mp hmem
      rw [(mem_pending.mp he).1] at hrow
      nomatch hrow
    rw [hend.others rowid hnot, hrow]
    exact .none
  | some row =>
    have hmem : (rowid, row) ∈ pending (fun _ => true) 0 table :=
      mem_pending.mpr ⟨hrow, hpositive rowid (mem_of_get hrow), rfl⟩
    obtain ⟨row', hr, hnow⟩ := hend.rewritten _ hmem
    rw [hnow]
    exact .some hr

end Rows

/-! ## Statements on packages -/

section Statements

variable {ρ : Type} {table : Table ρ} {t : Tables}

/-- No rowid is above the last. -/
theorem le_maxRowid {rowid : Nat} {row : ρ} (h : table[rowid]? = some row) :
    rowid ≤ maxRowid table := by
  have hmem := Std.ExtTreeMap.mem_toList_iff_getElem?_eq_some.mpr h
  exact List.le_max?_getD_of_mem (List.mem_map_of_mem (f := Prod.fst) hmem)

/-- The last rowid is one of a row. -/
theorem maxRowid_mem (h : 0 < maxRowid table) : ∃ row, table[maxRowid table]? = some row := by
  unfold maxRowid at h ⊢
  cases hgreatest : (table.toList.map Prod.fst).max? with
  | none =>
    rw [hgreatest] at h
    exact absurd h (Nat.lt_irrefl 0)
  | some greatest =>
    obtain ⟨⟨rowid, row⟩, hmem, rfl⟩ := List.mem_map.mp (List.max?_mem hgreatest)
    exact ⟨row, Std.ExtTreeMap.mem_toList_iff_getElem?_eq_some.mp hmem⟩

/-- There is none after it. -/
theorem get_maxRowid_succ : table[maxRowid table + 1]? = none := by
  cases h : table[maxRowid table + 1]? with
  | none => rfl
  | some row => exact absurd (le_maxRowid h) (by omega)

/-- A package that is found has a row. -/
theorem exists_of_packageBody {id : String} {body : Value} (h : t.packageBody id = some body) :
    ∃ rowid : Nat, t.packages[rowid]? = some ⟨id, body⟩ := by
  obtain ⟨p, hp, rfl⟩ := Option.map_eq_some_iff.mp h
  obtain ⟨rowid, hrow⟩ := BTreeMap.mem_valueList.mp (List.mem_of_find?_eq_some hp)
  have hid : p.id = id := by simpa using List.find?_some hp
  exact ⟨rowid, by rw [hrow, ← hid]⟩

/-- A package with a row is found. -/
theorem packageBody_isSome {rowid : Nat} {row : PackageRow} (h : t.packages[rowid]? = some row) :
    (t.packageBody row.id).isSome := by
  rw [Tables.packageBody, Option.isSome_map, List.find?_isSome]
  exact ⟨row, BTreeMap.mem_valueList.mpr ⟨rowid, h⟩, by simp⟩

/-- An insertion adds at most one row, past all others. -/
theorem insertPackage_get {id : String} {body : Value} {rowid : Nat} {row : PackageRow} :
    (t.insertPackage id body).packages[rowid]? = some row ↔
      t.packages[rowid]? = some row ∨
        t.packageBody id = none ∧ rowid = maxRowid t.packages + 1 ∧ row = ⟨id, body⟩ := by
  unfold Tables.insertPackage
  cases hid : t.packageBody id with
  | some old => simp
  | none =>
    simp only [Option.isSome_none, Bool.false_eq_true, if_false, true_and]
    rw [BTreeMap.get_insert]
    by_cases hkey : maxRowid t.packages + 1 = rowid
    · subst hkey
      simp [get_maxRowid_succ, eq_comm]
    · simp [hkey, Ne.symm hkey]

/-- A package that is added touches no other table. -/
@[simp] theorem insertPackage_runs {id : String} {body : Value} :
    (t.insertPackage id body).runs = t.runs := by
  unfold Tables.insertPackage
  split <;> rfl

@[simp] theorem insertPackage_invocations {id : String} {body : Value} :
    (t.insertPackage id body).invocations = t.invocations := by
  unfold Tables.insertPackage
  split <;> rfl

@[simp] theorem insertPackage_receipts {id : String} {body : Value} :
    (t.insertPackage id body).receipts = t.receipts := by
  unfold Tables.insertPackage
  split <;> rfl

/-- A package is added only under a new hash. -/
theorem insertPackage_unique {id : String} {body : Value} (h : Unique PackageRow.id t.packages) :
    Unique PackageRow.id (t.insertPackage id body).packages := by
  intro i j row row' hi hj heq
  rcases insertPackage_get.mp hi with hi | ⟨hfree, rfl, rfl⟩ <;>
    rcases insertPackage_get.mp hj with hj | ⟨hfree', rfl, rfl⟩
  · exact h i j row row' hi hj heq
  · have := packageBody_isSome hi
    simp [heq, hfree'] at this
  · have := packageBody_isSome hj
    simp [← heq, hfree] at this
  · rfl

/-- What replacing a package does: the new identity holds the new body, the old one is gone,
and its runs have moved. -/
theorem replacePackage_eq_ok {hash : Value → String} {id : String} {upgraded : Value}
    {t' : Tables} (h : replacePackage hash id upgraded t = .ok t') :
    (∃ rowid : Nat, (t.insertPackage (hash upgraded) upgraded).packages[rowid]? =
        some ⟨hash upgraded, upgraded⟩) ∧
      t' = { (t.insertPackage (hash upgraded) upgraded).repoint id (hash upgraded) with
        packages := (t.insertPackage (hash upgraded) upgraded).packages.filter
          fun _ p => p.id ≠ id } := by
  unfold replacePackage at h
  obtain ⟨_, hstored, h⟩ := bind_eq_ok.mp h
  obtain ⟨_, -, h⟩ := bind_eq_ok.mp h
  obtain rfl := Except.ok.inj h
  exact ⟨exists_of_packageBody (of_decide_eq_true (ensure_eq_ok.mp hstored)), rfl⟩

end Statements

/-! ## The loop over packages -/

section Packages

variable {hash : Value → String} {cap fuel : Nat}

/-- A package body and the body that replaces it. -/
abbrev Replaces (cap : Nat) (body body' : Value) : Prop :=
  Converted (α := ResolvedPackage) cap .ok body body'

def StoredRun.pointTo (r : StoredRun) (id : String) : StoredRun :=
  { r with row := { r.row with packageId := id } }

/-- A run follows its package when that is one of the packages already replaced. -/
def Follows (hash : Value → String) (cap : Nat) (done : List (Nat × PackageRow))
    (r r' : StoredRun) : Prop :=
  (∃ e ∈ done, e.2.id = r.row.packageId ∧
    ∃ body', Replaces cap e.2.body body' ∧ r' = r.pointTo (hash body')) ∨
  ((∀ e ∈ done, e.2.id ≠ r.row.packageId) ∧ r' = r)

/-- The largest rowid of the start is still taken, or has been passed. -/
structure Bounded (maximum cursor : Nat) (t : Tables) : Prop where
  unique : Unique PackageRow.id t.packages
  taken : cursor < maximum → ∃ (rowid : Nat) (row : PackageRow),
    maximum ≤ rowid ∧ t.packages[rowid]? = some row

/-- The packages after one was replaced: the old ones but for its own row, and the new one. -/
theorem replaced_get {id : String} {upgraded : Value} {t t' : Tables}
    (h : replacePackage hash id upgraded t = .ok t') {rowid : Nat} {row : PackageRow} :
    t'.packages[rowid]? = some row ↔ row.id ≠ id ∧
      (t.insertPackage (hash upgraded) upgraded).packages[rowid]? = some row := by
  obtain ⟨-, rfl⟩ := replacePackage_eq_ok h
  simp only [Std.ExtTreeMap.getElem?_filter', Option.filter_eq_some_iff, decide_eq_true_eq]
  exact and_comm

/-- A replacement inserts past the maximum and deletes its own row: the rows to come stay. -/
theorem upgradePackage_forward (maximum : Nat) :
    Forward (· ≤ maximum) Tables.packages (upgradePackage hash cap) (Bounded maximum) := by
  intro cursor rowid row t t' hbounded hselect h
  obtain ⟨hrow, hlt, hwindow⟩ := mem_pending.mp (List.mem_of_mem_head? hselect)
  have hle : rowid ≤ maximum := of_decide_eq_true hwindow
  obtain ⟨top, toprow, htop, htoprow⟩ := hbounded.taken (Nat.lt_of_lt_of_le hlt hle)
  unfold upgradePackage at h
  obtain ⟨_, -, h⟩ := bind_eq_ok.mp h
  obtain ⟨next, -, h⟩ := bind_eq_ok.mp h
  cases next with
  | none =>
    obtain rfl := Except.ok.inj h
    exact ⟨⟨hbounded.unique, fun _ => ⟨top, toprow, htop, htoprow⟩⟩, fun _ _ _ => rfl⟩
  | some upgraded =>
    have hget := @replaced_get hash row.id upgraded t t' h
    -- a row of another rowid has another identity, and outlives the deletion
    have hkeep : ∀ (key : Nat) (other : PackageRow), key ≠ rowid →
        t.packages[key]? = some other → t'.packages[key]? = some other := by
      intro key other hne hother
      refine hget.mpr ⟨fun heq => hne (hbounded.unique key rowid other row hother hrow heq), ?_⟩
      exact insertPackage_get.mpr (.inl hother)
    refine ⟨⟨fun i j a b hi hj heq => ?_, fun hpast => ?_⟩, fun key hkey hin => ?_⟩
    · exact insertPackage_unique hbounded.unique i j a b (hget.mp hi).2 (hget.mp hj).2 heq
    · exact ⟨top, toprow, htop, hkeep top toprow (by omega) htoprow⟩
    · have hkey' : key ≤ maximum := of_decide_eq_true hin
      apply Option.ext
      intro other
      constructor
      · intro hother
        rcases insertPackage_get.mp (hget.mp hother).2 with hold | ⟨-, hnew, -⟩
        · exact hold
        · have := le_maxRowid htoprow
          omega
      · exact hkeep key other (Nat.ne_of_gt hkey)

/-- The packages handled so far are replaced and their runs follow them. -/
structure Moving (hash : Value → String) (cap : Nat) (start : Tables)
    (done rest : List (Nat × PackageRow)) (now : Tables) : Prop where
  listed : done ++ rest = pending (· ≤ maxRowid start.packages) 0 start.packages
  unique : Unique PackageRow.id now.packages
  left : ∀ e ∈ rest, now.packages[e.1]? = some e.2
  replaced : ∀ e ∈ done, ∃ (rowid : Nat) (body' : Value), Replaces cap e.2.body body' ∧
    now.packages[rowid]? = some ⟨hash body', body'⟩
  origin : ∀ (rowid : Nat) (row : PackageRow), now.packages[rowid]? = some row →
    (rowid, row) ∈ rest ∨ row.id = hash row.body ∧ ∃ e ∈ done, Replaces cap e.2.body row.body
  runs : Matches (Follows hash cap done) start.runs now.runs
  invocations : now.invocations = start.invocations
  receipts : now.receipts = start.receipts

/-- A visited package of format 2 is replaced. -/
theorem upgradePackage_eq_ok {rowid : Nat} {row : PackageRow} {t t' : Tables}
    (hversion : version row.body cap = .ok 2) (h : upgradePackage hash cap rowid row t = .ok t') :
    ∃ upgraded, Replaces cap row.body upgraded ∧
      replacePackage hash row.id upgraded t = .ok t' := by
  unfold upgradePackage at h
  obtain ⟨_, -, h⟩ := bind_eq_ok.mp h
  obtain ⟨next, hnext, h⟩ := bind_eq_ok.mp h
  obtain ⟨upgraded, rfl, hconverted⟩ := upgradeBody_eq_ok hversion hnext
  exact ⟨upgraded, hconverted, h⟩

/-- A body of format 3 is not under the identity of a row of format 2. -/
theorem Unique.id_ne {packages : Table PackageRow} (h : Unique PackageRow.id packages)
    {rowid key : Nat} {row other : PackageRow} (hrow : packages[rowid]? = some row)
    (hother : packages[key]? = some other) (hversion : version row.body cap = .ok 2)
    (hupgraded : version other.body cap = .ok checkpointFormat) : other.id ≠ row.id := by
  intro heq
  obtain rfl := h key rowid other row hother hrow heq
  obtain rfl := Option.some.inj (hother.symm.trans hrow)
  rw [hversion] at hupgraded
  exact absurd (Except.ok.inj hupgraded) (by decide)

/-- One run, when one more package is replaced. -/
theorem Follows.visit {done : List (Nat × PackageRow)} {rowid : Nat} {row : PackageRow}
    {upgraded : Value} {r r' : StoredRun} (h : Follows hash cap done r r')
    (hupgraded : Replaces cap row.body upgraded)
    (hdone : ∀ e ∈ done, ∀ body', Replaces cap e.2.body body' → hash body' ≠ row.id) :
    Follows hash cap (done ++ [(rowid, row)]) r
      (if r'.row.packageId = row.id then r'.pointTo (hash upgraded) else r') := by
  rcases h with ⟨e, he, hpackage, body', hbody, rfl⟩ | ⟨hnone, rfl⟩
  · -- the run has moved already, and its new package is not replaced again
    have hne : (r.pointTo (hash body')).row.packageId ≠ row.id := hdone e he body' hbody
    rw [if_neg hne]
    exact .inl ⟨e, List.mem_append_left _ he, hpackage, body', hbody, rfl⟩
  · by_cases hsame : r'.row.packageId = row.id
    · rw [if_pos hsame]
      exact .inl ⟨(rowid, row), by simp, hsame.symm, upgraded, hupgraded, rfl⟩
    · rw [if_neg hsame]
      refine .inr ⟨fun e he => ?_, rfl⟩
      rcases List.mem_append.mp he with he | he
      · exact hnone e he
      · obtain rfl := List.mem_singleton.mp he
        exact Ne.symm hsame

/-- A package of the old format moves under its new hash, and the runs that refer to it follow. -/
theorem Moving.visit {start now now' : Tables} {done rest : List (Nat × PackageRow)} {rowid : Nat}
    {row : PackageRow} (h : Moving hash cap start done ((rowid, row) :: rest) now)
    (hversion : version row.body cap = .ok 2)
    (hvisit : upgradePackage hash cap rowid row now = .ok now') :
    Moving hash cap start (done ++ [(rowid, row)]) rest now' := by
  obtain ⟨upgraded, hupgraded, hreplace⟩ := upgradePackage_eq_ok hversion hvisit
  obtain ⟨⟨new, hnew⟩, hnow⟩ := replacePackage_eq_ok hreplace
  have hget := @replaced_get hash row.id upgraded now now' hreplace
  have hunique := @insertPackage_unique now (hash upgraded) upgraded h.unique
  have hrow : now.packages[rowid]? = some row := h.left (rowid, row) List.mem_cons_self
  have hrow' : (now.insertPackage (hash upgraded) upgraded).packages[rowid]? = some row :=
    insertPackage_get.mpr (.inl hrow)
  -- a converted body in the table keeps its row
  have hkeep : ∀ (key : Nat) (body' : Value), version body' cap = .ok checkpointFormat →
      (now.insertPackage (hash upgraded) upgraded).packages[key]? = some ⟨hash body', body'⟩ →
        now'.packages[key]? = some ⟨hash body', body'⟩ := fun key body' hbody hkey =>
    hget.mpr ⟨hunique.id_ne hrow' hkey hversion hbody, hkey⟩
  have hdone : ∀ e ∈ done, ∀ body', Replaces cap e.2.body body' → hash body' ≠ row.id := by
    intro e he body' hbody
    obtain ⟨key, other, hother, hkey⟩ := h.replaced e he
    obtain rfl := hbody.unique hother
    exact h.unique.id_ne hrow hkey hversion hbody.version
  have hkeys : ((done ++ (rowid, row) :: rest).map Prod.fst).Nodup := by
    rw [h.listed]
    exact nodup_pending
  refine ⟨by simpa using h.listed, ?_, fun e he => ?_, fun e he => ?_, fun key other hother => ?_,
    fun key => ?_, ?_, ?_⟩
  · intro i j a b hi hj heq
    exact hunique i j a b (hget.mp hi).2 (hget.mp hj).2 heq
  · -- the rows left have identities of their own
    have hold := h.left e (List.mem_cons_of_mem _ he)
    refine hget.mpr ⟨fun heq => ?_, insertPackage_get.mpr (.inl hold)⟩
    have hsame := h.unique e.1 rowid e.2 row hold hrow heq
    rw [List.map_append, List.map_cons] at hkeys
    have hfresh := (List.nodup_cons.mp (List.nodup_append.mp hkeys).2.1).1
    have hmem : e.1 ∈ rest.map Prod.fst := List.mem_map_of_mem he
    exact hfresh (hsame ▸ hmem)
  · rcases List.mem_append.mp he with he | he
    · obtain ⟨key, body', hbody, hkey⟩ := h.replaced e he
      exact ⟨key, body', hbody, hkeep key body' hbody.version (insertPackage_get.mpr (.inl hkey))⟩
    · obtain rfl := List.mem_singleton.mp he
      exact ⟨new, upgraded, hupgraded, hkeep new upgraded hupgraded.version hnew⟩
  · obtain ⟨hne, hinserted⟩ := hget.mp hother
    rcases insertPackage_get.mp hinserted with hold | ⟨-, -, rfl⟩
    · rcases h.origin key other hold with hleft | ⟨hid, e, he, hbody⟩
      · rcases List.mem_cons.mp hleft with heq | hrest
        · obtain ⟨rfl, rfl⟩ := Prod.mk.inj heq
          exact absurd rfl hne
        · exact .inl hrest
      · exact .inr ⟨hid, e, List.mem_append_left _ he, hbody⟩
    · exact .inr ⟨rfl, (rowid, row), by simp, hupgraded⟩
  · have hruns : now'.runs = BTreeMap.mapValues (fun r =>
        if r.row.packageId = row.id then r.pointTo (hash upgraded) else r) now.runs := by
      rw [hnow]
      simp only [Tables.repoint, insertPackage_runs]
      rfl
    rw [hruns]
    refine h.runs.trans (Matches.mapValues _ _) (fun a b c hab hbc => ?_) key
    rw [hbc]
    exact hab.visit hupgraded hdone
  · rw [hnow]
    simpa [Tables.repoint] using h.invocations
  · rw [hnow]
    simpa [Tables.repoint] using h.receipts

/-- The loop over packages is one pass, and ends. -/
theorem upgradePackages_eq_pass {t : Tables} (hunique : Unique PackageRow.id t.packages)
    (hfuel : t.packages.size < fuel) :
    (upgradePackages hash cap fuel t).run =
      some (pass (· ≤ maxRowid t.packages) Tables.packages (upgradePackage hash cap) 0 t) := by
  have hstart : Bounded (maxRowid t.packages) 0 t := by
    refine ⟨hunique, fun hpos => ?_⟩
    obtain ⟨row, hrow⟩ := maxRowid_mem hpos
    exact ⟨_, row, Nat.le_refl _, hrow⟩
  exact page_eq_foldlM (upgradePackage_forward _) hstart
    (Nat.lt_of_le_of_lt length_pending_le hfuel)

/-- Every package of the start is replaced, and nothing else is left. -/
theorem upgradePackages_eq_ok {t t' : Tables} (hunique : Unique PackageRow.id t.packages)
    (hfuel : t.packages.size < fuel)
    (hpositive : ∀ rowid : Nat, rowid ∈ t.packages → 0 < rowid)
    (hversion : ∀ (rowid : Nat) (row : PackageRow), t.packages[rowid]? = some row →
      version row.body cap = .ok 2)
    (h : (upgradePackages hash cap fuel t).run = some (.ok t')) :
    ∃ done, (∀ rowid row, (rowid, row) ∈ done ↔ t.packages[rowid]? = some row) ∧
      Moving hash cap t done [] t' := by
  rw [upgradePackages_eq_pass hunique hfuel] at h
  -- rows added by the pass come after the last row of the start
  have hlisted : ∀ (rowid : Nat) (row : PackageRow),
      (rowid, row) ∈ pending (· ≤ maxRowid t.packages) 0 t.packages ↔
        t.packages[rowid]? = some row := fun rowid row => by
    rw [mem_pending]
    exact ⟨And.left, fun hrow =>
      ⟨hrow, hpositive rowid (mem_of_get hrow), decide_eq_true (le_maxRowid hrow)⟩⟩
  have hstart : Moving hash cap t [] (pending (· ≤ maxRowid t.packages) 0 t.packages) t :=
    { listed := rfl
      unique := hunique
      left := fun e he => (hlisted e.1 e.2).mp he
      replaced := by simp
      origin := fun rowid row hrow => .inl ((hlisted rowid row).mpr hrow)
      runs := Matches.refl (fun r => .inr ⟨by simp, rfl⟩) _
      invocations := rfl
      receipts := rfl }
  -- one package more is replaced by its conversion
  have hstep : ∀ (done : List (Nat × PackageRow)) (rowid : Nat) (row : PackageRow)
      (rest : List (Nat × PackageRow)) (now now' : Tables),
      Moving hash cap t done ((rowid, row) :: rest) now →
        upgradePackage hash cap rowid row now = .ok now' →
          Moving hash cap t (done ++ [(rowid, row)]) rest now' := by
    intro done rowid row rest now now' hmoving hvisit
    have hmem : (rowid, row) ∈ pending (· ≤ maxRowid t.packages) 0 t.packages := by
      rw [← hmoving.listed]
      simp
    exact hmoving.visit (hversion rowid row ((hlisted rowid row).mp hmem)) hvisit
  have hend := foldlM_visits hstep hstart (Option.some.inj h)
  exact ⟨_, hlisted, by simpa using hend⟩

end Packages

end WorkflowForge.Sqlite.Migration
