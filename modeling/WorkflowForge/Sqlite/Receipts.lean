import WorkflowForge.Store.Dedup
import WorkflowForge.Sqlite.ReadBack
import WorkflowForge.Sqlite.Worker

/-!
# Receipts in Tables

The receipt table of the SQLite store, read as the receipts of the memory store. A
transaction prunes the table before it looks a key up, and a refused one is rolled back.

## Main results

- `reserves`: what a transaction does to the receipts.
- `start_deduplication`: both stores deduplicate starts.
-/

namespace WorkflowForge.Sqlite

open Lib
open MemoryExecutionStore (Receipt Distinct)
open ExecutionStore (Call grant Reserves Deduplicates)

/-! ## Rows as receipts -/

/-- The receipt of a row. -/
def ReceiptRow.receipt (row : ReceiptRow) : Receipt where
  scope := row.scope
  runId := row.runId
  reservation := ⟨row.receiptKey, (payload row.request).getD .null, row.expiresAtMs⟩

def Db.receiptsOf (db : Db) : List Receipt :=
  db.receipts.map ReceiptRow.receipt

/-- The rows a time leaves. -/
def Db.pruned (db : Db) (now : UInt64) : Db :=
  { db with receipts := db.receipts.filter fun r => now < r.expiresAtMs }

/-- A row holds the request of its receipt under the record budget. -/
structure ReceiptRow.Stored (cap : Nat) (row : ReceiptRow) : Prop where
  request : row.request = envelope row.receipt.reservation.request
  within : row.request.bytes ≤ cap
  storable : row.expiresAtMs.toNat < 2 ^ 63

/-- The receipt table is keyed, and all of its rows are readable. -/
structure Db.Booked (cap : Nat) (db : Db) : Prop where
  distinct : Distinct db.receiptsOf
  stored : ∀ row ∈ db.receipts, row.Stored cap

section Rows

variable {hash : Value → String} {cap : Nat} {db db' : Db} {now : UInt64} {limits : Limits}

theorem storable_time (h : now.toNat < 2 ^ 63) : storable [now.toNat] = .ok () := by
  unfold storable
  rw [if_pos (by simpa using h)]

theorem storable_late (h : ¬now.toNat < 2 ^ 63) : storable [now.toNat] = .error failed := by
  unfold storable
  rw [if_neg (by simpa using h)]

theorem Db.receiptsOf_pruned (db : Db) (now : UInt64) :
    (db.pruned now).receiptsOf =
      db.receiptsOf.filter fun r => now < r.reservation.expiresAtMs := by
  simp only [receiptsOf, pruned, List.filter_map]
  rfl

theorem Db.mem_receiptsOf_pruned {r : Receipt} :
    r ∈ (db.pruned now).receiptsOf ↔ r ∈ db.receiptsOf ∧ now < r.reservation.expiresAtMs := by
  simp [receiptsOf_pruned]

theorem Db.Booked.pruned (h : db.Booked cap) (now : UInt64) : (db.pruned now).Booked cap where
  distinct := by
    rw [receiptsOf_pruned]
    exact h.distinct.filter _
  stored row hr := h.stored row (List.mem_filter.mp hr).1

theorem Db.receiptsOf_eq (h : db'.receipts = db.receipts) : db'.receiptsOf = db.receiptsOf :=
  congrArg (List.map ReceiptRow.receipt) h

theorem Db.Booked.eq_receipts (hb : db.Booked cap) (h : db'.receipts = db.receipts) :
    db'.Booked cap :=
  ⟨receiptsOf_eq h ▸ hb.distinct, h ▸ hb.stored⟩

/-- A time in the window of a stored receipt can be stored. -/
theorem Db.Booked.inRange (h : db.Booked cap) {r : Receipt} (hr : r ∈ db.receiptsOf)
    (hlive : now < r.reservation.expiresAtMs) : now.toNat < 2 ^ 63 := by
  obtain ⟨row, hrow, rfl⟩ := List.mem_map.mp hr
  have hstorable := (h.stored row hrow).storable
  exact Nat.lt_trans (UInt64.lt_iff_toNat_lt.mp hlive) hstorable

theorem ReceiptRow.Stored.decode {row : ReceiptRow} (h : row.Stored cap) :
    Sqlite.decode row.request cap = .ok row.receipt.reservation.request := by
  rw [h.request]
  exact decode_envelope (deserialize_value _) (h.request ▸ h.within)

theorem receiptRow_eq_ok {scope : String} {id : RunId} {reservation : ReceiptReservation}
    {row : ReceiptRow} (h : receiptRow cap scope id reservation = .ok row) :
    row.receipt = ⟨scope, id, reservation⟩ ∧ row.Stored cap := by
  obtain ⟨request, hrequest, h⟩ := bind_eq_ok.mp h
  obtain ⟨_, hstorable, h⟩ := bind_eq_ok.mp h
  obtain rfl := Except.ok.inj h
  obtain ⟨rfl, hwithin⟩ := encode_eq_ok.mp hrequest
  have hpayload : payload (envelope (serialize reservation.request)) =
      some reservation.request := by
    simp [payload, envelope, onlyFields]
  have hreceipt : ReceiptRow.receipt ⟨scope, reservation.key, id, reservation.expiresAtMs,
      envelope (serialize reservation.request)⟩ = ⟨scope, id, reservation⟩ := by
    simp only [ReceiptRow.receipt, hpayload, Option.getD_some]
  refine ⟨hreceipt, ?_, hwithin, ?_⟩
  · rw [hreceipt]
    rfl
  · simpa [storable] using hstorable

/-- A key is looked up at the only row that reserves it. -/
theorem Db.Booked.lookup (h : db.Booked cap) {r : Receipt} (hr : r ∈ db.receiptsOf)
    {scope key : String} (hn : r.Names scope key) :
    ∃ row, db.receipts.find? (fun r => r.scope = scope ∧ r.receiptKey = key) = some row ∧
      row ∈ db.receipts ∧ row.receipt = r := by
  have hfind := h.distinct.find? hr hn
  rw [receiptsOf, List.find?_map] at hfind
  obtain ⟨row, hrow, hreceipt⟩ := Option.map_eq_some_iff.mp hfind
  exact ⟨row, hrow, List.mem_of_find?_eq_some hrow, hreceipt⟩

theorem reserved_stored (limits : Limits) (h : db.Booked cap) {r : Receipt} (hr : r ∈ db.receiptsOf)
    {scope : String} {reservation : ReceiptReservation} (hn : r.Names scope reservation.key) :
    reserved cap db scope (some reservation) limits =
      if Same .source reservation.request r.reservation.request then
        .ok (some (.duplicate r.runId r.reservation.expiresAtMs))
      else .error conflict := by
  obtain ⟨row, hrow, hmem, rfl⟩ := h.lookup hr hn
  simp only [reserved, hrow, (h.stored row hmem).decode, ok_bind]
  by_cases heq : Same .source reservation.request row.receipt.reservation.request
  · simp only [if_pos heq, heq.symm, decide_true, ensure_true, ok_bind]
    rfl
  · simp only [if_neg heq, Same.comm.not.mpr heq, decide_false, ensure_false, error_bind]

/-- Where no row of a key is left, a request under it waits for a free place. -/
theorem reserved_fresh (limits : Limits) {scope : String} {reservation : ReceiptReservation}
    (h : ∀ r ∈ db.receiptsOf, ¬r.Names scope reservation.key) :
    reserved cap db scope (some reservation) limits =
      if db.receipts.length ≥ limits.receiptCount then
        .error (.new "admission.full" "Receipt retention is full")
      else .ok none := by
  have hfind : db.receipts.find? (fun r => r.scope = scope ∧ r.receiptKey = reservation.key) =
      none :=
    List.find?_eq_none.mpr fun row hr hn =>
      h row.receipt (List.mem_map_of_mem hr) (of_decide_eq_true hn : _ ∧ _)
  simp only [reserved, hfind]

/-- A reservation that a creation goes on with names no row. -/
theorem reserved_none {scope : String} {receipt : Option ReceiptReservation}
    (h : reserved cap db scope receipt limits = .ok none) :
    ∀ reservation ∈ receipt, ∀ r ∈ db.receiptsOf, ¬r.Names scope reservation.key := by
  rintro reservation rfl r hr hn
  obtain ⟨row, hrow, rfl⟩ := List.mem_map.mp hr
  simp only [reserved] at h
  split at h
  next old hold =>
    obtain ⟨_, _, h⟩ := bind_eq_ok.mp h
    obtain ⟨_, _, h⟩ := bind_eq_ok.mp h
    nomatch h
  next hnone => exact List.find?_eq_none.mp hnone row hrow (decide_eq_true hn)

end Rows

/-! ## What a transaction does to the receipts -/

section Transactions

variable {hash : Value → String} {cap : Nat} {available : ArtifactRef → Except ForgeError Unit}
  {db db' : Db} {limits : Limits}

/-- A creation goes on with what its receipt was answered. -/
theorem create_reserved {run : RunSnapshot} {receipt : Option ReceiptReservation}
    {result : Db × CreateOutcome}
    (h : create hash cap db available run receipt limits = .ok result) :
    ∃ answer, reserved cap (db.pruned run.createdAtMs) run.scope receipt limits = .ok answer ∧
      ∀ outcome ∈ answer, result = (db.pruned run.createdAtMs, outcome) := by
  obtain ⟨_, _, h⟩ := bind_eq_ok.mp h
  obtain ⟨answer, hanswer, h⟩ := bind_eq_ok.mp h
  refine ⟨answer, hanswer, ?_⟩
  rintro outcome rfl
  exact (Except.ok.inj h).symm

/-- What a receipt was answered is the answer of the creation. -/
theorem create_answered {run : RunSnapshot} {receipt : Option ReceiptReservation}
    (answer : Except ForgeError CreateOutcome) (hs : run.createdAtMs.toNat < 2 ^ 63)
    (h : reserved cap (db.pruned run.createdAtMs) run.scope receipt limits = answer.map some) :
    create hash cap db available run receipt limits =
      answer.map (db.pruned run.createdAtMs, ·) := by
  unfold create
  rw [storable_time hs, ok_bind]
  change (reserved cap (db.pruned run.createdAtMs) run.scope receipt limits >>= _) = _
  rw [h]
  cases answer <;> rfl

/-- An accepted creation prunes the receipts, and may add one under a new key. -/
theorem create_receipts {run : RunSnapshot} {receipt : Option ReceiptReservation}
    {outcome : CreateOutcome}
    (h : create hash cap db available run receipt limits = .ok (db', outcome)) :
    outcome ≠ .created ∧ db'.receipts = (db.pruned run.createdAtMs).receipts ∨
      outcome = .created ∧
        reserved cap (db.pruned run.createdAtMs) run.scope receipt limits = .ok none ∧
        ∃ rows, receipt.toList.mapM (receiptRow cap run.scope run.id) = .ok rows ∧
          db'.receipts = (db.pruned run.createdAtMs).receipts ++ rows := by
  obtain ⟨_, _, h⟩ := bind_eq_ok.mp h
  obtain ⟨answer, hanswer, h⟩ := bind_eq_ok.mp h
  cases answer with
  | some answer =>
    obtain ⟨rfl, rfl⟩ := Prod.mk.inj (Except.ok.inj h)
    refine .inl ⟨?_, rfl⟩
    -- no answer from the receipts is a creation
    rintro rfl
    unfold reserved at hanswer
    split at hanswer
    · nomatch hanswer
    · split at hanswer
      · obtain ⟨_, _, hanswer⟩ := bind_eq_ok.mp hanswer
        obtain ⟨_, _, hanswer⟩ := bind_eq_ok.mp hanswer
        nomatch hanswer
      · split at hanswer <;> nomatch hanswer
  | none =>
    obtain ⟨_, _, h⟩ := bind_eq_ok.mp h
    obtain ⟨_, _, h⟩ := bind_eq_ok.mp h
    obtain ⟨_, _, h⟩ := bind_eq_ok.mp h
    obtain ⟨_, _, h⟩ := bind_eq_ok.mp h
    -- interning a package leaves the receipts
    obtain ⟨⟨interned, packageId⟩, hintern, h⟩ := bind_eq_ok.mp h
    obtain ⟨_, _, h⟩ := bind_eq_ok.mp h
    obtain ⟨_, _, h⟩ := bind_eq_ok.mp h
    obtain ⟨rows, hrows, h⟩ := bind_eq_ok.mp h
    obtain ⟨rfl, rfl⟩ := Prod.mk.inj (Except.ok.inj h)
    obtain ⟨_, _, hintern⟩ := bind_eq_ok.mp hintern
    obtain ⟨_, _, hintern⟩ := bind_eq_ok.mp hintern
    obtain ⟨rfl, -⟩ := Prod.mk.inj (Except.ok.inj hintern)
    exact .inr ⟨rfl, hanswer, rows, hrows, rfl⟩

/-- The rows of an optional receipt are the rows of that receipt. -/
theorem receiptRows_eq_ok {scope : String} {id : RunId} {receipt : Option ReceiptReservation}
    {rows : List ReceiptRow} (h : receipt.toList.mapM (receiptRow cap scope id) = .ok rows) :
    rows.map ReceiptRow.receipt = receipt.toList.map (⟨scope, id, ·⟩) ∧
      ∀ row ∈ rows, row.Stored cap := by
  cases receipt with
  | none =>
    obtain rfl := Except.ok.inj (show Except.ok [] = .ok rows from h)
    exact ⟨rfl, by simp⟩
  | some reservation =>
    rw [Option.toList_some, List.mapM_cons] at h
    obtain ⟨row, hrow, h⟩ := bind_eq_ok.mp h
    obtain rfl := Except.ok.inj (show Except.ok [row] = .ok rows from h)
    obtain ⟨hreceipt, hstored⟩ := receiptRow_eq_ok hrow
    exact ⟨by simp [hreceipt], by simpa using hstored⟩

theorem Db.Booked.create (h : db.Booked cap) {run : RunSnapshot}
    {receipt : Option ReceiptReservation} {outcome : CreateOutcome}
    (hc : Sqlite.create hash cap db available run receipt limits = .ok (db', outcome)) :
    db'.Booked cap := by
  have hpruned := h.pruned run.createdAtMs
  rcases create_receipts hc with ⟨_, hreceipts⟩ | ⟨_, hnone, rows, hrows, hreceipts⟩
  · exact ⟨by simpa only [receiptsOf, hreceipts] using hpruned.distinct,
      by simpa only [hreceipts] using hpruned.stored⟩
  · obtain ⟨hgranted, hstored⟩ := receiptRows_eq_ok hrows
    constructor
    · rw [receiptsOf, hreceipts, List.map_append, hgranted]
      refine hpruned.distinct.append (by cases receipt <;> simp) fun r hr g hg => ?_
      obtain ⟨reservation, hres, rfl⟩ := List.mem_map.mp hg
      exact reserved_none hnone reservation (Option.mem_toList.mp hres) r hr
    · intro row hr
      rw [hreceipts] at hr
      rcases List.mem_append.mp hr with hr | hr
      · exact hpruned.stored row hr
      · exact hstored row hr

theorem commit_receipts {expected : UInt64} {next : RunSnapshot}
    (h : commit hash cap db available expected next = .ok db') : db'.receipts = db.receipts := by
  obtain ⟨_, _, _, _, _, _, _, _, _, rfl⟩ := commit_eq_ok h
  rfl

theorem commitNode_receipts {id : RunId} {expected : UInt64} {path : String}
    {record : InvocationRecord} {view : ExecutionView}
    (h : commitNode cap db id expected path record = .ok (db', view)) :
    db'.receipts = db.receipts := by
  obtain ⟨_, _, _, _, _, _, _, _, _, _, _, rfl⟩ := commitNode_eq_ok h
  rfl

theorem collect_receipts {now : UInt64} (h : collect db now limits = .ok db') :
    db'.receipts = (db.pruned now).receipts := by
  obtain ⟨_, _, h⟩ := bind_eq_ok.mp h
  obtain rfl := Except.ok.inj h
  rfl

end Transactions

/-! ## The worker -/

namespace Worker

def receipts (w : Worker) : List Receipt := w.db.receiptsOf

/-- The worker is owned, and its receipt table is in order. -/
structure Booked (owner : String) (cap : Nat) (w : Worker) : Prop where
  owned : w.owner = some owner
  table : w.db.Booked cap

variable {hash : Value → String} {cap : Nat} {available : ArtifactRef → Except ForgeError Unit}
  {owner : String} {w w' : Worker} {limits : Limits}

/-- A write leaves the worker as it was, or commits what its transaction computed. -/
theorem write_cases {α : Type} {caller : String} {action : Db → Except ForgeError (Db × α)}
    {answer : Except ForgeError α} (h : w.write caller action = (w', answer)) :
    w' = w ∧ (∃ e, answer = .error e) ∨
      ∃ db a, action w.db = .ok (db, a) ∧ w' = { w with db := db } ∧ answer = .ok a := by
  cases answer with
  | error e => exact .inl ⟨(write_eq_error h).1, e, rfl⟩
  | ok a =>
    obtain ⟨_, db, hdb, rfl⟩ := write_eq_ok.mp h
    exact .inr ⟨db, a, hdb, rfl, rfl⟩

/-- The owner of the worker is answered by the transaction. -/
theorem write_snd {α : Type} {action : Db → Except ForgeError (Db × α)}
    (h : w.owner = some owner) : (w.write owner action).2 = (action w.db).map Prod.snd := by
  unfold Worker.write
  rw [if_neg (not_not.mpr h)]
  cases action w.db <;> rfl

/-- A write keeps the table in order, and every receipt its transaction keeps. -/
theorem Booked.write {α : Type} {caller : String} {action : Db → Except ForgeError (Db × α)}
    (h : w.Booked owner cap) {live : Receipt → Prop}
    (hdb : ∀ db a, action w.db = .ok (db, a) → db.Booked cap ∧
      ∀ r ∈ w.receipts, live r → r ∈ db.receiptsOf) :
    (w.write caller action).1.Booked owner cap ∧
      ∀ r ∈ w.receipts, live r → r ∈ (w.write caller action).1.receipts := by
  obtain ⟨w', answer, hw⟩ : ∃ w' answer, w.write caller action = (w', answer) := ⟨_, _, rfl⟩
  rw [hw]
  rcases write_cases hw with ⟨rfl, _⟩ | ⟨db, a, haction, rfl, _⟩
  · exact ⟨h, fun _ hr _ => hr⟩
  · obtain ⟨htable, hkept⟩ := hdb db a haction
    exact ⟨⟨h.owned, htable⟩, hkept⟩

theorem Booked.perform (h : w.Booked owner cap) (call : Call) :
    ((store hash cap available).perform w call).1.Booked owner cap ∧
      ∀ r ∈ w.receipts, (∀ t ∈ call.time, t < r.reservation.expiresAtMs) →
        r ∈ ((store hash cap available).perform w call).1.receipts := by
  cases call with
  | create caller run receipt limits =>
    simp only [ExecutionStore.perform, store]
    refine h.write fun db outcome hc => ⟨h.table.create hc, fun r hr hlive => ?_⟩
    have hpruned := Db.mem_receiptsOf_pruned.mpr ⟨hr, hlive run.createdAtMs rfl⟩
    -- the start answers from the receipts, or adds one
    rcases create_receipts hc with ⟨_, hreceipts⟩ | ⟨_, _, rows, _, hreceipts⟩
    · simpa only [Db.receiptsOf, hreceipts] using hpruned
    · rw [Db.receiptsOf, hreceipts, List.map_append]
      exact List.mem_append_left _ hpruned
  | get id => exact ⟨h, fun _ hr _ => hr⟩
  | view id node => exact ⟨h, fun _ hr _ => hr⟩
  | unfinished => exact ⟨h, fun _ hr _ => hr⟩
  | unfinishedHeads => exact ⟨h, fun _ hr _ => hr⟩
  | commit caller expected next =>
    simp only [ExecutionStore.perform, store]
    refine h.write fun db u hc => ?_
    -- a commit has no receipt
    obtain ⟨db', htransaction, heq⟩ := map_eq_ok.mp hc
    obtain ⟨rfl, -⟩ := Prod.mk.inj heq
    have hsame := commit_receipts htransaction
    exact ⟨h.table.eq_receipts hsame, fun r hr _ => Db.receiptsOf_eq hsame ▸ hr⟩
  | commitInvocation caller id expected node record =>
    simp only [ExecutionStore.perform, store]
    refine h.write fun db view hc => ?_
    have hsame := commitNode_receipts hc
    exact ⟨h.table.eq_receipts hsame, fun r hr _ => Db.receiptsOf_eq hsame ▸ hr⟩
  | collect caller now limits =>
    simp only [ExecutionStore.perform, store]
    refine h.write fun db u hc => ?_
    obtain ⟨db', htransaction, heq⟩ := map_eq_ok.mp hc
    obtain ⟨rfl, -⟩ := Prod.mk.inj heq
    have hsame := collect_receipts htransaction
    refine ⟨(h.table.pruned now).eq_receipts hsame, fun r hr hlive => ?_⟩
    rw [Db.receiptsOf_eq hsame]
    exact Db.mem_receiptsOf_pruned.mpr ⟨hr, hlive now rfl⟩

/-- The worker keeps the receipts of its starts. -/
theorem reserves (hash : Value → String) (cap : Nat)
    (available : ArtifactRef → Except ForgeError Unit) (owner : String) :
    Reserves (store hash cap available) owner receipts (fun w id => (w.db.runs[id]?).isSome)
      (Booked owner cap) where
  step w call h := (h.perform call).1
  kept w call h := (h.perform call).2
  granted w call r h hg := by
    cases call with
    | create caller run receipt limits =>
      simp only [ExecutionStore.perform, store] at hg ⊢
      obtain ⟨w', answer, hw⟩ : ∃ w' answer, w.write caller (fun db =>
          create hash cap db available run receipt limits) = (w', answer) := ⟨_, _, rfl⟩
      rw [hw] at hg ⊢
      -- a transaction that fails grants nothing
      rcases write_cases hw with ⟨_, e, rfl⟩ | ⟨db, outcome, hc, rfl, rfl⟩
      · cases hg
      rcases create_receipts hc with ⟨hne, _⟩ | ⟨rfl, _, rows, hrows, hreceipts⟩
      · cases outcome with
        | created => exact absurd rfl hne
        | duplicate id expiresAtMs => cases hg
      · obtain ⟨reservation, rfl, rfl⟩ := Option.map_eq_some_iff.mp hg
        have hgranted := (receiptRows_eq_ok hrows).1
        simp [receipts, Db.receiptsOf, hreceipts, hgranted]
    | _ => cases hg
  collects w now limits h r hr hlive := by
    have hnow := h.table.inRange hr hlive
    simp only [store, write_snd h.owned, collect, storable_time hnow]
    rfl
  equal w h r hr run reservation limits hn hlive heq := by
    have hs := h.table.inRange hr hlive
    have hres := reserved_stored limits (h.table.pruned run.createdAtMs)
      (Db.mem_receiptsOf_pruned.mpr ⟨hr, hlive⟩) hn
    -- the receipt answers before the run is looked at
    rw [if_pos heq] at hres
    simp only [store, write_snd h.owned]
    rw [create_answered (.ok _) hs hres]
    rfl
  different w h r hr run reservation limits hn hlive hne := by
    have hs := h.table.inRange hr hlive
    have hres := reserved_stored limits (h.table.pruned run.createdAtMs)
      (Db.mem_receiptsOf_pruned.mpr ⟨hr, hlive⟩) hn
    rw [if_neg hne] at hres
    refine ⟨conflict, ?_, rfl⟩
    simp only [store, write_snd h.owned]
    rw [create_answered (.error _) hs hres]
    rfl
  owned w h caller run receipt limits outcome hok := by
    obtain ⟨howner, _⟩ := write_eq_ok.mp (show w.write caller (fun db =>
      create hash cap db available run receipt limits) = (_, .ok outcome) from Prod.ext rfl hok)
    exact Option.some.inj (howner.symm.trans h.owned)
  full w h caller run reservation limits hnone hfull := by
    by_cases howner : w.owner = some caller
    · simp only [store, write_snd howner]
      -- a time that the column cannot hold is refused first
      by_cases hs : run.createdAtMs.toNat < 2 ^ 63
      · have hfresh : ∀ r ∈ (w.db.pruned run.createdAtMs).receiptsOf,
            ¬r.Names run.scope reservation.key := fun r hr hn =>
          hnone r (Db.mem_receiptsOf_pruned.mp hr).1 hn (Db.mem_receiptsOf_pruned.mp hr).2
        have hcount : limits.receiptCount ≤ (w.db.pruned run.createdAtMs).receipts.length := by
          rw [← List.length_map ReceiptRow.receipt]
          change _ ≤ (w.db.pruned run.createdAtMs).receiptsOf.length
          rw [Db.receiptsOf_pruned]
          exact hfull
        have hres := @reserved_fresh cap _ limits _ _ hfresh
        rw [if_pos hcount] at hres
        rw [create_answered (.error _) hs hres]
        exact ⟨_, rfl⟩
      · unfold create
        rw [storable_late hs]
        exact ⟨_, rfl⟩
    · exact ⟨conflict, by simp [store, write_foreign howner]⟩
  refused w h caller run receipt limits e he := by
    obtain ⟨w', hw⟩ : ∃ w', w.write caller (fun db =>
        create hash cap db available run receipt limits) = (w', .error e) :=
      ⟨_, Prod.ext rfl he⟩
    rw [show (store hash cap available).create w caller run receipt limits = (w', .error e)
      from hw, (write_eq_error hw).1]
    exact ⟨fun _ => Iff.rfl, fun _ hr => hr⟩

end Worker

end WorkflowForge.Sqlite

namespace WorkflowForge

open Lib

/-- Both stores deduplicate the starts of the runtime that owns them. -/
theorem start_deduplication :
    (∀ owner : String, ExecutionStore.Deduplicates MemoryExecutionStore.store owner
      MemoryExecutionStore.State.receipts (fun s id => (s.runs[id]?).isSome)
      { owner := some owner }) ∧
    ∀ (hash : Value → String) (cap : Nat) (available : ArtifactRef → Except ForgeError Unit)
      (owner : String), ExecutionStore.Deduplicates (Sqlite.store hash cap available) owner
      Sqlite.Worker.receipts (fun w id => (w.db.runs[id]?).isSome) { owner := some owner } := by
  refine ⟨fun owner => ?_, fun hash cap available owner => ?_⟩
  · exact (MemoryExecutionStore.reserves owner).deduplicates ⟨rfl, .nil⟩
  · exact (Sqlite.Worker.reserves hash cap available owner).deduplicates
      ⟨rfl, .nil, by simp⟩


end WorkflowForge
