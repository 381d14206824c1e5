import WorkflowForge.Sqlite.Accept

/-!
# Related Stores

The tables of the worker hold exactly the runs of the memory store, and the receipts of
both agree from the current time on: a refused creation prunes the receipts of the memory
store alone.

## Main results

- `Related.create`, `Related.commit`, `Related.commitInvocation`, `Related.collect`: related
  stores answer a call alike, and stay related.
-/

namespace WorkflowForge.Sqlite

open Lib
open MemoryExecutionStore (State StoredRun Receipt Counted KeepsZeros SteadilyReached)
open ExecutionStore (Call Answer)

/-! ## States that reach no limit -/

/-- The body of a package's row. -/
def packageBody (package : ResolvedPackage) : Value :=
  envelope (serialize package)

/-- No part of what a store holds reaches a limit of the tables, and no two of its packages
share a digest. -/
structure StateFits (hash : Value → String) (cap : Nat) (m : State) : Prop where
  runs : ∀ (id : RunId) (s : RunSnapshot), m.get id = some s → Fits cap s
  receipts : ∀ r ∈ m.receipts, ReservationFits cap r.reservation
  packages : ∀ (id id' : RunId) (s s' : RunSnapshot), m.get id = some s → m.get id' = some s' →
    hash (packageBody s.package) = hash (packageBody s'.package) →
    packageBody s.package = packageBody s'.package

/-- A full commit writes every record that has another text, and counts what it keeps: no float
zero of a record or of the input changes its sign alone. -/
def Settled (m : State) : Call → Prop
  | .commit _ _ next => ∀ s, m.get next.id = some s →
      KeepsTexts s.invocations next.invocations ∧ KeepsZeros s next
  | _ => True

/-! ## The relation -/

/-- The receipts that are in their window. -/
def live (now : UInt64) (receipts : List Receipt) : List Receipt :=
  receipts.filter fun r => now < r.reservation.expiresAtMs

/-- The tables of the worker hold what the memory store holds. -/
structure Related (hash : Value → String) (cap : Nat) (owner : String) (now : UInt64) (m : State)
    (w : Worker) : Prop where
  memoryOwner : m.owner = some owner
  workerOwner : w.owner = some owner
  reached : SteadilyReached m
  fits : StateFits hash cap m
  holds : Holds hash cap w.db m.get
  booked : w.db.Booked cap
  receipts : live now w.receipts = live now m.receipts
  packages : ∀ (packageId : String) (body : Value), w.db.packages[packageId]? = some body →
    ∃ id s, m.get id = some s ∧ body = packageBody s.package ∧ packageId = hash body

/-- Two answers that accept alike. -/
def Agree {α : Type} (a b : Except ForgeError α) : Prop :=
  ∀ x, a = .ok x ↔ b = .ok x

section Agree

variable {α β : Type}

/-- The same answer agrees. -/
theorem Agree.ok (x : α) : Agree (.ok x) (.ok x) := fun _ => Iff.rfl

/-- Two errors agree, whatever they say. -/
theorem Agree.error (e e' : ForgeError) : Agree (.error e : Except ForgeError α) (.error e') :=
  fun _ => ⟨nofun, nofun⟩

/-- Answers agree that are made from agreeing ones. -/
theorem Agree.map {a b : Except ForgeError α} (h : Agree a b) (f : α → β) :
    Agree (a.map f) (b.map f) := by
  intro y
  rw [map_eq_ok, map_eq_ok]
  constructor
  · rintro ⟨x, hx, rfl⟩
    exact ⟨x, (h x).mp hx, rfl⟩
  · rintro ⟨x, hx, rfl⟩
    exact ⟨x, (h x).mpr hx, rfl⟩

end Agree

section Related

variable {hash : Value → String} {cap : Nat} {owner : String} {now t : UInt64} {m m' : State}
  {w : Worker}

/-- Receipts that are live later are live now. -/
theorem live_live (h : now ≤ t) (receipts : List Receipt) :
    live t (live now receipts) = live t receipts := by
  unfold live
  rw [List.filter_filter]
  refine List.filter_congr fun r _ => ?_
  by_cases hr : t < r.reservation.expiresAtMs
  · simp [hr, UInt64.lt_of_le_of_lt h hr]
  · simp [hr]

/-- The stores stay related as the clock goes on. -/
theorem Related.later (h : Related hash cap owner now m w) (hclock : now ≤ t) :
    Related hash cap owner t m w where
  memoryOwner := h.memoryOwner
  workerOwner := h.workerOwner
  reached := h.reached
  fits := h.fits
  holds := h.holds
  booked := h.booked
  receipts := by
    rw [← live_live hclock, h.receipts, live_live hclock]
  packages := h.packages

/-- The counters of the memory store are exact. -/
theorem Related.counted (h : Related hash cap owner now m w) :
    ∀ id r, m.runs[id]? = some r → Counted id r :=
  h.reached.counted

/-- What the memory store prunes, the tables may keep. -/
theorem Related.pruned (h : Related hash cap owner t m w)
    (hreached : SteadilyReached (m.pruneReceipts t)) :
    Related hash cap owner t (m.pruneReceipts t) w where
  memoryOwner := h.memoryOwner
  workerOwner := h.workerOwner
  reached := hreached
  fits := ⟨h.fits.runs, fun r hr => h.fits.receipts r (State.mem_pruneReceipts.mp hr).1,
    h.fits.packages⟩
  holds := h.holds
  booked := h.booked
  receipts := by
    rw [h.receipts]
    exact (live_live (UInt64.le_refl t) m.receipts).symm
  packages := h.packages

/-- Both stores prune alike. -/
theorem Related.prunedBoth (h : Related hash cap owner t m w)
    (hreached : SteadilyReached (m.pruneReceipts t)) :
    Related hash cap owner t (m.pruneReceipts t) { w with db := w.db.pruned t } where
  memoryOwner := h.memoryOwner
  workerOwner := h.workerOwner
  reached := hreached
  fits := (h.pruned hreached).fits
  holds := ⟨fun id s hs => (h.holds.represents id s hs).frame rfl rfl fun _ _ hb => hb,
    h.holds.absent⟩
  booked := h.booked.pruned t
  receipts := by
    change live t (w.db.pruned t).receiptsOf = _
    rw [Db.receiptsOf_pruned]
    exact congrArg (live t) h.receipts
  packages := h.packages

/-! ## Reading -/

/-- The rows of a run represent its snapshot. -/
theorem Related.represents (h : Related hash cap owner now m w) {id : RunId} {s : RunSnapshot}
    (hs : m.get id = some s) : Represents hash cap w.db id s :=
  h.holds.represents id s hs

/-- Both stores answer with the same run. -/
theorem Related.run_eq (h : Related hash cap owner now m w) (id : RunId) :
    Query.run hash w.db id cap = .ok (m.get id) := by
  cases hs : m.get id with
  | none =>
    unfold Query.run
    rw [(h.holds.absent id hs).1]
  | some s => exact (h.represents hs).run_eq_iff.mpr (h.fits.runs id s hs).lossless

/-- And with the same head. -/
theorem Related.head_eq (h : Related hash cap owner now m w) (id : RunId) :
    Query.head w.db id = .ok ((m.get id).map RunSnapshot.head) := by
  cases hs : m.get id with
  | none =>
    unfold Query.head
    rw [(h.holds.absent id hs).1]
    rfl
  | some s => exact (h.represents hs).head_eq

/-- And with the same view of a node. -/
theorem Related.view_eq (h : Related hash cap owner now m w) (id : RunId)
    (node : Option String) : Query.view w.db id node cap = .ok (m.view id node) := by
  rw [State.view_eq (h.counted id)]
  cases hs : m.get id with
  | none =>
    unfold Query.view
    rw [h.head_eq, hs]
    rfl
  | some s => exact (h.represents hs).view_eq (h.fits.runs id s hs).lossless node

/-- The columns that tell the runs apart are those of the stored runs. -/
theorem Related.rows_eq (h : Related hash cap owner now m w) :
    BTreeMap.mapValues (fun row => (row.state, row.finishedAtMs)) w.db.runs =
      BTreeMap.mapValues (fun r => (r.snapshot.state.word, r.snapshot.finishedAtMs)) m.runs := by
  apply Std.ExtTreeMap.ext_getElem?
  intro id
  rw [BTreeMap.get_mapValues, BTreeMap.get_mapValues]
  cases hr : m.runs[id]? with
  | none =>
    have hs : m.get id = none := by rw [State.get, hr]; rfl
    rw [(h.holds.absent id hs).1]
    rfl
  | some r =>
    have hs : m.get id = some r.materialize := by rw [State.get, hr]; rfl
    obtain ⟨row, hrow, hheader, _⟩ := (h.represents hs).header
    rw [hrow, Option.map_some, Option.map_some, hheader.state, hheader.finished]
    rfl

/-- The entries of the run table, as far as these columns go. -/
theorem Related.entries_eq (h : Related hash cap owner now m w) :
    w.db.runs.toList.map (fun e => (e.1, e.2.state, e.2.finishedAtMs)) =
      m.runs.toList.map fun e => (e.1, e.2.snapshot.state.word, e.2.snapshot.finishedAtMs) := by
  have hrows := congrArg Std.ExtTreeMap.toList h.rows_eq
  rwa [BTreeMap.toList_mapValues, BTreeMap.toList_mapValues] at hrows

/-- The words in the query are those of the terminal states. -/
theorem terminalWords_word (state : RunState) :
    terminalWords.contains state.word = state.isTerminal := by
  cases state <;> decide

/-- Both stores count the same active runs. -/
theorem Related.activeCount_eq (h : Related hash cap owner now m w) :
    w.db.activeCount = m.activeCount := by
  have hentries := congrArg (List.countP fun e : RunId × String × Option UInt64 =>
    !terminalWords.contains e.2.1) h.entries_eq
  rw [List.countP_map, List.countP_map] at hentries
  unfold Db.activeCount State.activeCount BTreeMap.valueList
  rw [List.countP_map, List.countP_map]
  refine hentries.trans (congrArg (List.countP · m.runs.toList) ?_)
  funext e
  simp only [Function.comp_apply, terminalWords_word]

/-- The identities of the runs that are not terminal. -/
theorem Related.unfinished_ids (h : Related hash cap owner now m w) :
    Query.unfinished w.db =
      (m.runs.toList.filter fun e => !e.2.snapshot.state.isTerminal).map Prod.fst := by
  have hentries := congrArg (fun l => ((l.filter fun e : RunId × String × Option UInt64 =>
    !terminalWords.contains e.2.1).map Prod.fst)) h.entries_eq
  simp only [List.filter_map, List.map_map] at hentries
  refine hentries.trans (congrArg (List.map Prod.fst) (List.filter_congr fun e _ => ?_))
  simp only [Function.comp_apply, terminalWords_word]

/-- Reading each run of a list finds what each of them is stored as. -/
theorem readAll_ok {α : Type} {query : RunId → Except ForgeError (Option α)}
    {f : StoredRun → α} (entries : List (RunId × StoredRun))
    (hq : ∀ e ∈ entries, query e.1 = .ok (some (f e.2))) :
    readAll query (entries.map Prod.fst) = .ok (entries.map fun e => f e.2) := by
  induction entries with
  | nil => rfl
  | cons e entries ih =>
    have hrest := ih fun e' he => hq e' (List.mem_cons_of_mem _ he)
    simp only [List.map_cons, readAll, hq e List.mem_cons_self, ok_bind, hrest]
    rfl

/-- Both list the same unfinished runs. -/
theorem Related.unfinished_eq (h : Related hash cap owner now m w) :
    readAll (fun id => Query.run hash w.db id cap) (Query.unfinished w.db) =
      .ok m.unfinished := by
  rw [h.unfinished_ids, readAll_ok (f := StoredRun.materialize)]
  · simp only [State.unfinished, BTreeMap.valueList, List.filter_map, List.map_map]
    rfl
  · intro e he
    have hr := Std.ExtTreeMap.mem_toList_iff_getElem?_eq_some.mp (List.mem_of_mem_filter he)
    rw [h.run_eq, State.get, hr]
    rfl

/-- And their heads. -/
theorem Related.unfinishedHeads_eq (h : Related hash cap owner now m w) :
    readAll (Query.head w.db) (Query.unfinished w.db) = .ok m.unfinishedHeads := by
  rw [h.unfinished_ids, readAll_ok (f := StoredRun.head)]
  · simp only [State.unfinishedHeads, BTreeMap.valueList, List.filter_map, List.map_map]
    rfl
  · intro e he
    have hr := Std.ExtTreeMap.mem_toList_iff_getElem?_eq_some.mp (List.mem_of_mem_filter he)
    rw [h.head_eq, State.get, hr, (h.counted e.1 e.2 hr).head]
    rfl

/-- Both stores collect the same runs. -/
theorem Related.expired_eq (h : Related hash cap owner now m w) (time : UInt64)
    (limits : Limits) : expired w.db time limits = m.expired time limits := by
  have hfinished : finished w.db = m.finished := by
    have hentries := congrArg (List.filterMap fun e : RunId × String × Option UInt64 =>
      if terminalWords.contains e.2.1 then e.2.2.map (·, e.1) else none) h.entries_eq
    rw [List.filterMap_map, List.filterMap_map] at hentries
    unfold finished State.finished
    refine congrArg (List.mergeSort · _) (hentries.trans (List.filterMap_congr fun e he => ?_))
    have hr := Std.ExtTreeMap.mem_toList_iff_getElem?_eq_some.mp he
    simp only [Function.comp_apply, terminalWords_word, (h.counted e.1 e.2 hr).named]
  unfold expired State.expired
  rw [hfinished]

end Related

/-- The memory store after a call of the trait. -/
theorem reached_perform {m : State} (h : SteadilyReached m) {call : Call} (hcall : Settled m call) :
    SteadilyReached (MemoryExecutionStore.store.perform m call).1 := by
  cases call with
  | create owner run receipt limits => exact .called (.create owner run receipt limits) h trivial
  | get id => exact h
  | view id node => exact h
  | unfinished => exact h
  | unfinishedHeads => exact h
  | commit owner expected next =>
    refine .called (.commit owner expected next) h fun current hcurrent => ?_
    exact (hcall current.materialize (by rw [State.get, hcurrent]; rfl)).2
  | commitInvocation owner id expected node record =>
    exact .called (.commitInvocation owner id expected node record) h trivial
  | collect owner now limits => exact .collected owner now limits h

/-- Storing a run under its identity changes what is found there, and nothing else. -/
theorem get_insert {runs : BTreeMap RunId StoredRun} {m : State} (id : RunId) (r : StoredRun)
    (h : runs = m.runs.insert id r) :
    State.get { m with runs := runs } = Function.update m.get id (some r.materialize) := by
  funext key
  subst h
  simp only [State.get, BTreeMap.get_insert, Function.update_apply, eq_comm (a := key)]
  split <;> rfl

/-- The memory store and the worker after a call that both answer alike. -/
structure Step {α : Type} (hash : Value → String) (cap : Nat) (owner : String) (now : UInt64)
    (memory : State × Except ForgeError α) (tables : Worker × Except ForgeError α) : Prop where
  related : Related hash cap owner now memory.1 tables.1
  agree : Agree memory.2 tables.2

/-- Both stores refuse what no transaction of the owner accepts. -/
theorem Related.refusedWrite {α : Type} {hash : Value → String} {cap : Nat} {owner : String}
    {caller : String} {now : UInt64} {m : State} {w : Worker} {e : ForgeError}
    {action : Db → Except ForgeError (Db × α)} (h : Related hash cap owner now m w)
    (hrefused : ∀ db a, action w.db = .ok (db, a) → caller ≠ owner) :
    Step hash cap owner now (m, .error e) (w.write caller action) := by
  obtain ⟨w', a, hw⟩ : ∃ w' a, w.write caller action = (w', a) := ⟨_, _, rfl⟩
  rw [hw]
  cases a with
  | error e' =>
    rw [(Worker.write_eq_error hw).1]
    exact ⟨h, Agree.error _ _⟩
  | ok a =>
    obtain ⟨howner, db, haction, _⟩ := Worker.write_eq_ok.mp hw
    exact absurd (Option.some.inj (howner.symm.trans h.workerOwner)) (hrefused db a haction)

/-! ## Creation -/

section Create

variable {hash : Value → String} {cap : Nat} {available : ArtifactRef → Except ForgeError Unit}
  {owner caller : String} {now : UInt64} {m : State} {w : Worker} {db : Db} {run : RunSnapshot}
  {receipt : Option ReceiptReservation} {limits : Limits}

/-- Equal receipts answer a reservation alike. -/
theorem reserved_agree (hbooked : db.Booked cap) (heq : db.receiptsOf = m.receipts)
    (scope : String) :
    Agree (m.reserved scope receipt limits) (reserved cap db scope receipt limits) := by
  cases receipt with
  | none => exact Agree.ok none
  | some reservation =>
    cases hfind : m.receiptOf scope reservation.key with
    -- the same receipt is found under the key
    | some old =>
      obtain ⟨hmem, hn⟩ := State.receiptOf_eq_some hfind
      rw [reserved_stored limits hbooked (heq ▸ hmem) hn]
      by_cases hr : Same .source old.reservation.request reservation.request
      · rw [if_pos hr.symm, State.reserved_eq_some.mpr
          ⟨reservation, rfl, old, hfind, hr, rfl⟩]
        exact Agree.ok _
      · rw [if_neg (Same.comm.not.mp hr), State.reserved_conflict limits hfind hr]
        exact Agree.error _ _
    -- as many receipts count against the limit
    | none =>
      have hfresh : ∀ r ∈ db.receiptsOf, ¬r.Names scope reservation.key := fun r hr hn =>
        State.receiptOf_eq_none.mp hfind r (heq ▸ hr) hn
      have hlen : db.receipts.length = m.receipts.length := by
        rw [← heq, Db.receiptsOf, List.length_map]
      rw [reserved_fresh limits hfresh, hlen]
      by_cases hfull : m.receipts.length ≥ limits.receiptCount
      · rw [if_pos hfull, State.reserved_full hfind hfull]
        exact Agree.error _ _
      · rw [if_neg hfull, State.reserved_eq_none.mpr fun r hr => ?_]
        · exact Agree.ok _
        · obtain rfl := Option.some.inj hr
          exact ⟨hfind, Nat.lt_of_not_le hfull⟩

/-- The checks of a creation are those of the memory store. -/
theorem Related.creationLaw_iff (h : Related hash cap owner now m w) :
    CreationLaw w.db run limits ↔
      m.activeCount < limits.activeRuns + limits.pendingRuns ∧ run.InitialLaw ∧
        m.runs[run.id]? = none := by
  -- a row stands for a run of the map
  have hfresh : w.db.runs[run.id]? = none ↔ m.runs[run.id]? = none := by
    constructor
    · intro hn
      cases hr : m.runs[run.id]? with
      | none => rfl
      | some r =>
        have hs : m.get run.id = some r.materialize := by rw [State.get, hr]; rfl
        obtain ⟨row, hrow, _⟩ := (h.represents hs).header
        rw [hn] at hrow
        cases hrow
    · intro hn
      have hs : m.get run.id = none := by rw [State.get, hn]; rfl
      exact (h.holds.absent run.id hs).1
  constructor
  · rintro ⟨hcapacity, hinitial, hn⟩
    exact ⟨h.activeCount_eq ▸ hcapacity, hinitial, hfresh.mp hn⟩
  · rintro ⟨hcapacity, hinitial, hn⟩
    exact ⟨h.activeCount_eq.symm ▸ hcapacity, hinitial, hfresh.mpr hn⟩

/-- The rows of packages after an accepted creation. -/
theorem create_packages {db' : Db}
    (h : create hash cap db available run receipt limits = .ok (db', .created))
    (packageId : String) (body : Value) (hb : db'.packages[packageId]? = some body) :
    db.packages[packageId]? = some body ∨
      body = packageBody run.package ∧ packageId = hash body := by
  obtain ⟨_, _, h⟩ := bind_eq_ok.mp h
  obtain ⟨answer, _, h⟩ := bind_eq_ok.mp h
  cases answer with
  -- an answer from the receipts interns nothing
  | some outcome =>
    obtain ⟨rfl, -⟩ := Prod.mk.inj (Except.ok.inj h)
    exact .inl hb
  | none =>
    obtain ⟨_, _, h⟩ := bind_eq_ok.mp h
    obtain ⟨_, _, h⟩ := bind_eq_ok.mp h
    obtain ⟨_, _, h⟩ := bind_eq_ok.mp h
    obtain ⟨_, _, h⟩ := bind_eq_ok.mp h
    obtain ⟨⟨interned, internedId⟩, hintern, h⟩ := bind_eq_ok.mp h
    obtain ⟨_, _, h⟩ := bind_eq_ok.mp h
    obtain ⟨_, _, h⟩ := bind_eq_ok.mp h
    obtain ⟨_, _, h⟩ := bind_eq_ok.mp h
    obtain ⟨rfl, -⟩ := Prod.mk.inj (Except.ok.inj h)
    obtain ⟨encoded, hencoded, hintern⟩ := bind_eq_ok.mp hintern
    obtain ⟨_, _, hintern⟩ := bind_eq_ok.mp hintern
    obtain ⟨rfl, -⟩ := Prod.mk.inj (Except.ok.inj hintern)
    obtain ⟨rfl, _⟩ := encode_eq_ok.mp hencoded
    -- interning inserts a package under its hash, unless it is there
    dsimp only at hb
    split at hb
    · exact .inl hb
    · rw [BTreeMap.get_insert] at hb
      split at hb
      next heq =>
        obtain rfl := Option.some.inj hb
        exact .inr ⟨rfl, heq.symm⟩
      next => exact .inl hb

/-- A creation that passes every check is made by both stores. -/
theorem Related.created (h : Related hash cap owner now m w)
    (available : ArtifactRef → Except ForgeError Unit) (hs : run.createdAtMs.toNat < 2 ^ 63)
    (hclock : now ≤ run.createdAtMs) {m' : State}
    (hm : m.create owner run receipt limits = (m', .ok .created))
    (hfits : StateFits hash cap m') :
    ∃ w', (store hash cap available).create w owner run receipt limits = (w', .ok .created) ∧
      Related hash cap owner run.createdAtMs m' w' := by
  have hreached : SteadilyReached m' := by
    have := @reached_perform _ h.reached (.create owner run receipt limits) trivial
    simpa only [ExecutionStore.perform, MemoryExecutionStore.store, hm] using this
  obtain ⟨_, hfresh, hcapacity, hinitial, hnone, hm'⟩ := State.create_eq_created.mp hm
  have hpruned : (w.db.pruned run.createdAtMs).receiptsOf =
      (m.pruneReceipts run.createdAtMs).receipts := by
    rw [Db.receiptsOf_pruned]
    exact (h.later hclock).receipts
  have hget : m'.get = Function.update m.get run.id (some run) := by
    rw [hm']
    exact get_insert run.id _ rfl
  have hrun : m'.get run.id = some run := by rw [hget, Function.update_self]
  have hreserved : reserved cap (w.db.pruned run.createdAtMs) run.scope receipt limits =
      .ok none := by
    refine (reserved_agree (h.booked.pruned _) hpruned run.scope none).mp ?_
    exact State.reserved_eq_none.mpr hfresh
  have hreceipt : ∀ r ∈ receipt, ReservationFits cap r := by
    rintro r rfl
    exact hfits.receipts ⟨run.scope, run.id, r⟩ (by rw [hm']; simp)
  -- a package row of another run has the same body as soon as it has the same digest
  have hpackages : ∀ body,
      w.db.packages[hash (envelope (serialize run.package))]? = some body →
        body = envelope (serialize run.package) := by
    intro body hbody
    obtain ⟨id, s, hs', rfl, hid⟩ := h.packages _ body hbody
    have hs'' : m'.get id = some s := by
      rw [hget, Function.update_of_ne fun heq => ?_]
      · exact hs'
      · rw [heq, State.get, hnone] at hs'
        cases hs'
    exact (hfits.packages run.id id run s hrun hs'' hid).symm
  obtain ⟨db', hc⟩ := create_fits available hs hreserved
    (h.creationLaw_iff.mpr ⟨hcapacity, hinitial, hnone⟩) (hfits.runs _ _ hrun) hreceipt hpackages
  refine ⟨{ w with db := db' }, show w.write owner (fun db =>
    create hash cap db available run receipt limits) = _ from
      Worker.write_of_ok h.workerOwner hc, ?_⟩
  refine {
    memoryOwner := by rw [hm']; exact h.memoryOwner
    workerOwner := h.workerOwner
    reached := hreached
    fits := hfits
    holds := hget ▸ h.holds.created hc
    booked := h.booked.create hc
    receipts := ?_
    packages := fun packageId body hbody => ?_ }
  · rcases create_receipts hc with ⟨hne, _⟩ | ⟨_, _, rows, hrows, hreceipts⟩
    · exact absurd rfl hne
    · have htables : db'.receiptsOf = m'.receipts := by
        rw [Db.receiptsOf, hreceipts, List.map_append, (receiptRows_eq_ok hrows).1, hm']
        exact congrArg (· ++ _) hpruned
      exact congrArg (live run.createdAtMs) htables
  · rcases create_packages hc packageId body hbody with hold | ⟨rfl, hid⟩
    · obtain ⟨id, s, hs', hbody', hid⟩ := h.packages packageId body hold
      refine ⟨id, s, ?_, hbody', hid⟩
      rw [hget, Function.update_of_ne fun heq => ?_]
      · exact hs'
      · rw [heq, State.get, hnone] at hs'
        cases hs'
    · exact ⟨run.id, run, hrun, rfl, hid⟩

/-- A creation whose checks fail is refused by both stores. -/
theorem Related.refused (h : Related hash cap owner now m w)
    (hclock : now ≤ run.createdAtMs)
    (hmemory : (m.pruneReceipts run.createdAtMs).reserved run.scope receipt limits = .ok none)
    (htables : reserved cap (w.db.pruned run.createdAtMs) run.scope receipt limits = .ok none)
    (hlaw : ¬CreationLaw w.db run limits) :
    Step hash cap owner run.createdAtMs (m.create owner run receipt limits)
      (w.write owner fun db => Sqlite.create hash cap db available run receipt limits) := by
  have hlater := h.later hclock
  have hreached : SteadilyReached (m.create owner run receipt limits).1 :=
    @reached_perform _ h.reached (.create owner run receipt limits) trivial
  obtain ⟨m', a, hm⟩ : ∃ m' a, m.create owner run receipt limits = (m', a) := ⟨_, _, rfl⟩
  -- the map refuses, as neither a creation nor a duplicate is lawful
  obtain ⟨e, rfl⟩ : ∃ e, a = .error e := by
    rcases a with e | (_ | ⟨id, expiresAtMs⟩)
    · exact ⟨e, rfl⟩
    · obtain ⟨_, _, hcapacity, hinitial, hnone, _⟩ := State.create_eq_created.mp hm
      exact absurd (h.creationLaw_iff.mpr ⟨hcapacity, hinitial, hnone⟩) hlaw
    · obtain ⟨_, _, reservation, hr, old, hold, _⟩ := State.create_eq_duplicate.mp hm
      rw [(State.reserved_eq_none.mp hmemory reservation hr).1] at hold
      nomatch hold
  -- and so do the tables
  obtain ⟨e', hc⟩ : ∃ e', Sqlite.create hash cap w.db available run receipt limits =
      .error e' := by
    rcases hc : Sqlite.create hash cap w.db available run receipt limits with
      e' | ⟨db', outcome⟩
    · exact ⟨e', rfl⟩
    · exact absurd (create_checked htables hc).2 hlaw
  rw [hm] at hreached ⊢
  rw [Worker.write_of_error h.workerOwner hc]
  rcases State.create_error hm with rfl | rfl
  · exact ⟨hlater, Agree.error _ _⟩
  · exact ⟨hlater.pruned hreached, Agree.error _ _⟩

/-- Related stores answer a creation alike. -/
theorem Related.create (h : Related hash cap owner now m w) (hclock : now ≤ run.createdAtMs)
    (hs : run.createdAtMs.toNat < 2 ^ 63)
    (hfits : StateFits hash cap (m.create caller run receipt limits).1) :
    Step hash cap owner run.createdAtMs (m.create caller run receipt limits)
      ((store hash cap available).create w caller run receipt limits) := by
  have hlater := h.later hclock
  have hreached : SteadilyReached (m.create caller run receipt limits).1 :=
    @reached_perform _ h.reached (.create caller run receipt limits) trivial
  change Step hash cap owner run.createdAtMs _ (w.write caller fun db =>
    Sqlite.create hash cap db available run receipt limits)
  -- the same worker holds both stores
  by_cases hcaller : caller = owner
  · subst hcaller
    -- expired receipts are dropped first, in both
    have hpruned : (w.db.pruned run.createdAtMs).receiptsOf =
        (m.pruneReceipts run.createdAtMs).receipts := by
      rw [Db.receiptsOf_pruned]
      exact hlater.receipts
    have hagree := @reserved_agree cap (m.pruneReceipts run.createdAtMs) _ receipt limits
      (h.booked.pruned _) hpruned run.scope
    cases hres : (m.pruneReceipts run.createdAtMs).reserved run.scope receipt limits with
    -- both refuse the receipt, each keeping what is left
    | error e =>
      have hm := State.create_reserved h.memoryOwner hres
      obtain ⟨e', htables⟩ : ∃ e', reserved cap (w.db.pruned run.createdAtMs) run.scope receipt
          limits = .error e' := by
        rcases hr : reserved cap (w.db.pruned run.createdAtMs) run.scope receipt limits with
          e' | answer
        · exact ⟨e', rfl⟩
        · rw [(hagree answer).mpr hr] at hres
          nomatch hres
      rw [hm] at hreached ⊢
      rw [Worker.write_of_error h.workerOwner (create_answered (.error e') hs htables)]
      exact ⟨hlater.pruned hreached, Agree.error _ _⟩
    | ok answer =>
      have htables := (hagree answer).mp hres
      cases answer with
      -- both answer from the receipt
      | some outcome =>
        have hm := State.create_answered h.memoryOwner hres
        rw [hm] at hreached ⊢
        rw [Worker.write_of_ok h.workerOwner (create_answered (.ok outcome) hs htables)]
        exact ⟨hlater.prunedBoth hreached, Agree.ok _⟩
      | none =>
        -- the tables and the map have the same room
        by_cases hlaw : CreationLaw w.db run limits
        · obtain ⟨hcapacity, hinitial, hnone⟩ := h.creationLaw_iff.mp hlaw
          have hm := State.create_eq_created.mpr ⟨h.memoryOwner,
            State.reserved_eq_none.mp hres, hcapacity, hinitial, hnone, rfl⟩
          rw [hm] at hfits ⊢
          obtain ⟨w', hw', hrelated⟩ := h.created available hs hclock hm hfits
          rw [show w.write caller (fun db =>
            Sqlite.create hash cap db available run receipt limits) = _ from hw']
          exact ⟨hrelated, Agree.ok _⟩
        · exact h.refused hclock hres htables hlaw
  -- neither store answers a stranger
  · have hm := @State.create_foreign m caller run receipt limits
      fun hc => hcaller (Option.some.inj (hc.symm.trans h.memoryOwner))
    rw [hm, Worker.write_foreign fun hc => hcaller (Option.some.inj (hc.symm.trans h.workerOwner))]
    exact ⟨hlater, Agree.error _ _⟩

end Create

/-! ## Replacement and collection -/

section Replace

variable {hash : Value → String} {cap : Nat} {available : ArtifactRef → Except ForgeError Unit}
  {owner caller : String} {now : UInt64} {m m' : State} {w : Worker} {db' : Db}
  {expected : UInt64} {next s : RunSnapshot}

/-- A replaced run keeps the relation, when the tables hold it too. -/
theorem Related.replaced (h : Related hash cap owner now m w) {id : RunId}
    (hs : m.get id = some s) (hpackage : s.package = next.package)
    (howner : m'.owner = m.owner) (hreceipts : m'.receipts = m.receipts)
    (hreached : SteadilyReached m')
    (hget : m'.get = Function.update m.get id (some next)) (hfits : StateFits hash cap m')
    (hholds : Holds hash cap db' (Function.update m.get id (some next)))
    (htables : db'.receipts = w.db.receipts) (hpackages : db'.packages = w.db.packages) :
    Related hash cap owner now m' { w with db := db' } where
  memoryOwner := howner.trans h.memoryOwner
  workerOwner := h.workerOwner
  reached := hreached
  fits := hfits
  holds := hget ▸ hholds
  booked := h.booked.eq_receipts htables
  receipts := by
    rw [hreceipts, ← h.receipts]
    exact congrArg (live now) (Db.receiptsOf_eq htables)
  packages packageId body hbody := by
    rw [hpackages] at hbody
    obtain ⟨id', s', hs', hbody', hid⟩ := h.packages packageId body hbody
    -- the package is that of the run replaced, or of another one
    by_cases heq : id' = id
    · subst heq
      obtain rfl := Option.some.inj (hs.symm.trans hs')
      exact ⟨id', next, by rw [hget, Function.update_self], hpackage ▸ hbody', hid⟩
    · exact ⟨id', s', by rw [hget, Function.update_of_ne heq]; exact hs', hbody', hid⟩

/-- What a full commit of the memory store accepts, in whole snapshots. -/
theorem Related.commit_iff (h : Related hash cap owner now m w) :
    (∃ m', m.commit owner expected next = (m', .ok ())) ↔
      ∃ s, m.get next.id = some s ∧ SuccessorLaw .source s expected next := by
  constructor
  · rintro ⟨m', hm⟩
    obtain ⟨s, hs, law, _⟩ := State.commit_get hm
    exact ⟨s, hs, law⟩
  · rintro ⟨s, hs, law⟩
    obtain ⟨current, hcur, rfl⟩ := Option.map_eq_some_iff.mp hs
    have hlaw :=
      MemoryExecutionStore.SuccessorLaw.withPackage law (Same.refl ({} : ResolvedPackage))
    have hbare : { current.materialize with package := ({} : ResolvedPackage) } =
        current.snapshot := by
      rw [← (h.counted next.id current hcur).bare]
      rfl
    rw [hbare] at hlaw
    exact ⟨_, State.commit_eq_ok.mpr ⟨h.memoryOwner, current, hcur, law.package, hlaw, rfl⟩⟩

/-- An accepted commit changes what is found under the run, and nothing else. -/
theorem commit_update (hm : m.commit caller expected next = (m', .ok ()))
    (hs : m.get next.id = some s) :
    m'.get = Function.update m.get next.id (some { next with package := s.package }) := by
  obtain ⟨_, current, hcur, _, _, rfl⟩ := State.commit_eq_ok.mp hm
  obtain rfl : current.materialize = s := by
    rw [State.get, hcur] at hs
    exact Option.some.inj hs
  rw [get_insert next.id _ rfl, StoredRun.materialize, State.after_snapshot, State.after_package]
  rfl

/-- A commit that its check accepts is made by both stores. -/
theorem Related.committed (h : Related hash cap owner now m w)
    (available : ArtifactRef → Except ForgeError Unit)
    (hm : m.commit owner expected next = (m', .ok ()))
    (hsettled : Settled m (.commit owner expected next)) (hfits : StateFits hash cap m') :
    ∃ w', (store hash cap available).commit w owner expected next = (w', .ok ()) ∧
      Related hash cap owner now m' w' := by
  obtain ⟨s, hs, law⟩ := h.commit_iff.mp ⟨m', hm⟩
  have hreached : SteadilyReached m' := by
    have := @reached_perform _ h.reached (.commit owner expected next) hsettled
    simpa only [ExecutionStore.perform, MemoryExecutionStore.store, hm] using this
  have hget := commit_update hm hs
  have hnext : m'.get next.id = some { next with package := s.package } := by
    rw [hget, Function.update_self]
  obtain ⟨howner, hreceipts⟩ := @State.commit_state m owner expected next
  rw [hm] at howner hreceipts
  -- the tables accept the replacement too, as it fits
  obtain ⟨db', hc⟩ := commit_fits available (h.represents hs) (h.fits.runs _ s hs).lossless law
    (hfits.runs _ _ hnext)
  have hw : (commit hash cap w.db available expected next).map (·, ()) = .ok (db', ()) := by
    rw [hc]
    rfl
  refine ⟨{ w with db := db' }, show w.write owner (fun db =>
    (commit hash cap db available expected next).map (·, ())) = _ from
      Worker.write_of_ok h.workerOwner hw, ?_⟩
  have hpackage : s.package = RunSnapshot.package { next with package := s.package } := rfl
  refine h.replaced hs hpackage howner hreceipts hreached hget hfits
    (h.holds.committed hc hs (hsettled s hs).1) (commit_receipts hc) ?_
  obtain ⟨_, _, _, _, _, _, _, _, _, rfl⟩ := commit_eq_ok hc
  rfl

/-- Related stores answer a commit alike. -/
theorem Related.commit (h : Related hash cap owner now m w)
    (hsettled : Settled m (.commit caller expected next))
    (hfits : StateFits hash cap (m.commit caller expected next).1) :
    Step hash cap owner now (m.commit caller expected next)
      ((store hash cap available).commit w caller expected next) := by
  obtain ⟨m', a, hm⟩ : ∃ m' a, m.commit caller expected next = (m', a) := ⟨_, _, rfl⟩
  rw [hm] at hfits ⊢
  cases a with
  | ok u =>
    obtain rfl := Option.some.inj ((State.commit_eq_ok.mp hm).1.symm.trans h.memoryOwner)
    obtain ⟨w', hw, hrelated⟩ := h.committed available hm hsettled hfits
    rw [hw]
    exact ⟨hrelated, Agree.ok _⟩
  | error e =>
    obtain rfl : m' = m := (State.commit_wrote hm).elim And.right fun hc => nomatch hc.1
    change Step hash cap owner now _ (w.write caller fun db =>
      (Sqlite.commit hash cap db available expected next).map (·, ()))
    refine h.refusedWrite fun db' u hc => ?_
    -- what the tables accept the memory store accepts
    obtain ⟨db'', hc, _⟩ := map_eq_ok.mp hc
    obtain ⟨s, _, _, _, hcurrent, _, law, _⟩ := commit_eq_ok hc
    rw [h.run_eq] at hcurrent
    intro hcaller
    obtain ⟨m'', hm''⟩ := h.commit_iff.mpr ⟨s, Except.ok.inj hcurrent, law⟩
    rw [← hcaller, hm] at hm''
    nomatch (Prod.mk.inj hm'').2

variable {id : RunId} {node : String} {record : InvocationRecord} {view : ExecutionView}

/-- What a narrow commit of the memory store accepts, in whole snapshots. -/
theorem Related.commitInvocation_iff (h : Related hash cap owner now m w) :
    (∃ m' view, m.commitInvocation owner id expected node record = (m', .ok view)) ↔
      ∃ s, m.get id = some s ∧ s.revision = expected ∧
        s.NarrowReplacement .source node record ∧
        ∃ revision, checkedAdd expected 1 = some revision := by
  constructor
  · rintro ⟨m', view, hm⟩
    obtain ⟨_, current, revision, hcur, hbase, hn, hrevision, _⟩ :=
      State.commitInvocation_eq_ok.mp hm
    exact ⟨current.materialize, by rw [State.get, hcur]; rfl, hbase,
      ⟨hn.notWait, hn.oldNotWait, hn.live, hn.succeeded⟩, revision, hrevision⟩
  · rintro ⟨s, hs, hbase, hn, revision, hrevision⟩
    obtain ⟨current, hcur, rfl⟩ := Option.map_eq_some_iff.mp hs
    exact ⟨_, _, State.commitInvocation_eq_ok.mpr ⟨h.memoryOwner, current, revision, hcur, hbase,
      ⟨hn.notWait, hn.oldNotWait, hn.live, hn.succeeded⟩, hrevision, rfl, rfl⟩⟩

/-- A narrow commit that its check accepts is made by both stores, with the same view. -/
theorem Related.narrowed (h : Related hash cap owner now m w)
    (available : ArtifactRef → Except ForgeError Unit)
    (hm : m.commitInvocation owner id expected node record = (m', .ok view))
    (hfits : StateFits hash cap m') :
    ∃ w', (store hash cap available).commitInvocation w owner id expected node record =
        (w', .ok view) ∧ Related hash cap owner now m' w' := by
  have hreached : SteadilyReached m' := by
    have := @reached_perform _ h.reached (.commitInvocation owner id expected node record) trivial
    simpa only [ExecutionStore.perform, MemoryExecutionStore.store, hm] using this
  obtain ⟨howner, hreceipts⟩ := @State.commitInvocation_state m owner id expected node record
  rw [hm] at howner hreceipts
  obtain ⟨_, current, revision, hcur, hbase, hn, hrevision, hview, hm'⟩ :=
    State.commitInvocation_eq_ok.mp hm
  have hs : m.get id = some current.materialize := by rw [State.get, hcur]; rfl
  -- one record of one run is replaced
  have hget : m'.get = Function.update m.get id
      (some (current.materialize.insertRecord node record revision)) := by
    rw [hm']
    exact get_insert id _ rfl
  have hnext : m'.get id = some (current.materialize.insertRecord node record revision) := by
    rw [hget, Function.update_self]
  have hview' : view = (current.materialize.insertRecord node record revision).view (some node) :=
    hview.trans (((h.counted id current hcur).replaceRecord hn).view (some node))
  have hn' : current.materialize.NarrowReplacement .source node record :=
    ⟨hn.notWait, hn.oldNotWait, hn.live, hn.succeeded⟩
  -- the tables accept the record too, as the new snapshot fits
  obtain ⟨db', hc⟩ := commitNode_fits h.holds hs (h.fits.runs _ _ hs).lossless hbase hn'
    hrevision (hfits.runs _ _ hnext)
  rw [← hview'] at hc
  refine ⟨{ w with db := db' }, show w.write owner (fun db =>
    commitNode cap db id expected node record) = _ from
      Worker.write_of_ok h.workerOwner hc, ?_⟩
  have hpackage : current.materialize.package =
      (current.materialize.insertRecord node record revision).package := rfl
  refine h.replaced hs hpackage howner hreceipts hreached hget hfits
    (h.holds.narrowed hc hs hrevision) (commitNode_receipts hc) ?_
  obtain ⟨_, _, _, _, _, _, _, _, _, _, _, rfl⟩ := commitNode_eq_ok hc
  rfl

/-- Related stores answer the replacement of one record alike. -/
theorem Related.commitInvocation (h : Related hash cap owner now m w)
    (hfits : StateFits hash cap (m.commitInvocation caller id expected node record).1) :
    Step hash cap owner now (m.commitInvocation caller id expected node record)
      ((store hash cap available).commitInvocation w caller id expected node record) := by
  obtain ⟨m', a, hm⟩ : ∃ m' a, m.commitInvocation caller id expected node record = (m', a) :=
    ⟨_, _, rfl⟩
  rw [hm] at hfits ⊢
  cases a with
  | ok view =>
    obtain rfl := Option.some.inj
      ((State.commitInvocation_eq_ok.mp hm).1.symm.trans h.memoryOwner)
    obtain ⟨w', hw, hrelated⟩ := h.narrowed available hm hfits
    rw [hw]
    exact ⟨hrelated, Agree.ok _⟩
  | error e =>
    obtain rfl : m' = m := by
      rcases State.commitInvocation_wrote hm with ⟨_, hsame⟩ | ⟨⟨_, hok⟩, _⟩
      · exact hsame
      · nomatch hok
    change Step hash cap owner now _ (w.write caller fun db =>
      commitNode cap db id expected node record)
    refine h.refusedWrite fun db' view hc => ?_
    -- what the tables accept the memory store accepts
    obtain ⟨head, _, _, _, _, hhead, _⟩ := commitNode_eq_ok hc
    rw [h.head_eq] at hhead
    obtain ⟨s, hs, _⟩ := Option.map_eq_some_iff.mp (Except.ok.inj hhead)
    obtain ⟨hbase, hn, hrevision⟩ :=
      commitNode_checked (h.represents hs) (h.fits.runs _ _ hs).lossless hc
    intro hcaller
    obtain ⟨m'', view', hm''⟩ := h.commitInvocation_iff.mpr ⟨s, hs, hbase, hn, hrevision⟩
    rw [← hcaller, hm] at hm''
    nomatch (Prod.mk.inj hm'').2

/-! A collection removes the same runs from both stores. -/

/-- The tables without some runs, and without the packages that only they name. -/
def Db.without (db : Db) (ids : List RunId) : Db :=
  { deleteRuns db ids with
    packages := (deleteRuns db ids).packages.filter fun packageId _ =>
      (BTreeMap.valueList (deleteRuns db ids).runs).any fun row => row.packageId = packageId }

/-- A collection prunes the receipts and removes the expired runs, at a time that fits a column. -/
theorem collect_eq {db : Db} {time : UInt64} {limits : Limits} (h : time.toNat < 2 ^ 63) :
    collect db time limits =
      .ok ((db.pruned time).without (expired (db.pruned time) time limits)) := by
  unfold collect
  rw [storable_time h]
  rfl

/-- The runs that are removed are gone, and the others stay. -/
theorem Db.without_runs (db : Db) (ids : List RunId) (id : RunId) :
    (db.without ids).runs[id]? = if id ∈ ids then none else db.runs[id]? :=
  MemoryExecutionStore.foldl_erase_get ids db.runs id

/-- Their records are gone with them. -/
theorem Db.without_rowsOf (db : Db) (ids : List RunId) (id : RunId) :
    (db.without ids).rowsOf id = if id ∈ ids then ∅ else db.rowsOf id := by
  have h := MemoryExecutionStore.foldl_erase_get ids db.invocations id
  simp only [rowsOf, without, deleteRuns, h]
  split <;> rfl

/-- A package stays exactly while a row that is left names it. -/
theorem Db.without_packages {db : Db} {ids : List RunId} {packageId : String} {body : Value} :
    (db.without ids).packages[packageId]? = some body ↔
      db.packages[packageId]? = some body ∧
        ∃ (id : RunId) (row : RunRow), (db.without ids).runs[id]? = some row ∧
          row.packageId = packageId := by
  simp only [without, deleteRuns, Std.ExtTreeMap.getElem?_filter', Option.filter_eq_some_iff,
    List.any_eq_true, decide_eq_true_eq, BTreeMap.mem_valueList]
  constructor
  · rintro ⟨hbody, row, ⟨id, hrow⟩, hname⟩
    exact ⟨hbody, id, row, hrow, hname⟩
  · rintro ⟨hbody, id, row, hrow, hname⟩
    exact ⟨hbody, row, ⟨id, hrow⟩, hname⟩

/-- What is left is represented as before. -/
theorem Holds.without {content : RunId → Option RunSnapshot} {db : Db} (ids : List RunId)
    (h : Holds hash cap db content) :
    Holds hash cap (db.without ids) fun id => if id ∈ ids then none else content id where
  represents id s hs := by
    split at hs
    · nomatch hs
    -- a run that is left keeps its row, its records and its package
    next hid =>
      have hrep := h.represents id s hs
      obtain ⟨row, hrow, hheader, body, hbody, hhash, hencode⟩ := hrep.header
      have hrow' : (db.without ids).runs[id]? = some row := by
        rw [Db.without_runs, if_neg hid]
        exact hrow
      have hrows : (db.without ids).rowsOf id = db.rowsOf id := by
        rw [Db.without_rowsOf, if_neg hid]
      exact ⟨hrep.named, hrep.format,
        ⟨row, hrow', hheader, body, Db.without_packages.mpr ⟨hbody, id, row, hrow', rfl⟩, hhash,
          hencode⟩,
        fun path r hr => hrows ▸ hrep.records path r hr, fun path hr => hrows ▸ hrep.others path hr⟩
  absent id hs := by
    rw [Db.without_runs, Db.without_rowsOf]
    split at hs
    next hid => rw [if_pos hid, if_pos hid]; exact ⟨rfl, rfl⟩
    next hid => rw [if_neg hid, if_neg hid]; exact h.absent id hs

/-- What a collection leaves in the memory store. -/
theorem collect_update {time : UInt64} {limits : Limits} (h : m.owner = some owner) :
    (m.collect owner time limits).1.get =
        (fun id => if id ∈ m.expired time limits then none else m.get id) ∧
      (m.collect owner time limits).1.receipts = live time m.receipts := by
  have hruns := fun id => MemoryExecutionStore.foldl_erase_get (m.expired time limits) m.runs id
  simp only [State.collect, State.authorize_eq_ok.mpr h]
  refine ⟨?_, rfl⟩
  funext id
  change Option.map _ (List.foldl (fun runs id => Std.ExtTreeMap.erase runs id) m.runs
    (m.expired time limits))[id]? = _
  rw [hruns]
  split <;> rfl

/-- The rows of packages that a collection leaves are named by a run it leaves. -/
theorem Related.without_packages (h : Related hash cap owner now m w) {ids : List RunId}
    {packageId : String} {body : Value}
    (hbody : (w.db.without ids).packages[packageId]? = some body) :
    ∃ id s, id ∉ ids ∧ m.get id = some s ∧ body = packageBody s.package ∧
      packageId = hash body := by
  obtain ⟨hbody, id, row, hrow, rfl⟩ := Db.without_packages.mp hbody
  rw [Db.without_runs] at hrow
  split at hrow
  · nomatch hrow
  next hid =>
    cases hs : m.get id with
    | none =>
      rw [(h.holds.absent id hs).1] at hrow
      nomatch hrow
    | some s =>
      obtain ⟨row', hrow', _, body', hbody', hhash, hencode⟩ := (h.represents hs).header
      obtain rfl := Option.some.inj (hrow.symm.trans hrow')
      obtain rfl := Option.some.inj (hbody.symm.trans hbody')
      exact ⟨id, s, hid, hs, (encode_eq_ok.mp hencode).1, hhash.symm⟩

/-- Related stores collect alike. -/
theorem Related.collect (h : Related hash cap owner now m w) {time : UInt64} {limits : Limits}
    (hclock : now ≤ time) (hs : time.toNat < 2 ^ 63)
    (hfits : StateFits hash cap (m.collect caller time limits).1) :
    Step hash cap owner time (m.collect caller time limits)
      ((store hash cap available).collect w caller time limits) := by
  have hreached : SteadilyReached (m.collect caller time limits).1 :=
    @reached_perform _ h.reached (.collect caller time limits) trivial
  have hlater := h.later hclock
  change Step hash cap owner time _ (w.write caller fun db =>
    (Sqlite.collect db time limits).map (·, ()))
  by_cases hcaller : caller = owner
  · subst hcaller
    have hm : m.collect caller time limits = ((m.collect caller time limits).1, .ok ()) :=
      State.collect_eq_ok.mpr ⟨h.memoryOwner, rfl⟩
    -- the same runs have expired
    have hids : expired (w.db.pruned time) time limits = m.expired time limits :=
      h.expired_eq time limits
    have hw : (Sqlite.collect w.db time limits).map (·, ()) =
        .ok ((w.db.pruned time).without (m.expired time limits), ()) := by
      rw [collect_eq hs, hids]
      rfl
    obtain ⟨hget, hreceipts⟩ := @collect_update caller m time limits h.memoryOwner
    rw [hm, Worker.write_of_ok h.workerOwner hw]
    -- what is left is related as before
    refine ⟨?_, Agree.ok _⟩
    exact {
      memoryOwner := (@State.collect_state m caller limits time).1.trans h.memoryOwner
      workerOwner := h.workerOwner
      reached := hreached
      fits := hfits
      holds := by
        rw [hget]
        have hpruned : Holds hash cap (w.db.pruned time) m.get :=
          ⟨fun id s hs => (h.represents hs).frame rfl rfl fun _ _ hb => hb, h.holds.absent⟩
        exact hpruned.without (m.expired time limits)
      booked := (h.booked.pruned time).eq_receipts rfl
      receipts := by
        rw [hreceipts, ← hlater.receipts]
        exact congrArg (live time) (Db.receiptsOf_pruned w.db time)
      packages := fun packageId body hbody => by
        obtain ⟨id, s, hid, hs, hbody, hname⟩ :=
          @Related.without_packages hash cap caller now m w h (m.expired time limits) packageId
            body hbody
        exact ⟨id, s, by rw [hget]; exact (if_neg hid).trans hs, hbody, hname⟩ }
  -- neither store answers a stranger
  · have hm : m.collect caller time limits =
        (m, .error (.new "state.conflict" "Store is owned by a different runtime")) := by
      have hne : m.owner ≠ some caller := fun hc =>
        hcaller (Option.some.inj (hc.symm.trans h.memoryOwner))
      simp [State.collect, State.authorize, hne]
    rw [hm, Worker.write_foreign fun hc =>
      hcaller (Option.some.inj (hc.symm.trans h.workerOwner))]
    exact ⟨hlater, Agree.error _ _⟩

end Replace

end WorkflowForge.Sqlite
