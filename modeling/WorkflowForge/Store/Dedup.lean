import WorkflowForge.Engine.Start
import WorkflowForge.Store.Reference

/-!
# Start Deduplication

A receipt reserves a key for one start request until it expires. Receipts outlive the runs
they name: only the clock removes them. The law is stated for any store, over every sequence
of calls whose clock does not go back, and proved of both stores. Requests are equal as the
source compares documents.

## Main results

- `Reserves.deduplicates`: what a provider does in one call makes the law hold over every
  sequence of calls.
- `MemoryExecutionStore.reserves`: what a call of the memory store does.
-/

namespace WorkflowForge

open Lib

/-! ## Receipts and their windows -/

/-- The receipt reserves this key of this scope. -/
def MemoryExecutionStore.Receipt.Names (r : MemoryExecutionStore.Receipt) (scope key : String) :
    Prop :=
  r.scope = scope ∧ r.reservation.key = key

namespace ExecutionStore

open MemoryExecutionStore (Receipt)

/-- The receipt an answered call was granted. -/
def grant : Call → Except ForgeError Answer → Option Receipt
  | .create _ run receipt _, .ok (.created .created) => receipt.map (⟨run.scope, run.id, ·⟩)
  | _, _ => none

variable {S : Type} (store : ExecutionStore S)

/-- Calls by a clock that does not go back, with the receipts they were granted. -/
inductive Timeline (s₀ : S) : S → UInt64 → List Receipt → Prop where
  | start : Timeline s₀ s₀ 0 []
  | call {s : S} {now : UInt64} {grants : List Receipt} (call : Call) :
      Timeline s₀ s now grants → (∀ t ∈ call.time, now ≤ t) →
      Timeline s₀ (store.perform s call).1 (call.time.getD now)
        ((grant call (store.perform s call).2).toList ++ grants)

/-! ## The law -/

/-- A request under the key of a receipt, made in its window. -/
structure Repeats (r : Receipt) (now : UInt64) (run : RunSnapshot)
    (reservation : ReceiptReservation) : Prop where
  named : r.Names run.scope reservation.key
  later : now ≤ run.createdAtMs
  inWindow : run.createdAtMs < r.reservation.expiresAtMs

/-- A start under the key of a receipt, made in its window and past its own checks. -/
structure RepeatsStart (r : Receipt) (now : UInt64) (c : Engine.Composition) (owner : String)
    (phase : Engine.Phase) (access : Engine.AccessContext) (request : Engine.StartRunRequest)
    (artifacts : List ArtifactRef) (time : UInt64) (id : RunId) : Prop where
  checked : Engine.checkStart c owner phase access request = .ok artifacts
  budget : (Engine.acceptedRun c.limits access request artifacts time id).retainedDataBytes ≤
    c.limits.runBytes
  scope : r.scope = access.scope
  key : request.options.receiptKey = some r.reservation.key
  later : now ≤ time
  inWindow : time < r.reservation.expiresAtMs

/-- A start goes on with a timeline: it is a collection and then a creation, and the receipt
it reports is granted. -/
structure Continues (s₀ s : S) (grants : List Receipt) (c : Engine.Composition) (owner : String)
    (phase : Engine.Phase) (access : Engine.AccessContext) (request : Engine.StartRunRequest)
    (time : UInt64) (id : RunId) (now : UInt64) (granted : List Receipt) : Prop where
  clock : now ≤ time
  timeline : store.Timeline s₀ (Engine.start store c owner phase access request time id s).1 now
    (granted ++ grants)
  grant : ∀ receipt, (Engine.start store c owner phase access request time id s).2 = .ok receipt →
    receipt.duplicate = false → ∀ key ∈ request.options.receiptKey,
      ∃ r ∈ granted, r.Names access.scope key ∧ r.runId = receipt.runId

/-- Starts are deduplicated, from the state `s₀` on, for the runtime that owns the store.
`receipts` are the receipts a state keeps and `held` the runs it keeps. -/
structure Deduplicates (owner : String) (receipts : S → List Receipt) (held : S → RunId → Prop)
    (s₀ : S) : Prop where
  /-- Starts are among the calls of a timeline. -/
  starts : ∀ s now grants, store.Timeline s₀ s now grants →
    ∀ c phase access request time id, now ≤ time →
      ∃ now' granted, store.Continues s₀ s grants c owner phase access request time id now' granted
  /-- A granted receipt stays while it is in its window. -/
  kept : ∀ s now grants, store.Timeline s₀ s now grants → ∀ r ∈ grants,
    now < r.reservation.expiresAtMs → r ∈ receipts s
  /-- An equal request gets the run of the receipt, whatever became of the run. -/
  equal : ∀ s now grants, store.Timeline s₀ s now grants → ∀ r ∈ grants,
    ∀ run reservation limits, Repeats r now run reservation →
      Same .source reservation.request r.reservation.request →
      (store.create s owner run (some reservation) limits).2 =
        .ok (.duplicate r.runId r.reservation.expiresAtMs)
  /-- A different request is a conflict. -/
  different : ∀ s now grants, store.Timeline s₀ s now grants → ∀ r ∈ grants,
    ∀ run reservation limits, Repeats r now run reservation →
      ¬ Same .source reservation.request r.reservation.request →
      ∃ e, (store.create s owner run (some reservation) limits).2 = .error e ∧
        e.code = "state.conflict"
  /-- No caller creates a run under a reserved key. -/
  single : ∀ s now grants, store.Timeline s₀ s now grants → ∀ r ∈ grants,
    ∀ caller run reservation limits, Repeats r now run reservation →
      (store.create s caller run (some reservation) limits).2 ≠ .ok .created
  /-- A start is answered by the same rules. -/
  startEqual : ∀ s now grants, store.Timeline s₀ s now grants → ∀ r ∈ grants,
    ∀ c phase access request artifacts time id,
      RepeatsStart r now c owner phase access request artifacts time id →
      Same .source (Engine.requestValue c.limits access request artifacts)
        r.reservation.request →
      (Engine.start store c owner phase access request time id s).2 =
        .ok ⟨r.runId, c.durable, true, some r.reservation.expiresAtMs⟩
  startDifferent : ∀ s now grants, store.Timeline s₀ s now grants → ∀ r ∈ grants,
    ∀ c phase access request artifacts time id,
      RepeatsStart r now c owner phase access request artifacts time id →
      ¬ Same .source (Engine.requestValue c.limits access request artifacts)
        r.reservation.request →
      ∃ e, (Engine.start store c owner phase access request time id s).2 = .error e ∧
        e.code = "state.conflict"
  /-- A full table refuses a new key, and keeps every receipt in its window. -/
  full : ∀ s now grants, store.Timeline s₀ s now grants →
    ∀ caller run reservation limits, now ≤ run.createdAtMs →
      (∀ r ∈ receipts s, r.Names run.scope reservation.key →
        ¬run.createdAtMs < r.reservation.expiresAtMs) →
      limits.receiptCount ≤
        ((receipts s).filter fun r => run.createdAtMs < r.reservation.expiresAtMs).length →
      (∃ e, (store.create s caller run (some reservation) limits).2 = .error e) ∧
        ∀ r ∈ receipts s, run.createdAtMs < r.reservation.expiresAtMs →
          r ∈ receipts (store.create s caller run (some reservation) limits).1
  /-- A failing creation leaves no run and no receipt behind. -/
  refused : ∀ s now grants, store.Timeline s₀ s now grants →
    ∀ caller run receipt limits e, (store.create s caller run receipt limits).2 = .error e →
      (∀ id, held (store.create s caller run receipt limits).1 id ↔ held s id) ∧
        ∀ r ∈ receipts (store.create s caller run receipt limits).1, r ∈ receipts s

/-! ## What a provider does in one call -/

/-- The calls of a provider, as far as receipts go. -/
structure Reserves (owner : String) (receipts : S → List Receipt) (held : S → RunId → Prop)
    (valid : S → Prop) : Prop where
  step : ∀ s call, valid s → valid (store.perform s call).1
  kept : ∀ s call, valid s → ∀ r ∈ receipts s,
    (∀ t ∈ call.time, t < r.reservation.expiresAtMs) → r ∈ receipts (store.perform s call).1
  granted : ∀ s call r, valid s → grant call (store.perform s call).2 = some r →
    r ∈ receipts (store.perform s call).1
  collects : ∀ s now limits, valid s → ∀ r ∈ receipts s, now < r.reservation.expiresAtMs →
    (store.collect s owner now limits).2 = .ok ()
  equal : ∀ s, valid s → ∀ r ∈ receipts s, ∀ run reservation limits,
    r.Names run.scope reservation.key → run.createdAtMs < r.reservation.expiresAtMs →
    Same .source reservation.request r.reservation.request →
    (store.create s owner run (some reservation) limits).2 =
      .ok (.duplicate r.runId r.reservation.expiresAtMs)
  different : ∀ s, valid s → ∀ r ∈ receipts s, ∀ run reservation limits,
    r.Names run.scope reservation.key → run.createdAtMs < r.reservation.expiresAtMs →
    ¬ Same .source reservation.request r.reservation.request →
    ∃ e, (store.create s owner run (some reservation) limits).2 = .error e ∧
      e.code = "state.conflict"
  owned : ∀ s, valid s → ∀ caller run receipt limits outcome,
    (store.create s caller run receipt limits).2 = .ok outcome → caller = owner
  full : ∀ s, valid s → ∀ caller run reservation limits,
    (∀ r ∈ receipts s, r.Names run.scope reservation.key →
      ¬run.createdAtMs < r.reservation.expiresAtMs) →
    limits.receiptCount ≤
      ((receipts s).filter fun r => run.createdAtMs < r.reservation.expiresAtMs).length →
    ∃ e, (store.create s caller run (some reservation) limits).2 = .error e
  refused : ∀ s, valid s → ∀ caller run receipt limits e,
    (store.create s caller run receipt limits).2 = .error e →
    (∀ id, held (store.create s caller run receipt limits).1 id ↔ held s id) ∧
      ∀ r ∈ receipts (store.create s caller run receipt limits).1, r ∈ receipts s

/-! ## From one call to every sequence -/

section Law

variable {store} {owner : String} {receipts : S → List Receipt} {held : S → RunId → Prop}
  {valid : S → Prop} {s₀ s : S} {now : UInt64} {grants : List Receipt}

/-- Along a timeline a granted receipt stays while it is in its window. -/
theorem Reserves.timeline (h : Reserves store owner receipts held valid) (h₀ : valid s₀)
    (ht : store.Timeline s₀ s now grants) :
    valid s ∧ ∀ r ∈ grants, now < r.reservation.expiresAtMs → r ∈ receipts s := by
  induction ht with
  | start => exact ⟨h₀, by simp⟩
  | @call s now grants call _ hclock ih =>
    obtain ⟨hvalid, hkept⟩ := ih
    refine ⟨h.step s call hvalid, fun r hr hlive => ?_⟩
    rcases List.mem_append.mp hr with hr | hr
    · exact h.granted s call r hvalid (Option.mem_toList.mp hr)
    · have htime : ∀ t ∈ call.time, t < r.reservation.expiresAtMs := by
        intro t hmem
        rw [Option.mem_def.mp hmem] at hlive
        exact hlive
      have hnow : now < r.reservation.expiresAtMs := by
        cases hc : call.time with
        | none => simpa [hc] using hlive
        | some t => exact UInt64.lt_of_le_of_lt (hclock t hc) (htime t hc)
      exact h.kept s call hvalid r (hkept r hr hnow) htime

/-- The collection of a start keeps the receipts that are in their window. -/
theorem Reserves.collected (h : Reserves store owner receipts held valid) (hs : valid s)
    {r : Receipt} (hr : r ∈ receipts s) {time : UInt64} {limits : Limits}
    (hwindow : time < r.reservation.expiresAtMs) :
    ∃ s', store.collect s owner time limits = (s', .ok ()) ∧ valid s' ∧ r ∈ receipts s' := by
  refine ⟨(store.collect s owner time limits).1, ?_, ?_, ?_⟩
  · rw [← h.collects s time limits hs r hr hwindow]
  · exact h.step s (.collect owner time limits) hs
  · exact h.kept s (.collect owner time limits) hs r hr fun t ht => by
      obtain rfl := Option.some.inj ht
      exact hwindow

/-- A start past its own checks is the creation that follows its collection. -/
theorem start_create {c : Engine.Composition} {phase : Engine.Phase}
    {access : Engine.AccessContext} {request : Engine.StartRunRequest}
    {artifacts : List ArtifactRef} {time : UInt64} {id : RunId} {r : Receipt} {s' : S}
    (h : RepeatsStart r now c owner phase access request artifacts time id)
    (hc : store.collect s owner time c.limits = (s', .ok ())) :
    ∃ run reservation, Repeats r now run reservation ∧
      reservation.request = Engine.requestValue c.limits access request artifacts ∧
      (Engine.start store c owner phase access request time id s).2 =
        (store.create s' owner run (some reservation) c.limits).2.map
          (Engine.startReceipt c id (some reservation)) := by
  refine ⟨Engine.acceptedRun c.limits access request artifacts time id,
    ⟨r.reservation.key, Engine.requestValue c.limits access request artifacts,
      saturatingAdd time c.limits.receiptTtlMs⟩,
    ⟨⟨h.scope, rfl⟩, h.later, h.inWindow⟩, rfl, ?_⟩
  have hres : Engine.reservation c.limits access request artifacts time =
      some ⟨r.reservation.key, Engine.requestValue c.limits access request artifacts,
        saturatingAdd time c.limits.receiptTtlMs⟩ := by
    rw [Engine.reservation, h.key]
    rfl
  simp only [Engine.start, h.checked, hc, Engine.createRun, hres]
  rw [if_neg (Nat.not_lt.mpr h.budget)]

/-- A start that is answered with a run of its own was granted the receipt it asked for. -/
theorem granted_start {c : Engine.Composition} {access : Engine.AccessContext}
    {request : Engine.StartRunRequest} {artifacts : List ArtifactRef} {time : UInt64} {id : RunId}
    (outcome : Except ForgeError CreateOutcome) (receipt : Engine.StartReceipt)
    (h : outcome.map (Engine.startReceipt c id
      (Engine.reservation c.limits access request artifacts time)) = .ok receipt)
    (hnew : receipt.duplicate = false) (key : String) (hkey : key ∈ request.options.receiptKey) :
    ∃ r ∈ (grant (.create owner (Engine.acceptedRun c.limits access request artifacts time id)
      (Engine.reservation c.limits access request artifacts time) c.limits)
        (outcome.map .created)).toList, r.Names access.scope key ∧ r.runId = receipt.runId := by
  obtain ⟨outcome, rfl, rfl⟩ := map_eq_ok.mp h
  cases outcome with
  | duplicate runId expiresAtMs => nomatch hnew
  | created =>
    refine ⟨⟨access.scope, id, key, Engine.requestValue c.limits access request artifacts,
      saturatingAdd time c.limits.receiptTtlMs⟩, ?_, ⟨rfl, rfl⟩, rfl⟩
    simp [grant, Except.map, Engine.reservation, Option.mem_def.mp hkey, Engine.acceptedRun]

/-- A start goes on with the timeline before it. -/
theorem Timeline.continues (ht : store.Timeline s₀ s now grants) (c : Engine.Composition)
    (phase : Engine.Phase) (access : Engine.AccessContext) (request : Engine.StartRunRequest)
    (time : UInt64) (id : RunId) (hclock : now ≤ time) :
    ∃ now' granted,
      store.Continues s₀ s grants c owner phase access request time id now' granted := by
  cases hchecked : Engine.checkStart c owner phase access request with
  -- a start that its checks refuse reaches no store
  | error e =>
    refine ⟨now, [], hclock, ?_, ?_⟩ <;> simp only [Engine.start, hchecked]
    · exact ht
    · exact nofun
  | ok artifacts =>
    have hcollected := ht.call (.collect owner time c.limits) fun t hmem => by
      obtain rfl := Option.some.inj hmem
      exact hclock
    obtain ⟨s', answer, hc⟩ : ∃ s' answer, store.collect s owner time c.limits = (s', answer) :=
      ⟨_, _, rfl⟩
    simp only [perform, hc] at hcollected
    -- the clean-up at the time of the start is one more call
    cases answer with
    | error e =>
      refine ⟨time, [], UInt64.le_refl _, ?_, ?_⟩ <;> simp only [Engine.start, hchecked, hc]
      · exact hcollected
      · exact nofun
    | ok u =>
      by_cases hbudget :
          (Engine.acceptedRun c.limits access request artifacts time id).retainedDataBytes
            > c.limits.runBytes
      -- over its byte budget: refused after the clean-up, and nothing is created
      · refine ⟨time, [], UInt64.le_refl _, ?_, ?_⟩ <;>
          simp only [Engine.start, hchecked, hc, Engine.createRun, if_pos hbudget]
        · exact hcollected
        · exact nofun
      · have hcreated := hcollected.call (.create owner
          (Engine.acceptedRun c.limits access request artifacts time id)
          (Engine.reservation c.limits access request artifacts time) c.limits) fun t hmem => by
            obtain rfl := Option.some.inj hmem
            exact UInt64.le_refl _
        obtain ⟨s'', outcome, hcr⟩ : ∃ s'' outcome, store.create s' owner
          (Engine.acceptedRun c.limits access request artifacts time id)
          (Engine.reservation c.limits access request artifacts time) c.limits =
            (s'', outcome) := ⟨_, _, rfl⟩
        simp only [perform, hcr] at hcreated
        refine ⟨time, (grant (.create owner
          (Engine.acceptedRun c.limits access request artifacts time id)
          (Engine.reservation c.limits access request artifacts time) c.limits)
          (outcome.map .created)).toList, UInt64.le_refl _, ?_, ?_⟩ <;>
          simp only [Engine.start, hchecked, hc, Engine.createRun, if_neg hbudget, hcr]
        · exact hcreated
        · exact granted_start outcome

/-- What a provider does in one call makes the law hold over every sequence of calls. -/
theorem Reserves.deduplicates (h : Reserves store owner receipts held valid) (h₀ : valid s₀) :
    Deduplicates store owner receipts held s₀ where
  starts s now grants ht := ht.continues
  kept s now grants ht := (h.timeline h₀ ht).2
  equal s now grants ht r hr run reservation limits hrep heq := by
    obtain ⟨hs, hkept⟩ := h.timeline h₀ ht
    have hmem := hkept r hr (UInt64.lt_of_le_of_lt hrep.later hrep.inWindow)
    exact h.equal s hs r hmem run reservation limits hrep.named hrep.inWindow heq
  different s now grants ht r hr run reservation limits hrep hne := by
    obtain ⟨hs, hkept⟩ := h.timeline h₀ ht
    have hmem := hkept r hr (UInt64.lt_of_le_of_lt hrep.later hrep.inWindow)
    exact h.different s hs r hmem run reservation limits hrep.named hrep.inWindow hne
  single s now grants ht r hr caller run reservation limits hrep hcreated := by
    obtain ⟨hs, hkept⟩ := h.timeline h₀ ht
    have hmem := hkept r hr (UInt64.lt_of_le_of_lt hrep.later hrep.inWindow)
    -- a grant of its own would be a duplicate or a conflict
    obtain rfl := h.owned s hs caller run (some reservation) limits _ hcreated
    by_cases heq : Same .source reservation.request r.reservation.request
    · have := h.equal s hs r hmem run reservation limits hrep.named hrep.inWindow heq
      rw [hcreated] at this
      nomatch this
    · obtain ⟨e, he, _⟩ :=
        h.different s hs r hmem run reservation limits hrep.named hrep.inWindow heq
      rw [hcreated] at he
      nomatch he
  startEqual s now grants ht r hr c phase access request artifacts time id hrep heq := by
    obtain ⟨hs, hkept⟩ := h.timeline h₀ ht
    have hmem := hkept r hr (UInt64.lt_of_le_of_lt hrep.later hrep.inWindow)
    -- the receipt outlasts the clean-up that comes with the start
    obtain ⟨s', hc, hs', hmem'⟩ := @Reserves.collected _ _ _ _ _ _ s h hs r hmem time c.limits
      hrep.inWindow
    obtain ⟨run, reservation, hrep', hreq, hstart⟩ := start_create hrep hc
    rw [hstart, h.equal s' hs' r hmem' run reservation c.limits hrep'.named hrep'.inWindow
      (hreq ▸ heq)]
    rfl
  startDifferent s now grants ht r hr c phase access request artifacts time id hrep hne := by
    obtain ⟨hs, hkept⟩ := h.timeline h₀ ht
    have hmem := hkept r hr (UInt64.lt_of_le_of_lt hrep.later hrep.inWindow)
    obtain ⟨s', hc, hs', hmem'⟩ := @Reserves.collected _ _ _ _ _ _ s h hs r hmem time c.limits
      hrep.inWindow
    obtain ⟨run, reservation, hrep', hreq, hstart⟩ := start_create hrep hc
    obtain ⟨e, he, hcode⟩ := h.different s' hs' r hmem' run reservation c.limits hrep'.named
      hrep'.inWindow (hreq ▸ hne)
    exact ⟨e, by rw [hstart, he]; rfl, hcode⟩
  full s now grants ht caller run reservation limits _ hnone hfull := by
    obtain ⟨hs, _⟩ := h.timeline h₀ ht
    refine ⟨h.full s hs caller run reservation limits hnone hfull, fun r hr hlive => ?_⟩
    exact h.kept s (.create caller run (some reservation) limits) hs r hr fun t ht => by
      obtain rfl := Option.some.inj ht
      exact hlive
  refused s now grants ht caller run receipt limits e he :=
    h.refused s (h.timeline h₀ ht).1 caller run receipt limits e he

end Law

end ExecutionStore

/-! ## The memory store -/

namespace MemoryExecutionStore

open ExecutionStore (Call grant Reserves Deduplicates)

/-- No two receipts reserve one key. -/
def Distinct (receipts : List Receipt) : Prop :=
  receipts.Pairwise fun a b => ¬b.Names a.scope a.reservation.key

theorem Distinct.filter {receipts : List Receipt} (h : Distinct receipts) (p : Receipt → Bool) :
    Distinct (receipts.filter p) :=
  List.Pairwise.filter p h

theorem Distinct.append {receipts granted : List Receipt} (h : Distinct receipts)
    (hg : granted.length ≤ 1)
    (hfresh : ∀ r ∈ receipts, ∀ g ∈ granted, ¬r.Names g.scope g.reservation.key) :
    Distinct (receipts ++ granted) := by
  refine List.pairwise_append.mpr ⟨h, ?_, fun r hr g hg hn => ?_⟩
  · match granted with
    | [] => exact .nil
    | [g] => exact List.pairwise_singleton _ g
    | _ :: _ :: _ => simp at hg
  · exact hfresh r hr g hg ⟨hn.1.symm, hn.2.symm⟩

/-- A key is looked up at its only receipt. -/
theorem Distinct.find? {receipts : List Receipt} (h : Distinct receipts) {r : Receipt}
    (hr : r ∈ receipts) {scope key : String} (hn : r.Names scope key) :
    (receipts.find? fun r => r.scope = scope ∧ r.reservation.key = key) = some r := by
  -- by induction on the list: a receipt before `r` reserves another key
  induction receipts with
  | nil => simp at hr
  | cons first rest ih =>
    obtain ⟨hfirst, hrest⟩ := List.pairwise_cons.mp h
    rcases List.mem_cons.mp hr with rfl | hr
    · rw [List.find?_cons_of_pos]
      exact decide_eq_true hn
    · rw [List.find?_cons_of_neg]
      · exact ih hrest hr
      · intro hp
        obtain ⟨hs, hk⟩ := of_decide_eq_true hp
        exact hfirst r hr ⟨hn.1.trans hs.symm, hn.2.trans hk.symm⟩

namespace State

variable {s s' : State} {owner : String} {run : RunSnapshot}
  {receipt : Option ReceiptReservation} {limits : Limits}

/-- The store is owned, and no two of its receipts reserve one key. -/
structure Booked (owner : String) (s : State) : Prop where
  owned : s.owner = some owner
  distinct : Distinct s.receipts

theorem mem_pruneReceipts {now : UInt64} {r : Receipt} :
    r ∈ (s.pruneReceipts now).receipts ↔
      r ∈ s.receipts ∧ now < r.reservation.expiresAtMs := by
  simp [pruneReceipts]

theorem Booked.pruneReceipts (h : Booked owner s) (now : UInt64) :
    Booked owner (s.pruneReceipts now) :=
  ⟨h.owned, h.distinct.filter _⟩

/-- A failing creation prunes receipts at most. -/
theorem create_error {e : ForgeError} (h : s.create owner run receipt limits = (s', .error e)) :
    s' = s ∨ s' = s.pruneReceipts run.createdAtMs := by
  unfold create at h
  split at h
  · exact .inl (Prod.mk.inj h).1.symm
  dsimp only at h
  split at h
  · exact .inr (Prod.mk.inj h).1.symm
  · nomatch (Prod.mk.inj h).2
  split at h
  · exact .inr (Prod.mk.inj h).1.symm
  split at h
  · exact .inr (Prod.mk.inj h).1.symm
  split at h
  · exact .inr (Prod.mk.inj h).1.symm
  · nomatch (Prod.mk.inj h).2

theorem create_owner {outcome : CreateOutcome}
    (h : s.create owner run receipt limits = (s', .ok outcome)) : s.owner = some owner := by
  cases outcome with
  | created => exact (create_eq_created.mp h).1
  | duplicate id expiresAtMs => exact (create_eq_duplicate.mp h).1

theorem receiptOf_eq_some {scope key : String} {r : Receipt}
    (h : s.receiptOf scope key = some r) : r ∈ s.receipts ∧ r.Names scope key := by
  have hn := List.find?_some h
  simp only [decide_eq_true_eq] at hn
  exact ⟨List.mem_of_find?_eq_some h, hn⟩

theorem receiptOf_eq_none {scope key : String} :
    s.receiptOf scope key = none ↔ ∀ r ∈ s.receipts, ¬r.Names scope key := by
  simp [receiptOf, Receipt.Names]

/-- A caller that does not own the store is refused at once. -/
theorem create_foreign (h : s.owner ≠ some owner) :
    s.create owner run receipt limits =
      (s, .error (.new "state.conflict" "Store is owned by a different runtime")) := by
  simp [create, authorize, h]

/-- A creation is answered first by the receipts that are left. -/
theorem create_reserved {e : ForgeError} (ho : s.owner = some owner)
    (h : (s.pruneReceipts run.createdAtMs).reserved run.scope receipt limits = .error e) :
    s.create owner run receipt limits = (s.pruneReceipts run.createdAtMs, .error e) := by
  simp [create, authorize, ho, h]

theorem create_answered {outcome : CreateOutcome} (ho : s.owner = some owner)
    (h : (s.pruneReceipts run.createdAtMs).reserved run.scope receipt limits =
      .ok (some outcome)) :
    s.create owner run receipt limits = (s.pruneReceipts run.createdAtMs, .ok outcome) := by
  simp [create, authorize, ho, h]

theorem reserved_conflict (limits : Limits) {scope : String} {reservation : ReceiptReservation}
    {old : Receipt}
    (h : s.receiptOf scope reservation.key = some old)
    (hne : ¬ Same .source old.reservation.request reservation.request) :
    s.reserved scope (some reservation) limits =
      .error (.new "state.conflict" "Receipt key was used with different content") := by
  simp only [reserved]
  rw [show s.receipts.find? _ = some old from h]
  simp only [if_pos hne]

theorem reserved_full {scope : String} {reservation : ReceiptReservation}
    (h : s.receiptOf scope reservation.key = none)
    (hfull : limits.receiptCount ≤ s.receipts.length) :
    s.reserved scope (some reservation) limits =
      .error (.new "admission.full" "Receipt retention is full") := by
  simp only [reserved]
  rw [show s.receipts.find? _ = none from h]
  simp only [if_pos hfull]

/-- What a creation does to the receipts: it prunes them, and may add one under a new key. -/
theorem create_receipts {answer : Except ForgeError CreateOutcome}
    (h : s.create owner run receipt limits = (s', answer)) :
    (s' = s ∨ s' = s.pruneReceipts run.createdAtMs) ∧ answer ≠ .ok .created ∨
      answer = .ok .created ∧ s'.owner = s.owner ∧
        s'.receipts = (s.pruneReceipts run.createdAtMs).receipts
          ++ receipt.toList.map (⟨run.scope, run.id, ·⟩) ∧
        ∀ reservation ∈ receipt,
          (s.pruneReceipts run.createdAtMs).receiptOf run.scope reservation.key = none := by
  rcases answer with e | (_ | ⟨id, expiresAtMs⟩)
  · exact .inl ⟨create_error h, nofun⟩
  · obtain ⟨_, hfresh, _, _, _, rfl⟩ := create_eq_created.mp h
    exact .inr ⟨rfl, rfl, rfl, fun reservation hr => (hfresh reservation hr).1⟩
  · obtain ⟨_, rfl, _⟩ := create_eq_duplicate.mp h
    exact .inl ⟨.inr rfl, nofun⟩

theorem Booked.create (h : Booked owner s) {caller : String}
    {answer : Except ForgeError CreateOutcome}
    (hc : s.create caller run receipt limits = (s', answer)) : Booked owner s' := by
  rcases create_receipts hc with ⟨rfl | rfl, _⟩ | ⟨_, howner, hreceipts, hfresh⟩
  · exact h
  · exact h.pruneReceipts _
  · refine ⟨howner.trans h.owned, ?_⟩
    rw [hreceipts]
    refine (h.pruneReceipts run.createdAtMs).distinct.append (by cases receipt <;> simp) ?_
    intro r hr g hg hn
    obtain ⟨reservation, hres, rfl⟩ := List.mem_map.mp hg
    have hnone := hfresh reservation (Option.mem_toList.mp hres)
    exact receiptOf_eq_none.mp hnone r hr hn

theorem commit_state {expected : UInt64} {next : RunSnapshot} :
    (s.commit owner expected next).1.owner = s.owner ∧
      (s.commit owner expected next).1.receipts = s.receipts := by
  unfold commit
  split
  · exact ⟨rfl, rfl⟩
  split
  · exact ⟨rfl, rfl⟩
  split
  · exact ⟨rfl, rfl⟩
  dsimp only
  split <;> exact ⟨rfl, rfl⟩

theorem commitInvocation_state {id : RunId} {expected : UInt64} {node : String}
    {record : InvocationRecord} :
    (s.commitInvocation owner id expected node record).1.owner = s.owner ∧
      (s.commitInvocation owner id expected node record).1.receipts = s.receipts := by
  unfold commitInvocation
  split
  · exact ⟨rfl, rfl⟩
  split
  · exact ⟨rfl, rfl⟩
  split
  · exact ⟨rfl, rfl⟩
  split <;> exact ⟨rfl, rfl⟩

theorem collect_state {now : UInt64} :
    (s.collect owner now limits).1.owner = s.owner ∧
      ((s.collect owner now limits).1.receipts = s.receipts ∨
        (s.collect owner now limits).1.receipts = (s.pruneReceipts now).receipts) := by
  unfold collect
  split
  · exact ⟨rfl, .inl rfl⟩
  · exact ⟨rfl, .inr rfl⟩

end State

open State

/-- The memory store keeps the receipts of its starts. -/
theorem reserves (owner : String) :
    Reserves store owner State.receipts (fun s id => (s.runs[id]?).isSome) (Booked owner) where
  step s call h := by
    cases call with
    | create caller run receipt limits => exact h.create rfl
    | get id => exact h
    | view id node => exact h
    | unfinished => exact h
    | unfinishedHeads => exact h
    | commit caller expected next =>
      obtain ⟨howner, hreceipts⟩ := @commit_state s caller expected next
      exact ⟨howner.trans h.owned, hreceipts ▸ h.distinct⟩
    | commitInvocation caller id expected node record =>
      obtain ⟨howner, hreceipts⟩ := @commitInvocation_state s caller id expected node record
      exact ⟨howner.trans h.owned, hreceipts ▸ h.distinct⟩
    | collect caller now limits =>
      obtain ⟨howner, hreceipts⟩ := @collect_state s caller limits now
      refine ⟨howner.trans h.owned, ?_⟩
      -- collecting either leaves the receipts or drops those past their window
      rcases hreceipts with heq | heq
      · exact heq ▸ h.distinct
      · exact heq ▸ (h.pruneReceipts now).distinct
  kept s call h r hr htime := by
    cases call with
    | create caller run receipt limits =>
      have hlive := htime run.createdAtMs rfl
      change r ∈ (s.create caller run receipt limits).1.receipts
      -- a start drops what is expired and may add its own receipt; r is not expired
      rcases create_receipts (Prod.eta (s.create caller run receipt limits)).symm with
        ⟨heq | heq, _⟩ | ⟨_, _, hreceipts, _⟩
      · rw [heq]
        exact hr
      · rw [heq]
        exact mem_pruneReceipts.mpr ⟨hr, hlive⟩
      · rw [hreceipts]
        exact List.mem_append_left _ (mem_pruneReceipts.mpr ⟨hr, hlive⟩)
    | get id => exact hr
    | view id node => exact hr
    | unfinished => exact hr
    | unfinishedHeads => exact hr
    | commit caller expected next => exact (@commit_state s caller expected next).2 ▸ hr
    | commitInvocation caller id expected node record =>
      exact (@commitInvocation_state s caller id expected node record).2 ▸ hr
    | collect caller now limits =>
      have hlive := htime now rfl
      change r ∈ (s.collect caller now limits).1.receipts
      rcases (@collect_state s caller limits now).2 with heq | heq
      · rw [heq]
        exact hr
      · rw [heq]
        exact mem_pruneReceipts.mpr ⟨hr, hlive⟩
  granted s call r h hg := by
    cases call with
    | create caller run receipt limits =>
      change r ∈ (s.create caller run receipt limits).1.receipts
      rcases create_receipts (Prod.eta (s.create caller run receipt limits)).symm with
        ⟨_, hne⟩ | ⟨hok, _, hreceipts, _⟩
      -- no receipt was added, so nothing was granted
      · exfalso
        simp only [grant, ExecutionStore.perform, store] at hg
        revert hg hne
        rcases (s.create caller run receipt limits).2 with e | (_ | _) <;> simp [Except.map]
      · rw [hreceipts]
        simp only [grant, ExecutionStore.perform, store, hok, Except.map] at hg
        obtain ⟨reservation, rfl, rfl⟩ := Option.map_eq_some_iff.mp hg
        simp
    | _ => cases hg
  collects s now limits h r hr _ := by
    change (s.collect owner now limits).2 = _
    rw [(collect_eq_ok.mpr ⟨h.owned, rfl⟩ : s.collect owner now limits = (_, .ok ()))]
  equal s h r hr run reservation limits hn hlive heq := by
    -- the pruned receipts still hold r, and names are distinct
    have hfind : (s.pruneReceipts run.createdAtMs).receiptOf run.scope reservation.key = some r :=
      (h.pruneReceipts _).distinct.find? (mem_pruneReceipts.mpr ⟨hr, hlive⟩) hn
    have hc : s.create owner run (some reservation) limits =
        (s.pruneReceipts run.createdAtMs,
          .ok (.duplicate r.runId r.reservation.expiresAtMs)) :=
      create_eq_duplicate.mpr ⟨h.owned, rfl, reservation, rfl, r, hfind, heq.symm, rfl, rfl⟩
    exact congrArg Prod.snd hc
  different s h r hr run reservation limits hn hlive hne := by
    have hfind : (s.pruneReceipts run.createdAtMs).receiptOf run.scope reservation.key = some r :=
      (h.pruneReceipts _).distinct.find? (mem_pruneReceipts.mpr ⟨hr, hlive⟩) hn
    refine ⟨.new "state.conflict" "Receipt key was used with different content", ?_, rfl⟩
    have hres := reserved_conflict limits hfind fun heq => hne heq.symm
    exact congrArg Prod.snd (create_reserved h.owned hres)
  owned s h caller run receipt limits outcome hok := by
    have := create_owner (Prod.ext rfl hok : s.create caller run receipt limits = (_, .ok outcome))
    exact Option.some.inj (this.symm.trans h.owned)
  full s h caller run reservation limits hnone hfull := by
    by_cases howner : s.owner = some caller
    · refine ⟨.new "admission.full" "Receipt retention is full", ?_⟩
      have hfind : (s.pruneReceipts run.createdAtMs).receiptOf run.scope reservation.key = none :=
        receiptOf_eq_none.mpr fun r hr hn =>
          hnone r (mem_pruneReceipts.mp hr).1 hn (mem_pruneReceipts.mp hr).2
      have hres := reserved_full hfind hfull
      exact congrArg Prod.snd (create_reserved howner hres)
    · exact ⟨_, congrArg Prod.snd (create_foreign howner)⟩
  refused s h caller run receipt limits e he := by
    obtain ⟨s', hc⟩ : ∃ s', s.create caller run receipt limits = (s', .error e) :=
      ⟨_, Prod.ext rfl he⟩
    rw [show store.create s caller run receipt limits = (s', .error e) from hc]
    rcases create_error hc with rfl | rfl
    · exact ⟨fun _ => Iff.rfl, fun _ hr => hr⟩
    · exact ⟨fun _ => Iff.rfl, fun r hr => (mem_pruneReceipts.mp hr).1⟩

end MemoryExecutionStore

end WorkflowForge
