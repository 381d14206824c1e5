import WorkflowForge.Store.Memory

/-!
# Histories of the Memory Store

Sequences of calls by any callers, and the chain of snapshots each run goes through. The
store keeps a header without its package, which no check of a replacement reads but the
comparison of packages made before it.

## Main results

- `History.chain`: the snapshots of a run form a chain of accepted snapshots.
- `store_history_law`: the history law of every run, over every sequence of calls.
-/

namespace WorkflowForge

open Lib

namespace MemoryExecutionStore

/-! ## Calls -/

/-- A call that may change the store. -/
inductive Call where
  | claim (owner : String)
  | release (owner : String)
  | create (owner : String) (run : RunSnapshot) (receipt : Option ReceiptReservation)
      (limits : Limits)
  | commit (owner : String) (expected : UInt64) (next : RunSnapshot)
  | commitInvocation (owner : String) (id : RunId) (expected : UInt64) (node : String)
      (record : InvocationRecord)

/-- The answer to an accepted call: the run it wrote, if it wrote one. -/
abbrev Reply := Option RunId

namespace State

def perform (s : State) : Call → State × Except ForgeError Reply
  | .claim owner => ((s.claim owner).1, (s.claim owner).2.map fun _ => none)
  | .release owner => ((s.release owner).1, (s.release owner).2.map fun _ => none)
  | .create owner run receipt limits =>
    let r := s.create owner run receipt limits
    (r.1, r.2.map fun outcome => if outcome = .created then some run.id else none)
  | .commit owner expected next =>
    ((s.commit owner expected next).1, (s.commit owner expected next).2.map fun _ => some next.id)
  | .commitInvocation owner id expected node record =>
    let r := s.commitInvocation owner id expected node record
    (r.1, r.2.map fun _ => some id)

end State

/-- The states a sequence of calls goes through, with the snapshots of one run, newest
first: an accepted call that wrote the run adds the snapshot it left. -/
inductive History (id : RunId) : State → List RunSnapshot → Prop where
  | empty : History id {} []
  | wrote {s s' : State} {call : Call} {chain : List RunSnapshot} {snapshot : RunSnapshot} :
      History id s chain → s.perform call = (s', .ok (some id)) → s'.get id = some snapshot →
      History id s' (snapshot :: chain)
  | other {s s' : State} {call : Call} {chain : List RunSnapshot} {reply : Reply} :
      History id s chain → s.perform call = (s', .ok reply) → reply ≠ some id →
      History id s' chain
  | refused {s s' : State} {call : Call} {chain : List RunSnapshot} {e : ForgeError} :
      History id s chain → s.perform call = (s', .error e) → History id s' chain

/-! ## What each call does to a run -/

/-- A stored run is kept under its own identity and without a package. -/
def Stored (s : State) : Prop :=
  ∀ (id : RunId) (r : StoredRun), s.runs[id]? = some r →
    r.snapshot.id = id ∧ r.snapshot.package = {}

/-- What a call may do to the runs: write one, or leave all as they are. -/
inductive Wrote (s s' : State) : Reply → Prop where
  | nothing : s'.runs = s.runs → Wrote s s' none
  | created {run : RunSnapshot} : run.InitialLaw → s.runs[run.id]? = none →
      s'.runs = s.runs.insert run.id (.new { run with package := {} } run.package) →
      Wrote s s' (some run.id)
  | replaced {current next : StoredRun} {expected : UInt64} {id : RunId} :
      s.runs[id]? = some current → next.package = current.package →
      current.snapshot.validateSuccessor expected next.snapshot = .ok () →
      s'.runs = s.runs.insert id next → Wrote s s' (some id)
  | narrowed {current : StoredRun} {id : RunId} {node : String} {record : InvocationRecord}
      {revision : UInt64} :
      s.runs[id]? = some current → current.snapshot.NarrowReplacement .source node record →
      checkedAdd current.snapshot.revision 1 = some revision →
      s'.runs = s.runs.insert id (State.replaceRecord current node record revision) →
      Wrote s s' (some id)

namespace State

theorem claim_runs (s : State) (owner : String) : (s.claim owner).1.runs = s.runs := by
  unfold claim
  split <;> rfl

theorem release_runs (s : State) (owner : String) : (s.release owner).1.runs = s.runs := by
  unfold release
  split <;> rfl

/-- A refused creation only prunes receipts; an accepted one adds a first snapshot. -/
theorem create_wrote {s s' : State} {owner : String} {run : RunSnapshot}
    {receipt : Option ReceiptReservation} {limits : Limits}
    {r : Except ForgeError CreateOutcome}
    (h : s.create owner run receipt limits = (s', r)) :
    (r ≠ .ok .created ∧ s'.runs = s.runs) ∨ (r = .ok .created ∧ Wrote s s' (some run.id)) := by
  unfold create at h
  split at h
  · obtain ⟨rfl, rfl⟩ := Prod.mk.inj h
    exact .inl ⟨nofun, rfl⟩
  dsimp only at h
  split at h
  · obtain ⟨rfl, rfl⟩ := Prod.mk.inj h
    exact .inl ⟨nofun, rfl⟩
  -- an answer from the receipts is never a creation
  next outcome ho =>
    obtain ⟨rfl, rfl⟩ := Prod.mk.inj h
    refine .inl ⟨fun hc => ?_, rfl⟩
    obtain rfl := Except.ok.inj hc
    unfold reserved at ho
    split at ho
    · nomatch ho
    · split at ho
      · split at ho
        · nomatch ho
        · nomatch ho
      · split at ho
        · nomatch ho
        · nomatch ho
  split at h
  · obtain ⟨rfl, rfl⟩ := Prod.mk.inj h
    exact .inl ⟨nofun, rfl⟩
  split at h
  · obtain ⟨rfl, rfl⟩ := Prod.mk.inj h
    exact .inl ⟨nofun, rfl⟩
  next hv =>
    split at h
    · obtain ⟨rfl, rfl⟩ := Prod.mk.inj h
      exact .inl ⟨nofun, rfl⟩
    -- the name is free, and the run is added
    next hn =>
      obtain ⟨rfl, rfl⟩ := Prod.mk.inj h
      have hnone : s.runs[run.id]? = none := by
        simpa [pruneReceipts] using hn
      exact .inr ⟨rfl, .created (RunSnapshot.validateInitial_ok_iff.mp hv) hnone rfl⟩

theorem commit_wrote {s s' : State} {owner : String} {expected : UInt64} {next : RunSnapshot}
    {r : Except ForgeError Unit}
    (h : s.commit owner expected next = (s', r)) :
    (r ≠ .ok () ∧ s' = s) ∨ (r = .ok () ∧ Wrote s s' (some next.id)) := by
  unfold commit at h
  split at h
  · obtain ⟨rfl, rfl⟩ := Prod.mk.inj h
    exact .inl ⟨nofun, rfl⟩
  split at h
  · obtain ⟨rfl, rfl⟩ := Prod.mk.inj h
    exact .inl ⟨nofun, rfl⟩
  next current hc =>
    split at h
    · obtain ⟨rfl, rfl⟩ := Prod.mk.inj h
      exact .inl ⟨nofun, rfl⟩
    dsimp only at h
    split at h
    · obtain ⟨rfl, rfl⟩ := Prod.mk.inj h
      exact .inl ⟨nofun, rfl⟩
    next hv =>
      obtain ⟨rfl, rfl⟩ := Prod.mk.inj h
      -- the counters are beside the snapshot and the package
      have ha : (current.after { next with package := {} }).snapshot =
          { next with package := {} } := by
        unfold StoredRun.after StoredRun.new
        split <;> rfl
      have hp : (current.after { next with package := {} }).package = current.package := by
        unfold StoredRun.after StoredRun.new
        split <;> rfl
      exact .inr ⟨rfl, .replaced hc hp (ha ▸ hv) rfl⟩

theorem refusesRecord_eq_false_iff {current : RunSnapshot} {expected : UInt64} {node : String}
    {record : InvocationRecord} :
    refusesRecord current expected node record = false ↔
      current.revision = expected ∧ current.NarrowReplacement .source node record := by
  unfold refusesRecord
  rw [decide_eq_false_iff_not]
  simp only [not_or, ne_eq, not_not, Bool.not_eq_true]
  constructor
  · rintro ⟨hrev, hwait, holdWait, hlive, hsucceeded⟩
    refine ⟨hrev, hwait, fun old hold => ?_, hlive, fun old hold hs => ?_⟩
    · simpa [hold] using holdWait
    · simpa [hold, hs] using hsucceeded
  · rintro ⟨hrev, h⟩
    refine ⟨hrev, h.notWait, ?_, h.live, ?_⟩
    -- a record that is new has nothing to keep
    · cases hold : current.invocations[node]? with
      | none => rfl
      | some old => exact h.oldNotWait old hold
    · cases hold : current.invocations[node]? with
      | none => rfl
      | some old =>
        rw [Option.any_some, decide_eq_false_iff_not]
        exact fun hc => hc.2 (h.succeeded old hold hc.1)

theorem commitInvocation_wrote {s s' : State} {owner : String} {id : RunId} {expected : UInt64}
    {node : String} {record : InvocationRecord} {r : Except ForgeError ExecutionView}
    (h : s.commitInvocation owner id expected node record = (s', r)) :
    ((∃ e, r = .error e) ∧ s' = s) ∨ ((∃ v, r = .ok v) ∧ Wrote s s' (some id)) := by
  unfold commitInvocation at h
  split at h
  next e _ =>
    obtain ⟨rfl, rfl⟩ := Prod.mk.inj h
    exact .inl ⟨⟨e, rfl⟩, rfl⟩
  split at h
  · obtain ⟨rfl, rfl⟩ := Prod.mk.inj h
    exact .inl ⟨⟨_, rfl⟩, rfl⟩
  next current hc =>
    split at h
    · obtain ⟨rfl, rfl⟩ := Prod.mk.inj h
      exact .inl ⟨⟨_, rfl⟩, rfl⟩
    next hn =>
      obtain ⟨hrev, hnarrow⟩ := refusesRecord_eq_false_iff.mp (Bool.eq_false_iff.mpr hn)
      split at h
      · obtain ⟨rfl, rfl⟩ := Prod.mk.inj h
        exact .inl ⟨⟨_, rfl⟩, rfl⟩
      -- the one way through all checks
      next revision hadd =>
        obtain ⟨rfl, rfl⟩ := Prod.mk.inj h
        exact .inr ⟨⟨_, rfl⟩, .narrowed hc hnarrow (hrev ▸ hadd) rfl⟩

/-- An accepted call writes the run it names, or none. -/
theorem perform_ok {s s' : State} {call : Call} {reply : Reply}
    (h : s.perform call = (s', .ok reply)) : Wrote s s' reply := by
  cases call with
  | claim owner =>
    obtain ⟨rfl, hr⟩ := Prod.mk.inj h
    cases hc : (s.claim owner).2 with
    | error e =>
      rw [hc] at hr
      nomatch hr
    | ok u =>
      rw [hc] at hr
      obtain rfl := Except.ok.inj hr
      exact .nothing (claim_runs s owner)
  | release owner =>
    obtain ⟨rfl, hr⟩ := Prod.mk.inj h
    cases hc : (s.release owner).2 with
    | error e =>
      rw [hc] at hr
      nomatch hr
    | ok u =>
      rw [hc] at hr
      obtain rfl := Except.ok.inj hr
      exact .nothing (release_runs s owner)
  -- a duplicate writes no run
  | create owner run receipt limits =>
    cases hc : s.create owner run receipt limits with
    | mk s₁ r =>
      simp only [perform, hc] at h
      obtain ⟨rfl, hr⟩ := Prod.mk.inj h
      rcases create_wrote hc with ⟨hne, hruns⟩ | ⟨rfl, hw⟩
      · cases r with
        | error e => nomatch hr
        | ok outcome =>
          have ho : outcome ≠ .created := fun ho => hne (by rw [ho])
          obtain rfl : none = reply := by simpa [Except.map, ho] using hr
          exact .nothing hruns
      · obtain rfl : some run.id = reply := by simpa [Except.map] using hr
        exact hw
  -- these write the run they name
  | commit owner expected next =>
    cases hc : s.commit owner expected next with
    | mk s₁ r =>
      simp only [perform, hc] at h
      obtain ⟨rfl, hr⟩ := Prod.mk.inj h
      rcases commit_wrote hc with ⟨hne, _⟩ | ⟨rfl, hw⟩
      · cases r with
        | error e => nomatch hr
        | ok u => exact absurd rfl hne
      · obtain rfl := Except.ok.inj hr
        exact hw
  | commitInvocation owner id expected node record =>
    cases hc : s.commitInvocation owner id expected node record with
    | mk s₁ r =>
      simp only [perform, hc] at h
      obtain ⟨rfl, hr⟩ := Prod.mk.inj h
      rcases commitInvocation_wrote hc with ⟨⟨e, rfl⟩, _⟩ | ⟨⟨v, rfl⟩, hw⟩
      · nomatch hr
      · obtain rfl := Except.ok.inj hr
        exact hw

/-- A refused call leaves every run as it is. -/
theorem perform_error {s s' : State} {call : Call} {e : ForgeError}
    (h : s.perform call = (s', .error e)) : s'.runs = s.runs := by
  cases call with
  -- claims write no runs at all
  | claim owner =>
    obtain ⟨rfl, _⟩ := Prod.mk.inj h
    exact claim_runs s owner
  | release owner =>
    obtain ⟨rfl, _⟩ := Prod.mk.inj h
    exact release_runs s owner
  -- a refused start may have pruned receipts
  | create owner run receipt limits =>
    cases hc : s.create owner run receipt limits with
    | mk s₁ r =>
      simp only [perform, hc] at h
      obtain ⟨rfl, hr⟩ := Prod.mk.inj h
      rcases create_wrote hc with ⟨_, hruns⟩ | ⟨rfl, _⟩
      · exact hruns
      · nomatch hr
  | commit owner expected next =>
    cases hc : s.commit owner expected next with
    | mk s₁ r =>
      simp only [perform, hc] at h
      obtain ⟨rfl, hr⟩ := Prod.mk.inj h
      rcases commit_wrote hc with ⟨_, hs⟩ | ⟨rfl, _⟩
      · rw [hs]
      · nomatch hr
  | commitInvocation owner id expected node record =>
    cases hc : s.commitInvocation owner id expected node record with
    | mk s₁ r =>
      simp only [perform, hc] at h
      obtain ⟨rfl, hr⟩ := Prod.mk.inj h
      rcases commitInvocation_wrote hc with ⟨_, hs⟩ | ⟨⟨v, rfl⟩, _⟩
      · rw [hs]
      · nomatch hr

end State

/-! ## The chain of a run -/

/-- The package is not read by any check of a replacement but the one that compares it. -/
theorem SuccessorLaw.withPackage {c : Comparison} {prev next : RunSnapshot} {expected : UInt64}
    (law : SuccessorLaw c prev expected next) {p p' : ResolvedPackage} (hp : Same c p p') :
    SuccessorLaw c { prev with package := p } expected { next with package := p' } :=
  { law with
    waits := law.waits.of_same ⟨rfl, rfl, rfl, rfl, rfl, rfl⟩ ⟨rfl, rfl, rfl, rfl, rfl, rfl⟩
    package := hp
    terminal := fun ht => RunSnapshot.same_withPackage (law.terminal ht) hp.symm }

theorem Wrote.stored {s s' : State} {reply : Reply} (h : Wrote s s' reply) (hs : Stored s) :
    Stored s' := by
  intro id r hr
  cases h with
  | nothing hruns =>
    rw [hruns] at hr
    exact hs id r hr
  | created _ _ hruns =>
    rw [hruns, BTreeMap.get_insert] at hr
    split at hr
    next heq =>
      obtain rfl := Option.some.inj hr
      exact ⟨heq, rfl⟩
    next => exact hs id r hr
  -- a successor keeps the name and the package of its run
  | replaced hc _ hv hruns =>
    rw [hruns, BTreeMap.get_insert] at hr
    split at hr
    next heq =>
      obtain rfl := Option.some.inj hr
      have law := RunSnapshot.validateSuccessor_ok_iff.mp hv
      obtain ⟨hid, hp⟩ := hs _ _ hc
      exact ⟨heq ▸ law.id ▸ hid, ResolvedPackage.same_empty (hp ▸ law.package.symm)⟩
    next => exact hs id r hr
  | narrowed hc _ _ hruns =>
    rw [hruns, BTreeMap.get_insert] at hr
    split at hr
    next heq =>
      obtain rfl := Option.some.inj hr
      obtain ⟨hid, hp⟩ := hs _ _ hc
      exact ⟨heq ▸ hid, hp⟩
    next => exact hs id r hr

/-- A call that did not write a run leaves it as it was. -/
theorem Wrote.get_other {s s' : State} {reply : Reply} (h : Wrote s s' reply) {id : RunId}
    (hne : reply ≠ some id) : s'.get id = s.get id := by
  unfold State.get
  cases h with
  | nothing hruns => rw [hruns]
  | created _ _ hruns =>
    rw [hruns, BTreeMap.get_insert_ne _ _ fun hc => hne (congrArg some hc)]
  | replaced _ _ _ hruns =>
    rw [hruns, BTreeMap.get_insert_ne _ _ fun hc => hne (congrArg some hc)]
  | narrowed _ _ _ hruns =>
    rw [hruns, BTreeMap.get_insert_ne _ _ fun hc => hne (congrArg some hc)]

/-- A call that wrote a run left a first snapshot, or a successor of the one before. -/
theorem Wrote.get_self {s s' : State} {id : RunId} (h : Wrote s s' (some id))
    {snapshot : RunSnapshot} (hget : s'.get id = some snapshot)
    (inv : ∀ prev, s.get id = some prev → WaitsInv .source prev) :
    (s.get id = none ∧ snapshot.InitialLaw) ∨
      ∃ prev, s.get id = some prev ∧ SuccessorLaw .source prev prev.revision snapshot := by
  unfold State.get at hget ⊢
  cases h with
  | created hi hnone hruns =>
    rw [hruns, BTreeMap.get_insert_self] at hget
    obtain rfl := Option.some.inj hget
    exact .inl ⟨by rw [hnone]; rfl, hi⟩
  -- the full commit was checked as a successor of the stored run
  | @replaced current next expected _ hc hp hv hruns =>
    rw [hruns, BTreeMap.get_insert_self] at hget
    obtain rfl := Option.some.inj hget
    have law := RunSnapshot.validateSuccessor_ok_iff.mp hv
    refine .inr ⟨current.materialize, by rw [hc]; rfl, ?_⟩
    have hm : next.materialize = { next.snapshot with package := current.package } := by
      rw [StoredRun.materialize, hp]
    rw [hm]
    obtain rfl := law.base
    exact SuccessorLaw.withPackage law (.refl _)
  -- a lawful record makes a lawful successor
  | @narrowed current _ node record revision hc hn hrev hruns =>
    rw [hruns, BTreeMap.get_insert_self] at hget
    obtain rfl := Option.some.inj hget
    have hcur : s.get id = some current.materialize := by
      unfold State.get
      rw [hc]
      rfl
    exact .inr ⟨_, hcur, (inv _ hcur).insertRecord_successor
      ⟨hn.notWait, hn.oldNotWait, hn.live, hn.succeeded⟩ hrev⟩

/-- The snapshots of a run form a chain of accepted snapshots, and the store holds the
newest. -/
theorem History.chain {id : RunId} {s : State} {chain : List RunSnapshot}
    (h : History id s chain) : Stored s ∧ s.get id = chain.head? ∧ Chain .source chain := by
  induction h with
  | empty => exact ⟨fun _ _ hr => by simp at hr, by simp [State.get], .nil⟩
  -- the newest snapshot starts the chain, or extends it
  | @wrote s s' call chain snapshot _ hp hget ih =>
    obtain ⟨hs, hhead, hchain⟩ := ih
    have hw := State.perform_ok hp
    refine ⟨hw.stored hs, hget, ?_⟩
    have inv : ∀ prev, s.get id = some prev → WaitsInv .source prev := by
      intro prev hprev
      rw [hhead] at hprev
      obtain ⟨older, rfl⟩ := List.head?_eq_some_iff.mp hprev
      exact hchain.head_inv
    rcases hw.get_self hget inv with ⟨hnone, hi⟩ | ⟨prev, hprev, law⟩
    · rw [hhead] at hnone
      obtain rfl := List.head?_eq_none_iff.mp hnone
      exact .start hi
    · rw [hhead] at hprev
      obtain ⟨older, rfl⟩ := List.head?_eq_some_iff.mp hprev
      exact .step hchain law
  -- the calls on other runs, and refused ones, leave it alone
  | other _ hp hne ih =>
    obtain ⟨hs, hhead, hchain⟩ := ih
    have hw := State.perform_ok hp
    exact ⟨hw.stored hs, (hw.get_other hne).trans hhead, hchain⟩
  | @refused s s' call chain e _ hp ih =>
    obtain ⟨hs, hhead, hchain⟩ := ih
    have hruns := State.perform_error hp
    refine ⟨fun id r hr => hs id r (hruns ▸ hr), ?_, hchain⟩
    rw [← hhead]
    unfold State.get
    rw [hruns]

/-- Every run of the store obeys the history law as the source compares documents, over every
sequence of calls. -/
theorem store_history_law {id : RunId} {s : State} {chain : List RunSnapshot}
    (h : History id s chain) : s.get id = chain.head? ∧ HistoryLaw .source chain :=
  ⟨h.chain.2.1, h.chain.2.2.law⟩

/-- A claimed store that accepted a run and then its first record. -/
theorem store_history_law_sample :
    HistoryLaw .source [sampleRun.insertRecord "a" sampleRecord 1, sampleRun] := by
  have h₁ : State.perform {} (.claim "host") = ({ owner := some "host" }, .ok none) := rfl
  have h₂ : (State.perform { owner := some "host" } (.create "host" sampleRun none {})) =
      ({ owner := some "host", runs := (∅ : BTreeMap RunId StoredRun).insert "run"
          (.new sampleRun {}), packages := [{}] }, .ok (some "run")) := rfl
  have h₃ := History.wrote (.other .empty h₁ nofun) h₂ rfl
  have h₄ := @History.wrote _ _ _ (.commitInvocation "host" "run" 0 "a" sampleRecord) _ _ h₃
    rfl rfl
  exact (store_history_law h₄).2

/-- A run with a float as its input, for examples. -/
def floatRun (repr : String) (revision : UInt64) : RunSnapshot :=
  { sampleRun with input := .number (.float repr), revision := revision }

/-- A full commit may change the sign of a float zero in the input of a run: the texts are not
kept. -/
theorem history_resigns :
    ¬ ∀ (id : RunId) (s : State) (chain : List RunSnapshot), History id s chain →
      HistoryLaw .text chain := by
  intro h
  have h₁ : State.perform {} (.claim "host") = ({ owner := some "host" }, .ok none) := rfl
  have h₂ := @History.wrote "run" _ _ (.create "host" (floatRun "0.0" 0) none {}) []
    (floatRun "0.0" 0) (.other .empty h₁ fun h => by cases h) rfl rfl
  have h₃ := @History.wrote _ _ _ (.commit "host" 0 (floatRun "-0.0" 1)) _
    (floatRun "-0.0" 1) h₂ rfl rfl
  have hextends := List.rel_of_pairwise_cons (h _ _ _ h₃).extend (List.mem_singleton.mpr rfl)
  have hinput : (floatRun "0.0" 0).input = (floatRun "-0.0" 1).input := hextends.input
  revert hinput
  decide

end MemoryExecutionStore

end WorkflowForge
