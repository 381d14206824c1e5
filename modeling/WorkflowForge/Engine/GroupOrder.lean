import Mathlib.Algebra.BigOperators.Group.Finset.Basic
import Mathlib.Algebra.Order.BigOperators.Group.Finset
import WorkflowForge.Engine.GroupStop

/-!
# Collected Groups

A group that collects all results gives the same value in whatever order its children return:
their data in source order, or the budget error when the data together are too large.

## Main results

- `group_order`: the result of an undisturbed group is a function of its children's results,
  over any order of completion and any resumption, and never more children are active than
  the group allows.
-/

namespace WorkflowForge.Engine

open Lib

/-! ## What a group is for -/

section

variable (limits : Limits) (source : GroupSource) (r : Nat → Except ForgeError Value)

/-- The data of a child by its result. -/
def childValue (index : Nat) : Value :=
  match r index with
  | .ok output => source.succeeded index output
  | .error error => source.failed index error

/-- What the data of a child cost. -/
def childBytes (index : Nat) : Nat :=
  (childValue source r index).bytes + (source.label index).utf8ByteSize + 4

/-- The data of all children are within the budget; no children cost nothing. -/
def WithinBudget : Prop :=
  source.length = 0 ∨
    2 + ∑ i ∈ Finset.range source.length, childBytes source r i ≤ limits.valueBytes

instance : Decidable (WithinBudget limits source r) :=
  inferInstanceAs (Decidable (_ ∨ _))

/-- The outcome of a group over the results of its children, in source order. -/
def groupOutcome : Except StepError Value :=
  if WithinBudget limits source r then
    .ok (source.value ((List.range source.length).map (childValue source r)))
  else .error (.execution resultOversized)

/-- One occurrence at a group that nothing disturbs: slots are free, nothing is cancelled, and
no child is suspended, breaks the runtime or leaves an effect unresolved. Until the group stops
itself, a child returns its result. -/
def Fair (pre : List Occurrence) : Occurrence → Prop
  | .permitted granted => granted = true
  | .joined index result cancelled => cancelled = false ∧
    ∃ outcome : Except ForgeError Value, result = outcome.mapError .execution ∧
      (∀ e, outcome = .error e → e.code ≠ "effect.unknown") ∧
      ((∀ frame before after, .stopped frame before after ∉ pre) → outcome = r index)
  | .surveyed unresolved cancelled => unresolved = false ∧ cancelled = false
  | _ => True

def Undisturbed (log : List Occurrence) : Prop :=
  ∀ pre x post, log = pre ++ x :: post → Fair r pre x

end

theorem Undisturbed.of_append {r : Nat → Except ForgeError Value} {log : List Occurrence}
    {x : Occurrence} (h : Undisturbed r (log ++ [x])) : Undisturbed r log ∧ Fair r log x := by
  refine ⟨?_, h log x [] rfl⟩
  rintro pre y post rfl
  exact h pre y (post ++ [x]) (by simp)

theorem Undisturbed.snoc {r : Nat → Except ForgeError Value} {log : List Occurrence}
    {x : Occurrence} (h : Undisturbed r log) (hx : Fair r log x) : Undisturbed r (log ++ [x]) := by
  intro pre y post hlog
  obtain ⟨rfl, rfl, -⟩ | ⟨post', -, hpre⟩ := snoc_eq_append_cons hlog
  · exact hx
  · exact h pre y post' hpre

/-! ## The worker -/

/-- The children a worker has begun and not seen return. -/
def GroupPoint.active : GroupPoint → List Nat
  | .admitting s _ | .saving s _ | .starting s _ _ => s.active
  | .ended _ => []

/-- Room for the children that are still to begin in a round. -/
def GroupPoint.Room (concurrency : Nat) : GroupPoint → Prop
  | .admitting s window => s.active.length + window.length ≤ concurrency
  | .saving s (.start _ window) | .starting s _ window =>
    s.active.length + 1 + window.length ≤ concurrency
  | .saving s _ => s.active.length ≤ concurrency
  | .ended _ => True

/-- The variables of a worker that has not stopped. -/
structure GroupState.Collects (s : GroupState) (limits : Limits) (source : GroupSource)
    (r : Nat → Except ForgeError Value) : Prop where
  source_eq : s.source = source
  total : s.total = source.length
  next_le : s.next ≤ s.total
  failed : s.failed = none
  halted : s.halted = false
  suspended : s.suspended = false
  nodup : s.active.Nodup
  below : ∀ i ∈ s.active, i < s.next
  /-- The children that have returned have their data, and no others. -/
  results : s.results = (List.range source.length).map fun i =>
    if i < s.next ∧ i ∉ s.active then some (childValue source r i) else none
  bytes : s.bytes = 2 + ∑ i ∈ Finset.range s.next \ s.active.toFinset, childBytes source r i
  within : (∃ i < s.next, i ∉ s.active) → s.bytes ≤ limits.valueBytes

/-- What a point of an undisturbed group keeps, over the reason of its saved frame. -/
def GroupPoint.Collects (concurrency : Nat) (limits : Limits) (source : GroupSource)
    (r : Nat → Except ForgeError Value) : Option ForgeError → GroupPoint → Prop
  | _, .ended result => result = groupOutcome limits source r
  | some _, .admitting s _ | some _, .starting s _ _ =>
    s.failed = some (.execution resultOversized)
  | some _, .saving s resumption =>
    s.failed = some (.execution resultOversized) ∧ resumption ≠ .exhausted
  | none, .admitting s window => s.Collects limits source r ∧
    window = readyRange s.next s.total s.active.length concurrency s.halted
  | none, .starting s index window | none, .saving s (.start index window) =>
    GroupState.Collects { s with active := index :: s.active } limits source r ∧
      window = readyRange s.next s.total (s.active.length + 1) concurrency s.halted
  | none, .saving s .oversized => s.failed = none ∧ ¬ WithinBudget limits source r
  | none, .saving _ _ => False

/-! ## Rounds -/

theorem length_readyRange {next total active concurrency : Nat} {halted : Bool} :
    (readyRange next total active concurrency halted).length ≤ concurrency - active := by
  unfold readyRange
  rw [List.length_range']
  cases halted with
  | true =>
    have := min_le_left (next + 0) total
    simp only [if_true]
    omega
  | false =>
    have := min_le_left (next + (concurrency - active)) total
    simp only [Bool.false_eq_true, if_false]
    omega

/-- Admitting the first child of a round leaves the round of one more active child. -/
theorem readyRange_cons {next total active concurrency index : Nat} {window : List Nat}
    {halted : Bool} (h : index :: window = readyRange next total active concurrency halted) :
    index = next ∧ next < total ∧ active < concurrency ∧
      window = readyRange (next + 1) total (active + 1) concurrency halted := by
  have hmem : index ∈ readyRange next total active concurrency halted := h ▸ List.mem_cons_self
  obtain ⟨rfl, -, -, -⟩ := mem_readyRange.mp hmem
  unfold readyRange at h ⊢
  simp only [Bool.false_eq_true, if_false] at h ⊢
  -- the number of free slots that still have a child
  cases hk : min (next + (concurrency - active)) total - next with
  | zero =>
    rw [hk] at h
    nomatch h
  | succ k =>
    rw [hk, List.range'_succ, List.cons.injEq] at h
    obtain ⟨rfl, rfl⟩ := h
    have hl := min_le_left (index + (concurrency - active)) total
    have hr := min_le_right (index + (concurrency - active)) total
    refine ⟨rfl, by omega, by omega, ?_⟩
    rw [show index + 1 + (concurrency - (active + 1)) = index + (concurrency - active) by omega]
    congr 1
    omega

theorem readyRange_nil {next total concurrency : Nat} (hpos : 0 < concurrency)
    (hle : next ≤ total) (h : [] = readyRange next total 0 concurrency false) : next = total := by
  by_contra hne
  have hmem : next ∈ readyRange next total 0 concurrency false :=
    mem_readyRange.mpr ⟨rfl, le_rfl, by omega, by omega⟩
  rw [← h] at hmem
  nomatch hmem

section

variable {concurrency : Nat} {errors : GroupErrors} {limits : Limits} {s : GroupState}

theorem room_round (h : s.active.length ≤ concurrency) :
    (s.round concurrency).Room concurrency := by
  have := @length_readyRange s.next s.total s.active.length concurrency s.halted
  change s.active.length + _ ≤ concurrency
  omega

theorem room_settle {index : Nat} {value : Value} (h : s.active.length ≤ concurrency) :
    (s.settle concurrency limits index value).Room concurrency := by
  unfold GroupState.settle
  dsimp only
  split
  · exact h
  · exact room_round h

theorem room_join {index : Nat} {result : Except StepError Value} {cancelled : Bool}
    (h : s.active.length ≤ concurrency) :
    (s.join concurrency errors limits index result cancelled).Room concurrency := by
  have hle : (s.active.erase index).length ≤ concurrency :=
    (List.length_erase_le ..).trans h
  unfold GroupState.join
  rcases result with (_ | error | error) | output
  · exact room_round hle
  · dsimp only
    split
    · exact room_settle hle
    · split
      · exact hle
      · exact room_settle hle
  · trivial
  · exact room_settle hle

theorem room_admitNext {index : Nat} {window : List Nat} {granted : Bool}
    (h : (GroupPoint.admitting s (index :: window)).Room concurrency) :
    (s.admitNext index window granted).Room concurrency := by
  have h : s.active.length + (window.length + 1) ≤ concurrency := h
  cases granted with
  | true =>
    change s.active.length + 1 + window.length ≤ concurrency
    omega
  | false =>
    change s.active.length ≤ concurrency
    omega

theorem room_proceed {resumption : Resumption}
    (h : (GroupPoint.saving s resumption).Room concurrency) :
    (s.proceed concurrency limits resumption).Room concurrency := by
  cases resumption with
  | start index window => exact h
  | exhausted => exact h
  | failed index error => exact room_settle h
  | oversized => exact room_round h

end

/-- A point with room has no more children active than the group allows. -/
theorem room_active {concurrency : Nat} {point : GroupPoint} (h : point.Room concurrency) :
    point.active.length ≤ concurrency := by
  cases point with
  | admitting s window => exact (Nat.le_add_right _ _).trans h
  | saving s resumption =>
    cases resumption with
    | start index window => exact (Nat.le_add_right _ _).trans ((Nat.le_add_right _ _).trans h)
    | _ => exact h
  | starting s index window =>
    exact (Nat.le_add_right _ _).trans ((Nat.le_add_right _ _).trans h)
  | ended => exact Nat.zero_le _

/-! ## Results -/

section

variable {concurrency : Nat} {errors : GroupErrors} {limits : Limits} {s : GroupState}
  {source : GroupSource} {r : Nat → Except ForgeError Value}

/-- What has returned costs no more than everything. -/
theorem sum_le_of_subset {t : Finset Nat} (h : t ⊆ Finset.range source.length) :
    ∑ i ∈ t, childBytes source r i ≤ ∑ i ∈ Finset.range source.length, childBytes source r i :=
  Finset.sum_le_sum_of_subset h

theorem mapM_id_eq_some {xs : List (Option Value)} {values : List Value}
    (h : xs = values.map some) : xs.mapM id = some values := by
  subst h
  induction values with
  | nil => rfl
  | cons v values ih => simp [ih]

/-- A worker that begins. -/
theorem collects_resume {frame : ControlFrame} {admitted : Nat} :
    (GroupState.resume source frame admitted false none).Collects limits source r where
  source_eq := rfl
  total := rfl
  next_le := Nat.zero_le _
  failed := rfl
  halted := rfl
  suspended := rfl
  nodup := List.nodup_nil
  below _ h := nomatch h
  results := by
    refine List.ext_getElem (by simp [GroupState.resume]) fun i h₁ h₂ => ?_
    simp [GroupState.resume]
  bytes := rfl
  within := fun ⟨i, hi, _⟩ => nomatch hi

/-- The child that begins has not returned, before or after. -/
theorem returned_admitNext {next i : Nat} {active : List Nat} :
    (i < next + 1 ∧ i ∉ next :: active) ↔ i < next ∧ i ∉ active := by
  simp only [List.mem_cons, not_or]
  constructor
  · rintro ⟨hlt, hne, hmem⟩
    exact ⟨Nat.lt_of_le_of_ne (Nat.le_of_lt_succ hlt) hne, hmem⟩
  · rintro ⟨hlt, hmem⟩
    exact ⟨hlt.trans (Nat.lt_succ_self next), Nat.ne_of_lt hlt, hmem⟩

/-- The next child is counted, and active. -/
theorem GroupState.Collects.admitNext {frame : ControlFrame} (h : s.Collects limits source r)
    (hlt : s.next < s.total) :
    GroupState.Collects
      { s with frame := frame, next := s.next + 1, active := s.next :: s.active }
      limits source r where
  source_eq := h.source_eq
  total := h.total
  next_le := hlt
  failed := h.failed
  halted := h.halted
  suspended := h.suspended
  nodup := List.nodup_cons.mpr ⟨fun hmem => Nat.lt_irrefl _ (h.below _ hmem), h.nodup⟩
  below i hmem := by
    rcases List.mem_cons.mp hmem with rfl | hmem
    · exact Nat.lt_succ_self _
    · exact (h.below i hmem).trans (Nat.lt_succ_self _)
  results := by
    -- the child that is admitted has not returned
    refine h.results.trans (List.map_congr_left fun i _ => ?_)
    simp only [returned_admitNext]
  bytes := by
    refine h.bytes.trans ?_
    congr 2
    ext i
    simpa only [Finset.mem_sdiff, Finset.mem_range, List.mem_toFinset] using
      returned_admitNext.symm
  within := fun ⟨i, hreturned⟩ => h.within ⟨i, returned_admitNext.mp hreturned⟩

/-- An active child returns: its data are kept, or the group is too large in any order. -/
theorem collects_settle {index : Nat} (h : s.Collects limits source r) (hmem : index ∈ s.active) :
    ({ s with active := s.active.erase index }.settle concurrency limits index
      (childValue source r index)).Collects concurrency limits source r none := by
  have hnext := h.below index hmem
  have hfresh : index ∉ Finset.range s.next \ s.active.toFinset := by simp [hmem]
  -- what has returned now is what had returned before, and the child
  have hsettled : Finset.range s.next \ (s.active.erase index).toFinset =
      insert index (Finset.range s.next \ s.active.toFinset) := by
    ext i
    simp only [Finset.mem_sdiff, Finset.mem_range, List.mem_toFinset, Finset.mem_insert,
      h.nodup.mem_erase_iff]
    by_cases hi : i = index
    · subst hi
      simp [hnext]
    · simp [hi]
  have hbytes : s.bytes + (childValue source r index).bytes +
      (s.source.label index).utf8ByteSize + 4 =
        2 + ∑ i ∈ Finset.range s.next \ (s.active.erase index).toFinset,
          childBytes source r i := by
    rw [hsettled, Finset.sum_insert hfresh, h.bytes, h.source_eq, childBytes]
    omega
  have hsubset : Finset.range s.next \ (s.active.erase index).toFinset ⊆
      Finset.range source.length := by
    intro i hi
    have hi := Finset.mem_range.mp (Finset.mem_sdiff.mp hi).1
    exact Finset.mem_range.mpr (hi.trans_le (h.total ▸ h.next_le))
  unfold GroupState.settle
  dsimp only
  rw [hbytes]
  split
  next hover =>
    refine ⟨h.failed, fun hwithin => ?_⟩
    have hle := sum_le_of_subset (r := r) hsubset
    rcases hwithin with hzero | hwithin
    · have := h.next_le
      have := h.total
      omega
    · omega
  next hwithin =>
    refine ⟨⟨h.source_eq, h.total, h.next_le, h.failed, h.halted, h.suspended,
      h.nodup.erase index, fun i hi => h.below i (List.mem_of_mem_erase hi), ?_, rfl,
      fun _ => Nat.not_lt.mp hwithin⟩, rfl⟩
    change s.results.set index (some (childValue source r index)) = _
    rw [h.results]
    refine List.ext_getElem (by simp) fun i h₁ h₂ => ?_
    simp only [List.getElem_set, List.getElem_map, List.getElem_range]
    split
    next hi =>
      subst hi
      rw [if_pos ⟨hnext, fun hin => (h.nodup.mem_erase_iff.mp hin).1 rfl⟩]
    next hi =>
      have hiff : i ∈ s.active.erase index ↔ i ∈ s.active := by
        rw [h.nodup.mem_erase_iff]
        exact and_iff_right (Ne.symm hi)
      simp only [hiff]

/-- After the marker is saved, the reason stays. -/
theorem collects_settle_stopped {index : Nat} {value : Value} {reason : ForgeError}
    (h : s.failed = some (.execution resultOversized)) :
    (s.settle concurrency limits index value).Collects concurrency limits source r
      (some reason) := by
  unfold GroupState.settle
  dsimp only
  split
  · exact ⟨h, by simp⟩
  · exact h

/-- A child returns to an undisturbed group. -/
theorem collects_join {e : Option ForgeError} {log : List Occurrence} {window : List Nat}
    {index : Nat} {result : Except StepError Value} {cancelled : Bool}
    (h : (GroupPoint.admitting s window).Collects concurrency limits source r e)
    (hmem : index ∈ s.active) (hfair : Fair r log (.joined index result cancelled))
    (hmarked : e = none → ∀ frame before after, .stopped frame before after ∉ log) :
    (s.join concurrency .collect limits index result cancelled).Collects concurrency limits
      source r e := by
  -- a fair child is not cancelled and leaves nothing unknown
  obtain ⟨rfl, outcome, rfl, hknown, hresult⟩ := hfair
  unfold GroupState.join
  cases e with
  | some reason =>
    have h : s.failed = some (.execution resultOversized) := h
    cases outcome with
    | ok output => exact collects_settle_stopped h
    | error error =>
      simp only [mapError_error, hknown error rfl, if_false, reduceCtorEq, Bool.false_eq_true,
        or_self]
      exact collects_settle_stopped h
  | none =>
    obtain ⟨h, -⟩ := h
    -- and answers its own result, as long as the group has not stopped
    obtain rfl := hresult (hmarked rfl)
    have hvalue : ({ s with active := s.active.erase index }.settle concurrency limits index
        (childValue source r index)).Collects concurrency limits source r none :=
      collects_settle h hmem
    obtain rfl := h.source_eq
    unfold childValue at hvalue
    cases hr : r index with
    | ok output =>
      rw [hr] at hvalue
      exact hvalue
    | error error =>
      rw [hr] at hvalue
      simp only [mapError_error, hknown error hr, if_false, reduceCtorEq, Bool.false_eq_true,
        or_self]
      exact hvalue

/-- A slot is granted. -/
theorem collects_admitNext {e : Option ForgeError} {window : List Nat} {index : Nat}
    (h : (GroupPoint.admitting s (index :: window)).Collects concurrency limits source r e) :
    (s.admitNext index window true).Collects concurrency limits source r e := by
  cases e with
  | some reason => exact ⟨h, by simp⟩
  | none =>
    obtain ⟨h, hwindow⟩ := h
    rw [h.halted] at hwindow
    obtain ⟨rfl, hlt, -, rfl⟩ := readyRange_cons hwindow
    refine ⟨h.admitNext hlt, ?_⟩
    rw [h.halted]

/-- The progress is saved. -/
theorem collects_proceed {e e' : Option ForgeError} {n m : Nat} {log : List Occurrence}
    {resumption : Resumption} (hresumes : s.Resumes n e m e' log resumption)
    (hkeep : e.isSome → m = n ∧ e' = e)
    (h : (GroupPoint.saving s resumption).Collects concurrency limits source r e)
    (hreason : ∀ reason, e = some reason →
      reason = resultOversized ∧ ¬ WithinBudget limits source r) :
    (s.proceed concurrency limits resumption).Collects concurrency limits source r e' ∧
      ∀ reason, e' = some reason →
        reason = resultOversized ∧ ¬ WithinBudget limits source r := by
  cases e with
  -- the group has stopped: its reason stays
  | some reason =>
    obtain ⟨-, rfl⟩ := hkeep rfl
    refine ⟨?_, hreason⟩
    obtain ⟨h, hne⟩ := h
    cases resumption with
    | start index window => exact h
    | exhausted => exact absurd rfl hne
    | failed index error =>
      refine collects_settle_stopped ?_
      simp only [h]
      rfl
    -- the reason is found now, by the budget
    | oversized =>
      change (s.failed <|> some (StepError.execution resultOversized)) = _
      rw [h]
      rfl
  | none =>
    cases resumption with
    | start index window =>
      obtain ⟨rfl, -⟩ := hresumes
      exact ⟨h, fun _ he => nomatch he⟩
    | exhausted => exact h.elim
    | failed index error => exact h.elim
    | oversized =>
      obtain ⟨hfailed, hlarge⟩ := h
      obtain ⟨-, rfl⟩ := hresumes
      refine ⟨?_, ?_⟩
      · change (s.failed <|> some (StepError.execution resultOversized)) = _
        rw [hfailed]
        rfl
      · rintro _ ⟨⟩
        exact ⟨rfl, hlarge⟩

/-- All children have returned. -/
theorem collects_conclude {e : Option ForgeError} (hpos : 0 < concurrency)
    (h : (GroupPoint.admitting s []).Collects concurrency limits source r e)
    (hactive : s.active = [])
    (hreason : ∀ reason, e = some reason →
      reason = resultOversized ∧ ¬ WithinBudget limits source r) :
    s.conclude false false = groupOutcome limits source r := by
  unfold GroupState.conclude groupOutcome
  cases e with
  | some reason =>
    have h : s.failed = some (.execution resultOversized) := h
    simp only [h, Bool.false_eq_true, if_false, if_neg (hreason reason rfl).2]
  | none =>
    obtain ⟨h, hwindow⟩ := h
    rw [hactive, h.halted] at hwindow
    -- all children are admitted, as the window is empty with slots free
    have hnext : s.next = source.length :=
      (readyRange_nil hpos h.next_le hwindow).trans h.total
    -- the budget was checked with the last child that returned
    have hwithin : WithinBudget limits source r := by
      rcases Nat.eq_zero_or_pos source.length with hzero | hlength
      · exact .inl hzero
      · have hle := h.within ⟨0, hnext ▸ hlength, by simp [hactive]⟩
        rw [h.bytes, hactive, hnext] at hle
        exact .inr (by simpa using hle)
    have hresults : s.results.mapM id =
        some ((List.range source.length).map (childValue source r)) := by
      rw [h.results, hactive, hnext]
      refine mapM_id_eq_some ?_
      rw [List.map_map]
      refine List.map_congr_left fun i hi => ?_
      exact if_pos ⟨List.mem_range.mp hi, List.not_mem_nil⟩
    simp only [h.failed, h.suspended, hresults, h.source_eq, Bool.false_eq_true, if_false,
      if_pos hwithin]

/-! ## The invariant -/

/-- What an undisturbed history has returned, and why its group was stopped. -/
def Kept (limits : Limits) (source : GroupSource) (r : Nat → Except ForgeError Value)
    (e : Option ForgeError) (log : List Occurrence) : Prop :=
  (∀ result, .returned result ∈ log → result = groupOutcome limits source r) ∧
    ∀ reason, e = some reason → reason = resultOversized ∧ ¬ WithinBudget limits source r

theorem Kept.append {e : Option ForgeError} {log : List Occurrence} {x : Occurrence}
    (h : Kept limits source r e log) (hx : ∀ result, x ≠ .returned result) :
    Kept limits source r e (log ++ [x]) := by
  refine ⟨fun result hmem => ?_, h.2⟩
  rcases List.mem_append.mp hmem with hmem | hmem
  · exact h.1 result hmem
  · exact absurd (List.mem_singleton.mp hmem).symm (hx result)

variable {initial : Value → Except ForgeError ControlFrame}
  {sourceOf : Value → ControlFrame → Except StepError GroupSource}

variable (concurrency limits r sourceOf) in
/-- Over what a frame carries, an undisturbed group keeps to its outcome. -/
def orderInvariant (hpos : 0 < concurrency) (children : Value → Except ForgeError GroupSource)
    (hinitial : ∀ {input frame}, initial input = .ok frame → Carries frame 0 none)
    (hsource : ∀ {input frame source}, sourceOf input frame = .ok source →
      children input = .ok source) (key : String) :
    (groupConstruct concurrency .collect limits initial sourceOf).Invariant limits key :=
  let base := groupInvariant concurrency .collect limits sourceOf hinitial key
  { saved := fun input frame log => base.saved input frame log ∧
      ∀ n e, Carries frame n e → ∀ source, children input = .ok source → Undisturbed r log →
        Kept limits source r e log
    live := fun input frame point log => base.live input frame point log ∧
      point.Room concurrency ∧
      ∀ n e, Carries frame n e → ∀ source, children input = .ok source → Undisturbed r log →
        Kept limits source r e log ∧ point.Collects concurrency limits source r e
    live_saved := fun h => ⟨base.live_saved h.1, fun n e hcarries source hs hu =>
      (h.2.2 n e hcarries source hs hu).1⟩
    initial := by
      intro input frame h
      refine ⟨base.initial h, fun n e hcarries source hs hu => ⟨fun _ hmem => (nomatch hmem), ?_⟩⟩
      obtain ⟨-, rfl⟩ := (hinitial h).unique hcarries
      exact fun _ he => nomatch he
    began := by
      rintro input frame log ⟨hbase, h⟩
      exact ⟨base.began hbase, fun n e hcarries source hs hu =>
        (h n e hcarries source hs hu.of_append.1).append (fun _ hx => nomatch hx)⟩
    start := by
      rintro input frame point log ⟨hbase, h⟩ hstart
      obtain ⟨src, hsrc, hround⟩ := bind_eq_ok.mp hstart
      have hsaved : ∀ {n e}, Carries frame n e →
          (GroupState.resume src frame n e.isSome e).round concurrency = point := by
        intro n e hcarries
        have hsaved : saved frame = some (n, e.isSome, e) := hcarries
        simp only [hsaved] at hround
        exact Except.ok.inj hround
      refine ⟨base.start hbase hstart, ?_, fun n e hcarries source hs hu => ?_⟩
      · obtain ⟨n, e, hcarries, -⟩ := hbase
        rw [← hsaved hcarries]
        exact room_round (Nat.zero_le _)
      · have hkept := h n e hcarries source hs hu.of_append.1
        obtain rfl := Except.ok.inj (hs.symm.trans (hsource hsrc))
        refine ⟨hkept.append (fun _ hx => nomatch hx), ?_⟩
        rw [← hsaved hcarries]
        cases e with
        | none => exact ⟨collects_resume, rfl⟩
        | some reason =>
          obtain ⟨rfl, -⟩ := hkept.2 reason rfl
          rfl
    returned := by
      rintro input frame point log result ⟨hbase, hroom, h⟩ hnext
      refine ⟨base.returned hbase hnext, fun n e hcarries source hs hu => ?_⟩
      obtain ⟨hkept, hpoint⟩ := h n e hcarries source hs hu.of_append.1
      refine ⟨fun result' hmem => ?_, hkept.2⟩
      rcases List.mem_append.mp hmem with hmem | hmem
      · exact hkept.1 result' hmem
      obtain rfl := Occurrence.returned.inj (List.mem_singleton.mp hmem)
      cases groupNext_asks hnext with
      | lost hchild =>
        obtain ⟨_, _, -, -, -, -, htotal, hsound, -⟩ := hbase
        obtain ⟨c, hc⟩ := GroupSource.child_isSome (htotal.trans_le hsound.total_le)
        exact nomatch hchild.symm.trans hc
      | finish =>
        cases e <;> exact hpoint
    barred := fun _ h _ => nomatch groupNext_asks h
    refused := by
      rintro input frame point f refused next log ⟨hbase, hroom, h⟩ hnext error
      exact ⟨base.refused hbase hnext error, fun n e hcarries source hs hu =>
        (h n e hcarries source hs hu.of_append.1).1.append (fun _ hx => nomatch hx)⟩
    checked := fun _ h => nomatch groupNext_asks h
    entered := fun _ h => nomatch groupNext_asks h
    save := by
      rintro input frame point f refused next log ⟨hbase, hroom, h⟩ hnext
      cases groupNext_asks hnext with
      | @save s resumption hopen =>
        refine ⟨base.save hbase hnext, room_proceed hroom, fun m e' hcarries' source hs hu => ?_⟩
        obtain ⟨n, e, hcarries, -, m', e'', hsaved, -, hkeep, hresumes⟩ := hbase
        obtain ⟨rfl, rfl⟩ := hsaved.unique hcarries'
        obtain ⟨hkept, hpoint⟩ := h n e hcarries source hs hu.of_append.1
        obtain ⟨hpoint, hreason⟩ := collects_proceed hresumes hkeep hpoint hkept.2
        have hold := hkept.append (x := .saved s.frame) (fun _ hx => nomatch hx)
        exact ⟨⟨hold.1, hreason⟩, hpoint⟩
    permitted := by
      rintro input frame point next log ⟨hbase, hroom, h⟩ hnext granted
      cases groupNext_asks hnext with
      | permit =>
        refine ⟨base.permitted hbase hnext granted, room_admitNext hroom,
          fun n e hcarries source hs hu => ?_⟩
        obtain ⟨hkept, hpoint⟩ := h n e hcarries source hs hu.of_append.1
        obtain rfl : granted = true := hu.of_append.2
        exact ⟨hkept.append (fun _ hx => nomatch hx), collects_admitNext hpoint⟩
    spawned := by
      rintro input frame point index step body childInput next log ⟨hbase, hroom, h⟩ hnext
      cases groupNext_asks hnext with
      | @spawn s _ window _ _ _ hchild =>
        refine ⟨base.spawned hbase hnext, hroom, fun n e hcarries source hs hu => ?_⟩
        obtain ⟨hkept, hpoint⟩ := h n e hcarries source hs hu.of_append.1
        refine ⟨hkept.append (fun _ hx => nomatch hx), ?_⟩
        cases e <;> exact hpoint
    joined := by
      rintro input frame point active next log ⟨hbase, hroom, h⟩ hnext index hmem result cancelled
      cases groupNext_asks hnext with
      | @join s hactive =>
        have hroom : s.active.length + 0 ≤ concurrency := hroom
        refine ⟨base.joined hbase hnext index hmem result cancelled, room_join hroom,
          fun n e hcarries source hs hu => ?_⟩
        obtain ⟨hkept, hpoint⟩ := h n e hcarries source hs hu.of_append.1
        refine ⟨hkept.append (fun _ hx => nomatch hx),
          collects_join hpoint hmem hu.of_append.2 fun he f b a hstop => ?_⟩
        obtain ⟨n', e', hcarries', hlog, -⟩ := hbase
        obtain ⟨-, rfl⟩ := hcarries.unique hcarries'
        rw [he] at hlog
        nomatch (hlog.marker f b a hstop).1
    stopped := by
      rintro input frame point f next log before after ⟨hbase, hroom, h⟩ hnext hupdate
      cases groupNext_asks hnext with
      | @stop s resumption hstopped =>
        refine ⟨base.stopped hbase hnext hupdate, room_proceed hroom,
          fun m e' hcarries' source hs hu => ?_⟩
        obtain ⟨n, e, hcarries, -, m', e'', hsaved, -, hkeep, hresumes⟩ := hbase
        obtain ⟨rfl, rfl⟩ := hsaved.unique hcarries'
        obtain ⟨hkept, hpoint⟩ := h n e hcarries source hs hu.of_append.1
        obtain ⟨hpoint, hreason⟩ := collects_proceed hresumes hkeep hpoint hkept.2
        have hold := hkept.append (x := .stopped s.frame before after) (fun _ hx => nomatch hx)
        exact ⟨⟨hold.1, hreason⟩, hpoint⟩
    surveyed := by
      rintro input frame point next log ⟨hbase, hroom, h⟩ hnext unresolved cancelled
      cases groupNext_asks hnext with
      | @survey s hactive =>
        refine ⟨base.surveyed hbase hnext unresolved cancelled, trivial,
          fun n e hcarries source hs hu => ?_⟩
        obtain ⟨hkept, hpoint⟩ := h n e hcarries source hs hu.of_append.1
        obtain ⟨rfl, rfl⟩ := hu.of_append.2
        refine ⟨hkept.append (fun _ hx => nomatch hx), ?_⟩
        have hresult := collects_conclude hpos hpoint hactive hkept.2
        cases e <;> exact hresult }

end

/-- **Collected groups.** In a history of a parallel or foreach node that collects, with any
children, results and positive concurrency, and over any order of completion and any
resumption, no more children are active at any moment than the group allows; and, while
nothing disturbs it, the group returns nothing but the outcome of its children's results. -/
theorem group_order {instruction : PreparedInstruction} {construct : Construct GroupPoint}
    {limits : Limits} {concurrency : Nat} {logical key : String} {h : NodeHistory GroupPoint}
    (hg : groupOf limits instruction = some construct)
    (hmode : groupMode instruction = some (concurrency, .collect)) (hpos : 0 < concurrency)
    (hr : construct.Reaches limits logical key h) :
    (∀ input point, h.stage = .at input point → point.active.length ≤ concurrency) ∧
      ∀ r, Undisturbed r h.log → ∀ input, .began input ∈ h.log →
        ∀ source, groupSource limits input instruction = .ok source →
          ∀ result, .returned result ∈ h.log → result = groupOutcome limits source r := by
  -- both kinds of group are one construct, over children from different places
  have hhistory : ∀ {initial sourceOf} (children : Value → Except ForgeError GroupSource)
      (hinitial : ∀ {input frame}, initial input = .ok frame → Carries frame 0 none)
      (hsource : ∀ {input frame source}, sourceOf input frame = .ok source →
        children input = .ok source),
      (groupConstruct concurrency .collect limits initial sourceOf).Reaches limits logical key h →
      (∀ input point, h.stage = .at input point → point.active.length ≤ concurrency) ∧
        ∀ r, Undisturbed r h.log → ∀ input, .began input ∈ h.log →
          ∀ source, children input = .ok source →
            ∀ result, .returned result ∈ h.log → result = groupOutcome limits source r := by
    intro initial sourceOf children hinitial hsource hr
    have hholds := fun r => (orderInvariant concurrency limits r sourceOf hpos children hinitial
      hsource key).reaches hr
    refine ⟨fun input point hstage => ?_, fun r hu input hbegan source hs => ?_⟩
    -- the invariant bounds the slots in every state of its history
    · obtain ⟨_, _, -, -, -, -, ⟨-, hroom, -⟩, -⟩ := (hholds fun _ => .ok .null).at hstage
      exact room_active hroom
    · have hholds := hholds r
      unfold Construct.Invariant.Holds at hholds
      split at hholds
      -- a group that has not begun has logged no input
      · rw [hholds.1] at hbegan
        nomatch hbegan
      · obtain ⟨input', frame, -, ⟨⟨⟨n, e, hcarries, -⟩, hkept⟩, hbegins⟩, -⟩ := hholds
        obtain rfl := hbegins input hbegan
        exact (hkept n e hcarries source hs hu).1
  cases instruction with
  | parallel branches n errors =>
    obtain ⟨rfl, rfl⟩ := Prod.mk.inj (Option.some.inj hmode)
    obtain rfl := Option.some.inj hg
    -- branches are in the plan
    refine hhistory (fun input => .ok (.parallel branches input)) ?_ ?_ hr
    · intro input frame h
      obtain rfl := Except.ok.inj h
      rfl
    · intro input frame source h
      cases frame with
      | parallel branches' n' stopped error =>
        obtain rfl := Except.ok.inj h
        rfl
      | _ => simp at h
  | «foreach» items body n errors =>
    obtain ⟨rfl, rfl⟩ := Prod.mk.inj (Option.some.inj hmode)
    obtain rfl := Option.some.inj hg
    -- items are read off the input, the same each time
    refine hhistory
      (fun input => (foreachItems limits items input).map fun values => .foreach values input body)
      ?_ ?_ hr
    · intro input frame h
      obtain ⟨values, -, h⟩ := bind_eq_ok.mp h
      obtain ⟨-, -, h⟩ := bind_eq_ok.mp h
      obtain rfl := Except.ok.inj h
      rfl
    · intro input frame source h
      cases hitems : foreachItems limits items input with
      | error e => cases frame <;> simp [hitems, Except.map] at h
      | ok values =>
        cases frame <;> simp_all [Except.map]
  | _ => nomatch hg

/-! ## A small group -/

/-- A group of two children that run together and are collected. -/
def sampleCollecting : Construct GroupPoint :=
  parallelConstruct 2 .collect {} [("a", ⟨[], .literal .null⟩), ("b", ⟨[], .literal .null⟩)]

/-- The children return different values. -/
def sampleResult (index : Nat) : Except ForgeError Value :=
  .ok (.bool (index = 0))

def sampleOutcome : Value :=
  .object [("a", .object [("output", .bool true), ("status", .string "succeeded")]),
    ("b", .object [("output", .bool false), ("status", .string "succeeded")])]

def samplePair (next : Nat) : ControlFrame :=
  .parallel ["a", "b"] next false none

def samplePairNode (next : Nat) : InvocationRecord :=
  controlRecord "i" .running .null (samplePair next)

/-- The variables of a worker that has admitted so many of the two children. -/
def samplePairWorker (next : Nat) : GroupState :=
  .resume (.parallel [("a", ⟨[], .literal .null⟩), ("b", ⟨[], .literal .null⟩)] .null)
    (samplePair next) next false none

/-- Both children are admitted; the second one returns first, and the worker crashes. -/
def samplePairInterrupted : List Occurrence :=
  [.began .null, .permitted true, .saved (samplePair 1),
    .spawned 0 (.branches "a") ⟨[], .literal .null⟩ .null, .permitted true,
    .saved (samplePair 2), .spawned 1 (.branches "b") ⟨[], .literal .null⟩ .null,
    .joined 1 (.ok (.bool false)) false]

/-- The next worker enters both again, and they return in the reverse order. -/
def sampleCollected : List Occurrence :=
  samplePairInterrupted ++ [.began .null, .permitted true, .saved (samplePair 2),
    .spawned 0 (.branches "a") ⟨[], .literal .null⟩ .null, .permitted true,
    .saved (samplePair 2), .spawned 1 (.branches "b") ⟨[], .literal .null⟩ .null,
    .joined 1 (.ok (.bool false)) false, .joined 0 (.ok (.bool true)) false,
    .surveyed false false, .returned (.ok sampleOutcome)]

theorem sampleCollecting_entry (next : Nat) :
    sampleCollecting.entry .null (samplePair next) =
      .at .null (.admitting (samplePairWorker next) [0, 1]) := rfl

theorem sampleCollecting_interrupted :
    sampleCollecting.Reaches {} "i" "/nodes/a"
      ⟨some (samplePairNode 2), .idle, samplePairInterrupted⟩ := by
  have hlive : planNode none false false = .ok .execute := rfl
  have hframe : sampleCollecting.initial .null = .ok (samplePair 0) := rfl
  have hactivate : Commits {} true (activate "i" .null (samplePair 0)) none
      (samplePairNode 0) := Construct.commits_of_sampleRun (by decide +kernel)
  have hfirst : Commits {} true (updateFrame (samplePair 1)) (some (samplePairNode 0))
      (samplePairNode 1) := Construct.commits_of_sampleRun (by decide +kernel)
  have hsecond : Commits {} true (updateFrame (samplePair 2)) (some (samplePairNode 1))
      (samplePairNode 2) := Construct.commits_of_sampleRun (by decide +kernel)
  have h := Relation.ReflTransGen.refl (r := sampleCollecting.Step {} "i" "/nodes/a") (a := {})
  have h := h.tail (.begun rfl hlive (fun _ hr => by cases hr) hframe)
  have h := h.tail (.activated rfl hactivate)
  have h := h.tail (@Construct.Step.permitted _ sampleCollecting _ _ _ _ _ _ _ true
    (sampleCollecting_entry 0) rfl)
  have h := h.tail (.saved rfl rfl hfirst)
  have h := h.tail (.spawned rfl rfl)
  have h := h.tail (@Construct.Step.permitted _ sampleCollecting _ _ _ _ _ _ _ true rfl rfl)
  have h := h.tail (.saved rfl rfl hsecond)
  have h := h.tail (.spawned rfl rfl)
  have h := h.tail (@Construct.Step.joined _ sampleCollecting _ _ _ _ _ _ _ _ 1
    (.ok (.bool false)) false rfl rfl (List.mem_cons_self ..))
  exact h.tail (.dropped _)

/-- The variables of the worker while both children run. -/
def samplePairBoth : GroupState :=
  { samplePairWorker 2 with next := 2, active := [1, 0] }

/-- The variables once a child has returned a value, within the budget. -/
def GroupState.returned (s : GroupState) (index : Nat) (output : Value) : GroupState :=
  { s with
    active := s.active.erase index
    bytes := s.bytes + (s.source.succeeded index output).bytes
      + (s.source.label index).utf8ByteSize + 4
    results := s.results.set index (some (s.source.succeeded index output)) }

theorem sampleCollecting_joins {s : GroupState} {index : Nat} {output : Value}
    (h : (s.returned index output).bytes ≤ ({} : Limits).valueBytes) :
    s.join 2 .collect {} index (.ok output) false = (s.returned index output).round 2 :=
  if_neg (Nat.not_lt.mpr h)

theorem sampleCollecting_reaches :
    sampleCollecting.Reaches {} "i" "/nodes/a"
      ⟨some (samplePairNode 2), .recording .null (.ok sampleOutcome), sampleCollected⟩ := by
  have hagain : planNode (some (samplePairNode 2)) false false = .ok .execute := rfl
  have hinput : ∀ r, some (samplePairNode 2) = some r → Value.null = r.input := by
    rintro _ ⟨⟩
    rfl
  -- the cursor is where it was, so the progress that is saved again is the same
  have hkeep : Commits {} true (updateFrame (samplePair 2)) (some (samplePairNode 2))
      (samplePairNode 2) := Construct.commits_of_sampleRun (by decide +kernel)
  have h := sampleCollecting_interrupted.tail (.begun rfl hagain hinput rfl)
  have h := h.tail (.resumed rfl rfl)
  have h := h.tail (@Construct.Step.permitted _ sampleCollecting _ _ _ _ _ _ _ true
    (sampleCollecting_entry 2) rfl)
  have h := h.tail (.saved rfl rfl hkeep)
  have h := h.tail (.spawned rfl rfl)
  have h := h.tail (@Construct.Step.permitted _ sampleCollecting _ _ _ _ _ _ _ true rfl rfl)
  have h := h.tail (.saved rfl rfl hkeep)
  have h := h.tail (.spawned rfl rfl)
  have h := h.tail (@Construct.Step.joined _ sampleCollecting _ _ _ _ .null
    (.admitting samplePairBoth []) _ _ 1 (.ok (.bool false)) false rfl rfl
    (List.mem_cons_self ..))
  rw [sampleCollecting_joins (by decide +kernel)] at h
  have h := h.tail (@Construct.Step.joined _ sampleCollecting _ _ _ _ .null
    (.admitting (samplePairBoth.returned 1 (.bool false)) []) _ _ 0 (.ok (.bool true)) false rfl
    rfl (List.mem_singleton_self 0))
  rw [sampleCollecting_joins (by decide +kernel)] at h
  have h := h.tail (@Construct.Step.surveyed _ sampleCollecting _ _ _ _ .null
    (.admitting ((samplePairBoth.returned 1 (.bool false)).returned 0 (.bool true)) []) _ false
    false rfl rfl)
  exact h.tail (.returned rfl rfl)

/-- What the children of the group do is fair after any log. -/
theorem sampleFair (pre : List Occurrence) :
    Fair sampleResult pre (.joined 0 (.ok (.bool true)) false) ∧
      Fair sampleResult pre (.joined 1 (.ok (.bool false)) false) := by
  constructor
  · exact ⟨rfl, .ok (.bool true), rfl, fun _ he => (by cases he), fun _ => rfl⟩
  · exact ⟨rfl, .ok (.bool false), rfl, fun _ he => (by cases he), fun _ => rfl⟩

theorem sampleCollected_undisturbed : Undisturbed sampleResult sampleCollected := by
  intro pre x post hlog
  have hmem : x ∈ sampleCollected := by simp [hlog]
  simp only [sampleCollected, samplePairInterrupted, List.cons_append, List.nil_append,
    List.mem_cons, List.not_mem_nil, or_false] at hmem
  rcases hmem with rfl | rfl | rfl | rfl | rfl | rfl | rfl | rfl | rfl | rfl | rfl | rfl | rfl |
    rfl | rfl | rfl | rfl | rfl | rfl
  all_goals first
    | trivial
    | exact rfl
    | exact ⟨rfl, rfl⟩
    | exact (sampleFair pre).1
    | exact (sampleFair pre).2

/-- The children finish in the reverse order, before the crash and after it; the outcome is in
source order. -/
theorem group_order_sample :
    groupOutcome {} (.parallel [("a", ⟨[], .literal .null⟩), ("b", ⟨[], .literal .null⟩)] .null)
      sampleResult = .ok sampleOutcome :=
  ((@group_order
    (.parallel [("a", ⟨[], .literal .null⟩), ("b", ⟨[], .literal .null⟩)] 2 .collect)
    sampleCollecting _ 2 _ _ _ rfl rfl (by decide) sampleCollecting_reaches).2 _
    sampleCollected_undisturbed .null (by simp [sampleCollected, samplePairInterrupted]) _ rfl _
    (by simp [sampleCollected])).symm

end WorkflowForge.Engine
