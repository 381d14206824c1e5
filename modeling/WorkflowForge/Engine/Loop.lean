import WorkflowForge.Engine.Construct

/-!
# Loops

A loop carries a state from iteration to iteration while its condition holds, up to a declared
limit. The counter and the state are saved after each iteration, and read back by the worker
that goes on after an interruption.

## Main results

- `loop_folds`: in every history, the iterations that were entered are those below the limit
  whose condition held, in order, each with the state the previous one produced; what was saved
  is never run again; and the loop returns what its condition and its limit say.
-/

namespace WorkflowForge.Engine

open Lib

/-! ## The construct -/

def iterationLimit : ForgeError :=
  .new "control.iteration_limit" "Loop reached its declared limit"

/-- What the condition and the body of an iteration read. -/
def loopInput (state : Value) (iteration : Nat) : Value :=
  .object [("iteration", .number (.posInt iteration)), ("state", state)]

inductive LoopPoint where
  | top (iteration : Nat) (state : Value)
  /-- The scope is live. -/
  | decide (iteration : Nat) (state : Value)
  /-- The body of an iteration has returned. -/
  | after (iteration : Nat) (result : Except StepError Value)

section

variable (condition : Binding) (body : PreparedBody) (maxIterations : Nat)
  (onLimit : LoopLimit) (limits : Limits)

/-- The result of a loop that does not enter an iteration. The condition is evaluated first,
also at the limit. -/
def loopResult (iteration : Nat) (state : Value) : Option (Except StepError Value) :=
  match boolean condition (loopInput state iteration) limits with
  | .error e => some (.error (.execution e))
  | .ok false => some (.ok state)
  | .ok true =>
    if maxIterations ≤ iteration then
      some (if onLimit = .returnLast then .ok state else .error (.execution iterationLimit))
    else none

/-- `run_control` of a loop. -/
def loopConstruct : Construct LoopPoint where
  initial input := .ok (.loop 0 input)
  start _ frame :=
    match frame with
    | .loop iteration state => .ok (.top iteration state)
    | _ => .error (.infrastructure planMismatch)
  next _ point :=
    match point with
    | .top iteration state => .check (.decide iteration state)
    | .decide iteration state =>
      match loopResult condition maxIterations onLimit limits iteration state with
      | some result => .finish result
      | none =>
        .enter (.iterations iteration) body (loopInput state iteration) (.after iteration)
    | .after _ (.error e) => .finish (.error e)
    | .after iteration (.ok state) =>
      .save (.loop (iteration + 1) state) transitionError (.top (iteration + 1) state)

end

/-! ## What a history folded -/

/-- The states a loop went through, the first one its input, and what its history says of
them. -/
structure Folds (condition : Binding) (body : PreparedBody) (maxIterations : Nat)
    (onLimit : LoopLimit) (limits : Limits) (input : Value) (states : List Value)
    (log : List Occurrence) : Prop where
  first : states[0]? = some input
  /-- An iteration was left behind only if its condition held, below the limit. -/
  held : ∀ i state, states[i]? = some state → i + 1 < states.length →
    loopResult condition maxIterations onLimit limits i state = none
  /-- So was every iteration that was entered, and its body received its state. -/
  entered : ∀ step b v, .entered step b v ∈ log → ∃ i state, step = .iterations i ∧
    b = body ∧ states[i]? = some state ∧ v = loopInput state i ∧
    loopResult condition maxIterations onLimit limits i state = none
  /-- Each state is what the body of the iteration before returned. -/
  produced : ∀ i state, states[i + 1]? = some state →
    (∃ b v, .entered (.iterations i) b v ∈ log) ∧ .left (.iterations i) (.ok state) ∈ log
  /-- When a counter is saved, the iterations below it have completed, and they are not entered
  again. -/
  saved : ∀ pre frame post, log = pre ++ .saved frame :: post →
    ∃ i state, frame = .loop (i + 1) state ∧ states[i + 1]? = some state ∧
      (∀ j v, j ≤ i → states[j + 1]? = some v → .left (.iterations j) (.ok v) ∈ pre) ∧
      ∀ j b v, .entered (.iterations j) b v ∈ post → i < j
  /-- The loop returns what its condition and its limit say of a state, the error of an
  iteration, or that its scope has ended. -/
  returned : ∀ result, .returned result ∈ log → ∃ i state, states[i]? = some state ∧
    (loopResult condition maxIterations onLimit limits i state = some result ∨
      (∃ e, result = .error e ∧ .left (.iterations i) (.error e) ∈ log) ∨
      result = .error (.execution scopeCancelled) ∨ result = .error (.execution deadlineReached))

section

variable {condition : Binding} {body : PreparedBody} {maxIterations : Nat}
  {onLimit : LoopLimit} {limits : Limits}

/-- The loop goes on exactly while its condition holds below the limit. -/
theorem loopResult_eq_none {i : Nat} {state : Value} :
    loopResult condition maxIterations onLimit limits i state = none ↔
      boolean condition (loopInput state i) limits = .ok true ∧ i < maxIterations := by
  unfold loopResult
  split
  next e he => simp [he]
  next hb => simp [hb]
  next hb =>
    simp only [hb, true_and]
    split
    next hi => simpa using hi
    next hi => simpa using hi

namespace Folds

variable {input : Value} {states : List Value} {log : List Occurrence}

theorem nil (input : Value) :
    Folds condition body maxIterations onLimit limits input [input] [] where
  first := rfl
  held i state _ hi := by simp at hi
  entered _ _ _ h := by simp at h
  produced i state h := by simp at h
  saved pre frame post h := by simp at h
  returned _ h := by simp at h

/-- The clauses about the states are kept by every longer history. -/
theorem append {e : Occurrence}
    (h : Folds condition body maxIterations onLimit limits input states log)
    (hentered : ∀ step b v, e = .entered step b v → ∃ i state, step = .iterations i ∧ b = body ∧
      i + 1 = states.length ∧ states[i]? = some state ∧ v = loopInput state i ∧
      loopResult condition maxIterations onLimit limits i state = none)
    (hsaved : ∀ frame, e ≠ .saved frame)
    (hreturned : ∀ result, e = .returned result → ∃ i state, states[i]? = some state ∧
      (loopResult condition maxIterations onLimit limits i state = some result ∨
        (∃ e, result = .error e ∧ .left (.iterations i) (.error e) ∈ log) ∨
        result = .error (.execution scopeCancelled) ∨
        result = .error (.execution deadlineReached))) :
    Folds condition body maxIterations onLimit limits input states (log ++ [e]) where
  first := h.first
  held := h.held
  entered step b v hmem := by
    rcases List.mem_append.mp hmem with hmem | hmem
    · exact h.entered step b v hmem
    · obtain ⟨i, state, hstep, hb, -, hrest⟩ :=
        hentered step b v (List.mem_singleton.mp hmem).symm
      exact ⟨i, state, hstep, hb, hrest⟩
  produced i state hi := by
    obtain ⟨⟨b, v, hv⟩, hleft⟩ := h.produced i state hi
    exact ⟨⟨b, v, List.mem_append_left _ hv⟩, List.mem_append_left _ hleft⟩
  saved pre frame post hlog := by
    obtain ⟨-, he, -⟩ | ⟨post', rfl, hpre⟩ := snoc_eq_append_cons hlog
    · exact absurd he (hsaved frame)
    obtain ⟨i, state, hframe, hstate, hbelow, habove⟩ := h.saved pre frame post' hpre
    refine ⟨i, state, hframe, hstate, hbelow, fun j b v hmem => ?_⟩
    rcases List.mem_append.mp hmem with hmem | hmem
    · exact habove j b v hmem
    -- only the last state is run, and it is past every saved counter
    obtain ⟨k, -, hk, -, hlast, -⟩ := hentered _ b v (List.mem_singleton.mp hmem).symm
    obtain rfl : j = k := by simpa using hk
    have hi := (List.getElem?_eq_some_iff.mp hstate).1
    omega
  returned result hmem := by
    rcases List.mem_append.mp hmem with hmem | hmem
    · obtain ⟨i, state, hstate, hr⟩ := h.returned result hmem
      refine ⟨i, state, hstate, hr.imp_right (Or.imp_left ?_)⟩
      rintro ⟨e, he, hleft⟩
      exact ⟨e, he, List.mem_append_left _ hleft⟩
    · obtain ⟨i, state, hstate, hr⟩ := hreturned result (List.mem_singleton.mp hmem).symm
      refine ⟨i, state, hstate, hr.imp_right (Or.imp_left ?_)⟩
      rintro ⟨e, he, hleft⟩
      exact ⟨e, he, List.mem_append_left _ hleft⟩

/-- An occurrence that the clauses do not speak of. -/
theorem quiet {e : Occurrence}
    (h : Folds condition body maxIterations onLimit limits input states log)
    (hentered : ∀ step b v, e ≠ .entered step b v) (hsaved : ∀ frame, e ≠ .saved frame)
    (hreturned : ∀ result, e ≠ .returned result) :
    Folds condition body maxIterations onLimit limits input states (log ++ [e]) :=
  h.append (fun _ _ _ he => absurd he (hentered _ _ _)) hsaved
    (fun _ he => absurd he (hreturned _))

/-- The result of the last state's iteration is saved. -/
theorem save {before : List Value} {state next : Value}
    (h : Folds condition body maxIterations onLimit limits input (before ++ [state]) log)
    (hheld : loopResult condition maxIterations onLimit limits before.length state = none)
    (hentered : ∃ b v, .entered (.iterations before.length) b v ∈ log)
    (hleft : .left (.iterations before.length) (.ok next) ∈ log) :
    Folds condition body maxIterations onLimit limits input (before ++ [state] ++ [next])
      (log ++ [.saved (.loop (before.length + 1) next)]) := by
  -- a state of before is still there, and the new one is the last
  have hold : ∀ {i s}, (before ++ [state])[i]? = some s →
      (before ++ [state] ++ [next])[i]? = some s :=
    fun hi => (List.getElem?_append_left (List.getElem?_eq_some_iff.mp hi).1).trans hi
  have hcases : ∀ {i s}, (before ++ [state] ++ [next])[i]? = some s →
      (before ++ [state])[i]? = some s ∨ i = before.length + 1 ∧ s = next := by
    intro i s hi
    rcases Nat.lt_or_ge i (before ++ [state]).length with hlt | hge
    · exact .inl ((List.getElem?_append_left hlt).symm.trans hi)
    · rw [List.getElem?_append_right hge, List.getElem?_singleton] at hi
      split at hi
      next hz =>
        simp only [List.length_append, List.length_singleton] at hge hz
        exact .inr ⟨by omega, by simpa using hi.symm⟩
      · nomatch hi
  have hproduced : ∀ i s, (before ++ [state] ++ [next])[i + 1]? = some s →
      (∃ b v, .entered (.iterations i) b v ∈ log) ∧ .left (.iterations i) (.ok s) ∈ log := by
    intro i s hi
    rcases hcases hi with hi | ⟨hi, rfl⟩
    · exact h.produced i s hi
    · obtain rfl : i = before.length := by omega
      exact ⟨hentered, hleft⟩
  refine ⟨hold h.first, ?_, ?_, ?_, ?_, ?_⟩
  · intro i s hi hlt
    rcases hcases hi with hi | ⟨hi, rfl⟩
    · by_cases hlast : i + 1 < (before ++ [state]).length
      · exact h.held i s hi hlast
      · simp only [List.length_append, List.length_singleton] at hlt hlast
        obtain rfl : i = before.length := by omega
        obtain rfl : state = s := by simpa using hi
        exact hheld
    · simp only [List.length_append, List.length_singleton] at hlt
      omega
  · intro step b v hmem
    obtain ⟨i, s, hstep, hb, hs, hrest⟩ := h.entered step b v (by simpa using hmem)
    exact ⟨i, s, hstep, hb, hold hs, hrest⟩
  · intro i s hi
    obtain ⟨⟨b, v, hv⟩, hl⟩ := hproduced i s hi
    exact ⟨⟨b, v, List.mem_append_left _ hv⟩, List.mem_append_left _ hl⟩
  · intro pre frame post hlog
    obtain ⟨rfl, he, rfl⟩ | ⟨post', rfl, hpre⟩ := snoc_eq_append_cons hlog
    · refine ⟨before.length, next, by simpa using he.symm, by simp, ?_, by simp⟩
      exact fun j v _ hj => (hproduced j v hj).2
    · obtain ⟨i, s, hframe, hs, hbelow, habove⟩ := h.saved pre frame post' hpre
      have hi := (List.getElem?_eq_some_iff.mp hs).1
      refine ⟨i, s, hframe, hold hs, fun j v hj hv => hbelow j v hj ?_, fun j b v hmem => ?_⟩
      · rcases hcases hv with hv | ⟨hj', -⟩
        · exact hv
        · simp only [List.length_append, List.length_singleton] at hi
          omega
      · exact habove j b v (by simpa using hmem)
  · intro result hmem
    obtain ⟨i, s, hs, hr⟩ := h.returned result (by simpa using hmem)
    refine ⟨i, s, hold hs, hr.imp_right (Or.imp_left ?_)⟩
    rintro ⟨e, he, hl⟩
    exact ⟨e, he, List.mem_append_left _ hl⟩

end Folds

/-! ## The invariant -/

/-- What a worker at a point of the loop adds to its history. -/
def LoopPoint.Fits (condition : Binding) (maxIterations : Nat) (onLimit : LoopLimit)
    (limits : Limits) (before : List Value) (state : Value) (log : List Occurrence) :
    LoopPoint → Prop
  | .top i s | .decide i s => i = before.length ∧ s = state
  | .after i result => i = before.length ∧
    loopResult condition maxIterations onLimit limits i state = none ∧
    (∃ b v, .entered (.iterations i) b v ∈ log) ∧ .left (.iterations i) result ∈ log

theorem loop_not_group {input : Value} {point : LoopPoint} {ask : Ask LoopPoint}
    (h : (loopConstruct condition body maxIterations onLimit limits).next input point = ask) :
    ask.forGroup = false := by
  subst h
  cases point with
  | top => rfl
  | decide i s =>
    simp only [loopConstruct]
    split <;> rfl
  | after i r => cases r <;> rfl

variable (condition body maxIterations onLimit limits) in
/-- The saved counter is the number of states that were left behind. -/
def loopInvariant (key : String) :
    (loopConstruct condition body maxIterations onLimit limits).Invariant limits key where
  saved input frame log := ∃ before state, frame = .loop before.length state ∧
    Folds condition body maxIterations onLimit limits input (before ++ [state]) log
  live input frame point log := ∃ before state, frame = .loop before.length state ∧
    Folds condition body maxIterations onLimit limits input (before ++ [state]) log ∧
    point.Fits condition maxIterations onLimit limits before state log
  live_saved := by
    rintro input frame point log ⟨before, state, hframe, hfolds, -⟩
    exact ⟨before, state, hframe, hfolds⟩
  initial := by
    intro input frame h
    obtain rfl : .loop 0 input = frame := by simpa [loopConstruct] using h
    exact ⟨[], input, rfl, .nil input⟩
  began := by
    rintro input frame log ⟨before, state, hframe, hfolds⟩
    exact ⟨before, state, hframe, hfolds.quiet (fun _ _ _ he => nomatch he)
      (fun _ he => nomatch he) (fun _ he => nomatch he)⟩
  start := by
    rintro input frame point log ⟨before, state, rfl, hfolds⟩ h
    obtain rfl : .top before.length state = point := by simpa [loopConstruct] using h
    refine ⟨before, state, rfl, hfolds.quiet (fun _ _ _ he => nomatch he)
      (fun _ he => nomatch he) (fun _ he => nomatch he), rfl, rfl⟩
  returned := by
    rintro input frame point log result ⟨before, state, rfl, hfolds, hpoint⟩ h
    refine ⟨before, state, rfl,
      hfolds.append (fun _ _ _ he => nomatch he) (fun _ he => nomatch he) ?_⟩
    rintro _ ⟨⟩
    refine ⟨before.length, state, by simp, ?_⟩
    cases point with
    | top => nomatch h
    | decide i s =>
      obtain ⟨rfl, rfl⟩ := hpoint
      simp only [loopConstruct] at h
      split at h
      next r hr => exact .inl (by rw [hr]; simpa using h)
      · nomatch h
    | after i r =>
      obtain ⟨rfl, -, -, hleft⟩ := hpoint
      cases r with
      | error e => exact .inr (.inl ⟨e, by simpa [loopConstruct] using h.symm, hleft⟩)
      | ok => nomatch h
  barred := by
    rintro input frame point next log cancelled expired e ⟨before, state, rfl, hfolds, -⟩ - hplan
    refine ⟨before, state, rfl,
      hfolds.append (fun _ _ _ he => nomatch he) (fun _ he => nomatch he) ?_⟩
    rintro _ ⟨⟩
    refine ⟨before.length, state, by simp, .inr (.inr ?_)⟩
    rcases planOpen_eq_error hplan with rfl | rfl
    · exact .inl rfl
    · exact .inr rfl
  refused := by
    rintro input frame point f refused next log ⟨before, state, rfl, hfolds, -⟩ - e
    exact ⟨before, state, rfl, hfolds.quiet (fun _ _ _ he => nomatch he) (fun _ he => nomatch he)
      (fun _ he => nomatch he)⟩
  checked := by
    rintro input frame point next log ⟨before, state, rfl, hfolds, hpoint⟩ h
    refine ⟨before, state, rfl, hfolds.quiet (fun _ _ _ he => nomatch he)
      (fun _ he => nomatch he) (fun _ he => nomatch he), ?_⟩
    cases point with
    | top i s =>
      obtain rfl : .decide i s = next := by simpa [loopConstruct] using h
      exact hpoint
    | decide i s =>
      simp only [loopConstruct] at h
      split at h <;> nomatch h
    | after i r => cases r <;> nomatch h
  entered := by
    rintro input frame point step body' childInput next log ⟨before, state, rfl, hfolds, hpoint⟩ h
    cases point with
    | top => nomatch h
    | after i r => cases r <;> nomatch h
    | decide i s =>
      obtain ⟨rfl, rfl⟩ := hpoint
      simp only [loopConstruct] at h
      split at h
      · nomatch h
      next hnone =>
        obtain ⟨rfl, rfl, rfl, rfl⟩ := Ask.enter.inj h
        have hlog : Folds condition body maxIterations onLimit limits input (before ++ [s])
            (log ++ [.entered (.iterations before.length) body (loopInput s before.length)]) := by
          refine hfolds.append ?_ (fun _ he => nomatch he) (fun _ he => nomatch he)
          rintro _ _ _ ⟨⟩
          exact ⟨before.length, s, rfl, rfl, by simp, by simp, rfl, hnone⟩
        refine ⟨⟨before, s, rfl, hlog⟩, fun result => ⟨before, s, rfl, ?_, rfl, hnone, ?_, ?_⟩⟩
        · exact hlog.quiet (fun _ _ _ he => nomatch he) (fun _ he => nomatch he)
            (fun _ he => nomatch he)
        · exact ⟨body, loopInput s before.length, by simp⟩
        · simp
  save := by
    rintro input frame point f refused next log ⟨before, state, rfl, hfolds, hpoint⟩ h
    cases point with
    | top => nomatch h
    | decide i s =>
      simp only [loopConstruct] at h
      split at h <;> nomatch h
    | after i r =>
      cases r with
      | error => nomatch h
      | ok v =>
        obtain ⟨rfl, hheld, hentered, hleft⟩ := hpoint
        obtain ⟨rfl, -, rfl⟩ := Ask.save.inj h
        refine ⟨before ++ [state], v, by simp, hfolds.save hheld hentered hleft, by simp, rfl⟩
  permitted _ h := nomatch loop_not_group h
  spawned _ h := nomatch loop_not_group h
  joined _ h := nomatch loop_not_group h
  stopped _ h := nomatch loop_not_group h
  surveyed _ h := nomatch loop_not_group h

/-- What the loop returns at a state, by its condition and its limit. -/
theorem loopResult_eq_some {i : Nat} {state : Value} {result : Except StepError Value}
    (h : loopResult condition maxIterations onLimit limits i state = some result) :
    (boolean condition (loopInput state i) limits = .ok false ∧ result = .ok state) ∨
      (boolean condition (loopInput state i) limits = .ok true ∧ maxIterations ≤ i ∧
        result = if onLimit = .returnLast then .ok state
          else .error (.execution iterationLimit)) ∨
      ∃ e, boolean condition (loopInput state i) limits = .error e ∧
        result = .error (.execution e) := by
  unfold loopResult at h
  split at h
  next e he => exact .inr (.inr ⟨e, he, (Option.some.inj h).symm⟩)
  next hb => exact .inl ⟨hb, (Option.some.inj h).symm⟩
  next hb =>
    split at h
    next hi => exact .inr (.inl ⟨hb, hi, (Option.some.inj h).symm⟩)
    · nomatch h

/-- **Loops.** In every history of a loop there are states, the first one the input of the
loop, such that the record carries the last one with its index; iteration `i` is entered only
with the state `i`, below the limit and while the condition holds, and never after a larger
counter was saved; each further state is what the body returned for the one before. Where the
condition or the limit ends the loop, the iterations that were ever entered are those below
the last state: the first one whose condition is false, or the one at the limit. -/
theorem loop_folds {logical key : String} {h : NodeHistory LoopPoint}
    (hr : (loopConstruct condition body maxIterations onLimit limits).Reaches limits logical
      key h) :
    ∃ input states, Folds condition body maxIterations onLimit limits input states h.log ∧
      (∀ i, .began i ∈ h.log → i = input) ∧
      (∀ r, h.record = some r → (Construct.Unsettled r → r.input = input) ∧
        ∃ i state, r.control = some (.loop i state) ∧ states[i]? = some state ∧
          i + 1 = states.length) ∧
      ∀ i state result, states[i]? = some state →
        loopResult condition maxIterations onLimit limits i state = some result →
        i + 1 = states.length ∧
        (∀ j v, j < i → states[j]? = some v →
          boolean condition (loopInput v j) limits = .ok true) ∧
        (∀ j, (∃ b v, .entered (.iterations j) b v ∈ h.log) ↔ j < i) ∧
        ((boolean condition (loopInput state i) limits = .ok false ∧ i ≤ maxIterations ∧
            result = .ok state) ∨
          (boolean condition (loopInput state i) limits = .ok true ∧ i = maxIterations ∧
            result = if onLimit = .returnLast then .ok state
              else .error (.execution iterationLimit)) ∨
          ∃ e, boolean condition (loopInput state i) limits = .error e ∧ i ≤ maxIterations ∧
            result = .error (.execution e)) := by
  have hholds := (loopInvariant condition body maxIterations onLimit limits key).reaches hr
  -- before its activation the loop has no history, and any input will do
  have hfolds : ∃ input before state,
      Folds condition body maxIterations onLimit limits input (before ++ [state]) h.log ∧
      (∀ i, .began i ∈ h.log → i = input) ∧
      ∀ r, h.record = some r → (Construct.Unsettled r → r.input = input) ∧
        r.control = some (.loop before.length state) := by
    unfold Construct.Invariant.Holds at hholds
    split at hholds
    next hnone =>
      rw [hholds.1]
      exact ⟨.null, [], .null, .nil .null, fun _ hmem => (nomatch hmem),
        fun r hr => nomatch hnone.symm.trans hr⟩
    next r hsome =>
      obtain ⟨input, frame, hcontrol, ⟨⟨before, state, rfl, hfolds⟩, hbegins⟩, hinput, -⟩ := hholds
      refine ⟨input, before, state, hfolds, hbegins, fun r' hr' => ?_⟩
      obtain rfl := Option.some.inj (hsome.symm.trans hr')
      exact ⟨hinput, hcontrol⟩
  obtain ⟨input, before, last, hfolds, hbegins, hrecord⟩ := hfolds
  refine ⟨input, before ++ [last], hfolds, hbegins, fun r hr => ?_,
    fun i state result hi hresult => ?_⟩
  · obtain ⟨hinput, hcontrol⟩ := hrecord r hr
    exact ⟨hinput, _, _, hcontrol, by simp, by simp⟩
  have hlt := (List.getElem?_eq_some_iff.mp hi).1
  -- a state that ends the loop is the last one
  have hlast : i + 1 = (before ++ [last]).length := by
    by_contra hne
    have hnone := hfolds.held i state hi (by omega)
    rw [hresult] at hnone
    nomatch hnone
  have hbelow : ∀ j, j < i → ∃ v, (before ++ [last])[j]? = some v ∧
      boolean condition (loopInput v j) limits = .ok true ∧ j < maxIterations := by
    intro j hj
    have hv := List.getElem?_eq_getElem (l := before ++ [last]) (show j < _ by omega)
    exact ⟨_, hv, loopResult_eq_none.mp (hfolds.held j _ hv (by omega))⟩
  have hle : i ≤ maxIterations := by
    cases i with
    | zero => exact Nat.zero_le _
    | succ i =>
      obtain ⟨-, -, -, hi'⟩ := hbelow i (Nat.lt_succ_self i)
      exact hi'
  refine ⟨hlast, fun j v hj hv => ?_, fun j => ⟨fun ⟨b, v, hmem⟩ => ?_, fun hj => ?_⟩, ?_⟩
  · obtain ⟨v', hv', hholds, -⟩ := hbelow j hj
    obtain rfl := Option.some.inj (hv.symm.trans hv')
    exact hholds
  · obtain ⟨k, s, hstep, -, hs, -, hnone⟩ := hfolds.entered _ b v hmem
    obtain rfl : j = k := by simpa using hstep
    have hj := (List.getElem?_eq_some_iff.mp hs).1
    rcases Nat.lt_or_ge j i with hji | hji
    · exact hji
    · obtain rfl : j = i := by omega
      obtain rfl := Option.some.inj (hs.symm.trans hi)
      rw [hresult] at hnone
      nomatch hnone
  · have hv := List.getElem?_eq_getElem (l := before ++ [last]) (show j + 1 < _ by omega)
    exact (hfolds.produced j _ hv).1
  · rcases loopResult_eq_some hresult with ⟨hb, he⟩ | ⟨hb, hge, he⟩ | ⟨e, hb, he⟩
    · exact .inl ⟨hb, hle, he⟩
    · exact .inr (.inl ⟨hb, by omega, he⟩)
    · exact .inr (.inr ⟨e, hb, hle, he⟩)

end

/-! ## A small loop -/

/-- A loop whose condition always holds, up to two iterations. -/
def sampleLoop (body : PreparedBody) : Construct LoopPoint :=
  loopConstruct (.literal (.bool true)) body 2 .returnLast {}

def sampleLoopNode (iteration : Nat) (state : Value) : InvocationRecord :=
  controlRecord "i" .running .null (.loop iteration state)

/-- Workers crash within the first iteration and within the second one. -/
def sampleIterations (body : PreparedBody) : List Occurrence :=
  [.began .null, .checked false false, .entered (.iterations 0) body (loopInput .null 0),
    .began .null, .checked false false, .entered (.iterations 0) body (loopInput .null 0),
    .left (.iterations 0) (.ok (.bool false)), .saved (.loop 1 (.bool false)),
    .checked false false, .entered (.iterations 1) body (loopInput (.bool false) 1)]

/-- The last worker goes on with the second iteration, up to the limit. -/
def sampleResumed (body : PreparedBody) : List Occurrence :=
  sampleIterations body ++ [.began .null, .checked false false,
    .entered (.iterations 1) body (loopInput (.bool false) 1),
    .left (.iterations 1) (.ok (.bool true)), .saved (.loop 2 (.bool true)),
    .checked false false, .returned (.ok (.bool true))]

section

variable (body : PreparedBody)

theorem sampleLoop_top (i : Nat) (state : Value) :
    (sampleLoop body).next .null (.top i state) = .check (.decide i state) := rfl

theorem sampleLoop_after (i : Nat) (state : Value) :
    (sampleLoop body).next .null (.after i (.ok state)) =
      .save (.loop (i + 1) state) transitionError (.top (i + 1) state) := rfl

/-- Both iterations have begun, and the worker is gone. -/
theorem sampleLoop_interrupted :
    (sampleLoop body).Reaches {} "i" "/nodes/a"
      ⟨some (sampleLoopNode 1 (.bool false)), .idle, sampleIterations body⟩ := by
  have hlive : planNode none false false = .ok .execute := rfl
  have hagain : planNode (some (sampleLoopNode 0 .null)) false false = .ok .execute := rfl
  have hframe : (sampleLoop body).initial .null = .ok (.loop 0 .null) := rfl
  have hinput : ∀ r, some (sampleLoopNode 0 .null) = some r → Value.null = r.input := by
    rintro _ ⟨⟩
    rfl
  have hfirst : (sampleLoop body).next .null (.decide 0 .null) =
      .enter (.iterations 0) body (loopInput .null 0) (.after 0) := rfl
  have hsecond : (sampleLoop body).next .null (.decide 1 (.bool false)) =
      .enter (.iterations 1) body (loopInput (.bool false) 1) (.after 1) := rfl
  have hactivate : Commits {} true (activate "i" .null (.loop 0 .null)) none
      (sampleLoopNode 0 .null) := Construct.commits_of_sampleRun (by decide +kernel)
  have hupdate : Commits {} true (updateFrame (.loop 1 (.bool false)))
      (some (sampleLoopNode 0 .null)) (sampleLoopNode 1 (.bool false)) :=
    Construct.commits_of_sampleRun (by decide +kernel)
  have h := Relation.ReflTransGen.refl (r := (sampleLoop body).Step {} "i" "/nodes/a") (a := {})
  have h := h.tail (.begun rfl hlive (fun _ hr => by cases hr) hframe)
  have h := h.tail (.activated rfl hactivate)
  have h := h.tail (.checked rfl (sampleLoop_top body 0 .null) hlive)
  have h := h.tail (.entered rfl hfirst)
  have h := h.tail (.dropped _)
  have h := h.tail (.begun rfl hagain hinput rfl)
  have h := h.tail (.resumed rfl rfl)
  have h := h.tail (.checked rfl (sampleLoop_top body 0 .null) hlive)
  have h := h.tail (.entered rfl hfirst)
  have h := h.tail (@Construct.Step.left _ (sampleLoop body) _ _ _ _ _ _ _ (.ok (.bool false)) rfl)
  have h := h.tail (.saved rfl (sampleLoop_after body 0 (.bool false)) hupdate)
  have h := h.tail (.checked rfl (sampleLoop_top body 1 (.bool false)) hlive)
  have h := h.tail (.entered rfl hsecond)
  exact h.tail (.dropped _)

theorem sampleLoop_reaches :
    (sampleLoop body).Reaches {} "i" "/nodes/a"
      ⟨some (sampleLoopNode 2 (.bool true)), .recording .null (.ok (.bool true)),
        sampleResumed body⟩ := by
  have hlive : planNode none false false = .ok .execute := rfl
  have hagain : planNode (some (sampleLoopNode 1 (.bool false))) false false = .ok .execute := rfl
  have hinput : ∀ r, some (sampleLoopNode 1 (.bool false)) = some r → Value.null = r.input := by
    rintro _ ⟨⟩
    rfl
  have hsecond : (sampleLoop body).next .null (.decide 1 (.bool false)) =
      .enter (.iterations 1) body (loopInput (.bool false) 1) (.after 1) := rfl
  have hend : (sampleLoop body).next .null (.decide 2 (.bool true)) =
      .finish (.ok (.bool true)) := rfl
  have hupdate : Commits {} true (updateFrame (.loop 2 (.bool true)))
      (some (sampleLoopNode 1 (.bool false))) (sampleLoopNode 2 (.bool true)) :=
    Construct.commits_of_sampleRun (by decide +kernel)
  have h := (sampleLoop_interrupted body).tail (.begun rfl hagain hinput rfl)
  have h := h.tail (.resumed rfl rfl)
  have h := h.tail (.checked rfl (sampleLoop_top body 1 (.bool false)) hlive)
  have h := h.tail (.entered rfl hsecond)
  have h := h.tail (@Construct.Step.left _ (sampleLoop body) _ _ _ _ _ _ _ (.ok (.bool true)) rfl)
  have h := h.tail (.saved rfl (sampleLoop_after body 1 (.bool true)) hupdate)
  have h := h.tail (.checked rfl (sampleLoop_top body 2 (.bool true)) hlive)
  exact h.tail (.returned rfl hend)

end

/-- Two iterations between two crashes: the states are folded in order, no iteration but these is
entered, and the limit returns the last state. -/
theorem loop_folds_sample :
    ∃ states, Folds (.literal (.bool true)) ⟨[], .literal .null⟩ 2 .returnLast {} .null states
        (sampleResumed ⟨[], .literal .null⟩) ∧
      states.length = 3 ∧ states[2]? = some (.bool true) ∧
      ∀ j, (∃ b v, .entered (.iterations j) b v ∈ sampleResumed ⟨[], .literal .null⟩) ↔ j < 2 := by
  obtain ⟨input, states, hfolds, hbegan, hrecord, hends⟩ :=
    loop_folds (sampleLoop_reaches ⟨[], .literal .null⟩)
  obtain rfl : Value.null = input := hbegan .null (by simp [sampleResumed, sampleIterations])
  obtain ⟨-, i, state, hcontrol, hstate, -⟩ := hrecord _ rfl
  obtain ⟨rfl, rfl⟩ := ControlFrame.loop.inj (Option.some.inj hcontrol)
  obtain ⟨hlength, -, hentered, -⟩ := hends 2 (.bool true) (.ok (.bool true)) hstate rfl
  exact ⟨states, hfolds, hlength.symm, hstate, hentered⟩

end WorkflowForge.Engine
