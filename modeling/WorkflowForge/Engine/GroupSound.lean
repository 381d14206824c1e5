import WorkflowForge.Engine.Sound

/-!
# Groups Do What Is Prescribed

The children of a group are those its input gives, under any limits they can be read under.
While the group has not failed, what it has collected is what the children returned, in any
order; a reason to stop that is saved is a result of the group.

## Main results

- `groupSound`: groups do what is prescribed.
- `exists_sound`: so does the construct of every control instruction.
-/

namespace WorkflowForge.Engine

open Lib Mapping

section

variable {root : PreparedBody} {given : Value} {answers : Answers} {place : Place}
  {node : PreparedNode} {input : Value}

/-! ## Children -/

/-- The items of a foreach node are the same under all limits they can be read under. -/
theorem foreachItems_unique {items : Binding} {limits limits' : Limits}
    {values values' : List Value}
    (h : foreachItems limits items input = .ok values)
    (h' : foreachItems limits' items input = .ok values') : values = values' := by
  obtain ⟨v, hv, h⟩ := bind_eq_ok.mp h
  obtain ⟨v', hv', h'⟩ := bind_eq_ok.mp h'
  obtain rfl := Binding.evaluate_unique hv hv'
  exact Except.ok.inj (h.symm.trans h')

theorem opened_foreach {items : Binding} {body : PreparedBody} {concurrency : Nat}
    {errors errors' : GroupErrors} {limits : Limits} {source : GroupSource}
    (h : opened limits input (.foreach items body concurrency errors) = .ok (source, errors')) :
    ∃ values, foreachItems limits items input = .ok values ∧
      source = .foreach values input body ∧ errors' = errors := by
  obtain ⟨values, hvalues, h⟩ := bind_eq_ok.mp h
  obtain ⟨_, -, h⟩ := bind_eq_ok.mp h
  obtain ⟨rfl, rfl⟩ := Prod.mk.inj (Except.ok.inj h)
  exact ⟨values, hvalues, rfl, rfl⟩

/-- The children of a group do not depend on the limits they were opened under. -/
theorem opened_unique {instruction : PreparedInstruction} {limits limits' : Limits}
    {source source' : GroupSource} {errors errors' : GroupErrors}
    (h : opened limits input instruction = .ok (source, errors))
    (h' : opened limits' input instruction = .ok (source', errors')) :
    source = source' ∧ errors = errors' := by
  cases instruction with
  | parallel branches concurrency mode =>
    obtain ⟨rfl, rfl⟩ := Prod.mk.inj (Except.ok.inj h)
    obtain ⟨rfl, rfl⟩ := Prod.mk.inj (Except.ok.inj h')
    exact ⟨rfl, rfl⟩
  | «foreach» items body concurrency mode =>
    obtain ⟨values, hvalues, rfl, rfl⟩ := opened_foreach h
    obtain ⟨values', hvalues', rfl, rfl⟩ := opened_foreach h'
    obtain rfl := foreachItems_unique hvalues hvalues'
    exact ⟨rfl, rfl⟩
  | operation | timer | awaitSignal | decision | loop | «try» | subworkflow => cases h

theorem GroupSource.index_lt {source : GroupSource} {index : Nat}
    {c : ScopeStep × PreparedBody × Value} (h : source.child index = some c) :
    index < source.length := by
  cases source with
  | parallel branches input =>
    obtain ⟨_, hbranch, -⟩ := Option.map_eq_some_iff.mp h
    exact (List.getElem?_eq_some_iff.mp hbranch).1
  | «foreach» items context body =>
    obtain ⟨_, hitem, -⟩ := Option.map_eq_some_iff.mp h
    exact (List.getElem?_eq_some_iff.mp hitem).1

theorem GroupSource.child_ne_try {source : GroupSource} {index : Nat} {body : PreparedBody}
    {bodyInput : Value} : source.child index ≠ some (.try, body, bodyInput) := by
  cases source with
  | parallel branches input => simp [GroupSource.child]
  | «foreach» items context body => simp [GroupSource.child]

/-- A child is told by the way it is entered. -/
theorem child_unique {instruction : PreparedInstruction} (hlabels : instruction.Labelled)
    {limits : Limits} {source : GroupSource} {errors : GroupErrors}
    (h : opened limits input instruction = .ok (source, errors)) {i j : Nat} {step : ScopeStep}
    {body body' : PreparedBody} {bodyInput bodyInput' : Value}
    (hi : source.child i = some (step, body, bodyInput))
    (hj : source.child j = some (step, body', bodyInput')) :
    body = body' ∧ bodyInput = bodyInput' := by
  cases instruction with
  | parallel branches concurrency mode =>
    obtain ⟨rfl, rfl⟩ := Prod.mk.inj (Except.ok.inj h)
    obtain ⟨⟨label, _⟩, hbranch, hi⟩ := Option.map_eq_some_iff.mp hi
    obtain ⟨⟨label', _⟩, hbranch', hj⟩ := Option.map_eq_some_iff.mp hj
    obtain ⟨rfl, rfl, rfl⟩ := by simpa using hi
    obtain ⟨rfl, rfl, rfl⟩ := by simpa using hj
    -- both have the same label, which stands at one place
    have hnames : (branches.map Prod.fst)[i]? = (branches.map Prod.fst)[j]? := by
      simp [List.getElem?_map, hbranch, hbranch']
    have hbound : i < (branches.map Prod.fst).length := by
      simpa using (List.getElem?_eq_some_iff.mp hbranch).1
    obtain rfl : i = j := (List.getElem?_inj hbound hlabels).mp hnames
    obtain ⟨-, rfl⟩ := Prod.mk.inj (Option.some.inj (hbranch.symm.trans hbranch'))
    exact ⟨rfl, rfl⟩
  | «foreach» items child concurrency mode =>
    obtain ⟨values, -, rfl, -⟩ := opened_foreach h
    obtain ⟨item, hitem, hi⟩ := Option.map_eq_some_iff.mp hi
    obtain ⟨item', hitem', hj⟩ := Option.map_eq_some_iff.mp hj
    obtain ⟨rfl, rfl, rfl⟩ := by simpa using hi
    obtain ⟨rfl, rfl, rfl⟩ := by simpa using hj
    obtain rfl := Option.some.inj (hitem.symm.trans hitem')
    exact ⟨rfl, rfl⟩
  | operation | timer | awaitSignal | decision | loop | «try» | subworkflow => cases h

/-- A saved frame of a group, whose reason to stop is a result of the group. -/
def Framed (root : PreparedBody) (given : Value) (answers : Answers) (place : Place)
    (node : PreparedNode) (input : Value) (frame : ControlFrame) : Prop :=
  ∃ cursor reason, saved frame = some (cursor, reason.isSome, reason) ∧
    ∀ error, reason = some error →
      Prescribes root given answers (.returned place node input (.error error))

theorem Framed.progress {frame : ControlFrame}
    (h : Framed root given answers place node input frame) (next : Nat) {stop : Option ForgeError}
    (hstop : ∀ error, stop = some error →
      Prescribes root given answers (.returned place node input (.error error))) :
    Framed root given answers place node input (progress frame next stop) := by
  obtain ⟨cursor, reason, hsaved, hreason⟩ := h
  refine ⟨_, _, saved_progress hsaved next stop, fun error herror => ?_⟩
  cases reason with
  | some first => exact hreason error herror
  | none => exact hstop error herror

/-- What the variables of a group mean, over its children. -/
structure GroupState.Gathers (root : PreparedBody) (given : Value) (answers : Answers)
    (place : Place) (node : PreparedNode) (input : Value) (source : GroupSource)
    (errors : GroupErrors) (s : GroupState) : Prop where
  source_eq : s.source = source
  active : ∀ index ∈ s.active, ∃ c, source.child index = some c
  length : s.results.length = s.total
  total : s.failed = none → s.total = source.length
  values : s.failed = none → ∀ index value, s.results[index]? = some (some value) →
    ∃ result, Member errors source index result value ∧
      ∀ step body bodyInput, source.child index = some (step, body, bodyInput) →
        Prescribes root given answers (.ended (node.inside place step) body bodyInput result)
  failed : ∀ failure, s.failed = some failure → Judged
    (fun result => Prescribes root given answers (.returned place node input result))
    (.error failure)

/-- What a group goes on with is prescribed, once its frame is saved. -/
def Resumption.Prescribed (root : PreparedBody) (given : Value) (answers : Answers)
    (place : Place) (node : PreparedNode) (input : Value) : Resumption → Prop
  | .failed _ error => Prescribes root given answers (.returned place node input (.error error))
  | _ => True

/-- What a point of a group means, over its saved frame. -/
def GroupPoint.Means (root : PreparedBody) (given : Value) (answers : Answers) (place : Place)
    (node : PreparedNode) (input : Value) (source : GroupSource) (errors : GroupErrors)
    (frame : ControlFrame) : GroupPoint → Prop
  | .admitting s _ | .starting s _ _ =>
    s.Gathers root given answers place node input source errors ∧ s.frame = frame
  | .saving s resumption => s.Gathers root given answers place node input source errors ∧
    Framed root given answers place node input s.frame ∧
    resumption.Prescribed root given answers place node input
  | .ended result => Judged
    (fun result => Prescribes root given answers (.returned place node input result)) result

section

variable {source : GroupSource} {errors : GroupErrors} {s : GroupState}
  {frame : ControlFrame} {concurrency : Nat} {limits : Limits}

/-- A group that fails for one more reason collects nothing more. -/
theorem GroupState.Gathers.fail {t : GroupState} {failure : StepError}
    (h : s.Gathers root given answers place node input source errors)
    (hsource : t.source = s.source) (hactive : t.active = s.active)
    (hresults : t.results.length = s.results.length) (htotal : t.total = s.total)
    (hfailed : t.failed = some failure)
    (hjudged : Judged
      (fun result => Prescribes root given answers (.returned place node input result))
      (.error failure)) :
    t.Gathers root given answers place node input source errors where
  source_eq := hsource.trans h.source_eq
  active := by
    rw [hactive]
    exact h.active
  length := by rw [hresults, htotal, h.length]
  total hnone := by simp [hfailed] at hnone
  values hnone := by simp [hfailed] at hnone
  failed other hother := by
    obtain rfl := Option.some.inj (hfailed.symm.trans hother)
    exact hjudged

/-- A stop is saved with a reason that the group may return. -/
theorem means_stop {reason : ForgeError} {resumption : Resumption}
    (h : s.Gathers root given answers place node input source errors)
    (hframed : Framed root given answers place node input s.frame)
    (hreason : Prescribes root given answers (.returned place node input (.error reason)))
    (hresumption : resumption.Prescribed root given answers place node input) :
    (s.stop reason resumption).Means root given answers place node input source errors frame := by
  refine ⟨⟨h.source_eq, h.active, h.length, h.total, h.values, h.failed⟩, ?_, hresumption⟩
  refine hframed.progress _ fun error herror => ?_
  obtain rfl := Option.some.inj herror
  exact hreason

/-- The data of a child is collected, or the group has failed. -/
theorem means_settle {index : Nat} {value : Value}
    (h : s.Gathers root given answers place node input source errors) (hframe : s.frame = frame)
    (hframed : Framed root given answers place node input frame)
    (hactive : Prescribes root given answers (.active place node input))
    (hvalue : s.failed = none → ∃ result, Member errors source index result value ∧
      ∀ step body bodyInput, source.child index = some (step, body, bodyInput) →
        Prescribes root given answers (.ended (node.inside place step) body bodyInput result)) :
    (s.settle concurrency limits index value).Means root given answers place node input source
      errors frame := by
  unfold GroupState.settle
  dsimp only
  split
  -- the results exceed their bytes
  · refine means_stop ⟨h.source_eq, h.active, h.length, h.total, h.values, h.failed⟩ ?_
      (.stops hactive (.inr (.inr (.inl rfl)))) trivial
    rw [hframe]
    exact hframed
  · refine ⟨⟨h.source_eq, h.active, ?_, h.total, fun hnone other stored hstored => ?_, h.failed⟩,
      hframe⟩
    · simpa using h.length
    · -- the new value, or one that was collected before
      by_cases heq : index = other
      · subst heq
        obtain ⟨_, hset⟩ := List.getElem?_eq_some_iff.mp hstored
        simp only [List.getElem_set_self, Option.some.injEq] at hset
        subst hset
        exact hvalue hnone
      · rw [List.getElem?_set_ne heq] at hstored
        exact h.values hnone other stored hstored

/-- A child has returned what is prescribed of it. -/
theorem means_join {index : Nat} {result : Except StepError Value} {cancelled : Bool}
    (h : s.Gathers root given answers place node input source errors) (hframe : s.frame = frame)
    (hframed : Framed root given answers place node input frame)
    (hactive : Prescribes root given answers (.active place node input))
    (hchild : ∀ step body bodyInput, source.child index = some (step, body, bodyInput) →
      Prescribes root given answers (.child place node input step body bodyInput) ∧
      Reading.Ended root given place node answers step body bodyInput result)
    (hindex : index ∈ s.active) :
    (s.join concurrency errors limits index result cancelled).Means root given answers place node
      input source errors frame := by
  -- the slot of the child is free before its result counts
  have hrest : ({ s with active := s.active.erase index } : GroupState).Gathers root given answers
      place node input source errors :=
    ⟨h.source_eq, fun i hi => h.active i (List.mem_of_mem_erase hi), h.length, h.total, h.values,
      h.failed⟩
  obtain ⟨⟨step, body, bodyInput⟩, hsome⟩ := h.active index hindex
  cases result with
  | ok output =>
    refine means_settle hrest hframe hframed hactive fun _ => ⟨.ok output, ?_, ?_⟩
    · rw [h.source_eq]
      exact .succeeded output
    · intro step body bodyInput hsome
      exact (hchild step body bodyInput hsome).2
  | error e =>
    cases e with
    -- a suspended child answers nothing yet
    | suspended =>
      exact ⟨⟨h.source_eq, hrest.active, h.length, h.total, h.values, h.failed⟩, hframe⟩
    | infrastructure error => trivial
    | execution error =>
      simp only [GroupState.join]
      split
      · -- the group returns that an effect is unknown
        refine means_settle ?_ hframe hframed hactive fun hnone => by cases hnone
        exact hrest.fail rfl rfl rfl rfl rfl (.stops hactive (.inr (.inr (.inr rfl))))
      -- a known failure: the child's error is what the node may return
      next hknown =>
        have hreturned :
            Prescribes root given answers (.returned place node input (.error error)) :=
          .childFails (hchild _ _ _ hsome).1 (hchild _ _ _ hsome).2 fun hstep => by
            subst hstep
            exact absurd hsome GroupSource.child_ne_try
        split
        · refine means_stop hrest ?_ hreturned hreturned
          rw [hframe]
          exact hframed
        -- failures are collected, so the entry is settled and the group goes on
        next hcollects =>
          refine means_settle hrest hframe hframed hactive fun _ => ⟨.error error, ?_, ?_⟩
          · rw [h.source_eq]
            refine .failed error ?_ hknown
            cases errors with
            | collect => rfl
            | failFast => exact absurd (.inl rfl) hcollects
          · intro step body bodyInput hsome
            exact (hchild step body bodyInput hsome).2

/-- What follows once the progress is saved. -/
theorem means_proceed {resumption : Resumption}
    (h : s.Gathers root given answers place node input source errors) (hframe : s.frame = frame)
    (hframed : Framed root given answers place node input frame)
    (hactive : Prescribes root given answers (.active place node input))
    (hresumption : resumption.Prescribed root given answers place node input) :
    (s.proceed concurrency limits resumption).Means root given answers place node input source
      errors frame := by
  -- a reason that came first is kept
  have hkept : ∀ reason,
      Prescribes root given answers (.returned place node input (.error reason)) →
      ∃ failure, (s.failed <|> some (StepError.execution reason)) = some failure ∧ Judged
        (fun result => Prescribes root given answers (.returned place node input result))
        (.error failure) := by
    intro reason hreason
    cases hfailed : s.failed with
    | none => exact ⟨_, rfl, hreason⟩
    | some failure => exact ⟨failure, rfl, h.failed failure hfailed⟩
  cases resumption with
  | start index window => exact ⟨h, hframe⟩
  | exhausted =>
    exact ⟨h.fail rfl rfl rfl rfl rfl (.stops hactive (.inr (.inr (.inl rfl)))), hframe⟩
  | failed index error =>
    obtain ⟨failure, hfailed, hjudged⟩ := hkept error hresumption
    refine means_settle (h.fail rfl rfl rfl rfl hfailed hjudged) hframe hframed hactive
      fun hnone => ?_
    exact absurd (hfailed.symm.trans hnone) (by simp)
  | oversized =>
    obtain ⟨failure, hfailed, hjudged⟩ :=
      hkept resultOversized (.stops hactive (.inr (.inr (.inl rfl))))
    exact ⟨h.fail rfl rfl rfl rfl hfailed hjudged, hframe⟩

theorem mapM_id_some {xs : List (Option Value)} {values : List Value}
    (h : xs.mapM id = some values) : xs = values.map some := by
  induction xs generalizing values with
  | nil =>
    obtain rfl : [] = values := Option.some.inj h
    rfl
  | cons x xs ih =>
    cases x with
    | none => simp at h
    | some v =>
      simp only [List.mapM_cons, id_eq, Option.bind_eq_bind, Option.bind_some,
        Option.bind_eq_some_iff] at h
      obtain ⟨rest, hrest, h⟩ := h
      obtain rfl := Option.some.inj h
      rw [ih hrest]
      rfl

/-- The result of a group is prescribed: all children have ended, or the group has failed. -/
theorem judged_conclude {unresolved cancelled : Bool}
    (h : s.Gathers root given answers place node input source errors)
    (hopened : opened limits input node.instruction = .ok (source, errors))
    (hactive : Prescribes root given answers (.active place node input)) :
    Judged (fun result => Prescribes root given answers (.returned place node input result))
      (s.conclude unresolved cancelled) := by
  unfold GroupState.conclude
  split
  · exact .stops hactive (.inr (.inr (.inr rfl)))
  · split
    next failure hfailure => exact h.failed failure hfailure
    next hnone =>
      split
      · exact .stops hactive (.inl rfl)
      · split
        · trivial
        · split
          next values hvalues =>
            have hresults := mapM_id_some hvalues
            have hlength : values.length = source.length := by
              rw [← h.total hnone, ← h.length, hresults, List.length_map]
            have hmember : ∀ index, ∃ result : Except ForgeError Value,
                (∀ value, values[index]? = some value → Member errors source index result value) ∧
                ∀ step body bodyInput, source.child index = some (step, body, bodyInput) →
                  Prescribes root given answers
                    (.ended (node.inside place step) body bodyInput result) := by
              intro index
              cases hvalue : values[index]? with
              | some value =>
                obtain ⟨result, hmember, hended⟩ := h.values hnone index value (by
                  rw [hresults, List.getElem?_map, hvalue]
                  rfl)
                refine ⟨result, fun other hother => ?_, hended⟩
                obtain rfl := Option.some.inj hother
                exact hmember
              | none =>
                -- there is no child at this index
                have hbound : source.length ≤ index := by
                  rw [← hlength]
                  exact List.getElem?_eq_none_iff.mp hvalue
                refine ⟨.error taskLost, fun _ hother => (by cases hother), ?_⟩
                intro step body bodyInput hchild
                exact absurd (GroupSource.index_lt hchild) (Nat.not_lt.mpr hbound)
            choose results hmember hended using hmember
            rw [h.source_eq]
            exact .gathers results values hactive hopened (fun index => hended index) hlength
              (fun index => hmember index)
          next => trivial

end

/-- A construct over children whose frames and sources are those of its node. -/
def groupSound {concurrency : Nat} {errors : GroupErrors}
    {initial : Limits → Value → Except ForgeError ControlFrame}
    {source : Limits → Value → ControlFrame → Except StepError GroupSource}
    (hinitial : ∀ limits frame, initial limits input = .ok frame → ∃ children,
      opened limits input node.instruction = .ok (children, errors) ∧
        saved frame = some (0, false, none))
    (hunopened : ∀ limits error, initial limits input = .error error →
      Prescribes root given answers (.active place node input) →
      Prescribes root given answers (.settled place node input (.error error)))
    (hsource : ∀ limits frame children, source limits input frame = .ok children →
      ∀ limits' children', opened limits' input node.instruction = .ok (children', errors) →
        children = children')
    (herror : ∀ limits frame e, source limits input frame = .error e →
      Prescribes root given answers (.active place node input) →
      Judged (fun result => Prescribes root given answers (.returned place node input result))
        (.error e)) :
    Sound (fun limits => groupConstruct concurrency errors limits (initial limits) (source limits))
      root given answers place node input where
  Saved frame := Prescribes root given answers (.active place node input) ∧
    Framed root given answers place node input frame ∧
    ∃ limits children, opened limits input node.instruction = .ok (children, errors)
  Live frame point := Prescribes root given answers (.active place node input) ∧
    Framed root given answers place node input frame ∧
    ∃ limits children, opened limits input node.instruction = .ok (children, errors) ∧
      point.Means root given answers place node input children errors frame
  Runs _ step body bodyInput := ∃ index, node.ChildAt input index step body bodyInput
  Spent _ _ := False
  live_saved := by
    intro frame point hlive
    obtain ⟨hactive, hframed, limits, children, hopened, -⟩ := hlive
    exact ⟨hactive, hframed, limits, children, hopened⟩
  runs_unique := by
    intro hlabels frame step body body' bodyInput bodyInput' h h'
    obtain ⟨i, limits, children, _, hopened, hi⟩ := h
    obtain ⟨j, limits', children', _, hopened', hj⟩ := h'
    obtain ⟨rfl, rfl⟩ := opened_unique hopened hopened'
    exact child_unique hlabels hopened hi hj
  initial := by
    intro limits frame hactive h
    obtain ⟨children, hopened, hsaved⟩ := hinitial limits frame h
    refine ⟨hactive, ⟨0, none, hsaved, fun _ hreason => ?_⟩, limits, children, hopened⟩
    cases hreason
  initial_error := by
    intro limits error hactive h
    exact hunopened limits error h hactive
  start := by
    intro limits frame point hsaved h
    obtain ⟨hactive, hframed, limits', children', hopened⟩ := hsaved
    obtain ⟨children, hchildren, h⟩ := bind_eq_ok.mp h
    obtain rfl := hsource limits frame children hchildren limits' children' hopened
    obtain ⟨cursor, reason, hframe, hreason⟩ := hframed
    rw [hframe] at h
    obtain rfl := Except.ok.inj h
    refine ⟨hactive, ⟨cursor, reason, hframe, hreason⟩, limits', children, hopened, ?_, rfl⟩
    refine ⟨rfl, fun _ hmem => ?_, by simp [GroupState.resume], fun hnone => ?_,
      fun _ index value hstored => ?_, fun failure hfailure => ?_⟩
    · cases hmem
    · cases reason with
      | none => rfl
      | some first => cases hnone
    · obtain ⟨_, hstored⟩ := List.getElem?_eq_some_iff.mp hstored
      simp [GroupState.resume] at hstored
    · obtain ⟨error, herror, rfl⟩ := Option.map_eq_some_iff.mp hfailure
      exact hreason error herror
  start_error := by
    intro limits frame e hsaved h
    obtain ⟨hactive, ⟨cursor, reason, hframe, hreason⟩, -⟩ := hsaved
    rcases bind_eq_error.mp h with h | ⟨children, -, h⟩
    · exact herror limits frame e h hactive
    · rw [hframe] at h
      cases h
  asks := by
    intro limits frame point hlive
    obtain ⟨hactive, hframed, limits', children, hopened, hmeans⟩ := hlive
    -- a point over the same children
    have hpoint : ∀ {frame' next}, Framed root given answers place node input frame' →
        GroupPoint.Means root given answers place node input children errors frame' next →
        Prescribes root given answers (.active place node input) ∧
          Framed root given answers place node input frame' ∧
          ∃ limits children, opened limits input node.instruction = .ok (children, errors) ∧
            GroupPoint.Means root given answers place node input children errors frame' next :=
      fun hframed' hmeans' => ⟨hactive, hframed', limits', children, hopened, hmeans'⟩
    cases point with
    | admitting s window =>
      obtain ⟨hgathers, hframe⟩ := hmeans
      cases window with
      | cons index window =>
        intro granted
        refine hpoint hframed ?_
        unfold GroupState.admitNext
        split
        · refine ⟨⟨hgathers.source_eq, hgathers.active, hgathers.length, hgathers.total,
            hgathers.values, hgathers.failed⟩, ?_, trivial⟩
          rw [hframe]
          refine hframed.progress _ fun _ hreason => ?_
          cases hreason
        · refine means_stop hgathers ?_ (.stops hactive (.inr (.inr (.inl rfl)))) trivial
          rw [hframe]
          exact hframed
      | nil =>
        simp only [groupConstruct, groupNext]
        split
        · intro unresolved cancelled
          exact hpoint hframed (judged_conclude hgathers hopened hactive)
        · intro index hindex result cancelled hended
          refine hpoint hframed (means_join hgathers hframe hframed hactive ?_ hindex)
          intro step body bodyInput hchild
          exact ⟨.opens hactive hopened hchild,
            hended step body bodyInput ⟨limits', children, errors, hopened, hchild⟩⟩
    | saving s resumption =>
      obtain ⟨hgathers, hnext, hresumption⟩ := hmeans
      have hproceed : (s.proceed concurrency limits resumption).Means root given answers place node
          input children errors s.frame :=
        means_proceed hgathers rfl hnext hactive hresumption
      simp only [groupConstruct, groupNext, saveProgress]
      split
      · exact ⟨hpoint hnext hproceed, fun step => ⟨id, fun _ _ hruns => .inl hruns⟩⟩
      · exact ⟨hpoint hnext hproceed, fun step => ⟨id, fun _ _ hruns => .inl hruns⟩,
          fun _ => .inr rfl⟩
    | starting s index window =>
      obtain ⟨hgathers, hframe⟩ := hmeans
      simp only [groupConstruct, groupNext]
      split
      next step body bodyInput hchild =>
        rw [hgathers.source_eq] at hchild
        have hat : node.ChildAt input index step body bodyInput :=
          ⟨limits', children, errors, hopened, hchild⟩
        refine ⟨⟨⟨index, hat⟩, id, .opens hactive hopened hchild⟩, hat, hpoint hframed ⟨?_, hframe⟩⟩
        refine ⟨hgathers.source_eq, fun i hi => ?_, hgathers.length, hgathers.total,
          hgathers.values, hgathers.failed⟩
        rcases List.mem_cons.mp hi with rfl | hi
        · exact ⟨_, hchild⟩
        · exact hgathers.active i hi
      · trivial
    | ended result => exact hmeans

/-! ## Control instructions -/

/-- The construct of a parallel node opens the branches of the plan. -/
theorem exists_parallelSound {branches : List (String × PreparedBody)} {concurrency : Nat}
    {errors : GroupErrors} (hnode : node.instruction = .parallel branches concurrency errors) :
    Nonempty (Sound (fun limits => parallelConstruct concurrency errors limits branches) root given
      answers place node input) := by
  refine ⟨groupSound (fun limits frame hframe => ?_) (fun limits error he hactive => ?_)
    (fun limits frame children hsource limits' children' hopened => ?_)
    fun limits frame e he hactive => ?_⟩
  · obtain rfl := Except.ok.inj hframe
    exact ⟨.parallel branches input, by rw [hnode]; rfl, rfl⟩
  · cases he
  · rw [hnode] at hopened
    obtain ⟨rfl, -⟩ := Prod.mk.inj (Except.ok.inj hopened)
    split at hsource
    · exact (Except.ok.inj hsource).symm
    · cases hsource
  · split at he
    · cases he
    · obtain rfl := Except.error.inj he
      trivial

/-- The construct of a foreach node opens the items that its input gives, each time the same. -/
theorem exists_foreachSound {items : Binding} {body : PreparedBody} {concurrency : Nat}
    {errors : GroupErrors} (hnode : node.instruction = .foreach items body concurrency errors) :
    Nonempty (Sound (fun limits => foreachConstruct concurrency errors limits items body) root given
      answers place node input) := by
  refine ⟨groupSound (fun limits frame hframe => ?_) (fun limits error he hactive => ?_)
    (fun limits frame children hsource limits' children' hopened => ?_)
    fun limits frame e he hactive => ?_⟩
  · obtain ⟨values, hvalues, hframe⟩ := bind_eq_ok.mp hframe
    obtain ⟨_, hlength, hframe⟩ := bind_eq_ok.mp hframe
    obtain rfl := Except.ok.inj hframe
    refine ⟨.foreach values input body, ?_, rfl⟩
    rw [hnode]
    exact bind_eq_ok.mpr ⟨values, hvalues, bind_eq_ok.mpr ⟨_, hlength, rfl⟩⟩
  -- no group is opened where the input gives no items, or too many
  · refine .unopened hactive (?_ : opened limits input node.instruction = .error error) ?_
    · rw [hnode]
      refine bind_eq_error.mpr ?_
      rcases bind_eq_error.mp he with he | ⟨values, hvalues, he⟩
      · exact .inl he
      · rcases bind_eq_error.mp he with he | ⟨_, _, he⟩
        · exact .inr ⟨values, hvalues, bind_eq_error.mpr (.inl he)⟩
        · cases he
    · unfold PreparedNode.isGroup
      rw [hnode]
      rfl
  · rw [hnode] at hopened
    obtain ⟨values', hvalues', rfl, -⟩ := opened_foreach hopened
    split at hsource
    · obtain ⟨values, hvalues, rfl⟩ := map_eq_ok.mp hsource
      -- the items read for the source are those that opened the group
      have hvalues : foreachItems limits items input = .ok values := by
        cases hitems : foreachItems limits items input with
        | ok other =>
          rw [hitems] at hvalues
          exact congrArg Except.ok (Except.ok.inj hvalues)
        | error e =>
          rw [hitems] at hvalues
          cases hvalues
      rw [foreachItems_unique hvalues hvalues']
    · cases hsource
  · split at he
    · have he := map_eq_error.mp he
      cases hitems : foreachItems limits items input with
      | ok other =>
        rw [hitems] at he
        cases he
      | error error =>
        rw [hitems] at he
        obtain rfl := Except.error.inj he
        -- the items cannot be read again
        refine .reopens hactive (?_ : opened limits input node.instruction = .error error) ?_
        · rw [hnode]
          exact bind_eq_error.mpr (.inl hitems)
        · unfold PreparedNode.isGroup
          rw [hnode]
          rfl
    · obtain rfl := Except.error.inj he
      trivial

/-- The construct of every control instruction does what is prescribed of its node. -/
theorem exists_sound {construct : Limits → Construct ControlPoint}
    (h : executor node.instruction = some construct) :
    Nonempty (Sound construct root given answers place node input) := by
  cases hnode : node.instruction with
  -- leaves have no construct
  | operation | timer | awaitSignal =>
    rw [hnode] at h
    cases h
  | decision cases fallback =>
    rw [hnode] at h
    obtain rfl := Option.some.inj h
    exact ⟨(decisionSound hnode).embed fun _ => rfl⟩
  | loop condition body maxIterations onLimit =>
    rw [hnode] at h
    obtain rfl := Option.some.inj h
    exact ⟨(loopSound hnode).embed fun _ => rfl⟩
  | subworkflow plan =>
    rw [hnode] at h
    obtain rfl := Option.some.inj h
    exact ⟨(subworkflowSound hnode).embed fun _ => rfl⟩
  | «try» body catches fallback =>
    rw [hnode] at h
    obtain ⟨handlers, hhandlers, rfl⟩ := Option.map_eq_some_iff.mp h
    unfold Handlers.of at hhandlers
    split at hhandlers
    -- the handlers of a plan have distinct codes
    next hdistinct =>
      obtain rfl := Option.some.inj hhandlers
      have S : Sound (fun _ => tryConstruct body ⟨catches, fallback, hdistinct.1, hdistinct.2⟩)
          root given answers place node input := trySound hnode
      exact ⟨S.embed fun _ => rfl⟩
    · cases hhandlers
  | parallel branches concurrency errors =>
    rw [hnode] at h
    obtain rfl := Option.some.inj h
    obtain ⟨S⟩ := exists_parallelSound hnode
    exact ⟨S.embed fun _ => rfl⟩
  | «foreach» items body concurrency errors =>
    rw [hnode] at h
    obtain rfl := Option.some.inj h
    obtain ⟨S⟩ := exists_foreachSound hnode
    exact ⟨S.embed fun _ => rfl⟩

end

end WorkflowForge.Engine
