import WorkflowForge.Engine.Prescribed

/-!
# Constructs Do What Is Prescribed

What a construct has come to at a point, over what its frame has saved. The worker that a
construct belongs to may be gone at any moment, and the next one starts from the frame, so the
reading of a frame has to say everything that the next worker relies on: which bodies are
still entered, with which inputs, and which are never entered again.

## Main results

- `Binding.evaluate_unique`: a value does not depend on the limits it was evaluated under.
- `Sound.embed`: readings of a construct are readings over common points.
- `decisionSound`, `subworkflowSound`, `loopSound`, `trySound`: these constructs do what is
  prescribed.
-/

namespace WorkflowForge

open Lib Engine Mapping

/-! ## Values and limits -/

section

variable {input : Value} {outputs : BTreeMap String Value} {limits limits' : Limits}

theorem Mapping.copy_eq_ok {v w : Value} {b b' : Budget} (h : copy v b limits = .ok (w, b')) :
    w = v := by
  obtain ⟨_, -, h⟩ := map_eq_ok.mp h
  exact (congrArg Prod.fst h).symm

theorem Mapping.follow_unique {tokens : List String} {current place place' : Option Value}
    {b b₁ b' b₁' : Budget} (h : follow limits b current tokens = .ok (place, b₁))
    (h' : follow limits' b' current tokens = .ok (place', b₁')) : place = place' := by
  induction tokens generalizing current b b' with
  | nil =>
    obtain rfl : current = place := congrArg Prod.fst (Except.ok.inj h)
    exact congrArg Prod.fst (Except.ok.inj h')
  | cons token tokens ih =>
    unfold follow at h h'
    split at h
    · cases h
    · split at h'
      · cases h'
      · obtain ⟨next, hnext, h⟩ := bind_eq_ok.mp h
        obtain ⟨next', hnext', h'⟩ := bind_eq_ok.mp h'
        obtain rfl := Except.ok.inj (hnext.symm.trans hnext')
        exact ih h h'

theorem same_value {α β : Type} {a x y : α} {e e₁ e' e₁' : β}
    (h : (.ok (a, e) : Except ForgeError (α × β)) = .ok (x, e₁))
    (h' : (.ok (a, e') : Except ForgeError (α × β)) = .ok (y, e₁')) : x = y :=
  (congrArg Prod.fst (Except.ok.inj h)).symm.trans (congrArg Prod.fst (Except.ok.inj h'))

mutual
theorem Binding.walk_unique (b : Binding) {depth depth' : Nat} {budget budget' e e' : Budget}
    {v v' : Value} (h : b.walk input outputs limits depth budget = .ok (v, e))
    (h' : b.walk input outputs limits' depth' budget' = .ok (v', e')) : v = v' := by
  rw [Binding.walk.eq_def] at h h'
  -- limits decide whether a walk ends, not what it ends with
  split at h
  · nomatch h
  split at h'
  · nomatch h'
  match b with
  | .literal w => exact (copy_eq_ok h).trans (copy_eq_ok h').symm
  | .select s => exact Selection.walk_unique s h h'
  | .object fields =>
    obtain ⟨_, -, h⟩ := bind_eq_ok.mp h
    obtain ⟨⟨members, _⟩, hmembers, h⟩ := bind_eq_ok.mp h
    obtain ⟨_, -, h'⟩ := bind_eq_ok.mp h'
    obtain ⟨⟨members', _⟩, hmembers', h'⟩ := bind_eq_ok.mp h'
    obtain rfl := Binding.walkFields_unique fields hmembers hmembers'
    exact same_value h h'
  | .array items =>
    obtain ⟨_, -, h⟩ := bind_eq_ok.mp h
    obtain ⟨⟨values, _⟩, hvalues, h⟩ := bind_eq_ok.mp h
    obtain ⟨_, -, h'⟩ := bind_eq_ok.mp h'
    obtain ⟨⟨values', _⟩, hvalues', h'⟩ := bind_eq_ok.mp h'
    obtain rfl := Binding.walkItems_unique items hvalues hvalues'
    exact same_value h h'
termination_by structural b

theorem Selection.walk_unique (s : Selection) {depth depth' : Nat} {budget budget' e e' : Budget}
    {v v' : Value} (h : s.walk input outputs limits depth budget = .ok (v, e))
    (h' : s.walk input outputs limits' depth' budget' = .ok (v', e')) : v = v' := by
  match s with
  | ⟨source, node, pointer, fallback⟩ =>
    rw [Selection.walk] at h h'
    obtain ⟨ts, hts, h⟩ := bind_eq_ok.mp h
    obtain ⟨⟨place, _⟩, hplace, h⟩ := bind_eq_ok.mp h
    obtain ⟨ts', hts', h'⟩ := bind_eq_ok.mp h'
    obtain ⟨⟨place', _⟩, hplace', h'⟩ := bind_eq_ok.mp h'
    obtain rfl := Except.ok.inj (hts.symm.trans hts')
    obtain rfl := follow_unique hplace hplace'
    cases place with
    | some w => exact (copy_eq_ok h).trans (copy_eq_ok h').symm
    | none => exact Binding.walkFallback_unique fallback h h'
termination_by structural s

theorem Binding.walkFallback_unique (fallback : Option Binding) {depth depth' : Nat}
    {budget budget' e e' : Budget} {v v' : Value}
    (h : Binding.walkFallback input outputs limits depth budget fallback = .ok (v, e))
    (h' : Binding.walkFallback input outputs limits' depth' budget' fallback = .ok (v', e')) :
    v = v' := by
  match fallback with
  | none => nomatch h
  | some b => exact Binding.walk_unique b h h'
termination_by structural fallback

theorem Binding.walkFields_unique (fields : List (String × Binding)) {depth depth' : Nat}
    {budget budget' e e' : Budget} {v v' : List (String × Value)}
    (h : Binding.walkFields input outputs limits depth budget fields = .ok (v, e))
    (h' : Binding.walkFields input outputs limits' depth' budget' fields = .ok (v', e')) :
    v = v' := by
  match fields with
  | [] => exact same_value h h'
  | (key, b) :: fields =>
    obtain ⟨_, -, h⟩ := bind_eq_ok.mp h
    obtain ⟨⟨w, _⟩, hw, h⟩ := bind_eq_ok.mp h
    obtain ⟨⟨rest, _⟩, hrest, h⟩ := bind_eq_ok.mp h
    obtain ⟨_, -, h'⟩ := bind_eq_ok.mp h'
    obtain ⟨⟨w', _⟩, hw', h'⟩ := bind_eq_ok.mp h'
    obtain ⟨⟨rest', _⟩, hrest', h'⟩ := bind_eq_ok.mp h'
    obtain rfl := Binding.walk_unique b hw hw'
    obtain rfl := Binding.walkFields_unique fields hrest hrest'
    exact same_value h h'
termination_by structural fields

theorem Binding.walkItems_unique (items : List Binding) {depth depth' : Nat}
    {budget budget' e e' : Budget} {v v' : List Value}
    (h : Binding.walkItems input outputs limits depth budget items = .ok (v, e))
    (h' : Binding.walkItems input outputs limits' depth' budget' items = .ok (v', e')) :
    v = v' := by
  match items with
  | [] => exact same_value h h'
  | b :: items =>
    obtain ⟨⟨w, _⟩, hw, h⟩ := bind_eq_ok.mp h
    obtain ⟨⟨rest, _⟩, hrest, h⟩ := bind_eq_ok.mp h
    obtain ⟨⟨w', _⟩, hw', h'⟩ := bind_eq_ok.mp h'
    obtain ⟨⟨rest', _⟩, hrest', h'⟩ := bind_eq_ok.mp h'
    obtain rfl := Binding.walk_unique b hw hw'
    obtain rfl := Binding.walkItems_unique items hrest hrest'
    exact same_value h h'
termination_by structural items
end

theorem Binding.evaluate_unique {b : Binding} {v v' : Value}
    (h : b.evaluate input outputs limits = .ok v)
    (h' : b.evaluate input outputs limits' = .ok v') : v = v' := by
  obtain ⟨⟨w, _⟩, hw, h⟩ := bind_eq_ok.mp h
  obtain ⟨_, -, h⟩ := bind_eq_ok.mp h
  obtain ⟨⟨w', _⟩, hw', h'⟩ := bind_eq_ok.mp h'
  obtain ⟨_, -, h'⟩ := bind_eq_ok.mp h'
  obtain rfl := Binding.walk_unique b hw hw'
  exact (Except.ok.inj h).symm.trans (Except.ok.inj h')

end

namespace Engine

/-! ## Readings -/

/-- What a result says; a suspension and a failure of the runtime say nothing. -/
def Judged (judge : Except ForgeError Value → Prop) : Except StepError Value → Prop
  | .ok value => judge (.ok value)
  | .error (.execution error) => judge (.error error)
  | .error _ => True

/-- What the points of a construct mean, over a saved frame. -/
structure Reading (σ : Type) where
  Saved : ControlFrame → Prop
  Live : ControlFrame → σ → Prop
  /-- A body that is entered while the frame is saved. -/
  Runs : ControlFrame → ScopeStep → PreparedBody → Value → Prop
  /-- A body that is never entered again. -/
  Spent : ControlFrame → ScopeStep → Prop

namespace Reading

variable {σ : Type} (R : Reading σ) (root : PreparedBody) (given : Value) (place : Place)
  (node : PreparedNode) (input : Value)

/-- A body that was entered under a frame is entered with the same input under the next one, or
not at all. -/
def Advances (frame next : ControlFrame) : Prop :=
  ∀ step, (R.Spent frame step → R.Spent next step) ∧
    ∀ body bodyInput, R.Runs frame step body bodyInput →
      R.Runs next step body bodyInput ∨ R.Spent next step

/-- The result of a body that the node runs. -/
def Ended (answers : Answers) (step : ScopeStep) (body : PreparedBody) (bodyInput : Value) :
    Except StepError Value → Prop :=
  Judged fun result =>
    Prescribes root given answers (.ended (node.inside place step) body bodyInput result)

/-- A body may be entered now. -/
structure Admitted (answers : Answers) (frame : ControlFrame) (step : ScopeStep)
    (body : PreparedBody) (bodyInput : Value) : Prop where
  runs : R.Runs frame step body bodyInput
  fresh : ¬R.Spent frame step
  child : Prescribes root given answers (.child place node input step body bodyInput)

/-- What a construct asks for is prescribed, and it may go on with every answer. -/
def Meets (answers : Answers) (frame : ControlFrame) : Ask σ → Prop
  | .finish result =>
    Judged (fun result => Prescribes root given answers (.returned place node input result)) result
  | .check next => R.Live frame next
  | .enter step body bodyInput next =>
    R.Admitted root given place node input answers frame step body bodyInput ∧
      ∀ result, Ended root given place node answers step body bodyInput result →
        R.Live frame (next result)
  | .save saved refused next =>
    R.Live saved next ∧ R.Advances frame saved ∧
      ∀ error, refused error = transitionError error ∨ refused error = .infrastructure error
  | .permit next => ∀ granted, R.Live frame (next granted)
  | .spawn index step body bodyInput next =>
    R.Admitted root given place node input answers frame step body bodyInput ∧
      node.ChildAt input index step body bodyInput ∧ R.Live frame next
  | .join active next => ∀ index ∈ active, ∀ result cancelled,
    (∀ step body bodyInput, node.ChildAt input index step body bodyInput →
      Ended root given place node answers step body bodyInput result) →
    R.Live frame (next index result cancelled)
  | .stop saved next => R.Live saved next ∧ R.Advances frame saved
  | .survey next => ∀ unresolved cancelled, R.Live frame (next unresolved cancelled)

end Reading

/-- The branches of a parallel node have names of their own. -/
def PreparedInstruction.Labelled : PreparedInstruction → Prop
  | .parallel branches _ _ => (branches.map Prod.fst).Nodup
  | _ => True

/-- A construct that does what is prescribed of its node. -/
structure Sound {σ : Type} (construct : Limits → Construct σ) (root : PreparedBody)
    (given : Value) (answers : Answers) (place : Place) (node : PreparedNode) (input : Value)
    extends Reading σ where
  live_saved : ∀ {frame point}, Live frame point → Saved frame
  runs_unique : node.instruction.Labelled → ∀ {frame step body body' bodyInput bodyInput'},
    Runs frame step body bodyInput → Runs frame step body' bodyInput' →
    body = body' ∧ bodyInput = bodyInput'
  initial : ∀ {limits frame}, Prescribes root given answers (.active place node input) →
    (construct limits).initial input = .ok frame → Saved frame
  initial_error : ∀ {limits error}, Prescribes root given answers (.active place node input) →
    (construct limits).initial input = .error error →
    Prescribes root given answers (.settled place node input (.error error))
  start : ∀ {limits frame point}, Saved frame →
    (construct limits).start input frame = .ok point → Live frame point
  start_error : ∀ {limits frame error}, Saved frame →
    (construct limits).start input frame = .error error →
    Judged (fun result => Prescribes root given answers (.returned place node input result))
      (.error error)
  asks : ∀ {limits frame point}, Live frame point →
    toReading.Meets root given place node input answers frame
      ((construct limits).next input point)

section

variable {σ τ : Type} {root : PreparedBody} {given : Value} {answers : Answers} {place : Place}
  {node : PreparedNode} {input : Value}

/-- A reading over common points. -/
def Reading.embed (R : Reading σ) (inject : σ → τ) : Reading τ where
  Saved := R.Saved
  Live frame point := ∃ own, point = inject own ∧ R.Live frame own
  Runs := R.Runs
  Spent := R.Spent

theorem Reading.Meets.map {R : Reading σ} {inject : σ → τ}
    {frame : ControlFrame} {ask : Ask σ}
    (h : R.Meets root given place node input answers frame ask) :
    (R.embed inject).Meets root given place node input answers frame (ask.map inject) := by
  cases ask with
  | finish => exact h
  | check => exact ⟨_, rfl, h⟩
  | enter =>
    refine ⟨⟨h.1.runs, h.1.fresh, h.1.child⟩, fun result hresult => ?_⟩
    exact ⟨_, rfl, h.2 result hresult⟩
  | save => exact ⟨⟨_, rfl, h.1⟩, h.2.1, h.2.2⟩
  | permit => exact fun granted => ⟨_, rfl, h granted⟩
  | spawn => exact ⟨⟨h.1.runs, h.1.fresh, h.1.child⟩, h.2.1, _, rfl, h.2.2⟩
  | join =>
    intro index hindex result cancelled hresult
    exact ⟨_, rfl, h index hindex result cancelled hresult⟩
  | stop => exact ⟨⟨_, rfl, h.1⟩, h.2⟩
  | survey => exact fun unresolved cancelled => ⟨_, rfl, h unresolved cancelled⟩

/-- A construct over common points does what it does over its own. -/
def Sound.embed {construct : Limits → Construct σ}
    (S : Sound construct root given answers place node input) {inject : σ → τ}
    {project : τ → Option σ}
    (h : ∀ point, project (inject point) = some point) :
    Sound (fun limits => (construct limits).embed inject project) root given answers place node
      input where
  toReading := S.toReading.embed inject
  live_saved := by
    intro frame point hlive
    obtain ⟨own, -, hlive⟩ := hlive
    exact S.live_saved hlive
  runs_unique := S.runs_unique
  initial := S.initial
  initial_error := S.initial_error
  start := by
    intro limits frame point hsaved hstart
    obtain ⟨own, hown, rfl⟩ := map_eq_ok.mp hstart
    exact ⟨own, rfl, S.start hsaved hown⟩
  start_error := by
    intro limits frame error hsaved hstart
    exact S.start_error hsaved (map_eq_error.mp hstart)
  asks := by
    intro limits frame point hlive
    obtain ⟨own, rfl, hlive⟩ := hlive
    rw [Construct.next_embed (h own)]
    exact (S.asks hlive).map

/-! ## Decisions -/

/-- The construct of a decision. -/
def decisionSound {cases : List PreparedCase} {fallback : Option (String × PreparedBody)}
    (hnode : node.instruction = .decision cases fallback) :
    Sound (fun limits => decisionConstruct limits cases fallback) root given answers place node
      input where
  Saved frame := ∃ selected, frame = .decision selected ∧
    ∀ body, alternative cases fallback selected = some body →
      Prescribes root given answers (.child place node input (.cases selected) body input)
  Live frame point :=
    match point with
    | .entering selected => frame = .decision selected ∧
      ∀ body, alternative cases fallback selected = some body →
        Prescribes root given answers (.child place node input (.cases selected) body input)
    | .after selected result => frame = .decision selected ∧
      ∃ body, alternative cases fallback selected = some body ∧
        Prescribes root given answers (.child place node input (.cases selected) body input) ∧
        Reading.Ended root given place node answers (.cases selected) body input result
  Runs frame step body bodyInput := ∃ selected, frame = .decision selected ∧
    step = .cases selected ∧ alternative cases fallback selected = some body ∧ bodyInput = input
  Spent _ _ := False
  live_saved := by
    intro frame point hlive
    cases point with
    | entering selected => exact ⟨selected, hlive⟩
    | after selected result =>
      obtain ⟨rfl, body, hbody, hchild, -⟩ := hlive
      refine ⟨selected, rfl, fun body' hbody' => ?_⟩
      obtain rfl := Option.some.inj (hbody.symm.trans hbody')
      exact hchild
  runs_unique := by
    intro _ frame step body body' bodyInput bodyInput' h h'
    obtain ⟨selected, rfl, rfl, hbody, rfl⟩ := h
    obtain ⟨selected', hframe, -, hbody', rfl⟩ := h'
    obtain rfl := ControlFrame.decision.inj hframe
    exact ⟨Option.some.inj (hbody.symm.trans hbody'), rfl⟩
  initial := by
    intro limits frame hactive h
    obtain ⟨selected, hselected, rfl⟩ := map_eq_ok.mp h
    exact ⟨selected, rfl, fun body hbody => .chooses hactive hnode hselected hbody⟩
  initial_error := by
    intro limits error hactive h
    exact .unmatched hactive hnode (map_eq_error.mp h)
  start := by
    intro limits frame point hsaved h
    obtain ⟨selected, rfl, hchild⟩ := hsaved
    obtain rfl := Except.ok.inj h
    exact ⟨rfl, hchild⟩
  start_error := by
    intro limits frame error hsaved h
    obtain ⟨selected, rfl, hchild⟩ := hsaved
    nomatch h
  asks := by
    intro limits frame point hlive
    cases point with
    | entering selected =>
      obtain ⟨rfl, hchild⟩ := hlive
      simp only [decisionConstruct]
      split
      · trivial
      next body hbody =>
        refine ⟨⟨⟨selected, rfl, rfl, hbody, rfl⟩, id, hchild body hbody⟩, fun result hended => ?_⟩
        exact ⟨rfl, body, hbody, hchild body hbody, hended⟩
    | after selected result =>
      obtain ⟨rfl, body, hbody, hchild, hended⟩ := hlive
      cases result with
      | ok output => exact .decides hchild hended
      | error e =>
        cases e with
        | execution error => exact .childFails hchild hended (by simp)
        | suspended => trivial
        | infrastructure => trivial

/-! ## Subworkflows -/

/-- The construct of a subworkflow. -/
def subworkflowSound {plan : Plan} (hnode : node.instruction = .subworkflow plan) :
    Sound (fun limits => subworkflowConstruct limits plan) root given answers place node input where
  Saved frame := frame = .subworkflow plan.definition.workflowRevision ∧
    Prescribes root given answers (.active place node input)
  Live frame point :=
    (frame = .subworkflow plan.definition.workflowRevision ∧
      Prescribes root given answers (.active place node input)) ∧
    match point with
    | .entering => True
    | .after result =>
      Prescribes root given answers (.child place node input (workflowStep plan) plan.body input) ∧
      Reading.Ended root given place node answers (workflowStep plan) plan.body input result
  Runs _ step body bodyInput := step = workflowStep plan ∧ body = plan.body ∧ bodyInput = input
  Spent _ _ := False
  live_saved := by
    intro frame point hlive
    exact hlive.1
  runs_unique := by
    intro _ frame step body body' bodyInput bodyInput' h h'
    obtain ⟨-, rfl, rfl⟩ := h
    obtain ⟨-, rfl, rfl⟩ := h'
    exact ⟨rfl, rfl⟩
  initial := by
    intro limits frame hactive h
    exact ⟨(Except.ok.inj h).symm, hactive⟩
  initial_error := by
    intro limits error hactive h
    cases h
  start := by
    intro limits frame point hsaved h
    obtain ⟨rfl, hactive⟩ := hsaved
    obtain rfl := Except.ok.inj h
    exact ⟨⟨rfl, hactive⟩, trivial⟩
  start_error := by
    intro limits frame error hsaved h
    obtain ⟨rfl, hactive⟩ := hsaved
    nomatch h
  asks := by
    intro limits frame point hlive
    obtain ⟨hsaved, hlive⟩ := hlive
    cases point with
    | entering =>
      simp only [subworkflowConstruct]
      split
      next error herror => exact .uncalled hsaved.2 hnode herror
      next hvalid =>
        have hchild := Prescribes.calls hsaved.2 hnode hvalid
        exact ⟨⟨⟨rfl, rfl, rfl⟩, id, hchild⟩, fun result hended => ⟨hsaved, hchild, hended⟩⟩
    | after result =>
      obtain ⟨hchild, hended⟩ := hlive
      cases result with
      | ok output =>
        simp only [subworkflowConstruct]
        split
        next error herror => exact .breaks hchild hnode hended herror
        next hvalid => exact .yields hchild hnode hended hvalid
      | error e =>
        cases e with
        | execution error => exact .childFails hchild hended (by simp [workflowStep])
        | suspended => trivial
        | infrastructure => trivial

/-! ## Loops -/

/-- The construct of a loop. Only the iteration that the counter names is entered. -/
def loopSound {condition : Binding} {body : PreparedBody} {maxIterations : Nat}
    {onLimit : LoopLimit} (hnode : node.instruction = .loop condition body maxIterations onLimit) :
    Sound (fun limits => loopConstruct condition body maxIterations onLimit limits) root given
      answers place node input where
  Saved frame := ∃ iteration state, frame = .loop iteration state ∧
    Prescribes root given answers (.iterated place node input iteration state)
  Live frame point :=
    match point with
    | .top iteration state | .decide iteration state => frame = .loop iteration state ∧
      Prescribes root given answers (.iterated place node input iteration state)
    | .after iteration result => ∃ state, frame = .loop iteration state ∧
      Prescribes root given answers (.iterated place node input iteration state) ∧
      Prescribes root given answers
        (.child place node input (.iterations iteration) body (loopInput state iteration)) ∧
      Reading.Ended root given place node answers (.iterations iteration) body
        (loopInput state iteration) result
  Runs frame step child bodyInput := ∃ iteration state, frame = .loop iteration state ∧
    step = .iterations iteration ∧ child = body ∧ bodyInput = loopInput state iteration
  Spent frame step := ∃ iteration state earlier, frame = .loop iteration state ∧
    step = .iterations earlier ∧ earlier < iteration
  live_saved := by
    intro frame point hlive
    cases point with
    | top iteration state => exact ⟨iteration, state, hlive⟩
    | decide iteration state => exact ⟨iteration, state, hlive⟩
    | after iteration result =>
      obtain ⟨state, rfl, hiterated, -⟩ := hlive
      exact ⟨iteration, state, rfl, hiterated⟩
  runs_unique := by
    intro _ frame step child child' bodyInput bodyInput' h h'
    obtain ⟨iteration, state, rfl, rfl, rfl, rfl⟩ := h
    obtain ⟨iteration', state', hframe, -, rfl, rfl⟩ := h'
    obtain ⟨rfl, rfl⟩ := ControlFrame.loop.inj hframe
    exact ⟨rfl, rfl⟩
  initial := by
    intro limits frame hactive h
    exact ⟨0, input, (Except.ok.inj h).symm, .loops hactive hnode⟩
  initial_error := by
    intro limits error hactive h
    cases h
  start := by
    intro limits frame point hsaved h
    obtain ⟨iteration, state, rfl, hiterated⟩ := hsaved
    obtain rfl := Except.ok.inj h
    exact ⟨rfl, hiterated⟩
  start_error := by
    intro limits frame error hsaved h
    obtain ⟨iteration, state, rfl, hiterated⟩ := hsaved
    nomatch h
  asks := by
    intro limits frame point hlive
    cases point with
    | top iteration state => exact hlive
    | decide iteration state =>
      obtain ⟨rfl, hiterated⟩ := hlive
      simp only [loopConstruct]
      split
      next result hresult =>
        cases result with
        | ok output => exact .loopEnds hiterated hnode hresult
        | error e =>
          cases e with
          | execution error => exact .loopFails hiterated hnode hresult
          | suspended => trivial
          | infrastructure => trivial
      next hnone =>
        -- iterations below the counter are behind it
        have hchild := Prescribes.iterates hiterated hnode hnone
        refine ⟨⟨⟨iteration, state, rfl, rfl, rfl, rfl⟩, fun hspent => ?_, hchild⟩,
          fun result hended => ⟨state, rfl, hiterated, hchild, hended⟩⟩
        obtain ⟨_, _, earlier, hframe, hstep, hlt⟩ := hspent
        obtain ⟨rfl, rfl⟩ := ControlFrame.loop.inj hframe
        obtain rfl := ScopeStep.iterations.inj hstep
        exact Nat.lt_irrefl _ hlt
    | after iteration result =>
      obtain ⟨state, rfl, hiterated, hchild, hended⟩ := hlive
      cases result with
      | ok next =>
        refine ⟨⟨rfl, .advances hchild hended⟩, fun step => ⟨?_, ?_⟩, fun error => .inl rfl⟩
        · intro hspent
          obtain ⟨_, _, earlier, hframe, rfl, hlt⟩ := hspent
          obtain ⟨rfl, rfl⟩ := ControlFrame.loop.inj hframe
          exact ⟨_, _, earlier, rfl, rfl, Nat.lt_succ_of_lt hlt⟩
        · intro child bodyInput hruns
          obtain ⟨_, _, hframe, rfl, -, -⟩ := hruns
          obtain ⟨rfl, rfl⟩ := ControlFrame.loop.inj hframe
          exact .inr ⟨_, _, _, rfl, rfl, Nat.lt_succ_self _⟩
      | error e =>
        cases e with
        | execution error => exact .childFails hchild hended (by simp)
        | suspended => trivial
        | infrastructure => trivial

/-! ## Handlers -/

/-- The construct of a try node. Once a handler is saved, the guarded body is behind it. -/
def trySound {guarded : PreparedBody} {handlers : Handlers}
    (hnode : node.instruction = .try guarded handlers.catches handlers.fallback) :
    Sound (fun _ => tryConstruct guarded handlers) root given answers place node input where
  Saved frame :=
    (frame = .try none none ∧
      Prescribes root given answers (.child place node input .try guarded input)) ∨
    ∃ id error, frame = .try (some id) (some error) ∧ ∀ body, handlers.body id = some body →
      Prescribes root given answers
        (.child place node input (.catch id) body (handlerInput input error))
  Live frame point :=
    match point with
    | .protecting => frame = .try none none ∧
      Prescribes root given answers (.child place node input .try guarded input)
    | .judging result => frame = .try none none ∧
      Prescribes root given answers (.child place node input .try guarded input) ∧
      Reading.Ended root given place node answers .try guarded input result
    | .selecting error => frame = .try none none ∧ catchable error = true ∧
      Prescribes root given answers (.child place node input .try guarded input) ∧
      Prescribes root given answers
        (.ended (node.inside place .try) guarded input (.error error))
    | .handling id error => frame = .try (some id) (some error) ∧
      ∀ body, handlers.body id = some body → Prescribes root given answers
        (.child place node input (.catch id) body (handlerInput input error))
    | .handled id result => ∃ error body, frame = .try (some id) (some error) ∧
      handlers.body id = some body ∧
      Prescribes root given answers
        (.child place node input (.catch id) body (handlerInput input error)) ∧
      Reading.Ended root given place node answers (.catch id) body (handlerInput input error)
        result
  Runs frame step body bodyInput :=
    (frame = .try none none ∧ step = .try ∧ body = guarded ∧ bodyInput = input) ∨
    ∃ id error, frame = .try (some id) (some error) ∧ step = .catch id ∧
      handlers.body id = some body ∧ bodyInput = handlerInput input error
  Spent frame step := ∃ id error, frame = .try (some id) (some error) ∧ step = .try
  live_saved := by
    intro frame point hlive
    cases point with
    | protecting => exact .inl hlive
    | judging => exact .inl ⟨hlive.1, hlive.2.1⟩
    | selecting => exact .inl ⟨hlive.1, hlive.2.2.1⟩
    | handling id error => exact .inr ⟨id, error, hlive⟩
    | handled id result =>
      obtain ⟨error, body, rfl, hbody, hchild, -⟩ := hlive
      refine .inr ⟨id, error, rfl, fun body' hbody' => ?_⟩
      obtain rfl := Option.some.inj (hbody.symm.trans hbody')
      exact hchild
  runs_unique := by
    intro _ frame step body body' bodyInput bodyInput' h h'
    rcases h with ⟨rfl, rfl, rfl, rfl⟩ | ⟨id, error, rfl, rfl, hbody, rfl⟩
    · rcases h' with ⟨-, -, rfl, rfl⟩ | ⟨_, _, hframe, -⟩
      · exact ⟨rfl, rfl⟩
      · simp at hframe
    · rcases h' with ⟨hframe, -⟩ | ⟨id', error', hframe, -, hbody', rfl⟩
      · simp at hframe
      · simp only [ControlFrame.try.injEq, Option.some.injEq] at hframe
        obtain ⟨rfl, rfl⟩ := hframe
        exact ⟨Option.some.inj (hbody.symm.trans hbody'), rfl⟩
  initial := by
    intro limits frame hactive h
    exact .inl ⟨(Except.ok.inj h).symm, .guards hactive hnode⟩
  initial_error := by
    intro limits error hactive h
    cases h
  start := by
    intro limits frame point hsaved h
    rcases hsaved with ⟨rfl, hchild⟩ | ⟨id, error, rfl, hchild⟩
    · obtain rfl := Except.ok.inj h
      exact ⟨rfl, hchild⟩
    · obtain rfl := Except.ok.inj h
      exact ⟨rfl, hchild⟩
  start_error := by
    intro limits frame error hsaved h
    rcases hsaved with ⟨rfl, hchild⟩ | ⟨id, error, rfl, hchild⟩
    · nomatch h
    · nomatch h
  asks := by
    intro limits frame point hlive
    cases point with
    | protecting =>
      obtain ⟨rfl, hchild⟩ := hlive
      refine ⟨⟨.inl ⟨rfl, rfl, rfl, rfl⟩, fun hspent => ?_, hchild⟩,
        fun result hended => ⟨rfl, hchild, hended⟩⟩
      obtain ⟨_, _, hframe, -⟩ := hspent
      simp at hframe
    | judging result =>
      obtain ⟨rfl, hchild, hended⟩ := hlive
      cases result with
      | ok output => exact .guarded hchild hended
      | error e =>
        cases e with
        | execution error =>
          simp only [tryConstruct]
          split
          next hcatch => exact ⟨rfl, hcatch, hchild, hended⟩
          next hcatch => exact .childFails hchild hended fun _ => by simpa using hcatch
        | suspended => trivial
        | infrastructure => trivial
    | selecting error =>
      obtain ⟨rfl, hcatch, hchild, hended⟩ := hlive
      -- the handler for the code of the error, or the fallback
      obtain ⟨body, hbody, hfor⟩ := handlers.select_for error
      have hhandler := Prescribes.handles hchild hended hnode hcatch hfor
      refine ⟨⟨rfl, fun body' hbody' => ?_⟩, fun step => ⟨?_, ?_⟩, fun error => .inl rfl⟩
      · obtain rfl := Option.some.inj (hbody.symm.trans hbody')
        exact hhandler
      · intro hspent
        obtain ⟨_, _, hframe, -⟩ := hspent
        simp at hframe
      · intro body' bodyInput hruns
        rcases hruns with ⟨-, rfl, -⟩ | ⟨_, _, hframe, -⟩
        · exact .inr ⟨_, _, rfl, rfl⟩
        · simp at hframe
    | handling id error =>
      obtain ⟨rfl, hchild⟩ := hlive
      simp only [tryConstruct]
      split
      · trivial
      next body hbody =>
        refine ⟨⟨.inr ⟨id, error, rfl, rfl, hbody, rfl⟩, fun hspent => ?_, hchild body hbody⟩,
          fun result hended => ⟨error, body, rfl, hbody, hchild body hbody, hended⟩⟩
        obtain ⟨_, _, -, hstep⟩ := hspent
        nomatch hstep
    | handled id result =>
      obtain ⟨error, body, rfl, hbody, hchild, hended⟩ := hlive
      cases result with
      | ok output => exact .handled hchild hended
      | error e =>
        cases e with
        | execution error => exact .childFails hchild hended (by simp)
        | suspended => trivial
        | infrastructure => trivial

end

end Engine

end WorkflowForge
