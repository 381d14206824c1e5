import WorkflowForge.Engine.Group

/-!
# Stopped Groups

The stop marker of a group is honoured by every later worker: it admits no child past the saved
cursor, and the group ends with the reason that was saved first. There is one exception: a
worker that goes on with a stopped group and finds no free slot for an admitted child replaces
the reason in its result.

## Main results

- `stop_permanent`: while no slot is refused to a stopped group, the marker is permanent.
- `stop_replaced`: a history in which the group returns another error than the saved one.
-/

namespace WorkflowForge.Engine

open Lib

/-! ## What a history saved -/

def Occurrence.frame? : Occurrence → Option ControlFrame
  | .saved frame | .stopped frame _ _ => some frame
  | _ => none

/-- The frames a history saved, oldest first. -/
def frames (log : List Occurrence) : List ControlFrame :=
  log.filterMap Occurrence.frame?

/-- A frame carries a cursor and, once the group is stopped, the reason. -/
def Carries (frame : ControlFrame) (n : Nat) (e : Option ForgeError) : Prop :=
  saved frame = some (n, e.isSome, e)

/-- A later frame: the cursor never moves back, and a marker stays as it is. -/
def Follows (earlier later : ControlFrame) : Prop :=
  ∃ n m e e', Carries earlier n e ∧ Carries later m e' ∧ n ≤ m ∧ (e.isSome → m = n ∧ e' = e)

/-- Happened since the last worker began. -/
def Recent (log : List Occurrence) (e : Occurrence) : Prop :=
  ∃ pre post, log = pre ++ e :: post ∧ ∀ input, .began input ∉ post

/-- The worker has seen an unresolved effect. -/
def UnknownSeen (log : List Occurrence) : Prop :=
  (∃ cancelled, Recent log (.surveyed true cancelled)) ∨
    ∃ index error cancelled, error.code = "effect.unknown" ∧
      Recent log (.joined index (.error (.execution error)) cancelled)

/-- What a group returns that was stopped for a reason: the reason, or an unresolved effect
that takes precedence; or the runtime failed under one of its children. -/
inductive StopReturns (reason : ForgeError) (log : List Occurrence) :
    Except StepError Value → Prop where
  | reason : StopReturns reason log (.error (.execution reason))
  | unresolved : UnknownSeen log → StopReturns reason log (.error (.execution unknownError))
  | broken {index : Nat} {error : ForgeError} {cancelled : Bool} :
      Recent log (.joined index (.error (.infrastructure error)) cancelled) →
      StopReturns reason log (.error (.infrastructure error))

/-- The waits below a key that were open are closed, and no others are touched. -/
def Closes (key : String) (before after : RunSnapshot) : Prop :=
  ∀ id : String, after.waits[id]? = (before.waits[id]?).map (closeBelow (key ++ "/"))

/-- A stop marker is permanent. -/
structure StopPermanent (key : String) (log : List Occurrence) : Prop where
  /-- The saved cursor never decreases, and a marker keeps its reason. -/
  monotone : (frames log).Pairwise Follows
  /-- No child at or above the cursor of a marker is entered, before or after. -/
  admitted : ∀ frame before after, .stopped frame before after ∈ log → ∃ n e,
    Carries frame n (some e) ∧
      ∀ index step body input, .spawned index step body input ∈ log → index < n
  /-- The commit of the marker closes the open waits below the group, and no others. -/
  closes : ∀ frame before after, .stopped frame before after ∈ log → Closes key before after
  /-- After a marker the group returns its reason, but for an effect that is unresolved. -/
  returns : ∀ pre result post, log = pre ++ .returned result :: post →
    ∀ frame before after, .stopped frame before after ∈ pre → ∃ n e,
      Carries frame n (some e) ∧ StopReturns e pre result

/-- No slot is refused to a group after it was stopped for another reason. -/
def SlotsHeld (log : List Occurrence) : Prop :=
  ∀ pre post, log = pre ++ .permitted false :: post → ∀ frame before after,
    .stopped frame before after ∈ pre → ∃ n, Carries frame n (some slotsExhausted)

/-- The commit of a marker. -/
theorem stopGroup_closes {limits : Limits} {key : String} {frame : ControlFrame}
    {before after : RunSnapshot}
    (h : update false (stopGroup limits key frame) before = .ok (some after)) :
    Closes key before after := by
  obtain ⟨-, edited, revision, he, -, rfl⟩ := update_eq_some h
  obtain ⟨record, -, rfl, -⟩ := stopGroup_eq_some he
  exact fun id => BTreeMap.get_mapValues _ _ id

/-! ## Growing histories -/

theorem Recent.append {log : List Occurrence} {e x : Occurrence} (h : Recent log e)
    (hx : ∀ input, x ≠ .began input) : Recent (log ++ [x]) e := by
  obtain ⟨pre, post, rfl, hpost⟩ := h
  refine ⟨pre, post ++ [x], by simp, fun input hmem => ?_⟩
  rcases List.mem_append.mp hmem with hmem | hmem
  · exact hpost input hmem
  · exact hx input (List.mem_singleton.mp hmem).symm

theorem Recent.last {log : List Occurrence} {e : Occurrence} : Recent (log ++ [e]) e :=
  ⟨log, [], rfl, by simp⟩

theorem UnknownSeen.append {log : List Occurrence} {x : Occurrence} (h : UnknownSeen log)
    (hx : ∀ input, x ≠ .began input) : UnknownSeen (log ++ [x]) := by
  rcases h with ⟨cancelled, h⟩ | ⟨index, error, cancelled, hcode, h⟩
  · exact .inl ⟨cancelled, h.append hx⟩
  · exact .inr ⟨index, error, cancelled, hcode, h.append hx⟩

theorem SlotsHeld.of_append {log : List Occurrence} {x : Occurrence}
    (h : SlotsHeld (log ++ [x])) : SlotsHeld log := by
  rintro pre post rfl
  exact h pre (post ++ [x]) (by simp)

theorem Carries.unique {frame : ControlFrame} {n m : Nat} {e e' : Option ForgeError}
    (h : Carries frame n e) (h' : Carries frame m e') : n = m ∧ e = e' := by
  obtain ⟨rfl, -, rfl⟩ : n = m ∧ e.isSome = e'.isSome ∧ e = e' := by
    simpa using h.symm.trans h'
  exact ⟨rfl, rfl⟩

theorem Carries.progress {frame : ControlFrame} {n : Nat} {e : Option ForgeError}
    (h : Carries frame n e) (next : Nat) (stop : Option ForgeError) :
    Carries (progress frame next stop) (max n next) (e <|> stop) :=
  saved_progress h next stop

/-- What the history of a group says while its frame carries a cursor and a reason. -/
structure GroupLog (key : String) (n : Nat) (e : Option ForgeError) (log : List Occurrence) :
    Prop where
  admitted : ∀ index step body input, .spawned index step body input ∈ log → index < n
  monotone : (frames log).Pairwise Follows
  followed : ∀ frame ∈ frames log, ∃ m e', Carries frame m e' ∧ m ≤ n ∧
    (e'.isSome → n = m ∧ e = e')
  marked : e.isSome → ∃ frame before after, .stopped frame before after ∈ log
  marker : ∀ frame before after, .stopped frame before after ∈ log →
    e.isSome ∧ Carries frame n e ∧ Closes key before after
  returns : SlotsHeld log → ∀ pre result post, log = pre ++ .returned result :: post →
    ∀ frame before after, .stopped frame before after ∈ pre → ∃ reason,
      e = some reason ∧ StopReturns reason pre result

namespace GroupLog

variable {key : String} {n : Nat} {e : Option ForgeError} {log : List Occurrence}

theorem nil : GroupLog key 0 none [] where
  admitted _ _ _ _ h := by simp at h
  monotone := List.Pairwise.nil
  followed _ h := by simp [frames] at h
  marked h := nomatch h
  marker _ _ _ h := by simp at h
  returns _ _ _ _ h := by simp at h

/-- One more occurrence, which may save a frame that follows. -/
theorem append {m : Nat} {e' : Option ForgeError} {x : Occurrence} (h : GroupLog key n e log)
    (hle : n ≤ m) (hkeep : e.isSome → m = n ∧ e' = e)
    (hspawned : ∀ index step body input, x = .spawned index step body input → index < m)
    (hframe : ∀ frame, x.frame? = some frame → Carries frame m e')
    (hmarked : e'.isSome → e.isSome ∨ ∃ frame before after, x = .stopped frame before after)
    (hmarker : ∀ frame before after, x = .stopped frame before after →
      e'.isSome ∧ Closes key before after)
    (hreturned : ∀ result, x = .returned result → SlotsHeld log → ∀ reason,
      e' = some reason → StopReturns reason log result) :
    GroupLog key m e' (log ++ [x]) where
  -- an admission of the log so far, or the occurrence itself
  admitted index step body input hmem := by
    rcases List.mem_append.mp hmem with hmem | hmem
    · exact (h.admitted index step body input hmem).trans_le hle
    · exact hspawned index step body input (List.mem_singleton.mp hmem).symm
  monotone := by
    rw [frames, List.filterMap_append]
    refine List.pairwise_append.mpr ⟨h.monotone, ?_, fun f hf g hg => ?_⟩
    · cases hx : x.frame? <;> simp [hx]
    · -- the new frame follows what the old one carried
      obtain ⟨k, e₀, hk, hkn, hk'⟩ := h.followed f hf
      have hg : x.frame? = some g := by simpa using hg
      refine ⟨k, m, e₀, e', hk, hframe g hg, hkn.trans hle, fun hsome => ?_⟩
      obtain ⟨rfl, rfl⟩ := hk' hsome
      exact hkeep hsome
  followed f hf := by
    rw [frames, List.filterMap_append] at hf
    rcases List.mem_append.mp hf with hf | hf
    · obtain ⟨k, e₀, hk, hkn, hk'⟩ := h.followed f hf
      refine ⟨k, e₀, hk, hkn.trans hle, fun hsome => ?_⟩
      obtain ⟨rfl, rfl⟩ := hk' hsome
      exact hkeep hsome
    · have hf : x.frame? = some f := by simpa using hf
      exact ⟨m, e', hframe f hf, le_rfl, fun _ => ⟨rfl, rfl⟩⟩
  marked hsome := by
    rcases hmarked hsome with hsome | ⟨f, b, a, rfl⟩
    · obtain ⟨f, b, a, hmem⟩ := h.marked hsome
      exact ⟨f, b, a, List.mem_append_left _ hmem⟩
    · exact ⟨f, b, a, by simp⟩
  marker f b a hmem := by
    rcases List.mem_append.mp hmem with hmem | hmem
    · obtain ⟨hsome, hcarries, hclosed⟩ := h.marker f b a hmem
      obtain ⟨rfl, rfl⟩ := hkeep hsome
      exact ⟨hsome, hcarries, hclosed⟩
    · obtain rfl := List.mem_singleton.mp hmem
      obtain ⟨hsome, hclosed⟩ := hmarker f b a rfl
      exact ⟨hsome, hframe f rfl, hclosed⟩
  -- the return is the new occurrence, or was in the log before
  returns hslots pre result post hlog f b a hmem := by
    obtain ⟨rfl, rfl, -⟩ | ⟨post', -, hpre⟩ := snoc_eq_append_cons hlog
    · obtain ⟨reason, hreason⟩ := Option.isSome_iff_exists.mp (h.marker f b a hmem).1
      have he : e' = some reason := (hkeep (h.marker f b a hmem).1).2.trans hreason
      exact ⟨reason, he, hreturned result rfl hslots.of_append reason he⟩
    · obtain ⟨reason, he, hreturns⟩ := h.returns hslots.of_append pre result post' hpre f b a hmem
      obtain ⟨rfl, rfl⟩ := hkeep (by rw [he]; rfl)
      exact ⟨reason, he, hreturns⟩

/-- An occurrence that the clauses do not speak of. -/
theorem quiet {x : Occurrence} (h : GroupLog key n e log)
    (hspawned : ∀ index step body input, x ≠ .spawned index step body input)
    (hframe : x.frame? = none) (hreturned : ∀ result, x ≠ .returned result) :
    GroupLog key n e (log ++ [x]) := by
  refine h.append le_rfl (fun _ => ⟨rfl, rfl⟩) (fun _ _ _ _ hx => absurd hx (hspawned _ _ _ _))
    (fun f hx => nomatch hframe.symm.trans hx) Or.inl (fun f b a hx => ?_)
    (fun _ hx => absurd hx (hreturned _))
  subst hx
  nomatch hframe

theorem permanent (h : GroupLog key n e log) (hslots : SlotsHeld log) : StopPermanent key log where
  monotone := h.monotone
  admitted f b a hmem := by
    obtain ⟨hsome, hcarries, -⟩ := h.marker f b a hmem
    obtain ⟨reason, rfl⟩ := Option.isSome_iff_exists.mp hsome
    exact ⟨n, reason, hcarries, h.admitted⟩
  closes f b a hmem := (h.marker f b a hmem).2.2
  returns pre result post hlog f b a hmem := by
    obtain ⟨reason, rfl, hreturns⟩ := h.returns hslots pre result post hlog f b a hmem
    refine ⟨n, reason, (h.marker f b a ?_).2.1, hreturns⟩
    rw [hlog]
    exact List.mem_append_left _ hmem

end GroupLog

/-! ## The worker -/

/-- What the variables of the worker keep, over a frame's cursor and reason. -/
structure GroupState.Sound (s : GroupState) (n : Nat) (e : Option ForgeError)
    (log : List Occurrence) : Prop where
  total_le : s.total ≤ s.source.length
  next_le : s.next ≤ s.total
  counted : s.next ≤ n
  /-- A stopped group admits nothing, or only children that were admitted before. -/
  stopped : e.isSome → s.halted = true ∨ s.total ≤ n
  failed : SlotsHeld log → s.failed = e.map .execution ∨
    s.failed = some (.execution unknownError) ∧ UnknownSeen log

/-- The children that a round still admits. -/
def GroupState.Window (s : GroupState) (window : List Nat) : Prop :=
  ∃ k, window = List.range' s.next k ∧ s.next + k ≤ s.total ∧ (s.halted = true → k = 0)

/-- What the worker has to go on with, once the cursor and the reason `m`, `e'` are saved over
`n`, `e`. -/
def GroupState.Resumes (s : GroupState) (n : Nat) (e : Option ForgeError) (m : Nat)
    (e' : Option ForgeError) (log : List Occurrence) : Resumption → Prop
  | .start index window => e' = e ∧ index < m ∧ index < s.total ∧ s.Sound m e log ∧
    s.Window window
  | .exhausted => s.Sound n e log ∧ (SlotsHeld log → e' = some slotsExhausted)
  | .failed _ error => s.Sound n e log ∧ e' = (e <|> some error)
  | .oversized => s.Sound n e log ∧ e' = (e <|> some resultOversized)

def GroupPoint.Fits (n : Nat) (e : Option ForgeError) (log : List Occurrence) :
    GroupPoint → Prop
  | .admitting s window => Carries s.frame n e ∧ s.Sound n e log ∧ s.Window window
  | .saving s resumption => ∃ m e', Carries s.frame m e' ∧ n ≤ m ∧
    (e.isSome → m = n ∧ e' = e) ∧ s.Resumes n e m e' log resumption
  | .starting s index window => Carries s.frame n e ∧ index < n ∧ index < s.total ∧
    s.Sound n e log ∧ s.Window window
  | .ended result => SlotsHeld log → ∀ reason, e = some reason → StopReturns reason log result

section

variable {concurrency : Nat} {errors : GroupErrors} {limits : Limits} {s : GroupState} {n : Nat}
  {e : Option ForgeError} {log : List Occurrence}

theorem GroupState.Sound.append {x : Occurrence} (h : s.Sound n e log)
    (hx : ∀ input, x ≠ .began input) :
    s.Sound n e (log ++ [x]) :=
  { h with
    failed := fun hslots => (h.failed hslots.of_append).imp_right
      fun ⟨hfailed, hseen⟩ => ⟨hfailed, hseen.append hx⟩ }

theorem fits_round (hcarries : Carries s.frame n e) (h : s.Sound n e log) :
    (s.round concurrency).Fits n e log := by
  refine ⟨hcarries, h, _, rfl, ?_, fun hhalted => ?_⟩
  · have := h.next_le
    rcases Nat.le_total (s.next + if s.halted then 0 else concurrency - s.active.length) s.total
      with hle | hle
    · rw [min_eq_left hle]
      omega
    · rw [min_eq_right hle]
      omega
  · have := h.next_le
    simp only [hhalted, if_true, Nat.add_zero, min_eq_left this, Nat.sub_self]

/-- The reason to stop is saved after the one that is there. -/
theorem fits_stop {reason : ForgeError} {resumption : Resumption}
    (hcarries : Carries s.frame n e) (h : s.Sound n e log)
    (hresumes : ∀ frame, GroupState.Resumes { s with frame := frame } n e n (e <|> some reason) log
      resumption) : (s.stop reason resumption).Fits n e log := by
  refine ⟨n, e <|> some reason, ?_, le_rfl, fun hsome => ⟨rfl, ?_⟩, hresumes _⟩
  · have := hcarries.progress s.next (some reason)
    rwa [max_eq_left h.counted] at this
  · obtain ⟨r, rfl⟩ := Option.isSome_iff_exists.mp hsome
    rfl

theorem fits_settle {index : Nat} {value : Value} (hcarries : Carries s.frame n e)
    (h : s.Sound n e log) : (s.settle concurrency limits index value).Fits n e log := by
  unfold GroupState.settle
  dsimp only
  split
  · exact fits_stop hcarries { h with } (fun _ => ⟨{ h with }, rfl⟩)
  · exact fits_round hcarries { h with }

/-- A child has returned. -/
theorem fits_join {index : Nat} {result : Except StepError Value} {cancelled : Bool}
    (hcarries : Carries s.frame n e) (h : s.Sound n e log) :
    (s.join concurrency errors limits index result cancelled).Fits n e
      (log ++ [.joined index result cancelled]) := by
  have h := h.append (x := .joined index result cancelled) (by simp)
  unfold GroupState.join
  rcases result with (_ | error | error) | output
  · exact fits_round hcarries { h with }
  · dsimp only
    split
    next hcode =>
      refine fits_settle hcarries { h with stopped := fun hsome => ?_, failed := fun hslots => ?_ }
      · exact (h.stopped hsome).imp_left fun hhalted => by simp [hhalted]
      · exact .inr ⟨rfl, .inr ⟨index, error, cancelled, hcode, .last⟩⟩
    · split
      · exact fits_stop hcarries { h with } (fun _ => ⟨{ h with }, rfl⟩)
      · exact fits_settle hcarries { h with }
  · exact fun _ reason _ => .broken .last
  · exact fits_settle hcarries { h with }

/-- A slot was asked for. -/
theorem fits_admitNext {key : String} {index : Nat} {window : List Nat} {granted : Bool}
    (hcarries : Carries s.frame n e) (h : s.Sound n e log) (hlog : GroupLog key n e log)
    (hwindow : s.Window (index :: window)) :
    (s.admitNext index window granted).Fits n e (log ++ [.permitted granted]) := by
  have h' := h.append (x := .permitted granted) (by simp)
  obtain ⟨k, hk, hle, hhalted⟩ := hwindow
  cases k with
  | zero => nomatch hk
  | succ k =>
    rw [List.range'_succ, List.cons.injEq] at hk
    obtain ⟨rfl, rfl⟩ := hk
    cases granted with
    | false =>
      refine fits_stop hcarries h' fun _ => ⟨{ h' with }, fun hslots => ?_⟩
      cases e with
      | none => rfl
      | some reason =>
        -- the group is stopped, so its marker is in the history
        obtain ⟨f, b, a, hmem⟩ := hlog.marked rfl
        obtain ⟨m, hm⟩ := hslots log [] rfl f b a hmem
        exact ((hlog.marker f b a hmem).2.1.unique hm).2
    | true =>
      have hlive : s.halted = false := by
        cases hh : s.halted with
        | false => rfl
        | true => exact nomatch hhalted hh
      have hkeep : e.isSome → max n (s.next + 1) = n := fun hsome => by
        rcases h.stopped hsome with hh | htotal
        · exact nomatch hlive.symm.trans hh
        · exact max_eq_left (by omega)
      refine ⟨max n (s.next + 1), e, ?_, le_max_left _ _, fun hsome => ⟨hkeep hsome, rfl⟩, rfl,
        ?_, ?_, ?_, k, rfl, ?_, fun hh => nomatch hlive.symm.trans hh⟩
      · have := hcarries.progress (s.next + 1) none
        cases e <;> exact this
      · exact Nat.le_max_right n (s.next + 1)
      · change s.next < s.total
        omega
      · exact { h' with
          next_le := by
            change s.next + 1 ≤ s.total
            omega
          counted := le_max_right _ _
          stopped := fun hsome => .inr (by
            rcases h.stopped hsome with hh | htotal
            · exact nomatch hlive.symm.trans hh
            · exact htotal.trans (le_max_left _ _)) }
      · change s.next + 1 + k ≤ s.total
        omega

/-- The progress is saved. -/
theorem fits_proceed {m : Nat} {e' : Option ForgeError} {resumption : Resumption}
    {x : Occurrence} (hcarries : Carries s.frame m e') (hle : n ≤ m)
    (h : s.Resumes n e m e' log resumption) (hx : ∀ input, x ≠ .began input) :
    (s.proceed concurrency limits resumption).Fits m e' (log ++ [x]) := by
  -- after a failure the group admits no more and keeps the first reason
  have hstopped : ∀ {s : GroupState} {e'' : Option ForgeError} {error : ForgeError},
      s.Sound n e log → e'' = (e <|> some error) →
      GroupState.Sound
        { s with failed := s.failed <|> some (StepError.execution error), halted := true } m e''
        (log ++ [x]) := by
    intro s e'' error h he
    refine { h.append hx with
      counted := h.counted.trans hle
      stopped := fun _ => .inl rfl
      failed := fun hslots => ?_ }
    rcases h.failed hslots.of_append with hfailed | ⟨hfailed, hseen⟩
    · refine .inl ?_
      rw [he]
      change (s.failed <|> some (StepError.execution error)) = _
      rw [hfailed]
      cases e <;> rfl
    · refine .inr ⟨?_, hseen.append hx⟩
      change (s.failed <|> some (StepError.execution error)) = _
      rw [hfailed]
      rfl
  cases resumption with
  | start index window =>
    obtain ⟨rfl, hindex, htotal, hsound, hwindow⟩ := h
    exact ⟨hcarries, hindex, htotal, hsound.append hx, hwindow⟩
  -- no slot is left for a child that was counted, so the group closes for that reason
  | exhausted =>
    obtain ⟨hsound, he⟩ := h
    refine ⟨hcarries, { hsound.append hx with
      counted := hsound.counted.trans hle
      stopped := fun _ => .inl rfl
      failed := fun hslots => .inl ?_ }, 0, rfl, hsound.next_le, fun _ => rfl⟩
    rw [he hslots.of_append]
    rfl
  | failed index error =>
    obtain ⟨hsound, he⟩ := h
    exact fits_settle hcarries (hstopped hsound he)
  | oversized =>
    obtain ⟨hsound, he⟩ := h
    exact fits_round hcarries (hstopped hsound he)

/-- The result over the last look at the run. -/
theorem fits_conclude {unresolved cancelled : Bool} (h : s.Sound n e log) :
    (GroupPoint.ended (s.conclude unresolved cancelled)).Fits n e
      (log ++ [.surveyed unresolved cancelled]) := by
  intro hslots reason he
  unfold GroupState.conclude
  cases unresolved with
  | true => exact .unresolved (.inl ⟨cancelled, .last⟩)
  | false =>
    subst he
    rcases h.failed hslots.of_append with hfailed | ⟨hfailed, hseen⟩
    · simp only [hfailed, Bool.false_eq_true, if_false]
      exact .reason
    · simp only [hfailed, Bool.false_eq_true, if_false]
      exact .unresolved (hseen.append (by simp))

/-! ## The invariant -/

variable {initial : Value → Except ForgeError ControlFrame}
  {source : Value → ControlFrame → Except StepError GroupSource}

variable (concurrency errors limits source) in
/-- The frame carries the cursor and the reason of the history. -/
def groupInvariant
    (hinitial : ∀ {input frame}, initial input = .ok frame → Carries frame 0 none)
    (key : String) :
    (groupConstruct concurrency errors limits initial source).Invariant limits key where
  saved _ frame log := ∃ n e, Carries frame n e ∧ GroupLog key n e log
  live _ frame point log := ∃ n e, Carries frame n e ∧ GroupLog key n e log ∧ point.Fits n e log
  live_saved := fun ⟨n, e, hcarries, hlog, _⟩ => ⟨n, e, hcarries, hlog⟩
  initial h := ⟨0, none, hinitial h, .nil⟩
  began := fun ⟨n, e, hcarries, hlog⟩ =>
    ⟨n, e, hcarries, hlog.quiet (fun _ _ _ _ hx => nomatch hx) rfl (fun _ hx => nomatch hx)⟩
  start := by
    rintro input frame point log ⟨n, e, hcarries, hlog⟩ h
    refine ⟨n, e, hcarries, hlog.quiet (fun _ _ _ _ hx => nomatch hx) rfl
      (fun _ hx => nomatch hx), ?_⟩
    obtain ⟨src, -, h⟩ := bind_eq_ok.mp h
    have hsaved : saved frame = some (n, e.isSome, e) := hcarries
    simp only [hsaved] at h
    obtain rfl := Except.ok.inj h
    refine fits_round hcarries ⟨?_, Nat.zero_le _, Nat.zero_le _, fun hsome => .inr ?_,
      fun _ => .inl rfl⟩
    · unfold GroupState.resume
      dsimp only
      split
      · exact min_le_right _ _
      · exact le_rfl
    · simp only [GroupState.resume, hsome, if_true]
      exact min_le_left _ _
  returned := by
    rintro input frame point log result ⟨n, e, hcarries, hlog, hpoint⟩ h
    cases groupNext_asks h with
    | lost hchild =>
      obtain ⟨-, -, htotal, hsound, -⟩ := hpoint
      obtain ⟨c, hc⟩ := GroupSource.child_isSome (htotal.trans_le hsound.total_le)
      exact nomatch hchild.symm.trans hc
    | finish =>
      refine ⟨n, e, hcarries, hlog.append le_rfl (fun _ => ⟨rfl, rfl⟩)
        (fun _ _ _ _ hx => nomatch hx) (fun _ hx => nomatch hx) Or.inl
        (fun _ _ _ hx => nomatch hx) ?_⟩
      rintro _ ⟨⟩ hslots reason he
      exact hpoint hslots reason he
  barred _ h _ := nomatch groupNext_asks h
  refused := by
    rintro input frame point f refused next log ⟨n, e, hcarries, hlog, -⟩ - error
    exact ⟨n, e, hcarries, hlog.quiet (fun _ _ _ _ hx => nomatch hx) rfl
      (fun _ hx => nomatch hx)⟩
  checked _ h := nomatch groupNext_asks h
  entered _ h := nomatch groupNext_asks h
  save := by
    rintro input frame point f refused next log ⟨n, e, hcarries, hlog, hpoint⟩ h
    cases groupNext_asks h with
    | @save s resumption hopen =>
      obtain ⟨m, e', hcarries', hle, hkeep, hresumes⟩ := hpoint
      have hnone : e' = none := by
        rw [show saved s.frame = some (m, e'.isSome, e') from hcarries'] at hopen
        simpa using hopen
      refine ⟨m, e', hcarries', ?_, fits_proceed hcarries' hle hresumes (by simp)⟩
      refine hlog.append hle hkeep (fun _ _ _ _ hx => nomatch hx) ?_ (fun hsome => ?_)
        (fun _ _ _ hx => nomatch hx) (fun _ hx => nomatch hx)
      · rintro _ ⟨⟩
        exact hcarries'
      · rw [hnone] at hsome
        nomatch hsome
  permitted := by
    rintro input frame point next log ⟨n, e, hcarries, hlog, hpoint⟩ h granted
    cases groupNext_asks h with
    | permit =>
      obtain ⟨hframe, hsound, hwindow⟩ := hpoint
      exact ⟨n, e, hcarries, hlog.quiet (fun _ _ _ _ hx => nomatch hx) rfl
        (fun _ hx => nomatch hx), fits_admitNext hframe hsound hlog hwindow⟩
  spawned := by
    rintro input frame point index step body childInput next log ⟨n, e, hcarries, hlog, hpoint⟩ h
    cases groupNext_asks h with
    | spawn hchild =>
      obtain ⟨hframe, hindex, -, hsound, hwindow⟩ := hpoint
      refine ⟨n, e, hcarries, ?_, hframe, { hsound.append (by simp) with }, hwindow⟩
      refine hlog.append le_rfl (fun _ => ⟨rfl, rfl⟩) ?_ (fun _ hx => nomatch hx) Or.inl
        (fun _ _ _ hx => nomatch hx) (fun _ hx => nomatch hx)
      rintro _ _ _ _ ⟨⟩
      exact hindex
  joined := by
    rintro input frame point active next log ⟨n, e, hcarries, hlog, hpoint⟩ h index - result
      cancelled
    cases groupNext_asks h with
    | join =>
      obtain ⟨hframe, hsound, -⟩ := hpoint
      exact ⟨n, e, hcarries, hlog.quiet (fun _ _ _ _ hx => nomatch hx) rfl
        (fun _ hx => nomatch hx), fits_join hframe hsound⟩
  stopped := by
    rintro input frame point f next log before after ⟨n, e, hcarries, hlog, hpoint⟩ h hupdate
    cases groupNext_asks h with
    | @stop s resumption hstopped =>
      obtain ⟨m, e', hcarries', hle, hkeep, hresumes⟩ := hpoint
      have hsome : e'.isSome := by
        rw [show saved s.frame = some (m, e'.isSome, e') from hcarries'] at hstopped
        simpa using hstopped
      refine ⟨m, e', hcarries', ?_, fits_proceed hcarries' hle hresumes (by simp)⟩
      refine hlog.append hle hkeep (fun _ _ _ _ hx => nomatch hx) ?_
        (fun _ => .inr ⟨_, _, _, rfl⟩) ?_ (fun _ hx => nomatch hx)
      · rintro _ ⟨⟩
        exact hcarries'
      · rintro _ _ _ ⟨⟩
        exact ⟨hsome, stopGroup_closes hupdate⟩
  surveyed := by
    rintro input frame point next log ⟨n, e, hcarries, hlog, hpoint⟩ h unresolved cancelled
    cases groupNext_asks h with
    | survey =>
      obtain ⟨-, hsound, -⟩ := hpoint
      exact ⟨n, e, hcarries, hlog.quiet (fun _ _ _ _ hx => nomatch hx) rfl
        (fun _ hx => nomatch hx), fits_conclude hsound⟩

end

/-- The first frame of a group counts no child. -/
theorem groupOf_holds {instruction : PreparedInstruction} {construct : Construct GroupPoint}
    {limits : Limits} {logical key : String} {h : NodeHistory GroupPoint}
    (hg : groupOf limits instruction = some construct)
    (hr : construct.Reaches limits logical key h) : ∃ n e, GroupLog key n e h.log := by
  -- both kinds of group keep one invariant
  have hhistory : ∀ {concurrency errors initial source}
      (hinitial : ∀ {input frame}, initial input = .ok frame → Carries frame 0 none),
      (groupConstruct concurrency errors limits initial source).Reaches limits logical key h →
      ∃ n e, GroupLog key n e h.log := by
    intro concurrency errors initial source hinitial hr
    have hholds := (groupInvariant concurrency errors limits source hinitial key).reaches hr
    unfold Construct.Invariant.Holds at hholds
    split at hholds
    · rw [hholds.1]
      exact ⟨0, none, .nil⟩
    · obtain ⟨input, frame, -, ⟨⟨n, e, -, hlog⟩, -⟩, -⟩ := hholds
      exact ⟨n, e, hlog⟩
  cases instruction with
  | parallel branches concurrency errors =>
    obtain rfl := Option.some.inj hg
    refine hhistory (fun {input frame} h => ?_) hr
    obtain rfl := Except.ok.inj h
    rfl
  | «foreach» items body concurrency errors =>
    obtain rfl := Option.some.inj hg
    refine hhistory (fun {input frame} h => ?_) hr
    obtain ⟨values, -, h⟩ := bind_eq_ok.mp h
    obtain ⟨-, -, h⟩ := bind_eq_ok.mp h
    obtain rfl := Except.ok.inj h
    rfl
  | _ => nomatch hg

/-- **Stopped groups.** In every history of a parallel or foreach node, over any crashes,
resumptions and completions, in which no slot is refused to a group that was stopped for
another reason, a stop marker is permanent. -/
theorem stop_permanent {instruction : PreparedInstruction} {construct : Construct GroupPoint}
    {limits : Limits} {logical key : String} {h : NodeHistory GroupPoint}
    (hg : groupOf limits instruction = some construct)
    (hr : construct.Reaches limits logical key h) (hslots : SlotsHeld h.log) :
    StopPermanent key h.log := by
  obtain ⟨n, e, hlog⟩ := groupOf_holds hg hr
  exact hlog.permanent hslots

/-! ## A refused slot -/

/-- A group of one child that stops when it fails. -/
def sampleGroup : Construct GroupPoint :=
  parallelConstruct 1 .failFast {} [("a", ⟨[], .literal .null⟩)]

def sampleFailure : ForgeError := .new "x" ""

def sampleProgress (next : Nat) (reason : Option ForgeError) : ControlFrame :=
  .parallel ["a"] next reason.isSome reason

def sampleNode (next : Nat) (reason : Option ForgeError) : InvocationRecord :=
  controlRecord "i" .running .null (sampleProgress next reason)

/-- The run around the node. -/
def sampleAround (next : Nat) (reason : Option ForgeError) : RunSnapshot :=
  sampleRun.setRecord "/nodes/a" (sampleNode next reason)

def sampleStoppedRun (next : Nat) (reason : Option ForgeError) : RunSnapshot :=
  (stoppedRun "/nodes/a" (sampleProgress 1 (some sampleFailure)) (sampleNode next reason)
    (sampleAround next reason)).atRevision 1

/-- The child fails, the marker is saved, and the worker is gone. -/
def sampleStop : List Occurrence :=
  [.began .null, .permitted true, .saved (sampleProgress 1 none),
    .spawned 0 (.branches "a") ⟨[], .literal .null⟩ .null,
    .joined 0 (.error (.execution sampleFailure)) false,
    .stopped (sampleProgress 1 (some sampleFailure)) (sampleAround 1 none)
      (sampleStoppedRun 1 none)]

/-- The variables of a worker that begins. -/
def sampleWorker (next : Nat) (reason : Option ForgeError) : GroupState :=
  .resume (.parallel [("a", ⟨[], .literal .null⟩)] .null) (sampleProgress next reason) next
    reason.isSome reason

theorem sampleGroup_commits (next : Nat) (reason : Option ForgeError)
    (h : (stoppedRun "/nodes/a" (sampleProgress 1 (some sampleFailure)) (sampleNode next reason)
      (sampleAround next reason)).retainedDataBytes ≤ ({} : Limits).runBytes) :
    update false (stopGroup {} "/nodes/a" (sampleProgress 1 (some sampleFailure)))
      (sampleAround next reason) = .ok (some (sampleStoppedRun next reason)) := by
  have hget : (sampleAround next reason).invocations["/nodes/a"]? = some (sampleNode next reason) :=
    BTreeMap.get_insert_self _ _ _
  have hstop : stopGroup {} "/nodes/a" (sampleProgress 1 (some sampleFailure))
      (sampleAround next reason) = .ok (some (stoppedRun "/nodes/a"
        (sampleProgress 1 (some sampleFailure)) (sampleNode next reason)
        (sampleAround next reason))) := by
    simp only [stopGroup, hget]
    rw [if_neg (Nat.not_lt.mpr h)]
  have hrevision : checkedAdd (sampleAround next reason).revision 1 = some 1 := rfl
  simp only [update, updateWithView, hstop, hrevision]
  rfl

theorem sampleGroup_stops :
    sampleGroup.Reaches {} "i" "/nodes/a"
      ⟨some (sampleNode 1 (some sampleFailure)), .idle, sampleStop⟩ := by
  have hlive : planNode none false false = .ok .execute := rfl
  have hframe : sampleGroup.initial .null = .ok (sampleProgress 0 none) := rfl
  have hactivate : Commits {} true (activate "i" .null (sampleProgress 0 none)) none
      (sampleNode 0 none) := Construct.commits_of_sampleRun (by decide +kernel)
  have hupdate : Commits {} true (updateFrame (sampleProgress 1 none)) (some (sampleNode 0 none))
      (sampleNode 1 none) := Construct.commits_of_sampleRun (by decide +kernel)
  have h := Relation.ReflTransGen.refl (r := sampleGroup.Step {} "i" "/nodes/a") (a := {})
  have h := h.tail (.begun rfl hlive (fun _ hr => nomatch hr) hframe)
  have h := h.tail (.activated rfl hactivate)
  have hentry : sampleGroup.entry .null (sampleProgress 0 none) =
      .at .null (.admitting (sampleWorker 0 none) [0]) := rfl
  have h := h.tail (@Construct.Step.permitted _ sampleGroup _ _ _ _ _ _ _ true hentry rfl)
  have h := h.tail (.saved rfl rfl hupdate)
  have h := h.tail (.spawned rfl rfl)
  have h := h.tail (@Construct.Step.joined _ sampleGroup _ _ _ _ _ _ _ _ 0
    (.error (.execution sampleFailure)) false rfl rfl (List.mem_singleton_self 0))
  have h := h.tail (.stopped rfl rfl rfl (sampleGroup_commits 1 none (by decide +kernel)))
  exact h.tail (.dropped _)

/-- The next worker finds no slot for the child that was admitted, and returns that. -/
def sampleReplaced : List Occurrence :=
  sampleStop ++ [.began .null, .permitted false,
    .stopped (sampleProgress 1 (some sampleFailure)) (sampleAround 1 (some sampleFailure))
      (sampleStoppedRun 1 (some sampleFailure)),
    .surveyed false false, .returned (.error (.execution slotsExhausted))]

theorem sampleGroup_replaces :
    sampleGroup.Reaches {} "i" "/nodes/a"
      ⟨some (sampleNode 1 (some sampleFailure)),
        .recording .null (.error (.execution slotsExhausted)), sampleReplaced⟩ := by
  have hplan : planNode (some (sampleNode 1 (some sampleFailure))) false false = .ok .execute :=
    rfl
  have hentry : sampleGroup.entry .null (sampleProgress 1 (some sampleFailure)) =
      .at .null (.admitting (sampleWorker 1 (some sampleFailure)) [0]) := rfl
  have hinput : ∀ r, some (sampleNode 1 (some sampleFailure)) = some r → Value.null = r.input := by
    rintro _ ⟨⟩
    rfl
  have h := sampleGroup_stops.tail (.begun rfl hplan hinput rfl)
  have h := h.tail (.resumed rfl rfl)
  have h := h.tail (@Construct.Step.permitted _ sampleGroup _ _ _ _ _ _ _ false hentry rfl)
  have h := h.tail (.stopped rfl rfl rfl
    (sampleGroup_commits 1 (some sampleFailure) (by decide +kernel)))
  have h := h.tail (@Construct.Step.surveyed _ sampleGroup _ _ _ _ _ _ _ false false rfl rfl)
  exact h.tail (.returned rfl rfl)

/-- A refused slot replaces the reason that was saved first. -/
theorem stop_replaced : ∃ construct h,
    groupOf {} (.parallel [("a", ⟨[], .literal .null⟩)] 1 .failFast) = some construct ∧
      construct.Reaches {} "i" "/nodes/a" h ∧ ¬ StopPermanent "/nodes/a" h.log := by
  refine ⟨sampleGroup, _, rfl, sampleGroup_replaces, fun h => ?_⟩
  obtain ⟨n, reason, hcarries, hreturns⟩ := h.returns
    (sampleStop ++ [.began .null, .permitted false,
      .stopped (sampleProgress 1 (some sampleFailure)) (sampleAround 1 (some sampleFailure))
        (sampleStoppedRun 1 (some sampleFailure)), .surveyed false false]) _ [] rfl
    (sampleProgress 1 (some sampleFailure)) (sampleAround 1 none) (sampleStoppedRun 1 none)
    (by simp [sampleStop])
  have hreason := (hcarries.unique
    (show Carries (sampleProgress 1 (some sampleFailure)) 1 (some sampleFailure) from rfl)).2
  obtain rfl := Option.some.inj hreason
  generalize hresult : Except.error (StepError.execution slotsExhausted) = result at hreturns
  cases hreturns with
  | reason => nomatch (show slotsExhausted ≠ sampleFailure by decide) (by simpa using hresult)
  | unresolved => nomatch (show slotsExhausted ≠ unknownError by decide) (by simpa using hresult)
  | broken => nomatch hresult

/-- The next worker enters the child again, which is suspended, and returns the reason. -/
def sampleHonoured : List Occurrence :=
  sampleStop ++ [.began .null, .permitted true,
    .stopped (sampleProgress 1 (some sampleFailure)) (sampleAround 1 (some sampleFailure))
      (sampleStoppedRun 1 (some sampleFailure)),
    .spawned 0 (.branches "a") ⟨[], .literal .null⟩ .null,
    .joined 0 (.error .suspended) false, .surveyed false false,
    .returned (.error (.execution sampleFailure))]

theorem sampleGroup_honours :
    sampleGroup.Reaches {} "i" "/nodes/a"
      ⟨some (sampleNode 1 (some sampleFailure)),
        .recording .null (.error (.execution sampleFailure)), sampleHonoured⟩ := by
  have hplan : planNode (some (sampleNode 1 (some sampleFailure))) false false = .ok .execute :=
    rfl
  have hentry : sampleGroup.entry .null (sampleProgress 1 (some sampleFailure)) =
      .at .null (.admitting (sampleWorker 1 (some sampleFailure)) [0]) := rfl
  have hinput : ∀ r, some (sampleNode 1 (some sampleFailure)) = some r → Value.null = r.input := by
    rintro _ ⟨⟩
    rfl
  have h := sampleGroup_stops.tail (.begun rfl hplan hinput rfl)
  have h := h.tail (.resumed rfl rfl)
  have h := h.tail (@Construct.Step.permitted _ sampleGroup _ _ _ _ _ _ _ true hentry rfl)
  have h := h.tail (.stopped rfl rfl rfl
    (sampleGroup_commits 1 (some sampleFailure) (by decide +kernel)))
  have h := h.tail (.spawned rfl rfl)
  have h := h.tail (@Construct.Step.joined _ sampleGroup _ _ _ _ _ _ _ _ 0
    (.error .suspended) false rfl rfl (List.mem_singleton_self 0))
  have h := h.tail (@Construct.Step.surveyed _ sampleGroup _ _ _ _ _ _ _ false false rfl rfl)
  exact h.tail (.returned rfl rfl)

theorem stop_permanent_sample : StopPermanent "/nodes/a" sampleHonoured := by
  refine @stop_permanent (.parallel [("a", ⟨[], .literal .null⟩)] 1 .failFast) sampleGroup _ "i" _
    _ rfl sampleGroup_honours ?_
  intro pre post hlog
  have hmem : .permitted false ∈ sampleHonoured := by
    change sampleHonoured = _ at hlog
    simp [hlog]
  simp [sampleHonoured, sampleStop] at hmem

end WorkflowForge.Engine
