import WorkflowForge.Lib.Transition
import WorkflowForge.Sqlite.Lifecycle

/-!
# Readers of Artifacts

Uploads, pins, clean-ups, ownership claims and readers in any interleaving: each transaction
of the worker is one step, with any arguments, and so is each chunk a reader asks for.
Identities of artifacts are drawn fresh.

## Main results

- `World.Inv`: the rows of an artifact are the log of its identity, and so is what a reader
  was given.
- `artifact_lifecycle`: contiguous chunks, budgets, who may read and what a reader gets, and
  what no clean-up removes.
-/

namespace WorkflowForge.Sqlite.Artifacts

open Lib

/-! ## The world -/

inductive ReaderStage where
  | reading
  | complete
  | failed
deriving DecidableEq

/-- A reader between two chunks, with what it was given so far. -/
structure Reader where
  owner : String
  access : Option ArtifactAccess
  reference : ArtifactRef
  chunks : Nat
  sequence : Nat := 0
  offset : Nat := 0
  output : List UInt8 := []
  stage : ReaderStage := .reading

structure World where
  owner : Option String := none
  tables : Tables := {}
  /-- The identities that were drawn. -/
  drawn : List String := []
  /-- What was appended to each identity, in order. -/
  log : String → List (List UInt8) := fun _ => []
  readers : Nat → Option Reader := fun _ => none

inductive Action where
  | request (caller : String) (request : Request)
  | claim (owner : String)
  | release (owner : String)
  /-- The process is gone, and its lock with it. -/
  | crash
  | openRead (reader : Nat) (host : Option String) (access : Option ArtifactAccess)
      (reference : ArtifactRef) (now : UInt64)
  | nextChunk (reader : Nat) (now : UInt64)

section Step

variable (hash : Value → String) (options : SqliteOptions)

/-- A transaction, rolled back when it fails. -/
def perform (w : World) (caller : String) (request : Request) : World :=
  let w := { w with drawn := request.draws.toList ++ w.drawn }
  if w.owner ≠ some caller then w
  else
    match request.apply hash options w.tables with
    | .error _ => w
    | .ok tables => { w with tables := tables, log := request.logged w.log }

/-- The owner a reader speaks for. -/
def readerOwner (w : World) (host : Option String) (access : Option ArtifactAccess) :
    Option String :=
  match host, access with
  | some host, _ => some host
  | none, some access => some access.runtimeOwner
  | none, none => w.owner

/-- The first transaction of a reader; one that is refused leaves no reader behind. -/
def openRead (w : World) (host : Option String) (access : Option ArtifactAccess)
    (reference : ArtifactRef) (now : UInt64) : Option Reader := do
  let owner ← readerOwner w host access
  guard (w.owner = some owner)
  match checkRead w.tables reference access now with
  | .error _ => none
  | .ok chunks => some { owner, access, reference, chunks }

/-- The body of one chunk, if the reader may still read. -/
def readChunk (w : World) (r : Reader) (now : UInt64) : Option (List UInt8) := do
  guard (w.owner = some r.owner)
  match checkRead w.tables r.reference r.access now with
  | .error _ => none
  | .ok _ => (chunksOf w.tables.files r.reference.id)[r.sequence]?

/-- What a reader does next. -/
def Reader.next (w : World) (r : Reader) (now : UInt64) : Reader :=
  if r.sequence = r.chunks then
    { r with stage := if r.offset = r.reference.bytes.toNat then .complete else .failed }
  else
    match readChunk w r now with
    | none => { r with stage := .failed }
    | some data =>
      if data.length = 0 ∨ data.length > chunkBytes ∨
          data.length > r.reference.bytes.toNat - r.offset then
        { r with stage := .failed }
      else
        { r with
          sequence := r.sequence + 1
          offset := r.offset + data.length
          output := r.output ++ data }

def step (w : World) : Action → Option World
  | .request caller request =>
    -- an identity is drawn once
    if request.draws.any w.drawn.contains then none
    else some (perform hash options w caller request)
  | .claim owner =>
    if w.owner.isSome ∨ owner = "" then some w
    else some { w with owner := some owner, tables := deleteStaging w.tables }
  | .release owner => some (if w.owner = some owner then { w with owner := none } else w)
  | .crash => some { w with owner := none }
  | .openRead reader host access reference now =>
    if (w.readers reader).isSome then none
    else some { w with
      readers := Function.update w.readers reader (openRead w host access reference now) }
  | .nextChunk reader now =>
    match w.readers reader with
    | some r =>
      if r.stage = .reading then
        some { w with readers := Function.update w.readers reader (some (r.next w now)) }
      else none
    | none => none

/-- The artifact store, from empty tables. -/
def artifactStore : System World Action where
  init w := w = {}
  step := step hash options

end Step

/-! ## What may be read -/

section Read

variable {t t' : Tables} {reference : ArtifactRef} {access : Option ArtifactAccess}
  {now : UInt64} {chunks : Nat}

theorem authorizeRun_read {db : Db} {a : ArtifactAccess} {scope : String} :
    authorizeRun db a scope false = .ok () ↔
      ∃ row, db.runs[a.runId]? = some row ∧ scope = row.scope := by
  unfold authorizeRun
  cases db.runs[a.runId]? with
  | none => simp
  | some row => by_cases h : scope = row.scope <;> simp [h, ensure, bind, Except.bind]

/-- Which references can be read, and how many chunks they answer. -/
theorem checkReference_eq_ok {files : ArtifactDb} :
    checkReference files reference now = .ok chunks ↔
      (reference.bytes.toNat < 2 ^ 63 ∧ now.toNat < 2 ^ 63) ∧
        ∃ row, files.artifacts[reference.id]? = some row ∧
          readable files reference now row = true ∧ chunks = row.chunks := by
  have hstorable : (∀ n ∈ [reference.bytes.toNat, now.toNat], n < 2 ^ 63) ↔
      reference.bytes.toNat < 2 ^ 63 ∧ now.toNat < 2 ^ 63 := by
    rw [List.forall_mem_cons, List.forall_mem_singleton]
  constructor
  · intro h
    have hfound := checkReference_found h
    obtain ⟨_, hs, _⟩ := bind_eq_ok.mp h
    exact ⟨hstorable.mp (storable_eq_ok.mp hs), hfound⟩
  · rintro ⟨hs, row, hrow, hreadable, rfl⟩
    refine bind_eq_ok.mpr ⟨(), storable_eq_ok.mpr (hstorable.mpr hs), ?_⟩
    simp only [hrow]
    exact if_pos hreadable

/-- A run reads what it owns, of its own scope. -/
theorem checkRead_run {a : ArtifactAccess} :
    checkRead t reference (some a) now = .ok chunks ↔
      checkReference t.files reference now = .ok chunks ∧
        (∃ row, t.db.runs[a.runId]? = some row ∧ reference.scope = row.scope) ∧
        (reference.id, a.runId) ∈ t.files.owners := by
  rw [← authorizeRun_read]
  simp only [checkRead, bind_eq_ok, ensure_eq_ok, List.contains_iff_mem, pure, Except.pure]
  constructor
  · rintro ⟨chunks', hc, _, ha, _, ho, h⟩
    obtain rfl := Except.ok.inj h
    exact ⟨hc, ha, ho⟩
  · rintro ⟨hc, ha, ho⟩
    exact ⟨chunks, hc, (), ha, (), ho, rfl⟩

/-- Who may read at all reads a reference that can be read. -/
theorem checkRead_reference (h : checkRead t reference access now = .ok chunks) :
    checkReference t.files reference now = .ok chunks := by
  cases access with
  | none =>
    obtain ⟨chunks', hc, h⟩ := bind_eq_ok.mp h
    obtain rfl := Except.ok.inj h
    exact hc
  | some a => exact (checkRead_run.mp h).1

end Read

/-! ## What readers see -/

section Readers

variable {hash : Value → String} {options : SqliteOptions} {t t' : Tables} {id : String}
  {log : String → List (List UInt8)} {w w' : World}

/-- Nothing is appended to an identity any more: its row is published or gone. -/
def Sealed (t : Tables) (id : String) : Prop :=
  ∀ row, t.files.artifacts[id]? = some row → row.state = .ready

theorem Sealed.deleteWhere {p : String → ArtifactRow → Bool} {db : Db} (h : Sealed t id) :
    Sealed ⟨db, Artifacts.deleteWhere p t.files⟩ id := by
  intro row hr
  rw [show (⟨db, Artifacts.deleteWhere p t.files⟩ : Tables).files.artifacts[id]? = _ from
    get_deleteWhere] at hr
  exact h row (Option.filter_eq_some_iff.mp hr).1

theorem Sealed.pinned {run : RunId} (h : Sealed t id) (hp : Pinned run t.files t'.files) :
    Sealed t' id := by
  intro row hr
  have hforget := forget_eq hp.rows id
  rw [hr, Option.map_some] at hforget
  obtain ⟨row', hr', heq⟩ := Option.map_eq_some_iff.mp hforget.symm
  exact (congrArg ArtifactRow.state heq).symm.trans (h row' hr')

/-- No accepted transaction appends to what is sealed. -/
theorem Sealed.apply (h : Sealed t id) {request : Request} (hfresh : ∀ i ∈ request.draws, i ≠ id)
    (ha : request.apply hash options t = .ok t') :
    Sealed t' id ∧ request.logged log id = log id := by
  cases request with
  | begin reference access now later =>
    obtain ⟨_, _, _, row, _, _, _, rfl⟩ := begin_eq_ok ha
    refine ⟨fun row' hr => ?_, rfl⟩
    refine (h.deleteWhere : Sealed { t with files := collect t.files now } id) row' ?_
    rwa [BTreeMap.get_insert_ne _ _ (hfresh _ rfl)] at hr
  | append reference access sequence data =>
    obtain ⟨row, hrow, hstate, _, _, _, _, rfl⟩ := append_eq_ok ha
    -- what is sealed does not write any more
    have hne : id ≠ reference.id := by
      rintro rfl
      rw [h row hrow] at hstate
      nomatch hstate
    refine ⟨fun row' hr => h row' ?_, Function.update_of_ne hne _ _⟩
    rwa [BTreeMap.get_insert_ne _ _ (Ne.symm hne)] at hr
  -- a publication seals, and a sealed row is not published again
  | publish reference access sequence now =>
    obtain ⟨row, _, _, rfl⟩ := publish_eq_ok ha
    refine ⟨fun row' hr => ?_, rfl⟩
    rw [BTreeMap.get_insert] at hr
    split at hr
    next => rw [← Option.some.inj hr]
    next => exact h row' hr
  -- a deletion unseals nothing
  | cleanup id' =>
    obtain rfl := Except.ok.inj ha
    exact ⟨h.deleteWhere, rfl⟩
  | create clock run receipt limits =>
    obtain ⟨⟨t'', outcome⟩, hc, rfl⟩ := map_eq_ok.mp ha
    obtain ⟨_, hfiles | ⟨hp, _⟩⟩ := createRun_eq_ok hc
    · exact ⟨fun row hr => h row (hfiles ▸ hr), rfl⟩
    · exact ⟨h.pinned hp, rfl⟩
  | commit clock expected next =>
    obtain ⟨_, hp, _⟩ := commitRun_eq_ok ha
    exact ⟨h.pinned hp, rfl⟩
  | commitNode run expected path record =>
    obtain ⟨⟨db, view⟩, _, rfl⟩ := map_eq_ok.mp ha
    exact ⟨h, rfl⟩
  | collect now limits =>
    obtain ⟨_, heq⟩ := collectRuns_eq_ok ha
    rw [heq]
    exact ⟨(show Sealed ⟨t'.db, releaseOwners t'.db t.files⟩ id from h).deleteWhere, rfl⟩

/-- What a reader was given is what was appended first. -/
structure Reader.Faithful (log : String → List (List UInt8)) (r : Reader) : Prop where
  bytes : r.reference.bytes.toNat = (log r.reference.id).flatten.length
  chunks : r.chunks = (log r.reference.id).length
  output : r.output = ((log r.reference.id).take r.sequence).flatten
  complete : r.stage = .complete → r.sequence = r.chunks

theorem Reader.Faithful.congr {r : Reader} {log' : String → List (List UInt8)}
    (h : r.Faithful log) (hlog : log' r.reference.id = log r.reference.id) : r.Faithful log' where
  bytes := by rw [hlog, h.bytes]
  chunks := by rw [hlog, h.chunks]
  output := by rw [hlog, h.output]
  complete := h.complete

/-- The rows of an identity are its log, and so is what a reader was given. -/
structure World.Inv (options : SqliteOptions) (w : World) : Prop where
  kept : Kept options w.drawn w.log w.tables
  known : ∀ n r, w.readers n = some r → r.reference.id ∈ w.drawn
  fixed : ∀ n r, w.readers n = some r → Sealed w.tables r.reference.id
  faithful : ∀ n r, w.readers n = some r → r.Faithful w.log

theorem World.Inv.init : World.Inv options {} where
  kept := {
    known := fun id row hr => by simp at hr
    count := fun id row hr => by simp at hr
    bytes := fun id row hr => by simp at hr
    bodies := fun id row hr => by simp at hr
    chunkless := fun id _ => by simp
    ownerless := fun _ ho => nomatch ho
    retained := fun _ ho => nomatch ho
    fresh := fun _ _ => rfl
    budget := Nat.zero_le _
    limit := Nat.zero_le _ }
  known := nofun
  fixed := nofun
  faithful := nofun

/-- A request changes nothing but its draw, or it is accepted. -/
theorem perform_cases (hash : Value → String) (options : SqliteOptions) (w : World)
    (caller : String) (request : Request) :
    ∃ t log, perform hash options w caller request =
        { w with drawn := request.draws.toList ++ w.drawn, tables := t, log := log } ∧
      (t = w.tables ∧ log = w.log ∨
        request.apply hash options w.tables = .ok t ∧ log = request.logged w.log) := by
  unfold perform
  dsimp only
  split
  · exact ⟨_, _, rfl, .inl ⟨rfl, rfl⟩⟩
  · split
    next => exact ⟨_, _, rfl, .inl ⟨rfl, rfl⟩⟩
    next t ha => exact ⟨t, _, rfl, .inr ⟨ha, rfl⟩⟩

theorem World.Inv.perform (h : w.Inv options) {caller : String} {request : Request}
    (hfresh : ∀ i ∈ request.draws, i ∉ w.drawn) :
    (perform hash options w caller request).Inv options := by
  obtain ⟨t, log, heq, ⟨rfl, rfl⟩ | ⟨ha, rfl⟩⟩ :=
    perform_cases hash options w caller request
  · rw [heq]
    exact {
      kept := h.kept.draw _
      known := fun n r hr => List.mem_append_right _ (h.known n r hr)
      fixed := h.fixed
      faithful := h.faithful }
  · rw [heq]
    -- what a reader reads was drawn before, and is not appended to
    have hsealed : ∀ n r, w.readers n = some r → Sealed t r.reference.id ∧
        request.logged w.log r.reference.id = w.log r.reference.id := by
      intro n r hr
      refine (h.fixed n r hr).apply (fun i hi heq => ?_) ha
      exact hfresh i hi (heq ▸ h.known n r hr)
    exact {
      kept := h.kept.apply request hfresh ha
      known := fun n r hr => List.mem_append_right _ (h.known n r hr)
      fixed := fun n r hr => (hsealed n r hr).1
      faithful := fun n r hr => (h.faithful n r hr).congr (hsealed n r hr).2 }

/-- A reader that may start has been given nothing of a published artifact. -/
theorem World.Inv.openRead (h : w.Inv options) {host : Option String}
    {access : Option ArtifactAccess} {reference : ArtifactRef} {now : UInt64} {r : Reader}
    (hr : openRead w host access reference now = some r) :
    r.reference.id ∈ w.drawn ∧ Sealed w.tables r.reference.id ∧ r.Faithful w.log := by
  obtain ⟨owner, _, hr⟩ := Option.bind_eq_some_iff.mp hr
  obtain ⟨_, _, hr⟩ := Option.bind_eq_some_iff.mp hr
  split at hr
  · nomatch hr
  next chunks hcheck =>
    obtain rfl := Option.some.inj hr
    obtain ⟨_, row, hrow, hreadable, rfl⟩ := checkReference_eq_ok.mp (checkRead_reference hcheck)
    obtain ⟨_, _, hbytes, hready, _⟩ := of_decide_eq_true hreadable
    refine ⟨h.kept.known _ row hrow, fun row' hr' => ?_, ?_, ?_, rfl, nofun⟩
    · obtain rfl := Option.some.inj (hrow.symm.trans hr')
      exact hready
    · exact hbytes.symm.trans (h.kept.bytes _ row hrow)
    · exact h.kept.count _ row hrow

/-- The chunk a reader is given is the one appended at its place. -/
theorem World.Inv.readChunk (h : w.Inv options) {r : Reader} {now : UInt64} {data : List UInt8}
    (hr : readChunk w r now = some data) : (w.log r.reference.id)[r.sequence]? = some data := by
  obtain ⟨_, _, hr⟩ := Option.bind_eq_some_iff.mp hr
  split at hr
  · nomatch hr
  next chunks hcheck =>
    obtain ⟨_, row, hrow, _⟩ := checkReference_eq_ok.mp (checkRead_reference hcheck)
    rwa [h.kept.bodies _ row hrow] at hr

theorem World.Inv.next (h : w.Inv options) {n : Nat} {r : Reader} (hr : w.readers n = some r)
    (hreading : r.stage = .reading) (now : UInt64) :
    (r.next w now).reference = r.reference ∧ (r.next w now).Faithful w.log := by
  obtain ⟨hbytes, hchunks, houtput, hcomplete⟩ := h.faithful n r hr
  unfold Reader.next
  split
  next hend => exact ⟨rfl, hbytes, hchunks, houtput, fun _ => hend⟩
  next =>
    split
    next => exact ⟨rfl, hbytes, hchunks, houtput, nofun⟩
    next data hdata =>
      split
      next => exact ⟨rfl, hbytes, hchunks, houtput, nofun⟩
      next =>
        refine ⟨rfl, hbytes, hchunks, ?_, fun hc => ?_⟩
        · dsimp only
          rw [List.take_add_one, h.readChunk hdata, houtput]
          simp
        · rw [show r.stage = .complete from hc] at hreading
          nomatch hreading

/-- Every step keeps the rows and the readers what the log says. -/
theorem World.Inv.step (h : w.Inv options) {a : Action}
    (hs : Artifacts.step hash options w a = some w') : w'.Inv options := by
  have hput : ∀ {n r}, r.reference.id ∈ w.drawn ∧ Sealed w.tables r.reference.id ∧
      r.Faithful w.log →
      World.Inv options { w with readers := Function.update w.readers n (some r) } := by
    rintro n r ⟨hknown, hfixed, hfaithful⟩
    have hall : ∀ {P : Reader → Prop}, P r → (∀ n r, w.readers n = some r → P r) →
        ∀ n' r', Function.update w.readers n (some r) n' = some r' → P r' := by
      intro P hP hrest n' r' hr'
      by_cases hn : n' = n
      · subst hn
        rw [Function.update_self] at hr'
        exact Option.some.inj hr' ▸ hP
      · rw [Function.update_of_ne hn] at hr'
        exact hrest n' r' hr'
    exact {
      kept := h.kept
      known := hall hknown h.known
      fixed := hall hfixed h.fixed
      faithful := hall hfaithful h.faithful }
  cases a with
  | request caller request =>
    simp only [Artifacts.step] at hs
    split at hs
    · cases hs
    next hfresh =>
      obtain rfl := Option.some.inj hs
      refine h.perform fun i hi hmem => hfresh ?_
      rw [Option.mem_def] at hi
      simpa [hi] using hmem
  | claim owner =>
    simp only [Artifacts.step] at hs
    split at hs
    · exact Option.some.inj hs ▸ h
    · obtain rfl := Option.some.inj hs
      exact {
        kept := h.kept.deleteWhere _
        known := h.known
        fixed := fun n r hr => (h.fixed n r hr).deleteWhere
        faithful := h.faithful }
  | release owner =>
    obtain rfl := Option.some.inj hs
    split
    · exact ⟨h.kept, h.known, h.fixed, h.faithful⟩
    · exact h
  | crash =>
    obtain rfl := Option.some.inj hs
    exact ⟨h.kept, h.known, h.fixed, h.faithful⟩
  | openRead n host access reference now =>
    simp only [Artifacts.step] at hs
    split at hs
    · cases hs
    next hfree =>
      obtain rfl := Option.some.inj hs
      cases hr : Artifacts.openRead w host access reference now with
      | some r => exact hput (h.openRead hr)
      | none =>
        -- the place stays free
        have hn : w.readers n = none := by simpa using hfree
        rw [← hn, Function.update_eq_self]
        exact h
  | nextChunk n now =>
    simp only [Artifacts.step] at hs
    split at hs
    next r hr =>
      split at hs
      next hreading =>
        obtain rfl := Option.some.inj hs
        obtain ⟨href, hfaithful⟩ := h.next hr hreading now
        exact hput ⟨href ▸ h.known n r hr, href ▸ h.fixed n r hr, hfaithful⟩
      next => cases hs
    next => cases hs

end Readers

/-! ## The lifecycle -/

section Statement

variable (hash : Value → String) (options : SqliteOptions)

/-- The rows of chunks and owners stand with their artifact, and its counters are theirs. -/
structure Sound (t : Tables) : Prop where
  contiguous : ∀ (id : String) (row : ArtifactRow), t.files.artifacts[id]? = some row →
    ∀ n : Nat, (chunksOf t.files id)[n]?.isSome = true ↔ n < row.chunks
  bytes : ∀ (id : String) (row : ArtifactRow), t.files.artifacts[id]? = some row →
    row.bytes =
      ((List.range row.chunks).map fun n => ((chunksOf t.files id)[n]?.getD []).length).sum
  chunks : ∀ id : String, t.files.artifacts[id]? = none → t.files.chunks[id]? = none
  owners : ∀ o ∈ t.files.owners, (∃ row, t.files.artifacts[o.1]? = some row) ∧
    ∃ row, t.db.runs[o.2]? = some row
  budget : used t.files ≤ options.maxArtifactBytes
  limit : t.files.artifacts.size ≤ options.maxArtifacts

/-- The actions that leave a run in the tables. -/
def Retains (run : RunId) (w : World) (a : Action) : Prop :=
  ∀ w', step hash options w a = some w' → ∃ row, w'.tables.db.runs[run]? = some row

/-- What a run published and owns is there as it was. -/
def KeptFor (run : RunId) (t t' : Tables) : Prop :=
  ∀ (id : String) (row : ArtifactRow), t.files.artifacts[id]? = some row → row.state = .ready →
    (id, run) ∈ t.files.owners → (id, run) ∈ t'.files.owners ∧
      t'.files.artifacts[id]?.map ArtifactRow.forget = some (ArtifactRow.forget row) ∧
      t'.files.chunks[id]? = t.files.chunks[id]?

/-- What holds of the artifact store in a world, and from it on. -/
structure Lifecycle (w : World) : Prop where
  sound : Sound options w.tables
  /-- Only what is published can be read, by a run only what it owns. -/
  readable : ∀ reference access now chunks, checkRead w.tables reference access now = .ok chunks →
    (∃ row, w.tables.files.artifacts[reference.id]? = some row ∧ row.state = .ready) ∧
      ∀ a ∈ access, (reference.id, a.runId) ∈ w.tables.files.owners
  /-- So it is with each chunk of a reader. -/
  served : ∀ r now data, readChunk w r now = some data →
    (∃ row, w.tables.files.artifacts[r.reference.id]? = some row ∧ row.state = .ready) ∧
      ∀ a ∈ r.access, (r.reference.id, a.runId) ∈ w.tables.files.owners
  output : ∀ n r, w.readers n = some r → r.output <+: (w.log r.reference.id).flatten ∧
    (r.stage = .complete → r.output = (w.log r.reference.id).flatten)
  /-- A published artifact stays while a run that owns it is retained. -/
  kept : ∀ run w', (artifactStore hash options).Leads (Retains hash options run) w w' →
    KeptFor run w.tables w'.tables
  /-- And the run can still read it, whoever else let it go. -/
  access : ∀ a w', (artifactStore hash options).Leads (Retains hash options a.runId) w w' →
    ∀ reference now now' chunks, checkRead w.tables reference (some a) now = .ok chunks →
      now'.toNat < 2 ^ 63 → checkRead w'.tables reference (some a) now' = .ok chunks
  /-- A transaction that fails pins nothing. -/
  failed : ∀ caller request e, request.apply hash options w.tables = .error e →
    (perform hash options w caller request).tables = w.tables

end Statement

section Lifecycle

variable {hash : Value → String} {options : SqliteOptions} {drawn : List String}
  {log : String → List (List UInt8)} {t t' : Tables} {w w' : World}

theorem Kept.sound (h : Kept options drawn log t) : Sound options t where
  contiguous id row hr n := by
    simp [h.bodies id row hr, h.count id row hr]
  bytes id row hr := by
    rw [h.bytes id row hr, h.count id row hr, List.length_flatten]
    congr 1
    refine List.ext_getElem (by simp) fun n hn _ => ?_
    rw [List.length_map] at hn
    simp [h.bodies id row hr, List.getElem?_eq_getElem hn]
  chunks := h.chunkless
  owners o ho := ⟨h.ownerless o ho, h.retained o ho⟩
  budget := h.budget
  limit := h.limit

theorem checkRead_allowed {reference : ArtifactRef} {access : Option ArtifactAccess}
    {now : UInt64} {chunks : Nat} (h : checkRead t reference access now = .ok chunks) :
    (∃ row, t.files.artifacts[reference.id]? = some row ∧ row.state = .ready) ∧
      ∀ a ∈ access, (reference.id, a.runId) ∈ t.files.owners := by
  obtain ⟨_, row, hrow, hreadable, _⟩ := checkReference_eq_ok.mp (checkRead_reference h)
  obtain ⟨_, _, _, hready, _⟩ := of_decide_eq_true hreadable
  refine ⟨⟨row, hrow, hready⟩, ?_⟩
  rintro a rfl
  exact (checkRead_run.mp h).2.2

theorem readChunk_allowed {r : Reader} {now : UInt64} {data : List UInt8}
    (h : readChunk w r now = some data) :
    (∃ row, w.tables.files.artifacts[r.reference.id]? = some row ∧ row.state = .ready) ∧
      ∀ a ∈ r.access, (r.reference.id, a.runId) ∈ w.tables.files.owners := by
  obtain ⟨_, _, h⟩ := Option.bind_eq_some_iff.mp h
  split at h
  · nomatch h
  next hcheck => exact checkRead_allowed hcheck

/-- One step keeps what retained runs own. -/
theorem Keeps.step {a : Action} (hs : Artifacts.step hash options w a = some w') :
    Keeps w.tables w'.tables := by
  cases a with
  | request caller request =>
    simp only [Artifacts.step] at hs
    split at hs
    · nomatch hs
    · obtain rfl := Option.some.inj hs
      obtain ⟨t, log, heq, ⟨rfl, _⟩ | ⟨ha, _⟩⟩ :=
        perform_cases hash options w caller request
      -- a request that is refused changes nothing
      · exact heq ▸ Keeps.refl _
      · exact heq ▸ Keeps.apply request ha
  | claim owner =>
    simp only [Artifacts.step] at hs
    split at hs
    · exact Option.some.inj hs ▸ Keeps.refl _
    · obtain rfl := Option.some.inj hs
      -- a claim deletes what is staged
      exact Keeps.staging (fun _ row hready => by simp [hready]) _
  | release owner =>
    obtain rfl := Option.some.inj hs
    split <;> exact Keeps.refl _
  | crash =>
    obtain rfl := Option.some.inj hs
    exact Keeps.refl _
  | openRead n host access reference now =>
    simp only [Artifacts.step] at hs
    split at hs
    · nomatch hs
    · obtain rfl := Option.some.inj hs
      exact Keeps.refl _
  | nextChunk n now =>
    simp only [Artifacts.step] at hs
    split at hs
    · split at hs
      · obtain rfl := Option.some.inj hs
        exact Keeps.refl _
      · nomatch hs
    · nomatch hs

/-- A run stays, and what it owns with it. -/
def Endures (run : RunId) (w w' : World) : Prop :=
  KeptFor run w.tables w'.tables ∧
    ∀ row, w.tables.db.runs[run]? = some row →
      ∃ row', w'.tables.db.runs[run]? = some row' ∧ row'.scope = row.scope

theorem Endures.refl (run : RunId) (w : World) : Endures run w w :=
  ⟨fun _ _ hr _ ho => ⟨ho, by rw [hr, Option.map_some], rfl⟩, fun row hr => ⟨row, hr, rfl⟩⟩

theorem Endures.trans {run : RunId} {w'' : World} (h : Endures run w w')
    (h' : Endures run w' w'') : Endures run w w'' := by
  refine ⟨fun id row hr hready ho => ?_, fun row hr => ?_⟩
  · obtain ⟨ho', hr', hchunks⟩ := h.1 id row hr hready ho
    obtain ⟨row', hr', heq⟩ := Option.map_eq_some_iff.mp hr'
    have hready' : row'.state = .ready := (congrArg ArtifactRow.state heq).trans hready
    obtain ⟨ho'', hr'', hchunks'⟩ := h'.1 id row' hr' hready' ho'
    exact ⟨ho'', heq ▸ hr'', hchunks'.trans hchunks⟩
  · obtain ⟨row', hr', hscope⟩ := h.2 row hr
    obtain ⟨row'', hr'', hscope'⟩ := h'.2 row' hr'
    exact ⟨row'', hr'', hscope'.trans hscope⟩

theorem Endures.step {run : RunId} {a : Action} (ha : Retains hash options run w a)
    (hs : Artifacts.step hash options w a = some w') : Endures run w w' := by
  have hkeeps := Keeps.step hs
  obtain ⟨row', hr'⟩ := ha w' hs
  exact ⟨fun id row hr hready ho => hkeeps.owned id row run hr hready ho ⟨row', hr'⟩,
    fun row hr => ⟨row', hr', hkeeps.scope run row row' hr hr'⟩⟩

/-- While a run is retained, it endures. -/
theorem endures {run : RunId}
    (hl : (artifactStore hash options).Leads (Retains hash options run) w w') :
    Endures run w w' := by
  induction hl with
  | refl => exact Endures.refl run w
  | tail _ hn ih =>
    obtain ⟨a, ha, hs⟩ := hn
    exact ih.trans (Endures.step ha hs)

theorem Endures.checkRead {a : ArtifactAccess} (h : Endures a.runId w w')
    {reference : ArtifactRef} {now now' : UInt64} {chunks : Nat}
    (hc : Artifacts.checkRead w.tables reference (some a) now = .ok chunks)
    (hnow : now'.toNat < 2 ^ 63) :
    Artifacts.checkRead w'.tables reference (some a) now' = .ok chunks := by
  obtain ⟨href, ⟨run, hrun, hscope⟩, howns⟩ := checkRead_run.mp hc
  obtain ⟨⟨hbytes, _⟩, row, hrow, hreadable, rfl⟩ := checkReference_eq_ok.mp href
  obtain ⟨hs, hm, hb, hready, _⟩ := of_decide_eq_true hreadable
  obtain ⟨howns', hrow', _⟩ := h.1 _ row hrow hready howns
  obtain ⟨row', hrow', heq⟩ := Option.map_eq_some_iff.mp hrow'
  obtain ⟨run', hrun', hscope'⟩ := h.2 run hrun
  have hreadable' : readable w'.tables.files reference now' row' = true := by
    refine decide_eq_true ⟨?_, ?_, ?_, ?_, .inl (owned_of_mem howns')⟩
    · exact (congrArg ArtifactRow.scope heq).trans hs
    · exact (congrArg ArtifactRow.mediaType heq).trans hm
    · exact (congrArg ArtifactRow.bytes heq).trans hb
    · exact (congrArg ArtifactRow.state heq).trans hready
  refine checkRead_run.mpr ⟨?_, ⟨run', hrun', hscope.trans hscope'.symm⟩, howns'⟩
  refine checkReference_eq_ok.mpr ⟨⟨hbytes, hnow⟩, row', hrow', hreadable', ?_⟩
  exact (congrArg ArtifactRow.chunks heq).symm

theorem inv_of_reachable
    (hr : (artifactStore hash options).ReachableBy (fun _ _ => True) w) : w.Inv options := by
  refine hr.invariant (fun s hs => ?_) fun s a s' _ h _ hs => h.step hs
  obtain rfl : s = {} := hs
  exact World.Inv.init

end Lifecycle

/-- Whatever uploads, runs, clean-ups, claims and readers do, the tables keep each artifact as
it was appended, within the budgets, for those who own it. -/
theorem artifact_lifecycle (hash : Value → String) (options : SqliteOptions) (w : World)
    (hr : (artifactStore hash options).ReachableBy (fun _ _ => True) w) :
    Lifecycle hash options w := by
  have hinv := inv_of_reachable hr
  exact {
    sound := hinv.kept.sound
    readable := fun _ _ _ _ h => checkRead_allowed h
    served := fun _ _ _ h => readChunk_allowed h
    output := fun n r hreader => by
      -- the chunks of a reader are those of the log when it was opened
      obtain ⟨_, hchunks, houtput, hcomplete⟩ := hinv.faithful n r hreader
      refine ⟨?_, fun hc => ?_⟩
      · rw [houtput]
        conv_rhs => rw [← List.take_append_drop r.sequence (w.log r.reference.id)]
        rw [List.flatten_append]
        exact List.prefix_append _ _
      · rw [houtput, hcomplete hc, hchunks, List.take_length]
    kept := fun _ _ hl => (endures hl).1
    access := fun _ _ hl _ _ _ _ hc hnow => (endures hl).checkRead hc hnow
    failed := fun caller request e he => by
      obtain ⟨t, log, heq, ⟨rfl, _⟩ | ⟨ha, _⟩⟩ :=
        perform_cases hash options w caller request
      · rw [heq]
      · rw [he] at ha
        nomatch ha }

def sampleReference (bytes : UInt64) : ArtifactRef where
  id := "artifact"
  scope := "scope"
  bytes := bytes
  mediaType := "text/plain"

/-- An upload of two chunks, a run that owns it and a reader of that run. -/
def sampleActions : List Action :=
  [.claim "host",
   .request "host" (.begin (sampleReference 0) none 0 0),
   .request "host" (.append (sampleReference 0) none 0 [1, 2]),
   .request "host" (.append (sampleReference 2) none 1 [3]),
   .request "host" (.publish (sampleReference 3) none 2 0),
   .request "host" (.create (fun _ => 1) { sampleRun with artifacts := [sampleReference 3] } none
     {}),
   .openRead 0 none (some ⟨"host", sampleRun.id⟩) (sampleReference 3) 5000000,
   .nextChunk 0 5000000, .nextChunk 0 5000000, .nextChunk 0 5000000]

theorem artifact_lifecycle_sample :
    ∃ w, (artifactStore sampleHash {}).run {} sampleActions = some w ∧
      (w.readers 0).map (fun r => (r.stage, r.output)) = some (.complete, [1, 2, 3]) ∧
      Lifecycle sampleHash {} w := by
  have hrun : (((artifactStore sampleHash {}).run {} sampleActions).map fun w =>
      (w.readers 0).map fun r => (r.stage, r.output)) = some (some (.complete, [1, 2, 3])) := by
    decide +kernel
  obtain ⟨w, hw, hreader⟩ := Option.map_eq_some_iff.mp hrun
  have hl : (artifactStore sampleHash {}).Leads (fun _ _ => True) {} w :=
    System.run_leads (fun _ _ _ => trivial) hw
  exact ⟨w, hw, hreader, artifact_lifecycle sampleHash {} w ⟨{}, rfl, hl⟩⟩

end WorkflowForge.Sqlite.Artifacts
