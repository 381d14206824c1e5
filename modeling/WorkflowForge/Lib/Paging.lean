import WorkflowForge.Lib.BTree
import WorkflowForge.Lib.Except

/-!
# Paging Through Rows

A cursor loop over an ordered map of rows. Each round selects the first row past the cursor
and hands it to a visit, and the visit may rewrite the very map that the next round selects
from. The loop is given a bound on its rounds and answers `none` when it runs out of them.

## Main results

- `page_eq_foldlM`: a loop whose visits leave the rows past the cursor alone is one pass over
  the rows it started with, and ends within one round more than it has keys to pass.
- `foldlM_visits`: what one visit makes of the rows handled and the rows left, a whole pass
  makes of all of them.
-/

namespace WorkflowForge.Lib.Paging

variable {ρ σ ε : Type}

/-! ## Selection -/

/-- The rows past the cursor and inside the window, in key order. -/
def pending (window : Nat → Bool) (cursor : Nat) (rows : BTreeMap Nat ρ) : List (Nat × ρ) :=
  rows.toList.filter fun e => cursor < e.1 ∧ window e.1

/-- The first row past the cursor and inside the window. -/
def select (window : Nat → Bool) (cursor : Nat) (rows : BTreeMap Nat ρ) : Option (Nat × ρ) :=
  (pending window cursor rows).head?

section Pending

variable {window : Nat → Bool} {cursor : Nat} {rows rows' : BTreeMap Nat ρ}

@[simp] theorem mem_pending {e : Nat × ρ} :
    e ∈ pending window cursor rows ↔ rows[e.1]? = some e.2 ∧ cursor < e.1 ∧ window e.1 := by
  obtain ⟨key, row⟩ := e
  simp [pending]

theorem pending_eq_toList_filter :
    pending window cursor rows =
      (rows.filter fun key _ => cursor < key ∧ window key).toList := by
  rw [Std.ExtTreeMap.toList_filter, pending]

theorem length_pending_le : (pending window cursor rows).length ≤ rows.size := by
  rw [← Std.ExtTreeMap.length_toList]
  exact List.length_filter_le _ _

theorem nodup_pending : ((pending window cursor rows).map Prod.fst).Nodup := by
  rw [List.Nodup, List.pairwise_map]
  refine List.Pairwise.imp ?_ (List.Pairwise.filter _ Std.ExtTreeMap.distinct_keys_toList)
  intro a b hne heq
  exact hne (heq ▸ Std.ReflCmp.compare_self)

/-- The rows to come are the rows past the cursor. -/
theorem pending_congr
    (h : ∀ key : Nat, cursor < key → window key → rows[key]? = rows'[key]?) :
    pending window cursor rows = pending window cursor rows' := by
  rw [pending_eq_toList_filter, pending_eq_toList_filter]
  congr 1
  apply Std.ExtTreeMap.ext_getElem?
  intro key
  rw [Std.ExtTreeMap.getElem?_filter', Std.ExtTreeMap.getElem?_filter']
  by_cases hkey : cursor < key ∧ window key
  · rw [h key hkey.1 hkey.2]
  · -- a row outside the selection is dropped on both sides
    simp [hkey]

/-- Past its first row, the rest of the selection is to come. -/
theorem pending_eq_cons {key : Nat} {row : ρ} {rest : List (Nat × ρ)}
    (h : pending window cursor rows = (key, row) :: rest) :
    cursor < key ∧ window key ∧ rows[key]? = some row ∧ pending window key rows = rest := by
  have hmem : (key, row) ∈ pending window cursor rows := by simp [h]
  obtain ⟨hrow, hlt, hwindow⟩ := mem_pending.mp hmem
  have hsorted : ((key, row) :: rest).Pairwise fun a b => compare a.1 b.1 = .lt := by
    rw [← h]
    exact List.Pairwise.filter _ Std.ExtTreeMap.ordered_keys_toList
  have hrest : ∀ e ∈ rest, key < e.1 := fun e he =>
    Nat.compare_eq_lt.mp ((List.pairwise_cons.mp hsorted).1 e he)
  refine ⟨hlt, hwindow, hrow, ?_⟩
  calc pending window key rows
      = (pending window cursor rows).filter fun e => key < e.1 := by
        rw [pending, pending, List.filter_filter]
        apply List.filter_congr
        intro e _
        by_cases hpast : key < e.1
        · simp [hpast, Nat.lt_trans hlt hpast]
        · simp [hpast]
    _ = rest := by
        rw [h, List.filter_cons_of_neg (by simp)]
        exact List.filter_eq_self.mpr fun e he => by simpa using hrest e he

end Pending

/-! ## The loop -/

section Loop

-- The rows of a state, and what is done with one of them.
variable (window : Nat → Bool) (rows : σ → BTreeMap Nat ρ) (visit : Nat → ρ → σ → Except ε σ)

/-- Visits the rows past the cursor one by one, selecting each from the current state. -/
def page (fuel : Nat) (cursor : Nat) (s : σ) : Option (Except ε σ) :=
  match fuel with
  | 0 => none
  | fuel + 1 =>
    match select window cursor (rows s) with
    | none => some (.ok s)
    | some (next, row) =>
      match visit next row s with
      | .error e => some (.error e)
      | .ok s' => page fuel next s'

/-- One pass over the rows of a state, as they are now. -/
def pass (cursor : Nat) (s : σ) : Except ε σ :=
  (pending window cursor (rows s)).foldlM (fun s e => visit e.1 e.2 s) s

/-- A visit keeps an invariant of the cursor, and every row past its own. -/
def Forward (Inv : Nat → σ → Prop) : Prop :=
  ∀ (cursor key : Nat) (row : ρ) (s s' : σ), Inv cursor s →
    select window cursor (rows s) = some (key, row) → visit key row s = .ok s' →
      Inv key s' ∧ ∀ next : Nat, key < next → window next →
        (rows s')[next]? = (rows s)[next]?

variable {window rows visit} {Inv : Nat → σ → Prop}

/-- A forward loop is one pass: no row is skipped, none is visited twice, none is added. -/
theorem page_eq_foldlM (hforward : Forward window rows visit Inv) {fuel cursor : Nat} {s : σ}
    (hinv : Inv cursor s) (hfuel : (pending window cursor (rows s)).length < fuel) :
    page window rows visit fuel cursor s = some (pass window rows visit cursor s) := by
  -- by induction on the rows to come, which a visit leaves as they are
  generalize hp : pending window cursor (rows s) = todo at hfuel
  induction todo generalizing fuel cursor s with
  | nil =>
    obtain ⟨fuel, rfl⟩ := Nat.exists_eq_succ_of_ne_zero (Nat.pos_iff_ne_zero.mp hfuel)
    simp only [page, select, pass, hp, List.head?_nil, List.foldlM_nil]
    rfl
  | cons e rest ih =>
    obtain ⟨key, row⟩ := e
    obtain ⟨fuel, rfl⟩ := Nat.exists_eq_succ_of_ne_zero (Nat.ne_zero_of_lt hfuel)
    have hselect : select window cursor (rows s) = some (key, row) := by simp [select, hp]
    obtain ⟨-, -, -, hrest⟩ := pending_eq_cons hp
    unfold page pass
    rw [hselect, hp, List.foldlM_cons]
    dsimp only
    cases hvisit : visit key row s with
    | error e => rfl
    | ok s' =>
      obtain ⟨hinv', hkeep⟩ := hforward cursor key row s s' hinv hselect hvisit
      have hnext : pending window key (rows s') = rest := by
        rw [← hrest]
        exact pending_congr hkeep
      have hlength : rest.length < fuel := Nat.lt_of_succ_lt_succ hfuel
      dsimp only
      rw [ih hinv' hnext hlength, ok_bind, pass, hnext]

end Loop

/-! ## A whole pass -/

/-- What a visit makes true of the rows handled and the rows left holds at the end of a pass. -/
theorem foldlM_visits {visit : Nat → ρ → σ → Except ε σ}
    {P : List (Nat × ρ) → List (Nat × ρ) → σ → Prop} {done todo : List (Nat × ρ)} {s s' : σ}
    (hstep : ∀ (done : List (Nat × ρ)) (key : Nat) (row : ρ) (rest : List (Nat × ρ)) (s s' : σ),
      P done ((key, row) :: rest) s → visit key row s = .ok s' → P (done ++ [(key, row)]) rest s')
    (hs : P done todo s) (h : todo.foldlM (fun s e => visit e.1 e.2 s) s = .ok s') :
    P (done ++ todo) [] s' := by
  induction todo generalizing done s with
  | nil =>
    cases h
    simpa using hs
  | cons e rest ih =>
    obtain ⟨key, row⟩ := e
    rw [List.foldlM_cons] at h
    obtain ⟨s₁, h₁, h⟩ := bind_eq_ok.mp h
    have := ih (hstep done key row rest s s₁ hs h₁) h
    simpa using this

/-! ## Loops in sequence -/

section Sequence

variable {α β : Type} {x : ExceptT ε Option α} {f : α → ExceptT ε Option β}

/-- A bounded computation ends with a result or an error. -/
def Ends (x : ExceptT ε Option α) : Prop :=
  ∃ outcome, x.run = some outcome

theorem run_bind_eq_ok {b : β} :
    (x >>= f).run = some (.ok b) ↔ ∃ a, x.run = some (.ok a) ∧ (f a).run = some (.ok b) := by
  rw [ExceptT.run_bind]
  cases x.run with
  | none => simp
  | some outcome => cases outcome <;> simp

theorem Ends.bind (hx : Ends x) (hf : ∀ a, x.run = some (.ok a) → Ends (f a)) :
    Ends (x >>= f) := by
  obtain ⟨outcome, hrun⟩ := hx
  unfold Ends
  rw [ExceptT.run_bind, hrun]
  cases outcome with
  | error e => exact ⟨.error e, rfl⟩
  | ok a => exact hf a hrun

theorem ends_pure (a : α) : Ends (pure a : ExceptT ε Option α) :=
  ⟨.ok a, rfl⟩

end Sequence

end WorkflowForge.Lib.Paging
