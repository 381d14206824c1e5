import Mathlib.Data.List.Basic

/-!
# Guarded Logs

Logs of events, newest first. Some events open an item, and an event may clear an item that
was opened before it. A log is guarded if no item is opened while an earlier one is still
uncleared.

The items that were not cleared yet are described by a predicate that holds of them: a log
is quiet if it holds of none.

## Main results

- `Held.clear`: what an event that clears every uncleared item leaves.
- `Guarded.opened`: after a quiet log, an item may be opened.
-/

namespace WorkflowForge.Lib.Guard

variable {E I : Type} {opens : E → Option I} {clears : I → E → Prop}

/-! ## Definitions -/

/-- Every item that was not cleared yet satisfies a predicate. -/
def Held (opens : E → Option I) (clears : I → E → Prop) (p : I → Prop) (log : List E) : Prop :=
  ∀ newer e older i, log = newer ++ e :: older → opens e = some i →
    p i ∨ ∃ c ∈ newer, clears i c

/-- Every item was cleared. -/
def Quiet (opens : E → Option I) (clears : I → E → Prop) (log : List E) : Prop :=
  Held opens clears (fun _ => False) log

/-- Between any two items that were opened, the first was cleared. -/
def Guarded (opens : E → Option I) (clears : I → E → Prop) (log : List E) : Prop :=
  ∀ newer e₂ middle e₁ older i₁ i₂, log = newer ++ e₂ :: (middle ++ e₁ :: older) →
    opens e₁ = some i₁ → opens e₂ = some i₂ → ∃ c ∈ middle, clears i₁ c

variable {p q : I → Prop} {log : List E} {e : E} {i : I}

/-! ## Items that were not cleared -/

theorem Held.nil : Held opens clears p [] := by
  intro newer e older i h
  simp at h

theorem Held.mono (h : Held opens clears p log) (hpq : ∀ i, p i → q i) :
    Held opens clears q log := by
  intro newer e older i hlog ho
  rcases h newer e older i hlog ho with hp | hc
  · exact .inl (hpq i hp)
  · exact .inr hc

theorem Quiet.held (h : Quiet opens clears log) : Held opens clears p log :=
  Held.mono h fun _ h => h.elim

/-- An event that opens nothing leaves what was not cleared. -/
theorem Held.other (h : Held opens clears p log) (he : opens e = none) :
    Held opens clears p (e :: log) := by
  intro newer e' older i hlog ho
  rcases List.cons_eq_append_iff.mp hlog with ⟨-, heq⟩ | ⟨rest, rfl, hrest⟩
  · obtain ⟨rfl, -⟩ := List.cons.inj heq
    rw [he] at ho
    nomatch ho
  · rcases h rest e' older i hrest ho with hp | ⟨c, hc, hclears⟩
    · exact .inl hp
    · exact .inr ⟨c, List.mem_cons_of_mem _ hc, hclears⟩

/-- An opened item is not cleared yet. -/
theorem Held.opened (h : Held opens clears p log) (he : opens e = some i) (hp : p i) :
    Held opens clears p (e :: log) := by
  intro newer e' older i' hlog ho
  rcases List.cons_eq_append_iff.mp hlog with ⟨-, heq⟩ | ⟨rest, rfl, hrest⟩
  · obtain ⟨rfl, -⟩ := List.cons.inj heq
    obtain rfl := Option.some.inj (he.symm.trans ho)
    exact .inl hp
  · rcases h rest e' older i' hrest ho with hp | ⟨c, hc, hclears⟩
    · exact .inl hp
    · exact .inr ⟨c, List.mem_cons_of_mem _ hc, hclears⟩

/-- An event that clears every item not cleared before leaves a quiet log. -/
theorem Held.clear (h : Held opens clears p log) (he : opens e = none)
    (hclear : ∀ i, p i → (∃ e' ∈ log, opens e' = some i) → clears i e) :
    Quiet opens clears (e :: log) := by
  intro newer e' older i hlog ho
  right
  rcases List.cons_eq_append_iff.mp hlog with ⟨-, heq⟩ | ⟨rest, rfl, hrest⟩
  · obtain ⟨rfl, -⟩ := List.cons.inj heq
    rw [he] at ho
    nomatch ho
  · rcases h rest e' older i hrest ho with hp | ⟨c, hc, hclears⟩
    · have hmem : e' ∈ log := by
        rw [hrest]
        exact List.mem_append_right _ (List.mem_cons_self ..)
      exact ⟨e, List.mem_cons_self .., hclear i hp ⟨e', hmem, ho⟩⟩
    · exact ⟨c, List.mem_cons_of_mem _ hc, hclears⟩

/-! ## Guarded logs -/

theorem Guarded.nil : Guarded opens clears [] := by
  intro newer e₂ middle e₁ older i₁ i₂ h
  simp at h

theorem Guarded.other (h : Guarded opens clears log) (he : opens e = none) :
    Guarded opens clears (e :: log) := by
  intro newer e₂ middle e₁ older i₁ i₂ hlog h₁ h₂
  rcases List.cons_eq_append_iff.mp hlog with ⟨-, heq⟩ | ⟨rest, rfl, hrest⟩
  · obtain ⟨rfl, -⟩ := List.cons.inj heq
    rw [he] at h₂
    nomatch h₂
  · exact h rest e₂ middle e₁ older i₁ i₂ hrest h₁ h₂

/-- After a quiet log, an item may be opened. -/
theorem Guarded.opened (h : Guarded opens clears log) (hq : Quiet opens clears log) :
    Guarded opens clears (e :: log) := by
  intro newer e₂ middle e₁ older i₁ i₂ hlog h₁ h₂
  rcases List.cons_eq_append_iff.mp hlog with ⟨-, heq⟩ | ⟨rest, rfl, hrest⟩
  · obtain ⟨rfl, rfl⟩ := List.cons.inj heq
    exact (hq middle e₁ older i₁ rfl h₁).resolve_left fun h => h
  · exact h rest e₂ middle e₁ older i₁ i₂ hrest h₁ h₂

end WorkflowForge.Lib.Guard
