import Mathlib.Logic.Relation
import Mathlib.Algebra.GroupWithZero.Nat

/-!
# Transition Systems

Systems whose steps are partial functions of a state and an action. What a whole run
guarantees follows from one step: an invariant that every step keeps holds of every
reachable state, and a preorder that contains every step contains every run.

A property may need that some actions are only taken under a condition, so reachability is
relative to the actions that are allowed in a state.

## Main results

- `System.ReachableBy.invariant`: the invariant rule.
- `System.Leads.of_step`: the preorder rule.
- `System.run_leads`: a computed run is a run.
-/

namespace WorkflowForge.Lib

/-- A transition system; a step that is not possible answers `none`. -/
structure System (S A : Type) where
  init : S → Prop
  step : S → A → Option S

namespace System

variable {S A : Type} (sys : System S A) (allowed : S → A → Prop)

/-! ## Runs -/

/-- One allowed step. -/
def Next (s s' : S) : Prop :=
  ∃ a, allowed s a ∧ sys.step s a = some s'

/-- Any number of allowed steps. -/
def Leads : S → S → Prop :=
  Relation.ReflTransGen (sys.Next allowed)

/-- A state some run of allowed steps comes to. -/
def ReachableBy (s : S) : Prop :=
  ∃ s₀, sys.init s₀ ∧ sys.Leads allowed s₀ s

variable {sys allowed} {s s' s'' : S} {a : A}

theorem Leads.refl (s : S) : sys.Leads allowed s s :=
  Relation.ReflTransGen.refl

theorem Leads.trans (h : sys.Leads allowed s s') (h' : sys.Leads allowed s' s'') :
    sys.Leads allowed s s'' :=
  Relation.ReflTransGen.trans h h'

theorem Leads.step (h : sys.Leads allowed s s') (ha : allowed s' a)
    (hs : sys.step s' a = some s'') : sys.Leads allowed s s'' :=
  Relation.ReflTransGen.tail h ⟨a, ha, hs⟩

theorem ReachableBy.init (h : sys.init s) : sys.ReachableBy allowed s :=
  ⟨s, h, Leads.refl s⟩

theorem ReachableBy.leads (h : sys.ReachableBy allowed s) (h' : sys.Leads allowed s s') :
    sys.ReachableBy allowed s' := by
  obtain ⟨s₀, h₀, hl⟩ := h
  exact ⟨s₀, h₀, hl.trans h'⟩

theorem ReachableBy.step (h : sys.ReachableBy allowed s) (ha : allowed s a)
    (hs : sys.step s a = some s') : sys.ReachableBy allowed s' :=
  h.leads ((Leads.refl s).step ha hs)

/-- Fewer allowed actions reach fewer states. -/
theorem ReachableBy.mono {allowed' : S → A → Prop} (h : sys.ReachableBy allowed s)
    (himp : ∀ s a, allowed s a → allowed' s a) : sys.ReachableBy allowed' s := by
  obtain ⟨s₀, h₀, hl⟩ := h
  refine ⟨s₀, h₀, Relation.ReflTransGen.mono ?_ _ _ hl⟩
  intro t t' ht
  obtain ⟨a, ha, hs⟩ := ht
  exact ⟨a, himp t a ha, hs⟩

/-! ## Rules -/

/-- What holds at first and is kept by every step holds of every reachable state. -/
theorem ReachableBy.invariant {P : S → Prop} (hr : sys.ReachableBy allowed s)
    (hinit : ∀ s, sys.init s → P s)
    (hstep : ∀ s a s', sys.ReachableBy allowed s → P s → allowed s a →
      sys.step s a = some s' → P s') : P s := by
  obtain ⟨s₀, h₀, hl⟩ := hr
  -- by induction on the run, from its beginning
  induction hl with
  | refl => exact hinit s₀ h₀
  | tail hl hn ih =>
    obtain ⟨a, ha, hs⟩ := hn
    exact hstep _ a _ ⟨s₀, h₀, hl⟩ ih ha hs

/-- A preorder that contains every step from a reachable state contains every run from one. -/
theorem Leads.of_step {R : S → S → Prop} (hl : sys.Leads allowed s s')
    (hr : sys.ReachableBy allowed s) (hrefl : ∀ s, R s s)
    (htrans : ∀ s s' s'', R s s' → R s' s'' → R s s'')
    (hstep : ∀ s a s', sys.ReachableBy allowed s → allowed s a → sys.step s a = some s' →
      R s s') : R s s' := by
  induction hl with
  | refl => exact hrefl s
  | tail hl hn ih =>
    obtain ⟨a, ha, hs⟩ := hn
    exact htrans _ _ _ ih (hstep _ a _ (hr.leads hl) ha hs)

/-! ## Computed runs -/

/-- Takes the steps of a list of actions, one after the other. -/
def run (sys : System S A) : S → List A → Option S
  | s, [] => some s
  | s, a :: rest => (sys.step s a).bind fun s' => run sys s' rest

/-- A computed run is a run, if each of its actions is always allowed. -/
theorem run_leads {actions : List A} (ha : ∀ a ∈ actions, ∀ s, allowed s a)
    (h : sys.run s actions = some s') : sys.Leads allowed s s' := by
  induction actions generalizing s with
  | nil =>
    obtain rfl := Option.some.inj h
    exact Leads.refl s
  | cons a rest ih =>
    obtain ⟨t, ht, hrest⟩ := Option.bind_eq_some_iff.mp h
    have hfirst : sys.Leads allowed s t :=
      (Leads.refl s).step (ha a (List.mem_cons_self ..) s) ht
    exact hfirst.trans (ih (fun b hb => ha b (List.mem_cons_of_mem a hb)) hrest)

theorem run_append (s : S) (actions rest : List A) :
    sys.run s (actions ++ rest) = (sys.run s actions).bind fun s' => sys.run s' rest := by
  induction actions generalizing s with
  | nil => rfl
  | cons a actions ih =>
    simp only [List.cons_append, run, Option.bind_assoc]
    congr 1
    funext t
    exact ih t

end System

end WorkflowForge.Lib
