import WorkflowForge.Lib.Except

/-!
# Stateful Computations

Computations over a state that may fail. One that fails keeps the state it failed in, so a
caller that collects errors goes on from there.

Two such computations run side by side when they do the same thing over related states, as
one program does under two environments. The second one may fail where the first did not, but
only if some fixed condition is violated.

## Main results

- `Tame.bind`: what each part of a sequence keeps to, the sequence keeps to.
- `Follows.bind`: sequences follow each other when their parts do.
- `Agrees.bind`: sequences that both succeed agree when their parts do.
-/

namespace WorkflowForge.Lib

/-- A computation that may fail, and the state it ends in. -/
def Stateful (σ ε α : Type) : Type :=
  σ → Except ε α × σ

namespace Stateful

variable {σ τ ε α β γ δ : Type}

instance : Monad (Stateful σ ε) where
  pure a := fun s => (.ok a, s)
  bind x f := fun s =>
    match x s with
    | (.ok a, s') => f a s'
    | (.error e, s') => (.error e, s')

/-- A check that does not touch the state. -/
def lift (x : Except ε α) : Stateful σ ε α := fun s => (x, s)

def fail (e : ε) : Stateful σ ε α := lift (.error e)

def get : Stateful σ ε σ := fun s => (.ok s, s)

def modify (f : σ → σ) : Stateful σ ε Unit := fun s => (.ok (), f s)

/-- Hands a failure to the caller. -/
def attempt (x : Stateful σ ε α) : Stateful σ ε (Except ε α) := fun s =>
  (.ok (x s).1, (x s).2)

/-- Rewrites the error of a failure. -/
def mapError (f : ε → ε) (x : Stateful σ ε α) : Stateful σ ε α := fun s =>
  ((x s).1.mapError f, (x s).2)

variable {x : Stateful σ ε α} {f : α → Stateful σ ε β} {s s' : σ} {a : α} {b : β}

/-! ## Inversion -/

/-- A result that is given changes no state. -/
theorem pure_eq_ok {a' : α} : (pure a : Stateful σ ε α) s = (.ok a', s') ↔ a = a' ∧ s = s' := by
  change (Except.ok a, s) = (Except.ok a', s') ↔ _
  rw [Prod.mk.injEq, Except.ok.injEq]

/-- A sequence succeeds exactly when its first part does, and then the rest. -/
theorem bind_eq_ok : (x >>= f) s = (.ok b, s') ↔
    ∃ a s₁, x s = (.ok a, s₁) ∧ f a s₁ = (.ok b, s') := by
  change (match x s with
    | (.ok a, s') => f a s'
    | (.error e, s') => (.error e, s')) = (Except.ok b, s') ↔ _
  obtain ⟨r, s₁⟩ := x s
  cases r with
  | error e => simp
  | ok a =>
    refine ⟨fun h => ⟨a, s₁, rfl, h⟩, ?_⟩
    rintro ⟨a', s₁', h, hf⟩
    obtain ⟨ha, rfl⟩ := Prod.mk.inj h
    exact Except.ok.inj ha ▸ hf

/-- Two computations fail when the first does, or the second after it. -/
theorem bind_eq_error {e : ε} : (x >>= f) s = (.error e, s') ↔
    x s = (.error e, s') ∨ ∃ a s₁, x s = (.ok a, s₁) ∧ f a s₁ = (.error e, s') := by
  change (match x s with
    | (.ok a, s') => f a s'
    | (.error e, s') => (.error e, s')) = (Except.error e, s') ↔ _
  obtain ⟨r, s₁⟩ := x s
  cases r with
  | error e => simp
  | ok a =>
    refine ⟨fun h => .inr ⟨a, s₁, rfl, h⟩, ?_⟩
    rintro (h | ⟨a', s₁', h, hf⟩)
    · nomatch (Prod.mk.inj h).1
    · obtain ⟨ha, rfl⟩ := Prod.mk.inj h
      exact Except.ok.inj ha ▸ hf

/-- A computation that succeeds hands on its result and its state. -/
theorem bind_of_ok {s₁ : σ} (h : x s = (.ok a, s₁)) : (x >>= f) s = f a s₁ := by
  change (match x s with
    | (.ok a, s') => f a s'
    | (.error e, s') => (.error e, s')) = _
  rw [h]

/-- One that fails stops the rest. -/
theorem bind_of_error {e : ε} {s₁ : σ} (h : x s = (.error e, s₁)) :
    (x >>= f) s = (.error e, s₁) := by
  change (match x s with
    | (.ok a, s') => f a s'
    | (.error e, s') => (.error e, s')) = _
  rw [h]

/-- A check from outside leaves the state alone. -/
theorem lift_eq_ok {r : Except ε α} : lift r s = (.ok a, s') ↔ r = .ok a ∧ s = s' := by
  change (r, s) = _ ↔ _
  rw [Prod.mk.injEq]

theorem modify_eq_ok {g : σ → σ} {u : Unit} :
    (modify g : Stateful σ ε Unit) s = (.ok u, s') ↔ g s = s' := by
  change (Except.ok (), g s) = _ ↔ _
  simp

theorem get_eq_ok {s₁ : σ} : (get : Stateful σ ε σ) s = (.ok s₁, s') ↔ s = s₁ ∧ s = s' := by
  change (Except.ok s, s) = _ ↔ _
  simp

/-- A changed error changes no success. -/
theorem mapError_eq_ok {g : ε → ε} : mapError g x s = (.ok a, s') ↔ x s = (.ok a, s') := by
  unfold mapError
  obtain ⟨r, s₁⟩ := x s
  cases r with
  | error e => simp [mapError_error]
  | ok a => simp [mapError_ok]

/-- An attempt succeeds with whatever the computation ends with, in the state it ends in. -/
theorem attempt_eq_ok {r : Except ε α} :
    attempt x s = (.ok r, s') ↔ x s = (r, s') := by
  unfold attempt
  obtain ⟨r', s₁⟩ := x s
  simp

/-! ## Growing states and reported errors -/

/-- A computation that only lets the state grow, and whose errors are reported. -/
structure Tame (grows : σ → σ → Prop) (reported : ε → Prop) (x : Stateful σ ε α) : Prop where
  grows : ∀ s, grows s (x s).2
  reports : ∀ {s e s'}, x s = (.error e, s') → reported e

section Tame

variable {grows : σ → σ → Prop} {reported : ε → Prop}

/-- A tame computation lets its state grow, however it ends. -/
theorem Tame.grows_of_eq (h : Tame grows reported x) {r : Except ε α} (hx : x s = (r, s')) :
    grows s s' := by
  have := h.grows s
  rwa [hx] at this

/-- A given result is tame. -/
theorem Tame.pure (hrefl : ∀ s, grows s s) (a : α) :
    Tame grows reported (Pure.pure a : Stateful σ ε α) where
  grows := hrefl
  reports h := nomatch (Prod.mk.inj h).1

/-- So is a check whose errors are reported. -/
theorem Tame.lift (hrefl : ∀ s, grows s s) {r : Except ε α}
    (hr : ∀ e, r = .error e → reported e) : Tame grows reported (Stateful.lift r : Stateful σ ε α)
    where
  grows := hrefl
  reports h := hr _ (Prod.mk.inj h).1

/-- A failure is tame when its error is reported. -/
theorem Tame.fail (hrefl : ∀ s, grows s s) {e : ε} (he : reported e) :
    Tame grows reported (Stateful.fail e : Stateful σ ε α) :=
  Tame.lift hrefl fun _ h => Except.error.inj h ▸ he

/-- A change that lets the state grow is tame. -/
theorem Tame.modify {g : σ → σ} (hg : ∀ s, grows s (g s)) :
    Tame grows reported (Stateful.modify g : Stateful σ ε Unit) where
  grows := hg
  reports h := nomatch (Prod.mk.inj h).1

theorem Tame.get (hrefl : ∀ s, grows s s) :
    Tame grows reported (Stateful.get : Stateful σ ε σ) where
  grows := hrefl
  reports h := nomatch (Prod.mk.inj h).1

/-- An attempt is as tame as what it attempts. -/
theorem Tame.attempt (h : Tame grows reported x) : Tame grows reported (Stateful.attempt x) where
  grows := h.grows
  reports h := nomatch (Prod.mk.inj h).1

/-- Errors may be changed as long as they are still reported. -/
theorem Tame.mapError {g : ε → ε} (h : Tame grows reported x)
    (hg : ∀ e, reported e → reported (g e)) : Tame grows reported (Stateful.mapError g x) where
  grows := h.grows
  reports := by
    intro s e s' hx
    obtain ⟨hr, -⟩ := Prod.mk.inj hx
    rcases hxs : x s with ⟨_ | _, s₁⟩
    next e' =>
      rw [hxs] at hr
      exact Except.error.inj hr ▸ hg e' (h.reports hxs)
    · rw [hxs] at hr
      nomatch hr

/-- What each part of a sequence keeps to, the sequence keeps to. -/
theorem Tame.bind (htrans : ∀ {s s' s''}, grows s s' → grows s' s'' → grows s s'')
    (hx : Tame grows reported x) (hf : ∀ a, Tame grows reported (f a)) :
    Tame grows reported (x >>= f) where
  grows s := by
    rcases hxs : x s with ⟨_ | a, s₁⟩
    · rw [bind_of_error hxs]
      exact hx.grows_of_eq hxs
    · rw [bind_of_ok hxs]
      exact htrans (hx.grows_of_eq hxs) ((hf a).grows s₁)
  reports h := by
    rcases bind_eq_error.mp h with h | ⟨a, s₁, -, h⟩
    · exact hx.reports h
    · exact (hf a).reports h

end Tame

/-! ## Two computations side by side -/

/-- Where `x` succeeds with what `post` allows, `y` succeeds with a related result over a
related state, or fails because it does not fit. -/
def Follows (rel : σ → τ → Prop) (fits : Prop) (post : α → σ → Prop) (out : α → β → Prop)
    (x : Stateful σ ε α) (y : Stateful τ ε β) : Prop :=
  ∀ {s t}, rel s t → ∀ {a s'}, x s = (.ok a, s') → post a s' →
    (∃ b t', y t = (.ok b, t') ∧ out a b ∧ rel s' t') ∨ ((∃ e t', y t = (.error e, t')) ∧ ¬fits)

section Follows

variable {rel : σ → τ → Prop} {fits : Prop} {post : α → σ → Prop} {out : α → β → Prop}

/-- Two results that fit follow each other. -/
theorem Follows.pure {a : α} {b : β} (hout : ∀ s, post a s → out a b) :
    Follows rel fits post out (Pure.pure a : Stateful σ ε α) (Pure.pure b : Stateful τ ε β) := by
  intro s t hrel a' s' h hpost
  obtain ⟨rfl, rfl⟩ := pure_eq_ok.mp h
  exact .inl ⟨b, t, rfl, hout s hpost, hrel⟩

/-- A check that does not depend on the environment. -/
theorem Follows.lift {r : Except ε α} {post : α → σ → Prop} :
    Follows rel fits post (· = ·) (Stateful.lift r) (Stateful.lift r : Stateful τ ε α) := by
  intro s t hrel a s' h _
  obtain ⟨rfl, rfl⟩ := lift_eq_ok.mp h
  exact .inl ⟨a, t, rfl, rfl, hrel⟩

/-- Changes follow each other when they keep the relation of the states. -/
theorem Follows.modify {g : σ → σ} {g' : τ → τ} {post : Unit → σ → Prop}
    (hg : ∀ s t, rel s t → post () (g s) → rel (g s) (g' t)) :
    Follows rel fits post (· = ·) (Stateful.modify g : Stateful σ ε Unit)
      (Stateful.modify g' : Stateful τ ε Unit) := by
  intro s t hrel a s' h hpost
  obtain rfl := modify_eq_ok.mp h
  exact .inl ⟨(), g' t, rfl, rfl, hg s t hrel hpost⟩

/-- Sequences follow each other when their parts do. -/
theorem Follows.bind {x : Stateful σ ε α} {y : Stateful τ ε β} {f : α → Stateful σ ε γ}
    {g : β → Stateful τ ε δ} {post' : γ → σ → Prop} {out' : γ → δ → Prop}
    (hx : Follows rel fits post out x y)
    (hf : ∀ a b, out a b → Follows rel fits post' out' (f a) (g b))
    (hpost : ∀ {a s c s'}, f a s = (.ok c, s') → post' c s' → post a s) :
    Follows rel fits post' out' (x >>= f) (y >>= g) := by
  intro s t hrel c s' h hc
  obtain ⟨a, s₁, h₁, h₂⟩ := bind_eq_ok.mp h
  rcases hx hrel h₁ (hpost h₂ hc) with ⟨b, t₁, hy, hout, hrel₁⟩ | ⟨⟨e, t₁, hy⟩, hfits⟩
  · rw [bind_of_ok hy]
    exact hf a b hout hrel₁ h₂ hc
  · exact .inr ⟨⟨e, t₁, bind_of_error hy⟩, hfits⟩

/-- A stronger demand on the result, or a weaker promise. -/
theorem Follows.imp {x : Stateful σ ε α} {y : Stateful τ ε β} {post' : α → σ → Prop}
    {out' : α → β → Prop} (h : Follows rel fits post out x y)
    (hpost : ∀ {a s}, post' a s → post a s) (hout : ∀ {a b}, out a b → out' a b) :
    Follows rel fits post' out' x y := by
  intro s t hrel a s' hx hp
  rcases h hrel hx (hpost hp) with ⟨b, t', hy, ho, hr⟩ | hfail
  · exact .inl ⟨b, t', hy, hout ho, hr⟩
  · exact .inr hfail

end Follows

/-! ## Agreement -/

/-- Where both succeed over related states, they come to related results and states. -/
structure Agrees (rel : σ → τ → Prop) (out : α → β → Prop) (x : Stateful σ ε α)
    (y : Stateful τ ε β) : Prop where
  of_ok : ∀ {s t}, rel s t → ∀ {a b s' t'}, x s = (.ok a, s') → y t = (.ok b, t') →
    out a b ∧ rel s' t'

section Agrees

variable {rel : σ → τ → Prop} {out : α → β → Prop}

/-- Two results that fit agree. -/
theorem Agrees.pure {a : α} {b : β} (hout : out a b) :
    Agrees rel out (Pure.pure a : Stateful σ ε α) (Pure.pure b : Stateful τ ε β) where
  of_ok hrel _ _ _ _ hx hy := by
    obtain ⟨rfl, rfl⟩ := pure_eq_ok.mp hx
    obtain ⟨rfl, rfl⟩ := pure_eq_ok.mp hy
    exact ⟨hout, hrel⟩

/-- Checks from outside agree when their results do. -/
theorem Agrees.lift {r : Except ε α} {r' : Except ε β}
    (h : ∀ a b, r = .ok a → r' = .ok b → out a b) :
    Agrees rel out (Stateful.lift r : Stateful σ ε α) (Stateful.lift r' : Stateful τ ε β) where
  of_ok hrel a b _ _ hx hy := by
    obtain ⟨ha, rfl⟩ := lift_eq_ok.mp hx
    obtain ⟨hb, rfl⟩ := lift_eq_ok.mp hy
    exact ⟨h a b ha hb, hrel⟩

/-- Changes agree when they keep the relation of the states. -/
theorem Agrees.modify {g : σ → σ} {g' : τ → τ} (hg : ∀ s t, rel s t → rel (g s) (g' t)) :
    Agrees rel (· = ·) (Stateful.modify g : Stateful σ ε Unit)
      (Stateful.modify g' : Stateful τ ε Unit) where
  of_ok hrel _ _ _ _ hx hy := by
    obtain rfl := modify_eq_ok.mp hx
    obtain rfl := modify_eq_ok.mp hy
    exact ⟨rfl, hg _ _ hrel⟩

/-- States that are read agree as they are related. -/
theorem Agrees.get : Agrees rel rel (Stateful.get : Stateful σ ε σ)
    (Stateful.get : Stateful τ ε τ) where
  of_ok hrel _ _ _ _ hx hy := by
    obtain ⟨rfl, rfl⟩ := get_eq_ok.mp hx
    obtain ⟨rfl, rfl⟩ := get_eq_ok.mp hy
    exact ⟨hrel, hrel⟩

/-- Changed errors change no agreement, which is about successes. -/
theorem Agrees.mapError {x : Stateful σ ε α} {y : Stateful τ ε β} {g g' : ε → ε}
    (h : Agrees rel out x y) : Agrees rel out (Stateful.mapError g x) (Stateful.mapError g' y) where
  of_ok hrel _ _ _ _ hx hy := h.of_ok hrel (mapError_eq_ok.mp hx) (mapError_eq_ok.mp hy)

/-- Sequences agree when their parts do. -/
theorem Agrees.bind {x : Stateful σ ε α} {y : Stateful τ ε β} {f : α → Stateful σ ε γ}
    {g : β → Stateful τ ε δ} {out' : γ → δ → Prop} (hx : Agrees rel out x y)
    (hf : ∀ a b, out a b → Agrees rel out' (f a) (g b)) :
    Agrees rel out' (x >>= f) (y >>= g) where
  of_ok hrel _ _ _ _ h h' := by
    obtain ⟨a, s₁, h₁, h₂⟩ := bind_eq_ok.mp h
    obtain ⟨b, t₁, h₁', h₂'⟩ := bind_eq_ok.mp h'
    obtain ⟨hout, hrel₁⟩ := hx.of_ok hrel h₁ h₁'
    exact (hf a b hout).of_ok hrel₁ h₂ h₂'

end Agrees

end Stateful

end WorkflowForge.Lib
