import WorkflowForge.Engine.Binding
import WorkflowForge.Lib.Pointer
import WorkflowForge.Lib.Render

/-!
# Evaluating Bindings

A binding is evaluated where its node is reached, from the input of the scope and the outputs
of earlier nodes. The evaluator counts its steps like the check that ran when the binding was
compiled, though it takes only some of the branches the check counted, and it charges the
bytes of the result piece by piece while it builds it.

What a binding means is stated apart from both, as a relation without budgets.

## Main results

- `Binding.walk_ends`: a checked binding is evaluated to what it means, or there is nothing it
  means, or that has too many bytes.
- `Binding.evaluate_reference`: evaluation against the meaning of the binding.
- `Binding.evaluate_error`: the errors that remain after the check.
-/

namespace WorkflowForge

open Lib

namespace Mapping

/-! ## The evaluator -/

/-- What an evaluation used so far. -/
structure Budget where
  steps : Nat := 0
  bytes : Nat := 0

def outOfBytes : ForgeError :=
  invalid "Mapping result exceeds its byte budget"

def outOfSteps : ForgeError :=
  invalid "JSON Pointer exceeds its evaluation budget"

def invalidIndex : ForgeError :=
  invalid "Invalid array index"

def traversesScalar : ForgeError :=
  invalid "Selection traverses a scalar instead of a container"

def missing : ForgeError :=
  .new "mapping.missing" "Selection has no value and no fallback"

def spend (b : Budget) (bytes : Nat) (limits : Limits) : Except ForgeError Budget :=
  if limits.valueBytes < b.bytes + bytes then .error outOfBytes
  else .ok { b with bytes := b.bytes + bytes }

def copy (v : Value) (b : Budget) (limits : Limits) : Except ForgeError (Value × Budget) :=
  (spend b (jsonBytes v) limits).map fun b => (v, b)

/-- The item of an array that a token names. -/
def element (items : List Value) (token : String) : Except ForgeError (Option Value) :=
  let cs := token.toList
  if token = "-" then .ok none
  else if (1 < cs.length ∧ cs.head? = some '0') ∨ cs = [] ∨ ¬cs.all Char.isDigit then
    .error invalidIndex
  -- an index beyond the largest word is beyond every array
  else .ok items[Nat.ofDigitChars 10 cs 0]?

/-- Where one token of a pointer leads. -/
def descend (token : String) : Option Value → Except ForgeError (Option Value)
  | none => .ok none
  | some (.object members) => .ok (members.lookup token)
  | some (.array items) => element items token
  | some _ => .error traversesScalar

/-- Follows the tokens of a pointer, each for a step. -/
def follow (limits : Limits) (b : Budget) (current : Option Value) :
    List String → Except ForgeError (Option Value × Budget)
  | [] => .ok (current, b)
  | token :: tokens =>
    if limits.bindingSteps < b.steps + 1 then .error outOfSteps
    else do
      let current ← descend token current
      follow limits { b with steps := b.steps + 1 } current tokens

/-- The document that a selection starts from. -/
def root (input : Value) (outputs : BTreeMap String Value) (source : DataSource)
    (node : Option String) : Option Value :=
  match source with
  | .input => some input
  | .node => node.bind fun id => outputs[id]?

end Mapping

open Mapping Engine

mutual
/-- Evaluates a binding at its depth. -/
def Binding.walk (input : Value) (outputs : BTreeMap String Value) (limits : Limits)
    (depth : Nat) (budget : Budget) (b : Binding) : Except ForgeError (Value × Budget) :=
  if limits.bindingDepth < depth ∨ limits.bindingSteps < budget.steps + 1 then .error overBudget
  else
    let budget := { budget with steps := budget.steps + 1 }
    match b with
    | .literal v => copy v budget limits
    | .select s => s.walk input outputs limits depth budget
    | .object fields => do
      let budget ← spend budget (2 + (fields.length - 1)) limits
      let (members, budget) ← Binding.walkFields input outputs limits (depth + 1) budget fields
      return (.object members, budget)
    | .array items => do
      let budget ← spend budget (2 + (items.length - 1)) limits
      let (values, budget) ← Binding.walkItems input outputs limits (depth + 1) budget items
      return (.array values, budget)

def Selection.walk (input : Value) (outputs : BTreeMap String Value) (limits : Limits)
    (depth : Nat) (budget : Budget) : Selection → Except ForgeError (Value × Budget)
  | ⟨source, node, pointer, fallback⟩ => do
    let tokens ← tokens pointer
    let (current, budget) ← follow limits budget (root input outputs source node) tokens
    match current with
    | some value => copy value budget limits
    | none => Binding.walkFallback input outputs limits (depth + 1) budget fallback

def Binding.walkFallback (input : Value) (outputs : BTreeMap String Value) (limits : Limits)
    (depth : Nat) (budget : Budget) : Option Binding → Except ForgeError (Value × Budget)
  | none => .error missing
  | some b => b.walk input outputs limits depth budget

/-- The fields of an object have distinct names, so each one adds a member. -/
def Binding.walkFields (input : Value) (outputs : BTreeMap String Value) (limits : Limits)
    (depth : Nat) (budget : Budget) :
    List (String × Binding) → Except ForgeError (List (String × Value) × Budget)
  | [] => .ok ([], budget)
  | (key, b) :: fields => do
    let budget ← spend budget (jsonBytes key + 1) limits
    let (value, budget) ← b.walk input outputs limits depth budget
    let (members, budget) ← Binding.walkFields input outputs limits depth budget fields
    return ((key, value) :: members, budget)

def Binding.walkItems (input : Value) (outputs : BTreeMap String Value) (limits : Limits)
    (depth : Nat) (budget : Budget) :
    List Binding → Except ForgeError (List Value × Budget)
  | [] => .ok ([], budget)
  | b :: items => do
    let (value, budget) ← b.walk input outputs limits depth budget
    let (values, budget) ← Binding.walkItems input outputs limits depth budget items
    return (value :: values, budget)
end

def Binding.evaluate (b : Binding) (input : Value) (outputs : BTreeMap String Value)
    (limits : Limits) : Except ForgeError Value := do
  let (value, _) ← b.walk input outputs limits 1 {}
  let _ ← checkValue value limits.valueBytes limits.jsonDepth
  return value

/-! ## Depth of a document -/

mutual
/-- The levels of a document. -/
def Lib.Value.depth : Value → Nat
  | .array items => 1 + Lib.Value.itemsDepth items
  | .object members => 1 + Lib.Value.membersDepth members
  | _ => 1

def Lib.Value.itemsDepth : List Value → Nat
  | [] => 0
  | v :: rest => max v.depth (Lib.Value.itemsDepth rest)

def Lib.Value.membersDepth : List (String × Value) → Nat
  | [] => 0
  | (_, v) :: rest => max v.depth (Lib.Value.membersDepth rest)
end

theorem Lib.Value.depth_pos (v : Value) : 0 < v.depth := by
  cases v <;> simp [Value.depth]

namespace Engine

mutual
/-- A document is walked exactly when its last level is within the limit. -/
theorem walk_cases (max depth : Nat) (v : Value) :
    (depth + v.depth ≤ max + 1 ∧ ∃ n, walk max depth v = .ok n) ∨
    (max + 1 < depth + v.depth ∧ walk max depth v = .error tooDeep) := by
  have hpos := v.depth_pos
  rw [walk.eq_def]
  split
  -- already too deep
  next hdeep => exact .inr ⟨by omega, rfl⟩
  next hdepth =>
    match v with
    | .array items =>
      have hlevel : depth + 1 ≤ max + 1 := by omega
      rw [Value.depth]
      rcases walkItems_cases hlevel items with ⟨hle, n, hn⟩ | ⟨hlt, hn⟩
      · exact .inl ⟨by omega, n + 1, by simp only [hn, Except.map]⟩
      · exact .inr ⟨by omega, by simp only [hn, Except.map]⟩
    | .object members =>
      have hlevel : depth + 1 ≤ max + 1 := by omega
      rw [Value.depth]
      rcases walkMembers_cases hlevel members with ⟨hle, n, hn⟩ | ⟨hlt, hn⟩
      · exact .inl ⟨by omega, n + 1, by simp only [hn, Except.map]⟩
      · exact .inr ⟨by omega, by simp only [hn, Except.map]⟩
    | .null | .bool _ | .number _ | .string _ =>
      have hlevel : depth + 1 ≤ max + 1 := by omega
      exact .inl ⟨hlevel, 1, rfl⟩
termination_by structural v

/-- The walk over items succeeds within the depth, and fails with one error beyond it. -/
theorem walkItems_cases {max depth : Nat} (h : depth ≤ max + 1) (items : List Value) :
    (depth + Value.itemsDepth items ≤ max + 1 ∧ ∃ n, walkItems max depth items = .ok n) ∨
    (max + 1 < depth + Value.itemsDepth items ∧
      walkItems max depth items = .error tooDeep) := by
  match items with
  | [] => exact .inl ⟨h, 0, rfl⟩
  | v :: rest =>
    rw [Value.itemsDepth, walkItems]
    rcases walk_cases max depth v with ⟨hv, n, hn⟩ | ⟨hv, hn⟩
    · rw [hn, ok_bind]
      rcases walkItems_cases h rest with ⟨hrest, m, hm⟩ | ⟨hrest, hm⟩
      · exact .inl ⟨by omega, n + m, by rw [hm]; rfl⟩
      · exact .inr ⟨by omega, by rw [hm]; rfl⟩
    · exact .inr ⟨by omega, by rw [hn, error_bind]⟩
termination_by structural items

theorem walkMembers_cases {max depth : Nat} (h : depth ≤ max + 1)
    (members : List (String × Value)) :
    (depth + Value.membersDepth members ≤ max + 1 ∧
      ∃ n, walkMembers max depth members = .ok n) ∨
    (max + 1 < depth + Value.membersDepth members ∧
      walkMembers max depth members = .error tooDeep) := by
  match members with
  | [] => exact .inl ⟨h, 0, rfl⟩
  | (key, v) :: rest =>
    rw [Value.membersDepth, walkMembers]
    rcases walk_cases max depth v with ⟨hv, n, hn⟩ | ⟨hv, hn⟩
    · rw [hn, ok_bind]
      rcases walkMembers_cases h rest with ⟨hrest, m, hm⟩ | ⟨hrest, hm⟩
      · exact .inl ⟨by omega, n + m, by rw [hm]; rfl⟩
      · exact .inr ⟨by omega, by rw [hm]; rfl⟩
    · exact .inr ⟨by omega, by rw [hn, error_bind]⟩
termination_by structural members
end

/-- A document is admitted exactly when its text and its levels are within the limits. -/
theorem checkValue_cases (v : Value) (maxBytes maxDepth : Nat) :
    ((v.bytes ≤ maxBytes ∧ v.depth ≤ maxDepth) ∧
      ∃ n, checkValue v maxBytes maxDepth = .ok n) ∨
    (maxDepth < v.depth ∧ checkValue v maxBytes maxDepth = .error tooDeep) ∨
    (maxBytes < v.bytes ∧ ∃ e, checkValue v maxBytes maxDepth = .error e) := by
  unfold checkValue
  rcases walk_cases maxDepth 1 v with ⟨hdepth, n, hn⟩ | ⟨hdepth, hn⟩
  · rw [hn, ok_bind]
    rcases Nat.lt_or_ge maxBytes v.bytes with hlt | hge
    · have hfalse : decide (jsonBytes v ≤ maxBytes) = false := decide_eq_false (Nat.not_le.mpr hlt)
      exact .inr (.inr ⟨hlt, _, by rw [hfalse, ensure_false, error_bind]⟩)
    · have htrue : decide (jsonBytes v ≤ maxBytes) = true := decide_eq_true hge
      exact .inl ⟨⟨hge, by omega⟩, n, by rw [htrue, ensure_true, ok_bind]; rfl⟩
  · exact .inr (.inl ⟨by omega, by rw [hn, error_bind]⟩)

end Engine

/-! ## The meaning of a binding -/

/-- The names that a pointer consists of: `~1` stands for a slash, and `~0` for a tilde. -/
def Mapping.names (pointer : String) : Option (List String) :=
  match pointer.toList with
  | [] => some []
  | '/' :: rest => some ((rest.splitOn '/').map unescape)
  | _ => none

/-- Where a selection leads; nowhere if its pointer does not fit the document. -/
def Selection.LeadsTo (input : Value) (outputs : BTreeMap String Value) (s : Selection)
    (place : Option Value) : Prop :=
  ∃ names, Mapping.names s.pointer = some names ∧
    Resolves (root input outputs s.source s.node) names place

mutual
/-- The value of a binding. -/
inductive Binding.Means (input : Value) (outputs : BTreeMap String Value) :
    Binding → Value → Prop where
  | literal (v : Value) : Binding.Means input outputs (.literal v) v
  | selected {s : Selection} {v : Value} : s.LeadsTo input outputs (some v) →
      Binding.Means input outputs (.select s) v
  | fallback {s : Selection} {b : Binding} {v : Value} : s.LeadsTo input outputs none →
      s.fallback = some b → Binding.Means input outputs b v →
      Binding.Means input outputs (.select s) v
  | object {fields : List (String × Binding)} {members : List (String × Value)} :
      Binding.MeansFields input outputs fields members →
      Binding.Means input outputs (.object fields) (.object members)
  | array {items : List Binding} {values : List Value} :
      Binding.MeansItems input outputs items values →
      Binding.Means input outputs (.array items) (.array values)

inductive Binding.MeansFields (input : Value) (outputs : BTreeMap String Value) :
    List (String × Binding) → List (String × Value) → Prop where
  | nil : Binding.MeansFields input outputs [] []
  | cons {key : String} {b : Binding} {fields : List (String × Binding)} {v : Value}
      {members : List (String × Value)} : Binding.Means input outputs b v →
      Binding.MeansFields input outputs fields members →
      Binding.MeansFields input outputs ((key, b) :: fields) ((key, v) :: members)

inductive Binding.MeansItems (input : Value) (outputs : BTreeMap String Value) :
    List Binding → List Value → Prop where
  | nil : Binding.MeansItems input outputs [] []
  | cons {b : Binding} {items : List Binding} {v : Value} {values : List Value} :
      Binding.Means input outputs b v → Binding.MeansItems input outputs items values →
      Binding.MeansItems input outputs (b :: items) (v :: values)
end

/-! ## Pointers -/

namespace Mapping

theorem replacePair_cons_of_ne {a b c x : Char} {cs : List Char} (h : x ≠ a) :
    replacePair a b c (x :: cs) = x :: replacePair a b c cs := by
  cases cs with
  | nil => rfl
  | cons y rest => rw [replacePair, if_neg fun hxy => h hxy.1]

/-- Reading the escapes from left to right is replacing them one kind after the other. -/
theorem decodeToken_eq {cs ds : List Char} (h : decodeToken cs = some ds) :
    replacePair '~' '0' '~' (replacePair '~' '1' '/' cs) = ds := by
  fun_induction decodeToken cs generalizing ds with
  | case1 =>
    cases h
    rfl
  -- an escaped tilde, which the first replacement leaves alone
  | case2 cs ih =>
    obtain ⟨rest, hrest, rfl⟩ := Option.map_eq_some_iff.mp h
    have hfirst : replacePair '~' '1' '/' ('~' :: '0' :: cs) =
        '~' :: '0' :: replacePair '~' '1' '/' cs := by
      rw [replacePair, if_neg (by decide), replacePair_cons_of_ne (by decide)]
    rw [hfirst, replacePair, if_pos (by decide), ih hrest]
  -- an escaped slash, which the second one does not see
  | case3 cs ih =>
    obtain ⟨rest, hrest, rfl⟩ := Option.map_eq_some_iff.mp h
    have hfirst : replacePair '~' '1' '/' ('~' :: '1' :: cs) =
        '/' :: replacePair '~' '1' '/' cs := by
      rw [replacePair, if_pos (by decide)]
    rw [hfirst, replacePair_cons_of_ne (by decide), ih hrest]
  | case4 => nomatch h
  | case5 c cs _ _ hne ih =>
    obtain ⟨rest, hrest, rfl⟩ := Option.map_eq_some_iff.mp h
    have hc : c ≠ '~' := hne
    rw [replacePair_cons_of_ne hc, replacePair_cons_of_ne hc, ih hrest]

/-- The tokens of a well-formed pointer are the names it consists of. -/
theorem names_of_tokens {pointer : String} {ts : List String} (h : tokens pointer = .ok ts) :
    names pointer = some ts := by
  unfold tokens at h
  unfold names
  generalize pointer.toList = characters at h ⊢
  split at h
  next =>
    cases h
    rfl
  next rest =>
    refine congrArg some ?_
    generalize rest.splitOn '/' = parts at h
    -- part by part
    induction parts generalizing ts with
    | nil =>
      cases h
      rfl
    | cons part parts ih =>
      rw [List.mapM_cons] at h
      obtain ⟨token, htoken, h⟩ := bind_eq_ok.mp h
      obtain ⟨rest, hrest, h⟩ := bind_eq_ok.mp h
      cases h
      obtain ⟨decoded, hdecoded, rfl⟩ := Option.map_eq_some_iff.mp (okOr_eq_ok.mp htoken)
      rw [List.map_cons, ih hrest, unescape, decodeToken_eq hdecoded]
  · nomatch h

/-- The errors of a pointer that does not fit the document. -/
def Unfit (e : ForgeError) : Prop :=
  e = invalidIndex ∨ e = traversesScalar

/-- A token that is no index is an error; any other one leads to one place. -/
theorem element_spec (items : List Value) (token : String) :
    (∃ place, element items token = .ok place ∧ ∀ tokens r,
      Resolves (some (.array items)) (token :: tokens) r ↔ Resolves place tokens r) ∨
    (element items token = .error invalidIndex ∧ ∀ tokens r,
      ¬Resolves (some (.array items)) (token :: tokens) r) := by
  by_cases hdash : token = "-"
  · subst hdash
    refine .inl ⟨none, by rw [element, if_pos rfl], fun tokens r => ⟨fun h => ?_, .afterLast⟩⟩
    generalize htoken : "-" = token at h
    cases h with
    | item h => exact absurd htoken.symm (toString_ne_dash _)
    | afterLast h => exact h
  · by_cases hbad : (1 < token.toList.length ∧ token.toList.head? = some '0') ∨
        token.toList = [] ∨ ¬token.toList.all Char.isDigit
    · refine .inr ⟨by simp only [element, if_neg hdash, if_pos hbad], fun tokens r h => ?_⟩
      cases h with
      | @item _ index _ _ h =>
        -- the numeral of an index is none of the rejected tokens
        have hlist : (toString index).toList = Nat.toDigits 10 index := Nat.toList_repr
        rw [hlist] at hbad
        rcases hbad with ⟨hlen, hhead⟩ | hnil | hdigits
        · rcases head_toDigits_ne_zero index with h | h
          · exact h hhead
          · omega
        · exact Nat.toDigits_ne_nil hnil
        · refine hdigits (List.all_eq_true.mpr fun c hc => ?_)
          exact Nat.isDigit_of_mem_toDigits (by decide) (by decide) hc
      | afterLast h => exact hdash rfl
    · refine .inl ⟨items[Nat.ofDigitChars 10 token.toList 0]?,
        by simp only [element, if_neg hdash, if_neg hbad], fun tokens r => ?_⟩
      obtain ⟨hzero, hne, hall⟩ : ¬(1 < token.toList.length ∧ token.toList.head? = some '0') ∧
          token.toList ≠ [] ∧ token.toList.all Char.isDigit := by
        rw [not_or, not_or, not_not] at hbad
        exact hbad
      have hlen := List.length_pos_of_ne_nil hne
      have hlead : token.toList.head? ≠ some '0' ∨ token.toList.length = 1 := by
        rw [not_and_or] at hzero
        rcases hzero with h | h
        · exact .inr (by omega)
        · exact .inl h
      have hnumeral := toDigits_ofDigitChars (List.all_eq_true.mp hall) hne hlead
      have htoken : toString (Nat.ofDigitChars 10 token.toList 0) = token := by
        rw [Nat.toString_eq_repr, Nat.repr_eq_ofList_toDigits, hnumeral, String.ofList_toList]
      constructor
      · intro h
        generalize hlist : token.toList = cs at *
        cases h with
        | @item _ index _ _ h =>
          rw [← hlist, Nat.toString_eq_repr, Nat.toList_repr, Nat.ofDigitChars_ten_toDigits]
          exact h
        | afterLast h => exact absurd rfl hdash
      · intro h
        have hitem : Resolves (some (.array items)) _ _ := Resolves.item h
        rwa [htoken] at hitem

/-- One token leads to one place, or the pointer does not fit. -/
theorem descend_spec (token : String) (current : Option Value) :
    (∃ place, descend token current = .ok place ∧ ∀ tokens r,
      Resolves current (token :: tokens) r ↔ Resolves place tokens r) ∨
    (∃ e, descend token current = .error e ∧ Unfit e ∧ ∀ tokens r,
      ¬Resolves current (token :: tokens) r) := by
  cases current with
  | none =>
    refine .inl ⟨none, rfl, fun tokens r => ⟨fun h => ?_, .absent⟩⟩
    cases h with
    | absent h => exact h
  | some v =>
    cases v with
    -- a member, or nothing where there is none
    | object members =>
      refine .inl ⟨_, rfl, fun tokens r => ⟨fun h => ?_, .member⟩⟩
      cases h with
      | member h => exact h
    -- only an index selects an item
    | array items =>
      rcases element_spec items token with h | ⟨h, hnone⟩
      · exact .inl h
      · exact .inr ⟨_, h, .inl rfl, hnone⟩
    -- scalars cannot be traversed
    | _ => exact .inr ⟨_, rfl, .inr rfl, fun tokens r h => nomatch h⟩

/-- With steps for its tokens, a pointer is followed to where it leads. -/
theorem follow_spec {limits : Limits} {ts : List String} {b : Budget} {current : Option Value}
    (h : b.steps + ts.length ≤ limits.bindingSteps) :
    (∃ place, follow limits b current ts =
        .ok (place, { b with steps := b.steps + ts.length }) ∧ Resolves current ts place) ∨
    (∃ e, follow limits b current ts = .error e ∧ Unfit e ∧ ∀ r, ¬Resolves current ts r) := by
  induction ts generalizing b current with
  | nil => exact .inl ⟨current, rfl, .done current⟩
  | cons token ts ih =>
    rw [List.length_cons] at h
    have hstep : ¬limits.bindingSteps < b.steps + 1 := by omega
    rw [follow, if_neg hstep]
    -- one token costs one step, whether it leads on or not
    rcases descend_spec token current with ⟨place, hplace, hiff⟩ | ⟨e, he, hunfit, hnone⟩
    · rw [hplace, ok_bind]
      have hrest : { b with steps := b.steps + 1 }.steps + ts.length ≤ limits.bindingSteps := by
        change b.steps + 1 + ts.length ≤ limits.bindingSteps
        omega
      rcases @ih { b with steps := b.steps + 1 } place hrest with
        ⟨r, hr, hresolves⟩ | ⟨e, he, hunfit, hnone⟩
      · refine .inl ⟨r, ?_, (hiff ts r).mpr hresolves⟩
        rw [hr, List.length_cons, Nat.add_assoc, Nat.add_comm 1]
      · exact .inr ⟨e, he, hunfit, fun r hr => hnone r ((hiff ts r).mp hr)⟩
    · exact .inr ⟨e, by rw [he, error_bind], hunfit, fun r => hnone ts r⟩

end Mapping

/-! ## What the check counts -/

section Check

variable {available : BTreeSet String} {limits : Limits} {depth steps n : Nat}

/-- A visited binding is within the budget before and after its parts. -/
theorem Binding.visit_eq_ok {b : Binding} (h : b.visit available limits depth steps = .ok n) :
    depth ≤ limits.bindingDepth ∧ steps + 1 ≤ limits.bindingSteps ∧ n ≤ limits.bindingSteps ∧
      (match b with
        | .select s => s.visit available limits depth (steps + 1)
        | .object fields => Binding.visitFields available limits (depth + 1) (steps + 1) fields
        | .array items => Binding.visitItems available limits (depth + 1) (steps + 1) items
        | .literal v =>
          (checkValue v limits.valueBytes limits.jsonDepth).map fun _ => steps + 1) = .ok n := by
  rw [Binding.visit.eq_def] at h
  split at h
  · nomatch h
  next hbudget =>
    -- the kind of binding decides the parts, the bound is checked after all of them
    have hparts : ∃ m, (match b with
        | .select s => s.visit available limits depth (steps + 1)
        | .object fields => Binding.visitFields available limits (depth + 1) (steps + 1) fields
        | .array items => Binding.visitItems available limits (depth + 1) (steps + 1) items
        | .literal v =>
          (checkValue v limits.valueBytes limits.jsonDepth).map fun _ => steps + 1) = .ok m ∧
        (ensure (m ≤ limits.bindingSteps) overBudget >>= fun _ => pure m) = .ok n := by
      cases b <;> exact bind_eq_ok.mp h
    obtain ⟨m, hm, h⟩ := hparts
    obtain ⟨_, hle, h⟩ := bind_eq_ok.mp h
    have hle : m ≤ limits.bindingSteps := by simpa using ensure_eq_ok.mp hle
    cases h
    rw [not_or, not_lt, not_lt] at hbudget
    exact ⟨hbudget.1, hbudget.2, hle, hm⟩

/-- A selection that was checked has a pointer that splits into tokens, and a source that it may
read. -/
theorem Selection.visit_eq_ok {s : Selection} (h : s.visit available limits depth steps = .ok n) :
    ∃ ts, tokens s.pointer = .ok ts ∧ reads available s.source s.node = true ∧
      Binding.visitFallback available limits (depth + 1) (steps + ts.length) s.fallback =
        .ok n := by
  obtain ⟨source, node, pointer, fallback⟩ := s
  obtain ⟨ts, hts, h⟩ := bind_eq_ok.mp h
  obtain ⟨_, hreads, h⟩ := bind_eq_ok.mp h
  exact ⟨ts, hts, ensure_eq_ok.mp hreads, h⟩

mutual
/-- A visit counts its own step and those of the parts. -/
theorem Binding.lt_visit (b : Binding) {depth steps n : Nat}
    (h : b.visit available limits depth steps = .ok n) : steps < n := by
  obtain ⟨-, -, -, h⟩ := Binding.visit_eq_ok h
  match b with
  | .literal v =>
    obtain ⟨_, _, rfl⟩ := map_eq_ok.mp h
    exact Nat.lt_succ_self steps
  | .select s =>
    have := Selection.le_visit s h
    omega
  | .object fields =>
    have := Binding.le_visitFields fields h
    omega
  | .array items =>
    have := Binding.le_visitItems items h
    omega
termination_by structural b

/-- A check never gives steps back. -/
theorem Selection.le_visit (s : Selection) {depth steps n : Nat}
    (h : s.visit available limits depth steps = .ok n) : steps ≤ n := by
  obtain ⟨ts, -, -, h⟩ := Selection.visit_eq_ok h
  match s with
  | ⟨source, node, pointer, fallback⟩ =>
    have := Binding.le_visitFallback fallback h
    omega
termination_by structural s

theorem Binding.le_visitFallback (fallback : Option Binding) {depth steps n : Nat}
    (h : Binding.visitFallback available limits depth steps fallback = .ok n) : steps ≤ n := by
  match fallback with
  | none =>
    cases h
    exact le_rfl
  | some b => exact (Binding.lt_visit b h).le
termination_by structural fallback

theorem Binding.le_visitFields (fields : List (String × Binding)) {depth steps n : Nat}
    (h : Binding.visitFields available limits depth steps fields = .ok n) : steps ≤ n := by
  match fields with
  | [] =>
    cases h
    exact le_rfl
  | (key, b) :: fields =>
    obtain ⟨m, hm, h⟩ := bind_eq_ok.mp h
    exact (Binding.lt_visit b hm).le.trans (Binding.le_visitFields fields h)
termination_by structural fields

theorem Binding.le_visitItems (items : List Binding) {depth steps n : Nat}
    (h : Binding.visitItems available limits depth steps items = .ok n) : steps ≤ n := by
  match items with
  | [] =>
    cases h
    exact le_rfl
  | b :: items =>
    obtain ⟨m, hm, h⟩ := bind_eq_ok.mp h
    exact (Binding.lt_visit b hm).le.trans (Binding.le_visitItems items h)
termination_by structural items
end

end Check

/-! ## What a binding means -/

section Means

variable {input : Value} {outputs : BTreeMap String Value}

/-- A selection leads to one place only. -/
theorem Selection.LeadsTo.unique {s : Selection} {place place' : Option Value}
    (h : s.LeadsTo input outputs place) (h' : s.LeadsTo input outputs place') :
    place = place' := by
  obtain ⟨names, hnames, h⟩ := h
  obtain ⟨names', hnames', h'⟩ := h'
  obtain rfl : names = names' := Option.some.inj (hnames.symm.trans hnames')
  exact h.unique h'

/-- A selection that leads to a document means that document and nothing else. -/
theorem Binding.means_selected {s : Selection} {v w : Value}
    (h : s.LeadsTo input outputs (some v)) (hw : (Binding.select s).Means input outputs w) :
    w = v := by
  cases hw with
  | selected h' => exact Option.some.inj (h'.unique h)
  | fallback h' => nomatch h'.unique h

/-- A selection that leads to no document means what its fallback means. -/
theorem Binding.means_fallback {s : Selection} {v : Value} (h : s.LeadsTo input outputs none) :
    (Binding.select s).Means input outputs v ↔
      ∃ b, s.fallback = some b ∧ b.Means input outputs v := by
  constructor
  · intro hv
    cases hv with
    | selected h' => nomatch h'.unique h
    | fallback _ hb hv => exact ⟨_, hb, hv⟩
  · rintro ⟨b, hb, hv⟩
    exact .fallback h hb hv

/-- An object binding means an object with one member for each field. -/
theorem Binding.means_object {fields : List (String × Binding)} {v : Value} :
    (Binding.object fields).Means input outputs v ↔
      ∃ members, v = .object members ∧ Binding.MeansFields input outputs fields members := by
  constructor
  · intro hv
    cases hv with
    | object h => exact ⟨_, rfl, h⟩
  · rintro ⟨members, rfl, h⟩
    exact .object h

/-- An array binding means an array with one item for each binding. -/
theorem Binding.means_array {items : List Binding} {v : Value} :
    (Binding.array items).Means input outputs v ↔
      ∃ values, v = .array values ∧ Binding.MeansItems input outputs items values := by
  constructor
  · intro hv
    cases hv with
    | array h => exact ⟨_, rfl, h⟩
  · rintro ⟨values, rfl, h⟩
    exact .array h

/-- The first member is what the first field means. -/
theorem Binding.meansFields_cons {key : String} {b : Binding} {fields : List (String × Binding)}
    {members : List (String × Value)} :
    Binding.MeansFields input outputs ((key, b) :: fields) members ↔
      ∃ v rest, members = (key, v) :: rest ∧ b.Means input outputs v ∧
        Binding.MeansFields input outputs fields rest := by
  constructor
  · intro h
    cases h with
    | cons hv h => exact ⟨_, _, rfl, hv, h⟩
  · rintro ⟨v, rest, rfl, hv, h⟩
    exact .cons hv h

/-- The first item is what the first binding means. -/
theorem Binding.meansItems_cons {b : Binding} {items : List Binding} {values : List Value} :
    Binding.MeansItems input outputs (b :: items) values ↔
      ∃ v rest, values = v :: rest ∧ b.Means input outputs v ∧
        Binding.MeansItems input outputs items rest := by
  constructor
  · intro h
    cases h with
    | cons hv h => exact ⟨_, _, rfl, hv, h⟩
  · rintro ⟨v, rest, rfl, hv, h⟩
    exact .cons hv h

mutual
/-- A binding means one value at most. -/
theorem Binding.means_unique (b : Binding) {v w : Value} (hv : b.Means input outputs v)
    (hw : b.Means input outputs w) : v = w := by
  match b with
  | .literal u =>
    cases hv
    cases hw
    rfl
  | .select ⟨source, node, pointer, fallback⟩ =>
    cases hv with
    -- a pointer leads to one place
    | selected h => exact (Binding.means_selected h hw).symm
    | fallback h hb hv =>
      obtain ⟨b', hb', hw⟩ := (Binding.means_fallback h).mp hw
      exact Binding.meansFallback_unique fallback hb hv hb' hw
  | .object fields =>
    obtain ⟨members, rfl, hmembers⟩ := Binding.means_object.mp hv
    obtain ⟨members', rfl, hmembers'⟩ := Binding.means_object.mp hw
    rw [Binding.meansFields_unique fields hmembers hmembers']
  | .array items =>
    obtain ⟨values, rfl, hvalues⟩ := Binding.means_array.mp hv
    obtain ⟨values', rfl, hvalues'⟩ := Binding.means_array.mp hw
    rw [Binding.meansItems_unique items hvalues hvalues']
termination_by structural b

theorem Binding.meansFallback_unique (fallback : Option Binding) {b b' : Binding} {v w : Value}
    (hb : fallback = some b) (hv : b.Means input outputs v) (hb' : fallback = some b')
    (hw : b'.Means input outputs w) : v = w := by
  match fallback with
  | none => nomatch hb
  | some c =>
    obtain rfl := Option.some.inj hb
    obtain rfl := Option.some.inj hb'
    exact Binding.means_unique c hv hw
termination_by structural fallback

theorem Binding.meansFields_unique (fields : List (String × Binding))
    {members members' : List (String × Value)}
    (h : Binding.MeansFields input outputs fields members)
    (h' : Binding.MeansFields input outputs fields members') : members = members' := by
  match fields with
  | [] =>
    cases h with
    | nil => cases h' with | nil => rfl
  | (key, b) :: fields =>
    obtain ⟨v, rest, rfl, hv, h⟩ := Binding.meansFields_cons.mp h
    obtain ⟨v', rest', rfl, hv', h'⟩ := Binding.meansFields_cons.mp h'
    rw [Binding.means_unique b hv hv', Binding.meansFields_unique fields h h']
termination_by structural fields

theorem Binding.meansItems_unique (items : List Binding) {values values' : List Value}
    (h : Binding.MeansItems input outputs items values)
    (h' : Binding.MeansItems input outputs items values') : values = values' := by
  match items with
  | [] =>
    cases h with
    | nil => cases h' with | nil => rfl
  | b :: items =>
    obtain ⟨v, rest, rfl, hv, h⟩ := Binding.meansItems_cons.mp h
    obtain ⟨v', rest', rfl, hv', h'⟩ := Binding.meansItems_cons.mp h'
    rw [Binding.means_unique b hv hv', Binding.meansItems_unique items h h']
termination_by structural items
end

/-- No field is left out, so that the commas can be counted before. -/
theorem Binding.MeansFields.length_eq {fields : List (String × Binding)}
    {members : List (String × Value)} (h : Binding.MeansFields input outputs fields members) :
    members.length = fields.length := by
  induction fields generalizing members with
  | nil =>
    cases h
    rfl
  | cons field fields ih =>
    cases h with
    | cons _ h => rw [List.length_cons, List.length_cons, ih h]

theorem Binding.MeansItems.length_eq {items : List Binding} {values : List Value}
    (h : Binding.MeansItems input outputs items values) : values.length = items.length := by
  induction items generalizing values with
  | nil =>
    cases h
    rfl
  | cons item items ih =>
    cases h with
    | cons _ h => rw [List.length_cons, List.length_cons, ih h]

end Means

/-! ## Evaluation of a checked binding -/

namespace Mapping

/-- An error about the data: nothing is selected, or the pointer does not fit. -/
def Undefined (e : ForgeError) : Prop :=
  e = missing ∨ Unfit e

/-- How an evaluation ends that started at a number of bytes and may count up to `n` steps:
with what is meant, charged with its size; with an error where nothing is meant; or out of
bytes, if what is meant has more. -/
inductive Ends {α : Type} (limits : Limits) (means : α → Prop) (size : α → Nat)
    (bytes n : Nat) : Except ForgeError (α × Budget) → Prop where
  | value {a : α} {budget : Budget} : means a → budget.steps ≤ n →
      budget.bytes = bytes + size a → budget.bytes ≤ limits.valueBytes →
      Ends limits means size bytes n (.ok (a, budget))
  | undefined {e : ForgeError} : Undefined e → (∀ a, ¬means a) →
      Ends limits means size bytes n (.error e)
  | outOfBytes : (∀ a, means a → limits.valueBytes < bytes + size a) →
      Ends limits means size bytes n (.error outOfBytes)

section Ends

variable {α β γ : Type} {limits : Limits} {bytes m n : Nat}

/-- Bytes are spent within the limit, or there is the one error. -/
theorem spend_cases (b : Budget) (bytes : Nat) (limits : Limits) :
    (b.bytes + bytes ≤ limits.valueBytes ∧
      spend b bytes limits = .ok { b with bytes := b.bytes + bytes }) ∨
    (limits.valueBytes < b.bytes + bytes ∧ spend b bytes limits = .error outOfBytes) := by
  unfold spend
  split
  next h => exact .inr ⟨h, rfl⟩
  next h => exact .inl ⟨by omega, rfl⟩

/-- A value that is copied ends with its own bytes, or out of bytes. -/
theorem copy_ends {means : Value → Prop} {b : Budget} {v : Value} (hv : means v)
    (hunique : ∀ w, means w → w = v) (hn : b.steps ≤ n) :
    Ends limits means Value.bytes b.bytes n (copy v b limits) := by
  unfold copy
  rcases spend_cases b (jsonBytes v) limits with ⟨hle, h⟩ | ⟨hlt, h⟩
  · rw [h]
    exact .value hv hn rfl hle
  · rw [h]
    refine .outOfBytes fun w hw => ?_
    rw [hunique w hw]
    exact hlt

/-- Charges a number of bytes that everything meant has besides its parts. -/
theorem spend_ends {means : α → Prop} {size : α → Nat} {b : Budget} {k : Nat}
    {f : Budget → Except ForgeError (α × Budget)} (hsize : ∀ a, means a → k ≤ size a)
    (hf : b.bytes + k ≤ limits.valueBytes →
      Ends limits means size b.bytes n (f { b with bytes := b.bytes + k })) :
    Ends limits means size b.bytes n (spend b k limits >>= f) := by
  rcases spend_cases b k limits with ⟨hle, h⟩ | ⟨hlt, h⟩
  · rw [h, ok_bind]
    exact hf hle
  · rw [h, error_bind]
    refine .outOfBytes fun a ha => ?_
    have := hsize a ha
    omega

/-- Builds a value from a part, some of whose bytes were charged before. -/
theorem Ends.build {means : α → Prop} {means' : β → Prop} {size : α → Nat} {size' : β → Nat}
    {f : α → β} {k : Nat} {x : Except ForgeError (α × Budget)}
    (h : Ends limits means size (bytes + k) n x)
    (hmeans : ∀ b, means' b ↔ ∃ a, b = f a ∧ means a)
    (hsize : ∀ a, means a → size' (f a) = k + size a) :
    Ends limits means' size' bytes n (do
      let (a, budget) ← x
      return (f a, budget)) := by
  cases h with
  -- a constant number of bytes more
  | @value a budget ha hn hbytes hle =>
    refine .value ((hmeans _).mpr ⟨a, rfl, ha⟩) hn ?_ hle
    have := hsize a ha
    omega
  | undefined he hnone =>
    refine .undefined he fun b hb => ?_
    obtain ⟨a, -, ha⟩ := (hmeans b).mp hb
    exact hnone a ha
  | outOfBytes hlt =>
    refine .outOfBytes fun b hb => ?_
    obtain ⟨a, rfl, ha⟩ := (hmeans b).mp hb
    have := hsize a ha
    have := hlt a ha
    omega

/-- Evaluates one part after the other. -/
theorem Ends.seq {means : α → Prop} {means' : β → Prop} {both : γ → Prop} {size : α → Nat}
    {size' : β → Nat} {sizes : γ → Nat} {g : α → β → γ} {k : Nat}
    {x : Except ForgeError (α × Budget)} {f : Budget → Except ForgeError (β × Budget)}
    (h : Ends limits means size (bytes + k) m x)
    (hf : ∀ budget, budget.steps ≤ m → budget.bytes ≤ limits.valueBytes →
      Ends limits means' size' budget.bytes n (f budget))
    (hunique : ∀ a a', means a → means a' → a = a')
    (hboth : ∀ c, both c ↔ ∃ a b, c = g a b ∧ means a ∧ means' b)
    (hsizes : ∀ a b, sizes (g a b) = k + size a + size' b) :
    Ends limits both sizes bytes n (do
      let (a, budget) ← x
      let (b, budget) ← f budget
      return (g a b, budget)) := by
  cases h with
  -- the second part goes on from the budget of the first
  | @value a budget ha hm hbytes hle =>
    rw [ok_bind]
    change Ends limits both sizes bytes n (f budget >>= fun r => pure (g a r.1, r.2))
    have hend := hf budget hm hle
    generalize f budget = y at hend
    cases hend with
    | @value b budget' hb hn hbytes' hle' =>
      refine .value ((hboth _).mpr ⟨a, b, rfl, ha, hb⟩) hn ?_ hle'
      have := hsizes a b
      change budget'.bytes = bytes + sizes (g a b)
      omega
    -- without a first part there is no whole
    | undefined he hnone =>
      refine .undefined he fun c hc => ?_
      obtain ⟨_, b, -, -, hb⟩ := (hboth c).mp hc
      exact hnone b hb
    -- a first part too long makes the whole too long
    | outOfBytes hlt =>
      refine .outOfBytes fun c hc => ?_
      obtain ⟨a', b, rfl, ha', hb⟩ := (hboth c).mp hc
      obtain rfl := hunique a a' ha ha'
      have := hsizes a b
      have := hlt b hb
      omega
  | undefined he hnone =>
    refine .undefined he fun c hc => ?_
    obtain ⟨a, -, -, ha, -⟩ := (hboth c).mp hc
    exact hnone a ha
  | outOfBytes hlt =>
    refine .outOfBytes fun c hc => ?_
    obtain ⟨a, b, rfl, ha, -⟩ := (hboth c).mp hc
    have := hsizes a b
    have := hlt a ha
    omega

end Ends

end Mapping

section Walk

variable {available : BTreeSet String} {limits : Limits} {input : Value}
  {outputs : BTreeMap String Value}

mutual
/-- A checked binding is evaluated to what it means, unless there is no such value or it has
too many bytes. The steps of the evaluation stay below those of the check. -/
theorem Binding.walk_ends (b : Binding) (budget : Budget) {depth steps n : Nat}
    (h : b.visit available limits depth steps = .ok n) (hsteps : budget.steps ≤ steps)
    (hbytes : budget.bytes ≤ limits.valueBytes) :
    Ends limits (b.Means input outputs) Value.bytes budget.bytes n
      (b.walk input outputs limits depth budget) := by
  obtain ⟨hdepth, hstep, hn, hparts⟩ := Binding.visit_eq_ok h
  have hbudget : ¬(limits.bindingDepth < depth ∨ limits.bindingSteps < budget.steps + 1) := by
    omega
  have hnext : budget.steps + 1 ≤ steps + 1 := by omega
  rw [Binding.walk.eq_def, if_neg hbudget]
  match b with
  | .literal v =>
    obtain ⟨_, _, rfl⟩ := map_eq_ok.mp hparts
    refine copy_ends (b := ⟨budget.steps + 1, budget.bytes⟩) (Binding.Means.literal v)
      (fun w hw => ?_) hnext
    exact Binding.means_unique _ hw (.literal v)
  | .select s => exact Selection.walk_ends s ⟨budget.steps + 1, budget.bytes⟩ hparts hnext hbytes hn
  | .object fields =>
    dsimp only
    refine spend_ends (b := ⟨budget.steps + 1, budget.bytes⟩) (fun v hv => ?_) fun hle => ?_
    -- braces and commas are spent before the fields
    · obtain ⟨members, rfl, hmembers⟩ := Binding.means_object.mp hv
      rw [Value.bytes, hmembers.length_eq]
      exact Nat.le_add_right _ _
    · have hfields := Binding.walkFields_ends fields
        ⟨budget.steps + 1, budget.bytes + (2 + (fields.length - 1))⟩ hparts hnext hle
      refine hfields.build (fun v => Binding.means_object) fun members hmembers => ?_
      rw [Value.bytes, hmembers.length_eq]
  | .array items =>
    dsimp only
    refine spend_ends (b := ⟨budget.steps + 1, budget.bytes⟩) (fun v hv => ?_) fun hle => ?_
    -- so are brackets and commas before the items
    · obtain ⟨values, rfl, hvalues⟩ := Binding.means_array.mp hv
      rw [Value.bytes, hvalues.length_eq]
      exact Nat.le_add_right _ _
    · have hitems := Binding.walkItems_ends items
        ⟨budget.steps + 1, budget.bytes + (2 + (items.length - 1))⟩ hparts hnext hle
      refine hitems.build (fun v => Binding.means_array) fun values hvalues => ?_
      rw [Value.bytes, hvalues.length_eq]
termination_by structural b

/-- A selection ends with its value or its fallback, in the bytes of what it means. -/
theorem Selection.walk_ends (s : Selection) (budget : Budget) {depth steps n : Nat}
    (h : s.visit available limits depth steps = .ok n) (hsteps : budget.steps ≤ steps)
    (hbytes : budget.bytes ≤ limits.valueBytes) (hn : n ≤ limits.bindingSteps) :
    Ends limits ((Binding.select s).Means input outputs) Value.bytes budget.bytes n
      (s.walk input outputs limits depth budget) := by
  obtain ⟨ts, hts, -, hfallback⟩ := Selection.visit_eq_ok h
  have hle := Binding.le_visitFallback s.fallback hfallback
  match s with
  | ⟨source, node, pointer, fallback⟩ =>
    have hnames := names_of_tokens hts
    have hroom : budget.steps + ts.length ≤ limits.bindingSteps := by omega
    rw [Selection.walk, hts, ok_bind]
    rcases @follow_spec _ _ _ (root input outputs source node) hroom with
      ⟨place, hplace, hresolves⟩ | ⟨e, he, hunfit, hnone⟩
    · rw [hplace, ok_bind]
      have hleads : Selection.LeadsTo input outputs ⟨source, node, pointer, fallback⟩ place :=
        ⟨ts, hnames, hresolves⟩
      cases place with
      -- the pointer leads to a value, which is copied
      | some v =>
        refine copy_ends (b := ⟨budget.steps + ts.length, budget.bytes⟩)
          (Binding.Means.selected hleads) (fun w hw => Binding.means_selected hleads hw) ?_
        change budget.steps + ts.length ≤ n
        omega
      -- it leads nowhere, and the fallback is taken
      | none =>
        refine Binding.walkFallback_ends fallback ⟨budget.steps + ts.length, budget.bytes⟩
          hleads hfallback ?_ hbytes
        exact Nat.add_le_add_right hsteps _
    -- it leads through a value that has no members
    · rw [he, error_bind]
      have hnowhere : ∀ place, ¬Selection.LeadsTo input outputs
          ⟨source, node, pointer, fallback⟩ place := by
        rintro place ⟨names, hnames', hresolves⟩
        obtain rfl := Option.some.inj (hnames.symm.trans hnames')
        exact hnone place hresolves
      refine .undefined (.inr hunfit) fun v hv => ?_
      cases hv with
      | selected h => exact hnowhere _ h
      | fallback h => exact hnowhere _ h
termination_by structural s

/-- The fallback of a selection that leads to no document. -/
theorem Binding.walkFallback_ends (fallback : Option Binding) (budget : Budget)
    {source : DataSource} {node : Option String} {pointer : String} {depth steps n : Nat}
    (habsent : Selection.LeadsTo input outputs ⟨source, node, pointer, fallback⟩ none)
    (h : Binding.visitFallback available limits depth steps fallback = .ok n)
    (hsteps : budget.steps ≤ steps) (hbytes : budget.bytes ≤ limits.valueBytes) :
    Ends limits ((Binding.select ⟨source, node, pointer, fallback⟩).Means input outputs)
      Value.bytes budget.bytes n
      (Binding.walkFallback input outputs limits depth budget fallback) := by
  have hmeans := fun v => Binding.means_fallback (v := v) habsent
  match fallback with
  | none =>
    refine .undefined (.inl rfl) fun v hv => ?_
    obtain ⟨b, hb, -⟩ := (hmeans v).mp hv
    nomatch hb
  | some b =>
    -- a selection that leads nowhere means what its fallback means
    have hequiv : (Binding.select ⟨source, node, pointer, some b⟩).Means input outputs =
        b.Means input outputs := by
      funext v
      refine propext ((hmeans v).trans ⟨?_, fun hv => ⟨b, rfl, hv⟩⟩)
      rintro ⟨b', hb', hv⟩
      obtain rfl := Option.some.inj hb'
      exact hv
    rw [hequiv]
    exact Binding.walk_ends b budget h hsteps hbytes
termination_by structural fallback

/-- The members of an object end one after the other, each in the bytes the ones before have left.
-/
theorem Binding.walkFields_ends (fields : List (String × Binding)) (budget : Budget)
    {depth steps n : Nat} (h : Binding.visitFields available limits depth steps fields = .ok n)
    (hsteps : budget.steps ≤ steps) (hbytes : budget.bytes ≤ limits.valueBytes) :
    Ends limits (Binding.MeansFields input outputs fields) Value.memberBytes budget.bytes n
      (Binding.walkFields input outputs limits depth budget fields) := by
  match fields with
  | [] =>
    cases h
    exact .value .nil hsteps rfl hbytes
  | (key, b) :: fields =>
    obtain ⟨m, hm, h⟩ := bind_eq_ok.mp h
    refine spend_ends (fun members hmembers => ?_) fun hle => ?_
    -- the name and its colon are spent before the value
    · obtain ⟨v, rest, rfl, -, -⟩ := Binding.meansFields_cons.mp hmembers
      rw [Value.memberBytes]
      change Value.stringBytes key + 1 ≤ _
      omega
    · have hfirst := Binding.walk_ends b ⟨budget.steps, budget.bytes + (jsonBytes key + 1)⟩ hm
        hsteps hle
      refine Ends.seq (k := jsonBytes key + 1) (g := fun v rest => (key, v) :: rest) hfirst
        (fun budget hb hle => Binding.walkFields_ends fields budget h hb hle)
        (fun v w hv hw => Binding.means_unique b hv hw)
        (fun members => Binding.meansFields_cons) fun v rest => rfl
termination_by structural fields

/-- So do the items of an array. -/
theorem Binding.walkItems_ends (items : List Binding) (budget : Budget) {depth steps n : Nat}
    (h : Binding.visitItems available limits depth steps items = .ok n)
    (hsteps : budget.steps ≤ steps) (hbytes : budget.bytes ≤ limits.valueBytes) :
    Ends limits (Binding.MeansItems input outputs items) Value.itemBytes budget.bytes n
      (Binding.walkItems input outputs limits depth budget items) := by
  match items with
  | [] =>
    cases h
    exact .value .nil hsteps rfl hbytes
  | b :: items =>
    obtain ⟨m, hm, h⟩ := bind_eq_ok.mp h
    have hfirst := Binding.walk_ends b budget hm hsteps hbytes
    refine Ends.seq (k := 0) (g := List.cons) hfirst
      (fun budget hb hle => Binding.walkItems_ends items budget h hb hle)
      (fun v w hv hw => Binding.means_unique b hv hw)
      (fun values => Binding.meansItems_cons) fun v rest => ?_
    rw [Value.itemBytes, Nat.zero_add]
termination_by structural items
end

/-! ## The result -/

/-- Evaluation against the meaning of a binding: it answers exactly a value that the binding
means and that is within the limits, and it runs out of bytes exactly when that value has too
many. The bytes charged on the way are those of the value's text. -/
theorem Binding.evaluate_reference {b : Binding} (h : b.check available limits = .ok ())
    (input : Value) (outputs : BTreeMap String Value) :
    (∀ v, b.evaluate input outputs limits = .ok v ↔
      b.Means input outputs v ∧ v.compact.utf8ByteSize ≤ limits.valueBytes ∧
        v.depth ≤ limits.jsonDepth) ∧
    ∀ v, b.Means input outputs v →
      (v.compact.utf8ByteSize ≤ limits.valueBytes → ∃ steps,
        b.walk input outputs limits 1 {} = .ok (v, ⟨steps, v.compact.utf8ByteSize⟩)) ∧
      (b.evaluate input outputs limits = .error outOfBytes ↔
        limits.valueBytes < v.compact.utf8ByteSize) := by
  obtain ⟨n, hvisit, -⟩ := map_eq_ok.mp h
  have hends : Ends limits (b.Means input outputs) Value.bytes ({} : Budget).bytes n
      (b.walk input outputs limits 1 {}) :=
    Binding.walk_ends b {} hvisit (Nat.zero_le 0) (Nat.zero_le _)
  unfold Binding.evaluate
  generalize b.walk input outputs limits 1 {} = r at hends ⊢
  -- the walk ends in one of three ways: a value, no value, too many bytes
  cases hends with
  | @value w budget hw _ hbytes hle =>
    have hsize : w.compact.utf8ByteSize = budget.bytes := by
      rw [Value.utf8ByteSize_compact, hbytes]
      exact (Nat.zero_add _).symm
    refine ⟨fun v => ?_, fun v hv => ?_⟩
    · constructor
      · intro hr
        obtain ⟨_, heq, hr⟩ := bind_eq_ok.mp hr
        cases heq
        obtain ⟨m, hm, hr⟩ := bind_eq_ok.mp hr
        cases hr
        -- the last check adds only the limits on bytes and depth
        rcases checkValue_cases w limits.valueBytes limits.jsonDepth with
          ⟨⟨hwbytes, hdepth⟩, -⟩ | ⟨-, he⟩ | ⟨-, e, he⟩
        · exact ⟨hw, by rwa [Value.utf8ByteSize_compact], hdepth⟩
        · nomatch hm.symm.trans he
        · nomatch hm.symm.trans he
      · rintro ⟨hv, hvbytes, hdepth⟩
        obtain rfl := Binding.means_unique b hw hv
        rw [Value.utf8ByteSize_compact] at hvbytes
        rcases checkValue_cases w limits.valueBytes limits.jsonDepth with
          ⟨-, m, hm⟩ | ⟨hlt, -⟩ | ⟨hlt, -⟩
        · simp only [ok_bind, hm]
          rfl
        · omega
        · omega
    · obtain rfl := Binding.means_unique b hw hv
      refine ⟨fun _ => ⟨budget.steps, by rw [hsize]⟩, fun hr => ?_, fun hlt => ?_⟩
      · -- what the last check refuses is the depth
        rcases checkValue_cases w limits.valueBytes limits.jsonDepth with
          ⟨-, m, hm⟩ | ⟨-, hm⟩ | ⟨hlt, -⟩
        · simp only [ok_bind, hm] at hr
          nomatch hr
        · simp only [ok_bind, hm, error_bind] at hr
          exact absurd (Except.error.inj hr) (by decide)
        · rwa [Value.utf8ByteSize_compact]
      · omega
  -- nothing is meant, so nothing is answered
  | undefined he hnone =>
    refine ⟨fun v => ⟨fun hr => (nomatch hr), fun hv => absurd hv.1 (hnone v)⟩, fun v hv => ?_⟩
    exact absurd hv (hnone v)
  | outOfBytes hlt =>
    -- the walk stopped before its end, so the whole value is too long
    have hover : ∀ v, b.Means input outputs v → limits.valueBytes < v.compact.utf8ByteSize := by
      intro v hv
      have := hlt v hv
      rw [Value.utf8ByteSize_compact]
      exact Nat.lt_of_lt_of_eq this (Nat.zero_add _)
    refine ⟨fun v => ⟨fun hr => (nomatch hr), fun hv => ?_⟩, fun v hv => ⟨fun hle => ?_, ?_⟩⟩
    · have := hover v hv.1
      omega
    · have := hover v hv
      omega
    · exact ⟨fun _ => hover v hv, fun _ => rfl⟩

/-- A member with an escaped name, a missing one with a fallback, and a present null. -/
def sampleBinding : Binding := .object
  [("a\"", .select ⟨.input, none, "/rows/1/~0x", none⟩),
   ("b", .select ⟨.input, none, "/rows/-", some (.literal (.string "none"))⟩),
   ("c", .select ⟨.input, none, "/gone", some (.literal (.bool true))⟩)]

def sampleInput : Value := .object
  [("rows", .array [.null, .object [("~x", .number (.posInt 7))]]), ("gone", .null)]

/-- An escaped name, a fallback and a null that is present, in one byte too few. -/
theorem Binding.evaluate_reference_sample :
    sampleBinding.Means sampleInput ∅
        (.object [("a\"", .number (.posInt 7)), ("b", .string "none"), ("c", .null)]) ∧
      Binding.evaluate sampleBinding sampleInput ∅ { valueBytes := 28 } = .error outOfBytes := by
  have hcheck : ∀ valueBytes ∈ [28, 29],
      sampleBinding.check ∅ { valueBytes := valueBytes } = .ok () := by
    decide +kernel
  have hmeans := ((Binding.evaluate_reference (hcheck 29 (by simp)) sampleInput ∅).1 _).mp
    (show Binding.evaluate sampleBinding sampleInput ∅ { valueBytes := 29 } = .ok
      (.object [("a\"", .number (.posInt 7)), ("b", .string "none"), ("c", .null)]) by
      decide +kernel)
  refine ⟨hmeans.1, ?_⟩
  refine ((Binding.evaluate_reference (hcheck 28 (by simp)) sampleInput ∅).2 _ hmeans.1).2.mpr ?_
  decide +kernel

/-- The errors that remain after the check: nothing is selected, the data do not fit the
pointer, or the result has too many bytes or is nested too deeply. -/
theorem Binding.evaluate_error {b : Binding} (h : b.check available limits = .ok ())
    {e : ForgeError} (he : b.evaluate input outputs limits = .error e) :
    e = missing ∨ e = invalidIndex ∨ e = traversesScalar ∨ e = outOfBytes ∨ e = tooDeep := by
  obtain ⟨n, hvisit, -⟩ := map_eq_ok.mp h
  have hends : Ends limits (b.Means input outputs) Value.bytes ({} : Budget).bytes n
      (b.walk input outputs limits 1 {}) :=
    Binding.walk_ends b {} hvisit (Nat.zero_le 0) (Nat.zero_le _)
  unfold Binding.evaluate at he
  generalize b.walk input outputs limits 1 {} = r at hends he
  cases hends with
  | @value w budget hw _ hbytes hle =>
    rcases checkValue_cases w limits.valueBytes limits.jsonDepth with
      ⟨-, m, hm⟩ | ⟨-, hm⟩ | ⟨hlt, -⟩
    · simp only [ok_bind, hm] at he
      nomatch he
    · simp only [ok_bind, hm, error_bind] at he
      exact .inr (.inr (.inr (.inr (Except.error.inj he).symm)))
    · have hsize : budget.bytes = w.bytes := hbytes.trans (Nat.zero_add _)
      omega
  -- a pointer that leads nowhere
  | undefined hundefined =>
    obtain rfl := Except.error.inj he
    rcases hundefined with rfl | rfl | rfl
    · exact .inl rfl
    · exact .inr (.inl rfl)
    · exact .inr (.inr (.inl rfl))
  -- too many bytes
  | outOfBytes => exact .inr (.inr (.inr (.inl (Except.error.inj he).symm)))

end Walk

/-! ## Producers -/

/-- A selection somewhere in a binding. -/
inductive Binding.Selects : Binding → Selection → Prop where
  | here (s : Selection) : Selects (.select s) s
  | fallback {s : Selection} {b : Binding} {t : Selection} : s.fallback = some b →
      Selects b t → Selects (.select s) t
  | field {fields : List (String × Binding)} {key : String} {b : Binding} {t : Selection} :
      (key, b) ∈ fields → Selects b t → Selects (.object fields) t
  | item {items : List Binding} {b : Binding} {t : Selection} : b ∈ items → Selects b t →
      Selects (.array items) t

section Producers

variable {available : BTreeSet String} {limits : Limits} {depth steps n : Nat}

/-- Every field of a checked object was checked. -/
theorem Binding.visitFields_eq_ok {fields : List (String × Binding)} {key : String} {b : Binding}
    (h : Binding.visitFields available limits depth steps fields = .ok n)
    (hmem : (key, b) ∈ fields) : ∃ s m, b.visit available limits depth s = .ok m := by
  induction fields generalizing steps with
  | nil => nomatch hmem
  | cons field fields ih =>
    obtain ⟨m, hm, h⟩ := bind_eq_ok.mp h
    rcases List.mem_cons.mp hmem with rfl | hmem
    · exact ⟨steps, m, hm⟩
    · exact ih h hmem

/-- Every item of a checked array was checked. -/
theorem Binding.visitItems_eq_ok {items : List Binding} {b : Binding}
    (h : Binding.visitItems available limits depth steps items = .ok n) (hmem : b ∈ items) :
    ∃ s m, b.visit available limits depth s = .ok m := by
  induction items generalizing steps with
  | nil => nomatch hmem
  | cons item items ih =>
    obtain ⟨m, hm, h⟩ := bind_eq_ok.mp h
    rcases List.mem_cons.mp hmem with rfl | hmem
    · exact ⟨steps, m, hm⟩
    · exact ih h hmem

/-- Every selection of a checked binding names an available producer. -/
theorem Binding.Selects.reads {b : Binding} {s : Selection} (hs : b.Selects s)
    (h : b.visit available limits depth steps = .ok n) :
    reads available s.source s.node = true := by
  induction hs generalizing depth steps n with
  | here s =>
    obtain ⟨-, -, -, h⟩ := Binding.visit_eq_ok h
    obtain ⟨ts, -, hreads, -⟩ := Selection.visit_eq_ok h
    exact hreads
  -- a selection nested in the fallback of another
  | fallback hb _ ih =>
    obtain ⟨-, -, -, h⟩ := Binding.visit_eq_ok h
    obtain ⟨ts, -, -, h⟩ := Selection.visit_eq_ok h
    rw [hb] at h
    exact ih h
  | field hmem _ ih =>
    obtain ⟨-, -, -, h⟩ := Binding.visit_eq_ok h
    obtain ⟨s, m, h⟩ := Binding.visitFields_eq_ok h hmem
    exact ih h
  | item hmem _ ih =>
    obtain ⟨-, -, -, h⟩ := Binding.visit_eq_ok h
    obtain ⟨s, m, h⟩ := Binding.visitItems_eq_ok h hmem
    exact ih h

/-- Where the available producers have outputs, no selection misses its producer. -/
theorem Binding.Selects.root_ne_none {b : Binding} {s : Selection} (hs : b.Selects s)
    (h : b.check available limits = .ok ()) {input : Value} {outputs : BTreeMap String Value}
    (houtputs : ∀ id ∈ available, id ∈ outputs) :
    root input outputs s.source s.node ≠ none := by
  obtain ⟨n, hvisit, -⟩ := map_eq_ok.mp h
  have hreads := hs.reads hvisit
  obtain ⟨source, node, pointer, fallback⟩ := s
  cases source with
  | input => exact fun hnone => nomatch hnone
  | node =>
    cases node with
    | none => nomatch hreads
    | some id =>
      have hmem : id ∈ outputs := houtputs id (Std.ExtTreeSet.contains_iff_mem.mp hreads)
      change outputs[id]? ≠ none
      rw [Std.ExtTreeMap.getElem?_eq_some_getElem hmem]
      exact Option.some_ne_none _

end Producers

end WorkflowForge
