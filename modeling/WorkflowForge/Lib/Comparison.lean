import WorkflowForge.Lib.Json

/-!
# Comparing Documents

The source compares documents member by member, and the floats in them by their values: the
two float zeros are equal, although their texts are not. A comparison of anything that holds
documents is therefore an equality once the sign of every float zero is dropped.

A law that mentions two such values is stated for a `Comparison`: by their texts, or as the
source compares them.

## Main results

- `same_number`, `same_array`, `same_object`: how documents are compared.
- `Same.get`: maps that are the same have the same entries.
-/

namespace WorkflowForge.Lib

/-! ## Float zeros -/

/-- The number without the sign of a float zero. -/
def Number.signless : Number → Number
  | .float repr => .float (if repr = "-0.0" then "0.0" else repr)
  | .posInt n => .posInt n
  | .negInt n => .negInt n

mutual
/-- The document without the signs of its float zeros. -/
def Value.signless : Value → Value
  | .null => .null
  | .bool b => .bool b
  | .number n => .number n.signless
  | .string s => .string s
  | .array xs => .array (Value.signlessItems xs)
  | .object ms => .object (Value.signlessMembers ms)

def Value.signlessItems : List Value → List Value
  | [] => []
  | x :: xs => x.signless :: Value.signlessItems xs

def Value.signlessMembers : List (String × Value) → List (String × Value)
  | [] => []
  | (k, x) :: ms => (k, x.signless) :: Value.signlessMembers ms
end

/-! ## Negative zeros -/

def Number.negativeZeros : Number → Nat
  | .float repr => if repr = "-0.0" then 1 else 0
  | _ => 0

mutual
/-- How many negative float zeros a document holds. -/
def Value.negativeZeros : Value → Nat
  | .number n => n.negativeZeros
  | .array xs => Value.negativeZerosItems xs
  | .object ms => Value.negativeZerosMembers ms
  | _ => 0

def Value.negativeZerosItems : List Value → Nat
  | [] => 0
  | x :: xs => x.negativeZeros + Value.negativeZerosItems xs

def Value.negativeZerosMembers : List (String × Value) → Nat
  | [] => 0
  | (_, x) :: ms => x.negativeZeros + Value.negativeZerosMembers ms
end

/-- A negative zero is one byte longer than the zero it equals. -/
theorem Number.numberBytes_eq (n : Number) :
    Value.numberBytes n = Value.numberBytes n.signless + n.negativeZeros := by
  cases n with
  | float repr =>
    by_cases h : repr = "-0.0"
    · subst h
      rfl
    · simp only [signless, negativeZeros, h, if_false, Nat.add_zero]
  | posInt n => rfl
  | negInt n => rfl

mutual
/-- The sign of a zero takes one byte. -/
theorem Value.bytes_eq (v : Value) : v.bytes = v.signless.bytes + v.negativeZeros := by
  match v with
  | .null | .bool true | .bool false | .string _ => rfl
  | .number n => exact n.numberBytes_eq
  | .array xs =>
    have hitems := Value.itemBytes_eq xs
    simp only [signless, bytes, negativeZeros, hitems]
    omega
  | .object ms =>
    have hmembers := Value.memberBytes_eq ms
    simp only [signless, bytes, negativeZeros, hmembers]
    omega
termination_by structural v

/-- The items of an array differ from their signless forms in these bytes only. -/
theorem Value.itemBytes_eq (xs : List Value) :
    (Value.signlessItems xs).length = xs.length ∧
      Value.itemBytes xs =
        Value.itemBytes (Value.signlessItems xs) + Value.negativeZerosItems xs := by
  match xs with
  | [] => exact ⟨rfl, rfl⟩
  | x :: xs =>
    have hx := Value.bytes_eq x
    obtain ⟨hlength, hxs⟩ := Value.itemBytes_eq xs
    simp only [signlessItems, itemBytes, negativeZerosItems, List.length_cons, hlength, hx, hxs]
    exact ⟨trivial, by omega⟩
termination_by structural xs

/-- So do the members of an object, whose names have no sign. -/
theorem Value.memberBytes_eq (ms : List (String × Value)) :
    (Value.signlessMembers ms).length = ms.length ∧
      Value.memberBytes ms =
        Value.memberBytes (Value.signlessMembers ms) + Value.negativeZerosMembers ms := by
  match ms with
  | [] => exact ⟨rfl, rfl⟩
  | (k, x) :: ms =>
    have hx := Value.bytes_eq x
    obtain ⟨hlength, hms⟩ := Value.memberBytes_eq ms
    simp only [signlessMembers, memberBytes, negativeZerosMembers, List.length_cons, hlength,
      hx, hms]
    exact ⟨trivial, by omega⟩
termination_by structural ms
end

/-! ## What holds documents -/

/-- Types that hold documents. -/
class Signless (α : Type) where
  /-- The value without the signs of the float zeros in its documents. -/
  signless : α → α

export Signless (signless)

instance : Signless Value := ⟨Value.signless⟩

instance {α : Type} [Signless α] : Signless (Option α) := ⟨Option.map signless⟩

instance {α : Type} [Signless α] : Signless (List α) := ⟨List.map signless⟩

instance {κ α : Type} [Ord κ] [Signless α] : Signless (BTreeMap κ α) :=
  ⟨BTreeMap.mapValues signless⟩

/-! ## Comparisons -/

/-- How documents are compared. -/
inductive Comparison where
  | text
  | source
deriving DecidableEq

section

variable {α β κ : Type} [Signless α] [Signless β] [Ord κ] [Std.TransOrd κ] [Std.LawfulEqOrd κ]
  {c : Comparison}

/-- What a comparison sees of a value. -/
def Comparison.image : Comparison → α → α
  | .text, a => a
  | .source, a => signless a

/-- The values are equal in a comparison. -/
def Same (c : Comparison) (a b : α) : Prop :=
  c.image a = c.image b

instance [DecidableEq α] (a b : α) : Decidable (Same c a b) :=
  inferInstanceAs (Decidable (c.image a = c.image b))

@[simp] theorem Same.refl (a : α) : Same c a a := rfl

theorem Same.symm {a b : α} (h : Same c a b) : Same c b a := Eq.symm h

theorem Same.trans {a b d : α} (h : Same c a b) (h' : Same c b d) : Same c a d := Eq.trans h h'

theorem Same.comm {a b : α} : Same c a b ↔ Same c b a := ⟨Same.symm, Same.symm⟩

/-- Equal values compare equal, under any comparison. -/
theorem Same.of_eq {a b : α} (h : a = b) : Same c a b := h ▸ .refl a

/-- Values of the same text are the same. -/
@[simp] theorem same_text {a b : α} : Same .text a b ↔ a = b := Iff.rfl

/-- A part of a value is compared as the value is. -/
theorem Same.map {f : α → β} (hf : ∀ a, c.image (f a) = f (c.image a)) {a b : α}
    (h : Same c a b) : Same c (f a) (f b) := by
  rw [Same, hf, hf, h]

/-- A part without documents is equal. -/
theorem Same.exact {γ : Type} {f : α → γ} (hf : ∀ a, f (c.image a) = f a) {a b : α}
    (h : Same c a b) : f a = f b := by
  rw [← hf a, ← hf b, h]

/-! ## Options, lists and maps -/

@[simp] theorem Comparison.image_none : c.image (none : Option α) = none := by
  cases c <;> rfl

@[simp] theorem Comparison.image_some (a : α) : c.image (some a) = some (c.image a) := by
  cases c <;> rfl

/-- Options are compared by what they hold. -/
theorem Comparison.image_option (o : Option α) : c.image o = o.map c.image := by
  cases o <;> simp

/-- Two values that are present are compared. -/
@[simp] theorem same_some {a b : α} : Same c (some a) (some b) ↔ Same c a b := by
  simp [Same]

/-- A missing value equals a missing one only. -/
@[simp] theorem same_none {o : Option α} : Same c o none ↔ o = none := by
  simp [Same, Comparison.image_option]

@[simp] theorem none_same {o : Option α} : Same c none o ↔ o = none := by
  rw [Same.comm, same_none]

/-- What is the same as a present value is present. -/
theorem same_some_iff {o : Option α} {b : α} :
    Same c o (some b) ↔ ∃ a, o = some a ∧ Same c a b := by
  cases o <;> simp [Same]

/-- Values that compare equal are present alike. -/
theorem Same.isSome {o o' : Option α} (h : Same c o o') : o.isSome = o'.isSome := by
  have := congrArg Option.isSome h
  simpa [Comparison.image_option] using this

/-- Maps are compared key by key. -/
theorem Comparison.image_map (m : BTreeMap κ α) (k : κ) :
    (c.image m)[k]? = c.image m[k]? := by
  cases c with
  | text => rfl
  | source => exact BTreeMap.get_mapValues signless m k

/-- Maps that are the same have the same entries. -/
theorem Same.get {m m' : BTreeMap κ α} (h : Same c m m') (k : κ) : Same c m[k]? m'[k]? := by
  rw [Same, ← Comparison.image_map, ← Comparison.image_map, h]

/-- Maps with the same entries are the same. -/
theorem Same.of_get {m m' : BTreeMap κ α} (h : ∀ k : κ, Same c m[k]? m'[k]?) : Same c m m' := by
  apply Std.ExtTreeMap.ext_getElem?
  intro k
  rw [Comparison.image_map, Comparison.image_map]
  exact h k

/-- Writing entries that are the same keeps maps the same. -/
theorem Same.insert [DecidableEq κ] {m m' : BTreeMap κ α} {a b : α} (h : Same c m m')
    (hab : Same c a b) (k : κ) : Same c (m.insert k a) (m'.insert k b) := by
  refine .of_get fun k' => ?_
  rw [BTreeMap.get_insert, BTreeMap.get_insert]
  split
  · exact same_some.mpr hab
  · exact h.get k'

end

/-! ## Prefixes -/

section Prefix

variable {α : Type} [Signless α] {c : Comparison} {xs ys zs : List α}

/-- The first list is, entry by entry, the beginning of the second. -/
def SamePrefix (c : Comparison) (xs ys : List α) : Prop :=
  xs.map c.image <+: ys.map c.image

theorem SamePrefix.refl (xs : List α) : SamePrefix c xs xs := List.prefix_refl _

/-- Prefixes up to the comparison compose. -/
theorem SamePrefix.trans (h : SamePrefix c xs ys) (h' : SamePrefix c ys zs) :
    SamePrefix c xs zs :=
  List.IsPrefix.trans h h'

/-- A prefix is one under any comparison. -/
theorem SamePrefix.of_isPrefix (h : xs <+: ys) : SamePrefix c xs ys := h.map _

end Prefix

/-! ## Documents -/

/-- Numbers are equal when their texts are, and the two float zeros are equal. -/
theorem same_number {m n : Number} : Same .source (Value.number m) (.number n) ↔
    m = n ∨ m = .float "0.0" ∧ n = .float "-0.0" ∨ m = .float "-0.0" ∧ n = .float "0.0" := by
  change Value.number m.signless = .number n.signless ↔ _
  rw [Value.number.injEq]
  cases m <;> cases n <;> simp only [Number.signless, reduceCtorEq, or_false,
    false_and, and_false, Number.float.injEq, Number.posInt.injEq, Number.negInt.injEq]
  split <;> split <;> simp_all [eq_comm]

/-- Arrays are compared item by item. -/
theorem same_array {xs ys : List Value} :
    Same .source (Value.array xs) (.array ys) ↔ Same .source xs ys := by
  have hitems : ∀ zs, Value.signlessItems zs = zs.map Value.signless := by
    intro zs
    induction zs with
    | nil => rfl
    | cons z zs ih => rw [Value.signlessItems, ih, List.map_cons]
  change Value.array (Value.signlessItems xs) = .array (Value.signlessItems ys) ↔ _
  rw [Value.array.injEq, hitems, hitems]
  rfl

/-- Objects are compared member by member. -/
theorem same_object {ms ns : List (String × Value)} :
    Same .source (Value.object ms) (.object ns) ↔
      ms.map (fun m => (m.1, signless m.2)) = ns.map fun n => (n.1, signless n.2) := by
  have hmembers : ∀ zs, Value.signlessMembers zs = zs.map fun z => (z.1, z.2.signless) := by
    intro zs
    induction zs with
    | nil => rfl
    | cons z zs ih => rw [Value.signlessMembers, ih, List.map_cons]
  change Value.object (Value.signlessMembers ms) = .object (Value.signlessMembers ns) ↔ _
  rw [Value.object.injEq, hmembers, hmembers]
  rfl

/-- The float zero and the negative one are equal for the source, not as texts. -/
example : Same .source (Value.number (.float "0.0")) (.number (.float "-0.0")) ∧
    ¬ Same .text (Value.number (.float "0.0")) (.number (.float "-0.0")) := by decide

end WorkflowForge.Lib
