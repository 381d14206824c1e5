import Mathlib.Data.List.Basic
import Mathlib.Data.UInt
import WorkflowForge.Lib.BTree

/-!
# JSON Documents and Derived Encodings

A JSON document as a tree, the length of its compact text, and the encodings that a
`derive` produces for records, options, lists, ordered maps and tagged variants.

An encoding may lose information: an optional field holding the document `null` is read
back as an absent field. The library therefore speaks of what is *read back*:
`ReadsAs a b` says that decoding the encoding of `a` gives `b`, and a type is
`LawfulSerde` when every value reads back as itself.

## Main results

- `readsAs_option`: an option reads back as itself unless it encodes to `null`.
- `readsAs_optionValue`: the one document an option loses is a present `null`.
- `readsAs_list`, `readsAs_map`: lists and maps read back entry by entry.
- `deserialize_option_ne_null`: what was decoded has nothing left to lose.
-/

namespace WorkflowForge.Lib

/-! ## Documents -/

/-- A JSON number: an unsigned or a negative integer, or a float by its canonical text. -/
inductive Number where
  | posInt (n : Nat)
  | negInt (n : Int64)
  | float (repr : String)
deriving DecidableEq

/-- A JSON document. Objects list their members in key order. -/
inductive Value where
  | null
  | bool (b : Bool)
  | number (n : Number)
  | string (s : String)
  | array (items : List Value)
  | object (members : List (String × Value))

instance : Inhabited Value := ⟨.null⟩

namespace Value

mutual
/-- Equality of documents is decidable, member by member. -/
def decEq : (a b : Value) → Decidable (a = b)
  | .null, .null => isTrue rfl
  | .bool a, .bool b => decidable_of_iff (a = b) (by simp)
  | .number a, .number b => decidable_of_iff (a = b) (by simp)
  | .string a, .string b => decidable_of_iff (a = b) (by simp)
  | .array a, .array b =>
    have := decEqItems a b
    decidable_of_iff (a = b) (by simp)
  | .object a, .object b =>
    have := decEqMembers a b
    decidable_of_iff (a = b) (by simp)
  | .null, .bool _ | .null, .number _ | .null, .string _ | .null, .array _ | .null, .object _
  | .bool _, .null | .bool _, .number _ | .bool _, .string _ | .bool _, .array _
  | .bool _, .object _ | .number _, .null | .number _, .bool _ | .number _, .string _
  | .number _, .array _ | .number _, .object _ | .string _, .null | .string _, .bool _
  | .string _, .number _ | .string _, .array _ | .string _, .object _ | .array _, .null
  | .array _, .bool _ | .array _, .number _ | .array _, .string _ | .array _, .object _
  | .object _, .null | .object _, .bool _ | .object _, .number _ | .object _, .string _
  | .object _, .array _ => isFalse (by simp)

def decEqItems : (a b : List Value) → Decidable (a = b)
  | [], [] => isTrue rfl
  | x :: xs, y :: ys =>
    have := decEq x y
    have := decEqItems xs ys
    decidable_of_iff (x = y ∧ xs = ys) (by simp)
  | [], _ :: _ | _ :: _, [] => isFalse (by simp)

def decEqMembers : (a b : List (String × Value)) → Decidable (a = b)
  | [], [] => isTrue rfl
  | (k, x) :: xs, (l, y) :: ys =>
    have := decEq x y
    have := decEqMembers xs ys
    decidable_of_iff ((k = l ∧ x = y) ∧ xs = ys) (by simp)
  | [], _ :: _ | _ :: _, [] => isFalse (by simp)
end

instance : DecidableEq Value := decEq

/-- The string a document is, if it is one. -/
def asStr : Value → Option String
  | .string s => some s
  | _ => none

/-- The boolean a document is, if it is one. -/
def asBool : Value → Option Bool
  | .bool b => some b
  | _ => none

/-- The items of an array document. -/
def asArray : Value → Option (List Value)
  | .array xs => some xs
  | _ => none

/-! ## Length of the compact text -/

/-- Bytes one character takes inside a JSON string. -/
def escapedBytes (c : Char) : Nat :=
  if c = '"' ∨ c = '\\' then 2
  else if c.toNat = 8 ∨ c.toNat = 9 ∨ c.toNat = 10 ∨ c.toNat = 12 ∨ c.toNat = 13 then 2
  else if c.toNat < 32 then 6
  else c.utf8Size

/-- Bytes of a quoted string. -/
def stringBytes (s : String) : Nat :=
  2 + (s.toList.map escapedBytes).sum

/-- Bytes of a number. -/
def numberBytes : Number → Nat
  | .posInt n => (toString n).length
  | .negInt n => (toString n).length
  | .float repr => repr.utf8ByteSize

mutual
/-- Bytes of the compact text of a document. -/
def bytes : Value → Nat
  | .null => 4
  | .bool true => 4
  | .bool false => 5
  | .number n => numberBytes n
  | .string s => stringBytes s
  | .array xs => 2 + (xs.length - 1) + itemBytes xs
  | .object ms => 2 + (ms.length - 1) + memberBytes ms

def itemBytes : List Value → Nat
  | [] => 0
  | x :: xs => bytes x + itemBytes xs

def memberBytes : List (String × Value) → Nat
  | [] => 0
  | (k, x) :: ms => stringBytes k + 1 + bytes x + memberBytes ms
end

/-! ## Size, the measure that bounds decoding -/

mutual
/-- Number of positions of a document. -/
def size : Value → Nat
  | .array xs => 1 + itemsSize xs
  | .object ms => 1 + membersSize ms
  | _ => 1

def itemsSize : List Value → Nat
  | [] => 0
  | x :: xs => size x + itemsSize xs

def membersSize : List (String × Value) → Nat
  | [] => 0
  | (_, x) :: ms => size x + membersSize ms
end

/-- An item is smaller than its array. -/
theorem size_le_itemsSize {x : Value} {xs : List Value} (h : x ∈ xs) :
    size x ≤ itemsSize xs := by
  induction xs with
  | nil => simp at h
  | cons y ys ih =>
    simp only [itemsSize]
    rcases List.mem_cons.mp h with rfl | h
    · omega
    · have := ih h
      omega

/-- A member is smaller than its object. -/
theorem size_le_membersSize {k : String} {x : Value} {ms : List (String × Value)}
    (h : (k, x) ∈ ms) : size x ≤ membersSize ms := by
  induction ms with
  | nil => simp at h
  | cons m ms ih =>
    obtain ⟨l, y⟩ := m
    simp only [membersSize]
    rcases List.mem_cons.mp h with h | h
    · obtain ⟨rfl, rfl⟩ := Prod.mk.inj h
      omega
    · have := ih h
      omega

/-- An item is smaller than its array. -/
theorem size_lt_array {x : Value} {xs : List Value} (h : x ∈ xs) :
    size x < size (.array xs) := by
  have := size_le_itemsSize h
  simp only [size]
  omega

/-- A member is smaller than its object. -/
theorem size_lt_object {k : String} {x : Value} {ms : List (String × Value)}
    (h : (k, x) ∈ ms) : size x < size (.object ms) := by
  have := size_le_membersSize h
  simp only [size]
  omega

end Value

/-! ## Encodings -/

/-- Types with a derived encoding. -/
class Serialize (α : Type) where
  serialize : α → Value

/-- Types with a derived decoder. -/
class Deserialize (α : Type) where
  deserialize : Value → Option α

export Serialize (serialize)
export Deserialize (deserialize)

/-- Bytes of the encoding of a value. -/
def jsonBytes {α : Type} [Serialize α] (a : α) : Nat :=
  (serialize a).bytes

section ReadsAs

variable {α β : Type} [Serialize α] [Deserialize α] [Serialize β] [Deserialize β]

/-- Decoding the encoding of `a` gives `b`. -/
def ReadsAs (a b : α) : Prop :=
  deserialize (serialize a) = some b

/-- Every value reads back as itself. -/
class LawfulSerde (α : Type) [Serialize α] [Deserialize α] : Prop where
  readsAs : ∀ a : α, ReadsAs a a

/-- What is written is read back. -/
@[simp] theorem deserialize_serialize [LawfulSerde α] (a : α) :
    deserialize (serialize a) = some a :=
  LawfulSerde.readsAs a

/-- A lawful encoding distinguishes values. -/
theorem serialize_injective [LawfulSerde α] : Function.Injective (serialize : α → Value) := by
  intro a b h
  have : some a = some b := by
    rw [← deserialize_serialize a, h, deserialize_serialize]
  simpa using this

end ReadsAs

/-! ## Scalars -/

instance : Serialize Value := ⟨id⟩
instance : Deserialize Value := ⟨some⟩
instance : LawfulSerde Value := ⟨fun _ => rfl⟩

@[simp] theorem serialize_value (v : Value) : serialize v = v := rfl
@[simp] theorem deserialize_value (v : Value) : deserialize v = some v := rfl

instance : Serialize Bool := ⟨.bool⟩
instance : Deserialize Bool := ⟨Value.asBool⟩
instance : LawfulSerde Bool := ⟨fun _ => rfl⟩

instance : Serialize String := ⟨.string⟩
instance : Deserialize String := ⟨Value.asStr⟩
instance : LawfulSerde String := ⟨fun _ => rfl⟩

instance : Serialize Nat := ⟨fun n => .number (.posInt n)⟩
instance : Deserialize Nat where
  deserialize
    | .number (.posInt n) => some n
    | _ => none
instance : LawfulSerde Nat := ⟨fun _ => rfl⟩

instance : Serialize UInt64 := ⟨fun n => serialize n.toNat⟩
instance : Deserialize UInt64 where
  deserialize v := (deserialize v : Option Nat).bind fun n =>
    if n < UInt64.size then some (UInt64.ofNat n) else none
instance : LawfulSerde UInt64 where
  readsAs n := by
    have : n.toNat < UInt64.size := n.toNat_lt
    simp only [ReadsAs, serialize, deserialize, Option.bind_some, this, if_true]
    simp

instance : Serialize UInt32 := ⟨fun n => serialize n.toNat⟩
instance : Deserialize UInt32 where
  deserialize v := (deserialize v : Option Nat).bind fun n =>
    if n < UInt32.size then some (UInt32.ofNat n) else none
instance : LawfulSerde UInt32 where
  readsAs n := by
    have : n.toNat < UInt32.size := n.toNat_lt
    simp only [ReadsAs, serialize, deserialize, Option.bind_some, this, if_true]
    simp

/-! ## Options, lists and maps -/

section Containers

variable {α : Type} [Serialize α] [Deserialize α]

instance : Serialize (Option α) where
  serialize
    | none => .null
    | some a => serialize a

/-- A `null` is read as an absent value, whatever the optional type is. -/
instance : Deserialize (Option α) where
  deserialize
    | .null => some none
    | v => (deserialize v : Option α).map some

omit [Deserialize α] in
@[simp] theorem serialize_none : serialize (none : Option α) = .null := rfl
omit [Deserialize α] in
@[simp] theorem serialize_some (a : α) : serialize (some a) = serialize a := rfl

/-- Types whose encoding is never `null`. -/
class NeverNull (α : Type) [Serialize α] : Prop where
  ne_null : ∀ a : α, serialize a ≠ .null

instance : NeverNull Bool := ⟨fun _ => by simp [serialize]⟩
instance : NeverNull String := ⟨fun _ => by simp [serialize]⟩
instance : NeverNull UInt64 := ⟨fun _ => by simp [serialize]⟩

/-- A value that is not written as null is read back as present. -/
theorem readsAs_option {a b : α} (hn : serialize a ≠ .null) (h : ReadsAs a b) :
    ReadsAs (some a) (some b) := by
  unfold ReadsAs at *
  rw [serialize_some]
  generalize hv : serialize a = v at *
  cases v with
  | null => exact absurd rfl hn
  | _ => exact congrArg (Option.map some) h

instance [LawfulSerde α] [NeverNull α] : LawfulSerde (Option α) where
  readsAs
    | none => rfl
    | some a => readsAs_option (NeverNull.ne_null a) (LawfulSerde.readsAs a)

/-- A present optional field is read back as present. -/
theorem deserialize_some [LawfulSerde α] [NeverNull α] (a : α) :
    deserialize (serialize a) = some (some a) := by
  have h : deserialize (serialize (some a)) = some (some a) := deserialize_serialize _
  simpa using h

/-- What an optional document reads back as: a present `null` is lost. -/
def dropNull (o : Option Value) : Option Value :=
  o.filter (· ≠ .null)

/-- A value that is present and null is read back as missing. -/
theorem readsAs_optionValue (o : Option Value) : ReadsAs o (dropNull o) := by
  cases o with
  | none => rfl
  | some v => cases v <;> rfl

@[simp] theorem deserialize_serialize_optionValue (o : Option Value) :
    deserialize (serialize o) = some (dropNull o) :=
  readsAs_optionValue o

/-- Nothing else is lost. -/
@[simp] theorem dropNull_eq_self {o : Option Value} : dropNull o = o ↔ o ≠ some .null := by
  cases o with
  | none => simp [dropNull]
  | some v => cases v <;> simp [dropNull, Option.filter]

/-- A decoded optional document is never a present `null`. -/
theorem deserialize_option_ne_null {v : Value} {o : Option Value}
    (h : deserialize v = some o) : o ≠ some .null := by
  rintro rfl
  cases v with
  | null => nomatch h
  | _ => simp [deserialize] at h

instance : Serialize (List α) := ⟨fun xs => .array (xs.map serialize)⟩
instance : Deserialize (List α) where
  deserialize
    | .array vs => vs.mapM deserialize
    | _ => none

/-- A list is read back item by item. -/
theorem mapM_deserialize_serialize {f : α → α} (xs : List α)
    (h : ∀ a ∈ xs, ReadsAs a (f a)) :
    (xs.map serialize).mapM deserialize = some (xs.map f) := by
  induction xs with
  | nil => rfl
  | cons x xs ih =>
    have hx : deserialize (serialize x) = some (f x) := h x (by simp)
    have hxs := ih fun a ha => h a (by simp [ha])
    simp [List.mapM_cons, hx, hxs]

/-- A list reads back item by item. -/
theorem readsAs_list {f : α → α} (xs : List α) (h : ∀ a ∈ xs, ReadsAs a (f a)) :
    ReadsAs xs (xs.map f) :=
  mapM_deserialize_serialize xs h

omit [Serialize α] in
/-- Each item of a decoded list is itself decoded. -/
theorem deserialize_list {v : Value} {xs : List α}
    (h : deserialize v = some xs) : ∀ a ∈ xs, ∃ w : Value, deserialize w = some a := by
  cases v with
  | array vs =>
    change vs.mapM deserialize = some xs at h
    induction vs generalizing xs with
    | nil =>
      cases h
      exact nofun
    | cons v vs ih =>
      rw [List.mapM_cons] at h
      obtain ⟨a, ha, h⟩ := Option.bind_eq_some_iff.mp h
      obtain ⟨as, has, h⟩ := Option.bind_eq_some_iff.mp h
      cases h
      intro b hb
      rcases List.mem_cons.mp hb with rfl | hb
      · exact ⟨v, ha⟩
      · exact ih has b hb
  | _ => nomatch h

instance [LawfulSerde α] : LawfulSerde (List α) where
  readsAs xs := by
    have := readsAs_list (f := id) xs fun a _ => LawfulSerde.readsAs a
    simpa using this

instance : Serialize (BTreeMap String α) where
  serialize m := .object (m.toList.map fun e => (e.1, serialize e.2))

instance : Deserialize (BTreeMap String α) where
  deserialize
    | .object ms =>
      (ms.mapM fun e => (deserialize e.2).map (e.1, ·)).map fun es =>
        Std.ExtTreeMap.ofList es compare
    | _ => none

/-- A map reads back value by value. -/
theorem readsAs_map {f : α → α} (m : BTreeMap String α)
    (h : ∀ (k : String) (a : α), m[k]? = some a → ReadsAs a (f a)) :
    ReadsAs m (BTreeMap.mapValues f m) := by
  have hm : ∀ es : List (String × α), (∀ e ∈ es, ReadsAs e.2 (f e.2)) →
      ((es.map fun e => (e.1, serialize e.2)).mapM fun e =>
        (deserialize e.2 : Option α).map (e.1, ·)) = some (es.map fun e => (e.1, f e.2)) := by
    intro es he
    induction es with
    | nil => rfl
    | cons e es ih =>
      have h₁ : deserialize (serialize e.2) = some (f e.2) := he e (by simp)
      have h₂ := ih fun a ha => he a (by simp [ha])
      simp [List.mapM_cons, h₁, h₂]
  have hl : ∀ e ∈ m.toList, ReadsAs e.2 (f e.2) := fun e he =>
    h e.1 e.2 (Std.ExtTreeMap.mem_toList_iff_getElem?_eq_some.mp he)
  simp only [ReadsAs, serialize, deserialize]
  rw [hm _ hl, Option.map_some, ← BTreeMap.toList_mapValues, BTreeMap.ofList_toList]

/-- A map with lawful values reads back as itself. -/
instance [LawfulSerde α] : LawfulSerde (BTreeMap String α) where
  readsAs m := by
    have := readsAs_map (f := id) m fun _ a _ => LawfulSerde.readsAs a
    simpa using this

instance : Serialize (BTreeSet String) := ⟨fun s => serialize s.toList⟩
instance : Deserialize (BTreeSet String) where
  deserialize v := (deserialize v : Option (List String)).map fun l =>
    Std.ExtTreeSet.ofList l compare

instance : LawfulSerde (BTreeSet String) where
  readsAs s := by
    have h : deserialize (serialize s.toList) = some s.toList := deserialize_serialize _
    simp only [ReadsAs, serialize, deserialize] at h ⊢
    rw [h, Option.map_some, BTreeSet.ofList_toList]

end Containers

/-! ## Records -/

/-- The members of an object document. -/
def members : Value → Option (List (String × Value))
  | .object ms => some ms
  | _ => none

@[simp] theorem members_object (ms : List (String × Value)) :
    members (.object ms) = some ms := rfl

/-- A field that must be present, read by `dec`. -/
def requiredWith {α : Type} (dec : Value → Option α) (ms : List (String × Value))
    (name : String) : Option α :=
  (ms.lookup name).bind dec

/-- A field read by `dec`, or its default when absent. -/
def defaultedWith {α : Type} (dec : Value → Option α) (ms : List (String × Value))
    (name : String) (d : α) : Option α :=
  match ms.lookup name with
  | none => some d
  | some v => dec v

/-- A field that must be present. -/
abbrev required {α : Type} [Deserialize α] (ms : List (String × Value)) (name : String) :
    Option α :=
  requiredWith deserialize ms name

/-- A field read as its default when absent. -/
abbrev defaulted {α : Type} [Deserialize α] (ms : List (String × Value)) (name : String)
    (d : α) : Option α :=
  defaultedWith deserialize ms name d

/-- An optional field whose presence excludes `null`. -/
abbrev presentWith {α : Type} (dec : Value → Option α) (ms : List (String × Value))
    (name : String) : Option (Option α) :=
  defaultedWith (fun v => (dec v).map some) ms name none

section Fields

variable {α : Type} (dec : Value → Option α)

/-- A needed member is the first one of its name. -/
@[simp] theorem requiredWith_cons (m n : String) (v : Value) (ms : List (String × Value)) :
    requiredWith dec ((m, v) :: ms) n = if n = m then dec v else requiredWith dec ms n := by
  by_cases h : n = m
  · simp [requiredWith, h]
  · have hb : (n == m) = false := by simpa using h
    simp [requiredWith, List.lookup_cons, h, hb]

@[simp] theorem defaultedWith_nil (n : String) (d : α) : defaultedWith dec [] n d = some d := rfl

/-- So is one with a default, which stands for a missing one. -/
@[simp] theorem defaultedWith_cons (m n : String) (v : Value) (ms : List (String × Value))
    (d : α) :
    defaultedWith dec ((m, v) :: ms) n d = if n = m then dec v else defaultedWith dec ms n d := by
  by_cases h : n = m
  · simp [defaultedWith, h]
  · have hb : (n == m) = false := by simpa using h
    simp [defaultedWith, List.lookup_cons, h, hb]

/-- Reads an array item by item. -/
def itemsWith : Value → Option (List α)
  | .array vs => vs.mapM dec
  | _ => none

/-- Reads an object value by value, keeping the keys. -/
def fieldsWith : Value → Option (List (String × α))
  | .object ms => ms.mapM fun m => (dec m.2).map (m.1, ·)
  | _ => none

/-- Items that are read back make an array that is. -/
theorem itemsWith_map {enc : α → Value} (xs : List α) (h : ∀ x ∈ xs, dec (enc x) = some x) :
    itemsWith dec (.array (xs.map enc)) = some xs := by
  simp only [itemsWith]
  induction xs with
  | nil => rfl
  | cons x xs ih =>
    have hx := h x (by simp)
    have hxs := ih fun a ha => h a (by simp [ha])
    simp [List.mapM_cons, hx, hxs]

/-- Members that are read back make an object that is. -/
theorem fieldsWith_map {enc : α → Value} (xs : List (String × α))
    (h : ∀ x ∈ xs, dec (enc x.2) = some x.2) :
    fieldsWith dec (.object (xs.map fun x => (x.1, enc x.2))) = some xs := by
  simp only [fieldsWith]
  induction xs with
  | nil => rfl
  | cons x xs ih =>
    have hx := h x (by simp)
    have hxs := ih fun a ha => h a (by simp [ha])
    simp [List.mapM_cons, hx, hxs]

end Fields

section Reading

variable {α β : Type} [Serialize α] [Deserialize α] {ms : List (String × Value)} {name : String}
  {a b : α} {f : α → Option β} {r : Option β}

/-- Reads one field of a record and continues with what it reads back as. -/
theorem required_bind (hl : ms.lookup name = some (serialize a)) (h : ReadsAs a b)
    (hf : f b = r) : (required ms name >>= f) = r := by
  have h' : deserialize (serialize a) = some b := h
  simp [requiredWith, hl, h', hf]

theorem defaulted_bind {d : α} (hl : ms.lookup name = some (serialize a)) (h : ReadsAs a b)
    (hf : f b = r) : (defaulted ms name d >>= f) = r := by
  have h' : deserialize (serialize a) = some b := h
  simp [defaultedWith, hl, h', hf]

end Reading

/-- A decoded optional field is never a present `null`. -/
theorem defaulted_option_ne_null {ms : List (String × Value)} {name : String}
    {o : Option Value} (h : defaulted ms name none = some o) : o ≠ some .null := by
  unfold defaulted defaultedWith at h
  split at h
  · cases h
    exact nofun
  · exact deserialize_option_ne_null h

/-- A member that is written only when the field is present. -/
def optionalMember {α : Type} [Serialize α] (name : String) (o : Option α) :
    List (String × Value) :=
  (o.map fun a => (name, serialize a)).toList

/-- Whether every member is one of the known fields. -/
def onlyFields (names : List String) (ms : List (String × Value)) : Bool :=
  ms.all fun m => names.contains m.1

end WorkflowForge.Lib
