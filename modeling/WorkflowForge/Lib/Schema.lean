import Mathlib.Computability.Language
import WorkflowForge.Lib.Json

/-!
# Document Schemas

The keywords of a schema language for documents, each as the test it makes, and what a decoder
has to do with them. A schema is closed where it names every property of an object.

Two rules connect a schema to an encoding. Going out, an encoding is tested by evaluating it.
Coming in, a decoder *reads* a schema when it accepts every document that the schema accepts;
the rules for records, arrays and maps say how the decoder of a whole reads the schema of the
whole when those of the parts do.

## Main results

- `oneOf_of_tags`: alternatives that are told apart by a tag never overlap.
- `record_required`, `record_defaulted`: the fields of a record are read.
- `Agree.record`: schemas that agree on the parts of a document agree on the document.
- `Reads.items`, `Reads.fields`: arrays and maps are read when their parts are.
-/

namespace WorkflowForge.Lib

/-! ## Documents as trees of maps -/

namespace Value

mutual
/-- No object of the document has two members of one name. -/
def distinct : Value → Bool
  | .array xs => distinctItems xs
  | .object ms => decide (ms.map Prod.fst).Nodup && distinctMembers ms
  | _ => true

def distinctItems : List Value → Bool
  | [] => true
  | x :: xs => distinct x && distinctItems xs

def distinctMembers : List (String × Value) → Bool
  | [] => true
  | (_, x) :: ms => distinct x && distinctMembers ms
end

/-- Every item of an array has distinct names in it. -/
theorem distinctItems_eq_all (xs : List Value) : distinctItems xs = xs.all distinct := by
  induction xs with
  | nil => rfl
  | cons x xs ih => rw [distinctItems, List.all_cons, ih]

theorem distinctMembers_eq_all (ms : List (String × Value)) :
    distinctMembers ms = ms.all fun m => distinct m.2 := by
  induction ms with
  | nil => rfl
  | cons m ms ih => rw [distinctMembers, List.all_cons, ih]

theorem distinct_item {xs : List Value} (h : distinct (.array xs) = true) {x : Value}
    (hx : x ∈ xs) : distinct x = true := by
  rw [distinct, distinctItems_eq_all, List.all_eq_true] at h
  exact h x hx

/-- An object has distinct names, of its own and inside its members. -/
theorem distinct_object {ms : List (String × Value)} :
    distinct (.object ms) = true ↔
      (ms.map Prod.fst).Nodup ∧ ∀ m ∈ ms, distinct m.2 = true := by
  rw [distinct, distinctMembers_eq_all, Bool.and_eq_true, decide_eq_true_eq, List.all_eq_true]

theorem distinct_member {ms : List (String × Value)} (h : distinct (.object ms) = true)
    {k : String} {x : Value} (hx : (k, x) ∈ ms) : distinct x = true :=
  (distinct_object.mp h).2 _ hx

end Value

/-! ## Keywords -/

/-- A schema, as the test it makes of a document. -/
abbrev Schema := Value → Bool

namespace Schema

/-- The schema `true`. -/
def anything : Schema := fun _ => true

/-- `const`, for a text. -/
def constant (s : String) : Schema
  | .string t => t = s
  | _ => false

/-- `enum`, for texts. -/
def enumeration (ss : List String) : Schema
  | .string t => ss.contains t
  | _ => false

/-- `"type": "string"` with `"minLength": 1`. -/
def nonempty : Schema
  | .string t => t ≠ ""
  | _ => false

/-- `"type": "string"` with a `pattern`. -/
def pattern (p : String → Bool) : Schema
  | .string t => p t
  | _ => false

/-- `"type": "boolean"`. -/
def boolean : Schema
  | .bool _ => true
  | _ => false

/-- `"type": "object"`. -/
def anyObject : Schema
  | .object _ => true
  | _ => false

def allOf (ss : List Schema) : Schema := fun v => ss.all (· v)

/-- Exactly one of the alternatives holds. -/
def oneOf (ss : List Schema) : Schema := fun v => ss.countP (· v) = 1

def ifThenElse (condition consequence alternative : Schema) : Schema := fun v =>
  if condition v then consequence v else alternative v

/-- `not`. -/
def excluded (s : Schema) : Schema := fun v => !s v

/-- `required`, which says nothing of a document that is no object. -/
def has (needed : List String) : Schema
  | .object ms => needed.all fun k => (ms.lookup k).isSome
  | _ => true

/-- `properties`, without a word about the other members. -/
def properties (known : List (String × Schema)) : Schema
  | .object ms => ms.all fun m => (known.lookup m.1).all fun s => s m.2
  | _ => true

/-- `"type": "array"` with `items`. -/
def items (s : Schema) : Schema
  | .array xs => xs.all s
  | _ => false

def minItems (n : Nat) : Schema
  | .array xs => n ≤ xs.length
  | _ => true

def uniqueItems : Schema
  | .array xs => xs.Nodup
  | _ => true

/-- `"type": "object"` whose members all have one schema. -/
def fields (s : Schema) : Schema
  | .object ms => ms.all fun m => s m.2
  | _ => false

def minProperties (n : Nat) : Schema
  | .object ms => n ≤ ms.length
  | _ => true

def propertyNames (s : Schema) : Schema
  | .object ms => ms.all fun m => s (.string m.1)
  | _ => true

/-- A closed object: `required`, `properties` and `"additionalProperties": false`. -/
def record (needed : List String) (known : List (String × Schema)) : Schema
  | .object ms =>
    needed.all (fun k => (ms.lookup k).isSome) &&
      ms.all fun m => (known.lookup m.1).any fun s => s m.2
  | _ => false

/-! ## Alternatives -/

/-- Alternatives that are told apart by a tag never overlap: one of them is enough. -/
theorem oneOf_of_tags {κ : Type} {tag : Value → Option κ} {alternatives : List (κ × Schema)}
    {a : κ × Schema} {v : Value} (hdistinct : (alternatives.map Prod.fst).Nodup)
    (htag : ∀ b ∈ alternatives, b.2 v = true → tag v = some b.1) (ha : a ∈ alternatives)
    (hv : a.2 v = true) : oneOf (alternatives.map Prod.snd) v = true := by
  have htagged : tag v = some a.1 := htag a ha hv
  -- every alternative that holds is the one that was found
  have hsame : ∀ b ∈ alternatives, b.2 v = true → b = a := by
    intro b hb hbv
    have hkey : b.1 = a.1 := Option.some_inj.mp ((htag b hb hbv).symm.trans htagged)
    exact List.inj_on_of_nodup_map hdistinct hb ha hkey
  have hnodup : (alternatives.filter fun b => b.2 v).Nodup :=
    (List.Nodup.of_map _ hdistinct).filter _
  have hfilter : (alternatives.filter fun b => b.2 v) = [a] := by
    apply List.perm_singleton.mp
    refine (List.perm_ext_iff_of_nodup hnodup (List.nodup_singleton a)).mpr fun b => ?_
    rw [List.mem_filter, List.mem_singleton]
    exact ⟨fun h => hsame b h.1 h.2, fun h => h ▸ ⟨ha, hv⟩⟩
  have hcount : (alternatives.map Prod.snd).countP (· v) = 1 := by
    rw [List.countP_map, List.countP_eq_length_filter]
    exact congrArg List.length hfilter
  exact decide_eq_true hcount

/-- One of the alternatives holds. -/
theorem oneOf_exists {ss : List Schema} {v : Value} (h : oneOf ss v = true) :
    ∃ s ∈ ss, s v = true := by
  have hcount : ss.countP (· v) = 1 := of_decide_eq_true h
  exact List.countP_pos_iff.mp (by omega)

/-! ## Records -/

section Records

variable {needed : List String} {known : List (String × Schema)} {ms : List (String × Value)}

/-- Only an object satisfies the schema of a record. -/
theorem record_object {v : Value} (h : record needed known v = true) :
    ∃ ms, v = .object ms := by
  cases v with
  | object ms => exact ⟨ms, rfl⟩
  | _ => nomatch h

/-- A record has what is needed, and every member of it is known and satisfies its schema. -/
theorem record_eq_true : record needed known (.object ms) = true ↔
    (∀ k ∈ needed, (ms.lookup k).isSome) ∧
      ∀ m ∈ ms, ∃ s, known.lookup m.1 = some s ∧ s m.2 = true := by
  simp only [record, Bool.and_eq_true, List.all_eq_true, Option.any_eq_true]

/-- Finds a name in a list that is written out. -/
theorem lookup_cons_ite {α : Type} (k l : String) (a : α) (ms : List (String × α)) :
    ((l, a) :: ms).lookup k = if k = l then some a else ms.lookup k := by
  rw [List.lookup_cons]
  by_cases h : k = l
  · simp [h]
  · rw [if_neg h, beq_false_of_ne h]

/-- A member that is found is one of the members. -/
theorem mem_of_lookup {k : String} {v : Value} (h : ms.lookup k = some v) : (k, v) ∈ ms := by
  induction ms with
  | nil => nomatch h
  | cons m ms ih =>
    obtain ⟨l, w⟩ := m
    rw [List.lookup_cons] at h
    split at h
    next heq =>
      obtain rfl : k = l := by simpa using heq
      obtain rfl := Option.some.inj h
      exact List.mem_cons_self
    next => exact List.mem_cons_of_mem _ (ih h)

/-- A record has known members only. -/
theorem record_onlyFields (h : record needed known (.object ms) = true) :
    onlyFields (known.map Prod.fst) ms = true := by
  rw [onlyFields, List.all_eq_true]
  intro m hm
  obtain ⟨s, hs, -⟩ := (record_eq_true.mp h).2 m hm
  rw [List.contains_iff_mem]
  by_contra hnot
  rw [List.lookup_eq_none_iff.mpr] at hs
  · nomatch hs
  · intro p hp
    simp only [bne_iff_ne, ne_eq]
    exact fun heq => hnot (List.mem_map.mpr ⟨p, hp, heq.symm⟩)

/-- What a record has under a name satisfies the schema of the name. -/
theorem record_lookup (h : record needed known (.object ms) = true) {k : String} {v : Value}
    (hv : ms.lookup k = some v) {s : Schema} (hs : known.lookup k = some s) : s v = true := by
  obtain ⟨t, ht, hholds⟩ := (record_eq_true.mp h).2 _ (mem_of_lookup hv)
  obtain rfl : t = s := Option.some.inj (ht.symm.trans hs)
  exact hholds

/-- What a record needs is present. -/
theorem record_present (h : record needed known (.object ms) = true) {k : String}
    (hk : k ∈ needed) : ∃ v, ms.lookup k = some v :=
  Option.isSome_iff_exists.mp ((record_eq_true.mp h).1 k hk)

/-- The text that a record has under a name, where the schema allows one only. -/
theorem record_constant (h : record needed known (.object ms) = true) {k s : String}
    (hk : k ∈ needed) (hs : known.lookup k = some (constant s)) :
    ms.lookup k = some (.string s) := by
  obtain ⟨v, hv⟩ := record_present h hk
  have hholds := record_lookup h hv hs
  cases v with
  | string t =>
    obtain rfl : t = s := of_decide_eq_true hholds
    exact hv
  | _ => nomatch hholds

/-- Members that are left out are not found, and the others are found as before. -/
theorem lookup_filter {α : Type} (p : String → Bool) (ms : List (String × α)) (k : String) :
    (ms.filter fun m => p m.1).lookup k = if p k then ms.lookup k else none := by
  induction ms with
  | nil => simp
  | cons m ms ih =>
    obtain ⟨l, v⟩ := m
    rw [List.filter_cons, List.lookup_cons]
    cases hkl : k == l with
    | true =>
      obtain rfl : k = l := by simpa using hkl
      by_cases hk : p k
      · simp [hk]
      · simp [hk, ih]
    | false =>
      by_cases hl : p l
      · rw [if_pos hl, List.lookup_cons, hkl, ih]
      · rw [if_neg hl, ih]

/-- The members of some names are a record of those names. -/
theorem record_filter (p : String → Bool) (h : record needed known (.object ms) = true) :
    record (needed.filter p) (known.filter fun m => p m.1)
      (.object (ms.filter fun m => p m.1)) = true := by
  obtain ⟨hneeded, hknown⟩ := record_eq_true.mp h
  refine record_eq_true.mpr ⟨fun k hk => ?_, fun m hm => ?_⟩
  · obtain ⟨hk, hpk⟩ := List.mem_filter.mp hk
    rw [lookup_filter, if_pos hpk]
    exact hneeded k hk
  · obtain ⟨hm, hpm⟩ := List.mem_filter.mp hm
    obtain ⟨s, hs, hholds⟩ := hknown m hm
    exact ⟨s, by rw [lookup_filter, if_pos hpm, hs], hholds⟩

end Records

/-! ## Schemas that nest -/

/-- The schemas agree on documents of at most `n` positions. -/
def Agree (n : Nat) (s t : Schema) : Prop :=
  ∀ v : Value, v.size ≤ n → s v = t v

section Agree

variable {n : Nat} {s t : Schema}

theorem Agree.rfl : Agree n s s := fun _ _ => Eq.refl _

theorem Agree.symm (h : Agree n s t) : Agree n t s := fun v hv => (h v hv).symm

/-- Schemas that agree on larger values agree on smaller ones. -/
theorem Agree.mono {m : Nat} (h : Agree n s t) (hm : m ≤ n) : Agree m s t :=
  fun v hv => h v (hv.trans hm)

theorem all_eq_of_mem {α : Type} {p q : α → Bool} {xs : List α} (h : ∀ x ∈ xs, p x = q x) :
    xs.all p = xs.all q := by
  induction xs with
  | nil => exact Eq.refl _
  | cons x xs ih =>
    rw [List.all_cons, List.all_cons, h x List.mem_cons_self,
      ih fun y hy => h y (List.mem_cons_of_mem _ hy)]

/-- Items are smaller than their array, so that arrays of one size more agree. -/
theorem Agree.items (h : Agree n s t) : Agree (n + 1) (items s) (items t) := by
  intro v hv
  cases v with
  | array xs =>
    refine all_eq_of_mem fun x hx => h x ?_
    have := Value.size_lt_array hx
    omega
  | _ => exact Eq.refl _

/-- In the same way for objects whose members all satisfy one schema. -/
theorem Agree.fields (h : Agree n s t) : Agree (n + 1) (fields s) (fields t) := by
  intro v hv
  cases v with
  | object ms =>
    refine all_eq_of_mem fun m hm => h m.2 ?_
    have := Value.size_lt_object (k := m.1) hm
    omega
  | _ => exact Eq.refl _

/-- Conjunctions agree when their parts do. -/
theorem Agree.allOf {ss ts : List Schema} (h : List.Forall₂ (Agree n) ss ts) :
    Agree n (allOf ss) (allOf ts) := by
  intro v hv
  induction h with
  | nil => exact Eq.refl _
  | cons hst _ ih =>
    simp only [Schema.allOf, List.all_cons] at ih ⊢
    rw [hst v hv, ih]

/-- Alternatives agree when each of them does. -/
theorem Agree.oneOf {ss ts : List Schema} (h : List.Forall₂ (Agree n) ss ts) :
    Agree n (oneOf ss) (oneOf ts) := by
  intro v hv
  have hcount : ss.countP (· v) = ts.countP (· v) := by
    induction h with
    | nil => exact Eq.refl _
    | cons hst _ ih => rw [List.countP_cons, List.countP_cons, hst v hv, ih]
  simp only [Schema.oneOf, hcount]

/-- The same names, with schemas that agree. -/
def AgreeOn (n : Nat) (known known' : List (String × Schema)) : Prop :=
  List.Forall₂ (fun a b => a.1 = b.1 ∧ Agree n a.2 b.2) known known'

theorem AgreeOn.nil : AgreeOn n [] [] := List.Forall₂.nil

/-- One more known member, on which both schemas agree. -/
theorem AgreeOn.cons {k : String} {known known' : List (String × Schema)} (h : Agree n s t)
    (hs : AgreeOn n known known') : AgreeOn n ((k, s) :: known) ((k, t) :: known') :=
  List.Forall₂.cons ⟨Eq.refl k, h⟩ hs

/-- A name whose schema is the same in both. -/
theorem AgreeOn.same {p : String × Schema} {known known' : List (String × Schema)}
    (hs : AgreeOn n known known') : AgreeOn n (p :: known) (p :: known') :=
  AgreeOn.cons .rfl hs

theorem AgreeOn.schemas {known known' : List (String × Schema)} (h : AgreeOn n known known') :
    List.Forall₂ (Agree n) (known.map Prod.snd) (known'.map Prod.snd) := by
  induction h with
  | nil => exact .nil
  | cons hab _ ih => exact .cons hab.2 ih

/-- Records agree on values of one size more than their members. -/
theorem Agree.record {known known' : List (String × Schema)} (h : AgreeOn n known known')
    (needed : List String) : Agree (n + 1) (record needed known) (record needed known') := by
  intro v hv
  cases v with
  | object ms =>
    have hmember : ∀ m ∈ ms, ((known.lookup m.1).any fun s => s m.2) =
        (known'.lookup m.1).any fun s => s m.2 := by
      intro m hm
      have hsize : m.2.size ≤ n := by
        have := Value.size_lt_object (k := m.1) hm
        omega
      induction h with
      | nil => exact Eq.refl _
      | @cons a b as bs hab _ ih =>
        rw [List.lookup_cons, List.lookup_cons, hab.1]
        cases m.1 == b.1 with
        | true => exact hab.2 m.2 hsize
        | false => exact ih
    simp only [Schema.record, all_eq_of_mem hmember]
  | _ => exact Eq.refl _

end Agree

/-! ## Decoders -/

/-- The decoder accepts every document that the schema accepts. -/
def Reads {α : Type} (dec : Value → Option α) (s : Schema) : Prop :=
  ∀ v : Value, v.distinct = true → s v = true → ∃ a, dec v = some a

section Reads

variable {α : Type} {dec : Value → Option α} {s : Schema}

/-- A decoder reads what a stricter schema accepts. -/
theorem Reads.of_imp {t : Schema} (h : Reads dec s) (ht : ∀ v, t v = true → s v = true) :
    Reads dec t :=
  fun v hd hv => h v hd (ht v hv)

/-- A decoder reads each of several conditions that hold together. -/
theorem Reads.allOf {ss : List Schema} (h : Reads dec s) (hs : s ∈ ss) :
    Reads dec (allOf ss) :=
  h.of_imp fun _ hv => List.all_eq_true.mp hv s hs

/-- Any value is read as itself. -/
theorem reads_anything : Reads (deserialize : Value → Option Value) s :=
  fun v _ _ => ⟨v, rfl⟩

/-- A text that is not empty is a text. -/
theorem reads_nonempty : Reads (deserialize : Value → Option String) nonempty := by
  intro v _ hv
  cases v with
  | string t => exact ⟨t, rfl⟩
  | _ => nomatch hv

/-- A text of a pattern is a text. -/
theorem reads_pattern {p : String → Bool} :
    Reads (deserialize : Value → Option String) (pattern p) := by
  intro v _ hv
  cases v with
  | string t => exact ⟨t, rfl⟩
  | _ => nomatch hv

/-- So is one given text. -/
theorem reads_constant {t : String} :
    Reads (deserialize : Value → Option String) (constant t) := by
  intro v _ hv
  cases v with
  | string t => exact ⟨t, rfl⟩
  | _ => nomatch hv

theorem reads_boolean : Reads (deserialize : Value → Option Bool) boolean := by
  intro v _ hv
  cases v with
  | bool b => exact ⟨b, rfl⟩
  | _ => nomatch hv

/-- A list of readable parts is read part by part. -/
theorem mapM_exists {β : Type} {f : β → Option α} {xs : List β} (h : ∀ x ∈ xs, ∃ a, f x = some a) :
    ∃ as, xs.mapM f = some as := by
  induction xs with
  | nil => exact ⟨[], rfl⟩
  | cons x xs ih =>
    obtain ⟨a, ha⟩ := h x List.mem_cons_self
    obtain ⟨as, has⟩ := ih fun y hy => h y (List.mem_cons_of_mem _ hy)
    exact ⟨a :: as, by simp [List.mapM_cons, ha, has]⟩

/-- An array is read when its items are. -/
theorem Reads.items (h : Reads dec s) : Reads (itemsWith dec) (items s) := by
  intro v hd hv
  cases v with
  | array xs =>
    exact mapM_exists fun x hx => h x (Value.distinct_item hd hx) (List.all_eq_true.mp hv x hx)
  | _ => nomatch hv

/-- A list is read from an array of readable items. -/
theorem Reads.list [Deserialize α] (h : Reads (deserialize : Value → Option α) s) :
    Reads (deserialize : Value → Option (List α)) (Schema.items s) := by
  intro v hd hv
  cases v with
  | array xs => exact h.items (.array xs) hd hv
  | _ => nomatch hv

/-- An object is read when its members are. -/
theorem Reads.fields (h : Reads dec s) : Reads (fieldsWith dec) (fields s) := by
  intro v hd hv
  cases v with
  | object ms =>
    refine mapM_exists fun m hm => ?_
    obtain ⟨a, ha⟩ := h m.2 (Value.distinct_member hd hm) (List.all_eq_true.mp hv m hm)
    exact ⟨(m.1, a), by simp [ha]⟩
  | _ => nomatch hv

/-- An object of any members is read as a map of documents. -/
theorem reads_anyObject :
    Reads (deserialize : Value → Option (BTreeMap String Value)) anyObject := by
  intro v _ hv
  cases v with
  | object ms =>
    obtain ⟨es, hes⟩ : ∃ es, (ms.mapM fun e => (deserialize e.2 : Option Value).map (e.1, ·)) =
        some es :=
      mapM_exists fun m _ => ⟨m, rfl⟩
    exact ⟨Std.ExtTreeMap.ofList es compare, by simp only [deserialize] at hes ⊢; rw [hes]; rfl⟩
  | _ => nomatch hv

variable {needed : List String} {known : List (String × Schema)} {ms : List (String × Value)}

/-- A field that a record has to have is read. -/
theorem record_required (h : record needed known (.object ms) = true)
    (hd : Value.distinct (.object ms) = true) (hr : Reads dec s) {k : String} (hk : k ∈ needed)
    (hs : known.lookup k = some s) : ∃ a, requiredWith dec ms k = some a := by
  obtain ⟨v, hv⟩ := record_present h hk
  obtain ⟨a, ha⟩ :=
    hr v (Value.distinct_member hd (mem_of_lookup hv)) (record_lookup h hv hs)
  exact ⟨a, by simp [requiredWith, hv, ha]⟩

/-- A field that a record may leave out is read. -/
theorem record_defaulted (h : record needed known (.object ms) = true)
    (hd : Value.distinct (.object ms) = true) (hr : Reads dec s) {k : String}
    (hs : known.lookup k = some s) (d : α) : ∃ a, defaultedWith dec ms k d = some a := by
  cases hv : ms.lookup k with
  | none => exact ⟨d, by simp [defaultedWith, hv]⟩
  | some v =>
    obtain ⟨a, ha⟩ :=
      hr v (Value.distinct_member hd (mem_of_lookup hv)) (record_lookup h hv hs)
    exact ⟨a, by simp [defaultedWith, hv, ha]⟩

/-- A field whose presence excludes `null` is read as present. -/
theorem Reads.present (h : Reads dec s) : Reads (fun v => (dec v).map some) s := by
  intro v hd hv
  obtain ⟨a, ha⟩ := h v hd hv
  exact ⟨some a, by simp [ha]⟩

/-- What one of the alternatives describes is read, when the decoder reads each of them. -/
theorem Reads.oneOf {ss : List Schema} (h : ∀ s ∈ ss, Reads dec s) : Reads dec (oneOf ss) := by
  intro v hd hv
  obtain ⟨s, hs, hholds⟩ := oneOf_exists hv
  exact h s hs v hd hholds

end Reads

end Schema

end WorkflowForge.Lib
