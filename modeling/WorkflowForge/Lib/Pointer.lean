import WorkflowForge.Lib.Json

/-!
# JSON Pointers into Documents

The lookup of a JSON Pointer in a document: the empty pointer is the document itself, and
every further token names a member of an object or an index of an array.

A lookup can end in three ways: at a part, at a place where no part is, or nowhere, since the
pointer does not fit the document. `Resolves` tells the first two from the third.

## Main results

- `toDigits_ofDigitChars`: a numeral without leading zeros is the numeral of its value.
- `Resolves.unique`: a pointer leads to one place at most.
-/

namespace WorkflowForge.Lib

/-- `str::replace` of two characters by one. -/
def replacePair (a b c : Char) : List Char → List Char
  | x :: y :: rest =>
    if x = a ∧ y = b then c :: replacePair a b c rest else x :: replacePair a b c (y :: rest)
  | rest => rest

/-- The name a token of a pointer stands for. -/
def unescape (token : List Char) : String :=
  .ofList (replacePair '~' '0' '~' (replacePair '~' '1' '/' token))

/-- An index is written in decimal, without a sign and without leading zeros. -/
def parseIndex (token : String) : Option Nat :=
  let digits := token.toList
  if digits ≠ [] ∧ digits.all Char.isDigit ∧ (digits.head? ≠ some '0' ∨ digits.length = 1)
  then some (Nat.ofDigitChars 10 digits 0)
  else none

/-! ## Numerals -/

theorem digitChar_of_isDigit {c : Char} (h : c.isDigit) :
    c.toNat - '0'.toNat < 10 ∧ (c.toNat - '0'.toNat).digitChar = c := by
  simp only [Char.isDigit, Bool.and_eq_true, decide_eq_true_eq] at h
  have hlow : 48 ≤ c.toNat := UInt32.le_iff_toNat_le.mp h.1
  have hhigh : c.toNat ≤ 57 := UInt32.le_iff_toNat_le.mp h.2
  have hzero : '0'.toNat = 48 := rfl
  refine ⟨by omega, Char.toNat_inj.mp ?_⟩
  rw [Nat.toNat_digitChar_of_lt_ten (by omega)]
  omega

/-- A numeral without leading zeros has a positive value. -/
theorem ofDigitChars_pos {digits : List Char} (hdigits : ∀ c ∈ digits, c.isDigit)
    (hne : digits ≠ []) (hzero : digits.head? ≠ some '0') :
    0 < Nat.ofDigitChars 10 digits 0 := by
  cases digits with
  | nil => exact absurd rfl hne
  | cons c cs =>
    obtain ⟨-, hchar⟩ := digitChar_of_isDigit (hdigits c (by simp))
    have hpos : 0 < c.toNat - '0'.toNat := by
      rcases Nat.eq_zero_or_pos (c.toNat - '0'.toNat) with hc | hc
      · rw [hc] at hchar
        exact absurd (congrArg some hchar.symm) hzero
      · exact hc
    rw [Nat.ofDigitChars_cons, Nat.mul_zero, Nat.zero_add, Nat.ofDigitChars_eq_ofDigitChars_zero]
    have hpow : 0 < 10 ^ cs.length := Nat.pow_pos (by decide)
    exact Nat.add_pos_left (Nat.mul_pos hpow hpos) _

/-- A numeral without leading zeros is the numeral of its value. -/
theorem toDigits_ofDigitChars {digits : List Char} (hdigits : ∀ c ∈ digits, c.isDigit)
    (hne : digits ≠ []) (hzero : digits.head? ≠ some '0' ∨ digits.length = 1) :
    Nat.toDigits 10 (Nat.ofDigitChars 10 digits 0) = digits := by
  -- from the back: the last digit is the remainder by ten
  induction digits using List.reverseRecOn with
  | nil => exact absurd rfl hne
  | append_singleton cs c ih =>
    obtain ⟨hlt, hchar⟩ := digitChar_of_isDigit (hdigits c (by simp))
    rw [Nat.ofDigitChars_append, Nat.ofDigitChars_cons, Nat.ofDigitChars_nil]
    by_cases hcs : cs = []
    · subst hcs
      rw [Nat.ofDigitChars_nil, Nat.mul_zero, Nat.zero_add, Nat.toDigits_of_lt_base hlt, hchar]
      rfl
    · have hhead : cs.head? ≠ some '0' := by
        rcases hzero with h | h
        · rwa [List.head?_append_of_ne_nil cs hcs] at h
        · have := List.length_pos_of_ne_nil hcs
          simp only [List.length_append, List.length_singleton] at h
          omega
      have hmem : ∀ d ∈ cs, d.isDigit := fun d hd => hdigits d (List.mem_append_left _ hd)
      have hpos := ofDigitChars_pos hmem hcs hhead
      rw [← Nat.toDigits_append_toDigits (by decide) hpos hlt, ih hmem hcs (.inl hhead),
        Nat.toDigits_of_lt_base hlt, hchar]

theorem head_toDigits_ne_zero (n : Nat) :
    (Nat.toDigits 10 n).head? ≠ some '0' ∨ (Nat.toDigits 10 n).length = 1 := by
  induction n using Nat.strongRecOn with
  | ind n ih =>
    rcases Nat.lt_or_ge n 10 with hlt | hge
    · right
      rw [Nat.toDigits_of_lt_base hlt]
      rfl
    · left
      rw [Nat.toDigits_of_base_le (by decide) hge,
        List.head?_append_of_ne_nil _ Nat.toDigits_ne_nil]
      rcases ih (n / 10) (Nat.div_lt_self (by omega) (by decide)) with h | h
      · exact h
      · have hpos : 0 < n / 10 := Nat.div_pos hge (by decide)
        have hle := (Nat.length_toDigits_le_iff (b := 10) (n := n / 10) (k := 1) (by decide)
          (by decide)).mp (le_of_eq h)
        rw [Nat.toDigits_of_lt_base (by simpa using hle)]
        intro heq
        have hchar := congrArg Char.toNat (Option.some.inj heq)
        rw [Nat.toNat_digitChar_of_lt_ten (by simpa using hle)] at hchar
        have hzero : '0'.toNat = 48 := rfl
        omega

/-! ## Resolution -/

/-- What the tokens of a pointer lead to from a place of a document: a member by its name, an
item by its index; the token `-` names the place after the last item. -/
inductive Resolves : Option Value → List String → Option Value → Prop where
  | done (place : Option Value) : Resolves place [] place
  | absent {token : String} {tokens : List String} {r : Option Value} :
      Resolves none tokens r → Resolves none (token :: tokens) r
  | member {ms : List (String × Value)} {token : String} {tokens : List String}
      {r : Option Value} : Resolves (ms.lookup token) tokens r →
      Resolves (some (.object ms)) (token :: tokens) r
  | item {items : List Value} {index : Nat} {tokens : List String} {r : Option Value} :
      Resolves items[index]? tokens r →
      Resolves (some (.array items)) (toString index :: tokens) r
  | afterLast {items : List Value} {tokens : List String} {r : Option Value} :
      Resolves none tokens r → Resolves (some (.array items)) ("-" :: tokens) r

theorem toString_ne_dash (n : Nat) : toString n ≠ "-" := by
  intro h
  have hmem : '-' ∈ Nat.toDigits 10 n := by
    rw [← Nat.toList_repr, ← Nat.toString_eq_repr, h]
    decide
  exact absurd (Nat.isDigit_of_mem_toDigits (by decide) (by decide) hmem) (by decide)

theorem toString_injective {m n : Nat} (h : toString m = toString n) : m = n := by
  have hdigits : Nat.toDigits 10 m = Nat.toDigits 10 n := by
    rw [← Nat.toList_repr, ← Nat.toList_repr, ← Nat.toString_eq_repr, ← Nat.toString_eq_repr, h]
  rw [← Nat.ofDigitChars_ten_toDigits (n := m), hdigits, Nat.ofDigitChars_ten_toDigits]

/-- A pointer leads to one place at most. -/
theorem Resolves.unique {place r r' : Option Value} {tokens : List String}
    (h : Resolves place tokens r) (h' : Resolves place tokens r') : r = r' := by
  induction h with
  | done => cases h' with | done => rfl
  | absent h ih => cases h' with | absent h' => exact ih h'
  | member h ih => cases h' with | member h' => exact ih h'
  | @item items index tokens r h ih =>
    generalize htoken : toString index = token at h'
    cases h' with
    | item h' =>
      obtain rfl := toString_injective htoken
      exact ih h'
    | afterLast h' => exact absurd htoken (toString_ne_dash index)
  | @afterLast items tokens r h ih =>
    generalize htoken : "-" = token at h'
    cases h' with
    | item h' => exact absurd htoken.symm (toString_ne_dash _)
    | afterLast h' => exact ih h'

namespace Value

/-- The part of a document that one token of a pointer selects. -/
def step (target : Value) (token : List Char) : Option Value :=
  match target with
  | .object members => members.lookup (unescape token)
  | .array items => (parseIndex (unescape token)).bind fun index => items[index]?
  | _ => none

/-- The part of a document that a pointer selects. -/
def pointer (v : Value) (p : String) : Option Value :=
  match p.toList with
  | [] => some v
  | '/' :: rest => (rest.splitOn '/').foldlM step v
  | _ => none

theorem pointer_empty (v : Value) : v.pointer "" = some v := rfl

/-- No token leads into a string. -/
theorem foldlM_step_string (tokens : List (List Char)) (s : String) :
    tokens.foldlM step (.string s) = some (.string s) ∨
      tokens.foldlM step (.string s) = none := by
  cases tokens with
  | nil => exact .inl rfl
  | cons token tokens => exact .inr rfl

/-- A pointer into an object reads the member that its first token names, and goes on from
there. -/
theorem pointer_object {p : String} (h : p ≠ "") :
    ∃ (name : String) (onwards : Value → Option Value),
      (∀ s, onwards (.string s) = some (.string s) ∨ onwards (.string s) = none) ∧
      ∀ ms : List (String × Value), (object ms).pointer p = (ms.lookup name).bind onwards := by
  have hne : p.toList ≠ [] := fun hp => h (String.toList_eq_nil_iff.mp hp)
  by_cases hslash : ∃ rest, p.toList = '/' :: rest
  · obtain ⟨rest, hrest⟩ := hslash
    obtain ⟨token, tokens, hsplit⟩ :=
      List.exists_cons_of_ne_nil (List.splitOn_ne_nil '/' rest)
    refine ⟨unescape token, tokens.foldlM step, foldlM_step_string tokens, fun ms => ?_⟩
    rw [pointer, hrest]
    change (rest.splitOn '/').foldlM step (object ms) = _
    rw [hsplit, List.foldlM_cons]
    rfl
  · refine ⟨"", fun _ => none, fun _ => .inr rfl, fun ms => ?_⟩
    unfold pointer
    split
    next heq => exact absurd heq hne
    next rest heq => exact absurd ⟨rest, heq⟩ hslash
    · cases ms.lookup "" <;> rfl

end Value

end WorkflowForge.Lib
