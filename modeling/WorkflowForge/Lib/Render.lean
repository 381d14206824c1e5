import Mathlib.Data.String.Basic
import WorkflowForge.Lib.Json

/-!
# Compact Text of Documents

The text a document is serialized to: no space between its parts, and in strings only the
quote, the backslash and the control characters escaped. The lengths that the engine sums up
part by part are the lengths of this text.

## Main results

- `utf8ByteSize_compact`: `Value.bytes` is the length of the compact text.
-/

namespace WorkflowForge.Lib

/-! ## Characters and strings -/

/-- A hexadecimal digit. -/
def hexDigit (n : Nat) : Char :=
  (Nat.toDigits 16 n).headD '0'

/-- The text of a character inside a JSON string. -/
def escapeChar (c : Char) : List Char :=
  if c = '"' ∨ c = '\\' then ['\\', c]
  else if c.toNat = 8 then ['\\', 'b']
  else if c.toNat = 9 then ['\\', 't']
  else if c.toNat = 10 then ['\\', 'n']
  else if c.toNat = 12 then ['\\', 'f']
  else if c.toNat = 13 then ['\\', 'r']
  else if c.toNat < 32 then
    ['\\', 'u', '0', '0', if c.toNat < 16 then '0' else '1', hexDigit (c.toNat % 16)]
  else [c]

def quote (s : String) : List Char :=
  '"' :: s.toList.flatMap escapeChar ++ ['"']

/-- The length of a text in UTF-8. -/
def utf8Bytes (cs : List Char) : Nat :=
  (cs.map Char.utf8Size).sum

@[simp] theorem utf8Bytes_nil : utf8Bytes [] = 0 := rfl

@[simp] theorem utf8Bytes_cons (c : Char) (cs : List Char) :
    utf8Bytes (c :: cs) = c.utf8Size + utf8Bytes cs := by
  simp [utf8Bytes]

@[simp] theorem utf8Bytes_append (cs ds : List Char) :
    utf8Bytes (cs ++ ds) = utf8Bytes cs + utf8Bytes ds := by
  simp [utf8Bytes]

theorem utf8ByteSize_ofList (cs : List Char) : (String.ofList cs).utf8ByteSize = utf8Bytes cs := by
  induction cs with
  | nil => rfl
  | cons c cs ih =>
    rw [← List.singleton_append, String.ofList_append, String.utf8ByteSize_append, ih,
      utf8Bytes_append]
    simp

/-- A digit takes one byte. -/
theorem utf8Size_of_isDigit {c : Char} (h : c.isDigit) : c.utf8Size = 1 := by
  have hle : c.val ≤ 57 := by
    simp only [Char.isDigit, Bool.and_eq_true, decide_eq_true_eq] at h
    exact h.2
  have hval : c.val ≤ 127 := UInt32.le_trans hle (by decide)
  simp [Char.utf8Size, hval]

theorem utf8Bytes_of_digits {cs : List Char} (h : ∀ c ∈ cs, c.isDigit) :
    utf8Bytes cs = cs.length := by
  induction cs with
  | nil => rfl
  | cons c cs ih =>
    rw [utf8Bytes_cons, utf8Size_of_isDigit (h c (by simp)), ih fun d hd => h d (by simp [hd])]
    simp [Nat.add_comm]

theorem utf8Bytes_toDigits (n : Nat) : utf8Bytes (Nat.toDigits 10 n) = n.repr.length := by
  have hdigits : ∀ c ∈ Nat.toDigits 10 n, c.isDigit := fun c hc =>
    Nat.isDigit_of_mem_toDigits (by decide) (by decide) hc
  rw [utf8Bytes_of_digits hdigits, Nat.repr_eq_ofList_toDigits, String.length_ofList]

theorem utf8Size_hexDigit {n : Nat} (h : n < 16) : (hexDigit n).utf8Size = 1 := by
  revert n
  decide

theorem utf8Bytes_escapeChar (c : Char) : utf8Bytes (escapeChar c) = Value.escapedBytes c := by
  have hhex := utf8Size_hexDigit (n := c.toNat % 16) (Nat.mod_lt _ (by decide))
  unfold escapeChar Value.escapedBytes
  split
  next h => rcases h with rfl | rfl <;> decide
  · split_ifs <;> simp_all <;> rfl

theorem utf8Bytes_flatMap_escapeChar (cs : List Char) :
    utf8Bytes (cs.flatMap escapeChar) = (cs.map Value.escapedBytes).sum := by
  induction cs with
  | nil => rfl
  | cons c cs ih => simp [utf8Bytes_escapeChar, ih]

theorem utf8Bytes_quote (s : String) : utf8Bytes (quote s) = Value.stringBytes s := by
  have hquote : '"'.utf8Size = 1 := by decide
  simp only [quote, List.cons_append, utf8Bytes_cons, utf8Bytes_append, utf8Bytes_nil,
    utf8Bytes_flatMap_escapeChar, Value.stringBytes, hquote]
  omega

/-! ## Documents -/

namespace Value

def numberText : Number → List Char
  | .posInt n => (toString n).toList
  | .negInt n => (toString n).toList
  | .float repr => repr.toList

mutual
/-- The compact text of a document. -/
def text : Value → List Char
  | .null => "null".toList
  | .bool true => "true".toList
  | .bool false => "false".toList
  | .number n => numberText n
  | .string s => quote s
  | .array items => '[' :: itemsText items ++ [']']
  | .object members => '\x7b' :: membersText members ++ ['\x7d']

def itemsText : List Value → List Char
  | [] => []
  | [v] => text v
  | v :: w :: rest => text v ++ ',' :: itemsText (w :: rest)

def membersText : List (String × Value) → List Char
  | [] => []
  | [(k, v)] => quote k ++ ':' :: text v
  | (k, v) :: m :: rest => quote k ++ ':' :: text v ++ ',' :: membersText (m :: rest)
end

def compact (v : Value) : String :=
  .ofList (text v)

theorem utf8Bytes_numberText (n : Number) : utf8Bytes (numberText n) = numberBytes n := by
  cases n with
  | posInt n =>
    change utf8Bytes n.repr.toList = n.repr.length
    rw [Nat.toList_repr, utf8Bytes_toDigits]
  | negInt n =>
    change utf8Bytes (Int.repr n.toInt).toList = (Int.repr n.toInt).length
    cases n.toInt with
    | ofNat m =>
      change utf8Bytes m.repr.toList = m.repr.length
      rw [Nat.toList_repr, utf8Bytes_toDigits]
    | negSucc m =>
      change utf8Bytes ("-" ++ (m + 1).repr).toList = ("-" ++ (m + 1).repr).length
      have hminus : utf8Bytes "-".toList = 1 := by decide
      rw [String.toList_append, utf8Bytes_append, Nat.toList_repr, utf8Bytes_toDigits, hminus,
        String.length_append]
      rfl
  | float repr =>
    change utf8Bytes repr.toList = repr.utf8ByteSize
    rw [← utf8ByteSize_ofList, String.ofList_toList]

mutual
theorem utf8Bytes_text (v : Value) : utf8Bytes (text v) = v.bytes := by
  match v with
  | .null => decide
  | .bool true => decide
  | .bool false => decide
  | .number n => exact utf8Bytes_numberText n
  | .string s => exact utf8Bytes_quote s
  | .array items =>
    have hitems := utf8Bytes_itemsText items
    have hopen : '['.utf8Size = 1 := by decide
    have hclose : ']'.utf8Size = 1 := by decide
    simp only [text, bytes, List.cons_append, utf8Bytes_cons, utf8Bytes_append, utf8Bytes_nil,
      hitems, hopen, hclose]
    omega
  | .object members =>
    have hmembers := utf8Bytes_membersText members
    have hopen : '\x7b'.utf8Size = 1 := by decide
    have hclose : '\x7d'.utf8Size = 1 := by decide
    simp only [text, bytes, List.cons_append, utf8Bytes_cons, utf8Bytes_append, utf8Bytes_nil,
      hmembers, hopen, hclose]
    omega
termination_by structural v

theorem utf8Bytes_itemsText (items : List Value) :
    utf8Bytes (itemsText items) = (items.length - 1) + itemBytes items := by
  match items with
  | [] => rfl
  | [v] =>
    have hv := utf8Bytes_text v
    simp [itemsText, itemBytes, hv]
  | v :: w :: rest =>
    have hv := utf8Bytes_text v
    have hrest := utf8Bytes_itemsText (w :: rest)
    have hcomma : ','.utf8Size = 1 := by decide
    have hbytes : itemBytes (v :: w :: rest) = v.bytes + itemBytes (w :: rest) := rfl
    simp only [itemsText, utf8Bytes_append, utf8Bytes_cons, hv, hrest, hcomma, hbytes,
      List.length_cons]
    omega
termination_by structural items

theorem utf8Bytes_membersText (members : List (String × Value)) :
    utf8Bytes (membersText members) = (members.length - 1) + memberBytes members := by
  match members with
  | [] => rfl
  | [(k, v)] =>
    have hv := utf8Bytes_text v
    have hcolon : ':'.utf8Size = 1 := by decide
    simp only [membersText, memberBytes, utf8Bytes_append, utf8Bytes_cons, hv, hcolon,
      utf8Bytes_quote, List.length_cons, List.length_nil]
    omega
  | (k, v) :: m :: rest =>
    have hv := utf8Bytes_text v
    have hrest := utf8Bytes_membersText (m :: rest)
    have hcomma : ','.utf8Size = 1 := by decide
    have hcolon : ':'.utf8Size = 1 := by decide
    have hbytes : memberBytes ((k, v) :: m :: rest) =
        stringBytes k + 1 + v.bytes + memberBytes (m :: rest) := rfl
    simp only [membersText, utf8Bytes_append, utf8Bytes_cons, hv, hrest, hcomma, hcolon,
      utf8Bytes_quote, hbytes, List.length_cons]
    omega
termination_by structural members
end

/-- The bytes of a document are those of its compact text. -/
theorem utf8ByteSize_compact (v : Value) : (compact v).utf8ByteSize = v.bytes := by
  rw [compact, utf8ByteSize_ofList, utf8Bytes_text]

end Value

end WorkflowForge.Lib
