import WorkflowForge.Lib.Except
import WorkflowForge.Protocol.Execution

/-!
# The Checkpoint Codec

Every stored body is an envelope around an encoded payload, refused when it exceeds the
record budget. The text of a document is identified with the document itself, and its
length with the length of the compact text.

## Main results

- `decode_encode`: what an encoded payload decodes to is what it reads back as.
-/

namespace WorkflowForge.Sqlite

open Lib

/-! ## Errors of the store -/

def conflict : ForgeError :=
  .new "state.conflict" "SQLite owner or revision does not match"

def corrupt : ForgeError :=
  .new "store.corrupt" "Stored checkpoint is invalid or inconsistent"

def unsupported : ForgeError :=
  .new "capability.unsupported" "SQLite schema or checkpoint version is unsupported"

def failed : ForgeError :=
  .new "store.failed" "SQLite provider is unavailable"

/-! ## Envelopes -/

/-- The envelope of an encoded payload. -/
def envelope (payload : Value) : Value :=
  .object [("format", serialize checkpointFormat), ("payload", payload)]

section Codec

variable {α : Type} [Serialize α] [Deserialize α]

def encode (value : α) (limit : Nat) : Except ForgeError Value :=
  let document := envelope (serialize value)
  if document.bytes > limit then
    .error (.new "resource.limit" "Encoded checkpoint exceeds SQLite record budget")
  else .ok document

/-- The format an envelope declares. -/
def version (document : Value) (limit : Nat) : Except ForgeError UInt32 :=
  if document.bytes > limit then
    .error (.new "resource.limit" "Stored checkpoint exceeds configured record budget")
  else
    match (members document).bind fun ms => (required ms "format" : Option UInt32) with
    | none => .error corrupt
    | some format => .ok format

/-- The payload of an envelope. -/
def payload (document : Value) : Option α := do
  let ms ← members document
  guard (onlyFields ["format", "payload"] ms)
  let _ ← (required ms "format" : Option UInt32)
  required ms "payload"

def decodeVersion (document : Value) (limit : Nat) (expected : UInt32) :
    Except ForgeError α := do
  let format ← version document limit
  ensure (format = expected) unsupported
  match payload document with
  | none => .error corrupt
  | some value => .ok value

def decode (document : Value) (limit : Nat) : Except ForgeError α :=
  decodeVersion document limit checkpointFormat

omit [Deserialize α] in
theorem encode_eq_ok {value : α} {limit : Nat} {document : Value} :
    encode value limit = .ok document ↔
      document = envelope (serialize value) ∧ document.bytes ≤ limit := by
  unfold encode
  dsimp only
  constructor
  · intro h
    split at h
    · nomatch h
    next hle =>
      obtain rfl := Except.ok.inj h
      exact ⟨rfl, Nat.le_of_not_lt hle⟩
  · rintro ⟨rfl, hle⟩
    rw [if_neg (Nat.not_lt.mpr hle)]

omit [Serialize α] in
/-- The codec adds nothing to what its payload decodes to. -/
theorem decode_envelope {v : Value} {a : α} {limit : Nat} (hv : deserialize v = some a)
    (hle : (envelope v).bytes ≤ limit) : decode (envelope v) limit = .ok a := by
  have hformat : version (envelope v) limit = .ok checkpointFormat := by
    unfold version
    rw [if_neg (Nat.not_lt.mpr hle)]
    simp [envelope]
  have hpayload : payload (envelope v) = some a := by
    simp [payload, envelope, onlyFields, hv]
  simp [decode, decodeVersion, hformat, hpayload]

/-- What an accepted encoding decodes to. -/
theorem decode_encode {a b : α} {limit : Nat} {document : Value}
    (h : encode a limit = .ok document) (hr : ReadsAs a b) : decode document limit = .ok b := by
  obtain ⟨rfl, hle⟩ := encode_eq_ok.mp h
  exact decode_envelope hr hle

end Codec

end WorkflowForge.Sqlite
