import Mathlib.Algebra.Order.Group.Nat
import Mathlib.Data.List.Basic
import Mathlib.Tactic.Common

/-!
# The wire format of protobuf messages

A message is a sequence of fields, each a tag with its number and wire type and
then its value. What is written is read back, and nothing of what follows it.

## Main definitions

- `varint`, `readVarint` — base-128 numbers
- `Value`, `field`, `readField` — one field; groups are left out
- `message`, `readMessage` — a message

## Main results

- `readField_field` — a field is read back
- `readMessage_message` — a whole message is
-/

namespace ProtoWire

abbrev Bytes := List UInt8

/-- `n` in groups of seven bits, the lowest first, in at most `k` bytes. -/
def encodeVarint : ℕ → ℕ → Bytes
  | 0, _ => []
  | k + 1, n =>
    if n < 128 then [UInt8.ofNat n] else UInt8.ofNat (n % 128 + 128) :: encodeVarint k (n / 128)

/-- The same backwards, with what is left of the input. -/
def decodeVarint : ℕ → Bytes → Option (ℕ × Bytes)
  | 0, _ => none
  | _ + 1, [] => none
  | k + 1, b :: rest =>
    if b.toNat < 128 then some (b.toNat, rest)
    else (decodeVarint k rest).map fun r => (b.toNat - 128 + 128 * r.1, r.2)

/-- A number has ten bytes at most. -/
def varint (n : ℕ) : Bytes := encodeVarint 10 n

/-- What is over 64 bits is dropped. -/
def readVarint (input : Bytes) : Option (ℕ × Bytes) :=
  (decodeVarint 10 input).map fun r => (r.1 % 2 ^ 64, r.2)

/-- The value of a field. -/
inductive Value
  | varint (n : ℕ)
  | fixed64 (bytes : Bytes)
  | len (bytes : Bytes)
  | fixed32 (bytes : Bytes)
  deriving DecidableEq

/-- The wire type. -/
def Value.wireType : Value → ℕ
  | .varint _ => 0
  | .fixed64 _ => 1
  | .len _ => 2
  | .fixed32 _ => 5

/-- The value as it is written. -/
def Value.bytes : Value → Bytes
  | .varint n => ProtoWire.varint n
  | .fixed64 bytes | .fixed32 bytes => bytes
  | .len bytes => ProtoWire.varint bytes.length ++ bytes

/-- A value that can be written. -/
def Value.Fits : Value → Prop
  | .varint n => n < 2 ^ 64
  | .fixed64 bytes => bytes.length = 8
  | .len bytes => bytes.length < 2 ^ 64
  | .fixed32 bytes => bytes.length = 4

/-- The field with number `num`. -/
def field (num : ℕ) (v : Value) : Bytes := varint (8 * num + v.wireType) ++ v.bytes

/-- The first `n` bytes and the rest. -/
def takeExactly (n : ℕ) (input : Bytes) : Option (Bytes × Bytes) :=
  if n ≤ input.length then some (input.take n, input.drop n) else none

/-- The value of a field by its wire type. -/
def readValue (wireType : ℕ) (input : Bytes) : Option (Value × Bytes) :=
  match wireType with
  | 0 => (readVarint input).map fun r => (.varint r.1, r.2)
  | 1 => (takeExactly 8 input).map fun r => (.fixed64 r.1, r.2)
  | 2 => (readVarint input).bind fun r => (takeExactly r.1 r.2).map fun t => (.len t.1, t.2)
  | 5 => (takeExactly 4 input).map fun r => (.fixed32 r.1, r.2)
  | _ => none

/-- The first field and the rest. -/
def readField (input : Bytes) : Option ((ℕ × Value) × Bytes) :=
  (readVarint input).bind fun tag =>
    if tag.1 / 8 = 0 then none
    else (readValue (tag.1 % 8) tag.2).map fun r => ((tag.1 / 8, r.1), r.2)

/-- The fields one after the other. -/
def message (fields : List (ℕ × Value)) : Bytes := fields.flatMap fun f => field f.1 f.2

/-- The fields of a message of at most `k` fields. -/
def readFields : ℕ → Bytes → Option (List (ℕ × Value))
  | _, [] => some []
  | 0, _ :: _ => none
  | k + 1, b :: rest =>
    (readField (b :: rest)).bind fun r => (readFields k r.2).map (r.1 :: ·)

/-- A field takes at least one byte. -/
def readMessage (input : Bytes) : Option (List (ℕ × Value)) := readFields input.length input

-- ═══════════════════════════════════════════════════════════════════════════
-- Round trips
-- ═══════════════════════════════════════════════════════════════════════════

variable {n k num : ℕ} {v : Value} {fields : List (ℕ × Value)}

/-- A number below 128 is one byte. -/
theorem decodeVarint_of_lt (hn : n < 128) (k : ℕ) (rest : Bytes) :
    decodeVarint (k + 1) (UInt8.ofNat n :: rest) = some (n, rest) := by
  have hbyte : (UInt8.ofNat n).toNat = n := by
    rw [UInt8.toNat_ofNat']
    omega
  rw [decodeVarint, hbyte, if_pos hn]

theorem decodeVarint_encodeVarint (hn : n < 128 ^ (k + 1)) (rest : Bytes) :
    decodeVarint (k + 1) (encodeVarint (k + 1) n ++ rest) = some (n, rest) := by
  induction k generalizing n with
  | zero =>
    rw [encodeVarint, if_pos (by omega)]
    exact decodeVarint_of_lt (by omega) _ _
  | succ k ih =>
    rw [encodeVarint]
    split
    · next hlt => exact decodeVarint_of_lt hlt _ _
    · have hbyte : (UInt8.ofNat (n % 128 + 128)).toNat = n % 128 + 128 := by
        rw [UInt8.toNat_ofNat']
        omega
      have hquot : n / 128 < 128 ^ (k + 1) := by
        rw [Nat.pow_succ, Nat.mul_comm] at hn
        exact Nat.div_lt_of_lt_mul hn
      have hdivmod := Nat.mod_add_div n 128
      rw [List.cons_append, decodeVarint, if_neg (by omega), ih hquot, hbyte]
      simp only [Option.map_some, Nat.add_sub_cancel, hdivmod]

theorem readVarint_varint (hn : n < 2 ^ 64) (rest : Bytes) :
    readVarint (varint n ++ rest) = some (n, rest) := by
  have hten : n < 128 ^ (9 + 1) := Nat.lt_trans hn (by decide)
  rw [readVarint, varint, decodeVarint_encodeVarint hten, Option.map_some, Nat.mod_eq_of_lt hn]

theorem takeExactly_append (bytes rest : Bytes) :
    takeExactly bytes.length (bytes ++ rest) = some (bytes, rest) := by
  rw [takeExactly, if_pos (by simp), List.take_left, List.drop_left]

/-- A value is read back by its wire type. -/
theorem readValue_bytes (hv : v.Fits) (rest : Bytes) :
    readValue v.wireType (v.bytes ++ rest) = some (v, rest) := by
  cases v with
  | varint n =>
    rw [Value.wireType, readValue, Value.bytes, readVarint_varint hv]
    rfl
  | fixed64 bytes =>
    have hlength : bytes.length = 8 := hv
    rw [Value.wireType, readValue, Value.bytes, ← hlength, takeExactly_append]
    rfl
  | len bytes =>
    rw [Value.wireType, readValue, Value.bytes, List.append_assoc, readVarint_varint hv,
      Option.bind_some, takeExactly_append]
    rfl
  | fixed32 bytes =>
    have hlength : bytes.length = 4 := hv
    rw [Value.wireType, readValue, Value.bytes, ← hlength, takeExactly_append]
    rfl

/-- A field that can be written. -/
def FieldFits (f : ℕ × Value) : Prop := 0 < f.1 ∧ f.1 < 2 ^ 29 ∧ f.2.Fits

theorem readField_field (hnum : 0 < num ∧ num < 2 ^ 29) (hv : v.Fits) (rest : Bytes) :
    readField (field num v ++ rest) = some ((num, v), rest) := by
  have htype : v.wireType < 8 := by cases v <;> simp [Value.wireType]
  have hdiv : (8 * num + v.wireType) / 8 = num := by omega
  have hmod : (8 * num + v.wireType) % 8 = v.wireType := by omega
  rw [readField, field, List.append_assoc, readVarint_varint (by omega), Option.bind_some]
  simp only [hdiv, hmod, readValue_bytes hv, if_neg (Nat.ne_of_gt hnum.1), Option.map_some]

theorem field_ne_nil (num : ℕ) (v : Value) : field num v ≠ [] := by
  intro hnil
  have hvarint : varint (8 * num + v.wireType) = [] := (List.append_eq_nil_iff.mp hnil).1
  rw [varint, encodeVarint] at hvarint
  split at hvarint <;> cases hvarint

theorem readFields_message (h : ∀ f ∈ fields, FieldFits f) (hk : fields.length ≤ k) :
    readFields k (message fields) = some fields := by
  induction fields generalizing k with
  | nil => cases k <;> rfl
  | cons f fields ih =>
    obtain ⟨k, rfl⟩ : ∃ m, k = m + 1 := ⟨k - 1, by rw [List.length_cons] at hk; omega⟩
    have hf := h f List.mem_cons_self
    have hrest := ih (fun g hg => h g (List.mem_cons_of_mem f hg)) (Nat.le_of_succ_le_succ hk)
    have hread := readField_field ⟨hf.1, hf.2.1⟩ hf.2.2 (message fields)
    have hmessage : message (f :: fields) = field f.1 f.2 ++ message fields := List.flatMap_cons
    rw [hmessage]
    cases hbytes : field f.1 f.2 ++ message fields with
    | nil => exact absurd (List.append_eq_nil_iff.mp hbytes).1 (field_ne_nil _ _)
    | cons b rest =>
      rw [hbytes] at hread
      rw [readFields, hread, Option.bind_some, hrest]
      rfl

theorem length_le_message (fields : List (ℕ × Value)) :
    fields.length ≤ (message fields).length := by
  induction fields with
  | nil => exact Nat.le_refl _
  | cons f fields ih =>
    have hpos := List.length_pos_iff.mpr (field_ne_nil f.1 f.2)
    rw [message, List.flatMap_cons, List.length_append, ← message, List.length_cons]
    omega

/-- A string is no longer than the message it is in. -/
theorem length_le_of_mem {bytes : Bytes} (h : (num, .len bytes) ∈ fields) :
    bytes.length ≤ (message fields).length := by
  induction fields with
  | nil => cases h
  | cons f fields ih =>
    rw [message, List.flatMap_cons, List.length_append, ← message]
    rcases List.mem_cons.mp h with rfl | htail
    · rw [field, Value.bytes, List.length_append, List.length_append]
      omega
    · have := ih htail
      omega

/-- A message is read back. -/
theorem readMessage_message (h : ∀ f ∈ fields, FieldFits f) :
    readMessage (message fields) = some fields :=
  readFields_message h (length_le_message fields)

end ProtoWire
