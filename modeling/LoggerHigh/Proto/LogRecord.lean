import LoggerHigh.Basic
import LoggerHigh.Lib.ProtoWire
import Mathlib.Tactic.Common

/-!
# The message of a record

`proto/log_record.proto`. What the generated code does is the parameter
`Protobuf`: a string field takes any bytes when it is written, and only UTF-8
when it is read.

## Main definitions

- `LogRecord` — the message
- `IsUtf8`, `LogRecord.Utf8` — what the reader admits
- `Protobuf` — `SerializeToString` and `ParseFromString`
- `wireProtobuf` — the wire format

## Main results

- `LogRecord.ofFields_fields` — the fields that are written give the record back
-/

namespace LoggerHigh

open ProtoWire

/-- `LogLevel`, an enumeration over `std::uint8_t`: it has other values than those
with a name. -/
abbrev LogLevel := UInt8

/-- The message `LogRecord`; its strings are kept as they came in. -/
structure LogRecord where
  level : UInt32
  timeNs : Int64
  loggerName : Bytes
  file : Bytes
  line : UInt32
  func : Bytes
  message : Bytes
  pid : UInt64
  tid : UInt64
  deriving DecidableEq, Repr

/-- The bytes are UTF-8. -/
def IsUtf8 (b : Bytes) : Prop := (ByteArray.mk b.toArray).IsValidUTF8

instance : DecidablePred IsUtf8 := fun _ => inferInstanceAs (Decidable (ByteArray.IsValidUTF8 _))

/-- All string fields are UTF-8. -/
def LogRecord.Utf8 (r : LogRecord) : Prop :=
  IsUtf8 r.loggerName ∧ IsUtf8 r.file ∧ IsUtf8 r.func ∧ IsUtf8 r.message

instance (r : LogRecord) : Decidable r.Utf8 := inferInstanceAs (Decidable (_ ∧ _))

/-- What protobuf generates from the message. -/
structure Protobuf where
  /-- fails for what takes 2 GiB or more -/
  serializeToString : LogRecord → Option Bytes
  parseFromString : Bytes → Option LogRecord
  length_lt : ∀ {r : LogRecord} {body : Bytes}, serializeToString r = some body →
    body.length < 2 ^ 31
  /-- what is written for a record is read back exactly if its strings are UTF-8 -/
  parse_serialize : ∀ {r : LogRecord} {body : Bytes}, serializeToString r = some body →
    parseFromString body = if r.Utf8 then some r else none

-- ═══════════════════════════════════════════════════════════════════════════
-- The wire format
-- ═══════════════════════════════════════════════════════════════════════════

/-- A message in which no field is set. -/
def LogRecord.empty : LogRecord := ⟨0, 0, [], [], 0, [], [], 0, 0⟩

/-- The value of a field that is not set. -/
def isDefault : Value → Bool
  | .varint n => n == 0
  | .len bytes => bytes.isEmpty
  | .fixed64 _ | .fixed32 _ => false

/-- The fields with their numbers. -/
def LogRecord.allFields (r : LogRecord) : List (ℕ × Value) :=
  [(1, .varint r.level.toNat), (2, .varint r.timeNs.toUInt64.toNat), (3, .len r.loggerName),
    (4, .len r.file), (5, .varint r.line.toNat), (6, .len r.func), (7, .len r.message),
    (8, .varint r.pid.toNat), (9, .varint r.tid.toNat)]

/-- Those that are written. -/
def LogRecord.fields (r : LogRecord) : List (ℕ × Value) :=
  r.allFields.filter fun f => !isDefault f.2

/-- A field is read; one that the message does not have is skipped. -/
def LogRecord.merge (r : LogRecord) (f : ℕ × Value) : Option LogRecord :=
  let text (b : Bytes) (put : Bytes → LogRecord) := if IsUtf8 b then some (put b) else none
  match f with
  | (1, .varint n) => some { r with level := UInt32.ofNat n }
  | (2, .varint n) => some { r with timeNs := (UInt64.ofNat n).toInt64 }
  | (3, .len b) => text b fun b => { r with loggerName := b }
  | (4, .len b) => text b fun b => { r with file := b }
  | (5, .varint n) => some { r with line := UInt32.ofNat n }
  | (6, .len b) => text b fun b => { r with func := b }
  | (7, .len b) => text b fun b => { r with message := b }
  | (8, .varint n) => some { r with pid := UInt64.ofNat n }
  | (9, .varint n) => some { r with tid := UInt64.ofNat n }
  | _ => some r

/-- The message with these fields. -/
def LogRecord.ofFields (fields : List (ℕ × Value)) : Option LogRecord :=
  fields.foldlM LogRecord.merge .empty

/-- A field that is read unless it has been left out. -/
def LogRecord.take (r : LogRecord) (f : ℕ × Value) : Option LogRecord :=
  if isDefault f.2 then some r else r.merge f

theorem LogRecord.foldlM_merge (fields : List (ℕ × Value)) (r : LogRecord) :
    (fields.filter fun f => !isDefault f.2).foldlM LogRecord.merge r =
      fields.foldlM LogRecord.take r := by
  induction fields generalizing r with
  | nil => rfl
  | cons f fields ih =>
    rw [List.foldlM_cons, LogRecord.take]
    by_cases hf : isDefault f.2 = true
    · rw [List.filter_cons_of_neg (by simp [hf]), if_pos hf, ih]
      rfl
    · rw [List.filter_cons_of_pos (by simp [hf]), if_neg hf, List.foldlM_cons]
      exact congrArg (r.merge f >>= ·) (funext ih)

theorem LogRecord.take_varint {r r' : LogRecord} {num n : ℕ}
    (hmerge : r.merge (num, .varint n) = some r') (hzero : n = 0 → r' = r) :
    r.take (num, .varint n) = some r' := by
  rw [LogRecord.take]
  by_cases hn : n = 0
  · rw [if_pos (by simp [isDefault, hn]), hzero hn]
  · rw [if_neg (by simp [isDefault, hn]), hmerge]

theorem LogRecord.take_len {r r' : LogRecord} {num : ℕ} {b : Bytes}
    (hmerge : r.merge (num, .len b) = if IsUtf8 b then some r' else none)
    (hempty : b = [] → r' = r) :
    r.take (num, .len b) = if IsUtf8 b then some r' else none := by
  rw [LogRecord.take]
  by_cases hb : b = []
  · rw [if_pos (by simp [isDefault, hb]), hb, if_pos (by decide), hempty hb]
  · rw [if_neg (by simp [isDefault, hb]), hmerge]

/-- The fields that are written give the record back if its strings are UTF-8. -/
theorem LogRecord.ofFields_fields (r : LogRecord) :
    LogRecord.ofFields r.fields = if r.Utf8 then some r else none := by
  obtain ⟨level, timeNs, loggerName, file, line, func, message, pid, tid⟩ := r
  rw [LogRecord.ofFields, LogRecord.fields, LogRecord.foldlM_merge, LogRecord.allFields]
  have hlevel : LogRecord.empty.take (1, .varint level.toNat) =
      some ⟨level, 0, [], [], 0, [], [], 0, 0⟩ := by
    refine take_varint ?_ fun h => ?_
    · simp [LogRecord.merge, LogRecord.empty]
    · rw [UInt32.toNat_inj.mp (show level.toNat = (0 : UInt32).toNat from h)]
      rfl
  have htime : LogRecord.take ⟨level, 0, [], [], 0, [], [], 0, 0⟩
      (2, .varint timeNs.toUInt64.toNat) = some ⟨level, timeNs, [], [], 0, [], [], 0, 0⟩ := by
    refine take_varint ?_ fun h => ?_
    · simp [LogRecord.merge]
    · have hzero : timeNs.toUInt64 = 0 := UInt64.toNat_inj.mp h
      have htime : timeNs = 0 := by
        rw [← Int64.toInt64_toUInt64 timeNs, hzero]
        rfl
      rw [htime]
  have hname : LogRecord.take ⟨level, timeNs, [], [], 0, [], [], 0, 0⟩ (3, .len loggerName) =
      if IsUtf8 loggerName then some ⟨level, timeNs, loggerName, [], 0, [], [], 0, 0⟩ else none :=
    take_len rfl fun h => by rw [h]
  have hfile : LogRecord.take ⟨level, timeNs, loggerName, [], 0, [], [], 0, 0⟩ (4, .len file) =
      if IsUtf8 file then some ⟨level, timeNs, loggerName, file, 0, [], [], 0, 0⟩ else none :=
    take_len rfl fun h => by rw [h]
  have hline : LogRecord.take ⟨level, timeNs, loggerName, file, 0, [], [], 0, 0⟩
      (5, .varint line.toNat) = some ⟨level, timeNs, loggerName, file, line, [], [], 0, 0⟩ := by
    refine take_varint ?_ fun h => ?_
    · simp [LogRecord.merge]
    · rw [UInt32.toNat_inj.mp (show line.toNat = (0 : UInt32).toNat from h)]
  have hfunc : LogRecord.take ⟨level, timeNs, loggerName, file, line, [], [], 0, 0⟩
      (6, .len func) =
      if IsUtf8 func then some ⟨level, timeNs, loggerName, file, line, func, [], 0, 0⟩ else none :=
    take_len rfl fun h => by rw [h]
  have hmessage : LogRecord.take ⟨level, timeNs, loggerName, file, line, func, [], 0, 0⟩
      (7, .len message) = if IsUtf8 message then
        some ⟨level, timeNs, loggerName, file, line, func, message, 0, 0⟩ else none :=
    take_len rfl fun h => by rw [h]
  have hpid : LogRecord.take ⟨level, timeNs, loggerName, file, line, func, message, 0, 0⟩
      (8, .varint pid.toNat) =
      some ⟨level, timeNs, loggerName, file, line, func, message, pid, 0⟩ := by
    refine take_varint ?_ fun h => ?_
    · simp [LogRecord.merge]
    · rw [UInt64.toNat_inj.mp (show pid.toNat = (0 : UInt64).toNat from h)]
  have htid : LogRecord.take ⟨level, timeNs, loggerName, file, line, func, message, pid, 0⟩
      (9, .varint tid.toNat) =
      some ⟨level, timeNs, loggerName, file, line, func, message, pid, tid⟩ := by
    refine take_varint ?_ fun h => ?_
    · simp [LogRecord.merge]
    · rw [UInt64.toNat_inj.mp (show tid.toNat = (0 : UInt64).toNat from h)]
  simp only [List.foldlM_cons, List.foldlM_nil, hlevel, htime, hname, Option.bind_eq_bind,
    Option.bind_some, LogRecord.Utf8]
  by_cases hloggerName : IsUtf8 loggerName
  · simp only [hloggerName, if_true, Option.bind_some, hfile]
    by_cases hfile : IsUtf8 file
    · simp only [hfile, if_true, Option.bind_some, hline, hfunc]
      by_cases hfunc : IsUtf8 func
      · simp only [hfunc, if_true, Option.bind_some, hmessage]
        by_cases hmessage : IsUtf8 message
        · simp [hmessage, hpid, htid]
        · simp [hmessage]
      · simp [hfunc]
    · simp [hfile]
  · simp [hloggerName]

/-- What is written fits. -/
theorem LogRecord.fits_fields {r : LogRecord}
    (hlength : (ProtoWire.message r.fields).length < 2 ^ 31) : ∀ f ∈ r.fields, FieldFits f := by
  intro f hf
  have hall : f ∈ r.allFields := List.mem_of_mem_filter hf
  have hlen : ∀ {num bytes}, f = (num, .len bytes) → bytes.length < 2 ^ 64 := by
    rintro num bytes rfl
    have := length_le_of_mem hf
    omega
  have hlevel := r.level.toNat_lt
  have htime := r.timeNs.toUInt64.toNat_lt
  have hline := r.line.toNat_lt
  have hnum : 0 < f.1 ∧ f.1 < 2 ^ 29 := by
    simp only [LogRecord.allFields, List.mem_cons, List.not_mem_nil, or_false] at hall
    rcases hall with rfl | rfl | rfl | rfl | rfl | rfl | rfl | rfl | rfl <;> simp
  refine ⟨hnum.1, hnum.2, ?_⟩
  simp only [LogRecord.allFields, List.mem_cons, List.not_mem_nil, or_false] at hall
  rcases hall with rfl | rfl | rfl | rfl | rfl | rfl | rfl | rfl | rfl
  · exact Nat.lt_trans hlevel (by decide)
  · exact htime
  · exact hlen rfl
  · exact hlen rfl
  · exact Nat.lt_trans hline (by decide)
  · exact hlen rfl
  · exact hlen rfl
  · exact r.pid.toNat_lt
  · exact r.tid.toNat_lt

/-- protobuf's wire format. -/
def wireProtobuf : Protobuf where
  serializeToString r :=
    let body := ProtoWire.message r.fields
    if body.length < 2 ^ 31 then some body else none
  parseFromString body := (readMessage body).bind LogRecord.ofFields
  length_lt := by
    intro r body h
    simp only at h
    split at h
    · next hlength =>
      cases h
      exact hlength
    · cases h
  parse_serialize := by
    intro r body h
    simp only at h
    split at h
    · next hlength =>
      cases h
      rw [readMessage_message (LogRecord.fits_fields hlength), Option.bind_some,
        LogRecord.ofFields_fields]
    · cases h

end LoggerHigh
