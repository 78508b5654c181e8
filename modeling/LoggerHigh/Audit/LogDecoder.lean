import LoggerHigh.Lib.Json
import LoggerHigh.Proto.LogRecord
import LoggerHigh.Sinks.LocalTime

/-!
# The decoder's output

`log_decoder --json` prints one JSON object a line for each record. The strings of
a record hold any bytes; read as JSON, its line gives back every field.

## Main definitions

- `jsonEscapeAppend`, `formatTimeIso`, `levelName` — the parts of a line
- `printRecordJson` — the line of a record
- `LogRecord.toJson`, `AuditFields` — what a line stands for, and the fields in it

## Main results

- `jsonEscape_byte` — every byte is read back
- `printRecordJson_eq` — the line is the text of an object
- `json_lines_unambiguous` — lines are told apart, and each gives its record back
-/

namespace LoggerHigh

/-- `ToString` -/
def LogLevel.toString (level : LogLevel) : List Char :=
  match level.toNat with
  | 0 => "trace".toList
  | 1 => "debug".toList
  | 2 => "info".toList
  | 3 => "warn".toList
  | 4 => "error".toList
  | 5 => "critical".toList
  | 6 => "off".toList
  | _ => "unknown".toList

/-- A string literal. -/
def text (s : String) : Bytes := Json.ascii s.toList

/-- `LevelName`; the conversion to the enumeration keeps eight bits. -/
def levelName (levelValue : UInt32) : Bytes := Json.ascii (LogLevel.toString levelValue.toUInt8)

/-- `std::to_string` -/
def stdToString (n : ℤ) : Bytes := Json.integer n

/-- `strftime` with `%Y-%m-%dT%H:%M:%S` -/
def strftimeIso (tm : Tm) : List Char :=
  formatInt 1 (tm.tmYear + 1900) ++ ['-'] ++ formatInt 2 (tm.tmMon + 1) ++ ['-'] ++
    formatInt 2 tm.tmMday ++ ['T'] ++ formatInt 2 tm.tmHour ++ [':'] ++ formatInt 2 tm.tmMin ++
    [':'] ++ formatInt 2 tm.tmSec

/-- `FormatTimeIso`; `gmtime_r` has no offset. -/
def formatTimeIso (timeNs : Int64) : Bytes :=
  let secs := secondsOf timeNs.toInt
  let subNs := timeNs.toInt.tmod (10 ^ 9)
  let tm := civilTime (kEpochSecond + secs).toNat
  Json.ascii (strftimeIso tm ++ ['.'] ++ formatInt 9 subNs ++ ['Z'])

/-- `%04x` -/
def formatHex4 (n : ℕ) : List Char :=
  List.replicate (4 - (Nat.toDigits 16 n).length) '0' ++ Nat.toDigits 16 n

/-- What the `switch` of `JsonEscapeAppend` appends for a character. -/
def jsonEscape (c : UInt8) : Bytes :=
  if c = 34 then text "\\\""
  else if c = 92 then text "\\\\"
  else if c = 8 then text "\\b"
  else if c = 12 then text "\\f"
  else if c = 10 then text "\\n"
  else if c = 13 then text "\\r"
  else if c = 9 then text "\\t"
  else if c.toNat < 0x20 then Json.ascii ("\\u".toList ++ formatHex4 c.toNat)
  else [c]

/-- `JsonEscapeAppend` -/
def jsonEscapeAppend (dst s : Bytes) : Bytes :=
  s.foldl (fun dst c => dst ++ jsonEscape c) (dst ++ [34]) ++ [34]

/-- `PrintRecordJson`: what is written to the standard output. -/
def printRecordJson (r : LogRecord) : Bytes :=
  let out := text "\x7b\"time\":"
  let out := jsonEscapeAppend out (formatTimeIso r.timeNs)
  let out := out ++ text ",\"time_ns\":"
  let out := out ++ stdToString r.timeNs.toInt
  let out := out ++ text ",\"level\":"
  let out := jsonEscapeAppend out (levelName r.level)
  let out := out ++ text ",\"logger\":"
  let out := jsonEscapeAppend out r.loggerName
  let out := out ++ text ",\"pid\":"
  let out := out ++ stdToString r.pid.toNat
  let out := out ++ text ",\"tid\":"
  let out := out ++ stdToString r.tid.toNat
  let out := out ++ text ",\"file\":"
  let out := jsonEscapeAppend out r.file
  let out := out ++ text ",\"line\":"
  let out := out ++ stdToString r.line.toNat
  let out := out ++ text ",\"func\":"
  let out := jsonEscapeAppend out r.func
  let out := out ++ text ",\"message\":"
  let out := jsonEscapeAppend out r.message
  out ++ text "\x7d\n"

/-- The object a record is printed as. -/
def LogRecord.toJson (r : LogRecord) : Json.Value :=
  .object [
    (text "time", .string (formatTimeIso r.timeNs)),
    (text "time_ns", .number r.timeNs.toInt 0),
    (text "level", .string (levelName r.level)),
    (text "logger", .string r.loggerName),
    (text "pid", .number r.pid.toNat 0),
    (text "tid", .number r.tid.toNat 0),
    (text "file", .string r.file),
    (text "line", .number r.line.toNat 0),
    (text "func", .string r.func),
    (text "message", .string r.message)]

/-- What an audit takes from a line. -/
structure AuditFields where
  timeNs : ℤ
  logger : Bytes
  pid : ℤ
  tid : ℤ
  file : Bytes
  line : ℤ
  func : Bytes
  message : Bytes
  deriving DecidableEq, Repr

/-- The fields of a record an audit takes. -/
def LogRecord.auditFields (r : LogRecord) : AuditFields :=
  ⟨r.timeNs.toInt, r.loggerName, r.pid.toNat, r.tid.toNat, r.file, r.line.toNat, r.func, r.message⟩

/-- A member of an object, by its name. -/
def memberOf (name : Bytes) : Json.Value → Option Json.Value
  | .object members => members.lookup name
  | _ => none

/-- A value that is an integer. -/
def asInteger : Json.Value → Option ℤ
  | .number mantissa 0 => some mantissa
  | _ => none

/-- A value that is a string. -/
def asString : Json.Value → Option Bytes
  | .string s => some s
  | _ => none

/-- The fields in a value. -/
def AuditFields.ofJson (v : Json.Value) : Option AuditFields := do
  let timeNs ← (memberOf (text "time_ns") v).bind asInteger
  let logger ← (memberOf (text "logger") v).bind asString
  let pid ← (memberOf (text "pid") v).bind asInteger
  let tid ← (memberOf (text "tid") v).bind asInteger
  let file ← (memberOf (text "file") v).bind asString
  let line ← (memberOf (text "line") v).bind asInteger
  let func ← (memberOf (text "func") v).bind asString
  let message ← (memberOf (text "message") v).bind asString
  some ⟨timeNs, logger, pid, tid, file, line, func, message⟩

-- ═══════════════════════════════════════════════════════════════════════════
-- Strings
-- ═══════════════════════════════════════════════════════════════════════════

/-- What stands for a byte is read back, does not end the string, and has no control
character in it: of seven classes of bytes, all are gone through. -/
theorem jsonEscape_spec : ∀ n < 256,
    Json.char (jsonEscape (UInt8.ofNat n)) = some ([UInt8.ofNat n], []) ∧
      (jsonEscape (UInt8.ofNat n)).head? ≠ some 34 ∧
        Json.Printable (jsonEscape (UInt8.ofNat n)) := by
  decide +kernel

theorem jsonEscape_byte (c : UInt8) :
    Json.char (jsonEscape c) = some ([c], []) ∧ (jsonEscape c).head? ≠ some 34 ∧
      Json.Printable (jsonEscape c) := by
  have hspec := jsonEscape_spec c.toNat c.toNat_lt
  rwa [UInt8.ofNat_toNat] at hspec

theorem spells_jsonEscape (s : Bytes) : Json.Spells s (s.flatMap jsonEscape) :=
  .flatMap (fun c => ⟨(jsonEscape_byte c).1, (jsonEscape_byte c).2.1⟩) s

/-- A quote, what stands for the bytes, a quote. -/
theorem jsonEscapeAppend_eq (dst s : Bytes) :
    jsonEscapeAppend dst s = dst ++ (34 :: s.flatMap jsonEscape ++ [34]) := by
  have hfold : ∀ dst, s.foldl (fun dst c => dst ++ jsonEscape c) dst =
      dst ++ s.flatMap jsonEscape := by
    induction s with
    | nil => exact fun dst => (List.append_nil dst).symm
    | cons c s ih =>
      intro dst
      rw [List.foldl_cons, ih, List.flatMap_cons, List.append_assoc]
  rw [jsonEscapeAppend, hfold, List.append_assoc, List.append_assoc, List.singleton_append]
  rfl

example : jsonEscapeAppend [] [97, 34, 10, 1, 200] =
    text "\"a\\\"\\n\\u0001" ++ [200, 34] := by decide

-- ═══════════════════════════════════════════════════════════════════════════
-- Lines
-- ═══════════════════════════════════════════════════════════════════════════

/-- The text before a member's value. -/
theorem text_member :
    text "\x7b\"time\":" = 123 :: 34 :: text "time" ++ [34, 58] ∧
      text ",\"time_ns\":" = 44 :: 34 :: text "time_ns" ++ [34, 58] ∧
      text ",\"level\":" = 44 :: 34 :: text "level" ++ [34, 58] ∧
      text ",\"logger\":" = 44 :: 34 :: text "logger" ++ [34, 58] ∧
      text ",\"pid\":" = 44 :: 34 :: text "pid" ++ [34, 58] ∧
      text ",\"tid\":" = 44 :: 34 :: text "tid" ++ [34, 58] ∧
      text ",\"file\":" = 44 :: 34 :: text "file" ++ [34, 58] ∧
      text ",\"line\":" = 44 :: 34 :: text "line" ++ [34, 58] ∧
      text ",\"func\":" = 44 :: 34 :: text "func" ++ [34, 58] ∧
      text ",\"message\":" = 44 :: 34 :: text "message" ++ [34, 58] ∧
      text "\x7d\n" = [125, 10] := by
  decide

/-- The line of a record is the text of its object, and a line feed; there is no other
control character in it. -/
theorem printRecordJson_eq (r : LogRecord) :
    ∃ line, printRecordJson r = line ++ [10] ∧ Json.Reads r.toJson line ∧
      Json.Printable line := by
  have hstring : ∀ s, Json.Reads (.string s) (34 :: s.flatMap jsonEscape ++ [34]) := fun s =>
    .string (spells_jsonEscape s)
  have hescaped : ∀ s : Bytes, Json.Printable (s.flatMap jsonEscape) := by
    intro s b hb
    obtain ⟨c, -, hc⟩ := List.mem_flatMap.mp hb
    exact (jsonEscape_byte c).2.2 b hc
  refine ⟨_, ?line, .object (.cons (.plain rfl) (hstring _) <|
    .cons (.plain rfl) (.integer _) <| .cons (.plain rfl) (hstring _) <|
    .cons (.plain rfl) (hstring _) <| .cons (.plain rfl) (.integer _) <|
    .cons (.plain rfl) (.integer _) <| .cons (.plain rfl) (hstring _) <|
    .cons (.plain rfl) (.integer _) <| .cons (.plain rfl) (hstring _) <|
    .last (.plain rfl) (hstring _)), ?control⟩
  case line =>
    simp only [printRecordJson, jsonEscapeAppend_eq, text_member, stdToString, List.append_assoc,
      List.cons_append, List.nil_append]
  case control =>
    simp +decide only [Json.printable_append, Json.printable_cons, hescaped,
      Json.printable_integer, and_self]

/-- The fields are those of the record. -/
theorem ofJson_toJson (r : LogRecord) : AuditFields.ofJson r.toJson = some r.auditFields := rfl

/-- What `main` prints for the records of a shard with `--json`. -/
def printRecordsJson (records : List LogRecord) : Bytes := records.flatMap printRecordJson

/-- The lines of an output are those of the records. -/
theorem exists_lines (records : List LogRecord) :
    ∃ lines : List Bytes, printRecordsJson records = lines.flatMap (· ++ [10]) ∧
      (∀ line ∈ lines, 10 ∉ line) ∧
      lines.map Json.parse = records.map fun r => some r.toJson := by
  induction records with
  | nil => exact ⟨[], rfl, nofun, rfl⟩
  | cons r records ih =>
    obtain ⟨lines, houtput, hfeed, hparse⟩ := ih
    obtain ⟨line, hline, hreads, hprintable⟩ := printRecordJson_eq r
    have hread : Json.parse (line ++ []) = some r.toJson := Json.parse_of_reads hreads rfl
    rw [List.append_nil] at hread
    refine ⟨line :: lines, ?output, ?feed, ?parse⟩
    case output =>
      rw [List.flatMap_cons, ← hline, ← houtput]
      exact List.flatMap_cons
    case feed =>
      exact List.forall_mem_cons.mpr ⟨fun hmem => absurd (hprintable 10 hmem) (by decide), hfeed⟩
    case parse => rw [List.map_cons, List.map_cons, hread, hparse]

/-- The line of a record has one line feed, at its end, and read as JSON it is the
record's object, with its fields; an output of many lines is read as the objects of
the records, one a line. -/
theorem json_lines_unambiguous :
    (∀ r : LogRecord, (∃ line, printRecordJson r = line ++ [10] ∧ 10 ∉ line) ∧
      Json.parse (printRecordJson r) = some r.toJson ∧
      (Json.parse (printRecordJson r)).bind AuditFields.ofJson = some r.auditFields) ∧
    ∀ records : List LogRecord, ∃ lines : List Bytes,
      (printRecordsJson records).splitOn 10 = lines ++ [[]] ∧
      lines.map Json.parse = records.map fun r => some r.toJson := by
  refine ⟨fun r => ?_, fun records => ?_⟩
  · obtain ⟨line, hline, hreads, hprintable⟩ := printRecordJson_eq r
    have hread : Json.parse (printRecordJson r) = some r.toJson := by
      rw [hline]
      exact Json.parse_of_reads hreads rfl
    refine ⟨⟨line, hline, fun hmem => absurd (hprintable 10 hmem) (by decide)⟩, hread, ?_⟩
    rw [hread]
    exact ofJson_toJson r
  · obtain ⟨lines, houtput, hfeed, hparse⟩ := exists_lines records
    exact ⟨lines, by rw [houtput, Json.splitOn_lines hfeed], hparse⟩

end LoggerHigh
