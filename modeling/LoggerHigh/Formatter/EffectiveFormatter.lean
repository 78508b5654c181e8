import LoggerHigh.Proto.LogRecord

/-!
# EffectiveFormatter

`formatter/effective_formatter.cpp` with `handle/log_msg.h` and
`utils/source_location.h`: a `LogMsg` becomes the bytes of a `LogRecord`.

## Main definitions

- `LogMsg`, `SourceLocation` — what is logged
- `logRecord` — the record of a message
- `format` — `EffectiveFormatter::Format`
- `LogMsg.RecordedAs` — a record shows what has been logged

## Main results

- `recordedAs_logRecord` — the record of a message shows it
-/

namespace LoggerHigh

/-- What a `const char*` other than a null pointer points to, up to its final zero. -/
structure CString where
  bytes : Bytes
  zero_notMem : 0 ∉ bytes
  deriving DecidableEq

/-- `SourceLocation`; `none` is the null pointer. -/
structure SourceLocation where
  file : Option CString
  line : Int32
  func : Option CString
  deriving DecidableEq

/-- `SourceLocation::empty` -/
def SourceLocation.empty (loc : SourceLocation) : Bool := loc.file.isNone

/-- `LogMsg`; `time` counts nanoseconds since the epoch, as `system_clock` does. -/
structure LogMsg where
  level : LogLevel
  time : Int64
  loggerName : Bytes
  loc : SourceLocation
  message : Bytes
  deriving DecidableEq

/-- The string, or the empty one for a null pointer. -/
def cstr (p : Option CString) : Bytes :=
  match p with
  | some s => s.bytes
  | none => []

/-- The message `Format` fills in. -/
def logRecord (msg : LogMsg) (pid tid : UInt64) : LogRecord where
  level := msg.level.toUInt32
  timeNs := msg.time
  loggerName := msg.loggerName
  file := if msg.loc.empty then [] else cstr msg.loc.file
  line := if msg.loc.empty then 0 else msg.loc.line.toUInt32
  func := if msg.loc.empty then [] else cstr msg.loc.func
  message := msg.message
  pid := pid
  tid := tid

/-- `Format`, where `pid` and `tid` are what `GetPid` and `GetTid` return. -/
def format (protobuf : Protobuf) (msg : LogMsg) (pid tid : UInt64) (out : Bytes) :
    Except String Bytes :=
  match protobuf.serializeToString (logRecord msg pid tid) with
  | none => .error "EffectiveFormatter: SerializeToString failed"
  | some body => .ok (out ++ body)

/-- The strings of the message are UTF-8. -/
structure LogMsg.Utf8 (msg : LogMsg) : Prop where
  loggerName : IsUtf8 msg.loggerName
  file : ∀ s ∈ msg.loc.file, IsUtf8 s.bytes
  func : ∀ s ∈ msg.loc.func, IsUtf8 s.bytes
  message : IsUtf8 msg.message

/-- The record shows the message: an empty source location as empty strings and
line 0, another one as it is. -/
structure LogMsg.RecordedAs (msg : LogMsg) (r : LogRecord) : Prop where
  level : r.level.toNat = msg.level.toNat
  timeNs : r.timeNs = msg.time
  loggerName : r.loggerName = msg.loggerName
  nowhere : msg.loc.file = none → r.file = [] ∧ r.line = 0 ∧ r.func = []
  somewhere : ∀ file ∈ msg.loc.file, r.file = file.bytes ∧ r.line.toInt32 = msg.loc.line ∧
    r.func = cstr msg.loc.func
  message : r.message = msg.message

theorem recordedAs_logRecord (msg : LogMsg) (pid tid : UInt64) :
    msg.RecordedAs (logRecord msg pid tid) := by
  refine ⟨UInt8.toNat_toUInt32 _, rfl, rfl, fun hnone => ?_, fun file hfile => ?_, rfl⟩
  · have hempty : msg.loc.empty = true := by rw [SourceLocation.empty, hnone]; rfl
    simp only [logRecord, hempty, if_true, and_self]
  · have hempty : msg.loc.empty = false := by rw [SourceLocation.empty, hfile]; rfl
    have hsome : msg.loc.file = some file := hfile
    simp only [logRecord, hempty, Bool.false_eq_true, if_false, hsome, cstr, true_and, and_true]
    exact Int32.toInt32_toUInt32 _

/-- The record of a message in UTF-8 is in UTF-8. -/
theorem LogMsg.Utf8.logRecord {msg : LogMsg} (h : msg.Utf8) (pid tid : UInt64) :
    (logRecord msg pid tid).Utf8 := by
  have hcstr : ∀ {p : Option CString}, (∀ s ∈ p, IsUtf8 s.bytes) → IsUtf8 (cstr p) := by
    intro p hp
    cases p with
    | none => exact ByteArray.isValidUTF8_empty
    | some s => exact hp s rfl
  have hif : ∀ {b : Bytes}, IsUtf8 b → IsUtf8 (if msg.loc.empty then [] else b) := by
    intro b hb
    split
    · exact ByteArray.isValidUTF8_empty
    · exact hb
  exact ⟨h.loggerName, hif (hcstr h.file), hif (hcstr h.func), h.message⟩

theorem format_eq_ok {protobuf : Protobuf} {msg : LogMsg} {pid tid : UInt64} {body : Bytes}
    (h : format protobuf msg pid tid [] = .ok body) :
    protobuf.serializeToString (logRecord msg pid tid) = some body := by
  rw [format] at h
  split at h
  · cases h
  · next heq =>
    cases h
    exact heq

end LoggerHigh
