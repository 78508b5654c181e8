import LoggerHigh.Compress.Zlib
import LoggerHigh.Crypt.KeyAgreement
import LoggerHigh.Formatter.EffectiveFormatter
import LoggerHigh.Mmap.MmapStore

/-!
# EffectiveSink

`sinks/effective_sink.cpp`: `Create` puts the parts together, `Log` formats,
compresses, encrypts and frames a message and appends it to the store, whose
drains hand it to the shard writer. One thread calls the sink; the drains of
the store go on meanwhile. The eviction runner is left out.

## Main definitions

- `SinkDeps` — the libraries
- `EffectiveSinkConfig`, `SinkAnswers` — the configuration, and what the system answers
- `logFrame` — `Log` up to the call of `Append`
- `EffectiveSink`, `EffectiveSink.create` — the state, and `Create`
- `sinkStep` — the whole machine
-/

namespace LoggerHigh

/-- What the sink uses of Crypto++, zlib and protobuf; `alloc` says whether there is
memory for a buffer. -/
structure SinkDeps where
  x25519 : X25519
  hkdfSha256 : (secret salt info : Bytes) → (outLen : ℕ) → Except String Bytes
  gcm : Gcm
  zlib : Zlib
  protobuf : Protobuf
  alloc : ℕ → Bool
  length_hkdfSha256 : ∀ {secret salt info okm : Bytes} {outLen : ℕ},
    hkdfSha256 secret salt info outLen = .ok okm → okm.length = outLen

/-- The same libraries in the hands of a reader with enough memory. -/
def SinkDeps.audit (deps : SinkDeps) : AuditDeps LogRecord where
  agree := deps.x25519.agree
  hkdfSha256 := deps.hkdfSha256
  gcm := deps.gcm
  engine := deps.zlib.inflater.toInflateEngine
  alloc _ := true
  parseFromString := deps.protobuf.parseFromString
  length_hkdfSha256 := deps.length_hkdfSha256

/-- `EffectiveSinkConfig`, with the file of the server's key, the page size, and what
the files of the buffers hold before they are opened. -/
structure EffectiveSinkConfig where
  serverPubKeyPath : String
  serverPubKeyFile : KeyFile
  shardSizeBytes : UInt64
  mmapBufferBytes : ℕ
  mmapMinBuffers : ℕ
  mmapMaxBuffers : ℕ
  zlibLevel : ℤ
  page : ℕ
  bufferFiles : ℕ → Bytes

/-- `mcfg` -/
def EffectiveSinkConfig.storeConfig (cfg : EffectiveSinkConfig) : StoreConfig :=
  ⟨cfg.mmapBufferBytes, cfg.mmapMinBuffers, cfg.mmapMaxBuffers, cfg.page, cfg.bufferFiles⟩

/-- What the random generators draw, and what the system answers: the first opening
of a shard, and the opening and the `fwrite` of each call of `WriteFrame`. -/
structure SinkAnswers where
  ephPriv : Bytes
  noncePrefix : Vector UInt8 8
  dirCreated : Bool
  firstOpening : Opening
  opening : ℕ → Opening
  wrote : ℕ → ℕ

/-- The `k`th call of `WriteFrame`. -/
def SinkAnswers.call (answers : SinkAnswers) (k : ℕ) (data : Bytes) : WriteCall :=
  ⟨data, answers.opening k, min (answers.wrote k) data.length, Nat.min_le_right _ _⟩

/-- The writer, and the calls it has had. -/
structure PersistEnv where
  writer : ShardWriter
  calls : List WriteCall

/-- `OnPersist_` as the callback of the store: it catches what the writer throws. -/
def persistCallback (writerConfig : ShardWriterConfig) (answers : SinkAnswers) (env : PersistEnv)
    (data : Bytes) : PersistEnv × Bool :=
  let c := answers.call env.calls.length data
  (⟨onPersist writerConfig c env.writer, env.calls ++ [c]⟩, false)

-- ═══════════════════════════════════════════════════════════════════════════
-- Log
-- ═══════════════════════════════════════════════════════════════════════════

/-- The frame of `buf_encrypted_`; its length is cut to 32 bits. -/
def lengthFramed (encrypted : Bytes) : Bytes :=
  LittleEndian.encode 4 (encrypted.length % 2 ^ 32) ++ encrypted

/-- `Log` up to the call of `Append`, with `fuel` rounds for the loop of `Compress`: the
frame, or what is thrown. -/
def logFrame (deps : SinkDeps) (level : ℕ) (cipher : AesGcmCipher) (msg : LogMsg)
    (pid tid : UInt64) (fuel : ℕ) : Option (Except String Bytes × AesGcmCipher) :=
  match format deps.protobuf msg pid tid [] with
  | .error what => some (.error what, cipher)
  | .ok proto =>
    match compress deps.zlib.deflater.toDeflateEngine level deps.alloc proto [] fuel with
    | none => none
    | some (.threw e) => some (.error (String.ofList e.what), cipher)
    | some (.returned compressed) =>
      let encrypted := cipher.encrypt deps.gcm compressed []
      some (encrypted.1.map lengthFramed, encrypted.2)

-- ═══════════════════════════════════════════════════════════════════════════
-- The machine
-- ═══════════════════════════════════════════════════════════════════════════

/-- How far the sink's life has got: in use, in the `Flush` of its destructor, in that
of the store, or over. -/
inductive SinkPhase
  | inUse
  | dtorFlush
  | dtorStore
  | destroyed
  deriving DecidableEq

/-- A call of `Log` that came to `Append`, with the process and the thread that the
record names, and the frame. -/
structure LogEntry where
  msg : LogMsg
  pid : UInt64
  tid : UInt64
  frame : Bytes
  deriving DecidableEq

/-- The constant members of a sink. -/
structure SinkParts where
  storeConfig : StoreConfig
  writerConfig : ShardWriterConfig
  compressor : ZlibCompressor

/-- The other members; `logged` is a history variable. -/
structure EffectiveSink where
  cipher : AesGcmCipher
  store : StoreState Unit PersistEnv
  phase : SinkPhase
  logged : List LogEntry

/-- `kdf` information of the sink: `logger-high aes-256-gcm`. -/
def kSinkHkdfInfo : Bytes := "logger-high aes-256-gcm".toUTF8.toList

/-- `Create` and the constructor; `none` when one of them throws. -/
def EffectiveSink.create (deps : SinkDeps) (cfg : EffectiveSinkConfig) (answers : SinkAnswers) :
    Option (SinkParts × EffectiveSink) := do
  let serverPub ← (loadServerPublicKey cfg.serverPubKeyPath cfg.serverPubKeyFile).toOption
  let agreed ← (deriveSharedSecret deps.x25519 answers.ephPriv serverPub).toOption
  let aesKey ← (deps.hkdfSha256 agreed.2 [] kSinkHkdfInfo 32).toOption
  let compressor ← (ZlibCompressor.create cfg.zlibLevel).toOption
  let writerConfig ← (checkArguments cfg.shardSizeBytes agreed.1 answers.dirCreated).toOption
  let writer ← construct writerConfig answers.firstOpening
  let store ← StoreState.create cfg.storeConfig ⟨writer, []⟩
  if aesKey.length = kKeyBytes then
    some (⟨cfg.storeConfig, writerConfig, compressor⟩,
      ⟨⟨aesKey, answers.noncePrefix, 0⟩, store, .inUse, []⟩)
  else none

/-- A call of `Log` or `Flush`, the destructor's start, its next part, or a step inside
the store: of the thread in it, or of the strand. -/
inductive SinkEvent
  | log (msg : LogMsg) (pid tid : UInt64) (fuel : ℕ)
  | flush
  | destroy
  | advance
  | inStore (e : StoreEvent Unit)

/-- Steps that are not calls of the store. -/
def StoreEvent.inside : StoreEvent Unit → Bool
  | .append _ _ | .flush _ | .destroy _ => false
  | .step _ | .createFails _ | .timeout _ | .drain | .shutdown => true

section Machine

variable (deps : SinkDeps) (answers : SinkAnswers) (parts : SinkParts)

/-- A step of the store; `none` also for an answer the system cannot give, a file over
its largest size. -/
def EffectiveSink.stepStore (s : EffectiveSink) (e : StoreEvent Unit) : Option EffectiveSink :=
  (storeStep parts.storeConfig (persistCallback parts.writerConfig answers) s.store e).bind
    fun store => if store.env.writer.Fits then some { s with store := store } else none

/-- The thread is outside the sink. -/
def EffectiveSink.idle (s : EffectiveSink) : Prop := s.phase = .inUse ∧ s.store.pc () = .idle

instance (s : EffectiveSink) : Decidable s.idle := inferInstanceAs (Decidable (_ ∧ _))

/-- A call of `Log`; what it throws reaches the caller. -/
def EffectiveSink.log (s : EffectiveSink) (msg : LogMsg) (pid tid : UInt64) (fuel : ℕ) :
    Option EffectiveSink :=
  match logFrame deps parts.compressor.level s.cipher msg pid tid fuel with
  | none => none
  | some (.error _, cipher) => some { s with cipher := cipher }
  | some (.ok frame, cipher) =>
    let entry : LogEntry := ⟨msg, pid, tid, frame⟩
    { s with cipher := cipher, logged := s.logged ++ [entry] }.stepStore answers parts
      (.append () (some frame))

/-- One step of the sink. `Flush` of the writer, which follows that of the store, moves
bytes that have been written already; `Stop` of the eviction runner touches no shard. -/
def sinkStep (s : EffectiveSink) : SinkEvent → Option EffectiveSink
  | .log msg pid tid fuel => if s.idle then s.log deps answers parts msg pid tid fuel else none
  | .flush => if s.idle then s.stepStore answers parts (.flush ()) else none
  | .destroy =>
    if s.idle then { s with phase := .dtorFlush }.stepStore answers parts (.flush ()) else none
  | .advance =>
    if s.phase = .dtorFlush ∧ s.store.pc () = .idle then
      { s with phase := .dtorStore }.stepStore answers parts (.destroy ())
    else if s.phase = .dtorStore ∧ s.store.destroyed then some { s with phase := .destroyed }
    else none
  | .inStore e => if e.inside then s.stepStore answers parts e else none

end Machine

/-- The shard files in the order of opening, once the destructor of the writer has closed
the last one. -/
def EffectiveSink.files (s : EffectiveSink) : List Shard := (closeCurrent s.store.env.writer).closed

/-- The frames of the calls of `Log` that dropped their record. -/
def EffectiveSink.dropped (s : EffectiveSink) : List Bytes := rejected s.store.hist

/-- The record of an entry. -/
def LogEntry.record (e : LogEntry) : LogRecord := logRecord e.msg e.pid e.tid

end LoggerHigh
