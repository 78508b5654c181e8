import LoggerHigh.Lib.LittleEndian
import LoggerHigh.Lib.Transition
import LoggerHigh.Sinks.ShardName

/-!
# The shard writer

`ShardWriter` keeps one shard file open and appends frames to it; a frame that
would push the file over the limit goes into a new one. What the operating
system answers (the clock, `fopen`, the two `fwrite`s) comes with each call.

## Main definitions

- `ShardWriterConfig`, `checkArguments` — what the constructor accepts
- `ShardWriter`, `Shard` — the state, and the files with what was put into them
- `writeFrame`, `openNewShard`, `closeCurrent`, `writeHeader` — the member functions
- `onPersist`, `writerStep` — the caller that catches what they throw

## Main results

- `onPersist_eq` — a call as one case distinction
-/

namespace LoggerHigh

open Transition

/-- `kHeaderBytes` -/
def kHeaderBytes : ℕ := 48

/-- `kAlgoIdAesGcmX25519HkdfSha256` -/
def kAlgoId : ℕ := 1

/-- `kMagic`: the letters `LGRH`, a version byte and three zeros. -/
def kMagic : Bytes := [0x4C, 0x47, 0x52, 0x48, 0x01, 0x00, 0x00, 0x00]

/-- The largest size of a file, that of a signed 64-bit `off_t`. -/
def kMaxFileBytes : ℕ := 2 ^ 63 - 1

/-- What a constructed `ShardWriter` holds in its constant members. -/
structure ShardWriterConfig where
  shardLimit : ℕ
  clientEphPub : Bytes
  pub_length : clientEphPub.length = 32
  limit_gt : kHeaderBytes < shardLimit
  limit_lt : shardLimit < 2 ^ 64

/-- What `ShardWriter` throws. -/
inductive WriterError
  | pubSize
  | shardLimit
  | createDir
  | openFailed (path : FileName)
  | shortHeader (path : FileName)
  deriving DecidableEq, Repr

/-- The text of the exception; the directory and the system's own text are left out. -/
def WriterError.what : WriterError → List Char
  | .pubSize => "ShardWriter: client_eph_pub must be 32 bytes".toList
  | .shardLimit => "ShardWriter: shard_limit must exceed header size".toList
  | .createDir => "ShardWriter: failed to create dir ".toList
  | .openFailed path => "ShardWriter: failed to open shard file ".toList ++ path
  | .shortHeader path => "ShardWriter: short header write on ".toList ++ path

/-- The checks of the constructor, up to the first opening. -/
def checkArguments (shardLimit : UInt64) (clientEphPub : Bytes) (dirCreated : Bool) :
    Except WriterError ShardWriterConfig :=
  if hpub : clientEphPub.length = 32 then
    if hlimit : kHeaderBytes < shardLimit.toNat then
      if dirCreated then
        .ok ⟨shardLimit.toNat, clientEphPub, hpub, hlimit, shardLimit.toNat_lt⟩
      else .error .createDir
    else .error .shardLimit
  else .error .pubSize

/-- A shard file: what `WriteHeader_` and what `WriteFrame` put into it. -/
structure Shard where
  path : FileName
  header : Bytes
  body : Bytes
  deriving DecidableEq, Repr

/-- The content of the file. -/
def Shard.bytes (f : Shard) : Bytes := f.header ++ f.body

/-- The members of `ShardWriter`. The file behind `file_` is the last one opened;
`closed` are those before it. -/
structure ShardWriter where
  closed : List Shard
  file : Option Shard
  currentSize : ℕ
  currentPath : FileName
  seq : ℕ
  deriving DecidableEq, Repr

/-- Every file opened so far, in the order of opening; a file that is opened again
under its name counts as another one. -/
def ShardWriter.shards (s : ShardWriter) : List Shard := s.closed ++ s.file.toList

/-- A constructed object before its first opening. -/
def ShardWriter.initial : ShardWriter := ⟨[], none, 0, [], 0⟩

instance (priority := 2000) : NeZero (kHeaderBytes + 1) := ⟨by decide⟩

/-- What the system answers when a shard is opened. -/
structure Opening where
  clock : ClockReading
  fopenOk : Bool
  headerWrote : Fin (kHeaderBytes + 1)
  deriving DecidableEq, Repr

/-- One call of `WriteFrame`: its argument and the answers it meets. The opening
counts only if the call opens a shard, and it opens at most one. -/
structure WriteCall where
  data : Bytes
  opening : Opening
  wrote : ℕ
  wrote_le : wrote ≤ data.length

/-- The header of every shard. -/
def ShardWriterConfig.header (cfg : ShardWriterConfig) : Bytes :=
  kMagic ++ LittleEndian.encode 4 kAlgoId ++ cfg.clientEphPub ++ List.replicate 4 0

/-- How a member function ends; what it has changed before it throws stays changed. -/
inductive Outcome
  | returned (s : ShardWriter)
  | threw (e : WriterError) (s : ShardWriter)
  deriving DecidableEq, Repr

/-- What comes next, unless an exception was thrown. -/
def Outcome.andThen (r : Outcome) (k : ShardWriter → Outcome) : Outcome :=
  match r with
  | .returned s => k s
  | .threw e s => .threw e s

@[simp] theorem Outcome.andThen_returned (s : ShardWriter) (k : ShardWriter → Outcome) :
    (Outcome.returned s).andThen k = k s := rfl

@[simp] theorem Outcome.andThen_threw (e : WriterError) (s : ShardWriter)
    (k : ShardWriter → Outcome) : (Outcome.threw e s).andThen k = .threw e s := rfl

/-- The object afterwards. -/
def Outcome.state : Outcome → ShardWriter
  | .returned s => s
  | .threw _ s => s

section Members

variable (cfg : ShardWriterConfig)

/-- `WriteHeader_` -/
def writeHeader (o : Opening) (s : ShardWriter) : Outcome :=
  let s := { s with
    file := s.file.map fun f => { f with header := f.header ++ cfg.header.take o.headerWrote } }
  if o.headerWrote.val ≠ kHeaderBytes then .threw (.shortHeader s.currentPath) s
  else .returned { s with currentSize := kHeaderBytes }

/-- `OpenNewShard_`; `seq_` has advanced also when `fopen` fails. -/
def openNewShard (o : Opening) (s : ShardWriter) : Outcome :=
  let name := makeShardName o.clock s.seq
  let s := { s with seq := nextSeq s.seq, currentPath := name }
  if o.fopenOk then
    writeHeader cfg o { s with file := some ⟨name, [], []⟩, currentSize := 0 }
  else .threw (.openFailed name) { s with file := none }

/-- `CloseCurrent_` -/
def closeCurrent (s : ShardWriter) : ShardWriter :=
  { s with closed := s.closed ++ s.file.toList, file := none }

/-- `current_size_ > kHeaderBytes && current_size_ + len > shard_limit_` -/
def ShardWriter.full (s : ShardWriter) (len : ℕ) : Prop :=
  kHeaderBytes < s.currentSize ∧ cfg.shardLimit < addSize s.currentSize len

instance (s : ShardWriter) (len : ℕ) : Decidable (s.full cfg len) :=
  inferInstanceAs (Decidable (_ ∧ _))

/-- The end of `WriteFrame`: `fwrite` appends the first `wrote` bytes, and a
short one leaves `current_size_` as it was. -/
def appendFrame (c : WriteCall) (s : ShardWriter) : ShardWriter :=
  { s with
    file := s.file.map fun f => { f with body := f.body ++ c.data.take c.wrote }
    currentSize :=
      if c.wrote ≠ c.data.length then s.currentSize else addSize s.currentSize c.data.length }

/-- `WriteFrame`; the message about a short write is left out. -/
def writeFrame (c : WriteCall) (s : ShardWriter) : Outcome :=
  if c.data.length = 0 then .returned s
  else
    let opened := if s.file.isNone then openNewShard cfg c.opening s else .returned s
    let rotated := opened.andThen fun s =>
      if s.full cfg c.data.length then openNewShard cfg c.opening (closeCurrent s)
      else .returned s
    rotated.andThen fun s => .returned (appendFrame c s)

/-- The constructor after its checks; `none` when the first opening throws. -/
def construct (o : Opening) : Option ShardWriter :=
  match openNewShard cfg o .initial with
  | .returned s => some s
  | .threw _ _ => none

/-- `EffectiveSink::OnPersist_`: exceptions are caught. -/
def onPersist (c : WriteCall) (s : ShardWriter) : ShardWriter := (writeFrame cfg c s).state

/-- The files of the system hold `kMaxFileBytes` at most. -/
def ShardWriter.Fits (s : ShardWriter) : Prop := ∀ f ∈ s.file, f.bytes.length ≤ kMaxFileBytes

instance (s : ShardWriter) : Decidable s.Fits :=
  inferInstanceAs (Decidable (∀ f ∈ s.file, f.bytes.length ≤ kMaxFileBytes))

/-- One call; `none` for an answer the system cannot give, a file over its largest size. -/
def writerStep (s : ShardWriter) (c : WriteCall) : Option ShardWriter :=
  let s' := onPersist cfg c s
  if s'.Fits then some s' else none

end Members

-- ═══════════════════════════════════════════════════════════════════════════
-- The effect of one call
-- ═══════════════════════════════════════════════════════════════════════════

/-- The shard is open and its header complete. -/
def Opening.Complete (o : Opening) : Prop := o.fopenOk = true ∧ o.headerWrote.val = kHeaderBytes

instance (o : Opening) : Decidable o.Complete := inferInstanceAs (Decidable (_ ∧ _))

section Effect

variable {cfg : ShardWriterConfig} {s s' : ShardWriter} {c : WriteCall} {o : Opening}

theorem length_header (cfg : ShardWriterConfig) : cfg.header.length = kHeaderBytes := by
  simp only [ShardWriterConfig.header, List.length_append, LittleEndian.length_encode,
    cfg.pub_length, List.length_replicate]
  rfl

/-- The object after `CloseCurrent_` and `OpenNewShard_`. -/
def ShardWriter.reopened (cfg : ShardWriterConfig) (o : Opening) (s : ShardWriter) :
    ShardWriter where
  closed := s.closed ++ s.file.toList
  file :=
    if o.fopenOk then some ⟨makeShardName o.clock s.seq, cfg.header.take o.headerWrote, []⟩
    else none
  currentSize :=
    if o.fopenOk then if o.headerWrote.val = kHeaderBytes then kHeaderBytes else 0
    else s.currentSize
  currentPath := makeShardName o.clock s.seq
  seq := nextSeq s.seq

/-- What an opening throws. -/
def Opening.error (o : Opening) (seq : ℕ) : WriterError :=
  if o.fopenOk then .shortHeader (makeShardName o.clock seq)
  else .openFailed (makeShardName o.clock seq)

theorem closeCurrent_of_none (hfile : s.file = none) : closeCurrent s = s := by
  rw [closeCurrent, hfile, Option.toList_none, List.append_nil, ← hfile]

/-- A shard is opened once the one before it is closed. -/
theorem openNewShard_closeCurrent (cfg : ShardWriterConfig) (o : Opening) (s : ShardWriter) :
    openNewShard cfg o (closeCurrent s) =
      if o.Complete then .returned (s.reopened cfg o)
      else .threw (o.error s.seq) (s.reopened cfg o) := by
  obtain ⟨clock, fopenOk, headerWrote⟩ := o
  cases fopenOk with
  | false => rfl
  | true =>
    by_cases hwrote : headerWrote.val = kHeaderBytes
    · rw [if_pos (show (Opening.mk clock true headerWrote).Complete from ⟨rfl, hwrote⟩)]
      simp only [openNewShard, writeHeader, ShardWriter.reopened, hwrote, if_true, ne_eq,
        not_true_eq_false, if_false]
      rfl
    · rw [if_neg fun h : Opening.Complete _ => hwrote h.2]
      simp only [openNewShard, writeHeader, ShardWriter.reopened, hwrote, if_true, ne_eq,
        not_false_eq_true, if_false]
      rfl

theorem file_reopened (h : o.Complete) :
    (s.reopened cfg o).file = some ⟨makeShardName o.clock s.seq, cfg.header, []⟩ := by
  simp only [ShardWriter.reopened, h.1, if_true, h.2]
  rw [← length_header cfg, List.take_length]

theorem currentSize_reopened (h : o.Complete) : (s.reopened cfg o).currentSize = kHeaderBytes := by
  simp only [ShardWriter.reopened, h.1, h.2, if_true]

theorem construct_eq (cfg : ShardWriterConfig) (o : Opening) :
    construct cfg o = if o.Complete then some (ShardWriter.reopened cfg o .initial) else none := by
  rw [construct, ← closeCurrent_of_none (s := .initial) rfl, openNewShard_closeCurrent]
  by_cases ho : o.Complete
  · rw [if_pos ho, if_pos ho]
    rfl
  · rw [if_neg ho, if_neg ho]

/-- A constructed object has opened its first shard. -/
theorem eq_reopened_of_construct (h : construct cfg o = some s) :
    o.Complete ∧ s = ShardWriter.reopened cfg o .initial := by
  rw [construct_eq] at h
  split at h
  · next ho => exact ⟨ho, (Option.some.inj h).symm⟩
  · cases h

/-- A shard just opened has room. -/
theorem not_full_reopened {len : ℕ} (h : o.Complete) : ¬ (s.reopened cfg o).full cfg len := by
  rintro ⟨hlt, -⟩
  rw [currentSize_reopened h] at hlt
  exact Nat.lt_irrefl _ hlt

/-- `WriteFrame` opens a shard when none is open or the frame does not fit. -/
def ShardWriter.needsShard (cfg : ShardWriterConfig) (s : ShardWriter) (len : ℕ) : Prop :=
  s.file = none ∨ s.full cfg len

instance (s : ShardWriter) (len : ℕ) : Decidable (s.needsShard cfg len) :=
  inferInstanceAs (Decidable (_ ∨ _))

/-- A call with an empty frame does nothing; another one opens a shard if it
has to, and appends the frame unless the opening throws. -/
theorem onPersist_eq (cfg : ShardWriterConfig) (c : WriteCall) (s : ShardWriter) :
    onPersist cfg c s =
      if c.data.length = 0 then s
      else if s.needsShard cfg c.data.length then
        if c.opening.Complete then appendFrame c (s.reopened cfg c.opening)
        else s.reopened cfg c.opening
      else appendFrame c s := by
  rw [onPersist, writeFrame]
  by_cases hdata : c.data.length = 0
  · rw [if_pos hdata, if_pos hdata]
    rfl
  rw [if_neg hdata, if_neg hdata]
  have hopen := openNewShard_closeCurrent cfg c.opening s
  cases hfile : s.file with
  | none =>
    rw [if_pos (show s.needsShard cfg c.data.length from .inl hfile), Option.isNone_none,
      if_pos rfl]
    rw [closeCurrent_of_none hfile] at hopen
    by_cases hc : c.opening.Complete
    · rw [if_pos hc] at hopen ⊢
      simp only [hopen, Outcome.andThen_returned, not_full_reopened hc, if_false]
      rfl
    · rw [if_neg hc] at hopen ⊢
      rw [hopen]
      rfl
  | some f =>
    simp only [Option.isNone_some, Bool.false_eq_true, if_false, Outcome.andThen_returned]
    by_cases hfull : s.full cfg c.data.length
    · rw [if_pos hfull, if_pos (show s.needsShard cfg c.data.length from .inr hfull), hopen]
      by_cases hc : c.opening.Complete
      · rw [if_pos hc, if_pos hc]
        rfl
      · rw [if_neg hc, if_neg hc]
        rfl
    · have hstay : ¬ s.needsShard cfg c.data.length := by
        rintro (h | h)
        · rw [hfile] at h
          cases h
        · exact hfull h
      rw [if_neg hfull, if_neg hstay]
      rfl

/-- A step is a call whose files fit. -/
theorem eq_onPersist_of_step (h : writerStep cfg s c = some s') :
    s' = onPersist cfg c s ∧ s'.Fits := by
  rw [writerStep] at h
  split at h
  · next hfits =>
    cases h
    exact ⟨rfl, hfits⟩
  · cases h

end Effect

end LoggerHigh
