import LoggerHigh.Audit.ShardGrammar
import LoggerHigh.Sinks.EffectiveSink
import LoggerHigh.Sinks.ShardPacking

/-!
# The reader on the shards of a sink

A frame that `Log` has made decodes to the record of its message, or, if a string
of the record is not UTF-8, makes the reader throw. So a shard gives all of its
records, or none.

## Main definitions

- `LogEntry.Encoded` — the frame has been made under a key
- `Shard.ReadsAs` — the shard holds some entries, and what is read from it
- `decodeShards` — `DecodeShardFile` on one file after the other

## Main results

- `LogEntry.Encoded.decodes` — one frame
- `readsAs_of_bytes` — one shard
- `decodeShards_eq` — all files
-/

namespace LoggerHigh

open LengthPrefix

section Loop

variable {ρ α : Type} {decode : Bytes → Option (Except String ρ)} {records : List ρ}

theorem readFrames_of_frame_error {input body rest : Bytes} {what : String}
    (h : readFrame input = .ok (some (body, rest))) (hdecode : decode body = some (.error what)) :
    readFrames decode input records = some (.error what) := by
  rw [readFrames]
  split <;> simp_all

/-- Frames that decode if they are good, and else all fail in one way. -/
theorem readFrames_frames {entries : List α} {bodyOf : α → Bytes} {good : α → Prop}
    [DecidablePred good] {recordOf : α → ρ} {what : String}
    (h : ∀ e ∈ entries, FrameBody (bodyOf e) ∧
      decode (bodyOf e) = some (if good e then .ok (recordOf e) else .error what)) :
    readFrames decode (frames (entries.map bodyOf)) records =
      some (if ∀ e ∈ entries, good e then .ok (records ++ entries.map recordOf)
        else .error what) := by
  induction entries generalizing records with
  | nil =>
    rw [List.map_nil, List.map_nil, List.append_nil, if_pos (List.forall_mem_nil _)]
    exact readFrames_of_end (readFrame_eq_none_iff.mpr rfl)
  | cons e entries ih =>
    obtain ⟨hbody, hdecode⟩ := h e List.mem_cons_self
    have hread : readFrame (frames ((e :: entries).map bodyOf)) =
        .ok (some (bodyOf e, frames (entries.map bodyOf))) := by
      rw [frames, List.map_cons, List.flatMap_cons]
      exact readFrame_frame hbody _
    by_cases hgood : good e
    · rw [if_pos hgood] at hdecode
      rw [readFrames_of_frame hread hdecode, ih fun e' he' => h e' (List.mem_cons_of_mem e he')]
      simp only [List.forall_mem_cons, hgood, true_and, List.map_cons, List.append_assoc,
        List.singleton_append]
    · rw [if_neg hgood] at hdecode
      rw [readFrames_of_frame_error hread hdecode, if_neg]
      exact fun hall => hgood (hall e List.mem_cons_self)

end Loop

-- ═══════════════════════════════════════════════════════════════════════════
-- One frame
-- ═══════════════════════════════════════════════════════════════════════════

variable {deps : SinkDeps} {level : ℕ} {key : Bytes} {e : LogEntry}

/-- `Log` has made the frame, with a cipher that has this key. -/
def LogEntry.Encoded (deps : SinkDeps) (level : ℕ) (key : Bytes) (e : LogEntry) : Prop :=
  ∃ cipher cipher' fuel, cipher.key = key ∧
    logFrame deps level cipher e.msg e.pid e.tid fuel = some (.ok e.frame, cipher')

/-- What follows the length. -/
def LogEntry.body (e : LogEntry) : Bytes := e.frame.drop 4

/-- A frame is made in three stages. -/
theorem logFrame_eq_ok {cipher cipher' : AesGcmCipher} {msg : LogMsg} {pid tid : UInt64} {fuel : ℕ}
    {frame : Bytes} (h : logFrame deps level cipher msg pid tid fuel = some (.ok frame, cipher')) :
    ∃ proto compressed encrypted, format deps.protobuf msg pid tid [] = .ok proto ∧
      compress deps.zlib.deflater.toDeflateEngine level deps.alloc proto [] fuel =
        some (.returned compressed) ∧
      cipher.encrypt deps.gcm compressed [] = (.ok encrypted, cipher') ∧
      frame = lengthFramed encrypted := by
  rw [logFrame] at h
  split at h
  · cases h
  · next proto hformat =>
    split at h
    · cases h
    · cases h
    · next compressed hcompress =>
      cases hencrypt : cipher.encrypt deps.gcm compressed [] with
      | mk result cipher'' =>
        rw [hencrypt] at h
        cases result with
        | error what => cases h
        | ok encrypted =>
          cases h
          exact ⟨proto, compressed, encrypted, hformat, hcompress, hencrypt, rfl⟩

/-- The cipher keeps its key. -/
theorem key_logFrame {cipher cipher' : AesGcmCipher} {msg : LogMsg} {pid tid : UInt64} {fuel : ℕ}
    {result : Except String Bytes}
    (h : logFrame deps level cipher msg pid tid fuel = some (result, cipher')) :
    cipher'.key = cipher.key := by
  rw [logFrame] at h
  split at h
  · cases h
    rfl
  · split at h
    · cases h
    · cases h
      rfl
    · cases h
      rw [AesGcmCipher.encrypt_snd]

/-- A frame of a length the store takes is its body after the length, and the body
decodes to the record if its strings are UTF-8. -/
theorem LogEntry.Encoded.decodes (h : e.Encoded deps level key) (hframe : FrameLength e.frame) :
    e.frame = LengthPrefix.frame e.body ∧ FrameBody e.body ∧ ∃ n, ∀ fuel, n ≤ fuel →
      decodeFrame deps.audit key fuel e.body =
        some (if e.record.Utf8 then .ok e.record else .error "audit: protobuf parse failed") := by
  obtain ⟨cipher, cipher', fuel, rfl, hmade⟩ := h
  obtain ⟨proto, compressed, encrypted, hformat, hcompress, hencrypt, hlengthed⟩ :=
    logFrame_eq_ok hmade
  obtain ⟨hdecrypt, hmin⟩ := AesGcmCipher.decrypt_of_encrypt hencrypt []
  have hserialize := format_eq_ok hformat
  have hlength : encrypted.length < 2 ^ 32 := by
    have hle := hframe.2
    rw [hlengthed, lengthFramed, List.length_append, LittleEndian.length_encode] at hle
    omega
  have heq : e.frame = LengthPrefix.frame encrypted := by
    rw [hlengthed, lengthFramed, Nat.mod_eq_of_lt hlength, LengthPrefix.frame]
  have hbody : e.body = encrypted := by
    rw [LogEntry.body, heq, LengthPrefix.frame]
    exact List.drop_left' (LittleEndian.length_encode _ _)
  have hcompressed : compressed.length < 2 ^ 32 := by
    obtain ⟨-, sealed, hseal, rfl, -⟩ := AesGcmCipher.encrypt_ok hencrypt
    have := deps.gcm.length_sealBody hseal
    rw [List.length_append] at hlength
    omega
  obtain ⟨n, hdecompress⟩ := decompress_of_compress deps.zlib (fun _ => rfl)
    (deps.protobuf.length_lt hserialize) hcompressed hcompress
  rw [hbody]
  refine ⟨heq, ⟨hmin, hlength⟩, n, fun fuel' hfuel => ?_⟩
  have hengine : decompress deps.audit.engine deps.audit.alloc compressed [] fuel' =
    some (.returned proto) := hdecompress fuel' hfuel
  have hopen : AesGcmCipher.decrypt deps.audit.gcm cipher.key encrypted [] = .ok compressed :=
    hdecrypt
  have hparse : deps.audit.parseFromString proto = if e.record.Utf8 then some e.record else none :=
    deps.protobuf.parse_serialize hserialize
  simp only [decodeFrame, hopen, hengine, hparse]
  by_cases hutf8 : e.record.Utf8
  · simp only [if_pos hutf8]
  · simp only [if_neg hutf8]

-- ═══════════════════════════════════════════════════════════════════════════
-- One shard
-- ═══════════════════════════════════════════════════════════════════════════

/-- Finitely many loops come to an end in a common number of rounds. -/
theorem exists_fuel {α : Type*} {P : α → ℕ → Prop} {l : List α}
    (h : ∀ x ∈ l, ∃ n, ∀ fuel, n ≤ fuel → P x fuel) :
    ∃ n, ∀ fuel, n ≤ fuel → ∀ x ∈ l, P x fuel := by
  induction l with
  | nil => exact ⟨0, fun _ _ => List.forall_mem_nil _⟩
  | cons x l ih =>
    obtain ⟨n, hn⟩ := h x List.mem_cons_self
    obtain ⟨m, hm⟩ := ih fun y hy => h y (List.mem_cons_of_mem x hy)
    refine ⟨max n m, fun fuel hfuel => List.forall_mem_cons.mpr ⟨hn fuel ?_, hm fuel ?_⟩⟩
    · exact Nat.le_trans (Nat.le_max_left n m) hfuel
    · exact Nat.le_trans (Nat.le_max_right n m) hfuel

/-- The shard holds the frames of these entries. All of their records are read from it
if their strings are UTF-8; else the reader throws. -/
structure Shard.ReadsAs (deps : SinkDeps) (cfg : ShardWriterConfig) (serverPriv : Bytes) (fuel : ℕ)
    (f : Shard) (entries : List LogEntry) : Prop where
  bytes : f.bytes = shardText cfg (entries.map LogEntry.frame)
  read : ∀ path, decodeShardFile deps.audit path (some f.bytes) serverPriv fuel =
    some (if ∀ e ∈ entries, e.record.Utf8 then .ok (entries.map LogEntry.record)
      else .error "audit: protobuf parse failed")

/-- A shard with the frames of some entries is read as these. -/
theorem readsAs_of_bytes {cfg : ShardWriterConfig} {serverPriv : Bytes} {entries : List LogEntry}
    (hkey : deriveAesKey deps.audit serverPriv cfg.clientEphPub = .ok key)
    (hentries : ∀ e ∈ entries, e.Encoded deps level key ∧ FrameLength e.frame) :
    ∃ n, ∀ fuel, n ≤ fuel → ∀ f : Shard, f.bytes = shardText cfg (entries.map LogEntry.frame) →
      f.ReadsAs deps cfg serverPriv fuel entries := by
  obtain ⟨n, hn⟩ := exists_fuel fun e he =>
    ((hentries e he).1.decodes (hentries e he).2).2.2
  refine ⟨n, fun fuel hfuel f hbytes => ⟨hbytes, fun path => ?_⟩⟩
  have hframes : entries.map LogEntry.frame = entries.map fun e => frame e.body :=
    List.map_congr_left fun e he => ((hentries e he).1.decodes (hentries e he).2).1
  have htext : f.bytes =
      headerText cfg.clientEphPub (List.replicate 4 0) ++ frames (entries.map LogEntry.body) := by
    rw [hbytes, shardText, hframes, frames, List.flatMap_map]
    rfl
  have hread := readShardHeader_headerText cfg.pub_length (List.length_replicate (n := 4) (a := 0))
    (frames (entries.map LogEntry.body))
  simp only [decodeShardFile, htext, hread, hkey, length_of_deriveAesKey hkey, ne_eq,
    not_true_eq_false, if_false]
  refine readFrames_frames fun e he => ?_
  exact ⟨((hentries e he).1.decodes (hentries e he).2).2.1, hn fuel hfuel e he⟩

-- ═══════════════════════════════════════════════════════════════════════════
-- All files
-- ═══════════════════════════════════════════════════════════════════════════

/-- `DecodeShardFile` on the files in this order, and what it returns in one list. -/
def decodeShards {ρ : Type} (deps : AuditDeps ρ) (serverPriv : Bytes) (fuel : ℕ) :
    List Shard → Option (Except String (List ρ))
  | [] => some (.ok [])
  | f :: files =>
    match decodeShardFile deps (String.ofList f.path) (some f.bytes) serverPriv fuel with
    | none => none
    | some (.error what) => some (.error what)
    | some (.ok records) =>
      match decodeShards deps serverPriv fuel files with
      | none => none
      | some (.error what) => some (.error what)
      | some (.ok others) => some (.ok (records ++ others))

/-- If each file gives its records, all of them give all records. -/
theorem decodeShards_eq {ρ : Type} {deps : AuditDeps ρ} {serverPriv : Bytes} {fuel : ℕ}
    {files : List Shard} {packs : List (List ρ)}
    (h : List.Forall₂ (fun f records => decodeShardFile deps (String.ofList f.path) (some f.bytes)
      serverPriv fuel = some (.ok records)) files packs) :
    decodeShards deps serverPriv fuel files = some (.ok packs.flatten) := by
  induction h with
  | nil => rfl
  | cons hfile _ ih =>
    rw [decodeShards, hfile]
    simp only [ih, List.flatten_cons]

end LoggerHigh
