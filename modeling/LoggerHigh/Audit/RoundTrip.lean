import LoggerHigh.Audit.SinkShards
import LoggerHigh.Mmap.StoreLossless
import LoggerHigh.Sinks.ShardDistinct
import LoggerHigh.Sinks.SinkRuns

/-!
# From `Log` to `DecodeShardFile`

One thread logs through a sink and destroys it. If nothing has been dropped and no
call of the system has failed, the shards in the order of their opening hold the
frames of what has been logged, in the order of the calls, and the owner of the
private key reads the records of all messages from them.

## Main results

- `SinkInv.files_readAs` — the files of a sink are shards of what the store has handed on
- `round_trip` — what has been logged is what is read
-/

namespace LoggerHigh

open Transition

variable {deps : SinkDeps} {cfg : EffectiveSinkConfig} {answers : SinkAnswers} {parts : SinkParts}
  {s₀ s : EffectiveSink}

/-- Packs of images are images of packs. -/
theorem exists_map_of_flatten {α β : Type*} {f : α → β} {packs : List (List β)} {l : List α}
    (h : packs.flatten = l.map f) :
    ∃ groups : List (List α), groups.flatten = l ∧ packs = groups.map (List.map f) := by
  induction packs generalizing l with
  | nil => exact ⟨[], (List.map_eq_nil_iff.mp h.symm).symm, rfl⟩
  | cons pack packs ih =>
    rw [List.flatten_cons] at h
    obtain ⟨front, rest, rfl, rfl, hrest⟩ := List.map_eq_append_iff.mp h.symm
    obtain ⟨groups, rfl, rfl⟩ := ih hrest.symm
    exact ⟨front :: groups, rfl, rfl⟩

/-- Lists with the same images are related where elements with the same image are. -/
theorem forall₂_of_map_eq {α β γ : Type*} {f : α → γ} {g : β → γ} {R : α → β → Prop}
    {l : List α} {u : List β} (h : l.map f = u.map g)
    (hR : ∀ x, ∀ y ∈ u, f x = g y → R x y) : List.Forall₂ R l u := by
  induction l generalizing u with
  | nil =>
    obtain rfl : u = [] := List.map_eq_nil_iff.mp h.symm
    exact .nil
  | cons x l ih =>
    obtain ⟨y, u', rfl, hxy, hrest⟩ := List.map_eq_cons_iff.mp h.symm
    exact .cons (hR x y List.mem_cons_self hxy.symm)
      (ih hrest.symm fun x' y' hy' => hR x' y' (List.mem_cons_of_mem y hy'))

/-- What the store has handed on are frames of a length it takes. -/
theorem SinkInv.frameLength {key : Bytes} {writer₀ : ShardWriter} {entries : List LogEntry}
    (h : SinkInv deps parts key writer₀ s)
    (hentries : persisted s.store.hist = entries.map LogEntry.frame) :
    ∀ e ∈ entries, FrameLength e.frame := by
  have hall : ∀ d ∈ entries.map LogEntry.frame, FrameLength d := by
    rw [← hentries, ← h.calls]
    exact List.forall_mem_map.mpr h.length
  exact List.forall_mem_map.mp hall

/-- Without I/O error the files of a sink are shards of the frames that the store has
handed on, in this order. -/
theorem SinkInv.files_bytes {key : Bytes} {writer₀ : ShardWriter} {o : Opening}
    {entries : List LogEntry} (h : SinkInv deps parts key writer₀ s)
    (hconstruct : construct parts.writerConfig o = some writer₀)
    (hclean : ∀ c ∈ s.store.env.calls, c.Clean)
    (hentries : persisted s.store.hist = entries.map LogEntry.frame) :
    ∃ groups : List (List LogEntry), groups.flatten = entries ∧ s.files.map Shard.bytes =
      groups.map fun es => shardText parts.writerConfig (es.map LogEntry.frame) := by
  obtain ⟨hinit, hfits⟩ := Holds.construct hconstruct
  have hholds := hinit.run hfits
    (fun c hc => ⟨hclean c hc, Nat.lt_succ_of_le (h.length c hc).2⟩) h.written
  have hlength := h.frameLength hentries
  have hframes : framesOf s.store.env.calls = entries.map LogEntry.frame := by
    rw [framesOf, h.calls, hentries]
    refine List.filter_eq_self.mpr (List.forall_mem_map.mpr fun e he => ?_)
    exact decide_eq_true (Nat.ne_of_gt (hlength e he).1)
  have hpacked : Packing.Packed List.length kHeaderBytes parts.writerConfig.shardLimit _ _ :=
    Packing.packed_greedy (Nat.le_of_lt parts.writerConfig.limit_gt) (framesOf s.store.env.calls)
  obtain ⟨groups, hflatten, hpacks⟩ := exists_map_of_flatten (hpacked.flatten.trans hframes)
  refine ⟨groups, hflatten, ?_⟩
  have hshards := hholds.shards
  rwa [show (List.foldl _ _ _ : Packing.Packs Bytes).all = _ from hpacks, List.map_map] at hshards

/-- The reader finds these frames, and decodes them if it has the key. -/
theorem SinkInv.files_readAs {key serverPriv : Bytes} {writer₀ : ShardWriter} {o : Opening}
    {entries : List LogEntry} (h : SinkInv deps parts key writer₀ s)
    (hconstruct : construct parts.writerConfig o = some writer₀)
    (hkey : deriveAesKey deps.audit serverPriv parts.writerConfig.clientEphPub = .ok key)
    (hclean : ∀ c ∈ s.store.env.calls, c.Clean)
    (hentries : persisted s.store.hist = entries.map LogEntry.frame) (hsub : entries ⊆ s.logged) :
    ∃ groups : List (List LogEntry), groups.flatten = entries ∧ ∃ n, ∀ fuel, n ≤ fuel →
      List.Forall₂ (fun f es => es ⊆ entries ∧ f.ReadsAs deps parts.writerConfig serverPriv fuel es)
        s.files groups := by
  obtain ⟨groups, hflatten, hfiles⟩ := h.files_bytes hconstruct hclean hentries
  have hwithin : ∀ es ∈ groups, es ⊆ entries := fun es hes e he =>
    hflatten ▸ List.mem_flatten_of_mem hes he
  have hentry : ∀ es ∈ groups, ∀ e ∈ es,
      e.Encoded deps parts.compressor.level key ∧ FrameLength e.frame := by
    intro es hes e he
    have hmem := hwithin es hes he
    exact ⟨h.encoded e (hsub hmem), h.frameLength hentries e hmem⟩
  obtain ⟨n, hn⟩ := exists_fuel fun es hes => readsAs_of_bytes hkey (hentry es hes)
  exact ⟨groups, hflatten, n, fun fuel hfuel => forall₂_of_map_eq hfiles fun f es hes hbytes =>
    ⟨hwithin es hes, hn fuel hfuel es hes f hbytes⟩⟩

/-- The reader who has the private key of the server derives the key of the sink. -/
theorem Created.deriveAesKey {serverPriv : Bytes} (h : Created deps cfg answers parts s₀)
    (hpriv : serverPriv.length = kServerPrivBytes)
    (hpub : loadServerPublicKey cfg.serverPubKeyPath cfg.serverPubKeyFile =
      .ok (deps.x25519.generatePublicKey serverPriv)) :
    deriveAesKey deps.audit serverPriv parts.writerConfig.clientEphPub = .ok s₀.cipher.key := by
  obtain ⟨serverPub, shared, hload, hshared, hkey⟩ := h.agreed
  obtain rfl : deps.x25519.generatePublicKey serverPriv = serverPub :=
    Except.ok.inj (hpub.symm.trans hload)
  have hagree : deps.audit.agree = deps.x25519.agree := rfl
  exact (deriveAesKey_of_deriveSharedSecret hagree hpriv hshared hkey).2

/-- A destroyed sink that has dropped nothing has handed on all that has been logged. -/
theorem persisted_eq_logged {key : Bytes} {writer₀ : ShardWriter}
    (hcreate : StoreState.create parts.storeConfig s₀.store.env = some s₀.store)
    (hzero : ZeroFiles parts.storeConfig)
    (hr : Reach (sinkStep deps answers parts) (SinkEvent.Within fun _ e => NoCreateFailure e) s₀ s)
    (hinv : SinkInv deps parts key writer₀ s) (hdestroyed : s.phase = .destroyed)
    (hdropped : s.dropped = []) : persisted s.store.hist = s.logged.map LogEntry.frame := by
  have hreach := Reach.within (fun _ e hinside => by cases e <;> trivial) hr
  have hstate := LosslessState.of_reach hzero hcreate hreach hdropped
  have hcalls : CallsInv s.store := hreach.invariant (CallsInv.create hcreate)
    fun _ _ _ h _ hstep => h.step (StoreMove.of_storeStep hstep)
  have hstore := hinv.destroyed hdestroyed
  have hidle : s.store.pc () = .idle := (hstate.fifo.down.destroyed hstore).2.2 ()
  rw [hstate.persisted_eq hstore, hcalls.accepted_eq hidle hdropped, hinv.called]

/-- One thread has used the sink and destroyed it. The files of the buffers were
zero-filled, no buffer failed to be constructed, no `fopen` or `fwrite` failed,
nothing was dropped, and what was logged is UTF-8. Then the shards, read in the order
of their opening with the private key of the server, give one record for each message
logged, in the order of the calls, and each record shows its message. With fewer than
`2 ^ 32` openings, the directory holds each of the shards under its name. -/
theorem round_trip {serverPriv : Bytes} (hpriv : serverPriv.length = kServerPrivBytes)
    (hpub : loadServerPublicKey cfg.serverPubKeyPath cfg.serverPubKeyFile =
      .ok (deps.x25519.generatePublicKey serverPriv))
    (hzero : ZeroFiles cfg.storeConfig)
    (hcreate : EffectiveSink.create deps cfg answers = some (parts, s₀))
    (hr : Reach (sinkStep deps answers parts) (SinkEvent.Within fun _ e => NoCreateFailure e) s₀ s)
    (hdestroyed : s.phase = .destroyed) (hdropped : s.dropped = [])
    (hclean : ∀ c ∈ s.store.env.calls, c.Clean) (hutf8 : ∀ e ∈ s.logged, e.msg.Utf8) :
    (∃ records, List.Forall₂ (fun e r => e.msg.RecordedAs r) s.logged records ∧
      ∃ n, ∀ fuel, n ≤ fuel →
        decodeShards deps.audit serverPriv fuel s.files = some (.ok records)) ∧
    ((answers.firstOpening :: openingsOf parts.writerConfig s₀.store.env.writer
        s.store.env.calls).length < 2 ^ 32 →
      ∀ f ∈ s.files, s.store.env.writer.inDirectory f.path = some f.bytes) := by
  have hcreated := Created.of_create hcreate
  have hinv := Reach.sinkInv hcreated hr
  have hpersisted := persisted_eq_logged hcreated.store (hcreated.storeConfig ▸ hzero) hr hinv
    hdestroyed hdropped
  have hkey := hcreated.deriveAesKey hpriv hpub
  obtain ⟨groups, hflatten, n, hn⟩ := hinv.files_readAs hcreated.construct hkey hclean hpersisted
    (List.Subset.refl _)
  refine ⟨⟨s.logged.map LogEntry.record, ?shown, n, fun fuel hfuel => ?read⟩,
    fun hfew f hf => inDirectory_run hcreated.construct hinv.written hfew hf⟩
  case shown =>
    rw [List.forall₂_map_right_iff, List.forall₂_same]
    exact fun e _ => recordedAs_logRecord e.msg e.pid e.tid
  case read =>
    rw [← hflatten, List.map_flatten]
    refine decodeShards_eq ?_
    rw [List.forall₂_map_right_iff]
    refine (hn fuel hfuel).imp fun f es hes => ?_
    have hgood : ∀ e ∈ es, e.record.Utf8 := fun e he =>
      (hutf8 e (hes.1 he)).logRecord e.pid e.tid
    rw [hes.2.read, if_pos hgood]

-- ═══════════════════════════════════════════════════════════════════════════
-- A sink for two messages
-- ═══════════════════════════════════════════════════════════════════════════

/-- The text cut or filled up to 32 bytes. -/
def pad32 (b : Bytes) : Bytes := (b ++ List.replicate 32 0).take 32

theorem length_pad32 (b : Bytes) : (pad32 b).length = 32 := by
  rw [pad32, List.length_take, List.length_append, List.length_replicate]
  omega

/-- A commutative operation on keys that are their own public keys. -/
def plainX25519 : X25519 where
  generatePublicKey := pad32
  agree privateKey publicKey := some (List.zipWith (· ^^^ ·) (pad32 privateKey) publicKey)
  length_generatePublicKey := length_pad32
  agree_comm _ _ := congrArg some (List.zipWith_comm_of_comm UInt8.xor_comm)

/-- Libraries that do next to nothing, around protobuf's wire format. -/
def plainSinkDeps : SinkDeps where
  x25519 := plainX25519
  hkdfSha256 secret _ _ outLen := .ok ((secret ++ List.replicate outLen 0).take outLen)
  gcm := plainDeps.gcm
  zlib := plainZlib
  protobuf := wireProtobuf
  alloc _ := true
  length_hkdfSha256 := by
    rintro secret salt info _ outLen ⟨⟩
    rw [List.length_take, List.length_append, List.length_replicate]
    omega

/-- Two buffers of a page, and shards with room for `room` bytes. -/
def plainSinkConfig (room : UInt64) : EffectiveSinkConfig where
  serverPubKeyPath := "server.pub"
  serverPubKeyFile := ⟨true, some 32, some (List.replicate 32 5)⟩
  shardSizeBytes := 48 + room
  mmapBufferBytes := 4096
  mmapMinBuffers := 2
  mmapMaxBuffers := 2
  zlibLevel := 6
  page := 4096
  bufferFiles _ := []

/-- Every call of the system succeeds. -/
def plainSinkAnswers : SinkAnswers where
  ephPriv := List.replicate 32 3
  noncePrefix := Vector.replicate 8 9
  dirCreated := true
  firstOpening := cleanOpening
  opening _ := cleanOpening
  wrote _ := 4096

/-- A message of one byte. -/
def plainMsg (b : UInt8) : LogMsg := ⟨2, 1, [], ⟨none, 0, none⟩, [b]⟩

theorem LogMsg.Utf8.plain {b : UInt8} (h : IsUtf8 [b]) : (plainMsg b).Utf8 :=
  ⟨ByteArray.isValidUTF8_empty, by rintro _ ⟨⟩, by rintro _ ⟨⟩, h⟩

/-- Steps of the thread inside the store, and of the strand. -/
def threadSteps (n : ℕ) : List SinkEvent := List.replicate n (.inStore (.step ()))
def strandSteps (n : ℕ) : List SinkEvent := List.replicate n (.inStore .drain)

/-- A call of `Log` that finds room in the master. -/
def logSteps (b : UInt8) : List SinkEvent := .log (plainMsg b) 7 7 20 :: threadSteps 7

/-- The messages are logged one after the other, and the sink is destroyed. -/
def logAndDestroy (messages : Bytes) : List SinkEvent :=
  messages.flatMap logSteps ++ .destroy :: threadSteps 6 ++ strandSteps (16 + messages.length) ++
    threadSteps 1 ++ .advance :: threadSteps 4 ++ [.advance]

theorem run_logAndDestroy :
    ((EffectiveSink.create plainSinkDeps (plainSinkConfig 1) plainSinkAnswers).bind fun c =>
      (run (guarded (sinkStep plainSinkDeps plainSinkAnswers c.1)
          (SinkEvent.Within fun _ e => NoCreateFailure e)) c.2 (logAndDestroy [97, 98])).map
        fun (s : EffectiveSink) => (s.phase, s.dropped, s.logged.map LogEntry.msg, s.files.length,
          s.store.env.calls.all fun c => decide c.Clean)) =
      some (.destroyed, [], [plainMsg 97, plainMsg 98], 2, true) := by
  decide +kernel

/-- Two messages, in a shard each, come back. -/
theorem round_trip_plain : ∃ s : EffectiveSink,
    s.logged.map LogEntry.msg = [plainMsg 97, plainMsg 98] ∧
    s.files.length = 2 ∧ ∃ records, List.Forall₂ (fun e r => e.msg.RecordedAs r) s.logged records ∧
      ∃ n, ∀ fuel, n ≤ fuel → decodeShards plainSinkDeps.audit (List.replicate 32 5) fuel s.files =
        some (.ok records) := by
  obtain ⟨⟨parts, s₀⟩, hcreate, hrun⟩ := Option.bind_eq_some_iff.mp run_logAndDestroy
  obtain ⟨s, hrun, hs⟩ := Option.map_eq_some_iff.mp hrun
  simp only [Prod.mk.injEq] at hs
  obtain ⟨hdestroyed, hdropped, hlogged, hfiles, hclean⟩ := hs
  have hutf8 : ∀ e ∈ s.logged, e.msg.Utf8 := by
    intro e he
    have hmem : e.msg ∈ [plainMsg 97, plainMsg 98] := hlogged ▸ List.mem_map_of_mem he
    rcases List.mem_pair.mp hmem with hmsg | hmsg
    all_goals
      rw [hmsg]
      exact .plain (by decide)
  have hpriv : (List.replicate 32 (5 : UInt8)).length = kServerPrivBytes := rfl
  have hzero : ZeroFiles (plainSinkConfig 1).storeConfig := by rintro _ _ ⟨⟩
  exact ⟨s, hlogged, hfiles, (round_trip hpriv rfl hzero hcreate (Reach.of_run_guarded hrun)
    hdestroyed hdropped (by simpa using hclean) hutf8).1⟩

end LoggerHigh
