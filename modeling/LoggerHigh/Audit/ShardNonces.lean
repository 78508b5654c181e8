import LoggerHigh.Audit.OverlappingRecords

/-!
# The nonces in the shards of a sink

All frames of a sink are sealed under one key, in however many shards they end up. Each
call of `Encrypt` draws a value of the cipher's counter under `pipeline_mu_`, also one
that throws afterwards. Up to `2 ^ 32` calls the values do not come again.

## Main definitions

- `LogEntry.nonce`, `Shard.nonces` — of a frame, and of those the reader finds in a shard
- `NonceInv` — which values of the counter have been drawn

## Main results

- `NonceInv.step` — every step keeps the invariant
- `logged_nonces_distinct` — no two frames have been sealed with the same nonce
- `shard_nonces_distinct` — no nonce stands twice in the shards of a sink
-/

namespace LoggerHigh

open LengthPrefix Transition

/-- The nonce of a frame. -/
def LogEntry.nonce (e : LogEntry) : Bytes := e.body.take kNonceBytes

/-- The nonces of the frames that the reader comes across in a shard. -/
def Shard.nonces (f : Shard) : List Bytes :=
  match readShardHeader f.bytes with
  | .ok (_, rest) => (splitFrames rest).1.map (List.take kNonceBytes)
  | .error _ => []

variable {deps : SinkDeps} {cfg : EffectiveSinkConfig} {answers : SinkAnswers} {parts : SinkParts}
  {T : Type} [DecidableEq T] [Fintype T] {s₀ s s' : SharedSink T} {ev : SharedEvent T}
  {level : ℕ}

-- ═══════════════════════════════════════════════════════════════════════════
-- One call
-- ═══════════════════════════════════════════════════════════════════════════

/-- `Log` draws one value of the counter, or throws before it comes to that. -/
theorem cipher_logFrame {cipher cipher' : AesGcmCipher} {msg : LogMsg} {pid tid : UInt64}
    {fuel : ℕ} {result : Except String Bytes}
    (h : logFrame deps level cipher msg pid tid fuel = some (result, cipher')) :
    cipher' = cipher ∨ cipher' = { cipher with counter := fetchAddCounter cipher.counter } := by
  rw [logFrame] at h
  split at h
  · cases h
    exact .inl rfl
  · split at h
    · cases h
    · cases h
      exact .inl rfl
    · cases h
      exact .inr (AesGcmCipher.encrypt_snd _ _ _ _)

/-- The nonce of a frame is made of the value that its call has drawn. -/
theorem nonce_of_logFrame {cipher cipher' : AesGcmCipher} {e : LogEntry} {fuel : ℕ}
    (h : logFrame deps level cipher e.msg e.pid e.tid fuel = some (.ok e.frame, cipher')) :
    e.nonce = nonceBytes cipher.noncePrefix cipher.counter ∧
      cipher' = { cipher with counter := fetchAddCounter cipher.counter } := by
  obtain ⟨proto, compressed, encrypted, -, -, hencrypt, hframe⟩ := logFrame_eq_ok h
  obtain ⟨-, body, -, rfl, hcipher⟩ := AesGcmCipher.encrypt_ok hencrypt
  refine ⟨?_, hcipher⟩
  rw [LogEntry.nonce, LogEntry.body, hframe, lengthFramed,
    List.drop_left' (LittleEndian.length_encode _ _), List.nil_append]
  exact List.take_left' (length_nonceBytes _ _)

/-- A shard with the frames of some entries has their nonces. -/
theorem nonces_of_bytes {writerConfig : ShardWriterConfig} {key : Bytes} {entries : List LogEntry}
    {f : Shard} (hentries : ∀ e ∈ entries, e.Encoded deps level key ∧ FrameLength e.frame)
    (hbytes : f.bytes = shardText writerConfig (entries.map LogEntry.frame)) :
    f.nonces = entries.map LogEntry.nonce := by
  have hbody : ∀ e ∈ entries, e.frame = frame e.body ∧ FrameBody e.body := fun e he =>
    have hdecodes := (hentries e he).1.decodes (hentries e he).2
    ⟨hdecodes.1, hdecodes.2.1⟩
  have hframes : entries.map LogEntry.frame = entries.map fun e => frame e.body :=
    List.map_congr_left fun e he => (hbody e he).1
  have htext : f.bytes = headerText writerConfig.clientEphPub (List.replicate 4 0) ++
      frames (entries.map LogEntry.body) := by
    rw [hbytes, shardText, hframes, frames, List.flatMap_map]
    rfl
  rw [Shard.nonces, htext, readShardHeader_headerText writerConfig.pub_length (by simp)]
  simp only [splitFrames_frames (List.forall_mem_map.mpr fun e he => (hbody e he).2), List.map_map]
  rfl

-- ═══════════════════════════════════════════════════════════════════════════
-- Runs
-- ═══════════════════════════════════════════════════════════════════════════

/-- The calls that have come to `Append` and those that have thrown. -/
def SharedSink.ended (s : SharedSink T) : ℕ := s.logged.length + s.threw.length

/-- As long as there were at most `2 ^ 32` calls, the frames have been sealed with different
values of the counter, all of them below the next one. -/
structure NonceInv (noncePrefix : Vector UInt8 8) (s : SharedSink T) : Prop where
  prefix_eq : s.cipher.noncePrefix = noncePrefix
  drawn : s.ended ≤ 2 ^ 32 → ∃ n ≤ s.ended, s.cipher.counter = n % 2 ^ 32 ∧
    ∃ values : List ℕ, values.Nodup ∧ (∀ c ∈ values, c < n) ∧
      s.logged.map (fun e => e.2.nonce) = values.map (nonceBytes noncePrefix)

theorem fetchAddCounter_mod (n : ℕ) : fetchAddCounter (n % 2 ^ 32) = (n + 1) % 2 ^ 32 := by
  rw [fetchAddCounter, Nat.mod_add_mod]

/-- Every step keeps the invariant. -/
theorem NonceInv.step {noncePrefix : Vector UInt8 8} (h : NonceInv noncePrefix s)
    (hm : SharedMove deps answers parts s ev s') : NonceInv noncePrefix s' := by
  cases hm with
  | store | finished => exact ⟨h.prefix_eq, h.drawn⟩
  | quiet t x hx hidle mu hmu calls cipher threw hthrew =>
    rcases hthrew with ⟨rfl, rfl⟩ | ⟨rfl, msg, pid, tid, fuel, what, hlog⟩
    · exact ⟨h.prefix_eq, h.drawn⟩
    · constructor
      · rcases cipher_logFrame hlog with rfl | rfl <;> exact h.prefix_eq
      · intro hfew
        simp only [SharedSink.ended, List.length_append, List.length_singleton] at hfew ⊢
        obtain ⟨n, hn, hcounter, values, hnodup, hlt, hnonces⟩ := h.drawn (by
          rw [SharedSink.ended]
          omega)
        rw [SharedSink.ended] at hn
        rcases cipher_logFrame hlog with rfl | rfl
        · exact ⟨n, by omega, hcounter, values, hnodup, hlt, hnonces⟩
        · refine ⟨n + 1, by omega, ?_, values, hnodup, fun c hc => ?_, hnonces⟩
          · dsimp only
            rw [hcounter, fetchAddCounter_mod]
          · exact (hlt c hc).trans (Nat.lt_succ_self n)
  | logged t entry cipher store hfree hlog hstore =>
    obtain ⟨fuel, hlog⟩ := hlog
    obtain ⟨hnonce, rfl⟩ := nonce_of_logFrame hlog
    refine ⟨h.prefix_eq, fun hfew => ?_⟩
    simp only [SharedSink.ended, List.length_append, List.length_singleton] at hfew ⊢
    obtain ⟨n, hn, hcounter, values, hnodup, hlt, hnonces⟩ := h.drawn (by
      rw [SharedSink.ended]
      omega)
    rw [SharedSink.ended] at hn
    have hmod : n % 2 ^ 32 = n := Nat.mod_eq_of_lt (by omega)
    refine ⟨n + 1, by omega, by rw [hcounter, fetchAddCounter_mod], values ++ [n], ?_, ?_, ?_⟩
    · refine hnodup.append (List.nodup_singleton n) (List.disjoint_singleton.mpr fun hmem => ?_)
      exact Nat.lt_irrefl n (hlt n hmem)
    · intro c hc
      rcases List.mem_append.mp hc with hold | hnew
      · exact (hlt c hold).trans (Nat.lt_succ_self n)
      · rw [List.mem_singleton.mp hnew]
        exact Nat.lt_succ_self n
    · rw [List.map_append, List.map_append, hnonces, List.map_singleton, List.map_singleton,
        hnonce, h.prefix_eq, hcounter, hmod]

omit [DecidableEq T] [Fintype T] in
/-- The frames that have come to `Append` have different nonces. -/
theorem NonceInv.nodup {noncePrefix : Vector UInt8 8} (h : NonceInv noncePrefix s)
    (hfew : s.ended ≤ 2 ^ 32) : (s.logged.map fun e => e.2.nonce).Nodup := by
  obtain ⟨n, hn, -, values, hnodup, hlt, hnonces⟩ := h.drawn hfew
  rw [hnonces]
  refine List.Nodup.map_on (fun c hc c' hc' heq => ?_) hnodup
  have hle := hn.trans hfew
  exact nonceBytes_injective noncePrefix ((hlt c hc).trans_le hle) ((hlt c' hc').trans_le hle) heq

omit [DecidableEq T] [Fintype T] in
/-- A new sink has drawn no value. -/
theorem NonceInv.create (hcreate : SharedSink.create deps cfg answers = some (parts, s)) :
    NonceInv s.cipher.noncePrefix s := by
  obtain ⟨a, ha, -, hs⟩ := SharedSink.of_create hcreate
  have hcounter : a.cipher.counter = 0 := by
    simp only [EffectiveSink.create, Option.bind_eq_bind, Option.bind_eq_some_iff] at ha
    obtain ⟨_, _, _, _, _, _, _, _, _, _, _, _, _, _, hlength⟩ := ha
    split at hlength <;> cases hlength
    rfl
  refine ⟨rfl, fun _ => ⟨0, Nat.zero_le _, ?_, [], List.nodup_nil, List.forall_mem_nil _, ?_⟩⟩
  · rw [hs]
    exact hcounter
  · rw [hs]
    rfl

/-- In whatever order threads call a sink: up to `2 ^ 32` calls of `Log` that have come to
`Append` or thrown, no two frames have been sealed with the same nonce. -/
theorem logged_nonces_distinct {ok : SharedSink T → SharedEvent T → Prop}
    (hcreate : SharedSink.create deps cfg answers = some (parts, s₀))
    (hr : Reach (sharedStep deps answers parts) ok s₀ s)
    (hfew : s.logged.length + s.threw.length ≤ 2 ^ 32) :
    (s.logged.map fun e => e.2.nonce).Nodup :=
  (hr.invariant (NonceInv.create hcreate) fun _ _ _ h _ hstep =>
    h.step (SharedMove.of_sharedStep hstep)).nodup hfew

/-- Threads share a sink and call `Log` and `Flush` as they like. At any moment, if up to
`2 ^ 32` calls of `Log` have come to `Append` or thrown, no slot was reserved in a recycled
buffer and no `fopen` or `fwrite` failed, no nonce stands twice among the frames that the
reader comes across in the shards, be it in one of them or in two. -/
theorem shard_nonces_distinct [Nonempty T] (hzero : ZeroFiles cfg.storeConfig)
    (hcreate : SharedSink.create deps cfg answers = some (parts, s₀))
    (hr : Reach (sharedStep deps answers parts) Overlapping s₀ s)
    (hfew : s.logged.length + s.threw.length ≤ 2 ^ 32)
    (hclean : ∀ c ∈ s.store.env.calls, c.Clean) : (s.files.flatMap Shard.nonces).Nodup := by
  obtain ⟨t⟩ := ‹Nonempty T›
  obtain ⟨a, hcreated, -, hinv⟩ := Reach.seenInv t hcreate hr
  obtain ⟨kept, hkept, hframes, -⟩ := exists_overlapping_kept hzero hcreate hr hinv
  have hframes : persisted (s.seenBy t).store.hist = (kept.map Prod.snd).map LogEntry.frame :=
    (persisted_map_solo _).trans hframes
  obtain ⟨groups, hflatten, hfiles⟩ := hinv.files_bytes hcreated.construct hclean hframes
  have hentry : ∀ es ∈ groups, ∀ e ∈ es,
      e.Encoded deps parts.compressor.level a.cipher.key ∧ FrameLength e.frame := by
    intro es hes e he
    have hmem : e ∈ kept.map Prod.snd := hflatten ▸ List.mem_flatten_of_mem hes he
    exact ⟨hinv.encoded e ((hkept.map Prod.snd).subset hmem), hinv.frameLength hframes e hmem⟩
  have hall : List.Forall₂ (fun f es => f.nonces = es.map LogEntry.nonce) s.files groups :=
    forall₂_of_map_eq hfiles fun f es hes hbytes => nonces_of_bytes (hentry es hes) hbytes
  have hnonces : s.files.flatMap Shard.nonces = kept.map fun e => e.2.nonce := by
    have hmap : s.files.map Shard.nonces = groups.map (List.map LogEntry.nonce) := by
      rw [← List.forall₂_eq_eq_eq, List.forall₂_map_left_iff, List.forall₂_map_right_iff]
      exact hall
    rw [List.flatMap_def, hmap, ← List.map_flatten, hflatten, List.map_map]
    rfl
  rw [hnonces]
  exact (logged_nonces_distinct hcreate hr hfew).sublist (hkept.map _)

/-- The two frames of two threads, in two shards. -/
theorem shard_nonces_distinct_flushed : ∃ s : SharedSink (Fin 3), s.logged.length = 2 ∧
    s.files.length = 2 ∧ (s.files.flatMap Shard.nonces).Nodup := by
  obtain ⟨parts, s₀, s, hcreate, hr, -, -, hlogged, hthrew, hclean, hnames, -⟩ :=
    exists_flushedLoggers
  have hzero : ZeroFiles (plainSinkConfig 1).storeConfig := by rintro _ _ ⟨⟩
  have htwo := congrArg List.length hlogged
  have hfiles := congrArg List.length hnames
  rw [List.length_map] at htwo hfiles
  refine ⟨s, htwo, hfiles, shard_nonces_distinct hzero hcreate hr ?_ hclean⟩
  rw [htwo, hthrew]
  decide

end LoggerHigh
