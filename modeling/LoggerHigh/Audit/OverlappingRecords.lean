import LoggerHigh.Audit.ShardDirectory
import LoggerHigh.Sinks.OverlappingFlush

/-!
# What is read when Flush overlaps Log

Threads share a sink, and call `Flush` whenever they like. As long as no buffer is
written again once it has been drained, nothing is lost but what `Log` has reported as
dropped, and the order is still that of the mutex.

## Main results

- `exists_overlapping_kept` — what a sink has handed to its writer
- `overlapped_directory` — what is read from its directory
-/

namespace LoggerHigh

open Transition

variable {deps : SinkDeps} {cfg : EffectiveSinkConfig} {answers : SinkAnswers} {parts : SinkParts}
  {T : Type} [DecidableEq T] [Fintype T] {s₀ s : SharedSink T} {dir : AuditDir}
  {serverPriv : Bytes}

/-- What a sink has handed on is among what has been logged, in the order in which the threads
got hold of the mutex; and a destroyed sink has handed on all but what it has reported as
dropped. -/
theorem exists_overlapping_kept (hzero : ZeroFiles cfg.storeConfig)
    (hcreate : SharedSink.create deps cfg answers = some (parts, s₀))
    (hr : Reach (sharedStep deps answers parts) Overlapping s₀ s) {t : T} {key : Bytes}
    {writer₀ : ShardWriter} (hinv : SinkInv deps parts key writer₀ (s.seenBy t)) :
    ∃ kept : List (T × LogEntry), kept.Sublist s.logged ∧
      persisted s.store.hist = (kept.map Prod.snd).map LogEntry.frame ∧
      (s.phase = .destroyed → kept.length + s.dropped.length = s.logged.length) := by
  obtain ⟨a, ha, hstore, -⟩ := SharedSink.of_create hcreate
  have hcalled : called s.store.hist = s.logged.map fun e => e.2.frame := by
    have hseen := (called_map_solo s.store.hist).symm.trans hinv.called
    rwa [SharedSink.seenBy, List.map_map] at hseen
  have henv : s₀.store.env = a.store.env :=
    env_of_create (StoreState.create_solo hstore t)
  rw [← henv] at hstore
  have hstate := SerialState.of_reach ((Created.of_create ha).storeConfig ▸ hzero) hstore
    (Reach.serial hcreate hr)
  have hsub := hstate.persisted_prefix.sublist.trans hstate.accepted_sublist
  rw [hcalled] at hsub
  obtain ⟨kept, hkept, hframes⟩ := List.sublist_map_iff.mp hsub
  refine ⟨kept, hkept, by rw [hframes, List.map_map]; rfl, fun hdestroyed => ?_⟩
  obtain ⟨hpersisted, hlength⟩ := hstate.destroyed (hinv.destroyed hdestroyed)
  rw [hcalled, ← hpersisted, hframes, List.length_map, List.length_map] at hlength
  exact hlength.symm

/-- Threads share a sink, any of them calls `Flush` at any time, and its owner destroys it
when all of them are outside. The files of the buffers were zero-filled, no slot was
reserved in a recycled buffer, the destructor's `Flush` was not cut short, no `fopen` or
`fwrite` failed, there were fewer than `2 ^ 32` openings, and what was logged is UTF-8.
Then `DecodeShardDir` returns one record for each message logged but for as many as were
dropped; it returns them in the order in which the threads got hold of the mutex, if the
order of the names is that of the openings; and in this order stand the messages of each
thread. -/
theorem overlapped_directory [Nonempty T] (hpriv : serverPriv.length = kServerPrivBytes)
    (hpub : loadServerPublicKey cfg.serverPubKeyPath cfg.serverPubKeyFile =
      .ok (deps.x25519.generatePublicKey serverPriv))
    (hzero : ZeroFiles cfg.storeConfig)
    (hcreate : SharedSink.create deps cfg answers = some (parts, s₀))
    (hr : Reach (sharedStep deps answers parts) Overlapping s₀ s)
    (hdestroyed : s.phase = .destroyed) (hclean : ∀ c ∈ s.store.env.calls, c.Clean)
    (hutf8 : ∀ e ∈ s.logged, e.2.msg.Utf8)
    (hfew : (answers.firstOpening :: openingsOf parts.writerConfig s₀.store.env.writer
      s.store.env.calls).length < 2 ^ 32)
    (hdir : dir.Shows s.files) :
    ∃ kept : List (T × LogEntry), kept.Sublist s.logged ∧
      kept.length + s.dropped.length = s.logged.length ∧
      (∀ t, ((ofThread t kept).map LogEntry.msg).Sublist (ofThread t s.calls)) ∧
      ∃ n, ∀ fuel, n ≤ fuel → ∃ records,
        decodeShardDir deps.audit dir serverPriv fuel = some (.ok records) ∧
        records.Perm (kept.map fun e => e.2.record) ∧
        (InNameOrder (s.files.map Shard.path) → records = kept.map fun e => e.2.record) := by
  obtain ⟨t⟩ := ‹Nonempty T›
  have horder := Reach.orderInv hcreate hr
  obtain ⟨a, hcreated, hseen, hinv⟩ := Reach.seenInv t hcreate hr
  obtain ⟨kept, hkept, hframes, hlength⟩ := exists_overlapping_kept hzero hcreate hr hinv
  obtain ⟨groups, hflatten, n, hn⟩ := hinv.files_readAs hcreated.construct
    (hcreated.deriveAesKey hpriv hpub) hclean ((persisted_map_solo _).trans hframes)
    (hkept.map Prod.snd).subset
  have hgood : ∀ e ∈ groups.flatten, e.msg.Utf8 := by
    rw [hflatten]
    exact List.forall_mem_map.mpr fun e he => hutf8 e (hkept.subset he)
  refine ⟨kept, hkept, hlength hdestroyed, fun u => ?order, n, fun fuel hfuel => ?read⟩
  case order =>
    have hofThread : (ofThread u kept).Sublist (ofThread u s.logged) := (hkept.filter _).map _
    exact (hofThread.map LogEntry.msg).trans ((List.sublist_append_left _ _).trans (horder.sub u))
  case read =>
    have hwriter : s₀.store.env.writer = a.store.env.writer := by rw [← hseen]; rfl
    have hread := hdir.decodeShardDir (fun f hf => inDirectory_run hcreated.construct hinv.written
      (hwriter ▸ hfew) hf) (reads_of_readsAs ((hn fuel hfuel).imp fun _ _ h => h.2) hgood)
    rwa [hflatten, List.map_map] at hread

/-- Thread 2 flushes while thread 0 fills a slot and thread 1 waits for the mutex; the drain
of its buffer waits for thread 0. -/
def flushedLoggers : List (SharedEvent (Fin 3)) :=
  let steps (t : Fin 3) (n : ℕ) := List.replicate n (SharedEvent.inStore (.step t))
  let strand (n : ℕ) := List.replicate n (SharedEvent.inStore .drain)
  [SharedEvent.log 0 (plainMsg 97) 7 7, SharedEvent.lock 0 20] ++ steps 0 4 ++
    [SharedEvent.log 1 (plainMsg 98) 7 8, SharedEvent.flush 2] ++ steps 2 6 ++ strand 4 ++
    steps 0 3 ++ [SharedEvent.unlock 0, SharedEvent.lock 1 20] ++ strand 14 ++ steps 1 7 ++
    [SharedEvent.unlock 1] ++ steps 2 1 ++ [SharedEvent.flushed 2, SharedEvent.destroy 0] ++
    steps 0 6 ++ strand 17 ++ steps 0 1 ++ [SharedEvent.advance 0] ++ steps 0 4 ++
    [SharedEvent.advance 0]

set_option synthInstance.maxSize 2048 in
theorem run_flushedLoggers :
    ((SharedSink.create plainSinkDeps (plainSinkConfig 1) plainSinkAnswers).bind fun c =>
      (run (guarded (sharedStep plainSinkDeps plainSinkAnswers c.1) Overlapping) c.2
          flushedLoggers).map
        fun (s : SharedSink (Fin 3)) => (s.phase, s.dropped.length, s.logged.map fun e =>
          (e.1, e.2.msg), s.threw, s.store.env.calls.all fun c => decide c.Clean,
          s.files.map Shard.path,
          (openingsOf c.1.writerConfig c.2.store.env.writer s.store.env.calls).length)) =
      some (.destroyed, 0, [(0, plainMsg 97), (1, plainMsg 98)], [], true,
        ["log-19700101-000000-000-0000.bin".toList, "log-19700101-000000-000-0001.bin".toList],
        1) := by
  decide +kernel

/-- What that run comes to. -/
theorem exists_flushedLoggers : ∃ (parts : SinkParts) (s₀ s : SharedSink (Fin 3)),
    SharedSink.create plainSinkDeps (plainSinkConfig 1) plainSinkAnswers = some (parts, s₀) ∧
      Reach (sharedStep plainSinkDeps plainSinkAnswers parts) Overlapping s₀ s ∧
      s.phase = .destroyed ∧ s.dropped = [] ∧
      (s.logged.map fun e => (e.1, e.2.msg)) = [(0, plainMsg 97), (1, plainMsg 98)] ∧
      s.threw = [] ∧ (∀ c ∈ s.store.env.calls, c.Clean) ∧
      s.files.map Shard.path =
        ["log-19700101-000000-000-0000.bin".toList, "log-19700101-000000-000-0001.bin".toList] ∧
      (openingsOf parts.writerConfig s₀.store.env.writer s.store.env.calls).length = 1 := by
  obtain ⟨⟨parts, s₀⟩, hcreate, hrun⟩ := Option.bind_eq_some_iff.mp run_flushedLoggers
  obtain ⟨s, hrun, hs⟩ := Option.map_eq_some_iff.mp hrun
  simp only [Prod.mk.injEq] at hs
  obtain ⟨hdestroyed, hdropped, hlogged, hthrew, hclean, hnames, hopenings⟩ := hs
  exact ⟨parts, s₀, s, hcreate, Reach.of_run_guarded hrun, hdestroyed,
    List.length_eq_zero_iff.mp hdropped, hlogged, hthrew, by simpa using hclean, hnames, hopenings⟩

/-- The messages of two threads, one of them logged during a `Flush`. -/
theorem overlapped_directory_flushed : ∃ (s : SharedSink (Fin 3)) (kept : List (Fin 3 × LogEntry)),
    kept.length = 2 ∧ ∃ n, ∀ fuel, n ≤ fuel → ∃ records,
      decodeShardDir plainSinkDeps.audit (listingOf s.files) (List.replicate 32 5) fuel =
        some (.ok records) ∧ records.Perm (kept.map fun e => e.2.record) := by
  obtain ⟨parts, s₀, s, hcreate, hr, hdestroyed, hdropped, hlogged, -, hclean, hnames, hopenings⟩ :=
    exists_flushedLoggers
  have hzero : ZeroFiles (plainSinkConfig 1).storeConfig := by rintro _ _ ⟨⟩
  have hpriv : (List.replicate 32 (5 : UInt8)).length = kServerPrivBytes := rfl
  have htwo := congrArg List.length hlogged
  rw [List.length_map] at htwo
  have hutf8 : ∀ e ∈ s.logged, e.2.msg.Utf8 := by
    intro e he
    have hmem : (e.1, e.2.msg) ∈ [((0 : Fin 3), plainMsg 97), (1, plainMsg 98)] :=
      hlogged ▸ List.mem_map_of_mem (f := fun e => (e.1, e.2.msg)) he
    rcases List.mem_pair.mp hmem with hmsg | hmsg
    all_goals
      rw [(Prod.mk.inj hmsg).2]
      exact .plain (by decide)
  obtain ⟨kept, -, hlength, -, n, hn⟩ := overlapped_directory hpriv rfl hzero hcreate hr hdestroyed
    hclean hutf8 (by rw [List.length_cons, hopenings]; decide)
    (shows_listingOf (by rw [hnames]; decide))
  rw [hdropped, htwo] at hlength
  refine ⟨s, kept, hlength, n, fun fuel hfuel => ?_⟩
  obtain ⟨records, hread, hperm, -⟩ := hn fuel hfuel
  exact ⟨records, hread, hperm⟩

end LoggerHigh
