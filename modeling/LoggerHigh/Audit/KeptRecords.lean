import LoggerHigh.Audit.RecordIsolation
import LoggerHigh.Sinks.SharedSink

/-!
# What threads have logged and what is read

Threads share a sink and no `Flush` overlaps a `Log`. What they do is a run of a sink
with one thread, and when the sink has been destroyed, the shards give back what it has
not dropped: in the order in which the calls of `Log` got hold of `pipeline_mu_`, and so
for each thread in the order of its calls.

## Main definitions

- `Unbroken` — the steps that lose nothing silently

## Main results

- `exists_kept_entries` — what a destroyed sink has handed to its writer, and how much it has not
- `shared_refines_sink` — threads that take turns do what one thread can do
- `exists_kept_files` — what the files hold of what threads have logged
- `shared_round_trip` — what is read is what has been logged and not dropped
-/

namespace LoggerHigh

open Transition

/-- No `Flush` that finds a frame fails to construct a buffer, and no reservation wraps. -/
def Unbroken (store : StoreState Unit PersistEnv) (e : StoreEvent Unit) : Prop :=
  KeepsFlush store e ∧ NoWrap store e

instance (store : StoreState Unit PersistEnv) (e : StoreEvent Unit) :
    Decidable (Unbroken store e) :=
  inferInstanceAs (Decidable (_ ∧ _))

/-- Calls of the store are no such steps. -/
theorem unbroken_of_outside (store : StoreState Unit PersistEnv) (e : StoreEvent Unit)
    (h : e.inside = false) : Unbroken store e := by
  cases e <;> first | exact ⟨trivial, trivial⟩ | cases h

variable {deps : SinkDeps} {cfg : EffectiveSinkConfig} {answers : SinkAnswers} {parts : SinkParts}

-- ═══════════════════════════════════════════════════════════════════════════
-- One thread
-- ═══════════════════════════════════════════════════════════════════════════

section Single

variable {s₀ s : EffectiveSink}

/-- What holds in every state of a store none of whose `Flush`es has been cut short. -/
theorem FlushState.of_reach {cfg : StoreConfig} {onPersist : PersistEnv → Bytes → PersistEnv × Bool}
    {env : PersistEnv} {s₀ s : StoreState Unit PersistEnv}
    (hcreate : StoreState.create cfg env = some s₀)
    (hr : Reach (storeStep cfg onPersist) Unbroken s₀ s) : FlushState cfg.normalise s := by
  have hopen := StoreState.create_opens hcreate
  refine hr.invariant (I := FlushState cfg.normalise) (FlushState.create hcreate) ?_
  intro s e s' h hok hstep
  exact h.step (StoreMove.of_storeStep hstep) hopen hok.1 hok.2

/-- A destroyed sink has handed on all but what it has reported as dropped. -/
theorem exists_kept_entries {key : Bytes} {writer₀ : ShardWriter}
    (hcreate : StoreState.create parts.storeConfig s₀.store.env = some s₀.store)
    (hzero : ZeroFiles parts.storeConfig)
    (hr : Reach (sinkStep deps answers parts) (SinkEvent.Within Unbroken) s₀ s)
    (hinv : SinkInv deps parts key writer₀ s) (hdestroyed : s.phase = .destroyed) :
    ∃ kept : List LogEntry, persisted s.store.hist = kept.map LogEntry.frame ∧
      kept.Sublist s.logged ∧ kept.length + s.dropped.length = s.logged.length := by
  have hreach := Reach.within unbroken_of_outside hr
  have hstore := hinv.destroyed hdestroyed
  have hstate := FlushState.of_reach hcreate hreach
  have hpersisted : persisted s.store.hist = accepted s.store.hist :=
    (Reach.persisted_prefix hzero hcreate (hreach.mono fun _ _ h => h.2)).sublist.antisymm
      (hstate.accepted_sublist hstore)
  have hcalls : CallsInv s.store := hreach.invariant (CallsInv.create hcreate)
    fun _ _ _ h _ hstep => h.step (StoreMove.of_storeStep hstep)
  have hsub : (persisted s.store.hist).Sublist (s.logged.map LogEntry.frame) := by
    rw [hpersisted, ← hinv.called]
    exact hcalls.accepted_sublist
  obtain ⟨kept, hkept, hframes⟩ := List.sublist_map_iff.mp hsub
  refine ⟨kept, hframes, hkept, ?_⟩
  have hidle : s.store.pc () = .idle := (hstate.down.destroyed hstore).2.2 ()
  have hlength := hcalls.length_eq
  rw [hinv.called, ← hpersisted, hframes, hidle] at hlength
  simpa [Pc.appending, EffectiveSink.dropped] using hlength.symm

/-- Files whose messages are UTF-8 give all of their records. -/
theorem reads_of_readsAs {writerConfig : ShardWriterConfig} {serverPriv : Bytes} {fuel : ℕ}
    {files : List Shard} {groups : List (List LogEntry)}
    (h : List.Forall₂ (Shard.ReadsAs deps writerConfig serverPriv fuel) files groups)
    (hutf8 : ∀ e ∈ groups.flatten, e.msg.Utf8) :
    List.Forall₂ (fun f es => ∀ path, decodeShardFile deps.audit path (some f.bytes) serverPriv
      fuel = some (.ok (es.map LogEntry.record))) files groups := by
  induction h with
  | nil => exact .nil
  | @cons f es files groups hfile _ ih =>
    rw [List.flatten_cons, List.forall_mem_append] at hutf8
    have hgood : ∀ e ∈ es, e.record.Utf8 := fun e he => (hutf8.1 e he).logRecord e.pid e.tid
    refine .cons (fun path => ?_) (ih hutf8.2)
    rw [hfile.read, if_pos hgood]

end Single

-- ═══════════════════════════════════════════════════════════════════════════
-- Threads
-- ═══════════════════════════════════════════════════════════════════════════

section Shared

variable {T : Type} [DecidableEq T] [Fintype T] {s₀ s : SharedSink T}
  {ok : StoreState Unit PersistEnv → StoreEvent Unit → Prop}

/-- The shard files in the order of opening. -/
def SharedSink.files (s : SharedSink T) : List Shard := (closeCurrent s.store.env.writer).closed

/-- The frames of the calls of `Log` that dropped their record. -/
def SharedSink.dropped (s : SharedSink T) : List Bytes := rejected s.store.hist

/-- The order of each thread's messages in every state reached. -/
theorem Reach.orderInv {ok : SharedSink T → SharedEvent T → Prop}
    (hcreate : SharedSink.create deps cfg answers = some (parts, s₀))
    (hr : Reach (sharedStep deps answers parts) ok s₀ s) : OrderInv s := by
  obtain ⟨a₀, -, -, hs₀⟩ := SharedSink.of_create hcreate
  exact hr.invariant (OrderInv.create hs₀) fun _ _ _ h _ hstep => h.step hstep

/-- Threads share a sink, and no `Flush` overlaps a `Log` or another `Flush`. What they
have done is a run of a sink with one thread, which has called `Log` in the order in which
the threads got hold of the mutex. The messages of each thread that came to `Append` stand
there in the order of its calls, and for a thread outside they are all but those whose
`Log` threw. -/
theorem shared_refines_sink [Nonempty T]
    (hcreate : SharedSink.create deps cfg answers = some (parts, s₀))
    (hr : Reach (sharedStep deps answers parts) (Exclusive ok) s₀ s) :
    (∃ a₀ a, EffectiveSink.create deps cfg answers = some (parts, a₀) ∧
      Reach (sinkStep deps answers parts) (SinkEvent.Within ok) a₀ a ∧ ∃ t, a = s.seenBy t) ∧
    ∀ t, ((ofThread t s.logged).map LogEntry.msg).Sublist (ofThread t s.calls) ∧
      (s.pc t = .outside → (ofThread t s.calls).length =
        (ofThread t s.logged).length + s.threw.count t) := by
  have horder := Reach.orderInv hcreate hr
  obtain ⟨a₀, a, ha₀, hreach, t, -, rfl⟩ := Reach.seenBy hcreate hr
  refine ⟨⟨a₀, _, ha₀, hreach, t, rfl⟩, fun u => ⟨?sublist, fun houtside => ?length⟩⟩
  case sublist => exact (List.sublist_append_left _ _).trans (horder.sub u)
  case length =>
    have hlength := horder.length_eq u
    rwa [houtside] at hlength

omit [DecidableEq T] [Fintype T] in
/-- `Create` has constructed the writer. -/
theorem SharedSink.construct_of_create [Nonempty T]
    (hcreate : SharedSink.create deps cfg answers = some (parts, s₀)) :
    construct parts.writerConfig answers.firstOpening = some s₀.store.env.writer := by
  obtain ⟨a, ha, hstore, -⟩ := SharedSink.of_create hcreate
  obtain ⟨t⟩ := ‹Nonempty T›
  have henv : s₀.store.env = a.store.env := env_of_create (StoreState.create_solo hstore t)
  rw [henv]
  exact (Created.of_create ha).construct

/-- What the files of a destroyed sink are read as: what has been logged and not dropped. -/
theorem exists_kept_files [Nonempty T] {serverPriv : Bytes}
    (hpriv : serverPriv.length = kServerPrivBytes)
    (hpub : loadServerPublicKey cfg.serverPubKeyPath cfg.serverPubKeyFile =
      .ok (deps.x25519.generatePublicKey serverPriv))
    (hzero : ZeroFiles cfg.storeConfig)
    (hcreate : SharedSink.create deps cfg answers = some (parts, s₀))
    (hr : Reach (sharedStep deps answers parts) (Exclusive Unbroken) s₀ s)
    (hdestroyed : s.phase = .destroyed) (hclean : ∀ c ∈ s.store.env.calls, c.Clean) :
    ∃ kept : List (T × LogEntry), kept.Sublist s.logged ∧
      kept.length + s.dropped.length = s.logged.length ∧
      (∀ t, ((ofThread t kept).map LogEntry.msg).Sublist (ofThread t s.calls)) ∧
      ∃ groups : List (List LogEntry), groups.flatten = kept.map Prod.snd ∧ ∃ n, ∀ fuel, n ≤ fuel →
        List.Forall₂ (Shard.ReadsAs deps parts.writerConfig serverPriv fuel) s.files groups := by
  have horder := Reach.orderInv hcreate hr
  obtain ⟨a₀, a, ha₀, hreach, t, -, rfl⟩ := Reach.seenBy hcreate hr
  have hcreated := Created.of_create ha₀
  have hinv := Reach.sinkInv hcreated hreach
  obtain ⟨kept', hframes, hsub, hlength⟩ := exists_kept_entries hcreated.store
    (hcreated.storeConfig ▸ hzero) hreach hinv hdestroyed
  obtain ⟨groups, hflatten, n, hn⟩ := hinv.files_readAs hcreated.construct
    (hcreated.deriveAesKey hpriv hpub) hclean hframes hsub.subset
  obtain ⟨kept, hkept, rfl⟩ := List.sublist_map_iff.mp hsub
  refine ⟨kept, hkept, ?dropped, fun u => ?order, groups, hflatten, n, fun fuel hfuel =>
    (hn fuel hfuel).imp fun _ _ h => h.2⟩
  case dropped =>
    have hdropped : (s.seenBy t).dropped = s.dropped := rejected_map_solo s.store.hist
    rw [hdropped] at hlength
    simpa [SharedSink.seenBy] using hlength
  case order =>
    have hofThread : (ofThread u kept).Sublist (ofThread u s.logged) := (hkept.filter _).map _
    exact (hofThread.map LogEntry.msg).trans ((List.sublist_append_left _ _).trans (horder.sub u))

/-- Threads share a sink and its owner destroys it. No `Flush` overlapped a `Log` or
another `Flush`, the files of the buffers were zero-filled, no `Flush` that found a frame
failed to construct a buffer, no `fopen` or `fwrite` failed, and what was logged is UTF-8.
Then the shards, read in the order of their opening with the private key of the server,
give one record for each message logged but for as many as were dropped, in the order in
which the threads got hold of the mutex; and in this order stand the messages of each
thread. -/
theorem shared_round_trip [Nonempty T] {serverPriv : Bytes}
    (hpriv : serverPriv.length = kServerPrivBytes)
    (hpub : loadServerPublicKey cfg.serverPubKeyPath cfg.serverPubKeyFile =
      .ok (deps.x25519.generatePublicKey serverPriv))
    (hzero : ZeroFiles cfg.storeConfig)
    (hcreate : SharedSink.create deps cfg answers = some (parts, s₀))
    (hr : Reach (sharedStep deps answers parts) (Exclusive Unbroken) s₀ s)
    (hdestroyed : s.phase = .destroyed) (hclean : ∀ c ∈ s.store.env.calls, c.Clean)
    (hutf8 : ∀ e ∈ s.logged, e.2.msg.Utf8) :
    ∃ kept : List (T × LogEntry), kept.Sublist s.logged ∧
      kept.length + s.dropped.length = s.logged.length ∧
      (∀ t, ((ofThread t kept).map LogEntry.msg).Sublist (ofThread t s.calls)) ∧
      ∃ records, List.Forall₂ (fun e r => e.2.msg.RecordedAs r) kept records ∧
        ∃ n, ∀ fuel, n ≤ fuel →
          decodeShards deps.audit serverPriv fuel s.files = some (.ok records) := by
  obtain ⟨kept, hkept, hlength, horder, groups, hflatten, n, hn⟩ :=
    exists_kept_files hpriv hpub hzero hcreate hr hdestroyed hclean
  refine ⟨kept, hkept, hlength, horder, groups.flatten.map LogEntry.record, ?shown, n,
    fun fuel hfuel => ?read⟩
  case shown =>
    rw [hflatten, List.map_map, List.forall₂_map_right_iff, List.forall₂_same]
    exact fun e _ => recordedAs_logRecord e.2.msg e.2.pid e.2.tid
  case read =>
    have hgood : ∀ e ∈ groups.flatten, e.msg.Utf8 := by
      rw [hflatten]
      exact List.forall_mem_map.mpr fun e he => hutf8 e (hkept.subset he)
    rw [List.map_flatten]
    refine decodeShards_eq ?_
    rw [List.forall₂_map_right_iff]
    exact (reads_of_readsAs (hn fuel hfuel) hgood).imp fun f _ h => h _

end Shared

-- ═══════════════════════════════════════════════════════════════════════════
-- Two threads
-- ═══════════════════════════════════════════════════════════════════════════

/-- Both threads call `Log`, the second one gets hold of the mutex first, and the first one
destroys the sink. -/
def twoLoggers : List (SharedEvent Bool) :=
  let inStore (t : Bool) (n : ℕ) := List.replicate n (SharedEvent.inStore (.step t))
  let strand (n : ℕ) := List.replicate n (SharedEvent.inStore .drain)
  [.log false (plainMsg 97) 7 7, .log true (plainMsg 98) 7 8, .lock true 20] ++ inStore true 7 ++
    [.unlock true, .lock false 20] ++ inStore false 7 ++ [.unlock false, .destroy false] ++
    inStore false 6 ++ strand 18 ++ inStore false 1 ++ [.advance false] ++ inStore false 4 ++
    [.advance false]

set_option synthInstance.maxSize 512 in
theorem run_twoLoggers :
    ((SharedSink.create plainSinkDeps (plainSinkConfig 1) plainSinkAnswers).bind fun c =>
      (run (guarded (sharedStep plainSinkDeps plainSinkAnswers c.1) (Exclusive Unbroken)) c.2
          twoLoggers).map
        fun (s : SharedSink Bool) => (s.phase, s.dropped.length, s.logged.map fun e =>
          (e.1, e.2.msg), s.store.env.calls.all fun c => decide c.Clean, s.files.map Shard.path,
          (openingsOf c.1.writerConfig c.2.store.env.writer s.store.env.calls).length)) =
      some (.destroyed, 0, [(true, plainMsg 98), (false, plainMsg 97)], true,
        ["log-19700101-000000-000-0000.bin".toList, "log-19700101-000000-000-0001.bin".toList],
        1) := by
  decide +kernel

/-- What that run comes to. -/
theorem exists_twoLoggers : ∃ (parts : SinkParts) (s₀ s : SharedSink Bool),
    SharedSink.create plainSinkDeps (plainSinkConfig 1) plainSinkAnswers = some (parts, s₀) ∧
      Reach (sharedStep plainSinkDeps plainSinkAnswers parts) (Exclusive Unbroken) s₀ s ∧
      s.phase = .destroyed ∧ s.dropped = [] ∧
      (s.logged.map fun e => (e.1, e.2.msg)) = [(true, plainMsg 98), (false, plainMsg 97)] ∧
      (∀ c ∈ s.store.env.calls, c.Clean) ∧
      s.files.map Shard.path =
        ["log-19700101-000000-000-0000.bin".toList, "log-19700101-000000-000-0001.bin".toList] ∧
      (openingsOf parts.writerConfig s₀.store.env.writer s.store.env.calls).length = 1 := by
  obtain ⟨⟨parts, s₀⟩, hcreate, hrun⟩ := Option.bind_eq_some_iff.mp run_twoLoggers
  obtain ⟨s, hrun, hs⟩ := Option.map_eq_some_iff.mp hrun
  simp only [Prod.mk.injEq] at hs
  obtain ⟨hdestroyed, hdropped, hlogged, hclean, hnames, hopenings⟩ := hs
  exact ⟨parts, s₀, s, hcreate, Reach.of_run_guarded hrun, hdestroyed,
    List.length_eq_zero_iff.mp hdropped, hlogged, by simpa using hclean, hnames, hopenings⟩

theorem utf8_twoLoggers {logged : List (Bool × LogEntry)}
    (h : (logged.map fun e => (e.1, e.2.msg)) = [(true, plainMsg 98), (false, plainMsg 97)]) :
    ∀ e ∈ logged, e.2.msg.Utf8 := by
  intro e he
  have hmem : (e.1, e.2.msg) ∈ [(true, plainMsg 98), (false, plainMsg 97)] :=
    h ▸ List.mem_map_of_mem (f := fun e => (e.1, e.2.msg)) he
  rcases List.mem_pair.mp hmem with hmsg | hmsg
  all_goals
    rw [(Prod.mk.inj hmsg).2]
    exact .plain (by decide)

/-- One thread can log the second thread's message and then the first one's. -/
theorem shared_refines_sink_two : ∃ (parts : SinkParts) (a₀ a : EffectiveSink),
    EffectiveSink.create plainSinkDeps (plainSinkConfig 1) plainSinkAnswers = some (parts, a₀) ∧
      Reach (sinkStep plainSinkDeps plainSinkAnswers parts) (SinkEvent.Within Unbroken) a₀ a ∧
      a.phase = .destroyed ∧ a.logged.map LogEntry.msg = [plainMsg 98, plainMsg 97] := by
  obtain ⟨parts, s₀, s, hcreate, hr, hdestroyed, -, hlogged, -⟩ := exists_twoLoggers
  obtain ⟨a₀, a, ha₀, hreach, t, rfl⟩ := (shared_refines_sink hcreate hr).1
  refine ⟨parts, a₀, _, ha₀, hreach, hdestroyed, ?_⟩
  have hmsgs := congrArg (List.map Prod.snd) hlogged
  rw [List.map_map] at hmsgs
  rw [SharedSink.seenBy, List.map_map]
  exact hmsgs

/-- Both messages come back. -/
theorem shared_round_trip_two : ∃ (s : SharedSink Bool) (kept : List (Bool × LogEntry)),
    kept.length = 2 ∧ ∃ records, List.Forall₂ (fun e r => e.2.msg.RecordedAs r) kept records ∧
      ∃ n, ∀ fuel, n ≤ fuel → decodeShards plainSinkDeps.audit (List.replicate 32 5) fuel s.files =
        some (.ok records) := by
  obtain ⟨parts, s₀, s, hcreate, hr, hdestroyed, hdropped, hlogged, hclean, -⟩ := exists_twoLoggers
  have hzero : ZeroFiles (plainSinkConfig 1).storeConfig := by rintro _ _ ⟨⟩
  have htwo := congrArg List.length hlogged
  rw [List.length_map] at htwo
  have hpriv : (List.replicate 32 (5 : UInt8)).length = kServerPrivBytes := rfl
  obtain ⟨kept, -, hlength, -, hread⟩ := shared_round_trip hpriv rfl hzero hcreate hr hdestroyed
    hclean (utf8_twoLoggers hlogged)
  rw [hdropped, htwo] at hlength
  exact ⟨s, kept, hlength, hread⟩

end LoggerHigh
