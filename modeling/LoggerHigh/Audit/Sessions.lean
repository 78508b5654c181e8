import LoggerHigh.Audit.ShardDirectory
import LoggerHigh.Mmap.StoreRestart

/-!
# Sinks that follow one another

A process ends and the next one opens a sink on the same directories: the files of
the buffers are those that the last sink has left, and the shards stand next to its
shards, under a key of their own. As long as each sink is destroyed with nothing cut
short, what all of them have kept is read from the directory.

## Main definitions

- `Session`, `Session.Runs` — a sink from `Create` to the end of its destructor
- `Follow` — a sink finds the files of the buffers as the one before has left them

## Main results

- `Session.Runs.zeroFiles` — a sink leaves zero-filled files
- `sessions_directory` — all of them find zero-filled files, and what is read of them
-/

namespace LoggerHigh

open Transition

/-- A sink that threads `T` share, when it has been created and when it is destroyed. -/
structure Session (T : Type) where
  cfg : EffectiveSinkConfig
  answers : SinkAnswers
  parts : SinkParts
  first : SharedSink T
  last : SharedSink T

variable {T : Type} [DecidableEq T] [Fintype T] {deps : SinkDeps} {serverPriv : Bytes}

/-- The sink encrypts for the owner of the private key. No `Flush` overlaps a `Log` or
another `Flush`, none that finds a frame fails to construct a buffer, no `fopen` or
`fwrite` fails, what is logged is UTF-8, and the sink is destroyed in the end. -/
structure Session.Runs (deps : SinkDeps) (serverPriv : Bytes) (x : Session T) : Prop where
  pub : loadServerPublicKey x.cfg.serverPubKeyPath x.cfg.serverPubKeyFile =
    .ok (deps.x25519.generatePublicKey serverPriv)
  create : SharedSink.create deps x.cfg x.answers = some (x.parts, x.first)
  reach : Reach (sharedStep deps x.answers x.parts) (Exclusive Unbroken) x.first x.last
  destroyed : x.last.phase = .destroyed
  clean : ∀ c ∈ x.last.store.env.calls, c.Clean
  utf8 : ∀ e ∈ x.last.logged, e.2.msg.Utf8

/-- Sink `y` finds the files of the buffers as `x` has left them. -/
def Follow (x y : Session T) : Prop := x.last.store.Leaves x.cfg.storeConfig y.cfg.bufferFiles

/-- The entries are the messages of the session, but for those that were dropped. -/
def Session.Keeps (x : Session T) (kept : List (T × LogEntry)) : Prop :=
  kept.Sublist x.last.logged ∧ kept.length + x.last.dropped.length = x.last.logged.length

/-- A sink that finds zero-filled files leaves zero-filled files. -/
theorem Session.Runs.zeroFiles [Nonempty T] {x y : Session T} (h : x.Runs deps serverPriv)
    (hzero : ZeroFiles x.cfg.storeConfig) (hfollow : Follow x y) : ZeroFiles y.cfg.storeConfig := by
  obtain ⟨a₀, a, ha₀, hreach, t, -, rfl⟩ := Reach.seenBy h.create h.reach
  have hcreated := Created.of_create ha₀
  have hinv := Reach.sinkInv hcreated hreach
  have hzero' : ZeroFiles x.parts.storeConfig := hcreated.storeConfig ▸ hzero
  have hleaves : (x.last.seenBy t).store.Leaves x.parts.storeConfig y.cfg.bufferFiles := by
    rw [hcreated.storeConfig]
    exact hfollow
  exact Leaves.zeroFiles hzero' hcreated.store (Reach.within unbroken_of_outside hreach)
    (hinv.destroyed h.destroyed) hleaves

/-- All sinks of a chain find zero-filled files if the first one does. -/
theorem zeroFiles_of_chain [Nonempty T] {sessions : List (Session T)}
    (hruns : ∀ x ∈ sessions, x.Runs deps serverPriv) (hchain : sessions.IsChain Follow)
    (hfirst : ∀ x ∈ sessions.head?, ZeroFiles x.cfg.storeConfig) :
    ∀ x ∈ sessions, ZeroFiles x.cfg.storeConfig := by
  induction sessions with
  | nil => exact List.forall_mem_nil _
  | cons x sessions ih =>
    obtain ⟨hx, hrest⟩ := List.forall_mem_cons.mp hruns
    have hzero : ZeroFiles x.cfg.storeConfig := hfirst x rfl
    obtain ⟨hfollow, hchain'⟩ := List.isChain_cons.mp hchain
    exact List.forall_mem_cons.mpr
      ⟨hzero, ih hrest hchain' fun y hy => hx.zeroFiles hzero (hfollow y hy)⟩

/-- What the files of one sink give. -/
theorem Session.Runs.exists_gives [Nonempty T] {x : Session T} (h : x.Runs deps serverPriv)
    (hpriv : serverPriv.length = kServerPrivBytes) (hzero : ZeroFiles x.cfg.storeConfig) :
    ∃ kept, x.Keeps kept ∧ ∃ groups : List (List LogEntry),
      groups.flatten = kept.map Prod.snd ∧ ∃ n, ∀ fuel, n ≤ fuel →
        List.Forall₂ (Shard.Gives deps serverPriv fuel) x.last.files groups := by
  obtain ⟨kept, hkept, hlength, -, groups, hflatten, n, hn⟩ :=
    exists_kept_files hpriv h.pub hzero h.create h.reach h.destroyed h.clean
  refine ⟨kept, ⟨hkept, hlength⟩, groups, hflatten, n, fun fuel hfuel =>
    reads_of_readsAs (hn fuel hfuel) ?_⟩
  rw [hflatten]
  exact List.forall_mem_map.mpr fun e he => h.utf8 e (hkept.subset he)

/-- What the files of all sinks give. -/
theorem exists_gives [Nonempty T] {sessions : List (Session T)}
    (hpriv : serverPriv.length = kServerPrivBytes) (hruns : ∀ x ∈ sessions, x.Runs deps serverPriv)
    (hzero : ∀ x ∈ sessions, ZeroFiles x.cfg.storeConfig) :
    ∃ kepts : List (List (T × LogEntry)), List.Forall₂ Session.Keeps sessions kepts ∧
      ∃ groups : List (List LogEntry), groups.flatten = kepts.flatten.map Prod.snd ∧
        ∃ n, ∀ fuel, n ≤ fuel → List.Forall₂ (Shard.Gives deps serverPriv fuel)
          (sessions.flatMap fun x => x.last.files) groups := by
  induction sessions with
  | nil => exact ⟨[], .nil, [], rfl, 0, fun _ _ => .nil⟩
  | cons x sessions ih =>
    obtain ⟨hx, hrest⟩ := List.forall_mem_cons.mp hruns
    obtain ⟨hzerox, hzerorest⟩ := List.forall_mem_cons.mp hzero
    obtain ⟨kept, hkept, groups, hflatten, n, hn⟩ := hx.exists_gives hpriv hzerox
    obtain ⟨kepts, hkepts, groups', hflatten', n', hn'⟩ := ih hrest hzerorest
    refine ⟨kept :: kepts, .cons hkept hkepts, groups ++ groups', ?flatten, max n n',
      fun fuel hfuel => ?gives⟩
    case flatten =>
      rw [List.flatten_append, hflatten, hflatten', List.flatten_cons, List.map_append]
    case gives =>
      rw [List.flatMap_cons]
      exact List.rel_append (hn fuel (Nat.le_trans (Nat.le_max_left n n') hfuel))
        (hn' fuel (Nat.le_trans (Nat.le_max_right n n') hfuel))

/-- Sinks follow one another on the same directories; the first one found zero-filled
files for its buffers, each later one found what the one before had left, and no two
shards have the same name. Then every sink has found zero-filled files. However the
directory is listed, `DecodeShardDir` returns what all of them have kept: of each sink as
many records as messages came to `Append` and were not dropped, in their order; and it
returns them sink by sink, if the order of the names is that of the openings. -/
theorem sessions_directory [Nonempty T] {sessions : List (Session T)} {dir : AuditDir}
    (hpriv : serverPriv.length = kServerPrivBytes) (hruns : ∀ x ∈ sessions, x.Runs deps serverPriv)
    (hfirst : ∀ x ∈ sessions.head?, ZeroFiles x.cfg.storeConfig)
    (hchain : sessions.IsChain Follow)
    (hnodup : ((sessions.flatMap fun x => x.last.files).map Shard.path).Nodup)
    (hdir : dir.Shows (sessions.flatMap fun x => x.last.files)) :
    (∀ x ∈ sessions, ZeroFiles x.cfg.storeConfig) ∧
    ∃ kepts : List (List (T × LogEntry)), List.Forall₂ Session.Keeps sessions kepts ∧
      ∃ n, ∀ fuel, n ≤ fuel → ∃ records,
        decodeShardDir deps.audit dir serverPriv fuel = some (.ok records) ∧
        records.Perm (kepts.flatten.map fun e => e.2.record) ∧
        (InNameOrder ((sessions.flatMap fun x => x.last.files).map Shard.path) →
          records = kepts.flatten.map fun e => e.2.record) := by
  have hzero := zeroFiles_of_chain hruns hchain hfirst
  obtain ⟨kepts, hkepts, groups, hflatten, n, hn⟩ := exists_gives hpriv hruns hzero
  refine ⟨hzero, kepts, hkepts, n, fun fuel hfuel => ?_⟩
  have hread := hdir.decodeShardDir (fun f hf => contentOf_of_nodup hnodup hf) (hn fuel hfuel)
  rwa [hflatten, List.map_map] at hread

-- ═══════════════════════════════════════════════════════════════════════════
-- Two sinks
-- ═══════════════════════════════════════════════════════════════════════════

/-- The files of the buffers once the first sink is gone. -/
def laterConfig : EffectiveSinkConfig :=
  { plainSinkConfig 1 with bufferFiles := fun _ => List.replicate 4096 0 }

/-- Another key pair, and the clock a second later. -/
def laterAnswers : SinkAnswers :=
  { plainSinkAnswers with
    ephPriv := List.replicate 32 4
    firstOpening := laterOpening
    opening := fun _ => laterOpening }

theorem run_laterLoggers :
    ((SharedSink.create plainSinkDeps laterConfig laterAnswers).bind fun c =>
      (run (guarded (sharedStep plainSinkDeps laterAnswers c.1) (Exclusive Unbroken)) c.2
          twoLoggers).map
        fun (s : SharedSink Bool) => (s.phase, s.logged.map fun e => (e.1, e.2.msg),
          s.store.env.calls.all fun c => decide c.Clean, s.files.map Shard.path)) =
      some (.destroyed, [(true, plainMsg 98), (false, plainMsg 97)], true,
        ["log-19700101-000001-000-0000.bin".toList,
          "log-19700101-000001-000-0001.bin".toList]) := by
  decide +kernel

/-- What that run comes to. -/
theorem exists_laterLoggers : ∃ x : Session Bool, x.cfg = laterConfig ∧
    x.Runs plainSinkDeps (List.replicate 32 5) ∧ x.last.files.map Shard.path =
      ["log-19700101-000001-000-0000.bin".toList, "log-19700101-000001-000-0001.bin".toList] := by
  obtain ⟨⟨parts, s₀⟩, hcreate, hrun⟩ := Option.bind_eq_some_iff.mp run_laterLoggers
  obtain ⟨s, hrun, hs⟩ := Option.map_eq_some_iff.mp hrun
  simp only [Prod.mk.injEq] at hs
  obtain ⟨hdestroyed, hlogged, hclean, hnames⟩ := hs
  exact ⟨⟨laterConfig, laterAnswers, parts, s₀, s⟩, rfl, ⟨rfl, hcreate, Reach.of_run_guarded hrun,
    hdestroyed, by simpa using hclean, utf8_twoLoggers hlogged⟩, hnames⟩

/-- The four shards of two sinks are read together. -/
theorem sessions_directory_two : ∃ (sessions : List (Session Bool)), sessions.length = 2 ∧
    ∃ kepts : List (List (Bool × LogEntry)), List.Forall₂ Session.Keeps sessions kepts ∧
      ∃ n, ∀ fuel, n ≤ fuel → ∃ records,
        decodeShardDir plainSinkDeps.audit (listingOf (sessions.flatMap fun x => x.last.files))
          (List.replicate 32 5) fuel = some (.ok records) ∧
        records.Perm (kepts.flatten.map fun e => e.2.record) := by
  obtain ⟨parts, s₀, s, hcreate, hr, hdestroyed, -, hlogged, hclean, hnames, -⟩ := exists_twoLoggers
  obtain ⟨y, hcfg, hy, hynames⟩ := exists_laterLoggers
  let x : Session Bool := ⟨plainSinkConfig 1, plainSinkAnswers, parts, s₀, s⟩
  have hx : x.Runs plainSinkDeps (List.replicate 32 5) :=
    ⟨rfl, hcreate, hr, hdestroyed, hclean, utf8_twoLoggers hlogged⟩
  have hpaths : ([x, y].flatMap fun x => x.last.files).map Shard.path =
      ["log-19700101-000000-000-0000.bin".toList, "log-19700101-000000-000-0001.bin".toList,
        "log-19700101-000001-000-0000.bin".toList, "log-19700101-000001-000-0001.bin".toList] := by
    simp only [List.flatMap_cons, List.flatMap_nil, List.append_nil, List.map_append, hynames, x,
      hnames]
    rfl
  have hfollow : Follow x y := by
    intro seq b hb
    rw [hcfg] at hb
    exact .inr (.inl (List.eq_of_mem_replicate hb))
  have hpriv : (List.replicate 32 (5 : UInt8)).length = kServerPrivBytes := rfl
  have hzero : ∀ z ∈ [x, y].head?, ZeroFiles z.cfg.storeConfig := by
    rintro z ⟨⟩ _ _ ⟨⟩
  have hshows : (listingOf ([x, y].flatMap fun x => x.last.files)).Shows
      ([x, y].flatMap fun x => x.last.files) := by
    refine shows_listingOf ?_
    rw [hpaths]
    decide
  obtain ⟨-, kepts, hkepts, n, hn⟩ := sessions_directory hpriv
    (List.forall_mem_cons.mpr ⟨hx, List.forall_mem_singleton.mpr hy⟩) hzero
    (List.isChain_pair.mpr hfollow) (hpaths ▸ by decide) hshows
  refine ⟨[x, y], rfl, kepts, hkepts, n, fun fuel hfuel => ?_⟩
  obtain ⟨records, hread, hperm, -⟩ := hn fuel hfuel
  exact ⟨records, hread, hperm⟩

end LoggerHigh
