import LoggerHigh.Audit.ShardDirectory
import LoggerHigh.Sinks.EvictionOrder

/-!
# What an evicted directory gives

Sweeps take the oldest shards of a sink away while it logs. What the decoder reads from
the directory afterwards are the records of the newest shards, with none missing between
two of them.

## Main results

- `evicted_directory` — what is read are the last records that were kept
-/

namespace LoggerHigh

open Transition

variable {deps : SinkDeps} {dir : AuditDir} {serverPriv : Bytes} {T : Type} [DecidableEq T]
  [Fintype T] {cfg : EffectiveSinkConfig} {answers : SinkAnswers} {parts : SinkParts}
  {s₀ s : SharedSink T} {κ : Type} [DecidableEq κ] {cap : ℕ} {canon : FileName → κ}
  {dir₀ : List FileName} {d : SharedDir κ}

/-- Threads share a sink, the evictor sweeps its directory, and the sink is destroyed. No
`Flush` overlapped a `Log` or another `Flush`, the files of the buffers were zero-filled, no
`Flush` that found a frame failed to construct a buffer, no call of the file system failed,
each shard was named after the one before it in the order of names, no listing of a sweep
had a hole, what was logged is UTF-8, and the directory has no shards but those of the
sink. Then all its shards but the first `k` are there, the last one among them, and
`DecodeShardDir` returns exactly the records in these, in the order in which the threads
got hold of the mutex. -/
theorem evicted_directory [Nonempty T] (hpriv : serverPriv.length = kServerPrivBytes)
    (hpub : loadServerPublicKey cfg.serverPubKeyPath cfg.serverPubKeyFile =
      .ok (deps.x25519.generatePublicKey serverPriv))
    (hzero : ZeroFiles cfg.storeConfig)
    (hcreate : SharedSink.create deps cfg answers = some (parts, s₀))
    (hr : Reach (sharedStep deps answers parts) (Exclusive Unbroken) s₀ s)
    (hdestroyed : s.phase = .destroyed) (hclean : ∀ c ∈ s.store.env.calls, c.Clean)
    (hutf8 : ∀ e ∈ s.logged, e.2.msg.Utf8)
    (hcanon : Function.Injective canon) (hnodup : dir₀.Nodup)
    (hlive : s₀.store.env.writer.currentPath ∈ dir₀)
    (hold : ∀ n ∈ dir₀, looksLikeShard n = true → n ≤ s₀.store.env.writer.currentPath)
    (hevict : Reach (SharedDir.step parts.writerConfig cap canon) KeepsOrder
      (.initial s₀.store.env.writer dir₀) d)
    (hsame : d.writer = s.store.env.writer)
    (hdir : dir.Shows (s.files.filter fun f => f.path ∈ d.dir)) :
    ∃ (kept : List (T × LogEntry)) (groups : List (List LogEntry)),
      kept.Sublist s.logged ∧ kept.length + s.dropped.length = s.logged.length ∧
      groups.flatten = kept.map Prod.snd ∧ groups.length = s.files.length ∧
      ∃ k < s.files.length, s.files.filter (fun f => f.path ∈ d.dir) = s.files.drop k ∧
        ∃ n, ∀ fuel, n ≤ fuel → decodeShardDir deps.audit dir serverPriv fuel =
          some (.ok ((groups.drop k).flatten.map LogEntry.record)) := by
  obtain ⟨kept, hkept, hlength, -, groups, hflatten, n, hn⟩ :=
    exists_kept_files hpriv hpub hzero hcreate hr hdestroyed hclean
  have hinv := RetentionInv.of_reach hcanon (SharedSink.construct_of_create hcreate) hnodup hlive
    hold hevict
  have hfiles : s.files = d.writer.shards := by
    rw [hsame]
    rfl
  obtain ⟨k, hk, hdrop⟩ := hinv.exists_drop
  rw [← hfiles] at hk hdrop
  have hincreasing : (s.files.map Shard.path).Pairwise (· < ·) := by
    rw [hfiles]
    exact hinv.increasing
  have hgood : ∀ e ∈ groups.flatten, e.msg.Utf8 := by
    rw [hflatten]
    exact List.forall_mem_map.mpr fun e he => hutf8 e (hkept.subset he)
  have hgives := fun fuel hfuel => reads_of_readsAs (hn fuel hfuel) hgood
  have hleft : ((s.files.drop k).map Shard.path).Pairwise (· < ·) := by
    rw [List.map_drop]
    exact hincreasing.sublist (List.drop_sublist _ _)
  refine ⟨kept, groups, hkept, hlength, hflatten, (hgives n le_rfl).length_eq.symm, k, hk, hdrop, n,
    fun fuel hfuel => ?_⟩
  rw [hdrop] at hdir
  obtain ⟨records, hread, -, horder⟩ := hdir.decodeShardDir
    (fun f hf => contentOf_of_nodup (hleft.imp fun hlt => ne_of_lt hlt) hf)
    (List.forall₂_drop k (hgives fuel hfuel))
  rw [hread, horder (.of_pairwise hleft)]

/-- The writer's two calls, and a sweep that allows for no bytes. -/
def sweepAfter : List WriteCall → List DirEvent
  | [c, c'] => [.write c, .beginOpen c', .finishOpen, .beginSweep,
      .readEntry (makeShardName cleanOpening.clock 1) true 96,
      .readEntry (makeShardName cleanOpening.clock 0) true 96, .endListing, .fetchActive,
      .examineNext, .examineNext, .examineNext]
  | _ => []

theorem run_evictedLoggers :
    ((SharedSink.create plainSinkDeps (plainSinkConfig 1) plainSinkAnswers).bind fun c =>
      (run (guarded (sharedStep plainSinkDeps plainSinkAnswers c.1) (Exclusive Unbroken)) c.2
          twoLoggers).bind fun (s : SharedSink Bool) =>
        (run (guarded (SharedDir.step c.1.writerConfig 0 id) KeepsOrder)
          (.initial c.2.store.env.writer [c.2.store.env.writer.currentPath])
          (sweepAfter s.store.env.calls)).map fun d =>
            (decide (d.writer = s.store.env.writer),
              (s.files.filter fun f => f.path ∈ d.dir).map Shard.path)) =
      some (true, ["log-19700101-000000-000-0001.bin".toList]) := by
  decide +kernel

/-- The first of two shards is swept away, and the record of the second one is read. -/
theorem evicted_directory_two : ∃ (s : SharedSink Bool) (d : SharedDir FileName)
    (groups : List (List LogEntry)) (n : ℕ), s.files.length = 2 ∧
      s.files.filter (fun f => f.path ∈ d.dir) = s.files.drop 1 ∧ groups.flatten.length = 2 ∧
      groups.length = 2 ∧
      ∀ fuel, n ≤ fuel → decodeShardDir plainSinkDeps.audit
        (listingOf (s.files.filter fun f => f.path ∈ d.dir)) (List.replicate 32 5) fuel =
          some (.ok ((groups.drop 1).flatten.map LogEntry.record)) := by
  obtain ⟨⟨parts, s₀⟩, hcreate, hrun⟩ := Option.bind_eq_some_iff.mp run_twoLoggers
  obtain ⟨s, hrun, hs⟩ := Option.map_eq_some_iff.mp hrun
  simp only [Prod.mk.injEq] at hs
  obtain ⟨hdestroyed, hdropped, hlogged, hclean, hnames, -⟩ := hs
  have hboth := run_evictedLoggers
  rw [hcreate, Option.bind_some, hrun, Option.bind_some] at hboth
  obtain ⟨d, hd, hpair⟩ := Option.map_eq_some_iff.mp hboth
  obtain ⟨hsame, hleft⟩ := Prod.mk.inj hpair
  have hzero : ZeroFiles (plainSinkConfig 1).storeConfig := by rintro _ _ ⟨⟩
  have hpriv : (List.replicate 32 (5 : UInt8)).length = kServerPrivBytes := rfl
  have htwo := congrArg List.length hlogged
  have hfiles := congrArg List.length hnames
  rw [List.length_map] at htwo hfiles
  obtain ⟨kept, groups, -, hlength, hflatten, hgroups, k, hk, hdrop, n, hn⟩ :=
    evicted_directory hpriv rfl hzero hcreate (Reach.of_run_guarded hrun) hdestroyed
      (by simpa using hclean) (utf8_twoLoggers hlogged) Function.injective_id
      (List.nodup_singleton _) List.mem_cons_self (List.forall_mem_singleton.mpr fun _ => le_rfl)
      (Reach.of_run_guarded hd) (of_decide_eq_true hsame)
      (shows_listingOf (hleft ▸ by decide))
  have hone : k = 1 := by
    have hleft' := congrArg List.length hleft
    rw [List.length_map, hdrop, List.length_drop, hfiles] at hleft'
    simp only [List.length_cons, List.length_nil] at hleft'
    omega
  subst hone
  refine ⟨s, d, groups, n, hfiles, hdrop, ?_, hgroups.trans hfiles, hn⟩
  rw [hdropped, htwo] at hlength
  rw [hflatten, List.length_map]
  exact hlength

end LoggerHigh
