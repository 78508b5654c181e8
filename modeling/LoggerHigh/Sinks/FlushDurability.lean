import LoggerHigh.Lib.Stdio
import LoggerHigh.Sinks.ShardPacking

/-!
# What `Flush` makes durable

`Flush` syncs the file that is open. A rotation only flushes and closes the file
before it, so what was written there since the last `Flush` stays in the kernel.

## Main definitions

- `writeFrameOps`, `flushOps` — the calls of stdio in `WriteFrame` and `Flush`
- `SyncedWriter`, `syncedStep` — the writer and its files
- `RotatesSynced` — a rotation finds nothing unsynced

## Main results

- `Mirrors.step` — the files are those of the writer
- `flush_durable` — what is durable when `Flush` returns
- `rotation_leaves_unsynced` — a frame that is not
-/

namespace LoggerHigh

open Stdio Transition

/-- `CloseCurrent_` -/
def closeOps (s : ShardWriter) : List (Op UInt8) :=
  if s.file.isNone then [] else [.fflush, .fclose]

/-- `OpenNewShard_` with `WriteHeader_` -/
def openOps (cfg : ShardWriterConfig) : List (Op UInt8) := [.fopen, .fwrite cfg.header]

/-- `WriteFrame` -/
def writeFrameOps (cfg : ShardWriterConfig) (s : ShardWriter) (data : Bytes) : List (Op UInt8) :=
  if data.length = 0 then []
  else if s.needsShard cfg data.length then closeOps s ++ openOps cfg ++ [.fwrite data]
  else [.fwrite data]

/-- `Flush` -/
def flushOps (s : ShardWriter) : List (Op UInt8) :=
  if s.file.isNone then [] else [.fflush, .fsync]

/-- The writer, and how far the bytes of its files have got. -/
structure SyncedWriter where
  writer : ShardWriter
  disk : Disk UInt8
  deriving DecidableEq, Repr

/-- The calls on a writer whose system has no I/O error. -/
inductive SyncedCall
  | write (c : WriteCall) (clean : c.Clean)
  | flush

/-- What a call writes. -/
def SyncedCall.data : SyncedCall → Bytes
  | .write c _ => c.data
  | .flush => []

/-- One call. -/
def syncedStep (cfg : ShardWriterConfig) (x : SyncedWriter) : SyncedCall → Option SyncedWriter
  | .write c _ => (writerStep cfg x.writer c).map fun s =>
    ⟨s, x.disk.applyAll (writeFrameOps cfg x.writer c.data)⟩
  | .flush => some { x with disk := x.disk.applyAll (flushOps x.writer) }

/-- A constructed writer has opened its first shard. -/
def SyncedWriter.start (cfg : ShardWriterConfig) (s : ShardWriter) : SyncedWriter :=
  ⟨s, Disk.blank.applyAll (openOps cfg)⟩

/-- When a call rotates, everything in the file it closes is durable. -/
def RotatesSynced (cfg : ShardWriterConfig) (x : SyncedWriter) (e : SyncedCall) : Prop :=
  e.data.length ≠ 0 → x.writer.needsShard cfg e.data.length → ∀ f ∈ x.disk.current, f.Durable

/-- The files on the disk have the bytes of those of the writer. -/
structure Mirrors (x : SyncedWriter) : Prop where
  closed : x.disk.closed.map File.content = x.writer.closed.map Shard.bytes
  current : ∃ f g, x.writer.file = some f ∧ x.disk.current = some g ∧ g.content = f.bytes

/-- The frames in all files, one after the other. -/
def ShardWriter.bodies (s : ShardWriter) : Bytes := s.shards.flatMap Shard.body

/-- Everything in the closed files is durable. -/
def ClosedDurable (x : SyncedWriter) : Prop := ∀ f ∈ x.disk.closed, f.Durable

variable {cfg : ShardWriterConfig} {s s₀ : ShardWriter} {x x' : SyncedWriter} {e : SyncedCall}
  {o : Opening} {c : WriteCall} {calls : List SyncedCall}

-- ═══════════════════════════════════════════════════════════════════════════
-- One call
-- ═══════════════════════════════════════════════════════════════════════════

/-- The disk after a rotation and a frame. -/
theorem applyAll_rotate {d : Disk UInt8} {g : File UInt8} (hopen : s.file.isNone = false)
    (hcurrent : d.current = some g) (data : Bytes) :
    d.applyAll (closeOps s ++ openOps cfg ++ [.fwrite data]) =
      ⟨d.closed ++ [g.flush.flush], some ((File.empty.write cfg.header).write data)⟩ := by
  simp [closeOps, openOps, hopen, Disk.applyAll, Disk.apply, hcurrent]

/-- A frame without I/O error goes into the open file. -/
theorem file_appendFrame {f : Shard} (hclean : c.Clean) (hfile : s.file = some f) :
    (appendFrame c s).file = some { f with body := f.body ++ c.data } := by
  rw [appendFrame, hfile, hclean.2, List.take_length]
  rfl

/-- A call of `WriteFrame`: the files stay those of the writer, and the closed ones
stay durable exactly if it does not close one with unsynced bytes. -/
theorem Mirrors.write (h : Mirrors x) (hclean : c.Clean)
    (hstep : writerStep cfg x.writer c = some s) :
    Mirrors ⟨s, x.disk.applyAll (writeFrameOps cfg x.writer c.data)⟩ ∧
      (ClosedDurable ⟨s, x.disk.applyAll (writeFrameOps cfg x.writer c.data)⟩ ↔
        ClosedDurable x ∧ RotatesSynced cfg x (.write c hclean)) := by
  obtain ⟨f, g, hfile, hcurrent, hbytes⟩ := h.current
  have hopen : x.writer.file.isNone = false := by rw [hfile]; rfl
  obtain ⟨rfl, -⟩ := eq_onPersist_of_step hstep
  rw [onPersist_eq, writeFrameOps]
  by_cases hempty : c.data.length = 0
  · rw [if_pos hempty, if_pos hempty]
    exact ⟨⟨h.closed, f, g, hfile, hcurrent, hbytes⟩,
      (and_iff_left fun hne => absurd hempty hne).symm⟩
  rw [if_neg hempty, if_neg hempty, if_pos hclean.1]
  by_cases hneeds : x.writer.needsShard cfg c.data.length
  · rw [if_pos hneeds, if_pos hneeds, applyAll_rotate hopen hcurrent]
    have hopened : (x.writer.reopened cfg c.opening).file = _ := file_reopened hclean.1
    have hfile' := file_appendFrame hclean hopened
    refine ⟨⟨?closed, _, _, hfile', rfl, ?bytes⟩, ?durable⟩
    case closed =>
      show (x.disk.closed ++ [g.flush.flush]).map File.content =
        (x.writer.closed ++ x.writer.file.toList).map Shard.bytes
      rw [List.map_append, List.map_append, h.closed, hfile]
      simp [hbytes]
    case bytes => simp [Shard.bytes]
    case durable =>
      have hrotates : RotatesSynced cfg x (.write c hclean) ↔ g.Durable := by
        refine ⟨fun hr => hr hempty hneeds g hcurrent, fun hg _ _ g' hg' => ?_⟩
        cases hcurrent.symm.trans hg'
        exact hg
      rw [hrotates, ← File.durable_flush_iff g, ← File.durable_flush_iff g.flush]
      exact List.forall_mem_append.trans (and_congr_right fun _ => List.forall_mem_singleton)
  · rw [if_neg hneeds, if_neg hneeds]
    have hdisk : x.disk.applyAll [.fwrite c.data] = ⟨x.disk.closed, some (g.write c.data)⟩ := by
      simp [Disk.applyAll, Disk.apply, hcurrent]
    rw [hdisk]
    refine ⟨⟨h.closed, _, _, file_appendFrame hclean hfile, rfl, ?_⟩,
      (and_iff_left fun _ hneeds' => absurd hneeds' hneeds).symm⟩
    simp [Shard.bytes, hbytes]

/-- A frame without I/O error stands behind all others. -/
theorem bodies_onPersist (hclean : c.Clean) (hfile : s.file.isSome) :
    (onPersist cfg c s).bodies = s.bodies ++ c.data := by
  have happend : ∀ {s : ShardWriter} {f : Shard}, s.file = some f →
      (appendFrame c s).bodies = s.bodies ++ c.data := by
    intro s f hf
    have hclosed : (appendFrame c s).closed = s.closed := rfl
    simp [ShardWriter.bodies, ShardWriter.shards, hclosed, file_appendFrame hclean hf, hf]
  obtain ⟨f, hf⟩ := Option.isSome_iff_exists.mp hfile
  rw [onPersist_eq]
  split
  · next hempty => rw [List.length_eq_zero_iff.mp hempty, List.append_nil]
  · rw [if_pos hclean.1]
    split
    · have hopened : (s.reopened cfg c.opening).file = _ := file_reopened hclean.1
      have hclosed : (s.reopened cfg c.opening).closed = s.shards := rfl
      rw [happend hopened]
      simp [ShardWriter.bodies, ShardWriter.shards, hclosed, hopened]
    · exact happend hf

/-- The disk after `Flush`. -/
theorem Mirrors.disk_flush (h : Mirrors x) : ∃ (f : Shard) (g : File UInt8),
    x.writer.file = some f ∧ g.content = f.bytes ∧
      x.disk.applyAll (flushOps x.writer) = ⟨x.disk.closed, some g.flush.sync⟩ := by
  obtain ⟨f, g, hfile, hcurrent, hbytes⟩ := h.current
  have hopen : x.writer.file.isNone = false := by rw [hfile]; rfl
  exact ⟨f, g, hfile, hbytes, by simp [flushOps, hopen, Disk.applyAll, Disk.apply, hcurrent]⟩

/-- One call. -/
theorem Mirrors.step (h : Mirrors x) (hstep : syncedStep cfg x e = some x') :
    Mirrors x' ∧ (ClosedDurable x' ↔ ClosedDurable x ∧ RotatesSynced cfg x e) := by
  cases e with
  | write c hclean =>
    obtain ⟨s, hs, rfl⟩ := Option.map_eq_some_iff.mp hstep
    exact h.write hclean hs
  | flush =>
    cases hstep
    obtain ⟨f, g, hfile, hbytes, hdisk⟩ := h.disk_flush
    rw [hdisk]
    refine ⟨⟨h.closed, f, _, hfile, rfl, ?_⟩, (and_iff_left fun hne => absurd rfl hne).symm⟩
    rw [File.content_sync, File.content_flush, hbytes]

-- ═══════════════════════════════════════════════════════════════════════════
-- Runs
-- ═══════════════════════════════════════════════════════════════════════════

theorem Mirrors.start (h : construct cfg o = some s₀) :
    Mirrors (.start cfg s₀) ∧ ClosedDurable (.start cfg s₀) := by
  obtain ⟨ho, rfl⟩ := eq_reopened_of_construct h
  refine ⟨⟨rfl, _, _, file_reopened ho, rfl, ?_⟩, fun f hf => ?_⟩
  · simp [Shard.bytes]
  · cases hf

theorem Mirrors.isSome_file (h : Mirrors x) : x.writer.file.isSome := by
  obtain ⟨f, -, hfile, -, -⟩ := h.current
  exact hfile ▸ rfl

/-- At the end of a run the files hold what its calls wrote. -/
theorem Mirrors.run (h : Mirrors x) (hrun : run (syncedStep cfg) x calls = some x') :
    Mirrors x' ∧ x'.writer.bodies = x.writer.bodies ++ calls.flatMap SyncedCall.data := by
  induction calls generalizing x with
  | nil =>
    cases hrun
    exact ⟨h, (List.append_nil _).symm⟩
  | cons e calls ih =>
    obtain ⟨x₁, h₁, hrest⟩ := Option.bind_eq_some_iff.mp hrun
    obtain ⟨hmirrors, hbodies⟩ := ih (h.step h₁).1 hrest
    have hfirst : x₁.writer.bodies = x.writer.bodies ++ e.data := by
      cases e with
      | write c hclean =>
        obtain ⟨s, hs, rfl⟩ := Option.map_eq_some_iff.mp h₁
        rw [(eq_onPersist_of_step hs).1]
        exact bodies_onPersist hclean h.isSome_file
      | flush =>
        cases h₁
        exact (List.append_nil _).symm
    refine ⟨hmirrors, ?_⟩
    rw [hbodies, hfirst, List.flatMap_cons, List.append_assoc]

/-- The durable bytes are all bytes exactly if those of the closed files and of the
open one are. -/
theorem Mirrors.durable_iff (h : Mirrors x) :
    x.disk.files.map File.durable = x.writer.shards.map Shard.bytes ↔
      ∀ f ∈ x.disk.files, f.Durable := by
  obtain ⟨f, g, hfile, hcurrent, hbytes⟩ := h.current
  have hshards : x.writer.shards.map Shard.bytes = x.disk.files.map File.content := by
    simp [ShardWriter.shards, Disk.files, hfile, hcurrent, hbytes, h.closed]
  rw [hshards, List.map_inj_left]
  exact Iff.rfl

/-- For every sequence of calls of `WriteFrame` and `Flush` without I/O error that
ends with a `Flush`: the files hold the frames of all calls; everything in the open
file is durable; and everything in all files is exactly if no rotation closed a file
with bytes written since the last `Flush` before it. -/
theorem flush_durable {x₀ : SyncedWriter} (h₀ : construct cfg o = some s₀)
    (hrun : run (syncedStep cfg) (.start cfg s₀) calls = some x₀)
    (hflush : syncedStep cfg x₀ .flush = some x) :
    x.writer.bodies = calls.flatMap SyncedCall.data ∧
      (∃ f g, x.writer.file = some f ∧ x.disk.current = some g ∧ g.durable = f.bytes) ∧
      (x.disk.files.map File.durable = x.writer.shards.map Shard.bytes ↔
        Along (syncedStep cfg) (RotatesSynced cfg) (.start cfg s₀) calls) := by
  obtain ⟨hstart, hnone⟩ := Mirrors.start h₀
  obtain ⟨hmirrors, hbodies⟩ := hstart.run hrun
  obtain ⟨hafter, -⟩ := hmirrors.step hflush
  obtain ⟨f, g, hfile, hbytes, hdisk⟩ := hmirrors.disk_flush
  cases hflush
  have hsynced : g.flush.sync.durable = f.bytes := by
    rw [File.durable_sync_flush, File.content_sync, File.content_flush, hbytes]
  refine ⟨?bodies, ⟨f, _, hfile, congrArg Disk.current hdisk, hsynced⟩, ?all⟩
  case bodies =>
    have hempty : s₀.bodies = [] := by
      obtain ⟨ho, rfl⟩ := eq_reopened_of_construct h₀
      simp [ShardWriter.bodies, ShardWriter.shards, ShardWriter.reopened, ShardWriter.initial, ho.1]
    rw [hbodies]
    simp [SyncedWriter.start, hempty]
  case all =>
    have hclosed : ClosedDurable x₀ ↔ ClosedDurable (.start cfg s₀) ∧
        Along (syncedStep cfg) (RotatesSynced cfg) (.start cfg s₀) calls :=
      last_iff_along (I := Mirrors) (fun _ _ _ h hs => (h.step hs).1)
        (fun _ _ _ h hs => (h.step hs).2) hstart hrun
    rw [hafter.durable_iff]
    refine Iff.trans ?_ (hclosed.trans (and_iff_right hnone))
    simp only [Disk.files, hdisk]
    exact List.forall_mem_append.trans
      (and_iff_left (List.forall_mem_singleton.mpr g.durable_sync_flush))

-- ═══════════════════════════════════════════════════════════════════════════
-- A rotation between write and flush
-- ═══════════════════════════════════════════════════════════════════════════

/-- A frame that fills the first shard, and the next one. -/
def unsyncedCalls : List SyncedCall :=
  [.write (cleanCall (List.replicate 12 1)) (by decide), .write (cleanCall [2]) (by decide)]

/-- The same with a `Flush` before the rotation. -/
def syncedCalls : List SyncedCall :=
  [.write (cleanCall (List.replicate 12 1)) (by decide), .flush,
    .write (cleanCall [2]) (by decide)]

theorem construct_smallConfig :
    construct smallConfig cleanOpening = some (.reopened smallConfig cleanOpening .initial) := by
  rw [construct_eq, if_pos (by decide)]

theorem flush_durable_synced :
    ∃ s₀ x₀ x, construct smallConfig cleanOpening = some s₀ ∧
      run (syncedStep smallConfig) (.start smallConfig s₀) syncedCalls = some x₀ ∧
      syncedStep smallConfig x₀ .flush = some x ∧
      x.writer.bodies = List.replicate 12 1 ++ [2] ∧
      (x.disk.files.map File.durable = x.writer.shards.map Shard.bytes ↔
        Along (syncedStep smallConfig) (RotatesSynced smallConfig) (.start smallConfig s₀)
          syncedCalls) := by
  have hrun : (run (syncedStep smallConfig)
      (.start smallConfig (.reopened smallConfig cleanOpening .initial)) syncedCalls).isSome := by
    decide +kernel
  obtain ⟨x₀, hx₀⟩ := Option.isSome_iff_exists.mp hrun
  have hdurable := flush_durable construct_smallConfig hx₀ rfl
  exact ⟨_, x₀, _, construct_smallConfig, hx₀, rfl, hdurable.1, hdurable.2.2⟩

/-- After `Flush` the first shard, with its header and its frame, is still in the kernel. -/
theorem rotation_leaves_unsynced :
    ¬ ∀ (cfg : ShardWriterConfig) (o : Opening) (s₀ : ShardWriter) (calls : List SyncedCall)
      (x₀ x : SyncedWriter), construct cfg o = some s₀ →
        run (syncedStep cfg) (.start cfg s₀) calls = some x₀ →
        syncedStep cfg x₀ .flush = some x →
        x.disk.files.map File.durable = x.writer.shards.map Shard.bytes := by
  intro h
  have hrun : ((run (syncedStep smallConfig)
      (.start smallConfig (.reopened smallConfig cleanOpening .initial)) unsyncedCalls).bind
        fun x₀ => syncedStep smallConfig x₀ .flush).map
        (fun x => (x.disk.files.map fun f => f.durable.length,
          x.writer.shards.map fun f => f.bytes.length)) = some ([0, 49], [60, 49]) := by
    decide +kernel
  obtain ⟨x, hx, hlengths⟩ := Option.map_eq_some_iff.mp hrun
  obtain ⟨x₀, hx₀, hflush⟩ := Option.bind_eq_some_iff.mp hx
  obtain ⟨hdurable, hbytes⟩ := Prod.mk.inj hlengths
  have hall := congrArg (List.map List.length)
    (h _ _ _ _ _ _ construct_smallConfig hx₀ hflush)
  simp only [List.map_map, Function.comp_def] at hall
  rw [hdurable, hbytes] at hall
  cases hall

end LoggerHigh
