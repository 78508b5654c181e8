import LoggerHigh.Sinks.ShardPacking

/-!
# Openings that fail

When the header's `fwrite` is short, `OpenNewShard_` throws and leaves the file
open with `current_size_` zero, so the next `WriteFrame` finds an open file with
room and appends its frame to the truncated header.

## Main definitions

- `HeaderFirst` — a file with bytes of a frame begins with the header
- `CompletesHeader` — the condition on one call

## Main results

- `headerFirst_iff` — one call keeps the property exactly under the condition
- `header_first_iff` — the same for whole runs
- `frame_after_short_header` — a short header's `fwrite` does
-/

namespace LoggerHigh

open Transition

/-- Every file into which a byte of a frame was written begins with the header. -/
def HeaderFirst (cfg : ShardWriterConfig) (s : ShardWriter) : Prop :=
  ∀ f ∈ s.shards, f.body ≠ [] → cfg.header <+: f.bytes

/-- If the open file has a truncated header and nothing after it, the bytes that
the call's `fwrite` takes over from the frame, if any, begin with the missing
part of the header. -/
def CompletesHeader (cfg : ShardWriterConfig) (s : ShardWriter) (c : WriteCall) : Prop :=
  ∀ f ∈ s.file, f.header.length < kHeaderBytes → f.body = [] → c.data.take c.wrote ≠ [] →
    cfg.header.drop f.header.length <+: c.data.take c.wrote

/-- What holds of the files whatever fails: a header is complete or truncated, and
a truncated one with nothing after it leaves `current_size_` at zero. -/
structure FaultInv (cfg : ShardWriterConfig) (s : ShardWriter) : Prop where
  header : ∀ f ∈ s.shards, f.header = cfg.header.take f.header.length
  truncated : ∀ f ∈ s.file, f.header.length < kHeaderBytes → f.body = [] → s.currentSize = 0

variable {cfg : ShardWriterConfig} {s s' : ShardWriter} {c : WriteCall} {o : Opening} {f : Shard}

theorem mem_shards_of_file (h : f ∈ s.file) : f ∈ s.shards :=
  List.mem_append_right _ (Option.mem_toList.mpr h)

/-- The files after an opening are those before it and the new one. -/
theorem shards_reopened (cfg : ShardWriterConfig) (o : Opening) (s : ShardWriter) :
    (s.reopened cfg o).shards = s.shards ++ (s.reopened cfg o).file.toList := rfl

theorem eq_of_mem_file_reopened (h : f ∈ (s.reopened cfg o).file) :
    o.fopenOk = true ∧ f = ⟨makeShardName o.clock s.seq, cfg.header.take o.headerWrote, []⟩ := by
  simp only [ShardWriter.reopened] at h
  split at h
  · next hok => exact ⟨hok, (Option.some.inj h).symm⟩
  · cases h

/-- A file that has just been opened holds nothing but what there is of its header. -/
theorem FaultInv.reopened (h : FaultInv cfg s) (o : Opening) : FaultInv cfg (s.reopened cfg o) := by
  refine ⟨?header, ?truncated⟩
  case header =>
    intro f hf
    rw [shards_reopened, List.mem_append, Option.mem_toList] at hf
    rcases hf with hf | hf
    · exact h.header f hf
    · obtain ⟨-, rfl⟩ := eq_of_mem_file_reopened hf
      rw [List.length_take, ← List.take_eq_take_min]
  case truncated =>
    intro f hf hshort _
    obtain ⟨hok, rfl⟩ := eq_of_mem_file_reopened hf
    rw [List.length_take, length_header] at hshort
    simp only [ShardWriter.reopened, hok, if_true]
    rw [if_neg (by omega)]

theorem mem_shards_appendFrame (h : f ∈ (appendFrame c s).shards) :
    f ∈ s.closed ∨ ∃ g ∈ s.file, f = { g with body := g.body ++ c.data.take c.wrote } := by
  rw [ShardWriter.shards, List.mem_append, Option.mem_toList] at h
  refine h.imp id fun h => ?_
  obtain ⟨g, hg, rfl⟩ := Option.map_eq_some_iff.mp h
  exact ⟨g, hg, rfl⟩

theorem FaultInv.appendFrame (h : FaultInv cfg s) (c : WriteCall) (hne : c.data.length ≠ 0) :
    FaultInv cfg (appendFrame c s) := by
  refine ⟨?header, ?truncated⟩
  case header =>
    intro f hf
    rcases mem_shards_appendFrame hf with hf | ⟨g, hg, rfl⟩
    · exact h.header f (List.mem_append_left _ hf)
    · exact h.header g (mem_shards_of_file hg)
  case truncated =>
    intro f hf hshort hbody
    obtain ⟨g, hg, rfl⟩ := Option.map_eq_some_iff.mp hf
    obtain ⟨hgbody, htake⟩ := List.append_eq_nil_iff.mp hbody
    have hwrote : c.wrote ≠ c.data.length := by
      intro heq
      rw [heq, List.take_length] at htake
      exact hne (by rw [htake]; rfl)
    show (if c.wrote ≠ c.data.length then _ else _) = 0
    rw [if_pos hwrote]
    exact h.truncated g hg hshort hgbody

theorem FaultInv.step (h : FaultInv cfg s) (hstep : writerStep cfg s c = some s') :
    FaultInv cfg s' := by
  rw [(eq_onPersist_of_step hstep).1, onPersist_eq]
  split
  · exact h
  · next hne =>
    split
    · split
      · exact (h.reopened _).appendFrame c hne
      · exact h.reopened _
    · exact h.appendFrame c hne

-- ═══════════════════════════════════════════════════════════════════════════
-- The exact condition
-- ═══════════════════════════════════════════════════════════════════════════

theorem HeaderFirst.reopened (h : HeaderFirst cfg s) (o : Opening) :
    HeaderFirst cfg (s.reopened cfg o) := by
  intro f hf hbody
  rw [shards_reopened, List.mem_append, Option.mem_toList] at hf
  rcases hf with hf | hf
  · exact h f hf hbody
  · obtain ⟨-, rfl⟩ := eq_of_mem_file_reopened hf
    exact absurd rfl hbody

/-- A complete header is not affected. -/
theorem completesHeader_reopened (h : o.Complete) : CompletesHeader cfg (s.reopened cfg o) c := by
  intro f hf hshort
  rw [file_reopened h] at hf
  cases hf
  rw [length_header] at hshort
  exact absurd hshort (Nat.lt_irrefl _)

/-- A call that opens a shard leaves the file it closes alone. -/
theorem FaultInv.completesHeader_of_needsShard (h : FaultInv cfg s)
    (hneeds : s.needsShard cfg c.data.length) : CompletesHeader cfg s c := by
  intro f hf hshort hbody _
  rcases hneeds with hnone | hfull
  · rw [hnone] at hf
    cases hf
  · rw [ShardWriter.full, h.truncated f hf hshort hbody] at hfull
    exact absurd hfull.1 (Nat.not_lt_zero _)

theorem completesHeader_of_empty (h : c.data.length = 0) : CompletesHeader cfg s c := by
  intro f _ _ _ htake
  rw [List.eq_nil_of_length_eq_zero h, List.take_nil] at htake
  exact absurd rfl htake

/-- What one file has to satisfy when bytes are appended to it. -/
theorem header_prefix_append_iff (hheader : f.header = cfg.header.take f.header.length)
    (hbody : f.body ≠ [] → cfg.header <+: f.bytes) (d : Bytes) :
    (f.body ++ d ≠ [] → cfg.header <+: f.header ++ (f.body ++ d)) ↔
      (f.header.length < kHeaderBytes → f.body = [] → d ≠ [] →
        cfg.header.drop f.header.length <+: d) := by
  have hsplit : cfg.header = f.header ++ cfg.header.drop f.header.length := by
    calc cfg.header = cfg.header.take f.header.length ++ cfg.header.drop f.header.length :=
          (List.take_append_drop _ _).symm
      _ = f.header ++ cfg.header.drop f.header.length := by rw [← hheader]
  by_cases hshort : f.header.length < kHeaderBytes
  · by_cases hempty : f.body = []
    · have hprefix : cfg.header <+: f.header ++ d ↔ cfg.header.drop f.header.length <+: d := by
        conv_lhs => rw [hsplit]
        exact List.prefix_append_right_inj _
      rw [hempty, List.nil_append, hprefix]
      exact ⟨fun h _ _ => h, fun h => h hshort rfl⟩
    · have hmore : f.bytes <+: f.header ++ (f.body ++ d) := by
        rw [← List.append_assoc]
        exact List.prefix_append _ _
      exact iff_of_true (fun _ => (hbody hempty).trans hmore) fun _ h => absurd h hempty
  · have hwhole : cfg.header = f.header := by
      rw [hsplit, List.drop_eq_nil_of_le (by rw [length_header]; omega), List.append_nil]
    refine iff_of_true (fun _ => ?_) fun h => absurd h hshort
    rw [← hwhole]
    exact List.prefix_append _ _

/-- Appending to the open file keeps the property exactly under the condition. -/
theorem headerFirst_appendFrame_iff (h : FaultInv cfg s) (hQ : HeaderFirst cfg s) :
    HeaderFirst cfg (appendFrame c s) ↔ CompletesHeader cfg s c := by
  constructor
  · intro hQ' f hf
    refine (header_prefix_append_iff (h.header f (mem_shards_of_file hf))
      (hQ f (mem_shards_of_file hf)) _).mp ?_
    refine hQ' { f with body := f.body ++ c.data.take c.wrote } (mem_shards_of_file ?_)
    exact Option.map_eq_some_iff.mpr ⟨f, hf, rfl⟩
  · intro hP f hf
    rcases mem_shards_appendFrame hf with hf | ⟨g, hg, rfl⟩
    · exact hQ f (List.mem_append_left _ hf)
    · exact (header_prefix_append_iff (h.header g (mem_shards_of_file hg))
        (hQ g (mem_shards_of_file hg)) _).mpr (hP g hg)

/-- One call keeps the property exactly under the condition. -/
theorem headerFirst_iff (h : FaultInv cfg s) (hQ : HeaderFirst cfg s)
    (hstep : writerStep cfg s c = some s') : HeaderFirst cfg s' ↔ CompletesHeader cfg s c := by
  rw [(eq_onPersist_of_step hstep).1, onPersist_eq]
  by_cases hempty : c.data.length = 0
  · rw [if_pos hempty]
    exact iff_of_true hQ (completesHeader_of_empty hempty)
  rw [if_neg hempty]
  by_cases hneeds : s.needsShard cfg c.data.length
  · rw [if_pos hneeds]
    refine iff_of_true ?_ (h.completesHeader_of_needsShard hneeds)
    split
    · next hc =>
      exact (headerFirst_appendFrame_iff (h.reopened _) (hQ.reopened _)).mpr
        (completesHeader_reopened hc)
    · exact hQ.reopened _
  · rw [if_neg hneeds]
    exact headerFirst_appendFrame_iff h hQ

theorem FaultInv.construct (h : construct cfg o = some s) :
    FaultInv cfg s ∧ HeaderFirst cfg s := by
  obtain ⟨-, rfl⟩ := eq_reopened_of_construct h
  have hinv : FaultInv cfg .initial := ⟨fun f hf => (by cases hf), fun f hf => (by cases hf)⟩
  have hfirst : HeaderFirst cfg .initial := fun f hf => (by cases hf)
  exact ⟨hinv.reopened o, hfirst.reopened o⟩

/-- In a run in which openings and `fwrite`s may fail in any way, every file with
bytes of a frame begins with the header at every moment exactly if every call
meets `CompletesHeader`: bytes go into a shard behind a truncated header only if
they happen to be the missing part of it. -/
theorem header_first_iff {s₀ : ShardWriter} (h₀ : construct cfg o = some s₀)
    (calls : List WriteCall) :
    Throughout (writerStep cfg) (HeaderFirst cfg) s₀ calls ↔
      Along (writerStep cfg) (CompletesHeader cfg) s₀ calls :=
  throughout_iff_along (I := FaultInv cfg) (fun _ _ _ h hstep => h.step hstep)
    (fun _ _ _ h hQ hstep => headerFirst_iff h hQ hstep) (FaultInv.construct h₀).1
    (FaultInv.construct h₀).2 calls

/-- The disk is full when the second shard is opened: nothing of its header is written. -/
def headerlessCalls : List WriteCall :=
  [cleanCall (List.replicate 12 1),
    ⟨[2], { cleanOpening with headerWrote := 0 }, 0, Nat.zero_le 1⟩, cleanCall [3]]

theorem header_first_iff_headerless : ∃ s₀, construct smallConfig cleanOpening = some s₀ ∧
    (Throughout (writerStep smallConfig) (HeaderFirst smallConfig) s₀ headerlessCalls ↔
      Along (writerStep smallConfig) (CompletesHeader smallConfig) s₀ headerlessCalls) := by
  have h₀ : construct smallConfig cleanOpening =
      some (.reopened smallConfig cleanOpening .initial) := by
    rw [construct_eq, if_pos (by decide)]
  exact ⟨_, h₀, header_first_iff h₀ headerlessCalls⟩

/-- The header of the second shard is not written and `OnPersist_` catches what
`OpenNewShard_` throws; the next frame is all the file has. -/
theorem frame_after_short_header :
    ¬ ∀ (cfg : ShardWriterConfig) (o : Opening) (calls : List WriteCall) (s₀ s : ShardWriter),
      construct cfg o = some s₀ → run (writerStep cfg) s₀ calls = some s →
        ∀ f ∈ s.shards, f.body ≠ [] → cfg.header <+: f.bytes := by
  intro h
  have hrun : ((construct smallConfig cleanOpening).bind fun s₀ =>
      (run (writerStep smallConfig) s₀ headerlessCalls).map fun s =>
        s.file.map fun f => (f.header, f.body)) = some (some ([], [3])) := by decide +kernel
  obtain ⟨s₀, h₀, hrun⟩ := Option.bind_eq_some_iff.mp hrun
  obtain ⟨s, hs, hfile⟩ := Option.map_eq_some_iff.mp hrun
  obtain ⟨f, hf, hbytes⟩ := Option.map_eq_some_iff.mp hfile
  obtain ⟨hheader, hbody⟩ := Prod.mk.inj hbytes
  have hne : f.body ≠ [] := by
    rw [hbody]
    exact List.cons_ne_nil 3 []
  have hprefix := h _ _ _ s₀ s h₀ hs f (mem_shards_of_file hf) hne
  have hlen := hprefix.length_le
  rw [length_header, Shard.bytes, hheader, hbody] at hlen
  exact absurd hlen (by decide)

end LoggerHigh
