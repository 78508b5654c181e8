import LoggerHigh.Lib.Packing
import LoggerHigh.Sinks.ShardWriter

/-!
# Shards hold whole frames

Without I/O errors the writer packs its frames greedily: every shard is a
header followed by whole frames, in the order of the calls.

## Main definitions

- `WriteCall.Clean` — no I/O error happens in a call
- `Holds` — the files of a writer hold a given packing
- `ShardsPacked` — what the files look like

## Main results

- `Holds.step` — one call refines one step of greedy packing
- `shards_packed` — the files of every run
-/

namespace LoggerHigh

open Transition

/-- No I/O error: `fopen` succeeds and both `fwrite`s write everything. -/
def WriteCall.Clean (c : WriteCall) : Prop := c.opening.Complete ∧ c.wrote = c.data.length

instance (c : WriteCall) : Decidable c.Clean := inferInstanceAs (Decidable (_ ∧ _))

/-- The frames of the calls that write one. -/
def framesOf (calls : List WriteCall) : List Bytes :=
  (calls.map WriteCall.data).filter fun d => d.length ≠ 0

/-- The content of a shard with the frames `fs`. -/
def shardText (cfg : ShardWriterConfig) (fs : List Bytes) : Bytes := cfg.header ++ fs.flatten

/-- The files of `s` when the frames of each shard are those of one of `packs`. -/
structure ShardsPacked (cfg : ShardWriterConfig) (frames : List Bytes) (s : ShardWriter)
    (packs : List (List Bytes)) : Prop where
  /-- In the order of opening, every shard is a header and whole frames. -/
  contents : s.shards.map Shard.bytes = packs.map (shardText cfg)
  /-- No frame is lost, doubled, split or out of order. -/
  flatten : packs.flatten = frames
  within : ∀ fs ∈ packs, (shardText cfg fs).length ≤ cfg.shardLimit ∨ fs.length = 1
  /-- A shard that has a successor holds a frame, and the first frame of the
  successor had no room in it. -/
  rotated : packs.IsChain fun fs gs =>
    fs ≠ [] ∧ ∃ d ∈ gs.head?, cfg.shardLimit < (shardText cfg fs).length + d.length
  currentSize : ∃ f, s.file = some f ∧ s.currentSize = f.bytes.length

/-- The files of `s` hold the packs of `p`, the open one the last. -/
structure Holds (cfg : ShardWriterConfig) (s : ShardWriter) (p : Packing.Packs Bytes) : Prop where
  closed : s.closed.map Shard.bytes = p.done.map (shardText cfg)
  file : ∃ f, s.file = some f ∧ f.bytes = shardText cfg p.last ∧ s.currentSize = f.bytes.length
  nonempty : ∀ d ∈ p.last, d.length ≠ 0

section Refinement

variable {cfg : ShardWriterConfig} {s s' : ShardWriter} {p : Packing.Packs Bytes}
  {c : WriteCall} {o : Opening}

theorem length_shardText (fs : List Bytes) :
    (shardText cfg fs).length = Packing.size List.length kHeaderBytes fs := by
  rw [shardText, List.length_append, length_header, List.length_flatten, Packing.size]

theorem flatten_length_pos {fs : List Bytes} (h : ∀ d ∈ fs, d.length ≠ 0) (hne : fs ≠ []) :
    0 < fs.flatten.length := by
  obtain ⟨d, fs, rfl⟩ := List.exists_cons_of_ne_nil hne
  rw [List.flatten_cons, List.length_append]
  have := h d List.mem_cons_self
  omega

/-- The test of `WriteFrame` is that of greedy packing: the size is over that of
a header exactly when the shard holds a frame. -/
theorem Holds.full_iff (h : Holds cfg s p) {d : Bytes} (hsum : s.currentSize + d.length < 2 ^ 64) :
    s.full cfg d.length ↔ Packing.NoRoom List.length kHeaderBytes cfg.shardLimit p.last d := by
  obtain ⟨f, -, hbytes, hsize⟩ := h.file
  rw [ShardWriter.full, Packing.NoRoom, addSize_of_lt hsum, hsize, hbytes, ← length_shardText]
  refine and_congr_left fun _ => ?_
  rw [shardText, List.length_append, length_header]
  constructor
  · rintro hlt hnil
    rw [hnil] at hlt
    exact Nat.lt_irrefl _ hlt
  · intro hne
    have := flatten_length_pos h.nonempty hne
    omega

/-- A frame that is written whole is added to the open shard. -/
theorem Holds.appendFrame (h : Holds cfg s p) (hwrote : c.wrote = c.data.length)
    (hsum : s.currentSize + c.data.length < 2 ^ 64) (hne : c.data.length ≠ 0) :
    Holds cfg (appendFrame c s) ⟨p.done, p.last ++ [c.data]⟩ := by
  obtain ⟨f, hfile, hbytes, hsize⟩ := h.file
  have htake : c.data.take c.wrote = c.data := by rw [hwrote, List.take_length]
  have happ : Shard.bytes { f with body := f.body ++ c.data } = f.bytes ++ c.data :=
    (List.append_assoc _ _ _).symm
  refine ⟨h.closed, ⟨{ f with body := f.body ++ c.data }, ?file, ?bytes, ?size⟩, ?nonempty⟩
  case file =>
    show s.file.map _ = _
    rw [hfile, htake]
    rfl
  case bytes =>
    rw [happ, hbytes, shardText, shardText, List.flatten_append, List.flatten_singleton,
      List.append_assoc]
  case size =>
    show (if c.wrote ≠ c.data.length then _ else _) = _
    rw [if_neg (not_not_intro hwrote), addSize_of_lt hsum, happ, List.length_append, hsize]
  case nonempty =>
    intro d hd
    rcases List.mem_append.mp hd with hd | hd
    · exact h.nonempty d hd
    · rw [List.mem_singleton.mp hd]
      exact hne

/-- A shard that is opened holds a header. -/
theorem Holds.reopened {done : List (List Bytes)}
    (hshards : s.shards.map Shard.bytes = done.map (shardText cfg)) (ho : o.Complete) :
    Holds cfg (s.reopened cfg o) ⟨done, []⟩ := by
  refine ⟨hshards, ⟨_, file_reopened ho, rfl, ?size⟩, ?nonempty⟩
  case size =>
    rw [currentSize_reopened ho, Shard.bytes, List.append_nil, length_header]
  case nonempty =>
    intro d hd
    cases hd

theorem Holds.shards (h : Holds cfg s p) :
    s.shards.map Shard.bytes = p.all.map (shardText cfg) := by
  obtain ⟨f, hfile, hbytes, -⟩ := h.file
  rw [ShardWriter.shards, hfile, Packing.Packs.all, List.map_append, List.map_append, h.closed]
  show _ ++ [f.bytes] = _ ++ [shardText cfg p.last]
  rw [hbytes]

/-- One call without I/O error is one step of greedy packing. -/
theorem Holds.step (h : Holds cfg s p) (hfits : s.Fits) (hclean : c.Clean)
    (hlen : c.data.length < 2 ^ 32) (hstep : writerStep cfg s c = some s') :
    Holds cfg s' (if c.data.length = 0 then p
      else Packing.add List.length kHeaderBytes cfg.shardLimit p c.data) := by
  obtain ⟨f, hfile, hbytes, hsize⟩ := h.file
  have hcap : f.bytes.length ≤ kMaxFileBytes := hfits f hfile
  have hsum : s.currentSize + c.data.length < 2 ^ 64 := by
    rw [hsize]
    simp only [kMaxFileBytes] at hcap
    omega
  rw [(eq_onPersist_of_step hstep).1, onPersist_eq]
  by_cases hne : c.data.length = 0
  · rw [if_pos hne, if_pos hne]
    exact h
  rw [if_neg hne, if_neg hne, if_pos hclean.1, Packing.add]
  have hiff : s.needsShard cfg c.data.length ↔
      Packing.NoRoom List.length kHeaderBytes cfg.shardLimit p.last c.data := by
    rw [← h.full_iff hsum, ShardWriter.needsShard, hfile]
    exact or_iff_right (Option.some_ne_none f)
  by_cases hroom : Packing.NoRoom List.length kHeaderBytes cfg.shardLimit p.last c.data
  · rw [if_pos hroom, if_pos (hiff.mpr hroom)]
    have hopened := Holds.reopened h.shards hclean.1
    refine Holds.appendFrame hopened hclean.2 ?_ hne
    rw [currentSize_reopened hclean.1, kHeaderBytes]
    omega
  · rw [if_neg hroom, if_neg (mt hiff.mp hroom)]
    exact h.appendFrame hclean.2 hsum hne

/-- A run without I/O errors packs the frames of its calls. -/
theorem Holds.run {calls : List WriteCall} (h : Holds cfg s p) (hfits : s.Fits)
    (hclean : ∀ c ∈ calls, c.Clean ∧ c.data.length < 2 ^ 32)
    (hrun : run (writerStep cfg) s calls = some s') :
    Holds cfg s' ((framesOf calls).foldl
      (Packing.add List.length kHeaderBytes cfg.shardLimit) p) := by
  induction calls generalizing s p with
  | nil =>
    cases hrun
    exact h
  | cons c calls ih =>
    obtain ⟨s₁, hstep, hrun⟩ := Option.bind_eq_some_iff.mp hrun
    have hc := hclean c List.mem_cons_self
    have hnext := ih (h.step hfits hc.1 hc.2 hstep) (eq_onPersist_of_step hstep).2
      (fun c' hc' => hclean c' (List.mem_cons_of_mem c hc')) hrun
    rw [framesOf, List.map_cons, List.filter_cons]
    by_cases hne : c.data.length = 0
    · rw [if_pos hne] at hnext
      rw [if_neg (by simp only [hne, ne_eq, not_true_eq_false, decide_false, Bool.false_eq_true,
        not_false_eq_true])]
      exact hnext
    · rw [if_neg hne] at hnext
      rw [if_pos (decide_eq_true hne), List.foldl_cons]
      exact hnext

/-- What a constructed writer has on disk: one header. -/
theorem Holds.construct (h : construct cfg o = some s) : Holds cfg s ⟨[], []⟩ ∧ s.Fits := by
  obtain ⟨ho, rfl⟩ := eq_reopened_of_construct h
  refine ⟨Holds.reopened rfl ho, ?_⟩
  intro f hf
  rw [file_reopened ho] at hf
  cases hf
  rw [Shard.bytes, List.append_nil, length_header]
  decide

end Refinement

/-- For every limit and every sequence of calls without I/O errors, the shards in
the order of opening are headers followed by whole frames, which are the nonempty
frames of the calls in their order; a shard exceeds the limit only with a single
frame; a shard is followed by another one only if it holds a frame and the next
one would have exceeded the limit; `current_size_` is the size of the open file. -/
theorem shards_packed {cfg : ShardWriterConfig} {o : Opening} {calls : List WriteCall}
    {s₀ s : ShardWriter} (h₀ : construct cfg o = some s₀)
    (hclean : ∀ c ∈ calls, c.Clean ∧ c.data.length < 2 ^ 32)
    (hrun : run (writerStep cfg) s₀ calls = some s) :
    ∃ packs, ShardsPacked cfg (framesOf calls) s packs := by
  obtain ⟨hinit, hfits⟩ := Holds.construct h₀
  have hholds := hinit.run hfits hclean hrun
  have hpacked : Packing.Packed List.length kHeaderBytes cfg.shardLimit (framesOf calls) _ :=
    Packing.packed_greedy (Nat.le_of_lt cfg.limit_gt) (framesOf calls)
  obtain ⟨f, hfile, -, hsize⟩ := hholds.file
  refine ⟨_, hholds.shards, hpacked.flatten, ?within, ?rotated, ⟨f, hfile, hsize⟩⟩
  case within =>
    intro fs hfs
    rw [length_shardText]
    exact hpacked.within fs hfs
  case rotated =>
    refine hpacked.left.imp fun fs gs h => ?_
    obtain ⟨d, hd, hne, hlt⟩ := h
    rw [length_shardText]
    exact ⟨hne, d, hd, hlt⟩

-- ═══════════════════════════════════════════════════════════════════════════
-- A run with several rotations
-- ═══════════════════════════════════════════════════════════════════════════

/-- A writer whose shards have room for twelve bytes of frames. -/
def smallConfig : ShardWriterConfig where
  shardLimit := 60
  clientEphPub := List.replicate 32 7
  pub_length := rfl
  limit_gt := by decide
  limit_lt := by decide

/-- The clock stands still and every opening succeeds. -/
def cleanOpening : Opening := ⟨⟨0, ⟨70, 0, 1, 0, 0, 0⟩⟩, true, 48⟩

/-- A call without I/O error. -/
def cleanCall (data : Bytes) : WriteCall := ⟨data, cleanOpening, data.length, le_rfl⟩

/-- A frame that fills the first shard exactly, one too many, one over the limit. -/
def packingCalls : List WriteCall :=
  [cleanCall [1, 2, 3, 4, 5], cleanCall [], cleanCall [6, 7, 8, 9, 10, 11, 12], cleanCall [13],
    cleanCall (List.replicate 20 14), cleanCall [15]]

theorem shards_packed_rotating :
    ∃ s₀ s, construct smallConfig cleanOpening = some s₀ ∧
      run (writerStep smallConfig) s₀ packingCalls = some s ∧ s.shards.length = 4 ∧
      ∃ packs, ShardsPacked smallConfig (framesOf packingCalls) s packs := by
  have hclean : ∀ c ∈ packingCalls, c.Clean ∧ c.data.length < 2 ^ 32 := by decide
  have hrun : ((construct smallConfig cleanOpening).bind fun s₀ =>
      (run (writerStep smallConfig) s₀ packingCalls).map fun s => s.shards.length) = some 4 := by
    decide +kernel
  obtain ⟨s₀, h₀, hrun⟩ := Option.bind_eq_some_iff.mp hrun
  obtain ⟨s, hs, hlength⟩ := Option.map_eq_some_iff.mp hrun
  exact ⟨s₀, s, h₀, hs, hlength, shards_packed h₀ hclean hs⟩

end LoggerHigh
