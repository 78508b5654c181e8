import LoggerHigh.Audit.ShardGrammar
import LoggerHigh.Sinks.ShardPacking

/-!
# Frames that are written in part

When the `fwrite` of a frame is short, `WriteFrame` logs it, leaves `current_size_`
alone and goes on behind the torn frame with the next call.

## Main definitions

- `FrameCall` — a call with a well-formed frame on a writer whose openings succeed
- `Recorded`, `recordStep` — the writer, and the frames it has written completely
- `ShardWriter.found` — the frames that splitting the files finds
- `WholeOrNothing` — the condition on one call

## Main results

- `Intact.step`, `not_sizeKept_of_torn` — what a call does that meets the condition,
  and one that does not
- `frames_found_iff` — the same for whole runs
- `torn_frame_hides_next` — a frame behind a torn one is not found
-/

namespace LoggerHigh

open LengthPrefix Transition

/-- A call of `WriteFrame` with the frame of `body`, on a system that opens every
shard with its header but may take over only a part of the frame. -/
structure FrameCall where
  body : Bytes
  frameBody : FrameBody body
  opening : Opening
  complete : opening.Complete
  wrote : ℕ
  wrote_le : wrote ≤ (frame body).length

/-- The call. -/
def FrameCall.call (c : FrameCall) : WriteCall := ⟨frame c.body, c.opening, c.wrote, c.wrote_le⟩

/-- The writer, and the bodies of the frames it has written completely. -/
structure Recorded where
  writer : ShardWriter
  written : List Bytes
  deriving DecidableEq, Repr

/-- One call; a frame is recorded when `fwrite` reports its whole length. -/
def recordStep (cfg : ShardWriterConfig) (r : Recorded) (c : FrameCall) : Option Recorded :=
  (writerStep cfg r.writer c.call).map fun s =>
    ⟨s, if c.wrote = (frame c.body).length then r.written ++ [c.body] else r.written⟩

/-- The frames in the files, in the order of opening, split as `DecodeShardFile` does. -/
def ShardWriter.found (s : ShardWriter) : List Bytes := s.shards.flatMap fun f => handed f.bytes

/-- `current_size_` is the size of the open file. -/
def SizeKept (s : ShardWriter) : Prop := ∀ f ∈ s.file, s.currentSize = f.bytes.length

/-- Every frame that was written completely is found, intact and in order, and
`current_size_` is the size of the file. -/
def FramesFound (r : Recorded) : Prop :=
  List.Sublist r.written r.writer.found ∧ SizeKept r.writer

/-- `fwrite` takes over the whole frame or nothing of it. -/
def WholeOrNothing (_ : Recorded) (c : FrameCall) : Prop :=
  c.wrote = 0 ∨ c.wrote = (frame c.body).length

/-- The open file is a header and whole frames, and its size is known. -/
structure Intact (cfg : ShardWriterConfig) (s : ShardWriter) : Prop where
  file : ∃ f bodies, s.file = some f ∧ f.bytes = cfg.header ++ frames bodies ∧
    (∀ b ∈ bodies, FrameBody b) ∧ s.currentSize = f.bytes.length
  fits : s.Fits

variable {cfg : ShardWriterConfig} {s s' : ShardWriter} {c : FrameCall} {o : Opening}
  {bodies : List Bytes}

/-- Header and whole frames are split into these frames. -/
theorem handed_header_frames (cfg : ShardWriterConfig) (h : ∀ b ∈ bodies, FrameBody b) :
    handed (cfg.header ++ frames bodies) = bodies :=
  (isShard_iff.mp ⟨cfg.clientEphPub, List.replicate 4 0, cfg.pub_length, rfl, h, rfl⟩).1.symm

/-- The content of a file grows with its body. -/
theorem bytes_append (f : Shard) (d : Bytes) :
    Shard.bytes { f with body := f.body ++ d } = f.bytes ++ d := (List.append_assoc _ _ _).symm

theorem length_frame_pos (c : FrameCall) : 0 < c.call.data.length := by
  show 0 < (frame c.body).length
  rw [length_frame]
  omega

/-- A shard that has just been opened is intact and adds no frame. -/
theorem Intact.reopened (cfg : ShardWriterConfig) (s : ShardWriter) (ho : o.Complete) :
    Intact cfg (s.reopened cfg o) ∧ (s.reopened cfg o).found = s.found := by
  have hfile : (s.reopened cfg o).file = some ⟨makeShardName o.clock s.seq, cfg.header, []⟩ :=
    file_reopened ho
  have hsize : (s.reopened cfg o).currentSize = kHeaderBytes := currentSize_reopened ho
  have hnone : handed cfg.header = [] := by
    have hframes := handed_header_frames cfg (List.forall_mem_nil FrameBody)
    rwa [frames, List.flatMap_nil, List.append_nil] at hframes
  have hbytes : Shard.bytes ⟨makeShardName o.clock s.seq, cfg.header, []⟩ = cfg.header :=
    List.append_nil _
  refine ⟨⟨⟨_, [], hfile, ?bytes, List.forall_mem_nil _, ?size⟩, ?fits⟩, ?found⟩
  case bytes => exact rfl
  case size => rw [hsize, hbytes, length_header]
  case fits =>
    intro f hf
    rw [hfile] at hf
    cases hf
    rw [hbytes, length_header]
    decide
  case found =>
    have hshards : (s.reopened cfg o).shards = s.shards ++ (s.reopened cfg o).file.toList := rfl
    simp [ShardWriter.found, hshards, hfile, hbytes, hnone]

/-- A frame that is written completely is found behind those before it. -/
theorem Intact.append (h : Intact cfg s) (hwrote : c.wrote = (frame c.body).length)
    (hfits : (appendFrame c.call s).Fits) :
    Intact cfg (appendFrame c.call s) ∧ (appendFrame c.call s).found = s.found ++ [c.body] := by
  obtain ⟨f, bodies, hfile, hbytes, hbodies, hsize⟩ := h.file
  have htake : c.call.data.take c.call.wrote = frame c.body := by
    show (frame c.body).take c.wrote = _
    rw [hwrote, List.take_length]
  have hfile' : (appendFrame c.call s).file = some { f with body := f.body ++ frame c.body } := by
    rw [appendFrame, hfile, htake]
    rfl
  have hbytes' : Shard.bytes { f with body := f.body ++ frame c.body } =
      cfg.header ++ frames (bodies ++ [c.body]) := by
    rw [bytes_append, hbytes, List.append_assoc, frames_append_singleton]
  have hall : ∀ b ∈ bodies ++ [c.body], FrameBody b := by
    simpa [or_imp, forall_and] using ⟨hbodies, c.frameBody⟩
  refine ⟨⟨⟨_, bodies ++ [c.body], hfile', hbytes', hall, ?size⟩, hfits⟩, ?found⟩
  case size =>
    have hcap := h.fits f hfile
    have hlt := c.frameBody.2
    have hsum : s.currentSize + (frame c.body).length < 2 ^ 64 := by
      rw [hsize, length_frame]
      simp only [kMaxFileBytes] at hcap
      omega
    show (if c.wrote ≠ (frame c.body).length then _
      else addSize s.currentSize (frame c.body).length) = _
    rw [if_neg (not_not_intro hwrote), addSize_of_lt hsum, hsize, bytes_append, List.length_append]
  case found =>
    have hclosed : (appendFrame c.call s).closed = s.closed := rfl
    simp only [ShardWriter.found, ShardWriter.shards, hclosed, hfile', hfile, Option.toList_some,
      List.flatMap_append, List.flatMap_singleton, hbytes', hbytes, handed_header_frames cfg hall,
      handed_header_frames cfg hbodies, List.append_assoc]

/-- A frame of which nothing is written changes nothing. -/
theorem appendFrame_of_zero (hwrote : c.wrote = 0) : appendFrame c.call s = s := by
  have hne : c.wrote ≠ (frame c.body).length := by
    have := length_frame_pos c
    show c.wrote ≠ c.call.data.length
    omega
  have htake : c.call.data.take c.call.wrote = [] := by
    show (frame c.body).take c.wrote = []
    rw [hwrote, List.take_zero]
  obtain ⟨closed, file, currentSize, currentPath, seq⟩ := s
  have hsize : (if c.call.wrote ≠ c.call.data.length then currentSize
      else addSize currentSize c.call.data.length) = currentSize := if_pos hne
  simp only [appendFrame, htake, List.append_nil, hsize]
  cases file <;> rfl

/-- Behind a torn frame `current_size_` is less than the size of the file. -/
theorem not_sizeKept_of_torn (h : Intact cfg s) (hzero : c.wrote ≠ 0)
    (hwhole : c.wrote ≠ (frame c.body).length) : ¬ SizeKept (appendFrame c.call s) := by
  obtain ⟨f, bodies, hfile, -, -, hsize⟩ := h.file
  intro hkept
  have hfile' : (appendFrame c.call s).file =
      some { f with body := f.body ++ (frame c.body).take c.wrote } := by
    rw [appendFrame, hfile]
    rfl
  have hsame : (appendFrame c.call s).currentSize = s.currentSize := if_pos hwhole
  have hlen := hkept _ hfile'
  have hle := c.wrote_le
  rw [hsame, hsize, bytes_append, List.length_append, List.length_take] at hlen
  omega

/-- Every call ends with `fwrite` on an intact file that has lost no frame. -/
theorem Intact.exists_appendFrame (h : Intact cfg s) (c : FrameCall) : ∃ s₁, Intact cfg s₁ ∧
    s₁.found = s.found ∧ onPersist cfg c.call s = appendFrame c.call s₁ := by
  have hne : c.call.data.length ≠ 0 := Nat.ne_of_gt (length_frame_pos c)
  rw [onPersist_eq, if_neg hne]
  by_cases hneeds : s.needsShard cfg c.call.data.length
  · obtain ⟨hintact, hfound⟩ := Intact.reopened cfg s c.complete
    exact ⟨_, hintact, hfound, by rw [if_pos hneeds]; exact if_pos c.complete⟩
  · exact ⟨s, h, rfl, by rw [if_neg hneeds]⟩

/-- What keeps `FramesFound` true along a run. -/
structure RecordInv (cfg : ShardWriterConfig) (r : Recorded) : Prop where
  intact : Intact cfg r.writer
  found : List.Sublist r.written r.writer.found

theorem RecordInv.framesFound {r : Recorded} (h : RecordInv cfg r) : FramesFound r := by
  obtain ⟨f, -, hfile, -, -, hsize⟩ := h.intact.file
  refine ⟨h.found, fun g hg => ?_⟩
  rw [hfile] at hg
  cases hg
  exact hsize

/-- A call that writes the whole frame or nothing of it. -/
theorem RecordInv.step {r r' : Recorded} (h : RecordInv cfg r) (hcall : WholeOrNothing r c)
    (hstep : recordStep cfg r c = some r') : RecordInv cfg r' := by
  obtain ⟨s', hs', rfl⟩ := Option.map_eq_some_iff.mp hstep
  obtain ⟨rfl, hfits⟩ := eq_onPersist_of_step hs'
  obtain ⟨s₁, hintact, hfound, hcalled⟩ := h.intact.exists_appendFrame c
  rw [hcalled] at hfits ⊢
  rcases hcall with hzero | hwhole
  · have hne : c.wrote ≠ (frame c.body).length := by
      have := length_frame_pos c
      show c.wrote ≠ c.call.data.length
      omega
    rw [if_neg hne, appendFrame_of_zero hzero]
    exact ⟨hintact, hfound ▸ h.found⟩
  · obtain ⟨hintact', hfound'⟩ := hintact.append hwhole hfits
    rw [if_pos hwhole]
    refine ⟨hintact', ?_⟩
    rw [hfound', hfound]
    exact h.found.append (List.Sublist.refl _)

/-- Any other call. -/
theorem RecordInv.not_framesFound {r r' : Recorded} (h : RecordInv cfg r)
    (hcall : ¬ WholeOrNothing r c) (hstep : recordStep cfg r c = some r') : ¬ FramesFound r' := by
  obtain ⟨s', hs', rfl⟩ := Option.map_eq_some_iff.mp hstep
  obtain ⟨rfl, -⟩ := eq_onPersist_of_step hs'
  obtain ⟨s₁, hintact, -, hcalled⟩ := h.intact.exists_appendFrame c
  rintro ⟨-, hkept⟩
  obtain ⟨hzero, hwhole⟩ := not_or.mp hcall
  simp only [hcalled] at hkept
  exact not_sizeKept_of_torn hintact hzero hwhole hkept

theorem RecordInv.construct (h : construct cfg o = some s) : RecordInv cfg ⟨s, []⟩ := by
  obtain ⟨ho, rfl⟩ := eq_reopened_of_construct h
  exact ⟨(Intact.reopened cfg _ ho).1, List.nil_sublist _⟩

/-- For every sequence of calls with well-formed frames and every pattern of short
`fwrite`s, the frames written completely are found in the files, in order, and
`current_size_` is the size of the file, at every moment, exactly if every `fwrite`
takes over a whole frame or nothing. -/
theorem frames_found_iff {s₀ : ShardWriter} (h₀ : construct cfg o = some s₀)
    (calls : List FrameCall) :
    Throughout (recordStep cfg) FramesFound ⟨s₀, []⟩ calls ↔
      Along (recordStep cfg) WholeOrNothing ⟨s₀, []⟩ calls :=
  throughout_iff_along_of_kept (J := RecordInv cfg) (fun _ h => h.framesFound)
    (fun _ _ _ h hcall hstep => h.step hcall hstep)
    (fun _ _ _ h hcall hstep => h.not_framesFound hcall hstep) (RecordInv.construct h₀) calls

-- ═══════════════════════════════════════════════════════════════════════════
-- A torn frame
-- ═══════════════════════════════════════════════════════════════════════════

/-- A frame of which five bytes are written, and one that is written whole. -/
def tornCall : FrameCall :=
  ⟨List.replicate 28 0, by decide, cleanOpening, by decide, 5, by decide⟩
def wholeCall : FrameCall :=
  ⟨List.replicate 28 1, by decide, cleanOpening, by decide, 32, by decide⟩

theorem frames_found_iff_torn : ∃ s₀, construct smallConfig cleanOpening = some s₀ ∧
    (Throughout (recordStep smallConfig) FramesFound ⟨s₀, []⟩ [wholeCall, tornCall, wholeCall] ↔
      Along (recordStep smallConfig) WholeOrNothing ⟨s₀, []⟩ [wholeCall, tornCall, wholeCall]) := by
  have h₀ : construct smallConfig cleanOpening =
      some (.reopened smallConfig cleanOpening .initial) := by
    rw [construct_eq, if_pos (by decide)]
  exact ⟨_, h₀, frames_found_iff h₀ _⟩

/-- The reader takes the length of the torn frame and 28 bytes behind it, most of
them from the next frame, which it then misses. -/
theorem torn_frame_hides_next :
    ¬ ∀ (cfg : ShardWriterConfig) (o : Opening) (calls : List FrameCall) (s₀ : ShardWriter)
      (r : Recorded), construct cfg o = some s₀ → run (recordStep cfg) ⟨s₀, []⟩ calls = some r →
        FramesFound r := by
  intro h
  have hrun : ((construct smallConfig cleanOpening).bind fun s₀ =>
      (run (recordStep smallConfig) ⟨s₀, []⟩ [tornCall, wholeCall]).map fun r =>
        (r.written, r.writer.found)) =
      some ([List.replicate 28 1], [[0, 28, 0, 0, 0] ++ List.replicate 23 1]) := by decide +kernel
  obtain ⟨s₀, h₀, hrun⟩ := Option.bind_eq_some_iff.mp hrun
  obtain ⟨r, hr, hpair⟩ := Option.map_eq_some_iff.mp hrun
  obtain ⟨hwritten, hfound⟩ := Prod.mk.inj hpair
  have hsub := (h _ _ _ s₀ r h₀ hr).1
  rw [hwritten, hfound] at hsub
  exact absurd hsub (by decide)

end LoggerHigh
