import LoggerHigh.Compress.DecompressLoop

/-!
# What `Decompress` puts out

The windows of input and output move independently of each other. What has been
put out so far stands in `out` behind what was there before, whatever the sizes
of the windows were, and growing the buffer leaves it alone.

## Main definitions

- `InflateEngine.Streams` — the state of the engine after some calls, and what they put out
- `InflateEngine.Opens` — a whole stream and the text it inflates to
- `StreamInv` — what `out` holds at the start of every round

## Main results

- `StreamInv.step` — every round keeps it
- `StreamInv.last` — what `Decompress` returns
- `decompress_of_opens` — a whole stream is inflated to its text
-/

namespace LoggerHigh

/-- The engine's state after any calls that were offered `input` piece by piece and
did not stop it, with the number of bytes consumed and the bytes put out. -/
inductive InflateEngine.Streams (E : InflateEngine) (input : Bytes) : E.State → ℕ → Bytes → Prop
  | init {s : E.State} (h : E.init = .ok s) : Streams E input s 0 []
  | call {s : E.State} {c len room : ℕ} {emitted : Bytes} (h : Streams E input s c emitted)
      {a : ZAnswer E.State} (ha : a = E.inflate s ((input.drop c).take len) room)
      (hret : a.ret.Continues) : Streams E input a.engine (c + a.consumed) (emitted ++ a.produced)

/-- `input` is a whole stream: in whatever pieces it is offered and whatever room
there is, the engine puts out `text` piece by piece, gets on where there is room
and something to offer, and ends the stream with the last piece. -/
structure InflateEngine.Opens (E : InflateEngine) (input text : Bytes) : Prop where
  init : ∃ s, E.init = .ok s
  answers : ∀ {s c emitted}, E.Streams input s c emitted → ∀ len room,
    let a := E.inflate s ((input.drop c).take len) room
    a.ret.Continues ∧ emitted ++ a.produced <+: text ∨
      a.ret = .streamEnd ∧ emitted ++ a.produced = text
  progress : ∀ {s c emitted}, E.Streams input s c emitted → ∀ len room, 0 < room →
    0 < len ∨ c = input.length →
    let a := E.inflate s ((input.drop c).take len) room
    a.ret.Continues → ¬ a.Idle

/-- What holds at the start of every round, where `before` was in `out` and
`emitted` has been put out. -/
structure StreamInv (E : InflateEngine) (input before : Bytes) (s : InflateLoop E.State)
    (emitted : Bytes) : Prop where
  streams : E.Streams input s.engine s.nextIn emitted
  totalOut : s.totalOut = emitted.length
  content : s.out.take (before.length + emitted.length) = before ++ emitted
  room : emitted.length + s.availOut ≤ s.outCap
  nowrap : before.length + s.outCap < 2 ^ 64
  fits : s.outCap = 0 ∨ before.length + s.outCap ≤ kMaxString

-- ═══════════════════════════════════════════════════════════════════════════
-- The output buffer
-- ═══════════════════════════════════════════════════════════════════════════

variable {alloc : ℕ → Bool} {input before emitted text : Bytes}

/-- Bytes written over a buffer follow what is left of them. -/
theorem take_overwrite {out bytes : Bytes} {pos : ℕ} (h : pos + bytes.length ≤ out.length) :
    (overwrite out pos bytes).take (pos + bytes.length) = out.take pos ++ bytes := by
  have hpos : (out.take pos).length = pos := by
    rw [List.length_take]
    omega
  have hlen : pos + bytes.length = (out.take pos ++ bytes).length := by
    rw [List.length_append, hpos]
  rw [overwrite, List.take_take, Nat.min_eq_left h, hlen, List.take_left]

/-- A resized buffer keeps what fits into both sizes. -/
theorem take_of_resize {out out' : Bytes} {n k : ℕ} (h : resize alloc out n = some out')
    (hk : k ≤ out.length) (hn : k ≤ n) : out'.take k = out.take k := by
  rw [resize] at h
  split at h
  · cases h
    rw [List.take_take, Nat.min_eq_left hn]
  · split at h
    · cases h
      exact List.take_append_of_le_length hk
    · cases h

/-- A resized buffer has grown only within the maximum. -/
theorem le_of_resize {out out' : Bytes} {n : ℕ} (h : resize alloc out n = some out') :
    n ≤ out.length ∨ n ≤ kMaxString := by
  rw [resize] at h
  split at h
  · next hle => exact .inl hle
  · split at h
    · next hmax => exact .inr hmax.1
    · cases h

/-- A resize within what there is gives the beginning. -/
theorem resize_of_le {out : Bytes} {n : ℕ} (h : n ≤ out.length) :
    resize alloc out n = some (out.take n) := by
  rw [resize, if_pos h]

/-- A resize within the maximum succeeds if there is memory. -/
theorem isSome_resize (halloc : ∀ n, alloc n = true) (out : Bytes) {n : ℕ}
    (h : n ≤ kMaxString) :
    ∃ out', resize alloc out n = some out' := by
  rw [resize]
  split
  · exact ⟨_, rfl⟩
  · rw [if_pos ⟨h, halloc n⟩]
    exact ⟨_, rfl⟩

-- ═══════════════════════════════════════════════════════════════════════════
-- The rounds
-- ═══════════════════════════════════════════════════════════════════════════

section Rounds

variable {E : InflateEngine} {s s' : InflateLoop E.State}

/-- The call of a round stays within the room there is. -/
theorem produced_le_availOut (hE : E.Bounded) (s : InflateLoop E.State) :
    (s.answer E input).produced.length ≤ s.availOut :=
  hE.produced_le _ _ _

/-- No size wraps. -/
theorem StreamInv.sizes (h : StreamInv E input before s emitted)
    (hnext : s.nextOut = addSize before.length s.produced)
    (hlength : s.out.length = addSize before.length s.outCap) :
    s.produced = emitted.length ∧ s.nextOut = before.length + emitted.length ∧
      s.out.length = before.length + s.outCap := by
  have hnowrap := h.nowrap
  have hroom := h.room
  have htotal := h.totalOut
  simp only [InflateLoop.produced, addSize] at *
  omega

/-- After the call of a round its output follows what was put out before. -/
theorem StreamInv.content_advance (hE : E.Bounded) (hloop : LoopInv E input before.length s)
    (h : StreamInv E input before s emitted) :
    (s.advance (s.answer E input)).out.take
        (before.length + (emitted ++ (s.answer E input).produced).length) =
      before ++ (emitted ++ (s.answer E input).produced) := by
  obtain ⟨-, hnext, hlength⟩ := h.sizes hloop.nextOut hloop.length_out
  have hroom := h.room
  have hproduced : (s.answer E input).produced.length ≤ s.availOut := produced_le_availOut hE s
  rw [InflateLoop.advance, List.length_append, ← Nat.add_assoc, ← hnext,
    take_overwrite (by omega), hnext, h.content, List.append_assoc]

/-- The state in which the loop goes on, before it looks at the room for output. -/
theorem StreamInv.called (hE : E.Bounded) (hloop : LoopInv E input before.length s)
    (h : StreamInv E input before s emitted)
    (hret : (s.answer E input).ret.Continues) :
    StreamInv E input before (s.called E input)
      (emitted ++ (s.answer E input).produced) := by
  have hconsumed : (s.answer E input).consumed ≤ s.availIn := consumed_le_availIn hE s
  have hwindow := hloop.window
  have hmoved := (InflateLoop.window_refill (l := s.advance (s.answer E input))
    (n := input.length) (by simp only [InflateLoop.advance]; omega)).1
  have hproduced : (s.answer E input).produced.length ≤ s.availOut := produced_le_availOut hE s
  have hroom := h.room
  have hcap : (s.called E input).outCap = s.outCap := by
    simp only [InflateLoop.called, InflateLoop.outCap_refill, InflateLoop.advance]
  refine ⟨?streams, ?totalOut, ?content, ?room, by rw [hcap]; exact h.nowrap,
    by rw [hcap]; exact h.fits⟩
  case streams =>
    simp only [InflateLoop.called, InflateLoop.engine_refill, hmoved]
    exact h.streams.call rfl hret
  case totalOut =>
    simp only [InflateLoop.called, InflateLoop.totalOut_refill, InflateLoop.advance, h.totalOut,
      List.length_append]
  case content =>
    rw [InflateLoop.called, InflateLoop.out_refill]
    exact h.content_advance hE hloop
  case room =>
    simp only [InflateLoop.called, InflateLoop.availOut_refill, InflateLoop.outCap_refill,
      InflateLoop.advance, List.length_append]
    omega

/-- Every round keeps the invariant. -/
theorem StreamInv.step (hE : E.Bounded) (hloop : LoopInv E input before.length s)
    (h : StreamInv E input before s emitted)
    (hround : decompressRound E alloc input before.length s = .inl s') :
    StreamInv E input before s'
      (emitted ++ (s.answer E input).produced) := by
  obtain ⟨hret, hnext⟩ := round_eq_inl hround
  have hcalled := h.called hE hloop hret
  split at hnext
  · next hzero =>
    obtain ⟨out, hout, rfl⟩ := InflateLoop.grow_eq_inl hnext
    have hinv := hloop.called hE hret
    obtain ⟨hproduced, hnextOut, hlength⟩ := hcalled.sizes hinv.nextOut hinv.length_out
    have hnowrap := hcalled.nowrap
    have hfits := hcalled.fits
    have hroom := hcalled.room
    have hsizes : addSize before.length ((s.called E input).outCap * 2 % 2 ^ 64) =
        before.length + (s.called E input).outCap * 2 := by
      simp only [kMaxString, addSize] at *
      omega
    rw [hsizes] at hout
    have hle := le_of_resize hout
    refine ⟨hcalled.streams, hcalled.totalOut, ?content, ?room, ?nowrap, ?fits⟩
    case content =>
      simp only
      rw [take_of_resize hout (by omega) (by omega)]
      exact hcalled.content
    case room =>
      have hchunk := chunk_le (((s.called E input).outCap * 2 % 2 ^ 64 + 2 ^ 64 -
        (s.called E input).produced) % 2 ^ 64)
      simp only [kMaxString] at *
      omega
    case nowrap | fits =>
      simp only [kMaxString] at *
      omega
  · cases hnext
    exact hcalled

/-- The loop starts with the invariant, unless the first size wraps. -/
theorem StreamInv.start
    (hstart : decompressStart E alloc input before = .inl s)
    (hsize : before.length +
      (if input.length = 0 then 64 else input.length * 4 % 2 ^ 64) < 2 ^ 64) :
    StreamInv E input before s [] := by
  rw [decompressStart] at hstart
  split at hstart
  · cases hstart
  · next engine hinit =>
    simp only [addSize_of_lt hsize] at hstart
    split at hstart
    · cases hstart
    · next buf hbuf =>
      cases hstart
      have hle := le_of_resize hbuf
      refine ⟨.init hinit, rfl, ?content, ?room, hsize, ?fits⟩
      case content =>
        simp only [List.length_nil, Nat.add_zero, List.append_nil]
        rw [take_of_resize hbuf (Nat.le_refl _) (Nat.le_add_right _ _), List.take_length]
      case room =>
        simp only [List.length_nil, Nat.zero_add]
        exact chunk_le _
      case fits =>
        simp only
        omega

/-- A round that finds the stream complete ends the function. -/
theorem StreamInv.last (alloc : ℕ → Bool) (hE : E.Bounded) (hloop : LoopInv E input before.length s)
    (h : StreamInv E input before s emitted)
    (hret : (s.answer E input).ret = .streamEnd) :
    decompressRound E alloc input before.length s =
      .inr (.returned (before ++ (emitted ++ (s.answer E input).produced))) := by
  obtain ⟨-, -, hlength⟩ := h.sizes hloop.nextOut hloop.length_out
  have hroom := h.room
  have hnowrap := h.nowrap
  have hproduced : (s.answer E input).produced.length ≤ s.availOut := produced_le_availOut hE s
  have htotal : addSize before.length (s.advance (s.answer E input)).produced =
      before.length + (emitted ++ (s.answer E input).produced).length := by
    simp only [addSize, InflateLoop.produced, InflateLoop.advance, h.totalOut, List.length_append]
      at *
    omega
  have hshort : before.length + (emitted ++ (s.answer E input).produced).length ≤
      (s.advance (s.answer E input)).out.length := by
    rw [InflateLoop.advance, length_overwrite, hlength, List.length_append]
    omega
  simp only [decompressRound, hret, htotal, resize_of_le hshort, h.content_advance hE hloop]

variable {E : Inflater} {s s' : InflateLoop E.State}

-- ═══════════════════════════════════════════════════════════════════════════
-- Whole streams
-- ═══════════════════════════════════════════════════════════════════════════

/-- Growing the buffer keeps its size in proportion to the whole windows passed;
where less than a window is left, it is as large as what has been put out and this. -/
theorem capacity_grow {cap p : ℕ} (hp : p < 2 ^ 31) (hcap : cap ≤ 2 ^ 34 * 2 ^ (p / kChunkLimit)) :
    cap ≤ 2 ^ 35 ∧ cap * 2 ≤ 2 ^ 34 * 2 ^ ((p + chunk (cap * 2 - p)) / kChunkLimit) := by
  have hpos : 2 ^ 34 ≤ 2 ^ 34 * 2 ^ ((p + chunk (cap * 2 - p)) / kChunkLimit) :=
    Nat.le_mul_of_pos_right _ (Nat.two_pow_pos _)
  have hwindows : p / kChunkLimit ≤ 1 := by
    rw [kChunkLimit]
    omega
  have hpow : 2 ^ (p / kChunkLimit) ≤ 2 ^ 1 := Nat.pow_le_pow_right Nat.two_pos hwindows
  refine ⟨by omega, ?_⟩
  by_cases hmore : kChunkLimit < cap * 2 - p
  · have hnext : (p + chunk (cap * 2 - p)) / kChunkLimit = p / kChunkLimit + 1 := by
      rw [chunk, if_pos hmore]
      exact Nat.add_div_right p (by decide)
    rw [hnext, Nat.pow_succ]
    omega
  · simp only [kChunkLimit] at *
    omega

/-- What a call that goes on puts out belongs to the text. -/
theorem InflateEngine.Opens.within {E : InflateEngine} {e : E.State} {c len room : ℕ}
    (h : E.Opens input text) (hstreams : E.Streams input e c emitted)
    (hret : (E.inflate e ((input.drop c).take len) room).ret.Continues) :
    emitted ++ (E.inflate e ((input.drop c).take len) room).produced <+: text := by
  rcases h.answers hstreams len room with ⟨-, hwithin⟩ | ⟨hend, -⟩
  · exact hwithin
  · rcases hret with hret | hret <;> cases hret.symm.trans hend

/-- What holds at the start of every round when `input` is a whole stream. -/
structure OpenInv (E : Inflater) (input text : Bytes) (s : InflateLoop E.State) : Prop where
  loop : LoopInv E.toInflateEngine input 0 s
  stream : ∃ emitted, StreamInv E.toInflateEngine input [] s emitted ∧ emitted <+: text
  capacity : s.outCap ≤ 2 ^ 34 * 2 ^ ((s.totalOut + s.availOut) / kChunkLimit)
  outCap_pos : 0 < s.outCap

/-- The loop starts with it. -/
theorem OpenInv.start (hstart : decompressStart E.toInflateEngine alloc input [] = .inl s)
    (hinput : input.length < 2 ^ 32) : OpenInv E input text s := by
  have hloop : LoopInv E.toInflateEngine input 0 s := LoopInv.start hstart
  have hstream := StreamInv.start hstart
    (by rw [List.length_nil, Nat.zero_add]; split <;> omega)
  have hcap : s.outCap = if input.length = 0 then 64 else input.length * 4 % 2 ^ 64 := by
    rw [decompressStart] at hstart
    split at hstart
    · cases hstart
    · simp only at hstart
      split at hstart <;> cases hstart
      rfl
  refine ⟨hloop, ⟨[], hstream, List.nil_prefix⟩, ?_, ?_⟩
  · have hpos : 2 ^ 34 ≤ 2 ^ 34 * 2 ^ ((s.totalOut + s.availOut) / kChunkLimit) :=
      Nat.le_mul_of_pos_right _ (Nat.two_pow_pos _)
    rw [hcap]
    split <;> omega
  · rw [hcap]
    split <;> omega

/-- Where the loop stands after the call of a round that goes on. -/
theorem OpenInv.called (h : OpenInv E input text s) (hopens : E.Opens input text)
    (hret : (s.answer E.toInflateEngine input).ret.Continues) :
    (∃ emitted, StreamInv E.toInflateEngine input [] (s.called E.toInflateEngine input) emitted ∧
        emitted <+: text) ∧
      (s.called E.toInflateEngine input).outCap = s.outCap ∧
      (s.called E.toInflateEngine input).outCap ≤ 2 ^ 34 *
        2 ^ (((s.called E.toInflateEngine input).totalOut +
          (s.called E.toInflateEngine input).availOut) / kChunkLimit) := by
  obtain ⟨emitted, hstream, -⟩ := h.stream
  have hproduced : (s.answer E.toInflateEngine input).produced.length ≤ s.availOut :=
    produced_le_availOut E.bounded s
  have hcap : (s.called E.toInflateEngine input).outCap = s.outCap := by
    simp only [InflateLoop.called, InflateLoop.outCap_refill, InflateLoop.advance]
  have hwindow : (s.called E.toInflateEngine input).totalOut +
      (s.called E.toInflateEngine input).availOut = s.totalOut + s.availOut := by
    simp only [InflateLoop.called, InflateLoop.totalOut_refill, InflateLoop.availOut_refill,
      InflateLoop.advance]
    omega
  refine ⟨⟨_, hstream.called E.bounded h.loop hret, ?_⟩, hcap, ?_⟩
  · exact hopens.within hstream.streams hret
  · rw [hcap, hwindow]
    exact h.capacity

/-- The sizes at a growth. -/
theorem OpenInv.grown (h : OpenInv E input text s) (hopens : E.Opens input text)
    (htext : text.length < 2 ^ 31) (hret : (s.answer E.toInflateEngine input).ret.Continues)
    (hzero : (s.called E.toInflateEngine input).availOut = 0) :
    s.outCap * 2 % 2 ^ 64 = s.outCap * 2 ∧ s.outCap ≤ 2 ^ 35 ∧
      s.outCap * 2 ≤ 2 ^ 34 * 2 ^ (((s.called E.toInflateEngine input).totalOut +
        chunk ((s.outCap * 2 % 2 ^ 64 + 2 ^ 64 - (s.called E.toInflateEngine input).produced) %
          2 ^ 64)) / kChunkLimit) := by
  obtain ⟨⟨emitted, hstream, hprefix⟩, hcap, hbound⟩ := h.called hopens hret
  have hshort : (s.called E.toInflateEngine input).totalOut < 2 ^ 31 := by
    rw [hstream.totalOut]
    exact Nat.lt_of_le_of_lt hprefix.length_le htext
  have hroom := hstream.room
  rw [hzero, Nat.add_zero, hcap] at hbound
  rw [← hstream.totalOut, hzero, hcap] at hroom
  obtain ⟨hle, hgrow⟩ := capacity_grow hshort hbound
  have hremain : (s.outCap * 2 % 2 ^ 64 + 2 ^ 64 - (s.called E.toInflateEngine input).produced) %
      2 ^ 64 = s.outCap * 2 - (s.called E.toInflateEngine input).totalOut := by
    rw [InflateLoop.produced]
    omega
  rw [hremain]
  exact ⟨by omega, hle, hgrow⟩

/-- Every round keeps it. -/
theorem OpenInv.step (hopens : E.Opens input text) (htext : text.length < 2 ^ 31)
    (h : OpenInv E input text s)
    (hround : decompressRound E.toInflateEngine alloc input 0 s = .inl s') :
    OpenInv E input text s' := by
  obtain ⟨hret, hnext⟩ := round_eq_inl hround
  obtain ⟨-, hcap, hbound⟩ := h.called hopens hret
  have hpos := h.outCap_pos
  obtain ⟨emitted, hstream, -⟩ := h.stream
  have hstream' := hstream.step E.bounded h.loop hround
  refine ⟨h.loop.step E.bounded hround, ⟨_, hstream', hopens.within hstream.streams hret⟩, ?_, ?_⟩
  all_goals split at hnext
  · next hzero =>
    obtain ⟨hmod, -, hgrow⟩ := h.grown hopens htext hret hzero
    obtain ⟨out, -, rfl⟩ := InflateLoop.grow_eq_inl hnext
    simp only [hcap, hmod]
    rw [hmod] at hgrow
    exact hgrow
  · cases hnext
    exact hbound
  · next hzero =>
    obtain ⟨hmod, -, -⟩ := h.grown hopens htext hret hzero
    obtain ⟨out, -, rfl⟩ := InflateLoop.grow_eq_inl hnext
    simp only [hcap, hmod]
    omega
  · cases hnext
    rw [hcap]
    exact hpos

/-- The loop does not stall: there is room, and something to offer until all of the
stream has been consumed. -/
theorem OpenInv.not_stalled (hopens : E.Opens input text) (h : OpenInv E input text s) :
    ¬ s.Stalled E.toInflateEngine input := by
  rintro ⟨hbuf, hidle, hneeds, hroom⟩
  obtain ⟨emitted, hstream, -⟩ := h.stream
  have hwindow := h.loop.window
  have hpos := h.outCap_pos
  have hoffered : 0 < s.availIn ∨ s.nextIn = input.length := by
    rw [InflateLoop.NeedsInput] at hneeds
    omega
  exact hopens.progress hstream.streams s.availIn s.availOut (by omega) hoffered (.inr hbuf) hidle

/-- The round that ends the loop returns the text. -/
theorem OpenInv.result (hopens : E.Opens input text) (htext : text.length < 2 ^ 31)
    (halloc : ∀ n, alloc n = true) (h : OpenInv E input text s) {r : DecompressExit}
    (hround : decompressRound E.toInflateEngine alloc input 0 s = .inr r) : r = .returned text := by
  obtain ⟨emitted, hstream, -⟩ := h.stream
  rcases hopens.answers hstream.streams s.availIn s.availOut with ⟨hret, -⟩ | ⟨hend, htext⟩
  · rw [round_of_continues hret] at hround
    split at hround
    · next hzero =>
      obtain ⟨hmod, hle, -⟩ := h.grown hopens htext hret hzero
      obtain ⟨-, hcap, -⟩ := h.called hopens hret
      have hsize : addSize 0 (s.outCap * 2 % 2 ^ 64) ≤ kMaxString := by
        rw [addSize, kMaxString]
        omega
      obtain ⟨out, hout⟩ := isSome_resize halloc
        (s.called E.toInflateEngine input).out hsize
      rw [InflateLoop.grow, hcap] at hround
      simp only [hout] at hround
      cases hround
    · cases hround
  · have hlast : decompressRound E.toInflateEngine alloc input 0 s = _ :=
      hstream.last alloc E.bounded h.loop hend
    rw [hround] at hlast
    cases hlast
    exact congrArg _ htext

end Rounds

/-- Decompressing a whole stream gives its text, in as many rounds as it takes. -/
theorem decompress_of_opens {E : Inflater} (halloc : ∀ n, alloc n = true)
    (hinput : input.length < 2 ^ 32) (htext : text.length < 2 ^ 31) (h : E.Opens input text) :
    ∃ n, ∀ fuel, n ≤ fuel →
      decompress E.toInflateEngine alloc input [] fuel = some (.returned text) := by
  obtain ⟨engine, hinit⟩ := h.init
  obtain ⟨s, hstart⟩ : ∃ s, decompressStart E.toInflateEngine alloc input [] = .inl s := by
    have hsize : addSize 0 (if input.length = 0 then 64 else input.length * 4 % 2 ^ 64) ≤
        kMaxString := by
      rw [addSize, kMaxString]
      split <;> omega
    obtain ⟨out, hout⟩ := isSome_resize halloc [] hsize
    simp only [decompressStart, hinit, List.length_nil, hout]
    exact ⟨_, rfl⟩
  have hinv : OpenInv E input text s := OpenInv.start hstart hinput
  have hvisits : ∀ s', Loop.Visits (decompressRound E.toInflateEngine alloc input 0) s s' →
      OpenInv E input text s' := fun s' h' =>
    h'.invariant hinv fun _ _ hs hround => hs.step h htext hround
  obtain ⟨n, r, hrounds⟩ := hinv.loop.terminates_iff.mpr fun s' h' => (hvisits s' h').not_stalled h
  obtain ⟨s', hvisited, hlast⟩ := Loop.exists_visits_of_rounds hrounds
  obtain rfl := (hvisits s' hvisited).result h htext halloc hlast
  refine ⟨n, fun fuel hle => ?_⟩
  simp only [decompress, hstart, List.length_nil, Loop.rounds_of_le hrounds hle]
  rfl

end LoggerHigh
