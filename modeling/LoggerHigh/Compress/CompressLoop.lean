import LoggerHigh.Compress.InflateStream

/-!
# The compressor

`ZlibCompressor::Compress` drives zlib's `deflate` through windows of input and
output like `Decompress`, but the output buffer has its final size from the start:
`deflateBound` says how much there can be. zlib's functions are a parameter.

## Main definitions

- `ZlibCompressor`, `ZlibCompressor.create` — the constructor and its check
- `DeflateEngine`, `Deflater` — zlib's functions, and the contract they meet
- `DeflateLoop`, `compressStart`, `compressRound`, `compress` — the function
- `DeflateEngine.Deflates` — what the calls for one text can put out

## Main results

- `DeflateInv.step` — every round keeps what `out` holds
- `deflates_of_compress` — what `Compress` appends has been put out for its input
-/

namespace LoggerHigh

/-- The `flush` argument of `deflate`. -/
inductive Flush
  | noFlush
  | finish
  deriving DecidableEq, Repr

/-- `deflateInit2` at a level, `deflateBound` and `deflate`. -/
structure DeflateEngine where
  State : Type
  init : (level : ℕ) → Except ℤ State
  bound : State → ℕ → ℕ
  deflate : State → Bytes → ℕ → Flush → ZAnswer State

/-- The engine's state after any calls that were offered `input` piece by piece, all
that is left of it where they ask to finish, and did not stop it, with the number of
bytes consumed and the bytes put out. -/
inductive DeflateEngine.Streams (E : DeflateEngine) (level : ℕ) (input : Bytes) :
    E.State → ℕ → Bytes → Prop
  | init {s : E.State} (h : E.init level = .ok s) : Streams E level input s 0 []
  | call {s : E.State} {c len room : ℕ} {flush : Flush} {emitted : Bytes}
      (h : Streams E level input s c emitted) (hflush : flush = .finish → c + len = input.length)
      {a : ZAnswer E.State} (ha : a = E.deflate s ((input.drop c).take len) room flush)
      (hret : a.ret.Continues) :
      Streams E level input a.engine (c + a.consumed) (emitted ++ a.produced)

/-- `output` is what the calls for the whole of `input` have put out when the last one
ends the stream. -/
def DeflateEngine.Deflates (E : DeflateEngine) (level : ℕ) (input output : Bytes) : Prop :=
  ∃ s c emitted len room, E.Streams level input s c emitted ∧ c + len = input.length ∧
    let a := E.deflate s ((input.drop c).take len) room .finish
    a.ret = .streamEnd ∧ a.consumed = len ∧ output = emitted ++ a.produced

/-- A call consumes a beginning of what it is offered and stays within its room; the
stream ends only when this is asked for and all input has been consumed. -/
structure DeflateEngine.Bounded (E : DeflateEngine) : Prop where
  consumed_le : ∀ s offered room flush, (E.deflate s offered room flush).consumed ≤ offered.length
  produced_le : ∀ s offered room flush, (E.deflate s offered room flush).produced.length ≤ room
  streamEnd : ∀ s offered room flush, (E.deflate s offered room flush).ret = .streamEnd →
    flush = .finish ∧ (E.deflate s offered room flush).consumed = offered.length

/-- `deflateBound` asks for no more than twice the source and room for headers. -/
def DeflateEngine.BoundsSize (E : DeflateEngine) : Prop := ∀ e n, E.bound e n ≤ 2 * n + 64

/-- zlib's contract for `deflate`. -/
structure Deflater extends DeflateEngine where
  consumed_le : ∀ s offered room flush, (deflate s offered room flush).consumed ≤ offered.length
  produced_le : ∀ s offered room flush,
    (deflate s offered room flush).produced.length ≤ room
  /-- The stream ends only when this is asked for and all input has been consumed. -/
  streamEnd : ∀ s offered room flush, let a := deflate s offered room flush
    a.ret = .streamEnd → flush = .finish ∧ a.consumed = offered.length
  bound_lt : ∀ s n, bound s n < 2 ^ 64

theorem Deflater.bounded (E : Deflater) : E.toDeflateEngine.Bounded :=
  ⟨E.consumed_le, E.produced_le, E.streamEnd⟩

/-- `ZlibCompressor` -/
structure ZlibCompressor where
  level : ℕ
  level_pos : 1 ≤ level
  level_le : level ≤ 9

/-- The constructor. -/
def ZlibCompressor.create (level : ℤ) : Except String ZlibCompressor :=
  if h : level < 1 ∨ 9 < level then .error "ZlibCompressor: level out of range (1..9)"
  else .ok ⟨level.toNat, by omega, by omega⟩

/-- How `Compress` ends: it throws like `Decompress`. -/
abbrev CompressExit := DecompressExit

/-- The `z_stream`, with pointers as offsets into `in` and `out`, and the variables
of the loop. `totalOut` counts on where `total_out` wraps. -/
structure DeflateLoop (σ : Type) where
  engine : σ
  nextIn : ℕ
  availIn : ℕ
  nextOut : ℕ
  availOut : ℕ
  totalOut : ℕ
  inLeft : ℕ
  outLeft : ℕ
  flush : Flush
  out : Bytes

namespace DeflateLoop

variable {σ : Type}

/-- What a call of `deflate` does to the stream and the output buffer. -/
def advance (s : DeflateLoop σ) (a : ZAnswer σ) : DeflateLoop σ :=
  { s with
    engine := a.engine
    nextIn := s.nextIn + a.consumed
    availIn := s.availIn - a.consumed
    nextOut := addSize s.nextOut a.produced.length
    availOut := s.availOut - a.produced.length
    totalOut := s.totalOut + a.produced.length
    out := overwrite s.out s.nextOut a.produced }

/-- The next piece of the input; with the last one the loop asks to finish. -/
def refillIn (inSize : ℕ) (s : DeflateLoop σ) : DeflateLoop σ :=
  if s.availIn = 0 ∧ 0 < s.inLeft then
    { s with
      nextIn := inSize - s.inLeft
      availIn := chunk s.inLeft
      inLeft := s.inLeft - chunk s.inLeft
      flush := if s.inLeft - chunk s.inLeft = 0 then .finish else s.flush }
  else s

/-- The next piece of the output buffer. -/
def refillOut (s : DeflateLoop σ) : DeflateLoop σ :=
  if s.availOut = 0 ∧ 0 < s.outLeft then
    { s with
      nextOut := s.out.length - s.outLeft
      availOut := chunk s.outLeft
      outLeft := s.outLeft - chunk s.outLeft }
  else s

end DeflateLoop

section Compress

variable (E : DeflateEngine) (level : ℕ) (alloc : ℕ → Bool) (input : Bytes)

/-- The next call of `deflate`. -/
def DeflateLoop.answer (s : DeflateLoop E.State) : ZAnswer E.State :=
  E.deflate s.engine ((input.drop s.nextIn).take s.availIn) s.availOut s.flush

/-- `Compress` up to its loop. -/
def compressStart (out : Bytes) : DeflateLoop E.State ⊕ CompressExit :=
  match E.init level with
  | .error ret => .inr (.threw (.zlib "deflateInit2".toList ret))
  | .ok engine =>
    let bound := E.bound engine input.length
    match resize alloc out (addSize out.length bound) with
    | none => .inr (.threw .resize)
    | some buf => .inl {
        engine := engine
        nextIn := 0
        availIn := chunk input.length
        nextOut := out.length
        availOut := chunk bound
        totalOut := 0
        inLeft := input.length - chunk input.length
        outLeft := bound - chunk bound
        flush := if input.length - chunk input.length = 0 then .finish else .noFlush
        out := buf }

/-- The body of the loop, with the end of the function for a complete stream. -/
def compressRound (writtenBefore : ℕ) (s : DeflateLoop E.State) :
    DeflateLoop E.State ⊕ CompressExit :=
  let a := s.answer E input
  let s := s.advance a
  match a.ret with
  | .streamEnd =>
    match resize alloc s.out (addSize writtenBefore (s.totalOut % 2 ^ 64)) with
    | none => .inr (.threw .resize)
    | some out => .inr (.returned out)
  | .other ret => .inr (.threw (.zlib "deflate".toList ret))
  | .ok | .bufError => .inl (s.refillIn input.length).refillOut

/-- `Compress`, cut off after `fuel` rounds of its loop. -/
def compress (out : Bytes) (fuel : ℕ) : Option CompressExit :=
  match compressStart E level alloc input out with
  | .inr e => some e
  | .inl s => (Loop.rounds (compressRound E alloc input out.length) fuel s).getRight?

end Compress

-- ═══════════════════════════════════════════════════════════════════════════
-- What `out` holds
-- ═══════════════════════════════════════════════════════════════════════════

variable {alloc : ℕ → Bool} {level : ℕ} {input before emitted : Bytes}

/-- What holds at the start of every round, where `before` was in `out` and
`emitted` has been put out. -/
structure DeflateInv (E : DeflateEngine) (level : ℕ) (input before : Bytes)
    (s : DeflateLoop E.State) (emitted : Bytes) : Prop where
  streams : E.Streams level input s.engine s.nextIn emitted
  window : s.nextIn + s.availIn + s.inLeft = input.length
  flush : s.flush = .finish ↔ s.inLeft = 0
  totalOut : s.totalOut = emitted.length
  content : s.out.take (before.length + emitted.length) = before ++ emitted
  nextOut : s.nextOut = before.length + emitted.length
  room : before.length + emitted.length + s.availOut + s.outLeft = s.out.length
  nowrap : s.out.length < 2 ^ 64

namespace DeflateLoop

variable {σ : Type} {l : DeflateLoop σ} {n : ℕ}

/-- Refilling the input moves its window, and asks to finish with the last piece. -/
theorem refillIn_window (h : l.nextIn + l.availIn + l.inLeft = n)
    (hflush : l.flush = .finish ↔ l.inLeft = 0) :
    (l.refillIn n).nextIn = l.nextIn ∧
      (l.refillIn n).nextIn + (l.refillIn n).availIn + (l.refillIn n).inLeft = n ∧
      ((l.refillIn n).flush = .finish ↔ (l.refillIn n).inLeft = 0) := by
  rw [refillIn]
  split
  · next hneeds =>
    obtain ⟨hempty, hleft⟩ := hneeds
    have hchunk := chunk_le l.inLeft
    have hgoes : l.flush ≠ .finish := fun hfinish => by
      have := hflush.mp hfinish
      omega
    refine ⟨by simp only; omega, by simp only; omega, ?_⟩
    simp only
    split
    · next hzero => exact iff_of_true rfl hzero
    · next hne => exact iff_of_false hgoes hne
  · exact ⟨rfl, h, hflush⟩

/-- Refilling the input leaves the output alone. -/
theorem refillIn_output : (l.refillIn n).engine = l.engine ∧ (l.refillIn n).totalOut = l.totalOut ∧
    (l.refillIn n).out = l.out ∧ (l.refillIn n).nextOut = l.nextOut ∧
    (l.refillIn n).availOut = l.availOut ∧ (l.refillIn n).outLeft = l.outLeft := by
  rw [refillIn]
  split <;> exact ⟨rfl, rfl, rfl, rfl, rfl, rfl⟩

/-- Refilling the output leaves the input and what has been put out alone. -/
theorem refillOut_input : l.refillOut.engine = l.engine ∧ l.refillOut.nextIn = l.nextIn ∧
    l.refillOut.availIn = l.availIn ∧ l.refillOut.inLeft = l.inLeft ∧
    l.refillOut.flush = l.flush ∧ l.refillOut.totalOut = l.totalOut ∧
    l.refillOut.out = l.out := by
  rw [refillOut]
  split <;> exact ⟨rfl, rfl, rfl, rfl, rfl, rfl, rfl⟩

/-- The window of the output goes on where it ended. -/
theorem refillOut_window {pos : ℕ} (hnext : l.nextOut = pos)
    (hroom : pos + l.availOut + l.outLeft = l.out.length) :
    l.refillOut.nextOut = pos ∧
      pos + l.refillOut.availOut + l.refillOut.outLeft = l.out.length := by
  rw [refillOut]
  split
  · next hneeds =>
    have hchunk := chunk_le l.outLeft
    simp only
    omega
  · exact ⟨hnext, hroom⟩

end DeflateLoop

variable {E : DeflateEngine} {s s' : DeflateLoop E.State}

/-- A round after which the loop goes on. -/
theorem compressRound_eq_inl {wb : ℕ}
    (h : compressRound E alloc input wb s = .inl s') :
    (s.answer E input).ret.Continues ∧
      s' = ((s.advance (s.answer E input)).refillIn input.length).refillOut := by
  rw [compressRound] at h
  cases hret : (s.answer E input).ret with
  | ok =>
    rw [hret] at h
    exact ⟨.inl rfl, (Sum.inl.inj h).symm⟩
  | bufError =>
    rw [hret] at h
    exact ⟨.inr rfl, (Sum.inl.inj h).symm⟩
  | streamEnd =>
    rw [hret] at h
    simp only at h
    split at h <;> cases h
  | other ret =>
    rw [hret] at h
    cases h

/-- The bounds of the call of a round. -/
theorem DeflateInv.bounds (hE : E.Bounded) (s : DeflateLoop E.State) :
    (s.answer E input).consumed ≤ s.availIn ∧
      (s.answer E input).produced.length ≤ s.availOut := by
  have hconsumed :=
    hE.consumed_le s.engine ((input.drop s.nextIn).take s.availIn) s.availOut s.flush
  rw [List.length_take] at hconsumed
  exact ⟨Nat.le_trans hconsumed (Nat.min_le_left _ _), hE.produced_le _ _ _ _⟩

/-- After the call of a round its output follows what was put out before. -/
theorem DeflateInv.content_advance (hE : E.Bounded)
    (h : DeflateInv E level input before s emitted) :
    (s.advance (s.answer E input)).out.take
        (before.length + (emitted ++ (s.answer E input).produced).length) =
      before ++ (emitted ++ (s.answer E input).produced) := by
  have hroom := h.room
  have hnext := h.nextOut
  have hproduced : (s.answer E input).produced.length ≤ s.availOut := (DeflateInv.bounds hE s).2
  rw [DeflateLoop.advance, List.length_append, ← Nat.add_assoc, ← hnext,
    take_overwrite (by omega), hnext, h.content, List.append_assoc]

/-- Every round keeps the invariant. -/
theorem DeflateInv.step (hE : E.Bounded) (h : DeflateInv E level input before s emitted)
    (hround : compressRound E alloc input before.length s = .inl s') :
    DeflateInv E level input before s'
      (emitted ++ (s.answer E input).produced) := by
  obtain ⟨hret, rfl⟩ := compressRound_eq_inl hround
  obtain ⟨hconsumed, hproduced⟩ : (s.answer E input).consumed ≤ s.availIn ∧
      (s.answer E input).produced.length ≤ s.availOut := DeflateInv.bounds hE s
  have hwindow := h.window
  have hroom := h.room
  have hnowrap := h.nowrap
  have hplace : (s.advance (s.answer E input)).nextOut =
      before.length + (emitted ++ (s.answer E input).produced).length := by
    simp only [DeflateLoop.advance, h.nextOut, List.length_append, addSize]
    omega
  have hspace : before.length + (emitted ++ (s.answer E input).produced).length +
      (s.advance (s.answer E input)).availOut +
      (s.advance (s.answer E input)).outLeft =
        (s.advance (s.answer E input)).out.length := by
    simp only [DeflateLoop.advance, length_overwrite, List.length_append]
    omega
  obtain ⟨hnextIn, hmoved, hflush⟩ := DeflateLoop.refillIn_window
    (l := s.advance (s.answer E input)) (n := input.length)
    (by simp only [DeflateLoop.advance]; omega) h.flush
  obtain ⟨hengine, htotal, hout, hnextOut, havailOut, houtLeft⟩ := DeflateLoop.refillIn_output
    (l := s.advance (s.answer E input)) (n := input.length)
  obtain ⟨hengine', hnextIn', havailIn', hinLeft', hflush', htotal', hout'⟩ :=
    DeflateLoop.refillOut_input
      (l := (s.advance (s.answer E input)).refillIn input.length)
  obtain ⟨hpos, hrest⟩ := DeflateLoop.refillOut_window
    (l := (s.advance (s.answer E input)).refillIn input.length) (hnextOut.trans hplace)
    (by rw [havailOut, houtLeft, hout, hspace])
  refine ⟨?streams, ?window, ?flush, ?totalOut, ?content, hpos, ?room, ?nowrap⟩
  case streams =>
    rw [hengine', hengine, hnextIn', hnextIn]
    refine h.streams.call (fun hfinish => ?_) rfl hret
    have := h.flush.mp hfinish
    omega
  case window => rw [hnextIn', havailIn', hinLeft', hmoved]
  case flush => rw [hflush', hinLeft', hflush]
  case totalOut => rw [htotal', htotal, DeflateLoop.advance, h.totalOut, List.length_append]
  case content =>
    rw [hout', hout]
    exact h.content_advance hE
  case room =>
    rw [hrest, hout']
  case nowrap =>
    rw [hout', hout, DeflateLoop.advance, length_overwrite]
    exact h.nowrap

/-- The loop starts with the invariant, unless the size of the buffer wraps. -/
theorem DeflateInv.start
    (hstart : compressStart E level alloc input before = .inl s)
    (hsize : ∀ e, E.init level = .ok e → before.length + E.bound e input.length < 2 ^ 64) :
    DeflateInv E level input before s [] := by
  rw [compressStart] at hstart
  split at hstart
  · cases hstart
  · next engine hinit =>
    simp only [addSize_of_lt (hsize engine hinit)] at hstart
    split at hstart
    · cases hstart
    · next buf hbuf =>
      cases hstart
      have hnowrap := hsize engine hinit
      have hlength := length_of_resize hbuf
      have hin := chunk_le input.length
      have hout := chunk_le (E.bound engine input.length)
      refine ⟨.init hinit, ?window, ?flush, rfl, ?content, rfl, ?room, ?nowrap⟩
      case window =>
        simp only
        omega
      case flush =>
        simp only
        split
        · next hzero => exact iff_of_true rfl hzero
        · next hne => exact iff_of_false (by rintro ⟨⟩) hne
      case content =>
        simp only [List.length_nil, Nat.add_zero, List.append_nil]
        rw [take_of_resize hbuf (Nat.le_refl _) (Nat.le_add_right _ _), List.take_length]
      case room =>
        simp only [List.length_nil]
        omega
      case nowrap =>
        simp only
        omega

/-- A round that finds the stream complete returns what has been put out, and all of
the input has been consumed. -/
theorem DeflateInv.last (alloc : ℕ → Bool) (hE : E.Bounded)
    (h : DeflateInv E level input before s emitted)
    (hret : (s.answer E input).ret = .streamEnd) :
    E.Deflates level input (emitted ++ (s.answer E input).produced) ∧
      compressRound E alloc input before.length s =
        .inr (.returned (before ++ (emitted ++ (s.answer E input).produced))) := by
  have hroom := h.room
  have hwindow := h.window
  have hnowrap := h.nowrap
  have hproduced : (s.answer E input).produced.length ≤ s.availOut := (DeflateInv.bounds hE s).2
  obtain ⟨hfinish, hconsumed⟩ := hE.streamEnd _ _ _ _ hret
  have hleft := h.flush.mp hfinish
  refine ⟨⟨s.engine, s.nextIn, emitted, s.availIn, s.availOut, h.streams, by omega, ?_⟩, ?_⟩
  · rw [← hfinish]
    refine ⟨hret, ?_, rfl⟩
    rw [hconsumed, List.length_take, List.length_drop]
    omega
  · have htotal : addSize before.length
        ((s.advance (s.answer E input)).totalOut % 2 ^ 64) =
          before.length + (emitted ++ (s.answer E input).produced).length := by
      simp only [addSize, DeflateLoop.advance, h.totalOut, List.length_append] at *
      omega
    have hshort : before.length + (emitted ++ (s.answer E input).produced).length ≤
        (s.advance (s.answer E input)).out.length := by
      rw [DeflateLoop.advance, length_overwrite, List.length_append]
      omega
    simp only [compressRound, hret, htotal, resize_of_le hshort, h.content_advance hE]

/-- What a round consumes moves the input window on. -/
theorem DeflateInv.nextIn_step (hE : E.Bounded) (h : DeflateInv E level input before s emitted)
    (hround : compressRound E alloc input before.length s = .inl s') :
    s'.nextIn = s.nextIn + (s.answer E input).consumed := by
  obtain ⟨-, rfl⟩ := compressRound_eq_inl hround
  have hconsumed : (s.answer E input).consumed ≤ s.availIn := (DeflateInv.bounds hE s).1
  have hwindow := h.window
  have hmoved := (DeflateLoop.refillIn_window (l := s.advance (s.answer E input))
    (n := input.length) (by simp only [DeflateLoop.advance]; omega) h.flush).1
  exact DeflateLoop.refillOut_input.2.1.trans hmoved

/-- `Compress` returns only for a complete stream. -/
theorem streamEnd_of_compressRound {wb : ℕ} {out : Bytes}
    (h : compressRound E alloc input wb s = .inr (.returned out)) :
    (s.answer E input).ret = .streamEnd := by
  cases hret : (s.answer E input).ret with
  | streamEnd => rfl
  | ok | bufError | other ret =>
    rw [compressRound, hret] at h
    cases h

/-- `Compress` returns from its loop. -/
theorem exists_rounds_of_compress {fuel : ℕ} {out : Bytes}
    (h : compress E level alloc input before fuel = some (.returned out)) :
    ∃ s, compressStart E level alloc input before = .inl s ∧ s.nextIn = 0 ∧
      Loop.rounds (compressRound E alloc input before.length) fuel s = .inr (.returned out) := by
  rw [compress] at h
  split at h
  · next r hstart =>
    cases h
    rw [compressStart] at hstart
    split at hstart
    · cases hstart
    · simp only at hstart
      split at hstart <;> cases hstart
  · next s hstart =>
    refine ⟨s, hstart, ?_, Sum.getRight?_eq_some_iff.mp h⟩
    rw [compressStart] at hstart
    split at hstart
    · cases hstart
    · simp only at hstart
      split at hstart <;> cases hstart
      rfl

/-- What `Compress` returns for an empty `out` has been put out for its input. -/
theorem deflates_of_compress {E : Deflater} {fuel : ℕ} {output : Bytes}
    (h : compress E.toDeflateEngine level alloc input [] fuel = some (.returned output)) :
    E.Deflates level input output := by
  obtain ⟨s, hstart, -, hrounds⟩ := exists_rounds_of_compress h
  have hinit := DeflateInv.start hstart fun e _ => by
    rw [List.length_nil, Nat.zero_add]
    exact E.bound_lt _ _
  obtain ⟨s', hvisits, hlast⟩ := Loop.exists_visits_of_rounds hrounds
  obtain ⟨emitted, hinv⟩ := hvisits.invariant
    (I := fun s => ∃ emitted, DeflateInv E.toDeflateEngine level input [] s emitted) ⟨[], hinit⟩
    fun _ _ ⟨_, hs⟩ hround => ⟨_, hs.step E.bounded hround⟩
  obtain ⟨hdeflates, hreturned⟩ :=
    hinv.last alloc E.bounded (streamEnd_of_compressRound hlast)
  rw [hlast] at hreturned
  cases hreturned
  exact hdeflates

end LoggerHigh
