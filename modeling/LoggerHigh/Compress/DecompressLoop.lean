import LoggerHigh.Compress.ZlibCompressor

/-!
# When `Decompress` terminates

A round that does not end the loop either moves bytes through the engine, or the
engine answers `Z_BUF_ERROR`. Then the loop offers more input if there is some
left; if there is none and there is room for output, it calls the engine again
with nothing changed.

## Main definitions

- `InflateLoop.Stalled` — the next call will change nothing, and nothing is done about it
- `LoopInv` — what holds at the start of every round

## Main results

- `LoopInv.round_eq_self_iff` — a round that changes nothing is a stalled one
- `LoopInv.lt_of_round` — every other round lowers a measure
- `decompress_terminates_iff` — the function terminates exactly if it never stalls
- `empty_input_never_returns` — on empty input it does
-/

namespace LoggerHigh

variable {E : InflateEngine} {alloc : ℕ → Bool} {input : Bytes} {wb : ℕ}
  {s s' : InflateLoop E.State}

/-- The next call changes nothing, there is no further input to offer, and the
room for output is not what is missing (or can not grow, as twice zero is zero). -/
def InflateLoop.Stalled (E : InflateEngine) (input : Bytes) (s : InflateLoop E.State) : Prop :=
  (s.answer E input).ret = .bufError ∧ (s.answer E input).Idle ∧ ¬ s.NeedsInput ∧
    (s.availOut ≠ 0 ∨ s.outCap = 0)

/-- What holds at the start of every round; `wb` is `written_before`. -/
structure LoopInv (E : InflateEngine) (input : Bytes) (wb : ℕ) (s : InflateLoop E.State) :
    Prop where
  fed : E.Fed input s.engine s.nextIn s.totalOut
  window : s.nextIn + s.availIn + s.inLeft = input.length
  nextOut : s.nextOut = addSize wb s.produced
  length_out : s.out.length = addSize wb s.outCap
  outCap_lt : s.outCap < 2 ^ 64
  /-- No room for output means that the buffer is full. -/
  room : s.availOut = 0 → s.outCap = s.produced

theorem chunk_le (n : ℕ) : chunk n ≤ n := by
  rw [chunk]
  split <;> omega

theorem chunk_eq_zero_iff {n : ℕ} : chunk n = 0 ↔ n = 0 := by
  rw [chunk, kChunkLimit]
  split <;> omega

theorem length_overwrite (out : Bytes) (pos : ℕ) (bytes : Bytes) :
    (overwrite out pos bytes).length = out.length := by
  rw [overwrite, List.length_take, List.length_append, List.length_append, List.length_take,
    List.length_drop]
  omega

theorem overwrite_nil (out : Bytes) (pos : ℕ) : overwrite out pos [] = out := by
  rw [overwrite, List.append_nil, List.length_nil, Nat.add_zero, List.take_append_drop,
    List.take_length]

theorem length_of_resize {out out' : Bytes} {n : ℕ} (h : resize alloc out n = some out') :
    out'.length = n := by
  rw [resize] at h
  split at h
  · next hle =>
    cases h
    rw [List.length_take]
    omega
  · split at h
    · cases h
      rw [List.length_append, List.length_replicate]
      omega
    · cases h

/-- The loop after the call of a round and the refilling of the input window. -/
def InflateLoop.called (E : InflateEngine) (input : Bytes) (s : InflateLoop E.State) :
    InflateLoop E.State :=
  (s.advance (s.answer E input)).refill input.length

/-- A round whose call has neither ended the stream nor failed. -/
theorem round_of_continues (h : (s.answer E input).ret.Continues) :
    decompressRound E alloc input wb s =
      if (s.called E input).availOut = 0 then (s.called E input).grow alloc wb
      else .inl (s.called E input) := by
  rw [decompressRound]
  rcases h with h | h
  all_goals
    rw [h]
    rfl

/-- A round after which the loop goes on. -/
theorem round_eq_inl (h : decompressRound E alloc input wb s = .inl s') :
    (s.answer E input).ret.Continues ∧
      (if (s.called E input).availOut = 0 then (s.called E input).grow alloc wb
        else .inl (s.called E input)) = .inl s' := by
  rw [decompressRound] at h
  cases hret : (s.answer E input).ret with
  | ok =>
    rw [hret] at h
    exact ⟨.inl rfl, h⟩
  | bufError =>
    rw [hret] at h
    exact ⟨.inr rfl, h⟩
  | streamEnd =>
    rw [hret] at h
    simp only at h
    split at h <;> cases h
  | other ret =>
    rw [hret] at h
    cases h

namespace InflateLoop

variable {σ : Type} {l l' : InflateLoop σ} {n : ℕ}

@[simp] theorem engine_refill : (l.refill n).engine = l.engine := by rw [refill]; split <;> rfl
@[simp] theorem nextOut_refill : (l.refill n).nextOut = l.nextOut := by rw [refill]; split <;> rfl
@[simp] theorem availOut_refill : (l.refill n).availOut = l.availOut := by
  rw [refill]; split <;> rfl
@[simp] theorem totalOut_refill : (l.refill n).totalOut = l.totalOut := by
  rw [refill]; split <;> rfl
@[simp] theorem outCap_refill : (l.refill n).outCap = l.outCap := by rw [refill]; split <;> rfl
@[simp] theorem out_refill : (l.refill n).out = l.out := by rw [refill]; split <;> rfl

/-- Refilling moves the window along the input. -/
theorem window_refill (h : l.nextIn + l.availIn + l.inLeft = n) :
    (l.refill n).nextIn = l.nextIn ∧
      (l.refill n).nextIn + (l.refill n).availIn + (l.refill n).inLeft = n := by
  rw [refill]
  split
  · next hneeds =>
    have hempty : l.availIn = 0 := hneeds.1
    have hchunk := chunk_le l.inLeft
    simp only
    omega
  · exact ⟨rfl, h⟩

theorem inLeft_refill_lt (h : l.NeedsInput) : (l.refill n).inLeft < l.inLeft := by
  have hpos : chunk l.inLeft ≠ 0 := fun hzero => Nat.ne_of_gt h.2 (chunk_eq_zero_iff.mp hzero)
  have hle := chunk_le l.inLeft
  rw [refill, if_pos h]
  show l.inLeft - chunk l.inLeft < l.inLeft
  omega

theorem refill_of_not_needsInput (h : ¬ l.NeedsInput) : l.refill n = l := by
  rw [refill, if_neg h]

/-- Twice no capacity is no capacity. -/
theorem eq_of_no_room {pos : ℕ} (hcap : l.outCap = 0) (hpos : pos = l.nextOut)
    (hroom : l.availOut = 0) :
    { l with outCap := 0, nextOut := pos, availOut := 0, out := l.out } = l := by
  obtain ⟨engine, nextIn, availIn, nextOut, availOut, totalOut, inLeft, outCap, out⟩ := l
  subst hcap hpos hroom
  rfl

/-- A successful growth. -/
theorem grow_eq_inl (h : l.grow alloc wb = .inl l') :
    ∃ out, resize alloc l.out (addSize wb (l.outCap * 2 % 2 ^ 64)) = some out ∧ l' =
      { l with
        out := out
        outCap := l.outCap * 2 % 2 ^ 64
        nextOut := addSize wb l.produced
        availOut := chunk ((l.outCap * 2 % 2 ^ 64 + 2 ^ 64 - l.produced) % 2 ^ 64) } := by
  rw [grow] at h
  split at h
  · cases h
  · next out hout =>
    cases h
    exact ⟨out, hout, rfl⟩

end InflateLoop

/-- The window in which the engine consumed something. -/
theorem consumed_le_availIn (hE : E.Bounded) (s : InflateLoop E.State) :
    (s.answer E input).consumed ≤ s.availIn := by
  have hle := hE.consumed_le s.engine ((input.drop s.nextIn).take s.availIn) s.availOut
  rw [List.length_take] at hle
  exact Nat.le_trans hle (Nat.min_le_left _ _)

/-- The state in which the loop goes on, before it looks at the room for output. -/
theorem LoopInv.called (hE : E.Bounded) (h : LoopInv E input wb s)
    (hret : (s.answer E input).ret.Continues) :
    LoopInv E input wb
      { s.called E input with availOut := 1 } := by
  have hconsumed : (s.answer E input).consumed ≤ s.availIn :=
    consumed_le_availIn hE s
  have hwindow := h.window
  have hmoved := InflateLoop.window_refill (l := s.advance (s.answer E input))
    (n := input.length) (by simp only [InflateLoop.advance]; omega)
  refine ⟨?fed, hmoved.2, ?nextOut, ?length_out, ?outCap_lt,
    fun hroom => absurd hroom Nat.one_ne_zero⟩
  case fed =>
    simp only [InflateLoop.called, InflateLoop.engine_refill, InflateLoop.totalOut_refill, hmoved.1]
    exact h.fed.call rfl hret
  case nextOut =>
    simp only [InflateLoop.called, InflateLoop.nextOut_refill, InflateLoop.produced,
      InflateLoop.totalOut_refill, InflateLoop.advance, h.nextOut, addSize]
    omega
  case length_out =>
    simp only [InflateLoop.called, InflateLoop.out_refill, InflateLoop.outCap_refill,
      InflateLoop.advance, length_overwrite]
    exact h.length_out
  case outCap_lt =>
    simp only [InflateLoop.called, InflateLoop.outCap_refill, InflateLoop.advance]
    exact h.outCap_lt

/-- Every round keeps the invariant. -/
theorem LoopInv.step (hE : E.Bounded) (h : LoopInv E input wb s)
    (hround : decompressRound E alloc input wb s = .inl s') :
    LoopInv E input wb s' := by
  obtain ⟨hret, hroom⟩ := round_eq_inl hround
  have hcalled := h.called hE hret
  split at hroom
  · obtain ⟨out, hout, rfl⟩ := InflateLoop.grow_eq_inl hroom
    refine ⟨hcalled.fed, hcalled.window, rfl, length_of_resize hout, Nat.mod_lt _ (by decide),
      fun hzero => ?_⟩
    have hzero := chunk_eq_zero_iff.mp hzero
    simp only [InflateLoop.produced] at hzero ⊢
    omega
  · next hne =>
    cases hroom
    exact ⟨hcalled.fed, hcalled.window, hcalled.nextOut, hcalled.length_out, hcalled.outCap_lt,
      fun hzero => absurd hzero hne⟩

/-- The loop starts with the invariant. -/
theorem LoopInv.start {out : Bytes}
    (hstart : decompressStart E alloc input out = .inl s) :
    LoopInv E input out.length s := by
  rw [decompressStart] at hstart
  split at hstart
  · cases hstart
  · next engine hinit =>
    simp only at hstart
    split at hstart
    · cases hstart
    · next buf hbuf =>
      cases hstart
      have hcap : (if input.length = 0 then 64 else input.length * 4 % 2 ^ 64) < 2 ^ 64 := by
        split
        · decide
        · exact Nat.mod_lt _ (by decide)
      have hchunk := chunk_le input.length
      refine ⟨.init hinit, ?window, rfl, length_of_resize hbuf, hcap, fun hzero => ?room⟩
      case window =>
        simp only
        omega
      case room => exact chunk_eq_zero_iff.mp hzero

/-- What a round does to the bytes that are left. -/
theorem LoopInv.moves (hE : E.Bounded) (h : LoopInv E input wb s)
    (hround : decompressRound E alloc input wb s = .inl s') :
    s'.nextIn = s.nextIn + (s.answer E input).consumed ∧
      s'.totalOut = s.totalOut + (s.answer E input).produced.length ∧
      s'.inLeft = (s.called E input).inLeft := by
  obtain ⟨-, hroom⟩ := round_eq_inl hround
  have hconsumed : (s.answer E input).consumed ≤ s.availIn :=
    consumed_le_availIn hE s
  have hwindow := h.window
  have hnextIn := (InflateLoop.window_refill (l := s.advance (s.answer E input))
    (n := input.length) (by simp only [InflateLoop.advance]; omega)).1
  have htotal : (s.called E input).totalOut =
      s.totalOut + (s.answer E input).produced.length := by
    simp only [InflateLoop.called, InflateLoop.totalOut_refill, InflateLoop.advance]
  split at hroom
  · obtain ⟨out, -, rfl⟩ := InflateLoop.grow_eq_inl hroom
    exact ⟨hnextIn, htotal, rfl⟩
  · cases hroom
    exact ⟨hnextIn, htotal, rfl⟩

variable {E : Inflater}

/-- A call that moves nothing leaves the stream as it was. -/
theorem LoopInv.advance_of_idle {s : InflateLoop E.State}
    (h : LoopInv E.toInflateEngine input wb s)
    (hret : (s.answer E.toInflateEngine input).ret.Continues)
    (hidle : (s.answer E.toInflateEngine input).Idle) :
    (s.answer E.toInflateEngine input).ret = .bufError ∧
      s.advance (s.answer E.toInflateEngine input) = s := by
  obtain ⟨hbuf, hengine⟩ :=
    (E.progress s.engine ((input.drop s.nextIn).take s.availIn) s.availOut hret).resolve_left
      (not_not_intro hidle)
  have hpointer : addSize s.nextOut 0 = s.nextOut := by
    rw [h.nextOut, addSize, addSize, Nat.add_zero, Nat.mod_mod]
  refine ⟨hbuf, ?_⟩
  rw [InflateLoop.advance, hidle.1, hidle.2, overwrite_nil, List.length_nil, hpointer]
  show { s with engine := (s.answer E.toInflateEngine input).engine } = s
  rw [show (s.answer E.toInflateEngine input).engine = s.engine from hengine]

/-- A round that changes nothing is a stalled one. -/
theorem LoopInv.round_eq_self_iff {s : InflateLoop E.State}
    (h : LoopInv E.toInflateEngine input wb s) :
    decompressRound E.toInflateEngine alloc input wb s = .inl s ↔
      s.Stalled E.toInflateEngine input := by
  constructor
  · intro hround
    obtain ⟨hret, hroom⟩ := round_eq_inl hround
    obtain ⟨hnextIn, htotalOut, hinLeft⟩ := h.moves E.bounded hround
    have hidle : (s.answer E.toInflateEngine input).Idle :=
      ⟨by omega, List.eq_nil_of_length_eq_zero (by omega)⟩
    obtain ⟨hbuf, hsame⟩ := h.advance_of_idle hret hidle
    rw [InflateLoop.called, hsame] at hinLeft hroom
    have hneeds : ¬ s.NeedsInput := fun hneeds =>
      Nat.ne_of_gt (InflateLoop.inLeft_refill_lt (n := input.length) hneeds) hinLeft
    refine ⟨hbuf, hidle, hneeds, ?_⟩
    rw [InflateLoop.refill_of_not_needsInput hneeds] at hroom
    split at hroom
    · obtain ⟨out, -, hgrown⟩ := InflateLoop.grow_eq_inl hroom
      have hcap : s.outCap = s.outCap * 2 % 2 ^ 64 := congrArg InflateLoop.outCap hgrown
      have hlt := h.outCap_lt
      exact .inr (by omega)
    · next hne => exact .inl hne
  · rintro ⟨hbuf, hidle, hneeds, hroom⟩
    obtain ⟨-, hsame⟩ := h.advance_of_idle (.inr hbuf) hidle
    rw [decompressRound]
    simp only [hbuf, hsame, InflateLoop.refill_of_not_needsInput hneeds]
    split
    · next hzero =>
      have hcap : s.outCap = 0 := hroom.resolve_left (not_not_intro hzero)
      have hproduced : s.produced = 0 := (h.room hzero).symm.trans hcap
      have hresize : resize alloc s.out (addSize wb 0) = some s.out := by
        rw [← hcap, ← h.length_out, resize, if_pos (Nat.le_refl _), List.take_length]
      have hnext : addSize wb 0 = s.nextOut := by rw [h.nextOut, hproduced]
      rw [InflateLoop.grow, hcap, hproduced, Nat.zero_mul, Nat.zero_mod, hresize]
      exact congrArg Sum.inl (InflateLoop.eq_of_no_room hcap hnext hzero)
    · rfl

/-- The bytes still to be moved, then the input still to be offered, then the lack
of room. -/
def loopMeasure (inSize bound : ℕ) {σ : Type} (s : InflateLoop σ) : ℕ :=
  (inSize - s.nextIn + (bound - s.totalOut)) * (2 * inSize + 2) + 2 * s.inLeft +
    if s.availOut = 0 then 1 else 0

/-- A round that changes something lowers the measure. -/
theorem LoopInv.lt_of_round {s s' : InflateLoop E.State} {bound : ℕ}
    (hbound : ∀ e c p, E.Fed input e c p → p ≤ bound)
    (h : LoopInv E.toInflateEngine input wb s)
    (hround : decompressRound E.toInflateEngine alloc input wb s = .inl s')
    (hne : decompressRound E.toInflateEngine alloc input wb s ≠ .inl s) :
    loopMeasure input.length bound s' < loopMeasure input.length bound s := by
  have hstep := h.step E.bounded hround
  obtain ⟨hnextIn, htotalOut, hinLeft⟩ := h.moves E.bounded hround
  obtain ⟨hret, hroom⟩ := round_eq_inl hround
  have hin : s'.nextIn ≤ input.length := by
    have := hstep.window
    omega
  have hout : s'.totalOut ≤ bound := hbound _ _ _ hstep.fed
  have hleft : s'.inLeft ≤ input.length := by
    have := hstep.window
    omega
  rw [loopMeasure, loopMeasure]
  by_cases hidle : (s.answer E.toInflateEngine input).Idle
  · obtain ⟨hbuf, hsame⟩ := h.advance_of_idle hret hidle
    have hzero : s'.nextIn = s.nextIn ∧ s'.totalOut = s.totalOut := by
      rw [hidle.1] at hnextIn
      rw [hidle.2] at htotalOut
      exact ⟨hnextIn, htotalOut⟩
    rw [hzero.1, hzero.2]
    rw [InflateLoop.called, hsame] at hinLeft hroom
    by_cases hneeds : s.NeedsInput
    · -- the window was empty and is filled again
      have hlt := InflateLoop.inLeft_refill_lt (n := input.length) hneeds
      rw [← hinLeft] at hlt
      split <;> split <;> omega
    · -- the call had no room, and now there is some
      rw [InflateLoop.refill_of_not_needsInput hneeds] at hinLeft hroom
      have hstalled : ¬ s.Stalled E.toInflateEngine input :=
        fun hs => hne (h.round_eq_self_iff.mpr hs)
      have hno : s.availOut = 0 ∧ s.outCap ≠ 0 := by
        by_contra hcon
        exact hstalled ⟨hbuf, hidle, hneeds, by omega⟩
      rw [if_pos hno.1] at hroom ⊢
      obtain ⟨out, -, rfl⟩ := InflateLoop.grow_eq_inl hroom
      have hcap := h.room hno.1
      have hlt := h.outCap_lt
      have hsome : chunk ((s.outCap * 2 % 2 ^ 64 + 2 ^ 64 - s.produced) % 2 ^ 64) ≠ 0 := by
        rw [← hcap]
        intro hzero
        have := chunk_eq_zero_iff.mp hzero
        omega
      rw [if_neg hsome]
      exact Nat.lt_succ_self _
  · -- the engine has moved a byte
    have hmoved : 0 < (s.answer E.toInflateEngine input).consumed +
        (s.answer E.toInflateEngine input).produced.length := by
      by_contra hcon
      exact hidle ⟨by omega, List.eq_nil_of_length_eq_zero (by omega)⟩
    have hfewer : input.length - s'.nextIn + (bound - s'.totalOut) + 1 ≤
        input.length - s.nextIn + (bound - s.totalOut) := by omega
    have hmul := Nat.mul_le_mul_right (2 * input.length + 2) hfewer
    rw [Nat.add_mul, Nat.one_mul] at hmul
    split <;> split <;> omega

/-- The loop terminates exactly if it never comes to a round that finds it stalled. -/
theorem LoopInv.terminates_iff {s : InflateLoop E.State}
    (h : LoopInv E.toInflateEngine input wb s) :
    Loop.Terminates (decompressRound E.toInflateEngine alloc input wb) s ↔
      ∀ s', Loop.Visits (decompressRound E.toInflateEngine alloc input wb) s s' →
        ¬ s'.Stalled E.toInflateEngine input := by
  obtain ⟨bound, hbound⟩ := E.finite input
  rw [Loop.terminates_iff (loopMeasure input.length bound)
    (fun _ _ h hround => h.step E.bounded hround)
    (fun _ _ h hround hne => h.lt_of_round hbound hround hne) h]
  refine forall₂_congr fun s' hvisits => not_congr ?_
  exact (hvisits.invariant h fun _ _ h hround => h.step E.bounded hround).round_eq_self_iff

theorem decompress_eq_some_iff {E : InflateEngine} {out : Bytes} {s : InflateLoop E.State}
    (hstart : decompressStart E alloc input out = .inl s) :
    (∃ fuel result, decompress E alloc input out fuel = some result) ↔
      Loop.Terminates (decompressRound E alloc input out.length) s := by
  simp only [decompress, hstart, Sum.getRight?_eq_some_iff]
  rfl

/-- `Decompress` returns or throws exactly if its loop never comes to a round that
finds it stalled: `inflate` answers `Z_BUF_ERROR` without having moved a byte while
no input is left to offer and there is room for output. -/
theorem decompress_terminates_iff (E : Inflater) (alloc : ℕ → Bool) (input out : Bytes) :
    (∃ fuel result, decompress E.toInflateEngine alloc input out fuel = some result) ↔
      ∀ s₀ s, decompressStart E.toInflateEngine alloc input out = .inl s₀ →
        Loop.Visits (decompressRound E.toInflateEngine alloc input out.length) s₀ s →
          ¬ s.Stalled E.toInflateEngine input := by
  cases hstart : decompressStart E.toInflateEngine alloc input out with
  | inr result =>
    refine iff_of_true ⟨0, result, ?_⟩ fun s₀ s h => by cases h
    rw [decompress, hstart]
  | inl s =>
    rw [decompress_eq_some_iff hstart, (LoopInv.start hstart).terminates_iff]
    constructor
    · rintro h s₀ s' ⟨⟩ hvisits
      exact h s' hvisits
    · exact fun h s' hvisits => h s s' rfl hvisits

-- ═══════════════════════════════════════════════════════════════════════════
-- Empty input
-- ═══════════════════════════════════════════════════════════════════════════

/-- A stream format without compression: the bytes themselves, and a zero at the end. -/
def plainAnswer (offered : Bytes) (room : ℕ) : ZAnswer Unit :=
  match offered with
  | [] => ⟨.bufError, (), 0, []⟩
  | b :: _ =>
    if b = 0 then ⟨.streamEnd, (), 1, []⟩
    else if room = 0 then ⟨.bufError, (), 0, []⟩
    else ⟨.ok, (), 1, [b]⟩

theorem plainAnswer_bounds (offered : Bytes) (room : ℕ) :
    (plainAnswer offered room).consumed ≤ offered.length ∧
      (plainAnswer offered room).produced.length ≤ room ∧
      (plainAnswer offered room).produced.length ≤ (plainAnswer offered room).consumed := by
  rw [plainAnswer.eq_def]
  split
  · exact ⟨Nat.zero_le _, Nat.zero_le _, Nat.zero_le _⟩
  · split
    · exact ⟨Nat.succ_pos _, Nat.zero_le _, Nat.zero_le _⟩
    · split
      · exact ⟨Nat.zero_le _, Nat.zero_le _, Nat.zero_le _⟩
      · next hroom => exact ⟨Nat.succ_pos _, Nat.pos_of_ne_zero hroom, Nat.le_refl _⟩

theorem plainAnswer_progress (offered : Bytes) (room : ℕ)
    (hret : (plainAnswer offered room).ret.Continues) :
    ¬ (plainAnswer offered room).Idle ∨ (plainAnswer offered room).ret = .bufError := by
  cases offered with
  | nil => exact .inr rfl
  | cons b rest =>
    by_cases hb : b = 0
    · rw [plainAnswer, if_pos hb] at hret
      rcases hret with h | h <;> cases h
    · by_cases hroom : room = 0
      · rw [plainAnswer, if_neg hb, if_pos hroom]
        exact .inr rfl
      · rw [plainAnswer, if_neg hb, if_neg hroom]
        exact .inl fun hidle => Nat.one_ne_zero hidle.1

/-- The engine of this format. -/
def plainEngine : InflateEngine := ⟨Unit, .ok (), fun _ => plainAnswer⟩

/-- It puts out no more than it consumes, and consumes no more than there is. -/
theorem plainEngine_fed {input : Bytes} {c p : ℕ} {s : plainEngine.State}
    (h : plainEngine.Fed input s c p) : p ≤ c ∧ c ≤ input.length := by
  induction h with
  | init => exact ⟨Nat.le_refl 0, Nat.zero_le _⟩
  | @call s c p len room _ a ha _ ih =>
    have hbounds := plainAnswer_bounds ((input.drop c).take len) room
    rw [show plainAnswer ((input.drop c).take len) room = a from ha.symm, List.length_take,
      List.length_drop] at hbounds
    omega

/-- It meets the contract. -/
def plainInflater : Inflater where
  toInflateEngine := plainEngine
  consumed_le _ offered room := (plainAnswer_bounds offered room).1
  produced_le _ offered room := (plainAnswer_bounds offered room).2.1
  progress _ offered room hret := (plainAnswer_progress offered room hret).imp id fun h => ⟨h, rfl⟩
  finite input := ⟨input.length, fun _ _ _ h =>
    Nat.le_trans (plainEngine_fed h).1 (plainEngine_fed h).2⟩

/-- On empty input the engine answers `Z_BUF_ERROR` for want of input, the buffer
has room, and the loop calls it again, for ever. -/
theorem empty_input_never_returns :
    ¬ ∀ (E : Inflater) (alloc : ℕ → Bool) (input out : Bytes),
      ∃ fuel result, decompress E.toInflateEngine alloc input out fuel = some result := by
  intro h
  have hterminates : ∃ fuel result,
      decompress plainEngine (fun _ => true) [] [] fuel = some result :=
    h plainInflater (fun _ => true) [] []
  have hstart : decompressStart plainEngine (fun _ => true) [] [] =
      .inl ⟨(), 0, 0, 0, 64, 0, 0, 64, List.replicate 64 0⟩ := by cbv
  rw [decompress_eq_some_iff hstart] at hterminates
  refine Loop.not_terminates_of_fixed ?_ hterminates
  cbv

end LoggerHigh
