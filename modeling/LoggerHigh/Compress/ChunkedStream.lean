import LoggerHigh.Compress.CompressLoop

/-!
# Driving the engines in pieces

Whatever the windows are through which `Compress` and `Decompress` drive zlib, the
engine sees the input from left to right, and `out` is what it was, followed by what
the engine has put out. This takes a first size of the buffer that does not wrap, as
it is for every string a machine can hold: where it does wrap,
`out.resize(written_before + out_cap)` makes `out` shorter, and the rest of it is lost.

## Main definitions

- `ZCall` — a call of an engine
- `InOrder` — every call is offered what follows the bytes consumed before
- `decompressCalls`, `compressCalls` — the calls of a run
- `InflateTransparent`, `DeflateTransparent` — the windows do not show

## Main results

- `inflateTransparent_of_fits`, `deflateTransparent_of_fits` — while the first size
  does not wrap
- `transparent_iff_fits` — and only then
- `chunked_transparent` — so for every input below `2 ^ 61` bytes
-/

namespace LoggerHigh

/-- A call of `deflate` or `inflate`: the window it was offered, its `flush` argument,
what it consumed and what it put out. -/
structure ZCall where
  nextIn : ℕ
  availIn : ℕ
  flush : Flush
  consumed : ℕ
  produced : Bytes
  deriving DecidableEq, Repr

/-- The bytes of the input consumed by some calls. -/
def takenBy (input : Bytes) (calls : List ZCall) : Bytes :=
  calls.flatMap fun c => (input.drop c.nextIn).take c.consumed

/-- The bytes put out by some calls. -/
def emittedBy (calls : List ZCall) : Bytes := calls.flatMap ZCall.produced

/-- Every call is offered bytes of the input that follow those consumed before, from
`pos` on, and consumes some of them. -/
def InOrder (inSize : ℕ) : ℕ → List ZCall → Prop
  | _, [] => True
  | pos, c :: calls => c.nextIn = pos ∧ pos + c.availIn ≤ inSize ∧ c.consumed ≤ c.availIn ∧
      InOrder inSize (pos + c.consumed) calls

section Runs

variable (input : Bytes)

/-- The call of a round of `Decompress`. -/
def InflateLoop.call (E : InflateEngine) (s : InflateLoop E.State) : ZCall :=
  ⟨s.nextIn, s.availIn, .noFlush, (s.answer E input).consumed, (s.answer E input).produced⟩

/-- The call of a round of `Compress`. -/
def DeflateLoop.call (E : DeflateEngine) (s : DeflateLoop E.State) : ZCall :=
  ⟨s.nextIn, s.availIn, s.flush, (s.answer E input).consumed, (s.answer E input).produced⟩

/-- The calls of `Decompress`, cut off after `fuel` rounds. -/
def decompressCalls (E : InflateEngine) (alloc : ℕ → Bool) (out : Bytes) (fuel : ℕ) : List ZCall :=
  match decompressStart E alloc input out with
  | .inr _ => []
  | .inl s => (Loop.trace (decompressRound E alloc input out.length) fuel s).map (·.call input E)

/-- The calls of `Compress`, cut off after `fuel` rounds. -/
def compressCalls (E : DeflateEngine) (level : ℕ) (alloc : ℕ → Bool) (out : Bytes) (fuel : ℕ) :
    List ZCall :=
  match compressStart E level alloc input out with
  | .inr _ => []
  | .inl s => (Loop.trace (compressRound E alloc input out.length) fuel s).map (·.call input E)

/-- Whenever `Decompress` returns, what its calls consumed is a beginning of the
input, piece by piece, and `out` is what it was, then what they put out. -/
def InflateTransparent (E : InflateEngine) (before : Bytes) : Prop :=
  ∀ alloc fuel out, decompress E alloc input before fuel = some (.returned out) →
    let calls := decompressCalls input E alloc before fuel
    InOrder input.length 0 calls ∧ takenBy input calls <+: input ∧
      out = before ++ emittedBy calls

/-- Whenever `Compress` returns, what its calls consumed is the input, piece by piece,
they asked to finish only with the last piece offered, and `out` is what it was, then
what they put out. -/
def DeflateTransparent (E : DeflateEngine) (level : ℕ) (before : Bytes) : Prop :=
  ∀ alloc fuel out, compress E level alloc input before fuel = some (.returned out) →
    let calls := compressCalls input E level alloc before fuel
    InOrder input.length 0 calls ∧
      (∀ c ∈ calls, c.flush = .finish → c.nextIn + c.availIn = input.length) ∧
      takenBy input calls = input ∧ out = before ++ emittedBy calls

end Runs

-- ═══════════════════════════════════════════════════════════════════════════
-- Calls in order
-- ═══════════════════════════════════════════════════════════════════════════

variable {input before : Bytes} {calls : List ZCall} {c : ZCall} {n pos : ℕ}

/-- How many bytes some calls consumed. -/
def consumedBy (calls : List ZCall) : ℕ := (calls.map ZCall.consumed).sum

theorem consumedBy_cons : consumedBy (c :: calls) = c.consumed + consumedBy calls := by
  rw [consumedBy, List.map_cons, List.sum_cons]
  rfl

theorem consumedBy_concat : consumedBy (calls ++ [c]) = consumedBy calls + c.consumed := by
  rw [consumedBy, List.map_append, List.sum_append, List.map_singleton, List.sum_singleton]
  rfl

theorem emittedBy_concat : emittedBy (calls ++ [c]) = emittedBy calls ++ c.produced := by
  rw [emittedBy, List.flatMap_append, List.flatMap_singleton]
  rfl

/-- One more call, offered what follows. -/
theorem InOrder.concat (h : InOrder n pos calls) (hnext : c.nextIn = pos + consumedBy calls)
    (hoffered : c.nextIn + c.availIn ≤ n) (hconsumed : c.consumed ≤ c.availIn) :
    InOrder n pos (calls ++ [c]) := by
  induction calls generalizing pos with
  | nil =>
    rw [consumedBy, List.map_nil, List.sum_nil, Nat.add_zero] at hnext
    exact ⟨hnext, hnext ▸ hoffered, hconsumed, trivial⟩
  | cons d calls ih =>
    obtain ⟨hd, hfits, hd', hrest⟩ := h
    refine ⟨hd, hfits, hd', ih hrest ?_⟩
    rw [hnext, consumedBy_cons, Nat.add_assoc]

/-- Calls in order consume one stretch of the input. -/
theorem InOrder.takenBy_eq (h : InOrder input.length pos calls) :
    takenBy input calls = (input.drop pos).take (consumedBy calls) := by
  induction calls generalizing pos with
  | nil => rfl
  | cons c calls ih =>
    obtain ⟨rfl, -, -, hrest⟩ := h
    rw [takenBy, List.flatMap_cons, ← takenBy, ih hrest, consumedBy_cons, List.take_add,
      List.drop_drop]

-- ═══════════════════════════════════════════════════════════════════════════
-- Sizes that do not wrap
-- ═══════════════════════════════════════════════════════════════════════════

section Inflate

variable {E : InflateEngine} {alloc : ℕ → Bool} {s s' : InflateLoop E.State}

/-- What holds at the start of a round after the calls of the `past` ones. -/
structure InflatePast (E : InflateEngine) (input before : Bytes) (past : List (InflateLoop E.State))
    (s : InflateLoop E.State) : Prop where
  loop : LoopInv E input before.length s
  stream : StreamInv E input before s (emittedBy (past.map (·.call input E)))
  inOrder : InOrder input.length 0 (past.map (·.call input E))
  nextIn : s.nextIn = consumedBy (past.map (·.call input E))

/-- The call of the next round is in order too. -/
theorem InflatePast.concat (hE : E.Bounded) {past : List (InflateLoop E.State)}
    (h : InflatePast E input before past s) :
    InOrder input.length 0 ((past ++ [s]).map (·.call input E)) := by
  rw [List.map_append, List.map_singleton]
  have hwindow := h.loop.window
  refine h.inOrder.concat (h.nextIn.trans (Nat.zero_add _).symm) ?_ (consumed_le_availIn hE s)
  simp only [InflateLoop.call]
  omega

/-- Every round keeps it. -/
theorem InflatePast.step (hE : E.Bounded) {past : List (InflateLoop E.State)}
    (h : InflatePast E input before past s)
    (hround : decompressRound E alloc input before.length s = .inl s') :
    InflatePast E input before (past ++ [s]) s' := by
  refine ⟨h.loop.step hE hround, ?stream, h.concat hE, ?nextIn⟩
  case stream =>
    rw [List.map_append, List.map_singleton, emittedBy_concat]
    exact h.stream.step hE h.loop hround
  case nextIn =>
    rw [List.map_append, List.map_singleton, consumedBy_concat, ← h.nextIn]
    exact (h.loop.moves hE hround).1

/-- `Decompress` returns only for a complete stream. -/
theorem streamEnd_of_decompressRound {wb : ℕ} {out : Bytes}
    (h : decompressRound E alloc input wb s = .inr (.returned out)) :
    (s.answer E input).ret = .streamEnd := by
  cases hret : (s.answer E input).ret with
  | streamEnd => rfl
  | other ret =>
    rw [decompressRound, hret] at h
    cases h
  | ok | bufError =>
    rw [round_of_continues (by first | exact .inl hret | exact .inr hret)] at h
    split at h
    · rw [InflateLoop.grow] at h
      split at h <;> cases h
    · cases h

/-- `Decompress` returns from its loop. -/
theorem exists_rounds_of_decompress {fuel : ℕ} {out : Bytes}
    (h : decompress E alloc input before fuel = some (.returned out)) :
    ∃ s, decompressStart E alloc input before = .inl s ∧ s.nextIn = 0 ∧
      Loop.rounds (decompressRound E alloc input before.length) fuel s = .inr (.returned out) := by
  rw [decompress] at h
  split at h
  · next r hstart =>
    cases h
    rw [decompressStart] at hstart
    split at hstart
    · cases hstart
    · simp only at hstart
      split at hstart <;> cases hstart
  · next s hstart =>
    refine ⟨s, hstart, ?_, Sum.getRight?_eq_some_iff.mp h⟩
    rw [decompressStart] at hstart
    split at hstart
    · cases hstart
    · simp only at hstart
      split at hstart <;> cases hstart
      rfl

/-- `Decompress` is transparent while the first size of its buffer does not wrap. -/
theorem inflateTransparent_of_fits (hE : E.Bounded)
    (hsize : before.length +
      (if input.length = 0 then 64 else input.length * 4 % 2 ^ 64) < 2 ^ 64) :
    InflateTransparent input E before := by
  intro alloc fuel out h
  obtain ⟨s, hstart, hnextIn, hrounds⟩ := exists_rounds_of_decompress h
  have hinit : InflatePast E input before [] s :=
    ⟨LoopInv.start hstart, StreamInv.start hstart hsize, trivial, hnextIn⟩
  obtain ⟨rest, last, htrace, hpast, hlast⟩ :=
    Loop.exists_trace_of_rounds hrounds hinit fun _ _ _ hs hround => hs.step hE hround
  rw [List.nil_append] at hpast
  have hinOrder := hpast.concat hE
  simp only [decompressCalls, hstart, htrace]
  refine ⟨hinOrder, ?taken, ?content⟩
  case taken =>
    rw [hinOrder.takenBy_eq]
    exact List.take_prefix _ _
  case content =>
    have hend := hpast.stream.last alloc hE hpast.loop
      (streamEnd_of_decompressRound hlast)
    rw [hlast] at hend
    cases hend
    rw [List.map_append, List.map_singleton, emittedBy_concat]
    rfl

end Inflate

section Deflate

variable {E : DeflateEngine} {level : ℕ} {alloc : ℕ → Bool} {s s' : DeflateLoop E.State}

/-- What holds at the start of a round after the calls of the `past` ones. -/
structure DeflatePast (E : DeflateEngine) (level : ℕ) (input before : Bytes)
    (past : List (DeflateLoop E.State)) (s : DeflateLoop E.State) : Prop where
  inv : DeflateInv E level input before s (emittedBy (past.map (·.call input E)))
  inOrder : InOrder input.length 0 (past.map (·.call input E))
  finishes : ∀ c ∈ past.map (·.call input E), c.flush = .finish →
    c.nextIn + c.availIn = input.length
  nextIn : s.nextIn = consumedBy (past.map (·.call input E))

/-- The call of the next round is in order too, and asks to finish only with the last
piece. -/
theorem DeflatePast.concat (hE : E.Bounded) {past : List (DeflateLoop E.State)}
    (h : DeflatePast E level input before past s) :
    InOrder input.length 0 ((past ++ [s]).map (·.call input E)) ∧
      ∀ c ∈ (past ++ [s]).map (·.call input E), c.flush = .finish →
        c.nextIn + c.availIn = input.length := by
  rw [List.map_append, List.map_singleton]
  have hwindow := h.inv.window
  constructor
  · refine h.inOrder.concat (h.nextIn.trans (Nat.zero_add _).symm) ?_ (DeflateInv.bounds hE s).1
    simp only [DeflateLoop.call]
    omega
  · intro c hc hfinish
    rcases List.mem_append.mp hc with hc | hc
    · exact h.finishes c hc hfinish
    · obtain rfl := List.mem_singleton.mp hc
      have hleft := h.inv.flush.mp hfinish
      simp only [DeflateLoop.call]
      omega

/-- Every round keeps it. -/
theorem DeflatePast.step (hE : E.Bounded) {past : List (DeflateLoop E.State)}
    (h : DeflatePast E level input before past s)
    (hround : compressRound E alloc input before.length s = .inl s') :
    DeflatePast E level input before (past ++ [s]) s' := by
  obtain ⟨hinOrder, hfinishes⟩ := h.concat hE
  refine ⟨?inv, hinOrder, hfinishes, ?nextIn⟩
  case inv =>
    rw [List.map_append, List.map_singleton, emittedBy_concat]
    exact h.inv.step hE hround
  case nextIn =>
    rw [List.map_append, List.map_singleton, consumedBy_concat, ← h.nextIn]
    exact h.inv.nextIn_step hE hround

/-- `Compress` is transparent while the size of its buffer does not wrap. -/
theorem deflateTransparent_of_fits (hE : E.Bounded)
    (hsize : ∀ e, E.init level = .ok e → before.length + E.bound e input.length < 2 ^ 64) :
    DeflateTransparent input E level before := by
  intro alloc fuel out h
  obtain ⟨s, hstart, hnextIn, hrounds⟩ := exists_rounds_of_compress h
  have hinit : DeflatePast E level input before [] s :=
    ⟨DeflateInv.start hstart hsize, trivial, nofun, hnextIn⟩
  obtain ⟨rest, last, htrace, hpast, hlast⟩ :=
    Loop.exists_trace_of_rounds hrounds hinit fun _ _ _ hs hround => hs.step hE hround
  rw [List.nil_append] at hpast
  obtain ⟨hinOrder, hfinishes⟩ := hpast.concat hE
  have hret := streamEnd_of_compressRound hlast
  simp only [compressCalls, hstart, htrace]
  refine ⟨hinOrder, hfinishes, ?taken, ?content⟩
  case taken =>
    -- the call that ended the stream was offered the last piece and consumed it
    obtain ⟨hfinish, hconsumed⟩ := hE.streamEnd _ _ _ _ hret
    have hleft := hpast.inv.flush.mp hfinish
    have hwindow := hpast.inv.window
    have hall : consumedBy ((rest ++ [last]).map (·.call input E)) = input.length := by
      rw [List.map_append, List.map_singleton, consumedBy_concat, ← hpast.nextIn]
      show last.nextIn + (E.deflate _ _ _ _).consumed = _
      rw [hconsumed, List.length_take, List.length_drop]
      omega
    rw [hinOrder.takenBy_eq, hall, List.drop_zero, List.take_length]
  case content =>
    obtain ⟨-, hend⟩ := hpast.inv.last alloc hE hret
    rw [hlast] at hend
    cases hend
    rw [List.map_append, List.map_singleton, emittedBy_concat]
    rfl

end Deflate

-- ═══════════════════════════════════════════════════════════════════════════
-- Sizes that wrap
-- ═══════════════════════════════════════════════════════════════════════════

/-- What a resize has cut off of `before` does not come back. -/
theorem ne_append_of_resize {alloc : ℕ → Bool} {buf bytes out : Bytes}
    (hbuf : buf.length < before.length)
    (h : resize alloc (overwrite buf pos bytes) (before.length + 1) = some out) :
    out ≠ before ++ [1] := by
  obtain ⟨k, hk⟩ : ∃ k, before.length + 1 - buf.length = k + 1 :=
    ⟨before.length - buf.length, by omega⟩
  rw [resize, length_overwrite, hk, if_neg (by omega)] at h
  split at h
  · cases h
    rw [List.replicate_succ', ← List.append_assoc]
    intro heq
    exact absurd (List.append_inj' heq rfl).2 (by decide)
  · cases h

/-- An engine that ends the stream with its first call, and puts out a byte with it. -/
def endsAtOnce : InflateEngine :=
  ⟨Unit, .ok (), fun _ _ room => ⟨.streamEnd, (), 0, List.take room [1]⟩⟩

theorem endsAtOnce_bounded : endsAtOnce.Bounded :=
  ⟨fun _ _ _ => Nat.zero_le _, fun _ _ _ => List.length_take_le _ _⟩

/-- Where the first size wraps, the buffer is shorter than what was in it. -/
theorem start_endsAtOnce (hbefore : before.length < kMaxString)
    (hwrap : 2 ^ 64 ≤
      before.length + (if input.length = 0 then 64 else input.length * 4 % 2 ^ 64)) :
    ∃ s, decompressStart endsAtOnce (fun _ => true) input before = .inl s ∧ s.totalOut = 0 ∧
      s.availOut ≠ 0 ∧ s.out.length < before.length := by
  have hcap : (if input.length = 0 then 64 else input.length * 4 % 2 ^ 64) < 2 ^ 64 := by
    split <;> omega
  rw [kMaxString] at hbefore
  have hshort : addSize before.length
      (if input.length = 0 then 64 else input.length * 4 % 2 ^ 64) < before.length := by
    rw [addSize]
    omega
  simp only [decompressStart, endsAtOnce, resize_of_le (Nat.le_of_lt hshort)]
  refine ⟨_, rfl, rfl, ?room, ?short⟩
  case room =>
    intro hzero
    have := chunk_eq_zero_iff.mp hzero
    omega
  case short =>
    simp only [List.length_take]
    omega

/-- What was cut off is lost. -/
theorem not_inflateTransparent_of_wraps (hbefore : before.length < kMaxString)
    (hwrap : 2 ^ 64 ≤
      before.length + (if input.length = 0 then 64 else input.length * 4 % 2 ^ 64)) :
    ¬ InflateTransparent input endsAtOnce before := by
  obtain ⟨s, hstart, htotal, hroom, hshort⟩ := start_endsAtOnce hbefore hwrap
  have hemitted : (s.answer endsAtOnce input).produced = [1] :=
    List.take_of_length_le (Nat.pos_of_ne_zero hroom)
  obtain ⟨out, hout⟩ := isSome_resize (fun _ => rfl)
    (overwrite s.out s.nextOut [1]) (Nat.succ_le_of_lt hbefore)
  have hsize : addSize before.length (s.advance (s.answer endsAtOnce input)).produced =
      before.length + 1 := by
    rw [kMaxString] at hbefore
    simp only [InflateLoop.produced, InflateLoop.advance, htotal, hemitted, addSize,
      List.length_singleton]
    omega
  have hround : decompressRound endsAtOnce (fun _ => true) input before.length s =
      .inr (.returned out) := by
    simp only [decompressRound, hsize]
    rw [show (s.answer endsAtOnce input).ret = .streamEnd from rfl]
    simp only [InflateLoop.advance, hemitted, hout]
  intro h
  have hreturned : decompress endsAtOnce (fun _ => true) input before 1 = some (.returned out) := by
    simp only [decompress, hstart, Loop.rounds, hround]
    rfl
  obtain ⟨-, -, hcontent⟩ := h _ _ _ hreturned
  have hcalls : emittedBy (decompressCalls input endsAtOnce (fun _ => true) before 1) = [1] := by
    simp only [decompressCalls, hstart, Loop.trace, hround]
    rw [← hemitted]
    exact List.append_nil _
  rw [hcalls] at hcontent
  exact ne_append_of_resize hshort hout hcontent

/-- An engine that consumes everything at once, and puts out one byte as it ends the
stream. -/
def endsWithInput (bound : ℕ) : DeflateEngine where
  State := Unit
  init _ := .ok ()
  bound _ _ := bound
  deflate _ offered room flush :=
    if flush = .finish then ⟨.streamEnd, (), offered.length, List.take room [1]⟩
    else ⟨.ok, (), offered.length, []⟩

theorem endsWithInput_bounded (bound : ℕ) : (endsWithInput bound).Bounded := by
  refine ⟨fun _ offered room flush => ?_, fun _ offered room flush => ?_,
    fun _ offered room flush hend => ?_⟩
  all_goals
    simp only [endsWithInput] at *
    split
  · exact Nat.le_refl _
  · exact Nat.le_refl _
  · exact List.length_take_le _ _
  · exact Nat.zero_le _
  · next hfinish => exact ⟨hfinish, rfl⟩
  · next hgoes =>
    rw [if_neg hgoes] at hend
    cases hend

/-- The buffer is shorter than what was in it, and nothing has been put out. -/
structure Cut (bound : ℕ) (input before : Bytes) (s : DeflateLoop (endsWithInput bound).State) :
    Prop where
  window : s.nextIn + s.availIn + s.inLeft = input.length
  flush : s.flush = .finish ↔ s.inLeft = 0
  totalOut : s.totalOut = 0
  room : s.availOut ≠ 0
  short : s.out.length < before.length

/-- It is so from the start where the size wraps. -/
theorem Cut.start (level : ℕ) {bound : ℕ} (input : Bytes) (hbefore : before.length < kMaxString)
    (hbound : bound < 2 ^ 64) (hwrap : 2 ^ 64 ≤ before.length + bound) :
    ∃ s, compressStart (endsWithInput bound) level (fun _ => true) input before = .inl s ∧
      Cut bound input before s := by
  rw [kMaxString] at hbefore
  have hshort : addSize before.length bound < before.length := by
    rw [addSize]
    omega
  have hchunk := chunk_le input.length
  simp only [compressStart, endsWithInput, resize_of_le (Nat.le_of_lt hshort)]
  refine ⟨_, rfl, ?window, ?flush, rfl, ?room, ?short⟩
  case window =>
    simp only
    omega
  case flush =>
    simp only
    split
    · next hzero => exact iff_of_true rfl hzero
    · next hne => exact iff_of_false (by rintro ⟨⟩) hne
  case room =>
    intro hzero
    have := chunk_eq_zero_iff.mp hzero
    omega
  case short =>
    simp only [List.length_take]
    omega

section Rounds

variable {bound : ℕ} {s : DeflateLoop (endsWithInput bound).State}

/-- Before it is asked to finish, the engine only consumes. -/
theorem Cut.answer_noFlush (h : Cut bound input before s) (hgoes : s.flush ≠ .finish) :
    (s.answer (endsWithInput bound) input).ret = .ok ∧
      (s.answer (endsWithInput bound) input).consumed = s.availIn ∧
      (s.answer (endsWithInput bound) input).produced = [] := by
  have hwindow := h.window
  simp only [DeflateLoop.answer, endsWithInput, if_neg hgoes, List.length_take, List.length_drop]
  exact ⟨trivial, by omega, trivial⟩

/-- Then it ends the stream. -/
theorem Cut.answer_finish (h : Cut bound input before s) (hfinish : s.flush = .finish) :
    (s.answer (endsWithInput bound) input).ret = .streamEnd ∧
      (s.answer (endsWithInput bound) input).produced = [1] := by
  simp only [DeflateLoop.answer, endsWithInput, if_pos hfinish]
  exact ⟨trivial, List.take_of_length_le (Nat.pos_of_ne_zero h.room)⟩

/-- A round that only consumes. -/
theorem Cut.step (h : Cut bound input before s) (hgoes : s.flush ≠ .finish) :
    ∃ s', compressRound (endsWithInput bound) (fun _ => true) input before.length s = .inl s' ∧
      Cut bound input before s' ∧ s'.inLeft < s.inLeft := by
  have hwindow := h.window
  have hleft : 0 < s.inLeft := Nat.pos_of_ne_zero fun hzero => hgoes (h.flush.mpr hzero)
  obtain ⟨hret, hconsumed, hproduced⟩ := h.answer_noFlush hgoes
  have hempty : s.availIn - (s.answer (endsWithInput bound) input).consumed = 0 := by omega
  obtain ⟨-, hmoved, hflush⟩ := DeflateLoop.refillIn_window
    (l := s.advance (s.answer (endsWithInput bound) input)) (n := input.length)
    (by simp only [DeflateLoop.advance]; omega) h.flush
  obtain ⟨-, htotal, hout, -, havailOut, -⟩ := DeflateLoop.refillIn_output
    (l := s.advance (s.answer (endsWithInput bound) input)) (n := input.length)
  have hroom : ((s.advance (s.answer (endsWithInput bound) input)).refillIn
      input.length).availOut ≠ 0 := by
    rw [havailOut, DeflateLoop.advance, hproduced]
    exact h.room
  have hfewer : ((s.advance (s.answer (endsWithInput bound) input)).refillIn
      input.length).inLeft < s.inLeft := by
    have hchunk : chunk s.inLeft ≠ 0 := fun hzero => Nat.ne_of_gt hleft (chunk_eq_zero_iff.mp hzero)
    rw [DeflateLoop.refillIn, if_pos ⟨hempty, hleft⟩]
    show s.inLeft - chunk s.inLeft < s.inLeft
    omega
  have hround : compressRound (endsWithInput bound) (fun _ => true) input before.length s =
      .inl ((s.advance (s.answer (endsWithInput bound) input)).refillIn input.length) := by
    rw [compressRound]
    simp only [hret]
    rw [DeflateLoop.refillOut, if_neg fun hneeds => hroom hneeds.1]
  refine ⟨_, hround, ⟨hmoved, hflush, ?totalOut, hroom, ?short⟩, hfewer⟩
  case totalOut => rw [htotal, DeflateLoop.advance, hproduced, h.totalOut, List.length_nil]
  case short =>
    rw [hout, DeflateLoop.advance, length_overwrite]
    exact h.short

/-- The last round puts out a byte behind what is left. -/
theorem Cut.last (hbefore : before.length < kMaxString) (h : Cut bound input before s)
    (hfinish : s.flush = .finish) :
    ∃ out, compressRound (endsWithInput bound) (fun _ => true) input before.length s =
      .inr (.returned out) ∧ out ≠ before ++ [1] := by
  obtain ⟨hret, hproduced⟩ := h.answer_finish hfinish
  obtain ⟨out, hout⟩ := isSome_resize (fun _ => rfl)
    (overwrite s.out s.nextOut [1]) (Nat.succ_le_of_lt hbefore)
  have hsize : addSize before.length
      ((s.advance (s.answer (endsWithInput bound) input)).totalOut % 2 ^ 64) =
        before.length + 1 := by
    rw [kMaxString] at hbefore
    simp only [DeflateLoop.advance, hproduced, h.totalOut, addSize, List.length_singleton]
    omega
  refine ⟨out, ?_, ne_append_of_resize h.short hout⟩
  rw [compressRound]
  simp only [hret, hsize]
  simp only [DeflateLoop.advance, hproduced, hout]

/-- The loop comes to its last round. -/
theorem Cut.returns {s : DeflateLoop (endsWithInput bound).State}
    (hbefore : before.length < kMaxString) (h : Cut bound input before s) :
    ∃ fuel out, Loop.rounds
        (compressRound (endsWithInput bound) (fun _ => true) input before.length) fuel s =
          .inr (.returned out) ∧ out ≠ before ++ [1] ∧
      emittedBy ((Loop.trace (compressRound (endsWithInput bound) (fun _ => true) input
        before.length) fuel s).map (·.call input (endsWithInput bound))) = [1] := by
  by_cases hfinish : s.flush = .finish
  · obtain ⟨out, hround, hne⟩ := h.last hbefore hfinish
    refine ⟨1, out, ?_, hne, ?_⟩
    · rw [Loop.rounds, hround]
      rfl
    · rw [Loop.trace, hround]
      exact (List.append_nil _).trans (h.answer_finish hfinish).2
  · obtain ⟨s', hround, hcut, hlt⟩ := h.step hfinish
    obtain ⟨fuel, out, hrounds, hne, hemitted⟩ := hcut.returns hbefore
    refine ⟨fuel + 1, out, by rwa [Loop.rounds_succ_of_inl hround], hne, ?_⟩
    rw [Loop.trace, hround]
    exact (congrArg (· ++ _) (h.answer_noFlush hfinish).2.2).trans hemitted
termination_by s.inLeft

end Rounds

/-- What was cut off is lost. -/
theorem not_deflateTransparent_of_wraps {level bound : ℕ} (hbefore : before.length < kMaxString)
    (hbound : bound < 2 ^ 64) (hwrap : 2 ^ 64 ≤ before.length + bound) :
    ¬ DeflateTransparent input (endsWithInput bound) level before := by
  obtain ⟨s, hstart, hcut⟩ := Cut.start level input hbefore hbound hwrap
  obtain ⟨fuel, out, hrounds, hne, hemitted⟩ := hcut.returns hbefore
  intro h
  have hreturned : compress (endsWithInput bound) level (fun _ => true) input before fuel =
      some (.returned out) := by
    simp only [compress, hstart, hrounds]
    rfl
  obtain ⟨-, -, -, hcontent⟩ := h _ _ _ hreturned
  simp only [compressCalls, hstart] at hcontent
  rw [hemitted] at hcontent
  exact hne hcontent

-- ═══════════════════════════════════════════════════════════════════════════
-- Exactly when
-- ═══════════════════════════════════════════════════════════════════════════

/-- Both functions are transparent for every engine exactly while the first size of
the output buffer does not wrap. -/
theorem transparent_iff_fits (level : ℕ) (input before : Bytes)
    (hbefore : before.length < kMaxString) :
    ((∀ E : InflateEngine, E.Bounded → InflateTransparent input E before) ↔
        before.length + (if input.length = 0 then 64 else input.length * 4 % 2 ^ 64) < 2 ^ 64) ∧
      ∀ bound : UInt64,
        (∀ E : DeflateEngine, E.Bounded →
            (∀ e, E.init level = .ok e → E.bound e input.length = bound.toNat) →
            DeflateTransparent input E level before) ↔
          before.length + bound.toNat < 2 ^ 64 := by
  refine ⟨⟨fun h => ?_, fun hsize E hE => inflateTransparent_of_fits hE hsize⟩,
    fun bound => ⟨fun h => ?_, fun hsize E hE hbound => ?_⟩⟩
  · by_contra hwrap
    exact not_inflateTransparent_of_wraps hbefore (Nat.le_of_not_lt hwrap)
      (h endsAtOnce endsAtOnce_bounded)
  · by_contra hwrap
    exact not_deflateTransparent_of_wraps hbefore bound.toNat_lt (Nat.le_of_not_lt hwrap)
      (h (endsWithInput bound.toNat) (endsWithInput_bounded _) fun _ _ => rfl)
  · exact deflateTransparent_of_fits hE fun e he => by rwa [hbound e he]

/-- For every input below `2 ^ 61` bytes, in any number of chunks, and whatever is in
`out`, both functions are transparent for every engine. -/
theorem chunked_transparent (level : ℕ) (input before : Bytes) (hinput : input.length < 2 ^ 61)
    (hbefore : before.length < kMaxString) :
    (∀ E : InflateEngine, E.Bounded → InflateTransparent input E before) ∧
      ∀ E : DeflateEngine, E.Bounded → E.BoundsSize →
        DeflateTransparent input E level before := by
  rw [kMaxString] at hbefore
  refine ⟨fun E hE => inflateTransparent_of_fits hE ?inflate,
    fun E hE hbound => deflateTransparent_of_fits hE fun e _ => ?deflate⟩
  case inflate => split <;> omega
  case deflate =>
    have hsize := hbound e input.length
    omega

/-- Two chunks through `Compress`: the engine has consumed the first before it is asked
to finish with the second. -/
theorem compress_two_chunks (hinput : input.length = 2 ^ 30 + 1) :
    compress (endsWithInput 16) 6 (fun _ => true) input [79, 75] 2 =
        some (.returned [79, 75, 1]) ∧
      (compressCalls input (endsWithInput 16) 6 (fun _ => true) [79, 75] 2).map ZCall.flush =
        [.noFlush, .finish] := by
  constructor
  · simp [compress, compressStart, endsWithInput, resize, addSize, chunk, kChunkLimit, hinput,
      Loop.rounds, compressRound, DeflateLoop.answer, DeflateLoop.advance, DeflateLoop.refillIn,
      DeflateLoop.refillOut, overwrite, kMaxString]
  · simp [compressCalls, compressStart, endsWithInput, resize, addSize, chunk, kChunkLimit, hinput,
      Loop.trace, compressRound, DeflateLoop.answer, DeflateLoop.advance, DeflateLoop.refillIn,
      DeflateLoop.refillOut, DeflateLoop.call, overwrite, kMaxString]

theorem chunked_transparent_two_chunks : ∃ input : Bytes, input.length = 2 ^ 30 + 1 ∧
    compress (endsWithInput 16) 6 (fun _ => true) input [79, 75] 2 =
      some (.returned [79, 75, 1]) ∧
    DeflateTransparent input (endsWithInput 16) 6 [79, 75] ∧
    InflateTransparent input endsAtOnce [79, 75] := by
  have hinput : (List.replicate (2 ^ 30 + 1) (0 : UInt8)).length = 2 ^ 30 + 1 :=
    List.length_replicate
  obtain ⟨hinflate, hdeflate⟩ := chunked_transparent 6 (List.replicate (2 ^ 30 + 1) 0) [79, 75]
    (by rw [hinput]; decide) (by decide)
  have hbound : (endsWithInput 16).BoundsSize := fun _ n => by
    show 16 ≤ 2 * n + 64
    omega
  exact ⟨_, hinput, (compress_two_chunks hinput).1, hdeflate _ (endsWithInput_bounded 16) hbound,
    hinflate _ endsAtOnce_bounded⟩

/-- Sizes below `2 ^ 62` would not do: the four bytes in `out` are lost when it is to take
up four times an input of that size. -/
theorem wrapped_size_loses_out :
    ¬ ∀ (level : ℕ) (input before : Bytes), input.length < 2 ^ 62 → before.length < 2 ^ 62 →
      (∀ E : InflateEngine, E.Bounded → InflateTransparent input E before) ∧
        ∀ E : DeflateEngine, E.Bounded → DeflateTransparent input E level before := by
  intro h
  have hinput : (List.replicate (2 ^ 62 - 1) (0 : UInt8)).length = 2 ^ 62 - 1 :=
    List.length_replicate
  obtain ⟨hinflate, -⟩ := h 6 (List.replicate (2 ^ 62 - 1) 0) [97, 98, 99, 100]
    (by rw [hinput]; decide) (by decide)
  refine not_inflateTransparent_of_wraps (by decide) ?_ (hinflate endsAtOnce endsAtOnce_bounded)
  rw [hinput]
  decide

end LoggerHigh
