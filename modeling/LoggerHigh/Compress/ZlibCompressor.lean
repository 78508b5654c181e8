import Mathlib.Data.Int.Notation
import LoggerHigh.Basic
import LoggerHigh.Lib.Loop

/-!
# The decompressor

`ZlibCompressor::Decompress` drives zlib's `inflate` through input and output
windows of at most `kChunkLimit` bytes. The engine is not part of the
repository: it is a parameter with zlib's contract.

## Main definitions

- `InflateEngine`, `Inflater` — zlib's functions, and the contract they meet
- `InflateLoop` — the `z_stream` and the variables of the loop
- `decompressStart`, `decompressRound` — the function up to the loop, and its body
- `decompress` — the function, cut off after a number of rounds
-/

namespace LoggerHigh

/-- What a call of the engine returns; `other` stands for every further code. -/
inductive ZRet
  | ok
  | streamEnd
  | bufError
  | other (code : ℤ)
  deriving DecidableEq, Repr

/-- The effect of one call: the return code, how much of the offered input was
consumed, what was put out. -/
structure ZAnswer (σ : Type) where
  ret : ZRet
  engine : σ
  consumed : ℕ
  produced : Bytes

/-- `inflateInit2` and `inflate`; a call is offered some input and has room for
some output. -/
structure InflateEngine where
  State : Type
  init : Except ℤ State
  inflate : State → Bytes → ℕ → ZAnswer State

/-- The call consumes and produces nothing. -/
def ZAnswer.Idle {σ : Type} (a : ZAnswer σ) : Prop := a.consumed = 0 ∧ a.produced = []

/-- The stream has neither ended nor failed. -/
def ZRet.Continues (r : ZRet) : Prop := r = .ok ∨ r = .bufError

/-- The engine's state after any calls that were offered `input` piece by piece
and did not stop it, with the numbers of bytes consumed and produced. -/
inductive InflateEngine.Fed (E : InflateEngine) (input : Bytes) : E.State → ℕ → ℕ → Prop
  | init {s : E.State} (h : E.init = .ok s) : Fed E input s 0 0
  | call {s : E.State} {c p len room : ℕ} (h : Fed E input s c p) {a : ZAnswer E.State}
      (ha : a = E.inflate s ((input.drop c).take len) room) (hret : a.ret.Continues) :
      Fed E input a.engine (c + a.consumed) (p + a.produced.length)

/-- A call consumes a beginning of what it is offered and stays within its room. -/
structure InflateEngine.Bounded (E : InflateEngine) : Prop where
  consumed_le : ∀ s offered room, (E.inflate s offered room).consumed ≤ offered.length
  produced_le : ∀ s offered room, (E.inflate s offered room).produced.length ≤ room

/-- zlib's contract for `inflate`. -/
structure Inflater extends InflateEngine where
  consumed_le : ∀ s offered room, (inflate s offered room).consumed ≤ offered.length
  produced_le : ∀ s offered room, (inflate s offered room).produced.length ≤ room
  /-- A call that neither ends the stream nor fails makes progress, or it changes
  nothing and returns `Z_BUF_ERROR`. -/
  progress : ∀ s offered room, let a := inflate s offered room
    a.ret.Continues → ¬ a.Idle ∨ a.ret = .bufError ∧ a.engine = s
  finite : ∀ input, ∃ bound, ∀ s c p, toInflateEngine.Fed input s c p → p ≤ bound

theorem Inflater.bounded (E : Inflater) : E.toInflateEngine.Bounded :=
  ⟨E.consumed_le, E.produced_le⟩

/-- `kChunkLimit` -/
def kChunkLimit : ℕ := 2 ^ 30

/-- `(n > kChunkLimit) ? kChunkLimit : static_cast<uInt>(n)` -/
def chunk (n : ℕ) : ℕ := if kChunkLimit < n then kChunkLimit else n

/-- `std::string::max_size()` -/
def kMaxString : ℕ := 2 ^ 63 - 1

/-- What `Decompress` throws. -/
inductive ZlibError
  | zlib (op : List Char) (ret : ℤ)
  | resize
  deriving DecidableEq, Repr

/-- The text of `ThrowZlib`; that of a failed `resize` is the library's own. -/
def ZlibError.what : ZlibError → List Char
  | .zlib op ret =>
    "ZlibCompressor: ".toList ++ op ++ " failed, ret=".toList ++ (toString ret).toList
  | .resize => []

/-- How `Decompress` ends. -/
inductive DecompressExit
  | returned (out : Bytes)
  | threw (e : ZlibError)
  deriving DecidableEq, Repr

/-- `out.resize(n)`; it throws when `n` is over the maximum or the allocator gives
no memory. -/
def resize (alloc : ℕ → Bool) (out : Bytes) (n : ℕ) : Option Bytes :=
  if n ≤ out.length then some (out.take n)
  else if n ≤ kMaxString ∧ alloc n then some (out ++ List.replicate (n - out.length) 0)
  else none

/-- `bytes` written over `out` from `pos` on, as far as they lie within it. -/
def overwrite (out : Bytes) (pos : ℕ) (bytes : Bytes) : Bytes :=
  (out.take pos ++ bytes ++ out.drop (pos + bytes.length)).take out.length

/-- The `z_stream`, with pointers as offsets into `in` and `out`, and the variables
of the loop. `totalOut` counts on where `total_out` wraps. -/
structure InflateLoop (σ : Type) where
  engine : σ
  nextIn : ℕ
  availIn : ℕ
  nextOut : ℕ
  availOut : ℕ
  totalOut : ℕ
  inLeft : ℕ
  outCap : ℕ
  out : Bytes

namespace InflateLoop

variable {σ : Type}

/-- `total_out`, a 64-bit `uLong`. -/
def produced (s : InflateLoop σ) : ℕ := s.totalOut % 2 ^ 64

/-- What a call of `inflate` does to the stream and the output buffer. -/
def advance (s : InflateLoop σ) (a : ZAnswer σ) : InflateLoop σ :=
  { s with
    engine := a.engine
    nextIn := s.nextIn + a.consumed
    availIn := s.availIn - a.consumed
    nextOut := addSize s.nextOut a.produced.length
    availOut := s.availOut - a.produced.length
    totalOut := s.totalOut + a.produced.length
    out := overwrite s.out s.nextOut a.produced }

/-- The input window is empty and there is input left. -/
def NeedsInput (s : InflateLoop σ) : Prop := s.availIn = 0 ∧ 0 < s.inLeft

instance (s : InflateLoop σ) : Decidable s.NeedsInput := inferInstanceAs (Decidable (_ ∧ _))

/-- The next piece of the input. -/
def refill (inSize : ℕ) (s : InflateLoop σ) : InflateLoop σ :=
  if s.NeedsInput then
    { s with
      nextIn := inSize - s.inLeft
      availIn := chunk s.inLeft
      inLeft := s.inLeft - chunk s.inLeft }
  else s

/-- `Grow output buffer by 2x.` -/
def grow (alloc : ℕ → Bool) (writtenBefore : ℕ) (s : InflateLoop σ) :
    InflateLoop σ ⊕ DecompressExit :=
  let outCap := s.outCap * 2 % 2 ^ 64
  match resize alloc s.out (addSize writtenBefore outCap) with
  | none => .inr (.threw .resize)
  | some out => .inl { s with
      out := out
      outCap := outCap
      nextOut := addSize writtenBefore s.produced
      availOut := chunk ((outCap + 2 ^ 64 - s.produced) % 2 ^ 64) }

end InflateLoop

section Decompress

variable (E : InflateEngine) (alloc : ℕ → Bool) (input : Bytes)

/-- The next call of `inflate`. -/
def InflateLoop.answer (s : InflateLoop E.State) : ZAnswer E.State :=
  E.inflate s.engine ((input.drop s.nextIn).take s.availIn) s.availOut

/-- `Decompress` up to its loop. -/
def decompressStart (out : Bytes) : InflateLoop E.State ⊕ DecompressExit :=
  match E.init with
  | .error ret => .inr (.threw (.zlib "inflateInit2".toList ret))
  | .ok engine =>
    let outCap := if input.length = 0 then 64 else input.length * 4 % 2 ^ 64
    match resize alloc out (addSize out.length outCap) with
    | none => .inr (.threw .resize)
    | some buf => .inl {
        engine := engine
        nextIn := 0
        availIn := chunk input.length
        nextOut := addSize out.length 0
        availOut := chunk outCap
        totalOut := 0
        inLeft := input.length - chunk input.length
        outCap := outCap
        out := buf }

/-- The body of the loop, with the end of the function for a complete stream. -/
def decompressRound (writtenBefore : ℕ) (s : InflateLoop E.State) :
    InflateLoop E.State ⊕ DecompressExit :=
  let a := s.answer E input
  let s := s.advance a
  match a.ret with
  | .streamEnd =>
    match resize alloc s.out (addSize writtenBefore s.produced) with
    | none => .inr (.threw .resize)
    | some out => .inr (.returned out)
  | .other ret => .inr (.threw (.zlib "inflate".toList ret))
  | .ok | .bufError =>
    let s := s.refill input.length
    if s.availOut = 0 then s.grow alloc writtenBefore else .inl s

/-- `Decompress`, cut off after `fuel` rounds of its loop. -/
def decompress (out : Bytes) (fuel : ℕ) : Option DecompressExit :=
  match decompressStart E alloc input out with
  | .inr e => some e
  | .inl s => (Loop.rounds (decompressRound E alloc input out.length) fuel s).getRight?

end Decompress

end LoggerHigh
