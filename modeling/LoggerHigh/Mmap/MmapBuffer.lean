import LoggerHigh.Basic
import LoggerHigh.Lib.LengthPrefix

/-!
# MmapBuffer

`mmap/mmap_buffer.{h,cpp}` and what `MmapRegion::Create` makes of a file. Other
threads can be seen between any two atomic operations of `Write`, `Seal` and
`ResetForReuse`, so these are given as single steps; `ForEachFrame` only reads
and is given frame by frame.

## Main definitions

- `MmapBuffer` — region, `offset_`, `writers_` and `sealed_`
- `WritePc`, `writeStep` — one step of a thread inside `Write`
- `MmapBuffer.frameAt`, `MmapBuffer.forEachFrame` — the scan

## Main results

- `MmapBuffer.frameAt_stored` — the scan finds a frame that lies complete
- `MmapBuffer.forEachFrameFrom_stored` — it finds a whole stream of them
-/

namespace LoggerHigh

open LengthPrefix

/-- A buffer over a mapped region of `size` bytes, a size `ftruncate` can take. -/
structure MmapBuffer where
  data : ByteMemory
  size : ℕ
  offset : ℕ
  writers : ℕ
  sealed : Bool
  size_lt : size < 2 ^ 63

/-- One page is a size a buffer can have. -/
theorem onePage_lt : 4096 < 2 ^ 63 := by decide

/-- `RoundUpToPage`, where `page` is what `GetPageSize` returns. -/
def roundUpToPage (page n : ℕ) : ℕ :=
  if page = 0 then n else addSize n (page - 1) / page * page

/-- The constructor, that is `MmapRegion::Create` on a file with the given
content: it is not truncated but extended with zeros. `none` when it throws
whatever the file: `ftruncate` takes a signed size and `mmap` no empty range. -/
def MmapBuffer.create (page : ℕ) (file : Bytes) (capacityBytes : ℕ) : Option MmapBuffer :=
  let mapped := roundUpToPage page capacityBytes
  if h : capacityBytes ≠ 0 ∧ mapped ≠ 0 ∧ mapped < 2 ^ 63 then some
    { data := fun i => file.getD i 0
      size := mapped
      offset := 0
      writers := 0
      sealed := false
      size_lt := h.2.2 }
  else none

/-- `Used`, which is also the `end` of `ForEachFrame` and the `prev_used` of
`ResetForReuse`. -/
def MmapBuffer.used (b : MmapBuffer) : ℕ := min b.offset b.size

-- ════════════════════════════════════════════════════════════════════════
-- Write
-- ════════════════════════════════════════════════════════════════════════

/-- Where a thread inside `Write` is: before the `writers_` increment, the
`sealed_` load, the `offset_` increment, the header copy, the payload copy or
the `writers_` decrement. `leave` remembers the slot of a call that returns true. -/
inductive WritePc
  | enter
  | check
  | reserve
  | header (old : ℕ)
  | payload (old : ℕ)
  | leave (slot : Option ℕ)
  deriving DecidableEq

/-- A thread inside `Write` goes on, or returns; true with the slot it filled. -/
inductive WriteNext
  | at (pc : WritePc)
  | returned (slot : Option ℕ)
  deriving DecidableEq

/-- One step of `Write(data, len)`. -/
def writeStep (b : MmapBuffer) (data : Bytes) : WritePc → MmapBuffer × WriteNext
  | .enter =>
    if data.length = 0 ∨ 0xFFFFFFFF < data.length then (b, .returned none)
    else ({ b with writers := b.writers + 1 }, .at .check)
  | .check => (b, .at (if b.sealed then .leave none else .reserve))
  | .reserve =>
    let need := addSize 4 data.length
    let old := b.offset
    ({ b with offset := addSize old need },
      .at (if b.size < addSize old need then .leave none else .header old))
  | .header old =>
    ({ b with data := b.data.write old (LittleEndian.encode 4 data.length) }, .at (.payload old))
  | .payload old => ({ b with data := b.data.write (old + 4) data }, .at (.leave (some old)))
  | .leave slot => ({ b with writers := b.writers - 1 }, .returned slot)

/-- `Write` does not change the capacity. -/
theorem size_writeStep (b : MmapBuffer) (p : Bytes) (pc : WritePc) :
    (writeStep b p pc).1.size = b.size := by
  cases pc with
  | enter =>
    simp only [writeStep]
    split <;> rfl
  | _ => rfl

-- ════════════════════════════════════════════════════════════════════════
-- Seal and ResetForReuse
-- ════════════════════════════════════════════════════════════════════════

/-- `sealed_.store(true)`, after which `Seal` waits for `writers_` to be zero. -/
def MmapBuffer.storeSealed (b : MmapBuffer) : MmapBuffer := { b with sealed := true }

/-- `offset_.store(0)`, after `ResetForReuse` has read `prev_used`. -/
def MmapBuffer.storeOffset (b : MmapBuffer) : MmapBuffer := { b with offset := 0 }

/-- `sealed_.store(false)`. -/
def MmapBuffer.storeUnsealed (b : MmapBuffer) : MmapBuffer := { b with sealed := false }

/-- The `memset` of the first `prevUsed` bytes. -/
def MmapBuffer.memset (b : MmapBuffer) (prevUsed : ℕ) : MmapBuffer :=
  { b with data := b.data.clear prevUsed }

-- ════════════════════════════════════════════════════════════════════════
-- ForEachFrame
-- ════════════════════════════════════════════════════════════════════════

/-- The payload the loop of `ForEachFrame` hands out at `pos`, `none` when it stops there. -/
def MmapBuffer.frameAt (b : MmapBuffer) (endPos pos : ℕ) : Option Bytes :=
  if pos + 4 ≤ endPos then
    let len := LittleEndian.decode (b.data.slice pos 4)
    if len = 0 ∨ endPos < pos + 4 + len then none
    else some (b.data.slice (pos + 4) len)
  else none

/-- A payload that is handed out is not empty and lies before `endPos`. -/
theorem MmapBuffer.frameAt_bounds {b : MmapBuffer} {endPos pos : ℕ} {p : Bytes}
    (h : b.frameAt endPos pos = some p) : 0 < p.length ∧ pos + (4 + p.length) ≤ endPos := by
  simp only [frameAt] at h
  split at h
  · split at h
    · cases h
    · next hstop =>
      cases h
      rw [ByteMemory.length_slice]
      omega
  · cases h

/-- The loop of `ForEachFrame` from `pos` on: the payloads it hands out. -/
def MmapBuffer.forEachFrameFrom (b : MmapBuffer) (endPos pos : ℕ) : List Bytes :=
  match h : b.frameAt endPos pos with
  | none => []
  | some p => p :: b.forEachFrameFrom endPos (pos + (4 + p.length))
termination_by endPos - pos
decreasing_by
  have := MmapBuffer.frameAt_bounds h
  omega

/-- `ForEachFrame`. -/
def MmapBuffer.forEachFrame (b : MmapBuffer) : List Bytes := b.forEachFrameFrom b.used 0

theorem MmapBuffer.forEachFrameFrom_of_none {b : MmapBuffer} {endPos pos : ℕ}
    (h : b.frameAt endPos pos = none) : b.forEachFrameFrom endPos pos = [] := by
  rw [forEachFrameFrom]
  split
  · rfl
  · next heq =>
    rw [h] at heq
    cases heq

theorem MmapBuffer.forEachFrameFrom_of_some {b : MmapBuffer} {endPos pos : ℕ} {p : Bytes}
    (h : b.frameAt endPos pos = some p) :
    b.forEachFrameFrom endPos pos = p :: b.forEachFrameFrom endPos (pos + (4 + p.length)) := by
  rw [forEachFrameFrom]
  split
  · next heq =>
    rw [h] at heq
    cases heq
  · next heq =>
    rw [h] at heq
    cases heq
    rfl

/-- The payload lengths `Write` accepts. -/
def FrameLength (p : Bytes) : Prop := 0 < p.length ∧ p.length ≤ 0xFFFFFFFF

instance (p : Bytes) : Decidable (FrameLength p) := inferInstanceAs (Decidable (_ ∧ _))

/-- The scan finds a frame that lies complete before its end. -/
theorem MmapBuffer.frameAt_stored {b : MmapBuffer} {endPos pos : ℕ} {p : Bytes}
    (hlen : FrameLength p) (hstored : Stored b.data pos p) (hend : pos + (4 + p.length) ≤ endPos) :
    b.frameAt endPos pos = some p := by
  have hlt : p.length < 256 ^ 4 := by
    have := hlen.2
    omega
  have hpos : 0 < p.length := hlen.1
  simp only [frameAt]
  rw [if_pos (by omega), hstored.1, LittleEndian.decode_encode hlt, if_neg (by omega), hstored.2]

/-- What the scan finds is a frame that lies there, whoever has put it there. -/
theorem MmapBuffer.stored_of_frameAt {b : MmapBuffer} {endPos pos : ℕ} {p : Bytes}
    (h : b.frameAt endPos pos = some p) : FrameLength p ∧ Stored b.data pos p := by
  have hpos := (frameAt_bounds h).1
  simp only [frameAt] at h
  split at h
  · split at h
    · cases h
    · cases h
      have hheader := LittleEndian.encode_decode (b.data.slice pos 4)
      have hlt := LittleEndian.decode_lt (b.data.slice pos 4)
      rw [ByteMemory.length_slice] at hheader hlt hpos
      rw [FrameLength, Stored, ByteMemory.length_slice]
      exact ⟨⟨hpos, by omega⟩, hheader.symm, rfl⟩
  · cases h

/-- The scan finds a stream of complete frames and goes on behind it. -/
theorem MmapBuffer.forEachFrameFrom_stored {b : MmapBuffer} {endPos pos : ℕ} {ps : List Bytes}
    (hlen : ∀ p ∈ ps, FrameLength p) (hstored : ∀ x ∈ layoutFrom pos ps, Stored b.data x.1 x.2)
    (hend : pos + span ps ≤ endPos) :
    b.forEachFrameFrom endPos pos = ps ++ b.forEachFrameFrom endPos (pos + span ps) := by
  induction ps generalizing pos with
  | nil => rfl
  | cons p ps ih =>
    rw [span_cons] at hend
    have hp : b.frameAt endPos pos = some p :=
      frameAt_stored (hlen p List.mem_cons_self) (hstored _ List.mem_cons_self) (by omega)
    have hps := ih (fun q hq => hlen q (List.mem_cons_of_mem p hq))
      (fun x hx => hstored x (List.mem_cons_of_mem _ hx)) (by omega)
    rw [forEachFrameFrom_of_some hp, hps, List.cons_append, span_cons, Nat.add_assoc pos]

end LoggerHigh
