import LoggerHigh.Lib.ThreadSum
import LoggerHigh.Mmap.MmapBuffer

/-!
# One cycle of a buffer under concurrent writers

Between two resets of its offset a buffer hands out slots: every successful
`offset_.fetch_add` reserves the bytes right behind the slot before it. This
file has the invariant that ties region, offset, `writers_` and `sealed_` to
the threads inside `Write`, and shows that no step of a writer or of the owner
breaks it.

## Main definitions

- `BufferPhase` — how far the owner is with `Seal` and `ResetForReuse`
- `CycleInv` — the invariant; `slots` are the payloads reserved in this cycle
- `WriteOk` — what a writer's step must respect
- `Clean` — bytes that no scan takes for a frame

## Main results

- `CycleInv.writeStep` — every step of a writer
- `CycleInv.storeSealed`, `.drained_of_writers_eq_zero`, `.loadPrevUsed`,
  `.storeOffset`, `.storeUnsealed`, `.memset` — every step of the owner
- `CycleInv.forEachFrame_eq` — a scan of a drained buffer finds the slots in order
-/

namespace LoggerHigh

open LengthPrefix ThreadSum

/-- How far the owner of a buffer is: outside `Seal` and `ResetForReuse`, in
the wait loop of `Seal`, past it, or in `ResetForReuse` past the load of
`prev_used`, the store to `offset_` or the store to `sealed_`. -/
inductive BufferPhase
  | writable
  | sealing
  | drained
  | resetOffset (prevUsed : ℕ)
  | resetUnseal (prevUsed : ℕ)
  | resetZero (prevUsed : ℕ)
  deriving DecidableEq

/-- `sealed_` in this phase. -/
def BufferPhase.isSealed : BufferPhase → Bool
  | .writable | .resetZero _ => false
  | _ => true

/-- `Seal` has seen `writers_ == 0` and `sealed_` has not been cleared since. -/
def BufferPhase.isQuiet : BufferPhase → Bool
  | .drained | .resetOffset _ | .resetUnseal _ => true
  | _ => false

/-- The `memset` still to come clears this many bytes of the current cycle. -/
def BufferPhase.pending : BufferPhase → ℕ
  | .resetUnseal prevUsed | .resetZero prevUsed => prevUsed
  | _ => 0

/-- A thread inside `Write` on this buffer, with its payload. -/
abbrev Writer := Option (Bytes × WritePc)

/-- The slot a thread has reserved and not yet given back to its caller. -/
def WritePc.slot? : WritePc → Option ℕ
  | .header old | .payload old => some old
  | .leave slot => slot
  | _ => none

/-- What a writer contributes to `writers_`. -/
def Writer.counted : Writer → ℕ
  | none | some (_, .enter) => 0
  | some _ => 1

/-- Where a writer stands after a step. -/
def WriteNext.writer (p : Bytes) : WriteNext → Writer
  | .at pc => some (p, pc)
  | .returned _ => none

/-- What a step of a writer must respect: a `fetch_add` does not carry
`offset_` past `2 ^ 64`, and no header is copied to bytes that a `memset` is
about to clear. -/
def WriteOk (phase : BufferPhase) (b : MmapBuffer) (p : Bytes) : WritePc → Prop
  | .reserve => b.offset + (4 + p.length) < 2 ^ 64
  | .header old => phase.pending ≤ old
  | _ => True

instance (phase : BufferPhase) (b : MmapBuffer) (p : Bytes) :
    (pc : WritePc) → Decidable (WriteOk phase b p pc)
  | .reserve => inferInstanceAs (Decidable (_ < _))
  | .header _ => inferInstanceAs (Decidable (_ ≤ _))
  | .enter | .check | .payload _ | .leave _ => isTrue trivial

/-- The `fetch_add` of a writer with payload `p` finds room. -/
def MmapBuffer.HasRoom (b : MmapBuffer) (p : Bytes) : Prop :=
  ¬ b.size < addSize b.offset (addSize 4 p.length)

instance (b : MmapBuffer) (p : Bytes) : Decidable (b.HasRoom p) :=
  inferInstanceAs (Decidable (¬ _))

/-- The slots of the cycle after a writer's step. -/
def slotsAfter (b : MmapBuffer) (p : Bytes) (pc : WritePc) (slots : List Bytes) : List Bytes :=
  if pc = .reserve ∧ b.HasRoom p then slots ++ [p] else slots

/-- How `offset_`, `writers_` and `sealed_`, the threads inside `Write` and the
slots of the cycle belong together. -/
structure SlotInv {T : Type*} [Fintype T] (phase : BufferPhase) (b : MmapBuffer)
    (w : T → Writer) (slots : List Bytes) : Prop where
  sealed_eq : b.sealed = phase.isSealed
  writers_eq : b.writers = total Writer.counted w
  quiet : phase.isQuiet = true → ∀ t p pc, w t = some (p, pc) →
    pc = .enter ∨ pc = .check ∨ pc = .leave none
  writer_length : ∀ t p pc, w t = some (p, pc) → pc ≠ .enter → FrameLength p
  slot_length : ∀ p ∈ slots, FrameLength p
  span_le : span slots ≤ b.size
  offset_eq : b.offset = span slots ∨
    (b.size < b.offset ∧ b.size < span slots + (4 + 0xFFFFFFFF))
  prevUsed_eq : ∀ prevUsed, phase = .resetOffset prevUsed → prevUsed = b.used
  holds : ∀ t p pc old, w t = some (p, pc) → pc.slot? = some old → (old, p) ∈ layoutFrom 0 slots
  holds_unique : ∀ t t' p p' pc pc' old, w t = some (p, pc) → w t' = some (p', pc') →
    pc.slot? = some old → pc'.slot? = some old → t = t'

/-- The invariant of a cycle: in addition, what the region holds. Bytes behind
the last slot that no `memset` will clear any more are those of `rest`. -/
structure CycleInv {T : Type*} [Fintype T] (phase : BufferPhase) (b : MmapBuffer)
    (w : T → Writer) (slots : List Bytes) (rest : ByteMemory) : Prop
    extends SlotInv phase b w slots where
  header : ∀ old p, (old, p) ∈ layoutFrom 0 slots → (∃ t, w t = some (p, .header old)) ∨
    (phase.pending ≤ old ∧ b.data.slice old 4 = LittleEndian.encode 4 p.length)
  payload : ∀ old p, (old, p) ∈ layoutFrom 0 slots →
    (∃ t, w t = some (p, .header old) ∨ w t = some (p, .payload old)) ∨
      b.data.slice (old + 4) p.length = p
  tail : ∀ i, span slots ≤ i → phase.pending ≤ i → i < b.size → b.data i = rest i

-- ════════════════════════════════════════════════════════════════════════
-- Bytes behind the last slot
-- ════════════════════════════════════════════════════════════════════════

/-- The four bytes at `pos` do not look like the header of a frame. -/
def NoFrameAt (rest : ByteMemory) (size pos : ℕ) : Prop :=
  LittleEndian.decode (rest.slice pos 4) = 0 ∨
    size < pos + 4 + LittleEndian.decode (rest.slice pos 4)

/-- However many leading bytes earlier cycles have cleared, and wherever the
slots of a cycle end with a `fetch_add` overrunning the region behind them, the
bytes left there do not look like a frame. No slot is shorter than 5 bytes. -/
def Clean (size : ℕ) (rest : ByteMemory) : Prop :=
  ∀ cleared pos, (cleared = 0 ∨ 5 ≤ cleared) → (pos = 0 ∨ 5 ≤ pos) → pos + 4 ≤ size →
    size < pos + (4 + 0xFFFFFFFF) → NoFrameAt (rest.clear cleared) size pos

theorem NoFrameAt.of_zero {rest : ByteMemory} {size pos : ℕ}
    (h : ∀ i, pos ≤ i → i < pos + 4 → rest i = 0) : NoFrameAt rest size pos :=
  .inl (LittleEndian.decode_eq_zero (ByteMemory.forall_mem_slice_eq_zero h))

/-- Zero-filled regions are clean. -/
theorem Clean.of_zero {rest : ByteMemory} {size : ℕ} (h : ∀ i, i < size → rest i = 0) :
    Clean size rest := by
  intro cleared pos _ _ hpos _
  refine .of_zero fun i _ hhi => ?_
  by_cases hi : i < cleared
  · exact rest.clear_of_lt hi
  · rw [rest.clear_of_le (Nat.le_of_not_lt hi)]
    exact h i (by omega)

/-- Clean regions stay clean when a reset clears what a cycle has used. -/
theorem Clean.clear {rest : ByteMemory} {size used : ℕ} (h : Clean size rest)
    (hused : used = 0 ∨ 5 ≤ used ∨ size ≤ used) : Clean size (rest.clear used) := by
  intro cleared pos hcleared hpos hend hover
  rw [ByteMemory.clear_clear]
  by_cases hall : size ≤ used
  · exact .of_zero fun i _ hhi => ByteMemory.clear_of_lt _ (by omega)
  · exact h _ pos (by omega) hpos hend hover

section Writers

variable {T : Type*} [Fintype T] {phase : BufferPhase} {b : MmapBuffer} {w : T → Writer}
  {slots : List Bytes} {rest : ByteMemory}

-- ════════════════════════════════════════════════════════════════════════
-- What the invariant says
-- ════════════════════════════════════════════════════════════════════════

/-- A slot whose writer is past both copies lies complete in the region. -/
theorem CycleInv.stored (h : CycleInv phase b w slots rest) {old : ℕ} {p : Bytes}
    (hmem : (old, p) ∈ layoutFrom 0 slots)
    (hdone : ∀ t, w t ≠ some (p, .header old) ∧ w t ≠ some (p, .payload old)) :
    Stored b.data old p := by
  constructor
  · rcases h.header old p hmem with ⟨t, ht⟩ | ⟨-, hslice⟩
    · exact absurd ht (hdone t).1
    · exact hslice
  · rcases h.payload old p hmem with ⟨t, ht | ht⟩ | hslice
    · exact absurd ht (hdone t).1
    · exact absurd ht (hdone t).2
    · exact hslice

/-- Once `Seal` has returned, every slot lies complete in the region. -/
theorem CycleInv.stored_of_quiet (h : CycleInv phase b w slots rest)
    (hquiet : phase.isQuiet = true) {x : ℕ × Bytes} (hmem : x ∈ layoutFrom 0 slots) :
    Stored b.data x.1 x.2 := by
  refine h.stored hmem fun t => ⟨fun ht => ?_, fun ht => ?_⟩
  · rcases h.quiet hquiet t _ _ ht with hpc | hpc | hpc <;> cases hpc
  · rcases h.quiet hquiet t _ _ ht with hpc | hpc | hpc <;> cases hpc

theorem CycleInv.span_le_used (h : CycleInv phase b w slots rest) : span slots ≤ b.used := by
  have hle := h.span_le
  rcases h.offset_eq with heq | ⟨hlt, -⟩
  · rw [MmapBuffer.used, heq]
    omega
  · rw [MmapBuffer.used]
    omega

/-- A scan of a drained buffer hands out the slots, and then goes on behind
the last of them. -/
theorem CycleInv.forEachFrame_eq_append (h : CycleInv phase b w slots rest)
    (hquiet : phase.isQuiet = true) :
    b.forEachFrame = slots ++ b.forEachFrameFrom b.used (span slots) := by
  have hend : 0 + span slots ≤ b.used := by
    rw [Nat.zero_add]
    exact h.span_le_used
  have hscan := MmapBuffer.forEachFrameFrom_stored h.slot_length
    (fun x hx => h.stored_of_quiet hquiet hx) hend
  rw [Nat.zero_add] at hscan
  exact hscan

theorem CycleInv.span_eq (h : CycleInv phase b w slots rest) :
    span slots = 0 ∨ 5 ≤ span slots := by
  cases hslots : slots with
  | nil => exact .inl rfl
  | cons p ps =>
    have := (h.slot_length p (by rw [hslots]; exact List.mem_cons_self)).1
    rw [span_cons]
    omega

/-- What `ResetForReuse` will read as `prev_used`. -/
theorem CycleInv.used_eq (h : CycleInv phase b w slots rest) :
    b.used = 0 ∨ 5 ≤ b.used ∨ b.size ≤ b.used := by
  have hspan := h.span_eq
  have hle := h.span_le_used
  rcases h.offset_eq with heq | ⟨hlt, -⟩
  · have : b.used ≤ span slots := by
      rw [MmapBuffer.used, heq]
      exact Nat.min_le_left _ _
    omega
  · exact .inr (.inr (Nat.le_min.mpr ⟨Nat.le_of_lt hlt, Nat.le_refl _⟩))

/-- Behind the last slot the scan stops. -/
theorem CycleInv.frameAt_span_eq_none (h : CycleInv phase b w slots rest)
    (hpending : phase.pending = 0) (hclean : Clean b.size rest) :
    b.frameAt b.used (span slots) = none := by
  rw [MmapBuffer.frameAt]
  by_cases hend : span slots + 4 ≤ b.used
  · rw [if_pos hend]
    have hover : b.size < b.offset ∧ b.size < span slots + (4 + 0xFFFFFFFF) := by
      rcases h.offset_eq with heq | hover
      · rw [MmapBuffer.used, heq] at hend
        omega
      · exact hover
    have hused : b.used = b.size := Nat.min_eq_right (Nat.le_of_lt hover.1)
    rw [hused] at hend
    have hslice : b.data.slice (span slots) 4 = rest.slice (span slots) 4 :=
      ByteMemory.slice_congr fun i hlo hhi => h.tail i hlo (by omega) (by omega)
    have hstop := hclean 0 (span slots) (.inl rfl) h.span_eq hend hover.2
    rw [NoFrameAt, ByteMemory.clear_zero] at hstop
    simp only [hslice, hused]
    exact if_pos hstop
  · rw [if_neg hend]

/-- A frame that the scan finds behind the last slot can be counted as a slot. -/
theorem CycleInv.adopt (h : CycleInv phase b w slots rest) (hpending : phase.pending = 0)
    {p : Bytes} (hframe : b.frameAt b.used (span slots) = some p) :
    CycleInv phase b w (slots ++ [p]) rest := by
  obtain ⟨hlen, hstored⟩ := MmapBuffer.stored_of_frameAt hframe
  have hend := (MmapBuffer.frameAt_bounds hframe).2
  have hused : b.used ≤ b.size := Nat.min_le_right _ _
  have hspan : span (slots ++ [p]) = span slots + (4 + p.length) := by
    rw [span_append, span_cons, span_nil, Nat.add_zero]
  have hcases : ∀ {x : ℕ × Bytes}, x ∈ layoutFrom 0 (slots ++ [p]) →
      x ∈ layoutFrom 0 slots ∨ x = (span slots, p) := by
    intro x hx
    rw [layoutFrom_append_singleton, Nat.zero_add, List.mem_append, List.mem_singleton] at hx
    exact hx
  refine ⟨⟨h.sealed_eq, h.writers_eq, h.quiet, h.writer_length, ?_, ?_, ?_, h.prevUsed_eq, ?_,
    h.holds_unique⟩, ?_, ?_, ?_⟩
  · intro q hq
    rcases List.mem_append.mp hq with hq | hq
    · exact h.slot_length q hq
    · obtain rfl := List.mem_singleton.mp hq
      exact hlen
  · omega
  · -- with `offset_` at the end of the slots there is nothing behind them to find
    rcases h.offset_eq with heq | hover
    · have : b.used ≤ b.offset := Nat.min_le_left _ _
      omega
    · exact .inr (by omega)
  · intro t q pc old hw hslot
    exact mem_layoutFrom_append_left (h.holds t q pc old hw hslot)
  · intro old q hmem
    rcases hcases hmem with hmem | heq
    · exact h.header old q hmem
    · cases heq
      exact .inr ⟨by omega, hstored.1⟩
  · intro old q hmem
    rcases hcases hmem with hmem | heq
    · exact h.payload old q hmem
    · cases heq
      exact .inr hstored.2
  · intro i hlo hhi
    exact h.tail i (by omega) hhi

/-- A buffer in which a scan finds nothing, while nobody is inside `Write`, has no slots. -/
theorem CycleInv.eq_nil_of_forEachFrame (h : CycleInv phase b w slots rest)
    (hnobody : ∀ t, w t = none) (hempty : b.forEachFrame = []) : slots = [] := by
  cases hslots : slots with
  | nil => rfl
  | cons p ps =>
    subst hslots
    have hmem : (0, p) ∈ layoutFrom 0 (p :: ps) := List.mem_cons_self
    have hstored : Stored b.data 0 p := by
      refine h.stored hmem fun t => ?_
      rw [hnobody t]
      exact ⟨by rintro ⟨⟩, by rintro ⟨⟩⟩
    have hspan := h.span_le_used
    rw [span_cons] at hspan
    have hframe : b.frameAt b.used 0 = some p :=
      MmapBuffer.frameAt_stored (h.slot_length p List.mem_cons_self) hstored (by omega)
    rw [MmapBuffer.forEachFrame, MmapBuffer.forEachFrameFrom_of_some hframe] at hempty
    cases hempty

/-- Over clean bytes the scan of a drained buffer finds the slots and nothing else. -/
theorem CycleInv.forEachFrame_eq (h : CycleInv phase b w slots rest)
    (hphase : phase = .drained) (hclean : Clean b.size rest) : b.forEachFrame = slots := by
  subst hphase
  have hnone := h.frameAt_span_eq_none rfl hclean
  rw [h.forEachFrame_eq_append rfl, MmapBuffer.forEachFrameFrom_of_none hnone, List.append_nil]

-- ════════════════════════════════════════════════════════════════════════
-- Steps of a writer
-- ════════════════════════════════════════════════════════════════════════

variable [DecidableEq T]

/-- A step that holds no slot afterwards and copies nothing, such as a step
into `Write`, the `sealed_` load, or the return. -/
theorem CycleInv.move (h : CycleInv phase b w slots rest) {t : T} {x : Writer} {n : ℕ}
    (hn : n + (w t).counted = b.writers + x.counted)
    (hcopy : ∀ p old, w t ≠ some (p, .header old) ∧ w t ≠ some (p, .payload old))
    (hquiet : phase.isQuiet = true → ∀ p pc, x = some (p, pc) →
      pc = .enter ∨ pc = .check ∨ pc = .leave none)
    (hlen : ∀ p pc, x = some (p, pc) → pc ≠ .enter → FrameLength p)
    (hslot : ∀ p pc, x = some (p, pc) → pc.slot? = none) :
    CycleInv phase { b with writers := n } (Function.update w t x) slots rest := by
  have hold : ∀ {u p old}, w u = some (p, .header old) ∨ w u = some (p, .payload old) →
      Function.update w t x u = w u := by
    intro u p old hu
    refine Function.update_of_ne ?_ _ _
    rintro rfl
    exact hu.elim (hcopy p old).1 (hcopy p old).2
  refine ⟨⟨?_, ?_, ?_, ?_, ?_, ?_, ?_, ?_, ?_, ?_⟩, ?_, ?_, ?_⟩
  · exact h.sealed_eq
  · change n = total Writer.counted (Function.update w t x)
    have := total_update Writer.counted w t x
    have := h.writers_eq
    omega
  · intro hq u p pc hu
    rcases update_cases hu with ⟨-, hx⟩ | ⟨-, hw⟩
    · exact hquiet hq p pc hx
    · exact h.quiet hq u p pc hw
  · intro u p pc hu hpc
    rcases update_cases hu with ⟨-, hx⟩ | ⟨-, hw⟩
    · exact hlen p pc hx hpc
    · exact h.writer_length u p pc hw hpc
  · exact h.slot_length
  · exact h.span_le
  · exact h.offset_eq
  · exact h.prevUsed_eq
  · intro u p pc old hu hold
    rcases update_cases hu with ⟨-, hx⟩ | ⟨-, hw⟩
    · rw [hslot p pc hx] at hold
      cases hold
    · exact h.holds u p pc old hw hold
  · intro u u' p p' pc pc' old hu hu' hpc hpc'
    rcases update_cases hu with ⟨-, hx⟩ | ⟨-, hw⟩
    · rw [hslot p pc hx] at hpc
      cases hpc
    · rcases update_cases hu' with ⟨-, hx'⟩ | ⟨-, hw'⟩
      · rw [hslot p' pc' hx'] at hpc'
        cases hpc'
      · exact h.holds_unique u u' p p' pc pc' old hw hw' hpc hpc'
  · intro old p hmem
    rcases h.header old p hmem with ⟨u, hu⟩ | hslice
    · exact .inl ⟨u, (hold (.inl hu)).trans hu⟩
    · exact .inr hslice
  · intro old p hmem
    rcases h.payload old p hmem with ⟨u, hu⟩ | hslice
    · exact .inl ⟨u, (hold hu) ▸ hu⟩
    · exact .inr hslice
  · exact h.tail

omit [DecidableEq T] in
/-- A `fetch_add` that finds no room only moves `offset_`, past the end. -/
theorem CycleInv.overrun (h : CycleInv phase b w slots rest) (hquiet : phase.isQuiet = false)
    {offset : ℕ} (hlt : b.size < offset) (hfar : b.size < span slots + (4 + 0xFFFFFFFF)) :
    CycleInv phase { b with offset := offset } w slots rest :=
  { h with
    offset_eq := .inr ⟨hlt, hfar⟩
    prevUsed_eq := by
      rintro prevUsed rfl
      cases hquiet }

omit [DecidableEq T] in
/-- In the phases in which writers may hold slots, the ones that do not wrap
`offset_` and find room get the bytes right behind the last slot. -/
theorem CycleInv.offset_eq_span (h : CycleInv phase b w slots rest) {p : Bytes}
    (hok : b.offset + (4 + p.length) < 2 ^ 64) (hroom : b.HasRoom p) :
    b.offset = span slots ∧ addSize b.offset (addSize 4 p.length) = span (slots ++ [p]) ∧
      span (slots ++ [p]) ≤ b.size := by
  have hneed : addSize b.offset (addSize 4 p.length) = b.offset + (4 + p.length) := by
    rw [addSize_of_lt (show 4 + p.length < 2 ^ 64 by omega), addSize_of_lt hok]
  rw [MmapBuffer.HasRoom, hneed] at hroom
  have hoffset : b.offset = span slots := by
    rcases h.offset_eq with heq | ⟨hlt, -⟩
    · exact heq
    · omega
  rw [hneed, span_append, span_cons, span_nil]
  omega

/-- A `fetch_add` that finds room reserves the next slot. -/
theorem CycleInv.reserve (h : CycleInv phase b w slots rest) {t : T} {p : Bytes}
    (ht : w t = some (p, .reserve)) (hok : b.offset + (4 + p.length) < 2 ^ 64)
    (hroom : b.HasRoom p) :
    CycleInv phase { b with offset := addSize b.offset (addSize 4 p.length) }
      (Function.update w t (some (p, .header b.offset))) (slots ++ [p]) rest := by
  obtain ⟨hoffset, hnew, hfits⟩ := h.offset_eq_span hok hroom
  have hquiet : phase.isQuiet ≠ true := by
    intro hq
    rcases h.quiet hq t _ _ ht with hpc | hpc | hpc <;> cases hpc
  have hlen : FrameLength p := h.writer_length t p _ ht (by rintro ⟨⟩)
  have hlayout : layoutFrom 0 (slots ++ [p]) = layoutFrom 0 slots ++ [(b.offset, p)] := by
    rw [layoutFrom_append_singleton, Nat.zero_add, hoffset]
  -- the new position is not one that an earlier slot has
  have hfresh : ∀ {u q pc old}, w u = some (q, pc) → pc.slot? = some old → old ≠ b.offset := by
    intro u q pc old hu hold
    have := mem_layoutFrom_bounds (h.holds u q pc old hu hold)
    simp only at this
    omega
  have hkeep : ∀ {u q old}, w u = some (q, .header old) ∨ w u = some (q, .payload old) →
      Function.update w t (some (p, .header b.offset)) u = w u := by
    intro u q old hu
    refine Function.update_of_ne ?_ _ _
    rintro rfl
    rw [ht] at hu
    rcases hu with hu | hu <;> cases hu
  refine ⟨⟨?_, ?_, ?_, ?_, ?_, ?_, ?_, ?_, ?_, ?_⟩, ?_, ?_, ?_⟩
  · exact h.sealed_eq
  · change b.writers = _
    rw [total_update_of_eq (by rw [ht]; rfl)]
    exact h.writers_eq
  · exact fun hq => absurd hq hquiet
  · intro u q pc hu hpc
    rcases update_cases hu with ⟨-, hx⟩ | ⟨-, hw⟩
    · cases hx
      exact hlen
    · exact h.writer_length u q pc hw hpc
  · intro q hq
    rw [List.mem_append, List.mem_singleton] at hq
    rcases hq with hq | rfl
    · exact h.slot_length q hq
    · exact hlen
  · exact hfits
  · exact .inl hnew
  · rintro prevUsed rfl
    exact absurd rfl hquiet
  · intro u q pc old hu hold
    rw [hlayout, List.mem_append, List.mem_singleton]
    rcases update_cases hu with ⟨-, hx⟩ | ⟨-, hw⟩
    · cases hx
      cases hold
      exact .inr rfl
    · exact .inl (h.holds u q pc old hw hold)
  · intro u u' q q' pc pc' old hu hu' hpc hpc'
    rcases update_cases hu with ⟨rfl, hx⟩ | ⟨-, hw⟩ <;>
      rcases update_cases hu' with ⟨rfl, hx'⟩ | ⟨-, hw'⟩
    · rfl
    · cases hx
      cases hpc
      exact absurd rfl (hfresh hw' hpc')
    · cases hx'
      cases hpc'
      exact absurd rfl (hfresh hw hpc)
    · exact h.holds_unique u u' q q' pc pc' old hw hw' hpc hpc'
  · intro old q hmem
    rw [hlayout, List.mem_append, List.mem_singleton] at hmem
    rcases hmem with hmem | hmem
    · rcases h.header old q hmem with ⟨u, hu⟩ | hslice
      · exact .inl ⟨u, (hkeep (.inl hu)).trans hu⟩
      · exact .inr hslice
    · cases hmem
      exact .inl ⟨t, Function.update_self _ _ _⟩
  · intro old q hmem
    rw [hlayout, List.mem_append, List.mem_singleton] at hmem
    rcases hmem with hmem | hmem
    · rcases h.payload old q hmem with ⟨u, hu⟩ | hslice
      · exact .inl ⟨u, (hkeep hu) ▸ hu⟩
      · exact .inr hslice
    · cases hmem
      exact .inl ⟨t, .inl (Function.update_self _ _ _)⟩
  · intro i hlo hpend hhi
    refine h.tail i ?_ hpend hhi
    rw [span_append] at hlo
    omega

omit [Fintype T] in
/-- Threads elsewhere than `t` stay where they are. -/
private theorem update_of_ne_slot {t : T} {x y : Writer} {pc : WritePc} {p : Bytes}
    (ht : w t = some (p, pc)) (hne : y ≠ some (p, pc)) {u : T} (hu : w u = y) :
    Function.update w t x u = y := by
  rw [Function.update_of_ne _ _ _, hu]
  rintro rfl
  exact hne (hu.symm.trans ht)

/-- A thread that goes on to its next copy keeps its slot. -/
theorem SlotInv.keepSlot (h : SlotInv phase b w slots) {t : T} {p : Bytes} {pc pc' : WritePc}
    {old : ℕ} (ht : w t = some (p, pc)) (hpc : pc.slot? = some old) (hpc' : pc'.slot? = some old)
    (data : ByteMemory) :
    SlotInv phase { b with data := data } (Function.update w t (some (p, pc'))) slots := by
  have hcounted : ∀ {pc : WritePc}, pc.slot? = some old → Writer.counted (some (p, pc)) = 1 := by
    intro pc hslot
    cases pc <;> first | rfl | cases hslot
  have hne : pc ≠ .enter := by
    rintro rfl
    cases hpc
  constructor
  · exact h.sealed_eq
  · change b.writers = _
    rw [total_update_of_eq (by rw [ht, hcounted hpc, hcounted hpc'])]
    exact h.writers_eq
  · intro hq
    rcases h.quiet hq t _ _ ht with rfl | rfl | rfl <;> cases hpc
  · intro u q pc hu hpc
    rcases update_cases hu with ⟨-, hx⟩ | ⟨-, hw⟩
    · cases hx
      exact h.writer_length t p _ ht hne
    · exact h.writer_length u q pc hw hpc
  · exact h.slot_length
  · exact h.span_le
  · exact h.offset_eq
  · exact h.prevUsed_eq
  · intro u q pc old' hu hold
    rcases update_cases hu with ⟨-, hx⟩ | ⟨-, hw⟩
    · cases hx
      cases hpc'.symm.trans hold
      exact h.holds t p _ old ht hpc
    · exact h.holds u q pc old' hw hold
  · intro u u' q q' pc₁ pc₂ old' hu hu' h₁ h₂
    rcases update_cases hu with ⟨rfl, hx⟩ | ⟨-, hw⟩ <;>
      rcases update_cases hu' with ⟨rfl, hx'⟩ | ⟨-, hw'⟩
    · rfl
    · cases hx
      exact h.holds_unique u u' p q' _ pc₂ old' ht hw' (hpc.trans (hpc'.symm.trans h₁)) h₂
    · cases hx'
      exact h.holds_unique u u' q p pc₁ _ old' hw ht h₁ (hpc.trans (hpc'.symm.trans h₂))
    · exact h.holds_unique u u' q q' pc₁ pc₂ old' hw hw' h₁ h₂

/-- The header copy fills the first four bytes of the thread's own slot. -/
theorem CycleInv.copyHeader (h : CycleInv phase b w slots rest) {t : T} {p : Bytes} {old : ℕ}
    (ht : w t = some (p, .header old)) (hpending : phase.pending ≤ old) :
    CycleInv phase { b with data := b.data.write old (LittleEndian.encode 4 p.length) }
      (Function.update w t (some (p, .payload old))) slots rest := by
  have hmem : (old, p) ∈ layoutFrom 0 slots := h.holds t p _ old ht rfl
  have hother : ∀ {pos n}, pos + n ≤ old ∨ old + (4 + p.length) ≤ pos →
      (b.data.write old (LittleEndian.encode 4 p.length)).slice pos n = b.data.slice pos n := by
    intro pos n hdisj
    apply ByteMemory.slice_write_of_disjoint
    rw [LittleEndian.length_encode]
    omega
  refine ⟨h.toSlotInv.keepSlot ht rfl rfl _, ?_, ?_, ?_⟩
  · intro old' q hmem'
    by_cases heq : (old', q) = (old, p)
    · cases heq
      refine .inr ⟨hpending, ?_⟩
      have := ByteMemory.slice_write_self b.data old (LittleEndian.encode 4 p.length)
      rwa [LittleEndian.length_encode] at this
    · rcases h.header old' q hmem' with ⟨u, hu⟩ | ⟨hpend', hslice⟩
      · refine .inl ⟨u, update_of_ne_slot ht ?_ hu⟩
        rintro ⟨⟩
        exact heq rfl
      · refine .inr ⟨hpend', (hother ?_).trans hslice⟩
        have := layoutFrom_disjoint hmem' hmem heq
        simp only at this
        omega
  · intro old' q hmem'
    by_cases heq : (old', q) = (old, p)
    · cases heq
      exact .inl ⟨t, .inr (Function.update_self _ _ _)⟩
    · rcases h.payload old' q hmem' with ⟨u, hu | hu⟩ | hslice
      · refine .inl ⟨u, .inl (update_of_ne_slot ht ?_ hu)⟩
        rintro ⟨⟩
        exact heq rfl
      · exact .inl ⟨u, .inr (update_of_ne_slot ht (by rintro ⟨⟩) hu)⟩
      · refine .inr ((hother ?_).trans hslice)
        have := layoutFrom_disjoint hmem' hmem heq
        simp only at this
        omega
  · intro i hlo hpend hhi
    have := mem_layoutFrom_bounds hmem
    simp only at this
    refine Eq.trans ?_ (h.tail i hlo hpend hhi)
    refine ByteMemory.write_of_not_mem _ (.inr ?_)
    rw [LittleEndian.length_encode]
    omega

/-- The payload copy fills the rest of the thread's own slot. -/
theorem CycleInv.copyPayload (h : CycleInv phase b w slots rest) {t : T} {p : Bytes} {old : ℕ}
    (ht : w t = some (p, .payload old)) :
    CycleInv phase { b with data := b.data.write (old + 4) p }
      (Function.update w t (some (p, .leave (some old)))) slots rest := by
  have hmem : (old, p) ∈ layoutFrom 0 slots := h.holds t p _ old ht rfl
  have hother : ∀ {pos n}, pos + n ≤ old + 4 ∨ old + (4 + p.length) ≤ pos →
      (b.data.write (old + 4) p).slice pos n = b.data.slice pos n := by
    intro pos n hdisj
    apply ByteMemory.slice_write_of_disjoint
    omega
  refine ⟨h.toSlotInv.keepSlot ht rfl rfl _, ?_, ?_, ?_⟩
  · intro old' q hmem'
    rcases h.header old' q hmem' with ⟨u, hu⟩ | ⟨hpend', hslice⟩
    · exact .inl ⟨u, update_of_ne_slot ht (by rintro ⟨⟩) hu⟩
    · refine .inr ⟨hpend', (hother ?_).trans hslice⟩
      by_cases heq : (old', q) = (old, p)
      · cases heq
        omega
      · have := layoutFrom_disjoint hmem' hmem heq
        simp only at this
        omega
  · intro old' q hmem'
    by_cases heq : (old', q) = (old, p)
    · cases heq
      exact .inr (ByteMemory.slice_write_self b.data (old + 4) p)
    · rcases h.payload old' q hmem' with ⟨u, hu | hu⟩ | hslice
      · exact .inl ⟨u, .inl (update_of_ne_slot ht (by rintro ⟨⟩) hu)⟩
      · refine .inl ⟨u, .inr (update_of_ne_slot ht ?_ hu)⟩
        rintro ⟨⟩
        exact heq rfl
      · refine .inr ((hother ?_).trans hslice)
        have := layoutFrom_disjoint hmem' hmem heq
        simp only at this
        omega
  · intro i hlo hpend hhi
    have := mem_layoutFrom_bounds hmem
    simp only at this
    refine Eq.trans ?_ (h.tail i hlo hpend hhi)
    exact ByteMemory.write_of_not_mem _ (.inr (by omega))

/-- A step that leaves `Write`. -/
theorem CycleInv.moveOut (h : CycleInv phase b w slots rest) {t : T} {n : ℕ}
    (hn : n + (w t).counted = b.writers)
    (hcopy : ∀ p old, w t ≠ some (p, .header old) ∧ w t ≠ some (p, .payload old)) :
    CycleInv phase { b with writers := n } (Function.update w t none) slots rest := by
  refine h.move hn hcopy ?_ ?_ ?_
  · intro _ _ _ heq
    cases heq
  · intro _ _ heq
    cases heq
  · intro _ _ heq
    cases heq

/-- A step to a place in `Write` where no slot is held. -/
theorem CycleInv.moveTo (h : CycleInv phase b w slots rest) {t : T} {n : ℕ} {p : Bytes}
    {pc : WritePc} (hn : n + (w t).counted = b.writers + Writer.counted (some (p, pc)))
    (hcopy : ∀ p old, w t ≠ some (p, .header old) ∧ w t ≠ some (p, .payload old))
    (hquiet : phase.isQuiet = true → pc = .enter ∨ pc = .check ∨ pc = .leave none)
    (hlen : pc ≠ .enter → FrameLength p) (hslot : pc.slot? = none) :
    CycleInv phase { b with writers := n } (Function.update w t (some (p, pc))) slots rest := by
  refine h.move hn hcopy ?_ ?_ ?_
  · intro hq _ _ heq
    cases heq
    exact hquiet hq
  · intro _ _ heq
    cases heq
    exact hlen
  · intro _ _ heq
    cases heq
    exact hslot

omit [Fintype T] [DecidableEq T] in
theorem BufferPhase.isSealed_of_isQuiet (hquiet : phase.isQuiet = true) :
    phase.isSealed = true := by
  cases phase <;> first | rfl | cases hquiet

/-- No step of a thread inside `Write` breaks the invariant. -/
theorem CycleInv.writeStep (h : CycleInv phase b w slots rest) {t : T} {p : Bytes} {pc : WritePc}
    (ht : w t = some (p, pc)) (hok : WriteOk phase b p pc) {b' : MmapBuffer} {next : WriteNext}
    (hstep : LoggerHigh.writeStep b p pc = (b', next)) :
    CycleInv phase b' (Function.update w t (next.writer p)) (slotsAfter b p pc slots) rest := by
  cases pc with
  | enter =>
    simp only [LoggerHigh.writeStep] at hstep
    by_cases hlen : p.length = 0 ∨ 0xFFFFFFFF < p.length
    · -- a length `Write` does not take
      rw [if_pos hlen] at hstep
      cases hstep
      exact h.moveOut (by rw [ht]; rfl) (by simp [ht])
    · rw [if_neg hlen] at hstep
      cases hstep
      refine h.moveTo (by rw [ht]; rfl) (by simp [ht]) (fun _ => .inr (.inl rfl)) (fun _ => ?_) rfl
      exact ⟨by omega, by omega⟩
  | check =>
    cases hstep
    have hlen := h.writer_length t p _ ht (by rintro ⟨⟩)
    by_cases hsealed : b.sealed = true
    · rw [if_pos hsealed]
      exact h.moveTo (by rw [ht]; rfl) (by simp [ht]) (fun _ => .inr (.inr rfl)) (fun _ => hlen) rfl
    · rw [if_neg hsealed]
      refine h.moveTo (by rw [ht]; rfl) (by simp [ht]) (fun hquiet => ?_) (fun _ => hlen) rfl
      rw [h.sealed_eq, BufferPhase.isSealed_of_isQuiet hquiet] at hsealed
      exact absurd rfl hsealed
  | reserve =>
    have hlen := h.writer_length t p _ ht (by rintro ⟨⟩)
    have hquiet : phase.isQuiet = false := by
      by_contra hq
      rcases h.quiet (by simpa using hq) t _ _ ht with hpc | hpc | hpc <;> cases hpc
    cases hstep
    by_cases hroom : b.HasRoom p
    · have hslots : slotsAfter b p .reserve slots = slots ++ [p] := if_pos ⟨rfl, hroom⟩
      rw [hslots, if_neg hroom]
      exact h.reserve ht hok hroom
    · have hslots : slotsAfter b p .reserve slots = slots := if_neg fun hand => hroom hand.2
      rw [MmapBuffer.HasRoom, not_not] at hroom
      have hfar : b.size < span slots + (4 + 0xFFFFFFFF) := by
        rcases h.offset_eq with heq | ⟨-, hfar⟩
        · have hle : addSize b.offset (addSize 4 p.length) ≤ b.offset + (4 + p.length) :=
            Nat.le_trans (Nat.mod_le _ _) (Nat.add_le_add_left (Nat.mod_le _ _) _)
          have := hlen.2
          omega
        · exact hfar
      rw [hslots, if_pos hroom]
      exact (h.overrun hquiet hroom hfar).moveTo (by rw [ht]; rfl) (by simp [ht])
        (fun _ => .inr (.inr rfl)) (fun _ => hlen) rfl
  | header old =>
    cases hstep
    exact h.copyHeader ht hok
  | payload old =>
    cases hstep
    exact h.copyPayload ht
  | leave slot =>
    cases hstep
    have hcount : Writer.counted (w t) ≤ b.writers := h.writers_eq ▸ le_total _ w t
    refine h.moveOut ?_ (by simp [ht])
    rw [ht] at hcount ⊢
    change 1 ≤ b.writers at hcount
    change b.writers - 1 + 1 = b.writers
    omega

/-- A thread that is about to call `Write` counts for nothing yet. -/
theorem CycleInv.call (h : CycleInv phase b w slots rest) {t : T} (ht : w t = none) (p : Bytes) :
    CycleInv phase b (Function.update w t (some (p, .enter))) slots rest :=
  h.moveTo (by rw [ht]; rfl) (by simp [ht]) (fun _ => .inl rfl) (fun hne => absurd rfl hne) rfl

end Writers

-- ════════════════════════════════════════════════════════════════════════
-- Steps of the owner
-- ════════════════════════════════════════════════════════════════════════

section Owner

variable {T : Type*} [Fintype T] {b : MmapBuffer} {w : T → Writer} {slots : List Bytes}
  {rest : ByteMemory} {prevUsed : ℕ}

/-- A buffer that nobody has written to. -/
theorem CycleInv.fresh (hsealed : b.sealed = false) (hwriters : b.writers = 0)
    (hoffset : b.offset = 0) :
    CycleInv .writable b (fun _ : T => none) [] b.data := by
  refine ⟨⟨hsealed, ?_, ?_, ?_, ?_, Nat.zero_le _, .inl hoffset, ?_, ?_, ?_⟩, ?_, ?_, ?_⟩
  · exact hwriters.trans (total_eq_zero fun _ => rfl).symm
  · rintro ⟨⟩
  · rintro - - - ⟨⟩
  · rintro - ⟨⟩
  · rintro - ⟨⟩
  · rintro - - - - ⟨⟩
  · rintro - - - - - - - ⟨⟩
  · rintro - - ⟨⟩
  · rintro - - ⟨⟩
  · exact fun _ _ _ _ => rfl

/-- `Seal` stores `sealed_`. -/
theorem CycleInv.storeSealed (h : CycleInv .writable b w slots rest) :
    CycleInv .sealing b.storeSealed w slots rest :=
  { h with
    sealed_eq := rfl
    quiet := by rintro ⟨⟩
    prevUsed_eq := by rintro _ ⟨⟩ }

/-- `Seal` sees that nobody is inside `Write` past the increment of `writers_`. -/
theorem CycleInv.drained_of_writers_eq_zero (h : CycleInv .sealing b w slots rest)
    (hzero : b.writers = 0) : CycleInv .drained b w slots rest :=
  { h with
    quiet := by
      intro _ t p pc ht
      have hcount := eq_zero_of_total_eq_zero (h.writers_eq ▸ hzero) t
      rw [ht] at hcount
      cases pc <;> first | exact .inl rfl | cases hcount
    prevUsed_eq := by rintro _ ⟨⟩ }

/-- `ResetForReuse` loads `prev_used`. -/
theorem CycleInv.loadPrevUsed (h : CycleInv .drained b w slots rest) :
    CycleInv (.resetOffset b.used) b w slots rest :=
  { h with
    prevUsed_eq := by
      rintro _ ⟨⟩
      rfl }

/-- `ResetForReuse` stores `offset_`: the slots are given up, and a new cycle
begins over what the region holds behind `prev_used`. -/
theorem CycleInv.storeOffset (h : CycleInv (.resetOffset prevUsed) b w slots rest) :
    CycleInv (.resetUnseal prevUsed) b.storeOffset w [] rest := by
  refine ⟨⟨h.sealed_eq, h.writers_eq, h.quiet, h.writer_length, ?_, Nat.zero_le _,
    .inl rfl, ?_, ?_, ?_⟩, ?_, ?_, ?_⟩
  · rintro - ⟨⟩
  · rintro - ⟨⟩
  · intro t p pc old ht hold
    rcases h.quiet rfl t p pc ht with rfl | rfl | rfl <;> cases hold
  · intro t _ p _ pc _ old ht _ hold
    rcases h.quiet rfl t p pc ht with rfl | rfl | rfl <;> cases hold
  · rintro - - ⟨⟩
  · rintro - - ⟨⟩
  · intro i _ hpending hsize
    have hspan := h.span_le_used
    rw [← h.prevUsed_eq prevUsed rfl] at hspan
    exact h.tail i (Nat.le_trans hspan hpending) (Nat.zero_le _) hsize

/-- `ResetForReuse` clears `sealed_` while the `memset` is still to come. -/
theorem CycleInv.storeUnsealed (h : CycleInv (.resetUnseal prevUsed) b w slots rest) :
    CycleInv (.resetZero prevUsed) b.storeUnsealed w slots rest :=
  { h with
    sealed_eq := rfl
    quiet := by rintro ⟨⟩
    prevUsed_eq := by rintro _ ⟨⟩ }

/-- The `memset` spares every slot of the new cycle that has been written. -/
theorem CycleInv.memset (h : CycleInv (.resetZero prevUsed) b w slots rest) :
    CycleInv .writable (b.memset prevUsed) w slots (rest.clear prevUsed) := by
  refine ⟨⟨h.sealed_eq, h.writers_eq, h.quiet, h.writer_length, h.slot_length,
    h.span_le, h.offset_eq, ?_, h.holds, h.holds_unique⟩, ?_, ?_, ?_⟩
  · rintro - ⟨⟩
  · intro old p hmem
    rcases h.header old p hmem with hholder | ⟨hle, hslice⟩
    · exact .inl hholder
    · exact .inr ⟨Nat.zero_le _, (ByteMemory.slice_clear_of_le _ hle).trans hslice⟩
  · intro old p hmem
    rcases h.header old p hmem with ⟨t, ht⟩ | ⟨hle, -⟩
    · exact .inl ⟨t, .inl ht⟩
    · rcases h.payload old p hmem with hholder | hslice
      · exact .inl hholder
      · have hle' : prevUsed ≤ old + 4 := Nat.le_trans hle (Nat.le_add_right old 4)
        exact .inr ((ByteMemory.slice_clear_of_le _ hle').trans hslice)
  · intro i hlo _ hhi
    change b.data.clear prevUsed i = rest.clear prevUsed i
    by_cases hi : i < prevUsed
    · rw [ByteMemory.clear_of_lt _ hi, ByteMemory.clear_of_lt _ hi]
    · have hle : prevUsed ≤ i := Nat.le_of_not_lt hi
      rw [ByteMemory.clear_of_le _ hle, ByteMemory.clear_of_le _ hle]
      exact h.tail i hlo hle hhi

end Owner

end LoggerHigh
