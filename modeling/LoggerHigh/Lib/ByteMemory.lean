import Mathlib.Data.List.Basic
import Mathlib.Tactic.Common

/-!
# Flat byte memory

A memory maps addresses to bytes. `write` and `clear` are what `memcpy` into it
and `memset` to zero from its start do; `slice` reads a range. The lemmas say
how the three compose: a range reads back what was written to it, and a write
or a clear leaves every range it does not meet alone.
-/

/-- Bytes by address. -/
abbrev ByteMemory := ℕ → UInt8

namespace ByteMemory

/-- Copy `bs` to the addresses from `pos` on. -/
def write (m : ByteMemory) (pos : ℕ) (bs : List UInt8) : ByteMemory := fun i =>
  if pos ≤ i ∧ i < pos + bs.length then bs.getD (i - pos) 0 else m i

/-- Set the first `n` bytes to zero. -/
def clear (m : ByteMemory) (n : ℕ) : ByteMemory := fun i =>
  if i < n then 0 else m i

/-- The `n` bytes from address `pos` on. -/
def slice (m : ByteMemory) (pos n : ℕ) : List UInt8 :=
  (List.range n).map fun i => m (pos + i)

@[simp] theorem length_slice (m : ByteMemory) (pos n : ℕ) : (m.slice pos n).length = n := by
  rw [slice, List.length_map, List.length_range]

/-- Two memories that agree on a range have the same slice there. -/
theorem slice_congr {m m' : ByteMemory} {pos n : ℕ}
    (h : ∀ i, pos ≤ i → i < pos + n → m i = m' i) : m.slice pos n = m'.slice pos n := by
  apply List.map_congr_left
  intro i hi
  rw [List.mem_range] at hi
  exact h (pos + i) (Nat.le_add_right pos i) (Nat.add_lt_add_left hi pos)

theorem slice_add (m : ByteMemory) (pos a b : ℕ) :
    m.slice pos (a + b) = m.slice pos a ++ m.slice (pos + a) b := by
  rw [slice, List.range_add, List.map_append, List.map_map]
  congr 1
  apply List.map_congr_left
  intro i _
  rw [Function.comp_apply, Nat.add_assoc]

/-- The byte at offset `k` of a slice. -/
theorem getElem?_slice (m : ByteMemory) (pos : ℕ) {n k : ℕ} (h : k < n) :
    (m.slice pos n)[k]? = some (m (pos + k)) := by
  rw [slice, List.getElem?_map, List.getElem?_range h, Option.map_some]

/-- A range reads back what was written to it. -/
theorem slice_write_self (m : ByteMemory) (pos : ℕ) (bs : List UInt8) :
    (m.write pos bs).slice pos bs.length = bs := by
  apply List.ext_getElem?
  intro k
  by_cases hk : k < bs.length
  · have hin : pos ≤ pos + k ∧ pos + k < pos + bs.length := by omega
    rw [getElem?_slice _ _ hk, write, if_pos hin, Nat.add_sub_cancel_left,
      List.getD_eq_getElem?_getD, List.getElem?_eq_getElem hk, Option.getD_some]
  · rw [List.getElem?_eq_none (by rw [length_slice]; omega), List.getElem?_eq_none (by omega)]

/-- A write leaves every address outside its range alone. -/
theorem write_of_not_mem (m : ByteMemory) {pos i : ℕ} {bs : List UInt8}
    (h : i < pos ∨ pos + bs.length ≤ i) : m.write pos bs i = m i := by
  rw [write, if_neg (by omega)]

/-- A write leaves every range it does not meet alone. -/
theorem slice_write_of_disjoint (m : ByteMemory) {pos pos' n : ℕ} {bs : List UInt8}
    (h : pos' + n ≤ pos ∨ pos + bs.length ≤ pos') :
    (m.write pos bs).slice pos' n = m.slice pos' n := by
  apply slice_congr
  intro i hlo hhi
  exact m.write_of_not_mem (by omega)

theorem clear_of_lt (m : ByteMemory) {n i : ℕ} (h : i < n) : m.clear n i = 0 := by
  rw [clear, if_pos h]

theorem clear_of_le (m : ByteMemory) {n i : ℕ} (h : n ≤ i) : m.clear n i = m i := by
  rw [clear, if_neg (by omega)]

@[simp] theorem clear_zero (m : ByteMemory) : m.clear 0 = m := by
  funext i
  exact m.clear_of_le (Nat.zero_le i)

/-- Clearing a longer prefix absorbs clearing a shorter one. -/
theorem clear_clear (m : ByteMemory) (a b : ℕ) : (m.clear a).clear b = m.clear (max a b) := by
  funext i
  by_cases hb : i < b
  · rw [clear_of_lt _ hb, clear_of_lt _ (by omega)]
  · rw [clear_of_le _ (by omega)]
    by_cases ha : i < a
    · rw [clear_of_lt _ ha, clear_of_lt _ (by omega)]
    · rw [clear_of_le _ (by omega), clear_of_le _ (by omega)]

/-- A clear leaves every range above it alone. -/
theorem slice_clear_of_le (m : ByteMemory) {n pos k : ℕ} (h : n ≤ pos) :
    (m.clear n).slice pos k = m.slice pos k := by
  apply slice_congr
  intro i hlo _
  exact m.clear_of_le (by omega)

/-- A range of zero bytes. -/
theorem forall_mem_slice_eq_zero {m : ByteMemory} {pos n : ℕ}
    (h : ∀ i, pos ≤ i → i < pos + n → m i = 0) : ∀ b ∈ m.slice pos n, b = 0 := by
  intro b hb
  obtain ⟨i, hi, rfl⟩ := List.mem_map.mp hb
  rw [List.mem_range] at hi
  exact h (pos + i) (Nat.le_add_right pos i) (Nat.add_lt_add_left hi pos)

end ByteMemory
