import Mathlib.Algebra.BigOperators.Group.List.Basic
import Mathlib.Algebra.Ring.Nat
import Mathlib.Data.Nat.Notation
import Mathlib.Tactic.Common

/-!
# Counting in consecutive blocks

Days are counted in years of different length and in months of different length:
a number is a block and a place in that block.

## Main definitions

- `locate` — the block of a number and its place in the block

## Main results

- `locate_mono`, `locate_place_iff` — smaller numbers come in earlier blocks or, in
  the same block, at an earlier place
- `locate_lt` — numbers below the sum lie in one of the blocks
-/

namespace Blocks

/-- The block of `d` and its place there, in blocks of the given lengths. -/
def locate : List ℕ → ℕ → ℕ × ℕ
  | [], d => (0, d)
  | len :: lens, d =>
    if d < len then (0, d) else ((locate lens (d - len)).1 + 1, (locate lens (d - len)).2)

variable {lens : List ℕ} {d d' : ℕ}

/-- A number in an earlier block is smaller. -/
theorem locate_mono (h : (locate lens d).1 < (locate lens d').1) : d < d' := by
  induction lens generalizing d d' with
  | nil => exact absurd h (Nat.lt_irrefl _)
  | cons len lens ih =>
    rw [locate, locate] at h
    split at h
    · next hd =>
      split at h
      · exact absurd h (Nat.lt_irrefl _)
      · omega
    · next hd =>
      split at h
      · exact absurd h (Nat.not_lt_zero _)
      · have hlt := ih (Nat.lt_of_succ_lt_succ h)
        omega

/-- In one block, numbers compare like their places. -/
theorem locate_place_iff (h : (locate lens d).1 = (locate lens d').1) :
    (locate lens d).2 < (locate lens d').2 ↔ d < d' := by
  induction lens generalizing d d' with
  | nil => exact Iff.rfl
  | cons len lens ih =>
    rw [locate, locate] at h ⊢
    split at h
    · next hd =>
      split at h
      · next hd' =>
        rw [if_pos hd, if_pos hd']
      · cases h
    · next hd =>
      split at h
      · cases h
      · next hd' =>
        rw [if_neg hd, if_neg hd']
        show (locate lens (d - len)).2 < (locate lens (d' - len)).2 ↔ _
        rw [ih (Nat.succ.inj h)]
        omega

/-- The block of a number below the sum, and its place there. -/
theorem locate_lt (h : d < lens.sum) :
    ∃ hlt : (locate lens d).1 < lens.length, (locate lens d).2 < lens[(locate lens d).1] := by
  induction lens generalizing d with
  | nil => exact absurd h (Nat.not_lt_zero _)
  | cons len lens ih =>
    rw [List.sum_cons] at h
    by_cases hd : d < len
    · simp only [locate, if_pos hd]
      exact ⟨Nat.succ_pos _, hd⟩
    · obtain ⟨hblock, hplace⟩ := ih (d := d - len) (by omega)
      simp only [locate, if_neg hd]
      exact ⟨Nat.succ_lt_succ hblock, hplace⟩

end Blocks
