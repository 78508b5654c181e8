import Mathlib.Algebra.Order.Group.Multiset
import Mathlib.Algebra.Order.BigOperators.Group.Multiset
import LoggerHigh.Lib.ThreadSum

/-!
# Resources with owners

A ledger counts what a process has been given and has not given back. A place
can hold resources; what is out is what all places hold together.

## Main definitions

- `Account` — what is out, and whether something was given back that was not
- `Account.Owes` — the books are right, and these resources are out

## Main results

- `Account.Owes.take`, `Account.Owes.give` — the rules of the two operations
- `owner_unique` — when nothing is out twice, no two places hold the same
- `total_transfer` — two places that share out what they had change nothing
-/

namespace Ledger

open ThreadSum

variable {ρ : Type*}

/-- What is out, and whether something was given back that was not. -/
structure Account (ρ : Type*) where
  out : Multiset ρ
  fault : Bool

namespace Account

/-- Nothing was given yet. -/
def empty : Account ρ := ⟨0, false⟩

/-- `r` is given. -/
def take (a : Account ρ) (r : ρ) : Account ρ := { a with out := r ::ₘ a.out }

/-- `r` is given back. -/
def give [DecidableEq ρ] (a : Account ρ) (r : ρ) : Account ρ :=
  if r ∈ a.out then { a with out := a.out.erase r } else { a with fault := true }

/-- Nothing was given back that was not out, and `m` is out. -/
structure Owes (a : Account ρ) (m : Multiset ρ) : Prop where
  fault : a.fault = false
  out : a.out = m

variable {a : Account ρ} {m : Multiset ρ} {r : ρ}

theorem Owes.empty : Owes (empty : Account ρ) 0 := ⟨rfl, rfl⟩

theorem Owes.of_eq {m' : Multiset ρ} (h : a.Owes m) (hm : m = m') : a.Owes m' := hm ▸ h

theorem Owes.eq {b : Account ρ} (ha : a.Owes m) (hb : b.Owes m) : a = b := by
  cases a
  cases b
  rw [Account.mk.injEq]
  exact ⟨ha.out.trans hb.out.symm, ha.fault.trans hb.fault.symm⟩

/-- The rule for what is given. -/
theorem Owes.take (h : a.Owes m) (r : ρ) : (a.take r).Owes ({r} + m) :=
  ⟨h.fault, by rw [Account.take, h.out, Multiset.singleton_add]⟩

/-- The rule for what is given back. -/
theorem Owes.give [DecidableEq ρ] (h : a.Owes ({r} + m)) : (a.give r).Owes m := by
  have hmem : r ∈ a.out := by simp [h.out]
  rw [Account.give, if_pos hmem]
  exact ⟨h.fault, by rw [h.out, Multiset.singleton_add, Multiset.erase_cons_head]⟩

end Account

section Places

variable {ι β : Type*} [Fintype ι] {held : β → Multiset ρ} {place : ι → β}

/-- What is held is held somewhere. -/
theorem mem_total {r : ρ} : r ∈ total held place ↔ ∃ i, r ∈ held (place i) := by
  rw [total, Multiset.mem_sum]
  exact ⟨fun ⟨i, _, hi⟩ => ⟨i, hi⟩, fun ⟨i, hi⟩ => ⟨i, Finset.mem_univ i, hi⟩⟩

/-- When nothing is out twice, no two places hold the same. -/
theorem owner_unique [DecidableEq ι] [DecidableEq ρ] (h : (total held place).Nodup) {r : ρ}
    {i j : ι} (hi : r ∈ held (place i)) (hj : r ∈ held (place j)) : i = j := by
  by_contra hij
  have hcount : (total held place).count r = total (fun b => (held b).count r) place :=
    Multiset.count_sum'
  have htwo := add_le_total (fun b => (held b).count r) place hij
  have hone := Multiset.nodup_iff_count_le_one.mp h r
  have hi' := Multiset.count_pos.mpr hi
  have hj' := Multiset.count_pos.mpr hj
  omega

variable [DecidableEq ι]

/-- One place changes; what all others hold stays. -/
theorem exists_rest (held : β → Multiset ρ) (place : ι → β) (i : ι) :
    ∃ rest, ∀ x, total held (Function.update place i x) = held x + rest := by
  refine ⟨∑ j ∈ Finset.univ.erase i, held (place j), fun x => ?_⟩
  rw [total, ← Finset.add_sum_erase _ _ (Finset.mem_univ i), Function.update_self]
  congr 1
  refine Finset.sum_congr rfl fun j hj => ?_
  rw [Function.update_of_ne (Finset.ne_of_mem_erase hj)]

/-- Two places that share out what they had change nothing. -/
theorem total_transfer {i j : ι} (hij : i ≠ j) {x y : β}
    (h : held x + held y = held (place i) + held (place j)) :
    total held (Function.update (Function.update place i x) j y) = total held place := by
  have hj := total_update held (Function.update place i x) j y
  have hi := total_update held place i x
  rw [Function.update_of_ne hij.symm] at hj
  refine add_right_cancel (b := held (place i) + held (place j)) ?_
  calc total held (Function.update (Function.update place i x) j y) +
        (held (place i) + held (place j))
      = total held (Function.update place i x) + held y + held (place i) := by
        rw [← hj]
        ac_rfl
    _ = total held place + (held x + held y) := by
        rw [add_right_comm, hi]
        ac_rfl
    _ = total held place + (held (place i) + held (place j)) := by rw [h]

end Places

end Ledger
