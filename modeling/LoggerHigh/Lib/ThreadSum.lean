import Mathlib.Algebra.BigOperators.Group.Finset.Basic
import Mathlib.Algebra.Order.BigOperators.Group.Finset
import Mathlib.Algebra.Order.Group.Nat
import Mathlib.Algebra.Ring.Nat
import Mathlib.Data.Fintype.BigOperators

/-!
# Sums over threads

A quantity that every thread contributes to according to where it stands is a
sum over all threads. When one thread moves, only its own term changes.
-/

namespace ThreadSum

variable {T β M : Type*} [Fintype T] [DecidableEq T] [AddCommMonoid M]

omit [Fintype T] [AddCommMonoid M] in
/-- After a move of `t`, a thread is either `t` at its new position or where it was. -/
theorem update_cases {pc : T → β} {t u : T} {x y : β} (h : Function.update pc t x u = y) :
    (u = t ∧ x = y) ∨ (u ≠ t ∧ pc u = y) := by
  by_cases hu : u = t
  · rw [hu, Function.update_self] at h
    exact .inl ⟨hu, h⟩
  · rw [Function.update_of_ne hu] at h
    exact .inr ⟨hu, h⟩

omit [Fintype T] [AddCommMonoid M] in
/-- A move between positions that look the same is not seen. -/
theorem apply_update {γ : Type*} {f : β → γ} {pc : T → β} {t : T} {x : β} (h : f x = f (pc t))
    (u : T) : f (Function.update pc t x u) = f (pc u) := by
  by_cases hu : u = t
  · rw [hu, Function.update_self, h]
  · rw [Function.update_of_ne hu]

omit [Fintype T] in
/-- Moving thread `t` from `pc t` to `x` replaces its contribution to any sum it is in. -/
theorem sum_update {S : Finset T} {t : T} (ht : t ∈ S) (f : β → M) (pc : T → β) (x : β) :
    ∑ u ∈ S, f (Function.update pc t x u) + f (pc t) = ∑ u ∈ S, f (pc u) + f x := by
  have hrest : ∑ u ∈ S.erase t, f (Function.update pc t x u) = ∑ u ∈ S.erase t, f (pc u) := by
    refine Finset.sum_congr rfl fun u hu => ?_
    rw [Function.update_of_ne (Finset.ne_of_mem_erase hu)]
  rw [← Finset.sum_erase_add _ _ ht, hrest, Function.update_self,
    ← Finset.sum_erase_add S (fun u => f (pc u)) ht]
  ac_rfl

/-- What the threads at `pc` contribute together. -/
def total (f : β → M) (pc : T → β) : M := ∑ t, f (pc t)

/-- Moving thread `t` from `pc t` to `x` replaces its contribution. -/
theorem total_update (f : β → M) (pc : T → β) (t : T) (x : β) :
    total f (Function.update pc t x) + f (pc t) = total f pc + f x :=
  sum_update (Finset.mem_univ t) f pc x

/-- A move between positions that contribute the same leaves the sum alone. -/
theorem total_update_of_eq {f : β → M} {pc : T → β} {t : T} {x : β} (h : f x = f (pc t)) :
    total f (Function.update pc t x) = total f pc := by
  exact Finset.sum_congr rfl fun u _ => apply_update h u

omit [DecidableEq T] in
/-- Nobody contributes, so the sum vanishes. -/
theorem total_eq_zero {f : β → M} {pc : T → β} (h : ∀ t, f (pc t) = 0) : total f pc = 0 :=
  Finset.sum_eq_zero fun t _ => h t

omit [DecidableEq T] in
/-- A count is zero only when nobody is counted. -/
theorem eq_zero_of_total_eq_zero {f : β → ℕ} {pc : T → β} (h : total f pc = 0) (t : T) :
    f (pc t) = 0 :=
  Finset.sum_eq_zero_iff.mp h t (Finset.mem_univ t)

omit [DecidableEq T] in
/-- Each contribution is part of the count. -/
theorem le_total (f : β → ℕ) (pc : T → β) (t : T) : f (pc t) ≤ total f pc :=
  Finset.single_le_sum (fun u _ => Nat.zero_le (f (pc u))) (Finset.mem_univ t)

/-- Two different contributions are part of the count together. -/
theorem add_le_total (f : β → ℕ) (pc : T → β) {t u : T} (h : t ≠ u) :
    f (pc t) + f (pc u) ≤ total f pc := by
  calc f (pc t) + f (pc u) = ∑ v ∈ {t, u}, f (pc v) := by rw [Finset.sum_pair h]
    _ ≤ total f pc := Finset.sum_le_sum_of_subset (Finset.subset_univ _)

omit [DecidableEq T] in
/-- A positive count counts somebody. -/
theorem exists_of_total_pos {f : β → ℕ} {pc : T → β} (h : 0 < total f pc) : ∃ t, 0 < f (pc t) := by
  by_contra hnone
  refine Nat.ne_of_gt h (total_eq_zero fun t => ?_)
  by_contra hne
  exact hnone ⟨t, Nat.pos_of_ne_zero hne⟩

end ThreadSum
