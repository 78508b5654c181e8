import Mathlib.Data.List.Sort
import Mathlib.Order.Basic

/-!
# Sorting by a key

A list sorted by keys that its elements do not share: the order it had is forgotten,
and where the keys have been increasing nothing moves.

## Main results

- `sortBy_eq_of_perm` — lists of the same elements are sorted alike
- `map_sortBy_eq` — increasing keys are those of the sorted list, in their order
-/

namespace SortByKey

variable {α κ : Type*} [LinearOrder κ] {key : α → κ} {l l' : List α}

/-- The elements in the order of their keys. -/
def sortBy (key : α → κ) (l : List α) : List α := l.insertionSort fun a b => key a ≤ key b

theorem sortBy_perm (key : α → κ) (l : List α) : (sortBy key l).Perm l :=
  List.perm_insertionSort _ l

theorem pairwise_sortBy (key : α → κ) (l : List α) :
    (sortBy key l).Pairwise fun a b => key a ≤ key b :=
  haveI : Std.Total fun a b => key a ≤ key b := ⟨fun a b => le_total (key a) (key b)⟩
  haveI : IsTrans α fun a b => key a ≤ key b := ⟨fun _ _ _ => le_trans⟩
  List.pairwise_insertionSort _ l

/-- Elements with keys of their own are sorted in one way only. -/
theorem eq_of_perm_of_pairwise (hnodup : (l.map key).Nodup) (hperm : l.Perm l')
    (h : l.Pairwise fun a b => key a ≤ key b) (h' : l'.Pairwise fun a b => key a ≤ key b) :
    l = l' := by
  refine hperm.eq_of_pairwise (fun a b ha hb hab hba => ?_) h h'
  exact List.inj_on_of_nodup_map hnodup ha (hperm.mem_iff.mpr hb) (le_antisymm hab hba)

/-- Two lists of the same elements are sorted alike. -/
theorem sortBy_eq_of_perm (hnodup : (l.map key).Nodup) (hperm : l.Perm l') :
    sortBy key l = sortBy key l' := by
  have hsame : (sortBy key l).Perm (sortBy key l') :=
    ((sortBy_perm key l).trans hperm).trans (sortBy_perm key l').symm
  refine eq_of_perm_of_pairwise ?_ hsame (pairwise_sortBy key l) (pairwise_sortBy key l')
  exact ((sortBy_perm key l).map key).nodup_iff.mpr hnodup

/-- Increasing keys stand in this order when elements with these keys are sorted. -/
theorem map_sortBy_eq {keys : List κ} (h : keys.Pairwise (· < ·)) (hperm : (l.map key).Perm keys) :
    (sortBy key l).map key = keys := by
  have hsorted : ((sortBy key l).map key).Pairwise (· ≤ ·) :=
    List.pairwise_map.mpr (pairwise_sortBy key l)
  refine List.Perm.eq_of_pairwise (fun _ _ _ _ hab hba => le_antisymm hab hba) hsorted
    (h.imp fun hlt => le_of_lt hlt) ?_
  exact ((sortBy_perm key l).map key).trans hperm

end SortByKey
