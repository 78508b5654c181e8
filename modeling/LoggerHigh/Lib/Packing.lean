import Mathlib.Algebra.BigOperators.Group.List.Basic
import Mathlib.Algebra.Ring.Nat
import Mathlib.Data.List.Chain
import Mathlib.Tactic.Common

/-!
# Greedy packing

Items of given weights are put one after the other into packs. A pack weighs
`base` by itself, and an item goes into the last pack unless this one holds an
item already and would exceed `limit`.

## Main definitions

- `add`, `greedy` — one item, and a sequence of items
- `Packed` — what a packing of a sequence has to satisfy

## Main results

- `packed_greedy` — greedy packing satisfies it
-/

namespace Packing

variable {α : Type*}

/-- Packs in their order, the last one apart. -/
structure Packs (α : Type*) where
  done : List (List α)
  last : List α

/-- All packs. -/
def Packs.all (p : Packs α) : List (List α) := p.done ++ [p.last]

variable (weight : α → ℕ) (base limit : ℕ)

/-- What a pack weighs. -/
def size (pack : List α) : ℕ := base + (pack.map weight).sum

/-- The last pack holds an item and has no room for `x`. -/
def NoRoom (pack : List α) (x : α) : Prop :=
  pack ≠ [] ∧ limit < size weight base pack + weight x

instance (pack : List α) (x : α) : Decidable (NoRoom weight base limit pack x) :=
  inferInstanceAs (Decidable (_ ∧ _))

/-- Put one more item. -/
def add (p : Packs α) (x : α) : Packs α :=
  if NoRoom weight base limit p.last x then ⟨p.done ++ [p.last], [x]⟩ else ⟨p.done, p.last ++ [x]⟩

/-- Put a sequence of items, from one empty pack on. -/
def greedy (xs : List α) : Packs α := xs.foldl (add weight base limit) ⟨[], []⟩

/-- Every item is in one pack and in order; a pack is within the limit or holds
one item; a pack was left behind only for an item it had no room for. -/
structure Packed (xs : List α) (packs : List (List α)) : Prop where
  flatten : packs.flatten = xs
  within : ∀ p ∈ packs, size weight base p ≤ limit ∨ p.length = 1
  left : packs.IsChain fun p q => ∃ x ∈ q.head?, NoRoom weight base limit p x

variable {weight base limit} {xs : List α} {p : Packs α}

theorem greedy_append_singleton (xs : List α) (x : α) :
    greedy weight base limit (xs ++ [x]) = add weight base limit (greedy weight base limit xs) x :=
  List.foldl_concat ..

theorem size_append_singleton (pack : List α) (x : α) :
    size weight base (pack ++ [x]) = size weight base pack + weight x := by
  rw [size, size, List.map_append, List.sum_append, List.map_singleton, List.sum_singleton,
    Nat.add_assoc]

theorem Packs.all_add_of_noRoom {x : α} (h : NoRoom weight base limit p.last x) :
    (add weight base limit p x).all = p.all ++ [[x]] := by
  rw [add, if_pos h]
  rfl

theorem Packs.all_add_of_room {x : α} (h : ¬ NoRoom weight base limit p.last x) :
    (add weight base limit p x).all = p.done ++ [p.last ++ [x]] := by
  rw [add, if_neg h]
  rfl

/-- What heads a pack stays at its head. -/
theorem isChain_concat_append {packs : List (List α)} {last : List α} {x : α}
    (h : (packs ++ [last]).IsChain fun p q => ∃ x ∈ q.head?, NoRoom weight base limit p x) :
    (packs ++ [last ++ [x]]).IsChain fun p q => ∃ x ∈ q.head?, NoRoom weight base limit p x := by
  rw [List.isChain_append] at h ⊢
  refine ⟨h.1, List.isChain_singleton _, ?_⟩
  intro p hp q hq
  obtain ⟨y, hy, hroom⟩ := h.2.2 p hp last rfl
  cases hq
  exact ⟨y, by rw [List.head?_append, hy]; rfl, hroom⟩

theorem Packed.add {x : α} (h : Packed weight base limit xs p.all) :
    Packed weight base limit (xs ++ [x]) (add weight base limit p x).all := by
  by_cases hroom : NoRoom weight base limit p.last x
  · rw [Packs.all_add_of_noRoom hroom]
    refine ⟨?flatten, ?within, ?left⟩
    case flatten => rw [List.flatten_append, h.flatten]; rfl
    case within =>
      intro q hq
      rcases List.mem_append.mp hq with hq | hq
      · exact h.within q hq
      · rw [List.mem_singleton.mp hq]
        exact .inr rfl
    case left =>
      refine List.isChain_append.mpr ⟨h.left, List.isChain_singleton _, ?_⟩
      intro q hq r hr
      rw [Packs.all, List.getLast?_concat] at hq
      cases hq
      cases hr
      exact ⟨x, rfl, hroom⟩
  · rw [Packs.all_add_of_room hroom]
    refine ⟨?flatten, ?within, isChain_concat_append h.left⟩
    case flatten =>
      rw [← h.flatten, Packs.all]
      simp only [List.flatten_append, List.flatten_singleton, List.append_assoc]
    case within =>
      intro q hq
      rcases List.mem_append.mp hq with hq | hq
      · exact h.within q (List.mem_append_left _ hq)
      · rw [List.mem_singleton.mp hq, size_append_singleton]
        by_cases hnil : p.last = []
        · exact .inr (by rw [hnil]; rfl)
        · exact .inl (Nat.le_of_not_lt fun hlt => hroom ⟨hnil, hlt⟩)

/-- Greedy packing packs, provided an empty pack is within the limit. -/
theorem packed_greedy (hbase : base ≤ limit) (xs : List α) :
    Packed weight base limit xs (greedy weight base limit xs).all := by
  induction xs using List.reverseRecOn with
  | nil =>
    refine ⟨rfl, ?_, List.isChain_singleton _⟩
    intro q hq
    rw [List.mem_singleton.mp hq]
    exact .inl hbase
  | append_singleton xs x ih =>
    rw [greedy_append_singleton]
    exact ih.add

end Packing
