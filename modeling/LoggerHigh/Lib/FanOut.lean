import Mathlib.Data.List.Basic
import Mathlib.Tactic.Common

/-!
# Handing values to a row of receivers

A sender hands one value after the other to the receivers `0`, …, `n - 1`, each
value to one receiver after the other, until all have it or one of them ends
the round.

## Main definitions

- `Round` — a value, and the receiver that ended its round
- `due` — what a receiver gets of the rounds
- `Delivered` — what the receivers have got so far

## Main results

- `due_sublist` — a receiver gets no more than those before it
- `Delivered.enter`, `Delivered.hand`, `Delivered.cut`, `Delivered.leave` — the rules of the steps
-/

namespace FanOut

variable {α : Type*}

/-- A value, and the receiver that ended its round, if one did. -/
structure Round (α : Type*) where
  value : α
  endedAt : Option ℕ
  deriving DecidableEq

/-- The receiver gets the value, unless one before it ends the round. -/
def Round.seenBy (i : ℕ) (r : Round α) : Option α :=
  if ∀ k ∈ r.endedAt, i ≤ k then some r.value else none

/-- What the receiver gets of the rounds. -/
def due (i : ℕ) (rounds : List (Round α)) : List α := rounds.filterMap (Round.seenBy i)

/-- What is on its way to the receiver: the sender is about to hand the value to another one. -/
def ahead (i : ℕ) (place : Option (α × ℕ)) : List α :=
  place.elim [] fun p => if p.2 ≤ i then [p.1] else []

theorem due_cons (i : ℕ) (r : Round α) (rounds : List (Round α)) :
    due i (r :: rounds) = (r.seenBy i).toList ++ due i rounds := by
  cases h : r.seenBy i <;> simp [due, h]

theorem due_concat (i : ℕ) (rounds : List (Round α)) (r : Round α) :
    due i (rounds ++ [r]) = due i rounds ++ (r.seenBy i).toList := by
  rw [due, List.filterMap_append]
  cases h : r.seenBy i <;> simp [due, h]

@[simp] theorem Round.seenBy_whole (i : ℕ) (c : α) : Round.seenBy i ⟨c, none⟩ = some c :=
  if_pos nofun

@[simp] theorem Round.seenBy_cut (i k : ℕ) (c : α) :
    Round.seenBy i ⟨c, some k⟩ = if i ≤ k then some c else none := by
  simp [Round.seenBy]

/-- What a receiver gets is the value of a round. -/
theorem exists_of_mem_due {i : ℕ} {c : α} {rounds : List (Round α)} (h : c ∈ due i rounds) :
    ∃ r ∈ rounds, r.value = c := by
  obtain ⟨r, hr, hseen⟩ := List.mem_filterMap.mp h
  rw [Round.seenBy] at hseen
  split at hseen <;> cases hseen
  exact ⟨r, hr, rfl⟩

/-- Who sees the value of a round is not behind the one that ends it, so those before it see
the value as well. -/
theorem Round.seenBy_of_le {i j : ℕ} {r : Round α} {c : α} (hij : i ≤ j)
    (h : r.seenBy j = some c) : r.seenBy i = some c := by
  rw [Round.seenBy] at h ⊢
  split at h <;> cases h
  case isTrue hj => exact if_pos fun k hk => Nat.le_trans hij (hj k hk)

/-- A receiver gets no more than those before it, in the same order. -/
theorem due_sublist {i j : ℕ} (hij : i ≤ j) (rounds : List (Round α)) :
    (due j rounds).Sublist (due i rounds) := by
  induction rounds with
  | nil => exact .refl []
  | cons r rounds ih =>
    rw [due_cons, due_cons]
    cases hj : r.seenBy j with
    | none => exact ih.trans (List.sublist_append_right _ _)
    | some c =>
      rw [r.seenBy_of_le hij hj]
      exact (List.Sublist.refl _).append ih

/-- What `n` receivers have got from a sender, and the value in its hands. -/
structure Delivered (n : ℕ) (got : ℕ → List α) (place : Option (α × ℕ))
    (rounds : List (Round α)) : Prop where
  got : ∀ i < n, got i ++ ahead i place = due i rounds
  current : ∀ p ∈ place, ∃ front, rounds = front ++ [⟨p.1, none⟩]

variable {n k : ℕ} {got got' : ℕ → List α} {c : α} {rounds : List (Round α)}
  {place : Option (α × ℕ)}

/-- The rule for the beginning of a round. -/
theorem Delivered.enter (h : Delivered n got none rounds) (c : α) :
    Delivered n got (some (c, 0)) (rounds ++ [⟨c, none⟩]) := by
  refine ⟨fun i hi => ?_, ?_⟩
  · have hgot := h.got i hi
    rw [ahead, Option.elim_none, List.append_nil] at hgot
    rw [due_concat, Round.seenBy_whole, hgot]
    simp [ahead]
  · rintro p ⟨⟩
    exact ⟨rounds, rfl⟩

/-- The rule for a receiver that takes the value. -/
theorem Delivered.hand (h : Delivered n got (some (c, k)) rounds)
    (hk : got' k = got k ++ [c]) (hrest : ∀ i, i ≠ k → got' i = got i) :
    Delivered n got' (some (c, k + 1)) rounds := by
  refine ⟨fun i hi => ?_, ?_⟩
  · rw [← h.got i hi]
    by_cases hik : i = k
    · subst hik
      simp [hk, ahead]
    · rw [hrest i hik]
      have hiff : k + 1 ≤ i ↔ k ≤ i := by omega
      simp [ahead, hiff]
  · rintro p ⟨⟩
    exact h.current (c, k) rfl

/-- The rule for a receiver that ends the round. -/
theorem Delivered.cut (h : Delivered n got (some (c, k)) rounds)
    (hk : got' k = got k ++ [c]) (hrest : ∀ i, i ≠ k → got' i = got i) :
    Delivered n got' none (rounds.dropLast ++ [⟨c, some k⟩]) := by
  obtain ⟨front, rfl⟩ := h.current (c, k) rfl
  refine ⟨fun i hi => ?_, nofun⟩
  have hgot := h.got i hi
  rw [due_concat, Round.seenBy_whole] at hgot
  rw [List.dropLast_concat, due_concat, Round.seenBy_cut]
  simp only [ahead, Option.elim_some, Option.elim_none, List.append_nil] at hgot ⊢
  by_cases hik : i = k
  · subst hik
    simpa [hk] using hgot
  · rw [hrest i hik]
    by_cases hlt : k ≤ i
    · have hnot : ¬ i ≤ k := by omega
      simpa [hlt, hnot] using hgot
    · have hle : i ≤ k := by omega
      simpa [hlt, hle] using hgot

/-- The rule for the end of a round. -/
theorem Delivered.leave (h : Delivered n got (some (c, n)) rounds) :
    Delivered n got none rounds := by
  refine ⟨fun i hi => ?_, nofun⟩
  have hgot := h.got i hi
  have hnot : ¬ n ≤ i := by omega
  simpa [ahead, hnot] using hgot

end FanOut
