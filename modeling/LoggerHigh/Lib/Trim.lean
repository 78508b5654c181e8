import Mathlib.Algebra.BigOperators.Group.List.Basic
import Mathlib.Algebra.Ring.Nat
import Mathlib.Data.List.Infix
import Mathlib.Tactic.Common

/-!
# Taking items away until little enough is left

Items of given sizes are taken from the front of a list while what is left of a
total is too much.

## Main definitions

- `weight` — the size of several items
- `taken` — the items that are taken
- `IsShortest` — the shortest prefix without which the rest is not too much

## Main results

- `isShortest_taken`, `IsShortest.unique` — what is taken is that prefix, and there
  is only one
- `mem_taken_filter_iff` — when an item is taken
- `exists_drop_eq_filter` — when the oldest items go first, the end of the list stays
-/

namespace Trim

variable {α : Type*} (size : α → ℕ) (exceeds : ℕ → Prop)

/-- The size of several items. -/
def weight (xs : List α) : ℕ := (xs.map size).sum

/-- The items taken from `xs` while the total is `over`. -/
def taken [DecidablePred exceeds] : ℕ → List α → List α
  | _, [] => []
  | total, x :: xs => if exceeds total then x :: taken (total - size x) xs else []

/-- `p` is the shortest prefix of `xs` without which the total is not `over`, or all
of `xs` if there is none. -/
structure IsShortest (total : ℕ) (xs p : List α) : Prop where
  isPrefix : p <+: xs
  enough : ¬ exceeds (total - weight size p) ∨ p = xs
  minimal : ∀ q, q <+: p → q ≠ p → exceeds (total - weight size q)

variable {size exceeds} {total : ℕ} {x : α} {xs ys p p' : List α}

@[simp] theorem weight_nil : weight size [] = 0 := rfl

@[simp] theorem weight_cons : weight size (x :: xs) = size x + weight size xs := List.sum_cons

theorem weight_append : weight size (xs ++ ys) = weight size xs + weight size ys := by
  rw [weight, List.map_append, List.sum_append]
  rfl

theorem weight_perm (h : xs.Perm ys) : weight size xs = weight size ys :=
  (h.map size).sum_eq

theorem weight_le_of_prefix (h : p <+: xs) : weight size p ≤ weight size xs := by
  obtain ⟨rest, rfl⟩ := h
  rw [weight_append]
  omega

/-- Only totals up to the one at the start matter. -/
theorem IsShortest.congr {exceeds' : ℕ → Prop} (h : IsShortest size exceeds total xs p)
    (hover : ∀ n, n ≤ total → (exceeds n ↔ exceeds' n)) : IsShortest size exceeds' total xs p where
  isPrefix := h.isPrefix
  enough := h.enough.imp_left (mt (hover _ (Nat.sub_le _ _)).mpr)
  minimal q hq hne := (hover _ (Nat.sub_le _ _)).mp (h.minimal q hq hne)

/-- There is only one shortest prefix. -/
theorem IsShortest.unique (h : IsShortest size exceeds total xs p)
    (h' : IsShortest size exceeds total xs p') : p = p' := by
  have hone : ∀ {p p' : List α}, IsShortest size exceeds total xs p →
      IsShortest size exceeds total xs p' → p <+: p' → p = p' := by
    intro p p' h h' hpre
    by_contra hne
    have hover := h'.minimal p hpre hne
    rcases h.enough with hnot | rfl
    · exact hnot hover
    · exact hne (hpre.eq_of_length (Nat.le_antisymm hpre.length_le h'.isPrefix.length_le))
  rcases List.prefix_or_prefix_of_prefix h.isPrefix h'.isPrefix with hpre | hpre
  · exact hone h h' hpre
  · exact (hone h' h hpre).symm

section Taken

variable [DecidablePred exceeds]

theorem taken_cons_of_over (h : exceeds total) :
    taken size exceeds total (x :: xs) = x :: taken size exceeds (total - size x) xs := if_pos h

theorem taken_of_not_over (h : ¬ exceeds total) : taken size exceeds total xs = [] := by
  cases xs with
  | nil => rfl
  | cons x xs => exact if_neg h

/-- What is taken is the shortest prefix. -/
theorem isShortest_taken (total : ℕ) (xs : List α) :
    IsShortest size exceeds total xs (taken size exceeds total xs) := by
  induction xs generalizing total with
  | nil =>
    refine ⟨List.prefix_rfl, .inr rfl, fun q hq hne => ?_⟩
    exact absurd (List.prefix_nil.mp hq) hne
  | cons x xs ih =>
    by_cases hover : exceeds total
    · obtain ⟨hinit, henough, hminimal⟩ := ih (total - size x)
      rw [taken_cons_of_over hover]
      refine ⟨List.prefix_cons_inj x |>.mpr hinit, ?enough, fun q hq hne => ?minimal⟩
      case enough =>
        rw [weight_cons, ← Nat.sub_sub]
        exact henough.imp_right (congrArg (x :: ·))
      case minimal =>
        cases q with
        | nil => exact hover
        | cons y q =>
          obtain ⟨rfl, hq⟩ := List.cons_prefix_cons.mp hq
          rw [weight_cons, ← Nat.sub_sub]
          exact hminimal q hq fun heq => hne (congrArg (y :: ·) heq)
    · rw [taken_of_not_over hover]
      refine ⟨List.nil_prefix, .inl hover, fun q hq hne => ?_⟩
      exact absurd (List.prefix_nil.mp hq) hne

/-- Of the items that satisfy `q`, one is taken if the total is `over` without the
items that satisfy `q` of any prefix of those before it. -/
theorem mem_taken_filter_iff {q : α → Bool} : x ∈ taken size exceeds total (xs.filter q) ↔
    q x ∧ ∃ front back, xs = front ++ x :: back ∧
      ∀ p, p <+: front → exceeds (total - weight size (p.filter q)) := by
  induction xs generalizing total with
  | nil =>
    refine ⟨fun h => (by cases h), ?_⟩
    rintro ⟨-, front, back, h, -⟩
    cases front <;> cases h
  | cons y xs ih =>
    by_cases hover : exceeds total
    case neg =>
      rw [taken_of_not_over hover]
      refine ⟨fun h => (by cases h), ?_⟩
      rintro ⟨-, front, back, -, hfront⟩
      exact absurd (hfront [] List.nil_prefix) hover
    case pos =>
      -- what `y` takes off the total
      have hstep : ∀ p, weight size ((y :: p).filter q) =
          (if q y then size y else 0) + weight size (p.filter q) := by
        intro p
        rw [List.filter_cons]
        split
        · exact weight_cons
        · rw [Nat.zero_add]
      have hmem : x ∈ taken size exceeds total ((y :: xs).filter q) ↔
          q y ∧ x = y ∨
            x ∈ taken size exceeds (total - if q y then size y else 0) (xs.filter q) := by
        rw [List.filter_cons]
        split
        · next hy => rw [taken_cons_of_over hover, List.mem_cons, and_iff_right hy]
        · next hy => rw [Nat.sub_zero, or_iff_right fun h => hy h.1]
      rw [hmem, ih]
      constructor
      · rintro (⟨hy, rfl⟩ | ⟨hq, front, back, rfl, hfront⟩)
        · refine ⟨hy, [], xs, rfl, fun p hp => ?_⟩
          rw [List.prefix_nil.mp hp]
          exact hover
        · refine ⟨hq, y :: front, back, rfl, fun p hp => ?_⟩
          cases p with
          | nil => exact hover
          | cons z p =>
            obtain ⟨rfl, htail⟩ := List.cons_prefix_cons.mp hp
            rw [hstep, ← Nat.sub_sub]
            exact hfront p htail
      · rintro ⟨hq, front, back, h, hfront⟩
        cases front with
        | nil =>
          obtain rfl := (List.head_eq_of_cons_eq h).symm
          exact .inl ⟨hq, rfl⟩
        | cons z front =>
          obtain ⟨rfl, rfl⟩ := List.cons_eq_cons.mp h
          refine .inr ⟨hq, front, back, rfl, fun p hp => ?_⟩
          have hall := hfront (y :: p) (List.prefix_cons_inj y |>.mpr hp)
          rwa [hstep, ← Nat.sub_sub] at hall

end Taken

/-- What is kept of a list in increasing order is its end when nothing that went is older
than something that was kept. -/
theorem exists_drop_eq_filter {β : Type*} [Preorder β] {key : α → β} {keep : α → Prop}
    [DecidablePred keep] (hsorted : xs.Pairwise fun a b => key a < key b)
    (holder : ∀ a ∈ xs, ∀ b ∈ xs, ¬ keep a → keep b → key a < key b) :
    ∃ k, xs.filter keep = xs.drop k := by
  induction xs with
  | nil => exact ⟨0, rfl⟩
  | cons a xs ih =>
    obtain ⟨hhead, htail⟩ := List.pairwise_cons.mp hsorted
    by_cases ha : keep a
    · have hall : ∀ b ∈ a :: xs, keep b := by
        refine List.forall_mem_cons.mpr ⟨ha, fun b hb => by_contra fun hnot => ?_⟩
        have hlt := holder b (List.mem_cons_of_mem a hb) a List.mem_cons_self hnot ha
        exact lt_asymm hlt (hhead b hb)
      exact ⟨0, List.filter_eq_self.mpr fun b hb => decide_eq_true (hall b hb)⟩
    · obtain ⟨k, hk⟩ := ih htail fun b hb c hc =>
        holder b (List.mem_cons_of_mem a hb) c (List.mem_cons_of_mem a hc)
      refine ⟨k + 1, ?_⟩
      rw [List.filter_cons_of_neg (by simpa using ha), List.drop_succ_cons, hk]

end Trim
