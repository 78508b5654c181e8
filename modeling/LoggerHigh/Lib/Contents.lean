import Mathlib.Data.List.Nodup
import Mathlib.Logic.Function.Basic
import Mathlib.Tactic.Common

/-!
# Containers in a queue, and histories

Containers have names, and a queue lists the names of some of them. What the
queue holds is the contents of its containers, one after the other. When one
container changes, only its own part of that changes. A history that grows keeps
the places of what it has recorded.
-/

namespace Contents

variable {α β : Type*} [DecidableEq α] {l : List α} {a : α} {f : α → List β}

/-- The contents of a queue do not depend on containers that are not in it. -/
theorem flatMap_update_of_not_mem (h : a ∉ l) (x : List β) :
    l.flatMap (Function.update f a x) = l.flatMap f := by
  induction l with
  | nil => rfl
  | cons b l ih =>
    rw [List.mem_cons, not_or] at h
    rw [List.flatMap_cons, List.flatMap_cons, Function.update_of_ne (Ne.symm h.1), ih h.2]

/-- Changing a container of the queue replaces its part. -/
theorem count_flatMap_update [BEq β] (hl : l.Nodup) (ha : a ∈ l) (x : List β) (b : β) :
    (l.flatMap (Function.update f a x)).count b + (f a).count b =
      (l.flatMap f).count b + x.count b := by
  induction l with
  | nil => cases ha
  | cons c l ih =>
    rw [List.nodup_cons] at hl
    rw [List.flatMap_cons, List.flatMap_cons, List.count_append, List.count_append]
    by_cases hc : c = a
    · subst hc
      rw [Function.update_self, flatMap_update_of_not_mem hl.1]
      omega
    · have hmem : a ∈ l := (List.mem_cons.mp ha).resolve_left (Ne.symm hc)
      have := ih hl.2 hmem
      rw [Function.update_of_ne hc]
      omega

omit [DecidableEq α] in
/-- A place in a grown history that is not in the new part is one in the old part. -/
theorem exists_eq_append_of_not_mem {h obs h₁ h₂ : List α} {c : α}
    (heq : h ++ obs = h₁ ++ c :: h₂) (hc : c ∉ obs) : ∃ g, h₂ = g ++ obs ∧ h = h₁ ++ c :: g := by
  rcases List.append_eq_append_iff.mp heq with ⟨g, -, hobs⟩ | ⟨g, hh, hg⟩
  · rw [hobs] at hc
    exact absurd (List.mem_append_right _ List.mem_cons_self) hc
  · cases g with
    | nil =>
      rw [List.nil_append] at hg
      rw [← hg] at hc
      exact absurd List.mem_cons_self hc
    | cons d g =>
      rw [List.cons_append] at hg
      cases hg
      exact ⟨g, rfl, hh⟩

end Contents
