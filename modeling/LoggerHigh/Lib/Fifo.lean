import LoggerHigh.Lib.Transition

/-!
# First-in first-out queues

The specification of a queue by what can be seen of it from outside: elements
that go in and elements that come out. A system refines the queue when what it
lets in and gives out is a run of this machine.

## Main definitions

- `Op`, `step` — the queue as a machine
- `puts`, `takes` — what a run lets in and gives out

## Main results

- `puts_eq_of_run` — what goes in is what has come out, followed by what waits
-/

namespace Fifo

open Transition

variable {α : Type*}

/-- An element goes in, or comes out. -/
inductive Op (α : Type*)
  | put (a : α)
  | take (a : α)

/-- One operation of the queue; only its first element can come out. -/
def step [DecidableEq α] (q : List α) : Op α → Option (List α)
  | .put a => some (q ++ [a])
  | .take a => if q.head? = some a then some q.tail else none

/-- The elements that go in. -/
def puts (ops : List (Op α)) : List α :=
  ops.filterMap fun
    | .put a => some a
    | .take _ => none

/-- The elements that come out. -/
def takes (ops : List (Op α)) : List α :=
  ops.filterMap fun
    | .put _ => none
    | .take a => some a

variable [DecidableEq α] {q q' : List α}

theorem step_take (a : α) (q : List α) : step (a :: q) (.take a) = some q := by
  simp only [step, List.head?_cons, List.tail_cons, if_pos]

/-- An element that comes out is the first one. -/
theorem eq_cons_of_step_take {a : α} (h : step q (.take a) = some q') : q = a :: q' := by
  simp only [step] at h
  split at h
  · next hhead =>
    cases h
    exact (List.cons_head?_tail hhead).symm
  · cases h

/-- What is in the queue and what goes in comes out in that order, or waits. -/
theorem append_puts_of_run {ops : List (Op α)} (h : run step q ops = some q') :
    q ++ puts ops = takes ops ++ q' := by
  induction ops generalizing q with
  | nil =>
    cases h
    exact List.append_nil _
  | cons op ops ih =>
    obtain ⟨q₁, hstep, hrun⟩ := Option.bind_eq_some_iff.mp h
    have htail := ih hrun
    cases op with
    | put a =>
      cases hstep
      rw [List.append_assoc] at htail
      exact htail
    | take a =>
      rw [eq_cons_of_step_take hstep]
      exact congrArg (a :: ·) htail

/-- From an empty queue, what goes in is what has come out, followed by what waits. -/
theorem puts_eq_of_run {ops : List (Op α)} (h : run step [] ops = some q) :
    puts ops = takes ops ++ q := append_puts_of_run h

end Fifo
