import LoggerHigh.Context.PoolProgress

/-!
# Every task is executed once, and `Shutdown` leaves nothing behind

## Main definitions

- `ExactlyOnce` — every task handed in is in one place, only ever executed once, and
  executed when the pool comes to rest, which it does
- `Staffed` — `worker_count_`, `workers_` and the worker loops agree, within the sizes
- `Cleaned` — nothing is queued, running, counted or unjoined

## Main results

- `pool_exactly_once` — these hold in every reachable state, until the stop and
  after the `Shutdown` respectively
-/

namespace LoggerHigh

open Transition

variable {T : Type} [Fintype T] [DecidableEq T]

/-- Every task handed in is executed exactly once. -/
structure ExactlyOnce (cfg : PoolConfig) (s : PoolState T) : Prop where
  /-- The task is being handed in, queued, being executed or executed, just one of
  these and just once. -/
  accounted : ∀ x < s.handedIn, s.total (.handing x) + s.tasks.count x + s.total (.executing x) +
    s.total (.inlining x) + s.done.count x + s.doneInline.count x = 1
  /-- Callers execute tasks only after the stop. -/
  inline : s.stopped = false → s.total .inlined = 0 ∧ s.doneInline = []
  /-- Without new calls the threads make a bounded number of steps. -/
  bounded : ∃ N, ∀ es s', run (PoolState.step cfg) s es = some s' →
    (∀ e ∈ es, e.isCall = false) → es.countP (fun e => !e.isTimeout) ≤ N
  /-- When they can make none, every task has been executed. -/
  executed : ¬ CanStep cfg s → ∀ x < s.handedIn, (s.done ++ s.doneInline).count x = 1

/-- The workers are counted right and within the sizes. -/
structure Staffed (cfg : PoolConfig) (s : PoolState T) : Prop where
  workers : s.workerCount = s.workers.length
  loops : s.workerCount = s.total .live
  atLeast : cfg.minThreads ≤ s.workerCount
  atMost : s.workerCount ≤ cfg.maxThreads

/-- `Shutdown` leaves nothing behind. -/
structure Cleaned (s : PoolState T) : Prop where
  tasks : s.tasks = []
  completed : ∀ x, s.done.count x = s.pushed.count x
  workerCount : s.workerCount = 0
  joined : ∀ n, s.joined.count n = if n < s.spawned then 1 else 0

variable {cfg : PoolConfig} {s : PoolState T}

omit [DecidableEq T] in
theorem PoolInv.staffed (h : PoolInv cfg s) (hrunning : s.stopped = false) : Staffed cfg s :=
  have hstaffed := h.count.staffed hrunning
  ⟨hstaffed.1, h.count.live, hstaffed.2.1, hstaffed.2.2⟩

omit [DecidableEq T] in
/-- At rest nothing is counted but workers that wait. -/
theorem Resting.total_eq_zero (h : Resting s) {q : PoolQuery}
    (hq : PoolFrame.tally q .waiting = 0) : s.total q = 0 := by
  refine Finset.sum_eq_zero fun θ _ => ?_
  cases θ with
  | inl t =>
    rw [h.client t]
    rfl
  | inr n =>
    rcases h.worker n with hended | ⟨hwaiting, -⟩
    · rw [hended]
      rfl
    · rw [hwaiting, tallies_cons, hq]
      rfl

theorem PoolInv.exactlyOnce (h : PoolInv cfg s) (hmin : 0 < cfg.minThreads) :
    ExactlyOnce cfg s where
  accounted x hx := by
    have hplaced := h.tasks.placed x
    have hqueued := h.tasks.queued x
    rw [if_pos hx] at hplaced
    omega
  inline hrunning := ⟨h.lock.inlined hrunning, h.tasks.inline hrunning⟩
  bounded := ⟨s.remaining, fun _ _ hrun hcalls => steps_le_remaining hmin h hrun hcalls⟩
  executed hstuck x hx := by
    have hrest := h.canStep_or_resting.resolve_left hstuck
    have hplaced := h.tasks.placed x
    have hqueued := h.tasks.queued x
    rw [if_pos hx, hrest.total_eq_zero rfl, hrest.total_eq_zero rfl] at hplaced
    rw [hrest.tasks, hrest.total_eq_zero rfl, List.count_nil] at hqueued
    rw [List.count_append]
    omega

omit [DecidableEq T] in
/-- When the `Shutdown` has returned, no handle is left anywhere. -/
theorem PoolInv.joined_of_shutDown (h : PoolInv cfg s) (hdown : s.shutDown = true) (n : ℕ) :
    s.joined.count n = if n < s.spawned then 1 else 0 := by
  have hphase := h.stop.phase
  have hstopped : s.stopped.toNat ≤ 1 := Bool.toNat_le _
  rw [hdown, Bool.toNat_true] at hphase
  obtain ⟨hworkers, hreap⟩ := h.stop.taken (by rw [hdown, Bool.toNat_true]; omega)
  have hreaps : s.total (.reapHandle n) = 0 := by
    refine PoolState.total_eq_zero (q := .reaps) (fun f hf => ?_)
      (h.lock.reaps (Bool.toNat_eq_one.mp (by omega)))
    cases f <;> first | rfl | cases hf
  have hjoins : s.total (.joinHandle n) = 0 := by
    refine PoolState.total_eq_zero (q := .joins) (fun f hf => ?_) (by omega)
    cases f <;> first | rfl | cases hf
  have hplaced := h.handles.placed n
  rw [hworkers, hreap, hreaps, hjoins, List.count_nil] at hplaced
  omega

omit [DecidableEq T] in
theorem PoolInv.cleaned (h : PoolInv cfg s) (hdown : s.shutDown = true) : Cleaned s := by
  have hjoined := h.joined_of_shutDown hdown
  -- every thread of the pool has ended
  have hended : ∀ n, s.stack (.inr n) = [] := by
    intro n
    by_cases hn : n < s.spawned
    · refine h.handles.joined n (List.count_pos_iff.mp ?_)
      rw [hjoined, if_pos hn]
      exact Nat.one_pos
    · exact h.unborn n (by omega)
  have hnone : ∀ q : PoolQuery, (q = .live ∨ ∃ x, q = .executing x) → s.total q = 0 := by
    refine fun q hq => Finset.sum_eq_zero fun θ _ => ?_
    cases θ with
    | inl t => exact tallies_client (h.shape _) hq
    | inr n =>
      rw [hended n]
      rfl
  have hcount : s.workerCount = 0 := h.count.live.trans (hnone _ (.inl rfl))
  have htasks : s.tasks = [] := by
    by_contra hbusy
    exact Nat.ne_of_gt (h.count.busy hbusy) hcount
  refine ⟨htasks, fun x => ?_, hcount, hjoined⟩
  have hqueued := h.tasks.queued x
  rw [htasks, hnone _ (.inr ⟨x, rfl⟩), List.count_nil] at hqueued
  omega

/-- In every run of a pool every task handed in is executed exactly once, until the
stop the workers are counted right and within the sizes, and when the `Shutdown`
that stopped the pool has returned nothing is left. -/
theorem pool_exactly_once (cfg : PoolConfig) {s : PoolState T}
    (h : Reach (PoolState.step cfg.normalise) (fun _ _ => True) (constructed cfg.normalise) s) :
    ExactlyOnce cfg.normalise s ∧ (s.stopped = false → Staffed cfg.normalise s) ∧
      (s.shutDown = true → Cleaned s) := by
  have hinv := PoolInv.reach h
  obtain ⟨hmin, -, -⟩ := cfg.normalise_valid
  exact ⟨hinv.exactlyOnce hmin, hinv.staffed, hinv.cleaned⟩

/-- A run: a second worker is spawned, a task enqueues another, the second worker
retires and is joined by a client, and a task comes after the stop. -/
def lifeOfPool : List (PoolEvent Bool) :=
  [.enqueue (.inl false), .advance (.inl false), .advance (.inl false), .advance (.inl false),
    .enqueue (.inl true), .advance (.inl true), .advance (.inl true), .advance (.inl true),
    .advance (.inl true), .wake 0, .wake 1, .finish (.inr 0), .enqueue (.inr 1),
    .advance (.inr 1), .advance (.inr 1), .advance (.inr 1), .finish (.inr 1), .wake 0,
    .timeout 1, .advance (.inr 1), .enqueue (.inl false), .advance (.inl false),
    .finish (.inr 0), .advance (.inl false), .join (.inl false) 1, .advance (.inl false),
    .wake 0, .shutdown true, .advance (.inl true), .advance (.inl true), .enqueue (.inl false),
    .advance (.inl false), .finish (.inl false), .finish (.inr 0), .wake 0, .advance (.inr 0),
    .join (.inl true) 0, .advance (.inl true)]

/-- Run to its end, that pool has executed all five tasks and joined both threads. -/
theorem pool_exactly_once_lifeOfPool :
    ∃ s, run (PoolState.step (PoolConfig.normalise ⟨0, 2, 0⟩))
        (constructed (PoolConfig.normalise ⟨0, 2, 0⟩)) lifeOfPool = some s ∧
      s.done = [0, 1, 2, 3] ∧ s.doneInline = [4] ∧ s.joined = [1, 0] ∧
      ExactlyOnce (PoolConfig.normalise ⟨0, 2, 0⟩) s ∧ Cleaned s := by
  have hrun : (run (PoolState.step (PoolConfig.normalise ⟨0, 2, 0⟩))
      (constructed (PoolConfig.normalise ⟨0, 2, 0⟩)) lifeOfPool).map
        (fun s => (s.done, s.doneInline, s.joined, s.shutDown)) =
      some ([0, 1, 2, 3], [4], [1, 0], true) := by decide +kernel
  obtain ⟨s, hs, hout⟩ := Option.map_eq_some_iff.mp hrun
  obtain ⟨hdone, hinline, hjoined, hdown⟩ :
      s.done = _ ∧ s.doneInline = _ ∧ s.joined = _ ∧ s.shutDown = _ := by
    simpa only [Prod.mk.injEq] using hout
  have hreach := pool_exactly_once ⟨0, 2, 0⟩ (.of_run (p := fun _ => True) hs fun _ _ => trivial)
  exact ⟨s, hs, hdone, hinline, hjoined, hreach.1, hreach.2.2 hdown⟩

end LoggerHigh
