import LoggerHigh.Context.ThreadPool

/-!
# What a step of the pool can do

A step changes the innermost call of one thread and some members of the pool.
Sums over all stacks then change by what the two calls contribute.

## Main definitions

- `PoolQuery`, `PoolFrame.tally`, `PoolState.total` — what is counted, in a call
  and over all threads
- `PoolMove`, `PoolChange` — the changes of the innermost call and of the members

## Main results

- `step_change` — every step is idle, a move, or the end of an `Enqueue_` that spawns
- `total_move`, `total_spawnLocked` — how the sums change
-/

namespace LoggerHigh

open Transition

/-- What is counted. -/
inductive PoolQuery
  /-- The task is being handed in, and not run. -/
  | handing (x : ℕ)
  /-- The task is run by a caller of `Enqueue_`. -/
  | inlining (x : ℕ)
  /-- The task is run by a worker. -/
  | executing (x : ℕ)
  /-- The thread is held by a `ReapLocked_`. -/
  | reapHandle (n : ℕ)
  /-- The thread is held by a `Shutdown`. -/
  | joinHandle (n : ℕ)
  /-- Calls that hold the lock. -/
  | holds
  /-- Calls that run a task for `Enqueue_`. -/
  | inlined
  /-- Calls of `ReapLocked_`. -/
  | reaps
  /-- Worker loops before their exit section. -/
  | live
  /-- Calls of `Shutdown` that have set `stopped_`. -/
  | swaps
  /-- Calls of `Shutdown` that have taken the threads. -/
  | joins
  /-- A bound on the steps left. -/
  | work

/-- More than what any step leaves of the call. -/
def PoolFrame.work : PoolFrame → ℕ
  | .enqueue _ => 10
  | .locking _ => 9
  | .reaping _ _ => 8
  | .spawning | .running _ => 4
  | .shutting => 3
  | .waiting | .swapping => 2
  | .inline _ | .inlineLocked _ | .leaving | .joining _ => 1

/-- What a call contributes. -/
def PoolFrame.tally : PoolQuery → PoolFrame → ℕ
  | .handing x, .enqueue y | .handing x, .locking y | .handing x, .reaping y _ => [y].count x
  | .inlining x, .inline y | .inlining x, .inlineLocked y => [y].count x
  | .executing x, .running y => [y].count x
  | .reapHandle n, .reaping _ rest => rest.count n
  | .joinHandle n, .joining rest => rest.count n
  | .holds, .inlineLocked _ | .holds, .reaping _ _ => 1
  | .inlined, .inline _ | .inlined, .inlineLocked _ => 1
  | .reaps, .reaping _ _ => 1
  | .live, .waiting | .live, .running _ => 1
  | .swaps, .swapping => 1
  | .joins, .joining _ => 1
  | .work, f => f.work
  | _, _ => 0

/-- What a stack contributes. -/
def tallies (q : PoolQuery) (k : List PoolFrame) : ℕ := (k.map (PoolFrame.tally q)).sum

@[simp] theorem tallies_nil (q : PoolQuery) : tallies q [] = 0 := rfl

@[simp] theorem tallies_cons (q : PoolQuery) (f : PoolFrame) (k : List PoolFrame) :
    tallies q (f :: k) = f.tally q + tallies q k := List.sum_cons

theorem tallies_append (q : PoolQuery) (k k' : List PoolFrame) :
    tallies q (k ++ k') = tallies q k + tallies q k' := by
  rw [tallies, List.map_append, List.sum_append]
  rfl

/-- A count vanishes where a coarser one does. -/
theorem tallies_eq_zero {q q' : PoolQuery} (himp : ∀ f : PoolFrame, f.tally q = 0 → f.tally q' = 0)
    {k : List PoolFrame} (h : tallies q k = 0) : tallies q' k = 0 := by
  induction k with
  | nil => rfl
  | cons f k ih =>
    rw [tallies_cons] at h ⊢
    have hf := himp f (by omega)
    have hk := ih (by omega)
    omega

section Total

variable {T : Type} [Fintype T] [DecidableEq T]

/-- The clients and the threads of the pool. -/
def threads (T : Type) [Fintype T] (spawned : ℕ) : Finset (Thread T) :=
  Finset.univ.disjSum (Finset.range spawned)

omit [DecidableEq T] in
theorem inl_mem_threads (t : T) (n : ℕ) : .inl t ∈ threads T n :=
  Finset.inl_mem_disjSum.mpr (Finset.mem_univ t)

omit [DecidableEq T] in
theorem inr_mem_threads {m n : ℕ} : .inr m ∈ threads T n ↔ m < n :=
  Finset.inr_mem_disjSum.trans Finset.mem_range

/-- What all threads contribute. -/
def PoolState.total (q : PoolQuery) (s : PoolState T) : ℕ :=
  ∑ θ ∈ threads T s.spawned, tallies q (s.stack θ)

omit [DecidableEq T] in
theorem tallies_le_total {s : PoolState T} {θ : Thread T} (hθ : θ ∈ threads T s.spawned)
    (q : PoolQuery) : tallies q (s.stack θ) ≤ s.total q :=
  Finset.single_le_sum (f := fun θ => tallies q (s.stack θ)) (fun _ _ => Nat.zero_le _) hθ

omit [DecidableEq T] in
/-- A count vanishes over all threads where a coarser one does. -/
theorem PoolState.total_eq_zero {s : PoolState T} {q q' : PoolQuery}
    (himp : ∀ f : PoolFrame, f.tally q = 0 → f.tally q' = 0) (h : s.total q = 0) :
    s.total q' = 0 :=
  Finset.sum_eq_zero fun _ hθ =>
    tallies_eq_zero himp (Nat.eq_zero_of_le_zero (h ▸ tallies_le_total hθ q))

/-- The innermost call of `θ` becomes `new` in place of `old`. -/
theorem total_goto {s s₁ : PoolState T} {θ : Thread T} {old new k : List PoolFrame}
    (hstack : s₁.stack = s.stack) (hspawned : s₁.spawned = s.spawned)
    (hθ : θ ∈ threads T s.spawned) (hold : s.stack θ = old ++ k) (q : PoolQuery) :
    (s₁.goto θ (new ++ k)).total q + tallies q old = s.total q + tallies q new := by
  have hsum := ThreadSum.sum_update hθ (tallies q) s.stack (new ++ k)
  rw [hold, tallies_append, tallies_append] at hsum
  have htotal : (s₁.goto θ (new ++ k)).total q =
      ∑ u ∈ threads T s.spawned, tallies q (Function.update s.stack θ (new ++ k) u) := by
    rw [PoolState.total]
    show ∑ u ∈ threads T s₁.spawned, tallies q (Function.update s₁.stack θ (new ++ k) u) = _
    rw [hstack, hspawned]
  rw [htotal, PoolState.total]
  omega

/-- A thread that is spawned waits. -/
theorem total_spawnLocked (s : PoolState T) (q : PoolQuery) :
    s.spawnLocked.total q = s.total q + PoolFrame.tally q .waiting := by
  have hrest : ∀ θ ∈ threads T s.spawned,
      tallies q (Function.update s.stack (.inr s.spawned) [.waiting] θ) =
       tallies q (s.stack θ) := by
    intro θ hθ
    have hne : θ ≠ .inr s.spawned := by
      rintro rfl
      exact Nat.lt_irrefl _ (inr_mem_threads.mp hθ)
    rw [Function.update_of_ne hne]
  show ∑ θ ∈ threads T (s.spawned + 1),
    tallies q (Function.update s.stack (.inr s.spawned) [.waiting] θ) = _
  rw [PoolState.total, ← Finset.sum_congr rfl hrest, threads, threads, Finset.sum_disjSum,
    Finset.sum_disjSum, Finset.sum_range_succ, Function.update_self, tallies_cons, tallies_nil]
  omega

end Total

-- ═══════════════════════════════════════════════════════════════════════════
-- Moves
-- ═══════════════════════════════════════════════════════════════════════════

section Moves

variable {T : Type} [DecidableEq T] {cfg : PoolConfig} {s s' : PoolState T}

/-- The innermost call of `θ` goes from `old` to `new`, and the members from those
of `s` to those of the last argument. -/
inductive PoolMove (cfg : PoolConfig) (s : PoolState T) (θ : Thread T) :
    List PoolFrame → List PoolFrame → PoolState T → Prop
  | call (huser : RunsUserCode θ (s.stack θ)) :
    PoolMove cfg s θ [] [.enqueue s.handedIn] { s with handedIn := s.handedIn + 1 }
  | shutdown (hidle : s.stack θ = []) (hclient : θ.isLeft) : PoolMove cfg s θ [] [.shutting] s
  | bypass {x : ℕ} (hstopped : s.stopped = true) : PoolMove cfg s θ [.enqueue x] [.inline x] s
  | proceed {x : ℕ} (hrunning : s.stopped = false) :
    PoolMove cfg s θ [.enqueue x] [.locking x] s
  | lockInline {x : ℕ} (hfree : s.mtx = none) (hstopped : s.stopped = true) :
    PoolMove cfg s θ [.locking x] [.inlineLocked x] { s with mtx := some θ }
  | lockReap {x : ℕ} (hfree : s.mtx = none) (hrunning : s.stopped = false) :
    PoolMove cfg s θ [.locking x] [.reaping x s.reap] { s with mtx := some θ, reap := [] }
  | push {x : ℕ} :
    PoolMove cfg s θ [.reaping x []] []
      { s with tasks := s.tasks ++ [x], pushed := s.pushed ++ [x], mtx := none }
  | pushScarce {x : ℕ} :
    PoolMove cfg s θ [.reaping x []] [.spawning]
      { s with tasks := s.tasks ++ [x], pushed := s.pushed ++ [x], mtx := none }
  | enough (hfree : s.mtx = none) : PoolMove cfg s θ [.spawning] [] s
  | stopAgain (hfree : s.mtx = none) (hstopped : s.stopped = true) :
    PoolMove cfg s θ [.shutting] [] s
  | stop (hfree : s.mtx = none) (hrunning : s.stopped = false) :
    PoolMove cfg s θ [.shutting] [.swapping] { s with stopped := true }
  | swap (hfree : s.mtx = none) :
    PoolMove cfg s θ [.swapping] [.joining (s.workers ++ s.reap)]
      { s with workers := [], reap := [] }
  | joinedAll : PoolMove cfg s θ [.joining []] [] { s with shutDown := true }
  | left : PoolMove cfg s θ [.leaving] [] s
  | reap {x n : ℕ} {rest : List ℕ} (hended : s.stack (.inr n) = []) (hn : n ∈ rest) :
    PoolMove cfg s θ [.reaping x rest] [.reaping x (rest.erase n)]
      { s with joined := s.joined ++ [n] }
  | join {n : ℕ} {rest : List ℕ} (hended : s.stack (.inr n) = []) (hn : n ∈ rest) :
    PoolMove cfg s θ [.joining rest] [.joining (rest.erase n)]
      { s with joined := s.joined ++ [n] }
  | finishInline {x : ℕ} :
    PoolMove cfg s θ [.inline x] [] { s with doneInline := s.doneInline ++ [x] }
  | finishLocked {x : ℕ} :
    PoolMove cfg s θ [.inlineLocked x] []
      { s with doneInline := s.doneInline ++ [x], mtx := none }
  | finish {x : ℕ} :
    PoolMove cfg s θ [.running x] [.waiting] { s with done := s.done ++ [x] }
  | take {n x : ℕ} {xs : List ℕ} (hn : θ = .inr n) (hfree : s.mtx = none)
    (htasks : s.tasks = x :: xs) : PoolMove cfg s θ [.waiting] [.running x] { s with tasks := xs }
  | exit {n : ℕ} (hn : θ = .inr n) (hfree : s.mtx = none) (htasks : s.tasks = [])
    (hleave : s.stopped = true ∨ cfg.minThreads < s.workerCount) :
    PoolMove cfg s θ [.waiting] [.leaving] (s.exitLocked n)

omit [DecidableEq T] in
/-- A move changes no stack by itself. -/
theorem PoolMove.stack_eq {θ : Thread T} {old new : List PoolFrame} {s₁ : PoolState T}
    (h : PoolMove cfg s θ old new s₁) : s₁.stack = s.stack := by
  cases h <;> rfl

omit [DecidableEq T] in
theorem PoolMove.spawned_eq {θ : Thread T} {old new : List PoolFrame} {s₁ : PoolState T}
    (h : PoolMove cfg s θ old new s₁) : s₁.spawned = s.spawned := by
  cases h <;> rfl

/-- User code calls a member function. -/
def PoolEvent.isCall : PoolEvent T → Bool
  | .enqueue _ | .shutdown _ => true
  | _ => false

/-- A wait times out. -/
def PoolEvent.isTimeout : PoolEvent T → Bool
  | .timeout _ => true
  | _ => false

/-- What a step does: nothing, a move, or the end of an `Enqueue_` that spawns. -/
inductive PoolChange (cfg : PoolConfig) (s : PoolState T) (e : PoolEvent T) : PoolState T → Prop
  | idle (htimeout : e.isTimeout) : PoolChange cfg s e s
  | move {θ : Thread T} {old new k : List PoolFrame} {s₁ : PoolState T}
    (hstack : s.stack θ = old ++ k) (hmove : PoolMove cfg s θ old new s₁)
    (hcall : e.isCall = false → old ≠ []) : PoolChange cfg s e (s₁.goto θ (new ++ k))
  | spawn {θ : Thread T} {k : List PoolFrame} (hstack : s.stack θ = .spawning :: k)
    (hfree : s.mtx = none) (hrunning : s.stopped = false) (hneed : s.needSpawn cfg) :
    PoolChange cfg s e (s.goto θ k).spawnLocked

/-- The change of a move that does not call. -/
theorem PoolChange.of_move {e : PoolEvent T} {θ : Thread T} {f : PoolFrame}
    {new k : List PoolFrame} {s₁ : PoolState T} (hstack : s.stack θ = f :: k)
    (hmove : PoolMove cfg s θ [f] new s₁) : PoolChange cfg s e (s₁.goto θ (new ++ k)) :=
  .move (show s.stack θ = [f] ++ k from hstack) hmove fun _ => List.cons_ne_nil _ _

theorem advance_change {e : PoolEvent T} {θ : Thread T} (h : s.advance cfg θ = some s') :
    PoolChange cfg s e s' := by
  rw [PoolState.advance] at h
  split at h
  · next x k hstack =>
    cases h
    split
    · next hstopped => exact .of_move hstack (.bypass hstopped)
    · next hrunning => exact .of_move hstack (.proceed (Bool.eq_false_of_not_eq_true hrunning))
  · next x k hstack =>
    split at h
    · next hfree =>
      split at h
      · next hstopped =>
        cases h
        exact .of_move hstack (.lockInline hfree hstopped)
      · next hrunning =>
        cases h
        exact .of_move hstack (.lockReap hfree (Bool.eq_false_of_not_eq_true hrunning))
    · cases h
  · next x k hstack =>
    cases h
    split
    · exact .of_move hstack .pushScarce
    · exact .of_move hstack .push
  · next k hstack =>
    split at h
    · next hfree =>
      cases h
      split
      · next hneed => exact .spawn hstack hfree hneed.1 hneed.2
      · exact .of_move hstack (.enough hfree)
    · cases h
  · next k hstack =>
    split at h
    · next hfree =>
      split at h
      · next hstopped =>
        cases h
        exact .of_move hstack (.stopAgain hfree hstopped)
      · next hrunning =>
        cases h
        exact .of_move hstack (.stop hfree (Bool.eq_false_of_not_eq_true hrunning))
    · cases h
  · next k hstack =>
    split at h
    · next hfree =>
      cases h
      exact .of_move hstack (.swap hfree)
    · cases h
  · next k hstack =>
    cases h
    exact .of_move hstack .joinedAll
  · next k hstack =>
    cases h
    exact .of_move hstack .left
  · cases h

theorem join_change {e : PoolEvent T} {θ : Thread T} {n : ℕ} (h : s.join θ n = some s') :
    PoolChange cfg s e s' := by
  rw [PoolState.join] at h
  split at h
  · next hended =>
    split at h
    · next x rest k hstack =>
      split at h
      · next hn =>
        cases h
        exact .of_move hstack (.reap hended hn)
      · cases h
    · next rest k hstack =>
      split at h
      · next hn =>
        cases h
        exact .of_move hstack (.join hended hn)
      · cases h
    · cases h
  · cases h

theorem finish_change {e : PoolEvent T} {θ : Thread T} (h : s.finish θ = some s') :
    PoolChange cfg s e s' := by
  rw [PoolState.finish] at h
  split at h
  · next x k hstack =>
    cases h
    exact .of_move hstack .finishInline
  · next x k hstack =>
    cases h
    exact .of_move hstack .finishLocked
  · next x k hstack =>
    cases h
    exact .of_move hstack .finish
  · cases h

theorem wake_change {e : PoolEvent T} {n : ℕ} (h : s.wake n = some s') :
    PoolChange cfg s e s' := by
  rw [PoolState.wake] at h
  split at h
  · next k hstack =>
    split at h
    · next hfree =>
      split at h
      · next x xs htasks =>
        cases h
        exact .of_move hstack (.take rfl hfree htasks)
      · next htasks =>
        split at h
        · next hstopped =>
          cases h
          exact .of_move hstack (.exit rfl hfree htasks (.inl hstopped))
        · cases h
    · cases h
  · cases h

theorem timeout_change {n : ℕ} (h : s.timeout cfg n = some s') :
    PoolChange cfg s (.timeout n) s' := by
  rw [PoolState.timeout] at h
  split at h
  · next k hstack =>
    split at h
    · next hfree =>
      split at h
      · next hmin =>
        cases h
        exact .of_move hstack (.exit rfl hfree.1 hfree.2.1 (.inr hmin))
      · cases h
        exact .idle rfl
    · cases h
  · cases h

/-- Every step changes the pool in one of these ways. -/
theorem step_change {e : PoolEvent T} (h : s.step cfg e = some s') : PoolChange cfg s e s' := by
  cases e with
  | enqueue θ =>
    change (if RunsUserCode θ (s.stack θ) then _ else none) = _ at h
    split at h
    · next huser =>
      cases h
      have hnone : s.stack θ = [] ++ s.stack θ := rfl
      exact .move hnone (.call huser) fun hcall => Bool.noConfusion hcall
    · cases h
  | shutdown t =>
    change (if s.stack (.inl t) = [] then _ else none) = _ at h
    split at h
    · next hidle =>
      cases h
      have hnone : s.stack (.inl t) = [] ++ [] := hidle
      exact .move hnone (.shutdown hidle rfl) fun hcall => Bool.noConfusion hcall
    · cases h
  | timeout n => exact timeout_change h
  | wake n => exact wake_change h
  | advance θ => exact advance_change h
  | join θ n => exact join_change h
  | finish θ => exact finish_change h

end Moves

section TotalMove

variable {T : Type} [Fintype T] [DecidableEq T] {cfg : PoolConfig} {s : PoolState T}

/-- The sums after a move. -/
theorem total_move {θ : Thread T} {old new k : List PoolFrame} {s₁ : PoolState T}
    (hθ : θ ∈ threads T s.spawned) (hstack : s.stack θ = old ++ k)
    (hmove : PoolMove cfg s θ old new s₁) (q : PoolQuery) :
    (s₁.goto θ (new ++ k)).total q + tallies q old = s.total q + tallies q new :=
  total_goto hmove.stack_eq hmove.spawned_eq hθ hstack q

end TotalMove

end LoggerHigh
