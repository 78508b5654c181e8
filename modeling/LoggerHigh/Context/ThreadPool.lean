import Mathlib.Data.Finset.Sum
import LoggerHigh.Lib.ThreadSum
import LoggerHigh.Lib.Transition

/-!
# The thread pool

`ThreadPool` with any number of client threads and the worker threads it spawns.
Every call of `Enqueue_` hands in a task of its own, numbered by the call. A thread
has a stack of calls, since a task may call `Enqueue_` and a stopped pool runs the
task in the caller.

## Main definitions

- `PoolConfig`, `PoolConfig.normalise` — `Config` and what the constructor makes of it
- `PoolFrame`, `PoolState`, `PoolEvent` — the state and the steps
- `PoolState.advance`, `PoolState.wake`, `PoolState.timeout` — the critical sections
- `PoolState.step` — one step of one thread
- `constructed` — the pool after its constructor
-/

namespace LoggerHigh

open Transition

/-- The fields of `ThreadPool::Config` that decide what it does. -/
structure PoolConfig where
  minThreads : ℕ
  maxThreads : ℕ
  scaleFactor : ℕ
  deriving DecidableEq, Repr

/-- The checks of the constructor. -/
def PoolConfig.normalise (cfg : PoolConfig) : PoolConfig :=
  let cfg := if cfg.minThreads = 0 then { cfg with minThreads := 1 } else cfg
  let cfg := if cfg.maxThreads < cfg.minThreads then { cfg with maxThreads := cfg.minThreads }
    else cfg
  if cfg.scaleFactor = 0 then { cfg with scaleFactor := 1 } else cfg

/-- A client, or a thread of the pool by the number of its creation. -/
abbrev Thread (T : Type) := T ⊕ ℕ

/-- A call that has not returned. -/
inductive PoolFrame
  /-- `Enqueue_`, before it looks at `stopped_`. -/
  | enqueue (x : ℕ)
  /-- `Enqueue_`, about to lock. -/
  | locking (x : ℕ)
  /-- `Enqueue_`, running the task itself without the lock. -/
  | inline (x : ℕ)
  /-- `Enqueue_`, running the task itself while it holds the lock. -/
  | inlineLocked (x : ℕ)
  /-- `ReapLocked_` with the lock held and these threads still to join. -/
  | reaping (x : ℕ) (rest : List ℕ)
  /-- `Enqueue_`, about to lock for the second time. -/
  | spawning
  /-- `WorkerLoop_`, waiting. -/
  | waiting
  /-- `WorkerLoop_`, running a task. -/
  | running (x : ℕ)
  /-- `WorkerLoop_`, after its exit section. -/
  | leaving
  /-- `Shutdown`, about to lock. -/
  | shutting
  /-- `Shutdown`, about to lock for the second time. -/
  | swapping
  /-- `Shutdown` with these threads still to join. -/
  | joining (rest : List ℕ)
  deriving DecidableEq, Repr

/-- The members of `ThreadPool` and the stacks of all threads, innermost call
first; then the tasks handed in, pushed and executed and the threads joined. -/
structure PoolState (T : Type) where
  tasks : List ℕ
  /-- The keys of `workers_`. -/
  workers : List ℕ
  reap : List ℕ
  workerCount : ℕ
  stopped : Bool
  mtx : Option (Thread T)
  stack : Thread T → List PoolFrame
  spawned : ℕ
  handedIn : ℕ
  pushed : List ℕ
  /-- Executed by workers. -/
  done : List ℕ
  /-- Executed by callers of `Enqueue_`. -/
  doneInline : List ℕ
  joined : List ℕ
  /-- The `Shutdown` that set `stopped_` has returned. -/
  shutDown : Bool

/-- The steps of a thread. -/
inductive PoolEvent (T : Type)
  /-- User code calls `Enqueue_`. -/
  | enqueue (θ : Thread T)
  /-- A client outside of tasks calls `Shutdown`. -/
  | shutdown (t : T)
  /-- The wait of a worker times out. -/
  | timeout (n : ℕ)
  /-- The wait of a worker ends because there is a task or the pool is stopped. -/
  | wake (n : ℕ)
  /-- A member function goes on. -/
  | advance (θ : Thread T)
  /-- A `join` returns. -/
  | join (θ : Thread T) (n : ℕ)
  /-- A task returns or throws. -/
  | finish (θ : Thread T)
  deriving DecidableEq

section Step

variable {T : Type} [DecidableEq T] (cfg : PoolConfig) (s : PoolState T)

/-- The thread is at `k` now. -/
def PoolState.goto (θ : Thread T) (k : List PoolFrame) : PoolState T :=
  { s with stack := Function.update s.stack θ k }

/-- `wc < max_threads && tasks_.size() > wc * scale_factor` -/
def PoolState.needSpawn : Prop :=
  s.workerCount < cfg.maxThreads ∧ s.workerCount * cfg.scaleFactor % 2 ^ 64 < s.tasks.length

instance : Decidable (s.needSpawn cfg) := inferInstanceAs (Decidable (_ ∧ _))

/-- `SpawnLocked_` -/
def PoolState.spawnLocked : PoolState T :=
  { s.goto (.inr s.spawned) [.waiting] with
    workers := s.workers ++ [s.spawned]
    workerCount := s.workerCount + 1
    spawned := s.spawned + 1 }

/-- The exit section of `WorkerLoop_`. -/
def PoolState.exitLocked (n : ℕ) : PoolState T :=
  { s with
    reap := if n ∈ s.workers then s.reap ++ [n] else s.reap
    workers := s.workers.erase n
    workerCount := s.workerCount - 1 }

/-- The next statements of a member function, up to the next lock, join or task. -/
def PoolState.advance (θ : Thread T) : Option (PoolState T) :=
  match s.stack θ with
  | .enqueue x :: k => some (s.goto θ ((if s.stopped then .inline x else .locking x) :: k))
  | .locking x :: k =>
    if s.mtx = none then
      if s.stopped then some { s.goto θ (.inlineLocked x :: k) with mtx := some θ }
      else some { s.goto θ (.reaping x s.reap :: k) with mtx := some θ, reap := [] }
    else none
  | .reaping x [] :: k =>
    let s := { s with tasks := s.tasks ++ [x], pushed := s.pushed ++ [x], mtx := none }
    some (s.goto θ (if s.needSpawn cfg then .spawning :: k else k))
  | .spawning :: k =>
    if s.mtx = none then
      let s := s.goto θ k
      some (if s.stopped = false ∧ s.needSpawn cfg then s.spawnLocked else s)
    else none
  | .shutting :: k =>
    if s.mtx = none then
      if s.stopped then some (s.goto θ k)
      else some { s.goto θ (.swapping :: k) with stopped := true }
    else none
  | .swapping :: k =>
    if s.mtx = none then
      some { s.goto θ (.joining (s.workers ++ s.reap) :: k) with workers := [], reap := [] }
    else none
  | .joining [] :: k => some { s.goto θ k with shutDown := true }
  | .leaving :: k => some (s.goto θ k)
  | _ => none

/-- A thread returns from `join` on a thread that has ended. -/
def PoolState.join (θ : Thread T) (n : ℕ) : Option (PoolState T) :=
  if s.stack (.inr n) = [] then
    match s.stack θ with
    | .reaping x rest :: k =>
      if n ∈ rest then
        some { s.goto θ (.reaping x (rest.erase n) :: k) with joined := s.joined ++ [n] }
      else none
    | .joining rest :: k =>
      if n ∈ rest then
        some { s.goto θ (.joining (rest.erase n) :: k) with joined := s.joined ++ [n] }
      else none
    | _ => none
  else none

/-- The end of a task; what it throws is caught. -/
def PoolState.finish (θ : Thread T) : Option (PoolState T) :=
  match s.stack θ with
  | .inline x :: k => some { s.goto θ k with doneInline := s.doneInline ++ [x] }
  | .inlineLocked x :: k =>
    some { s.goto θ k with doneInline := s.doneInline ++ [x], mtx := none }
  | .running x :: k => some { s.goto θ (.waiting :: k) with done := s.done ++ [x] }
  | _ => none

/-- The critical section of `WorkerLoop_` when the predicate of the wait holds. -/
def PoolState.wake (n : ℕ) : Option (PoolState T) :=
  match s.stack (.inr n) with
  | .waiting :: k =>
    if s.mtx = none then
      match s.tasks with
      | x :: xs => some { s.goto (.inr n) (.running x :: k) with tasks := xs }
      | [] => if s.stopped then some ((s.exitLocked n).goto (.inr n) (.leaving :: k)) else none
    else none
  | _ => none

/-- The critical section of `WorkerLoop_` when the wait has timed out. -/
def PoolState.timeout (n : ℕ) : Option (PoolState T) :=
  match s.stack (.inr n) with
  | .waiting :: k =>
    if s.mtx = none ∧ s.tasks = [] ∧ s.stopped = false then
      if cfg.minThreads < s.workerCount then
        some ((s.exitLocked n).goto (.inr n) (.leaving :: k))
      else some s
    else none
  | _ => none

/-- User code is running: a client outside of the pool, or a task. -/
def RunsUserCode (θ : Thread T) : List PoolFrame → Bool
  | [] => θ.isLeft
  | .inline _ :: _ | .inlineLocked _ :: _ | .running _ :: _ => true
  | _ => false

/-- One step. -/
def PoolState.step : PoolEvent T → Option (PoolState T)
  | .enqueue θ =>
    if RunsUserCode θ (s.stack θ) then
      some { s.goto θ (.enqueue s.handedIn :: s.stack θ) with handedIn := s.handedIn + 1 }
    else none
  | .shutdown t => if s.stack (.inl t) = [] then some (s.goto (.inl t) [.shutting]) else none
  | .timeout n => s.timeout cfg n
  | .wake n => s.wake n
  | .advance θ => s.advance cfg θ
  | .join θ n => s.join θ n
  | .finish θ => s.finish θ

/-- The members before the constructor's body. -/
def PoolState.blank : PoolState T :=
  ⟨[], [], [], 0, false, none, fun _ => [], 0, 0, [], [], [], [], false⟩

/-- The pool after its constructor, which spawns `min_threads` workers. -/
def constructed : PoolState T := PoolState.spawnLocked^[cfg.minThreads] .blank

end Step

end LoggerHigh
