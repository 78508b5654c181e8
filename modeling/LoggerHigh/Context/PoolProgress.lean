import LoggerHigh.Context.PoolInvariant

/-!
# The thread pool comes to rest

Between two calls from outside the pool makes only so many steps, and where it can
make none, nothing is left to do: the clients have returned and every worker has
ended or waits for a task.

## Main definitions

- `PoolState.remaining` — a bound on the steps to come
- `CanStep`, `Resting` — some thread goes on, and no thread has anything to do

## Main results

- `steps_le_remaining` — without calls a run makes at most that many steps
- `PoolInv.canStep_or_resting` — a pool that is not at rest goes on
-/

namespace LoggerHigh

open Transition

section Bound

variable {T : Type} [Fintype T] [DecidableEq T] {cfg : PoolConfig} {s s' s₁ : PoolState T}
  {θ : Thread T} {old new k : List PoolFrame}

/-- A bound on the steps to come without a call. -/
def PoolState.remaining (s : PoolState T) : ℕ :=
  s.total .work + 3 * s.tasks.length + (s.spawned - s.joined.length)

omit [DecidableEq T] in
/-- No more threads are joined than were spawned. -/
theorem HandleInv.joined_le (h : HandleInv s) : s.joined.length ≤ s.spawned := by
  have hnodup : s.joined.Nodup := by
    refine List.nodup_iff_count_le_one.mpr fun n => ?_
    have hplaced := h.placed n
    split at hplaced <;> omega
  have hsubset : s.joined ⊆ List.range s.spawned := by
    intro n hn
    have hplaced := h.placed n
    have hcount := List.count_pos_iff.mpr hn
    refine List.mem_range.mpr ?_
    by_contra hlt
    rw [if_neg hlt] at hplaced
    omega
  have hle := (hnodup.subperm hsubset).length_le
  rwa [List.length_range] at hle

omit [Fintype T] [DecidableEq T] in
/-- A move that is no call leaves less to do. -/
theorem PoolMove.work (h : PoolMove cfg s θ old new s₁) (hold : old ≠ []) :
    tallies .work new + 3 * s₁.tasks.length + s.joined.length <
      tallies .work old + 3 * s.tasks.length + s₁.joined.length := by
  cases h <;> simp_all [PoolFrame.tally, PoolFrame.work, PoolState.exitLocked] <;> omega

theorem PoolInv.remaining_lt (h : PoolInv cfg s) (h' : PoolInv cfg s') {e : PoolEvent T}
    (hs : s.step cfg e = some s') (hcall : e.isCall = false) :
    s'.remaining + (if e.isTimeout then 0 else 1) ≤ s.remaining := by
  have hle := h.handles.joined_le
  have hle' := h'.handles.joined_le
  cases step_change hs with
  | idle htimeout => rw [if_pos htimeout, Nat.add_zero]
  | @move θ old new k s₁ hstack hmove hold =>
    have hθ := hmove.mem_threads hstack h.unborn
    have htotal := total_move hθ hstack hmove .work
    have hwork := hmove.work (hold hcall)
    have hlt : (s₁.goto θ (new ++ k)).remaining < s.remaining := by
      change s₁.joined.length ≤ s₁.spawned at hle'
      show _ + 3 * s₁.tasks.length + (s₁.spawned - s₁.joined.length) < _
      rw [hmove.spawned_eq] at hle' ⊢
      rw [PoolState.remaining]
      omega
    split <;> omega
  | @spawn θ k hstack hfree hrunning hneed =>
    have hmove : PoolMove cfg s θ [.spawning] [] s := .enough hfree
    have hθ := hmove.mem_threads hstack h.unborn
    have htotal := total_move (k := k) hθ hstack hmove .work
    have hspawn := total_spawnLocked (s.goto θ k) .work
    change _ + 4 = s.total .work + 0 at htotal
    change _ = (s.goto θ ([] ++ k)).total .work + 2 at hspawn
    have hlt : (s.goto θ k).spawnLocked.remaining < s.remaining := by
      show _ + 3 * s.tasks.length + (s.spawned + 1 - s.joined.length) < _
      rw [PoolState.remaining]
      omega
    split <;> omega

/-- A run without calls makes at most `remaining` steps, not counting waits that
time out. -/
theorem steps_le_remaining (hmin : 0 < cfg.minThreads) (h : PoolInv cfg s)
    {es : List (PoolEvent T)} (hrun : run (PoolState.step cfg) s es = some s')
    (hcalls : ∀ e ∈ es, e.isCall = false) :
    es.countP (fun e => !e.isTimeout) ≤ s.remaining := by
  induction es generalizing s with
  | nil => exact Nat.zero_le _
  | cons e es ih =>
    rw [run_cons] at hrun
    obtain ⟨s₂, hstep, hrest⟩ := Option.bind_eq_some_iff.mp hrun
    have h₂ := h.step hmin hstep
    have hlt := h.remaining_lt h₂ hstep (hcalls e List.mem_cons_self)
    have htail := ih h₂ hrest fun e' he' => hcalls e' (List.mem_cons_of_mem e he')
    rw [List.countP_cons]
    cases htimeout : e.isTimeout with
    | true =>
      rw [htimeout, if_pos rfl] at hlt
      show _ + 0 ≤ _
      omega
    | false =>
      rw [htimeout, if_neg Bool.false_ne_true] at hlt
      show _ + 1 ≤ _
      omega

end Bound

-- ═══════════════════════════════════════════════════════════════════════════
-- Progress
-- ═══════════════════════════════════════════════════════════════════════════

section Progress

variable {T : Type} [DecidableEq T] {cfg : PoolConfig} {s : PoolState T} {θ : Thread T}
  {f : PoolFrame} {k : List PoolFrame}

/-- Some thread goes on without a call from outside and without a timeout. -/
def CanStep (cfg : PoolConfig) (s : PoolState T) : Prop :=
  ∃ e s', e.isCall = false ∧ e.isTimeout = false ∧ s.step cfg e = some s'

omit [DecidableEq T] in
/-- No client is in a call, and every worker has ended or waits, with no task and
no stop to wait for. -/
structure Resting (s : PoolState T) : Prop where
  client : ∀ t, s.stack (.inl t) = []
  worker : ∀ n, s.stack (.inr n) = [] ∨ s.stack (.inr n) = [.waiting] ∧ s.stopped = false
  tasks : s.tasks = []

theorem CanStep.advance {s' : PoolState T} (h : s.advance cfg θ = some s') : CanStep cfg s :=
  ⟨.advance θ, s', rfl, rfl, h⟩

theorem CanStep.finish {s' : PoolState T} (h : s.finish θ = some s') : CanStep cfg s :=
  ⟨.finish θ, s', rfl, rfl, h⟩

theorem CanStep.join {s' : PoolState T} {n : ℕ} (h : s.join θ n = some s') : CanStep cfg s :=
  ⟨.join θ n, s', rfl, rfl, h⟩

/-- Calls that wait for nobody. -/
def PoolFrame.free : PoolFrame → Bool
  | .enqueue _ | .inline _ | .inlineLocked _ | .reaping _ [] | .running _ | .leaving
  | .joining [] => true
  | _ => false

/-- Calls that wait for the lock. -/
def PoolFrame.locks : PoolFrame → Bool
  | .locking _ | .spawning | .shutting | .swapping => true
  | _ => false

theorem canStep_of_free (hstack : s.stack θ = f :: k) (hfree : f.free) : CanStep cfg s := by
  cases f with
  | enqueue x | leaving => exact .advance (by rw [PoolState.advance, hstack])
  | inline x | inlineLocked x | running x => exact .finish (by rw [PoolState.finish, hstack])
  | reaping x rest =>
    cases rest with
    | nil => exact .advance (by rw [PoolState.advance, hstack])
    | cons => cases hfree
  | joining rest =>
    cases rest with
    | nil => exact .advance (by rw [PoolState.advance, hstack])
    | cons => cases hfree
  | _ => cases hfree

theorem canStep_of_locks (hstack : s.stack θ = f :: k) (hlocks : f.locks) (hmtx : s.mtx = none) :
    CanStep cfg s := by
  cases hs : s.advance cfg θ with
  | some s' => exact .advance hs
  | none =>
    cases f with
    | locking x | spawning | shutting | swapping =>
      rw [PoolState.advance, hstack] at hs
      simp only [hmtx, if_true] at hs
      first | cases hs | (split at hs <;> cases hs)
    | _ => cases hlocks

/-- A thread that has ended is joined. -/
theorem canStep_of_join {n : ℕ} {rest : List ℕ} (hended : s.stack (.inr n) = [])
    (hstack : (∃ x, s.stack θ = .reaping x rest :: k) ∨ s.stack θ = .joining rest :: k)
    (hn : n ∈ rest) : CanStep cfg s := by
  rcases hstack with ⟨x, hstack⟩ | hstack
  all_goals
    apply CanStep.join
    rw [PoolState.join, if_pos hended, hstack]
    exact if_pos hn

/-- A worker that waits wakes for a task or the stop. -/
theorem canStep_of_waiting {n : ℕ} (hstack : s.stack (.inr n) = .waiting :: k)
    (hmtx : s.mtx = none) (hwake : s.tasks ≠ [] ∨ s.stopped = true) : CanStep cfg s := by
  cases hs : s.wake n with
  | some s' => exact ⟨.wake n, s', rfl, rfl, hs⟩
  | none =>
    rw [PoolState.wake, hstack] at hs
    simp only [hmtx, if_true] at hs
    split at hs
    · cases hs
    · next htasks =>
      rw [if_pos (hwake.resolve_left fun hne => hne htasks)] at hs
      cases hs

omit [DecidableEq T] in
/-- A thread of the pool that runs user code is a worker in a task. -/
theorem live_pos_of_user {n : ℕ} (huser : RunsUserCode (.inr n : Thread T) k)
    (h : PoolShape (.inr n : Thread T) k) : 0 < tallies .live k := by
  induction k with
  | nil => cases huser
  | cons f k ih =>
    cases f with
    | inline x => exact Nat.lt_of_lt_of_le (ih h.1 h.2) (Nat.le_add_left _ _)
    | inlineLocked x => exact Nat.lt_of_lt_of_le (ih h.1 h.2.2) (Nat.le_add_left _ _)
    | running x => exact Nat.lt_of_lt_of_le Nat.one_pos (Nat.le_add_right 1 _)
    | _ => cases huser

/-- A thread that has passed its exit section has ended or is about to. -/
theorem canStep_or_ended {n : ℕ} (h : PoolShape (.inr n : Thread T) (s.stack (.inr n)))
    (hlive : tallies .live (s.stack (.inr n)) = 0) :
    CanStep cfg s ∨ s.stack (.inr n) = [] := by
  cases hstack : s.stack (.inr n) with
  | nil => exact .inr rfl
  | cons f k =>
    left
    rw [hstack] at h hlive
    rw [tallies_cons] at hlive
    have huser : RunsUserCode (.inr n : Thread T) k → PoolShape (.inr n : Thread T) k → False :=
      fun huser hk => Nat.ne_of_gt (live_pos_of_user huser hk) (by omega)
    cases f with
    | leaving => exact canStep_of_free hstack rfl
    | waiting | running =>
      change 1 + _ = 0 at hlive
      omega
    | shutting | swapping | joining => cases h.1
    | enqueue | inline => exact (huser h.1 h.2).elim
    | locking | inlineLocked | reaping | spawning => exact (huser h.1 h.2.2).elim

end Progress

section Rest

variable {T : Type} [Fintype T] [DecidableEq T] {cfg : PoolConfig} {s : PoolState T}

/-- The holder of the lock goes on, or the thread it waits for does. -/
theorem PoolInv.canStep_of_locked (h : PoolInv cfg s) (hmtx : s.mtx ≠ none) : CanStep cfg s := by
  have hholds : s.total .holds ≠ 0 := by
    rw [h.lock.holds, Option.isSome_iff_ne_none.mpr hmtx]
    exact Nat.one_ne_zero
  obtain ⟨θ, hθ, hne⟩ := Finset.exists_ne_zero_of_sum_ne_zero hholds
  have hshape := h.shape θ
  cases hstack : s.stack θ with
  | nil =>
    rw [hstack] at hne
    exact absurd rfl hne
  | cons f k =>
    rw [hstack] at hne hshape
    rw [tallies_cons] at hne
    cases f with
    | enqueue | inline | inlineLocked | running | leaving => exact canStep_of_free hstack rfl
    | reaping x rest =>
      cases rest with
      | nil => exact canStep_of_free hstack rfl
      | cons n rest =>
        -- the thread to join has passed its exit section
        have hle := tallies_le_total hθ (.reapHandle n)
        rw [hstack, tallies_cons] at hle
        change (n :: rest).count n + _ ≤ _ at hle
        rw [List.count_cons_self] at hle
        have hlive := h.handles.reaped n (by omega)
        have hdone : CanStep cfg s ∨ s.stack (.inr n) = [] :=
          canStep_or_ended (h.shape (.inr n)) hlive
        rcases hdone with hstep | hended
        · exact hstep
        · exact canStep_of_join hended (.inl ⟨x, hstack⟩) List.mem_cons_self
    | waiting | shutting | swapping | joining =>
      obtain ⟨-, rfl⟩ := hshape
      exact absurd rfl hne
    | locking | spawning =>
      obtain ⟨-, hk, -⟩ := hshape
      rw [hk] at hne
      exact absurd rfl hne

/-- When nobody holds the lock, a thread of the pool goes on, has ended, or waits
with nothing to wait for. -/
theorem PoolInv.canStep_or_waiting (h : PoolInv cfg s) (hmtx : s.mtx = none) (n : ℕ) :
    CanStep cfg s ∨ s.stack (.inr n) = [] ∨
      s.stack (.inr n) = [.waiting] ∧ s.stopped = false ∧ s.tasks = [] := by
  have hshape := h.shape (.inr n)
  have hborn : ∀ {f : PoolFrame} {k}, s.stack (.inr n) = f :: k → n < s.spawned := by
    intro f k hstack
    by_contra hn
    rw [h.unborn n (by omega)] at hstack
    cases hstack
  cases hstack : s.stack (.inr n) with
  | nil => exact .inr (.inl rfl)
  | cons f k =>
    rw [hstack] at hshape
    cases f with
    | enqueue | inline | inlineLocked | running | leaving => exact .inl (canStep_of_free hstack rfl)
    | locking | spawning => exact .inl (canStep_of_locks hstack rfl hmtx)
    | reaping x rest =>
      have hle := tallies_le_total (inr_mem_threads.mpr (hborn hstack)) .holds
      rw [h.lock.holds, hmtx, hstack, tallies_cons] at hle
      change 1 + _ ≤ 0 at hle
      omega
    | shutting | swapping | joining => cases hshape.1
    | waiting =>
      obtain ⟨-, rfl⟩ := hshape
      by_cases hwake : s.tasks ≠ [] ∨ s.stopped = true
      · exact .inl (canStep_of_waiting hstack hmtx hwake)
      · obtain ⟨htasks, hrunning⟩ := not_or.mp hwake
        exact .inr (.inr ⟨rfl, Bool.eq_false_of_not_eq_true hrunning, not_not.mp htasks⟩)

/-- When nobody holds the lock, a client goes on or is in no call. -/
theorem PoolInv.canStep_or_idle (h : PoolInv cfg s) (hmtx : s.mtx = none) (t : T) :
    CanStep cfg s ∨ s.stack (.inl t) = [] := by
  have hshape := h.shape (.inl t)
  cases hstack : s.stack (.inl t) with
  | nil => exact .inr rfl
  | cons f k =>
    left
    rw [hstack] at hshape
    cases f with
    | enqueue | inline | inlineLocked => exact canStep_of_free hstack rfl
    | locking | spawning | shutting | swapping => exact canStep_of_locks hstack rfl hmtx
    | waiting | running | leaving => cases hshape.1
    | reaping x rest =>
      have hle := tallies_le_total (inl_mem_threads t s.spawned) .holds
      rw [h.lock.holds, hmtx, hstack, tallies_cons] at hle
      change 1 + _ ≤ 0 at hle
      omega
    | joining rest =>
      cases rest with
      | nil => exact canStep_of_free hstack rfl
      | cons n rest =>
        have hjoins := tallies_le_total (inl_mem_threads t s.spawned) .joins
        rw [hstack, tallies_cons] at hjoins
        change 1 + _ ≤ _ at hjoins
        rcases h.canStep_or_waiting hmtx n with hstep | hended | ⟨-, hrunning, -⟩
        · exact hstep
        · exact canStep_of_join hended (.inr hstack) List.mem_cons_self
        · have hphase := h.stop.phase
          rw [hrunning, Bool.toNat_false] at hphase
          omega

/-- A pool that is not at rest goes on. -/
theorem PoolInv.canStep_or_resting (h : PoolInv cfg s) : CanStep cfg s ∨ Resting s := by
  by_cases hmtx : s.mtx = none
  · by_contra hnot
    obtain ⟨hstuck, hrest⟩ := not_or.mp hnot
    have hworker := fun n => (h.canStep_or_waiting hmtx n).resolve_left hstuck
    have hclient := fun t => (h.canStep_or_idle hmtx t).resolve_left hstuck
    refine hrest ⟨hclient, fun n => (hworker n).imp_right fun hw => ⟨hw.1, hw.2.1⟩, ?_⟩
    -- a task in the queue keeps a worker, which would take it
    by_contra htasks
    have hlive : s.total .live ≠ 0 := by
      rw [← h.count.live]
      exact Nat.ne_of_gt (h.count.busy htasks)
    obtain ⟨θ, -, hne⟩ := Finset.exists_ne_zero_of_sum_ne_zero hlive
    cases θ with
    | inl t =>
      rw [hclient t] at hne
      exact hne rfl
    | inr n =>
      rcases hworker n with hended | ⟨-, -, hnone⟩
      · rw [hended] at hne
        exact hne rfl
      · exact htasks hnone
  · exact .inl (h.canStep_of_locked hmtx)

end Rest

end LoggerHigh
