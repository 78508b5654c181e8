import LoggerHigh.Context.PoolMoves

/-!
# Tasks and the lock of the pool

Workers and the first fallback of `Enqueue_` run a task without the lock. The
second fallback, for a pool that was stopped between the two tests of `stopped_`,
runs it inside the critical section.

## Main definitions

- `runsTask`, `wantsLock` — a task is running, a call is about to lock
- `TasksUnlocked` — tasks run without the lock, and no thread waits for itself
- `PassesRunning` — the condition on a step

## Main results

- `tasks_unlocked_iff` — tasks run without the lock exactly in the runs in which no
  `Enqueue_` locks a stopped pool
- `task_under_lock` — a run in which one does
-/

namespace LoggerHigh

open Transition

/-- The innermost call is a task. -/
def runsTask : List PoolFrame → Bool
  | .inline _ :: _ | .inlineLocked _ :: _ | .running _ :: _ => true
  | _ => false

/-- The innermost call is about to lock. -/
def wantsLock : List PoolFrame → Bool
  | .locking _ :: _ | .spawning :: _ | .shutting :: _ | .swapping :: _ => true
  | _ => false

section Unlocked

variable {T : Type} [DecidableEq T] {cfg : PoolConfig} {s s' : PoolState T} {e : PoolEvent T}

/-- No task runs on the thread that holds `mtx_`, so `QueueSize` and `Enqueue_` may
lock in it; and the thread that holds `mtx_` is not about to lock it again. -/
def TasksUnlocked (s : PoolState T) : Prop :=
  ∀ θ, s.mtx = some θ → runsTask (s.stack θ) = false ∧ wantsLock (s.stack θ) = false

/-- An `Enqueue_` that found the pool running finds it running when it locks. -/
def PassesRunning (s : PoolState T) (e : PoolEvent T) : Prop :=
  ∀ θ x k, e = .advance θ → s.stack θ = .locking x :: k → s.stopped = false

/-- The lock is held by a `ReapLocked_` only. -/
def HeldByReap (s : PoolState T) : Prop :=
  ∀ θ, s.mtx = some θ → ∃ x rest k, s.stack θ = .reaping x rest :: k

omit [DecidableEq T] in
theorem HeldByReap.tasksUnlocked (h : HeldByReap s) : TasksUnlocked s := by
  intro θ hθ
  obtain ⟨x, rest, k, hstack⟩ := h θ hθ
  rw [hstack]
  exact ⟨rfl, rfl⟩

omit [DecidableEq T] in
/-- A move leaves the lock to the threads that do not move. -/
theorem PoolMove.mtx_of_ne {θ θ' : Thread T} {old new : List PoolFrame} {s₁ : PoolState T}
    (h : PoolMove cfg s θ old new s₁) (hne : θ' ≠ θ) (hθ' : s₁.mtx = some θ') :
    s.mtx = some θ' := by
  cases h with
  | lockInline | lockReap => exact absurd (Option.some.inj hθ').symm hne
  | push | pushScarce | finishLocked => cases hθ'
  | _ => exact hθ'

omit [DecidableEq T] in
/-- Unless it is the second fallback, a move of the thread that holds the lock
afterwards enters or continues `ReapLocked_`. -/
theorem PoolMove.reaping_of_holds {θ : Thread T} {old new k : List PoolFrame} {s₁ : PoolState T}
    (h : PoolMove cfg s θ old new s₁) (hstack : s.stack θ = old ++ k) (hheld : HeldByReap s)
    (hrunning : s.mtx = none → s.stopped = false) (hθ : s₁.mtx = some θ) :
    ∃ x rest, new = [.reaping x rest] := by
  cases h with
  | lockInline hfree hstopped =>
    rw [hrunning hfree] at hstopped
    cases hstopped
  | lockReap => exact ⟨_, _, rfl⟩
  | reap => exact ⟨_, _, rfl⟩
  | push | pushScarce | finishLocked => cases hθ
  | call huser =>
    obtain ⟨x, rest, k', htop⟩ := hheld θ hθ
    rw [htop] at huser
    cases huser
  | shutdown hidle =>
    obtain ⟨x, rest, k', htop⟩ := hheld θ hθ
    rw [htop] at hidle
    cases hidle
  | _ =>
    obtain ⟨x, rest, k', htop⟩ := hheld θ hθ
    rw [htop] at hstack
    cases hstack

/-- Going on with a call that is not about to lock in `Enqueue_` takes no lock. -/
theorem mtx_advance {θ : Thread T} (h : s.advance cfg θ = some s')
    (hnot : ∀ x k, s.stack θ ≠ .locking x :: k) : s'.mtx = s.mtx ∨ s'.mtx = none := by
  rw [PoolState.advance] at h
  split at h
  case h_1 x k hstack =>
    cases h
    exact .inl rfl
  case h_2 x k hstack => exact absurd hstack (hnot x k)
  case h_3 x k hstack =>
    cases h
    exact .inr rfl
  case h_4 k hstack =>
    split at h
    · cases h
      split <;> exact .inl rfl
    · cases h
  case h_5 k hstack =>
    split at h
    · split at h <;> cases h <;> exact .inl rfl
    · cases h
  case h_6 k hstack =>
    split at h
    · cases h
      exact .inl rfl
    · cases h
  case h_7 k hstack =>
    cases h
    exact .inl rfl
  case h_8 k hstack =>
    cases h
    exact .inl rfl
  case h_9 => cases h

theorem mtx_join {θ : Thread T} {n : ℕ} (h : s.join θ n = some s') : s'.mtx = s.mtx := by
  rw [PoolState.join] at h
  split at h
  · split at h
    · split at h <;> cases h
      rfl
    · split at h <;> cases h
      rfl
    · cases h
  · cases h

theorem mtx_finish {θ : Thread T} (h : s.finish θ = some s') :
    s'.mtx = s.mtx ∨ s'.mtx = none := by
  rw [PoolState.finish] at h
  split at h <;> cases h
  · exact .inl rfl
  · exact .inr rfl
  · exact .inl rfl

theorem mtx_wake {n : ℕ} (h : s.wake n = some s') : s'.mtx = s.mtx := by
  rw [PoolState.wake] at h
  split at h
  · split at h
    · split at h
      · cases h
        rfl
      · split at h <;> cases h
        rfl
    · cases h
  · cases h

theorem mtx_timeout {n : ℕ} (h : s.timeout cfg n = some s') : s'.mtx = s.mtx := by
  rw [PoolState.timeout] at h
  split at h
  · split at h
    · split at h <;> cases h <;> rfl
    · cases h
  · cases h

/-- The lock is taken by a thread that goes on with `Enqueue_`. -/
theorem eq_advance_of_locks {θ : Thread T} (hstep : s.step cfg e = some s') (hfree : s.mtx = none)
    (hθ : s'.mtx = some θ) : ∃ θ' x k, e = .advance θ' ∧ s.stack θ' = .locking x :: k := by
  by_contra hnot
  have hkept : s'.mtx = s.mtx ∨ s'.mtx = none := by
    cases e with
    | enqueue θ' =>
      change (if RunsUserCode θ' (s.stack θ') then _ else none) = _ at hstep
      split at hstep <;> cases hstep
      exact .inl rfl
    | shutdown t =>
      change (if s.stack (.inl t) = [] then _ else none) = _ at hstep
      split at hstep <;> cases hstep
      exact .inl rfl
    | timeout n => exact .inl (mtx_timeout hstep)
    | wake n => exact .inl (mtx_wake hstep)
    | join θ' n => exact .inl (mtx_join hstep)
    | finish θ' => exact mtx_finish hstep
    | advance θ' => exact mtx_advance hstep fun x k hstack => hnot ⟨θ', x, k, rfl, hstack⟩
  rw [hfree, or_self, hθ] at hkept
  cases hkept

theorem HeldByReap.step (h : HeldByReap s) (hpass : PassesRunning s e)
    (hstep : s.step cfg e = some s') : HeldByReap s' := by
  intro θ' hθ'
  have hrunning : s.mtx = none → s.stopped = false := by
    intro hfree
    obtain ⟨θ₁, x, k, he, hstack⟩ := eq_advance_of_locks hstep hfree hθ'
    exact hpass θ₁ x k he hstack
  have hchange := step_change hstep
  cases hchange with
  | idle => exact h θ' hθ'
  | @move θ old new k s₁ hstack hmove hcall =>
    by_cases hne : θ' = θ
    · subst hne
      obtain ⟨x, rest, rfl⟩ := hmove.reaping_of_holds hstack h hrunning hθ'
      exact ⟨x, rest, k, Function.update_self _ _ _⟩
    · obtain ⟨x, rest, k', htop⟩ := h θ' (hmove.mtx_of_ne hne hθ')
      refine ⟨x, rest, k', ?_⟩
      show Function.update s₁.stack θ (new ++ k) θ' = _
      rw [Function.update_of_ne hne, hmove.stack_eq, htop]
  | spawn hstack hfree =>
    have hnone : none = some θ' := hfree.symm.trans hθ'
    cases hnone

/-- A step that violates the condition runs a task under the lock. -/
theorem not_tasksUnlocked_of_locks (hpass : ¬ PassesRunning s e)
    (hstep : s.step cfg e = some s') : ¬ TasksUnlocked s' := by
  simp only [PassesRunning, not_forall, Bool.not_eq_false] at hpass
  obtain ⟨θ, x, k, rfl, hstack, hstopped⟩ := hpass
  change s.advance cfg θ = _ at hstep
  rw [PoolState.advance, hstack] at hstep
  simp only [hstopped, if_true] at hstep
  split at hstep
  · cases hstep
    intro hunlocked
    have htop := (hunlocked θ rfl).1
    simp only [PoolState.goto, Function.update_self] at htop
    cases htop
  · cases hstep

theorem mtx_iterate_spawnLocked (n : ℕ) :
    (PoolState.spawnLocked^[n] (.blank : PoolState T)).mtx = none := by
  induction n with
  | zero => rfl
  | succ n ih =>
    rw [Function.iterate_succ_apply']
    exact ih

/-- For any number of threads that call `Enqueue_` and `Shutdown` and any sizes of
the pool, at every moment of a run tasks run without the lock exactly if no
`Enqueue_` locks a pool that was stopped since its first test. -/
theorem tasks_unlocked_iff (cfg : PoolConfig) (es : List (PoolEvent T)) :
    Throughout (PoolState.step cfg.normalise) TasksUnlocked (constructed cfg.normalise) es ↔
      Along (PoolState.step cfg.normalise) PassesRunning (constructed cfg.normalise) es := by
  refine throughout_iff_along_of_kept (J := HeldByReap) (fun _ h => h.tasksUnlocked)
    (fun _ _ _ h hpass hstep => h.step hpass hstep)
    (fun _ _ _ _ hpass hstep => not_tasksUnlocked_of_locks hpass hstep) (fun θ hθ => ?_) es
  have hnone : none = some θ := (mtx_iterate_spawnLocked cfg.normalise.minThreads).symm.trans hθ
  cases hnone

end Unlocked

/-- A client has found the pool running; another one stops it; the first one locks. -/
def stoppedBetweenTests : List (PoolEvent Bool) :=
  [.enqueue (.inl true), .advance (.inl true), .shutdown false, .advance (.inl false),
    .advance (.inl true)]

/-- The task then runs while its thread holds the lock, and waits for itself when it
calls `QueueSize`. -/
theorem task_under_lock :
    ¬ ∀ (T : Type) (_ : DecidableEq T) (cfg : PoolConfig) (es : List (PoolEvent T))
      (s : PoolState T),
      run (PoolState.step cfg.normalise) (constructed cfg.normalise) es = some s →
        TasksUnlocked s := by
  intro h
  have hrun : (run (PoolState.step (PoolConfig.normalise ⟨1, 1, 1⟩))
      (constructed (PoolConfig.normalise ⟨1, 1, 1⟩)) stoppedBetweenTests).map
        (fun s => (s.mtx, s.stack (.inl true))) =
      some (some (.inl true), [.inlineLocked 0]) := by decide +kernel
  obtain ⟨s, hs, hout⟩ := Option.map_eq_some_iff.mp hrun
  obtain ⟨hmtx, hstack⟩ := Prod.mk.inj hout
  have htop := (h Bool _ ⟨1, 1, 1⟩ _ s hs (.inl true) hmtx).1
  rw [hstack] at htop
  cases htop

end LoggerHigh
