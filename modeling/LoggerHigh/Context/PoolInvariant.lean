import LoggerHigh.Context.PoolMoves

/-!
# The invariant of the thread pool

## Main definitions

- `PoolShape` — the stacks that occur
- `LockInv`, `TaskInv`, `HandleInv`, `CountInv`, `StopInv` — who holds the lock, where
  each task is, who can still join each thread, what `worker_count_` counts and how
  far `Shutdown` has come
- `PoolInv` — all of them

## Main results

- `PoolInv.step` — every step keeps the invariant
- `PoolInv.reach` — it holds in every reachable state
-/

namespace LoggerHigh

open Transition

section Shape

variable {T : Type}

/-- The stacks that occur: user code calls `Enqueue_` and nothing else, and what
waits for the lock or holds it was not called under the lock. -/
def PoolShape (θ : Thread T) : List PoolFrame → Prop
  | [] => True
  | .enqueue _ :: k | .inline _ :: k => RunsUserCode θ k ∧ PoolShape θ k
  | .locking _ :: k | .inlineLocked _ :: k | .reaping _ _ :: k | .spawning :: k =>
    RunsUserCode θ k ∧ tallies .holds k = 0 ∧ PoolShape θ k
  | .waiting :: k | .running _ :: k | .leaving :: k => θ.isRight ∧ k = []
  | .shutting :: k | .swapping :: k | .joining _ :: k => θ.isLeft ∧ k = []

/-- Below user code only tasks that callers run hold the lock. -/
theorem holds_le_inlined {θ : Thread T} {k : List PoolFrame} (huser : RunsUserCode θ k)
    (h : PoolShape θ k) : tallies .holds k ≤ tallies .inlined k := by
  induction k with
  | nil => exact Nat.le_refl _
  | cons f k ih =>
    cases f with
    | inline x =>
      have htail := ih h.1 h.2
      rw [tallies_cons, tallies_cons]
      change 0 + _ ≤ 1 + _
      omega
    | inlineLocked x => exact Nat.add_le_add_left (ih h.1 h.2.2) 1
    | running x =>
      obtain ⟨-, rfl⟩ := h
      exact Nat.le_refl _
    | _ => cases huser

/-- A client has no frame of a worker. -/
theorem tallies_client {q : PoolQuery} {t : T} {k : List PoolFrame} (h : PoolShape (.inl t) k)
    (hq : q = .live ∨ ∃ x, q = .executing x) : tallies q k = 0 := by
  induction k with
  | nil => rfl
  | cons f k ih =>
    have hhead : f.tally q = 0 ∧ PoolShape (.inl t) k := by
      obtain rfl | ⟨x, rfl⟩ := hq <;> cases f <;> first
        | exact ⟨rfl, h.2⟩
        | exact ⟨rfl, h.2.2⟩
        | exact absurd h.1 Bool.false_ne_true
        | exact ⟨rfl, h.2 ▸ trivial⟩
    rw [tallies_cons, hhead.1, ih hhead.2]

end Shape

-- ═══════════════════════════════════════════════════════════════════════════
-- What a move does to each count
-- ═══════════════════════════════════════════════════════════════════════════

section Spec
variable {T : Type} {cfg : PoolConfig} {s s₁ : PoolState T}
  {θ : Thread T} {old new k : List PoolFrame}

attribute [local simp] PoolFrame.tally PoolState.exitLocked

/-- A move takes or releases the lock as its calls say. -/
theorem PoolMove.holds (h : PoolMove cfg s θ old new s₁)
    (hheld : 0 < tallies .holds old → s.mtx.isSome) :
    tallies .holds new + s.mtx.isSome.toNat = tallies .holds old + s₁.mtx.isSome.toNat := by
  cases h <;> simp_all

/-- Callers run tasks only when the pool is stopped. -/
theorem PoolMove.inlined (h : PoolMove cfg s θ old new s₁) (hrunning : s₁.stopped = false) :
    s.stopped = false ∧ tallies .inlined new ≤ tallies .inlined old := by
  cases h <;> simp_all

/-- `ReapLocked_` is called only when the pool is not stopped. -/
theorem PoolMove.reaps (h : PoolMove cfg s θ old new s₁) (hstopped : s₁.stopped = true) :
    tallies .reaps new ≤ tallies .reaps old ∧ (s.stopped = true ∨ s.mtx = none) := by
  cases h <;> simp_all

/-- A move passes each task on. -/
theorem PoolMove.placed (h : PoolMove cfg s θ old new s₁) (x : ℕ) :
    tallies (.handing x) new + tallies (.inlining x) new + s₁.pushed.count x +
        s₁.doneInline.count x + (if x < s.handedIn then 1 else 0) =
      tallies (.handing x) old + tallies (.inlining x) old + s.pushed.count x +
        s.doneInline.count x + (if x < s₁.handedIn then 1 else 0) := by
  cases h <;> simp [List.count_singleton] <;> grind

/-- A task that was pushed goes from the queue to a worker. -/
theorem PoolMove.queued (h : PoolMove cfg s θ old new s₁) (x : ℕ) :
    s₁.pushed.count x + s.tasks.count x + tallies (.executing x) old + s.done.count x =
      s.pushed.count x + s₁.tasks.count x + tallies (.executing x) new + s₁.done.count x := by
  cases h <;> simp_all [List.count_cons] <;> omega

theorem count_erase_add {n : ℕ} {l : List ℕ} (hn : n ∈ l) (m : ℕ) :
    (l.erase n).count m + [n].count m = l.count m := by
  have hcount := (List.perm_cons_erase hn).count_eq m
  rw [List.count_cons] at hcount
  rw [List.count_singleton, hcount]

/-- The exit section keeps the handle. -/
theorem exitLocked_handles (n m : ℕ) :
    (s.exitLocked n).workers.count m + (s.exitLocked n).reap.count m =
      s.workers.count m + s.reap.count m := by
  show (s.workers.erase n).count m + (if n ∈ s.workers then s.reap ++ [n] else s.reap).count m = _
  split
  · next hn =>
    have herase := count_erase_add hn m
    rw [List.count_append]
    omega
  · next hn => rw [List.erase_of_not_mem hn]

/-- The handle of each thread stays somewhere. -/
theorem PoolMove.handles (h : PoolMove cfg s θ old new s₁) (n : ℕ) :
    s₁.workers.count n + s₁.reap.count n + s₁.joined.count n + tallies (.reapHandle n) new +
        tallies (.joinHandle n) new =
      s.workers.count n + s.reap.count n + s.joined.count n + tallies (.reapHandle n) old +
        tallies (.joinHandle n) old := by
  cases h with
  | @exit m =>
    have hexit := exitLocked_handles (s := s) m n
    simp only [tallies_cons, tallies_nil, PoolFrame.tally]
    change _ + s.joined.count n + _ + _ = _
    omega
  | @reap x m rest hended hm | @join m rest hended hm =>
    have herase := count_erase_add hm n
    simp only [tallies_cons, tallies_nil, PoolFrame.tally, List.count_append]
    omega
  | _ =>
    simp only [tallies_cons, tallies_nil, PoolFrame.tally, List.count_append, List.count_nil]
    try omega

/-- A worker loop ends in its exit section. -/
theorem PoolMove.live (h : PoolMove cfg s θ old new s₁)
    (hlive : tallies .live old ≤ s.workerCount) :
    s₁.workerCount + tallies .live old = s.workerCount + tallies .live new := by
  cases h <;> simp_all

/-- `Shutdown` goes on. -/
theorem PoolMove.phase (h : PoolMove cfg s θ old new s₁)
    (hphase : tallies .joins old + s.shutDown.toNat ≤ 1) :
    tallies .swaps new + tallies .joins new + s₁.shutDown.toNat + s.stopped.toNat =
      tallies .swaps old + tallies .joins old + s.shutDown.toNat + s₁.stopped.toNat := by
  cases h with
  | stop hfree hrunning =>
    simp only [tallies_cons, tallies_nil, PoolFrame.tally, hrunning, Bool.toNat_true,
      Bool.toNat_false]
    omega
  | _ => simp_all

/-- Once `Shutdown` has taken the threads, the containers stay empty. -/
theorem PoolMove.taken (h : PoolMove cfg s θ old new s₁) (hempty : s.workers = [] ∧ s.reap = []) :
    s₁.workers = [] ∧ s₁.reap = [] := by
  cases h <;> simp_all

/-- A thread whose handle comes to `reap_` has passed its exit section. -/
theorem PoolMove.reaped (h : PoolMove cfg s θ old new s₁) (n : ℕ) :
    s₁.reap.count n + tallies (.reapHandle n) new ≤
        s.reap.count n + tallies (.reapHandle n) old ∨
      θ = .inr n ∧ old = [.waiting] ∧ new = [.leaving] := by
  cases h with
  | @exit m hm =>
    by_cases hmn : n = m
    · exact .inr ⟨hmn ▸ hm, rfl, rfl⟩
    · left
      show (if m ∈ s.workers then s.reap ++ [m] else s.reap).count n + 0 ≤ s.reap.count n + 0
      split
      · rw [List.count_append, List.count_singleton]
        simp [Ne.symm hmn]
      · exact Nat.le_refl _
  | @reap x m rest hended hm =>
    have herase := count_erase_add hm n
    simp only [tallies_cons, tallies_nil, PoolFrame.tally]
    omega
  | _ => simp

/-- A thread that is joined has ended. -/
theorem PoolMove.joined (h : PoolMove cfg s θ old new s₁) {n : ℕ} (hn : n ∈ s₁.joined) :
    n ∈ s.joined ∨ s.stack (.inr n) = [] := by
  cases h with
  | reap hended | join hended =>
    rcases List.mem_append.mp hn with hold | hnew
    · exact .inl hold
    · exact .inr (List.mem_singleton.mp hnew ▸ hended)
  | _ => exact .inl hn

/-- No move makes a worker of another call. -/
theorem PoolMove.live_le (h : PoolMove cfg s θ old new s₁) :
    tallies .live new ≤ tallies .live old := by
  cases h <;> simp

/-- A thread of the pool that has ended makes no move. -/
theorem PoolMove.stack_ne_nil {n : ℕ} (h : PoolMove cfg s (.inr n) old new s₁)
    (hstack : s.stack (.inr n) = old ++ k) : s.stack (.inr n) ≠ [] := by
  intro hnil
  cases h with
  | call huser =>
    rw [hnil] at huser
    cases huser
  | shutdown _ hclient => cases hclient
  | _ =>
    rw [hnil] at hstack
    cases hstack

end Spec

-- ═══════════════════════════════════════════════════════════════════════════
-- The invariant
-- ═══════════════════════════════════════════════════════════════════════════

section Invariant

variable {T : Type} [Fintype T] [DecidableEq T]

/-- At most one call holds the lock. Callers run tasks only when the pool is
stopped, and join only when it is not. -/
structure LockInv (s : PoolState T) : Prop where
  holds : s.total .holds = s.mtx.isSome.toNat
  inlined : s.stopped = false → s.total .inlined = 0
  reaps : s.stopped = true → s.total .reaps = 0

/-- Every task that was handed in is in one place, and every task that was pushed
is in the queue, at a worker or done. -/
structure TaskInv (s : PoolState T) : Prop where
  placed : ∀ x, s.total (.handing x) + s.total (.inlining x) + s.pushed.count x +
    s.doneInline.count x = if x < s.handedIn then 1 else 0
  queued : ∀ x, s.pushed.count x = s.tasks.count x + s.total (.executing x) + s.done.count x
  inline : s.stopped = false → s.doneInline = []

/-- The handle of every thread is in one place, and where it can be joined by
`ReapLocked_` the thread has passed its exit section. -/
structure HandleInv (s : PoolState T) : Prop where
  placed : ∀ n, s.workers.count n + s.reap.count n + s.joined.count n +
    s.total (.reapHandle n) + s.total (.joinHandle n) = if n < s.spawned then 1 else 0
  reaped : ∀ n, 0 < s.reap.count n + s.total (.reapHandle n) →
    tallies .live (s.stack (.inr n)) = 0
  joined : ∀ n ∈ s.joined, s.stack (.inr n) = []

/-- `worker_count_` counts the worker loops, which until the stop are those in
`workers_`. -/
structure CountInv (cfg : PoolConfig) (s : PoolState T) : Prop where
  live : s.workerCount = s.total .live
  staffed : s.stopped = false →
    s.workerCount = s.workers.length ∧ cfg.minThreads ≤ s.workerCount ∧
      s.workerCount ≤ cfg.maxThreads
  busy : s.tasks ≠ [] → 0 < s.workerCount

/-- One `Shutdown` has set `stopped_`; when it has taken the threads, none are
left in the containers. -/
structure StopInv (s : PoolState T) : Prop where
  phase : s.total .swaps + s.total .joins + s.shutDown.toNat = s.stopped.toNat
  taken : 0 < s.total .joins + s.shutDown.toNat → s.workers = [] ∧ s.reap = []

/-- The invariant of the pool. -/
structure PoolInv (cfg : PoolConfig) (s : PoolState T) : Prop where
  shape : ∀ θ, PoolShape θ (s.stack θ)
  unborn : ∀ n, s.spawned ≤ n → s.stack (.inr n) = []
  lock : LockInv s
  tasks : TaskInv s
  handles : HandleInv s
  count : CountInv cfg s
  stop : StopInv s

section Move

variable {cfg : PoolConfig} {s s₁ : PoolState T} {θ : Thread T} {old new k : List PoolFrame}

omit [DecidableEq T] in
theorem old_le_total (hθ : θ ∈ threads T s.spawned) (hstack : s.stack θ = old ++ k)
    (q : PoolQuery) : tallies q old ≤ s.total q := by
  have hle := tallies_le_total hθ q
  rw [hstack, tallies_append] at hle
  omega

omit [DecidableEq T] in
/-- Only a thread that was spawned moves. -/
theorem PoolMove.mem_threads (hmove : PoolMove cfg s θ old new s₁) (hstack : s.stack θ = old ++ k)
    (hunborn : ∀ n, s.spawned ≤ n → s.stack (.inr n) = []) : θ ∈ threads T s.spawned := by
  cases θ with
  | inl t => exact inl_mem_threads t _
  | inr n =>
    refine inr_mem_threads.mpr ?_
    by_contra hn
    exact hmove.stack_ne_nil hstack (hunborn n (by omega))

theorem LockInv.move (h : LockInv s) (hθ : θ ∈ threads T s.spawned) (hstack : s.stack θ = old ++ k)
    (hmove : PoolMove cfg s θ old new s₁) : LockInv (s₁.goto θ (new ++ k)) := by
  constructor
  · show _ = s₁.mtx.isSome.toNat
    have hheld : 0 < tallies .holds old → s.mtx.isSome := by
      intro hpos
      have hle := old_le_total hθ hstack .holds
      rw [h.holds] at hle
      exact Bool.toNat_eq_one.mp (Nat.le_antisymm (Bool.toNat_le _) (by omega))
    have htotal := total_move hθ hstack hmove .holds
    have hlock := hmove.holds hheld
    have hholds := h.holds
    omega
  · intro hrunning
    have htotal := total_move hθ hstack hmove .inlined
    obtain ⟨hrunning, hle⟩ := hmove.inlined hrunning
    have hnone := h.inlined hrunning
    omega
  · intro hstopped
    have htotal := total_move hθ hstack hmove .reaps
    obtain ⟨hle, hbefore⟩ := hmove.reaps hstopped
    have hnone : s.total .reaps = 0 := by
      rcases hbefore with hstopped | hfree
      · exact h.reaps hstopped
      · refine PoolState.total_eq_zero (q := .holds) (fun f hf => ?_) (by rw [h.holds, hfree]; rfl)
        cases f <;> first | rfl | exact hf
    omega

theorem TaskInv.move (h : TaskInv s) (hlock : LockInv s) (hθ : θ ∈ threads T s.spawned)
    (hstack : s.stack θ = old ++ k) (hmove : PoolMove cfg s θ old new s₁) :
    TaskInv (s₁.goto θ (new ++ k)) := by
  constructor
  · intro x
    have hhanding := total_move hθ hstack hmove (.handing x)
    have hinlining := total_move hθ hstack hmove (.inlining x)
    have hplaced := hmove.placed x
    have hbefore := h.placed x
    show _ + s₁.pushed.count x + s₁.doneInline.count x = if x < s₁.handedIn then 1 else 0
    omega
  · intro x
    have hexecuting := total_move hθ hstack hmove (.executing x)
    have hqueued := hmove.queued x
    have hbefore := h.queued x
    show s₁.pushed.count x = s₁.tasks.count x + _ + s₁.done.count x
    omega
  · intro hrunning
    obtain ⟨hrunning, -⟩ := hmove.inlined hrunning
    have hnone := old_le_total hθ hstack .inlined
    rw [hlock.inlined hrunning] at hnone
    have hbefore := h.inline hrunning
    cases hmove with
    | finishInline | finishLocked => cases hnone
    | _ => exact hbefore

omit [Fintype T] in
/-- The stacks after a move. -/
theorem stack_move (hmove : PoolMove cfg s θ old new s₁) (θ' : Thread T) :
    (s₁.goto θ (new ++ k)).stack θ' = if θ' = θ then new ++ k else s.stack θ' := by
  show Function.update s₁.stack θ (new ++ k) θ' = _
  rw [hmove.stack_eq, Function.update_apply]

omit [Fintype T] in
/-- No thread becomes a worker by a move. -/
theorem live_move (hstack : s.stack θ = old ++ k) (hmove : PoolMove cfg s θ old new s₁)
    (θ' : Thread T) :
    tallies .live ((s₁.goto θ (new ++ k)).stack θ') ≤ tallies .live (s.stack θ') := by
  rw [stack_move hmove]
  split
  · next hθ =>
    have hle := hmove.live_le
    rw [hθ, hstack, tallies_append, tallies_append]
    omega
  · exact Nat.le_refl _

theorem HandleInv.move (h : HandleInv s) (hshape : PoolShape θ (s.stack θ))
    (hθ : θ ∈ threads T s.spawned) (hstack : s.stack θ = old ++ k)
    (hmove : PoolMove cfg s θ old new s₁) : HandleInv (s₁.goto θ (new ++ k)) := by
  constructor
  · intro n
    have hreap := total_move hθ hstack hmove (.reapHandle n)
    have hjoin := total_move hθ hstack hmove (.joinHandle n)
    have hhandles := hmove.handles n
    have hbefore := h.placed n
    show s₁.workers.count n + s₁.reap.count n + s₁.joined.count n + _ + _ =
      if n < s₁.spawned then 1 else 0
    rw [hmove.spawned_eq]
    omega
  · intro n hpos
    change 0 < s₁.reap.count n + _ at hpos
    rcases hmove.reaped n with hle | ⟨rfl, rfl, rfl⟩
    · have hreap := total_move hθ hstack hmove (.reapHandle n)
      have hbefore := h.reaped n (by omega)
      have hlive := live_move hstack hmove (.inr n)
      omega
    · -- the exit section was that of the thread itself
      rw [stack_move hmove, if_pos rfl]
      rw [hstack] at hshape
      obtain ⟨-, rfl⟩ := hshape
      rfl
  · intro n hn
    have hended : s.stack (.inr n) = [] := (hmove.joined hn).elim (h.joined n) id
    rw [stack_move hmove, if_neg]
    · exact hended
    · rintro rfl
      exact hmove.stack_ne_nil hstack hended

omit [DecidableEq T] in
/-- Until the stop, the handle of a worker that waits is in `workers_`. -/
theorem PoolInv.waiting_mem_workers (h : PoolInv cfg s) {n : ℕ}
    (hstack : s.stack (.inr n) = .waiting :: k) (hrunning : s.stopped = false) :
    n ∈ s.workers := by
  have hborn : n < s.spawned := by
    by_contra hn
    rw [h.unborn n (by omega)] at hstack
    cases hstack
  have hlive : 0 < tallies .live (s.stack (.inr n)) := by
    rw [hstack, tallies_cons]
    exact Nat.lt_of_lt_of_le Nat.one_pos (Nat.le_add_right 1 _)
  have hreap : s.reap.count n + s.total (.reapHandle n) = 0 := by
    by_contra hpos
    rw [h.handles.reaped n (by omega)] at hlive
    exact Nat.lt_irrefl 0 hlive
  have hjoined : s.joined.count n = 0 := by
    refine List.count_eq_zero.mpr fun hn => ?_
    rw [h.handles.joined n hn] at hstack
    cases hstack
  have hjoin : s.total (.joinHandle n) = 0 := by
    refine PoolState.total_eq_zero (q := .joins) (fun f hf => ?_) ?_
    · cases f <;> first | rfl | cases hf
    · have hphase := h.stop.phase
      rw [hrunning, Bool.toNat_false] at hphase
      omega
  have hplaced := h.handles.placed n
  rw [if_pos hborn] at hplaced
  exact List.count_pos_iff.mp (by omega)

theorem CountInv.move (h : PoolInv cfg s) (hmin : 0 < cfg.minThreads)
    (hθ : θ ∈ threads T s.spawned) (hstack : s.stack θ = old ++ k)
    (hmove : PoolMove cfg s θ old new s₁) : CountInv cfg (s₁.goto θ (new ++ k)) := by
  have hlive := h.count.live
  have htotal := total_move hθ hstack hmove .live
  have hle := old_le_total hθ hstack .live
  have hcount := hmove.live (by omega)
  constructor
  · show s₁.workerCount = _
    omega
  · intro hrunning
    show s₁.workerCount = s₁.workers.length ∧ cfg.minThreads ≤ s₁.workerCount ∧
      s₁.workerCount ≤ cfg.maxThreads
    obtain ⟨hstill, -⟩ := hmove.inlined hrunning
    have hbefore := h.count.staffed hstill
    cases hmove with
    | exit hn hfree htasks hleave =>
      subst hn
      have hmem := h.waiting_mem_workers hstack hstill
      have hleave := hleave.resolve_left (by rw [hstill]; exact Bool.false_ne_true)
      show s.workerCount - 1 = (s.workers.erase _).length ∧ _ ≤ s.workerCount - 1 ∧
        s.workerCount - 1 ≤ _
      rw [List.length_erase_of_mem hmem]
      omega
    | swap hfree =>
      have hphase := h.stop.phase
      rw [hstill, Bool.toNat_false] at hphase
      have hswap := old_le_total hθ hstack .swaps
      change 1 ≤ _ at hswap
      omega
    | _ => exact hbefore
  · intro hbusy
    show 0 < s₁.workerCount
    cases hmove with
    | exit hn hfree htasks hleave => exact absurd htasks hbusy
    | take hn hfree htasks =>
      exact h.count.busy (by rw [htasks]; exact List.cons_ne_nil _ _)
    | push | pushScarce =>
      have hrunning : s.stopped = false := by
        by_contra hstopped
        have hreaps := old_le_total hθ hstack .reaps
        rw [h.lock.reaps (Bool.eq_true_of_not_eq_false hstopped)] at hreaps
        cases hreaps
      have hstaffed := h.count.staffed hrunning
      exact Nat.lt_of_lt_of_le hmin hstaffed.2.1
    | _ => exact h.count.busy hbusy

theorem StopInv.move (h : StopInv s) (hθ : θ ∈ threads T s.spawned)
    (hstack : s.stack θ = old ++ k) (hmove : PoolMove cfg s θ old new s₁) :
    StopInv (s₁.goto θ (new ++ k)) := by
  have hphase := h.phase
  have hswaps := total_move hθ hstack hmove .swaps
  have hjoins := total_move hθ hstack hmove .joins
  have hle := old_le_total hθ hstack .joins
  have hstopped : s.stopped.toNat ≤ 1 := Bool.toNat_le _
  have hmoved := hmove.phase (by omega)
  constructor
  · show _ + s₁.shutDown.toNat = s₁.stopped.toNat
    omega
  · intro hpos
    change 0 < _ + s₁.shutDown.toNat at hpos
    by_cases hbefore : 0 < s.total .joins + s.shutDown.toNat
    · exact hmove.taken (h.taken hbefore)
    · -- the step takes the threads
      cases hmove with
      | swap => exact ⟨rfl, rfl⟩
      | joinedAll =>
        change 1 ≤ _ at hle
        omega
      | _ =>
        exfalso
        simp only [tallies_cons, tallies_nil, PoolFrame.tally] at hjoins
        change 0 < _ + s.shutDown.toNat at hpos
        omega

omit [DecidableEq T] in
theorem PoolShape.move (h : PoolShape θ (s.stack θ)) (hlock : LockInv s)
    (hθ : θ ∈ threads T s.spawned) (hstack : s.stack θ = old ++ k)
    (hmove : PoolMove cfg s θ old new s₁) : PoolShape θ (new ++ k) := by
  cases hmove with
  | call huser =>
    change s.stack θ = k at hstack
    rw [hstack] at huser h
    exact ⟨huser, h⟩
  | shutdown hidle hclient => exact ⟨hclient, hstack.symm.trans hidle⟩
  | bypass =>
    rw [hstack] at h
    exact h
  | proceed hrunning =>
    rw [hstack] at h
    obtain ⟨huser, hk⟩ : RunsUserCode θ k ∧ PoolShape θ k := h
    -- until the stop no task runs under the lock
    have hinlined := tallies_le_total hθ .inlined
    rw [hlock.inlined hrunning, hstack, tallies_append] at hinlined
    have hholds := holds_le_inlined huser hk
    refine ⟨huser, ?_, hk⟩
    show tallies .holds k = 0
    omega
  | lockInline | lockReap | stop | swap | reap | join | finish | take | exit =>
    rw [hstack] at h
    exact h
  | push | enough | finishLocked =>
    rw [hstack] at h
    exact h.2.2
  | pushScarce =>
    rw [hstack] at h
    exact h
  | stopAgain | joinedAll | left =>
    rw [hstack] at h
    obtain ⟨-, rfl⟩ := h
    trivial
  | finishInline =>
    rw [hstack] at h
    exact h.2

/-- Every move keeps the invariant. -/
theorem PoolInv.move (h : PoolInv cfg s) (hmin : 0 < cfg.minThreads)
    (hstack : s.stack θ = old ++ k) (hmove : PoolMove cfg s θ old new s₁) :
    PoolInv cfg (s₁.goto θ (new ++ k)) := by
  have hθ := hmove.mem_threads hstack h.unborn
  constructor
  · intro θ'
    rw [stack_move hmove]
    split
    · next heq => exact heq ▸ (h.shape θ).move h.lock hθ hstack hmove
    · exact h.shape θ'
  · intro n hn
    change s₁.spawned ≤ n at hn
    rw [hmove.spawned_eq] at hn
    rw [stack_move hmove, if_neg]
    · exact h.unborn n hn
    · rintro rfl
      exact absurd (inr_mem_threads.mp hθ) (by omega)
  · exact h.lock.move hθ hstack hmove
  · exact h.tasks.move h.lock hθ hstack hmove
  · exact h.handles.move (h.shape θ) hθ hstack hmove
  · exact .move h hmin hθ hstack hmove
  · exact h.stop.move hθ hstack hmove

end Move

-- ═══════════════════════════════════════════════════════════════════════════
-- Spawning
-- ═══════════════════════════════════════════════════════════════════════════

omit [Fintype T] in
theorem stack_spawnLocked (s : PoolState T) (θ : Thread T) :
    s.spawnLocked.stack θ = if θ = .inr s.spawned then [.waiting] else s.stack θ :=
  Function.update_apply ..

/-- `SpawnLocked_` keeps the invariant until the stop. -/
theorem PoolInv.spawnLocked {cfg cfg' : PoolConfig} {s : PoolState T} (h : PoolInv cfg s)
    (hrunning : s.stopped = false) (hmin : cfg'.minThreads ≤ s.workerCount + 1)
    (hmax : s.workerCount + 1 ≤ cfg'.maxThreads) : PoolInv cfg' s.spawnLocked := by
  have htotal := total_spawnLocked s
  have hphase := h.stop.phase
  rw [hrunning, Bool.toNat_false] at hphase
  constructor
  · intro θ
    rw [stack_spawnLocked]
    split
    · next hθ =>
      subst hθ
      exact ⟨rfl, rfl⟩
    · exact h.shape θ
  · intro n hn
    change s.spawned + 1 ≤ n at hn
    rw [stack_spawnLocked, if_neg (by rintro ⟨⟩; omega)]
    exact h.unborn n (by omega)
  · exact ⟨(htotal _).trans h.lock.holds, fun hr => (htotal _).trans (h.lock.inlined hr),
      fun hs => (htotal _).trans (h.lock.reaps hs)⟩
  · constructor
    · intro x
      rw [htotal, htotal]
      exact h.tasks.placed x
    · intro x
      rw [htotal]
      exact h.tasks.queued x
    · exact h.tasks.inline
  · constructor
    · intro n
      rw [htotal, htotal]
      show (s.workers ++ [s.spawned]).count n + s.reap.count n + s.joined.count n +
        s.total (.reapHandle n) + s.total (.joinHandle n) = if n < s.spawned + 1 then 1 else 0
      have hplaced := h.handles.placed n
      rw [List.count_append, List.count_singleton]
      by_cases hn : n = s.spawned
      · simp_all
      · have hlt : n < s.spawned + 1 ↔ n < s.spawned := by omega
        simp_all [Ne.symm hn]
    · intro n hpos
      rw [htotal] at hpos
      have hborn : n < s.spawned := by
        have hplaced := h.handles.placed n
        change 0 < s.reap.count n + _ at hpos
        change 0 < _ + (_ + 0) at hpos
        split at hplaced
        · assumption
        · omega
      rw [stack_spawnLocked, if_neg (by rintro ⟨⟩; omega)]
      exact h.handles.reaped n hpos
    · intro n hn
      have hborn : n < s.spawned := by
        have hplaced := h.handles.placed n
        have hcount := List.count_pos_iff.mpr (show n ∈ s.joined from hn)
        split at hplaced
        · assumption
        · omega
      rw [stack_spawnLocked, if_neg (by rintro ⟨⟩; omega)]
      exact h.handles.joined n hn
  · constructor
    · rw [htotal]
      show s.workerCount + 1 = s.total .live + 1
      rw [h.count.live]
    · intro _
      have hstaffed := h.count.staffed hrunning
      show s.workerCount + 1 = (s.workers ++ [s.spawned]).length ∧ _ ≤ s.workerCount + 1 ∧
        s.workerCount + 1 ≤ _
      rw [List.length_append, List.length_singleton]
      omega
    · exact fun _ => Nat.succ_pos _
  · constructor
    · rw [htotal, htotal]
      exact h.stop.phase
    · intro hpos
      rw [htotal] at hpos
      change 0 < s.total .joins + 0 + s.shutDown.toNat at hpos
      omega

/-- Every step keeps the invariant. -/
theorem PoolInv.step {cfg : PoolConfig} {s s' : PoolState T} {e : PoolEvent T} (h : PoolInv cfg s)
    (hmin : 0 < cfg.minThreads) (hs : s.step cfg e = some s') : PoolInv cfg s' := by
  cases step_change hs with
  | idle => exact h
  | move hstack hmove => exact h.move hmin hstack hmove
  | spawn hstack hfree hrunning hneed =>
    have henough : PoolInv cfg (s.goto _ _) :=
      h.move hmin (List.singleton_append ▸ hstack) (.enough hfree)
    have hstaffed := h.count.staffed hrunning
    exact henough.spawnLocked hrunning (Nat.le_succ_of_le hstaffed.2.1) hneed.1

-- ═══════════════════════════════════════════════════════════════════════════
-- The constructor
-- ═══════════════════════════════════════════════════════════════════════════

/-- The constructor makes the sizes positive and `max_threads` no less than `min_threads`. -/
theorem PoolConfig.normalise_valid (cfg : PoolConfig) :
    0 < cfg.normalise.minThreads ∧ cfg.normalise.minThreads ≤ cfg.normalise.maxThreads ∧
      0 < cfg.normalise.scaleFactor := by
  simp only [PoolConfig.normalise]
  grind

omit [DecidableEq T] in
theorem total_blank (q : PoolQuery) : (PoolState.blank (T := T)).total q = 0 :=
  Finset.sum_eq_zero fun _ _ => rfl

omit [DecidableEq T] in
/-- Before any thread is spawned. -/
theorem PoolInv.blank (maxThreads scaleFactor : ℕ) :
    PoolInv ⟨0, maxThreads, scaleFactor⟩ (.blank : PoolState T) where
  shape _ := trivial
  unborn _ _ := rfl
  lock := ⟨total_blank _, fun _ => total_blank _, fun _ => total_blank _⟩
  tasks := by
    refine ⟨fun x => ?_, fun x => ?_, fun _ => rfl⟩
    · rw [total_blank, total_blank]
      rfl
    · rw [total_blank]
      rfl
  handles := by
    refine ⟨fun n => ?_, fun n _ => rfl, fun n hn => by cases hn⟩
    rw [total_blank, total_blank]
    rfl
  count := ⟨(total_blank _).symm, fun _ => ⟨rfl, Nat.zero_le _, Nat.zero_le _⟩,
    fun hbusy => absurd rfl hbusy⟩
  stop := by
    refine ⟨?_, fun _ => ⟨rfl, rfl⟩⟩
    rw [total_blank, total_blank]
    rfl

/-- The constructor's loop after `n` rounds. -/
theorem PoolInv.iterate_spawnLocked {cfg : PoolConfig} {n : ℕ} (hn : n ≤ cfg.maxThreads) :
    let s : PoolState T := PoolState.spawnLocked^[n] .blank
    PoolInv { cfg with minThreads := n } s ∧ s.workerCount = n ∧ s.stopped = false := by
  induction n with
  | zero => exact ⟨.blank _ _, rfl, rfl⟩
  | succ n ih =>
    obtain ⟨hinv, hcount, hrunning⟩ := ih (Nat.le_of_succ_le hn)
    intro s
    have hs : s = (PoolState.spawnLocked^[n] .blank).spawnLocked :=
      Function.iterate_succ_apply' _ _ _
    rw [hs]
    refine ⟨hinv.spawnLocked hrunning ?_ ?_, ?_, hrunning⟩
    · exact Nat.le_of_eq (congrArg (· + 1) hcount.symm)
    · rw [hcount]
      exact hn
    · exact congrArg (· + 1) hcount

theorem PoolInv.constructed {cfg : PoolConfig} (hle : cfg.minThreads ≤ cfg.maxThreads) :
    PoolInv cfg (LoggerHigh.constructed cfg : PoolState T) :=
  (PoolInv.iterate_spawnLocked (T := T) hle).1

/-- The invariant holds in every state of a pool. -/
theorem PoolInv.reach {cfg : PoolConfig} {s : PoolState T}
    (h : Reach (PoolState.step cfg.normalise) (fun _ _ => True)
      (LoggerHigh.constructed cfg.normalise) s) : PoolInv cfg.normalise s := by
  obtain ⟨hmin, hle, -⟩ := cfg.normalise_valid
  exact h.invariant (.constructed hle) fun _ _ _ hinv _ hs => hinv.step hmin hs

end Invariant

end LoggerHigh
