import LoggerHigh.Mmap.StoreOwnership

/-!
# Where the buffers of a store are

What the ownership invariant says to somebody who looks at a store from outside:
while `mtx_` is free each buffer of the pool is the master, free, or with one
drain; and a `Flush` that waits for a free buffer waits for a drain, as long as
the pool may have a second buffer at all.

## Main definitions

- `StoreState.draining` — the buffers with drains that have not given them back
- `InOnePlace` — a buffer is in exactly one of its three places

## Main results

- `buffers_in_one_place` — ownership of the buffers, over whole runs
- `waiting_flush_has_drain` — a `Flush` waits only for drains
- `lone_buffer_deadlock` — with a pool of one buffer it waits for nothing
-/

namespace LoggerHigh

open Transition ThreadSum

variable {T σ : Type*}

/-- The buffers of the drains that are posted or running and have not pushed them
back on `free_`. -/
def StoreState.draining (s : StoreState T σ) : List ℕ := s.exec.held ++ s.tasks

/-- The drains that are posted or running and have not executed their `fetch_sub`. -/
def StoreState.unsubtracted (s : StoreState T σ) : ℕ := s.tasks.length + s.exec.unsubtracted

/-- Buffer `b` is the master, or once in `free_`, or with exactly one drain, and
only one of these. -/
def InOnePlace (s : StoreState T σ) (b : ℕ) : Prop :=
  (b = s.master ∧ b ∉ s.free ∧ b ∉ s.draining) ∨
    (b ≠ s.master ∧ s.free.count b = 1 ∧ b ∉ s.draining) ∨
      (b ≠ s.master ∧ b ∉ s.free ∧ s.draining.count b = 1)

/-- One buffer in one place, as a count. -/
theorem inOnePlace_iff {s : StoreState T σ} {b : ℕ} :
    InOnePlace s b ↔ [s.master].count b + s.free.count b + s.draining.count b = 1 := by
  rw [InOnePlace, ← List.count_eq_zero, ← List.count_eq_zero, List.count_singleton]
  by_cases hb : b = s.master
  · rw [hb, beq_self_eq_true, if_pos rfl]
    constructor
    · rintro (⟨-, hfree, hdraining⟩ | ⟨hne, -⟩ | ⟨hne, -⟩)
      · omega
      · exact absurd rfl hne
      · exact absurd rfl hne
    · intro hsum
      exact .inl ⟨rfl, by omega, by omega⟩
  · rw [if_neg (by simpa using Ne.symm hb)]
    constructor
    · rintro (⟨heq, -⟩ | ⟨-, hfree, hdraining⟩ | ⟨-, hfree, hdraining⟩)
      · exact absurd heq hb
      · omega
      · omega
    · intro hsum
      by_cases hfree : s.free.count b = 1
      · exact .inr (.inl ⟨hb, hfree, by omega⟩)
      · exact .inr (.inr ⟨hb, by omega, by omega⟩)

variable [DecidableEq T] [Fintype T] {cfg : StoreConfig} {onPersist : σ → Bytes → σ × Bool}
  {s s' s₀ : StoreState T σ}

-- ════════════════════════════════════════════════════════════════════════
-- Ownership
-- ════════════════════════════════════════════════════════════════════════

omit [DecidableEq T] in
/-- While `mtx_` is free no thread carries a buffer or is counted. -/
theorem OwnInv.totals_of_mtx (h : OwnInv cfg s) (hmtx : s.mtx = none) :
    (∀ b, total (fun pc : Pc => pc.carried.count b) s.pc = 0) ∧ total Pc.counted s.pc = 0 := by
  constructor
  · intro b
    refine total_eq_zero fun t => ?_
    rw [(Pc.plain (h.plain_of_mtx hmtx t)).1]
    rfl
  · exact total_eq_zero fun t => (Pc.plain (h.plain_of_mtx hmtx t)).2.1

/-- Whatever threads call the store, however they and the drains interleave, and
whichever waits time out or constructions fail: outside the sections under
`mtx_` exactly the buffers of the pool are in one place each, `in_flight_` counts
the drains to come, and the pool keeps to its bounds. -/
theorem buffers_in_one_place {env : σ} (hcreate : StoreState.create cfg env = some s₀)
    (hr : Reach (storeStep cfg onPersist) (fun _ _ => True) s₀ s) (hmtx : s.mtx = none) :
    (∀ b, b < s.poolSize ↔ InOnePlace s b) ∧ s.inFlight = s.unsubtracted ∧
      cfg.normalise.minBuffers ≤ s.poolSize ∧ s.poolSize ≤ cfg.normalise.maxBuffers := by
  have hown := OwnInv.of_reach hcreate hr
  obtain ⟨hcarried, hcounted⟩ := hown.totals_of_mtx hmtx
  refine ⟨fun b => ?_, ?_, hown.le_pool, hown.pool_le⟩
  · have hplace := hown.place b
    rw [occurrences, hcarried b] at hplace
    rw [inOnePlace_iff, StoreState.draining, List.count_append]
    constructor
    · intro hb
      rw [List.count_eq_one_of_mem List.nodup_range (List.mem_range.mpr hb)] at hplace
      omega
    · intro hsum
      refine hown.lt_of_occurs ?_
      rw [occurrences]
      omega
  · rw [hown.inFlight_eq, hcounted]
    rfl

/-- After one payload and the swap of a `Flush`, with the drain posted. -/
theorem buffers_in_one_place_swapped : ∃ s : StoreState Unit Unit, s.master = 1 ∧
    s.draining = [0] ∧ (∀ b, b < s.poolSize ↔ InOnePlace s b) ∧ s.inFlight = s.unsubtracted ∧
      2 ≤ s.poolSize ∧ s.poolSize ≤ 2 := by
  have hrun : (run (storeStep onePageStore fun _ _ => ((), false))
      ((StoreState.create onePageStore ()).get rfl)
      ([.append () (some [7])] ++ List.replicate 7 (.step ()) ++ [.flush ()] ++
        List.replicate 6 (.step ()))).map (fun s => (s.mtx, s.master, s.draining)) =
          some (none, 1, [0]) := by decide +kernel
  obtain ⟨s, hs, hshown⟩ := Option.map_eq_some_iff.mp hrun
  simp only [Prod.mk.injEq] at hshown
  exact ⟨s, hshown.2.1, hshown.2.2,
    buffers_in_one_place rfl (Reach.of_run hs fun _ _ => trivial) hshown.1⟩

-- ════════════════════════════════════════════════════════════════════════
-- Waiting for a free buffer
-- ════════════════════════════════════════════════════════════════════════

/-- The wait of `AcquireFreeBufferLocked_`. -/
def Pc.waitsFree : Pc → Bool
  | .waitFree _ => true
  | _ => false

/-- Threads wait for a free buffer only when the pool cannot grow. -/
def WaitsFull (cfg : StoreConfig) (s : StoreState T σ) : Prop :=
  ∀ t, (s.pc t).waitsFree = true → cfg.maxBuffers ≤ s.poolSize

omit [Fintype T] in
theorem WaitsFull.move {t : T} {x : Pc} (h : WaitsFull cfg s)
    (hpc : s'.pc = Function.update s.pc t x) (hpool : s.poolSize ≤ s'.poolSize)
    (hx : x.waitsFree = true → cfg.maxBuffers ≤ s.poolSize) : WaitsFull cfg s' := by
  intro u hu
  rw [hpc] at hu
  by_cases hut : u = t
  · rw [hut, Function.update_self] at hu
    exact Nat.le_trans (hx hu) hpool
  · rw [Function.update_of_ne hut] at hu
    exact Nat.le_trans (h u hu) hpool

omit [DecidableEq T] [Fintype T] in
theorem Caller.waitsFree_swapped (k : Caller) : k.swapped.waitsFree = false := by
  cases k <;> rfl

omit [Fintype T] in
/-- A step keeps to that. -/
theorem WaitsFull.step {e : StoreEvent T} (h : WaitsFull cfg s)
    (hm : StoreMove cfg onPersist s e s') : WaitsFull cfg s' := by
  cases hm with
  | startWait t k _ _ _ hfull => exact h.move rfl (Nat.le_refl _) fun _ => hfull
  | extend => exact h.move rfl (Nat.le_succ _) (by rintro ⟨⟩)
  | appendCall | flushCall | destroyCall | load | write | writeTrue | writeFalse | appendStopped
  | appendRetry | flushEmpty | take | giveUpAppend | giveUpFlush | exchange | count | enqueueIdle
  | runInline | postNext | close | finish => exact h.move rfl (Nat.le_refl _) (by rintro ⟨⟩)
  | flushStopped t dtor | flushDone t dtor =>
    exact h.move rfl (Nat.le_refl _) (by cases dtor <;> rintro ⟨⟩)
  | enqueueRunning t k | postQueued t k =>
    exact h.move rfl (Nat.le_refl _) (by rw [k.waitsFree_swapped]; rintro ⟨⟩)
  | drainReturn runner _ _ =>
    cases runner with
    | none => exact h
    | some t =>
      rw [StoreState.drainReturn]
      split
      · next k _ =>
        exact h.move rfl (Nat.le_refl _) (by rw [k.waitsFree_swapped]; rintro ⟨⟩)
      · exact h
  | _ => exact h

omit [DecidableEq T] in
/-- In a pool of at least two buffers of which none is free, one is with a drain,
or with the thread that holds `mtx_`. -/
theorem OwnInv.exists_elsewhere (h : OwnInv cfg s) (hpool : 2 ≤ s.poolSize) (hfree : s.free = []) :
    s.draining ≠ [] ∨ ∃ u, s.mtx = some u ∧ (s.pc u).carried ≠ [] := by
  by_contra hnone
  simp only [not_or, not_exists, not_and, not_not] at hnone
  obtain ⟨hdraining, hcarried⟩ := hnone
  obtain ⟨b, hb, hne⟩ : ∃ b, b < s.poolSize ∧ b ≠ s.master := by
    by_cases hmaster : s.master = 0
    · exact ⟨1, hpool, by omega⟩
    · exact ⟨0, by omega, Ne.symm hmaster⟩
  have htotal : total (fun pc : Pc => pc.carried.count b) s.pc = 0 := by
    refine total_eq_zero fun t => ?_
    by_cases hsec : (s.pc t).inSection = true
    · rw [hcarried t ((h.mtx_iff t).mpr hsec)]
      rfl
    · rw [(Pc.plain (by simpa using hsec)).1]
      rfl
  have hplace := h.place b
  rw [StoreState.draining, List.append_eq_nil_iff] at hdraining
  rw [occurrences, htotal, hfree, hdraining.1, hdraining.2, List.count_singleton,
    if_neg (by simpa using Ne.symm hne),
    List.count_eq_one_of_mem List.nodup_range (List.mem_range.mpr hb)] at hplace
  cases hplace

omit [DecidableEq T] in
/-- Where drains are posted, the strand is running. -/
theorem OwnInv.running_of_draining (h : OwnInv cfg s) (hdraining : s.draining ≠ []) :
    s.running = true := by
  by_contra hrunning
  obtain ⟨htasks, hidle⟩ := h.stopped_strand (by simpa using hrunning)
  refine hdraining ?_
  rw [StoreState.draining, htasks, (Exec.runner_of_isIdle hidle).2.1]
  rfl

/-- When the pool may have two buffers, a `Flush` that waits for a free one finds
one, or the store stopped, or a drain that is posted on a running strand and will
give one back; or a thread inside `SwapMasterLocked_`, under `mtx_`, is about to
post one. -/
theorem waiting_flush_has_drain {env : σ} (hmax : 2 ≤ cfg.normalise.maxBuffers)
    (hcreate : StoreState.create cfg env = some s₀)
    (hr : Reach (storeStep cfg onPersist) (fun _ _ => True) s₀ s) {t : T} {dtor : Bool}
    (hwait : s.pc t = .waitFree (.flush dtor)) :
    s.free ≠ [] ∨ s.stopped = true ∨ (s.draining ≠ [] ∧ s.running = true) ∨
      ∃ u, s.mtx = some u ∧ (s.pc u).carried ≠ [] := by
  have hown := OwnInv.of_reach hcreate hr
  have hfull : WaitsFull cfg.normalise s := by
    refine hr.invariant (I := WaitsFull cfg.normalise) ?_ fun s e s' hi _ hstep =>
      hi.step (StoreMove.of_storeStep hstep)
    intro u hu
    rw [StoreState.create] at hcreate
    split at hcreate <;> cases hcreate
    cases hu
  have hpool : 2 ≤ s.poolSize := Nat.le_trans hmax (hfull t (by rw [hwait]; rfl))
  by_cases hfree : s.free = []
  · rcases hown.exists_elsewhere hpool hfree with hdraining | hcarried
    · exact .inr (.inr (.inl ⟨hdraining, hown.running_of_draining hdraining⟩))
    · exact .inr (.inr (.inr hcarried))
  · exact .inl hfree

/-- Two threads append and flush; the second one waits for the drain of the first. -/
theorem waiting_flush_has_drain_second : ∃ s : StoreState Bool Unit,
    s.pc true = .waitFree (.flush false) ∧ (s.free ≠ [] ∨ s.stopped = true ∨
      (s.draining ≠ [] ∧ s.running = true) ∨ ∃ u, s.mtx = some u ∧ (s.pc u).carried ≠ []) := by
  have hrun : (run (storeStep onePageStore fun _ _ => ((), false))
      ((StoreState.create onePageStore ()).get rfl)
      ([.append false (some [7])] ++ List.replicate 7 (.step false) ++ [.flush false] ++
        List.replicate 6 (.step false) ++ [.append true (some [8])] ++
          List.replicate 7 (.step true) ++ [.flush true, .step true])).map (fun s => s.pc true) =
            some (.waitFree (.flush false)) := by decide +kernel
  obtain ⟨s, hs, hpc⟩ := Option.map_eq_some_iff.mp hrun
  exact ⟨s, hpc, waiting_flush_has_drain (by decide) rfl (Reach.of_run hs fun _ _ => trivial) hpc⟩

/-- One buffer, which the constructor accepts. -/
def loneBufferStore : StoreConfig := ⟨4096, 1, 1, 4096, fun _ => []⟩

/-- With a pool of one buffer, the `Flush` after an `Append` waits for nothing. -/
theorem lone_buffer_deadlock :
    ¬ ∀ (cfg : StoreConfig) (onPersist : Unit → Bytes → Unit × Bool) (s₀ s : StoreState Unit Unit),
      StoreState.create cfg () = some s₀ →
        Reach (storeStep cfg onPersist) (fun _ e => e ≠ .shutdown ∧ e ≠ .createFails ()) s₀ s →
          ∀ dtor, s.pc () = .waitFree (.flush dtor) →
            s.free ≠ [] ∨ s.stopped = true ∨ (s.draining ≠ [] ∧ s.running = true) ∨
              ∃ u, s.mtx = some u ∧ (s.pc u).carried ≠ [] := by
  intro h
  have hrun : (run (guarded (storeStep loneBufferStore fun _ _ => ((), false))
        fun _ e => e ≠ .shutdown ∧ e ≠ .createFails ())
      ((StoreState.create loneBufferStore ()).get rfl)
      ([.append () (some [7])] ++ List.replicate 7 (.step ()) ++ [.flush (), .step ()])).map
        (fun s => (s.pc (), s.free, s.stopped, s.draining, s.mtx)) =
          some (.waitFree (.flush false), [], false, [], none) := by decide +kernel
  obtain ⟨s, hs, hshown⟩ := Option.map_eq_some_iff.mp hrun
  simp only [Prod.mk.injEq] at hshown
  obtain ⟨hpc, hfree, hstopped, hdraining, hmtx⟩ := hshown
  rcases h loneBufferStore _ _ s rfl (Reach.of_run_guarded hs) false hpc with
    hsome | hstop | ⟨hsome, -⟩ | ⟨u, hu, -⟩
  · exact hsome hfree
  · cases hstopped.symm.trans hstop
  · exact hsome hdraining
  · cases hmtx.symm.trans hu

end LoggerHigh
