import LoggerHigh.Mmap.StoreOwnership

/-!
# Locking `mtx_` twice

`SwapMasterLocked_` posts the drain while its caller holds `mtx_`. Once the
pool has been stopped, `ThreadPool::Enqueue_` runs `Drain_` in the posting
thread, and `DrainOne_` locks `mtx_` itself.

## Main definitions

- `SelfLock` — a thread is about to lock the `mtx_` it holds
- `PoolTakes` — no thread that posts `Drain_` finds the pool stopped
- `SwapsReturn`, `SwapsDrain` — what swaps owe their callers

## Main results

- `mtx_not_reentered` — runs in which the pool takes every posted `Drain_` do
  not lock `mtx_` twice, their swaps return and the old buffers are drained
- `swap_never_returns` — one that is run in place never lets its thread return
- `swap_locks_twice` — a run in which that happens
-/

namespace LoggerHigh

open Transition ThreadSum

variable {T σ : Type*}

/-- Thread `t` holds `mtx_`, and the next operation it executes locks `mtx_`. -/
def SelfLock (s : StoreState T σ) (t : T) : Prop :=
  s.mtx = some t ∧
    ((s.pc t).locks = true ∨ ∃ b pc, s.exec = .drain (some t) b pc ∧ pc.locks = true)

/-- A thread that posts `Drain_` on an idle strand does not find the pool stopped. -/
def PoolTakes (s : StoreState T σ) : StoreEvent T → Prop
  | .step t => (s.pc t).posts = true → s.poolStopped = false
  | _ => True

instance (s : StoreState T σ) : (e : StoreEvent T) → Decidable (PoolTakes s e)
  | .step _ => inferInstanceAs (Decidable (_ → _))
  | .append _ _ | .flush _ | .destroy _ | .createFails _ | .timeout _ | .drain | .shutdown =>
    isTrue trivial

/-- The steps a thread inside `SwapMasterLocked_` has at most to go before it
releases `mtx_`, when `Drain_` does not run in place. -/
def Pc.swapSteps : Pc → ℕ
  | .exchange _ _ => 5
  | .count _ _ => 4
  | .enqueue _ _ => 3
  | .post _ => 2
  | .postLocked _ => 1
  | _ => 0

/-- What a thread contributes to `writers_` of buffer `b`. -/
def Pc.countedOn (b : ℕ) (pc : Pc) : ℕ := (pc.writerOn b).counted

/-- The steps by which buffers are drained: those of a worker, and those of
threads that `Seal` waits for. -/
def DrainsOn (s : StoreState T σ) (e : StoreEvent T) : Prop :=
  e = .drain ∨ ∃ t, e = .step t ∧ (s.pc t).writing = true

variable [DecidableEq T] [Fintype T]

/-- Whoever is inside `SwapMasterLocked_` can take its next step, and gets
closer to its end. -/
def SwapsReturn (cfg : StoreConfig) (onPersist : σ → Bytes → σ × Bool) (s : StoreState T σ) :
    Prop :=
  ∀ t, (s.pc t).inSection = true → ∃ s', storeStep cfg onPersist s (.step t) = some s' ∧
    (PoolTakes s (.step t) → (s'.pc t).swapSteps < (s.pc t).swapSteps)

/-- Once `mtx_` has been released, the worker can drain and free all that was posted. -/
def SwapsDrain (cfg : StoreConfig) (onPersist : σ → Bytes → σ × Bool) (s : StoreState T σ) :
    Prop :=
  s.mtx = none → ∃ s', Reach (storeStep cfg onPersist) DrainsOn s s' ∧ s'.inFlight = 0 ∧
    s'.exec.isIdle = true ∧ ∀ b ∈ s.tasks ++ s.exec.held, b ∈ s'.free

variable {cfg : StoreConfig} {onPersist : σ → Bytes → σ × Bool} {s s' : StoreState T σ}

-- ════════════════════════════════════════════════════════════════════════
-- Nobody runs Drain_ in place
-- ════════════════════════════════════════════════════════════════════════

omit [Fintype T] in
/-- While the pool takes what is posted, `Drain_` stays on workers. -/
theorem StoreMove.runner_eq_none {e : StoreEvent T} (hm : StoreMove cfg onPersist s e s')
    (hok : PoolTakes s e) (hrunner : s.exec.runner = none) : s'.exec.runner = none := by
  cases hm with
  | runInline t k hpc hpool =>
    have hposts : (s.pc t).posts = true := by rcases hpc with hpc | hpc <;> rw [hpc] <;> rfl
    cases (hok hposts).symm.trans hpool
  | drainReturn runner hexec _ =>
    rw [hexec] at hrunner
    cases hrunner
    rfl
  | pop _ _ _ hexec _ | sealStore _ _ hexec | sealDone _ _ hexec _ | sync _ _ hexec
  | scanStart _ _ hexec | scanFrame _ _ _ _ _ hexec _ | scanEnd _ _ _ _ hexec _
  | resetLoad _ _ hexec | resetOffset _ _ _ hexec | resetUnseal _ _ _ hexec
  | resetMemset _ _ _ hexec | pushFree _ _ hexec _ | notifyFree _ _ hexec
  | fetchSubLast _ _ hexec _ | fetchSub _ _ hexec _ | notifyFlush _ _ hexec _ =>
    rw [hexec] at hrunner
    exact hrunner
  | postQueued | pickUp => rfl
  | _ => exact hrunner

omit [DecidableEq T] [Fintype T] in
theorem Pc.locks_of_inSection {pc : Pc} (h : pc.inSection = true) : pc.locks = false := by
  cases pc <;> first | rfl | cases h

omit [DecidableEq T] in
/-- A thread that does not run `Drain_` never locks `mtx_` twice. -/
theorem OwnInv.not_selfLock (h : OwnInv cfg s) (hrunner : s.exec.runner = none) (t : T) :
    ¬ SelfLock s t := by
  rintro ⟨hmtx, hlocks | ⟨b, pc, hexec, -⟩⟩
  · have hsection := (h.mtx_iff t).mp hmtx
    cases (Pc.locks_of_inSection hsection).symm.trans hlocks
  · rw [hexec] at hrunner
    cases hrunner

theorem Caller.swapSteps_swapped (k : Caller) : k.swapped.swapSteps = 0 := by
  cases k <;> rfl

/-- Nothing holds up a thread that holds `mtx_`. -/
theorem OwnInv.swapsReturn (h : OwnInv cfg.normalise s) (hrunner : s.exec.runner = none) :
    SwapsReturn cfg onPersist s := by
  intro t hsection
  have hinlines : (s.pc t).inlines = false := by
    by_contra hinl
    have := (h.inlines_iff t).mp (by simpa using hinl)
    rw [hrunner] at this
    cases this
  simp only [storeStep, threadStep, Pc.locks_of_inSection hsection]
  cases hpc : s.pc t with
  | exchange k next | count k old =>
    refine ⟨_, rfl, fun _ => ?_⟩
    rw [StoreState.goto_self]
    exact Nat.lt_succ_self _
  | enqueue k old =>
    refine ⟨_, rfl, fun _ => ?_⟩
    split
    · rw [StoreState.swapDone_self, Caller.swapSteps_swapped]
      exact Nat.succ_pos _
    · rw [StoreState.goto_self]
      exact Nat.lt_succ_self _
  | post k =>
    refine ⟨_, rfl, fun hok => ?_⟩
    rw [hok (by rw [hpc]; rfl), if_neg Bool.false_ne_true, StoreState.goto_self]
    exact Nat.lt_succ_self _
  | postLocked k =>
    refine ⟨_, rfl, fun hok => ?_⟩
    rw [hok (by rw [hpc]; rfl), if_neg Bool.false_ne_true, StoreState.swapDone_self,
      Caller.swapSteps_swapped]
    exact Nat.succ_pos _
  | inlineDrain k =>
    rw [hpc] at hinlines
    cases hinlines
  | _ =>
    rw [hpc] at hsection
    cases hsection

-- ════════════════════════════════════════════════════════════════════════
-- The threads that Seal waits for
-- ════════════════════════════════════════════════════════════════════════

omit [DecidableEq T] in
/-- `writers_` of every buffer counts the threads that are inside `Write` on it. -/
def WritersInv (s : StoreState T σ) : Prop :=
  ∀ b, (s.bufs b).writers = total (Pc.countedOn b) s.pc

/-- A step of `Write` changes `writers_` as it changes what the thread contributes. -/
theorem writers_writeStep {b : MmapBuffer} {p : Bytes} {pc : WritePc}
    (hle : Writer.counted (some (p, pc)) ≤ b.writers) :
    (writeStep b p pc).1.writers + Writer.counted (some (p, pc)) =
      b.writers + ((writeStep b p pc).2.writer p).counted := by
  cases pc with
  | enter =>
    simp only [writeStep]
    split <;> rfl
  | check | reserve =>
    simp only [writeStep]
    split <;> rfl
  | header old | payload old => rfl
  | leave slot => exact Nat.sub_add_cancel hle

omit [DecidableEq T] [Fintype T] in
theorem StoreState.writers_setBuf {b : ℕ} {buf : MmapBuffer}
    (h : buf.writers = (s.bufs b).writers) (a : ℕ) :
    ((s.setBuf b buf).bufs a).writers = (s.bufs a).writers := by
  simp only [StoreState.setBuf]
  by_cases ha : a = b
  · rw [ha, Function.update_self, h]
  · rw [Function.update_of_ne ha]

omit [DecidableEq T] in
/-- Steps that move no writer and no `writers_`. -/
theorem WritersInv.same (h : WritersInv s) (hbufs : ∀ a, (s'.bufs a).writers = (s.bufs a).writers)
    (hpc : s'.pc = s.pc) : WritersInv s' := by
  intro a
  rw [hbufs, hpc]
  exact h a

/-- Moves of threads that are counted nowhere before and after. -/
theorem WritersInv.move (h : WritersInv s) (hbufs : s'.bufs = s.bufs) {t : T} {x y : Pc}
    (hpc : s'.pc = Function.update s.pc t x) (hold : s.pc t = y)
    (hx : ∀ a, x.countedOn a = 0) (hy : ∀ a, y.countedOn a = 0) : WritersInv s' := by
  intro a
  rw [hbufs, hpc, total_update_of_eq (by rw [hold, hx, hy])]
  exact h a

/-- Steps of a thread inside `Write`. -/
theorem WritersInv.write (h : WritersInv s) {t : T} {data : Bytes} {cur : ℕ} {pc : WritePc}
    {x : Pc} (hpc : s.pc t = .appendWrite data cur pc)
    (hx : ∀ a, x.writerOn a =
      if cur = a then (writeStep (s.bufs cur) data pc).2.writer data else none)
    {hist : List (Obs T)} : WritersInv
      ({ s.setBuf cur (writeStep (s.bufs cur) data pc).1 with hist := hist }.goto t x) := by
  intro a
  have htotal := total_update (Pc.countedOn a) s.pc t x
  have hcounted := le_total (Pc.countedOn a) s.pc t
  have hold : Pc.countedOn a (s.pc t) =
      Writer.counted (if cur = a then some (data, pc) else none) :=
    congrArg (fun y => (Pc.writerOn a y).counted) hpc
  have hnew : Pc.countedOn a x = Writer.counted _ := congrArg Writer.counted (hx a)
  rw [hold, ← h a] at hcounted
  rw [hold, hnew, ← h a] at htotal
  simp only [StoreState.goto, StoreState.setBuf]
  by_cases ha : cur = a
  · subst ha
    rw [if_pos rfl] at hcounted
    rw [if_pos rfl, if_pos rfl] at htotal
    have hwriters := writers_writeStep hcounted
    rw [Function.update_self]
    omega
  · rw [if_neg ha, if_neg ha] at htotal
    rw [Function.update_of_ne (Ne.symm ha)]
    exact Nat.add_right_cancel htotal.symm

omit [DecidableEq T] [Fintype T] in
theorem Asking.countedOn {t : T} {k : Caller} (h : Asking s t k) (a : ℕ) :
    (s.pc t).countedOn a = 0 := by
  cases h with
  | append data hpc | flush dtor hpc _ | wait k hpc => rw [hpc]; rfl

theorem Caller.countedOn_swapped (k : Caller) (a : ℕ) : k.swapped.countedOn a = 0 := by
  cases k <;> rfl

/-- A new buffer has no writers. -/
theorem WritersInv.extend (hown : OwnInv cfg s) (h : WritersInv s) {t : T} {k : Caller}
    {buf : MmapBuffer} (hask : Asking s t k) (hbuf : buf.writers = 0) :
    WritersInv ({ s with
      bufs := Function.update s.bufs s.poolSize buf
      poolSize := s.poolSize + 1
      nextSeq := s.nextSeq + 1
      mtx := some t }.goto t (.exchange k s.poolSize)) := by
  intro a
  simp only [StoreState.goto]
  rw [total_update_of_eq (hask.countedOn a).symm]
  by_cases ha : a = s.poolSize
  · rw [ha, Function.update_self, hbuf]
    refine (total_eq_zero fun u => ?_).symm
    cases hpc : s.pc u with
    | appendWrite data cur pc =>
      have hlt := hown.pointer_lt u data cur pc hpc
      simp only [Pc.countedOn, Pc.writerOn, if_neg (Nat.ne_of_lt hlt)]
      rfl
    | _ => rfl
  · rw [Function.update_of_ne ha]
    exact h a

/-- Every step keeps the count. -/
theorem WritersInv.step {e : StoreEvent T} (hown : OwnInv cfg s) (h : WritersInv s)
    (hm : StoreMove cfg onPersist s e s') : WritersInv s' := by
  cases hm with
  | appendNull t data _ hpc => exact h.same (fun _ => rfl) rfl
  | destroyCall t _ hidle => exact h.move rfl rfl (hidle t) (fun _ => rfl) fun _ => rfl
  | appendCall t data d _ hpc => exact h.move rfl rfl hpc (fun _ => rfl) fun _ => rfl
  | flushCall t _ hpc => exact h.move rfl rfl hpc (fun _ => rfl) fun _ => rfl
  | load t data hpc =>
    refine h.move rfl rfl hpc (fun a => ?_) fun _ => rfl
    simp only [Pc.countedOn, Pc.writerOn]
    split <;> rfl
  | write t data cur pc pc' hpc hnext =>
    refine h.write hpc (fun a => ?_)
    rw [hnext]
    rfl
  | writeTrue t data cur pc old hpc hnext =>
    refine h.write hpc (fun a => ?_)
    rw [hnext]
    exact (ite_self _).symm
  | writeFalse t data cur pc hpc hnext =>
    refine h.write hpc (fun a => ?_)
    rw [hnext]
    exact (ite_self _).symm
  | appendStopped t data cur hpc _ _ => exact h.move rfl rfl hpc (fun _ => rfl) fun _ => rfl
  | appendRetry t data cur hpc _ _ => exact h.move rfl rfl hpc (fun _ => rfl) fun _ => rfl
  | flushStopped t dtor hpc _ _ =>
    exact h.move rfl rfl hpc (fun _ => by cases dtor <;> rfl) fun _ => rfl
  | flushEmpty t dtor hpc _ _ => exact h.move rfl rfl hpc (fun _ => rfl) fun _ => rfl
  | take t k b rest hask _ _ _ => exact h.move rfl rfl rfl (fun _ => rfl) hask.countedOn
  | extend t k buf hask _ _ _ _ hopen =>
    exact h.extend hown hask (StoreConfig.openBuffer_fresh hopen).2.1
  | giveUpAppend _ t data seq hask _ => exact h.move rfl rfl rfl (fun _ => rfl) hask.countedOn
  | giveUpFlush _ t dtor seq hask _ _ => exact h.move rfl rfl rfl (fun _ => rfl) hask.countedOn
  | startWait t k hask _ _ _ => exact h.move rfl rfl rfl (fun _ => rfl) hask.countedOn
  | exchange t k next hpc => exact h.move rfl rfl hpc (fun _ => rfl) fun _ => rfl
  | count t k old hpc => exact h.move rfl rfl hpc (fun _ => rfl) fun _ => rfl
  | enqueueRunning t k old hpc _ => exact h.move rfl rfl hpc k.countedOn_swapped fun _ => rfl
  | enqueueIdle t k old hpc _ => exact h.move rfl rfl hpc (fun _ => rfl) fun _ => rfl
  | runInline t k hpc _ =>
    rcases hpc with hpc | hpc <;> exact h.move rfl rfl hpc (fun _ => rfl) fun _ => rfl
  | postNext t k hpc _ => exact h.move rfl rfl hpc (fun _ => rfl) fun _ => rfl
  | postQueued t k hpc _ => exact h.move rfl rfl hpc k.countedOn_swapped fun _ => rfl
  | flushDone t dtor hpc _ _ =>
    exact h.move rfl rfl hpc (fun _ => by cases dtor <;> rfl) fun _ => rfl
  | close t hpc _ => exact h.move rfl rfl hpc (fun _ => rfl) fun _ => rfl
  | finish t hpc => exact h.move rfl rfl hpc (fun _ => rfl) fun _ => rfl
  | drainReturn runner hexec _ =>
    cases runner with
    | none => exact h.same (fun _ => rfl) rfl
    | some t =>
      simp only [StoreState.drainReturn]
      split
      · next k hpc => exact h.move rfl rfl hpc k.countedOn_swapped fun _ => rfl
      · exact h.same (fun _ => rfl) rfl
  | sealStore | resetOffset | resetUnseal | resetMemset =>
    exact h.same (StoreState.writers_setBuf rfl) rfl
  | _ => exact h.same (fun _ => rfl) rfl

omit [DecidableEq T] in
theorem StoreState.create_writersInv {env : σ} (h : StoreState.create cfg env = some s) :
    WritersInv s := by
  rw [StoreState.create] at h
  split at h
  · cases h
    intro b
    have htotal : total (Pc.countedOn b) (fun _ : T => .idle) = 0 := total_eq_zero fun _ => rfl
    simp only [htotal]
    split
    · cases hopen : cfg.normalise.openBuffer b with
      | none => rfl
      | some buf => exact (StoreConfig.openBuffer_fresh hopen).2.1
    · rfl
  · cases h

/-- The count is right in every reachable state. -/
theorem WritersInv.of_reach {ok : StoreState T σ → StoreEvent T → Prop} {env : σ}
    {s₀ : StoreState T σ} (hcreate : StoreState.create cfg env = some s₀)
    (hr : Reach (storeStep cfg onPersist) ok s₀ s) : WritersInv s := by
  have hboth : OwnInv cfg.normalise s ∧ WritersInv s := by
    refine hr.invariant (I := fun s => OwnInv cfg.normalise s ∧ WritersInv s)
      ⟨StoreState.create_ownInv hcreate, StoreState.create_writersInv hcreate⟩
      fun s e s' ⟨hown, hwriters⟩ _ hstep => ?_
    have hm := StoreMove.of_storeStep hstep
    exact ⟨hown.step hm, hwriters.step hown hm⟩
  exact hboth.2

-- ════════════════════════════════════════════════════════════════════════
-- What is left to do
-- ════════════════════════════════════════════════════════════════════════

/-- The steps a thread inside `Write` has at most to go. -/
def WritePc.toGo : WritePc → ℕ
  | .enter => 6
  | .check => 5
  | .reserve => 4
  | .header _ => 3
  | .payload _ => 2
  | .leave _ => 1

/-- The same of a thread anywhere. -/
def Pc.writeSteps : Pc → ℕ
  | .appendWrite _ _ pc => pc.toGo
  | _ => 0

/-- The steps `DrainOne_` has at most to go on a buffer of this size, besides
its rounds in `Seal`. -/
def DrainPc.toGo (size : ℕ) : DrainPc → ℕ
  | .sealStore => 13 + size
  | .sealWait => 12 + size
  | .sync => 11 + size
  | .scanStart => 10 + size
  | .scan endPos pos => 9 + (endPos - pos)
  | .resetLoad => 8
  | .resetOffset _ => 7
  | .resetUnseal _ => 6
  | .resetMemset _ => 5
  | .pushFree => 4
  | .notifyFree => 3
  | .fetchSub => 2
  | .notifyFlush => 1

/-- The same of `Drain_`, with what is posted left out. -/
def Exec.toGo (size : ℕ → ℕ) : Exec T → ℕ
  | .idle => 0
  | .loop _ => 1
  | .queued => 2
  | .drain _ b pc => 1 + pc.toGo (size b)

/-- The sizes of the buffers. -/
def StoreState.sizes (s : StoreState T σ) (b : ℕ) : ℕ := (s.bufs b).size

omit [DecidableEq T] in
/-- What is left to do until the strand is idle. -/
def StoreState.work (s : StoreState T σ) : ℕ :=
  total Pc.writeSteps s.pc + (s.tasks.map fun b => 20 + s.sizes b).sum + s.exec.toGo s.sizes

omit [DecidableEq T] [Fintype T] in
theorem StoreState.sizes_setBuf {b : ℕ} {buf : MmapBuffer} (h : buf.size = (s.bufs b).size) :
    (s.setBuf b buf).sizes = s.sizes := by
  funext a
  simp only [StoreState.sizes, StoreState.setBuf]
  by_cases ha : a = b
  · rw [ha, Function.update_self, h]
  · rw [Function.update_of_ne ha]

theorem toGo_writeStep {b : MmapBuffer} {p : Bytes} {pc pc' : WritePc}
    (h : (writeStep b p pc).2 = .at pc') : pc'.toGo < pc.toGo := by
  cases pc with
  | enter =>
    simp only [writeStep] at h
    split at h <;> cases h
    exact Nat.lt_succ_self _
  | check | reserve =>
    simp only [writeStep] at h
    cases h
    split <;> simp only [WritePc.toGo] <;> omega
  | header old | payload old =>
    cases h
    exact Nat.lt_succ_self _
  | leave slot => cases h

/-- A thread inside `Write` can always take its next step, and has less to go after it. -/
theorem work_write {t : T} (hwriting : (s.pc t).writing = true) :
    ∃ s', storeStep cfg onPersist s (.step t) = some s' ∧ s'.work < s.work := by
  cases hpc : s.pc t with
  | appendWrite data cur pc =>
    have hless : ∀ (x : Pc) (hist : List (Obs T)), x.writeSteps < pc.toGo →
        ({ s.setBuf cur (writeStep (s.bufs cur) data pc).1 with hist := hist }.goto t x).work <
          s.work := by
      intro x hist hx
      have htotal := total_update Pc.writeSteps s.pc t x
      have hsizes := StoreState.sizes_setBuf (s := s) (size_writeStep (s.bufs cur) data pc)
      have hold : Pc.writeSteps (s.pc t) = pc.toGo := congrArg Pc.writeSteps hpc
      change total Pc.writeSteps (Function.update s.pc t x) +
        (s.tasks.map fun b => 20 + (s.setBuf cur _).sizes b).sum +
          s.exec.toGo (s.setBuf cur _).sizes < _
      rw [hsizes, StoreState.work]
      omega
    have hpos : 0 < pc.toGo := by cases pc <;> exact Nat.succ_pos _
    simp only [storeStep, threadStep, hpc, Pc.locks, Bool.false_and]
    refine ⟨_, rfl, ?_⟩
    split
    · next pc' hnext => exact hless _ s.hist (toGo_writeStep hnext)
    · exact hless .idle _ hpos
    · exact hless (.appendLock data cur) s.hist hpos
  | _ =>
    rw [hpc] at hwriting
    cases hwriting

/-- Outside `Seal`'s wait, a step of `DrainOne_` on a worker is possible unless it
must lock `mtx_`, and leaves less to do. -/
theorem work_drainOne {b : ℕ} {pc : DrainPc} (hexec : s.exec = .drain none b pc)
    (hmtx : pc.locks = true → s.mtx = none) (hseal : pc = .sealWait → (s.bufs b).writers = 0) :
    ∃ s', storeStep cfg onPersist s .drain = some s' ∧ s'.work < s.work := by
  have hfree : (pc.locks && s.mtx.isSome) = false := by
    cases hlocks : pc.locks with
    | false => rfl
    | true => rw [hmtx hlocks]; rfl
  have hless : ∀ exec : Exec T, exec.toGo s.sizes < 1 + pc.toGo (s.sizes b) →
      ∀ s' : StoreState T σ, s'.pc = s.pc → s'.tasks = s.tasks → s'.exec = exec →
        s'.sizes = s.sizes → s'.work < s.work := by
    intro exec hlt s' hpc' htasks hexec' hsizes
    have hold : s.exec.toGo s.sizes = 1 + pc.toGo (s.sizes b) := congrArg (Exec.toGo s.sizes) hexec
    rw [StoreState.work, StoreState.work, hpc', htasks, hexec', hsizes]
    omega
  simp only [storeStep, drainStep, hexec, drainOneStep, hfree, if_neg Bool.false_ne_true]
  refine ⟨_, rfl, ?_⟩
  have hused : (s.bufs b).used ≤ s.sizes b := Nat.min_le_right _ _
  cases pc with
  | sealStore =>
    refine hless (.drain none b .sealWait) ?_ _ rfl rfl rfl (StoreState.sizes_setBuf rfl)
    simp only [Exec.toGo, DrainPc.toGo]
    omega
  | sealWait =>
    simp only [if_pos (hseal rfl)]
    refine hless (.drain none b .sync) ?_ _ rfl rfl rfl rfl
    simp only [Exec.toGo, DrainPc.toGo]
    omega
  | sync =>
    refine hless (.drain none b .scanStart) ?_ _ rfl rfl rfl rfl
    simp only [Exec.toGo, DrainPc.toGo]
    omega
  | scanStart =>
    refine hless (.drain none b (.scan _ 0)) ?_ _ rfl rfl rfl rfl
    simp only [Exec.toGo, DrainPc.toGo]
    omega
  | scan endPos pos =>
    simp only
    split
    · next p hframe =>
      obtain ⟨hlen, hend⟩ := MmapBuffer.frameAt_bounds hframe
      refine hless (.drain none b (.scan endPos (pos + (4 + p.length)))) ?_ _ rfl rfl rfl rfl
      simp only [Exec.toGo, DrainPc.toGo]
      omega
    · refine hless (.drain none b .resetLoad) ?_ _ rfl rfl rfl rfl
      simp only [Exec.toGo, DrainPc.toGo]
      omega
  | resetLoad => exact hless (.drain none b (.resetOffset _)) (Nat.lt_succ_self _) _ rfl rfl rfl rfl
  | resetOffset prevUsed =>
    exact hless (.drain none b (.resetUnseal prevUsed)) (Nat.lt_succ_self _) _ rfl rfl rfl
      (StoreState.sizes_setBuf rfl)
  | resetUnseal prevUsed =>
    exact hless (.drain none b (.resetMemset prevUsed)) (Nat.lt_succ_self _) _ rfl rfl rfl
      (StoreState.sizes_setBuf rfl)
  | resetMemset prevUsed =>
    exact hless (.drain none b .pushFree) (Nat.lt_succ_self _) _ rfl rfl rfl
      (StoreState.sizes_setBuf rfl)
  | pushFree => exact hless (.drain none b .notifyFree) (Nat.lt_succ_self _) _ rfl rfl rfl rfl
  | notifyFree => exact hless (.drain none b .fetchSub) (Nat.lt_succ_self _) _ rfl rfl rfl rfl
  | fetchSub =>
    simp only
    split
    · exact hless (.drain none b .notifyFlush) (Nat.lt_succ_self _) _ rfl rfl rfl rfl
    · exact hless (.loop none) (Nat.lt_add_of_pos_right (Nat.succ_pos 1)) _ rfl rfl rfl rfl
  | notifyFlush => exact hless (.loop none) (Nat.lt_succ_self _) _ rfl rfl rfl rfl

/-- The same of `Drain_`. -/
theorem work_drain (hrunner : s.exec.runner = none) (hbusy : s.exec.isIdle = false)
    (hlocks : ∀ b pc, s.exec = .drain none b pc → pc.locks = true → s.mtx = none)
    (hseal : ∀ b, s.exec = .drain none b .sealWait → (s.bufs b).writers = 0) :
    ∃ s', storeStep cfg onPersist s .drain = some s' ∧ s'.work < s.work := by
  cases hexec : s.exec with
  | idle =>
    rw [hexec] at hbusy
    cases hbusy
  | queued =>
    refine ⟨{ s with exec := .loop none }, ?_, ?_⟩
    · simp only [storeStep, drainStep, hexec]
    · have hold : s.exec.toGo s.sizes = 2 := congrArg (Exec.toGo s.sizes) hexec
      change total Pc.writeSteps s.pc + (s.tasks.map fun b => 20 + s.sizes b).sum + 1 < _
      rw [StoreState.work]
      omega
  | loop runner =>
    rw [hexec] at hrunner
    obtain rfl : runner = none := hrunner
    have hold : s.exec.toGo s.sizes = 1 := congrArg (Exec.toGo s.sizes) hexec
    cases htasks : s.tasks with
    | nil =>
      refine ⟨s.drainReturn none, ?_, ?_⟩
      · simp only [storeStep, drainStep, hexec, loopStep, htasks]
      · change total Pc.writeSteps s.pc + (s.tasks.map fun b => 20 + s.sizes b).sum + 0 < _
        rw [StoreState.work]
        omega
    | cons b rest =>
      refine ⟨{ s with tasks := rest, exec := .drain none b .sealStore }, ?_, ?_⟩
      · simp only [storeStep, drainStep, hexec, loopStep, htasks]
      · change total Pc.writeSteps s.pc + (rest.map fun b => 20 + s.sizes b).sum +
          (1 + (13 + s.sizes b)) < _
        rw [StoreState.work, htasks, List.map_cons, List.sum_cons]
        omega
  | drain runner b pc =>
    rw [hexec] at hrunner
    obtain rfl : runner = none := hrunner
    refine work_drainOne hexec (hlocks b pc hexec) fun hpc => hseal b ?_
    rw [hexec, hpc]

/-- While `mtx_` is free and the strand is not idle, a step towards that is possible. -/
theorem exists_drainsOn_step (hown : OwnInv cfg.normalise s) (hwriters : WritersInv s)
    (hmtx : s.mtx = none) (hbusy : s.exec.isIdle = false) :
    ∃ e s', DrainsOn s e ∧ storeStep cfg onPersist s e = some s' ∧ s'.work < s.work := by
  by_cases hseal : ∀ b, s.exec = .drain none b .sealWait → (s.bufs b).writers = 0
  · obtain ⟨s', hstep, hlt⟩ :
        ∃ s', storeStep cfg onPersist s .drain = some s' ∧ s'.work < s.work :=
      work_drain (hown.strand_of_mtx hmtx).1 hbusy (fun _ _ _ _ => hmtx) hseal
    exact ⟨.drain, s', .inl rfl, hstep, hlt⟩
  · -- `Seal` waits for a thread, whose steps lead it out of `Write`.
    push Not at hseal
    obtain ⟨b, -, hseal⟩ := hseal
    obtain ⟨t, ht⟩ : ∃ t, (s.pc t).countedOn b ≠ 0 := by
      by_contra hnone
      push Not at hnone
      exact hseal ((hwriters b).trans (total_eq_zero hnone))
    have hwriting : (s.pc t).writing = true := by
      cases hpc : s.pc t <;> rw [hpc] at ht <;> first | rfl | exact absurd rfl ht
    obtain ⟨s', hstep, hlt⟩ :
        ∃ s', storeStep cfg onPersist s (.step t) = some s' ∧ s'.work < s.work :=
      work_write hwriting
    exact ⟨.step t, s', .inr ⟨t, rfl, hwriting⟩, hstep, hlt⟩

omit [Fintype T] in
/-- Draining goes on without a swap. -/
theorem StoreMove.drainsOn_frame {e : StoreEvent T} (hm : StoreMove cfg onPersist s e s')
    (hon : DrainsOn s e) (hrunner : s.exec.runner = none) :
    s'.mtx = s.mtx ∧ s'.master = s.master ∧ s'.poolSize = s.poolSize := by
  have hwriting : ∀ t, e = .step t → (s.pc t).writing = true := by
    rintro t rfl
    rcases hon with he | ⟨u, he, hu⟩
    · cases he
    · cases he
      exact hu
  have hstep : ∀ {t x}, s.pc t = x → e = .step t → x.writing = true := by
    rintro t x rfl he
    exact hwriting t he
  cases hm with
  | take t k b rest hask _ _ _ => cases hask.writing.symm.trans (hwriting t rfl)
  | extend t k buf hask _ _ _ _ _ => cases hask.writing.symm.trans (hwriting t rfl)
  | exchange t k next hpc => cases hstep hpc rfl
  | count t k old hpc => cases hstep hpc rfl
  | enqueueRunning t k old hpc _ => cases hstep hpc rfl
  | enqueueIdle t k old hpc _ => cases hstep hpc rfl
  | postQueued t k hpc _ => cases hstep hpc rfl
  | drainReturn runner hexec _ =>
    rw [hexec] at hrunner
    cases hrunner
    exact ⟨rfl, rfl, rfl⟩
  | _ => exact ⟨rfl, rfl, rfl⟩

/-- While `mtx_` is free, a worker can drain and free all that is posted. -/
theorem OwnInv.swapsDrain (hown : OwnInv cfg.normalise s) (hwriters : WritersInv s) :
    SwapsDrain cfg onPersist s := by
  intro hmtx
  obtain ⟨s', hreach, ⟨hown', -, hmtx', hmaster, hpool⟩, hidle⟩ :
      ∃ s', Reach (storeStep cfg onPersist) DrainsOn s s' ∧
        (OwnInv cfg.normalise s' ∧ WritersInv s' ∧ s'.mtx = none ∧ s'.master = s.master ∧
          s'.poolSize = s.poolSize) ∧ s'.exec.isIdle = true :=
    Reach.exists_of_measure
      (I := fun s' => OwnInv cfg.normalise s' ∧ WritersInv s' ∧ s'.mtx = none ∧
        s'.master = s.master ∧ s'.poolSize = s.poolSize)
      (G := fun s' => s'.exec.isIdle = true) StoreState.work
      (fun s₁ ⟨hown₁, hwriters₁, hmtx₁, hmaster₁, hpool₁⟩ hbusy => by
        obtain ⟨e, s₂, hon, hstep, hlt⟩ :
            ∃ e s₂, DrainsOn s₁ e ∧ storeStep cfg onPersist s₁ e = some s₂ ∧ s₂.work < s₁.work :=
          exists_drainsOn_step hown₁ hwriters₁ hmtx₁ (by simpa using hbusy)
        have hm := StoreMove.of_storeStep hstep
        obtain ⟨hmtx₂, hmaster₂, hpool₂⟩ :=
          hm.drainsOn_frame hon (hown₁.strand_of_mtx hmtx₁).1
        exact ⟨e, s₂, hon, hstep, ⟨hown₁.step hm, hwriters₁.step hown₁ hm, hmtx₂.trans hmtx₁,
          hmaster₂.trans hmaster₁, hpool₂.trans hpool₁⟩, hlt⟩)
      ⟨hown, hwriters, hmtx, rfl, rfl⟩
  have htasks : s'.tasks = [] :=
    (hown'.stopped_strand ((hown'.strand_of_mtx hmtx').2 hidle)).1
  obtain ⟨-, hheld, hsub⟩ := Exec.runner_of_isIdle hidle
  have hplain : ∀ u, (s'.pc u).inSection = false := hown'.plain_of_mtx hmtx'
  refine ⟨s', hreach, ?_, hidle, fun b hb => ?_⟩
  · have hcounted : total Pc.counted s'.pc = 0 := total_eq_zero fun u => (Pc.plain (hplain u)).2.1
    rw [hown'.inFlight_eq, htasks, hsub, hcounted]
    rfl
  · -- `b` is in the pool, is not the master, and has no other place left.
    rw [List.mem_append, ← List.count_pos_iff, ← List.count_pos_iff] at hb
    have hplace := hown.place b
    have hle := hown.occurrences_le b
    have hplace' := hown'.place b
    have hcarried : total (fun pc : Pc => pc.carried.count b) s'.pc = 0 := by
      refine total_eq_zero fun u => ?_
      rw [(Pc.plain (hplain u)).1]
      rfl
    rw [hpool, ← hplace, occurrences, occurrences, hmaster, htasks, hheld, hcarried,
      List.count_nil] at hplace'
    rw [occurrences] at hle
    rw [← List.count_pos_iff]
    omega

-- ════════════════════════════════════════════════════════════════════════
-- Runs
-- ════════════════════════════════════════════════════════════════════════

/-- One thread flushes; before its drain is over, the other one appends, the pool
is shut down, and the other one flushes too. -/
def lateShutdownRun : List (StoreEvent Bool) :=
  [.append false (some [7])] ++ List.replicate 7 (.step false) ++ [.flush false] ++
    List.replicate 6 (.step false) ++ List.replicate 13 .drain ++ [.append true (some [8])] ++
      List.replicate 7 (.step true) ++ [.shutdown, .flush true] ++ List.replicate 4 (.step true)

/-- Thread `t` runs `Drain_` itself and has a drain to do whose buffer has not
been given back. -/
structure DrainsInPlace (s : StoreState T σ) (t : T) : Prop where
  inlines : (s.pc t).inlines = true
  runner : s.exec.runner = some t
  ahead : s.exec.held = [] → s.exec = .loop (some t) ∧ s.tasks ≠ []

/-- The thread that runs `Drain_` in place has no step of its own, and the
others cannot use the strand or `mtx_`. -/
theorem DrainsInPlace.step {e : StoreEvent T} {t : T} (hown : OwnInv cfg s)
    (h : DrainsInPlace s t) (hm : StoreMove cfg onPersist s e s') : DrainsInPlace s' t := by
  have hsection := Pc.inSection_of_inlines h.inlines
  have hmtx : s.mtx = some t := (hown.mtx_iff t).mpr hsection
  have hnobody : ∀ {u x}, s.pc u = x → x.inSection = true → x.inlines = true := by
    rintro u x rfl hu
    obtain rfl := hown.eq_of_inSection hsection hu
    exact h.inlines
  have hstays : ∀ {u x y}, s.pc u = y → y.inlines = false →
      (Function.update s.pc u x t).inlines = true := by
    rintro u x y rfl hu
    have hne : t ≠ u := by
      rintro rfl
      cases h.inlines.symm.trans hu
    rw [Function.update_of_ne hne]
    exact h.inlines
  have hlocked : s.mtx ≠ none := by
    rw [hmtx]
    exact Option.some_ne_none t
  have hdrain : ∀ s' : StoreState T σ, s'.pc = s.pc → s'.exec.runner = s.exec.runner →
      s'.exec.held ≠ [] → DrainsInPlace s' t := by
    intro s' hpc hrunner hheld
    exact ⟨hpc ▸ h.inlines, hrunner.trans h.runner, fun hnil => absurd hnil hheld⟩
  cases hm with
  | appendNull => exact ⟨h.inlines, h.runner, h.ahead⟩
  | destroyCall u _ hidle => exact ⟨hstays (hidle u) rfl, h.runner, h.ahead⟩
  | appendCall u data d _ hpc => exact ⟨hstays hpc rfl, h.runner, h.ahead⟩
  | flushCall u _ hpc => exact ⟨hstays hpc rfl, h.runner, h.ahead⟩
  | load u data hpc => exact ⟨hstays hpc rfl, h.runner, h.ahead⟩
  | write u data cur pc pc' hpc _ => exact ⟨hstays hpc rfl, h.runner, h.ahead⟩
  | writeTrue u data cur pc old hpc _ => exact ⟨hstays hpc rfl, h.runner, h.ahead⟩
  | writeFalse u data cur pc hpc _ => exact ⟨hstays hpc rfl, h.runner, h.ahead⟩
  | exchange u k next hpc => cases hnobody hpc rfl
  | count u k old hpc => cases hnobody hpc rfl
  | enqueueRunning u k old hpc _ => cases hnobody hpc rfl
  | enqueueIdle u k old hpc _ => cases hnobody hpc rfl
  | runInline u k hpc _ => rcases hpc with hpc | hpc <;> cases hnobody hpc rfl
  | postNext u k hpc _ => cases hnobody hpc rfl
  | postQueued u k hpc _ => cases hnobody hpc rfl
  | finish u hpc => exact ⟨hstays hpc rfl, h.runner, h.ahead⟩
  | pickUp hexec =>
    have hrunner := h.runner
    rw [hexec] at hrunner
    cases hrunner
  | drainReturn runner hexec htasks =>
    have hheld : s.exec.held = [] := by rw [hexec]; rfl
    exact absurd htasks (h.ahead hheld).2
  | pop runner b rest hexec htasks =>
    exact hdrain _ rfl (by rw [hexec]; rfl) (List.cons_ne_nil _ _)
  | sealSpin => exact h
  | sealStore _ _ hexec | sealDone _ _ hexec _ | sync _ _ hexec | scanStart _ _ hexec
  | scanFrame _ _ _ _ _ hexec _ | scanEnd _ _ _ _ hexec _ | resetLoad _ _ hexec
  | resetOffset _ _ _ hexec | resetUnseal _ _ _ hexec | resetMemset _ _ _ hexec =>
    exact hdrain _ rfl (by rw [hexec]; rfl) (List.cons_ne_nil _ _)
  | notifyFree _ _ hexec | fetchSubLast _ _ hexec _ | fetchSub _ _ hexec _ =>
    have hloop := (h.ahead (by rw [hexec]; rfl)).1
    cases hexec.symm.trans hloop
  | shutdown => exact ⟨h.inlines, h.runner, h.ahead⟩
  | _ => exact absurd (by assumption) hlocked

/-- Once a thread that posts `Drain_` finds the pool stopped, it is inside the
swap forever, and `mtx_` is never released. -/
theorem swap_never_returns {env : σ} {s₀ : StoreState T σ}
    (hcreate : StoreState.create cfg env = some s₀)
    (hr : Reach (storeStep cfg onPersist) (fun _ _ => True) s₀ s) {t : T}
    (hposts : (s.pc t).posts = true) (hpool : s.poolStopped = true) :
    ∃ s₁, storeStep cfg onPersist s (.step t) = some s₁ ∧
      ∀ s₂, Reach (storeStep cfg onPersist) (fun _ _ => True) s₁ s₂ →
        s₂.mtx = some t ∧ ∃ k, s₂.pc t = .inlineDrain k := by
  have hown := OwnInv.of_reach hcreate hr
  have hsection := Pc.inSection_of_posts hposts
  obtain ⟨k, hstep⟩ : ∃ k, storeStep cfg onPersist s (.step t) = some (s.runInline t k) := by
    simp only [storeStep, threadStep, Pc.locks_of_inSection hsection]
    cases hpc : s.pc t with
    | post k | postLocked k => exact ⟨k, by rw [hpool]; rfl⟩
    | _ =>
      rw [hpc] at hposts
      cases hposts
  refine ⟨_, hstep, fun s₂ hr₂ => ?_⟩
  have htasks := (hown.posting t hposts).2.2
  obtain ⟨hown₂, hplace⟩ : OwnInv cfg.normalise s₂ ∧ DrainsInPlace s₂ t := by
    refine hr₂.invariant (I := fun s₂ => OwnInv cfg.normalise s₂ ∧ DrainsInPlace s₂ t)
      ⟨hown.step (.of_storeStep hstep), ?_, rfl, fun _ => ⟨rfl, htasks⟩⟩
      fun _ _ _ hinv _ hstep => ?_
    · rw [StoreState.runInline, StoreState.goto_self]
      rfl
    · have hm := StoreMove.of_storeStep hstep
      exact ⟨hinv.1.step hm, hinv.2.step hinv.1 hm⟩
  refine ⟨(hown₂.mtx_iff t).mpr (Pc.inSection_of_inlines hplace.inlines), ?_⟩
  have hinlines := hplace.inlines
  cases hpc : s₂.pc t <;> rw [hpc] at hinlines <;> first | exact ⟨_, rfl⟩ | cases hinlines

/-- One `Append`, then `Shutdown`, then a `Flush`: its thread runs the drain up to
the section that gives the buffer back. -/
def shutdownRun : List (StoreEvent Unit) :=
  [.append () (some [7])] ++ List.replicate 7 (.step ()) ++ [.shutdown, .flush ()] ++
    List.replicate 5 (.step ()) ++ List.replicate 11 .drain

end LoggerHigh
