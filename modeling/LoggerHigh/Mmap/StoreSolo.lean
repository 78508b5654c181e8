import LoggerHigh.Mmap.StoreOwnership

/-!
# One thread at a time

A store shared by many threads goes, as long as only one of them is inside it,
the way a store of that thread alone goes. What holds of a single client then
holds of many that take turns.

## Main definitions

- `StoreState.solo` — the store as the thread inside it sees it
- `StoreEvent.By` — the step is the thread's, or the strand's
- `Alone` — nobody else is inside

## Main results

- `solo_threadStep`, `Alone.solo_drainStep` — a step of the thread, a step of the strand
- `Alone.solo_storeStep` — any step
-/

namespace LoggerHigh

variable {T σ : Type*}

/-- What a client sees, whoever it is. -/
def Obs.solo : Obs T → Obs Unit
  | .appendCall _ data => .appendCall () data
  | .appendRet _ data ok => .appendRet () data ok
  | .flushCall _ => .flushCall ()
  | .flushRet _ => .flushRet ()
  | .persist data threw => .persist data threw

/-- The strand, whoever runs it. -/
def Exec.solo : Exec T → Exec Unit
  | .idle => .idle
  | .queued => .queued
  | .loop runner => .loop (runner.map fun _ => ())
  | .drain runner b pc => .drain (runner.map fun _ => ()) b pc

/-- The store as the thread `t` inside it sees it. -/
def StoreState.solo (s : StoreState T σ) (t : T) : StoreState Unit σ where
  bufs := s.bufs
  poolSize := s.poolSize
  free := s.free
  master := s.master
  inFlight := s.inFlight
  persistedBytes := s.persistedBytes
  nextSeq := s.nextSeq
  stopped := s.stopped
  mtx := s.mtx.map fun _ => ()
  tasks := s.tasks
  running := s.running
  exec := s.exec.solo
  poolStopped := s.poolStopped
  closing := s.closing
  destroyed := s.destroyed
  pc := fun _ => s.pc t
  env := s.env
  hist := s.hist.map Obs.solo

/-- The event, whoever causes it. -/
def StoreEvent.solo : StoreEvent T → StoreEvent Unit
  | .append _ data => .append () data
  | .flush _ => .flush ()
  | .destroy _ => .destroy ()
  | .step _ => .step ()
  | .createFails _ => .createFails ()
  | .timeout _ => .timeout ()
  | .drain => .drain
  | .shutdown => .shutdown

/-- The event is not a call. -/
def StoreEvent.Inside : StoreEvent T → Prop
  | .append _ _ | .flush _ | .destroy _ => False
  | .step _ | .createFails _ | .timeout _ | .drain | .shutdown => True

instance : (e : StoreEvent T) → Decidable e.Inside
  | .append _ _ | .flush _ | .destroy _ => isFalse id
  | .step _ | .createFails _ | .timeout _ | .drain | .shutdown => isTrue trivial

/-- No thread causes the event, or the one that is named does. -/
def StoreEvent.By (who : Option T) : StoreEvent T → Prop
  | .append t _ | .flush t | .destroy t | .step t | .createFails t | .timeout t => who = some t
  | .drain | .shutdown => True

-- ════════════════════════════════════════════════════════════════════════
-- The history
-- ════════════════════════════════════════════════════════════════════════

theorem called_map_solo (hist : List (Obs T)) : called (hist.map Obs.solo) = called hist := by
  rw [called, called, List.filterMap_map]
  congr 1
  funext x
  cases x <;> rfl

theorem persisted_map_solo (hist : List (Obs T)) :
    persisted (hist.map Obs.solo) = persisted hist := by
  rw [persisted, persisted, List.filterMap_map]
  congr 1
  funext x
  cases x <;> rfl

theorem rejected_map_solo (hist : List (Obs T)) : rejected (hist.map Obs.solo) = rejected hist := by
  rw [rejected, rejected, List.filterMap_map]
  congr 1
  funext x
  cases x with
  | appendRet t data ok => cases ok <;> rfl
  | _ => rfl

section Thread

variable [DecidableEq T] {cfg : StoreConfig} {s : StoreState T σ} {t : T}

theorem solo_goto (pc : Pc) : (s.goto t pc).solo t = (s.solo t).goto () pc := by
  have hpc : Function.update (fun _ : Unit => s.pc t) () pc = fun _ => pc := by
    funext u
    exact Function.update_self (β := fun _ => Pc) () pc _
  simp only [StoreState.goto, StoreState.solo, Function.update_self, hpc]

omit [DecidableEq T] in
theorem solo_observe (obs : List (Obs T)) :
    (s.observe obs).solo t = (s.solo t).observe (obs.map Obs.solo) := by
  simp [StoreState.observe, StoreState.solo]

theorem solo_appendReturn (data : Bytes) (ok : Bool) :
    (s.appendReturn t data ok).solo t = (s.solo t).appendReturn () data ok := by
  rw [StoreState.appendReturn, solo_goto, solo_observe]
  rfl

theorem solo_flushReturn (dtor : Bool) :
    (s.flushReturn t dtor).solo t = (s.solo t).flushReturn () dtor := by
  rw [StoreState.flushReturn, solo_goto, solo_observe]
  rfl

theorem solo_swapFails (k : Caller) : (s.swapFails t k).solo t = (s.solo t).swapFails () k := by
  cases k with
  | append data => exact solo_appendReturn data false
  | flush dtor => exact solo_goto _

theorem solo_swapDone (k : Caller) : (s.swapDone t k).solo t = (s.solo t).swapDone () k :=
  solo_goto _

theorem solo_runInline (k : Caller) : (s.runInline t k).solo t = (s.solo t).runInline () k :=
  solo_goto _

theorem solo_acquire (k : Caller) (created : Option MmapBuffer) :
    (s.acquire cfg t k created).solo t = (s.solo t).acquire cfg () k created := by
  have hfree : (s.solo t).free = s.free := rfl
  have hpool : (s.solo t).poolSize = s.poolSize := rfl
  simp only [StoreState.acquire, hfree, hpool]
  cases s.free with
  | cons b rest => exact solo_goto _
  | nil =>
    by_cases hroom : s.poolSize < cfg.maxBuffers
    · simp only [if_pos hroom]
      cases created with
      | some buf => exact solo_goto _
      | none => exact solo_swapFails k
    · simp only [if_neg hroom]
      exact solo_goto _

theorem solo_wake (k : Caller) : (s.wake t k).solo t = (s.solo t).wake () k := by
  have hfree : (s.solo t).free = s.free := rfl
  have hstopped : (s.solo t).stopped = s.stopped := rfl
  rw [StoreState.wake, StoreState.wake, hfree, hstopped]
  by_cases hstop : s.stopped = true
  · rw [if_pos hstop, if_pos hstop]
    exact solo_swapFails k
  · rw [if_neg hstop, if_neg hstop]
    cases s.free with
    | nil => exact solo_swapFails k
    | cons b rest => exact solo_goto _

theorem solo_appendSection (data : Bytes) (cur : ℕ) (created : Option MmapBuffer) :
    (appendSection cfg s t data cur created).solo t =
      appendSection cfg (s.solo t) () data cur created := by
  have hmaster : (s.solo t).master = s.master := rfl
  have hstopped : (s.solo t).stopped = s.stopped := rfl
  rw [appendSection, appendSection, hmaster, hstopped]
  by_cases hstop : s.stopped = true
  · rw [if_pos hstop, if_pos hstop]
    exact solo_appendReturn data false
  · rw [if_neg hstop, if_neg hstop]
    by_cases hne : s.master ≠ cur
    · rw [if_pos hne, if_pos hne]
      exact solo_goto _
    · rw [if_neg hne, if_neg hne]
      exact solo_acquire _ created

theorem solo_flushSection (dtor : Bool) (created : Option MmapBuffer) :
    (flushSection cfg s t dtor created).solo t = flushSection cfg (s.solo t) () dtor created := by
  have hused : ((s.solo t).bufs (s.solo t).master).used = (s.bufs s.master).used := rfl
  have hstopped : (s.solo t).stopped = s.stopped := rfl
  rw [flushSection, flushSection, hused, hstopped]
  by_cases hstop : s.stopped = true
  · rw [if_pos hstop, if_pos hstop]
    exact solo_flushReturn dtor
  · rw [if_neg hstop, if_neg hstop]
    by_cases hpos : 0 < (s.bufs s.master).used
    · rw [if_pos hpos, if_pos hpos]
      exact solo_acquire _ created
    · rw [if_neg hpos, if_neg hpos]
      exact solo_goto _

omit [DecidableEq T] in
theorem isSome_mtx_solo : (s.solo t).mtx.isSome = s.mtx.isSome := Option.isSome_map

/-- A step of the thread, as it sees it itself. -/
theorem solo_threadStep :
    (threadStep cfg s t).map (fun s' => s'.solo t) = threadStep cfg (s.solo t) () := by
  have hpc : (s.solo t).pc () = s.pc t := rfl
  rw [threadStep, threadStep, hpc, isSome_mtx_solo]
  split
  · rfl
  · cases s.pc t with
    | idle | inlineDrain k => rfl
    | appendLoad data => exact congrArg some (solo_goto _)
    | appendWrite data cur pc =>
      have hbuf : (s.solo t).bufs cur = s.bufs cur := rfl
      simp only [hbuf, Option.map_some]
      congr 1
      split
      · exact solo_goto _
      · exact solo_appendReturn _ _
      · exact solo_goto _
    | appendLock data cur => exact congrArg some (solo_appendSection _ _ _)
    | flushLock dtor => exact congrArg some (solo_flushSection _ _)
    | waitFree k =>
      have hwake : ((s.solo t).stopped || !(s.solo t).free.isEmpty) =
        (s.stopped || !s.free.isEmpty) := rfl
      simp only [hwake]
      split
      · exact congrArg some (solo_wake k)
      · rfl
    | exchange k next => exact congrArg some (solo_goto _)
    | count k old => exact congrArg some (solo_goto _)
    | enqueue k old =>
      have hrunning : (s.solo t).running = s.running := rfl
      simp only [hrunning, Option.map_some]
      congr 1
      split
      · exact solo_swapDone k
      · exact solo_goto _
    | post k =>
      have hstopped : (s.solo t).poolStopped = s.poolStopped := rfl
      simp only [hstopped, Option.map_some]
      congr 1
      split
      · exact solo_runInline k
      · exact solo_goto _
    | postLocked k =>
      have hstopped : (s.solo t).poolStopped = s.poolStopped := rfl
      simp only [hstopped, Option.map_some]
      congr 1
      split
      · exact solo_runInline k
      · exact solo_swapDone k
    | flushWait dtor =>
      have hdone : ((s.solo t).inFlight = 0 ∨ (s.solo t).stopped = true) ↔
        (s.inFlight = 0 ∨ s.stopped = true) := Iff.rfl
      simp only [hdone]
      split
      · exact congrArg some (solo_flushReturn dtor)
      · rfl
    | dtorClose => exact congrArg some (solo_goto _)
    | dtorReturn => exact congrArg some (solo_goto _)

theorem solo_createFailsStep :
    (createFailsStep cfg s t).map (fun s' => s'.solo t) = createFailsStep cfg (s.solo t) () := by
  have hpc : (s.solo t).pc () = s.pc t := rfl
  have hguard : ((s.solo t).mtx.isSome || (s.solo t).stopped || !(s.solo t).free.isEmpty ||
      decide (cfg.maxBuffers ≤ (s.solo t).poolSize)) =
    (s.mtx.isSome || s.stopped || !s.free.isEmpty || decide (cfg.maxBuffers ≤ s.poolSize)) := by
    rw [isSome_mtx_solo]
    rfl
  rw [createFailsStep, createFailsStep, hguard, hpc]
  split
  · rfl
  · cases s.pc t with
    | appendLock data cur =>
      have hmaster : (s.solo t).master = s.master := rfl
      simp only [hmaster]
      split
      · exact congrArg some (solo_appendSection _ _ _)
      · rfl
    | flushLock dtor =>
      have hused : ((s.solo t).bufs (s.solo t).master).used = (s.bufs s.master).used := rfl
      simp only [hused]
      split
      · exact congrArg some (solo_flushSection _ _)
      · rfl
    | _ => rfl

theorem solo_timeoutStep :
    (timeoutStep s t).map (fun s' => s'.solo t) = timeoutStep (s.solo t) () := by
  have hpc : (s.solo t).pc () = s.pc t := rfl
  have hguard : ((s.solo t).mtx.isSome || (s.solo t).stopped || !(s.solo t).free.isEmpty) =
    (s.mtx.isSome || s.stopped || !s.free.isEmpty) := by
    rw [isSome_mtx_solo]
    rfl
  rw [timeoutStep, timeoutStep, hguard, hpc]
  split
  · rfl
  · cases s.pc t with
    | waitFree k =>
      cases k with
      | append data => exact congrArg some (solo_appendReturn _ _)
      | flush dtor => rfl
    | _ => rfl

theorem solo_appendCallStep (data : Option Bytes) :
    (appendCallStep s t data).map (fun s' => s'.solo t) = appendCallStep (s.solo t) () data := by
  have hguard : ((s.solo t).closing = true ∨ (s.solo t).pc () ≠ .idle) ↔
    (s.closing = true ∨ s.pc t ≠ .idle) := Iff.rfl
  simp only [appendCallStep, Bool.or_eq_true, decide_eq_true_eq, hguard]
  split
  · rfl
  · split
    · exact congrArg some (solo_observe _)
    · refine congrArg some ((solo_goto _).trans ?_)
      rw [solo_observe]
      rfl

theorem solo_flushCallStep :
    (flushCallStep s t).map (fun s' => s'.solo t) = flushCallStep (s.solo t) () := by
  have hguard : ((s.solo t).closing = true ∨ (s.solo t).pc () ≠ .idle) ↔
    (s.closing = true ∨ s.pc t ≠ .idle) := Iff.rfl
  simp only [flushCallStep, Bool.or_eq_true, decide_eq_true_eq, hguard]
  split
  · rfl
  · refine congrArg some ((solo_goto _).trans ?_)
    rw [solo_observe]
    rfl

end Thread

-- ════════════════════════════════════════════════════════════════════════
-- The strand
-- ════════════════════════════════════════════════════════════════════════

variable [DecidableEq T] [Fintype T] {cfg : StoreConfig} {onPersist : σ → Bytes → σ × Bool}
  {s s' : StoreState T σ} {t : T} {who : Option T} {e : StoreEvent T}

/-- Nobody is inside the store but the thread that is named, if any. -/
def Alone (s : StoreState T σ) (who : Option T) : Prop := ∀ t, who ≠ some t → s.pc t = .idle

instance (s : StoreState T σ) (who : Option T) : Decidable (Alone s who) :=
  inferInstanceAs (Decidable (∀ t, who ≠ some t → s.pc t = .idle))

omit [DecidableEq T] [Fintype T] in
/-- A thread inside is the one that is alone. -/
theorem Alone.eq_of_ne_idle (h : Alone s who) (ht : s.pc t ≠ .idle) : who = some t := by
  by_contra hne
  exact ht (h t hne)

theorem Alone.solo_drainReturn (hown : OwnInv cfg s) (h : Alone s (some t)) {runner : Option T}
    (hexec : s.exec.runner = runner) :
    (s.drainReturn runner).solo t = (s.solo t).drainReturn (runner.map fun _ => ()) := by
  cases runner with
  | none => rfl
  | some u =>
    have hinlines : (s.pc u).inlines = true := (hown.inlines_iff u).mpr hexec
    obtain rfl : t = u := by
      apply Option.some.inj
      apply h.eq_of_ne_idle
      intro hidle
      rw [hidle] at hinlines
      cases hinlines
    have hpc : (s.solo t).pc () = s.pc t := rfl
    simp only [StoreState.drainReturn, Option.map_some, hpc]
    split
    · exact solo_swapDone _
    · rfl

omit [DecidableEq T] [Fintype T] in
/-- A step of `DrainOne_` does not depend on who runs it. -/
theorem solo_drainOneStep (runner : Option T) (b : ℕ) (pc : DrainPc) :
    (drainOneStep onPersist s runner b pc).map (fun s' => s'.solo t) =
      drainOneStep onPersist (s.solo t) (runner.map fun _ => ()) b pc := by
  have hbuf : (s.solo t).bufs b = s.bufs b := rfl
  have hinFlight : (s.solo t).inFlight = s.inFlight := rfl
  rw [drainOneStep, drainOneStep, isSome_mtx_solo]
  split
  · rfl
  · refine congrArg some ?_
    cases pc with
    | sealWait =>
      simp only [hbuf]
      split <;> rfl
    | scan endPos pos =>
      simp only [hbuf]
      split
      · simp only [StoreState.persist, StoreState.drainTo, StoreState.solo, List.map_append]
        rfl
      · rfl
    | fetchSub =>
      simp only [hinFlight]
      split <;> rfl
    | _ => rfl

/-- A step of the strand, as the thread inside sees it. -/
theorem Alone.solo_drainStep (hown : OwnInv cfg s) (h : Alone s (some t)) :
    (drainStep onPersist s).map (fun s' => s'.solo t) = drainStep onPersist (s.solo t) := by
  have hexec' : (s.solo t).exec = s.exec.solo := rfl
  rw [drainStep, drainStep, hexec']
  cases hexec : s.exec with
  | idle => rfl
  | queued => rfl
  | loop runner =>
    have htasks : (s.solo t).tasks = s.tasks := rfl
    refine congrArg some ?_
    rw [loopStep, loopStep, htasks]
    cases s.tasks with
    | nil => exact h.solo_drainReturn hown (by rw [hexec]; rfl)
    | cons b rest => rfl
  | drain runner b pc => exact solo_drainOneStep runner b pc

-- ════════════════════════════════════════════════════════════════════════
-- Steps
-- ════════════════════════════════════════════════════════════════════════

/-- A step of the thread that is alone, or of the strand, is one of a store of its own. -/
theorem Alone.solo_storeStep (hown : OwnInv cfg.normalise s) (h : Alone s (some t))
    (hby : e.By (some t)) (hstep : storeStep cfg onPersist s e = some s') :
    storeStep cfg onPersist (s.solo t) e.solo = some (s'.solo t) := by
  cases e with
  | append u data =>
    obtain rfl : t = u := Option.some.inj hby
    exact (solo_appendCallStep data).symm.trans (congrArg _ hstep)
  | flush u =>
    obtain rfl : t = u := Option.some.inj hby
    exact solo_flushCallStep.symm.trans (congrArg _ hstep)
  | destroy u =>
    obtain rfl : t = u := Option.some.inj hby
    rw [storeStep, destroyStep] at hstep
    split at hstep
    · next hfree =>
      cases hstep
      refine (if_pos ⟨hfree.1, fun _ => hfree.2 t⟩).trans (congrArg some ?_)
      rw [solo_goto, solo_observe]
      rfl
    · cases hstep
  | step u =>
    obtain rfl : t = u := Option.some.inj hby
    exact solo_threadStep.symm.trans (congrArg _ hstep)
  | createFails u =>
    obtain rfl : t = u := Option.some.inj hby
    exact solo_createFailsStep.symm.trans (congrArg _ hstep)
  | timeout u =>
    obtain rfl : t = u := Option.some.inj hby
    exact solo_timeoutStep.symm.trans (congrArg _ hstep)
  | drain => exact (h.solo_drainStep hown).symm.trans (congrArg _ hstep)
  | shutdown =>
    cases hstep
    rfl

omit [DecidableEq T] [Fintype T] in
theorem Asking.ne_idle {k : Caller} (h : Asking s t k) : s.pc t ≠ .idle := by
  cases h with
  | append data hpc | flush dtor hpc _ | wait k hpc =>
    rw [hpc]
    rintro ⟨⟩

omit [Fintype T] in
/-- A thread that is alone stays alone. -/
theorem Alone.step (h : Alone s who) (hby : e.By who) (hm : StoreMove cfg onPersist s e s') :
    Alone s' who := by
  have hmove : ∀ {t x}, who = some t → s'.pc = Function.update s.pc t x → Alone s' who := by
    rintro t x rfl hpc u hu
    have hne : u ≠ t := fun heq => hu (congrArg some heq.symm)
    rw [hpc, Function.update_of_ne hne]
    exact h u hu
  have hself : ∀ {t : T} {pc : Pc}, s.pc t = pc → pc ≠ .idle → who = some t := fun hpc hne =>
    h.eq_of_ne_idle (hpc ▸ hne)
  cases hm with
  | appendNull => exact h
  | appendCall t | flushCall t | destroyCall t => exact hmove hby rfl
  | load t _ hpc | write t _ _ _ _ hpc | writeTrue t _ _ _ _ hpc | writeFalse t _ _ _ hpc
  | appendStopped t _ _ hpc | appendRetry t _ _ hpc | flushStopped t _ hpc | flushEmpty t _ hpc
  | exchange t _ _ hpc | count t _ _ hpc | enqueueRunning t _ _ hpc | enqueueIdle t _ _ hpc
  | postNext t _ hpc | postQueued t _ hpc | flushDone t _ hpc | close t hpc | finish t hpc =>
    exact hmove (hself hpc (by rintro ⟨⟩)) rfl
  | take t _ _ _ hask | extend t _ _ hask | startWait t _ hask | giveUpAppend _ t _ _ hask
  | giveUpFlush _ t _ _ hask => exact hmove (h.eq_of_ne_idle hask.ne_idle) rfl
  | runInline t _ hpc =>
    rcases hpc with hpc | hpc
    all_goals exact hmove (hself hpc (by rintro ⟨⟩)) rfl
  | drainReturn runner hexec =>
    cases runner with
    | none => exact h
    | some t =>
      simp only [StoreState.drainReturn] at hmove ⊢
      split at hmove
      · next k hpc => exact hmove (hself hpc (by rintro ⟨⟩)) rfl
      · exact h
  | _ => exact h

/-- Only a thread inside takes steps there. -/
theorem Alone.by_of_storeStep (h : Alone s who) (hinside : e.Inside)
    (hstep : storeStep cfg onPersist s e = some s') : e.By who := by
  cases e with
  | append t data | flush t | destroy t => exact hinside.elim
  | step t =>
    apply h.eq_of_ne_idle
    intro hidle
    rw [storeStep, threadStep, hidle] at hstep
    simp at hstep
  | createFails t =>
    apply h.eq_of_ne_idle
    intro hidle
    rw [storeStep, createFailsStep, hidle] at hstep
    simp at hstep
  | timeout t =>
    apply h.eq_of_ne_idle
    intro hidle
    rw [storeStep, timeoutStep, hidle] at hstep
    simp at hstep
  | drain | shutdown => trivial

omit [Fintype T] [DecidableEq T] in
/-- While nobody is inside, the store looks the same to every thread. -/
theorem Alone.solo_eq (h : Alone s none) (t u : T) : s.solo t = s.solo u := by
  have hpc : s.pc t = s.pc u := (h t (by rintro ⟨⟩)).trans (h u (by rintro ⟨⟩)).symm
  simp only [StoreState.solo, hpc]

omit [Fintype T] [DecidableEq T] in
theorem Alone.some_of_none (h : Alone s none) (t : T) : Alone s (some t) := fun u _ =>
  h u (by rintro ⟨⟩)

end LoggerHigh
