import LoggerHigh.Mmap.MmapStore

/-!
# What a step of the store can be

`StoreMove` lists the steps of `storeStep` once, each with what it needs and
the state it leads to, so that an invariant is shown by one case for each.

## Main results

- `StoreMove.of_storeStep` — every step is in the list
-/

namespace LoggerHigh

variable {T σ : Type*} [DecidableEq T] [Fintype T]

/-- Thread `t` is about to ask `AcquireFreeBufferLocked_` for a buffer on
behalf of `k`, or waits for one there. -/
inductive Asking (s : StoreState T σ) (t : T) : Caller → Prop
  | append (data : Bytes) (hpc : s.pc t = .appendLock data s.master) : Asking s t (.append data)
  | flush (dtor : Bool) (hpc : s.pc t = .flushLock dtor) (hused : 0 < (s.bufs s.master).used) :
      Asking s t (.flush dtor)
  | wait (k : Caller) (hpc : s.pc t = .waitFree k) : Asking s t k

/-- The steps of the store. -/
inductive StoreMove (cfg : StoreConfig) (onPersist : σ → Bytes → σ × Bool)
    (s : StoreState T σ) : StoreEvent T → StoreState T σ → Prop
  | appendNull (t : T) (data : Option Bytes) (hopen : s.closing = false) (hpc : s.pc t = .idle) :
      StoreMove cfg onPersist s (.append t data)
        (s.observe [.appendCall t [], .appendRet t [] false])
  | appendCall (t : T) (data : Option Bytes) (d : Bytes) (hopen : s.closing = false)
      (hpc : s.pc t = .idle) : StoreMove cfg onPersist s (.append t data)
        ((s.observe [.appendCall t d]).goto t (.appendLoad d))
  | flushCall (t : T) (hopen : s.closing = false) (hpc : s.pc t = .idle) :
      StoreMove cfg onPersist s (.flush t)
        ((s.observe [.flushCall t]).goto t (.flushLock false))
  | destroyCall (t : T) (hopen : s.closing = false) (hidle : ∀ u, s.pc u = .idle) :
      StoreMove cfg onPersist s (.destroy t)
        (({ s with closing := true }.observe [.flushCall t]).goto t (.flushLock true))
  | load (t : T) (data : Bytes) (hpc : s.pc t = .appendLoad data) :
      StoreMove cfg onPersist s (.step t) (s.goto t (.appendWrite data s.master .enter))
  | write (t : T) (data : Bytes) (cur : ℕ) (pc pc' : WritePc)
      (hpc : s.pc t = .appendWrite data cur pc)
      (hnext : (writeStep (s.bufs cur) data pc).2 = .at pc') :
      StoreMove cfg onPersist s (.step t)
        ((s.setBuf cur (writeStep (s.bufs cur) data pc).1).goto t (.appendWrite data cur pc'))
  | writeTrue (t : T) (data : Bytes) (cur : ℕ) (pc : WritePc) (old : ℕ)
      (hpc : s.pc t = .appendWrite data cur pc)
      (hnext : (writeStep (s.bufs cur) data pc).2 = .returned (some old)) :
      StoreMove cfg onPersist s (.step t)
        ((s.setBuf cur (writeStep (s.bufs cur) data pc).1).appendReturn t data true)
  | writeFalse (t : T) (data : Bytes) (cur : ℕ) (pc : WritePc)
      (hpc : s.pc t = .appendWrite data cur pc)
      (hnext : (writeStep (s.bufs cur) data pc).2 = .returned none) :
      StoreMove cfg onPersist s (.step t)
        ((s.setBuf cur (writeStep (s.bufs cur) data pc).1).goto t (.appendLock data cur))
  | appendStopped (t : T) (data : Bytes) (cur : ℕ) (hpc : s.pc t = .appendLock data cur)
      (hmtx : s.mtx = none) (hstopped : s.stopped = true) :
      StoreMove cfg onPersist s (.step t) (s.appendReturn t data false)
  | appendRetry (t : T) (data : Bytes) (cur : ℕ) (hpc : s.pc t = .appendLock data cur)
      (hmtx : s.mtx = none) (hne : s.master ≠ cur) :
      StoreMove cfg onPersist s (.step t) (s.goto t (.appendLoad data))
  | flushStopped (t : T) (dtor : Bool) (hpc : s.pc t = .flushLock dtor) (hmtx : s.mtx = none)
      (hstopped : s.stopped = true) : StoreMove cfg onPersist s (.step t) (s.flushReturn t dtor)
  | flushEmpty (t : T) (dtor : Bool) (hpc : s.pc t = .flushLock dtor) (hmtx : s.mtx = none)
      (hused : (s.bufs s.master).used = 0) :
      StoreMove cfg onPersist s (.step t) (s.goto t (.flushWait dtor))
  | take (t : T) (k : Caller) (b : ℕ) (rest : List ℕ) (hask : Asking s t k) (hmtx : s.mtx = none)
      (hstopped : s.stopped = false) (hfree : s.free = b :: rest) :
      StoreMove cfg onPersist s (.step t)
        ({ s with free := rest, mtx := some t }.goto t (.exchange k b))
  | extend (t : T) (k : Caller) (buf : MmapBuffer) (hask : Asking s t k) (hmtx : s.mtx = none)
      (hstopped : s.stopped = false) (hfree : s.free = []) (hroom : s.poolSize < cfg.maxBuffers)
      (hopen : cfg.openBuffer s.nextSeq = some buf) :
      StoreMove cfg onPersist s (.step t)
        ({ s with
          bufs := Function.update s.bufs s.poolSize buf
          poolSize := s.poolSize + 1
          nextSeq := s.nextSeq + 1
          mtx := some t }.goto t (.exchange k s.poolSize))
  | giveUpAppend (e : StoreEvent T) (t : T) (data : Bytes) (seq : ℕ)
      (hask : Asking s t (.append data)) (hmtx : s.mtx = none) :
      StoreMove cfg onPersist s e ({ s with nextSeq := seq }.appendReturn t data false)
  | giveUpFlush (e : StoreEvent T) (t : T) (dtor : Bool) (seq : ℕ)
      (hask : Asking s t (.flush dtor)) (hmtx : s.mtx = none)
      (hwhy : e = .createFails t ∨ s.stopped = true ∨ cfg.openBuffer s.nextSeq = none) :
      StoreMove cfg onPersist s e ({ s with nextSeq := seq }.goto t (.flushWait dtor))
  | startWait (t : T) (k : Caller) (hask : Asking s t k) (hmtx : s.mtx = none)
      (hfree : s.free = []) (hfull : cfg.maxBuffers ≤ s.poolSize) :
      StoreMove cfg onPersist s (.step t) (s.goto t (.waitFree k))
  | exchange (t : T) (k : Caller) (next : ℕ) (hpc : s.pc t = .exchange k next) :
      StoreMove cfg onPersist s (.step t) ({ s with master := next }.goto t (.count k s.master))
  | count (t : T) (k : Caller) (old : ℕ) (hpc : s.pc t = .count k old) :
      StoreMove cfg onPersist s (.step t)
        ({ s with inFlight := s.inFlight + 1 }.goto t (.enqueue k old))
  | enqueueRunning (t : T) (k : Caller) (old : ℕ) (hpc : s.pc t = .enqueue k old)
      (hrunning : s.running = true) : StoreMove cfg onPersist s (.step t)
        ({ s with tasks := s.tasks ++ [old] }.swapDone t k)
  | enqueueIdle (t : T) (k : Caller) (old : ℕ) (hpc : s.pc t = .enqueue k old)
      (hrunning : s.running = false) : StoreMove cfg onPersist s (.step t)
        ({ s with tasks := s.tasks ++ [old], running := true }.goto t (.post k))
  | runInline (t : T) (k : Caller) (hpc : s.pc t = .post k ∨ s.pc t = .postLocked k)
      (hpool : s.poolStopped = true) : StoreMove cfg onPersist s (.step t) (s.runInline t k)
  | postNext (t : T) (k : Caller) (hpc : s.pc t = .post k) (hpool : s.poolStopped = false) :
      StoreMove cfg onPersist s (.step t) (s.goto t (.postLocked k))
  | postQueued (t : T) (k : Caller) (hpc : s.pc t = .postLocked k)
      (hpool : s.poolStopped = false) :
      StoreMove cfg onPersist s (.step t) ({ s with exec := .queued }.swapDone t k)
  | flushDone (t : T) (dtor : Bool) (hpc : s.pc t = .flushWait dtor) (hmtx : s.mtx = none)
      (hdone : s.inFlight = 0 ∨ s.stopped = true) :
      StoreMove cfg onPersist s (.step t) (s.flushReturn t dtor)
  | close (t : T) (hpc : s.pc t = .dtorClose) (hmtx : s.mtx = none) :
      StoreMove cfg onPersist s (.step t) ({ s with stopped := true }.goto t .dtorReturn)
  | finish (t : T) (hpc : s.pc t = .dtorReturn) :
      StoreMove cfg onPersist s (.step t) ({ s with destroyed := true }.goto t .idle)
  | pickUp (hexec : s.exec = .queued) :
      StoreMove cfg onPersist s .drain { s with exec := .loop none }
  | drainReturn (runner : Option T) (hexec : s.exec = .loop runner) (htasks : s.tasks = []) :
      StoreMove cfg onPersist s .drain (s.drainReturn runner)
  | pop (runner : Option T) (b : ℕ) (rest : List ℕ) (hexec : s.exec = .loop runner)
      (htasks : s.tasks = b :: rest) : StoreMove cfg onPersist s .drain
        { s with tasks := rest, exec := .drain runner b .sealStore }
  | sealStore (runner : Option T) (b : ℕ) (hexec : s.exec = .drain runner b .sealStore) :
      StoreMove cfg onPersist s .drain
        ((s.setBuf b (s.bufs b).storeSealed).drainTo runner b .sealWait)
  | sealSpin (runner : Option T) (b : ℕ) (hexec : s.exec = .drain runner b .sealWait)
      (hwriters : (s.bufs b).writers ≠ 0) : StoreMove cfg onPersist s .drain s
  | sealDone (runner : Option T) (b : ℕ) (hexec : s.exec = .drain runner b .sealWait)
      (hwriters : (s.bufs b).writers = 0) :
      StoreMove cfg onPersist s .drain (s.drainTo runner b .sync)
  | sync (runner : Option T) (b : ℕ) (hexec : s.exec = .drain runner b .sync) :
      StoreMove cfg onPersist s .drain (s.drainTo runner b .scanStart)
  | scanStart (runner : Option T) (b : ℕ) (hexec : s.exec = .drain runner b .scanStart) :
      StoreMove cfg onPersist s .drain (s.drainTo runner b (.scan (s.bufs b).used 0))
  | scanFrame (runner : Option T) (b endPos pos : ℕ) (p : Bytes)
      (hexec : s.exec = .drain runner b (.scan endPos pos))
      (hframe : (s.bufs b).frameAt endPos pos = some p) :
      StoreMove cfg onPersist s .drain
        ((s.persist onPersist p).drainTo runner b (.scan endPos (pos + (4 + p.length))))
  | scanEnd (runner : Option T) (b endPos pos : ℕ)
      (hexec : s.exec = .drain runner b (.scan endPos pos))
      (hframe : (s.bufs b).frameAt endPos pos = none) :
      StoreMove cfg onPersist s .drain (s.drainTo runner b .resetLoad)
  | resetLoad (runner : Option T) (b : ℕ) (hexec : s.exec = .drain runner b .resetLoad) :
      StoreMove cfg onPersist s .drain (s.drainTo runner b (.resetOffset (s.bufs b).used))
  | resetOffset (runner : Option T) (b prevUsed : ℕ)
      (hexec : s.exec = .drain runner b (.resetOffset prevUsed)) :
      StoreMove cfg onPersist s .drain
        ((s.setBuf b (s.bufs b).storeOffset).drainTo runner b (.resetUnseal prevUsed))
  | resetUnseal (runner : Option T) (b prevUsed : ℕ)
      (hexec : s.exec = .drain runner b (.resetUnseal prevUsed)) :
      StoreMove cfg onPersist s .drain
        ((s.setBuf b (s.bufs b).storeUnsealed).drainTo runner b (.resetMemset prevUsed))
  | resetMemset (runner : Option T) (b prevUsed : ℕ)
      (hexec : s.exec = .drain runner b (.resetMemset prevUsed)) :
      StoreMove cfg onPersist s .drain
        ((s.setBuf b ((s.bufs b).memset prevUsed)).drainTo runner b .pushFree)
  | pushFree (runner : Option T) (b : ℕ) (hexec : s.exec = .drain runner b .pushFree)
      (hmtx : s.mtx = none) : StoreMove cfg onPersist s .drain
        ({ s with free := s.free ++ [b] }.drainTo runner b .notifyFree)
  | notifyFree (runner : Option T) (b : ℕ) (hexec : s.exec = .drain runner b .notifyFree) :
      StoreMove cfg onPersist s .drain (s.drainTo runner b .fetchSub)
  | fetchSubLast (runner : Option T) (b : ℕ) (hexec : s.exec = .drain runner b .fetchSub)
      (hleft : s.inFlight - 1 = 0) : StoreMove cfg onPersist s .drain
        ({ s with inFlight := s.inFlight - 1 }.drainTo runner b .notifyFlush)
  | fetchSub (runner : Option T) (b : ℕ) (hexec : s.exec = .drain runner b .fetchSub)
      (hleft : s.inFlight - 1 ≠ 0) : StoreMove cfg onPersist s .drain
        { s with inFlight := s.inFlight - 1, exec := .loop runner }
  | notifyFlush (runner : Option T) (b : ℕ) (hexec : s.exec = .drain runner b .notifyFlush)
      (hmtx : s.mtx = none) : StoreMove cfg onPersist s .drain { s with exec := .loop runner }
  | shutdown : StoreMove cfg onPersist s .shutdown { s with poolStopped := true }

variable {cfg : StoreConfig} {onPersist : σ → Bytes → σ × Bool} {s s' : StoreState T σ}

omit [Fintype T] in
/-- What `AcquireFreeBufferLocked_` can do before it waits. -/
theorem StoreMove.of_acquire {t : T} {k : Caller} {e : StoreEvent T} {created : Option MmapBuffer}
    (hask : Asking s t k) (hmtx : s.mtx = none) (hstopped : s.stopped = false)
    (he : e = .step t ∧ created = cfg.openBuffer s.nextSeq ∨ e = .createFails t ∧ created = none ∧
      s.free = [] ∧ s.poolSize < cfg.maxBuffers) :
    StoreMove cfg onPersist s e (s.acquire cfg t k created) := by
  simp only [StoreState.acquire]
  split
  · next b rest hfree =>
    rcases he with ⟨rfl, -⟩ | ⟨-, -, hnil, -⟩
    · exact .take t k b rest hask hmtx hstopped hfree
    · rw [hnil] at hfree
      cases hfree
  · next hfree =>
    by_cases hroom : s.poolSize < cfg.maxBuffers
    · rw [if_pos hroom]
      cases created with
      | some buf =>
        rcases he with ⟨rfl, hcreated⟩ | ⟨-, hcreated, -⟩
        · exact .extend t k buf hask hmtx hstopped hfree hroom hcreated.symm
        · cases hcreated
      | none =>
        cases k with
        | append data => exact .giveUpAppend e t data _ hask hmtx
        | flush dtor =>
          refine .giveUpFlush e t dtor _ hask hmtx ?_
          rcases he with ⟨-, hcreated⟩ | ⟨rfl, -⟩
          · exact .inr (.inr hcreated.symm)
          · exact .inl rfl
    · rw [if_neg hroom]
      rcases he with ⟨rfl, -⟩ | ⟨-, -, -, hlt⟩
      · exact .startWait t k hask hmtx hfree (Nat.le_of_not_lt hroom)
      · exact absurd hlt hroom

omit [Fintype T] in
theorem StoreMove.of_threadStep {t : T} (h : threadStep cfg s t = some s') :
    StoreMove cfg onPersist s (.step t) s' := by
  rw [threadStep] at h
  split at h
  · cases h
  · next hfree =>
    have hmtx : (s.pc t).locks = true → s.mtx = none := by
      intro hlocks
      rw [hlocks, Bool.true_and, Bool.not_eq_true, Option.isSome_eq_false_iff,
        Option.isNone_iff_eq_none] at hfree
      exact hfree
    cases hpc : s.pc t with
    | idle => simp [hpc] at h
    | inlineDrain k => simp [hpc] at h
    | appendLoad data =>
      simp only [hpc] at h
      cases h
      exact .load t data hpc
    | appendWrite data cur pc =>
      simp only [hpc] at h
      split at h
      · next pc' hnext =>
        cases h
        exact .write t data cur pc pc' hpc hnext
      · next old hnext =>
        cases h
        exact .writeTrue t data cur pc old hpc hnext
      · next hnext =>
        cases h
        exact .writeFalse t data cur pc hpc hnext
    | appendLock data cur =>
      simp only [hpc] at h
      cases h
      have hmtx := hmtx (by rw [hpc]; rfl)
      rw [appendSection]
      split
      · next hstopped => exact .appendStopped t data cur hpc hmtx hstopped
      · next hstopped =>
        split
        · next hne => exact .appendRetry t data cur hpc hmtx hne
        · next heq =>
          obtain rfl : s.master = cur := not_not.mp heq
          exact .of_acquire (.append data hpc) hmtx (by simpa using hstopped) (.inl ⟨rfl, rfl⟩)
    | flushLock dtor =>
      simp only [hpc] at h
      cases h
      have hmtx := hmtx (by rw [hpc]; rfl)
      rw [flushSection]
      split
      · next hstopped => exact .flushStopped t dtor hpc hmtx hstopped
      · next hstopped =>
        split
        · next hused =>
          exact .of_acquire (.flush dtor hpc hused) hmtx (by simpa using hstopped)
            (.inl ⟨rfl, rfl⟩)
        · next hused => exact .flushEmpty t dtor hpc hmtx (by omega)
    | waitFree k =>
      simp only [hpc] at h
      have hmtx := hmtx (by rw [hpc]; rfl)
      split at h
      · next hpred =>
        cases h
        rw [StoreState.wake]
        have hask : Asking s t k := .wait k hpc
        split
        · next hstopped =>
          cases k with
          | append data => exact .giveUpAppend _ t data s.nextSeq hask hmtx
          | flush dtor => exact .giveUpFlush _ t dtor s.nextSeq hask hmtx (.inr (.inl hstopped))
        · next hstopped =>
          split
          · next hnil => simp [hnil, hstopped] at hpred
          · next b rest hcons =>
            exact .take t k b rest hask hmtx (by simpa using hstopped) hcons
      · cases h
    | exchange k next =>
      simp only [hpc] at h
      cases h
      exact .exchange t k next hpc
    | count k old =>
      simp only [hpc] at h
      cases h
      exact .count t k old hpc
    | enqueue k old =>
      simp only [hpc] at h
      cases h
      split
      · next hrunning => exact .enqueueRunning t k old hpc hrunning
      · next hrunning => exact .enqueueIdle t k old hpc (by simpa using hrunning)
    | post k =>
      simp only [hpc] at h
      cases h
      split
      · next hpool => exact .runInline t k (.inl hpc) hpool
      · next hpool => exact .postNext t k hpc (by simpa using hpool)
    | postLocked k =>
      simp only [hpc] at h
      cases h
      split
      · next hpool => exact .runInline t k (.inr hpc) hpool
      · next hpool => exact .postQueued t k hpc (by simpa using hpool)
    | flushWait dtor =>
      simp only [hpc] at h
      split at h
      · next hdone =>
        cases h
        exact .flushDone t dtor hpc (hmtx (by rw [hpc]; rfl)) hdone
      · cases h
    | dtorClose =>
      simp only [hpc] at h
      cases h
      exact .close t hpc (hmtx (by rw [hpc]; rfl))
    | dtorReturn =>
      simp only [hpc] at h
      cases h
      exact .finish t hpc

omit [Fintype T] in
theorem StoreMove.of_createFailsStep {t : T} (h : createFailsStep cfg s t = some s') :
    StoreMove cfg onPersist s (.createFails t) s' := by
  rw [createFailsStep] at h
  split at h
  · cases h
  · next hguard =>
    simp only [Bool.or_eq_true, decide_eq_true_eq, Bool.not_eq_true', not_or, Bool.not_eq_true,
      Option.isSome_eq_false_iff, Option.isNone_iff_eq_none, Bool.not_eq_false,
      List.isEmpty_iff, Nat.not_le] at hguard
    obtain ⟨⟨⟨hmtx, hstopped⟩, hfree⟩, hroom⟩ := hguard
    split at h
    · next data cur hpc =>
      split at h
      · next hmaster =>
        subst hmaster
        cases h
        rw [appendSection, if_neg (by rw [hstopped]; exact Bool.false_ne_true),
          if_neg (not_not.mpr rfl)]
        exact .of_acquire (.append data hpc) hmtx hstopped (.inr ⟨rfl, rfl, hfree, hroom⟩)
      · cases h
    · next dtor hpc =>
      split at h
      · next hused =>
        cases h
        rw [flushSection, if_neg (by rw [hstopped]; exact Bool.false_ne_true), if_pos hused]
        exact .of_acquire (.flush dtor hpc hused) hmtx hstopped (.inr ⟨rfl, rfl, hfree, hroom⟩)
      · cases h
    · cases h

omit [Fintype T] in
theorem StoreMove.of_timeoutStep {t : T} (h : timeoutStep s t = some s') :
    StoreMove cfg onPersist s (.timeout t) s' := by
  rw [timeoutStep] at h
  split at h
  · cases h
  · next hguard =>
    simp only [Bool.or_eq_true, not_or, Bool.not_eq_true, Option.isSome_eq_false_iff,
      Option.isNone_iff_eq_none] at hguard
    split at h
    · next data hpc =>
      cases h
      exact .giveUpAppend _ t data s.nextSeq (.wait _ hpc) hguard.1.1
    · cases h

omit [Fintype T] in
theorem StoreMove.of_drainOneStep {runner : Option T} {b : ℕ} {pc : DrainPc}
    (hexec : s.exec = .drain runner b pc) (h : drainOneStep onPersist s runner b pc = some s') :
    StoreMove cfg onPersist s .drain s' := by
  rw [drainOneStep] at h
  split at h
  · cases h
  · next hfree =>
    have hmtx : pc.locks = true → s.mtx = none := by
      intro hlocks
      rw [hlocks, Bool.true_and, Bool.not_eq_true, Option.isSome_eq_false_iff,
        Option.isNone_iff_eq_none] at hfree
      exact hfree
    cases pc with
    | sealStore =>
      cases h
      exact .sealStore runner b hexec
    | sealWait =>
      cases h
      simp only
      split
      · next hzero => exact .sealDone runner b hexec hzero
      · next hwriters => exact .sealSpin runner b hexec hwriters
    | sync =>
      cases h
      exact .sync runner b hexec
    | scanStart =>
      cases h
      exact .scanStart runner b hexec
    | scan endPos pos =>
      cases h
      simp only
      split
      · next p hframe => exact .scanFrame runner b endPos pos p hexec hframe
      · next hframe => exact .scanEnd runner b endPos pos hexec hframe
    | resetLoad =>
      cases h
      exact .resetLoad runner b hexec
    | resetOffset prevUsed =>
      cases h
      exact .resetOffset runner b prevUsed hexec
    | resetUnseal prevUsed =>
      cases h
      exact .resetUnseal runner b prevUsed hexec
    | resetMemset prevUsed =>
      cases h
      exact .resetMemset runner b prevUsed hexec
    | pushFree =>
      cases h
      exact .pushFree runner b hexec (hmtx rfl)
    | notifyFree =>
      cases h
      exact .notifyFree runner b hexec
    | fetchSub =>
      cases h
      simp only
      split
      · next hleft => exact .fetchSubLast runner b hexec hleft
      · next hleft => exact .fetchSub runner b hexec hleft
    | notifyFlush =>
      cases h
      exact .notifyFlush runner b hexec (hmtx rfl)

omit [Fintype T] in
theorem StoreMove.of_drainStep (h : drainStep onPersist s = some s') :
    StoreMove cfg onPersist s .drain s' := by
  rw [drainStep] at h
  split at h
  · cases h
  · next hexec =>
    cases h
    exact .pickUp hexec
  · next runner hexec =>
    cases h
    simp only [loopStep]
    split
    · next htasks => exact .drainReturn runner hexec htasks
    · next b rest htasks => exact .pop runner b rest hexec htasks
  · next runner b pc hexec => exact .of_drainOneStep hexec h

/-- Every step of the store is one of the list. -/
theorem StoreMove.of_storeStep {e : StoreEvent T} (h : storeStep cfg onPersist s e = some s') :
    StoreMove cfg.normalise onPersist s e s' := by
  cases e with
  | append t data =>
    simp only [storeStep, appendCallStep] at h
    split at h
    · cases h
    · next hguard =>
      simp only [Bool.or_eq_true, decide_eq_true_eq, not_or, Bool.not_eq_true, ne_eq,
        not_not] at hguard
      split at h
      · next hempty =>
        cases h
        rw [List.length_eq_zero_iff.mp hempty]
        exact .appendNull t data hguard.1 hguard.2
      · cases h
        exact .appendCall t data _ hguard.1 hguard.2
  | flush t =>
    simp only [storeStep, flushCallStep] at h
    split at h
    · cases h
    · next hguard =>
      simp only [Bool.or_eq_true, decide_eq_true_eq, not_or, Bool.not_eq_true, ne_eq,
        not_not] at hguard
      cases h
      exact .flushCall t hguard.1 hguard.2
  | destroy t =>
    simp only [storeStep, destroyStep] at h
    split at h
    · next hguard =>
      cases h
      exact .destroyCall t hguard.1 hguard.2
    · cases h
  | step t => exact .of_threadStep h
  | createFails t => exact .of_createFailsStep h
  | timeout t => exact .of_timeoutStep h
  | drain => exact .of_drainStep h
  | shutdown =>
    cases h
    exact .shutdown

end LoggerHigh
