import LoggerHigh.Lib.Transition
import LoggerHigh.Mmap.BufferCycle
import Mathlib.Data.Fintype.Basic

/-!
# MmapStore

`mmap/mmap_store.{h,cpp}` with the parts of `context/strand.cpp` and
`context/thread_pool.cpp` its drains go through. Client threads call `Append`
and `Flush`, the owner may run the destructor, and the strand runs `DrainOne_`
on a pool worker, or inside the posting thread once the pool has been stopped.

A step is one atomic operation, one copy, one section under `mtx_` up to the
point where it waits or posts, or one frame handed to `on_persist`. A wait on a
condition variable ends in any state in which its predicate holds.

## Main definitions

- `StoreConfig`, `StoreState`, `StoreState.create` — the constructor
- `Pc`, `threadStep` — a client thread inside `Append`, `Flush` or `~MmapStore`
- `Exec`, `DrainPc`, `drainStep` — the strand's `Drain_` and `DrainOne_`
- `storeStep` — the whole machine
-/

namespace LoggerHigh

/-- `MmapStore::Config`, the page size, and the content the files
`buffer-%06llu.mmap` in `cfg.dir` have before the store opens them. -/
structure StoreConfig where
  bufferBytes : ℕ
  minBuffers : ℕ
  maxBuffers : ℕ
  page : ℕ
  files : ℕ → Bytes

/-- The defaults the constructor fills in. -/
def StoreConfig.normalise (cfg : StoreConfig) : StoreConfig :=
  let minBuffers := if cfg.minBuffers = 0 then 2 else cfg.minBuffers
  { cfg with
    minBuffers := minBuffers
    maxBuffers := if cfg.maxBuffers < minBuffers then minBuffers else cfg.maxBuffers
    bufferBytes := if cfg.bufferBytes = 0 then 4 * 1024 * 1024 else cfg.bufferBytes }

/-- `std::make_unique<MmapBuffer>(BuildBufferPath_(seq), cfg_.buffer_bytes)`. -/
def StoreConfig.openBuffer (cfg : StoreConfig) (seq : ℕ) : Option MmapBuffer :=
  MmapBuffer.create cfg.page (cfg.files seq) cfg.bufferBytes

theorem StoreConfig.openBuffer_fresh {cfg : StoreConfig} {seq : ℕ} {buf : MmapBuffer}
    (h : cfg.openBuffer seq = some buf) :
    buf.sealed = false ∧ buf.writers = 0 ∧ buf.offset = 0 := by
  simp only [StoreConfig.openBuffer, MmapBuffer.create] at h
  split at h <;> cases h
  exact ⟨rfl, rfl, rfl⟩

theorem StoreConfig.openBuffer_data {cfg : StoreConfig} {seq : ℕ} {buf : MmapBuffer}
    (h : cfg.openBuffer seq = some buf) : buf.data = fun i => (cfg.files seq).getD i 0 := by
  simp only [StoreConfig.openBuffer, MmapBuffer.create] at h
  split at h <;> cases h
  rfl

/-- Whether a buffer can be opened does not depend on which one it is. -/
theorem StoreConfig.isSome_openBuffer (cfg : StoreConfig) (i j : ℕ) :
    (cfg.openBuffer i).isSome = (cfg.openBuffer j).isSome := by
  simp only [StoreConfig.openBuffer, MmapBuffer.create]
  split <;> rfl

/-- Two buffers of one page over new files. -/
def onePageStore : StoreConfig := ⟨4096, 2, 2, 4096, fun _ => []⟩

/-- A buffer that is not in the pool. -/
def MmapBuffer.unmapped : MmapBuffer := ⟨fun _ => 0, 0, 0, 0, false, by decide⟩

/-- Who is in `SwapMasterLocked_`: `Append(data)`, or `Flush`, called by the
destructor or not. -/
inductive Caller
  | append (data : Bytes)
  | flush (dtor : Bool)
  deriving DecidableEq

/-- Where a thread is. From `exchange` to `inlineDrain` it holds `mtx_`; it
is about to exchange `master_`, to increment `in_flight_`, to push the drain on
the strand, to load the pool's `stopped_`, to look at it again under the pool's
lock, or it runs the strand's `Drain_` itself. -/
inductive Pc
  | idle
  | appendLoad (data : Bytes)
  | appendWrite (data : Bytes) (cur : ℕ) (pc : WritePc)
  | appendLock (data : Bytes) (cur : ℕ)
  | flushLock (dtor : Bool)
  | waitFree (k : Caller)
  | exchange (k : Caller) (next : ℕ)
  | count (k : Caller) (old : ℕ)
  | enqueue (k : Caller) (old : ℕ)
  | post (k : Caller)
  | postLocked (k : Caller)
  | inlineDrain (k : Caller)
  | flushWait (dtor : Bool)
  | dtorClose
  | dtorReturn
  deriving DecidableEq

/-- Where `DrainOne_` is: before the `sealed_` store, in `Seal`'s loop, before
`Sync`, before `ForEachFrame`, in its loop, before the four operations of
`ResetForReuse`, before the push on `free_`, its notification, the decrement of
`in_flight_`, or the last section. -/
inductive DrainPc
  | sealStore
  | sealWait
  | sync
  | scanStart
  | scan (endPos pos : ℕ)
  | resetLoad
  | resetOffset (prevUsed : ℕ)
  | resetUnseal (prevUsed : ℕ)
  | resetMemset (prevUsed : ℕ)
  | pushFree
  | notifyFree
  | fetchSub
  | notifyFlush
  deriving DecidableEq

/-- The strand's `Drain_`: none posted, waiting in the pool's queue, at the top
of its loop, or in `DrainOne_(buf)`. It runs on a worker (`none`) or inside the
thread that posted it. -/
inductive Exec (T : Type*)
  | idle
  | queued
  | loop (runner : Option T)
  | drain (runner : Option T) (buf : ℕ) (pc : DrainPc)

/-- What a client can observe, and the calls of `on_persist`. -/
inductive Obs (T : Type*)
  | appendCall (t : T) (data : Bytes)
  | appendRet (t : T) (data : Bytes) (ok : Bool)
  | flushCall (t : T)
  | flushRet (t : T)
  | persist (data : Bytes) (threw : Bool)
  deriving DecidableEq

/-- The store, its strand, the pool's `stopped_` and the threads. Buffers are
named by their index in `pool_`. `env` is the state `on_persist` works on;
`hist` is a history variable. -/
structure StoreState (T σ : Type*) where
  bufs : ℕ → MmapBuffer
  poolSize : ℕ
  free : List ℕ
  master : ℕ
  inFlight : ℕ
  persistedBytes : ℕ
  nextSeq : ℕ
  stopped : Bool
  mtx : Option T
  tasks : List ℕ
  running : Bool
  exec : Exec T
  poolStopped : Bool
  closing : Bool
  destroyed : Bool
  pc : T → Pc
  env : σ
  hist : List (Obs T)

/-- `append t data` is a call `Append(data, len)`, null pointers included;
`step t` the next step of the call `t` is in, `drain` that of the strand's
`Drain_`. A step of `t` that constructs a buffer may fail instead, and its wait
for a free buffer may time out. -/
inductive StoreEvent (T : Type*)
  | append (t : T) (data : Option Bytes)
  | flush (t : T)
  | destroy (t : T)
  | step (t : T)
  | createFails (t : T)
  | timeout (t : T)
  | drain
  | shutdown
  deriving DecidableEq

variable {T σ : Type*}

/-- The constructor; `none` when it throws. -/
def StoreState.create (cfg : StoreConfig) (env : σ) : Option (StoreState T σ) :=
  let cfg := cfg.normalise
  if (cfg.openBuffer 0).isSome then some
    { bufs := fun i => if i < cfg.minBuffers then (cfg.openBuffer i).getD .unmapped else .unmapped
      poolSize := cfg.minBuffers
      free := (List.range cfg.minBuffers).tail
      master := 0
      inFlight := 0
      persistedBytes := 0
      nextSeq := cfg.minBuffers
      stopped := false
      mtx := none
      tasks := []
      running := false
      exec := .idle
      poolStopped := false
      closing := false
      destroyed := false
      pc := fun _ => .idle
      env := env
      hist := [] }
  else none

section Threads

variable [DecidableEq T]

/-- The history grows. -/
def StoreState.observe (s : StoreState T σ) (obs : List (Obs T)) : StoreState T σ :=
  { s with hist := s.hist ++ obs }

/-- Thread `t` goes to `pc`. -/
def StoreState.goto (s : StoreState T σ) (t : T) (pc : Pc) : StoreState T σ :=
  { s with pc := Function.update s.pc t pc }

theorem StoreState.goto_self (s : StoreState T σ) (t : T) (pc : Pc) : (s.goto t pc).pc t = pc :=
  Function.update_self _ _ _

/-- The store with buffer `b` replaced. -/
def StoreState.setBuf (s : StoreState T σ) (b : ℕ) (buf : MmapBuffer) : StoreState T σ :=
  { s with bufs := Function.update s.bufs b buf }

/-- `Append` returns. -/
def StoreState.appendReturn (s : StoreState T σ) (t : T) (data : Bytes) (ok : Bool) :
    StoreState T σ :=
  (s.observe [.appendRet t data ok]).goto t .idle

/-- `Flush` returns, to the client or to the destructor. -/
def StoreState.flushReturn (s : StoreState T σ) (t : T) (dtor : Bool) : StoreState T σ :=
  (s.observe [.flushRet t]).goto t (if dtor then .dtorClose else .idle)

/-- `SwapMasterLocked_` returns null, and the caller releases `mtx_`. -/
def StoreState.swapFails (s : StoreState T σ) (t : T) : Caller → StoreState T σ
  | .append data => s.appendReturn t data false
  | .flush dtor => s.goto t (.flushWait dtor)

/-- Where the caller of `SwapMasterLocked_` goes on with a new `master_`. -/
def Caller.swapped : Caller → Pc
  | .append data => .appendLoad data
  | .flush dtor => .flushWait dtor

/-- `SwapMasterLocked_` returns a buffer, and the caller releases `mtx_`. -/
def StoreState.swapDone (s : StoreState T σ) (t : T) (k : Caller) : StoreState T σ :=
  { s with mtx := none }.goto t k.swapped

theorem StoreState.swapDone_self (s : StoreState T σ) (t : T) (k : Caller) :
    (s.swapDone t k).pc t = k.swapped :=
  Function.update_self _ _ _

/-- `AcquireFreeBufferLocked_` up to the point where it has a buffer or waits;
`created` is what the construction of a buffer yields where one is attempted. -/
def StoreState.acquire (cfg : StoreConfig) (s : StoreState T σ) (t : T) (k : Caller)
    (created : Option MmapBuffer) : StoreState T σ :=
  match s.free with
  | b :: rest => { s with free := rest, mtx := some t }.goto t (.exchange k b)
  | [] =>
    if s.poolSize < cfg.maxBuffers then
      match created with
      | some buf =>
        { s with
          bufs := Function.update s.bufs s.poolSize buf
          poolSize := s.poolSize + 1
          nextSeq := s.nextSeq + 1
          mtx := some t }.goto t (.exchange k s.poolSize)
      | none => { s with nextSeq := s.nextSeq + 1 }.swapFails t k
    else s.goto t (.waitFree k)

/-- `AcquireFreeBufferLocked_` after its wait. -/
def StoreState.wake (s : StoreState T σ) (t : T) (k : Caller) : StoreState T σ :=
  if s.stopped then s.swapFails t k
  else
    match s.free with
    | [] => s.swapFails t k
    | b :: rest => { s with free := rest, mtx := some t }.goto t (.exchange k b)

/-- The section of `Append` under `mtx_`, once `Write` on `cur` has failed. -/
def appendSection (cfg : StoreConfig) (s : StoreState T σ) (t : T) (data : Bytes) (cur : ℕ)
    (created : Option MmapBuffer) : StoreState T σ :=
  if s.stopped then s.appendReturn t data false
  else if s.master ≠ cur then s.goto t (.appendLoad data)
  else s.acquire cfg t (.append data) created

/-- The first section of `Flush` under `mtx_`. -/
def flushSection (cfg : StoreConfig) (s : StoreState T σ) (t : T) (dtor : Bool)
    (created : Option MmapBuffer) : StoreState T σ :=
  if s.stopped then s.flushReturn t dtor
  else if 0 < (s.bufs s.master).used then s.acquire cfg t (.flush dtor) created
  else s.goto t (.flushWait dtor)

/-- `ThreadPool::Enqueue_` finds the pool stopped and runs `Drain_` in place. -/
def StoreState.runInline (s : StoreState T σ) (t : T) (k : Caller) : StoreState T σ :=
  { s with exec := .loop (some t) }.goto t (.inlineDrain k)

/-- The thread's next operation starts by locking `mtx_`. -/
def Pc.locks : Pc → Bool
  | .appendLock _ _ | .flushLock _ | .waitFree _ | .flushWait _ | .dtorClose => true
  | _ => false

/-- A step of thread `t` outside waits and `Drain_`. -/
def threadStep (cfg : StoreConfig) (s : StoreState T σ) (t : T) : Option (StoreState T σ) :=
  if (s.pc t).locks && s.mtx.isSome then none
  else
    match s.pc t with
    | .idle | .inlineDrain _ => none
    | .appendLoad data => some (s.goto t (.appendWrite data s.master .enter))
    | .appendWrite data cur pc =>
      let next := writeStep (s.bufs cur) data pc
      let s' := s.setBuf cur next.1
      some <| match next.2 with
        | .at pc' => s'.goto t (.appendWrite data cur pc')
        | .returned (some _) => s'.appendReturn t data true
        | .returned none => s'.goto t (.appendLock data cur)
    | .appendLock data cur => some (appendSection cfg s t data cur (cfg.openBuffer s.nextSeq))
    | .flushLock dtor => some (flushSection cfg s t dtor (cfg.openBuffer s.nextSeq))
    | .waitFree k => if s.stopped || !s.free.isEmpty then some (s.wake t k) else none
    | .exchange k next => some ({ s with master := next }.goto t (.count k s.master))
    | .count k old => some ({ s with inFlight := s.inFlight + 1 }.goto t (.enqueue k old))
    | .enqueue k old =>
      let s' := { s with tasks := s.tasks ++ [old] }
      some (if s.running then s'.swapDone t k else { s' with running := true }.goto t (.post k))
    | .post k => some (if s.poolStopped then s.runInline t k else s.goto t (.postLocked k))
    | .postLocked k =>
      some (if s.poolStopped then s.runInline t k else { s with exec := .queued }.swapDone t k)
    | .flushWait dtor =>
      if s.inFlight = 0 ∨ s.stopped = true then some (s.flushReturn t dtor) else none
    | .dtorClose => some ({ s with stopped := true }.goto t .dtorReturn)
    | .dtorReturn => some ({ s with destroyed := true }.goto t .idle)

/-- The step of `t` in which the construction of a buffer throws. -/
def createFailsStep (cfg : StoreConfig) (s : StoreState T σ) (t : T) :
    Option (StoreState T σ) :=
  if s.mtx.isSome || s.stopped || !s.free.isEmpty || decide (cfg.maxBuffers ≤ s.poolSize) then none
  else
    match s.pc t with
    | .appendLock data cur =>
      if s.master = cur then some (appendSection cfg s t data cur none) else none
    | .flushLock dtor =>
      if 0 < (s.bufs s.master).used then some (flushSection cfg s t dtor none) else none
    | _ => none

/-- The wait of `Append` for a free buffer times out. -/
def timeoutStep (s : StoreState T σ) (t : T) : Option (StoreState T σ) :=
  if s.mtx.isSome || s.stopped || !s.free.isEmpty then none
  else
    match s.pc t with
    | .waitFree (.append data) => some (s.appendReturn t data false)
    | _ => none

/-- A call by a thread that is outside the store, before the destructor runs.
`Append` turns null pointers and empty ranges away at once. -/
def appendCallStep (s : StoreState T σ) (t : T) (data : Option Bytes) :
    Option (StoreState T σ) :=
  let d := data.getD []
  if s.closing || s.pc t ≠ .idle then none
  else if d.length = 0 then some (s.observe [.appendCall t d, .appendRet t d false])
  else some ((s.observe [.appendCall t d]).goto t (.appendLoad d))

/-- A call of `Flush`. -/
def flushCallStep (s : StoreState T σ) (t : T) : Option (StoreState T σ) :=
  if s.closing || s.pc t ≠ .idle then none
  else some ((s.observe [.flushCall t]).goto t (.flushLock false))

/-- The destructor starts once every client is done; it first calls `Flush`. -/
def destroyStep [Fintype T] (s : StoreState T σ) (t : T) : Option (StoreState T σ) :=
  if s.closing = false ∧ ∀ u, s.pc u = .idle then some
    (({ s with closing := true }.observe [.flushCall t]).goto t (.flushLock true))
  else none

-- ════════════════════════════════════════════════════════════════════════
-- Drain_ and DrainOne_
-- ════════════════════════════════════════════════════════════════════════

/-- `Drain_` returns, on its worker or into the thread that posted it. -/
def StoreState.drainReturn (s : StoreState T σ) : Option T → StoreState T σ
  | none => { s with running := false, exec := .idle }
  | some t =>
    match s.pc t with
    | .inlineDrain k => { s with running := false, exec := .idle }.swapDone t k
    | _ => { s with running := false, exec := .idle }

/-- One turn of the loop of `Drain_`. -/
def loopStep (s : StoreState T σ) (runner : Option T) : StoreState T σ :=
  match s.tasks with
  | [] => s.drainReturn runner
  | b :: rest => { s with tasks := rest, exec := .drain runner b .sealStore }

/-- `on_persist_(p, n)` and the count of what it took without throwing. -/
def StoreState.persist (onPersist : σ → Bytes → σ × Bool) (s : StoreState T σ) (p : Bytes) :
    StoreState T σ :=
  let called := onPersist s.env p
  { s with
    env := called.1
    persistedBytes :=
      if called.2 then s.persistedBytes else addSize s.persistedBytes p.length
    hist := s.hist ++ [.persist p called.2] }

/-- The next operation of `DrainOne_` starts by locking `mtx_`. -/
def DrainPc.locks : DrainPc → Bool
  | .pushFree | .notifyFlush => true
  | _ => false

/-- `DrainOne_(b)` goes to `pc`. -/
def StoreState.drainTo (s : StoreState T σ) (runner : Option T) (b : ℕ) (pc : DrainPc) :
    StoreState T σ :=
  { s with exec := .drain runner b pc }

/-- One step of `DrainOne_(b)`. -/
def drainOneStep (onPersist : σ → Bytes → σ × Bool) (s : StoreState T σ) (runner : Option T)
    (b : ℕ) (pc : DrainPc) : Option (StoreState T σ) :=
  if pc.locks && s.mtx.isSome then none
  else some <|
    let buf := s.bufs b
    match pc with
    | .sealStore => (s.setBuf b buf.storeSealed).drainTo runner b .sealWait
    | .sealWait => if buf.writers = 0 then s.drainTo runner b .sync else s
    | .sync => s.drainTo runner b .scanStart
    | .scanStart => s.drainTo runner b (.scan buf.used 0)
    | .scan endPos pos =>
      match buf.frameAt endPos pos with
      | some p => (s.persist onPersist p).drainTo runner b (.scan endPos (pos + (4 + p.length)))
      | none => s.drainTo runner b .resetLoad
    | .resetLoad => s.drainTo runner b (.resetOffset buf.used)
    | .resetOffset prevUsed =>
      (s.setBuf b buf.storeOffset).drainTo runner b (.resetUnseal prevUsed)
    | .resetUnseal prevUsed =>
      (s.setBuf b buf.storeUnsealed).drainTo runner b (.resetMemset prevUsed)
    | .resetMemset prevUsed => (s.setBuf b (buf.memset prevUsed)).drainTo runner b .pushFree
    | .pushFree => { s with free := s.free ++ [b] }.drainTo runner b .notifyFree
    | .notifyFree => s.drainTo runner b .fetchSub
    | .fetchSub =>
      let s' := { s with inFlight := s.inFlight - 1 }
      if s'.inFlight = 0 then s'.drainTo runner b .notifyFlush else { s' with exec := .loop runner }
    | .notifyFlush => { s with exec := .loop runner }

/-- The next step of whoever runs `Drain_`. -/
def drainStep (onPersist : σ → Bytes → σ × Bool) (s : StoreState T σ) :
    Option (StoreState T σ) :=
  match s.exec with
  | .idle => none
  | .queued => some { s with exec := .loop none }
  | .loop runner => some (loopStep s runner)
  | .drain runner b pc => drainOneStep onPersist s runner b pc

/-- One step of the store. -/
def storeStep [Fintype T] (cfg : StoreConfig) (onPersist : σ → Bytes → σ × Bool)
    (s : StoreState T σ) : StoreEvent T → Option (StoreState T σ)
  | .append t data => appendCallStep s t data
  | .flush t => flushCallStep s t
  | .destroy t => destroyStep s t
  | .step t => threadStep cfg.normalise s t
  | .createFails t => createFailsStep cfg.normalise s t
  | .timeout t => timeoutStep s t
  | .drain => drainStep onPersist s
  | .shutdown => some { s with poolStopped := true }

end Threads

-- ════════════════════════════════════════════════════════════════════════
-- Histories
-- ════════════════════════════════════════════════════════════════════════

/-- The payloads whose `Append` returned true, in the order of the returns. -/
def accepted (hist : List (Obs T)) : List Bytes :=
  hist.filterMap fun
    | .appendRet _ data true => some data
    | _ => none

/-- The payloads whose `Append` returned false. -/
def rejected (hist : List (Obs T)) : List Bytes :=
  hist.filterMap fun
    | .appendRet _ data false => some data
    | _ => none

/-- The payloads `Append` was called with. -/
def called (hist : List (Obs T)) : List Bytes :=
  hist.filterMap fun
    | .appendCall _ data => some data
    | _ => none

/-- The payloads passed to `on_persist`. -/
def persisted (hist : List (Obs T)) : List Bytes :=
  hist.filterMap fun
    | .persist data _ => some data
    | _ => none

theorem accepted_append (h h' : List (Obs T)) : accepted (h ++ h') = accepted h ++ accepted h' :=
  List.filterMap_append

theorem persisted_append (h h' : List (Obs T)) :
    persisted (h ++ h') = persisted h ++ persisted h' :=
  List.filterMap_append

end LoggerHigh
