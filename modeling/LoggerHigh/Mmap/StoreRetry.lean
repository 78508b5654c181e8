import LoggerHigh.Mmap.StoreBuffers
import LoggerHigh.Mmap.StorePool
import LoggerHigh.Mmap.StoreReentry
import LoggerHigh.Mmap.StoreTeardown
import Mathlib.Data.Prod.Lex

/-!
# The retry loop of `Append`

`Append` swaps the master and retries until a buffer takes its payload; it
gives up only when it gets no buffer. This file follows one producer whose
requests for a buffer come after all posted drains: what lies ahead of it is a
line of buffers, each of which takes the payload or does not. A round of the
loop takes the head off the line, and a drain puts a buffer with `offset_` zero
at its end.

## Main definitions

- `LoneStep` — the steps while one producer is active and drains keep up
- `Accepts`, `Fits` — a buffer takes the payload, an empty buffer does
- `StoreState.line` — the buffers ahead of the producer
- `StoreState.rank` — what falls with every step

## Main results

- `append_returns_iff` — `Append` terminates exactly when the payload fits an
  empty buffer, or a buffer in line takes it all the same
- `append_never_returns` — a payload that is too long for the buffers
-/

namespace LoggerHigh

open Transition ThreadSum

variable {T σ : Type*}

/-- The thread asks for a free buffer in its next step. -/
def Pc.requests : Pc → Bool
  | .appendLock _ _ | .flushLock _ => true
  | _ => false

/-- The steps while `t` is the only producer, its pool is not shut down, and
every posted drain is over before `t` requests a buffer. -/
def LoneStep (t : T) (s : StoreState T σ) : StoreEvent T → Prop
  | .drain => True
  | .step u => u = t ∧ ((s.pc t).requests = true → ¬ DrainRemains s)
  | .createFails u => u = t ∧ ¬ DrainRemains s
  | .timeout u => u = t
  | .append _ _ | .flush _ | .destroy _ | .shutdown => False

/-- `Write` of `data`, unless the buffer is sealed, finds the length and the room right. -/
def Accepts (buf : MmapBuffer) (data : Bytes) : Prop := FrameLength data ∧ buf.HasRoom data

instance (buf : MmapBuffer) (data : Bytes) : Decidable (Accepts buf data) :=
  inferInstanceAs (Decidable (_ ∧ _))

/-- An empty buffer takes `data`. -/
def Fits (cfg : StoreConfig) (data : Bytes) : Prop :=
  FrameLength data ∧ 4 + data.length ≤ cfg.capacity

instance Fits.decidable (cfg : StoreConfig) (data : Bytes) : Decidable (Fits cfg data) :=
  inferInstanceAs (Decidable (_ ∧ _))

/-- The buffer whose `offset_` `DrainOne_` has reset and that is not free yet. -/
def Exec.late : Exec T → List ℕ
  | .drain _ b (.resetUnseal _) | .drain _ b (.resetMemset _) | .drain _ b .pushFree => [b]
  | _ => []

/-- The buffer the attempt of a thread inside `Append` is about. -/
def Pc.target (master : ℕ) : Pc → List ℕ
  | .appendWrite _ _ (.leave none) | .appendLock _ _ => []
  | .exchange _ next => [next]
  | _ => [master]

/-- The thread inside `Append` has reserved a slot. -/
def Pc.stored : Pc → Bool
  | .appendWrite _ _ (.header _) | .appendWrite _ _ (.payload _)
  | .appendWrite _ _ (.leave (some _)) => true
  | _ => false

/-- The attempt of the thread has failed, and it has not got another buffer yet. -/
def Pc.failed : Pc → ℕ
  | .appendWrite _ _ (.leave none) | .appendLock _ _ => 1
  | _ => 0

/-- The steps a thread inside `Append` has at most to go until its attempt has
failed and it requests another buffer. -/
def Pc.appendSteps : Pc → ℕ
  | .appendLock _ _ => 1
  | .appendWrite _ _ pc => pc.toGo + 1
  | .appendLoad _ => 8
  | .postLocked _ => 9
  | .post _ => 10
  | .enqueue _ _ => 11
  | .count _ _ => 12
  | .exchange _ _ => 13
  | _ => 0

/-- The buffers ahead of thread `t`, in the order in which it will try them. -/
def StoreState.line (s : StoreState T σ) (t : T) : List ℕ :=
  (s.pc t).target s.master ++ (s.free ++ s.exec.late)

/-- Which of them take `data`. -/
def StoreState.offers (s : StoreState T σ) (t : T) (data : Bytes) : List Bool :=
  (s.line t).map fun b => decide (Accepts (s.bufs b) data)

/-- `Append` has stored its payload, or will get a buffer that takes it. -/
def Hopeful (cfg : StoreConfig) (t : T) (data : Bytes) (s : StoreState T σ) : Prop :=
  (s.pc t).stored = true ∨ Fits cfg.normalise data ∨ true ∈ s.offers t data

/-- The rounds of the loop until then: the position in line of the first buffer
that takes the payload, or the end of the line. -/
def StoreState.rounds (s : StoreState T σ) (t : T) (data : Bytes) : ℕ :=
  if (s.pc t).stored then 0 else (s.pc t).failed + (s.offers t data).findIdx id

/-- Rounds and steps to go, and then what is left to drain. -/
def StoreState.rank [Fintype T] (s : StoreState T σ) (t : T) (data : Bytes) : ℕ ×ₗ ℕ :=
  toLex (14 * s.rounds t data + (s.pc t).appendSteps, s.work)

/-- Where a thread inside `Append(data)` can be, alone in the store. -/
inductive Appending (data : Bytes) (master : ℕ) : Pc → Prop
  | load : Appending data master (.appendLoad data)
  | write (pc : WritePc) (hlen : pc = .enter ∨ FrameLength data) :
      Appending data master (.appendWrite data master pc)
  | lock : Appending data master (.appendLock data master)
  | exchange (next : ℕ) : Appending data master (.exchange (.append data) next)
  | count (old : ℕ) : Appending data master (.count (.append data) old)
  | enqueue (old : ℕ) : Appending data master (.enqueue (.append data) old)
  | post : Appending data master (.post (.append data))
  | postLocked : Appending data master (.postLocked (.append data))

/-- Thread `t` is inside `Append(data)`, alone in a store that is in use. -/
structure Lone [Fintype T] (cfg : StoreConfig) (t : T) (data : Bytes) (s : StoreState T σ) :
    Prop where
  own : OwnInv cfg.normalise s
  writers : WritersInv s
  buffers : BuffersInv cfg.normalise s
  others : ∀ u, u ≠ t → s.pc u = .idle
  stopped : s.stopped = false
  poolStopped : s.poolStopped = false
  appending : Appending data s.master (s.pc t)

-- ════════════════════════════════════════════════════════════════════════
-- Payloads and offers
-- ════════════════════════════════════════════════════════════════════════

/-- A buffer with `offset_` zero takes what fits. -/
theorem accepts_iff_fits {cfg : StoreConfig} {buf : MmapBuffer} {data : Bytes}
    (hsize : buf.size = cfg.capacity) (hoffset : buf.offset = 0) :
    Accepts buf data ↔ Fits cfg data := by
  refine and_congr_right fun hlen => ?_
  have hle : data.length ≤ 0xFFFFFFFF := hlen.2
  have hneed : addSize 4 data.length = 4 + data.length := addSize_of_lt (by omega)
  rw [MmapBuffer.HasRoom, hoffset, hsize, hneed, addSize_of_lt (by omega), Nat.zero_add, Nat.not_lt]

/-- Whether a buffer takes a payload is a matter of its size and `offset_`. -/
theorem accepts_congr {buf buf' : MmapBuffer} {data : Bytes} (hsize : buf'.size = buf.size)
    (hoffset : buf'.offset = buf.offset) : Accepts buf' data ↔ Accepts buf data := by
  rw [Accepts, Accepts, MmapBuffer.HasRoom, MmapBuffer.HasRoom, hsize, hoffset]

/-- A payload that no buffer in line takes has to go to the end of the line; one
that fits does so after a drain. -/
theorem findIdx_append_fits {offers : List Bool} {fits : Bool} (h : fits = true ∨ true ∈ offers) :
    (offers ++ [fits]).findIdx id = offers.findIdx id := by
  rw [List.findIdx_append]
  split
  · rfl
  · next hnone =>
    have hmem : true ∉ offers := by
      intro hmem
      exact hnone (List.findIdx_lt_length_of_exists ⟨true, hmem, rfl⟩)
    have hfits : fits = true := h.resolve_right hmem
    have hend : offers.findIdx id = offers.length :=
      Nat.le_antisymm List.findIdx_le_length (Nat.le_of_not_lt hnone)
    rw [hfits, hend]
    simp

theorem Exec.held_of_mem_late {exec : Exec T} {b : ℕ} (h : b ∈ exec.late) : exec.held = [b] := by
  cases exec with
  | drain runner a pc =>
    cases pc <;> first | exact congrArg (fun x => [x]) (List.mem_singleton.mp h).symm | cases h
  | _ => cases h

theorem Exec.late_of_isIdle {exec : Exec T} (h : exec.isIdle = true) : exec.late = [] := by
  cases exec <;> first | rfl | cases h

/-- A strand whose drains are over has no buffer. -/
theorem held_of_drained {s : StoreState T σ} (h : ¬ DrainRemains s) :
    s.tasks = [] ∧ s.exec.held = [] ∧ s.exec.late = [] := by
  rw [DrainRemains, not_or, not_not] at h
  refine ⟨h.1, ?_⟩
  cases hexec : s.exec with
  | drain runner b pc => exact absurd ⟨runner, b, pc, hexec⟩ h.2
  | _ => exact ⟨rfl, rfl⟩

theorem StoreState.offers_congr {s s' : StoreState T σ} {t : T} {data : Bytes}
    (hline : s'.line t = s.line t)
    (hbufs : ∀ b ∈ s.line t, Accepts (s'.bufs b) data ↔ Accepts (s.bufs b) data) :
    s'.offers t data = s.offers t data := by
  rw [StoreState.offers, StoreState.offers, hline]
  exact List.map_congr_left fun b hb => decide_eq_decide.mpr (hbufs b hb)

theorem StoreState.accepts_setBuf {s : StoreState T σ} {b : ℕ} {buf : MmapBuffer} {data : Bytes}
    (hsize : buf.size = (s.bufs b).size) (hoffset : buf.offset = (s.bufs b).offset) (a : ℕ) :
    Accepts ((s.setBuf b buf).bufs a) data ↔ Accepts (s.bufs a) data := by
  simp only [StoreState.setBuf]
  by_cases ha : a = b
  · rw [ha, Function.update_self]
    exact accepts_congr hsize hoffset
  · rw [Function.update_of_ne ha]

theorem StoreState.accepts_setBuf_of_ne {s : StoreState T σ} {a b : ℕ} {buf : MmapBuffer}
    {data : Bytes} (ha : a ≠ b) :
    Accepts ((s.setBuf b buf).bufs a) data ↔ Accepts (s.bufs a) data := by
  simp only [StoreState.setBuf, Function.update_of_ne ha]

theorem Appending.ne_idle {data : Bytes} {master : ℕ} {pc : Pc} (h : Appending data master pc) :
    pc ≠ .idle := by
  cases h <;> rintro ⟨⟩

theorem Appending.inlines {data : Bytes} {master : ℕ} {pc : Pc} (h : Appending data master pc) :
    pc.inlines = false := by
  cases h <;> rfl

-- ════════════════════════════════════════════════════════════════════════
-- A lone producer
-- ════════════════════════════════════════════════════════════════════════

variable [DecidableEq T] [Fintype T] {cfg : StoreConfig} {onPersist : σ → Bytes → σ × Bool}
  {s s' : StoreState T σ} {t : T} {data : Bytes}

omit [DecidableEq T] in
/-- Nobody else locks `mtx_`. -/
theorem Lone.mtx_eq (h : Lone cfg t data s) (hpc : (s.pc t).inSection = false) : s.mtx = none := by
  cases hmtx : s.mtx with
  | none => rfl
  | some u =>
    have hsection := (h.own.mtx_iff u).mp hmtx
    by_cases hu : u = t
    · rw [hu, hpc] at hsection
      cases hsection
    · rw [h.others u hu] at hsection
      cases hsection

omit [DecidableEq T] in
/-- `Drain_` runs on a worker. -/
theorem Lone.runner_eq (h : Lone cfg t data s) : s.exec.runner = none := by
  cases hrunner : s.exec.runner with
  | none => rfl
  | some u =>
    have hinlines := (h.own.inlines_iff u).mpr hrunner
    by_cases hu : u = t
    · rw [hu, h.appending.inlines] at hinlines
      cases hinlines
    · rw [h.others u hu] at hinlines
      cases hinlines

omit [DecidableEq T] in
/-- The master is neither free nor at `DrainOne_`. -/
theorem Lone.master_not_mem (h : Lone cfg t data s) :
    s.master ∉ s.free ∧ s.master ∉ s.exec.held ∧ s.master ∉ s.exec.late := by
  have hle := h.own.occurrences_le s.master
  rw [occurrences, List.count_singleton_self] at hle
  have hheld : s.master ∉ s.exec.held := by
    intro hmem
    have := List.count_pos_iff.mpr hmem
    omega
  refine ⟨fun hmem => ?_, hheld, fun hmem => hheld ?_⟩
  · have := List.count_pos_iff.mpr hmem
    omega
  · rw [Exec.held_of_mem_late hmem]
    exact List.mem_singleton_self _

omit [DecidableEq T] in
/-- Nobody writes to a buffer that is being drained. -/
theorem Lone.writers_eq_zero (h : Lone cfg t data s) {b : ℕ} (hb : b ∈ s.exec.held) :
    (s.bufs b).writers = 0 := by
  rw [h.writers b]
  refine total_eq_zero fun u => ?_
  by_cases hu : u = t
  · have happ := h.appending
    rw [hu]
    cases hpc : s.pc t with
    | appendWrite data' cur pc =>
      rw [hpc] at happ
      cases happ
      have hne : s.master ≠ b := by
        rintro rfl
        exact h.master_not_mem.2.1 hb
      simp only [Pc.countedOn, Pc.writerOn, if_neg hne]
      rfl
    | _ => rfl
  · rw [h.others u hu]
    rfl

/-- A step of the producer that leaves it inside `Append` leaves it alone. -/
theorem Lone.step (h : Lone cfg t data s) (hstep : storeStep cfg onPersist s (.step t) = some s')
    {x : Pc} (hpc : s'.pc = Function.update s.pc t x) (happ : Appending data s'.master x)
    (hstopped : s'.stopped = s.stopped) (hpool : s'.poolStopped = s.poolStopped) :
    Lone cfg t data s' := by
  have hm : StoreMove cfg.normalise onPersist s (.step t) s' := StoreMove.of_storeStep hstep
  refine ⟨h.own.step hm, h.writers.step h.own hm, h.buffers.step h.own hm, fun u hu => ?_,
    hstopped.trans h.stopped, hpool.trans h.poolStopped, ?_⟩
  · rw [hpc, Function.update_of_ne hu]
    exact h.others u hu
  · rw [hpc, Function.update_self]
    exact happ

/-- What every step short of the end of `Append` does: whether there is hope
stays, and while there is, the end comes closer. -/
structure Closer (cfg : StoreConfig) (t : T) (data : Bytes) (s s' : StoreState T σ) : Prop where
  lone : Lone cfg t data s'
  hopeful_iff : Hopeful cfg t data s' ↔ Hopeful cfg t data s
  rank_lt : Hopeful cfg t data s → s'.rank t data < s.rank t data

omit [DecidableEq T] in
theorem StoreState.rank_lt_of_steps (hrounds : s'.rounds t data ≤ s.rounds t data)
    (hsteps : (s'.pc t).appendSteps < (s.pc t).appendSteps) : s'.rank t data < s.rank t data := by
  refine Prod.Lex.toLex_lt_toLex.mpr (.inl ?_)
  change 14 * _ + _ < 14 * _ + _
  omega

omit [DecidableEq T] in
theorem StoreState.rank_lt_of_rounds (hrounds : s'.rounds t data < s.rounds t data)
    (hsteps : (s'.pc t).appendSteps ≤ 13) : s'.rank t data < s.rank t data := by
  refine Prod.Lex.toLex_lt_toLex.mpr (.inl ?_)
  change 14 * _ + _ < 14 * _ + _
  omega

omit [DecidableEq T] in
theorem StoreState.rank_lt_of_work (hrounds : s'.rounds t data = s.rounds t data)
    (hpc : s'.pc t = s.pc t) (hwork : s'.work < s.work) : s'.rank t data < s.rank t data := by
  refine Prod.Lex.toLex_lt_toLex.mpr (.inr ⟨?_, hwork⟩)
  change 14 * _ + _ = 14 * _ + _
  rw [hrounds, hpc]

/-- Steps within an attempt, and within a swap. -/
theorem Lone.closer (h : Lone cfg t data s) {x : Pc}
    (hstep : storeStep cfg onPersist s (.step t) = some s') (hpc : s'.pc = Function.update s.pc t x)
    (happ : Appending data s'.master x) (hstopped : s'.stopped = s.stopped)
    (hpool : s'.poolStopped = s.poolStopped) (hstored : x.stored = (s.pc t).stored)
    (hfailed : x.failed = (s.pc t).failed) (hoffers : s'.offers t data = s.offers t data)
    (hsteps : x.appendSteps < (s.pc t).appendSteps) : Closer cfg t data s s' := by
  have hself : s'.pc t = x := by rw [hpc, Function.update_self]
  refine ⟨h.step hstep hpc happ hstopped hpool, ?_, fun _ => ?_⟩
  · rw [Hopeful, Hopeful, hself, hstored, hoffers]
  · refine StoreState.rank_lt_of_steps (Nat.le_of_eq ?_) (by rw [hself]; exact hsteps)
    rw [StoreState.rounds, StoreState.rounds, hself, hstored, hfailed, hoffers]

/-- The attempt fails: the buffer at the head of the line does not take the payload. -/
theorem Lone.closer_failed (h : Lone cfg t data s) {x : Pc}
    (hstep : storeStep cfg onPersist s (.step t) = some s') (hpc : s'.pc = Function.update s.pc t x)
    (happ : Appending data s'.master x) (hstopped : s'.stopped = s.stopped)
    (hpool : s'.poolStopped = s.poolStopped) (hstored : (s.pc t).stored = false)
    (hstored' : x.stored = false) (hfailed : (s.pc t).failed = 0) (hfailed' : x.failed = 1)
    (hoffers : s.offers t data = false :: s'.offers t data)
    (hsteps : x.appendSteps < (s.pc t).appendSteps) : Closer cfg t data s s' := by
  have hself : s'.pc t = x := by rw [hpc, Function.update_self]
  refine ⟨h.step hstep hpc happ hstopped hpool, ?_, fun _ => ?_⟩
  · rw [Hopeful, Hopeful, hself, hstored, hstored', hoffers, List.mem_cons]
    simp
  · refine StoreState.rank_lt_of_steps (Nat.le_of_eq ?_) (by rw [hself]; exact hsteps)
    rw [StoreState.rounds, StoreState.rounds, hself, hstored, hstored', hfailed, hfailed', hoffers,
      List.findIdx_cons]
    simp only [Bool.false_eq_true, if_false, id, cond_false]
    omega

/-- The producer's next step is possible. It ends a call that has stored its
payload, or brings the end closer. -/
def StepsCloser (cfg : StoreConfig) (onPersist : σ → Bytes → σ × Bool) (t : T) (data : Bytes)
    (s : StoreState T σ) : Prop :=
  ∃ s', storeStep cfg onPersist s (.step t) = some s' ∧
    ((s.pc t).stored = true ∧ s'.pc t = .idle ∨ Closer cfg t data s s')

-- ════════════════════════════════════════════════════════════════════════
-- Steps of Write
-- ════════════════════════════════════════════════════════════════════════

/-- A step inside `Write`. -/
theorem storeStep_write {pc pc' : WritePc} (hpc : s.pc t = .appendWrite data s.master pc)
    (hnext : (writeStep (s.bufs s.master) data pc).2 = .at pc') :
    storeStep cfg onPersist s (.step t) = some
      ((s.setBuf s.master (writeStep (s.bufs s.master) data pc).1).goto t
        (.appendWrite data s.master pc')) := by
  simp only [storeStep, threadStep, hpc, hnext, Pc.locks, Bool.false_and, Bool.false_eq_true,
    if_false]

/-- The step in which `Write` returns false. -/
theorem storeStep_write_false {pc : WritePc} (hpc : s.pc t = .appendWrite data s.master pc)
    (hnext : (writeStep (s.bufs s.master) data pc).2 = .returned none) :
    storeStep cfg onPersist s (.step t) = some
      ((s.setBuf s.master (writeStep (s.bufs s.master) data pc).1).goto t
        (.appendLock data s.master)) := by
  simp only [storeStep, threadStep, hpc, hnext, Pc.locks, Bool.false_and, Bool.false_eq_true,
    if_false]

/-- A step inside `Write` after which the attempt is as before. -/
theorem Lone.write_goes_on (h : Lone cfg t data s) {pc pc' : WritePc}
    (hpc : s.pc t = .appendWrite data s.master pc)
    (hnext : (writeStep (s.bufs s.master) data pc).2 = .at pc') (hlen : FrameLength data)
    (hoffset : (writeStep (s.bufs s.master) data pc).1.offset = (s.bufs s.master).offset)
    (htarget : (Pc.appendWrite data s.master pc').target s.master = (s.pc t).target s.master)
    (hstored : (Pc.appendWrite data s.master pc').stored = (s.pc t).stored)
    (hfailed : (Pc.appendWrite data s.master pc').failed = (s.pc t).failed) :
    StepsCloser cfg onPersist t data s := by
  have hstep : storeStep cfg onPersist s (.step t) = some _ := storeStep_write hpc hnext
  refine ⟨_, hstep,
    .inr (h.closer hstep rfl (.write pc' (.inr hlen)) rfl rfl hstored hfailed ?_ ?_)⟩
  · refine StoreState.offers_congr ?_ fun b _ => StoreState.accepts_setBuf (size_writeStep _ _ _)
      hoffset b
    rw [StoreState.line, StoreState.goto_self, StoreState.line, ← htarget]
    rfl
  · rw [hpc]
    exact Nat.succ_lt_succ (toGo_writeStep hnext)

/-- The step in which an attempt of `Write` fails. -/
theorem Lone.write_fails (h : Lone cfg t data s) {x : Pc} {buf : MmapBuffer}
    (hstep : storeStep cfg onPersist s (.step t) = some ((s.setBuf s.master buf).goto t x))
    (hno : ¬ Accepts (s.bufs s.master) data) (happ : Appending data s.master x)
    (htarget : (s.pc t).target s.master = [s.master]) (htarget' : x.target s.master = [])
    (hstored : (s.pc t).stored = false) (hstored' : x.stored = false)
    (hfailed : (s.pc t).failed = 0) (hfailed' : x.failed = 1)
    (hsteps : x.appendSteps < (s.pc t).appendSteps) : StepsCloser cfg onPersist t data s := by
  refine ⟨_, hstep, .inr (h.closer_failed hstep rfl happ rfl rfl hstored hstored' hfailed hfailed'
    ?_ hsteps)⟩
  have hline : ((s.setBuf s.master buf).goto t x).line t = s.free ++ s.exec.late := by
    rw [StoreState.line, StoreState.goto_self]
    exact congrArg (· ++ (s.free ++ s.exec.late)) htarget'
  rw [StoreState.offers, StoreState.offers, hline, StoreState.line, htarget, List.cons_append,
    List.nil_append, List.map_cons, decide_eq_false hno]
  refine congrArg (false :: ·) (List.map_congr_left fun b hb => ?_)
  have hne : b ≠ s.master := by
    rintro rfl
    rcases List.mem_append.mp hb with hfree | hlate
    · exact h.master_not_mem.1 hfree
    · exact h.master_not_mem.2.2 hlate
  exact decide_eq_decide.mpr (StoreState.accepts_setBuf_of_ne hne).symm

/-- `len` is checked before anything else. -/
theorem Lone.step_enter (h : Lone cfg t data s)
    (hpc : s.pc t = .appendWrite data s.master .enter) : StepsCloser cfg onPersist t data s := by
  by_cases hlen : FrameLength data
  · have hgood : ¬ (data.length = 0 ∨ 0xFFFFFFFF < data.length) := by
      rw [FrameLength] at hlen
      omega
    have hnext : writeStep (s.bufs s.master) data .enter =
        ({ s.bufs s.master with writers := (s.bufs s.master).writers + 1 }, .at .check) :=
      if_neg hgood
    exact h.write_goes_on hpc (congrArg Prod.snd hnext) hlen (by rw [hnext]) (by rw [hpc]; rfl)
      (by rw [hpc]; rfl) (by rw [hpc]; rfl)
  · have hbad : data.length = 0 ∨ 0xFFFFFFFF < data.length := by
      rw [FrameLength] at hlen
      omega
    have hnext : writeStep (s.bufs s.master) data .enter = (s.bufs s.master, .returned none) :=
      if_pos hbad
    refine h.write_fails (storeStep_write_false hpc (by rw [hnext])) (fun hacc => hlen hacc.1) .lock
      (by rw [hpc]; rfl) rfl (by rw [hpc]; rfl) rfl (by rw [hpc]; rfl) rfl ?_
    rw [hpc]
    simp only [Pc.appendSteps, WritePc.toGo]
    omega

/-- The master is not at `DrainOne_`, so it is not sealed. -/
theorem Lone.step_check (h : Lone cfg t data s) (hpc : s.pc t = .appendWrite data s.master .check)
    (hlen : FrameLength data) : StepsCloser cfg onPersist t data s := by
  have hopen : (s.bufs s.master).sealed = false := by
    by_contra hsealed
    have hmem := h.buffers.sealing s.master (by simpa using hsealed)
    refine h.master_not_mem.2.1 ?_
    rw [Exec.held_of_mem_sealing hmem]
    exact List.mem_singleton_self _
  have hnext : (writeStep (s.bufs s.master) data .check).2 = .at .reserve := by
    simp only [writeStep, hopen, Bool.false_eq_true, if_false]
  exact h.write_goes_on hpc hnext hlen rfl (by rw [hpc]; rfl) (by rw [hpc]; rfl) (by rw [hpc]; rfl)

/-- `offset_.fetch_add` decides about the attempt. -/
theorem Lone.step_reserve (h : Lone cfg t data s)
    (hpc : s.pc t = .appendWrite data s.master .reserve) (hlen : FrameLength data) :
    StepsCloser cfg onPersist t data s := by
  by_cases hroom : (s.bufs s.master).HasRoom data
  · have hnext : (writeStep (s.bufs s.master) data .reserve).2 =
        .at (.header (s.bufs s.master).offset) := by
      simp only [writeStep]
      rw [if_neg hroom]
    have hstep : storeStep cfg onPersist s (.step t) = some _ := storeStep_write hpc hnext
    refine ⟨_, hstep, .inr ⟨h.step hstep rfl (.write _ (.inr hlen)) rfl rfl, ?_, fun _ => ?_⟩⟩
    · refine iff_of_true (.inl ?_) (.inr (.inr ?_))
      · rw [StoreState.goto_self]
        rfl
      · rw [StoreState.offers, StoreState.line, hpc]
        exact List.mem_cons.mpr (.inl (decide_eq_true (And.intro hlen hroom)).symm)
    · refine StoreState.rank_lt_of_steps ?_ ?_
      · rw [StoreState.rounds, StoreState.goto_self]
        exact Nat.zero_le _
      · rw [hpc, StoreState.goto_self]
        exact Nat.lt_succ_self _
  · have hnext : (writeStep (s.bufs s.master) data .reserve).2 = .at (.leave none) := by
      simp only [writeStep]
      rw [if_pos (not_not.mp hroom)]
    refine h.write_fails (storeStep_write hpc hnext) (fun hacc => hroom hacc.2)
      (.write _ (.inr hlen)) (by rw [hpc]; rfl) rfl (by rw [hpc]; rfl) rfl (by rw [hpc]; rfl) rfl ?_
    rw [hpc]
    simp only [Pc.appendSteps, WritePc.toGo]
    omega

/-- `Write` returns. -/
theorem Lone.step_leave (h : Lone cfg t data s) {slot : Option ℕ}
    (hpc : s.pc t = .appendWrite data s.master (.leave slot)) :
    StepsCloser cfg onPersist t data s := by
  cases slot with
  | some old =>
    refine ⟨(s.setBuf s.master { s.bufs s.master with
        writers := (s.bufs s.master).writers - 1 }).appendReturn t data true, ?_,
      .inl ⟨by rw [hpc]; rfl, StoreState.goto_self _ _ _⟩⟩
    simp only [storeStep, threadStep, hpc, Pc.locks, Bool.false_and, Bool.false_eq_true, if_false,
      writeStep]
  | none =>
    have hstep : storeStep cfg onPersist s (.step t) = some _ := storeStep_write_false hpc rfl
    refine ⟨_, hstep,
      .inr (h.closer hstep rfl .lock rfl rfl (by rw [hpc]; rfl) (by rw [hpc]; rfl) ?_
      (by rw [hpc]; exact Nat.lt_succ_self _))⟩
    refine StoreState.offers_congr ?_ fun b _ =>
      StoreState.accepts_setBuf (size_writeStep _ _ _) rfl b
    rw [StoreState.line, StoreState.line, StoreState.goto_self, hpc]
    rfl

/-- Every step of `Write` on the master. -/
theorem Lone.step_write (h : Lone cfg t data s) {pc : WritePc}
    (hpc : s.pc t = .appendWrite data s.master pc) (hlen : pc = .enter ∨ FrameLength data) :
    StepsCloser cfg onPersist t data s := by
  cases pc with
  | enter => exact h.step_enter hpc
  | check => exact h.step_check hpc (hlen.resolve_left (by rintro ⟨⟩))
  | reserve => exact h.step_reserve hpc (hlen.resolve_left (by rintro ⟨⟩))
  | header old | payload old =>
    exact h.write_goes_on hpc rfl (hlen.resolve_left (by rintro ⟨⟩)) rfl (by rw [hpc]; rfl)
      (by rw [hpc]; rfl) (by rw [hpc]; rfl)
  | leave slot => exact h.step_leave hpc

-- ════════════════════════════════════════════════════════════════════════
-- The loop around Write
-- ════════════════════════════════════════════════════════════════════════

/-- The loop loads `master_`. -/
theorem Lone.step_load (h : Lone cfg t data s) (hpc : s.pc t = .appendLoad data) :
    StepsCloser cfg onPersist t data s := by
  have hstep : storeStep cfg onPersist s (.step t) =
      some (s.goto t (.appendWrite data s.master .enter)) := by
    simp only [storeStep, threadStep, hpc, Pc.locks, Bool.false_and, Bool.false_eq_true, if_false]
  refine ⟨_, hstep, .inr (h.closer hstep rfl (.write _ (.inl rfl)) rfl rfl (by rw [hpc]; rfl)
    (by rw [hpc]; rfl) ?_ (by rw [hpc]; exact Nat.lt_succ_self _))⟩
  rw [StoreState.offers, StoreState.offers, StoreState.line, StoreState.line, StoreState.goto_self,
    hpc]
  rfl

omit [DecidableEq T] in
/-- In a store of which every drain is over there is a free buffer, or room for one. -/
theorem Lone.free_or_room (h : Lone cfg t data s) (hmax : 2 ≤ cfg.normalise.maxBuffers)
    (hpc : (s.pc t).inSection = false) (hdrained : ¬ DrainRemains s) :
    s.free ≠ [] ∨ s.poolSize < cfg.normalise.maxBuffers := by
  by_contra hnone
  rw [not_or, not_not, Nat.not_lt] at hnone
  obtain ⟨htasks, hheld, -⟩ := held_of_drained hdrained
  rcases h.own.exists_elsewhere (Nat.le_trans hmax hnone.2) hnone.1 with hdraining | ⟨u, hu, -⟩
  · refine hdraining ?_
    rw [StoreState.draining, hheld, htasks]
    rfl
  · cases (h.mtx_eq hpc).symm.trans hu

/-- A buffer is there, the next one in line. -/
theorem Lone.step_take (h : Lone cfg t data s) (hpc : s.pc t = .appendLock data s.master) {b : ℕ}
    {rest : List ℕ} (hfree : s.free = b :: rest) : StepsCloser cfg onPersist t data s := by
  have hmtx : s.mtx = none := h.mtx_eq (by rw [hpc]; rfl)
  have hstep : storeStep cfg onPersist s (.step t) =
      some ({ s with free := rest, mtx := some t }.goto t (.exchange (.append data) b)) := by
    simp only [storeStep, threadStep, hpc, hmtx, Pc.locks, Option.isSome_none, Bool.and_false,
      Bool.false_eq_true, if_false, appendSection, h.stopped, ne_eq, not_true_eq_false,
      StoreState.acquire, hfree]
  have hself : ({ s with free := rest, mtx := some t }.goto t (.exchange (.append data) b)).pc t =
      .exchange (.append data) b := StoreState.goto_self _ _ _
  have hoffers : ({ s with free := rest, mtx := some t }.goto t
      (.exchange (.append data) b)).offers t data = s.offers t data := by
    rw [StoreState.offers, StoreState.offers, StoreState.line, StoreState.line, hself, hpc, hfree]
    rfl
  refine ⟨_, hstep, .inr ⟨h.step hstep rfl (.exchange b) rfl rfl, ?_, fun _ => ?_⟩⟩
  · rw [Hopeful, Hopeful, hself, hpc, hoffers]
    rfl
  · refine StoreState.rank_lt_of_rounds ?_ (by rw [hself]; exact Nat.le_refl _)
    rw [StoreState.rounds, StoreState.rounds, hself, hpc, hoffers]
    simp only [Pc.stored, Pc.failed, Bool.false_eq_true, if_false]
    omega

/-- A buffer is opened: nothing was in line. -/
theorem Lone.step_extend (h : Lone cfg t data s) (hpc : s.pc t = .appendLock data s.master)
    (hdrained : ¬ DrainRemains s) (hfree : s.free = [])
    (hroom : s.poolSize < cfg.normalise.maxBuffers)
    {buf : MmapBuffer} (hopen : cfg.normalise.openBuffer s.nextSeq = some buf) :
    StepsCloser cfg onPersist t data s := by
  have hmtx : s.mtx = none := h.mtx_eq (by rw [hpc]; rfl)
  have hstep : storeStep cfg onPersist s (.step t) = some ({ s with
      bufs := Function.update s.bufs s.poolSize buf
      poolSize := s.poolSize + 1
      nextSeq := s.nextSeq + 1
      mtx := some t }.goto t (.exchange (.append data) s.poolSize)) := by
    simp only [storeStep, threadStep, hpc, hmtx, Pc.locks, Option.isSome_none, Bool.and_false,
      Bool.false_eq_true, if_false, appendSection, h.stopped, ne_eq, not_true_eq_false,
      StoreState.acquire, hfree, hroom, if_true, hopen]
  generalize hs' : ({ s with
      bufs := Function.update s.bufs s.poolSize buf
      poolSize := s.poolSize + 1
      nextSeq := s.nextSeq + 1
      mtx := some t } : StoreState T σ).goto t (.exchange (.append data) s.poolSize) = s' at hstep
  have hpc' : s'.pc = Function.update s.pc t (.exchange (.append data) s.poolSize) := by
    rw [← hs']
    rfl
  have hself : s'.pc t = .exchange (.append data) s.poolSize := by rw [hpc', Function.update_self]
  have hlate : s.exec.late = [] := (held_of_drained hdrained).2.2
  have hoffers : s.offers t data = [] := by
    rw [StoreState.offers, StoreState.line, hpc, hfree, hlate]
    rfl
  have hfits : Accepts (s'.bufs s.poolSize) data ↔ Fits cfg.normalise data := by
    have hbuf : s'.bufs s.poolSize = buf := by
      rw [← hs']
      exact Function.update_self _ _ _
    rw [hbuf]
    exact accepts_iff_fits (StoreConfig.openBuffer_size hopen)
      (StoreConfig.openBuffer_fresh hopen).2.2
  have hoffers' : s'.offers t data = [decide (Fits cfg.normalise data)] := by
    have hline : s'.line t = [s.poolSize] := by
      rw [StoreState.line, hself, ← hs']
      simp only [StoreState.goto, hfree, hlate]
      rfl
    rw [StoreState.offers, hline, List.map_singleton, decide_eq_decide.mpr hfits]
  refine ⟨s', hstep,
    .inr ⟨h.step hstep hpc' (.exchange _) (by rw [← hs']; rfl) (by rw [← hs']; rfl),
    ?_, fun hhope => ?_⟩⟩
  · rw [Hopeful, Hopeful, hself, hpc, hoffers, hoffers']
    simp [Pc.stored]
  · have hfits : Fits cfg.normalise data := by
      rw [Hopeful, hpc, hoffers] at hhope
      simpa [Pc.stored] using hhope
    refine StoreState.rank_lt_of_rounds ?_ (by rw [hself]; exact Nat.le_refl _)
    rw [StoreState.rounds, StoreState.rounds, hself, hpc, hoffers, hoffers', decide_eq_true hfits]
    simp [Pc.stored, Pc.failed]

/-- Steps of the swap that leave the buffers as they are. -/
theorem Lone.swap_goes_on (h : Lone cfg t data s) {x : Pc}
    (hstep : storeStep cfg onPersist s (.step t) = some s') (hpc : s'.pc = Function.update s.pc t x)
    (happ : Appending data s'.master x) (hstopped : s'.stopped = s.stopped)
    (hpool : s'.poolStopped = s.poolStopped) (hstored : x.stored = (s.pc t).stored)
    (hfailed : x.failed = (s.pc t).failed) (hbufs : s'.bufs = s.bufs) (hfree : s'.free = s.free)
    (hlate : s'.exec.late = s.exec.late)
    (htarget : x.target s'.master = (s.pc t).target s.master)
    (hsteps : x.appendSteps < (s.pc t).appendSteps) : StepsCloser cfg onPersist t data s := by
  refine ⟨s', hstep, .inr (h.closer hstep hpc happ hstopped hpool hstored hfailed ?_ hsteps)⟩
  rw [StoreState.offers, StoreState.offers, StoreState.line, StoreState.line, hpc,
    Function.update_self, hbufs, hfree, hlate, htarget]

/-- The producer requests a buffer, and gets one. -/
theorem Lone.step_lock (h : Lone cfg t data s) (hmax : 2 ≤ cfg.normalise.maxBuffers)
    (hopens : ∀ seq, cfg.normalise.openBuffer seq ≠ none)
    (hpc : s.pc t = .appendLock data s.master) (hdrained : ¬ DrainRemains s) :
    StepsCloser cfg onPersist t data s := by
  cases hfree : s.free with
  | cons b rest => exact h.step_take hpc hfree
  | nil =>
    obtain ⟨buf, hopen⟩ := Option.ne_none_iff_exists'.mp (hopens s.nextSeq)
    have hroom := (h.free_or_room hmax (by rw [hpc]; rfl) hdrained).resolve_left (not_not.mpr hfree)
    exact h.step_extend hpc hdrained hfree hroom hopen

/-- The producer posts the drain of its old buffer. -/
theorem Lone.step_enqueue (h : Lone cfg t data s) {old : ℕ}
    (hpc : s.pc t = .enqueue (.append data) old) : StepsCloser cfg onPersist t data s := by
  cases hrunning : s.running with
  | true =>
    have hstep : storeStep cfg onPersist s (.step t) =
        some (({ s with tasks := s.tasks ++ [old] } : StoreState T σ).swapDone t
          (.append data)) := by
      simp only [storeStep, threadStep, hpc, hrunning, Pc.locks, Bool.false_and, Bool.false_eq_true,
        if_false, if_true]
    refine h.swap_goes_on hstep rfl .load rfl rfl ?_ ?_ rfl rfl rfl ?_ ?_ <;> rw [hpc]
    · rfl
    · rfl
    · rfl
    · simp only [Caller.swapped, Pc.appendSteps]
      omega
  | false =>
    have hstep : storeStep cfg onPersist s (.step t) = some (({ s with
        tasks := s.tasks ++ [old]
        running := true } : StoreState T σ).goto t (.post (.append data))) := by
      simp only [storeStep, threadStep, hpc, hrunning, Pc.locks, Bool.false_and, Bool.false_eq_true,
        if_false]
    refine h.swap_goes_on hstep rfl .post rfl rfl ?_ ?_ rfl rfl rfl ?_ ?_ <;> rw [hpc]
    · rfl
    · rfl
    · rfl
    · exact Nat.lt_succ_self _

/-- The pool takes the posted `Drain_`. -/
theorem Lone.step_postLocked (h : Lone cfg t data s) (hpc : s.pc t = .postLocked (.append data)) :
    StepsCloser cfg onPersist t data s := by
  have hstep : storeStep cfg onPersist s (.step t) =
      some (({ s with exec := .queued } : StoreState T σ).swapDone t (.append data)) := by
    simp only [storeStep, threadStep, hpc, h.poolStopped, Pc.locks, Bool.false_and,
      Bool.false_eq_true, if_false]
  have hidle : s.exec.isIdle = true := (h.own.posting t (by rw [hpc]; rfl)).2.1
  refine h.swap_goes_on hstep rfl .load rfl rfl ?_ ?_ rfl rfl (Exec.late_of_isIdle hidle).symm ?_ ?_
    <;> rw [hpc]
  · rfl
  · rfl
  · rfl
  · exact Nat.lt_succ_self _

/-- Every step of the producer. -/
theorem Lone.step_self (h : Lone cfg t data s) (hmax : 2 ≤ cfg.normalise.maxBuffers)
    (hopens : ∀ seq, cfg.normalise.openBuffer seq ≠ none)
    (hdrained : (s.pc t).requests = true → ¬ DrainRemains s) :
    StepsCloser cfg onPersist t data s := by
  have happ := h.appending
  generalize hpc : s.pc t = x at happ
  cases happ with
  | load => exact h.step_load hpc
  | write pc hlen => exact h.step_write hpc hlen
  | lock => exact h.step_lock hmax hopens hpc (hdrained (by rw [hpc]; rfl))
  | exchange next =>
    have hstep : storeStep cfg onPersist s (.step t) =
        some (({ s with master := next } : StoreState T σ).goto t
          (.count (.append data) s.master)) := by
      simp only [storeStep, threadStep, hpc, Pc.locks, Bool.false_and, Bool.false_eq_true, if_false]
    exact h.swap_goes_on hstep rfl (.count _) rfl rfl (by rw [hpc]; rfl) (by rw [hpc]; rfl) rfl rfl
      rfl (by rw [hpc]; rfl) (by rw [hpc]; exact Nat.lt_succ_self _)
  | count old =>
    have hstep : storeStep cfg onPersist s (.step t) =
        some (({ s with inFlight := s.inFlight + 1 } : StoreState T σ).goto t
          (.enqueue (.append data) old)) := by
      simp only [storeStep, threadStep, hpc, Pc.locks, Bool.false_and, Bool.false_eq_true, if_false]
    exact h.swap_goes_on hstep rfl (.enqueue _) rfl rfl (by rw [hpc]; rfl) (by rw [hpc]; rfl) rfl
      rfl rfl (by rw [hpc]; rfl) (by rw [hpc]; exact Nat.lt_succ_self _)
  | enqueue old => exact h.step_enqueue hpc
  | post =>
    have hstep : storeStep cfg onPersist s (.step t) =
        some (s.goto t (.postLocked (.append data))) := by
      simp only [storeStep, threadStep, hpc, h.poolStopped, Pc.locks, Bool.false_and,
        Bool.false_eq_true, if_false]
    exact h.swap_goes_on hstep rfl .postLocked rfl rfl (by rw [hpc]; rfl) (by rw [hpc]; rfl) rfl rfl
      rfl (by rw [hpc]; rfl) (by rw [hpc]; exact Nat.lt_succ_self _)
  | postLocked => exact h.step_postLocked hpc

omit [DecidableEq T] in
/-- Only the producer asks for a buffer, at its request. -/
theorem Lone.eq_of_asking (h : Lone cfg t data s) {u : T} {k : Caller} (hask : Asking s u k) :
    u = t ∧ k = .append data := by
  have hne : s.pc u ≠ .idle := by
    cases hask with
    | append _ hpc | flush _ hpc _ | wait _ hpc =>
      rw [hpc]
      rintro ⟨⟩
  obtain rfl : u = t := by
    by_contra hut
    exact hne (h.others u hut)
  have happ := h.appending
  cases hask with
  | append data' hpc =>
    rw [hpc] at happ
    cases happ
    exact ⟨rfl, rfl⟩
  | flush dtor hpc _ =>
    rw [hpc] at happ
    cases happ
  | wait k hpc =>
    rw [hpc] at happ
    cases happ

/-- A buffer that cannot be opened, or a wait that times out, ends the call. -/
theorem Lone.step_gives_up (h : Lone cfg t data s) {e : StoreEvent T}
    (he : e = .createFails t ∨ e = .timeout t) (hstep : storeStep cfg onPersist s e = some s') :
    s'.pc t = .idle := by
  have hm : StoreMove cfg.normalise onPersist s e s' := StoreMove.of_storeStep hstep
  rcases he with rfl | rfl
  all_goals
    cases hm with
    | giveUpAppend _ u _ _ hask _ =>
      obtain ⟨rfl, -⟩ := h.eq_of_asking hask
      exact StoreState.goto_self _ _ _
    | giveUpFlush _ u dtor _ hask _ _ =>
      obtain ⟨-, heq⟩ := h.eq_of_asking hask
      cases heq

-- ════════════════════════════════════════════════════════════════════════
-- Steps of Drain_
-- ════════════════════════════════════════════════════════════════════════

omit [DecidableEq T] in
/-- A buffer at `DrainOne_` is not in line. -/
theorem Lone.not_mem_line (h : Lone cfg t data s) {b : ℕ} (hb : b ∈ s.exec.held)
    (hlate : s.exec.late = []) : b ∉ s.line t := by
  have hle := h.own.occurrences_le b
  have hheld := List.count_pos_iff.mpr hb
  have hcarried := le_total (fun pc : Pc => pc.carried.count b) s.pc t
  rw [occurrences] at hle
  have hmaster : b ∉ [s.master] := by
    intro hmem
    have := List.count_pos_iff.mpr hmem
    omega
  rw [StoreState.line, hlate, List.append_nil]
  intro hmem
  rcases List.mem_append.mp hmem with htarget | hfree
  · have happ := h.appending
    generalize hpc : s.pc t = x at happ htarget hcarried
    cases happ with
    | exchange next =>
      have hnext : 0 < [next].count b := List.count_pos_iff.mpr htarget
      have hle' : [next].count b ≤ total (fun pc : Pc => pc.carried.count b) s.pc := hcarried
      omega
    | write pc _ =>
      cases pc with
      | leave slot =>
        cases slot with
        | none => cases htarget
        | some old => exact hmaster htarget
      | _ => exact hmaster htarget
    | lock => cases htarget
    | _ => exact hmaster htarget
  · have := List.count_pos_iff.mpr hfree
    omega

/-- What a step of `Drain_` does to the threads and to the line: it leaves them
alone, or it puts an empty buffer at the end of the line. -/
structure DrainChange (cfg : StoreConfig) (t : T) (data : Bytes) (s s' : StoreState T σ) :
    Prop where
  pc : s'.pc = s.pc
  master : s'.master = s.master
  stopped : s'.stopped = s.stopped
  poolStopped : s'.poolStopped = s.poolStopped
  offers : s'.offers t data = s.offers t data ∨
    s'.offers t data = s.offers t data ++ [decide (Fits cfg.normalise data)]

omit [DecidableEq T] [Fintype T] in
theorem DrainChange.same (hpc : s'.pc = s.pc) (hmaster : s'.master = s.master)
    (hstopped : s'.stopped = s.stopped) (hpool : s'.poolStopped = s.poolStopped)
    (hline : s'.free ++ s'.exec.late = s.free ++ s.exec.late)
    (hbufs : ∀ b, Accepts (s'.bufs b) data ↔ Accepts (s.bufs b) data) :
    DrainChange cfg t data s s' := by
  refine ⟨hpc, hmaster, hstopped, hpool, .inl (StoreState.offers_congr ?_ fun b _ => hbufs b)⟩
  rw [StoreState.line, StoreState.line, hpc, hmaster, hline]

omit [DecidableEq T] in
/-- `offset_.store(0)`. -/
theorem Lone.drainChange_resetOffset (h : Lone cfg t data s) {runner : Option T} {b prevUsed : ℕ}
    (hexec : s.exec = .drain runner b (.resetOffset prevUsed)) :
    DrainChange cfg t data s
      ((s.setBuf b (s.bufs b).storeOffset).drainTo runner b (.resetUnseal prevUsed)) := by
  have hheld : b ∈ s.exec.held := by
    rw [hexec]
    exact List.mem_singleton_self b
  have hlate : s.exec.late = [] := by rw [hexec]; rfl
  have hline : b ∉ s.line t := h.not_mem_line hheld hlate
  have hlt : b < s.poolSize := by
    refine h.own.lt_of_occurs ?_
    have := List.count_pos_iff.mpr hheld
    rw [occurrences]
    omega
  have hfits : Accepts (s.bufs b).storeOffset data ↔ Fits cfg.normalise data :=
    accepts_iff_fits (h.buffers.size_eq b hlt) rfl
  refine ⟨rfl, rfl, rfl, rfl, .inr ?_⟩
  have hline' :
      ((s.setBuf b (s.bufs b).storeOffset).drainTo runner b (.resetUnseal prevUsed)).line t
      = s.line t ++ [b] := by
    rw [StoreState.line, StoreState.line, hlate, List.append_nil, List.append_assoc]
    rfl
  rw [StoreState.offers, StoreState.offers, hline', List.map_append, List.map_singleton]
  refine congrArg₂ (· ++ ·) (List.map_congr_left fun a ha => ?_) ?_
  · have hne : a ≠ b := by
      rintro rfl
      exact hline ha
    exact decide_eq_decide.mpr (StoreState.accepts_setBuf_of_ne hne)
  · refine congrArg (fun x => [x]) (decide_eq_decide.mpr ?_)
    simp only [StoreState.drainTo, StoreState.setBuf, Function.update_self]
    exact hfits

/-- Every step of `Drain_` on a worker. -/
theorem Lone.drainChange (h : Lone cfg t data s)
    (hstep : storeStep cfg onPersist s .drain = some s') : DrainChange cfg t data s s' := by
  have hrunner := h.runner_eq
  simp only [storeStep, drainStep] at hstep
  cases hexec : s.exec with
  | idle =>
    rw [hexec] at hstep
    cases hstep
  | queued =>
    rw [hexec] at hstep
    cases hstep
    exact .same rfl rfl rfl rfl (by rw [hexec]; rfl) fun _ => Iff.rfl
  | loop runner =>
    rw [hexec] at hstep hrunner
    obtain rfl : runner = none := hrunner
    cases hstep
    rw [loopStep]
    split <;> exact .same rfl rfl rfl rfl (by rw [hexec]; rfl) fun _ => Iff.rfl
  | drain runner b pc =>
    rw [hexec] at hstep
    simp only [drainOneStep] at hstep
    split at hstep
    · cases hstep
    · cases hstep
      cases pc with
      | sealStore | resetUnseal _ | resetMemset _ =>
        exact .same rfl rfl rfl rfl (by rw [hexec]; rfl) (StoreState.accepts_setBuf rfl rfl)
      | sealWait =>
        simp only
        split
        · exact .same rfl rfl rfl rfl (by rw [hexec]; rfl) fun _ => Iff.rfl
        · exact .same rfl rfl rfl rfl rfl fun _ => Iff.rfl
      | scan endPos pos =>
        simp only
        split <;> exact .same rfl rfl rfl rfl (by rw [hexec]; rfl) fun _ => Iff.rfl
      | resetOffset prevUsed => exact h.drainChange_resetOffset hexec
      | pushFree =>
        exact .same rfl rfl rfl rfl (by rw [hexec]; exact List.append_nil _) fun _ => Iff.rfl
      | fetchSub =>
        simp only
        split <;> exact .same rfl rfl rfl rfl (by rw [hexec]; rfl) fun _ => Iff.rfl
      | _ => exact .same rfl rfl rfl rfl (by rw [hexec]; rfl) fun _ => Iff.rfl

/-- Drains bring the end closer too: there is no thread that `Seal` could wait for. -/
theorem Lone.step_drain (h : Lone cfg t data s)
    (hstep : storeStep cfg onPersist s .drain = some s') : Closer cfg t data s s' := by
  have hm : StoreMove cfg.normalise onPersist s .drain s' := StoreMove.of_storeStep hstep
  obtain ⟨hpc, hmaster, hstopped, hpool, hoffers⟩ := h.drainChange hstep
  have hbusy : s.exec.isIdle = false := by
    cases hexec : s.exec with
    | idle =>
      simp only [storeStep, drainStep, hexec] at hstep
      cases hstep
    | _ => rfl
  have hlocks : ∀ b pc, s.exec = .drain none b pc → pc.locks = true → s.mtx = none := by
    intro b pc hexec hlocks
    by_contra hmtx
    have hsome : s.mtx.isSome = true := Option.isSome_iff_ne_none.mpr hmtx
    simp only [storeStep, drainStep, hexec, drainOneStep, hlocks, hsome, Bool.and_self] at hstep
    cases hstep
  obtain ⟨s'', hstep'', hwork⟩ : ∃ s'', storeStep cfg onPersist s .drain = some s'' ∧
      s''.work < s.work := by
    refine work_drain h.runner_eq hbusy hlocks fun b hexec => h.writers_eq_zero ?_
    rw [hexec]
    exact List.mem_singleton_self b
  obtain rfl : s'' = s' := Option.some.inj (hstep''.symm.trans hstep)
  have hself : s''.pc t = s.pc t := congrFun hpc t
  refine ⟨⟨h.own.step hm, h.writers.step h.own hm, h.buffers.step h.own hm, ?_,
    hstopped.trans h.stopped, hpool.trans h.poolStopped, ?_⟩, ?_, fun hhope => ?_⟩
  · rw [hpc]
    exact h.others
  · rw [hpc, hmaster]
    exact h.appending
  · rcases hoffers with hsame | hmore
    · rw [Hopeful, Hopeful, hself, hsame]
    · rw [Hopeful, Hopeful, hself, hmore, List.mem_append, List.mem_singleton, eq_comm (a := true),
        decide_eq_true_iff]
      tauto
  · refine StoreState.rank_lt_of_work ?_ hself hwork
    rw [StoreState.rounds, StoreState.rounds, hself]
    split
    · rfl
    · next hstored =>
      rcases hoffers with hsame | hmore
      · rw [hsame]
      · have hfits : decide (Fits cfg.normalise data) = true ∨ true ∈ s.offers t data := by
          rw [decide_eq_true_iff]
          exact hhope.resolve_left hstored
        rw [hmore, findIdx_append_fits hfits]

-- ════════════════════════════════════════════════════════════════════════
-- Whether Append returns
-- ════════════════════════════════════════════════════════════════════════

/-- The producer can take its next step, or the worker can. -/
theorem Lone.exists_closer (h : Lone cfg t data s) (hmax : 2 ≤ cfg.normalise.maxBuffers)
    (hopens : ∀ seq, cfg.normalise.openBuffer seq ≠ none) :
    ∃ e s', LoneStep t s e ∧ storeStep cfg onPersist s e = some s' ∧
      ((s.pc t).stored = true ∧ s'.pc t = .idle ∨ Closer cfg t data s s') := by
  by_cases hdrained : (s.pc t).requests = true → ¬ DrainRemains s
  · obtain ⟨s', hstep, hcloser⟩ : StepsCloser cfg onPersist t data s :=
      h.step_self hmax hopens hdrained
    exact ⟨.step t, s', ⟨rfl, hdrained⟩, hstep, hcloser⟩
  · -- The request has to wait for a drain, and `mtx_` is free.
    rw [Classical.not_imp] at hdrained
    obtain ⟨hrequests, hdrained⟩ := hdrained
    have hmtx : s.mtx = none := by
      refine h.mtx_eq ?_
      cases hpc : s.pc t <;> rw [hpc] at hrequests <;> first | rfl | cases hrequests
    have hbusy : s.exec.isIdle = false := by
      by_contra hidle
      have hstopped := (h.own.strand_of_mtx hmtx).2 (by simpa using hidle)
      rcases not_not.mp hdrained with htasks | ⟨runner, b, pc, hexec⟩
      · exact htasks (h.own.stopped_strand hstopped).1
      · rw [hexec] at hidle
        exact hidle rfl
    obtain ⟨s', hstep, -⟩ : ∃ s', storeStep cfg onPersist s .drain = some s' ∧
        s'.work < s.work := by
      refine work_drain h.runner_eq hbusy (fun _ _ _ _ => hmtx) fun b hexec => h.writers_eq_zero ?_
      rw [hexec]
      exact List.mem_singleton_self b
    exact ⟨.drain, s', trivial, hstep, .inr (h.step_drain hstep)⟩

/-- While there is hope, `Append` terminates however producer and drains interleave. -/
theorem Lone.inevitable (h : Lone cfg t data s) (hmax : 2 ≤ cfg.normalise.maxBuffers)
    (hopens : ∀ seq, cfg.normalise.openBuffer seq ≠ none)
    (hhope : Hopeful cfg t data s) :
    Inevitable (storeStep cfg onPersist) (LoneStep t) (fun s' => s'.pc t = .idle) s := by
  refine Inevitable.of_measure (I := fun s => Lone cfg t data s ∧ Hopeful cfg t data s)
    (fun s => s.rank t data) (fun s ⟨hlone, _⟩ _ => ?_)
    (fun s e s' ⟨hlone, hhope⟩ _ hok hstep => ?_)
    ⟨h, hhope⟩
  · obtain ⟨e, s', hok, hstep, -⟩ := hlone.exists_closer hmax hopens
    exact ⟨e, s', hok, hstep⟩
  · have hkeep : Closer cfg t data s s' →
        (Lone cfg t data s' ∧ Hopeful cfg t data s') ∧ s'.rank t data < s.rank t data :=
      fun hcloser => ⟨⟨hcloser.lone, hcloser.hopeful_iff.mpr hhope⟩, hcloser.rank_lt hhope⟩
    cases e with
    | drain => exact .inr (hkeep (hlone.step_drain hstep))
    | step u =>
      obtain ⟨rfl, hdrained⟩ := hok
      obtain ⟨s'', hstep'', hend⟩ : StepsCloser cfg onPersist u data s :=
        hlone.step_self hmax hopens hdrained
      obtain rfl : s'' = s' := Option.some.inj (hstep''.symm.trans hstep)
      exact hend.imp (fun hidle => hidle.2) hkeep
    | createFails u =>
      obtain ⟨rfl, -⟩ := hok
      exact .inl (hlone.step_gives_up (.inl rfl) hstep)
    | timeout u =>
      obtain rfl := hok
      exact .inl (hlone.step_gives_up (.inr rfl) hstep)
    | append | flush | destroy | shutdown => cases hok

/-- Without hope it can go on forever. -/
theorem Lone.not_inevitable (h : Lone cfg t data s) (hmax : 2 ≤ cfg.normalise.maxBuffers)
    (hopens : ∀ seq, cfg.normalise.openBuffer seq ≠ none)
    (hhope : ¬ Hopeful cfg t data s) :
    ¬ Inevitable (storeStep cfg onPersist) (LoneStep t) (fun s' => s'.pc t = .idle) s := by
  refine Transition.not_inevitable (I := fun s => Lone cfg t data s ∧ ¬ Hopeful cfg t data s)
    (fun s ⟨hlone, _⟩ => hlone.appending.ne_idle) (fun s ⟨hlone, hhope⟩ => ?_) ⟨h, hhope⟩
  obtain ⟨e, s', hok, hstep, hend⟩ := hlone.exists_closer hmax hopens
  have hcloser : Closer cfg t data s s' := hend.resolve_left fun hidle => hhope (.inl hidle.1)
  exact ⟨e, s', hok, hstep, hcloser.lone, fun hhope' => hhope (hcloser.hopeful_iff.mp hhope')⟩

/-- A call of `Append` that begins while no other thread uses the store. -/
theorem Lone.of_reach {env : σ} {s₀ : StoreState T σ}
    (hcreate : StoreState.create cfg env = some s₀)
    (hr : Reach (storeStep cfg onPersist) (fun _ _ => True) s₀ s)
    (hpc : s.pc t = .appendLoad data) (hothers : ∀ u, u ≠ t → s.pc u = .idle)
    (hpool : s.poolStopped = false) : Lone cfg t data s := by
  refine ⟨OwnInv.of_reach hcreate hr, WritersInv.of_reach hcreate hr,
    BuffersInv.of_reach hcreate hr,
    hothers, ?_, hpool, ?_⟩
  · exact (TeardownInv.of_reach hcreate hr).not_stopped (t := t) (by rw [hpc]; rfl)
  · rw [hpc]
    exact .load

omit [DecidableEq T] [Fintype T] in
/-- What lies ahead of a call that begins. -/
theorem hopeful_load_iff (hpc : s.pc t = .appendLoad data) : Hopeful cfg t data s ↔
    Fits cfg.normalise data ∨
      ∃ b ∈ s.master :: (s.free ++ s.exec.late), Accepts (s.bufs b) data := by
  have hline : s.line t = s.master :: (s.free ++ s.exec.late) := by
    rw [StoreState.line, hpc]
    rfl
  rw [Hopeful, hpc, StoreState.offers, hline, List.mem_map]
  simp only [Pc.stored, Bool.false_eq_true, false_or, decide_eq_true_iff]

/-- Whatever the store has been through, and however the steps of the producer
and of the drains interleave from here: with one producer active, and every
posted drain over before the next buffer is requested, `Append` terminates
exactly when an empty buffer takes the payload, or one of the buffers that come
first in line does with the `offset_` it has. -/
theorem append_returns_iff {env : σ} {s₀ : StoreState T σ} (hmax : 2 ≤ cfg.normalise.maxBuffers)
    (hcreate : StoreState.create cfg env = some s₀)
    (hr : Reach (storeStep cfg onPersist) (fun _ _ => True) s₀ s)
    (hpc : s.pc t = .appendLoad data) (hothers : ∀ u, u ≠ t → s.pc u = .idle)
    (hpool : s.poolStopped = false) :
    Inevitable (storeStep cfg onPersist) (LoneStep t) (fun s' => s'.pc t = .idle) s ↔
      Fits cfg.normalise data ∨
        ∃ b ∈ s.master :: (s.free ++ s.exec.late), Accepts (s.bufs b) data := by
  have hlone : Lone cfg t data s := .of_reach hcreate hr hpc hothers hpool
  have hopens := StoreState.create_opens hcreate
  rw [← hopeful_load_iff hpc]
  constructor
  · intro hinevitable
    by_contra hhope
    exact hlone.not_inevitable hmax hopens hhope hinevitable
  · exact hlone.inevitable hmax hopens

/-- The master is filled to its last byte, and `Append` is called with one byte more. -/
def fullMaster : List (StoreEvent Unit) :=
  List.flatten [[.append () (some (List.replicate 4092 0))], List.replicate 7 (.step ()),
    [.append () (some [7])]]

theorem run_fullMaster :
    (run (storeStep onePageStore fun _ _ => ((), false))
        ((StoreState.create onePageStore ()).get rfl) fullMaster).map
          (fun s => (s.pc (), s.poolStopped, s.master, (s.bufs 0).offset, (s.bufs 0).size)) =
      some (.appendLoad [7], false, 0, 4096, 4096) := by
  decide +kernel

/-- That call swaps the master and returns. -/
theorem append_returns_iff_fullMaster : ∃ s : StoreState Unit Unit,
    (s.pc (), s.poolStopped, s.master, (s.bufs 0).offset, (s.bufs 0).size) =
      (.appendLoad [7], false, 0, 4096, 4096) ∧
    Inevitable (storeStep onePageStore fun _ _ => ((), false)) (LoneStep ())
      (fun s' => s'.pc () = .idle) s := by
  obtain ⟨s, hrun, hshown⟩ := Option.map_eq_some_iff.mp run_fullMaster
  have hfull := hshown
  rw [Prod.mk.injEq, Prod.mk.injEq] at hshown
  obtain ⟨hpc, hpool, -⟩ := hshown
  exact ⟨s, hfull, (append_returns_iff (by decide) rfl (Reach.of_run hrun fun _ _ => trivial) hpc
    (fun u hu => absurd rfl hu) hpool).mpr (.inl ⟨⟨by decide, by decide⟩, by decide⟩)⟩

/-- The call of `Append` with something to write. -/
theorem storeStep_append (hopen : s.closing = false) (hpc : s.pc t = .idle)
    (hdata : data.length ≠ 0) : storeStep cfg onPersist s (.append t (some data)) =
      some ((s.observe [.appendCall t data]).goto t (.appendLoad data)) := by
  simp only [storeStep, appendCallStep, hopen, hpc, ne_eq, not_true_eq_false, decide_false,
    Bool.or_self, Bool.false_eq_true, if_false, Option.getD_some, hdata]

/-- One byte more than a page holds: the call swaps buffers forever. -/
theorem append_never_returns :
    ¬ ∀ (cfg : StoreConfig) (onPersist : Unit → Bytes → Unit × Bool) (s₀ s : StoreState Unit Unit)
      (data : Bytes), 2 ≤ cfg.normalise.maxBuffers → StoreState.create cfg () = some s₀ →
        Reach (storeStep cfg onPersist) (fun _ _ => True) s₀ s → s.pc () = .appendLoad data →
          (∀ u, u ≠ () → s.pc u = .idle) → s.poolStopped = false →
            Inevitable (storeStep cfg onPersist) (LoneStep ()) (fun s' => s'.pc () = .idle) s := by
  intro h
  have hlen : (List.replicate 4093 (0 : UInt8)).length = 4093 := List.length_replicate
  have hcreate : StoreState.create onePageStore () =
      some ((StoreState.create onePageStore ()).get rfl : StoreState Unit Unit) := rfl
  have hr : Reach (storeStep onePageStore fun _ _ => ((), false)) (fun _ _ => True)
      ((StoreState.create onePageStore ()).get rfl) _ :=
    Reach.refl.step trivial (storeStep_append (t := ()) rfl rfl (by rw [hlen]; decide))
  have hlone :=
    Lone.of_reach hcreate hr (StoreState.goto_self _ _ _) (fun u hu => absurd rfl hu) rfl
  refine hlone.not_inevitable (by decide) (StoreState.create_opens hcreate) ?_
    (h onePageStore _ _ _ _ (by decide) hcreate hr (StoreState.goto_self _ _ _)
      (fun u hu => absurd rfl hu) rfl)
  have hfits : ¬ Fits onePageStore.normalise (List.replicate 4093 0) := by
    rintro ⟨-, hle⟩
    rw [hlen] at hle
    exact absurd hle (by decide)
  rw [hopeful_load_iff (StoreState.goto_self _ _ _)]
  rintro (hfit | ⟨b, hb, hacc⟩)
  · exact hfits hfit
  · have hline : b ∈ [0, 1] := hb
    simp only [List.mem_cons, List.not_mem_nil, or_false] at hline
    rcases hline with rfl | rfl <;> exact hfits ((accepts_iff_fits rfl rfl).mp hacc)

end LoggerHigh
