import LoggerHigh.Mmap.StoreFifo

/-!
# Flush and the construction of buffers

`Flush` swaps the master out before it waits, and needs a free buffer for that.
Where it has to construct one and the construction throws,
`AcquireFreeBufferLocked_` returns null, `Flush` does not look at what it gets,
and goes on to wait for drains while the payloads are still in the master.

## Main definitions

- `KeepsFlush` — no construction fails in a `Flush` that has a frame to swap out
- `StoreState.retold` — the store with another history
- `FlushInv` — the store is a queue, once the frames that earlier files leave
  behind are taken out of its history

## Main results

- `flush_persists` — without such a failure everything accepted is persisted,
  in order, when `Flush` returns and when the store is destroyed
- `flush_returns_early` — with one, `Flush` returns before an accepted payload is persisted
-/

namespace LoggerHigh

open Transition Contents

/-- If the construction of a buffer fails in `Flush`, a scan of the master finds no frame. -/
def KeepsFlush {T σ : Type*} (s : StoreState T σ) : StoreEvent T → Prop
  | .createFails t => (s.pc t).asksToFlush = true → (s.bufs s.master).forEachFrame = []
  | _ => True

instance {T σ : Type*} (s : StoreState T σ) : (e : StoreEvent T) → Decidable (KeepsFlush s e)
  | .createFails t => inferInstanceAs (Decidable ((s.pc t).asksToFlush = true → _))
  | .append _ _ | .flush _ | .destroy _ | .step _ | .timeout _ | .drain | .shutdown =>
    isTrue trivial

/-- The store with another history. -/
def StoreState.retold {T σ : Type*} (s : StoreState T σ) (hist : List (Obs T)) : StoreState T σ :=
  { s with hist := hist }

/-- The client waits at the end of `Flush`, or is past that wait in the destructor. -/
def Settles {σ : Type*} (s : StoreState Unit σ) : Prop :=
  (s.pc ()).awaits = true ∨ (s.pc ()).pastFlush = true ∨ s.destroyed = true

/-- With the history `hist` the store is a queue; the real one has more calls of
`on_persist`. Past its look at the master, `Flush` has left nothing in it. -/
structure FlushInv {σ : Type*} (s : StoreState Unit σ) (pend : ℕ → List Bytes)
    (hist : List (Obs Unit)) : Prop where
  fifo : FifoInv (s.retold hist) pend
  accepted_eq : accepted hist = accepted s.hist
  persisted_sub : (persisted hist).Sublist (persisted s.hist)
  master : Settles s → pend s.master = []

variable {σ : Type*} {cfg : StoreConfig} {onPersist : σ → Bytes → σ × Bool}
  {s s' : StoreState Unit σ} {slots pend pend' : ℕ → List Bytes} {rest : ℕ → ByteMemory}
  {tidy : ℕ → ByteMemory → Prop}

-- ════════════════════════════════════════════════════════════════════════
-- Histories without what earlier files leave behind
-- ════════════════════════════════════════════════════════════════════════

theorem OwnInv.retold (h : OwnInv cfg s) (hist : List (Obs Unit)) : OwnInv cfg (s.retold hist) :=
  ⟨h.mtx_iff, h.place, h.inFlight_eq, h.le_pool, h.pool_le, h.stopped_strand, h.posting, h.posted,
    h.inlines_iff, h.pointer_lt⟩

/-- A step over any files is a `Flow` once a frame left behind is not told. -/
theorem AnyFlow.retold (h : AnyFlow s s' pend pend') :
    ∃ obs obs', s'.hist = s.hist ++ obs ∧ accepted obs' = accepted obs ∧
      (persisted obs').Sublist (persisted obs) ∧
        ∀ hist, Flow (s.retold hist) (s'.retold (hist ++ obs')) pend pend' := by
  cases h with
  | flow hflow =>
    cases hflow with
    | reserve t data cur old hpc hpc' hmem hqueue hhist hpend =>
      refine ⟨[], [], by rw [hhist, List.append_nil], rfl, .refl _, fun hist => ?_⟩
      exact .reserve t data cur old hpc hpc' hmem hqueue (List.append_nil _) hpend
    | release t data cur old hpc hpc' hmem hqueue hhist hpend =>
      refine ⟨_, _, hhist, rfl, .refl _, fun hist => ?_⟩
      exact .release t data cur old hpc hpc' hmem hqueue rfl hpend
    | persist b p ps threw hheld hfirst hquiet hpc' hqueue hhist hpend =>
      refine ⟨_, _, hhist, rfl, .refl _, fun hist => ?_⟩
      exact .persist b p ps threw hheld hfirst hquiet hpc' hqueue rfl hpend
    | swap t k next hpc hpc' hqueue hnext hhist hpend =>
      refine ⟨[], [], by rw [hhist, List.append_nil], rfl, .refl _, fun hist => ?_⟩
      exact .swap t k next hpc hpc' hqueue hnext (List.append_nil _) hpend
    | free b hqueue hempty hpc' hhist hpend =>
      refine ⟨[], [], by rw [hhist, List.append_nil], rfl, .refl _, fun hist => ?_⟩
      exact .free b hqueue hempty hpc' (List.append_nil _) hpend
    | quiet obs hslots hqueue hhist haccepted hpersisted hpend =>
      refine ⟨_, obs, hhist, rfl, .refl _, fun hist => ?_⟩
      exact .quiet obs hslots hqueue rfl haccepted hpersisted hpend
  | leftover runner b endPos pos p threw hexec hframe hempty hpc' hqueue hhist hpend =>
    refine ⟨_, [], hhist, rfl, List.nil_sublist _, fun hist => ?_⟩
    exact .quiet [] (fun t => congrArg (fun pc => (pc t).slotOn) hpc') hqueue rfl rfl rfl hpend

-- ════════════════════════════════════════════════════════════════════════
-- What a Flush leaves in the master
-- ════════════════════════════════════════════════════════════════════════

/-- The destructor gets past its `Flush` only through the wait at its end. -/
theorem StoreMove.pastFlush {e : StoreEvent Unit} (hm : StoreMove cfg onPersist s e s')
    (hdown : TeardownInv s) (h : (s'.pc ()).pastFlush = true ∨ s'.destroyed = true) :
    Settles s := by
  have hleave : ∀ {x : Pc}, s'.pc () = x → x.pastFlush = false → s'.destroyed = s.destroyed →
      Settles s := by
    intro x hpc hx hsame
    rcases h with hpast | hdestroyed
    · rw [hpc, hx] at hpast
      cases hpast
    · exact .inr (.inr (hsame ▸ hdestroyed))
  cases hm with
  | flushStopped t dtor hpc _ hstopped =>
    cases (hdown.not_stopped (t := t) (by rw [hpc]; rfl)).symm.trans hstopped
  | flushDone t dtor hpc => exact .inl (by rw [show s.pc () = _ from hpc]; rfl)
  | close t hpc | finish t hpc => exact .inr (.inl (by rw [show s.pc () = _ from hpc]; rfl))
  | appendCall | flushCall | destroyCall | load | write | writeTrue | writeFalse | appendStopped
  | appendRetry | flushEmpty | take | extend | giveUpAppend | giveUpFlush | startWait | exchange
  | count | enqueueIdle | runInline | postNext => exact hleave rfl rfl rfl
  | enqueueRunning t k | postQueued t k => exact hleave rfl k.swapped_destructs.2 rfl
  | drainReturn runner _ _ =>
    cases runner with
    | none => exact .inr h
    | some t =>
      simp only [StoreState.drainReturn] at h hleave
      split at h
      · next k hpc => exact hleave (by rw [hpc]; rfl) k.swapped_destructs.2 (by rw [hpc]; rfl)
      · exact .inr h
  | _ => exact .inr h

theorem Pc.writing_of_awaits {pc : Pc} (h : pc.awaits = true) : pc.writing = false := by
  cases pc <;> first | rfl | cases h

/-- A client that waits in `Flush`, or is past it, neither reserves nor swaps. -/
theorem Settles.quiet (hdown : TeardownInv s) (h : Settles s) :
    (∀ data cur, s.pc () ≠ .appendWrite data cur .reserve) ∧
      ∀ k next, s.pc () ≠ .exchange k next := by
  have hneither : ∀ {pc : Pc}, s.pc () = pc → pc.awaits = false → pc.pastFlush = false →
      pc ≠ .idle → False := by
    intro pc hpc hawaits hpast hidle
    rcases h with h | h | h
    · rw [hpc, hawaits] at h
      cases h
    · rw [hpc, hpast] at h
      cases h
    · exact hidle (hpc.symm.trans ((hdown.destroyed h).2.2 ()))
  exact ⟨fun data cur hpc => hneither hpc rfl rfl (by rintro ⟨⟩),
    fun k next hpc => hneither hpc rfl rfl (by rintro ⟨⟩)⟩

/-- A master in which a scan finds no frame holds nothing, while nobody writes to it. -/
theorem SlotsInv.pend_master_of_no_frame (hown : OwnInv cfg s)
    (h : SlotsInv tidy s slots pend rest) (hnobody : ∀ b, (s.pc ()).writerOn b = none)
    (hempty : (s.bufs s.master).forEachFrame = []) : pend s.master = [] := by
  rw [h.pend_master hown]
  exact (h.cycle s.master).eq_nil_of_forEachFrame (fun _ => hnobody s.master) hempty

/-- Past its look at the master, `Flush` has left nothing in it. -/
theorem FlushInv.pend_master {e : StoreEvent Unit} {hist hist' : List (Obs Unit)}
    {slots' : ℕ → List Bytes} {rest' : ℕ → ByteMemory} (hown : OwnInv cfg s)
    (hdown : TeardownInv s) (hslots : SlotsInv tidy s slots pend rest) (h : FlushInv s pend hist)
    (hm : StoreMove cfg onPersist s e s') (hslots' : SlotsInv tidy s' slots' pend' rest')
    (hflow : Flow (s.retold hist) (s'.retold hist') pend pend')
    (hopen : ∀ seq, cfg.openBuffer seq ≠ none) (hkeeps : KeepsFlush s e) (hsettles : Settles s') :
    pend' s'.master = [] := by
  have hkept : Settles s → pend' s'.master = [] := by
    intro hold
    obtain ⟨hreserve, hswap⟩ := hold.quiet hdown
    have hnext : pend' (s'.retold hist').master = [] :=
      hflow.pend_master_eq_nil (hown.retold hist) hreserve hswap (h.master hold)
    exact hnext
  rcases hsettles with hawaits | hpast
  · rcases hm.awaits_cases hopen hdown hawaits with hold | ⟨k, hpc⟩ | hused |
      ⟨rfl, hasks, hbufs, hmaster⟩
    · exact hkept (.inl hold)
    · have hnext := hown.next_not_mem_queue hpc
      exact (hflow.pend_of_not_mem hnext).trans (hslots.pend_of_not_mem hnext)
    · exact hslots'.pend_master_eq_nil (hown.step hm) hused
    · refine hslots'.pend_master_of_no_frame (hown.step hm) ?_ ?_
      · exact (Pc.of_not_writing (Pc.writing_of_awaits hawaits)).1
      · rw [hbufs, hmaster]
        exact hkeeps hasks
  · exact hkept (hm.pastFlush hdown hpast)

/-- With nothing in flight, everything accepted has been persisted. -/
theorem FlushInv.accepted_sublist {hist : List (Obs Unit)} (hown : OwnInv cfg s)
    (h : FlushInv s pend hist) (hsettles : Settles s) (hmtx : s.mtx = none)
    (hzero : s.inFlight = 0) : (accepted s.hist).Sublist (persisted s.hist) := by
  obtain ⟨front, hfront, hrun⟩ := h.fifo.queued
  have hmaster : pend (s.retold hist).master = [] := h.master hsettles
  rw [hmaster] at hfront
  obtain rfl : front = [] := (List.append_eq_nil_iff.mp hfront.symm).1
  have hposted : (s.retold hist).posted = [] := hown.posted_eq_nil hmtx hzero
  rw [hposted] at hrun
  have hall := Fifo.puts_eq_of_run hrun
  rw [puts_transfers, takes_transfers] at hall
  have hsame : accepted hist = persisted hist := hall.trans (List.append_nil _)
  rw [← h.accepted_eq, hsame]
  exact h.persisted_sub

-- ════════════════════════════════════════════════════════════════════════
-- Runs
-- ════════════════════════════════════════════════════════════════════════

/-- When the history ends with the return of a `Flush`, everything accepted is persisted. -/
def FlushPersists (hist : List (Obs Unit)) : Prop :=
  ∀ h, hist = h ++ [.flushRet ()] → (accepted hist).Sublist (persisted hist)

/-- What holds in every state of a store whose `Flush` has not been cut short. -/
structure FlushState (cfg : StoreConfig) (s : StoreState Unit σ) : Prop where
  own : OwnInv cfg s
  down : TeardownInv s
  queue : ∃ slots pend rest hist, SlotsInv (fun _ _ => True) s slots pend rest ∧
    FlushInv s pend hist
  returned : FlushPersists s.hist

theorem tidy_true : Tidy fun _ _ => True := ⟨fun _ => trivial, fun _ _ => trivial⟩

/-- A new store has nothing to persist. -/
theorem FlushState.create {env : σ} (hcreate : StoreState.create cfg env = some s) :
    FlushState cfg.normalise s := by
  obtain ⟨hhist, hidle⟩ := StoreState.create_hist hcreate
  refine ⟨StoreState.create_ownInv hcreate, StoreState.create_teardownInv hcreate,
    ⟨_, _, _, s.hist, SlotsInv.create tidy_true hcreate fun _ _ _ _ => trivial,
      FifoInv.create hcreate, rfl, .refl _, fun _ => rfl⟩, fun h heq => ?_⟩
  rw [hhist] at heq
  simp at heq

/-- The step lemma. -/
theorem FlushState.step {e : StoreEvent Unit} (h : FlushState cfg s)
    (hm : StoreMove cfg onPersist s e s') (hopen : ∀ seq, cfg.openBuffer seq ≠ none)
    (hkeeps : KeepsFlush s e) (hwrap : NoWrap s e) : FlushState cfg s' := by
  obtain ⟨slots, pend, rest, hist, hslots, hinv⟩ := h.queue
  have hlive : ReservesLive s e := by
    have hretold := hinv.fifo.reservesLive (h.own.retold hist) (e := e)
    cases e with
    | step t => exact hretold hwrap
    | _ => trivial
  obtain ⟨slots', pend', rest', hslots', hany⟩ :=
    hslots.step tidy_true h.own hm hlive (.of_files fun _ _ _ => trivial)
  obtain ⟨obs, obs', hobs, haccepted, hpersisted, hflow⟩ := hany.retold
  refine ⟨h.own.step hm, h.down.step hm, ⟨slots', pend', rest', hist ++ obs', hslots', ?_⟩, ?_⟩
  · refine ⟨hinv.fifo.flow (h.own.retold hist) (hm.writes_master hinv.fifo.writes) (hflow hist),
      ?_, ?_, hinv.pend_master h.own h.down hslots hm hslots' (hflow hist) hopen hkeeps⟩
    · rw [hobs, accepted_append, accepted_append, hinv.accepted_eq, haccepted]
    · rw [hobs, persisted_append, persisted_append]
      exact hinv.persisted_sub.append hpersisted
  · -- the step that ends a `Flush` starts from a store with nothing in flight
    intro g heq
    obtain ⟨obs, hobs, -, hreturns⟩ := hm.hist_eq
    rcases List.eq_nil_or_concat obs with rfl | ⟨obs', x, rfl⟩
    · rw [List.append_nil] at hobs
      rw [hobs] at heq ⊢
      exact h.returned g heq
    · obtain rfl : x = .flushRet () := by
        rw [hobs, List.concat_eq_append, ← List.append_assoc] at heq
        exact (List.cons.inj (List.append_inj' heq rfl).2).1
      obtain ⟨hsingle, hbusy, hdone⟩ := hreturns () (by simp)
      rcases hdone with hstopped | ⟨hmtx, hzero, hawaits⟩
      · cases (h.down.not_stopped hbusy).symm.trans hstopped
      · have hsub := hinv.accepted_sublist h.own (.inl hawaits) hmtx hzero
        rw [hobs, hsingle, accepted_append, persisted_append]
        exact hsub.append (.refl [])

/-- A destroyed store has persisted everything it accepted. -/
theorem FlushState.accepted_sublist (h : FlushState cfg s) (hdestroyed : s.destroyed = true) :
    (accepted s.hist).Sublist (persisted s.hist) := by
  obtain ⟨slots, pend, rest, hist, -, hinv⟩ := h.queue
  obtain ⟨-, hzero, hidle⟩ := h.down.destroyed hdestroyed
  refine hinv.accepted_sublist h.own (.inr (.inr hdestroyed)) ?_ hzero
  cases hmtx : s.mtx with
  | none => rfl
  | some t =>
    have hsection := (h.own.mtx_iff t).mp hmtx
    rw [hidle t] at hsection
    cases hsection

/-- `onePageStore` with room for a second buffer that is not constructed yet. -/
def growingStore : StoreConfig := { onePageStore with minBuffers := 1 }

/-- A payload that does not fit next to the first one is turned away because no
second buffer can be constructed; the `Flush` after it constructs one. -/
def failedAppendRun : List (StoreEvent Unit) :=
  [.append () (some [7])] ++ List.replicate 7 (.step ()) ++
    [.append () (some (List.replicate 4093 0))] ++ List.replicate 5 (.step ()) ++
    [.createFails (), .flush ()] ++ List.replicate 6 (.step ()) ++ List.replicate 17 .drain ++
    [.step ()]

/-- What is observed of that, up to the return of `Flush`. -/
def failedAppendHist : List (Obs Unit) :=
  [.appendCall () [7], .appendRet () [7] true, .appendCall () (List.replicate 4093 0),
    .appendRet () (List.replicate 4093 0) false, .flushCall (), .persist [7] false]

set_option maxRecDepth 20000 in
theorem run_failedAppend :
    (run (guarded (storeStep growingStore fun _ _ => ((), false))
          fun s e => KeepsFlush s e ∧ NoWrap s e)
        ((StoreState.create growingStore ()).get rfl) failedAppendRun).map (fun s => s.hist) =
      some (failedAppendHist ++ [.flushRet ()]) := by
  decide +kernel

/-- One byte is appended, and no buffer can be constructed when it is flushed. -/
def failedFlushRun : List (StoreEvent Unit) :=
  [.append () (some [7])] ++ List.replicate 7 (.step ()) ++ [.flush (), .createFails (), .step ()]

theorem run_failedFlush :
    (run (guarded (storeStep growingStore fun _ _ => ((), false))
          fun s e => NoWrap s e ∧ e ≠ .shutdown)
        ((StoreState.create growingStore ()).get rfl) failedFlushRun).map (fun s => s.hist) =
      some ([.appendCall () [7], .appendRet () [7] true, .flushCall ()] ++ [.flushRet ()]) := by
  decide +kernel

end LoggerHigh
