import LoggerHigh.Lib.Fifo
import LoggerHigh.Mmap.StoreDelivery
import Mathlib.Algebra.Module.Submodule.Lattice
import Mathlib.Data.List.Permutation

/-!
# One client sees a queue

With a single client thread the store is a first-in first-out queue: what
`Append` accepts goes in, what is handed to `on_persist` comes out, and the
queue is empty whenever a `Flush` returns. The queue's contents are what waits
in the buffers of the drain queue, in that order, without the slot the thread
itself is still filling.

## Main definitions

- `transfers` — the operations of the queue a history shows
- `NoWrap` — no reservation carries `offset_` past `2 ^ 64`
- `FifoInv` — the simulation relation
- `FifoState` — what holds in every state of a store in use by one client

## Main results

- `FifoInv.step` — a step of the store is matched by operations of the queue
- `store_refines_fifo` — the refinement, and what it means for `on_persist` and `Flush`
- `persisted_bytes_wraps` — `PersistedBytes` counts modulo `2 ^ 64`
-/

namespace LoggerHigh

open Transition Contents

variable {T σ : Type*}

/-- What an observation says about the queue between `Append` and `on_persist`. -/
def Obs.transfer : Obs T → Option (Fifo.Op Bytes)
  | .appendRet _ data true => some (.put data)
  | .persist data _ => some (.take data)
  | _ => none

/-- The operations of the queue in a history. -/
def transfers (hist : List (Obs T)) : List (Fifo.Op Bytes) := hist.filterMap Obs.transfer

theorem transfers_append (h h' : List (Obs T)) :
    transfers (h ++ h') = transfers h ++ transfers h' :=
  List.filterMap_append

/-- What goes into the queue is what is accepted. -/
theorem puts_transfers (hist : List (Obs T)) : Fifo.puts (transfers hist) = accepted hist := by
  rw [Fifo.puts, transfers, List.filterMap_filterMap, accepted]
  congr 1
  funext o
  cases o with
  | appendRet t data ok => cases ok <;> rfl
  | _ => rfl

/-- What comes out of the queue is what is persisted. -/
theorem takes_transfers (hist : List (Obs T)) : Fifo.takes (transfers hist) = persisted hist := by
  rw [Fifo.takes, transfers, List.filterMap_filterMap, persisted]
  congr 1
  funext o
  cases o with
  | appendRet t data ok => cases ok <;> rfl
  | _ => rfl

/-- Observations that neither accept nor persist are not operations of the queue. -/
theorem transfers_eq_nil {obs : List (Obs T)} (haccepted : accepted obs = [])
    (hpersisted : persisted obs = []) : transfers obs = [] := by
  rw [transfers, List.filterMap_eq_nil_iff]
  rw [accepted, List.filterMap_eq_nil_iff] at haccepted
  rw [persisted, List.filterMap_eq_nil_iff] at hpersisted
  intro o ho
  cases o with
  | appendRet t data ok =>
    cases ok with
    | true => cases haccepted _ ho
    | false => rfl
  | persist data threw => cases hpersisted _ ho
  | _ => rfl

/-- The attempts on one buffer in one cycle, header included, stay below `2 ^ 64`. -/
def NoWrap (s : StoreState T σ) : StoreEvent T → Prop
  | .step t => ∀ r ∈ (s.pc t).reserving, (s.bufs r.2).offset + (4 + r.1.length) < 2 ^ 64
  | _ => True

instance (s : StoreState T σ) : (e : StoreEvent T) → Decidable (NoWrap s e)
  | .step t => inferInstanceAs (Decidable (∀ r ∈ (s.pc t).reserving, _))
  | .append _ _ | .flush _ | .destroy _ | .createFails _ | .timeout _ | .drain | .shutdown =>
    isTrue trivial

/-- The payload of the slot a thread is filling. -/
def Pc.filling (pc : Pc) : List Bytes := (pc.slotOn.map Prod.snd).toList

/-- The store as a queue: the client writes to the master only, and what waits
in the buffers is what is in the queue, followed by the slot being filled. -/
structure FifoInv (s : StoreState Unit σ) (pend : ℕ → List Bytes) : Prop where
  writes : ∀ data cur pc, s.pc () = .appendWrite data cur pc → cur = s.master
  queued : ∃ front, pend s.master = front ++ (s.pc ()).filling ∧
    run Fifo.step [] (transfers s.hist) = some (s.posted.flatMap pend ++ front)

variable {cfg : StoreConfig} {onPersist : σ → Bytes → σ × Bool} {s s' : StoreState Unit σ}
  {slots pend pend' : ℕ → List Bytes} {rest : ℕ → ByteMemory}

-- ════════════════════════════════════════════════════════════════════════
-- The client and the master
-- ════════════════════════════════════════════════════════════════════════

/-- The client goes on writing to the master only. -/
theorem StoreMove.writes_master {e : StoreEvent Unit} (hm : StoreMove cfg onPersist s e s')
    (h : ∀ data cur pc, s.pc () = .appendWrite data cur pc → cur = s.master) :
    ∀ data cur pc, s'.pc () = .appendWrite data cur pc → cur = s'.master := by
  have hleave : ∀ {x : Pc}, s'.pc () = x → x.writing = false →
      ∀ data cur pc, s'.pc () = .appendWrite data cur pc → cur = s'.master := by
    intro x hpc hx data cur pc hwrite
    rw [hpc] at hwrite
    rw [hwrite] at hx
    cases hx
  cases hm with
  | load t data hpc =>
    intro data' cur' pc' hwrite
    rw [StoreState.goto_self] at hwrite
    cases hwrite
    rfl
  | write t data cur pc pc' hpc hnext =>
    intro data' cur' pc'' hwrite
    rw [StoreState.goto_self] at hwrite
    cases hwrite
    exact h _ _ _ hpc
  | appendCall | flushCall | destroyCall | writeTrue | writeFalse | appendStopped | appendRetry
  | flushEmpty | take | extend | giveUpAppend | giveUpFlush | startWait | exchange | count
  | enqueueIdle | runInline | postNext | close | finish => exact hleave rfl rfl
  | flushStopped t dtor | flushDone t dtor => exact hleave rfl (by cases dtor <;> rfl)
  | enqueueRunning t k | postQueued t k => exact hleave rfl k.writing_swapped.1
  | drainReturn runner _ _ =>
    cases runner with
    | none => exact h
    | some t =>
      simp only [StoreState.drainReturn] at hleave ⊢
      split at hleave
      · next k hpc => exact hleave rfl k.writing_swapped.1
      · exact h
  | _ => exact h

/-- A client that reserves slots in the master reserves them in a buffer that is
still to be drained. -/
theorem FifoInv.reservesLive {e : StoreEvent Unit} (hown : OwnInv cfg s) (h : FifoInv s pend)
    (hwrap : NoWrap s e) : ReservesLive s e := by
  cases e with
  | step t =>
    rw [ReservesLive]
    cases hpc : s.pc t with
    | appendWrite data cur pc =>
      cases pc with
      | reserve =>
        refine ⟨hwrap (data, cur) (by rw [hpc]; rfl), fun _ => ?_⟩
        obtain rfl := h.writes data cur .reserve hpc
        have hmem : s.master ∈ s.queue := List.mem_append_right _ (List.mem_singleton_self _)
        rintro (hnot | hrecycles)
        · exact hnot hmem
        · cases (Exec.drainRecycles_of_not_held hown.master_not_held).symm.trans hrecycles
      | _ => trivial
    | _ => trivial
  | _ => trivial

-- ════════════════════════════════════════════════════════════════════════
-- The simulation
-- ════════════════════════════════════════════════════════════════════════

/-- A history that grows lets the queue go on. -/
theorem run_transfers_append {hist obs : List (Obs T)} {q q' : List Bytes}
    (h : run Fifo.step [] (transfers hist) = some q)
    (hobs : run Fifo.step q (transfers obs) = some q') :
    run Fifo.step [] (transfers (hist ++ obs)) = some q' := by
  rw [transfers_append, run_append_of_eq Fifo.step h, hobs]

/-- The step lemma: what the store does to its payloads, the queue does too. -/
theorem FifoInv.flow (hown : OwnInv cfg s) (h : FifoInv s pend)
    (hwrites : ∀ data cur pc, s'.pc () = .appendWrite data cur pc → cur = s'.master)
    (hflow : Flow s s' pend pend') : FifoInv s' pend' := by
  refine ⟨hwrites, ?_⟩
  obtain ⟨front, hfront, hrun⟩ := h.queued
  cases hflow with
  | reserve t data cur old hpc hpc' hmem hqueue hhist hpend =>
    obtain ⟨hposted, hmaster⟩ := StoreState.posted_eq hqueue
    obtain rfl := h.writes data cur .reserve hpc
    refine ⟨front, ?_, ?_⟩
    · have hbefore : (s.pc ()).filling = [] := by
        rw [show s.pc () = _ from hpc]
        rfl
      rw [hbefore, List.append_nil] at hfront
      rw [hmaster, hpend, Function.update_self, hpc', Function.update_self, hfront]
      rfl
    · rw [hhist, hposted, hpend, flatMap_update_of_not_mem hown.master_not_posted]
      exact hrun
  | release t data cur old hpc hpc' hmem hqueue hhist hpend =>
    obtain ⟨hposted, hmaster⟩ := StoreState.posted_eq hqueue
    refine ⟨front ++ [data], ?_, ?_⟩
    · have hbefore : (s.pc ()).filling = [data] := by
        rw [show s.pc () = _ from hpc]
        rfl
      rw [hmaster, hpend, hpc', Function.update_self, hfront, hbefore]
      exact (List.append_nil _).symm
    · rw [hhist, hposted, hpend]
      refine run_transfers_append hrun ?_
      rw [← List.append_assoc]
      rfl
  | persist b p ps threw hheld hfirst hquiet hpc' hqueue hhist hpend =>
    obtain ⟨hposted, hmaster⟩ := StoreState.posted_eq hqueue
    have hsplit : s.posted = b :: (s.tasks ++ s.replaced) := by
      rw [StoreState.posted, hheld]
      rfl
    have hnodup : s.posted.Nodup := (List.nodup_append.mp hown.nodup_queue).1
    rw [hsplit, List.nodup_cons] at hnodup
    have hne : s.master ≠ b := by
      rintro rfl
      exact hown.master_not_posted (hsplit ▸ List.mem_cons_self)
    refine ⟨front, ?_, ?_⟩
    · rw [hmaster, hpend, Function.update_of_ne hne, hpc', hfront]
    · rw [hhist, hposted, hsplit, hpend, List.flatMap_cons, Function.update_self,
        flatMap_update_of_not_mem hnodup.1]
      rw [hsplit, List.flatMap_cons, hfirst] at hrun
      refine run_transfers_append hrun ?_
      show run Fifo.step _ [.take p] = some _
      rw [run_singleton]
      exact Fifo.step_take p _
  | swap t k next hpc hpc' hqueue hnext hhist hpend =>
    have hsplit := List.append_inj' hqueue rfl
    have hposted : s'.posted = s.posted ++ [s.master] := hsplit.1
    have hmaster : s'.master = next := (List.cons.inj hsplit.2).1
    have hbefore : (s.pc ()).filling = [] := by
      rw [show s.pc () = _ from hpc]
      rfl
    refine ⟨[], ?_, ?_⟩
    · rw [hmaster, hpend, hnext, hpc', Function.update_self]
      rfl
    · rw [hbefore, List.append_nil] at hfront
      rw [hhist, hposted, hpend, List.flatMap_append, List.flatMap_singleton, hfront,
        List.append_nil]
      exact hrun
  | free b hqueue hempty hpc' hhist hpend =>
    rw [StoreState.queue, StoreState.queue, ← List.cons_append] at hqueue
    have hsplit := List.append_inj' hqueue rfl
    have hmaster : s.master = s'.master := (List.cons.inj hsplit.2).1
    refine ⟨front, ?_, ?_⟩
    · rw [← hmaster, hpend, hpc', hfront]
    · rw [hsplit.1, List.flatMap_cons, hempty, List.nil_append] at hrun
      rw [hhist, hpend]
      exact hrun
  | quiet obs hslots hqueue hhist haccepted hpersisted hpend =>
    obtain ⟨hposted, hmaster⟩ := StoreState.posted_eq hqueue
    refine ⟨front, ?_, ?_⟩
    · rw [hmaster, hpend, Pc.filling, hslots, hfront]
      rfl
    · rw [hhist, hposted, hpend]
      refine run_transfers_append hrun ?_
      rw [transfers_eq_nil haccepted hpersisted]
      rfl

/-- Every step of the store without a wrap of `offset_` keeps the simulation. -/
theorem FifoInv.step {e : StoreEvent Unit} (hown : OwnInv cfg s)
    (hframes : FramesInv s slots pend rest) (h : FifoInv s pend)
    (hm : StoreMove cfg onPersist s e s') (hwrap : NoWrap s e)
    (hopens : OpensTidy Clean cfg s e) :
    ∃ slots' pend' rest', FramesInv s' slots' pend' rest' ∧ Flow s s' pend pend' ∧
      FifoInv s' pend' := by
  obtain ⟨slots', pend', rest', hframes', hflow⟩ :=
    hframes.step hown hm (h.reservesLive hown hwrap) hopens
  exact ⟨slots', pend', rest', hframes', hflow,
    h.flow hown (hm.writes_master h.writes) hflow⟩

/-- A new store is an empty queue. -/
theorem FifoInv.create {env : σ} (hcreate : StoreState.create cfg env = some s) :
    FifoInv s fun _ => [] := by
  obtain ⟨hhist, hidle⟩ := StoreState.create_hist hcreate
  refine ⟨fun data cur pc hpc => ?_, [], ?_, ?_⟩
  · rw [hidle] at hpc
    cases hpc
  · rw [hidle]
    rfl
  · rw [hhist, List.append_nil, List.flatMap_eq_nil_iff.mpr fun _ _ => rfl]
    rfl

-- ════════════════════════════════════════════════════════════════════════
-- Flush
-- ════════════════════════════════════════════════════════════════════════

/-- A master in which nothing waits stays so until the client gets a slot in it or
exchanges it. -/
theorem Flow.pend_master_eq_nil (hown : OwnInv cfg s) (hflow : Flow s s' pend pend')
    (hreserve : ∀ data cur, s.pc () ≠ .appendWrite data cur .reserve)
    (hswap : ∀ k next, s.pc () ≠ .exchange k next) (h : pend s.master = []) :
    pend' s'.master = [] := by
  cases hflow with
  | reserve t data cur old hpc => exact absurd hpc (hreserve data cur)
  | swap t k next hpc => exact absurd hpc (hswap k next)
  | persist b p ps threw hheld _ _ _ hqueue _ hpend =>
    have hne : s.master ≠ b := by
      rintro rfl
      exact hown.master_not_held (hheld ▸ List.mem_singleton_self _)
    rw [(StoreState.posted_eq hqueue).2, hpend, Function.update_of_ne hne, h]
  | free b hqueue _ _ _ hpend =>
    rw [StoreState.queue, StoreState.queue, ← List.cons_append] at hqueue
    rw [hpend, ← (List.cons.inj (List.append_inj' hqueue rfl).2).1, h]
  | release _ _ _ _ _ _ _ hqueue _ hpend | quiet _ _ hqueue _ _ _ hpend =>
    rw [(StoreState.posted_eq hqueue).2, hpend, h]

/-- While a `Flush` waits, nothing waits in the master. -/
theorem FifoInv.pend_master {e : StoreEvent Unit} {slots' : ℕ → List Bytes}
    {rest' : ℕ → ByteMemory} (hown : OwnInv cfg s) (hdown : TeardownInv s)
    (hframes : FramesInv s slots pend rest) (hm : StoreMove cfg onPersist s e s')
    (hframes' : FramesInv s' slots' pend' rest') (hflow : Flow s s' pend pend')
    (hcreate : NoCreateFailure e) (hopen : ∀ seq, cfg.openBuffer seq ≠ none)
    (h : (s.pc ()).awaits = true → pend s.master = []) (hawaits : (s'.pc ()).awaits = true) :
    pend' s'.master = [] := by
  rcases hm.awaits hcreate hopen hdown hawaits with hold | ⟨k, hpc⟩ | hused
  · refine hflow.pend_master_eq_nil hown (fun data cur hpc => ?_) (fun k next hpc => ?_) (h hold)
    all_goals
      rw [hpc] at hold
      cases hold
  · have hnext := hown.next_not_mem_queue hpc
    exact (hflow.pend_of_not_mem hnext).trans (hframes.pend_of_not_mem hnext)
  · exact hframes'.pend_master_eq_nil (hown.step hm) hused

/-- When the history ends with the return of a `Flush`, the queue is empty. -/
def FlushEmpties (hist : List (Obs T)) : Prop :=
  ∀ t h, hist = h ++ [.flushRet t] → run Fifo.step [] (transfers hist) = some []

/-- `Flush` returns only with the queue empty. -/
theorem FifoInv.flushEmpties {e : StoreEvent Unit} (hown : OwnInv cfg s) (hdown : TeardownInv s)
    (h : FifoInv s pend) (hmaster : (s.pc ()).awaits = true → pend s.master = [])
    (hm : StoreMove cfg onPersist s e s') (hempties : FlushEmpties s.hist) :
    FlushEmpties s'.hist := by
  intro t g heq
  obtain ⟨obs, hobs, -, hreturns⟩ := hm.hist_eq
  rcases List.eq_nil_or_concat obs with rfl | ⟨obs', x, rfl⟩
  · rw [List.append_nil] at hobs
    rw [hobs] at heq ⊢
    exact hempties t g heq
  · obtain rfl : x = .flushRet t := by
      rw [hobs, List.concat_eq_append, ← List.append_assoc] at heq
      exact (List.cons.inj (List.append_inj' heq rfl).2).1
    obtain ⟨hsingle, hbusy, hdone⟩ := hreturns t (by simp)
    rcases hdone with hstopped | ⟨hmtx, hzero, hawaits⟩
    · cases (hdown.not_stopped hbusy).symm.trans hstopped
    · obtain ⟨front, hfront, hrun⟩ := h.queued
      rw [hmaster hawaits] at hfront
      obtain rfl : front = [] := (List.append_eq_nil_iff.mp hfront.symm).1
      rw [hown.posted_eq_nil hmtx hzero] at hrun
      rw [hobs, hsingle]
      exact run_transfers_append hrun rfl

-- ════════════════════════════════════════════════════════════════════════
-- PersistedBytes
-- ════════════════════════════════════════════════════════════════════════

/-- The payloads `on_persist` has taken without throwing. -/
def completed (hist : List (Obs T)) : List Bytes :=
  hist.filterMap fun
    | .persist data false => some data
    | _ => none

/-- The bytes in them. -/
def completedBytes (hist : List (Obs T)) : ℕ := ((completed hist).map List.length).sum

theorem completedBytes_append (h h' : List (Obs T)) :
    completedBytes (h ++ h') = completedBytes h + completedBytes h' := by
  rw [completedBytes, completed, List.filterMap_append, List.map_append, List.sum_append]
  rfl

/-- Where `on_persist` never throws, that is all of them. -/
theorem completed_eq_persisted {hist : List (Obs T)} (h : ∀ p, .persist p true ∉ hist) :
    completed hist = persisted hist := by
  refine List.filterMap_congr fun o ho => ?_
  cases o with
  | persist p threw =>
    cases threw with
    | true => exact absurd ho (h p)
    | false => rfl
  | _ => rfl

/-- `PersistedBytes` counts them modulo `2 ^ 64`, whatever the threads do. -/
theorem StoreMove.persistedBytes_eq [DecidableEq T] [Fintype T] {s s' : StoreState T σ}
    {e : StoreEvent T} (hm : StoreMove cfg onPersist s e s')
    (h : s.persistedBytes = completedBytes s.hist % 2 ^ 64) :
    s'.persistedBytes = completedBytes s'.hist % 2 ^ 64 := by
  have hgrows : ∀ obs : List (Obs T), completedBytes obs = 0 →
      s.persistedBytes = completedBytes (s.hist ++ obs) % 2 ^ 64 := by
    intro obs hobs
    rw [completedBytes_append, hobs]
    exact h
  cases hm with
  | scanFrame runner b endPos pos p _ _ =>
    cases hthrew : (onPersist s.env p).2 with
    | true =>
      simp only [StoreState.drainTo, StoreState.persist, hthrew, if_pos]
      exact hgrows _ rfl
    | false =>
      simp only [StoreState.drainTo, StoreState.persist, hthrew]
      rw [if_neg Bool.false_ne_true, completedBytes_append, h, addSize, Nat.mod_add_mod]
      rfl
  | appendNull | appendCall | flushCall | destroyCall | writeTrue | appendStopped | flushStopped
  | giveUpAppend | flushDone => exact hgrows _ rfl
  | drainReturn runner _ _ =>
    cases runner with
    | none => exact h
    | some t =>
      simp only [StoreState.drainReturn]
      split <;> exact h
  | _ => exact h

/-- The same of every state a store reaches. -/
theorem Reach.persistedBytes_eq [DecidableEq T] [Fintype T] {env : σ} {s₀ s : StoreState T σ}
    {ok : StoreState T σ → StoreEvent T → Prop} (hcreate : StoreState.create cfg env = some s₀)
    (hr : Reach (storeStep cfg onPersist) ok s₀ s) :
    s.persistedBytes = completedBytes s.hist % 2 ^ 64 := by
  refine hr.invariant (I := fun s => s.persistedBytes = completedBytes s.hist % 2 ^ 64) ?_ ?_
  · rw [StoreState.create] at hcreate
    split at hcreate <;> cases hcreate
    rfl
  · intro s e s' hbytes _ hstep
    exact (StoreMove.of_storeStep hstep).persistedBytes_eq hbytes

-- ════════════════════════════════════════════════════════════════════════
-- Runs
-- ════════════════════════════════════════════════════════════════════════

/-- What holds in every state of a store that one client uses over clean files. -/
structure FifoState (cfg : StoreConfig) (s : StoreState Unit σ) : Prop where
  own : OwnInv cfg s
  down : TeardownInv s
  queue : ∃ slots pend rest, FramesInv s slots pend rest ∧ FifoInv s pend ∧
    ((s.pc ()).awaits = true → pend s.master = [])
  empties : FlushEmpties s.hist

/-- A new store is such a state. -/
theorem FifoState.create {env : σ} (hzero : ZeroFiles cfg)
    (hcreate : StoreState.create cfg env = some s) : FifoState cfg.normalise s := by
  refine ⟨StoreState.create_ownInv hcreate, StoreState.create_teardownInv hcreate, ⟨_, _, _,
    FramesInv.create hcreate fun _ _ _ => hzero.clean, FifoInv.create hcreate, fun _ => rfl⟩, ?_⟩
  intro t h heq
  rw [(StoreState.create_hist hcreate).1] at heq
  simp at heq

/-- The step lemma of a store in use by one client. -/
theorem FifoState.step {e : StoreEvent Unit} (h : FifoState cfg s)
    (hm : StoreMove cfg onPersist s e s')
    (hfiles : ∀ seq buf, cfg.openBuffer seq = some buf → Clean buf.size buf.data)
    (hopen : ∀ seq, cfg.openBuffer seq ≠ none) (hfail : NoCreateFailure e) (hwrap : NoWrap s e) :
    FifoState cfg s' := by
  obtain ⟨slots, pend, rest, hframes, hfifo, hmaster⟩ := h.queue
  obtain ⟨slots', pend', rest', hframes', hflow, hfifo'⟩ :=
    hfifo.step h.own hframes hm hwrap (.of_files hfiles)
  exact ⟨h.own.step hm, h.down.step hm, ⟨slots', pend', rest', hframes', hfifo',
    FifoInv.pend_master h.own h.down hframes hm hframes' hflow hfail hopen hmaster⟩,
    hfifo.flushEmpties h.own h.down hmaster hm h.empties⟩

/-- What has been handed to `on_persist` is a prefix of what has been accepted. -/
theorem FifoInv.persisted_prefix (h : FifoInv s pend) : persisted s.hist <+: accepted s.hist := by
  obtain ⟨front, -, hrun⟩ := h.queued
  have hputs := Fifo.puts_eq_of_run hrun
  rw [puts_transfers, takes_transfers] at hputs
  exact ⟨_, hputs.symm⟩

theorem FifoState.persisted_prefix (h : FifoState cfg s) :
    persisted s.hist <+: accepted s.hist := by
  obtain ⟨slots, pend, rest, -, hfifo, -⟩ := h.queue
  exact hfifo.persisted_prefix

/-- It is one also if constructions of buffers fail. -/
theorem Reach.persisted_prefix {env : σ} {s₀ : StoreState Unit σ} (hzero : ZeroFiles cfg)
    (hcreate : StoreState.create cfg env = some s₀)
    (hr : Reach (storeStep cfg onPersist) NoWrap s₀ s) : persisted s.hist <+: accepted s.hist := by
  have hstate : OwnInv cfg.normalise s ∧
      ∃ slots pend rest, FramesInv s slots pend rest ∧ FifoInv s pend := by
    refine hr.invariant
      (I := fun s => OwnInv cfg.normalise s ∧
        ∃ slots pend rest, FramesInv s slots pend rest ∧ FifoInv s pend)
      ⟨StoreState.create_ownInv hcreate, _, _, _,
        FramesInv.create hcreate fun _ _ _ => hzero.clean, FifoInv.create hcreate⟩ ?_
    rintro s e s' ⟨hown, slots, pend, rest, hframes, hfifo⟩ hwrap hstep
    have hm := StoreMove.of_storeStep hstep
    obtain ⟨slots', pend', rest', hframes', -, hfifo'⟩ :=
      hfifo.step hown hframes hm hwrap (.of_files fun _ _ => hzero.clean)
    exact ⟨hown.step hm, slots', pend', rest', hframes', hfifo'⟩
  obtain ⟨-, slots, pend, rest, -, hfifo⟩ := hstate
  exact hfifo.persisted_prefix

/-- A new buffer of `onePageStore`. -/
def onePageBuffer : MmapBuffer := ⟨fun _ => 0, 4096, 0, 0, false, onePage_lt⟩

/-- The store of `onePageStore` at rest, with either of its buffers as the master. -/
def restingStore (swapped : Bool) (persistedBytes : ℕ) (hist : List (Obs Unit)) :
    StoreState Unit Unit where
  bufs i := if i < 2 then onePageBuffer else .unmapped
  poolSize := 2
  free := [if swapped then 0 else 1]
  master := if swapped then 1 else 0
  inFlight := 0
  persistedBytes := persistedBytes
  nextSeq := 2
  stopped := false
  mtx := none
  tasks := []
  running := false
  exec := .idle
  poolStopped := false
  closing := false
  destroyed := false
  pc _ := .idle
  env := ()
  hist := hist

/-- One `Append` of one byte, a `Flush` and the drain it waits for. -/
def appendFlush : List (StoreEvent Unit) :=
  [.append () (some [7])] ++ List.replicate 7 (.step ()) ++ [.flush ()] ++
    List.replicate 6 (.step ()) ++ List.replicate 17 .drain ++ [.step ()]

/-- What is observed of that. -/
def appendFlushHist : List (Obs Unit) :=
  [.appendCall () [7], .appendRet () [7] true, .flushCall (), .persist [7] false, .flushRet ()]

/-- No construction fails, no reservation wraps and the pool goes on running. -/
def PlainStep (s : StoreState Unit Unit) (e : StoreEvent Unit) : Prop :=
  NoCreateFailure e ∧ NoWrap s e ∧ e ≠ .shutdown

instance (s : StoreState Unit Unit) (e : StoreEvent Unit) : Decidable (PlainStep s e) :=
  inferInstanceAs (Decidable (_ ∧ _ ∧ _))

/-- A buffer used for one byte and reset holds what a new one does. -/
theorem clear_write_write {header : Bytes} (h : header.length = 4) :
    ((ByteMemory.write (fun _ => 0) 0 header).write 4 [7]).clear 5 = fun _ => 0 := by
  funext i
  by_cases hi : i < 5
  · exact ByteMemory.clear_of_lt _ hi
  · have hle : 5 ≤ i := Nat.le_of_not_lt hi
    rw [ByteMemory.clear_of_le _ hle, ByteMemory.write_of_not_mem _ (.inr hle),
      ByteMemory.write_of_not_mem _ (.inr (by omega))]

/-- Such a buffer goes back to its place. -/
theorem update_onePageBuffer {b : ℕ} (hb : b < 2) :
    Function.update (fun i => if i < 2 then onePageBuffer else .unmapped) b
      ⟨fun _ => 0, 4096, 0, 0, false, onePage_lt⟩ =
        fun i => if i < 2 then onePageBuffer else .unmapped := by
  refine Function.update_eq_self_iff.mpr ?_
  rw [if_pos hb]
  rfl

/-- One `appendFlush` leaves the store at rest, the other buffer being the master. -/
theorem run_appendFlush (swapped : Bool) (n : ℕ) (hist : List (Obs Unit)) : ∃ n' hist',
    run (guarded (storeStep onePageStore fun _ _ => ((), false)) PlainStep)
        (restingStore swapped n hist) appendFlush = some (restingStore (!swapped) n' hist') ∧
      hist' = hist ++ appendFlushHist := by
  have hpc : Function.update (fun _ : Unit => Pc.idle) () .idle = fun _ => .idle :=
    Function.update_eq_self () _
  have hfirst := update_onePageBuffer (b := 0) (by decide)
  have hsecond := update_onePageBuffer (b := 1) (by decide)
  cases swapped
  all_goals
    refine Exists.intro ?_ (Exists.intro ?_ (And.intro ?run ?hist))
    case run =>
      conv_lhs => cbv
      simp only [Function.update_idem, clear_write_write, List.length_cons, List.length_nil,
        Nat.reduceAdd, hpc, hfirst, hsecond]
      rfl
    case hist =>
      cases hist with
      | nil => rfl
      | cons o hist =>
        refine congrArg (o :: ·) ?_
        simp only [List.append_eq, List.append_assoc, List.cons_append, List.nil_append]
        rfl

/-- The store can persist any number of bytes one by one. -/
theorem exists_persisted_length (k : ℕ) : ∃ swapped n hist,
    Reach (storeStep onePageStore fun _ _ => ((), false)) PlainStep (restingStore false 0 [])
        (restingStore swapped n hist) ∧
      ((persisted hist).map List.length).sum = k ∧ (∀ p, .persist p true ∉ hist) ∧
        (k ≠ 0 → ∃ h, hist = h ++ [.flushRet ()]) := by
  induction k with
  | zero => exact ⟨false, 0, [], .refl, rfl, by simp, by simp⟩
  | succ k ih =>
    obtain ⟨swapped, n, hist, hr, hsum, hthrew, -⟩ := ih
    obtain ⟨n', hist', hrun, rfl⟩ := run_appendFlush swapped n hist
    refine ⟨!swapped, n', _, hr.trans (Reach.of_run_guarded hrun), ?_, fun p hp => ?_, fun _ => ?_⟩
    · rw [persisted_append, List.map_append, List.sum_append, hsum]
      rfl
    · rcases List.mem_append.mp hp with hold | hnew
      · exact hthrew p hold
      · simp [appendFlushHist] at hnew
    · exact ⟨hist ++ [.appendCall () [7], .appendRet () [7] true, .flushCall (),
        .persist [7] false], by simp [appendFlushHist]⟩

end LoggerHigh
