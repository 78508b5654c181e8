import LoggerHigh.Mmap.StoreFlushFailure

/-!
# What a store leaves to the next one

The files of the buffers outlive the store, and the next store opens them without
truncation. A store that is destroyed with nothing left in its buffers leaves them
filled with zeros, as it found them, so that stores can follow one another.

## Main definitions

- `StoreState.Leaves` — what the files can hold after the store
- `RestInv` — the invariant: what the buffers hold besides frames that wait is zero

## Main results

- `RestInv.data_eq_zero` — a destroyed store has zeros in all of its buffers
- `Leaves.zeroFiles` — the next store finds zero-filled files
-/

namespace LoggerHigh

open Transition

variable {T σ : Type*} {cfg : StoreConfig} {onPersist : σ → Bytes → σ × Bool}
  {s s' : StoreState Unit σ}

/-- What a region of this size holds is zero. -/
def Zeros (size : ℕ) (rest : ByteMemory) : Prop := ∀ i, i < size → rest i = 0

theorem Zeros.tidy : Tidy Zeros where
  of_zero h := h
  clear h _ i hi := by
    rw [ByteMemory.clear]
    split
    · rfl
    · exact h i hi

theorem ZeroFiles.zeros (h : ZeroFiles cfg) {seq : ℕ} {buf : MmapBuffer}
    (hopen : cfg.openBuffer seq = some buf) : Zeros buf.size buf.data := by
  intro i _
  rw [StoreConfig.openBuffer_data hopen]
  cases hget : (cfg.files seq)[i]? with
  | none => simp [hget]
  | some x =>
    have hx := h seq x (List.mem_of_getElem? hget)
    simp [hget, hx]

/-- Every byte of the files is one that the file held before, one that a resize has
added, or one of a region of the store. -/
def StoreState.Leaves (cfg : StoreConfig) (s : StoreState T σ) (files : ℕ → Bytes) : Prop :=
  ∀ seq, ∀ x ∈ files seq, x ∈ cfg.files seq ∨ x = 0 ∨
    ∃ b, b < s.poolSize ∧ ∃ i, i < (s.bufs b).size ∧ x = (s.bufs b).data i

/-- What holds in every state of a store over zero-filled files none of whose `Flush`es
has been cut short. -/
structure RestInv (cfg : StoreConfig) (s : StoreState Unit σ) : Prop where
  own : OwnInv cfg s
  down : TeardownInv s
  queue : ∃ slots pend rest hist, SlotsInv Zeros s slots pend rest ∧ FlushInv s pend hist

/-- A new store has nothing to persist. -/
theorem RestInv.create {env : σ} (hzero : ZeroFiles cfg.normalise)
    (hcreate : StoreState.create cfg env = some s) : RestInv cfg.normalise s :=
  ⟨StoreState.create_ownInv hcreate, StoreState.create_teardownInv hcreate, _, _, _, s.hist,
    SlotsInv.create Zeros.tidy hcreate fun _ _ _ => hzero.zeros,
    FifoInv.create hcreate, rfl, .refl _, fun _ => rfl⟩

/-- The step lemma. -/
theorem RestInv.step {e : StoreEvent Unit} (h : RestInv cfg s)
    (hm : StoreMove cfg onPersist s e s') (hzero : ZeroFiles cfg)
    (hopen : ∀ seq, cfg.openBuffer seq ≠ none) (hkeeps : KeepsFlush s e) (hwrap : NoWrap s e) :
    RestInv cfg s' := by
  obtain ⟨slots, pend, rest, hist, hslots, hinv⟩ := h.queue
  have hlive : ReservesLive s e := by
    have hretold := hinv.fifo.reservesLive (h.own.retold hist) (e := e)
    cases e with
    | step t => exact hretold hwrap
    | _ => trivial
  obtain ⟨slots', pend', rest', hslots', hany⟩ :=
    hslots.step Zeros.tidy h.own hm hlive (.of_files fun _ _ => hzero.zeros)
  obtain ⟨obs, obs', hobs, haccepted, hpersisted, hflow⟩ := hany.retold
  refine ⟨h.own.step hm, h.down.step hm, slots', pend', rest', hist ++ obs', hslots',
    hinv.fifo.flow (h.own.retold hist) (hm.writes_master hinv.fifo.writes) (hflow hist), ?_, ?_,
    hinv.pend_master h.own h.down hslots hm hslots' (hflow hist) hopen hkeeps⟩
  · rw [hobs, accepted_append, accepted_append, hinv.accepted_eq, haccepted]
  · rw [hobs, persisted_append, persisted_append]
    exact hinv.persisted_sub.append hpersisted

/-- A destroyed store has zeros in all of its buffers: none is posted or in a drain, and
the last `Flush` has left nothing in the master. -/
theorem RestInv.data_eq_zero (h : RestInv cfg s) (hdestroyed : s.destroyed = true) (b i : ℕ)
    (hi : i < (s.bufs b).size) : (s.bufs b).data i = 0 := by
  obtain ⟨slots, pend, rest, hist, hslots, hinv⟩ := h.queue
  obtain ⟨-, hzero, hidle⟩ := h.down.destroyed hdestroyed
  have hmtx : s.mtx = none := by
    cases hmtx : s.mtx with
    | none => rfl
    | some t =>
      have hsection := (h.own.mtx_iff t).mp hmtx
      rw [hidle t] at hsection
      cases hsection
  have hposted : s.posted = [] := h.own.posted_eq_nil hmtx hzero
  have hheld : s.exec.held = [] :=
    (List.append_eq_nil_iff.mp (List.append_eq_nil_iff.mp hposted).1).1
  obtain ⟨hphase, hscanned⟩ := Exec.drainPc_of_not_held (hheld ▸ List.not_mem_nil : b ∉ s.exec.held)
  have hslotsb : slots b = [] := by
    by_cases hb : b = s.master
    · rw [← (hscanned _ _ _).mp (hslots.scanned b), hb]
      exact hinv.master (.inr (.inr hdestroyed))
    · refine hslots.live b fun hmem => ?_
      rw [StoreState.queue, hposted] at hmem
      exact hb (List.mem_singleton.mp hmem)
  have hcycle := hslots.cycle b
  rw [hphase, hslotsb] at hcycle
  rw [hcycle.tail i (Nat.zero_le _) (Nat.zero_le _) hi]
  exact hslots.tidy b i hi

/-- What holds in every state reached. -/
theorem RestInv.of_reach {env : σ} {s₀ : StoreState Unit σ} (hzero : ZeroFiles cfg)
    (hcreate : StoreState.create cfg env = some s₀)
    (hr : Reach (storeStep cfg onPersist) (fun s e => KeepsFlush s e ∧ NoWrap s e) s₀ s) :
    RestInv cfg.normalise s := by
  have hopen := StoreState.create_opens hcreate
  refine hr.invariant (I := RestInv cfg.normalise) (RestInv.create hzero hcreate) ?_
  intro s e s' h hok hstep
  exact h.step (StoreMove.of_storeStep hstep) hzero hopen hok.1 hok.2

/-- With one client thread, over zero-filled files, without a wrap of `offset_` and
without a failed construction in a `Flush` that finds a frame: whatever the files hold
that the destroyed store leaves, they are zero-filled. -/
theorem Leaves.zeroFiles {env : σ} {s₀ : StoreState Unit σ} {files : ℕ → Bytes}
    (hzero : ZeroFiles cfg) (hcreate : StoreState.create cfg env = some s₀)
    (hr : Reach (storeStep cfg onPersist) (fun s e => KeepsFlush s e ∧ NoWrap s e) s₀ s)
    (hdestroyed : s.destroyed = true) (hleaves : s.Leaves cfg files) :
    ∀ seq, ∀ x ∈ files seq, x = 0 := by
  intro seq x hx
  rcases hleaves seq x hx with hold | hadded | ⟨b, -, i, hi, rfl⟩
  · exact hzero seq x hold
  · exact hadded
  · exact (RestInv.of_reach hzero hcreate hr).data_eq_zero hdestroyed b i hi

end LoggerHigh
