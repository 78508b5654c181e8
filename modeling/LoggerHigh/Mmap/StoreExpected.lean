import LoggerHigh.Mmap.StoreOwnership

/-!
# The buffer an `Append` swaps out

`Append` compares `master_` with the buffer that rejected its payload and passes
this buffer on as `expected`; `SwapMasterLocked_` ignores it. The comparison is one
of pointers, and a buffer that has been drained, reset and installed again since it
rejected the payload passes it. After the comparison `AcquireFreeBufferLocked_` may
wait without `mtx_`.

## Main definitions

- `ExpectedStore`, `expectedStep` — the store, and for every thread the buffer that
  rejected its payload, as long as no other thread exchanges `master_`
- `takenOut` — the buffer a thread takes out of `master_` and posts
- `SwapsExpected` — it is the one that rejected the payload
- `GetsForExpected` — the condition on a step

## Main results

- `swaps_expected_iff` — `Append` swaps out the buffer that rejected its payload exactly
  in the runs in which it never gets another one for a `master_` exchanged since
- `fresh_master_swapped` — a run in which an empty buffer is swapped out
-/

namespace LoggerHigh

open ThreadSum Transition

variable {T σ : Type*}

/-- The store, and for every thread the buffer whose `Write` has rejected its payload,
`none` once another thread has exchanged `master_`. -/
structure ExpectedStore (T σ : Type*) where
  store : StoreState T σ
  expected : T → Option ℕ

/-- The step in which `Write` settles that it returns null: a payload that is too long, a
sealed buffer, or a slot that ends behind the region. -/
def Rejects (b : MmapBuffer) (data : Bytes) (pc : WritePc) : Prop :=
  pc ≠ .leave none ∧
    ((writeStep b data pc).2 = .at (.leave none) ∨ (writeStep b data pc).2 = .returned none)

instance (b : MmapBuffer) (data : Bytes) (pc : WritePc) : Decidable (Rejects b data pc) :=
  inferInstanceAs (Decidable (_ ∧ _))

/-- The buffer an `Append` is about to take out of `master_`, or has taken out and not
yet pushed on the strand. -/
def takenOut (master : ℕ) : Pc → Option ℕ
  | .exchange (.append _) _ => some master
  | .count (.append _) old | .enqueue (.append _) old => some old
  | _ => none

/-- Every `Append` in `SwapMasterLocked_` takes out the buffer that rejected its payload,
and nobody has exchanged `master_` since then. -/
def SwapsExpected (x : ExpectedStore T σ) : Prop :=
  ∀ t b, takenOut x.store.master (x.store.pc t) = some b → x.expected t = some b

/-- `AcquireFreeBufferLocked_` finds a buffer without a wait: in `free_`, or because the
pool has room and the next one can be created. -/
def StoreState.HasBuffer (cfg : StoreConfig) (s : StoreState T σ) : Prop :=
  s.free ≠ [] ∨ s.poolSize < cfg.maxBuffers ∧ (cfg.openBuffer s.nextSeq).isSome

/-- Whenever an `Append` gets another buffer, at once or after a wait, `master_` still is
the one that rejected its payload, and has not been exchanged since. -/
def GetsForExpected [DecidableEq T] [Fintype T] (cfg : StoreConfig) (x : ExpectedStore T σ)
    (e : StoreEvent T) : Prop :=
  ∀ t data, e = .step t → Asking x.store t (.append data) → x.store.stopped = false →
    x.store.HasBuffer cfg → x.expected t = some x.store.master

variable [DecidableEq T]

/-- The buffers the threads are called for after a step from `s`. -/
def expectedAfter (s : StoreState T σ) (expected : T → Option ℕ) : StoreEvent T → T → Option ℕ
  | .step t =>
    match s.pc t with
    | .appendWrite data cur pc =>
      if Rejects (s.bufs cur) data pc then Function.update expected t (some cur) else expected
    | .exchange _ _ => Function.update (fun _ => none) t (expected t)
    | _ => expected
  | _ => expected

variable [Fintype T]

/-- One step. -/
def expectedStep (cfg : StoreConfig) (onPersist : σ → Bytes → σ × Bool) (x : ExpectedStore T σ)
    (e : StoreEvent T) : Option (ExpectedStore T σ) :=
  (storeStep cfg onPersist x.store e).map fun s => ⟨s, expectedAfter x.store x.expected e⟩

variable {cfg : StoreConfig} {onPersist : σ → Bytes → σ × Bool} {s s' : StoreState T σ}
  {x x' : ExpectedStore T σ} {e : StoreEvent T} {t : T}

omit [DecidableEq T] [Fintype T] in
/-- Who swaps is in a section under `mtx_`. -/
theorem inSection_of_takenOut {master b : ℕ} {pc : Pc} (h : takenOut master pc = some b) :
    pc.inSection = true := by
  cases pc <;> first | rfl | cases h

omit [DecidableEq T] [Fintype T] in
/-- The exchange takes out what `master_` was. -/
theorem takenOut_exchange (master next : ℕ) (k : Caller) :
    takenOut master (.exchange k next) = takenOut next (.count k master) := by
  cases k <;> rfl

omit [DecidableEq T] [Fintype T] in
/-- The buffer that is counted is the one that is posted. -/
theorem takenOut_count (master master' old : ℕ) (k : Caller) :
    takenOut master (.count k old) = takenOut master' (.enqueue k old) := by
  cases k <;> rfl

omit [DecidableEq T] [Fintype T] in
theorem takenOut_swapped (master : ℕ) (k : Caller) : takenOut master k.swapped = none := by
  cases k <;> rfl

/-- A thread that swaps is in no `Write`, and nobody else exchanges `master_`. -/
theorem expectedAfter_of_takenOut (hown : OwnInv cfg x.store) {b : ℕ}
    (h : takenOut x.store.master (x.store.pc t) = some b) :
    expectedAfter x.store x.expected e t = x.expected t := by
  cases e with
  | step u =>
    by_cases hu : t = u
    · subst hu
      cases hpc : x.store.pc t with
      | appendWrite =>
        rw [hpc] at h
        cases h
      | exchange =>
        simp only [expectedAfter, hpc]
        rw [Function.update_self]
      | _ => simp only [expectedAfter, hpc]
    · have hplain := hown.plain_of_ne (inSection_of_takenOut h) (Ne.symm hu)
      cases hpc : x.store.pc u with
      | appendWrite =>
        simp only [expectedAfter, hpc]
        split
        · rw [Function.update_of_ne hu]
        · rfl
      | exchange =>
        rw [hpc] at hplain
        cases hplain
      | _ => simp only [expectedAfter, hpc]
  | _ => rfl

/-- Moves of `Drain_` that move no thread. -/
theorem SwapsExpected.of_same (h : SwapsExpected x) (hown : OwnInv cfg x.store)
    (hmaster : s'.master = x.store.master) (hpc : s'.pc = x.store.pc) :
    SwapsExpected ⟨s', expectedAfter x.store x.expected e⟩ := by
  intro t b hb
  simp only [hpc, hmaster] at hb
  exact (expectedAfter_of_takenOut hown hb).trans (h t b hb)

/-- Moves of one thread that keep `master_`. -/
theorem SwapsExpected.of_update (h : SwapsExpected x) (hown : OwnInv cfg x.store) {pc : Pc}
    (hmaster : s'.master = x.store.master) (hpc : s'.pc = Function.update x.store.pc t pc)
    (hnew : ∀ b, takenOut x.store.master pc = some b →
      expectedAfter x.store x.expected e t = some b) :
    SwapsExpected ⟨s', expectedAfter x.store x.expected e⟩ := by
  intro u b hb
  simp only [hpc, hmaster] at hb
  by_cases hu : u = t
  · subst hu
    rw [Function.update_self] at hb
    exact hnew b hb
  · rw [Function.update_of_ne hu] at hb
    exact (expectedAfter_of_takenOut hown hb).trans (h u b hb)

omit [Fintype T] in
/-- Asking for a buffer changes nobody's. -/
theorem expectedAfter_of_asking {k : Caller} {expected : T → Option ℕ} (hask : Asking s t k) :
    expectedAfter s expected (.step t) = expected := by
  cases hask with
  | append data hpc | flush dtor hpc hused | wait k hpc => simp only [expectedAfter, hpc]

/-- A thread with a new buffer takes out what `master_` is, and this is what rejected its
payload, by the condition. -/
theorem SwapsExpected.of_asking (h : SwapsExpected x) (hown : OwnInv cfg x.store) {k : Caller}
    {next : ℕ} (hask : Asking x.store t k)
    (hgets : ∀ data, k = .append data → x.expected t = some x.store.master)
    (hmaster : s'.master = x.store.master)
    (hpc : s'.pc = Function.update x.store.pc t (.exchange k next)) :
    SwapsExpected ⟨s', expectedAfter x.store x.expected (.step t)⟩ := by
  refine h.of_update hown hmaster hpc fun b hb => ?_
  rw [expectedAfter_of_asking hask]
  cases k with
  | flush dtor => cases hb
  | append data =>
    cases hb
    exact hgets data rfl

/-- The exchange; nobody else is about to exchange. -/
theorem SwapsExpected.exchange (h : SwapsExpected x) (hown : OwnInv cfg x.store) {k : Caller}
    {next : ℕ} (hpc : x.store.pc t = .exchange k next) :
    SwapsExpected ⟨{ x.store with master := next }.goto t (.count k x.store.master),
      expectedAfter x.store x.expected (.step t)⟩ := by
  intro u b hb
  change takenOut next (Function.update x.store.pc t (.count k x.store.master) u) = some b at hb
  have hself : (x.store.pc t).inSection = true := by rw [hpc]; rfl
  by_cases hu : u = t
  · subst hu
    rw [Function.update_self] at hb
    have hbefore : takenOut x.store.master (x.store.pc u) = some b := by
      rw [hpc, takenOut_exchange, hb]
    have hsame := expectedAfter_of_takenOut (e := .step u) hown hbefore
    exact hsame.trans (h u b hbefore)
  · rw [Function.update_of_ne hu] at hb
    have hplain := hown.plain_of_ne hself hu
    rw [inSection_of_takenOut hb] at hplain
    cases hplain

/-- The step of a run that meets the condition. -/
theorem SwapsExpected.step (h : SwapsExpected x) (hown : OwnInv cfg x.store)
    (hgets : GetsForExpected cfg x e) (hm : StoreMove cfg onPersist x.store e s') :
    SwapsExpected ⟨s', expectedAfter x.store x.expected e⟩ := by
  have hplain : ∀ {s' : StoreState T σ} {t : T} {pc : Pc}, s'.master = x.store.master →
      s'.pc = Function.update x.store.pc t pc → takenOut x.store.master pc = none →
      SwapsExpected ⟨s', expectedAfter x.store x.expected e⟩ := by
    intro s' t pc hmaster hpc hnone
    refine h.of_update hown hmaster hpc fun b hb => ?_
    rw [hnone] at hb
    cases hb
  cases hm with
  | appendNull | sealStore | sealSpin | sealDone | sync | scanStart | scanFrame | scanEnd
  | resetLoad | resetOffset | resetUnseal | resetMemset | pushFree | notifyFree | fetchSubLast
  | fetchSub | notifyFlush | shutdown | pickUp | pop => exact h.of_same hown rfl rfl
  | take t k b rest hask _ hstopped hfree =>
    refine h.of_asking hown hask (fun data hk => hgets t data rfl (hk ▸ hask) hstopped ?_) rfl rfl
    rw [StoreState.HasBuffer, hfree]
    exact .inl (List.cons_ne_nil b rest)
  | extend t k buf hask _ hstopped _ hroom hopen =>
    refine h.of_asking hown hask (fun data hk => hgets t data rfl (hk ▸ hask) hstopped ?_) rfl rfl
    rw [StoreState.HasBuffer, hopen]
    exact .inr ⟨hroom, rfl⟩
  | exchange t k next hpc => exact h.exchange hown hpc
  | count t k old hpc =>
    refine h.of_update hown rfl rfl fun b hb => ?_
    have hbefore : takenOut x.store.master (x.store.pc t) = some b := by
      rw [hpc, takenOut_count, hb]
    exact (expectedAfter_of_takenOut hown hbefore).trans (h t b hbefore)
  | enqueueRunning t k | postQueued t k => exact hplain rfl rfl (takenOut_swapped _ k)
  | flushStopped t dtor | flushDone t dtor =>
    exact @hplain _ _ (if dtor then .dtorClose else .idle) rfl rfl (by cases dtor <;> rfl)
  | drainReturn runner =>
    cases runner with
    | none => exact h.of_same hown rfl rfl
    | some t =>
      rw [StoreState.drainReturn]
      split
      · next k hpc => exact hplain rfl rfl (takenOut_swapped _ k)
      · exact h.of_same hown rfl rfl
  | _ => exact hplain rfl rfl rfl

omit [Fintype T] in
/-- Who asks for a buffer and finds one goes on to exchange `master_`. -/
theorem exists_exchange_of_hasBuffer {data : Bytes} (hask : Asking s t (.append data))
    (hstopped : s.stopped = false) (hbuffer : s.HasBuffer cfg)
    (hstep : threadStep cfg s t = some s') :
    s'.master = s.master ∧ ∃ next, s'.pc t = .exchange (.append data) next := by
  rw [threadStep] at hstep
  split at hstep
  · cases hstep
  · cases hask with
    | append data hpc =>
      simp only [hpc] at hstep
      cases hstep
      rw [appendSection, if_neg (by simp [hstopped]), if_neg (not_not.mpr rfl)]
      simp only [StoreState.acquire]
      split
      · exact ⟨rfl, _, StoreState.goto_self _ _ _⟩
      · next hfree =>
        obtain ⟨hroom, hopen⟩ := hbuffer.resolve_left (not_not.mpr hfree)
        obtain ⟨buf, hbuf⟩ := Option.isSome_iff_exists.mp hopen
        rw [if_pos hroom, hbuf]
        exact ⟨rfl, _, StoreState.goto_self _ _ _⟩
    | wait k hpc =>
      simp only [hpc, hstopped, Bool.false_or] at hstep
      split at hstep
      · next hfree =>
        cases hstep
        rw [StoreState.wake, if_neg (by simp [hstopped])]
        cases hlist : s.free with
        | nil =>
          rw [hlist] at hfree
          cases hfree
        | cons b rest => exact ⟨rfl, _, StoreState.goto_self _ _ _⟩
      · cases hstep

/-- A step that violates the condition takes out another buffer. -/
theorem not_swapsExpected_of_gets (hgets : ¬ GetsForExpected cfg.normalise x e)
    (hstep : expectedStep cfg onPersist x e = some x') : ¬ SwapsExpected x' := by
  simp only [GetsForExpected, not_forall] at hgets
  obtain ⟨t, data, rfl, hask, hstopped, hbuffer, hne⟩ := hgets
  obtain ⟨s', hs', rfl⟩ := Option.map_eq_some_iff.mp hstep
  obtain ⟨hmaster, next, hpc⟩ := exists_exchange_of_hasBuffer hask hstopped hbuffer hs'
  intro hswaps
  have htaken := hswaps t x.store.master (by rw [hpc, hmaster]; rfl)
  rw [expectedAfter_of_asking hask] at htaken
  exact hne htaken

/-- For any number of threads and every run from the constructor, every `Append` takes
out of `master_` and posts the buffer that rejected its payload, with no exchange of
`master_` in between, at every moment, exactly if no `Append` gets another buffer, at
once or after a wait, once `master_` has been exchanged since its payload was rejected. -/
theorem swaps_expected_iff {env : σ} {s₀ : StoreState T σ}
    (hcreate : StoreState.create cfg env = some s₀) (es : List (StoreEvent T)) :
    Throughout (expectedStep cfg onPersist) SwapsExpected ⟨s₀, fun _ => none⟩ es ↔
      Along (expectedStep cfg onPersist) (GetsForExpected cfg.normalise)
        ⟨s₀, fun _ => none⟩ es := by
  refine throughout_iff_along_of_kept
    (J := fun x => OwnInv cfg.normalise x.store ∧ SwapsExpected x) (fun _ h => h.2) ?keep
    (fun _ _ _ _ hgets hstep => not_swapsExpected_of_gets hgets hstep) ⟨?own, ?start⟩ es
  case keep =>
    rintro x e x' ⟨hown, hswaps⟩ hgets hstep
    obtain ⟨s', hs', rfl⟩ := Option.map_eq_some_iff.mp hstep
    have hm := StoreMove.of_storeStep hs'
    exact ⟨hown.step hm, hswaps.step hown hgets hm⟩
  case own => exact StoreState.create_ownInv hcreate
  case start =>
    rw [StoreState.create] at hcreate
    split at hcreate
    · cases hcreate
      rintro t b ⟨⟩
    · cases hcreate

-- ════════════════════════════════════════════════════════════════════════
-- Two threads that wait
-- ════════════════════════════════════════════════════════════════════════

/-- A payload that fits into no buffer fills both, and both threads wait; the first
buffer is drained, the first thread installs it, and the second one is drained. -/
def bothWait : List (StoreEvent Bool) :=
  List.flatten [[.append false (some (List.replicate 4093 0)), .append true (some [7])],
    List.replicate 17 (.step false), List.replicate 6 (.step true), List.replicate 12 .drain,
    List.replicate 4 (.step false), List.replicate 13 .drain]

/-- Then the second thread wakes. -/
def twoWaiters : List (StoreEvent Bool) := bothWait ++ [.step true]

/-- What the second thread is about to take out, what has rejected its payload, and how
much of a buffer is used at the end of a run. -/
def swapOfSecond (b : ℕ) (es : List (StoreEvent Bool)) : Option (Option ℕ × Option ℕ × ℕ) :=
  (run (expectedStep onePageStore fun _ _ => ((), false))
    ⟨(StoreState.create onePageStore ()).get rfl, fun _ => none⟩ es).map
      fun x => (takenOut x.store.master (x.store.pc true), x.expected true, (x.store.bufs b).used)

/-- The second thread, which buffer 1 has rejected, is about to take out buffer 0, which
the first one has installed since then and which is empty. -/
theorem run_twoWaiters : swapOfSecond 0 twoWaiters = some (some 0, none, 0) := by
  decide +kernel

/-- When the first thread goes on and installs buffer 1 again, the second one takes out
the buffer its own payload has been rejected by, empty as well. -/
example : swapOfSecond 1 (List.flatten [bothWait, List.replicate 9 (.step false),
    List.replicate 13 .drain, [.step true]]) = some (some 1, none, 0) := by
  decide +kernel

/-- An empty buffer that another waiter has installed is swapped out. -/
theorem fresh_master_swapped :
    ¬ ∀ (cfg : StoreConfig) (onPersist : Unit → Bytes → Unit × Bool) (s₀ : StoreState Bool Unit)
      (es : List (StoreEvent Bool)) (x : ExpectedStore Bool Unit),
      StoreState.create cfg () = some s₀ → (∀ t, .flush t ∉ es ∧ .destroy t ∉ es) →
        run (expectedStep cfg onPersist) ⟨s₀, fun _ => none⟩ es = some x → SwapsExpected x := by
  intro h
  obtain ⟨x, hrun, hshown⟩ := Option.map_eq_some_iff.mp run_twoWaiters
  obtain ⟨htaken, hexpected, -⟩ :
      takenOut x.store.master (x.store.pc true) = _ ∧ x.expected true = _ ∧ _ := by
    simpa only [Prod.mk.injEq] using hshown
  have hswaps := h onePageStore _ _ _ x rfl
    (by simp [twoWaiters, bothWait, -List.reduceReplicate]) hrun
  have heq := hswaps true 0 htaken
  rw [hexpected] at heq
  cases heq

theorem swaps_expected_iff_twoWaiters : ∃ s₀ : StoreState Bool Unit,
    StoreState.create onePageStore () = some s₀ ∧
      (Throughout (expectedStep onePageStore fun _ _ => ((), false)) SwapsExpected
          ⟨s₀, fun _ => none⟩ twoWaiters ↔
        Along (expectedStep onePageStore fun _ _ => ((), false))
          (GetsForExpected onePageStore.normalise) ⟨s₀, fun _ => none⟩ twoWaiters) :=
  ⟨_, rfl, swaps_expected_iff rfl _⟩

end LoggerHigh
