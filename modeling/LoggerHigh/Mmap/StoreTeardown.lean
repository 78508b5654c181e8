import LoggerHigh.Mmap.StoreOwnership

/-!
# Destroying the store

`~MmapStore` flushes, sets `stopped_` and destroys the members. `Flush` waits
for `in_flight_` to be zero, and the last drain makes it zero before its final
section under `mtx_`.

## Main definitions

- `TeardownInv` — while the destructor runs it is alone, and past its wait
  nothing is in flight
- `DrainRemains` — a posted `DrainOne_` still has a step to take

## Main results

- `quiet_after_destroyed_iff` — over a whole run, no `DrainOne_` outlives the
  store exactly when the destructor never returns while a drain is between its
  decrement of `in_flight_` and its final section
- `drain_outlives_store` — a run in which it does
-/

namespace LoggerHigh

open Transition ThreadSum

variable {T σ : Type*}

/-- The swap is part of the destructor's `Flush`. -/
def Caller.destructs : Caller → Bool
  | .append _ => false
  | .flush dtor => dtor

/-- The thread is inside the destructor. -/
def Pc.destructs : Pc → Bool
  | .flushLock dtor | .flushWait dtor => dtor
  | .waitFree k | .exchange k _ | .count k _ | .enqueue k _ | .post k | .postLocked k
  | .inlineDrain k => k.destructs
  | .dtorClose | .dtorReturn => true
  | _ => false

/-- The destructor's `Flush` has returned. -/
def Pc.pastFlush : Pc → Bool
  | .dtorClose | .dtorReturn => true
  | _ => false

/-- The thread is inside a call that has not set `stopped_`. -/
def Pc.busy : Pc → Bool
  | .idle | .dtorReturn => false
  | _ => true

/-- The destructor runs alone, and once its `Flush` has returned nothing is in flight. -/
structure TeardownInv (s : StoreState T σ) : Prop where
  alone : s.closing = true → ∃ t, (∀ u, u ≠ t → s.pc u = .idle) ∧
    ((s.pc t).destructs = true ∨ s.destroyed = true ∧ s.pc t = .idle)
  closing_of_destructs : ∀ t, (s.pc t).destructs = true → s.closing = true
  inFlight_eq : ∀ t, (s.pc t).pastFlush = true → s.inFlight = 0
  stopped : s.stopped = true → s.destroyed = true ∨ ∃ t, s.pc t = .dtorReturn
  destroyed : s.destroyed = true → s.closing = true ∧ s.inFlight = 0 ∧ ∀ t, s.pc t = .idle

variable [DecidableEq T] [Fintype T] {cfg : StoreConfig} {onPersist : σ → Bytes → σ × Bool}
  {s s' : StoreState T σ}

omit [DecidableEq T] [Fintype T] in
theorem Pc.destructs_of_pastFlush {pc : Pc} (h : pc.pastFlush = true) :
    pc.destructs = true ∧ pc ≠ .idle := by
  cases pc <;> first | exact ⟨rfl, by rintro ⟨⟩⟩ | cases h

/-- What `TeardownInv` reads besides the threads and `in_flight_`. -/
def StoreState.flags (s : StoreState T σ) := (s.closing, s.destroyed, s.stopped)

omit [DecidableEq T] [Fintype T] in
/-- Besides a busy destructor nobody is busy. -/
theorem TeardownInv.eq_of_busy (h : TeardownInv s) {t u : T} (ht : s.pc t ≠ .idle)
    (hu : s.pc u ≠ .idle) (hclosing : s.closing = true) : u = t := by
  obtain ⟨t₀, halone, -⟩ := h.alone hclosing
  have heq : ∀ v, s.pc v ≠ .idle → v = t₀ := by
    intro v hv
    by_contra hne
    exact hv (halone v hne)
  rw [heq u hu, heq t ht]

omit [DecidableEq T] [Fintype T] in
/-- A thread inside a call finds `stopped_` unset. -/
theorem TeardownInv.not_stopped (h : TeardownInv s) {t : T} (ht : (s.pc t).busy = true) :
    s.stopped = false := by
  by_contra hstopped
  rcases h.stopped (by simpa using hstopped) with hdestroyed | ⟨u, hu⟩
  · rw [(h.destroyed hdestroyed).2.2 t] at ht
    cases ht
  · have hclosing := h.closing_of_destructs u (by rw [hu]; rfl)
    have hidle : s.pc t ≠ .idle := by
      intro hidle
      rw [hidle] at ht
      cases ht
    obtain rfl : u = t := h.eq_of_busy hidle (by rw [hu]; rintro ⟨⟩) hclosing
    rw [hu] at ht
    cases ht

omit [Fintype T] in
/-- Moves of a busy thread that stay inside or outside the destructor. -/
theorem TeardownInv.move (h : TeardownInv s) (hflags : s'.flags = s.flags) {t : T} {x y : Pc}
    (hpc : s'.pc = Function.update s.pc t x) (hold : s.pc t = y) (hy : y.busy = true)
    (hsame : x.destructs = y.destructs) (hx : x.pastFlush = true → s'.inFlight = 0) :
    TeardownInv s' := by
  subst hold
  have hbusy : s.pc t ≠ .idle := by
    intro hidle
    rw [hidle] at hy
    cases hy
  simp only [StoreState.flags, Prod.mk.injEq] at hflags
  obtain ⟨hclosing, hdestroyed, hstopped⟩ := hflags
  have hlive : s.destroyed = false := by
    by_contra hd
    exact hbusy ((h.destroyed (by simpa using hd)).2.2 t)
  constructor
  · rw [hclosing, hpc]
    intro hc
    obtain ⟨t₀, halone, hself⟩ := h.alone hc
    obtain rfl : t = t₀ := by
      by_contra hne
      exact hbusy (halone t hne)
    refine ⟨t, fun u hu => by rw [Function.update_of_ne hu]; exact halone u hu, .inl ?_⟩
    rw [Function.update_self, hsame]
    rcases hself with hself | ⟨-, hidle⟩
    · exact hself
    · exact absurd hidle hbusy
  · intro u hu
    rw [hclosing]
    rw [hpc, apply_update hsame] at hu
    exact h.closing_of_destructs u hu
  · intro u hu
    rw [hpc] at hu
    by_cases hut : u = t
    · rw [hut, Function.update_self] at hu
      exact hx hu
    · rw [Function.update_of_ne hut] at hu
      obtain ⟨hdestructs, hnidle⟩ := Pc.destructs_of_pastFlush hu
      exact absurd (h.eq_of_busy hbusy hnidle (h.closing_of_destructs u hdestructs)) hut
  · rw [hstopped, h.not_stopped hy]
    rintro ⟨⟩
  · rw [hdestroyed, hlive]
    rintro ⟨⟩

omit [DecidableEq T] [Fintype T] in
/-- Steps of the strand that leave the threads alone. -/
theorem TeardownInv.drainMove (h : TeardownInv s) (hflags : s'.flags = s.flags)
    (hpc : s'.pc = s.pc) (hle : s'.inFlight ≤ s.inFlight) : TeardownInv s' := by
  simp only [StoreState.flags, Prod.mk.injEq] at hflags
  obtain ⟨hclosing, hdestroyed, hstopped⟩ := hflags
  constructor
  · rw [hclosing, hpc, hdestroyed]
    exact h.alone
  · rw [hclosing, hpc]
    exact h.closing_of_destructs
  · intro t ht
    rw [hpc] at ht
    have := h.inFlight_eq t ht
    omega
  · rw [hstopped, hpc, hdestroyed]
    exact h.stopped
  · rw [hdestroyed, hclosing, hpc]
    intro hd
    obtain ⟨hc, hzero, hidle⟩ := h.destroyed hd
    exact ⟨hc, by omega, hidle⟩

omit [Fintype T] in
/-- Calls by clients come before the destructor. -/
theorem TeardownInv.call (h : TeardownInv s) (hflags : s'.flags = s.flags)
    (hopen : s.closing = false) {t : T} {x : Pc} (hpc : s'.pc = Function.update s.pc t x)
    (hx : x.destructs = false) : TeardownInv s' := by
  simp only [StoreState.flags, Prod.mk.injEq] at hflags
  obtain ⟨hclosing, hdestroyed, hstopped⟩ := hflags
  have hoff : ∀ u, (s'.pc u).destructs = false := by
    intro u
    rw [hpc]
    by_cases hut : u = t
    · rw [hut, Function.update_self, hx]
    · rw [Function.update_of_ne hut]
      by_contra hu
      cases (h.closing_of_destructs u (by simpa using hu)).symm.trans hopen
  have hlive : s.destroyed = false := by
    by_contra hd
    cases (h.destroyed (by simpa using hd)).1.symm.trans hopen
  constructor
  · rw [hclosing, hopen]
    rintro ⟨⟩
  · intro u hu
    cases (hoff u).symm.trans hu
  · intro u hu
    cases (hoff u).symm.trans (Pc.destructs_of_pastFlush hu).1
  · intro hs
    rw [hstopped] at hs
    rcases h.stopped hs with hd | ⟨u, hu⟩
    · cases hd.symm.trans hlive
    · cases (h.closing_of_destructs u (by rw [hu]; rfl)).symm.trans hopen
  · rw [hdestroyed, hlive]
    rintro ⟨⟩

omit [DecidableEq T] [Fintype T] in
theorem Asking.destructs {t : T} {k : Caller} (h : Asking s t k) :
    (s.pc t).busy = true ∧ k.destructs = (s.pc t).destructs := by
  cases h with
  | append data hpc => exact ⟨by rw [hpc]; rfl, by rw [hpc]; rfl⟩
  | flush dtor hpc _ => exact ⟨by rw [hpc]; rfl, by rw [hpc]; rfl⟩
  | wait k hpc => exact ⟨by rw [hpc]; rfl, by rw [hpc]; rfl⟩

omit [DecidableEq T] [Fintype T] in
theorem Caller.swapped_destructs (k : Caller) :
    k.swapped.destructs = k.destructs ∧ k.swapped.pastFlush = false := by
  cases k <;> exact ⟨rfl, rfl⟩

omit [Fintype T] in
/-- Every step keeps the invariant. -/
theorem TeardownInv.step {e : StoreEvent T} (h : TeardownInv s)
    (hm : StoreMove cfg onPersist s e s') : TeardownInv s' := by
  cases hm with
  | appendNull t data hopen hpc =>
    refine h.call rfl hopen (t := t) (x := .idle) ?_ rfl
    rw [← hpc, Function.update_eq_self]
    rfl
  | appendCall t data d hopen hpc => exact h.call rfl hopen rfl rfl
  | flushCall t hopen hpc => exact h.call rfl hopen rfl rfl
  | destroyCall t hopen hidle =>
    have hlive : s.destroyed = false := by
      by_contra hd
      cases (h.destroyed (by simpa using hd)).1.symm.trans hopen
    constructor
    · intro _
      refine ⟨t, fun u hu => (Function.update_of_ne hu _ _).trans (hidle u), .inl ?_⟩
      simp only [StoreState.goto, Function.update_self]
      rfl
    · exact fun _ _ => rfl
    · intro u hu
      have hu' : (Function.update s.pc t (Pc.flushLock true) u).pastFlush = true := hu
      by_cases hut : u = t
      · rw [hut, Function.update_self] at hu'
        cases hu'
      · rw [Function.update_of_ne hut, hidle u] at hu'
        cases hu'
    · intro hs
      rcases h.stopped hs with hd | ⟨u, hu⟩
      · exact .inl hd
      · rw [hidle u] at hu
        cases hu
    · intro hd
      cases hd.symm.trans hlive
  | load t data hpc => exact h.move rfl rfl hpc rfl rfl (by rintro ⟨⟩)
  | write t data cur pc pc' hpc _ => exact h.move rfl rfl hpc rfl rfl (by rintro ⟨⟩)
  | writeTrue t data cur pc old hpc _ => exact h.move rfl rfl hpc rfl rfl (by rintro ⟨⟩)
  | writeFalse t data cur pc hpc _ => exact h.move rfl rfl hpc rfl rfl (by rintro ⟨⟩)
  | appendStopped t data cur hpc _ _ => exact h.move rfl rfl hpc rfl rfl (by rintro ⟨⟩)
  | appendRetry t data cur hpc _ _ => exact h.move rfl rfl hpc rfl rfl (by rintro ⟨⟩)
  | flushStopped t dtor hpc _ hstopped =>
    cases (h.not_stopped (t := t) (by rw [hpc]; rfl)).symm.trans hstopped
  | flushEmpty t dtor hpc _ _ => exact h.move rfl rfl hpc rfl rfl (by rintro ⟨⟩)
  | take t k b rest hask _ _ _ =>
    obtain ⟨hbusy, hsame⟩ := hask.destructs
    exact h.move rfl rfl rfl hbusy hsame (by rintro ⟨⟩)
  | extend t k buf hask _ _ _ _ _ =>
    obtain ⟨hbusy, hsame⟩ := hask.destructs
    exact h.move rfl rfl rfl hbusy hsame (by rintro ⟨⟩)
  | giveUpAppend _ t data seq hask _ =>
    obtain ⟨hbusy, hsame⟩ := hask.destructs
    exact h.move rfl rfl rfl hbusy hsame (by rintro ⟨⟩)
  | giveUpFlush _ t dtor seq hask _ _ =>
    obtain ⟨hbusy, hsame⟩ := hask.destructs
    exact h.move rfl rfl rfl hbusy hsame (by rintro ⟨⟩)
  | startWait t k hask _ _ _ =>
    obtain ⟨hbusy, hsame⟩ := hask.destructs
    exact h.move rfl rfl rfl hbusy hsame (by rintro ⟨⟩)
  | exchange t k next hpc => exact h.move rfl rfl hpc rfl rfl (by rintro ⟨⟩)
  | count t k old hpc => exact h.move rfl rfl hpc rfl rfl (by rintro ⟨⟩)
  | enqueueRunning t k old hpc _ =>
    obtain ⟨hsame, hpast⟩ := k.swapped_destructs
    exact h.move rfl rfl hpc rfl hsame (by rw [hpast]; rintro ⟨⟩)
  | enqueueIdle t k old hpc _ => exact h.move rfl rfl hpc rfl rfl (by rintro ⟨⟩)
  | runInline t k hpc _ =>
    rcases hpc with hpc | hpc <;> exact h.move rfl rfl hpc rfl rfl (by rintro ⟨⟩)
  | postNext t k hpc _ => exact h.move rfl rfl hpc rfl rfl (by rintro ⟨⟩)
  | postQueued t k hpc _ =>
    obtain ⟨hsame, hpast⟩ := k.swapped_destructs
    exact h.move rfl rfl hpc rfl hsame (by rw [hpast]; rintro ⟨⟩)
  | flushDone t dtor hpc _ hdone =>
    have hstopped := h.not_stopped (t := t) (by rw [hpc]; rfl)
    have hzero : s.inFlight = 0 := by
      rcases hdone with hzero | hdone
      · exact hzero
      · cases hstopped.symm.trans hdone
    refine h.move rfl rfl hpc rfl ?_ fun _ => hzero
    cases dtor <;> rfl
  | close t hpc _ =>
    have hclosing := h.closing_of_destructs t (by rw [hpc]; rfl)
    have hzero := h.inFlight_eq t (by rw [hpc]; rfl)
    have hmoved : TeardownInv (s.goto t .dtorReturn) :=
      h.move rfl rfl hpc rfl rfl fun _ => hzero
    exact ⟨hmoved.alone, hmoved.closing_of_destructs, hmoved.inFlight_eq,
      fun _ => .inr ⟨t, Function.update_self _ _ _⟩, hmoved.destroyed⟩
  | finish t hpc =>
    have hclosing := h.closing_of_destructs t (by rw [hpc]; rfl)
    have hzero := h.inFlight_eq t (by rw [hpc]; rfl)
    have hidle : ∀ u, Function.update s.pc t Pc.idle u = .idle := by
      intro u
      by_cases hut : u = t
      · rw [hut, Function.update_self]
      · rw [Function.update_of_ne hut]
        by_contra hu
        exact hut (h.eq_of_busy (by rw [hpc]; rintro ⟨⟩) hu hclosing)
    constructor
    · exact fun _ => ⟨t, fun u _ => hidle u, .inr ⟨rfl, hidle t⟩⟩
    · exact fun _ _ => hclosing
    · exact fun _ _ => hzero
    · exact fun _ => .inl rfl
    · exact fun _ => ⟨hclosing, hzero, hidle⟩
  | drainReturn runner hexec _ =>
    cases runner with
    | none => exact h.drainMove rfl rfl (Nat.le_refl _)
    | some t =>
      simp only [StoreState.drainReturn]
      split
      · next k hpc =>
        obtain ⟨hsame, hpast⟩ := k.swapped_destructs
        exact h.move rfl rfl hpc rfl hsame (by rw [hpast]; rintro ⟨⟩)
      · exact h.drainMove rfl rfl (Nat.le_refl _)
  | fetchSubLast runner b _ _ => exact h.drainMove rfl rfl (Nat.sub_le _ _)
  | fetchSub runner b _ _ => exact h.drainMove rfl rfl (Nat.sub_le _ _)
  | _ => exact h.drainMove rfl rfl (Nat.le_refl _)

omit [DecidableEq T] [Fintype T] in
theorem StoreState.create_teardownInv {env : σ} (h : StoreState.create cfg env = some s) :
    TeardownInv s := by
  rw [StoreState.create] at h
  split at h
  · cases h
    exact ⟨by rintro ⟨⟩, by rintro _ ⟨⟩, by rintro _ ⟨⟩, by rintro ⟨⟩, by rintro ⟨⟩⟩
  · cases h

/-- The invariant holds in every reachable state. -/
theorem TeardownInv.of_reach {ok : StoreState T σ → StoreEvent T → Prop} {env : σ}
    {s₀ : StoreState T σ} (hcreate : StoreState.create cfg env = some s₀)
    (hr : Reach (storeStep cfg onPersist) ok s₀ s) : TeardownInv s :=
  hr.invariant (StoreState.create_teardownInv hcreate) fun _ _ _ hi _ hstep =>
    hi.step (StoreMove.of_storeStep hstep)

-- ════════════════════════════════════════════════════════════════════════
-- Drains and the end of the destructor
-- ════════════════════════════════════════════════════════════════════════

/-- A posted `DrainOne_` has a step left, and so will touch a member of the store. -/
def DrainRemains (s : StoreState T σ) : Prop :=
  s.tasks ≠ [] ∨ ∃ runner b pc, s.exec = .drain runner b pc

/-- `DrainOne_` is about to run its final section. -/
def Exec.notifies : Exec T → Bool
  | .drain _ _ .notifyFlush => true
  | _ => false

/-- The destructor does not return while a drain is about to run its final
section, after it has set `in_flight_` to zero. -/
def ReturnsQuiet (s : StoreState T σ) : StoreEvent T → Prop
  | .step t => s.pc t = .dtorReturn → s.exec.notifies = false
  | _ => True

instance (s : StoreState T σ) : (e : StoreEvent T) → Decidable (ReturnsQuiet s e)
  | .step _ => inferInstanceAs (Decidable (_ → _))
  | .append _ _ | .flush _ | .destroy _ | .createFails _ | .timeout _ | .drain | .shutdown =>
    isTrue trivial

omit [DecidableEq T] in
/-- With nothing in flight, only a final section can be left of a drain. -/
theorem OwnInv.drainRemains_iff (h : OwnInv cfg s) (hzero : s.inFlight = 0) :
    DrainRemains s ↔ s.exec.notifies = true := by
  have hcount := h.inFlight_eq
  rw [hzero] at hcount
  have htasks : s.tasks = [] := List.length_eq_zero_iff.mp (by omega)
  have hsub : s.exec.unsubtracted = 0 := by omega
  constructor
  · rintro (hne | ⟨runner, b, pc, hexec⟩)
    · exact absurd htasks hne
    · rw [hexec] at hsub ⊢
      cases pc <;> first | rfl | cases hsub
  · intro hnotifies
    cases hexec : s.exec with
    | drain runner b pc => exact .inr ⟨runner, b, pc, hexec⟩
    | _ =>
      rw [hexec] at hnotifies
      cases hnotifies

omit [Fintype T] in
/-- The destructor returns. -/
theorem threadStep_dtorReturn {t : T} (hpc : s.pc t = .dtorReturn) :
    threadStep cfg s t = some ({ s with destroyed := true }.goto t .idle) := by
  simp only [threadStep, hpc]
  rfl

omit [Fintype T] in
/-- Only the return of the destructor destroys the store. -/
theorem StoreMove.destroyed_eq {e : StoreEvent T} (hm : StoreMove cfg onPersist s e s') :
    (∃ t, e = .step t ∧ s.pc t = .dtorReturn) ∨ s'.destroyed = s.destroyed := by
  cases hm with
  | finish t hpc => exact .inl ⟨t, rfl, hpc⟩
  | drainReturn runner _ _ =>
    cases runner with
    | none => exact .inr rfl
    | some t =>
      simp only [StoreState.drainReturn]
      split <;> exact .inr rfl
  | _ => exact .inr rfl

omit [Fintype T] in
/-- A destroyed store stays so. -/
theorem StoreMove.destroyed_mono {e : StoreEvent T} (hm : StoreMove cfg onPersist s e s')
    (h : s.destroyed = true) : s'.destroyed = true := by
  cases hm with
  | finish t hpc => rfl
  | drainReturn runner _ _ =>
    cases runner with
    | none => exact h
    | some t =>
      simp only [StoreState.drainReturn]
      split <;> exact h
  | _ => exact h

omit [Fintype T] in
/-- The final section of a drain comes right after its decrement of `in_flight_`. -/
theorem StoreMove.drainRemains_of_notifies {e : StoreEvent T}
    (hm : StoreMove cfg onPersist s e s') (hnotifies : s'.exec.notifies = true) :
    DrainRemains s := by
  have hkept : s'.exec = s.exec → DrainRemains s := by
    intro hsame
    rw [hsame] at hnotifies
    cases hexec : s.exec with
    | drain runner b pc => exact .inr ⟨runner, b, pc, hexec⟩
    | _ =>
      rw [hexec] at hnotifies
      cases hnotifies
  cases hm with
  | fetchSubLast runner b hexec _ => exact .inr ⟨runner, b, _, hexec⟩
  | drainReturn runner _ _ =>
    cases runner with
    | none => cases hnotifies
    | some t =>
      simp only [StoreState.drainReturn] at hnotifies
      split at hnotifies <;> cases hnotifies
  | _ => first | exact hkept rfl | cases hnotifies

/-- Over every run: after the destructor has returned no drain has a step left
exactly when the destructor never returns while one is about to run its final
section. -/
theorem quiet_after_destroyed_iff {env : σ} {s₀ : StoreState T σ}
    (hcreate : StoreState.create cfg env = some s₀) (es : List (StoreEvent T)) :
    Throughout (storeStep cfg onPersist) (fun s => s.destroyed = true → ¬ DrainRemains s) s₀ es ↔
      Along (storeStep cfg onPersist) ReturnsQuiet s₀ es := by
  refine throughout_iff_along (I := fun s => OwnInv cfg.normalise s ∧ TeardownInv s)
    ?_ ?_ ⟨StoreState.create_ownInv hcreate, StoreState.create_teardownInv hcreate⟩ ?_ es
  · intro s e s' ⟨hown, hdown⟩ hstep
    have hm := StoreMove.of_storeStep hstep
    exact ⟨hown.step hm, hdown.step hm⟩
  · intro s e s' ⟨hown, hdown⟩ hquiet hstep
    have hm := StoreMove.of_storeStep hstep
    have hown' := hown.step hm
    have hdown' := hdown.step hm
    by_cases hreturns : ∃ t, e = .step t ∧ s.pc t = .dtorReturn
    · obtain ⟨t, rfl, hpc⟩ := hreturns
      obtain rfl := Option.some.inj ((threadStep_dtorReturn hpc).symm.trans hstep)
      have hzero : s.inFlight = 0 := hdown.inFlight_eq t (by rw [hpc]; rfl)
      constructor
      · intro hafter _
        by_contra hnotifies
        rw [Bool.not_eq_false] at hnotifies
        exact hafter rfl ((hown'.drainRemains_iff hzero).mpr hnotifies)
      · intro hcond _ hremains
        have hnotifies : s.exec.notifies = true := (hown'.drainRemains_iff hzero).mp hremains
        cases (hcond hpc).symm.trans hnotifies
    · have hsame : s'.destroyed = s.destroyed := hm.destroyed_eq.resolve_left hreturns
      constructor
      · intro _
        cases e with
        | step t => exact fun hpc => absurd ⟨t, rfl, hpc⟩ hreturns
        | _ => exact trivial
      · intro _ hdestroyed hremains
        have hzero := (hdown'.destroyed hdestroyed).2.1
        have hnotifies := (hown'.drainRemains_iff hzero).mp hremains
        rw [hsame] at hdestroyed
        exact hquiet hdestroyed (hm.drainRemains_of_notifies hnotifies)
  · intro hdestroyed
    rw [StoreState.create] at hcreate
    split at hcreate <;> cases hcreate
    cases hdestroyed

/-- One accepted payload; the destructor swaps its buffer and waits until the
drain has set `in_flight_` to zero. -/
def drainedRun : List (StoreEvent Unit) :=
  [.append () (some [7])] ++ List.replicate 7 (.step ()) ++ [.destroy ()] ++
    List.replicate 6 (.step ()) ++ List.replicate 15 .drain

/-- When the final section comes before the destructor's last step, nothing remains. -/
theorem quiet_after_destroyed_notified :
    Throughout (storeStep onePageStore fun (_ : Unit) _ => ((), false))
      (fun s : StoreState Unit Unit => s.destroyed = true → ¬ DrainRemains s)
      ((StoreState.create onePageStore ()).get rfl)
      (drainedRun ++ [.step (), .drain, .step (), .step ()]) :=
  (quiet_after_destroyed_iff rfl _).mpr (by decide)

/-- The destructor returns before the final section of the drain, which can so
outlive the store. -/
theorem drain_outlives_store :
    ¬ ∀ (cfg : StoreConfig) (onPersist : Unit → Bytes → Unit × Bool) (s₀ : StoreState Unit Unit)
      (es : List (StoreEvent Unit)), StoreState.create cfg () = some s₀ →
        Throughout (storeStep cfg onPersist)
          (fun s => s.destroyed = true → ¬ DrainRemains s) s₀ es := by
  intro h
  have hrun : run (storeStep onePageStore fun _ _ => ((), false))
      ((StoreState.create onePageStore ()).get rfl)
      (drainedRun ++ List.replicate 3 (.step ())) = some _ := rfl
  exact (h onePageStore _ _ _ rfl).last hrun rfl (.inr ⟨none, 0, .notifyFlush, rfl⟩)

end LoggerHigh
