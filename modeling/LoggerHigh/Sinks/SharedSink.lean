import LoggerHigh.Mmap.StoreSolo
import LoggerHigh.Sinks.SinkRuns

/-!
# A sink that threads share

`EffectiveSink::Log` runs under `pipeline_mu_`; `Flush` does not. Any number of
threads call the sink. As long as no `Flush` overlaps a `Log` or another `Flush`,
they see a sink that one thread uses: the calls of `Log` take effect in the order
in which they got hold of the mutex.

## Main definitions

- `SharedPc`, `SharedSink`, `sharedStep` — the threads, the mutex and the sink
- `Exclusive` — no `Flush` overlaps a `Log` or another `Flush`
- `SharedInv` — one thread at a time
- `SharedSink.seenBy` — the sink as the thread inside it sees it

## Main results

- `SharedInv.step` — every step keeps the invariant, and is one of a sink with one thread, or none
- `OrderInv.step` — each thread's messages stand in the order of its calls
- `Reach.seenBy` — threads that take turns do what one thread can do
-/

namespace LoggerHigh

open ThreadSum Transition

-- ═══════════════════════════════════════════════════════════════════════════
-- The machine
-- ═══════════════════════════════════════════════════════════════════════════

/-- Where a thread is: outside, about to lock `pipeline_mu_` in `Log`, in `Append` with
`pipeline_mu_` locked, in `Flush`, or in the destructor. -/
inductive SharedPc
  | outside
  | waiting (msg : LogMsg) (pid tid : UInt64)
  | logging
  | flushing
  | closing
  deriving DecidableEq

/-- The thread is inside the store. -/
def SharedPc.inside : SharedPc → Bool
  | .outside | .waiting _ _ _ => false
  | .logging | .flushing | .closing => true

/-- The members of the sink that change, with the threads. The last three fields are
history variables: the calls of `Log`, those that came to `Append`, in the order in
which they locked `pipeline_mu_`, and the threads of those that have thrown. -/
structure SharedSink (T : Type) where
  cipher : AesGcmCipher
  store : StoreState T PersistEnv
  phase : SinkPhase
  pipelineMu : Option T
  pc : T → SharedPc
  calls : List (T × LogMsg)
  logged : List (T × LogEntry)
  threw : List T

variable {T : Type}

/-- `Create`, for threads `T`. -/
def SharedSink.create (deps : SinkDeps) (cfg : EffectiveSinkConfig) (answers : SinkAnswers) :
    Option (SinkParts × SharedSink T) := do
  let (parts, s) ← EffectiveSink.create deps cfg answers
  let store ← StoreState.create parts.storeConfig s.store.env
  some (parts, ⟨s.cipher, store, .inUse, none, fun _ => .outside, [], [], []⟩)

/-- `log t` is a call of `Log`, `lock t` its locking of `pipeline_mu_` with all up to the
call of `Append`, `unlock t` its return; `flushed t` is the return of a `Flush`. The rest
is as in `SinkEvent`. -/
inductive SharedEvent (T : Type)
  | log (t : T) (msg : LogMsg) (pid tid : UInt64)
  | lock (t : T) (fuel : ℕ)
  | unlock (t : T)
  | flush (t : T)
  | flushed (t : T)
  | destroy (t : T)
  | advance (t : T)
  | inStore (e : StoreEvent T)

section Machine

variable [DecidableEq T] [Fintype T] (deps : SinkDeps) (answers : SinkAnswers)
  (parts : SinkParts)

/-- Thread `t` goes to `pc`. -/
def SharedSink.goto (s : SharedSink T) (t : T) (pc : SharedPc) : SharedSink T :=
  { s with pc := Function.update s.pc t pc }

/-- A step of the store. -/
def SharedSink.stepStore (s : SharedSink T) (e : StoreEvent T) : Option (SharedSink T) :=
  (storeStep parts.storeConfig (persistCallback parts.writerConfig answers) s.store e).bind
    fun store => if store.env.writer.Fits then some { s with store := store } else none

/-- `Log` from the locking of `pipeline_mu_` to the call of `Append`; when it throws, the
guard unlocks the mutex. -/
def SharedSink.locked (s : SharedSink T) (t : T) (msg : LogMsg) (pid tid : UInt64) (fuel : ℕ) :
    Option (SharedSink T) :=
  match logFrame deps parts.compressor.level s.cipher msg pid tid fuel with
  | none => none
  | some (.error _, cipher) =>
    some ({ s with cipher := cipher, threw := s.threw ++ [t] }.goto t .outside)
  | some (.ok frame, cipher) =>
    let entry : LogEntry := ⟨msg, pid, tid, frame⟩
    ({ s with
      cipher := cipher
      pipelineMu := some t
      logged := s.logged ++ [(t, entry)] }.goto t .logging).stepStore answers parts
        (.append t (some frame))

/-- One step of the sink and the threads that share it. The owner destroys the sink when
every thread is outside. -/
def sharedStep (s : SharedSink T) : SharedEvent T → Option (SharedSink T)
  | .log t msg pid tid =>
    if s.phase = .inUse ∧ s.pc t = .outside then
      some ({ s with calls := s.calls ++ [(t, msg)] }.goto t (.waiting msg pid tid))
    else none
  | .lock t fuel =>
    match s.pc t with
    | .waiting msg pid tid =>
      if s.pipelineMu = none then s.locked deps answers parts t msg pid tid fuel else none
    | _ => none
  | .unlock t =>
    if s.pc t = .logging ∧ s.store.pc t = .idle then
      some ({ s with pipelineMu := none }.goto t .outside)
    else none
  | .flush t =>
    if s.phase = .inUse ∧ s.pc t = .outside then
      (s.goto t .flushing).stepStore answers parts (.flush t)
    else none
  | .flushed t =>
    if s.pc t = .flushing ∧ s.store.pc t = .idle then some (s.goto t .outside) else none
  | .destroy t =>
    if s.phase = .inUse ∧ ∀ u, s.pc u = .outside then
      ({ s with phase := .dtorFlush }.goto t .closing).stepStore answers parts (.flush t)
    else none
  | .advance t =>
    if s.pc t = .closing then
      if s.phase = .dtorFlush ∧ s.store.pc t = .idle then
        { s with phase := .dtorStore }.stepStore answers parts (.destroy t)
      else if s.phase = .dtorStore ∧ s.store.destroyed then some { s with phase := .destroyed }
      else none
    else none
  | .inStore e => if e.Inside then s.stepStore answers parts e else none

end Machine

/-- No `Flush` starts while a thread is inside the store, no `Log` gets the mutex while
one is in `Flush`, and the steps inside the store, as the thread inside sees them, meet a
condition. -/
def Exclusive (ok : StoreState Unit PersistEnv → StoreEvent Unit → Prop) (s : SharedSink T) :
    SharedEvent T → Prop
  | .flush _ => ∀ u, (s.pc u).inside = false
  | .lock _ _ => ∀ u, s.pc u ≠ .flushing
  | .inStore e => ∀ t, Alone s.store (some t) → ok (s.store.solo t) e.solo
  | .log _ _ _ _ | .unlock _ | .flushed _ | .destroy _ | .advance _ => True

instance [DecidableEq T] [Fintype T] (ok : StoreState Unit PersistEnv → StoreEvent Unit → Prop)
    [∀ store e, Decidable (ok store e)] (s : SharedSink T) :
    (ev : SharedEvent T) → Decidable (Exclusive ok s ev)
  | .flush _ => inferInstanceAs (Decidable (∀ u, (s.pc u).inside = false))
  | .lock _ _ => inferInstanceAs (Decidable (∀ u, s.pc u ≠ .flushing))
  | .inStore e =>
    inferInstanceAs (Decidable (∀ t, Alone s.store (some t) → ok (s.store.solo t) e.solo))
  | .log _ _ _ _ | .unlock _ | .flushed _ | .destroy _ | .advance _ => isTrue trivial

-- ═══════════════════════════════════════════════════════════════════════════
-- One thread at a time
-- ═══════════════════════════════════════════════════════════════════════════

/-- The thread that is named, if any, is the only one inside. -/
def SharedSink.Held (s : SharedSink T) (who : Option T) : Prop :=
  (∀ t, (s.pc t).inside = true ↔ who = some t) ∧ Alone s.store who

/-- One thread at a time is inside the store. Behind the start of the destructor there is
only the thread that runs it. -/
structure SharedInv [Fintype T] (parts : SinkParts) (s : SharedSink T) : Prop where
  own : OwnInv parts.storeConfig.normalise s.store
  held : ∃ who, s.Held who
  mutex : ∀ t, s.pc t = .logging → s.pipelineMu = some t
  closing : ∀ t, s.pc t = .closing → s.phase ≠ .inUse
  unused : s.phase ≠ .inUse → ∀ t, s.pc t = .closing ∨ s.pc t = .outside

/-- The sink as the thread inside it sees it. -/
def SharedSink.seenBy (s : SharedSink T) (t : T) : EffectiveSink :=
  ⟨s.cipher, s.store.solo t, s.phase, s.logged.map Prod.snd⟩

variable [DecidableEq T] [Fintype T] {deps : SinkDeps} {answers : SinkAnswers}
  {parts : SinkParts} {ok : StoreState Unit PersistEnv → StoreEvent Unit → Prop}
  {s s' : SharedSink T} {ev : SharedEvent T} {t : T} {who : Option T} {x : SharedPc}

/-- The step `e` takes the store of `s` to `store`, and the files fit. -/
def SharedSink.StoreSteps (answers : SinkAnswers) (parts : SinkParts) (s : SharedSink T)
    (e : StoreEvent T) (store : StoreState T PersistEnv) : Prop :=
  storeStep parts.storeConfig (persistCallback parts.writerConfig answers) s.store e = some store ∧
    store.env.writer.Fits

theorem SharedSink.stepStore_eq_some {e : StoreEvent T}
    (h : s.stepStore answers parts e = some s') :
    ∃ store, s.StoreSteps answers parts e store ∧ s' = { s with store := store } := by
  obtain ⟨store, hstep, hfits⟩ := Option.bind_eq_some_iff.mp h
  split at hfits
  · next hwriter =>
    cases hfits
    exact ⟨store, ⟨hstep, hwriter⟩, rfl⟩
  · cases hfits

omit [Fintype T] in
/-- A thread that is outside stays outside, or one that is inside stays inside. -/
theorem SharedSink.Held.same (h : s.Held who) (hpc : s'.pc = Function.update s.pc t x)
    (hx : x.inside = (s.pc t).inside) (hstore : s'.store = s.store) : s'.Held who := by
  refine ⟨fun u => ?_, hstore ▸ h.2⟩
  rw [hpc, apply_update hx]
  exact h.1 u

omit [Fintype T] in
/-- A thread enters the store. -/
theorem SharedSink.Held.enters (h : s.Held none) (hpc : s'.pc = Function.update s.pc t x)
    (hx : x.inside = true) (halone : Alone s'.store (some t)) : s'.Held (some t) := by
  refine ⟨fun u => ?_, halone⟩
  rw [hpc]
  by_cases hut : u = t
  · rw [hut, Function.update_self]
    exact iff_of_true hx rfl
  · rw [Function.update_of_ne hut, h.1 u]
    exact iff_of_false (by rintro ⟨⟩) fun heq => hut (Option.some.inj heq).symm

omit [Fintype T] in
/-- The thread inside leaves the store. -/
theorem SharedSink.Held.leaves (h : s.Held who) (hpc : s'.pc = Function.update s.pc t x)
    (ht : (s.pc t).inside = true) (hx : x.inside = false) (hstore : s'.store = s.store)
    (hidle : s.store.pc t = .idle) : s'.Held none := by
  have hwho : who = some t := (h.1 t).mp ht
  constructor
  · intro u
    rw [hpc]
    by_cases hut : u = t
    · rw [hut, Function.update_self]
      exact iff_of_false (by rw [hx]; rintro ⟨⟩) (by rintro ⟨⟩)
    · rw [Function.update_of_ne hut, h.1 u, hwho]
      exact iff_of_false (fun heq => hut (Option.some.inj heq).symm) (by rintro ⟨⟩)
  · intro u _
    rw [hstore]
    by_cases hut : u = t
    · rw [hut, hidle]
    · exact h.2 u fun heq => hut (Option.some.inj (heq.symm.trans hwho))

omit [DecidableEq T] [Fintype T] in
theorem SharedSink.Held.eq_none (h : s.Held who) (hnone : ∀ t, (s.pc t).inside = false) :
    who = none := by
  cases who with
  | none => rfl
  | some t =>
    have ht := (h.1 t).mpr rfl
    rw [hnone t] at ht
    cases ht

omit [DecidableEq T] in
/-- Before the thread that takes the mutex nobody is inside. -/
theorem SharedInv.held_none (h : SharedInv parts s) (hmutex : s.pipelineMu = none)
    (hflush : ∀ u, s.pc u ≠ .flushing) (hphase : s.phase = .inUse) : s.Held none := by
  obtain ⟨who, hheld⟩ := h.held
  obtain rfl : who = none := by
    refine hheld.eq_none fun u => ?_
    cases hpc : s.pc u with
    | outside | waiting msg pid tid => rfl
    | logging => cases hmutex.symm.trans (h.mutex u hpc)
    | flushing => exact absurd hpc (hflush u)
    | closing => exact absurd hphase (h.closing u hpc)
  exact hheld

omit [DecidableEq T] in
/-- A call of `Log` that waits finds the sink in use. -/
theorem SharedInv.inUse_of_waiting (h : SharedInv parts s) {msg : LogMsg} {pid tid : UInt64}
    (ht : s.pc t = .waiting msg pid tid) : s.phase = .inUse := by
  by_contra hphase
  rcases h.unused hphase t with hpc | hpc
  all_goals cases ht.symm.trans hpc

-- ═══════════════════════════════════════════════════════════════════════════
-- Steps
-- ═══════════════════════════════════════════════════════════════════════════

/-- What the thread inside sees of a step is a step of a sink of its own, or nothing. -/
def Matched (deps : SinkDeps) (answers : SinkAnswers) (parts : SinkParts)
    (ok : StoreState Unit PersistEnv → StoreEvent Unit → Prop) (s s' : SharedSink T) : Prop :=
  ∀ t, Alone s.store (some t) → ∃ t', Alone s'.store (some t') ∧
    (s'.seenBy t' = s.seenBy t ∨ ∃ ev, ev.Within ok (s.seenBy t) ∧
      sinkStep deps answers parts (s.seenBy t) ev = some (s'.seenBy t'))

omit [DecidableEq T] [Fintype T] in
/-- Steps outside the store. -/
theorem Matched.quiet (hcipher : s'.cipher = s.cipher) (hstore : s'.store = s.store)
    (hphase : s'.phase = s.phase) (hlogged : s'.logged = s.logged) :
    Matched deps answers parts ok s s' := by
  intro t halone
  refine ⟨t, hstore ▸ halone, .inl ?_⟩
  rw [SharedSink.seenBy, SharedSink.seenBy, hcipher, hstore, hphase, hlogged]

/-- A step of the store is one of the store of a single thread. -/
theorem SharedSink.StoreSteps.solo {e : StoreEvent T} {store : StoreState T PersistEnv}
    (h : s.StoreSteps answers parts e store) (hown : OwnInv parts.storeConfig.normalise s.store)
    (halone : Alone s.store (some t)) (hby : e.By (some t)) :
    Alone store (some t) ∧
      (s.seenBy t).StoreSteps answers parts e.solo (store.solo t) :=
  ⟨halone.step hby (StoreMove.of_storeStep h.1), halone.solo_storeStep hown hby h.1, h.2⟩

omit [DecidableEq T] [Fintype T] in
/-- While nobody is inside, the sink looks the same to every thread. -/
theorem SharedSink.Held.seenBy_eq (h : s.Held none) (t u : T) : s.seenBy u = s.seenBy t := by
  rw [SharedSink.seenBy, SharedSink.seenBy, h.2.solo_eq u t]

/-- A step of the store that a sink can take. -/
theorem EffectiveSink.stepStore_of_storeSteps {a : EffectiveSink} {e : StoreEvent Unit}
    {store : StoreState Unit PersistEnv} (h : a.StoreSteps answers parts e store) :
    a.stepStore answers parts e = some { a with store := store } := by
  rw [EffectiveSink.stepStore, h.1]
  exact if_pos h.2

omit [DecidableEq T] [Fintype T] in
theorem SharedSink.Held.not_logging (h : s.Held none) (u : T) : s.pc u ≠ .logging := by
  intro hu
  cases (h.1 u).mp (by rw [hu]; rfl)

/-- Steps of a thread while the sink is in use. -/
theorem SharedInv.moved (h : SharedInv parts s)
    (hown : OwnInv parts.storeConfig.normalise s'.store) (hheld : ∃ who, s'.Held who)
    (hpc : s'.pc = Function.update s.pc t x) (hphase : s.phase = .inUse)
    (hphase' : s'.phase = .inUse) (hx : x ≠ .closing)
    (hmutex : x ≠ .logging ∧ s'.pipelineMu = s.pipelineMu ∨
      (∀ u, u ≠ t → s.pc u ≠ .logging) ∧ (x = .logging → s'.pipelineMu = some t)) :
    SharedInv parts s' := by
  refine ⟨hown, hheld, fun u hu => ?mutex, fun u hu => ?closing,
    fun hunused => absurd hphase' hunused⟩
  case mutex =>
    rw [hpc] at hu
    rcases update_cases hu with ⟨rfl, rfl⟩ | ⟨hne, hold⟩
    · exact (hmutex.resolve_left fun hnot => hnot.1 rfl).2 rfl
    · rcases hmutex with ⟨-, hsame⟩ | ⟨hothers, -⟩
      · exact hsame.trans (h.mutex u hold)
      · exact absurd hold (hothers u hne)
  case closing =>
    rw [hpc] at hu
    rcases update_cases hu with ⟨-, hclosing⟩ | ⟨-, hold⟩
    · exact absurd hclosing hx
    · exact absurd hphase (h.closing u hold)

/-- A thread that has called `Log` waits for the mutex. -/
theorem SharedInv.stepLog (h : SharedInv parts s) {msg : LogMsg} {pid tid : UInt64}
    (hstep : sharedStep deps answers parts s (.log t msg pid tid) = some s') :
    SharedInv parts s' ∧ Matched deps answers parts ok s s' := by
  rw [sharedStep] at hstep
  split at hstep
  case isFalse => cases hstep
  next hfree =>
    cases hstep
    obtain ⟨who, hheld⟩ := h.held
    refine ⟨h.moved h.own ⟨who, hheld.same rfl ?_ rfl⟩ rfl hfree.1 hfree.1 (by rintro ⟨⟩)
      (.inl ⟨by rintro ⟨⟩, rfl⟩), .quiet rfl rfl rfl rfl⟩
    rw [hfree.2]
    rfl

/-- A thread that has locked the mutex calls `Append`, or throws. -/
theorem SharedInv.stepLock (h : SharedInv parts s) {fuel : ℕ}
    (hflush : ∀ u, s.pc u ≠ .flushing)
    (hstep : sharedStep deps answers parts s (.lock t fuel) = some s') :
    SharedInv parts s' ∧ Matched deps answers parts ok s s' := by
  rw [sharedStep] at hstep
  split at hstep
  case h_2 => cases hstep
  next msg pid tid ht =>
    split at hstep
    case isFalse => cases hstep
    next hmutex =>
      have hphase := h.inUse_of_waiting ht
      have hnone := h.held_none hmutex hflush hphase
      have hidle : ∀ u, (s.seenBy u).idle := fun u => ⟨hphase, hnone.2 u (by rintro ⟨⟩)⟩
      rw [SharedSink.locked] at hstep
      split at hstep
      · cases hstep
      · next cipher hlog =>
        cases hstep
        refine ⟨h.moved h.own ⟨none, hnone.same rfl (by rw [ht]; rfl) rfl⟩ rfl hphase hphase
          (by rintro ⟨⟩) (.inl ⟨by rintro ⟨⟩, rfl⟩), fun u halone => ⟨u, halone, .inr
            ⟨.log msg pid tid fuel, trivial, ?_⟩⟩⟩
        rw [sinkStep, if_pos (hidle u), EffectiveSink.log]
        have hseen : logFrame deps parts.compressor.level (s.seenBy u).cipher msg pid tid fuel =
          some (.error _, cipher) := hlog
        rw [hseen]
        rfl
      · next frame cipher hlog =>
        obtain ⟨store, hstore, rfl⟩ := SharedSink.stepStore_eq_some hstep
        have hstore : s.StoreSteps answers parts (.append t (some frame)) store := hstore
        obtain ⟨halone, hsolo⟩ := hstore.solo h.own (hnone.2.some_of_none t) rfl
        refine ⟨h.moved (h.own.step (StoreMove.of_storeStep hstore.1))
          ⟨some t, hnone.enters rfl rfl halone⟩ rfl hphase hphase (by rintro ⟨⟩)
            (.inr ⟨fun u _ => hnone.not_logging u, fun _ => rfl⟩), fun u _ => ⟨t, halone, .inr
              ⟨.log msg pid tid fuel, trivial, ?_⟩⟩⟩
        have hseen : logFrame deps parts.compressor.level (s.seenBy t).cipher msg pid tid fuel =
          some (.ok frame, cipher) := hlog
        have hlogged : EffectiveSink.StoreSteps answers parts
          ⟨cipher, s.store.solo t, s.phase, s.logged.map Prod.snd ++ [⟨msg, pid, tid, frame⟩]⟩
          (.append () (some frame)) (store.solo t) := hsolo
        rw [hnone.seenBy_eq t u, sinkStep, if_pos (hidle t), EffectiveSink.log, hseen]
        refine (EffectiveSink.stepStore_of_storeSteps hlogged).trans ?_
        simp only [SharedSink.seenBy, SharedSink.goto, List.map_append, List.map_cons, List.map_nil]

/-- `Append` has returned, and `Log` unlocks the mutex. -/
theorem SharedInv.stepUnlock (h : SharedInv parts s)
    (hstep : sharedStep deps answers parts s (.unlock t) = some s') :
    SharedInv parts s' ∧ Matched deps answers parts ok s s' := by
  rw [sharedStep] at hstep
  split at hstep
  case isFalse => cases hstep
  next hdone =>
    cases hstep
    obtain ⟨who, hheld⟩ := h.held
    have hinside : (s.pc t).inside = true := by rw [hdone.1]; rfl
    have hphase : s.phase = .inUse := by
      by_contra hunused
      rcases h.unused hunused t with hpc | hpc
      all_goals cases hdone.1.symm.trans hpc
    refine ⟨h.moved h.own ⟨none, hheld.leaves rfl hinside rfl rfl hdone.2⟩ rfl hphase hphase
      (by rintro ⟨⟩) (.inr ⟨fun u hu hlogging => ?_, by rintro ⟨⟩⟩), .quiet rfl rfl rfl rfl⟩
    have hother : who = some u := (hheld.1 u).mp (by rw [hlogging]; rfl)
    exact hu (Option.some.inj (hother.symm.trans ((hheld.1 t).mp hinside)))

/-- A thread calls `Flush`. -/
theorem SharedInv.stepFlush (h : SharedInv parts s) (hnobody : ∀ u, (s.pc u).inside = false)
    (hstep : sharedStep deps answers parts s (.flush t) = some s') :
    SharedInv parts s' ∧ Matched deps answers parts ok s s' := by
  rw [sharedStep] at hstep
  split at hstep
  case isFalse => cases hstep
  next hfree =>
    obtain ⟨who, hheld⟩ := h.held
    obtain rfl := hheld.eq_none hnobody
    obtain ⟨store, hstore, rfl⟩ := SharedSink.stepStore_eq_some hstep
    have hstore : s.StoreSteps answers parts (.flush t) store := hstore
    obtain ⟨halone, hsolo⟩ := hstore.solo h.own (hheld.2.some_of_none t) rfl
    have hidle : (s.seenBy t).idle := ⟨hfree.1, hheld.2 t (by rintro ⟨⟩)⟩
    refine ⟨h.moved (h.own.step (StoreMove.of_storeStep hstore.1))
      ⟨some t, hheld.enters rfl rfl halone⟩ rfl hfree.1 hfree.1 (by rintro ⟨⟩)
        (.inl ⟨by rintro ⟨⟩, rfl⟩), fun u _ => ⟨t, halone, .inr ⟨.flush, trivial, ?_⟩⟩⟩
    rw [hheld.seenBy_eq t u, sinkStep, if_pos hidle]
    exact EffectiveSink.stepStore_of_storeSteps hsolo

/-- A `Flush` returns. -/
theorem SharedInv.stepFlushed (h : SharedInv parts s)
    (hstep : sharedStep deps answers parts s (.flushed t) = some s') :
    SharedInv parts s' ∧ Matched deps answers parts ok s s' := by
  rw [sharedStep] at hstep
  split at hstep
  case isFalse => cases hstep
  next hdone =>
    cases hstep
    obtain ⟨who, hheld⟩ := h.held
    have hphase : s.phase = .inUse := by
      by_contra hunused
      rcases h.unused hunused t with hpc | hpc
      all_goals cases hdone.1.symm.trans hpc
    refine ⟨h.moved h.own ⟨none, hheld.leaves rfl ?_ rfl rfl hdone.2⟩ rfl hphase hphase
      (by rintro ⟨⟩) (.inl ⟨by rintro ⟨⟩, rfl⟩), .quiet rfl rfl rfl rfl⟩
    rw [hdone.1]
    rfl

/-- The destructor starts. -/
theorem SharedInv.stepDestroy (h : SharedInv parts s)
    (hstep : sharedStep deps answers parts s (.destroy t) = some s') :
    SharedInv parts s' ∧ Matched deps answers parts ok s s' := by
  rw [sharedStep] at hstep
  split at hstep
  case isFalse => cases hstep
  next hfree =>
    obtain ⟨hphase, houtside⟩ := hfree
    obtain ⟨who, hheld⟩ := h.held
    obtain rfl := hheld.eq_none fun u => by rw [houtside u]; rfl
    obtain ⟨store, hstore, rfl⟩ := SharedSink.stepStore_eq_some hstep
    have hstore : s.StoreSteps answers parts (.flush t) store := hstore
    obtain ⟨halone, hsolo⟩ := hstore.solo h.own (hheld.2.some_of_none t) rfl
    have hidle : (s.seenBy t).idle := ⟨hphase, hheld.2 t (by rintro ⟨⟩)⟩
    refine ⟨⟨h.own.step (StoreMove.of_storeStep hstore.1), ⟨some t, hheld.enters rfl rfl halone⟩,
      fun u hu => ?mutex, fun u _ => by rintro ⟨⟩, fun _ u => ?unused⟩,
      fun u _ => ⟨t, halone, .inr ⟨.destroy, trivial, ?seen⟩⟩⟩
    case mutex =>
      rcases update_cases hu with ⟨-, hx⟩ | ⟨-, hold⟩
      · cases hx
      · cases (houtside u).symm.trans hold
    case unused =>
      by_cases hut : u = t
      · exact .inl (by rw [hut]; exact Function.update_self _ _ _)
      · exact .inr ((Function.update_of_ne hut _ _).trans (houtside u))
    case seen =>
      rw [hheld.seenBy_eq t u, sinkStep, if_pos hidle]
      exact EffectiveSink.stepStore_of_storeSteps hsolo

/-- The destructor goes on. -/
theorem SharedInv.stepAdvance (h : SharedInv parts s)
    (hstep : sharedStep deps answers parts s (.advance t) = some s') :
    SharedInv parts s' ∧ Matched deps answers parts ok s s' := by
  rw [sharedStep] at hstep
  split at hstep
  case isFalse => cases hstep
  next hclosing =>
    obtain ⟨who, hheld⟩ := h.held
    have hwho : who = some t := (hheld.1 t).mp (by rw [hclosing]; rfl)
    have hunused := h.unused (h.closing t hclosing)
    split at hstep
    · next hflushed =>
      obtain ⟨store, hstore, rfl⟩ := SharedSink.stepStore_eq_some hstep
      have hstore : s.StoreSteps answers parts (.destroy t) store := hstore
      have hnone : Alone s.store none := by
        intro u _
        by_cases hut : u = t
        · rw [hut, hflushed.2]
        · exact hheld.2 u fun heq => hut (Option.some.inj (heq.symm.trans hwho))
      obtain ⟨halone, hsolo⟩ := hstore.solo h.own (hnone.some_of_none t) rfl
      refine ⟨⟨h.own.step (StoreMove.of_storeStep hstore.1), ⟨some t, hwho ▸ hheld.1, halone⟩,
        h.mutex, fun u _ => by rintro ⟨⟩, fun _ => hunused⟩,
        fun u _ => ⟨t, halone, .inr ⟨.advance, trivial, ?_⟩⟩⟩
      have hseen : s.seenBy u = s.seenBy t := by
        rw [SharedSink.seenBy, SharedSink.seenBy, hnone.solo_eq u t]
      have hflushed' : (s.seenBy t).phase = .dtorFlush ∧ (s.seenBy t).store.pc () = .idle :=
        hflushed
      rw [hseen, sinkStep, if_pos hflushed']
      exact EffectiveSink.stepStore_of_storeSteps hsolo
    · split at hstep
      · next hnot hdestroyed =>
        cases hstep
        refine ⟨⟨h.own, ⟨who, hheld⟩, h.mutex, fun u _ => by rintro ⟨⟩, fun _ => hunused⟩,
          fun u halone => ⟨u, halone, .inr ⟨.advance, trivial, ?_⟩⟩⟩
        have hnot' : ¬ ((s.seenBy u).phase = .dtorFlush ∧ (s.seenBy u).store.pc () = .idle) := by
          rintro ⟨hphase, -⟩
          cases hdestroyed.1.symm.trans hphase
        rw [sinkStep, if_neg hnot']
        exact if_pos hdestroyed
      · cases hstep

/-- A step inside the store. -/
theorem SharedInv.stepInStore (h : SharedInv parts s) {e : StoreEvent T}
    (hok : ∀ t, Alone s.store (some t) → ok (s.store.solo t) e.solo)
    (hstep : sharedStep deps answers parts s (.inStore e) = some s') :
    SharedInv parts s' ∧ Matched deps answers parts ok s s' := by
  rw [sharedStep] at hstep
  split at hstep
  case isFalse => cases hstep
  next hinside =>
    obtain ⟨who, hheld⟩ := h.held
    obtain ⟨store, hstore, rfl⟩ := SharedSink.stepStore_eq_some hstep
    have hm := StoreMove.of_storeStep hstore.1
    have hsolo' : e.solo.inside = true := by
      cases e <;> first | rfl | exact hinside.elim
    refine ⟨⟨h.own.step hm, ⟨who, hheld.1, hheld.2.step (hheld.2.by_of_storeStep hinside hstore.1)
      hm⟩, h.mutex, h.closing, h.unused⟩, fun u halone => ?_⟩
    obtain ⟨halone', hsolo⟩ := hstore.solo h.own halone (halone.by_of_storeStep hinside hstore.1)
    refine ⟨u, halone', .inr ⟨.inStore e.solo, hok u halone, ?_⟩⟩
    rw [sinkStep, if_pos hsolo']
    exact EffectiveSink.stepStore_of_storeSteps hsolo

/-- Every step keeps the invariant, and is a step of a sink of a single thread, or none. -/
theorem SharedInv.step (h : SharedInv parts s) (hok : Exclusive ok s ev)
    (hstep : sharedStep deps answers parts s ev = some s') :
    SharedInv parts s' ∧ Matched deps answers parts ok s s' := by
  cases ev with
  | log t msg pid tid => exact h.stepLog hstep
  | lock t fuel => exact h.stepLock hok hstep
  | unlock t => exact h.stepUnlock hstep
  | flush t => exact h.stepFlush hok hstep
  | flushed t => exact h.stepFlushed hstep
  | destroy t => exact h.stepDestroy hstep
  | advance t => exact h.stepAdvance hstep
  | inStore e => exact h.stepInStore hok hstep

-- ═══════════════════════════════════════════════════════════════════════════
-- The messages of a thread
-- ═══════════════════════════════════════════════════════════════════════════

/-- What belongs to thread `t` in a history. -/
def ofThread {α : Type} (t : T) (hist : List (T × α)) : List α :=
  (hist.filter fun x => x.1 = t).map Prod.snd

/-- The message of a call of `Log` that waits. -/
def SharedPc.pending : SharedPc → List LogMsg
  | .waiting msg _ _ => [msg]
  | .outside | .logging | .flushing | .closing => []

/-- What a thread has called `Log` with is what came to `Append`, in this order, what has
thrown, and the call that waits. -/
structure OrderInv (s : SharedSink T) : Prop where
  sub : ∀ t, ((ofThread t s.logged).map LogEntry.msg ++ (s.pc t).pending).Sublist
    (ofThread t s.calls)
  length_eq : ∀ t, (ofThread t s.calls).length =
    (ofThread t s.logged).length + s.threw.count t + (s.pc t).pending.length

omit [Fintype T] in
theorem ofThread_append_self {α : Type} (t : T) (hist : List (T × α)) (x : α) :
    ofThread t (hist ++ [(t, x)]) = ofThread t hist ++ [x] := by
  simp [ofThread]

omit [Fintype T] in
theorem ofThread_append_of_ne {α : Type} {t u : T} (h : u ≠ t) (hist : List (T × α)) (x : α) :
    ofThread u (hist ++ [(t, x)]) = ofThread u hist := by
  simp [ofThread, h.symm]

omit [Fintype T] in
/-- Steps that change the histories of one thread. -/
theorem OrderInv.change (h : OrderInv s) (hpc : s'.pc = Function.update s.pc t x)
    (hothers : ∀ u, u ≠ t → ofThread u s'.calls = ofThread u s.calls ∧
      ofThread u s'.logged = ofThread u s.logged ∧ s'.threw.count u = s.threw.count u)
    (hsub : ((ofThread t s'.logged).map LogEntry.msg ++ x.pending).Sublist (ofThread t s'.calls))
    (hlength : (ofThread t s'.calls).length =
      (ofThread t s'.logged).length + s'.threw.count t + x.pending.length) : OrderInv s' := by
  constructor
  · intro u
    rw [hpc]
    by_cases hut : u = t
    · rw [hut, Function.update_self]
      exact hsub
    · obtain ⟨hcalls, hlogged, -⟩ := hothers u hut
      rw [Function.update_of_ne hut, hcalls, hlogged]
      exact h.sub u
  · intro u
    rw [hpc]
    by_cases hut : u = t
    · rw [hut, Function.update_self]
      exact hlength
    · obtain ⟨hcalls, hlogged, hthrew⟩ := hothers u hut
      rw [Function.update_of_ne hut, hcalls, hlogged, hthrew]
      exact h.length_eq u

omit [Fintype T] in
/-- Steps that leave the histories alone. -/
theorem OrderInv.same (h : OrderInv s) (hcalls : s'.calls = s.calls)
    (hlogged : s'.logged = s.logged) (hthrew : s'.threw = s.threw)
    (hpc : ∀ u, (s'.pc u).pending = (s.pc u).pending) : OrderInv s' := by
  constructor
  · intro u
    rw [hlogged, hcalls, hpc]
    exact h.sub u
  · intro u
    rw [hlogged, hcalls, hthrew, hpc]
    exact h.length_eq u

/-- A call of `Log` starts. -/
theorem OrderInv.stepLog (h : OrderInv s) {msg : LogMsg} {pid tid : UInt64}
    (hstep : sharedStep deps answers parts s (.log t msg pid tid) = some s') : OrderInv s' := by
  rw [sharedStep] at hstep
  split at hstep
  case isFalse => cases hstep
  next hfree =>
    cases hstep
    have hsub := h.sub t
    have hlength := h.length_eq t
    rw [hfree.2, SharedPc.pending, List.append_nil] at hsub
    rw [hfree.2, SharedPc.pending] at hlength
    refine h.change rfl (fun u hu => ⟨ofThread_append_of_ne hu _ _, rfl, rfl⟩) ?_ ?_
    · simp only [SharedSink.goto, ofThread_append_self]
      exact hsub.append (.refl _)
    · simp only [SharedSink.goto, ofThread_append_self, List.length_append, hlength]
      rfl

/-- A call of `Log` throws, or comes to `Append`. -/
theorem OrderInv.stepLock (h : OrderInv s) {fuel : ℕ}
    (hstep : sharedStep deps answers parts s (.lock t fuel) = some s') : OrderInv s' := by
  rw [sharedStep] at hstep
  split at hstep
  case h_2 => cases hstep
  next msg pid tid ht =>
    split at hstep
    case isFalse => cases hstep
    next hmutex =>
      have hsub := h.sub t
      have hlength := h.length_eq t
      rw [ht, SharedPc.pending] at hsub hlength
      rw [SharedSink.locked] at hstep
      split at hstep
      · cases hstep
      · cases hstep
        refine h.change rfl (fun u hu => ⟨rfl, rfl, ?_⟩) ?_ ?_
        · simp only [SharedSink.goto, List.count_append, List.count_singleton]
          rw [if_neg (by simpa using hu.symm), Nat.add_zero]
        · rw [SharedPc.pending, List.append_nil]
          exact (List.sublist_append_left _ _).trans hsub
        · simp only [SharedSink.goto, List.count_append, List.count_singleton_self,
            SharedPc.pending]
          exact hlength
      · obtain ⟨store, -, rfl⟩ := SharedSink.stepStore_eq_some hstep
        refine h.change rfl (fun u hu => ⟨rfl, ofThread_append_of_ne hu _ _, rfl⟩) ?_ ?_
        · simp only [SharedSink.goto, ofThread_append_self, List.map_append, SharedPc.pending,
            List.append_nil]
          exact hsub
        · simp only [SharedSink.goto, ofThread_append_self, List.length_append, SharedPc.pending,
            List.length_singleton, List.length_nil] at hlength ⊢
          omega

/-- Every step keeps the invariant. -/
theorem OrderInv.step (h : OrderInv s) (hstep : sharedStep deps answers parts s ev = some s') :
    OrderInv s' := by
  have hgoto : ∀ {t : T} {y x : SharedPc}, s.pc t = y → x.pending = y.pending →
      ∀ u, (Function.update s.pc t x u).pending = (s.pc u).pending := fun ht hx u =>
    apply_update (by rw [hx, ht]) u
  cases ev with
  | log t msg pid tid => exact h.stepLog hstep
  | lock t fuel => exact h.stepLock hstep
  | unlock t | flushed t =>
    rw [sharedStep] at hstep
    split at hstep
    case isFalse => cases hstep
    next hdone =>
      cases hstep
      exact h.same rfl rfl rfl (hgoto hdone.1 rfl)
  | flush t =>
    rw [sharedStep] at hstep
    split at hstep
    case isFalse => cases hstep
    next hfree =>
      obtain ⟨store, -, rfl⟩ := SharedSink.stepStore_eq_some hstep
      exact h.same rfl rfl rfl (hgoto hfree.2 rfl)
  | destroy t =>
    rw [sharedStep] at hstep
    split at hstep
    case isFalse => cases hstep
    next hfree =>
      obtain ⟨store, -, rfl⟩ := SharedSink.stepStore_eq_some hstep
      exact h.same rfl rfl rfl (hgoto (hfree.2 t) rfl)
  | advance t =>
    rw [sharedStep] at hstep
    split at hstep
    case isFalse => cases hstep
    next hclosing =>
      split at hstep
      · obtain ⟨store, -, rfl⟩ := SharedSink.stepStore_eq_some hstep
        exact h.same rfl rfl rfl fun _ => rfl
      · split at hstep
        · cases hstep
          exact h.same rfl rfl rfl fun _ => rfl
        · cases hstep
  | inStore e =>
    rw [sharedStep] at hstep
    split at hstep
    case isFalse => cases hstep
    next hinside =>
      obtain ⟨store, -, rfl⟩ := SharedSink.stepStore_eq_some hstep
      exact h.same rfl rfl rfl fun _ => rfl

-- ═══════════════════════════════════════════════════════════════════════════
-- Runs
-- ═══════════════════════════════════════════════════════════════════════════

omit [DecidableEq T] [Fintype T] in
/-- The parts of a new sink do not depend on the threads. -/
theorem SharedSink.of_create {cfg : EffectiveSinkConfig}
    (h : SharedSink.create deps cfg answers = some (parts, s)) : ∃ a,
      EffectiveSink.create deps cfg answers = some (parts, a) ∧
        StoreState.create parts.storeConfig a.store.env = some s.store ∧
        s = ⟨a.cipher, s.store, .inUse, none, fun _ => .outside, [], [], []⟩ := by
  simp only [SharedSink.create, Option.bind_eq_bind, Option.bind_eq_some_iff] at h
  obtain ⟨⟨parts', a⟩, ha, store, hstore, heq⟩ := h
  cases heq
  exact ⟨a, ha, hstore, rfl⟩

omit [DecidableEq T] [Fintype T] in
/-- A new store looks like that of a single thread. -/
theorem StoreState.create_solo {σ : Type} {cfg : StoreConfig} {env : σ} {store : StoreState T σ}
    (h : StoreState.create cfg env = some store) (t : T) :
    StoreState.create cfg env = some (store.solo t) := by
  rw [StoreState.create] at h ⊢
  split at h
  · next hopen =>
    cases h
    exact if_pos hopen
  · cases h

omit [DecidableEq T] in
/-- Nobody is inside a new sink. -/
theorem SharedInv.create {a : EffectiveSink}
    (hstore : StoreState.create parts.storeConfig a.store.env = some s.store)
    (hs : s = ⟨a.cipher, s.store, .inUse, none, fun _ => .outside, [], [], []⟩) :
    SharedInv parts s := by
  have hpc : ∀ t, s.pc t = .outside := fun t => by rw [hs]
  have hidle := (StoreState.create_hist hstore).2
  refine ⟨StoreState.create_ownInv hstore, ⟨none, fun t => ?_, fun t _ => hidle t⟩, fun t ht => ?_,
    fun t ht => ?_, fun _ t => .inr (hpc t)⟩
  · rw [hpc]
    exact iff_of_false (by rintro ⟨⟩) (by rintro ⟨⟩)
  all_goals cases (hpc t).symm.trans ht

omit [Fintype T] in
theorem OrderInv.create {a : EffectiveSink}
    (hs : s = ⟨a.cipher, s.store, .inUse, none, fun _ => .outside, [], [], []⟩) : OrderInv s := by
  rw [hs]
  exact ⟨fun _ => .refl _, fun _ => rfl⟩

omit [DecidableEq T] [Fintype T] in
/-- What a thread sees of a new sink is a new sink. -/
theorem SharedSink.seenBy_of_create {a : EffectiveSink}
    (ha : EffectiveSink.create deps cfg answers = some (parts, a))
    (hstore : StoreState.create parts.storeConfig a.store.env = some s.store)
    (hs : s = ⟨a.cipher, s.store, .inUse, none, fun _ => .outside, [], [], []⟩) (t : T) :
    s.seenBy t = a := by
  have hcreated := Created.of_create ha
  have hsolo := StoreState.create_solo hstore t
  rw [hcreated.store] at hsolo
  rw [SharedSink.seenBy, ← Option.some.inj hsolo, hs]
  obtain ⟨cipher, store, phase, logged⟩ := a
  obtain ⟨-, rfl, rfl⟩ := hcreated.fresh
  rfl

/-- The simulation relation: some thread sees the sink like this, and is alone inside. -/
def Sees (parts : SinkParts) (s : SharedSink T) (a : EffectiveSink) : Prop :=
  SharedInv parts s ∧ ∃ t, Alone s.store (some t) ∧ a = s.seenBy t

/-- Whatever threads that take turns do with a sink, one thread can do. -/
theorem Reach.seenBy [Nonempty T] {cfg : EffectiveSinkConfig} {s₀ : SharedSink T}
    (hcreate : SharedSink.create deps cfg answers = some (parts, s₀))
    (hr : Reach (sharedStep deps answers parts) (Exclusive ok) s₀ s) :
    ∃ a₀ a, EffectiveSink.create deps cfg answers = some (parts, a₀) ∧
      Reach (sinkStep deps answers parts) (SinkEvent.Within ok) a₀ a ∧
      ∃ t, Alone s.store (some t) ∧ a = s.seenBy t := by
  obtain ⟨a₀, ha₀, hstore, hs₀⟩ := SharedSink.of_create hcreate
  obtain ⟨t₀⟩ := ‹Nonempty T›
  have hseen₀ := SharedSink.seenBy_of_create ha₀ hstore hs₀ t₀
  have hsteps : ∀ (s : SharedSink T) ev s' a,
      Reach (sinkStep deps answers parts) (SinkEvent.Within ok) a₀ a → Sees parts s a →
      Exclusive ok s ev → sharedStep deps answers parts s ev = some s' →
      ∃ a', Reach (sinkStep deps answers parts) (SinkEvent.Within ok) a₀ a' ∧ Sees parts s' a' := by
    rintro s ev s' a ha ⟨h, t, halone, rfl⟩ hok hstep
    obtain ⟨h', hmatched⟩ := h.step hok hstep
    obtain ⟨t', halone', hseen | ⟨ev', hok', hstep'⟩⟩ := hmatched t halone
    · exact ⟨_, hseen ▸ ha, h', t', halone', rfl⟩
    · exact ⟨_, ha.step hok' hstep', h', t', halone', rfl⟩
  have hsees₀ : Sees parts s₀ a₀ := ⟨SharedInv.create hstore hs₀, t₀,
    fun u _ => (StoreState.create_hist hstore).2 u, hseen₀.symm⟩
  obtain ⟨a, hr', -, hsees⟩ := hr.simulates hsees₀ hsteps
  exact ⟨a₀, a, ha₀, hr', hsees⟩

end LoggerHigh
