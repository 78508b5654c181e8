import LoggerHigh.Mmap.StoreSerial
import LoggerHigh.Sinks.SharedSink

/-!
# Flush overlaps Log

`EffectiveSink::Flush` does not lock `pipeline_mu_`, so it goes on while another thread
is in `Log`, and so do several of them. `Append` is called with the mutex locked only:
its calls do not overlap, whatever `Flush` does.

## Main definitions

- `Overlapping` — the condition on the steps inside the store; there is none on the calls
- `SharedMove` — the steps of `sharedStep`, as far as the records go
- `MutexInv` — a thread inside `Append` has locked `pipeline_mu_`

## Main results

- `SharedMove.of_sharedStep` — every step is in the list
- `MutexInv.step` — every step keeps the mutex, and calls of `Append` come one by one
- `Reach.serial` — the store runs with calls of `Append` that do not overlap
- `Reach.seenInv` — what a thread sees of a sink in every state reached
-/

namespace LoggerHigh

open ThreadSum Transition

variable {T : Type}

/-- No slot is reserved in a recycled buffer, and the destructor's `Flush` is not cut short. -/
def Overlapping (s : SharedSink T) : SharedEvent T → Prop
  | .inStore e => ReservesLive s.store e ∧ KeepsLast s.store e
  | _ => True

instance (s : SharedSink T) : (ev : SharedEvent T) → Decidable (Overlapping s ev)
  | .inStore e => inferInstanceAs (Decidable (ReservesLive s.store e ∧ KeepsLast s.store e))
  | .log _ _ _ _ | .lock _ _ | .unlock _ | .flush _ | .flushed _ | .destroy _ | .advance _ =>
    isTrue trivial

variable [DecidableEq T] [Fintype T] {deps : SinkDeps} {answers : SinkAnswers}
  {parts : SinkParts} {cfg : EffectiveSinkConfig} {s s' s₀ : SharedSink T} {ev : SharedEvent T}
  {t : T}

-- ═══════════════════════════════════════════════════════════════════════════
-- Steps
-- ═══════════════════════════════════════════════════════════════════════════

/-- The steps of a shared sink: a thread goes somewhere without a call of `Append`, a call
of `Log` throws, one comes to `Append` while nobody holds the mutex, or the store takes
another step. -/
inductive SharedMove (deps : SinkDeps) (answers : SinkAnswers) (parts : SinkParts)
    (s : SharedSink T) : SharedEvent T → SharedSink T → Prop
  | quiet (ev : SharedEvent T) (t : T) (x : SharedPc) (hx : x ≠ .logging)
      (hidle : s.pc t ≠ .logging ∨ s.store.pc t = .idle) (mu : Option T)
      (hmu : mu = s.pipelineMu ∨ s.pc t = .logging) (calls : List (T × LogMsg))
      (cipher : AesGcmCipher) (threw : List T)
      (hthrew : cipher = s.cipher ∧ threw = s.threw ∨ threw = s.threw ++ [t] ∧
        ∃ msg pid tid fuel what, logFrame deps parts.compressor.level s.cipher msg pid tid fuel =
          some (.error what, cipher)) :
      SharedMove deps answers parts s ev
        { s with
          cipher := cipher, pipelineMu := mu, calls := calls, threw := threw
          pc := Function.update s.pc t x }
  | logged (ev : SharedEvent T) (t : T) (entry : LogEntry) (cipher : AesGcmCipher)
      (store : StoreState T PersistEnv) (hfree : s.pipelineMu = none)
      (hlog : ∃ fuel, logFrame deps parts.compressor.level s.cipher entry.msg entry.pid entry.tid
        fuel = some (.ok entry.frame, cipher))
      (hstore : s.StoreSteps answers parts (.append t (some entry.frame)) store) :
      SharedMove deps answers parts s ev
        { s with
          cipher := cipher, store := store, pipelineMu := some t
          logged := s.logged ++ [(t, entry)], pc := Function.update s.pc t .logging }
  | store (ev : SharedEvent T) (e : StoreEvent T) (store : StoreState T PersistEnv)
      (phase : SinkPhase) (pc : T → SharedPc) (hstore : s.StoreSteps answers parts e store)
      (hevent : ev = .inStore e ∨ (∃ t, e = .flush t) ∨ ∃ t, e = .destroy t)
      (hcall : ∀ t data, e ≠ .append t data)
      (hphase : phase = .destroyed → s.phase = .destroyed)
      (hpc : ∀ u, pc u = .logging ↔ s.pc u = .logging) :
      SharedMove deps answers parts s ev { s with store := store, phase := phase, pc := pc }
  | finished (ev : SharedEvent T) (hdestroyed : s.store.destroyed = true) :
      SharedMove deps answers parts s ev { s with phase := .destroyed }

omit [Fintype T] in
/-- Who is in `Log` when a thread goes from a place outside it to another one. -/
theorem SharedPc.logging_update {pc : T → SharedPc} {x : SharedPc} (ht : pc t ≠ .logging)
    (hx : x ≠ .logging) (u : T) : Function.update pc t x u = .logging ↔ pc u = .logging := by
  by_cases hut : u = t
  · rw [hut, Function.update_self]
    exact iff_of_false hx ht
  · rw [Function.update_of_ne hut]

/-- Every step is one of these. -/
theorem SharedMove.of_sharedStep (h : sharedStep deps answers parts s ev = some s') :
    SharedMove deps answers parts s ev s' := by
  cases ev with
  | log t msg pid tid =>
    rw [sharedStep] at h
    split at h
    case isFalse => cases h
    next hfree =>
      cases h
      exact .quiet _ t (.waiting msg pid tid) (by simp) (.inl (by simp [hfree.2])) _ (.inl rfl) _
        _ _ (.inl ⟨rfl, rfl⟩)
  | lock t fuel =>
    rw [sharedStep] at h
    split at h
    case h_2 => cases h
    next msg pid tid ht =>
      split at h
      case isFalse => cases h
      next hmutex =>
        rw [SharedSink.locked] at h
        split at h
        · cases h
        · next cipher hlog =>
          cases h
          exact .quiet _ t .outside (by simp) (.inl (by simp [ht])) _ (.inl rfl) _ cipher _
            (.inr ⟨rfl, msg, pid, tid, fuel, _, hlog⟩)
        · next frame cipher hlog =>
          obtain ⟨store, hstore, rfl⟩ := SharedSink.stepStore_eq_some h
          exact .logged _ t ⟨msg, pid, tid, frame⟩ cipher store hmutex ⟨fuel, hlog⟩ hstore
  | unlock t =>
    rw [sharedStep] at h
    split at h
    case isFalse => cases h
    next hdone =>
      cases h
      exact .quiet _ t .outside (by simp) (.inr hdone.2) none (.inr hdone.1) _ _ _ (.inl ⟨rfl, rfl⟩)
  | flush t =>
    rw [sharedStep] at h
    split at h
    case isFalse => cases h
    next hfree =>
      obtain ⟨store, hstore, rfl⟩ := SharedSink.stepStore_eq_some h
      exact .store _ (.flush t) store s.phase _ hstore (.inr (.inl ⟨t, rfl⟩)) (by simp) id
        (SharedPc.logging_update (by simp [hfree.2]) (by simp))
  | flushed t =>
    rw [sharedStep] at h
    split at h
    case isFalse => cases h
    next hdone =>
      cases h
      exact .quiet _ t .outside (by simp) (.inr hdone.2) _ (.inl rfl) _ _ _ (.inl ⟨rfl, rfl⟩)
  | destroy t =>
    rw [sharedStep] at h
    split at h
    case isFalse => cases h
    next hfree =>
      obtain ⟨store, hstore, rfl⟩ := SharedSink.stepStore_eq_some h
      exact .store _ (.flush t) store .dtorFlush _ hstore (.inr (.inl ⟨t, rfl⟩)) (by simp) (by simp)
        (SharedPc.logging_update (by simp [hfree.2 t]) (by simp))
  | advance t =>
    rw [sharedStep] at h
    split at h
    case isFalse => cases h
    next hclosing =>
      split at h
      · obtain ⟨store, hstore, rfl⟩ := SharedSink.stepStore_eq_some h
        exact .store _ (.destroy t) store .dtorStore s.pc hstore (.inr (.inr ⟨t, rfl⟩)) (by simp)
          (by simp) fun _ => .rfl
      · split at h
        · next hover =>
          cases h
          exact .finished _ hover.2
        · cases h
  | inStore e =>
    rw [sharedStep] at h
    split at h
    case isFalse => cases h
    next hinside =>
      obtain ⟨store, hstore, rfl⟩ := SharedSink.stepStore_eq_some h
      refine .store _ e store s.phase s.pc hstore (.inl rfl) (fun t data heq => ?_) id
        fun _ => .rfl
      rw [heq] at hinside
      exact hinside

-- ═══════════════════════════════════════════════════════════════════════════
-- The mutex
-- ═══════════════════════════════════════════════════════════════════════════

/-- A thread inside `Append` is in `Log`, and a thread behind the lock in `Log` holds
`pipeline_mu_`. -/
structure MutexInv (s : SharedSink T) : Prop where
  logging : ∀ t, (s.store.pc t).appending ≠ [] → s.pc t = .logging
  mutex : ∀ t, s.pc t = .logging → s.pipelineMu = some t

omit [DecidableEq T] [Fintype T] in
/-- While nobody holds the mutex, no thread is inside `Append`. -/
theorem MutexInv.oneAppend (h : MutexInv s) (hfree : s.pipelineMu = none) {data : Option Bytes} :
    OneAppend s.store (.append t data) := by
  intro u
  by_contra hu
  cases hfree.symm.trans (h.mutex u (h.logging u hu))

omit [Fintype T] in
/-- Behind a step of the store, a thread is inside `Append` only if it was before, or has
just called it. -/
theorem StoreMove.appending_cases {cfg : StoreConfig}
    {onPersist : PersistEnv → Bytes → PersistEnv × Bool} {store store' : StoreState T PersistEnv}
    {e : StoreEvent T} (hm : StoreMove cfg onPersist store e store') {u : T}
    (hu : (store'.pc u).appending ≠ []) :
    (store.pc u).appending ≠ [] ∨ ∃ data, e = .append u data := by
  cases hm.callChange with
  | same obs hhist haccepted hrejected hcalled hpc => exact .inl (hpc u ▸ hu)
  | null t data he hpc hhist => exact .inl (hpc ▸ hu)
  | call t data d he hpc hhist =>
    by_cases hut : u = t
    · exact .inr ⟨data, by rw [hut]; exact he⟩
    · rw [hpc, Function.update_of_ne hut] at hu
      exact .inl hu
  | ret t d ok hbusy hpc hhist =>
    by_cases hut : u = t
    · rw [hpc, hut, Function.update_self] at hu
      exact absurd rfl hu
    · rw [hpc, Function.update_of_ne hut] at hu
      exact .inl hu

/-- Every step keeps the mutex. -/
theorem MutexInv.step (h : MutexInv s) (hm : SharedMove deps answers parts s ev s') :
    MutexInv s' := by
  cases hm with
  | quiet t x hx hidle mu hmu =>
    constructor
    · intro u hu
      have hlogging := h.logging u hu
      have hut : u ≠ t := by
        rintro rfl
        apply hu
        rcases hidle with hne | hidle
        · exact absurd hlogging hne
        · show (s.store.pc u).appending = []
          rw [hidle]
          rfl
      exact (Function.update_of_ne hut _ _).trans hlogging
    · intro u hu
      rcases update_cases hu with ⟨-, heq⟩ | ⟨hut, hold⟩
      · exact absurd heq hx
      · rcases hmu with hsame | hlogging
        · exact hsame.trans (h.mutex u hold)
        · have hboth := (h.mutex u hold).symm.trans (h.mutex t hlogging)
          exact absurd (Option.some.inj hboth) hut
  | logged t entry cipher store hfree hlog hstore =>
    have hnone : ∀ u, s.pc u ≠ .logging := fun u hu => by
      cases hfree.symm.trans (h.mutex u hu)
    constructor
    · intro u hu
      rcases (StoreMove.of_storeStep hstore.1).appending_cases hu with hold | ⟨data, he⟩
      · exact absurd (h.logging u hold) (hnone u)
      · cases he
        exact Function.update_self _ _ _
    · intro u hu
      rcases update_cases hu with ⟨rfl, -⟩ | ⟨-, hold⟩
      · rfl
      · exact absurd hold (hnone u)
  | store e store phase pc hstore hevent hcall hphase hpc =>
    constructor
    · intro u hu
      rcases (StoreMove.of_storeStep hstore.1).appending_cases hu with hold | ⟨data, he⟩
      · exact (hpc u).mpr (h.logging u hold)
      · exact absurd he (hcall u data)
    · exact fun u hu => h.mutex u ((hpc u).mp hu)
  | finished => exact ⟨h.logging, h.mutex⟩

omit [DecidableEq T] [Fintype T] in
/-- Nobody is in a new sink. -/
theorem MutexInv.create (hcreate : SharedSink.create deps cfg answers = some (parts, s)) :
    MutexInv s := by
  obtain ⟨a, -, hstore, hs⟩ := SharedSink.of_create hcreate
  have hidle := (StoreState.create_hist hstore).2
  constructor
  · intro t ht
    rw [hidle t] at ht
    exact absurd rfl ht
  · intro t ht
    rw [hs] at ht
    cases ht

/-- A step of the sink is one of its store that calls `Append` only when no thread is
inside it, or none. -/
theorem SharedMove.serial (hm : SharedMove deps answers parts s ev s') (h : MutexInv s)
    (hok : Overlapping s ev) : s'.store = s.store ∨ ∃ e, SerialStep s.store e ∧
      storeStep parts.storeConfig (persistCallback parts.writerConfig answers) s.store e =
        some s'.store := by
  cases hm with
  | quiet | finished => exact .inl rfl
  | logged t entry cipher store hfree _ hstore =>
    exact .inr ⟨_, ⟨h.oneAppend hfree, trivial, fun _ => trivial⟩, hstore.1⟩
  | store e store phase pc hstore hevent hcall =>
    refine .inr ⟨e, ?_, hstore.1⟩
    rcases hevent with rfl | ⟨t, rfl⟩ | ⟨t, rfl⟩
    · refine ⟨?_, hok.1, hok.2⟩
      cases e with
      | append t data => exact absurd rfl (hcall t data)
      | _ => trivial
    all_goals exact ⟨trivial, trivial, fun _ => trivial⟩

/-- The store of a shared sink runs with calls of `Append` that do not overlap. -/
theorem Reach.serial (hcreate : SharedSink.create deps cfg answers = some (parts, s₀))
    (hr : Reach (sharedStep deps answers parts) Overlapping s₀ s) :
    Reach (storeStep parts.storeConfig (persistCallback parts.writerConfig answers)) SerialStep
      s₀.store s.store := by
  refine (hr.invariant (I := fun s => MutexInv s ∧ Reach _ SerialStep s₀.store s.store)
    ⟨MutexInv.create hcreate, .refl⟩ ?_).2
  rintro s ev s' ⟨hmutex, hreach⟩ hok hstep
  have hm := SharedMove.of_sharedStep hstep
  refine ⟨hmutex.step hm, ?_⟩
  rcases hm.serial hmutex hok with hsame | ⟨e, hserial, hstore⟩
  · rwa [hsame]
  · exact hreach.step hserial hstore

-- ═══════════════════════════════════════════════════════════════════════════
-- What a thread sees
-- ═══════════════════════════════════════════════════════════════════════════

/-- Every step keeps what holds of a sink that one thread uses. -/
theorem SharedMove.seenInv {key : Bytes} {writer₀ : ShardWriter}
    (hm : SharedMove deps answers parts s ev s') (h : SinkInv deps parts key writer₀ (s.seenBy t)) :
    SinkInv deps parts key writer₀ (s'.seenBy t) := by
  obtain ⟨hkey₀, hencoded, hcalled, hcalls, hlength, hwritten, hdestroyed⟩ := h
  have hcalled : called s.store.hist = (s.logged.map Prod.snd).map LogEntry.frame :=
    (called_map_solo _).symm.trans hcalled
  have hcalls : s.store.env.calls.map WriteCall.data = persisted s.store.hist :=
    hcalls.trans (persisted_map_solo _)
  have hstored : ∀ {store : StoreState T PersistEnv} {e : StoreEvent T},
      s.StoreSteps answers parts e store →
      store.env.calls.map WriteCall.data = persisted (store.hist.map Obs.solo) ∧
        (∀ c ∈ store.env.calls, FrameLength c.data) ∧
        run (writerStep parts.writerConfig) writer₀ store.env.calls = some store.env.writer := by
    intro store e hstore
    rw [persisted_map_solo]
    exact (StoreMove.of_storeStep hstore.1).written hstore.2 hcalls hlength hwritten
  cases hm with
  | quiet u x hx hidle mu hmu calls cipher threw hthrew =>
    refine ⟨?key, hencoded, (called_map_solo _).trans hcalled,
      hcalls.trans (persisted_map_solo _).symm, hlength, hwritten, hdestroyed⟩
    rcases hthrew with ⟨rfl, -⟩ | ⟨-, _, _, _, _, _, hlog⟩
    · exact hkey₀
    · exact (key_logFrame hlog).trans hkey₀
  | logged u entry cipher store hfree hlog hstore =>
    obtain ⟨fuel, hlog⟩ := hlog
    obtain ⟨hcalls', hlength', hwritten'⟩ := hstored hstore
    refine ⟨(key_logFrame hlog).trans hkey₀, fun e he => ?encoded, ?called, hcalls', hlength',
      hwritten',
      fun hphase => (StoreMove.of_storeStep hstore.1).destroyed_mono (hdestroyed hphase)⟩
    case encoded =>
      simp only [SharedSink.seenBy, List.map_append, List.mem_append, List.map_cons, List.map_nil,
        List.mem_singleton] at he
      rcases he with hold | rfl
      · exact hencoded e hold
      · exact ⟨s.cipher, cipher, fuel, hkey₀, hlog⟩
    case called =>
      simp only [SharedSink.seenBy, StoreState.solo, called_map_solo, called_of_append hstore.1,
        hcalled, List.map_append, List.map_cons, List.map_nil]
  | store e store phase pc hstore hevent hcall hphase =>
    obtain ⟨hcalls', hlength', hwritten'⟩ := hstored hstore
    have hm := StoreMove.of_storeStep hstore.1
    exact ⟨hkey₀, hencoded, (called_map_solo _).trans ((hm.called_eq hcall).trans hcalled), hcalls',
      hlength', hwritten', fun hdone => hm.destroyed_mono (hdestroyed (hphase hdone))⟩
  | finished hover =>
    exact ⟨hkey₀, hencoded, (called_map_solo _).trans hcalled,
      hcalls.trans (persisted_map_solo _).symm, hlength, hwritten, fun _ => hover⟩

/-- What a thread sees of a sink in every state reached. -/
theorem Reach.seenInv {ok : SharedSink T → SharedEvent T → Prop} (t : T)
    (hcreate : SharedSink.create deps cfg answers = some (parts, s₀))
    (hr : Reach (sharedStep deps answers parts) ok s₀ s) :
    ∃ a, Created deps cfg answers parts a ∧ s₀.seenBy t = a ∧
      SinkInv deps parts a.cipher.key a.store.env.writer (s.seenBy t) := by
  obtain ⟨a, ha, hstore, hs₀⟩ := SharedSink.of_create hcreate
  have hcreated := Created.of_create ha
  have hseen := SharedSink.seenBy_of_create ha hstore hs₀ t
  refine ⟨a, hcreated, hseen, ?_⟩
  refine hr.invariant (I := fun s => SinkInv deps parts _ _ (s.seenBy t)) ?_
    fun _ _ _ h _ hstep => (SharedMove.of_sharedStep hstep).seenInv h
  rw [hseen]
  have hnew : Reach (sinkStep deps answers parts) (fun _ _ => True) a a := .refl
  exact Reach.sinkInv hcreated hnew

end LoggerHigh
