import LoggerHigh.Audit.SinkShards
import LoggerHigh.Mmap.StoreCalls

/-!
# Runs of a sink

What the sink's own steps add to those of its store: the store is called with the
frames of the messages logged, and the writer with what the store hands on.

## Main definitions

- `SinkMove` — the steps of `sinkStep`
- `SinkEvent.Within` — a condition on the steps inside the store
- `SinkInv` — the invariant
- `Created` — what `Create` has put together

## Main results

- `SinkMove.of_sinkStep` — every step is in the list
- `SinkInv.step` — every step keeps the invariant
- `Reach.within` — the store of a sink runs as a store does
- `Reach.sinkInv` — what holds in every state reached
-/

namespace LoggerHigh

open Transition

-- ═══════════════════════════════════════════════════════════════════════════
-- Steps
-- ═══════════════════════════════════════════════════════════════════════════

variable {deps : SinkDeps} {answers : SinkAnswers} {parts : SinkParts}

/-- The step `e` takes the store of `s` to `store`, and the files fit. -/
def EffectiveSink.StoreSteps (answers : SinkAnswers) (parts : SinkParts) (s : EffectiveSink)
    (e : StoreEvent Unit) (store : StoreState Unit PersistEnv) : Prop :=
  storeStep parts.storeConfig (persistCallback parts.writerConfig answers) s.store e = some store ∧
    store.env.writer.Fits

/-- The steps of a sink. -/
inductive SinkMove (deps : SinkDeps) (answers : SinkAnswers) (parts : SinkParts)
    (s : EffectiveSink) : SinkEvent → EffectiveSink → Prop
  | threw (ev : SinkEvent) (cipher : AesGcmCipher) (hkey : cipher.key = s.cipher.key) :
      SinkMove deps answers parts s ev { s with cipher := cipher }
  | logged (ev : SinkEvent) (entry : LogEntry) (cipher : AesGcmCipher)
      (store : StoreState Unit PersistEnv) (hkey : cipher.key = s.cipher.key)
      (hentry : entry.Encoded deps parts.compressor.level s.cipher.key)
      (hstore : s.StoreSteps answers parts (.append () (some entry.frame)) store) :
      SinkMove deps answers parts s ev ⟨cipher, store, s.phase, s.logged ++ [entry]⟩
  | store (ev : SinkEvent) (e : StoreEvent Unit) (store : StoreState Unit PersistEnv)
      (phase : SinkPhase) (hstore : s.StoreSteps answers parts e store)
      (hevent : ev = .inStore e ∨ e.inside = false) (hcall : ∀ data, e ≠ .append () data)
      (hphase : phase = .destroyed → s.phase = .destroyed) :
      SinkMove deps answers parts s ev { s with store := store, phase := phase }
  | finished (ev : SinkEvent) (hdestroyed : s.store.destroyed = true) :
      SinkMove deps answers parts s ev { s with phase := .destroyed }

variable {s s' s₀ : EffectiveSink} {ev : SinkEvent}

theorem EffectiveSink.stepStore_eq_some {e : StoreEvent Unit}
    (h : s.stepStore answers parts e = some s') :
    ∃ store, s.StoreSteps answers parts e store ∧ s' = { s with store := store } := by
  obtain ⟨store, hstep, hfits⟩ := Option.bind_eq_some_iff.mp h
  split at hfits
  · next hwriter =>
    cases hfits
    exact ⟨store, ⟨hstep, hwriter⟩, rfl⟩
  · cases hfits

/-- Every step is one of these. -/
theorem SinkMove.of_sinkStep (h : sinkStep deps answers parts s ev = some s') :
    SinkMove deps answers parts s ev s' := by
  cases ev with
  | log msg pid tid fuel =>
    rw [sinkStep] at h
    split at h
    · rw [EffectiveSink.log] at h
      split at h
      · cases h
      · next cipher hlog =>
        cases h
        exact .threw _ cipher (key_logFrame hlog)
      · next frame cipher hlog =>
        obtain ⟨store, hstore, rfl⟩ := EffectiveSink.stepStore_eq_some h
        exact .logged _ ⟨msg, pid, tid, frame⟩ cipher store (key_logFrame hlog)
          ⟨s.cipher, cipher, fuel, rfl, hlog⟩ hstore
    · cases h
  | flush =>
    rw [sinkStep] at h
    split at h
    · obtain ⟨store, hstore, rfl⟩ := EffectiveSink.stepStore_eq_some h
      exact .store _ (.flush ()) store s.phase hstore (.inr rfl) (by rintro data ⟨⟩) id
    · cases h
  | destroy =>
    rw [sinkStep] at h
    split at h
    · obtain ⟨store, hstore, rfl⟩ := EffectiveSink.stepStore_eq_some h
      exact .store _ (.flush ()) store .dtorFlush hstore (.inr rfl) (by rintro data ⟨⟩)
        (by rintro ⟨⟩)
    · cases h
  | advance =>
    rw [sinkStep] at h
    split at h
    · obtain ⟨store, hstore, rfl⟩ := EffectiveSink.stepStore_eq_some h
      exact .store _ (.destroy ()) store .dtorStore hstore (.inr rfl) (by rintro data ⟨⟩)
        (by rintro ⟨⟩)
    · split at h
      · next hphase =>
        cases h
        exact .finished _ hphase.2
      · cases h
  | inStore e =>
    rw [sinkStep] at h
    split at h
    · next hinside =>
      obtain ⟨store, hstore, rfl⟩ := EffectiveSink.stepStore_eq_some h
      refine .store _ e store s.phase hstore (.inl rfl) (fun data heq => ?_) id
      rw [heq] at hinside
      cases hinside
    · cases h

-- ═══════════════════════════════════════════════════════════════════════════
-- The invariant
-- ═══════════════════════════════════════════════════════════════════════════

/-- A step inside the store meets a condition. -/
def SinkEvent.Within (ok : StoreState Unit PersistEnv → StoreEvent Unit → Prop)
    (s : EffectiveSink) : SinkEvent → Prop
  | .inStore e => ok s.store e
  | _ => True

instance (ok : StoreState Unit PersistEnv → StoreEvent Unit → Prop)
    [∀ store e, Decidable (ok store e)] (s : EffectiveSink) :
    (ev : SinkEvent) → Decidable (ev.Within ok s)
  | .inStore e => inferInstanceAs (Decidable (ok s.store e))
  | .log _ _ _ _ | .flush | .destroy | .advance => isTrue trivial

/-- What is logged, what the store has been called with, and what the writer has been
called with. -/
structure SinkInv (deps : SinkDeps) (parts : SinkParts) (key : Bytes) (writer₀ : ShardWriter)
    (s : EffectiveSink) : Prop where
  cipher_key : s.cipher.key = key
  encoded : ∀ e ∈ s.logged, e.Encoded deps parts.compressor.level key
  called : called s.store.hist = s.logged.map LogEntry.frame
  calls : s.store.env.calls.map WriteCall.data = persisted s.store.hist
  length : ∀ c ∈ s.store.env.calls, FrameLength c.data
  written : run (writerStep parts.writerConfig) writer₀ s.store.env.calls = some s.store.env.writer
  destroyed : s.phase = .destroyed → s.store.destroyed = true

/-- A step of the store calls the writer with what it hands on. -/
theorem StoreMove.written {T : Type} [DecidableEq T] [Fintype T] {cfg : StoreConfig}
    {writerConfig : ShardWriterConfig} {store store' : StoreState T PersistEnv} {e : StoreEvent T}
    {writer₀ : ShardWriter}
    (hm : StoreMove cfg (persistCallback writerConfig answers) store e store')
    (hfits : store'.env.writer.Fits)
    (hcalls : store.env.calls.map WriteCall.data = persisted store.hist)
    (hlength : ∀ c ∈ store.env.calls, FrameLength c.data)
    (hrun : run (writerStep writerConfig) writer₀ store.env.calls = some store.env.writer) :
    store'.env.calls.map WriteCall.data = persisted store'.hist ∧
      (∀ c ∈ store'.env.calls, FrameLength c.data) ∧
      run (writerStep writerConfig) writer₀ store'.env.calls = some store'.env.writer := by
  rcases hm.env_cases with ⟨henv, hsame⟩ | ⟨p, hp, henv, hmore⟩
  · rw [henv, hsame]
    exact ⟨hcalls, hlength, hrun⟩
  · have henv : store'.env = ⟨onPersist writerConfig
        (answers.call store.env.calls.length p) store.env.writer,
        store.env.calls ++ [answers.call store.env.calls.length p]⟩ := henv
    rw [henv] at hfits ⊢
    refine ⟨?calls, ?length, ?written⟩
    case calls => rw [List.map_append, hcalls, hmore]; rfl
    case length =>
      intro c hc
      rcases List.mem_append.mp hc with hold | hnew
      · exact hlength c hold
      · rw [List.mem_singleton.mp hnew]
        exact hp
    case written => rw [run_append_of_eq _ hrun, run_singleton, writerStep, if_pos hfits]

/-- Every step keeps the invariant. -/
theorem SinkInv.step {key : Bytes} {writer₀ : ShardWriter} (h : SinkInv deps parts key writer₀ s)
    (hm : SinkMove deps answers parts s ev s') : SinkInv deps parts key writer₀ s' := by
  cases hm with
  | threw cipher hkey =>
    exact ⟨hkey.trans h.cipher_key, h.encoded, h.called, h.calls, h.length, h.written, h.destroyed⟩
  | logged entry cipher store hkey hentry hstore =>
    have hm := StoreMove.of_storeStep hstore.1
    obtain ⟨hcalls, hlength, hwritten⟩ := hm.written hstore.2 h.calls h.length h.written
    refine ⟨hkey.trans h.cipher_key, fun e he => ?encoded, ?called, hcalls, hlength, hwritten,
      fun hphase => hm.destroyed_mono (h.destroyed hphase)⟩
    case encoded =>
      rcases List.mem_append.mp he with hold | hnew
      · exact h.encoded e hold
      · rw [List.mem_singleton.mp hnew, ← h.cipher_key]
        exact hentry
    case called => rw [called_of_append hstore.1, h.called, List.map_append]; rfl
  | store e store phase hstore hevent hcall hphase =>
    have hm := StoreMove.of_storeStep hstore.1
    obtain ⟨hcalls, hlength, hwritten⟩ := hm.written hstore.2 h.calls h.length h.written
    exact ⟨h.cipher_key, h.encoded, (hm.called_eq fun _ => hcall).trans h.called, hcalls, hlength,
      hwritten, fun hdone => hm.destroyed_mono (h.destroyed (hphase hdone))⟩
  | finished hdestroyed =>
    exact ⟨h.cipher_key, h.encoded, h.called, h.calls, h.length, h.written, fun _ => hdestroyed⟩

-- ═══════════════════════════════════════════════════════════════════════════
-- Runs
-- ═══════════════════════════════════════════════════════════════════════════

/-- The store of a sink runs as a store does. -/
theorem Reach.within {ok : StoreState Unit PersistEnv → StoreEvent Unit → Prop}
    (houtside : ∀ store e, e.inside = false → ok store e)
    (hr : Reach (sinkStep deps answers parts) (SinkEvent.Within ok) s₀ s) :
    Reach (storeStep parts.storeConfig (persistCallback parts.writerConfig answers)) ok
      s₀.store s.store := by
  refine hr.invariant (I := fun s => Reach _ ok s₀.store s.store) .refl ?_
  intro s ev s' hreach hok hstep
  cases SinkMove.of_sinkStep hstep with
  | threw | finished => exact hreach
  | logged entry cipher store _ _ hstore => exact hreach.step (houtside _ _ rfl) hstore.1
  | store e store phase hstore hevent =>
    refine hreach.step ?_ hstore.1
    rcases hevent with rfl | hinside
    · exact hok
    · exact houtside _ _ hinside

/-- What `Create` has put together. -/
structure Created (deps : SinkDeps) (cfg : EffectiveSinkConfig) (answers : SinkAnswers)
    (parts : SinkParts) (s₀ : EffectiveSink) : Prop where
  agreed : ∃ serverPub shared,
    loadServerPublicKey cfg.serverPubKeyPath cfg.serverPubKeyFile = .ok serverPub ∧
    deriveSharedSecret deps.x25519 answers.ephPriv serverPub =
      .ok (parts.writerConfig.clientEphPub, shared) ∧
    deps.hkdfSha256 shared [] kSinkHkdfInfo 32 = .ok s₀.cipher.key
  construct : construct parts.writerConfig answers.firstOpening = some s₀.store.env.writer
  store : StoreState.create parts.storeConfig s₀.store.env = some s₀.store
  storeConfig : parts.storeConfig = cfg.storeConfig
  fresh : s₀.store.env.calls = [] ∧ s₀.phase = .inUse ∧ s₀.logged = []

theorem eq_ok_of_toOption {ε α : Type} {r : Except ε α} {a : α} (h : r.toOption = some a) :
    r = .ok a := by
  cases r with
  | error what => cases h
  | ok b => exact congrArg Except.ok (Option.some.inj h)

/-- Accepted arguments are those of the configuration. -/
theorem clientEphPub_of_checkArguments {limit : UInt64} {pub : Bytes} {dirCreated : Bool}
    {cfg : ShardWriterConfig} (h : checkArguments limit pub dirCreated = .ok cfg) :
    cfg.clientEphPub = pub := by
  rw [checkArguments] at h
  split at h
  · split at h
    · split at h
      · cases h
        rfl
      · cases h
    · cases h
  · cases h

/-- A new store works on what it has been given. -/
theorem env_of_create {σ : Type*} {cfg : StoreConfig} {env : σ} {s : StoreState Unit σ}
    (h : StoreState.create cfg env = some s) : s.env = env := by
  rw [StoreState.create] at h
  split at h <;> cases h
  rfl

/-- Behind a successful `Create` all parts have been constructed. -/
theorem Created.of_create {cfg : EffectiveSinkConfig}
    (h : EffectiveSink.create deps cfg answers = some (parts, s₀)) :
    Created deps cfg answers parts s₀ := by
  simp only [EffectiveSink.create, Option.bind_eq_bind, Option.bind_eq_some_iff] at h
  obtain ⟨serverPub, hload, ⟨pub, shared⟩, hagree, aesKey, hkey, compressor, hcompressor,
    writerConfig, hcheck, writer, hwriter, store, hstore, hlength⟩ := h
  split at hlength
  · cases hlength
    have henv := env_of_create hstore
    refine ⟨⟨serverPub, shared, eq_ok_of_toOption hload, ?_, eq_ok_of_toOption hkey⟩, ?_, ?_, rfl,
      ?_, rfl, rfl⟩
    · rw [clientEphPub_of_checkArguments (eq_ok_of_toOption hcheck)]
      exact eq_ok_of_toOption hagree
    · rw [henv]
      exact hwriter
    · rw [henv]
      exact hstore
    · rw [henv]
  · cases hlength

/-- The invariant holds in every state a sink reaches. -/
theorem Reach.sinkInv {cfg : EffectiveSinkConfig} {ok : EffectiveSink → SinkEvent → Prop}
    (hcreated : Created deps cfg answers parts s₀)
    (hr : Reach (sinkStep deps answers parts) ok s₀ s) :
    SinkInv deps parts s₀.cipher.key s₀.store.env.writer s := by
  refine hr.invariant (I := SinkInv deps parts s₀.cipher.key s₀.store.env.writer) ?_
    fun s ev s' h _ hstep => h.step (SinkMove.of_sinkStep hstep)
  obtain ⟨hcalls, hphase, hlogged⟩ := hcreated.fresh
  obtain ⟨hhist, -⟩ := StoreState.create_hist hcreated.store
  refine ⟨rfl, ?_, ?_, ?_, ?_, ?_, ?_⟩
  · rw [hlogged]
    exact List.forall_mem_nil _
  · rw [hlogged, hhist]
    rfl
  · rw [hcalls, hhist]
    rfl
  · rw [hcalls]
    exact List.forall_mem_nil _
  · rw [hcalls]
    rfl
  · rw [hphase]
    rintro ⟨⟩

end LoggerHigh
