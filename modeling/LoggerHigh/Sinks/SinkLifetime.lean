import LoggerHigh.Sinks.EvictionThread

/-!
# The life of a sink

The constructor and the destructor of `EffectiveSink`, with the parts that call one
another: the thread of the evictor calls back into the shard writer, and so do the drains
of the store. Members are destroyed in the reverse order of their declaration, also when
the constructor throws.

## Main definitions

- `LifeStage` — how far the constructor or the destructor is
- `SinkLife`, `SinkLife.step` — the three parts, and every step
- `LifeInv` — which part exists at which stage

## Main results

- `LifeInv.step` — every step keeps the invariant
- `sink_lifetime` — who calls back into the writer finds it
- `sink_destroyed` — the end of a sink is reached, whatever throws on the way
-/

namespace LoggerHigh

open Transition

-- ═══════════════════════════════════════════════════════════════════════════
-- The machine
-- ═══════════════════════════════════════════════════════════════════════════

/-- The stages of the constructor, of a sink in use, of the body of the destructor, and of
the destruction of the members. -/
inductive LifeStage
  | makeWriter
  | makeEvictor
  | callStart
  | starting
  | makeStore
  | inUse
  | flushStore
  | flushWriter
  | callStop
  | stopping
  | dropStore
  | dropEvictor
  | droppingEvictor
  | dropWriter
  | gone
  deriving DecidableEq

/-- `shard_writer_`, `evictor_` and `mmap_store_`, as far as they exist. -/
structure SinkLife where
  stage : LifeStage
  writer : Bool
  evictor : Option EvictionThread
  store : Bool
  deriving DecidableEq

/-- Before the constructor makes the first of them. -/
def SinkLife.initial : SinkLife := ⟨.makeWriter, false, none, false⟩

/-- `advance ok` is the next statement of the constructor or the destructor, which throws
if the flag is false; `inEvictor` is a step inside the evictor. -/
inductive LifeEvent
  | advance (ok : Bool)
  | inEvictor (e : ThreadEvent)
  deriving DecidableEq

/-- The event is a call of a member function of the evictor. -/
def ThreadEvent.isCall : ThreadEvent → Bool
  | .start | .spawn _ | .stop | .destroy => true
  | .owner | .thread | .timeout | .spurious => false

namespace SinkLife

variable (s : SinkLife)

/-- The sink goes on at `stage` with a step of the evictor. -/
def stepEvictor (stage : LifeStage) (e : ThreadEvent) : Option SinkLife :=
  (s.evictor.bind fun r => r.step e).map fun r => { s with stage := stage, evictor := some r }

/-- The evictor's owner is at this place. -/
def OwnerAt (pc : OwnerPc) : Prop := s.evictor.map EvictionThread.owner = some pc

instance (pc : OwnerPc) : Decidable (s.OwnerAt pc) := inferInstanceAs (Decidable (_ = _))

/-- Every step. What the body of the destructor throws is caught, and the members that have
been made are destroyed. -/
def step : LifeEvent → Option SinkLife
  | .advance ok =>
    match s.stage with
    | .makeWriter =>
      some (if ok then { s with stage := .makeEvictor, writer := true }
        else { s with stage := .gone })
    | .makeEvictor =>
      some (if ok then { s with stage := .callStart, evictor := some .initial }
        else { s with stage := .dropWriter })
    | .callStart => s.stepEvictor .starting .start
    | .starting => s.stepEvictor (if ok then .makeStore else .dropStore) (.spawn ok)
    | .makeStore =>
      some (if ok then { s with stage := .inUse, store := true }
        else { s with stage := .dropStore })
    | .inUse => some { s with stage := .flushStore }
    | .flushStore => some { s with stage := if ok then .flushWriter else .dropStore }
    | .flushWriter => some { s with stage := if ok then .callStop else .dropStore }
    | .callStop => s.stepEvictor .stopping .stop
    | .stopping => if s.OwnerAt .idle then some { s with stage := .dropStore } else none
    | .dropStore => some { s with stage := .dropEvictor, store := false }
    | .dropEvictor => s.stepEvictor .droppingEvictor .destroy
    | .droppingEvictor =>
      if s.OwnerAt .gone then some { s with stage := .dropWriter, evictor := none } else none
    | .dropWriter => some { s with stage := .gone, writer := false }
    | .gone => none
  | .inEvictor e => if e.isCall then none else s.stepEvictor s.stage e

end SinkLife

-- ═══════════════════════════════════════════════════════════════════════════
-- The invariant
-- ═══════════════════════════════════════════════════════════════════════════

/-- The shard writer exists. -/
def LifeStage.hasWriter : LifeStage → Bool
  | .makeWriter | .gone => false
  | _ => true

/-- The evictor exists. -/
def LifeStage.hasEvictor : LifeStage → Bool
  | .makeWriter | .makeEvictor | .dropWriter | .gone => false
  | _ => true

/-- The store may exist. -/
def LifeStage.mayStore : LifeStage → Bool
  | .inUse | .flushStore | .flushWriter | .callStop | .stopping | .dropStore => true
  | _ => false

/-- The owner is inside the `Stop` that its caller, or the destructor, has called. -/
def OwnerPc.inStop (dtor : Bool) (pc : OwnerPc) : Prop :=
  pc = .locking dtor ∨ pc = .setting dtor ∨ pc = .notifying dtor ∨ pc = .joining dtor ∨
    pc = .storing dtor

/-- Where the sink is in the evictor. -/
def LifeStage.InEvictor (pc : OwnerPc) : LifeStage → Prop
  | .starting => pc = .spawning
  | .stopping => pc = .idle ∨ pc.inStop false
  | .droppingEvictor => pc.inStop true ∨ pc = .destroying ∨ pc = .gone
  | _ => pc = .idle

/-- Which part exists, and where the sink is in the evictor. -/
structure LifeInv (s : SinkLife) : Prop where
  writer : s.writer = s.stage.hasWriter
  evictor : s.evictor.isSome = s.stage.hasEvictor
  store : s.store = true → s.stage.mayStore = true
  thread : ∀ r ∈ s.evictor, ThreadInv r
  owner : ∀ r ∈ s.evictor, s.stage.InEvictor r.owner
  fresh : s.stage = .callStart → s.evictor = some .initial

variable {s s' : SinkLife} {ev : LifeEvent} {r r' : EvictionThread}

/-- Before its constructor a sink has no parts. -/
theorem LifeInv.initial : LifeInv .initial := by
  constructor <;> simp [SinkLife.initial, LifeStage.hasWriter, LifeStage.hasEvictor]

/-- The owner stays in its `Stop` or returns from it, or the destructor ends. -/
theorem ThreadInv.owner_cases (h : ThreadInv r) (hstep : r.ownerStep = some r') :
    (∃ dtor, r.owner.inStop dtor ∧
      (r'.owner.inStop dtor ∨ r'.owner = if dtor then .destroying else .idle)) ∨
    r.owner = .destroying ∧ r'.owner = .gone := by
  have hjoined := h.unthreaded
  rw [EvictionThread.ownerStep] at hstep
  cases hpc : r.owner with
  | locking dtor | setting dtor | notifying dtor | joining dtor | storing dtor =>
    refine .inl ⟨dtor, by simp [OwnerPc.inStop], ?_⟩
    simp only [hpc] at hstep
    grind [OwnerPc.inStop]
  | destroying =>
    simp only [hpc, hjoined (by rw [hpc]; rfl)] at hstep
    cases hstep
    exact .inr ⟨rfl, rfl⟩
  | idle | spawning | gone | terminated =>
    simp only [hpc] at hstep
    cases hstep

/-- A step inside the evictor leaves its owner at a place that belongs to the stage. -/
theorem ThreadInv.inEvictor_step (h : ThreadInv r) {e : ThreadEvent} {stage : LifeStage}
    (he : e.isCall = false) (hstep : r.step e = some r') (hin : stage.InEvictor r.owner) :
    stage.InEvictor r'.owner := by
  cases e with
  | start | spawn ok | stop | destroy => cases he
  | owner =>
    rcases h.owner_cases hstep with ⟨dtor, hpc, hpc'⟩ | ⟨hpc, hpc'⟩
    · cases dtor <;> cases stage <;>
        simp only [LifeStage.InEvictor] at hin ⊢ <;> grind [OwnerPc.inStop]
    · cases stage <;> simp_all [LifeStage.InEvictor, OwnerPc.inStop]
  | thread =>
    rw [(EvictionThread.loopStep_work hstep).1]
    exact hin
  | timeout | spurious =>
    rw [EvictionThread.step] at hstep
    split at hstep <;> cases hstep
    exact hin

/-- The sink and the evictor take a step together. -/
theorem SinkLife.stepEvictor_eq_some {stage : LifeStage} {e : ThreadEvent}
    (h : s.stepEvictor stage e = some s') :
    ∃ r r', s.evictor = some r ∧ r.step e = some r' ∧
      s' = { s with stage := stage, evictor := some r' } := by
  obtain ⟨r', hr', rfl⟩ := Option.map_eq_some_iff.mp h
  obtain ⟨r, hr, hstep⟩ := Option.bind_eq_some_iff.mp hr'
  exact ⟨r, r', hr, hstep, rfl⟩

/-- The sink goes on to a stage at which it has the same parts, with a step of the evictor. -/
theorem LifeInv.stepEvictor (h : LifeInv s) {stage : LifeStage} {e : ThreadEvent}
    (hstep : s.stepEvictor stage e = some s') (hwriter : s.stage.hasWriter = stage.hasWriter)
    (hevictor : stage.hasEvictor = true) (hstore : s.store = true → stage.mayStore = true)
    (howner : ∀ {r r'}, s.evictor = some r → ThreadInv r → s.stage.InEvictor r.owner →
      r.step e = some r' → stage.InEvictor r'.owner)
    (hfresh : stage ≠ .callStart) : LifeInv s' := by
  obtain ⟨r, r', hr, hr', rfl⟩ := SinkLife.stepEvictor_eq_some hstep
  refine ⟨h.writer.trans hwriter, hevictor.symm, hstore, ?thread, ?owner,
    fun heq => absurd heq hfresh⟩
  case thread =>
    rintro _ ⟨⟩
    exact (h.thread r hr).step hr'
  case owner =>
    rintro _ ⟨⟩
    exact howner hr (h.thread r hr) (h.owner r hr) hr'

/-- A step inside the evictor keeps the invariant. -/
theorem LifeInv.inEvictor (h : LifeInv s) {e : ThreadEvent} (he : e.isCall = false)
    (hstep : s.stepEvictor s.stage e = some s') : LifeInv s' := by
  obtain ⟨r, r', hr, hr', -⟩ := SinkLife.stepEvictor_eq_some hstep
  refine h.stepEvictor hstep rfl ?_ h.store
    (fun _ hinv hin hstep => hinv.inEvictor_step he hstep hin) fun hstage => ?_
  · rw [← h.evictor, hr]
    rfl
  · -- Nothing goes on inside an evictor that has not been started.
    obtain rfl := Option.some.inj (hr.symm.trans (h.fresh hstage))
    cases e with
    | start | spawn ok | stop | destroy => cases he
    | owner | thread | timeout | spurious => cases hr'

/-- The sink goes on by itself, with the same parts but for the store. -/
theorem LifeInv.goto (h : LifeInv s) {stage : LifeStage} {store : Bool}
    (hwriter : s.stage.hasWriter = stage.hasWriter)
    (hevictor : s.stage.hasEvictor = stage.hasEvictor)
    (hstore : store = true → stage.mayStore = true)
    (howner : ∀ r, s.evictor = some r → s.stage.InEvictor r.owner → stage.InEvictor r.owner)
    (hfresh : stage ≠ .callStart) : LifeInv { s with stage := stage, store := store } :=
  ⟨h.writer.trans hwriter, h.evictor.trans hevictor, hstore, h.thread,
    fun r hr => howner r hr (h.owner r hr), fun heq => absurd heq hfresh⟩

/-- A call of the evictor keeps the invariant, or there is none. -/
theorem LifeInv.call (h : LifeInv s) {ok : Bool} (hstage : s.stage = .callStart ∨
      s.stage = .starting ∨ s.stage = .callStop ∨ s.stage = .dropEvictor)
    (hstep : s.step (.advance ok) = some s') : LifeInv s' := by
  have hstore := h.store
  rcases hstage with hstage | hstage | hstage | hstage
  all_goals simp only [SinkLife.step, hstage] at hstep
  · refine h.stepEvictor hstep (by rw [hstage]; rfl) rfl (by simp_all [LifeStage.mayStore]) ?_
      (by simp)
    intro r r' hr _ _ hr'
    obtain rfl := Option.some.inj (hr.symm.trans (h.fresh hstage))
    cases hr'
    rfl
  · have hempty : s.store = false := by simpa [hstage, LifeStage.mayStore] using hstore
    refine h.stepEvictor hstep ?_ ?_ (by simp [hempty]) ?_ ?_
    · cases ok <;> rw [hstage] <;> rfl
    · cases ok <;> rfl
    · intro r r' _ hr hin hr'
      have hpc : r.owner = .spawning := by simpa [hstage, LifeStage.InEvictor] using hin
      have hjoinable : r.joinable = false := hr.unthreaded (by rw [hpc]; rfl)
      cases ok <;> simp only [EvictionThread.step, hpc, hjoinable] at hr' <;> cases hr' <;> rfl
    · cases ok <;> simp
  · refine h.stepEvictor hstep (by rw [hstage]; rfl) rfl (fun _ => rfl) ?_ (by simp)
    intro r r' _ _ hin hr'
    have hpc : r.owner = .idle := by simpa [hstage, LifeStage.InEvictor] using hin
    simp only [EvictionThread.step, hpc, if_true] at hr'
    cases hr'
    split
    · exact .inr (.inl rfl)
    · exact .inl hpc
  · have hempty : s.store = false := by simpa [hstage, LifeStage.mayStore] using hstore
    refine h.stepEvictor hstep (by rw [hstage]; rfl) rfl (by simp [hempty]) ?_ (by simp)
    intro r r' _ _ hin hr'
    have hpc : r.owner = .idle := by simpa [hstage, LifeStage.InEvictor] using hin
    simp only [EvictionThread.step, hpc, if_true] at hr'
    cases hr'
    dsimp only
    split
    · exact .inl (.inl rfl)
    · exact .inr (.inl rfl)

/-- Every step keeps the invariant. -/
theorem LifeInv.step (h : LifeInv s) (hstep : s.step ev = some s') : LifeInv s' := by
  cases ev with
  | inEvictor e =>
    rw [SinkLife.step] at hstep
    split at hstep
    · cases hstep
    · next he => exact h.inEvictor (Bool.eq_false_iff.mpr he) hstep
  | advance ok =>
    cases hstage : s.stage with
    | callStart => exact h.call (.inl hstage) hstep
    | starting => exact h.call (.inr (.inl hstage)) hstep
    | callStop => exact h.call (.inr (.inr (.inl hstage))) hstep
    | dropEvictor => exact h.call (.inr (.inr (.inr hstage))) hstep
    | makeStore | inUse | flushStore | flushWriter | dropStore =>
      have hstore := h.store
      simp only [SinkLife.step, hstage] at hstep
      cases ok <;> cases hstep
      all_goals
        refine h.goto (by rw [hstage]; rfl) (by rw [hstage]; rfl) ?_ ?_ (by simp)
        · simp_all [LifeStage.mayStore]
        · simp [hstage, LifeStage.InEvictor]
    | stopping =>
      simp only [SinkLife.step, hstage] at hstep
      split at hstep <;> cases hstep
      next hidle =>
        refine h.goto (by rw [hstage]; rfl) (by rw [hstage]; rfl) (fun _ => rfl) ?_ (by simp)
        intro r hr _
        rw [SinkLife.OwnerAt, hr] at hidle
        exact Option.some.inj hidle
    | makeWriter | makeEvictor | dropWriter =>
      have hnone : s.evictor = none := by simpa [hstage, LifeStage.hasEvictor] using h.evictor
      have hwriter := h.writer
      have hstore := h.store
      simp only [SinkLife.step, hstage] at hstep
      cases ok <;> cases hstep <;> constructor <;>
        simp_all [LifeStage.hasWriter, LifeStage.hasEvictor, LifeStage.mayStore,
          LifeStage.InEvictor, ThreadInv.initial, EvictionThread.owner_initial]
    | droppingEvictor =>
      have hwriter := h.writer
      have hstore := h.store
      simp only [SinkLife.step, hstage] at hstep
      split at hstep <;> cases hstep
      constructor <;> simp_all [LifeStage.hasWriter, LifeStage.hasEvictor, LifeStage.mayStore]
    | gone =>
      simp only [SinkLife.step, hstage] at hstep
      cases hstep

/-- The invariant holds in every state reached. -/
theorem LifeInv.of_reach {ok : SinkLife → LifeEvent → Prop}
    (hr : Reach SinkLife.step ok .initial s) : LifeInv s :=
  hr.invariant .initial fun _ _ _ h _ hstep => h.step hstep

/-- The evictor is destroyed only behind the end of its thread. -/
theorem LifeInv.ended (h : LifeInv s) (hr : s.evictor = some r) (hstep : s.step ev = some s')
    (hnone : s'.evictor = none) : r.loop = .ended := by
  have hevictor : ∀ {stage e}, s.stepEvictor stage e = some s' → False := by
    intro stage e hcall
    obtain ⟨_, _, -, -, rfl⟩ := SinkLife.stepEvictor_eq_some hcall
    cases hnone
  cases ev with
  | inEvictor e =>
    rw [SinkLife.step] at hstep
    split at hstep
    · cases hstep
    · exact (hevictor hstep).elim
  | advance ok =>
    cases hstage : s.stage with
    | droppingEvictor =>
      simp only [SinkLife.step, hstage, SinkLife.OwnerAt, hr] at hstep
      split at hstep <;> cases hstep
      next hgone =>
        have hpc : r.owner = .gone := Option.some.inj hgone
        have hinv := h.thread r hr
        exact hinv.ended (hinv.unthreaded (by rw [hpc]; rfl))
    | callStart | starting | callStop | dropEvictor =>
      simp only [SinkLife.step, hstage] at hstep
      exact (hevictor hstep).elim
    | makeWriter | makeEvictor | dropWriter | gone =>
      have hsome := h.evictor
      rw [hr, hstage] at hsome
      cases hsome
    | makeStore | inUse | flushStore | flushWriter | dropStore | stopping =>
      simp only [SinkLife.step, hstage] at hstep
      first
        | cases ok <;> cases hstep <;> cases hr.symm.trans hnone
        | split at hstep <;> cases hstep; cases hr.symm.trans hnone

/-- The stages that are left until the sink is gone. -/
def LifeStage.left : LifeStage → ℕ
  | .flushStore => 8
  | .flushWriter => 7
  | .callStop => 6
  | .stopping => 5
  | .dropStore => 4
  | .dropEvictor => 3
  | .droppingEvictor => 2
  | .dropWriter => 1
  | .makeWriter | .makeEvictor | .callStart | .starting | .makeStore | .inUse | .gone => 0

/-- What is left to do in the evictor. -/
def EvictionThread.rest (r : EvictionThread) : ℕ :=
  r.work + if r.owner = .destroying then 1 else 0

/-- What is left to do until the sink is gone. -/
def SinkLife.work (s : SinkLife) : ℕ :=
  100 * s.stage.left + (s.evictor.map EvictionThread.rest).getD 0

/-- The wait of the evictor's thread does not end by itself before `stop_` is set, nor
afterwards unless the flag is true. -/
def PatientLife (mayWake : Bool) (s : SinkLife) : LifeEvent → Prop
  | .advance _ => True
  | .inEvictor e => ∀ r ∈ s.evictor, Patient mayWake r e

theorem OwnerPc.inStop.left_pos {dtor : Bool} {pc : OwnerPc} (h : pc.inStop dtor) :
    0 < pc.left := by
  rcases h with rfl | rfl | rfl | rfl | rfl
  all_goals exact Nat.succ_pos _

theorem EvictionThread.rest_le (r : EvictionThread) : r.rest ≤ 10 * r.owner.left + 8 := by
  have hloop := r.loopLeft_le
  rw [rest, work]
  split <;> omega

theorem SinkLife.work_le (s : SinkLife) : s.work ≤ 100 * s.stage.left + 58 := by
  cases hr : s.evictor with
  | none => simp [work, hr]
  | some r =>
    have hrest := r.rest_le
    have howner : r.owner.left ≤ 5 := by cases r.owner <;> simp [OwnerPc.left]
    simp only [work, hr, Option.map_some, Option.getD_some]
    omega

/-- A later stage outweighs what is left to do in the evictor. -/
theorem SinkLife.work_lt (h : s'.stage.left < s.stage.left) : s'.work < s.work := by
  have hle := s'.work_le
  have hge : 100 * s.stage.left ≤ s.work := Nat.le_add_right _ _
  omega

/-- A step inside the evictor lowers what is left to do in it. -/
theorem ThreadInv.rest_lt {mayWake : Bool} (h : ThreadInv r) {e : ThreadEvent}
    (he : e.isCall = false) (hok : Patient mayWake r e) (hstep : r.step e = some r') :
    r'.rest < r.rest := by
  cases e with
  | start | spawn ok | stop | destroy => cases he
  | thread =>
    obtain ⟨howner, hlt⟩ := EvictionThread.loopStep_work hstep
    rw [EvictionThread.rest, EvictionThread.rest, howner]
    exact Nat.add_lt_add_right hlt _
  | timeout | spurious =>
    have hstop : r.stop = true := (hok (by simp)).1
    rw [EvictionThread.step] at hstep
    split at hstep <;> cases hstep
    next hwaiting =>
      simp [EvictionThread.rest, EvictionThread.work, EvictionThread.loopLeft, hstop, hwaiting,
        LoopPc.toEnd]
  | owner =>
    have hstep : r.ownerStep = some r' := hstep
    by_cases hin : 0 < r.owner.left
    · have hlt := (h.left_ownerStep hin hstep).1
      have hle := r'.rest_le
      have hge : 10 * r.owner.left ≤ r.rest := (Nat.le_add_right _ _).trans (Nat.le_add_right _ _)
      omega
    · rcases h.owner_cases hstep with ⟨dtor, hpc, -⟩ | ⟨hpc, hpc'⟩
      · exact absurd hpc.left_pos hin
      · rw [EvictionThread.ownerStep, hpc] at hstep
        cases hstep
        simp_all [EvictionThread.rest, EvictionThread.work, EvictionThread.loopLeft, OwnerPc.left]

/-- Short of its end, a sink that is being destroyed can go on. -/
theorem LifeInv.can_step (h : LifeInv s) (mayWake : Bool) (hleft : 0 < s.stage.left) :
    ∃ ev s', PatientLife mayWake s ev ∧ s.step ev = some s' := by
  have hadvance : s.step (.advance true) ≠ none →
      ∃ ev s', PatientLife mayWake s ev ∧ s.step ev = some s' := fun hne => by
    obtain ⟨s', hs'⟩ := Option.ne_none_iff_exists'.mp hne
    exact ⟨.advance true, s', trivial, hs'⟩
  have hinside : ∀ {r e}, s.evictor = some r → e = .owner ∨ e = .thread → r.step e ≠ none →
      ∃ ev s', PatientLife mayWake s ev ∧ s.step ev = some s' := by
    intro r e hr he hne
    obtain ⟨r', hr'⟩ := Option.ne_none_iff_exists'.mp hne
    refine ⟨.inEvictor e, { s with evictor := some r' }, ?_, ?_⟩
    · intro _ _ hnever
      rcases he with rfl | rfl <;> simp at hnever
    · rcases he with rfl | rfl <;>
        simp [SinkLife.step, ThreadEvent.isCall, SinkLife.stepEvictor, hr, hr']
  have hcalled : ∀ {r}, s.evictor = some r → 0 < r.owner.left →
      ∃ ev s', PatientLife mayWake s ev ∧ s.step ev = some s' := by
    intro r hr hin
    rcases (h.thread r hr).can_step hin with hne | hne
    · exact hinside hr (.inl rfl) hne
    · exact hinside hr (.inr rfl) hne
  have hsome : s.stage.hasEvictor = true → ∃ r, s.evictor = some r := fun hhas =>
    Option.isSome_iff_exists.mp (h.evictor.trans hhas)
  cases hstage : s.stage with
  | flushStore | flushWriter | dropStore | dropWriter =>
    apply hadvance
    simp [SinkLife.step, hstage]
  | callStop | dropEvictor =>
    obtain ⟨r, hr⟩ := hsome (by rw [hstage]; rfl)
    have hpc : r.owner = .idle := by simpa [hstage, LifeStage.InEvictor] using h.owner r hr
    apply hadvance
    simp [SinkLife.step, hstage, SinkLife.stepEvictor, hr, EvictionThread.step, hpc]
  | stopping =>
    obtain ⟨r, hr⟩ := hsome (by rw [hstage]; rfl)
    have howner := h.owner r hr
    rw [hstage] at howner
    rcases howner with hpc | hpc
    · apply hadvance
      simp [SinkLife.step, hstage, SinkLife.OwnerAt, hr, hpc]
    · exact hcalled hr hpc.left_pos
  | droppingEvictor =>
    obtain ⟨r, hr⟩ := hsome (by rw [hstage]; rfl)
    have howner := h.owner r hr
    rw [hstage] at howner
    rcases howner with hpc | hpc | hpc
    · exact hcalled hr hpc.left_pos
    · refine hinside hr (.inl rfl) ?_
      simp [EvictionThread.step, EvictionThread.ownerStep, hpc]
    · apply hadvance
      simp [SinkLife.step, hstage, SinkLife.OwnerAt, hr, hpc]
  | makeWriter | makeEvictor | callStart | starting | makeStore | inUse | gone =>
    rw [hstage] at hleft
    cases hleft

/-- Every step of a sink that is being destroyed lowers what is left to do. -/
theorem LifeInv.work_step {mayWake : Bool} (h : LifeInv s) (hleft : 0 < s.stage.left)
    (hok : PatientLife mayWake s ev) (hstep : s.step ev = some s') :
    (s'.stage = .gone ∨ 0 < s'.stage.left) ∧ s'.work < s.work := by
  cases ev with
  | inEvictor e =>
    rw [SinkLife.step] at hstep
    split at hstep
    · cases hstep
    · next he =>
      obtain ⟨r, r', hr, hr', rfl⟩ := SinkLife.stepEvictor_eq_some hstep
      have hlt := (h.thread r hr).rest_lt (Bool.eq_false_iff.mpr he) (hok r hr) hr'
      refine ⟨.inr hleft, ?_⟩
      simp only [SinkLife.work, hr, Option.map_some, Option.getD_some]
      omega
  | advance ok =>
    suffices hstage : s'.stage.left < s.stage.left ∧ (s'.stage = .gone ∨ 0 < s'.stage.left) from
      ⟨hstage.2, SinkLife.work_lt hstage.1⟩
    cases hstage : s.stage with
    | flushStore | flushWriter | dropStore | dropWriter =>
      simp only [SinkLife.step, hstage] at hstep
      cases ok <;> cases hstep <;> simp [LifeStage.left]
    | callStop | dropEvictor =>
      simp only [SinkLife.step, hstage] at hstep
      obtain ⟨_, _, -, -, rfl⟩ := SinkLife.stepEvictor_eq_some hstep
      simp [LifeStage.left]
    | stopping | droppingEvictor =>
      simp only [SinkLife.step, hstage] at hstep
      split at hstep <;> cases hstep
      simp [LifeStage.left]
    | makeWriter | makeEvictor | callStart | starting | makeStore | inUse | gone =>
      rw [hstage] at hleft
      cases hleft

/-- Whatever the thread of the evictor is doing, and whatever the body of the destructor or
the constructor of the store has thrown: once the destructor runs, or the members are being
destroyed, the sink comes to its end, if `Flush` and the destructors of the other parts
return. The wait of the thread must not end by itself until `stop_` is set. -/
theorem sink_destroyed (mayWake : Bool) (hr : Reach SinkLife.step (fun _ _ => True) .initial s)
    (hleft : 0 < s.stage.left) :
    Inevitable SinkLife.step (PatientLife mayWake) (fun s' => s'.stage = .gone) s := by
  refine Inevitable.of_measure (I := fun s => LifeInv s ∧ 0 < s.stage.left) SinkLife.work ?can
    ?less ⟨LifeInv.of_reach hr, hleft⟩
  case can => exact fun s ⟨h, hleft⟩ _ => h.can_step mayWake hleft
  case less =>
    rintro s ev s' ⟨h, hleft⟩ - hok hstep
    obtain ⟨hnext, hlt⟩ := h.work_step hleft hok hstep
    exact hnext.imp_right fun hleft' => ⟨⟨h.step hstep, hleft'⟩, hlt⟩

/-- The constructor of the store throws while the thread of the evictor sweeps. -/
def storeThrows : List LifeEvent :=
  List.replicate 4 (.advance true) ++ List.replicate 3 (.inEvictor .thread) ++
    [.inEvictor .timeout] ++ List.replicate 3 (.inEvictor .thread) ++ [.advance false]

theorem run_storeThrows : ∃ s r, run SinkLife.step .initial storeThrows = some s ∧
    s.evictor = some r ∧ r.loop = .sweeping ∧ s.stage = .dropStore :=
  ⟨_, _, rfl, rfl, rfl, rfl⟩

/-- And the sink comes to its end. -/
theorem sink_destroyed_store_throws : ∃ (s : SinkLife) (r : EvictionThread),
    s.evictor = some r ∧ r.loop = .sweeping ∧
      Inevitable SinkLife.step (PatientLife true) (fun s' => s'.stage = .gone) s := by
  obtain ⟨s, r, hrun, hr, hloop, hstage⟩ := run_storeThrows
  refine ⟨s, r, hr, hloop, sink_destroyed true (Reach.of_run hrun fun _ _ => trivial) ?_⟩
  rw [hstage]
  decide

end LoggerHigh
