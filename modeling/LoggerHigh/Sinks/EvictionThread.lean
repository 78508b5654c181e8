import Mathlib.Order.Nat
import LoggerHigh.Lib.Transition

/-!
# The thread of the eviction runner

`EvictionRunner::Start`, `Stop`, its destructor and `RunLoop_`. The object has one owner,
whose calls do not overlap; the thread it starts runs beside it. The two share `mu_`,
`stop_` and `cv_`, and `started_` says whether there is a thread to join.

## Main definitions

- `OwnerPc`, `LoopPc` — where the owner and the thread are
- `EvictionThread`, `EvictionThread.step` — the members, and every step
- `ThreadInv` — who holds `mu_`, and when there is a thread to join
- `EvictionThread.work` — what is left to do once `stop_` is set

## Main results

- `ThreadInv.step` — every step keeps the invariant
- `runner_joined` — a thread that was started has ended when nobody can join it any more
- `sweeps_end` — once `stop_` is set no sweep begins
- `stop_returns` — `Stop` returns, whether or not the wait times out
-/

namespace LoggerHigh

open Transition

-- ═══════════════════════════════════════════════════════════════════════════
-- The machine
-- ═══════════════════════════════════════════════════════════════════════════

/-- Where the owner is. The flag of a place in `Stop` says whether the destructor has
called it. -/
inductive OwnerPc
  /-- Outside. -/
  | idle
  /-- `Start`, behind the exchange on `started_`. -/
  | spawning
  /-- `Stop`, about to lock `mu_`. -/
  | locking (dtor : Bool)
  /-- `Stop`, with `mu_` locked. -/
  | setting (dtor : Bool)
  /-- `Stop`, about to call `notify_all`. -/
  | notifying (dtor : Bool)
  /-- `Stop`, about to look at `thread_`, or in `join`. -/
  | joining (dtor : Bool)
  /-- `Stop`, about to clear `started_`. -/
  | storing (dtor : Bool)
  /-- The destructor, about to destroy the members. -/
  | destroying
  /-- The object is gone. -/
  | gone
  /-- `std::terminate` has been called. -/
  | terminated
  deriving DecidableEq

/-- Where `RunLoop_` is. -/
inductive LoopPc
  /-- About to lock `mu_` for the first time. -/
  | entering
  /-- At `while (!stop_)`. -/
  | top
  /-- In `wait_for`, at the predicate. -/
  | checking (timedOut : Bool)
  /-- In `wait_for`, with `mu_` unlocked. -/
  | waiting
  /-- In `wait_for`, about to lock `mu_` again. -/
  | woken (timedOut : Bool)
  /-- Behind `wait_for`. -/
  | waited
  /-- In `SweepOnce_`. -/
  | sweeping
  /-- Behind `SweepOnce_`, about to lock `mu_`. -/
  | relocking
  /-- Behind the loop, about to unlock `mu_`. -/
  | leaving
  /-- There is no thread, or it has ended. -/
  | ended
  deriving DecidableEq

/-- The thread has `mu_` locked. -/
def LoopPc.locks : LoopPc → Bool
  | .top | .checking _ | .waited | .leaving => true
  | .entering | .waiting | .woken _ | .sweeping | .relocking | .ended => false

/-- What `notify_all` does to the thread. -/
def LoopPc.notified : LoopPc → LoopPc
  | .waiting => .woken false
  | pc => pc

/-- Who holds `mu_`. -/
inductive MuHolder
  | owner
  | thread
  deriving DecidableEq

/-- The members of `EvictionRunner` that change; `joinable` is that of `thread_`. `sweeps`
counts the calls of `SweepOnce_`. -/
structure EvictionThread where
  started : Bool
  stop : Bool
  mu : Option MuHolder
  joinable : Bool
  owner : OwnerPc
  loop : LoopPc
  sweeps : ℕ
  deriving DecidableEq

/-- The constructor. -/
def EvictionThread.initial : EvictionThread := ⟨false, false, none, false, .idle, .ended, 0⟩

theorem EvictionThread.owner_initial : EvictionThread.initial.owner = .idle := rfl

/-- The calls of the owner; `spawn` is the end of `Start`, where the constructor of
`std::thread` throws if the flag is false. `owner` and `thread` go on with what they are
in; the wait of the thread ends by itself with a `timeout`, or for no reason. -/
inductive ThreadEvent
  | start
  | spawn (ok : Bool)
  | stop
  | destroy
  | owner
  | thread
  | timeout
  | spurious
  deriving DecidableEq

namespace EvictionThread

variable (s : EvictionThread)

/-- The next step of `Stop`, and of the destructor behind it. -/
def ownerStep : Option EvictionThread :=
  match s.owner with
  | .locking dtor =>
    if s.mu = none then some { s with mu := some .owner, owner := .setting dtor } else none
  | .setting dtor => some { s with stop := true, mu := none, owner := .notifying dtor }
  | .notifying dtor => some { s with owner := .joining dtor, loop := s.loop.notified }
  | .joining dtor =>
    if s.joinable then
      if s.loop = .ended then some { s with joinable := false, owner := .storing dtor } else none
    else some { s with owner := .storing dtor }
  | .storing dtor => some { s with started := false, owner := if dtor then .destroying else .idle }
  | .destroying => some { s with owner := if s.joinable then .terminated else .gone }
  | .idle | .spawning | .gone | .terminated => none

/-- The next step of `RunLoop_`; what `SweepOnce_` throws is caught. -/
def loopStep : Option EvictionThread :=
  match s.loop with
  | .entering | .relocking =>
    if s.mu = none then some { s with mu := some .thread, loop := .top } else none
  | .top => some { s with loop := if s.stop then .leaving else .checking false }
  | .checking timedOut =>
    if s.stop ∨ timedOut then some { s with loop := .waited }
    else some { s with mu := none, loop := .waiting }
  | .woken timedOut =>
    if s.mu = none then some { s with mu := some .thread, loop := .checking timedOut } else none
  | .waited =>
    if s.stop then some { s with loop := .leaving }
    else some { s with mu := none, loop := .sweeping, sweeps := s.sweeps + 1 }
  | .sweeping => some { s with loop := .relocking }
  | .leaving => some { s with mu := none, loop := .ended }
  | .waiting | .ended => none

/-- Every step. A thread that is assigned to a joinable `thread_`, or a joinable `thread_`
that is destroyed, calls `std::terminate`. -/
def step : ThreadEvent → Option EvictionThread
  | .start =>
    if s.owner = .idle then
      some (if s.started then s else { s with started := true, owner := .spawning })
    else none
  | .spawn ok =>
    if s.owner = .spawning then
      if ok then
        if s.joinable then some { s with owner := .terminated }
        else some { s with joinable := true, owner := .idle, loop := .entering }
      else some { s with owner := .idle }
    else none
  | .stop =>
    if s.owner = .idle then some (if s.started then { s with owner := .locking false } else s)
    else none
  | .destroy =>
    if s.owner = .idle then
      some { s with owner := if s.started then .locking true else .destroying }
    else none
  | .owner => s.ownerStep
  | .thread => s.loopStep
  | .timeout => if s.loop = .waiting then some { s with loop := .woken true } else none
  | .spurious => if s.loop = .waiting then some { s with loop := .woken false } else none

end EvictionThread

-- ═══════════════════════════════════════════════════════════════════════════
-- The invariant
-- ═══════════════════════════════════════════════════════════════════════════

/-- The owner is at a place at which there is nothing to join. -/
def OwnerPc.unthreaded : OwnerPc → Bool
  | .spawning | .storing _ | .destroying | .gone => true
  | .idle | .locking _ | .setting _ | .notifying _ | .joining _ | .terminated => false

/-- The owner is in `Stop`, behind the section in which it sets `stop_`. -/
def OwnerPc.stopping : OwnerPc → Bool
  | .notifying _ | .joining _ | .storing _ => true
  | .idle | .spawning | .locking _ | .setting _ | .destroying | .gone | .terminated => false

/-- Who holds `mu_`; and `thread_` is joinable as long as its thread goes on, and only
between `Start` and `Stop`. A thread that waits with `stop_` set is about to be notified. -/
structure ThreadInv (s : EvictionThread) : Prop where
  owner_iff : s.mu = some .owner ↔ ∃ dtor, s.owner = .setting dtor
  thread_iff : s.mu = some .thread ↔ s.loop.locks = true
  ended : s.joinable = false → s.loop = .ended
  started : s.started = false → s.joinable = false
  unthreaded : s.owner.unthreaded = true → s.joinable = false
  spawning : s.owner = .spawning → s.started = true
  stopping : s.owner.stopping = true → s.stop = true
  waiting : s.stop = true → s.loop = .waiting → ∃ dtor, s.owner = .notifying dtor
  alive : s.owner ≠ .terminated

variable {s s' s₀ : EvictionThread} {ev : ThreadEvent}

/-- A new object has no thread. -/
theorem ThreadInv.initial : ThreadInv .initial := by
  constructor <;> simp [EvictionThread.initial, LoopPc.locks, OwnerPc.stopping]

/-- The owner goes on in `Stop` or the destructor. -/
theorem ThreadInv.ownerStep (h : ThreadInv s) (hstep : s.ownerStep = some s') : ThreadInv s' := by
  obtain ⟨howner, hthread, hended, hstarted, hunthreaded, hspawning, hstopping, hwaiting,
    halive⟩ := h
  rw [EvictionThread.ownerStep] at hstep
  cases hpc : s.owner with
  | locking dtor =>
    simp only [hpc] at hstep
    split at hstep <;> cases hstep
    constructor <;> simp_all [OwnerPc.unthreaded, OwnerPc.stopping]
  | setting dtor | destroying =>
    simp only [hpc] at hstep
    cases hstep
    constructor <;> simp_all [OwnerPc.unthreaded, OwnerPc.stopping]
  | notifying dtor =>
    simp only [hpc] at hstep
    cases hstep
    cases hloop : s.loop <;> constructor <;>
      simp_all [OwnerPc.unthreaded, OwnerPc.stopping, LoopPc.notified, LoopPc.locks]
  | joining dtor =>
    simp only [hpc] at hstep
    split at hstep
    · split at hstep <;> cases hstep
      constructor <;> simp_all [OwnerPc.unthreaded, OwnerPc.stopping]
    · cases hstep
      constructor <;> simp_all [OwnerPc.unthreaded, OwnerPc.stopping]
  | storing dtor =>
    simp only [hpc] at hstep
    cases hstep
    cases dtor <;> constructor <;> simp_all [OwnerPc.unthreaded, OwnerPc.stopping]
  | idle | spawning | gone | terminated =>
    simp only [hpc] at hstep
    cases hstep

/-- The thread goes on in `RunLoop_`. -/
theorem ThreadInv.loopStep (h : ThreadInv s) (hstep : s.loopStep = some s') : ThreadInv s' := by
  obtain ⟨howner, hthread, hended, hstarted, hunthreaded, hspawning, hstopping, hwaiting,
    halive⟩ := h
  rw [EvictionThread.loopStep] at hstep
  cases hpc : s.loop with
  | entering | relocking | woken timedOut | waited =>
    simp only [hpc] at hstep
    split at hstep <;> cases hstep <;> constructor <;> simp_all [LoopPc.locks]
  | checking timedOut =>
    simp only [hpc] at hstep
    split at hstep <;> cases hstep <;> constructor <;> simp_all [LoopPc.locks]
  | top =>
    simp only [hpc] at hstep
    cases hstep
    cases hstop : s.stop <;> constructor <;> simp_all [LoopPc.locks]
  | sweeping | leaving =>
    simp only [hpc] at hstep
    cases hstep
    constructor <;> simp_all [LoopPc.locks]
  | waiting | ended =>
    simp only [hpc] at hstep
    cases hstep

/-- Every step keeps the invariant. -/
theorem ThreadInv.step (h : ThreadInv s) (hstep : s.step ev = some s') : ThreadInv s' := by
  cases ev with
  | owner => exact h.ownerStep hstep
  | thread => exact h.loopStep hstep
  | start | stop | destroy =>
    rw [EvictionThread.step] at hstep
    split at hstep <;> cases hstep
    obtain ⟨howner, hthread, hended, hstarted, hunthreaded, hspawning, hstopping, hwaiting,
      halive⟩ := h
    cases hrun : s.started <;> constructor <;> simp_all [OwnerPc.unthreaded, OwnerPc.stopping]
  | spawn ok =>
    rw [EvictionThread.step] at hstep
    split at hstep
    case isFalse => cases hstep
    next hpc =>
      obtain ⟨howner, hthread, hended, hstarted, hunthreaded, hspawning, hstopping, hwaiting,
        halive⟩ := h
      have hjoinable : s.joinable = false := hunthreaded (by rw [hpc]; rfl)
      cases ok <;> simp only [hjoinable] at hstep <;> cases hstep <;> constructor <;>
        simp_all [OwnerPc.unthreaded, OwnerPc.stopping, LoopPc.locks]
  | timeout | spurious =>
    rw [EvictionThread.step] at hstep
    split at hstep <;> cases hstep
    obtain ⟨howner, hthread, hended, hstarted, hunthreaded, hspawning, hstopping, hwaiting,
      halive⟩ := h
    constructor <;> simp_all [LoopPc.locks]

/-- The invariant holds in every state reached. -/
theorem ThreadInv.of_reach {ok : EvictionThread → ThreadEvent → Prop}
    (hr : Reach EvictionThread.step ok .initial s) : ThreadInv s :=
  hr.invariant .initial fun _ _ _ h _ hstep => h.step hstep

-- ═══════════════════════════════════════════════════════════════════════════
-- No thread is left behind
-- ═══════════════════════════════════════════════════════════════════════════

/-- A step with `stop_` set leaves it set and begins no sweep. -/
theorem EvictionThread.sweeps_step (hstop : s.stop = true) (hstep : s.step ev = some s') :
    s'.stop = true ∧ s'.sweeps = s.sweeps := by
  cases ev with
  | owner =>
    have howner : s.ownerStep = some s' := hstep
    grind [ownerStep]
  | thread =>
    have hloop : s.loopStep = some s' := hstep
    grind [loopStep]
  | start | stop | destroy | spawn | timeout | spurious => grind [step]

/-- `Start`, `Stop` and the destructor are called in any order, any number of times, the
creation of a thread may throw, and the waits end when they like. Then `std::terminate` is
never called; whenever `started_` is false, and when the object is destroyed, no thread
goes on; and from the moment on in which `stop_` is set, no sweep begins, not even after
another `Start`. -/
theorem runner_joined (hr : Reach EvictionThread.step (fun _ _ => True) .initial s) :
    s.owner ≠ .terminated ∧
      (s.started = false ∨ s.owner = .destroying ∨ s.owner = .gone → s.loop = .ended) ∧
      (s.stop = true → ∀ s', Reach EvictionThread.step (fun _ _ => True) s s' →
        s'.sweeps = s.sweeps) := by
  have h := ThreadInv.of_reach hr
  refine ⟨h.alive, ?ended, fun hstop s' hr' => ?sweeps⟩
  case ended =>
    rintro (hstarted | hpc | hpc)
    · exact h.ended (h.started hstarted)
    all_goals exact h.ended (h.unthreaded (by rw [hpc]; rfl))
  case sweeps =>
    refine (hr'.invariant (I := fun s' => s'.stop = true ∧ s'.sweeps = s.sweeps) ⟨hstop, rfl⟩ ?_).2
    rintro s₁ ev s₂ ⟨hstop₁, hsame⟩ - hstep
    obtain ⟨hstop₂, hsame₂⟩ := EvictionThread.sweeps_step hstop₁ hstep
    exact ⟨hstop₂, hsame₂.trans hsame⟩

-- ═══════════════════════════════════════════════════════════════════════════
-- Stop returns
-- ═══════════════════════════════════════════════════════════════════════════

/-- The steps of `Stop` that are left. -/
def OwnerPc.left : OwnerPc → ℕ
  | .locking _ => 5
  | .setting _ => 4
  | .notifying _ => 3
  | .joining _ => 2
  | .storing _ => 1
  | .idle | .spawning | .destroying | .gone | .terminated => 0

/-- The steps of the thread up to its end, once `stop_` is set. -/
def LoopPc.toEnd : LoopPc → ℕ
  | .waiting => 5
  | .woken _ | .sweeping => 4
  | .checking _ | .entering | .relocking => 3
  | .top | .waited => 2
  | .leaving => 1
  | .ended => 0

/-- The steps of the thread up to its next wait. -/
def LoopPc.toWait : LoopPc → ℕ
  | .woken timedOut => if timedOut then 7 else 2
  | .checking timedOut => if timedOut then 6 else 1
  | .waited => 5
  | .sweeping => 4
  | .entering | .relocking => 3
  | .top => 2
  | .leaving => 1
  | .waiting | .ended => 0

/-- The steps of the thread up to its end, or up to its next wait. -/
def EvictionThread.loopLeft (s : EvictionThread) : ℕ :=
  if s.stop then s.loop.toEnd else s.loop.toWait

/-- What is left to do until `Stop` returns. The section that sets `stop_` may lengthen the
way of the thread, but not by as much as it counts. -/
def EvictionThread.work (s : EvictionThread) : ℕ := 10 * s.owner.left + s.loopLeft

/-- Until `stop_` is set, the wait of the thread does not end by itself, and afterwards it
may do so if the flag is true. -/
def Patient (mayWake : Bool) (s : EvictionThread) (ev : ThreadEvent) : Prop :=
  ev = .timeout ∨ ev = .spurious → s.stop = true ∧ mayWake = true

instance (mayWake : Bool) (s : EvictionThread) (ev : ThreadEvent) :
    Decidable (Patient mayWake s ev) :=
  inferInstanceAs (Decidable (_ → _))

/-- `Stop` has returned, to its caller or to the destructor, and the thread has ended. -/
def EvictionThread.Returned (s : EvictionThread) : Prop :=
  (s.owner = .idle ∨ s.owner = .destroying) ∧ s.loop = .ended

/-- A thread that neither waits nor has ended goes on if `mu_` is free or its own. -/
theorem EvictionThread.loopStep_ne_none (hmu : s.mu = none ∨ s.loop.locks = true)
    (hwait : s.loop ≠ .waiting) (hended : s.loop ≠ .ended) : s.loopStep ≠ none := by
  cases hloop : s.loop with
  | waiting => exact absurd hloop hwait
  | ended => exact absurd hloop hended
  | entering | relocking | woken timedOut =>
    have hfree : s.mu = none := by simpa [hloop, LoopPc.locks] using hmu
    simp [loopStep, hloop, hfree]
  | top | sweeping | leaving => simp [loopStep, hloop]
  | checking timedOut | waited =>
    rw [loopStep, hloop]
    dsimp only
    split <;> simp

/-- Unless the owner holds `mu_`, it is free or the thread's. -/
theorem ThreadInv.mu_cases (h : ThreadInv s) (hpc : ∀ dtor, s.owner ≠ .setting dtor) :
    s.mu = none ∨ s.loop.locks = true := by
  cases hmu : s.mu with
  | none => exact .inl rfl
  | some holder =>
    cases holder with
    | owner =>
      obtain ⟨dtor, hdtor⟩ := h.owner_iff.mp hmu
      exact absurd hdtor (hpc dtor)
    | thread => exact .inr (h.thread_iff.mp hmu)

/-- In `Stop`, the owner or the thread can go on. -/
theorem ThreadInv.can_step (h : ThreadInv s) (hin : 0 < s.owner.left) :
    s.ownerStep ≠ none ∨ s.loopStep ≠ none := by
  cases hpc : s.owner with
  | setting dtor | notifying dtor | storing dtor =>
    left
    simp [EvictionThread.ownerStep, hpc]
  | locking dtor =>
    rcases h.mu_cases (by simp [hpc]) with hfree | hlocks
    · left
      simp [EvictionThread.ownerStep, hpc, hfree]
    · right
      apply EvictionThread.loopStep_ne_none (.inr hlocks)
      all_goals
        intro heq
        simp [heq, LoopPc.locks] at hlocks
  | joining dtor =>
    by_cases hended : s.loop = .ended
    · left
      cases hjoinable : s.joinable <;> simp [EvictionThread.ownerStep, hpc, hended, hjoinable]
    · right
      apply EvictionThread.loopStep_ne_none (h.mu_cases (by simp [hpc])) _ hended
      intro hwait
      obtain ⟨_, hnotifying⟩ := h.waiting (h.stopping (by rw [hpc]; rfl)) hwait
      cases hpc.symm.trans hnotifying
  | idle | spawning | destroying | gone | terminated =>
    rw [hpc] at hin
    cases hin

theorem LoopPc.toEnd_le (pc : LoopPc) : pc.toEnd ≤ 7 := by
  cases pc <;> simp [toEnd]

theorem LoopPc.toWait_le (pc : LoopPc) : pc.toWait ≤ 7 := by
  cases pc with
  | woken timedOut | checking timedOut => cases timedOut <;> simp [toWait]
  | _ => simp [toWait]

theorem EvictionThread.loopLeft_le (s : EvictionThread) : s.loopLeft ≤ 7 := by
  rw [loopLeft]
  split
  · exact s.loop.toEnd_le
  · exact s.loop.toWait_le

/-- A step of `Stop` outweighs what it does to the thread. -/
theorem EvictionThread.work_lt (h : s'.owner.left < s.owner.left) : s'.work < s.work := by
  have hbound := s'.loopLeft_le
  rw [work, work]
  omega

/-- In `Stop`, a step of the owner is one of those that are left, and perhaps the last. -/
theorem ThreadInv.left_ownerStep (h : ThreadInv s) (hin : 0 < s.owner.left)
    (hstep : s.ownerStep = some s') :
    s'.owner.left < s.owner.left ∧ (s'.Returned ∨ 0 < s'.owner.left) := by
  have hstored := h.unthreaded
  rw [EvictionThread.ownerStep] at hstep
  cases hpc : s.owner with
  | storing dtor =>
    simp only [hpc] at hstep
    cases hstep
    refine ⟨by cases dtor <;> simp [OwnerPc.left], .inl ⟨?_, h.ended (hstored (by rw [hpc]; rfl))⟩⟩
    cases dtor <;> simp
  | locking dtor =>
    simp only [hpc] at hstep
    split at hstep <;> cases hstep
    simp [OwnerPc.left]
  | setting dtor | notifying dtor =>
    simp only [hpc] at hstep
    cases hstep
    simp [OwnerPc.left]
  | joining dtor =>
    have howner : s'.owner = .storing dtor := by
      simp only [hpc] at hstep
      split at hstep
      · split at hstep <;> cases hstep
        rfl
      · cases hstep
        rfl
    simp [howner, OwnerPc.left]
  | idle | spawning | destroying | gone | terminated =>
    rw [hpc] at hin
    cases hin

/-- A step of the thread lowers the work. -/
theorem EvictionThread.loopStep_work (hstep : s.loopStep = some s') :
    s'.owner = s.owner ∧ s'.work < s.work := by
  rw [loopStep] at hstep
  cases hpc : s.loop with
  | entering | relocking =>
    simp only [hpc] at hstep
    split at hstep <;> cases hstep
    simp [work, loopLeft, hpc, LoopPc.toEnd, LoopPc.toWait]
  | woken timedOut =>
    simp only [hpc] at hstep
    split at hstep <;> cases hstep
    cases timedOut <;> simp [work, loopLeft, hpc, LoopPc.toEnd, LoopPc.toWait] <;> split <;> simp
  | top =>
    simp only [hpc] at hstep
    cases hstep
    cases hstop : s.stop <;> simp [work, loopLeft, hpc, hstop, LoopPc.toEnd, LoopPc.toWait]
  | checking timedOut =>
    simp only [hpc] at hstep
    split at hstep <;> cases hstep
    · cases timedOut <;> simp_all [work, loopLeft, LoopPc.toEnd, LoopPc.toWait]
      split <;> simp
    · simp_all [work, loopLeft, LoopPc.toWait]
  | waited =>
    simp only [hpc] at hstep
    split at hstep <;> cases hstep <;> simp_all [work, loopLeft, LoopPc.toEnd, LoopPc.toWait]
  | sweeping | leaving =>
    simp only [hpc] at hstep
    cases hstep
    simp [work, loopLeft, hpc, LoopPc.toEnd, LoopPc.toWait]
  | waiting | ended =>
    simp only [hpc] at hstep
    cases hstep

/-- In `Stop`, every step lowers the work, or `Stop` returns. -/
theorem ThreadInv.step_work {mayWake : Bool} (h : ThreadInv s) (hin : 0 < s.owner.left)
    (hok : Patient mayWake s ev) (hstep : s.step ev = some s') :
    s'.Returned ∨ 0 < s'.owner.left ∧ s'.work < s.work := by
  cases ev with
  | owner =>
    obtain ⟨hlt, hreturned⟩ := h.left_ownerStep hin hstep
    exact hreturned.imp_right fun hin' => ⟨hin', EvictionThread.work_lt hlt⟩
  | thread =>
    obtain ⟨howner, hlt⟩ := EvictionThread.loopStep_work hstep
    exact .inr ⟨howner ▸ hin, hlt⟩
  | start | stop | destroy | spawn ok =>
    -- The owner is in `Stop`, so it calls nothing.
    rw [EvictionThread.step] at hstep
    split at hstep
    · next hpc =>
      rw [hpc] at hin
      cases hin
    · cases hstep
  | timeout | spurious =>
    have hstop : s.stop = true := (hok (by simp)).1
    rw [EvictionThread.step] at hstep
    split at hstep <;> cases hstep
    next hwaiting =>
      refine .inr ⟨hin, ?_⟩
      simp [EvictionThread.work, EvictionThread.loopLeft, hstop, hwaiting, LoopPc.toEnd]

/-- Wherever the thread is when the owner is in `Stop`, also in a sweep or about to wait:
`Stop` returns, and then the thread has ended. Until `stop_` is set the wait must not end by
itself; afterwards it may, but need not: no notification is lost. -/
theorem stop_returns (mayWake : Bool) (hr : Reach EvictionThread.step (fun _ _ => True) .initial s)
    (hin : 0 < s.owner.left) :
    Inevitable EvictionThread.step (Patient mayWake) EvictionThread.Returned s := by
  refine Inevitable.of_measure (I := fun s => ThreadInv s ∧ 0 < s.owner.left)
    EvictionThread.work ?can ?less ⟨ThreadInv.of_reach hr, hin⟩
  case can =>
    rintro s ⟨h, hin⟩ -
    rcases h.can_step hin with hstep | hstep
    · obtain ⟨s', hs'⟩ := Option.ne_none_iff_exists'.mp hstep
      exact ⟨.owner, s', by simp [Patient], hs'⟩
    · obtain ⟨s', hs'⟩ := Option.ne_none_iff_exists'.mp hstep
      exact ⟨.thread, s', by simp [Patient], hs'⟩
  case less =>
    rintro s ev s' ⟨h, hin⟩ - hok hstep
    rcases h.step_work hin hok hstep with hreturned | ⟨hin', hlt⟩
    · exact .inl hreturned
    · exact .inr ⟨⟨h.step hstep, hin'⟩, hlt⟩

/-- `Stop` while the thread sweeps, then `Start` again. -/
def stoppedInSweep : List ThreadEvent :=
  [.start, .spawn true] ++ List.replicate 3 .thread ++ [.timeout] ++ List.replicate 3 .thread ++
    [.stop] ++ List.replicate 3 .owner

theorem run_stoppedInSweep : ∃ s, run EvictionThread.step .initial stoppedInSweep = some s ∧
    s.loop = .sweeping ∧ s.stop = true ∧ 0 < s.owner.left ∧ s.sweeps = 1 :=
  ⟨_, rfl, rfl, rfl, by decide, rfl⟩

/-- The thread is in a sweep while the owner waits for it: no other sweep begins. -/
theorem runner_joined_in_sweep : ∃ s : EvictionThread, s.loop = .sweeping ∧
    s.owner ≠ .terminated ∧ ∀ s', Reach EvictionThread.step (fun _ _ => True) s s' →
      s'.sweeps = 1 := by
  obtain ⟨s, hrun, hloop, hstop, -, hsweeps⟩ := run_stoppedInSweep
  have hr : Reach EvictionThread.step (fun _ _ => True) .initial s :=
    Reach.of_run hrun fun _ _ => trivial
  obtain ⟨halive, -, hsame⟩ := runner_joined hr
  exact ⟨s, hloop, halive, hsweeps ▸ hsame hstop⟩

theorem stop_returns_in_sweep : ∃ s : EvictionThread, s.loop = .sweeping ∧
    Inevitable EvictionThread.step (Patient false) EvictionThread.Returned s := by
  obtain ⟨s, hrun, hloop, -, hin, -⟩ := run_stoppedInSweep
  exact ⟨s, hloop, stop_returns false (Reach.of_run hrun fun _ _ => trivial) hin⟩

end LoggerHigh
