import LoggerHigh.Lib.ThreadSum
import LoggerHigh.Lib.Transition

/-!
# Strands

A `Strand` runs the tasks posted to it one after the other on a pool. The model
has any number of threads; each has a stack of what it is doing for the strand,
since a task may post further tasks and a stopped pool runs what is posted to it
in the poster.

## Main definitions

- `Frame`, `StrandState`, `StrandEvent` — the state and the steps
- `StrandState.step` — `Enqueue_`, `Drain_` and the pool
- `StrandState.drains` — the calls of `Drain_` that are due, posted or under way

## Main results

- `StrandInv.step` — what every step preserves
- `strand_serial` — tasks run once, in order, one at a time, and none is stranded
-/

namespace LoggerHigh

open Transition

/-- What a thread is doing for the strand. -/
inductive Frame (τ : Type)
  /-- In `Enqueue_` with `start` set, before `PostDetached`. -/
  | posting
  /-- In `Drain_`, before its critical section. -/
  | drain
  /-- Inside a task called by `Drain_`. -/
  | task (x : τ)
  deriving DecidableEq, Repr

/-- The members of `Strand`, what the pool holds for it and what every thread is
doing; then the tasks pushed, begun and ended so far. -/
structure StrandState (T τ : Type) where
  tasks : List τ
  running : Bool
  /-- Closures posted to the pool that no worker has taken. -/
  posted : ℕ
  stopped : Bool
  stack : T → List (Frame τ)
  pushed : List τ
  started : List τ
  finished : List τ

/-- The steps. Outside of tasks a thread runs any other code. -/
inductive StrandEvent (T τ : Type)
  | enqueue (t : T) (x : τ)
  | post (t : T)
  | take (t : T)
  | turn (t : T)
  | finish (t : T) (threw : Bool)
  | stop

/-- A new strand on a running pool. -/
def StrandState.initial {T τ : Type} : StrandState T τ :=
  ⟨[], false, 0, false, fun _ => [], [], [], []⟩

section Step

variable {T τ : Type} [DecidableEq T]

/-- Other code may run: the thread is not inside `Enqueue_` or `Drain_` itself. -/
def CallsOut : List (Frame τ) → Bool
  | [] => true
  | .task _ :: _ => true
  | _ => false

/-- One step. -/
def StrandState.step (s : StrandState T τ) : StrandEvent T τ → Option (StrandState T τ)
  | .enqueue t x =>
    if CallsOut (s.stack t) then
      let s := { s with tasks := s.tasks ++ [x], pushed := s.pushed ++ [x] }
      if s.running then some s
      else some { s with
        running := true
        stack := Function.update s.stack t (.posting :: s.stack t) }
    else none
  | .post t =>
    match s.stack t with
    | .posting :: rest =>
      -- a stopped pool calls the closure here and now
      if s.stopped then some { s with stack := Function.update s.stack t (.drain :: rest) }
      else some { s with
        posted := s.posted + 1
        stack := Function.update s.stack t rest }
    | _ => none
  | .take t =>
    if 0 < s.posted ∧ (s.stack t).isEmpty then
      some { s with
        posted := s.posted - 1
        stack := Function.update s.stack t [.drain] }
    else none
  | .turn t =>
    match s.stack t with
    | .drain :: rest =>
      match s.tasks with
      | [] => some { s with
          running := false
          stack := Function.update s.stack t rest }
      | x :: xs => some { s with
          tasks := xs
          started := s.started ++ [x]
          stack := Function.update s.stack t (.task x :: .drain :: rest) }
    | _ => none
  | .finish t _ =>
    -- what the task throws is caught
    match s.stack t with
    | .task x :: rest => some { s with
        finished := s.finished ++ [x]
        stack := Function.update s.stack t rest }
    | _ => none
  | .stop => some { s with stopped := true }

end Step

/-- The calls of `Drain_` a thread is about to post or inside of. -/
def drainsOf {τ : Type} : List (Frame τ) → ℕ
  | [] => 0
  | .task _ :: rest => drainsOf rest
  | _ :: rest => drainsOf rest + 1

/-- The tasks a thread is inside of. -/
def tasksOf {τ : Type} : List (Frame τ) → List τ
  | [] => []
  | .task x :: rest => x :: tasksOf rest
  | _ :: rest => tasksOf rest

section Invariant

variable {T τ : Type} [Fintype T] [DecidableEq T]

/-- The calls of `Drain_` that are due, posted or under way. -/
def StrandState.drains (s : StrandState T τ) : ℕ :=
  s.posted + ThreadSum.total drainsOf s.stack

/-- The stacks that occur. -/
inductive StackShape : List (Frame τ) → Prop
  | idle : StackShape []
  | posting : StackShape [.posting]
  | draining : StackShape [.drain]
  | inTask (x : τ) : StackShape [.task x, .drain]

/-- What holds between any two steps. -/
structure StrandInv (s : StrandState T τ) : Prop where
  shape : ∀ t, StackShape (s.stack t)
  drains : s.drains = if s.running then 1 else 0
  idle : s.running = false → s.tasks = []
  order : s.pushed = s.started ++ s.tasks
  inside : ∀ t x, s.stack t = [.task x, .drain] → s.started = s.finished ++ [x]
  between : (∀ t, tasksOf (s.stack t) = []) → s.started = s.finished
  inhabited : s.running = true → Nonempty T

variable {s s' : StrandState T τ} {t u : T} {x : τ} {k : List (Frame τ)}

omit [Fintype T] [DecidableEq T] in
theorem StackShape.eq_nil (h : StackShape k) (hd : drainsOf k = 0) : k = [] := by
  cases h with
  | idle => rfl
  | _ => cases hd

omit [Fintype T] [DecidableEq T] in
theorem StackShape.drainsOf_pos (h : StackShape k) (hk : tasksOf k ≠ []) : drainsOf k = 1 := by
  cases h with
  | inTask => rfl
  | _ => exact absurd rfl hk

omit [DecidableEq T] in
theorem StrandInv.drains_le (h : StrandInv s) : s.drains ≤ 1 := by
  rw [h.drains]
  split <;> decide

omit [DecidableEq T] in
/-- While `running_` is false no thread is doing anything for the strand. -/
theorem StrandInv.stack_eq_nil (h : StrandInv s) (hrunning : s.running = false) (t : T) :
    s.stack t = [] ∧ s.posted = 0 := by
  have hdrains := h.drains
  have hle := ThreadSum.le_total drainsOf s.stack t
  rw [hrunning, if_neg Bool.false_ne_true, StrandState.drains] at hdrains
  exact ⟨(h.shape t).eq_nil (by omega), by omega⟩

/-- A thread with a `Drain_` is the only one that has any, and none is posted. -/
theorem StrandInv.only (h : StrandInv s) (ht : drainsOf (s.stack t) = 1) :
    s.running = true ∧ s.posted = 0 ∧ ∀ u, u ≠ t → s.stack u = [] := by
  have hdrains := h.drains
  have hle := ThreadSum.le_total drainsOf s.stack t
  have hone := h.drains_le
  rw [StrandState.drains] at hdrains hone
  refine ⟨?running, by omega, fun u hu => ?others⟩
  case running =>
    by_contra hfalse
    rw [if_neg hfalse] at hdrains
    omega
  case others =>
    have htwo := ThreadSum.add_le_total drainsOf s.stack hu
    exact (h.shape u).eq_nil (by omega)

/-- What is due, posted or under way after a move of one thread. -/
theorem drains_update (s : StrandState T τ) (t : T) (k : List (Frame τ)) :
    ThreadSum.total drainsOf (Function.update s.stack t k) + drainsOf (s.stack t) =
      ThreadSum.total drainsOf s.stack + drainsOf k :=
  ThreadSum.total_update drainsOf s.stack t k

omit [Fintype T] in
theorem shape_update (h : ∀ u, StackShape (s.stack u)) (hk : StackShape k) (u : T) :
    StackShape (Function.update s.stack t k u) := by
  by_cases hu : u = t
  · rw [hu, Function.update_self]
    exact hk
  · rw [Function.update_of_ne hu]
    exact h u

/-- A move that neither begins nor ends a task leaves the account of tasks alone. -/
theorem StrandInv.account_update (h : StrandInv s) (hstack : tasksOf (s.stack t) = [])
    (hk : tasksOf k = []) :
    (∀ u x, Function.update s.stack t k u = [.task x, .drain] → s.started = s.finished ++ [x]) ∧
      ((∀ u, tasksOf (Function.update s.stack t k u) = []) → s.started = s.finished) := by
  constructor
  · intro u x hu
    rcases ThreadSum.update_cases hu with ⟨-, rfl⟩ | ⟨-, hu⟩
    · cases hk
    · exact h.inside u x hu
  · intro hall
    refine h.between fun u => ?_
    rw [← hall u]
    exact (ThreadSum.apply_update (hk.trans hstack.symm) u).symm

/-- `Enqueue_`: the critical section. -/
theorem StrandInv.enqueue (h : StrandInv s) (hstep : s.step (.enqueue t x) = some s') :
    StrandInv s' := by
  simp only [StrandState.step] at hstep
  split at hstep
  · split at hstep
    · next hrunning =>
      cases hstep
      refine ⟨h.shape, h.drains, fun hfalse => ?idle, ?order, h.inside, h.between, h.inhabited⟩
      case idle =>
        rw [hrunning] at hfalse
        cases hfalse
      case order => rw [← List.append_assoc, ← h.order]
    · next hrunning =>
      cases hstep
      have hrunning : s.running = false := Bool.eq_false_iff.mpr hrunning
      have hdrains := h.drains
      rw [hrunning, if_neg Bool.false_ne_true, StrandState.drains] at hdrains
      have hnil : s.stack t = [] := (h.stack_eq_nil hrunning t).1
      have hmove := drains_update s t [.posting]
      have haccount := h.account_update (t := t) (k := [.posting]) (by rw [hnil]; rfl) rfl
      rw [hnil] at hmove ⊢
      refine ⟨shape_update h.shape .posting, ?drains, fun hfalse => (by cases hfalse), ?order,
        haccount.1, haccount.2, fun _ => ⟨t⟩⟩
      case drains =>
        show s.posted + ThreadSum.total drainsOf (Function.update s.stack t [.posting]) = 1
        change _ + 0 = _ + 1 at hmove
        omega
      case order => rw [← List.append_assoc, ← h.order]
  · cases hstep

/-- The posting of a closure, to the queue of the pool or at once. -/
theorem StrandInv.post (h : StrandInv s) (hstep : s.step (.post t) = some s') : StrandInv s' := by
  simp only [StrandState.step] at hstep
  split at hstep
  · next rest hstack =>
    have hrest : rest = [] := by
      have hshape := h.shape t
      rw [hstack] at hshape
      cases hshape
      rfl
    subst hrest
    have hdrains := h.drains
    rw [StrandState.drains] at hdrains
    split at hstep
    · cases hstep
      have hmove := drains_update s t [.drain]
      have haccount := h.account_update (t := t) (k := [.drain]) (by rw [hstack]; rfl) rfl
      rw [hstack] at hmove
      change _ + 1 = _ + 1 at hmove
      refine ⟨shape_update h.shape .draining, ?_, h.idle, h.order, haccount.1, haccount.2,
        h.inhabited⟩
      show s.posted + ThreadSum.total drainsOf (Function.update s.stack t [.drain]) =
        if s.running then 1 else 0
      omega
    · cases hstep
      have hmove := drains_update s t []
      have haccount := h.account_update (t := t) (k := []) (by rw [hstack]; rfl) rfl
      rw [hstack] at hmove
      change _ + 1 = _ + 0 at hmove
      refine ⟨shape_update h.shape .idle, ?_, h.idle, h.order, haccount.1, haccount.2,
        h.inhabited⟩
      show s.posted + 1 + ThreadSum.total drainsOf (Function.update s.stack t []) =
        if s.running then 1 else 0
      omega
  · cases hstep

/-- A worker takes a posted closure. -/
theorem StrandInv.take (h : StrandInv s) (hstep : s.step (.take t) = some s') : StrandInv s' := by
  simp only [StrandState.step] at hstep
  split at hstep
  · next hc =>
    cases hstep
    have hnil : s.stack t = [] := List.isEmpty_iff.mp hc.2
    have hdrains := h.drains
    rw [StrandState.drains] at hdrains
    have hmove := drains_update s t [.drain]
    have haccount := h.account_update (t := t) (k := [.drain]) (by rw [hnil]; rfl) rfl
    rw [hnil] at hmove
    change _ + 0 = _ + 1 at hmove
    refine ⟨shape_update h.shape .draining, ?_, h.idle, h.order, haccount.1, haccount.2,
      h.inhabited⟩
    show s.posted - 1 + ThreadSum.total drainsOf (Function.update s.stack t [.drain]) =
        if s.running then 1 else 0
    have := hc.1
    omega
  · cases hstep

/-- One turn of the loop of `Drain_`: it takes a task, or clears `running_`. -/
theorem StrandInv.turn (h : StrandInv s) (hstep : s.step (.turn t) = some s') : StrandInv s' := by
  simp only [StrandState.step] at hstep
  split at hstep
  · next rest hstack =>
    have hrest : rest = [] := by
      have hshape := h.shape t
      rw [hstack] at hshape
      cases hshape
      rfl
    subst hrest
    obtain ⟨hrunning, hposted, hothers⟩ := h.only (t := t) (by rw [hstack]; rfl)
    have hdrains := h.drains
    rw [StrandState.drains, hrunning, if_pos rfl] at hdrains
    have hstarted : s.started = s.finished := by
      refine h.between fun u => ?_
      by_cases hu : u = t
      · rw [hu, hstack]
        rfl
      · rw [hothers u hu]
        rfl
    split at hstep
    · next htasks =>
      cases hstep
      have hmove := drains_update s t []
      have haccount := h.account_update (t := t) (k := []) (by rw [hstack]; rfl) rfl
      rw [hstack] at hmove
      change _ + 1 = _ + 0 at hmove
      refine ⟨shape_update h.shape .idle, ?_, fun _ => htasks, h.order, haccount.1, haccount.2,
        fun hfalse => (by cases hfalse)⟩
      show s.posted + ThreadSum.total drainsOf (Function.update s.stack t []) = 0
      omega
    · next x xs htasks =>
      cases hstep
      have hmove := drains_update s t [.task x, .drain]
      rw [hstack] at hmove
      change _ + 1 = _ + 1 at hmove
      refine ⟨shape_update h.shape (.inTask x), ?drains, ?empty, ?order, ?inside, ?between,
        h.inhabited⟩
      case drains =>
        show s.posted + ThreadSum.total drainsOf (Function.update s.stack t [.task x, .drain]) = _
        rw [hrunning, if_pos rfl]
        omega
      case empty =>
        intro hfalse
        rw [show s.running = false from hfalse] at hrunning
        cases hrunning
      case order => rw [h.order, htasks, List.append_assoc, List.singleton_append]
      case inside =>
        intro u y hu
        rcases ThreadSum.update_cases hu with ⟨-, heq⟩ | ⟨hne, hu⟩
        · cases heq
          rw [hstarted]
        · rw [hothers u hne] at hu
          cases hu
      case between =>
        intro hall
        have hself : tasksOf (Function.update s.stack t [.task x, .drain] t) = [] := hall t
        rw [Function.update_self] at hself
        cases hself
  · cases hstep

/-- The end of a task, by return or exception. -/
theorem StrandInv.finish (h : StrandInv s) {threw : Bool}
    (hstep : s.step (.finish t threw) = some s') : StrandInv s' := by
  simp only [StrandState.step] at hstep
  split at hstep
  · next x rest hstack =>
    cases hstep
    have hrest : rest = [.drain] := by
      have hshape := h.shape t
      rw [hstack] at hshape
      cases hshape
      rfl
    subst hrest
    obtain ⟨-, -, hothers⟩ := h.only (t := t) (by rw [hstack]; rfl)
    have hdrains := h.drains
    rw [StrandState.drains] at hdrains
    have hmove := drains_update s t [.drain]
    rw [hstack] at hmove
    change _ + 1 = _ + 1 at hmove
    refine ⟨shape_update h.shape .draining, ?drains, h.idle, h.order, ?inside,
      fun _ => h.inside t x hstack, h.inhabited⟩
    case drains =>
      show s.posted + ThreadSum.total drainsOf (Function.update s.stack t [.drain]) =
        if s.running then 1 else 0
      omega
    case inside =>
      intro u y hu
      rcases ThreadSum.update_cases hu with ⟨-, heq⟩ | ⟨hne, hu⟩
      · cases heq
      · rw [hothers u hne] at hu
        cases hu
  · cases hstep

/-- Every step keeps the invariant. -/
theorem StrandInv.step {ev : StrandEvent T τ} (h : StrandInv s) (hstep : s.step ev = some s') :
    StrandInv s' := by
  cases ev with
  | enqueue t x => exact h.enqueue hstep
  | post t => exact h.post hstep
  | take t => exact h.take hstep
  | turn t => exact h.turn hstep
  | finish t threw => exact h.finish hstep
  | stop =>
    cases hstep
    exact ⟨h.shape, h.drains, h.idle, h.order, h.inside, h.between, h.inhabited⟩

omit [DecidableEq T] in
theorem StrandInv.initial : StrandInv (StrandState.initial : StrandState T τ) := by
  have hzero : ThreadSum.total drainsOf (fun _ : T => ([] : List (Frame τ))) = 0 :=
    ThreadSum.total_eq_zero fun _ => rfl
  refine ⟨fun _ => .idle, ?_, fun _ => rfl, rfl, fun t x h => (by cases h), fun _ => rfl,
    fun h => (by cases h)⟩
  show 0 + ThreadSum.total drainsOf (fun _ : T => ([] : List (Frame τ))) = 0
  rw [hzero]

-- ═══════════════════════════════════════════════════════════════════════════
-- Completion
-- ═══════════════════════════════════════════════════════════════════════════

/-- A step of the strand or the pool, as against a new task or the end of the pool. -/
def StrandEvent.Internal {T τ : Type} : StrandEvent T τ → Prop
  | .enqueue _ _ => False
  | .stop => False
  | _ => True

/-- How many steps what a thread is inside of may still take. -/
def frameWork {τ : Type} : List (Frame τ) → ℕ
  | [] => 0
  | .posting :: rest => frameWork rest + 3
  | _ :: rest => frameWork rest + 1

/-- How many steps are left to the strand and the pool. -/
def StrandState.work (s : StrandState T τ) : ℕ :=
  2 * s.tasks.length + 2 * s.posted + ThreadSum.total frameWork s.stack

/-- Every step of the strand or the pool reduces the work. -/
theorem work_lt_of_step {ev : StrandEvent T τ} (hev : ev.Internal)
    (hstep : s.step ev = some s') : s'.work < s.work := by
  have hmove := fun t k => ThreadSum.total_update frameWork s.stack t k
  cases ev with
  | enqueue t x => exact absurd hev id
  | stop => exact absurd hev id
  | post t =>
    simp only [StrandState.step] at hstep
    split at hstep
    · next rest hstack =>
      split at hstep
      · cases hstep
        have hmove := hmove t (.drain :: rest)
        simp only [hstack, frameWork] at hmove
        simp only [StrandState.work]
        omega
      · cases hstep
        have hmove := hmove t rest
        simp only [hstack, frameWork] at hmove
        simp only [StrandState.work]
        omega
    · cases hstep
  | take t =>
    simp only [StrandState.step] at hstep
    split at hstep
    · next hc =>
      cases hstep
      have hpos := hc.1
      have hmove := hmove t [.drain]
      simp only [List.isEmpty_iff.mp hc.2, frameWork] at hmove
      simp only [StrandState.work]
      omega
    · cases hstep
  | turn t =>
    simp only [StrandState.step] at hstep
    split at hstep
    · next rest hstack =>
      split at hstep
      · next htasks =>
        cases hstep
        have hmove := hmove t rest
        simp only [hstack, frameWork] at hmove
        simp only [StrandState.work]
        omega
      · next x xs htasks =>
        cases hstep
        have hmove := hmove t (.task x :: .drain :: rest)
        simp only [hstack, frameWork] at hmove
        simp only [StrandState.work, htasks, List.length_cons]
        omega
    · cases hstep
  | finish t threw =>
    simp only [StrandState.step] at hstep
    split at hstep
    · next x rest hstack =>
      cases hstep
      have hmove := hmove t rest
      simp only [hstack, frameWork] at hmove
      simp only [StrandState.work]
      omega
    · cases hstep

/-- No step of the strand or the pool is possible. -/
def StrandState.Quiet (s : StrandState T τ) : Prop :=
  ∀ ev : StrandEvent T τ, ev.Internal → s.step ev = none

/-- While a `Drain_` is due, posted or under way, a step is possible. -/
theorem StrandInv.not_running_of_quiet (h : StrandInv s) (hquiet : s.Quiet) :
    s.running = false := by
  rw [← Bool.not_eq_true]
  intro hrunning
  have hdrains := h.drains
  rw [hrunning, if_pos rfl, StrandState.drains] at hdrains
  by_cases hposted : 0 < s.posted
  · -- a worker can take the closure, since nobody is doing anything for the strand
    obtain ⟨t⟩ := h.inhabited hrunning
    have hnil : s.stack t = [] :=
      (h.shape t).eq_nil (ThreadSum.eq_zero_of_total_eq_zero (by omega) t)
    have htake := hquiet (.take t) trivial
    simp only [StrandState.step] at htake
    rw [if_pos ⟨hposted, by rw [hnil]; rfl⟩] at htake
    cases htake
  · obtain ⟨t, ht⟩ : ∃ t, 0 < drainsOf (s.stack t) := ThreadSum.exists_of_total_pos (by omega)
    have hshape := h.shape t
    cases hstack : s.stack t with
    | nil =>
      rw [hstack] at ht
      exact Nat.lt_irrefl 0 ht
    | cons frame rest =>
      cases frame with
      | posting =>
        have hpost := hquiet (.post t) trivial
        simp only [StrandState.step, hstack] at hpost
        split at hpost <;> cases hpost
      | drain =>
        have hturn := hquiet (.turn t) trivial
        simp only [StrandState.step, hstack] at hturn
        split at hturn <;> cases hturn
      | task x =>
        have hfinish := hquiet (.finish t false) trivial
        simp only [StrandState.step, hstack] at hfinish
        cases hfinish

/-- When nothing is left to do, every task pushed has been run. -/
theorem StrandInv.finished_of_quiet (h : StrandInv s) (hquiet : s.Quiet) :
    s.finished = s.pushed := by
  have hrunning := h.not_running_of_quiet hquiet
  have hstarted : s.started = s.finished := by
    refine h.between fun t => ?_
    rw [(h.stack_eq_nil hrunning t).1]
    rfl
  rw [h.order, h.idle hrunning, List.append_nil, hstarted]

/-- Runs of the strand and the pool without new tasks are bounded. -/
theorem length_le_work {evs : List (StrandEvent T τ)} (hevs : ∀ ev ∈ evs, ev.Internal)
    (hrun : run StrandState.step s evs = some s') : evs.length + s'.work ≤ s.work := by
  induction evs generalizing s with
  | nil =>
    cases hrun
    exact Nat.le_of_eq (Nat.zero_add _)
  | cons ev evs ih =>
    obtain ⟨s₁, hstep, hrun⟩ := Option.bind_eq_some_iff.mp hrun
    have hlt := work_lt_of_step (hevs ev List.mem_cons_self) hstep
    have hle := ih (fun e he => hevs e (List.mem_cons_of_mem ev he)) hrun
    rw [List.length_cons]
    omega

/-- What a strand guarantees of its tasks in a state of a run. -/
structure StrandSerial (s : StrandState T τ) : Prop where
  /-- Tasks begin in the order in which they were pushed, each once. -/
  order : s.pushed = s.started ++ s.tasks
  /-- The tasks that have begun have ended, up to one that a single thread is in. -/
  one : (s.started = s.finished ∧ ∀ t, tasksOf (s.stack t) = []) ∨
    ∃ t x, s.started = s.finished ++ [x] ∧ tasksOf (s.stack t) = [x] ∧
      ∀ u, u ≠ t → tasksOf (s.stack u) = []
  running_iff : s.running = true ↔ s.drains = 1
  drains_le : s.drains ≤ 1
  idle : s.running = false → s.tasks = []
  /-- Left alone, strand and pool come to rest, and then every task has run. -/
  bounded : ∀ evs s', (∀ ev ∈ evs, ev.Internal) → run StrandState.step s evs = some s' →
    evs.length ≤ s.work
  complete : s.Quiet → s.finished = s.pushed

theorem StrandInv.one (h : StrandInv s) :
    (s.started = s.finished ∧ ∀ t, tasksOf (s.stack t) = []) ∨
      ∃ t x, s.started = s.finished ++ [x] ∧ tasksOf (s.stack t) = [x] ∧
        ∀ u, u ≠ t → tasksOf (s.stack u) = [] := by
  by_cases hall : ∀ t, tasksOf (s.stack t) = []
  · exact .inl ⟨h.between hall, hall⟩
  · obtain ⟨t, ht⟩ := not_forall.mp hall
    have honly := (h.only ((h.shape t).drainsOf_pos ht)).2.2
    have hshape := h.shape t
    cases hstack : s.stack t with
    | nil => exact absurd (by rw [hstack]; rfl) ht
    | cons frame rest =>
      rw [hstack] at hshape
      cases hshape with
      | inTask x =>
        refine .inr ⟨t, x, h.inside t x hstack, by rw [hstack]; rfl, fun u hu => ?_⟩
        rw [honly u hu]
        rfl
      | _ => exact absurd (by rw [hstack]; rfl) ht

end Invariant

/-- For any number of threads and every interleaving, with tasks that throw or post
further tasks and a pool that may be stopped at any time. -/
theorem strand_serial {T τ : Type} [Fintype T] [DecidableEq T] {s : StrandState T τ}
    (hreach : Reach StrandState.step (fun _ _ => True) .initial s) : StrandSerial s := by
  have h : StrandInv s := hreach.invariant .initial fun _ _ _ h _ hstep => h.step hstep
  refine ⟨h.order, h.one, ?running, h.drains_le, h.idle, fun evs s' hevs hrun => ?bounded,
    h.finished_of_quiet⟩
  case running =>
    rw [h.drains]
    cases s.running <;> decide
  case bounded => exact Nat.le_of_add_right_le (length_le_work hevs hrun)

/-- A task that posts another one and throws; then the pool is stopped and a further
task is posted, which the poster runs itself. -/
def reentrantSteps : List (StrandEvent (Fin 2) ℕ) :=
  [.enqueue 0 1, .post 0, .take 1, .turn 1, .enqueue 1 2, .finish 1 true, .turn 1, .finish 1 false,
    .turn 1, .stop, .enqueue 0 3, .post 0, .turn 0]

theorem strand_serial_reentrant : ∃ s : StrandState (Fin 2) ℕ,
    run StrandState.step .initial reentrantSteps = some s ∧ s.finished = [1, 2] ∧
      s.stack 0 = [.task 3, .drain] ∧ StrandSerial s := by
  have hrun : (run StrandState.step .initial reentrantSteps).map
      (fun s : StrandState (Fin 2) ℕ => (s.finished, s.stack 0)) =
      some ([1, 2], [.task 3, .drain]) := by decide +kernel
  obtain ⟨s, hs, hpair⟩ := Option.map_eq_some_iff.mp hrun
  obtain ⟨hfinished, hstack⟩ := Prod.mk.inj hpair
  have hreach : Reach StrandState.step (fun _ _ => True) .initial s :=
    Reach.of_run (p := fun _ => True) hs fun _ _ => trivial
  exact ⟨s, hs, hfinished, hstack, strand_serial hreach⟩

end LoggerHigh
