import Mathlib.Data.List.Chain
import LoggerHigh.Formatter.EffectiveFormatter
import LoggerHigh.Lib.FanOut
import LoggerHigh.Lib.ThreadSum
import LoggerHigh.Lib.Transition

/-!
# LogHandle

`handle/log_handle.{h,cpp}`: any number of threads log through one handle, which
calls its sinks one after the other. A sink may throw; the exception leaves
`Log`, and the sinks behind it are not called.

## Main definitions

- `LogHandle.step` — one step of a thread
- `NeedsFlush` — a message that a `Flush` has to follow

## Main results

- `handle_fans_out` — what each sink gets
- `levels_kept` — what the two levels promise over a whole run
-/

namespace LoggerHigh

open FanOut ThreadSum Transition

/-- What a handle calls on a sink. -/
inductive SinkCall
  | log (msg : LogMsg)
  | flush
  deriving DecidableEq

/-- `LogLevel::info` and `LogLevel::off` -/
def kInfo : LogLevel := 2

@[inherit_doc kInfo]
def kOff : LogLevel := 6

/-- The class; none of its `sinks` is a null pointer. A thread that is in `Log_` or `Flush_`
is about to make a call on a sink, or has made it on all. `received` and `rounds` record the
calls, those on a sink and those of a thread. -/
structure LogHandle (T : Type) where
  level : LogLevel
  flushLevel : LogLevel
  name : Bytes
  sinks : ℕ
  place : T → Option (SinkCall × ℕ)
  received : ℕ → List (T × SinkCall)
  rounds : T → List (Round SinkCall)

/-- The constructor that takes a list of sinks. -/
def LogHandle.create {T : Type} (name : Bytes) (sinks : ℕ) : LogHandle T :=
  { level := kInfo
    flushLevel := kOff
    name := name
    sinks := sinks
    place := fun _ => none
    received := fun _ => []
    rounds := fun _ => [] }

/-- `SetLevel` and `SetFlushLevel` before the handle is used. -/
def LogHandle.withLevels {T : Type} (s : LogHandle T) (level flushLevel : LogLevel) :
    LogHandle T :=
  { s with level := level, flushLevel := flushLevel }

/-- The constructor that takes one sink or a null pointer. -/
def LogHandle.createOne {T : Type} (name : Bytes) (sink : Bool) : LogHandle T :=
  .create name (if sink then 1 else 0)

/-- The steps: the setters, a call of `Log` at the time `now`, a call of `Flush`, the call on
the next sink, and the end of the loop over the sinks. -/
inductive HandleEvent (T : Type)
  | setLevel (level : LogLevel)
  | setFlushLevel (level : LogLevel)
  | log (t : T) (level : LogLevel) (loc : SourceLocation) (message : Bytes) (now : Int64)
  | flush (t : T)
  | call (t : T) (throws : Bool)
  | leave (t : T)

/-- `ShouldLog` -/
def LogHandle.shouldLog {T : Type} (s : LogHandle T) (level : LogLevel) : Bool :=
  decide (s.level ≤ level) && s.sinks != 0

/-- `ShouldFlush` -/
def LogHandle.shouldFlush {T : Type} (s : LogHandle T) (level : LogLevel) : Bool :=
  decide (s.flushLevel ≤ level)

section Machine

variable {T : Type} [DecidableEq T]

/-- A thread comes to the loop of `Log_` or `Flush_`. -/
def LogHandle.enter (s : LogHandle T) (t : T) (c : SinkCall) : LogHandle T :=
  { s with
    place := Function.update s.place t (some (c, 0))
    rounds := Function.update s.rounds t (s.rounds t ++ [⟨c, none⟩]) }

/-- A thread returns. -/
def LogHandle.outside (s : LogHandle T) (t : T) : LogHandle T :=
  { s with place := Function.update s.place t none }

/-- A thread calls the sink `i`, which throws or does not. -/
def LogHandle.callSink (s : LogHandle T) (t : T) (c : SinkCall) (i : ℕ) (throws : Bool) :
    LogHandle T :=
  { s with
    received := Function.update s.received i (s.received i ++ [(t, c)])
    place := Function.update s.place t (if throws then none else some (c, i + 1))
    rounds :=
      if throws then Function.update s.rounds t ((s.rounds t).dropLast ++ [⟨c, some i⟩])
      else s.rounds }

/-- One step. -/
def LogHandle.step (s : LogHandle T) : HandleEvent T → Option (LogHandle T)
  | .setLevel level => some { s with level := level }
  | .setFlushLevel level => some { s with flushLevel := level }
  | .log t level loc message now =>
    if s.place t = none then
      if s.shouldLog level then some (s.enter t (.log ⟨level, now, s.name, loc, message⟩))
      else some s
    else none
  | .flush t => if s.place t = none then some (s.enter t .flush) else none
  | .call t throws => (s.place t).bind fun p =>
    if p.2 < s.sinks then some (s.callSink t p.1 p.2 throws) else none
  | .leave t => (s.place t).bind fun p =>
    if p.2 = s.sinks then
      match p.1 with
      | .log msg => some (if s.shouldFlush msg.level then s.enter t .flush else s.outside t)
      | .flush => some (s.outside t)
    else none

end Machine

-- ════════════════════════════════════════════════════════════════════════
-- What the sinks get
-- ════════════════════════════════════════════════════════════════════════

variable {T : Type} [DecidableEq T] {s s' s₀ : LogHandle T} {e : HandleEvent T} {t u : T}

/-- The calls of one thread. -/
def callsOf (t : T) (calls : List (T × SinkCall)) : List SinkCall :=
  (calls.filter fun c => c.1 = t).map Prod.snd

theorem callsOf_concat (t u : T) (calls : List (T × SinkCall)) (c : SinkCall) :
    callsOf t (calls ++ [(u, c)]) = callsOf t calls ++ if u = t then [c] else [] := by
  by_cases h : u = t <;> simp [callsOf, h]

/-- Each sink has got what each thread has handed to it. -/
def FanInv (s : LogHandle T) : Prop :=
  ∀ t, Delivered s.sinks (fun i => callsOf t (s.received i)) (s.place t) (s.rounds t)

/-- What a sink has received from the thread it is called by, and from the others. -/
theorem callsOf_callSink (s : LogHandle T) (t u : T) (c : SinkCall) (i j : ℕ)
    (throws : Bool) : callsOf u ((s.callSink t c i throws).received j) =
      callsOf u (s.received j) ++ if t = u ∧ j = i then [c] else [] := by
  by_cases hj : j = i
  · subst hj
    simp [LogHandle.callSink, callsOf_concat]
  · simp [LogHandle.callSink, hj]

/-- A round begins. -/
theorem FanInv.enter (h : FanInv s) (ht : s.place t = none) (c : SinkCall) :
    FanInv (s.enter t c) := by
  intro u
  by_cases hu : u = t
  · subst hu
    simpa [LogHandle.enter] using (ht ▸ h u).enter c
  · simpa [LogHandle.enter, hu] using h u

/-- A round is over. -/
theorem FanInv.outside (h : FanInv s) {c : SinkCall} (ht : s.place t = some (c, s.sinks)) :
    FanInv (s.outside t) := by
  intro u
  by_cases hu : u = t
  · subst hu
    simpa [LogHandle.outside] using (ht ▸ h u).leave
  · simpa [LogHandle.outside, hu] using h u

/-- One round after another. -/
theorem LogHandle.enter_outside (s : LogHandle T) (t : T) (c : SinkCall) :
    (s.outside t).enter t c = s.enter t c := by
  simp [LogHandle.enter, LogHandle.outside]

/-- A sink is called. -/
theorem FanInv.callSink (h : FanInv s) {c : SinkCall} {i : ℕ} (ht : s.place t = some (c, i))
    (throws : Bool) : FanInv (s.callSink t c i throws) := by
  intro u
  simp only [callsOf_callSink]
  by_cases hu : u = t
  · subst hu
    have hdelivered := ht ▸ h u
    cases throws with
    | false =>
      have hhand : Delivered s.sinks
          (fun j => callsOf u (s.received j) ++ if u = u ∧ j = i then [c] else [])
          (some (c, i + 1)) (s.rounds u) :=
        hdelivered.hand (by simp) fun j hj => by simp [hj]
      simpa [LogHandle.callSink] using hhand
    | true =>
      have hcut : Delivered s.sinks
          (fun j => callsOf u (s.received j) ++ if u = u ∧ j = i then [c] else [])
          none ((s.rounds u).dropLast ++ [⟨c, some i⟩]) :=
        hdelivered.cut (by simp) fun j hj => by simp [hj]
      simpa [LogHandle.callSink] using hcut
  · have htu : ¬ t = u := fun heq => hu heq.symm
    have hsame := h u
    cases throws <;> simpa [LogHandle.callSink, hu, htu] using hsame

/-- The steps: a level changes, a call of `Log` does nothing, a round begins, a sink is called,
or a round is over and another one may begin. -/
inductive HandleMove (s : LogHandle T) : HandleEvent T → LogHandle T → Prop
  | setLevel (level : LogLevel) : HandleMove s (.setLevel level) { s with level := level }
  | setFlushLevel (level : LogLevel) :
      HandleMove s (.setFlushLevel level) { s with flushLevel := level }
  | skip (e : HandleEvent T) : HandleMove s e s
  | log (t : T) (level : LogLevel) (loc : SourceLocation) (message : Bytes) (now : Int64)
      (ht : s.place t = none) (hlevel : s.level ≤ level) (hsinks : s.sinks ≠ 0) :
      HandleMove s (.log t level loc message now)
        (s.enter t (.log ⟨level, now, s.name, loc, message⟩))
  | flush (t : T) (ht : s.place t = none) : HandleMove s (.flush t) (s.enter t .flush)
  | call (t : T) (throws : Bool) (c : SinkCall) (i : ℕ) (ht : s.place t = some (c, i))
      (hi : i < s.sinks) : HandleMove s (.call t throws) (s.callSink t c i throws)
  | leave (t : T) (c : SinkCall) (ht : s.place t = some (c, s.sinks))
      (hover : ∀ msg, c = .log msg → ¬ s.flushLevel ≤ msg.level) :
      HandleMove s (.leave t) (s.outside t)
  | flushAfter (t : T) (msg : LogMsg) (ht : s.place t = some (.log msg, s.sinks)) :
      HandleMove s (.leave t) ((s.outside t).enter t .flush)

/-- Every step is one of these. -/
theorem HandleMove.of_step (h : s.step e = some s') : HandleMove s e s' := by
  cases e with
  | setLevel level =>
    cases h
    exact .setLevel level
  | setFlushLevel level =>
    cases h
    exact .setFlushLevel level
  | log t level loc message now =>
    rw [LogHandle.step] at h
    split at h
    case isFalse => cases h
    case isTrue ht =>
      split at h <;> cases h
      case isTrue hshould =>
        simp only [LogHandle.shouldLog, Bool.and_eq_true, decide_eq_true_eq, bne_iff_ne,
          ne_eq] at hshould
        exact .log t level loc message now ht hshould.1 hshould.2
      case isFalse => exact .skip _
  | flush t =>
    rw [LogHandle.step] at h
    split at h <;> cases h
    next ht => exact .flush t ht
  | call t throws =>
    obtain ⟨⟨c, i⟩, ht, h⟩ := Option.bind_eq_some_iff.mp h
    split at h <;> cases h
    next hi => exact .call t throws c i ht hi
  | leave t =>
    obtain ⟨⟨c, i⟩, ht, h⟩ := Option.bind_eq_some_iff.mp h
    split at h
    case isFalse => cases h
    case isTrue hi =>
      obtain rfl : i = s.sinks := hi
      cases c with
      | flush =>
        cases h
        exact .leave t .flush ht (by simp)
      | log msg =>
        cases h
        by_cases hflush : s.flushLevel ≤ msg.level
        · rw [LogHandle.shouldFlush, decide_eq_true hflush, if_pos rfl, ← s.enter_outside]
          exact .flushAfter t msg ht
        · rw [LogHandle.shouldFlush, decide_eq_false hflush, if_neg (by simp)]
          refine .leave t (.log msg) ht fun msg' hmsg => ?_
          cases hmsg
          exact hflush

/-- Every step keeps the invariant. -/
theorem FanInv.move (h : FanInv s) (hm : HandleMove s e s') : FanInv s' := by
  cases hm with
  | setLevel | setFlushLevel | skip => exact h
  | log t level loc message now ht => exact h.enter ht _
  | flush t ht => exact h.enter ht _
  | call t throws c i ht => exact h.callSink ht throws
  | leave t c ht => exact h.outside ht
  | flushAfter t msg ht => exact (h.outside ht).enter (Function.update_self ..) _

/-- The name and the sinks are those of the constructor. -/
theorem HandleMove.const (hm : HandleMove s e s') : s'.name = s.name ∧ s'.sinks = s.sinks := by
  cases hm <;> exact ⟨rfl, rfl⟩

/-- Before the first call, whatever the levels are set to. -/
theorem FanInv.create (name : Bytes) (n : ℕ) (level flushLevel : LogLevel) :
    FanInv ((LogHandle.create name n : LogHandle T).withLevels level flushLevel) :=
  fun _ => ⟨fun _ _ => rfl, nofun⟩

/-- The invariant holds in every state reached. -/
theorem FanInv.of_reach {ok : LogHandle T → HandleEvent T → Prop} (h₀ : FanInv s₀)
    (hr : Reach LogHandle.step ok s₀ s) : FanInv s ∧ s.name = s₀.name ∧ s.sinks = s₀.sinks := by
  refine hr.invariant (I := fun s => FanInv s ∧ s.name = s₀.name ∧ s.sinks = s₀.sinks)
    ⟨h₀, rfl, rfl⟩ ?_
  rintro s e s' ⟨h, hname, hsinks⟩ _ hstep
  have hm := HandleMove.of_step hstep
  exact ⟨h.move hm, hm.const.1.trans hname, hm.const.2.trans hsinks⟩

/-- Whatever the threads do and whichever sinks throw: a sink has got, in order, the message or
flush of each round of a thread but those that a sink before it has ended by an exception, and
the one the thread is still on its way with. A later sink so gets no more than an earlier one. -/
theorem handle_fans_out {name : Bytes} {n : ℕ}
    (hr : Reach LogHandle.step (fun _ _ => True) (.create name n) s) (t : T) :
    (∀ i < n, callsOf t (s.received i) ++ ahead i (s.place t) = due i (s.rounds t)) ∧
      (s.place t = none → ∀ i j, i ≤ j → j < n →
        (callsOf t (s.received j)).Sublist (callsOf t (s.received i))) := by
  obtain ⟨hinv, -, hsinks⟩ := FanInv.of_reach (FanInv.create name n kInfo kOff) hr
  obtain rfl : s.sinks = n := hsinks
  refine ⟨(hinv t).got, fun ht i j hij hj => ?_⟩
  have hwhole : ∀ k < s.sinks, callsOf t (s.received k) = due k (s.rounds t) := by
    intro k hk
    have hgot := (hinv t).got k hk
    rwa [ht, ahead, Option.elim_none, List.append_nil] at hgot
  rw [hwhole i (hij.trans_lt hj), hwhole j hj]
  exact due_sublist hij _

/-- Two threads log; the second of two sinks throws at one of the messages. -/
def throwingSink : List (HandleEvent Bool) :=
  [.log true 3 ⟨none, 0, none⟩ [] 0, .call true false, .log false 4 ⟨none, 0, none⟩ [] 1,
    .call false false, .call true true, .call false false, .leave false]

theorem run_throwingSink :
    (run LogHandle.step (.create [] 2) throwingSink).isSome := by decide +kernel

theorem handle_fans_out_throwing :
    let s := (run LogHandle.step (.create [] 2) throwingSink).get run_throwingSink
    callsOf true (s.received 1) ++ ahead 1 (s.place true) = due 1 (s.rounds true) :=
  (handle_fans_out (Reach.of_run (Option.some_get _).symm fun _ _ => trivial) true).1 1
    (by decide)

-- ════════════════════════════════════════════════════════════════════════
-- The levels
-- ════════════════════════════════════════════════════════════════════════

/-- All sinks have got a message of that level. -/
def NeedsFlush (flushLevel : LogLevel) (r : Round SinkCall) : Prop :=
  r.endedAt = none ∧ ∃ msg, r.value = .log msg ∧ flushLevel ≤ msg.level

/-- The level is never set below one, and the flush level never above one. -/
def KeepsLevels (level flushLevel : LogLevel) (_ : LogHandle T) : HandleEvent T → Prop
  | .setLevel l => level ≤ l
  | .setFlushLevel l => l ≤ flushLevel
  | _ => True

instance (level flushLevel : LogLevel) (s : LogHandle T) :
    (e : HandleEvent T) → Decidable (KeepsLevels level flushLevel s e)
  | .setLevel _ | .setFlushLevel _ => inferInstanceAs (Decidable (_ ≤ _))
  | .log _ _ _ _ _ | .flush _ | .call _ _ | .leave _ => inferInstanceAs (Decidable True)

/-- What holds of the rounds of a thread in such a run. -/
structure RoundsOk (level flushLevel : LogLevel) (name : Bytes)
    (place : Option (SinkCall × ℕ)) (rounds : List (Round SinkCall)) : Prop where
  logged : ∀ r ∈ rounds, ∀ msg, r.value = .log msg → level ≤ msg.level ∧ msg.loggerName = name
  flushed : rounds.IsChain fun a b => NeedsFlush flushLevel a → b.value = .flush
  last : place = none → ∀ r ∈ rounds.getLast?, ¬ NeedsFlush flushLevel r

variable {level flushLevel : LogLevel} {name : Bytes} {place : Option (SinkCall × ℕ)}
  {rounds : List (Round SinkCall)} {c : SinkCall}

/-- A round begins. -/
theorem RoundsOk.enter (h : RoundsOk level flushLevel name place rounds)
    (hc : ∀ msg, c = .log msg → level ≤ msg.level ∧ msg.loggerName = name)
    (hnext : c = .flush ∨ place = none) (p : SinkCall × ℕ) :
    RoundsOk level flushLevel name (some p) (rounds ++ [⟨c, none⟩]) := by
  refine ⟨fun r hr => ?_, List.isChain_append.mpr ⟨h.flushed, .singleton _, ?_⟩, nofun⟩
  · rcases List.mem_append.mp hr with hr | hr
    · exact h.logged r hr
    · obtain rfl := List.mem_singleton.mp hr
      exact hc
  · rintro a ha b hb hneeds
    obtain rfl : ⟨c, none⟩ = b := by simpa using hb
    rcases hnext with hflush | hplace
    · exact hflush
    · exact absurd hneeds (h.last hplace a ha)

/-- A round is over, for whichever reason. -/
theorem RoundsOk.ended {front : List (Round SinkCall)} {k : Option ℕ}
    (h : RoundsOk level flushLevel name place (front ++ [⟨c, none⟩]))
    (hover : ¬ NeedsFlush flushLevel ⟨c, k⟩) :
    RoundsOk level flushLevel name none (front ++ [⟨c, k⟩]) := by
  obtain ⟨hfront, -, hlast⟩ := List.isChain_append.mp h.flushed
  refine ⟨fun r hr => ?_, List.isChain_append.mpr ⟨hfront, .singleton _, ?_⟩, fun _ r hr => ?_⟩
  · rcases List.mem_append.mp hr with hr | hr
    · exact h.logged r (List.mem_append_left _ hr)
    · obtain rfl := List.mem_singleton.mp hr
      exact h.logged ⟨c, none⟩ (List.mem_append_right _ (List.mem_singleton_self _))
  · rintro a ha b hb
    obtain rfl : ⟨c, k⟩ = b := by simpa using hb
    exact hlast a ha ⟨c, none⟩ rfl
  · obtain rfl : ⟨c, k⟩ = r := by simpa using hr
    exact hover

/-- What holds of a handle in such a run. -/
structure LevelInv (level flushLevel : LogLevel) (s : LogHandle T) : Prop where
  level_le : level ≤ s.level
  flushLevel_le : s.flushLevel ≤ flushLevel
  rounds : ∀ t, RoundsOk level flushLevel s.name (s.place t) (s.rounds t)

/-- A thread begins a round. -/
theorem LevelInv.enter (h : LevelInv level flushLevel s)
    (hc : ∀ msg, c = .log msg → level ≤ msg.level ∧ msg.loggerName = s.name)
    (hnext : c = .flush ∨ s.place t = none) : LevelInv level flushLevel (s.enter t c) := by
  refine ⟨h.level_le, h.flushLevel_le, fun u => ?_⟩
  by_cases hu : u = t
  · subst hu
    simpa [LogHandle.enter] using (h.rounds u).enter hc hnext (c, 0)
  · simpa [LogHandle.enter, hu] using h.rounds u

/-- Every step keeps the invariant. -/
theorem LevelInv.move (h : LevelInv level flushLevel s) (hfan : FanInv s)
    (hok : KeepsLevels level flushLevel s e) (hm : HandleMove s e s') :
    LevelInv level flushLevel s' := by
  cases hm with
  | setLevel l => exact ⟨hok, h.flushLevel_le, h.rounds⟩
  | setFlushLevel l => exact ⟨h.level_le, hok, h.rounds⟩
  | skip => exact h
  | log t l loc message now ht hlevel =>
    refine h.enter (fun msg hmsg => ?_) (.inr ht)
    cases hmsg
    exact ⟨UInt8.le_trans h.level_le hlevel, rfl⟩
  | flush t ht => exact h.enter (by simp) (.inl rfl)
  | call t throws c i ht =>
    refine ⟨h.level_le, h.flushLevel_le, fun u => ?_⟩
    by_cases hu : u = t
    · subst hu
      have hrounds := h.rounds u
      cases throws with
      | false => simpa [LogHandle.callSink] using
          (⟨hrounds.logged, hrounds.flushed, by simp⟩ :
            RoundsOk level flushLevel s.name (some (c, i + 1)) (s.rounds u))
      | true =>
        obtain ⟨front, hfront⟩ := (hfan u).current (c, i) ht
        rw [hfront] at hrounds
        have hcut : ¬ NeedsFlush flushLevel ⟨c, some i⟩ := fun hneeds => by cases hneeds.1
        simpa [LogHandle.callSink, hfront] using hrounds.ended hcut
    · cases throws <;> simpa [LogHandle.callSink, hu] using h.rounds u
  | leave t c ht hover =>
    refine ⟨h.level_le, h.flushLevel_le, fun u => ?_⟩
    by_cases hu : u = t
    · subst hu
      obtain ⟨front, hfront⟩ := (hfan u).current (c, s.sinks) ht
      have hrounds := hfront ▸ h.rounds u
      have hnot : ¬ NeedsFlush flushLevel ⟨c, none⟩ := by
        rintro ⟨-, msg, hmsg, hle⟩
        exact hover msg hmsg (UInt8.le_trans h.flushLevel_le hle)
      simpa [LogHandle.outside, hfront] using hrounds.ended hnot
    · simpa [LogHandle.outside, hu] using h.rounds u
  | flushAfter t msg ht =>
    rw [LogHandle.enter_outside]
    exact h.enter (by simp) (.inl rfl)

/-- The invariant holds in every state reached by such a run. -/
theorem LevelInv.of_reach {n : ℕ} (hr : Reach LogHandle.step (KeepsLevels level flushLevel)
    ((LogHandle.create name n).withLevels level flushLevel) s) :
    LevelInv level flushLevel s := by
  refine (hr.invariant (I := fun s => FanInv s ∧ LevelInv level flushLevel s)
    ⟨FanInv.create name n level flushLevel, ?_⟩ fun s e s' h hok hstep => ?_).2
  · exact ⟨UInt8.le_refl _, UInt8.le_refl _, fun _ => ⟨nofun, .nil, nofun⟩⟩
  · have hm := HandleMove.of_step hstep
    exact ⟨h.1.move hm, h.2.move h.1 hok hm⟩

/-- While the level of a handle is only raised and its flush level only lowered, no sink gets a
message below the first level or under another name; and once a thread is outside, each message
from the first flush level on that all sinks have got is directly followed, among what the
thread hands to them, by a flush. -/
theorem levels_kept {n : ℕ} (hr : Reach LogHandle.step (KeepsLevels level flushLevel)
      ((LogHandle.create name n).withLevels level flushLevel) s) (t : T) :
    (∀ i < n, ∀ msg, .log msg ∈ callsOf t (s.received i) →
      level ≤ msg.level ∧ msg.loggerName = name) ∧
    (s.place t = none → ∀ front r back, s.rounds t = front ++ r :: back → NeedsFlush flushLevel r →
      ∃ next rest, back = next :: rest ∧ next.value = .flush) := by
  obtain ⟨hfan, hname, hsinks⟩ := FanInv.of_reach (FanInv.create name n level flushLevel) hr
  have hrounds := (LevelInv.of_reach hr).rounds t
  refine ⟨fun i hi msg hmsg => ?_, fun ht front r back heq hneeds => ?_⟩
  · have hgot := (hfan t).got i (hsinks ▸ hi)
    have hmem : .log msg ∈ due i (s.rounds t) := hgot ▸ List.mem_append_left _ hmsg
    obtain ⟨r, hr, hvalue⟩ := exists_of_mem_due hmem
    have hlogged := hrounds.logged r hr msg hvalue
    exact ⟨hlogged.1, hlogged.2.trans hname⟩
  · cases back with
    | nil =>
      refine absurd hneeds (hrounds.last ht r ?_)
      rw [heq, List.getLast?_concat]
      rfl
    | cons next rest =>
      have hchain := heq ▸ hrounds.flushed
      exact ⟨next, rest, rfl, (List.isChain_append_cons_cons.mp hchain).2.1 hneeds⟩

/-- A handle that flushes from `warn` on. -/
def warnFlushes : LogHandle Bool := (LogHandle.create [] 1).withLevels 2 3

/-- It is used with a level in between and one below. -/
def flushedWarning : List (HandleEvent Bool) :=
  [.log true 1 ⟨none, 0, none⟩ [] 0, .log true 3 ⟨none, 0, none⟩ [] 0, .call true false,
    .leave true, .call true false, .leave true]

theorem run_flushedWarning :
    (run (guarded LogHandle.step (KeepsLevels 2 3)) warnFlushes flushedWarning).isSome := by
  decide +kernel

theorem levels_kept_flushed :
    let s := (run (guarded LogHandle.step (KeepsLevels 2 3)) warnFlushes flushedWarning).get
      run_flushedWarning
    ∀ msg, .log msg ∈ callsOf true (s.received 0) → 2 ≤ msg.level ∧ msg.loggerName = [] :=
  (levels_kept (Reach.of_run_guarded (Option.some_get _).symm) true).1 0 (by decide)

end LoggerHigh
