import Mathlib.Data.List.Basic
import Mathlib.Order.RelClasses
import Mathlib.Tactic.Common

/-!
# Runs of a partial step function

A system is a step function `step : σ → ε → Option σ`: event `e` is possible in
state `s` when `step s e` is `some`. This file has the notions every machine of
the development shares and the rules their proofs use.

## Main definitions

- `run`: executes a list of events
- `Reach`: the states reachable by steps that all satisfy a side condition
- `Along`: a condition holds of every step of a run
- `Throughout`: a property holds of every state a run visits
- `Inevitable`: every way to go on is finite and meets a goal

## Main results

- `Reach.invariant`: the induction rule for invariants
- `Reach.simulates`: the simulation rule
- `Reach.of_run_guarded`: executing the guarded machine shows that a state is reachable
- `Reach.exists_of_measure`: the rule for showing that a goal is reachable
- `Inevitable.of_measure`, `not_inevitable`: the rules for showing that a goal
  is met however the system goes on, and that it can go on forever without
- `throughout_iff_along_of_kept`, `throughout_iff_along`: when one step breaks a
  property exactly when it violates a condition, a whole run keeps the property
  exactly when all its steps meet the condition
- `last_iff_along`: the same for a property that is never regained
-/

namespace Transition

variable {σ ε : Type*} (step : σ → ε → Option σ)

/-- Execute a list of events; `none` as soon as one of them is not possible. -/
def run (s : σ) : List ε → Option σ
  | [] => some s
  | e :: es => (step s e).bind fun s' => run s' es

@[simp] theorem run_nil (s : σ) : run step s [] = some s := rfl

theorem run_cons (s : σ) (e : ε) (es : List ε) :
    run step s (e :: es) = (step s e).bind fun s' => run step s' es := rfl

/-- Running two lists of events one after the other. -/
theorem run_append (s : σ) (es fs : List ε) :
    run step s (es ++ fs) = (run step s es).bind fun s' => run step s' fs := by
  induction es generalizing s with
  | nil => rfl
  | cons e es ih =>
    rw [List.cons_append, run_cons, run_cons, Option.bind_assoc]
    congr 1
    funext s'
    exact ih s'

/-- A run that can be split at a state it visits. -/
theorem run_append_of_eq {s s' : σ} {es : List ε} (h : run step s es = some s') (fs : List ε) :
    run step s (es ++ fs) = run step s' fs := by
  rw [run_append, h, Option.bind_some]

theorem run_singleton (s : σ) (e : ε) : run step s [e] = step s e := by
  rw [run_cons]
  cases step s e <;> rfl

/-- The states reachable from `s₀` by steps that all satisfy `ok`. -/
inductive Reach (ok : σ → ε → Prop) (s₀ : σ) : σ → Prop
  | refl : Reach ok s₀ s₀
  | step {s : σ} {e : ε} {s' : σ} (hr : Reach ok s₀ s) (hok : ok s e)
      (hs : step s e = some s') : Reach ok s₀ s'

variable {step}

/-- The invariant rule: what holds at the start and is kept by every step that
meets the side condition holds in every reachable state. -/
theorem Reach.invariant {ok : σ → ε → Prop} {s₀ s : σ} {I : σ → Prop}
    (h : Reach step ok s₀ s) (h0 : I s₀)
    (hstep : ∀ s e s', I s → ok s e → step s e = some s' → I s') : I s := by
  induction h with
  | refl => exact h0
  | step _ hok hs ih => exact hstep _ _ _ ih hok hs

/-- Weakening the side condition reaches at least the same states. -/
theorem Reach.mono {ok ok' : σ → ε → Prop} {s₀ s : σ} (h : Reach step ok s₀ s)
    (himp : ∀ s e, ok s e → ok' s e) : Reach step ok' s₀ s := by
  induction h with
  | refl => exact .refl
  | step _ hok hs ih => exact .step ih (himp _ _ hok) hs

/-- The simulation rule: when the initial states are related, and every step from
related states is matched by steps of the other system to related states, so is
everything reachable. -/
theorem Reach.simulates {σ' ε' : Type*} {step' : σ' → ε' → Option σ'} {ok : σ → ε → Prop}
    {ok' : σ' → ε' → Prop} {R : σ → σ' → Prop} {s₀ s : σ} {a₀ : σ'} (h : Reach step ok s₀ s)
    (h0 : R s₀ a₀)
    (hstep : ∀ s e s' a, Reach step' ok' a₀ a → R s a → ok s e → step s e = some s' →
      ∃ a', Reach step' ok' a₀ a' ∧ R s' a') :
    ∃ a, Reach step' ok' a₀ a ∧ R s a := by
  induction h with
  | refl => exact ⟨a₀, .refl, h0⟩
  | step _ hok hs ih =>
    obtain ⟨a, ha, hR⟩ := ih
    exact hstep _ _ _ a ha hR hok hs

/-- Reachability composes. -/
theorem Reach.trans {ok : σ → ε → Prop} {s₀ s s' : σ} (h : Reach step ok s₀ s)
    (h' : Reach step ok s s') : Reach step ok s₀ s' := by
  induction h' with
  | refl => exact h
  | step _ hok hs ih => exact .step ih hok hs

/-- A run all of whose events satisfy a condition on events reaches its end. -/
theorem Reach.of_run {p : ε → Prop} {s₀ s : σ} {es : List ε}
    (h : run step s₀ es = some s) (hp : ∀ e ∈ es, p e) :
    Reach step (fun _ e => p e) s₀ s := by
  induction es generalizing s₀ with
  | nil =>
    cases h
    exact .refl
  | cons e es ih =>
    rw [run_cons] at h
    obtain ⟨s₁, h₁, h₂⟩ := Option.bind_eq_some_iff.mp h
    have hstep : Reach step (fun _ e => p e) s₀ s₁ :=
      .step .refl (hp e List.mem_cons_self) h₁
    exact hstep.trans (ih h₂ fun e' he' => hp e' (List.mem_cons_of_mem e he'))

/-- The machine that refuses the steps that violate a condition. -/
def guarded (step : σ → ε → Option σ) (ok : σ → ε → Prop) [∀ s e, Decidable (ok s e)] (s : σ)
    (e : ε) : Option σ :=
  if ok s e then step s e else none

/-- A run of the guarded machine reaches its end by steps that satisfy the condition. -/
theorem Reach.of_run_guarded {ok : σ → ε → Prop} [∀ s e, Decidable (ok s e)] {s₀ s : σ}
    {es : List ε} (h : run (guarded step ok) s₀ es = some s) : Reach step ok s₀ s := by
  induction es generalizing s₀ with
  | nil =>
    cases h
    exact .refl
  | cons e es ih =>
    obtain ⟨s₁, h₁, h₂⟩ := Option.bind_eq_some_iff.mp h
    rw [guarded] at h₁
    split at h₁
    · next hok => exact (Reach.refl.step hok h₁).trans (ih h₂)
    · cases h₁

/-- The progress rule: a goal is reachable when, short of it, some step that
meets the side condition keeps `I` and lowers a measure. -/
theorem Reach.exists_of_measure {ok : σ → ε → Prop} {I G : σ → Prop} (μ : σ → ℕ)
    (hprogress : ∀ s, I s → ¬ G s → ∃ e s', ok s e ∧ step s e = some s' ∧ I s' ∧ μ s' < μ s)
    {s : σ} (hI : I s) : ∃ s', Reach step ok s s' ∧ I s' ∧ G s' := by
  by_cases hG : G s
  · exact ⟨s, .refl, hI, hG⟩
  · obtain ⟨e, s₁, hok, hstep, hI₁, hlt⟩ := hprogress s hI hG
    obtain ⟨s', hr, hI', hG'⟩ := Reach.exists_of_measure μ hprogress hI₁
    exact ⟨s', (Reach.refl.step hok hstep).trans hr, hI', hG'⟩
termination_by μ s

variable (step)

/-- From `s`, every run of steps that satisfy `ok` is finite short of the goal
`G`, and none gets stuck before it. -/
inductive Inevitable (ok : σ → ε → Prop) (G : σ → Prop) : σ → Prop
  | now {s : σ} (h : G s) : Inevitable ok G s
  | next {s : σ} (hcan : ∃ e s', ok s e ∧ step s e = some s')
      (hall : ∀ e s', ok s e → step s e = some s' → Inevitable ok G s') : Inevitable ok G s

variable {step}

/-- The termination rule: a goal is inevitable when, short of it, some step is
possible and every step meets the goal, or keeps `I` and lowers a measure. -/
theorem Inevitable.of_measure {α : Type*} [Preorder α] [WellFoundedLT α] {ok : σ → ε → Prop}
    {I G : σ → Prop} (μ : σ → α)
    (hcan : ∀ s, I s → ¬ G s → ∃ e s', ok s e ∧ step s e = some s')
    (hless : ∀ s e s', I s → ¬ G s → ok s e → step s e = some s' → G s' ∨ I s' ∧ μ s' < μ s)
    {s : σ} (hI : I s) : Inevitable step ok G s := by
  induction hx : μ s using WellFoundedLT.induction generalizing s with
  | ind x ih =>
    subst hx
    by_cases hG : G s
    · exact .now hG
    · refine .next (hcan s hI hG) fun e s' hok hstep => ?_
      rcases hless s e s' hI hG hok hstep with hG' | ⟨hI', hlt⟩
      · exact .now hG'
      · exact ih (μ s') hlt hI' rfl

/-- A goal is not inevitable when short of it the system can go on forever:
some step keeps `I`, which excludes the goal. -/
theorem not_inevitable {ok : σ → ε → Prop} {I G : σ → Prop} (hnot : ∀ s, I s → ¬ G s)
    (hkeep : ∀ s, I s → ∃ e s', ok s e ∧ step s e = some s' ∧ I s') {s : σ} (hI : I s) :
    ¬ Inevitable step ok G s := by
  intro h
  induction h with
  | now hG => exact hnot _ hI hG
  | next _ _ ih =>
    obtain ⟨e, s', hok, hstep, hI'⟩ := hkeep _ hI
    exact ih e s' hok hstep hI'

variable (step)

/-- Every step the run from `s` along `es` takes satisfies `P`. -/
def Along (P : σ → ε → Prop) (s : σ) : List ε → Prop
  | [] => True
  | e :: es => ∀ s', step s e = some s' → P s e ∧ Along P s' es

/-- Every state the run from `s` along `es` visits satisfies `Q`. -/
def Throughout (Q : σ → Prop) (s : σ) : List ε → Prop
  | [] => Q s
  | e :: es => Q s ∧ ∀ s', step s e = some s' → Throughout Q s' es

variable {step}

theorem Throughout.head {Q : σ → Prop} {s : σ} {es : List ε}
    (h : Throughout step Q s es) : Q s := by
  cases es with
  | nil => exact h
  | cons e es => exact h.1

/-- The state a run ends in is one of those it visits. -/
theorem Throughout.last {Q : σ → Prop} {s s' : σ} {es : List ε}
    (h : Throughout step Q s es) (hr : run step s es = some s') : Q s' := by
  induction es generalizing s with
  | nil =>
    cases hr
    exact h
  | cons e es ih =>
    rw [run_cons] at hr
    obtain ⟨s₁, h₁, h₂⟩ := Option.bind_eq_some_iff.mp hr
    exact ih (h.2 s₁ h₁) h₂

/-- Unless the first event is impossible, a condition holds along a run when it
holds of the first step and along the rest. -/
theorem along_cons_iff {P : σ → ε → Prop} {s : σ} {e : ε} {es : List ε} :
    Along step P s (e :: es) ↔ ∀ s' ∈ step s e, P s e ∧ Along step P s' es := Iff.rfl

instance decidableAlong {P : σ → ε → Prop} [∀ s e, Decidable (P s e)] (s : σ) :
    (es : List ε) → Decidable (Along step P s es)
  | [] => isTrue trivial
  | e :: es =>
    have : DecidablePred fun s' => P s e ∧ Along step P s' es := fun s' =>
      @instDecidableAnd _ _ _ (decidableAlong s' es)
    decidable_of_iff _ along_cons_iff.symm

/-- A run all of whose steps satisfy the side condition reaches its end. -/
theorem Reach.of_along {ok : σ → ε → Prop} {s₀ s : σ} {es : List ε}
    (h : run step s₀ es = some s) (hok : Along step ok s₀ es) : Reach step ok s₀ s := by
  induction es generalizing s₀ with
  | nil =>
    cases h
    exact .refl
  | cons e es ih =>
    rw [run_cons] at h
    obtain ⟨s₁, h₁, h₂⟩ := Option.bind_eq_some_iff.mp h
    obtain ⟨hstep, htail⟩ := hok s₁ h₁
    exact (Reach.refl.step hstep h₁).trans (ih h₂ htail)

/-- The exact-condition rule. Let `J` imply `Q`, be kept by the steps that satisfy
`P`, and let every other step break `Q`. Then a run that starts in `J` has `Q`
throughout exactly when all its steps satisfy `P`. -/
theorem throughout_iff_along_of_kept {J Q : σ → Prop} {P : σ → ε → Prop}
    (hJQ : ∀ s, J s → Q s)
    (hkeep : ∀ s e s', J s → P s e → step s e = some s' → J s')
    (hbreak : ∀ s e s', J s → ¬ P s e → step s e = some s' → ¬ Q s')
    {s : σ} (hJ : J s) (es : List ε) : Throughout step Q s es ↔ Along step P s es := by
  induction es generalizing s with
  | nil => exact ⟨fun _ => trivial, fun _ => hJQ s hJ⟩
  | cons e es ih =>
    constructor
    · rintro ⟨-, htail⟩ s' h'
      have hP : P s e := by
        by_contra hP
        exact hbreak s e s' hJ hP h' (htail s' h').head
      exact ⟨hP, (ih (hkeep s e s' hJ hP h')).mp (htail s' h')⟩
    · intro h
      refine ⟨hJQ s hJ, fun s' h' => ?_⟩
      obtain ⟨hP, htail⟩ := h s' h'
      exact (ih (hkeep s e s' hJ hP h')).mpr htail

/-- The same for a property that needs no strengthening: under the invariant `I` a
step from a state with `Q` keeps `Q` exactly when it satisfies `P`. -/
theorem throughout_iff_along {I Q : σ → Prop} {P : σ → ε → Prop}
    (hI : ∀ s e s', I s → step s e = some s' → I s')
    (hQ : ∀ s e s', I s → Q s → step s e = some s' → (Q s' ↔ P s e))
    {s : σ} (hIs : I s) (hQs : Q s) (es : List ε) :
    Throughout step Q s es ↔ Along step P s es := by
  refine throughout_iff_along_of_kept (J := fun s => I s ∧ Q s) (fun s h => h.2) ?keep ?breaks
    ⟨hIs, hQs⟩ es
  case keep =>
    rintro s e s' ⟨hI', hQ'⟩ hP h'
    exact ⟨hI s e s' hI' h', (hQ s e s' hI' hQ' h').mpr hP⟩
  case breaks =>
    rintro s e s' ⟨hI', hQ'⟩ hP h' hQ''
    exact hP ((hQ s e s' hI' hQ' h').mp hQ'')

/-- A property every step keeps exactly when it meets a condition holds at the end
of a run exactly when it holds at the start and all steps meet the condition. -/
theorem last_iff_along {I Q : σ → Prop} {P : σ → ε → Prop}
    (hI : ∀ s e s', I s → step s e = some s' → I s')
    (hQ : ∀ s e s', I s → step s e = some s' → (Q s' ↔ Q s ∧ P s e))
    {s s' : σ} (hIs : I s) {es : List ε} (h : run step s es = some s') :
    Q s' ↔ Q s ∧ Along step P s es := by
  induction es generalizing s with
  | nil =>
    cases h
    exact (and_iff_left trivial).symm
  | cons e es ih =>
    obtain ⟨s₁, h₁, hrun⟩ := Option.bind_eq_some_iff.mp h
    have hhead : Along step P s (e :: es) ↔ P s e ∧ Along step P s₁ es := by
      refine ⟨fun hall => hall s₁ h₁, fun hboth s₂ h₂ => ?_⟩
      cases h₁.symm.trans h₂
      exact hboth
    rw [ih (hI s e s₁ hIs h₁) hrun, hQ s e s₁ hIs h₁, hhead, and_assoc]

end Transition
