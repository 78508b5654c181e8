import Mathlib.Data.Sum.Basic
import Mathlib.Tactic.Common

/-!
# Loops without a bound

A loop `for (;;)` is its body: a function that gives the state for the next
round or the result with which the loop is left.

## Main definitions

- `rounds` — the loop cut off after a number of rounds
- `Terminates` — some number of rounds is enough
- `trace` — the states at the starts of its rounds, in order
- `Visits` — the states at the start of a round

## Main results

- `not_terminates_of_fixed` — a round that changes nothing is repeated for ever
- `terminates_iff` — if every other round lowers a measure, such a round is the
  only way not to terminate
- `exists_trace_of_rounds` — what every round adds to a history holds of the whole trace
-/

namespace Loop

variable {σ ρ : Type*} (body : σ → σ ⊕ ρ)

/-- The loop, cut off after `n` rounds. -/
def rounds : ℕ → σ → σ ⊕ ρ
  | 0, s => .inl s
  | n + 1, s => (body s).elim (rounds n) .inr

/-- The loop is left. -/
def Terminates (s : σ) : Prop := ∃ n r, rounds body n s = .inr r

/-- The states at the starts of the first `n` rounds, in order. -/
def trace : ℕ → σ → List σ
  | 0, _ => []
  | n + 1, s => s :: (body s).elim (trace n) fun _ => []

/-- The states at the start of a round of the loop from `s₀`. -/
inductive Visits (s₀ : σ) : σ → Prop
  | start : Visits s₀ s₀
  | next {s s' : σ} (h : Visits s₀ s) (hbody : body s = .inl s') : Visits s₀ s'

variable {body} {s₀ s s' : σ}

theorem rounds_succ_of_inl (h : body s = .inl s') (n : ℕ) :
    rounds body (n + 1) s = rounds body n s' := by
  rw [rounds, h]
  rfl

/-- One round more or less does not matter. -/
theorem terminates_iff_of_inl (h : body s = .inl s') : Terminates body s ↔ Terminates body s' := by
  constructor
  · rintro ⟨n, r, hn⟩
    cases n with
    | zero => cases hn
    | succ n => exact ⟨n, r, by rw [← rounds_succ_of_inl h, hn]⟩
  · rintro ⟨n, r, hn⟩
    exact ⟨n + 1, r, by rw [rounds_succ_of_inl h, hn]⟩

theorem terminates_of_inr {r : ρ} (h : body s = .inr r) : Terminates body s :=
  ⟨1, r, by rw [rounds, h]; rfl⟩

/-- A loop terminates exactly if it does so from any state it visits. -/
theorem terminates_iff_of_visits (h : Visits body s₀ s) :
    Terminates body s₀ ↔ Terminates body s := by
  induction h with
  | start => exact Iff.rfl
  | next _ hbody ih => exact ih.trans (terminates_iff_of_inl hbody)

/-- A round that changes nothing is repeated for ever. -/
theorem not_terminates_of_fixed (h : body s = .inl s) : ¬ Terminates body s := by
  rintro ⟨n, r, hn⟩
  induction n with
  | zero => cases hn
  | succ n ih =>
    rw [rounds_succ_of_inl h] at hn
    exact ih hn

/-- Once the loop is left, it does not matter where it would have been cut off. -/
theorem rounds_of_le {r : ρ} {n m : ℕ} (h : rounds body n s = .inr r) (hle : n ≤ m) :
    rounds body m s = .inr r := by
  induction n generalizing s m with
  | zero => cases h
  | succ n ih =>
    obtain ⟨m, rfl⟩ : ∃ k, m = k + 1 := ⟨m - 1, by omega⟩
    cases hbody : body s with
    | inr r' =>
      rw [rounds, hbody] at h ⊢
      exact h
    | inl s' =>
      rw [rounds_succ_of_inl hbody] at h ⊢
      exact ih h (Nat.le_of_succ_le_succ hle)

/-- What is visited after the first round is visited. -/
theorem Visits.of_first (hbody : body s₀ = .inl s) (h : Visits body s s') : Visits body s₀ s' := by
  induction h with
  | start => exact .next .start hbody
  | next _ hnext ih => exact .next ih hnext

/-- A loop is left in a round from a state it visits. -/
theorem exists_visits_of_rounds {r : ρ} {n : ℕ} (h : rounds body n s = .inr r) :
    ∃ s', Visits body s s' ∧ body s' = .inr r := by
  induction n generalizing s with
  | zero => cases h
  | succ n ih =>
    cases hbody : body s with
    | inr r' =>
      rw [rounds, hbody] at h
      cases h
      exact ⟨s, .start, hbody⟩
    | inl s' =>
      rw [rounds_succ_of_inl hbody] at h
      obtain ⟨s'', hvisits, hlast⟩ := ih h
      exact ⟨s'', hvisits.of_first hbody, hlast⟩

/-- Short of a round that changes nothing, every round lowers a measure: the loop
terminates. -/
theorem terminates_of_measure {I : σ → Prop} (μ : σ → ℕ)
    (hI : ∀ s s', I s → body s = .inl s' → I s')
    (hμ : ∀ s s', I s → body s = .inl s' → body s ≠ .inl s → μ s' < μ s) {s : σ} (hs : I s)
    (hfixed : ∀ s', Visits body s s' → body s' ≠ .inl s') : Terminates body s := by
  cases hbody : body s with
  | inr r => exact terminates_of_inr hbody
  | inl s' =>
    have hlt : μ s' < μ s := hμ s s' hs hbody (hfixed s .start)
    rw [terminates_iff_of_inl hbody]
    exact terminates_of_measure μ hI hμ (hI s s' hs hbody)
      fun s'' h => hfixed s'' (.of_first hbody h)
termination_by μ s

/-- The exact condition under which such a loop terminates. -/
theorem terminates_iff {I : σ → Prop} (μ : σ → ℕ)
    (hI : ∀ s s', I s → body s = .inl s' → I s')
    (hμ : ∀ s s', I s → body s = .inl s' → body s ≠ .inl s → μ s' < μ s) {s : σ} (hs : I s) :
    Terminates body s ↔ ∀ s', Visits body s s' → body s' ≠ .inl s' := by
  refine ⟨fun h s' hv hbody => ?_, terminates_of_measure μ hI hμ hs⟩
  exact not_terminates_of_fixed hbody ((terminates_iff_of_visits hv).mp h)

/-- What a loop keeps holds at the start of every round. -/
theorem Visits.invariant {I : σ → Prop} (h : Visits body s₀ s) (h₀ : I s₀)
    (hI : ∀ s s', I s → body s = .inl s' → I s') : I s := by
  induction h with
  | start => exact h₀
  | next _ hbody ih => exact hI _ _ ih hbody

/-- What every round adds to a history holds of the trace up to the last round. -/
theorem exists_trace_of_rounds {I : List σ → σ → Prop} {r : ρ} {n : ℕ} {past : List σ}
    (h : rounds body n s = .inr r) (hs : I past s)
    (hI : ∀ past s s', I past s → body s = .inl s' → I (past ++ [s]) s') :
    ∃ rest last, trace body n s = rest ++ [last] ∧ I (past ++ rest) last ∧ body last = .inr r := by
  induction n generalizing s past with
  | zero => cases h
  | succ n ih =>
    cases hbody : body s with
    | inr r' =>
      rw [rounds, hbody] at h
      cases h
      refine ⟨[], s, ?_, by rwa [List.append_nil], hbody⟩
      rw [trace, hbody]
      rfl
    | inl s' =>
      rw [rounds_succ_of_inl hbody] at h
      obtain ⟨rest, last, htrace, hlast, hexit⟩ := ih h (hI past s s' hs hbody)
      refine ⟨s :: rest, last, ?_, by rwa [List.append_cons], hexit⟩
      rw [trace, hbody, List.cons_append, ← htrace]
      rfl

end Loop
