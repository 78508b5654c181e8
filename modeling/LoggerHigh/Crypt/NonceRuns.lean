import LoggerHigh.Crypt.AesGcmCipher
import LoggerHigh.Lib.Transition
import Mathlib.Logic.Function.Basic

/-!
# Concurrent Encrypt calls on one cipher

Any number of threads call `AesGcmCipher::Encrypt` on one object. A call takes
two steps: the atomic `counter_.fetch_add(1)`, and everything after it, which
touches no shared state. Between the two a thread may be delayed arbitrarily.

## Main definitions

- `EncState`, `encStep` — the machine; calls are numbered by their `fetch_add`
- `NonceSafe` — no nonce is used twice, and no call that drew its counter value
  after the counter was exhausted produces output
- `WithinCounter` — the step condition under which that holds

## Main results

- `nonceSafe_iff_withinCounter` — a run is nonce-safe throughout exactly when
  every step meets `WithinCounter`
- `nonceSafe_of_calls_le` — so up to `2 ^ 32` calls are safe in every order
- `encrypt_reuses_nonce` — the call after the refused one repeats the first nonce
-/

namespace LoggerHigh

open Transition

/-- Where a thread is in `Encrypt`: outside, or past the `fetch_add` that was
the `call`-th on this cipher and returned `c`. -/
inductive EncPc
  | idle
  | drawn (call c : ℕ)

/-- `finish t body` runs the rest of `t`'s call; `body` is what Crypto++ answers. -/
inductive EncEvent (T : Type*)
  | encrypt (t : T)
  | finish (t : T) (body : Except String Bytes)

/-- What can be observed of a call: the counter value it drew, and how it ended. -/
inductive EncObs
  | drew (call c : ℕ)
  | encrypted (call : ℕ) (nonce : Bytes)
  | refused (call : ℕ)
  | failed (call : ℕ)

/-- `calls` and `hist` are history variables: no step of the source reads them. -/
structure EncState (T : Type*) where
  counter : ℕ
  pc : T → EncPc
  calls : ℕ
  hist : List EncObs

variable {T : Type*} [DecidableEq T]

/-- A fresh cipher: `counter_{0}`, nobody inside `Encrypt`. -/
def EncState.init : EncState T := ⟨0, fun _ => .idle, 0, []⟩

/-- One step of a thread inside `Encrypt`. -/
def encStep (noncePrefix : Vector UInt8 8) (s : EncState T) : EncEvent T → Option (EncState T)
  | .encrypt t =>
    match s.pc t with
    | .idle => some
        { counter := fetchAddCounter s.counter
          pc := Function.update s.pc t (.drawn s.calls s.counter)
          calls := s.calls + 1
          hist := s.hist ++ [.drew s.calls s.counter] }
    | .drawn _ _ => none
  | .finish t body =>
    match s.pc t with
    | .idle => none
    | .drawn call c => some
        { s with
          pc := Function.update s.pc t .idle
          hist := s.hist ++
            [match nonceOf noncePrefix c, body with
              | .error _, _ => .refused call
              | .ok _, .error _ => .failed call
              | .ok nonce, .ok _ => .encrypted call nonce] }

/-- The nonce of a call that succeeded. -/
def EncObs.nonce? : EncObs → Option Bytes
  | .encrypted _ nonce => some nonce
  | _ => none

/-- The nonces of the calls that succeeded, in the order in which they ended. -/
def noncesUsed (hist : List EncObs) : List Bytes := hist.filterMap EncObs.nonce?

/-- No two successful calls share a nonce, and a call that drew its counter
value after some call drew the last one produces no output. -/
def NonceSafe (hist : List EncObs) : Prop :=
  (noncesUsed hist).Nodup ∧
  ∀ call nonce, .encrypted call nonce ∈ hist →
    ∀ call', .drew call' counterMax ∈ hist → ¬ call' < call

/-- The step condition: an `Encrypt` that gets past Crypto++ with a usable
counter value is one of the first `2 ^ 32` calls. -/
def WithinCounter (s : EncState T) : EncEvent T → Prop
  | .encrypt _ => True
  | .finish t body =>
    body.isOk → ∀ call c, s.pc t = .drawn call c → c ≠ counterMax → call < 2 ^ 32

-- ════════════════════════════════════════════════════════════════════════
-- The invariant
-- ════════════════════════════════════════════════════════════════════════

/-- What the counter, the calls in progress and the history have to do with
each other in every reachable state. -/
structure EncInv (noncePrefix : Vector UInt8 8) (s : EncState T) : Prop where
  counter_eq : s.counter = s.calls % 2 ^ 32
  drawn_lt : ∀ t call c, s.pc t = .drawn call c → call < s.calls ∧ c = call % 2 ^ 32
  drawn_unique : ∀ t t' call c c', s.pc t = .drawn call c → s.pc t' = .drawn call c' → t = t'
  drawn_pending : ∀ t call c, s.pc t = .drawn call c →
    ∀ nonce, .encrypted call nonce ∉ s.hist
  drew_iff : ∀ call c, .drew call c ∈ s.hist ↔ call < s.calls ∧ c = call % 2 ^ 32
  encrypted_spec : ∀ call nonce, .encrypted call nonce ∈ s.hist →
    call < s.calls ∧ nonce = nonceBytes noncePrefix (call % 2 ^ 32)

omit [DecidableEq T] in
theorem EncInv.init (noncePrefix : Vector UInt8 8) :
    EncInv noncePrefix (EncState.init : EncState T) := by
  constructor <;> simp [EncState.init]

/-- What a step can be. -/
theorem encStep_cases {noncePrefix : Vector UInt8 8} {s s' : EncState T} {e : EncEvent T}
    (h : encStep noncePrefix s e = some s') :
    (∃ t, e = .encrypt t ∧ s.pc t = .idle ∧ s' =
      { counter := fetchAddCounter s.counter
        pc := Function.update s.pc t (.drawn s.calls s.counter)
        calls := s.calls + 1
        hist := s.hist ++ [.drew s.calls s.counter] }) ∨
    (∃ t body call c obs, e = .finish t body ∧ s.pc t = .drawn call c ∧
      s' = { s with pc := Function.update s.pc t .idle, hist := s.hist ++ [obs] } ∧
      ((c ≠ counterMax ∧ body.isOk = true ∧ obs = .encrypted call (nonceBytes noncePrefix c)) ∨
        ((c = counterMax ∨ body.isOk = false) ∧ (obs = .refused call ∨ obs = .failed call)))) := by
  cases e with
  | encrypt t =>
    simp only [encStep] at h
    split at h
    · next hpc => exact .inl ⟨t, rfl, hpc, (Option.some.inj h).symm⟩
    · cases h
  | finish t body =>
    simp only [encStep] at h
    split at h
    · cases h
    · next call c hpc =>
      refine .inr ⟨t, body, call, c, _, rfl, hpc, (Option.some.inj h).symm, ?_⟩
      by_cases hmax : c = counterMax
      · refine .inr ⟨.inl hmax, .inl ?_⟩
        rw [hmax, nonceOf_counterMax]
      · rw [nonceOf_of_ne _ hmax]
        cases body with
        | error what => exact .inr ⟨.inr rfl, .inr rfl⟩
        | ok body => exact .inl ⟨hmax, rfl, rfl⟩

theorem EncInv.step {noncePrefix : Vector UInt8 8} {s s' : EncState T} {e : EncEvent T}
    (hi : EncInv noncePrefix s) (h : encStep noncePrefix s e = some s') :
    EncInv noncePrefix s' := by
  rcases encStep_cases h with ⟨t, rfl, hpc, rfl⟩ | ⟨t, body, call, c, obs, rfl, hpc, rfl, hobs⟩
  · -- a new call draws the current counter value
    have split : ∀ {u k d}, Function.update s.pc t (.drawn s.calls s.counter) u = .drawn k d →
        (u = t ∧ k = s.calls ∧ d = s.counter) ∨ s.pc u = .drawn k d := by
      intro u k d hu
      by_cases hut : u = t
      · rw [hut, Function.update_self] at hu
        cases hu
        exact .inl ⟨hut, rfl, rfl⟩
      · rw [Function.update_of_ne hut] at hu
        exact .inr hu
    have hlt : ∀ {u k d}, s.pc u = .drawn k d → k < s.calls := fun hu => (hi.drawn_lt _ _ _ hu).1
    constructor
    · change fetchAddCounter s.counter = (s.calls + 1) % 2 ^ 32
      rw [fetchAddCounter, hi.counter_eq]
      omega
    · intro u k d hu
      rcases split hu with ⟨-, rfl, rfl⟩ | hu
      · exact ⟨Nat.lt_succ_self _, hi.counter_eq⟩
      · exact ⟨Nat.lt_succ_of_lt (hlt hu), (hi.drawn_lt u k d hu).2⟩
    · intro u u' k d d' hu hu'
      rcases split hu with ⟨hut, hk, -⟩ | hold <;> rcases split hu' with ⟨hut', hk', -⟩ | hold'
      · rw [hut, hut']
      · exact absurd (hlt hold') (by omega)
      · exact absurd (hlt hold) (by omega)
      · exact hi.drawn_unique u u' k d d' hold hold'
    · intro u k d hu nonce hmem
      rw [List.mem_append, List.mem_singleton] at hmem
      rcases hmem with hmem | hmem
      · rcases split hu with ⟨-, rfl, -⟩ | hu
        · exact Nat.lt_irrefl _ (hi.encrypted_spec _ _ hmem).1
        · exact hi.drawn_pending u k d hu nonce hmem
      · cases hmem
    · intro k d
      rw [List.mem_append, List.mem_singleton, hi.drew_iff]
      constructor
      · rintro (⟨hlt, hd⟩ | heq)
        · exact ⟨Nat.lt_succ_of_lt hlt, hd⟩
        · cases heq
          exact ⟨Nat.lt_succ_self _, hi.counter_eq⟩
      · rintro ⟨hlt, rfl⟩
        rcases Nat.lt_succ_iff_lt_or_eq.mp hlt with hlt | rfl
        · exact .inl ⟨hlt, rfl⟩
        · right
          rw [hi.counter_eq]
    · intro k nonce hmem
      rw [List.mem_append, List.mem_singleton] at hmem
      rcases hmem with hmem | hmem
      · obtain ⟨hlt, hn⟩ := hi.encrypted_spec k nonce hmem
        exact ⟨Nat.lt_succ_of_lt hlt, hn⟩
      · cases hmem
  · -- a call in progress ends
    obtain ⟨hcall, hc⟩ := hi.drawn_lt t call c hpc
    have other : ∀ {u k d}, Function.update s.pc t EncPc.idle u = .drawn k d →
        u ≠ t ∧ s.pc u = .drawn k d := by
      intro u k d hu
      by_cases hut : u = t
      · rw [hut, Function.update_self] at hu
        cases hu
      · rw [Function.update_of_ne hut] at hu
        exact ⟨hut, hu⟩
    have hnew : ∀ k nonce, EncObs.encrypted k nonce = obs →
        k = call ∧ nonce = nonceBytes noncePrefix c := by
      rintro k nonce heq
      rcases hobs with ⟨-, -, rfl⟩ | ⟨-, rfl | rfl⟩ <;> cases heq
      exact ⟨rfl, rfl⟩
    constructor
    · exact hi.counter_eq
    · exact fun u k d hu => hi.drawn_lt u k d (other hu).2
    · exact fun u u' k d d' hu hu' => hi.drawn_unique u u' k d d' (other hu).2 (other hu').2
    · intro u k d hu nonce hmem
      obtain ⟨hut, hu⟩ := other hu
      rw [List.mem_append, List.mem_singleton] at hmem
      rcases hmem with hmem | hmem
      · exact hi.drawn_pending u k d hu nonce hmem
      · obtain ⟨rfl, -⟩ := hnew k nonce hmem
        exact hut (hi.drawn_unique u t _ _ _ hu hpc)
    · intro k d
      rw [List.mem_append, List.mem_singleton, hi.drew_iff]
      refine ⟨fun hor => hor.resolve_right ?_, .inl⟩
      rintro rfl
      rcases hobs with ⟨-, -, hobs⟩ | ⟨-, hobs | hobs⟩ <;> cases hobs
    · intro k nonce hmem
      rw [List.mem_append, List.mem_singleton] at hmem
      rcases hmem with hmem | hmem
      · exact hi.encrypted_spec k nonce hmem
      · obtain ⟨rfl, rfl⟩ := hnew k nonce hmem
        exact ⟨hcall, by rw [hc]⟩

-- ════════════════════════════════════════════════════════════════════════
-- The exact condition
-- ════════════════════════════════════════════════════════════════════════

omit [DecidableEq T] in
/-- In a nonce-safe history every successful call is one of the first `2 ^ 32`:
a later one would have drawn after the counter was exhausted. -/
theorem EncInv.call_lt_of_nonceSafe {noncePrefix : Vector UInt8 8} {s : EncState T}
    (hi : EncInv noncePrefix s) (hsafe : NonceSafe s.hist) {call : ℕ} {nonce : Bytes}
    (hmem : .encrypted call nonce ∈ s.hist) : call < 2 ^ 32 := by
  by_contra hge
  obtain ⟨hcall, -⟩ := hi.encrypted_spec call nonce hmem
  have hdrew : EncObs.drew counterMax counterMax ∈ s.hist := by
    rw [hi.drew_iff]
    simp only [counterMax]
    omega
  refine hsafe.2 call nonce hmem counterMax hdrew ?_
  simp only [counterMax]
  omega

/-- Observations that carry no nonce keep a history safe. -/
theorem nonceSafe_append_of_nonce?_eq_none {hist : List EncObs} {obs : EncObs}
    (hnone : obs.nonce? = none) (hsafe : NonceSafe hist)
    (hdrew : ∀ call, obs = .drew call counterMax →
      ∀ call' nonce, .encrypted call' nonce ∈ hist → call' ≤ call) :
    NonceSafe (hist ++ [obs]) := by
  constructor
  · rw [noncesUsed, List.filterMap_append, List.filterMap_cons_none hnone, List.filterMap_nil,
      List.append_nil]
    exact hsafe.1
  · intro call nonce hmem call' hmem'
    rw [List.mem_append, List.mem_singleton] at hmem hmem'
    rcases hmem with hmem | rfl
    · rcases hmem' with hmem' | hmem'
      · exact hsafe.2 call nonce hmem call' hmem'
      · exact Nat.not_lt_of_le (hdrew call' hmem'.symm call nonce hmem)
    · simp [EncObs.nonce?] at hnone

/-- One step from a safe history keeps it safe exactly when it stays within the
counter. -/
theorem nonceSafe_step_iff {noncePrefix : Vector UInt8 8} {s s' : EncState T} {e : EncEvent T}
    (hi : EncInv noncePrefix s) (hsafe : NonceSafe s.hist)
    (h : encStep noncePrefix s e = some s') : NonceSafe s'.hist ↔ WithinCounter s e := by
  rcases encStep_cases h with ⟨t, rfl, hpc, rfl⟩ | ⟨t, body, call, c, obs, rfl, hpc, rfl, hobs⟩
  · refine ⟨fun _ => trivial, fun _ => ?_⟩
    refine nonceSafe_append_of_nonce?_eq_none rfl hsafe fun call heq call' nonce hmem => ?_
    rw [← (EncObs.drew.inj heq).1]
    exact Nat.le_of_lt (hi.encrypted_spec call' nonce hmem).1
  · obtain ⟨hcall, hc⟩ := hi.drawn_lt t call c hpc
    rcases hobs with ⟨hmax, hok, rfl⟩ | ⟨hend, hobs⟩
    · -- the call produces output
      constructor
      · intro hsafe' _ k d hk _
        rw [hpc] at hk
        cases hk
        exact (hi.step h).call_lt_of_nonceSafe hsafe'
          (List.mem_append_right _ (List.mem_singleton.mpr rfl))
      · intro hwithin
        have hlt : call < 2 ^ 32 := hwithin hok call c hpc hmax
        obtain rfl : c = call := by rw [hc, Nat.mod_eq_of_lt hlt]
        constructor
        · rw [noncesUsed, List.filterMap_append]
          refine List.nodup_append.mpr ⟨hsafe.1, List.nodup_singleton _, ?_⟩
          intro n hn n' hn'
          obtain ⟨obs, hobs, hobsn⟩ := List.mem_filterMap.mp hn
          obtain rfl : n' = nonceBytes noncePrefix c := List.mem_singleton.mp hn'
          cases obs with
          | encrypted k m =>
            have hk : k < 2 ^ 32 := hi.call_lt_of_nonceSafe hsafe hobs
            have hm := (hi.encrypted_spec k m hobs).2
            rw [Nat.mod_eq_of_lt hk] at hm
            obtain rfl : m = n := Option.some.inj hobsn
            rintro rfl
            -- the same nonce would mean the same call, but that one is still pending
            obtain rfl : c = k := nonceBytes_injective noncePrefix hlt hk hm
            exact hi.drawn_pending t _ _ hpc _ hobs
          | _ => cases hobsn
        · intro k nonce hmem k' hmem'
          rw [List.mem_append, List.mem_singleton] at hmem hmem'
          have hmem' := hmem'.resolve_right (by simp)
          obtain ⟨-, hk'⟩ := (hi.drew_iff k' counterMax).mp hmem'
          rcases hmem with hmem | hmem
          · exact hsafe.2 k nonce hmem k' hmem'
          · cases hmem
            simp only [counterMax] at hk' hlt
            omega
    · -- the call throws: both sides hold
      have hnone : obs.nonce? = none := by
        rcases hobs with rfl | rfl <;> rfl
      constructor
      · intro _ hok k d hk hd
        rw [hpc] at hk
        cases hk
        rcases hend with hend | hend
        · exact absurd hend hd
        · rw [hend] at hok
          cases hok
      · intro _
        refine nonceSafe_append_of_nonce?_eq_none hnone hsafe fun k heq => ?_
        rcases hobs with rfl | rfl <;> cases heq

theorem NonceSafe.nil : NonceSafe [] := by
  constructor
  · exact List.nodup_nil
  · intro _ _ hmem
    cases hmem

/-- Over every run of any number of threads, failing calls included, nonces
stay unique and an exhausted cipher stays silent exactly when no call beyond
the first `2 ^ 32` gets past Crypto++ with a wrapped counter value. -/
theorem nonceSafe_iff_withinCounter (noncePrefix : Vector UInt8 8) (es : List (EncEvent T)) :
    Throughout (encStep noncePrefix) (fun s => NonceSafe s.hist) EncState.init es ↔
      Along (encStep noncePrefix) WithinCounter EncState.init es :=
  throughout_iff_along (I := EncInv noncePrefix)
    (fun _ _ _ hi h => hi.step h) (fun _ _ _ hi hsafe h => nonceSafe_step_iff hi hsafe h)
    (EncInv.init noncePrefix) NonceSafe.nil es

-- ════════════════════════════════════════════════════════════════════════
-- Both sides of the boundary
-- ════════════════════════════════════════════════════════════════════════

/-- How many `Encrypt` calls a run starts. -/
def encryptCalls : List (EncEvent T) → ℕ
  | [] => 0
  | .encrypt _ :: es => encryptCalls es + 1
  | .finish _ _ :: es => encryptCalls es

private theorem along_withinCounter {noncePrefix : Vector UInt8 8} {s : EncState T}
    {es : List (EncEvent T)} (hi : EncInv noncePrefix s)
    (hle : s.calls + encryptCalls es ≤ 2 ^ 32) :
    Along (encStep noncePrefix) WithinCounter s es := by
  induction es generalizing s with
  | nil => trivial
  | cons e es ih =>
    intro s' h
    have hi' := hi.step h
    rcases encStep_cases h with ⟨t, rfl, hpc, rfl⟩ | ⟨t, body, call, c, obs, rfl, hpc, rfl, -⟩
    · refine ⟨trivial, ih hi' ?_⟩
      change s.calls + 1 + encryptCalls es ≤ 2 ^ 32
      change s.calls + (encryptCalls es + 1) ≤ 2 ^ 32 at hle
      omega
    · refine ⟨fun _ k d hk _ => ?_, ih hi' hle⟩
      have := (hi.drawn_lt t k d hk).1
      omega

/-- Up to `2 ^ 32` calls, in any order and with any failures, are nonce-safe. -/
theorem nonceSafe_of_calls_le (noncePrefix : Vector UInt8 8) {es : List (EncEvent T)}
    (hle : encryptCalls es ≤ 2 ^ 32) :
    Throughout (encStep noncePrefix) (fun s => NonceSafe s.hist) EncState.init es := by
  rw [nonceSafe_iff_withinCounter]
  refine along_withinCounter (EncInv.init noncePrefix) ?_
  change 0 + encryptCalls es ≤ 2 ^ 32
  omega

/-- `n` calls of one thread, one after the other; Crypto++ never throws. -/
def encryptRounds : ℕ → List (EncEvent Unit)
  | 0 => []
  | n + 1 => encryptRounds n ++ [.encrypt (), .finish () (.ok [])]

/-- What `encryptRounds n` leaves in the history. -/
def roundsHist (noncePrefix : Vector UInt8 8) : ℕ → List EncObs
  | 0 => []
  | n + 1 => roundsHist noncePrefix n ++
      [.drew n (n % 2 ^ 32),
        if n % 2 ^ 32 = counterMax then .refused n
        else .encrypted n (nonceBytes noncePrefix (n % 2 ^ 32))]

theorem run_encryptRounds (noncePrefix : Vector UInt8 8) (n : ℕ) :
    run (encStep noncePrefix) EncState.init (encryptRounds n) =
      some ⟨n % 2 ^ 32, fun _ => .idle, n, roundsHist noncePrefix n⟩ := by
  induction n with
  | zero => rfl
  | succ n ih =>
    rw [encryptRounds, run_append_of_eq _ ih, run_cons]
    simp only [encStep, Option.bind_some, run_singleton, Function.update_self,
      Function.update_idem, Option.some.injEq, EncState.mk.injEq]
    refine ⟨by rw [fetchAddCounter]; omega, funext fun x => ?_, trivial, ?_⟩
    · rw [Subsingleton.elim x (), Function.update_self]
    rw [roundsHist, List.append_assoc, List.singleton_append]
    congr 2
    by_cases hmax : n % 2 ^ 32 = counterMax
    · rw [if_pos hmax, hmax, nonceOf_counterMax]
    · rw [if_neg hmax, nonceOf_of_ne _ hmax]

/-- The histories of longer runs extend those of shorter ones. -/
theorem mem_roundsHist_of_le (noncePrefix : Vector UInt8 8) {n m : ℕ} (h : n ≤ m)
    {obs : EncObs} (hmem : obs ∈ roundsHist noncePrefix n) : obs ∈ roundsHist noncePrefix m := by
  induction h with
  | refl => exact hmem
  | step _ ih => exact List.mem_append_left _ ih

/-- A call whose number is a positive multiple of `2 ^ 32` succeeds under the
nonce of the very first call. -/
theorem not_nonceSafe_roundsHist (noncePrefix : Vector UInt8 8) {n : ℕ} (hpos : 1 ≤ n)
    (hwrap : n % 2 ^ 32 = 0) : ¬ NonceSafe (roundsHist noncePrefix (n + 1)) := by
  rintro ⟨hnodup, -⟩
  have hne : ¬ (0 : ℕ) = counterMax := by decide
  rw [roundsHist, hwrap, if_neg hne, noncesUsed, List.filterMap_append] at hnodup
  have hone : EncObs.encrypted 0 (nonceBytes noncePrefix 0) ∈ roundsHist noncePrefix 1 :=
    List.mem_cons_of_mem _ List.mem_cons_self
  have hfirst : nonceBytes noncePrefix 0 ∈
      (roundsHist noncePrefix n).filterMap EncObs.nonce? :=
    List.mem_filterMap.mpr ⟨_, mem_roundsHist_of_le noncePrefix hpos hone, rfl⟩
  have hlast : nonceBytes noncePrefix 0 ∈ List.filterMap EncObs.nonce?
      [.drew n 0, .encrypted n (nonceBytes noncePrefix 0)] := List.mem_singleton.mpr rfl
  exact (List.nodup_append.mp hnodup).2.2 _ hfirst _ hlast rfl

theorem not_throughout_encryptRounds (noncePrefix : Vector UInt8 8) (n : ℕ) (hpos : 1 ≤ n)
    (hwrap : n % 2 ^ 32 = 0) :
    ¬ Throughout (encStep noncePrefix) (fun s => NonceSafe s.hist) EncState.init
      (encryptRounds (n + 1)) := by
  intro hsafe
  exact not_nonceSafe_roundsHist noncePrefix hpos hwrap
    (hsafe.last (run_encryptRounds noncePrefix (n + 1)))

/-- After `2 ^ 32` calls, the last of which is refused, the next one succeeds
under the very first nonce. -/
theorem encrypt_reuses_nonce :
    ¬ Throughout (encStep (Vector.replicate 8 0)) (fun s => NonceSafe s.hist) EncState.init
      (encryptRounds (2 ^ 32 + 1)) :=
  not_throughout_encryptRounds _ _ Nat.one_le_two_pow (Nat.mod_self _)

end LoggerHigh
