import LoggerHigh.Mmap.StoreDelivery

/-!
# What was called and what came of it

The payloads of the calls of `Append` by a single client, and the calls of
`on_persist` with the state these work on.

## Main definitions

- `Pc.appending` — the payload of the `Append` a thread is in
- `CallsInv` — calls, returns and the call in progress

## Main results

- `CallsInv.step` — every step keeps the invariant
- `StoreMove.env_cases` — `on_persist` is called with frames a scan finds, and only then
-/

namespace LoggerHigh

variable {T σ : Type*}

/-- The payload of the `Append` that wants another master. -/
def Caller.appending : Caller → List Bytes
  | .append data => [data]
  | .flush _ => []

/-- The payload of the `Append` the thread is in. -/
def Pc.appending : Pc → List Bytes
  | .appendLoad data | .appendWrite data _ _ | .appendLock data _ => [data]
  | .waitFree k | .exchange k _ | .count k _ | .enqueue k _ | .post k | .postLocked k
  | .inlineDrain k => k.appending
  | .idle | .flushLock _ | .flushWait _ | .dtorClose | .dtorReturn => []

/-- What a single client has called `Append` with is what has been accepted, what
has been turned away, and the call in progress. -/
structure CallsInv (s : StoreState Unit σ) : Prop where
  sub : (accepted s.hist ++ (s.pc ()).appending).Sublist (called s.hist)
  length_eq : (called s.hist).length =
    (accepted s.hist).length + (rejected s.hist).length + (s.pc ()).appending.length

theorem rejected_append (h h' : List (Obs T)) : rejected (h ++ h') = rejected h ++ rejected h' :=
  List.filterMap_append

theorem called_append (h h' : List (Obs T)) : called (h ++ h') = called h ++ called h' :=
  List.filterMap_append

variable {cfg : StoreConfig} {onPersist : σ → Bytes → σ × Bool} {s s' : StoreState Unit σ}

theorem Asking.appending {k : Caller} (h : Asking s () k) :
    (s.pc ()).appending = k.appending := by
  cases h with
  | append data hpc | flush dtor hpc _ | wait k hpc =>
    rw [hpc]
    rfl

theorem Caller.appending_swapped (k : Caller) : k.swapped.appending = k.appending := by
  cases k <;> rfl

/-- Steps that neither call `Append` nor return from it. -/
theorem CallsInv.same (h : CallsInv s) {obs : List (Obs Unit)} (hhist : s'.hist = s.hist ++ obs)
    (haccepted : accepted obs = []) (hrejected : rejected obs = []) (hcalled : called obs = [])
    (hpc : (s'.pc ()).appending = (s.pc ()).appending) : CallsInv s' := by
  constructor
  · rw [hhist, accepted_append, called_append, haccepted, hcalled, hpc, List.append_nil,
      List.append_nil]
    exact h.sub
  · rw [hhist, accepted_append, rejected_append, called_append, haccepted, hrejected, hcalled, hpc,
      List.append_nil, List.append_nil, List.append_nil]
    exact h.length_eq

/-- A call of `Append` starts. -/
theorem CallsInv.call (h : CallsInv s) {t : Unit} {d : Bytes}
    (hhist : s'.hist = s.hist ++ [.appendCall t d]) (hidle : (s.pc ()).appending = [])
    (hpc : (s'.pc ()).appending = [d]) : CallsInv s' := by
  obtain ⟨hsub, hlength⟩ := h
  rw [hidle, List.append_nil] at hsub
  rw [hidle] at hlength
  have haccepted : accepted [(.appendCall t d : Obs Unit)] = [] := rfl
  have hrejected : rejected [(.appendCall t d : Obs Unit)] = [] := rfl
  have hcalled : called [(.appendCall t d : Obs Unit)] = [d] := rfl
  constructor
  · rw [hhist, accepted_append, called_append, haccepted, hcalled, hpc, List.append_nil]
    exact hsub.append (.refl _)
  · rw [hhist, accepted_append, rejected_append, called_append, haccepted, hrejected, hcalled, hpc]
    simp only [List.append_nil, List.length_append, List.length_nil, List.length_singleton] at *
    omega

/-- A call of `Append` returns. -/
theorem CallsInv.ret (h : CallsInv s) {t : Unit} {data : Bytes} {ok : Bool}
    (hhist : s'.hist = s.hist ++ [.appendRet t data ok]) (hbusy : (s.pc ()).appending = [data])
    (hpc : (s'.pc ()).appending = []) : CallsInv s' := by
  obtain ⟨hsub, hlength⟩ := h
  rw [hbusy] at hsub hlength
  have hcalled : called [(.appendRet t data ok : Obs Unit)] = [] := rfl
  cases ok with
  | true =>
    have haccepted : accepted [(.appendRet t data true : Obs Unit)] = [data] := rfl
    have hrejected : rejected [(.appendRet t data true : Obs Unit)] = [] := rfl
    constructor
    · rw [hhist, accepted_append, called_append, haccepted, hcalled, hpc, List.append_nil,
        List.append_nil]
      exact hsub
    · rw [hhist, accepted_append, rejected_append, called_append, haccepted, hrejected, hcalled,
        hpc]
      simp only [List.append_nil, List.length_append, List.length_nil, List.length_singleton] at *
      omega
  | false =>
    have haccepted : accepted [(.appendRet t data false : Obs Unit)] = [] := rfl
    have hrejected : rejected [(.appendRet t data false : Obs Unit)] = [data] := rfl
    constructor
    · rw [hhist, accepted_append, called_append, haccepted, hcalled, hpc, List.append_nil,
        List.append_nil, List.append_nil]
      exact (List.sublist_append_left _ _).trans hsub
    · rw [hhist, accepted_append, rejected_append, called_append, haccepted, hrejected, hcalled,
        hpc]
      simp only [List.append_nil, List.length_append, List.length_nil, List.length_singleton] at *
      omega

/-- Every step keeps the invariant. -/
theorem CallsInv.step {e : StoreEvent Unit} (h : CallsInv s)
    (hm : StoreMove cfg onPersist s e s') : CallsInv s' := by
  have hmove : ∀ {x : Pc}, s'.pc () = x → s'.hist = s.hist →
      x.appending = (s.pc ()).appending → CallsInv s' := by
    intro x hpc hhist happending
    exact h.same (hhist.trans (List.append_nil _).symm) rfl rfl rfl (by rw [hpc, happending])
  cases hm with
  | appendNull t data _ hpc =>
    have hidle : (s.pc ()).appending = [] := by rw [show s.pc () = _ from hpc]; rfl
    have hhist : (s.observe [.appendCall t [], .appendRet t [] false]).hist =
      s.hist ++ [.appendCall t [], .appendRet t [] false] := rfl
    have hcalled : called [(.appendCall t [] : Obs Unit), .appendRet t [] false] = [[]] := rfl
    have hrejected : rejected [(.appendCall t [] : Obs Unit), .appendRet t [] false] = [[]] := rfl
    have haccepted : accepted [(.appendCall t [] : Obs Unit), .appendRet t [] false] = [] := rfl
    constructor
    · rw [hhist, accepted_append, called_append, haccepted, hcalled, List.append_nil]
      exact h.sub.trans (List.sublist_append_left _ _)
    · rw [hhist, accepted_append, rejected_append, called_append, haccepted, hrejected, hcalled]
      have hlength := h.length_eq
      simp only [StoreState.observe, List.append_nil, List.length_append, List.length_singleton]
      omega
  | appendCall t _ d _ hpc =>
    exact h.call rfl (by rw [show s.pc () = _ from hpc]; rfl)
      (congrArg Pc.appending (StoreState.goto_self _ _ _))
  | flushCall t _ hpc =>
    exact h.same rfl rfl rfl rfl (by rw [show s.pc () = _ from hpc, StoreState.goto_self]; rfl)
  | destroyCall t _ hidle =>
    exact h.same rfl rfl rfl rfl (by rw [show s.pc () = _ from hidle t, StoreState.goto_self]; rfl)
  | writeTrue t data cur pc old hpc | appendStopped t data cur hpc =>
    exact h.ret rfl (by rw [show s.pc () = _ from hpc]; rfl)
      (congrArg Pc.appending (StoreState.goto_self _ _ _))
  | giveUpAppend e t data seq hask =>
    exact h.ret rfl hask.appending (congrArg Pc.appending (StoreState.goto_self _ _ _))
  | flushStopped t dtor hpc | flushDone t dtor hpc =>
    refine h.same rfl rfl rfl rfl ((congrArg Pc.appending (StoreState.goto_self _ _ _)).trans ?_)
    rw [show s.pc () = _ from hpc]
    cases dtor <;> rfl
  | load t data hpc | write t data cur pc pc' hpc | writeFalse t data cur pc hpc
  | appendRetry t data cur hpc | flushEmpty t dtor hpc | exchange t k next hpc | count t k old hpc
  | enqueueIdle t k old hpc | postNext t k hpc | close t hpc | finish t hpc =>
    exact hmove (StoreState.goto_self _ _ _) rfl (by rw [show s.pc () = _ from hpc]; rfl)
  | take t k b rest hask | extend t k buf hask | startWait t k hask =>
    exact hmove (StoreState.goto_self _ _ _) rfl hask.appending.symm
  | giveUpFlush e t dtor seq hask =>
    exact hmove (StoreState.goto_self _ _ _) rfl hask.appending.symm
  | runInline t k hpc =>
    refine hmove (StoreState.goto_self _ _ _) rfl ?_
    rcases hpc with hpc | hpc <;> rw [show s.pc () = _ from hpc] <;> rfl
  | enqueueRunning t k old hpc | postQueued t k hpc =>
    refine hmove (StoreState.swapDone_self _ _ _) rfl ?_
    rw [show s.pc () = _ from hpc, k.appending_swapped]
    rfl
  | drainReturn runner hexec _ =>
    cases runner with
    | none => exact hmove rfl rfl rfl
    | some t =>
      simp only [StoreState.drainReturn] at hmove ⊢
      split at hmove
      · next k hpc =>
        refine hmove (StoreState.swapDone_self _ _ _) rfl ?_
        rw [show s.pc () = _ from hpc, k.appending_swapped]
        rfl
      · exact hmove rfl rfl rfl
  | scanFrame runner b endPos pos p hexec hframe => exact h.same rfl rfl rfl rfl rfl
  | _ => exact hmove rfl rfl rfl

/-- A new store has not been called. -/
theorem CallsInv.create {env : σ} (hcreate : StoreState.create cfg env = some s) : CallsInv s := by
  obtain ⟨hhist, hidle⟩ := StoreState.create_hist hcreate
  constructor
  · rw [hhist, hidle]
    exact .refl _
  · rw [hhist, hidle]
    rfl

/-- A client outside `Append` of which nothing has been turned away: what it has
called `Append` with has been accepted. -/
theorem CallsInv.accepted_eq (h : CallsInv s) (hidle : s.pc () = .idle)
    (hkept : rejected s.hist = []) : accepted s.hist = called s.hist := by
  have hsub := h.sub
  have hlength := h.length_eq
  rw [hidle, Pc.appending, List.append_nil] at hsub
  rw [hidle, hkept] at hlength
  exact hsub.eq_of_length hlength.symm

/-- What has been accepted is among what `Append` has been called with, in this order. -/
theorem CallsInv.accepted_sublist (h : CallsInv s) : (accepted s.hist).Sublist (called s.hist) :=
  (List.sublist_append_left _ _).trans h.sub

-- ════════════════════════════════════════════════════════════════════════
-- Any number of threads
-- ════════════════════════════════════════════════════════════════════════

section Threads

variable [DecidableEq T] [Fintype T] {s s' : StoreState T σ} {e : StoreEvent T}

/-- A call of `Append` adds its payload to the calls. -/
theorem called_of_append {t : T} {data : Bytes}
    (h : storeStep cfg onPersist s (.append t (some data)) = some s') :
    called s'.hist = called s.hist ++ [data] := by
  rw [storeStep, appendCallStep] at h
  split at h
  · cases h
  · split at h
    all_goals
      cases h
      exact called_append _ _

omit [Fintype T] in
/-- Other steps add none. -/
theorem StoreMove.called_eq (hm : StoreMove cfg onPersist s e s')
    (hcall : ∀ t data, e ≠ .append t data) : called s'.hist = called s.hist := by
  have hgrows : ∀ obs : List (Obs T), called obs = [] →
      called (s.hist ++ obs) = called s.hist := by
    intro obs hobs
    rw [called_append, hobs, List.append_nil]
  cases hm with
  | appendNull t data => exact absurd rfl (hcall t data)
  | appendCall t data => exact absurd rfl (hcall t data)
  | flushCall | destroyCall | writeTrue | appendStopped | flushStopped | giveUpAppend | flushDone
  | scanFrame => exact hgrows _ rfl
  | drainReturn runner _ _ =>
    cases runner with
    | none => rfl
    | some t =>
      simp only [StoreState.drainReturn]
      split <;> rfl
  | _ => rfl

omit [Fintype T] in
/-- A step calls `on_persist` once, with a frame of a length `Write` takes, or not at all. -/
theorem StoreMove.env_cases (hm : StoreMove cfg onPersist s e s') :
    s'.env = s.env ∧ persisted s'.hist = persisted s.hist ∨
      ∃ p, FrameLength p ∧ s'.env = (onPersist s.env p).1 ∧
        persisted s'.hist = persisted s.hist ++ [p] := by
  have hgrows : ∀ obs : List (Obs T), persisted obs = [] →
      persisted (s.hist ++ obs) = persisted s.hist := by
    intro obs hobs
    rw [persisted_append, hobs, List.append_nil]
  cases hm with
  | scanFrame runner b endPos pos p hexec hframe =>
    exact .inr ⟨p, (MmapBuffer.stored_of_frameAt hframe).1, rfl, persisted_append _ _⟩
  | appendNull | appendCall | flushCall | destroyCall | writeTrue | appendStopped | flushStopped
  | giveUpAppend | flushDone => exact .inl ⟨rfl, hgrows _ rfl⟩
  | drainReturn runner _ _ =>
    cases runner with
    | none => exact .inl ⟨rfl, rfl⟩
    | some t =>
      simp only [StoreState.drainReturn]
      split <;> exact .inl ⟨rfl, rfl⟩
  | _ => exact .inl ⟨rfl, rfl⟩

end Threads

end LoggerHigh
