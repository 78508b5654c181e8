import LoggerHigh.Mmap.StoreCalls
import LoggerHigh.Mmap.StoreFlushFailure

/-!
# One `Append` at a time

Threads whose calls of `Append` do not overlap, as under a mutex of their own, while any
number of them call `Flush`. As long as no slot is reserved in a buffer that has been
recycled, the store is still a queue: a `Flush` may swap the master away from under an
`Append`, but nothing is put behind the buffer that this `Append` writes to before it
returns.

## Main definitions

- `OneAppend` — no `Append` is called while another one is under way
- `CallChange` — what a step does to the calls of `Append`
- `SerialCalls` — calls, returns and the call in progress
- `SerialInv` — the simulation relation
- `SerialState` — what holds in every state of such a store

## Main results

- `SerialInv.flow` — a step of the store is matched by operations of the queue
- `serial_store_fifo` — what has been persisted, and all of it when the store is destroyed
-/

namespace LoggerHigh

open Transition Contents ThreadSum

variable {T σ : Type*}

/-- No `Append` is called while another one is under way. -/
def OneAppend (s : StoreState T σ) : StoreEvent T → Prop
  | .append _ _ => ∀ t, (s.pc t).appending = []
  | _ => True

instance [Fintype T] (s : StoreState T σ) : (e : StoreEvent T) → Decidable (OneAppend s e)
  | .append _ _ => inferInstanceAs (Decidable (∀ t, (s.pc t).appending = []))
  | .flush _ | .destroy _ | .step _ | .createFails _ | .timeout _ | .drain | .shutdown =>
    isTrue trivial

-- ════════════════════════════════════════════════════════════════════════
-- The calls of Append
-- ════════════════════════════════════════════════════════════════════════

/-- What a step does to the calls of `Append`: it calls one, returns from one, turns a
null pointer away, or none of these. -/
inductive CallChange [DecidableEq T] (s s' : StoreState T σ) (e : StoreEvent T) : Prop
  | same (obs : List (Obs T)) (hhist : s'.hist = s.hist ++ obs) (haccepted : accepted obs = [])
      (hrejected : rejected obs = []) (hcalled : called obs = [])
      (hpc : ∀ u, (s'.pc u).appending = (s.pc u).appending)
  | null (t : T) (data : Option Bytes) (he : e = .append t data) (hpc : s'.pc = s.pc)
      (hhist : s'.hist = s.hist ++ [.appendCall t [], .appendRet t [] false])
  | call (t : T) (data : Option Bytes) (d : Bytes) (he : e = .append t data)
      (hpc : s'.pc = Function.update s.pc t (.appendLoad d))
      (hhist : s'.hist = s.hist ++ [.appendCall t d])
  | ret (t : T) (d : Bytes) (ok : Bool) (hbusy : (s.pc t).appending = [d])
      (hpc : s'.pc = Function.update s.pc t .idle)
      (hhist : s'.hist = s.hist ++ [.appendRet t d ok])

variable [DecidableEq T] [Fintype T] {cfg : StoreConfig} {onPersist : σ → Bytes → σ × Bool}
  {s s' : StoreState T σ} {e : StoreEvent T} {slots pend pend' : ℕ → List Bytes}
  {rest : ℕ → ByteMemory}

omit [DecidableEq T] [Fintype T] in
theorem Asking.appending_eq {t : T} {k : Caller} (h : Asking s t k) :
    (s.pc t).appending = k.appending := by
  cases h with
  | append data hpc | flush dtor hpc _ | wait k hpc =>
    rw [hpc]
    rfl

omit [Fintype T] in
/-- Every step does one of the four. -/
theorem StoreMove.callChange (hm : StoreMove cfg onPersist s e s') : CallChange s s' e := by
  have hmove : ∀ {s' : StoreState T σ} {t : T} {x y : Pc} (obs : List (Obs T)),
      s'.pc = Function.update s.pc t x → s.pc t = y → x.appending = y.appending →
      s'.hist = s.hist ++ obs → accepted obs = [] → rejected obs = [] → called obs = [] →
      CallChange s s' e := by
    rintro s' t x y obs hpc rfl hxy hhist haccepted hrejected hcalled
    refine .same obs hhist haccepted hrejected hcalled fun u => ?_
    rw [hpc]
    exact apply_update hxy u
  have hstay : ∀ {s' : StoreState T σ}, s'.pc = s.pc → s'.hist = s.hist → CallChange s s' e :=
    fun hpc hhist =>
      .same [] (hhist.trans (List.append_nil _).symm) rfl rfl rfl fun u => by rw [hpc]
  have hnone : s.hist = s.hist ++ [] := (List.append_nil _).symm
  cases hm with
  | appendNull t data => exact .null t data rfl rfl rfl
  | appendCall t data d => exact .call t data d rfl rfl rfl
  | flushCall t _ hpc => exact hmove _ rfl hpc rfl rfl rfl rfl rfl
  | destroyCall t _ hidle => exact hmove _ rfl (hidle t) rfl rfl rfl rfl rfl
  | writeTrue t data cur pc old hpc | appendStopped t data cur hpc =>
    exact .ret t data _ (by rw [hpc]; rfl) rfl rfl
  | giveUpAppend e t data seq hask => exact .ret t data false hask.appending_eq rfl rfl
  | flushStopped t dtor hpc | flushDone t dtor hpc =>
    exact hmove _ rfl hpc (by cases dtor <;> rfl) rfl rfl rfl rfl
  | load t data hpc | write t data cur pc pc' hpc | writeFalse t data cur pc hpc
  | appendRetry t data cur hpc | flushEmpty t dtor hpc | exchange t k next hpc | count t k old hpc
  | enqueueIdle t k old hpc | postNext t k hpc | close t hpc | finish t hpc =>
    exact hmove [] rfl hpc rfl hnone rfl rfl rfl
  | take t k b rest hask | extend t k buf hask | startWait t k hask =>
    exact hmove [] rfl rfl hask.appending_eq.symm hnone rfl rfl rfl
  | giveUpFlush e t dtor seq hask =>
    exact hmove [] rfl rfl hask.appending_eq.symm hnone rfl rfl rfl
  | runInline t k hpc =>
    rcases hpc with hpc | hpc <;> exact hmove [] rfl hpc rfl hnone rfl rfl rfl
  | enqueueRunning t k old hpc | postQueued t k hpc =>
    exact hmove [] rfl hpc k.appending_swapped hnone rfl rfl rfl
  | drainReturn runner hexec _ =>
    cases runner with
    | none => exact hstay rfl rfl
    | some t =>
      simp only [StoreState.drainReturn]
      split
      · next k hpc => exact hmove [] rfl hpc k.appending_swapped hnone rfl rfl rfl
      · exact hstay rfl rfl
  | scanFrame runner b endPos pos p hexec hframe => exact .same _ rfl rfl rfl rfl fun _ => rfl
  | _ => exact hstay rfl rfl

/-- The payload of the call of `Append` in progress, if there is one, and no other. -/
def Now (s : StoreState T σ) (now : List Bytes) : Prop :=
  (now = [] ∧ ∀ t, (s.pc t).appending = []) ∨
    ∃ t, now ≠ [] ∧ (s.pc t).appending = now ∧ ∀ u, u ≠ t → (s.pc u).appending = []

/-- What `Append` has been called with is what has been accepted, what has been turned
away, and the call in progress; there is at most one. -/
structure SerialCalls (s : StoreState T σ) : Prop where
  counts : ∃ now, Now s now ∧ (accepted s.hist ++ now).Sublist (called s.hist) ∧
    (called s.hist).length = (accepted s.hist).length + (rejected s.hist).length + now.length

omit [DecidableEq T] [Fintype T] in
/-- Two threads that are inside `Append` are the same. -/
theorem SerialCalls.eq (h : SerialCalls s) {t u : T} (ht : (s.pc t).appending ≠ [])
    (hu : (s.pc u).appending ≠ []) : u = t := by
  obtain ⟨now, hnow, -⟩ := h.counts
  rcases hnow with ⟨-, hnone⟩ | ⟨t₀, -, -, hothers⟩
  · exact absurd (hnone t) ht
  · have heq : ∀ v, (s.pc v).appending ≠ [] → v = t₀ := fun v hv =>
      by_contra fun hne => hv (hothers v hne)
    rw [heq u hu, heq t ht]

omit [DecidableEq T] [Fintype T] in
/-- Nothing is in progress when no thread is inside `Append`. -/
theorem Now.eq_nil {now : List Bytes} (h : Now s now) (hnone : ∀ t, (s.pc t).appending = []) :
    now = [] := by
  rcases h with ⟨hnow, -⟩ | ⟨t, -, hnow, -⟩
  · exact hnow
  · exact hnow.symm.trans (hnone t)

omit [DecidableEq T] [Fintype T] in
/-- The call in progress is that of the thread inside `Append`. -/
theorem Now.eq_appending {now : List Bytes} (h : Now s now) {t : T}
    (ht : (s.pc t).appending ≠ []) :
    (s.pc t).appending = now ∧ ∀ u, u ≠ t → (s.pc u).appending = [] := by
  rcases h with ⟨-, hnone⟩ | ⟨t₀, -, hnow, hothers⟩
  · exact absurd (hnone t) ht
  · obtain rfl : t = t₀ := by_contra fun hne => ht (hothers t hne)
    exact ⟨hnow, hothers⟩

omit [Fintype T] in
/-- Every step that calls `Append` only when no thread is inside it keeps the accounts. -/
theorem SerialCalls.step (h : SerialCalls s) (hone : OneAppend s e)
    (hm : StoreMove cfg onPersist s e s') : SerialCalls s' := by
  obtain ⟨now, hnow, hsub, hlength⟩ := h.counts
  cases hm.callChange with
  | same obs hhist haccepted hrejected hcalled hpc =>
    refine ⟨now, ?_, ?_, ?_⟩
    · simp only [Now, hpc]
      exact hnow
    · rw [hhist, accepted_append, called_append, haccepted, hcalled, List.append_nil,
        List.append_nil]
      exact hsub
    · rw [hhist, accepted_append, rejected_append, called_append, haccepted, hrejected, hcalled,
        List.append_nil, List.append_nil, List.append_nil]
      exact hlength
  | null t data he hpc hhist =>
    subst he
    obtain rfl := hnow.eq_nil hone
    have haccepted : accepted [(.appendCall t [] : Obs T), .appendRet t [] false] = [] := rfl
    have hrejected : rejected [(.appendCall t [] : Obs T), .appendRet t [] false] = [[]] := rfl
    have hcalled : called [(.appendCall t [] : Obs T), .appendRet t [] false] = [[]] := rfl
    refine ⟨[], .inl ⟨rfl, fun u => hpc ▸ hone u⟩, ?_, ?_⟩
    · rw [hhist, accepted_append, called_append, haccepted, hcalled, List.append_nil]
      exact hsub.trans (List.sublist_append_left _ _)
    · rw [hhist, accepted_append, rejected_append, called_append, haccepted, hrejected, hcalled]
      simp only [List.length_append, List.length_singleton, List.length_nil] at hlength ⊢
      omega
  | call t data d he hpc hhist =>
    subst he
    obtain rfl := hnow.eq_nil hone
    have haccepted : accepted [(.appendCall t d : Obs T)] = [] := rfl
    have hrejected : rejected [(.appendCall t d : Obs T)] = [] := rfl
    have hcalled : called [(.appendCall t d : Obs T)] = [d] := rfl
    refine ⟨[d], .inr ⟨t, List.cons_ne_nil _ _, ?_, fun u hu => ?_⟩, ?_, ?_⟩
    · rw [hpc, Function.update_self]
      rfl
    · rw [hpc, Function.update_of_ne hu]
      exact hone u
    · rw [hhist, accepted_append, called_append, haccepted, hcalled, List.append_nil]
      rw [List.append_nil] at hsub
      exact hsub.append (.refl _)
    · rw [hhist, accepted_append, rejected_append, called_append, haccepted, hrejected, hcalled]
      simp only [List.length_append, List.length_singleton, List.length_nil] at hlength ⊢
      omega
  | ret t d ok hbusy hpc hhist =>
    obtain ⟨happending, hothers⟩ := hnow.eq_appending (by rw [hbusy]; exact List.cons_ne_nil _ _)
    obtain rfl := hbusy.symm.trans happending
    have hcalled : called [(.appendRet t d ok : Obs T)] = [] := rfl
    refine ⟨[], .inl ⟨rfl, fun u => ?_⟩, ?_, ?_⟩
    · rw [hpc]
      by_cases hut : u = t
      · rw [hut, Function.update_self]
        rfl
      · rw [Function.update_of_ne hut]
        exact hothers u hut
    · rw [hhist, accepted_append, called_append, hcalled, List.append_nil, List.append_nil]
      cases ok with
      | true => exact hsub
      | false =>
        have hrefused : accepted [(.appendRet t d false : Obs T)] = [] := rfl
        rw [hrefused, List.append_nil]
        exact (List.sublist_append_left _ _).trans hsub
    · rw [hhist, accepted_append, rejected_append, called_append, hcalled]
      cases ok <;>
        simp only [accepted, rejected, List.filterMap_cons, List.filterMap_nil, List.length_append,
          List.length_singleton, List.length_nil] at hlength ⊢ <;> omega

omit [DecidableEq T] [Fintype T] in
/-- A new store has not been called. -/
theorem SerialCalls.create {env : σ} (hcreate : StoreState.create cfg env = some s) :
    SerialCalls s := by
  obtain ⟨hhist, hidle⟩ := StoreState.create_hist hcreate
  refine ⟨[], .inl ⟨rfl, fun t => by rw [hidle t]; rfl⟩, ?_, ?_⟩
  · rw [hhist]
    exact .refl _
  · rw [hhist]
    rfl

-- ════════════════════════════════════════════════════════════════════════
-- The simulation
-- ════════════════════════════════════════════════════════════════════════

/-- The payload that is being put into a slot, if there is one: it is the last one that
waits in its buffer. -/
inductive Filling (s : StoreState T σ) (pend : ℕ → List Bytes) : List Bytes → Prop
  | nothing (hslots : ∀ t, (s.pc t).slotOn = none) : Filling s pend []
  | slot (t : T) (cur : ℕ) (data : Bytes) (front : List Bytes)
      (hslot : (s.pc t).slotOn = some (cur, data)) (hmem : cur ∈ s.queue)
      (hpend : pend cur = front ++ [data]) : Filling s pend [data]

/-- The store as a queue: nothing waits behind the buffer that an `Append` writes to, and
what waits in the buffers is what is in the queue, followed by the slot being filled. -/
structure SerialInv (s : StoreState T σ) (pend : ℕ → List Bytes) : Prop where
  behind : ∀ t data cur pc, s.pc t = .appendWrite data cur pc →
    ∀ front back, s.queue = front ++ cur :: back → ∀ b ∈ back, pend b = []
  queued : ∃ q filling, s.queue.flatMap pend = q ++ filling ∧
    run Fifo.step [] (transfers s.hist) = some q ∧ Filling s pend filling

omit [DecidableEq T] [Fintype T] in
/-- A thread with a slot is inside `Append`. -/
theorem Pc.appending_of_slotOn {pc : Pc} {cur : ℕ} {data : Bytes}
    (h : pc.slotOn = some (cur, data)) :
    pc.appending = [data] ∧ ∃ w, pc = .appendWrite data cur w := by
  cases pc with
  | appendWrite data' cur' w =>
    simp only [slotOn] at h
    split at h
    · cases h
      exact ⟨rfl, w, rfl⟩
    · cases h
  | _ => cases h

omit [Fintype T] in
/-- A thread that writes has written to the same buffer before, or has just loaded the master. -/
theorem StoreMove.writing_cases (hm : StoreMove cfg onPersist s e s') {t : T} {data : Bytes}
    {cur : ℕ} {pc : WritePc} (h : s'.pc t = .appendWrite data cur pc) :
    (∃ pc₀, s.pc t = .appendWrite data cur pc₀) ∨ cur = s'.master := by
  have hleave : ∀ {s' : StoreState T σ} {u : T} {x : Pc}, s'.pc = Function.update s.pc u x →
      x.writing = false → s'.pc t = .appendWrite data cur pc →
      ∃ pc₀, s.pc t = .appendWrite data cur pc₀ := by
    intro s' u x hpc hx hwrite
    rw [hpc] at hwrite
    rcases update_cases hwrite with ⟨-, rfl⟩ | ⟨-, hold⟩
    · cases hx
    · exact ⟨pc, hold⟩
  cases hm with
  | load u data' hpc =>
    rcases update_cases h with ⟨-, heq⟩ | ⟨-, hold⟩
    · cases heq
      exact .inr rfl
    · exact .inl ⟨pc, hold⟩
  | write u data' cur' w w' hpc hnext =>
    rcases update_cases h with ⟨rfl, heq⟩ | ⟨-, hold⟩
    · cases heq
      exact .inl ⟨w, hpc⟩
    · exact .inl ⟨pc, hold⟩
  | appendCall | flushCall | destroyCall | writeTrue | writeFalse | appendStopped | appendRetry
  | flushEmpty | take | extend | giveUpAppend | giveUpFlush | startWait | exchange | count
  | enqueueIdle | runInline | postNext | close | finish => exact .inl (hleave rfl rfl h)
  | flushStopped u dtor | flushDone u dtor => exact .inl (hleave rfl (by cases dtor <;> rfl) h)
  | enqueueRunning u k | postQueued u k => exact .inl (hleave rfl k.writing_swapped.1 h)
  | drainReturn runner _ _ =>
    cases runner with
    | none => exact .inl ⟨pc, h⟩
    | some u =>
      simp only [StoreState.drainReturn] at h
      split at h
      · next k hpc => exact .inl (hleave rfl k.writing_swapped.1 h)
      · exact .inl ⟨pc, h⟩
  | _ => exact .inl ⟨pc, h⟩

omit [DecidableEq T] in
/-- The master is the end of the queue. -/
theorem OwnInv.back_eq_nil (hown : OwnInv cfg s) {front back : List ℕ}
    (h : s.queue = front ++ s.master :: back) : back = [] := by
  have hnodup := hown.nodup_queue
  rcases List.eq_nil_or_concat' back with rfl | ⟨back', b, rfl⟩
  · rfl
  · have hlast : s.posted ++ [s.master] = (front ++ s.master :: back') ++ [b] := by
      rw [List.append_assoc]
      exact h
    have hb : s.master = b := (List.cons.inj (List.append_inj' hlast rfl).2).1
    rw [h, List.nodup_append] at hnodup
    have hhead := (List.nodup_cons.mp hnodup.2.1).1
    exact absurd (hb ▸ List.mem_append_right _ (List.mem_singleton_self _)) hhead

omit [DecidableEq T] [Fintype T] in
theorem Filling.eq_nil {filling : List Bytes} (h : Filling s pend filling)
    (hnone : ∀ t, (s.pc t).slotOn = none) : filling = [] := by
  cases h with
  | nothing => rfl
  | slot t cur data front hslot => cases (hnone t).symm.trans hslot

omit [DecidableEq T] [Fintype T] in
/-- The only thread inside `Append` fills the slot. -/
theorem Filling.eq_of_slot {filling : List Bytes} (h : Filling s pend filling)
    (hcalls : SerialCalls s) {t : T} {cur : ℕ} {data : Bytes}
    (ht : (s.pc t).slotOn = some (cur, data)) : filling = [data] := by
  have hbusy : ∀ {u : T} {c : ℕ} {d : Bytes}, (s.pc u).slotOn = some (c, d) →
      (s.pc u).appending ≠ [] := fun hu => by
    rw [(Pc.appending_of_slotOn hu).1]
    exact List.cons_ne_nil _ _
  cases h with
  | nothing hslots => cases (hslots t).symm.trans ht
  | slot u c d front hslot =>
    obtain rfl := hcalls.eq (hbusy ht) (hbusy hslot)
    cases hslot.symm.trans ht
    rfl

omit [DecidableEq T] [Fintype T] in
/-- Besides a thread inside `Append` no thread has a slot. -/
theorem SerialCalls.slotOn_eq_none (h : SerialCalls s) {t u : T} (ht : (s.pc t).appending ≠ [])
    (hu : u ≠ t) : (s.pc u).slotOn = none := by
  refine Option.eq_none_iff_forall_not_mem.mpr fun ⟨cur, data⟩ hslot => ?_
  obtain ⟨happending, -⟩ := Pc.appending_of_slotOn hslot
  exact hu (h.eq ht (by rw [happending]; exact List.cons_ne_nil _ _))

omit [DecidableEq T] [Fintype T] in
/-- Steps that keep the slots, the queue's contents and what waits in the buffers with slots. -/
theorem Filling.same {filling : List Bytes} (h : Filling s pend filling)
    (hslots : ∀ t, (s'.pc t).slotOn = (s.pc t).slotOn)
    (hqueue : ∀ t cur data, (s.pc t).slotOn = some (cur, data) → cur ∈ s.queue → pend cur ≠ [] →
      cur ∈ s'.queue ∧ pend' cur = pend cur) : Filling s' pend' filling := by
  cases h with
  | nothing hnone => exact .nothing fun t => (hslots t).trans (hnone t)
  | slot t cur data front hslot hmem hpend =>
    obtain ⟨hmem', hpend'⟩ := hqueue t cur data hslot hmem (by rw [hpend]; simp)
    exact .slot t cur data front ((hslots t).trans hslot) hmem' (hpend'.trans hpend)

omit [DecidableEq T] [Fintype T] in
/-- What waits first in the queue is not the slot being filled. -/
theorem Filling.ne_of_persist {b : ℕ} {p : Bytes} {ps rest filling : List Bytes} {queue : List ℕ}
    (h : Filling s pend filling) (hqueue : s.queue = b :: queue)
    (hrest : rest = queue.flatMap pend) (hfirst : pend b = p :: ps)
    (hquiet : ∀ t q, (s.pc t).slotOn ≠ some (b, q)) : filling ≠ p :: ps ++ rest := by
  cases h with
  | nothing => exact List.cons_ne_nil _ _ ∘ Eq.symm
  | slot t cur data front hslot hmem hpend =>
    intro heq
    have hne : cur ≠ b := by
      rintro rfl
      exact hquiet t data hslot
    rw [hqueue] at hmem
    have hin : data ∈ rest := by
      rw [hrest]
      refine List.mem_flatMap.mpr ⟨cur, (List.mem_cons.mp hmem).resolve_left hne, ?_⟩
      rw [hpend]
      exact List.mem_append_right _ (List.mem_singleton_self _)
    have hlength := congrArg List.length heq
    have hpos := List.length_pos_of_mem hin
    rw [List.length_singleton, List.length_append, List.length_cons] at hlength
    omega

/-- The step lemma: what the store does to its payloads, the queue does too. -/
theorem SerialInv.flow (hown : OwnInv cfg s) (hcalls : SerialCalls s) (h : SerialInv s pend)
    (hflow : Flow s s' pend pend') : ∃ q filling, s'.queue.flatMap pend' = q ++ filling ∧
      run Fifo.step [] (transfers s'.hist) = some q ∧ Filling s' pend' filling := by
  obtain ⟨q, filling, hwaits, hrun, hfilling⟩ := h.queued
  have hnodup := hown.nodup_queue
  cases hflow with
  | reserve t data cur old hpc hpc' hmem hqueue hhist hpend =>
    have hbusy : (s.pc t).appending ≠ [] := by
      rw [hpc]
      exact List.cons_ne_nil _ _
    obtain rfl : filling = [] := by
      refine hfilling.eq_nil fun u => ?_
      by_cases hut : u = t
      · rw [hut, hpc]
        rfl
      · exact hcalls.slotOn_eq_none hbusy hut
    obtain ⟨front, back, hsplit⟩ := List.append_of_mem hmem
    have hback : back.flatMap pend = [] :=
      List.flatMap_eq_nil_iff.mpr (h.behind t data cur _ hpc front back hsplit)
    rw [hsplit, List.nodup_append, List.nodup_cons] at hnodup
    have hfront : cur ∉ front := fun hin => hnodup.2.2 cur hin cur List.mem_cons_self rfl
    refine ⟨q, [data], ?_, by rw [hhist]; exact hrun, .slot t cur data (pend cur) ?_ ?_ ?_⟩
    · rw [List.append_nil, hsplit, List.flatMap_append, List.flatMap_cons, hback,
        List.append_nil] at hwaits
      rw [hqueue, hsplit, hpend, List.flatMap_append, List.flatMap_cons, Function.update_self,
        flatMap_update_of_not_mem hfront, flatMap_update_of_not_mem hnodup.2.1.1, hback,
        List.append_nil, ← List.append_assoc, hwaits]
    · rw [hpc', Function.update_self]
      rfl
    · rw [hqueue]
      exact hmem
    · rw [hpend, Function.update_self]
  | release t data cur old hpc hpc' hmem hqueue hhist hpend =>
    have hslot : (s.pc t).slotOn = some (cur, data) := by
      rw [hpc]
      rfl
    obtain rfl := hfilling.eq_of_slot hcalls hslot
    refine ⟨q ++ [data], [], ?_, ?_, .nothing fun u => ?_⟩
    · rw [hqueue, hpend, hwaits, List.append_nil]
    · rw [hhist]
      exact run_transfers_append hrun rfl
    · rw [hpc']
      by_cases hut : u = t
      · rw [hut, Function.update_self]
        rfl
      · rw [Function.update_of_ne hut]
        refine hcalls.slotOn_eq_none ?_ hut
        rw [hpc]
        exact List.cons_ne_nil _ _
  | persist b p ps threw hheld hfirst hquiet hpc' hqueue hhist hpend =>
    obtain ⟨queue, hsplit⟩ : ∃ queue, s.queue = b :: queue := by
      rw [StoreState.queue, StoreState.posted, hheld]
      exact ⟨_, rfl⟩
    have hnot : b ∉ queue := by
      rw [hsplit, List.nodup_cons] at hnodup
      exact hnodup.1
    have hall : p :: ps ++ queue.flatMap pend = q ++ filling := by
      rw [← hfirst, ← List.flatMap_cons, ← hsplit]
      exact hwaits
    cases q with
    | nil => exact absurd hall.symm (hfilling.ne_of_persist hsplit rfl hfirst hquiet)
    | cons p' q =>
      obtain ⟨rfl, hrest⟩ := List.cons.inj hall
      refine ⟨q, filling, ?_, ?_, hfilling.same (fun t => by rw [hpc'])
        fun t cur data hslot hmem _ => ?_⟩
      · rw [hqueue, hsplit, hpend, List.flatMap_cons, Function.update_self,
          flatMap_update_of_not_mem hnot]
        exact hrest
      · rw [hhist]
        refine run_transfers_append hrun ?_
        show run Fifo.step _ [.take p] = some _
        rw [run_singleton]
        exact Fifo.step_take p _
      · have hne : cur ≠ b := by
          rintro rfl
          exact hquiet t data hslot
        exact ⟨hqueue ▸ hmem, by rw [hpend, Function.update_of_ne hne]⟩
  | swap t k next hpc hpc' hqueue hnext hhist hpend =>
    refine ⟨q, filling, ?_, by rw [hhist]; exact hrun, hfilling.same (fun u => ?_)
      fun u cur data _ hmem _ => ⟨hqueue ▸ List.mem_append_left _ hmem, by rw [hpend]⟩⟩
    · rw [hqueue, hpend, List.flatMap_append, List.flatMap_singleton, hnext, List.append_nil,
        hwaits]
    · rw [hpc']
      exact apply_update (by rw [hpc]; rfl) u
  | free b hqueue hempty hpc' hhist hpend =>
    refine ⟨q, filling, ?_, by rw [hhist]; exact hrun, hfilling.same (fun u => by rw [hpc'])
      fun u cur data _ hmem hne => ⟨?_, by rw [hpend]⟩⟩
    · rw [hqueue, List.flatMap_cons, hempty, List.nil_append] at hwaits
      rw [hpend, hwaits]
    · rw [hqueue] at hmem
      exact (List.mem_cons.mp hmem).resolve_left fun heq => hne (heq ▸ hempty)
  | quiet obs hslots hqueue hhist haccepted hpersisted hpend =>
    refine ⟨q, filling, by rw [hqueue, hpend, hwaits], ?_, hfilling.same hslots
      fun u cur data _ hmem _ => ⟨hqueue ▸ hmem, by rw [hpend]⟩⟩
    rw [hhist]
    refine run_transfers_append hrun ?_
    rw [transfers_eq_nil haccepted hpersisted]
    rfl

/-- Nothing comes to wait behind the buffer an `Append` writes to. -/
theorem SerialInv.behind_flow (hown' : OwnInv cfg s') (hown : OwnInv cfg s) (hcalls : SerialCalls s)
    (h : SerialInv s pend) (hm : StoreMove cfg onPersist s e s') (hflow : Flow s s' pend pend') :
    ∀ t data cur pc, s'.pc t = .appendWrite data cur pc →
      ∀ front back, s'.queue = front ++ cur :: back → ∀ b ∈ back, pend' b = [] := by
  intro t data cur pc hpc' front back hsplit b hb
  rcases hm.writing_cases hpc' with ⟨pc₀, hpc⟩ | rfl
  case inr => rw [hown'.back_eq_nil hsplit] at hb; cases hb
  have hbusy : (s.pc t).appending ≠ [] := by
    rw [hpc]
    exact List.cons_ne_nil _ _
  have hnodup := hown.nodup_queue
  cases hflow with
  | reserve u data' cur' old hpcu _ hmem hqueue _ hpend =>
    obtain rfl : t = u := hcalls.eq (by rw [hpcu]; exact List.cons_ne_nil _ _) hbusy
    cases hpc.symm.trans hpcu
    rw [hqueue] at hsplit
    rw [hsplit, List.nodup_append, List.nodup_cons] at hnodup
    have hne : b ≠ cur := by
      rintro rfl
      exact hnodup.2.1.1 hb
    rw [hpend, Function.update_of_ne hne]
    exact h.behind t _ _ _ hpc front back hsplit b hb
  | release u data' cur' old _ _ _ hqueue _ hpend | quiet _ _ hqueue _ _ _ hpend =>
    rw [hpend]
    exact h.behind t _ _ _ hpc front back (hqueue ▸ hsplit) b hb
  | persist c p ps threw _ hfirst _ _ hqueue _ hpend =>
    have hempty := h.behind t _ _ _ hpc front back (hqueue ▸ hsplit) b hb
    have hne : b ≠ c := by
      rintro rfl
      cases hempty.symm.trans hfirst
    rw [hpend, Function.update_of_ne hne, hempty]
  | swap u k next _ _ hqueue hnext _ hpend =>
    rw [hpend]
    rw [hqueue] at hsplit
    rcases List.eq_nil_or_concat' back with rfl | ⟨back', c, rfl⟩
    · cases hb
    · have hlast : s.queue ++ [next] = (front ++ cur :: back') ++ [c] := by
        rw [List.append_assoc]
        exact hsplit
      obtain ⟨hinit, hc⟩ := List.append_inj' hlast rfl
      obtain rfl : next = c := (List.cons.inj hc).1
      rcases List.mem_append.mp hb with hb | hb
      · exact h.behind t _ _ _ hpc front back' hinit b hb
      · rw [List.mem_singleton.mp hb]
        exact hnext
  | free c hqueue _ _ _ hpend =>
    rw [hpend]
    refine h.behind t _ _ _ hpc (c :: front) back ?_ b hb
    rw [hqueue, hsplit]
    rfl

-- ════════════════════════════════════════════════════════════════════════
-- The destructor
-- ════════════════════════════════════════════════════════════════════════

/-- The destructor waits at the end of its `Flush`, or is past that wait. -/
def StoreState.Settled (s : StoreState T σ) : Prop :=
  (s.closing = true ∧ ∃ t, (s.pc t).awaits = true ∨ (s.pc t).pastFlush = true) ∨
    s.destroyed = true

omit [Fintype T] in
/-- Only a call of the destructor, when every thread is outside, starts the teardown. -/
theorem StoreMove.closing_cases (hm : StoreMove cfg onPersist s e s') :
    s'.closing = s.closing ∨ ∀ u, s.pc u = .idle := by
  cases hm with
  | destroyCall t _ hidle => exact .inr hidle
  | drainReturn runner _ _ =>
    cases runner with
    | none => exact .inl rfl
    | some t =>
      simp only [StoreState.drainReturn]
      split <;> exact .inl rfl
  | _ => exact .inl rfl

omit [Fintype T] in
/-- The destructor gets past its `Flush` only through the wait at its end. -/
theorem StoreMove.pastFlush_cases (hm : StoreMove cfg onPersist s e s') (hdown : TeardownInv s)
    {u : T} (h : (s'.pc u).pastFlush = true) :
    (s.pc u).awaits = true ∨ (s.pc u).pastFlush = true := by
  have hleave : ∀ {s' : StoreState T σ} {t : T} {x : Pc}, s'.pc = Function.update s.pc t x →
      x.pastFlush = false → (s'.pc u).pastFlush = true → (s.pc u).pastFlush = true := by
    intro s' t x hpc hx hu
    rw [hpc] at hu
    by_cases hut : u = t
    · rw [hut, Function.update_self, hx] at hu
      cases hu
    · rwa [Function.update_of_ne hut] at hu
  cases hm with
  | flushStopped t dtor hpc _ hstopped =>
    cases (hdown.not_stopped (t := t) (by rw [hpc]; rfl)).symm.trans hstopped
  | flushDone t dtor hpc | close t hpc | finish t hpc =>
    by_cases hut : u = t
    · subst hut
      rw [hpc]
      first | exact .inl rfl | exact .inr rfl
    · refine .inr ?_
      have hsame : (Function.update s.pc t _ u).pastFlush = true := h
      rwa [Function.update_of_ne hut] at hsame
  | appendCall | flushCall | destroyCall | load | write | writeTrue | writeFalse | appendStopped
  | appendRetry | flushEmpty | take | extend | giveUpAppend | giveUpFlush | startWait | exchange
  | count | enqueueIdle | runInline | postNext => exact .inr (hleave rfl rfl h)
  | enqueueRunning t k | postQueued t k => exact .inr (hleave rfl k.swapped_destructs.2 h)
  | drainReturn runner _ _ =>
    cases runner with
    | none => exact .inr h
    | some t =>
      simp only [StoreState.drainReturn] at h
      split at h
      · next k hpc => exact .inr (hleave rfl k.swapped_destructs.2 h)
      · exact .inr h
  | _ => exact .inr h

omit [DecidableEq T] [Fintype T] in
/-- Besides the destructor every thread is outside. -/
theorem StoreState.Settled.pc (h : s.Settled) (hdown : TeardownInv s) (u : T) :
    (s.pc u).awaits = true ∨ (s.pc u).pastFlush = true ∨ s.pc u = .idle := by
  rcases h with ⟨hclosing, t, ht⟩ | hdestroyed
  · by_cases hu : s.pc u = .idle
    · exact .inr (.inr hu)
    · have hbusy : s.pc t ≠ .idle := by
        intro hidle
        rw [hidle] at ht
        rcases ht with ht | ht <;> cases ht
      obtain rfl := hdown.eq_of_busy hbusy hu hclosing
      exact ht.imp_right .inl
  · exact .inr (.inr ((hdown.destroyed hdestroyed).2.2 u))

omit [DecidableEq T] [Fintype T] in
/-- No thread writes, and none is about to exchange the master. -/
theorem StoreState.Settled.quiet (h : s.Settled) (hdown : TeardownInv s) (u : T) :
    (s.pc u).writing = false ∧ ∀ k next, s.pc u ≠ .exchange k next := by
  rcases h.pc hdown u with hpc | hpc | hpc
  · exact ⟨Pc.writing_of_awaits hpc, by rintro k next heq; rw [heq] at hpc; cases hpc⟩
  · revert hpc
    cases s.pc u <;> rintro ⟨⟩ <;> exact ⟨rfl, by rintro k next ⟨⟩⟩
  · rw [hpc]
    exact ⟨rfl, by rintro k next ⟨⟩⟩

omit [Fintype T] in
/-- How the destructor comes to wait at the end of its `Flush`. -/
theorem StoreMove.settled_cases (hm : StoreMove cfg onPersist s e s')
    (hopen : ∀ seq, cfg.openBuffer seq ≠ none) (hdown : TeardownInv s) (h : s'.Settled) :
    s.Settled ∨ (∃ u k, s.pc u = .exchange k s'.master) ∨ (s'.bufs s'.master).used = 0 ∨
      (s.closing = true ∧ ∃ u, e = .createFails u ∧ (s.pc u).asksToFlush = true ∧
        s'.bufs = s.bufs ∧ s'.master = s.master) := by
  rcases h with ⟨hclosing, u, hu⟩ | hdestroyed
  · have hsame : s.pc u ≠ .idle → s.closing = true := by
      intro hidle
      rcases hm.closing_cases with hsame | hnone
      · exact hsame.symm.trans hclosing
      · exact absurd (hnone u) hidle
    have hold : (s.pc u).awaits = true ∨ (s.pc u).pastFlush = true → s.Settled := by
      refine fun hpc => .inl ⟨hsame fun hidle => ?_, u, hpc⟩
      rw [hidle] at hpc
      rcases hpc with hpc | hpc <;> cases hpc
    rcases hu with hawaits | hpast
    · rcases hm.awaits_cases hopen hdown hawaits with hpc | ⟨k, hpc⟩ | hused |
        ⟨he, hasks, hbufs, hmaster⟩
      · exact .inl (hold (.inl hpc))
      · exact .inr (.inl ⟨u, k, hpc⟩)
      · exact .inr (.inr (.inl hused))
      · refine .inr (.inr (.inr ⟨hsame fun hidle => ?_, u, he, hasks, hbufs, hmaster⟩))
        rw [hidle] at hasks
        cases hasks
    · exact .inl (hold (hm.pastFlush_cases hdown hpast))
  · rcases hm.destroyed_eq with ⟨t, -, hpc⟩ | hsame
    · refine .inl (.inl ⟨hdown.closing_of_destructs t (by rw [hpc]; rfl), t, .inr ?_⟩)
      rw [hpc]
      rfl
    · exact .inl (.inr (hsame.symm.trans hdestroyed))

/-- In the destructor, no construction of a buffer fails while a scan of the master would
find a frame. -/
def KeepsLast (s : StoreState T σ) (e : StoreEvent T) : Prop := s.closing = true → KeepsFlush s e

instance (s : StoreState T σ) (e : StoreEvent T) : Decidable (KeepsLast s e) :=
  inferInstanceAs (Decidable (_ → _))

/-- Past its look at the master, the destructor has left nothing in it. -/
theorem StoreState.Settled.pend_master {slots' : ℕ → List Bytes} {rest' : ℕ → ByteMemory}
    (h' : s'.Settled) (hown : OwnInv cfg s) (hown' : OwnInv cfg s') (hdown : TeardownInv s)
    (hdown' : TeardownInv s') (hframes : FramesInv s slots pend rest)
    (hm : StoreMove cfg onPersist s e s') (hframes' : FramesInv s' slots' pend' rest')
    (hflow : Flow s s' pend pend') (hopen : ∀ seq, cfg.openBuffer seq ≠ none)
    (hkeeps : KeepsLast s e) (h : s.Settled → pend s.master = []) : pend' s'.master = [] := by
  rcases hm.settled_cases hopen hdown h' with hold | ⟨u, k, hpc⟩ | hused |
    ⟨hclosing, u, rfl, hasks, hbufs, hmaster⟩
  · have hquiet := fun u => hold.quiet hdown u
    cases hflow with
    | reserve t data cur old hpc =>
      have hwriting := (hquiet t).1
      rw [hpc] at hwriting
      cases hwriting
    | swap t k next hpc => exact absurd hpc ((hquiet t).2 k next)
    | persist b p ps threw hheld _ _ _ hqueue _ hpend =>
      have hne : s.master ≠ b := by
        rintro rfl
        exact hown.master_not_held (hheld ▸ List.mem_singleton_self _)
      rw [(StoreState.posted_eq hqueue).2, hpend, Function.update_of_ne hne, h hold]
    | free b hqueue _ _ _ hpend =>
      rw [StoreState.queue, StoreState.queue, ← List.cons_append] at hqueue
      rw [hpend, ← (List.cons.inj (List.append_inj' hqueue rfl).2).1, h hold]
    | release _ _ _ _ _ _ _ hqueue _ hpend | quiet _ _ hqueue _ _ _ hpend =>
      rw [(StoreState.posted_eq hqueue).2, hpend, h hold]
  · have hnext := hown.next_not_mem_queue hpc
    exact (hflow.pend_of_not_mem hnext).trans (hframes.pend_of_not_mem hnext)
  · exact hframes'.pend_master_eq_nil hown' hused
  · rw [(framesInv_iff.mp hframes').pend_master hown']
    refine (hframes'.cycle s'.master).eq_nil_of_forEachFrame (fun v => ?_) ?_
    · exact (Pc.of_not_writing (h'.quiet hdown' v).1).1 s'.master
    · rw [hbufs, hmaster]
      exact hkeeps hclosing hasks

-- ════════════════════════════════════════════════════════════════════════
-- Runs
-- ════════════════════════════════════════════════════════════════════════

/-- What holds in every state of a store whose calls of `Append` do not overlap. -/
structure SerialState (cfg : StoreConfig) (s : StoreState T σ) : Prop where
  own : OwnInv cfg s
  down : TeardownInv s
  calls : SerialCalls s
  queue : ∃ slots pend rest, FramesInv s slots pend rest ∧ SerialInv s pend ∧
    (s.Settled → pend s.master = [])

/-- No `Append` overlaps another one, none gets a slot in a recycled buffer, and the
destructor's `Flush` is not cut short. -/
def SerialStep (s : StoreState T σ) (e : StoreEvent T) : Prop :=
  OneAppend s e ∧ ReservesLive s e ∧ KeepsLast s e

instance (s : StoreState T σ) (e : StoreEvent T) : Decidable (SerialStep s e) :=
  inferInstanceAs (Decidable (_ ∧ _ ∧ _))

/-- The step lemma. -/
theorem SerialState.step (h : SerialState cfg s) (hm : StoreMove cfg onPersist s e s')
    (hfiles : ∀ seq buf, cfg.openBuffer seq = some buf → Clean buf.size buf.data)
    (hopen : ∀ seq, cfg.openBuffer seq ≠ none) (hok : SerialStep s e) : SerialState cfg s' := by
  obtain ⟨slots, pend, rest, hframes, hserial, hmaster⟩ := h.queue
  obtain ⟨hone, hlive, hkeeps⟩ := hok
  have hown' := h.own.step hm
  have hdown' := h.down.step hm
  obtain ⟨slots', pend', rest', hframes', hflow⟩ := hframes.step h.own hm hlive (.of_files hfiles)
  exact ⟨hown', hdown', h.calls.step hone hm, slots', pend', rest', hframes',
    ⟨hserial.behind_flow hown' h.own h.calls hm hflow, hserial.flow h.own h.calls hflow⟩,
    fun h' => h'.pend_master h.own hown' h.down hdown' hframes hm hframes' hflow hopen hkeeps
      hmaster⟩

omit [DecidableEq T] in
/-- A new store is an empty queue. -/
theorem SerialState.create {env : σ} (hzero : ZeroFiles cfg)
    (hcreate : StoreState.create cfg env = some s) : SerialState cfg.normalise s := by
  obtain ⟨hhist, hidle⟩ := StoreState.create_hist hcreate
  refine ⟨StoreState.create_ownInv hcreate, StoreState.create_teardownInv hcreate,
    .create hcreate, _, _, _, FramesInv.create hcreate fun _ _ _ => hzero.clean,
    ⟨fun t data cur pc hpc => ?_, [], [], ?_, ?_, .nothing fun t => ?_⟩, fun _ => rfl⟩
  · cases (hidle t).symm.trans hpc
  · rw [List.flatMap_eq_nil_iff.mpr fun _ _ => rfl]
    rfl
  · rw [hhist]
    rfl
  · rw [hidle t]
    rfl

/-- What holds in every state reached. -/
theorem SerialState.of_reach {env : σ} {s₀ : StoreState T σ} (hzero : ZeroFiles cfg)
    (hcreate : StoreState.create cfg env = some s₀)
    (hr : Reach (storeStep cfg onPersist) SerialStep s₀ s) : SerialState cfg.normalise s :=
  hr.invariant (I := SerialState cfg.normalise) (.create hzero hcreate) fun _ _ _ h hok hstep =>
    h.step (StoreMove.of_storeStep hstep) (fun _ _ => hzero.clean) (StoreState.create_opens hcreate)
      hok

omit [DecidableEq T] in
/-- What has been handed to `on_persist` is a prefix of what has been accepted. -/
theorem SerialState.persisted_prefix (h : SerialState cfg s) :
    persisted s.hist <+: accepted s.hist := by
  obtain ⟨slots, pend, rest, -, ⟨-, q, filling, -, hrun, -⟩, -⟩ := h.queue
  have hputs := Fifo.puts_eq_of_run hrun
  rw [puts_transfers, takes_transfers] at hputs
  exact ⟨q, hputs.symm⟩

omit [DecidableEq T] in
/-- What has been accepted is among what `Append` has been called with, in this order. -/
theorem SerialState.accepted_sublist (h : SerialState cfg s) :
    (accepted s.hist).Sublist (called s.hist) := by
  obtain ⟨now, -, hsub, -⟩ := h.calls.counts
  exact (List.sublist_append_left _ _).trans hsub

omit [DecidableEq T] in
/-- A destroyed store has persisted everything it accepted, and turned away the rest. -/
theorem SerialState.destroyed (h : SerialState cfg s) (hdestroyed : s.destroyed = true) :
    persisted s.hist = accepted s.hist ∧
      (called s.hist).length = (accepted s.hist).length + (rejected s.hist).length := by
  obtain ⟨-, hzero, hidle⟩ := h.down.destroyed hdestroyed
  obtain ⟨slots, pend, rest, -, ⟨-, q, filling, hwaits, hrun, -⟩, hmaster⟩ := h.queue
  have hmtx : s.mtx = none := by
    cases hmtx : s.mtx with
    | none => rfl
    | some t =>
      have hsection := (h.own.mtx_iff t).mp hmtx
      rw [hidle t] at hsection
      cases hsection
  constructor
  · rw [StoreState.queue, h.own.posted_eq_nil hmtx hzero, List.nil_append, List.flatMap_singleton,
      hmaster (.inr hdestroyed)] at hwaits
    obtain rfl : q = [] := (List.append_eq_nil_iff.mp hwaits.symm).1
    have hputs := Fifo.puts_eq_of_run hrun
    rw [puts_transfers, takes_transfers, List.append_nil] at hputs
    exact hputs.symm
  · obtain ⟨now, hnow, -, hlength⟩ := h.calls.counts
    obtain rfl := hnow.eq_nil fun t => by rw [hidle t]; rfl
    exact hlength

/-- A `Flush` swaps the master while an `Append` fills a slot in it, and its drain waits
for that `Append`; then the store is destroyed. -/
def overlappedRun : List (StoreEvent Bool) :=
  let steps (t : Bool) (n : ℕ) := List.replicate n (StoreEvent.step t)
  let strand (n : ℕ) := List.replicate n StoreEvent.drain
  [StoreEvent.append false (some [7])] ++ steps false 4 ++ [StoreEvent.flush true] ++
    steps true 6 ++ strand 4 ++ steps false 3 ++ [StoreEvent.append false (some [8])] ++
    steps false 7 ++ strand 14 ++ steps true 1 ++ [StoreEvent.destroy true] ++ steps true 6 ++
    strand 17 ++ steps true 3

theorem run_overlapped :
    (run (guarded (storeStep onePageStore fun _ _ => ((), false)) SerialStep)
        ((StoreState.create onePageStore ()).get rfl) overlappedRun).map
      (fun s => (s.destroyed, called s.hist)) = some (true, [[7], [8]]) := by
  decide +kernel

end LoggerHigh
