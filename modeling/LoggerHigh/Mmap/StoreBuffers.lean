import LoggerHigh.Mmap.StoreOwnership

/-!
# The buffers of the pool

What holds of every buffer of the pool, whoever calls the store and however
calls and drains interleave: it keeps the size it was opened with, and
`sealed_` is set only while `DrainOne_` is between its two stores to it.

## Main definitions

- `StoreConfig.capacity` — the size of the buffers
- `BuffersInv` — the invariant

## Main results

- `BuffersInv.of_reach` — it holds in every reachable state
-/

namespace LoggerHigh

variable {T σ : Type*}

/-- What `MmapRegion::Create` makes of `buffer_bytes`. -/
def StoreConfig.capacity (cfg : StoreConfig) : ℕ := roundUpToPage cfg.page cfg.bufferBytes

theorem StoreConfig.openBuffer_size {cfg : StoreConfig} {seq : ℕ} {buf : MmapBuffer}
    (h : cfg.openBuffer seq = some buf) : buf.size = cfg.capacity := by
  simp only [StoreConfig.openBuffer, MmapBuffer.create] at h
  split at h <;> cases h
  rfl

/-- The buffer `DrainOne_` has sealed and not unsealed yet. -/
def Exec.sealing : Exec T → List ℕ
  | .drain _ b .sealWait | .drain _ b .sync | .drain _ b .scanStart | .drain _ b (.scan _ _)
  | .drain _ b .resetLoad | .drain _ b (.resetOffset _) | .drain _ b (.resetUnseal _) => [b]
  | _ => []

theorem Exec.sealing_of_isIdle {exec : Exec T} (h : exec.isIdle = true) : exec.sealing = [] := by
  cases exec <;> first | rfl | cases h

/-- A sealed buffer has not been given back. -/
theorem Exec.held_of_mem_sealing {exec : Exec T} {b : ℕ} (h : b ∈ exec.sealing) :
    exec.held = [b] := by
  cases exec with
  | drain runner a pc =>
    cases pc <;> first | exact congrArg (fun x => [x]) (List.mem_singleton.mp h).symm | cases h
  | _ => cases h

/-- The buffers in the pool have one size, and only the one at `DrainOne_` is sealed. -/
structure BuffersInv (cfg : StoreConfig) (s : StoreState T σ) : Prop where
  size_eq : ∀ b, b < s.poolSize → (s.bufs b).size = cfg.capacity
  sealing : ∀ b, (s.bufs b).sealed = true → b ∈ s.exec.sealing

variable [DecidableEq T] {cfg : StoreConfig} {onPersist : σ → Bytes → σ × Bool}
  {s s' : StoreState T σ}

omit [DecidableEq T] in
/-- Steps that do not touch the buffers. -/
theorem BuffersInv.same (h : BuffersInv cfg s) (hbufs : s'.bufs = s.bufs)
    (hpool : s'.poolSize = s.poolSize) (hsealing : s'.exec.sealing = s.exec.sealing) :
    BuffersInv cfg s' := by
  constructor
  · rw [hbufs, hpool]
    exact h.size_eq
  · rw [hbufs, hsealing]
    exact h.sealing

omit [DecidableEq T] in
/-- Steps that change one buffer, and not its size. -/
theorem BuffersInv.set (h : BuffersInv cfg s) {b : ℕ} {buf : MmapBuffer}
    (hbufs : s'.bufs = Function.update s.bufs b buf) (hpool : s'.poolSize = s.poolSize)
    (hsize : buf.size = (s.bufs b).size)
    (hsealing : ∀ a, a ≠ b → a ∈ s.exec.sealing → a ∈ s'.exec.sealing)
    (hsealed : buf.sealed = true → b ∈ s'.exec.sealing) : BuffersInv cfg s' := by
  constructor
  · intro a ha
    rw [hpool] at ha
    rw [hbufs]
    by_cases hab : a = b
    · rw [hab, Function.update_self, hsize, ← hab]
      exact h.size_eq a ha
    · rw [Function.update_of_ne hab]
      exact h.size_eq a ha
  · intro a ha
    rw [hbufs] at ha
    by_cases hab : a = b
    · rw [hab, Function.update_self] at ha
      rw [hab]
      exact hsealed ha
    · rw [Function.update_of_ne hab] at ha
      exact hsealing a hab (h.sealing a ha)

theorem sealed_writeStep (b : MmapBuffer) (p : Bytes) (pc : WritePc) :
    (writeStep b p pc).1.sealed = b.sealed := by
  cases pc with
  | enter =>
    simp only [writeStep]
    split <;> rfl
  | _ => rfl

omit [DecidableEq T] in
/-- Steps of `Write`. -/
theorem BuffersInv.write (h : BuffersInv cfg s) {cur : ℕ} {data : Bytes} {pc : WritePc}
    (hbufs : s'.bufs = Function.update s.bufs cur (writeStep (s.bufs cur) data pc).1)
    (hpool : s'.poolSize = s.poolSize) (hexec : s'.exec = s.exec) : BuffersInv cfg s' := by
  refine h.set hbufs hpool (size_writeStep _ _ _) ?_ ?_
  · rw [hexec]
    exact fun _ _ ha => ha
  · rw [sealed_writeStep, hexec]
    exact h.sealing cur

variable [Fintype T]

/-- Every step keeps the invariant. -/
theorem BuffersInv.step {e : StoreEvent T} (hown : OwnInv cfg s) (h : BuffersInv cfg s)
    (hm : StoreMove cfg onPersist s e s') : BuffersInv cfg s' := by
  cases hm with
  | write | writeTrue | writeFalse => exact h.write rfl rfl rfl
  | extend t k buf _ _ _ _ _ hopen =>
    constructor
    · intro b hb
      by_cases hlast : b = s.poolSize
      · rw [hlast]
        simp only [StoreState.goto, Function.update_self]
        exact StoreConfig.openBuffer_size hopen
      · simp only [StoreState.goto, Function.update_of_ne hlast]
        exact h.size_eq b (Nat.lt_of_le_of_ne (Nat.le_of_lt_succ hb) hlast)
    · intro b hb
      by_cases hlast : b = s.poolSize
      · rw [hlast] at hb
        simp only [StoreState.goto, Function.update_self,
          (StoreConfig.openBuffer_fresh hopen).1] at hb
        cases hb
      · simp only [StoreState.goto, Function.update_of_ne hlast] at hb
        exact h.sealing b hb
  | runInline t k hpc _ =>
    have hidle := (hown.posting t (by rcases hpc with hpc | hpc <;> rw [hpc] <;> rfl)).2.1
    exact h.same rfl rfl (Exec.sealing_of_isIdle hidle).symm
  | postQueued t k hpc _ =>
    have hidle := (hown.posting t (by rw [hpc]; rfl)).2.1
    exact h.same rfl rfl (Exec.sealing_of_isIdle hidle).symm
  | pickUp hexec | pop _ _ _ hexec _ => exact h.same rfl rfl (by rw [hexec]; rfl)
  | drainReturn runner hexec _ =>
    cases runner with
    | none => exact h.same rfl rfl (by rw [hexec]; rfl)
    | some t =>
      simp only [StoreState.drainReturn]
      split <;> exact h.same rfl rfl (by rw [hexec]; rfl)
  | sealStore runner b hexec =>
    refine h.set rfl rfl rfl (fun a _ ha => ?_) fun _ => List.mem_singleton_self b
    rw [hexec] at ha
    cases ha
  | sealDone _ _ hexec _ | sync _ _ hexec | scanStart _ _ hexec | scanFrame _ _ _ _ _ hexec _
  | scanEnd _ _ _ _ hexec _ | resetLoad _ _ hexec | pushFree _ _ hexec _ | notifyFree _ _ hexec
  | fetchSubLast _ _ hexec _ | fetchSub _ _ hexec _ | notifyFlush _ _ hexec _ =>
    exact h.same rfl rfl (by rw [hexec]; rfl)
  | resetOffset runner b prevUsed hexec =>
    refine h.set rfl rfl rfl (fun a _ ha => ?_) fun _ => List.mem_singleton_self b
    rw [hexec] at ha
    exact ha
  | resetUnseal runner b prevUsed hexec =>
    refine h.set rfl rfl rfl (fun a hab ha => ?_) (by rintro ⟨⟩)
    rw [hexec] at ha
    exact absurd (List.mem_singleton.mp ha) hab
  | resetMemset runner b prevUsed hexec =>
    have hnone : s.exec.sealing = [] := by rw [hexec]; rfl
    refine h.set rfl rfl rfl (fun a _ ha => ?_) fun hb => ?_
    · rw [hnone] at ha
      cases ha
    · have hmem := h.sealing b hb
      rw [hnone] at hmem
      cases hmem
  | _ => exact h.same rfl rfl rfl

omit [DecidableEq T] [Fintype T] in
/-- The constructor opens the buffers of the pool. -/
theorem StoreState.create_buffersInv {env : σ} (h : StoreState.create cfg env = some s) :
    BuffersInv cfg.normalise s := by
  rw [StoreState.create] at h
  split at h
  · next hopens =>
    cases h
    constructor
    · intro b hb
      rw [StoreConfig.isSome_openBuffer _ 0 b, Option.isSome_iff_exists] at hopens
      obtain ⟨buf, hbuf⟩ := hopens
      simp only at hb
      simp only [if_pos hb, hbuf, Option.getD_some]
      exact StoreConfig.openBuffer_size hbuf
    · intro b hb
      simp only at hb
      split at hb
      · cases hbuf : cfg.normalise.openBuffer b with
        | none =>
          rw [hbuf] at hb
          cases hb
        | some buf =>
          rw [hbuf, Option.getD_some, (StoreConfig.openBuffer_fresh hbuf).1] at hb
          cases hb
      · cases hb
  · cases h

/-- The invariant holds in every reachable state. -/
theorem BuffersInv.of_reach {ok : StoreState T σ → StoreEvent T → Prop} {env : σ}
    {s₀ : StoreState T σ} (hcreate : StoreState.create cfg env = some s₀)
    (hr : Transition.Reach (storeStep cfg onPersist) ok s₀ s) : BuffersInv cfg.normalise s := by
  have hboth : OwnInv cfg.normalise s ∧ BuffersInv cfg.normalise s := by
    refine hr.invariant (I := fun s => OwnInv cfg.normalise s ∧ BuffersInv cfg.normalise s)
      ⟨StoreState.create_ownInv hcreate, StoreState.create_buffersInv hcreate⟩
      fun s e s' ⟨hown, hbuffers⟩ _ hstep => ?_
    have hm := StoreMove.of_storeStep hstep
    exact ⟨hown.step hm, hbuffers.step hown hm⟩
  exact hboth.2

end LoggerHigh
