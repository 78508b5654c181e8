import LoggerHigh.Mmap.StoreCalls
import LoggerHigh.Mmap.StoreFlushFailure
import LoggerHigh.Mmap.StoreRetry

/-!
# One client that loses nothing

If no `Append` of a single client has been turned away, every buffer has been
overrun once per cycle at most, just before it was swapped out. So `offset_`
stays small, the store is a queue, and once it is destroyed everything accepted
has been handed to `on_persist`.

## Main definitions

- `StoreState.empties` — the buffers that wait for their next cycle
- `RoomInv` — the invariant

## Main results

- `RoomInv.noWrap` — no reservation carries `offset_` past `2 ^ 64`
- `LosslessState.of_reach` — what holds in every state reached
- `LosslessState.persisted_eq` — what is left when the store is destroyed
-/

namespace LoggerHigh

open Transition

/-- The buffer `Append` tries, or has tried. -/
def Pc.attempt : Pc → Option ℕ
  | .appendWrite _ cur _ | .appendLock _ cur => some cur
  | _ => none

/-- The attempt of `Append` has failed, and the master is still to be exchanged. -/
def Pc.failing : Pc → Bool
  | .appendWrite _ _ (.leave none) | .appendLock _ _ | .waitFree (.append _)
  | .exchange (.append _) _ => true
  | _ => false

/-- The buffer a thread is about to make the master. -/
def Pc.taken : Pc → List ℕ
  | .exchange _ next => [next]
  | _ => []

variable {σ : Type*}

/-- The buffers that have been reset and are not the master. -/
def StoreState.empties (s : StoreState Unit σ) : List ℕ := s.free ++ (s.pc ()).taken ++ s.exec.late

/-- `offset_` is within the master unless `Append` is about to exchange it, and
zero in the buffers that wait for their next cycle. -/
structure RoomInv (s : StoreState Unit σ) : Prop where
  attempt : ∀ cur, (s.pc ()).attempt = some cur → cur = s.master
  length_le : ∀ data cur pc, s.pc () = .appendWrite data cur pc →
    pc = .enter ∨ data.length ≤ 0xFFFFFFFF
  master : (s.pc ()).failing = false → (s.bufs s.master).offset ≤ (s.bufs s.master).size
  empties : ∀ b ∈ s.empties, (s.bufs b).offset = 0

variable {cfg : StoreConfig} {onPersist : σ → Bytes → σ × Bool} {s s' : StoreState Unit σ}

theorem offset_writeStep (b : MmapBuffer) (p : Bytes) {pc : WritePc} (h : pc ≠ .reserve) :
    (writeStep b p pc).1.offset = b.offset := by
  cases pc with
  | enter =>
    simp only [writeStep]
    split <;> rfl
  | reserve => exact absurd rfl h
  | _ => rfl

/-- What has not been turned away now had not been before. -/
theorem StoreMove.rejected_eq_nil {e : StoreEvent Unit} (hm : StoreMove cfg onPersist s e s')
    (h : rejected s'.hist = []) : rejected s.hist = [] := by
  obtain ⟨obs, hobs, -⟩ := hm.hist_eq
  rw [hobs, rejected_append] at h
  exact (List.append_eq_nil_iff.mp h).1

/-- The master is none of the buffers that wait. -/
theorem OwnInv.master_not_empty (h : OwnInv cfg s) : s.master ∉ s.empties := by
  intro hmem
  have hle := h.occurrences_le s.master
  rw [occurrences, List.count_singleton_self] at hle
  rcases List.mem_append.mp hmem with hmem | hlate
  · rcases List.mem_append.mp hmem with hfree | htaken
    · have := List.count_pos_iff.mpr hfree
      omega
    · have hcarried : (s.pc ()).taken.count s.master ≤ (s.pc ()).carried.count s.master := by
        cases s.pc () <;> first | exact Nat.le_refl _ | exact Nat.zero_le _
      have htotal := ThreadSum.le_total (fun pc : Pc => pc.carried.count s.master) s.pc ()
      have := List.count_pos_iff.mpr htaken
      omega
  · exact h.master_not_held (Exec.held_of_mem_late hlate ▸ List.mem_singleton_self _)

/-- A buffer that waits is in the pool. -/
theorem OwnInv.empty_lt (h : OwnInv cfg s) {b : ℕ} (hb : b ∈ s.empties) : b < s.poolSize := by
  refine h.lt_of_occurs ?_
  rw [occurrences]
  rcases List.mem_append.mp hb with hmem | hlate
  · rcases List.mem_append.mp hmem with hfree | htaken
    · have := List.count_pos_iff.mpr hfree
      omega
    · have hcarried : (s.pc ()).taken.count b ≤ (s.pc ()).carried.count b := by
        cases s.pc () <;> first | exact Nat.le_refl _ | exact Nat.zero_le _
      have htotal := ThreadSum.le_total (fun pc : Pc => pc.carried.count b) s.pc ()
      have := List.count_pos_iff.mpr htaken
      omega
  · have hheld : 0 < s.exec.held.count b :=
      List.count_pos_iff.mpr (Exec.held_of_mem_late hlate ▸ List.mem_singleton_self _)
    omega

-- ════════════════════════════════════════════════════════════════════════
-- Steps
-- ════════════════════════════════════════════════════════════════════════

/-- Steps outside `Write` that leave the master in its place. -/
theorem RoomInv.same (h : RoomInv s) (hmaster : s'.master = s.master)
    (hbufs : ∀ b, (s'.bufs b).size = (s.bufs b).size ∧
      ((s'.bufs b).offset = (s.bufs b).offset ∨ (s'.bufs b).offset = 0))
    (hempties : ∀ b ∈ s'.empties, b ∈ s.empties ∨ (s'.bufs b).offset = 0)
    (hpc : s'.pc () = s.pc () ∨ (s'.pc ()).attempt = none ∧
      ((s'.pc ()).failing = false → (s.pc ()).failing = false)) : RoomInv s' := by
  constructor
  · intro cur hcur
    rw [hmaster]
    rcases hpc with hpc | ⟨hnone, -⟩
    · exact h.attempt cur (hpc ▸ hcur)
    · rw [hnone] at hcur
      cases hcur
  · intro data cur pc hwrite
    rcases hpc with hpc | ⟨hnone, -⟩
    · exact h.length_le data cur pc (hpc ▸ hwrite)
    · rw [hwrite] at hnone
      cases hnone
  · intro hfailing
    have hold : (s.pc ()).failing = false := by
      rcases hpc with hpc | ⟨-, himp⟩
      · exact hpc ▸ hfailing
      · exact himp hfailing
    obtain ⟨hsize, hoffset⟩ := hbufs s.master
    rw [hmaster, hsize]
    rcases hoffset with hsame | hzero
    · rw [hsame]
      exact h.master hold
    · rw [hzero]
      exact Nat.zero_le _
  · intro b hb
    rcases hempties b hb with hold | hzero
    · rcases (hbufs b).2 with hsame | hzero
      · rw [hsame]
        exact h.empties b hold
      · exact hzero
    · exact hzero

/-- The same where no buffer is touched. -/
theorem RoomInv.plain (h : RoomInv s) (hmaster : s'.master = s.master) (hbufs : s'.bufs = s.bufs)
    (hempties : ∀ b ∈ s'.empties, b ∈ s.empties)
    (hpc : s'.pc () = s.pc () ∨ (s'.pc ()).attempt = none ∧
      ((s'.pc ()).failing = false → (s.pc ()).failing = false)) : RoomInv s' :=
  h.same hmaster (fun b => ⟨by rw [hbufs], .inl (by rw [hbufs])⟩)
    (fun b hb => .inl (hempties b hb)) hpc

/-- Steps of a thread that is neither in `Write` nor has taken a buffer afterwards. -/
theorem RoomInv.moves (h : RoomInv s) {x : Pc} (hpc : s'.pc () = x) (hmaster : s'.master = s.master)
    (hbufs : s'.bufs = s.bufs) (hfree : s'.free = s.free) (hlate : s'.exec.late = s.exec.late)
    (hx : x.attempt = none ∧ x.taken = [])
    (hfailing : (s.pc ()).failing = false ∨ x.failing = true) :
    RoomInv s' := by
  refine h.plain hmaster hbufs (fun b hb => ?_) (.inr ⟨by rw [hpc, hx.1], fun hnew => ?_⟩)
  · rw [StoreState.empties, hfree, hpc, hx.2, hlate, List.append_nil] at hb
    rw [StoreState.empties, List.append_assoc]
    rcases List.mem_append.mp hb with hb | hb
    · exact List.mem_append_left _ hb
    · exact List.mem_append_right _ (List.mem_append_right _ hb)
  · rw [hpc] at hnew
    exact hfailing.resolve_right (by rw [hnew]; exact Bool.false_ne_true)

/-- Steps of the strand. -/
theorem RoomInv.drains (h : RoomInv s) (hpc : s'.pc = s.pc) (hmaster : s'.master = s.master)
    (hbufs : ∀ b, (s'.bufs b).size = (s.bufs b).size ∧
      ((s'.bufs b).offset = (s.bufs b).offset ∨ (s'.bufs b).offset = 0))
    (hempties : ∀ b ∈ s'.free ++ s'.exec.late, b ∈ s.free ++ s.exec.late ∨ (s'.bufs b).offset = 0) :
    RoomInv s' := by
  refine h.same hmaster hbufs (fun b hb => ?_) (.inl (by rw [hpc]))
  rw [StoreState.empties, hpc] at hb
  rw [StoreState.empties]
  simp only [List.mem_append] at hb hempties ⊢
  rcases hb with (hb | hb) | hb
  · exact (hempties b (.inl hb)).imp_left fun hold => hold.imp_left .inl
  · exact .inl (.inl (.inr hb))
  · exact (hempties b (.inr hb)).imp_left fun hold => hold.imp_left .inl

/-- Steps of `Write` on the master. -/
theorem RoomInv.write (hown : OwnInv cfg s) (h : RoomInv s) {data : Bytes} {cur : ℕ} {pc : WritePc}
    (hpc : s.pc () = .appendWrite data cur pc)
    (hmaster : s'.master = s.master) (hfree : s'.free = s.free) (hexec : s'.exec = s.exec)
    (hbufs : s'.bufs = Function.update s.bufs cur (writeStep (s.bufs cur) data pc).1)
    (hattempt : ∀ a, (s'.pc ()).attempt = some a → a = cur)
    (hlength : ∀ data' a pc', s'.pc () = .appendWrite data' a pc' →
      pc' = .enter ∨ data'.length ≤ 0xFFFFFFFF)
    (htaken : (s'.pc ()).taken = [])
    (hfits : (s'.pc ()).failing = false → pc = .reserve →
      (writeStep (s.bufs cur) data .reserve).1.offset ≤ (s.bufs cur).size)
    (hfailing : (s'.pc ()).failing = false → (s.pc ()).failing = false) : RoomInv s' := by
  obtain rfl : cur = s.master := h.attempt cur (by rw [hpc]; rfl)
  constructor
  · intro a ha
    rw [hmaster]
    exact hattempt a ha
  · exact hlength
  · intro hnew
    rw [hmaster, hbufs, Function.update_self, size_writeStep]
    by_cases hreserve : pc = .reserve
    · subst hreserve
      exact hfits hnew rfl
    · rw [offset_writeStep _ _ hreserve]
      exact h.master (hfailing hnew)
  · intro b hb
    have hold : b ∈ s.empties := by
      rw [StoreState.empties, hfree, htaken, hexec, List.append_nil] at hb
      rw [StoreState.empties, hpc]
      simpa [Pc.taken] using hb
    have hne : b ≠ s.master := by
      rintro rfl
      exact hown.master_not_empty hold
    rw [hbufs, Function.update_of_ne hne]
    exact h.empties b hold

/-- A thread that asks for a buffer has failed to append exactly if it is to append. -/
theorem Asking.failing {k : Caller} {b : ℕ} (h : Asking s () k)
    (hk : (Pc.exchange k b).failing = false) : (s.pc ()).failing = false := by
  cases h with
  | append data hpc => cases hk
  | flush dtor hpc _ => rw [hpc]; rfl
  | wait k hpc =>
    rw [hpc]
    cases k with
    | append data => cases hk
    | flush dtor => rfl

/-- Every step that turns nothing away keeps the invariant. -/
theorem RoomInv.step {e : StoreEvent Unit} (hown : OwnInv cfg s) (h : RoomInv s)
    (hm : StoreMove cfg onPersist s e s') (hkept : rejected s'.hist = []) : RoomInv s' := by
  have hrefused : ∀ data, s'.hist = s.hist ++ [.appendRet () data false] → RoomInv s' := by
    intro data hhist
    rw [hhist, rejected_append] at hkept
    cases (List.append_eq_nil_iff.mp hkept).2
  cases hm with
  | appendNull t data =>
    rw [show (s.observe [.appendCall t [], .appendRet t [] false]).hist =
      (s.hist ++ [.appendCall t []]) ++ [.appendRet t [] false] by simp [StoreState.observe],
      rejected_append] at hkept
    cases (List.append_eq_nil_iff.mp hkept).2
  | appendStopped t data => exact hrefused data rfl
  | giveUpAppend e t data => exact hrefused data rfl
  | load t data hpc =>
    have hpc : s.pc () = .appendLoad data := hpc
    constructor
    · intro cur hcur
      exact (Option.some.inj hcur).symm
    · intro data' cur pc hwrite
      cases hwrite
      exact .inl rfl
    · intro _
      exact h.master (by rw [hpc]; rfl)
    · intro b hb
      refine h.empties b ?_
      rw [StoreState.empties, hpc]
      exact hb
  | write t data cur pc pc' hpc hnext =>
    have hpc : s.pc () = .appendWrite data cur pc := hpc
    refine h.write hown hpc rfl rfl rfl rfl ?attempt ?length rfl ?fits ?failing
    case attempt =>
      intro a ha
      exact (Option.some.inj ha).symm
    case length =>
      intro data' a pc'' hwrite
      cases hwrite
      rcases h.length_le data cur pc hpc with rfl | hle
      · simp only [writeStep] at hnext
        split at hnext
        · cases hnext
        · next hlen => exact .inr (by omega)
      · exact .inr hle
    case fits =>
      rintro hnew rfl
      simp only [writeStep] at hnext ⊢
      split at hnext
      · cases hnext
        cases hnew
      · next hroom => exact Nat.le_of_not_lt hroom
    case failing =>
      intro _
      rw [hpc]
      cases pc with
      | leave slot => cases hnext
      | _ => rfl
  | writeTrue t data cur pc old hpc hnext =>
    have hpc : s.pc () = .appendWrite data cur pc := hpc
    refine h.write hown hpc rfl rfl rfl rfl (by rintro a ⟨⟩) (by rintro data' a pc' ⟨⟩) rfl ?fits
      ?failing
    case fits =>
      rintro - rfl
      cases hnext
    case failing =>
      intro _
      rw [hpc]
      cases pc with
      | leave slot =>
        cases hnext
        rfl
      | _ => rfl
  | writeFalse t data cur pc hpc hnext =>
    refine h.write hown hpc rfl rfl rfl rfl ?_ (by rintro data' a pc' ⟨⟩) rfl (by rintro ⟨⟩)
      (by rintro ⟨⟩)
    intro a ha
    exact (Option.some.inj ha).symm
  | appendRetry t data cur hpc hmtx hne =>
    exact absurd (h.attempt cur (by rw [show s.pc () = _ from hpc]; rfl)).symm hne
  | take t k b rest hask hmtx hstopped hfree =>
    refine h.plain rfl rfl (fun a ha => ?_) (.inr ⟨rfl, hask.failing⟩)
    simp only [StoreState.empties, hfree, StoreState.goto, Function.update_self, Pc.taken,
      List.mem_append, List.mem_cons, List.not_mem_nil, or_false] at ha ⊢
    rcases ha with (ha | ha) | ha
    · exact .inl (.inl (.inr ha))
    · exact .inl (.inl (.inl ha))
    · exact .inr ha
  | extend t k buf hask hmtx hstopped hfree hroom hopen =>
    have hold : ∀ b, b < s.poolSize → Function.update s.bufs s.poolSize buf b = s.bufs b :=
      fun b hb => Function.update_of_ne (Nat.ne_of_lt hb) _ _
    constructor
    · rintro cur ⟨⟩
    · rintro data cur pc ⟨⟩
    · intro hnew
      have hmaster := hold s.master hown.master_lt
      simp only [StoreState.goto, hmaster]
      exact h.master (hask.failing hnew)
    · intro b hb
      simp only [StoreState.empties, hfree, StoreState.goto, Function.update_self, Pc.taken,
        List.nil_append, List.mem_append, List.mem_singleton] at hb
      simp only [StoreState.goto]
      rcases hb with rfl | hlate
      · rw [Function.update_self]
        exact (StoreConfig.openBuffer_fresh hopen).2.2
      · have hmem : b ∈ s.empties := List.mem_append_right _ hlate
        rw [hold b (hown.empty_lt hmem)]
        exact h.empties b hmem
  | startWait t k hask hmtx hfree hfull =>
    refine h.moves (StoreState.goto_self _ _ _) rfl rfl rfl rfl ⟨rfl, rfl⟩ ?_
    cases k with
    | append data => exact .inr rfl
    | flush dtor => exact .inl (hask.failing (b := 0) rfl)
  | giveUpFlush e t dtor seq hask =>
    exact h.moves (StoreState.goto_self _ _ _) rfl rfl rfl rfl ⟨rfl, rfl⟩
      (.inl (hask.failing (b := 0) rfl))
  | exchange t k next hpc =>
    have hpc : s.pc () = .exchange k next := hpc
    have hnext : (s.bufs next).offset = 0 := by
      refine h.empties next (List.mem_append_left _ (List.mem_append_right _ ?_))
      rw [hpc]
      exact List.mem_singleton_self _
    constructor
    · rintro cur ⟨⟩
    · rintro data cur pc ⟨⟩
    · intro _
      simp only [StoreState.goto, hnext]
      exact Nat.zero_le _
    · intro b hb
      refine h.empties b ?_
      simp only [StoreState.empties, StoreState.goto, Function.update_self, Pc.taken,
        List.append_nil, List.mem_append] at hb ⊢
      exact hb.imp_left .inl
  | appendCall t _ _ _ hpc | flushCall t _ hpc | flushEmpty t dtor hpc | count t k old hpc
  | enqueueIdle t k old hpc | postNext t k hpc | close t hpc | finish t hpc =>
    exact h.moves (StoreState.goto_self _ _ _) rfl rfl rfl rfl ⟨rfl, rfl⟩
      (.inl (by rw [show s.pc () = _ from hpc]; rfl))
  | destroyCall t _ hidle =>
    exact h.moves (StoreState.goto_self _ _ _) rfl rfl rfl rfl ⟨rfl, rfl⟩
      (.inl (by rw [show s.pc () = _ from hidle t]; rfl))
  | flushStopped t dtor hpc | flushDone t dtor hpc =>
    exact h.moves (StoreState.goto_self _ _ _) rfl rfl rfl rfl (by cases dtor <;> exact ⟨rfl, rfl⟩)
      (.inl (by rw [show s.pc () = _ from hpc]; rfl))
  | enqueueRunning t k old hpc =>
    exact h.moves (StoreState.swapDone_self _ _ _) rfl rfl rfl rfl (by cases k <;> exact ⟨rfl, rfl⟩)
      (.inl (by rw [show s.pc () = _ from hpc]; rfl))
  | runInline t k hpc _ =>
    have hidle := (hown.posting t (by rcases hpc with hpc | hpc <;> rw [hpc] <;> rfl)).2.1
    exact h.moves (StoreState.goto_self _ _ _) rfl rfl rfl (Exec.late_of_isIdle hidle).symm
      ⟨rfl, rfl⟩ (.inl (by rcases hpc with hpc | hpc <;> rw [show s.pc () = _ from hpc] <;> rfl))
  | postQueued t k hpc _ =>
    have hidle := (hown.posting t (by rw [hpc]; rfl)).2.1
    exact h.moves (StoreState.swapDone_self _ _ _) rfl rfl rfl (Exec.late_of_isIdle hidle).symm
      (by cases k <;> exact ⟨rfl, rfl⟩) (.inl (by rw [show s.pc () = _ from hpc]; rfl))
  | drainReturn runner hexec _ =>
    have hlate : s.exec.late = [] := by rw [hexec]; rfl
    cases runner with
    | none =>
      refine h.drains rfl rfl (fun b => ⟨rfl, .inl rfl⟩) fun b hb => .inl ?_
      rw [hlate]
      exact hb
    | some t =>
      simp only [StoreState.drainReturn]
      split
      · next k hpc =>
        exact h.moves (StoreState.swapDone_self _ _ _) rfl rfl rfl hlate.symm
          (by cases k <;> exact ⟨rfl, rfl⟩) (.inl (by rw [show s.pc () = _ from hpc]; rfl))
      · refine h.drains rfl rfl (fun b => ⟨rfl, .inl rfl⟩) fun b hb => .inl ?_
        rw [hlate]
        exact hb
  | sealStore runner b hexec | resetUnseal runner b _ hexec | resetMemset runner b _ hexec =>
    refine h.drains rfl rfl (fun a => ?_) fun a ha => .inl ?_
    · simp only [StoreState.drainTo, StoreState.setBuf]
      by_cases hab : a = b
      · rw [hab, Function.update_self]
        exact ⟨rfl, .inl rfl⟩
      · rw [Function.update_of_ne hab]
        exact ⟨rfl, .inl rfl⟩
    · rw [hexec]
      exact ha
  | resetOffset runner b prevUsed hexec =>
    refine h.drains rfl rfl (fun a => ?_) fun a ha => ?_
    · simp only [StoreState.drainTo, StoreState.setBuf]
      by_cases hab : a = b
      · rw [hab, Function.update_self]
        exact ⟨rfl, .inr rfl⟩
      · rw [Function.update_of_ne hab]
        exact ⟨rfl, .inl rfl⟩
    · rcases List.mem_append.mp ha with hfree | hlate
      · exact .inl (List.mem_append_left _ hfree)
      · obtain rfl := List.mem_singleton.mp hlate
        refine .inr ?_
        simp only [StoreState.drainTo, StoreState.setBuf, Function.update_self]
        rfl
  | pushFree runner b hexec _ =>
    refine h.drains rfl rfl (fun a => ⟨rfl, .inl rfl⟩) fun a ha => .inl ?_
    rw [hexec]
    simpa [StoreState.drainTo, Exec.late] using ha
  | sealSpin => exact h
  | pickUp hexec | pop _ _ _ hexec _ | sealDone _ _ hexec _ | sync _ _ hexec | scanStart _ _ hexec
  | scanFrame _ _ _ _ _ hexec _ | scanEnd _ _ _ _ hexec _ | resetLoad _ _ hexec
  | notifyFree _ _ hexec | fetchSubLast _ _ hexec _ | fetchSub _ _ hexec _
  | notifyFlush _ _ hexec _ =>
    refine h.drains rfl rfl (fun a => ⟨rfl, .inl rfl⟩) fun a ha => .inl ?_
    rw [hexec]
    exact ha
  | shutdown => exact h.drains rfl rfl (fun a => ⟨rfl, .inl rfl⟩) fun a ha => .inl ha

/-- A new store is empty. -/
theorem RoomInv.create {env : σ} (hcreate : StoreState.create cfg env = some s) : RoomInv s := by
  have hidle := (StoreState.create_hist hcreate).2
  have hzero : ∀ b, (s.bufs b).offset = 0 := by
    intro b
    rw [StoreState.create] at hcreate
    split at hcreate
    · cases hcreate
      simp only
      split
      · cases hbuf : cfg.normalise.openBuffer b with
        | none => rfl
        | some buf => exact (StoreConfig.openBuffer_fresh hbuf).2.2
      · rfl
    · cases hcreate
  constructor
  · intro cur hcur
    rw [hidle] at hcur
    cases hcur
  · intro data cur pc hwrite
    rw [hidle] at hwrite
    cases hwrite
  · intro _
    rw [hzero]
    exact Nat.zero_le _
  · exact fun b _ => hzero b

/-- No reservation carries `offset_` past `2 ^ 64`. -/
theorem RoomInv.noWrap (h : RoomInv s) (e : StoreEvent Unit) : NoWrap s e := by
  cases e with
  | step t =>
    intro r hr
    cases hpc : s.pc t with
    | appendWrite data cur pc =>
      cases pc with
      | reserve =>
        have hpc : s.pc () = .appendWrite data cur .reserve := hpc
        obtain rfl : r = (data, cur) := by
          rw [show s.pc t = _ from hpc] at hr
          exact (Option.mem_some_iff.mp hr).symm
        obtain rfl : cur = s.master := h.attempt cur (by rw [hpc]; rfl)
        have hoffset := h.master (by rw [hpc]; rfl)
        have hsize := (s.bufs s.master).size_lt
        have hlength := (h.length_le data _ .reserve hpc).resolve_left (by rintro ⟨⟩)
        simp only
        omega
      | _ =>
        rw [hpc] at hr
        cases hr
    | _ =>
      rw [hpc] at hr
      cases hr
  | _ => trivial

-- ════════════════════════════════════════════════════════════════════════
-- Runs
-- ════════════════════════════════════════════════════════════════════════

/-- What holds in every state of a store that has turned nothing away. -/
structure LosslessState (cfg : StoreConfig) (s : StoreState Unit σ) : Prop where
  room : RoomInv s
  fifo : FifoState cfg s
  flush : FlushState cfg s

/-- A step without a failure to construct a buffer that turns nothing away. -/
theorem LosslessState.step {e : StoreEvent Unit} (h : LosslessState cfg s)
    (hm : StoreMove cfg onPersist s e s')
    (hfiles : ∀ seq buf, cfg.openBuffer seq = some buf → Clean buf.size buf.data)
    (hopen : ∀ seq, cfg.openBuffer seq ≠ none) (hfail : NoCreateFailure e)
    (hkept : rejected s'.hist = []) : LosslessState cfg s' := by
  have hwrap : NoWrap s e := h.room.noWrap e
  have hkeeps : KeepsFlush s e := by
    cases e with
    | createFails t => exact hfail.elim
    | _ => trivial
  exact ⟨h.room.step h.fifo.own hm hkept, h.fifo.step hm hfiles hopen hfail hwrap,
    h.flush.step hm hopen hkeeps hwrap⟩

/-- Over new files, with one client thread and no failure to construct a buffer:
what holds as long as no `Append` has been turned away. -/
theorem LosslessState.of_reach {env : σ} {s₀ : StoreState Unit σ} (hzero : ZeroFiles cfg)
    (hcreate : StoreState.create cfg env = some s₀)
    (hr : Reach (storeStep cfg onPersist) (fun _ e => NoCreateFailure e) s₀ s)
    (hkept : rejected s.hist = []) : LosslessState cfg.normalise s := by
  have hopen := StoreState.create_opens hcreate
  refine hr.invariant (I := fun s => rejected s.hist = [] → LosslessState cfg.normalise s)
    (fun _ => ⟨RoomInv.create hcreate, FifoState.create hzero hcreate, FlushState.create hcreate⟩)
    ?_ hkept
  intro s e s' h hfail hstep hkept
  have hm := StoreMove.of_storeStep hstep
  exact (h (hm.rejected_eq_nil hkept)).step hm (fun _ _ => hzero.clean) hopen hfail hkept

/-- Once the store is destroyed, everything accepted has been handed to `on_persist`,
in the order of its acceptance. -/
theorem LosslessState.persisted_eq (h : LosslessState cfg s) (hdestroyed : s.destroyed = true) :
    persisted s.hist = accepted s.hist := by
  have hprefix := h.fifo.persisted_prefix
  exact hprefix.sublist.antisymm (h.flush.accepted_sublist hdestroyed)

end LoggerHigh
