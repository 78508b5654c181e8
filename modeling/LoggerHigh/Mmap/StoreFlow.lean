import LoggerHigh.Mmap.StoreFrames

/-!
# How payloads move through the store

Every step of the store keeps the buffers in their cycles, and does one of six
things to the payloads that wait in them: it lets one in, returns the call that
brought one, hands one to `on_persist`, puts a buffer at the end of the queue,
takes one off its front, or none of these. Where the files are not clean, it can
also hand out a frame that has waited in none of them.

## Main definitions

- `Flow` — what a step does to queue, waiting payloads, slots held and history
- `AnyFlow` — the same over any files

## Main results

- `SlotsInv.step` — every step whose reservation is live keeps the invariant
  and is one of these
- `SlotsInv.create` — the constructor establishes the invariant
- `FramesInv.step` — over clean files every step is one of the six
-/

namespace LoggerHigh

open LengthPrefix ThreadSum

variable {T σ : Type*} [DecidableEq T]

/-- What a step does to the payloads that wait in the buffers. -/
inductive Flow (s s' : StoreState T σ) (pend pend' : ℕ → List Bytes) : Prop
  | reserve (t : T) (data : Bytes) (cur old : ℕ) (hpc : s.pc t = .appendWrite data cur .reserve)
      (hpc' : s'.pc = Function.update s.pc t (.appendWrite data cur (.header old)))
      (hmem : cur ∈ s.queue) (hqueue : s'.queue = s.queue) (hhist : s'.hist = s.hist)
      (hpend : pend' = Function.update pend cur (pend cur ++ [data]))
  | release (t : T) (data : Bytes) (cur old : ℕ)
      (hpc : s.pc t = .appendWrite data cur (.leave (some old)))
      (hpc' : s'.pc = Function.update s.pc t .idle) (hmem : cur ∈ s.queue)
      (hqueue : s'.queue = s.queue) (hhist : s'.hist = s.hist ++ [.appendRet t data true])
      (hpend : pend' = pend)
  | persist (b : ℕ) (p : Bytes) (ps : List Bytes) (threw : Bool) (hheld : s.exec.held = [b])
      (hfirst : pend b = p :: ps) (hquiet : ∀ t q, (s.pc t).slotOn ≠ some (b, q))
      (hpc' : s'.pc = s.pc) (hqueue : s'.queue = s.queue)
      (hhist : s'.hist = s.hist ++ [.persist p threw])
      (hpend : pend' = Function.update pend b ps)
  | swap (t : T) (k : Caller) (next : ℕ) (hpc : s.pc t = .exchange k next)
      (hpc' : s'.pc = Function.update s.pc t (.count k s.master))
      (hqueue : s'.queue = s.queue ++ [next]) (hnext : pend next = []) (hhist : s'.hist = s.hist)
      (hpend : pend' = pend)
  | free (b : ℕ) (hqueue : s.queue = b :: s'.queue) (hempty : pend b = []) (hpc' : s'.pc = s.pc)
      (hhist : s'.hist = s.hist) (hpend : pend' = pend)
  | quiet (obs : List (Obs T)) (hslots : ∀ t, (s'.pc t).slotOn = (s.pc t).slotOn)
      (hqueue : s'.queue = s.queue) (hhist : s'.hist = s.hist ++ obs)
      (haccepted : accepted obs = []) (hpersisted : persisted obs = []) (hpend : pend' = pend)

/-- The same over any files: the scan can also come to a frame that has been left
behind the last slot. -/
inductive AnyFlow (s s' : StoreState T σ) (pend pend' : ℕ → List Bytes) : Prop
  | flow (hflow : Flow s s' pend pend')
  | leftover (runner : Option T) (b endPos pos : ℕ) (p : Bytes) (threw : Bool)
      (hexec : s.exec = .drain runner b (.scan endPos pos))
      (hframe : (s.bufs b).frameAt endPos pos = some p) (hempty : pend b = [])
      (hpc' : s'.pc = s.pc) (hqueue : s'.queue = s.queue)
      (hhist : s'.hist = s.hist ++ [.persist p threw]) (hpend : pend' = pend)

variable [Fintype T] {cfg : StoreConfig} {onPersist : σ → Bytes → σ × Bool}
  {s s' : StoreState T σ} {slots pend : ℕ → List Bytes} {rest : ℕ → ByteMemory}
  {tidy : ℕ → ByteMemory → Prop}

/-- The invariant goes on in `s'`, and the step is a `Flow`. -/
def FlowsTo (s s' : StoreState T σ) (pend : ℕ → List Bytes) : Prop :=
  ∃ slots' pend' rest', FramesInv s' slots' pend' rest' ∧ Flow s s' pend pend'

/-- The same over any files. -/
def SlotsFlow (tidy : ℕ → ByteMemory → Prop) (s s' : StoreState T σ)
    (pend : ℕ → List Bytes) : Prop :=
  ∃ slots' pend' rest', SlotsInv tidy s' slots' pend' rest' ∧ AnyFlow s s' pend pend'

omit [DecidableEq T] [Fintype T] in
theorem Pc.of_not_writing {pc : Pc} (h : pc.writing = false) :
    (∀ b, pc.writerOn b = none) ∧ pc.slotOn = none := by
  cases pc <;> first | exact ⟨fun _ => rfl, rfl⟩ | cases h

omit [DecidableEq T] [Fintype T] in
theorem Exec.eq_idle {exec : Exec T} (h : exec.isIdle = true) : exec = .idle := by
  cases exec <;> first | rfl | cases h

theorem Pc.of_posts {pc : Pc} (h : pc.posts = true) :
    pc.writing = false ∧ pc.replaced = [] := by
  cases pc <;> first | exact ⟨rfl, rfl⟩ | cases h

theorem Caller.writing_swapped (k : Caller) :
    k.swapped.writing = false ∧ k.swapped.replaced = [] := by
  cases k <;> exact ⟨rfl, rfl⟩

-- ════════════════════════════════════════════════════════════════════════
-- Threads outside Write
-- ════════════════════════════════════════════════════════════════════════

/-- Moves of threads that are not inside `Write`. -/
theorem SlotsInv.flow_move (h : SlotsInv tidy s slots pend rest) (hbufs : s'.bufs = s.bufs)
    (hexec : ∀ b, s'.exec.drainPc b = s.exec.drainPc b) {t : T} {x y : Pc}
    (hpc : s'.pc = Function.update s.pc t x) (hold : s.pc t = y) (hx : x.writing = false)
    (hy : y.writing = false) (hqueue : s'.queue = s.queue) {obs : List (Obs T)}
    (hhist : s'.hist = s.hist ++ obs) (haccepted : accepted obs = [])
    (hpersisted : persisted obs = []) : SlotsFlow tidy s s' pend := by
  obtain ⟨hxon, hxslot⟩ := Pc.of_not_writing hx
  obtain ⟨hyon, hyslot⟩ := Pc.of_not_writing hy
  refine ⟨slots, pend, rest, h.move hbufs hexec hpc hold hxon hyon fun b hb => hqueue ▸ hb, ?_⟩
  refine .flow (.quiet obs ?_ hqueue hhist haccepted hpersisted rfl)
  rw [hpc]
  exact apply_update (by rw [hold, hxslot, hyslot])

/-- The same where strand, `mtx_` and `master_` stay. -/
theorem SlotsInv.flow_plain (h : SlotsInv tidy s slots pend rest) (hbufs : s'.bufs = s.bufs)
    (hplaces : s'.places = s.places) {t : T} {x y : Pc}
    (hpc : s'.pc = Function.update s.pc t x) (hold : s.pc t = y) (hx : x.writing = false)
    (hy : y.writing = false) (hreplaced : x.replaced = y.replaced) {obs : List (Obs T)}
    (hhist : s'.hist = s.hist ++ obs) (haccepted : accepted obs = [])
    (hpersisted : persisted obs = []) : SlotsFlow tidy s s' pend := by
  have hqueue := StoreState.queue_move hplaces hpc hold hreplaced
  simp only [StoreState.places, Prod.mk.injEq] at hplaces
  exact h.flow_move hbufs (fun b => by rw [hplaces.2.2.2]) hpc hold hx hy hqueue hhist haccepted
    hpersisted

omit [Fintype T] in
/-- Steps of `SwapMasterLocked_` shift the replaced buffer along. -/
theorem StoreState.queue_swapDone {t : T} {k : Caller} {tasks : List ℕ} {exec : Exec T}
    {running : Bool} (hmtx : s.mtx = some t) (hheld : exec.held = s.exec.held)
    (htasks : tasks = s.tasks ++ (s.pc t).replaced) :
    ({ s with tasks := tasks, exec := exec, running := running }.swapDone t k).queue =
      s.queue := by
  rw [queue_of_mtx hmtx, queue_of_free rfl]
  simp only [swapDone, goto, hheld, htasks, List.append_assoc]

omit [DecidableEq T] in
/-- The buffer a thread is going to exchange for the master holds nothing. -/
theorem SlotsInv.pend_of_not_mem (h : SlotsInv tidy s slots pend rest) {b : ℕ}
    (hb : b ∉ s.queue) : pend b = [] := by
  have hheld : b ∉ s.exec.held := fun hmem => hb (StoreState.held_subset_queue hmem)
  rw [((Exec.drainPc_of_not_held hheld).2 _ _ _).mp (h.scanned b), h.live b hb]

/-- The exchange of the master puts a new buffer at the end of the queue. -/
theorem SlotsInv.flow_exchange (hown : OwnInv cfg s) (h : SlotsInv tidy s slots pend rest) {t : T}
    {k : Caller} {next : ℕ} (hpc : s.pc t = .exchange k next) :
    SlotsFlow tidy s ({ s with master := next }.goto t (.count k s.master)) pend := by
  have hmtx : s.mtx = some t := (hown.mtx_iff t).mpr (by rw [hpc]; rfl)
  have hqueue : ({ s with master := next }.goto t (.count k s.master)).queue =
      s.queue ++ [next] := by
    have hafter := StoreState.queue_of_mtx
      (s := { s with master := next }.goto t (.count k s.master)) hmtx
    rw [hafter, StoreState.goto_self, StoreState.queue_of_mtx hmtx, hpc]
    simp only [StoreState.goto, Pc.replaced, List.append_nil]
  refine ⟨slots, pend, rest, ?_, ?_⟩
  · refine h.move rfl (fun _ => rfl) rfl hpc (fun _ => rfl) (fun _ => rfl) fun b hb => ?_
    rw [hqueue]
    exact List.mem_append_left _ hb
  · have hnext := h.pend_of_not_mem (hown.next_not_mem_queue hpc)
    exact .flow (.swap t k next hpc rfl hqueue hnext rfl rfl)

-- ════════════════════════════════════════════════════════════════════════
-- Threads inside Write
-- ════════════════════════════════════════════════════════════════════════

omit [DecidableEq T] in
/-- A thread that holds a slot holds it in a buffer of the queue. -/
theorem SlotsInv.mem_queue_of_slot (h : SlotsInv tidy s slots pend rest) {t : T} {data : Bytes}
    {cur old : ℕ} {pc : WritePc} (hpc : s.pc t = .appendWrite data cur pc)
    (hslot : pc.slot? = some old) : cur ∈ s.queue := by
  by_contra hmem
  have hwriter : (fun u => (s.pc u).writerOn cur) t = some (data, pc) := by
    simp only [hpc, Pc.writerOn, if_pos]
  have hholds := (h.cycle cur).holds t data pc old hwriter hslot
  rw [h.live cur hmem] at hholds
  cases hholds

/-- Steps of a thread inside `Write` that get no slot, or keep theirs. -/
theorem SlotsInv.flow_write (h : SlotsInv tidy s slots pend rest) {t : T} {data : Bytes} {cur : ℕ}
    {pc : WritePc} {x : Pc} (hpc : s.pc t = .appendWrite data cur pc)
    (hok : ReservesLive s (.step t))
    (hx : ∀ b, x.writerOn b =
      if cur = b then (writeStep (s.bufs cur) data pc).2.writer data else none)
    (hreplaced : x.replaced = []) (hnot : ¬ (pc = .reserve ∧ (s.bufs cur).HasRoom data))
    (hslot : x.slotOn = (s.pc t).slotOn) :
    SlotsFlow tidy s ((s.setBuf cur (writeStep (s.bufs cur) data pc).1).goto t x) pend := by
  have hnext := h.write s.hist hpc hok hx hreplaced
  simp only [slotsAfter, if_neg hnot, Function.update_eq_self] at hnext
  refine ⟨slots, pend, rest, hnext, .flow (.quiet [] ?_ ?_ (List.append_nil _).symm rfl rfl rfl)⟩
  · exact apply_update hslot
  · exact StoreState.queue_move rfl rfl hpc hreplaced

/-- The next step of a thread that stays inside `Write`. -/
theorem SlotsInv.flow_writeAt (h : SlotsInv tidy s slots pend rest) {t : T} {data : Bytes} {cur : ℕ}
    {pc pc' : WritePc} (hpc : s.pc t = .appendWrite data cur pc)
    (hok : ReservesLive s (.step t)) (hnext : (writeStep (s.bufs cur) data pc).2 = .at pc') :
    SlotsFlow tidy s ((s.setBuf cur (writeStep (s.bufs cur) data pc).1).goto t
      (.appendWrite data cur pc')) pend := by
  have hx : ∀ b, (Pc.appendWrite data cur pc').writerOn b =
      if cur = b then (writeStep (s.bufs cur) data pc).2.writer data else none := by
    intro b
    rw [hnext]
    rfl
  by_cases hadd : pc = .reserve ∧ (s.bufs cur).HasRoom data
  · have hmem : cur ∈ s.queue := by
      obtain ⟨rfl, hroom⟩ := hadd
      rw [ReservesLive, hpc] at hok
      by_contra hnot
      exact hok.2 hroom (.inl hnot)
    have hframes := h.write s.hist hpc hok hx rfl
    simp only [slotsAfter, if_pos hadd] at hframes
    obtain ⟨rfl, hroom⟩ := hadd
    refine ⟨_, _, rest, hframes,
      .flow (.reserve t data cur (s.bufs cur).offset hpc ?_ hmem ?_ rfl rfl)⟩
    · have hheader : (writeStep (s.bufs cur) data .reserve).2 = .at (.header (s.bufs cur).offset) :=
        congrArg WriteNext.at (if_neg hroom)
      rw [hheader] at hnext
      cases hnext
      rfl
    · exact StoreState.queue_move rfl rfl hpc rfl
  · refine h.flow_write hpc hok hx rfl hadd ?_
    rw [hpc]
    cases pc with
    | enter =>
      simp only [writeStep] at hnext
      split at hnext <;> cases hnext
      rfl
    | check =>
      simp only [writeStep] at hnext
      cases hnext
      split <;> rfl
    | reserve =>
      have hroom : (s.bufs cur).size < addSize (s.bufs cur).offset (addSize 4 data.length) := by
        by_contra hroom
        exact hadd ⟨rfl, hroom⟩
      simp only [writeStep, if_pos hroom] at hnext
      cases hnext
      rfl
    | header old | payload old =>
      cases hnext
      rfl
    | leave slot => cases hnext

/-- `Write` returns true, and with it `Append`. -/
theorem SlotsInv.flow_writeTrue (h : SlotsInv tidy s slots pend rest) {t : T} {data : Bytes}
    {cur old : ℕ} {pc : WritePc} (hpc : s.pc t = .appendWrite data cur pc)
    (hok : ReservesLive s (.step t))
    (hnext : (writeStep (s.bufs cur) data pc).2 = .returned (some old)) :
    SlotsFlow tidy s ((s.setBuf cur (writeStep (s.bufs cur) data pc).1).appendReturn t data true)
      pend := by
  obtain rfl : pc = .leave (some old) := by
    cases pc with
    | enter =>
      simp only [writeStep] at hnext
      split at hnext <;> cases hnext
    | leave slot =>
      cases hnext
      rfl
    | _ => cases hnext
  have hframes := h.write (x := .idle) (s.hist ++ [.appendRet t data true]) hpc hok
    (fun b => (ite_self _).symm) rfl
  have hnot : ¬ (WritePc.leave (some old) = .reserve ∧ (s.bufs cur).HasRoom data) := by
    rintro ⟨⟨⟩, -⟩
  simp only [slotsAfter, if_neg hnot, Function.update_eq_self] at hframes
  refine ⟨slots, pend, rest, hframes, ?_⟩
  exact .flow (.release t data cur old hpc rfl (h.mem_queue_of_slot hpc rfl)
    (StoreState.queue_move rfl rfl hpc rfl) rfl rfl)

/-- `Write` returns false. -/
theorem SlotsInv.flow_writeFalse (h : SlotsInv tidy s slots pend rest) {t : T} {data : Bytes}
    {cur : ℕ} {pc : WritePc} (hpc : s.pc t = .appendWrite data cur pc)
    (hok : ReservesLive s (.step t))
    (hnext : (writeStep (s.bufs cur) data pc).2 = .returned none) :
    SlotsFlow tidy s
      ((s.setBuf cur (writeStep (s.bufs cur) data pc).1).goto t (.appendLock data cur))
      pend := by
  have hpcs : pc = .enter ∨ pc = .leave none := by
    cases pc with
    | enter => exact .inl rfl
    | leave slot =>
      cases hnext
      exact .inr rfl
    | _ => cases hnext
  refine h.flow_write hpc hok (fun b => ?_) rfl ?_ ?_
  · rw [hnext]
    exact (ite_self _).symm
  · rintro ⟨rfl, -⟩
    rcases hpcs with hpcs | hpcs <;> cases hpcs
  · rw [hpc]
    rcases hpcs with rfl | rfl <;> rfl

-- ════════════════════════════════════════════════════════════════════════
-- The drain
-- ════════════════════════════════════════════════════════════════════════

omit [DecidableEq T] [Fintype T] in
theorem StoreState.queue_congr (hmtx : s'.mtx = s.mtx) (hmaster : s'.master = s.master)
    (hpc : s'.pc = s.pc) (hlists : s'.exec.held ++ s'.tasks = s.exec.held ++ s.tasks) :
    s'.queue = s.queue := by
  simp only [queue, posted, replaced, hmtx, hmaster, hpc, hlists]

omit [DecidableEq T] [Fintype T] in
theorem Exec.drainPc_self (runner : Option T) (b : ℕ) (pc : DrainPc) :
    (Exec.drain runner b pc).drainPc b = some pc := if_pos rfl

omit [DecidableEq T] [Fintype T] in
theorem Exec.drainPc_of_ne (runner : Option T) {a b : ℕ} (pc : DrainPc) (h : a ≠ b) :
    (Exec.drain runner b pc).drainPc a = none := if_neg (Ne.symm h)

section Drain

variable {runner : Option T} {b : ℕ} {pc pc' : DrainPc}

omit [DecidableEq T] in
/-- The buffer under the drain. -/
theorem SlotsInv.of_drain (h : SlotsInv tidy s slots pend rest)
    (hexec : s.exec = .drain runner b pc) :
    CycleInv pc.phase (s.bufs b) (fun t => (s.pc t).writerOn b) (slots b) (rest b) ∧
      Scanned (s.bufs b) (slots b) (pend b) (some pc) := by
  have hcycle := h.cycle b
  have hscan := h.scanned b
  rw [hexec, Exec.drainPc_self] at hcycle hscan
  exact ⟨hcycle, hscan⟩

/-- A step of the drain after which the same payloads wait. -/
theorem SlotsInv.flow_drainTo (h : SlotsInv tidy s slots pend rest)
    (hexec : s.exec = .drain runner b pc) (hheld : s.exec.held = [b])
    (hheld' : (Exec.drain runner b pc').held = [b]) {buf : MmapBuffer} {sl : List Bytes}
    {re : ByteMemory}
    (hcycle : CycleInv pc'.phase buf (fun t => (s.pc t).writerOn b) sl re)
    (htidy : tidy buf.size re) (hscan : Scanned buf sl (pend b) (some pc')) :
    SlotsFlow tidy s ((s.setBuf b buf).drainTo runner b pc') pend := by
  have hqueue : ((s.setBuf b buf).drainTo runner b pc').queue = s.queue :=
    StoreState.queue_congr rfl rfl rfl (by rw [hheld, ← hheld']; rfl)
  have hmem : b ∈ s.queue := StoreState.held_subset_queue (hheld ▸ List.mem_singleton_self b)
  have hself : ((s.setBuf b buf).drainTo runner b pc').exec.drainPc b = some pc' :=
    Exec.drainPc_self runner b pc'
  have hframes : SlotsInv tidy ((s.setBuf b buf).drainTo runner b pc') (Function.update slots b sl)
      (Function.update pend b (pend b)) (Function.update rest b re) := h.drainMove rfl rfl
    (fun a ha => by
      rw [hexec]
      exact (Exec.drainPc_of_ne runner pc' ha).trans (Exec.drainPc_of_ne runner pc ha).symm)
    (by rw [hself]; exact hcycle) htidy (by rw [hself]; exact hscan)
    (fun hnot => absurd (hqueue ▸ hmem) hnot) (fun a _ => by rw [hqueue]; exact id)
  rw [Function.update_eq_self] at hframes
  exact ⟨_, pend, _, hframes,
    .flow (.quiet [] (fun _ => rfl) hqueue (List.append_nil _).symm rfl rfl rfl)⟩

omit [DecidableEq T] [Fintype T] in
theorem StoreState.setBuf_self (s : StoreState T σ) (b : ℕ) : s.setBuf b (s.bufs b) = s := by
  rw [setBuf, Function.update_eq_self]

/-- The same where the buffer does not change. -/
theorem SlotsInv.flow_drainOn (h : SlotsInv tidy s slots pend rest)
    (hexec : s.exec = .drain runner b pc) (hheld : s.exec.held = [b])
    (hheld' : (Exec.drain runner b pc').held = [b])
    (hcycle : CycleInv pc'.phase (s.bufs b) (fun t => (s.pc t).writerOn b) (slots b) (rest b))
    (hscan : Scanned (s.bufs b) (slots b) (pend b) (some pc')) :
    SlotsFlow tidy s (s.drainTo runner b pc') pend := by
  have hflow := h.flow_drainTo hexec hheld hheld' hcycle (h.tidy b) hscan
  rwa [StoreState.setBuf_self] at hflow

omit [DecidableEq T] in
/-- Where the scan stands, it finds the first payload that waits. -/
theorem SlotsInv.frameAt_eq (h : SlotsInv tidy s slots pend rest) {endPos pos : ℕ} {p : Bytes}
    {ps : List Bytes} (hexec : s.exec = .drain runner b (.scan endPos pos))
    (hpend : pend b = p :: ps) : (s.bufs b).frameAt endPos pos = some p := by
  obtain ⟨hcycle, rfl, done, hslots, rfl⟩ := h.of_drain hexec
  rw [hpend] at hslots
  have hmem : (span done, p) ∈ layoutFrom 0 (slots b) := by
    rw [hslots, layoutFrom_append, Nat.zero_add]
    exact List.mem_append_right _ List.mem_cons_self
  have hspan := hcycle.span_le_used
  rw [hslots, span_append, span_cons] at hspan
  refine MmapBuffer.frameAt_stored (hcycle.slot_length p ?_) (hcycle.stored_of_quiet rfl hmem) ?_
  · rw [hslots]
    exact List.mem_append_right _ List.mem_cons_self
  · omega

omit [DecidableEq T] in
/-- Over clean files, a scan past the last payload that waits finds nothing. -/
theorem FramesInv.frameAt_eq_none (h : FramesInv s slots pend rest) {endPos pos : ℕ}
    (hexec : s.exec = .drain runner b (.scan endPos pos)) (hpend : pend b = []) :
    (s.bufs b).frameAt endPos pos = none := by
  obtain ⟨hcycle, rfl, done, hslots, rfl⟩ := (framesInv_iff.mp h).of_drain hexec
  rw [hpend, List.append_nil] at hslots
  rw [← hslots]
  exact hcycle.frameAt_span_eq_none rfl (h.clean b)

omit [DecidableEq T] in
/-- The scan hands out a frame: the invariant goes on once it is known how the
frame belongs to the slots. -/
theorem SlotsInv.scanFrame (onPersist : σ → Bytes → σ × Bool)
    (h : SlotsInv tidy s slots pend rest) {endPos pos : ℕ} {p : Bytes} {sl ps : List Bytes}
    (hexec : s.exec = .drain runner b (.scan endPos pos))
    (hcycle : CycleInv .drained (s.bufs b) (fun t => (s.pc t).writerOn b) sl (rest b))
    (hend : endPos = (s.bufs b).used) {done : List Bytes} (hslots : sl = done ++ p :: ps)
    (hpos : pos = span done) :
    SlotsInv tidy ((s.persist onPersist p).drainTo runner b (.scan endPos (pos + (4 + p.length))))
        (Function.update slots b sl) (Function.update pend b ps) rest ∧
      ((s.persist onPersist p).drainTo runner b
        (.scan endPos (pos + (4 + p.length)))).queue = s.queue := by
  have hheld : s.exec.held = [b] := by rw [hexec]; rfl
  have hqueue : ((s.persist onPersist p).drainTo runner b
      (.scan endPos (pos + (4 + p.length)))).queue = s.queue :=
    StoreState.queue_congr rfl rfl rfl (by rw [hheld]; rfl)
  have hmem : b ∈ s.queue := StoreState.held_subset_queue (hheld ▸ List.mem_singleton_self b)
  have hself : ((s.persist onPersist p).drainTo runner b
      (.scan endPos (pos + (4 + p.length)))).exec.drainPc b = some _ :=
    Exec.drainPc_self runner b _
  have hframes : SlotsInv tidy ((s.persist onPersist p).drainTo runner b
      (.scan endPos (pos + (4 + p.length)))) (Function.update slots b sl)
      (Function.update pend b ps) (Function.update rest b (rest b)) := h.drainMove rfl
    (Function.update_eq_self b s.bufs).symm
    (fun a ha => by
      rw [hexec]
      exact (Exec.drainPc_of_ne runner _ ha).trans (Exec.drainPc_of_ne runner _ ha).symm)
    (by rw [hself]; exact hcycle) (h.tidy b)
    (by
      rw [hself]
      refine ⟨hend, done ++ [p], ?_, ?_⟩
      · rw [hslots, List.append_assoc, List.singleton_append]
      · rw [hpos, span_append, span_cons, span_nil, Nat.add_zero])
    (fun hnot => absurd (hqueue ▸ hmem) hnot) (fun a _ => by rw [hqueue]; exact id)
  rw [Function.update_eq_self] at hframes
  exact ⟨hframes, hqueue⟩

/-- The scan hands out the first payload that waits, or a frame behind the last slot. -/
theorem SlotsInv.flow_scanFrame (h : SlotsInv tidy s slots pend rest) {endPos pos : ℕ} {p : Bytes}
    (hexec : s.exec = .drain runner b (.scan endPos pos))
    (hframe : (s.bufs b).frameAt endPos pos = some p) :
    SlotsFlow tidy s ((s.persist onPersist p).drainTo runner b
      (.scan endPos (pos + (4 + p.length)))) pend := by
  have hheld : s.exec.held = [b] := by rw [hexec]; rfl
  obtain ⟨hcycle, hend, done, hslots, hpos⟩ := h.of_drain hexec
  cases hpend : pend b with
  | nil =>
    rw [hpend, List.append_nil] at hslots
    have hadopt : CycleInv .drained (s.bufs b) (fun t => (s.pc t).writerOn b)
        (slots b ++ [p]) (rest b) := by
      refine hcycle.adopt rfl ?_
      rw [hslots, ← hpos, ← hend]
      exact hframe
    obtain ⟨hframes, hqueue⟩ := h.scanFrame onPersist hexec hadopt hend
      (by rw [hslots]) hpos
    rw [← hpend, Function.update_eq_self] at hframes
    exact ⟨_, _, _, hframes,
      .leftover runner b endPos pos p _ hexec hframe hpend rfl hqueue rfl rfl⟩
  | cons q ps =>
    obtain rfl : q = p := by
      have hfirst := h.frameAt_eq hexec hpend
      rw [hframe] at hfirst
      exact (Option.some.inj hfirst).symm
    rw [hpend] at hslots
    obtain ⟨hframes, hqueue⟩ := h.scanFrame onPersist hexec hcycle hend hslots hpos
    rw [Function.update_eq_self] at hframes
    refine ⟨_, _, _, hframes,
      .flow (.persist b q ps _ hheld hpend (fun t r hslot => ?_) rfl hqueue rfl rfl)⟩
    -- a writer with a slot would have kept `Seal` waiting
    cases hpc : s.pc t with
    | appendWrite data cur wpc =>
      rw [hpc, Pc.slotOn] at hslot
      split at hslot
      · next hsome =>
        cases hslot
        have hwriter : (fun u => (s.pc u).writerOn b) t = some (r, wpc) := by
          simp only [hpc, Pc.writerOn, if_pos]
        rcases hcycle.quiet rfl t r wpc hwriter with rfl | rfl | rfl <;> cases hsome
      · cases hslot
    | _ =>
      rw [hpc] at hslot
      cases hslot

/-- The drain gives its buffer back. -/
theorem SlotsInv.flow_pushFree (h : SlotsInv tidy s slots pend rest)
    (hexec : s.exec = .drain runner b .pushFree) (hmtx : s.mtx = none) :
    SlotsFlow tidy s ({ s with free := s.free ++ [b] }.drainTo runner b .notifyFree) pend := by
  obtain ⟨hcycle, hslots, hpend⟩ := h.of_drain hexec
  have hqueue : s.queue =
      b :: ({ s with free := s.free ++ [b] }.drainTo runner b .notifyFree).queue := by
    have hafter := StoreState.queue_of_free
      (s := { s with free := s.free ++ [b] }.drainTo runner b .notifyFree) hmtx
    rw [StoreState.queue_of_free hmtx, hafter, hexec]
    rfl
  refine ⟨slots, pend, rest, ?_, .flow (.free b hqueue hpend rfl rfl rfl)⟩
  refine h.same rfl (fun _ _ => rfl) (fun a => ?_) (fun a hnot hmem => ?_)
  · have hscan := h.scanned a
    rw [hexec] at hscan ⊢
    by_cases ha : a = b
    · subst ha
      rw [StoreState.drainTo, Exec.drainPc_self, Exec.drainPc_self]
      exact ⟨rfl, hpend.trans hslots.symm⟩
    · rw [StoreState.drainTo, Exec.drainPc_of_ne _ _ ha, Exec.drainPc_of_ne _ _ ha]
      rw [Exec.drainPc_of_ne _ _ ha] at hscan
      exact ⟨rfl, hscan⟩
  · rw [hqueue, List.mem_cons] at hmem
    rw [hmem.resolve_right hnot]
    exact hslots

/-- Steps of the strand that are not about the content of any buffer. -/
theorem SlotsInv.flow_strand (h : SlotsInv tidy s slots pend rest) (hbufs : s'.bufs = s.bufs)
    (hpc : s'.pc = s.pc) (hhist : s'.hist = s.hist) (hqueue : s'.queue = s.queue)
    (hdrain : ∀ a, drainPhase (s.exec.drainPc a) = drainPhase (s'.exec.drainPc a) ∧
      (Scanned (s.bufs a) (slots a) (pend a) (s.exec.drainPc a) →
        Scanned (s.bufs a) (slots a) (pend a) (s'.exec.drainPc a))) : SlotsFlow tidy s s' pend := by
  refine ⟨slots, pend, rest, ?_, .flow (.quiet [] ?_ hqueue ?_ rfl rfl rfl)⟩
  · refine h.same hbufs ?_ (fun a => ?_) (fun a hnot hmem => absurd (hqueue ▸ hmem) hnot)
    · intro a t
      rw [hpc]
    · exact ⟨(hdrain a).1.symm, (hdrain a).2 (h.scanned a)⟩
  · intro t
    rw [hpc]
  · rw [hhist, List.append_nil]

end Drain

-- ════════════════════════════════════════════════════════════════════════
-- All steps
-- ════════════════════════════════════════════════════════════════════════

omit [DecidableEq T] [Fintype T] in
/-- The drain of a buffer that has been given back, or not begun. -/
theorem SlotsInv.drain_ends {exec exec' : Exec T} (hheld : exec.held = [])
    (hheld' : exec'.held = [])
    (a : ℕ) : drainPhase (exec.drainPc a) = drainPhase (exec'.drainPc a) ∧
      (Scanned (s.bufs a) (slots a) (pend a) (exec.drainPc a) →
        Scanned (s.bufs a) (slots a) (pend a) (exec'.drainPc a)) := by
  have hnot : a ∉ exec.held := by
    rw [hheld]
    exact List.not_mem_nil
  have hnot' : a ∉ exec'.held := by
    rw [hheld']
    exact List.not_mem_nil
  obtain ⟨hphase, hscan⟩ := Exec.drainPc_of_not_held hnot
  obtain ⟨hphase', hscan'⟩ := Exec.drainPc_of_not_held hnot'
  exact ⟨hphase.trans hphase'.symm, fun h => (hscan' _ _ _).mpr ((hscan _ _ _).mp h)⟩

omit [DecidableEq T] [Fintype T] in
theorem Asking.replaced {t : T} {k : Caller} (h : Asking s t k) :
    [] = (s.pc t).replaced := by
  cases h with
  | append data hpc | flush dtor hpc _ | wait k hpc => rw [hpc]; rfl

/-- Every step whose reservation is live keeps the invariant, and is a `Flow`. -/
theorem SlotsInv.step {e : StoreEvent T} (htidy : Tidy tidy) (hown : OwnInv cfg s)
    (h : SlotsInv tidy s slots pend rest) (hm : StoreMove cfg onPersist s e s')
    (hok : ReservesLive s e) (hopens : OpensTidy tidy cfg s e) :
    SlotsFlow tidy s s' pend := by
  cases hm with
  | appendNull t data _ hpc =>
    refine h.flow_plain (t := t) (x := .idle) rfl rfl ?_ hpc rfl rfl rfl rfl rfl rfl
    rw [← hpc, Function.update_eq_self]
    rfl
  | appendCall t data d _ hpc => exact h.flow_plain rfl rfl rfl hpc rfl rfl rfl rfl rfl rfl
  | flushCall t _ hpc => exact h.flow_plain rfl rfl rfl hpc rfl rfl rfl rfl rfl rfl
  | destroyCall t _ hidle =>
    exact h.flow_plain rfl rfl rfl (hidle t) rfl rfl rfl rfl rfl rfl
  | load t data hpc =>
    refine ⟨slots, pend, rest, h.load hpc, .flow (.quiet [] ?_
      (StoreState.queue_move rfl rfl hpc rfl) (List.append_nil _).symm rfl rfl rfl)⟩
    exact apply_update (by rw [hpc]; rfl)
  | write t data cur pc pc' hpc hnext => exact h.flow_writeAt hpc hok hnext
  | writeTrue t data cur pc old hpc hnext => exact h.flow_writeTrue hpc hok hnext
  | writeFalse t data cur pc hpc hnext => exact h.flow_writeFalse hpc hok hnext
  | appendStopped t data cur hpc _ _ => exact h.flow_plain rfl rfl rfl hpc rfl rfl rfl rfl rfl rfl
  | appendRetry t data cur hpc _ _ =>
    exact h.flow_plain rfl rfl rfl hpc rfl rfl rfl (List.append_nil _).symm rfl rfl
  | flushStopped t dtor hpc _ _ | flushDone t dtor hpc _ _ =>
    cases dtor <;> exact h.flow_plain rfl rfl rfl hpc rfl rfl rfl rfl rfl rfl
  | flushEmpty t dtor hpc _ _ =>
    exact h.flow_plain rfl rfl rfl hpc rfl rfl rfl (List.append_nil _).symm rfl rfl
  | take t k b rest' hask hmtx _ _ =>
    refine h.flow_move rfl (fun _ => rfl) rfl rfl rfl hask.writing ?_
      (List.append_nil _).symm rfl rfl
    have hafter := StoreState.queue_of_mtx (t := t)
      (s := { s with free := rest', mtx := some t }.goto t (.exchange k b)) rfl
    rw [hafter, StoreState.goto_self, StoreState.queue_of_free hmtx]
    simp only [StoreState.goto, Pc.replaced, List.append_nil]
  | extend t k buf hask hmtx hstopped hfree hroom hopen =>
    have hbuf := hopens t k buf rfl hask hstopped hfree hroom hopen
    refine ⟨slots, pend, _, h.extend hown hask hmtx hopen hbuf,
      .flow (.quiet [] ?_ ?_ (List.append_nil _).symm rfl rfl rfl)⟩
    · exact apply_update (Pc.of_not_writing hask.writing).2.symm
    · exact StoreState.queue_extend _ _ _ hmtx
  | giveUpAppend _ t data seq hask _ =>
    exact h.flow_plain rfl rfl rfl rfl rfl hask.writing hask.replaced rfl rfl rfl
  | giveUpFlush _ t dtor seq hask _ _ =>
    exact h.flow_plain rfl rfl rfl rfl rfl hask.writing hask.replaced
      (List.append_nil _).symm rfl rfl
  | startWait t k hask _ _ _ =>
    exact h.flow_plain rfl rfl rfl rfl rfl hask.writing hask.replaced
      (List.append_nil _).symm rfl rfl
  | exchange t k next hpc => exact h.flow_exchange hown hpc
  | count t k old hpc =>
    exact h.flow_plain rfl rfl rfl hpc rfl rfl rfl (List.append_nil _).symm rfl rfl
  | enqueueRunning t k old hpc _ =>
    obtain ⟨hwriting, -⟩ := k.writing_swapped
    have hmtx : s.mtx = some t := (hown.mtx_iff t).mpr (by rw [hpc]; rfl)
    exact h.flow_move rfl (fun _ => rfl) rfl hpc hwriting rfl
      (StoreState.queue_swapDone hmtx rfl (by rw [hpc]; rfl)) (List.append_nil _).symm rfl rfl
  | enqueueIdle t k old hpc _ =>
    have hmtx : s.mtx = some t := (hown.mtx_iff t).mpr (by rw [hpc]; rfl)
    refine h.flow_move rfl (fun _ => rfl) rfl hpc rfl rfl ?_ (List.append_nil _).symm rfl rfl
    have hafter := StoreState.queue_of_mtx
      (s := { s with tasks := s.tasks ++ [old], running := true }.goto t (.post k)) hmtx
    rw [hafter, StoreState.goto_self, StoreState.queue_of_mtx hmtx, hpc]
    simp only [StoreState.goto, Pc.replaced, List.append_nil, List.append_assoc]
  | runInline t k hpc _ =>
    have hposts : (s.pc t).posts = true := by rcases hpc with hpc | hpc <;> rw [hpc] <;> rfl
    have hmtx : s.mtx = some t := (hown.mtx_iff t).mpr (Pc.inSection_of_posts hposts)
    have hidle := Exec.eq_idle (hown.posting t hposts).2.1
    obtain ⟨hwriting, hreplaced⟩ := Pc.of_posts hposts
    refine h.flow_move rfl (fun _ => ?_) rfl rfl rfl hwriting ?_ (List.append_nil _).symm rfl rfl
    · rw [hidle]
      rfl
    · have hafter := StoreState.queue_of_mtx (s := s.runInline t k) hmtx
      rw [hafter, StoreState.runInline, StoreState.goto_self, StoreState.queue_of_mtx hmtx, hidle,
        hreplaced]
      rfl
  | postNext t k hpc _ =>
    exact h.flow_plain rfl rfl rfl hpc rfl rfl rfl (List.append_nil _).symm rfl rfl
  | postQueued t k hpc _ =>
    obtain ⟨hwriting, -⟩ := k.writing_swapped
    have hposts : (s.pc t).posts = true := by rw [hpc]; rfl
    have hmtx : s.mtx = some t := (hown.mtx_iff t).mpr (Pc.inSection_of_posts hposts)
    have hidle := Exec.eq_idle (hown.posting t hposts).2.1
    refine h.flow_move rfl (fun _ => ?_) rfl hpc hwriting rfl ?_ (List.append_nil _).symm rfl rfl
    · rw [hidle]
      rfl
    · refine StoreState.queue_swapDone hmtx ?_ ?_
      · rw [hidle]
        rfl
      · rw [hpc]
        exact (List.append_nil _).symm
  | close t hpc _ =>
    exact h.flow_plain rfl rfl rfl hpc rfl rfl rfl (List.append_nil _).symm rfl rfl
  | finish t hpc =>
    exact h.flow_plain rfl rfl rfl hpc rfl rfl rfl (List.append_nil _).symm rfl rfl
  | pickUp hexec =>
    refine h.flow_strand rfl rfl rfl (StoreState.queue_congr rfl rfl rfl ?_) ?_
    · rw [hexec]
      rfl
    · rw [hexec]
      exact SlotsInv.drain_ends rfl rfl
  | drainReturn runner hexec htasks =>
    have hstrand : SlotsFlow tidy s { s with running := false, exec := .idle } pend := by
      refine h.flow_strand rfl rfl rfl (StoreState.queue_congr rfl rfl rfl ?_) ?_
      · rw [hexec]
        rfl
      · rw [hexec]
        exact SlotsInv.drain_ends rfl rfl
    cases runner with
    | none => exact hstrand
    | some t =>
      simp only [StoreState.drainReturn]
      split
      · next k hpc =>
        obtain ⟨hwriting, -⟩ := k.writing_swapped
        have hmtx : s.mtx = some t := (hown.mtx_iff t).mpr (by rw [hpc]; rfl)
        refine h.flow_move rfl (fun _ => ?_) rfl hpc hwriting rfl ?_
          (List.append_nil _).symm rfl rfl
        · rw [hexec]
          rfl
        · refine StoreState.queue_swapDone hmtx ?_ ?_
          · rw [hexec]
            rfl
          · rw [hpc]
            exact (List.append_nil _).symm
      · exact hstrand
  | pop runner b rest' hexec htasks =>
    refine h.flow_strand rfl rfl rfl (StoreState.queue_congr rfl rfl rfl ?_) fun a => ?_
    · rw [hexec, htasks]
      rfl
    · rw [hexec]
      by_cases ha : a = b
      · subst ha
        rw [Exec.drainPc_self]
        exact ⟨rfl, id⟩
      · rw [Exec.drainPc_of_ne _ _ ha]
        exact ⟨rfl, id⟩
  | sealStore runner b hexec =>
    obtain ⟨hcycle, hscan⟩ := h.of_drain hexec
    exact h.flow_drainTo hexec (by rw [hexec]; rfl) rfl hcycle.storeSealed (h.tidy b) hscan
  | sealSpin => exact h.flow_strand rfl rfl rfl rfl fun a => ⟨rfl, id⟩
  | sealDone runner b hexec hwriters =>
    obtain ⟨hcycle, hscan⟩ := h.of_drain hexec
    exact h.flow_drainOn hexec (by rw [hexec]; rfl) rfl
      (hcycle.drained_of_writers_eq_zero hwriters) hscan
  | sync runner b hexec =>
    obtain ⟨hcycle, hscan⟩ := h.of_drain hexec
    exact h.flow_drainOn hexec (by rw [hexec]; rfl) rfl hcycle hscan
  | scanStart runner b hexec =>
    obtain ⟨hcycle, hscan⟩ := h.of_drain hexec
    exact h.flow_drainOn hexec (by rw [hexec]; rfl) rfl hcycle ⟨rfl, [], hscan.symm, rfl⟩
  | scanFrame runner b endPos pos p hexec hframe => exact h.flow_scanFrame hexec hframe
  | scanEnd runner b endPos pos hexec hframe =>
    obtain ⟨hcycle, hscan⟩ := h.of_drain hexec
    have hpend : pend b = [] := by
      by_contra hwaits
      obtain ⟨p, ps, hpend⟩ := List.exists_cons_of_ne_nil hwaits
      cases hframe.symm.trans (h.frameAt_eq hexec hpend)
    exact h.flow_drainOn hexec (by rw [hexec]; rfl) rfl hcycle hpend
  | resetLoad runner b hexec =>
    obtain ⟨hcycle, hscan⟩ := h.of_drain hexec
    exact h.flow_drainOn hexec (by rw [hexec]; rfl) rfl hcycle.loadPrevUsed hscan
  | resetOffset runner b prevUsed hexec =>
    obtain ⟨hcycle, hscan⟩ := h.of_drain hexec
    have hused := hcycle.used_eq
    rw [← hcycle.prevUsed_eq prevUsed rfl] at hused
    exact h.flow_drainTo hexec (by rw [hexec]; rfl) rfl hcycle.storeOffset (h.tidy b)
      ⟨rfl, hscan, hused⟩
  | resetUnseal runner b prevUsed hexec =>
    obtain ⟨hcycle, hscan⟩ := h.of_drain hexec
    exact h.flow_drainTo hexec (by rw [hexec]; rfl) rfl hcycle.storeUnsealed (h.tidy b) hscan
  | resetMemset runner b prevUsed hexec =>
    obtain ⟨hcycle, hslots, hpend, hused⟩ := h.of_drain hexec
    exact h.flow_drainTo hexec (by rw [hexec]; rfl) rfl hcycle.memset
      (htidy.clear (h.tidy b) hused)
      ⟨hslots, hpend⟩
  | pushFree runner b hexec hmtx => exact h.flow_pushFree hexec hmtx
  | notifyFree runner b hexec =>
    refine h.flow_strand rfl rfl rfl (StoreState.queue_congr rfl rfl rfl ?_) ?_
    · rw [hexec]
      rfl
    · rw [hexec]
      exact SlotsInv.drain_ends rfl rfl
  | fetchSubLast runner b hexec _ =>
    refine h.flow_strand rfl rfl rfl (StoreState.queue_congr rfl rfl rfl ?_) ?_
    · rw [hexec]
      rfl
    · rw [hexec]
      exact SlotsInv.drain_ends rfl rfl
  | fetchSub runner b hexec _ =>
    refine h.flow_strand rfl rfl rfl (StoreState.queue_congr rfl rfl rfl ?_) ?_
    · rw [hexec]
      rfl
    · rw [hexec]
      exact SlotsInv.drain_ends rfl rfl
  | notifyFlush runner b hexec _ =>
    refine h.flow_strand rfl rfl rfl (StoreState.queue_congr rfl rfl rfl ?_) ?_
    · rw [hexec]
      rfl
    · rw [hexec]
      exact SlotsInv.drain_ends rfl rfl
  | shutdown => exact h.flow_strand rfl rfl rfl rfl fun a => ⟨rfl, id⟩

omit [DecidableEq T] in
/-- The constructor establishes the invariant: no slots, and nothing waits. -/
theorem SlotsInv.create {env : σ} (htidy : Tidy tidy)
    (hcreate : StoreState.create cfg env = some s)
    (hfiles : ∀ seq < cfg.normalise.minBuffers, ∀ buf,
      cfg.normalise.openBuffer seq = some buf → tidy buf.size buf.data) :
    SlotsInv tidy s (fun _ => []) (fun _ => []) fun b => (s.bufs b).data := by
  rw [StoreState.create] at hcreate
  split at hcreate
  · cases hcreate
    constructor
    · intro b
      simp only
      split
      · cases hopen : cfg.normalise.openBuffer b with
        | none => exact CycleInv.fresh rfl rfl rfl
        | some buf =>
          obtain ⟨hsealed, hwriters, hoffset⟩ := StoreConfig.openBuffer_fresh hopen
          exact CycleInv.fresh hsealed hwriters hoffset
      · exact CycleInv.fresh rfl rfl rfl
    · intro b
      simp only
      split
      · next hb =>
        cases hopen : cfg.normalise.openBuffer b with
        | none => exact htidy.of_zero fun _ _ => rfl
        | some buf => exact hfiles b hb buf hopen
      · exact htidy.of_zero fun _ _ => rfl
    · exact fun _ _ => rfl
    · exact fun _ => rfl
  · cases hcreate

-- ════════════════════════════════════════════════════════════════════════
-- Clean files
-- ════════════════════════════════════════════════════════════════════════

omit [DecidableEq T] in
theorem FramesInv.pend_of_not_mem (h : FramesInv s slots pend rest) {b : ℕ}
    (hb : b ∉ s.queue) : pend b = [] :=
  (framesInv_iff.mp h).pend_of_not_mem hb

/-- Over clean files every step whose reservation is live is a `Flow`. -/
theorem FramesInv.step {e : StoreEvent T} (hown : OwnInv cfg s) (h : FramesInv s slots pend rest)
    (hm : StoreMove cfg onPersist s e s') (hok : ReservesLive s e)
    (hopens : OpensTidy Clean cfg s e) : FlowsTo s s' pend := by
  obtain ⟨slots', pend', rest', hframes, hany⟩ :=
    (framesInv_iff.mp h).step Clean.tidy hown hm hok hopens
  cases hany with
  | flow hflow => exact ⟨slots', pend', rest', framesInv_iff.mpr hframes, hflow⟩
  | leftover runner b endPos pos p threw hexec hframe hempty =>
    cases hframe.symm.trans (h.frameAt_eq_none hexec hempty)

omit [DecidableEq T] in
theorem FramesInv.create {env : σ} (hcreate : StoreState.create cfg env = some s)
    (hfiles : ∀ seq < cfg.normalise.minBuffers, ∀ buf,
      cfg.normalise.openBuffer seq = some buf → Clean buf.size buf.data) :
    FramesInv s (fun _ => []) (fun _ => []) fun b => (s.bufs b).data :=
  framesInv_iff.mpr (SlotsInv.create Clean.tidy hcreate hfiles)

end LoggerHigh
