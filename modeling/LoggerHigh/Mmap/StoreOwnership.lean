import LoggerHigh.Mmap.StoreMoves

/-!
# Who has which buffer

Every buffer of the pool is in one place: it is the master, it is free, it is
posted, it is being drained, or a thread that swaps holds it. This file has the
invariant that says so, together with what `mtx_`, `running_` and `in_flight_`
stand for. No assumption on schedules, payloads or failures is needed for it.

## Main definitions

- `OwnInv` — the invariant
- `occurrences` — in how many places a buffer is

## Main results

- `OwnInv.step` — every step keeps the invariant
- `StoreState.create_ownInv` — the constructor establishes it
-/

namespace LoggerHigh

open ThreadSum

variable {T σ : Type*}

/-- The thread holds `mtx_`. -/
def Pc.inSection : Pc → Bool
  | .exchange _ _ | .count _ _ | .enqueue _ _ | .post _ | .postLocked _ | .inlineDrain _ => true
  | _ => false

/-- The buffer a swapping thread has taken from one place and not yet put in another. -/
def Pc.carried : Pc → List ℕ
  | .exchange _ next => [next]
  | .count _ old | .enqueue _ old => [old]
  | _ => []

/-- The thread has counted a drain in `in_flight_` that is not on the strand yet. -/
def Pc.counted : Pc → ℕ
  | .enqueue _ _ => 1
  | _ => 0

/-- The thread is inside `ThreadPool::Enqueue_`. -/
def Pc.posts : Pc → Bool
  | .post _ | .postLocked _ => true
  | _ => false

/-- The thread runs `Drain_` itself. -/
def Pc.inlines : Pc → Bool
  | .inlineDrain _ => true
  | _ => false

/-- The thread is inside `Write`. -/
def Pc.writing : Pc → Bool
  | .appendWrite _ _ _ => true
  | _ => false

/-- A thread as a writer of buffer `b`. -/
def Pc.writerOn (b : ℕ) : Pc → Writer
  | .appendWrite data cur pc => if cur = b then some (data, pc) else none
  | _ => none

/-- The buffer `DrainOne_` has not given back yet. -/
def Exec.held : Exec T → List ℕ
  | .drain _ _ .notifyFree | .drain _ _ .fetchSub | .drain _ _ .notifyFlush => []
  | .drain _ b _ => [b]
  | _ => []

/-- `DrainOne_` has yet to decrement `in_flight_`. -/
def Exec.unsubtracted : Exec T → ℕ
  | .drain _ _ .notifyFlush => 0
  | .drain _ _ _ => 1
  | _ => 0

/-- The thread `Drain_` runs in, when that is not a worker. -/
def Exec.runner : Exec T → Option T
  | .loop runner | .drain runner _ _ => runner
  | _ => none

/-- No `Drain_` is posted or running. -/
def Exec.isIdle : Exec T → Bool
  | .idle => true
  | _ => false

/-- In how many places buffer `b` is. -/
def occurrences [Fintype T] (s : StoreState T σ) (b : ℕ) : ℕ :=
  [s.master].count b + s.free.count b + s.tasks.count b + s.exec.held.count b +
    total (fun pc => pc.carried.count b) s.pc

/-- Places of the buffers and meaning of the control variables. -/
structure OwnInv [Fintype T] (cfg : StoreConfig) (s : StoreState T σ) : Prop where
  mtx_iff : ∀ t, s.mtx = some t ↔ (s.pc t).inSection = true
  place : ∀ b, occurrences s b = (List.range s.poolSize).count b
  inFlight_eq : s.inFlight = s.tasks.length + s.exec.unsubtracted + total Pc.counted s.pc
  le_pool : cfg.minBuffers ≤ s.poolSize
  pool_le : s.poolSize ≤ cfg.maxBuffers
  stopped_strand : s.running = false → s.tasks = [] ∧ s.exec.isIdle = true
  posting : ∀ t, (s.pc t).posts = true → s.running = true ∧ s.exec.isIdle = true ∧ s.tasks ≠ []
  posted : s.exec.isIdle = true → s.running = true → ∃ t, (s.pc t).posts = true
  inlines_iff : ∀ t, (s.pc t).inlines = true ↔ s.exec.runner = some t
  pointer_lt : ∀ t data cur pc, s.pc t = .appendWrite data cur pc → cur < s.poolSize

/-- What `OwnInv` reads besides the threads. -/
def StoreState.owners (s : StoreState T σ) :=
  (s.mtx, s.master, s.free, s.tasks, s.running, s.exec, s.inFlight, s.poolSize)

theorem Pc.inSection_of_posts {pc : Pc} (h : pc.posts = true) : pc.inSection = true := by
  cases pc <;> first | rfl | cases h

theorem Pc.inSection_of_inlines {pc : Pc} (h : pc.inlines = true) : pc.inSection = true := by
  cases pc <;> first | rfl | cases h

/-- A thread outside the sections carries and counts nothing. -/
theorem Pc.plain {pc : Pc} (h : pc.inSection = false) :
    pc.carried = [] ∧ pc.counted = 0 ∧ pc.posts = false ∧ pc.inlines = false := by
  cases pc <;> first | exact ⟨rfl, rfl, rfl, rfl⟩ | cases h

variable [DecidableEq T] [Fintype T] {cfg : StoreConfig} {onPersist : σ → Bytes → σ × Bool}
  {s s' : StoreState T σ}

omit [DecidableEq T] in
/-- Only one thread is in a section at a time. -/
theorem OwnInv.eq_of_inSection (h : OwnInv cfg s) {t u : T} (ht : (s.pc t).inSection = true)
    (hu : (s.pc u).inSection = true) : t = u := by
  have htu := ((h.mtx_iff t).mpr ht).symm.trans ((h.mtx_iff u).mpr hu)
  exact Option.some.inj htu

omit [DecidableEq T] in
/-- A buffer that is somewhere is in the pool, and nowhere else. -/
theorem OwnInv.occurrences_le (h : OwnInv cfg s) (b : ℕ) : occurrences s b ≤ 1 := by
  rw [h.place]
  exact List.nodup_iff_count_le_one.mp List.nodup_range b

omit [DecidableEq T] in
theorem OwnInv.lt_of_occurs (h : OwnInv cfg s) {b : ℕ} (hb : 0 < occurrences s b) :
    b < s.poolSize := by
  rw [h.place] at hb
  exact List.mem_range.mp (List.count_pos_iff.mp hb)

omit [DecidableEq T] in
theorem OwnInv.master_lt (h : OwnInv cfg s) : s.master < s.poolSize := by
  refine h.lt_of_occurs ?_
  rw [occurrences, List.count_singleton_self]
  omega

/-- Moves of a thread outside the sections. -/
theorem OwnInv.plainMove (h : OwnInv cfg s) (howners : s'.owners = s.owners) {t : T} {x : Pc}
    (hpc : s'.pc = Function.update s.pc t x) (hold : (s.pc t).inSection = false)
    (hnew : x.inSection = false)
    (hcur : ∀ data cur pc, x = .appendWrite data cur pc → cur < s.poolSize) : OwnInv cfg s' := by
  simp only [StoreState.owners, Prod.mk.injEq] at howners
  obtain ⟨hmtx, hmaster, hfree, htasks, hrunning, hexec, hinFlight, hpool⟩ := howners
  obtain ⟨hcarried, hcounted, hposts, hinlines⟩ := Pc.plain hold
  obtain ⟨hcarried', hcounted', hposts', hinlines'⟩ := Pc.plain hnew
  have hsection : ∀ u, (s'.pc u).inSection = (s.pc u).inSection := by
    rw [hpc]
    exact apply_update (hnew.trans hold.symm)
  have hpost : ∀ u, (s'.pc u).posts = (s.pc u).posts := by
    rw [hpc]
    exact apply_update (hposts'.trans hposts.symm)
  have hinline : ∀ u, (s'.pc u).inlines = (s.pc u).inlines := by
    rw [hpc]
    exact apply_update (hinlines'.trans hinlines.symm)
  constructor
  · intro u
    rw [hmtx, hsection]
    exact h.mtx_iff u
  · intro b
    have htotal : total (fun pc : Pc => pc.carried.count b) (Function.update s.pc t x) =
        total (fun pc : Pc => pc.carried.count b) s.pc :=
      total_update_of_eq (by rw [hcarried, hcarried'])
    rw [occurrences, hmaster, hfree, htasks, hexec, hpool, hpc, htotal]
    exact h.place b
  · have htotal : total Pc.counted (Function.update s.pc t x) = total Pc.counted s.pc :=
      total_update_of_eq (by rw [hcounted, hcounted'])
    rw [hinFlight, htasks, hexec, hpc, htotal]
    exact h.inFlight_eq
  · rw [hpool]
    exact h.le_pool
  · rw [hpool]
    exact h.pool_le
  · rw [hrunning, htasks, hexec]
    exact h.stopped_strand
  · intro u hu
    rw [hrunning, hexec, htasks]
    rw [hpost] at hu
    exact h.posting u hu
  · intro hidle hrun
    rw [hexec] at hidle
    rw [hrunning] at hrun
    obtain ⟨u, hu⟩ := h.posted hidle hrun
    exact ⟨u, by rw [hpost, hu]⟩
  · intro u
    rw [hinline, hexec]
    exact h.inlines_iff u
  · intro u data cur pc hu
    rw [hpool]
    rw [hpc] at hu
    rcases update_cases hu with ⟨-, hx⟩ | ⟨-, hw⟩
    · exact hcur data cur pc hx
    · exact h.pointer_lt u data cur pc hw

omit [DecidableEq T] in
/-- Moves of `DrainOne_` that neither give the buffer back nor count. -/
theorem OwnInv.drainMove (h : OwnInv cfg s) {exec : Exec T} (hheld : exec.held = s.exec.held)
    (hsub : exec.unsubtracted = s.exec.unsubtracted) (hrunner : exec.runner = s.exec.runner)
    (hidle : exec.isIdle = s.exec.isIdle)
    (howners : s'.owners = { s with exec := exec }.owners) (hpc : s'.pc = s.pc) :
    OwnInv cfg s' := by
  simp only [StoreState.owners, Prod.mk.injEq] at howners
  obtain ⟨hmtx, hmaster, hfree, htasks, hrunning, hexec, hinFlight, hpool⟩ := howners
  constructor
  · rw [hmtx, hpc]
    exact h.mtx_iff
  · intro b
    rw [occurrences, hmaster, hfree, htasks, hexec, hpool, hpc, hheld]
    exact h.place b
  · rw [hinFlight, htasks, hexec, hpc, hsub]
    exact h.inFlight_eq
  · rw [hpool]
    exact h.le_pool
  · rw [hpool]
    exact h.pool_le
  · rw [hrunning, htasks, hexec, hidle]
    exact h.stopped_strand
  · rw [hpc, hrunning, hexec, hidle, htasks]
    exact h.posting
  · rw [hpc, hrunning, hexec, hidle]
    exact h.posted
  · rw [hpc, hexec, hrunner]
    exact h.inlines_iff
  · rw [hpc, hpool]
    exact h.pointer_lt

omit [DecidableEq T] in
/-- While `mtx_` is free nobody is in a section. -/
theorem OwnInv.plain_of_mtx (h : OwnInv cfg s) (hmtx : s.mtx = none) (u : T) :
    (s.pc u).inSection = false := by
  by_contra hu
  have hu' := (h.mtx_iff u).mpr (by simpa using hu)
  rw [hmtx] at hu'
  cases hu'

omit [DecidableEq T] in
/-- Besides the thread that is in a section nobody is. -/
theorem OwnInv.plain_of_ne (h : OwnInv cfg s) {t : T} (ht : (s.pc t).inSection = true) {u : T}
    (hu : u ≠ t) : (s.pc u).inSection = false := by
  by_contra hsec
  exact hu (h.eq_of_inSection (by simpa using hsec) ht)

/-- Moves into, within and out of a section. What thread, lists and counters
lose on the one side they gain on the other. -/
theorem OwnInv.sectionMove (h : OwnInv cfg s) {t : T} {x : Pc}
    (hpc : s'.pc = Function.update s.pc t x) (hothers : ∀ u, u ≠ t → (s.pc u).inSection = false)
    (hmtx : s'.mtx = if x.inSection then some t else none)
    (hplace : ∀ b, [s'.master].count b + s'.free.count b + s'.tasks.count b +
      s'.exec.held.count b + x.carried.count b + (List.range s.poolSize).count b =
        [s.master].count b + s.free.count b + s.tasks.count b + s.exec.held.count b +
          (s.pc t).carried.count b + (List.range s'.poolSize).count b)
    (hcount : s'.inFlight + (s.pc t).counted + (s.tasks.length + s.exec.unsubtracted) =
      s.inFlight + x.counted + (s'.tasks.length + s'.exec.unsubtracted))
    (hgrow : s.poolSize ≤ s'.poolSize) (hpool : s'.poolSize ≤ cfg.maxBuffers)
    (hstrand : s'.running = false → s'.tasks = [] ∧ s'.exec.isIdle = true)
    (hposting : x.posts = true → s'.running = true ∧ s'.exec.isIdle = true ∧ s'.tasks ≠ [])
    (hposted : s'.exec.isIdle = true → s'.running = true → x.posts = true)
    (hinlines : s'.exec.runner = if x.inlines then some t else none)
    (hcur : ∀ data cur pc, x ≠ .appendWrite data cur pc) : OwnInv cfg s' := by
  have hself : s'.pc t = x := by rw [hpc, Function.update_self]
  have hother : ∀ u, u ≠ t → s'.pc u = s.pc u := by
    intro u hu
    rw [hpc, Function.update_of_ne hu]
  constructor
  · intro u
    by_cases hu : u = t
    · rw [hu, hself, hmtx]
      cases x.inSection <;> simp
    · rw [hother u hu, hothers u hu, hmtx]
      cases x.inSection <;> simp [Ne.symm hu]
  · intro b
    have htotal := total_update (fun pc : Pc => pc.carried.count b) s.pc t x
    have hold := h.place b
    have hnew := hplace b
    rw [← hpc] at htotal
    rw [occurrences] at hold ⊢
    omega
  · have htotal := total_update Pc.counted s.pc t x
    have hold := h.inFlight_eq
    rw [← hpc] at htotal
    omega
  · exact Nat.le_trans h.le_pool hgrow
  · exact hpool
  · exact hstrand
  · intro u hu
    by_cases hut : u = t
    · rw [hut, hself] at hu
      exact hposting hu
    · rw [hother u hut, (Pc.plain (hothers u hut)).2.2.1] at hu
      cases hu
  · exact fun hidle hrun => ⟨t, by rw [hself]; exact hposted hidle hrun⟩
  · intro u
    by_cases hut : u = t
    · rw [hut, hself, hinlines]
      cases x.inlines <;> simp
    · rw [hother u hut, (Pc.plain (hothers u hut)).2.2.2, hinlines]
      cases x.inlines <;> simp [Ne.symm hut]
  · intro u data cur pc hu
    by_cases hut : u = t
    · rw [hut, hself] at hu
      exact absurd hu (hcur data cur pc)
    · rw [hother u hut] at hu
      exact Nat.lt_of_lt_of_le (h.pointer_lt u data cur pc hu) hgrow

omit [DecidableEq T] [Fintype T] in
theorem Asking.plain {t : T} {k : Caller} (h : Asking s t k) : (s.pc t).inSection = false := by
  cases h with
  | append data hpc => rw [hpc]; rfl
  | flush dtor hpc _ => rw [hpc]; rfl
  | wait k hpc => rw [hpc]; rfl

omit [DecidableEq T] [Fintype T] in
theorem Asking.writing {t : T} {k : Caller} (h : Asking s t k) : (s.pc t).writing = false := by
  cases h with
  | append data hpc | flush dtor hpc _ | wait k hpc => rw [hpc]; rfl

omit [DecidableEq T] [Fintype T] in
theorem Caller.swapped_plain (k : Caller) :
    k.swapped.inSection = false ∧ ∀ data cur pc, k.swapped ≠ .appendWrite data cur pc := by
  cases k with
  | append data => exact ⟨rfl, by rintro _ _ _ ⟨⟩⟩
  | flush dtor => exact ⟨rfl, by rintro _ _ _ ⟨⟩⟩

omit [DecidableEq T] [Fintype T] in
/-- An idle strand runs nowhere and holds nothing. -/
theorem Exec.runner_of_isIdle {exec : Exec T} (h : exec.isIdle = true) :
    exec.runner = none ∧ exec.held = [] ∧ exec.unsubtracted = 0 := by
  cases exec <;> first | exact ⟨rfl, rfl, rfl⟩ | cases h

omit [DecidableEq T] in
/-- While nobody is in a section, `Drain_` runs on a worker, and an idle strand
is a stopped one. -/
theorem OwnInv.strand_of_mtx (h : OwnInv cfg s) (hmtx : s.mtx = none) :
    s.exec.runner = none ∧ (s.exec.isIdle = true → s.running = false) := by
  have hplain := h.plain_of_mtx hmtx
  constructor
  · cases hrunner : s.exec.runner with
    | none => rfl
    | some u =>
      have hu := (h.inlines_iff u).mpr hrunner
      rw [(Pc.plain (hplain u)).2.2.2] at hu
      cases hu
  · intro hidle
    by_contra hrunning
    obtain ⟨u, hu⟩ := h.posted hidle (by simpa using hrunning)
    rw [(Pc.plain (hplain u)).2.2.1] at hu
    cases hu

omit [DecidableEq T] in
/-- The same while the only thread in a section neither posts nor drains. -/
theorem OwnInv.strand_of_section (h : OwnInv cfg s) {t : T} (ht : (s.pc t).inSection = true)
    (hposts : (s.pc t).posts = false) (hinlines : (s.pc t).inlines = false) :
    s.exec.runner = none ∧ (s.exec.isIdle = true → s.running = false) := by
  constructor
  · cases hrunner : s.exec.runner with
    | none => rfl
    | some u =>
      have hu := (h.inlines_iff u).mpr hrunner
      obtain rfl := h.eq_of_inSection ht (Pc.inSection_of_inlines hu)
      rw [hinlines] at hu
      cases hu
  · intro hidle
    by_contra hrunning
    obtain ⟨u, hu⟩ := h.posted hidle (by simpa using hrunning)
    obtain rfl := h.eq_of_inSection ht (Pc.inSection_of_posts hu)
    rw [hposts] at hu
    cases hu

-- ════════════════════════════════════════════════════════════════════════
-- Steps
-- ════════════════════════════════════════════════════════════════════════

/-- A thread takes a free buffer. -/
theorem OwnInv.take (h : OwnInv cfg s) {t : T} {k : Caller} {b : ℕ} {rest : List ℕ}
    (hask : Asking s t k) (hmtx : s.mtx = none) (hfree : s.free = b :: rest) :
    OwnInv cfg ({ s with free := rest, mtx := some t }.goto t (.exchange k b)) := by
  obtain ⟨hcarried, hcounted, -, -⟩ := Pc.plain hask.plain
  obtain ⟨hrunner, hidle⟩ := h.strand_of_mtx hmtx
  refine h.sectionMove rfl (fun u _ => h.plain_of_mtx hmtx u) rfl (fun a => ?_) ?_ (Nat.le_refl _)
    h.pool_le h.stopped_strand (by rintro ⟨⟩) (fun hi hr => ?_) hrunner (by rintro _ _ _ ⟨⟩)
  · rw [hcarried, hfree]
    simp only [StoreState.goto, Pc.carried, List.count_cons, List.count_nil]
    omega
  · rw [hcounted]
    rfl
  · cases hr.symm.trans (hidle hi)

/-- A thread adds a buffer to the pool. -/
theorem OwnInv.extend (h : OwnInv cfg s) {t : T} {k : Caller} {buf : MmapBuffer}
    (hask : Asking s t k) (hmtx : s.mtx = none) (hroom : s.poolSize < cfg.maxBuffers) :
    OwnInv cfg ({ s with
      bufs := Function.update s.bufs s.poolSize buf
      poolSize := s.poolSize + 1
      nextSeq := s.nextSeq + 1
      mtx := some t }.goto t (.exchange k s.poolSize)) := by
  obtain ⟨hcarried, hcounted, -, -⟩ := Pc.plain hask.plain
  obtain ⟨hrunner, hidle⟩ := h.strand_of_mtx hmtx
  refine h.sectionMove rfl (fun u _ => h.plain_of_mtx hmtx u) rfl (fun a => ?_) ?_
    (Nat.le_succ _) hroom h.stopped_strand (by rintro ⟨⟩) (fun hi hr => ?_) hrunner
    (by rintro _ _ _ ⟨⟩)
  · rw [hcarried]
    simp only [StoreState.goto, Pc.carried, List.range_succ, List.count_append, List.count_nil]
    omega
  · rw [hcounted]
    rfl
  · cases hr.symm.trans (hidle hi)

/-- A thread exchanges the master. -/
theorem OwnInv.exchange (h : OwnInv cfg s) {t : T} {k : Caller} {next : ℕ}
    (hpc : s.pc t = .exchange k next) :
    OwnInv cfg ({ s with master := next }.goto t (.count k s.master)) := by
  have ht : (s.pc t).inSection = true := by rw [hpc]; rfl
  obtain ⟨hrunner, hidle⟩ := h.strand_of_section ht (by rw [hpc]; rfl) (by rw [hpc]; rfl)
  refine h.sectionMove rfl (fun u hu => h.plain_of_ne ht hu) ((h.mtx_iff t).mpr ht) (fun a => ?_)
    ?_ (Nat.le_refl _) h.pool_le h.stopped_strand (by rintro ⟨⟩) (fun hi hr => ?_) hrunner
    (by rintro _ _ _ ⟨⟩)
  · rw [hpc]
    simp only [StoreState.goto, Pc.carried]
    omega
  · rw [hpc]
    rfl
  · cases hr.symm.trans (hidle hi)

/-- A thread counts the drain it is going to post. -/
theorem OwnInv.count (h : OwnInv cfg s) {t : T} {k : Caller} {old : ℕ}
    (hpc : s.pc t = .count k old) :
    OwnInv cfg ({ s with inFlight := s.inFlight + 1 }.goto t (.enqueue k old)) := by
  have ht : (s.pc t).inSection = true := by rw [hpc]; rfl
  obtain ⟨hrunner, hidle⟩ := h.strand_of_section ht (by rw [hpc]; rfl) (by rw [hpc]; rfl)
  refine h.sectionMove rfl (fun u hu => h.plain_of_ne ht hu) ((h.mtx_iff t).mpr ht) (fun a => ?_)
    ?_ (Nat.le_refl _) h.pool_le h.stopped_strand (by rintro ⟨⟩) (fun hi hr => ?_) hrunner
    (by rintro _ _ _ ⟨⟩)
  · rw [hpc]
    rfl
  · rw [hpc]
    simp only [StoreState.goto, Pc.counted]
  · cases hr.symm.trans (hidle hi)

/-- A thread pushes the drain on a strand whose `Drain_` is active. -/
theorem OwnInv.enqueueRunning (h : OwnInv cfg s) {t : T} {k : Caller} {old : ℕ}
    (hpc : s.pc t = .enqueue k old) (hrunning : s.running = true) :
    OwnInv cfg ({ s with tasks := s.tasks ++ [old] }.swapDone t k) := by
  have ht : (s.pc t).inSection = true := by rw [hpc]; rfl
  obtain ⟨hrunner, hidle⟩ := h.strand_of_section ht (by rw [hpc]; rfl) (by rw [hpc]; rfl)
  obtain ⟨hplain, hcur⟩ := k.swapped_plain
  obtain ⟨hcarried, hcounted, hposts, hinlines⟩ := Pc.plain hplain
  refine h.sectionMove (x := k.swapped) rfl (fun u hu => h.plain_of_ne ht hu) ?_ (fun a => ?_)
    ?_ (Nat.le_refl _) h.pool_le (fun hr => ?_) ?_ (fun hi _ => ?_) ?_ hcur
  · rw [hplain]
    rfl
  · rw [hpc, hcarried]
    simp only [StoreState.swapDone, StoreState.goto, Pc.carried, List.count_append, List.count_nil]
    omega
  · rw [hpc, hcounted]
    simp only [StoreState.swapDone, StoreState.goto, Pc.counted, List.length_append,
      List.length_singleton]
    omega
  · cases hr.symm.trans hrunning
  · rw [hposts]
    rintro ⟨⟩
  · cases hrunning.symm.trans (hidle hi)
  · rw [hinlines]
    exact hrunner

/-- A thread pushes the drain on a stopped strand, and will post `Drain_`. -/
theorem OwnInv.enqueueIdle (h : OwnInv cfg s) {t : T} {k : Caller} {old : ℕ}
    (hpc : s.pc t = .enqueue k old) (hrunning : s.running = false) :
    OwnInv cfg ({ s with tasks := s.tasks ++ [old], running := true }.goto t (.post k)) := by
  have ht : (s.pc t).inSection = true := by rw [hpc]; rfl
  obtain ⟨hrunner, -⟩ := h.strand_of_section ht (by rw [hpc]; rfl) (by rw [hpc]; rfl)
  refine h.sectionMove rfl (fun u hu => h.plain_of_ne ht hu) ((h.mtx_iff t).mpr ht) (fun a => ?_)
    ?_ (Nat.le_refl _) h.pool_le (by rintro ⟨⟩) (fun _ => ⟨rfl, (h.stopped_strand hrunning).2,
      List.append_ne_nil_of_right_ne_nil _ (List.cons_ne_nil _ _)⟩)
    (fun _ _ => rfl) hrunner (by rintro _ _ _ ⟨⟩)
  · rw [hpc]
    simp only [StoreState.goto, Pc.carried, List.count_append, List.count_nil]
    omega
  · rw [hpc]
    simp only [StoreState.goto, Pc.counted, List.length_append, List.length_singleton]
    omega

omit [DecidableEq T] in
/-- What a thread that posts `Drain_` finds. -/
theorem OwnInv.of_posts (h : OwnInv cfg s) {t : T} (hposts : (s.pc t).posts = true) :
    (s.pc t).inSection = true ∧ s.running = true ∧ s.exec.isIdle = true ∧
      s.exec.runner = none ∧ s.exec.held = [] ∧ s.exec.unsubtracted = 0 ∧
        (s.pc t).carried = [] ∧ (s.pc t).counted = 0 := by
  obtain ⟨hrunning, hidle, -⟩ := h.posting t hposts
  obtain ⟨hrunner, hheld, hsub⟩ := Exec.runner_of_isIdle hidle
  refine ⟨Pc.inSection_of_posts hposts, hrunning, hidle, hrunner, hheld, hsub, ?_⟩
  cases hpc : s.pc t <;> rw [hpc] at hposts <;> first | exact ⟨rfl, rfl⟩ | cases hposts

/-- A thread finds the pool stopped and runs `Drain_` itself. -/
theorem OwnInv.runInline (h : OwnInv cfg s) {t : T} {k : Caller}
    (hposts : (s.pc t).posts = true) : OwnInv cfg (s.runInline t k) := by
  obtain ⟨ht, hrunning, hidle, -, hheld, hsub, hcarried, hcounted⟩ := h.of_posts hposts
  refine h.sectionMove (x := .inlineDrain k) rfl (fun u hu => h.plain_of_ne ht hu)
    ((h.mtx_iff t).mpr ht) (fun a => ?_) ?_ (Nat.le_refl _) h.pool_le (fun hr => ?_)
    (by rintro ⟨⟩) (by rintro ⟨⟩) rfl (by rintro _ _ _ ⟨⟩)
  · rw [hcarried, hheld]
    rfl
  · rw [hcounted, hsub]
    rfl
  · cases hr.symm.trans hrunning

/-- A thread goes on to the second look at the pool's `stopped_`. -/
theorem OwnInv.postNext (h : OwnInv cfg s) {t : T} {k : Caller} (hposts : (s.pc t).posts = true) :
    OwnInv cfg (s.goto t (.postLocked k)) := by
  obtain ⟨ht, hrunning, hidle, hrunner, hheld, hsub, hcarried, hcounted⟩ := h.of_posts hposts
  refine h.sectionMove rfl (fun u hu => h.plain_of_ne ht hu) ((h.mtx_iff t).mpr ht) (fun a => ?_)
    ?_ (Nat.le_refl _) h.pool_le h.stopped_strand (fun _ => h.posting t hposts) (fun _ _ => rfl)
    hrunner (by rintro _ _ _ ⟨⟩)
  · rw [hcarried]
    rfl
  · rw [hcounted]
    rfl

/-- A thread leaves `Drain_` to the pool. -/
theorem OwnInv.postQueued (h : OwnInv cfg s) {t : T} {k : Caller}
    (hposts : (s.pc t).posts = true) : OwnInv cfg ({ s with exec := .queued }.swapDone t k) := by
  obtain ⟨ht, hrunning, hidle, -, hheld, hsub, hcarried, hcounted⟩ := h.of_posts hposts
  obtain ⟨hplain, hcur⟩ := k.swapped_plain
  obtain ⟨hcarried', hcounted', hposts', hinlines'⟩ := Pc.plain hplain
  refine h.sectionMove (x := k.swapped) rfl (fun u hu => h.plain_of_ne ht hu) ?_ (fun a => ?_)
    ?_ (Nat.le_refl _) h.pool_le (fun hr => ?_) ?_ (by rintro ⟨⟩) ?_ hcur
  · rw [hplain]
    rfl
  · rw [hcarried, hcarried', hheld]
    rfl
  · rw [hcounted, hcounted', hsub]
    rfl
  · cases hr.symm.trans hrunning
  · rw [hposts']
    rintro ⟨⟩
  · rw [hinlines']
    rfl

/-- `Drain_` finds the strand empty and returns. -/
theorem OwnInv.drainReturn (h : OwnInv cfg s) {runner : Option T} (hexec : s.exec = .loop runner)
    (htasks : s.tasks = []) : OwnInv cfg (s.drainReturn runner) := by
  have hbusy : s.exec.isIdle = false := by rw [hexec]; rfl
  have hnobody : ∀ u, (s.pc u).posts = false := by
    intro u
    by_contra hu
    have := (h.posting u (by simpa using hu)).2.1
    rw [hbusy] at this
    cases this
  cases runner with
  | none =>
    simp only [StoreState.drainReturn]
    constructor
    · exact h.mtx_iff
    · intro b
      have := h.place b
      rw [occurrences, hexec] at this
      exact this
    · have := h.inFlight_eq
      rw [hexec] at this
      exact this
    · exact h.le_pool
    · exact h.pool_le
    · exact fun _ => ⟨htasks, rfl⟩
    · intro u hu
      rw [hnobody u] at hu
      cases hu
    · rintro - ⟨⟩
    · intro u
      rw [h.inlines_iff, hexec]
      simp [Exec.runner]
    · exact h.pointer_lt
  | some t =>
    have hinl : (s.pc t).inlines = true := (h.inlines_iff t).mpr (by rw [hexec]; rfl)
    have ht := Pc.inSection_of_inlines hinl
    cases hpc : s.pc t <;> rw [hpc] at hinl <;> try cases hinl
    next k =>
    simp only [StoreState.drainReturn, hpc]
    obtain ⟨hplain, hcur⟩ := k.swapped_plain
    obtain ⟨hcarried', hcounted', hposts', hinlines'⟩ := Pc.plain hplain
    refine h.sectionMove (x := k.swapped) rfl (fun u hu => h.plain_of_ne ht hu) ?_ (fun a => ?_)
      ?_ (Nat.le_refl _) h.pool_le (fun _ => ⟨htasks, rfl⟩) ?_ (by rintro - ⟨⟩) ?_ hcur
    · rw [hplain]
      rfl
    · rw [hpc, hcarried', hexec]
      rfl
    · rw [hpc, hcounted', hexec]
      rfl
    · rw [hposts']
      rintro ⟨⟩
    · rw [hinlines']
      rfl

omit [DecidableEq T] in
/-- Steps of `Drain_` between lists and counters, the threads staying put. -/
theorem OwnInv.execMove (h : OwnInv cfg s) (hpc : s'.pc = s.pc) (hmtx : s'.mtx = s.mtx)
    (hrunning : s'.running = s.running) (hpool : s'.poolSize = s.poolSize)
    (hbusy : s.exec.isIdle = false) (hbusy' : s'.exec.isIdle = false)
    (hrunner : s'.exec.runner = s.exec.runner)
    (hplace : ∀ b, [s'.master].count b + s'.free.count b + s'.tasks.count b +
      s'.exec.held.count b = [s.master].count b + s.free.count b + s.tasks.count b +
        s.exec.held.count b)
    (hcount : s'.inFlight + (s.tasks.length + s.exec.unsubtracted) =
      s.inFlight + (s'.tasks.length + s'.exec.unsubtracted)) : OwnInv cfg s' := by
  have hactive : s.running = true := by
    by_contra hstop
    have := (h.stopped_strand (by simpa using hstop)).2
    rw [hbusy] at this
    cases this
  constructor
  · rw [hmtx, hpc]
    exact h.mtx_iff
  · intro b
    have hold := h.place b
    have hnew := hplace b
    rw [occurrences] at hold ⊢
    rw [hpc, hpool]
    omega
  · have hold := h.inFlight_eq
    rw [hpc]
    omega
  · rw [hpool]
    exact h.le_pool
  · rw [hpool]
    exact h.pool_le
  · intro hstop
    cases (hrunning.symm.trans hstop).symm.trans hactive
  · intro u hu
    rw [hpc] at hu
    have := (h.posting u hu).2.1
    rw [hbusy] at this
    cases this
  · intro hidle
    cases hidle.symm.trans hbusy'
  · rw [hpc, hrunner]
    exact h.inlines_iff
  · rw [hpc, hpool]
    exact h.pointer_lt

omit [DecidableEq T] in
/-- A drain that has not subtracted itself is counted. -/
theorem OwnInv.one_le_inFlight (h : OwnInv cfg s) (hsub : s.exec.unsubtracted = 1) :
    1 ≤ s.inFlight := by
  have := h.inFlight_eq
  omega

/-- Every step keeps the invariant. -/
theorem OwnInv.step {e : StoreEvent T} (h : OwnInv cfg s) (hm : StoreMove cfg onPersist s e s') :
    OwnInv cfg s' := by
  cases hm with
  | appendNull t data _ hpc =>
    refine h.plainMove (t := t) (x := .idle) rfl ?_ (by rw [hpc]; rfl) rfl (by rintro _ _ _ ⟨⟩)
    rw [← hpc, Function.update_eq_self]
    rfl
  | appendCall t data d _ hpc =>
    exact h.plainMove rfl rfl (by rw [hpc]; rfl) rfl (by rintro _ _ _ ⟨⟩)
  | flushCall t _ hpc => exact h.plainMove rfl rfl (by rw [hpc]; rfl) rfl (by rintro _ _ _ ⟨⟩)
  | destroyCall t _ hidle =>
    exact h.plainMove rfl rfl (by rw [hidle t]; rfl) rfl (by rintro _ _ _ ⟨⟩)
  | load t data hpc =>
    refine h.plainMove rfl rfl (by rw [hpc]; rfl) rfl ?_
    rintro _ _ _ ⟨⟩
    exact h.master_lt
  | write t data cur pc pc' hpc _ =>
    refine h.plainMove rfl rfl (by rw [hpc]; rfl) rfl ?_
    rintro _ _ _ ⟨⟩
    exact h.pointer_lt t data cur pc hpc
  | writeTrue t data cur pc old hpc _ =>
    exact h.plainMove rfl rfl (by rw [hpc]; rfl) rfl (by rintro _ _ _ ⟨⟩)
  | writeFalse t data cur pc hpc _ =>
    exact h.plainMove rfl rfl (by rw [hpc]; rfl) rfl (by rintro _ _ _ ⟨⟩)
  | appendStopped t data cur hpc _ _ =>
    exact h.plainMove rfl rfl (by rw [hpc]; rfl) rfl (by rintro _ _ _ ⟨⟩)
  | appendRetry t data cur hpc _ _ =>
    exact h.plainMove rfl rfl (by rw [hpc]; rfl) rfl (by rintro _ _ _ ⟨⟩)
  | flushStopped t dtor hpc _ _ =>
    refine h.plainMove (x := if dtor then .dtorClose else .idle) rfl rfl (by rw [hpc]; rfl) ?_ ?_
    · cases dtor <;> rfl
    · cases dtor <;> rintro _ _ _ ⟨⟩
  | flushEmpty t dtor hpc _ _ =>
    exact h.plainMove rfl rfl (by rw [hpc]; rfl) rfl (by rintro _ _ _ ⟨⟩)
  | take t k b rest hask hmtx _ hfree => exact h.take hask hmtx hfree
  | extend t k buf hask hmtx _ _ hroom _ => exact h.extend hask hmtx hroom
  | giveUpAppend _ t data seq hask _ =>
    exact h.plainMove rfl rfl hask.plain rfl (by rintro _ _ _ ⟨⟩)
  | giveUpFlush _ t dtor seq hask _ _ =>
    exact h.plainMove rfl rfl hask.plain rfl (by rintro _ _ _ ⟨⟩)
  | startWait t k hask _ _ _ => exact h.plainMove rfl rfl hask.plain rfl (by rintro _ _ _ ⟨⟩)
  | exchange t k next hpc => exact h.exchange hpc
  | count t k old hpc => exact h.count hpc
  | enqueueRunning t k old hpc hrunning => exact h.enqueueRunning hpc hrunning
  | enqueueIdle t k old hpc hrunning => exact h.enqueueIdle hpc hrunning
  | runInline t k hpc _ => exact h.runInline (by rcases hpc with hpc | hpc <;> rw [hpc] <;> rfl)
  | postNext t k hpc _ => exact h.postNext (by rw [hpc]; rfl)
  | postQueued t k hpc _ => exact h.postQueued (by rw [hpc]; rfl)
  | flushDone t dtor hpc _ _ =>
    refine h.plainMove (x := if dtor then .dtorClose else .idle) rfl rfl (by rw [hpc]; rfl) ?_ ?_
    · cases dtor <;> rfl
    · cases dtor <;> rintro _ _ _ ⟨⟩
  | close t hpc _ => exact h.plainMove rfl rfl (by rw [hpc]; rfl) rfl (by rintro _ _ _ ⟨⟩)
  | finish t hpc => exact h.plainMove rfl rfl (by rw [hpc]; rfl) rfl (by rintro _ _ _ ⟨⟩)
  | pickUp hexec =>
    refine h.execMove rfl rfl rfl rfl ?_ rfl ?_ (fun b => ?_) ?_ <;> rw [hexec] <;> rfl
  | drainReturn runner hexec htasks => exact h.drainReturn hexec htasks
  | pop runner b rest hexec htasks =>
    refine h.execMove rfl rfl rfl rfl ?_ rfl ?_ (fun a => ?_) ?_ <;> rw [hexec]
    · rfl
    · rfl
    · rw [htasks]
      simp only [Exec.held, List.count_cons, List.count_nil]
      omega
    · rw [htasks]
      simp only [Exec.unsubtracted, List.length_cons]
  | sealStore runner b hexec | sealDone runner b hexec _ | sync runner b hexec
  | scanStart runner b hexec | resetLoad runner b hexec =>
    refine h.drainMove ?_ ?_ ?_ ?_ rfl rfl <;> rw [hexec] <;> rfl
  | resetOffset runner b prevUsed hexec | resetUnseal runner b prevUsed hexec
  | resetMemset runner b prevUsed hexec =>
    refine h.drainMove ?_ ?_ ?_ ?_ rfl rfl <;> rw [hexec] <;> rfl
  | scanFrame runner b endPos pos p hexec _ =>
    refine h.drainMove ?_ ?_ ?_ ?_ rfl rfl <;> rw [hexec] <;> rfl
  | scanEnd runner b endPos pos hexec _ =>
    refine h.drainMove ?_ ?_ ?_ ?_ rfl rfl <;> rw [hexec] <;> rfl
  | sealSpin => exact h
  | pushFree runner b hexec _ =>
    refine h.execMove rfl rfl rfl rfl ?_ rfl ?_ (fun a => ?_) ?_ <;> rw [hexec]
    · rfl
    · rfl
    · simp only [StoreState.drainTo, Exec.held, List.count_append, List.count_nil]
      omega
    · rfl
  | notifyFree runner b hexec =>
    refine h.drainMove ?_ ?_ ?_ ?_ rfl rfl <;> rw [hexec] <;> rfl
  | fetchSubLast runner b hexec _ =>
    have hle := h.one_le_inFlight (by rw [hexec]; rfl)
    refine h.execMove rfl rfl rfl rfl ?_ rfl ?_ (fun a => ?_) ?_ <;> rw [hexec]
    · rfl
    · rfl
    · rfl
    · simp only [StoreState.drainTo, Exec.unsubtracted]
      omega
  | fetchSub runner b hexec _ =>
    have hle := h.one_le_inFlight (by rw [hexec]; rfl)
    refine h.execMove rfl rfl rfl rfl ?_ rfl ?_ (fun a => ?_) ?_ <;> rw [hexec]
    · rfl
    · rfl
    · rfl
    · simp only [Exec.unsubtracted]
      omega
  | notifyFlush runner b hexec _ =>
    refine h.execMove rfl rfl rfl rfl ?_ rfl ?_ (fun a => ?_) ?_ <;> rw [hexec] <;> rfl
  | shutdown =>
    exact ⟨h.mtx_iff, h.place, h.inFlight_eq, h.le_pool, h.pool_le, h.stopped_strand, h.posting,
      h.posted, h.inlines_iff, h.pointer_lt⟩

omit [DecidableEq T] [Fintype T] in
/-- Once a store has been constructed, no buffer fails to open. -/
theorem StoreState.create_opens {env : σ} (h : StoreState.create cfg env = some s) (seq : ℕ) :
    cfg.normalise.openBuffer seq ≠ none := by
  intro hnone
  rw [create] at h
  split at h
  · next hsome =>
    rw [StoreConfig.isSome_openBuffer _ 0 seq, hnone] at hsome
    cases hsome
  · cases h

omit [DecidableEq T] in
/-- `MmapStore`'s constructor. -/
theorem StoreState.create_ownInv {env : σ} (h : StoreState.create cfg env = some s) :
    OwnInv cfg.normalise s := by
  rw [StoreState.create] at h
  split at h
  · cases h
    have hmin : 0 < cfg.normalise.minBuffers := by
      simp only [StoreConfig.normalise]
      split <;> omega
    have hmax : cfg.normalise.minBuffers ≤ cfg.normalise.maxBuffers := by
      simp only [StoreConfig.normalise]
      split <;> split <;> omega
    constructor
    · simp [Pc.inSection]
    · intro b
      have htotal : total (fun pc : Pc => pc.carried.count b) (fun _ : T => .idle) = 0 :=
        total_eq_zero fun _ => rfl
      obtain ⟨n, hn⟩ : ∃ n, cfg.normalise.minBuffers = n + 1 := ⟨_, (Nat.sub_add_cancel hmin).symm⟩
      simp only [occurrences, htotal, Exec.held, List.count_nil, hn, List.range_succ_eq_map,
        List.tail_cons, List.count_cons]
      omega
    · have htotal : total Pc.counted (fun _ : T => .idle) = 0 := total_eq_zero fun _ => rfl
      simp only [htotal, List.length_nil, Exec.unsubtracted]
    · exact Nat.le_refl _
    · exact hmax
    · exact fun _ => ⟨rfl, rfl⟩
    · rintro _ ⟨⟩
    · rintro - ⟨⟩
    · simp [Pc.inlines, Exec.runner]
    · rintro _ _ _ _ ⟨⟩
  · cases h

/-- The invariant holds in every reachable state. -/
theorem OwnInv.of_reach {ok : StoreState T σ → StoreEvent T → Prop} {env : σ}
    {s₀ : StoreState T σ} (hcreate : StoreState.create cfg env = some s₀)
    (hr : Transition.Reach (storeStep cfg onPersist) ok s₀ s) : OwnInv cfg.normalise s :=
  hr.invariant (StoreState.create_ownInv hcreate) fun _ _ _ hi _ hstep =>
    hi.step (.of_storeStep hstep)

end LoggerHigh
