import LoggerHigh.Lib.Ledger
import LoggerHigh.Lib.Transition
import LoggerHigh.Mmap.MmapStore

/-!
# MmapRegion

`mmap/mmap_region.{h,cpp}` as built for POSIX systems: which descriptors and
mappings a program holds whose objects of this class are created, moved,
assigned, closed and destroyed in any order, and what `Sync` asks of `msync`.
The system is free in its answers but does not hand out a descriptor that is open or a
mapping over another one.

## Main definitions

- `MmapRegion.create`, `MmapRegion.moved`, `MmapRegion.close` — the member functions
- `MmapRegion.syncRange` — the arguments of `msync`
- `Regions.step` — any number of objects
- `openPool`, `closePool` — the buffers of `MmapStore`'s constructor

## Main results

- `handles_owned_once` — every handle has one owner and is given back once
- `sync_in_region_iff` — when `Sync` stays in its region
- `isSome_create_of_openPool` — a constructor that gets through its loop makes a store
- `pool_released` — a constructor that throws leaves nothing behind
-/

namespace LoggerHigh

open Ledger ThreadSum Transition

/-- What the system gives a process: an open file, or a mapping at an address. -/
inductive Handle
  | descriptor (fd : ℤ)
  | mapping (addr length : ℕ)
  deriving DecidableEq

/-- A mapping at `addr` does not overlap with another one. -/
def Handle.Apart (addr length : ℕ) : Handle → Prop
  | .descriptor _ => True
  | .mapping addr' length' => addr + length ≤ addr' ∨ addr' + length' ≤ addr

instance (addr length : ℕ) : (h : Handle) → Decidable (h.Apart addr length)
  | .descriptor _ => inferInstanceAs (Decidable True)
  | .mapping _ _ => inferInstanceAs (Decidable (_ ∨ _))

/-- What `open`, `ftruncate` and `mmap` answer when they are called, `none` and
`false` for a failure. -/
structure CreateAnswers where
  file : Option ℕ
  truncated : Bool
  view : Option ℕ

/-- Answers of a system that has handed out `out`. -/
def CreateAnswers.Possible (page mapped : ℕ) (out : Multiset Handle) (a : CreateAnswers) : Prop :=
  (∀ fd ∈ a.file, .descriptor fd ∉ out) ∧ (a.truncated = true → mapped < 2 ^ 63) ∧
    ∀ addr ∈ a.view, 0 < mapped ∧ page ∣ addr ∧ ∀ h ∈ out, h.Apart addr mapped

instance (page mapped : ℕ) (out : Multiset Handle) (a : CreateAnswers) :
    Decidable (a.Possible page mapped out) :=
  inferInstanceAs (Decidable (_ ∧ _ ∧ _))

/-- The class; `data` is `none` for a null pointer. -/
structure MmapRegion where
  path : List Char
  data : Option ℕ
  size : ℕ
  fd : ℤ
  deriving DecidableEq

namespace MmapRegion

/-- The default constructor. -/
def blank : MmapRegion := ⟨[], none, 0, -1⟩

/-- `Create`; the texts are those the exceptions are made with. -/
def create (page : ℕ) (path : List Char) (sizeBytes : ℕ) (a : CreateAnswers)
    (k : Account Handle) : Except String MmapRegion × Account Handle :=
  if sizeBytes = 0 then (.error "MmapRegion::Create: size_bytes == 0", k)
  else
    let mapped := roundUpToPage page sizeBytes
    a.file.elim (.error "open", k) fun fd =>
      let k := k.take (.descriptor fd)
      if a.truncated then
        a.view.elim (.error "mmap", k.give (.descriptor fd)) fun addr =>
          (.ok ⟨path, some addr, mapped, fd⟩, k.take (.mapping addr mapped))
      else (.error "ftruncate", k.give (.descriptor fd))

/-- `Close` -/
def close (r : MmapRegion) (k : Account Handle) : MmapRegion × Account Handle :=
  let k := r.data.elim k fun addr => k.give (.mapping addr r.size)
  let k := if 0 ≤ r.fd then k.give (.descriptor r.fd) else k
  (⟨r.path, none, 0, if 0 ≤ r.fd then -1 else r.fd⟩, k)

/-- What is left of an object that was moved from. -/
def movedFrom (_ : MmapRegion) : MmapRegion := ⟨[], none, 0, -1⟩

/-- The arguments of `msync`, when `Sync` gets that far. -/
def syncRange (page : ℕ) (r : MmapRegion) (offset length : ℕ) : Option (ℕ × ℕ) :=
  r.data.bind fun addr =>
    if length = 0 ∨ r.size ≤ offset then none
    else
      let length := if r.size < addSize offset length then r.size - offset else length
      let alignedOff := if page = 0 then offset else offset / page * page
      let pad := offset - alignedOff
      some (addr + alignedOff, addSize length pad)

/-- A range of addresses lies in the region at `addr` and has all bytes of the region among
those from `offset` to `offset + length`. -/
def Serves (r : MmapRegion) (addr offset length : ℕ) (range : ℕ × ℕ) : Prop :=
  addr ≤ range.1 ∧ range.1 + range.2 ≤ addr + r.size ∧
    ∀ b, offset ≤ b → b < offset + length → b < r.size →
      range.1 ≤ addr + b ∧ addr + b < range.1 + range.2

/-- What the object holds of the system. -/
def handles (r : MmapRegion) : Multiset Handle :=
  (r.data.elim 0 fun addr => {.mapping addr r.size}) +
    if 0 ≤ r.fd then {.descriptor r.fd} else 0

end MmapRegion

/-- `MmapBuffer::Sync` on a buffer over the region. -/
def MmapBuffer.sync (page : ℕ) (b : MmapBuffer) (region : MmapRegion) : Option (ℕ × ℕ) :=
  if 0 < b.used then region.syncRange page 0 b.used else none

/-- The objects of a program by their names, and what the system has given it. -/
structure Regions (ι : Type) where
  object : ι → Option MmapRegion
  kernel : Account Handle

/-- Before the first object. -/
def Regions.initial {ι : Type} : Regions ι := ⟨fun _ => none, .empty⟩

/-- What a program does with its objects. -/
inductive RegionEvent (ι : Type)
  | construct (i : ι)
  | create (i : ι) (path : List Char) (sizeBytes : ℕ) (a : CreateAnswers)
  | moveConstruct (i j : ι)
  | moveAssign (i j : ι)
  | close (i : ι)
  | destroy (i : ι)

section Machine

variable {ι : Type} [DecidableEq ι] (page : ℕ)

/-- One of these; what `i` is made from is `j`. -/
def Regions.step (s : Regions ι) : RegionEvent ι → Option (Regions ι)
  | .construct i =>
    if s.object i = none then some { s with object := Function.update s.object i (some .blank) }
    else none
  | .create i path sizeBytes a =>
    if s.object i = none then
      match MmapRegion.create page path sizeBytes a s.kernel with
      | (.error _, k) => some { s with kernel := k }
      | (.ok r, k) => some ⟨Function.update s.object i (some r), k⟩
    else none
  | .moveConstruct i j =>
    if s.object i = none then
      (s.object j).map fun other =>
        { s with object :=
            Function.update (Function.update s.object i (some other)) j (some other.movedFrom) }
    else none
  | .moveAssign i j =>
    (s.object i).bind fun self => (s.object j).map fun other =>
      if i = j then s
      else
        ⟨Function.update (Function.update s.object i (some other)) j (some other.movedFrom),
          (self.close s.kernel).2⟩
  | .close i =>
    (s.object i).map fun r =>
      ⟨Function.update s.object i (some (r.close s.kernel).1), (r.close s.kernel).2⟩
  | .destroy i =>
    (s.object i).map fun r => ⟨Function.update s.object i none, (r.close s.kernel).2⟩

/-- The answers in the step are possible ones. -/
def AnswersPossible (s : Regions ι) : RegionEvent ι → Prop
  | .create _ _ sizeBytes a => a.Possible page (roundUpToPage page sizeBytes) s.kernel.out
  | _ => True

instance (s : Regions ι) : (e : RegionEvent ι) → Decidable (AnswersPossible page s e)
  | .create _ _ _ _ => inferInstanceAs (Decidable (CreateAnswers.Possible _ _ _ _))
  | .construct _ | .moveConstruct _ _ | .moveAssign _ _ | .close _ | .destroy _ =>
    inferInstanceAs (Decidable True)

end Machine

/-- The destructor of `pool_`. -/
def closePool (pool : List MmapRegion) (k : Account Handle) : Account Handle :=
  pool.foldl (fun k r => (r.close k).2) k

/-- The loop of `MmapStore`'s constructor, a round for each of the answers; an exception leaves
it once `pool_` is destroyed. -/
def openPool (page : ℕ) (path : ℕ → List Char) (bufferBytes : ℕ) (pool : List MmapRegion)
    (k : Account Handle) : List CreateAnswers → Except String (List MmapRegion) × Account Handle
  | [] => (.ok pool, k)
  | a :: as =>
    match MmapRegion.create page (path pool.length) bufferBytes a k with
    | (.error what, k) => (.error what, closePool pool k)
    | (.ok r, k) => openPool page path bufferBytes (pool ++ [r]) k as

-- ════════════════════════════════════════════════════════════════════════
-- Single objects
-- ════════════════════════════════════════════════════════════════════════

variable {page sizeBytes : ℕ} {path : List Char} {a : CreateAnswers} {k k' : Account Handle}
  {m : Multiset Handle} {r : MmapRegion}

/-- `Close` gives back what the object holds. -/
theorem MmapRegion.close_owes (h : k.Owes (r.handles + m)) : (r.close k).2.Owes m := by
  obtain ⟨path, data, size, fd⟩ := r
  have hfile : ∀ {k : Account Handle},
      k.Owes ((if 0 ≤ fd then {.descriptor fd} else 0) + m) →
      (if 0 ≤ fd then k.give (.descriptor fd) else k).Owes m := by
    intro k hk
    by_cases hfd : 0 ≤ fd
    · rw [if_pos hfd] at hk ⊢
      exact hk.give
    · rw [if_neg hfd] at hk ⊢
      exact hk.of_eq (zero_add m)
  cases data with
  | none => exact hfile (h.of_eq (congrArg (· + m) (zero_add _)))
  | some addr => exact hfile (Account.Owes.give (h.of_eq (add_assoc _ _ _)))

/-- A closed object holds nothing. -/
theorem MmapRegion.handles_close (r : MmapRegion) (k : Account Handle) :
    (r.close k).1.handles = 0 := by
  simp only [MmapRegion.close, MmapRegion.handles, Option.elim_none, zero_add]
  split <;> simp_all

/-- What `Create` makes, and that it leaves nothing behind when it throws. -/
theorem MmapRegion.create_cases {result : Except String MmapRegion}
    (hc : MmapRegion.create page path sizeBytes a k = (result, k')) :
    (∃ what, result = .error what ∧ ∀ m, k.Owes m → k'.Owes m) ∨
    ∃ fd addr, sizeBytes ≠ 0 ∧ a.file = some fd ∧ a.truncated = true ∧ a.view = some addr ∧
      result = .ok ⟨path, some addr, roundUpToPage page sizeBytes, fd⟩ ∧
      k' = (k.take (.descriptor fd)).take (.mapping addr (roundUpToPage page sizeBytes)) := by
  obtain ⟨file, truncated, view⟩ := a
  rw [MmapRegion.create] at hc
  split at hc
  case isTrue =>
    cases hc
    exact .inl ⟨_, rfl, fun _ h => h⟩
  case isFalse hsize =>
    cases file with
    | none =>
      cases hc
      exact .inl ⟨_, rfl, fun _ h => h⟩
    | some fd =>
      have hclosed : ∀ m, k.Owes m → ((k.take (.descriptor fd)).give (.descriptor fd)).Owes m :=
        fun m h => (h.take _).give
      cases truncated with
      | false =>
        cases hc
        exact .inl ⟨_, rfl, hclosed⟩
      | true =>
        cases view with
        | none =>
          cases hc
          exact .inl ⟨_, rfl, hclosed⟩
        | some addr =>
          cases hc
          exact .inr ⟨fd, addr, hsize, rfl, rfl, rfl, rfl, rfl⟩

/-- What `Create` returns holds what it was given. -/
theorem MmapRegion.create_owes (h : k.Owes m)
    (hc : MmapRegion.create page path sizeBytes a k = (.ok r, k')) :
    k'.Owes (r.handles + m) := by
  obtain ⟨what, hr, -⟩ | ⟨fd, addr, -, -, -, -, hr, rfl⟩ := MmapRegion.create_cases hc
  · cases hr
  · cases hr
    refine ((h.take (.descriptor fd)).take _).of_eq ?_
    rw [MmapRegion.handles, if_pos (Int.natCast_nonneg fd), add_assoc]
    rfl

/-- A region that was created is one that a buffer can be made over. -/
theorem MmapBuffer.create_of_region {out : Multiset Handle} (file : Bytes)
    (ha : a.Possible page (roundUpToPage page sizeBytes) out)
    (hc : MmapRegion.create page path sizeBytes a k = (.ok r, k')) :
    ∃ b, MmapBuffer.create page file sizeBytes = some b ∧ b.size = r.size := by
  obtain ⟨what, hr, -⟩ | ⟨fd, addr, hsize, -, htruncated, hview, hr, -⟩ :=
    MmapRegion.create_cases hc
  · cases hr
  · cases hr
    have hmapped := (ha.2.2 addr hview).1
    exact ⟨_, dif_pos ⟨hsize, hmapped.ne', ha.2.1 htruncated⟩, rfl⟩

-- ════════════════════════════════════════════════════════════════════════
-- Any number of objects
-- ════════════════════════════════════════════════════════════════════════

/-- What is held under a name. -/
def handlesAt (x : Option MmapRegion) : Multiset Handle := x.elim 0 MmapRegion.handles

@[simp] theorem handlesAt_some (r : MmapRegion) : handlesAt (some r) = r.handles := rfl

/-- The system has handed out what the objects hold, nothing twice; an object without a mapping
is empty, and mappings begin at pages. -/
structure RegionsInv {ι : Type} [Fintype ι] (page : ℕ) (s : Regions ι) : Prop where
  owes : s.kernel.Owes (total handlesAt s.object)
  nodup : s.kernel.out.Nodup
  size : ∀ i r, s.object i = some r → (r.data = none → r.size = 0) ∧ r.size < 2 ^ 63
  aligned : ∀ addr length, .mapping addr length ∈ s.kernel.out → page ∣ addr

variable {ι : Type} [Fintype ι] {s s' : Regions ι} {i j : ι} {e : RegionEvent ι}

/-- Before the first object nothing is held. -/
theorem RegionsInv.initial : RegionsInv page (.initial : Regions ι) :=
  ⟨Account.Owes.empty.of_eq (total_eq_zero fun _ => rfl).symm, Multiset.nodup_zero, nofun, nofun⟩

variable [DecidableEq ι]

/-- An object is closed, and nothing or an object without handles takes its place. -/
theorem RegionsInv.close (h : RegionsInv page s) (hi : s.object i = some r)
    (x : Option MmapRegion) (hx : handlesAt x = 0)
    (hsize : ∀ r' ∈ x, r'.size = 0) :
    RegionsInv page ⟨Function.update s.object i x, (r.close s.kernel).2⟩ := by
  obtain ⟨rest, hrest⟩ := exists_rest handlesAt s.object i
  have hbefore : total handlesAt s.object = r.handles + rest := by
    rw [← Function.update_eq_self i s.object, hrest, hi]
    rfl
  have howes : (r.close s.kernel).2.Owes rest := MmapRegion.close_owes (h.owes.of_eq hbefore)
  have hle : (r.close s.kernel).2.out ≤ s.kernel.out := by
    rw [howes.out, h.owes.out, hbefore]
    exact Multiset.le_add_left _ _
  refine ⟨howes.of_eq (by rw [hrest, hx, zero_add]), Multiset.nodup_of_le hle h.nodup, ?_,
    fun addr length hmem => h.aligned addr length (Multiset.mem_of_le hle hmem)⟩
  intro u r' hr'
  rcases update_cases hr' with ⟨_, rfl⟩ | ⟨_, hu⟩
  · rw [hsize r' rfl]
    exact ⟨fun _ => rfl, by decide⟩
  · exact h.size u r' hu

/-- What `j` holds goes to `i`, which holds nothing. -/
theorem RegionsInv.transfer (h : RegionsInv page s) (hij : i ≠ j)
    (hi : handlesAt (s.object i) = 0) (hj : s.object j = some r) :
    RegionsInv page
      { s with object :=
          Function.update (Function.update s.object i (some r)) j (some r.movedFrom) } := by
  refine ⟨h.owes.of_eq (total_transfer hij ?_).symm, h.nodup, ?_, h.aligned⟩
  · rw [hi, hj]
    exact (add_zero _).trans (zero_add _).symm
  · intro u r' hr'
    rcases update_cases hr' with ⟨_, hu⟩ | ⟨_, hu⟩
    · cases hu
      exact ⟨fun _ => rfl, Nat.two_pow_pos 63⟩
    · rcases update_cases hu with ⟨_, hu⟩ | ⟨_, hu⟩
      · cases hu
        exact h.size j r hj
      · exact h.size u r' hu

/-- A new object holds what nobody held. -/
theorem RegionsInv.create (h : RegionsInv page s) (hi : s.object i = none)
    (ha : a.Possible page (roundUpToPage page sizeBytes) s.kernel.out)
    (hc : MmapRegion.create page path sizeBytes a s.kernel = (.ok r, k')) :
    RegionsInv page ⟨Function.update s.object i (some r), k'⟩ := by
  obtain ⟨rest, hrest⟩ := exists_rest handlesAt s.object i
  have hbefore : total handlesAt s.object = rest := by
    rw [← Function.update_eq_self i s.object, hrest, hi]
    exact zero_add rest
  have howes := MmapRegion.create_owes (h.owes.of_eq hbefore) hc
  obtain ⟨what, hr, -⟩ | ⟨fd, addr, -, hfile, htruncated, hview, hr, rfl⟩ :=
    MmapRegion.create_cases hc
  · cases hr
  cases hr
  obtain ⟨hmapped, hpage, hapart⟩ := ha.2.2 addr hview
  have hfresh : .mapping addr (roundUpToPage page sizeBytes) ∉ s.kernel.out := by
    intro hmem
    rcases hapart _ hmem with hle | hle <;> omega
  refine ⟨howes.of_eq (hrest (some _)).symm, ?nodup, ?size, ?aligned⟩
  case nodup =>
    refine Multiset.nodup_cons.mpr ⟨?_, Multiset.nodup_cons.mpr ⟨ha.1 fd hfile, h.nodup⟩⟩
    exact fun hmem => hfresh ((Multiset.mem_cons.mp hmem).resolve_left (by simp))
  case size =>
    intro u r' hr'
    rcases update_cases hr' with ⟨_, hu⟩ | ⟨_, hu⟩
    · cases hu
      exact ⟨fun hdata => absurd hdata (Option.some_ne_none addr), ha.2.1 htruncated⟩
    · exact h.size u r' hu
  case aligned =>
    intro addr' length' hmem
    simp only [Account.take, Multiset.mem_cons, Handle.mapping.injEq, reduceCtorEq,
      false_or] at hmem
    rcases hmem with ⟨rfl, -⟩ | hmem
    · exact hpage
    · exact h.aligned addr' length' hmem

/-- Every step keeps the invariant. -/
theorem RegionsInv.step (h : RegionsInv page s) (hok : AnswersPossible page s e)
    (hstep : s.step page e = some s') : RegionsInv page s' := by
  cases e with
  | construct i =>
    rw [Regions.step] at hstep
    split at hstep <;> cases hstep
    next hi =>
      refine ⟨h.owes.of_eq (total_update_of_eq (by rw [hi]; rfl)).symm, h.nodup, ?_, h.aligned⟩
      intro u r' hr'
      rcases update_cases hr' with ⟨_, hu⟩ | ⟨_, hu⟩
      · cases hu
        exact ⟨fun _ => rfl, by decide⟩
      · exact h.size u r' hu
  | create i path sizeBytes a =>
    rw [Regions.step] at hstep
    split at hstep
    case isFalse => cases hstep
    case isTrue hi =>
      obtain ⟨result, k', hc⟩ : ∃ result k',
          MmapRegion.create page path sizeBytes a s.kernel = (result, k') := ⟨_, _, rfl⟩
      rw [hc] at hstep
      cases result with
      | error what =>
        cases hstep
        obtain ⟨_, -, hkeep⟩ | ⟨_, _, _, _, _, _, hr, _⟩ := MmapRegion.create_cases hc
        · have howes := hkeep _ h.owes
          have hout : k'.out = s.kernel.out := howes.out.trans h.owes.out.symm
          exact ⟨howes, hout ▸ h.nodup, h.size, fun addr length hmem =>
            h.aligned addr length (hout ▸ hmem)⟩
        · cases hr
      | ok r =>
        cases hstep
        exact h.create hi hok hc
  | moveConstruct i j =>
    rw [Regions.step] at hstep
    split at hstep
    case isFalse => cases hstep
    case isTrue hi =>
      obtain ⟨other, hj, rfl⟩ := Option.map_eq_some_iff.mp hstep
      have hij : i ≠ j := by
        rintro rfl
        rw [hi] at hj
        cases hj
      exact h.transfer hij (by rw [hi]; rfl) hj
  | moveAssign i j =>
    obtain ⟨self, hi, hstep⟩ := Option.bind_eq_some_iff.mp hstep
    obtain ⟨other, hj, rfl⟩ := Option.map_eq_some_iff.mp hstep
    split
    case isTrue => exact h
    case isFalse hij =>
      -- `Close` first, and then what the other object holds.
      have hclosed := h.close hi (some (self.close s.kernel).1) (self.handles_close s.kernel)
        fun r' hr' => by cases hr'; rfl
      have hmoved := hclosed.transfer (i := i) (j := j) (r := other) hij
        (by simpa using self.handles_close s.kernel)
        ((Function.update_of_ne (Ne.symm hij) ..).trans hj)
      rwa [Function.update_idem] at hmoved
  | close i =>
    obtain ⟨r, hi, rfl⟩ := Option.map_eq_some_iff.mp hstep
    exact h.close hi _ (r.handles_close s.kernel) fun r' hr' => by cases hr'; rfl
  | destroy i =>
    obtain ⟨r, hi, rfl⟩ := Option.map_eq_some_iff.mp hstep
    exact h.close hi none rfl nofun

/-- The invariant holds in every state reached. -/
theorem RegionsInv.of_reach (hr : Reach (Regions.step page) (AnswersPossible page) .initial s) :
    RegionsInv page s :=
  hr.invariant .initial fun _ _ _ h hok hstep => h.step hok hstep

/-- Whatever a program does with its objects, no descriptor is closed and no mapping removed
that it does not hold; what it holds is held by exactly one object each, and nothing when no
object is left. -/
theorem handles_owned_once
    (hr : Reach (Regions.step page) (AnswersPossible page) .initial s) :
    s.kernel.fault = false ∧
      (∀ h ∈ s.kernel.out, ∃! i, h ∈ handlesAt (s.object i)) ∧
      (∀ i, handlesAt (s.object i) ≤ s.kernel.out) ∧
      ((∀ i, s.object i = none) → s.kernel.out = 0) := by
  have hinv := RegionsInv.of_reach hr
  have hout := hinv.owes.out
  have hnodup := hout ▸ hinv.nodup
  refine ⟨hinv.owes.fault, fun h hh => ?_, fun i => ?_, fun hnone => ?_⟩
  · obtain ⟨i, hi⟩ := mem_total.mp (hout ▸ hh)
    exact ⟨i, hi, fun j hj => owner_unique hnodup hj hi⟩
  · obtain ⟨rest, hrest⟩ := exists_rest handlesAt s.object i
    rw [hout, ← Function.update_eq_self i s.object, hrest, Function.update_eq_self]
    exact Multiset.le_add_right _ _
  · rw [hout]
    exact total_eq_zero fun i => by rw [hnone i]; rfl

/-- An object is created, another creation fails, the first one is moved from and closed
again, and all are destroyed. -/
def movedRegion : List (RegionEvent Bool) :=
  [.create false ['a'] 100 ⟨some 3, true, some 8192⟩,
    .create true ['b'] 4096 ⟨some 4, true, none⟩, .construct true, .moveAssign true false,
    .close false, .destroy false, .destroy true]

theorem run_movedRegion :
    (run (guarded (Regions.step 4096) (AnswersPossible 4096)) .initial movedRegion).isSome := by
  decide +kernel

/-- The process holds nothing after that. -/
theorem handles_owned_once_moved :
    ((run (guarded (Regions.step 4096) (AnswersPossible 4096)) .initial movedRegion).get
      run_movedRegion).kernel.out = 0 :=
  (handles_owned_once (Reach.of_run_guarded (Option.some_get _).symm)).2.2.2 (by decide +kernel)

-- ════════════════════════════════════════════════════════════════════════
-- Sync
-- ════════════════════════════════════════════════════════════════════════

/-- What `Sync` passes to `msync` begins at a page, and it serves the request unless the end of
the request is not a `std::size_t`. -/
theorem MmapRegion.syncRange_serves_iff {addr offset length : ℕ} (hpage : 0 < page)
    (hdata : r.data = some addr) (haddr : page ∣ addr) (hsize : r.size < 2 ^ 63)
    (hoffset : offset < r.size) (hlength : 0 < length) (hlt : length < 2 ^ 64) :
    ∃ range, r.syncRange page offset length = some range ∧ page ∣ range.1 ∧
      (r.Serves addr offset length range ↔ offset + length < 2 ^ 64) := by
  have hpad := Nat.div_add_mod' offset page
  generalize halign : offset / page * page = alignedOff at hpad
  generalize offset % page = pad at hpad
  have hsub : offset - alignedOff = pad := by omega
  have hgoes : ¬ (length = 0 ∨ r.size ≤ offset) := by omega
  simp only [syncRange, hdata, Option.bind_some, if_neg hgoes, if_neg hpage.ne', halign, hsub]
  refine ⟨_, rfl, Nat.dvd_add haddr (halign ▸ Nat.dvd_mul_left page _), ?_⟩
  constructor
  · rintro ⟨-, hend, hbytes⟩
    by_contra hwrap
    -- The sum wraps to less than the offset, so the length is not cut to the region.
    have hsum : addSize offset length = offset + length - 2 ^ 64 := by
      rw [addSize]
      omega
    rw [if_neg (by omega)] at hend hbytes
    have hfirst := (hbytes offset le_rfl (by omega) hoffset).2
    simp only [addSize] at hend hfirst
    omega
  · intro hfits
    rw [addSize_of_lt hfits]
    have hcut : (if r.size < offset + length then r.size - offset else length) =
        min length (r.size - offset) := by split <;> omega
    rw [hcut, addSize_of_lt (by omega)]
    refine ⟨Nat.le_add_right addr alignedOff, ?_, fun b hfrom hto hb => ⟨?_, ?_⟩⟩
    all_goals
      dsimp only
      omega

/-- `Sync` on an object that any use of the class has left behind: the range begins at a page,
and it serves a request within the region exactly when the request does not end beyond the
last `std::size_t`. -/
theorem sync_in_region_iff (offset length : ℕ) (hpage : 0 < page)
    (hr : Reach (Regions.step page) (AnswersPossible page) .initial s)
    (hi : s.object i = some r) (hoffset : offset < r.size) (hlength : 0 < length)
    (hlt : length < 2 ^ 64) :
    ∃ addr range, r.data = some addr ∧ .mapping addr r.size ∈ s.kernel.out ∧
      r.syncRange page offset length = some range ∧ page ∣ range.1 ∧
      (r.Serves addr offset length range ↔ offset + length < 2 ^ 64) := by
  have hinv := RegionsInv.of_reach hr
  obtain ⟨hempty, hsize⟩ := hinv.size i r hi
  obtain ⟨addr, hdata⟩ := Option.ne_none_iff_exists'.mp
    fun hnone => absurd (hempty hnone) (by omega : r.size ≠ 0)
  have hmem : .mapping addr r.size ∈ s.kernel.out := by
    rw [hinv.owes.out]
    refine mem_total.mpr ⟨i, ?_⟩
    simp [handlesAt, hi, MmapRegion.handles, hdata]
  obtain ⟨range, hrange⟩ := MmapRegion.syncRange_serves_iff hpage hdata
    (hinv.aligned _ _ hmem) hsize hoffset hlength hlt
  exact ⟨addr, range, hdata, hmem, hrange⟩

/-- An object with a mapping of two pages. -/
def twoPages : MmapRegion := ⟨['a'], some 8192, 8192, 3⟩

/-- How it is made. -/
def makeTwoPages : RegionEvent Bool := .create true ['a'] 5000 ⟨some 3, true, some 8192⟩

theorem step_makeTwoPages :
    Regions.step 4096 .initial makeTwoPages = some
      ⟨Function.update (fun _ => none) true (some twoPages),
        (Account.empty.take (.descriptor 3)).take (.mapping 8192 8192)⟩ := rfl

/-- The length of a request up to the end of the address space wraps around. -/
theorem sync_in_region_iff_wrapped :
    ∃ addr range, twoPages.syncRange 4096 5000 (2 ^ 64 - 1) = some range ∧
      ¬ twoPages.Serves addr 5000 (2 ^ 64 - 1) range := by
  have hpossible : AnswersPossible 4096 .initial makeTwoPages := by decide +kernel
  obtain ⟨addr, range, -, -, hrange, -, hserves⟩ := sync_in_region_iff (i := true) (r := twoPages)
    5000 (2 ^ 64 - 1) (by decide) (Reach.refl.step hpossible step_makeTwoPages) rfl (by decide)
    (by decide) (by decide)
  exact ⟨addr, range, hrange, fun h => absurd (hserves.mp h) (by decide)⟩

/-- `MmapBuffer::Sync` writes back all that is used of its region. -/
theorem MmapBuffer.sync_serves {b : MmapBuffer} {addr : ℕ} (hpage : 0 < page)
    (hdata : r.data = some addr) (haddr : page ∣ addr) (hsize : b.size = r.size)
    (hused : 0 < b.used) :
    ∃ range, b.sync page r = some range ∧ r.Serves addr 0 b.used range := by
  have hle : b.used ≤ b.size := min_le_right _ _
  have hlt := b.size_lt
  obtain ⟨range, hrange, -, hserves⟩ := MmapRegion.syncRange_serves_iff hpage hdata haddr
    (hsize ▸ hlt) (hused.trans_le (hsize ▸ hle)) hused (by omega)
  exact ⟨range, (if_pos hused).trans hrange, hserves.mpr (by omega)⟩

-- ════════════════════════════════════════════════════════════════════════
-- The buffers of a store
-- ════════════════════════════════════════════════════════════════════════

/-- What the buffers of a pool hold. -/
def poolHandles (pool : List MmapRegion) : Multiset Handle := (pool.map MmapRegion.handles).sum

/-- Closing the buffers of a pool gives back what they hold. -/
theorem closePool_owes {pool : List MmapRegion} (h : k.Owes (poolHandles pool + m)) :
    (closePool pool k).Owes m := by
  induction pool generalizing k with
  | nil => exact h.of_eq (zero_add m)
  | cons r pool ih =>
    refine ih (MmapRegion.close_owes (h.of_eq ?_))
    rw [poolHandles, List.map_cons, List.sum_cons, add_assoc]
    rfl

/-- The loop makes a buffer for each of the answers, or closes those it has made. -/
theorem openPool_cases {paths : ℕ → List Char} {pool : List MmapRegion} {as : List CreateAnswers}
    {result : Except String (List MmapRegion)} (h : k.Owes (poolHandles pool + m))
    (ho : openPool page paths sizeBytes pool k as = (result, k')) :
    (∃ what, result = .error what ∧ k'.Owes m) ∨
      ∃ pool', result = .ok pool' ∧ pool'.length = pool.length + as.length ∧
        k'.Owes (poolHandles pool' + m) := by
  induction as generalizing pool k with
  | nil =>
    cases ho
    exact .inr ⟨pool, rfl, rfl, h⟩
  | cons a as ih =>
    rw [openPool] at ho
    split at ho
    next what k₁ hc =>
      cases ho
      obtain ⟨_, -, hkeep⟩ | ⟨_, _, _, _, _, _, hr, _⟩ := MmapRegion.create_cases hc
      · exact .inl ⟨what, rfl, closePool_owes (hkeep _ h)⟩
      · cases hr
    next r k₁ hc =>
      have hpool : poolHandles (pool ++ [r]) = poolHandles pool + r.handles := by
        rw [poolHandles, List.map_append, List.sum_append, List.map_singleton, List.sum_singleton]
        rfl
      have howes : k₁.Owes (poolHandles (pool ++ [r]) + m) :=
        (MmapRegion.create_owes h hc).of_eq (by rw [hpool, add_left_comm, add_assoc])
      obtain hthrew | ⟨pool', hr, hlength, howes'⟩ := ih howes ho
      · exact .inl hthrew
      · refine .inr ⟨pool', hr, ?_, howes'⟩
        rw [hlength, List.length_append, List.length_singleton, List.length_cons]
        omega

/-- A constructor that gets through its loop makes a store. -/
theorem isSome_create_of_openPool {T σ : Type*} {cfg : StoreConfig} {env : σ}
    {paths : ℕ → List Char} {as : List CreateAnswers} {pool : List MmapRegion}
    {out : Multiset Handle}
    (ha : a.Possible cfg.page (roundUpToPage cfg.page cfg.normalise.bufferBytes) out)
    (ho : openPool cfg.page paths cfg.normalise.bufferBytes [] k (a :: as) = (.ok pool, k')) :
    (StoreState.create cfg env : Option (StoreState T σ)).isSome = true := by
  rw [openPool] at ho
  split at ho
  next => cases ho
  next r k₁ hc =>
    obtain ⟨b, hb, -⟩ := MmapBuffer.create_of_region (cfg.files 0) ha hc
    have hopen : cfg.normalise.openBuffer 0 = some b := hb
    rw [StoreState.create, if_pos (by rw [hopen]; rfl)]
    rfl

/-- However the constructor of a store ends, nothing is left behind: when a buffer cannot be
made, the process holds what it held before, and otherwise it does once the pool is destroyed. -/
theorem pool_released {paths : ℕ → List Char} {as : List CreateAnswers}
    {result : Except String (List MmapRegion)} (hfault : k.fault = false)
    (ho : openPool page paths sizeBytes [] k as = (result, k')) :
    (∀ what, result = .error what → k' = k) ∧
      ∀ pool, result = .ok pool → pool.length = as.length ∧ closePool pool k' = k := by
  have hbefore : k.Owes k.out := ⟨hfault, rfl⟩
  have hempty : k.Owes (poolHandles [] + k.out) := hbefore.of_eq (zero_add k.out).symm
  obtain ⟨what, rfl, howes⟩ | ⟨pool, rfl, hlength, howes⟩ := openPool_cases hempty ho
  · exact ⟨fun _ _ => howes.eq hbefore, nofun⟩
  · refine ⟨nofun, fun pool' hpool => ?_⟩
    cases hpool
    exact ⟨hlength.trans (Nat.zero_add _), (closePool_owes howes).eq hbefore⟩

/-- What a process holds that has a log file open. -/
def oneFile : Account Handle := ⟨{.descriptor 2}, false⟩

/-- The mapping of the second buffer fails: its file and the first buffer are closed. -/
theorem pool_released_second_fails :
    (openPool 4096 (fun _ => ['b']) 4096 [] oneFile
      [⟨some 3, true, some 8192⟩, ⟨some 4, true, none⟩]).2 = oneFile :=
  (pool_released rfl (Prod.mk.eta).symm).1 "mmap" rfl

end LoggerHigh
