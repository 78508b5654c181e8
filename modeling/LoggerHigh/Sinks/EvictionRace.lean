import LoggerHigh.Sinks.EvictionRunner
import LoggerHigh.Sinks.ShardPacking

/-!
# The sweep against the writer

One writer and one evictor share a directory. `WriteFrame` and
`CurrentShardPath` hold `mu_`; the sweep's listing and its removals do not, so
they interleave with a `WriteFrame` also between its naming of a new shard and the
`fopen` that creates it.

## Main definitions

- `SweepPhase`, `SharedDir` — the state of both parties
- `SharedDir.step` — their steps, without file system errors
- `FreshName` — a shard is opened under a name nothing in the directory bears
- `SharedDir.removes` — the file a step removes

## Main results

- `SweepInv.step` — what every step preserves
- `sweep_spares_live` — with fresh names no sweep removes the live shard
- `sweep_removes_live` — a name that is taken can be listed, opened and removed
-/

namespace LoggerHigh

open Transition

/-- How far `SweepOnce_` has got. -/
inductive SweepPhase (κ : Type)
  | idle
  /-- In the listing loop; `read` are the names the iterator has returned. -/
  | listing (read : List FileName) (l : Listing)
  /-- The entries are sorted and over the cap. -/
  | sorted (entries : List Entry) (total : ℕ)
  /-- In the removal loop, with the canonical path of the active shard. -/
  | removing (activeCanon : Option κ) (rest : List Entry) (total : ℕ)

/-- The writer, the directory and the sweep. `opening` is a `WriteFrame` that holds
`mu_`, has named its shard and has not opened it yet. -/
structure SharedDir (κ : Type) where
  writer : ShardWriter
  opening : Option WriteCall
  dir : List FileName
  phase : SweepPhase κ

/-- The steps of both parties. -/
inductive DirEvent
  | write (c : WriteCall)
  | beginOpen (c : WriteCall)
  | finishOpen
  | beginSweep
  | readEntry (name : FileName) (regular : Bool) (size : ℕ)
  | endListing
  | fetchActive
  | examineNext

section System

variable (cfg : ShardWriterConfig) (cap : ℕ) {κ : Type} [DecidableEq κ] (canon : FileName → κ)

/-- The call opens a shard. -/
def ShardWriter.Opens (s : ShardWriter) (c : WriteCall) : Prop :=
  c.data.length ≠ 0 ∧ s.needsShard cfg c.data.length

instance (s : ShardWriter) (c : WriteCall) : Decidable (s.Opens cfg c) :=
  inferInstanceAs (Decidable (_ ∧ _))

/-- The name of the shard the call opens. -/
def ShardWriter.nameFor (s : ShardWriter) (c : WriteCall) : FileName :=
  makeShardName c.opening.clock s.seq

/-- `current_path_` -/
def SharedDir.currentPath (s : SharedDir κ) : FileName :=
  match s.opening with
  | some c => s.writer.nameFor c
  | none => s.writer.currentPath

/-- One step. Without errors every `weakly_canonical` succeeds and depends on its
path alone, and every `remove` succeeds. -/
def SharedDir.step (s : SharedDir κ) : DirEvent → Option (SharedDir κ)
  | .write c =>
    if s.opening = none ∧ ¬ s.writer.Opens cfg c then
      some { s with writer := onPersist cfg c s.writer }
    else none
  | .beginOpen c =>
    if s.opening = none ∧ s.writer.Opens cfg c then some { s with opening := some c } else none
  | .finishOpen =>
    match s.opening with
    | some c => some { s with
        writer := onPersist cfg c s.writer
        opening := none
        dir := s.dir.insert (s.writer.nameFor c) }
    | none => none
  | .beginSweep =>
    match s.phase with
    | .idle => some { s with phase := .listing [] .empty }
    | _ => none
  | .readEntry name regular size =>
    match s.phase with
    | .listing read l =>
      if name ∈ s.dir ∧ name ∉ read then
        (listEntry l ⟨name, some regular, some size⟩).map fun l =>
          { s with phase := .listing (name :: read) l }
      else none
    | _ => none
  | .endListing =>
    match s.phase with
    | .listing _ l => some { s with
        phase := if l.total ≤ cap then .idle else .sorted (sortEntries l.entries) l.total }
    | _ => none
  | .fetchActive =>
    match s.phase with
    | .sorted entries total =>
      if s.opening = none then
        some { s with phase := .removing (some (canon s.currentPath)) entries total }
      else none
    | _ => none
  | .examineNext =>
    match s.phase with
    | .removing _ [] _ => some { s with phase := .idle }
    | .removing active (e :: rest) total =>
      match examine cap total active (some (canon e.filename)) with
      | .stop => some { s with phase := .idle }
      | .skip => some { s with phase := .removing active rest total }
      | .remove => some { s with
          dir := s.dir.erase e.filename
          phase := .removing active rest (subSize total e.size) }
    | _ => none

/-- The file a step removes. -/
def SharedDir.removes (s : SharedDir κ) : DirEvent → Option FileName
  | .examineNext =>
    match s.phase with
    | .removing active (e :: _) total =>
      if examine cap total active (some (canon e.filename)) = .remove then some e.filename else none
    | _ => none
  | _ => none

/-- Nothing fails in what the step does for the writer. -/
def DirEvent.NoError : DirEvent → Prop
  | .write c => c.Clean
  | .beginOpen c => c.Clean
  | _ => True

instance : (ev : DirEvent) → Decidable ev.NoError
  | .write c => inferInstanceAs (Decidable c.Clean)
  | .beginOpen c => inferInstanceAs (Decidable c.Clean)
  | .finishOpen | .beginSweep | .readEntry _ _ _ | .endListing | .fetchActive | .examineNext =>
    isTrue trivial

/-- A shard is opened only under a name that no file of the directory bears. -/
def SharedDir.OpensNew (s : SharedDir κ) : DirEvent → Prop
  | .beginOpen c => s.writer.nameFor c ∉ s.dir
  | _ => True

instance (s : SharedDir κ) : (ev : DirEvent) → Decidable (s.OpensNew ev)
  | .beginOpen c => inferInstanceAs (Decidable (s.writer.nameFor c ∉ s.dir))
  | .write _ | .finishOpen | .beginSweep | .readEntry _ _ _ | .endListing | .fetchActive
  | .examineNext => isTrue trivial

/-- A step without errors in which the name of a new shard is new. -/
def FreshName (s : SharedDir κ) (ev : DirEvent) : Prop := ev.NoError ∧ s.OpensNew ev

instance (s : SharedDir κ) (ev : DirEvent) : Decidable (FreshName s ev) :=
  inferInstanceAs (Decidable (_ ∧ _))

end System

-- ═══════════════════════════════════════════════════════════════════════════
-- What every step preserves
-- ═══════════════════════════════════════════════════════════════════════════

namespace SweepPhase

variable {κ : Type}

/-- The names listed and not yet examined. -/
def pending : SweepPhase κ → List FileName
  | .idle => []
  | .listing _ l => l.entries.map Entry.filename
  | .sorted entries _ => entries.map Entry.filename
  | .removing _ rest _ => rest.map Entry.filename

/-- What the listing loop lists it has read. -/
def ReadFirst : SweepPhase κ → Prop
  | .listing read l => ∀ n ∈ l.entries.map Entry.filename, n ∈ read
  | _ => True

/-- The removal loop spares `current`, or has it not on its list. -/
def Spares (canon : FileName → κ) (current : FileName) : SweepPhase κ → Prop
  | .removing active rest _ =>
    active = some (canon current) ∨ current ∉ rest.map Entry.filename
  | _ => True

end SweepPhase

/-- What holds between any two steps of runs with fresh names. -/
structure SweepInv {κ : Type} (cfg : ShardWriterConfig) (canon : FileName → κ)
    (s : SharedDir κ) : Prop where
  opens : ∀ c ∈ s.opening, s.writer.Opens cfg c
  listed : ∀ n ∈ s.phase.pending, n ∈ s.dir
  nodup : s.phase.pending.Nodup
  readFirst : s.phase.ReadFirst
  spares : s.phase.Spares canon s.currentPath

section Invariant

variable {cfg : ShardWriterConfig} {cap : ℕ} {κ : Type} [DecidableEq κ] {canon : FileName → κ}
  {s s' : SharedDir κ} {ev : DirEvent} {c : WriteCall}

/-- A call that opens no shard leaves `current_path_` alone. -/
theorem currentPath_onPersist_of_not_opens {w : ShardWriter} (h : ¬ w.Opens cfg c) :
    (onPersist cfg c w).currentPath = w.currentPath := by
  rw [onPersist_eq]
  by_cases hne : c.data.length = 0
  · rw [if_pos hne]
  · rw [if_neg hne, if_neg fun hneeds => h ⟨hne, hneeds⟩]
    rfl

/-- A call that opens a shard leaves its name in `current_path_`. -/
theorem currentPath_onPersist_of_opens {w : ShardWriter} (h : w.Opens cfg c) :
    (onPersist cfg c w).currentPath = w.nameFor c := by
  rw [onPersist_eq, if_neg h.1, if_pos h.2]
  split <;> rfl

/-- What one round of the listing loop adds to the entries. -/
theorem entries_of_listEntry {l l' : Listing} {de : DirEntry} (h : listEntry l de = some l') :
    l'.entries = l.entries ∨ ∃ size, l'.entries = l.entries ++ [⟨de.filename, size⟩] := by
  rw [listEntry] at h
  split at h
  · cases h
  · split at h
    · cases h
      exact .inl rfl
    · cases h
      exact .inl rfl
    · split at h
      · split at h
        · cases h
          exact .inl rfl
        · next size _ =>
          cases h
          exact .inr ⟨size, rfl⟩
      · cases h
        exact .inl rfl

theorem perm_sortEntries (entries : List Entry) : (sortEntries entries).Perm entries :=
  List.perm_insertionSort _ entries

/-- The removal loop does not remove the active shard. -/
theorem ne_of_examine_remove {total : ℕ} {n m : FileName}
    (h : examine cap total (some (canon n)) (some (canon m)) = .remove) : m ≠ n := by
  rintro rfl
  rw [examine] at h
  split at h
  · cases h
  · rw [if_pos ⟨Option.some_ne_none _, Option.some_ne_none _, rfl⟩] at h
    cases h

omit [DecidableEq κ] in
/-- Once a shard is named, its path is the current one, and new to the directory. -/
theorem SweepInv.beginOpen (h : SweepInv cfg canon s) (hopens : s.writer.Opens cfg c)
    (hfresh : s.writer.nameFor c ∉ s.dir) : SweepInv cfg canon { s with opening := some c } := by
  refine ⟨fun c' hc' => ?opens, h.listed, h.nodup, h.readFirst, ?spares⟩
  case opens =>
    cases hc'
    exact hopens
  case spares =>
    have hlisted := h.listed
    show s.phase.Spares canon (s.writer.nameFor c)
    cases hphase : s.phase with
    | removing active rest total =>
      rw [hphase] at hlisted
      exact .inr fun hmem => hfresh (hlisted _ hmem)
    | _ => trivial

omit [DecidableEq κ] in
/-- A step of the writer that keeps the current path and removes no file. -/
theorem SweepInv.writer (h : SweepInv cfg canon s) {w : ShardWriter} {dir : List FileName}
    (hpath : w.currentPath = s.currentPath) (hdir : ∀ n ∈ s.dir, n ∈ dir) :
    SweepInv cfg canon { s with writer := w, opening := none, dir := dir } := by
  refine ⟨fun c' hc' => (by cases hc'), fun n hn => hdir n (h.listed n hn), h.nodup,
    h.readFirst, ?_⟩
  have hspares := h.spares
  rw [← hpath] at hspares
  exact hspares

omit [DecidableEq κ] in
/-- A step of the sweep that removes no file. -/
theorem SweepInv.sweep (h : SweepInv cfg canon s) {phase : SweepPhase κ}
    (hlisted : ∀ n ∈ phase.pending, n ∈ s.dir) (hnodup : phase.pending.Nodup)
    (hread : phase.ReadFirst) (hspares : phase.Spares canon s.currentPath) :
    SweepInv cfg canon { s with phase := phase } :=
  ⟨h.opens, hlisted, hnodup, hread, hspares⟩

omit [DecidableEq κ] in
/-- Reading one entry. -/
theorem SweepInv.readEntry (h : SweepInv cfg canon s) {read : List FileName} {l l' : Listing}
    {name : FileName} {regular : Option Bool} {size : Option ℕ} (hphase : s.phase = .listing read l)
    (hdir : name ∈ s.dir) (hnew : name ∉ read) (hl : listEntry l ⟨name, regular, size⟩ = some l') :
    SweepInv cfg canon { s with phase := .listing (name :: read) l' } := by
  have hlisted := h.listed
  have hnodup := h.nodup
  have hread := h.readFirst
  rw [hphase] at hlisted hnodup hread
  have hsubset : ∀ n ∈ l'.entries.map Entry.filename,
      n ∈ l.entries.map Entry.filename ∨ n = name := by
    intro n hn
    rcases entries_of_listEntry hl with heq | ⟨sz, heq⟩
    · exact .inl (heq ▸ hn)
    · rw [heq, List.map_append, List.mem_append] at hn
      exact hn.imp id List.mem_singleton.mp
  refine h.sweep ?listed ?nodup ?read trivial
  case listed =>
    intro n hn
    rcases hsubset n hn with hn | rfl
    · exact hlisted n hn
    · exact hdir
  case nodup =>
    show (l'.entries.map Entry.filename).Nodup
    rcases entries_of_listEntry hl with heq | ⟨sz, heq⟩
    · rw [heq]
      exact hnodup
    · rw [heq, List.map_append]
      refine List.nodup_append.mpr ⟨hnodup, List.nodup_singleton _, ?_⟩
      intro a ha b hb
      rw [List.mem_singleton.mp hb]
      rintro rfl
      exact hnew (hread _ ha)
  case read =>
    intro n hn
    rcases hsubset n hn with hn | rfl
    · exact List.mem_cons_of_mem name (hread n hn)
    · exact List.mem_cons_self

/-- One round of the removal loop. -/
theorem SweepInv.examineNext (h : SweepInv cfg canon s)
    (hstep : s.step cfg cap canon .examineNext = some s') : SweepInv cfg canon s' := by
  have hlisted := h.listed
  have hnodup := h.nodup
  have hspares := h.spares
  simp only [SharedDir.step] at hstep
  split at hstep
  · cases hstep
    exact h.sweep (fun n hn => (by cases hn)) List.nodup_nil trivial trivial
  · next active e rest total hphase =>
    rw [hphase] at hlisted hnodup hspares
    have htail : ∀ n ∈ rest.map Entry.filename, n ∈ s.dir := fun n hn =>
      hlisted n (List.mem_cons_of_mem _ hn)
    obtain ⟨hhead, hnodup⟩ := List.nodup_cons.mp hnodup
    have hrest : ∀ left, (SweepPhase.removing active rest left).Spares canon s.currentPath :=
      fun _ => hspares.imp id fun hmem hin => hmem (List.mem_cons_of_mem _ hin)
    split at hstep
    · cases hstep
      exact h.sweep (fun n hn => (by cases hn)) List.nodup_nil trivial trivial
    · cases hstep
      exact h.sweep htail hnodup trivial (hrest total)
    · cases hstep
      refine ⟨h.opens, fun n hn => ?_, hnodup, trivial, hrest (subSize total e.size)⟩
      have hne : n ≠ e.filename := fun heq => hhead (heq ▸ hn)
      exact (List.mem_erase_of_ne hne).mpr (htail n hn)
  · cases hstep

/-- Every step with fresh names keeps the invariant. -/
theorem SweepInv.step (h : SweepInv cfg canon s) (hfresh : FreshName s ev)
    (hstep : s.step cfg cap canon ev = some s') : SweepInv cfg canon s' := by
  cases ev with
  | write c =>
    simp only [SharedDir.step] at hstep
    split at hstep
    · next hc =>
      cases hstep
      have hpath : s.currentPath = s.writer.currentPath := by rw [SharedDir.currentPath, hc.1]
      have hkept : (onPersist cfg c s.writer).currentPath = s.currentPath :=
        (currentPath_onPersist_of_not_opens hc.2).trans hpath.symm
      have hinv := h.writer hkept fun _ hn => hn
      rw [← hc.1] at hinv
      exact hinv
    · cases hstep
  | beginOpen c =>
    simp only [SharedDir.step] at hstep
    split at hstep
    · next hc =>
      cases hstep
      exact h.beginOpen hc.2 hfresh.2
    · cases hstep
  | finishOpen =>
    simp only [SharedDir.step] at hstep
    split at hstep
    · next c hc =>
      cases hstep
      have hpath : s.currentPath = s.writer.nameFor c := by rw [SharedDir.currentPath, hc]
      exact h.writer ((currentPath_onPersist_of_opens (h.opens c hc)).trans hpath.symm)
        fun _ hn => List.mem_insert_of_mem hn
    · cases hstep
  | beginSweep =>
    simp only [SharedDir.step] at hstep
    split at hstep
    · cases hstep
      exact h.sweep (fun n hn => (by cases hn)) List.nodup_nil (fun n hn => (by cases hn)) trivial
    · cases hstep
  | readEntry name regular size =>
    simp only [SharedDir.step] at hstep
    split at hstep
    · next read l hphase =>
      split at hstep
      · next hc =>
        obtain ⟨l', hl, rfl⟩ := Option.map_eq_some_iff.mp hstep
        exact h.readEntry hphase hc.1 hc.2 hl
      · cases hstep
    · cases hstep
  | endListing =>
    have hlisted := h.listed
    have hnodup := h.nodup
    simp only [SharedDir.step] at hstep
    split at hstep
    · next read l hphase =>
      cases hstep
      rw [hphase] at hlisted hnodup
      have hperm := (perm_sortEntries l.entries).map Entry.filename
      split
      · exact h.sweep (fun n hn => (by cases hn)) List.nodup_nil trivial trivial
      · exact h.sweep (fun n hn => hlisted n (hperm.mem_iff.mp hn)) (hperm.nodup_iff.mpr hnodup)
          trivial trivial
    · cases hstep
  | fetchActive =>
    have hlisted := h.listed
    have hnodup := h.nodup
    simp only [SharedDir.step] at hstep
    split at hstep
    · next entries total hphase =>
      split at hstep
      · cases hstep
        rw [hphase] at hlisted hnodup
        exact h.sweep hlisted hnodup trivial (.inl rfl)
      · cases hstep
    · cases hstep
  | examineNext => exact h.examineNext hstep

/-- No step removes the file that is current when it removes. -/
theorem SweepInv.removes_ne (h : SweepInv cfg canon s) :
    s.removes cap canon ev ≠ some s.currentPath := by
  cases ev with
  | examineNext =>
    have hspares := h.spares
    simp only [SharedDir.removes]
    split
    · next active e rest total hphase =>
      rw [hphase] at hspares
      split
      · next hremove =>
        intro heq
        have heq : e.filename = s.currentPath := Option.some.inj heq
        rcases hspares with hactive | hmem
        · rw [hactive] at hremove
          exact ne_of_examine_remove hremove heq
        · exact hmem (heq ▸ List.mem_cons_self)
      · exact Option.some_ne_none _ ∘ Eq.symm
    · exact Option.some_ne_none _ ∘ Eq.symm
  | _ => exact Option.some_ne_none _ ∘ Eq.symm

end Invariant

/-- A writer that has been constructed, an evictor that has not swept yet, and a
directory with any files. -/
def SharedDir.initial {κ : Type} (w : ShardWriter) (dir : List FileName) : SharedDir κ :=
  ⟨w, none, dir, .idle⟩

/-- As long as no shard is opened under a name that a file of the directory bears,
no interleaving lets a sweep remove the writer's current shard. -/
theorem sweep_spares_live {κ : Type} [DecidableEq κ] {cfg : ShardWriterConfig} {cap : ℕ}
    {canon : FileName → κ} {w : ShardWriter} {dir : List FileName} {s : SharedDir κ}
    (hreach : Reach (SharedDir.step cfg cap canon) FreshName (.initial w dir) s) (ev : DirEvent) :
    s.removes cap canon ev ≠ some s.currentPath := by
  have hinit : SweepInv cfg canon (SharedDir.initial w dir) :=
    ⟨fun c hc => (by cases hc), fun n hn => (by cases hn), List.nodup_nil, trivial, trivial⟩
  have hinv : SweepInv cfg canon s :=
    hreach.invariant hinit fun _ _ _ h hfresh hstep => h.step hfresh hstep
  exact hinv.removes_ne

/-- A rotation between the sampling of the active path and the removals. -/
def fairSteps : List DirEvent :=
  [.write (cleanCall (List.replicate 12 1)), .beginSweep,
    .readEntry (makeShardName cleanOpening.clock 0) true 60,
    .readEntry (makeShardName cleanOpening.clock 7) true 60, .endListing, .fetchActive,
    .examineNext, .beginOpen (cleanCall [2]), .finishOpen]

theorem sweep_spares_live_rotated : ∃ (w : ShardWriter) (s : SharedDir FileName),
    construct smallConfig cleanOpening = some w ∧
      s.removes 100 id .examineNext = some (makeShardName cleanOpening.clock 7) ∧
      s.currentPath = makeShardName cleanOpening.clock 1 ∧
      s.removes 100 id .examineNext ≠ some s.currentPath := by
  have hrun : ((construct smallConfig cleanOpening).bind fun w =>
      (run (guarded (SharedDir.step smallConfig 100 id) FreshName)
        (.initial w [w.currentPath, makeShardName cleanOpening.clock 7]) fairSteps).map fun s =>
          (s.removes 100 id .examineNext, s.currentPath)) =
      some (some (makeShardName cleanOpening.clock 7), makeShardName cleanOpening.clock 1) := by
    decide +kernel
  obtain ⟨w, h₀, hrun⟩ := Option.bind_eq_some_iff.mp hrun
  obtain ⟨s, hs, hpair⟩ := Option.map_eq_some_iff.mp hrun
  obtain ⟨hremoves, hcurrent⟩ := Prod.mk.inj hpair
  exact ⟨w, s, h₀, hremoves, hcurrent, sweep_spares_live (Reach.of_run_guarded hs) .examineNext⟩

-- ═══════════════════════════════════════════════════════════════════════════
-- A name that comes back
-- ═══════════════════════════════════════════════════════════════════════════

/-- Half past one in the night in which the clocks are set back, for the first and
for the second time: the local times agree. -/
def firstHalfPastOne : ClockReading := ⟨1761438600000000000, ⟨125, 9, 26, 1, 30, 0⟩⟩
def secondHalfPastOne : ClockReading := ⟨1761442200000000000, ⟨125, 9, 26, 1, 30, 0⟩⟩

/-- The second shard of a run before the clocks were set back. -/
def leftoverShard : FileName := makeShardName firstHalfPastOne 1

/-- A frame that fills a shard, and the next one. -/
def fillingCall : WriteCall := cleanCall (List.replicate 12 1)
def rotatingCall : WriteCall :=
  ⟨[2], ⟨secondHalfPastOne, true, 48⟩, 1, le_rfl⟩

/-- The sweep lists the leftover, the writer opens its second shard under the same
name, the sweep goes on. -/
def racingSteps : List DirEvent :=
  [.write fillingCall, .beginSweep, .readEntry (makeShardName cleanOpening.clock 0) true 60,
    .readEntry leftoverShard true 60, .endListing, .fetchActive, .beginOpen rotatingCall,
    .finishOpen, .examineNext]

/-- The file removed after these steps is the one being written. -/
theorem sweep_removes_live :
    ¬ ∀ (cfg : ShardWriterConfig) (cap : ℕ) (canon : FileName → FileName) (o : Opening)
      (w : ShardWriter) (dir : List FileName) (s : SharedDir FileName) (ev : DirEvent),
      construct cfg o = some w →
        Reach (SharedDir.step cfg cap canon) (fun _ ev => ev.NoError) (.initial w dir) s →
          s.removes cap canon ev ≠ some s.currentPath := by
  intro h
  have hrun : ((construct smallConfig cleanOpening).bind fun w =>
      (run (SharedDir.step smallConfig 100 id) (.initial w [w.currentPath, leftoverShard])
        racingSteps).map fun s => (s.removes 100 id .examineNext, some s.currentPath)) =
      some (some leftoverShard, some leftoverShard) := by decide +kernel
  obtain ⟨w, h₀, hrun⟩ := Option.bind_eq_some_iff.mp hrun
  obtain ⟨s, hs, hpair⟩ := Option.map_eq_some_iff.mp hrun
  obtain ⟨hremoves, hcurrent⟩ := Prod.mk.inj hpair
  have hreach := Reach.of_run (p := DirEvent.NoError) hs (by decide)
  exact h _ _ _ _ _ _ s .examineNext h₀ hreach (hremoves.trans hcurrent.symm)

end LoggerHigh
