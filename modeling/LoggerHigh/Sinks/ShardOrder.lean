import LoggerHigh.Sinks.EvictionRunner
import LoggerHigh.Sinks.ShardStamp
import LoggerHigh.Sinks.ShardWriter

/-!
# Order of names and order of opening

The names of the shards of one writer sort in the order of opening exactly when
local time, the milliseconds and the number do not fall back from one opening to
the next.

## Main definitions

- `namesFrom` — the names of a sequence of openings
- `InNameOrder` — sorting by name gives the order of opening
- `SortsLater`, `AllSortLater` — what the next opening, and every one, has to satisfy

## Main results

- `names_in_order_iff` — when the names of one writer are in order
- `paths_run`, `paths_in_order` — the files of a writer have these names
-/

namespace LoggerHigh

open Transition

/-- The names `MakeShardName_` gives, one for each reading of the clock. -/
def namesFrom : ℕ → List ClockReading → List FileName
  | _, [] => []
  | seq, r :: rs => makeShardName r seq :: namesFrom (nextSeq seq) rs

/-- The names increase, so that a sweep or a decoder that sorts them finds the
order of opening, in whatever order the directory is listed. -/
structure InNameOrder (names : List FileName) : Prop where
  increasing : names.Pairwise (· < ·)
  sorted : ∀ entries : List Entry, (entries.map Entry.filename).Perm names →
    (sortEntries entries).map Entry.filename = names

/-- Increasing names are the only sorted list of themselves. -/
theorem InNameOrder.of_pairwise {names : List FileName} (h : names.Pairwise (· < ·)) :
    InNameOrder names where
  increasing := h
  sorted entries hperm := by
    have hsorted : ((sortEntries entries).map Entry.filename).Pairwise (· ≤ ·) :=
      List.pairwise_map.mpr (List.pairwise_insertionSort _ entries)
    have hsame : ((sortEntries entries).map Entry.filename).Perm names :=
      ((List.perm_insertionSort _ entries).map _).trans hperm
    exact hsame.eq_of_pairwise (fun _ _ _ _ hab hba => le_antisymm hab hba) hsorted
      (h.imp fun hlt => le_of_lt hlt)

-- ═══════════════════════════════════════════════════════════════════════════
-- Two openings
-- ═══════════════════════════════════════════════════════════════════════════

/-- The second of local time goes on; or it stays and the milliseconds go on; or
these stay too and the number goes on without another digit. -/
def SortsLater (zone : LocalTimeRule) (seq : ℕ) (now now' : Int64) : Prop :=
  zone.localSecond now < zone.localSecond now' ∨
    zone.localSecond now = zone.localSecond now' ∧
      (millisRank (millisOf now.toInt) < millisRank (millisOf now'.toInt) ∨
        millisOf now.toInt = millisOf now'.toInt ∧ seqAdvances seq)

instance (zone : LocalTimeRule) (seq : ℕ) (now now' : Int64) :
    Decidable (SortsLater zone seq now now') :=
  inferInstanceAs (Decidable (_ ∨ _ ∧ (_ ∨ _ ∧ _)))

theorem natAbs_millisOf_lt (now : ℤ) : (millisOf now).natAbs < 1000 := by
  have hlow := Int.lt_tmod_of_pos (now.tdiv (10 ^ 6)) (b := 1000) (by decide)
  have hhigh := Int.tmod_lt_of_pos (now.tdiv (10 ^ 6)) (b := 1000) (by decide)
  rw [millisOf]
  omega

/-- The name of the next opening is greater exactly when it sorts later. -/
theorem makeShardName_lt_iff (zone : LocalTimeRule) {seq : ℕ} (hseq : seq < 2 ^ 32)
    (now now' : Int64) :
    makeShardName (zone.read now) seq < makeShardName (zone.read now') (nextSeq seq) ↔
      SortsLater zone seq now now' := by
  have hnow := zone.localSecond_lt now
  have hnow' := zone.localSecond_lt now'
  have hlength : (stampText (zone.localSecond now)).length =
      (stampText (zone.localSecond now')).length :=
    (sorts_stamp.length _ hnow).trans (sorts_stamp.length _ hnow').symm
  rw [makeShardName, makeShardName, LocalTimeRule.read, LocalTimeRule.read, shardName_eq,
    shardName_eq, OrderedText.append_lt_append_iff rfl, or_iff_right (List.lt_irrefl _),
    and_iff_right rfl, OrderedText.append_lt_append_iff hlength, sorts_stamp.lt_iff _ hnow _ hnow',
    sorts_stamp.eq_iff hnow hnow', List.cons_lt_cons_self,
    millis_lt_iff (natAbs_millisOf_lt _) (natAbs_millisOf_lt _), seq_lt_iff hseq]
  exact Iff.rfl

-- ═══════════════════════════════════════════════════════════════════════════
-- A sequence of openings
-- ═══════════════════════════════════════════════════════════════════════════

/-- Every opening sorts later than the one before it. -/
def AllSortLater (zone : LocalTimeRule) : ℕ → List Int64 → Prop
  | seq, now :: now' :: readings =>
    SortsLater zone seq now now' ∧ AllSortLater zone (nextSeq seq) (now' :: readings)
  | _, _ => True

theorem isChain_namesFrom_iff (zone : LocalTimeRule) {seq : ℕ} (hseq : seq < 2 ^ 32)
    (readings : List Int64) :
    (namesFrom seq (readings.map zone.read)).IsChain (· < ·) ↔ AllSortLater zone seq readings := by
  induction readings generalizing seq with
  | nil => exact iff_of_true .nil trivial
  | cons now readings ih =>
    cases readings with
    | nil => exact iff_of_true (.singleton _) trivial
    | cons now' readings =>
      have hnext : nextSeq seq < 2 ^ 32 := Nat.mod_lt _ (by decide)
      have htail := ih hnext
      show List.IsChain _ (_ :: _ :: _) ↔ _ ∧ _
      rw [List.isChain_cons_cons, makeShardName_lt_iff zone hseq]
      exact and_congr_right fun _ => htail

/-- For every rule of local time and every sequence of openings of one writer, the
names are in order exactly when every opening sorts later than the one before it. -/
theorem names_in_order_iff (zone : LocalTimeRule) (readings : List Int64) :
    InNameOrder (namesFrom 0 (readings.map zone.read)) ↔ AllSortLater zone 0 readings := by
  rw [← isChain_namesFrom_iff zone (by decide), List.isChain_iff_pairwise]
  exact ⟨InNameOrder.increasing, .of_pairwise⟩

/-- Two hours east of UTC, and one hour from the end of October 25, 2026, 01:00 UTC on. -/
def summerTimeEnds : LocalTimeRule where
  offset t := if t < 1792890000 then 7200 else 3600
  le_offset t := by split <;> decide
  offset_lt t := by split <;> decide

/-- One second before the change and at the change. -/
def changeReadings : List Int64 := [1792889999000000000, 1792890000000000000]

/-- The clock goes on, and the name of the second shard sorts before that of the first. -/
theorem names_fall_back :
    changeReadings.Pairwise (· ≤ ·) ∧
      namesFrom 0 (changeReadings.map summerTimeEnds.read) =
        ["log-20261025-025959-000-0000.bin".toList, "log-20261025-020000-000-0001.bin".toList] ∧
      ¬ InNameOrder (namesFrom 0 (changeReadings.map summerTimeEnds.read)) := by
  have hnames : namesFrom 0 (changeReadings.map summerTimeEnds.read) =
      ["log-20261025-025959-000-0000.bin".toList, "log-20261025-020000-000-0001.bin".toList] := by
    decide +kernel
  refine ⟨by decide, hnames, fun h => ?_⟩
  have hlt := h.increasing
  rw [hnames] at hlt
  revert hlt
  decide

-- ═══════════════════════════════════════════════════════════════════════════
-- The files of a writer
-- ═══════════════════════════════════════════════════════════════════════════

section Writer

variable {cfg : ShardWriterConfig} {s s' : ShardWriter}

/-- The openings the calls of a run attempt. -/
def openingsOf (cfg : ShardWriterConfig) : ShardWriter → List WriteCall → List Opening
  | _, [] => []
  | s, c :: calls =>
    if c.data.length ≠ 0 ∧ s.needsShard cfg c.data.length then
      c.opening :: openingsOf cfg (onPersist cfg c s) calls
    else openingsOf cfg (onPersist cfg c s) calls

/-- The names of the files opened so far. -/
def ShardWriter.paths (s : ShardWriter) : List FileName := s.shards.map Shard.path

theorem paths_appendFrame (c : WriteCall) (s : ShardWriter) :
    (appendFrame c s).paths = s.paths := by
  obtain ⟨closed, file, currentSize, currentPath, seq⟩ := s
  cases file with
  | none => rfl
  | some f => simp only [ShardWriter.paths, ShardWriter.shards, appendFrame, Option.map_some,
      Option.toList_some, List.map_append, List.map_cons, List.map_nil]

/-- An opening adds its name, unless `fopen` fails. -/
theorem paths_reopened (o : Opening) (s : ShardWriter) :
    (s.reopened cfg o).paths =
      s.paths ++ if o.fopenOk then [makeShardName o.clock s.seq] else [] := by
  simp only [ShardWriter.paths, ShardWriter.shards, ShardWriter.reopened]
  cases o.fopenOk with
  | true => simp only [if_true, Option.toList_some, List.map_append, List.map_cons, List.map_nil]
  | false => simp only [Bool.false_eq_true, if_false, Option.toList_none, List.append_nil]

/-- The files a run adds have names of its openings, in their order; a name whose
`fopen` fails is left out. -/
theorem paths_run {calls : List WriteCall} (h : run (writerStep cfg) s calls = some s') :
    ∃ added, s'.paths = s.paths ++ added ∧
      added.Sublist (namesFrom s.seq ((openingsOf cfg s calls).map Opening.clock)) ∧
      ((∀ o ∈ openingsOf cfg s calls, o.fopenOk = true) →
        added = namesFrom s.seq ((openingsOf cfg s calls).map Opening.clock)) := by
  induction calls generalizing s with
  | nil =>
    cases h
    exact ⟨[], (List.append_nil _).symm, .refl _, fun _ => rfl⟩
  | cons c calls ih =>
    obtain ⟨s₁, hstep, hrun⟩ := Option.bind_eq_some_iff.mp h
    obtain ⟨rfl, -⟩ := eq_onPersist_of_step hstep
    obtain ⟨added, hpaths, hsub, hall⟩ := ih hrun
    by_cases hopen : c.data.length ≠ 0 ∧ s.needsShard cfg c.data.length
    · have hcall : onPersist cfg c s = if c.opening.Complete then
          appendFrame c (s.reopened cfg c.opening) else s.reopened cfg c.opening := by
        rw [onPersist_eq, if_neg hopen.1, if_pos hopen.2]
      have hseq : (onPersist cfg c s).seq = nextSeq s.seq := by
        rw [hcall]
        split <;> rfl
      have hfirst : (onPersist cfg c s).paths =
          s.paths ++ if c.opening.fopenOk then [makeShardName c.opening.clock s.seq] else [] := by
        have hreopened : (s.reopened cfg c.opening).paths = _ := paths_reopened c.opening s
        rw [hcall, ← hreopened]
        split
        · exact paths_appendFrame _ _
        · rfl
      rw [openingsOf, if_pos hopen, List.map_cons, namesFrom]
      rw [hseq] at hsub hall
      rw [hpaths, hfirst, List.append_assoc]
      refine ⟨_, rfl, ?_, fun hok => ?_⟩
      · cases c.opening.fopenOk with
        | true => exact hsub.cons_cons _
        | false => exact hsub.cons _
      · rw [hok _ List.mem_cons_self, hall fun o ho => hok o (List.mem_cons_of_mem _ ho)]
        rfl
    · have hcall : (onPersist cfg c s).paths = s.paths ∧ (onPersist cfg c s).seq = s.seq := by
        rw [onPersist_eq]
        by_cases hempty : c.data.length = 0
        · rw [if_pos hempty]
          exact ⟨rfl, rfl⟩
        · rw [if_neg hempty, if_neg fun hneeds => hopen ⟨hempty, hneeds⟩]
          exact ⟨paths_appendFrame _ _, rfl⟩
      rw [openingsOf, if_neg hopen]
      rw [hcall.2] at hsub hall
      rw [hpaths, hcall.1]
      exact ⟨added, rfl, hsub, hall⟩

/-- The files of a writer are in the order of their names when every opening sorts
later than the one before it. -/
theorem paths_in_order {zone : LocalTimeRule} {readings : List Int64} {o : Opening}
    {calls : List WriteCall} (h₀ : construct cfg o = some s)
    (h : run (writerStep cfg) s calls = some s')
    (hclock : (o :: openingsOf cfg s calls).map Opening.clock = readings.map zone.read)
    (hlater : AllSortLater zone 0 readings) : InNameOrder s'.paths := by
  obtain ⟨ho, rfl⟩ := eq_reopened_of_construct h₀
  obtain ⟨added, hpaths, hsub, -⟩ := paths_run h
  have hchain := (isChain_namesFrom_iff zone (by decide) readings).mpr hlater
  rw [← hclock, List.isChain_iff_pairwise] at hchain
  refine .of_pairwise (hchain.sublist ?_)
  rw [hpaths, paths_reopened, ho.1]
  exact hsub.cons_cons _

end Writer

end LoggerHigh
