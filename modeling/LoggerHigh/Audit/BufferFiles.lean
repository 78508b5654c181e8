import LoggerHigh.Audit.ShardDirectory
import LoggerHigh.Sinks.EvictionRace
import LoggerHigh.Sinks.EvictionSweep

/-!
# Buffer files among the shards

A sink maps its buffers from files in the directory of its shards
(`MmapStore::BuildBufferPath_`). Neither the eviction runner nor the reader
takes one of them for a shard, and no two buffers of a store share one.

## Main definitions

- `bufferName` — `BuildBufferPath_` without the directory

## Main results

- `others_kept` — sweeps remove nothing but shards
- `buffer_files_kept` — what becomes of the buffer files in a run
- `decodeShardDir_without_buffers` — the reader passes over them
-/

namespace LoggerHigh

open SortByKey Transition Trim

/-- `snprintf(name, 64, "buffer-%06llu.mmap", seq)`, which cuts the text to 63 characters. -/
def bufferName (seq : ℕ) : FileName :=
  (['b', 'u', 'f', 'f', 'e', 'r', '-'] ++ padDigits 6 seq ++ ['.', 'm', 'm', 'a', 'p']).take 63

/-- A 64-bit number fits. -/
theorem bufferName_eq {seq : ℕ} (h : seq < 2 ^ 64) : bufferName seq =
    ['b', 'u', 'f', 'f', 'e', 'r', '-'] ++ padDigits 6 seq ++ ['.', 'm', 'm', 'a', 'p'] := by
  have hdigits : (Nat.toDigits 10 seq).length ≤ 20 :=
    (Nat.length_toDigits_le_iff (by decide) (by decide)).mpr (by omega)
  have hlength := length_padDigits 6 seq
  refine List.take_of_length_le ?_
  simp only [List.length_append, List.length_cons, List.length_nil]
  omega

/-- Two buffers of a store have different files. -/
theorem bufferName_inj {seq seq' : ℕ} (h : seq < 2 ^ 64) (h' : seq' < 2 ^ 64) :
    bufferName seq = bufferName seq' ↔ seq = seq' := by
  rw [bufferName_eq h, bufferName_eq h', List.append_cancel_right_eq, List.append_cancel_left_eq,
    padDigits_inj]

/-- The file of a buffer has not the name of a shard. -/
theorem looksLikeShard_bufferName (seq : ℕ) : looksLikeShard (bufferName seq) = false := by
  simp [looksLikeShard, bufferName]

-- ═══════════════════════════════════════════════════════════════════════════
-- The eviction runner
-- ═══════════════════════════════════════════════════════════════════════════

section Sweeps

variable {cfg : ShardWriterConfig} {cap : ℕ} {κ : Type} [DecidableEq κ] {canon : FileName → κ}
  {s s' : SharedDir κ} {ev : DirEvent} {name : FileName} {w : ShardWriter} {dir : List FileName}

/-- The sweep has listed only shards, and a file is in the directory. -/
structure KeptInv (name : FileName) (s : SharedDir κ) : Prop where
  shards : ∀ n ∈ s.phase.pending, looksLikeShard n = true
  mem : name ∈ s.dir

/-- A round of the listing loop lists only shards. -/
theorem looksLikeShard_of_listEntry {l l' : Listing} {de : DirEntry}
    (h : listEntry l de = some l')
    (hl : ∀ n ∈ l.entries.map Entry.filename, looksLikeShard n = true) :
    ∀ n ∈ l'.entries.map Entry.filename, looksLikeShard n = true := by
  obtain ⟨entries, total, ec⟩ := l
  cases ec with
  | true => rw [listEntry_of_ec rfl] at h; cases h
  | false =>
    rw [listEntry_eq rfl] at h
    cases h
    intro n hn
    rw [List.map_append, List.mem_append] at hn
    rcases hn with hn | hn
    · exact hl n hn
    · obtain ⟨e, he, rfl⟩ := List.mem_map.mp hn
      have hmem : e ∈ shardEntries [de] := by simpa [shardEntries] using he
      exact looksLikeShard_of_mem hmem

/-- Every step keeps the invariant of a file that is not a shard. -/
theorem KeptInv.step (hname : looksLikeShard name = false) (h : KeptInv name s)
    (hstep : s.step cfg cap canon ev = some s') : KeptInv name s' := by
  have hshards := h.shards
  cases ev with
  | write c | beginOpen c =>
    simp only [SharedDir.step] at hstep
    split at hstep <;> cases hstep
    exact ⟨hshards, h.mem⟩
  | finishOpen =>
    simp only [SharedDir.step] at hstep
    split at hstep <;> cases hstep
    exact ⟨hshards, List.mem_insert_of_mem h.mem⟩
  | beginSweep =>
    simp only [SharedDir.step] at hstep
    split at hstep <;> cases hstep
    exact ⟨by simp [SweepPhase.pending, Listing.empty], h.mem⟩
  | readEntry n regular size =>
    simp only [SharedDir.step] at hstep
    split at hstep
    case h_2 => cases hstep
    case h_1 read l hphase =>
      split at hstep
      case isFalse => cases hstep
      case isTrue =>
        obtain ⟨l', hl', rfl⟩ := Option.map_eq_some_iff.mp hstep
        rw [hphase] at hshards
        exact ⟨looksLikeShard_of_listEntry hl' hshards, h.mem⟩
  | endListing =>
    simp only [SharedDir.step] at hstep
    split at hstep
    case h_2 => cases hstep
    case h_1 read l hphase =>
      cases hstep
      rw [hphase] at hshards
      refine ⟨?_, h.mem⟩
      dsimp only
      split
      · simp [SweepPhase.pending]
      · intro n hn
        exact hshards n ((List.perm_insertionSort _ _).map _ |>.mem_iff.mp hn)
  | fetchActive =>
    simp only [SharedDir.step] at hstep
    split at hstep
    case h_2 => cases hstep
    case h_1 entries total hphase =>
      split at hstep <;> cases hstep
      rw [hphase] at hshards
      exact ⟨hshards, h.mem⟩
  | examineNext =>
    simp only [SharedDir.step] at hstep
    split at hstep
    case h_3 => cases hstep
    case h_1 =>
      cases hstep
      exact ⟨by simp [SweepPhase.pending], h.mem⟩
    case h_2 active e rest total hphase =>
      rw [hphase] at hshards
      obtain ⟨he, hrest⟩ := List.forall_mem_cons.mp hshards
      split at hstep <;> cases hstep
      · exact ⟨by simp [SweepPhase.pending], h.mem⟩
      · exact ⟨hrest, h.mem⟩
      · -- The file that is removed is a shard.
        have hne : name ≠ e.filename := by
          rintro rfl
          rw [hname] at he
          cases he
        exact ⟨hrest, (List.mem_erase_of_ne hne).mpr h.mem⟩

/-- Whatever the writer and the sweeps do, a file that has not the name of a shard stays. -/
theorem others_kept {ok : SharedDir κ → DirEvent → Prop} (hname : looksLikeShard name = false)
    (hmem : name ∈ dir) (hr : Reach (SharedDir.step cfg cap canon) ok (.initial w dir) s) :
    name ∈ s.dir := by
  have h₀ : KeptInv name (.initial w dir : SharedDir κ) := ⟨nofun, hmem⟩
  exact (hr.invariant h₀ fun _ _ _ h _ hstep => h.step hname hstep).mem

/-- Whatever fails in a sweep, it removes only shards. -/
theorem looksLikeShard_of_swept {answers : SweepAnswers κ} {e : Entry}
    (h : e ∈ sweepOnce cap answers) : looksLikeShard e.filename = true := by
  rw [sweepOnce_eq] at h
  split at h
  · have hmem := List.mem_of_mem_filter ((isShortest_taken _ _).isPrefix.subset h)
    exact looksLikeShard_of_mem (answers.perm_sorted.mem_iff.mp hmem)
  · cases h

/-- In every run of a writer, whatever fails in it, and of sweeps over its directory the file
of a buffer stays in the directory; it is not among the files that a sweep removes in which
anything fails either. No shard is opened under its name, and no other buffer has it. -/
theorem buffer_files_kept {seq : ℕ} (hseq : seq < 2 ^ 64) (hmem : bufferName seq ∈ dir)
    (hr : Reach (SharedDir.step cfg cap canon) (fun _ _ => True) (.initial w dir) s) :
    bufferName seq ∈ s.dir ∧
      (∀ answers : SweepAnswers κ, ∀ e ∈ sweepOnce cap answers, e.filename ≠ bufferName seq) ∧
      (∀ c, s.writer.nameFor c ≠ bufferName seq) ∧
      ∀ seq' < 2 ^ 64, bufferName seq' = bufferName seq → seq' = seq := by
  have hne : ∀ {n}, looksLikeShard n = true → n ≠ bufferName seq := by
    rintro n hn rfl
    rw [looksLikeShard_bufferName] at hn
    cases hn
  refine ⟨others_kept (looksLikeShard_bufferName seq) hmem hr,
    fun answers e he => hne (looksLikeShard_of_swept he),
    fun c => hne (looksLikeShard_makeShardName c.opening.clock s.writer.seq),
    fun seq' hseq' => (bufferName_inj hseq' hseq).mp⟩

/-- A sweep lists a buffer and two shards and removes one of these. -/
def sweptSteps : List DirEvent :=
  [.write fillingCall, .beginSweep, .readEntry (bufferName 3) true 4096,
    .readEntry (makeShardName cleanOpening.clock 0) true 60, .readEntry leftoverShard true 60,
    .endListing, .fetchActive, .examineNext, .examineNext]

theorem buffer_files_kept_swept : ∃ (w : ShardWriter) (s : SharedDir FileName),
    construct smallConfig cleanOpening = some w ∧
      run (SharedDir.step smallConfig 100 id)
        (.initial w [w.currentPath, leftoverShard, bufferName 3]) sweptSteps = some s ∧
      bufferName 3 ∈ s.dir := by
  have hrun : ((construct smallConfig cleanOpening).bind fun w =>
      run (SharedDir.step smallConfig 100 id)
        (.initial w [w.currentPath, leftoverShard, bufferName 3]) sweptSteps).isSome := by
    decide +kernel
  obtain ⟨s, hs⟩ := Option.isSome_iff_exists.mp hrun
  obtain ⟨w, h₀, hs⟩ := Option.bind_eq_some_iff.mp hs
  have hreach := Reach.of_run (p := fun _ => True) hs fun _ _ => trivial
  exact ⟨w, s, h₀, hs, (buffer_files_kept (by decide) (by simp) hreach).1⟩

end Sweeps

-- ═══════════════════════════════════════════════════════════════════════════
-- The reader
-- ═══════════════════════════════════════════════════════════════════════════

/-- The reader passes over the files of buffers. -/
theorem decodeShardDir_without_buffers {ρ : Type} {deps : AuditDeps ρ} {dir dir' : AuditDir}
    {entries : List AuditEntry} {seqs : List ℕ} {serverPriv : Bytes} {fuel : ℕ}
    (h : dir.Lists entries)
    (h' : dir'.Lists (entries.filter fun de => de.filename ∉ seqs.map bufferName))
    (hpath : dir'.path = dir.path)
    (hnodup : ((entries.filter AuditEntry.isShard).map AuditEntry.filename).Nodup) :
    decodeShardDir deps dir' serverPriv fuel = decodeShardDir deps dir serverPriv fuel := by
  refine decodeShardDir_listing h h' hpath hnodup (.of_eq ?_)
  rw [List.filter_filter]
  refine List.filter_congr fun de _ => ?_
  by_cases hshard : de.isShard = true
  · have hnot : de.filename ∉ seqs.map bufferName := by
      intro hmem
      obtain ⟨seq, -, heq⟩ := List.mem_map.mp hmem
      have hname : isShardFilename de.filename = true := by
        rw [AuditEntry.isShard] at hshard
        split at hshard
        case h_1 => exact hshard
        all_goals cases hshard
      rw [isShardFilename_eq, ← heq, looksLikeShard_bufferName] at hname
      cases hname
    rw [decide_eq_true hnot, hshard]
    rfl
  · rw [Bool.eq_false_iff.mpr hshard, Bool.false_and]

end LoggerHigh
