import LoggerHigh.Audit.ShardReader
import LoggerHigh.Sinks.ShardOrder
import LoggerHigh.Sinks.ShardPacking

/-!
# A writer opens no file twice

The number of the opening is the last field of a name and is shown in full, so two
openings have different names whatever the clock reads.

## Main definitions

- `namesMade` — the names of all openings of a run, failed ones included
- `ShardWriter.inDirectory` — what the directory holds under a name

## Main results

- `makeShardName_inj` — a name determines the number of its opening
- `looksLikeShard_makeShardName` — the filters take every name
- `own_shards_kept` — the files of a run keep their content
-/

namespace LoggerHigh

open OrderedText Transition

-- ═══════════════════════════════════════════════════════════════════════════
-- One name
-- ═══════════════════════════════════════════════════════════════════════════

theorem dash_notMem_padDigits (w n : ℕ) : '-' ∉ padDigits w n := fun hmem =>
  digit_ne_dash (isDigits_padDigits w n '-' hmem) rfl

/-- A name is something before its last separator, the number, and the suffix. -/
theorem makeShardName_eq (r : ClockReading) (seq : ℕ) :
    ∃ front, makeShardName r seq =
      'l' :: 'o' :: 'g' :: '-' :: front ++ '-' :: padDigits 4 seq ++ ['.', 'b', 'i', 'n'] := by
  refine ⟨formatInt 4 (r.tmv.tmYear + 1900) ++ formatInt 2 (r.tmv.tmMon + 1) ++
    formatInt 2 r.tmv.tmMday ++ ['-'] ++ formatInt 2 r.tmv.tmHour ++ formatInt 2 r.tmv.tmMin ++
    formatInt 2 r.tmv.tmSec ++ ['-'] ++ formatInt 3 (millisOf r.now), ?_⟩
  simp only [makeShardName, shardName, List.append_assoc, List.cons_append, List.nil_append]

/-- Two readings of the clock give the same name only at the same value of `seq_`. -/
theorem makeShardName_inj {r r' : ClockReading} {seq seq' : ℕ}
    (h : makeShardName r seq = makeShardName r' seq') : seq = seq' := by
  obtain ⟨front, hfront⟩ := makeShardName_eq r seq
  obtain ⟨front', hfront'⟩ := makeShardName_eq r' seq'
  rw [hfront, hfront'] at h
  have hfield : padDigits 4 seq = padDigits 4 seq' :=
    last_field_inj (List.append_cancel_right h) (dash_notMem_padDigits 4 seq)
      (dash_notMem_padDigits 4 seq')
  exact padDigits_inj.mp hfield

/-- The filter of the evictor takes every name. -/
theorem looksLikeShard_makeShardName (r : ClockReading) (seq : ℕ) :
    looksLikeShard (makeShardName r seq) = true := by
  obtain ⟨front, hfront⟩ := makeShardName_eq r seq
  have hlength : (makeShardName r seq).length =
      (4 + (front ++ '-' :: padDigits 4 seq).length) + 4 := by
    rw [hfront]
    simp
    omega
  have hsuffix : (makeShardName r seq).drop ((makeShardName r seq).length - 4) =
      ['.', 'b', 'i', 'n'] := by
    rw [hlength, Nat.add_sub_cancel, hfront]
    apply List.drop_left'
    simp
    omega
  have hprefix : (makeShardName r seq).take 4 = ['l', 'o', 'g', '-'] := by
    rw [hfront]
    rfl
  have hlong : 8 < (makeShardName r seq).length := by
    rw [hlength, List.length_append, List.length_cons]
    omega
  simp [looksLikeShard, hsuffix, hprefix, hlong]

/-- The evictor and the reader have the same filter. -/
theorem isShardFilename_eq (name : FileName) : isShardFilename name = looksLikeShard name := rfl

-- ═══════════════════════════════════════════════════════════════════════════
-- The names of a run
-- ═══════════════════════════════════════════════════════════════════════════

/-- Below the largest value of `seq_` the openings take consecutive numbers. -/
theorem exists_of_mem_namesFrom {seq : ℕ} {readings : List ClockReading} {name : FileName}
    (hfew : seq + readings.length ≤ 2 ^ 32) (h : name ∈ namesFrom seq readings) :
    ∃ r k, seq ≤ k ∧ name = makeShardName r k := by
  induction readings generalizing seq with
  | nil => cases h
  | cons r readings ih =>
    rw [List.length_cons] at hfew
    rcases List.mem_cons.mp h with rfl | htail
    · exact ⟨r, seq, Nat.le_refl _, rfl⟩
    · cases readings with
      | nil => cases htail
      | cons r' readings =>
        rw [List.length_cons] at hfew ih
        have hnext : nextSeq seq = seq + 1 := Nat.mod_eq_of_lt (by omega)
        rw [hnext] at htail
        obtain ⟨r'', k, hle, hname⟩ := ih (by omega) htail
        exact ⟨r'', k, by omega, hname⟩

theorem nodup_namesFrom {seq : ℕ} {readings : List ClockReading}
    (hfew : seq + readings.length ≤ 2 ^ 32) : (namesFrom seq readings).Nodup := by
  induction readings generalizing seq with
  | nil => exact .nil
  | cons r readings ih =>
    rw [List.length_cons] at hfew
    cases readings with
    | nil => exact List.nodup_singleton _
    | cons r' readings =>
      rw [List.length_cons] at hfew ih
      have hnext : nextSeq seq = seq + 1 := Nat.mod_eq_of_lt (by omega)
      have hlater : seq + 1 + (readings.length + 1) ≤ 2 ^ 32 := by omega
      rw [namesFrom, hnext]
      refine List.nodup_cons.mpr ⟨fun hmem => ?_, ih hlater⟩
      obtain ⟨r'', k, hle, hname⟩ := exists_of_mem_namesFrom hlater hmem
      have hseq := makeShardName_inj hname
      omega

section Writer

variable {cfg : ShardWriterConfig} {s s' : ShardWriter} {o : Opening} {calls : List WriteCall}

/-- The names `MakeShardName_` produces in a run of an object constructed with the
opening `o`; those whose `fopen` or header write fails are among them. -/
def namesMade (cfg : ShardWriterConfig) (s : ShardWriter) (o : Opening) (calls : List WriteCall) :
    List FileName :=
  namesFrom 0 ((o :: openingsOf cfg s calls).map Opening.clock)

/-- What the directory holds under a name: `fopen` with mode `wb` leaves nothing of
a file that was opened under it before. -/
def ShardWriter.inDirectory (s : ShardWriter) (name : FileName) : Option Bytes :=
  (s.shards.reverse.find? fun f => f.path = name).map Shard.bytes

theorem find_path {files : List Shard} {f : Shard} (hnodup : (files.map Shard.path).Nodup)
    (hf : f ∈ files) : (files.find? fun g => g.path = f.path) = some f := by
  induction files with
  | nil => cases hf
  | cons g files ih =>
    obtain ⟨hg, hfiles⟩ := List.nodup_cons.mp hnodup
    rcases List.mem_cons.mp hf with rfl | htail
    · exact List.find?_cons_of_pos (decide_eq_true rfl)
    · have hne : g.path ≠ f.path := fun heq => hg (heq ▸ List.mem_map_of_mem htail)
      rw [List.find?_cons_of_neg (by simpa using hne)]
      exact ih hfiles htail

/-- Files with different names all keep their content. -/
theorem inDirectory_of_nodup {f : Shard} (hnodup : s.paths.Nodup) (hf : f ∈ s.shards) :
    s.inDirectory f.path = some f.bytes := by
  have hreverse : (s.shards.reverse.map Shard.path).Nodup := by
    rw [List.map_reverse]
    exact List.nodup_reverse.mpr hnodup
  rw [ShardWriter.inDirectory, find_path hreverse (List.mem_reverse.mpr hf), Option.map_some]

/-- The files of a run have names among those made, in the same order. -/
theorem paths_sublist_namesMade (h₀ : construct cfg o = some s)
    (h : run (writerStep cfg) s calls = some s') : s'.paths.Sublist (namesMade cfg s o calls) := by
  obtain ⟨ho, rfl⟩ := eq_reopened_of_construct h₀
  obtain ⟨added, hpaths, hsub, -⟩ := paths_run h
  rw [hpaths, paths_reopened, ho.1]
  exact hsub.cons_cons _

theorem nodup_namesMade (hfew : (o :: openingsOf cfg s calls).length < 2 ^ 32) :
    (namesMade cfg s o calls).Nodup := by
  refine nodup_namesFrom ?_
  rw [Nat.zero_add, List.length_map]
  exact Nat.le_of_lt hfew

/-- With fewer than `2 ^ 32` openings no opening empties a file of the writer. -/
theorem inDirectory_run (h₀ : construct cfg o = some s) (h : run (writerStep cfg) s calls = some s')
    (hfew : (o :: openingsOf cfg s calls).length < 2 ^ 32) {f : Shard} (hf : f ∈ s'.shards) :
    s'.inDirectory f.path = some f.bytes :=
  inDirectory_of_nodup ((nodup_namesMade hfew).sublist (paths_sublist_namesMade h₀ h)) hf

/-- In every run with fewer than `2 ^ 32` openings, whatever the clock reads: the names
are pairwise distinct, the evictor and the reader take each of them for a shard, and
no opening empties a file of the writer. -/
theorem own_shards_kept (h₀ : construct cfg o = some s)
    (h : run (writerStep cfg) s calls = some s')
    (hfew : (o :: openingsOf cfg s calls).length < 2 ^ 32) :
    (namesMade cfg s o calls).Nodup ∧
      (∀ name ∈ namesMade cfg s o calls,
        looksLikeShard name = true ∧ isShardFilename name = true) ∧
      s'.paths.Sublist (namesMade cfg s o calls) ∧
      ∀ f ∈ s'.shards, s'.inDirectory f.path = some f.bytes := by
  refine ⟨nodup_namesMade hfew, fun name hname => ?_, paths_sublist_namesMade h₀ h,
    fun f hf => inDirectory_run h₀ h hfew hf⟩
  have hlength : 0 + ((o :: openingsOf cfg s calls).map Opening.clock).length ≤ 2 ^ 32 := by
    rw [Nat.zero_add, List.length_map]
    exact Nat.le_of_lt hfew
  obtain ⟨r, k, -, rfl⟩ := exists_of_mem_namesFrom hlength hname
  exact ⟨looksLikeShard_makeShardName r k, looksLikeShard_makeShardName r k⟩

end Writer

/-- One second later than the clock of `cleanOpening`. -/
def laterOpening : Opening := ⟨⟨1000000000, ⟨70, 0, 1, 0, 0, 1⟩⟩, true, 48⟩

/-- The first opening fails, and the next one reads a clock that was set back. -/
def setBackCalls : List WriteCall :=
  [cleanCall (List.replicate 12 1), ⟨[2], { laterOpening with fopenOk := false }, 0, Nat.zero_le _⟩,
    cleanCall [3]]

theorem own_shards_kept_set_back :
    ∃ s s', construct smallConfig laterOpening = some s ∧
      run (writerStep smallConfig) s setBackCalls = some s' ∧
      namesMade smallConfig s laterOpening setBackCalls =
        ["log-19700101-000001-000-0000.bin".toList, "log-19700101-000001-000-0001.bin".toList,
          "log-19700101-000000-000-0002.bin".toList] ∧
      (namesMade smallConfig s laterOpening setBackCalls).Nodup ∧
      ∀ f ∈ s'.shards, s'.inDirectory f.path = some f.bytes := by
  have h₀ : construct smallConfig laterOpening =
      some (.reopened smallConfig laterOpening .initial) := by
    rw [construct_eq, if_pos (by decide)]
  have hrun : (run (writerStep smallConfig) (.reopened smallConfig laterOpening .initial)
      setBackCalls).isSome := by decide +kernel
  obtain ⟨s', hs'⟩ := Option.isSome_iff_exists.mp hrun
  have hkept := own_shards_kept h₀ hs' (by decide +kernel)
  exact ⟨_, s', h₀, hs', by decide +kernel, hkept.1, hkept.2.2.2⟩

end LoggerHigh
