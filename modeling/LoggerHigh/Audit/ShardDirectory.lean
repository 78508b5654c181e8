import LoggerHigh.Audit.KeptRecords
import LoggerHigh.Audit.LogDecoder
import LoggerHigh.Lib.SortByKey
import LoggerHigh.Sinks.ShardDistinct
import LoggerHigh.Sinks.ShardOrder

/-!
# A directory of shards, and the decoder's command line

`DecodeShardDir` of `audit/shard_reader.cpp`, and `examples/log_decoder.cpp`: the shards
of a directory are decoded in the order of their names, and all records are printed, or
nothing is.

## Main definitions

- `AuditDir`, `decodeShardDir` — a directory as the reader finds it, and the function
- `DecoderFiles`, `logDecoder` — what the program finds, and `main`

## Main results

- `decodeEntries_cases` — all files are decoded, or the first one that is not is reported
- `decodeShardDir_listing` — in what order the directory is listed does not matter, nor what
  else is in it
- `logDecoder_json_directory` — everything is printed, one record a line, or nothing
- `audit_directory` — what is read from the directory of a sink
-/

namespace LoggerHigh

open SortByKey Transition

-- ═══════════════════════════════════════════════════════════════════════════
-- DecodeShardDir
-- ═══════════════════════════════════════════════════════════════════════════

/-- An entry of a directory: `is_regular_file` may throw, and `content` is `none` when the
file cannot be opened. -/
structure AuditEntry where
  filename : FileName
  isRegularFile : Except String Bool
  content : Option Bytes
  deriving DecidableEq

/-- A directory as `DecodeShardDir` finds it: `exists(dir) && is_directory(dir)`, and the
entries the iterator comes to, which may throw instead. -/
structure AuditDir where
  path : String
  isDirectory : Except String Bool
  listing : List (Except String AuditEntry)

/-- `de.path()` -/
def AuditDir.pathOf (dir : AuditDir) (de : AuditEntry) : String :=
  dir.path ++ "/" ++ String.ofList de.filename

/-- One round of the listing loop. -/
def collectShard (shards : List AuditEntry) (de : Except String AuditEntry) :
    Except String (List AuditEntry) :=
  match de with
  | .error what => .error what
  | .ok de =>
    match de.isRegularFile with
    | .error what => .error what
    | .ok false => .ok shards
    | .ok true => if isShardFilename de.filename then .ok (shards ++ [de]) else .ok shards

section Decode

variable {ρ : Type} (deps : AuditDeps ρ)

/-- The loop over the sorted shards. -/
def decodeEntries (dir : AuditDir) (serverPriv : Bytes) (fuel : ℕ) :
    List AuditEntry → List ρ → Option (Except String (List ρ))
  | [], out => some (.ok out)
  | de :: shards, out =>
    match decodeShardFile deps (dir.pathOf de) de.content serverPriv fuel with
    | none => none
    | some (.error what) => some (.error what)
    | some (.ok recs) => decodeEntries dir serverPriv fuel shards (out ++ recs)

/-- `DecodeShardDir` -/
def decodeShardDir (dir : AuditDir) (serverPriv : Bytes) (fuel : ℕ) :
    Option (Except String (List ρ)) :=
  match dir.isDirectory with
  | .error what => some (.error what)
  | .ok false => some (.error ("audit: not a directory: " ++ dir.path))
  | .ok true =>
    match dir.listing.foldlM collectShard [] with
    | .error what => some (.error what)
    | .ok shards => decodeEntries deps dir serverPriv fuel (sortBy AuditEntry.filename shards) []

end Decode

-- ═══════════════════════════════════════════════════════════════════════════
-- The command line
-- ═══════════════════════════════════════════════════════════════════════════

/-- What the program finds: what `exists`, `is_directory` and `is_regular_file` say of the
target, the target as a directory and as a file, and the file of the key. -/
structure DecoderFiles where
  targetExists : Except String Bool
  targetIsDirectory : Except String Bool
  targetIsRegularFile : Except String Bool
  dir : AuditDir
  content : Option Bytes
  key : Option Bytes

/-- What the program leaves: its two outputs and its exit code. -/
structure DecoderOutcome where
  stdout : Bytes
  stderr : String
  exitCode : ℕ
  deriving DecidableEq

/-- `PrintUsage` -/
def printUsage (argv0 : String) : String :=
  "Usage: " ++ argv0 ++ " <shard_file_or_dir> <server_priv.key> [--json]\n"

/-- `ReadPrivKey` -/
def readPrivKey (path : String) (file : Option Bytes) : Except String Bytes :=
  match file with
  | none => .error ("cannot open private key file: " ++ path)
  | some raw =>
    if raw.length ≠ kServerPrivBytes then
      .error ("server private key must be exactly 32 bytes (got " ++ toString raw.length ++ ")")
    else .ok raw

/-- `PrintRecordText`: what is written to the standard output. -/
def printRecordText (r : LogRecord) : Bytes :=
  let out := text "[" ++ formatTimeIso r.timeNs ++ text "] [" ++ levelName r.level ++ text "] [" ++
    r.loggerName ++ text "] (" ++ stdToString r.pid.toNat ++ text ":" ++ stdToString r.tid.toNat ++
    text ") "
  let out :=
    if r.file ≠ [] then
      let out := out ++ text "(" ++ r.file ++ text ":" ++ stdToString r.line.toNat
      let out := if r.func ≠ [] then out ++ text " " ++ r.func else out
      out ++ text ") "
    else out
  out ++ r.message ++ text "\n"

section Main

variable (deps : AuditDeps LogRecord)

/-- The `try` block of `main` up to the loop that prints. -/
def decodeTarget (target keyPath : String) (files : DecoderFiles) (fuel : ℕ) :
    Option (Except String (List LogRecord)) :=
  match files.targetExists with
  | .error what => some (.error what)
  | .ok false => some (.error ("path does not exist: " ++ target))
  | .ok true =>
    match readPrivKey keyPath files.key with
    | .error what => some (.error what)
    | .ok priv =>
      match files.targetIsDirectory with
      | .error what => some (.error what)
      | .ok true => decodeShardDir deps files.dir priv fuel
      | .ok false =>
        match files.targetIsRegularFile with
        | .error what => some (.error what)
        | .ok true => decodeShardFile deps target files.content priv fuel
        | .ok false => some (.error ("target is neither file nor directory: " ++ target))

/-- `main` behind the look at its arguments. -/
def decodeAndPrint (target keyPath : String) (jsonMode : Bool) (files : DecoderFiles) (fuel : ℕ) :
    Option DecoderOutcome :=
  match decodeTarget deps target keyPath files fuel with
  | none => none
  | some (.error what) => some ⟨[], "log_decoder: " ++ what ++ "\n", 1⟩
  | some (.ok records) =>
    some ⟨records.flatMap (if jsonMode then printRecordJson else printRecordText),
      "decoded " ++ toString records.length ++ " record(s)\n", 0⟩

/-- `main`; `none` when decoding a frame does not end. -/
def logDecoder (argv : List String) (files : DecoderFiles) (fuel : ℕ) : Option DecoderOutcome :=
  match argv with
  | [_, target, keyPath] => decodeAndPrint deps target keyPath false files fuel
  | [argv0, target, keyPath, flag] =>
    if flag = "--json" then decodeAndPrint deps target keyPath true files fuel
    else some ⟨[], "unknown flag: " ++ flag ++ "\n" ++ printUsage argv0, 1⟩
  | _ => some ⟨[], printUsage (argv.headD "(null)"), 1⟩

end Main

-- ═══════════════════════════════════════════════════════════════════════════
-- What is decoded
-- ═══════════════════════════════════════════════════════════════════════════

/-- A regular file with the name of a shard. -/
def AuditEntry.isShard (de : AuditEntry) : Bool :=
  match de.isRegularFile with
  | .ok true => isShardFilename de.filename
  | .ok false | .error _ => false

/-- The iterator comes to these entries, and none of their types is unknown. -/
structure AuditDir.Lists (dir : AuditDir) (entries : List AuditEntry) : Prop where
  isDirectory : dir.isDirectory = .ok true
  listing : dir.listing = entries.map .ok
  typed : ∀ de ∈ entries, ∃ regular, de.isRegularFile = .ok regular

theorem foldlM_collectShard {entries : List AuditEntry}
    (h : ∀ de ∈ entries, ∃ regular, de.isRegularFile = .ok regular) (shards : List AuditEntry) :
    (entries.map Except.ok).foldlM collectShard shards =
      .ok (shards ++ entries.filter AuditEntry.isShard) := by
  induction entries generalizing shards with
  | nil =>
    rw [List.filter_nil, List.append_nil]
    rfl
  | cons de entries ih =>
    obtain ⟨⟨regular, hregular⟩, hrest⟩ := List.forall_mem_cons.mp h
    have hround : collectShard shards (.ok de) =
        .ok (shards ++ [de].filter AuditEntry.isShard) := by
      cases regular with
      | false => simp [collectShard, AuditEntry.isShard, hregular]
      | true =>
        by_cases hname : isShardFilename de.filename = true
        · simp [collectShard, AuditEntry.isShard, hregular, hname]
        · simp [collectShard, AuditEntry.isShard, hregular, hname]
    rw [List.map_cons, List.foldlM_cons, hround]
    refine (ih hrest _).trans ?_
    rw [List.append_assoc, ← List.filter_append, List.singleton_append]

section Decode

variable {ρ : Type} {deps : AuditDeps ρ} {dir dir' : AuditDir} {entries entries' : List AuditEntry}
  {serverPriv : Bytes} {fuel : ℕ} {out : List ρ}

/-- The shards are decoded in the order of their names. -/
theorem AuditDir.Lists.decodeShardDir_eq (h : dir.Lists entries) :
    decodeShardDir deps dir serverPriv fuel = decodeEntries deps dir serverPriv fuel
      (sortBy AuditEntry.filename (entries.filter AuditEntry.isShard)) [] := by
  rw [decodeShardDir, h.isDirectory, h.listing]
  simp only [foldlM_collectShard h.typed, List.nil_append]

/-- The entry gives these records. -/
def AuditEntry.Gives (deps : AuditDeps ρ) (dir : AuditDir) (serverPriv : Bytes) (fuel : ℕ)
    (de : AuditEntry) (records : List ρ) : Prop :=
  decodeShardFile deps (dir.pathOf de) de.content serverPriv fuel = some (.ok records)

/-- When each file gives its records, the loop gives all of them. -/
theorem decodeEntries_eq_ok {packs : List (List ρ)}
    (h : List.Forall₂ (AuditEntry.Gives deps dir serverPriv fuel) entries packs) (out : List ρ) :
    decodeEntries deps dir serverPriv fuel entries out = some (.ok (out ++ packs.flatten)) := by
  induction h generalizing out with
  | nil => rw [decodeEntries, List.flatten_nil, List.append_nil]
  | cons hfile _ ih =>
    rw [decodeEntries, hfile]
    simp only [ih, List.flatten_cons, List.append_assoc]

/-- If the loop ends, it has decoded all files, or come to the first one that throws. -/
theorem decodeEntries_cases {result : Except String (List ρ)}
    (h : decodeEntries deps dir serverPriv fuel entries out = some result) :
    (∃ packs, List.Forall₂ (AuditEntry.Gives deps dir serverPriv fuel) entries packs ∧
      result = .ok (out ++ packs.flatten)) ∨
    ∃ front de rest packs what, entries = front ++ de :: rest ∧
      List.Forall₂ (AuditEntry.Gives deps dir serverPriv fuel) front packs ∧
      decodeShardFile deps (dir.pathOf de) de.content serverPriv fuel = some (.error what) ∧
      result = .error what := by
  induction entries generalizing out with
  | nil =>
    cases h
    exact .inl ⟨[], .nil, by rw [List.flatten_nil, List.append_nil]⟩
  | cons de entries ih =>
    rw [decodeEntries] at h
    split at h
    · cases h
    · next what hfile =>
      cases h
      exact .inr ⟨[], de, entries, [], what, rfl, .nil, hfile, rfl⟩
    · next recs hfile =>
      rcases ih h with ⟨packs, hall, rfl⟩ | ⟨front, de', rest, packs, what, rfl, hfront, hlast, rfl⟩
      · refine .inl ⟨recs :: packs, .cons hfile hall, ?_⟩
        rw [List.flatten_cons, List.append_assoc]
      · exact .inr ⟨de :: front, de', rest, recs :: packs, what, rfl, .cons hfile hfront, hlast,
          rfl⟩

/-- Two listings of the directory with the same shards are decoded to the same records,
or the same error is thrown: neither their order matters nor what else they show. -/
theorem decodeShardDir_listing (h : dir.Lists entries) (h' : dir'.Lists entries')
    (hpath : dir'.path = dir.path)
    (hnodup : ((entries.filter AuditEntry.isShard).map AuditEntry.filename).Nodup)
    (hperm : (entries.filter AuditEntry.isShard).Perm (entries'.filter AuditEntry.isShard)) :
    decodeShardDir deps dir' serverPriv fuel = decodeShardDir deps dir serverPriv fuel := by
  have hloop : ∀ (shards : List AuditEntry) (out : List ρ),
      decodeEntries deps dir' serverPriv fuel shards out =
        decodeEntries deps dir serverPriv fuel shards out := by
    intro shards
    induction shards with
    | nil => exact fun _ => rfl
    | cons de shards ih =>
      intro out
      have hpathOf : dir'.pathOf de = dir.pathOf de := by
        rw [AuditDir.pathOf, AuditDir.pathOf, hpath]
      rw [decodeEntries, decodeEntries, hpathOf]
      simp only [ih]
  rw [h.decodeShardDir_eq, h'.decodeShardDir_eq, sortBy_eq_of_perm hnodup hperm, hloop]

end Decode

-- ═══════════════════════════════════════════════════════════════════════════
-- What is printed
-- ═══════════════════════════════════════════════════════════════════════════

section Main

variable {deps : AuditDeps LogRecord} {files : DecoderFiles} {entries : List AuditEntry}
  {priv : Bytes} {fuel : ℕ} {argv0 target keyPath : String} {o : DecoderOutcome}

/-- The program is run with `--json` on a directory. If it ends, then either all shards are
decoded, it exits with 0, and its output has a line for each record, the shards in the
order of their names, and the line is read as the object of the record; or it exits with
1, says what is wrong with the first shard that cannot be decoded, and prints nothing. -/
theorem logDecoder_json_directory (htarget : files.targetExists = .ok true)
    (hkey : files.key = some priv) (hpriv : priv.length = kServerPrivBytes)
    (hdir : files.targetIsDirectory = .ok true) (hlists : files.dir.Lists entries)
    (h : logDecoder deps [argv0, target, keyPath, "--json"] files fuel = some o) :
    (∃ packs, List.Forall₂ (AuditEntry.Gives deps files.dir priv fuel)
        (sortBy AuditEntry.filename (entries.filter AuditEntry.isShard)) packs ∧
      o.exitCode = 0 ∧ ∃ lines : List Bytes, o.stdout.splitOn 10 = lines ++ [[]] ∧
        lines.map Json.parse = packs.flatten.map fun r => some r.toJson) ∨
    ∃ front de rest packs what,
      sortBy AuditEntry.filename (entries.filter AuditEntry.isShard) = front ++ de :: rest ∧
      List.Forall₂ (AuditEntry.Gives deps files.dir priv fuel) front packs ∧
      decodeShardFile deps (files.dir.pathOf de) de.content priv fuel = some (.error what) ∧
      o = ⟨[], "log_decoder: " ++ what ++ "\n", 1⟩ := by
  have htry : decodeTarget deps target keyPath files fuel =
      decodeShardDir deps files.dir priv fuel := by
    rw [decodeTarget, htarget, hkey, hdir]
    simp only [readPrivKey, hpriv, ne_eq, not_true_eq_false, if_false]
  rw [logDecoder, if_pos rfl, decodeAndPrint, htry, hlists.decodeShardDir_eq] at h
  split at h
  · cases h
  · next what hloop =>
    cases h
    rcases decodeEntries_cases hloop with ⟨packs, -, heq⟩ |
      ⟨front, de, rest, packs, what', hsplit, hfront, hlast, heq⟩
    · cases heq
    · cases heq
      exact .inr ⟨front, de, rest, packs, what, hsplit, hfront, hlast, rfl⟩
  · next records hloop =>
    cases h
    rcases decodeEntries_cases hloop with ⟨packs, hall, heq⟩ | ⟨_, _, _, _, _, _, _, _, heq⟩
    · cases heq
      obtain ⟨lines, houtput, hfeed, hparse⟩ := exists_lines packs.flatten
      refine .inl ⟨packs, hall, rfl, lines, ?_, hparse⟩
      exact (congrArg (List.splitOn 10) houtput).trans (Json.splitOn_lines hfeed)
    · cases heq

end Main

/-- A shard without frames, and before it in the listing one that has been cut off. -/
def cutOffEntries : List AuditEntry :=
  [⟨"log-b.bin".toList, .ok true, some [76]⟩,
    ⟨"log-a.bin".toList, .ok true, some (headerText (List.replicate 32 3) (List.replicate 4 0))⟩]

def cutOffFiles : DecoderFiles where
  targetExists := .ok true
  targetIsDirectory := .ok true
  targetIsRegularFile := .ok false
  dir := ⟨"logs", .ok true, cutOffEntries.map .ok⟩
  content := none
  key := some (List.replicate 32 5)

/-- The program reports the second of them and prints nothing. -/
theorem logDecoder_json_directory_cut_off : ∃ front de rest packs what,
    sortBy AuditEntry.filename (cutOffEntries.filter AuditEntry.isShard) = front ++ de :: rest ∧
    List.Forall₂ (AuditEntry.Gives plainSinkDeps.audit cutOffFiles.dir (List.replicate 32 5) 1)
      front packs ∧
    decodeShardFile plainSinkDeps.audit (cutOffFiles.dir.pathOf de) de.content
      (List.replicate 32 5) 1 = some (.error what) := by
  have hrun : logDecoder plainSinkDeps.audit ["log_decoder", "logs", "key", "--json"] cutOffFiles
      1 = some ⟨[], "log_decoder: audit: short shard header (file truncated?)\n", 1⟩ := by
    decide +kernel
  have hlists : cutOffFiles.dir.Lists cutOffEntries :=
    ⟨rfl, rfl, List.forall_mem_cons.mpr ⟨⟨true, rfl⟩, List.forall_mem_singleton.mpr ⟨true, rfl⟩⟩⟩
  rcases logDecoder_json_directory rfl rfl rfl rfl hlists hrun with
    ⟨_, _, hexit, _⟩ | ⟨front, de, rest, packs, what, hsplit, hfront, hlast, -⟩
  · cases hexit
  · exact ⟨front, de, rest, packs, what, hsplit, hfront, hlast⟩

-- ═══════════════════════════════════════════════════════════════════════════
-- The directory of a sink
-- ═══════════════════════════════════════════════════════════════════════════

/-- What a directory holds under a name when these files have been opened in it, each with
mode `wb`. -/
def contentOf (files : List Shard) (name : FileName) : Option Bytes :=
  (files.reverse.find? fun f => f.path = name).map Shard.bytes

/-- Files with different names all keep their content. -/
theorem contentOf_of_nodup {files : List Shard} {f : Shard} (hnodup : (files.map Shard.path).Nodup)
    (hf : f ∈ files) : contentOf files f.path = some f.bytes := by
  have hreverse : (files.reverse.map Shard.path).Nodup := by
    rw [List.map_reverse]
    exact List.nodup_reverse.mpr hnodup
  rw [contentOf, find_path hreverse (List.mem_reverse.mpr hf), Option.map_some]

/-- The directory shows these files, each once, and nothing else that is a regular file
with the name of a shard. -/
def AuditDir.Shows (dir : AuditDir) (files : List Shard) : Prop :=
  ∃ entries, dir.Lists entries ∧
    ((entries.filter AuditEntry.isShard).map AuditEntry.filename).Perm (files.map Shard.path) ∧
    ∀ de ∈ entries.filter AuditEntry.isShard, de.content = contentOf files de.filename

/-- The records of a file, if it can be decoded. -/
def recordsIn {ρ : Type} (deps : AuditDeps ρ) (serverPriv : Bytes) (fuel : ℕ)
    (content : Option Bytes) : List ρ :=
  match decodeShardFile deps "" content serverPriv fuel with
  | some (.ok records) => records
  | some (.error _) | none => []

section Sink

variable {deps : SinkDeps} {dir : AuditDir} {serverPriv : Bytes} {fuel : ℕ} {files : List Shard}
  {groups : List (List LogEntry)}

/-- The file gives the records of these entries. -/
def Shard.Gives (deps : SinkDeps) (serverPriv : Bytes) (fuel : ℕ) (f : Shard)
    (entries : List LogEntry) : Prop :=
  ∀ path, decodeShardFile deps.audit path (some f.bytes) serverPriv fuel =
    some (.ok (entries.map LogEntry.record))

/-- Each file is found under its name and gives its records. -/
theorem recordsIn_of_gives {content : FileName → Option Bytes}
    (hkept : ∀ f ∈ files, content f.path = some f.bytes)
    (hgives : List.Forall₂ (Shard.Gives deps serverPriv fuel) files groups) :
    (∀ name ∈ files.map Shard.path, ∀ path,
      decodeShardFile deps.audit path (content name) serverPriv fuel =
        some (.ok (recordsIn deps.audit serverPriv fuel (content name)))) ∧
    ((files.map Shard.path).map fun name => recordsIn deps.audit serverPriv fuel (content name)) =
      groups.map (List.map LogEntry.record) := by
  induction hgives with
  | nil => exact ⟨nofun, rfl⟩
  | @cons f es files groups hfile _ ih =>
    obtain ⟨hf, hfiles⟩ := List.forall_mem_cons.mp hkept
    obtain ⟨hall, hmap⟩ := ih hfiles
    have hrecords : recordsIn deps.audit serverPriv fuel (content f.path) =
        es.map LogEntry.record := by
      rw [recordsIn, hf, hfile]
    refine ⟨List.forall_mem_cons.mpr ⟨fun path => ?_, hall⟩, ?_⟩
    · rw [hrecords, hf, hfile]
    · simp only [List.map_cons, hrecords, hmap]

/-- What is read from the files that a directory shows. -/
theorem AuditDir.Shows.decodeShardDir (h : dir.Shows files)
    (hkept : ∀ f ∈ files, contentOf files f.path = some f.bytes)
    (hgives : List.Forall₂ (Shard.Gives deps serverPriv fuel) files groups) :
    ∃ records, decodeShardDir deps.audit dir serverPriv fuel = some (.ok records) ∧
      records.Perm (groups.flatten.map LogEntry.record) ∧
      (InNameOrder (files.map Shard.path) →
        records = groups.flatten.map LogEntry.record) := by
  obtain ⟨entries, hlists, hnames, hcontent⟩ := h
  obtain ⟨hall, hmap⟩ := recordsIn_of_gives hkept hgives
  let shards := sortBy AuditEntry.filename (entries.filter AuditEntry.isShard)
  let recordsOf : FileName → List LogRecord := fun name =>
    recordsIn deps.audit serverPriv fuel (contentOf files name)
  have hsame : (shards.map AuditEntry.filename).Perm (files.map Shard.path) :=
    ((sortBy_perm _ _).map _).trans hnames
  have hpaths : (files.map Shard.path).flatMap recordsOf = groups.flatten.map LogEntry.record := by
    rw [List.map_flatten, ← hmap]
    rfl
  have hloop : List.Forall₂ (AuditEntry.Gives deps.audit dir serverPriv fuel) shards
      ((shards.map AuditEntry.filename).map recordsOf) := by
    rw [List.map_map, List.forall₂_map_right_iff, List.forall₂_same]
    intro de hde
    rw [AuditEntry.Gives, hcontent de ((sortBy_perm _ _).subset hde)]
    exact hall _ (hsame.subset (List.mem_map_of_mem hde)) _
  refine ⟨(shards.map AuditEntry.filename).flatMap recordsOf, ?read, ?perm, fun horder => ?order⟩
  case read => exact hlists.decodeShardDir_eq.trans (decodeEntries_eq_ok hloop [])
  case perm => exact hpaths ▸ hsame.flatMap_right recordsOf
  case order => rw [map_sortBy_eq horder.increasing hnames, hpaths]

variable {T : Type} [DecidableEq T] [Fintype T] {cfg : EffectiveSinkConfig} {answers : SinkAnswers}
  {parts : SinkParts} {s₀ s : SharedSink T}

/-- What threads have logged through a sink whose directory is audited once it has been
destroyed. No `Flush` overlapped a `Log` or another `Flush`, the files of the buffers were
zero-filled, no `Flush` that found a frame failed to construct a buffer, no `fopen` or
`fwrite` failed, there were fewer than `2 ^ 32` openings, and what was logged is UTF-8.
However the directory is listed, and whatever else is in it that is no regular file with
the name of a shard: `DecodeShardDir` returns one record for each message logged but for
as many as were dropped; and it returns them in the order in which the threads got hold
of the mutex, if the order of the names is that of the openings. -/
theorem audit_directory [Nonempty T] (hpriv : serverPriv.length = kServerPrivBytes)
    (hpub : loadServerPublicKey cfg.serverPubKeyPath cfg.serverPubKeyFile =
      .ok (deps.x25519.generatePublicKey serverPriv))
    (hzero : ZeroFiles cfg.storeConfig)
    (hcreate : SharedSink.create deps cfg answers = some (parts, s₀))
    (hr : Reach (sharedStep deps answers parts) (Exclusive Unbroken) s₀ s)
    (hdestroyed : s.phase = .destroyed) (hclean : ∀ c ∈ s.store.env.calls, c.Clean)
    (hutf8 : ∀ e ∈ s.logged, e.2.msg.Utf8)
    (hfew : (answers.firstOpening :: openingsOf parts.writerConfig s₀.store.env.writer
      s.store.env.calls).length < 2 ^ 32)
    (hdir : dir.Shows s.files) :
    ∃ kept : List (T × LogEntry), kept.Sublist s.logged ∧
      kept.length + s.dropped.length = s.logged.length ∧
      (∀ t, ((ofThread t kept).map LogEntry.msg).Sublist (ofThread t s.calls)) ∧
      ∃ n, ∀ fuel, n ≤ fuel → ∃ records,
        LoggerHigh.decodeShardDir deps.audit dir serverPriv fuel = some (.ok records) ∧
        records.Perm (kept.map fun e => e.2.record) ∧
        (InNameOrder (s.files.map Shard.path) → records = kept.map fun e => e.2.record) := by
  obtain ⟨kept, hkept, hlength, horder, groups, hflatten, n, hn⟩ :=
    exists_kept_files hpriv hpub hzero hcreate hr hdestroyed hclean
  obtain ⟨a₀, a, ha₀, hreach, t, -, rfl⟩ := Reach.seenBy hcreate hr
  have hcreated := Created.of_create ha₀
  have hinv := Reach.sinkInv hcreated hreach
  have hwriter : s₀.store.env.writer = a₀.store.env.writer := Option.some.inj <|
    (SharedSink.construct_of_create hcreate).symm.trans hcreated.construct
  have hgood : ∀ e ∈ groups.flatten, e.msg.Utf8 := by
    rw [hflatten]
    exact List.forall_mem_map.mpr fun e he => hutf8 e (hkept.subset he)
  refine ⟨kept, hkept, hlength, horder, n, fun fuel hfuel => ?_⟩
  have hread := hdir.decodeShardDir (fun f hf => inDirectory_run hcreated.construct hinv.written
    (hwriter ▸ hfew) hf) (reads_of_readsAs (hn fuel hfuel) hgood)
  rwa [hflatten, List.map_map] at hread

end Sink

/-- A listing of files in the reverse order of their openings, with one that is no shard. -/
def listingOf (files : List Shard) : AuditDir where
  path := "logs"
  isDirectory := .ok true
  listing := ((⟨"notes.txt".toList, .ok true, some []⟩ : AuditEntry) ::
    files.reverse.map fun f => ⟨f.path, .ok true, contentOf files f.path⟩).map .ok

theorem shows_listingOf {files : List Shard}
    (hnames : (files.map Shard.path).all isShardFilename = true) :
    (listingOf files).Shows files := by
  have hfilter : ((⟨"notes.txt".toList, .ok true, some []⟩ : AuditEntry) ::
      files.reverse.map fun f => ⟨f.path, .ok true, contentOf files f.path⟩).filter
        AuditEntry.isShard =
      files.reverse.map fun f => ⟨f.path, .ok true, contentOf files f.path⟩ := by
    rw [List.filter_cons_of_neg (by decide)]
    refine List.filter_eq_self.mpr (List.forall_mem_map.mpr fun f hf => ?_)
    simp only [List.all_map, List.all_eq_true, Function.comp_apply] at hnames
    exact hnames f (List.mem_reverse.mp hf)
  refine ⟨_, ⟨rfl, rfl, ?typed⟩, ?names, ?content⟩
  case typed =>
    exact List.forall_mem_cons.mpr ⟨⟨true, rfl⟩, List.forall_mem_map.mpr fun _ _ => ⟨true, rfl⟩⟩
  case names =>
    rw [hfilter, List.map_map]
    exact (List.reverse_perm _).map _
  case content =>
    rw [hfilter]
    exact List.forall_mem_map.mpr fun _ _ => rfl

/-- The messages of two threads are read from the directory, with notes in it. -/
theorem audit_directory_two : ∃ (s : SharedSink Bool) (kept : List (Bool × LogEntry)),
    kept.length = 2 ∧ ∃ n, ∀ fuel, n ≤ fuel → ∃ records,
      decodeShardDir plainSinkDeps.audit (listingOf s.files) (List.replicate 32 5) fuel =
        some (.ok records) ∧ records.Perm (kept.map fun e => e.2.record) := by
  obtain ⟨parts, s₀, s, hcreate, hr, hdestroyed, hdropped, hlogged, hclean, hnames, hopenings⟩ :=
    exists_twoLoggers
  have hzero : ZeroFiles (plainSinkConfig 1).storeConfig := by rintro _ _ ⟨⟩
  have htwo := congrArg List.length hlogged
  rw [List.length_map] at htwo
  have hfew : (plainSinkAnswers.firstOpening :: openingsOf parts.writerConfig s₀.store.env.writer
      s.store.env.calls).length < 2 ^ 32 := by
    rw [List.length_cons, hopenings]
    decide
  have hshows : (listingOf s.files).Shows s.files := by
    refine shows_listingOf ?_
    rw [hnames]
    decide
  have hpriv : (List.replicate 32 (5 : UInt8)).length = kServerPrivBytes := rfl
  obtain ⟨kept, -, hlength, -, n, hn⟩ := audit_directory hpriv rfl hzero hcreate hr hdestroyed
    hclean (utf8_twoLoggers hlogged) hfew hshows
  rw [hdropped, htwo] at hlength
  refine ⟨s, kept, hlength, n, fun fuel hfuel => ?_⟩
  obtain ⟨records, hread, hperm, -⟩ := hn fuel hfuel
  exact ⟨records, hread, hperm⟩

end LoggerHigh
