import LoggerHigh.Lib.Trim
import LoggerHigh.Sinks.EvictionRace
import LoggerHigh.Sinks.EvictionSweep
import LoggerHigh.Sinks.ShardDistinct
import LoggerHigh.Sinks.ShardOrder

/-!
# The sweep keeps the newest shards

A sweep removes in the order of the names, so when these are in the order of the
openings the oldest shards go first. This holds across any number of sweeps and any
interleaving with the writer, which rotates also between the listing and the removals.

## Main definitions

- `KeepsOrder` — a step without errors in which names go on and a listing has no hole
- `Oldest` — what a sweep is about to examine are the oldest shards
- `RetentionInv` — what holds between any two steps

## Main results

- `RetentionInv.step` — what every step preserves
- `eviction_keeps_newest` — what has gone is older than all that is left
-/

namespace LoggerHigh

open Transition

section System

variable {κ : Type}

/-- The shards among `old` are older than the other shards of `dir`. -/
def OlderThan (old dir : List FileName) : Prop :=
  ∀ m ∈ dir, looksLikeShard m = true → m ∉ old → ∀ n ∈ old, looksLikeShard n = true → n < m

instance (old dir : List FileName) : Decidable (OlderThan old dir) :=
  inferInstanceAs (Decidable (∀ m ∈ dir, _ → _ → ∀ n ∈ old, _ → _))

/-- What a listing has shown is older than what it has not. -/
def SweepPhase.NoHole (dir : List FileName) : SweepPhase κ → Prop
  | .listing read _ => OlderThan read dir
  | _ => True

instance (dir : List FileName) : (phase : SweepPhase κ) → Decidable (phase.NoHole dir)
  | .listing read _ => inferInstanceAs (Decidable (OlderThan read dir))
  | .idle | .sorted _ _ | .removing _ _ _ => isTrue trivial

/-- No error: the writer's calls succeed, the name of a new shard is greater than that of
the one before it, what has the name of a shard is a regular file, and a listing ends
only when a shard it has not shown is newer than those it has. -/
def KeepsOrder (s : SharedDir κ) : DirEvent → Prop
  | .write c => c.Clean
  | .beginOpen c => c.Clean ∧ s.writer.currentPath < s.writer.nameFor c
  | .readEntry name regular _ => looksLikeShard name = true → regular = true
  | .endListing => s.phase.NoHole s.dir
  | _ => True

instance (s : SharedDir κ) : (ev : DirEvent) → Decidable (KeepsOrder s ev)
  | .write c => inferInstanceAs (Decidable c.Clean)
  | .beginOpen c =>
    inferInstanceAs (Decidable (c.Clean ∧ s.writer.currentPath < s.writer.nameFor c))
  | .readEntry name regular _ =>
    inferInstanceAs (Decidable (looksLikeShard name = true → regular = true))
  | .endListing => inferInstanceAs (Decidable (s.phase.NoHole s.dir))
  | .finishOpen | .beginSweep | .fetchActive | .examineNext => isTrue trivial

end System

/-- The entries a sweep has sorted are the oldest shards of the directory, the oldest
first, and none of them is newer than the current one. -/
structure Oldest (current : FileName) (dir : List FileName) (entries : List Entry) : Prop where
  increasing : (entries.map Entry.filename).Pairwise (· < ·)
  listed : ∀ n ∈ entries.map Entry.filename, n ∈ dir ∧ looksLikeShard n = true
  older : OlderThan (entries.map Entry.filename) dir
  le_current : ∀ n ∈ entries.map Entry.filename, n ≤ current

/-- How far the sweep has got, and with what. -/
def SweepPhase.Ordered {κ : Type} (canon : FileName → κ) (current : FileName)
    (dir : List FileName) : SweepPhase κ → Prop
  | .idle => True
  | .listing read l => (∀ n ∈ read, n ∈ dir) ∧ (l.entries.map Entry.filename).Nodup ∧
    ∀ n, n ∈ l.entries.map Entry.filename ↔ n ∈ read ∧ looksLikeShard n = true
  | .sorted entries _ => Oldest current dir entries
  | .removing active rest _ => Oldest current dir rest ∧ ∃ a, active = some (canon a) ∧
    a ≤ current ∧ ∀ n ∈ rest.map Entry.filename, n ≤ a

/-- What holds between any two steps; `dir₀` are the files the directory had at first. -/
structure RetentionInv {κ : Type} (cfg : ShardWriterConfig) (canon : FileName → κ)
    (dir₀ : List FileName) (s : SharedDir κ) : Prop where
  opens : ∀ c ∈ s.opening, s.writer.Opens cfg c ∧ c.Clean ∧
    s.writer.currentPath < s.writer.nameFor c
  increasing : s.writer.paths.Pairwise (· < ·)
  named : ∀ n ∈ s.writer.paths, looksLikeShard n = true
  current : s.writer.currentPath ∈ s.writer.paths
  newest : ∀ n ∈ dir₀ ++ s.writer.paths, looksLikeShard n = true → n ≤ s.writer.currentPath
  known : ∀ n ∈ s.dir, n ∈ dir₀ ++ s.writer.paths
  nodup : s.dir.Nodup
  live : s.writer.currentPath ∈ s.dir
  /-- What has gone is a shard, and older than the shards that are left. -/
  gone : ∀ n ∈ dir₀ ++ s.writer.paths, n ∉ s.dir →
    looksLikeShard n = true ∧ ∀ m ∈ s.dir, looksLikeShard m = true → n < m
  phase : s.phase.Ordered canon s.writer.currentPath s.dir

section Invariant

variable {cfg : ShardWriterConfig} {cap : ℕ} {κ : Type} [DecidableEq κ] {canon : FileName → κ}
  {dir₀ : List FileName} {s s' : SharedDir κ} {ev : DirEvent} {c : WriteCall}

/-- A newer shard changes nothing about the oldest ones. -/
theorem Oldest.insert {current name : FileName} {dir : List FileName} {entries : List Entry}
    (h : Oldest current dir entries) (hlt : current < name) :
    Oldest name (dir.insert name) entries where
  increasing := h.increasing
  listed n hn := ⟨List.mem_insert_of_mem (h.listed n hn).1, (h.listed n hn).2⟩
  older m hm hshard hnot n hn hold := by
    rcases List.mem_insert_iff.mp hm with rfl | hm
    · exact lt_of_le_of_lt (h.le_current n hn) hlt
    · exact h.older m hm hshard hnot n hn hold
  le_current n hn := le_of_lt (lt_of_le_of_lt (h.le_current n hn) hlt)

/-- The oldest entry is older than every other shard. -/
theorem Oldest.head_lt {current : FileName} {dir : List FileName} {e : Entry} {rest : List Entry}
    (h : Oldest current dir (e :: rest)) {m : FileName} (hm : m ∈ dir)
    (hshard : looksLikeShard m = true) (hne : m ≠ e.filename) : e.filename < m := by
  by_cases hrest : m ∈ rest.map Entry.filename
  · exact (List.pairwise_cons.mp h.increasing).1 m hrest
  · have hnot : m ∉ (e :: rest).map Entry.filename := fun hin =>
      (List.mem_cons.mp hin).elim hne hrest
    exact h.older m hm hshard hnot _ List.mem_cons_self (h.listed _ List.mem_cons_self).2

/-- Without the oldest shard, the next ones are the oldest. -/
theorem Oldest.erase {current : FileName} {dir : List FileName} {e : Entry} {rest : List Entry}
    (h : Oldest current dir (e :: rest)) (hnodup : dir.Nodup) :
    Oldest current (dir.erase e.filename) rest where
  increasing := (List.pairwise_cons.mp h.increasing).2
  listed n hn := by
    have hlt := (List.pairwise_cons.mp h.increasing).1 n hn
    obtain ⟨hdir, hshard⟩ := h.listed n (List.mem_cons_of_mem _ hn)
    exact ⟨(List.mem_erase_of_ne (ne_of_gt hlt)).mpr hdir, hshard⟩
  older m hm hshard hnot n hn hold := by
    obtain ⟨hne, hdir⟩ := hnodup.mem_erase_iff.mp hm
    have hout : m ∉ (e :: rest).map Entry.filename := fun hin =>
      (List.mem_cons.mp hin).elim hne hnot
    exact h.older m hdir hshard hout n (List.mem_cons_of_mem _ hn) hold
  le_current n hn := h.le_current n (List.mem_cons_of_mem _ hn)

theorem Oldest.nil (current : FileName) (dir : List FileName) : Oldest current dir [] :=
  ⟨.nil, List.forall_mem_nil _, fun _ _ _ _ _ hn => absurd hn List.not_mem_nil,
    List.forall_mem_nil _⟩

omit [DecidableEq κ] in
/-- A new shard, newer than all, while a sweep is under way. -/
theorem SweepPhase.Ordered.insert {phase : SweepPhase κ} {current name : FileName}
    {dir : List FileName} (h : phase.Ordered canon current dir) (hlt : current < name) :
    phase.Ordered canon name (dir.insert name) := by
  cases phase with
  | idle => trivial
  | listing read l => exact ⟨fun n hn => List.mem_insert_of_mem (h.1 n hn), h.2⟩
  | sorted entries total => exact Oldest.insert h hlt
  | removing active rest total =>
    obtain ⟨hold, a, hactive, hle, hrest⟩ := h
    exact ⟨hold.insert hlt, a, hactive, le_of_lt (lt_of_le_of_lt hle hlt), hrest⟩

omit [DecidableEq κ] in
/-- A step of the sweep that removes no file. -/
theorem RetentionInv.sweep (h : RetentionInv cfg canon dir₀ s) {phase : SweepPhase κ}
    (hphase : phase.Ordered canon s.writer.currentPath s.dir) :
    RetentionInv cfg canon dir₀ { s with phase := phase } :=
  ⟨h.opens, h.increasing, h.named, h.current, h.newest, h.known, h.nodup, h.live, h.gone, hphase⟩

/-- The paths after a call that opens a shard. -/
theorem paths_onPersist_of_opens {w : ShardWriter} (h : w.Opens cfg c) (hclean : c.Clean) :
    (onPersist cfg c w).paths = w.paths ++ [w.nameFor c] := by
  rw [onPersist_eq, if_neg h.1, if_pos h.2, if_pos hclean.1, paths_appendFrame, paths_reopened,
    hclean.1.1]
  rfl

/-- A call that opens no shard adds no path. -/
theorem paths_onPersist_of_not_opens {w : ShardWriter} (h : ¬ w.Opens cfg c) :
    (onPersist cfg c w).paths = w.paths := by
  rw [onPersist_eq]
  by_cases hne : c.data.length = 0
  · rw [if_pos hne]
  · rw [if_neg hne, if_neg fun hneeds => h ⟨hne, hneeds⟩, paths_appendFrame]

omit [DecidableEq κ] in
/-- `fopen` creates the shard that has been named. -/
theorem RetentionInv.finishOpen (h : RetentionInv cfg canon dir₀ s) (hc : s.opening = some c) :
    RetentionInv cfg canon dir₀ { s with
      writer := onPersist cfg c s.writer
      opening := none
      dir := s.dir.insert (s.writer.nameFor c) } := by
  obtain ⟨hopens, hclean, hlt⟩ := h.opens c hc
  have hpaths := paths_onPersist_of_opens hopens hclean
  have hcurrent := currentPath_onPersist_of_opens hopens
  have hname : looksLikeShard (s.writer.nameFor c) = true := looksLikeShard_makeShardName _ _
  have hbelow : ∀ n ∈ dir₀ ++ s.writer.paths, looksLikeShard n = true → n < s.writer.nameFor c :=
    fun n hn hshard => lt_of_le_of_lt (h.newest n hn hshard) hlt
  have hcases : ∀ n ∈ dir₀ ++ (s.writer.paths ++ [s.writer.nameFor c]),
      n ∈ dir₀ ++ s.writer.paths ∨ n = s.writer.nameFor c := by
    intro n hn
    rw [← List.append_assoc, List.mem_append, List.mem_singleton] at hn
    exact hn
  refine ⟨nofun, ?increasing, ?named, ?current, ?newest, ?known, h.nodup.insert, ?live, ?gone,
    ?phase⟩
  case increasing =>
    rw [hpaths, List.pairwise_append]
    refine ⟨h.increasing, List.pairwise_singleton _ _, fun a ha b hb => ?_⟩
    rw [List.mem_singleton.mp hb]
    exact hbelow a (List.mem_append_right _ ha) (h.named a ha)
  case named =>
    rw [hpaths]
    exact List.forall_mem_append.mpr ⟨h.named, List.forall_mem_singleton.mpr hname⟩
  case current =>
    rw [hcurrent, hpaths]
    exact List.mem_append_right _ List.mem_cons_self
  case newest =>
    intro n hn hshard
    rw [hcurrent]
    rw [hpaths] at hn
    rcases hcases n hn with hn | rfl
    · exact le_of_lt (hbelow n hn hshard)
    · exact le_rfl
  case known =>
    intro n hn
    rw [hpaths, ← List.append_assoc, List.mem_append, List.mem_singleton]
    rcases List.mem_insert_iff.mp hn with rfl | hn
    · exact .inr rfl
    · exact .inl (h.known n hn)
  case live =>
    rw [hcurrent]
    exact List.mem_insert_self
  case gone =>
    intro n hn hnot
    rw [hpaths] at hn
    rw [List.mem_insert_iff, not_or] at hnot
    have hn := (hcases n hn).resolve_right hnot.1
    obtain ⟨hshard, hall⟩ := h.gone n hn hnot.2
    refine ⟨hshard, fun m hm hmshard => ?_⟩
    rcases List.mem_insert_iff.mp hm with rfl | hm
    · exact hbelow n hn hshard
    · exact hall m hm hmshard
  case phase =>
    rw [hcurrent]
    exact h.phase.insert hlt

omit [DecidableEq κ] in
/-- A call that opens no shard. -/
theorem RetentionInv.write (h : RetentionInv cfg canon dir₀ s) (hnone : s.opening = none)
    (hnot : ¬ s.writer.Opens cfg c) :
    RetentionInv cfg canon dir₀ { s with writer := onPersist cfg c s.writer } := by
  have hpaths := paths_onPersist_of_not_opens hnot
  have hcurrent := currentPath_onPersist_of_not_opens hnot
  refine ⟨fun c' hc' => ?opens, ?increasing, ?named, ?current, ?newest, ?known, h.nodup, ?live,
    ?gone, ?phase⟩
  case opens =>
    rw [hnone] at hc'
    cases hc'
  all_goals simp only [hpaths, hcurrent]
  case increasing => exact h.increasing
  case named => exact h.named
  case current => exact h.current
  case newest => exact h.newest
  case known => exact h.known
  case live => exact h.live
  case gone => exact h.gone
  case phase => exact h.phase

/-- What one round of the listing loop adds, when shards are regular files. -/
theorem entries_of_listEntry_regular {l l' : Listing} {name : FileName} {regular : Bool} {size : ℕ}
    (hregular : looksLikeShard name = true → regular = true)
    (h : listEntry l ⟨name, some regular, some size⟩ = some l') :
    l'.entries = l.entries ++ if looksLikeShard name = true then [⟨name, size⟩] else [] := by
  have hec : l.ec = false := by
    by_contra hec
    rw [listEntry_of_ec (eq_true_of_ne_false hec)] at h
    cases h
  rw [listEntry_eq hec] at h
  obtain rfl := Option.some.inj h
  rw [DirEntry.shard]
  by_cases hname : looksLikeShard name = true
  · rw [if_pos ⟨congrArg some (hregular hname), hname⟩, if_pos hname]
    rfl
  · rw [if_neg fun hboth => hname hboth.2, if_neg hname]
    rfl

omit [DecidableEq κ] in
/-- Reading one entry. -/
theorem RetentionInv.readEntry (h : RetentionInv cfg canon dir₀ s) {read : List FileName}
    {l l' : Listing} {name : FileName} {regular : Bool} {size : ℕ}
    (hphase : s.phase = .listing read l) (hdir : name ∈ s.dir) (hnew : name ∉ read)
    (hregular : looksLikeShard name = true → regular = true)
    (hl : listEntry l ⟨name, some regular, some size⟩ = some l') :
    RetentionInv cfg canon dir₀ { s with phase := .listing (name :: read) l' } := by
  have hlisting := h.phase
  rw [hphase] at hlisting
  obtain ⟨hread, hnodup, hmem⟩ := hlisting
  have hentries := entries_of_listEntry_regular hregular hl
  refine h.sweep ⟨List.forall_mem_cons.mpr ⟨hdir, hread⟩, ?nodup, fun n => ?mem⟩
  all_goals rw [hentries, List.map_append]
  case nodup =>
    refine List.nodup_append.mpr ⟨hnodup, by split <;> simp, fun a ha b hb => ?_⟩
    have hb : b = name := by
      revert hb
      split <;> simp
    rintro rfl
    exact hnew (hb ▸ ((hmem a).mp ha).1)
  case mem =>
    rw [List.mem_append, hmem, List.mem_cons]
    by_cases hname : looksLikeShard name = true
    · rw [if_pos hname, List.map_singleton, List.mem_singleton]
      constructor
      · rintro (⟨hn, hshard⟩ | rfl)
        · exact ⟨.inr hn, hshard⟩
        · exact ⟨.inl rfl, hname⟩
      · rintro ⟨rfl | hn, hshard⟩
        · exact .inr rfl
        · exact .inl ⟨hn, hshard⟩
    · rw [if_neg hname, List.map_nil, or_iff_left List.not_mem_nil]
      refine and_congr_left fun hshard => (or_iff_right ?_).symm
      rintro rfl
      exact hname hshard

omit [DecidableEq κ] in
/-- A listing without a hole has found the oldest shards. -/
theorem RetentionInv.oldest (h : RetentionInv cfg canon dir₀ s) {read : List FileName} {l : Listing}
    (hphase : s.phase = .listing read l) (hhole : OlderThan read s.dir) :
    Oldest s.writer.currentPath s.dir (sortEntries l.entries) := by
  have hlisting := h.phase
  rw [hphase] at hlisting
  obtain ⟨hread, hnodup, hmem⟩ := hlisting
  have hperm := (perm_sortEntries l.entries).map Entry.filename
  have hnames : ∀ n, n ∈ (sortEntries l.entries).map Entry.filename ↔
      n ∈ read ∧ looksLikeShard n = true := fun n => hperm.mem_iff.trans (hmem n)
  refine ⟨?increasing, fun n hn => ?listed, fun m hm hshard hnot n hn hold => ?older,
    fun n hn => ?current⟩
  case increasing =>
    have hsorted : ((sortEntries l.entries).map Entry.filename).Pairwise (· ≤ ·) :=
      List.pairwise_map.mpr (List.pairwise_insertionSort _ l.entries)
    exact (hsorted.and (hperm.nodup_iff.mpr hnodup)).imp fun hab => lt_of_le_of_ne hab.1 hab.2
  case listed => exact ⟨hread n ((hnames n).mp hn).1, ((hnames n).mp hn).2⟩
  case older =>
    exact hhole m hm hshard (fun hin => hnot ((hnames m).mpr ⟨hin, hshard⟩)) n ((hnames n).mp hn).1
      hold
  case current =>
    obtain ⟨hin, hshard⟩ := (hnames n).mp hn
    exact h.newest n (h.known n (hread n hin)) hshard

/-- A shard that the removal loop removes is the oldest one and not the current one. -/
theorem RetentionInv.remove (h : RetentionInv cfg canon dir₀ s) {active : Option κ} {e : Entry}
    {rest : List Entry} {total left : ℕ} (hphase : s.phase = .removing active (e :: rest) total)
    (hremove : examine cap total active (some (canon e.filename)) = .remove) :
    RetentionInv cfg canon dir₀ { s with
      dir := s.dir.erase e.filename
      phase := .removing active rest left } := by
  have hremoving := h.phase
  rw [hphase] at hremoving
  obtain ⟨hold, a, rfl, hle, hrest⟩ := hremoving
  have hne : e.filename ≠ a := ne_of_examine_remove hremove
  have hlt : e.filename < s.writer.currentPath :=
    lt_of_lt_of_le (lt_of_le_of_ne (hrest _ List.mem_cons_self) hne) hle
  obtain ⟨-, hshard⟩ := hold.listed e.filename List.mem_cons_self
  refine ⟨h.opens, h.increasing, h.named, h.current, h.newest,
    fun n hn => h.known n (List.mem_of_mem_erase hn),
    h.nodup.erase _, (List.mem_erase_of_ne (ne_of_gt hlt)).mpr h.live, fun n hn hnot => ?gone,
    hold.erase h.nodup, a, rfl, hle, fun n hn => hrest n (List.mem_cons_of_mem _ hn)⟩
  by_cases heq : n = e.filename
  · refine ⟨heq ▸ hshard, fun m hm hmshard => ?_⟩
    obtain ⟨hne, hdir⟩ := h.nodup.mem_erase_iff.mp hm
    exact heq ▸ hold.head_lt hdir hmshard hne
  · obtain ⟨hnshard, hall⟩ := h.gone n hn fun hin => hnot ((List.mem_erase_of_ne heq).mpr hin)
    exact ⟨hnshard, fun m hm => hall m (List.mem_of_mem_erase hm)⟩

/-- Past the active shard there is nothing left to examine. -/
theorem Oldest.rest_eq_nil {current a : FileName} {dir : List FileName} {e : Entry}
    {rest : List Entry} (h : Oldest current dir (e :: rest)) (ha : e.filename = a)
    (hrest : ∀ n ∈ (e :: rest).map Entry.filename, n ≤ a) : rest = [] := by
  cases rest with
  | nil => rfl
  | cons e' rest =>
    have hlt := (List.pairwise_cons.mp h.increasing).1 _ List.mem_cons_self
    have hle := hrest e'.filename (List.mem_cons_of_mem _ List.mem_cons_self)
    exact absurd (lt_of_lt_of_le hlt hle) (ha ▸ lt_irrefl _)

/-- The loop goes past an entry only if it is the active shard. -/
theorem canon_eq_of_examine_skip {total : ℕ} {active cur : Option κ}
    (h : examine cap total active cur = .skip) : cur = active := by
  rw [examine] at h
  split at h
  · cases h
  · split at h
    · next hsame => exact hsame.2.2
    · cases h

/-- One round of the removal loop. -/
theorem RetentionInv.examineNext (h : RetentionInv cfg canon dir₀ s)
    (hcanon : Function.Injective canon) (hstep : s.step cfg cap canon .examineNext = some s') :
    RetentionInv cfg canon dir₀ s' := by
  simp only [SharedDir.step] at hstep
  split at hstep
  · cases hstep
    exact h.sweep trivial
  · next active e rest total hphase =>
    split at hstep
    · cases hstep
      exact h.sweep trivial
    · next hskip =>
      cases hstep
      have hremoving := h.phase
      rw [hphase] at hremoving
      obtain ⟨hold, a, rfl, hle, hrest⟩ := hremoving
      have ha : e.filename = a := hcanon (Option.some.inj (canon_eq_of_examine_skip hskip))
      obtain rfl := hold.rest_eq_nil ha hrest
      exact h.sweep ⟨.nil _ _, a, rfl, hle, List.forall_mem_nil _⟩
    · next hremove =>
      cases hstep
      exact h.remove hphase hremove
  · cases hstep

/-- Every step that keeps the order keeps the invariant. -/
theorem RetentionInv.step (h : RetentionInv cfg canon dir₀ s) (hcanon : Function.Injective canon)
    (hok : KeepsOrder s ev) (hstep : s.step cfg cap canon ev = some s') :
    RetentionInv cfg canon dir₀ s' := by
  cases ev with
  | write c =>
    simp only [SharedDir.step] at hstep
    split at hstep
    · next hc =>
      cases hstep
      exact h.write hc.1 hc.2
    · cases hstep
  | beginOpen c =>
    simp only [SharedDir.step] at hstep
    split at hstep
    · next hc =>
      cases hstep
      refine ⟨fun c' hc' => ?_, h.increasing, h.named, h.current, h.newest, h.known, h.nodup,
        h.live,
        h.gone, h.phase⟩
      cases hc'
      exact ⟨hc.2, hok.1, hok.2⟩
    · cases hstep
  | finishOpen =>
    simp only [SharedDir.step] at hstep
    split at hstep
    · next c hc =>
      cases hstep
      exact h.finishOpen hc
    · cases hstep
  | beginSweep =>
    simp only [SharedDir.step] at hstep
    split at hstep
    · cases hstep
      refine h.sweep ⟨List.forall_mem_nil _, List.nodup_nil, fun n => ?_⟩
      exact iff_of_false List.not_mem_nil fun hn => List.not_mem_nil hn.1
    · cases hstep
  | readEntry name regular size =>
    simp only [SharedDir.step] at hstep
    split at hstep
    · next read l hphase =>
      split at hstep
      · next hc =>
        obtain ⟨l', hl, rfl⟩ := Option.map_eq_some_iff.mp hstep
        exact h.readEntry hphase hc.1 hc.2 hok hl
      · cases hstep
    · cases hstep
  | endListing =>
    simp only [SharedDir.step] at hstep
    split at hstep
    · next read l hphase =>
      cases hstep
      have hhole : s.phase.NoHole s.dir := hok
      rw [hphase] at hhole
      split
      · exact h.sweep trivial
      · exact h.sweep (h.oldest hphase hhole)
    · cases hstep
  | fetchActive =>
    simp only [SharedDir.step] at hstep
    split at hstep
    · next entries total hphase =>
      split at hstep
      · next hnone =>
        cases hstep
        have hold := h.phase
        rw [hphase] at hold
        have hcurrent : s.currentPath = s.writer.currentPath := by rw [SharedDir.currentPath, hnone]
        exact h.sweep ⟨hold, _, rfl, le_of_eq hcurrent, fun n hn => hcurrent ▸ hold.le_current n hn⟩
      · cases hstep
    · cases hstep
  | examineNext => exact h.examineNext hcanon hstep

end Invariant

/-- The invariant holds in every state a writer that has just been constructed and an
evictor that has not swept yet can reach. -/
theorem RetentionInv.of_reach {κ : Type} [DecidableEq κ] {cfg : ShardWriterConfig} {cap : ℕ}
    {canon : FileName → κ} {o : Opening} {w : ShardWriter} {dir : List FileName} {s : SharedDir κ}
    (hcanon : Function.Injective canon) (h₀ : construct cfg o = some w) (hnodup : dir.Nodup)
    (hlive : w.currentPath ∈ dir)
    (hold : ∀ n ∈ dir, looksLikeShard n = true → n ≤ w.currentPath)
    (hreach : Reach (SharedDir.step cfg cap canon) KeepsOrder (.initial w dir) s) :
    RetentionInv cfg canon dir s := by
  have hinit : RetentionInv cfg canon dir (SharedDir.initial w dir) := by
    obtain ⟨ho, rfl⟩ := eq_reopened_of_construct h₀
    have hpaths : (ShardWriter.reopened cfg o .initial).paths = [makeShardName o.clock 0] := by
      rw [paths_reopened, ho.1]
      rfl
    have hcurrent :
        (ShardWriter.reopened cfg o .initial).currentPath = makeShardName o.clock 0 := rfl
    have hname : looksLikeShard (makeShardName o.clock 0) = true := looksLikeShard_makeShardName _ _
    rw [hcurrent] at hlive hold
    refine ⟨nofun, ?increasing, ?named, ?current, ?newest, ?known, hnodup, hlive, ?gone, trivial⟩
    all_goals simp only [SharedDir.initial, hpaths, hcurrent]
    case increasing => exact List.pairwise_singleton _ _
    case named => exact List.forall_mem_singleton.mpr hname
    case current => exact List.mem_cons_self
    case newest =>
      exact List.forall_mem_append.mpr ⟨hold, List.forall_mem_singleton.mpr fun _ => le_rfl⟩
    case known => exact fun n hn => List.mem_append_left _ hn
    case gone =>
      intro n hn hnot
      rcases List.mem_append.mp hn with hn | hn
      · exact absurd hn hnot
      · exact absurd hlive (List.mem_singleton.mp hn ▸ hnot)
  exact hreach.invariant hinit fun _ _ _ h hok hstep => h.step hcanon hok hstep

/-- Of the writer's own shards the last ones are left. -/
theorem RetentionInv.exists_drop {κ : Type} {cfg : ShardWriterConfig} {canon : FileName → κ}
    {dir : List FileName} {s : SharedDir κ} (h : RetentionInv cfg canon dir s) :
    ∃ k < s.writer.shards.length,
      s.writer.shards.filter (fun f => f.path ∈ s.dir) = s.writer.shards.drop k := by
  have hsorted : s.writer.shards.Pairwise fun f g => f.path < g.path :=
    List.pairwise_map.mp h.increasing
  obtain ⟨k, hk⟩ := Trim.exists_drop_eq_filter hsorted fun f hf g hg hnot hin =>
    (h.gone f.path (List.mem_append_right dir (List.mem_map_of_mem hf)) hnot).2 g.path hin
      (h.named g.path (List.mem_map_of_mem hg))
  obtain ⟨f, hf, hpath⟩ := List.mem_map.mp h.current
  have hkept : f ∈ s.writer.shards.drop k :=
    hk ▸ List.mem_filter.mpr ⟨hf, decide_eq_true (hpath ▸ h.live)⟩
  have hlength := List.length_pos_of_mem hkept
  rw [List.length_drop] at hlength
  exact ⟨k, Nat.lt_of_sub_pos hlength, hk⟩

/-- Without errors, as long as each shard is named after the one before it in the order
of names and no listing has a hole: whatever the interleaving and however many sweeps
there have been, the current shard is there, only shards have been removed, each of them
older than every shard that is left, and of the writer's own shards the last ones are left. -/
theorem eviction_keeps_newest {κ : Type} [DecidableEq κ] {cfg : ShardWriterConfig} {cap : ℕ}
    {canon : FileName → κ} {o : Opening} {w : ShardWriter} {dir : List FileName} {s : SharedDir κ}
    (hcanon : Function.Injective canon) (h₀ : construct cfg o = some w) (hnodup : dir.Nodup)
    (hlive : w.currentPath ∈ dir)
    (hold : ∀ n ∈ dir, looksLikeShard n = true → n ≤ w.currentPath)
    (hreach : Reach (SharedDir.step cfg cap canon) KeepsOrder (.initial w dir) s) :
    s.writer.currentPath ∈ s.dir ∧
      (∀ n ∈ dir ++ s.writer.paths, n ∉ s.dir →
        looksLikeShard n = true ∧ ∀ m ∈ s.dir, looksLikeShard m = true → n < m) ∧
      ∃ k < s.writer.shards.length,
        s.writer.shards.filter (fun f => f.path ∈ s.dir) = s.writer.shards.drop k := by
  have hinv := RetentionInv.of_reach hcanon h₀ hnodup hlive hold hreach
  exact ⟨hinv.live, hinv.gone, hinv.exists_drop⟩

/-- The writer rotates, and a sweep removes its first shard. -/
def rotateAndSweep : List DirEvent :=
  [.write (cleanCall (List.replicate 12 1)), .beginSweep,
    .readEntry (makeShardName cleanOpening.clock 0) true 60, .beginOpen (cleanCall [2]),
    .finishOpen,
    .readEntry (makeShardName cleanOpening.clock 1) true 49, .endListing, .fetchActive,
    .examineNext, .examineNext]

theorem eviction_keeps_newest_rotated : ∃ (w : ShardWriter) (s : SharedDir FileName),
    construct smallConfig cleanOpening = some w ∧
      s.dir = [makeShardName cleanOpening.clock 1] ∧ s.writer.shards.length = 2 ∧
      s.writer.currentPath ∈ s.dir ∧ ∃ k < s.writer.shards.length,
        s.writer.shards.filter (fun f => f.path ∈ s.dir) = s.writer.shards.drop k := by
  have hrun : ((construct smallConfig cleanOpening).bind fun w =>
      (run (guarded (SharedDir.step smallConfig 100 id) KeepsOrder)
        (.initial w [w.currentPath]) rotateAndSweep).map fun s =>
          (s.dir, s.writer.shards.length)) =
      some ([makeShardName cleanOpening.clock 1], 2) := by decide +kernel
  obtain ⟨w, h₀, hrun⟩ := Option.bind_eq_some_iff.mp hrun
  obtain ⟨s, hs, hpair⟩ := Option.map_eq_some_iff.mp hrun
  obtain ⟨hdir, hlength⟩ := Prod.mk.inj hpair
  have hnewest := eviction_keeps_newest Function.injective_id h₀ (List.nodup_singleton _)
    List.mem_cons_self (List.forall_mem_singleton.mpr fun _ => le_rfl) (Reach.of_run_guarded hs)
  exact ⟨w, s, h₀, hdir, hlength, hnewest.1, hnewest.2.2⟩

end LoggerHigh
